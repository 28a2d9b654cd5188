import Jcode.Chat.Message

/-!
# Chat — Images

When a request is too large for the provider, the oldest images of the transcript give way to
texts, until the payload of those that are left is small enough.  An image is named by its message
and its place there.

* `images_pairwise`, `mem_images_iff`: the images, in the order of the transcript.
* `strip_least`: which images are replaced, that no fewer would do, and that a second call
  replaces none.
-/

namespace Jcode.Chat

/-! ### The images -/

/-- The images of a message, from the block `bi` on, with the lengths of their payloads. -/
def imagesIn (ci : ℕ) : ℕ → List ContentBlock → List (ℕ × ℕ × ℕ)
  | _, [] => []
  | bi, .image _ data :: blocks => (ci, bi, data.utf8ByteSize) :: imagesIn ci (bi + 1) blocks
  | bi, _ :: blocks => imagesIn ci (bi + 1) blocks

/-- The images of the messages from the message `ci` on, oldest first. -/
def images : ℕ → List (List ContentBlock) → List (ℕ × ℕ × ℕ)
  | _, [] => []
  | ci, content :: contents => imagesIn ci 0 content ++ images (ci + 1) contents

/-- `contents[ci][bi]`. -/
def blockAt (contents : List (List ContentBlock)) (ci bi : ℕ) : Option ContentBlock :=
  contents[ci]?.bind fun content => content[bi]?

/-- `contents[ci][bi] = block`. -/
def setBlock (contents : List (List ContentBlock)) (ci bi : ℕ) (block : ContentBlock) :
    List (List ContentBlock) := contents.modify ci fun content => content.set bi block

/-- An image gives way to a text that says so. -/
def omitted : ContentBlock → ContentBlock
  | .image mediaType data =>
      .text ("[Image omitted during request-size recovery: media_type=" ++ mediaType ++
        ", original_base64_chars=" ++ toString data.utf8ByteSize ++ ". The request body " ++
        "exceeded the provider size limit; older images were dropped. Rely on adjacent " ++
        "browser/tool text, screenshots saved to disk, or re-open/re-screenshot if visual " ++
        "details are needed.]") none
  | block => block

/-- The loop over the images: the payload that is left, and how many images were replaced. -/
def stripFrom (targetTotalChars : ℕ) : List (ℕ × ℕ × ℕ) → (total stripped : ℕ) →
    List (List ContentBlock) → List (List ContentBlock) × ℕ
  | [], _, stripped, contents => (contents, stripped)
  | (ci, bi, payloadLen) :: rest, total, stripped, contents =>
      if total ≤ targetTotalChars then (contents, stripped)
      else
        match blockAt contents ci bi with
        | some (.image mediaType data) =>
            stripFrom targetTotalChars rest (total - payloadLen) (stripped + 1)
              (setBlock contents ci bi (omitted (.image mediaType data)))
        | _ => stripFrom targetTotalChars rest total stripped contents

/-- The payload of some images.  The texts of one process have a total length below `2 ^ 64`, so
that the sums of the program do not saturate. -/
def payload (l : List (ℕ × ℕ × ℕ)) : ℕ := (l.map fun image => image.2.2).sum

def stripLargeImagesInContents (contents : List (List ContentBlock)) (targetTotalChars : ℕ) :
    List (List ContentBlock) × ℕ :=
  let found := images 0 contents
  if payload found ≤ targetTotalChars then (contents, 0)
  else stripFrom targetTotalChars found (payload found) 0 contents

attribute [local grind =] imagesIn images

/-! ### Finding the images -/

/-- The image is the first block, or a later one. -/
theorem exists_image_cons {block : ContentBlock} {content : List ContentBlock} {b bi n : ℕ} :
    (∃ i mediaType data, b = bi + i ∧ (block :: content)[i]? = some (.image mediaType data) ∧
      n = data.utf8ByteSize) ↔
    (∃ mediaType data, b = bi ∧ block = .image mediaType data ∧ n = data.utf8ByteSize) ∨
    ∃ i mediaType data, b = bi + 1 + i ∧ content[i]? = some (.image mediaType data) ∧
      n = data.utf8ByteSize := by
  constructor
  · rintro ⟨i, mediaType, data, hb, hget, hn⟩
    cases i with
    | zero => exact .inl ⟨mediaType, data, hb, Option.some.inj hget, hn⟩
    | succ i => exact .inr ⟨i, mediaType, data, by omega, hget, hn⟩
  · rintro (⟨mediaType, data, hb, rfl, hn⟩ | ⟨i, mediaType, data, hb, hget, hn⟩)
    · exact ⟨0, mediaType, data, hb, rfl, hn⟩
    · exact ⟨i + 1, mediaType, data, by omega, hget, hn⟩

theorem mem_imagesIn_iff {ci c b bi n : ℕ} {content : List ContentBlock} :
    (c, b, n) ∈ imagesIn ci bi content ↔ c = ci ∧ ∃ i mediaType data, b = bi + i ∧
      content[i]? = some (.image mediaType data) ∧ n = data.utf8ByteSize := by
  induction content generalizing bi with
  | nil => simp [imagesIn]
  | cons block content ih =>
      rw [exists_image_cons]
      cases block with
      | image mediaType data =>
          rw [imagesIn, List.mem_cons, ih, and_or_left]
          refine or_congr ?_ .rfl
          simp
      | _ => simp [imagesIn, ih]

theorem mem_images_iff {ci c b n : ℕ} {contents : List (List ContentBlock)} :
    (c, b, n) ∈ images ci contents ↔ ∃ i mediaType data, c = ci + i ∧
      blockAt contents i b = some (.image mediaType data) ∧ n = data.utf8ByteSize := by
  induction contents generalizing ci with
  | nil => simp [images, blockAt]
  | cons content contents ih =>
      rw [images, List.mem_append, mem_imagesIn_iff, ih]
      constructor
      · rintro (⟨rfl, i, mediaType, data, hb, hget, hn⟩ | ⟨i, mediaType, data, hc, hget, hn⟩)
        · refine ⟨0, mediaType, data, rfl, ?_, hn⟩
          rw [blockAt, List.getElem?_cons_zero, Option.bind_some, hb, Nat.zero_add, hget]
        · exact ⟨i + 1, mediaType, data, by omega, hget, hn⟩
      · rintro ⟨i, mediaType, data, hc, hget, hn⟩
        cases i with
        | zero => exact .inl ⟨hc, b, mediaType, data, (Nat.zero_add b).symm, hget, hn⟩
        | succ i => exact .inr ⟨i, mediaType, data, by omega, hget, hn⟩

/-- The order of the transcript. -/
def Before (a b : ℕ × ℕ × ℕ) : Prop := a.1 < b.1 ∨ a.1 = b.1 ∧ a.2.1 < b.2.1

theorem imagesIn_pairwise (ci bi : ℕ) (content : List ContentBlock) :
    (imagesIn ci bi content).Pairwise Before := by
  induction content generalizing bi with
  | nil => exact List.Pairwise.nil
  | cons block content ih =>
      cases block with
      | image mediaType data =>
          refine List.Pairwise.cons ?_ (ih _)
          rintro ⟨c, b, n⟩ hmem
          obtain ⟨rfl, i, -, -, rfl, -, -⟩ := mem_imagesIn_iff.mp hmem
          exact .inr ⟨rfl, by dsimp only; omega⟩
      | _ => exact ih _

/-- **The images are listed in the order of the transcript.** -/
theorem images_pairwise (ci : ℕ) (contents : List (List ContentBlock)) :
    (images ci contents).Pairwise Before := by
  induction contents generalizing ci with
  | nil => exact List.Pairwise.nil
  | cons content contents ih =>
      refine List.pairwise_append.mpr ⟨imagesIn_pairwise ci 0 content, ih _, ?_⟩
      rintro ⟨c, b, n⟩ hmem ⟨c', b', n'⟩ hmem'
      obtain ⟨rfl, -⟩ := mem_imagesIn_iff.mp hmem
      obtain ⟨i, -, -, rfl, -⟩ := mem_images_iff.mp hmem'
      exact .inl (by dsimp only; omega)

/-! ### Replacing them -/

theorem blockAt_setBlock (contents : List (List ContentBlock)) (ci bi : ℕ) (block : ContentBlock)
    (c b : ℕ) : blockAt (setBlock contents ci bi block) c b =
      if (c, b) = (ci, bi) then (blockAt contents c b).map fun _ => block
      else blockAt contents c b := by
  rw [blockAt, setBlock, List.getElem?_modify, blockAt]
  by_cases hc : ci = c
  · subst hc
    cases contents[ci]? with
    | none => simp
    | some content =>
        by_cases hb : bi = b
        · subst hb
          rw [if_pos rfl]
          cases hget : content[bi]? with
          | none => simp [List.getElem?_eq_none_iff.mp hget]
          | some old =>
              have hlt : bi < content.length := (List.getElem?_eq_some_iff.mp hget).1
              simp [hlt]
        · have hne : ¬ (ci, b) = (ci, bi) := fun heq => hb (Prod.mk.inj heq).2.symm
          rw [if_neg hne]
          simp [hb]
  · have hne : ¬ (c, b) = (ci, bi) := fun heq => hc (Prod.mk.inj heq).1.symm
    rw [if_neg hne]
    simp [hc]

theorem setBlock_shape (contents : List (List ContentBlock)) (ci bi : ℕ) (block : ContentBlock) :
    (setBlock contents ci bi block).map List.length = contents.map List.length := by
  refine List.ext_getElem? fun i => ?_
  rw [List.getElem?_map, List.getElem?_map, setBlock, List.getElem?_modify]
  cases contents[i]? with
  | none => rfl
  | some content =>
      by_cases hi : ci = i
      · simp [hi]
      · simp [hi]

theorem omitted_ne_image {block : ContentBlock} {mediaType data : String}
    (himage : ∃ mediaType data, block = .image mediaType data) :
    omitted block ≠ .image mediaType data := by
  obtain ⟨_, _, rfl⟩ := himage
  exact fun h => (by cases h)

/-- The positions of images that are listed in order are different. -/
theorem ne_of_before {a b : ℕ × ℕ × ℕ} (h : Before a b) : (a.1, a.2.1) ≠ (b.1, b.2.1) := by
  intro heq
  obtain ⟨h1, h2⟩ := Prod.mk.inj heq
  rcases h with h | ⟨-, h⟩ <;> omega

/-- The images of the list are still in their places. -/
def InPlace (contents : List (List ContentBlock)) (l : List (ℕ × ℕ × ℕ)) : Prop :=
  ∀ c b n, (c, b, n) ∈ l → ∃ mediaType data,
    blockAt contents c b = some (.image mediaType data) ∧ n = data.utf8ByteSize

/-- Replacing the first image of an ordered list leaves the others in place. -/
theorem InPlace.tail {contents : List (List ContentBlock)} {ci bi n : ℕ} {l : List (ℕ × ℕ × ℕ)}
    (hord : ((ci, bi, n) :: l).Pairwise Before) (hplace : InPlace contents ((ci, bi, n) :: l))
    (block : ContentBlock) : InPlace (setBlock contents ci bi block) l := by
  intro c b m hmem
  have hne := ne_of_before (List.rel_of_pairwise_cons hord hmem)
  obtain ⟨mediaType, data, hblock, hm⟩ := hplace c b m (List.mem_cons_of_mem _ hmem)
  exact ⟨mediaType, data, by rw [blockAt_setBlock, if_neg (Ne.symm hne), hblock], hm⟩

/-- The first images of an ordered list have given way, and nothing else has changed. -/
structure Stripped (before after : List (List ContentBlock)) (l : List (ℕ × ℕ × ℕ)) : Prop where
  shape : after.map List.length = before.map List.length
  gone : ∀ c b n, (c, b, n) ∈ l → blockAt after c b = (blockAt before c b).map omitted
  kept : ∀ c b, (∀ n, (c, b, n) ∉ l) → blockAt after c b = blockAt before c b

/-- One more image in front. -/
theorem Stripped.cons {before after : List (List ContentBlock)} {ci bi n : ℕ}
    {l : List (ℕ × ℕ × ℕ)} {block : ContentBlock}
    (hord : ((ci, bi, n) :: l).Pairwise Before) (hblock : blockAt before ci bi = some block)
    (h : Stripped (setBlock before ci bi (omitted block)) after l) :
    Stripped before after ((ci, bi, n) :: l) := by
  have hne : ∀ c b m, (c, b, m) ∈ l → (c, b) ≠ (ci, bi) :=
    fun c b m hmem => (ne_of_before (List.rel_of_pairwise_cons hord hmem)).symm
  refine ⟨h.shape.trans (setBlock_shape ..), fun c b m hmem => ?_, fun c b hnot => ?_⟩
  · rcases List.mem_cons.mp hmem with heq | hmem
    · cases heq
      rw [h.kept ci bi fun m hm => hne ci bi m hm rfl, blockAt_setBlock, if_pos rfl, hblock]
      rfl
    · rw [h.gone c b m hmem, blockAt_setBlock, if_neg (hne c b m hmem)]
  · have hhead : (c, b) ≠ (ci, bi) := by
      rintro ⟨⟩
      exact hnot n (List.mem_cons_self ..)
    rw [h.kept c b fun m hm => hnot m (List.mem_cons_of_mem _ hm), blockAt_setBlock,
      if_neg hhead]

/-- What the loop does with a list of images in their places. -/
theorem stripFrom_spec (target : ℕ) {l : List (ℕ × ℕ × ℕ)} (stripped : ℕ)
    {contents : List (List ContentBlock)} (hord : l.Pairwise Before)
    (hplace : InPlace contents l) :
    ∃ k ≤ l.length, payload (l.drop k) ≤ target ∧ (∀ j < k, target < payload (l.drop j)) ∧
      (stripFrom target l (payload l) stripped contents).2 = stripped + k ∧
      Stripped contents (stripFrom target l (payload l) stripped contents).1 (l.take k) := by
  induction l generalizing stripped contents with
  | nil =>
      exact ⟨0, le_rfl, Nat.zero_le _, fun j hj => absurd hj (Nat.not_lt_zero j), rfl,
        ⟨rfl, fun c b n hmem => absurd hmem List.not_mem_nil, fun _ _ _ => rfl⟩⟩
  | cons image l ih =>
      obtain ⟨ci, bi, n⟩ := image
      rw [stripFrom]
      by_cases hle : payload ((ci, bi, n) :: l) ≤ target
      · rw [if_pos hle]
        exact ⟨0, Nat.zero_le _, hle, fun j hj => absurd hj (Nat.not_lt_zero j), rfl,
          ⟨rfl, fun c b n hmem => absurd hmem List.not_mem_nil, fun _ _ _ => rfl⟩⟩
      · obtain ⟨mediaType, data, hblock, hn⟩ := hplace ci bi n (List.mem_cons_self ..)
        have hrest : payload ((ci, bi, n) :: l) - n = payload l := by
          rw [payload, List.map_cons, List.sum_cons, Nat.add_sub_cancel_left, payload]
        rw [if_neg hle, hblock]
        dsimp only
        rw [hrest]
        obtain ⟨k, hk, hfits, hleast, hcount, hstrip⟩ := ih (stripped + 1)
          (List.Pairwise.of_cons hord)
          (hplace.tail hord (omitted (.image mediaType data)))
        refine ⟨k + 1, Nat.succ_le_succ hk, hfits, fun j hj => ?_, by omega, ?_⟩
        · cases j with
          | zero => exact not_le.mp hle
          | succ j => exact hleast j (by omega)
        · exact hstrip.cons (hord.sublist ((l.take_sublist k).cons_cons _)) hblock

/-! ### The whole call -/

theorem images_inPlace (contents : List (List ContentBlock)) :
    InPlace contents (images 0 contents) := by
  intro c b n hmem
  obtain ⟨i, mediaType, data, hc, hblock, hn⟩ := mem_images_iff.mp hmem
  rw [Nat.zero_add] at hc
  exact ⟨mediaType, data, by rw [hc, hblock], hn⟩

instance : Std.Irrefl Before where
  irrefl _ h := ne_of_before h rfl

instance : Std.Antisymm Before where
  antisymm a b hab hba := by
    rcases hab with h | ⟨h, h'⟩ <;> rcases hba with h'' | ⟨h'', h'''⟩ <;> omega

/-- What is left of the images. -/
theorem Stripped.images_eq {before after : List (List ContentBlock)} {k : ℕ}
    (h : Stripped before after ((images 0 before).take k)) :
    images 0 after = (images 0 before).drop k := by
  have hsplit := List.take_append_drop k (images 0 before)
  have hord := images_pairwise 0 before
  rw [← hsplit] at hord
  refine List.Pairwise.eq_of_mem_iff (images_pairwise 0 after)
    ((images_pairwise 0 before).sublist (List.drop_sublist k _)) ?_
  rintro ⟨c, b, n⟩
  by_cases htaken : ∃ m, (c, b, m) ∈ (images 0 before).take k
  · obtain ⟨m, hm⟩ := htaken
    constructor
    · intro hmem
      obtain ⟨mediaType, data, hblock, -⟩ := images_inPlace after c b n hmem
      obtain ⟨_, _, hold, -⟩ := images_inPlace before c b m (List.mem_of_mem_take hm)
      rw [h.gone c b m hm, hold, Option.map_some] at hblock
      exact absurd (Option.some.inj hblock) (omitted_ne_image ⟨_, _, rfl⟩)
    · intro hmem
      have hbefore := (List.pairwise_append.mp hord).2.2 (c, b, m) hm (c, b, n) hmem
      exact absurd rfl (ne_of_before hbefore)
  · have hkept := h.kept c b fun m hm => htaken ⟨m, hm⟩
    have hsame : (c, b, n) ∈ images 0 after ↔ (c, b, n) ∈ images 0 before := by
      rw [mem_images_iff, mem_images_iff]
      simp only [Nat.zero_add, exists_and_left, exists_eq_left', hkept]
    rw [hsame]
    conv_lhs => rw [← hsplit]
    rw [List.mem_append]
    exact or_iff_right fun hm => htaken ⟨n, hm⟩

/-- **The oldest images give way, and no more of them than it takes.**  The `k` oldest images are
replaced by their texts, `k` being the least number that leaves a payload within the target, and
nothing else changes; `k` is returned, and a second call has nothing to do. -/
theorem strip_least (contents : List (List ContentBlock)) (target : ℕ) :
    ∃ k ≤ (images 0 contents).length,
      payload ((images 0 contents).drop k) ≤ target ∧
      (∀ j < k, target < payload ((images 0 contents).drop j)) ∧
      (stripLargeImagesInContents contents target).2 = k ∧
      Stripped contents (stripLargeImagesInContents contents target).1
        ((images 0 contents).take k) ∧
      images 0 (stripLargeImagesInContents contents target).1 = (images 0 contents).drop k ∧
      stripLargeImagesInContents (stripLargeImagesInContents contents target).1 target =
        ((stripLargeImagesInContents contents target).1, 0) := by
  have hcall : stripLargeImagesInContents contents target =
      stripFrom target (images 0 contents) (payload (images 0 contents)) 0 contents := by
    by_cases hle : payload (images 0 contents) ≤ target
    · rw [stripLargeImagesInContents, if_pos hle]
      cases himages : images 0 contents with
      | nil => rfl
      | cons image l =>
          obtain ⟨ci, bi, n⟩ := image
          rw [stripFrom, if_pos (himages ▸ hle)]
    · rw [stripLargeImagesInContents, if_neg hle]
  obtain ⟨k, hk, hfits, hleast, hcount, hstrip⟩ :=
    stripFrom_spec target 0 (images_pairwise 0 contents) (images_inPlace contents)
  rw [← hcall, Nat.zero_add] at hcount
  rw [← hcall] at hstrip
  refine ⟨k, hk, hfits, hleast, hcount, hstrip, hstrip.images_eq, ?_⟩
  conv_lhs => rw [stripLargeImagesInContents]
  rw [hstrip.images_eq, if_pos hfits]

end Jcode.Chat
