import Jcode.Dag.Mention
import Jcode.Support.Positions

/-!
# Dag — what it is to name a node

`mentions_node_id` by bytes, as the source reads its text, and what it decides.  A slice that begins
or ends inside a character stops it, and so does the end of the model's fuel.

* `mentionsBytesFrom_eq`: the bytes never stop it, and it reads what the scan by characters reads.
* `mentionsFrom_eq_true_iff`: the loop visits every occurrence, those that overlap as well.
* `ListOfOthers.run`: in a list of ids, each run of id characters is an id of the list.
* `mentions_exact`: a text names an id exactly when it stands there as a token; and a list of other
  ids does not.
-/

namespace Jcode.Dag
open Occur Positions

/-- What the scan may end with instead of an answer. -/
inductive Halt
  | boundary
  | outOfFuel
  deriving DecidableEq

/-- `&text[i..]`. -/
def sliceFrom (text : List Char) (i : ℕ) : Except Halt (List Char) :=
  match splitAt Char.utf8Size i text with
  | some parts => .ok parts.2
  | none => .error .boundary

/-- `&text[..i]`. -/
def sliceTo (text : List Char) (i : ℕ) : Except Halt (List Char) :=
  match splitAt Char.utf8Size i text with
  | some parts => .ok parts.1
  | none => .error .boundary

/-- `before_ok`. -/
def beforeOkBytes (text : List Char) (begin' : ℕ) : Except Halt Bool :=
  if begin' = 0 then .ok true
  else do
    let before ← sliceTo text begin'
    .ok (!before.getLast?.any isIdChar)

/-- `after_ok`. -/
def afterOkBytes (text : List Char) (end' : ℕ) : Except Halt Bool := do
  let after ← sliceFrom text end'
  match after with
  | [] => .ok true
  | c :: _ =>
      if c == '.' || c == ':' then do
        let next ← sliceFrom text (end' + c.utf8Size)
        .ok (!next.head?.any isIdChar)
      else .ok (!isIdChar c)

/-- The `while` loop of `mentions_node_id`, from the byte `start`. -/
def mentionsBytesFrom (text id : List Char) : ℕ → ℕ → Except Halt Bool
  | 0, _ => .error .outOfFuel
  | fuel + 1, start => do
      let rest ← sliceFrom text start
      match findPiece Char.utf8Size id rest with
      | none => .ok false
      | some pos =>
          let begin' := start + pos
          let end' := begin' + weight Char.utf8Size id
          let beforeOk ← beforeOkBytes text begin'
          let afterOk ← afterOkBytes text end'
          if beforeOk && afterOk then .ok true
          else do
            let here ← sliceFrom text begin'
            let step := (here.head?.map Char.utf8Size).getD 1
            let start := begin' + step
            if weight Char.utf8Size text ≤ start then .ok false
            else mentionsBytesFrom text id fuel start

def mentionsNodeIdBytes (fuel : ℕ) (text id : String) : Except Halt Bool :=
  if id.isEmpty then .ok false else mentionsBytesFrom text.toList id.toList fuel 0

/-! ### Tokens -/

/-- No id character comes before. -/
def BeforeOk (a : List Char) : Prop := a.getLast?.any isIdChar = false

/-- The end of the text, a character that no id has, or punctuation that does not go on. -/
def AfterOk : List Char → Prop
  | [] => True
  | c :: rest => isIdChar c = false ∨ ((c = '.' ∨ c = ':') ∧ rest.head?.any isIdChar = false)

/-- Some occurrence of `id` in `text` is a token of its own. -/
def Names (text id : List Char) : Prop :=
  ∃ a b, text = a ++ id ++ b ∧ BeforeOk a ∧ AfterOk b

/-- An id that neither begins nor ends with punctuation. -/
structure PlainId (id : List Char) : Prop where
  chars : ∀ c ∈ id, isIdChar c = true
  head : ∃ c ∈ id.head?, c ≠ '.' ∧ c ≠ ':'
  last : ∃ c ∈ id.getLast?, c ≠ '.' ∧ c ≠ ':'

/-- A list of ids other than `id`, with characters between them that no id has. -/
inductive ListOfOthers (id : List Char) : List Char → Prop
  | nil : ListOfOthers id []
  | last {other : List Char} : PlainId other → other ≠ id → ListOfOthers id other
  | separator {c : Char} {text : List Char} : isIdChar c = false → ListOfOthers id text →
      ListOfOthers id (c :: text)
  | next {other : List Char} {c : Char} {text : List Char} : PlainId other → other ≠ id →
      isIdChar c = false → ListOfOthers id text → ListOfOthers id (other ++ c :: text)

variable {text id a b r : List Char} {fuel start n : ℕ}

/-! ### The loop by characters -/

theorem findStr_eq (pat : List Char) (text : List Char) : findStr pat text = findAt pat text := by
  induction text with
  | nil => simp [findStr, findAt]
  | cons c text ih => simp [findStr, findAt, ih]

/-- The token at a place. -/
def NamedAt (text id : List Char) (n : ℕ) : Prop :=
  id <+: text.drop n ∧ BeforeOk (text.take n) ∧ AfterOk (text.drop (n + id.length))

theorem names_iff : Names text id ↔ ∃ n ≤ text.length, NamedAt text id n := by
  constructor
  · rintro ⟨a, b, rfl, ha, hb⟩
    refine ⟨a.length, ?_, ?_, ?_, ?_⟩
    · simp only [List.length_append]
      omega
    · rw [List.append_assoc, List.drop_left]
      exact List.prefix_append id b
    · rwa [List.append_assoc, List.take_left]
    · rwa [← List.length_append, List.drop_left]
  · rintro ⟨n, -, ⟨b, hb⟩, hbefore, hafter⟩
    refine ⟨text.take n, b, ?_, hbefore, ?_⟩
    · rw [List.append_assoc, hb, List.take_append_drop]
    · rwa [← List.drop_drop, ← hb, List.drop_left] at hafter

theorem isIdChar_of_dot {c : Char} (h : c = '.' ∨ c = ':') : isIdChar c = true := by
  rcases h with rfl | rfl
  · rfl
  · rfl

/-- What the loop checks at an occurrence. -/
def check (text id : List Char) (n : ℕ) : Bool :=
  (n == 0 || !(text.take n).getLast?.any isIdChar) &&
    match text.drop (n + id.length) with
    | [] => true
    | c :: rest => if c == '.' || c == ':' then !rest.head?.any isIdChar else !isIdChar c

theorem namedAt_iff (hp : id <+: text.drop n) : NamedAt text id n ↔ check text id n = true := by
  have hbefore : BeforeOk (text.take n) ↔
      (n == 0 || !(text.take n).getLast?.any isIdChar) = true := by
    cases n with
    | zero => simp [BeforeOk]
    | succ n => simp [BeforeOk]
  rw [NamedAt, check, Bool.and_eq_true, ← hbefore, and_iff_right hp]
  refine and_congr_right fun _ => ?_
  cases text.drop (n + id.length) with
  | nil => exact iff_of_true trivial rfl
  | cons c rest =>
      by_cases hdot : c = '.' ∨ c = ':'
      · have hid := isIdChar_of_dot hdot
        have hbeq : (c == '.' || c == ':') = true := by simpa using hdot
        simp [AfterOk, hdot, hid, hbeq]
      · have hbeq : (c == '.' || c == ':') = false := by simpa using hdot
        simp [AfterOk, hdot, hbeq]

theorem mentionsFrom_succ : mentionsFrom text id (fuel + 1) start =
    match findAt id (text.drop start) with
    | none => false
    | some pos =>
        if check text id (start + pos) then true
        else if start + pos + 1 ≥ text.length then false
        else mentionsFrom text id fuel (start + pos + 1) := by
  rw [mentionsFrom, findStr_eq]
  rfl

/-- **The loop visits every occurrence.** -/
theorem mentionsFrom_eq_true_iff (hid : id ≠ []) (hfuel : text.length < fuel + start)
    (hstart : start ≤ text.length) :
    mentionsFrom text id fuel start = true ↔ ∃ n ≥ start, NamedAt text id n := by
  induction fuel generalizing start with
  | zero => exact absurd hfuel (by omega)
  | succ fuel ih =>
      rw [mentionsFrom_succ]
      cases hfind : findAt id (text.drop start) with
      | none =>
          -- there is no occurrence from here on
          refine iff_of_false nofun ?_
          rintro ⟨n, hn, hp, -, -⟩
          refine findAt_eq_none_iff.mp hfind (hp.isInfix.trans ?_)
          obtain ⟨k, rfl⟩ := Nat.exists_eq_add_of_le hn
          rw [← List.drop_drop]
          exact (List.drop_suffix k _).isInfix
      | some pos =>
          obtain ⟨hpos, hp, hfirst⟩ := findAt_eq_some_iff.mp hfind
          rw [List.length_drop] at hpos
          rw [List.drop_drop] at hp
          have hskip : ∀ n ≥ start, NamedAt text id n → start + pos ≤ n := by
            intro n hn hat
            by_contra hlt
            refine hfirst (n - start) (by omega) ?_
            rw [List.drop_drop, Nat.add_sub_cancel' hn]
            exact hat.1
          have hhere := namedAt_iff hp
          simp only []
          split
          · next hok => exact iff_of_true rfl ⟨start + pos, Nat.le_add_right _ _, hhere.mpr hok⟩
          · next hok =>
              have hnext : (∃ n ≥ start, NamedAt text id n) ↔
                  ∃ n ≥ start + pos + 1, NamedAt text id n := by
                constructor
                · rintro ⟨n, hn, hat⟩
                  have hne : n ≠ start + pos := fun h => hok (hhere.mp (h ▸ hat))
                  have hle := hskip n hn hat
                  exact ⟨n, by omega, hat⟩
                · rintro ⟨n, hn, hat⟩
                  exact ⟨n, by omega, hat⟩
              rw [hnext]
              split
              · next hend =>
                  refine iff_of_false nofun ?_
                  rintro ⟨n, hn, hat⟩
                  have hnil : text.drop n = [] := List.drop_eq_nil_iff.mpr (by omega)
                  have hstands := hat.1
                  rw [hnil, List.prefix_nil] at hstands
                  exact hid hstands
              · next hend => exact ih (by omega) (by omega)

/-! ### The loop by bytes -/

theorem splitAt_take (text : List Char) (n : ℕ) :
    splitAt Char.utf8Size (weight Char.utf8Size (text.take n)) text =
      some (text.take n, text.drop n) :=
  (splitAt_eq_some_iff Char.utf8Size_pos).mpr ⟨(List.take_append_drop n text).symm, rfl⟩

theorem sliceFrom_take (text : List Char) (n : ℕ) :
    sliceFrom text (weight Char.utf8Size (text.take n)) = .ok (text.drop n) := by
  rw [sliceFrom, splitAt_take]

theorem sliceTo_take (text : List Char) (n : ℕ) :
    sliceTo text (weight Char.utf8Size (text.take n)) = .ok (text.take n) := by
  rw [sliceTo, splitAt_take]

/-- One character on. -/
theorem weight_take_succ {c : Char} {rest : List Char} (h : text.drop n = c :: rest) :
    weight Char.utf8Size (text.take n) + c.utf8Size =
      weight Char.utf8Size (text.take (n + 1)) := by
  rw [List.take_add, weight_append, h]
  rfl

/-- By bytes or by characters, the end of the text is reached. -/
theorem weight_le_take_iff :
    weight Char.utf8Size text ≤ weight Char.utf8Size (text.take n) ↔ text.length ≤ n := by
  have hweight : weight Char.utf8Size text =
      weight Char.utf8Size (text.take n) + weight Char.utf8Size (text.drop n) := by
    rw [← weight_append, List.take_append_drop]
  rw [← List.drop_eq_nil_iff, ← weight_eq_zero_iff Char.utf8Size_pos]
  omega

theorem beforeOkBytes_eq (hn : n < text.length) :
    beforeOkBytes text (weight Char.utf8Size (text.take n)) =
      .ok (n == 0 || !(text.take n).getLast?.any isIdChar) := by
  cases n with
  | zero => rfl
  | succ n =>
      have hne : weight Char.utf8Size (text.take (n + 1)) ≠ 0 := by
        rw [ne_eq, weight_eq_zero_iff Char.utf8Size_pos, List.take_eq_nil_iff]
        rintro (h | rfl)
        · exact absurd h (Nat.succ_ne_zero n)
        · exact absurd hn (Nat.not_lt_zero _)
      rw [beforeOkBytes, if_neg hne, sliceTo_take]
      rfl

theorem afterOkBytes_eq (text : List Char) (n : ℕ) :
    afterOkBytes text (weight Char.utf8Size (text.take n)) =
      .ok (match text.drop n with
        | [] => true
        | c :: rest => if c == '.' || c == ':' then !rest.head?.any isIdChar else !isIdChar c) := by
  rw [afterOkBytes, sliceFrom_take]
  cases hdrop : text.drop n with
  | nil => rfl
  | cons c rest =>
      have hrest : text.drop (n + 1) = rest := by rw [← List.tail_drop, hdrop, List.tail_cons]
      simp only [bind, Except.bind]
      split
      · rw [weight_take_succ hdrop, sliceFrom_take, hrest]
      · rfl

theorem mentionsBytesFrom_eq (hid : id ≠ []) (hfuel : text.length < fuel + n)
    (hn : n ≤ text.length) :
    mentionsBytesFrom text id fuel (weight Char.utf8Size (text.take n)) =
      .ok (mentionsFrom text id fuel n) := by
  induction fuel generalizing n with
  | zero => exact absurd hfuel (by omega)
  | succ fuel ih =>
      rw [mentionsBytesFrom, sliceFrom_take, mentionsFrom_succ]
      simp only [bind, Except.bind, findPiece]
      cases hfind : findAt id (text.drop n) with
      | none => rfl
      | some pos =>
          obtain ⟨hpos, ⟨b, hb⟩, -⟩ := findAt_eq_some_iff.mp hfind
          rw [List.drop_drop] at hb
          have hbegin : weight Char.utf8Size (text.take n) +
              weight Char.utf8Size ((text.drop n).take pos) =
                weight Char.utf8Size (text.take (n + pos)) := by
            rw [List.take_add, weight_append]
          have hend : weight Char.utf8Size (text.take (n + pos)) + weight Char.utf8Size id =
              weight Char.utf8Size (text.take (n + pos + id.length)) := by
            rw [List.take_add (j := id.length), weight_append, ← hb, List.take_left]
          obtain ⟨c, rest, hdrop⟩ : ∃ c rest, text.drop (n + pos) = c :: rest := by
            obtain ⟨c, tail, hcons⟩ := List.exists_cons_of_ne_nil hid
            exact ⟨c, tail ++ b, by rw [← hb, hcons, List.cons_append]⟩
          have hlt : n + pos < text.length := by
            by_contra hge
            rw [List.drop_eq_nil_iff.mpr (Nat.le_of_not_lt hge)] at hdrop
            cases hdrop
          simp only [Option.map_some, hbegin, hend, beforeOkBytes_eq hlt, afterOkBytes_eq,
            sliceFrom_take, hdrop, List.head?_cons, Option.getD_some, weight_take_succ hdrop, weight_le_take_iff]
          change (if check text id (n + pos) = true then _ else _) = _
          split
          · rfl
          · split
            · rfl
            · exact ih (by omega) (by omega)

/-! ### Lists of ids -/

theorem BeforeOk.right (h : BeforeOk (a ++ b)) : BeforeOk b := by
  rw [BeforeOk, List.getLast?_append] at h
  rw [BeforeOk]
  cases hlast : b.getLast? with
  | none => rfl
  | some c =>
      rw [hlast] at h
      exact h

/-- Before a character that no id has, the id characters end. -/
theorem takeWhile_run (hchars : ∀ c ∈ r, isIdChar c = true)
    (hb : b.head?.any isIdChar = false) : (r ++ b).takeWhile isIdChar = r := by
  rw [List.takeWhile_append_of_pos hchars]
  cases b with
  | nil => exact List.append_nil r
  | cons c b =>
      have hc : isIdChar c = false := hb
      rw [List.takeWhile_cons_of_neg (by rw [hc]; exact Bool.false_ne_true), List.append_nil]

/-- A run of id characters in a text that begins with an id is that id, or lies behind it. -/
theorem run_at_front {other text : List Char} (hother : ∀ c ∈ other, isIdChar c = true)
    (htext : text.head?.any isIdChar = false) (heq : other ++ text = a ++ r ++ b)
    (hchars : ∀ c ∈ r, isIdChar c = true) (ha : BeforeOk a)
    (hb : b.head?.any isIdChar = false) :
    r = other ∨ ∃ a', a = other ++ a' ∧ text = a' ++ r ++ b := by
  rw [List.append_assoc, List.append_eq_append_iff] at heq
  rcases heq with ⟨a', ha', htext'⟩ | ⟨c', hother', hrest⟩
  · exact Or.inr ⟨a', ha', by rw [htext', List.append_assoc]⟩
  · left
    cases hlast : a.getLast? with
    | none =>
        obtain rfl := List.getLast?_eq_none_iff.mp hlast
        obtain rfl : other = c' := hother'
        rw [← takeWhile_run hchars hb, hrest, takeWhile_run hother htext]
    | some d =>
        -- the run would begin inside the id
        have hmem : d ∈ other := by
          rw [hother']
          exact List.mem_append_left _ (List.mem_of_getLast? hlast)
        rw [BeforeOk, hlast, Option.any_some, hother d hmem] at ha
        cases ha

/-- **Each run of id characters is an id of the list.** -/
theorem ListOfOthers.run (h : ListOfOthers id text) (heq : text = a ++ r ++ b) (hr : r ≠ [])
    (hchars : ∀ c ∈ r, isIdChar c = true) (ha : BeforeOk a)
    (hb : b.head?.any isIdChar = false) : PlainId r ∧ r ≠ id := by
  -- a separator is no part of a run, so it lies before it or is what follows
  have hseparator : ∀ {a c text}, isIdChar c = false → c :: text = a ++ r ++ b →
      ∃ a', a = c :: a' ∧ text = a' ++ r ++ b := by
    intro a c text hc heq
    cases a with
    | nil =>
        obtain ⟨d, r', rfl⟩ := List.exists_cons_of_ne_nil hr
        obtain rfl := (List.cons.inj heq).1
        exact absurd (hchars _ List.mem_cons_self) (by simp [hc])
    | cons d a' =>
        obtain ⟨rfl, htext⟩ := List.cons.inj heq
        exact ⟨a', rfl, htext⟩
  induction h generalizing a with
  | nil =>
      obtain ⟨har, -⟩ := List.append_eq_nil_iff.mp heq.symm
      exact absurd (List.append_eq_nil_iff.mp har).2 hr
  | @last other hplain hne =>
      have hend : ([] : List Char).head?.any isIdChar = false := rfl
      have heq' : other ++ [] = a ++ r ++ b := (List.append_nil other).trans heq
      rcases run_at_front hplain.chars hend heq' hchars ha hb with rfl | ⟨a', -, hnil⟩
      · exact ⟨hplain, hne⟩
      · obtain ⟨har, -⟩ := List.append_eq_nil_iff.mp hnil.symm
        exact absurd (List.append_eq_nil_iff.mp har).2 hr
  | separator hc _ ih =>
      obtain ⟨a', rfl, htext⟩ := hseparator hc heq
      exact ih htext (BeforeOk.right (a := [_]) ha)
  | next hplain hne hc _ ih =>
      rcases run_at_front hplain.chars (by simp [hc]) heq hchars ha hb with
        rfl | ⟨a', rfl, hbehind⟩
      · exact ⟨hplain, hne⟩
      · obtain ⟨a', rfl, htext⟩ := hseparator hc hbehind
        exact ih htext (BeforeOk.right (a := [_]) ha.right)

/-- A list of ids names no other id. -/
theorem ListOfOthers.not_names (h : ListOfOthers id text) (hid : PlainId id) : ¬ Names text id := by
  rintro ⟨a, b, rfl, ha, hb⟩
  have hne : id ≠ [] := by
    rintro rfl
    obtain ⟨c, hc, -⟩ := hid.head
    cases hc
  have hmaximal : ∀ {q b'}, b = q ++ b' → (∀ c ∈ q, isIdChar c = true) →
      b'.head?.any isIdChar = false → PlainId (id ++ q) ∧ id ++ q ≠ id := by
    intro q b' hq hchars hb'
    refine h.run (b := b') ?_ (by simp [hne]) ?_ ha hb'
    · rw [hq, List.append_assoc, List.append_assoc, List.append_assoc]
    · exact List.forall_mem_append.mpr ⟨hid.chars, hchars⟩
  cases b with
  | nil => exact (hmaximal (q := []) rfl nofun rfl).2 (List.append_nil id)
  | cons c rest =>
      rcases hb with hc | ⟨hdot, hrest⟩
      · exact (hmaximal (q := []) rfl nofun (by simp [hc])).2 (List.append_nil id)
      · -- the id of the list would end with the punctuation
        have hchar : ∀ d ∈ [c], isIdChar d = true := by
          rw [List.forall_mem_singleton]
          exact isIdChar_of_dot hdot
        obtain ⟨hplain, -⟩ := hmaximal (q := [c]) rfl hchar hrest
        obtain ⟨d, hd, hnot⟩ := hplain.last
        rw [List.getLast?_concat] at hd
        obtain rfl := Option.mem_some_iff.mp hd
        rcases hdot with rfl | rfl
        · exact hnot.1 rfl
        · exact hnot.2 rfl

/-- **Token by token.**  The scan of `text` for `id` ends without a panic, and finds exactly the
occurrences that are tokens of their own; a list of other ids has none. -/
theorem mentions_exact (text id : String) (hid : id ≠ "") :
    (∀ fuel, text.toList.length < fuel →
      mentionsNodeIdBytes fuel text id = .ok (mentionsNodeId text id)) ∧
    (mentionsNodeId text id = true ↔ Names text.toList id.toList) ∧
    (PlainId id.toList → ListOfOthers id.toList text.toList → mentionsNodeId text id = false) := by
  have hempty : id.isEmpty = false := by simpa using hid
  have hchars : id.toList ≠ [] := by simpa using hid
  have hnames : mentionsNodeId text id = true ↔ Names text.toList id.toList := by
    rw [mentionsNodeId, hempty, names_iff]
    simp only [Bool.false_eq_true, if_false]
    rw [mentionsFrom_eq_true_iff hchars (by omega) (Nat.zero_le _)]
    constructor
    · rintro ⟨n, -, hat⟩
      refine ⟨n, ?_, hat⟩
      by_contra hlt
      have hstands := hat.1
      rw [List.drop_eq_nil_iff.mpr (by omega), List.prefix_nil] at hstands
      exact hchars hstands
    · rintro ⟨n, -, hat⟩
      exact ⟨n, Nat.zero_le n, hat⟩
  refine ⟨fun fuel hfuel => ?_, hnames, fun hplain hlist => ?_⟩
  · have hloop := mentionsBytesFrom_eq hchars hfuel (Nat.zero_le _)
    have hfuels : mentionsFrom text.toList id.toList fuel 0 =
        mentionsFrom text.toList id.toList (text.toList.length + 1) 0 := by
      rw [Bool.eq_iff_iff, mentionsFrom_eq_true_iff hchars hfuel (Nat.zero_le _),
        mentionsFrom_eq_true_iff hchars (Nat.lt_succ_self _) (Nat.zero_le _)]
    rw [mentionsNodeIdBytes, mentionsNodeId, hempty, ← hfuels]
    exact hloop
  · rw [Bool.eq_false_iff, ne_eq, hnames]
    exact hlist.not_names hplain

/-- `root.gap` is named at the end of a sentence, and not in a list that has `root.gap.x`. -/
theorem mentions_exact_punctuation :
    mentionsNodeId "audited root.gap." "root.gap" = true ∧
      mentionsNodeId "root, root.gap.x" "root.gap" = false := by
  have hid : "root.gap" ≠ "" := by decide
  have hroot : PlainId "root".toList :=
    ⟨by simp [isIdChar, Char.isAlphanum], ⟨'r', rfl, by decide⟩, ⟨'t', rfl, by decide⟩⟩
  have hgap : PlainId "root.gap".toList :=
    ⟨by simp [isIdChar, Char.isAlphanum], ⟨'r', rfl, by decide⟩, ⟨'p', rfl, by decide⟩⟩
  have hx : PlainId "root.gap.x".toList :=
    ⟨by simp [isIdChar, Char.isAlphanum], ⟨'r', rfl, by decide⟩, ⟨'x', rfl, by decide⟩⟩
  refine ⟨(mentions_exact _ _ hid).2.1.mpr ⟨"audited ".toList, ['.'], rfl, rfl, ?_⟩,
    (mentions_exact _ _ hid).2.2 hgap ?_⟩
  · exact Or.inr ⟨Or.inl rfl, rfl⟩
  · exact .next hroot (by decide) rfl (.separator rfl (.last hx (by decide)))

end Jcode.Dag
