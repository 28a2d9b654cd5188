import Jcode.Support.Splice
import Jcode.Tool.ApplyPatch

/-!
# Tool — what the chunks of an update edit

The chunks of an update are sought in the lines of a file, and each has its place: the lines that
are its old lines, but for blanks, or the end of the file, if it has none.  `Edited` says that a text
is that of the file with an edit for every chunk at such a place.

* `apply_update_chunks_iff`: when an update leaves such a text.

Three things go wrong.  An `*** End of File` chunk is sought at the end of the file even where an
earlier chunk has reached, lines are added before a blank last line, and a blank line that comes last
in what is written loses its newline.
-/

namespace Jcode.Tool
open Rust Splice

/-! ### What a chunk edits -/

/-- Lines that are taken for a pattern: as they are, but for the blanks at their ends, or but for
those around them. -/
def Tolerates (lines pattern : List String) : Prop :=
  lines = pattern ∨ lines.map trimEnd = pattern.map trimEnd ∨ lines.map trim = pattern.map trim

def Replacement.edit (r : Replacement) : Edit String := ⟨r.startIdx, r.oldLen, r.newSegment⟩

/-- The lines that a replacement takes. -/
def Replacement.range (r : Replacement) (originalLines : List String) : List String :=
  (originalLines.drop r.startIdx).take r.oldLen

/-- The replacement takes the old lines of the chunk and puts its new lines.  An empty line at the
end of both may be missing. -/
def Replacement.Matches (originalLines : List String) (chunk : UpdateFileChunk)
    (r : Replacement) : Prop :=
  r.startIdx + r.oldLen ≤ originalLines.length ∧
    (Tolerates (r.range originalLines) chunk.oldLines ∧ r.newSegment = chunk.newLines ∨
      chunk.oldLines.getLast? = some "" ∧
        Tolerates (r.range originalLines) chunk.oldLines.dropLast ∧
        r.newSegment =
          if chunk.newLines.getLast? = some "" then chunk.newLines.dropLast else chunk.newLines)

/-- A chunk without old lines puts its lines at the end of the file. -/
def Replacement.Placed (originalLines : List String) (chunk : UpdateFileChunk)
    (r : Replacement) : Prop :=
  if chunk.oldLines = [] then r = ⟨originalLines.length, 0, chunk.newLines⟩
  else r.Matches originalLines chunk

/-- The edits of the chunks, in the order of their places. -/
def editsOf (rs : List Replacement) : List (Edit String) := byStart (rs.map Replacement.edit)

/-- **The chunks edit only what they match.** -/
structure Edited (originalLines : List String) (chunks : List UpdateFileChunk)
    (rs : List Replacement) (newContents : String) : Prop where
  placed : List.Forall₂ (Replacement.Placed originalLines) chunks rs
  inOrder : InOrder originalLines.length (editsOf rs)
  text : newContents = text (splice originalLines 0 (editsOf rs))

/-! ### When they do -/

/-- Where the search finds the chunks, with those that have no old lines at the end. -/
def placeAtEnd (originalLines : List String) (chunks : List UpdateFileChunk)
    (rs : List Replacement) : List Replacement :=
  chunks.zipWith
    (fun chunk r =>
      if chunk.oldLines = [] then ⟨originalLines.length, 0, chunk.newLines⟩ else r) rs

/-- No lines are added to a file that ends in a blank line. -/
def AddsAtEnd (originalLines : List String) (chunks : List UpdateFileChunk) : Prop :=
  ∀ chunk ∈ chunks, chunk.oldLines = [] → chunk.newLines ≠ [] →
    originalLines.getLast? ≠ some ""

instance (originalLines : List String) (chunks : List UpdateFileChunk) :
    Decidable (AddsAtEnd originalLines chunks) :=
  inferInstanceAs (Decidable (∀ chunk ∈ chunks, chunk.oldLines = [] → chunk.newLines ≠ [] →
    originalLines.getLast? ≠ some ""))

/-- What is found for one chunk is apart from what is found for another, and the line that comes
last is not blank. -/
def Apart (originalLines : List String) (rs : List Replacement) : Prop :=
  InOrder originalLines.length (editsOf rs) ∧
    last? originalLines originalLines.length (editsOf rs).reverse ≠ some ""

/-! ### What the search finds -/

section
variable {originalLines : List String} {path : String} {lineIndex i : ℕ}
  {chunk : UpdateFileChunk} {r : Replacement}

theorem seekSequence_spec {pattern : List String} {eof : Bool}
    (h : seekSequence originalLines pattern lineIndex eof = some i) :
    Tolerates ((originalLines.drop i).take pattern.length) pattern := by
  rw [seekSequence] at h
  split at h
  · rename_i hempty
    rw [List.isEmpty_iff] at hempty
    rw [hempty]
    exact .inl rfl
  · split at h
    · cases h
    · simp only [Option.or_eq_some_iff] at h
      rcases h with h | ⟨-, h | ⟨-, h⟩⟩
      · exact .inl (by simpa using List.find?_some h)
      · exact .inr (.inl (by simpa using List.find?_some h))
      · exact .inr (.inr (by simpa using List.find?_some h))

theorem seekOldLines_matches (hle : lineIndex ≤ originalLines.length)
    (h : seekOldLines originalLines lineIndex chunk = some r) : r.Matches originalLines chunk := by
  refine ⟨seekOldLines_le hle h, ?_⟩
  rw [seekOldLines] at h
  split at h
  · rename_i startIdx hseek
    cases h
    exact .inl ⟨seekSequence_spec hseek, rfl⟩
  · split at h
    · rename_i hblank
      obtain ⟨startIdx, hseek, rfl⟩ := Option.map_eq_some_iff.mp h
      exact .inr ⟨hblank, seekSequence_spec hseek, rfl⟩
    · cases h

/-- What stands for a chunk in the list of replacements. -/
def Sought (originalLines : List String) (chunk : UpdateFileChunk) (r : Replacement) : Prop :=
  if chunk.oldLines = [] then r = ⟨insertionIdx originalLines, 0, chunk.newLines⟩
  else r.Matches originalLines chunk

theorem replacementsFrom_sought {chunks : List UpdateFileChunk} {rs : List Replacement}
    (hle : lineIndex ≤ originalLines.length)
    (h : replacementsFrom originalLines path lineIndex chunks = .ok rs) :
    List.Forall₂ (Sought originalLines) chunks rs := by
  induction chunks generalizing lineIndex rs with
  | nil =>
      cases h
      exact .nil
  | cons chunk chunks ih =>
      rw [replacementsFrom] at h
      obtain ⟨lineIndex', hcontext, h⟩ := bind_eq_ok.mp h
      have hle' := seekContext_le hle hcontext
      split at h
      · rename_i hempty
        obtain ⟨rs', hrs, h⟩ := bind_eq_ok.mp h
        cases h
        refine .cons ?_ (ih hle' hrs)
        rw [Sought, if_pos (List.isEmpty_iff.mp hempty)]
      · rename_i hne
        split at h
        · rename_i r hseek
          obtain ⟨rs', hrs, h⟩ := bind_eq_ok.mp h
          cases h
          refine .cons ?_ (ih (seekOldLines_le hle' hseek) hrs)
          rw [Sought, if_neg (mt List.isEmpty_iff.mpr hne)]
          exact seekOldLines_matches hle' hseek
        · cases h

theorem placed_placeAtEnd {chunks : List UpdateFileChunk} {rs : List Replacement}
    (h : List.Forall₂ (Sought originalLines) chunks rs) :
    List.Forall₂ (Replacement.Placed originalLines) chunks
      (placeAtEnd originalLines chunks rs) := by
  induction h with
  | nil => exact .nil
  | cons hr _ ih =>
      refine .cons ?_ ih
      rw [Sought] at hr
      rw [Replacement.Placed]
      split
      · rename_i hempty
        exact if_pos hempty
      · rename_i hne
        rw [if_neg hne] at hr
        exact (congrArg _ (if_neg hne)).mpr hr

/-- To place the added lines at the end changes only edits that change nothing. -/
theorem filter_placeAtEnd {chunks : List UpdateFileChunk} {rs : List Replacement}
    (h : List.Forall₂ (Sought originalLines) chunks rs) (hadds : AddsAtEnd originalLines chunks) :
    ((placeAtEnd originalLines chunks rs).map Replacement.edit).filter (fun e => !e.isNoop) =
      (rs.map Replacement.edit).filter fun e => !e.isNoop := by
  induction h with
  | nil => rfl
  | @cons chunk r chunks rs hr _ ih =>
      obtain ⟨hchunk, hadds⟩ := List.forall_mem_cons.mp hadds
      rw [placeAtEnd, List.zipWith_cons_cons, List.map_cons, List.map_cons, List.filter_cons,
        List.filter_cons]
      rw [placeAtEnd] at ih
      rw [ih hadds]
      split
      · rename_i hempty
        rw [Sought, if_pos hempty] at hr
        rw [hr]
        by_cases hnew : chunk.newLines = []
        · rw [hnew]
          rfl
        · rw [insertionIdx, if_neg (hchunk hempty hnew)]
      · rfl

end

/-! ### What is written -/

theorem removeLine_iterate {idx : ℕ} (n : ℕ) {lines : List String} (h : idx ≤ lines.length) :
    (removeLine idx)^[n] lines = lines.take idx ++ lines.drop (idx + n) := by
  induction n with
  | zero => exact (List.take_append_drop idx lines).symm
  | succ n ih =>
      have hlen : (lines.take idx).length = idx := by rw [List.length_take, Nat.min_eq_left h]
      rw [Function.iterate_succ_apply', ih, removeLine]
      split
      · rw [List.eraseIdx_append_of_length_le hlen.le, hlen, Nat.sub_self, List.eraseIdx_zero,
          List.tail_drop, Nat.add_assoc]
      · rename_i hend
        rw [List.length_append, hlen, List.length_drop] at hend
        rw [List.drop_of_length_le (by omega), List.drop_of_length_le (by omega)]

theorem insertIdx_eq (newLine : String) {idx : ℕ} {lines : List String} (h : idx ≤ lines.length) :
    lines.insertIdx idx newLine = lines.take idx ++ newLine :: lines.drop idx := by
  induction idx generalizing lines with
  | zero => rfl
  | succ idx ih =>
      cases lines with
      | nil => cases h
      | cons line lines => exact congrArg (line :: ·) (ih (Nat.le_of_succ_le_succ h))

theorem insertLines_eq {idx : ℕ} {seg lines : List String} (h : idx ≤ lines.length) :
    insertLines idx seg lines = some (lines.take idx ++ (seg ++ lines.drop idx)) := by
  induction seg generalizing idx lines with
  | nil => rw [insertLines, List.nil_append, List.take_append_drop]
  | cons newLine seg ih =>
      have hlen : (lines.take idx).length = idx := by rw [List.length_take, Nat.min_eq_left h]
      have hle : idx + 1 ≤ (lines.insertIdx idx newLine).length := by
        rw [List.length_insertIdx, if_pos h]
        omega
      rw [insertLines, if_pos h, ih hle, insertIdx_eq newLine h, List.take_append, List.drop_append, hlen,
        Nat.add_sub_cancel_left, List.take_of_length_le (hlen.le.trans (Nat.le_succ idx)),
        List.drop_of_length_le (hlen.le.trans (Nat.le_succ idx)), List.nil_append, List.append_assoc]
      rfl

theorem applyReplacement_eq {lines : List String} {r : Replacement}
    (h : r.startIdx ≤ lines.length) : applyReplacement lines r = some (r.edit.apply lines) := by
  have hlen : (lines.take r.startIdx).length = r.startIdx := by
    rw [List.length_take, Nat.min_eq_left h]
  rw [applyReplacement, removeLine_iterate _ h, insertLines_eq, List.take_append_of_le_length hlen.ge,
    List.take_of_length_le hlen.le, List.drop_append_of_le_length hlen.ge,
    List.drop_of_length_le hlen.le]
  · rfl
  · rw [List.length_append, hlen]
    exact Nat.le_add_right _ _

theorem applyReplacements_eq {lines : List String} {rs : List Replacement}
    (hsorted : rs.Pairwise fun a b => a.startIdx ≤ b.startIdx)
    (hle : ∀ r ∈ rs, r.startIdx ≤ lines.length) :
    applyReplacements lines rs = some ((rs.map Replacement.edit).foldr Edit.apply lines) := by
  induction rs with
  | nil => rfl
  | cons r rs ih =>
      obtain ⟨hr, hsorted⟩ := List.pairwise_cons.mp hsorted
      obtain ⟨hrle, hle⟩ := List.forall_mem_cons.mp hle
      have hbefore : r.startIdx ≤ ((rs.map Replacement.edit).foldr Edit.apply lines).length := by
        refine le_length_foldr_apply hrle fun e he => ?_
        obtain ⟨r', hr', rfl⟩ := List.mem_map.mp he
        exact hr r' hr'
      have hrest := ih hsorted hle
      rw [applyReplacements] at hrest ⊢
      rw [List.reverse_cons, List.foldlM_append, hrest, List.map_cons, List.foldr_cons,
        ← applyReplacement_eq hbefore]
      exact bind_pure (applyReplacement _ r)

/-! ### The text of an update -/

section
variable {ls : List String} {path : String} {chunks : List UpdateFileChunk}
  {rs : List Replacement} {oldContents newContents : String}

theorem map_insertionSort_edit (rs : List Replacement) :
    (rs.insertionSort fun a b => a.startIdx ≤ b.startIdx).map Replacement.edit = editsOf rs :=
  List.map_insertionSort (fun a b : Replacement => a.startIdx ≤ b.startIdx)
    (fun e f : Edit String => e.start ≤ f.start) Replacement.edit rs fun _ _ _ _ => Iff.rfl

/-- A blank line that comes last is not ended by a newline. -/
theorem join_newLines (newLines : List String) :
    join "\n" (if newLines.getLast? = some "" then newLines else newLines ++ [""]) =
      text (if newLines.getLast? = some "" then newLines.dropLast else newLines) := by
  split
  · rename_i hblank
    obtain ⟨xs, rfl⟩ := List.getLast?_eq_some_iff.mp hblank
    rw [join_concat_empty, List.dropLast_concat]
  · exact join_concat_empty newLines

/-- **The text of an update**: the replacements are made from the last to the first. -/
theorem applyUpdateChunks_text (hls : ∀ l ∈ ls, IsLine l)
    (h : applyUpdateChunks (some (text ls)) path chunks = some (.ok (oldContents, newContents))) :
    ∃ rs, replacementsFrom ls path 0 chunks = .ok rs ∧
      newContents =
        text (if ((editsOf rs).foldr Edit.apply ls).getLast? = some "" then
          ((editsOf rs).foldr Edit.apply ls).dropLast else (editsOf rs).foldr Edit.apply ls) := by
  have hlines : (if (ls ++ [""]).getLast? = some "" then (ls ++ [""]).dropLast else ls ++ [""]) =
      ls := by
    rw [List.getLast?_concat, if_pos rfl, List.dropLast_concat]
  unfold applyUpdateChunks at h
  simp only [split_text hls, hlines] at h
  split at h
  · cases h
  · rename_i replacements hcompute
    obtain ⟨hsorted, hle⟩ := computeReplacements_spec hcompute
    obtain ⟨rs, hrs, hsort⟩ := bind_eq_ok.mp hcompute
    cases hsort
    rw [applyReplacements_eq hsorted hle, map_insertionSort_edit, Option.map_some] at h
    cases h
    exact ⟨rs, hrs, join_newLines _⟩

/-- Lines added at the end of the file, as long as it does not end in a blank line. -/
theorem foldr_placeAtEnd (hrs : replacementsFrom ls path 0 chunks = .ok rs)
    (hadds : AddsAtEnd ls chunks) :
    (editsOf (placeAtEnd ls chunks rs)).foldr Edit.apply ls =
      (editsOf rs).foldr Edit.apply ls := by
  have hsought := replacementsFrom_sought (Nat.zero_le _) hrs
  rw [← foldr_apply_filter, ← foldr_apply_filter (editsOf rs), editsOf, editsOf, filter_byStart,
    filter_byStart, filter_placeAtEnd hsought hadds]

/-- **Chunks edit only what they match** where they are found apart from each other, no lines are
added to a file that ends in a blank line, and none is left at the end.  Of the places where they
are found this is exact. -/
theorem apply_update_chunks_iff (hls : ∀ l ∈ ls, IsLine l)
    (h : applyUpdateChunks (some (text ls)) path chunks = some (.ok (oldContents, newContents))) :
    ((AddsAtEnd ls chunks ∧ ∃ rs, replacementsFrom ls path 0 chunks = .ok rs ∧
        Apart ls (placeAtEnd ls chunks rs)) → ∃ rs, Edited ls chunks rs newContents) ∧
      ∀ rs, replacementsFrom ls path 0 chunks = .ok rs → AddsAtEnd ls chunks →
        (Edited ls chunks (placeAtEnd ls chunks rs) newContents ↔
          Apart ls (placeAtEnd ls chunks rs)) := by
  have hexact : ∀ rs, replacementsFrom ls path 0 chunks = .ok rs → AddsAtEnd ls chunks →
      (Edited ls chunks (placeAtEnd ls chunks rs) newContents ↔
        Apart ls (placeAtEnd ls chunks rs)) := by
    intro rs hrs hadds
    obtain ⟨rs', hrs', htext⟩ := applyUpdateChunks_text hls h
    cases hrs.symm.trans hrs'
    rw [← foldr_placeAtEnd hrs hadds] at htext
    constructor
    · intro hedited
      have hin := hedited.inOrder
      have hlast := getLast?_splice hin le_rfl
      rw [List.take_length] at hlast
      refine ⟨hin, fun hblank => ?_⟩
      -- the text would lack the newline of its last line
      rw [foldr_apply_of_inOrder hin, hlast, if_pos hblank] at htext
      obtain ⟨xs, hxs⟩ := List.getLast?_eq_some_iff.mp (hlast.trans hblank)
      have hlen := congrArg String.length (hedited.text.symm.trans htext)
      rw [hxs, List.dropLast_concat, text_concat, String.length_append, String.length_append] at hlen
      exact Nat.succ_ne_self _ hlen
    · rintro ⟨hin, hblank⟩
      have hlast := getLast?_splice hin le_rfl
      rw [List.take_length] at hlast
      rw [foldr_apply_of_inOrder hin, hlast, if_neg hblank] at htext
      exact ⟨placed_placeAtEnd (replacementsFrom_sought (Nat.zero_le _) hrs), hin, htext⟩
  refine ⟨?_, hexact⟩
  rintro ⟨hadds, rs, hrs, hapart⟩
  exact ⟨_, (hexact rs hrs hadds).mpr hapart⟩

/-! ### Chunks that are sought in order -/

theorem seekSequence_ge {lines pattern : List String} {start i : ℕ}
    (h : seekSequence lines pattern start false = some i) : start ≤ i := by
  have hfind : ∀ {p : ℕ → Bool},
      (List.range' start (lines.length - pattern.length + 1 - start)).find? p = some i →
        start ≤ i :=
    fun hi => (List.mem_range'_1.mp (List.mem_of_find?_eq_some hi)).1
  rw [seekSequence] at h
  split at h
  · exact (Option.some.inj h).le
  · split at h
    · cases h
    · simp only [Bool.false_and, Bool.false_eq_true, if_false, Option.or_eq_some_iff] at h
      rcases h with h | ⟨-, h | ⟨-, h⟩⟩
      all_goals exact hfind h

theorem seekContext_ge {lineIndex i : ℕ} {context : Option String}
    (h : seekContext ls path lineIndex context = .ok i) : lineIndex ≤ i := by
  cases context with
  | none => exact (Except.ok.inj h).le
  | some ctxLine =>
      rw [seekContext] at h
      split at h
      · rename_i idx hseek
        cases h
        exact (seekSequence_ge hseek).trans (Nat.le_succ _)
      · cases h

theorem seekOldLines_ge {lineIndex : ℕ} {chunk : UpdateFileChunk} {r : Replacement}
    (heof : chunk.isEndOfFile = false) (h : seekOldLines ls lineIndex chunk = some r) :
    lineIndex ≤ r.startIdx := by
  rw [seekOldLines, heof] at h
  split at h
  · rename_i startIdx hseek
    cases h
    exact seekSequence_ge hseek
  · split at h
    · obtain ⟨startIdx, hseek, rfl⟩ := Option.map_eq_some_iff.mp h
      exact seekSequence_ge hseek
    · cases h

/-- **Only an `*** End of File` chunk can reach back**: the others are found in order, each behind
the one before it. -/
theorem inOrder_placeAtEnd (heof : ∀ chunk ∈ chunks, chunk.isEndOfFile = false)
    (hrs : replacementsFrom ls path 0 chunks = .ok rs) :
    InOrder ls.length (editsOf (placeAtEnd ls chunks rs)) := by
  have hpairs : ∀ lineIndex, lineIndex ≤ ls.length →
      replacementsFrom ls path lineIndex chunks = .ok rs →
      ((placeAtEnd ls chunks rs).map Replacement.edit).Pairwise Splice.Disjoint ∧
        ∀ e ∈ (placeAtEnd ls chunks rs).map Replacement.edit,
          lineIndex ≤ e.start ∧ e.stop ≤ ls.length := by
    clear hrs
    induction chunks generalizing rs with
    | nil =>
        intro lineIndex _ h
        cases h
        exact ⟨.nil, List.forall_mem_nil _⟩
    | cons chunk chunks ih =>
        intro lineIndex hle h
        obtain ⟨hchunk, heof⟩ := List.forall_mem_cons.mp heof
        rw [replacementsFrom] at h
        obtain ⟨lineIndex', hcontext, h⟩ := bind_eq_ok.mp h
        have hle' := seekContext_le hle hcontext
        have hge := seekContext_ge hcontext
        split at h
        · rename_i hempty
          obtain ⟨rs', hrs, h⟩ := bind_eq_ok.mp h
          cases h
          obtain ⟨hpairs, hrest⟩ := ih heof _ hle' hrs
          rw [placeAtEnd, List.zipWith_cons_cons, if_pos (List.isEmpty_iff.mp hempty)]
          refine ⟨List.pairwise_cons.mpr ⟨fun f hf => ?_, hpairs⟩,
            List.forall_mem_cons.mpr ⟨⟨hle, le_rfl⟩, fun f hf => ?_⟩⟩
          · have hstop := (hrest f hf).2
            rcases (f.start_le_stop.trans hstop).lt_or_eq with hlt | heq
            · exact .inr ⟨hstop, hlt⟩
            · exact .inl heq.ge
          · exact ⟨hge.trans (hrest f hf).1, (hrest f hf).2⟩
        · rename_i hne
          split at h
          · rename_i r hseek
            obtain ⟨rs', hrs, h⟩ := bind_eq_ok.mp h
            cases h
            have hstop := seekOldLines_le hle' hseek
            have hstart := hge.trans (seekOldLines_ge hchunk hseek)
            obtain ⟨hpairs, hrest⟩ := ih heof _ hstop hrs
            rw [placeAtEnd, List.zipWith_cons_cons, if_neg (mt List.isEmpty_iff.mpr hne)]
            refine ⟨List.pairwise_cons.mpr ⟨fun f hf => .inl (hrest f hf).1, hpairs⟩,
              List.forall_mem_cons.mpr ⟨⟨hstart, hstop⟩, fun f hf => ?_⟩⟩
            exact ⟨(hstart.trans (Nat.le_add_right _ _)).trans (hrest f hf).1, (hrest f hf).2⟩
          · cases h
  obtain ⟨hpairs, hrest⟩ := hpairs 0 (Nat.zero_le _) hrs
  exact inOrder_byStart hpairs fun e he => (hrest e he).2

end

/-! ### Two updates -/

/-- Of two lines the second is changed, and a third is added. -/
def greeting : List UpdateFileChunk :=
  [⟨none, ["bob "], ["alice"], false⟩, ⟨none, [], ["bye"], false⟩]

theorem apply_update_chunks_iff_greeting :
    applyUpdateChunks (some (text ["hello", "bob"])) "a.txt" greeting =
        some (.ok ("hello\nbob\n", "hello\nalice\nbye\n")) ∧
      ∃ rs, Edited ["hello", "bob"] greeting rs "hello\nalice\nbye\n" := by
  have happly : applyUpdateChunks (some (text ["hello", "bob"])) "a.txt" greeting =
      some (.ok ("hello\nbob\n", "hello\nalice\nbye\n")) := by decide +kernel
  have hrs : replacementsFrom ["hello", "bob"] "a.txt" 0 greeting =
      .ok [⟨1, 1, ["alice"]⟩, ⟨2, 0, ["bye"]⟩] := by decide +kernel
  refine ⟨happly, (apply_update_chunks_iff (by decide) happly).1 ⟨by decide, _, hrs, ?_, ?_⟩⟩
  · exact inOrder_placeAtEnd (by decide) hrs
  · decide

/-- **A blank last line is lost.**  The update changes the line before it. -/
theorem blank_line_lost :
    applyUpdateChunks (some (text ["a", ""])) "a.txt" [⟨none, ["a"], ["b"], false⟩] =
        some (.ok ("a\n\n", "b\n")) ∧
      ¬ ∃ rs, Edited ["a", ""] [⟨none, ["a"], ["b"], false⟩] rs "b\n" := by
  refine ⟨by decide +kernel, ?_⟩
  rintro ⟨rs, hplaced, hin, htext⟩
  cases hplaced with
  | cons hr hnil =>
      rename_i r rs
      cases hnil
      obtain ⟨hle, ⟨hrange, hnew⟩ | ⟨hblank, -⟩⟩ : r.Matches ["a", ""] ⟨none, ["a"], ["b"], false⟩ :=
        hr
      · obtain ⟨startIdx, oldLen, newSegment⟩ := r
        cases hnew
        -- one line is taken, so that two are left
        have hlen : oldLen = 1 := by
          have hrangelen : (Replacement.range ⟨startIdx, oldLen, ["b"]⟩ ["a", ""]).length = 1 := by
            rcases hrange with h | h | h
            · exact congrArg List.length h
            · simpa using congrArg List.length h
            · simpa using congrArg List.length h
          rw [Replacement.range, List.length_take, List.length_drop] at hrangelen
          simp only [List.length_cons, List.length_nil] at hrangelen hle
          omega
        have hstart : startIdx = 0 ∨ startIdx = 1 := by
          simp only [List.length_cons, List.length_nil] at hle
          omega
        rw [hlen] at htext
        rcases hstart with rfl | rfl
        · exact absurd htext (by decide)
        · exact absurd htext (by decide)
      · exact absurd hblank (by decide)

end Jcode.Tool
