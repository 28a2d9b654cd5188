import Jcode.Tool.Patch

/-!
# Tool — where the hunks of a patch stand

A hunk says in its header at which line of the file its old lines stand.  `Patched` says that a text
is that of the file with the old lines of every hunk there, and its new lines in their place;
`Checked`, that a patch leaves such a text or, with an error, the file as it was.

* `apply_patch_with_diff_iff`: when a patch is checked.

Nothing is compared with the old lines, and a line behind the end of the file is a panic.  Lines that
end in a carriage return lose it, the last line gets a newline, and so does a file without lines.
-/

namespace Jcode.Tool
open Rust Splice

/-! ### What a patch should do -/

namespace Hunk

/-- The lines before a hunk.  If it takes no lines, it adds its own behind the line that its header
names. -/
def place (h : Hunk) : ℕ :=
  if h.oldLines = [] ∧ h.newLines ≠ [] then h.oldStart else h.oldStart - 1

/-- The old lines are taken, with their ends.  Every new line ends in a newline. -/
def edit (h : Hunk) : Edit (String × String) :=
  ⟨h.place, h.oldLines.length, h.newLines.map fun l => (l, "\n")⟩

/-- The old lines stand in the file at the line that the header names: the first is line 1. -/
structure Stood (ls : List (String × String)) (h : Hunk) : Prop where
  numbered : h.oldLines ≠ [] → 1 ≤ h.oldStart
  lines : ((ls.drop h.place).take h.oldLines.length).map Prod.fst = h.oldLines

end Hunk

/-- The edits of the hunks, in the order of their places. -/
def patchEdits (hunks : List Hunk) : List (Edit (String × String)) := byStart (hunks.map Hunk.edit)

/-- **The old lines of every hunk** stood in the file and are replaced; the other lines and their ends
are what they were. -/
structure Patched (ls : List (String × String)) (hunks : List Hunk) (newContent : String) :
    Prop where
  stood : ∀ h ∈ hunks, h.Stood ls
  inOrder : InOrder ls.length (patchEdits hunks)
  text : newContent = endedText (splice ls 0 (patchEdits hunks))

/-- What an application that is checked may come to: a panic is none of it. -/
def Checked (hunks : List Hunk) (file : StoredFile) : Option PatchOutcome → Prop
  | none => False
  | some (.error _, after) => after = file
  | some (.ok _, after) => ∃ content newContent,
      file = .text content ∧ after = .text newContent ∧
        Patched (endedLines content) hunks newContent

/-! ### When it does -/

/-- The hunks are where the code makes them: they add lines to a file only with others that they
take, or at its start, and none is displaced by those that are made before it. -/
structure Aimed (hunks : List Hunk) : Prop where
  place_eq : ∀ h ∈ hunks, h.place = h.oldStart - 1
  undisplaced : Undisplaced (hunks.map Hunk.edit)

/-- The old lines are there, and some lines are left, all of them ended by newlines. -/
structure Fits (ls : List (String × String)) (hunks : List Hunk) : Prop where
  stood : ∀ h ∈ hunks, h.Stood ls
  inOrder : InOrder ls.length (patchEdits hunks)
  ne_nil : splice ls 0 (patchEdits hunks) ≠ []
  ended : ∀ l ∈ splice ls 0 (patchEdits hunks), l.2 = "\n"

/-! ### The lines of a patch -/

theorem isLine_of_mem_lines {s l : String} (h : l ∈ lines s) : IsLine l := by
  rw [lines_eq_map_fst] at h
  obtain ⟨l, hl, rfl⟩ := List.mem_map.mp h
  exact (endedLines_spec hl).1

theorem isLine_stripPrefix {line mark content : String} (h : IsLine line)
    (hstrip : stripPrefix line mark = some content) : IsLine content := by
  rw [stripPrefix] at hstrip
  split at hstrip
  · cases hstrip
    rw [IsLine, String.toList_ofList]
    exact fun hc => h (List.mem_of_mem_drop hc)
  · cases hstrip

theorem isLine_hunkLines {ls : List String} (h : ∀ l ∈ ls, IsLine l) :
    ∀ l ∈ (hunkLines ls).1.2, IsLine l := by
  induction ls with
  | nil => exact List.forall_mem_nil _
  | cons line rest ih =>
      obtain ⟨hline, hrest⟩ := List.forall_mem_cons.mp h
      have hnew := ih hrest
      rw [hunkLines]
      split
      · exact List.forall_mem_nil _
      · dsimp only
        split
        · exact hnew
        · split
          · rename_i hstrip
            exact List.forall_mem_cons.mpr ⟨isLine_stripPrefix hline hstrip, hnew⟩
          · split
            · rename_i hstrip
              exact List.forall_mem_cons.mpr ⟨isLine_stripPrefix hline hstrip, hnew⟩
            · exact hnew

theorem isLine_parseHunk {header : String} {rest : List String} {hunk : Hunk}
    (h : ∀ l ∈ rest, IsLine l) (hparse : (parseHunk header rest).1 = some hunk) :
    ∀ l ∈ hunk.newLines, IsLine l := by
  unfold parseHunk at hparse
  split at hparse
  · cases hparse
    exact isLine_hunkLines h
  · cases hparse

theorem isLine_fileHunks {ls : List String} (h : ∀ l ∈ ls, IsLine l) :
    ∀ hunk ∈ (fileHunks ls).1, ∀ l ∈ hunk.newLines, IsLine l := by
  fun_induction fileHunks ls with
  | case1 => exact List.forall_mem_nil _
  | case2 => exact List.forall_mem_nil _
  | case3 line rest hfile hhunk parsed hle hunks after hrest ih =>
      obtain ⟨-, hlines⟩ := List.forall_mem_cons.mp h
      have hafter := ih fun l hl => hlines l ((parseHunk_suffix line rest).subset hl)
      rw [hrest] at hafter
      rintro hunk hmem
      rcases List.mem_append.mp hmem with hmem | hmem
      · exact isLine_parseHunk hlines (Option.mem_toList.mp hmem)
      · exact hafter hunk hmem
  | case4 line rest hfile hhunk ih => exact ih (List.forall_mem_cons.mp h).2

theorem isLine_patchesFrom {ls : List String} (h : ∀ l ∈ ls, IsLine l) :
    ∀ patch ∈ patchesFrom ls, ∀ hunk ∈ patch.hunks, ∀ l ∈ hunk.newLines, IsLine l := by
  fun_induction patchesFrom ls with
  | case1 => exact List.forall_mem_nil _
  | case2 => exact List.forall_mem_nil _
  | case3 line hfile next rest hnext hunks hle patch hne ih =>
      obtain ⟨-, hrest⟩ := List.forall_mem_cons.mp (List.forall_mem_cons.mp h).2
      refine List.forall_mem_cons.mpr ⟨isLine_fileHunks hrest, ?_⟩
      exact ih fun l hl => hrest l ((fileHunks_suffix rest).subset hl)
  | case4 line hfile next rest hnext hunks hle patch hnone ih =>
      obtain ⟨-, hrest⟩ := List.forall_mem_cons.mp (List.forall_mem_cons.mp h).2
      exact ih fun l hl => hrest l ((fileHunks_suffix rest).subset hl)
  | case5 line hfile next rest hnext ih => exact ih (List.forall_mem_cons.mp h).2
  | case6 line rest hfile ih => exact ih (List.forall_mem_cons.mp h).2

theorem isLine_parsePatch {text : String} {patch : FilePatch} (h : patch ∈ parsePatch text) :
    ∀ hunk ∈ patch.hunks, ∀ l ∈ hunk.newLines, IsLine l :=
  isLine_patchesFrom (fun _ => isLine_of_mem_lines) patch h

/-! ### The lines of the file -/

section
variable {ls : List (String × String)} {hunks : List Hunk}

/-- One hunk, made where it should be. -/
theorem applyHunk_edit {h : Hunk} (hplace : h.place = h.oldStart - 1) (hle : h.place ≤ ls.length) :
    applyHunk (ls.map Prod.fst) h = some ((h.edit.apply ls).map Prod.fst) := by
  have hnew : (h.newLines.map fun l => (l, "\n")).map Prod.fst = h.newLines := by
    rw [List.map_map]
    exact List.map_id _
  have hdrop : ∀ stop, ls.drop (min stop ls.length) = ls.drop stop := by
    rintro stop
    rcases le_total stop ls.length with hstop | hstop
    · rw [Nat.min_eq_left hstop]
    · rw [Nat.min_eq_right hstop, List.drop_length, List.drop_of_length_le hstop]
  unfold applyHunk
  dsimp only
  rw [← hplace, List.length_map, if_pos (le_min (Nat.le_add_right _ _) hle), ← List.map_drop, hdrop,
    ← map_apply, Edit.apply, Edit.map, Edit.stop, Hunk.edit, hnew, List.map_drop]

/-- The hunks, made from the last to the first. -/
theorem applyHunks_eq_foldr (haimed : Aimed hunks) (hin : InOrder ls.length (patchEdits hunks)) :
    applyHunks (ls.map Prod.fst) hunks =
      some (((hunks.map Hunk.edit).foldr Edit.apply ls).map Prod.fst) := by
  obtain ⟨hplace, hundisplaced⟩ := haimed
  rw [applyHunks, List.foldlM_reverse]
  induction hunks with
  | nil => rfl
  | cons h hunks ih =>
      obtain ⟨hhead, htail⟩ := List.forall_mem_cons.mp hplace
      obtain ⟨hrest, hle⟩ := start_le_length hin hundisplaced
      rw [List.foldrM_cons, ih hrest htail hundisplaced.2]
      exact applyHunk_edit hhead hle

/-- **The lines that an application leaves** are those of the splice. -/
theorem applyHunks_eq_splice (haimed : Aimed hunks) (hin : InOrder ls.length (patchEdits hunks)) :
    applyHunks (ls.map Prod.fst) hunks =
      some ((splice ls 0 (patchEdits hunks)).map Prod.fst) := by
  rw [applyHunks_eq_foldr haimed hin, foldr_apply hin haimed.undisplaced, patchEdits]

/-- The lines of the splice are lines of the file, or new ones. -/
theorem splice_lines {s : String} (hlines : ∀ h ∈ hunks, ∀ l ∈ h.newLines, IsLine l) :
    ∀ l ∈ splice (endedLines s) 0 (patchEdits hunks),
      IsLine l.1 ∧ (l.2 = "\n" ∨ l.2 = "\r\n" ∨ l.2 = "") := by
  rintro l hl
  rcases mem_splice hl with hl | ⟨e, he, hl⟩
  · exact endedLines_spec hl
  · obtain ⟨h, hh, rfl⟩ := List.mem_map.mp (mem_byStart.mp he)
    obtain ⟨new, hnew, rfl⟩ := List.mem_map.mp hl
    exact ⟨hlines h hh new hnew, .inl rfl⟩

/-- **What is written is the text of the splice** when all its lines end in newlines and there is
one. -/
theorem newContent_eq_iff {spliced : List (String × String)}
    (h : ∀ l ∈ spliced, IsLine l.1 ∧ (l.2 = "\n" ∨ l.2 = "\r\n" ∨ l.2 = "")) :
    join "\n" (spliced.map Prod.fst) ++ "\n" = endedText spliced ↔
      spliced ≠ [] ∧ ∀ l ∈ spliced, l.2 = "\n" := by
  rcases eq_or_ne spliced [] with rfl | hne
  · exact iff_of_false (by decide) fun hand => hand.1 rfl
  · rw [join_append_newline (mt List.map_eq_nil_iff.mp hne), eq_comm, endedText_eq_text_iff h,
      and_iff_right hne]

end

/-! ### When a patch is checked -/

section
variable {changes : String → String → List (ChangeTag × String)} {patch : FilePatch}
  {content : String}

theorem apply_modification (hmod : patch.isNew = false ∧ patch.isDelete = false) :
    applyPatchWithDiff changes patch (.text content) =
      (applyHunks (lines content) patch.hunks).map fun newLines =>
        (.ok ("modified (" ++ toString patch.hunks.length ++ " hunks)",
            generateDiff changes content (join "\n" newLines ++ "\n")
              ((patch.hunks.map (·.oldStart)).min?.getD 1)),
          .text (join "\n" newLines ++ "\n")) := by
  rw [applyPatchWithDiff, hmod.1, hmod.2]
  rfl

/-- On a text, the new content is that which the hunks should leave. -/
theorem checked_text_iff (hmod : patch.isNew = false ∧ patch.isDelete = false) :
    Checked patch.hunks (.text content) (applyPatchWithDiff changes patch (.text content)) ↔
      ∃ newLines, applyHunks (lines content) patch.hunks = some newLines ∧
        Patched (endedLines content) patch.hunks (join "\n" newLines ++ "\n") := by
  rw [apply_modification hmod]
  cases applyHunks (lines content) patch.hunks with
  | none => exact iff_of_false not_false fun ⟨_, h, _⟩ => nomatch h
  | some newLines =>
      constructor
      · rintro ⟨content', newContent, hfile, hafter, hpatched⟩
        cases hfile
        cases hafter
        exact ⟨newLines, rfl, hpatched⟩
      · rintro ⟨newLines', hsome, hpatched⟩
        cases hsome
        exact ⟨content, _, rfl, rfl, hpatched⟩

theorem checked_of_fits (hlines : ∀ h ∈ patch.hunks, ∀ l ∈ h.newLines, IsLine l)
    (hmod : patch.isNew = false ∧ patch.isDelete = false) (haimed : Aimed patch.hunks)
    (h : Fits (endedLines content) patch.hunks) :
    Checked patch.hunks (.text content) (applyPatchWithDiff changes patch (.text content)) := by
  have happly := applyHunks_eq_splice haimed h.inOrder
  have htext := (newContent_eq_iff (splice_lines hlines)).mpr ⟨h.ne_nil, h.ended⟩
  rw [← lines_eq_map_fst] at happly
  exact (checked_text_iff hmod).mpr ⟨_, happly, h.stood, h.inOrder, htext⟩

theorem fits_of_checked (hlines : ∀ h ∈ patch.hunks, ∀ l ∈ h.newLines, IsLine l)
    (hmod : patch.isNew = false ∧ patch.isDelete = false) (haimed : Aimed patch.hunks)
    (h : Checked patch.hunks (.text content) (applyPatchWithDiff changes patch (.text content))) :
    Fits (endedLines content) patch.hunks := by
  obtain ⟨newLines, hsome, hpatched⟩ := (checked_text_iff hmod).mp h
  rw [lines_eq_map_fst, applyHunks_eq_splice haimed hpatched.inOrder] at hsome
  cases hsome
  obtain ⟨hne, hended⟩ := (newContent_eq_iff (splice_lines hlines)).mp hpatched.text
  exact ⟨hpatched.stood, hpatched.inOrder, hne, hended⟩

end

/-- **A patch is checked** where its hunks fit the file and are made where they should be; and of a
patch whose hunks are made there, nowhere else. -/
theorem apply_patch_with_diff_iff (changes : String → String → List (ChangeTag × String))
    {text : String} {patch : FilePatch} (hpatch : patch ∈ parsePatch text)
    (hmod : patch.isNew = false ∧ patch.isDelete = false) {file : StoredFile}
    (hfile : file ≠ .absent) :
    ((∀ content, file = .text content →
        Aimed patch.hunks ∧ Fits (endedLines content) patch.hunks) →
      Checked patch.hunks file (applyPatchWithDiff changes patch file)) ∧
    (Aimed patch.hunks →
      (Checked patch.hunks file (applyPatchWithDiff changes patch file) ↔
        ∀ content, file = .text content → Fits (endedLines content) patch.hunks)) := by
  have hlines := isLine_parsePatch hpatch
  cases file with
  | absent => exact absurd rfl hfile
  | binary =>
      -- the file is not read, and stays
      have hchecked : Checked patch.hunks .binary (applyPatchWithDiff changes patch .binary) := by
        rw [applyPatchWithDiff, hmod.1, hmod.2]
        exact rfl
      exact ⟨fun _ => hchecked, fun _ => iff_of_true hchecked fun _ h => nomatch h⟩
  | text content =>
      refine ⟨fun h => ?_, fun haimed => ⟨fun h content' heq => ?_, fun h => ?_⟩⟩
      · obtain ⟨haimed, hfits⟩ := h content rfl
        exact checked_of_fits hlines hmod haimed hfits
      · cases heq
        exact fits_of_checked hlines hmod haimed h
      · exact checked_of_fits hlines hmod haimed (h content rfl)

/-- A comparison of two texts of one line. -/
def oneLineChanges (old new : String) : List (ChangeTag × String) := [(.delete, old), (.insert, new)]

def greetingHunk : Hunk := ⟨1, ["hello"], ["hi"]⟩

theorem apply_patch_with_diff_greeting :
    Checked [greetingHunk] (.text "hello\n")
      (applyPatchWithDiff oneLineChanges ⟨"f", [greetingHunk], false, false⟩ (.text "hello\n")) := by
  have hpatch : (⟨"f", [greetingHunk], false, false⟩ : FilePatch) ∈
      parsePatch "--- a/f\n+++ b/f\n@@ -1 +1 @@\n-hello\n+hi\n" := by decide +kernel
  have hfile : StoredFile.text "hello\n" ≠ .absent := nofun
  refine (apply_patch_with_diff_iff oneLineChanges hpatch ⟨rfl, rfl⟩ hfile).1 ?_
  rintro content heq
  cases heq
  have hlines : endedLines "hello\n" = [("hello", "\n")] := by decide
  have hstood : greetingHunk.Stood [("hello", "\n")] := ⟨fun _ => le_rfl, rfl⟩
  have hin : InOrder 1 (patchEdits [greetingHunk]) :=
    ⟨List.pairwise_singleton _ _, List.forall_mem_singleton.mpr le_rfl⟩
  rw [hlines]
  refine ⟨⟨List.forall_mem_singleton.mpr rfl, rfl, trivial⟩, ?_⟩
  exact ⟨List.forall_mem_singleton.mpr hstood, hin, List.cons_ne_nil _ _,
    List.forall_mem_singleton.mpr rfl⟩

/-- A line is replaced that is not the one that the hunk takes; and one behind the end of the file is
a panic. -/
theorem hunk_unchecked :
    parsePatch "--- a/f\n+++ b/f\n@@ -1 +1 @@\n-hello\n+hi\n" =
        [⟨"f", [greetingHunk], false, false⟩] ∧
      ¬ Checked [greetingHunk] (.text "bye\n")
        (applyPatchWithDiff oneLineChanges ⟨"f", [greetingHunk], false, false⟩ (.text "bye\n")) ∧
      parsePatch "--- a/f\n+++ b/f\n@@ -9 +9 @@\n-hello\n+hi\n" =
        [⟨"f", [⟨9, ["hello"], ["hi"]⟩], false, false⟩] ∧
      applyPatchWithDiff oneLineChanges ⟨"f", [⟨9, ["hello"], ["hi"]⟩], false, false⟩
        (.text "hello\n") = none := by
  refine ⟨by decide +kernel, ?_, by decide +kernel, by decide +kernel⟩
  rintro hchecked
  obtain ⟨newLines, -, hpatched⟩ :=
    (@checked_text_iff _ ⟨"f", [greetingHunk], false, false⟩ _ ⟨rfl, rfl⟩).mp hchecked
  have hstood := (List.forall_mem_singleton.mp hpatched.stood).lines
  exact absurd hstood (by decide)

end Jcode.Tool
