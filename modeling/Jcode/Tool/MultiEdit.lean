import Jcode.Tool.Edit

/-!
# Tool — multiedit

`MultiEditTool`: a list of edits of one file.  Each is made on what the ones before it have left; one
that cannot be made is reported, and the others go on.  The file is read once and written once.

* `multiedit_eq_edits`: it leaves the file that `edit` leaves, when it is called for one edit after
  another, and reports as applied the edits that `edit` accepts.
-/

namespace Jcode.Tool
open Rust

structure EditOperation where
  oldString : String
  newString : String
  replaceAll : Bool := false
  deriving DecidableEq, Repr

structure MultiEditInput where
  filePath : String
  edits : List EditOperation
  deriving DecidableEq, Repr

/-! ### The tool -/

/-- The variables of the loop. -/
structure MultiEditState where
  content : String
  applied : List String := []
  failed : List String := []
  deriving DecidableEq, Repr

namespace MultiEditState

/-- One pass of the loop, for the edit of this number. -/
def pass (s : MultiEditState) (number : ℕ) (edit : EditOperation) : MultiEditState :=
  if edit.oldString = edit.newString then
    { s with failed := s.failed ++ [s!"Edit {number}: old_string equals new_string"] }
  else
    let occurrences := (matchIndices s.content edit.oldString).length
    if occurrences = 0 then
      { s with failed := s.failed ++ [s!"Edit {number}: old_string not found"] }
    else if 1 < occurrences ∧ edit.replaceAll = false then
      { s with failed := s.failed ++ [s!"Edit {number}: found {occurrences} occurrences, " ++
          "use replace_all or be more specific"] }
    else if edit.replaceAll then
      { s with
        content := replace s.content edit.oldString edit.newString
        applied := s.applied ++ [s!"Edit {number}: replaced {occurrences} occurrences"] }
    else
      { s with
        content := replacen s.content edit.oldString edit.newString 1
        applied := s.applied ++ [s!"Edit {number}: replaced 1 occurrence"] }

/-- The loop, after `i` edits. -/
def passes (s : MultiEditState) (i : ℕ) : List EditOperation → MultiEditState
  | [] => s
  | edit :: edits => (s.pass (i + 1) edit).passes (i + 1) edits

end MultiEditState

/-- The loop of `generate_diff_summary`, which shows thirty lines at most. -/
def multiEditDiffFrom (oldLine newLine linesShown : ℕ) : List (ChangeTag × String) → String
  | [] => ""
  | (.equal, _) :: rest => multiEditDiffFrom (oldLine + 1) (newLine + 1) linesShown rest
  | (.delete, value) :: rest =>
      if (trim value).isEmpty then multiEditDiffFrom (oldLine + 1) newLine linesShown rest
      else if 30 ≤ linesShown then "...\n"
      else toString oldLine ++ "- " ++ trim value ++ "\n" ++
        multiEditDiffFrom (oldLine + 1) newLine (linesShown + 1) rest
  | (.insert, value) :: rest =>
      if (trim value).isEmpty then multiEditDiffFrom oldLine (newLine + 1) linesShown rest
      else if 30 ≤ linesShown then "...\n"
      else toString newLine ++ "+ " ++ trim value ++ "\n" ++
        multiEditDiffFrom oldLine (newLine + 1) (linesShown + 1) rest

/-- The messages of a list, each behind its mark. -/
def markedLines (mark : String) (messages : List String) : String :=
  String.join (messages.map fun msg => "  " ++ mark ++ " " ++ msg ++ "\n")

section
variable (changes : String → String → List (ChangeTag × String))

/-- What the tool says after the loop. -/
def MultiEditState.toolOutput (s : MultiEditState) (filePath original : String) : ToolOutput where
  output := "Edited " ++ filePath ++ "\n\n" ++
    (if s.applied = [] then "" else "Applied:\n" ++ markedLines "✓" s.applied) ++
    (if s.failed = [] then "" else "\nFailed:\n" ++ markedLines "✗" s.failed) ++
    "\nTotal: " ++ toString s.applied.length ++ " applied, " ++ toString s.failed.length ++
    " failed\n" ++
    (if s.applied = [] then ""
      else "\nDiff:\n" ++ multiEditDiffFrom 1 1 0 (changes original s.content))
  title := some filePath

/-- `MultiEditTool::execute` on the file at its path: what it says, and the file it leaves. -/
def MultiEditInput.execute (params : MultiEditInput) (file : StoredFile) :
    Except String ToolOutput × StoredFile :=
  match file with
  | .absent => (.error ("File not found: " ++ params.filePath), file)
  | .binary => (.error "stream did not contain valid UTF-8", file)
  | .text original =>
      let s := ({ content := original } : MultiEditState).passes 0 params.edits
      (.ok (s.toolOutput changes params.filePath original), .text s.content)

/-! ### One edit after another -/

/-- The edit as a call of `edit`. -/
def EditOperation.alone (edit : EditOperation) (filePath : String) : EditInput where
  filePath := filePath
  oldString := edit.oldString
  newString := edit.newString
  replaceAll := edit.replaceAll

/-- A call of `edit`, the file it found, and its answer. -/
structure EditTurn where
  edit : EditOperation
  found : StoredFile
  answer : Except String EditReport

/-- `edit`, called for one edit after another: the calls, and the file they leave. -/
def editsInTurn (filePath : String) (file : StoredFile) :
    List EditOperation → Option (List EditTurn × StoredFile)
  | [] => some ([], file)
  | edit :: edits => do
      let (answer, file') ← (edit.alone filePath).execute changes file
      let (turns, file'') ← editsInTurn filePath file' edits
      return (⟨edit, file, answer⟩ :: turns, file'')

end

/-- Why the edit of this number is skipped. -/
def EditOperation.skipped (edit : EditOperation) (number : ℕ) : StoredFile → String
  | .text content =>
      if edit.oldString = edit.newString then s!"Edit {number}: old_string equals new_string"
      else
        let occurrences := (matchIndices content edit.oldString).length
        if occurrences = 0 then s!"Edit {number}: old_string not found"
        else s!"Edit {number}: found {occurrences} occurrences, " ++
          "use replace_all or be more specific"
  | .absent | .binary => ""

/-- What is reported as applied of a call of `edit`. -/
def EditTurn.applied (number : ℕ) (t : EditTurn) : List String :=
  match t.answer with
  | .ok report =>
      if t.edit.replaceAll then [s!"Edit {number}: replaced {report.occurrences} occurrences"]
      else [s!"Edit {number}: replaced 1 occurrence"]
  | .error _ => []

/-- What is reported as failed of a call of `edit`. -/
def EditTurn.failed (number : ℕ) (t : EditTurn) : List String :=
  match t.answer with
  | .ok _ => []
  | .error _ => [t.edit.skipped number t.found]

/-- The messages of the calls, numbered after the first `i`. -/
def numbered (message : ℕ → EditTurn → List String) (i : ℕ) : List EditTurn → List String
  | [] => []
  | t :: ts => message (i + 1) t ++ numbered message (i + 1) ts

section
variable {changes : String → String → List (ChangeTag × String)} {filePath : String}

/-- **One pass is one call of `edit`.** -/
theorem pass_eq_edit (s : MultiEditState) (number : ℕ) (edit : EditOperation) :
    ∃ answer, (edit.alone filePath).execute changes (.text s.content) =
        some (answer, .text (s.pass number edit).content) ∧
      (s.pass number edit).applied =
        s.applied ++ EditTurn.applied number ⟨edit, .text s.content, answer⟩ ∧
      (s.pass number edit).failed =
        s.failed ++ EditTurn.failed number ⟨edit, .text s.content, answer⟩ := by
  obtain ⟨⟨answer, file'⟩, hanswer⟩ :=
    @execute_isSome changes (edit.alone filePath) (.text s.content)
  refine ⟨answer, ?_⟩
  rw [hanswer]
  unfold EditInput.execute at hanswer
  split at hanswer
  · rename_i hsame
    have heq : edit.oldString = edit.newString := hsame
    obtain ⟨rfl, rfl⟩ := Prod.mk.inj (Option.some.inj hanswer)
    simp only [MultiEditState.pass, EditTurn.applied, EditTurn.failed, EditOperation.skipped,
      if_pos heq, List.append_nil, true_and]
  rename_i hdiffer
  have hne : edit.oldString ≠ edit.newString := hdiffer
  dsimp only at hanswer
  split at hanswer
  · rename_i hzero
    have hnone : (matchIndices s.content edit.oldString).length = 0 := hzero
    obtain ⟨e, -, hpair⟩ := Option.map_eq_some_iff.mp hanswer
    obtain ⟨rfl, rfl⟩ := Prod.mk.inj hpair
    simp only [MultiEditState.pass, EditTurn.applied, EditTurn.failed, EditOperation.skipped,
      if_neg hne, if_pos hnone, List.append_nil, true_and]
  rename_i hfound
  have hsome : (matchIndices s.content edit.oldString).length ≠ 0 := hfound
  split at hanswer
  · rename_i hambiguous
    have hmany : 1 < (matchIndices s.content edit.oldString).length ∧ edit.replaceAll = false :=
      hambiguous
    obtain ⟨rfl, rfl⟩ := Prod.mk.inj (Option.some.inj hanswer)
    simp only [MultiEditState.pass, EditTurn.applied, EditTurn.failed, EditOperation.skipped,
      if_neg hne, if_neg hsome, if_pos hmany, List.append_nil, true_and]
  rename_i hclear
  have hone : ¬ (1 < (matchIndices s.content edit.oldString).length ∧ edit.replaceAll = false) :=
    hclear
  obtain ⟨context, -, hpair⟩ := Option.map_eq_some_iff.mp hanswer
  obtain ⟨rfl, rfl⟩ := Prod.mk.inj hpair
  simp only [MultiEditState.pass, EditTurn.applied, EditTurn.failed, if_neg hne, if_neg hsome,
    if_neg hone]
  have hall : (edit.alone filePath).replaceAll = edit.replaceAll := rfl
  rw [hall]
  cases edit.replaceAll with
  | true => exact ⟨rfl, rfl, (List.append_nil _).symm⟩
  | false => exact ⟨rfl, rfl, (List.append_nil _).symm⟩

theorem passes_eq_edits (edits : List EditOperation) (s : MultiEditState) (i : ℕ) :
    ∃ turns, editsInTurn changes filePath (.text s.content) edits =
        some (turns, .text (s.passes i edits).content) ∧
      turns.map EditTurn.edit = edits ∧
      (s.passes i edits).applied = s.applied ++ numbered EditTurn.applied i turns ∧
      (s.passes i edits).failed = s.failed ++ numbered EditTurn.failed i turns := by
  induction edits generalizing s i with
  | nil => exact ⟨[], rfl, rfl, (List.append_nil _).symm, (List.append_nil _).symm⟩
  | cons edit edits ih =>
      obtain ⟨answer, hanswer, happlied, hfailed⟩ :=
        @pass_eq_edit changes filePath s (i + 1) edit
      obtain ⟨turns, hturns, hedits, happlied', hfailed'⟩ := ih (s.pass (i + 1) edit) (i + 1)
      refine ⟨⟨edit, .text s.content, answer⟩ :: turns, ?_, ?_, ?_, ?_⟩
      · simp only [editsInTurn, hanswer, Option.bind_eq_bind, Option.bind_some, hturns]
        rfl
      · rw [List.map_cons, hedits]
      · rw [MultiEditState.passes, happlied', happlied, List.append_assoc]
        rfl
      · rw [MultiEditState.passes, hfailed', hfailed, List.append_assoc]
        rfl

/-- **Many edits are one edit after another.**  On a text, `multiedit` leaves the file that calls of
`edit` leave, one for each edit in turn; it reports each accepted call as applied, with its number and
its count, and each refused one as failed, with why it was.  A file that is not a text it leaves as
it is. -/
theorem multiedit_eq_edits (params : MultiEditInput) (file : StoredFile) :
    (∀ original, file = .text original → ∃ (turns : List EditTurn) (s : MultiEditState),
      editsInTurn changes params.filePath file params.edits = some (turns, .text s.content) ∧
      turns.map EditTurn.edit = params.edits ∧
      s.applied = numbered EditTurn.applied 0 turns ∧
      s.failed = numbered EditTurn.failed 0 turns ∧
      params.execute changes file =
        (.ok (s.toolOutput changes params.filePath original), .text s.content)) ∧
    ((∀ original, file ≠ .text original) → ∃ e, params.execute changes file = (.error e, file)) := by
  constructor
  · rintro original rfl
    obtain ⟨turns, hturns, hedits, happlied, hfailed⟩ := @passes_eq_edits changes params.filePath
      params.edits { content := original } 0
    exact ⟨turns, _, hturns, hedits, happlied, hfailed, rfl⟩
  · intro hfile
    cases file with
    | absent => exact ⟨_, rfl⟩
    | binary => exact ⟨_, rfl⟩
    | text original => exact absurd rfl (hfile original)

end

/-- The second edit is ambiguous and the third finds what the first has left. -/
def threeEdits : MultiEditInput where
  filePath := "notes.txt"
  edits := [⟨"one", "1", false⟩, ⟨"two", "2", false⟩, ⟨"1 two", "first", false⟩]

theorem multiedit_eq_edits_threeEdits :
    (∃ (turns : List EditTurn) (s : MultiEditState),
      editsInTurn (fun _ _ => []) "notes.txt" (.text "one two two") threeEdits.edits =
        some (turns, .text s.content) ∧ turns.map EditTurn.edit = threeEdits.edits ∧
      threeEdits.execute (fun _ _ => []) (.text "one two two") =
        (.ok (s.toolOutput (fun _ _ => []) "notes.txt" "one two two"), .text s.content)) ∧
    (threeEdits.execute (fun _ _ => []) (.text "one two two")).2 = .text "first two" := by
  refine ⟨?_, by decide +kernel⟩
  obtain ⟨turns, s, hturns, hedits, -, -, hexec⟩ :=
    (multiedit_eq_edits threeEdits (.text "one two two")).1 "one two two" rfl
  exact ⟨turns, s, hturns, hedits, hexec⟩

end Jcode.Tool
