import Jcode.Support.Splice
import Jcode.Tool.HunkEffects

/-!
# Tool — patch

`tool/patch.rs`.  A unified diff is parsed into the patches of single files.  The hunks of a patch are
applied to the lines of its file, from the last to the first, each at the line that its header names.

A text is compared with another by a library, whose result is a parameter.
-/

namespace Jcode.Tool
open Rust Splice

structure Hunk where
  oldStart : ℕ
  oldLines : List String
  newLines : List String
  deriving DecidableEq, Repr

structure FilePatch where
  path : String
  hunks : List Hunk
  isNew : Bool
  isDelete : Bool
  deriving DecidableEq, Repr

/-! ### Parsing -/

/-- `str::parse::<usize>`. -/
def parseUsize (s : String) : Option ℕ :=
  let digits := if s.toList.head? = some '+' then s.toList.tail else s.toList
  if digits ≠ [] ∧ digits.all Char.isDigit ∧ Nat.ofDigitChars 10 digits 0 < 2 ^ 64 then
    some (Nat.ofDigitChars 10 digits 0)
  else none

/-- The old and the new lines of a hunk, and the lines that follow. -/
def hunkLines : List String → (List String × List String) × List String
  | [] => (([], []), [])
  | line :: rest =>
      if startsWith line "@@" || startsWith line "---" then (([], []), line :: rest)
      else
        let ((oldLines, newLines), after) := hunkLines rest
        if let some content := stripPrefix line "-" then ((content :: oldLines, newLines), after)
        else if let some content := stripPrefix line "+" then
          ((oldLines, content :: newLines), after)
        else if let some content := stripPrefix line " " then
          ((content :: oldLines, content :: newLines), after)
        else ((oldLines, newLines), after)

/-- The first line of a hunk, by the second word of its header. -/
def parseOldStart (word : String) : ℕ :=
  let oldRange := (stripPrefix word "-").getD word
  ((split oldRange ',').head?.bind parseUsize).getD 1

/-- `parse_hunk`, at the header, and the lines that follow. -/
def parseHunk (header : String) (rest : List String) : Option Hunk × List String :=
  match splitWhitespace header with
  | _ :: word :: _ :: _ =>
      let ((oldLines, newLines), after) := hunkLines rest
      (some ⟨parseOldStart word, oldLines, newLines⟩, after)
  | _ => (none, rest)

theorem hunkLines_suffix (lines : List String) : (hunkLines lines).2 <:+ lines := by
  induction lines with
  | nil => exact List.suffix_rfl
  | cons line rest ih =>
      rw [hunkLines]
      split
      · exact List.suffix_rfl
      · dsimp only
        repeat' split
        all_goals exact ih.trans (List.suffix_cons _ _)

theorem parseHunk_suffix (header : String) (rest : List String) :
    (parseHunk header rest).2 <:+ rest := by
  unfold parseHunk
  split
  · exact hunkLines_suffix rest
  · exact List.suffix_rfl

/-- The hunks of a file, and the lines that follow. -/
def fileHunks : List String → List Hunk × List String
  | [] => ([], [])
  | line :: rest =>
      if startsWith line "---" then ([], line :: rest)
      else if startsWith line "@@" then
        let parsed := parseHunk line rest
        have := (parseHunk_suffix line rest).length_le
        let (hunks, after) := fileHunks parsed.2
        (parsed.1.toList ++ hunks, after)
      else fileHunks rest
termination_by lines => lines.length

theorem fileHunks_suffix (lines : List String) : (fileHunks lines).2 <:+ lines := by
  fun_induction fileHunks lines with
  | case1 => exact List.suffix_rfl
  | case2 => exact List.suffix_rfl
  | case3 line rest hfile hhunk parsed hle hunks after hrest ih =>
      rw [hrest] at ih
      exact (ih.trans (parseHunk_suffix line rest)).trans (List.suffix_cons _ _)
  | case4 line rest hfile hhunk ih => exact ih.trans (List.suffix_cons _ _)

/-- The name in the header of a file. -/
def headerFile (line mark : String) : String :=
  (split ((stripPrefix line mark).getD "") '\t').head?.getD ""

/-- The patch between two headers. -/
def filePatch (oldFile newFile : String) (hunks : List Hunk) : FilePatch where
  path :=
    if newFile = "/dev/null" then (stripPrefix oldFile "a/").getD oldFile
    else (stripPrefix newFile "b/").getD newFile
  hunks := hunks
  isNew := oldFile = "/dev/null"
  isDelete := newFile = "/dev/null"

/-- The patches of the files. -/
def patchesFrom : List String → List FilePatch
  | [] => []
  | line :: rest =>
      if startsWith line "---" then
        match rest with
        | [] => []
        | next :: rest =>
            if startsWith next "+++" then
              let hunks := fileHunks rest
              have := (fileHunks_suffix rest).length_le
              let patch := filePatch (headerFile line "--- ") (headerFile next "+++ ") hunks.1
              if hunks.1 ≠ [] ∨ patch.isNew ∨ patch.isDelete then
                patch :: patchesFrom hunks.2
              else patchesFrom hunks.2
            else patchesFrom (next :: rest)
      else patchesFrom rest
termination_by lines => lines.length

/-- `parse_patch`. -/
def parsePatch (text : String) : List FilePatch := patchesFrom (lines text)

/-! ### Applying -/

/-- A file on the disk. -/
inductive StoredFile where
  | absent
  /-- It is not read as a text: its bytes are not UTF-8. -/
  | binary
  | text (contents : String)
  deriving DecidableEq, Repr

/-- `Vec::splice` panics on a range that begins behind its end.  A sum that is too large for its type
comes from a start that is, so it panics as well. -/
def applyHunk (lines : List String) (hunk : Hunk) : Option (List String) :=
  let start := hunk.oldStart - 1
  let stop := min (start + hunk.oldLines.length) lines.length
  if start ≤ stop then some (lines.take start ++ (hunk.newLines ++ lines.drop stop)) else none

/-- The last hunk first. -/
def applyHunks (lines : List String) (hunks : List Hunk) : Option (List String) :=
  hunks.reverse.foldlM applyHunk lines

section
variable (changes : String → String → List (ChangeTag × String))

/-- `generate_diff`. -/
def generateDiff (old new : String) (startLine : ℕ) : String :=
  trimEnd (diffSummaryFrom 0 startLine startLine (changes old new))

/-- What a patch answers, and the file it leaves. -/
abbrev PatchOutcome := Except String (String × String) × StoredFile

/-- `apply_patch_with_diff`; `none` is a panic. -/
def applyPatchWithDiff (patch : FilePatch) (file : StoredFile) : Option PatchOutcome :=
  if patch.isDelete then
    match file with
    | .absent => some (.error "file does not exist", file)
    | .binary => some (.ok ("deleted", generateDiff changes "" "" 1), .absent)
    | .text oldContent => some (.ok ("deleted", generateDiff changes oldContent "" 1), .absent)
  else if patch.isNew then
    match file with
    | .absent =>
        let content := text (patch.hunks.flatMap (·.newLines))
        some (.ok ("created", generateDiff changes "" content 1), .text content)
    | _ => some (.error "file already exists", file)
  else
    match file with
    | .absent => some (.error "file does not exist", file)
    | .binary => some (.error "stream did not contain valid UTF-8", file)
    | .text oldContent =>
        let firstLine := (patch.hunks.map (·.oldStart)).min?.getD 1
        (applyHunks (lines oldContent) patch.hunks).map fun newLines =>
          let newContent := join "\n" newLines ++ "\n"
          (.ok ("modified (" ++ toString patch.hunks.length ++ " hunks)",
              generateDiff changes oldContent newContent firstLine),
            .text newContent)

end

end Jcode.Tool
