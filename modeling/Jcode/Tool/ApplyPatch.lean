import Jcode.Support.Text

/-!
# Tool — apply_patch

`tool/apply_patch.rs`.  A patch is parsed into hunks, one for each file it adds, deletes or updates,
and the hunks are carried out one after the other.  The chunks of an update are sought in the lines
of the file, from where the last one ended, and replaced from the last to the first.

A file system maps the files to their texts; which file a path names is up to the operating system
(`Env.file`), and directories can be made.  The library that compares texts is a parameter.
-/

namespace Jcode.Tool
open Rust

/-! ### Patches -/

structure UpdateFileChunk where
  changeContext : Option String
  oldLines : List String
  newLines : List String
  isEndOfFile : Bool
  deriving DecidableEq, Repr

inductive PatchHunk where
  | addFile (path contents : String)
  | deleteFile (path : String)
  | updateFile (path : String) (moveTo : Option String) (chunks : List UpdateFileChunk)
  deriving DecidableEq, Repr

/-! ### Parsing -/

/-- What has been read of a chunk, and the lines that follow. -/
structure DiffLines where
  oldLines : List String := []
  newLines : List String := []
  isEndOfFile : Bool := false
  hadDiffLines : Bool := false
  rest : List String := []

/-- The lines of a chunk. -/
def diffLines (d : DiffLines) : List String → DiffLines
  | [] => { d with rest := [] }
  | cl :: rest =>
      if cl = "*** End of File" then { d with isEndOfFile := true, rest }
      else if startsWith cl "*** " || startsWith cl "@@" then { d with rest := cl :: rest }
      else if let some content := stripPrefix cl " " then
        diffLines { d with
          oldLines := d.oldLines ++ [content], newLines := d.newLines ++ [content]
          hadDiffLines := true } rest
      else if let some content := stripPrefix cl "+" then
        diffLines { d with newLines := d.newLines ++ [content], hadDiffLines := true } rest
      else if let some content := stripPrefix cl "-" then
        diffLines { d with oldLines := d.oldLines ++ [content], hadDiffLines := true } rest
      else if cl.isEmpty then
        diffLines { d with
          oldLines := d.oldLines ++ [""], newLines := d.newLines ++ [""]
          hadDiffLines := true } rest
      else if d.hadDiffLines then { d with rest := cl :: rest }
      else diffLines d rest

theorem diffLines_rest_le (d : DiffLines) (lines : List String) :
    (diffLines d lines).rest.length ≤ lines.length := by
  induction lines generalizing d with
  | nil => exact le_rfl
  | cons cl rest ih =>
      rw [diffLines]
      repeat' split
      all_goals first
        | exact le_rfl
        | exact Nat.le_succ _
        | exact (ih _).trans (Nat.le_succ _)

/-- A chunk with this context, if there is anything in it. -/
def DiffLines.chunk (d : DiffLines) (changeContext : Option String) : List UpdateFileChunk :=
  if d.hadDiffLines || changeContext.isSome then
    [⟨changeContext, d.oldLines, d.newLines, d.isEndOfFile⟩]
  else []

/-- The chunks of an update, and the lines that follow; only the first may lack its header. -/
def chunksFrom (isFirstChunk : Bool) : List String → List UpdateFileChunk × List String
  | [] => ([], [])
  | line :: rest =>
      let current := trimEnd line
      let next (changeContext : Option String) (d : DiffLines)
          (h : 2 * d.rest.length < 2 * (rest.length + 1) + isFirstChunk.toNat) :
          List UpdateFileChunk × List String :=
        let (chunks, rest) := chunksFrom false d.rest
        (d.chunk changeContext ++ chunks, rest)
      if startsWith current "*** " && current != "*** End of File" then ([], line :: rest)
      else if (trim current).isEmpty && !startsWith current " " && !startsWith current "+" &&
          !startsWith current "-" then chunksFrom isFirstChunk rest
      else if current = "@@" then next none (diffLines {} rest) (by
        have := diffLines_rest_le {} rest
        omega)
      else if let some context := stripPrefix current "@@ " then
        next (some context) (diffLines {} rest) (by
          have := diffLines_rest_le {} rest
          omega)
      else if hfirst : isFirstChunk = true then next none (diffLines {} (line :: rest)) (by
        have := diffLines_rest_le {} (line :: rest)
        simp only [List.length_cons] at this
        simp only [hfirst, Bool.toNat_true]
        omega)
      else ([], line :: rest)
termination_by lines => 2 * lines.length + isFirstChunk.toNat

theorem chunksFrom_rest_le (isFirstChunk : Bool) (lines : List String) :
    (chunksFrom isFirstChunk lines).2.length ≤ lines.length := by
  fun_induction chunksFrom isFirstChunk lines with
  | case1 => exact le_rfl
  | case2 => exact le_rfl
  | case3 _ _ _ _ _ _ _ ih => exact ih.trans (Nat.le_succ _)
  | case4 isFirstChunk _ rest _ _ _ _ _ ih =>
      have hrest := diffLines_rest_le {} rest
      exact (ih _ (by omega)).trans (hrest.trans (Nat.le_succ _))
  | case5 isFirstChunk _ rest _ _ _ _ _ _ _ ih =>
      have hrest := diffLines_rest_le {} rest
      exact (ih _ (by omega)).trans (hrest.trans (Nat.le_succ _))
  | case6 line rest _ _ _ _ _ _ ih =>
      have hrest := diffLines_rest_le {} (line :: rest)
      refine (ih _ ?_).trans hrest
      rw [List.length_cons] at hrest
      simp only [Bool.toNat_true]
      omega
  | case7 => exact le_rfl

/-- The added lines of a new file, and the lines that follow. -/
def addedContents : List String → String × List String
  | [] => ("", [])
  | current :: rest =>
      if startsWith current "*** " then ("", current :: rest)
      else
        let (contents, after) := addedContents rest
        match stripPrefix current "+" with
        | some added => (added ++ "\n" ++ contents, after)
        | none => (contents, after)

theorem addedContents_rest_le (lines : List String) :
    (addedContents lines).2.length ≤ lines.length := by
  induction lines with
  | nil => exact le_rfl
  | cons current rest ih =>
      simp only [addedContents]
      repeat' split
      · exact le_rfl
      all_goals exact ih.trans (Nat.le_succ _)

/-- Where an update moves its file to, and the lines that follow. -/
def moveTo : List String → Option String × List String
  | [] => (none, [])
  | line :: rest =>
      match stripPrefix (trimEnd line) "*** Move to: " with
      | some target => (some (trim target), rest)
      | none => (none, line :: rest)

theorem moveTo_rest_le (lines : List String) : (moveTo lines).2.length ≤ lines.length := by
  cases lines with
  | nil => exact le_rfl
  | cons line rest =>
      rw [moveTo]
      split
      · exact Nat.le_succ _
      · exact le_rfl

/-- The hunks after the patch's first line. -/
def hunksFrom : List String → Except String (List PatchHunk)
  | [] => .ok []
  | l :: rest =>
      let line := trimEnd l
      if trim line = "*** End Patch" then .ok []
      else if let some path := stripPrefix line "*** Add File: " then do
        let added := addedContents rest
        have := addedContents_rest_le rest
        let hunks ← hunksFrom added.2
        return .addFile (trim path) added.1 :: hunks
      else if let some path := stripPrefix line "*** Delete File: " then do
        let hunks ← hunksFrom rest
        return .deleteFile (trim path) :: hunks
      else if let some path := stripPrefix line "*** Update File: " then do
        let moved := moveTo rest
        let updated := chunksFrom true moved.2
        have := (chunksFrom_rest_le true moved.2).trans (moveTo_rest_le rest)
        ensure (updated.1 ≠ []) ("Update file hunk for '" ++ trim path ++ "' has no changes")
        let hunks ← hunksFrom updated.2
        return .updateFile (trim path) moved.1 updated.1 :: hunks
      else hunksFrom rest
termination_by lines => lines.length

/-- `parse_apply_patch`. -/
def parseApplyPatch (input : String) : Except String (List PatchHunk) :=
  match (lines input).dropWhile fun l => trim l ≠ "*** Begin Patch" with
  | [] => .error "Patch must contain *** Begin Patch"
  | _ :: rest => do
      let hunks ← hunksFrom rest
      ensure (hunks ≠ []) "No valid patch directives found"
      return hunks

/-! ### Updates -/

/-- `seek_sequence`: the first place from `start` on, or at the end of the file, where the lines are
the pattern's; else where they are but for the blanks at their ends; else but for those around
them. -/
def seekSequence (lines pattern : List String) (start : ℕ) (eof : Bool) : Option ℕ :=
  if pattern.isEmpty then some start
  else if lines.length < pattern.length then none
  else
    let searchStart :=
      if eof && pattern.length ≤ lines.length then lines.length - pattern.length else start
    let seek (read : String → String) :=
      (List.range' searchStart (lines.length - pattern.length + 1 - searchStart)).find? fun i =>
        ((lines.drop i).take pattern.length).map read = pattern.map read
    (seek id).or ((seek trimEnd).or (seek trim))

/-- Some lines are replaced from `startIdx` on. -/
structure Replacement where
  startIdx : ℕ
  oldLen : ℕ
  newSegment : List String
  deriving DecidableEq, Repr

/-- Where a chunk is sought from: after the line that its header names. -/
def seekContext (originalLines : List String) (path : String) (lineIndex : ℕ) :
    Option String → Except String ℕ
  | none => .ok lineIndex
  | some ctxLine =>
      match seekSequence originalLines [ctxLine] lineIndex false with
      | some idx => .ok (idx + 1)
      | none => .error ("Failed to find context '" ++ ctxLine ++ "' in " ++ path)

/-- Where the old lines of a chunk are; an empty one at their end may be missing. -/
def seekOldLines (originalLines : List String) (lineIndex : ℕ) (chunk : UpdateFileChunk) :
    Option Replacement :=
  match seekSequence originalLines chunk.oldLines lineIndex chunk.isEndOfFile with
  | some startIdx => some ⟨startIdx, chunk.oldLines.length, chunk.newLines⟩
  | none =>
      if chunk.oldLines.getLast? = some "" then
        let pattern := chunk.oldLines.dropLast
        let newSlice :=
          if chunk.newLines.getLast? = some "" then chunk.newLines.dropLast else chunk.newLines
        (seekSequence originalLines pattern lineIndex chunk.isEndOfFile).map fun startIdx =>
          ⟨startIdx, pattern.length, newSlice⟩
      else none

/-- Where lines are added: at the end of the file, before its last line if that is empty. -/
def insertionIdx (originalLines : List String) : ℕ :=
  if originalLines.getLast? = some "" then originalLines.length - 1 else originalLines.length

/-- The replacements of the chunks, in their order. -/
def replacementsFrom (originalLines : List String) (path : String) (lineIndex : ℕ) :
    List UpdateFileChunk → Except String (List Replacement)
  | [] => .ok []
  | chunk :: chunks => do
      let lineIndex ← seekContext originalLines path lineIndex chunk.changeContext
      if chunk.oldLines.isEmpty then
        let replacements ← replacementsFrom originalLines path lineIndex chunks
        return ⟨insertionIdx originalLines, 0, chunk.newLines⟩ :: replacements
      else
        match seekOldLines originalLines lineIndex chunk with
        | some r =>
            let replacements ← replacementsFrom originalLines path (r.startIdx + r.oldLen) chunks
            return r :: replacements
        | none =>
            .error ("Failed to find expected lines in " ++ path ++ ":\n" ++
              join "\n" chunk.oldLines)

/-- `compute_replacements`. -/
def computeReplacements (originalLines : List String) (path : String)
    (chunks : List UpdateFileChunk) : Except String (List Replacement) := do
  let replacements ← replacementsFrom originalLines path 0 chunks
  return replacements.insertionSort fun a b => a.startIdx ≤ b.startIdx

/-- Lines are inserted one after the other; to insert after the end is a panic. -/
def insertLines (idx : ℕ) : List String → List String → Option (List String)
  | [], lines => some lines
  | newLine :: newSegment, lines =>
      if idx ≤ lines.length then insertLines (idx + 1) newSegment (lines.insertIdx idx newLine)
      else none

def removeLine (idx : ℕ) (lines : List String) : List String :=
  if idx < lines.length then lines.eraseIdx idx else lines

def applyReplacement (lines : List String) (r : Replacement) : Option (List String) :=
  insertLines r.startIdx r.newSegment ((removeLine r.startIdx)^[r.oldLen] lines)

/-- `apply_replacements`. -/
def applyReplacements (lines : List String) (replacements : List Replacement) :
    Option (List String) :=
  replacements.reverse.foldlM applyReplacement lines

/-- What the operating system answers when there is no such file. -/
def notFound : String := "No such file or directory (os error 2)"

/-- `apply_update_chunks`: the old and the new text of a file; `none` is a panic. -/
def applyUpdateChunks (contents : Option String) (path : String) (chunks : List UpdateFileChunk) :
    Option (Except String (String × String)) :=
  match contents with
  | none => some (.error notFound)
  | some originalContents =>
      let pieces := split originalContents '\n'
      let originalLines := if pieces.getLast? = some "" then pieces.dropLast else pieces
      match computeReplacements originalLines path chunks with
      | .error e => some (.error e)
      | .ok replacements =>
          (applyReplacements originalLines replacements).map fun newLines =>
            let newLines := if newLines.getLast? = some "" then newLines else newLines ++ [""]
            .ok (originalContents, join "\n" newLines)

/-! ### No panic -/

theorem seekSequence_le {lines pattern : List String} {start i : ℕ} {eof : Bool}
    (hstart : start ≤ lines.length) (h : seekSequence lines pattern start eof = some i) :
    i + pattern.length ≤ lines.length := by
  have hfind : ∀ {s : ℕ} {p : ℕ → Bool},
      (List.range' s (lines.length - pattern.length + 1 - s)).find? p = some i →
        pattern.length ≤ lines.length → i + pattern.length ≤ lines.length := by
    intro s p hi hle
    have hmem := List.mem_range'_1.mp (List.mem_of_find?_eq_some hi)
    omega
  rw [seekSequence] at h
  split at h
  case isTrue hp =>
      rw [List.isEmpty_iff] at hp
      rw [hp, ← Option.some.inj h]
      exact hstart
  case isFalse =>
      split at h
      · cases h
      · next hle =>
          simp only [Option.or_eq_some_iff] at h
          rcases h with h | ⟨-, h | ⟨-, h⟩⟩
          all_goals exact hfind h (by omega)

theorem seekContext_le {originalLines : List String} {path : String} {lineIndex i : ℕ}
    {context : Option String} (hle : lineIndex ≤ originalLines.length)
    (h : seekContext originalLines path lineIndex context = .ok i) : i ≤ originalLines.length := by
  cases context with
  | none => exact Except.ok.inj h ▸ hle
  | some ctxLine =>
      rw [seekContext] at h
      split at h
      · next hseek => exact Except.ok.inj h ▸ seekSequence_le hle hseek
      · cases h

theorem seekOldLines_le {originalLines : List String} {lineIndex : ℕ} {chunk : UpdateFileChunk}
    {r : Replacement} (hle : lineIndex ≤ originalLines.length)
    (h : seekOldLines originalLines lineIndex chunk = some r) :
    r.startIdx + r.oldLen ≤ originalLines.length := by
  rw [seekOldLines] at h
  split at h
  · next hseek => exact Option.some.inj h ▸ seekSequence_le hle hseek
  · split at h
    · obtain ⟨startIdx, hseek, rfl⟩ := Option.map_eq_some_iff.mp h
      exact seekSequence_le hle hseek
    · cases h

theorem insertionIdx_le (originalLines : List String) :
    insertionIdx originalLines ≤ originalLines.length := by
  rw [insertionIdx]
  split
  · exact Nat.sub_le _ _
  · exact le_rfl

/-- Every replacement starts in the file or at its end. -/
theorem replacementsFrom_le {originalLines : List String} {path : String}
    {chunks : List UpdateFileChunk} {lineIndex : ℕ} {rs : List Replacement}
    (hle : lineIndex ≤ originalLines.length)
    (h : replacementsFrom originalLines path lineIndex chunks = .ok rs) :
    ∀ r ∈ rs, r.startIdx ≤ originalLines.length := by
  induction chunks generalizing lineIndex rs with
  | nil => exact Except.ok.inj h ▸ List.forall_mem_nil _
  | cons chunk chunks ih =>
      rw [replacementsFrom] at h
      obtain ⟨lineIndex', hcontext, h⟩ := bind_eq_ok.mp h
      have hle' := seekContext_le hle hcontext
      split at h
      · obtain ⟨rs', hrs, h⟩ := bind_eq_ok.mp h
        rw [← Except.ok.inj h]
        exact List.forall_mem_cons.mpr ⟨insertionIdx_le _, ih hle' hrs⟩
      · split at h
        · next r hseek =>
            have hr := seekOldLines_le hle' hseek
            obtain ⟨rs', hrs, h⟩ := bind_eq_ok.mp h
            rw [← Except.ok.inj h]
            exact List.forall_mem_cons.mpr ⟨(Nat.le_add_right _ _).trans hr, ih hr hrs⟩
        · cases h

theorem computeReplacements_spec {originalLines : List String} {path : String}
    {chunks : List UpdateFileChunk} {rs : List Replacement}
    (h : computeReplacements originalLines path chunks = .ok rs) :
    rs.Pairwise (fun a b => a.startIdx ≤ b.startIdx) ∧
      ∀ r ∈ rs, r.startIdx ≤ originalLines.length := by
  obtain ⟨rs', hrs, h⟩ := bind_eq_ok.mp h
  rw [← Except.ok.inj h]
  refine ⟨List.pairwise_insertionSort (fun a b : Replacement => a.startIdx ≤ b.startIdx) _,
    fun r hr => ?_⟩
  exact replacementsFrom_le (Nat.zero_le _) hrs r ((List.mem_insertionSort _).mp hr)

theorem insertLines_spec {idx : ℕ} {seg lines : List String} (h : idx ≤ lines.length) :
    ∃ lines', insertLines idx seg lines = some lines' ∧ idx ≤ lines'.length := by
  induction seg generalizing idx lines with
  | nil => exact ⟨lines, rfl, h⟩
  | cons newLine seg ih =>
      have hlen : idx + 1 ≤ (lines.insertIdx idx newLine).length := by
        rw [List.length_insertIdx, if_pos h]
        omega
      obtain ⟨lines', hlines', hle⟩ := ih hlen
      exact ⟨lines', by rw [insertLines, if_pos h, hlines'], by omega⟩

theorem le_length_removeLine {idx : ℕ} {lines : List String} (h : idx ≤ lines.length) :
    idx ≤ (removeLine idx lines).length := by
  rw [removeLine]
  split
  · next hlt =>
      rw [List.length_eraseIdx, if_pos hlt]
      omega
  · exact h

theorem applyReplacement_spec {lines : List String} {r : Replacement}
    (h : r.startIdx ≤ lines.length) :
    ∃ lines', applyReplacement lines r = some lines' ∧ r.startIdx ≤ lines'.length := by
  have hremove : ∀ n, r.startIdx ≤ ((removeLine r.startIdx)^[n] lines).length := by
    intro n
    induction n with
    | zero => exact h
    | succ n ih =>
        rw [Function.iterate_succ_apply']
        exact le_length_removeLine ih
  exact insertLines_spec (hremove _)

/-- The last replacement first: what is before it stays where it was. -/
theorem foldlM_applyReplacement {lines : List String} {rs : List Replacement}
    (hsorted : rs.Pairwise fun a b => b.startIdx ≤ a.startIdx)
    (hle : ∀ r ∈ rs, r.startIdx ≤ lines.length) :
    ∃ lines', rs.foldlM applyReplacement lines = some lines' := by
  induction rs generalizing lines with
  | nil => exact ⟨lines, rfl⟩
  | cons r rs ih =>
      obtain ⟨hr, hsorted⟩ := List.pairwise_cons.mp hsorted
      obtain ⟨lines', hlines', hle'⟩ := applyReplacement_spec (hle r List.mem_cons_self)
      obtain ⟨lines'', h⟩ := ih hsorted fun r' hr' => (hr r' hr').trans hle'
      exact ⟨lines'', by rw [List.foldlM_cons, hlines']; exact h⟩

/-- **No panic**: the chunks of an update always have an outcome. -/
theorem applyUpdateChunks_isSome (contents : Option String) (path : String)
    (chunks : List UpdateFileChunk) : (applyUpdateChunks contents path chunks).isSome := by
  cases contents with
  | none => rfl
  | some originalContents =>
      simp only [applyUpdateChunks]
      split
      · rfl
      · next rs hrs =>
          obtain ⟨hsorted, hle⟩ := computeReplacements_spec hrs
          obtain ⟨lines', hlines'⟩ := foldlM_applyReplacement (List.pairwise_reverse.mpr hsorted)
            fun r hr => hle r (List.mem_reverse.mp hr)
          rw [Option.isSome_map, applyReplacements, hlines']
          rfl

end Jcode.Tool
