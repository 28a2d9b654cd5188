import Jcode.Support.Occur
import Jcode.Tool.HunkPlaces

/-!
# Tool — edit

`EditTool`: a text in a file is replaced by another, if it occurs once.  Positions are counted in
characters.  Occurrences are counted as they are when none may overlap the one before it, and the line
that is reported is one too high when the text starts in the middle of a line.

* `Located`: what is to hold of an edit.
* `edit_located_iff`: it holds exactly of the texts that occur at one place only, at the start of a line,
  as far as they are replaced at all.
-/

namespace Jcode.Tool
open Rust

/-- What `execute` reads of its input. -/
structure EditInput where
  filePath : String
  oldString : String
  newString : String
  replaceAll : Bool := false
  deriving DecidableEq, Repr

/-! ### The library's functions -/

/-- `str::match_indices`, in characters. -/
def matchIndices (s pattern : String) : List ℕ := Occur.indices pattern.toList s.toList

/-- The text with another for the `len` characters at each index, from the last one on. -/
def replaceAt (s replacement : List Char) (len : ℕ) : ℕ → List ℕ → List Char
  | last, [] => s.drop last
  | last, i :: is =>
      (s.drop last).take (i - last) ++ replacement ++ replaceAt s replacement len (i + len) is

/-- `str::replacen`. -/
def replacen (s pattern replacement : String) (count : ℕ) : String :=
  String.ofList
    (replaceAt s.toList replacement.toList pattern.length 0 ((matchIndices s pattern).take count))

/-- `str::replace`. -/
def replace (s pattern replacement : String) : String :=
  String.ofList (replaceAt s.toList replacement.toList pattern.length 0 (matchIndices s pattern))

/-- `slice::windows`, of a length that is not zero. -/
def windows {α : Type*} (n : ℕ) (l : List α) : List (List α) :=
  (List.range (l.length + 1 - n)).map fun i => (l.drop i).take n

/-- A number to the right in `width` places. -/
def padLeft (width : ℕ) (s : String) : String :=
  String.ofList (List.replicate (width - s.length) ' ') ++ s

/-! ### The parts of the answer -/

/-- The number of the line that the text starts in. -/
def findLineNumber (content substring : String) : ℕ :=
  match Occur.findAt substring.toList content.toList with
  | some pos => (lines (String.ofList (content.toList.take pos))).length + 1
  | none => 1

/-- The lines of `generate_diff`. -/
def editDiffFrom (oldLine newLine : ℕ) : List (ChangeTag × String) → String
  | [] => ""
  | (tag, value) :: rest =>
      let content := trim value
      match tag with
      | .delete =>
          (if content.isEmpty then "" else toString oldLine ++ "- " ++ content ++ "\n") ++
            editDiffFrom (oldLine + 1) newLine rest
      | .insert =>
          (if content.isEmpty then "" else toString newLine ++ "+ " ++ content ++ "\n") ++
            editDiffFrom oldLine (newLine + 1) rest
      | .equal => editDiffFrom (oldLine + 1) (newLine + 1) rest

/-- `extract_context`: the lines around the edit, numbered; `none` is a slice out of range. -/
def extractContext (content : String) (editStart editEnd padding : ℕ) : Option (ℕ × ℕ × String) :=
  let ls := lines content
  let start := editStart - (padding + 1)
  let stop := min (editEnd + padding) ls.length
  if start ≤ stop then
    let contextLines := ((ls.drop start).take (stop - start)).zipIdx.map fun (line, i) =>
      padLeft 4 (toString (start + i + 1)) ++ "│ " ++ line
    some (start + 1, stop, join "\n" contextLines)
  else none

/-- `try_flexible_match`: what is said of a text that is not found; `none` is a panic. -/
def tryFlexibleMatch (content oldString filePath : String) : Option String :=
  if contains content (trim oldString) && trim oldString ≠ oldString then
    some ("old_string not found exactly, but found after trimming whitespace.\n" ++
      "Try using the exact string from the file, including leading/trailing whitespace.")
  else
    let oldLines := lines oldString
    if oldLines = [] then none
    else
      let matching := (windows oldLines.length (lines content)).findIdx? fun window =>
        (window.zip oldLines).all fun (a, b) => trim a == trim b
      match matching with
      | some i =>
          some ("old_string not found exactly, but found with different indentation around line " ++
            toString (i + 1) ++ ".\nMake sure to preserve the exact whitespace from the file.")
      | none =>
          some ("old_string not found in " ++ filePath ++
            ".\nUse the read tool to see the current file contents.")

/-- What a successful edit reports. -/
structure EditReport where
  occurrences : ℕ
  startLine : ℕ
  endLine : ℕ
  diff : String
  context : ℕ × ℕ × String
  deriving DecidableEq, Repr

/-- The summary of the edit, for the other sessions. -/
def EditReport.summary (r : EditReport) : String :=
  "edited lines " ++ toString r.startLine ++ "-" ++ toString r.endLine ++ " (" ++
    toString r.occurrences ++ " occurrence" ++ (if r.occurrences = 1 then "" else "s") ++ ")"

def EditReport.toolOutput (r : EditReport) (filePath : String) : ToolOutput where
  output := "Edited " ++ filePath ++ ": replaced " ++ toString r.occurrences ++ " occurrence(s)\n" ++
    r.diff ++ "\n\nContext after edit (lines " ++ toString r.context.1 ++ "-" ++
    toString r.context.2.1 ++ "):\n" ++ r.context.2.2
  title := some filePath

section
variable (changes : String → String → List (ChangeTag × String))

/-- `EditTool::execute` on the file at its path: what it reports, and the file it leaves; `none` is a
panic. -/
def EditInput.execute (params : EditInput) (file : StoredFile) :
    Option (Except String EditReport × StoredFile) :=
  if params.oldString = params.newString then
    some (.error "old_string and new_string must be different", file)
  else match file with
  | .absent => some (.error ("File not found: " ++ params.filePath), file)
  | .binary => some (.error "stream did not contain valid UTF-8", file)
  | .text content =>
      let occurrences := (matchIndices content params.oldString).length
      if occurrences = 0 then
        (tryFlexibleMatch content params.oldString params.filePath).map fun e => (.error e, file)
      else if 1 < occurrences ∧ params.replaceAll = false then
        some (.error ("old_string found " ++ toString occurrences ++
          " times in the file. Either:\n1. Provide more context to make it unique, or\n" ++
          "2. Set replace_all: true to replace all occurrences"), file)
      else
        let newContent :=
          if params.replaceAll then replace content params.oldString params.newString
          else replacen content params.oldString params.newString 1
        let startLine := findLineNumber content params.oldString
        let diff := trimEnd (editDiffFrom startLine startLine (changes params.oldString params.newString))
        let endLine := startLine + ((lines params.newString).length - 1)
        (extractContext newContent startLine endLine 3).map fun context =>
          (.ok { occurrences, startLine, endLine, diff, context }, .text newContent)

end

/-! ### The place of an edit -/

/-- The text occurs at a place of the content, which may be within another occurrence. -/
def OccursAt (content pattern : String) (p : ℕ) : Prop :=
  p ≤ content.length ∧ pattern.toList <+: content.toList.drop p

/-- The character before, if there is one, is a newline. -/
def StartsLine (content : String) (p : ℕ) : Prop :=
  (content.toList.take p).getLast?.all (· = '\n') = true

instance (content : String) (p : ℕ) : Decidable (StartsLine content p) :=
  inferInstanceAs (Decidable (_ = true))

/-- The text is replaced at its one place, and the line reported is that of the place; an edit that
fails leaves the file. -/
def Located (params : EditInput) (file : StoredFile) :
    Option (Except String EditReport × StoredFile) → Prop
  | none => False
  | some (.error _, file') => file' = file
  | some (.ok report, file') => ∃ content p, file = .text content ∧
      (∀ q, OccursAt content params.oldString q ↔ q = p) ∧
      file' = .text (String.ofList (content.toList.take p ++ params.newString.toList ++
        content.toList.drop (p + params.oldString.length))) ∧
      report.startLine = 1 + (content.toList.take p).count '\n'

section
variable {content pattern replacement : String} {p : ℕ}

theorem occursAt_of_findAt (h : Occur.findAt pattern.toList content.toList = some p) :
    OccursAt content pattern p := by
  obtain ⟨hle, hoccurs, _⟩ := Occur.findAt_eq_some_iff.mp h
  exact ⟨by rwa [String.length_toList] at hle, hoccurs⟩

/-- The search and the count find the same. -/
theorem matchIndices_ne_nil (h : (matchIndices content pattern).length ≠ 0) :
    ∃ p is, matchIndices content pattern = p :: is ∧
      Occur.findAt pattern.toList content.toList = some p := by
  obtain ⟨p, is, heq⟩ := List.exists_cons_of_length_pos (Nat.pos_of_ne_zero h)
  have hhead : (matchIndices content pattern).head? = some p := by rw [heq, List.head?_cons]
  exact ⟨p, is, heq, Occur.head?_indices.symm.trans hhead⟩

/-- The empty text is found. -/
theorem ne_empty_of_matchIndices (h : (matchIndices content pattern).length = 0) : pattern ≠ "" := by
  rintro rfl
  have hfind : Occur.findAt "".toList content.toList = some 0 :=
    Occur.findAt_eq_some_iff.mpr ⟨Nat.zero_le _, List.nil_prefix, fun m hm => absurd hm m.not_lt_zero⟩
  rw [← Occur.head?_indices] at hfind
  have hnil : Occur.indices "".toList content.toList = [] := List.eq_nil_of_length_eq_zero h
  rw [hnil] at hfind
  cases hfind

theorem tryFlexibleMatch_isSome (filePath : String) (h : pattern ≠ "") :
    ∃ e, tryFlexibleMatch content pattern filePath = some e := by
  have hlines : lines pattern ≠ [] := by
    intro hnil
    have hlength := length_lines pattern
    rw [hnil, List.length_nil] at hlength
    obtain ⟨hcount, hlast⟩ := Nat.add_eq_zero_iff.mp hlength.symm
    -- a text without newlines does not end in one
    cases hpattern : pattern.toList.getLast? with
    | none => exact h (String.toList_eq_nil_iff.mp (List.getLast?_eq_none_iff.mp hpattern))
    | some c =>
        rw [hpattern, Option.all_some] at hlast
        have hc : c = '\n' := by
          by_contra hc
          simp [hc] at hlast
        exact List.count_eq_zero.mp hcount (hc ▸ List.mem_of_getLast? hpattern)
  unfold tryFlexibleMatch
  split
  · exact ⟨_, rfl⟩
  · rw [if_neg hlines]
    dsimp only
    split <;> exact ⟨_, rfl⟩

/-- **The line that is reported**: one too high in the middle of a line. -/
theorem findLineNumber_eq (h : Occur.findAt pattern.toList content.toList = some p) :
    findLineNumber content pattern =
      (content.toList.take p).count '\n' + (if (content.toList.take p).getLast?.all (· = '\n') then 0
        else 1) + 1 := by
  rw [findLineNumber, h]
  simp only [length_lines, String.toList_ofList]

/-- What is before the first occurrence stays. -/
theorem take_prefix_replaceAt {xs new : List Char} {len i : ℕ} {is : List ℕ} :
    xs.take i <+: replaceAt xs new len 0 (i :: is) := by
  rw [replaceAt, List.drop_zero, Nat.sub_zero, List.append_assoc]
  exact List.prefix_append _ _

theorem replacen_one {is : List ℕ} (h : matchIndices content pattern = p :: is) :
    replacen content pattern replacement 1 =
      String.ofList (content.toList.take p ++ replacement.toList ++
        content.toList.drop (p + pattern.length)) := by
  rw [replacen, h]
  simp [replaceAt]

/-- The lines around a place that the text has are a part of it. -/
theorem extractContext_isSome {editStart editEnd : ℕ} (hle : editStart ≤ editEnd)
    (hlines : editStart ≤ (lines content).length + 4) :
    ∃ context, extractContext content editStart editEnd 3 = some context := by
  unfold extractContext
  rw [if_pos (by omega)]
  exact ⟨_, rfl⟩

/-- The new content has the lines before the place. -/
theorem findLineNumber_le {newContent : String}
    (h : Occur.findAt pattern.toList content.toList = some p)
    ( hprefix : content.toList.take p <+: newContent.toList) :
    findLineNumber content pattern ≤ (lines newContent).length + 4 := by
  have hcount := hprefix.sublist.count_le '\n'
  rw [findLineNumber_eq h, length_lines]
  split <;> omega

end

section
variable {changes : String → String → List (ChangeTag × String)} {params : EditInput}
  {file : StoredFile}

/-- **An edit never panics**, with or without `replace_all`. -/
theorem execute_isSome : ∃ answer, params.execute changes file = some answer := by
  unfold EditInput.execute
  split
  · exact ⟨_, rfl⟩
  cases file with
  | absent => exact ⟨_, rfl⟩
  | binary => exact ⟨_, rfl⟩
  | text content =>
      dsimp only
      split
      · rename_i hnone
        obtain ⟨e, he⟩ := @tryFlexibleMatch_isSome content _ params.filePath
          (ne_empty_of_matchIndices hnone)
        exact ⟨_, congrArg (Option.map _) he⟩
      split
      · exact ⟨_, rfl⟩
      · rename_i hsome _
        obtain ⟨p, is, hindices, hfind⟩ := matchIndices_ne_nil hsome
        have hprefix : content.toList.take p <+:
            (if params.replaceAll then replace content params.oldString params.newString
              else replacen content params.oldString params.newString 1).toList := by
          split
          · rw [replace, hindices, String.toList_ofList]
            exact take_prefix_replaceAt
          · rw [replacen, hindices, String.toList_ofList]
            exact take_prefix_replaceAt
        obtain ⟨context, hcontext⟩ := extractContext_isSome
          (Nat.le_add_right _ ((lines params.newString).length - 1)) (findLineNumber_le hfind hprefix)
        exact ⟨_, congrArg (Option.map _) hcontext⟩

/-- Without `replace_all` an edit fails, or the count is one and the first occurrence is replaced. -/
theorem execute_cases (hall : params.replaceAll = false) :
    (∃ e, params.execute changes file = some (.error e, file) ∧
      ∀ content, file = .text content → params.oldString ≠ params.newString →
        (matchIndices content params.oldString).length ≠ 1) ∨
    ∃ content p report, file = .text content ∧ params.oldString ≠ params.newString ∧
      matchIndices content params.oldString = [p] ∧
      Occur.findAt params.oldString.toList content.toList = some p ∧
      params.execute changes file = some (.ok report,
        .text (String.ofList (content.toList.take p ++ params.newString.toList ++
          content.toList.drop (p + params.oldString.length)))) ∧
      report.startLine = findLineNumber content params.oldString := by
  obtain ⟨⟨answer, file'⟩, hanswer⟩ := @execute_isSome changes params file
  rw [hanswer]
  unfold EditInput.execute at hanswer
  split at hanswer
  · rename_i heq
    obtain ⟨rfl, rfl⟩ := Prod.mk.inj (Option.some.inj hanswer)
    exact .inl ⟨_, rfl, fun content _ hne => absurd heq hne⟩
  rename_i hne
  cases file with
  | absent =>
      obtain ⟨rfl, rfl⟩ := Prod.mk.inj (Option.some.inj hanswer)
      exact .inl ⟨_, rfl, fun content h => nomatch h⟩
  | binary =>
      obtain ⟨rfl, rfl⟩ := Prod.mk.inj (Option.some.inj hanswer)
      exact .inl ⟨_, rfl, fun content h => nomatch h⟩
  | text content =>
      have hcontent : ∀ {content'}, StoredFile.text content = .text content' →
          (matchIndices content params.oldString).length ≠ 1 →
          (matchIndices content' params.oldString).length ≠ 1 := fun h hcount =>
        StoredFile.text.inj h ▸ hcount
      dsimp only at hanswer
      split at hanswer
      · rename_i hnone
        obtain ⟨e, _, heq⟩ := Option.map_eq_some_iff.mp hanswer
        obtain ⟨rfl, rfl⟩ := Prod.mk.inj heq
        exact .inl ⟨e, rfl, fun content' h _ => hcontent h (by omega)⟩
      rename_i hsome
      split at hanswer
      · rename_i hmany
        obtain ⟨rfl, rfl⟩ := Prod.mk.inj (Option.some.inj hanswer)
        exact .inl ⟨_, rfl, fun content' h _ => hcontent h (by omega)⟩
      · rename_i hone
        obtain ⟨p, is, hindices, hfind⟩ := matchIndices_ne_nil hsome
        have his : is = [] := by
          rw [hindices, List.length_cons] at hone
          exact List.eq_nil_of_length_eq_zero (by simp only [hall, and_true] at hone; omega)
        obtain ⟨context, _, heq⟩ := Option.map_eq_some_iff.mp hanswer
        obtain ⟨rfl, rfl⟩ := Prod.mk.inj heq
        rw [hall, if_neg Bool.false_ne_true, replacen_one hindices]
        exact .inr ⟨content, p, _, rfl, hne, his ▸ hindices, hfind, rfl, rfl⟩

/-- The one place of the text, at the start of a line. -/
def OnlyAtLineStart (content pattern : String) : Prop :=
  ∃ p, (∀ q, OccursAt content pattern q ↔ q = p) ∧ StartsLine content p

theorem located_iff (hall : params.replaceAll = false) :
    Located params file (params.execute changes file) ↔
      ∀ content, file = .text content → params.oldString ≠ params.newString →
        (matchIndices content params.oldString).length = 1 →
        OnlyAtLineStart content params.oldString := by
  obtain ⟨e, heq, hcount⟩ | ⟨content, p, report, rfl, hne, hindices, hfind, heq, hline⟩ :=
    @execute_cases changes params file hall
  · rw [heq]
    exact iff_of_true rfl fun content hcontent hne hone => absurd hone (hcount content hcontent hne)
  · have hoccurs : OccursAt content params.oldString p := occursAt_of_findAt hfind
    rw [heq, Located, hline, findLineNumber_eq hfind]
    constructor
    · rintro ⟨content', p', hcontent, honly, _, hstart⟩ content'' hcontent' _ _
      obtain rfl := StoredFile.text.inj hcontent
      obtain rfl := StoredFile.text.inj hcontent'
      obtain rfl : p = p' := (honly p).mp hoccurs
      refine ⟨p, honly, ?_⟩
      by_contra hmid
      rw [StartsLine] at hmid
      rw [if_neg hmid] at hstart
      omega
    · intro h
      obtain ⟨p', honly, hstarts⟩ := h content rfl hne (by rw [hindices]; rfl)
      obtain rfl : p = p' := (honly p).mp hoccurs
      rw [StartsLine] at hstarts
      refine ⟨content, p, rfl, honly, rfl, ?_⟩
      rw [if_pos hstarts]
      omega

/-- **Where an edit is located**: where the text, if it is replaced, occurs at one place only, and at the
start of a line. -/
theorem edit_located_iff (filePath oldString newString : String) (file : StoredFile) :
    Located { filePath, oldString, newString } file
        (EditInput.execute changes { filePath, oldString, newString } file) ↔
      ∀ content, file = .text content → oldString ≠ newString →
        (matchIndices content oldString).length = 1 → OnlyAtLineStart content oldString :=
  located_iff rfl

end

/-- A text that overlaps itself counts once, and one within a line is given the line after. -/
theorem edit_not_located :
    ¬ Located { filePath := "f", oldString := "aa", newString := "b" } (.text "aaa")
        (EditInput.execute oneLineChanges { filePath := "f", oldString := "aa", newString := "b" }
          (.text "aaa")) ∧
      ¬ Located { filePath := "f", oldString := "b", newString := "c" } (.text "ab")
        (EditInput.execute oneLineChanges { filePath := "f", oldString := "b", newString := "c" }
          (.text "ab")) := by
  rw [located_iff rfl, located_iff rfl]
  constructor
  · intro h
    obtain ⟨p, honly, _⟩ := h "aaa" rfl (by decide) (by decide)
    have hfirst : 0 = p := (honly 0).mp ⟨Nat.zero_le _, by decide⟩
    have hsecond : 1 = p := (honly 1).mp ⟨by decide, by decide⟩
    exact absurd (hfirst.trans hsecond.symm) nofun
  · intro h
    obtain ⟨p, honly, hstarts⟩ := h "ab" rfl (by decide) (by decide)
    obtain rfl : 1 = p := (honly 1).mp ⟨by decide, by decide⟩
    exact absurd hstarts (by decide)

end Jcode.Tool
