import Jcode.Tool.Patch

/-!
# Tool — patch, on what diff wrote

A unified diff of the lines of one file: hunks of lines that are kept, deleted and inserted, each under
a header with its place, and the lines between them, which it does not show.

* `parsePatch_render`: it is parsed into its hunks, unless a deleted line looks like the header of a
  file.
* `applyHunks_diffHunks`: they give the new lines, unless one that only inserts stands behind others.
* `patch_applies_iff`: when a patch turns the old text into the new.

The parser and the application read lines without a carriage return at their end (`chomp`).
-/

namespace Jcode.Tool
open Rust

/-! ### Unified diffs -/

/-- A hunk, and the lines before it that are in none. -/
structure DiffHunk where
  before : List String
  body : List (ChangeTag × String)
  /-- What stands behind the ranges of its header. -/
  heading : String := ""
  /-- Counts of one are written out. -/
  full : Bool := false
  deriving DecidableEq, Repr

def oldSide : List (ChangeTag × String) → List String
  | [] => []
  | (.insert, _) :: body => oldSide body
  | (.equal, line) :: body | (.delete, line) :: body => line :: oldSide body

def newSide : List (ChangeTag × String) → List String
  | [] => []
  | (.delete, _) :: body => newSide body
  | (.equal, line) :: body | (.insert, line) :: body => line :: newSide body

def bodyLine : ChangeTag × String → String
  | (.equal, line) => " " ++ line
  | (.delete, line) => "-" ++ line
  | (.insert, line) => "+" ++ line

/-- The first line of a range behind `before` lines; one without lines names the line before it. -/
def rangeStart (before count : ℕ) : ℕ := if count = 0 then before else before + 1

/-- A count of one may be left out. -/
def diffRange (full : Bool) (before count : ℕ) : String :=
  toString (rangeStart before count) ++
    if count = 1 ∧ full = false then "" else "," ++ toString count

def DiffHunk.header (h : DiffHunk) (oldBefore newBefore : ℕ) : String :=
  "@@" ++ " " ++ ("-" ++ diffRange h.full oldBefore (oldSide h.body).length) ++ " " ++
    ("+" ++ diffRange h.full newBefore (newSide h.body).length) ++ " " ++ ("@@" ++ h.heading)

/-- The lines of the hunks, behind so many lines of the two texts. -/
def renderHunks (oldBefore newBefore : ℕ) : List DiffHunk → List String
  | [] => []
  | h :: hs =>
      h.header (oldBefore + h.before.length) (newBefore + h.before.length) ::
        (h.body.map bodyLine ++
          renderHunks (oldBefore + h.before.length + (oldSide h.body).length)
            (newBefore + h.before.length + (newSide h.body).length) hs)

/-- The diff of a file, whose names may have the time behind them. -/
structure UnifiedDiff where
  oldName : String
  newName : String
  oldStamp : String := ""
  newStamp : String := ""
  hunks : List DiffHunk
  after : List String
  deriving DecidableEq, Repr

namespace UnifiedDiff
variable (d : UnifiedDiff)

def oldLines : List String := d.hunks.flatMap (fun h => h.before ++ oldSide h.body) ++ d.after

def newLines : List String := d.hunks.flatMap (fun h => h.before ++ newSide h.body) ++ d.after

def lines : List String :=
  ("--- " ++ (d.oldName ++ d.oldStamp)) :: ("+++ " ++ (d.newName ++ d.newStamp)) ::
    renderHunks 0 0 d.hunks

def render : String := text d.lines

end UnifiedDiff

/-- A name, and what stands behind it in a header. -/
structure HeaderName (name stamp : String) : Prop where
  exists_file : name ≠ "/dev/null"
  noTab : '\t' ∉ name.toList
  separated : stamp = "" ∨ stamp.toList.head? = some '\t'
  noReturn : (name ++ stamp).toList.getLast? ≠ some '\r'

/-- A diff of a file that exists, in the form that diff writes.  No text has `2 ^ 64` lines. -/
structure UnifiedDiff.Standard (d : UnifiedDiff) : Prop where
  oldName : HeaderName d.oldName d.oldStamp
  newName : HeaderName d.newName d.newStamp
  hunks : d.hunks ≠ []
  headings : ∀ h ∈ d.hunks, h.heading.toList.getLast? ≠ some '\r'
  isLine : ∀ l ∈ d.lines ++ (d.oldLines ++ d.newLines), IsLine l
  size : d.oldLines.length < 2 ^ 64

/-- The patch is one of an existing file, and turns the old text into the new. -/
def UnifiedDiff.Applies (changes : String → String → List (ChangeTag × String)) (d : UnifiedDiff) :
    Prop :=
  ∃ patch answer, parsePatch d.render = [patch] ∧ patch.isNew = false ∧ patch.isDelete = false ∧
    applyPatchWithDiff changes patch (.text (text d.oldLines)) =
      some (.ok answer, .text (text d.newLines))

/-- A hunk that takes no lines stands before all lines. -/
def InsertsFirst (before : ℕ) : List DiffHunk → Prop
  | [] => True
  | h :: hs => (oldSide h.body = [] → before + h.before.length = 0) ∧
      InsertsFirst (before + h.before.length + (oldSide h.body).length) hs

/-- What the parser and the application rely on. -/
structure UnifiedDiff.ReadsBack (d : UnifiedDiff) : Prop where
  deleted : ∀ h ∈ d.hunks, ∀ line, (.delete, line) ∈ h.body → startsWith line "--" = false
  inserts : InsertsFirst 0 d.hunks

/-! ### Numbers and words -/

theorem toList_toString (n : ℕ) : (toString n).toList = Nat.toDigits 10 n := String.toList_ofList

theorem isDigit_of_mem_toString {n : ℕ} {c : Char} (h : c ∈ (toString n).toList) :
    c.isDigit = true := by
  rw [toList_toString] at h
  exact Nat.isDigit_of_mem_toDigits (by decide) (by decide) h

theorem parseUsize_toString {n : ℕ} (h : n < 2 ^ 64) : parseUsize (toString n) = some n := by
  have hne : Nat.toDigits 10 n ≠ [] := Nat.toDigits_ne_nil
  have hall : (Nat.toDigits 10 n).all Char.isDigit := List.all_eq_true.mpr fun c hc =>
    Nat.isDigit_of_mem_toDigits (by decide) (by decide) hc
  have hplus : (Nat.toDigits 10 n).head? ≠ some '+' := by
    intro hhead
    have hdigit := List.all_eq_true.mp hall '+' (List.mem_of_head? hhead)
    exact absurd hdigit (by decide)
  simp only [parseUsize, toList_toString]
  rw [if_neg hplus, if_pos ⟨hne, hall, by rwa [Nat.ofDigitChars_ten_toDigits]⟩,
    Nat.ofDigitChars_ten_toDigits]

/-- The first piece of a text, up to the character. -/
theorem head_split {w t : String} {c : Char} (hw : c ∉ w.toList)
    (ht : t = "" ∨ t.toList.head? = some c) : (split (w ++ t) c).head? = some w := by
  rw [split, String.toList_append, List.head?_map]
  rcases ht with rfl | ht
  · rw [String.toList_empty, List.append_nil, List.splitOn_eq_singleton hw, List.head?_cons,
      Option.map_some, String.ofList_toList]
  · obtain ⟨cs, hcs⟩ := List.head?_eq_some_iff.mp ht
    have hw' : ∀ x ∈ w.toList, (x == c) = false := fun x hx => by
      simpa using ne_of_mem_of_not_mem hx hw
    rw [hcs, List.splitOn_eq_splitOnP, List.splitOnP_append_cons_of_forall_mem hw' _ (by simp),
      List.head?_cons, Option.map_some, String.ofList_toList]

/-- The first word of a text. -/
theorem splitWhitespace_cons {w : String} (hne : w ≠ "")
    (hw : ∀ c ∈ w.toList, isWhitespace c = false) (t : String) :
    splitWhitespace (w ++ " " ++ t) = w :: splitWhitespace t := by
  have hword : (!w.toList.isEmpty) = true := by simpa using hne
  rw [splitWhitespace, String.toList_append, String.toList_append, List.append_assoc]
  have hspace : " ".toList ++ t.toList = ' ' :: t.toList := rfl
  rw [hspace, List.splitOnP_append_cons_of_forall_mem hw _ (by decide), List.filter_cons, if_pos hword,
    List.map_cons, String.ofList_toList, splitWhitespace]

/-! ### The parser -/

theorem isDigit_not_whitespace {c : Char} (h : c.isDigit = true) : isWhitespace c = false := by
  have hrange : 48 ≤ c.toNat ∧ c.toNat ≤ 57 := by
    simpa [Char.isDigit, UInt32.le_iff_toNat_le] using h
  simp only [isWhitespace, Bool.or_eq_false_iff, Bool.and_eq_false_iff, decide_eq_false_iff_not,
    beq_eq_false_iff_ne]
  omega

theorem mem_diffRange {full : Bool} {before count : ℕ} {c : Char}
    (h : c ∈ (diffRange full before count).toList) :
    c.isDigit = true ∨ c = ',' := by
  rw [diffRange, String.toList_append, List.mem_append] at h
  rcases h with h | h
  · exact .inl (isDigit_of_mem_toString h)
  · split at h
    · cases h
    · rw [String.toList_append, List.mem_append] at h
      rcases h with h | h
      · exact .inr (List.mem_singleton.mp h)
      · exact .inl (isDigit_of_mem_toString h)

/-- A range is a word, behind its sign. -/
theorem signed_diffRange {sign : String} (hsign : ∀ c ∈ sign.toList, isWhitespace c = false)
    (full : Bool) (before count : ℕ) :
    ∀ c ∈ (sign ++ diffRange full before count).toList, isWhitespace c = false := by
  intro c hc
  rw [String.toList_append, List.mem_append] at hc
  rcases hc with hc | hc
  · exact hsign c hc
  · rcases mem_diffRange hc with hdigit | rfl
    · exact isDigit_not_whitespace hdigit
    · decide

theorem parseOldStart_diffRange {full : Bool} {before count : ℕ}
    (h : rangeStart before count < 2 ^ 64) :
    parseOldStart ("-" ++ diffRange full before count) = rangeStart before count := by
  have hdigits : ',' ∉ (toString (rangeStart before count)).toList := by
    intro hcomma
    exact absurd (isDigit_of_mem_toString hcomma) (by decide)
  have hhead : (split (diffRange full before count) ',').head? =
      some (toString (rangeStart before count)) := by
    refine head_split hdigits ?_
    split
    · exact .inl rfl
    · refine .inr ?_
      rw [String.toList_append]
      rfl
  rw [parseOldStart, stripPrefix_append, Option.getD_some, hhead, Option.bind_some,
    parseUsize_toString h, Option.getD_some]

/-- The words of a header, and what the parser makes of them. -/
theorem parseHunk_header (h : DiffHunk) {oldBefore newBefore : ℕ} {rest : List String}
    (hstart : rangeStart oldBefore (oldSide h.body).length < 2 ^ 64) :
    parseHunk (h.header oldBefore newBefore) rest =
      (some ⟨rangeStart oldBefore (oldSide h.body).length, (hunkLines rest).1.1,
        (hunkLines rest).1.2⟩, (hunkLines rest).2) := by
  have hwords : splitWhitespace (h.header oldBefore newBefore) =
      "@@" :: ("-" ++ diffRange h.full oldBefore (oldSide h.body).length) ::
        ("+" ++ diffRange h.full newBefore (newSide h.body).length) ::
          splitWhitespace ("@@" ++ h.heading) := by
    have hat : ∀ c ∈ "@@".toList, isWhitespace c = false := by simp [isWhitespace]
    have hold := @signed_diffRange "-" (by simp [isWhitespace]) h.full oldBefore
      (oldSide h.body).length
    have hnew := @signed_diffRange "+" (by simp [isWhitespace]) h.full newBefore
      (newSide h.body).length
    have hassoc : h.header oldBefore newBefore =
        "@@" ++ " " ++ (("-" ++ diffRange h.full oldBefore (oldSide h.body).length) ++ " " ++
          (("+" ++ diffRange h.full newBefore (newSide h.body).length) ++ " " ++ ("@@" ++ h.heading))) := by
      simp only [DiffHunk.header, String.append_assoc]
    rw [hassoc, splitWhitespace_cons (by decide) hat, splitWhitespace_cons (by simp) hold,
      splitWhitespace_cons (by simp) hnew]
  rw [parseHunk, hwords]
  dsimp only
  rw [parseOldStart_diffRange hstart]

/-- A line behind one mark does not start as one behind another. -/
theorem startsWith_other {mark pattern line : String} {a b : Char} {as bs : List Char}
    (hmark : mark.toList = a :: as) (hpattern : pattern.toList = b :: bs) (hne : b ≠ a) :
    startsWith (mark ++ line) pattern = false := by
  refine Bool.eq_false_iff.mpr fun hstart => ?_
  rw [startsWith_iff, String.toList_append, hmark, hpattern] at hstart
  exact hne (List.cons_prefix_cons.mp hstart).1

theorem header_startsWith (h : DiffHunk) (oldBefore newBefore : ℕ) :
    startsWith (h.header oldBefore newBefore) "@@" = true ∧
      startsWith (h.header oldBefore newBefore) "---" = false := by
  have hassoc : h.header oldBefore newBefore = "@@" ++
      (" " ++ ("-" ++ diffRange h.full oldBefore (oldSide h.body).length) ++ " " ++
        ("+" ++ diffRange h.full newBefore (newSide h.body).length) ++ " " ++ ("@@" ++ h.heading)) := by
    simp only [DiffHunk.header, String.append_assoc]
  rw [hassoc]
  exact ⟨startsWith_append _ _, startsWith_other rfl rfl (by decide)⟩

/-- The lines of a hunk, up to the next header. -/
theorem hunkLines_body {body : List (ChangeTag × String)} {rest : List String}
    (hdel : ∀ line, (.delete, line) ∈ body → startsWith line "--" = false)
    (hrest : ∀ l ∈ rest.head?, startsWith l "@@" = true) :
    hunkLines (body.map bodyLine ++ rest) = ((oldSide body, newSide body), rest) := by
  induction body with
  | nil =>
      cases rest with
      | nil => rfl
      | cons l rest =>
          rw [List.map_nil, List.nil_append, hunkLines, hrest l rfl, Bool.true_or, if_pos rfl]
          rfl
  | cons c body ih =>
      obtain ⟨tag, line⟩ := c
      have hbody := ih fun line hline => hdel line (List.mem_cons_of_mem _ hline)
      rw [List.map_cons, List.cons_append, hunkLines]
      cases tag with
      | delete =>
          have hat : startsWith ("-" ++ line) "@@" = false :=
            startsWith_other rfl rfl (by decide)
          have hfile : startsWith ("-" ++ line) "---" = false := by
            rw [startsWith, String.toList_append]
            exact hdel line List.mem_cons_self
          rw [bodyLine, hat, hfile, hbody, Bool.or_self, if_neg Bool.false_ne_true]
          dsimp only
          rw [stripPrefix_append]
          rfl
      | insert =>
          have hat : startsWith ("+" ++ line) "@@" = false :=
            startsWith_other rfl rfl (by decide)
          have hfile : startsWith ("+" ++ line) "---" = false :=
            startsWith_other rfl rfl (by decide)
          have hminus : stripPrefix ("+" ++ line) "-" = none :=
            stripPrefix_eq_none (startsWith_other rfl rfl (by decide))
          rw [bodyLine, hat, hfile, hbody, Bool.or_self, if_neg Bool.false_ne_true]
          dsimp only
          rw [hminus, stripPrefix_append]
          rfl
      | equal =>
          have hat : startsWith (" " ++ line) "@@" = false :=
            startsWith_other rfl rfl (by decide)
          have hfile : startsWith (" " ++ line) "---" = false :=
            startsWith_other rfl rfl (by decide)
          have hminus : stripPrefix (" " ++ line) "-" = none :=
            stripPrefix_eq_none (startsWith_other rfl rfl (by decide))
          have hplus : stripPrefix (" " ++ line) "+" = none :=
            stripPrefix_eq_none (startsWith_other rfl rfl (by decide))
          rw [bodyLine, hat, hfile, hbody, Bool.or_self, if_neg Bool.false_ne_true]
          dsimp only
          rw [hminus, hplus, stripPrefix_append]
          rfl

/-- The hunks as they are parsed. -/
def diffHunks (oldBefore : ℕ) : List DiffHunk → List Hunk
  | [] => []
  | h :: hs =>
      ⟨rangeStart (oldBefore + h.before.length) (oldSide h.body).length, oldSide h.body,
        newSide h.body⟩ ::
        diffHunks (oldBefore + h.before.length + (oldSide h.body).length) hs

theorem fileHunks_renderHunks {hs : List DiffHunk} {oldBefore newBefore : ℕ}
    (hdel : ∀ h ∈ hs, ∀ line, (.delete, line) ∈ h.body → startsWith line "--" = false)
    (hsize : oldBefore + (hs.flatMap fun h => h.before ++ oldSide h.body).length < 2 ^ 64) :
    fileHunks (renderHunks oldBefore newBefore hs) = (diffHunks oldBefore hs, []) := by
  induction hs generalizing oldBefore newBefore with
  | nil =>
      rw [renderHunks, fileHunks]
      rfl
  | cons h hs ih =>
      obtain ⟨hone, hothers⟩ := List.forall_mem_cons.mp hdel
      rw [List.flatMap_cons, List.length_append, List.length_append] at hsize
      obtain ⟨hat, hfile⟩ := header_startsWith h (oldBefore + h.before.length)
        (newBefore + h.before.length)
      have hstart : rangeStart (oldBefore + h.before.length) (oldSide h.body).length < 2 ^ 64 := by
        rw [rangeStart]
        split <;> omega
      have hnext : ∀ l ∈ (renderHunks (oldBefore + h.before.length + (oldSide h.body).length)
          (newBefore + h.before.length + (newSide h.body).length) hs).head?,
          startsWith l "@@" = true := by
        cases hs with
        | nil =>
            intro l hl
            cases hl
        | cons h' hs =>
            intro l hl
            obtain rfl := Option.some.inj hl
            exact (header_startsWith h' _ _).1
      -- so the hunk ends where the next one begins
      have hlines := hunkLines_body hone hnext
      rw [renderHunks, fileHunks, hfile, hat, if_neg Bool.false_ne_true, if_pos rfl]
      dsimp only
      rw [parseHunk_header h hstart, hlines, ih hothers (by omega)]
      rfl

/-- **The lines of a diff are parsed into its hunks.** -/
theorem patchesFrom_lines {d : UnifiedDiff} (hold : HeaderName d.oldName d.oldStamp)
    (hnew : HeaderName d.newName d.newStamp) (hne : d.hunks ≠ []) (hsize : d.oldLines.length < 2 ^ 64)
    (hdel : ∀ h ∈ d.hunks, ∀ line, (.delete, line) ∈ h.body → startsWith line "--" = false) :
    patchesFrom d.lines = [filePatch d.oldName d.newName (diffHunks 0 d.hunks)] := by
  have hlength : 0 + (d.hunks.flatMap fun h => h.before ++ oldSide h.body).length < 2 ^ 64 := by
    rw [UnifiedDiff.oldLines, List.length_append] at hsize
    omega
  have hname : ∀ {mark name stamp : String}, HeaderName name stamp →
      headerFile (mark ++ (name ++ stamp)) mark = name := by
    intro mark name stamp hheader
    rw [headerFile, stripPrefix_append, Option.getD_some, head_split hheader.noTab hheader.separated,
      Option.getD_some]
  have hminus : startsWith ("--- " ++ (d.oldName ++ d.oldStamp)) "---" = true := by
    rw [startsWith, String.toList_append]
    rfl
  have hplus : startsWith ("+++ " ++ (d.newName ++ d.newStamp)) "+++" = true := by
    rw [startsWith, String.toList_append]
    rfl
  have hhunks : diffHunks 0 d.hunks ≠ [] := by
    cases hcases : d.hunks with
    | nil => exact absurd hcases hne
    | cons h hs => exact List.cons_ne_nil _ _
  rw [UnifiedDiff.lines, patchesFrom, hminus, if_pos rfl]
  dsimp only
  rw [hplus, if_pos rfl, hname hold, hname hnew, fileHunks_renderHunks hdel hlength]
  dsimp only
  rw [if_pos (.inl hhunks), patchesFrom]

/-! ### Carriage returns -/

/-- The line as it is read: without a carriage return at its end. -/
def chomp (l : String) : String := String.ofList (stripCr l.toList)

def chompLine (c : ChangeTag × String) : ChangeTag × String := (c.1, chomp c.2)

def DiffHunk.chomp (h : DiffHunk) : DiffHunk :=
  { h with before := h.before.map Tool.chomp, body := h.body.map chompLine }

def UnifiedDiff.chomp (d : UnifiedDiff) : UnifiedDiff :=
  { d with hunks := d.hunks.map DiffHunk.chomp, after := d.after.map Tool.chomp }

theorem chomp_of_ne {l : String} (h : l.toList.getLast? ≠ some '\r') : chomp l = l := by
  rw [chomp, stripCr_eq_self h, String.ofList_toList]

theorem chomp_beginning (l : String) : (chomp l).toList <+: l.toList := by
  rw [chomp, String.toList_ofList, stripCr]
  split
  · exact List.dropLast_prefix _
  · exact List.prefix_rfl

theorem chomp_eq_self_iff {l : String} : chomp l = l ↔ l.toList.getLast? ≠ some '\r' := by
  refine ⟨fun h hreturn => ?_, chomp_of_ne⟩
  have hlist : stripCr l.toList = l.toList := by
    rw [← String.toList_ofList (l := stripCr l.toList)]
    exact congrArg String.toList h
  rw [stripCr, if_pos hreturn] at hlist
  have hlength := congrArg List.length hlist
  have hpos : 0 < l.toList.length := List.length_pos_of_mem (List.mem_of_getLast? hreturn)
  rw [List.length_dropLast] at hlength
  omega

theorem getLast?_append_ne {a b : String} (ha : '\r' ∉ a.toList)
    (hb : b.toList.getLast? ≠ some '\r') : (a ++ b).toList.getLast? ≠ some '\r' := by
  rw [String.toList_append, List.getLast?_append]
  intro h
  rcases Option.or_eq_some_iff.mp h with h | ⟨-, h⟩
  · exact hb h
  · exact ha (List.mem_of_getLast? h)

theorem chomp_append {a b : String} (ha : '\r' ∉ a.toList) : chomp (a ++ b) = a ++ chomp b := by
  by_cases hb : b.toList.getLast? = some '\r'
  · have hab : (a.toList ++ b.toList).getLast? = some '\r' := by
      rw [List.getLast?_append, hb]
      rfl
    have hne : b.toList ≠ [] := List.ne_nil_of_mem (List.mem_of_getLast? hb)
    rw [chomp, chomp, stripCr, stripCr, String.toList_append, if_pos hab, if_pos hb,
      List.dropLast_append_of_ne_nil hne, String.ofList_append, String.ofList_toList]
  · rw [chomp_of_ne hb, chomp_of_ne (getLast?_append_ne ha hb)]

theorem chomp_bodyLine (c : ChangeTag × String) : chomp (bodyLine c) = bodyLine (chompLine c) := by
  obtain ⟨tag, line⟩ := c
  cases tag with
  | delete | insert | equal => exact chomp_append (by decide)

theorem oldSide_chomp (body : List (ChangeTag × String)) :
    oldSide (body.map chompLine) = (oldSide body).map chomp := by
  induction body with
  | nil => rfl
  | cons c body ih =>
      obtain ⟨tag, line⟩ := c
      cases tag with
      | insert => exact ih
      | delete | equal => exact congrArg (chomp line :: ·) ih

theorem newSide_chomp (body : List (ChangeTag × String)) :
    newSide (body.map chompLine) = (newSide body).map chomp := by
  induction body with
  | nil => rfl
  | cons c body ih =>
      obtain ⟨tag, line⟩ := c
      cases tag with
      | delete => exact ih
      | insert | equal => exact congrArg (chomp line :: ·) ih

theorem header_noReturn {h : DiffHunk} (hheading : h.heading.toList.getLast? ≠ some '\r')
    (oldBefore newBefore : ℕ) :
    (h.header oldBefore newBefore).toList.getLast? ≠ some '\r' := by
  have hrange : ∀ before count, '\r' ∉ (diffRange h.full before count).toList := by
    intro before count hmem
    rcases mem_diffRange hmem with hdigit | hcomma
    · exact absurd hdigit (by decide)
    · exact absurd hcomma (by decide)
  have hassoc : h.header oldBefore newBefore =
      ("@@" ++ " " ++ ("-" ++ diffRange h.full oldBefore (oldSide h.body).length) ++ " " ++
        ("+" ++ diffRange h.full newBefore (newSide h.body).length) ++ " " ++ "@@") ++ h.heading := by
    simp only [DiffHunk.header, String.append_assoc]
  rw [hassoc]
  refine getLast?_append_ne ?_ hheading
  simp [String.toList_append, hrange]

theorem renderHunks_chomp {hs : List DiffHunk} {oldBefore newBefore : ℕ}
    (hheading : ∀ h ∈ hs, h.heading.toList.getLast? ≠ some '\r') :
    (renderHunks oldBefore newBefore hs).map chomp =
      renderHunks oldBefore newBefore (hs.map DiffHunk.chomp) := by
  induction hs generalizing oldBefore newBefore with
  | nil => rfl
  | cons h hs ih =>
      obtain ⟨hone, hothers⟩ := List.forall_mem_cons.mp hheading
      have hbody : (h.body.map bodyLine).map chomp = (h.body.map chompLine).map bodyLine := by
        rw [List.map_map, List.map_map]
        exact List.map_congr_left fun c _ => chomp_bodyLine c
      have hheader : h.chomp.header = h.header := by
        funext o n
        rw [DiffHunk.header, DiffHunk.header, DiffHunk.chomp]
        dsimp only
        rw [oldSide_chomp, newSide_chomp, List.length_map, List.length_map]
      rw [List.map_cons, renderHunks, renderHunks, List.map_cons, List.map_append, hbody, ih hothers,
        chomp_of_ne (header_noReturn hone _ _), hheader, DiffHunk.chomp]
      dsimp only
      rw [oldSide_chomp, newSide_chomp, List.length_map, List.length_map, List.length_map]

theorem lines_chomp {d : UnifiedDiff} (h : d.Standard) : d.lines.map chomp = d.chomp.lines := by
  rw [UnifiedDiff.lines, UnifiedDiff.lines, List.map_cons, List.map_cons,
    chomp_of_ne (getLast?_append_ne (by decide) h.oldName.noReturn),
    chomp_of_ne (getLast?_append_ne (by decide) h.newName.noReturn), renderHunks_chomp h.headings]
  rfl

theorem oldLines_chomp (d : UnifiedDiff) : d.chomp.oldLines = d.oldLines.map chomp := by
  simp only [UnifiedDiff.oldLines, UnifiedDiff.chomp, DiffHunk.chomp, List.map_append,
    List.flatMap_map, List.map_flatMap, oldSide_chomp]

theorem newLines_chomp (d : UnifiedDiff) : d.chomp.newLines = d.newLines.map chomp := by
  simp only [UnifiedDiff.newLines, UnifiedDiff.chomp, DiffHunk.chomp, List.map_append,
    List.flatMap_map, List.map_flatMap, newSide_chomp]

theorem insertsFirst_chomp {hs : List DiffHunk} {before : ℕ} (h : InsertsFirst before hs) :
    InsertsFirst before (hs.map DiffHunk.chomp) := by
  induction hs generalizing before with
  | nil => trivial
  | cons hunk hs ih =>
      obtain ⟨hfirst, hothers⟩ := h
      refine ⟨fun hnone => ?_, ?_⟩
      · rw [DiffHunk.chomp] at hnone ⊢
        dsimp only at hnone ⊢
        rw [oldSide_chomp, List.map_eq_nil_iff] at hnone
        rw [List.length_map]
        exact hfirst hnone
      · rw [DiffHunk.chomp]
        dsimp only
        rw [oldSide_chomp, List.length_map, List.length_map]
        exact ih hothers

/-- The diff is read as if it had no carriage returns. -/
theorem UnifiedDiff.ReadsBack.chomp {d : UnifiedDiff} (h : d.ReadsBack) : d.chomp.ReadsBack where
  deleted hunk hhunk line hline := by
    obtain ⟨hunk, hmem, rfl⟩ := List.mem_map.mp hhunk
    obtain ⟨⟨tag, line⟩, hc, heq⟩ := List.mem_map.mp hline
    obtain ⟨rfl, rfl⟩ := Prod.mk.inj heq
    refine Bool.eq_false_iff.mpr fun hstart => ?_
    have hlong := startsWith_iff.mpr ((startsWith_iff.mp hstart).trans (chomp_beginning line))
    rw [h.deleted hunk hmem line hc] at hlong
    cases hlong
  inserts := insertsFirst_chomp h.inserts

/-! ### The application -/

theorem applyHunk_at {A old new B : List String} {start : ℕ} (hstart : start - 1 = A.length) :
    applyHunk (A ++ (old ++ B)) ⟨start, old, new⟩ = some (A ++ (new ++ B)) := by
  have hstop : min (A.length + old.length) (A ++ (old ++ B)).length = A.length + old.length := by
    rw [List.length_append, List.length_append]
    omega
  have hdrop : (A ++ (old ++ B)).drop (A.length + old.length) = B := by
    rw [← List.append_assoc, ← List.length_append]
    exact List.drop_left
  rw [applyHunk]
  dsimp only
  rw [hstart, hstop, if_pos (Nat.le_add_right _ _), hdrop, List.take_left]

/-- The hunks give the new lines, behind the lines that stand before them. -/
theorem applyHunks_diffHunks (before : List String) {hs : List DiffHunk} {after : List String}
    (hplace : InsertsFirst before.length hs) :
    applyHunks (before ++ (hs.flatMap (fun h => h.before ++ oldSide h.body) ++ after))
        (diffHunks before.length hs) =
      some (before ++ (hs.flatMap (fun h => h.before ++ newSide h.body) ++ after)) := by
  induction hs generalizing before with
  | nil => rfl
  | cons h hs ih =>
      obtain ⟨hfirst, hothers⟩ := hplace
      have hlength : (before ++ h.before ++ oldSide h.body).length =
          before.length + h.before.length + (oldSide h.body).length := by
        rw [List.length_append, List.length_append]
      -- the hunks behind this one are applied first, and leave the lines up to its end
      have hlater := ih (before ++ h.before ++ oldSide h.body) (hlength ▸ hothers)
      rw [hlength] at hlater
      have hstart : rangeStart (before.length + h.before.length) (oldSide h.body).length - 1 =
          (before ++ h.before).length := by
        rw [List.length_append, rangeStart]
        split
        · -- a hunk without old lines names the line before it, and there is none
          rename_i hnone
          have := hfirst (List.length_eq_zero_iff.mp hnone)
          omega
        · omega
      have hone := @applyHunk_at (before ++ h.before) (oldSide h.body) (newSide h.body)
        (hs.flatMap (fun h => h.before ++ newSide h.body) ++ after) _ hstart
      rw [applyHunks] at hlater ⊢
      rw [diffHunks, List.reverse_cons, List.foldlM_append]
      simp only [List.flatMap_cons, List.append_assoc] at hlater hone ⊢
      rw [hlater]
      simp only [Option.bind_eq_bind, Option.bind_some, List.foldlM_cons, List.foldlM_nil, hone]
      rfl

/-- What a patch of an existing file leaves. -/
theorem applyPatchWithDiff_filePatch (changes : String → String → List (ChangeTag × String))
    {oldName newName content : String} {hunks : List Hunk} {ls : List String}
    (hold : oldName ≠ "/dev/null") (hnew : newName ≠ "/dev/null")
    (happly : applyHunks (lines content) hunks = some ls) :
    ∃ answer, applyPatchWithDiff changes (filePatch oldName newName hunks) (.text content) =
      some (.ok answer, .text (join "\n" ls ++ "\n")) := by
  have hisNew : (filePatch oldName newName hunks).isNew = false := decide_eq_false hold
  have hisDelete : (filePatch oldName newName hunks).isDelete = false := decide_eq_false hnew
  have hhunks : (filePatch oldName newName hunks).hunks = hunks := rfl
  rw [applyPatchWithDiff, hisDelete, hisNew]
  dsimp only [Bool.false_eq_true, if_false]
  rw [hhunks, happly, Option.map_some]
  exact ⟨_, rfl⟩

theorem parsePatch_render {d : UnifiedDiff} (h : d.Standard) (hread : d.ReadsBack) :
    parsePatch d.render = [filePatch d.oldName d.newName (diffHunks 0 d.chomp.hunks)] := by
  have hlines : Rust.lines d.render = d.chomp.lines := by
    rw [UnifiedDiff.render, lines_text fun l hl => h.isLine l (List.mem_append_left _ hl)]
    exact lines_chomp h
  have hsize : d.chomp.oldLines.length < 2 ^ 64 := by
    rw [oldLines_chomp, List.length_map]
    exact h.size
  have hne : d.chomp.hunks ≠ [] := fun hnil => h.hunks (List.map_eq_nil_iff.mp hnil)
  rw [parsePatch, hlines]
  exact patchesFrom_lines h.oldName h.newName hne hsize hread.chomp.deleted

/-- What the patch leaves: the new lines, without their carriage returns, and at least one newline. -/
theorem applyPatch_leaves (changes : String → String → List (ChangeTag × String)) {d : UnifiedDiff}
    (h : d.Standard) (hread : d.ReadsBack) : ∃ answer,
    applyPatchWithDiff changes (filePatch d.oldName d.newName (diffHunks 0 d.chomp.hunks))
      (.text (text d.oldLines)) =
        some (.ok answer, .text (join "\n" (d.newLines.map chomp) ++ "\n")) := by
  have hlines : Rust.lines (text d.oldLines) = d.chomp.oldLines := by
    rw [lines_text fun l hl => h.isLine l (List.mem_append_right _ (List.mem_append_left _ hl)),
      oldLines_chomp]
    rfl
  refine applyPatchWithDiff_filePatch changes h.oldName.exists_file h.newName.exists_file ?_
  rw [hlines, ← newLines_chomp]
  exact applyHunks_diffHunks [] hread.chomp.inserts

theorem text_inj {ls ls' : List String} (h : ∀ l ∈ ls, IsLine l) (h' : ∀ l ∈ ls', IsLine l)
    (heq : text ls = text ls') : ls = ls' := by
  have hsplit := congrArg (split · '\n') heq
  rw [split_text h, split_text h'] at hsplit
  exact List.append_cancel_right hsplit

/-- **When a patch turns the old text into the new**: where the hunks are read back and stand where they
are put, exactly if some line is left, and none ends in a carriage return. -/
theorem patch_applies_iff {changes : String → String → List (ChangeTag × String)} {d : UnifiedDiff}
    (h : d.Standard) (hread : d.ReadsBack) : d.Applies changes ↔
      d.newLines ≠ [] ∧ ∀ l ∈ d.newLines, l.toList.getLast? ≠ some '\r' := by
  obtain ⟨answer, hanswer⟩ := applyPatch_leaves changes h hread
  constructor
  · rintro ⟨patch, answer', hparse, -, -, hgives⟩
    rw [parsePatch_render h hread] at hparse
    obtain rfl := List.singleton_injective hparse
    rw [hanswer] at hgives
    have hfile := StoredFile.text.inj (Prod.mk.inj (Option.some.inj hgives)).2
    have hne : d.newLines ≠ [] := by
      -- a file without lines is given a newline
      intro hnil
      rw [hnil] at hfile
      exact absurd hfile (by decide)
    refine ⟨hne, fun l hl => chomp_eq_self_iff.mp ?_⟩
    rw [join_append_newline (fun hnil => hne (List.map_eq_nil_iff.mp hnil))] at hfile
    have hisLine : ∀ l ∈ d.newLines, IsLine l := fun l hl =>
      h.isLine l (List.mem_append_right _ (List.mem_append_right _ hl))
    have hchomped : ∀ l ∈ d.newLines.map chomp, IsLine l := by
      intro l hl
      obtain ⟨l, hmem, rfl⟩ := List.mem_map.mp hl
      exact fun hnewline => hisLine l hmem ((chomp_beginning l).subset hnewline)
    have hsame : d.newLines.map chomp = d.newLines.map id :=
      (text_inj hchomped hisLine hfile).trans (List.map_id _).symm
    exact List.map_inj_left.mp hsame l hl
  · rintro ⟨hne, hreturn⟩
    have hsame : d.newLines.map chomp = d.newLines :=
      (List.map_congr_left fun l hl => chomp_of_ne (hreturn l hl)).trans (List.map_id _)
    rw [hsame, join_append_newline hne] at hanswer
    exact ⟨_, answer, parsePatch_render h hread, decide_eq_false h.oldName.exists_file,
      decide_eq_false h.newName.exists_file, hanswer⟩

def changedDiff : UnifiedDiff where
  oldName := "a/list.txt"
  newName := "b/list.txt"
  hunks := [{ before := [], body := [(.equal, "one"), (.delete, "two"), (.insert, "2")] }]
  after := ["three"]

theorem patch_applies_iff_changed : changedDiff.Applies fun _ _ => [] := by
  have hstandard : changedDiff.Standard :=
    { oldName := ⟨by decide, by decide, .inl rfl, by decide⟩
      newName := ⟨by decide, by decide, .inl rfl, by decide⟩
      hunks := List.cons_ne_nil _ _
      headings := by decide
      isLine := by decide +kernel
      size := by decide }
  have hdeleted : ∀ h ∈ changedDiff.hunks, ∀ line, (.delete, line) ∈ h.body →
      startsWith line "--" = false := by
    intro h hh line hline
    obtain rfl := List.mem_singleton.mp hh
    have htwo : line = "two" := by simpa using hline
    rw [htwo]
    decide
  exact (patch_applies_iff hstandard ⟨hdeleted, fun h => absurd h (by decide), trivial⟩).mpr
    ⟨by decide, by decide⟩

/-- A line is added behind another, with no lines around it. -/
def insertedDiff : UnifiedDiff where
  oldName := "a/list.txt"
  newName := "b/list.txt"
  hunks := [{ before := ["one"], body := [(.insert, "two")] }]
  after := []

/-- **The line is put before the one that its header names.** -/
theorem inserted_before_its_line :
    insertedDiff.Standard ∧ ∀ changes, ¬ insertedDiff.Applies changes := by
  have hstandard : insertedDiff.Standard :=
    { oldName := ⟨by decide, by decide, .inl rfl, by decide⟩
      newName := ⟨by decide, by decide, .inl rfl, by decide⟩
      hunks := List.cons_ne_nil _ _
      headings := by decide
      isLine := by decide +kernel
      size := by decide }
  refine ⟨hstandard, ?_⟩
  rintro changes ⟨patch, answer, hparse, -, -, hanswer⟩
  have hlines : Rust.lines insertedDiff.render = insertedDiff.lines := by decide +kernel
  have hdeleted : ∀ h ∈ insertedDiff.hunks, ∀ line, (.delete, line) ∈ h.body →
      startsWith line "--" = false := by
    intro h hh line hline
    obtain rfl := List.mem_singleton.mp hh
    cases List.mem_singleton.mp hline
  rw [parsePatch, hlines, patchesFrom_lines hstandard.oldName hstandard.newName hstandard.hunks
    hstandard.size hdeleted] at hparse
  obtain rfl := List.singleton_injective hparse
  have happly : applyHunks (Rust.lines (text insertedDiff.oldLines))
      (diffHunks 0 insertedDiff.hunks) = some ["two", "one"] := by decide +kernel
  obtain ⟨answer', hanswer'⟩ := applyPatchWithDiff_filePatch changes
    hstandard.oldName.exists_file hstandard.newName.exists_file happly
  rw [hanswer'] at hanswer
  have hfile := (Prod.mk.inj (Option.some.inj hanswer)).2
  exact absurd (StoredFile.text.inj hfile) (by decide +kernel)

end Jcode.Tool
