import Jcode.Support.Std

/-!
# Support — Text

Lines and prefixes of Rust's strings.

* `stripPrefix_append`: a prefix that was put before a text is stripped from it.
* `lines_text`: the lines of a text that was put together from lines.
* `endedText_endedLines`: a text is that of its lines and their ends.
-/

namespace Rust

/-- `str::starts_with`. -/
def startsWith (s pattern : String) : Bool := pattern.toList.isPrefixOf s.toList

/-- `str::ends_with`. -/
def endsWith (s pattern : String) : Bool := pattern.toList.isSuffixOf s.toList

/-- `str::trim_start`. -/
def trimStart (s : String) : String := String.ofList (s.toList.dropWhile isWhitespace)

/-- `str::strip_prefix`. -/
def stripPrefix (s pattern : String) : Option String :=
  if startsWith s pattern then some (String.ofList (s.toList.drop pattern.length)) else none

/-- `str::split` at a character. -/
def split (s : String) (c : Char) : List String := (s.toList.splitOn c).map String.ofList

/-- `str::trim_end_matches` of a character. -/
def trimEndMatches (s : String) (c : Char) : String := String.ofList (s.toList.rdropWhile (· == c))

/-- A carriage return before the end of a line belongs to the line's end. -/
def stripCr (line : List Char) : List Char :=
  if line.getLast? = some '\r' then line.dropLast else line

/-- The pieces between newlines, as lines: the last has no newline, and is left out when empty. -/
def linesOf : List (List Char) → List (List Char)
  | [] => []
  | [last] => if last = [] then [] else [last]
  | piece :: rest => stripCr piece :: linesOf rest

/-- `str::lines`. -/
def lines (s : String) : List String := (linesOf (s.toList.splitOn '\n')).map String.ofList

/-- The text of some lines, each with its newline. -/
def text (ls : List String) : String := String.ofList (ls.flatMap fun l => l.toList ++ ['\n'])

/-- There is no newline in it. -/
def IsLine (l : String) : Prop := '\n' ∉ l.toList

instance (l : String) : Decidable (IsLine l) := inferInstanceAs (Decidable (¬ '\n' ∈ l.toList))

/-! ### Prefixes -/

theorem startsWith_iff {s pattern : String} :
    startsWith s pattern = true ↔ pattern.toList <+: s.toList := List.isPrefixOf_iff_prefix

theorem startsWith_append (pattern s : String) : startsWith (pattern ++ s) pattern = true := by
  rw [startsWith_iff, String.toList_append]
  exact List.prefix_append _ _

theorem stripPrefix_append (pattern s : String) : stripPrefix (pattern ++ s) pattern = some s := by
  rw [stripPrefix, if_pos (startsWith_append pattern s), String.toList_append,
    ← String.length_toList, List.drop_left, String.ofList_toList]

theorem stripPrefix_eq_none {s pattern : String} (h : startsWith s pattern = false) :
    stripPrefix s pattern = none := if_neg (Bool.eq_false_iff.mp h)

/-- A text starts with what its trimmed form starts with. -/
theorem startsWith_of_trimEnd {s pattern : String} (h : startsWith (trimEnd s) pattern = true) :
    startsWith s pattern = true := by
  rw [startsWith_iff] at h ⊢
  rw [trimEnd, String.toList_ofList] at h
  exact h.trans (List.rdropWhile_prefix ..)

theorem startsWith_trimEnd_false {s pattern : String} (h : startsWith s pattern = false) :
    startsWith (trimEnd s) pattern = false :=
  Bool.eq_false_iff.mpr fun ht => Bool.eq_false_iff.mp h (startsWith_of_trimEnd ht)

/-- The blanks at the end of a text are those of its last part, unless that is blank. -/
theorem trimEnd_append (pattern s : String) :
    trimEnd (pattern ++ s) = if trimEnd s = "" then trimEnd pattern else pattern ++ trimEnd s := by
  have hblank : trimEnd s = "" ↔ (s.toList.reverse.dropWhile isWhitespace).isEmpty := by
    rw [trimEnd, String.ofList_eq_empty_iff, List.rdropWhile, List.reverse_eq_nil_iff,
      List.isEmpty_iff]
  rw [trimEnd, String.toList_append, List.rdropWhile, List.reverse_append, List.dropWhile_append]
  split
  · rename_i h
    rw [if_pos (hblank.mpr h)]
    rfl
  · rename_i h
    rw [if_neg (mt hblank.mp h), List.reverse_append, List.reverse_reverse, String.ofList_append,
      String.ofList_toList]
    rfl

/-! ### Blank texts -/

theorem trim_eq_empty_iff {s : String} : trim s = "" ↔ ∀ c ∈ s.toList, isWhitespace c = true := by
  rw [trim, String.ofList_eq_empty_iff, List.rdropWhile_eq_nil_iff, ← List.dropWhile_eq_nil_iff,
    List.dropWhile_idempotent, List.dropWhile_eq_nil_iff]

theorem trimEnd_eq_empty_iff {s : String} :
    trimEnd s = "" ↔ ∀ c ∈ s.toList, isWhitespace c = true := by
  rw [trimEnd, String.ofList_eq_empty_iff, List.rdropWhile_eq_nil_iff]

/-! ### Lines -/

theorem splitOn_text {ls : List String} (h : ∀ l ∈ ls, IsLine l) :
    (ls.flatMap fun l => l.toList ++ ['\n']).splitOn '\n' = ls.map String.toList ++ [[]] := by
  induction ls with
  | nil => rfl
  | cons l ls ih =>
      obtain ⟨hl, hls⟩ := List.forall_mem_cons.mp h
      have hl' : ∀ c ∈ l.toList, (c == '\n') = false :=
        fun c hc => by simpa using ne_of_mem_of_not_mem hc hl
      rw [List.flatMap_cons, List.append_assoc, List.singleton_append,
        List.splitOn_eq_splitOnP, List.splitOnP_append_cons_of_forall_mem hl' _ rfl,
        ← List.splitOn_eq_splitOnP, ih hls]
      rfl

theorem text_cons (l : String) (ls : List String) : text (l :: ls) = l ++ "\n" ++ text ls := by
  rw [text, text, List.flatMap_cons, String.ofList_append, String.ofList_append,
    String.ofList_toList]

theorem text_concat (ls : List String) (l : String) : text (ls ++ [l]) = text ls ++ l ++ "\n" := by
  rw [text, text, List.flatMap_append, List.flatMap_singleton, String.ofList_append,
    String.ofList_append, String.ofList_toList, String.append_assoc]

/-- Lines joined by newlines, and an empty one behind them. -/
theorem join_concat_empty (ls : List String) : join "\n" (ls ++ [""]) = text ls := by
  induction ls with
  | nil => rfl
  | cons l ls ih =>
      have hne : ls ++ [""] ≠ [] := List.append_ne_nil_of_right_ne_nil _ (List.cons_ne_nil _ _)
      rw [List.cons_append, join, String.intercalate_cons_of_ne_nil hne, text_cons, ← ih, join]

/-- The pieces of a text that was put together from lines. -/
theorem split_text {ls : List String} (h : ∀ l ∈ ls, IsLine l) :
    split (text ls) '\n' = ls ++ [""] := by
  rw [split, text, String.toList_ofList, splitOn_text h, List.map_append, List.map_map]
  refine congrArg₂ (· ++ ·) ?_ rfl
  exact (List.map_congr_left fun l _ => String.ofList_toList).trans (List.map_id _)

theorem linesOf_append_nil (pieces : List (List Char)) :
    linesOf (pieces ++ [[]]) = pieces.map stripCr := by
  induction pieces with
  | nil => rfl
  | cons piece pieces ih =>
      cases pieces with
      | nil => rfl
      | cons piece' pieces =>
          rw [List.cons_append, List.cons_append, linesOf, ← List.cons_append, ih]
          · rfl
          · exact fun h => by cases h

/-- **The lines of a text** that was put together from lines: a carriage return at the end of a line
is lost. -/
theorem lines_text {ls : List String} (h : ∀ l ∈ ls, IsLine l) :
    lines (text ls) = ls.map fun l => String.ofList (stripCr l.toList) := by
  rw [lines, text, String.toList_ofList, splitOn_text h, linesOf_append_nil, List.map_map,
    List.map_map]
  rfl

/-- The lines of a text, each with its end: a newline, a carriage return and a newline, or nothing
at the end of the text. -/
def endedLinesOf : List (List Char) → List (String × String)
  | [] => []
  | [last] => if last = [] then [] else [(String.ofList last, "")]
  | piece :: rest =>
      (String.ofList (stripCr piece), if piece.getLast? = some '\r' then "\r\n" else "\n") ::
        endedLinesOf rest

def endedLines (s : String) : List (String × String) := endedLinesOf (s.toList.splitOn '\n')

/-- The text of some lines with their ends. -/
def endedText (ls : List (String × String)) : String := String.join (ls.map fun l => l.1 ++ l.2)

theorem stripCr_eq_self {line : List Char} (h : line.getLast? ≠ some '\r') :
    stripCr line = line := if_neg h

/-! ### Lines with their ends -/

theorem lines_eq_map_fst (s : String) : lines s = (endedLines s).map Prod.fst := by
  rw [lines, endedLines]
  generalize s.toList.splitOn '\n' = pieces
  induction pieces with
  | nil => rfl
  | cons piece pieces ih =>
      cases pieces with
      | nil =>
          rw [linesOf, endedLinesOf]
          split <;> rfl
      | cons piece' pieces =>
          rw [linesOf, endedLinesOf, List.map_cons, List.map_cons, ih]
          · exact fun h => by cases h
          · exact fun h => by cases h

theorem mem_splitOn {α : Type*} [DecidableEq α] {c : α} {xs piece : List α}
    (h : piece ∈ xs.splitOn c) : c ∉ piece := by
  induction xs generalizing piece with
  | nil =>
      rw [List.splitOn_nil, List.mem_singleton] at h
      rw [h]
      exact List.not_mem_nil
  | cons x xs ih =>
      rw [List.splitOn_cons_eq_if_modifyHead] at h
      split at h
      · rcases List.mem_cons.mp h with rfl | h
        · exact List.not_mem_nil
        · exact ih h
      · rename_i hx
        obtain ⟨first, pieces, hsplit⟩ := List.exists_cons_of_ne_nil (List.splitOn_ne_nil c xs)
        rw [hsplit, List.modifyHead_cons] at h
        rw [hsplit] at ih
        rcases List.mem_cons.mp h with rfl | h
        · have hne : c ≠ x := fun hc => hx (beq_iff_eq.mpr hc.symm)
          exact List.not_mem_cons_of_ne_of_not_mem hne (ih List.mem_cons_self)
        · exact ih (List.mem_cons_of_mem _ h)

theorem endedLines_spec {s : String} {l : String × String} (h : l ∈ endedLines s) :
    IsLine l.1 ∧ (l.2 = "\n" ∨ l.2 = "\r\n" ∨ l.2 = "") := by
  rw [endedLines] at h
  have hpieces : ∀ piece ∈ s.toList.splitOn '\n', '\n' ∉ piece := fun _ => mem_splitOn
  generalize s.toList.splitOn '\n' = pieces at h hpieces
  induction pieces with
  | nil => cases h
  | cons piece pieces ih =>
      obtain ⟨hpiece, hpieces⟩ := List.forall_mem_cons.mp hpieces
      cases pieces with
      | nil =>
          rw [endedLinesOf] at h
          split at h
          · cases h
          · rw [List.mem_singleton.mp h]
            exact ⟨by rwa [IsLine, String.toList_ofList], .inr (.inr rfl)⟩
      | cons piece' pieces =>
          rw [endedLinesOf] at h
          · rcases List.mem_cons.mp h with rfl | h
            · refine ⟨?_, ?_⟩
              · rw [IsLine, String.toList_ofList, stripCr]
                split
                · exact fun hc => hpiece (List.mem_of_mem_dropLast hc)
                · exact hpiece
              · dsimp only
                split
                · exact .inr (.inl rfl)
                · exact .inl rfl
            · exact ih h hpieces
          · exact fun h => by cases h

theorem endedText_cons (l : String × String) (ls : List (String × String)) :
    endedText (l :: ls) = l.1 ++ (l.2 ++ endedText ls) := by
  rw [endedText, List.map_cons, String.join_cons, String.append_assoc, endedText]

/-- What the line's end takes of a piece is put back. -/
theorem stripCr_append (piece : List Char) :
    stripCr piece ++ (if piece.getLast? = some '\r' then "\r\n" else "\n").toList =
      piece ++ ['\n'] := by
  rw [stripCr]
  split
  · rename_i hcr
    obtain ⟨front, rfl⟩ := List.getLast?_eq_some_iff.mp hcr
    rw [List.dropLast_concat, List.append_assoc]
    rfl
  · rfl

/-- **A text is that of its lines** and their ends. -/
theorem endedText_endedLines (s : String) : endedText (endedLines s) = s := by
  have hpieces : ∀ pieces : List (List Char),
      (endedText (endedLinesOf pieces)).toList = ['\n'].intercalate pieces := by
    intro pieces
    induction pieces with
    | nil => rfl
    | cons piece pieces ih =>
        cases pieces with
        | nil =>
            rw [endedLinesOf, List.intercalate_singleton]
            split
            · rename_i hnil
              rw [hnil]
              rfl
            · rw [endedText_cons, String.toList_append, String.toList_ofList]
              exact List.append_nil _
        | cons piece' pieces =>
            rw [endedLinesOf, endedText_cons, String.toList_append, String.toList_append, ih,
              String.toList_ofList, ← List.append_assoc, stripCr_append,
              List.intercalate_cons_of_ne_nil (List.cons_ne_nil _ _)]
            exact fun h => by cases h
  rw [← String.toList_inj, endedLines, hpieces, List.intercalate_splitOn]

theorem count_newline_of_isLine {l : String} (h : IsLine l) : l.toList.count '\n' = 0 :=
  List.count_eq_zero.mpr h

theorem count_newline_text {ls : List String} (h : ∀ l ∈ ls, IsLine l) :
    (text ls).toList.count '\n' = ls.length := by
  induction ls with
  | nil => rfl
  | cons l ls ih =>
      obtain ⟨hl, hls⟩ := List.forall_mem_cons.mp h
      rw [text_cons, String.toList_append, String.toList_append, List.count_append,
        List.count_append, ih hls, count_newline_of_isLine hl, List.length_cons]
      exact Nat.add_comm _ _

theorem count_newline_endedText_le {ls : List (String × String)}
    (h : ∀ l ∈ ls, IsLine l.1 ∧ (l.2 = "\n" ∨ l.2 = "\r\n" ∨ l.2 = "")) :
    (endedText ls).toList.count '\n' ≤ ls.length := by
  induction ls with
  | nil => exact le_rfl
  | cons l ls ih =>
      obtain ⟨⟨hl, hend⟩, hls⟩ := List.forall_mem_cons.mp h
      have hone : l.2.toList.count '\n' ≤ 1 := by
        rcases hend with h | h | h <;> rw [h] <;> decide
      have hrest := ih hls
      rw [endedText_cons, String.toList_append, String.toList_append, List.count_append,
        List.count_append, count_newline_of_isLine hl, List.length_cons]
      omega

/-- Lines with their ends make up the text of these lines where every end is a newline, and not
elsewhere. -/
theorem endedText_eq_text_iff {ls : List (String × String)}
    (h : ∀ l ∈ ls, IsLine l.1 ∧ (l.2 = "\n" ∨ l.2 = "\r\n" ∨ l.2 = "")) :
    endedText ls = text (ls.map Prod.fst) ↔ ∀ l ∈ ls, l.2 = "\n" := by
  induction ls with
  | nil => exact ⟨fun _ => List.forall_mem_nil _, fun _ => rfl⟩
  | cons l ls ih =>
      obtain ⟨⟨hl, hend⟩, hls⟩ := List.forall_mem_cons.mp h
      rw [endedText_cons, List.map_cons, text_cons, String.append_assoc, String.append_right_inj,
        List.forall_mem_cons, ← ih hls]
      rcases hend with hend | hend | hend
      · rw [hend, String.append_right_inj]
        exact (and_iff_right rfl).symm
      · -- a carriage return is no newline
        rw [hend]
        refine iff_of_false (fun heq => ?_) fun hand => absurd hand.1 (by decide)
        have hhead := congrArg (fun s => s.toList.head?) heq
        simp only [String.toList_append] at hhead
        have hcr : '\r' = '\n' := Option.some.inj hhead
        exact absurd hcr (by decide)
      · -- there are too few newlines in what follows
        rw [hend, String.empty_append]
        refine iff_of_false (fun heq => ?_) fun hand => absurd hand.1 (by decide)
        have hfst : ∀ l ∈ ls.map Prod.fst, IsLine l :=
          List.forall_mem_map.mpr fun l hl => (hls l hl).1
        have hcount := count_newline_endedText_le hls
        rw [heq, String.toList_append, List.count_append, count_newline_text hfst,
          List.length_map] at hcount
        exact absurd hcount (by simp)

theorem length_linesOf_splitOn (cs : List Char) :
    (linesOf (cs.splitOn '\n')).length =
      cs.count '\n' + if cs.getLast?.all (· = '\n') then 0 else 1 := by
  induction cs with
  | nil => simp [linesOf]
  | cons c cs ih =>
      obtain ⟨piece, rest, hpieces⟩ := List.exists_cons_of_ne_nil (List.splitOn_ne_nil '\n' cs)
      by_cases hc : c = '\n'
      · have hsplit : (c :: cs).splitOn '\n' = [] :: cs.splitOn '\n' := by
          rw [List.splitOn_cons_eq_if_modifyHead]
          simp [hc]
        have hlast : (c :: cs).getLast?.all (· = '\n') = cs.getLast?.all (· = '\n') := by
          cases cs with
          | nil => simp [hc]
          | cons c' cs => rw [List.getLast?_cons_cons]
        rw [hsplit, hlast, hc, List.count_cons_self, hpieces, linesOf, List.length_cons, ← hpieces, ih]
        · omega
        · exact fun h => nomatch h
      · have hsplit : (c :: cs).splitOn '\n' = (c :: piece) :: rest := by
          rw [List.splitOn_cons_eq_if_modifyHead, hpieces]
          simp [hc]
        rw [hsplit, List.count_cons_of_ne (fun h => hc h)]
        cases cs with
        | nil =>
            obtain ⟨rfl, rfl⟩ : piece = [] ∧ rest = [] := by simpa using hpieces.symm
            simp [linesOf, hc]
        | cons c' cs =>
            rw [List.getLast?_cons_cons, ← ih, hpieces]
            cases rest with
            | nil =>
                have hne : piece ≠ [] := by
                  rintro rfl
                  have hcs := @List.intercalate_splitOn _ (c' :: cs) _ _ '\n'
                  rw [hpieces] at hcs
                  simp at hcs
                rw [linesOf, linesOf, if_neg hne, if_neg (List.cons_ne_nil _ _)]
                rfl
            | cons piece' rest => simp [linesOf]

/-- How many lines a text has: its newlines, and the last line where it has none. -/
theorem length_lines (s : String) :
    (lines s).length = s.toList.count '\n' + if s.toList.getLast?.all (· = '\n') then 0 else 1 := by
  rw [lines, List.length_map]
  exact length_linesOf_splitOn s.toList

/-- Lines joined by newlines, with one behind them. -/
theorem join_append_newline {ls : List String} (h : ls ≠ []) : join "\n" ls ++ "\n" = text ls := by
  rw [← join_concat_empty, join, join,
    String.intercalate_append_of_ne_nil h (List.cons_ne_nil _ _), String.intercalate_singleton,
    String.append_empty]

end Rust
