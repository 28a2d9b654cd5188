import Jcode.Support.Positions
import Jcode.SessionSearch.Profile

/-!
# SessionSearch — the snippet of a match

`score_session_search_text_match` and `extract_session_search_snippet` of `jcode-session-types`.  The
text is searched in lower case, and the position of the match there, in bytes, is where the snippet
is cut out of the text itself.  A slice that does not begin and end at characters is a panic.

* `extract_framed`, `extract_panics`: the extraction returns when the last whitespace before the
  window is one byte, and panics when it is more.
* `matchedAt_of_anchor`: the snippet is cut out where something is matched.
* `snippet_shows_match`: a match returns a snippet that is framed and shows what is matched.
-/

namespace Jcode.SessionSearch
open Rust Occur Positions

/-- A slice out of range, or not at a boundary. -/
inductive Panic where
  | slice
  deriving DecidableEq, Repr

/-- `str::len`, of the characters. -/
abbrev len (s : List Char) : ℕ := weight Char.utf8Size s

/-- `str::find` of a text, in bytes. -/
def findStr (s pattern : String) : Option ℕ :=
  (findAt pattern.toList s.toList).map fun k => len (s.toList.take k)

def floorCharBoundary (s : String) (i : ℕ) : ℕ := floorBoundary Char.utf8Size s.toList i

def ceilCharBoundary (s : String) (i : ℕ) : ℕ := ceilBoundary Char.utf8Size s.toList i

/-- `focus_len`. -/
def focusLen (query : SessionSearchQueryProfile) : ℕ :=
  if query.normalized ≠ "" then len query.normalized.toList
  else (query.terms.head?.map fun term => len term.toList).getD 0

def extractSessionSearchSnippet (text : String) (anchor : Option ℕ)
    (query : SessionSearchQueryProfile) (maxLen : ℕ) : Except Panic String :=
  let chars := text.toList
  match anchor with
  | some pos => do
      let start := pos - maxLen / 2
      let stop := min (pos + focusLen query + maxLen / 2) (len chars)
      let start := floorCharBoundary text start
      let stop := ceilCharBoundary text stop
      let before ← okOr ((splitAt Char.utf8Size start chars).map Prod.fst) .slice
      let start := ((rfind Char.utf8Size isWhitespace before).map (· + 1)).getD start
      let after ← okOr ((splitAt Char.utf8Size stop chars).map Prod.snd) .slice
      let stop := ((find Char.utf8Size isWhitespace after).map (stop + ·)).getD stop
      let piece ← okOr (slice Char.utf8Size chars start stop) .slice
      let snippet := String.ofList piece
      let snippet := if 0 < start then "..." ++ snippet else snippet
      let snippet := if stop < len chars then snippet ++ "..." else snippet
      .ok snippet
  | none => .ok (String.ofList (chars.take maxLen))

structure SessionSearchMatchScore where
  snippet : String
  score : ℚ
  matchedTerms : List String
  exactMatch : Bool
  deriving DecidableEq

/-- What the loop over the terms collects. -/
structure TermScan where
  matchedTerms : List String
  totalTermHits : ℕ
  firstTermPos : Option ℕ

/-- The loop over the terms, for one of them. -/
def scanTerm (textLower : String) (scan : TermScan) (term : String) : TermScan :=
  match findStr textLower term with
  | some pos =>
      { matchedTerms := scan.matchedTerms ++ [term]
        totalTermHits := scan.totalTermHits + (indices term.toList textLower.toList).length
        firstTermPos := some (scan.firstTermPos.elim pos fun current => min current pos) }
  | none => scan

def scanTerms (textLower : String) (query : SessionSearchQueryProfile) : TermScan :=
  query.terms.foldl (scanTerm textLower) ⟨[], 0, none⟩

def exactPos (textLower : String) (query : SessionSearchQueryProfile) : Option ℕ :=
  if query.normalized ≠ "" then findStr textLower query.normalized else none

/-- Where the snippet is cut out. -/
def anchor (textLower : String) (query : SessionSearchQueryProfile) : Option ℕ :=
  (exactPos textLower query).or (scanTerms textLower query).firstTermPos

/-- `score_session_search_text_match`. -/
def scoreSessionSearchTextMatch (u : Unicode) (text : String) (query : SessionSearchQueryProfile) :
    Except Panic (Option SessionSearchMatchScore) :=
  if query.isActionable then
    let textLower := u.toLowercase text
    let exact := exactPos textLower query
    let scan := scanTerms textLower query
    if exact.isNone && scan.matchedTerms.length < query.minTermMatches then .ok none
    else do
      let snippet ← extractSessionSearchSnippet text (anchor textLower query) query 280
      let coverage : ℚ := scan.matchedTerms.length / query.terms.length
      let score : ℚ := (if exact.isSome then 4 else 0) + coverage * 3
        + scan.matchedTerms.length * (1 / 4)
        + scan.totalTermHits / (len text.toList + 1) * 200
      .ok (some ⟨snippet, score, scan.matchedTerms, exact.isSome⟩)
  else .ok none

/-! ### Where the snippet lies -/

/-- The characters that lie before a position. -/
def charsBefore (text : String) (i : ℕ) : List Char :=
  text.toList.take (within Char.utf8Size i text.toList)

/-- The last whitespace before a position. -/
def lastSpace (text : String) (i : ℕ) : Option Char :=
  ((charsBefore text i).filter isWhitespace).getLast?

/-- A piece of the text with the marks of what is left out. -/
def withEllipses (before piece after : List Char) : String :=
  (if before = [] then "" else "...") ++ String.ofList piece ++ (if after = [] then "" else "...")

/-- **How a snippet lies in its text**: it starts at the start or behind whitespace, or where the
window starts when there is no whitespace before that; and it ends at the end or before whitespace,
or where the window ends when no whitespace follows. -/
structure Framed (text : String) (start stop : ℕ) (before piece after : List Char) : Prop where
  text_eq : text.toList = before ++ (piece ++ after)
  starts : before = [] ∨ (∃ c, before.getLast? = some c ∧ isWhitespace c = true) ∨
    (∀ c ∈ before, isWhitespace c = false) ∧ len before = floorCharBoundary text start
  ends : after = [] ∨ (∃ c, after.head? = some c ∧ isWhitespace c = true) ∨
    (∀ c ∈ after, isWhitespace c = false) ∧ len (before ++ piece) = ceilCharBoundary text stop

theorem len_pos (c : Char) : 0 < c.utf8Size := c.utf8Size_pos

theorem len_append (a b : List Char) : len (a ++ b) = len a + len b := weight_append a b

theorem len_eq_zero_iff {cs : List Char} : len cs = 0 ↔ cs = [] := weight_eq_zero_iff len_pos

/-- The start of the snippet, when the last whitespace before the window is one byte. -/
theorem start_spec {a : List Char}
    (hspace : ∀ c, (a.filter isWhitespace).getLast? = some c → c.utf8Size = 1) :
    ∃ before rest, a = before ++ rest ∧
      ((rfind Char.utf8Size isWhitespace a).map (· + 1)).getD (len a) = len before ∧
      ((∃ c, before.getLast? = some c ∧ isWhitespace c = true) ∨
        (∀ c ∈ before, isWhitespace c = false) ∧ rest = []) := by
  cases hfind : rfind Char.utf8Size isWhitespace a with
  | none => exact ⟨a, [], by simp, rfl, .inr ⟨rfind_eq_none_iff.mp hfind, rfl⟩⟩
  | some i =>
      obtain ⟨before, c, rest, rfl, rfl, hc, hrest⟩ := rfind_eq_some hfind
      have hone : len [c] = 1 := hspace c (getLast?_filter rfl hc hrest)
      refine ⟨before ++ [c], rest, by simp, ?_, .inl ⟨c, by simp, hc⟩⟩
      rw [Option.map_some, Option.getD_some, len_append, hone]

/-- The end of the snippet. -/
theorem stop_spec {d : List Char} (stop : ℕ) :
    ∃ rest after, d = rest ++ after ∧
      ((find Char.utf8Size isWhitespace d).map (stop + ·)).getD stop = stop + len rest ∧
      ((∃ c, after.head? = some c ∧ isWhitespace c = true) ∨
        (∀ c ∈ after, isWhitespace c = false) ∧ rest = []) := by
  cases hfind : find Char.utf8Size isWhitespace d with
  | none => exact ⟨[], d, rfl, rfl, .inr ⟨find_eq_none_iff.mp hfind, rfl⟩⟩
  | some i =>
      obtain ⟨rest, c, after, rfl, rfl, hc, -⟩ := find_eq_some hfind
      exact ⟨rest, c :: after, rfl, rfl, .inl ⟨c, rfl, hc⟩⟩

/-- The marks stand where something is left out. -/
theorem ellipses_eq {text : String} {before piece after : List Char} {stop : ℕ}
    (h : text.toList = before ++ (piece ++ after)) (hstop : stop = len before + len piece) :
    (if stop < len text.toList then
        (if 0 < len before then "..." ++ String.ofList piece else String.ofList piece) ++ "..."
      else if 0 < len before then "..." ++ String.ofList piece else String.ofList piece) =
      withEllipses before piece after := by
  have hafter : stop < len text.toList ↔ after ≠ [] := by
    rw [hstop, h, len_append, len_append, ← Nat.add_assoc, Nat.lt_add_right_iff_pos,
      Nat.pos_iff_ne_zero]
    exact not_congr len_eq_zero_iff
  have hbefore : 0 < len before ↔ before ≠ [] := by
    rw [Nat.pos_iff_ne_zero]
    exact not_congr len_eq_zero_iff
  simp only [hafter, hbefore, withEllipses]
  by_cases hb : before = []
  · by_cases ha : after = [] <;> simp [hb, ha]
  · by_cases ha : after = [] <;> simp [hb, ha]

section
variable (text : String) (pos : ℕ) (query : SessionSearchQueryProfile) (maxLen : ℕ)

/-- Where the window ends that the snippet is to show. -/
def windowStop : ℕ := min (pos + focusLen query + maxLen / 2) (len text.toList)

/-- **The window**: what lies before it, in it and behind it. -/
theorem window_spec :
    ∃ m d, text.toList = charsBefore text (pos - maxLen / 2) ++ (m ++ d) ∧
      len (charsBefore text (pos - maxLen / 2)) = floorCharBoundary text (pos - maxLen / 2) ∧
      len (charsBefore text (pos - maxLen / 2) ++ m) =
        ceilCharBoundary text (windowStop text pos query maxLen) ∧
      len (charsBefore text (pos - maxLen / 2)) ≤ pos - maxLen / 2 ∧
      windowStop text pos query maxLen ≤ len (charsBefore text (pos - maxLen / 2) ++ m) := by
  have hfloor : floorCharBoundary text (pos - maxLen / 2) =
      len (charsBefore text (pos - maxLen / 2)) := floorBoundary_eq len_pos
  have hfits : len (charsBefore text (pos - maxLen / 2)) ≤ pos - maxLen / 2 :=
    weight_take_within _ _
  obtain ⟨b, hb⟩ : ∃ b, text.toList = charsBefore text (pos - maxLen / 2) ++ b :=
    ⟨_, (List.take_append_drop _ _).symm⟩
  generalize charsBefore text (pos - maxLen / 2) = a at hfloor hfits hb ⊢
  obtain ⟨hbound, hceil⟩ := ceilBoundary_spec len_pos (l := text.toList)
    (i := windowStop text pos query maxLen)
  have hstop : windowStop text pos query maxLen ≤ len text.toList := min_le_right _ _
  rw [min_eq_left hstop] at hceil
  obtain ⟨c, d, hcd, hc⟩ := (isBoundary_iff len_pos).mp hbound
  have hlen : len a ≤ len text.toList := by
    rw [hb, len_append]
    exact Nat.le_add_right _ _
  have hle : len a ≤ len c := by
    refine le_trans ?_ (hceil.trans_eq hc.symm)
    exact le_min (hfits.trans (by omega)) hlen
  obtain ⟨m, rfl, -⟩ := prefix_of_weight_le len_pos hb hcd hle
  refine ⟨m, d, by rw [hcd, List.append_assoc], hfloor.symm, hc, hfits, hceil.trans_eq hc.symm⟩

/-- **The extraction**: it returns, and the snippet is framed and shows what lies in the window. -/
theorem extract_framed
    (hspace : ∀ c, lastSpace text (pos - maxLen / 2) = some c → c.utf8Size = 1) :
    ∃ before piece after,
      extractSessionSearchSnippet text (some pos) query maxLen =
        .ok (withEllipses before piece after) ∧
      Framed text (pos - maxLen / 2) (windowStop text pos query maxLen) before piece after ∧
      ∀ pre shown post, text.toList = pre ++ (shown ++ post) → len pre = pos →
        len shown ≤ focusLen query + maxLen / 2 → shown <:+: piece := by
  obtain ⟨m, d, htext, hfloor, hceil, hfits, hstop⟩ := window_spec text pos query maxLen
  rw [lastSpace] at hspace
  generalize charsBefore text (pos - maxLen / 2) = a at htext hfloor hceil hfits hstop hspace
  obtain ⟨before, rest, rfl, hstart, hstarts⟩ := start_spec hspace
  obtain ⟨more, after, rfl, hend, hends⟩ := stop_spec (d := d) (len (before ++ rest ++ m))
  have hpiece : text.toList = before ++ ((rest ++ m ++ more) ++ after) := by
    rw [htext]
    simp only [List.append_assoc]
  refine ⟨before, rest ++ m ++ more, after, ?_, ⟨hpiece, ?_, ?_⟩, ?_⟩
  · have hwindow : min (pos + focusLen query + maxLen / 2) (len text.toList) =
        windowStop text pos query maxLen := rfl
    have hslice : slice Char.utf8Size text.toList (len before)
        (len (before ++ rest ++ m) + len more) = some (rest ++ m ++ more) := by
      have hlen : len (before ++ rest ++ m) + len more = len before + len (rest ++ m ++ more) := by
        simp only [len_append]
        omega
      rw [hpiece, hlen]
      exact slice_weight len_pos before _ after
    have hsplit : splitAt Char.utf8Size (len (before ++ rest)) text.toList =
        some (before ++ rest, m ++ (more ++ after)) := by
      rw [htext]
      exact splitAt_weight len_pos _ _
    have hsplit' : splitAt Char.utf8Size (len (before ++ rest ++ m)) text.toList =
        some (before ++ rest ++ m, more ++ after) := by
      rw [htext, ← List.append_assoc]
      exact splitAt_weight len_pos _ _
    rw [extractSessionSearchSnippet]
    dsimp only
    rw [hwindow, ← hfloor, ← hceil, hsplit, hsplit']
    simp only [Option.map_some, okOr, bind, Except.bind]
    rw [hstart, hend, hslice]
    exact congrArg Except.ok (ellipses_eq hpiece (by simp only [len_append]; omega))
  · rcases hstarts with hspace | ⟨hnone, rfl⟩
    · exact .inr (.inl hspace)
    · rw [List.append_nil] at hfloor
      exact .inr (.inr ⟨hnone, hfloor⟩)
  · rcases hends with hspace | ⟨hnone, rfl⟩
    · exact .inr (.inl hspace)
    · refine .inr (.inr ⟨hnone, ?_⟩)
      rw [List.append_nil, ← List.append_assoc]
      exact hceil
  · rintro pre shown post hshown rfl hsmall
    have hbefore : len before ≤ len pre := by
      rw [len_append] at hfits
      omega
    obtain ⟨x, rfl, -⟩ := prefix_of_weight_le len_pos hpiece hshown hbefore
    have hshown' : text.toList = (before ++ x ++ shown) ++ post := by
      rw [hshown]
      simp only [List.append_assoc]
    have hinside : len (before ++ x ++ shown) ≤ windowStop text (len (before ++ x)) query maxLen := by
      refine le_min ?_ ?_
      · rw [len_append (before ++ x) shown, Nat.add_assoc]
        exact Nat.add_le_add_left hsmall _
      · rw [hshown', len_append _ post]
        exact Nat.le_add_right _ _
    have htext' : text.toList = (before ++ rest ++ m) ++ (more ++ after) := by
      rw [htext]
      simp only [List.append_assoc]
    obtain ⟨y, hy, -⟩ := prefix_of_weight_le len_pos hshown' htext' (hinside.trans hstop)
    have hrest : rest ++ m = x ++ (shown ++ y) := by
      simpa only [List.append_assoc, List.append_cancel_left_eq] using hy
    refine ⟨x, y ++ more, ?_⟩
    rw [hrest]
    simp only [List.append_assoc]

/-- The extraction panics when the last whitespace before the window is more than one byte: it would
start behind the first of them. -/
theorem extract_panics {c : Char} (hspace : lastSpace text (pos - maxLen / 2) = some c)
    (hlong : 1 < c.utf8Size) :
    extractSessionSearchSnippet text (some pos) query maxLen = .error .slice := by
  obtain ⟨m, d, htext, hfloor, hceil, -, -⟩ := window_spec text pos query maxLen
  rw [lastSpace] at hspace
  generalize charsBefore text (pos - maxLen / 2) = a at htext hfloor hceil hspace
  have hsome : rfind Char.utf8Size isWhitespace a ≠ none := by
    intro hnone
    have hnil : a.filter isWhitespace = [] :=
      List.filter_eq_nil_iff.mpr fun c hc => Bool.eq_false_iff.mp (rfind_eq_none_iff.mp hnone c hc)
    rw [hnil] at hspace
    cases hspace
  obtain ⟨i, hfind⟩ := Option.ne_none_iff_exists'.mp hsome
  obtain ⟨before, c', rest, ha, hi, hc', hrest⟩ := rfind_eq_some hfind
  obtain rfl : c' = c := Option.some.inj ((getLast?_filter ha hc' hrest).symm.trans hspace)
  have hinside : text.toList = before ++ c' :: (rest ++ (m ++ d)) := by
    rw [htext, ha, List.append_assoc, List.cons_append]
  have hbound := not_boundary len_pos hinside Nat.one_pos hlong
  have hsplit : splitAt Char.utf8Size (len a) text.toList = some (a, m ++ d) := by
    rw [htext]
    exact splitAt_weight len_pos _ _
  have hsplit' : splitAt Char.utf8Size (len (a ++ m)) text.toList = some (a ++ m, d) := by
    rw [htext, ← List.append_assoc]
    exact splitAt_weight len_pos _ _
  have hwindow : min (pos + focusLen query + maxLen / 2) (len text.toList) =
      windowStop text pos query maxLen := rfl
  rw [extractSessionSearchSnippet]
  dsimp only
  rw [hwindow, ← hfloor, ← hceil, hsplit, hsplit']
  simp only [Option.map_some, okOr, bind, Except.bind]
  rw [hfind, Option.map_some, Option.getD_some, ← hi, slice_eq_none hbound]

end

/-! ### What is matched -/

/-- The phrase that is found at this position of the text in lower case, or the term that is found
first. -/
def MatchedAt (textLower : String) (query : SessionSearchQueryProfile) (pattern : String)
    (pos : ℕ) : Prop :=
  findStr textLower pattern = some pos ∧
    (pattern = query.normalized ∨ exactPos textLower query = none ∧ pattern ∈ query.terms ∧
      ∀ term ∈ query.terms, ∀ pos', findStr textLower term = some pos' → pos ≤ pos')

/-- **The matched text**: it begins where the pattern is found, for what stands before it is as long
as its lower case, and its own lower case begins with the pattern. -/
structure ShownAt (u : Unicode) (text pattern : String) (pos : ℕ) (pre shown post : List Char) :
    Prop where
  text_eq : text.toList = pre ++ (shown ++ post)
  position : len pre = pos
  unchanged : len (u.lowercase [] pre (shown ++ post)) = pos
  lower : pattern.toList <+: u.lowercase pre shown post

theorem scanTerms_matchedTerms (textLower : String) (query : SessionSearchQueryProfile) :
    (scanTerms textLower query).matchedTerms =
      query.terms.filter fun term => (findStr textLower term).isSome := by
  rw [scanTerms]
  induction query.terms using List.reverseRecOn with
  | nil => rfl
  | append_singleton terms term ih =>
      rw [List.foldl_append, List.foldl_cons, List.foldl_nil, scanTerm, List.filter_append, ← ih]
      cases hfind : findStr textLower term with
      | some pos => simp [hfind]
      | none => simp [hfind]

theorem min?_concat (xs : List ℕ) (x : ℕ) :
    (xs ++ [x]).min? = some (xs.min?.elim x fun current => min current x) := by
  cases xs with
  | nil => rfl
  | cons y ys =>
      rw [List.cons_append, List.min?_cons', List.min?_cons', List.foldl_append]
      rfl

theorem scanTerms_firstTermPos (textLower : String) (query : SessionSearchQueryProfile) :
    (scanTerms textLower query).firstTermPos =
      (query.terms.filterMap (findStr textLower)).min? := by
  rw [scanTerms]
  induction query.terms using List.reverseRecOn with
  | nil => rfl
  | append_singleton terms term ih =>
      rw [List.foldl_append, List.foldl_cons, List.foldl_nil, scanTerm, List.filterMap_append]
      cases hfind : findStr textLower term with
      | some pos =>
          rw [List.filterMap_cons_some hfind, List.filterMap_nil, min?_concat, ← ih]
      | none => simp [hfind, ih]

/-- The snippet is cut out where something is matched. -/
theorem matchedAt_of_anchor {textLower : String} {query : SessionSearchQueryProfile} {pos : ℕ}
    (h : anchor textLower query = some pos) :
    ∃ pattern, MatchedAt textLower query pattern pos := by
  rw [anchor] at h
  cases hexact : exactPos textLower query with
  | some pos' =>
      rw [hexact, Option.some_or] at h
      obtain rfl := Option.some.inj h
      have hfind := hexact
      rw [exactPos] at hfind
      split at hfind
      · exact ⟨query.normalized, hfind, .inl rfl⟩
      · cases hfind
  | none =>
      rw [hexact, Option.none_or, scanTerms_firstTermPos, List.min?_eq_some_iff] at h
      obtain ⟨hmem, hmin⟩ := h
      obtain ⟨term, hterm, hfind⟩ := List.mem_filterMap.mp hmem
      refine ⟨term, hfind, .inr ⟨hexact, hterm, fun term' hterm' pos' hfind' => ?_⟩⟩
      exact hmin pos' (List.mem_filterMap.mpr ⟨term', hterm', hfind'⟩)

/-- A pattern is found in the text where its lower case is as long. -/
theorem shownAt_rest (u : Unicode) {text pattern : String} {pos : ℕ} {pre rest : List Char}
    (hfind : findStr (u.toLowercase text) pattern = some pos) (htext : text.toList = pre ++ rest)
    (hpre : len pre = pos) (hlower : len (u.lowercase [] pre rest) = pos) :
    ShownAt u text pattern pos pre rest [] := by
  refine ⟨by rw [htext, List.append_nil], hpre, by rw [List.append_nil]; exact hlower, ?_⟩
  obtain ⟨k, hk, hpos⟩ := Option.map_eq_some_iff.mp hfind
  have hsplit : (u.toLowercase text).toList = u.lowercase [] pre rest ++ u.lowercase pre rest [] := by
    rw [Unicode.toLowercase, String.toList_ofList, htext, Unicode.lowercase_append, List.append_nil]
    rfl
  obtain ⟨-, hprefix, -⟩ := findAt_eq_some_iff.mp hk
  have htake := (List.take_append_drop k (u.toLowercase text).toList).symm
  obtain ⟨x, hx, hrest⟩ := prefix_of_weight_le len_pos hsplit htake (hlower.trans hpos.symm).le
  have hempty : x = [] := by
    have hlen := congrArg len hx
    rw [len_append, hlower] at hlen
    exact len_eq_zero_iff.mp (by omega)
  rw [hempty, List.nil_append] at hrest
  rw [hrest]
  exact hprefix

/-- When a text is a match. -/
def Matches (textLower : String) (query : SessionSearchQueryProfile) : Prop :=
  query.isActionable = true ∧ ((exactPos textLower query).isSome = true ∨
    query.minTermMatches ≤ (scanTerms textLower query).matchedTerms.length)

section
variable {u : Unicode} {text : String} {query : SessionSearchQueryProfile}

instance {textLower : String} : Decidable (Matches textLower query) :=
  inferInstanceAs (Decidable (_ ∧ _))

theorem score_of_not_matches (h : ¬ Matches (u.toLowercase text) query) :
    scoreSessionSearchTextMatch u text query = .ok none := by
  rw [scoreSessionSearchTextMatch]
  split
  · next hact =>
      dsimp only
      rw [if_pos]
      simp only [Matches, hact, true_and, not_or, not_le] at h
      rw [Bool.and_eq_true, Option.isNone_iff_eq_none, decide_eq_true_iff]
      exact ⟨Option.not_isSome_iff_eq_none.mp h.1, h.2⟩
  · rfl

/-- A match returns what the extraction returns. -/
theorem score_of_matches (h : Matches (u.toLowercase text) query) :
    ∃ score exact, scoreSessionSearchTextMatch u text query =
      (extractSessionSearchSnippet text (anchor (u.toLowercase text) query) query 280).map
        fun snippet => some
          ⟨snippet, score, (scanTerms (u.toLowercase text) query).matchedTerms, exact⟩ := by
  obtain ⟨hact, hsome⟩ := h
  have hcond : ((exactPos (u.toLowercase text) query).isNone &&
      decide ((scanTerms (u.toLowercase text) query).matchedTerms.length < query.minTermMatches)) =
        false := by
    rw [Bool.and_eq_false_iff, decide_eq_false_iff_not, not_lt, Option.isNone_eq_false_iff]
    exact hsome
  rw [scoreSessionSearchTextMatch, if_pos hact]
  dsimp only
  rw [hcond, if_neg Bool.false_ne_true]
  generalize extractSessionSearchSnippet text _ query 280 = result
  exact ⟨_, _, by cases result <;> rfl⟩

/-- A match is cut out somewhere, when one term at least is asked for. -/
theorem anchor_of_matches (h : Matches (u.toLowercase text) query)
    (hmin : query.terms ≠ [] → 0 < query.minTermMatches) :
    ∃ pos, anchor (u.toLowercase text) query = some pos := by
  obtain ⟨hact, hexact | hterms⟩ := h
  · obtain ⟨pos, hpos⟩ := Option.isSome_iff_exists.mp hexact
    exact ⟨pos, by rw [anchor, hpos]; rfl⟩
  · -- one of the terms is in the text, so that one is found first
    rw [SessionSearchQueryProfile.isActionable, Bool.and_eq_true, decide_eq_true_iff,
      decide_eq_true_iff] at hact
    rw [scanTerms_matchedTerms] at hterms
    obtain ⟨term, hterm⟩ := List.exists_mem_of_length_pos ((hmin hact.2).trans_le hterms)
    obtain ⟨hmem, hsome⟩ := List.mem_filter.mp hterm
    obtain ⟨p, hp⟩ := Option.isSome_iff_exists.mp hsome
    have hfirst : (scanTerms (u.toLowercase text) query).firstTermPos ≠ none := by
      rw [scanTerms_firstTermPos, Ne, List.min?_eq_none_iff]
      exact List.ne_nil_of_mem (List.mem_filterMap.mpr ⟨term, hmem, hp⟩)
    obtain ⟨first, hfirst⟩ := Option.ne_none_iff_exists'.mp hfirst
    rw [anchor, hfirst]
    cases exactPos (u.toLowercase text) query with
    | some exact => exact ⟨exact, rfl⟩
    | none => exact ⟨first, rfl⟩

end

/-- What the search returns of a match: a snippet that is framed, and that shows what is matched,
unless that is more than 140 bytes longer than the phrase. -/
def SnippetShows (u : Unicode) (text : String) (query : SessionSearchQueryProfile) : Prop :=
  ∃ found pattern pos before piece after,
    scoreSessionSearchTextMatch u text query = .ok (some found) ∧
    found.snippet = withEllipses before piece after ∧
    MatchedAt (u.toLowercase text) query pattern pos ∧
    Framed text (pos - 140) (windowStop text pos query 280) before piece after ∧
    ∀ pre shown post, ShownAt u text pattern pos pre shown post →
      len shown ≤ focusLen query + 140 → shown <:+: piece

/-- **The snippet of a match**: when the last whitespace before the window is one byte, the search
returns a snippet that is framed and shows what is matched. -/
theorem snippet_shows_match (u : Unicode) (text query : String)
    (hfound : scoreSessionSearchTextMatch u text (.new u query) ≠ .ok none)
    (hspace : ∀ pos c, anchor (u.toLowercase text) (.new u query) = some pos →
      lastSpace text (pos - 140) = some c → c.utf8Size = 1) :
    SnippetShows u text (.new u query) := by
  by_cases hmatch : Matches (u.toLowercase text) (.new u query)
  · obtain ⟨pos, hpos⟩ := anchor_of_matches hmatch (new_minTermMatches_pos u query)
    obtain ⟨pattern, hpattern⟩ := matchedAt_of_anchor hpos
    obtain ⟨score, exact, hscore⟩ := score_of_matches hmatch
    obtain ⟨before, piece, after, hextract, hframed, hshown⟩ :=
      extract_framed text pos (.new u query) 280 fun c => hspace pos c hpos
    rw [hpos, hextract] at hscore
    refine ⟨_, pattern, pos, before, piece, after, hscore, rfl, hpattern, hframed, ?_⟩
    intro pre shown post hat
    exact hshown pre shown post hat.text_eq hat.position
  · exact absurd (score_of_not_matches hmatch) hfound

theorem snippet_shows_needle :
    SnippetShows ascii "Before the NEEDLE and after" (.new ascii "Needle") := by
  refine snippet_shows_match ascii _ "Needle" (by decide +kernel) fun pos c hpos hspace => ?_
  have hanchor : anchor (ascii.toLowercase "Before the NEEDLE and after") (.new ascii "Needle") =
      some 11 := by decide +kernel
  obtain rfl := Option.some.inj (hanchor.symm.trans hpos)
  have hnone : lastSpace "Before the NEEDLE and after" (11 - 140) = none := by decide +kernel
  exact absurd (hnone.symm.trans hspace) nofun

/-! ### A long word -/

/-- A word that is longer than the window, and ends in what is sought. -/
def longChars : List Char := List.replicate 36 '🦀' ++ ['n', 'e', 'e', 'd', 'l', 'e']

def longWord : String := String.ofList longChars

/-- The same behind whitespace of three bytes. -/
def spacedWord : String := String.ofList ('\u3000' :: longChars)

theorem longWord_toList : longWord.toList = longChars := String.toList_ofList

theorem spacedWord_toList : spacedWord.toList = '\u3000' :: longChars := String.toList_ofList

theorem mem_longChars {c : Char} (h : c ∈ longChars) : c ∈ ['🦀', 'n', 'e', 'd', 'l'] := by
  rcases List.mem_append.mp h with h | h
  · exact List.mem_cons.mpr (.inl (List.eq_of_mem_replicate h))
  · simp only [List.mem_cons, List.not_mem_nil, or_false] at h ⊢
    tauto

def needle : SessionSearchQueryProfile := ⟨"needle", ["needle"], 1⟩

theorem toLowercase_longWord : ascii.toLowercase longWord = longWord := by
  have hlower : ascii.lowercase [] longChars [] = longChars := by decide
  rw [← longWord_toList] at hlower
  exact congrArg String.ofList (hlower.trans longWord_toList)

theorem toLowercase_spacedWord : ascii.toLowercase spacedWord = spacedWord := by
  have hlower : ascii.lowercase [] ('\u3000' :: longChars) [] = '\u3000' :: longChars := by
    decide
  rw [← spacedWord_toList] at hlower
  exact congrArg String.ofList (hlower.trans spacedWord_toList)

theorem anchor_longWord : anchor (ascii.toLowercase longWord) needle = some 144 := by
  simp only [toLowercase_longWord, anchor, exactPos, findStr, longWord_toList]
  decide

theorem anchor_spacedWord : anchor (ascii.toLowercase spacedWord) needle = some 147 := by
  simp only [toLowercase_spacedWord, anchor, exactPos, findStr, spacedWord_toList]
  decide

theorem mem_of_cons_eq_append {c : Char} {cs piece rest : List Char} (h : c :: cs = piece ++ rest)
    (hlen : rest.length ≤ cs.length) : c ∈ piece := by
  cases piece with
  | nil =>
      have heq := congrArg List.length h
      rw [List.nil_append, List.length_cons] at heq
      omega
  | cons d piece =>
      obtain ⟨rfl, -⟩ := List.cons.inj h
      exact List.mem_cons_self

/-- A match at the end of a long word is shown without the word's beginning; and whitespace of three
bytes before it is a panic. -/
theorem snippet_cuts_word :
    (∃ found, scoreSessionSearchTextMatch ascii longWord (.new ascii "needle") = .ok (some found) ∧
      ∀ before piece after, longWord.toList = before ++ (piece ++ after) →
        found.snippet = withEllipses before piece after →
        before ≠ [] ∧ ∀ c, before.getLast? = some c → isWhitespace c = false) ∧
    scoreSessionSearchTextMatch ascii spacedWord (.new ascii "needle") = .error .slice := by
  have hquery : SessionSearchQueryProfile.new ascii "needle" = needle := rfl
  have hextract : extractSessionSearchSnippet longWord (some 144) needle 280 =
      .ok ("..." ++ String.ofList (List.replicate 35 '🦀') ++ "needle") := by
    simp only [extractSessionSearchSnippet, floorCharBoundary, ceilCharBoundary, longWord_toList]
    decide +kernel
  have hpanic : extractSessionSearchSnippet spacedWord (some 147) needle 280 = .error .slice := by
    simp only [extractSessionSearchSnippet, floorCharBoundary, ceilCharBoundary, spacedWord_toList]
    decide +kernel
  have hmatch : Matches (ascii.toLowercase longWord) needle := by
    refine ⟨by decide, .inl ?_⟩
    simp only [toLowercase_longWord, exactPos, findStr, longWord_toList]
    decide +kernel
  have hmatch' : Matches (ascii.toLowercase spacedWord) needle := by
    refine ⟨by decide, .inl ?_⟩
    simp only [toLowercase_spacedWord, exactPos, findStr, spacedWord_toList]
    decide +kernel
  rw [hquery]
  constructor
  · obtain ⟨score, exact, hscore⟩ := score_of_matches hmatch
    rw [anchor_longWord, hextract] at hscore
    refine ⟨_, hscore, fun before piece after htext hsnippet => ⟨?_, fun c hc => ?_⟩⟩
    · -- the text has no mark of what is left out, so the snippet would begin with a character of it
      rintro rfl
      have hchars := congrArg String.toList hsnippet
      rw [withEllipses, if_pos rfl] at hchars
      simp only [String.toList_append, String.toList_ofList, String.toList_empty, List.nil_append,
        List.append_assoc] at hchars
      have hdot : '.' ∈ piece := by
        refine mem_of_cons_eq_append hchars ?_
        split <;> simp
      have hmem : '.' ∈ longChars := by
        rw [← longWord_toList, htext, List.nil_append]
        exact List.mem_append_left after hdot
      exact absurd (mem_longChars hmem) (by decide)
    · have hmem : c ∈ longChars := by
        rw [← longWord_toList, htext]
        exact List.mem_append_left _ (List.mem_of_getLast? hc)
      have hword := mem_longChars hmem
      simp only [List.mem_cons, List.not_mem_nil, or_false] at hword
      rcases hword with rfl | rfl | rfl | rfl | rfl <;> decide
  · obtain ⟨score, exact, hscore⟩ := score_of_matches hmatch'
    rw [anchor_spacedWord, hpanic] at hscore
    exact hscore

end Jcode.SessionSearch
