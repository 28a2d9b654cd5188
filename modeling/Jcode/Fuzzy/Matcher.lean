import Jcode.Support.Tables
import Jcode.Support.Text

/-!
# Fuzzy — Matcher

The matcher of `jcode-fuzzy`: a table whose cell `(i, j)` has the best alignment of the first `i`
characters of the needle with the first `j` of the haystack.  An alignment may have a substitution,
an extra character of the needle or a transposition, as long as there are not more of these than
the needle's length allows.

Scores are integers without bound.
-/

namespace Jcode.Fuzzy
open Rust Tables

def isBoundary (c : Char) : Bool :=
  c == '/' || c == '-' || c == '_' || c == ' ' || c == '.' || c == ':'

def MATCH : ℤ := 16
def CONSECUTIVE : ℤ := 8
def BOUNDARY : ℤ := 9
def FIRST : ℤ := 12
def GAP : ℤ := -1
def LEADING_GAP : ℤ := -3
def SUBSTITUTION : ℤ := -10
def DELETION : ℤ := -12
def TRANSPOSITION : ℤ := 2 * MATCH - 22
/-- The best alignment of a part of the needle with a part of the haystack. -/
structure Cell where
  score : ℤ
  errors : ℕ
  last : ℤ
  tailTrue : Bool
  positions : List ℕ
  deriving DecidableEq, Repr

/-- `candidate` is better than `existing`. -/
def Beats (candidate existing : Cell) : Prop :=
  existing.score < candidate.score ∨
    candidate.score = existing.score ∧ candidate.errors < existing.errors ∨
    candidate.score = existing.score ∧ candidate.errors = existing.errors ∧
      existing.positions.length < candidate.positions.length

instance (candidate existing : Cell) : Decidable (Beats candidate existing) :=
  inferInstanceAs (Decidable (_ ∨ _ ∨ _))

def keepBest (slot : Option Cell) (candidate : Cell) : Option Cell :=
  match slot with
  | none => some candidate
  | some existing => if Beats candidate existing then some candidate else some existing

/-- `keep_best`, of each candidate that there is. -/
def keepAll (candidates : List (Option Cell)) : Option Cell :=
  candidates.reduceOption.foldl keepBest none

def errorBudget (meaningfulLen : ℕ) : ℕ :=
  if meaningfulLen ≤ 2 then 0 else if meaningfulLen ≤ 8 then 1 else 2

/-! ### The table -/

/-- What a call compares. -/
structure Query where
  pat : List Char
  hay : List Char

namespace Query

variable (q : Query)

def meaningful : ℕ := q.pat.countP fun c => !isWhitespace c

def maxErr : ℕ := errorBudget q.meaningful

def patAt (i : ℕ) : Char := q.pat.getD i ' '

def hayAt (j : ℕ) : Char := q.hay.getD j ' '

/-- At the start of the haystack, or after a boundary. -/
def atBoundary (pos : ℕ) : Bool := pos == 0 || isBoundary (q.hayAt (pos - 1))

/-! The cells that continue `prev`. -/

def start : Cell := ⟨0, 0, -1, true, []⟩

def gapped (prev : Cell) : Cell := { prev with score := prev.score + GAP }

/-- The `i`-th character of the needle is the one at `pos`. -/
def hit (i pos : ℕ) (prev : Cell) : Cell where
  score := prev.score + MATCH + (if prev.last = (pos : ℤ) - 1 then CONSECUTIVE else 0)
    + (if q.atBoundary pos then BOUNDARY else 0) + (if i = 1 ∧ pos = 0 then FIRST else 0)
  errors := prev.errors
  last := pos
  tailTrue := true
  positions := prev.positions ++ [pos]

def substituted (pos : ℕ) (prev : Cell) : Cell where
  score := prev.score + SUBSTITUTION
  errors := prev.errors + 1
  last := pos
  tailTrue := false
  positions := prev.positions

def deleted (prev : Cell) : Cell :=
  { prev with score := prev.score + DELETION, errors := prev.errors + 1, tailTrue := false }

def transposed (j : ℕ) (prev : Cell) : Cell where
  score := prev.score + TRANSPOSITION + (if q.atBoundary (j - 2) then BOUNDARY else 0)
  errors := prev.errors + 1
  last := (j : ℤ) - 1
  tailTrue := true
  positions := prev.positions ++ [j - 2, j - 1]

variable (dp : ℕ → ℕ → Option Cell) (i j : ℕ)

/-- The first row. -/
def leading : Option Cell :=
  if j = 0 then some start
  else (dp 0 (j - 1)).map fun prev => { prev with score := prev.score + LEADING_GAP }

/-- The haystack has a character more. -/
def gap : Option Cell := if 1 ≤ j then (dp i (j - 1)).map gapped else none

/-- The same character, or another. -/
def diagonal : Option Cell :=
  if 1 ≤ j then
    (dp (i - 1) (j - 1)).bind fun prev =>
      if q.patAt (i - 1) = q.hayAt (j - 1) then some (q.hit i (j - 1) prev)
      else if prev.errors < q.maxErr ∧ isWhitespace (q.patAt (i - 1)) = false ∧
          isWhitespace (q.hayAt (j - 1)) = false then
        some (substituted (j - 1) prev)
      else none
  else none

/-- The needle has a character more. -/
def deletion : Option Cell :=
  if isWhitespace (q.patAt (i - 1)) = false then
    ((dp (i - 1) j).filter fun prev => decide (prev.errors < q.maxErr)).map deleted
  else none

/-- Two characters are the other way round. -/
def Transposed : Prop :=
  2 ≤ i ∧ 2 ≤ j ∧ q.patAt (i - 1) = q.hayAt (j - 2) ∧ q.patAt (i - 2) = q.hayAt (j - 1) ∧
    q.patAt (i - 1) ≠ q.patAt (i - 2) ∧ isWhitespace (q.patAt (i - 1)) = false ∧
      isWhitespace (q.patAt (i - 2)) = false

instance : Decidable (q.Transposed i j) := inferInstanceAs (Decidable (_ ∧ _))

def transposition : Option Cell :=
  if q.Transposed i j then
    ((dp (i - 2) (j - 2)).filter fun prev => decide (prev.errors < q.maxErr)).map (q.transposed j)
  else none

/-- The cell `(i, j)`. -/
def cell : Option Cell :=
  if i = 0 then leading dp j
  else keepAll [gap dp i j, q.diagonal dp i j, q.deletion dp i j, q.transposition dp i j]

def table : List (List (Option Cell)) :=
  grid q.cell (q.pat.length + 1) (q.hay.length + 1)

/-- The best cell of the last row. -/
def answer (requireTrueTail : Bool) : Option Cell :=
  keepAll (((q.table[q.pat.length]?).getD []).map fun row =>
    row.filter fun cell => !requireTrueTail || cell.tailTrue)

end Query

/-! ### Matching -/

section Matching

variable (u : CaseMapping)

end Matching

end Jcode.Fuzzy
