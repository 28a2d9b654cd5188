import Mathlib

/-!
# Support — Mirror

A mirror of a list that is brought up to date late.  The list is pushed to, or edited in place;
the mirror is a view of the list's first `n` items, and a *mode* says how far it can be trusted:
`clean`, not behind; `append`, behind by items pushed at the end; `full`, to be made anew.

What every operation keeps is `Tracks`: unless the mode is `full`, the mirror is the view of the
first `n` items, and of all of them if the mode is `clean`.  An operation that marks what it does
(`Change`) keeps it: a push raises the mode, any other edit makes it `full` (`Tracks.change`).
When the view is a fold, a mirror that is not `full` is brought up to date by folding the items it
lacks (`Tracks.foldl_drop`).
-/

namespace Mirror

inductive Mode where
  | clean
  | append
  | full
  deriving DecidableEq, Repr

/-- The mode after a push. -/
def Mode.appended : Mode → Mode
  | .full => .full
  | _ => .append

@[simp] theorem Mode.appended_eq_full {mode : Mode} : mode.appended = .full ↔ mode = .full := by
  cases mode <;> simp [appended]

@[simp] theorem Mode.appended_ne_clean {mode : Mode} : mode.appended ≠ .clean := by
  cases mode <;> simp [appended]

/-- What an operation may do to the list and its mode: nothing, a push, or an edit. -/
inductive Change {α : Type*} (xs : List α) (mode : Mode) : List α → Mode → Prop where
  | kept : Change xs mode xs mode
  | pushed (a : α) : Change xs mode (xs ++ [a]) mode.appended
  | edited (ys : List α) : Change xs mode ys .full

variable {α μ : Type*} {view : List α → μ} {mode : Mode} {n : ℕ} {mirror : μ} {source : List α}

/-- A mirror that is to be made anew stays so. -/
theorem Change.full {source source' : List α} {mode' : Mode}
    (h : Change source .full source' mode') : mode' = .full := by
  cases h <;> rfl

/-- The mirror is the view of the first `n` items, unless it is to be made anew. -/
def Tracks (view : List α → μ) (mode : Mode) (n : ℕ) (mirror : μ) (source : List α) : Prop :=
  mode ≠ .full → n ≤ source.length ∧ mirror = view (source.take n) ∧
    (mode = .clean → n = source.length)

namespace Tracks

/-- Of a mirror that is to be made anew nothing is asked. -/
theorem edited : Tracks view .full n mirror source := fun h => absurd rfl h

/-- A mirror just made. -/
theorem synced (source : List α) :
    Tracks view .clean source.length (view source) source := by
  intro _
  exact ⟨le_rfl, by rw [List.take_length], fun _ => rfl⟩

/-- A push leaves the first items where they are. -/
theorem push (h : Tracks view mode n mirror source) (a : α) :
    Tracks view mode.appended n mirror (source ++ [a]) := by
  intro hmode
  obtain ⟨hle, hview, -⟩ := h (fun hfull => hmode (Mode.appended_eq_full.mpr hfull))
  refine ⟨?_, ?_, fun hclean => absurd hclean Mode.appended_ne_clean⟩
  · rw [List.length_append]
    exact hle.trans (Nat.le_add_right _ _)
  · rw [hview, List.take_append_of_le_length hle]

theorem change (h : Tracks view mode n mirror source) {source' : List α} {mode' : Mode}
    (hchange : Change source mode source' mode') : Tracks view mode' n mirror source' := by
  cases hchange with
  | kept => exact h
  | pushed a => exact h.push a
  | edited => exact edited

/-- A clean mirror is the view of the whole list. -/
theorem eq_view (h : Tracks view .clean n mirror source) : mirror = view source := by
  obtain ⟨-, hview, hlen⟩ := h (by decide)
  rw [hview, hlen rfl, List.take_length]

/-- The items a mirror lacks, folded onto it, bring it up to date. -/
theorem foldl_drop {push : μ → α → μ} {init : μ}
    (h : Tracks (List.foldl push init) mode n mirror source) (hmode : mode ≠ .full) :
    (source.drop n).foldl push mirror = source.foldl push init := by
  obtain ⟨-, hview, -⟩ := h hmode
  rw [hview, ← List.foldl_append, List.take_append_drop]

/-- The items a copy lacks, appended to it, complete it. -/
theorem append_drop {copy : List α} (h : Tracks id mode n copy source) (hmode : mode ≠ .full) :
    copy ++ source.drop n = source := by
  obtain ⟨-, hview, -⟩ := h hmode
  rw [hview]
  exact List.take_append_drop n source

/-- A copy is no longer than what it copies. -/
theorem length_copy {copy : List α} (h : Tracks id mode n copy source) (hmode : mode ≠ .full) :
    copy.length = n := by
  obtain ⟨hle, hview, -⟩ := h hmode
  rw [hview]
  exact List.length_take_of_le hle

end Tracks

end Mirror
