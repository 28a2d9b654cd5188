import Jcode.Support.Occur

/-!
# Support — Positions

A list whose elements have sizes, and the positions in it that are counted in sizes, as the
characters of a string are addressed by bytes.  A position that falls inside an element is not a
boundary, and the list cannot be split there.

* `splitAt_eq_some_iff`: the list splits at the sizes of its front parts, and nowhere else.
* `floorBoundary_spec`, `ceilBoundary_spec`: the boundary at or before a position, at or after it.
* `rfind_eq_some`, `find_eq_some`: the last and the first element of a kind, by position.
* `slice_weight`: the piece between two boundaries.
-/

namespace Positions
open Occur (weight within weight_append)

variable {α : Type*} (w : α → ℕ)

/-- The list in two, at a position. -/
def splitAt : ℕ → List α → Option (List α × List α)
  | 0, l => some ([], l)
  | _ + 1, [] => none
  | n + 1, c :: cs =>
      if w c ≤ n + 1 then (splitAt (n + 1 - w c) cs).map fun p => (c :: p.1, p.2) else none

def isBoundary (l : List α) (i : ℕ) : Bool := (splitAt w i l).isSome

/-- Downwards to a boundary. -/
def floorFrom (l : List α) : ℕ → ℕ
  | 0 => 0
  | i + 1 => if isBoundary w l (i + 1) then i + 1 else floorFrom l i

/-- Upwards to a boundary, in at most so many steps. -/
def ceilFrom (l : List α) : ℕ → ℕ → ℕ
  | 0, i => i
  | steps + 1, i => if isBoundary w l i then i else ceilFrom l steps (i + 1)

def floorBoundary (l : List α) (i : ℕ) : ℕ :=
  if weight w l ≤ i then weight w l else floorFrom w l i

def ceilBoundary (l : List α) (i : ℕ) : ℕ :=
  if weight w l ≤ i then weight w l else min (ceilFrom w l (weight w l - i) i) (weight w l)

/-- The position of the first element of a kind. -/
def find (p : α → Bool) : List α → Option ℕ
  | [] => none
  | c :: cs => if p c then some 0 else (find p cs).map (· + w c)

/-- The position of the last element of a kind. -/
def rfind (p : α → Bool) : List α → Option ℕ
  | [] => none
  | c :: cs =>
      match rfind p cs with
      | some i => some (i + w c)
      | none => if p c then some 0 else none

/-- The position of the first occurrence of a piece. -/
def findPiece [DecidableEq α] (p l : List α) : Option ℕ :=
  (Occur.findAt p l).map fun n => weight w (l.take n)

/-- The piece from one position to another. -/
def slice (l : List α) (start stop : ℕ) : Option (List α) :=
  if start ≤ stop then
    (splitAt w start l).bind fun p => (splitAt w (stop - start) p.2).map Prod.fst
  else none

variable {w} {l a b : List α} {n i start stop : ℕ} {p : α → Bool}

@[simp] theorem weight_nil : weight w [] = 0 := rfl

@[simp] theorem weight_cons (c : α) (cs : List α) : weight w (c :: cs) = w c + weight w cs := by
  simp [weight]

/-! ### Boundaries -/

theorem weight_eq_zero_iff (hw : ∀ c, 0 < w c) : weight w l = 0 ↔ l = [] := by
  constructor
  · intro h
    have hlen := Occur.length_le_weight hw l
    exact List.length_eq_zero_iff.mp (by omega)
  · rintro rfl
    rfl

/-- **The list splits at the sizes of its front parts**, and nowhere else. -/
theorem splitAt_eq_some_iff (hw : ∀ c, 0 < w c) :
    splitAt w n l = some (a, b) ↔ l = a ++ b ∧ weight w a = n := by
  induction l generalizing n a with
  | nil =>
      cases n with
      | zero =>
          rw [splitAt, Option.some.injEq, Prod.mk.injEq]
          constructor
          · rintro ⟨rfl, rfl⟩
            exact ⟨rfl, rfl⟩
          · rintro ⟨h, -⟩
            obtain ⟨rfl, rfl⟩ := List.append_eq_nil_iff.mp h.symm
            exact ⟨rfl, rfl⟩
      | succ n =>
          rw [splitAt]
          constructor
          · exact nofun
          · rintro ⟨h, hsize⟩
            obtain ⟨rfl, rfl⟩ := List.append_eq_nil_iff.mp h.symm
            exact absurd hsize (by simp)
  | cons c cs ih =>
      cases n with
      | zero =>
          rw [splitAt, Option.some.injEq, Prod.mk.injEq]
          constructor
          · rintro ⟨rfl, rfl⟩
            exact ⟨rfl, rfl⟩
          · rintro ⟨h, hsize⟩
            obtain rfl := (weight_eq_zero_iff hw).mp hsize
            exact ⟨rfl, h⟩
      | succ n =>
          rw [splitAt]
          constructor
          · intro h
            split at h
            · next hc =>
                obtain ⟨⟨a', b'⟩, hrest, heq⟩ := Option.map_eq_some_iff.mp h
                obtain ⟨rfl, rfl⟩ : c :: a' = a ∧ b' = b := Prod.mk.inj heq
                obtain ⟨hl, hsize⟩ := ih.mp hrest
                exact ⟨congrArg (c :: ·) hl, by rw [weight_cons]; omega⟩
            · cases h
          · rintro ⟨h, hsize⟩
            cases a with
            | nil => exact absurd hsize (by simp)
            | cons d a =>
                obtain ⟨rfl, rfl⟩ := List.cons.inj h
                rw [weight_cons] at hsize
                rw [if_pos (by omega), ih.mpr ⟨rfl, by omega⟩]
                rfl

theorem isBoundary_iff (hw : ∀ c, 0 < w c) :
    isBoundary w l i = true ↔ ∃ a b, l = a ++ b ∧ weight w a = i := by
  rw [isBoundary, Option.isSome_iff_exists, Prod.exists]
  exact exists₂_congr fun a b => splitAt_eq_some_iff hw

theorem isBoundary_weight (hw : ∀ c, 0 < w c) (h : l = a ++ b) :
    isBoundary w l (weight w a) = true :=
  (isBoundary_iff hw).mpr ⟨a, b, h, rfl⟩

/-- Of two front parts the lighter one is a part of the other. -/
theorem prefix_of_weight_le (hw : ∀ c, 0 < w c) {a' b' : List α} (h : l = a ++ b) (h' : l = a' ++ b')
    (hle : weight w a ≤ weight w a') : ∃ c, a' = a ++ c ∧ b = c ++ b' := by
  rcases List.append_eq_append_iff.mp (h.symm.trans h') with ⟨c, ha, hb⟩ | ⟨c, ha, hb⟩
  · exact ⟨c, ha, hb⟩
  · rw [ha, weight_append] at hle
    obtain rfl := (weight_eq_zero_iff hw).mp (show weight w c = 0 by omega)
    rw [List.append_nil] at ha
    exact ⟨[], by rw [List.append_nil]; exact ha.symm, hb.symm⟩

/-- No boundary lies inside an element. -/
theorem not_boundary (hw : ∀ c, 0 < w c) {c : α} {k : ℕ} (h : l = a ++ c :: b) (hpos : 0 < k)
    (hlt : k < w c) : isBoundary w l (weight w a + k) = false := by
  rw [← Bool.not_eq_true, isBoundary_iff hw]
  rintro ⟨x, y, hxy, hsize⟩
  obtain ⟨z, rfl, hz⟩ := prefix_of_weight_le hw h hxy (by omega)
  rw [weight_append] at hsize
  cases z with
  | nil => exact absurd hsize (by simp; omega)
  | cons d z =>
      obtain ⟨rfl, -⟩ := List.cons.inj hz
      rw [weight_cons] at hsize
      omega

theorem floorFrom_spec (hw : ∀ c, 0 < w c) :
    isBoundary w l (floorFrom w l i) = true ∧ floorFrom w l i ≤ i ∧
      ∀ k ≤ i, isBoundary w l k = true → k ≤ floorFrom w l i := by
  induction i with
  | zero => exact ⟨isBoundary_weight hw (a := []) rfl, le_rfl, fun k hk _ => hk⟩
  | succ i ih =>
      rw [floorFrom]
      by_cases hb : isBoundary w l (i + 1) = true
      · rw [if_pos hb]
        exact ⟨hb, le_rfl, fun k hk _ => hk⟩
      · rw [if_neg hb]
        obtain ⟨hbound, hle, hmax⟩ := ih
        refine ⟨hbound, Nat.le_succ_of_le hle, fun k hk hkb => ?_⟩
        rcases Nat.lt_or_eq_of_le hk with hlt | rfl
        · exact hmax k (Nat.le_of_lt_succ hlt) hkb
        · exact absurd hkb hb

theorem weight_le_of_boundary (hw : ∀ c, 0 < w c) (h : isBoundary w l i = true) :
    i ≤ weight w l := by
  obtain ⟨a, b, rfl, rfl⟩ := (isBoundary_iff hw).mp h
  rw [weight_append]
  exact Nat.le_add_right _ _

theorem le_within (h : l = a ++ b) (hle : weight w a ≤ i) : a.length ≤ within w i l := by
  induction a generalizing l i with
  | nil => exact Nat.zero_le _
  | cons c cs ih =>
      rw [weight_cons] at hle
      subst h
      rw [List.cons_append, within, if_pos (by omega)]
      exact Nat.succ_le_succ (ih rfl (by omega))

/-- The boundary at or before a position. -/
theorem floorBoundary_spec (hw : ∀ c, 0 < w c) :
    isBoundary w l (floorBoundary w l i) = true ∧ floorBoundary w l i ≤ i ∧
      ∀ k ≤ i, isBoundary w l k = true → k ≤ floorBoundary w l i := by
  rw [floorBoundary]
  split
  · next hle =>
      refine ⟨isBoundary_weight hw (List.append_nil l).symm, hle, fun k _ hk => ?_⟩
      exact weight_le_of_boundary hw hk
  · exact floorFrom_spec hw

/-- It lies behind the elements that fit before the position. -/
theorem floorBoundary_eq (hw : ∀ c, 0 < w c) :
    floorBoundary w l i = weight w (l.take (within w i l)) := by
  have hfits := Occur.weight_take_within (w := w) i l
  obtain ⟨hbound, hle, hmax⟩ := floorBoundary_spec hw (l := l) (i := i)
  refine le_antisymm ?_ ?_
  · obtain ⟨a, b, h, hsize⟩ := (isBoundary_iff hw).mp hbound
    have hlen : a.length ≤ within w i l := le_within h (hsize.trans_le hle)
    have htake : l.take a.length = a := by rw [h, List.take_left]
    rw [← hsize, ← htake]
    exact Occur.weight_take_mono hlen l
  · exact hmax _ hfits (isBoundary_weight hw (List.take_append_drop _ l).symm)

theorem ceilFrom_spec (hw : ∀ c, 0 < w c) {steps : ℕ} (h : i + steps = weight w l) :
    isBoundary w l (ceilFrom w l steps i) = true ∧ i ≤ ceilFrom w l steps i := by
  induction steps generalizing i with
  | zero =>
      obtain rfl : i = weight w l := h
      exact ⟨isBoundary_weight hw (List.append_nil l).symm, le_rfl⟩
  | succ steps ih =>
      rw [ceilFrom]
      split
      · next hb => exact ⟨hb, le_rfl⟩
      · obtain ⟨hbound, hle⟩ := ih (i := i + 1) (by omega)
        exact ⟨hbound, by omega⟩

/-- The boundary at or after a position, or the end. -/
theorem ceilBoundary_spec (hw : ∀ c, 0 < w c) :
    isBoundary w l (ceilBoundary w l i) = true ∧ min i (weight w l) ≤ ceilBoundary w l i := by
  rw [ceilBoundary]
  split
  · exact ⟨isBoundary_weight hw (List.append_nil l).symm, min_le_right _ _⟩
  · next hle =>
      have hsteps : i + (weight w l - i) = weight w l := by omega
      obtain ⟨hbound, hge⟩ := ceilFrom_spec hw hsteps
      rw [min_eq_left (weight_le_of_boundary hw hbound)]
      exact ⟨hbound, (min_le_left _ _).trans hge⟩

/-! ### Elements of a kind -/

theorem rfind_eq_none_iff : rfind w p l = none ↔ ∀ c ∈ l, p c = false := by
  induction l with
  | nil => simp [rfind]
  | cons c cs ih =>
      rw [rfind, List.forall_mem_cons, ← ih]
      cases rfind w p cs with
      | some i => simp
      | none => simp

theorem rfind_eq_some (h : rfind w p l = some i) :
    ∃ a c b, l = a ++ c :: b ∧ weight w a = i ∧ p c = true ∧ ∀ d ∈ b, p d = false := by
  induction l generalizing i with
  | nil => cases h
  | cons c cs ih =>
      rw [rfind] at h
      cases hrest : rfind w p cs with
      | some k =>
          rw [hrest] at h
          obtain rfl := Option.some.inj h
          obtain ⟨a, d, b, rfl, rfl, hd, hb⟩ := ih hrest
          exact ⟨c :: a, d, b, rfl, by rw [weight_cons, Nat.add_comm], hd, hb⟩
      | none =>
          rw [hrest] at h
          by_cases hc : p c = true
          · rw [if_pos hc] at h
            obtain rfl := Option.some.inj h
            exact ⟨[], c, cs, rfl, rfl, hc, rfind_eq_none_iff.mp hrest⟩
          · rw [if_neg hc] at h
            cases h

/-- The last element of a kind, by the kind alone. -/
theorem getLast?_filter {c : α} (hl : l = a ++ c :: b) (hc : p c = true) (hb : ∀ d ∈ b, p d = false) :
    (l.filter p).getLast? = some c := by
  have hnone : b.filter p = [] := by
    rw [List.filter_eq_nil_iff]
    exact fun d hd => Bool.eq_false_iff.mp (hb d hd)
  rw [hl, List.filter_append, List.filter_cons_of_pos hc, hnone, List.getLast?_append_cons]
  rfl

theorem find_eq_none_iff : find w p l = none ↔ ∀ c ∈ l, p c = false := by
  induction l with
  | nil => simp [find]
  | cons c cs ih =>
      rw [find, List.forall_mem_cons, ← ih]
      cases p c with
      | true => simp
      | false => simp

theorem find_eq_some (h : find w p l = some i) :
    ∃ a c b, l = a ++ c :: b ∧ weight w a = i ∧ p c = true ∧ ∀ d ∈ a, p d = false := by
  induction l generalizing i with
  | nil => cases h
  | cons c cs ih =>
      rw [find] at h
      by_cases hc : p c = true
      · rw [if_pos hc] at h
        obtain rfl := Option.some.inj h
        exact ⟨[], c, cs, rfl, rfl, hc, nofun⟩
      · rw [if_neg hc] at h
        obtain ⟨k, hrest, rfl⟩ := Option.map_eq_some_iff.mp h
        obtain ⟨a, d, b, rfl, rfl, hd, ha⟩ := ih hrest
        refine ⟨c :: a, d, b, rfl, by rw [weight_cons, Nat.add_comm], hd, ?_⟩
        exact List.forall_mem_cons.mpr ⟨eq_false_of_ne_true hc, ha⟩

/-! ### Pieces -/

theorem splitAt_weight (hw : ∀ c, 0 < w c) (a b : List α) :
    splitAt w (weight w a) (a ++ b) = some (a, b) :=
  (splitAt_eq_some_iff hw).mpr ⟨rfl, rfl⟩

/-- **A piece between two boundaries.** -/
theorem slice_weight (hw : ∀ c, 0 < w c) (a m b : List α) :
    slice w (a ++ (m ++ b)) (weight w a) (weight w a + weight w m) = some m := by
  rw [slice, if_pos (Nat.le_add_right _ _), splitAt_weight hw, Option.bind_some,
    Nat.add_sub_cancel_left, splitAt_weight hw]
  rfl

/-- A piece starts at a boundary. -/
theorem slice_eq_none (h : isBoundary w l start = false) : slice w l start stop = none := by
  rw [slice]
  split
  · rw [isBoundary, Option.isSome_eq_false_iff, Option.isNone_iff_eq_none] at h
    rw [h, Option.bind_none]
  · rfl

end Positions
