import Mathlib

/-!
# Support — Occurrences

The first occurrence of a pattern in a list, and a search for it that only looks at what has been
appended, and at so much before it as a pattern may straddle.  How much is counted in weights, as
characters have sizes.

* `findAt_eq_some_iff`, `findAt_eq_none_iff`: what the search finds.
* `head?_indices`: it is the first of the occurrences that do not overlap.
* `findAt_drop`: a part without an occurrence may be skipped.
* `not_early`: an occurrence that ends in the old part is an occurrence in the old part.
-/

namespace Occur

variable {α : Type*} [DecidableEq α]

/-- The index of the first occurrence of `p`. -/
def findAt (p : List α) : List α → Option ℕ
  | [] => if p = [] then some 0 else none
  | c :: cs => if p <+: c :: cs then some 0 else (findAt p cs).map (· + 1)

/-- The indices of the occurrences that do not overlap, from the front; the first `skip` places are
passed over. -/
def indicesFrom (p : List α) (i skip : ℕ) : List α → List ℕ
  | [] => if skip = 0 ∧ p = [] then [i] else []
  | c :: cs =>
      if skip = 0 ∧ p <+: c :: cs then i :: indicesFrom p (i + 1) (p.length - 1) cs
      else indicesFrom p (i + 1) (skip - 1) cs

def indices (p s : List α) : List ℕ := indicesFrom p 0 0 s

variable {p s : List α} {n k : ℕ}

theorem findAt_eq_some_iff :
    findAt p s = some n ↔ n ≤ s.length ∧ p <+: s.drop n ∧ ∀ m < n, ¬ p <+: s.drop m := by
  induction s generalizing n with
  | nil =>
      simp only [findAt, List.length_nil, List.drop_nil, List.prefix_nil]
      split
      · next hp =>
          constructor
          · intro h
            obtain rfl := Option.some.inj h
            exact ⟨le_rfl, hp, fun m hm => absurd hm (Nat.not_lt_zero m)⟩
          · rintro ⟨hn, -, -⟩
            rw [Nat.le_zero.mp hn]
      · next hp => simp [hp]
  | cons c cs ih =>
      rw [findAt]
      split
      · next hp =>
          constructor
          · intro h
            obtain rfl := Option.some.inj h
            exact ⟨Nat.zero_le _, hp, fun m hm => absurd hm (Nat.not_lt_zero m)⟩
          · rintro ⟨-, -, hfirst⟩
            cases n with
            | zero => rfl
            | succ n => exact absurd hp (hfirst 0 n.succ_pos)
      · next hp =>
          cases n with
          | zero => simp [hp]
          | succ n =>
              have hiff : (findAt p cs).map (· + 1) = some (n + 1) ↔ findAt p cs = some n := by
                simp [Option.map_eq_some_iff]
              rw [hiff, ih, List.length_cons, List.drop_succ_cons]
              refine and_congr (by omega) (and_congr .rfl ⟨fun h m hm => ?_, fun h m hm => ?_⟩)
              · cases m with
                | zero => exact hp
                | succ m => exact h m (by omega)
              · exact h (m + 1) (by omega)

theorem findAt_eq_none_iff : findAt p s = none ↔ ¬ p <:+: s := by
  induction s with
  | nil =>
      rw [findAt, List.infix_nil]
      split
      · next hp => simp [hp]
      · next hp => simp [hp]
  | cons c cs ih =>
      rw [findAt, List.infix_cons_iff]
      split
      · next hp => simp [hp]
      · next hp => rw [Option.map_eq_none_iff, ih, or_iff_right hp]

theorem findAt_isSome_iff : (findAt p s).isSome ↔ p <:+: s := by
  rw [Option.isSome_iff_ne_none, ne_eq, findAt_eq_none_iff, not_not]

/-- What follows the first occurrence does not matter. -/
theorem findAt_append (h : findAt p s = some n) (t : List α) : findAt p (s ++ t) = some n := by
  obtain ⟨hn, hp, hfirst⟩ := findAt_eq_some_iff.mp h
  refine findAt_eq_some_iff.mpr ⟨?_, ?_, fun m hm hearly => hfirst m hm ?_⟩
  · rw [List.length_append]
    omega
  · rw [List.drop_append_of_le_length hn]
    exact hp.trans (List.prefix_append _ _)
  · rw [List.drop_append_of_le_length (by omega)] at hearly
    have hlength := hp.length_le
    simp only [List.length_drop] at hlength
    refine List.prefix_of_prefix_length_le hearly (List.prefix_append _ _) ?_
    rw [List.length_drop]
    omega

/-- A part in which no occurrence begins may be skipped. -/
theorem head?_indicesFrom (i : ℕ) :
    (indicesFrom p i 0 s).head? = (findAt p s).map (i + ·) := by
  induction s generalizing i with
  | nil =>
      rw [indicesFrom, findAt]
      split_ifs with h h' h'
      · rfl
      · exact absurd h.2 h'
      · exact absurd ⟨rfl, h'⟩ h
      · rfl
  | cons c cs ih =>
      rw [indicesFrom, findAt]
      by_cases hp : p <+: c :: cs
      · rw [if_pos ⟨rfl, hp⟩, if_pos hp]
        rfl
      · rw [if_neg (fun h => hp h.2), if_neg hp, Nat.zero_sub, ih, Option.map_map]
        refine congrArg (fun f => Option.map f (findAt p cs)) (funext fun n => ?_)
        exact (Nat.add_assoc i 1 n).trans (congrArg (i + ·) (Nat.add_comm 1 n))

/-- The first of them is the first occurrence. -/
theorem head?_indices : (indices p s).head? = findAt p s := by
  rw [indices, head?_indicesFrom]
  cases findAt p s <;> simp

theorem findAt_drop (hk : k ≤ s.length) (h : ∀ m < k, ¬ p <+: s.drop m) :
    findAt p s = (findAt p (s.drop k)).map (· + k) := by
  induction k generalizing s with
  | zero => simp
  | succ k ih =>
      cases s with
      | nil => simp at hk
      | cons c cs =>
          have hhead : ¬ p <+: c :: cs := h 0 k.succ_pos
          rw [findAt, if_neg hhead, List.drop_succ_cons,
            ih (by simpa using hk) fun m hm => h (m + 1) (by omega), Option.map_map]
          rfl

/-! ### Weights -/

section
variable (w : α → ℕ)

def weight (l : List α) : ℕ := (l.map w).sum

/-- How many elements weigh at most `n` together, from the first one on. -/
def within : ℕ → List α → ℕ
  | _, [] => 0
  | n, c :: cs => if w c ≤ n then within (n - w c) cs + 1 else 0

variable {w}

omit [DecidableEq α] in
@[simp] theorem weight_append (a b : List α) : weight w (a ++ b) = weight w a + weight w b := by
  simp [weight]

omit [DecidableEq α] in
theorem within_le_length (n : ℕ) (l : List α) : within w n l ≤ l.length := by
  induction l generalizing n with
  | nil => exact le_rfl
  | cons c cs ih =>
      rw [within]
      split
      · exact Nat.succ_le_succ (ih _)
      · exact Nat.zero_le _

omit [DecidableEq α] in
theorem weight_take_within (n : ℕ) (l : List α) : weight w (l.take (within w n l)) ≤ n := by
  induction l generalizing n with
  | nil => simp [weight]
  | cons c cs ih =>
      rw [within]
      split
      · next hc =>
          have hrest := ih (n - w c)
          simp only [List.take_succ_cons, weight, List.map_cons, List.sum_cons] at hrest ⊢
          omega
      · simp [weight]

omit [DecidableEq α] in
theorem length_le_weight (hw : ∀ a, 0 < w a) (l : List α) : l.length ≤ weight w l := by
  induction l with
  | nil => exact le_rfl
  | cons c cs ih =>
      have hc := hw c
      simp only [weight, List.map_cons, List.sum_cons, List.length_cons] at ih ⊢
      omega

omit [DecidableEq α] in
theorem weight_take_mono {a b : ℕ} (hab : a ≤ b) (l : List α) :
    weight w (l.take a) ≤ weight w (l.take b) := by
  obtain ⟨t, ht⟩ := List.take_prefix_take_left hab (l := l)
  rw [← ht, weight_append]
  exact Nat.le_add_right _ _

omit [DecidableEq α] in
/-- What weighs no more than the old part lies in it. -/
theorem le_length_of_weight {xs : List α} (ys : List α) (hw : ∀ a, 0 < w a) {m : ℕ}
    (hm : m ≤ (xs ++ ys).length) (h : weight w ((xs ++ ys).take m) ≤ weight w xs) :
    m ≤ xs.length := by
  by_contra hlt
  have htake : (xs ++ ys).take m = xs ++ ys.take (m - xs.length) := by
    rw [List.take_append, List.take_of_length_le (by omega)]
  rw [htake, weight_append] at h
  have hpos := length_le_weight hw (ys.take (m - xs.length))
  rw [List.length_take] at hpos
  rw [List.length_append] at hm
  omega

omit [DecidableEq α] in
/-- No occurrence begins so early that it would end in a part without one. -/
theorem not_early {xs ys : List α} (hw : ∀ a, 0 < w a) (hnot : ¬ p <:+: xs) {m : ℕ}
    (h : weight w ((xs ++ ys).take m) + weight w p ≤ weight w xs) : ¬ p <+: (xs ++ ys).drop m := by
  rintro ⟨t, ht⟩
  by_cases hlong : (xs ++ ys).length < m
  · refine hnot ?_
    rw [List.drop_of_length_le hlong.le] at ht
    obtain ⟨rfl, -⟩ := List.append_eq_nil_iff.mp ht
    exact List.nil_infix
  · have hsplit : (xs ++ ys).take m ++ p ++ t = xs ++ ys := by
      rw [List.append_assoc, ht, List.take_append_drop]
    generalize (xs ++ ys).take m = before at h hsplit
    have hlen : (before ++ p).length ≤ xs.length := by
      refine le_length_of_weight (w := w) ys hw ?_ ?_
      · rw [← hsplit]
        exact (List.prefix_append _ t).length_le
      · rw [← hsplit, List.take_left, weight_append]
        exact h
    have hprefix : before ++ p <+: xs :=
      List.prefix_of_prefix_length_le ⟨t, hsplit⟩ (List.prefix_append xs ys) hlen
    exact hnot ((List.suffix_append before p).isInfix.trans hprefix.isInfix)

end

end Occur
