import Mathlib

/-!
# Support — Forests of parent pointers

A map from each node to its parent.  It is a forest when no node is reached again by following
parents, at least once.

* `Forest.of_le`: a map with fewer links is a forest.
* `Forest.redirect`: some nodes get one new parent, and stay a forest when it lies below none of
  them.
* `forest_redirect_iff`: when these nodes shared their old parent, that is exact.
-/

namespace Forests
open Relation

variable {α : Type*}

/-- From a node to its parent. -/
def Link (parent : α → Option α) (a b : α) : Prop := parent a = some b

/-- Following parents from a node never returns to it. -/
def Forest (parent : α → Option α) : Prop := ∀ a, ¬ TransGen (Link parent) a a

variable {parent parent' : α → Option α}

theorem Forest.of_le (h : Forest parent) (hle : ∀ a b, parent' a = some b → parent a = some b) :
    Forest parent' :=
  fun a ha => h a (TransGen.mono hle a a ha)

section Redirect
variable {moved : α → Prop} {target : α}

/-- What is above the target was above it. -/
theorem above_target (hmoved : ∀ a b, moved a → parent' a = some b → a ≠ target)
    (hkept : ∀ a b, ¬ moved a → parent' a = some b → parent a = some b)
    (hbelow : ∀ a, moved a → a ≠ target → ¬ TransGen (Link parent) target a) {a : α}
    (ha : ReflTransGen (Link parent') target a) : ReflTransGen (Link parent) target a := by
  induction ha with
  | refl => exact .refl
  | @tail b c _ hbc ih =>
      by_cases hb : moved b
      · -- the target lies below no moved node, and is not one with a parent
        have hne := hmoved b c hb hbc
        rcases reflTransGen_iff_eq_or_transGen.mp ih with heq | htrans
        · exact absurd heq hne
        · exact absurd htrans (hbelow b hb hne)
      · exact ih.tail (hkept b c hb hbc)

/-- A path goes over the old links, or last over a new one. -/
theorem path_cases (hmoved : ∀ a b, moved a → parent' a = some b → b = target)
    (hkept : ∀ a b, ¬ moved a → parent' a = some b → parent a = some b) {a b : α}
    (hab : TransGen (Link parent') a b) : TransGen (Link parent) a b ∨
      ∃ c, moved c ∧ ReflTransGen (Link parent') a c ∧ parent' c = some target ∧
        ReflTransGen (Link parent') target b := by
  induction hab with
  | @single b hab =>
      by_cases ha : moved a
      · cases hmoved a b ha hab
        exact .inr ⟨a, ha, .refl, hab, .refl⟩
      · exact .inl (.single (hkept a b ha hab))
  | @tail b c hab hbc ih =>
      by_cases hb : moved b
      · cases hmoved b c hb hbc
        exact .inr ⟨b, hb, hab.to_reflTransGen, hbc, .refl⟩
      · rcases ih with hold | ⟨d, hd, had, hlink, hdb⟩
        · exact .inl (hold.tail (hkept b c hb hbc))
        · exact .inr ⟨d, hd, had, hlink, hdb.tail hbc⟩

/-- **Some nodes get one new parent** that lies below none of them. -/
theorem Forest.redirect (h : Forest parent)
    (hmoved : ∀ a b, moved a → parent' a = some b → b = target ∧ a ≠ target)
    (hkept : ∀ a b, ¬ moved a → parent' a = some b → parent a = some b)
    (hbelow : ∀ a, moved a → a ≠ target → ¬ TransGen (Link parent) target a) :
    Forest parent' := by
  intro a ha
  rcases path_cases (fun a b h hab => (hmoved a b h hab).1) hkept ha with hold | hnew
  · exact h a hold
  · obtain ⟨c, hc, hac, hlink, hta⟩ := hnew
    have hne := (hmoved c target hc hlink).2
    have habove := above_target (fun a b h hab => (hmoved a b h hab).2) hkept hbelow
      (hta.trans hac)
    rcases reflTransGen_iff_eq_or_transGen.mp habove with heq | htrans
    · exact hne heq
    · exact hbelow c hc hne htrans

/-- The first moved node above the target. -/
theorem exists_moved (hkept : ∀ a, ¬ moved a → parent' a = parent a) {a : α}
    (ha : ReflTransGen (Link parent) target a) :
    ReflTransGen (Link parent') target a ∨
      ∃ c, moved c ∧ ReflTransGen (Link parent') target c := by
  induction ha with
  | refl => exact .inl .refl
  | @tail b c _ hbc ih =>
      rcases ih with hb | hmoved
      · by_cases hm : moved b
        · exact .inr ⟨b, hm, hb⟩
        · exact .inl (hb.tail ((hkept b hm).trans hbc))
      · exact .inr hmoved

/-- When the moved nodes shared their parent, the condition is exact. -/
theorem forest_redirect_iff {source : α} (h : Forest parent)
    (hsource : ∀ a, moved a → parent a = some source)
    (htarget : ∀ a, moved a → a ≠ target → parent' a = some target)
    (hroot : moved target → parent' target = none)
    (hkept : ∀ a, ¬ moved a → parent' a = parent a) :
    Forest parent' ↔ ∀ a, moved a → a ≠ target → ¬ TransGen (Link parent) target a := by
  constructor
  · intro h' a ha hne hbelow
    -- the target is not moved: it would be below itself
    have htop : ¬ moved target := by
      intro ht
      obtain ⟨b, hb, hba⟩ := TransGen.head'_iff.mp hbelow
      have hb' := hsource target ht
      rw [Link, hb'] at hb
      cases hb
      exact h source (.tail' hba (hsource a ha))
    have hcycle : ∀ c, moved c → ReflTransGen (Link parent') target c → False := by
      intro c hc htc
      have hct : c ≠ target := fun heq => htop (heq ▸ hc)
      exact h' c (.head' (htarget c hc hct) htc)
    rcases exists_moved hkept hbelow.to_reflTransGen with hta | ⟨c, hc, htc⟩
    · exact hcycle a ha hta
    · exact hcycle c hc htc
  · refine h.redirect (fun a b ha hab => ?_) (fun a b ha hab => hkept a ha ▸ hab)
    by_cases hat : a = target
    · rw [hat, hroot (hat ▸ ha)] at hab
      cases hab
    · rw [htarget a ha hat] at hab
      cases hab
      exact ⟨rfl, hat⟩

end Redirect

end Forests
