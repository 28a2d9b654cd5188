import Mathlib

/-!
# Support — Keyed lists

A list of records with a key, read and written through the first record of a given key, as
`iter().find(..)` and `iter_mut().find(..)` do.  When the keys are distinct, a lookup is
membership (`find?_key_eq_some_iff`) and a write is a map over the list (`updateFirst_eq_map`).
Distinct or not, a write that keeps the keys changes one lookup (`find?_updateFirst`).
-/

namespace Keyed

variable {α κ : Type*} [DecidableEq κ] {key : α → κ}

/-- Replace the first record that satisfies `p` by its image under `f`. -/
def updateFirst (p : α → Bool) (f : α → α) : List α → List α
  | [] => []
  | a :: l => if p a then f a :: l else a :: updateFirst p f l

omit [DecidableEq κ] in
attribute [local grind =] updateFirst

theorem eq_of_key_eq {l : List α} (h : (l.map key).Nodup) {a b : α} (ha : a ∈ l) (hb : b ∈ l)
    (e : key a = key b) : a = b :=
  List.inj_on_of_nodup_map h ha hb e

theorem find?_key_eq_some_iff {l : List α} (h : (l.map key).Nodup) {k : κ} {a : α} :
    l.find? (fun x => key x == k) = some a ↔ a ∈ l ∧ key a = k := by
  constructor
  · intro hf
    exact ⟨List.mem_of_find?_eq_some hf, by simpa using List.find?_some hf⟩
  · rintro ⟨ha, rfl⟩
    obtain ⟨b, hb⟩ := Option.isSome_iff_exists.mp
      (List.find?_isSome.mpr ⟨a, ha, by simp⟩ : (l.find? fun x => key x == key a).isSome)
    have hk : key b = key a := by simpa using List.find?_some hb
    rw [hb, eq_of_key_eq h (List.mem_of_find?_eq_some hb) ha hk]

theorem filter_key_eq_singleton {l : List α} (h : (l.map key).Nodup) {a : α} (ha : a ∈ l) :
    (l.filter fun b => key b = key a) = [a] := by
  induction l with
  | nil => cases ha
  | cons b l ih =>
      obtain ⟨hb, hl⟩ := List.nodup_cons.mp h
      rcases List.mem_cons.mp ha with rfl | ha
      · have hnil : (l.filter fun c => key c = key a) = [] :=
          List.filter_eq_nil_iff.mpr fun c hc heq =>
            hb (of_decide_eq_true heq ▸ List.mem_map_of_mem hc)
        simp [hnil]
      · have hne : key b ≠ key a := fun heq => hb (heq ▸ List.mem_map_of_mem ha)
        simp [hne, ih hl ha]

omit [DecidableEq κ] in
theorem lookup_eq_some_of_mem {β : Type*} [BEq κ] [LawfulBEq κ] {l : List (κ × β)}
    (h : (l.map Prod.fst).Nodup) {k : κ} {b : β} (hmem : (k, b) ∈ l) : l.lookup k = some b := by
  induction l with
  | nil => cases hmem
  | cons e l ih =>
      obtain ⟨he, hl⟩ := List.nodup_cons.mp h
      rw [List.lookup_cons]
      rcases List.mem_cons.mp hmem with rfl | hmem
      · rw [beq_self_eq_true]
      · have hne : k ≠ e.1 := fun heq => he (heq ▸ List.mem_map_of_mem hmem)
        rw [beq_eq_false_iff_ne.mpr hne]
        exact ih hl hmem

theorem find?_key_eq_none_iff {l : List α} {k : κ} :
    l.find? (fun x => key x == k) = none ↔ k ∉ l.map key := by
  simp

theorem updateFirst_eq_map {l : List α} (h : (l.map key).Nodup) (k : κ) (f : α → α) :
    updateFirst (fun a => key a == k) f l = l.map fun a => if key a = k then f a else a := by
  induction l with
  | nil => rfl
  | cons a l ih =>
      obtain ⟨ha, hl⟩ := List.nodup_cons.mp h
      by_cases e : key a = k
      · -- no later record has the key, so the map leaves the tail alone
        have htail : l.map (fun b => if key b = k then f b else b) = l := by
          refine (List.map_congr_left fun b hb => if_neg fun e' => ha ?_).trans (List.map_id l)
          exact List.mem_map.mpr ⟨b, hb, e'.trans e.symm⟩
        simp [updateFirst, e, htail]
      · simp [updateFirst, e, ih hl]

omit [DecidableEq κ] in
/-- A write that keeps a projection of the records keeps it of the list. -/
theorem map_updateFirst (p : α → Bool) {f : α → α} (hf : ∀ a, key (f a) = key a) (l : List α) :
    (updateFirst p f l).map key = l.map key := by
  induction l with
  | nil => rfl
  | cons a l ih =>
      rw [updateFirst]
      split
      · rw [List.map_cons, List.map_cons, hf]
      · rw [List.map_cons, List.map_cons, ih]

section Count
variable {p q : α → Bool} {f : α → α} {l : List α}

/-- A write makes at most one more record count. -/
theorem countP_updateFirst_le_succ : (updateFirst p f l).countP q ≤ l.countP q + 1 := by
  induction l with
  | nil => exact Nat.zero_le _
  | cons a l ih =>
      rw [updateFirst]
      split
      · rw [List.countP_cons, List.countP_cons]
        split <;> omega
      · rw [List.countP_cons, List.countP_cons]
        omega

/-- A write after which its record counts only if it did makes none more count. -/
theorem countP_updateFirst_le (h : ∀ a, l.find? p = some a → q (f a) → q a) :
    (updateFirst p f l).countP q ≤ l.countP q := by
  induction l with
  | nil => exact le_rfl
  | cons a l ih =>
      by_cases ha : p a
      · have hone : q (f a) → q a := h a (by rw [List.find?_cons, ha])
        rw [updateFirst, if_pos ha, List.countP_cons, List.countP_cons]
        by_cases hf : q (f a)
        · rw [if_pos hf, if_pos (hone hf)]
        · rw [if_neg hf]
          exact Nat.add_le_add_left (Nat.zero_le _) _
      · have hrest := ih fun b hb => h b (by rw [List.find?_cons, Bool.eq_false_iff.mpr ha]; exact hb)
        rw [updateFirst, if_neg ha, List.countP_cons, List.countP_cons]
        exact Nat.add_le_add_right hrest _

end Count

theorem find?_updateFirst (l : List α) (k k' : κ) {f : α → α} (hf : ∀ a, key (f a) = key a) :
    (updateFirst (fun a => key a == k) f l).find? (fun a => key a == k') =
      if k' = k then (l.find? fun a => key a == k').map f else l.find? fun a => key a == k' := by
  induction l with
  | nil => simp [updateFirst]
  | cons a l ih =>
      by_cases ha : key a = k
      · -- the write meets its record here
        by_cases hk : k' = k
        · simp [updateFirst, ha, hf, hk]
        · have hne : k ≠ k' := fun e => hk e.symm
          simp [updateFirst, ha, hf, hk, hne]
      · by_cases hk : k' = k
        · subst hk
          simpa [updateFirst, ha] using ih
        · by_cases ha' : key a = k'
          · simp [updateFirst, ha', hk]
          · simpa [updateFirst, ha, ha', hk] using ih

theorem find?_updateFirst_self (l : List α) (k : κ) {f : α → α} (hf : ∀ a, key (f a) = key a) :
    (updateFirst (fun a => key a == k) f l).find? (fun a => key a == k) =
      (l.find? fun a => key a == k).map f := by
  rw [find?_updateFirst l k k hf, if_pos rfl]

theorem find?_updateFirst_of_ne (l : List α) {k k' : κ} (hk : k' ≠ k) {f : α → α}
    (hf : ∀ a, key (f a) = key a) :
    (updateFirst (fun a => key a == k) f l).find? (fun a => key a == k') =
      l.find? fun a => key a == k' := by
  rw [find?_updateFirst l k k' hf, if_neg hk]

end Keyed
