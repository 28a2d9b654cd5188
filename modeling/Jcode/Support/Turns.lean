import Mathlib

/-!
# Support — Turns

A conversation of turns, each of a party and a list of things said.  `merge` joins neighbouring
turns of one party; `reply a b l` is what `b` says first in `l`, behind whatever `a` says before.

* `merge_alternates`: no two neighbours of a merged conversation are of one party.
* `reading_merge`: a merged conversation says the same.
* `replied_merge`: what holds of the reply to each thing said holds of it after merging.
-/

namespace Turns

variable {κ β γ : Type*}

/-! ### Splits of a list -/

section Splits
variable {α : Type*} {f : α → List γ} {l : List α}

/-- What is read once is read at one place. -/
theorem eq_of_nodup_flatMap {l₁ l₂ r₁ r₂ : List α} {t₁ t₂ : α} {x : γ} (h : (l.flatMap f).Nodup)
    (h₁ : l = l₁ ++ t₁ :: r₁) (h₂ : l = l₂ ++ t₂ :: r₂) (hx₁ : x ∈ f t₁) (hx₂ : x ∈ f t₂) :
    l₁ = l₂ ∧ t₁ = t₂ ∧ r₁ = r₂ := by
  have apart : ∀ {l c r : List α} {t u : α}, ((l ++ t :: c ++ u :: r).flatMap f).Nodup →
      x ∈ f t → x ∉ f u := fun {l c r t u} hnodup ht hu => by
    rw [List.flatMap_append, List.nodup_append] at hnodup
    refine hnodup.2.2 x ?_ x ?_ rfl
    · rw [List.flatMap_append, List.flatMap_cons]
      exact List.mem_append_right _ (List.mem_append_left _ ht)
    · rw [List.flatMap_cons]
      exact List.mem_append_left _ hu
  rcases List.append_eq_append_iff.mp (h₁.symm.trans h₂) with ⟨c, rfl, hc⟩ | ⟨c, rfl, hc⟩
  · cases c with
    | nil =>
        obtain ⟨rfl, rfl⟩ := List.cons.inj hc
        exact ⟨(List.append_nil _).symm, rfl, rfl⟩
    | cons t c =>
        obtain ⟨rfl, rfl⟩ := List.cons.inj hc
        rw [h₂] at h
        exact absurd hx₂ (apart h hx₁)
  · cases c with
    | nil =>
        obtain ⟨rfl, rfl⟩ := List.cons.inj hc
        exact ⟨List.append_nil _, rfl, rfl⟩
    | cons t c =>
        obtain ⟨rfl, rfl⟩ := List.cons.inj hc
        rw [h₁] at h
        exact absurd hx₁ (apart h hx₂)

/-- An element of a flattened list stands in the piece of one element. -/
theorem exists_of_flatMap_eq {before after : List γ} {t : γ} (h : l.flatMap f = before ++ t :: after) :
    ∃ l₁ a l₂ b c, l = l₁ ++ a :: l₂ ∧ f a = b ++ t :: c ∧ before = l₁.flatMap f ++ b ∧
      after = c ++ l₂.flatMap f := by
  induction l generalizing before with
  | nil => simp at h
  | cons a l ih =>
      rw [List.flatMap_cons] at h
      rcases List.append_eq_append_iff.mp h with ⟨c, rfl, hc⟩ | ⟨c, hc, hafter⟩
      · obtain ⟨l₁, a', l₂, b, c', rfl, hf, rfl, rfl⟩ := ih hc
        exact ⟨a :: l₁, a', l₂, b, c', rfl, hf, by rw [List.flatMap_cons, List.append_assoc], rfl⟩
      · cases c with
        | nil =>
            obtain ⟨l₁, a', l₂, b, c', rfl, hf, hb, rfl⟩ := @ih [] hafter.symm
            refine ⟨a :: l₁, a', l₂, b, c', rfl, hf, ?_, rfl⟩
            rw [List.flatMap_cons, List.append_assoc, ← hb, hc, List.append_nil, List.append_nil]
        | cons t' c =>
            obtain ⟨rfl, rfl⟩ := List.cons.inj hafter
            exact ⟨[], a, l, before, c, rfl, hc, rfl, rfl⟩

end Splits

/-! ### Turns -/

/-- What a party says at once. -/
structure Turn (κ β : Type*) where
  role : κ
  content : List β
  deriving DecidableEq, Repr

variable {a b : κ} {l m : List (Turn κ β)} {t : Turn κ β}

/-- What is read of the things said, each with its party. -/
def reading (f : κ → β → List γ) (l : List (Turn κ β)) : List γ :=
  l.flatMap fun t => t.content.flatMap (f t.role)

section Reading
variable {f : κ → β → List γ}

theorem reading_cons (t : Turn κ β) (l : List (Turn κ β)) :
    reading f (t :: l) = t.content.flatMap (f t.role) ++ reading f l := List.flatMap_cons

theorem reading_append (l m : List (Turn κ β)) :
    reading f (l ++ m) = reading f l ++ reading f m := List.flatMap_append

theorem mem_reading {x : γ} :
    x ∈ reading f l ↔ ∃ t ∈ l, ∃ y ∈ t.content, x ∈ f t.role y := by
  simp [reading]

end Reading

/-! ### Merging -/

variable [DecidableEq κ]

/-- Joins neighbouring turns of one party. -/
def merge : List (Turn κ β) → List (Turn κ β)
  | [] => []
  | t :: l =>
    match merge l with
    | [] => [t]
    | u :: m => if u.role = t.role then ⟨t.role, t.content ++ u.content⟩ :: m else t :: u :: m

theorem merge_cons_cases (t : Turn κ β) (l : List (Turn κ β)) :
    (merge l = [] ∧ merge (t :: l) = [t]) ∨
      ∃ u m, merge l = u :: m ∧ ((u.role = t.role ∧
          merge (t :: l) = ⟨t.role, t.content ++ u.content⟩ :: m) ∨
        u.role ≠ t.role ∧ merge (t :: l) = t :: u :: m) := by
  cases h : merge l with
  | nil => exact .inl ⟨rfl, by rw [merge, h]⟩
  | cons u m =>
      refine .inr ⟨u, m, rfl, ?_⟩
      by_cases hrole : u.role = t.role
      · exact .inl ⟨hrole, by rw [merge, h]; exact if_pos hrole⟩
      · exact .inr ⟨hrole, by rw [merge, h]; exact if_neg hrole⟩

/-- **Merged turns alternate.** -/
theorem merge_alternates (l : List (Turn κ β)) :
    (merge l).IsChain fun t u => t.role ≠ u.role := by
  induction l with
  | nil => exact .nil
  | cons t l ih =>
      rcases merge_cons_cases t l with ⟨-, h⟩ | ⟨u, m, hl, ⟨hrole, h⟩ | ⟨hrole, h⟩⟩
      · rw [h]
        exact .singleton t
      · rw [hl] at ih
        rw [h]
        cases m with
        | nil => exact .singleton _
        | cons v m =>
            obtain ⟨huv, hm⟩ := List.isChain_cons_cons.mp ih
            exact List.isChain_cons_cons.mpr ⟨fun htv => huv (hrole.trans htv), hm⟩
      · rw [hl] at ih
        rw [h]
        exact List.isChain_cons_cons.mpr ⟨fun htu => hrole htu.symm, ih⟩

/-- **A merged conversation says the same.** -/
theorem reading_merge (f : κ → β → List γ) (l : List (Turn κ β)) : reading f (merge l) = reading f l := by
  induction l with
  | nil => rfl
  | cons t l ih =>
      rw [reading_cons, ← ih]
      rcases merge_cons_cases t l with ⟨hl, h⟩ | ⟨u, m, hl, ⟨hrole, h⟩ | ⟨-, h⟩⟩
      · rw [h, hl]
        rfl
      · rw [h, hl, reading_cons, reading_cons, List.flatMap_append, List.append_assoc, hrole]
      · rw [h, hl, reading_cons]

/-! ### Replies -/

/-- What `b` says at the start. -/
def opening (b : κ) : List (Turn κ β) → List β
  | [] => []
  | t :: l => if t.role = b then t.content ++ opening b l else []

/-- What `b` says first, behind whatever `a` says before. -/
def reply (a b : κ) : List (Turn κ β) → List β
  | [] => []
  | t :: l => if t.role = a then reply a b l else opening b (t :: l)

theorem opening_cons_of_eq (h : t.role = b) : opening b (t :: l) = t.content ++ opening b l :=
  if_pos h

theorem opening_cons_of_ne (h : t.role ≠ b) : opening b (t :: l) = [] := if_neg h

theorem reply_cons_of_eq (h : t.role = a) : reply a b (t :: l) = reply a b l := if_pos h

theorem reply_cons_of_ne (h : t.role ≠ a) : reply a b (t :: l) = opening b (t :: l) := if_neg h

theorem opening_merge (l : List (Turn κ β)) : opening b (merge l) = opening b l := by
  induction l with
  | nil => rfl
  | cons t l ih =>
      by_cases ht : t.role = b
      · rw [opening_cons_of_eq ht, ← ih]
        rcases merge_cons_cases t l with ⟨hl, h⟩ | ⟨u, m, hl, ⟨hrole, h⟩ | ⟨hrole, h⟩⟩
        · rw [h, hl, opening_cons_of_eq ht]
        · rw [h, hl, opening_cons_of_eq (hrole.trans ht), ← List.append_assoc]
          exact opening_cons_of_eq ht
        · rw [h, hl, opening_cons_of_eq ht]
      · rw [opening_cons_of_ne ht]
        rcases merge_cons_cases t l with ⟨-, h⟩ | ⟨u, m, -, ⟨-, h⟩ | ⟨-, h⟩⟩ <;> rw [h]
        all_goals exact opening_cons_of_ne ht

theorem reply_merge (l : List (Turn κ β)) : reply a b (merge l) = reply a b l := by
  induction l with
  | nil => rfl
  | cons t l ih =>
      by_cases ht : t.role = a
      · rw [reply_cons_of_eq ht, ← ih]
        rcases merge_cons_cases t l with ⟨hl, h⟩ | ⟨u, m, hl, ⟨hrole, h⟩ | ⟨hrole, h⟩⟩
        · rw [h, hl, reply_cons_of_eq ht]
        · rw [h, hl, reply_cons_of_eq (hrole.trans ht)]
          exact reply_cons_of_eq ht
        · rw [h, hl, reply_cons_of_eq ht]
      · rw [reply_cons_of_ne ht, ← opening_merge]
        rcases merge_cons_cases t l with ⟨-, h⟩ | ⟨u, m, -, ⟨-, h⟩ | ⟨-, h⟩⟩ <;> rw [h]
        all_goals exact reply_cons_of_ne ht

/-- `P` holds of each thing `a` says and the reply of `b` to it. -/
def Replied (a b : κ) (P : β → List β → Prop) : List (Turn κ β) → Prop
  | [] => True
  | t :: l => (t.role = a → ∀ x ∈ t.content, P x (reply a b l)) ∧ Replied a b P l

theorem replied_iff {P : β → List β → Prop} :
    Replied a b P l ↔ ∀ before t after, l = before ++ t :: after → t.role = a →
      ∀ x ∈ t.content, P x (reply a b after) := by
  induction l with
  | nil => exact ⟨fun _ _ _ _ h => by simp at h, fun _ => trivial⟩
  | cons u l ih =>
      rw [Replied, ih]
      constructor
      · rintro ⟨hu, hl⟩ (- | ⟨v, before⟩) t after h
        · obtain ⟨rfl, rfl⟩ := List.cons.inj h
          exact hu
        · obtain ⟨rfl, rfl⟩ := List.cons.inj h
          exact hl before t after rfl
      · intro h
        exact ⟨h [] u l rfl, fun before t after hl => h (u :: before) t after (by rw [hl]; rfl)⟩

/-- **What holds of the reply to each thing said** holds of it after merging. -/
theorem replied_merge {P : β → List β → Prop} (l : List (Turn κ β)) :
    Replied a b P (merge l) ↔ Replied a b P l := by
  induction l with
  | nil => exact Iff.rfl
  | cons t l ih =>
      have hreply := reply_merge (a := a) (b := b) l
      rw [Replied, ← ih, ← hreply]
      rcases merge_cons_cases t l with ⟨hl, h⟩ | ⟨u, m, hl, ⟨hrole, h⟩ | ⟨-, h⟩⟩
      · rw [h, hl]
        rfl
      · rw [h, hl, Replied, Replied, ← and_assoc]
        refine and_congr_left fun _ => ?_
        by_cases ht : t.role = a
        · simp only [ht, hrole.trans ht, true_imp_iff, reply_cons_of_eq (hrole.trans ht),
            List.forall_mem_append]
        · simp only [ht, hrole, false_imp_iff, and_self]
      · rw [h, hl, Replied]

/-- What `b` says in the next turn. -/
def next (b : κ) : List (Turn κ β) → List β
  | [] => []
  | t :: _ => if t.role = b then t.content else []

/-- **In a conversation whose turns alternate** the reply is the next turn. -/
theorem reply_eq_next (h : (t :: l).IsChain fun t u => t.role ≠ u.role) (ht : t.role = a) :
    reply a b l = next b l := by
  cases l with
  | nil => rfl
  | cons u l =>
      obtain ⟨htu, hl⟩ := List.isChain_cons_cons.mp h
      rw [reply_cons_of_ne fun hu => htu (ht.trans hu.symm), next]
      by_cases hu : u.role = b
      · rw [opening_cons_of_eq hu, if_pos hu]
        cases l with
        | nil => exact List.append_nil _
        | cons v l =>
            have huv := (List.isChain_cons_cons.mp hl).1
            rw [opening_cons_of_ne fun hv => huv (hu.trans hv.symm), List.append_nil]
      · rw [opening_cons_of_ne hu, if_neg hu]

/-! ### Where a reply comes from -/

theorem opening_append (hl : ∀ t ∈ l, t.role = b) (m : List (Turn κ β)) :
    opening b (l ++ m) = l.flatMap (·.content) ++ opening b m := by
  induction l with
  | nil => rfl
  | cons t l ih =>
      rw [List.cons_append, opening_cons_of_eq (hl t List.mem_cons_self),
        ih fun u hu => hl u (.tail _ hu), List.flatMap_cons, List.append_assoc]

theorem reply_append_of_eq (hl : ∀ t ∈ l, t.role = a) (m : List (Turn κ β)) :
    reply a b (l ++ m) = reply a b m := by
  induction l with
  | nil => rfl
  | cons t l ih =>
      rw [List.cons_append, reply_cons_of_eq (hl t List.mem_cons_self),
        ih fun u hu => hl u (.tail _ hu)]

theorem opening_append_of_ne (ht : t.role ≠ b) (l m : List (Turn κ β)) :
    opening b (l ++ t :: m) = opening b l := by
  induction l with
  | nil => exact opening_cons_of_ne ht
  | cons u l ih =>
      by_cases hu : u.role = b
      · rw [List.cons_append, opening_cons_of_eq hu, opening_cons_of_eq hu, ih]
      · rw [List.cons_append, opening_cons_of_ne hu, opening_cons_of_ne hu]

/-- What `b` says until another speaks is the reply, when it speaks first. -/
theorem reply_append_of_forall (hab : a ≠ b) (hl : ∀ t ∈ l, t.role = b) (hne : l ≠ [])
    (m : List (Turn κ β)) : reply a b (l ++ m) = l.flatMap (·.content) ++ opening b m := by
  rw [← opening_append hl]
  cases l with
  | nil => exact absurd rfl hne
  | cons t l => exact reply_cons_of_ne fun ht => hab (ht.symm.trans (hl t List.mem_cons_self))

/-- Once another has spoken, what comes after the next turn of `a` is no part of the reply. -/
theorem reply_append_of_exists (hab : a ≠ b) (ht : t.role = a) (hl : ∃ u ∈ l, u.role ≠ a)
    (m : List (Turn κ β)) : reply a b (l ++ t :: m) = reply a b l := by
  induction l with
  | nil => obtain ⟨u, hu, -⟩ := hl; cases hu
  | cons u l ih =>
      by_cases hu : u.role = a
      · rw [List.cons_append, reply_cons_of_eq hu, reply_cons_of_eq hu]
        refine ih ?_
        obtain ⟨v, hv, hrole⟩ := hl
        rcases List.mem_cons.mp hv with rfl | hv
        · exact absurd hu hrole
        · exact ⟨v, hv, hrole⟩
      · rw [List.cons_append, reply_cons_of_ne hu, reply_cons_of_ne hu, ← List.cons_append,
          opening_append_of_ne fun hb => hab (ht.symm.trans hb)]

theorem reading_opening_sublist (f : κ → β → List γ) (l : List (Turn κ β)) :
    ((opening b l).flatMap (f b)).Sublist (reading f l) := by
  induction l with
  | nil => exact .slnil
  | cons t l ih =>
      by_cases ht : t.role = b
      · rw [opening_cons_of_eq ht, List.flatMap_append, reading_cons, ht]
        exact (List.Sublist.refl _).append ih
      · rw [opening_cons_of_ne ht]
        exact List.nil_sublist _

/-- A reply is part of what is said. -/
theorem reading_reply_sublist (f : κ → β → List γ) (l : List (Turn κ β)) :
    ((reply a b l).flatMap (f b)).Sublist (reading f l) := by
  induction l with
  | nil => exact .slnil
  | cons t l ih =>
      by_cases ht : t.role = a
      · rw [reply_cons_of_eq ht, reading_cons]
        exact List.sublist_append_of_sublist_right ih
      · rw [reply_cons_of_ne ht]
        exact reading_opening_sublist f (t :: l)

theorem mem_reply {x : β} (hx : x ∈ reply a b l) : ∃ t ∈ l, t.role = b ∧ x ∈ t.content := by
  have opened : ∀ l : List (Turn κ β), x ∈ opening b l → ∃ t ∈ l, t.role = b ∧ x ∈ t.content := by
    intro l hx
    induction l with
    | nil => cases hx
    | cons t l ih =>
        by_cases ht : t.role = b
        · rw [opening_cons_of_eq ht] at hx
          rcases List.mem_append.mp hx with hx | hx
          · exact ⟨t, List.mem_cons_self, ht, hx⟩
          · obtain ⟨u, hu, hux⟩ := ih hx
            exact ⟨u, .tail _ hu, hux⟩
        · rw [opening_cons_of_ne ht] at hx
          cases hx
  induction l with
  | nil => cases hx
  | cons t l ih =>
      by_cases ht : t.role = a
      · rw [reply_cons_of_eq ht] at hx
        obtain ⟨u, hu, hux⟩ := ih hx
        exact ⟨u, .tail _ hu, hux⟩
      · rw [reply_cons_of_ne ht] at hx
        exact opened _ hx

end Turns
