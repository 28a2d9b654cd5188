import Mathlib

/-!
# Support — Single flight

Requests that share a key share an execution.  A request that enters is answered directly, or
follows the execution of its key, or leads one.  When the execution settles, the answers of its
party (the leader and its followers) are owed, and they are delivered one by one.

* `Inv`: the invariant.  Every request holds one ticket from its entry on: as one that enters, in a
  party, among the owed answers, or among the answered.
* `Step.inv`: every step keeps it.
* `Inv.leader_unique`: one leader for each key.
* `Inv.answered_le_one`, `Inv.answered_eq_one`: at most one answer, and one when all is at rest.
-/

namespace SingleFlight

/-- The part of a request. -/
inductive Role (ι : Type*) where
  | absent
  | entering
  | direct
  | follower (leader : ι)
  | leader
  | served
  deriving DecidableEq

@[ext]
structure State (ι κ : Type*) where
  role : ι → Role ι
  /-- The leader of each key. -/
  flight : κ → Option ι
  party : κ → List ι
  /-- The answers to deliver, each with its leader. -/
  owed : Multiset (ι × ι)
  answered : List ι

variable {ι κ : Type*}

/-- No request has entered. -/
def State.init : State ι κ where
  role _ := .absent
  flight _ := none
  party _ := []
  owed := 0
  answered := []

variable [DecidableEq ι]

section Steps
variable [DecidableEq κ]

namespace State

def setRole (s : State ι κ) (i : ι) (role : Role ι) : State ι κ :=
  { s with role := Function.update s.role i role }

def setFlight (s : State ι κ) (k : κ) (leader : Option ι) : State ι κ :=
  { s with flight := Function.update s.flight k leader }

/-- Join the party of a key. -/
def board (s : State ι κ) (k : κ) (i : ι) : State ι κ :=
  { s with party := Function.update s.party k (s.party k ++ [i]) }

/-- The party of a key is owed its answers. -/
def disband (s : State ι κ) (k : κ) (leader : ι) : State ι κ :=
  { s with
    party := Function.update s.party k []
    owed := s.owed + (s.party k).map fun i => (leader, i) }

end State

inductive Step (key : ι → κ) (s : State ι κ) : State ι κ → Prop where
  | enter {i : ι} (h : s.role i = .absent) : Step key s (s.setRole i .entering)
  | answer {i : ι} (h : s.role i = .entering) :
      Step key s { s.setRole i .direct with answered := s.answered ++ [i] }
  | join {i e : ι} (h : s.role i = .entering) (hflight : s.flight (key i) = some e) :
      Step key s ((s.setRole i (.follower e)).board (key i) i)
  | lead {i : ι} (h : s.role i = .entering) (hflight : s.flight (key i) = none) :
      Step key s (((s.setRole i .leader).setFlight (key i) (some i)).board (key i) i)
  | settle {e : ι} (h : s.role e = .leader) :
      Step key s (((s.setRole e .served).setFlight (key e) none).disband (key e) e)
  | deliver {e i : ι} (h : (e, i) ∈ s.owed) :
      Step key s { s with owed := s.owed.erase (e, i), answered := s.answered ++ [i] }

end Steps

/-- The tickets of a request. -/
def tickets (key : ι → κ) (s : State ι κ) (i : ι) : ℕ :=
  (if s.role i = .entering then 1 else 0) + (s.party (key i)).count i +
    (s.owed.map Prod.snd).count i + s.answered.count i

structure Inv (key : ι → κ) (s : State ι κ) : Prop where
  flight_iff : ∀ k e, s.flight k = some e ↔ s.role e = .leader ∧ key e = k
  party : ∀ k i, i ∈ s.party k →
    s.flight k = some i ∨ ∃ e, s.flight k = some e ∧ s.role i = .follower e
  follower : ∀ i e, s.role i = .follower e →
    key e = key i ∧ (s.role e = .leader ∨ s.role e = .served)
  owed : ∀ e i, (e, i) ∈ s.owed → s.role e = .served ∧ (i = e ∨ s.role i = .follower e)
  ticket : ∀ i, tickets key s i = if s.role i = .absent then 0 else 1

variable {key : ι → κ} {s s' : State ι κ}

namespace Inv

theorem init : Inv key (State.init : State ι κ) where
  flight_iff k e := by simp [State.init]
  party k i h := by cases h
  follower i e h := by cases h
  owed e i h := by cases h
  ticket i := rfl

/-! ### What holds of a state -/

/-- One leader for each key. -/
theorem leader_unique (h : Inv key s) {i j : ι} (hi : s.role i = .leader)
    (hj : s.role j = .leader) (hkey : key i = key j) : i = j := by
  have hfi := (h.flight_iff (key j) i).mpr ⟨hi, hkey⟩
  have hfj := (h.flight_iff (key j) j).mpr ⟨hj, rfl⟩
  exact Option.some.inj (hfi.symm.trans hfj)

theorem key_of_party (h : Inv key s) {k : κ} {i : ι} (hi : i ∈ s.party k) : key i = k := by
  rcases h.party k i hi with hf | ⟨e, hf, hr⟩
  · exact ((h.flight_iff k i).mp hf).2
  · exact (h.follower i e hr).1.symm.trans ((h.flight_iff k e).mp hf).2

theorem tickets_le_one (h : Inv key s) (i : ι) : tickets key s i ≤ 1 := by
  rw [h.ticket i]
  split
  · exact Nat.zero_le 1
  · exact Nat.le_refl 1

theorem answered_le_one (h : Inv key s) (i : ι) : s.answered.count i ≤ 1 :=
  (Nat.le_add_left _ _).trans (h.tickets_le_one i)

/-- An owed request was not answered. -/
theorem answered_of_owed (h : Inv key s) {e i : ι} (hi : (e, i) ∈ s.owed) :
    s.answered.count i = 0 := by
  have hpos : 0 < (s.owed.map Prod.snd).count i :=
    Multiset.count_pos.mpr (Multiset.mem_map.mpr ⟨(e, i), hi, rfl⟩)
  have hle := h.tickets_le_one i
  rw [tickets] at hle
  omega

/-- When nobody enters or leads, and nothing is owed, every request was answered. -/
theorem answered_eq_one (h : Inv key s) (hentering : ∀ i, s.role i ≠ .entering)
    (hleader : ∀ i, s.role i ≠ .leader) (howed : s.owed = 0) {i : ι}
    (hi : s.role i ≠ .absent) : s.answered.count i = 1 := by
  -- a party has a leader
  have hparty : s.party (key i) = [] := by
    refine List.eq_nil_iff_forall_not_mem.mpr fun j hj => ?_
    rcases h.party _ j hj with hf | ⟨e, hf, -⟩
    · exact hleader j ((h.flight_iff _ j).mp hf).1
    · exact hleader e ((h.flight_iff _ e).mp hf).1
  have ht := h.ticket i
  rw [tickets, if_neg (hentering i), hparty, howed, if_neg hi] at ht
  simpa using ht

end Inv

/-! ### What a step keeps -/

section Steps
variable [DecidableEq κ]

theorem Step.flight_iff (step : Step key s s') (h : Inv key s) (k : κ) (e : ι) :
    s'.flight k = some e ↔ s'.role e = .leader ∧ key e = k := by
  have hiff := h.flight_iff
  cases step with
  | @enter i hi =>
      simp only [State.setRole, Function.update_apply]
      grind
  | @answer i hi =>
      simp only [State.setRole, Function.update_apply]
      grind
  | @join i e' hi hflight =>
      simp only [State.setRole, State.board, Function.update_apply]
      grind
  | @lead i hi hflight =>
      simp only [State.setRole, State.setFlight, State.board, Function.update_apply]
      grind
  | @settle e' hi =>
      -- the leaders of a key are one
      have hunique := h.leader_unique hi (j := e)
      simp only [State.setRole, State.setFlight, State.disband, Function.update_apply]
      grind
  | deliver hi => exact hiff k e

theorem Step.party (step : Step key s s') (h : Inv key s) (k : κ) (j : ι) (hj : j ∈ s'.party k) :
    s'.flight k = some j ∨ ∃ e, s'.flight k = some e ∧ s'.role j = .follower e := by
  have hparty := h.party
  cases step with
  | @enter i hi =>
      simp only [State.setRole, Function.update_apply] at hj ⊢
      grind
  | @answer i hi =>
      simp only [State.setRole, Function.update_apply] at hj ⊢
      grind
  | @join i e' hi hflight =>
      simp only [State.setRole, State.board, Function.update_apply] at hj ⊢
      grind
  | @lead i hi hflight =>
      simp only [State.setRole, State.setFlight, State.board, Function.update_apply] at hj ⊢
      grind
  | @settle e' hi =>
      simp only [State.setRole, State.setFlight, State.disband, Function.update_apply] at hj ⊢
      grind
  | deliver hi => exact hparty k j hj

theorem Step.follower (step : Step key s s') (h : Inv key s) (j e : ι)
    (hj : s'.role j = .follower e) :
    key e = key j ∧ (s'.role e = .leader ∨ s'.role e = .served) := by
  have hfollower := h.follower
  cases step with
  | @enter i hi =>
      simp only [State.setRole, Function.update_apply] at hj ⊢
      grind
  | @answer i hi =>
      simp only [State.setRole, Function.update_apply] at hj ⊢
      grind
  | @join i e' hi hflight =>
      -- the leader it follows
      have hleader := (h.flight_iff _ _).mp hflight
      simp only [State.setRole, State.board, Function.update_apply] at hj ⊢
      grind
  | @lead i hi hflight =>
      simp only [State.setRole, State.setFlight, State.board, Function.update_apply] at hj ⊢
      grind
  | @settle e' hi =>
      simp only [State.setRole, State.setFlight, State.disband, Function.update_apply] at hj ⊢
      grind
  | deliver hi => exact hfollower j e hj

theorem Step.owed (step : Step key s s') (h : Inv key s) (e j : ι) (hj : (e, j) ∈ s'.owed) :
    s'.role e = .served ∧ (j = e ∨ s'.role j = .follower e) := by
  have howed := h.owed e j
  cases step with
  | @enter i hi =>
      simp only [State.setRole, Function.update_apply] at hj ⊢
      grind
  | @answer i hi =>
      simp only [State.setRole, Function.update_apply] at hj ⊢
      grind
  | @join i e' hi hflight =>
      simp only [State.setRole, State.board, Function.update_apply] at hj ⊢
      grind
  | @lead i hi hflight =>
      simp only [State.setRole, State.setFlight, State.board, Function.update_apply] at hj ⊢
      grind
  | @settle e' hi =>
      rcases Multiset.mem_add.mp hj with hj | hj
      · -- an older debt
        simp only [State.setRole, State.setFlight, State.disband, Function.update_apply] at hj ⊢
        grind
      · -- the party of this execution
        obtain ⟨j', hj', heq⟩ := List.mem_map.mp (Multiset.mem_coe.mp hj)
        cases heq
        have hflight := (h.flight_iff _ _).mpr ⟨hi, rfl⟩
        have hparty := h.party _ j hj'
        simp only [State.setRole, State.setFlight, State.disband, Function.update_apply]
        grind
  | deliver hi => exact howed (Multiset.mem_of_mem_erase hj)

theorem Step.ticket (step : Step key s s') (h : Inv key s) (j : ι) :
    tickets key s' j = if s'.role j = .absent then 0 else 1 := by
  have hj := h.ticket j
  rw [tickets] at hj ⊢
  cases step with
  | @enter i hi =>
      simp only [State.setRole, Function.update_apply] at hj ⊢
      grind
  | @answer i hi =>
      simp only [State.setRole, Function.update_apply] at hj ⊢
      grind
  | @join i e' hi hflight =>
      simp only [State.setRole, State.board, Function.update_apply] at hj ⊢
      grind
  | @lead i hi hflight =>
      simp only [State.setRole, State.setFlight, State.board, Function.update_apply] at hj ⊢
      grind
  | @settle e' hi =>
      -- the party of the key turns into debts
      have hmap : ((s.party (key e')).map fun i => (e', i)).map Prod.snd = s.party (key e') := by
        simp
      have hentering :
          (if j = e' then .served else s.role j) = .entering ↔ s.role j = .entering := by
        grind
      have habsent : (if j = e' then .served else s.role j) = .absent ↔ s.role j = .absent := by
        grind
      simp only [State.setRole, State.setFlight, State.disband, Function.update_apply,
        Multiset.map_add, Multiset.map_coe, hmap, Multiset.count_add, Multiset.coe_count,
        hentering, habsent]
      by_cases hkey : key j = key e'
      · rw [if_pos hkey, List.count_nil, ← hkey]
        omega
      · have hother : (s.party (key e')).count j = 0 :=
          List.count_eq_zero.mpr fun hmem => hkey (h.key_of_party hmem)
        rw [if_neg hkey, hother]
        omega
  | @deliver e' i hi =>
      -- a debt turns into an answer
      have hdebt : (s.owed.map Prod.snd).count j =
          ((s.owed.erase (e', i)).map Prod.snd).count j + if j = i then 1 else 0 := by
        rw [← Multiset.count_cons, ← Multiset.map_cons Prod.snd (e', i), Multiset.cons_erase hi]
      rw [List.count_append, List.count_singleton]
      grind

/-- Every step keeps the invariant. -/
theorem Step.inv (step : Step key s s') (h : Inv key s) : Inv key s' where
  flight_iff := step.flight_iff h
  party := step.party h
  follower := step.follower h
  owed := step.owed h
  ticket := step.ticket h

end Steps

end SingleFlight
