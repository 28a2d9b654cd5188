import Jcode.Mutation.Flights

/-!
# Mutation — the phase of one request

* `phase_cases`: a step leaves the phase of a request, or moves it along one edge of the code.
-/

namespace Jcode.Mutation
open Rust

section Requests
variable (request : ℕ → Request)

/-- The edges of the phases, with the events that take them. -/
inductive Moved (s : State) (i : ℕ) : Event → Phase → Phase → Prop where
  | call : Moved s i (.call i) .idle .waiting
  | stale {nowMs : ℕ} : Moved s i (.check i nowMs) .waiting .dropping
  | check {nowMs : ℕ} (found : Option PersistedSwarmMutationResponse) :
      Moved s i (.check i nowMs) .waiting (.checked found)
  | drop : Moved s i (.dropStale i) .dropping (.checked none)
  | dropPending : Moved s i (.dropStale i) .droppingPending .creating
  | replay (response : PersistedSwarmMutationResponse) :
      Moved s i (.register i) (.checked (some response)) .replayed
  | join {executor : ℕ} (h : s.activeKeys.get (request i).key = some executor) :
      Moved s i (.register i) (.checked none) (.joined executor)
  | claim (h : s.activeKeys.get (request i).key = none) :
      Moved s i (.register i) (.checked none) .claimed
  | create (h : s.activeKeys.get (request i).key = none) :
      Moved s i (.register i) (.checked none) .creating
  | absent {nowMs : ℕ} : Moved s i (.readPending i nowMs) .claimed .creating
  | stalePending {nowMs : ℕ} : Moved s i (.readPending i nowMs) .claimed .droppingPending
  | resume {nowMs : ℕ} (state : PersistedSwarmMutationState) :
      Moved s i (.readPending i nowMs) .claimed (.executing state)
  | start {nowMs : ℕ} (state : PersistedSwarmMutationState) :
      Moved s i (.createPending i nowMs) .creating (.executing state)
  | persist (state next : PersistedSwarmMutationState)
      (response : PersistedSwarmMutationResponse) :
      Moved s i (.persistFinal i response) (.executing state) (.persisted next response)
  | drain (state : PersistedSwarmMutationState) (response : PersistedSwarmMutationResponse) :
      Moved s i (.drain i) (.persisted state response) (.finished state response)

variable {request} {s s' : State} {e : Event}

/-- A step moves one request at most, along one edge. -/
theorem moved_of_step (h : step request s e = some s') :
    s'.phase = s.phase ∨ ∃ i phase, s'.phase = Function.update s.phase i phase ∧
      Moved request s i e (s.phase i) phase := by
  cases e with
  | call i =>
      simp only [step] at h
      split at h
      · rename_i hi
        cases h
        exact .inr ⟨i, _, rfl, hi ▸ .call⟩
      · cases h
  | check i nowMs =>
      simp only [step] at h
      split at h
      · rename_i hi _
        cases h
        refine .inr ⟨i, _, rfl, ?_⟩
        rw [hi]
        split
        · split
          · exact .check _
          · exact .stale
          · exact .check _
        · exact .check _
      · cases h
  | dropStale i =>
      simp only [step] at h
      split at h
      · rename_i hi
        cases h
        exact .inr ⟨i, _, rfl, hi ▸ .drop⟩
      · rename_i hi
        cases h
        exact .inr ⟨i, _, rfl, hi ▸ .dropPending⟩
      · cases h
  | register i =>
      simp only [step, joinOrClaim] at h
      split at h
      · rename_i response hi
        cases h
        exact .inr ⟨i, _, rfl, hi ▸ .replay response⟩
      · rename_i hi
        split at h
        · rename_i hactive
          cases h
          exact .inr ⟨i, _, rfl, hi ▸ .join hactive⟩
        · rename_i hactive
          cases h
          refine .inr ⟨i, _, rfl, ?_⟩
          rw [hi]
          split
          · exact .claim hactive
          · exact .create hactive
      · cases h
  | readPending i nowMs =>
      simp only [step] at h
      split at h
      · rename_i hi
        split at h
        · cases h
          exact .inr ⟨i, _, rfl, hi ▸ .absent⟩
        · cases h
          exact .inr ⟨i, _, rfl, hi ▸ .stalePending⟩
        · cases h
          exact .inr ⟨i, _, rfl, hi ▸ .resume _⟩
      · cases h
  | createPending i nowMs =>
      simp only [step] at h
      split at h
      · rename_i hi
        cases h
        exact .inr ⟨i, _, rfl, hi ▸ .start _⟩
      · cases h
  | persistFinal i response =>
      simp only [step] at h
      split at h
      · rename_i hi
        cases h
        exact .inr ⟨i, _, rfl, hi ▸ .persist _ _ _⟩
      · cases h
  | drain i =>
      simp only [step] at h
      split at h
      · rename_i hi _
        cases h
        exact .inr ⟨i, _, rfl, hi ▸ .drain _ _⟩
      · cases h
  | send executor =>
      simp only [step] at h
      split at h
      · cases h
      · cases h
        exact .inl rfl

/-- **The phase of a request** stays, or takes an edge. -/
theorem phase_cases (h : step request s e = some s') (i : ℕ) :
    s'.phase i = s.phase i ∨ Moved request s i e (s.phase i) (s'.phase i) := by
  rcases moved_of_step h with heq | ⟨j, phase, heq, hmoved⟩
  · exact .inl (congrFun heq i)
  · by_cases hij : i = j
    · subst hij
      rw [heq, Function.update_self]
      exact .inr hmoved
    · exact .inl (heq ▸ Function.update_of_ne hij _ _)

/-- A request whose execution has no state yet had none before. -/
theorem state_none_of_step (h : step request s e = some s') {i : ℕ}
    (hi : (s'.phase i).state = none) : (s.phase i).state = none := by
  rcases phase_cases h i with heq | hmoved
  · rw [← heq]
    exact hi
  · generalize s'.phase i = phase' at hmoved hi
    generalize s.phase i = phase at hmoved
    cases hmoved with
    | persist _ _ _ | drain _ _ => cases hi
    | _ => rfl

/-- A response is persisted by `finish_request`. -/
theorem response_of_step (h : step request s e = some s') {i : ℕ}
    {response : PersistedSwarmMutationResponse} (hi : (s'.phase i).response = some response) :
    (s.phase i).response = some response ∨ e = .persistFinal i response := by
  rcases phase_cases h i with heq | hmoved
  · exact .inl (heq ▸ hi)
  · generalize s'.phase i = phase' at hmoved hi
    generalize s.phase i = phase at hmoved
    cases hmoved with
    | persist _ _ _ =>
        cases hi
        exact .inr rfl
    | drain _ _ => exact .inl hi
    | _ => cases hi

end Requests

end Jcode.Mutation
