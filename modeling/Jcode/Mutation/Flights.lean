import Jcode.Mutation.Dedup
import Jcode.Support.SingleFlight

/-!
# Mutation — the single flight of each key

The runtime of the mutations keeps a single flight for each key: its active keys are the leaders,
its waiters the parties, its unsent answers the debts.

* `step_cases`: what a step does.
* `Effect.phase`: the one phase that a step moves, and which way.
* `Effect.refines`: a step is a step of the single flight, or leaves it as it is.
-/

namespace Jcode.Mutation
open Rust

namespace Phase

/-- The part of a request in the single flight of its key. -/
def role : Phase → SingleFlight.Role ℕ
  | .idle => .absent
  | .waiting | .dropping | .checked _ => .entering
  | .replayed => .direct
  | .joined executor => .follower executor
  | .claimed | .droppingPending | .creating | .executing _ | .persisted .. => .leader
  | .finished .. => .served

/-- The state of an execution. -/
def state : Phase → Option PersistedSwarmMutationState
  | .executing state | .persisted state _ | .finished state _ => some state
  | _ => none

/-- The response that an execution has persisted. -/
def response : Phase → Option PersistedSwarmMutationResponse
  | .persisted _ response | .finished _ response => some response
  | _ => none

/-- The steps a request has before it, at most. -/
def rank : Phase → ℕ
  | .idle => 10
  | .waiting => 9
  | .dropping => 8
  | .checked _ => 7
  | .claimed => 5
  | .droppingPending => 4
  | .creating => 3
  | .executing _ => 2
  | .persisted .. => 1
  | .replayed | .joined _ | .finished .. => 0

def holdsLock : Phase → Bool
  | .dropping | .checked _ => true
  | _ => false

end Phase

/-- The single flights of a runtime. -/
def State.flights (s : State) : SingleFlight.State ℕ String where
  role i := (s.phase i).role
  flight := s.activeKeys.get
  party := s.waitersOf
  owed := s.unsent.map fun answer => (answer.executor, answer.request)
  answered := s.sent.map Prod.fst

/-! ### What a step does -/

/-- A request goes on by itself, with the files. -/
inductive Advance (r : Request) (files : Files) : Phase → Phase → Files → Prop where
  | drop : Advance r files .dropping (.checked none) (files.remove r.key)
  | absent : Advance r files .claimed .creating files
  | stale : Advance r files .claimed .droppingPending files
  | resume {existing : PersistedSwarmMutationState}
      (hfile : files.states.get r.key = some existing) :
      Advance r files .claimed (.executing existing) files
  | dropPending : Advance r files .droppingPending .creating (files.remove r.key)
  | create (nowMs : ℕ) :
      Advance r files .creating (.executing (r.pendingState nowMs))
        (saveState (r.pendingState nowMs) files)
  | persist (state : PersistedSwarmMutationState) (response : PersistedSwarmMutationResponse) :
      Advance r files (.executing state)
        (.persisted { state with finalResponse := some response } response)
        (saveState { state with finalResponse := some response } files)

/-- What a request finds in its file, under the lock. -/
inductive Finds (r : Request) (files : Files) : Phase → Prop where
  | nothing : Finds r files (.checked none)
  | stale : Finds r files .dropping
  | state {state : PersistedSwarmMutationState} (hfile : files.states.get r.key = some state) :
      Finds r files (.checked state.finalResponse)

section Requests
variable (request : ℕ → Request)

/-- What a step does that is not a call. -/
inductive Effect (s : State) : State → Prop where
  | check {i : ℕ} {phase : Phase} (h : s.phase i = .waiting) (hlock : s.lock = none)
      (hfinds : Finds (request i) s.files phase) :
      Effect s { s.setPhase i phase with lock := some i }
  | advance {i : ℕ} {phase : Phase} {files : Files}
      (h : Advance (request i) s.files (s.phase i) phase files) :
      Effect s { s.setPhase i phase with files := files }
  | replay {i : ℕ} {response : PersistedSwarmMutationResponse}
      (h : s.phase i = .checked (some response)) :
      Effect s { s.setPhase i .replayed with
        lock := none
        sent := s.sent ++
          [(i, response.intoServerEvent (request i).requestId (request i).sessionId)] }
  | join {i executor : ℕ} (h : s.phase i = .checked none)
      (hactive : s.activeKeys.get (request i).key = some executor) :
      Effect s { s.setPhase i (.joined executor) with
        lock := none
        waiters := s.waiters.insert (request i).key (s.waitersOf (request i).key ++ [i]) }
  | claim {i : ℕ} {phase : Phase} (h : s.phase i = .checked none)
      (hactive : s.activeKeys.get (request i).key = none)
      (hphase : phase = .claimed ∨ phase = .creating) :
      Effect s { s.setPhase i phase with
        lock := none
        waiters := s.waiters.insert (request i).key (s.waitersOf (request i).key ++ [i])
        activeKeys := s.activeKeys.insert (request i).key i }
  | drain {i : ℕ} {state : PersistedSwarmMutationState}
      {response : PersistedSwarmMutationResponse}
      (h : s.phase i = .persisted state response) (hlock : s.lock = none) :
      Effect s { s.setPhase i (.finished state response) with
        waiters := s.waiters.remove state.key
        activeKeys := s.activeKeys.remove state.key
        unsent := s.unsent ++ answers request i state response (s.waitersOf state.key) }
  | send {answer : Unsent} (h : answer ∈ s.unsent) :
      Effect s { s with
        unsent := s.unsent.erase answer
        sent := s.sent ++ [(answer.request, answer.event)] }

variable {request} {s s' : State} {e : Event}

theorem finds_of_loadState (nowMs : ℕ) (r : Request) (files : Files) :
    Finds r files (match loadState nowMs r.key files with
      | .absent => .checked none
      | .stale => .dropping
      | .state state => .checked state.finalResponse) := by
  rw [loadState]
  cases hfile : files.states.get r.key with
  | none => exact .nothing
  | some state =>
      dsimp only
      cases isStale nowMs state with
      | true => exact .stale
      | false => exact .state hfile

/-- What a step does. -/
theorem step_cases (h : step request s e = some s') :
    (∃ i, e = .call i ∧ s.phase i = .idle ∧ s' = s.setPhase i .waiting) ∨ Effect request s s' := by
  cases e with
  | call i =>
      simp only [step] at h
      split at h
      · rename_i hi
        cases h
        exact .inl ⟨i, rfl, hi, rfl⟩
      · cases h
  | check i nowMs =>
      simp only [step] at h
      split at h
      · rename_i hi hlock
        cases h
        refine .inr (.check hi hlock ?_)
        split
        · exact finds_of_loadState nowMs (request i) s.files
        · exact .nothing
      · cases h
  | dropStale i =>
      simp only [step] at h
      split at h
      · rename_i hi
        cases h
        exact .inr (.advance (hi ▸ .drop))
      · rename_i hi
        cases h
        exact .inr (.advance (hi ▸ .dropPending))
      · cases h
  | register i =>
      simp only [step, joinOrClaim] at h
      split at h
      · rename_i response hi
        cases h
        exact .inr (.replay hi)
      · rename_i hi
        split at h
        · rename_i executor hactive
          cases h
          exact .inr (.join hi hactive)
        · rename_i hactive
          cases h
          refine .inr (.claim hi hactive ?_)
          split
          · exact .inl rfl
          · exact .inr rfl
      · cases h
  | readPending i nowMs =>
      simp only [step, loadState] at h
      split at h
      · rename_i hi
        cases hfile : s.files.states.get (request i).key with
        | none =>
            rw [hfile] at h
            cases h
            exact .inr (.advance (hi ▸ .absent))
        | some existing =>
            rw [hfile] at h
            dsimp only at h
            cases hstale : isStale nowMs existing with
            | true =>
                rw [hstale] at h
                cases h
                exact .inr (.advance (hi ▸ .stale))
            | false =>
                rw [hstale] at h
                cases h
                exact .inr (.advance (hi ▸ .resume hfile))
      · cases h
  | createPending i nowMs =>
      simp only [step] at h
      split at h
      · rename_i hi
        cases h
        exact .inr (.advance (hi ▸ .create nowMs))
      · cases h
  | persistFinal i response =>
      simp only [step] at h
      split at h
      · rename_i state hi
        cases h
        exact .inr (.advance (hi ▸ .persist state response))
      · cases h
  | drain i =>
      simp only [step] at h
      split at h
      · rename_i state response hi hlock
        cases h
        exact .inr (.drain hi hlock)
      · cases h
  | send executor =>
      simp only [step] at h
      split at h
      · cases h
      · rename_i answer hfind
        cases h
        exact .inr (.send (List.mem_of_find?_eq_some hfind))

/-! ### Which way the phases move -/

/-- A request moves on, and keeps what it persisted. -/
structure Moves (phase phase' : Phase) : Prop where
  rank : phase'.rank < phase.rank
  response : ∀ response, phase.response = some response → phase'.response = some response

theorem Advance.moves {r : Request} {files files' : Files} {phase phase' : Phase}
    (h : Advance r files phase phase' files') : Moves phase phase' where
  rank := by
    cases h with
    | _ => simp [Phase.rank]
  response response hresponse := by
    cases h with
    | _ => cases hresponse

theorem Finds.moves {r : Request} {files : Files} {phase : Phase} (h : Finds r files phase) :
    Moves .waiting phase where
  rank := by
    cases h with
    | _ => simp [Phase.rank]
  response response hresponse := by cases hresponse

/-- The one phase that a step moves, unless it sends an answer. -/
theorem Effect.phase (effect : Effect request s s') :
    (s'.phase = s.phase ∧
      ∃ answer ∈ s.unsent, s'.sent = s.sent ++ [(answer.request, answer.event)]) ∨
      ∃ i phase, s'.phase = Function.update s.phase i phase ∧ s.phase i ≠ .idle ∧
        Moves (s.phase i) phase := by
  cases effect with
  | @check i phase h hlock hfinds =>
      exact .inr ⟨i, phase, rfl, by simp [h], h ▸ hfinds.moves⟩
  | @advance i phase files h =>
      refine .inr ⟨i, phase, rfl, ?_, h.moves⟩
      intro hidle
      rw [hidle] at h
      cases h
  | @replay i response h =>
      exact .inr ⟨i, _, rfl, by simp [h], by simp [h, Phase.rank], by simp [h, Phase.response]⟩
  | @join i executor h hactive =>
      exact .inr ⟨i, _, rfl, by simp [h], by simp [h, Phase.rank], by simp [h, Phase.response]⟩
  | @claim i phase h hactive hphase =>
      refine .inr ⟨i, phase, rfl, by simp [h], ?_, by simp [h, Phase.response]⟩
      rcases hphase with rfl | rfl
      · simp [h, Phase.rank]
      · simp [h, Phase.rank]
  | @drain i state response h hlock =>
      exact .inr ⟨i, _, rfl, by simp [h], by simp [h, Phase.rank], by simp [h, Phase.response]⟩
  | @send answer h => exact .inl ⟨rfl, answer, h, rfl⟩

/-- What a step keeps of the phases. -/
theorem step_phase (h : step request s e = some s') :
    s'.phase = s.phase ∨
      ∃ i phase, s'.phase = Function.update s.phase i phase ∧ Moves (s.phase i) phase := by
  rcases step_cases h with ⟨i, -, hi, rfl⟩ | effect
  · exact .inr ⟨i, .waiting, rfl, by simp [hi, Phase.rank], by simp [hi, Phase.response]⟩
  · rcases effect.phase with ⟨heq, -⟩ | ⟨i, phase, heq, -, hmoves⟩
    · exact .inl heq
    · exact .inr ⟨i, phase, heq, hmoves⟩

/-- A request that is done stays as it is. -/
theorem phase_of_rank_zero (h : step request s e = some s') {i : ℕ} (hi : (s.phase i).rank = 0) :
    s'.phase i = s.phase i := by
  rcases step_phase h with heq | ⟨j, phase, heq, hmoves⟩
  · exact congrFun heq i
  · have hne : i ≠ j := by
      rintro rfl
      exact Nat.not_lt_zero _ (hi ▸ hmoves.rank)
    rw [heq, Function.update_of_ne hne]

/-- A persisted response stays. -/
theorem response_of_response (h : step request s e = some s') {i : ℕ}
    {response : PersistedSwarmMutationResponse} (hi : (s.phase i).response = some response) :
    (s'.phase i).response = some response := by
  rcases step_phase h with heq | ⟨j, phase, heq, hmoves⟩
  · rw [heq]
    exact hi
  · rw [heq, Function.update_apply]
    split
    · rename_i hij
      exact hmoves.response _ (hij ▸ hi)
    · exact hi

/-! ### The single flights -/

theorem flights_setPhase (s : State) (i : ℕ) (phase : Phase) :
    (s.setPhase i phase).flights = s.flights.setRole i phase.role := by
  refine SingleFlight.State.ext ?_ rfl rfl rfl rfl
  funext j
  simp only [State.flights, State.setPhase, SingleFlight.State.setRole, Function.update_apply]
  exact apply_ite Phase.role _ _ _

/-- A phase of the same role leaves the flights as they are. -/
theorem flights_setPhase_of_role {i : ℕ} {phase : Phase} (h : phase.role = (s.phase i).role) :
    (s.setPhase i phase).flights = s.flights := by
  rw [flights_setPhase, h]
  exact SingleFlight.State.ext (Function.update_eq_self i _) rfl rfl rfl rfl

theorem waitersOf_insert (s : State) (key : String) (waiters : List ℕ) :
    State.waitersOf { s with waiters := s.waiters.insert key waiters } =
      Function.update s.waitersOf key waiters := by
  funext key'
  simp only [State.waitersOf, StrMap.get_insert, Function.update_apply]
  split
  · rfl
  · rfl

theorem waitersOf_remove (s : State) (key : String) :
    State.waitersOf { s with waiters := s.waiters.remove key } =
      Function.update s.waitersOf key [] := by
  funext key'
  simp only [State.waitersOf, StrMap.get_remove, Function.update_apply]
  split
  · rfl
  · rfl

theorem flights_replay (s : State) (i : ℕ) (event : ServerEvent) :
    State.flights { s.setPhase i .replayed with
      lock := none
      sent := s.sent ++ [(i, event)] } =
    { s.flights.setRole i .direct with answered := s.flights.answered ++ [i] } := by
  have hrole := congrArg SingleFlight.State.role (flights_setPhase s i .replayed)
  exact SingleFlight.State.ext hrole rfl rfl rfl List.map_append

theorem flights_join (s : State) (i executor : ℕ) (key : String) :
    State.flights { s.setPhase i (.joined executor) with
      lock := none
      waiters := s.waiters.insert key (s.waitersOf key ++ [i]) } =
    (s.flights.setRole i (.follower executor)).board key i := by
  have hrole := congrArg SingleFlight.State.role (flights_setPhase s i (.joined executor))
  exact SingleFlight.State.ext hrole rfl (waitersOf_insert s key _) rfl rfl

theorem flights_claim (s : State) {i : ℕ} {phase : Phase} (key : String)
    (hphase : phase.role = .leader) :
    State.flights { s.setPhase i phase with
      lock := none
      waiters := s.waiters.insert key (s.waitersOf key ++ [i])
      activeKeys := s.activeKeys.insert key i } =
    ((s.flights.setRole i .leader).setFlight key (some i)).board key i := by
  have hrole := congrArg SingleFlight.State.role (flights_setPhase s i phase)
  rw [hphase] at hrole
  refine SingleFlight.State.ext hrole ?_ (waitersOf_insert s key _) rfl rfl
  funext key'
  exact (Function.update_apply _ _ _ _).symm

theorem flights_drain (request : ℕ → Request) (s : State) (i : ℕ)
    (state : PersistedSwarmMutationState) (response : PersistedSwarmMutationResponse) :
    State.flights { s.setPhase i (.finished state response) with
      waiters := s.waiters.remove state.key
      activeKeys := s.activeKeys.remove state.key
      unsent := s.unsent ++ answers request i state response (s.waitersOf state.key) } =
    ((s.flights.setRole i .served).setFlight state.key none).disband state.key i := by
  have hrole := congrArg SingleFlight.State.role (flights_setPhase s i (.finished state response))
  refine SingleFlight.State.ext hrole ?_ (waitersOf_remove s state.key) ?_ rfl
  · funext key'
    exact (Function.update_apply _ _ _ _).symm
  · have hmap : (s.unsent ++ answers request i state response (s.waitersOf state.key)).map
        (fun answer => (answer.executor, answer.request)) =
        s.unsent.map (fun answer => (answer.executor, answer.request)) ++
          (s.waitersOf state.key).map fun j => (i, j) := by
      simp [answers, Function.comp_def]
    exact (congrArg Multiset.ofList hmap).trans (Multiset.coe_add _ _).symm

theorem flights_send {answer : Unsent} (h : answer ∈ s.unsent) :
    State.flights { s with
      unsent := s.unsent.erase answer
      sent := s.sent ++ [(answer.request, answer.event)] } =
    { s.flights with
      owed := s.flights.owed.erase (answer.executor, answer.request)
      answered := s.flights.answered ++ [answer.request] } := by
  refine SingleFlight.State.ext rfl rfl rfl ?_ List.map_append
  exact Multiset.map_erase_of_mem (fun a : Unsent => (a.executor, a.request)) s.unsent h

theorem Advance.role {r : Request} {files files' : Files} {phase phase' : Phase}
    (h : Advance r files phase phase' files') : phase'.role = phase.role := by
  cases h with
  | _ => rfl

theorem Finds.role {r : Request} {files : Files} {phase : Phase} (h : Finds r files phase) :
    phase.role = .entering := by
  cases h with
  | _ => rfl

/-- **A step of the runtime is a step of the single flight**, or leaves it as it is. -/
theorem Effect.refines (effect : Effect request s s')
    (hkeys : ∀ i state, (s.phase i).state = some state → state.key = (request i).key) :
    s'.flights = s.flights ∨
      SingleFlight.Step (fun i => (request i).key) s.flights s'.flights := by
  cases effect with
  | @check i phase h hlock hfinds =>
      refine .inl (flights_setPhase_of_role ?_)
      rw [hfinds.role, h]
      rfl
  | @advance i phase files h => exact .inl (flights_setPhase_of_role h.role)
  | @replay i response h =>
      have hentering : s.flights.role i = .entering := congrArg Phase.role h
      rw [flights_replay]
      exact .inr (.answer hentering)
  | @join i executor h hactive =>
      have hentering : s.flights.role i = .entering := congrArg Phase.role h
      rw [flights_join]
      exact .inr (.join hentering hactive)
  | @claim i phase h hactive hphase =>
      have hentering : s.flights.role i = .entering := congrArg Phase.role h
      have hleader : phase.role = .leader := by
        rcases hphase with rfl | rfl
        · rfl
        · rfl
      rw [flights_claim s _ hleader]
      exact .inr (.lead hentering hactive)
  | @drain i state response h hlock =>
      have hleader : s.flights.role i = .leader := congrArg Phase.role h
      have hkey : state.key = (request i).key := hkeys i state (by rw [h]; rfl)
      rw [flights_drain, hkey]
      exact .inr (.settle hleader)
  | @send answer h =>
      rw [flights_send h]
      exact .inr (.deliver (List.mem_map.mpr ⟨answer, h, rfl⟩))

end Requests

end Jcode.Mutation
