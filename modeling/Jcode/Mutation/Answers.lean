import Jcode.Mutation.Flights

/-!
# Mutation — the answers

What is sent to the requests, along every run.

* `Law`, `Law.step`: the invariant of the runtime, over that of the single flights.
* `load_lt`: a step that is not a call brings the requests nearer to their end.
* `at_rest`: where only calls are possible, nobody waits, executes, or is owed an answer.
* `mutations_deduplicated`: one execution for each key at a time, one response for each request, and
  the right one.
-/

namespace Jcode.Mutation
open Rust

/-- The responses sent to a request. -/
def State.responses (s : State) (i : ℕ) : List ServerEvent :=
  (s.sent.filter fun sent => sent.1 == i).map Prod.snd

/-- The request executes: its claim on its key stands. -/
def State.executes (s : State) (i : ℕ) : Prop := (s.phase i).role = .leader

section Requests
variable (request : ℕ → Request) (files₀ : Files)

/-- The response is the final response of the key: an execution persisted it, in the run or, as the
initial files have it, before. -/
def PersistedBy (s : State) (key : String) (response : PersistedSwarmMutationResponse) : Prop :=
  (∃ state, files₀.states.get key = some state ∧ state.finalResponse = some response) ∨
    ∃ e, (request e).key = key ∧ (s.phase e).response = some response

/-- The event answers the request from a final response of its key. -/
def Replays (s : State) (i : ℕ) (event : ServerEvent) : Prop :=
  ∃ response, PersistedBy request files₀ s (request i).key response ∧
    event = response.intoServerEvent (request i).requestId (request i).sessionId

/-- The event answers the request with the response of the execution `e`. -/
def Serves (s : State) (e i : ℕ) (event : ServerEvent) : Prop :=
  ∃ state response, s.phase e = .finished state response ∧
    event = response.intoServerEvent (request i).requestId state.sessionId

/-- The invariant of the runtime. -/
structure Law (s : State) : Prop where
  flights : SingleFlight.Inv (fun i => (request i).key) s.flights
  lock : ∀ i, s.lock = some i ↔ (s.phase i).holdsLock = true
  keys : ∀ i state, (s.phase i).state = some state → state.key = (request i).key
  files : ∀ key state response, s.files.states.get key = some state →
    state.finalResponse = some response → PersistedBy request files₀ s key response
  found : ∀ i response, s.phase i = .checked (some response) →
    PersistedBy request files₀ s (request i).key response
  unsent : ∀ answer ∈ s.unsent, Serves request s answer.executor answer.request answer.event
  sent : ∀ i event, (i, event) ∈ s.sent →
    (s.phase i = .replayed ∧ Replays request files₀ s i event) ∨
      ∃ e, (i = e ∨ s.phase i = .joined e) ∧ Serves request s e i event

variable {request files₀} {s s' : State} {e : Event}

/-! ### What a step keeps -/

theorem PersistedBy.step {key : String} {response : PersistedSwarmMutationResponse}
    (hp : PersistedBy request files₀ s key response) (h : step request s e = some s') :
    PersistedBy request files₀ s' key response := by
  rcases hp with hfile | ⟨e, hkey, hresponse⟩
  · exact .inl hfile
  · exact .inr ⟨e, hkey, response_of_response h hresponse⟩

theorem Replays.step {i : ℕ} {event : ServerEvent} (hr : Replays request files₀ s i event)
    (h : step request s e = some s') : Replays request files₀ s' i event := by
  obtain ⟨response, hp, hevent⟩ := hr
  exact ⟨response, hp.step h, hevent⟩

theorem Serves.step {e' i : ℕ} {event : ServerEvent} (hs : Serves request s e' i event)
    (h : step request s e = some s') : Serves request s' e' i event := by
  obtain ⟨state, response, hphase, hevent⟩ := hs
  have hkeep := phase_of_rank_zero h (i := e') (by rw [hphase]; rfl)
  exact ⟨state, response, hkeep.trans hphase, hevent⟩

/-- What an entry of the sent events rests on stays. -/
theorem sent_of_step {i : ℕ} {event : ServerEvent} (h : step request s e = some s')
    (hs : (s.phase i = .replayed ∧ Replays request files₀ s i event) ∨
      ∃ e, (i = e ∨ s.phase i = .joined e) ∧ Serves request s e i event) :
    (s'.phase i = .replayed ∧ Replays request files₀ s' i event) ∨
      ∃ e, (i = e ∨ s'.phase i = .joined e) ∧ Serves request s' e i event := by
  rcases hs with ⟨hphase, hr⟩ | ⟨e', hwho, hserves⟩
  · have hkeep := phase_of_rank_zero h (i := i) (by rw [hphase]; rfl)
    exact .inl ⟨hkeep.trans hphase, hr.step h⟩
  · refine .inr ⟨e', ?_, hserves.step h⟩
    rcases hwho with rfl | hphase
    · exact .inl rfl
    · have hkeep := phase_of_rank_zero h (i := i) (by rw [hphase]; rfl)
      exact .inr (hkeep.trans hphase)

/-! ### The invariant -/

theorem Law.init : Law request files₀ (State.init files₀) where
  flights := SingleFlight.Inv.init
  lock i := by simp [State.init, Phase.holdsLock]
  keys i state h := by cases h
  files key state response hfile hresponse := .inl ⟨state, hfile, hresponse⟩
  found i response h := by cases h
  unsent answer h := by cases h
  sent i event h := by cases h

/-- The flights take a step, or stay. -/
theorem Law.flights_step (law : Law request files₀ s) (h : step request s e = some s') :
    SingleFlight.Inv (fun i => (request i).key) s'.flights := by
  rcases step_cases h with ⟨i, -, hi, rfl⟩ | effect
  · rw [flights_setPhase]
    exact (SingleFlight.Step.enter (congrArg Phase.role hi)).inv law.flights
  · rcases effect.refines law.keys with heq | hstep
    · exact heq ▸ law.flights
    · exact hstep.inv law.flights

theorem Advance.holdsLock {r : Request} {files files' : Files} {phase phase' : Phase}
    (h : Advance r files phase phase' files') : phase'.holdsLock = phase.holdsLock := by
  cases h with
  | _ => rfl

theorem Finds.holdsLock {r : Request} {files : Files} {phase : Phase} (h : Finds r files phase) :
    phase.holdsLock = true := by
  cases h with
  | _ => rfl

/-- The holder of the lock lets it go. -/
theorem lock_release {i : ℕ} {phase : Phase} (hlock : ∀ i, s.lock = some i ↔ (s.phase i).holdsLock)
    (hi : (s.phase i).holdsLock) (hphase : phase.holdsLock = false) (j : ℕ) :
    none = some j ↔ (Function.update s.phase i phase j).holdsLock := by
  have hiff := hlock j
  rw [(hlock i).mpr hi] at hiff
  rw [Function.update_apply]
  grind

theorem lock_keep {i : ℕ} {phase : Phase} (hlock : ∀ i, s.lock = some i ↔ (s.phase i).holdsLock)
    (hphase : phase.holdsLock = (s.phase i).holdsLock) (j : ℕ) :
    s.lock = some j ↔ (Function.update s.phase i phase j).holdsLock := by
  rw [hlock j, Function.update_apply]
  grind

theorem Law.lock_step (law : Law request files₀ s) (h : step request s e = some s') (j : ℕ) :
    s'.lock = some j ↔ (s'.phase j).holdsLock := by
  rcases step_cases h with ⟨i, -, hi, rfl⟩ | effect
  · exact lock_keep law.lock (by rw [hi]; rfl) j
  · cases effect with
    | @check i phase hi hlock hfinds =>
        have hiff := law.lock j
        have hholds := hfinds.holdsLock
        simp only [State.setPhase, Function.update_apply]
        grind
    | @advance i phase files hadv => exact lock_keep law.lock hadv.holdsLock j
    | @replay i response hi => exact lock_release law.lock (by rw [hi]; rfl) rfl j
    | @join i executor hi hactive => exact lock_release law.lock (by rw [hi]; rfl) rfl j
    | @claim i phase hi hactive hphase =>
        have hholds : phase.holdsLock = false := by
          rcases hphase with rfl | rfl
          · rfl
          · rfl
        exact lock_release law.lock (by rw [hi]; rfl) hholds j
    | @drain i state response hi hlock => exact lock_keep law.lock (by rw [hi]; rfl) j
    | @send answer ha => exact law.lock j

theorem Advance.key {r : Request} {files files' : Files} {phase phase' : Phase}
    (h : Advance r files phase phase' files')
    (hkeys : ∀ state, phase.state = some state → state.key = r.key)
    (state : PersistedSwarmMutationState) (hstate : phase'.state = some state) :
    state.key = r.key := by
  cases h with
  | drop => cases hstate
  | absent => cases hstate
  | stale => cases hstate
  | resume hfile =>
      cases hstate
      exact files.keyed _ _ hfile
  | dropPending => cases hstate
  | create nowMs =>
      cases hstate
      rfl
  | persist executing response =>
      cases hstate
      exact hkeys executing rfl

theorem keys_update {i : ℕ} {phase : Phase}
    (hkeys : ∀ i state, (s.phase i).state = some state → state.key = (request i).key)
    (hphase : ∀ state, phase.state = some state → state.key = (request i).key) (j : ℕ)
    (state : PersistedSwarmMutationState)
    (hstate : (Function.update s.phase i phase j).state = some state) :
    state.key = (request j).key := by
  rw [Function.update_apply] at hstate
  split at hstate
  · rename_i hji
    exact hji ▸ hphase state hstate
  · exact hkeys j state hstate

theorem Finds.state_none {r : Request} {files : Files} {phase : Phase} (h : Finds r files phase) :
    phase.state = none := by
  cases h with
  | _ => rfl

theorem Law.keys_step (law : Law request files₀ s) (h : step request s e = some s') (j : ℕ)
    (state : PersistedSwarmMutationState) (hstate : (s'.phase j).state = some state) :
    state.key = (request j).key := by
  rcases step_cases h with ⟨i, -, hi, rfl⟩ | effect
  · exact keys_update law.keys (fun _ hnone => by cases hnone) j state hstate
  · cases effect with
    | @check i phase hi hlock hfinds =>
        have hnone := hfinds.state_none
        exact keys_update law.keys (by simp [hnone]) j state hstate
    | @advance i phase files hadv =>
        exact keys_update law.keys (hadv.key (law.keys i)) j state hstate
    | @replay i response hi =>
        exact keys_update law.keys (by simp [Phase.state]) j state hstate
    | @join i executor hi hactive =>
        exact keys_update law.keys (by simp [Phase.state]) j state hstate
    | @claim i phase hi hactive hphase =>
        refine keys_update law.keys ?_ j state hstate
        rcases hphase with rfl | rfl
        · simp [Phase.state]
        · simp [Phase.state]
    | @drain i finished response hi hlock =>
        refine keys_update law.keys ?_ j state hstate
        rintro _ ⟨⟩
        exact law.keys i finished (by rw [hi]; rfl)
    | @send answer ha => exact law.keys j state hstate

/-- A final response in a file was there, or has just been persisted. -/
theorem Advance.file {r : Request} {files files' : Files} {phase phase' : Phase}
    (h : Advance r files phase phase' files')
    (hkeys : ∀ state, phase.state = some state → state.key = r.key) {key : String}
    {state : PersistedSwarmMutationState} {response : PersistedSwarmMutationResponse}
    (hfile : files'.states.get key = some state) (hresponse : state.finalResponse = some response) :
    files.states.get key = some state ∨ r.key = key ∧ phase'.response = some response := by
  have hremove : ∀ {key' : String}, (files.remove key').states.get key = some state →
      files.states.get key = some state := by
    intro key' hget
    rw [Files.remove, StrMap.get_remove] at hget
    split at hget
    · cases hget
    · exact hget
  cases h with
  | drop => exact .inl (hremove hfile)
  | absent => exact .inl hfile
  | stale => exact .inl hfile
  | resume hresume => exact .inl hfile
  | dropPending => exact .inl (hremove hfile)
  | create nowMs =>
      rw [saveState, StrMap.get_insert] at hfile
      split at hfile
      · cases hfile
        cases hresponse
      · exact .inl hfile
  | persist executing persisted =>
      rw [saveState, StrMap.get_insert] at hfile
      split at hfile
      · rename_i hkey
        cases hfile
        exact .inr ⟨(hkey.trans (hkeys executing rfl)).symm, hresponse⟩
      · exact .inl hfile

theorem Law.files_step (law : Law request files₀ s) (h : step request s e = some s')
    (key : String) (state : PersistedSwarmMutationState)
    (response : PersistedSwarmMutationResponse)
    (hfile : s'.files.states.get key = some state)
    (hresponse : state.finalResponse = some response) :
    PersistedBy request files₀ s' key response := by
  have hkeep : s.files.states.get key = some state → PersistedBy request files₀ s' key response :=
    fun hold => (law.files key state response hold hresponse).step h
  rcases step_cases h with ⟨i, -, hi, rfl⟩ | effect
  · exact hkeep hfile
  · cases effect with
    | @advance i phase files hadv =>
        rcases hadv.file (law.keys i) hfile hresponse with hold | ⟨hkey, hphase⟩
        · exact hkeep hold
        · refine .inr ⟨i, hkey, ?_⟩
          simpa [State.setPhase] using hphase
    | _ => exact hkeep hfile

/-- A final response found is that of the file, or was found before. -/
theorem Effect.found (effect : Effect request s s') {j : ℕ}
    {response : PersistedSwarmMutationResponse} (hj : s'.phase j = .checked (some response)) :
    s.phase j = .checked (some response) ∨
      ∃ state, s.files.states.get (request j).key = some state ∧
        state.finalResponse = some response := by
  have hupdate : ∀ {i : ℕ} {phase : Phase},
      Function.update s.phase i phase j = .checked (some response) →
        s.phase j = .checked (some response) ∨ j = i ∧ phase = .checked (some response) := by
    intro i phase hphase
    rw [Function.update_apply] at hphase
    split at hphase
    · rename_i hji
      exact .inr ⟨hji, hphase⟩
    · exact .inl hphase
  cases effect with
  | @check i phase h hlock hfinds =>
      rcases hupdate hj with hold | ⟨rfl, hphase⟩
      · exact .inl hold
      · cases hfinds with
        | nothing => cases hphase
        | stale => cases hphase
        | @state state hfile => exact .inr ⟨state, hfile, Phase.checked.inj hphase⟩
  | @advance i phase files h =>
      rcases hupdate hj with hold | ⟨-, hphase⟩
      · exact .inl hold
      · rw [hphase] at h
        generalize s.phase i = before at h
        cases h
  | @claim i phase h hactive hphase =>
      rcases hupdate hj with hold | ⟨rfl, rfl⟩
      · exact .inl hold
      · rcases hphase with hphase | hphase
        · cases hphase
        · cases hphase
  | @send answer h => exact .inl hj
  | _ =>
      rcases hupdate hj with hold | ⟨-, hphase⟩
      · exact .inl hold
      · cases hphase

theorem Law.found_step (law : Law request files₀ s) (h : step request s e = some s') (j : ℕ)
    (response : PersistedSwarmMutationResponse) (hj : s'.phase j = .checked (some response)) :
    PersistedBy request files₀ s' (request j).key response := by
  rcases step_cases h with ⟨i, -, hi, rfl⟩ | effect
  · have hne : j ≠ i := by
      rintro rfl
      simp [State.setPhase] at hj
    have hold := (Function.update_of_ne hne _ _).symm.trans hj
    exact (law.found j response hold).step h
  · rcases effect.found hj with hold | ⟨state, hfile, hresponse⟩
    · exact (law.found j response hold).step h
    · exact (law.files _ state response hfile hresponse).step h

/-- The answers that an execution collects carry its response. -/
theorem Law.unsent_step (law : Law request files₀ s) (h : step request s e = some s')
    (answer : Unsent) (ha : answer ∈ s'.unsent) :
    Serves request s' answer.executor answer.request answer.event := by
  have hkeep : answer ∈ s.unsent →
      Serves request s' answer.executor answer.request answer.event :=
    fun hold => (law.unsent answer hold).step h
  rcases step_cases h with ⟨i, -, hi, rfl⟩ | effect
  · exact hkeep ha
  · cases effect with
    | @drain i state response hi hlock =>
        rcases List.mem_append.mp ha with hold | hnew
        · exact hkeep hold
        · obtain ⟨j, -, rfl⟩ := List.mem_map.mp hnew
          exact ⟨state, response, Function.update_self _ _ _, rfl⟩
    | @send sent hsent => exact hkeep (List.mem_of_mem_erase ha)
    | _ => exact hkeep ha

theorem phase_of_role_follower {phase : Phase} {e : ℕ} (h : phase.role = .follower e) :
    phase = .joined e := by
  cases phase with
  | joined executor =>
      cases h
      rfl
  | _ => cases h

theorem Law.sent_step (law : Law request files₀ s) (h : step request s e = some s') (j : ℕ)
    (event : ServerEvent) (hj : (j, event) ∈ s'.sent) :
    (s'.phase j = .replayed ∧ Replays request files₀ s' j event) ∨
      ∃ e, (j = e ∨ s'.phase j = .joined e) ∧ Serves request s' e j event := by
  have hkeep := fun hold : (j, event) ∈ s.sent => sent_of_step h (law.sent j event hold)
  rcases step_cases h with ⟨i, -, hi, rfl⟩ | effect
  · exact hkeep hj
  · cases effect with
    | @replay i response hi =>
        rcases List.mem_append.mp hj with hold | hnew
        · exact hkeep hold
        · cases List.mem_singleton.mp hnew
          exact .inl ⟨Function.update_self _ _ _, response, (law.found j response hi).step h, rfl⟩
    | @send answer ha =>
        rcases List.mem_append.mp hj with hold | hnew
        · exact hkeep hold
        · cases List.mem_singleton.mp hnew
          -- the debt is to the executor, or to one that joined it
          have howed := (law.flights.owed _ _ (List.mem_map.mpr ⟨answer, ha, rfl⟩)).2
          refine .inr ⟨answer.executor, ?_, (law.unsent answer ha).step h⟩
          rcases howed with heq | hrole
          · exact .inl heq
          · exact .inr (phase_of_role_follower hrole)
    | _ => exact hkeep hj

/-- **Every step keeps the invariant.** -/
theorem Law.step (law : Law request files₀ s) (h : step request s e = some s') :
    Law request files₀ s' where
  flights := law.flights_step h
  lock := law.lock_step h
  keys := law.keys_step h
  files := law.files_step h
  found := law.found_step h
  unsent := law.unsent_step h
  sent := law.sent_step h

/-! ### Progress -/

def Event.isCall : Event → Bool
  | .call _ => true
  | _ => false

/-- What a request has before it: its steps, and its response. -/
def load (s : State) (i : ℕ) : ℕ := (s.phase i).rank + (1 - (s.responses i).length)

theorem length_responses (s : State) (i : ℕ) :
    (s.responses i).length = s.flights.answered.count i := by
  rw [State.responses, List.length_map, ← List.countP_eq_length_filter, State.flights,
    List.count, List.countP_map]
  rfl

theorem responses_append {i : ℕ} {event : ServerEvent} (h : s'.sent = s.sent ++ [(i, event)]) :
    s'.responses i = s.responses i ++ [event] := by
  simp [State.responses, h]

theorem effect_of_step (h : step request s e = some s') (he : e.isCall = false) :
    Effect request s s' := by
  rcases step_cases h with ⟨i, rfl, -⟩ | effect
  · cases he
  · exact effect

theorem Effect.sent_prefix (effect : Effect request s s') : s.sent <+: s'.sent := by
  cases effect with
  | replay h => exact List.prefix_append _ _
  | send h => exact List.prefix_append _ _
  | _ => exact List.prefix_refl _

theorem Effect.length_responses_le (effect : Effect request s s') (i : ℕ) :
    (s.responses i).length ≤ (s'.responses i).length := by
  rw [State.responses, State.responses, List.length_map, List.length_map]
  exact (effect.sent_prefix.filter _).length_le

/-- An answer that is owed is owed to a request that was made, and has none. -/
theorem Law.of_unsent (law : Law request files₀ s) {answer : Unsent} (ha : answer ∈ s.unsent) :
    s.phase answer.request ≠ .idle ∧ (s.responses answer.request).length = 0 := by
  have hmem : (answer.executor, answer.request) ∈ s.flights.owed :=
    List.mem_map.mpr ⟨answer, ha, rfl⟩
  refine ⟨?_, (length_responses s _).trans (law.flights.answered_of_owed hmem)⟩
  intro hidle
  have hrole : s.flights.role answer.request = .absent := congrArg Phase.role hidle
  obtain ⟨hserved, heq | hfollower⟩ := law.flights.owed _ _ hmem
  · rw [← heq, hrole] at hserved
    cases hserved
  · rw [hrole] at hfollower
    cases hfollower

/-- A step that is not a call takes from the load of a request, and adds to none. -/
theorem load_lt (law : Law request files₀ s) (effect : Effect request s s') :
    ∃ i, s.phase i ≠ .idle ∧ load s' i < load s i ∧ ∀ j, load s' j ≤ load s j := by
  have hanswers := effect.length_responses_le
  rcases effect.phase with ⟨heq, answer, ha, hsent⟩ | ⟨i, phase, heq, hidle, hmoves⟩
  · obtain ⟨hidle, hzero⟩ := law.of_unsent ha
    have hone : (s'.responses answer.request).length = 1 := by
      rw [responses_append hsent, List.length_append, hzero]
      rfl
    refine ⟨answer.request, hidle, ?_, fun j => ?_⟩
    · rw [load, load, heq, hzero, hone]
      omega
    · have hj := hanswers j
      rw [load, load, heq]
      omega
  · refine ⟨i, hidle, ?_, fun j => ?_⟩
    · have hi := hanswers i
      have hrank := hmoves.rank
      rw [load, load, heq, Function.update_self]
      omega
    · have hj := hanswers j
      have hrank : (Function.update s.phase i phase j).rank ≤ (s.phase j).rank := by
        rw [Function.update_apply]
        split
        · rename_i hji
          exact hji ▸ hmoves.rank.le
        · exact le_rfl
      rw [load, load, heq]
      omega

/-- The requests made by the end of a run are finitely many. -/
theorem exists_called {ts : List (Runs.Transition State Event)}
    (run : Runs.Run (step request) (State.init files₀) ts s) :
    ∃ called : Finset ℕ, ∀ i ∉ called, s.phase i = .idle := by
  refine run.preserves (P := fun s => ∃ called : Finset ℕ, ∀ i ∉ called, s.phase i = .idle)
    ?_ ⟨∅, fun _ _ => rfl⟩
  rintro t - h ⟨called, hcalled⟩
  rcases step_phase h with heq | ⟨i, phase, heq, -⟩
  · exact ⟨called, fun j hj => heq ▸ hcalled j hj⟩
  · refine ⟨insert i called, fun j hj => ?_⟩
    rw [Finset.mem_insert, not_or] at hj
    rw [heq, Function.update_of_ne hj.1]
    exact hcalled j hj.2

/-- Without new calls, a run is no longer than the load it starts with. -/
theorem length_le_load (law : Law request files₀ s) {called : Finset ℕ}
    (hcalled : ∀ i ∉ called, s.phase i = .idle) {ts : List (Runs.Transition State Event)}
    (run : Runs.Run (step request) s ts s') (hts : ∀ t ∈ ts, t.event.isCall = false) :
    ts.length ≤ ∑ i ∈ called, load s i := by
  have hkeep : ∀ t ∈ ts, step request t.before t.event = some t.after →
      (Law request files₀ t.before ∧ ∀ i ∉ called, t.before.phase i = .idle) →
        Law request files₀ t.after ∧ ∀ i ∉ called, t.after.phase i = .idle := by
    rintro t ht h ⟨hlaw, hidle⟩
    refine ⟨hlaw.step h, fun i hi => ?_⟩
    rcases (effect_of_step h (hts t ht)).phase with ⟨heq, -⟩ | ⟨j, phase, heq, hj, -⟩
    · exact heq ▸ hidle i hi
    · have hne : i ≠ j := by
        rintro rfl
        exact hj (hidle i hi)
      rw [heq, Function.update_of_ne hne]
      exact hidle i hi
  have hbound := run.length_add_le (m := fun s => ∑ i ∈ called, load s i) fun t ht h => by
    obtain ⟨hlaw, hidle⟩ := run.before_of
      (P := fun s => Law request files₀ s ∧ ∀ i ∉ called, s.phase i = .idle) hkeep ⟨law, hcalled⟩ ht
    obtain ⟨i, hi, hlt, hle⟩ := load_lt hlaw (effect_of_step h (hts t ht))
    have hmem : i ∈ called := by
      by_contra hnot
      exact hi (hidle i hnot)
    exact Finset.sum_lt_sum (fun j _ => hle j) ⟨i, hmem, hlt⟩
  omega

/-- **Where only calls are possible, all is at rest.** -/
theorem at_rest (law : Law request files₀ s)
    (hrest : ∀ e : Event, e.isCall = false → step request s e = none) :
    (∀ i, s.flights.role i ≠ .entering) ∧ (∀ i, s.flights.role i ≠ .leader) ∧
      s.flights.owed = 0 := by
  have hunlocked : s.lock = none := by
    cases hlock : s.lock with
    | none => rfl
    | some i =>
        have hholds := (law.lock i).mp hlock
        cases hi : s.phase i with
        | dropping => simpa [step, hi] using hrest (.dropStale i) rfl
        | checked found =>
            have hregister := hrest (.register i) rfl
            cases found with
            | none => simp [step, hi] at hregister
            | some response => simp [step, hi] at hregister
        | _ => simp [hi, Phase.holdsLock] at hholds
  have hholds : ∀ i, (s.phase i).holdsLock = false := by
    intro i
    have hiff := law.lock i
    rw [hunlocked] at hiff
    simpa using hiff
  refine ⟨fun i hrole => ?_, fun i hrole => ?_, ?_⟩
  · have hnot := hholds i
    cases hi : s.phase i with
    | waiting => simpa [step, hi, hunlocked] using hrest (.check i 0) rfl
    | dropping => simp [hi, Phase.holdsLock] at hnot
    | checked found => simp [hi, Phase.holdsLock] at hnot
    | _ => simp [State.flights, hi, Phase.role] at hrole
  · cases hi : s.phase i with
    | claimed =>
        have hread := hrest (.readPending i 0) rfl
        simp only [step, hi] at hread
        split at hread
        · cases hread
        · cases hread
        · cases hread
    | droppingPending => simpa [step, hi] using hrest (.dropStale i) rfl
    | creating => simpa [step, hi] using hrest (.createPending i 0) rfl
    | executing state => simpa [step, hi] using hrest (.persistFinal i .done) rfl
    | persisted state response => simpa [step, hi, hunlocked] using hrest (.drain i) rfl
    | _ => simp [State.flights, hi, Phase.role] at hrole
  · cases hunsent : s.unsent with
    | nil => simp [State.flights, hunsent]
    | cons answer unsent =>
        have hsend := hrest (.send answer.executor) rfl
        simp [step, hunsent] at hsend

/-! ### De-duplication -/

variable (request files₀) in
/-- The executions and the responses of a runtime. -/
structure Deduplicated (s : State) : Prop where
  one_execution : ∀ i j, s.executes i → s.executes j → (request i).key = (request j).key → i = j
  one_response : ∀ i, (s.responses i).length ≤ 1
  executed : ∀ i state response, s.phase i = .finished state response →
    ∀ event ∈ s.responses i, Serves request s i i event
  joined : ∀ i e, s.phase i = .joined e →
    (request e).key = (request i).key ∧ ∀ event ∈ s.responses i, Serves request s e i event
  replayed : ∀ i, s.phase i = .replayed →
    ∀ event ∈ s.responses i, Replays request files₀ s i event

theorem mem_responses {i : ℕ} {event : ServerEvent} :
    event ∈ s.responses i ↔ (i, event) ∈ s.sent := by
  simp [State.responses]

theorem Law.deduplicated (law : Law request files₀ s) : Deduplicated request files₀ s where
  one_execution i j hi hj hkey := law.flights.leader_unique hi hj hkey
  one_response i := by
    rw [length_responses]
    exact law.flights.answered_le_one i
  executed i state response hi event hevent := by
    rcases law.sent i event (mem_responses.mp hevent) with ⟨hphase, -⟩ | ⟨e, rfl | hphase, hserves⟩
    · rw [hi] at hphase
      cases hphase
    · exact hserves
    · rw [hi] at hphase
      cases hphase
  joined i e hi := by
    have hrole : s.flights.role i = .follower e := congrArg Phase.role hi
    refine ⟨(law.flights.follower i e hrole).1, fun event hevent => ?_⟩
    rcases law.sent i event (mem_responses.mp hevent) with ⟨hphase, -⟩ | ⟨e', rfl | hphase, hserves⟩
    · rw [hi] at hphase
      cases hphase
    · obtain ⟨state, response, hphase, -⟩ := hserves
      rw [hi] at hphase
      cases hphase
    · rw [hi] at hphase
      cases hphase
      exact hserves
  replayed i hi event hevent := by
    rcases law.sent i event (mem_responses.mp hevent) with
      ⟨-, hreplays⟩ | ⟨e, rfl | hphase, hserves⟩
    · exact hreplays
    · obtain ⟨state, response, hphase, -⟩ := hserves
      rw [hi] at hphase
      cases hphase
    · rw [hi] at hphase
      cases hphase

theorem law_of_run {ts : List (Runs.Transition State Event)}
    (run : Runs.Run (step request) (State.init files₀) ts s) : Law request files₀ s :=
  run.preserves (fun _ _ h law => law.step h) .init

/-- **The mutations are de-duplicated.**  At every moment of every run, a key has one execution at
most, and a request one response at most, which is that of the execution it made or joined, or a
final response of its key.  Without new calls the run comes to an end, and where it can only go on
by a call, every request has its response. -/
theorem mutations_deduplicated {ts : List (Runs.Transition State Event)}
    (run : Runs.Run (step request) (State.init files₀) ts s) :
    Deduplicated request files₀ s ∧
      (∃ n, ∀ us s', Runs.Run (step request) s us s' → (∀ t ∈ us, t.event.isCall = false) →
        us.length ≤ n) ∧
      ((∀ e : Event, e.isCall = false → step request s e = none) →
        ∀ i, s.phase i ≠ .idle → ∃ event, s.responses i = [event]) := by
  have law := law_of_run run
  obtain ⟨called, hcalled⟩ := exists_called run
  refine ⟨law.deduplicated, ⟨_, fun us s' hus hcalls => length_le_load law hcalled hus hcalls⟩,
    fun hrest i hi => ?_⟩
  obtain ⟨hentering, hleader, howed⟩ := at_rest law hrest
  have habsent : s.flights.role i ≠ .absent := by
    intro hrole
    cases hphase : s.phase i with
    | idle => exact hi hphase
    | _ => simp [State.flights, hphase, Phase.role] at hrole
  rw [← List.length_eq_one_iff, length_responses]
  exact law.flights.answered_eq_one hentering hleader howed habsent

end Requests

/-! ### Three requests -/

/-- Requests of one key. -/
def spawnRequest (i : ℕ) : Request where
  key := "k"
  action := "spawn"
  sessionId := "coord"
  requestId := i
  replayFinal := true

/-- The second request arrives before the first has persisted its response, and registers after
that; the third arrives when all is done. -/
def threeRequests : List Event :=
  [.call 0, .check 0 0, .register 0, .readPending 0 0, .createPending 0 0, .call 1, .check 1 10,
    .persistFinal 0 (.spawn "w"), .register 1, .drain 0, .send 0, .send 0, .call 2, .check 2 20,
    .register 2]

theorem mutations_deduplicated_threeRequests :
    ∃ ts s, Runs.Run (step spawnRequest) (State.init .empty) ts s ∧
      ts.map Runs.Transition.event = threeRequests ∧
      [s.responses 0, s.responses 1, s.responses 2] =
        [[.commSpawnResponse 0 "coord" "w"], [.commSpawnResponse 1 "coord" "w"],
          [.commSpawnResponse 2 "coord" "w"]] ∧
      Deduplicated spawnRequest .empty s := by
  have hexec : (Runs.exec (step spawnRequest) (State.init .empty) threeRequests).map (fun r =>
      [r.2.responses 0, r.2.responses 1, r.2.responses 2]) =
        some [[.commSpawnResponse 0 "coord" "w"], [.commSpawnResponse 1 "coord" "w"],
          [.commSpawnResponse 2 "coord" "w"]] := by
    decide +kernel
  obtain ⟨ts, s, run, hevents, hresponses⟩ := Runs.Run.of_observed hexec
  exact ⟨ts, s, run, hevents, hresponses, (mutations_deduplicated run).1⟩

end Jcode.Mutation
