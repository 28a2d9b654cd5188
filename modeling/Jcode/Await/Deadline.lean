import Jcode.Await.Waiters

/-!
# Await — a result belongs to its own wait

A key is used again by later waits.  Whoever ends a wait writes the state that is in the file then, and
answers the waiters that are registered then; a request that arrives in between, or finds an expired
state whose watcher still runs, mixes two waits.

* `Exclusive`: the end of a wait and a request exclude each other.
* `Timely.step`: then one watcher runs at most, and a timeout is the timeout of the request's own wait.
-/

namespace Jcode.Await
open Rust Runs

/-! ### Actors -/

/-- The watcher runs. -/
def Watcher.alive : Watcher → Bool
  | .absent | .exited => false
  | _ => true

/-- The watcher is ending the wait. -/
def Watcher.ends : Watcher → Bool
  | .finishing _ => true
  | _ => false

/-- The pending state that a watcher looks after. -/
def Watcher.held : Watcher → Option AwaitMembersState
  | .looping state | .unsatisfied state _ | .retaining state _ | .waiting state _ => some state
  | _ => none

/-- The request has found its wait expired, and ends it. -/
def Handler.ends : Handler → Bool
  | .finishing _ => true
  | .joined _ _ expired => expired
  | _ => false

/-- The pending state that a request works with. -/
def Handler.held : Handler → Option AwaitMembersState
  | .loaded persisted => persisted.filter AwaitMembersState.isPending
  | .prepared persisted _ => persisted
  | .joined state _ _ | .registered state => some state
  | _ => none

section Steps
variable (awaited : Awaited) (request : ℕ → AwaitRequest)

/-- No pending state that anybody but the request works with is past its deadline. -/
def Prompt (s : World) (i : ℕ) : Prop :=
  (∀ k state, (s.watcher k).held = some state → s.now < state.deadlineUnixMs) ∧
    ∀ j state, j ≠ i → (s.handler j).held = some state → s.now < state.deadlineUnixMs

/-- The end of a wait and a request exclude each other: a request starts when nobody is ending a
wait, and the end of a wait begins when no other request is between its steps.  No request joins a
pending state while somebody else works with one that is past its deadline. -/
def Exclusive (s : World) : Event → Prop
  | .load _ => (∀ j, (s.handler j).ends = false) ∧ ∀ k, (s.watcher k).ends = false
  | .ensure i => Prompt s i ∧ ∀ persisted statuses, s.handler i = .prepared persisted statuses →
      (joinPending (request i) s persisted).1.deadlineUnixMs ≤ s.now →
        ∀ j, j ≠ i → (s.handler j).atRest = true
  | .watch _ => satisfies awaited (s.statuses awaited) = true → ∀ j, (s.handler j).atRest = true
  | .retain _ => s.waiters.filter (fun j => !s.closed j) = [] → ∀ j, (s.handler j).atRest = true
  | .timeout _ => ∀ j, (s.handler j).atRest = true
  | _ => True

/-- The deadline of the wait that the request has joined is past. -/
def Due (s : World) (i : ℕ) : Prop := ∃ d, s.deadline i = some d ∧ d ≤ s.now

/-- A final state in the file that timed out was past its deadline. -/
def FileSound (now : ℕ) (file : Option AwaitMembersState) : Prop :=
  ∀ state final, file = some state → state.finalResponse = some final →
    final.outcome.completed = false → state.deadlineUnixMs ≤ now

/-- What holds of the responses, the file and the counts at any time. -/
structure Sound (s : World) : Prop where
  timedOut : ∀ i response, (i, response) ∈ s.responses → response.outcome.completed = false →
    response.backgroundStarted = false → Due s i
  file : FileSound s.now s.file
  tickets : ∀ i, s.tickets i ≤ 1

/-- The file has a pending state with the deadline, or it had, and the deadline is long past. -/
def Current (s : World) (d : ℕ) : Prop :=
  (∃ state, s.file = some state ∧ state.isPending = true ∧ state.deadlineUnixMs = d) ∨
    s.file = none ∧ d ≤ s.now

/-- Nobody is ending a wait. -/
structure Calm (s : World) : Prop where
  handlers : ∀ j, (s.handler j).ends = false
  watchers : ∀ k, (s.watcher k).ends = false
  one : ∀ k k', (s.watcher k).alive = true → (s.watcher k').alive = true → k = k'
  active : s.active = true ↔ ∃ k, (s.watcher k).alive = true
  watched : ∀ k state, (s.watcher k).held = some state → Current s state.deadlineUnixMs
  handled : ∀ j state, (s.handler j).held = some state → Current s state.deadlineUnixMs
  joined : ∀ j state, ((∃ statuses expired, s.handler j = .joined state statuses expired) ∨
    s.handler j = .registered state) → s.deadline j = some state.deadlineUnixMs
  pending : ∀ j persisted statuses, s.handler j = .prepared (some persisted) statuses →
    persisted.isPending = true
  waiting : ∀ j ∈ s.waiters, ∃ d, s.deadline j = some d ∧ Current s d
  placed : ∀ j ∈ s.waiters, (∃ state, s.handler j = .registered state) ∨
    s.handler j = .done ∧ s.active = true
  replay : ∀ j state, s.handler j = .loaded (some state) → FileSound s.now (some state)

/-- The state that the end of a wait has yet to write. -/
def Finish.held : Finish → Option AwaitMembersState
  | .persist state _ _ _ => some state
  | _ => none

/-- The outcome that the end of a wait has yet to tell the waiters. -/
def Finish.outcome : Finish → Option Outcome
  | .persist _ _ _ outcome | .take _ outcome => some outcome
  | .clear _ => none

/-- A wait times out: its waiters are due, and so is what may be written. -/
structure Expiring (s : World) (held : Option AwaitMembersState) : Prop where
  waiting : ∀ j ∈ s.waiters, Due s j
  file : ∀ state, s.file = some state → state.isPending = true → state.deadlineUnixMs ≤ s.now
  held : ∀ state, held = some state → state.deadlineUnixMs ≤ s.now

/-- A request ends an expired wait, alone. -/
structure RequestEnds (i : ℕ) (s : World) : Prop where
  ends : (s.handler i).ends = true
  handlers : ∀ j, j ≠ i → (s.handler j).atRest = true
  watchers : ∀ k, (s.watcher k).alive = false
  active : s.active = false
  due : Due s i
  joined : ∀ state statuses expired, s.handler i = .joined state statuses expired →
    Expiring s (some state)
  finishing : ∀ finish outcome, s.handler i = .finishing finish → finish.outcome = some outcome →
    Expiring s finish.held
  cleared : ∀ answer, s.handler i = .finishing (.clear answer) → s.waiters = []

/-- A watcher ends its wait, alone. -/
structure WatcherEnds (k : ℕ) (s : World) : Prop where
  ends : (s.watcher k).ends = true
  handlers : ∀ j, (s.handler j).atRest = true
  watchers : ∀ k', k' ≠ k → (s.watcher k').alive = false
  active : s.active = true
  finishing : ∀ finish outcome, s.watcher k = .finishing finish → finish.outcome = some outcome →
    outcome.completed = false → Expiring s finish.held
  cleared : ∀ answer, s.watcher k = .finishing (.clear answer) → s.waiters = []

/-- The invariant of the waits. -/
inductive Timely (s : World) : Prop where
  | calm (sound : Sound s) (h : Calm s)
  | request (sound : Sound s) (i : ℕ) (h : RequestEnds i s)
  | watcher (sound : Sound s) (k : ℕ) (h : WatcherEnds k s)

variable {awaited request} {s s' : World} {e : Event}

/-! ### What holds at any time -/

theorem Due.mono {i : ℕ} (hd : Due s i) (hdeadline : s'.deadline i = s.deadline i)
    (hnow : s.now ≤ s'.now) : Due s' i := by
  obtain ⟨d, heq, hle⟩ := hd
  exact ⟨d, hdeadline.trans heq, hle.trans hnow⟩

theorem FileSound.mono {now now' : ℕ} {file : Option AwaitMembersState} (h : FileSound now file)
    (hnow : now ≤ now') : FileSound now' file :=
  fun state final hfile hfinal htimeout => (h state final hfile hfinal htimeout).trans hnow

theorem loadState_eq_some {now : ℕ} {file : Option AwaitMembersState} {state : AwaitMembersState}
    (h : loadState now file = some state) : file = some state := (Option.filter_eq_some_iff.mp h).1

theorem FileSound.load {now : ℕ} {file : Option AwaitMembersState} (h : FileSound now file) :
    FileSound now (loadState now file) :=
  fun state final hfile => h state final (loadState_eq_some hfile)

theorem FileSound.of_pending {now : ℕ} {state : AwaitMembersState} (h : state.isPending = true) :
    FileSound now (some state) := by
  intro state' final hfile hfinal
  cases hfile
  rw [AwaitMembersState.isPending, hfinal] at h
  cases h

theorem Sound.step (sound : Sound s) (h : step awaited request s e = some s')
    (hresponses : ∀ i response, (i, response) ∈ s'.responses → response.outcome.completed = false →
      response.backgroundStarted = false → (i, response) ∈ s.responses ∨ Due s' i)
    (hdue : ∀ i response, (i, response) ∈ s.responses → Due s i → Due s' i)
    (hfile : FileSound s'.now s'.file) : Sound s' where
  timedOut i response hmem hcompleted hstarted :=
    (hresponses i response hmem hcompleted hstarted).elim
      (fun hold => hdue i response hold (sound.timedOut i response hold hcompleted hstarted)) id
  file := hfile
  tickets i := (tickets_step h i).trans (sound.tickets i)

/-- A step that answers nobody, and leaves the deadlines and the file. -/
theorem Sound.quiet (sound : Sound s) (h : Await.step awaited request s e = some s')
    (hresponses : s'.responses = s.responses) (hdeadline : s'.deadline = s.deadline)
    (hnow : s.now ≤ s'.now) (hfile : s'.file = s.file ∨ s'.file = loadState s.now s.file) :
    Sound s' := by
  refine sound.step h (fun i response hmem _ _ => .inl (hresponses ▸ hmem))
    (fun i _ _ hd => hd.mono (congrFun hdeadline i) hnow) ?_
  rcases hfile with heq | heq
  · exact heq ▸ sound.file.mono hnow
  · exact heq ▸ sound.file.load.mono hnow

/-- A request that may still get a response has had none. -/
theorem Sound.no_response (sound : Sound s) {i : ℕ} (hi : 1 ≤ (s.handler i).tickets)
    (response : Response) : (i, response) ∉ s.responses := by
  intro hmem
  have hcount : 0 < s.responses.countP fun r => r.1 == i :=
    List.countP_pos_iff.mpr ⟨_, hmem, beq_self_eq_true i⟩
  have htickets := sound.tickets i
  rw [World.tickets] at htickets
  omega

/-- Nor is it waiting. -/
theorem Sound.not_waiting (sound : Sound s) {i : ℕ} (hi : 1 ≤ (s.handler i).tickets) :
    i ∉ s.waiters := by
  intro hmem
  have hcount := List.count_pos_iff.mpr hmem
  have htickets := sound.tickets i
  rw [World.tickets] at htickets
  omega

/-! ### The pending state -/

theorem Current.congr {d : ℕ} (hd : Current s d) (hfile : s'.file = s.file)
    (hnow : s.now ≤ s'.now) : Current s' d := by
  rcases hd with ⟨state, heq, hpending, hdeadline⟩ | ⟨heq, hle⟩
  · exact .inl ⟨state, hfile.trans heq, hpending, hdeadline⟩
  · exact .inr ⟨hfile.trans heq, hle.trans hnow⟩

/-- A load removes the pending state at most when its deadline is long past. -/
theorem Current.load {d : ℕ} (hd : Current s d) (hfile : s'.file = loadState s.now s.file)
    (hnow : s'.now = s.now) : Current s' d := by
  rcases hd with ⟨state, heq, hpending, rfl⟩ | ⟨heq, hle⟩
  · by_cases hstale : isStale s.now state = true
    · refine .inr ⟨?_, ?_⟩
      · rw [hfile, heq]
        simp [loadState, hstale]
      · have hnone : state.finalResponse = none := Option.isNone_iff_eq_none.mp hpending
        rw [isStale, hnone] at hstale
        have hlate := of_decide_eq_true hstale
        rw [hnow]
        omega
    · refine .inl ⟨state, ?_, hpending, rfl⟩
      rw [hfile, heq]
      simp [loadState, hstale]
  · refine .inr ⟨?_, hnow ▸ hle⟩
    rw [hfile, heq]
    rfl

/-- Two deadlines of the pending state. -/
theorem Current.unique {d d' : ℕ} (hd : Current s d) (hd' : Current s d') (hlt : s.now < d) :
    d' = d := by
  rcases hd with ⟨state, heq, -, hdeadline⟩ | ⟨-, hle⟩
  · rcases hd' with ⟨state', heq', -, hdeadline'⟩ | ⟨hnone, -⟩
    · cases heq.symm.trans heq'
      exact hdeadline'.symm.trans hdeadline
    · rw [heq] at hnone
      cases hnone
  · exact absurd hlt (not_lt.mpr hle)

/-- One pending state is past its deadline if another is. -/
theorem Current.le {d d' : ℕ} (hd : Current s d) (hd' : Current s d') (hle : d' ≤ s.now) :
    d ≤ s.now := by
  by_contra hlt
  have heq := hd.unique hd' (not_le.mp hlt)
  exact hlt (heq ▸ hle)

/-- A state that is not past its deadline is there to load. -/
theorem Current.loadPending {d : ℕ} (hd : Current s d) (hlt : s.now < d) :
    ∃ state, loadPending s.now s.file = some state ∧ s.file = some state ∧
      state.deadlineUnixMs = d := by
  rcases hd with ⟨state, heq, hpending, rfl⟩ | ⟨-, hle⟩
  · refine ⟨state, ?_, heq, rfl⟩
    have hnone : state.finalResponse = none := Option.isNone_iff_eq_none.mp hpending
    have hfresh : isStale s.now state = false := by
      rw [isStale, hnone]
      refine decide_eq_false ?_
      omega
    simp [Await.loadPending, loadState, heq, hfresh, hpending]
  · exact absurd hlt (not_lt.mpr hle)

/-! ### Steps while nobody is ending a wait -/

theorem Watcher.held_of_alive {watcher : Watcher} (halive : watcher.alive = true)
    (hends : watcher.ends = false) : ∃ state, watcher.held = some state := by
  cases watcher with
  | absent | exited => cases halive
  | finishing _ => cases hends
  | looping state | unsatisfied state _ | retaining state _ | waiting state _ => exact ⟨state, rfl⟩

theorem Watcher.alive_of_held {watcher : Watcher} {state : AwaitMembersState}
    (h : watcher.held = some state) : watcher.alive = true := by
  cases watcher with
  | absent | exited => cases h
  | _ => rfl

theorem Handler.held_of_atRest {handler : Handler} (h : handler.atRest = true) :
    handler.held = none ∧ handler.ends = false := by
  cases handler with
  | idle | done => exact ⟨rfl, rfl⟩
  | _ => cases h

/-- A request whose handler moves. -/
theorem Calm.handle {i : ℕ} {c : Handler} (hc : Calm s)
    (hh : s'.handler = Function.update s.handler i c) (hw : s'.watcher = s.watcher)
    (hactive : s'.active = s.active) (hwaiters : s'.waiters = s.waiters) (hnow : s'.now = s.now)
    (hdeadline : ∀ j, j ≠ i → s'.deadline j = s.deadline j) (hends : c.ends = false)
    (hplaced : i ∈ s.waiters → s'.deadline i = s.deadline i ∧
      ((∃ state, c = .registered state) ∨ c = .done ∧ s.active = true))
    (hwatched : ∀ k state, (s.watcher k).held = some state → Current s' state.deadlineUnixMs)
    (hothers : ∀ j state, j ≠ i → (s.handler j).held = some state →
      Current s' state.deadlineUnixMs)
    (hheld : ∀ state, c.held = some state → Current s' state.deadlineUnixMs)
    (hjoined : ∀ state, ((∃ statuses expired, c = .joined state statuses expired) ∨
      c = .registered state) → s'.deadline i = some state.deadlineUnixMs)
    (hpending : ∀ persisted statuses, c = .prepared (some persisted) statuses →
      persisted.isPending = true)
    (hwaiting : ∀ j ∈ s.waiters, ∃ d, s.deadline j = some d ∧ Current s' d)
    (hreplay : ∀ state, c = .loaded (some state) → FileSound s.now (some state)) :
    Calm s' where
  handlers := by
    rw [hh]
    exact (Function.forall_update_iff s.handler fun _ h => Handler.ends h = false).mpr
      ⟨hends, fun j _ => hc.handlers j⟩
  watchers := hw ▸ hc.watchers
  one := hw ▸ hc.one
  active := by
    rw [hactive, hw]
    exact hc.active
  watched := hw ▸ hwatched
  handled := by
    rw [hh]
    exact (Function.forall_update_iff s.handler fun _ h => ∀ state, Handler.held h = some state →
      Current s' state.deadlineUnixMs).mpr ⟨hheld, fun j hj state => hothers j state hj⟩
  joined := by
    rw [hh]
    refine (Function.forall_update_iff s.handler fun j h => ∀ state,
      ((∃ statuses expired, h = .joined state statuses expired) ∨ h = .registered state) →
        s'.deadline j = some state.deadlineUnixMs).mpr ⟨hjoined, fun j hj state hstate => ?_⟩
    exact (hdeadline j hj).trans (hc.joined j state hstate)
  pending := by
    rw [hh]
    exact (Function.forall_update_iff s.handler fun _ h => ∀ persisted statuses,
      h = .prepared (some persisted) statuses → persisted.isPending = true).mpr
      ⟨hpending, fun j _ => hc.pending j⟩
  waiting j hj := by
    rw [hwaiters] at hj
    obtain ⟨d, heq, hd⟩ := hwaiting j hj
    refine ⟨d, Eq.trans ?_ heq, hd⟩
    by_cases hji : j = i
    · subst hji
      exact (hplaced hj).1
    · exact hdeadline j hji
  placed := by
    rw [hh, hactive, hwaiters]
    exact (Function.forall_update_iff s.handler fun j h => j ∈ s.waiters →
      (∃ state, h = .registered state) ∨ h = .done ∧ s.active = true).mpr
      ⟨fun hi => (hplaced hi).2, fun j _ => hc.placed j⟩
  replay := by
    rw [hh, hnow]
    exact (Function.forall_update_iff s.handler fun _ h => ∀ state, h = .loaded (some state) →
      FileSound s.now (some state)).mpr ⟨hreplay, fun j _ => hc.replay j⟩

/-- A watcher that moves within its loop. -/
theorem Calm.watch {k : ℕ} {watcher : Watcher} {a : AwaitMembersState} (hc : Calm s)
    (hk : (s.watcher k).held = some a) (hheld : watcher.held = some a)
    (hh : s'.handler = s.handler) (hw : s'.watcher = Function.update s.watcher k watcher)
    (hactive : s'.active = s.active) (hwaiters : s'.waiters ⊆ s.waiters) (hnow : s'.now = s.now)
    (hdeadline : s'.deadline = s.deadline)
    (hcurrent : ∀ d, Current s d → Current s' d) : Calm s' := by
  have hends : watcher.ends = false := by
    cases watcher with
    | finishing _ => cases hheld
    | _ => rfl
  have halive : ∀ k', (s'.watcher k').alive = (s.watcher k').alive := by
    rw [hw]
    refine (Function.forall_update_iff s.watcher
      fun k' w => Watcher.alive w = (s.watcher k').alive).mpr ⟨?_, fun _ _ => rfl⟩
    rw [Watcher.alive_of_held hheld, Watcher.alive_of_held hk]
  exact {
    handlers := hh ▸ hc.handlers
    watchers := by
      rw [hw]
      exact (Function.forall_update_iff s.watcher fun _ w => Watcher.ends w = false).mpr
        ⟨hends, fun j _ => hc.watchers j⟩
    one := fun k₁ k₂ h₁ h₂ => hc.one k₁ k₂ (halive k₁ ▸ h₁) (halive k₂ ▸ h₂)
    active := by
      simp only [halive, hactive]
      exact hc.active
    watched := by
      rw [hw]
      refine (Function.forall_update_iff s.watcher fun _ w => ∀ a, Watcher.held w = some a →
        Current s' a.deadlineUnixMs).mpr ⟨fun st hst => ?_, fun j _ st hst => ?_⟩
      · cases hheld.symm.trans hst
        exact hcurrent _ (hc.watched k _ hk)
      · exact hcurrent _ (hc.watched j st hst)
    handled := fun j st hst => hcurrent _ (hc.handled j st (hh ▸ hst))
    joined := by
      rw [hh, hdeadline]
      exact hc.joined
    pending := hh ▸ hc.pending
    waiting := fun j hj => by
      obtain ⟨d, heq, hd⟩ := hc.waiting j (hwaiters hj)
      exact ⟨d, hdeadline ▸ heq, hcurrent d hd⟩
    placed := fun j hj => by
      rw [hh, hactive]
      exact hc.placed j (hwaiters hj)
    replay := by
      rw [hh, hnow]
      exact hc.replay }

/-- What somebody else works with is there to load. -/
theorem Calm.waiter {i j : ℕ} (hc : Calm s) (hp : Prompt s i) (hji : j ≠ i) (hj : j ∈ s.waiters) :
    ∃ d, s.now < d ∧ Current s d ∧ s.deadline j = some d := by
  have hholder : ∃ d, s.now < d ∧ Current s d := by
    rcases hc.placed j hj with ⟨state, hregistered⟩ | ⟨-, hactive⟩
    · have hheld : (s.handler j).held = some state := by rw [hregistered]; rfl
      exact ⟨_, hp.2 j state hji hheld, hc.handled j state hheld⟩
    · obtain ⟨k, halive⟩ := hc.active.mp hactive
      obtain ⟨state, hheld⟩ := Watcher.held_of_alive halive (hc.watchers k)
      exact ⟨_, hp.1 k state hheld, hc.watched k state hheld⟩
  obtain ⟨d, hlt, hd⟩ := hholder
  obtain ⟨d', heq, hd'⟩ := hc.waiting j hj
  exact ⟨d, hlt, hd, (hd.unique hd' hlt) ▸ heq⟩

/-- A step that leaves the actors, the waiters and the file. -/
theorem Calm.env (hc : Calm s) (hh : s'.handler = s.handler) (hw : s'.watcher = s.watcher)
    (hactive : s'.active = s.active) (hwaiters : s'.waiters = s.waiters) (hfile : s'.file = s.file)
    (hnow : s.now ≤ s'.now) (hdeadline : s'.deadline = s.deadline) : Calm s' where
  handlers := hh ▸ hc.handlers
  watchers := hw ▸ hc.watchers
  one := hw ▸ hc.one
  active := by
    rw [hactive, hw]
    exact hc.active
  watched k state hk := (hc.watched k state (hw ▸ hk)).congr hfile hnow
  handled j state hj := (hc.handled j state (hh ▸ hj)).congr hfile hnow
  joined := by
    rw [hh, hdeadline]
    exact hc.joined
  pending := hh ▸ hc.pending
  waiting j hj := by
    obtain ⟨d, heq, hd⟩ := hc.waiting j (hwaiters ▸ hj)
    exact ⟨d, hdeadline ▸ heq, hd.congr hfile hnow⟩
  placed := by
    rw [hh, hactive, hwaiters]
    exact hc.placed
  replay j state hj := (hc.replay j state (hh ▸ hj)).mono hnow

/-- Nobody does anything, and nobody waits. -/
theorem Calm.of_rest (hrest : ∀ j, (s.handler j).atRest = true)
    (halive : ∀ k, (s.watcher k).alive = false) (hactive : s.active = false)
    (hwaiters : s.waiters = []) : Calm s where
  handlers j := (Handler.held_of_atRest (hrest j)).2
  watchers k := by
    have hk := halive k
    cases hwatcher : s.watcher k with
    | finishing finish =>
        rw [hwatcher] at hk
        cases hk
    | _ => rfl
  one k _ hk := by
    rw [halive k] at hk
    cases hk
  active := by
    rw [hactive]
    refine ⟨nofun, ?_⟩
    rintro ⟨k, hk⟩
    rw [halive k] at hk
    cases hk
  watched k state hk := by
    have hk := Watcher.alive_of_held hk
    rw [halive k] at hk
    cases hk
  handled j state hj := by
    rw [(Handler.held_of_atRest (hrest j)).1] at hj
    cases hj
  joined j state hj := by
    have hj' := hrest j
    rcases hj with ⟨_, _, hj⟩ | hj
    · rw [hj] at hj'
      cases hj'
    · rw [hj] at hj'
      cases hj'
  pending j _ _ hj := by
    have hj' := hrest j
    rw [hj] at hj'
    cases hj'
  waiting j hj := by
    rw [hwaiters] at hj
    cases hj
  placed j hj := by
    rw [hwaiters] at hj
    cases hj
  replay j _ hj := by
    have hj' := hrest j
    rw [hj] at hj'
    cases hj'

/-- A request loads the file. -/
theorem Calm.load {i : ℕ} (sound : Sound s) (hc : Calm s) (hi : s.handler i = .idle) :
    Calm { s.setHandler i (.loaded (loadState s.now s.file)) with file := loadState s.now s.file } := by
  have hnot : i ∉ s.waiters := sound.not_waiting (by rw [hi]; exact le_rfl)
  refine hc.handle rfl rfl rfl rfl rfl (fun _ _ => rfl) rfl (fun hmem => absurd hmem hnot)
    (fun k state hk => (hc.watched k state hk).load rfl rfl)
    (fun j state _ hj => (hc.handled j state hj).load rfl rfl) (fun state hstate => ?_) nofun nofun
    (fun j hj => ?_) (fun state hstate => ?_)
  · obtain ⟨heq, hpending⟩ := Option.filter_eq_some_iff.mp hstate
    exact .inl ⟨state, heq, hpending, rfl⟩
  · obtain ⟨d, heq, hd⟩ := hc.waiting j hj
    exact ⟨d, heq, hd.load rfl rfl⟩
  · exact (Handler.loaded.inj hstate) ▸ sound.file.load

/-- A request looks at the members. -/
theorem Calm.read {i : ℕ} {persisted : Option AwaitMembersState} (sound : Sound s) (hc : Calm s)
    (hi : s.handler i = .loaded persisted) : Calm (readStep awaited s i persisted) := by
  have hnot : i ∉ s.waiters := sound.not_waiting (by rw [hi]; exact le_rfl)
  have hothers : ∀ j, j ≠ i → ∀ d, Function.update s.deadline i d j = s.deadline j :=
    fun j hj d => Function.update_of_ne hj d s.deadline
  unfold readStep
  dsimp only
  split
  · refine hc.handle (c := .done) rfl rfl rfl rfl rfl (fun j hj => hothers j hj _) rfl
      (fun hmem => absurd hmem hnot) (fun k state hk => hc.watched k state hk)
      (fun j state _ hj => hc.handled j state hj) nofun ?_ nofun (fun j hj => hc.waiting j hj) nofun
    rintro state (⟨_, _, hstate⟩ | hstate)
    · cases hstate
    · cases hstate
  · refine hc.handle rfl rfl rfl rfl rfl (fun _ _ => rfl) rfl
      (fun hmem => absurd hmem hnot) (fun k state hk => hc.watched k state hk)
      (fun j state _ hj => hc.handled j state hj) (fun state hstate => ?_) ?_ ?_
      (fun j hj => hc.waiting j hj) nofun
    · refine hc.handled i state ?_
      rw [hi]
      simp only [Handler.held] at hstate ⊢
      split at hstate
      · cases hstate
      · rename_i hfinal
        subst hstate
        simpa [AwaitMembersState.isPending] using hfinal
    · rintro state (⟨_, _, hstate⟩ | hstate)
      · cases hstate
      · cases hstate
    · intro state statuses hstate
      obtain ⟨hstate, -⟩ := Handler.prepared.inj hstate
      split at hstate
      · cases hstate
      · rename_i hfinal
        subst hstate
        simpa [AwaitMembersState.isPending] using hfinal

/-- A timeout that is replayed was due. -/
theorem Sound.read {i : ℕ} {persisted : Option AwaitMembersState} (sound : Sound s) (hc : Calm s)
    (hi : s.handler i = .loaded persisted)
    (h : Await.step awaited request s (.read i) = some (readStep awaited s i persisted)) :
    Sound (readStep awaited s i persisted) := by
  have hresponse := sound.no_response (i := i) (by rw [hi]; exact le_rfl)
  unfold readStep at h ⊢
  dsimp only at h ⊢
  split
  · rename_i hsatisfies
    rw [if_pos hsatisfies] at h
    refine sound.step h (fun j response hmem hcompleted hstarted => ?_) (fun j response hmem hd => ?_)
      sound.file
    · rcases List.mem_append.mp hmem with hmem | hmem
      · exact .inl hmem
      obtain ⟨rfl, rfl⟩ := Prod.mk.inj (List.mem_singleton.mp hmem)
      refine .inr ?_
      cases hfinal : persisted.bind AwaitMembersState.finalResponse with
      | none =>
          simp only [hfinal, Option.map_none, Option.getD_none, satisfiedOutcome] at hcompleted
          split at hcompleted
          · cases hcompleted
          · cases hcompleted
      | some final =>
          simp only [hfinal, Option.map_some, Option.getD_some] at hcompleted
          obtain ⟨state, hstate, hfinal⟩ := Option.bind_eq_some_iff.mp hfinal
          subst hstate
          exact ⟨state.deadlineUnixMs, Function.update_self _ _ _,
            hc.replay _ state hi state final rfl hfinal hcompleted⟩
    · have hji : j ≠ i := by
        rintro rfl
        exact hresponse response hmem
      exact hd.mono (Function.update_of_ne hji _ _) le_rfl
  · rename_i hsatisfies
    rw [if_neg hsatisfies] at h
    exact sound.quiet h rfl rfl le_rfl (.inl rfl)

variable (request) in
/-- The state that a request joins is the pending state in the file then, and everybody else works
with it. -/
theorem Calm.join {i : ℕ} {persisted : Option AwaitMembersState}
    {statuses : List AwaitedMemberStatus} (hc : Calm s)
    (hi : s.handler i = .prepared persisted statuses) :
    Current (ensureStep request s i persisted statuses)
        (joinPending (request i) s persisted).1.deadlineUnixMs ∧
      ∀ d, Current s d → s.now < d → d = (joinPending (request i) s persisted).1.deadlineUnixMs := by
  have hwritten : ∀ state : AwaitMembersState, state.isPending = true →
      (state.withPrefs (request i)).isPending = true := fun _ h => h
  cases persisted with
  | some state =>
      have hcurrent : Current s state.deadlineUnixMs := hc.handled i state (by rw [hi]; rfl)
      refine ⟨?_, fun d hd hlt => (hd.unique hcurrent hlt).symm⟩
      by_cases hprefs : state.withPrefs (request i) = state
      · exact hcurrent.congr (if_pos hprefs) le_rfl
      · exact .inl ⟨_, if_neg hprefs, hwritten state (hc.pending i state statuses hi), rfl⟩
  | none =>
      cases hload : loadPending s.now s.file with
      | some state =>
          obtain ⟨hstate, hpending⟩ := Option.filter_eq_some_iff.mp hload
          have hjoin : joinPending (request i) s none = (state, loadState s.now s.file) := by
            simp only [joinPending, hload]
          rw [hjoin]
          refine ⟨.inl ?_, fun d hd hlt => ?_⟩
          · by_cases hprefs : state.withPrefs (request i) = state
            · refine ⟨state, ?_, hpending, rfl⟩
              simp only [ensureStep, hjoin, if_pos hprefs]
              exact hstate
            · refine ⟨state.withPrefs (request i), ?_, hwritten state hpending, rfl⟩
              simp only [ensureStep, hjoin, if_neg hprefs]
          · obtain ⟨state', hload', -, rfl⟩ := hd.loadPending hlt
            rw [Option.some.inj (hload.symm.trans hload')]
      | none =>
          have hjoin : joinPending (request i) s none =
              ((request i).pendingState s.now, some ((request i).pendingState s.now)) := by
            simp only [joinPending, hload]
          rw [hjoin]
          refine ⟨.inl ⟨(request i).pendingState s.now, ?_, rfl, rfl⟩, fun d hd hlt => ?_⟩
          · simp only [ensureStep, hjoin]
            exact if_pos rfl
          · obtain ⟨state', hload', -⟩ := hd.loadPending hlt
            rw [hload] at hload'
            cases hload'

variable (request) in
/-- It is pending, and what is in the file stays sound. -/
theorem Calm.join_pending {i : ℕ} {persisted : Option AwaitMembersState}
    {statuses : List AwaitedMemberStatus} (sound : Sound s) (hc : Calm s)
    (hi : s.handler i = .prepared persisted statuses) :
    (joinPending (request i) s persisted).1.isPending = true ∧
      FileSound s.now (joinPending (request i) s persisted).2 := by
  cases persisted with
  | some state => exact ⟨hc.pending i state statuses hi, sound.file⟩
  | none =>
      cases hload : loadPending s.now s.file with
      | some state =>
          simp only [joinPending, hload]
          exact ⟨(Option.filter_eq_some_iff.mp hload).2, sound.file.load⟩
      | none =>
          simp only [joinPending, hload]
          exact ⟨rfl, .of_pending rfl⟩

theorem Sound.ensure {i : ℕ} {persisted : Option AwaitMembersState}
    {statuses : List AwaitedMemberStatus} (sound : Sound s) (hc : Calm s)
    (hi : s.handler i = .prepared persisted statuses)
    (h : Await.step awaited request s (.ensure i) =
      some (ensureStep request s i persisted statuses)) :
    Sound (ensureStep request s i persisted statuses) := by
  have hresponse := sound.no_response (i := i) (by rw [hi]; exact le_rfl)
  obtain ⟨hpending, hfile⟩ := hc.join_pending request sound hi
  refine sound.step h (fun _ _ hmem _ _ => .inl hmem) (fun j response hmem hd => ?_) ?_
  · have hji : j ≠ i := by
      rintro rfl
      exact hresponse response hmem
    exact hd.mono (Function.update_of_ne hji _ _) le_rfl
  · simp only [ensureStep]
    split
    · exact hfile
    · exact .of_pending hpending

/-- A request joins a pending state before its deadline. -/
theorem Calm.ensure {i : ℕ} {persisted : Option AwaitMembersState}
    {statuses : List AwaitedMemberStatus} (sound : Sound s) (hc : Calm s) (hp : Prompt s i)
    (hi : s.handler i = .prepared persisted statuses)
    (hlt : s.now < (joinPending (request i) s persisted).1.deadlineUnixMs) :
    Calm (ensureStep request s i persisted statuses) := by
  have hnot : i ∉ s.waiters := sound.not_waiting (by rw [hi]; exact le_rfl)
  obtain ⟨hcurrent, hunique⟩ := hc.join request hi
  have hsame : ∀ d, Current s d → s.now < d →
      Current (ensureStep request s i persisted statuses) d :=
    fun d hd hlt => hunique d hd hlt ▸ hcurrent
  have hjoined : afterJoin (request i) statuses
      ((joinPending (request i) s persisted).1.withPrefs (request i)) false = .joined
        ((joinPending (request i) s persisted).1.withPrefs (request i)) statuses false := by
    unfold afterJoin
    rw [Bool.and_false]
    rfl
  refine hc.handle (i := i) (c := .joined
    ((joinPending (request i) s persisted).1.withPrefs (request i)) statuses false) ?_ rfl rfl rfl rfl
    (fun j hj => Function.update_of_ne hj _ _) rfl (fun hmem => absurd hmem hnot)
    (fun k state hk => hsame _ (hc.watched k state hk) (hp.1 k state hk))
    (fun j state hj hstate => hsame _ (hc.handled j state hstate) (hp.2 j state hj hstate))
    (fun state hstate => ?_) ?_ nofun (fun j hj => ?_) nofun
  · rw [← hjoined, ← decide_eq_false (not_le.mpr hlt)]
    rfl
  · cases hstate
    exact hcurrent
  · rintro state (⟨_, _, hstate⟩ | hstate)
    · cases hstate
      exact Function.update_self _ _ _
    · cases hstate
  · have hji : j ≠ i := by
      rintro rfl
      exact hnot hj
    obtain ⟨d, hlt, hd, heq⟩ := hc.waiter hp hji hj
    exact ⟨d, heq, hsame d hd hlt⟩

/-- A request joins an expired state: nobody else waits. -/
theorem RequestEnds.ensure {i : ℕ} {persisted : Option AwaitMembersState}
    {statuses : List AwaitedMemberStatus} (sound : Sound s) (hc : Calm s) (hp : Prompt s i)
    (hi : s.handler i = .prepared persisted statuses)
    (hle : (joinPending (request i) s persisted).1.deadlineUnixMs ≤ s.now)
    (hrest : ∀ j, j ≠ i → (s.handler j).atRest = true) :
    RequestEnds i (ensureStep request s i persisted statuses) := by
  have hnot : i ∉ s.waiters := sound.not_waiting (by rw [hi]; exact le_rfl)
  obtain ⟨hcurrent, hunique⟩ := hc.join request hi
  have hdead : ∀ k, (s.watcher k).alive = false := by
    intro k
    refine Bool.eq_false_iff.mpr fun halive => ?_
    obtain ⟨state, hheld⟩ := Watcher.held_of_alive halive (hc.watchers k)
    have hlt := hp.1 k state hheld
    rw [hunique _ (hc.watched k state hheld) hlt] at hlt
    exact absurd hle (not_le.mpr hlt)
  have hinactive : s.active = false := by
    refine Bool.eq_false_iff.mpr fun hactive => ?_
    obtain ⟨k, halive⟩ := hc.active.mp hactive
    rw [hdead k] at halive
    cases halive
  have hnobody : ∀ j, j ∉ s.waiters := by
    intro j hj
    have hji : j ≠ i := by
      rintro rfl
      exact hnot hj
    rcases hc.placed j hj with ⟨state, hregistered⟩ | ⟨-, hactive⟩
    · have hj := hrest j hji
      rw [hregistered] at hj
      cases hj
    · rw [hinactive] at hactive
      cases hactive
  have hexpiring : ∀ held, (∀ state, held = some state → state.deadlineUnixMs ≤ s.now) →
      Expiring (ensureStep request s i persisted statuses) held := fun held hheld =>
    { waiting := fun j hj => absurd hj (hnobody j)
      file := fun state hstate hpending => by
        rcases hcurrent with ⟨state', hstate', -, hdeadline⟩ | ⟨hnone, -⟩
        · cases hstate.symm.trans hstate'
          exact hdeadline.trans_le hle
        · rw [hnone] at hstate
          cases hstate
      held := hheld }
  have hafter : (ensureStep request s i persisted statuses).handler i =
      if (request i).background then
        .finishing (.persist ((joinPending (request i) s persisted).1.withPrefs (request i)) true true
          (timeoutOutcome statuses))
      else .joined ((joinPending (request i) s persisted).1.withPrefs (request i)) statuses true := by
    have hself : (ensureStep request s i persisted statuses).handler i = afterJoin (request i) statuses
      ((joinPending (request i) s persisted).1.withPrefs (request i))
        (decide ((joinPending (request i) s persisted).1.deadlineUnixMs ≤ s.now)) :=
      Function.update_self _ _ _
    rw [hself, decide_eq_true hle, afterJoin, Bool.and_true]
  exact {
    ends := by
      rw [hafter]
      split
      · rfl
      · rfl
    handlers := fun j hj => by
      have hsame : (ensureStep request s i persisted statuses).handler j = s.handler j :=
        Function.update_of_ne hj _ _
      rw [hsame]
      exact hrest j hj
    watchers := hdead
    active := hinactive
    due := ⟨_, Function.update_self _ _ _, hle⟩
    joined := fun state sts expired hstate => by
      refine hexpiring _ fun st hst => ?_
      rw [hafter] at hstate
      split at hstate
      · cases hstate
      · cases hstate
        cases hst
        exact hle
    finishing := fun finish outcome hfinish _ => by
      refine hexpiring _ fun st hst => ?_
      rw [hafter] at hfinish
      split at hfinish
      · cases hfinish
        cases hst
        exact hle
      · cases hfinish
    cleared := fun answer hclear => by
      rw [hafter] at hclear
      split at hclear
      · cases hclear
      · cases hclear }

/-- A request registers its waiter. -/
theorem Calm.register {i : ℕ} {state : AwaitMembersState} {statuses : List AwaitedMemberStatus}
    (sound : Sound s) (hc : Calm s) (hi : s.handler i = .joined state statuses false) :
    Calm { s.setHandler i (.registered state) with waiters := s.waiters ++ [i] } := by
  have hnot : i ∉ s.waiters := sound.not_waiting (by rw [hi]; exact le_rfl)
  have hcurrent : Current s state.deadlineUnixMs := hc.handled i state (by rw [hi]; rfl)
  have hdeadline : s.deadline i = some state.deadlineUnixMs :=
    hc.joined i state (.inl ⟨statuses, false, hi⟩)
  have hmoved : Calm (s.setHandler i (.registered state)) := by
    refine hc.handle rfl rfl rfl rfl rfl (fun _ _ => rfl) rfl (fun hmem => absurd hmem hnot)
      (fun k st hk => hc.watched k st hk) (fun j st _ hj => hc.handled j st hj)
      (fun st hst => ?_) ?_ nofun (fun j hj => hc.waiting j hj) nofun
    · cases hst
      exact hcurrent
    · rintro st (⟨_, _, hst⟩ | hst)
      · cases hst
      · cases hst
        exact hdeadline
  exact {
    hmoved with
    waiting := fun j hj => by
      rcases List.mem_append.mp hj with hj | hj
      · exact hmoved.waiting j hj
      · exact ⟨_, (List.mem_singleton.mp hj).symm ▸ hdeadline, hcurrent⟩
    placed := fun j hj => by
      rcases List.mem_append.mp hj with hj | hj
      · exact hmoved.placed j hj
      · rw [List.mem_singleton.mp hj]
        exact .inl ⟨state, Function.update_self _ _ _⟩ }

/-- A request finds the key active, or spawns the watcher. -/
theorem Calm.mark {i : ℕ} {a : AwaitMembersState} (hc : Calm s)
    (hi : (s.handler i).held = some a) : Calm (markStep s i a) := by
  have hcurrent : Current s a.deadlineUnixMs := hc.handled i a hi
  have hdone : ∀ active, active = true → i ∈ s.waiters →
      (∃ st, Handler.done = .registered st) ∨ Handler.done = .done ∧ active = true :=
    fun _ hactive _ => .inr ⟨rfl, hactive⟩
  have hnone : ∀ st, ¬ ((∃ statuses expired, Handler.done = .joined st statuses expired) ∨
      Handler.done = .registered st) := by
    rintro st (⟨_, _, hst⟩ | hst)
    · cases hst
    · cases hst
  unfold markStep
  split
  · rename_i hactive
    exact hc.handle rfl rfl rfl rfl rfl (fun _ _ => rfl) rfl
      (fun hmem => ⟨rfl, hdone _ hactive hmem⟩) (fun k st hk => hc.watched k st hk)
      (fun j st _ hj => hc.handled j st hj) nofun (fun st hst => absurd hst (hnone st)) nofun
      (fun j hj => hc.waiting j hj) nofun
  · rename_i hinactive
    have hdead : ∀ k, (s.watcher k).alive = false :=
      fun k => Bool.eq_false_iff.mpr fun halive => hinactive (hc.active.mpr ⟨k, halive⟩)
    have halone : ∀ k, (Function.update s.watcher i (.looping a) k).alive = true → k = i := by
      refine (Function.forall_update_iff s.watcher
        fun k w => Watcher.alive w = true → k = i).mpr ⟨fun _ => rfl, fun k _ halive => ?_⟩
      rw [hdead k] at halive
      cases halive
    exact {
      handlers := (Function.forall_update_iff s.handler fun _ h => Handler.ends h = false).mpr
        ⟨rfl, fun j _ => hc.handlers j⟩
      watchers := (Function.forall_update_iff s.watcher fun _ w => Watcher.ends w = false).mpr
        ⟨rfl, fun k _ => hc.watchers k⟩
      one := fun k k' hk hk' => (halone k hk).trans (halone k' hk').symm
      active := iff_of_true rfl ⟨i, by simp [World.setWatcher, Watcher.alive]⟩
      watched := (Function.forall_update_iff s.watcher fun _ w => ∀ st, Watcher.held w = some st →
        Current s st.deadlineUnixMs).mpr ⟨fun st hst => by cases hst; exact hcurrent,
          fun k _ st hk => hc.watched k st hk⟩
      handled := (Function.forall_update_iff s.handler fun _ h => ∀ st, Handler.held h = some st →
        Current s st.deadlineUnixMs).mpr ⟨nofun, fun j _ st hj => hc.handled j st hj⟩
      joined := (Function.forall_update_iff s.handler fun j h => ∀ st,
        ((∃ statuses expired, h = .joined st statuses expired) ∨ h = .registered st) →
          s.deadline j = some st.deadlineUnixMs).mpr
        ⟨fun st hst => absurd hst (hnone st), fun j _ => hc.joined j⟩
      pending := (Function.forall_update_iff s.handler fun _ h => ∀ persisted statuses,
        h = .prepared (some persisted) statuses → persisted.isPending = true).mpr
        ⟨nofun, fun j _ => hc.pending j⟩
      waiting := hc.waiting
      placed := (Function.forall_update_iff s.handler fun j h => j ∈ s.waiters →
        (∃ st, h = .registered st) ∨ h = .done ∧ true = true).mpr
        ⟨hdone true rfl, fun j _ hj => (hc.placed j hj).imp_right fun hplaced => ⟨hplaced.1, rfl⟩⟩
      replay := (Function.forall_update_iff s.handler fun _ h => ∀ st, h = .loaded (some st) →
        FileSound s.now (some st)).mpr ⟨nofun, fun j _ => hc.replay j⟩ }

/-- Marking leaves the file, the responses and the deadlines. -/
theorem markStep_same (s : World) (i : ℕ) (state : AwaitMembersState) :
    (markStep s i state).file = s.file ∧ (markStep s i state).responses = s.responses ∧
      (markStep s i state).deadline = s.deadline ∧ (markStep s i state).now = s.now := by
  unfold markStep
  split
  · exact ⟨rfl, rfl, rfl, rfl⟩
  · exact ⟨rfl, rfl, rfl, rfl⟩

/-! ### The end of a wait -/

/-- A watcher comes to the end of its wait, while no request is between its steps. -/
theorem WatcherEnds.of_calm {k : ℕ} {finish : Finish} {w : List ℕ} (hc : Calm s)
    (hrest : ∀ j, (s.handler j).atRest = true) (hk : (s.watcher k).alive = true)
    (hfinishing : ∀ outcome, finish.outcome = some outcome → outcome.completed = false →
      Expiring { s.setWatcher k (.finishing finish) with waiters := w } finish.held)
    (hcleared : ∀ answer, finish = .clear answer → w = []) :
    WatcherEnds k { s.setWatcher k (.finishing finish) with waiters := w } := by
  have hself : (s.setWatcher k (.finishing finish)).watcher k = .finishing finish :=
    Function.update_self _ _ _
  exact {
    ends := congrArg Watcher.ends hself
    handlers := hrest
    watchers := fun k' hk' => by
      have hsame : (s.setWatcher k (.finishing finish)).watcher k' = s.watcher k' :=
        Function.update_of_ne hk' _ _
      refine (congrArg Watcher.alive hsame).trans (Bool.eq_false_iff.mpr fun halive => ?_)
      exact hk' (hc.one k' k halive hk)
    active := hc.active.mpr ⟨k, hk⟩
    finishing := fun finish' outcome hfinish houtcome => by
      cases hself.symm.trans hfinish
      exact hfinishing outcome houtcome
    cleared := fun answer hclear => by
      cases hself.symm.trans hclear
      exact hcleared answer rfl }

/-- The deadline of a watcher passes. -/
theorem Calm.expiring {k : ℕ} {state : AwaitMembersState} (hc : Calm s)
    (hk : (s.watcher k).held = some state) (hd : state.deadlineUnixMs ≤ s.now) :
    Expiring s (some state) where
  waiting j hj := by
    obtain ⟨d, heq, hcurrent⟩ := hc.waiting j hj
    exact ⟨d, heq, hcurrent.le (hc.watched k state hk) hd⟩
  file state' hfile hpending :=
    Current.le (.inl ⟨state', hfile, hpending, rfl⟩) (hc.watched k state hk) hd
  held state' hheld := by
    cases hheld
    exact hd

/-- What is written at the end of a wait. -/
def Finish.written (s : World) (state : AwaitMembersState) (refresh : Bool) : AwaitMembersState :=
  if refresh then (loadPending s.now s.file).getD state else state

theorem Expiring.written {state : AwaitMembersState} {refresh : Bool}
    (hexpiring : Expiring s (some state)) : (Finish.written s state refresh).deadlineUnixMs ≤ s.now := by
  unfold Finish.written
  split
  · cases hload : loadPending s.now s.file with
    | none => exact hexpiring.held state rfl
    | some state' =>
        obtain ⟨hstate, hpending⟩ := Option.filter_eq_some_iff.mp hload
        exact hexpiring.file state' (loadState_eq_some hstate) hpending
  · exact hexpiring.held state rfl

theorem Sound.persist {actor : Actor} {state : AwaitMembersState} {refresh own : Bool}
    {outcome : Outcome} (sound : Sound s)
    (h : Await.step awaited request s (.finish actor) =
      some (finishStep s actor (.persist state refresh own outcome)))
    (hexpiring : outcome.completed = false → Expiring s (some state)) :
    Sound (finishStep s actor (.persist state refresh own outcome)) := by
  have hsame : (finishStep s actor (.persist state refresh own outcome)).deadline = s.deadline ∧
      (finishStep s actor (.persist state refresh own outcome)).responses = s.responses ∧
        (finishStep s actor (.persist state refresh own outcome)).now = s.now := by
    cases actor with
    | handler i | watcher i => exact ⟨rfl, rfl, rfl⟩
  refine sound.step h (fun _ _ hmem _ _ => .inl (hsame.2.1 ▸ hmem))
    (fun j _ _ hd => hd.mono (congrFun hsame.1 j) hsame.2.2.symm.le) ?_
  intro state' final hfile hfinal hcompleted
  cases hfile
  cases hfinal
  exact (hexpiring hcompleted).written.trans hsame.2.2.symm.le

theorem Sound.take {actor : Actor} {own : Bool} {outcome : Outcome} (sound : Sound s)
    (h : Await.step awaited request s (.finish actor) = some (finishStep s actor (.take own outcome)))
    (hdue : outcome.completed = false → ∀ j ∈ s.waiters, Due s j) :
    Sound (finishStep s actor (.take own outcome)) := by
  have hsame : (finishStep s actor (.take own outcome)).deadline = s.deadline ∧
      (finishStep s actor (.take own outcome)).file = s.file ∧
        (finishStep s actor (.take own outcome)).now = s.now := by
    cases actor with
    | handler i | watcher i => exact ⟨rfl, rfl, rfl⟩
  have hkept : ∀ j, Due s j → Due (finishStep s actor (.take own outcome)) j :=
    fun j hd => hd.mono (congrFun hsame.1 j) hsame.2.2.symm.le
  refine sound.step h (fun i response hmem hcompleted _ => ?_) (fun j _ _ hd => hkept j hd) ?_
  · rcases List.mem_append.mp hmem with hmem | hmem
    · exact .inl hmem
    obtain ⟨j, hj, heq⟩ := List.mem_map.mp hmem
    obtain ⟨rfl, rfl⟩ := Prod.mk.inj heq
    exact .inr (hkept j (hdue hcompleted j hj))
  · rw [hsame.2.1, hsame.2.2]
    exact sound.file

theorem Expiring.persist {actor : Actor} {state : AwaitMembersState} {refresh own : Bool}
    {outcome : Outcome} (hwaiting : ∀ j ∈ s.waiters, Due s j) :
    Expiring (finishStep s actor (.persist state refresh own outcome)) none where
  waiting := by
    cases actor with
    | handler i | watcher i => exact hwaiting
  file state' hfile hpending := by
    cases hfile
    cases hpending
  held := nofun

theorem Expiring.env {held : Option AwaitMembersState} (hexpiring : Expiring s held)
    (hwaiters : s'.waiters = s.waiters) (hfile : s'.file = s.file) (hnow : s.now ≤ s'.now)
    (hdeadline : s'.deadline = s.deadline) : Expiring s' held where
  waiting j hj := (hexpiring.waiting j (hwaiters ▸ hj)).mono (congrFun hdeadline j) hnow
  file state hstate hpending := (hexpiring.file state (hfile ▸ hstate) hpending).trans hnow
  held state hheld := (hexpiring.held state hheld).trans hnow

/-- Only the request itself is between its steps. -/
theorem RequestEnds.eq {i j : ℕ} (hr : RequestEnds i s) (hj : (s.handler j).atRest = false) :
    j = i := by
  by_contra hne
  rw [hr.handlers j hne] at hj
  cases hj

theorem RequestEnds.env {i : ℕ} (hr : RequestEnds i s) (hh : s'.handler = s.handler)
    (hw : s'.watcher = s.watcher) (hactive : s'.active = s.active)
    (hwaiters : s'.waiters = s.waiters) (hfile : s'.file = s.file) (hnow : s.now ≤ s'.now)
    (hdeadline : s'.deadline = s.deadline) : RequestEnds i s' where
  ends := hh ▸ hr.ends
  handlers := hh ▸ hr.handlers
  watchers := hw ▸ hr.watchers
  active := hactive.trans hr.active
  due := hr.due.mono (congrFun hdeadline i) hnow
  joined state statuses expired hi :=
    (hr.joined state statuses expired (hh ▸ hi)).env hwaiters hfile hnow hdeadline
  finishing finish outcome hi houtcome :=
    (hr.finishing finish outcome (hh ▸ hi) houtcome).env hwaiters hfile hnow hdeadline
  cleared answer hi := hwaiters.trans (hr.cleared answer (hh ▸ hi))

/-- The request goes on to the next step of the end. -/
theorem RequestEnds.move {i : ℕ} {f : Finish} (hr : RequestEnds i s)
    (hh : s'.handler = Function.update s.handler i (.finishing f)) (hw : s'.watcher = s.watcher)
    (hactive : s'.active = s.active) (hnow : s'.now = s.now) (hdeadline : s'.deadline = s.deadline)
    (hfinishing : ∀ outcome, f.outcome = some outcome → Expiring s' f.held)
    (hcleared : ∀ answer, f = .clear answer → s'.waiters = []) : RequestEnds i s' := by
  have hself : s'.handler i = .finishing f := by
    rw [hh]
    exact Function.update_self _ _ _
  exact {
    ends := congrArg Handler.ends hself
    handlers := fun j hj => by
      rw [hh, Function.update_of_ne hj]
      exact hr.handlers j hj
    watchers := hw ▸ hr.watchers
    active := hactive.trans hr.active
    due := hr.due.mono (congrFun hdeadline i) hnow.symm.le
    joined := fun state statuses expired hi => by
      rw [hself] at hi
      cases hi
    finishing := fun finish' outcome hi houtcome => by
      cases hself.symm.trans hi
      exact hfinishing outcome houtcome
    cleared := fun answer hi => by
      cases hself.symm.trans hi
      exact hcleared answer rfl }

/-- The request takes the next step of the end. -/
theorem RequestEnds.finish {i : ℕ} {finish : Finish} (sound : Sound s) (hr : RequestEnds i s)
    (hi : s.handler i = .finishing finish)
    (h : step awaited request s (.finish (.handler i)) =
      some (finishStep s (.handler i) finish)) : Timely (finishStep s (.handler i) finish) := by
  cases finish with
  | persist state refresh own outcome =>
      have hexpiring := hr.finishing _ outcome hi rfl
      refine .request (sound.persist h fun _ => hexpiring) i ?_
      refine hr.move (f := .take own outcome) rfl rfl rfl rfl rfl (fun _ _ => ?_) nofun
      exact .persist hexpiring.waiting
  | take own outcome =>
      have hexpiring := hr.finishing _ outcome hi rfl
      refine .request (sound.take h fun _ => hexpiring.waiting) i ?_
      exact hr.move (f := .clear (if own then some outcome else none)) rfl rfl rfl rfl rfl nofun
        fun _ _ => rfl
  | clear answer =>
      have hrest : ∀ j, (Function.update s.handler i .done j).atRest = true :=
        (Function.forall_update_iff s.handler fun _ h => Handler.atRest h = true).mpr
          ⟨rfl, hr.handlers⟩
      have hwaiters := hr.cleared answer hi
      cases answer with
      | none =>
          exact .calm (sound.quiet h rfl rfl le_rfl (.inl rfl))
            (.of_rest hrest hr.watchers rfl hwaiters)
      | some outcome =>
          refine .calm (sound.step h (fun j response hmem _ _ => ?_)
            (fun j _ _ hd => hd.mono rfl le_rfl) sound.file) (.of_rest hrest hr.watchers rfl hwaiters)
          rcases List.mem_append.mp hmem with hmem | hmem
          · exact .inl hmem
          · obtain ⟨rfl, -⟩ := Prod.mk.inj (List.mem_singleton.mp hmem)
            exact .inr (hr.due.mono rfl le_rfl)

theorem WatcherEnds.env {k : ℕ} (hw : WatcherEnds k s) (hh : s'.handler = s.handler)
    (hwatcher : s'.watcher = s.watcher) (hactive : s'.active = s.active)
    (hwaiters : s'.waiters = s.waiters) (hfile : s'.file = s.file) (hnow : s.now ≤ s'.now)
    (hdeadline : s'.deadline = s.deadline) : WatcherEnds k s' where
  ends := hwatcher ▸ hw.ends
  handlers := hh ▸ hw.handlers
  watchers := hwatcher ▸ hw.watchers
  active := hactive.trans hw.active
  finishing finish outcome hk houtcome hcompleted :=
    (hw.finishing finish outcome (hwatcher ▸ hk) houtcome hcompleted).env hwaiters hfile hnow hdeadline
  cleared answer hk := hwaiters.trans (hw.cleared answer (hwatcher ▸ hk))

/-- The watcher goes on to the next step of the end. -/
theorem WatcherEnds.move {k : ℕ} {f : Finish} (hw : WatcherEnds k s)
    (hh : s'.handler = s.handler)
    (hwatcher : s'.watcher = Function.update s.watcher k (.finishing f))
    (hactive : s'.active = s.active)
    (hfinishing : ∀ outcome, f.outcome = some outcome → outcome.completed = false →
      Expiring s' f.held)
    (hcleared : ∀ answer, f = .clear answer → s'.waiters = []) : WatcherEnds k s' := by
  have hself : s'.watcher k = .finishing f := by
    rw [hwatcher]
    exact Function.update_self _ _ _
  exact {
    ends := congrArg Watcher.ends hself
    handlers := hh ▸ hw.handlers
    watchers := fun k' hk' => by
      rw [hwatcher, Function.update_of_ne hk']
      exact hw.watchers k' hk'
    active := hactive.trans hw.active
    finishing := fun finish' outcome hk houtcome => by
      cases hself.symm.trans hk
      exact hfinishing outcome houtcome
    cleared := fun answer hk => by
      cases hself.symm.trans hk
      exact hcleared answer rfl }

/-- The watcher takes the next step of the end. -/
theorem WatcherEnds.finish {k : ℕ} {finish : Finish} (sound : Sound s) (hw : WatcherEnds k s)
    (hk : s.watcher k = .finishing finish)
    (h : step awaited request s (.finish (.watcher k)) =
      some (finishStep s (.watcher k) finish)) : Timely (finishStep s (.watcher k) finish) := by
  cases finish with
  | persist state refresh own outcome =>
      have hexpiring := hw.finishing _ outcome hk rfl
      refine .watcher (sound.persist h hexpiring) k ?_
      refine hw.move (f := .take own outcome) rfl rfl rfl (fun outcome' houtcome hcompleted => ?_)
        nofun
      cases houtcome
      exact .persist (hexpiring hcompleted).waiting
  | take own outcome =>
      have hexpiring := hw.finishing _ outcome hk rfl
      refine .watcher (sound.take h fun hcompleted => (hexpiring hcompleted).waiting) k ?_
      exact hw.move (f := .clear (if own then some outcome else none)) rfl rfl rfl nofun
        fun _ _ => rfl
  | clear answer =>
      have hdead : ∀ k', (Function.update s.watcher k .exited k').alive = false :=
        (Function.forall_update_iff s.watcher fun _ w => Watcher.alive w = false).mpr
          ⟨rfl, hw.watchers⟩
      exact .calm (sound.quiet h rfl rfl le_rfl (.inl rfl))
        (.of_rest hw.handlers hdead rfl (hw.cleared answer hk))

/-! ### Any step -/

/-- The end of a wait that an actor has come to. -/
theorem finish_eq_some {finish : Finish} {actor : Actor} (h : s.finish actor = some finish) :
    (∃ i, actor = .handler i ∧ s.handler i = .finishing finish) ∨
      ∃ k, actor = .watcher k ∧ s.watcher k = .finishing finish := by
  cases actor with
  | handler i =>
      simp only [World.finish] at h
      split at h
      · rename_i hi
        cases h
        exact .inl ⟨i, rfl, hi⟩
      · cases h
  | watcher k =>
      simp only [World.finish] at h
      split at h
      · rename_i hk
        cases h
        exact .inr ⟨k, rfl, hk⟩
      · cases h

/-- A step while nobody is ending a wait. -/
theorem Calm.step (sound : Sound s) (hc : Calm s) (hexclusive : Exclusive awaited request s e)
    (h : step awaited request s e = some s') : Timely s' := by
  have effect := step_cases h
  cases effect with
  | tick ms =>
      have hnow : s.now ≤ s.now + ms := Nat.le_add_right _ _
      exact .calm (sound.quiet h rfl rfl hnow (.inl rfl)) (hc.env rfl rfl rfl rfl rfl hnow rfl)
  | change _ _ | disconnect _ =>
      exact .calm (sound.quiet h rfl rfl le_rfl (.inl rfl)) (hc.env rfl rfl rfl rfl rfl le_rfl rfl)
  | load hi => exact .calm (sound.quiet h rfl rfl le_rfl (.inr rfl)) (hc.load sound hi)
  | read hi => exact .calm (sound.read hc hi h) (hc.read sound hi)
  | @ensure i persisted statuses hi =>
      obtain ⟨hprompt, hrest⟩ := hexclusive
      by_cases hle : (joinPending (request i) s persisted).1.deadlineUnixMs ≤ s.now
      · exact .request (sound.ensure hc hi h) i
          (.ensure sound hc hprompt hi hle (hrest persisted statuses hi hle))
      · exact .calm (sound.ensure hc hi h) (hc.ensure sound hprompt hi (not_le.mp hle))
  | register hi _ =>
      exact .calm (sound.quiet h rfl rfl le_rfl (.inl rfl)) (hc.register sound hi)
  | @expire i state statuses hi _ =>
      have hends := hc.handlers i
      rw [hi] at hends
      cases hends
  | @markBackground i state statuses response hi _ hstarted _ =>
      obtain ⟨hfile, hresponses, hdeadline, hnow⟩ := markStep_same s i state
      have hmarked := hc.mark (i := i) (a := state) (by rw [hi]; rfl)
      refine .calm (sound.step h (fun j r hmem _ hnot => ?_)
        (fun j _ _ hd => hd.mono (congrFun hdeadline j) hnow.symm.le) ?_)
        (hmarked.env rfl rfl rfl rfl rfl le_rfl rfl)
      · rcases List.mem_append.mp hmem with hmem | hmem
        · exact .inl (hresponses ▸ hmem)
        · obtain ⟨-, rfl⟩ := Prod.mk.inj (List.mem_singleton.mp hmem)
          rw [hstarted] at hnot
          cases hnot
      · have hsound := sound.file.mono hnow.symm.le
        rw [← hfile] at hsound
        exact hsound
  | @mark i state hi _ =>
      obtain ⟨hfile, hresponses, hdeadline, hnow⟩ := markStep_same s i state
      exact .calm (sound.quiet h hresponses hdeadline hnow.symm.le (.inl hfile))
        (hc.mark (by rw [hi]; rfl))
  | @satisfied k state hk hs =>
      refine .watcher (sound.quiet h rfl rfl le_rfl (.inl rfl)) k
        (.of_calm (w := s.waiters) hc (hexclusive hs) (by rw [hk]; rfl) (fun outcome houtcome hcompleted => ?_) nofun)
      cases houtcome
      unfold satisfiedOutcome at hcompleted
      split at hcompleted
      · cases hcompleted
      · cases hcompleted
  | @unsatisfied k state hk =>
      exact .calm (sound.quiet h rfl rfl le_rfl (.inl rfl))
        (hc.watch (a := state) (by rw [hk]; rfl) rfl rfl rfl rfl (List.Subset.refl _) rfl rfl fun _ hd => hd.congr rfl le_rfl)
  | @prefs k state statuses watcher hk hwatcher =>
      have hheld : watcher.held = some state := by
        rcases hwatcher with rfl | rfl
        · rfl
        · rfl
      exact .calm (sound.quiet h rfl rfl le_rfl (.inr rfl))
        (hc.watch (a := state) (by rw [hk]; rfl) hheld rfl rfl rfl (List.Subset.refl _) rfl rfl fun _ hd => hd.load rfl rfl)
  | @stay k state statuses hk _ =>
      exact .calm (sound.quiet h rfl rfl le_rfl (.inl rfl))
        (hc.watch (a := state) (by rw [hk]; rfl) rfl rfl rfl rfl List.filter_sublist.subset rfl rfl fun _ hd => hd.congr rfl le_rfl)
  | @leave k state statuses hk hnobody =>
      exact .watcher (sound.quiet h rfl rfl le_rfl (.inl rfl)) k
        (.of_calm hc (hexclusive hnobody) (by rw [hk]; rfl) nofun fun _ _ => rfl)
  | @timeout k state statuses hk hd =>
      refine .watcher (sound.quiet h rfl rfl le_rfl (.inl rfl)) k
        (.of_calm (w := s.waiters) hc hexclusive (by rw [hk]; rfl) (fun _ _ _ => ?_) nofun)
      exact (hc.expiring (by rw [hk]; rfl) hd).env rfl rfl le_rfl rfl
  | @wake k state statuses hk =>
      exact .calm (sound.quiet h rfl rfl le_rfl (.inl rfl))
        (hc.watch (a := state) (by rw [hk]; rfl) rfl rfl rfl rfl (List.Subset.refl _) rfl rfl fun _ hd => hd.congr rfl le_rfl)
  | finish hfinish =>
      rcases finish_eq_some hfinish with ⟨i, -, hi⟩ | ⟨k, -, hk⟩
      · have hends := hc.handlers i
        rw [hi] at hends
        cases hends
      · have hends := hc.watchers k
        rw [hk] at hends
        cases hends

/-- A step while a request ends an expired wait. -/
theorem RequestEnds.step {i : ℕ} (sound : Sound s) (hr : RequestEnds i s)
    (hexclusive : Exclusive awaited request s e) (h : step awaited request s e = some s') :
    Timely s' := by
  have hends := hr.ends
  have hdead : ∀ {k state}, (s.watcher k).held = some state → False := by
    intro k state hheld
    have halive := Watcher.alive_of_held hheld
    rw [hr.watchers k] at halive
    cases halive
  have effect := step_cases h
  cases effect with
  | tick ms =>
      have hnow : s.now ≤ s.now + ms := Nat.le_add_right _ _
      exact .request (sound.quiet h rfl rfl hnow (.inl rfl)) i
        (hr.env rfl rfl rfl rfl rfl hnow rfl)
  | change _ _ | disconnect _ =>
      exact .request (sound.quiet h rfl rfl le_rfl (.inl rfl)) i
        (hr.env rfl rfl rfl rfl rfl le_rfl rfl)
  | load _ =>
      rw [hexclusive.1 i] at hends
      cases hends
  | read hj | ensure hj | register hj _ | markBackground hj _ _ _ | mark hj _ =>
      cases hr.eq (by rw [hj]; rfl)
      rw [hj] at hends
      cases hends
  | @expire j state statuses hj _ =>
      cases hr.eq (by rw [hj]; rfl)
      have hexpiring := hr.joined state statuses true hj
      refine .request (sound.quiet h rfl rfl le_rfl (.inl rfl)) i
        (hr.move rfl rfl rfl rfl rfl (fun _ _ => ⟨fun j hj => ?_, hexpiring.file, hexpiring.held⟩)
          nofun)
      rcases List.mem_append.mp hj with hj | hj
      · exact hexpiring.waiting j hj
      · rw [List.mem_singleton.mp hj]
        exact hr.due
  | satisfied hk _ | unsatisfied hk | prefs hk _ | stay hk _ | leave hk _ | timeout hk _ | wake hk =>
      exact (hdead (by rw [hk]; rfl)).elim
  | finish hfinish =>
      rcases finish_eq_some hfinish with ⟨j, rfl, hj⟩ | ⟨k, -, hk⟩
      · cases hr.eq (by rw [hj]; rfl)
        exact hr.finish sound hj h
      · have halive := hr.watchers k
        rw [hk] at halive
        cases halive

/-- A step while a watcher ends its wait. -/
theorem WatcherEnds.step {k : ℕ} (sound : Sound s) (hw : WatcherEnds k s)
    (hexclusive : Exclusive awaited request s e) (h : step awaited request s e = some s') :
    Timely s' := by
  have hends := hw.ends
  have hrest : ∀ {i}, (s.handler i).atRest = false → False := by
    intro i hi
    rw [hw.handlers i] at hi
    cases hi
  have heq : ∀ {k'}, (s.watcher k').alive = true → k' = k := by
    intro k' halive
    by_contra hne
    rw [hw.watchers k' hne] at halive
    cases halive
  have effect := step_cases h
  cases effect with
  | tick ms =>
      have hnow : s.now ≤ s.now + ms := Nat.le_add_right _ _
      exact .watcher (sound.quiet h rfl rfl hnow (.inl rfl)) k
        (hw.env rfl rfl rfl rfl rfl hnow rfl)
  | change _ _ | disconnect _ =>
      exact .watcher (sound.quiet h rfl rfl le_rfl (.inl rfl)) k
        (hw.env rfl rfl rfl rfl rfl le_rfl rfl)
  | load _ =>
      rw [hexclusive.2 k] at hends
      cases hends
  | read hi | ensure hi | register hi _ | expire hi _ | markBackground hi _ _ _ | mark hi _ =>
      exact (hrest (by rw [hi]; rfl)).elim
  | satisfied hk _ | unsatisfied hk | prefs hk _ | stay hk _ | leave hk _ | timeout hk _ | wake hk =>
      cases heq (by rw [hk]; rfl)
      rw [hk] at hends
      cases hends
  | finish hfinish =>
      rcases finish_eq_some hfinish with ⟨i, -, hi⟩ | ⟨k', rfl, hk⟩
      · exact (hrest (by rw [hi]; rfl)).elim
      · cases heq (by rw [hk]; rfl)
        exact hw.finish sound hk h

theorem Timely.step (ht : Timely s) (hexclusive : Exclusive awaited request s e)
    (h : step awaited request s e = some s') : Timely s' := by
  cases ht with
  | calm sound hc => exact hc.step sound hexclusive h
  | request sound i hr => exact hr.step sound hexclusive h
  | watcher sound k hw => exact hw.step sound hexclusive h

theorem Timely.init {now : ℕ} {members : StrMap SwarmMember} {swarms : StrMap (List String)}
    {file : Option AwaitMembersState} (hfile : FileSound now file) :
    Timely (World.init now members swarms file) :=
  .calm ⟨nofun, hfile, fun _ => le_rfl⟩ (.of_rest (fun _ => rfl) (fun _ => rfl) rfl rfl)

theorem Timely.sound (ht : Timely s) : Sound s := by
  cases ht with
  | calm sound _ | request sound _ _ | watcher sound _ _ => exact sound

/-- One watcher runs at most. -/
theorem Timely.one (ht : Timely s) {k k' : ℕ} (hk : (s.watcher k).alive = true)
    (hk' : (s.watcher k').alive = true) : k = k' := by
  cases ht with
  | calm _ hc => exact hc.one k k' hk hk'
  | request _ i hr =>
      rw [hr.watchers k] at hk
      cases hk
  | watcher _ k₀ hw =>
      have heq : ∀ {k'}, (s.watcher k').alive = true → k' = k₀ := by
        intro k' halive
        by_contra hne
        rw [hw.watchers k' hne] at halive
        cases halive
      exact (heq hk).trans (heq hk').symm

end Steps

end Jcode.Await
