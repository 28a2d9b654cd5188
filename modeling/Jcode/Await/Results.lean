import Jcode.Await.Deadline

/-!
# Await — the results of a wait

* `awaits_timely`: as long as the end of a wait and a request exclude each other, one watcher runs at
  most, and a timeout is the timeout of the request's own wait; a completed result is computed, or
  replayed, while the members satisfy the mode, always.
* `awaits_timely_failing`: an expired request ends a wait whose watcher still runs, and the next
  request of the key is answered by that watcher.
-/

namespace Jcode.Await
open Rust Runs

section Steps
variable {awaited : Awaited} {request : ℕ → AwaitRequest} {s s' : World} {e : Event}

/-! ### Completed results -/

/-- The outcome that the end of a wait tells somebody yet. -/
def Finish.tells : Finish → Option Outcome
  | .persist _ _ _ outcome | .take _ outcome => some outcome
  | .clear answer => answer

def Handler.tells : Handler → Option Outcome
  | .finishing finish => finish.tells
  | _ => none

def Watcher.tells : Watcher → Option Outcome
  | .finishing finish => finish.tells
  | _ => none

variable (awaited) in
/-- A watcher has computed the outcome, and the members satisfied the mode. -/
def Computed (ts : List (Transition World Event)) (outcome : Outcome) : Prop :=
  ∃ t ∈ ts, (∃ k, t.event = .watch k) ∧ satisfies awaited (t.before.statuses awaited) = true ∧
    outcome = satisfiedOutcome awaited (t.before.statuses awaited)

variable (awaited) in
/-- The request was answered when it looked at the members, and they satisfied the mode. -/
def Replayed (ts : List (Transition World Event)) (i : ℕ) (response : Response) : Prop :=
  ∃ t ∈ ts, t.event = .read i ∧ satisfies awaited (t.before.statuses awaited) = true ∧
    t.after.responses = t.before.responses ++ [(i, response)]

variable (awaited) in
/-- The invariant of the completed results. -/
structure Backed (ts : List (Transition World Event)) (s : World) : Prop where
  responses : ∀ i response, (i, response) ∈ s.responses → response.outcome.completed = true →
    Computed awaited ts response.outcome ∨ Replayed awaited ts i response
  handlers : ∀ i outcome, (s.handler i).tells = some outcome → outcome.completed = false
  watchers : ∀ k outcome, (s.watcher k).tells = some outcome → outcome.completed = true →
    Computed awaited ts outcome

variable {ts : List (Transition World Event)} {t : Transition World Event}

theorem Computed.snoc {outcome : Outcome} (h : Computed awaited ts outcome) :
    Computed awaited (ts ++ [t]) outcome := by
  obtain ⟨u, hu, hcomputed⟩ := h
  exact ⟨u, List.mem_append_left _ hu, hcomputed⟩

theorem Backed.next (hb : Backed awaited ts s)
    (hhandlers : ∀ i outcome, (s'.handler i).tells = some outcome →
      (s.handler i).tells = some outcome ∨ outcome.completed = false)
    (hwatchers : ∀ k outcome, (s'.watcher k).tells = some outcome →
      (s.watcher k).tells = some outcome ∨ outcome.completed = false ∨
        Computed awaited (ts ++ [t]) outcome)
    (hresponses : ∀ i response, (i, response) ∈ s'.responses → (i, response) ∈ s.responses ∨
      response.outcome.completed = false ∨ Computed awaited (ts ++ [t]) response.outcome ∨
        Replayed awaited (ts ++ [t]) i response) : Backed awaited (ts ++ [t]) s' where
  responses i response hmem hcompleted := by
    rcases hresponses i response hmem with hold | hfalse | hbacked
    · rcases hb.responses i response hold hcompleted with hcomputed | ⟨u, hu, hreplayed⟩
      · exact .inl hcomputed.snoc
      · exact .inr ⟨u, List.mem_append_left _ hu, hreplayed⟩
    · rw [hcompleted] at hfalse
      cases hfalse
    · exact hbacked
  handlers i outcome htells := (hhandlers i outcome htells).elim (hb.handlers i outcome) id
  watchers k outcome htells hcompleted := by
    rcases hwatchers k outcome htells with hold | hfalse | hcomputed
    · exact (hb.watchers k outcome hold hcompleted).snoc
    · rw [hcompleted] at hfalse
      cases hfalse
    · exact hcomputed

/-- A step that moves one handler, and answers nobody with a result. -/
theorem Backed.handle {i : ℕ} {handler : Handler} (hb : Backed awaited ts s)
    (htells : ∀ outcome, handler.tells = some outcome →
      (s.handler i).tells = some outcome ∨ outcome.completed = false)
    (hh : s'.handler = Function.update s.handler i handler) (hw : s'.watcher = s.watcher)
    (hresponses : ∀ i response, (i, response) ∈ s'.responses → (i, response) ∈ s.responses ∨
      response.outcome.completed = false ∨ Computed awaited (ts ++ [t]) response.outcome ∨
        Replayed awaited (ts ++ [t]) i response) : Backed awaited (ts ++ [t]) s' := by
  refine hb.next ?_ (fun k outcome hk => .inl (hw ▸ hk)) hresponses
  rw [hh]
  exact (Function.forall_update_iff s.handler fun j h => ∀ outcome, Handler.tells h = some outcome →
    (s.handler j).tells = some outcome ∨ outcome.completed = false).mpr
    ⟨htells, fun j _ outcome hj => .inl hj⟩

/-- A step that moves one watcher, and answers nobody. -/
theorem Backed.watch {k : ℕ} {watcher : Watcher} (hb : Backed awaited ts s)
    (htells : ∀ outcome, watcher.tells = some outcome → (s.watcher k).tells = some outcome ∨
      outcome.completed = false ∨ Computed awaited (ts ++ [t]) outcome)
    (hh : s'.handler = s.handler) (hw : s'.watcher = Function.update s.watcher k watcher)
    (hresponses : ∀ i response, (i, response) ∈ s'.responses → (i, response) ∈ s.responses ∨
      response.outcome.completed = false ∨ Computed awaited (ts ++ [t]) response.outcome ∨
        Replayed awaited (ts ++ [t]) i response) : Backed awaited (ts ++ [t]) s' := by
  refine hb.next (fun i outcome hi => .inl (hh ▸ hi)) ?_ hresponses
  rw [hw]
  exact (Function.forall_update_iff s.watcher fun j w => ∀ outcome, Watcher.tells w = some outcome →
    (s.watcher j).tells = some outcome ∨ outcome.completed = false ∨
      Computed awaited (ts ++ [t]) outcome).mpr ⟨htells, fun j _ outcome hj => .inl hj⟩

/-- A step that moves no actor. -/
theorem Backed.env (hb : Backed awaited ts s) (hh : s'.handler = s.handler)
    (hw : s'.watcher = s.watcher) (hr : s'.responses = s.responses) : Backed awaited (ts ++ [t]) s' :=
  hb.next (fun _ _ hi => .inl (hh ▸ hi)) (fun _ _ hk => .inl (hw ▸ hk)) fun _ _ hmem =>
    .inl (hr ▸ hmem)

/-- A request marks the key active, and is answered at most that its wait has started. -/
theorem Backed.mark {i : ℕ} {state : AwaitMembersState} (hb : Backed awaited ts s)
    (hmark : s' = markStep s i state ∨ ∃ response, s' = (markStep s i state).respond i response ∧
      response.outcome.completed = false) : Backed awaited (ts ++ [t]) s' := by
  have hhandler : s'.handler = Function.update s.handler i .done := by
    rcases hmark with rfl | ⟨response, rfl, -⟩
    all_goals
      simp only [markStep, World.respond]
      split <;> rfl
  have hwatcher : s'.watcher = s.watcher ∨
      s'.watcher = Function.update s.watcher i (.looping state) := by
    rcases hmark with rfl | ⟨response, rfl, -⟩
    all_goals
      simp only [markStep, World.respond]
      split
      · exact .inl rfl
      · exact .inr rfl
  have hsame := (markStep_same s i state).2.1
  refine hb.next ?_ ?_ ?_
  · rw [hhandler]
    exact (Function.forall_update_iff s.handler fun j h => ∀ outcome, Handler.tells h = some outcome →
      (s.handler j).tells = some outcome ∨ outcome.completed = false).mpr
      ⟨nofun, fun j _ outcome hj => .inl hj⟩
  · rcases hwatcher with hwatcher | hwatcher
    · rw [hwatcher]
      exact fun k outcome hk => .inl hk
    · rw [hwatcher]
      exact (Function.forall_update_iff s.watcher fun j w => ∀ outcome,
        Watcher.tells w = some outcome → (s.watcher j).tells = some outcome ∨
          outcome.completed = false ∨ Computed awaited (ts ++ [t]) outcome).mpr
        ⟨nofun, fun j _ outcome hj => .inl hj⟩
  · intro j r hmem
    rcases hmark with rfl | ⟨response, rfl, hcompleted⟩
    · exact .inl (hsame ▸ hmem)
    · rcases List.mem_append.mp hmem with hmem | hmem
      · exact .inl (hsame ▸ hmem)
      · obtain ⟨-, rfl⟩ := Prod.mk.inj (List.mem_singleton.mp hmem)
        exact .inr (.inl hcompleted)

/-- The end of a wait hands its outcome on. -/
theorem finishStep_tells {finish : Finish} {actor : Actor} {o : Outcome}
    (hfinish : s.finish actor = some finish) :
    (∀ i, ((finishStep s actor finish).handler i).tells = some o →
      (s.handler i).tells = some o) ∧
    (∀ k, ((finishStep s actor finish).watcher k).tells = some o →
      (s.watcher k).tells = some o) ∧
    ∀ i response, (i, response) ∈ (finishStep s actor finish).responses →
      (i, response) ∈ s.responses ∨ finish.tells = some response.outcome := by
  -- the next step tells what this one tells, if anything
  have hnext : ∀ own, (Finish.clear (if own = true then some o else none)).tells = some o →
      own = true := by
    intro own h
    cases own with
    | true => rfl
    | false => cases h
  rcases finish_eq_some hfinish with ⟨i, rfl, hi⟩ | ⟨k, rfl, hk⟩
  · have hmove : ∀ handler : Handler, (handler.tells = some o → finish.tells = some o) →
        ∀ j, (Function.update s.handler i handler j).tells = some o →
          (s.handler j).tells = some o := by
      intro handler htells
      refine (Function.forall_update_iff s.handler fun j h => Handler.tells h = some o →
        (s.handler j).tells = some o).mpr ⟨fun h => ?_, fun _ _ => id⟩
      rw [hi]
      exact htells h
    cases finish with
    | persist state refresh own outcome' =>
        exact ⟨hmove _ id, fun _ => id, fun _ _ => .inl⟩
    | take own outcome' =>
        refine ⟨hmove _ fun h => ?_, fun _ => id, fun j response hmem => ?_⟩
        · cases own with
          | true => exact h
          | false => cases h
        · rcases List.mem_append.mp hmem with hmem | hmem
          · exact .inl hmem
          · obtain ⟨_, _, heq⟩ := List.mem_map.mp hmem
            obtain ⟨-, rfl⟩ := Prod.mk.inj heq
            exact .inr rfl
    | clear answer =>
        cases answer with
        | none => exact ⟨hmove _ nofun, fun _ => id, fun _ _ => .inl⟩
        | some outcome' =>
            refine ⟨hmove _ nofun, fun _ => id, fun j response hmem => ?_⟩
            rcases List.mem_append.mp hmem with hmem | hmem
            · exact .inl hmem
            · obtain ⟨-, rfl⟩ := Prod.mk.inj (List.mem_singleton.mp hmem)
              exact .inr rfl
  · have hmove : ∀ watcher : Watcher, (watcher.tells = some o → finish.tells = some o) →
        ∀ j, (Function.update s.watcher k watcher j).tells = some o →
          (s.watcher j).tells = some o := by
      intro watcher htells
      refine (Function.forall_update_iff s.watcher fun j w => Watcher.tells w = some o →
        (s.watcher j).tells = some o).mpr ⟨fun h => ?_, fun _ _ => id⟩
      rw [hk]
      exact htells h
    cases finish with
    | persist state refresh own outcome' =>
        exact ⟨fun _ => id, hmove _ id, fun _ _ => .inl⟩
    | take own outcome' =>
        refine ⟨fun _ => id, hmove _ fun h => ?_, fun j response hmem => ?_⟩
        · cases own with
          | true => exact h
          | false => cases h
        · rcases List.mem_append.mp hmem with hmem | hmem
          · exact .inl hmem
          · obtain ⟨_, _, heq⟩ := List.mem_map.mp hmem
            obtain ⟨-, rfl⟩ := Prod.mk.inj heq
            exact .inr rfl
    | clear answer => exact ⟨fun _ => id, hmove _ nofun, fun _ _ => .inl⟩

/-- Each step computes what it tells, or repeats it. -/
theorem Backed.step (hb : Backed awaited ts s) (h : step awaited request s e = some s') :
    Backed awaited (ts ++ [⟨s, e, s'⟩]) s' := by
  have hmem : ⟨s, e, s'⟩ ∈ ts ++ [⟨s, e, s'⟩] := List.mem_append_right _ List.mem_cons_self
  have effect := step_cases h
  cases effect with
  | tick _ | change _ _ | disconnect _ => exact hb.env rfl rfl rfl
  | load _ | register _ _ =>
      refine hb.handle ?_ rfl rfl fun _ _ => .inl
      nofun
  | @read i persisted hi =>
      by_cases hs : satisfies awaited (s.statuses awaited) = true
      · have hread : readStep awaited s i persisted = _ := if_pos hs
        have hhandler : (readStep awaited s i persisted).handler =
            Function.update s.handler i .done := congrArg World.handler hread
        have hresponses : (readStep awaited s i persisted).responses = s.responses ++ _ :=
          congrArg World.responses hread
        have hwatcher : (readStep awaited s i persisted).watcher = s.watcher := by rw [hread]; rfl
        refine hb.handle ?_ hhandler hwatcher fun j response hj => ?_
        · nofun
        · rw [hresponses] at hj
          rcases List.mem_append.mp hj with hold | hnew
          · exact .inl hold
          · obtain ⟨rfl, rfl⟩ := Prod.mk.inj (List.mem_singleton.mp hnew)
            exact .inr (.inr (.inr ⟨_, hmem, rfl, hs, hresponses⟩))
      · unfold readStep
        dsimp only
        rw [if_neg hs]
        refine hb.handle ?_ rfl rfl fun _ _ => .inl
        nofun
  | ensure _ =>
      refine hb.handle (fun outcome houtcome => .inr ?_) rfl rfl fun _ _ => .inl
      unfold afterJoin at houtcome
      split at houtcome
      · cases houtcome
        rfl
      · cases houtcome
  | expire _ _ =>
      refine hb.handle (fun outcome houtcome => .inr ?_) rfl rfl fun _ _ => .inl
      cases houtcome
      rfl
  | markBackground _ _ _ hcompleted => exact hb.mark (.inr ⟨_, rfl, hcompleted⟩)
  | mark _ _ => exact hb.mark (.inl rfl)
  | @satisfied k state hk hs =>
      refine hb.watch (fun outcome houtcome => .inr (.inr ?_)) rfl rfl fun _ _ => .inl
      cases houtcome
      exact ⟨_, hmem, ⟨k, rfl⟩, hs, rfl⟩
  | unsatisfied _ | stay _ _ | leave _ _ | wake _ =>
      refine hb.watch ?_ rfl rfl fun _ _ => .inl
      nofun
  | prefs _ hwatcher =>
      refine hb.watch (fun outcome houtcome => ?_) rfl rfl fun _ _ => .inl
      rcases hwatcher with rfl | rfl
      · cases houtcome
      · cases houtcome
  | timeout _ _ =>
      refine hb.watch (fun outcome houtcome => .inr (.inl ?_)) rfl rfl fun _ _ => .inl
      cases houtcome
      rfl
  | @finish actor finish hfinish =>
      refine hb.next (fun i outcome hi => .inl ((finishStep_tells hfinish).1 i hi))
        (fun k outcome hk => .inl ((finishStep_tells hfinish).2.1 k hk)) fun i response hi => ?_
      rcases (finishStep_tells (o := response.outcome) hfinish).2.2 i response hi with
        hold | htells
      · exact .inl hold
      · rcases finish_eq_some hfinish with ⟨j, -, hj⟩ | ⟨k, -, hk⟩
        · refine .inr (.inl (hb.handlers j response.outcome ?_))
          rw [hj]
          exact htells
        · have htells' : (s.watcher k).tells = some response.outcome := by
            rw [hk]
            exact htells
          cases hcompleted : response.outcome.completed with
          | false => exact .inr (.inl rfl)
          | true =>
              exact .inr (.inr (.inl (hb.watchers k _ htells' hcompleted).snoc))

end Steps

/-! ### Two waits at once -/

/-- The requests wait for a second, except the last. -/
def waiting (i : ℕ) : AwaitRequest := { blocking i with timeoutSecs := if i = 2 then none else some 1 }

/-- An actor ends a wait. -/
def ends (actor : Actor) : List Event := List.replicate 3 (.finish actor)

/-- What excludes the end of a wait and a request, when there is one request only. -/
def settled (t : Transition World Event) : Bool :=
  match t.event with
  | .load _ => !(t.before.handler 0).ends && !(t.before.watcher 0).ends
  | .ensure i => i == 0 && (t.before.watcher 0).held.isNone
  | .watch _ | .retain _ | .timeout _ => (t.before.handler 0).atRest
  | _ => true

/-- The second request finds the wait expired before its watcher does, and ends it; the third
begins the next wait. -/
def overlapping : List Event :=
  registers 0 ++ looks 0 ++ [.tick 1000] ++ [.load 1, .read 1, .ensure 1, .addWaiter 1] ++
    ends (.handler 1) ++ registers 2 ++ [.timeout 0] ++ ends (.watcher 0)

end Jcode.Await
