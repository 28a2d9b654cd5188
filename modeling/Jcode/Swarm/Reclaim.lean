import Jcode.Swarm.Counters

/-!
# Swarm — the cap on reclaims

A task whose workers die is taken from them and queued again, at most `MAX_DEAD_ASSIGNEE_RECLAIMS`
times: so the count of its record says.  A dispatch loses that count, since it replaces the record.

* `reclaims_account`: over a run, what the count gains and what dispatches lose of it.
* `reclaims_capped`: when no dispatch meets a count to lose, the cap holds.
* `lethal_task_reclaimed`: without that, a task whose workers die is queued a fourth time.
-/

namespace Jcode.Swarm
open Rust Runs Jcode.Bridge Jcode.Live

abbrev Step := Transition State Event

variable {cfg : Config} {plan : LivePlan}

/-! ### A task at the cap -/

/-- The task has no assignee, and no automatic step dispatches it: it failed at the cap, or runs
without an assignee. -/
structure Closed (x : String) (plan : LivePlan) : Prop where
  capped : MAX_DEAD_ASSIGNEE_RECLAIMS ≤ plan.reclaims x
  unassigned : ∀ item, plan.findItem x = some item → item.assignedTo = none
  notRunnable : ∀ item, plan.findItem x = some item →
    item.status ∈ ["failed", "running", "running_stale"]

theorem Closed.isRunnableStatus {x : String} (h : Closed x plan) {item : PlanItem}
    (hitem : plan.findItem x = some item) : isRunnableStatus item.status = false := by
  have hmem := h.notRunnable item hitem
  simp only [List.mem_cons, List.not_mem_nil, or_false] at hmem
  rcases hmem with e | e | e <;> rw [e] <;> decide

/-- A write that finds the same item, or one that is running, keeps a task closed. -/
theorem Closed.of_findItem {x : String} {plan' : LivePlan} (h : Closed x plan)
    (hcap : plan.reclaims x ≤ plan'.reclaims x)
    (hitem : ∀ item', plan'.findItem x = some item' → ∃ item, plan.findItem x = some item ∧
      item'.assignedTo = item.assignedTo ∧
      (item'.status = item.status ∨ item'.status ∈ ["failed", "running", "running_stale"])) :
    Closed x plan' where
  capped := h.capped.trans hcap
  unassigned item' hi := by
    obtain ⟨item, hi, ha, -⟩ := hitem item' hi
    exact ha.trans (h.unassigned item hi)
  notRunnable item' hi := by
    obtain ⟨item, hi, -, hs | hs⟩ := hitem item' hi
    · exact hs ▸ h.notRunnable item hi
    · exact hs

/-- So does a write to other items. -/
theorem Closed.of_findItem_eq {x : String} {plan' : LivePlan} (h : Closed x plan)
    (hcap : plan.reclaims x ≤ plan'.reclaims x) (hsame : plan'.findItem x = plan.findItem x) :
    Closed x plan' :=
  h.of_findItem hcap fun item' hitem => ⟨item', hsame.symm.trans hitem, rfl, .inl rfl⟩

/-! ### The item a write finds -/

theorem startTurn_findItem {nowMs : ℕ} {run : TaskRun} {x : String} {item' : PlanItem}
    (h : (startTurn nowMs run plan).findItem x = some item') :
    ∃ item, plan.findItem x = some item ∧ item'.assignedTo = item.assignedTo ∧
      (item'.status = item.status ∨ item'.status = "running") := by
  unfold startTurn at h
  split at h
  · exact ⟨item', h, rfl, .inl rfl⟩
  · rcases LivePlan.findItem_setItem_eq_some h fun _ => rfl with ⟨-, item, hitem, rfl⟩ | ⟨-, hitem⟩
    · exact ⟨item, hitem, rfl, .inr rfl⟩
    · exact ⟨item', hitem, rfl, .inl rfl⟩

theorem touchSwarmTaskProgress_findItem {nowMs : ℕ} {taskId x : String}
    {sessionId detail checkpointSummary : Option String} {item' : PlanItem}
    (h : (touchSwarmTaskProgress nowMs taskId sessionId detail checkpointSummary plan).findItem x =
      some item') :
    ∃ item, plan.findItem x = some item ∧ item'.assignedTo = item.assignedTo ∧
      (item'.status = item.status ∨ item'.status = "running") := by
  unfold touchSwarmTaskProgress at h
  split at h
  · exact ⟨item', h, rfl, .inl rfl⟩
  · dsimp only at h
    split at h
    · rcases LivePlan.findItem_setItem_eq_some h fun _ => rfl with
        ⟨-, item, hitem, rfl⟩ | ⟨-, hitem⟩
      · exact ⟨item, hitem, rfl, .inr rfl⟩
      · exact ⟨item', hitem, rfl, .inl rfl⟩
    · exact ⟨item', h, rfl, .inl rfl⟩

/-- A round of the sweep moves an item between running and stale, or leaves it. -/
theorem refreshItem_item (nowMs staleAfterMs : ℕ) (item : PlanItem) (plan : LivePlan) :
    let item' := (refreshItem nowMs staleAfterMs item plan).1
    item'.id = item.id ∧ item'.assignedTo = item.assignedTo ∧
      (item'.status = item.status ∨ item'.status ∈ ["running", "running_stale"]) := by
  unfold refreshItem
  split
  · exact ⟨rfl, rfl, .inl rfl⟩
  · dsimp only
    split
    · exact ⟨rfl, rfl, .inr (by simp)⟩
    · exact ⟨rfl, rfl, .inr (by simp)⟩
    · exact ⟨rfl, rfl, .inl rfl⟩

theorem refreshItems_find? {nowMs staleAfterMs : ℕ} {x : String} {items : List PlanItem}
    {item' : PlanItem}
    (h : (refreshItems nowMs staleAfterMs items plan).1.find? (fun item => item.id == x) =
      some item') :
    ∃ item, items.find? (fun item => item.id == x) = some item ∧
      item'.assignedTo = item.assignedTo ∧
      (item'.status = item.status ∨ item'.status ∈ ["running", "running_stale"]) := by
  induction items generalizing plan with
  | nil => cases h
  | cons item items ih =>
      obtain ⟨hid, ha, hs⟩ := refreshItem_item nowMs staleAfterMs item plan
      rw [refreshItems, List.find?_cons, hid] at h
      rw [List.find?_cons]
      split at h
      · cases h
        exact ⟨item, rfl, ha, hs⟩
      · exact ih h

theorem requeueExistingAssignment_findItem_ne {nowMs : ℕ} {taskId x : String}
    {reqSession assignee assignmentSummary : String} (hx : x ≠ taskId) :
    (requeueExistingAssignment nowMs plan reqSession assignee taskId assignmentSummary).findItem x =
      plan.findItem x := by
  unfold requeueExistingAssignment
  split
  · rfl
  · exact Keyed.find?_updateFirst_of_ne plan.items hx fun _ => rfl

theorem closeTask_findItem_ne {nowMs : ℕ} {taskId x : String} {status summary : String}
    (hx : x ≠ taskId) :
    (closeTask nowMs taskId status summary plan).findItem x = plan.findItem x :=
  Keyed.find?_updateFirst_of_ne plan.items hx fun _ => rfl

theorem endTurn_findItem_ne {nowMs : ℕ} {taskId x : String} {result : Except String Unit}
    (hx : x ≠ taskId) : (endTurn nowMs taskId result plan).findItem x = plan.findItem x := by
  cases result with
  | ok =>
      simp only [endTurn, endTurnOk]
      split
      · rfl
      · split
        · exact closeTask_findItem_ne hx
        · exact Keyed.find?_updateFirst_of_ne plan.items hx fun _ => rfl
        · exact closeTask_findItem_ne hx
        · rfl
  | error e =>
      simp only [endTurn, endTurnErr]
      split
      · rfl
      · exact closeTask_findItem_ne hx

/-! ### Salvage at the cap -/

/-- The task failed, and nobody is assigned to it. -/
def FailedAtCap (x : String) (plan : LivePlan) : Prop :=
  ∃ item, plan.findItem x = some item ∧ item.status = "failed" ∧ item.assignedTo = none

section Salvage
variable {nowMs : ℕ} {sessionId x : String}

theorem salvageTask_findItem_ne {taskId : String} (state : DeadMemberSalvage × LivePlan)
    (hx : x ≠ taskId) :
    (salvageTask nowMs sessionId state taskId).2.findItem x = state.2.findItem x := by
  obtain ⟨outcome, plan⟩ := state
  by_cases hcap : MAX_DEAD_ASSIGNEE_RECLAIMS ≤ plan.reclaims taskId
  · rw [(salvageTask_of_cap nowMs sessionId outcome hcap).2.2 x, if_neg hx]
  · rcases salvageTask_below_cap nowMs sessionId outcome (Nat.lt_of_not_le hcap) with
      h | ⟨-, -, -, hitem⟩
    · rw [h]
    · exact hitem x hx

/-- A round of a task at the cap fails it. -/
theorem salvageTask_failed {state : DeadMemberSalvage × LivePlan}
    (hcap : MAX_DEAD_ASSIGNEE_RECLAIMS ≤ state.2.reclaims x)
    (hsome : (state.2.findItem x).isSome) :
    FailedAtCap x (salvageTask nowMs sessionId state x).2 := by
  obtain ⟨outcome, plan⟩ := state
  obtain ⟨item, hitem⟩ := Option.isSome_iff_exists.mp hsome
  have hafter := (salvageTask_of_cap nowMs sessionId outcome hcap).2.2 x
  rw [if_pos rfl, hitem, Option.map_some] at hafter
  exact ⟨_, hafter, rfl, rfl⟩

/-- A salvage of the session that holds a task at the cap fails the task. -/
theorem salvage_failed (hcap : MAX_DEAD_ASSIGNEE_RECLAIMS ≤ plan.reclaims x)
    (hx : x ∈ assignedIds sessionId plan) :
    FailedAtCap x (salvagePlanAssignmentsOf nowMs sessionId plan).2 := by
  -- at the cap, each round of the task fails it, and no other round touches it
  have hfold : ∀ (ids : List String) (state : DeadMemberSalvage × LivePlan),
      MAX_DEAD_ASSIGNEE_RECLAIMS ≤ state.2.reclaims x → (state.2.findItem x).isSome →
      FailedAtCap x state.2 ∨ x ∈ ids →
      FailedAtCap x (ids.foldl (salvageTask nowMs sessionId) state).2 := by
    intro ids
    induction ids with
    | nil => exact fun state _ _ h => h.resolve_right List.not_mem_nil
    | cons taskId ids ih =>
        intro state hcap hsome h
        have hcap' := hcap.trans (salvageTask_counters nowMs sessionId taskId x state).2.1
        by_cases hne : x = taskId
        · subst hne
          obtain ⟨item, hitem, hs⟩ : FailedAtCap x (salvageTask nowMs sessionId state x).2 :=
            salvageTask_failed hcap hsome
          exact ih _ hcap' (by rw [hitem]; rfl) (.inl ⟨item, hitem, hs⟩)
        · have hsame : (salvageTask nowMs sessionId state taskId).2.findItem x =
              state.2.findItem x := salvageTask_findItem_ne state hne
          refine ih _ hcap' (by rw [hsame]; exact hsome) ?_
          rcases h with ⟨item, hitem, hs⟩ | hmem
          · exact .inl ⟨item, hsame.trans hitem, hs⟩
          · exact .inr ((List.mem_cons.mp hmem).resolve_left hne)
  obtain ⟨item, hitem, rfl⟩ := List.mem_map.mp hx
  have hsome : (plan.findItem item.id).isSome :=
    List.find?_isSome.mpr ⟨item, (List.mem_filter.mp hitem).1, by simp⟩
  exact hfold _ _ hcap hsome (.inr hx)

theorem salvageTask_closed {state : DeadMemberSalvage × LivePlan} (taskId : String)
    (h : Closed x state.2) : Closed x (salvageTask nowMs sessionId state taskId).2 := by
  have hcap := (salvageTask_counters nowMs sessionId taskId x state).2.1
  by_cases hne : x = taskId
  · subst hne
    refine h.of_findItem hcap fun item' hitem => ?_
    obtain ⟨outcome, plan⟩ := state
    have hafter := (salvageTask_of_cap nowMs sessionId outcome h.capped).2.2 x
    rw [if_pos rfl, hitem] at hafter
    obtain ⟨item, hbefore, rfl⟩ := Option.map_eq_some_iff.mp hafter.symm
    exact ⟨item, hbefore, (h.unassigned item hbefore).symm, .inr List.mem_cons_self⟩
  · exact h.of_findItem_eq hcap (salvageTask_findItem_ne state hne)

theorem salvage_closed (h : Closed x plan) :
    Closed x (salvagePlanAssignmentsOf nowMs sessionId plan).2 :=
  salvage_preserves (P := fun state => Closed x state.2) nowMs sessionId
    (fun _ taskId h => salvageTask_closed taskId h) h

end Salvage

/-! ### Automatic steps -/

/-- The steps of a swarm nobody operates on the task of: dispatches, starts, heartbeats, sweeps,
deaths and salvages, and anything that concerns another task. -/
def Automatic (x : String) : Event → Prop
  | .control request => request.taskId ≠ x
  | .land _ (.assign d) _ => d.dedupMode = .replayFinal ∨ d.requestedTaskId ≠ some x
  | .land _ (.requeue _ _ taskId _) _ => taskId ≠ x
  | .turnEnd _ run _ => run.taskId ≠ x
  | .graph _ _ => False
  | _ => True

/-- An automatic step that does not dispatch a closed task keeps it closed. -/
theorem Closed.writes {x : String} {e : Event} (h : Closed x plan) (ha : Automatic x e)
    (hd : dispatchedTask cfg plan e ≠ some x) : Closed x (e.writes cfg plan) := by
  have hcap : plan.reclaims x ≤ (e.writes cfg plan).reclaims x := by
    have hstep := reclaims_writes cfg x plan e
    rw [if_neg hd] at hstep
    omega
  have hrunning : ∀ {s : String}, s = "running" → s ∈ ["failed", "running", "running_stale"] :=
    fun e => by simp [e]
  cases e with
  | assignTask => exact h
  | pickNext => exact h
  | reclaimNext memberStatuses =>
      refine h.of_findItem hcap fun item' hitem => ?_
      simp only [Event.writes] at hitem
      cases hr : reclaimNextStranded cfg memberStatuses plan with
      | none =>
          rw [hr] at hitem
          exact ⟨item', hitem, rfl, .inl rfl⟩
      | some r =>
          obtain ⟨taskId, plan'⟩ := r
          obtain ⟨⟨item, hfound, hassigned⟩, hfind, -⟩ :=
            reclaim_eq_true (reclaimNextStranded_eq_some hr).1
          rw [hr, Option.map_some, Option.getD_some, hfind] at hitem
          split at hitem
          · rename_i hx
            subst hx
            exact absurd (h.unassigned item hfound) hassigned
          · exact ⟨item', hitem, rfl, .inl rfl⟩
  | control => exact h
  | land nowMs p runs =>
      refine h.of_findItem_eq hcap ?_
      cases p with
      | assign d =>
          cases hassign : assignTask cfg nowMs plan d with
          | error e => rw [(writes_assign_error runs hassign).1]
          | ok r =>
              obtain ⟨run, plan'⟩ := r
              obtain ⟨hw, hdisp⟩ := writes_assign_ok runs hassign
              rw [hdisp] at hd
              rw [hw, (assignTask_eq_ok hassign).1, if_neg fun e => hd (congrArg some e.symm)]
      | requeue reqSession assignee taskId text =>
          exact requeueExistingAssignment_findItem_ne fun e => ha e.symm
  | start nowMs run =>
      refine h.of_findItem hcap fun item' hitem => ?_
      obtain ⟨item, hi, hass, hs⟩ := startTurn_findItem hitem
      exact ⟨item, hi, hass, hs.imp_right hrunning⟩
  | heartbeat =>
      refine h.of_findItem hcap fun item' hitem => ?_
      obtain ⟨item, hi, hass, hs⟩ := touchSwarmTaskProgress_findItem hitem
      exact ⟨item, hi, hass, hs.imp_right hrunning⟩
  | turnEnd nowMs run result =>
      exact h.of_findItem_eq hcap (endTurn_findItem_ne fun e => ha e.symm)
  | sweep nowMs =>
      refine h.of_findItem hcap fun item' hitem => ?_
      obtain ⟨item, hi, hass, hs⟩ := refreshItems_find? hitem
      exact ⟨item, hi, hass, hs.imp_right (List.mem_cons_of_mem _)⟩
  | salvage => exact salvage_closed h
  | graph => exact absurd ha id

/-! ### Runs -/

/-- How often the transitions take a task from a dead assignee. -/
def takenOver (cfg : Config) (x : String) (ts : List Step) : ℕ :=
  (ts.map fun t => takenFromDead cfg x t.before.plan t.event).sum

section Runs
variable {s s' : State} {ts : List Step} {x : String}

/-- What a run takes from the dead is what the count gains, and what dispatches lose of it. -/
theorem reclaims_account (run : Run (step cfg) s ts s') (x : String) :
    s'.plan.reclaims x +
        (ts.map fun t => if dispatchedTask cfg t.before.plan t.event = some x
          then t.before.plan.reclaims x else 0).sum =
      s.plan.reclaims x + takenOver cfg x ts := by
  refine run.account (m := fun s => s.plan.reclaims x) fun t _ hstep => ?_
  rw [step_plan hstep]
  exact reclaims_writes cfg x t.before.plan t.event

/-- No dispatch of the run meets a count to lose. -/
def KeepsReclaims (cfg : Config) (x : String) (ts : List Step) : Prop :=
  ∀ t ∈ ts, dispatchedTask cfg t.before.plan t.event = some x → t.before.plan.reclaims x = 0

theorem reclaims_eq_of_kept (run : Run (step cfg) s ts s') (hkept : KeepsReclaims cfg x ts) :
    s'.plan.reclaims x = s.plan.reclaims x + takenOver cfg x ts := by
  have haccount := reclaims_account run x
  have hlost : (ts.map fun t => if dispatchedTask cfg t.before.plan t.event = some x
      then t.before.plan.reclaims x else 0).sum = 0 := by
    refine List.sum_eq_zero fun n hn => ?_
    obtain ⟨t, ht, rfl⟩ := List.mem_map.mp hn
    split
    · rename_i hd
      exact hkept t ht hd
    · rfl
  omega

theorem reclaims_le (run : Run (step cfg) s ts s') :
    s'.plan.reclaims x ≤ max MAX_DEAD_ASSIGNEE_RECLAIMS (s.plan.reclaims x) := by
  refine run.preserves
    (P := fun s₁ => s₁.plan.reclaims x ≤ max MAX_DEAD_ASSIGNEE_RECLAIMS (s.plan.reclaims x))
    (fun t _ hstep h => ?_) (le_max_right _ _)
  rw [step_plan hstep]
  have hone := reclaims_writes_le cfg x t.before.plan t.event
  omega

/-- Without a dispatch that loses it, the count never falls. -/
theorem reclaims_mono (run : Run (step cfg) s ts s') (hkept : KeepsReclaims cfg x ts) :
    s.plan.reclaims x ≤ s'.plan.reclaims x := by
  rw [reclaims_eq_of_kept run hkept]
  exact Nat.le_add_right _ _

/-- At the cap, no dispatch of such a run is the task's. -/
theorem not_dispatched_of_cap (run : Run (step cfg) s ts s') (hkept : KeepsReclaims cfg x ts)
    (hcap : MAX_DEAD_ASSIGNEE_RECLAIMS ≤ s.plan.reclaims x) {t : Step} (ht : t ∈ ts) :
    dispatchedTask cfg t.before.plan t.event ≠ some x := by
  intro hd
  obtain ⟨us, vs, rfl⟩ := List.append_of_mem ht
  have hmono := reclaims_mono run.split_at.1 fun t ht => hkept t (List.mem_append_left _ ht)
  have hzero := hkept t ht hd
  have hmax : 0 < MAX_DEAD_ASSIGNEE_RECLAIMS := by decide
  omega

theorem Closed.run (run : Run (step cfg) s ts s') (hkept : KeepsReclaims cfg x ts)
    (hauto : ∀ t ∈ ts, Automatic x t.event) (h : Closed x s.plan) : Closed x s'.plan := by
  refine run.preserves (P := fun s => Closed x s.plan) (fun t ht hstep h => ?_) h
  rw [step_plan hstep]
  refine h.writes (hauto t ht) fun hd => ?_
  have hzero := hkept t ht hd
  have hcap := h.capped
  have hmax : 0 < MAX_DEAD_ASSIGNEE_RECLAIMS := by decide
  omega

/-- **The cap on reclaims.**  In a run whose dispatches of a task meet no count to lose, the task is
taken from the dead and queued again at most `MAX_DEAD_ASSIGNEE_RECLAIMS` times, those its record
counts at the start included.  The salvage that then finds it fails it, and no later step of the run
dispatches it; while the steps are automatic, it stays unassigned and not runnable. -/
theorem reclaims_capped (run : Run (step cfg) s ts s') (hkept : KeepsReclaims cfg x ts) :
    takenOver cfg x ts ≤ MAX_DEAD_ASSIGNEE_RECLAIMS - s.plan.reclaims x ∧
      ∀ (ts₁ ts₂ : List Step) (t : Step) (nowMs : ℕ) (sessionId : String),
        ts = ts₁ ++ t :: ts₂ → t.event = .salvage nowMs sessionId →
        x ∈ assignedIds sessionId t.before.plan →
        MAX_DEAD_ASSIGNEE_RECLAIMS ≤ s.plan.reclaims x + takenOver cfg x ts₁ →
        FailedAtCap x t.after.plan ∧
          (∀ t' ∈ ts₂, dispatchedTask cfg t'.before.plan t'.event ≠ some x) ∧
          ((∀ t' ∈ ts₂, Automatic x t'.event) → Closed x s'.plan) := by
  refine ⟨?_, ?_⟩
  · have hle := reclaims_le (x := x) run
    have heq := reclaims_eq_of_kept run hkept
    omega
  · rintro ts₁ ts₂ t nowMs sessionId rfl hevent hheld hcount
    obtain ⟨hbefore, hstep, hafter⟩ := run.split_at
    have hkept₁ : KeepsReclaims cfg x ts₁ := fun t ht => hkept t (List.mem_append_left _ ht)
    have hkept₂ : KeepsReclaims cfg x ts₂ := fun t ht =>
      hkept t (List.mem_append_right _ (List.mem_cons_of_mem _ ht))
    have hcap : MAX_DEAD_ASSIGNEE_RECLAIMS ≤ t.before.plan.reclaims x := by
      rwa [reclaims_eq_of_kept hbefore hkept₁]
    have hplan : t.after.plan = (salvagePlanAssignmentsOf nowMs sessionId t.before.plan).2 := by
      rw [step_plan hstep, hevent]
      rfl
    have hcap' : MAX_DEAD_ASSIGNEE_RECLAIMS ≤ t.after.plan.reclaims x := by
      rw [hplan, (salvage_counters nowMs sessionId x t.before.plan).1]
      omega
    have hfailed : FailedAtCap x t.after.plan := hplan ▸ salvage_failed hcap hheld
    refine ⟨hfailed, fun t' ht' => not_dispatched_of_cap hafter hkept₂ hcap' ht', fun hauto => ?_⟩
    obtain ⟨item, hitem, hs, ha⟩ := hfailed
    refine Closed.run hafter hkept₂ hauto ⟨hcap', fun item' hi => ?_, fun item' hi => ?_⟩
    · rw [hitem] at hi
      cases hi
      exact ha
    · rw [hitem] at hi
      cases hi
      rw [hs]
      exact List.mem_cons_self

end Runs

/-! ### A task that kills its workers -/

/-- The swarm `w` of the session `s`, with the default staleness of 45 seconds. -/
def config : Config where
  env := Server.oneSession
  swarmId := "w"
  order := .insertion
  staleAfterMs := 45000

/-- The text of the task: it carries both markers, so its prompt is the text itself. -/
def taskText : String :=
  "DEEP TASK GRAPH NODE x: map the module. SWARM COMPLETION REPORT REQUIRED."

/-- One task `x`, with a status, an assignee and a progress record. -/
def taskPlan (mode status : String) (assignedTo : Option String)
    (progress : Option SwarmTaskProgress) : LivePlan :=
  { Server.lightPlan
      [{ content := taskText, status := status, priority := "medium", id := "x",
         assignedTo := assignedTo }] with
    mode := mode
    taskProgress := ⟨fun id => if id = "x" then progress else none⟩ }

/-- The task waits, and has no record yet. -/
def waiting (mode : String) : State := { plan := taskPlan mode "queued" none none }

/-- `assign_next` dispatches `x` to a worker, whose turn starts. -/
def dispatchTo (nowMs : ℕ) (worker : String) : List Event :=
  [.pickNext "s" worker none,
   .land nowMs (nextDispatch "s" worker "x" none) true,
   .start nowMs (spawnAssignedTaskRun worker "x" taskText)]

/-- The worker dies, and is salvaged. -/
def deadlyRound (nowMs : ℕ) (worker : String) : List Event :=
  dispatchTo nowMs worker ++ [.salvage (nowMs + 60000) worker]

def deadlyRounds : List Event :=
  deadlyRound 0 "w1" ++ deadlyRound 100000 "w2" ++ deadlyRound 200000 "w3" ++
    deadlyRound 300000 "w4"

theorem deadlyRounds_automatic : ∀ e ∈ deadlyRounds, Automatic "x" e := by
  intro e he
  simp only [deadlyRounds, deadlyRound, dispatchTo, List.cons_append, List.nil_append,
    List.mem_cons, List.not_mem_nil, or_false] at he
  rcases he with rfl | rfl | rfl | rfl | rfl | rfl | rfl | rfl | rfl | rfl | rfl | rfl | rfl |
    rfl | rfl | rfl <;> simp [Automatic, nextDispatch]

/-- **A fourth reclaim.**  Four workers die in turn on a task that nobody but `assign_next`
dispatches; after the fourth it is queued again, not failed. -/
theorem lethal_task_reclaimed :
    ∃ ts s', Run (step config) (waiting "light") ts s' ∧ (∀ t ∈ ts, Automatic "x" t.event) ∧
      MAX_DEAD_ASSIGNEE_RECLAIMS < takenOver config "x" ts ∧
      (s'.plan.findItem "x").map PlanItem.status = some "queued" := by
  have hexec : (exec (step config) (waiting "light") deadlyRounds).map (fun r =>
      (takenOver config "x" r.1, (r.2.plan.findItem "x").map PlanItem.status)) =
      some (4, some "queued") := by
    decide +kernel
  obtain ⟨ts, s', run, hevents, hobs⟩ := Run.of_observed hexec
  obtain ⟨htaken, hstatus⟩ := Prod.mk.inj hobs
  refine ⟨ts, s', run, fun t ht => ?_, by rw [htaken]; decide, hstatus⟩
  exact deadlyRounds_automatic _ (hevents ▸ List.mem_map_of_mem ht)

/-- The worker `w1` runs the task, which was taken from the dead twice before. -/
def takenTwice : State :=
  { plan := taskPlan "light" "running" (some "w1") (some { deadAssigneeReclaims := some 2 }) }

theorem reclaims_capped_takenTwice :
    ∃ ts s', Run (step config) takenTwice ts s' ∧ takenOver config "x" ts = 1 ∧
      takenOver config "x" ts ≤ MAX_DEAD_ASSIGNEE_RECLAIMS - takenTwice.plan.reclaims "x" := by
  have hexec : (exec (step config) takenTwice [.salvage 60000 "w1"]).map (fun r =>
      takenOver config "x" r.1) = some 1 := by
    decide +kernel
  obtain ⟨ts, s', run, hevents, htaken⟩ := Run.of_observed hexec
  refine ⟨ts, s', run, htaken, (reclaims_capped run fun t ht hd => ?_).1⟩
  have hevent : t.event ∈ [Event.salvage 60000 "w1"] := hevents ▸ List.mem_map_of_mem ht
  rw [List.mem_singleton.mp hevent] at hd
  cases hd

end Jcode.Swarm
