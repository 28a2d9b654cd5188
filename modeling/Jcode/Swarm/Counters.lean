import Jcode.Swarm.Steps

/-!
# Swarm — the counters of a task

The two counters of a progress record bound how often a task may be tried again.  Every write to
the plan keeps them, except those that count, and a dispatch: its record is a fresh one.

* `reclaims_writes`: the reclaims change where a task is taken from a dead assignee, and where it
  is dispatched.
* `requeues_writes`: the re-queues change where a deep turn ends without an artifact, and where the
  task is dispatched.
-/

namespace Jcode.Swarm
open Rust Jcode.Bridge Jcode.Live

/-! ### Writes that keep both counters -/

/-- Both counters of every task are the same. -/
structure SameCounters (plan plan' : LivePlan) : Prop where
  reclaims : ∀ x, plan'.reclaims x = plan.reclaims x
  requeues : ∀ x, plan'.requeues x = plan.requeues x

namespace SameCounters
variable {plan plan' plan'' : LivePlan}

theorem refl (plan : LivePlan) : SameCounters plan plan := ⟨fun _ => rfl, fun _ => rfl⟩

theorem trans (h : SameCounters plan plan') (h' : SameCounters plan' plan'') :
    SameCounters plan plan'' :=
  ⟨fun x => (h'.reclaims x).trans (h.reclaims x), fun x => (h'.requeues x).trans (h.requeues x)⟩

/-- The counters are read from the records only. -/
theorem of_taskProgress (h : plan'.taskProgress = plan.taskProgress) : SameCounters plan plan' := by
  refine ⟨fun x => ?_, fun x => ?_⟩
  · rw [LivePlan.reclaims, h, LivePlan.reclaims]
  · rw [LivePlan.requeues, h, LivePlan.requeues]

theorem setItem (h : SameCounters plan plan') (id : String) (f : PlanItem → PlanItem) :
    SameCounters plan (plan'.setItem id f) :=
  h.trans (.of_taskProgress rfl)

theorem bump (h : SameCounters plan plan') : SameCounters plan plan'.bump :=
  h.trans (.of_taskProgress rfl)

theorem join (h : SameCounters plan plan') (a b : String) : SameCounters plan (plan'.join a b) :=
  h.trans (.of_taskProgress rfl)

theorem touch (h : SameCounters plan plan') {id : String}
    {f : SwarmTaskProgress → SwarmTaskProgress}
    (hf : ∀ p, (f p).deadAssigneeReclaims = p.deadAssigneeReclaims ∧
      (f p).noArtifactRequeues = p.noArtifactRequeues) :
    SameCounters plan (plan'.touch id f) :=
  h.trans ⟨fun _ => LivePlan.reclaims_touch_of_eq fun p => (hf p).1,
    fun _ => LivePlan.requeues_touch_of_eq fun p => (hf p).2⟩

end SameCounters

variable {plan : LivePlan}

theorem startTurn_counters (nowMs : ℕ) (run : TaskRun) :
    SameCounters plan (startTurn nowMs run plan) := by
  unfold startTurn
  split
  · exact .refl plan
  · exact .bump (.touch (.setItem (.refl plan) _ _) fun _ => ⟨rfl, rfl⟩)

theorem touchSwarmTaskProgress_counters (nowMs : ℕ) (taskId : String)
    (sessionId detail checkpointSummary : Option String) :
    SameCounters plan
      (touchSwarmTaskProgress nowMs taskId sessionId detail checkpointSummary plan) := by
  unfold touchSwarmTaskProgress
  split
  · exact .refl plan
  · dsimp only
    -- the report of a checkpoint writes three more fields, none of them a counter
    split
    · refine .bump (.touch (.setItem (.touch (.refl plan) ?_) _ _) fun _ => ⟨rfl, rfl⟩)
      intro p
      cases checkpointSummary <;> exact ⟨rfl, rfl⟩
    · refine .touch (.refl plan) ?_
      intro p
      cases checkpointSummary <;> exact ⟨rfl, rfl⟩

theorem refreshItem_counters (nowMs staleAfterMs : ℕ) (item : PlanItem) :
    SameCounters plan (refreshItem nowMs staleAfterMs item plan).2 := by
  unfold refreshItem
  have hentry : SameCounters plan (plan.touch item.id id) :=
    .touch (.refl plan) fun _ => ⟨rfl, rfl⟩
  split
  · exact .refl plan
  · dsimp only
    split
    · exact .bump (.touch hentry fun _ => ⟨rfl, rfl⟩)
    · exact .bump (.touch hentry fun _ => ⟨rfl, rfl⟩)
    · exact hentry

theorem refreshItems_counters (nowMs staleAfterMs : ℕ) (items : List PlanItem) (plan : LivePlan) :
    SameCounters plan (refreshItems nowMs staleAfterMs items plan).2 := by
  induction items generalizing plan with
  | nil => exact .refl plan
  | cons item items ih =>
      exact (refreshItem_counters nowMs staleAfterMs item).trans (ih _)

theorem refreshSwarmTaskStaleness_counters (nowMs staleAfterMs : ℕ) :
    SameCounters plan (refreshSwarmTaskStaleness nowMs staleAfterMs plan) :=
  (refreshItems_counters nowMs staleAfterMs plan.items plan).trans (.of_taskProgress rfl)

theorem requeueExistingAssignment_counters (nowMs : ℕ)
    (reqSession assignee taskId assignmentSummary : String) :
    SameCounters plan (requeueExistingAssignment nowMs plan reqSession assignee taskId
      assignmentSummary) := by
  unfold requeueExistingAssignment
  split
  · exact .refl plan
  · refine .join (.bump (.touch (.setItem (.refl plan) _ _) ?_)) _ _
    intro p
    exact ⟨rfl, rfl⟩

theorem closeTask_counters (nowMs : ℕ) (taskId status summary : String) :
    SameCounters plan (closeTask nowMs taskId status summary plan) := by
  unfold closeTask
  exact .bump (.touch (.setItem (.refl plan) _ _) fun _ => ⟨rfl, rfl⟩)

theorem graphRequest_counters (cfg : Config) (session : String) (request : Server.Request) :
    SameCounters plan (graphRequest cfg session request plan) := by
  refine .of_taskProgress ?_
  simp only [graphRequest]
  split <;> rfl

/-! ### Writes that count -/

/-- The end of a turn without an error re-queues the task. -/
def requeuesTask (plan : LivePlan) (x : String) : Bool :=
  match plan.findItem x with
  | none => false
  | some item => itemDisposition plan x item = .requeueNoArtifact

theorem requeueNoArtifact_reclaims (nowMs : ℕ) (taskId x : String) :
    (requeueNoArtifact nowMs taskId plan).reclaims x = plan.reclaims x := by
  unfold requeueNoArtifact
  rw [LivePlan.reclaims_bump, LivePlan.reclaims_touch_of_eq, LivePlan.reclaims_setItem]
  intro p
  rfl

theorem requeueNoArtifact_requeues (nowMs : ℕ) (taskId x : String) :
    (requeueNoArtifact nowMs taskId plan).requeues x =
      if x = taskId then plan.requeues taskId + 1 else plan.requeues x := by
  unfold requeueNoArtifact
  rw [LivePlan.requeues_bump, LivePlan.requeues_touch, LivePlan.requeues_setItem]
  rfl

theorem endTurn_reclaims (nowMs : ℕ) (taskId : String) (result : Except String Unit) (x : String) :
    (endTurn nowMs taskId result plan).reclaims x = plan.reclaims x := by
  cases result with
  | ok =>
      simp only [endTurn, endTurnOk]
      split
      · rfl
      · split
        · exact (closeTask_counters ..).reclaims x
        · exact requeueNoArtifact_reclaims ..
        · exact (closeTask_counters ..).reclaims x
        · rfl
  | error e =>
      simp only [endTurn, endTurnErr]
      split
      · rfl
      · exact (closeTask_counters ..).reclaims x

theorem endTurn_requeues (nowMs : ℕ) (taskId : String) (result : Except String Unit) (x : String) :
    (endTurn nowMs taskId result plan).requeues x =
      plan.requeues x + if result.toBool ∧ taskId = x ∧ requeuesTask plan x then 1 else 0 := by
  cases result with
  | ok =>
      simp only [endTurn, endTurnOk, Except.toBool, true_and]
      by_cases hx : taskId = x
      · subst hx
        cases hitem : plan.findItem taskId with
        | none => simp [requeuesTask, hitem]
        | some item =>
            have hr : requeuesTask plan taskId = decide
                (itemDisposition plan taskId item = .requeueNoArtifact) := by
              rw [requeuesTask, hitem]
            cases hd : itemDisposition plan taskId item with
            | autoComplete => simp [hr, hd, (closeTask_counters ..).requeues]
            | requeueNoArtifact => simp [hr, hd, requeueNoArtifact_requeues]
            | failNoArtifact => simp [hr, hd, (closeTask_counters ..).requeues]
            | leaveAlone => simp [hr, hd]
      · -- another task: none of the branches writes its record
        rw [if_neg fun h => hx h.1, Nat.add_zero]
        split
        · rfl
        · split
          · exact (closeTask_counters ..).requeues x
          · rw [requeueNoArtifact_requeues, if_neg fun e => hx e.symm]
          · exact (closeTask_counters ..).requeues x
          · rfl
  | error e =>
      simp only [endTurn, endTurnErr, Except.toBool]
      split
      · simp
      · simp [(closeTask_counters ..).requeues x]

/-- A task that is not assigned is not reclaimed. -/
theorem reclaim_eq_false {taskId : String} {plan' : LivePlan}
    (h : reclaimStrandedAssignment plan taskId = (false, plan')) : plan' = plan := by
  unfold reclaimStrandedAssignment at h
  split at h
  · cases h; rfl
  · split at h <;> cases h
    rfl

/-- What a reclaim leaves: the item without its assignee, and one more in the count. -/
theorem reclaim_eq_true {taskId : String} {plan' : LivePlan}
    (h : reclaimStrandedAssignment plan taskId = (true, plan')) :
    (∃ item, plan.findItem taskId = some item ∧ item.assignedTo ≠ none) ∧
      (∀ x, plan'.findItem x = if x = taskId
        then (plan.findItem x).map fun item => { item with assignedTo := none }
        else plan.findItem x) ∧
      (∀ x, plan'.reclaims x = plan.reclaims x + if x = taskId then 1 else 0) ∧
      ∀ x, plan'.requeues x = plan.requeues x := by
  unfold reclaimStrandedAssignment at h
  split at h
  · cases h
  · rename_i item hitem
    split at h <;> cases h
    rename_i assignee hassignee
    refine ⟨⟨item, hitem, by simp [hassignee]⟩, fun x => ?_, fun x => ?_, fun x => ?_⟩
    · rw [LivePlan.findItem_bump, LivePlan.findItem_touch, LivePlan.findItem_setItem]
      intro item
      rfl
    · rw [LivePlan.reclaims_bump, LivePlan.reclaims_touch, LivePlan.reclaims_setItem]
      split
      · rename_i e
        simp [e, LivePlan.reclaims_getD]
      · rfl
    · rw [LivePlan.requeues_bump, LivePlan.requeues_touch_of_eq, LivePlan.requeues_setItem]
      intro p
      rfl

/-- A round of the salvage at the cap: the task fails, and its counters are kept. -/
theorem salvageTask_of_cap (nowMs : ℕ) (sessionId : String) {taskId : String}
    (outcome : DeadMemberSalvage) (hcap : MAX_DEAD_ASSIGNEE_RECLAIMS ≤ plan.reclaims taskId) :
    let after := salvageTask nowMs sessionId (outcome, plan) taskId
    after.1.requeuedTaskIds = outcome.requeuedTaskIds ∧ SameCounters plan after.2 ∧
      ∀ x, after.2.findItem x = if x = taskId
        then (plan.findItem x).map fun item => { item with status := "failed", assignedTo := none }
        else plan.findItem x := by
  simp only [salvageTask, if_pos hcap]
  refine ⟨trivial, ?_, fun x => ?_⟩
  · refine .bump (.touch (.setItem (.refl plan) _ _) ?_)
    intro p
    exact ⟨rfl, rfl⟩
  · rw [LivePlan.findItem_bump, LivePlan.findItem_touch, LivePlan.findItem_setItem]
    intro item
    rfl

/-- A round below the cap: nothing, or the task is queued again, without its assignee. -/
theorem salvageTask_below_cap (nowMs : ℕ) (sessionId : String) {taskId : String}
    (outcome : DeadMemberSalvage) (hcap : plan.reclaims taskId < MAX_DEAD_ASSIGNEE_RECLAIMS) :
    let after := salvageTask nowMs sessionId (outcome, plan) taskId
    after = (outcome, plan) ∨
      after.1.requeuedTaskIds = outcome.requeuedTaskIds ++ [taskId] ∧
      (∀ x, after.2.reclaims x = plan.reclaims x + if x = taskId then 1 else 0) ∧
      (∀ x, after.2.requeues x = plan.requeues x) ∧
      ∀ x, x ≠ taskId → after.2.findItem x = plan.findItem x := by
  simp only [salvageTask, if_neg (Nat.not_le.mpr hcap)]
  split
  · rename_i plan' h
    rw [reclaim_eq_false h]
    exact .inl rfl
  · rename_i plan' h
    obtain ⟨-, hitem, hreclaims, hrequeues⟩ := reclaim_eq_true h
    have hsame : SameCounters plan'
        ((plan'.setItem taskId fun item => { item with status := "queued" }).touch taskId
          fun progress => { progress with staleSinceUnixMs := none }) := by
      refine .touch (.setItem (.refl plan') _ _) ?_
      intro p
      exact ⟨rfl, rfl⟩
    refine .inr ⟨rfl, fun x => ?_, fun x => ?_, fun x hx => ?_⟩
    · rw [hsame.reclaims, hreclaims]
    · rw [hsame.requeues, hrequeues]
    · rw [LivePlan.findItem_touch, LivePlan.findItem_setItem, if_neg hx, hitem, if_neg hx]
      intro item
      rfl

/-- One round of a salvage counts what it queues again, and only below the cap. -/
theorem salvageTask_counters (nowMs : ℕ) (sessionId taskId x : String)
    (state : DeadMemberSalvage × LivePlan) :
    let after := salvageTask nowMs sessionId state taskId
    after.2.reclaims x + state.1.requeuedTaskIds.count x =
        state.2.reclaims x + after.1.requeuedTaskIds.count x ∧
      state.2.reclaims x ≤ after.2.reclaims x ∧
      after.2.reclaims x ≤ max MAX_DEAD_ASSIGNEE_RECLAIMS (state.2.reclaims x) ∧
      after.2.requeues x = state.2.requeues x := by
  obtain ⟨outcome, plan⟩ := state
  intro after
  by_cases hcap : MAX_DEAD_ASSIGNEE_RECLAIMS ≤ plan.reclaims taskId
  · obtain ⟨hout, hsame, -⟩ := salvageTask_of_cap nowMs sessionId outcome hcap
    rw [hout, hsame.reclaims, hsame.requeues]
    exact ⟨rfl, le_rfl, le_max_right _ _, rfl⟩
  · rcases salvageTask_below_cap nowMs sessionId outcome (Nat.lt_of_not_le hcap) with
      h | ⟨hout, hreclaims, hrequeues, -⟩
    · simp only [after, h]
      exact ⟨trivial, le_rfl, le_max_right _ _, trivial⟩
    · rw [hout, hreclaims, hrequeues, List.count_append, List.count_singleton]
      by_cases hx : x = taskId
      · subst hx
        simp
        omega
      · simp [hx, Ne.symm hx]

/-- **The salvage rule.**  What the rounds preserve, the salvage preserves. -/
theorem salvage_preserves {P : DeadMemberSalvage × LivePlan → Prop} (nowMs : ℕ)
    (sessionId : String)
    (hP : ∀ state taskId, P state → P (salvageTask nowMs sessionId state taskId))
    (h₀ : P ({}, plan)) : P (salvagePlanAssignmentsOf nowMs sessionId plan) :=
  List.foldlRecOn _ _ h₀ fun state h taskId _ => hP state taskId h

/-- A salvage counts what it queues again, and stays within the cap. -/
theorem salvage_counters (nowMs : ℕ) (sessionId x : String) (plan : LivePlan) :
    let after := salvagePlanAssignmentsOf nowMs sessionId plan
    after.2.reclaims x = plan.reclaims x + after.1.requeuedTaskIds.count x ∧
      after.2.reclaims x ≤ max MAX_DEAD_ASSIGNEE_RECLAIMS (plan.reclaims x) ∧
      after.2.requeues x = plan.requeues x := by
  refine salvage_preserves (P := fun state =>
    state.2.reclaims x = plan.reclaims x + state.1.requeuedTaskIds.count x ∧
      state.2.reclaims x ≤ max MAX_DEAD_ASSIGNEE_RECLAIMS (plan.reclaims x) ∧
      state.2.requeues x = plan.requeues x) nowMs sessionId ?_ ⟨rfl, le_max_right _ _, rfl⟩
  rintro state taskId ⟨h₁, h₂, h₃⟩
  obtain ⟨h₁', -, h₂', h₃'⟩ := salvageTask_counters nowMs sessionId taskId x state
  refine ⟨by omega, by omega, h₃'.trans h₃⟩

/-! ### Dispatch -/

variable {cfg : Config}

/-- What a dispatch that is not refused does: the item is queued for the target, and its record is a
fresh one. -/
theorem assignTask_eq_ok {nowMs : ℕ} {d : Dispatch} {run : TaskRun} {plan' : LivePlan}
    (h : assignTask cfg nowMs plan d = .ok (run, plan')) :
    (∀ x, plan'.findItem x = if x = run.taskId
        then (plan.findItem x).map fun item =>
          { item with assignedTo := some d.targetSession, status := "queued" }
        else plan.findItem x) ∧
      (∀ x, plan'.reclaims x = if x = run.taskId then 0 else plan.reclaims x) ∧
      ∀ x, plan'.requeues x = if x = run.taskId then 0 else plan.requeues x := by
  unfold assignTask at h
  dsimp only at h
  split at h
  · cases h
  · split at h
    · split at h <;> cases h
    · cases h
      refine ⟨fun x => ?_, fun x => ?_, fun x => ?_⟩
      · rw [LivePlan.findItem_join, LivePlan.findItem_bump, LivePlan.findItem_touch,
          LivePlan.findItem_setItem]
        · rfl
        · intro item; rfl
      · rw [LivePlan.reclaims_join, LivePlan.reclaims_bump, LivePlan.reclaims_touch]
        rfl
      · rw [LivePlan.requeues_join, LivePlan.requeues_bump, LivePlan.requeues_touch]
        rfl

/-! ### The step -/

variable (cfg)

/-- The task an event dispatches. -/
def dispatchedTask (plan : LivePlan) : Event → Option String
  | .land nowMs (.assign d) _ => (assignTask cfg nowMs plan d).toOption.map fun r => r.1.taskId
  | _ => none

/-- How often an event takes a task from a dead assignee, and makes it runnable again. -/
def takenFromDead (x : String) (plan : LivePlan) : Event → ℕ
  | .reclaimNext memberStatuses _ _ _ =>
      match reclaimNextStranded cfg memberStatuses plan with
      | some (taskId, _) => if taskId = x then 1 else 0
      | none => 0
  | .salvage nowMs sessionId =>
      (salvagePlanAssignmentsOf nowMs sessionId plan).1.requeuedTaskIds.count x
  | _ => 0

/-- An event is the end of a turn that re-queues the task for its missing artifact. -/
def turnRequeues (x : String) (plan : LivePlan) : Event → Bool
  | .turnEnd _ run result => result.toBool && run.taskId == x && requeuesTask plan x
  | _ => false

variable {cfg}

/-- A task taken from a dead assignee was below the cap. -/
theorem reclaimNextStranded_eq_some {memberStatuses : StrMap String} {taskId : String}
    {plan' : LivePlan} (h : reclaimNextStranded cfg memberStatuses plan = some (taskId, plan')) :
    reclaimStrandedAssignment plan taskId = (true, plan') ∧
      plan.reclaims taskId < MAX_DEAD_ASSIGNEE_RECLAIMS := by
  unfold reclaimNextStranded at h
  split at h
  · cases h
  · rename_i hnext
    have hfound := List.find?_some hnext
    split at h <;> cases h
    rename_i hplan
    refine ⟨hplan, ?_⟩
    split at hfound
    · cases hfound
    · split at hfound
      · cases hfound
      · exact of_decide_eq_true (Bool.and_eq_true_iff.mp hfound).2

theorem writes_assign_ok (runs : Bool) {nowMs : ℕ} {d : Dispatch} {run : TaskRun}
    {plan' : LivePlan} (h : assignTask cfg nowMs plan d = .ok (run, plan')) :
    (Event.land nowMs (.assign d) runs).writes cfg plan = plan' ∧
      dispatchedTask cfg plan (.land nowMs (.assign d) runs) = some run.taskId := by
  simp [Event.writes, Pending.land, dispatchedTask, h, Except.toOption]

theorem writes_assign_error (runs : Bool) {nowMs : ℕ} {d : Dispatch} {e : String}
    (h : assignTask cfg nowMs plan d = .error e) :
    (Event.land nowMs (.assign d) runs).writes cfg plan = plan ∧
      dispatchedTask cfg plan (.land nowMs (.assign d) runs) = none := by
  simp [Event.writes, Pending.land, dispatchedTask, h, Except.toOption]

variable (cfg)

/-- **What one step does to the reclaims of a task.** -/
theorem reclaims_writes (x : String) (plan : LivePlan) (e : Event) :
    (e.writes cfg plan).reclaims x +
        (if dispatchedTask cfg plan e = some x then plan.reclaims x else 0) =
      plan.reclaims x + takenFromDead cfg x plan e := by
  cases e with
  | assignTask => rfl
  | pickNext => rfl
  | reclaimNext memberStatuses =>
      simp only [Event.writes, takenFromDead, dispatchedTask]
      cases hr : reclaimNextStranded cfg memberStatuses plan with
      | none => rfl
      | some r =>
          obtain ⟨taskId, plan'⟩ := r
          obtain ⟨hplan, -⟩ := reclaimNextStranded_eq_some hr
          simp [(reclaim_eq_true hplan).2.2.1 x, eq_comm]
  | control => rfl
  | land nowMs p runs =>
      cases p with
      | assign d =>
          cases ha : assignTask cfg nowMs plan d with
          | error e =>
              obtain ⟨hw, hd⟩ := writes_assign_error runs ha
              simp [hw, hd, takenFromDead]
          | ok r =>
              obtain ⟨run, plan'⟩ := r
              obtain ⟨hw, hd⟩ := writes_assign_ok runs ha
              rw [hw, hd, (assignTask_eq_ok ha).2.1 x]
              by_cases hx : x = run.taskId
              · simp [hx, takenFromDead]
              · simp [hx, Ne.symm hx, takenFromDead]
      | requeue => exact (requeueExistingAssignment_counters ..).reclaims x
  | start => exact (startTurn_counters ..).reclaims x
  | heartbeat => exact (touchSwarmTaskProgress_counters ..).reclaims x
  | turnEnd => exact endTurn_reclaims ..
  | sweep => exact (refreshSwarmTaskStaleness_counters ..).reclaims x
  | salvage => exact (salvage_counters ..).1
  | graph => exact (graphRequest_counters ..).reclaims x

/-- The reclaims stay within the cap. -/
theorem reclaims_writes_le (x : String) (plan : LivePlan) (e : Event) :
    (e.writes cfg plan).reclaims x ≤ max MAX_DEAD_ASSIGNEE_RECLAIMS (plan.reclaims x) := by
  have hstep := reclaims_writes cfg x plan e
  cases e with
  | reclaimNext memberStatuses =>
      simp only [Event.writes]
      cases hr : reclaimNextStranded cfg memberStatuses plan with
      | none => exact le_max_right _ _
      | some r =>
          obtain ⟨taskId, plan'⟩ := r
          obtain ⟨hplan, hcap⟩ := reclaimNextStranded_eq_some hr
          rw [Option.map_some, Option.getD_some, (reclaim_eq_true hplan).2.2.1 x]
          split
          · rename_i hx
            rw [hx]
            omega
          · omega
  | salvage => exact (salvage_counters ..).2.1
  | _ =>
      simp only [takenFromDead] at hstep
      omega

/-- **What one step does to the re-queues of a task.** -/
theorem requeues_writes (x : String) (plan : LivePlan) (e : Event) :
    (e.writes cfg plan).requeues x +
        (if dispatchedTask cfg plan e = some x then plan.requeues x else 0) =
      plan.requeues x + if turnRequeues x plan e then 1 else 0 := by
  cases e with
  | assignTask => rfl
  | pickNext => rfl
  | reclaimNext memberStatuses =>
      simp only [Event.writes, turnRequeues, dispatchedTask]
      cases hr : reclaimNextStranded cfg memberStatuses plan with
      | none => rfl
      | some r =>
          obtain ⟨taskId, plan'⟩ := r
          exact (reclaim_eq_true (reclaimNextStranded_eq_some hr).1).2.2.2 x
  | control => rfl
  | land nowMs p runs =>
      cases p with
      | assign d =>
          cases ha : assignTask cfg nowMs plan d with
          | error e =>
              obtain ⟨hw, hd⟩ := writes_assign_error runs ha
              simp [hw, hd, turnRequeues]
          | ok r =>
              obtain ⟨run, plan'⟩ := r
              obtain ⟨hw, hd⟩ := writes_assign_ok runs ha
              rw [hw, hd, (assignTask_eq_ok ha).2.2 x]
              by_cases hx : x = run.taskId
              · simp [hx, turnRequeues]
              · simp [hx, Ne.symm hx, turnRequeues]
      | requeue => exact (requeueExistingAssignment_counters ..).requeues x
  | start => exact (startTurn_counters ..).requeues x
  | heartbeat => exact (touchSwarmTaskProgress_counters ..).requeues x
  | turnEnd nowMs run result =>
      simp only [Event.writes, turnRequeues, dispatchedTask, endTurn_requeues]
      simp [and_assoc]
  | sweep => exact (refreshSwarmTaskStaleness_counters ..).requeues x
  | salvage => exact (salvage_counters ..).2.2
  | graph => exact (graphRequest_counters ..).requeues x

end Jcode.Swarm
