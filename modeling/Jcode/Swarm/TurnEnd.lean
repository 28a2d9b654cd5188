import Jcode.Swarm.Requeue

/-!
# Swarm — the end of a turn and its owner

A turn and its end are separate critical sections: while the turn is on, its task may be completed,
salvaged or handed to another worker.  The end of a turn looks at the status of the task, when there
was no error, and at its assignee never.

* `endTurn_changes_iff`: when the end of a turn changes its task.
* `turn_ends_owned_iff`: the turn ends of a run change only tasks that their sessions still run,
  exactly when each turn end finds its task its own, where it would write to it.
* `late_turn_ends_fail_task`: the end of a displaced turn fails the run of the new worker.
-/

namespace Jcode.Swarm
open Rust Runs Jcode.Bridge Jcode.Live

variable {cfg : Config} {plan : LivePlan} {x : String}

/-- The item of the task, or its record, is another one. -/
def Changes (x : String) (plan plan' : LivePlan) : Prop :=
  plan'.findItem x ≠ plan.findItem x ∨ plan'.taskProgress.get x ≠ plan.taskProgress.get x

/-- The task is assigned to the session, and running. -/
def Owns (session x : String) (plan : LivePlan) : Prop :=
  ∃ item, plan.findItem x = some item ∧ item.assignedTo = some session ∧
    isActiveStatus item.status = true

/-- A write that counts a checkpoint changes the record. -/
theorem record_ne {record : Option SwarmTaskProgress} {f : SwarmTaskProgress → SwarmTaskProgress}
    (hf : ∀ p, (f p).checkpointCount = some (p.checkpointCount.getD 0 + 1)) :
    some (f (record.getD {})) ≠ record := by
  intro h
  cases record with
  | none => cases h
  | some p =>
      have hcount := hf p
      rw [show f p = p from Option.some.inj h] at hcount
      cases hp : p.checkpointCount with
      | none => rw [hp] at hcount; cases hcount
      | some n =>
          rw [hp, Option.some_inj, Option.getD_some] at hcount
          omega

theorem touch_changes {plan' : LivePlan} {f : SwarmTaskProgress → SwarmTaskProgress}
    (h : plan'.taskProgress = plan.taskProgress)
    (hf : ∀ p, (f p).checkpointCount = some (p.checkpointCount.getD 0 + 1)) :
    (plan'.touch x f).taskProgress.get x ≠ plan.taskProgress.get x := by
  rw [LivePlan.get_touch_self, h]
  exact record_ne hf

theorem closeTask_changes (nowMs : ℕ) (status summary : String) :
    Changes x plan (closeTask nowMs x status summary plan) := by
  refine .inr ?_
  rw [closeTask, LivePlan.taskProgress_bump]
  refine touch_changes rfl ?_
  intro p
  rfl

theorem requeueNoArtifact_changes (nowMs : ℕ) :
    Changes x plan (requeueNoArtifact nowMs x plan) := by
  refine .inr ?_
  rw [requeueNoArtifact, LivePlan.taskProgress_bump]
  refine touch_changes rfl ?_
  intro p
  rfl

theorem not_changes_self : ¬ Changes x plan plan := fun h => h.elim (fun h => h rfl) fun h => h rfl

/-- The end of a turn changes its task when there is one, and, without an error, its disposition is
not to leave it alone. -/
theorem endTurn_changes_iff {nowMs : ℕ} {result : Except String Unit} :
    Changes x plan (endTurn nowMs x result plan) ↔
      ∃ item, plan.findItem x = some item ∧
        (result = .ok () → itemDisposition plan x item ≠ .leaveAlone) := by
  cases hitem : plan.findItem x with
  | none =>
      have hsame : endTurn nowMs x result plan = plan := by
        cases result <;> simp [endTurn, endTurnOk, endTurnErr, hitem]
      rw [hsame]
      refine iff_of_false not_changes_self ?_
      rintro ⟨item, h, -⟩
      cases h
  | some item =>
      cases result with
      | ok =>
          simp only [endTurn, endTurnOk, hitem, Option.some_inj, exists_eq_left', true_imp_iff]
          cases hdisp : itemDisposition plan x item with
          | autoComplete => exact iff_of_true (closeTask_changes ..) (by simp)
          | requeueNoArtifact => exact iff_of_true (requeueNoArtifact_changes ..) (by simp)
          | failNoArtifact => exact iff_of_true (closeTask_changes ..) (by simp)
          | leaveAlone => exact iff_of_false not_changes_self (by simp)
      | error e =>
          simp only [endTurn, endTurnErr, hitem]
          exact iff_of_true (closeTask_changes ..) ⟨item, rfl, fun h => (by cases h)⟩

/-- Only a running task is not left alone. -/
theorem isActiveStatus_of_disposition {item : PlanItem}
    (h : itemDisposition plan x item ≠ .leaveAlone) : isActiveStatus item.status = true := by
  by_contra hactive
  refine h ?_
  rw [itemDisposition, turnEndDisposition, if_pos (by simpa using hactive)]

/-- The task a turn end would write to is the session's: still assigned to it, and, since an error
fails a task whatever its status is, still running when there was one. -/
def EndsOwn (session x : String) (result : Except String Unit) (plan : LivePlan) : Prop :=
  ∀ item, plan.findItem x = some item →
    match result with
    | .error _ => item.assignedTo = some session ∧ isActiveStatus item.status = true
    | .ok () => itemDisposition plan x item ≠ .leaveAlone → item.assignedTo = some session

/-- One turn end changes its task only as the owner of its run, exactly when it ends its own. -/
theorem endTurn_owned_iff {nowMs : ℕ} {session : String} {result : Except String Unit} :
    (Changes x plan (endTurn nowMs x result plan) → Owns session x plan) ↔
      EndsOwn session x result plan := by
  rw [endTurn_changes_iff]
  cases result with
  | error e =>
      refine ⟨fun h item hitem => ?_, fun h => ?_⟩
      · obtain ⟨item', hitem', hassigned, hactive⟩ := h ⟨item, hitem, fun h => (by cases h)⟩
        cases hitem.symm.trans hitem'
        exact ⟨hassigned, hactive⟩
      · rintro ⟨item, hitem, -⟩
        exact ⟨item, hitem, (h item hitem).1, (h item hitem).2⟩
  | ok =>
      refine ⟨fun h item hitem hdisp => ?_, fun h => ?_⟩
      · obtain ⟨item', hitem', hassigned, -⟩ := h ⟨item, hitem, fun _ => hdisp⟩
        cases hitem.symm.trans hitem'
        exact hassigned
      · rintro ⟨item, hitem, hdisp⟩
        exact ⟨item, hitem, h item hitem (hdisp rfl), isActiveStatus_of_disposition (hdisp rfl)⟩

section Runs
variable {s s' : State} {ts : List Step}

/-- **Turn ends and their owners.**  In a run, the turn ends change only tasks that their sessions
still run, exactly when each of them ends its own. -/
theorem turn_ends_owned_iff (run : Run (step cfg) s ts s') :
    (∀ t ∈ ts, ∀ (nowMs : ℕ) (r : TaskRun) (result : Except String Unit),
      t.event = .turnEnd nowMs r result → Changes r.taskId t.before.plan t.after.plan →
        Owns r.targetSession r.taskId t.before.plan) ↔
      ∀ t ∈ ts, ∀ (nowMs : ℕ) (r : TaskRun) (result : Except String Unit),
        t.event = .turnEnd nowMs r result →
          EndsOwn r.targetSession r.taskId result t.before.plan := by
  have hafter : ∀ t ∈ ts, ∀ (nowMs : ℕ) (r : TaskRun) (result : Except String Unit),
      t.event = .turnEnd nowMs r result →
        t.after.plan = endTurn nowMs r.taskId result t.before.plan := by
    intro t ht nowMs r result hevent
    rw [step_plan (run.step_of_mem ht), hevent]
    rfl
  refine ⟨fun h t ht nowMs r result hevent => ?_, fun h t ht nowMs r result hevent => ?_⟩
  · have hone := h t ht nowMs r result hevent
    rw [hafter t ht nowMs r result hevent] at hone
    exact endTurn_owned_iff.mp hone
  · rw [hafter t ht nowMs r result hevent]
    exact endTurn_owned_iff.mpr (h t ht nowMs r result hevent)

end Runs

/-- The worker `w1` runs `x`. -/
def ownTurn : State where
  plan := taskPlan "light" "running" (some "w1") none
  active := [spawnAssignedTaskRun "w1" "x" taskText]

/-- The turn of `w1` ends, and completes `x`. -/
def ownTurnEnds : Step where
  before := ownTurn
  event := .turnEnd 1000 (spawnAssignedTaskRun "w1" "x" taskText) (.ok ())
  after := { plan := endTurn 1000 "x" (.ok ()) ownTurn.plan }

theorem turn_ends_owned_ownTurn :
    Run (step config) ownTurn [ownTurnEnds] ownTurnEnds.after ∧
      ∀ t ∈ [ownTurnEnds], ∀ (nowMs : ℕ) (r : TaskRun) (result : Except String Unit),
        t.event = .turnEnd nowMs r result → Changes r.taskId t.before.plan t.after.plan →
          Owns r.targetSession r.taskId t.before.plan := by
  have hstep : step config ownTurn ownTurnEnds.event = some ownTurnEnds.after := by
    simp [step, ownTurn, ownTurnEnds, spawnAssignedTaskRun]
  have run : Run (step config) ownTurn [ownTurnEnds] ownTurnEnds.after := .cons hstep (.nil _)
  refine ⟨run, (turn_ends_owned_iff run).mpr fun t ht nowMs r result hevent => ?_⟩
  cases List.mem_singleton.mp ht
  cases hevent
  intro item hitem _
  cases hitem
  rfl

/-! ### A turn that ends late -/

/-- The turn of `w1` falls silent, and `x` is handed to `w2`; then the turn of `w1` fails. -/
def displacedTurn : List Event :=
  dispatchTo 0 "w1" ++
    [.sweep 60000,
     .control { action := .reassign, reqSession := "s", taskId := "x", targetSession := some "w2",
                message := none, priorActivity := "" },
     .land 61000 (.assign { dedupMode := .alwaysDispatch, reqSession := "s", targetSession := "w2",
                            taskId := some "x", message := none }) true,
     .start 62000 (spawnAssignedTaskRun "w2" "x" taskText),
     .turnEnd 63000 (spawnAssignedTaskRun "w1" "x" taskText) (.error "timeout")]

/-- The session `s` completes `x`, and its turn fails after that. -/
def completedTurn : List Event :=
  dispatchTo 0 "s" ++
    [.graph "s" (.completeNode "x" Server.readText),
     .turnEnd 1000 (spawnAssignedTaskRun "s" "x" taskText) (.error "timeout")]

/-- The status and the assignee of `x`. -/
def seen (plan : LivePlan) : Option (String × Option String) :=
  (plan.findItem "x").map fun item => (item.status, item.assignedTo)

/-- The last transition of a run, by what it finds of `x` and what it leaves. -/
def lastSeen (ts : List Step) :
    Option (Option (String × Option String) × Option (String × Option String)) :=
  ts.getLast?.map fun t => (seen t.before.plan, seen t.after.plan)

/-- A turn end of `r` changes its task, which its session does not run any more. -/
def EndsAnothers (t : Step) (r : TaskRun) : Prop :=
  (∃ nowMs result, t.event = .turnEnd nowMs r result) ∧
    Changes r.taskId t.before.plan t.after.plan ∧ ¬ Owns r.targetSession r.taskId t.before.plan

/-- Read off what the last transition of a run finds and leaves. -/
theorem endsAnothers_of_lastSeen {ts : List Step} (es : List Event) {nowMs : ℕ}
    {result : Except String Unit} {worker status status' : String}
    {assignedTo assignedTo' : Option String}
    (hevents : ts.map Transition.event =
      es ++ [.turnEnd nowMs (spawnAssignedTaskRun worker "x" taskText) result])
    (hseen : lastSeen ts = some (some (status, assignedTo), some (status', assignedTo')))
    (hne : status' ≠ status)
    (hnot : assignedTo ≠ some worker ∨ isActiveStatus status = false) :
    ∃ t ∈ ts, EndsAnothers t (spawnAssignedTaskRun worker "x" taskText) := by
  obtain ⟨t, hlast, hobs⟩ := Option.map_eq_some_iff.mp hseen
  obtain ⟨hbefore, hafter⟩ := Prod.mk.inj hobs
  obtain ⟨item, hitem, hpair⟩ := Option.map_eq_some_iff.mp hbefore
  obtain ⟨item', hitem', hpair'⟩ := Option.map_eq_some_iff.mp hafter
  cases hpair
  cases hpair'
  have hevent : t.event = .turnEnd nowMs (spawnAssignedTaskRun worker "x" taskText) result := by
    have hmap := congrArg List.getLast? hevents
    rw [List.getLast?_map, hlast, List.getLast?_append] at hmap
    exact Option.some.inj hmap
  refine ⟨t, List.mem_of_getLast? hlast, ⟨nowMs, result, hevent⟩, .inl fun h => hne ?_, ?_⟩
  · have hsame := hitem'.symm.trans (h.trans hitem)
    exact congrArg PlanItem.status (Option.some.inj hsame)
  · rintro ⟨found, hfound, hassigned, hactive⟩
    cases hfound.symm.trans hitem
    rcases hnot with hne | hdone
    · exact hne hassigned
    · rw [hactive] at hdone
      cases hdone

/-- **Two late turn ends.**  The failing turn of a displaced worker fails the run of the worker that
took over, and a turn that fails after its task was completed fails the task. -/
theorem late_turn_ends_fail_task :
    (∃ ts s', Run (step config) (waiting "light") ts s' ∧
      lastSeen ts = some (some ("running", some "w2"), some ("failed", some "w2")) ∧
      ∃ t ∈ ts, EndsAnothers t (spawnAssignedTaskRun "w1" "x" taskText)) ∧
    ∃ ts s', Run (step config) (waiting "light") ts s' ∧
      lastSeen ts = some (some ("completed", some "s"), some ("failed", some "s")) ∧
      ∃ t ∈ ts, EndsAnothers t (spawnAssignedTaskRun "s" "x" taskText) := by
  have hdisplaced : (exec (step config) (waiting "light") displacedTurn).map
      (fun r => lastSeen r.1) =
        some (some (some ("running", some "w2"), some ("failed", some "w2"))) := by
    decide +kernel
  have hcompleted : (exec (step config) (waiting "light") completedTurn).map
      (fun r => lastSeen r.1) =
        some (some (some ("completed", some "s"), some ("failed", some "s"))) := by
    decide +kernel
  refine ⟨?_, ?_⟩
  · obtain ⟨ts, s', run, hevents, hseen⟩ := Run.of_observed hdisplaced
    exact ⟨ts, s', run, hseen, endsAnothers_of_lastSeen
      displacedTurn.dropLast hevents hseen (by decide) (.inl (by decide))⟩
  · obtain ⟨ts, s', run, hevents, hseen⟩ := Run.of_observed hcompleted
    exact ⟨ts, s', run, hseen, endsAnothers_of_lastSeen
      completedTurn.dropLast hevents hseen (by decide) (.inr (by decide))⟩

end Jcode.Swarm
