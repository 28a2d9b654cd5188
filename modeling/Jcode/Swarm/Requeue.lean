import Jcode.Swarm.Reclaim

/-!
# Swarm — one fresh attempt

A turn of a deep plan that ends without an artifact queues its task once more; the next such turn
fails it.  The mark of the first is in the record of the task, and a dispatch loses it.

* `requeued_once`: when no dispatch meets a mark to lose, the task is queued again once, and the
  next turn that ends without an artifact fails it.
* `artifactless_task_loops`: without that, it is queued again after each dispatch.
-/

namespace Jcode.Swarm
open Rust Runs Jcode.Bridge Jcode.Live

variable {cfg : Config} {plan : LivePlan} {x : String}

/-- A turn end that re-queues a task finds no mark. -/
theorem requeues_eq_zero_of_requeuesTask (h : requeuesTask plan x = true) :
    plan.requeues x = 0 := by
  unfold requeuesTask at h
  split at h
  · cases h
  · have hdisp := of_decide_eq_true h
    unfold itemDisposition turnEndDisposition at hdisp
    split at hdisp
    · cases hdisp
    · split at hdisp
      · split at hdisp
        · assumption
        · cases hdisp
      · split at hdisp <;> cases hdisp

theorem requeues_eq_zero_of_turnRequeues {e : Event} (h : turnRequeues x plan e = true) :
    plan.requeues x = 0 := by
  cases e with
  | turnEnd nowMs run result =>
      simp only [turnRequeues, Bool.and_eq_true] at h
      exact requeues_eq_zero_of_requeuesTask h.2
  | _ => cases h

theorem closeTask_findItem {nowMs : ℕ} {status summary : String} {item : PlanItem}
    (h : plan.findItem x = some item) :
    (closeTask nowMs x status summary plan).findItem x = some { item with status := status } := by
  unfold closeTask
  rw [LivePlan.findItem_bump, LivePlan.findItem_touch, LivePlan.findItem_setItem, if_pos rfl, h]
  · rfl
  · intro item
    rfl

/-- With the mark, a turn of a deep plan that ends without an artifact fails its task. -/
theorem endTurnOk_failed {nowMs : ℕ} {item : PlanItem} (hdeep : isDeep plan.toVersionedPlan = true)
    (hitem : plan.findItem x = some item) (hactive : isActiveStatus item.status = true)
    (hmark : plan.requeues x ≠ 0) :
    (endTurnOk nowMs x plan).findItem x = some { item with status := "failed" } := by
  have hdisp : itemDisposition plan x item = .failNoArtifact := by
    simp [itemDisposition, turnEndDisposition, hdeep, hactive, hmark]
  simp only [endTurnOk, hitem, hdisp]
  exact closeTask_findItem hitem

section Runs
variable {s s' : State} {ts : List Step}

/-- No dispatch of the run meets a mark to lose. -/
def KeepsRequeues (cfg : Config) (x : String) (ts : List Step) : Prop :=
  ∀ t ∈ ts, dispatchedTask cfg t.before.plan t.event = some x → t.before.plan.requeues x = 0

/-- The mark, once set, stays. -/
theorem requeues_step {t : Step} (hstep : step cfg t.before t.event = some t.after)
    (hkept : dispatchedTask cfg t.before.plan t.event = some x → t.before.plan.requeues x = 0) :
    t.after.plan.requeues x =
      t.before.plan.requeues x + if turnRequeues x t.before.plan t.event then 1 else 0 := by
  have hwrites := requeues_writes cfg x t.before.plan t.event
  rw [← step_plan hstep] at hwrites
  rw [← hwrites]
  split
  · rename_i hd
    rw [hkept hd, Nat.add_zero]
  · rfl

theorem requeues_mono (run : Run (step cfg) s ts s') (hkept : KeepsRequeues cfg x ts)
    (h : s.plan.requeues x ≠ 0) : s'.plan.requeues x ≠ 0 := by
  refine run.preserves (P := fun s => s.plan.requeues x ≠ 0) (fun t ht hstep h => ?_) h
  rw [requeues_step hstep (hkept t ht)]
  omega

/-- **One fresh attempt.**  In a run whose dispatches of a task meet no mark to lose, turn ends
re-queue the task at most once; after that, each turn of the task that ends without an error while
the task is running in a deep plan fails it. -/
theorem requeued_once (run : Run (step cfg) s ts s') (hkept : KeepsRequeues cfg x ts) :
    ts.countP (fun t => turnRequeues x t.before.plan t.event) ≤ 1 ∧
      ∀ (ts₁ ts₂ : List Step) (t : Step), ts = ts₁ ++ t :: ts₂ →
        turnRequeues x t.before.plan t.event = true →
        ∀ t' ∈ ts₂, ∀ (nowMs : ℕ) (run' : TaskRun) (item : PlanItem),
          t'.event = .turnEnd nowMs run' (.ok ()) → run'.taskId = x →
          isDeep t'.before.plan.toVersionedPlan = true →
          t'.before.plan.findItem x = some item → isActiveStatus item.status = true →
          t'.after.plan.findItem x = some { item with status := "failed" } := by
  refine ⟨run.once (M := fun s => s.plan.requeues x ≠ 0) (fun t ht hstep hrequeue => ?_)
    fun t ht hstep h => ?_, ?_⟩
  · refine ⟨fun h => h (requeues_eq_zero_of_turnRequeues hrequeue), ?_⟩
    rw [requeues_step hstep (hkept t ht), if_pos hrequeue]
    exact Nat.succ_ne_zero _
  · rw [requeues_step hstep (hkept t ht)]
    omega
  · rintro ts₁ ts₂ t rfl hrequeue t' ht' nowMs run' item hevent rfl hdeep hitem hactive
    obtain ⟨-, hstep, hafter⟩ := run.split_at
    have hmark : t.after.plan.requeues run'.taskId ≠ 0 := by
      rw [requeues_step hstep (hkept t (by simp)), if_pos hrequeue]
      exact Nat.succ_ne_zero _
    obtain ⟨us, vs, rfl⟩ := List.append_of_mem ht'
    obtain ⟨hbefore, hstep', -⟩ := hafter.split_at
    have hkept' : KeepsRequeues cfg run'.taskId us := fun u hu => hkept u (by simp [hu])
    rw [step_plan hstep', hevent]
    exact endTurnOk_failed hdeep hitem hactive (requeues_mono hbefore hkept' hmark)

end Runs

/-! ### A worker that never completes its node -/

/-- A turn of `x` that ends without an artifact. -/
def artifactlessTurn (nowMs : ℕ) (worker : String) : List Event :=
  dispatchTo nowMs worker ++
    [.turnEnd (nowMs + 1000) (spawnAssignedTaskRun worker "x" taskText) (.ok ())]

/-- **A second re-queue.**  Each of two turns of a deep plan, dispatched by `assign_next`, ends
without an artifact, and each time the task is queued again. -/
theorem artifactless_task_loops :
    ∃ ts s', Run (step config) (waiting "deep") ts s' ∧
      ts.map Transition.event = artifactlessTurn 0 "w1" ++ artifactlessTurn 100000 "w2" ∧
      ts.countP (fun t => turnRequeues "x" t.before.plan t.event) = 2 ∧
      (s'.plan.findItem "x").map PlanItem.status = some "queued" := by
  have hexec : (exec (step config) (waiting "deep")
      (artifactlessTurn 0 "w1" ++ artifactlessTurn 100000 "w2")).map (fun r =>
        (r.1.countP (fun t => turnRequeues "x" t.before.plan t.event),
          (r.2.plan.findItem "x").map PlanItem.status)) = some (2, some "queued") := by
    decide +kernel
  obtain ⟨ts, s', run, hevents, hobs⟩ := Run.of_observed hexec
  obtain ⟨hcount, hstatus⟩ := Prod.mk.inj hobs
  exact ⟨ts, s', run, hevents, hcount, hstatus⟩

/-- The worker `w1` runs the task, and a second run of it waits to start. -/
def runTwice : State where
  plan := taskPlan "deep" "running" (some "w1") none
  spawned := [spawnAssignedTaskRun "w2" "x" taskText]
  active := [spawnAssignedTaskRun "w1" "x" taskText]

/-- Both runs end without an artifact. -/
def twoTurns : List Event :=
  [.turnEnd 1000 (spawnAssignedTaskRun "w1" "x" taskText) (.ok ()),
   .start 2000 (spawnAssignedTaskRun "w2" "x" taskText),
   .turnEnd 3000 (spawnAssignedTaskRun "w2" "x" taskText) (.ok ())]

theorem requeued_once_runTwice :
    ∃ ts s', Run (step config) runTwice ts s' ∧
      ts.countP (fun t => turnRequeues "x" t.before.plan t.event) = 1 ∧
      ts.countP (fun t => turnRequeues "x" t.before.plan t.event) ≤ 1 ∧
      (s'.plan.findItem "x").map PlanItem.status = some "failed" := by
  have hexec : (exec (step config) runTwice twoTurns).map (fun r =>
      (r.1.countP (fun t => turnRequeues "x" t.before.plan t.event),
        (r.2.plan.findItem "x").map PlanItem.status)) = some (1, some "failed") := by
    decide +kernel
  obtain ⟨ts, s', run, hevents, hobs⟩ := Run.of_observed hexec
  obtain ⟨hcount, hstatus⟩ := Prod.mk.inj hobs
  refine ⟨ts, s', run, hcount, (requeued_once run fun t ht hd => ?_).1, hstatus⟩
  have hevent : t.event ∈ twoTurns := hevents ▸ List.mem_map_of_mem ht
  -- a turn's start and its end dispatch nothing
  simp only [twoTurns, List.mem_cons, List.not_mem_nil, or_false] at hevent
  rcases hevent with e | e | e <;> rw [e] at hd <;> cases hd

end Jcode.Swarm
