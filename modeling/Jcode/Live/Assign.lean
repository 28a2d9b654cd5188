import Jcode.Live.Scheduler

/-!
# Live — assignments and progress

`jcode-plan/src/lib.rs`: the plan with the progress records of its tasks, the choice of the next
task, the release of a task whose assignee is dead, and what a control action allows.  A counter of
32 or 64 bits is a natural number.
-/

namespace Jcode.Live
open Rust Jcode.Bridge

/-- Durable progress of a task. -/
structure SwarmTaskProgress where
  assignedSessionId : Option String := none
  assignmentSummary : Option String := none
  assignedAtUnixMs : Option ℕ := none
  startedAtUnixMs : Option ℕ := none
  lastHeartbeatUnixMs : Option ℕ := none
  lastDetail : Option String := none
  lastCheckpointUnixMs : Option ℕ := none
  checkpointSummary : Option String := none
  completedAtUnixMs : Option ℕ := none
  staleSinceUnixMs : Option ℕ := none
  heartbeatCount : Option ℕ := none
  checkpointCount : Option ℕ := none
  /-- How often a deep turn that ended without an artifact re-queued the task. -/
  noArtifactRequeues : Option ℕ := none
  /-- How often the task was taken from a dead assignee. -/
  deadAssigneeReclaims : Option ℕ := none
  deriving DecidableEq, Repr

/-- The shared plan, with its progress records. -/
structure LivePlan extends VersionedPlan where
  taskProgress : StrMap SwarmTaskProgress

namespace LivePlan

/-- `iter().find(..)` on the id. -/
def findItem (plan : LivePlan) (id : String) : Option PlanItem :=
  plan.items.find? fun item => item.id == id

/-- `iter_mut().find(..)`, and the writes `f` to the item. -/
def setItem (plan : LivePlan) (id : String) (f : PlanItem → PlanItem) : LivePlan :=
  { plan with items := Keyed.updateFirst (fun item => item.id == id) f plan.items }

/-- `task_progress.entry(..).or_default()`, and the writes `f` to the record. -/
def touch (plan : LivePlan) (id : String) (f : SwarmTaskProgress → SwarmTaskProgress) : LivePlan :=
  { plan with taskProgress := plan.taskProgress.insert id (f ((plan.taskProgress.get id).getD {})) }

/-- `version += 1`. -/
def bump (plan : LivePlan) : LivePlan := { plan with version := plan.version + 1 }

/-- Two more participants. -/
def join (plan : LivePlan) (a b : String) : LivePlan :=
  { plan with participants := insert b (insert a plan.participants) }

/-- The reclaims of a task, zero without a record. -/
def reclaims (plan : LivePlan) (id : String) : ℕ :=
  ((plan.taskProgress.get id).bind SwarmTaskProgress.deadAssigneeReclaims).getD 0

/-- The re-queues of a task for a missing artifact, zero without a record. -/
def requeues (plan : LivePlan) (id : String) : ℕ :=
  ((plan.taskProgress.get id).bind SwarmTaskProgress.noArtifactRequeues).getD 0

section Simp
variable (plan : LivePlan) (id id' a b : String)

theorem findItem_setItem {f : PlanItem → PlanItem} (hf : ∀ item, (f item).id = item.id) :
    (plan.setItem id f).findItem id' =
      if id' = id then (plan.findItem id').map f else plan.findItem id' :=
  Keyed.find?_updateFirst plan.items id id' hf

variable {plan id id'} in
/-- The item found after a write to one item. -/
theorem findItem_setItem_eq_some {f : PlanItem → PlanItem} {item' : PlanItem}
    (h : (plan.setItem id f).findItem id' = some item') (hf : ∀ item, (f item).id = item.id) :
    (id' = id ∧ ∃ item, plan.findItem id' = some item ∧ item' = f item) ∨
      (id' ≠ id ∧ plan.findItem id' = some item') := by
  rw [findItem_setItem _ _ _ hf] at h
  split at h
  · rename_i hid
    obtain ⟨item, hitem, rfl⟩ := Option.map_eq_some_iff.mp h
    exact .inl ⟨hid, item, hitem, rfl⟩
  · rename_i hid
    exact .inr ⟨hid, h⟩

@[simp] theorem findItem_touch (f : SwarmTaskProgress → SwarmTaskProgress) :
    (plan.touch id f).findItem id' = plan.findItem id' := rfl

@[simp] theorem findItem_bump : plan.bump.findItem id' = plan.findItem id' := rfl

@[simp] theorem findItem_join : (plan.join a b).findItem id' = plan.findItem id' := rfl

@[simp] theorem taskProgress_setItem (f : PlanItem → PlanItem) :
    (plan.setItem id f).taskProgress = plan.taskProgress := rfl

@[simp] theorem taskProgress_bump : plan.bump.taskProgress = plan.taskProgress := rfl

@[simp] theorem taskProgress_join : (plan.join a b).taskProgress = plan.taskProgress := rfl

theorem get_touch (f : SwarmTaskProgress → SwarmTaskProgress) :
    (plan.touch id f).taskProgress.get id' =
      if id' = id then some (f ((plan.taskProgress.get id).getD {}))
      else plan.taskProgress.get id' := rfl

@[simp] theorem get_touch_self (f : SwarmTaskProgress → SwarmTaskProgress) :
    (plan.touch id f).taskProgress.get id = some (f ((plan.taskProgress.get id).getD {})) :=
  if_pos rfl

@[simp] theorem reclaims_setItem (f : PlanItem → PlanItem) :
    (plan.setItem id f).reclaims id' = plan.reclaims id' := rfl

@[simp] theorem reclaims_bump : plan.bump.reclaims id' = plan.reclaims id' := rfl

@[simp] theorem reclaims_join : (plan.join a b).reclaims id' = plan.reclaims id' := rfl

@[simp] theorem requeues_setItem (f : PlanItem → PlanItem) :
    (plan.setItem id f).requeues id' = plan.requeues id' := rfl

@[simp] theorem requeues_bump : plan.bump.requeues id' = plan.requeues id' := rfl

@[simp] theorem requeues_join : (plan.join a b).requeues id' = plan.requeues id' := rfl

theorem reclaims_touch (f : SwarmTaskProgress → SwarmTaskProgress) :
    (plan.touch id f).reclaims id' =
      if id' = id then
        ((f ((plan.taskProgress.get id).getD {})).deadAssigneeReclaims).getD 0
      else plan.reclaims id' := by
  simp only [reclaims, get_touch]
  split <;> rfl

theorem requeues_touch (f : SwarmTaskProgress → SwarmTaskProgress) :
    (plan.touch id f).requeues id' =
      if id' = id then ((f ((plan.taskProgress.get id).getD {})).noArtifactRequeues).getD 0
      else plan.requeues id' := by
  simp only [requeues, get_touch]
  split <;> rfl

theorem reclaims_getD :
    (((plan.taskProgress.get id).getD {}).deadAssigneeReclaims).getD 0 = plan.reclaims id := by
  unfold reclaims
  cases plan.taskProgress.get id <;> rfl

theorem requeues_getD :
    (((plan.taskProgress.get id).getD {}).noArtifactRequeues).getD 0 = plan.requeues id := by
  unfold requeues
  cases plan.taskProgress.get id <;> rfl

variable {plan id id' a b}

/-- A write that keeps the reclaims of one record keeps those of every task. -/
theorem reclaims_touch_of_eq {f : SwarmTaskProgress → SwarmTaskProgress}
    (hf : ∀ p, (f p).deadAssigneeReclaims = p.deadAssigneeReclaims) :
    (plan.touch id f).reclaims id' = plan.reclaims id' := by
  rw [reclaims_touch, hf, reclaims_getD]
  split
  · rename_i h; rw [h]
  · rfl

theorem requeues_touch_of_eq {f : SwarmTaskProgress → SwarmTaskProgress}
    (hf : ∀ p, (f p).noArtifactRequeues = p.noArtifactRequeues) :
    (plan.touch id f).requeues id' = plan.requeues id' := by
  rw [requeues_touch, hf, requeues_getD]
  split
  · rename_i h; rw [h]
  · rfl

end Simp

end LivePlan

/-! ### The next task -/

section Order
variable (order : IterOrder)

def nextUnassignedRunnableItemId (plan : LivePlan) : Option String :=
  (nextRunnableItemIds order plan.items none).find? fun candidateId =>
    ((plan.findItem candidateId).map fun item => item.assignedTo.isNone).getD false

/-- Cap on the automatic reclaims of a task. -/
def MAX_DEAD_ASSIGNEE_RECLAIMS : ℕ := 3

/-- The first runnable task whose assignee is dead, unless it is at the cap. -/
def nextStrandedRunnableItemId (plan : LivePlan) (assigneeIsDead : String → Bool) : Option String :=
  (nextRunnableItemIds order plan.items none).find? fun candidateId =>
    match plan.findItem candidateId with
    | none => false
    | some item =>
        match item.assignedTo with
        | none => false
        | some assignee =>
            assigneeIsDead assignee && plan.reclaims candidateId < MAX_DEAD_ASSIGNEE_RECLAIMS

end Order

/-- Take a task from its dead assignee, and count it; `false` when it is missing or unassigned. -/
def reclaimStrandedAssignment (plan : LivePlan) (taskId : String) : Bool × LivePlan :=
  match plan.findItem taskId with
  | none => (false, plan)
  | some item =>
      match item.assignedTo with
      | none => (false, plan)
      | some previousAssignee =>
          let plan := plan.setItem taskId fun item => { item with assignedTo := none }
          let plan := plan.touch taskId fun progress =>
            { progress with
              assignedSessionId := none
              deadAssigneeReclaims := some (progress.deadAssigneeReclaims.getD 0 + 1)
              checkpointSummary :=
                some s!"assignment reclaimed: previous assignee {previousAssignee} is dead" }
          (true, plan.bump)

/-! ### Task control -/

inductive TaskControlAction where
  | start
  | wake
  | resume
  | retry
  | reassign
  | replace
  | salvage
  deriving DecidableEq, Repr

def TaskControlAction.asStr : TaskControlAction → String
  | .start => "start"
  | .wake => "wake"
  | .resume => "resume"
  | .retry => "retry"
  | .reassign => "reassign"
  | .replace => "replace"
  | .salvage => "salvage"

/-- A completed task is never reopened by a handoff. -/
def taskControlActionAllowsStatus (action : TaskControlAction) (status : String) : Bool :=
  match action with
  | .start | .wake => status == "queued"
  | .resume => status ∈ ["queued", "running", "running_stale"]
  | .retry => status ∈ ["failed", "running_stale"]
  | .reassign | .replace | .salvage => !isCompletedStatus status

def taskControlStatusError (action : TaskControlAction) (status taskId : String) : String :=
  match action with
  | .start => s!"Task '{taskId}' is '{status}' and cannot be started. "
      ++ "Use start only for queued assignments."
  | .wake => s!"Task '{taskId}' is '{status}' and cannot be woken. "
      ++ "Use wake only for queued assignments."
  | .resume => s!"Task '{taskId}' is '{status}' and cannot be resumed safely."
  | .retry => s!"Task '{taskId}' is '{status}' and cannot be retried. "
      ++ "Retry is only for failed or stale work."
  | .reassign => s!"Task '{taskId}' is already complete. Reassign unfinished work instead."
  | .replace => s!"Task '{taskId}' is already complete. Replace is only for unfinished work."
  | .salvage => s!"Task '{taskId}' is already complete. "
      ++ "Salvage is only for unfinished or failed work."

def combineAssignmentText (content : String) (message : Option String) : String :=
  match message with
  | some extra => s!"{content}\n\nAdditional coordinator instructions:\n{extra}"
  | none => content

def restartInstructionPrefix : TaskControlAction → Option String
  | .resume => some
      "Resume your assigned task from the current session context and continue the work."
  | .retry => some
      "Retry your assigned task. Fix any earlier issues and continue toward completion."
  | _ => none

def buildControlAssignmentText (action : TaskControlAction) (content : String)
    (message : Option String) : String :=
  Rust.join "\n\n" ((restartInstructionPrefix action).toList ++ [content] ++
    (message.map fun extra => s!"Additional coordinator instructions:\n{extra}").toList)

/-! ### Low confidence -/

/-- The completed tasks, gates apart, whose artifact reports low confidence. -/
def lowConfidenceCompletedIds (json : SerdeJson) (parse : String → Option Dag.ConfidenceLevel)
    (plan : VersionedPlan) : List String :=
  (plan.items.filter fun item =>
    isCompletedStatus item.status &&
      match plan.nodeMeta.get item.id with
      | none => false
      | some nodeMeta =>
          !nodeMeta.isGate &&
            ((nodeMeta.artifactJson.bind fun text => (json.fromStr text).toOption).bind
              fun artifact => artifact.confidenceLevel parse) = some .low).map (·.id)

end Jcode.Live
