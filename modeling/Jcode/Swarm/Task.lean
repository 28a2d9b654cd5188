import Jcode.Live.Assign
import Jcode.Server.CommGraph
import Jcode.Swarm.Prompts

/-!
# Swarm — the writes to a task

`jcode-app-core/src/server/comm_control.rs` and `swarm.rs`: what a dispatch, a turn, a heartbeat,
the stale sweep and the salvage of a dead worker write to the plan of their swarm, each under one
lock of the plans.
-/

namespace Jcode.Swarm
open Rust Jcode.Bridge Jcode.Live

/-- What the steps of a swarm read and do not write. -/
structure Config where
  env : Server.Env
  swarmId : String
  order : IterOrder
  /-- `swarm_task_stale_after`, in milliseconds. -/
  staleAfterMs : ℕ

/-! ### Texts -/

/-- One line, cut at `maxLen` characters. -/
def truncateDetail (text : String) (maxLen : ℕ) : String :=
  let trimmed := trim (Rust.join " " (splitWhitespace text))
  let maxLen := max maxLen 1
  if trimmed.length ≤ maxLen then trimmed
  else if maxLen ≤ 3 then String.ofList (trimmed.toList.take maxLen)
  else String.ofList (trimmed.toList.take (maxLen - 3)) ++ "..."

/-- A composite that is woken again is asked to synthesize. -/
def compositeSynthesisContent (itemId rawContent : String) (isCompositeSynthesis : Bool) : String :=
  if isCompositeSynthesis then
    s!"Synthesis turn for composite node '{itemId}'. Its children (and the deep-mode "
      ++ "critique/verify gate) are complete; their outputs are provided below. Read them, "
      ++ "write one synthesized result, and finish by calling `swarm complete_node` with "
      ++ s!"node_id=\"{itemId}\" and an artifact summarizing the integrated findings. Do NOT "
      ++ s!"call expand_node again. Original brief: {rawContent}"
  else rawContent

def isDeep (plan : VersionedPlan) : Bool := eqIgnoreAsciiCase plan.mode "deep"

/-- Decomposed into children, and not a gate. -/
def isExpanded (plan : VersionedPlan) (taskId : String) : Bool :=
  ((plan.nodeMeta.get taskId).map fun nodeMeta => nodeMeta.expanded && !nodeMeta.isGate).getD false

section Config
variable (cfg : Config)

/-- The execution contract of a deep plan, after the content of a node or of a gate. -/
def deepModeAssignmentContent (plan : VersionedPlan) (itemId : String)
    (isCompositeSynthesis : Bool) (content : String) : String :=
  if !isDeep plan || isCompositeSynthesis then content
  else if ((plan.nodeMeta.get itemId).map NodeMeta.isGate).getD false then
    let auditedIds := (((plan.items.find? fun item => item.id == itemId).map fun item =>
      item.blockedBy.filter fun dep =>
        ((plan.nodeMeta.get dep).map fun nodeMeta => !nodeMeta.isGate).getD true)).getD []
    let lowConfidenceSiblings :=
      (lowConfidenceCompletedIds cfg.env.json cfg.env.parse plan).filter (· ∈ auditedIds)
    appendDeepGateInstructions content itemId auditedIds lowConfidenceSiblings
  else appendDeepNodeInstructions content itemId

/-! ### Dispatch -/

/-- When the task last showed activity. -/
def lastActivity (progress : SwarmTaskProgress) : Option ℕ :=
  (progress.lastHeartbeatUnixMs.or progress.startedAtUnixMs).or progress.assignedAtUnixMs

structure ActiveAssignmentConflict where
  assignee : String
  activeAgoMs : ℕ
  deriving DecidableEq, Repr

/-- The task is assigned, in flight, and active within the window. -/
def activeAssignmentConflict (status : String) (assignedTo : Option String)
    (progress : Option SwarmTaskProgress) (nowMs activeWithinMs : ℕ) :
    Option ActiveAssignmentConflict := do
  let assignee ← assignedTo
  guard (status ∈ ["queued", "running"])
  let progress ← progress
  let lastActivityMs ← lastActivity progress
  guard (nowMs - lastActivityMs < activeWithinMs)
  return { assignee := assignee, activeAgoMs := nowMs - lastActivityMs }

def activeAssignmentError (taskId : String) (conflict : ActiveAssignmentConflict) : String :=
  let assignee := conflict.assignee
  let seconds := conflict.activeAgoMs / 1000
  s!"Task '{taskId}' is already assigned to '{assignee}' (active {seconds}s ago); refusing to "
    ++ "double-assign. Use task_control reassign/replace to take over (the displaced worker is "
    ++ "told to stand down), retry to re-dispatch to the same assignee, or wait for the "
    ++ "assignment to finish or go stale."

/-- Whether a dispatch may be refused because its task is active. -/
inductive AssignDedupMode where
  | replayFinal
  | alwaysDispatch
  deriving DecidableEq, Repr

/-- A call of the assignment handler, with the session its target resolves to. -/
structure Dispatch where
  dedupMode : AssignDedupMode
  reqSession : String
  targetSession : String
  taskId : Option String
  message : Option String
  deriving DecidableEq, Repr

/-- The task a dispatch names, if it names one. -/
def Dispatch.requestedTaskId (d : Dispatch) : Option String :=
  (d.taskId.map trim).filter fun taskId => !taskId.isEmpty

/-- A turn to run: the worker, its task and its prompt. -/
structure TaskRun where
  targetSession : String
  taskId : String
  assignmentText : String
  deriving DecidableEq, Repr

def spawnAssignedTaskRun (targetSession taskId assignmentText : String) : TaskRun where
  targetSession := targetSession
  taskId := taskId
  assignmentText := appendSwarmCompletionReportInstructions assignmentText

/-- Why a dispatch is refused, if it is: its task is active, or blocked. -/
def blockedReason (nowMs : ℕ) (plan : LivePlan) (d : Dispatch) : Option String :=
  let conflictReason := match d.dedupMode with
    | .replayFinal => do
        let taskId ← d.requestedTaskId
        let item ← plan.findItem taskId
        let conflict ← activeAssignmentConflict item.status item.assignedTo
          (plan.taskProgress.get taskId) nowMs cfg.staleAfterMs
        return activeAssignmentError taskId conflict
    | .alwaysDispatch => none
  conflictReason.or
    (d.requestedTaskId.bind (explicitTaskBlockedReason cfg.order plan.toVersionedPlan))

/-- The content of an assignment. -/
def assignmentContent (plan : LivePlan) (item : PlanItem) : String :=
  let isCompositeSynthesis := isExpanded plan.toVersionedPlan item.id
  let effectiveContent := compositeSynthesisContent item.id item.content isCompositeSynthesis
  let hydrated := hydrateAssignment cfg.env.json plan.toVersionedPlan item.id effectiveContent
  deepModeAssignmentContent cfg plan.toVersionedPlan item.id isCompositeSynthesis hydrated

/-- The record a dispatch leaves: a fresh one. -/
def assignedProgress (nowMs : ℕ) (d : Dispatch) (content : String) : SwarmTaskProgress where
  assignedSessionId := some d.targetSession
  assignmentSummary := some (truncateDetail (combineAssignmentText content d.message) 120)
  assignedAtUnixMs := some nowMs

/-- `handle_comm_assign_task_with_mode`, from the lock of the plans on: the run of the worker and
the plan left behind, or the text of the error. -/
def assignTask (nowMs : ℕ) (plan : LivePlan) (d : Dispatch) : Except String (TaskRun × LivePlan) :=
  let selectedTaskId := d.requestedTaskId.or (nextUnassignedRunnableItemId cfg.order plan)
  match blockedReason cfg nowMs plan d with
  | some reason => .error reason
  | none =>
      match selectedTaskId.bind plan.findItem with
      | none =>
          match d.requestedTaskId with
          | some taskId => .error s!"Task '{taskId}' not found in swarm plan"
          | none => .error "No runnable unassigned tasks are available in the swarm plan"
      | some item =>
          let content := assignmentContent cfg plan item
          let plan := plan.setItem item.id fun item =>
            { item with assignedTo := some d.targetSession, status := "queued" }
          -- the record is replaced, not updated
          let plan := plan.touch item.id fun _ => assignedProgress nowMs d content
          .ok (spawnAssignedTaskRun d.targetSession item.id
            (combineAssignmentText content d.message),
            plan.bump.join d.reqSession d.targetSession)

/-- `requeue_existing_assignment`: the counters of the record are kept. -/
def requeueExistingAssignment (nowMs : ℕ) (plan : LivePlan)
    (reqSession assigneeSession taskId assignmentSummary : String) : LivePlan :=
  match plan.findItem taskId with
  | none => plan
  | some _ =>
      let plan := plan.setItem taskId fun item =>
        { item with assignedTo := some assigneeSession, status := "queued" }
      let plan := plan.touch taskId fun progress =>
        { progress with
          assignedSessionId := some assigneeSession
          assignmentSummary := some (truncateDetail assignmentSummary 120)
          assignedAtUnixMs := some nowMs
          completedAtUnixMs := none
          staleSinceUnixMs := none }
      plan.bump.join reqSession assigneeSession

/-- The prompt of a task that is started, woken or resumed, from its snapshot. -/
def snapshotContent (plan : LivePlan) (item : PlanItem) : String :=
  let hydrated := hydrateAssignment cfg.env.json plan.toVersionedPlan item.id item.content
  deepModeAssignmentContent cfg plan.toVersionedPlan item.id
    (isExpanded plan.toVersionedPlan item.id) hydrated

end Config

end Jcode.Swarm
