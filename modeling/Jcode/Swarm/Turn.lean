import Jcode.Swarm.Task

/-!
# Swarm — turns, heartbeats and the dead

`jcode-app-core/src/server/comm_control.rs` and `swarm.rs`: the start and the end of a worker's
turn, the heartbeats between them, the sweep that marks silent tasks stale, and the salvage of what
a dead worker held.
-/

namespace Jcode.Swarm
open Rust Jcode.Bridge Jcode.Live

/-! ### The turn -/

/-- The start of a run: whatever the task's status was, it is running now. -/
def startTurn (nowMs : ℕ) (run : TaskRun) (plan : LivePlan) : LivePlan :=
  match plan.findItem run.taskId with
  | none => plan
  | some _ =>
      let plan := plan.setItem run.taskId fun item => { item with status := "running" }
      let plan := plan.touch run.taskId fun progress =>
        { progress with
          assignedSessionId := some run.targetSession
          assignmentSummary := some (truncateDetail run.assignmentText 120)
          startedAtUnixMs := some nowMs
          lastHeartbeatUnixMs := some nowMs
          lastDetail := some (truncateDetail run.assignmentText 120)
          lastCheckpointUnixMs := some nowMs
          checkpointSummary := some "task started"
          completedAtUnixMs := none
          staleSinceUnixMs := none
          heartbeatCount := some (progress.heartbeatCount.getD 0 + 1)
          checkpointCount := some (progress.checkpointCount.getD 0 + 1) }
      plan.bump

/-- What to do with the task of a turn that ended without an error. -/
inductive TurnEndDisposition where
  | autoComplete
  | requeueNoArtifact
  | failNoArtifact
  | leaveAlone
  deriving DecidableEq, Repr

def turnEndDisposition (isDeep : Bool) (status : String) (expanded : Bool)
    (priorNoArtifactRequeues : ℕ) : TurnEndDisposition :=
  if !isActiveStatus status then .leaveAlone
  else if isDeep then
    if priorNoArtifactRequeues = 0 then .requeueNoArtifact else .failNoArtifact
  else if expanded then .leaveAlone
  else .autoComplete

/-- The disposition of the item a turn end finds. -/
def itemDisposition (plan : LivePlan) (taskId : String) (item : PlanItem) :
    TurnEndDisposition :=
  turnEndDisposition (isDeep plan.toVersionedPlan) item.status
    (isExpanded plan.toVersionedPlan taskId) (plan.requeues taskId)

/-- The last checkpoint of a turn. -/
def closingCheckpoint (nowMs : ℕ) (summary : String) (progress : SwarmTaskProgress) :
    SwarmTaskProgress :=
  { progress with
    lastHeartbeatUnixMs := some nowMs
    lastCheckpointUnixMs := some nowMs
    checkpointSummary := some summary
    staleSinceUnixMs := none
    checkpointCount := some (progress.checkpointCount.getD 0 + 1) }

/-- Close a task with a terminal status. -/
def closeTask (nowMs : ℕ) (taskId status summary : String) (plan : LivePlan) : LivePlan :=
  let plan := plan.setItem taskId fun item => { item with status := status }
  let plan := plan.touch taskId fun progress =>
    { closingCheckpoint nowMs summary progress with completedAtUnixMs := some nowMs }
  plan.bump

/-- Release a task of a deep plan whose turn left no artifact. -/
def requeueNoArtifact (nowMs : ℕ) (taskId : String) (plan : LivePlan) : LivePlan :=
  let prior := plan.requeues taskId
  let plan := plan.setItem taskId fun item => { item with status := "queued", assignedTo := none }
  let plan := plan.touch taskId fun progress =>
    { closingCheckpoint nowMs "requeued: deep-mode turn ended without a complete_node artifact"
        progress with
      assignedSessionId := none
      noArtifactRequeues := some (prior + 1) }
  plan.bump

/-- The end of a turn without an error. -/
def endTurnOk (nowMs : ℕ) (taskId : String) (plan : LivePlan) : LivePlan :=
  match plan.findItem taskId with
  | none => plan
  | some item =>
      match itemDisposition plan taskId item with
      | .autoComplete => closeTask nowMs taskId "done" "task completed" plan
      | .requeueNoArtifact => requeueNoArtifact nowMs taskId plan
      | .failNoArtifact => closeTask nowMs taskId "failed"
          "failed: repeated deep-mode turns ended without a complete_node artifact" plan
      | .leaveAlone => plan

/-- The end of a turn with an error: the item is not looked at. -/
def endTurnErr (nowMs : ℕ) (taskId error : String) (plan : LivePlan) : LivePlan :=
  match plan.findItem taskId with
  | none => plan
  | some _ => closeTask nowMs taskId "failed" (truncateDetail s!"task failed: {error}" 120) plan

/-- The end of a turn. -/
def endTurn (nowMs : ℕ) (taskId : String) (result : Except String Unit) (plan : LivePlan) :
    LivePlan :=
  match result with
  | .ok () => endTurnOk nowMs taskId plan
  | .error error => endTurnErr nowMs taskId error plan

/-! ### Heartbeats and the sweep -/

/-- A heartbeat, or a report of a tool; a stale task is running again. -/
def touchSwarmTaskProgress (nowMs : ℕ) (taskId : String) (assignedSessionId : Option String)
    (detail checkpointSummary : Option String) (plan : LivePlan) : LivePlan :=
  match plan.findItem taskId with
  | none => plan
  | some item =>
      let plan := plan.touch taskId fun progress =>
        let progress := { progress with
          assignedSessionId := assignedSessionId.or progress.assignedSessionId
          lastHeartbeatUnixMs := some nowMs
          heartbeatCount := some (progress.heartbeatCount.getD 0 + 1)
          lastDetail := (detail.map fun text => truncateDetail text 120).or progress.lastDetail }
        match checkpointSummary with
        | none => progress
        | some summary =>
            { progress with
              lastCheckpointUnixMs := some nowMs
              checkpointSummary := some (truncateDetail summary 120)
              checkpointCount := some (progress.checkpointCount.getD 0 + 1) }
      if item.status == "running_stale" then
        let plan := plan.setItem taskId fun item => { item with status := "running" }
        (plan.touch taskId fun progress => { progress with staleSinceUnixMs := none }).bump
      else plan

/-- One round of the sweep's loop: the item, and the plan with the item's record. -/
def refreshItem (nowMs staleAfterMs : ℕ) (item : PlanItem) (plan : LivePlan) :
    PlanItem × LivePlan :=
  if !isActiveStatus item.status then (item, plan)
  else
    let plan := plan.touch item.id id
    let lastHeartbeat := (plan.taskProgress.get item.id).bind lastActivity
    let isStale := (lastHeartbeat.map fun ts => decide (nowMs - ts ≥ staleAfterMs)).getD true
    match item.status, isStale with
    | "running", true =>
        ({ item with status := "running_stale" },
          (plan.touch item.id fun progress =>
            { progress with staleSinceUnixMs := progress.staleSinceUnixMs.or (some nowMs) }).bump)
    | "running_stale", false =>
        ({ item with status := "running" },
          (plan.touch item.id fun progress => { progress with staleSinceUnixMs := none }).bump)
    | _, _ => (item, plan)

/-- The sweep's loop: the items after it, and the plan with their records. -/
def refreshItems (nowMs staleAfterMs : ℕ) : List PlanItem → LivePlan → List PlanItem × LivePlan
  | [], plan => ([], plan)
  | item :: items, plan =>
      let (item, plan) := refreshItem nowMs staleAfterMs item plan
      let (items, plan) := refreshItems nowMs staleAfterMs items plan
      (item :: items, plan)

/-- `refresh_swarm_task_staleness`, up to the salvage of dead members. -/
def refreshSwarmTaskStaleness (nowMs staleAfterMs : ℕ) (plan : LivePlan) : LivePlan :=
  let (items, plan) := refreshItems nowMs staleAfterMs plan.items plan
  { plan with items := items }

/-! ### The dead -/

structure DeadMemberSalvage where
  requeuedTaskIds : List String := []
  failedTaskIds : List String := []
  deriving DecidableEq, Repr

/-- One round of the salvage: at the cap the task fails, before it is queued again. -/
def salvageTask (nowMs : ℕ) (sessionId : String) (state : DeadMemberSalvage × LivePlan)
    (taskId : String) : DeadMemberSalvage × LivePlan :=
  let (outcome, plan) := state
  if plan.reclaims taskId ≥ MAX_DEAD_ASSIGNEE_RECLAIMS then
    let plan := plan.setItem taskId fun item => { item with status := "failed", assignedTo := none }
    let plan := plan.touch taskId fun progress =>
      { progress with
        assignedSessionId := none
        completedAtUnixMs := some nowMs
        staleSinceUnixMs := none
        checkpointSummary := some (truncateDetail
          (s!"failed: assigned worker {sessionId} died and the automatic "
            ++ "reclaim cap was reached") 120) }
    ({ outcome with failedTaskIds := outcome.failedTaskIds ++ [taskId] }, plan.bump)
  else
    match reclaimStrandedAssignment plan taskId with
    | (false, plan) => (outcome, plan)
    | (true, plan) =>
        let plan := plan.setItem taskId fun item => { item with status := "queued" }
        let plan := plan.touch taskId fun progress => { progress with staleSinceUnixMs := none }
        ({ outcome with requeuedTaskIds := outcome.requeuedTaskIds ++ [taskId] }, plan)

/-- What a session holds and has not finished. -/
def assignedIds (sessionId : String) (plan : LivePlan) : List String :=
  (plan.items.filter fun item =>
    item.assignedTo = some sessionId && !isTerminalStatus item.status).map (·.id)

def salvagePlanAssignmentsOf (nowMs : ℕ) (sessionId : String) (plan : LivePlan) :
    DeadMemberSalvage × LivePlan :=
  (assignedIds sessionId plan).foldl (salvageTask nowMs sessionId) ({}, plan)

end Jcode.Swarm
