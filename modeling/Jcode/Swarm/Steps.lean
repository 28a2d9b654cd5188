import Jcode.Support.Runs
import Jcode.Swarm.Turn

/-!
# Swarm — the steps of a swarm

`jcode-app-core/src/server/comm_control.rs`.  A swarm is its plan, the writes that handlers are on
their way to, the runs that were spawned and have not started, and the runs whose turn is on.  Each
step is one critical section of the plans, and any steps of other sessions may come between two of
one handler.  The members of the swarm are not part of the state: a step that reads them carries
what it read, so a worker may die at any moment.

* `step_plan`: what a step does to the plan depends on the plan and the event only.
-/

namespace Jcode.Swarm
open Rust Jcode.Bridge Jcode.Live

/-- A write to the plan that a handler has decided on. -/
inductive Pending where
  | assign (d : Dispatch)
  /-- A resumed task goes back to its assignee's queue, and is run. -/
  | requeue (reqSession assignee taskId assignmentText : String)
  deriving DecidableEq, Repr

/-- The state of a swarm. -/
structure State where
  plan : LivePlan
  pending : List Pending := []
  spawned : List TaskRun := []
  active : List TaskRun := []

/-! ### Task control -/

/-- What an accepted control action leads to. -/
inductive ControlEffect where
  | write (p : Pending)
  | run (run : TaskRun)
  deriving DecidableEq, Repr

/-- A control action of a client, with the id of its task. -/
structure ControlRequest where
  action : TaskControlAction
  reqSession : String
  taskId : String
  targetSession : Option String
  message : Option String
  /-- What a salvage reports of the previous assignee's activity. -/
  priorActivity : String
  deriving DecidableEq, Repr

section Config
variable (cfg : Config)

/-- Start, wake and resume, when the assignee is idle. -/
def restartTask (plan : LivePlan) (item : PlanItem) (assignee : String) (r : ControlRequest) :
    Except String ControlEffect := do
  let taskId := r.taskId
  if let some requestedTarget := r.targetSession then
    ensure (requestedTarget = assignee) (s!"Task '{taskId}' is assigned to '{assignee}', not "
      ++ s!"'{requestedTarget}'. Use reassign or replace to change ownership.")
  let content := snapshotContent cfg plan item
  let assignmentText := buildControlAssignmentText r.action content r.message
  if item.status ≠ "queued" then
    return .write (.requeue r.reqSession assignee taskId assignmentText)
  return .run (spawnAssignedTaskRun assignee taskId assignmentText)

/-- Dispatch again to the same assignee. -/
def retryTask (assignee : String) (r : ControlRequest) : ControlEffect :=
  let retryNote := match r.message with
    | none => "Retry this assignment."
    | some extra =>
        s!"Retry this assignment.\n\nAdditional coordinator instructions:\n{extra}"
  .write (.assign
    { dedupMode := .alwaysDispatch, reqSession := r.reqSession, targetSession := assignee,
      taskId := some r.taskId, message := some retryNote })

/-- The message of a handoff to a new worker. -/
def forwardedMessage (progress : Option SwarmTaskProgress) (assignee : String)
    (r : ControlRequest) : Option String :=
  match r.action with
  | .salvage => some (r.priorActivity
      ++ (match progress.bind SwarmTaskProgress.checkpointSummary with
          | some summary => "\n\nLatest checkpoint summary:\n" ++ summary
          | none => "")
      ++ (match progress.bind SwarmTaskProgress.lastDetail with
          | some detail => "\n\nLatest recorded detail:\n" ++ detail
          | none => ""))
  | .replace => some (match r.message with
      | none => s!"This task is replacing prior assignee '{assignee}'."
      | some extra => s!"This task is replacing prior assignee '{assignee}'.\n\n"
          ++ s!"Additional coordinator instructions:\n{extra}")
  | _ => r.message

/-- Reassign, replace and salvage: dispatch to another worker. -/
def handOffTask (plan : LivePlan) (item : PlanItem) (assignee : String) (r : ControlRequest) :
    Except String ControlEffect := do
  let taskId := r.taskId
  let action := r.action.asStr
  let status := item.status
  let newTarget ← okOr r.targetSession s!"'target_session' is required for {action}."
  ensure (newTarget ≠ assignee) s!"Task '{taskId}' is already assigned to '{assignee}'."
  ensure (status ≠ "running") (s!"Task '{taskId}' is actively running on '{assignee}'. Wait, wake, "
    ++ "or stop that agent before handing the task off.")
  ensure (r.action ≠ .replace ∨
      status ∈ ["queued", "failed", "stopped", "crashed", "running_stale"])
    s!"Task '{taskId}' is '{status}' and cannot be safely replaced."
  return .write (.assign
    { dedupMode := .alwaysDispatch, reqSession := r.reqSession, targetSession := newTarget,
      taskId := some taskId,
      message := forwardedMessage (plan.taskProgress.get taskId) assignee r })

/-- `handle_comm_task_control`, up to the availability of the assignee's agent. -/
def controlTask (plan : LivePlan) (r : ControlRequest) : Except String ControlEffect := do
  let taskId := r.taskId
  let item ← okOr (plan.findItem taskId) s!"Task '{taskId}' not found in swarm plan"
  ensure (taskControlActionAllowsStatus r.action item.status)
    (taskControlStatusError r.action item.status taskId)
  let assignee ← okOr item.assignedTo (s!"Task '{taskId}' is not currently assigned. "
    ++ "Use assign_task to create the first assignment.")
  match r.action with
  | .start | .wake | .resume => restartTask cfg plan item assignee r
  | .retry => return retryTask assignee r
  | .reassign | .replace | .salvage => handOffTask plan item assignee r

/-! ### Steps -/

/-- A session is dead when its status says so, or when it is not a member. -/
def assigneeIsDead (memberStatuses : StrMap String) (sessionId : String) : Bool :=
  match memberStatuses.get sessionId with
  | some status => status ∈ ["failed", "stopped", "crashed"]
  | none => true

/-- The second half of `next_runnable_task_id_reclaiming_stranded`: the task that is taken from a
dead assignee. -/
def reclaimNextStranded (memberStatuses : StrMap String) (plan : LivePlan) :
    Option (String × LivePlan) :=
  match nextStrandedRunnableItemId cfg.order plan (assigneeIsDead memberStatuses) with
  | none => none
  | some taskId =>
      match reclaimStrandedAssignment plan taskId with
      | (false, _) => none
      | (true, plan) => some (taskId, plan)

/-- What a pending write does: the run it spawns, and the plan it leaves. -/
def Pending.land (nowMs : ℕ) (plan : LivePlan) : Pending → Option (TaskRun × LivePlan)
  | .assign d => (assignTask cfg nowMs plan d).toOption
  | .requeue reqSession assignee taskId assignmentText =>
      some (spawnAssignedTaskRun assignee taskId assignmentText,
        requeueExistingAssignment nowMs plan reqSession assignee taskId assignmentText)

/-- A graph mutation of a session of the swarm. -/
def graphRequest (session : String) (request : Server.Request) (plan : LivePlan) : LivePlan :=
  let plans := StrMap.empty.insert cfg.swarmId plan.toVersionedPlan
  match (Server.handle cfg.env plans session request).2.get cfg.swarmId with
  | some stored => { plan with toVersionedPlan := stored }
  | none => plan

/-- A step: what a handler, a worker or a timer does under one lock of the plans. -/
inductive Event where
  /-- `assign_task`, or `assign_next` with a target: without an id, the landing chooses. -/
  | assignTask (reqSession targetSession : String) (taskId message : Option String)
  /-- `assign_next` reads the next unassigned task. -/
  | pickNext (reqSession targetSession : String) (message : Option String)
  /-- `assign_next` found none, and takes a task from a dead assignee. -/
  | reclaimNext (memberStatuses : StrMap String) (reqSession targetSession : String)
      (message : Option String)
  | control (request : ControlRequest)
  /-- A pending write is made; a dispatch runs its worker unless a client is attached to it. -/
  | land (nowMs : ℕ) (p : Pending) (runs : Bool)
  | start (nowMs : ℕ) (run : TaskRun)
  /-- The last reports of a run may come after its end. -/
  | heartbeat (nowMs : ℕ) (taskId : String) (sessionId detail checkpointSummary : Option String)
  | turnEnd (nowMs : ℕ) (run : TaskRun) (result : Except String Unit)
  | sweep (nowMs : ℕ)
  | salvage (nowMs : ℕ) (sessionId : String)
  | graph (session : String) (request : Server.Request)

/-- The dispatch of `assign_next` for the task it chose. -/
def nextDispatch (reqSession targetSession taskId : String) (message : Option String) : Pending :=
  .assign { dedupMode := .replayFinal, reqSession := reqSession, targetSession := targetSession,
            taskId := some taskId, message := message }

def step (s : State) : Event → Option State
  | .assignTask reqSession targetSession taskId message =>
      some { s with pending := s.pending ++ [.assign
        { dedupMode := .replayFinal, reqSession := reqSession, targetSession := targetSession,
          taskId := taskId, message := message }] }
  | .pickNext reqSession targetSession message =>
      match nextUnassignedRunnableItemId cfg.order s.plan with
      | none => none
      | some taskId => some
          { s with pending := s.pending ++ [nextDispatch reqSession targetSession taskId message] }
  | .reclaimNext memberStatuses reqSession targetSession message =>
      match reclaimNextStranded cfg memberStatuses s.plan with
      | none => none
      | some (taskId, plan) => some
          { s with
            plan := plan
            pending := s.pending ++ [nextDispatch reqSession targetSession taskId message] }
  | .control request =>
      match controlTask cfg s.plan request with
      | .error _ => none
      | .ok (.write p) => some { s with pending := s.pending ++ [p] }
      | .ok (.run run) => some { s with spawned := s.spawned ++ [run] }
  | .land nowMs p runs =>
      if p ∈ s.pending then
        match p.land cfg nowMs s.plan with
        | none => some { s with pending := s.pending.erase p }
        | some (run, plan) => some
            { s with
              plan := plan
              pending := s.pending.erase p
              spawned := if runs then s.spawned ++ [run] else s.spawned }
      else none
  | .start nowMs run =>
      if run ∈ s.spawned then some
        { s with
          plan := startTurn nowMs run s.plan
          spawned := s.spawned.erase run
          active := s.active ++ [run] }
      else none
  | .heartbeat nowMs taskId sessionId detail checkpointSummary => some
      { s with
        plan := touchSwarmTaskProgress nowMs taskId sessionId detail checkpointSummary s.plan }
  | .turnEnd nowMs run result =>
      if run ∈ s.active then some
        { s with
          plan := endTurn nowMs run.taskId result s.plan
          active := s.active.erase run }
      else none
  | .sweep nowMs => some
      { s with plan := refreshSwarmTaskStaleness nowMs cfg.staleAfterMs s.plan }
  | .salvage nowMs sessionId => some
      { s with plan := (salvagePlanAssignmentsOf nowMs sessionId s.plan).2 }
  | .graph session request => some { s with plan := graphRequest cfg session request s.plan }

/-! ### What a step writes -/

/-- The plan an event leaves. -/
def Event.writes (plan : LivePlan) : Event → LivePlan
  | .assignTask .. | .pickNext .. | .control _ => plan
  | .reclaimNext memberStatuses _ _ _ =>
      ((reclaimNextStranded cfg memberStatuses plan).map Prod.snd).getD plan
  | .land nowMs p _ => ((p.land cfg nowMs plan).map Prod.snd).getD plan
  | .start nowMs run => startTurn nowMs run plan
  | .heartbeat nowMs taskId sessionId detail checkpointSummary =>
      touchSwarmTaskProgress nowMs taskId sessionId detail checkpointSummary plan
  | .turnEnd nowMs run result => endTurn nowMs run.taskId result plan
  | .sweep nowMs => refreshSwarmTaskStaleness nowMs cfg.staleAfterMs plan
  | .salvage nowMs sessionId => (salvagePlanAssignmentsOf nowMs sessionId plan).2
  | .graph session request => graphRequest cfg session request plan

variable {cfg}

theorem step_plan {s s' : State} {e : Event} (h : step cfg s e = some s') :
    s'.plan = e.writes cfg s.plan := by
  cases e with
  | assignTask => cases h; rfl
  | pickNext =>
      simp only [step] at h
      split at h <;> cases h
      rfl
  | reclaimNext memberStatuses =>
      simp only [step] at h
      split at h <;> cases h
      rename_i taskId plan hplan
      simp [Event.writes, hplan]
  | control request =>
      simp only [step] at h
      split at h <;> cases h <;> rfl
  | land nowMs p runs =>
      simp only [step] at h
      split at h
      · split at h <;> cases h
        · rename_i hland
          simp [Event.writes, hland]
        · rename_i run plan hland
          simp [Event.writes, hland]
      · cases h
  | start => simp only [step] at h; split at h <;> cases h; rfl
  | heartbeat => cases h; rfl
  | turnEnd => simp only [step] at h; split at h <;> cases h; rfl
  | sweep => cases h; rfl
  | salvage => cases h; rfl
  | graph => cases h; rfl

end Config

end Jcode.Swarm
