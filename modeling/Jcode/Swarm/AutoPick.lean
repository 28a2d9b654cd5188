import Jcode.Support.Lease
import Jcode.Support.Runs
import Jcode.Swarm.Persistence
import Jcode.Swarm.Steps

/-!
# Swarm — the automatic choice of a worker

`jcode-app-core/src/server/comm_control.rs`: `assign_task` and `assign_next` without a target, with
the loads and affinities of `jcode-plan/src/lib.rs`.  A request reads the loads of the plan, claims
a worker, writes the assignment, and gives its claim back, each under a lock of its own; the steps
of other requests may come between.  The members are the environment's: any change of them is a
step.
-/

namespace Jcode.Swarm.AutoPick
open Rust Jcode.Bridge Jcode.Live Jcode.Swarm.Persistence

/-! ### Candidates -/

/-- Whether a member runs its work without anyone's action. -/
def isDrivableAutoWorker (member : SwarmMember) (reqSessionId : String) : Bool :=
  member.isHeadless || member.reportBackToSessionId == some reqSessionId

def filterSwarmAgentCandidates (members : List SwarmMember) (reqSessionId swarmId : String) :
    List SwarmMember :=
  members.filter fun member =>
    member.sessionId != reqSessionId && member.swarmId == some swarmId && member.role == "agent"
      && decide (member.status ∈ ["ready", "completed"])
      && isDrivableAutoWorker member reqSessionId

/-- `*m.entry(k).or_default() += n`. -/
def addTo (m : StrMap ℕ) (k : String) (n : ℕ) : StrMap ℕ := m.insert k ((m.get k).getD 0 + n)

/-- `m.get(k).copied().unwrap_or(0)`. -/
def countOf (m : StrMap ℕ) (k : String) : ℕ := (m.get k).getD 0

/-- One round of the loop of `assignment_loads`. -/
def addLoad (loads : StrMap ℕ) (item : PlanItem) : StrMap ℕ :=
  if isTerminalStatus item.status then loads
  else match item.assignedTo with
    | some assignee => addTo loads assignee 1
    | none => loads

/-- The items of each assignee that are not terminal. -/
def assignmentLoads (plan : LivePlan) : StrMap ℕ := plan.items.foldl addLoad .empty

def memberHasActiveAssignment (sessionId : String) (loads : StrMap ℕ) : Bool :=
  0 < countOf loads sessionId

structure AssignmentAffinities where
  loads : StrMap ℕ
  dependencyCarryover : StrMap ℕ := .empty
  metadataCarryover : StrMap ℕ := .empty

/-- What one dependency carries over to the sessions that worked on it. -/
def addDependency (plan : LivePlan) (carryover : StrMap ℕ) (dependencyId : String) : StrMap ℕ :=
  let carryover := match (plan.findItem dependencyId).bind PlanItem.assignedTo with
    | some owner => addTo carryover owner 1
    | none => carryover
  match (plan.taskProgress.get dependencyId).bind SwarmTaskProgress.assignedSessionId with
  | some owner => addTo carryover owner 1
  | none => carryover

/-- What one item carries over to its owner: the subsystem counts twice, each shared path once. -/
def addMetadata (task : PlanItem) (carryover : StrMap ℕ) (item : PlanItem) : StrMap ℕ :=
  match item.assignedTo with
  | none => carryover
  | some owner =>
      if item.id == task.id then carryover
      else
        let carryover :=
          if task.subsystem.isSome && task.subsystem == item.subsystem then addTo carryover owner 2
          else carryover
        let overlap := (task.fileScope.filter (· ∈ item.fileScope)).length
        if overlap > 0 then addTo carryover owner overlap else carryover

def assignmentAffinitiesForTask (plan : LivePlan) (taskId : String) :
    Except String AssignmentAffinities :=
  match plan.findItem taskId with
  | none => .error s!"Task '{taskId}' not found in swarm plan"
  | some task => .ok
      { loads := assignmentLoads plan
        dependencyCarryover := task.blockedBy.foldl (addDependency plan) .empty
        metadataCarryover := plan.items.foldl (addMetadata task) .empty }

/-! ### Ranking -/

def statusRank (member : SwarmMember) : ℕ := if member.status == "ready" then 0 else 1

/-- The order of `assign_task`: the load, then the status, then the id. -/
def compareByLoad (loads : StrMap ℕ) (left right : SwarmMember) : Ordering :=
  ((compare (countOf loads left.sessionId) (countOf loads right.sessionId)).then
    (compare (statusRank left) (statusRank right))).then
      (compare left.sessionId right.sessionId)

/-- The order of `assign_next`: what the member already knows comes first. -/
def compareByAffinity (affinities : AssignmentAffinities) (left right : SwarmMember) : Ordering :=
  ((compare (countOf affinities.dependencyCarryover right.sessionId)
      (countOf affinities.dependencyCarryover left.sessionId)).then
    (compare (countOf affinities.metadataCarryover right.sessionId)
      (countOf affinities.metadataCarryover left.sessionId))).then
        (compareByLoad affinities.loads left right)

def sortBy (cmp : SwarmMember → SwarmMember → Ordering) (members : List SwarmMember) :
    List SwarmMember :=
  members.insertionSort fun left right => (cmp left right).isLE

/-! ### Claims -/

/-- After how many milliseconds a claim that leaked is forgotten. -/
def AUTO_ASSIGN_CLAIM_TTL : ℕ := 15000

def autoAssignClaimKey (swarmId sessionId : String) : String := s!"{swarmId}\n{sessionId}"

def tryClaimAutoAssignTarget (now : ℕ) (swarmId sessionId : String) (claims : Lease.Table String) :
    Bool × Lease.Table String :=
  Lease.tryClaim AUTO_ASSIGN_CLAIM_TTL now (autoAssignClaimKey swarmId sessionId) claims

def releaseAutoAssignClaim (swarmId sessionId : String) (claims : Lease.Table String) :
    Lease.Table String :=
  Lease.release (autoAssignClaimKey swarmId sessionId) claims

def noAutoTargetError (busySkipped : ℕ) : String :=
  "No ready or completed swarm agents are available for automatic task assignment." ++
    if busySkipped > 0 then
      s!" Skipped {busySkipped} worker(s) that already have an active assignment or an "
        ++ "in-flight pick; spawn a fresh agent (spawn_if_needed/prefer_spawn) or wait for one "
        ++ "to finish."
    else ""

/-- The loop of `select_and_claim_auto_target`, with the members skipped so far. -/
def selectAndClaim (now : ℕ) (swarmId : String) (loads : StrMap ℕ) :
    List SwarmMember → ℕ → Lease.Table String → Except String String × Lease.Table String
  | [], busySkipped, claims => (.error (noAutoTargetError busySkipped), claims)
  | member :: candidates, busySkipped, claims =>
      if memberHasActiveAssignment member.sessionId loads then
        selectAndClaim now swarmId loads candidates (busySkipped + 1) claims
      else
        match tryClaimAutoAssignTarget now swarmId member.sessionId claims with
        | (true, claims) => (.ok member.sessionId, claims)
        | (false, claims) => selectAndClaim now swarmId loads candidates (busySkipped + 1) claims

def selectAndClaimAutoTarget (now : ℕ) (swarmId : String) (candidates : List SwarmMember)
    (loads : StrMap ℕ) (claims : Lease.Table String) : Except String String × Lease.Table String :=
  selectAndClaim now swarmId loads candidates 0 claims

/-! ### Requests -/

/-- Who asks, and with which message. -/
structure Caller where
  reqSession : String
  message : Option String := none
  deriving DecidableEq, Repr

/-- `prefer_spawn` and `spawn_if_needed` of `assign_next`. -/
structure SpawnPolicy where
  preferSpawn : Bool := false
  spawnIfNeeded : Bool := false
  deriving DecidableEq, Repr

/-- What a worker is chosen for. -/
inductive Job where
  | assignTask (taskId : Option String)
  | assignNext (policy : SpawnPolicy) (taskId : String)
  deriving DecidableEq, Repr

namespace Job

def taskId : Job → Option String
  | assignTask taskId => taskId
  | assignNext _ taskId => some taskId

/-- The worker that was claimed is not used. -/
def prefersSpawn : Job → Bool
  | assignTask _ => false
  | assignNext policy _ => policy.preferSpawn

end Job

/-- How far a request is. -/
inductive Phase where
  | idle
  /-- `assign_next`, before its task is chosen. -/
  | choosing (c : Caller) (policy : SpawnPolicy)
  /-- `assign_next` found no unassigned task. -/
  | starved (c : Caller) (policy : SpawnPolicy)
  /-- It has read who is dead. -/
  | stranded (c : Caller) (policy : SpawnPolicy) (memberStatuses : StrMap String)
  /-- It has its task, and asks for the planner of it first. -/
  | chosen (c : Caller) (policy : SpawnPolicy) (taskId : String)
  | loading (c : Caller) (job : Job)
  /-- The loads are read. -/
  | ranking (c : Caller) (job : Job) (affinities : AssignmentAffinities)
  | claimed (c : Caller) (job : Job) (target : String) (since : ℕ)
  | spawning (c : Caller) (taskId : String)
  /-- The worker is spawned; nobody claims it. -/
  | spawned (c : Caller) (taskId target : String)
  /-- The write is made or given up; the claim is still held. -/
  | settled (target : String) (since : ℕ)
  | closed

structure State where
  plan : LivePlan
  /-- `members.values()`. -/
  members : List SwarmMember
  claims : Lease.Table String := fun _ => none
  /-- `Instant::now()`, in milliseconds. -/
  clock : ℕ := 0
  phase : ℕ → Phase := fun _ => .idle

namespace State

/-- The request `i` goes on to `p`. -/
def goto (s : State) (i : ℕ) (p : Phase) : State :=
  { s with phase := Function.update s.phase i p }

end State

/-- What the workers and the timers do to the plan. -/
inductive Work where
  | start (nowMs : ℕ) (run : TaskRun)
  | heartbeat (nowMs : ℕ) (taskId : String) (sessionId detail checkpointSummary : Option String)
  | turnEnd (nowMs : ℕ) (taskId : String) (result : Except String Unit)
  | sweep (nowMs : ℕ)

section Config
variable (cfg : Config)

def Work.apply (plan : LivePlan) : Work → LivePlan
  | .start nowMs run => startTurn nowMs run plan
  | .heartbeat nowMs taskId sessionId detail checkpointSummary =>
      touchSwarmTaskProgress nowMs taskId sessionId detail checkpointSummary plan
  | .turnEnd nowMs taskId result => endTurn nowMs taskId result plan
  | .sweep nowMs => refreshSwarmTaskStaleness nowMs cfg.staleAfterMs plan

/-- The statuses of the members of the swarm. -/
def memberStatuses (members : List SwarmMember) : StrMap String :=
  .collect ((members.filter fun member => member.swarmId == some cfg.swarmId).map fun member =>
    (member.sessionId, member.status))

/-- The recorded owner of a composite that is to be synthesized. -/
def plannerOf (plan : LivePlan) (taskId : String) : Option String :=
  (plan.nodeMeta.get taskId).bind fun nodeMeta =>
    if nodeMeta.expanded && !nodeMeta.isGate then nodeMeta.planner else none

/-- The planner, when it is a candidate: whether it is busy is not asked. -/
def eligiblePlanner (plan : LivePlan) (members : List SwarmMember) (reqSession taskId : String) :
    Option String :=
  (plannerOf plan taskId).filter fun owner =>
    owner != reqSession &&
      (filterSwarmAgentCandidates members reqSession cfg.swarmId).any (·.sessionId == owner)

/-- What a request reads of the plan before it ranks the members. -/
def readLoads (plan : LivePlan) : Job → Except String AssignmentAffinities
  | .assignTask _ => .ok { loads := assignmentLoads plan }
  | .assignNext _ taskId => assignmentAffinitiesForTask plan taskId

def rank (affinities : AssignmentAffinities) (candidates : List SwarmMember) :
    Job → List SwarmMember
  | .assignTask _ => sortBy (compareByLoad affinities.loads) candidates
  | .assignNext .. => sortBy (compareByAffinity affinities) candidates

/-- Without a worker, `assign_next` may spawn one. -/
def afterNoTarget (c : Caller) : Job → Phase
  | .assignTask _ => .closed
  | .assignNext policy taskId =>
      if policy.preferSpawn || policy.spawnIfNeeded then .spawning c taskId else .closed

/-- The dispatch of a request to the worker it has. -/
def dispatchOf (c : Caller) (taskId : Option String) (target : String) : Dispatch where
  dedupMode := .replayFinal
  reqSession := c.reqSession
  targetSession := target
  taskId := taskId
  message := c.message

/-- The plan after the write of a dispatch; a refused one leaves it. -/
def written (nowMs : ℕ) (plan : LivePlan) (d : Dispatch) : LivePlan :=
  match assignTask cfg nowMs plan d with
  | .ok (_, plan) => plan
  | .error _ => plan

/-! ### Steps -/

/-- A step of a request, named by its number, or of its environment. -/
inductive Event where
  | assignTask (i : ℕ) (c : Caller) (taskId : Option String)
  | assignNext (i : ℕ) (c : Caller) (policy : SpawnPolicy)
  | choose (i : ℕ)
  | readMembers (i : ℕ)
  | reclaim (i : ℕ)
  | askPlanner (i : ℕ)
  | readLoads (i : ℕ)
  | pick (i : ℕ)
  /-- The claim of a request that spawns anyway is given back. -/
  | discard (i : ℕ)
  | spawn (i : ℕ) (member : SwarmMember)
  | land (i : ℕ) (nowMs : ℕ)
  /-- The handler answers without a write: the target is gone, or the request a repetition. -/
  | refuse (i : ℕ)
  | release (i : ℕ)
  /-- A request dies. -/
  | abandon (i : ℕ)
  | tick (ms : ℕ)
  | setMembers (members : List SwarmMember)
  | work (w : Work)

def step (s : State) : Event → Option State
  | .assignTask i c taskId =>
      match s.phase i with
      | .idle => some (s.goto i (.loading c (.assignTask taskId)))
      | _ => none
  | .assignNext i c policy =>
      match s.phase i with
      | .idle => some (s.goto i (.choosing c policy))
      | _ => none
  | .choose i =>
      match s.phase i with
      | .choosing c policy =>
          match nextUnassignedRunnableItemId cfg.order s.plan with
          | some taskId => some (s.goto i (.chosen c policy taskId))
          | none => some (s.goto i (.starved c policy))
      | _ => none
  | .readMembers i =>
      match s.phase i with
      | .starved c policy => some (s.goto i (.stranded c policy (memberStatuses cfg s.members)))
      | _ => none
  | .reclaim i =>
      match s.phase i with
      | .stranded c policy statuses =>
          match reclaimNextStranded cfg statuses s.plan with
          | some (taskId, plan) => some ({ s with plan := plan }.goto i (.chosen c policy taskId))
          | none => some (s.goto i .closed)
      | _ => none
  | .askPlanner i =>
      match s.phase i with
      | .chosen c policy taskId =>
          match eligiblePlanner cfg s.plan s.members c.reqSession taskId with
          | none => some (s.goto i (.loading c (.assignNext policy taskId)))
          | some owner =>
              match tryClaimAutoAssignTarget s.clock cfg.swarmId owner s.claims with
              | (true, claims) => some ({ s with claims := claims }.goto i
                  (.claimed c (.assignNext policy taskId) owner s.clock))
              | (false, claims) => some ({ s with claims := claims }.goto i
                  (.loading c (.assignNext policy taskId)))
      | _ => none
  | .readLoads i =>
      match s.phase i with
      | .loading c job =>
          match readLoads s.plan job with
          | .ok affinities => some (s.goto i (.ranking c job affinities))
          | .error _ => some (s.goto i (afterNoTarget c job))
      | _ => none
  | .pick i =>
      match s.phase i with
      | .ranking c job affinities =>
          let candidates := filterSwarmAgentCandidates s.members c.reqSession cfg.swarmId
          match selectAndClaimAutoTarget s.clock cfg.swarmId (rank affinities candidates job)
              affinities.loads s.claims with
          | (.ok target, claims) =>
              some ({ s with claims := claims }.goto i (.claimed c job target s.clock))
          | (.error _, claims) => some ({ s with claims := claims }.goto i (afterNoTarget c job))
      | _ => none
  | .discard i =>
      match s.phase i with
      | .claimed c (.assignNext policy taskId) target _ =>
          if policy.preferSpawn then
            some ({ s with claims := releaseAutoAssignClaim cfg.swarmId target s.claims }.goto i
              (.spawning c taskId))
          else none
      | _ => none
  | .spawn i member =>
      match s.phase i with
      | .spawning c taskId =>
          some ({ s with members := s.members ++ [member] }.goto i
            (.spawned c taskId member.sessionId))
      | _ => none
  | .land i nowMs =>
      match s.phase i with
      | .claimed c job target since =>
          if job.prefersSpawn then none
          else some ({ s with plan := written cfg nowMs s.plan (dispatchOf c job.taskId target) }.goto
            i (.settled target since))
      | .spawned c taskId target =>
          some ({ s with plan := written cfg nowMs s.plan (dispatchOf c (some taskId) target) }.goto
            i .closed)
      | _ => none
  | .refuse i =>
      match s.phase i with
      | .claimed _ (.assignNext policy _) target since =>
          if policy.preferSpawn then none else some (s.goto i (.settled target since))
      | .spawned .. => some (s.goto i .closed)
      | _ => none
  | .release i =>
      match s.phase i with
      | .settled target _ =>
          some ({ s with claims := releaseAutoAssignClaim cfg.swarmId target s.claims }.goto i
            .closed)
      | _ => none
  | .abandon i => some (s.goto i .closed)
  | .tick ms => some { s with clock := s.clock + ms }
  | .setMembers members => some { s with members := members }
  | .work w => some { s with plan := w.apply cfg s.plan }

end Config

end Jcode.Swarm.AutoPick
