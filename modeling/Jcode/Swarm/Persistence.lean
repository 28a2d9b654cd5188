import Jcode.Live.Assign
import Jcode.Support.Runs
import Jcode.Support.Std

/-!
# Swarm — the snapshots on disk

`jcode-app-core/src/server/swarm_persistence.rs`, with the records of `jcode-swarm-core`.  A swarm
is saved as one file, named by its id with every character outside `[A-Za-z0-9_-]` replaced by `_`.
The server reads all the files when it starts: running items become stale, members that ran are
crashed, and terminal members are dropped once they are old enough.

The directory holds the parsed states; a write that replaces a file keeps the old one as a backup,
which is read only when the file cannot be.  No write fails here, so backups are left out.
-/

namespace Jcode.Swarm.Persistence
open Rust Jcode.Bridge Jcode.Live

/-! ### Members -/

inductive SwarmRole where
  | agent
  | coordinator
  | other (value : String)
  deriving DecidableEq, Repr

def SwarmRole.asStr : SwarmRole → String
  | .agent => "agent"
  | .coordinator => "coordinator"
  | .other value => value

def SwarmRole.ofString (value : String) : SwarmRole :=
  if value = "agent" then .agent
  else if value = "coordinator" then .coordinator
  else .other value

inductive SwarmLifecycleStatus where
  | spawned
  | ready
  | running
  | runningStale
  | completed
  | done
  | failed
  | stopped
  | crashed
  | queued
  | blocked
  | pending
  | todo
  | other (value : String)
  deriving DecidableEq, Repr

namespace SwarmLifecycleStatus

def asStr : SwarmLifecycleStatus → String
  | .spawned => "spawned"
  | .ready => "ready"
  | .running => "running"
  | .runningStale => "running_stale"
  | .completed => "completed"
  | .done => "done"
  | .failed => "failed"
  | .stopped => "stopped"
  | .crashed => "crashed"
  | .queued => "queued"
  | .blocked => "blocked"
  | .pending => "pending"
  | .todo => "todo"
  | .other value => value

def ofString (value : String) : SwarmLifecycleStatus :=
  ([.spawned, .ready, .running, .runningStale, .completed, .done, .failed, .stopped, .crashed,
    .queued, .blocked, .pending, .todo].find? fun status => status.asStr = value).getD
      (.other value)

end SwarmLifecycleStatus

/-- The durable part of a member. -/
structure SwarmMemberRecord where
  sessionId : String
  workingDir : Option String := none
  swarmId : Option String
  swarmEnabled : Bool := true
  status : SwarmLifecycleStatus
  detail : Option String := none
  taskLabel : Option String := none
  friendlyName : Option String := none
  reportBackToSessionId : Option String := none
  latestCompletionReport : Option String := none
  role : SwarmRole := .agent
  isHeadless : Bool := false
  deriving DecidableEq, Repr

/-- A live member, with the instant of its last change of status. -/
structure SwarmMember where
  sessionId : String
  workingDir : Option String := none
  swarmId : Option String
  swarmEnabled : Bool := true
  status : String
  detail : Option String := none
  taskLabel : Option String := none
  friendlyName : Option String := none
  reportBackToSessionId : Option String := none
  latestCompletionReport : Option String := none
  role : String := "agent"
  isHeadless : Bool := false
  lastStatusChange : ℕ
  deriving DecidableEq, Repr

def SwarmMember.durableRecord (member : SwarmMember) : SwarmMemberRecord where
  sessionId := member.sessionId
  workingDir := member.workingDir
  swarmId := member.swarmId
  swarmEnabled := member.swarmEnabled
  status := .ofString member.status
  detail := member.detail
  taskLabel := member.taskLabel
  friendlyName := member.friendlyName
  reportBackToSessionId := member.reportBackToSessionId
  latestCompletionReport := member.latestCompletionReport
  role := .ofString member.role
  isHeadless := member.isHeadless

def SwarmMember.fromRecord (record : SwarmMemberRecord) (now : ℕ) : SwarmMember where
  sessionId := record.sessionId
  workingDir := record.workingDir
  swarmId := record.swarmId
  swarmEnabled := record.swarmEnabled
  status := record.status.asStr
  detail := record.detail
  taskLabel := record.taskLabel
  friendlyName := record.friendlyName
  reportBackToSessionId := record.reportBackToSessionId
  latestCompletionReport := record.latestCompletionReport
  role := record.role.asStr
  isHeadless := record.isHeadless
  lastStatusChange := now

def memberStatusIsTerminal (status : String) : Bool :=
  ["completed", "done", "failed", "stopped", "crashed", "closed", "disconnected"].contains status

/-- What a snapshot or a load reads of the clocks, in milliseconds. -/
structure Clock where
  unixMs : ℕ
  instant : ℕ

/-! ### Snapshots -/

structure PersistedVersionedPlan where
  items : List PlanItem
  version : ℕ
  participants : List String
  taskProgress : StrMap SwarmTaskProgress
  mode : String
  nodeMeta : StrMap NodeMeta

structure PersistedSwarmMember where
  record : SwarmMemberRecord
  terminalSinceUnixMs : Option ℕ
  deriving DecidableEq, Repr

structure PersistedSwarmState where
  swarmId : String
  plan : Option PersistedVersionedPlan
  coordinatorSessionId : Option String
  members : List PersistedSwarmMember
  updatedAtUnixMs : ℕ

/-- `plan.task_progress.entry(..).or_default().stale_since_unix_ms.get_or_insert(..)`. -/
def markStaleSince (updatedAtUnixMs : ℕ) (taskProgress : StrMap SwarmTaskProgress)
    (id : String) : StrMap SwarmTaskProgress :=
  let progress := (taskProgress.get id).getD {}
  taskProgress.insert id
    { progress with
      staleSinceUnixMs := some (progress.staleSinceUnixMs.getD updatedAtUnixMs) }

/-- Running items are stale after a restart. -/
def fromPersistedPlan (plan : PersistedVersionedPlan) (updatedAtUnixMs : ℕ) : LivePlan where
  items := plan.items.map fun item =>
    if item.status = "running" then { item with status := "running_stale" } else item
  version := plan.version
  participants := plan.participants.toFinset
  taskProgress := plan.items.foldl (fun taskProgress item =>
    if item.status = "running" then markStaleSince updatedAtUnixMs taskProgress item.id
    else taskProgress) plan.taskProgress
  mode := plan.mode
  nodeMeta := plan.nodeMeta

def toPersistedPlan (plan : LivePlan) : PersistedVersionedPlan where
  items := plan.items
  version := plan.version
  participants := plan.participants.sort
  taskProgress := plan.taskProgress
  mode := plan.mode
  nodeMeta := plan.nodeMeta

def toPersistedMember (member : SwarmMember) (clock : Clock) : PersistedSwarmMember where
  record := member.durableRecord
  terminalSinceUnixMs :=
    if memberStatusIsTerminal member.status then
      some (clock.unixMs - (clock.instant - member.lastStatusChange))
    else none

def appendRecoveryDetail (detail : Option String) (note : String) : Option String :=
  match detail with
  | some existing =>
      if (trim existing).isEmpty then some note else some s!"{existing} ({note})"
  | none => some note

/-- What becomes of a member that a restart interrupts. -/
def recoverMemberStatus (status : SwarmLifecycleStatus) (detail : Option String)
    (isHeadless : Bool) : SwarmLifecycleStatus × Option String :=
  if status = .running then
    (.crashed, appendRecoveryDetail detail "recovered after reload while running")
  else if isHeadless ∧ status = .ready then
    (.stopped, appendRecoveryDetail detail "idle worker not restored after server restart")
  else if isHeadless ∧ status ∉ [.completed, .done, .failed, .stopped] then
    (.crashed, appendRecoveryDetail detail "headless session did not survive reload")
  else (status, detail)

/-- Since when the recovered member is terminal. -/
def terminalSince (member : PersistedSwarmMember) (snapshotUpdatedAtUnixMs : ℕ)
    (loadedAt : Clock) : Option ℕ :=
  let record := member.record
  let wasTerminalBeforeRecovery := memberStatusIsTerminal record.status.asStr
  let (status, _) := recoverMemberStatus record.status record.detail record.isHeadless
  if memberStatusIsTerminal status.asStr then
    some (member.terminalSinceUnixMs.getD
      (if wasTerminalBeforeRecovery then snapshotUpdatedAtUnixMs else loadedAt.unixMs))
  else none

/-- The recovered member, whose last change of status is when it became terminal. -/
def recoverMember (record : SwarmMemberRecord) (terminalSinceUnixMs : Option ℕ)
    (loadedAt : Clock) : SwarmMember :=
  let (status, detail) := recoverMemberStatus record.status record.detail record.isHeadless
  let recovered := SwarmMember.fromRecord { record with status := status, detail := detail }
    loadedAt.instant
  match terminalSinceUnixMs with
  | none => recovered
  | some since =>
      let age := loadedAt.unixMs - since
      { recovered with
        lastStatusChange :=
          if age ≤ loadedAt.instant then loadedAt.instant - age else loadedAt.instant }

/-- `none` for a member that has been terminal for the retention. -/
def fromPersistedMember (member : PersistedSwarmMember) (snapshotUpdatedAtUnixMs : ℕ)
    (loadedAt : Clock) (terminalRetention : ℕ) : Option SwarmMember :=
  let since := terminalSince member snapshotUpdatedAtUnixMs loadedAt
  if since.any fun since => terminalRetention ≤ loadedAt.unixMs - since then none
  else some (recoverMember member.record since loadedAt)

/-! ### Files -/

/-- The name of the file of a swarm, without its directory. -/
def stateFile (swarmId : String) : String :=
  String.ofList (swarmId.toList.map fun ch =>
    if isAsciiAlphanumeric ch || ch = '-' || ch = '_' then ch else '_') ++ ".json"

/-- The state directory: files with distinct names. -/
abbrev StateDir := AList fun _ : String => PersistedSwarmState

/-- Whether a plan is older than the one in the file. -/
def isStalePlan (dir : StateDir) (swarmId : String) (plan : LivePlan) : Bool :=
  match dir.lookup (stateFile swarmId) with
  | some current => current.plan.any fun persisted => plan.version < persisted.version
  | none => false

/-- What a call of `persist_swarm_state` is given. -/
structure Snapshot where
  swarmId : String
  plan : Option LivePlan
  coordinatorSessionId : Option String
  members : List SwarmMember

def Snapshot.isEmpty (snapshot : Snapshot) : Bool :=
  snapshot.plan.isNone && snapshot.coordinatorSessionId.isNone && snapshot.members.isEmpty

def Snapshot.toState (snapshot : Snapshot) (clock : Clock) : PersistedSwarmState where
  swarmId := snapshot.swarmId
  plan := snapshot.plan.map toPersistedPlan
  coordinatorSessionId := snapshot.coordinatorSessionId
  members := (snapshot.members.map fun member => toPersistedMember member clock).mergeSort
    fun left right => left.record.sessionId ≤ right.record.sessionId
  updatedAtUnixMs := clock.unixMs

/-- Whether a snapshot gets past the guard. -/
def accepts (dir : StateDir) (snapshot : Snapshot) : Bool :=
  snapshot.isEmpty || !(snapshot.plan.any fun plan => isStalePlan dir snapshot.swarmId plan)

def persistSwarmState (dir : StateDir) (clock : Clock) (snapshot : Snapshot) : StateDir :=
  if snapshot.isEmpty then dir.erase (stateFile snapshot.swarmId)
  else if accepts dir snapshot then
    dir.insert (stateFile snapshot.swarmId) (snapshot.toState clock)
  else dir

/-! ### Loading -/

structure LoadedSwarmRuntimeState where
  plans : StrMap LivePlan
  coordinators : StrMap String
  members : StrMap SwarmMember
  swarmsById : StrMap (List String)
  /-- The members dropped for their age, each with its swarm. -/
  prunedMembers : List (String × String)

namespace LoadedSwarmRuntimeState

def empty : LoadedSwarmRuntimeState := ⟨.empty, .empty, .empty, .empty, []⟩

def loadMember (loadedAt : Clock) (terminalRetention updatedAtUnixMs : ℕ)
    (loaded : LoadedSwarmRuntimeState) (member : PersistedSwarmMember) :
    LoadedSwarmRuntimeState :=
  match member.record.swarmId with
  | none => loaded
  | some swarmId =>
      match fromPersistedMember member updatedAtUnixMs loadedAt terminalRetention with
      | none =>
          { loaded with
            prunedMembers := loaded.prunedMembers ++ [(swarmId, member.record.sessionId)] }
      | some recovered =>
          { loaded with
            swarmsById := loaded.swarmsById.insert swarmId
              (((loaded.swarmsById.get swarmId).getD []).insert member.record.sessionId)
            members := loaded.members.insert member.record.sessionId recovered }

def loadState (loadedAt : Clock) (terminalRetention : ℕ) (loaded : LoadedSwarmRuntimeState)
    (state : PersistedSwarmState) : LoadedSwarmRuntimeState :=
  let plans := match state.plan with
    | some plan => loaded.plans.insert state.swarmId (fromPersistedPlan plan state.updatedAtUnixMs)
    | none => loaded.plans
  let coordinators := match state.coordinatorSessionId with
    | some coordinator => loaded.coordinators.insert state.swarmId coordinator
    | none => loaded.coordinators
  state.members.foldl (loadMember loadedAt terminalRetention state.updatedAtUnixMs)
    { loaded with plans := plans, coordinators := coordinators }

/-- The members dropped coordinate no swarm and take part in no plan. -/
def forgetPruned (loaded : LoadedSwarmRuntimeState) : LoadedSwarmRuntimeState :=
  { loaded with
    coordinators := loaded.coordinators.retain fun swarmId sessionId =>
      !loaded.prunedMembers.contains (swarmId, sessionId)
    plans := ⟨fun swarmId => (loaded.plans.get swarmId).map fun plan =>
      { plan with
        participants := plan.participants.filter fun sessionId =>
          !loaded.prunedMembers.contains (swarmId, sessionId) }⟩ }

end LoadedSwarmRuntimeState

/-- `load_runtime_state` reads the files in the order of the directory. -/
def loadRuntimeState (loadedAt : Clock) (terminalRetention : ℕ)
    (entries : List (Sigma fun _ : String => PersistedSwarmState)) : LoadedSwarmRuntimeState :=
  ((entries.map Sigma.snd).foldl (LoadedSwarmRuntimeState.loadState loadedAt terminalRetention)
    .empty).forgetPruned

/-- The snapshot without its dropped members that a load writes back for a swarm. -/
def LoadedSwarmRuntimeState.retained (loaded : LoadedSwarmRuntimeState) (swarmId : String) :
    Snapshot where
  swarmId := swarmId
  plan := loaded.plans.get swarmId
  coordinatorSessionId := loaded.coordinators.get swarmId
  members := ((loaded.swarmsById.get swarmId).getD []).filterMap loaded.members.get

/-- The directory after a load: each swarm that lost members is written back. -/
def rewritePruned (dir : StateDir) (clock : Clock) (loaded : LoadedSwarmRuntimeState) : StateDir :=
  (loaded.prunedMembers.map Prod.fst).dedup.foldl
    (fun dir swarmId => persistSwarmState dir clock (loaded.retained swarmId)) dir

/-! ### Runs -/

structure Store where
  dir : StateDir
  /-- The last snapshot of each swarm that got past the guard. -/
  accepted : StrMap PersistedSwarmState

def Store.empty : Store := ⟨∅, .empty⟩

inductive Event where
  | persist (clock : Clock) (snapshot : Snapshot)

def step (s : Store) : Event → Option Store
  | .persist clock snapshot =>
      some {
        dir := persistSwarmState s.dir clock snapshot
        accepted :=
          if snapshot.isEmpty then s.accepted.remove snapshot.swarmId
          else if accepts s.dir snapshot then
            s.accepted.insert snapshot.swarmId (snapshot.toState clock)
          else s.accepted }

end Jcode.Swarm.Persistence
