import Jcode.Dag.Ops

/-!
# Bridge — plans and graphs

`jcode-plan/src/bridge.rs`, and the plan of `jcode-plan/src/lib.rs`.  A live handler lifts the
stored plan into a graph (`toTaskGraph`), runs an engine operation on it, and lowers the result
back (`applyTaskGraph`).  Everything in a plan is text: status, kind, origin, priority, and the
artifact of a node as JSON.  `serde_json` is a parameter.
-/

namespace Jcode.Bridge
open Rust Jcode.Dag

/-- `serde_json` on handoff artifacts. -/
structure SerdeJson where
  fromStr : String → Except String HandoffArtifact
  toString : HandoffArtifact → Except String String

/-- A plan item. -/
structure PlanItem where
  content : String
  status : String
  priority : String
  id : String
  subsystem : Option String := none
  fileScope : List String := []
  blockedBy : List String := []
  assignedTo : Option String := none
  deriving DecidableEq, Repr

/-- The metadata of a node, stored beside the items. -/
structure NodeMeta where
  kind : Option String := none
  parent : Option String := none
  expanded : Bool := false
  isGate : Bool := false
  planner : Option String := none
  artifactJson : Option String := none
  origin : Option String := none
  deriving DecidableEq, Repr

/-- The shared plan of a swarm. -/
structure VersionedPlan where
  items : List PlanItem
  version : ℕ
  /-- The sessions that receive this plan's updates. -/
  participants : Finset String
  mode : String
  nodeMeta : StrMap NodeMeta

def VersionedPlan.new : VersionedPlan where
  items := []
  version := 0
  participants := ∅
  mode := "light"
  nodeMeta := StrMap.empty

/-! ### Codes -/

def parseMode (mode : String) : Mode :=
  match toAsciiLowercase (trim mode) with
  | "deep" => .deep
  | _ => .light

def modeStr : Mode → String
  | .deep => "deep"
  | .light => "light"

def parseKind (kind : Option String) : NodeKind :=
  match kind.map fun k => toAsciiLowercase (trim k) with
  | some "implement" => .implement
  | some "verify" => .verify
  | some "fix" => .fix
  | some "synthesize" => .synthesize
  | some "critique" => .critique
  | _ => .explore

def kindStr : NodeKind → String
  | .explore => "explore"
  | .implement => "implement"
  | .verify => "verify"
  | .fix => "fix"
  | .synthesize => "synthesize"
  | .critique => "critique"

def parseOrigin (origin : Option String) : Option NodeOrigin :=
  match origin.map fun o => toAsciiLowercase (trim o) with
  | some "seed" => some .seed
  | some "expand" => some .expand
  | some "gap" => some .gap
  | some "gate" => some .gate
  | _ => none

def originStr : NodeOrigin → String
  | .seed => "seed"
  | .expand => "expand"
  | .gap => "gap"
  | .gate => "gate"

def statusFromPlan (status : String) : NodeStatus :=
  match status with
  | "running" | "running_stale" => .running
  | "completed" | "done" => .done
  | "failed" | "stopped" | "crashed" => .failed
  | _ => .queued

def statusToPlan : NodeStatus → String
  | .queued => "queued"
  | .running => "running"
  | .done => "completed"
  | .failed => "failed"

def priorityRank (priority : String) : UInt8 :=
  match priority with
  | "high" | "urgent" | "p0" => 0
  | "medium" | "normal" | "p1" => 1
  | "low" | "p2" => 2
  | _ => 1

def priorityString (rank : UInt8) : String :=
  match rank with
  | 0 => "high"
  | 2 => "low"
  | _ => "medium"

/-! ### Lifting and lowering -/

section Serde
variable (json : SerdeJson)

/-- The node of a plan item; an item without metadata has the default. -/
def liftItem (plan : VersionedPlan) (item : PlanItem) : TaskNode :=
  let nodeMeta := (plan.nodeMeta.get item.id).getD {}
  let artifact := nodeMeta.artifactJson.bind fun text => (json.fromStr text).toOption
  { id := item.id
    content := item.content
    kind := parseKind nodeMeta.kind
    status := statusFromPlan item.status
    owner := item.assignedTo
    parent := nodeMeta.parent
    dependsOn := item.blockedBy
    expanded := nodeMeta.expanded
    isGate := nodeMeta.isGate
    planner := nodeMeta.planner
    priority := priorityRank item.priority
    output := artifact
    origin := parseOrigin nodeMeta.origin }

/-- Lift a plan into a graph. -/
def toTaskGraph (plan : VersionedPlan) : TaskGraph :=
  plan.items.foldl (fun graph item => graph.push (liftItem json plan item))
    (TaskGraph.new (parseMode plan.mode))

/-- The item of a node: the fields the engine does not own are those of the prior item of the same
id, if there is one. -/
def lowerItem (prior : StrMap PlanItem) (node : TaskNode) : PlanItem :=
  let prev := prior.get node.id
  { content := node.content
    status := statusToPlan node.status
    priority := (prev.map PlanItem.priority).getD (priorityString node.priority)
    id := node.id
    subsystem := prev.bind PlanItem.subsystem
    fileScope := (prev.map PlanItem.fileScope).getD []
    blockedBy := node.dependsOn
    assignedTo := node.owner }

def lowerMeta (node : TaskNode) : NodeMeta where
  kind := some (kindStr node.kind)
  parent := node.parent
  expanded := node.expanded
  isGate := node.isGate
  planner := node.planner
  artifactJson := node.output.bind fun artifact => (json.toString artifact).toOption
  origin := node.origin.map originStr

/-- Lower a graph into the items and the metadata of a plan. -/
def applyTaskGraph (plan : VersionedPlan) (graph : TaskGraph) : VersionedPlan :=
  let prior := StrMap.collect (plan.items.map fun item => (item.id, item))
  { plan with
    mode := modeStr graph.mode
    items := graph.nodes.map (lowerItem prior)
    nodeMeta := StrMap.collect (graph.nodes.map fun node => (node.id, lowerMeta json node)) }

end Serde

end Jcode.Bridge
