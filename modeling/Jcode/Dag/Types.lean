import Jcode.Support.Kahn
import Jcode.Support.Keyed
import Jcode.Support.Std

/-!
# Dag — the task graph

`jcode-plan/src/dag/mod.rs`.  Nodes are tasks, `dependsOn` edges are dependencies; a composite
node is the join of its children, a gate audits them.  The rung of a free-text confidence is
read by `ConfidenceLevel::parse`, whose last case is floating-point arithmetic: the model takes
it as a function `parse : String → Option ConfidenceLevel`.
-/

namespace Jcode.Dag
open Rust

abbrev NodeId := String

/-- Engine mode: `deep` engages gates and artifact validation, `light` does not. -/
inductive Mode where
  | deep
  | light
  deriving DecidableEq, Repr

def Mode.requiresGates : Mode → Bool
  | .deep => true
  | .light => false

/-- Where a node came from. -/
inductive NodeOrigin where
  | seed
  | expand
  | gap
  | gate
  deriving DecidableEq, Repr

/-- The terminal action a node represents. -/
inductive NodeKind where
  | explore
  | implement
  | verify
  | fix
  | synthesize
  | critique
  deriving DecidableEq, Repr

/-- The kind of the gate that guards a composite of this kind. -/
def NodeKind.gateKind : NodeKind → NodeKind
  | .implement | .fix => .verify
  | _ => .critique

/-- Node lifecycle status.  Being blocked is not stored: it is read off the dependencies. -/
inductive NodeStatus where
  | queued
  | running
  | done
  | failed
  deriving DecidableEq, Repr

/-- The status as its derived `Debug` prints it. -/
def NodeStatus.debug : NodeStatus → String
  | .queued => "Queued"
  | .running => "Running"
  | .done => "Done"
  | .failed => "Failed"

inductive ConfidenceLevel where
  | low
  | medium
  | high
  deriving DecidableEq, Repr

/-- The typed handoff artifact attached to a node on completion. -/
structure HandoffArtifact where
  findings : String := ""
  evidence : List String := []
  edgeCasesConsidered : List String := []
  validation : Option String := none
  openQuestions : List String := []
  confidence : Option String := none
  whatIDidNotCheck : List String := []
  deriving DecidableEq, Repr

namespace HandoffArtifact

/-- The rung of the artifact's free-text confidence, when it parses to one. -/
def confidenceLevel (parse : String → Option ConfidenceLevel) (a : HandoffArtifact) :
    Option ConfidenceLevel :=
  a.confidence.bind parse

/-- The artifact as a section of a dependent's input. -/
def renderSection (a : HandoffArtifact) (id kind : String) : String :=
  s!"## {id} ({kind})\n"
    ++ (if (trim a.findings).isEmpty then "" else a.findings ++ "\n")
    ++ (if a.evidence.isEmpty then "" else "Evidence: " ++ join "; " a.evidence ++ "\n")
    ++ (if a.edgeCasesConsidered.isEmpty then ""
        else "Edge cases considered: " ++ join "; " a.edgeCasesConsidered ++ "\n")
    ++ (match a.validation with
        | some validation => s!"Validation: {validation}\n"
        | none => "")
    ++ (if a.openQuestions.isEmpty then ""
        else "Open questions: " ++ join "; " a.openQuestions ++ "\n")
    ++ (match a.confidence with
        | some confidence => s!"Confidence: {confidence}\n"
        | none => "")
    ++ (if a.whatIDidNotCheck.isEmpty then ""
        else "What was not checked: " ++ join "; " a.whatIDidNotCheck ++ "\n")

end HandoffArtifact

/-- A task node. -/
structure TaskNode where
  id : NodeId
  content : String
  kind : NodeKind
  status : NodeStatus
  /-- The worker the node is assigned to: only the owner may expand or complete it. -/
  owner : Option String := none
  /-- The composite node this was decomposed from. -/
  parent : Option NodeId := none
  /-- The nodes that must be `done` before this one is runnable. -/
  dependsOn : List NodeId := []
  /-- Decomposed into children: a join point. -/
  expanded : Bool := false
  isGate : Bool := false
  /-- The agent that planned the decomposition. -/
  planner : Option String := none
  priority : UInt8 := 0
  output : Option HandoffArtifact := none
  origin : Option NodeOrigin := none
  deriving DecidableEq, Repr

namespace TaskNode

def isDone (node : TaskNode) : Bool := node.status = .done

def isTerminal (node : TaskNode) : Bool := node.status = .done || node.status = .failed

end TaskNode

/-- A declarative spec for a node to add. -/
structure NodeSpec where
  id : Option NodeId
  content : String
  kind : NodeKind
  dependsOn : List NodeId := []
  priority : UInt8 := 0
  deriving DecidableEq, Repr

/-- The id of a spec, `id.unwrap_or_default()`; the operations validate it first. -/
def NodeSpec.nodeId (spec : NodeSpec) : NodeId := spec.id.getD ""

/-- Errors of the validated mutations. -/
inductive DagError where
  | unknownNode (id : NodeId)
  | duplicateNode (id : NodeId)
  | unknownDependency (node dependency : NodeId)
  | wouldCreateCycle (ids : List NodeId)
  | notOwner (node : NodeId) (actor : String)
  | invalidState (node : NodeId) (status : NodeStatus)
  | thinArtifact (node : NodeId) (reason : String)
  | unaddressedLowConfidence (gate : NodeId) (nodes : List NodeId)
  | uncoveredSiblings (gate : NodeId) (nodes : List NodeId)
  | staleGateScope (gate : NodeId) (pending : List NodeId)
  | gateMisuse (msg : String)
  deriving DecidableEq, Repr

/-- The message of an error, its `Display`. -/
def DagError.display : DagError → String
  | .unknownNode id => s!"unknown node '{id}'"
  | .duplicateNode id => s!"duplicate node id '{id}'"
  | .unknownDependency node dependency =>
      s!"node '{node}' depends on unknown node '{dependency}'"
  | .wouldCreateCycle ids => "operation would create a cycle among: " ++ join ", " ids
  | .notOwner node actor => s!"actor '{actor}' does not own node '{node}'"
  | .invalidState node status =>
      s!"node '{node}' is in invalid state {status.debug} for this operation"
  | .thinArtifact node reason => s!"node '{node}' artifact rejected: {reason}"
  | .unaddressedLowConfidence gate nodes =>
      s!"gate '{gate}' cannot pass: sibling node(s) [" ++ join ", " nodes ++ "] completed with LOW " ++
      "confidence and the gate artifact does not address them. Either " ++
      "inject_gap with follow-up nodes that shore up that work, or name each " ++
      "id in your findings with why its low confidence is acceptable"
  | .uncoveredSiblings gate nodes =>
      s!"gate '{gate}' cannot pass: completed node(s) [" ++ join ", " nodes ++
      "] in its audit scope are " ++
      "not addressed in the gate artifact. A passing deep gate must account for " ++
      "every node it audits: name each id in findings/open_questions with what " ++
      "you checked, or inject_gap with follow-up nodes for anything shaky"
  | .staleGateScope gate pending =>
      s!"gate '{gate}' cannot pass: node(s) [" ++ join ", " pending ++
      "] entered its audit scope after it " ++
      "was dispatched and are not finished. The gate's view is stale; it re-runs " ++
      "after they drain"
  | .gateMisuse msg => s!"gate misuse: {msg}"

/-- The task DAG: a mode and the nodes, in insertion order. -/
structure TaskGraph where
  mode : Mode
  nodes : List TaskNode
  deriving DecidableEq, Repr

namespace TaskGraph

/-- The empty graph, `TaskGraph::new`. -/
def new (mode : Mode) : TaskGraph := { mode := mode, nodes := [] }

def get (g : TaskGraph) (id : NodeId) : Option TaskNode := g.nodes.find? fun node => node.id == id

/-- `get_mut`, and the writes `f` through it. -/
def getMut (g : TaskGraph) (id : NodeId) (f : TaskNode → TaskNode) : Option TaskGraph :=
  match g.get id with
  | some _ => some { g with nodes := Keyed.updateFirst (fun node => node.id == id) f g.nodes }
  | none => none

def contains (g : TaskGraph) (id : NodeId) : Bool := g.nodes.any fun node => node.id == id

def push (g : TaskGraph) (node : TaskNode) : TaskGraph := { g with nodes := g.nodes ++ [node] }

/-- Children of a composite node, without its gate. -/
def childrenOf (g : TaskGraph) (id : NodeId) : List TaskNode :=
  g.nodes.filter fun node => node.parent == some id && !node.isGate

def allTerminal (g : TaskGraph) : Bool := g.nodes.all TaskNode.isTerminal

/-! ### Cycle detection -/

/-- The ids, in order. -/
def ids (g : TaskGraph) : List NodeId := g.nodes.map (·.id)

/-- The in-degrees Kahn's algorithm starts from: each distinct dependency on a node of the graph
is counted once. -/
def indegree (g : TaskGraph) (id : NodeId) : ℕ :=
  ((g.nodes.filter fun node => node.id == id).map fun node =>
    (node.dependsOn.filter fun dep => g.ids.contains dep).dedup.length).sum

/-- The nodes that name `id` in `dependsOn`, once each. -/
def dependents (g : TaskGraph) (id : NodeId) : List NodeId :=
  (g.nodes.filter fun node => node.dependsOn.contains id).map (·.id)

/-- The ids of in-degree zero; the stack pops the greatest first. -/
def cycleStart (g : TaskGraph) : List NodeId :=
  ((g.ids.dedup.filter fun id => g.indegree id == 0).insertionSort (· ≤ ·)).reverse

/-- The ids on a cycle of `dependsOn` edges or downstream of one; empty when acyclic. -/
def cycleNodes (g : TaskGraph) : List NodeId :=
  let visited := (Kahn.loop g.dependents
    (Kahn.edgeFuel g.ids.toFinset g.dependents g.cycleStart)
    { indegree := g.indegree, queue := g.cycleStart, visited := [] }).visited
  (g.ids.filter fun id => !visited.contains id).insertionSort (· ≤ ·)

end TaskGraph

end Jcode.Dag
