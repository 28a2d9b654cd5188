import Jcode.Dag.Ops

/-!
# Dag — the scheduler

`jcode-plan/src/dag/schedule.rs`.  A node is runnable when all its dependencies are `done`; on
dispatch it gets an owner, and its input is its own prompt with the artifacts of its
dependencies.
-/

namespace Jcode.Dag
open Rust

/-- Every dependency is a `done` node of the graph. -/
def depsSatisfied (graph : TaskGraph) (node : TaskNode) : Bool :=
  node.dependsOn.all fun dep => ((graph.get dep).map TaskNode.isDone).getD false

/-- Queued, with every dependency `done`. -/
def isReady (graph : TaskGraph) (node : TaskNode) : Bool :=
  node.status = .queued && depsSatisfied graph node

/-- Scheduling order: priority ascending, then id. -/
def scheduledBefore (a b : TaskNode) : Prop :=
  a.priority < b.priority ∨ a.priority = b.priority ∧ a.id ≤ b.id

instance : DecidableRel scheduledBefore := fun a b => by unfold scheduledBefore; infer_instance

/-- The nodes that are runnable right now, in scheduling order. -/
def readyNodes (graph : TaskGraph) : List TaskNode :=
  (graph.nodes.filter (isReady graph)).insertionSort scheduledBefore

/-- Assign a ready node to `worker`; `false` when the node is not dispatchable. -/
def dispatch (graph : TaskGraph) (nodeId : NodeId) (worker : String) : Bool × TaskGraph :=
  let dispatchable := ((graph.get nodeId).map (isReady graph)).getD false
  if !dispatchable then (false, graph)
  else
    match graph.getMut nodeId fun node => { node with owner := some worker, status := .running } with
    | none => (false, graph)
    | some graph => (true, graph)

/-- The lowercase label of a node kind. -/
def kindLabel : NodeKind → String
  | .explore => "explore"
  | .implement => "implement"
  | .verify => "verify"
  | .fix => "fix"
  | .synthesize => "synthesize"
  | .critique => "critique"

/-- The section of one completed dependency. -/
def dependencySection (dep : TaskNode) : String :=
  match dep.output with
  | some artifact => artifact.renderSection dep.id (kindLabel dep.kind)
  | none => "## " ++ dep.id ++ " (" ++ kindLabel dep.kind ++ ")\n"

/-- The worker's input for a node: its prompt and the artifacts of its completed dependencies. -/
def assembleInput (graph : TaskGraph) (nodeId : NodeId) : String :=
  match graph.get nodeId with
  | none => ""
  | some node =>
      let upstream := (node.dependsOn.filterMap graph.get).filter TaskNode.isDone
      if upstream.isEmpty then node.content
      else
        upstream.foldl (fun out dep => out ++ "\n" ++ dependencySection dep)
          (node.content ++ "\n\n# Inputs from completed dependencies\n")

end Jcode.Dag
