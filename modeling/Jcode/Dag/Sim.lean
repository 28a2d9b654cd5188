import Jcode.Dag.Schedule

/-!
# Dag — the simulator

`jcode-plan/src/dag/sim.rs`.  The driver dispatches the ready nodes, lets a scripted worker act
on each, and repeats until every node is terminal or nothing can run.  A worker is a closure:
a function of what it is handed and of the state `σ` it captures.
-/

namespace Jcode.Dag

/-- What a worker decides to do with the node it was handed. -/
inductive WorkerAction where
  | complete (artifact : HandoffArtifact)
  | expand (children : List NodeSpec)
  | injectGap (newNodes : List NodeSpec)
  | fail

/-- A scripted worker: node id, kind and input to an action, with captured state. -/
abbrev Worker (σ : Type) := NodeId → NodeKind → String → σ → WorkerAction × σ

/-- Outcome of a simulation run. -/
structure SimReport where
  steps : ℕ
  completed : ℕ
  failed : ℕ
  stalled : Bool
  deriving DecidableEq, Repr

def report (graph : TaskGraph) (steps : ℕ) (stalled : Bool) : SimReport where
  steps := steps
  completed := (graph.nodes.filter TaskNode.isDone).length
  failed := (graph.nodes.filter fun node => node.status = .failed).length
  stalled := stalled

section Run
variable (parse : String → Option ConfidenceLevel)

/-- Forget the value of a result. -/
def discard {α : Type} (o : Outcome α) : Outcome Unit := (o.1.map fun _ => (), o.2)

/-- Apply a worker's action to the node it was handed. -/
def applyAction (graph : TaskGraph) (nodeId : NodeId) (worker : String) :
    WorkerAction → Outcome Unit
  | .complete artifact => completeNode parse graph nodeId worker artifact
  | .expand children => discard (expandNode graph nodeId worker children)
  | .injectGap newNodes => discard (injectFromGate graph nodeId worker newNodes)
  | .fail => failNode graph nodeId worker

variable {σ : Type} (worker : Worker σ) (maxWorkers : ℕ)

/-- The `for` loop over the ready nodes, from index `idx`: the step count, or the first error. -/
def runBatch : ℕ → List (NodeId × NodeKind) → ℕ → TaskGraph → σ →
    Except DagError ℕ × TaskGraph × σ
  | _, [], steps, graph, s => (.ok steps, graph, s)
  | idx, (nodeId, kind) :: ready, steps, graph, s =>
      let workerName := s!"w{idx % maxWorkers}"
      match dispatch graph nodeId workerName with
      | (false, graph) => runBatch (idx + 1) ready steps graph s
      | (true, graph) =>
          let (action, s) := worker nodeId kind (assembleInput graph nodeId) s
          match applyAction parse graph nodeId workerName action with
          | (.error e, graph) => (.error e, graph, s)
          | (.ok (), graph) => runBatch (idx + 1) ready (steps + 1) graph s

/-- `sim::run` from the step count `steps`; `none` when the fuel runs out. -/
def runFrom (maxSteps : ℕ) :
    ℕ → ℕ → TaskGraph → σ → Option (Except DagError SimReport × TaskGraph × σ)
  | 0, _, _, _ => none
  | fuel + 1, steps, graph, s =>
      if graph.allTerminal then some (.ok (report graph steps false), graph, s)
      else if steps ≥ maxSteps then some (.ok (report graph steps true), graph, s)
      else
        let ready := ((readyNodes graph).take maxWorkers).map fun node => (node.id, node.kind)
        if ready.isEmpty then some (.ok (report graph steps true), graph, s)
        else
          match runBatch parse worker maxWorkers 0 ready steps graph s with
          | (.error e, graph, s) => some (.error e, graph, s)
          | (.ok steps, graph, s) => runFrom maxSteps fuel steps graph s

end Run

end Jcode.Dag
