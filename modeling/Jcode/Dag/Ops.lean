import Jcode.Dag.Mention

/-!
# Dag — validated graph mutations

`jcode-plan/src/dag/ops.rs`.  A mutation stages its result on the side and replaces the caller's
graph after its last check (`commit`): it returns the result and the graph it leaves behind.
-/

namespace Jcode.Dag
open Rust

/-- The result of a mutation, and the graph it leaves behind. -/
abbrev Outcome (α : Type) := Except DagError α × TaskGraph

/-- An error leaves the graph; a success replaces it by the staged one. -/
def commit {α : Type} (graph : TaskGraph) : Except DagError (α × TaskGraph) → Outcome α
  | .ok (a, staged) => (.ok a, staged)
  | .error e => (.error e, graph)

/-- Append the ids that are missing, in order. -/
def extendDeps (deps ids : List NodeId) : List NodeId :=
  ids.foldl (fun deps id => if deps.contains id then deps else deps ++ [id]) deps

/-! ### Specs -/

/-- The explicit, non-blank id of a spec. -/
def validatedSpecId (spec : NodeSpec) (op : String) : Except DagError NodeId := do
  let id ← okOr spec.id (.gateMisuse s!"{op} specs must carry explicit ids")
  ensure ((trim id).isEmpty = false) (.gateMisuse s!"{op} specs must carry non-empty ids")
  return id

/-- The first occurrence of each id, in order. -/
def dedupDeps (deps : List NodeId) : List NodeId := extendDeps [] deps

def specToNode (spec : NodeSpec) (parent : Option NodeId) (origin : NodeOrigin) : TaskNode where
  id := spec.nodeId
  content := spec.content
  kind := spec.kind
  status := .queued
  parent := parent
  dependsOn := dedupDeps spec.dependsOn
  priority := spec.priority
  origin := some origin

/-- The first dependency, in the order of the specs, that is neither one of `known` nor a node of
the graph is an error. -/
def checkDependencies (graph : TaskGraph) (known : List NodeId) :
    List (NodeId × NodeSpec) → Except DagError Unit
  | [] => .ok ()
  | (node, spec) :: specs =>
      match spec.dependsOn.find? fun dep => !known.contains dep && !graph.contains dep with
      | some dep => .error (.unknownDependency node dep)
      | none => checkDependencies graph known specs

/-! ### Gates -/

/-- `{base}{n}` for the first counter `n` whose id is free. -/
def gateIdFrom (graph : TaskGraph) (base : String) : ℕ → ℕ → NodeId
  | 0, n => s!"{base}{n}"
  | fuel + 1, n =>
      let candidate := s!"{base}{n}"
      if graph.contains candidate then gateIdFrom graph base fuel (n + 1) else candidate

/-- A gate id that no node of the graph has.  One of the first `graph.nodes.length + 1` counters
is free (`uniqueGateId_fresh`), far below the source's `u32`. -/
def uniqueGateId (graph : TaskGraph) (nodeId : NodeId) : NodeId :=
  let base := s!"{nodeId}::gate"
  if graph.contains base then gateIdFrom graph base graph.nodes.length 2 else base

def gateContent (kind : NodeKind) (parent : NodeId) : String :=
  match kind with
  | .verify =>
      s!"Verify the work of '{parent}': run the declared acceptance checks (build, tests, lint). " ++
      "If anything fails, emit fix nodes back into the graph; do not pass until they drain."
  | _ =>
      s!"Critique the work of '{parent}' adversarially. Read every child's 'what_i_did_not_check' " ++
      "and find unexplored gaps given this task's stated scope. For each gap, emit a new child " ++
      "node; do not pass until no gaps remain."

def rootGateContent : NodeKind → String
  | .verify =>
      "Final plan-wide verify: run the acceptance checks for the whole " ++
      "plan's declared scope (build, tests, lint) across everything the plan changed. If " ++
      "anything fails, inject fix nodes; the plan cannot finish until they drain."
  | _ =>
      "Final plan-wide critique: audit the ENTIRE plan adversarially before it may " ++
      "finish. Read every completed node's artifact, especially each " ++
      "'what_i_did_not_check' and every open question, and hunt for whole facets the " ++
      "plan never covered. For each gap, inject a new node; the plan cannot finish " ++
      "until they drain."

/-- An auto-inserted gate. -/
def gateNode (id : NodeId) (content : String) (kind : NodeKind) (parent : Option NodeId)
    (dependsOn : List NodeId) : TaskNode where
  id := id
  content := content
  kind := kind
  status := .queued
  parent := parent
  dependsOn := dependsOn
  isGate := true
  origin := some .gate

/-- The non-gate nodes without a parent. -/
def rootNodes (graph : TaskGraph) : List TaskNode :=
  graph.nodes.filter fun node => node.parent.isNone && !node.isGate

/-- Extend the root gate to the root nodes `rootIds`.  A gate that already reached a terminal
state is re-queued when this widens it. -/
def widenRootGate (rootIds : List NodeId) (gate : TaskNode) : TaskNode :=
  let widened := rootIds.any fun id => !gate.dependsOn.contains id
  let gate := { gate with dependsOn := extendDeps gate.dependsOn rootIds }
  if widened && gate.isTerminal then { gate with status := .queued, owner := none } else gate

/-- Insert or refresh the deep-mode root gate so it audits the current root nodes. -/
def ensureRootGate (graph : TaskGraph) : TaskGraph :=
  let rootIds := (rootNodes graph).map (·.id)
  if rootIds.isEmpty then graph
  else
    match graph.nodes.find? fun node => node.isGate && node.parent.isNone with
    | some gate => (graph.getMut gate.id (widenRootGate rootIds)).getD graph
    | none =>
        let allCode := (rootNodes graph).all fun node =>
          node.kind = .implement || node.kind = .fix
        let gateKind := if allCode then NodeKind.verify else NodeKind.critique
        graph.push (gateNode (uniqueGateId graph "plan") (rootGateContent gateKind) gateKind none
          rootIds)

/-! ### Seeding -/

/-- Equal as sets. -/
def dependencySetsEqual (left right : List NodeId) : Bool :=
  left.all (right.contains ·) && right.all (left.contains ·)

def seedSpecsEquivalent (left right : NodeSpec) : Bool :=
  left.id == right.id && left.content == right.content && left.kind == right.kind
    && left.priority == right.priority && dependencySetsEqual left.dependsOn right.dependsOn

/-- The dependencies of a node without the join edges to its own children and gate. -/
def declaredDependencies (graph : TaskGraph) (node : TaskNode) : List NodeId :=
  node.dependsOn.filter fun dependency =>
    match graph.get dependency with
    | none => true
    | some candidate => candidate.parent != some node.id

/-- Whether a seeded (or origin-less) top-level node was declared by an equivalent spec. -/
def seedSpecMatchesExisting (graph : TaskGraph) (node : TaskNode) (spec : NodeSpec) : Bool :=
  if node.parent.isSome || node.isGate
      || !(node.origin == none || node.origin == some .seed)
      || node.content != spec.content
      || node.kind != spec.kind
      || node.priority != spec.priority then false
  else dependencySetsEqual (declaredDependencies graph node) spec.dependsOn

/-- Collapse replays within one batch; `unique` holds the specs kept so far. -/
def collapseSpecs (unique : List NodeSpec) : List NodeSpec → Except DagError (List NodeSpec)
  | [] => .ok unique
  | spec :: specs => do
      let id ← validatedSpecId spec "seed"
      match unique.find? fun existing => existing.id == some id with
      | some existing =>
          ensure (seedSpecsEquivalent existing spec) (.duplicateNode id)
          collapseSpecs unique specs
      | none => collapseSpecs (unique ++ [spec]) specs

/-- Push a node for each spec the graph does not hold yet. -/
def stageSpecs (graph : TaskGraph) (staged : TaskGraph) :
    List NodeSpec → Except DagError TaskGraph
  | [] => .ok staged
  | spec :: specs =>
      let id := spec.nodeId
      match graph.get id with
      | some existing => do
          ensure (seedSpecMatchesExisting graph existing spec) (.duplicateNode id)
          stageSpecs graph staged specs
      | none => stageSpecs graph (staged.push (specToNode spec none .seed)) specs

/-- Seed the DAG from a batch of specs. -/
def seed (graph : TaskGraph) (specs : List NodeSpec) : Outcome Unit :=
  commit graph do
    let uniqueSpecs ← collapseSpecs [] specs
    let known := uniqueSpecs.map NodeSpec.nodeId
    checkDependencies graph known (uniqueSpecs.map fun spec => (spec.nodeId, spec))
    let staged ← stageSpecs graph graph uniqueSpecs
    let staged := if staged.mode.requiresGates then ensureRootGate staged else staged
    ensure (staged.cycleNodes = []) (.wouldCreateCycle staged.cycleNodes)
    return ((), staged)

/-! ### Expansion -/

/-- The result of expanding a node into children. -/
structure ExpandOutcome where
  childIds : List NodeId
  gateId : Option NodeId
  deriving DecidableEq, Repr

/-- The validated ids of new nodes: explicit, free in the graph and distinct. -/
def newNodeIds (graph : TaskGraph) (op : String) :
    List NodeId → List NodeSpec → Except DagError (List NodeId)
  | seen, [] => .ok seen
  | seen, spec :: specs => do
      let id ← validatedSpecId spec op
      ensure (¬ (graph.contains id ∨ seen.contains id)) (.duplicateNode id)
      newNodeIds graph op (seen ++ [id]) specs

/-- Push a node for each spec. -/
def pushSpecs (staged : TaskGraph) (specs : List NodeSpec) (parent : Option NodeId)
    (origin : NodeOrigin) : TaskGraph :=
  specs.foldl (fun staged spec => staged.push (specToNode spec parent origin)) staged

/-- Flip a node into a composite join over `synthDeps`. -/
def flipComposite (synthDeps : List NodeId) (node : TaskNode) : TaskNode :=
  { node with
    expanded := true
    status := .queued
    planner := if node.planner.isNone then node.owner else node.planner
    owner := none
    dependsOn := extendDeps node.dependsOn synthDeps }

/-- Decompose a node the actor owns into a child sub-DAG. -/
def expandNode (graph : TaskGraph) (nodeId : NodeId) (actor : String) (children : List NodeSpec) :
    Outcome ExpandOutcome :=
  commit graph do
    let node ← okOr (graph.get nodeId) (.unknownNode nodeId)
    ensure (node.owner = some actor) (.notOwner nodeId actor)
    ensure (node.isGate = false) (.gateMisuse s!"gate node '{nodeId}' cannot be decomposed")
    ensure (¬ (node.expanded ∨ node.status ≠ .running)) (.invalidState nodeId node.status)
    ensure (children ≠ []) (.gateMisuse "expand requires at least one child")
    let childIds ← newNodeIds graph "expand" [] children
    checkDependencies graph childIds (childIds.zip children)
    let staged := pushSpecs graph children (some nodeId) .expand
    let parentKind := ((staged.get nodeId).map (·.kind)).getD .explore
    let gateKind := parentKind.gateKind
    let gateId := uniqueGateId staged nodeId
    let gate := gateNode gateId (gateContent gateKind nodeId) gateKind (some nodeId) childIds
    let withGate := staged.mode.requiresGates
    let staged := if withGate then staged.push gate else staged
    let synthDeps := if withGate then childIds ++ [gateId] else childIds
    let staged ← okOr (staged.getMut nodeId (flipComposite synthDeps)) (.unknownNode nodeId)
    ensure (staged.cycleNodes = []) (.wouldCreateCycle staged.cycleNodes)
    return (⟨childIds, if withGate then some gateId else none⟩, staged)

/-! ### Completion -/

section Confidence
variable (parse : String → Option ConfidenceLevel)

/-- Deep-mode thinness rules for the artifact of a non-gate node. -/
def validateArtifact (mode : Mode) (nodeId : NodeId) (isGate : Bool) (artifact : HandoffArtifact) :
    Except DagError Unit :=
  if !mode.requiresGates then .ok ()
  else if isGate then .ok ()
  else do
    ensure ((trim artifact.findings).isEmpty = false)
      (.thinArtifact nodeId "deep-mode artifact requires non-empty findings")
    ensure (artifact.whatIDidNotCheck ≠ [])
      (.thinArtifact nodeId ("deep-mode artifact must list 'what_i_did_not_check' (use an explicit "
        ++ "'nothing, fully covered' entry only when truly exhaustive)"))
    ensure (artifact.confidenceLevel parse ≠ none)
      (.thinArtifact nodeId ("deep-mode artifact must state a confidence of low, medium, or high "
        ++ "(honest 'low' is welcome: it routes follow-up work instead of penalizing you)"))

/-- Above this many audited nodes a passing gate need not name the high-confidence ones. -/
def gateCoverageEnumerationCap : ℕ := 20

/-- A gate's audit scope: the non-gate nodes it depends on. -/
def gateAuditScope (graph : TaskGraph) (gate : TaskNode) : List TaskNode :=
  (gate.dependsOn.filterMap graph.get).filter fun node => !node.isGate

/-- Whether a gate's artifact names `id` in its findings or open questions. -/
def addressed (artifact : HandoffArtifact) (id : NodeId) : Bool :=
  mentionsNodeId artifact.findings id || artifact.openQuestions.any (mentionsNodeId · id)

/-- The rung a node's artifact self-reported. -/
def nodeConfidence (node : TaskNode) : Option ConfidenceLevel :=
  node.output.bind (HandoffArtifact.confidenceLevel parse)

/-- Deep-mode rules for a gate trying to pass. -/
def validateGatePass (graph : TaskGraph) (gateId : NodeId) (artifact : HandoffArtifact) :
    Except DagError Unit :=
  match graph.get gateId with
  | none => .ok ()
  | some gate =>
      let scope := gateAuditScope graph gate
      if scope.isEmpty then .ok ()
      else do
        let pending := (scope.filter fun node => !node.isDone).map (·.id)
        ensure (pending = []) (.staleGateScope gateId pending)
        let confidenceDebts := ((scope.filter fun node =>
          nodeConfidence parse node = some .low).filter fun node =>
            !addressed artifact node.id).map (·.id)
        ensure (confidenceDebts = []) (.unaddressedLowConfidence gateId confidenceDebts)
        if scope.length ≤ gateCoverageEnumerationCap then
          let uncovered := (scope.filter fun node => !addressed artifact node.id).map (·.id)
          ensure (uncovered = []) (.uncoveredSiblings gateId uncovered)
        else
          let uncovered := ((scope.filter fun node =>
            nodeConfidence parse node ≠ some .high).filter fun node =>
              !addressed artifact node.id).map (·.id)
          ensure (uncovered = []) (.uncoveredSiblings gateId uncovered)

/-- Complete a node the actor owns with a handoff artifact. -/
def completeNode (graph : TaskGraph) (nodeId : NodeId) (actor : String)
    (artifact : HandoffArtifact) : Outcome Unit :=
  commit graph do
    let node ← okOr (graph.get nodeId) (.unknownNode nodeId)
    ensure (node.owner = some actor) (.notOwner nodeId actor)
    ensure (node.status = .running) (.invalidState nodeId node.status)
    validateArtifact parse graph.mode nodeId node.isGate artifact
    (if node.isGate && graph.mode.requiresGates then validateGatePass parse graph nodeId artifact
      else .ok ())
    let graph ← okOr (graph.getMut nodeId fun node =>
      { node with status := .done, output := some artifact }) (.unknownNode nodeId)
    return ((), graph)

end Confidence

/-! ### Failure, gaps and retries -/

/-- Mark a node the actor owns as failed. -/
def failNode (graph : TaskGraph) (nodeId : NodeId) (actor : String) : Outcome Unit :=
  commit graph do
    let node ← okOr (graph.get nodeId) (.unknownNode nodeId)
    ensure (node.owner = some actor) (.notOwner nodeId actor)
    ensure (node.status = .running) (.invalidState nodeId node.status)
    let graph ← okOr (graph.getMut nodeId fun node => { node with status := .failed })
      (.unknownNode nodeId)
    return ((), graph)

/-- Re-queue a gate behind the nodes it injected. -/
def requeueGate (newIds : List NodeId) (gate : TaskNode) : TaskNode :=
  { gate with
    status := .queued
    owner := none
    dependsOn := extendDeps gate.dependsOn newIds }

/-- Make a composite wait for the nodes its gate injected. -/
def joinGaps (newIds : List NodeId) (node : TaskNode) : TaskNode :=
  { node with dependsOn := extendDeps node.dependsOn newIds }

/-- Inject gap or fix nodes from a gate that found a problem. -/
def injectFromGate (graph : TaskGraph) (gateId : NodeId) (actor : String)
    (newNodes : List NodeSpec) : Outcome (List NodeId) :=
  commit graph do
    let gate ← okOr (graph.get gateId) (.unknownNode gateId)
    ensure (gate.owner = some actor) (.notOwner gateId actor)
    ensure (gate.isGate = true)
      (.gateMisuse s!"node '{gateId}' is not a gate; use expand_node to decompose work")
    ensure (gate.status = .running) (.invalidState gateId gate.status)
    ensure (newNodes ≠ []) (.gateMisuse "inject_from_gate requires at least one new node")
    let parent := gate.parent
    let newIds ← newNodeIds graph "inject_from_gate" [] newNodes
    checkDependencies graph newIds (newIds.zip newNodes)
    let staged := pushSpecs graph newNodes parent .gap
    let staged ← okOr (staged.getMut gateId (requeueGate newIds)) (.unknownNode gateId)
    let staged :=
      match parent with
      | some parentId => (staged.getMut parentId (joinGaps newIds)).getD staged
      | none => staged
    ensure (staged.cycleNodes = []) (.wouldCreateCycle staged.cycleNodes)
    return (newIds, staged)

/-- Re-queue a failed node so that it can be dispatched again. -/
def requeueFailed (graph : TaskGraph) (nodeId : NodeId) : Outcome Unit :=
  commit graph do
    let node ← okOr (graph.get nodeId) (.unknownNode nodeId)
    ensure (node.status = .failed) (.invalidState nodeId node.status)
    let graph ← okOr (graph.getMut nodeId fun node =>
      { node with status := .queued, owner := none }) (.unknownNode nodeId)
    return ((), graph)

end Jcode.Dag
