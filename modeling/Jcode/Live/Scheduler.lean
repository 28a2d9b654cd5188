import Jcode.Bridge.Plan

/-!
# Live — the scheduler of the stored plan

`jcode-plan/src/lib.rs`, and the hydration of `jcode-plan/src/bridge.rs`.  The live path schedules
the plan itself, over the words of its items: an item is runnable when its status is a runnable
word, all its dependencies are completed items, and no cycle holds it.
-/

namespace Jcode.Live
open Rust Jcode.Dag Jcode.Bridge

/-! ### Statuses -/

def isCompletedStatus (status : String) : Bool := status ∈ ["completed", "done"]

def isTerminalStatus (status : String) : Bool :=
  status ∈ ["completed", "done", "failed", "stopped", "crashed"]

def isActiveStatus (status : String) : Bool := status ∈ ["running", "running_stale"]

/-- Terminal without completing. -/
def isFailedStatus (status : String) : Bool := isTerminalStatus status && !isCompletedStatus status

def isRunnableStatus (status : String) : Bool := status ∈ ["queued", "ready", "pending", "todo"]

/-! ### Dependencies -/

def knownIds (items : List PlanItem) : Finset String := (items.map (·.id)).toFinset

def completedItemIds (items : List PlanItem) : Finset String :=
  ((items.filter fun item => isCompletedStatus item.status).map (·.id)).toFinset

def unresolvedDependencies (item : PlanItem) (knownIds completedIds : Finset String) :
    List String :=
  item.blockedBy.filter fun dep => dep ∈ knownIds && dep ∉ completedIds

def missingDependencies (item : PlanItem) (knownIds : Finset String) : List String :=
  item.blockedBy.filter fun dep => dep ∉ knownIds

/-! ### Cycles -/

/-- The in-degrees of `cycleItemIds`: each entry of `blockedBy` counts, repeated ones too. -/
def indegree (items : List PlanItem) (id : String) : ℕ :=
  ((items.filter fun item => item.id == id).map fun item =>
    (item.blockedBy.filter fun dep => dep ∈ knownIds items).length).sum

/-- The items that wait for `dep`, once for each entry. -/
def dependents (items : List PlanItem) (dep : String) : List String :=
  items.flatMap fun item => (item.blockedBy.filter (· == dep)).map fun _ => item.id

section Order
variable (order : IterOrder)

/-- The stack the walk starts from, its top first. -/
def cycleStart (items : List PlanItem) : List String :=
  ((order.order (items.map (·.id)).dedup).filter fun id => indegree items id == 0).reverse

/-- The ids on a cycle, or downstream of one. -/
def cycleItemIds (items : List PlanItem) : List String :=
  let start := cycleStart order items
  let final := Kahn.loop (dependents items)
    (Kahn.edgeFuel (knownIds items) (dependents items) start)
    { indegree := indegree items, queue := start, visited := [] }
  ((items.map (·.id)).dedup.filter fun id =>
    0 < final.indegree id && id ∉ final.visited).insertionSort (· ≤ ·)

/-! ### The summary -/

structure PlanGraphSummary where
  readyIds : List String
  blockedIds : List String
  activeIds : List String
  completedIds : List String
  failedIds : List String
  terminalIds : List String
  unresolvedDependencyIds : List String
  cycleIds : List String
  deriving DecidableEq, Repr

/-- A `BTreeSet`, as the list of its elements. -/
def sortedSet (ids : List String) : List String := ids.dedup.insertionSort (· ≤ ·)

def summarizePlanGraph (items : List PlanItem) : PlanGraphSummary :=
  let known := knownIds items
  let completed := completedItemIds items
  let cycleIds := cycleItemIds order items
  let missing item := missingDependencies item known
  let hasDependencyBlocker item :=
    !(unresolvedDependencies item known completed).isEmpty || item.id ∈ cycleIds
  let ready item :=
    isRunnableStatus item.status && (missing item).isEmpty && !hasDependencyBlocker item
  let blocked item :=
    !ready item && !isTerminalStatus item.status && !isActiveStatus item.status &&
      (!(missing item).isEmpty || hasDependencyBlocker item || item.status == "blocked")
  let idsOf (p : PlanItem → Bool) := (items.filter p).map (·.id)
  { readyIds := (idsOf ready).insertionSort (· ≤ ·)
    blockedIds := (idsOf blocked).insertionSort (· ≤ ·)
    activeIds := (idsOf fun item => isActiveStatus item.status).insertionSort (· ≤ ·)
    completedIds := sortedSet (idsOf fun item => isCompletedStatus item.status)
    failedIds := sortedSet (idsOf fun item => isFailedStatus item.status)
    terminalIds := sortedSet (idsOf fun item => isTerminalStatus item.status)
    unresolvedDependencyIds := sortedSet (items.flatMap missing)
    cycleIds := cycleIds }

/-- Live scheduling order: priority, then id. -/
def runnableBefore (left right : PlanItem) : Prop :=
  priorityRank left.priority < priorityRank right.priority ∨
    priorityRank left.priority = priorityRank right.priority ∧ left.id ≤ right.id

instance : DecidableRel runnableBefore := fun a b => by unfold runnableBefore; infer_instance

/-- The runnable items, in scheduling order. -/
def nextRunnableItemIds (items : List PlanItem) (limit : Option ℕ) : List String :=
  let readyIds := (summarizePlanGraph order items).readyIds
  let ids := ((items.filter fun item => item.id ∈ readyIds).insertionSort runnableBefore).map (·.id)
  match limit with
  | some limit => ids.take limit
  | none => ids

/-- Why a task named explicitly cannot be dispatched, if it cannot. -/
def explicitTaskBlockedReason (plan : VersionedPlan) (taskId : String) : Option String :=
  let known := knownIds plan.items
  let completed := completedItemIds plan.items
  match plan.items.find? fun item => item.id == taskId with
  | none => none
  | some item =>
      let missing := missingDependencies item known
      let unresolved := unresolvedDependencies item known completed
      if !missing.isEmpty then
        some (s!"Task '{item.id}' has missing dependencies: " ++ join ", " missing)
      else if !unresolved.isEmpty then
        some (s!"Task '{item.id}' is still blocked by: " ++ join ", " unresolved)
      else if item.id ∈ cycleItemIds order plan.items then
        some s!"Task '{item.id}' is part of a dependency cycle and is not runnable"
      else none

end Order

/-! ### Hydration -/

section Serde
variable (json : SerdeJson)

/-- The section of one entry of `blockedBy`; none unless it is completed and left an artifact. -/
def upstreamSection (plan : VersionedPlan) (depId : String) : Option String := do
  let dep ← plan.items.find? fun item => item.id == depId
  guard (isCompletedStatus dep.status)
  let nodeMeta ← plan.nodeMeta.get depId
  let text ← nodeMeta.artifactJson
  let artifact ← (json.fromStr text).toOption
  return artifact.renderSection depId (nodeMeta.kind.getD "task")

/-- The artifacts of the completed dependencies of a task. -/
def upstreamContext (plan : VersionedPlan) (taskId : String) : Option String :=
  match plan.items.find? fun item => item.id == taskId with
  | none => none
  | some item =>
      let sections := item.blockedBy.filterMap (upstreamSection json plan)
      if item.blockedBy.isEmpty || sections.isEmpty then none
      else some ("# Inputs from completed dependencies\n\n" ++ join "\n" sections)

/-- The assignment text of a task, with its upstream context. -/
def hydrateAssignment (plan : VersionedPlan) (taskId content : String) : String :=
  match upstreamContext json plan taskId with
  | some context => content ++ "\n\n" ++ context
  | none => content

end Serde

end Jcode.Live
