import Jcode.Live.Cycles

/-!
# Live — what holds an item up

`summarize_plan_graph` and `next_runnable_item_ids` of `jcode-plan/src/lib.rs`.  An item that is not
completed waits, over the dependencies that are not completed, for an item that waits for nothing:
the scheduler offers it, a worker has it, or it is stuck for a reason of its own.

* `runnable_depsCompleted`: the scheduler offers an item only after its dependencies.
* `exists_cause`: every item that is not completed has a cause.
-/

namespace Jcode.Live
open Rust Jcode.Dag Jcode.Bridge

variable {items : List PlanItem} {order : IterOrder} {item : PlanItem}

/-- `item` waits for `dep`: it depends on its id, and no item of that id is completed. -/
def WaitsOn (items : List PlanItem) (item dep : PlanItem) : Prop :=
  dep ∈ items ∧ dep.id ∈ unresolvedDependencies item (knownIds items) (completedItemIds items)

/-- Every dependency is a completed item. -/
def DepsCompleted (items : List PlanItem) (item : PlanItem) : Prop :=
  ∀ d ∈ item.blockedBy, ∃ dep ∈ items, dep.id = d ∧ isCompletedStatus dep.status = true

/-- Why an item that waits for no other is not completed. -/
inductive Cause (order : IterOrder) (items : List PlanItem) (item : PlanItem) : Prop where
  | runnable (h : item.id ∈ nextRunnableItemIds order items none)
  | active (h : isActiveStatus item.status = true)
  | failed (h : isFailedStatus item.status = true)
  | missing (h : missingDependencies item (knownIds items) ≠ [])
  /-- Its dependencies lead to a cycle. -/
  | endless (h : Endless items item.id)
  /-- The scheduler does not know its status. -/
  | unscheduled (h : isRunnableStatus item.status = false ∧ isActiveStatus item.status = false ∧
      isTerminalStatus item.status = false)

theorem mem_completedItemIds {id : String} : id ∈ completedItemIds items ↔
    ∃ item ∈ items, item.id = id ∧ isCompletedStatus item.status = true := by
  simp only [completedItemIds, List.mem_toFinset, List.mem_map, List.mem_filter]
  constructor
  · rintro ⟨item, ⟨hitem, hdone⟩, hid⟩
    exact ⟨item, hitem, hid, hdone⟩
  · rintro ⟨item, hitem, hid, hdone⟩
    exact ⟨item, ⟨hitem, hdone⟩, hid⟩

theorem mem_unresolvedDependencies {d : String} :
    d ∈ unresolvedDependencies item (knownIds items) (completedItemIds items) ↔
      d ∈ item.blockedBy ∧ d ∈ knownIds items ∧ d ∉ completedItemIds items := by
  simp [unresolvedDependencies]

theorem missingDependencies_eq_nil_iff :
    missingDependencies item (knownIds items) = [] ↔ ∀ d ∈ item.blockedBy, d ∈ knownIds items := by
  simp [missingDependencies, List.filter_eq_nil_iff]

theorem unresolvedDependencies_eq_nil_iff :
    unresolvedDependencies item (knownIds items) (completedItemIds items) = [] ↔
      ∀ d ∈ item.blockedBy, d ∈ knownIds items → d ∈ completedItemIds items := by
  simp [unresolvedDependencies, List.filter_eq_nil_iff]

/-- The ids of the items that are ready. -/
theorem mem_readyIds {id : String} : id ∈ (summarizePlanGraph order items).readyIds ↔
    ∃ item ∈ items, item.id = id ∧ isRunnableStatus item.status = true ∧
      DepsCompleted items item ∧ ¬ Endless items id := by
  have hdeps : ∀ item : PlanItem, missingDependencies item (knownIds items) = [] ∧
      unresolvedDependencies item (knownIds items) (completedItemIds items) = [] ↔
        DepsCompleted items item := by
    intro item
    rw [missingDependencies_eq_nil_iff, unresolvedDependencies_eq_nil_iff]
    constructor
    · rintro ⟨hknown, hdone⟩ d hd
      exact mem_completedItemIds.mp (hdone d hd (hknown d hd))
    · intro h
      refine ⟨fun d hd => ?_, fun d hd _ => mem_completedItemIds.mpr (h d hd)⟩
      obtain ⟨dep, hdep, hid, -⟩ := h d hd
      exact mem_knownIds.mpr ⟨dep, hdep, hid⟩
  simp only [summarizePlanGraph, List.mem_insertionSort, List.mem_map, List.mem_filter,
    Bool.and_eq_true, Bool.not_eq_true', Bool.or_eq_false_iff, Bool.not_eq_false',
    List.isEmpty_iff, decide_eq_false_iff_not, mem_cycleItemIds_iff]
  constructor
  · rintro ⟨item, ⟨hitem, ⟨hrun, hmissing⟩, hun, hcycle⟩, rfl⟩
    exact ⟨item, hitem, rfl, hrun, (hdeps item).mp ⟨hmissing, hun⟩, hcycle⟩
  · rintro ⟨item, hitem, rfl, hrun, hdone, hcycle⟩
    obtain ⟨hmissing, hun⟩ := (hdeps item).mpr hdone
    exact ⟨item, ⟨hitem, ⟨hrun, hmissing⟩, hun, hcycle⟩, rfl⟩

theorem mem_nextRunnableItemIds {id : String} : id ∈ nextRunnableItemIds order items none ↔
    id ∈ (summarizePlanGraph order items).readyIds := by
  simp only [nextRunnableItemIds, List.mem_map, List.mem_insertionSort, List.mem_filter,
    decide_eq_true_eq]
  constructor
  · rintro ⟨item, ⟨-, hready⟩, rfl⟩
    exact hready
  · intro hready
    obtain ⟨item, hitem, rfl, -⟩ := mem_readyIds.mp hready
    exact ⟨item, ⟨hitem, hready⟩, rfl⟩

/-- **What is offered can be started.** -/
theorem runnable_depsCompleted {id : String} (h : id ∈ nextRunnableItemIds order items none) :
    ∃ item ∈ items, item.id = id ∧ isRunnableStatus item.status = true ∧
      DepsCompleted items item := by
  obtain ⟨item, hitem, hid, hrun, hdone, -⟩ := mem_readyIds.mp (mem_nextRunnableItemIds.mp h)
  exact ⟨item, hitem, hid, hrun, hdone⟩

/-- An item that waits for nothing and is not completed. -/
theorem cause_of_depsCompleted (order : IterOrder) (hitem : item ∈ items)
    (hopen : isCompletedStatus item.status = false) (hdone : DepsCompleted items item)
    (hends : ¬ Endless items item.id) : Cause order items item := by
  by_cases hrun : isRunnableStatus item.status = true
  · exact .runnable (mem_nextRunnableItemIds.mpr
      (mem_readyIds.mpr ⟨item, hitem, rfl, hrun, hdone, hends⟩))
  by_cases hactive : isActiveStatus item.status = true
  · exact .active hactive
  by_cases hterminal : isTerminalStatus item.status = true
  · exact .failed (by rw [isFailedStatus, hterminal, hopen]; rfl)
  · exact .unscheduled ⟨Bool.eq_false_of_not_eq_true hrun, Bool.eq_false_of_not_eq_true hactive,
      Bool.eq_false_of_not_eq_true hterminal⟩

/-- **Every open item has a cause.** -/
theorem exists_cause (order : IterOrder) (hitem : item ∈ items)
    (hopen : isCompletedStatus item.status = false) :
    ∃ cause ∈ items, Relation.ReflTransGen (WaitsOn items) item cause ∧
      isCompletedStatus cause.status = false ∧ Cause order items cause := by
  by_cases hends : Endless items item.id
  · exact ⟨item, hitem, .refl, hopen, .endless hends⟩
  · -- by induction along the dependencies: the chain of an item that is not endless ends
    have hacc := not_not.mp (endless_iff.not.mp hends)
    generalize hid : item.id = id at hacc hends
    induction hacc generalizing item with
    | intro id hacc ih =>
        subst hid
        by_cases hdone : DepsCompleted items item
        · exact ⟨item, hitem, .refl, hopen, cause_of_depsCompleted order hitem hopen hdone hends⟩
        · obtain ⟨d, hd, hopenDep⟩ : ∃ d ∈ item.blockedBy, d ∉ completedItemIds items := by
            simp only [DepsCompleted, not_forall] at hdone
            obtain ⟨d, hd, hnone⟩ := hdone
            exact ⟨d, hd, fun hmem => hnone (mem_completedItemIds.mp hmem)⟩
          by_cases hknown : d ∈ knownIds items
          · obtain ⟨dep, hdep, rfl⟩ := mem_knownIds.mp hknown
            have hdepends : DependsIn items item.id dep.id := ⟨item, hitem, rfl, hd, hknown⟩
            have hopen' : isCompletedStatus dep.status = false :=
              Bool.eq_false_of_not_eq_true fun h =>
                hopenDep (mem_completedItemIds.mpr ⟨dep, hdep, rfl, h⟩)
            have hends' : ¬ Endless items dep.id := fun h => endless_iff.mp h (hacc dep.id hdepends)
            obtain ⟨cause, hcause, hpath, hrest⟩ := ih dep.id hdepends hdep hopen' rfl hends'
            refine ⟨cause, hcause, .head ⟨hdep, ?_⟩ hpath, hrest⟩
            exact mem_unresolvedDependencies.mpr ⟨hd, hknown, hopenDep⟩
          · refine ⟨item, hitem, .refl, hopen, .missing fun hnil => hknown ?_⟩
            exact missingDependencies_eq_nil_iff.mp hnil d hd

end Jcode.Live
