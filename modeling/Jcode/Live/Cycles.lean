import Jcode.Live.Agree

/-!
# Live — Cycles

There are two walks that look for cycles, one over the items of a stored plan and one over the nodes
of a graph.  They count the dependencies differently, and find the same: the ids from which a chain
of dependencies inside the plan never ends.

* `mem_cycleItemIds_iff`, `mem_cycleNodes_iff`: what each of them lists.
* `cycle_detectors_agree`: they list the same, and nothing exactly when no chain comes back.
-/

namespace Jcode.Live
open Rust Jcode.Dag Jcode.Bridge

variable {items : List PlanItem} {order : IterOrder} {i d : String}

/-- The item `i` depends on the item `d`. -/
def DependsIn (items : List PlanItem) (i d : String) : Prop :=
  ∃ item ∈ items, item.id = i ∧ d ∈ item.blockedBy ∧ d ∈ knownIds items

/-- A chain of dependencies from `i` never ends. -/
def Endless (items : List PlanItem) (i : String) : Prop :=
  ∃ f : ℕ → String, f 0 = i ∧ ∀ n, DependsIn items (f n) (f (n + 1))

theorem endless_iff : Endless items i ↔ ¬ Acc (fun d i => DependsIn items i d) i :=
  (not_acc_iff_exists_descending_chain (r := fun d i => DependsIn items i d)).symm

theorem Endless.known (h : Endless items i) : i ∈ knownIds items := by
  obtain ⟨f, rfl, hf⟩ := h
  obtain ⟨item, hitem, hid, -⟩ := hf 0
  exact mem_knownIds.mpr ⟨item, hitem, hid⟩

/-! ### The items -/

theorem waits_items : Kahn.Waits (knownIds items) (dependents items) = DependsIn items := by
  funext i d
  rw [Kahn.Waits, mem_dependents, DependsIn, eq_iff_iff]
  exact ⟨fun ⟨hknown, item, hitem, hd, hid⟩ => ⟨item, hitem, hid, hd, hknown⟩,
    fun ⟨item, hitem, hid, hd, hknown⟩ => ⟨hknown, item, hitem, hd, hid⟩⟩

theorem dependents_known (d : String) : ∀ i ∈ dependents items d, i ∈ knownIds items := by
  intro i hi
  obtain ⟨item, hitem, -, rfl⟩ := mem_dependents.mp hi
  exact mem_knownIds.mpr ⟨item, hitem, rfl⟩

/-- **`cycle_item_ids` lists the endless items.** -/
theorem mem_cycleItemIds_iff : i ∈ cycleItemIds order items ↔ Endless items i := by
  rw [cycleItemIds, List.mem_insertionSort, List.mem_filter, List.mem_dedup, ← List.mem_toFinset,
    ← knownIds, Bool.and_eq_true, decide_eq_true_eq, decide_eq_true_eq]
  constructor
  · rintro ⟨hknown, -, hnot⟩
    rw [Kahn.visited_iff_acc dependents_known indegree_eq_degree (fun _ => mem_cycleStart) le_rfl
      hknown, waits_items] at hnot
    exact endless_iff.mpr hnot
  · intro h
    have hnot := endless_iff.mp h
    rw [← waits_items, ← Kahn.visited_iff_acc dependents_known indegree_eq_degree
      (fun _ => mem_cycleStart) le_rfl h.known] at hnot
    exact ⟨h.known, Kahn.indegree_pos_of_unvisited dependents_known indegree_eq_degree
      (fun _ => mem_cycleStart) le_rfl h.known hnot, hnot⟩

/-! ### The nodes -/

section Graph
variable {json : SerdeJson} {plan : VersionedPlan}

theorem toTaskGraph_idSet : (toTaskGraph json plan).ids.toFinset = knownIds plan.items := by
  rw [toTaskGraph_ids]
  rfl

theorem waits_nodes : Kahn.Waits (toTaskGraph json plan).ids.toFinset
    (toTaskGraph json plan).dependents = DependsIn plan.items := by
  funext i d
  rw [Kahn.Waits, TaskGraph.mem_dependents, toTaskGraph_idSet, DependsIn, eq_iff_iff,
    toTaskGraph_eq]
  constructor
  · rintro ⟨hknown, node, hnode, hd, hid⟩
    obtain ⟨item, hitem, rfl⟩ := List.mem_map.mp hnode
    exact ⟨item, hitem, hid, hd, hknown⟩
  · rintro ⟨item, hitem, hid, hd, hknown⟩
    exact ⟨hknown, _, List.mem_map_of_mem hitem, hd, hid⟩

/-- **`cycle_nodes` of the lifted graph lists the endless items.** -/
theorem mem_cycleNodes_iff : i ∈ (toTaskGraph json plan).cycleNodes ↔ Endless plan.items i := by
  have hsub : ∀ d, ∀ i ∈ (toTaskGraph json plan).dependents d,
      i ∈ (toTaskGraph json plan).ids.toFinset := fun d i hi => by
    obtain ⟨node, hnode, -, rfl⟩ := TaskGraph.mem_dependents.mp hi
    exact List.mem_toFinset.mpr (TaskGraph.id_mem_ids hnode)
  have hacc : ∀ hi : i ∈ (toTaskGraph json plan).ids.toFinset, _ := fun hi =>
    Kahn.visited_iff_acc hsub TaskGraph.indegree_eq_degree (fun _ => TaskGraph.mem_cycleStart)
      le_rfl hi
  rw [waits_nodes] at hacc
  rw [TaskGraph.cycleNodes, List.mem_insertionSort, List.mem_filter, ← List.mem_toFinset,
    Bool.not_eq_true', ← Bool.not_eq_true, List.contains_iff_mem]
  constructor
  · rintro ⟨hknown, hnot⟩
    exact endless_iff.mpr ((not_congr (hacc hknown)).mp hnot)
  · intro h
    have hknown : i ∈ (toTaskGraph json plan).ids.toFinset := toTaskGraph_idSet ▸ h.known
    exact ⟨hknown, (not_congr (hacc hknown)).mpr (endless_iff.mp h)⟩

/-! ### Both -/

/-- Nothing is endless exactly when no chain comes back. -/
theorem not_endless_iff : (∀ i, ¬ Endless items i) ↔
    ∀ i, ¬ Relation.TransGen (DependsIn items) i i := by
  have h := @Kahn.acc_all_iff_acyclic _ (knownIds items) (dependents items)
  rw [waits_items] at h
  rw [← h]
  exact forall_congr' fun i => by rw [endless_iff, not_not]

/-- **Two walks, one answer.** -/
theorem cycle_detectors_agree (order : IterOrder) (json : SerdeJson) (plan : VersionedPlan)
    (hids : plan.ids.Nodup) :
    (∀ i, i ∈ cycleItemIds order plan.items ↔ Endless plan.items i) ∧
    (∀ i, i ∈ (toTaskGraph json plan).cycleNodes ↔ Endless plan.items i) ∧
    cycleItemIds order plan.items = (toTaskGraph json plan).cycleNodes ∧
    (cycleItemIds order plan.items = [] ↔
      ∀ i, ¬ Relation.TransGen (DependsIn plan.items) i i) ∧
    ((toTaskGraph json plan).cycleNodes = [] ↔
      ∀ i, ¬ Relation.TransGen (DependsIn plan.items) i i) := by
  have hsame : cycleItemIds order plan.items = (toTaskGraph json plan).cycleNodes := by
    have hitems : (cycleItemIds order plan.items).Nodup := by
      rw [cycleItemIds, (List.perm_insertionSort _ _).nodup_iff]
      exact (List.nodup_dedup _).filter _
    have hnodes : (toTaskGraph json plan).cycleNodes.Nodup := by
      rw [TaskGraph.cycleNodes, (List.perm_insertionSort _ _).nodup_iff, toTaskGraph_ids]
      exact hids.filter _
    refine List.Perm.eq_of_pairwise' (r := (· ≤ ·)) (List.pairwise_insertionSort _ _)
      (List.pairwise_insertionSort _ _) ((List.perm_ext_iff_of_nodup hitems hnodes).mpr fun i => ?_)
    rw [mem_cycleItemIds_iff, mem_cycleNodes_iff]
  have hnil : cycleItemIds order plan.items = [] ↔
      ∀ i, ¬ Relation.TransGen (DependsIn plan.items) i i := by
    rw [← not_endless_iff, List.eq_nil_iff_forall_not_mem]
    exact forall_congr' fun i => not_congr mem_cycleItemIds_iff
  exact ⟨fun _ => mem_cycleItemIds_iff, fun _ => mem_cycleNodes_iff, hsame, hnil, hsame ▸ hnil⟩

end Graph

/-- An item that waits for itself, and one that waits for it and for a missing one. -/
def selfWaiting : VersionedPlan :=
  { VersionedPlan.new with
    items := [{ content := "", status := "queued", priority := "medium", id := "a",
                blockedBy := ["a"] },
              { content := "", status := "queued", priority := "medium", id := "b",
                blockedBy := ["a", "a", "z"] }] }

theorem cycle_detectors_agree_selfWaiting : selfWaiting.ids.Nodup ∧
    (Endless selfWaiting.items "b" ↔ "b" ∈ cycleItemIds .insertion selfWaiting.items) ∧
    cycleItemIds .insertion selfWaiting.items =
      (toTaskGraph ⟨fun _ => .error "", fun _ => .error ""⟩ selfWaiting).cycleNodes := by
  have hids : selfWaiting.ids.Nodup := by decide
  have h := cycle_detectors_agree .insertion ⟨fun _ => .error "", fun _ => .error ""⟩ selfWaiting
    hids
  exact ⟨hids, (h.1 "b").symm, h.2.2.1⟩

end Jcode.Live
