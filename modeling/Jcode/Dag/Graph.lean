import Jcode.Dag.Ops

/-!
# Dag — lookups, writes and edges of a graph

The facts about `get`, `get_mut`, `push`, `extendDeps` and `cycleNodes` that the proofs about the
operations use.  In a graph with distinct ids a lookup is membership and a write is a map over
the nodes (`modify`).  `cycleNodes` is empty exactly when the edges inside the graph have a
ranking (`cycleNodes_eq_nil_iff`), and reads nothing of a node but its id and its dependencies.
-/

namespace Jcode.Dag

namespace TaskGraph
variable {g : TaskGraph}

/-! ### Lookups and writes -/

theorem mem_ids {id : NodeId} : id ∈ g.ids ↔ ∃ n ∈ g.nodes, n.id = id := List.mem_map

theorem id_mem_ids {n : TaskNode} (h : n ∈ g.nodes) : n.id ∈ g.ids := mem_ids.mpr ⟨n, h, rfl⟩

@[simp] theorem contains_iff {id : NodeId} : g.contains id = true ↔ id ∈ g.ids := by
  simp [contains, mem_ids]

theorem mem_of_get {id : NodeId} {n : TaskNode} (h : g.get id = some n) :
    n ∈ g.nodes ∧ n.id = id :=
  ⟨List.mem_of_find?_eq_some h, by simpa using List.find?_some h⟩

theorem mem_ids_of_get {id : NodeId} {n : TaskNode} (h : g.get id = some n) : id ∈ g.ids :=
  mem_ids.mpr ⟨n, mem_of_get h⟩

theorem get_eq_some_iff (h : g.ids.Nodup) {id : NodeId} {n : TaskNode} :
    g.get id = some n ↔ n ∈ g.nodes ∧ n.id = id :=
  Keyed.find?_key_eq_some_iff h

theorem get_self (h : g.ids.Nodup) {n : TaskNode} (hn : n ∈ g.nodes) : g.get n.id = some n :=
  (get_eq_some_iff h).mpr ⟨hn, rfl⟩

theorem get_eq_none_iff {id : NodeId} : g.get id = none ↔ id ∉ g.ids :=
  Keyed.find?_key_eq_none_iff

theorem eq_of_id_eq (h : g.ids.Nodup) {n m : TaskNode} (hn : n ∈ g.nodes) (hm : m ∈ g.nodes)
    (e : n.id = m.id) : n = m :=
  Keyed.eq_of_key_eq h hn hm e

/-- The graph with the node `id` replaced by its image under `f`. -/
def modify (g : TaskGraph) (id : NodeId) (f : TaskNode → TaskNode) : TaskGraph :=
  { g with nodes := g.nodes.map fun n => if n.id = id then f n else n }

theorem getMut_eq_some_iff (h : g.ids.Nodup) {id : NodeId} {f : TaskNode → TaskNode}
    {g' : TaskGraph} : g.getMut id f = some g' ↔ id ∈ g.ids ∧ g' = g.modify id f := by
  unfold getMut modify
  rw [Keyed.updateFirst_eq_map h]
  cases e : g.get id with
  | none => simp [get_eq_none_iff.mp e]
  | some n =>
      simp [mem_ids_of_get e, eq_comm]

theorem getMut_of_mem (h : g.ids.Nodup) {id : NodeId} (hid : id ∈ g.ids)
    (f : TaskNode → TaskNode) : g.getMut id f = some (g.modify id f) :=
  (getMut_eq_some_iff h).mpr ⟨hid, rfl⟩

theorem modify_of_notMem {id : NodeId} (hid : id ∉ g.ids) (f : TaskNode → TaskNode) :
    g.modify id f = g := by
  simp only [modify]
  congr 1
  refine (List.map_congr_left fun n hn => if_neg fun e => hid ?_).trans (List.map_id _)
  exact e ▸ id_mem_ids hn

/-- A write that is skipped when the node is missing. -/
theorem getMut_getD (h : g.ids.Nodup) (id : NodeId) (f : TaskNode → TaskNode) :
    (g.getMut id f).getD g = g.modify id f := by
  by_cases hid : id ∈ g.ids
  · rw [getMut_of_mem h hid, Option.getD_some]
  · have hnone : g.getMut id f = none := by rw [getMut, get_eq_none_iff.mpr hid]
    rw [hnone, Option.getD_none, modify_of_notMem hid]

@[simp] theorem push_mode (n : TaskNode) : (g.push n).mode = g.mode := rfl

@[simp] theorem push_nodes (n : TaskNode) : (g.push n).nodes = g.nodes ++ [n] := rfl

@[simp] theorem modify_mode (id : NodeId) (f : TaskNode → TaskNode) :
    (g.modify id f).mode = g.mode := rfl

theorem map_ids {f : TaskNode → TaskNode} {l : List TaskNode} (hf : ∀ n ∈ l, (f n).id = n.id) :
    (l.map f).map (·.id) = l.map (·.id) := by
  rw [List.map_map]; exact List.map_congr_left hf

theorem modify_ids {id : NodeId} {f : TaskNode → TaskNode} (hf : ∀ n, (f n).id = n.id) :
    (g.modify id f).ids = g.ids :=
  map_ids fun n _ => by split <;> simp [hf]

/-! ### Cycle detection -/

/-- What `cycleNodes` reads of a graph: its ids with their dependencies. -/
def edges (g : TaskGraph) : List (NodeId × List NodeId) := g.nodes.map fun n => (n.id, n.dependsOn)

theorem ids_eq_edges : g.ids = g.edges.map Prod.fst := by
  simp [ids, edges, Function.comp_def]

theorem indegree_eq_edges (id : NodeId) : g.indegree id =
    ((g.edges.filter fun e => e.1 == id).map fun e =>
      (e.2.filter fun dep => g.ids.contains dep).dedup.length).sum := by
  simp [indegree, edges, List.filter_map, Function.comp_def]

theorem dependents_eq_edges (id : NodeId) : g.dependents id =
    (g.edges.filter fun e => e.2.contains id).map Prod.fst := by
  simp [dependents, edges, List.filter_map, Function.comp_def]

/-- Graphs with the same edges have the same cycles. -/
theorem cycleNodes_congr {g' : TaskGraph} (h : g'.edges = g.edges) :
    g'.cycleNodes = g.cycleNodes := by
  have hids : g'.ids = g.ids := by rw [ids_eq_edges, ids_eq_edges, h]
  have hdeg : g'.indegree = g.indegree := funext fun id => by
    rw [indegree_eq_edges, indegree_eq_edges, h, hids]
  have hdep : g'.dependents = g.dependents := funext fun id => by
    rw [dependents_eq_edges, dependents_eq_edges, h]
  simp only [cycleNodes, cycleStart, hids, hdeg, hdep]

/-- Counted from the side of a dependent or from the side of its dependencies, the edges are the
same. -/
theorem sum_count_dependents (S : Finset NodeId) (id : NodeId) (l : List TaskNode) :
    ∑ d ∈ S, ((l.filter fun n => n.dependsOn.contains d).map (·.id)).count id =
      ((l.filter fun n => n.id == id).map fun n =>
        (n.dependsOn.filter (· ∈ S)).dedup.length).sum := by
  induction l with
  | nil => simp
  | cons n l ih =>
      have hcons : ∀ d, (((n :: l).filter fun m => m.dependsOn.contains d).map (·.id)).count id =
          ((l.filter fun m => m.dependsOn.contains d).map (·.id)).count id +
            if d ∈ n.dependsOn ∧ n.id = id then 1 else 0 := fun d => by
        by_cases hd : d ∈ n.dependsOn <;> by_cases hi : n.id = id <;> simp [hd, hi]
      rw [Finset.sum_congr rfl fun d _ => hcons d, Finset.sum_add_distrib, ih]
      by_cases hi : n.id = id
      · have hcard : ∑ d ∈ S, (if d ∈ n.dependsOn ∧ n.id = id then 1 else 0) =
            (n.dependsOn.filter (· ∈ S)).dedup.length := by
          rw [← Finset.card_filter, ← List.card_toFinset]
          congr 1; ext d; simp [hi, and_comm]
        rw [hcard, List.filter_cons_of_pos (by simpa using hi), List.map_cons, List.sum_cons,
          Nat.add_comm]
      · simp [hi]

theorem indegree_eq_degree (id : NodeId) :
    g.indegree id = Kahn.degree g.ids.toFinset g.dependents id := by
  have h := sum_count_dependents g.ids.toFinset id g.nodes
  simp only [List.mem_toFinset, ← List.contains_eq_mem] at h
  exact h.symm

theorem mem_dependents {id d : NodeId} :
    id ∈ g.dependents d ↔ ∃ n ∈ g.nodes, d ∈ n.dependsOn ∧ n.id = id := by
  simp [dependents, and_assoc]

theorem mem_cycleStart {id : NodeId} :
    id ∈ g.cycleStart ↔ id ∈ g.ids.toFinset ∧ g.indegree id = 0 := by
  simp [cycleStart, List.mem_insertionSort]

/-- **`cycleNodes` decides acyclicity**: it is empty exactly when some ranking of the ids decreases
along every edge inside the graph. -/
theorem cycleNodes_eq_nil_iff : g.cycleNodes = [] ↔
    ∃ rank : NodeId → ℕ, ∀ n ∈ g.nodes, ∀ d ∈ n.dependsOn, d ∈ g.ids → rank d < rank n.id := by
  have hnil : g.cycleNodes = [] ↔ ∀ i ∈ g.ids.toFinset, i ∈ (Kahn.loop g.dependents
      (Kahn.edgeFuel g.ids.toFinset g.dependents g.cycleStart)
      ⟨g.indegree, g.cycleStart, []⟩).visited := by
    rw [cycleNodes, ← List.length_eq_zero_iff, List.length_insertionSort,
      List.length_eq_zero_iff, List.filter_eq_nil_iff]
    simp
  rw [hnil, Kahn.visits_all_iff (fun d i hi => ?_) indegree_eq_degree (fun _ => mem_cycleStart)
    le_rfl]
  · constructor
    · rintro ⟨rank, h⟩
      exact ⟨rank, fun n hn d hd hid =>
        h n.id d ⟨List.mem_toFinset.mpr hid, mem_dependents.mpr ⟨n, hn, hd, rfl⟩⟩⟩
    · rintro ⟨rank, h⟩
      refine ⟨rank, fun i d ⟨hid, hi⟩ => ?_⟩
      obtain ⟨n, hn, hd, rfl⟩ := mem_dependents.mp hi
      exact h n hn d hd (List.mem_toFinset.mp hid)
  · obtain ⟨n, hn, -, rfl⟩ := mem_dependents.mp hi
    exact List.mem_toFinset.mpr (id_mem_ids hn)

end TaskGraph

/-! ### Extending dependency lists -/

theorem extendDeps_cons (deps : List NodeId) (id : NodeId) (ids : List NodeId) :
    extendDeps deps (id :: ids) = extendDeps (if id ∈ deps then deps else deps ++ [id]) ids := by
  simp [extendDeps]

theorem mem_extendDeps {deps ids : List NodeId} {d : NodeId} :
    d ∈ extendDeps deps ids ↔ d ∈ deps ∨ d ∈ ids := by
  induction ids generalizing deps with
  | nil => simp [extendDeps]
  | cons id ids ih =>
      rw [extendDeps_cons, ih]
      split
      · rename_i h
        simp only [List.mem_cons]
        exact ⟨fun h => h.imp_right .inr, fun h' => h'.elim .inl fun h' =>
          h'.elim (fun e => .inl (e ▸ h)) .inr⟩
      · simp [or_assoc]

theorem nodup_extendDeps {deps : List NodeId} (ids : List NodeId) (h : deps.Nodup) :
    (extendDeps deps ids).Nodup := by
  induction ids generalizing deps with
  | nil => exact h
  | cons id ids ih =>
      rw [extendDeps_cons]
      split
      · exact ih h
      · rename_i hid
        exact ih (h.append (List.nodup_singleton id) (by simpa using hid))

/-- Nothing is appended when nothing is missing. -/
theorem extendDeps_of_subset {deps ids : List NodeId} (h : ∀ d ∈ ids, d ∈ deps) :
    extendDeps deps ids = deps := by
  induction ids with
  | nil => rfl
  | cons id ids ih =>
      rw [extendDeps_cons, if_pos (h id List.mem_cons_self)]
      exact ih fun d hd => h d (List.mem_cons_of_mem _ hd)

@[simp] theorem mem_dedupDeps {deps : List NodeId} {d : NodeId} :
    d ∈ dedupDeps deps ↔ d ∈ deps := by
  simp [dedupDeps, mem_extendDeps]

theorem nodup_dedupDeps (deps : List NodeId) : (dedupDeps deps).Nodup :=
  nodup_extendDeps _ List.nodup_nil

end Jcode.Dag
