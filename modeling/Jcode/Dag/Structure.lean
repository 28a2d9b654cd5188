import Jcode.Dag.Preserve

/-!
# Dag — the shape of a reachable graph

What the invariant says of a reachable graph, in the terms of the graph's own lists.

* `reachable_wellFormed`: distinct ids, no dangling or repeated edge, no cycle.
* `reachable_gates`: in deep mode, one gate a level, which audits all the work of its level.
* `reachable_closed`: in deep mode, nothing is open behind a root gate that is done.
-/

namespace Jcode.Dag

variable {parse : String → Option ConfidenceLevel} {mode : Mode} {g : TaskGraph}

/-! ### Well-formedness -/

/-- **A reachable graph is well formed**: its ids are distinct, every dependency and every parent
is a node, no dependency is repeated, and a ranking of the nodes decreases along every edge. -/
theorem reachable_wellFormed (h : Reachable parse mode g) :
    g.ids.Nodup ∧
    (∀ n ∈ g.nodes, (∀ d ∈ n.dependsOn, d ∈ g.ids) ∧ ∀ p, n.parent = some p → p ∈ g.ids) ∧
    (∀ n ∈ g.nodes, n.dependsOn.Nodup) ∧
    ∃ rank : NodeId → ℕ, ∀ n ∈ g.nodes, ∀ d ∈ n.dependsOn, rank d < rank n.id := by
  have hinv := h.inv
  refine ⟨hinv.wf.ids_nodup, fun n hn => ⟨hinv.wf.deps_mem n hn, fun p hp => ?_⟩,
    hinv.wf.deps_nodup, hinv.wf.ranked⟩
  obtain ⟨x, hx, rfl, -⟩ := hinv.gated.composite n hn p hp
  exact TaskGraph.id_mem_ids hx

/-- The finished run: the composite waits for its child and its gate. -/
theorem deepRun_wellFormed :
    (deepRun 11).ids = ["a", "plan::gate", "c", "a::gate"] ∧ (deepRun 11).ids.Nodup :=
  ⟨by decide +kernel, (reachable_wellFormed (deepRun_reachable 11)).1⟩

/-! ### Gates -/

/-- The gates at the level under `p`. -/
def TaskGraph.gatesUnder (g : TaskGraph) (p : Option NodeId) : List TaskNode :=
  g.nodes.filter fun n => n.isGate && n.parent == p

/-- The ids of the work at the level under `p`. -/
def TaskGraph.workUnder (g : TaskGraph) (p : Option NodeId) : List NodeId :=
  (g.nodes.filter fun n => !n.isGate && n.parent == p).map (·.id)

theorem mem_gatesUnder {p : Option NodeId} {n : TaskNode} :
    n ∈ g.gatesUnder p ↔ n ∈ g.nodes ∧ n.Guards p := by
  simp [TaskGraph.gatesUnder, TaskNode.Guards]

theorem mem_workUnder {p : Option NodeId} {d : NodeId} : d ∈ g.workUnder p ↔ WorkUnder g p d := by
  simp [TaskGraph.workUnder, WorkUnder, and_assoc, and_comm, and_left_comm]

/-- The work under a composite is its children. -/
theorem workUnder_some (p : NodeId) : g.workUnder (some p) = (g.childrenOf p).map (·.id) := by
  simp [TaskGraph.workUnder, TaskGraph.childrenOf, Bool.and_comm]

example : (deepRun 11).workUnder none = ["a"] := by decide +kernel

/-- A level with work has one gate, in deep mode. -/
theorem Inv.gatesUnder_eq (hg : Inv g) (hdeep : g.mode = .deep) {p : Option NodeId} {n : TaskNode}
    (hn : n ∈ g.nodes) (hp : n.parent = p) : ∃ r, g.gatesUnder p = [r] := by
  have hex : ∃ r ∈ g.nodes, r.Guards p := by
    cases hgate : n.isGate with
    | true => exact ⟨n, hn, hgate, hp⟩
    | false => exact hp ▸ hg.gated.deep hdeep n hn hgate
  obtain ⟨r, hr, hguards⟩ := hex
  have hnd : (g.gatesUnder p).Nodup := (List.Nodup.of_map _ hg.wf.ids_nodup).filter _
  refine ⟨r, List.perm_singleton.mp ((List.perm_ext_iff_of_nodup hnd (List.nodup_singleton r)).mpr
    fun m => ?_)⟩
  rw [mem_gatesUnder, List.mem_singleton]
  constructor
  · rintro ⟨hm, hm'⟩; exact hg.gated.gate_unique m hm r hr p hm' hguards
  · rintro rfl; exact ⟨hr, hguards⟩

/-- A graph that is not empty has a node at the top level. -/
theorem Inv.exists_top (hg : Inv g) (hne : g.nodes ≠ []) : ∃ n ∈ g.nodes, n.parent = none := by
  obtain ⟨n, hn⟩ := List.exists_mem_of_ne_nil _ hne
  obtain ⟨i, hi, hp⟩ := hg.auditTree.exists_top ⟨n.id, TaskGraph.id_mem_ids hn⟩
  obtain ⟨m, hm, rfl⟩ := TaskGraph.mem_ids.mp hi
  refine ⟨m, hm, ?_⟩
  change (g.get m.id).bind _ = none at hp
  rwa [TaskGraph.get_self hg.wf.ids_nodup hm] at hp

/-- **Every level has its gate.**  In deep mode a graph that is not empty has one root gate, which
audits exactly the work at the top level; an expanded node has one gate, which audits exactly its
children, and waits for all of these; gates are not expanded, and only expanded nodes are parents. -/
theorem reachable_gates (h : Reachable parse .deep g) :
    (g.nodes ≠ [] → ∃ r, g.gatesUnder none = [r] ∧ ∀ d, d ∈ r.dependsOn ↔ d ∈ g.workUnder none) ∧
    (∀ x ∈ g.nodes, x.expanded = true → ∃ q, g.gatesUnder (some x.id) = [q] ∧
      (∀ d, d ∈ q.dependsOn ↔ d ∈ (g.childrenOf x.id).map (·.id)) ∧
      (∀ d ∈ (g.childrenOf x.id).map (·.id), d ∈ x.dependsOn) ∧ q.id ∈ x.dependsOn) ∧
    (∀ q ∈ g.nodes, q.isGate = true → q.expanded = false) ∧
    ∀ x ∈ g.nodes, x.expanded = false → ∀ n ∈ g.nodes, n.parent ≠ some x.id := by
  have hg := h.inv
  -- the gate of a level with a node in it, and its scope
  have hlevel : ∀ p, ∀ n ∈ g.nodes, n.parent = p → ∃ r ∈ g.nodes, r.parent = p ∧
      g.gatesUnder p = [r] ∧ ∀ d, d ∈ r.dependsOn ↔ d ∈ g.workUnder p := fun p n hn hp => by
    obtain ⟨r, hr⟩ := hg.gatesUnder_eq h.mode_eq hn hp
    obtain ⟨hmem, hgate, hrp⟩ := mem_gatesUnder.mp (hr ▸ List.mem_singleton_self r)
    refine ⟨r, hmem, hrp, hr, fun d => ?_⟩
    rw [hg.gated.scope r hmem hgate, hrp, mem_workUnder]
  have hwaits : ∀ x ∈ g.nodes, ∀ n ∈ g.nodes, n.parent = some x.id → n.id ∈ x.dependsOn :=
    fun x hx n hn hp => by
      obtain ⟨y, hy, e, -, hd⟩ := hg.gated.composite n hn x.id hp
      rwa [TaskGraph.eq_of_id_eq hg.wf.ids_nodup hy hx e] at hd
  refine ⟨fun hne => ?_, fun x hx hexp => ?_, hg.gated.gate_atomic, fun x hx hexp n hn =>
    hg.gated.not_parent hg.wf.ids_nodup hx hexp hn⟩
  · obtain ⟨n, hn, hp⟩ := hg.exists_top hne
    obtain ⟨r, -, -, hr, hscope⟩ := hlevel none n hn hp
    exact ⟨r, hr, hscope⟩
  · obtain ⟨d, n, hn, -, -, hp⟩ := hg.gated.children x hx hexp
    obtain ⟨q, hq, hqp, hr, hscope⟩ := hlevel _ n hn hp
    rw [← workUnder_some]
    refine ⟨q, hr, hscope, fun d hd => ?_, hwaits x hx q hq hqp⟩
    obtain ⟨m, hm, rfl, -, hmp⟩ := mem_workUnder.mp hd
    exact hwaits x hx m hm hmp

/-- In the finished run `c` is the child of `a`. -/
theorem deepRun_gates : ∃ r, (deepRun 11).gatesUnder none = [r] ∧
    ∀ d, d ∈ r.dependsOn ↔ d ∈ (deepRun 11).workUnder none :=
  (reachable_gates (deepRun_reachable 11)).1 (by decide +kernel)

/-! ### Closure -/

/-- **Nothing is open behind a finished plan**: when the root gate of a deep graph is done, every
node is. -/
theorem reachable_closed (h : Reachable parse .deep g) {r : TaskNode} (hr : r ∈ g.nodes)
    (hroot : r.IsRootGate) (hs : r.status = .done) : ∀ n ∈ g.nodes, n.status = .done := by
  have hg := h.inv
  have hdone : ∀ {n}, n ∈ g.nodes → (∃ m ∈ g.nodes, m.id = n.id ∧ m.status = .done) →
      n.status = .done := by
    rintro n hn ⟨m, hm, e, hs⟩
    rwa [← TaskGraph.eq_of_id_eq hg.wf.ids_nodup hm hn e]
  -- the done nodes contain what they wait for, and the only gate at the top level
  have hall := hg.auditTree.mem_of_top_gate_mem (D := {i | ∃ m ∈ g.nodes, m.id = i ∧
    m.status = .done}) (g := r.id) ?_ (TaskGraph.id_mem_ids hr) ⟨r, hr, rfl, hroot.1⟩ ?_ ?_
    ⟨r, hr, rfl, hs⟩
  · exact fun n hn => hdone hn (hall n.id (TaskGraph.id_mem_ids hn))
  · rintro i hi j ⟨n, hn, rfl, hj⟩
    exact hg.ordered.done n hn (hdone hn hi) j hj
  · change (g.get r.id).bind _ = none
    rw [TaskGraph.get_self hg.wf.ids_nodup hr]
    exact hroot.2
  · rintro i - ⟨m, hm, rfl, hgate⟩ hp
    change (g.get m.id).bind _ = none at hp
    rw [TaskGraph.get_self hg.wf.ids_nodup hm] at hp
    exact congrArg _ (hg.gated.gate_unique m hm r hr none ⟨hgate, hp⟩ hroot)

/-- The run is finished when its root gate is. -/
theorem deepRun_closed : (deepRun 11).nodes.all TaskNode.isDone = true := by
  have hgate : ∃ r ∈ (deepRun 11).nodes, r.IsRootGate ∧ r.status = .done := by decide +kernel
  obtain ⟨r, hr, hroot, hs⟩ := hgate
  refine List.all_eq_true.mpr fun n hn => ?_
  exact decide_eq_true (reachable_closed (deepRun_reachable 11) hr hroot hs n hn)

end Jcode.Dag
