import Jcode.Dag.Run
import Jcode.Dag.Staging
import Jcode.Support.AuditTree

/-!
# Dag — the invariant of the engine

`Inv` has three parts.  `WellFormed`: distinct ids, edges inside the graph, without repeats and
without cycles.  `Gated`: the tree of composites and their gates.  `Ordered`: a node that is done,
or running, waits for nothing that is not done.

A graph that satisfies `Inv` is an `AuditTree` (`Inv.auditTree`).
-/

namespace Jcode.Dag

/-- A gate that audits the top level of the plan. -/
def TaskNode.IsRootGate (n : TaskNode) : Prop := n.isGate = true ∧ n.parent = none

instance (n : TaskNode) : Decidable n.IsRootGate := inferInstanceAs (Decidable (_ ∧ _))

/-- Every dependency of `n` is a `done` node. -/
def DepsDone (g : TaskGraph) (n : TaskNode) : Prop :=
  ∀ d ∈ n.dependsOn, ∃ m ∈ g.nodes, m.id = d ∧ m.status = .done

/-- `n` is the gate of the level under `p`: of the composite `p`, or of the top level. -/
def TaskNode.Guards (n : TaskNode) (p : Option NodeId) : Prop := n.isGate = true ∧ n.parent = p

/-- `d` is the id of work at the level under `p`. -/
def WorkUnder (g : TaskGraph) (p : Option NodeId) (d : NodeId) : Prop :=
  ∃ m ∈ g.nodes, m.id = d ∧ m.isGate = false ∧ m.parent = p

structure WellFormed (g : TaskGraph) : Prop where
  ids_nodup : g.ids.Nodup
  deps_mem : ∀ n ∈ g.nodes, ∀ d ∈ n.dependsOn, d ∈ g.ids
  deps_nodup : ∀ n ∈ g.nodes, n.dependsOn.Nodup
  acyclic : g.cycleNodes = []

structure Gated (g : TaskGraph) : Prop where
  /-- A parent is an expanded node that waits for its children and its gate. -/
  composite : ∀ n ∈ g.nodes, ∀ p, n.parent = some p →
    ∃ x ∈ g.nodes, x.id = p ∧ x.expanded = true ∧ n.id ∈ x.dependsOn
  /-- An expanded node has children. -/
  children : ∀ x ∈ g.nodes, x.expanded = true → ∃ d, WorkUnder g (some x.id) d
  gate_atomic : ∀ n ∈ g.nodes, n.isGate = true → n.expanded = false
  /-- A gate waits for exactly the work at its level. -/
  scope : ∀ n ∈ g.nodes, n.isGate = true → ∀ d, d ∈ n.dependsOn ↔ WorkUnder g n.parent d
  gate_unique : ∀ n ∈ g.nodes, ∀ m ∈ g.nodes, ∀ p, n.Guards p → m.Guards p → n = m
  /-- In deep mode every level that holds work has a gate, in light mode there are none. -/
  deep : g.mode = .deep → ∀ n ∈ g.nodes, n.isGate = false → ∃ m ∈ g.nodes, m.Guards n.parent
  light : g.mode = .light → ∀ n ∈ g.nodes, n.isGate = false

structure Ordered (g : TaskGraph) : Prop where
  done : ∀ n ∈ g.nodes, n.status = .done → DepsDone g n
  running : ∀ n ∈ g.nodes, n.status = .running → ¬ n.IsRootGate → DepsDone g n

structure Inv (g : TaskGraph) : Prop where
  wf : WellFormed g
  gated : Gated g
  ordered : Ordered g

theorem inv_new (mode : Mode) : Inv (TaskGraph.new mode) where
  wf := ⟨List.nodup_nil, by simp [TaskGraph.new], by simp [TaskGraph.new],
    TaskGraph.cycleNodes_eq_nil_iff.mpr ⟨fun _ => 0, by simp [TaskGraph.new]⟩⟩
  gated := by constructor <;> simp [TaskGraph.new]
  ordered := by constructor <;> simp [TaskGraph.new]

/-! ### Consequences -/

/-- The ranking behind `cycleNodes`, on a well-formed graph. -/
theorem WellFormed.ranked {g : TaskGraph} (h : WellFormed g) :
    ∃ rank : NodeId → ℕ, ∀ n ∈ g.nodes, ∀ d ∈ n.dependsOn, rank d < rank n.id := by
  obtain ⟨rank, hr⟩ := TaskGraph.cycleNodes_eq_nil_iff.mp h.acyclic
  exact ⟨rank, fun n hn d hd => hr n hn d hd (h.deps_mem n hn d hd)⟩

theorem DepsDone.node {g : TaskGraph} {n m : TaskNode} (h : DepsDone g n) (hg : g.ids.Nodup)
    (hm : m ∈ g.nodes) (hd : m.id ∈ n.dependsOn) : m.status = .done := by
  obtain ⟨m', hm', e, hs⟩ := h m.id hd
  rwa [← TaskGraph.eq_of_id_eq hg hm' hm e]

theorem Gated.not_parent {g : TaskGraph} (h : Gated g) (hg : g.ids.Nodup) {x n : TaskNode}
    (hx : x ∈ g.nodes) (hxe : x.expanded = false) (hn : n ∈ g.nodes) : n.parent ≠ some x.id := by
  intro hp
  obtain ⟨y, hy, e, hye, -⟩ := h.composite n hn x.id hp
  rw [TaskGraph.eq_of_id_eq hg hy hx e, hxe] at hye
  cases hye

/-- The audit tree of a graph. -/
noncomputable def Inv.auditTree {g : TaskGraph} (h : Inv g) : AuditTree NodeId where
  node := {i | i ∈ g.ids}
  finite := List.finite_toSet g.ids
  gate := {i | ∃ n ∈ g.nodes, n.id = i ∧ n.isGate = true}
  parent i := (g.get i).bind (·.parent)
  waits i j := ∃ n ∈ g.nodes, n.id = i ∧ j ∈ n.dependsOn
  rank := h.wf.ranked.choose
  waits_mem := by
    rintro i j ⟨n, hn, rfl, hj⟩
    exact ⟨TaskGraph.id_mem_ids hn, h.wf.deps_mem n hn j hj⟩
  rank_lt := by
    rintro i j ⟨n, hn, rfl, hj⟩
    exact h.wf.ranked.choose_spec n hn j hj
  parent_waits := by
    intro i p hi hp
    obtain ⟨n, hn, rfl⟩ := TaskGraph.mem_ids.mp hi
    rw [TaskGraph.get_self h.wf.ids_nodup hn] at hp
    obtain ⟨x, hx, rfl, hxe, hxn⟩ := h.gated.composite n hn p hp
    refine ⟨?_, x, hx, rfl, hxn⟩
    rintro ⟨y, hy, e, hyg⟩
    rw [TaskGraph.eq_of_id_eq h.wf.ids_nodup hy hx e] at hyg
    rw [h.gated.gate_atomic x hx hyg] at hxe
    cases hxe
  gate_waits := by
    rintro i - ⟨n, hn, rfl, hng⟩ j
    have huniq : ∀ {m : TaskNode}, m ∈ g.nodes → m.id = n.id → m = n := fun hm e =>
      TaskGraph.eq_of_id_eq h.wf.ids_nodup hm hn e
    constructor
    · rintro ⟨n', hn', e, hj⟩
      rw [huniq hn' e] at hj
      obtain ⟨m, hm, rfl, hmw, hmp⟩ := (h.gated.scope n hn hng j).mp hj
      refine ⟨TaskGraph.id_mem_ids hm, ?_, ?_⟩
      · rintro ⟨m', hm', e', hg'⟩
        rw [TaskGraph.eq_of_id_eq h.wf.ids_nodup hm' hm e', hmw] at hg'
        cases hg'
      · rw [TaskGraph.get_self h.wf.ids_nodup hm, TaskGraph.get_self h.wf.ids_nodup hn]
        exact hmp
    · rintro ⟨hj, hjw, hjp⟩
      obtain ⟨m, hm, rfl⟩ := TaskGraph.mem_ids.mp hj
      rw [TaskGraph.get_self h.wf.ids_nodup hm, TaskGraph.get_self h.wf.ids_nodup hn] at hjp
      have hmw : m.isGate = false := by
        by_contra hc
        exact hjw ⟨m, hm, rfl, by simpa using hc⟩
      exact ⟨n, hn, rfl, (h.gated.scope n hn hng m.id).mpr ⟨m, hm, rfl, hmw, hjp⟩⟩

/-- **No node depends on the root gate.** -/
theorem Inv.not_depends_on_root_gate {g : TaskGraph} (h : Inv g) {r n : TaskNode}
    (hr : r ∈ g.nodes) (hroot : r.IsRootGate) (hn : n ∈ g.nodes) : r.id ∉ n.dependsOn := fun hd =>
  h.auditTree.not_waits_of_top_gate (g := r.id) (i := n.id) ⟨r, hr, rfl, hroot.1⟩
    (by show (g.get r.id).bind _ = none; rw [TaskGraph.get_self h.wf.ids_nodup hr]; exact hroot.2)
    ⟨n, hn, rfl, hd⟩

end Jcode.Dag
