import Jcode.Dag.Seeding

/-!
# Dag — every run keeps the invariant

A `Move` changes one node's status and nothing of the shape of the graph; a `Growth` re-opens the
gate of one level and makes its composite wait.  Both keep the three parts of `Inv`.

* `Effect.inv`: a step keeps the invariant; `Reachable.inv`: a reachable graph satisfies it.
* `Effect.old`: a step changes no identity, and no node that is done but the root gate.
-/

namespace Jcode.Dag

variable {parse : String → Option ConfidenceLevel} {g g' : TaskGraph}

/-! ### Moves -/

/-- The same node but for what a move writes. -/
structure Skeleton (n n' : TaskNode) : Prop extends Same n n' where
  dependsOn : n'.dependsOn = n.dependsOn
  expanded : n'.expanded = n.expanded

theorem Skeleton.refl (n : TaskNode) : Skeleton n n := ⟨.refl n, rfl, rfl⟩

theorem Move.skeleton {n n' : TaskNode} (h : Move parse g n n') : Skeleton n n' := by
  cases h <;> exact ⟨by constructor <;> rfl, rfl, rfl⟩

/-- Only a node that is not done moves. -/
theorem Move.was_open {n n' : TaskNode} (h : Move parse g n n') : n.status ≠ .done := by
  cases h with
  | start worker hs _ => rw [hs]; decide
  | finish a hs _ _ => rw [hs]; decide
  | fail hs => rw [hs]; decide
  | retry hs => rw [hs]; decide

section Skeleton
variable {f : TaskNode → TaskNode} (hf : ∀ n ∈ g.nodes, Skeleton n (f n))
include hf

theorem map_wellFormed (h : WellFormed g) :
    WellFormed { g with nodes := g.nodes.map f } := by
  have hids : TaskGraph.ids { g with nodes := g.nodes.map f } = g.ids :=
    TaskGraph.map_ids fun n hn => (hf n hn).id
  refine ⟨hids ▸ h.ids_nodup, ?_, ?_, ?_⟩
  · intro n' hn' d hd
    obtain ⟨n, hn, rfl⟩ := List.mem_map.mp hn'
    rw [hids]
    exact h.deps_mem n hn d ((hf n hn).dependsOn ▸ hd)
  · intro n' hn'
    obtain ⟨n, hn, rfl⟩ := List.mem_map.mp hn'
    rw [(hf n hn).dependsOn]
    exact h.deps_nodup n hn
  · refine (TaskGraph.cycleNodes_congr ?_).trans h.acyclic
    simp only [TaskGraph.edges, List.map_map]
    refine List.map_congr_left fun n hn => ?_
    simp [(hf n hn).id, (hf n hn).dependsOn]

theorem map_workUnder {p : Option NodeId} {d : NodeId} :
    WorkUnder { g with nodes := g.nodes.map f } p d ↔ WorkUnder g p d := by
  constructor
  · rintro ⟨m', hm', e, hw, hp⟩
    obtain ⟨m, hm, rfl⟩ := List.mem_map.mp hm'
    exact ⟨m, hm, (hf m hm).id ▸ e, (hf m hm).isGate ▸ hw, (hf m hm).parent ▸ hp⟩
  · rintro ⟨m, hm, e, hw, hp⟩
    refine ⟨f m, List.mem_map_of_mem hm, ?_, ?_, ?_⟩
    · rwa [(hf m hm).id]
    · rwa [(hf m hm).isGate]
    · rwa [(hf m hm).parent]

theorem map_guards {n : TaskNode} (hn : n ∈ g.nodes) {p : Option NodeId} :
    (f n).Guards p ↔ n.Guards p := by
  rw [TaskNode.Guards, TaskNode.Guards, (hf n hn).isGate, (hf n hn).parent]

theorem map_gated (h : Gated g) : Gated { g with nodes := g.nodes.map f } where
  composite := by
    intro n' hn' p hp
    obtain ⟨n, hn, rfl⟩ := List.mem_map.mp hn'
    rw [(hf n hn).parent] at hp
    obtain ⟨x, hx, e, hexp, hd⟩ := h.composite n hn p hp
    refine ⟨f x, List.mem_map_of_mem hx, (hf x hx).id.trans e, ?_, ?_⟩
    · rwa [(hf x hx).expanded]
    · rwa [(hf x hx).dependsOn, (hf n hn).id]
  children := by
    intro x' hx' hexp
    obtain ⟨x, hx, rfl⟩ := List.mem_map.mp hx'
    obtain ⟨d, hd⟩ := h.children x hx ((hf x hx).expanded ▸ hexp)
    exact ⟨d, (map_workUnder hf).mpr ((hf x hx).id.symm ▸ hd)⟩
  gate_atomic := by
    intro n' hn' hgate
    obtain ⟨n, hn, rfl⟩ := List.mem_map.mp hn'
    rw [(hf n hn).expanded]
    exact h.gate_atomic n hn ((hf n hn).isGate ▸ hgate)
  scope := by
    intro n' hn' hgate d
    obtain ⟨n, hn, rfl⟩ := List.mem_map.mp hn'
    rw [(hf n hn).dependsOn, (hf n hn).parent, map_workUnder hf]
    exact h.scope n hn ((hf n hn).isGate ▸ hgate) d
  gate_unique := by
    intro n' hn' m' hm' p hn hm
    obtain ⟨n, hng, rfl⟩ := List.mem_map.mp hn'
    obtain ⟨m, hmg, rfl⟩ := List.mem_map.mp hm'
    rw [h.gate_unique n hng m hmg p ((map_guards hf hng).mp hn) ((map_guards hf hmg).mp hm)]
  deep := by
    intro hmode n' hn' hw
    obtain ⟨n, hn, rfl⟩ := List.mem_map.mp hn'
    obtain ⟨m, hm, hguards⟩ := h.deep hmode n hn ((hf n hn).isGate ▸ hw)
    refine ⟨f m, List.mem_map_of_mem hm, (map_guards hf hm).mpr ?_⟩
    rwa [(hf n hn).parent]
  light := by
    intro hmode n' hn'
    obtain ⟨n, hn, rfl⟩ := List.mem_map.mp hn'
    rw [(hf n hn).isGate]
    exact h.light hmode n hn

end Skeleton

/-- The audit scope of a gate is all it waits for. -/
theorem mem_gateAuditScope (hg : Inv g) {n : TaskNode} (hn : n ∈ g.nodes) (hgate : n.isGate = true)
    {m : TaskNode} : m ∈ gateAuditScope g n ↔ m ∈ g.nodes ∧ m.id ∈ n.dependsOn := by
  simp only [gateAuditScope, List.mem_filter, List.mem_filterMap,
    TaskGraph.get_eq_some_iff hg.wf.ids_nodup, Bool.not_eq_true']
  constructor
  · rintro ⟨⟨d, hd, hm, rfl⟩, -⟩; exact ⟨hm, hd⟩
  · rintro ⟨hm, hd⟩
    obtain ⟨m', hm', e, hw, -⟩ := (hg.gated.scope n hn hgate m.id).mp hd
    rw [TaskGraph.eq_of_id_eq hg.wf.ids_nodup hm' hm e] at hw
    exact ⟨⟨m.id, hd, hm, rfl⟩, hw⟩

/-- A gate that passes waits for nothing. -/
theorem GatePasses.depsDone (hg : Inv g) {n : TaskNode} {a : HandoffArtifact} (hn : n ∈ g.nodes)
    (hgate : n.isGate = true) (h : GatePasses parse g n a) : DepsDone g n := by
  intro d hd
  obtain ⟨m, hm, rfl⟩ := TaskGraph.mem_ids.mp (hg.wf.deps_mem n hn d hd)
  exact ⟨m, hm, rfl, h.scope_done m ((mem_gateAuditScope hg hn hgate).mpr ⟨hm, hd⟩)⟩

/-- A node that a move leaves running or done waits for nothing. -/
theorem Move.depsDone (hg : Inv g) {n n' : TaskNode} (hn : n ∈ g.nodes) (h : Move parse g n n')
    (hs : n'.status = .running ∨ n'.status = .done) : DepsDone g n := by
  cases h with
  | start worker _ hd => exact hd
  | finish a hrun _ hpass =>
      by_cases hroot : n.IsRootGate
      · have hdeep : g.mode = .deep := by
          cases hm : g.mode with
          | deep => rfl
          | light => have := hg.gated.light hm n hn; rw [hroot.1] at this; cases this
        exact (hpass hdeep hroot.1).depsDone hg hn hroot.1
      · exact hg.ordered.running n hn hrun hroot
  | fail _ => simp at hs
  | retry _ => simp at hs

theorem move_inv (hg : Inv g) {n n' : TaskNode} (hn : n ∈ g.nodes) (h : Move parse g n n') :
    Inv (g.modify n.id fun _ => n') := by
  have huniq : ∀ m ∈ g.nodes, m.id = n.id → m = n := fun m hm e =>
    TaskGraph.eq_of_id_eq hg.wf.ids_nodup hm hn e
  have hf : ∀ m ∈ g.nodes, Skeleton m (if m.id = n.id then n' else m) := fun m hm => by
    split
    · rename_i e; rw [huniq m hm e]; exact h.skeleton
    · exact .refl m
  -- what was done stays done
  have hdone : ∀ m, DepsDone g m → DepsDone (g.modify n.id fun _ => n') m := fun m hm d hd => by
    obtain ⟨x, hx, e, hs⟩ := hm d hd
    have hne : x.id ≠ n.id := fun e' => h.was_open (huniq x hx e' ▸ hs)
    exact ⟨x, List.mem_map.mpr ⟨x, hx, if_neg hne⟩, e, hs⟩
  have hmoved : n'.status = .running ∨ n'.status = .done →
      DepsDone (g.modify n.id fun _ => n') n' := fun hs => by
    have := hdone n (h.depsDone hg hn hs)
    rwa [DepsDone, ← h.skeleton.dependsOn] at this
  refine ⟨map_wellFormed hf hg.wf, map_gated hf hg.gated, ?_, ?_⟩
  · intro m' hm' hs
    obtain ⟨m, hm, rfl⟩ := List.mem_map.mp hm'
    split at hs
    · rename_i e; rw [if_pos e]; exact hmoved (.inr hs)
    · rename_i e; rw [if_neg e]; exact hdone m (hg.ordered.done m hm hs)
  · intro m' hm' hs hroot
    obtain ⟨m, hm, rfl⟩ := List.mem_map.mp hm'
    split at hs
    · rename_i e; rw [if_pos e]; exact hmoved (.inl hs)
    · rename_i e
      rw [if_neg e] at hroot ⊢
      exact hdone m (hg.ordered.running m hm hs hroot)

/-! ### Growth -/

namespace Growth
variable {p : Option NodeId} {new gates : List TaskNode} {f : TaskNode → TaskNode}

theorem mem_nodes (h : Growth p new gates f g g') {n' : TaskNode} :
    n' ∈ g'.nodes ↔ (∃ n ∈ g.nodes, f n = n') ∨ n' ∈ new ∨ n' ∈ gates := by
  rw [h.nodes_eq, List.mem_append, List.mem_map, List.mem_append]

theorem mem_old (h : Growth p new gates f g g') {n : TaskNode} (hn : n ∈ g.nodes) :
    f n ∈ g'.nodes :=
  h.mem_nodes.mpr (.inl ⟨n, hn, rfl⟩)

theorem mem_ids_of_old (h : Growth p new gates f g g') {d : NodeId} (hd : d ∈ g.ids) :
    d ∈ g'.ids := by
  obtain ⟨n, hn, rfl⟩ := TaskGraph.mem_ids.mp hd
  exact TaskGraph.mem_ids.mpr ⟨f n, h.mem_old hn, (h.same n).id⟩

theorem mem_ids_of_fresh (h : Growth p new gates f g g') {d : NodeId}
    (hd : d ∈ (new ++ gates).map (·.id)) : d ∈ g'.ids := by
  obtain ⟨n, hn, rfl⟩ := List.mem_map.mp hd
  exact TaskGraph.id_mem_ids (h.mem_nodes.mpr (.inr (List.mem_append.mp hn)))

theorem mem_ids_of_new (h : Growth p new gates f g g') {d : NodeId} (hd : d ∈ new.map (·.id)) :
    d ∈ g'.ids :=
  h.mem_ids_of_fresh (by rw [List.map_append]; exact List.mem_append_left _ hd)

theorem same_guards (h : Growth p new gates f g g') {n : TaskNode} {q : Option NodeId} :
    (f n).Guards q ↔ n.Guards q := by
  rw [TaskNode.Guards, TaskNode.Guards, (h.same n).isGate, (h.same n).parent]

/-- The gate of a level is not the composite of that level. -/
theorem not_join (hg : Inv g) (h : Growth p new gates f g g') {n : TaskNode} (hn : n ∈ g.nodes)
    (hgate : n.isGate = true) : p ≠ some n.id := by
  intro e
  obtain ⟨x, hx, ex, hw⟩ := h.parent_mem n.id e
  rw [TaskGraph.eq_of_id_eq hg.wf.ids_nodup hx hn ex, hgate] at hw
  cases hw

/-- What becomes of an old node. -/
theorem old_cases (h : Growth p new gates f g g') {n : TaskNode} (hn : n ∈ g.nodes) :
    n.Guards p ∧ Reopened p new n (f n) ∨ p = some n.id ∧ Joined (new ++ gates) n (f n) ∨
      f n = n := by
  by_cases hguards : n.Guards p
  · exact .inl ⟨hguards, h.gate n hn hguards⟩
  · by_cases hjoin : p = some n.id
    · exact .inr (.inl ⟨hjoin, h.join n hn hjoin⟩)
    · exact .inr (.inr (h.elsewhere n hn hguards hjoin))

/-- Dependencies are only added, and only on new nodes. -/
theorem mem_deps (h : Growth p new gates f g g') {n : TaskNode} (hn : n ∈ g.nodes) {d : NodeId} :
    d ∈ n.dependsOn → d ∈ (f n).dependsOn := by
  intro hd
  rcases h.old_cases hn with ⟨-, hr⟩ | ⟨-, hj⟩ | e
  · exact (hr.mem_deps d).mpr (.inl hd)
  · exact (hj.mem_deps d).mpr (.inl hd)
  · rwa [e]

theorem expanded_of_old (h : Growth p new gates f g g') {n : TaskNode} (hn : n ∈ g.nodes)
    (hexp : n.expanded = true) : (f n).expanded = true := by
  rcases h.old_cases hn with ⟨-, hr⟩ | ⟨-, hj⟩ | e
  · rw [hr.expanded, hexp]
  · exact hj.expanded
  · rwa [e]

theorem workUnder (h : Growth p new gates f g g') {q : Option NodeId} {d : NodeId} :
    WorkUnder g' q d ↔ WorkUnder g q d ∨ q = p ∧ d ∈ new.map (·.id) := by
  constructor
  · rintro ⟨m', hm', rfl, hw, hq⟩
    rcases h.mem_nodes.mp hm' with ⟨m, hm, rfl⟩ | hm | hm
    · exact .inl ⟨m, hm, (h.same m).id.symm, (h.same m).isGate ▸ hw, (h.same m).parent ▸ hq⟩
    · have hp := (h.fresh m' (List.mem_append_left _ hm)).2.2.1
      exact .inr ⟨hq.symm.trans hp, List.mem_map_of_mem hm⟩
    · rw [(h.gates_scope m' hm).1] at hw; cases hw
  · rintro (⟨m, hm, rfl, hw, hq⟩ | ⟨rfl, hd⟩)
    · refine ⟨f m, h.mem_old hm, (h.same m).id, ?_, ?_⟩
      · rwa [(h.same m).isGate]
      · rwa [(h.same m).parent]
    · obtain ⟨m, hm, rfl⟩ := List.mem_map.mp hd
      have hp := (h.fresh m (List.mem_append_left _ hm)).2.2.1
      exact ⟨m, h.mem_nodes.mpr (.inr (.inl hm)), rfl, h.new_work m hm, hp⟩

theorem wellFormed (hg : Inv g) (h : Growth p new gates f g g') : WellFormed g' where
  ids_nodup := h.ids_nodup
  deps_mem := by
    intro n' hn' d hd
    rcases h.mem_nodes.mp hn' with ⟨n, hn, rfl⟩ | hn | hn
    · have hold : d ∈ n.dependsOn → d ∈ g'.ids := fun hd =>
        h.mem_ids_of_old (hg.wf.deps_mem n hn d hd)
      rcases h.old_cases hn with ⟨-, hr⟩ | ⟨-, hj⟩ | e
      · exact ((hr.mem_deps d).mp hd).elim hold h.mem_ids_of_new
      · exact ((hj.mem_deps d).mp hd).elim hold h.mem_ids_of_fresh
      · exact hold (e ▸ hd)
    · exact (h.new_deps n' hn d hd).elim h.mem_ids_of_new h.mem_ids_of_old
    · rcases ((h.gates_scope n' hn).2 d).mp hd with ⟨m, hm, rfl, -⟩ | hd
      · exact h.mem_ids_of_old (TaskGraph.id_mem_ids hm)
      · exact h.mem_ids_of_new hd
  deps_nodup := by
    intro n' hn'
    rcases h.mem_nodes.mp hn' with ⟨n, hn, rfl⟩ | hn
    · have hnd := hg.wf.deps_nodup n hn
      rcases h.old_cases hn with ⟨-, hr⟩ | ⟨-, hj⟩ | e
      · exact hr.deps_nodup hnd
      · exact hj.deps_nodup hnd
      · rwa [e]
    · exact (h.fresh n' (List.mem_append.mpr hn)).2.2.2
  acyclic := h.acyclic

theorem gated (hg : Inv g) (h : Growth p new gates f g g') : Gated g' where
  composite := by
    intro n' hn' q hq
    rcases h.mem_nodes.mp hn' with ⟨n, hn, rfl⟩ | hn
    · rw [(h.same n).parent] at hq
      obtain ⟨x, hx, e, hexp, hd⟩ := hg.gated.composite n hn q hq
      refine ⟨f x, h.mem_old hx, (h.same x).id.trans e, h.expanded_of_old hx hexp, ?_⟩
      rw [(h.same n).id]
      exact h.mem_deps hx hd
    · -- a fresh node: its parent is the composite that joined
      have hmem : n' ∈ new ++ gates := List.mem_append.mpr hn
      obtain ⟨x, hx, rfl, -⟩ := h.parent_mem q ((h.fresh n' hmem).2.2.1.symm.trans hq)
      have hj := h.join x hx ((h.fresh n' hmem).2.2.1.symm.trans hq)
      exact ⟨f x, h.mem_old hx, (h.same x).id, hj.expanded,
        (hj.mem_deps n'.id).mpr (.inr (List.mem_map_of_mem hmem))⟩
  children := by
    intro x' hx' hexp
    rcases h.mem_nodes.mp hx' with ⟨x, hx, rfl⟩ | hx
    · rw [(h.same x).id]
      have hold : x.expanded = true → ∃ d, WorkUnder g' (some x.id) d := fun hexp => by
        obtain ⟨d, hd⟩ := hg.gated.children x hx hexp
        exact ⟨d, h.workUnder.mpr (.inl hd)⟩
      rcases h.old_cases hx with ⟨-, hr⟩ | ⟨e, -⟩ | e
      · exact hold (hr.expanded ▸ hexp)
      · obtain ⟨n, hn⟩ := List.exists_mem_of_ne_nil _ h.new_ne
        exact ⟨n.id, h.workUnder.mpr (.inr ⟨e.symm, List.mem_map_of_mem hn⟩)⟩
      · exact hold (e ▸ hexp)
    · rw [(h.fresh x' (List.mem_append.mpr hx)).2.1] at hexp; cases hexp
  gate_atomic := by
    intro n' hn' hgate
    rcases h.mem_nodes.mp hn' with ⟨n, hn, rfl⟩ | hn
    · have hold := hg.gated.gate_atomic n hn ((h.same n).isGate ▸ hgate)
      rcases h.old_cases hn with ⟨-, hr⟩ | ⟨e, -⟩ | e
      · rw [hr.expanded, hold]
      · exact absurd e (h.not_join hg hn ((h.same n).isGate ▸ hgate))
      · rwa [e]
    · exact (h.fresh n' (List.mem_append.mpr hn)).2.1
  scope := by
    intro n' hn' hgate d
    rw [h.workUnder]
    rcases h.mem_nodes.mp hn' with ⟨n, hn, rfl⟩ | hn | hn
    · rw [(h.same n).isGate] at hgate
      rw [(h.same n).parent]
      have hscope := hg.gated.scope n hn hgate d
      by_cases hp : n.parent = p
      · rw [(h.gate n hn ⟨hgate, hp⟩).mem_deps d, hscope]
        simp only [hp, true_and]
      · rw [h.elsewhere n hn (fun hc => hp hc.2) (h.not_join hg hn hgate), hscope]
        simp only [hp, false_and, or_false]
    · rw [h.new_work n' hn] at hgate; cases hgate
    · rw [(h.gates_scope n' hn).2 d, (h.fresh n' (List.mem_append_right _ hn)).2.2.1]
      simp only [true_and]
  gate_unique := by
    -- a gate is added to a level that has none
    have hone : ∀ n ∈ g.nodes, ∀ m ∈ gates, ∀ q, n.Guards q → ¬ m.Guards q :=
      fun n hn m hm q hnq hmq => by
        have hp := (h.fresh m (List.mem_append_right _ hm)).2.2.1
        obtain rfl : p = q := hp.symm.trans hmq.2
        exact (h.gates_vacant (List.ne_nil_of_mem hm)).2 n hn hnq
    intro n' hn' m' hm' q hnq hmq
    rcases h.mem_nodes.mp hn' with ⟨n, hn, rfl⟩ | hn | hn
    · rw [h.same_guards] at hnq
      rcases h.mem_nodes.mp hm' with ⟨m, hm, rfl⟩ | hm | hm
      · rw [hg.gated.gate_unique n hn m hm q hnq (h.same_guards.mp hmq)]
      · rw [TaskNode.Guards, h.new_work m' hm] at hmq; cases hmq.1
      · exact absurd hmq (hone n hn m' hm q hnq)
    · rw [TaskNode.Guards, h.new_work n' hn] at hnq; cases hnq.1
    · rcases h.mem_nodes.mp hm' with ⟨m, hm, rfl⟩ | hm | hm
      · exact absurd hnq (hone m hm n' hn q (h.same_guards.mp hmq))
      · rw [TaskNode.Guards, h.new_work m' hm] at hmq; cases hmq.1
      · obtain ⟨i, hi, rfl⟩ := List.getElem_of_mem hn
        obtain ⟨j, hj, rfl⟩ := List.getElem_of_mem hm
        have hij : i = j := by have := h.gates_once; omega
        subst hij
        rfl
  deep := by
    intro hmode n' hn' hw
    rw [h.mode_eq] at hmode
    rcases h.mem_nodes.mp hn' with ⟨n, hn, rfl⟩ | hn | hn
    · obtain ⟨m, hm, hguards⟩ := hg.gated.deep hmode n hn ((h.same n).isGate ▸ hw)
      refine ⟨f m, h.mem_old hm, h.same_guards.mpr ?_⟩
      rwa [(h.same n).parent]
    · rw [(h.fresh n' (List.mem_append_left _ hn)).2.2.1]
      cases hgates : gates with
      | nil =>
          obtain ⟨m, hm, hguards⟩ := h.gate_present hmode hgates
          exact ⟨f m, h.mem_old hm, h.same_guards.mpr hguards⟩
      | cons m rest =>
          have hm : m ∈ gates := hgates ▸ List.mem_cons_self
          exact ⟨m, h.mem_nodes.mpr (.inr (.inr hm)), (h.gates_scope m hm).1,
            (h.fresh m (List.mem_append_right _ hm)).2.2.1⟩
    · rw [(h.gates_scope n' hn).1] at hw; cases hw
  light := by
    intro hmode n' hn'
    rw [h.mode_eq] at hmode
    rcases h.mem_nodes.mp hn' with ⟨n, hn, rfl⟩ | hn | hn
    · rw [(h.same n).isGate]
      exact hg.gated.light hmode n hn
    · exact h.new_work n' hn
    · have := (h.gates_vacant (List.ne_nil_of_mem hn)).1
      rw [hmode] at this; cases this

/-- Only the root gate is re-opened once it is done. -/
theorem done_kept (h : Growth p new gates f g g') {n : TaskNode} (hn : n ∈ g.nodes)
    (hs : n.status = .done) (hroot : ¬ n.IsRootGate) : f n = n := by
  rcases h.old_cases hn with ⟨hguards, hr⟩ | ⟨-, hj⟩ | e
  · obtain rfl := hr.passed hs
    exact absurd hguards hroot
  · exact absurd hs hj.was_open
  · exact e

theorem depsDone (hg : Inv g) (h : Growth p new gates f g g') {n : TaskNode} (hn : n ∈ g.nodes)
    (hd : DepsDone g n) : DepsDone g' n := by
  intro d hdep
  obtain ⟨m, hm, rfl, hs⟩ := hd d hdep
  have hroot : ¬ m.IsRootGate := fun hr => hg.not_depends_on_root_gate hm hr hn hdep
  exact ⟨m, h.done_kept hm hs hroot ▸ h.mem_old hm, rfl, hs⟩

theorem ordered (hg : Inv g) (h : Growth p new gates f g g') : Ordered g' where
  done := by
    intro n' hn' hs
    rcases h.mem_nodes.mp hn' with ⟨n, hn, rfl⟩ | hn
    · rcases h.old_cases hn with ⟨-, hr⟩ | ⟨-, hj⟩ | e
      · exact absurd hs hr.not_done
      · exact absurd hs hj.not_done
      · rw [e] at hs ⊢
        exact h.depsDone hg hn (hg.ordered.done n hn hs)
    · rw [(h.fresh n' (List.mem_append.mpr hn)).1] at hs; cases hs
  running := by
    intro n' hn' hs hroot
    rcases h.mem_nodes.mp hn' with ⟨n, hn, rfl⟩ | hn
    · rcases h.old_cases hn with ⟨hguards, hr⟩ | ⟨-, hj⟩ | e
      · obtain rfl := hr.running hs
        exact absurd (h.same_guards.mpr hguards) hroot
      · exact absurd hs hj.not_running
      · rw [e] at hs hroot ⊢
        exact h.depsDone hg hn (hg.ordered.running n hn hs hroot)
    · rw [(h.fresh n' (List.mem_append.mpr hn)).1] at hs; cases hs

end Growth

/-! ### Steps and runs -/

/-- **A step keeps the invariant.** -/
theorem Effect.inv (hg : Inv g) (h : Effect parse g g') : Inv g' := by
  cases h with
  | idle => exact hg
  | move hn hm => exact move_inv hg hn hm
  | grow hgrow => exact ⟨hgrow.wellFormed hg, hgrow.gated hg, hgrow.ordered hg⟩

/-- **A step changes no identity**, and no node that is done but the root gate. -/
theorem Effect.old (hg : Inv g) (h : Effect parse g g') {n : TaskNode} (hn : n ∈ g.nodes) :
    ∃ n' ∈ g'.nodes, Same n n' ∧ (n.status = .done → ¬ n.IsRootGate → n' = n) := by
  cases h with
  | idle => exact ⟨n, hn, .refl n, fun _ _ => rfl⟩
  | @move m m' hm hmove =>
      by_cases e : n.id = m.id
      · obtain rfl := TaskGraph.eq_of_id_eq hg.wf.ids_nodup hn hm e
        refine ⟨m', List.mem_map.mpr ⟨n, hn, if_pos rfl⟩, hmove.skeleton.toSame, fun hs => ?_⟩
        exact absurd hs hmove.was_open
      · exact ⟨n, List.mem_map.mpr ⟨n, hn, if_neg e⟩, .refl n, fun _ _ => rfl⟩
  | grow hgrow => exact ⟨_, hgrow.mem_old hn, hgrow.same n, hgrow.done_kept hn⟩

theorem Effect.mode_eq (h : Effect parse g g') : g'.mode = g.mode := by
  cases h with
  | idle => rfl
  | move _ _ => rfl
  | grow hgrow => exact hgrow.mode_eq

theorem Step.effect (hg : Inv g) (h : Step parse g g') : Effect parse g g' := by
  obtain ⟨op, rfl⟩ := h
  exact op.effect hg

theorem Steps.inv (h : Steps parse g g') (hg : Inv g) : Inv g' :=
  h.preserves (fun _ _ hg hs => (hs.effect hg).inv hg) hg

/-- **A reachable graph satisfies the invariant.** -/
theorem Reachable.inv {mode : Mode} (h : Reachable parse mode g) : Inv g :=
  Steps.inv h (inv_new mode)

/-- The invariant rule on the effects of the steps. -/
theorem Reachable.induct {mode : Mode} {P : TaskGraph → Prop} (new : P (TaskGraph.new mode))
    (step : ∀ g g', Inv g → g.mode = mode → Effect parse g g' → P g → P g')
    (h : Reachable parse mode g) : P g := by
  have hP : Inv g ∧ g.mode = mode ∧ P g :=
    Steps.preserves (P := fun g => Inv g ∧ g.mode = mode ∧ P g) (fun g g' ⟨hg, hmode, hp⟩ hs =>
      have he := hs.effect hg
      ⟨he.inv hg, he.mode_eq.trans hmode, step g g' hg hmode he hp⟩) h ⟨inv_new mode, rfl, new⟩
  exact hP.2.2

theorem Reachable.mode_eq {mode : Mode} (h : Reachable parse mode g) : g.mode = mode :=
  h.induct (P := fun g => g.mode = mode) rfl fun _ _ _ hmode he _ => he.mode_eq.trans hmode

end Jcode.Dag
