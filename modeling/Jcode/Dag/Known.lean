import Jcode.Dag.Keeping

/-!
# Dag — calls on a closed graph

A call checks the dependencies of the nodes it is given, against the graph and against each other,
and the edges it draws itself lead to nodes that are there.

* `closed_seed`, `closed_expandNode`, `closed_injectFromGate`, `closed_completeNode`,
  `closed_dispatch`: every call keeps a graph closed, distinct ids or not.
-/

namespace Jcode.Dag
open Rust

variable {parse : String → Option ConfidenceLevel} {g g' : TaskGraph}

/-- Every edge leads to an id that is there. -/
def EdgesKnown (edges : List (NodeId × List NodeId)) : Prop :=
  ∀ e ∈ edges, ∀ d ∈ e.2, d ∈ edges.map Prod.fst

theorem edgesKnown_iff : EdgesKnown g.edges ↔ ∀ n ∈ g.nodes, ∀ d ∈ n.dependsOn, d ∈ g.ids := by
  rw [EdgesKnown, ← TaskGraph.ids_eq_edges]
  simp only [TaskGraph.edges, List.forall_mem_map]

/-! ### Writes -/

theorem mem_updateFirst {α : Type} {p : α → Bool} {f : α → α} {l : List α} {a : α}
    (h : a ∈ Keyed.updateFirst p f l) : a ∈ l ∨ ∃ b ∈ l, a = f b := by
  induction l with
  | nil => simp [Keyed.updateFirst] at h
  | cons b l ih =>
      rw [Keyed.updateFirst] at h
      split at h
      · rcases List.mem_cons.mp h with rfl | h
        · exact .inr ⟨b, List.mem_cons_self, rfl⟩
        · exact .inl (List.mem_cons_of_mem b h)
      · rcases List.mem_cons.mp h with rfl | h
        · exact .inl List.mem_cons_self
        · exact (ih h).imp (List.mem_cons_of_mem b) fun ⟨c, hc, e⟩ =>
            ⟨c, List.mem_cons_of_mem b hc, e⟩

/-- A write that adds edges to ids that are there. -/
theorem EdgesKnown.getMut (hg : EdgesKnown g.edges) {id : NodeId} {f : TaskNode → TaskNode}
    (h : g.getMut id f = some g') (hid : ∀ n, (f n).id = n.id)
    (hf : ∀ n, ∀ d ∈ (f n).dependsOn, d ∈ n.dependsOn ∨ d ∈ g.ids) : EdgesKnown g'.edges := by
  rw [edgesKnown_iff] at hg ⊢
  intro n hn d hd
  rw [getMut_ids h hid]
  rw [getMut_nodes h] at hn
  rcases mem_updateFirst hn with hn | ⟨m, hm, rfl⟩
  · exact hg n hn d hd
  · exact (hf m d hd).elim (hg m hm d) fun hknown => hknown

theorem EdgesKnown.pushAll (hg : EdgesKnown g.edges) {l : List TaskNode}
    (hl : ∀ n ∈ l, ∀ d ∈ n.dependsOn, d ∈ l.map (·.id) ∨ d ∈ g.ids) :
    EdgesKnown (g.pushAll l).edges := by
  rw [edgesKnown_iff] at hg ⊢
  intro n hn d hd
  rw [TaskGraph.pushAll_ids, List.mem_append]
  rcases List.mem_append.mp hn with hn | hn
  · exact .inl (hg n hn d hd)
  · exact (hl n hn d hd).symm

/-- New nodes with checked dependencies. -/
theorem EdgesKnown.specNodes (hg : EdgesKnown g.edges) {specs : List NodeSpec} {p : Option NodeId}
    {o : NodeOrigin}
    (hdeps : ∀ spec ∈ specs, ∀ d ∈ spec.dependsOn, d ∈ specs.map NodeSpec.nodeId ∨ d ∈ g.ids) :
    EdgesKnown (g.pushAll (specNodes specs p o)).edges := by
  refine hg.pushAll fun n hn d hd => ?_
  obtain ⟨spec, hspec, rfl⟩ := List.mem_map.mp hn
  rw [Dag.specNodes, List.map_map]
  exact hdeps spec hspec d (mem_dedupDeps.mp hd)

theorem mem_widenRootGate {ids : List NodeId} {n : TaskNode} {d : NodeId} :
    d ∈ (widenRootGate ids n).dependsOn ↔ d ∈ n.dependsOn ∨ d ∈ ids := by
  rw [← mem_extendDeps]
  simp only [widenRootGate]
  split <;> rfl

theorem rootNodes_ids {d : NodeId} (hd : d ∈ (rootNodes g).map (·.id)) : d ∈ g.ids := by
  obtain ⟨n, hn, rfl⟩ := List.mem_map.mp hd
  exact TaskGraph.id_mem_ids (List.mem_of_mem_filter hn)

theorem closed_ensureRootGate (hg : EdgesKnown g.edges) : EdgesKnown (ensureRootGate g).edges := by
  simp only [ensureRootGate]
  split
  · exact hg
  · split
    · rename_i gate _
      cases h : g.getMut gate.id (widenRootGate ((rootNodes g).map (·.id))) with
      | none => exact hg
      | some g' =>
          exact hg.getMut h (fun n => (widenRootGate_same _ n).id) fun n d hd =>
            (mem_widenRootGate.mp hd).imp_right rootNodes_ids
    · exact hg.pushAll fun n hn d hd => by
        obtain rfl := List.mem_singleton.mp hn
        exact .inr (rootNodes_ids hd)

theorem closed_refreshTop (hg : EdgesKnown g.edges) : EdgesKnown (refreshTop g).edges := by
  unfold refreshTop
  split
  · exact closed_ensureRootGate hg
  · exact hg

/-! ### Calls -/

/-- An error leaves the graph. -/
theorem EdgesKnown.commit {α : Type} (hg : EdgesKnown g.edges) {r : Except DagError (α × TaskGraph)}
    (h : ∀ a g', r = .ok (a, g') → EdgesKnown g'.edges) : EdgesKnown (Dag.commit g r).2.edges := by
  rcases r with e | ⟨a, g'⟩
  · exact hg
  · exact h a g' rfl

theorem closed_seed (hg : EdgesKnown g.edges) (specs : List NodeSpec) :
    EdgesKnown (seed g specs).2.edges := by
  refine hg.commit fun _ g' h => ?_
  obtain ⟨kept, hkept, hdeps, -, rfl, -⟩ := seed_eq_ok.mp (commit_eq_ok.mpr h)
  exact closed_refreshTop (hg.specNodes (unheld_newSpecs (collapsed_nodeIds hkept).1 hdeps).deps)

theorem closed_expandNode (hg : EdgesKnown g.edges) (id : NodeId) (actor : String)
    (children : List NodeSpec) : EdgesKnown (expandNode g id actor children).2.edges := by
  refine hg.commit fun out g' h => ?_
  simp only [bind_eq_ok, okOr_eq_ok, ensure_eq_ok, pure, Except.pure, Except.ok.injEq,
    Prod.mk.injEq, pushSpecs_eq_pushAll] at h
  obtain ⟨n, -, _, -, _, -, _, -, _, -, childIds, hids, _, hdeps, staged, hmut, _, -, -, rfl⟩ := h
  obtain ⟨rfl, hnew⟩ := newSpecs_of_eq_ok hids hdeps
  have hpushed : EdgesKnown (g.pushAll (specNodes children (some id) .expand)).edges :=
    hg.specNodes hnew.deps
  have hchildren : ∀ d ∈ children.map NodeSpec.nodeId,
      d ∈ (g.pushAll (specNodes children (some id) .expand)).ids := fun d hd => by
    rw [TaskGraph.pushAll_ids, specNodes, List.map_map]
    exact List.mem_append_right _ hd
  by_cases hgates : (g.pushAll (specNodes children (some id) .expand)).mode.requiresGates = true
  · simp only [hgates, if_true] at hmut
    refine (hpushed.pushAll fun n hn d hd => ?_).getMut hmut (flipComposite_id _)
      fun n d hd => (mem_extendDeps.mp hd).imp_right fun hd => ?_
    · obtain rfl := List.mem_singleton.mp hn
      exact .inr (hchildren d hd)
    · rw [TaskGraph.pushAll_ids]
      rcases List.mem_append.mp hd with hd | hd
      · exact List.mem_append_left _ (hchildren d hd)
      · exact List.mem_append_right _ hd
  · simp only [hgates] at hmut
    exact hpushed.getMut hmut (flipComposite_id _) fun n d hd =>
      (mem_extendDeps.mp hd).imp_right (hchildren d)

theorem closed_injectFromGate (hg : EdgesKnown g.edges) (id : NodeId) (actor : String)
    (newNodes : List NodeSpec) : EdgesKnown (injectFromGate g id actor newNodes).2.edges := by
  refine hg.commit fun out g' h => ?_
  simp only [bind_eq_ok, okOr_eq_ok, ensure_eq_ok, pure, Except.pure, Except.ok.injEq,
    Prod.mk.injEq, pushSpecs_eq_pushAll] at h
  obtain ⟨n, -, _, -, _, -, _, -, _, -, newIds, hids, _, hdeps, staged, hmut, _, -, -, rfl⟩ := h
  obtain ⟨rfl, hnew⟩ := newSpecs_of_eq_ok hids hdeps
  have hnewIds : ∀ d ∈ newNodes.map NodeSpec.nodeId,
      d ∈ (g.pushAll (specNodes newNodes n.parent .gap)).ids := fun d hd => by
    rw [TaskGraph.pushAll_ids, specNodes, List.map_map]
    exact List.mem_append_right _ hd
  have hstaged : EdgesKnown staged.edges := (hg.specNodes hnew.deps).getMut hmut (requeueGate_id _)
    fun n d hd => (mem_extendDeps.mp hd).imp_right (hnewIds d)
  split
  · rename_i q _
    cases hjoin : staged.getMut q (joinGaps (newNodes.map NodeSpec.nodeId)) with
    | none => exact hstaged
    | some joined =>
        refine hstaged.getMut hjoin (fun _ => rfl) fun n d hd =>
          (mem_extendDeps.mp hd).imp_right fun hd => ?_
        rw [getMut_ids hmut (requeueGate_id _)]
        exact hnewIds d hd
  · exact hstaged

theorem closed_completeNode (hg : EdgesKnown g.edges) (id : NodeId) (actor : String)
    (a : HandoffArtifact) : EdgesKnown (completeNode parse g id actor a).2.edges := by
  rcases h : completeNode parse g id actor a with ⟨e | u, g'⟩
  · have hsame : g' = g := (congrArg Prod.snd h).symm.trans (commit_error (congrArg Prod.fst h))
    exact hsame ▸ hg
  · simp only [completeNode, commit_eq_ok, bind_eq_ok, okOr_eq_ok, ensure_eq_ok, pure, Except.pure,
      Except.ok.injEq, Prod.mk.injEq] at h
    obtain ⟨n, -, _, -, _, -, _, -, _, -, staged, hmut, -, rfl⟩ := h
    exact hg.getMut hmut (fun _ => rfl) fun n d hd => .inl hd

theorem closed_dispatch (hg : EdgesKnown g.edges) (id : NodeId) (worker : String) :
    EdgesKnown (dispatch g id worker).2.edges := by
  unfold dispatch
  dsimp only
  split
  · exact hg
  · split
    · exact hg
    · rename_i g' h
      exact hg.getMut h (fun _ => rfl) fun n d hd => .inl hd

end Jcode.Dag
