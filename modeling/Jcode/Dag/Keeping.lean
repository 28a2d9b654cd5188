import Jcode.Dag.Extend

/-!
# Dag — calls on any graph

A plan that the coordinator wrote may hold one id twice, so a lifted graph need not have distinct
ids.  What is left without them: a call removes no id, and closes no cycle.

* `Op.keeps`: for one call.
-/

namespace Jcode.Dag
open Rust

variable {parse : String → Option ConfidenceLevel} {g g' : TaskGraph}

/-- Some ranking of the ids decreases along every edge between them. -/
def Ranked (edges : List (NodeId × List NodeId)) : Prop :=
  ∃ rank : NodeId → ℕ, ∀ e ∈ edges, ∀ d ∈ e.2, d ∈ edges.map Prod.fst → rank d < rank e.1

theorem cycleNodes_eq_nil_iff_ranked : g.cycleNodes = [] ↔ Ranked g.edges := by
  rw [TaskGraph.cycleNodes_eq_nil_iff]
  refine exists_congr fun rank => ?_
  rw [← TaskGraph.ids_eq_edges]
  simp only [TaskGraph.edges, List.forall_mem_map]

/-- `g'` has the ids of `g`, in order, and perhaps more; it has no cycle if `g` has none, and no id
twice if `g` has none twice. -/
structure Keeps (g g' : TaskGraph) : Prop where
  ids : g.ids <+: g'.ids
  ranked : Ranked g.edges → Ranked g'.edges
  nodup : g.ids.Nodup → g'.ids.Nodup

namespace Keeps

theorem refl (g : TaskGraph) : Keeps g g := ⟨List.prefix_refl _, id, id⟩

theorem trans {g₁ g₂ g₃ : TaskGraph} (h₁ : Keeps g₁ g₂) (h₂ : Keeps g₂ g₃) : Keeps g₁ g₃ :=
  ⟨h₁.ids.trans h₂.ids, h₂.ranked ∘ h₁.ranked, h₂.nodup ∘ h₁.nodup⟩

theorem of_edges (h : g'.edges = g.edges) : Keeps g g' := by
  have hids : g'.ids = g.ids := by rw [TaskGraph.ids_eq_edges, TaskGraph.ids_eq_edges, h]
  exact ⟨hids ▸ List.prefix_refl _, fun hg => h.symm ▸ hg, fun hg => hids.symm ▸ hg⟩

/-- What a mutation commits has been checked for cycles. -/
theorem of_commit {α : Type} {r : Except DagError (α × TaskGraph)}
    (hextends : g.ids.Nodup → Extends g (commit g r).2)
    (h : ∀ a g', r = .ok (a, g') → g.ids <+: g'.ids ∧ g'.cycleNodes = []) :
    Keeps g (commit g r).2 := by
  rcases r with e | ⟨a, g'⟩
  · exact .refl g
  · obtain ⟨hids, hcycle⟩ := h a g' rfl
    exact ⟨hids, fun _ => cycleNodes_eq_nil_iff_ranked.mp hcycle, fun hg => (hextends hg).ids_nodup⟩

end Keeps

/-! ### Writes -/

theorem getMut_nodes {id : NodeId} {f : TaskNode → TaskNode} (h : g.getMut id f = some g') :
    g'.nodes = Keyed.updateFirst (fun n => n.id == id) f g.nodes := by
  simp only [TaskGraph.getMut] at h
  split at h
  · cases h
    rfl
  · cases h

theorem getMut_ids {id : NodeId} {f : TaskNode → TaskNode} (h : g.getMut id f = some g')
    (hf : ∀ n, (f n).id = n.id) : g'.ids = g.ids := by
  rw [TaskGraph.ids, getMut_nodes h, Keyed.map_updateFirst _ hf]
  rfl

theorem getMut_edges {id : NodeId} {f : TaskNode → TaskNode}
    (h : g.getMut id f = some g') (hf : ∀ n, ((f n).id, (f n).dependsOn) = (n.id, n.dependsOn)) :
    g'.edges = g.edges := by
  rw [TaskGraph.edges, getMut_nodes h, Keyed.map_updateFirst _ hf]
  rfl

theorem ids_prefix_pushAll (l : List TaskNode) : g.ids <+: (g.pushAll l).ids := by
  rw [TaskGraph.pushAll_ids]
  exact List.prefix_append _ _

theorem ensureRootGate_ids : g.ids <+: (ensureRootGate g).ids := by
  simp only [ensureRootGate]
  split
  · exact List.prefix_refl _
  · split
    · rename_i gate _
      cases h : g.getMut gate.id (widenRootGate ((rootNodes g).map (·.id))) with
      | none => exact List.prefix_refl _
      | some g' =>
          have hids : g'.ids = g.ids := getMut_ids h fun n => (widenRootGate_same _ n).id
          exact hids ▸ List.prefix_refl _
    · exact ids_prefix_pushAll [_]

theorem refreshTop_ids : g.ids <+: (refreshTop g).ids := by
  unfold refreshTop
  split
  · exact ensureRootGate_ids
  · exact List.prefix_refl _

/-! ### Calls -/

theorem seed_keeps (specs : List NodeSpec) : Keeps g (seed g specs).2 := by
  refine .of_commit (fun hg => seed_extends hg specs) fun _ g' h => ?_
  obtain ⟨kept, -, -, -, rfl, hcycle⟩ := seed_eq_ok.mp (commit_eq_ok.mpr h)
  exact ⟨(ids_prefix_pushAll _).trans refreshTop_ids, hcycle⟩

theorem expandNode_keeps (id : NodeId) (actor : String) (children : List NodeSpec) :
    Keeps g (expandNode g id actor children).2 := by
  refine .of_commit (fun hg => expandNode_extends hg id actor children) fun out g' h => ?_
  simp only [bind_eq_ok, okOr_eq_ok, ensure_eq_ok, pure, Except.pure, Except.ok.injEq,
    Prod.mk.injEq, pushSpecs_eq_pushAll] at h
  obtain ⟨n, -, _, -, _, -, _, -, _, -, childIds, -, _, -, staged, hmut, _, hcycle, -, rfl⟩ := h
  refine ⟨?_, hcycle⟩
  rw [getMut_ids hmut (flipComposite_id _)]
  split
  · exact (ids_prefix_pushAll _).trans (ids_prefix_pushAll [_])
  · exact ids_prefix_pushAll _

theorem injectFromGate_keeps (id : NodeId) (actor : String) (newNodes : List NodeSpec) :
    Keeps g (injectFromGate g id actor newNodes).2 := by
  refine .of_commit (fun hg => injectFromGate_extends hg id actor newNodes) fun out g' h => ?_
  simp only [bind_eq_ok, okOr_eq_ok, ensure_eq_ok, pure, Except.pure, Except.ok.injEq,
    Prod.mk.injEq, pushSpecs_eq_pushAll] at h
  obtain ⟨n, -, _, -, _, -, _, -, _, -, newIds, -, _, -, staged, hmut, _, hcycle, -, rfl⟩ := h
  refine ⟨?_, hcycle⟩
  have hstaged : g.ids <+: staged.ids := by
    rw [getMut_ids hmut (requeueGate_id _)]
    exact ids_prefix_pushAll _
  split
  · rename_i q _
    cases hjoin : staged.getMut q (joinGaps newIds) with
    | none => exact hstaged
    | some joined => exact (getMut_ids hjoin fun _ => rfl).symm ▸ hstaged
  · exact hstaged

theorem completeNode_keeps (id : NodeId) (actor : String) (a : HandoffArtifact) :
    Keeps g (completeNode parse g id actor a).2 := by
  rcases h : completeNode parse g id actor a with ⟨e | u, g'⟩
  · have hsame : g' = g := (congrArg Prod.snd h).symm.trans (commit_error (congrArg Prod.fst h))
    exact hsame ▸ .refl g
  · simp only [completeNode, commit_eq_ok, bind_eq_ok, okOr_eq_ok, ensure_eq_ok, pure, Except.pure,
      Except.ok.injEq, Prod.mk.injEq] at h
    obtain ⟨n, -, _, -, _, -, _, -, _, -, staged, hmut, -, rfl⟩ := h
    exact .of_edges (getMut_edges hmut fun _ => rfl)

theorem dispatch_keeps (id : NodeId) (worker : String) : Keeps g (dispatch g id worker).2 := by
  unfold dispatch
  dsimp only
  split
  · exact .refl g
  · split
    · exact .refl g
    · rename_i g' h
      exact .of_edges (getMut_edges h fun _ => rfl)

end Jcode.Dag
