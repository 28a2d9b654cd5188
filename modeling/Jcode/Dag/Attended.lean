import Jcode.Dag.Ownership
import Jcode.Dag.Preserve

/-!
# Dag — every node has a name, and every running node a worker

The ids of the specs are checked not to be blank, the engine's own are not; and a node only starts
to run when a dispatch gives it to a worker.  So any node can be named in an artifact, and there is
somebody to end the turn of any node that runs.

* `Attended.apply`: every call keeps a graph attended.
* `Reachable.attended`: so it is, in every run.
-/

namespace Jcode.Dag
open Rust

variable {parse : String → Option ConfidenceLevel} {g g' : TaskGraph}

/-- It has a name, and a worker while it runs. -/
structure TaskNode.Attended (n : TaskNode) : Prop where
  named : n.id ≠ ""
  owned : n.status = .running → n.owner ≠ none

def Attended (g : TaskGraph) : Prop := ∀ n ∈ g.nodes, n.Attended

/-! ### Writes -/

/-- A node that does not run needs its name only. -/
theorem TaskNode.Attended.of_idle {n n' : TaskNode} (h : n.Attended) (hid : n'.id = n.id)
    (hs : n'.status ≠ .running) : n'.Attended where
  named := hid ▸ h.named
  owned hrun := absurd hrun hs

theorem Attended.modify (h : Attended g) (id : NodeId) {f : TaskNode → TaskNode}
    (hf : ∀ n, n.Attended → (f n).Attended) : Attended (g.modify id f) := by
  intro n' hn'
  obtain ⟨n, hn, rfl⟩ := List.mem_map.mp hn'
  split
  · exact hf n (h n hn)
  · exact h n hn

theorem Attended.pushAll (h : Attended g) {l : List TaskNode} (hl : ∀ n ∈ l, n.Attended) :
    Attended (g.pushAll l) := by
  intro n hn
  rcases List.mem_append.mp hn with hn | hn
  · exact h n hn
  · exact hl n hn

theorem widenRootGate_attended (ids : List NodeId) {n : TaskNode} (h : n.Attended) :
    (widenRootGate ids n).Attended where
  named := (widenRootGate_same ids n).id ▸ h.named
  owned := by
    simp only [widenRootGate]
    split
    · intro hrun
      cases hrun
    · exact h.owned

theorem Attended.commit {α : Type} (h : Attended g) {r : Except DagError (α × TaskGraph)}
    (hr : ∀ a g', r = .ok (a, g') → Attended g') : Attended (Dag.commit g r).2 := by
  rcases r with e | ⟨a, g'⟩
  · exact h
  · exact hr a g' rfl

/-! ### New nodes -/

theorem NodeSpec.Named.ne_empty {spec : NodeSpec} (h : spec.Named) : spec.nodeId ≠ "" := by
  intro he
  have hblank := h.2
  rw [he] at hblank
  exact absurd hblank (by decide)

theorem newNodeIds_named {op : String} {specs : List NodeSpec} {seen ids : List NodeId}
    (h : newNodeIds g op seen specs = .ok ids) : ∀ spec ∈ specs, spec.Named := by
  induction specs generalizing seen with
  | nil => simp
  | cons spec specs ih =>
      simp only [newNodeIds, bind_eq_ok, validatedSpecId_iff] at h
      obtain ⟨_, ⟨hnamed, -⟩, _, -, hrest⟩ := h
      exact List.forall_mem_cons.mpr ⟨hnamed, ih hrest⟩

theorem specNodes_attended {specs : List NodeSpec} {p : Option NodeId} {o : NodeOrigin}
    (h : ∀ spec ∈ specs, spec.Named) : ∀ n ∈ specNodes specs p o, n.Attended := by
  intro n hn
  obtain ⟨spec, hspec, rfl⟩ := List.mem_map.mp hn
  exact ⟨(h spec hspec).ne_empty, fun hrun => by cases hrun⟩

theorem gateIdFrom_ne {base : String} (hbase : base ≠ "") (fuel n : ℕ) :
    gateIdFrom g base fuel n ≠ "" := by
  induction fuel generalizing n with
  | zero => exact fun he => hbase (String.append_eq_empty_iff.mp he).1
  | succ fuel ih =>
      rw [gateIdFrom]
      split
      · exact ih (n + 1)
      · exact fun he => hbase (String.append_eq_empty_iff.mp he).1

theorem uniqueGateId_ne (g : TaskGraph) (id : NodeId) : uniqueGateId g id ≠ "" := by
  have hbase : s!"{id}::gate" ≠ "" := fun he =>
    absurd (String.append_eq_empty_iff.mp he).2 (by decide)
  simp only [uniqueGateId]
  split
  · exact gateIdFrom_ne hbase _ _
  · exact hbase

theorem gateNode_attended {id : NodeId} (hid : id ≠ "") (content : String) (kind : NodeKind)
    (p : Option NodeId) (deps : List NodeId) : (gateNode id content kind p deps).Attended :=
  ⟨hid, fun hrun => by cases hrun⟩

theorem Attended.ensureRootGate (h : Attended g) (hg : g.ids.Nodup) :
    Attended (Dag.ensureRootGate g) := by
  simp only [Dag.ensureRootGate]
  split
  · exact h
  · split
    · rw [TaskGraph.getMut_getD hg]
      exact h.modify _ fun _ hn => widenRootGate_attended _ hn
    · exact h.pushAll (List.forall_mem_singleton.mpr
        (gateNode_attended (uniqueGateId_ne g "plan") _ _ _ _))

theorem expandGates_attended (id : NodeId) (children : List NodeSpec) :
    ∀ n ∈ expandGates g id children, n.Attended := by
  simp only [expandGates]
  split
  · exact List.forall_mem_singleton.mpr (gateNode_attended (uniqueGateId_ne _ id) _ _ _ _)
  · simp

/-! ### Calls -/

theorem Attended.seed (h : Attended g) (hg : g.ids.Nodup) (specs : List NodeSpec) :
    Attended (Dag.seed g specs).2 := by
  refine h.commit fun _ g' hok => ?_
  obtain ⟨kept, hkept, hdeps, -, rfl, -⟩ := seed_eq_ok.mp (commit_eq_ok.mpr hok)
  obtain ⟨hnodup, hsub, hnamed⟩ := collapsed_nodeIds hkept
  have hpushed : Attended (g.pushAll (seedNodes g kept)) :=
    h.pushAll (specNodes_attended fun spec hspec => (hnamed spec (hsub spec (mem_unheld.mp hspec).1)).1)
  unfold refreshTop
  split
  · exact hpushed.ensureRootGate ((unheld_newSpecs hnodup hdeps).ids_nodup hg)
  · exact hpushed

theorem Attended.dispatch (h : Attended g) (hg : g.ids.Nodup) (id : NodeId) (worker : String) :
    Attended (Dag.dispatch g id worker).2 := by
  cases hd : Dag.dispatch g id worker with
  | mk accepted g' =>
      cases accepted with
      | false => rw [dispatch_eq_false hg hd]; exact h
      | true =>
          obtain ⟨n, -, -, rfl⟩ := (dispatch_eq_true hg).mp hd
          exact h.modify id fun n hn => ⟨hn.named, fun _ => Option.some_ne_none worker⟩

theorem Attended.expandNode (h : Attended g) (hg : g.ids.Nodup) (id : NodeId) (actor : String)
    (children : List NodeSpec) : Attended (Dag.expandNode g id actor children).2 := by
  refine h.commit fun out g' hok => ?_
  have hnamed : ∀ spec ∈ children, spec.Named := by
    simp only [bind_eq_ok] at hok
    obtain ⟨_, -, _, -, _, -, _, -, _, -, _, hids, -⟩ := hok
    exact newNodeIds_named hids
  obtain ⟨n, -, -, -, -, -, -, -, rfl⟩ := expandNode_eq_ok hg (commit_eq_ok.mpr hok)
  refine (h.modify id fun n hn => hn.of_idle (flipComposite_id _ n) (by simp [flipComposite])).pushAll
    (List.forall_mem_append.mpr ⟨specNodes_attended hnamed, expandGates_attended id children⟩)

theorem Attended.injectFromGate (h : Attended g) (hg : g.ids.Nodup) (id : NodeId) (actor : String)
    (newNodes : List NodeSpec) : Attended (Dag.injectFromGate g id actor newNodes).2 := by
  refine h.commit fun newIds g' hok => ?_
  have hnamed : ∀ spec ∈ newNodes, spec.Named := by
    simp only [bind_eq_ok] at hok
    obtain ⟨_, -, _, -, _, -, _, -, _, -, _, hids, -⟩ := hok
    exact newNodeIds_named hids
  obtain ⟨n, -, -, -, -, -, -, -, rfl⟩ := injectFromGate_eq_ok hg (commit_eq_ok.mpr hok)
  have hpushed := (h.modify id fun n hn =>
    hn.of_idle (requeueGate_id newIds n) (by simp [requeueGate])).pushAll
      (specNodes_attended (p := n.parent) (o := .gap) hnamed)
  cases hp : n.parent with
  | none => rw [hp] at hpushed; exact hpushed
  | some parent =>
      rw [hp] at hpushed
      exact hpushed.modify parent fun n hn => ⟨hn.named, hn.owned⟩

theorem Attended.completeNode (h : Attended g) (hg : g.ids.Nodup) (id : NodeId) (actor : String)
    (a : HandoffArtifact) : Attended (Dag.completeNode parse g id actor a).2 := by
  refine h.commit fun _ g' hok => ?_
  obtain ⟨n, -, -, -, -, -, rfl⟩ := completeNode_eq_ok hg (commit_eq_ok.mpr hok)
  exact h.modify id fun n hn => hn.of_idle rfl (by simp)

theorem Attended.failNode (h : Attended g) (hg : g.ids.Nodup) (id : NodeId) (actor : String) :
    Attended (Dag.failNode g id actor).2 := by
  refine h.commit fun _ g' hok => ?_
  obtain ⟨n, -, -, rfl⟩ := failNode_eq_ok hg (commit_eq_ok.mpr hok)
  exact h.modify id fun n hn => hn.of_idle rfl (by simp)

theorem Attended.requeueFailed (h : Attended g) (hg : g.ids.Nodup) (id : NodeId) :
    Attended (Dag.requeueFailed g id).2 := by
  refine h.commit fun _ g' hok => ?_
  obtain ⟨n, -, -, rfl⟩ := requeueFailed_eq_ok hg (commit_eq_ok.mpr hok)
  exact h.modify id fun n hn => hn.of_idle rfl (by simp)

/-- **Every call keeps a graph attended.** -/
theorem Attended.apply (h : Attended g) (hg : g.ids.Nodup) (op : Op) :
    Attended (op.apply parse g) := by
  cases op with
  | seed specs => exact h.seed hg specs
  | dispatch id worker => exact h.dispatch hg id worker
  | expandNode id actor children => exact h.expandNode hg id actor children
  | completeNode id actor a => exact h.completeNode hg id actor a
  | failNode id actor => exact h.failNode hg id actor
  | injectFromGate id actor newNodes => exact h.injectFromGate hg id actor newNodes
  | requeueFailed id => exact h.requeueFailed hg id

theorem Reachable.attended {mode : Mode} (h : Reachable parse mode g) : Attended g := by
  have hnew : Attended (TaskGraph.new mode) := by
    intro n hn
    cases hn
  refine (h.preserves (P := fun g => Inv g ∧ Attended g) (fun g g' hg hs => ?_)
    ⟨inv_new mode, hnew⟩).2
  obtain ⟨op, rfl⟩ := hs
  exact ⟨(Op.effect hg.1 op).inv hg.1, hg.2.apply hg.1.wf.ids_nodup op⟩

end Jcode.Dag
