import Jcode.Dag.Seeding

/-!
# Dag — calls on any graph with distinct ids

The plan a live handler lifts was not necessarily built by the engine, so the invariant is not
there to use.  What is left without it: ids stay distinct, and old nodes keep their identity.

* `Op.extends`, `Op.applyAll_extends`: for one call, and for any number of them.
-/

namespace Jcode.Dag

variable {parse : String → Option ConfidenceLevel} {g g' : TaskGraph}

/-- `g'` has the nodes of `g`, by identity, and perhaps more. -/
structure Extends (g g' : TaskGraph) : Prop where
  ids_nodup : g'.ids.Nodup
  mode_eq : g'.mode = g.mode
  old : ∀ n ∈ g.nodes, ∃ n' ∈ g'.nodes, Same n n'

namespace Extends

theorem refl (hg : g.ids.Nodup) : Extends g g := ⟨hg, rfl, fun n hn => ⟨n, hn, .refl n⟩⟩

theorem trans {g₁ g₂ g₃ : TaskGraph} (h₁ : Extends g₁ g₂) (h₂ : Extends g₂ g₃) : Extends g₁ g₃ := by
  refine ⟨h₂.ids_nodup, h₂.mode_eq.trans h₁.mode_eq, fun n hn => ?_⟩
  obtain ⟨n₂, hn₂, hs₂⟩ := h₁.old n hn
  obtain ⟨n₃, hn₃, hs₃⟩ := h₂.old n₂ hn₂
  exact ⟨n₃, hn₃, hs₂.trans hs₃⟩

theorem modify (h : Extends g g') (id : NodeId) {f : TaskNode → TaskNode} (hf : ∀ n, Same n (f n)) :
    Extends g (g'.modify id f) := by
  refine ⟨?_, h.mode_eq, fun n hn => ?_⟩
  · rw [TaskGraph.modify_ids fun n => (hf n).id]
    exact h.ids_nodup
  · obtain ⟨n', hn', hs⟩ := h.old n hn
    refine ⟨_, List.mem_map_of_mem hn', hs.trans ?_⟩
    split
    · exact hf n'
    · exact .refl n'

theorem pushAll (h : Extends g g') {l : List TaskNode} (hl : (g'.pushAll l).ids.Nodup) :
    Extends g (g'.pushAll l) := by
  refine ⟨hl, h.mode_eq, fun n hn => ?_⟩
  obtain ⟨n', hn', hs⟩ := h.old n hn
  exact ⟨n', List.mem_append_left _ hn', hs⟩

theorem mem_ids (h : Extends g g') {id : NodeId} (hid : id ∈ g.ids) : id ∈ g'.ids := by
  obtain ⟨n, hn, rfl⟩ := TaskGraph.mem_ids.mp hid
  obtain ⟨n', hn', hs⟩ := h.old n hn
  exact TaskGraph.mem_ids.mpr ⟨n', hn', hs.id⟩

end Extends

theorem Extends.of_commit {α : Type} (hg : g.ids.Nodup) {r : Except DagError (α × TaskGraph)}
    (h : ∀ a g', r = .ok (a, g') → Extends g g') : Extends g (commit g r).2 := by
  rcases r with e | ⟨a, g'⟩
  · exact .refl hg
  · exact h a g' rfl

theorem ensureRootGate_extends (h : Extends g g') : Extends g (ensureRootGate g') := by
  rcases ensureRootGate_cases h.ids_nodup with ⟨-, e⟩ | ⟨-, r, -, e⟩ |
    ⟨-, -, gateId, content, kind, hfree, e⟩
  · rwa [e]
  · rw [e]
    exact h.modify r.id (widenRootGate_same _)
  · rw [e]
    refine h.pushAll ?_
    rw [TaskGraph.pushAll_ids]
    exact h.ids_nodup.append (List.nodup_singleton _) (by simpa [gateNode] using hfree)

theorem refreshTop_extends (h : Extends g g') : Extends g (refreshTop g') := by
  unfold refreshTop
  split
  · exact ensureRootGate_extends h
  · exact h

theorem expandNode_extends (hg : g.ids.Nodup) (id : NodeId) (actor : String)
    (children : List NodeSpec) : Extends g (expandNode g id actor children).2 := by
  refine .of_commit hg fun out g' h => ?_
  obtain ⟨n, -, -, -, -, -, hnew, -, rfl⟩ := expandNode_eq_ok hg (commit_eq_ok.mpr h)
  refine ((Extends.refl hg).modify id fun n => by constructor <;> rfl).pushAll ?_
  rw [TaskGraph.pushAll_ids, TaskGraph.modify_ids (flipComposite_id _), ← TaskGraph.pushAll_ids]
  exact expandNodes_ids_nodup hg hnew id

theorem joinGaps_same (newIds : List NodeId) (n : TaskNode) : Same n (joinGaps newIds n) :=
  ⟨rfl, rfl, rfl, rfl, rfl, rfl, rfl⟩

theorem injectFromGate_extends (hg : g.ids.Nodup) (id : NodeId) (actor : String)
    (newNodes : List NodeSpec) : Extends g (injectFromGate g id actor newNodes).2 := by
  refine .of_commit hg fun out g' h => ?_
  obtain ⟨n, -, -, -, -, hnew, -, -, rfl⟩ := injectFromGate_eq_ok hg (commit_eq_ok.mpr h)
  have hpush : Extends g ((g.modify id (requeueGate out)).pushAll
      (specNodes newNodes n.parent .gap)) := by
    refine ((Extends.refl hg).modify id fun n => by constructor <;> rfl).pushAll ?_
    rw [TaskGraph.pushAll_ids, TaskGraph.modify_ids (requeueGate_id _), ← TaskGraph.pushAll_ids]
    exact hnew.ids_nodup hg
  revert hpush
  generalize n.parent = p
  intro hpush
  cases p with
  | none => exact hpush
  | some q => exact hpush.modify q fun n => joinGaps_same out n

theorem seed_extends (hg : g.ids.Nodup) (specs : List NodeSpec) : Extends g (seed g specs).2 := by
  refine .of_commit hg fun out g' h => ?_
  obtain ⟨kept, hc, hd, -, rfl, -⟩ := seed_eq_ok.mp (commit_eq_ok.mpr h)
  refine refreshTop_extends ((Extends.refl hg).pushAll ?_)
  exact (unheld_newSpecs (collapsed_nodeIds hc).1 hd).ids_nodup hg

theorem dispatch_extends (hg : g.ids.Nodup) (id : NodeId) (worker : String) :
    Extends g (dispatch g id worker).2 := by
  cases h : dispatch g id worker with
  | mk accepted g' =>
      cases accepted with
      | false => rw [dispatch_eq_false hg h]; exact .refl hg
      | true =>
          obtain ⟨n, -, -, rfl⟩ := (dispatch_eq_true hg).mp h
          exact (Extends.refl hg).modify id fun n => ⟨rfl, rfl, rfl, rfl, rfl, rfl, rfl⟩

theorem completeNode_extends (hg : g.ids.Nodup) (id : NodeId) (actor : String)
    (a : HandoffArtifact) : Extends g (completeNode parse g id actor a).2 := by
  refine .of_commit hg fun _ g' h => ?_
  obtain ⟨n, -, -, -, -, -, rfl⟩ := completeNode_eq_ok hg (commit_eq_ok.mpr h)
  exact (Extends.refl hg).modify id fun n => ⟨rfl, rfl, rfl, rfl, rfl, rfl, rfl⟩

theorem failNode_extends (hg : g.ids.Nodup) (id : NodeId) (actor : String) :
    Extends g (failNode g id actor).2 := by
  refine .of_commit hg fun _ g' h => ?_
  obtain ⟨n, -, -, rfl⟩ := failNode_eq_ok hg (commit_eq_ok.mpr h)
  exact (Extends.refl hg).modify id fun n => ⟨rfl, rfl, rfl, rfl, rfl, rfl, rfl⟩

theorem requeueFailed_extends (hg : g.ids.Nodup) (id : NodeId) :
    Extends g (requeueFailed g id).2 := by
  refine .of_commit hg fun _ g' h => ?_
  obtain ⟨n, -, -, rfl⟩ := requeueFailed_eq_ok hg (commit_eq_ok.mpr h)
  exact (Extends.refl hg).modify id fun n => ⟨rfl, rfl, rfl, rfl, rfl, rfl, rfl⟩

/-- **A call extends any graph with distinct ids.** -/
theorem Op.extends (hg : g.ids.Nodup) (op : Op) : Extends g (op.apply parse g) := by
  cases op with
  | seed specs => exact seed_extends hg specs
  | dispatch id worker => exact dispatch_extends hg id worker
  | expandNode id actor children => exact expandNode_extends hg id actor children
  | completeNode id actor a => exact completeNode_extends hg id actor a
  | failNode id actor => exact failNode_extends hg id actor
  | injectFromGate id actor newNodes => exact injectFromGate_extends hg id actor newNodes
  | requeueFailed id => exact requeueFailed_extends hg id

theorem Op.applyAll_extends (hg : g.ids.Nodup) (ops : List Op) :
    Extends g (Op.applyAll parse g ops) := by
  induction ops generalizing g with
  | nil => exact .refl hg
  | cons op ops ih =>
      have h : Extends g (op.apply parse g) := op.extends hg
      exact h.trans (ih h.ids_nodup)

end Jcode.Dag
