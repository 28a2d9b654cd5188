import Jcode.Dag.Extend

/-!
# Dag — a running node is its worker's

A dispatch gives a node to a worker.  From then on, whatever others call, the node runs and is that
worker's, until it completes, fails, expands or injects from it itself.

* `Held.apply`: for one call.
* `dispatched_exclusive`: over any number of calls, and what each kind of call on the node returns
  in between.
-/

namespace Jcode.Dag
open Rust

variable {parse : String → Option ConfidenceLevel} {g g' : TaskGraph} {id : NodeId}
  {worker actor : String}

/-- The node `id` runs, and `worker` owns it. -/
def Held (g : TaskGraph) (id : NodeId) (worker : String) : Prop :=
  ∃ n ∈ g.nodes, n.id = id ∧ n.status = .running ∧ n.owner = some worker

/-- A call by which `worker` ends its turn on the node `id`. -/
def Op.Ends (id : NodeId) (worker : String) : Op → Prop
  | .expandNode nodeId actor _ | .completeNode nodeId actor _ | .failNode nodeId actor
  | .injectFromGate nodeId actor _ => nodeId = id ∧ actor = worker
  | .seed _ | .dispatch _ _ | .requeueFailed _ => False

theorem Held.get (h : Held g id worker) (hg : g.ids.Nodup) :
    ∃ n, g.get id = some n ∧ n.status = .running ∧ n.owner = some worker := by
  obtain ⟨n, hn, rfl, hrun, howner⟩ := h
  exact ⟨n, TaskGraph.get_self hg hn, hrun, howner⟩

/-! ### Writes -/

/-- A write to another node. -/
theorem Held.modify_ne (h : Held g id worker) {other : NodeId} (hne : other ≠ id)
    (f : TaskNode → TaskNode) : Held (g.modify other f) id worker := by
  obtain ⟨n, hn, rfl, hrest⟩ := h
  exact ⟨n, List.mem_map.mpr ⟨n, hn, if_neg hne.symm⟩, rfl, hrest⟩

/-- A write that leaves a running node to its owner. -/
theorem Held.modify_kept (h : Held g id worker) (other : NodeId) {f : TaskNode → TaskNode}
    (hid : ∀ n, (f n).id = n.id)
    (hf : ∀ n, n.status = .running → (f n).status = .running ∧ (f n).owner = n.owner) :
    Held (g.modify other f) id worker := by
  obtain ⟨n, hn, rfl, hrun, howner⟩ := h
  refine ⟨_, List.mem_map_of_mem hn, ?_⟩
  split
  · obtain ⟨hrun', howner'⟩ := hf n hrun
    exact ⟨hid n, hrun', howner'.trans howner⟩
  · exact ⟨rfl, hrun, howner⟩

theorem Held.pushAll (h : Held g id worker) (l : List TaskNode) : Held (g.pushAll l) id worker := by
  obtain ⟨n, hn, hrest⟩ := h
  exact ⟨n, List.mem_append_left l hn, hrest⟩

/-- A root gate that is widened while it runs goes on running. -/
theorem widenRootGate_running (ids : List NodeId) (n : TaskNode) (h : n.status = .running) :
    (widenRootGate ids n).status = .running ∧ (widenRootGate ids n).owner = n.owner := by
  simp only [widenRootGate]
  rw [if_neg (by simp [TaskNode.isTerminal, h])]
  exact ⟨h, rfl⟩

theorem Held.refreshTop (h : Held g id worker) (hg : g.ids.Nodup) :
    Held (Dag.refreshTop g) id worker := by
  unfold Dag.refreshTop
  split
  · rcases ensureRootGate_cases hg with ⟨-, e⟩ | ⟨-, r, -, e⟩ | ⟨-, -, gateId, content, kind, -, e⟩
    · rwa [e]
    · rw [e]
      exact h.modify_kept r.id (fun n => (widenRootGate_same _ n).id) (widenRootGate_running _)
    · rw [e]
      exact h.pushAll _
  · exact h

/-! ### Refusals -/

section Refused
variable {n : TaskNode}

/-- Nobody but its owner completes, fails, expands or injects from a node. -/
theorem refused_of_owner_ne (hn : g.get id = some n) (howner : n.owner ≠ some actor) :
    (∀ children, expandNode g id actor children = (.error (.notOwner id actor), g)) ∧
    (∀ a, completeNode parse g id actor a = (.error (.notOwner id actor), g)) ∧
    failNode g id actor = (.error (.notOwner id actor), g) ∧
    ∀ newNodes, injectFromGate g id actor newNodes = (.error (.notOwner id actor), g) := by
  refine ⟨fun children => ?_, fun a => ?_, ?_, fun newNodes => ?_⟩
  · simp [expandNode, hn, okOr, ensure, howner, commit, bind, Except.bind]
  · simp [completeNode, hn, okOr, ensure, howner, commit, bind, Except.bind]
  · simp [failNode, hn, okOr, ensure, howner, commit, bind, Except.bind]
  · simp [injectFromGate, hn, okOr, ensure, howner, commit, bind, Except.bind]

/-- A running node is not dispatched again. -/
theorem dispatch_running (hn : g.get id = some n) (hrun : n.status = .running) (worker : String) :
    dispatch g id worker = (false, g) := by
  simp [dispatch, hn, isReady, hrun]

theorem requeueFailed_running (hn : g.get id = some n) (hrun : n.status = .running) :
    requeueFailed g id = (.error (.invalidState id .running), g) := by
  simp [requeueFailed, hn, okOr, ensure, hrun, commit, bind, Except.bind]

end Refused

/-! ### Calls -/

/-- A call on the node by someone else leaves the graph. -/
theorem Held.refused {p : String → Option ConfidenceLevel} (h : Held g id worker)
    (hg : g.ids.Nodup) (hne : actor ≠ worker) :
    (∀ children, expandNode g id actor children = (.error (.notOwner id actor), g)) ∧
    (∀ a, completeNode p g id actor a = (.error (.notOwner id actor), g)) ∧
    failNode g id actor = (.error (.notOwner id actor), g) ∧
    ∀ newNodes, injectFromGate g id actor newNodes = (.error (.notOwner id actor), g) := by
  obtain ⟨n, hn, -, howner⟩ := h.get hg
  exact refused_of_owner_ne hn fun h => hne (Option.some.inj (h.symm.trans howner))

/-- What a committed mutation keeps. -/
theorem Held.commit {α : Type} (h : Held g id worker) {r : Except DagError (α × TaskGraph)}
    (hr : ∀ a g', r = .ok (a, g') → Held g' id worker) : Held (Dag.commit g r).2 id worker := by
  rcases r with e | ⟨a, g'⟩
  · exact h
  · exact hr a g' rfl

theorem Held.seed (h : Held g id worker) (hg : g.ids.Nodup) (specs : List NodeSpec) :
    Held (Dag.seed g specs).2 id worker := by
  refine h.commit fun _ g' hok => ?_
  obtain ⟨kept, hkept, hdeps, -, rfl, -⟩ := seed_eq_ok.mp (commit_eq_ok.mpr hok)
  exact (h.pushAll _).refreshTop ((unheld_newSpecs (collapsed_nodeIds hkept).1 hdeps).ids_nodup hg)

theorem Held.dispatch (h : Held g id worker) (hg : g.ids.Nodup) (nodeId : NodeId)
    (other : String) : Held (Dag.dispatch g nodeId other).2 id worker := by
  cases hd : Dag.dispatch g nodeId other with
  | mk accepted g' =>
      cases accepted with
      | false => rw [dispatch_eq_false hg hd]; exact h
      | true =>
          obtain ⟨m, hm, hready, rfl⟩ := (dispatch_eq_true hg).mp hd
          refine h.modify_ne (fun heq => ?_) _
          obtain ⟨n, hn, hrun, -⟩ := h.get hg
          obtain rfl : m = n := Option.some.inj (hm.symm.trans (heq ▸ hn))
          simp [isReady, hrun] at hready

theorem Held.requeueFailed (h : Held g id worker) (hg : g.ids.Nodup) (nodeId : NodeId) :
    Held (Dag.requeueFailed g nodeId).2 id worker := by
  refine h.commit fun _ g' hok => ?_
  obtain ⟨m, hm, hfailed, rfl⟩ := requeueFailed_eq_ok hg (commit_eq_ok.mpr hok)
  refine h.modify_ne (fun heq => ?_) _
  obtain ⟨n, hn, hrun, -⟩ := h.get hg
  obtain rfl : m = n := Option.some.inj (hm.symm.trans (heq ▸ hn))
  rw [hrun] at hfailed
  cases hfailed

theorem Held.expandNode_ne (h : Held g id worker) (hg : g.ids.Nodup) {nodeId : NodeId}
    (hne : nodeId ≠ id) (actor : String) (children : List NodeSpec) :
    Held (expandNode g nodeId actor children).2 id worker := by
  refine h.commit fun _ g' hok => ?_
  obtain ⟨n, -, -, -, -, -, -, -, rfl⟩ := expandNode_eq_ok hg (commit_eq_ok.mpr hok)
  exact (h.modify_ne hne _).pushAll _

theorem Held.completeNode_ne (h : Held g id worker) (hg : g.ids.Nodup) {nodeId : NodeId}
    (hne : nodeId ≠ id) (actor : String) (a : HandoffArtifact) :
    Held (completeNode parse g nodeId actor a).2 id worker := by
  refine h.commit fun _ g' hok => ?_
  obtain ⟨n, -, -, -, -, -, rfl⟩ := completeNode_eq_ok hg (commit_eq_ok.mpr hok)
  exact h.modify_ne hne _

theorem Held.failNode_ne (h : Held g id worker) (hg : g.ids.Nodup) {nodeId : NodeId}
    (hne : nodeId ≠ id) (actor : String) : Held (failNode g nodeId actor).2 id worker := by
  refine h.commit fun _ g' hok => ?_
  obtain ⟨n, -, -, rfl⟩ := failNode_eq_ok hg (commit_eq_ok.mpr hok)
  exact h.modify_ne hne _

theorem Held.injectFromGate_ne (h : Held g id worker) (hg : g.ids.Nodup) {gateId : NodeId}
    (hne : gateId ≠ id) (actor : String) (newNodes : List NodeSpec) :
    Held (injectFromGate g gateId actor newNodes).2 id worker := by
  refine h.commit fun newIds g' hok => ?_
  obtain ⟨n, -, -, -, -, -, -, -, rfl⟩ := injectFromGate_eq_ok hg (commit_eq_ok.mpr hok)
  have hpush := (h.modify_ne hne (requeueGate newIds)).pushAll (specNodes newNodes n.parent .gap)
  -- the composite the gate guards waits for the new nodes, in whatever state it is
  cases hp : n.parent with
  | none => rw [hp] at hpush; exact hpush
  | some parent =>
      rw [hp] at hpush
      exact hpush.modify_kept (f := joinGaps newIds) parent (fun _ => rfl) fun _ hrun => ⟨hrun, rfl⟩

/-- **One call leaves a running node to its worker**, unless the worker ends its turn by it. -/
theorem Held.apply (h : Held g id worker) (hg : g.ids.Nodup) {op : Op} (hop : ¬ op.Ends id worker) :
    Held (op.apply parse g) id worker := by
  have hother : ∀ {nodeId : NodeId} {actor : String}, ¬ (nodeId = id ∧ actor = worker) →
      nodeId ≠ id ∨ nodeId = id ∧ actor ≠ worker := fun h => by tauto
  cases op with
  | seed specs => exact h.seed hg specs
  | dispatch nodeId other => exact h.dispatch hg nodeId other
  | requeueFailed nodeId => exact h.requeueFailed hg nodeId
  | expandNode nodeId actor children =>
      rcases hother hop with hne | ⟨rfl, hne⟩
      · exact h.expandNode_ne hg hne actor children
      · rw [Op.apply, (h.refused (p := parse) hg hne).1 children]
        exact h
  | completeNode nodeId actor a =>
      rcases hother hop with hne | ⟨rfl, hne⟩
      · exact h.completeNode_ne hg hne actor a
      · rw [Op.apply, (h.refused (p := parse) hg hne).2.1 a]
        exact h
  | failNode nodeId actor =>
      rcases hother hop with hne | ⟨rfl, hne⟩
      · exact h.failNode_ne hg hne actor
      · rw [Op.apply, (h.refused (p := parse) hg hne).2.2.1]
        exact h
  | injectFromGate gateId actor newNodes =>
      rcases hother hop with hne | ⟨rfl, hne⟩
      · exact h.injectFromGate_ne hg hne actor newNodes
      · rw [Op.apply, (h.refused (p := parse) hg hne).2.2.2 newNodes]
        exact h

theorem Held.applyAll (h : Held g id worker) (hg : g.ids.Nodup) {ops : List Op}
    (hops : ∀ op ∈ ops, ¬ op.Ends id worker) : Held (Op.applyAll parse g ops) id worker := by
  induction ops generalizing g with
  | nil => exact h
  | cons op ops ih =>
      obtain ⟨hop, hops⟩ := List.forall_mem_cons.mp hops
      exact ih (h.apply hg hop) (Op.extends hg op).ids_nodup hops

/-- **A dispatched node is its worker's alone.**  After an accepted dispatch and any calls by which
the worker does not end its turn on the node, it still runs for that worker: nobody else can act on
it or get it, and the worker's own call is refused for what it carries only. -/
theorem dispatched_exclusive (hg : g.ids.Nodup) (h : dispatch g id worker = (true, g'))
    (ops : List Op) (hops : ∀ op ∈ ops, ¬ op.Ends id worker) :
    Held (Op.applyAll parse g' ops) id worker ∧
    (∀ actor, actor ≠ worker →
      (∀ children, expandNode (Op.applyAll parse g' ops) id actor children =
        (.error (.notOwner id actor), Op.applyAll parse g' ops)) ∧
      (∀ a, completeNode parse (Op.applyAll parse g' ops) id actor a =
        (.error (.notOwner id actor), Op.applyAll parse g' ops)) ∧
      failNode (Op.applyAll parse g' ops) id actor =
        (.error (.notOwner id actor), Op.applyAll parse g' ops) ∧
      ∀ newNodes, injectFromGate (Op.applyAll parse g' ops) id actor newNodes =
        (.error (.notOwner id actor), Op.applyAll parse g' ops)) ∧
    (∀ other, dispatch (Op.applyAll parse g' ops) id other = (false, Op.applyAll parse g' ops)) ∧
    requeueFailed (Op.applyAll parse g' ops) id =
      (.error (.invalidState id .running), Op.applyAll parse g' ops) ∧
    (failNode (Op.applyAll parse g' ops) id worker).1 = .ok () := by
  have hext : Extends g g' := by
    have hd := dispatch_extends hg id worker
    rwa [h] at hd
  have hstart : Held g' id worker := by
    obtain ⟨n, hn, -, rfl⟩ := (dispatch_eq_true hg).mp h
    obtain ⟨hmem, hid⟩ := TaskGraph.mem_of_get hn
    exact ⟨_, List.mem_map_of_mem hmem, by rw [if_pos hid]; exact ⟨hid, rfl, rfl⟩⟩
  have hids : (Op.applyAll parse g' ops).ids.Nodup :=
    (Op.applyAll_extends hext.ids_nodup ops).ids_nodup
  have hheld : Held (Op.applyAll parse g' ops) id worker := hstart.applyAll hext.ids_nodup hops
  obtain ⟨n, hn, hrun, howner⟩ := hheld.get hids
  refine ⟨hheld, fun actor hne => hheld.refused hids hne, fun other => dispatch_running hn hrun other,
    requeueFailed_running hn hrun, ?_⟩
  simp [failNode, hn, okOr, ensure, howner, hrun, commit, bind, Except.bind,
    TaskGraph.getMut_of_mem hids (TaskGraph.mem_ids_of_get hn), pure, Except.pure]

/-- While `w` runs `c`, others fail it, retry it, seed more work and fail to get it. -/
def othersCalls : List Op :=
  [.failNode "c" "v", .requeueFailed "c", .dispatch "c" "v",
   .seed [{ id := some "b", content := "read the tests", kind := .explore }],
   .dispatch "b" "v", .completeNode "c" "v" (explored "nothing to do")]

theorem dispatched_exclusive_othersCalls :
    dispatch (deepRun 3) "c" "w" = (true, deepRun 4) ∧
    Held (Op.applyAll rungByName (deepRun 4) othersCalls) "c" "w" ∧
    (Op.applyAll rungByName (deepRun 4) othersCalls).ids = ["a", "plan::gate", "c", "a::gate", "b"] := by
  have hd : dispatch (deepRun 3) "c" "w" = (true, deepRun 4) := by rfl
  refine ⟨hd, (dispatched_exclusive (by decide) hd othersCalls fun op hop => ?_).1, by decide⟩
  simp only [othersCalls, List.mem_cons, List.not_mem_nil, or_false] at hop
  rcases hop with rfl | rfl | rfl | rfl | rfl | rfl <;> simp [Op.Ends]

end Jcode.Dag
