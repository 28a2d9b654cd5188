import Jcode.Dag.Invariant

/-!
# Dag — what a step does

Every call leaves the graph in one of three ways (`Effect`): unchanged; with one node moved to its
next status (`Move`); or grown by new work at one level of the tree, whose gate is created or
re-opened and whose composite waits for all of it (`Growth`).  The invariants are proved from
these, not from the operations.
-/

namespace Jcode.Dag
open Rust

/-- The fields no operation changes. -/
structure Same (n n' : TaskNode) : Prop where
  id : n'.id = n.id
  content : n'.content = n.content
  kind : n'.kind = n.kind
  parent : n'.parent = n.parent
  isGate : n'.isGate = n.isGate
  priority : n'.priority = n.priority
  origin : n'.origin = n.origin

theorem Same.refl (n : TaskNode) : Same n n := by constructor <;> rfl

theorem Same.trans {n₁ n₂ n₃ : TaskNode} (h₁ : Same n₁ n₂) (h₂ : Same n₂ n₃) : Same n₁ n₃ where
  id := h₂.id.trans h₁.id
  content := h₂.content.trans h₁.content
  kind := h₂.kind.trans h₁.kind
  parent := h₂.parent.trans h₁.parent
  isGate := h₂.isGate.trans h₁.isGate
  priority := h₂.priority.trans h₁.priority
  origin := h₂.origin.trans h₁.origin

section Parse
variable (parse : String → Option ConfidenceLevel)

/-- A deep-mode artifact that is not thin. -/
structure ThickArtifact (a : HandoffArtifact) : Prop where
  findings : (trim a.findings).isEmpty = false
  unchecked : a.whatIDidNotCheck ≠ []
  confidence : a.confidenceLevel parse ≠ none

/-- A gate's artifact accounts for its scope, and the scope is finished. -/
structure GatePasses (g : TaskGraph) (gate : TaskNode) (a : HandoffArtifact) : Prop where
  scope_done : ∀ m ∈ gateAuditScope g gate, m.status = .done
  doubts : ∀ m ∈ gateAuditScope g gate, nodeConfidence parse m ≠ some .high →
    addressed a m.id = true
  coverage : (gateAuditScope g gate).length ≤ gateCoverageEnumerationCap →
    ∀ m ∈ gateAuditScope g gate, addressed a m.id = true

/-- The next status of one node. -/
inductive Move (g : TaskGraph) (n : TaskNode) : TaskNode → Prop where
  | start (worker : String) : n.status = .queued → DepsDone g n →
      Move g n { n with owner := some worker, status := .running }
  | finish (a : HandoffArtifact) : n.status = .running →
      (g.mode = .deep → n.isGate = false → ThickArtifact parse a) →
      (g.mode = .deep → n.isGate = true → GatePasses parse g n a) →
      Move g n { n with status := .done, output := some a }
  | fail : n.status = .running → Move g n { n with status := .failed }
  | retry : n.status = .failed → Move g n { n with status := .queued, owner := none }

/-- A gate whose scope takes in `new`. -/
structure Reopened (p : Option NodeId) (new : List TaskNode) (n n' : TaskNode) : Prop where
  expanded : n'.expanded = n.expanded
  deps_nodup : n.dependsOn.Nodup → n'.dependsOn.Nodup
  mem_deps : ∀ d, d ∈ n'.dependsOn ↔ d ∈ n.dependsOn ∨ d ∈ new.map (·.id)
  not_done : n'.status ≠ .done
  /-- Only the root gate may be running, or have passed before. -/
  running : n'.status = .running → p = none
  passed : n.status = .done → p = none

/-- A composite that waits for `fresh`. -/
structure Joined (fresh : List TaskNode) (n n' : TaskNode) : Prop where
  expanded : n'.expanded = true
  deps_nodup : n.dependsOn.Nodup → n'.dependsOn.Nodup
  mem_deps : ∀ d, d ∈ n'.dependsOn ↔ d ∈ n.dependsOn ∨ d ∈ fresh.map (·.id)
  was_open : n.status ≠ .done
  not_done : n'.status ≠ .done
  not_running : n'.status ≠ .running

/-- `new` work at the level under `p`, with the gate created for it, if any; `f` is what becomes of
the nodes of `g`. -/
structure Growth (p : Option NodeId) (new gates : List TaskNode) (f : TaskNode → TaskNode)
    (g g' : TaskGraph) : Prop where
  mode_eq : g'.mode = g.mode
  nodes_eq : g'.nodes = g.nodes.map f ++ (new ++ gates)
  same : ∀ n, Same n (f n)
  new_ne : new ≠ []
  ids_nodup : g'.ids.Nodup
  acyclic : g'.cycleNodes = []
  parent_mem : ∀ q, p = some q → ∃ x ∈ g.nodes, x.id = q ∧ x.isGate = false
  fresh : ∀ n ∈ new ++ gates,
    n.status = .queued ∧ n.expanded = false ∧ n.parent = p ∧ n.dependsOn.Nodup
  new_work : ∀ n ∈ new, n.isGate = false
  new_deps : ∀ n ∈ new, ∀ d ∈ n.dependsOn, d ∈ new.map (·.id) ∨ d ∈ g.ids
  gates_once : gates.length ≤ 1
  gates_scope : ∀ n ∈ gates, n.isGate = true ∧
    ∀ d, d ∈ n.dependsOn ↔ WorkUnder g p d ∨ d ∈ new.map (·.id)
  gates_vacant : gates ≠ [] → g.mode = .deep ∧ ∀ m ∈ g.nodes, ¬ m.Guards p
  gate_present : g.mode = .deep → gates = [] → ∃ m ∈ g.nodes, m.Guards p
  gate : ∀ n ∈ g.nodes, n.Guards p → Reopened p new n (f n)
  join : ∀ n ∈ g.nodes, p = some n.id → Joined (new ++ gates) n (f n)
  elsewhere : ∀ n ∈ g.nodes, ¬ n.Guards p → p ≠ some n.id → f n = n

/-- What a call does to a graph. -/
inductive Effect (g : TaskGraph) : TaskGraph → Prop where
  | idle : Effect g g
  | move {n n' : TaskNode} : n ∈ g.nodes → Move parse g n n' → Effect g (g.modify n.id fun _ => n')
  | grow {p : Option NodeId} {new gates : List TaskNode} {f : TaskNode → TaskNode}
      {g' : TaskGraph} : Growth p new gates f g g' → Effect g g'

end Parse

variable {parse : String → Option ConfidenceLevel} {g g' : TaskGraph}

/-! ### Reading the checks -/

theorem depsSatisfied_iff (hg : g.ids.Nodup) {n : TaskNode} :
    depsSatisfied g n = true ↔ DepsDone g n := by
  simp only [depsSatisfied, List.all_eq_true, DepsDone]
  refine forall₂_congr fun d _ => ?_
  cases h : g.get d with
  | none =>
      simp only [Option.map_none, Option.getD_none, Bool.false_eq_true, false_iff]
      rintro ⟨m, hm, rfl, -⟩
      exact TaskGraph.get_eq_none_iff.mp h (TaskGraph.id_mem_ids hm)
  | some m =>
      obtain ⟨hm, rfl⟩ := TaskGraph.mem_of_get h
      simp only [Option.map_some, Option.getD_some, TaskNode.isDone, decide_eq_true_eq]
      exact ⟨fun hs => ⟨m, hm, rfl, hs⟩, fun ⟨m', hm', e, hs⟩ =>
        TaskGraph.eq_of_id_eq hg hm' hm e ▸ hs⟩

theorem isReady_iff (hg : g.ids.Nodup) {n : TaskNode} :
    isReady g n = true ↔ n.status = .queued ∧ DepsDone g n := by
  simp [isReady, depsSatisfied_iff hg]

theorem validateArtifact_eq_ok {mode : Mode} {id : NodeId} {isGate : Bool} {a : HandoffArtifact}
    {u : Unit} (h : validateArtifact parse mode id isGate a = .ok u) :
    mode = .deep → isGate = false → ThickArtifact parse a := by
  rintro rfl rfl
  simp only [validateArtifact, Mode.requiresGates, bind_eq_ok, ensure_eq_ok, Bool.not_true,
    Bool.false_eq_true, if_false] at h
  obtain ⟨-, h₁, -, h₂, h₃⟩ := h
  exact ⟨h₁, h₂, h₃⟩

theorem validateGatePass_eq_ok {gate : TaskNode} {id : NodeId} {a : HandoffArtifact} {u : Unit}
    (hget : g.get id = some gate) (h : validateGatePass parse g id a = .ok u) :
    GatePasses parse g gate a := by
  simp only [validateGatePass, hget] at h
  split at h
  · rename_i he
    have hnil : gateAuditScope g gate = [] := List.isEmpty_iff.mp he
    constructor <;> simp [hnil]
  · simp only [bind_eq_ok, ensure_eq_ok, List.map_eq_nil_iff, List.filter_eq_nil_iff,
      List.mem_filter, and_imp] at h
    obtain ⟨-, hp, -, -, h⟩ := h
    have hdone : ∀ m ∈ gateAuditScope g gate, m.status = .done := fun m hm => by
      simpa [TaskNode.isDone] using hp m hm
    split at h
    · have hall : ∀ m ∈ gateAuditScope g gate, addressed a m.id = true := fun m hm => by
        simp only [ensure_eq_ok] at h
        simpa using h m hm
      exact ⟨hdone, fun m hm _ => hall m hm, fun _ => hall⟩
    · rename_i hcap
      simp only [ensure_eq_ok, decide_eq_true_eq] at h
      exact ⟨hdone, fun m hm hc => by simpa using h m hm hc, fun hle => absurd hle hcap⟩

/-! ### Writes to one node -/

theorem modify_eq_const (hg : g.ids.Nodup) {n : TaskNode} (hn : n ∈ g.nodes)
    (f : TaskNode → TaskNode) : g.modify n.id f = g.modify n.id fun _ => f n := by
  simp only [TaskGraph.modify, TaskGraph.mk.injEq, true_and]
  refine List.map_congr_left fun m hm => ?_
  split
  · rename_i e; rw [TaskGraph.eq_of_id_eq hg hm hn e]
  · rfl

theorem TaskGraph.modify_self (hg : g.ids.Nodup) {n : TaskNode} (hn : n ∈ g.nodes) :
    (g.modify n.id fun _ => n) = g := by
  have h := modify_eq_const hg hn id
  rw [id_eq] at h
  rw [← h]
  simp [TaskGraph.modify]

/-- A write to a node is a move of that node. -/
theorem Effect.of_modify (hg : g.ids.Nodup) {n : TaskNode} {id : NodeId}
    {f : TaskNode → TaskNode} (hn : g.get id = some n) (hm : Move parse g n (f n)) :
    Effect parse g (g.modify id f) := by
  obtain ⟨hmem, rfl⟩ := TaskGraph.mem_of_get hn
  rw [modify_eq_const hg hmem f]
  exact .move hmem hm

/-- A mutation's effect is the effect of its success. -/
theorem Effect.of_commit {α : Type} {r : Except DagError (α × TaskGraph)}
    (h : ∀ a g', r = .ok (a, g') → Effect parse g g') : Effect parse g (commit g r).2 := by
  rcases r with e | ⟨a, g'⟩
  · exact .idle
  · exact h a g' rfl

/-! ### Accepted calls -/

/-- What an accepted dispatch checked and did. -/
theorem dispatch_eq_true (hg : g.ids.Nodup) {id : NodeId} {worker : String} :
    dispatch g id worker = (true, g') ↔ ∃ n, g.get id = some n ∧ isReady g n = true ∧
      g' = g.modify id fun n => { n with owner := some worker, status := .running } := by
  unfold dispatch
  cases hn : g.get id with
  | none => simp
  | some n =>
      have hmut := TaskGraph.getMut_of_mem hg (TaskGraph.mem_ids_of_get hn) fun n =>
        { n with owner := some worker, status := .running }
      simp only [Option.map_some, Option.getD_some, Option.some.injEq, exists_eq_left', hmut]
      cases isReady g n with
      | false => simp
      | true => simp [eq_comm]

/-- A dispatch that is not accepted changes nothing. -/
theorem dispatch_eq_false (hg : g.ids.Nodup) {id : NodeId} {worker : String}
    (h : dispatch g id worker = (false, g')) : g' = g := by
  unfold dispatch at h
  cases hn : g.get id with
  | none => simpa [hn, eq_comm] using h
  | some n =>
      have hmut := TaskGraph.getMut_of_mem hg (TaskGraph.mem_ids_of_get hn) fun n =>
        { n with owner := some worker, status := .running }
      simp only [hn, Option.map_some, Option.getD_some, hmut] at h
      cases hr : isReady g n with
      | false => simpa [hr, eq_comm] using h
      | true => simp [hr] at h

/-- What an accepted completion checked and did. -/
theorem completeNode_eq_ok (hg : g.ids.Nodup) {id : NodeId} {actor : String}
    {a : HandoffArtifact} (h : completeNode parse g id actor a = (.ok (), g')) :
    ∃ n, g.get id = some n ∧ n.owner = some actor ∧ n.status = .running ∧
      (g.mode = .deep → n.isGate = false → ThickArtifact parse a) ∧
      (g.mode = .deep → n.isGate = true → GatePasses parse g n a) ∧
      g' = g.modify id fun n => { n with status := .done, output := some a } := by
  simp only [completeNode, commit_eq_ok, bind_eq_ok, okOr_eq_ok, ensure_eq_ok, pure, Except.pure,
    TaskGraph.getMut_eq_some_iff hg] at h
  obtain ⟨n, hn, _, ho, _, hs, _, hv, _, hp, g'', ⟨-, rfl⟩, h⟩ := h
  cases h
  refine ⟨n, hn, ho, hs, validateArtifact_eq_ok hv, fun hdeep hgate => ?_, rfl⟩
  rw [hgate, hdeep] at hp
  exact validateGatePass_eq_ok hn hp

/-- What an accepted failure checked and did. -/
theorem failNode_eq_ok (hg : g.ids.Nodup) {id : NodeId} {actor : String}
    (h : failNode g id actor = (.ok (), g')) : ∃ n, g.get id = some n ∧ n.status = .running ∧
      g' = g.modify id fun n => { n with status := .failed } := by
  simp only [failNode, commit_eq_ok, bind_eq_ok, okOr_eq_ok, ensure_eq_ok, pure, Except.pure,
    TaskGraph.getMut_eq_some_iff hg] at h
  obtain ⟨n, hn, _, -, _, hs, g'', ⟨-, rfl⟩, h⟩ := h
  cases h
  exact ⟨n, hn, hs, rfl⟩

/-- What an accepted retry checked and did. -/
theorem requeueFailed_eq_ok (hg : g.ids.Nodup) {id : NodeId}
    (h : requeueFailed g id = (.ok (), g')) : ∃ n, g.get id = some n ∧ n.status = .failed ∧
      g' = g.modify id fun n => { n with status := .queued, owner := none } := by
  simp only [requeueFailed, commit_eq_ok, bind_eq_ok, okOr_eq_ok, ensure_eq_ok, pure, Except.pure,
    TaskGraph.getMut_eq_some_iff hg] at h
  obtain ⟨n, hn, _, hs, g'', ⟨-, rfl⟩, h⟩ := h
  cases h
  exact ⟨n, hn, hs, rfl⟩

theorem dispatch_effect (hg : g.ids.Nodup) (id : NodeId) (worker : String) :
    Effect parse g (dispatch g id worker).2 := by
  cases h : dispatch g id worker with
  | mk accepted g' =>
      cases accepted with
      | false => rw [dispatch_eq_false hg h]; exact .idle
      | true =>
          obtain ⟨n, hn, hr, rfl⟩ := (dispatch_eq_true hg).mp h
          obtain ⟨hq, hdeps⟩ := (isReady_iff hg).mp hr
          exact .of_modify hg hn (.start worker hq hdeps)

theorem completeNode_effect (hg : g.ids.Nodup) (id : NodeId) (actor : String)
    (a : HandoffArtifact) : Effect parse g (completeNode parse g id actor a).2 := by
  refine .of_commit fun _ g' h => ?_
  obtain ⟨n, hn, -, hs, hthick, hpass, rfl⟩ := completeNode_eq_ok hg (commit_eq_ok.mpr h)
  exact .of_modify hg hn (.finish a hs hthick hpass)

theorem failNode_effect (hg : g.ids.Nodup) (id : NodeId) (actor : String) :
    Effect parse g (failNode g id actor).2 := by
  refine .of_commit fun _ g' h => ?_
  obtain ⟨n, hn, hs, rfl⟩ := failNode_eq_ok hg (commit_eq_ok.mpr h)
  exact .of_modify hg hn (.fail hs)

theorem requeueFailed_effect (hg : g.ids.Nodup) (id : NodeId) :
    Effect parse g (requeueFailed g id).2 := by
  refine .of_commit fun _ g' h => ?_
  obtain ⟨n, hn, hs, rfl⟩ := requeueFailed_eq_ok hg (commit_eq_ok.mpr h)
  exact .of_modify hg hn (.retry hs)

end Jcode.Dag
