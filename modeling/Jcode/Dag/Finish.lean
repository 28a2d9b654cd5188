import Jcode.Dag.Attended
import Jcode.Dag.Naming
import Jcode.Dag.Progress
import Jcode.Support.Runs

/-!
# Dag — a plan can always be finished

Whatever was called before, in whatever order, there are calls that finish the plan as it stands.
Running work is completed by its owner, failed work is retried, and ready work is dispatched and
completed; an artifact that names the whole scope passes every check.  The one node that may run
over unfinished work is the root gate: its owner fails it, and it is retried later.

* `completeNode_accepts`: when a completion is accepted, whatever the mode.
* `Sound.advances`: in an open graph there are calls to make, and each brings the end nearer.
* `plan_can_finish`: so the plan can be finished, within four calls for each node.
-/

namespace Jcode.Dag
open Rust Runs

variable {parse : String → Option ConfidenceLevel} {mode : Mode} {g g' : TaskGraph}

/-! ### Calls that succeed -/

/-- The graph of a mutation that succeeds. -/
def succeeded {α : Type} : Outcome α → Option TaskGraph
  | (.ok _, graph) => some graph
  | (.error _, _) => none

/-- The graph of a call, if it succeeds. -/
def Op.accepted (parse : String → Option ConfidenceLevel) (graph : TaskGraph) :
    Op → Option TaskGraph
  | .seed specs => succeeded (Dag.seed graph specs)
  | .dispatch nodeId worker =>
      if (Dag.dispatch graph nodeId worker).1 then some (Dag.dispatch graph nodeId worker).2
      else none
  | .expandNode nodeId actor children => succeeded (Dag.expandNode graph nodeId actor children)
  | .completeNode nodeId actor artifact =>
      succeeded (Dag.completeNode parse graph nodeId actor artifact)
  | .failNode nodeId actor => succeeded (Dag.failNode graph nodeId actor)
  | .injectFromGate gateId actor newNodes =>
      succeeded (Dag.injectFromGate graph gateId actor newNodes)
  | .requeueFailed nodeId => succeeded (Dag.requeueFailed graph nodeId)

theorem succeeded_eq {α : Type} {o : Outcome α} (h : succeeded o = some g') : g' = o.2 := by
  obtain ⟨r, graph⟩ := o
  cases r with
  | error e => cases h
  | ok a => exact (Option.some.inj h).symm

/-- A call that succeeds leaves its graph behind. -/
theorem Op.accepted_eq {op : Op} (h : op.accepted parse g = some g') : g' = op.apply parse g := by
  cases op with
  | dispatch nodeId worker =>
      simp only [Op.accepted] at h
      split at h
      · exact (Option.some.inj h).symm
      · cases h
  | seed | expandNode | completeNode | failNode | injectFromGate | requeueFailed =>
      exact succeeded_eq h

/-! ### Completions that are accepted -/

theorem validateArtifact_ok {id : NodeId} {isGate : Bool} {a : HandoffArtifact}
    (h : mode = .deep → isGate = false → ThickArtifact parse a) :
    validateArtifact parse mode id isGate a = .ok () := by
  cases mode with
  | light => rfl
  | deep =>
      cases isGate with
      | true => rfl
      | false =>
          obtain ⟨hfindings, hunchecked, hconfidence⟩ := h rfl rfl
          simp only [validateArtifact, Mode.requiresGates, Bool.not_true, Bool.false_eq_true,
            if_false, bind_eq_ok, ensure_eq_ok]
          exact ⟨(), hfindings, (), hunchecked, hconfidence⟩

theorem validateGatePass_ok {gate : TaskNode} {id : NodeId} {a : HandoffArtifact}
    (hget : g.get id = some gate) (hdone : ∀ m ∈ gateAuditScope g gate, m.status = .done)
    (hnamed : ∀ m ∈ gateAuditScope g gate, addressed a m.id = true) :
    validateGatePass parse g id a = .ok () := by
  simp only [validateGatePass, hget]
  split
  · rfl
  · simp only [bind_eq_ok, ensure_eq_ok, List.map_eq_nil_iff, List.filter_eq_nil_iff,
      List.mem_filter, and_imp]
    refine ⟨(), fun m hm => ?_, (), fun m hm _ => ?_, ?_⟩
    · simp [TaskNode.isDone, hdone m hm]
    · simp [hnamed m hm]
    · split
      · simp only [ensure_eq_ok]
        exact fun m hm => by simp [hnamed m hm]
      · simp only [ensure_eq_ok]
        exact fun m hm _ => by simp [hnamed m hm]

/-- When a completion is accepted, and what it does. -/
theorem completeNode_accepts (hg : g.ids.Nodup) {n : TaskNode} (hn : n ∈ g.nodes) {actor : String}
    (howner : n.owner = some actor) (hrun : n.status = .running) {a : HandoffArtifact}
    (hthick : g.mode = .deep → n.isGate = false → ThickArtifact parse a)
    (hdone : ∀ m ∈ gateAuditScope g n, m.status = .done)
    (hnamed : ∀ m ∈ gateAuditScope g n, addressed a m.id = true) :
    completeNode parse g n.id actor a =
      (.ok (), g.modify n.id fun n => { n with status := .done, output := some a }) := by
  have hget := TaskGraph.get_self hg hn
  simp only [completeNode, commit_eq_ok, bind_eq_ok, okOr_eq_ok, ensure_eq_ok, pure, Except.pure,
    TaskGraph.getMut_eq_some_iff hg]
  refine ⟨n, hget, (), howner, (), hrun, (), validateArtifact_ok hthick, (), ?_, _,
    ⟨TaskGraph.id_mem_ids hn, rfl⟩, rfl⟩
  split
  · exact validateGatePass_ok hget hdone hnamed
  · rfl

/-! ### An artifact for any node -/

/-- An id names itself. -/
theorem mentionsNodeId_self {id : String} (hid : id ≠ "") : mentionsNodeId id id = true := by
  have hempty : id.isEmpty = false := by simpa using hid
  have hchars : id.toList ≠ [] := by simpa using hid
  rw [mentionsNodeId, hempty]
  simp only [Bool.false_eq_true, if_false]
  refine (mentionsFrom_eq_true_iff hchars (by omega) (Nat.zero_le _)).mpr ⟨0, le_rfl, ?_, ?_, ?_⟩
  · exact List.prefix_rfl
  · simp [BeforeOk]
  · simp [AfterOk]

/-- An artifact that says what every check asks for, and names the scope of the node. -/
def accounting (g : TaskGraph) (n : TaskNode) (rung : String) : HandoffArtifact :=
  { findings := "done", openQuestions := (gateAuditScope g n).map (·.id),
    confidence := some rung, whatIDidNotCheck := ["what the open questions name"] }

theorem accounting_thick (n : TaskNode) {rung : String} (hrung : parse rung ≠ none) :
    ThickArtifact parse (accounting g n rung) where
  findings := by
    show (trim "done").isEmpty = false
    decide
  unchecked := List.cons_ne_nil _ _
  confidence := hrung

theorem accounting_names (h : Attended g) (n : TaskNode) (rung : String) :
    ∀ m ∈ gateAuditScope g n, addressed (accounting g n rung) m.id = true := by
  intro m hm
  have hmem : m ∈ g.nodes := by
    obtain ⟨d, -, hd⟩ := List.mem_filterMap.mp (List.mem_of_mem_filter hm)
    exact (TaskGraph.mem_of_get hd).1
  rw [addressed, Bool.or_eq_true, List.any_eq_true]
  exact .inr ⟨m.id, List.mem_map_of_mem hm, mentionsNodeId_self (h m hmem).named⟩

/-! ### How far it is -/

/-- The calls a node may need. -/
def TaskNode.callsLeft (n : TaskNode) : ℕ :=
  match n.status with
  | .queued => 2
  | .running => 4
  | .done => 0
  | .failed => 3

def callsLeft (g : TaskGraph) : ℕ := (g.nodes.map TaskNode.callsLeft).sum

theorem callsLeft_le (g : TaskGraph) : callsLeft g ≤ 4 * g.nodes.length := by
  have hone : ∀ n : TaskNode, n.callsLeft ≤ 4 := by
    intro n
    unfold TaskNode.callsLeft
    split <;> decide
  rw [callsLeft]
  induction g.nodes with
  | nil => exact Nat.zero_le _
  | cons n nodes ih =>
      have hn := hone n
      simp only [List.map_cons, List.sum_cons, List.length_cons]
      omega

/-- A write to one node. -/
theorem callsLeft_modify (hg : g.ids.Nodup) {n : TaskNode} (hn : n ∈ g.nodes)
    (f : TaskNode → TaskNode) :
    callsLeft (g.modify n.id f) + n.callsLeft = callsLeft g + (f n).callsLeft := by
  obtain ⟨l₁, l₂, e⟩ := List.append_of_mem hn
  have hids : ((l₁ ++ n :: l₂).map (·.id)).Nodup := by rw [← e]; exact hg
  rw [List.map_append, List.map_cons, List.nodup_middle, List.nodup_cons, ← List.map_append] at hids
  have hkept : ∀ l : List TaskNode, (∀ m ∈ l, m ∈ l₁ ++ l₂) →
      l.map (fun m => if m.id = n.id then f m else m) = l := by
    intro l hl
    refine (List.map_congr_left fun m hm => if_neg fun heq => hids.1 ?_).trans (List.map_id l)
    exact List.mem_map.mpr ⟨m, hl m hm, heq⟩
  have h₁ := hkept l₁ fun m hm => List.mem_append_left l₂ hm
  have h₂ := hkept l₂ fun m hm => List.mem_append_right l₁ hm
  simp only [callsLeft, TaskGraph.modify, e, List.map_append, List.map_cons, h₁, h₂, if_true,
    List.sum_append, List.sum_cons]
  omega

/-! ### Steps towards the end -/

/-- What every reachable graph satisfies. -/
structure Sound (g : TaskGraph) : Prop where
  inv : Inv g
  attended : Attended g

theorem Sound.next (h : Sound g) {op : Op} (hop : op.accepted parse g = some g') : Sound g' := by
  rw [Op.accepted_eq hop]
  exact ⟨(Op.effect h.inv op).inv h.inv, h.attended.apply h.inv.wf.ids_nodup op⟩

/-- What the calls that finish a plan do: `worker` gets what is dispatched, and nothing is failed
but a root gate over unfinished work. -/
def Finishing (worker : String) (t : Transition TaskGraph Op) : Prop :=
  match t.event with
  | .dispatch _ w => w = worker
  | .completeNode _ _ _ | .requeueFailed _ => True
  | .failNode id _ => ∃ r ∈ t.before.nodes, r.id = id ∧ r.IsRootGate ∧ ¬ DepsDone t.before r
  | .seed _ | .expandNode _ _ _ | .injectFromGate _ _ _ => False

/-- A node that runs with everything done below it can be completed. -/
theorem Sound.completes (h : Sound g) {rung : String} (hrung : parse rung ≠ none) {n : TaskNode}
    (hn : n ∈ g.nodes) (hrun : n.status = .running) (hdeps : DepsDone g n) :
    ∃ actor a, (Op.completeNode n.id actor a).accepted parse g =
      some (g.modify n.id fun n => { n with status := .done, output := some a }) := by
  obtain ⟨actor, howner⟩ := Option.ne_none_iff_exists'.mp ((h.attended n hn).owned hrun)
  have hscope : ∀ m ∈ gateAuditScope g n, m.status = .done := by
    intro m hm
    obtain ⟨d, hd, hget⟩ := List.mem_filterMap.mp (List.mem_of_mem_filter hm)
    obtain ⟨hmem, rfl⟩ := TaskGraph.mem_of_get hget
    exact hdeps.node h.inv.wf.ids_nodup hmem hd
  refine ⟨actor, accounting g n rung, ?_⟩
  rw [Op.accepted, completeNode_accepts h.inv.wf.ids_nodup hn howner hrun
    (fun _ _ => accounting_thick n hrung) hscope (accounting_names h.attended n rung)]
  rfl

/-- A write to an open node leaves what is done below another. -/
theorem DepsDone.modify (hg : g.ids.Nodup) {n m : TaskNode} (h : DepsDone g m) (hn : n ∈ g.nodes)
    (hopen : n.status ≠ .done) (f : TaskNode → TaskNode) : DepsDone (g.modify n.id f) m := by
  intro d hd
  obtain ⟨x, hx, rfl, hs⟩ := h d hd
  refine ⟨x, List.mem_map.mpr ⟨x, hx, if_neg fun heq => hopen ?_⟩, rfl, hs⟩
  rwa [← TaskGraph.eq_of_id_eq hg hx hn heq]

/-- What is failed by its owner while it runs. -/
theorem Sound.fails (h : Sound g) {n : TaskNode} (hn : n ∈ g.nodes) (hrun : n.status = .running) :
    ∃ actor, (Op.failNode n.id actor).accepted parse g =
      some (g.modify n.id fun n => { n with status := .failed }) := by
  have hg := h.inv.wf.ids_nodup
  obtain ⟨actor, howner⟩ := Option.ne_none_iff_exists'.mp ((h.attended n hn).owned hrun)
  have hfail : failNode g n.id actor =
      (.ok (), g.modify n.id fun n => { n with status := .failed }) := by
    simp only [failNode, commit_eq_ok, bind_eq_ok, okOr_eq_ok, ensure_eq_ok, pure, Except.pure,
      TaskGraph.getMut_eq_some_iff hg]
    exact ⟨n, TaskGraph.get_self hg hn, (), howner, (), hrun, _,
      ⟨TaskGraph.id_mem_ids hn, rfl⟩, rfl⟩
  refine ⟨actor, ?_⟩
  rw [Op.accepted, hfail]
  rfl

/-- Failed work can be retried. -/
theorem Sound.retries (h : Sound g) {n : TaskNode} (hn : n ∈ g.nodes) (hfailed : n.status = .failed) :
    (Op.requeueFailed n.id).accepted parse g =
      some (g.modify n.id fun n => { n with status := .queued, owner := none }) := by
  have hg := h.inv.wf.ids_nodup
  have hretry : requeueFailed g n.id =
      (.ok (), g.modify n.id fun n => { n with status := .queued, owner := none }) := by
    simp only [requeueFailed, commit_eq_ok, bind_eq_ok, okOr_eq_ok, ensure_eq_ok, pure, Except.pure,
      TaskGraph.getMut_eq_some_iff hg]
    exact ⟨n, TaskGraph.get_self hg hn, (), hfailed, _, ⟨TaskGraph.id_mem_ids hn, rfl⟩, rfl⟩
  rw [Op.accepted, hretry]
  rfl

/-- Ready work can be dispatched to anybody. -/
theorem Sound.starts (h : Sound g) {n : TaskNode} (hn : n ∈ g.nodes) (hqueued : n.status = .queued)
    (hdeps : DepsDone g n) (worker : String) : (Op.dispatch n.id worker).accepted parse g =
      some (g.modify n.id fun n => { n with owner := some worker, status := .running }) := by
  have hg := h.inv.wf.ids_nodup
  have hstart : dispatch g n.id worker =
      (true, g.modify n.id fun n => { n with owner := some worker, status := .running }) :=
    (dispatch_eq_true hg).mpr
      ⟨n, TaskGraph.get_self hg hn, (isReady_iff hg).mpr ⟨hqueued, hdeps⟩, rfl⟩
  rw [Op.accepted, hstart]
  rfl

/-- There are calls that succeed, and leave fewer to make. -/
def Advances (parse : String → Option ConfidenceLevel) (worker : String) (g : TaskGraph) : Prop :=
  ∃ ts g', Run (Op.accepted parse) g ts g' ∧ (Sound g' ∧ g'.ids = g.ids) ∧ ts ≠ [] ∧
    ts.length + callsLeft g' ≤ callsLeft g ∧ ∀ t ∈ ts, Finishing worker t

/-- One call that brings a node nearer to its end. -/
theorem Sound.advances_one (h : Sound g) {worker : String} {op : Op} {n : TaskNode}
    {f : TaskNode → TaskNode} (hn : n ∈ g.nodes)
    (hop : op.accepted parse g = some (g.modify n.id f)) (hid : ∀ n, (f n).id = n.id)
    (hless : (f n).callsLeft < n.callsLeft)
    (hfinishing : Finishing worker ⟨g, op, g.modify n.id f⟩) : Advances parse worker g := by
  refine ⟨_, _, .cons hop (.nil _), ⟨h.next hop, TaskGraph.modify_ids hid⟩, List.cons_ne_nil _ _,
    ?_, List.forall_mem_singleton.mpr hfinishing⟩
  have hleft := callsLeft_modify h.inv.wf.ids_nodup hn f
  simp only [List.length_singleton]
  omega

/-- A ready node is dispatched, and completed at once. -/
theorem Sound.advances_ready (h : Sound g) {rung : String} (hrung : parse rung ≠ none)
    (worker : String) {n : TaskNode} (hready : n ∈ readyNodes g) : Advances parse worker g := by
  have hg := h.inv.wf.ids_nodup
  obtain ⟨hn, hqueued, hdeps⟩ := (mem_readyNodes hg).mp hready
  let start : TaskNode → TaskNode := fun n => { n with owner := some worker, status := .running }
  let finish (a : HandoffArtifact) : TaskNode → TaskNode := fun n =>
    { n with status := .done, output := some a }
  have hop : (Op.dispatch n.id worker).accepted parse g = some (g.modify n.id start) :=
    h.starts hn hqueued hdeps worker
  have hn' : start n ∈ (g.modify n.id start).nodes := List.mem_map.mpr ⟨n, hn, if_pos rfl⟩
  have hne : n.status ≠ .done := by
    rw [hqueued]
    decide
  have hdeps' : DepsDone (g.modify n.id start) (start n) := hdeps.modify hg hn hne start
  obtain ⟨actor, a, hop'⟩ := (h.next hop).completes hrung hn' rfl hdeps'
  have hids : (g.modify n.id start).ids = g.ids := TaskGraph.modify_ids fun _ => rfl
  have hids' : ((g.modify n.id start).modify (start n).id (finish a)).ids =
      (g.modify n.id start).ids := TaskGraph.modify_ids fun _ => rfl
  refine ⟨_, _, .cons hop (.cons hop' (.nil _)), ⟨(h.next hop).next hop', hids'.trans hids⟩,
    List.cons_ne_nil _ _, ?_, List.forall_mem_cons.mpr ⟨rfl, List.forall_mem_singleton.mpr trivial⟩⟩
  have hstart : callsLeft (g.modify n.id start) + 2 = callsLeft g + 4 := by
    have hleft := callsLeft_modify hg hn start
    rwa [TaskNode.callsLeft, hqueued] at hleft
  have hfinish : callsLeft ((g.modify n.id start).modify (start n).id (finish a)) + 4 =
      callsLeft (g.modify n.id start) + 0 := callsLeft_modify (hids.symm ▸ hg) hn' (finish a)
  show 2 + callsLeft ((g.modify n.id start).modify (start n).id (finish a)) ≤ callsLeft g
  omega

/-- **There is always a call to make**, while work is open. -/
theorem Sound.advances (h : Sound g) {rung : String} (hrung : parse rung ≠ none) (worker : String)
    (hopen : ¬ ∀ n ∈ g.nodes, n.status = .done) : Advances parse worker g := by
  by_cases hrunning : ∃ n ∈ g.nodes, n.status = .running
  · obtain ⟨n, hn, hrun⟩ := hrunning
    have hfour : n.callsLeft = 4 := by rw [TaskNode.callsLeft, hrun]
    by_cases hdeps : DepsDone g n
    · obtain ⟨actor, a, hop⟩ := h.completes hrung hn hrun hdeps
      exact h.advances_one hn hop (fun _ => rfl) (hfour ▸ Nat.zero_lt_succ 3) trivial
    · -- only the root gate runs over open work
      have hroot : n.IsRootGate := by
        by_contra hno
        exact hdeps (h.inv.ordered.running n hn hrun hno)
      obtain ⟨actor, hop⟩ := h.fails hn hrun
      exact h.advances_one hn hop (fun _ => rfl) (hfour ▸ Nat.lt_succ_self 3)
        ⟨n, hn, rfl, hroot, hdeps⟩
  · by_cases hfailed : ∃ n ∈ g.nodes, n.status = .failed
    · obtain ⟨n, hn, hfail⟩ := hfailed
      have hthree : n.callsLeft = 3 := by rw [TaskNode.callsLeft, hfail]
      exact h.advances_one hn (h.retries hn hfail) (fun _ => rfl) (hthree ▸ Nat.lt_succ_self 2)
        trivial
    · have hidle : ∀ n ∈ g.nodes, n.status ≠ .running ∧ n.status ≠ .failed := fun n hn =>
        ⟨fun hs => hrunning ⟨n, hn, hs⟩, fun hs => hfailed ⟨n, hn, hs⟩⟩
      obtain ⟨n, hready⟩ := List.exists_mem_of_ne_nil _ (h.inv.exists_ready hidle hopen)
      exact h.advances_ready hrung worker hready

/-- **A plan can always be finished.**  After any calls, in either mode, at most four calls for each
node, all of which succeed, make every node `done`; they add no node, dispatch to `worker` only, and
fail nothing but a root gate that runs over unfinished work. -/
theorem plan_can_finish (hrung : ∃ rung, parse rung ≠ none) (h : Reachable parse mode g)
    (worker : String) : ∃ ts g', Run (Op.accepted parse) g ts g' ∧
      ts.length ≤ 4 * g.nodes.length ∧ g'.ids = g.ids ∧ (∀ n ∈ g'.nodes, n.status = .done) ∧
      ∀ t ∈ ts, Finishing worker t := by
  obtain ⟨rung, hrung⟩ := hrung
  obtain ⟨ts, g', run, ⟨-, hids⟩, hdone, hle, hts⟩ :=
    Run.exists_finish (P := fun g' => Sound g' ∧ g'.ids = g.ids)
      (G := fun g' => ∀ n ∈ g'.nodes, n.status = .done) (Q := Finishing worker) callsLeft
      (fun g₁ h₁ hopen => by
        obtain ⟨ts, g₂, run, ⟨hsound, hids⟩, hrest⟩ := h₁.1.advances hrung worker hopen
        exact ⟨ts, g₂, run, ⟨hsound, hids.trans h₁.2⟩, hrest⟩)
      ⟨⟨h.inv, h.attended⟩, rfl⟩
  exact ⟨ts, g', run, (Nat.le_of_add_right_le hle).trans (callsLeft_le g), hids, hdone, hts⟩

/-- Half-way through the run, with a composite and two gates open. -/
theorem plan_can_finish_deepRun : ∃ ts g', Run (Op.accepted rungByName) (deepRun 4) ts g' ∧
    ts.length ≤ 16 ∧ g'.ids = ["a", "plan::gate", "c", "a::gate"] ∧
    ∀ n ∈ g'.nodes, n.status = .done := by
  obtain ⟨ts, g', run, hlen, hids, hdone, -⟩ :=
    plan_can_finish ⟨"high", by decide⟩ (deepRun_reachable 4) "w"
  have hnodes : (deepRun 4).nodes.length = 4 := by decide
  rw [hnodes] at hlen
  have hstart : (deepRun 4).ids = ["a", "plan::gate", "c", "a::gate"] := by decide
  exact ⟨ts, g', run, hlen, hids.trans hstart, hdone⟩

end Jcode.Dag
