import Jcode.Dag.Structure

/-!
# Dag — order, and what is done

A node is done once, with everything it waits for done, and only the root gate is ever re-opened.
So what was checked when a node completed is still true of the graph later on.

* `reachable_order`: work is done in dependency order, and stays done.
* `reachable_audited`: in deep mode, the artifacts of done nodes are thick, and a done gate's
  artifact accounts for the scope the gate has now.
-/

namespace Jcode.Dag

variable {parse : String → Option ConfidenceLevel} {mode : Mode} {g g' : TaskGraph}

/-! ### Order -/

/-- A node keeps its identity along a run; once done it stays as it is, unless it is the root
gate. -/
theorem Steps.old (hg : Inv g) (h : Steps parse g g') : Inv g' ∧ ∀ n ∈ g.nodes,
    ∃ n' ∈ g'.nodes, Same n n' ∧ (n.status = .done → ¬ n.IsRootGate → n' = n) := by
  refine h.preserves (P := fun g' => Inv g' ∧ ∀ n ∈ g.nodes,
    ∃ n' ∈ g'.nodes, Same n n' ∧ (n.status = .done → ¬ n.IsRootGate → n' = n))
    (fun g₁ g₂ ⟨hg₁, hold⟩ hs => ?_) ⟨hg, fun n hn => ⟨n, hn, .refl n, fun _ _ => rfl⟩⟩
  have he := hs.effect hg₁
  refine ⟨he.inv hg₁, fun n hn => ?_⟩
  obtain ⟨n₁, hn₁, hsame₁, hdone₁⟩ := hold n hn
  obtain ⟨n₂, hn₂, hsame₂, hdone₂⟩ := he.old hg₁ hn₁
  refine ⟨n₂, hn₂, hsame₁.trans hsame₂, fun hs hroot => ?_⟩
  obtain rfl := hdone₁ hs hroot
  exact hdone₂ hs hroot

/-- **Work is done in order, and stays done.**  A node that is done, or running and not the root
gate, has all its dependencies done; nothing depends on the root gate; and along any further run
each node keeps its identity, and each done node but the root gate every field. -/
theorem reachable_order (h : Reachable parse mode g) :
    (∀ n ∈ g.nodes, n.status = .done → DepsDone g n) ∧
    (∀ n ∈ g.nodes, n.status = .running → ¬ n.IsRootGate → DepsDone g n) ∧
    (∀ r ∈ g.nodes, r.IsRootGate → ∀ n ∈ g.nodes, r.id ∉ n.dependsOn) ∧
    ∀ g', Steps parse g g' → ∀ n ∈ g.nodes, ∃ n', g'.get n.id = some n' ∧ Same n n' ∧
      (n.status = .done → ¬ n.IsRootGate → n' = n) := by
  have hg := h.inv
  refine ⟨hg.ordered.done, hg.ordered.running,
    fun r hr hroot n hn => hg.not_depends_on_root_gate hr hroot hn, fun g' hs n hn => ?_⟩
  obtain ⟨hg', hold⟩ := hs.old hg
  obtain ⟨n', hn', hsame, hdone⟩ := hold n hn
  exact ⟨n', (TaskGraph.get_eq_some_iff hg'.wf.ids_nodup).mpr ⟨hn', hsame.id⟩, hsame, hdone⟩

/-- Half-way through the run `c` is done, and the end of the run has the same node. -/
theorem deepRun_order : (∃ n ∈ (deepRun 5).nodes, n.id = "c" ∧ n.status = .done) ∧
    ∀ n ∈ (deepRun 5).nodes, n.id = "c" → (deepRun 11).get "c" = some n := by
  refine ⟨by decide +kernel, ?_⟩
  have hsteps : Steps rungByName (deepRun 5) (deepRun 11) := .applyAll _ (deepCalls.drop 5)
  have hold := (reachable_order (deepRun_reachable 5)).2.2.2 _ hsteps
  rintro n hn hid
  have hdone : ∀ m ∈ (deepRun 5).nodes, m.id = "c" → m.status = .done ∧ ¬ m.IsRootGate := by
    decide +kernel
  obtain ⟨n', hn', -, hkept⟩ := hold n hn
  rw [← hid, hn', hkept (hdone n hn hid).1 (hdone n hn hid).2]

/-! ### Audits -/

/-- What is done has passed its check, read against the graph as it is now. -/
structure Audited (parse : String → Option ConfidenceLevel) (g : TaskGraph) : Prop where
  work : ∀ n ∈ g.nodes, n.isGate = false → n.status = .done →
    ∃ a, n.output = some a ∧ ThickArtifact parse a
  gates : ∀ q ∈ g.nodes, q.isGate = true → q.status = .done →
    ∃ a, q.output = some a ∧ GatePasses parse g q a

/-- A done node of the graph after a step was done before, or the step finished it. -/
theorem Effect.done_cases (h : Effect parse g g') {n' : TaskNode} (hn' : n' ∈ g'.nodes)
    (hs : n'.status = .done) : n' ∈ g.nodes ∨ ∃ n ∈ g.nodes, ∃ a,
      n' = { n with status := .done, output := some a } ∧ n.status = .running ∧
      (g.mode = .deep → n.isGate = false → ThickArtifact parse a) ∧
      (g.mode = .deep → n.isGate = true → GatePasses parse g n a) := by
  cases h with
  | idle => exact .inl hn'
  | @move m m' hm hmove =>
      obtain ⟨n, hn, rfl⟩ := List.mem_map.mp hn'
      split at hs
      · rename_i e
        rw [if_pos e]
        cases hmove with
        | start => cases hs
        | finish a hrun hthick hpass => exact .inr ⟨m, hm, a, rfl, hrun, hthick, hpass⟩
        | fail => cases hs
        | retry => cases hs
      · rename_i e
        rw [if_neg e]
        exact .inl hn
  | grow hgrow =>
      rcases hgrow.mem_nodes.mp hn' with ⟨n, hn, rfl⟩ | hn
      · rcases hgrow.old_cases hn with ⟨-, hr⟩ | ⟨-, hj⟩ | e
        · exact absurd hs hr.not_done
        · exact absurd hs hj.not_done
        · exact .inl (e.symm ▸ hn)
      · rw [(hgrow.fresh n' (List.mem_append.mpr hn)).1] at hs; cases hs

/-- A step leaves the finished scope of a gate as it is. -/
theorem Effect.gateAuditScope_eq (hg : Inv g) (h : Effect parse g g') {q q' : TaskNode}
    (hq : q ∈ g.nodes) (hdeps : DepsDone g q) (e : q'.dependsOn = q.dependsOn) :
    gateAuditScope g' q' = gateAuditScope g q := by
  have hget : ∀ d ∈ q.dependsOn, g'.get d = g.get d := fun d hd => by
    obtain ⟨m, hm, rfl, hs⟩ := hdeps d hd
    have hroot : ¬ m.IsRootGate := fun hr => hg.not_depends_on_root_gate hm hr hq hd
    obtain ⟨m', hm', -, hkept⟩ := h.old hg hm
    obtain rfl := hkept hs hroot
    rw [TaskGraph.get_self hg.wf.ids_nodup hm, TaskGraph.get_self (h.inv hg).wf.ids_nodup hm']
  rw [gateAuditScope, gateAuditScope, e, List.filterMap_congr hget]

/-- A pass is a statement about the scope alone. -/
theorem GatePasses.congr {q q' : TaskNode} {a : HandoffArtifact}
    (h : gateAuditScope g' q' = gateAuditScope g q) (hp : GatePasses parse g q a) :
    GatePasses parse g' q' a := by
  obtain ⟨hdone, hdoubts, hcover⟩ := hp
  constructor <;> rwa [h]

/-- **A step keeps the audits.** -/
theorem Effect.audited (hg : Inv g) (hdeep : g.mode = .deep) (h : Effect parse g g')
    (ha : Audited parse g) : Audited parse g' where
  work := by
    intro n' hn' hgate hs
    rcases h.done_cases hn' hs with hn | ⟨n, hn, a, rfl, -, hthick, -⟩
    · exact ha.work n' hn hgate hs
    · exact ⟨a, rfl, hthick hdeep hgate⟩
  gates := by
    intro q' hq' hgate hs
    rcases h.done_cases hq' hs with hq | ⟨q, hq, a, rfl, -, -, hpass⟩
    · obtain ⟨a, hout, hp⟩ := ha.gates q' hq hgate hs
      exact ⟨a, hout, hp.congr (h.gateAuditScope_eq hg hq (hg.ordered.done q' hq hs) rfl)⟩
    · have hp := hpass hdeep hgate
      exact ⟨a, rfl, hp.congr (h.gateAuditScope_eq hg hq (hp.depsDone hg hq hgate) rfl)⟩

/-- **What is done has been audited.**  In deep mode every done node that is not a gate has an
artifact with findings, with what was not checked and with a confidence; every done gate has one
that names each node of its present scope whose confidence is not high, and each node of a scope of
at most `gateCoverageEnumerationCap` nodes. -/
theorem reachable_audited (h : Reachable parse .deep g) :
    (∀ n ∈ g.nodes, n.isGate = false → n.status = .done →
      ∃ a, n.output = some a ∧ ThickArtifact parse a) ∧
    ∀ q ∈ g.nodes, q.isGate = true → q.status = .done → ∃ a, q.output = some a ∧
      ∀ m ∈ g.nodes, m.isGate = false → m.id ∈ q.dependsOn →
        nodeConfidence parse m ≠ some .high ∨
          (gateAuditScope g q).length ≤ gateCoverageEnumerationCap →
        addressed a m.id = true := by
  have ha : Audited parse g := h.induct (P := Audited parse)
    ⟨by simp [TaskGraph.new], by simp [TaskGraph.new]⟩ fun _ _ hg hm he ha => he.audited hg hm ha
  refine ⟨ha.work, fun q hq hgate hs => ?_⟩
  obtain ⟨a, hout, hp⟩ := ha.gates q hq hgate hs
  refine ⟨a, hout, fun m hm _ hd hcase => ?_⟩
  have hscope := (mem_gateAuditScope h.inv hq hgate).mpr ⟨hm, hd⟩
  rcases hcase with hc | hlen
  · exact hp.doubts m hscope hc
  · exact hp.coverage hlen m hscope

/-- At the end of the run the gate of `a` names `c`. -/
theorem deepRun_audited : ∃ q ∈ (deepRun 11).nodes, q.id = "a::gate" ∧
    ∃ a, q.output = some a ∧ addressed a "c" = true := by
  have hgate : ∃ q ∈ (deepRun 11).nodes, q.id = "a::gate" ∧ q.isGate = true ∧ q.status = .done ∧
      "c" ∈ q.dependsOn ∧ (gateAuditScope (deepRun 11) q).length ≤ gateCoverageEnumerationCap := by
    decide +kernel
  have hc : ∃ m ∈ (deepRun 11).nodes, m.id = "c" ∧ m.isGate = false := by decide +kernel
  obtain ⟨q, hq, hid, hgate, hs, hd, hlen⟩ := hgate
  obtain ⟨m, hm, hmid, hw⟩ := hc
  obtain ⟨a, hout, haddr⟩ := (reachable_audited (deepRun_reachable 11)).2 q hq hgate hs
  exact ⟨q, hq, hid, a, hout, hmid ▸ haddr m hm hw (hmid.symm ▸ hd) (.inr hlen)⟩

end Jcode.Dag
