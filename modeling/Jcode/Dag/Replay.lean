import Jcode.Dag.Preserve

/-!
# Dag — replaying a seed

`Declared g spec` is kept by every step: expansion and injection only add join edges to a declared
node, to nodes it is the parent of, and `declaredDependencies` leaves these out.

* `seed_of_declared`: a batch of declared specs changes nothing.
* `seed_replay`: a batch that was accepted can be seeded again at any later time, to no effect.
-/

namespace Jcode.Dag
open Rust

variable {parse : String → Option ConfidenceLevel} {mode : Mode} {g g' : TaskGraph}

/-! ### Declared nodes stay declared -/

theorem mem_declaredDependencies (hg : WellFormed g) {n : TaskNode} (hn : n ∈ g.nodes)
    {d : NodeId} : d ∈ declaredDependencies g n ↔
      d ∈ n.dependsOn ∧ ∀ m ∈ g.nodes, m.id = d → m.parent ≠ some n.id := by
  rw [declaredDependencies, List.mem_filter]
  refine and_congr_right fun hd => ?_
  obtain ⟨m, hm, rfl⟩ := TaskGraph.mem_ids.mp (hg.deps_mem n hn d hd)
  rw [TaskGraph.get_self hg.ids_nodup hm]
  simp only [bne_iff_ne]
  constructor
  · rintro h m' hm' e
    rwa [TaskGraph.eq_of_id_eq hg.ids_nodup hm' hm e]
  · exact fun h => h m hm rfl

/-- The dependencies a step adds to work are nodes that this work is the parent of. -/
theorem Effect.old_deps (hg : Inv g) (h : Effect parse g g') {n : TaskNode} (hn : n ∈ g.nodes)
    (hw : n.isGate = false) : ∃ n' ∈ g'.nodes, Same n n' ∧ (∀ d ∈ n.dependsOn, d ∈ n'.dependsOn) ∧
      ∀ d ∈ n'.dependsOn, d ∈ n.dependsOn ∨ ∃ m ∈ g'.nodes, m.id = d ∧ m.parent = some n.id := by
  cases h with
  | idle => exact ⟨n, hn, .refl n, fun _ h => h, fun _ h => .inl h⟩
  | @move m m' hm hmove =>
      by_cases e : n.id = m.id
      · obtain rfl := TaskGraph.eq_of_id_eq hg.wf.ids_nodup hn hm e
        have hdeps := hmove.skeleton.dependsOn
        exact ⟨m', List.mem_map.mpr ⟨n, hn, if_pos rfl⟩, hmove.skeleton.toSame,
          fun d hd => hdeps ▸ hd, fun d hd => .inl (hdeps ▸ hd)⟩
      · exact ⟨n, List.mem_map.mpr ⟨n, hn, if_neg e⟩, .refl n, fun _ h => h, fun _ h => .inl h⟩
  | @grow p new gates f _ hgrow =>
      refine ⟨f n, hgrow.mem_old hn, hgrow.same n, fun d => hgrow.mem_deps hn, fun d hd => ?_⟩
      rcases hgrow.old_cases hn with ⟨hguards, -⟩ | ⟨hp, hj⟩ | e
      · rw [hguards.1] at hw; cases hw
      · refine ((hj.mem_deps d).mp hd).imp_right fun hd => ?_
        obtain ⟨m, hm, rfl⟩ := List.mem_map.mp hd
        exact ⟨m, hgrow.mem_nodes.mpr (.inr (List.mem_append.mp hm)), rfl,
          (hgrow.fresh m hm).2.2.1.trans hp⟩
      · exact .inl (e ▸ hd)

/-- **What was declared stays declared.** -/
theorem Effect.declared (hg : Inv g) (h : Effect parse g g') {spec : NodeSpec}
    (hd : Declared g spec) : Declared g' spec := by
  obtain ⟨hname, n, hn, hdecl⟩ := hd
  obtain ⟨n', hn', hsame, hkeep, hadd⟩ := h.old_deps hg hn hdecl.isGate
  have hg' := h.inv hg
  refine ⟨hname, n', hn', ?_⟩
  exact
    { id := hsame.id.trans hdecl.id
      parent := hsame.parent.trans hdecl.parent
      isGate := hsame.isGate.trans hdecl.isGate
      origin := hsame.origin.symm ▸ hdecl.origin
      content := hsame.content.trans hdecl.content
      kind := hsame.kind.trans hdecl.kind
      priority := hsame.priority.trans hdecl.priority
      deps := fun d => by
        rw [← hdecl.deps, mem_declaredDependencies hg.wf hn, mem_declaredDependencies hg'.wf hn',
          hsame.id]
        constructor
        · rintro ⟨hd, hown⟩
          have hold : d ∈ n.dependsOn := (hadd d hd).resolve_right fun ⟨m, hm, e, hp⟩ =>
            hown m hm e hp
          refine ⟨hold, fun m hm e hp => ?_⟩
          obtain ⟨m', hm', hs, -⟩ := h.old hg hm
          exact hown m' hm' (hs.id.trans e) (hs.parent.trans hp)
        · rintro ⟨hd, hown⟩
          refine ⟨hkeep d hd, fun m' hm' e hp => ?_⟩
          obtain ⟨m, hm, rfl⟩ := TaskGraph.mem_ids.mp (hg.wf.deps_mem n hn d hd)
          obtain ⟨m'', hm'', hs, -⟩ := h.old hg hm
          obtain rfl := TaskGraph.eq_of_id_eq hg'.wf.ids_nodup hm'' hm' (hs.id.trans e.symm)
          exact hown m hm rfl (hs.parent.symm.trans hp) }

/-- Being declared is a property of the definition, not of how its dependencies are listed. -/
theorem Declared.congr {s t : NodeSpec} (h : SameSpec s t) (hd : Declared g s) : Declared g t := by
  obtain ⟨hname, n, hn, hdecl⟩ := hd
  obtain ⟨hid, hp, hw, ho, hc, hk, hpr, hdeps⟩ := hdecl
  exact ⟨h.named hname, n, hn, hid.trans h.nodeId, hp, hw, ho, hc.trans h.content,
    hk.trans h.kind, hpr.trans h.priority, fun d => (hdeps d).trans (h.deps d)⟩

/-! ### Accepted batches -/

/-- An accepted seed declares its specs. -/
theorem seed_declares (hg : Inv g) {specs : List NodeSpec} (h : seed g specs = (.ok (), g')) :
    ∀ spec ∈ specs, Declared g' spec := by
  intro spec hs
  have he : Effect (fun _ => none) g (seed g specs).2 := seed_effect hg specs
  rw [h] at he
  obtain ⟨kept, hc, hheld, hgrow⟩ := seed_cases hg h
  obtain ⟨-, hsub, hall⟩ := collapsed_nodeIds hc
  obtain ⟨hname, k, hk, hsame⟩ := hall spec hs
  have hkname := (hall k (hsub k hk)).1
  refine Declared.congr hsame ?_
  cases hn : g.get k.nodeId with
  | some n =>
      exact he.declared hg ⟨hkname, n, (TaskGraph.mem_of_get hn).1, hheld k hk n hn⟩
  | none =>
      have hmem : k ∈ unheld g kept := mem_unheld.mpr ⟨hk, TaskGraph.get_eq_none_iff.mp hn⟩
      rcases hgrow with ⟨hnil, -⟩ | ⟨gates, f, hgrow⟩
      · rw [hnil] at hmem; cases hmem
      · -- a new node has no children, so all its dependencies are declared ones
        have hnode : specToNode k none .seed ∈ g'.nodes :=
          hgrow.mem_nodes.mpr (.inr (.inl (List.mem_map_of_mem hmem)))
        have hg' := he.inv hg
        refine ⟨hkname, _, hnode, rfl, rfl, rfl, .inr rfl, rfl, rfl, rfl, fun d => ?_⟩
        rw [mem_declaredDependencies hg'.wf hnode]
        simp only [specToNode, mem_dedupDeps, and_iff_left_iff_imp]
        exact fun _ m hm _ => hg'.gated.not_parent hg'.wf.ids_nodup hnode rfl hm

/-- **A batch of declared specs changes nothing.** -/
theorem seed_of_declared (hg : Inv g) {specs : List NodeSpec} (h : ∀ s ∈ specs, Declared g s) :
    seed g specs = (.ok (), g) := by
  have hsame : ∀ s ∈ specs, ∀ t ∈ specs, s.id = t.id → SameSpec s t := fun s hs t ht e => by
    obtain ⟨-, n, hn, hdn⟩ := h s hs
    obtain ⟨-, m, hm, hdm⟩ := h t ht
    have hid : n.id = m.id := by
      rw [hdn.id, hdm.id, NodeSpec.nodeId, NodeSpec.nodeId, e]
    obtain rfl := TaskGraph.eq_of_id_eq hg.wf.ids_nodup hn hm hid
    exact ⟨e, hdn.content.symm.trans hdm.content, hdn.kind.symm.trans hdm.kind,
      hdn.priority.symm.trans hdm.priority, fun d => (hdn.deps d).symm.trans (hdm.deps d)⟩
  obtain ⟨kept, hc, hkept⟩ := collapseSpecs_succeeds [] (fun s hs => (h s hs).1) hsame
  have hkept : ∀ k ∈ kept, Declared g k := fun k hk => h k (hkept hk)
  have hnil : unheld g kept = [] := List.filter_eq_nil_iff.mpr fun k hk => by
    obtain ⟨-, n, hn, hdecl⟩ := hkept k hk
    simpa using hdecl.id ▸ TaskGraph.id_mem_ids hn
  have hgraph : refreshTop (g.pushAll (seedNodes g kept)) = g := by
    rw [pushAll_seedNodes_of_held hnil, refreshTop_eq_self hg]
  refine seed_eq_ok.mpr ⟨kept, hc, fun k hk d hd => ?_, fun k hk n hn => ?_, hgraph.symm,
    hg.wf.acyclic⟩
  · obtain ⟨-, n, hn, hdecl⟩ := hkept k hk
    have := (mem_declaredDependencies hg.wf hn).mp ((hdecl.deps d).mpr hd)
    exact .inr (hg.wf.deps_mem n hn d this.1)
  · obtain ⟨-, m, hm, hdecl⟩ := hkept k hk
    rw [← hdecl.id, TaskGraph.get_self hg.wf.ids_nodup hm] at hn
    cases hn
    exact hdecl

theorem exists_sameSpec {specs specs' : List NodeSpec} (h : List.Forall₂ SameSpec specs specs')
    {t : NodeSpec} (ht : t ∈ specs') : ∃ s ∈ specs, SameSpec s t := by
  induction h with
  | nil => cases ht
  | @cons s t' _ _ hst _ ih =>
      rcases List.mem_cons.mp ht with rfl | ht
      · exact ⟨s, List.mem_cons_self, hst⟩
      · obtain ⟨s', hs', hst'⟩ := ih ht
        exact ⟨s', List.mem_cons_of_mem _ hs', hst'⟩

/-- **Replaying a seed is a no-op at any later time**: a batch that was accepted at some point of a
run is accepted at every later one and leaves the graph as it is, also with the dependencies of its
specs reordered or repeated. -/
theorem seed_replay {specs specs' : List NodeSpec} (h : Reachable parse mode g)
    (haccepted : (seed g specs).1 = .ok ()) (hs : Steps parse (seed g specs).2 g')
    (hsame : List.Forall₂ SameSpec specs specs') : seed g' specs' = (.ok (), g') := by
  have hseed : seed g specs = (.ok (), (seed g specs).2) := Prod.ext haccepted rfl
  have hg₁ : Inv (seed g specs).2 := (h.steps (.one ⟨.seed specs, rfl⟩)).inv
  have hdecl : ∀ s ∈ specs, Declared g' s := by
    refine (hs.preserves (P := fun g => Inv g ∧ ∀ s ∈ specs, Declared g s)
      (fun g₁ g₂ ⟨hg, hd⟩ hstep => ?_) ⟨hg₁, seed_declares h.inv hseed⟩).2
    have he := hstep.effect hg
    exact ⟨he.inv hg, fun s hs => he.declared hg (hd s hs)⟩
  refine seed_of_declared (hs.inv hg₁) fun t ht => ?_
  obtain ⟨s, hs, hst⟩ := exists_sameSpec hsame ht
  exact (hdecl s hs).congr hst

/-- Two nodes, the second after `deps`. -/
def chainSpecs (deps : List NodeId) : List NodeSpec :=
  [{ id := some "a", content := "read", kind := .explore },
   { id := some "b", content := "write", kind := .implement, dependsOn := deps }]

/-- The chain with its first node done. -/
def chainRun : TaskGraph := Op.applyAll rungByName (TaskGraph.new .light)
  [.seed (chainSpecs ["a"]), .dispatch "a" "w", .completeNode "a" "w" { findings := "read" }]

/-- The chain is seeded again with a dependency named twice. -/
theorem chainRun_replay : seed chainRun (chainSpecs ["a", "a"]) = (.ok (), chainRun) := by
  have hsame : SameSpec (chainSpecs ["a"])[1] (chainSpecs ["a", "a"])[1] :=
    ⟨rfl, rfl, rfl, rfl, by simp [chainSpecs]⟩
  have hnew : Reachable rungByName .light (TaskGraph.new .light) := .refl _
  exact seed_replay hnew (by decide +kernel) (.applyAll _ _) (.cons (.refl _) (.cons hsame .nil))

end Jcode.Dag
