import Jcode.Dag.Extend

/-!
# Dag — seeding a batch twice, with the ranks rewritten in between

A graph that goes through a plan comes back with the ranks the plan has words for (`rerank`).
Seeding again does nothing to the rest: the root gate is up to date (`TopAudited`), and what a
graph records about parents is not changed by a seed (`Seeded.parentOf_eq`).

* `seed_again_iff`: when the second seed of an accepted batch is a no-op, on any graph with
  distinct ids.
-/

namespace Jcode.Dag

variable {g g' : TaskGraph} {rank : NodeId → UInt8 → UInt8}

/-! ### Rewriting ranks -/

def TaskNode.rerank (rank : NodeId → UInt8 → UInt8) (n : TaskNode) : TaskNode :=
  { n with priority := rank n.id n.priority }

/-- The graph with the rank of each node rewritten. -/
def TaskGraph.rerank (rank : NodeId → UInt8 → UInt8) (g : TaskGraph) : TaskGraph :=
  { g with nodes := g.nodes.map (·.rerank rank) }

@[simp] theorem TaskGraph.rerank_ids : (g.rerank rank).ids = g.ids := by
  simp [rerank, ids, TaskNode.rerank, Function.comp_def]

theorem TaskGraph.rerank_cycleNodes : (g.rerank rank).cycleNodes = g.cycleNodes :=
  cycleNodes_congr (by simp [rerank, edges, TaskNode.rerank, Function.comp_def])

@[simp] theorem TaskGraph.get_rerank (id : NodeId) :
    (g.rerank rank).get id = (g.get id).map (·.rerank rank) := by
  simp [get, rerank, List.find?_map, TaskNode.rerank]

/-! ### The root gate is up to date -/

section Map
variable {f : TaskNode → TaskNode} (hid : ∀ n, (f n).id = n.id)
  (hparent : ∀ n, (f n).parent = n.parent) (hgate : ∀ n, (f n).isGate = n.isGate)

include hid hparent hgate in
/-- The top-level work reads three fields of the nodes. -/
theorem topWork_map : topWork { g with nodes := g.nodes.map f } = topWork g := by
  simp [topWork, rootNodes, List.filter_map, Function.comp_def, hid, hparent, hgate]

include hparent hgate in
theorem rootGate_map : rootGate { g with nodes := g.nodes.map f } = (rootGate g).map f := by
  simp [rootGate, List.find?_map, hparent, hgate]

end Map

theorem TopAudited.rerank (h : TopAudited g) : TopAudited (g.rerank rank) := by
  intro hm
  rw [TaskGraph.rerank, topWork_map (f := TaskNode.rerank rank) (fun _ => rfl) (fun _ => rfl)
    fun _ => rfl, rootGate_map (f := TaskNode.rerank rank) (fun _ => rfl) fun _ => rfl]
  refine (h hm).imp_right fun ⟨r, hr, hd⟩ => ⟨r.rerank rank, ?_, hd⟩
  rw [hr, Option.map_some]

/-- **A refreshed graph is up to date.** -/
theorem refreshTop_topAudited (hg : g.ids.Nodup) : TopAudited (refreshTop g) := by
  intro hm
  have hdeep : g.mode = .deep := by
    rw [← hm]
    exact ((refreshTop_extends (.refl hg)).mode_eq).symm
  have hrefresh : refreshTop g = ensureRootGate g := by
    rw [refreshTop, hdeep]; rfl
  rw [hrefresh]
  rcases ensureRootGate_cases hg with ⟨he, e⟩ | ⟨-, r, hr, e⟩ |
    ⟨-, hnone, gateId, content, kind, -, e⟩
  · rw [e]; exact .inl he
  · have hsame : ∀ n, Same n (if n.id = r.id then widenRootGate (topWork g) n else n) := fun n => by
      split
      · exact widenRootGate_same _ n
      · exact .refl n
    rw [e, TaskGraph.modify, topWork_map (fun n => (hsame n).id) (fun n => (hsame n).parent)
      fun n => (hsame n).isGate, rootGate_map (fun n => (hsame n).parent) fun n => (hsame n).isGate,
      hr]
    refine .inr ⟨widenRootGate (topWork g) r, congrArg some (if_pos rfl), fun d hd => ?_⟩
    rw [widenRootGate_dependsOn, mem_extendDeps]
    exact .inr hd
  · have hwork : topWork (g.pushAll [gateNode gateId content kind none (topWork g)]) =
        topWork g := by
      simp [topWork, rootNodes, TaskGraph.pushAll, gateNode]
    have hroot : rootGate (g.pushAll [gateNode gateId content kind none (topWork g)]) =
        some (gateNode gateId content kind none (topWork g)) := by
      have hold : g.nodes.find? (fun node => node.isGate && node.parent.isNone) = none := hnone
      simp [rootGate, TaskGraph.pushAll, List.find?_append, hold, gateNode]
    rw [e, hwork, hroot]
    exact .inr ⟨_, rfl, fun d hd => hd⟩

/-- The nodes of a refreshed graph: work is kept as it is, and every node is an old one, or a new
one without a parent and without an output. -/
theorem refreshTop_nodes (hg : g.ids.Nodup) :
    (∀ n ∈ g.nodes, n.isGate = false → n ∈ (refreshTop g).nodes) ∧
      ∀ n ∈ (refreshTop g).nodes, (∃ m ∈ g.nodes, Same m n ∧ n.output = m.output) ∨
        n.id ∉ g.ids ∧ n.parent = none ∧ n.output = none := by
  have hself : ∀ n ∈ g.nodes, (∃ m ∈ g.nodes, Same m n ∧ n.output = m.output) ∨
      n.id ∉ g.ids ∧ n.parent = none ∧ n.output = none :=
    fun n hn => .inl ⟨n, hn, .refl n, rfl⟩
  unfold refreshTop
  split
  · rcases ensureRootGate_cases hg with ⟨-, e⟩ | ⟨-, r, hr, e⟩ | ⟨-, -, gateId, _, _, hfree, e⟩
    · rw [e]; exact ⟨fun n hn _ => hn, hself⟩
    · obtain ⟨hmem, hroot⟩ := guards_of_rootGate hr
      rw [e]
      constructor
      · intro n hn hw
        refine List.mem_map.mpr ⟨n, hn, if_neg fun hid => ?_⟩
        obtain rfl := TaskGraph.eq_of_id_eq hg hn hmem hid
        rw [hroot.1] at hw; cases hw
      · intro n hn
        obtain ⟨m, hm, rfl⟩ := List.mem_map.mp hn
        refine .inl ⟨m, hm, ?_⟩
        split
        · refine ⟨widenRootGate_same _ m, ?_⟩
          simp only [widenRootGate]; split <;> rfl
        · exact ⟨.refl m, rfl⟩
    · rw [e]
      constructor
      · exact fun n hn _ => List.mem_append_left _ hn
      · intro n hn
        rcases List.mem_append.mp hn with hn | hn
        · exact hself n hn
        · obtain rfl := List.mem_singleton.mp hn
          exact .inr ⟨hfree, rfl, rfl⟩
  · exact ⟨fun n hn _ => hn, hself⟩

/-! ### What a seed leaves -/

/-- The parent a graph records for an id. -/
def parentOf (g : TaskGraph) (id : NodeId) : Option NodeId := (g.get id).bind TaskNode.parent

theorem mem_declaredDependencies_iff {n : TaskNode} {d : NodeId} :
    d ∈ declaredDependencies g n ↔ d ∈ n.dependsOn ∧ parentOf g d ≠ some n.id := by
  rw [declaredDependencies, List.mem_filter, parentOf]
  refine and_congr_right fun _ => ?_
  cases g.get d with
  | none => simp
  | some m => simp

theorem parentOf_rerank (d : NodeId) : parentOf (g.rerank rank) d = parentOf g d := by
  rw [parentOf, parentOf, TaskGraph.get_rerank]
  cases g.get d <;> rfl

/-- A graph after an accepted seed of the collapsed batch `kept`. -/
structure Seeded (g : TaskGraph) (kept : List NodeSpec) (g' : TaskGraph) : Prop extends
    Extends g g' where
  work : ∀ n ∈ g.nodes, n.isGate = false → n ∈ g'.nodes
  pushed : ∀ spec ∈ kept, spec.nodeId ∉ g.ids → specToNode spec none .seed ∈ g'.nodes
  nodes : ∀ n ∈ g'.nodes, (∃ m ∈ g.nodes, Same m n ∧ n.output = m.output) ∨
    n.id ∉ g.ids ∧ n.parent = none ∧ n.output = none
  audited : TopAudited g'

section Seeded
variable {specs kept : List NodeSpec}

theorem seed_seeded (hg : g.ids.Nodup) (hn : (kept.map NodeSpec.nodeId).Nodup)
    (hd : ∀ spec ∈ kept, ∀ d ∈ spec.dependsOn, d ∈ kept.map NodeSpec.nodeId ∨ d ∈ g.ids) :
    Seeded g kept (refreshTop (g.pushAll (seedNodes g kept))) := by
  have hids : (g.pushAll (seedNodes g kept)).ids.Nodup := (unheld_newSpecs hn hd).ids_nodup hg
  obtain ⟨hwork, hnodes⟩ := refreshTop_nodes hids
  have hpush : Extends g (g.pushAll (seedNodes g kept)) := (Extends.refl hg).pushAll hids
  refine ⟨refreshTop_extends hpush, fun n hn => hwork n (List.mem_append_left _ hn), ?_, ?_,
    refreshTop_topAudited hids⟩
  · intro spec hs hnew
    refine hwork _ (List.mem_append_right _ ?_) rfl
    exact List.mem_map_of_mem (mem_unheld.mpr ⟨hs, hnew⟩)
  · intro n hn
    rcases hnodes n hn with ⟨m, hm, hsame, hout⟩ | ⟨hid, hp, hout⟩
    · rcases List.mem_append.mp hm with hm | hm
      · exact .inl ⟨m, hm, hsame, hout⟩
      · obtain ⟨spec, hs, rfl⟩ := List.mem_map.mp hm
        exact .inr ⟨hsame.id.symm ▸ (mem_unheld.mp hs).2, hsame.parent, hout⟩
    · exact .inr ⟨fun h => hid (hpush.mem_ids h), hp, hout⟩

/-- **A seed changes no recorded parent.** -/
theorem Seeded.parentOf_eq (h : Seeded g kept g') (d : NodeId) :
    parentOf g' d = parentOf g d := by
  cases hd : g.get d with
  | some n =>
      obtain ⟨hn, rfl⟩ := TaskGraph.mem_of_get hd
      obtain ⟨n', hn', hsame⟩ := h.old n hn
      rw [parentOf, parentOf, hd, ← hsame.id, TaskGraph.get_self h.ids_nodup hn']
      exact hsame.parent
  | none =>
      have hid : d ∉ g.ids := TaskGraph.get_eq_none_iff.mp hd
      rw [parentOf, parentOf, hd]
      cases hd' : g'.get d with
      | none => rfl
      | some n' =>
          obtain ⟨hn', rfl⟩ := TaskGraph.mem_of_get hd'
          rcases h.nodes n' hn' with ⟨m, hm, hsame, -⟩ | ⟨-, hp, -⟩
          · exact absurd (hsame.id ▸ TaskGraph.id_mem_ids hm) hid
          · exact hp

/-- When the node of a spec still matches it: always when the graph held it before, else when its
rank survived and no node names it as a parent. -/
theorem Seeded.declares_iff (hg : g.ids.Nodup) (h : Seeded g kept g') {spec : NodeSpec}
    (hs : spec ∈ kept) (hheld : ∀ n, g.get spec.nodeId = some n → Declares g spec n)
    (hrank : ∀ n ∈ g.nodes, rank n.id n.priority = n.priority) :
    (∀ n, (g'.rerank rank).get spec.nodeId = some n → Declares (g'.rerank rank) spec n) ↔
      (spec.nodeId ∉ g.ids → rank spec.nodeId spec.priority = spec.priority ∧
        ∀ d ∈ spec.dependsOn, parentOf g d ≠ some spec.nodeId) := by
  have hdeps : ∀ {n : TaskNode} {d : NodeId}, d ∈ declaredDependencies (g'.rerank rank) n ↔
      d ∈ n.dependsOn ∧ parentOf g d ≠ some n.id := by
    intro n d
    rw [mem_declaredDependencies_iff, parentOf_rerank, h.parentOf_eq]
  by_cases hid : spec.nodeId ∈ g.ids
  · refine ⟨fun _ hnew => absurd hid hnew, fun _ n' hn' => ?_⟩
    obtain ⟨n, hn, e⟩ := TaskGraph.mem_ids.mp hid
    have hdecl : Declares g spec n := hheld n (e ▸ TaskGraph.get_self hg hn)
    have hmem : n ∈ g'.nodes := h.work n hn hdecl.isGate
    rw [TaskGraph.get_rerank, ← e, TaskGraph.get_self h.ids_nodup hmem] at hn'
    obtain rfl := Option.some.inj hn'
    refine ⟨e, hdecl.parent, hdecl.isGate, hdecl.origin, hdecl.content, hdecl.kind,
      (hrank n hn).trans hdecl.priority, fun d => ?_⟩
    rw [hdeps, ← hdecl.deps, mem_declaredDependencies_iff]
    rfl
  · have hmem := h.pushed spec hs hid
    have hget : (g'.rerank rank).get spec.nodeId =
        some ((specToNode spec none .seed).rerank rank) := by
      have := TaskGraph.get_self h.ids_nodup hmem
      rw [TaskGraph.get_rerank]
      exact congrArg (Option.map (TaskNode.rerank rank)) this
    simp only [hget, Option.some.injEq, forall_eq', hid, not_false_eq_true, true_imp_iff]
    constructor
    · intro hdecl
      exact ⟨hdecl.priority, fun d hd => (hdeps.mp ((hdecl.deps d).mpr hd)).2⟩
    · rintro ⟨hpr, hown⟩
      refine ⟨rfl, rfl, rfl, .inr rfl, rfl, rfl, hpr, fun d => ?_⟩
      rw [hdeps]
      have hmem : d ∈ ((specToNode spec none .seed).rerank rank).dependsOn ↔ d ∈ spec.dependsOn :=
        mem_dedupDeps
      rw [hmem]
      exact and_iff_left_of_imp (hown d)

/-- **When the second seed of an accepted batch is a no-op.**  In between, the ranks of new nodes
may have been rewritten: each new spec has to keep its rank, and no dependency of it may have it as
its recorded parent. -/
theorem seed_again_iff (hg : g.ids.Nodup) (h : seed g specs = (.ok (), g'))
    (hrank : ∀ n ∈ g.nodes, rank n.id n.priority = n.priority) :
    seed (g'.rerank rank) specs = (.ok (), g'.rerank rank) ↔
      ∀ spec ∈ specs, spec.nodeId ∉ g.ids → rank spec.nodeId spec.priority = spec.priority ∧
        ∀ d ∈ spec.dependsOn, parentOf g d ≠ some spec.nodeId := by
  obtain ⟨kept, hc, hd, hm, rfl, hcyc⟩ := seed_eq_ok.mp h
  obtain ⟨hn, hsub, hall⟩ := collapsed_nodeIds hc
  have hs := seed_seeded hg hn hd
  generalize refreshTop (g.pushAll (seedNodes g kept)) = g' at hs hcyc ⊢
  have hkept : (∀ spec ∈ kept, ∀ n, (g'.rerank rank).get spec.nodeId = some n →
      Declares (g'.rerank rank) spec n) ↔ ∀ spec ∈ specs, spec.nodeId ∉ g.ids →
        rank spec.nodeId spec.priority = spec.priority ∧
          ∀ d ∈ spec.dependsOn, parentOf g d ≠ some spec.nodeId := by
    constructor
    · intro hdecl spec hspec
      obtain ⟨-, k, hk, hsame⟩ := hall spec hspec
      have hk' := (hs.declares_iff hg hk (hm k hk) hrank).mp (hdecl k hk)
      rw [hsame.nodeId, hsame.priority] at hk'
      exact fun hnew => ⟨(hk' hnew).1, fun d hd => (hk' hnew).2 d ((hsame.deps d).mpr hd)⟩
    · exact fun hcond k hk => (hs.declares_iff hg hk (hm k hk) hrank).mpr (hcond k (hsub k hk))
  rw [← hkept, seed_eq_ok]
  constructor
  · rintro ⟨kept', hc', -, hdecl, -⟩
    obtain rfl : kept = kept' := Except.ok.inj (hc.symm.trans hc')
    exact hdecl
  · intro hdecl
    have hids : ∀ k ∈ kept, k.nodeId ∈ g'.ids := fun k hk => by
      by_cases hid : k.nodeId ∈ g.ids
      · exact hs.mem_ids hid
      · exact TaskGraph.id_mem_ids (hs.pushed k hk hid)
    have hnil : unheld (g'.rerank rank) kept = [] := List.filter_eq_nil_iff.mpr fun k hk => by
      simpa using hids k hk
    refine ⟨kept, hc, fun k hk d hdep => (hd k hk d hdep).imp_right fun hid => ?_, hdecl, ?_, ?_⟩
    · rw [TaskGraph.rerank_ids]
      exact hs.mem_ids hid
    · have hids' : (g'.rerank rank).ids.Nodup := by rw [TaskGraph.rerank_ids]; exact hs.ids_nodup
      rw [pushAll_seedNodes_of_held hnil, hs.audited.rerank.refreshTop hids']
    · exact TaskGraph.rerank_cycleNodes.trans hcyc

end Seeded

end Jcode.Dag
