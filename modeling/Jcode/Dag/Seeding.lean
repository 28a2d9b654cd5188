import Jcode.Dag.Growth

/-!
# Dag — seeding

What `seed` checks and does (`seed_eq_ok`): it collapses the batch to one spec an id, pushes the
specs the graph does not hold, and refreshes the root gate.  `Declared g spec` says that a node of
`g` was declared by a spec equivalent to `spec`.

* `seed_cases`: on a graph that satisfies the invariant, `seed` is a `Growth` at the top level, or
  does nothing.
* `Op.effect`: every call has an `Effect`.
-/

namespace Jcode.Dag
open Rust

variable {parse : String → Option ConfidenceLevel} {g g' : TaskGraph}

/-! ### Specs of one id -/

/-- A spec with an explicit id that is not blank. -/
def NodeSpec.Named (spec : NodeSpec) : Prop :=
  spec.id = some spec.nodeId ∧ (trim spec.nodeId).isEmpty = false

/-- The same definition: equal but for the order and the repeats of the dependencies. -/
structure SameSpec (s t : NodeSpec) : Prop where
  id : s.id = t.id
  content : s.content = t.content
  kind : s.kind = t.kind
  priority : s.priority = t.priority
  deps : ∀ d, d ∈ s.dependsOn ↔ d ∈ t.dependsOn

theorem SameSpec.refl (s : NodeSpec) : SameSpec s s := ⟨rfl, rfl, rfl, rfl, fun _ => Iff.rfl⟩

theorem SameSpec.nodeId {s t : NodeSpec} (h : SameSpec s t) : s.nodeId = t.nodeId := by
  rw [NodeSpec.nodeId, h.id]; rfl

theorem SameSpec.named {s t : NodeSpec} (h : SameSpec s t) (hs : s.Named) : t.Named := by
  rw [NodeSpec.Named, ← h.id, ← h.nodeId]; exact hs

theorem dependencySetsEqual_iff {l r : List NodeId} :
    dependencySetsEqual l r = true ↔ ∀ d, d ∈ l ↔ d ∈ r := by
  simp only [dependencySetsEqual, Bool.and_eq_true, List.all_eq_true, List.contains_eq_mem,
    decide_eq_true_eq]
  exact ⟨fun h d => ⟨h.1 d, h.2 d⟩, fun h => ⟨fun d => (h d).mp, fun d => (h d).mpr⟩⟩

theorem seedSpecsEquivalent_iff {s t : NodeSpec} :
    seedSpecsEquivalent s t = true ↔ SameSpec s t := by
  simp only [seedSpecsEquivalent, Bool.and_eq_true, beq_iff_eq, dependencySetsEqual_iff]
  exact ⟨fun ⟨⟨⟨⟨h₁, h₂⟩, h₃⟩, h₄⟩, h₅⟩ => ⟨h₁, h₂, h₃, h₄, h₅⟩,
    fun h => ⟨⟨⟨⟨h.id, h.content⟩, h.kind⟩, h.priority⟩, h.deps⟩⟩

theorem validatedSpecId_iff {spec : NodeSpec} {op : String} {id : NodeId} :
    validatedSpecId spec op = .ok id ↔ spec.Named ∧ id = spec.nodeId := by
  rw [validatedSpecId_eq_ok]
  constructor
  · rintro ⟨h, ht⟩
    obtain rfl := nodeId_of_eq_some h
    exact ⟨⟨h, ht⟩, rfl⟩
  · rintro ⟨h, rfl⟩; exact h

/-- A collapsed batch has one spec for each id, and one equivalent to each spec of the batch. -/
theorem collapseSpecs_eq_ok {unique specs kept : List NodeSpec}
    (h : collapseSpecs unique specs = .ok kept) (hu : (unique.map (·.id)).Nodup) :
    (kept.map (·.id)).Nodup ∧ unique ⊆ kept ∧ kept ⊆ unique ++ specs ∧
      ∀ s ∈ specs, s.Named ∧ ∃ k ∈ kept, SameSpec k s := by
  induction specs generalizing unique with
  | nil =>
      simp only [collapseSpecs, Except.ok.injEq] at h
      subst h
      exact ⟨hu, fun _ h => h, by simp, by simp⟩
  | cons s specs ih =>
      simp only [collapseSpecs, bind_eq_ok, validatedSpecId_iff] at h
      obtain ⟨id, ⟨hs, rfl⟩, h⟩ := h
      split at h
      · rename_i k hf
        obtain ⟨_, he, h⟩ := bind_eq_ok.mp h
        have hk : SameSpec k s := seedSpecsEquivalent_iff.mp (ensure_eq_ok.mp he)
        obtain ⟨hn, hsub, hkept, hall⟩ := ih h hu
        refine ⟨hn, hsub, fun x hx => ?_, List.forall_mem_cons.mpr ⟨⟨hs, k, ?_, hk⟩, hall⟩⟩
        · rcases List.mem_append.mp (hkept hx) with hx | hx
          · exact List.mem_append_left _ hx
          · exact List.mem_append_right _ (List.mem_cons_of_mem _ hx)
        · exact hsub (List.mem_of_find?_eq_some hf)
      · rename_i hf
        have hnew : s.id ∉ unique.map (·.id) := by
          rw [hs.1]; simpa using hf
        have hu' : ((unique ++ [s]).map (·.id)).Nodup := by
          rw [List.map_append]
          exact hu.append (List.nodup_singleton _) (by simpa using hnew)
        obtain ⟨hn, hsub, hkept, hall⟩ := ih h hu'
        refine ⟨hn, fun x hx => hsub (List.mem_append_left _ hx), by simpa using hkept,
          List.forall_mem_cons.mpr ⟨⟨hs, s, ?_, .refl s⟩, hall⟩⟩
        exact hsub (List.mem_append_right _ List.mem_cons_self)

/-- A batch whose specs of one id are equivalent collapses. -/
theorem collapseSpecs_succeeds (unique : List NodeSpec) {specs : List NodeSpec}
    (hs : ∀ s ∈ specs, s.Named)
    (heq : ∀ s ∈ unique ++ specs, ∀ t ∈ specs, s.id = t.id → SameSpec s t) :
    ∃ kept, collapseSpecs unique specs = .ok kept ∧ kept ⊆ unique ++ specs := by
  induction specs generalizing unique with
  | nil => exact ⟨unique, rfl, by simp⟩
  | cons s specs ih =>
      obtain ⟨hname, hs⟩ := List.forall_mem_cons.mp hs
      have hid : validatedSpecId s "seed" = .ok s.nodeId := validatedSpecId_iff.mpr ⟨hname, rfl⟩
      have htail : ∀ a ∈ unique ++ [s] ++ specs, ∀ b ∈ specs, a.id = b.id → SameSpec a b :=
        fun a ha b hb => heq a (by simpa using ha) b (List.mem_cons_of_mem _ hb)
      cases hf : unique.find? fun existing => existing.id == some s.nodeId with
      | some k =>
          have hk : k ∈ unique := List.mem_of_find?_eq_some hf
          have hke : k.id = s.id := by
            have := List.find?_some hf
            rw [hname.1]; simpa using this
          have hsame := seedSpecsEquivalent_iff.mpr
            (heq k (List.mem_append_left _ hk) s List.mem_cons_self hke)
          obtain ⟨kept, hc, hsub⟩ := ih unique hs fun a ha b hb => htail a (by
            rcases List.mem_append.mp ha with ha | ha
            · exact List.mem_append_left _ (List.mem_append_left _ ha)
            · exact List.mem_append_right _ ha) b hb
          refine ⟨kept, ?_, fun x hx => ?_⟩
          · simp [collapseSpecs, hid, hf, hsame, hc, ensure, bind, Except.bind]
          · rcases List.mem_append.mp (hsub hx) with hx | hx
            · exact List.mem_append_left _ hx
            · exact List.mem_append_right _ (List.mem_cons_of_mem _ hx)
      | none =>
          obtain ⟨kept, hc, hsub⟩ := ih (unique ++ [s]) hs htail
          refine ⟨kept, ?_, by simpa using hsub⟩
          simp [collapseSpecs, hid, hf, hc, bind, Except.bind]

/-! ### Declared nodes -/

/-- `spec` declares the top-level node `n`. -/
structure Declares (g : TaskGraph) (spec : NodeSpec) (n : TaskNode) : Prop where
  id : n.id = spec.nodeId
  parent : n.parent = none
  isGate : n.isGate = false
  origin : n.origin = none ∨ n.origin = some .seed
  content : n.content = spec.content
  kind : n.kind = spec.kind
  priority : n.priority = spec.priority
  deps : ∀ d, d ∈ declaredDependencies g n ↔ d ∈ spec.dependsOn

/-- A node of `g` was declared by a spec equivalent to `spec`. -/
def Declared (g : TaskGraph) (spec : NodeSpec) : Prop :=
  spec.Named ∧ ∃ n ∈ g.nodes, Declares g spec n

theorem seedSpecMatchesExisting_iff {n : TaskNode} {spec : NodeSpec} (hid : n.id = spec.nodeId) :
    seedSpecMatchesExisting g n spec = true ↔ Declares g spec n := by
  simp only [seedSpecMatchesExisting, Bool.if_false_left, Bool.and_eq_true,
    dependencySetsEqual_iff]
  constructor
  · rintro ⟨h, hd⟩
    have h : ((((n.parent = none ∧ n.isGate = false) ∧
        (n.origin = none ∨ n.origin = some .seed)) ∧ n.content = spec.content) ∧
        n.kind = spec.kind) ∧ n.priority = spec.priority := by simpa using h
    obtain ⟨⟨⟨⟨⟨hp, hg⟩, ho⟩, hc⟩, hk⟩, hpr⟩ := h
    exact ⟨hid, hp, hg, ho, hc, hk, hpr, hd⟩
  · rintro ⟨-, hp, hg, ho, hc, hk, hpr, hd⟩
    refine ⟨?_, hd⟩
    simp [hp, hg, ho, hc, hk, hpr]

/-- The specs of a batch that the graph does not hold. -/
def unheld (g : TaskGraph) (specs : List NodeSpec) : List NodeSpec :=
  specs.filter fun spec => !g.contains spec.nodeId

theorem stageSpecs_eq_ok {staged staged' : TaskGraph} {specs : List NodeSpec} :
    stageSpecs g staged specs = .ok staged' ↔
      (∀ spec ∈ specs, ∀ n, g.get spec.nodeId = some n → Declares g spec n) ∧
        staged' = staged.pushAll (specNodes (unheld g specs) none .seed) := by
  induction specs generalizing staged with
  | nil => simp [stageSpecs, unheld, specNodes, TaskGraph.pushAll, eq_comm]
  | cons spec specs ih =>
      simp only [stageSpecs, List.forall_mem_cons]
      cases hn : g.get spec.nodeId with
      | some n =>
          have hid := (TaskGraph.mem_of_get hn).2
          have hc : g.contains spec.nodeId = true :=
            TaskGraph.contains_iff.mpr (TaskGraph.mem_ids_of_get hn)
          simp only [bind_eq_ok, ensure_eq_ok, exists_const, seedSpecMatchesExisting_iff hid, ih,
            Option.some.injEq, forall_eq', and_assoc, unheld, List.filter_cons, hc]
          simp
      | none =>
          have hc : g.contains spec.nodeId = false := by
            rw [← Bool.not_eq_true, TaskGraph.contains_iff]
            exact TaskGraph.get_eq_none_iff.mp hn
          rw [ih, TaskGraph.push_eq_pushAll, TaskGraph.pushAll_pushAll]
          simp [unheld, hc, specNodes]

/-! ### The root gate -/

/-- The ids the root gate audits. -/
def topWork (g : TaskGraph) : List NodeId := (rootNodes g).map (·.id)

theorem mem_topWork {d : NodeId} : d ∈ topWork g ↔ WorkUnder g none d := by
  simp only [topWork, rootNodes, List.mem_map, List.mem_filter, Bool.and_eq_true,
    Option.isNone_iff_eq_none, Bool.not_eq_true', WorkUnder]
  exact ⟨fun ⟨n, ⟨hn, hp, hw⟩, e⟩ => ⟨n, hn, e, hw, hp⟩,
    fun ⟨n, hn, e, hw, hp⟩ => ⟨n, ⟨hn, hp, hw⟩, e⟩⟩

theorem topWork_nodup (hg : g.ids.Nodup) : (topWork g).Nodup :=
  hg.sublist (List.filter_sublist.map _)

theorem widenRootGate_same (ids : List NodeId) (n : TaskNode) : Same n (widenRootGate ids n) := by
  unfold widenRootGate
  dsimp only
  split <;> constructor <;> rfl

theorem widenRootGate_dependsOn (ids : List NodeId) (n : TaskNode) :
    (widenRootGate ids n).dependsOn = extendDeps n.dependsOn ids := by
  simp only [widenRootGate]; split <;> rfl

/-- A root gate that already audits `ids` stays as it is. -/
theorem widenRootGate_of_subset {ids : List NodeId} {n : TaskNode}
    (h : ∀ d ∈ ids, d ∈ n.dependsOn) : widenRootGate ids n = n := by
  have hw : (ids.any fun id => !n.dependsOn.contains id) = false := by simpa using h
  simp only [widenRootGate, hw, extendDeps_of_subset h, Bool.false_and, Bool.false_eq_true,
    if_false]

/-- A root gate that has to audit more is open again. -/
theorem widenRootGate_reopened {ids : List NodeId} {new : List TaskNode} {n : TaskNode}
    (hids : ∀ d, d ∈ n.dependsOn ∨ d ∈ ids ↔ d ∈ n.dependsOn ∨ d ∈ new.map (·.id))
    (hw : ∃ d ∈ ids, d ∉ n.dependsOn) : Reopened none new n (widenRootGate ids n) := by
  have hw : (ids.any fun id => !n.dependsOn.contains id) = true := by simpa using hw
  have hdeps := widenRootGate_dependsOn ids n
  refine ⟨?_, fun h => hdeps ▸ nodup_extendDeps _ h, fun d => ?_, ?_, fun _ => rfl, fun _ => rfl⟩
  · simp only [widenRootGate]; split <;> rfl
  · rw [hdeps, mem_extendDeps, hids]
  · simp only [widenRootGate, hw, Bool.true_and]
    split
    · simp
    · rename_i h
      intro hs
      simp [TaskNode.isTerminal] at h
      exact h.1 hs

/-- The root gate: the first gate without a parent. -/
def rootGate (g : TaskGraph) : Option TaskNode :=
  g.nodes.find? fun node => node.isGate && node.parent.isNone

theorem guards_of_rootGate {r : TaskNode} (h : rootGate g = some r) :
    r ∈ g.nodes ∧ r.Guards none := by
  refine ⟨List.mem_of_find?_eq_some h, ?_⟩
  simpa [TaskNode.Guards] using List.find?_some h

theorem not_guards_of_rootGate (h : rootGate g = none) : ∀ n ∈ g.nodes, ¬ n.Guards none := by
  intro n hn hgd
  have := List.find?_eq_none.mp h n hn
  simp [hgd.1, hgd.2] at this

/-- What `ensure_root_gate` does: nothing when there is no top-level work, else it refreshes the
root gate, or creates it. -/
theorem ensureRootGate_cases (hg : g.ids.Nodup) :
    (topWork g = [] ∧ ensureRootGate g = g) ∨
    (topWork g ≠ [] ∧ ∃ r, rootGate g = some r ∧
      ensureRootGate g = g.modify r.id (widenRootGate (topWork g))) ∨
    (topWork g ≠ [] ∧ rootGate g = none ∧ ∃ gateId content kind, gateId ∉ g.ids ∧
      ensureRootGate g = g.pushAll [gateNode gateId content kind none (topWork g)]) := by
  by_cases he : topWork g = []
  · refine .inl ⟨he, ?_⟩
    rw [topWork] at he
    simp [ensureRootGate, he]
  · have hne : ((rootNodes g).map (·.id)).isEmpty = false := by
      rw [← Bool.not_eq_true, List.isEmpty_iff]; exact he
    simp only [ensureRootGate, rootGate, hne, Bool.false_eq_true, if_false]
    cases g.nodes.find? fun node => node.isGate && node.parent.isNone with
    | some r => exact .inr (.inl ⟨he, r, rfl, TaskGraph.getMut_getD hg _ _⟩)
    | none => exact .inr (.inr ⟨he, rfl, _, _, _, uniqueGateId_fresh g "plan", rfl⟩)

/-! ### Accepted seeds -/

/-- What `seed` pushes. -/
def seedNodes (g : TaskGraph) (kept : List NodeSpec) : List TaskNode :=
  specNodes (unheld g kept) none .seed

/-- The root gate is refreshed in deep mode only. -/
def refreshTop (g : TaskGraph) : TaskGraph :=
  if g.mode.requiresGates then ensureRootGate g else g

/-- What an accepted seed checked and did. -/
theorem seed_eq_ok {specs : List NodeSpec} : seed g specs = (.ok (), g') ↔
    ∃ kept, collapseSpecs [] specs = .ok kept ∧
      (∀ spec ∈ kept, ∀ d ∈ spec.dependsOn, d ∈ kept.map NodeSpec.nodeId ∨ d ∈ g.ids) ∧
      (∀ spec ∈ kept, ∀ n, g.get spec.nodeId = some n → Declares g spec n) ∧
      g' = refreshTop (g.pushAll (seedNodes g kept)) ∧ g'.cycleNodes = [] := by
  have hdeps : ∀ {known : List NodeId} {kept : List NodeSpec} {u : Unit},
      checkDependencies g known (kept.map fun spec => (spec.nodeId, spec)) = .ok u ↔
        ∀ spec ∈ kept, ∀ d ∈ spec.dependsOn, d ∈ known ∨ d ∈ g.ids := by
    intro known kept u
    exact checkDependencies_eq_ok.trans List.forall_mem_map
  simp only [seed, commit_eq_ok, bind_eq_ok, ensure_eq_ok, hdeps, stageSpecs_eq_ok, pure,
    Except.pure, Except.ok.injEq, Prod.mk.injEq, true_and]
  constructor
  · rintro ⟨kept, hc, -, hd, staged, ⟨hm, rfl⟩, -, hcyc, rfl⟩
    exact ⟨kept, hc, hd, hm, rfl, hcyc⟩
  · rintro ⟨kept, hc, hd, hm, rfl, hcyc⟩
    exact ⟨kept, hc, (), hd, _, ⟨hm, rfl⟩, (), hcyc, rfl⟩

/-- The ids of a collapsed batch. -/
theorem collapsed_nodeIds {specs kept : List NodeSpec} (h : collapseSpecs [] specs = .ok kept) :
    (kept.map NodeSpec.nodeId).Nodup ∧ (∀ k ∈ kept, k ∈ specs) ∧
      ∀ s ∈ specs, s.Named ∧ ∃ k ∈ kept, SameSpec k s := by
  obtain ⟨hn, -, hsub, hall⟩ := collapseSpecs_eq_ok h List.nodup_nil
  have hsub : ∀ k ∈ kept, k ∈ specs := fun k hk => hsub hk
  refine ⟨?_, hsub, hall⟩
  have hids : kept.map (·.id) = (kept.map NodeSpec.nodeId).map some := by
    rw [List.map_map]
    exact List.map_congr_left fun k hk => (hall k (hsub k hk)).1.1
  exact (hids ▸ hn).of_map

theorem mem_unheld {specs : List NodeSpec} {spec : NodeSpec} :
    spec ∈ unheld g specs ↔ spec ∈ specs ∧ spec.nodeId ∉ g.ids := by
  simp [unheld, ← TaskGraph.contains_iff]

/-- The specs that are pushed have new, distinct ids; their dependencies are theirs, or held. -/
theorem unheld_newSpecs {kept : List NodeSpec} (hn : (kept.map NodeSpec.nodeId).Nodup)
    (hd : ∀ spec ∈ kept, ∀ d ∈ spec.dependsOn, d ∈ kept.map NodeSpec.nodeId ∨ d ∈ g.ids) :
    NewSpecs g (unheld g kept) where
  nodup := hn.sublist (List.filter_sublist.map _)
  fresh := fun spec hs => (mem_unheld.mp hs).2
  deps := fun spec hs d hdep => by
    by_cases hg : d ∈ g.ids
    · exact .inr hg
    · have hmem := (hd spec (mem_unheld.mp hs).1 d hdep).resolve_right hg
      obtain ⟨s, hs', rfl⟩ := List.mem_map.mp hmem
      exact .inl (List.mem_map_of_mem (mem_unheld.mpr ⟨hs', hg⟩))

/-- The work at a level after a push of new work to it. -/
theorem workUnder_pushAll {l : List TaskNode} {p : Option NodeId} {d : NodeId}
    (hl : ∀ n ∈ l, n.isGate = false ∧ n.parent = p) :
    WorkUnder (g.pushAll l) p d ↔ WorkUnder g p d ∨ d ∈ l.map (·.id) := by
  simp only [WorkUnder, TaskGraph.pushAll_nodes, List.mem_append, List.mem_map]
  constructor
  · rintro ⟨m, hm | hm, e, hw, hp⟩
    · exact .inl ⟨m, hm, e, hw, hp⟩
    · exact .inr ⟨m, hm, e⟩
  · rintro (⟨m, hm, e, hw, hp⟩ | ⟨m, hm, e⟩)
    · exact ⟨m, .inl hm, e, hw, hp⟩
    · exact ⟨m, .inr hm, e, hl m hm⟩

/-- The root gate of a deep graph audits the top-level work. -/
def TopAudited (g : TaskGraph) : Prop :=
  g.mode = .deep → topWork g = [] ∨ ∃ r, rootGate g = some r ∧ ∀ d ∈ topWork g, d ∈ r.dependsOn

/-- There is nothing to refresh. -/
theorem TopAudited.refreshTop (hg : g.ids.Nodup) (h : TopAudited g) : refreshTop g = g := by
  unfold Dag.refreshTop
  split
  · rename_i hm
    have hdeep : g.mode = .deep := by
      cases hmode : g.mode with
      | deep => rfl
      | light => rw [hmode] at hm; cases hm
    rcases ensureRootGate_cases hg with ⟨-, e⟩ | ⟨hne, r, hr, e⟩ | ⟨hne, hnone, -⟩
    · exact e
    · obtain ⟨r', hr', hd⟩ := (h hdeep).resolve_left hne
      obtain rfl : r = r' := Option.some.inj (hr.symm.trans hr')
      have hmem := (guards_of_rootGate hr).1
      rw [e, modify_eq_const hg hmem, widenRootGate_of_subset hd, TaskGraph.modify_self hg hmem]
    · obtain ⟨r', hr', -⟩ := (h hdeep).resolve_left hne
      rw [hnone] at hr'; cases hr'
  · rfl

theorem Inv.topAudited (hg : Inv g) : TopAudited g := by
  intro hm
  by_cases he : topWork g = []
  · exact .inl he
  · obtain ⟨d, hd⟩ := List.exists_mem_of_ne_nil _ he
    obtain ⟨m, hm', rfl, hw, hp⟩ := mem_topWork.mp hd
    obtain ⟨r, hr, hroot⟩ := hg.gated.deep hm m hm' hw
    cases hf : rootGate g with
    | none => exact absurd (hp ▸ hroot) (not_guards_of_rootGate hf r hr)
    | some q =>
        obtain ⟨hq, hguards⟩ := guards_of_rootGate hf
        refine .inr ⟨q, rfl, fun d hd => ?_⟩
        rw [hg.gated.scope q hq hguards.1, hguards.2]
        exact mem_topWork.mp hd

/-- On a graph that satisfies the invariant the root gate is up to date. -/
theorem refreshTop_eq_self (hg : Inv g) : refreshTop g = g :=
  hg.topAudited.refreshTop hg.wf.ids_nodup

/-- Nothing is pushed when the graph holds all specs. -/
theorem pushAll_seedNodes_of_held {kept : List NodeSpec} (h : unheld g kept = []) :
    g.pushAll (seedNodes g kept) = g := by
  simp [seedNodes, h, specNodes, TaskGraph.pushAll]

/-! ### Seeding as growth -/

section Growth
variable {specs : List NodeSpec} {o : NodeOrigin}

/-- New work at the top level, with the root gate as `f` and `gates` leave it. -/
theorem Growth.top (hg : Inv g) (hnew : NewSpecs g specs) (hne : specs ≠ [])
    {gates : List TaskNode} {f : TaskNode → TaskNode} (hmode : g'.mode = g.mode)
    (hnodes : g'.nodes = g.nodes.map f ++ (specNodes specs none o ++ gates))
    (hids : g'.ids.Nodup) (hcyc : g'.cycleNodes = []) (hsame : ∀ n, Same n (f n))
    (hgates : gates = [] ∧ (g.mode = .deep → ∃ m ∈ g.nodes, m.Guards none) ∨
      g.mode = .deep ∧ (∀ m ∈ g.nodes, ¬ m.Guards none) ∧ ∃ gateId content kind,
        gates = [gateNode gateId content kind none (topWork (g.pushAll (specNodes specs none o)))])
    (hgate : ∀ n ∈ g.nodes, n.Guards none → Reopened none (specNodes specs none o) n (f n))
    (helse : ∀ n ∈ g.nodes, ¬ n.Guards none → f n = n) :
    Growth none (specNodes specs none o) gates f g g' where
  mode_eq := hmode
  nodes_eq := hnodes
  same := hsame
  new_ne := by simpa [specNodes] using hne
  ids_nodup := hids
  acyclic := hcyc
  parent_mem := fun q hq => nomatch hq
  fresh := fun n hn => by
    rcases List.mem_append.mp hn with hn | hn
    · exact (specNodes_fresh hn).2
    · rcases hgates with ⟨rfl, -⟩ | ⟨-, -, gateId, content, kind, rfl⟩
      · cases hn
      · obtain rfl := List.mem_singleton.mp hn
        exact ⟨rfl, rfl, rfl, topWork_nodup (hnew.ids_nodup hg.wf.ids_nodup)⟩
  new_work := fun n hn => (specNodes_fresh hn).1
  new_deps := hnew.new_deps
  gates_once := by
    rcases hgates with ⟨rfl, -⟩ | ⟨-, -, gateId, content, kind, rfl⟩
    · exact Nat.zero_le 1
    · exact le_rfl
  gates_scope := fun n hn => by
    rcases hgates with ⟨rfl, -⟩ | ⟨-, -, gateId, content, kind, rfl⟩
    · cases hn
    · obtain rfl := List.mem_singleton.mp hn
      refine ⟨rfl, fun d => mem_topWork.trans (workUnder_pushAll fun n hn => ?_)⟩
      obtain ⟨hw, -, -, hp, -⟩ := specNodes_fresh hn
      exact ⟨hw, hp⟩
  gates_vacant := fun h => by
    rcases hgates with ⟨rfl, -⟩ | ⟨hdeep, hno, -⟩
    · exact absurd rfl h
    · exact ⟨hdeep, hno⟩
  gate_present := fun hdeep h => by
    rcases hgates with ⟨-, hpres⟩ | ⟨-, -, gateId, content, kind, rfl⟩
    · exact hpres hdeep
    · cases h
  gate := hgate
  join := fun n _ h => nomatch h
  elsewhere := fun n hn h _ => helse n hn h

/-- New top-level work with the root gate refreshed is growth. -/
theorem refreshTop_growth (hg : Inv g) (hnew : NewSpecs g specs) (hne : specs ≠ [])
    (hcyc : (refreshTop (g.pushAll (specNodes specs none o))).cycleNodes = []) :
    ∃ gates f, Growth none (specNodes specs none o) gates f g
      (refreshTop (g.pushAll (specNodes specs none o))) := by
  have hnd := hnew.ids_nodup (p := none) (o := o) hg.wf.ids_nodup
  have hwork : ∀ d, d ∈ topWork (g.pushAll (specNodes specs none o)) ↔
      WorkUnder g none d ∨ d ∈ (specNodes specs none o).map (·.id) := fun d =>
    mem_topWork.trans (workUnder_pushAll fun n hn => by
      obtain ⟨hw, -, -, hp, -⟩ := specNodes_fresh hn
      exact ⟨hw, hp⟩)
  unfold refreshTop at hcyc ⊢
  rw [TaskGraph.pushAll_mode] at hcyc ⊢
  cases hm : g.mode with
  | light =>
      rw [hm] at hcyc
      have hno : ∀ n ∈ g.nodes, ¬ n.Guards none := fun n hn h => by
        have hw := h.1
        rw [hg.gated.light hm n hn] at hw; cases hw
      refine ⟨[], id, .top hg hnew hne rfl ?_ hnd hcyc .refl (.inl ⟨rfl, ?_⟩)
        (fun n hn h => absurd h (hno n hn)) fun _ _ _ => rfl⟩
      · rw [List.map_id, List.append_nil]; rfl
      · rw [hm]; intro h; cases h
  | deep =>
      rw [hm, Mode.requiresGates, if_pos rfl] at hcyc
      rw [Mode.requiresGates, if_pos rfl]
      rcases ensureRootGate_cases hnd with ⟨he, -⟩ | ⟨-, r, hroot, h⟩ |
        ⟨-, hnone, gateId, content, kind, hfree, h⟩
      · -- the new work is at the top level
        obtain ⟨spec, hs⟩ := List.exists_mem_of_ne_nil _ hne
        have := (hwork spec.nodeId).mpr (.inr (specNodes_ids specs none o ▸ List.mem_map_of_mem hs))
        rw [he] at this; cases this
      · -- the root gate is an old node, and is re-opened
        obtain ⟨hr, hroot⟩ := guards_of_rootGate hroot
        have hr : r ∈ g.nodes := (List.mem_append.mp hr).resolve_right fun hl => by
          have := (specNodes_fresh hl).1
          rw [hroot.1] at this; cases this
        have honly : ∀ n ∈ g.nodes, n.Guards none ↔ n.id = r.id := fun n hn =>
          ⟨fun h => hg.gated.gate_unique n hn r hr none h hroot ▸ rfl,
            fun e => TaskGraph.eq_of_id_eq hg.wf.ids_nodup hn hr e ▸ hroot⟩
        rw [h] at hcyc ⊢
        rw [TaskGraph.modify_pushAll (hnew.not_mem (TaskGraph.id_mem_ids hr))] at hcyc ⊢
        refine ⟨[], fun n => if n.id = r.id then
          widenRootGate (topWork (g.pushAll (specNodes specs none o))) n else n,
          .top hg hnew hne rfl ?_ ?_ hcyc (fun n => ?_) (.inl ⟨rfl, fun _ => ⟨r, hr, hroot⟩⟩)
          (fun n hn hgd => ?_) fun n hn hgd => if_neg fun e => hgd ((honly n hn).mpr e)⟩
        · rw [List.append_nil]; rfl
        · rw [TaskGraph.pushAll_ids] at hnd ⊢
          rwa [TaskGraph.modify_ids fun n => (widenRootGate_same _ n).id]
        · split
          · exact widenRootGate_same _ n
          · exact .refl n
        · rw [if_pos ((honly n hn).mp hgd)]
          have hscope : ∀ d, d ∈ n.dependsOn ↔ WorkUnder g none d := fun d =>
            hgd.2 ▸ hg.gated.scope n hn hgd.1 d
          refine widenRootGate_reopened (fun d => ?_) ?_
          · rw [hwork, hscope]; tauto
          · obtain ⟨spec, hs⟩ := List.exists_mem_of_ne_nil _ hne
            refine ⟨spec.nodeId, (hwork _).mpr (.inr ?_), fun hd => ?_⟩
            · exact specNodes_ids specs none o ▸ List.mem_map_of_mem hs
            · exact hnew.fresh spec hs (hg.wf.deps_mem n hn _ hd)
      · -- the first top-level work of the plan: the root gate is new
        have hno := not_guards_of_rootGate hnone
        rw [h] at hcyc ⊢
        refine ⟨[gateNode gateId content kind none (topWork (g.pushAll (specNodes specs none o)))],
          id, .top hg hnew hne rfl ?_ ?_ hcyc .refl
          (.inr ⟨hm, fun n hn => hno n (List.mem_append_left _ hn), _, _, _, rfl⟩)
          (fun n hn hgd => absurd hgd (hno n (List.mem_append_left _ hn))) fun _ _ _ => rfl⟩
        · rw [List.map_id]; exact List.append_assoc ..
        · rw [TaskGraph.pushAll_ids]
          exact hnd.append (List.nodup_singleton _) (by simpa [gateNode] using hfree)

end Growth

/-- What an accepted seed does to a graph that satisfies the invariant. -/
theorem seed_cases (hg : Inv g) {specs : List NodeSpec} (h : seed g specs = (.ok (), g')) :
    ∃ kept, collapseSpecs [] specs = .ok kept ∧
      (∀ spec ∈ kept, ∀ n, g.get spec.nodeId = some n → Declares g spec n) ∧
      (unheld g kept = [] ∧ g' = g ∨ ∃ gates f, Growth none (seedNodes g kept) gates f g g') := by
  obtain ⟨kept, hc, hd, hm, rfl, hcyc⟩ := seed_eq_ok.mp h
  refine ⟨kept, hc, hm, ?_⟩
  by_cases hne : unheld g kept = []
  · rw [pushAll_seedNodes_of_held hne, refreshTop_eq_self hg]
    exact .inl ⟨hne, rfl⟩
  · exact .inr (refreshTop_growth hg (unheld_newSpecs (collapsed_nodeIds hc).1 hd) hne hcyc)

theorem seed_effect (hg : Inv g) (specs : List NodeSpec) : Effect parse g (seed g specs).2 := by
  refine .of_commit fun _ g' h => ?_
  obtain ⟨kept, -, -, ⟨-, rfl⟩ | ⟨gates, f, hgrow⟩⟩ := seed_cases hg (commit_eq_ok.mpr h)
  · exact .idle
  · exact .grow hgrow

/-- **Every call has an effect.** -/
theorem Op.effect (hg : Inv g) (op : Op) : Effect parse g (op.apply parse g) := by
  cases op with
  | seed specs => exact seed_effect hg specs
  | dispatch id worker => exact dispatch_effect hg.wf.ids_nodup id worker
  | expandNode id actor children => exact expandNode_effect hg id actor children
  | completeNode id actor a => exact completeNode_effect hg.wf.ids_nodup id actor a
  | failNode id actor => exact failNode_effect hg.wf.ids_nodup id actor
  | injectFromGate id actor newNodes => exact injectFromGate_effect hg id actor newNodes
  | requeueFailed id => exact requeueFailed_effect hg.wf.ids_nodup id

end Jcode.Dag
