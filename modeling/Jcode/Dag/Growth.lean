import Jcode.Dag.Effect

/-!
# Dag — the calls that grow the graph

`expand_node` and `inject_from_gate` add work at one level of the tree.  Each has a lemma that
reads an accepted call back (`expandNode_eq_ok`, `injectFromGate_eq_ok`) and, on a graph that
satisfies the invariant, is a `Growth`.
-/

namespace Jcode.Dag
open Rust

variable {parse : String → Option ConfidenceLevel} {g g' : TaskGraph}

/-! ### New nodes -/

/-- The nodes a batch of specs adds under `p`. -/
def specNodes (specs : List NodeSpec) (p : Option NodeId) (o : NodeOrigin) : List TaskNode :=
  specs.map fun spec => specToNode spec p o

/-- The graph with `l` pushed. -/
def TaskGraph.pushAll (g : TaskGraph) (l : List TaskNode) : TaskGraph :=
  { g with nodes := g.nodes ++ l }

@[simp] theorem TaskGraph.pushAll_mode (l : List TaskNode) : (g.pushAll l).mode = g.mode := rfl

@[simp] theorem TaskGraph.pushAll_nodes (l : List TaskNode) :
    (g.pushAll l).nodes = g.nodes ++ l := rfl

@[simp] theorem TaskGraph.pushAll_ids (l : List TaskNode) :
    (g.pushAll l).ids = g.ids ++ l.map (·.id) := List.map_append

theorem TaskGraph.push_eq_pushAll (n : TaskNode) : g.push n = g.pushAll [n] := rfl

theorem TaskGraph.pushAll_pushAll (l₁ l₂ : List TaskNode) :
    (g.pushAll l₁).pushAll l₂ = g.pushAll (l₁ ++ l₂) := by
  simp [TaskGraph.pushAll]

/-- A write to an old node leaves the pushed ones alone. -/
theorem TaskGraph.modify_pushAll {l : List TaskNode} {id : NodeId} (hid : id ∉ l.map (·.id))
    (f : TaskNode → TaskNode) : (g.pushAll l).modify id f = (g.modify id f).pushAll l := by
  simp only [modify, pushAll, List.map_append, TaskGraph.mk.injEq, true_and]
  congr 1
  refine (List.map_congr_left fun n hn => if_neg fun e => hid ?_).trans (List.map_id l)
  exact List.mem_map.mpr ⟨n, hn, e⟩

@[simp] theorem specNodes_ids (specs : List NodeSpec) (p : Option NodeId) (o : NodeOrigin) :
    (specNodes specs p o).map (·.id) = specs.map NodeSpec.nodeId := map_specToNode_ids specs p o

theorem pushSpecs_eq_pushAll (specs : List NodeSpec) (p : Option NodeId) (o : NodeOrigin) :
    pushSpecs g specs p o = g.pushAll (specNodes specs p o) := pushSpecs_eq specs p o

/-- New nodes are queued work. -/
theorem specNodes_fresh {specs : List NodeSpec} {p : Option NodeId} {o : NodeOrigin} {n : TaskNode}
    (hn : n ∈ specNodes specs p o) : n.isGate = false ∧
      n.status = .queued ∧ n.expanded = false ∧ n.parent = p ∧ n.dependsOn.Nodup := by
  obtain ⟨spec, -, rfl⟩ := List.mem_map.mp hn
  exact ⟨rfl, rfl, rfl, rfl, nodup_dedupDeps _⟩

/-- What `expand_node` and `inject_from_gate` check of the specs of new nodes. -/
structure NewSpecs (g : TaskGraph) (specs : List NodeSpec) : Prop where
  nodup : (specs.map NodeSpec.nodeId).Nodup
  fresh : ∀ spec ∈ specs, spec.nodeId ∉ g.ids
  deps : ∀ spec ∈ specs, ∀ d ∈ spec.dependsOn, d ∈ specs.map NodeSpec.nodeId ∨ d ∈ g.ids

theorem newSpecs_of_eq_ok {op : String} {specs : List NodeSpec} {ids : List NodeId} {u : Unit}
    (hids : newNodeIds g op [] specs = .ok ids)
    (hdeps : checkDependencies g ids (ids.zip specs) = .ok u) :
    ids = specs.map NodeSpec.nodeId ∧ NewSpecs g specs := by
  obtain ⟨rfl, hnd, hnew⟩ := newNodeIds_eq_ok hids List.nodup_nil
  exact ⟨rfl, hnd, hnew, checkDependencies_zip hdeps⟩

namespace NewSpecs
variable {specs : List NodeSpec} {p : Option NodeId} {o : NodeOrigin}

theorem not_mem (h : NewSpecs g specs) {id : NodeId} (hid : id ∈ g.ids) :
    id ∉ (specNodes specs p o).map (·.id) := by
  rw [specNodes_ids]
  intro hc
  obtain ⟨spec, hs, rfl⟩ := List.mem_map.mp hc
  exact h.fresh spec hs hid

theorem ids_nodup (h : NewSpecs g specs) (hg : g.ids.Nodup) :
    (g.pushAll (specNodes specs p o)).ids.Nodup := by
  rw [TaskGraph.pushAll_ids]
  refine hg.append ?_ fun i hi hi' => h.not_mem hi hi'
  rw [specNodes_ids]
  exact h.nodup

theorem new_deps (h : NewSpecs g specs) : ∀ n ∈ specNodes specs p o, ∀ d ∈ n.dependsOn,
    d ∈ (specNodes specs p o).map (·.id) ∨ d ∈ g.ids := by
  intro n hn d hd
  obtain ⟨spec, hs, rfl⟩ := List.mem_map.mp hn
  rw [specNodes_ids]
  exact h.deps spec hs d (mem_dedupDeps.mp hd)

end NewSpecs

/-! ### Expansion -/

/-- The gate `expand_node` adds next to the children, in deep mode. -/
def expandGates (g : TaskGraph) (id : NodeId) (children : List NodeSpec) : List TaskNode :=
  let staged := g.pushAll (specNodes children (some id) .expand)
  let kind := (((staged.get id).map TaskNode.kind).getD NodeKind.explore).gateKind
  if g.mode.requiresGates then
    [gateNode (uniqueGateId staged id) (gateContent kind id) kind (some id)
      (children.map NodeSpec.nodeId)]
  else []

/-- What `expand_node` adds. -/
def expandNodes (g : TaskGraph) (id : NodeId) (children : List NodeSpec) : List TaskNode :=
  specNodes children (some id) .expand ++ expandGates g id children

theorem expandGates_light {id : NodeId} {children : List NodeSpec} (hm : g.mode = .light) :
    expandGates g id children = [] := by
  simp [expandGates, hm, Mode.requiresGates]

theorem expandGates_deep {id : NodeId} {children : List NodeSpec} (hm : g.mode = .deep) :
    ∃ gateId content kind, gateId ∉ (g.pushAll (specNodes children (some id) .expand)).ids ∧
      expandGates g id children =
        [gateNode gateId content kind (some id) (children.map NodeSpec.nodeId)] := by
  rw [expandGates, hm, Mode.requiresGates, if_pos rfl]
  exact ⟨_, _, _, uniqueGateId_fresh _ id, rfl⟩

theorem mem_expandGates {id : NodeId} {children : List NodeSpec} {m : TaskNode}
    (hm : m ∈ expandGates g id children) : m.isGate = true ∧ m.status = .queued ∧
      m.expanded = false ∧ m.parent = some id ∧ m.dependsOn = children.map NodeSpec.nodeId := by
  cases hmode : g.mode with
  | light => rw [expandGates_light hmode] at hm; cases hm
  | deep =>
      obtain ⟨gateId, content, kind, -, e⟩ := expandGates_deep hmode
      rw [e] at hm
      obtain rfl := List.mem_singleton.mp hm
      exact ⟨rfl, rfl, rfl, rfl, rfl⟩

theorem expandNodes_queued {id : NodeId} {children : List NodeSpec} {m : TaskNode}
    (hm : m ∈ expandNodes g id children) : m.status = .queued := by
  rcases List.mem_append.mp hm with hm | hm
  · exact (specNodes_fresh hm).2.1
  · exact (mem_expandGates hm).2.1

theorem expandNodes_ids_nodup {children : List NodeSpec} (hg : g.ids.Nodup)
    (h : NewSpecs g children) (id : NodeId) :
    (g.pushAll (expandNodes g id children)).ids.Nodup := by
  rw [expandNodes, ← TaskGraph.pushAll_pushAll, TaskGraph.pushAll_ids]
  refine (h.ids_nodup hg).append ?_ ?_
  · cases hm : g.mode with
    | light => rw [expandGates_light hm]; exact List.nodup_nil
    | deep =>
        obtain ⟨gateId, content, kind, -, e⟩ := expandGates_deep hm
        rw [e]; exact List.nodup_singleton _
  · intro i hi hi'
    cases hm : g.mode with
    | light => rw [expandGates_light hm] at hi'; cases hi'
    | deep =>
        obtain ⟨gateId, content, kind, hfresh, e⟩ := expandGates_deep hm
        rw [e] at hi'
        obtain rfl : i = gateId := List.mem_singleton.mp hi'
        exact hfresh hi

@[simp] theorem flipComposite_id (deps : List NodeId) (n : TaskNode) :
    (flipComposite deps n).id = n.id := rfl

/-- What an accepted expansion checked and did. -/
theorem expandNode_eq_ok {id : NodeId} {actor : String} {children : List NodeSpec}
    {out : ExpandOutcome} (hg : g.ids.Nodup)
    (h : expandNode g id actor children = (.ok out, g')) :
    ∃ n, g.get id = some n ∧ n.isGate = false ∧ n.expanded = false ∧ n.status = .running ∧
      children ≠ [] ∧ NewSpecs g children ∧ g'.cycleNodes = [] ∧
      g' = (g.modify id (flipComposite ((expandNodes g id children).map (·.id)))).pushAll
        (expandNodes g id children) := by
  simp only [expandNode, commit_eq_ok, bind_eq_ok, okOr_eq_ok, ensure_eq_ok, pure, Except.pure,
    Except.ok.injEq, Prod.mk.injEq, pushSpecs_eq_pushAll] at h
  obtain ⟨n, hn, _, -, _, hgate, _, hstate, _, hne, childIds, hids, _, hdeps, staged, hmut, _,
    hcyc, -, rfl⟩ := h
  obtain ⟨rfl, hnew⟩ := newSpecs_of_eq_ok hids hdeps
  rw [not_or, Bool.not_eq_true, not_not] at hstate
  refine ⟨n, hn, hgate, hstate.1, hstate.2, hne, hnew, hcyc, ?_⟩
  have hmut : (g.pushAll (expandNodes g id children)).getMut id
      (flipComposite ((expandNodes g id children).map (·.id))) = some staged := by
    rw [← hmut, expandNodes, expandGates, TaskGraph.pushAll_mode]
    cases g.mode <;> simp [Mode.requiresGates, TaskGraph.push_eq_pushAll, TaskGraph.pushAll_pushAll,
      gateNode]
  have hnd := expandNodes_ids_nodup hg hnew id
  have hold : id ∉ (expandNodes g id children).map (·.id) := fun hc =>
    (List.nodup_append.mp (TaskGraph.pushAll_ids _ ▸ hnd)).2.2 id (TaskGraph.mem_ids_of_get hn) id
      hc rfl
  rw [((TaskGraph.getMut_eq_some_iff hnd).mp hmut).2, TaskGraph.modify_pushAll hold]

theorem expandNode_effect (hg : Inv g) (id : NodeId) (actor : String) (children : List NodeSpec) :
    Effect parse g (expandNode g id actor children).2 := by
  refine .of_commit fun out g' h => ?_
  obtain ⟨n, hn, hgate, hexp, hrun, hne, hnew, hcyc, rfl⟩ :=
    expandNode_eq_ok hg.wf.ids_nodup (commit_eq_ok.mpr h)
  clear h
  obtain ⟨hmem, rfl⟩ := TaskGraph.mem_of_get hn
  -- the level under the node was empty: it had no children and no gate
  have hempty : ∀ m ∈ g.nodes, m.parent ≠ some n.id := fun m hm =>
    hg.gated.not_parent hg.wf.ids_nodup hmem hexp hm
  have hvacant : ∀ m ∈ g.nodes, ¬ m.Guards (some n.id) := fun m hm h => hempty m hm h.2
  have hself : ∀ m ∈ g.nodes, some n.id = some m.id → m = n := fun m hm e =>
    TaskGraph.eq_of_id_eq hg.wf.ids_nodup hm hmem (Option.some.inj e).symm
  refine Effect.grow (?_ : Growth (some n.id) (specNodes children (some n.id) .expand)
    (expandGates g n.id children) (fun m => if m.id = n.id then
      flipComposite ((expandNodes g n.id children).map (·.id)) m else m) g _)
  exact
    { mode_eq := rfl
      nodes_eq := rfl
      same := fun m => by split <;> constructor <;> rfl
      new_ne := by simpa [specNodes] using hne
      ids_nodup := by
        have := expandNodes_ids_nodup hg.wf.ids_nodup hnew n.id
        rwa [TaskGraph.pushAll_ids, TaskGraph.modify_ids (flipComposite_id _),
          ← TaskGraph.pushAll_ids]
      acyclic := hcyc
      parent_mem := fun q hq => ⟨n, hmem, Option.some.inj hq, hgate⟩
      fresh := fun m hm => by
        rcases List.mem_append.mp hm with hm | hm
        · exact (specNodes_fresh hm).2
        · obtain ⟨-, hs, he, hp, hd⟩ := mem_expandGates hm
          exact ⟨hs, he, hp, hd ▸ hnew.nodup⟩
      new_work := fun m hm => (specNodes_fresh hm).1
      new_deps := hnew.new_deps
      gates_once := by
        cases hmode : g.mode with
        | light => rw [expandGates_light hmode]; exact Nat.zero_le 1
        | deep => obtain ⟨_, _, _, -, e⟩ := expandGates_deep hmode; rw [e]; exact le_rfl
      gates_scope := fun m hm => by
        obtain ⟨hmg, -, -, -, hd⟩ := mem_expandGates hm
        refine ⟨hmg, fun d => ?_⟩
        rw [hd, specNodes_ids, or_iff_right]
        rintro ⟨w, hw, -, -, hp⟩
        exact hempty w hw hp
      gates_vacant := fun hne => by
        refine ⟨?_, hvacant⟩
        cases hmode : g.mode with
        | light => exact absurd (expandGates_light hmode) hne
        | deep => rfl
      gate_present := fun hmode he => by
        obtain ⟨_, _, _, -, e⟩ := expandGates_deep hmode
        rw [e] at he; cases he
      gate := fun m hm h => absurd h (hvacant m hm)
      join := fun m hm e => by
        obtain rfl := hself m hm e
        rw [if_pos rfl]
        exact
          { expanded := rfl
            deps_nodup := nodup_extendDeps _
            mem_deps := fun d => mem_extendDeps
            was_open := by rw [hrun]; decide
            not_done := by simp [flipComposite]
            not_running := by simp [flipComposite] }
      elsewhere := fun m _ _ hp => if_neg fun e => hp (congrArg some e.symm) }

/-! ### Injection -/

/-- The write of `inject_from_gate` to the composite of the gate, if there is one. -/
def joinLevel (newIds : List NodeId) (g : TaskGraph) : Option NodeId → TaskGraph
  | some parent => g.modify parent (joinGaps newIds)
  | none => g

@[simp] theorem requeueGate_id (newIds : List NodeId) (n : TaskNode) :
    (requeueGate newIds n).id = n.id := rfl

/-- What an accepted injection checked and did. -/
theorem injectFromGate_eq_ok {id : NodeId} {actor : String} {newNodes : List NodeSpec}
    {ids : List NodeId} (hg : g.ids.Nodup)
    (h : injectFromGate g id actor newNodes = (.ok ids, g')) :
    ∃ n, g.get id = some n ∧ n.isGate = true ∧ n.status = .running ∧ newNodes ≠ [] ∧
      NewSpecs g newNodes ∧ g'.cycleNodes = [] ∧ ids = newNodes.map NodeSpec.nodeId ∧
      g' = joinLevel ids ((g.modify id (requeueGate ids)).pushAll
        (specNodes newNodes n.parent .gap)) n.parent := by
  simp only [injectFromGate, commit_eq_ok, bind_eq_ok, okOr_eq_ok, ensure_eq_ok, pure, Except.pure,
    Except.ok.injEq, Prod.mk.injEq, pushSpecs_eq_pushAll] at h
  obtain ⟨n, hn, _, -, _, hgate, _, hrun, _, hne, newIds, hids, _, hdeps, staged, hmut, _, hcyc,
    rfl, hg'⟩ := h
  obtain ⟨rfl, hnew⟩ := newSpecs_of_eq_ok hids hdeps
  have hnd := hnew.ids_nodup (p := n.parent) (o := .gap) hg
  obtain ⟨-, rfl⟩ := (TaskGraph.getMut_eq_some_iff hnd).mp hmut
  refine ⟨n, hn, hgate, hrun, hne, hnew, hg' ▸ hcyc, rfl, hg'.symm.trans ?_⟩
  rw [← TaskGraph.modify_pushAll (hnew.not_mem (TaskGraph.mem_ids_of_get hn))]
  cases n.parent with
  | none => rfl
  | some q =>
      refine TaskGraph.getMut_getD ?_ q _
      rw [TaskGraph.modify_ids (requeueGate_id _)]
      exact hnew.ids_nodup hg

/-- What an injection into the gate `id` of the level under `p` does to an old node. -/
def injectedNode (id : NodeId) (p : Option NodeId) (newIds : List NodeId) (n : TaskNode) :
    TaskNode :=
  if n.id = id then requeueGate newIds n
  else if p = some n.id then joinGaps newIds n
  else n

theorem injectedNode_same (id : NodeId) (p : Option NodeId) (newIds : List NodeId) (n : TaskNode) :
    Same n (injectedNode id p newIds n) := by
  unfold injectedNode
  split
  · constructor <;> rfl
  · split <;> constructor <;> rfl

theorem joinLevel_eq {newIds : List NodeId} {id : NodeId} {p : Option NodeId} {l : List TaskNode}
    (hp : ∀ q, p = some q → q ≠ id ∧ q ∉ l.map (·.id)) :
    joinLevel newIds ((g.modify id (requeueGate newIds)).pushAll l) p =
      TaskGraph.pushAll { g with nodes := g.nodes.map (injectedNode id p newIds) } l := by
  cases p with
  | none =>
      simp only [joinLevel, TaskGraph.modify]
      congr 2
  | some q =>
      obtain ⟨hq, hql⟩ := hp q rfl
      rw [joinLevel, TaskGraph.modify_pushAll hql]
      simp only [TaskGraph.modify, List.map_map]
      congr 2
      refine List.map_congr_left fun n _ => ?_
      by_cases hid : n.id = id
      · simp [injectedNode, hid, hq.symm]
      · by_cases hn : n.id = q
        · simp [injectedNode, hn, hq]
        · simp [injectedNode, hid, hn, Ne.symm hn]

theorem injectFromGate_effect (hg : Inv g) (id : NodeId) (actor : String)
    (newNodes : List NodeSpec) : Effect parse g (injectFromGate g id actor newNodes).2 := by
  refine .of_commit fun out g' h => ?_
  obtain ⟨n, hn, hgate, hrun, hne, hnew, hcyc, rfl, rfl⟩ :=
    injectFromGate_eq_ok hg.wf.ids_nodup (commit_eq_ok.mpr h)
  clear h
  obtain ⟨hmem, rfl⟩ := TaskGraph.mem_of_get hn
  have hguards : n.Guards n.parent := ⟨hgate, rfl⟩
  have hself : ∀ m ∈ g.nodes, m.id = n.id → m = n := fun m hm e =>
    TaskGraph.eq_of_id_eq hg.wf.ids_nodup hm hmem e
  -- the composite of the gate, if any, is expanded and waits for the gate
  have hparent : ∀ m ∈ g.nodes, n.parent = some m.id → m.expanded = true ∧ m.isGate = false ∧
      n.id ∈ m.dependsOn := fun m hm hp => by
    obtain ⟨x, hx, e, hexp, hdep⟩ := hg.gated.composite n hmem m.id hp
    rw [TaskGraph.eq_of_id_eq hg.wf.ids_nodup hx hm e] at hexp hdep
    refine ⟨hexp, ?_, hdep⟩
    by_contra hc
    rw [hg.gated.gate_atomic m hm (by simpa using hc)] at hexp
    cases hexp
  have hopen : ∀ m ∈ g.nodes, n.parent = some m.id → ¬ DepsDone g m := fun m hm hp hd => by
    have := hd.node hg.wf.ids_nodup hmem (hparent m hm hp).2.2
    rw [hrun] at this; cases this
  have hne_self : ∀ m ∈ g.nodes, n.parent = some m.id → m.id ≠ n.id := fun m hm hp e => by
    have hwork := (hparent m hm hp).2.1
    rw [hself m hm e, hgate] at hwork; cases hwork
  have hids : ∀ q, n.parent = some q →
      q ≠ n.id ∧ q ∉ (specNodes newNodes n.parent .gap).map (·.id) := fun q hq => by
    obtain ⟨x, hx, rfl, -⟩ := hg.gated.composite n hmem q hq
    exact ⟨hne_self x hx hq, hnew.not_mem (TaskGraph.id_mem_ids hx)⟩
  rw [joinLevel_eq hids] at hcyc ⊢
  refine Effect.grow (?_ : Growth n.parent (specNodes newNodes n.parent .gap) []
    (injectedNode n.id n.parent (newNodes.map NodeSpec.nodeId)) g _)
  exact
    { mode_eq := rfl
      nodes_eq := by rw [List.append_nil]; rfl
      same := injectedNode_same _ _ _
      new_ne := by simpa [specNodes] using hne
      ids_nodup := by
        have := hnew.ids_nodup (p := n.parent) (o := .gap) hg.wf.ids_nodup
        rw [TaskGraph.pushAll_ids] at this ⊢
        rwa [show TaskGraph.ids { g with nodes := _ } = g.ids from
          TaskGraph.map_ids fun m _ => (injectedNode_same _ _ _ m).id]
      acyclic := hcyc
      parent_mem := fun q hq => by
        obtain ⟨x, hx, rfl, -⟩ := hg.gated.composite n hmem q hq
        exact ⟨x, hx, rfl, (hparent x hx hq).2.1⟩
      fresh := fun m hm => (specNodes_fresh (List.append_nil _ ▸ hm)).2
      new_work := fun m hm => (specNodes_fresh hm).1
      new_deps := hnew.new_deps
      gates_once := Nat.zero_le 1
      gates_scope := fun m hm => nomatch hm
      gates_vacant := fun h => absurd rfl h
      gate_present := fun _ _ => ⟨n, hmem, hguards⟩
      gate := fun m hm hm' => by
        obtain rfl := hg.gated.gate_unique m hm n hmem _ hm' hguards
        rw [injectedNode, if_pos rfl]
        exact
          { expanded := rfl
            deps_nodup := nodup_extendDeps _
            mem_deps := fun d => by rw [specNodes_ids]; exact mem_extendDeps
            not_done := by simp [requeueGate]
            running := by simp [requeueGate]
            passed := by simp [hrun] }
      join := fun m hm e => by
        obtain ⟨hexp, hwork, hdep⟩ := hparent m hm e
        rw [injectedNode, if_neg (hne_self m hm e), if_pos e, List.append_nil]
        exact
          { expanded := hexp
            deps_nodup := nodup_extendDeps _
            mem_deps := fun d => by rw [specNodes_ids]; exact mem_extendDeps
            was_open := fun hs => hopen m hm e (hg.ordered.done m hm hs)
            not_done := fun hs => hopen m hm e (hg.ordered.done m hm hs)
            not_running := fun hs => hopen m hm e (hg.ordered.running m hm hs fun hr => by
              rw [hr.1] at hwork; cases hwork) }
      elsewhere := fun m hm hm' hp => by
        have hne : m.id ≠ n.id := fun e => hm' (hself m hm e ▸ hguards)
        rw [injectedNode, if_neg hne, if_neg hp] }

end Jcode.Dag
