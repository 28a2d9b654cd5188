import Jcode.Dag.Keeping
import Jcode.Live.Agree
import Jcode.Server.PlanSteps
import Jcode.Support.Runs

/-!
# Server — the stored plan over any run

A direct update replaces the items of a plan, an approval appends to them, and a graph mutation
lifts and lowers them.

* `plans_acyclic`: no plan gets a cycle, as long as an approval writes to the edges it has checked.
* `plans_acyclic_failing`: the check and the write of an approval are two critical sections, and two
  approvals close a cycle between them.
* `plan_ids_iff`: the ids of a plan stay distinct exactly when no direct update names an id twice and
  no approval appends one that is there, and only a direct update removes an id.
* `plan_ids_failing`: neither checks it.
-/

namespace Jcode.Server
open Rust Runs Jcode.Dag Jcode.Bridge Jcode.Live

/-! ### The edges of the items -/

/-- The ids of the items with their dependencies. -/
def itemEdges (items : List PlanItem) : List (String × List String) :=
  items.map fun item => (item.id, item.blockedBy)

theorem ids_eq_itemEdges (items : List PlanItem) :
    items.map PlanItem.id = (itemEdges items).map Prod.fst := by
  simp [itemEdges, Function.comp_def]

theorem cycleItemIds_eq_nil_iff_ranked {order : IterOrder} {items : List PlanItem} :
    cycleItemIds order items = [] ↔ Ranked (itemEdges items) := by
  rw [cycleItemIds_eq_nil_iff]
  refine exists_congr fun rank => ?_
  rw [← ids_eq_itemEdges]
  simp only [itemEdges, List.forall_mem_map, knownIds, List.mem_toFinset]

theorem planCycleError_eq_none_iff {order : IterOrder} {items : List PlanItem} :
    planCycleError order items = none ↔ Ranked (itemEdges items) := by
  have hiff : planCycleError order items = none ↔ cycleItemIds order items = [] := by
    simp [planCycleError]
  exact hiff.trans cycleItemIds_eq_nil_iff_ranked

section Bridge
variable {json : SerdeJson} {plan : VersionedPlan} {graph : TaskGraph}

theorem toTaskGraph_edges : (toTaskGraph json plan).edges = itemEdges plan.items := by
  rw [toTaskGraph_eq]
  simp [TaskGraph.edges, itemEdges, liftItem, Function.comp_def]

theorem applyTaskGraph_edges : itemEdges (applyTaskGraph json plan graph).items = graph.edges := by
  simp [applyTaskGraph, TaskGraph.edges, itemEdges, lowerItem, Function.comp_def]

end Bridge

/-! ### Graph mutations -/

/-- The items `items'` have the ids of `items`, in order, and perhaps more; they have no cycle if
`items` has none, and no id twice if `items` has none twice. -/
structure ItemsKept (items items' : List PlanItem) : Prop where
  ids : items.map PlanItem.id <+: items'.map PlanItem.id
  ranked : Ranked (itemEdges items) → Ranked (itemEdges items')
  nodup : (items.map PlanItem.id).Nodup → (items'.map PlanItem.id).Nodup

theorem ItemsKept.refl (items : List PlanItem) : ItemsKept items items :=
  ⟨List.prefix_refl _, id, id⟩

/-- What a call keeps of the lifted graph, it keeps of the items. -/
theorem ItemsKept.of_keeps {json : SerdeJson} {plan : VersionedPlan} {graph : TaskGraph}
    (h : Keeps (toTaskGraph json plan) graph) :
    ItemsKept plan.items (applyTaskGraph json plan graph).items := by
  have hlifted : (toTaskGraph json plan).ids = plan.items.map PlanItem.id := toTaskGraph_ids
  have hlowered : (applyTaskGraph json plan graph).items.map PlanItem.id = graph.ids :=
    applyTaskGraph_ids
  refine ⟨?_, fun hranked => ?_, fun hids => ?_⟩
  · rw [hlowered, ← hlifted]
    exact h.ids
  · rw [applyTaskGraph_edges]
    exact h.ranked (toTaskGraph_edges ▸ hranked)
  · rw [hlowered]
    exact h.nodup (hlifted ▸ hids)

theorem claim_keeps (graph : TaskGraph) (nodeId : NodeId) (actor : String) :
    Keeps graph (claimQueuedNodeForActor graph nodeId actor) := by
  simp only [claimQueuedNodeForActor]
  split_ifs
  · exact dispatch_keeps nodeId actor
  · exact .refl graph

/-- The items of every plan are kept. -/
def PlansKept (plans plans' : Plans) : Prop :=
  ∀ swarmId, ItemsKept (itemsOf plans swarmId) (itemsOf plans' swarmId)

theorem PlansKept.refl (plans : Plans) : PlansKept plans plans := fun _ => .refl _

theorem itemsOf_insert (plans : Plans) (swarmId swarmId' : String) (plan : VersionedPlan) :
    itemsOf (plans.insert swarmId plan) swarmId' =
      if swarmId' = swarmId then plan.items else itemsOf plans swarmId' := by
  rw [itemsOf, StrMap.get_insert]
  split
  · rfl
  · rfl

theorem PlansKept.insert {plans : Plans} {swarmId : String} {plan : VersionedPlan}
    (h : ItemsKept (itemsOf plans swarmId) plan.items) :
    PlansKept plans (plans.insert swarmId plan) := by
  intro swarmId'
  rw [itemsOf_insert]
  split
  · rename_i heq
    exact heq ▸ h
  · exact .refl _

theorem itemsOf_eq (plans : Plans) (swarmId : String) :
    itemsOf plans swarmId = ((plans.get swarmId).getD VersionedPlan.new).items := by
  rw [itemsOf]
  cases plans.get swarmId with
  | none => rfl
  | some plan => rfl

theorem mutateNode_keeps {α : Type} (env : Env) (plans : Plans) (session swarmId : String)
    (nodeId : NodeId) (name : String) (op : TaskGraph → Outcome α) (hop : ∀ g, Keeps g (op g).2) :
    PlansKept plans (mutateNode env plans session swarmId nodeId name op).2 := by
  unfold mutateNode
  split
  · exact .refl plans
  · rename_i plan hplan
    dsimp only
    split
    · rename_i graph hgraph
      refine .insert ?_
      have hkeeps := (claim_keeps (toTaskGraph env.json plan) nodeId session).trans (hop _)
      rw [hgraph] at hkeeps
      rw [itemsOf, hplan]
      exact .of_keeps hkeeps
    · exact .refl plans

theorem seedPlan_keeps (json : SerdeJson) (plan : VersionedPlan) (specs : List NodeSpec) :
    ItemsKept plan.items (seedPlan json plan specs).2.items := by
  unfold seedPlan
  dsimp only
  split
  · rename_i graph hgraph
    split
    · have hkeeps := seed_keeps (g := toTaskGraph json plan) specs
      rw [hgraph] at hkeeps
      exact .of_keeps hkeeps
    · exact .refl _
  · exact .refl _

/-- **A graph mutation keeps the ids of every plan, and closes no cycle**, whatever the items are. -/
theorem handle_keeps (env : Env) (plans : Plans) (session : String) (request : Request) :
    PlansKept plans (handle env plans session request).2 := by
  cases request with
  | seedGraph mode nodes =>
      simp only [handle, handleCommSeedGraph]
      split
      · exact .refl plans
      · rename_i swarmId _
        have hstart := itemsOf_eq plans swarmId
        generalize (plans.get swarmId).getD VersionedPlan.new = plan at hstart ⊢
        have hplan : ItemsKept (itemsOf plans swarmId) plan.items := hstart ▸ .refl _
        split
        · exact .insert hplan
        · -- the mode and the participants are written first, the items are as they were
          generalize hwritten : VersionedPlan.mk _ _ _ _ _ = written
          have hitems : written.items = plan.items := hwritten ▸ rfl
          have hkept := seedPlan_keeps env.json written (nodes.map specFromWire)
          rw [hitems, ← hstart] at hkept
          split
          all_goals
            rename_i seeded hseed
            rw [hseed] at hkept
            exact .insert hkept
  | expandNode nodeId children =>
      simp only [handle, handleCommExpandNode]
      split
      · exact .refl plans
      · exact mutateNode_keeps _ _ _ _ _ _ _ fun g => expandNode_keeps _ _ _
  | completeNode nodeId artifactJson =>
      simp only [handle, handleCommCompleteNode]
      split
      · exact .refl plans
      · split
        · exact .refl plans
        · exact mutateNode_keeps _ _ _ _ _ _ _ fun g => completeNode_keeps _ _ _
  | injectGap gateId nodes =>
      simp only [handle, handleCommInjectGap]
      split
      · exact .refl plans
      · exact mutateNode_keeps _ _ _ _ _ _ _ fun g => injectFromGate_keeps _ _ _

/-! ### Acyclic plans -/

section Requests
variable {order : IterOrder} {requestKey : String → String → List String → String}
variable {request : ℕ → PlanRequest} {s s' : PlanState} {e : PlanEvent}

/-- No stored plan has a cycle. -/
def PlansAcyclic (s : PlanState) : Prop :=
  ∀ (order : IterOrder) swarmId plan, s.plans.get swarmId = some plan →
    cycleItemIds order plan.items = []

variable (request) in
/-- An approval writes to a plan with the edges that it checked. -/
def WritesChecked (s : PlanState) : PlanEvent → Prop
  | .writePlan i =>
      match s.work i with
      | .validated _ seen => itemEdges (itemsOf s.plans (request i).swarmId) = itemEdges seen
      | _ => True
  | _ => True

instance (s : PlanState) (e : PlanEvent) : Decidable (WritesChecked request s e) := by
  unfold WritesChecked
  split
  · split <;> infer_instance
  · infer_instance

/-- The plans have no cycle, and an approval that is about to write checked that it closes none. -/
structure Checked (s : PlanState) : Prop where
  plans : ∀ swarmId, Ranked (itemEdges (itemsOf s.plans swarmId))
  seen : ∀ i proposal seen, s.work i = .validated proposal seen →
    Ranked (itemEdges (seen ++ proposal.items))

theorem itemEdges_append (items items' : List PlanItem) :
    itemEdges (items ++ items') = itemEdges items ++ itemEdges items' := List.map_append

theorem plansAcyclic_iff : PlansAcyclic s ↔ ∀ swarmId, Ranked (itemEdges (itemsOf s.plans swarmId)) := by
  have hnil : Ranked (itemEdges []) := ⟨fun _ => 0, fun _ he => absurd he List.not_mem_nil⟩
  refine ⟨fun h swarmId => ?_, fun h order swarmId plan hplan => ?_⟩
  · rw [itemsOf]
    cases hplan : s.plans.get swarmId with
    | none => exact hnil
    | some plan => exact cycleItemIds_eq_nil_iff_ranked.mp (h .insertion swarmId plan hplan)
  · have hranked := h swarmId
    rw [itemsOf, hplan] at hranked
    exact cycleItemIds_eq_nil_iff_ranked.mpr hranked

/-- A write of the items of one plan. -/
theorem ranked_insert {plans : Plans} {swarmId : String} {plan : VersionedPlan}
    (h : ∀ swarmId, Ranked (itemEdges (itemsOf plans swarmId)))
    (hplan : Ranked (itemEdges plan.items)) (swarmId' : String) :
    Ranked (itemEdges (itemsOf (plans.insert swarmId plan) swarmId')) := by
  rw [itemsOf_insert]
  split
  · exact hplan
  · exact h swarmId'

/-- A decision that is not checked now was not checked by this step. -/
theorem seen_setWork {i : ℕ} {work : Work}
    (h : ∀ i proposal seen, s.work i = .validated proposal seen →
      Ranked (itemEdges (seen ++ proposal.items)))
    (hwork : ∀ proposal seen, work = .validated proposal seen →
      Ranked (itemEdges (seen ++ proposal.items))) (j : ℕ) (proposal : Proposal)
    (seen : List PlanItem) (hj : Function.update s.work i work j = .validated proposal seen) :
    Ranked (itemEdges (seen ++ proposal.items)) := by
  rw [Function.update_apply] at hj
  split at hj
  · exact hwork proposal seen hj
  · exact h j proposal seen hj

theorem Checked.step (hs : Checked s) (hwrites : WritesChecked request s e)
    (h : planStep order requestKey request s e = some s') : Checked s' := by
  have effect := plan_step_cases h
  cases effect with
  | call _ | runtime _ _ _ | refuse | propose _ | refuseUpdate _ => exact ⟨hs.plans, hs.seen⟩
  | missing _ _ _ | read _ _ _ _ | find _ _ _ _ | cyclic _ | remove _ =>
      exact ⟨hs.plans, seen_setWork hs.seen fun _ _ heq => by cases heq⟩
  | validate hwork hcheck =>
      refine ⟨hs.plans, seen_setWork hs.seen fun proposal seen heq => ?_⟩
      cases heq
      exact planCycleError_eq_none_iff.mp hcheck
  | @merge i proposal seen hwork =>
      refine ⟨ranked_insert hs.plans ?_, seen_setWork hs.seen fun _ _ heq => by cases heq⟩
      show Ranked (itemEdges (_ ++ proposal.items))
      have hedges : itemEdges (itemsOf s.plans (request i).swarmId) = itemEdges seen := by
        simpa only [WritesChecked, hwork] using hwrites
      rw [← itemsOf_eq, itemEdges_append, hedges, ← itemEdges_append]
      exact hs.seen i proposal seen hwork
  | update hcheck => exact ⟨ranked_insert hs.plans (planCycleError_eq_none_iff.mp hcheck), hs.seen⟩
  | graph => exact ⟨fun swarmId => (handle_keeps _ _ _ _ swarmId).ranked (hs.plans swarmId), hs.seen⟩

theorem Checked.init (files : Mutation.Files) : Checked (PlanState.init files StrMap.empty) where
  plans _ := ⟨fun _ => 0, fun _ he => absurd he List.not_mem_nil⟩
  seen _ _ _ h := by cases h

/-- **Live plans stay acyclic** in a run whose approvals all write to the edges they have checked. -/
theorem plans_acyclic {files : Mutation.Files} {ts : List (Transition PlanState PlanEvent)}
    (run : Run (planStep order requestKey request) (PlanState.init files StrMap.empty) ts s)
    (hwrites : ∀ t ∈ ts, WritesChecked request t.before t.event) : PlansAcyclic s := by
  have hchecked := run.preserves (P := Checked) (fun t ht h hs => hs.step (hwrites t ht) h)
    (Checked.init files)
  exact plansAcyclic_iff.mpr hchecked.plans

/-! ### Distinct ids -/

/-- No stored plan has an id twice. -/
def PlanIdsDistinct (s : PlanState) : Prop :=
  ∀ swarmId plan, s.plans.get swarmId = some plan → plan.ids.Nodup

variable (order request) in
/-- A direct update that is accepted names no id twice, and an approval appends items with distinct
ids that the plan does not have. -/
def NamesFresh (s : PlanState) : PlanEvent → Prop
  | .directUpdate _ _ items => planCycleError order items = none → (items.map PlanItem.id).Nodup
  | .writePlan i =>
      match s.work i with
      | .validated proposal _ =>
          (proposal.items.map PlanItem.id).Nodup ∧
            ∀ item ∈ proposal.items, ∀ old ∈ itemsOf s.plans (request i).swarmId, old.id ≠ item.id
      | _ => True
  | _ => True

instance (s : PlanState) (e : PlanEvent) : Decidable (NamesFresh order request s e) := by
  unfold NamesFresh
  split
  · infer_instance
  · split <;> infer_instance
  · infer_instance

theorem planIdsDistinct_iff :
    PlanIdsDistinct s ↔ ∀ swarmId, ((itemsOf s.plans swarmId).map PlanItem.id).Nodup := by
  refine ⟨fun h swarmId => ?_, fun h swarmId plan hplan => ?_⟩
  · rw [itemsOf]
    cases hplan : s.plans.get swarmId with
    | none => exact List.nodup_nil
    | some plan => exact h swarmId plan hplan
  · have hids := h swarmId
    rwa [itemsOf, hplan] at hids

/-- Writing the items of one plan keeps the ids distinct exactly when they are in it. -/
theorem distinct_insert_iff {plans : Plans} {swarmId : String} {plan : VersionedPlan}
    (h : ∀ swarmId, ((itemsOf plans swarmId).map PlanItem.id).Nodup) :
    (∀ swarmId', ((itemsOf (plans.insert swarmId plan) swarmId').map PlanItem.id).Nodup) ↔
      (plan.items.map PlanItem.id).Nodup := by
  simp only [itemsOf_insert]
  refine ⟨fun hall => ?_, fun hplan swarmId' => ?_⟩
  · simpa using hall swarmId
  · split
    · exact hplan
    · exact h swarmId'

theorem nodup_append_iff (items items' : List PlanItem)
    (h : (items.map PlanItem.id).Nodup) :
    ((items ++ items').map PlanItem.id).Nodup ↔
      (items'.map PlanItem.id).Nodup ∧ ∀ item ∈ items', ∀ old ∈ items, old.id ≠ item.id := by
  rw [List.map_append, List.nodup_append]
  simp only [List.forall_mem_map]
  exact ⟨fun ⟨_, hids, hne⟩ => ⟨hids, fun item hitem old hold => hne old hold item hitem⟩,
    fun ⟨hids, hne⟩ => ⟨h, hids, fun old hold item hitem => hne item hitem old hold⟩⟩

/-- The step lemma of the distinct ids. -/
theorem distinct_step_iff (hs : PlanIdsDistinct s)
    (h : planStep order requestKey request s e = some s') :
    PlanIdsDistinct s' ↔ NamesFresh order request s e := by
  have effect := plan_step_cases h
  have hids := planIdsDistinct_iff.mp hs
  rw [planIdsDistinct_iff]
  cases effect with
  | call _ | runtime _ _ _ | refuse | propose _ | missing _ _ _ | read _ _ _ _ | find _ _ _ _
  | cyclic _ | remove _ | validate _ _ => exact iff_of_true hids trivial
  | refuseUpdate hcheck => exact iff_of_true hids fun heq => absurd heq hcheck
  | @merge i proposal seen hwork =>
      have hfresh : NamesFresh order request s (.writePlan i) ↔
          ((itemsOf s.plans (request i).swarmId ++ proposal.items).map PlanItem.id).Nodup := by
        rw [nodup_append_iff _ _ (hids _)]
        simp only [NamesFresh, hwork]
      rw [hfresh, itemsOf_eq]
      exact distinct_insert_iff hids
  | update hcheck => exact (distinct_insert_iff hids).trans ⟨fun hitems _ => hitems, fun h => h hcheck⟩
  | graph =>
      exact iff_of_true (fun swarmId => (handle_keeps _ _ _ _ swarmId).nodup (hids swarmId)) trivial

/-- Only a direct update removes an id. -/
theorem ids_kept (h : planStep order requestKey request s e = some s')
    (he : ∀ session swarmId items, e ≠ .directUpdate session swarmId items) (swarmId : String) :
    (itemsOf s.plans swarmId).map PlanItem.id <+: (itemsOf s'.plans swarmId).map PlanItem.id := by
  have effect := plan_step_cases h
  cases effect with
  | update _ | refuseUpdate _ => exact absurd rfl (he _ _ _)
  | @merge i proposal seen hwork =>
      show _ <+: (itemsOf (s.plans.insert _ _) swarmId).map PlanItem.id
      rw [itemsOf_insert]
      split
      · rename_i heq
        rw [heq, itemsOf_eq]
        exact (List.prefix_append _ _).map _
      · exact List.prefix_refl _
  | graph => exact (handle_keeps _ _ _ _ swarmId).ids
  | _ => exact List.prefix_refl _

/-- **The ids of the plans stay distinct** exactly in the runs whose direct updates and approvals
bring new ones, and an approval or a graph mutation never removes an id. -/
theorem plan_ids_iff {files : Mutation.Files} {ts : List (Transition PlanState PlanEvent)}
    (run : Run (planStep order requestKey request) (PlanState.init files StrMap.empty) ts s) :
    ((∀ t ∈ ts, PlanIdsDistinct t.after) ↔ ∀ t ∈ ts, NamesFresh order request t.before t.event) ∧
      ∀ t ∈ ts, (∀ session swarmId items, t.event ≠ .directUpdate session swarmId items) →
        ∀ swarmId, (itemsOf t.before.plans swarmId).map PlanItem.id <+:
          (itemsOf t.after.plans swarmId).map PlanItem.id := by
  refine ⟨run.forall_after_iff (fun t _ h hs => distinct_step_iff hs h) fun _ _ h => ?_, ?_⟩
  · cases h
  · exact fun t ht he => ids_kept (run.step_of_mem ht) he

end Requests

/-! ### Two approvals at once -/

/-- The keys of the decisions below, which differ as their hashes do. -/
def joinedKey (session action : String) (components : List String) : String :=
  join "/" (session :: action :: components)

/-- A queued item. -/
def queuedItem (id : String) (blockedBy : List String) : PlanItem where
  content := id
  status := "queued"
  priority := "high"
  id := id
  blockedBy := blockedBy

/-- The coordinator `c` of the swarm `w` decides on the proposal of a worker. -/
def approvalOf (proposerSession : String) (id : ℕ) : PlanRequest where
  id := id
  reqSession := "c"
  swarmId := "w"
  proposerSession := proposerSession
  decision := .approve

/-- A decision is called and executes, up to its first own step. -/
def begins (i : ℕ) : List PlanEvent :=
  [.runtime (.call i), .runtime (.check i 0), .runtime (.register i), .runtime (.readPending i 0),
    .runtime (.createPending i 0)]

def twoProposers (i : ℕ) : PlanRequest := approvalOf (if i = 0 then "a" else "b") i

/-- The item `A` of the worker `a` waits for `B`, and the item `B` of the worker `b` waits for
`A`. -/
def proposeBoth : List PlanEvent :=
  [.propose "a" "w" [queuedItem "A" ["B"]], .propose "b" "w" [queuedItem "B" ["A"]]]

/-- The second approval checks after the first has written. -/
def approveInTurn : List PlanEvent :=
  proposeBoth ++ begins 0 ++ [.readProposal 0, .validate 0, .writePlan 0, .removeProposal 0] ++
    begins 1 ++ [.readProposal 1, .validate 1]

theorem plans_acyclic_inTurn :
    ∃ ts s, Run (planStep IterOrder.insertion joinedKey twoProposers)
        (PlanState.init Mutation.Files.empty StrMap.empty) ts s ∧
      ts.map Transition.event = approveInTurn ∧ s.pending "w" "b" ≠ none ∧ PlansAcyclic s := by
  obtain ⟨ts, s, run, hevents, hobs⟩ := Run.of_observed
    (f := fun r : List (Transition PlanState PlanEvent) × PlanState =>
      (r.1.all fun t => decide (WritesChecked twoProposers t.before t.event),
        (r.2.pending "w" "b").isSome))
    (show (exec (planStep IterOrder.insertion joinedKey twoProposers)
        (PlanState.init Mutation.Files.empty StrMap.empty) approveInTurn).map _ =
      some (true, true) by decide +kernel)
  obtain ⟨hwrites, hpending⟩ := Prod.mk.inj hobs
  refine ⟨ts, s, run, hevents, ?_, plans_acyclic run fun t ht => ?_⟩
  · exact Option.isSome_iff_ne_none.mp hpending
  · exact of_decide_eq_true (List.all_eq_true.mp hwrites t ht)

/-- Both approvals check before either writes. -/
def approveBoth : List PlanEvent :=
  proposeBoth ++ begins 0 ++ [.readProposal 0, .validate 0] ++ begins 1 ++
    [.readProposal 1, .validate 1, .writePlan 0, .writePlan 1]

/-- Two approvals close a cycle. -/
theorem plans_acyclic_failing :
    ∃ ts s, Run (planStep IterOrder.insertion joinedKey twoProposers)
        (PlanState.init Mutation.Files.empty StrMap.empty) ts s ∧
      ts.map Transition.event = approveBoth ∧ ¬ PlansAcyclic s := by
  obtain ⟨ts, s, run, hevents, hobs⟩ := Run.of_observed
    (f := fun r : List (Transition PlanState PlanEvent) × PlanState =>
      (r.2.plans.get "w").map fun plan => (plan.items, cycleItemIds IterOrder.insertion plan.items))
    (show (exec (planStep IterOrder.insertion joinedKey twoProposers)
        (PlanState.init Mutation.Files.empty StrMap.empty) approveBoth).map _ =
      some (some ([queuedItem "A" ["B"], queuedItem "B" ["A"]], ["A", "B"])) by decide +kernel)
  refine ⟨ts, s, run, hevents, fun hacyclic => ?_⟩
  obtain ⟨plan, hplan, heq⟩ := Option.map_eq_some_iff.mp hobs
  have hnil := hacyclic .insertion "w" plan hplan
  rw [(Prod.mk.inj heq).2] at hnil
  cases hnil

theorem plan_ids_iff_inTurn :
    ∃ ts s, Run (planStep IterOrder.insertion joinedKey twoProposers)
        (PlanState.init Mutation.Files.empty StrMap.empty) ts s ∧
      ts.map Transition.event = approveInTurn ∧ ∀ t ∈ ts, PlanIdsDistinct t.after := by
  obtain ⟨ts, s, run, hevents, hobs⟩ := Run.of_observed
    (f := fun r : List (Transition PlanState PlanEvent) × PlanState =>
      r.1.all fun t => decide (NamesFresh IterOrder.insertion twoProposers t.before t.event))
    (show (exec (planStep IterOrder.insertion joinedKey twoProposers)
        (PlanState.init Mutation.Files.empty StrMap.empty) approveInTurn).map _ = some true by
      decide +kernel)
  exact ⟨ts, s, run, hevents, (plan_ids_iff run).1.mpr fun t ht =>
    of_decide_eq_true (List.all_eq_true.mp hobs t ht)⟩

/-! ### An item twice -/

/-- The coordinator writes a plan that names `A` twice. -/
def updateTwice : List PlanEvent := [.directUpdate "c" "w" [queuedItem "A" [], queuedItem "A" []]]

/-- A direct update may name an id twice. -/
theorem plan_ids_failing :
    ∃ ts s, Run (planStep IterOrder.insertion joinedKey twoProposers)
        (PlanState.init Mutation.Files.empty StrMap.empty) ts s ∧
      ts.map Transition.event = updateTwice ∧ ¬ PlanIdsDistinct s := by
  obtain ⟨ts, s, run, hevents, hobs⟩ := Run.of_observed
    (f := fun r : List (Transition PlanState PlanEvent) × PlanState =>
      (r.2.plans.get "w").map VersionedPlan.ids)
    (show (exec (planStep IterOrder.insertion joinedKey twoProposers)
        (PlanState.init Mutation.Files.empty StrMap.empty) updateTwice).map _ =
      some (some ["A", "A"]) by decide +kernel)
  refine ⟨ts, s, run, hevents, fun hdistinct => ?_⟩
  obtain ⟨plan, hplan, hids⟩ := Option.map_eq_some_iff.mp hobs
  have hnodup := hdistinct "w" plan hplan
  rw [hids] at hnodup
  exact absurd hnodup (by decide)

end Jcode.Server
