import Jcode.Live.Scheduler
import Jcode.Bridge.RoundTrip
import Jcode.Dag.Audit

/-!
# Live — one plan, two schedulers

A reachable graph, lowered into a plan, is scheduled by the live path as by the engine.

* `cycleItemIds_eq_nil_iff`: the live walk finds no cycle exactly when the known edges of the items
  have a ranking.
* `schedulers_agree`: the runnable items are the ready nodes, a task is blocked exactly when a
  dependency is not done, and no item is cyclic.
* `hydrations_agree`: the two inputs of a worker are one text.
-/

namespace Jcode.Live
open Rust Jcode.Dag Jcode.Bridge

/-! ### Cycles -/

section Cycles
variable {items : List PlanItem} {order : IterOrder}

theorem mem_knownIds {id : String} : id ∈ knownIds items ↔ ∃ item ∈ items, item.id = id := by
  simp [knownIds]

theorem mem_dependents {id dep : String} :
    id ∈ dependents items dep ↔ ∃ item ∈ items, dep ∈ item.blockedBy ∧ item.id = id := by
  simp only [dependents, List.mem_flatMap, List.mem_map, List.mem_filter, beq_iff_eq]
  exact ⟨fun ⟨item, hitem, _, ⟨hd, rfl⟩, hid⟩ => ⟨item, hitem, hd, hid⟩,
    fun ⟨item, hitem, hd, hid⟩ => ⟨item, hitem, dep, ⟨hd, rfl⟩, hid⟩⟩

theorem mem_cycleStart {id : String} :
    id ∈ cycleStart order items ↔ id ∈ knownIds items ∧ indegree items id = 0 := by
  simp [cycleStart, knownIds, (order.perm _).mem_iff]

theorem sum_count_eq_length (S : Finset String) (deps : List String) :
    ∑ d ∈ S, deps.count d = (deps.filter (· ∈ S)).length := by
  induction deps with
  | nil => simp
  | cons dep deps ih =>
      have hone : ∑ d ∈ S, (if dep = d then 1 else 0) = if dep ∈ S then 1 else 0 := by
        rw [Finset.sum_ite_eq]
      simp only [List.count_cons, beq_iff_eq, Finset.sum_add_distrib, ih, hone]
      by_cases hd : dep ∈ S <;> simp [hd]

/-- Counted from either side, the entries are the same. -/
theorem sum_count_dependents (S : Finset String) (id : String) (items : List PlanItem) :
    ∑ d ∈ S, (dependents items d).count id =
      ((items.filter fun item => item.id == id).map fun item =>
        (item.blockedBy.filter (· ∈ S)).length).sum := by
  induction items with
  | nil => simp [dependents]
  | cons item items ih =>
      have hcons : ∀ d, (dependents (item :: items) d).count id =
          (if item.id = id then item.blockedBy.count d else 0) +
            (dependents items d).count id := fun d => by
        rw [dependents, List.flatMap_cons, List.count_append, List.map_const',
          List.count_replicate, ← List.count_eq_length_filter]
        simp only [beq_iff_eq]
        rfl
      rw [Finset.sum_congr rfl fun d _ => hcons d, Finset.sum_add_distrib, ih]
      by_cases hid : item.id = id
      · simp [hid, sum_count_eq_length]
      · simp [hid]

theorem indegree_eq_degree (id : String) :
    indegree items id = Kahn.degree (knownIds items) (dependents items) id :=
  (sum_count_dependents (knownIds items) id items).symm

/-- **`cycle_item_ids` decides acyclicity**, in whatever order the map is iterated. -/
theorem cycleItemIds_eq_nil_iff : cycleItemIds order items = [] ↔
    ∃ rank : String → ℕ, ∀ item ∈ items, ∀ d ∈ item.blockedBy, d ∈ knownIds items →
      rank d < rank item.id := by
  have hsub : ∀ d, ∀ i ∈ dependents items d, i ∈ knownIds items := fun d i hi => by
    obtain ⟨item, hitem, -, rfl⟩ := mem_dependents.mp hi
    exact mem_knownIds.mpr ⟨item, hitem, rfl⟩
  have hnil : cycleItemIds order items = [] ↔ ∀ i ∈ knownIds items, i ∈ (Kahn.loop
      (dependents items)
      (Kahn.edgeFuel (knownIds items) (dependents items) (cycleStart order items))
      ⟨indegree items, cycleStart order items, []⟩).visited := by
    rw [cycleItemIds, ← List.length_eq_zero_iff, List.length_insertionSort,
      List.length_eq_zero_iff, List.filter_eq_nil_iff]
    refine forall_congr' fun i => ?_
    rw [List.mem_dedup, ← List.mem_toFinset, ← knownIds]
    refine forall_congr' fun hi => ?_
    rw [Bool.and_eq_true, decide_eq_true_eq, decide_eq_true_eq, not_and_or, not_not]
    refine ⟨fun h => h.elim (fun hpos => ?_) id, .inr⟩
    by_contra hn
    exact hpos (Kahn.indegree_pos_of_unvisited hsub indegree_eq_degree (fun _ => mem_cycleStart)
      le_rfl hi hn)
  rw [hnil, Kahn.visits_all_iff hsub indegree_eq_degree (fun _ => mem_cycleStart) le_rfl]
  refine exists_congr fun rank => ⟨fun h item hitem d hd hknown => ?_, fun h i d ⟨hknown, hi⟩ => ?_⟩
  · exact h item.id d ⟨hknown, mem_dependents.mpr ⟨item, hitem, hd, rfl⟩⟩
  · obtain ⟨item, hitem, hd, rfl⟩ := mem_dependents.mp hi
    exact h item hitem d hd hknown

end Cycles

/-! ### The lowered plan -/

section Lowered
variable {json : SerdeJson} {parse : String → Option ConfidenceLevel} {mode : Mode}
  {plan : VersionedPlan} {g : TaskGraph} {order : IterOrder}

theorem isCompletedStatus_statusToPlan (status : NodeStatus) :
    isCompletedStatus (statusToPlan status) = true ↔ status = .done := by
  cases status <;> decide

theorem isRunnableStatus_statusToPlan (status : NodeStatus) :
    isRunnableStatus (statusToPlan status) = true ↔ status = .queued := by
  cases status <;> decide

theorem knownIds_lowered : knownIds (applyTaskGraph json plan g).items = g.ids.toFinset := by
  simp [knownIds, applyTaskGraph, lowerItem, TaskGraph.ids, Function.comp_def]

theorem mem_completedItemIds_lowered {id : String} :
    id ∈ completedItemIds (applyTaskGraph json plan g).items ↔
      ∃ m ∈ g.nodes, m.id = id ∧ m.status = .done := by
  simp only [completedItemIds, applyTaskGraph, List.mem_toFinset, List.mem_map, List.mem_filter]
  constructor
  · rintro ⟨-, ⟨⟨m, hm, rfl⟩, hs⟩, rfl⟩
    exact ⟨m, hm, rfl, (isCompletedStatus_statusToPlan m.status).mp hs⟩
  · rintro ⟨m, hm, rfl, hs⟩
    exact ⟨_, ⟨⟨m, hm, rfl⟩, (isCompletedStatus_statusToPlan m.status).mpr hs⟩, rfl⟩

/-- The item of a node is the one found under its id. -/
theorem find?_lowered {id : String} :
    ((applyTaskGraph json plan g).items.find? fun item => item.id == id) =
      (g.get id).map (lowerItem plan.prior) := by
  simp only [applyTaskGraph, List.find?_map, TaskGraph.get]
  rfl

variable (hg : WellFormed g) {n : TaskNode} (hn : n ∈ g.nodes)
include hg hn

/-- No edge leaves the plan. -/
theorem missingDependencies_lowered : missingDependencies (lowerItem plan.prior n)
    (knownIds (applyTaskGraph json plan g).items) = [] := by
  rw [knownIds_lowered, missingDependencies, List.filter_eq_nil_iff]
  intro d hd
  simpa using hg.deps_mem n hn d hd

theorem unresolvedDependencies_lowered : unresolvedDependencies (lowerItem plan.prior n)
    (knownIds (applyTaskGraph json plan g).items)
    (completedItemIds (applyTaskGraph json plan g).items) = [] ↔ DepsDone g n := by
  rw [knownIds_lowered, unresolvedDependencies, List.filter_eq_nil_iff]
  refine forall₂_congr fun d hd => ?_
  have hid : d ∈ g.ids.toFinset := List.mem_toFinset.mpr (hg.deps_mem n hn d hd)
  rw [← @mem_completedItemIds_lowered json plan]
  simp [hid]

omit hn in
theorem cycleItemIds_lowered : cycleItemIds order (applyTaskGraph json plan g).items = [] := by
  obtain ⟨rank, hr⟩ := hg.ranked
  refine cycleItemIds_eq_nil_iff.mpr ⟨rank, fun item hitem d hd _ => ?_⟩
  obtain ⟨n, hn, rfl⟩ := List.mem_map.mp hitem
  exact hr n hn d hd

/-- The item of a node is runnable exactly when the node is ready. -/
theorem mem_readyIds_lowered :
    n.id ∈ (summarizePlanGraph order (applyTaskGraph json plan g).items).readyIds ↔
      isReady g n = true := by
  have hitems : (applyTaskGraph json plan g).items = g.nodes.map (lowerItem plan.prior) := rfl
  rw [isReady_iff hg.ids_nodup]
  simp only [summarizePlanGraph, List.mem_insertionSort, List.mem_map, List.mem_filter,
    Bool.and_eq_true, Bool.not_eq_true', Bool.or_eq_false_iff, Bool.not_eq_false',
    List.isEmpty_iff, cycleItemIds_lowered hg, List.not_mem_nil, decide_false, and_true]
  constructor
  · rintro ⟨item, ⟨hitem, ⟨hrun, -⟩, hun⟩, hid⟩
    rw [hitems] at hitem
    obtain ⟨m, hm, rfl⟩ := List.mem_map.mp hitem
    obtain rfl := TaskGraph.eq_of_id_eq hg.ids_nodup hm hn hid
    exact ⟨(isRunnableStatus_statusToPlan m.status).mp hrun,
      (unresolvedDependencies_lowered hg hm).mp hun⟩
  · rintro ⟨hq, hdeps⟩
    refine ⟨lowerItem plan.prior n, ⟨?_, ⟨?_, ?_⟩, ?_⟩, rfl⟩
    · rw [hitems]; exact List.mem_map_of_mem hn
    · exact (isRunnableStatus_statusToPlan n.status).mpr hq
    · exact missingDependencies_lowered hg hn
    · exact (unresolvedDependencies_lowered hg hn).mpr hdeps

theorem explicitTaskBlockedReason_lowered :
    explicitTaskBlockedReason order (applyTaskGraph json plan g) n.id = none ↔ DepsDone g n := by
  rw [explicitTaskBlockedReason, find?_lowered, TaskGraph.get_self hg.ids_nodup hn,
    Option.map_some]
  simp only [missingDependencies_lowered hg hn, cycleItemIds_lowered hg, List.isEmpty_nil,
    Bool.not_true, Bool.false_eq_true, if_false, List.not_mem_nil]
  rw [← @unresolvedDependencies_lowered json plan g hg n hn]
  split
  · rename_i hne
    simpa using hne
  · rename_i he
    simpa using he

end Lowered

section Claims
variable {json : SerdeJson} {parse : String → Option ConfidenceLevel} {mode : Mode}
  {g : TaskGraph} {order : IterOrder}

/-- **Two schedulers agree.**  A graph that a run reaches is lowered into a plan whose runnable
items are the ready nodes, of which no task is blocked but for a dependency that is not done, and
which has no cycle. -/
theorem schedulers_agree (h : Reachable parse mode g) :
    let plan := applyTaskGraph json VersionedPlan.new g
    {id | id ∈ nextRunnableItemIds order plan.items none} = {id | ∃ n ∈ readyNodes g, n.id = id} ∧
    (∀ n ∈ g.nodes, explicitTaskBlockedReason order plan n.id = none ↔
      ∀ d ∈ n.dependsOn, ∃ m ∈ g.nodes, m.id = d ∧ m.status = .done) ∧
    cycleItemIds order plan.items = [] := by
  have hg : WellFormed g := h.inv.wf
  refine ⟨?_, fun n hn => explicitTaskBlockedReason_lowered hg hn, cycleItemIds_lowered hg⟩
  ext id
  simp only [nextRunnableItemIds, Set.mem_ofPred_eq, List.mem_map, List.mem_insertionSort,
    List.mem_filter, decide_eq_true_eq, readyNodes]
  constructor
  · rintro ⟨item, ⟨hitem, hready⟩, rfl⟩
    obtain ⟨n, hn, rfl⟩ := List.mem_map.mp hitem
    exact ⟨n, ⟨hn, (mem_readyIds_lowered hg hn).mp hready⟩, rfl⟩
  · rintro ⟨n, ⟨hn, hready⟩, rfl⟩
    exact ⟨lowerItem _ n, ⟨List.mem_map_of_mem hn, (mem_readyIds_lowered hg hn).mpr hready⟩, rfl⟩

/-- `serde_json` on the artifact of `c` and its text. -/
def parserText : String :=
  "\x7b\"findings\":\"the parser is total\",\"confidence\":\"high\"," ++
    "\"what_i_did_not_check\":[\"behaviour under load\"]\x7d"

def parserJson : SerdeJson where
  fromStr text :=
    if text = parserText then .ok (explored "the parser is total") else .error "expected value"
  toString a :=
    if a = explored "the parser is total" then .ok parserText else .error "unknown artifact"

/-- The plan of a deep run in its middle: `c` is done, and the gate of `a` is what is runnable. -/
theorem deepRun_schedulers_agree :
    ({id | id ∈ nextRunnableItemIds .insertion
        (applyTaskGraph parserJson VersionedPlan.new (deepRun 5)).items none} =
      {id | ∃ n ∈ readyNodes (deepRun 5), n.id = id}) ∧
    nextRunnableItemIds .insertion
      (applyTaskGraph parserJson VersionedPlan.new (deepRun 5)).items none = ["a::gate"] :=
  ⟨(schedulers_agree (deepRun_reachable 5)).1, by decide +kernel⟩

/-! ### Hydration -/

/-- What is done has left an artifact. -/
def DoneHasOutput (g : TaskGraph) : Prop :=
  ∀ n ∈ g.nodes, n.status = .done → ∃ a, n.output = some a

theorem reachable_doneHasOutput (h : Reachable parse mode g) : DoneHasOutput g := by
  refine h.induct (P := DoneHasOutput) (by simp [DoneHasOutput, TaskGraph.new]) ?_
  intro g g' _ _ he ih n' hn' hs
  rcases he.done_cases hn' hs with hn | ⟨n, -, a, rfl, -, -, -⟩
  · exact ih n' hn hs
  · exact ⟨a, rfl⟩

theorem kindLabel_eq_kindStr (kind : NodeKind) : kindLabel kind = kindStr kind := by
  cases kind <;> rfl

/-- The live section of a dependency is the engine's, when the dependency is done. -/
theorem upstreamSection_lowered (hg : WellFormed g) (hjson : ArtifactsRoundTrip json g)
    (hout : DoneHasOutput g) {plan : VersionedPlan} {d : NodeId} :
    upstreamSection json (applyTaskGraph json plan g) d =
      ((g.get d).filter TaskNode.isDone).map dependencySection := by
  rw [upstreamSection, find?_lowered]
  cases hget : g.get d with
  | none => rfl
  | some m =>
      obtain ⟨hm, rfl⟩ := TaskGraph.mem_of_get hget
      by_cases hs : m.status = .done
      · obtain ⟨a, ha⟩ := hout m hm hs
        obtain ⟨text, hto, hfrom⟩ := hjson m hm a ha
        have hcompleted := (isCompletedStatus_statusToPlan m.status).mpr hs
        have hdone : m.isDone = true := by simpa [TaskNode.isDone] using hs
        simp [lowerItem, guard, hcompleted, applyTaskGraph_meta hg.ids_nodup hm, lowerMeta, ha, hto,
          hfrom, Except.toOption, hdone, dependencySection, kindLabel_eq_kindStr]
      · have hopen : isCompletedStatus (statusToPlan m.status) = false := by
          simpa using mt (isCompletedStatus_statusToPlan m.status).mp hs
        simp [lowerItem, guard, hopen, TaskNode.isDone, hs]

theorem foldl_sections {sections : List String} (hne : sections ≠ []) (out : String) :
    sections.foldl (fun out sec => out ++ "\n" ++ sec) out =
      out ++ "\n" ++ join "\n" sections := by
  induction sections generalizing out with
  | nil => exact absurd rfl hne
  | cons first rest ih =>
      cases rest with
      | nil => simp [join]
      | cons second rest =>
          rw [List.foldl_cons, ih (List.cons_ne_nil _ _), join, join, String.intercalate_cons_cons]
          simp only [String.append_assoc]

/-- The context of a task whose item and sections are known. -/
theorem upstreamContext_eq {plan : VersionedPlan} {id : String} {item : PlanItem}
    (hitem : (plan.items.find? fun item => item.id == id) = some item) {sections : List String}
    (hsections : item.blockedBy.filterMap (upstreamSection json plan) = sections) :
    upstreamContext json plan id = if sections = [] then none
      else some ("# Inputs from completed dependencies\n\n" ++ join "\n" sections) := by
  subst hsections
  simp only [upstreamContext, hitem]
  by_cases hs : item.blockedBy.filterMap (upstreamSection json plan) = []
  · simp [hs]
  · have hne : item.blockedBy ≠ [] := fun hb => hs (by rw [hb]; rfl)
    simp [hs, hne]

/-- **Two hydrations agree.**  In the plan of a graph that a run reaches, the assignment text of a
node is the engine's input for it. -/
theorem hydrations_agree (h : Reachable parse mode g) (hjson : ArtifactsRoundTrip json g) :
    ∀ n ∈ g.nodes, hydrateAssignment json (applyTaskGraph json VersionedPlan.new g) n.id n.content =
      assembleInput g n.id := by
  intro n hn
  have hg : WellFormed g := h.inv.wf
  have hsections : n.dependsOn.filterMap
        (upstreamSection json (applyTaskGraph json VersionedPlan.new g)) =
      ((n.dependsOn.filterMap g.get).filter TaskNode.isDone).map dependencySection := by
    rw [List.filter_filterMap, List.map_filterMap]
    exact List.filterMap_congr fun d _ =>
      upstreamSection_lowered hg hjson (reachable_doneHasOutput h)
  have hitem : ((applyTaskGraph json VersionedPlan.new g).items.find? fun item =>
      item.id == n.id) = some (lowerItem VersionedPlan.new.prior n) := by
    rw [find?_lowered, TaskGraph.get_self hg.ids_nodup hn, Option.map_some]
  rw [hydrateAssignment, upstreamContext_eq hitem hsections]
  simp only [assembleInput, TaskGraph.get_self hg.ids_nodup hn]
  generalize (n.dependsOn.filterMap g.get).filter TaskNode.isDone = upstream
  cases upstream with
  | nil => rfl
  | cons dep rest =>
      have hne : (dep :: rest).map dependencySection ≠ [] := List.cons_ne_nil _ _
      have hfold := foldl_sections hne (n.content ++ "\n\n# Inputs from completed dependencies\n")
      rw [List.foldl_map] at hfold
      have hheader : "\n\n" ++ "# Inputs from completed dependencies\n\n" =
          "\n\n# Inputs from completed dependencies\n" ++ "\n" := by decide +kernel
      rw [if_neg hne, if_neg (by simp), hfold]
      show n.content ++ "\n\n" ++ ("# Inputs from completed dependencies\n\n" ++ join "\n" _) = _
      rw [← String.append_assoc, @String.append_assoc n.content "\n\n", hheader,
        ← String.append_assoc]

/-- The input of the gate of `a`, which has read `c`. -/
theorem deepRun_hydrations_agree :
    ∃ n ∈ (deepRun 5).nodes, n.id = "a::gate" ∧
      hydrateAssignment parserJson (applyTaskGraph parserJson VersionedPlan.new (deepRun 5)) n.id
        n.content = assembleInput (deepRun 5) n.id ∧
      assembleInput (deepRun 5) n.id ≠ n.content := by
  have hgate : ∃ n ∈ (deepRun 5).nodes, n.id = "a::gate" ∧
      assembleInput (deepRun 5) n.id ≠ n.content := by decide +kernel
  have hjson : ArtifactsRoundTrip parserJson (deepRun 5) := by
    intro n hn a ha
    have hall : ∀ n ∈ (deepRun 5).nodes, n.output = none ∨
        n.output = some (explored "the parser is total") := by decide +kernel
    rcases hall n hn with he | he
    · rw [he] at ha; cases ha
    · obtain rfl := Option.some.inj (he.symm.trans ha)
      exact ⟨parserText, by decide +kernel, by decide +kernel⟩
  obtain ⟨n, hn, hid, hne⟩ := hgate
  exact ⟨n, hn, hid, hydrations_agree (deepRun_reachable 5) hjson n hn, hne⟩

end Claims

end Jcode.Live
