import Jcode.Bridge.Plan
import Jcode.Dag.Reseed

/-!
# Bridge — lifting what was lowered

Lowering a graph and lifting the plan again changes nothing but ranks (`lift_lower`): a node whose
id is an item of the plan has the rank of that item's word, any other the rank of the word for its
own rank, and only the ranks 0, 1 and 2 have words (`Worded`).

* `Made.round_trip_iff`: the round trip of one graph.
* `bridgeRun_iff`: calls made through the plan, lifting and lowering around each of them.
-/

namespace Jcode.Bridge
open Rust Jcode.Dag

variable {json : SerdeJson} {plan : VersionedPlan} {graph : TaskGraph}

/-! ### Codes -/

@[simp] theorem parseMode_modeStr (mode : Mode) : parseMode (modeStr mode) = mode := by
  cases mode <;> decide

@[simp] theorem parseKind_kindStr (kind : NodeKind) : parseKind (some (kindStr kind)) = kind := by
  cases kind <;> decide

@[simp] theorem parseOrigin_originStr (origin : Option NodeOrigin) :
    parseOrigin (origin.map originStr) = origin := by
  cases origin with
  | none => rfl
  | some o => cases o <;> decide

@[simp] theorem statusFromPlan_statusToPlan (status : NodeStatus) :
    statusFromPlan (statusToPlan status) = status := by
  cases status <;> rfl

/-- The words of the statuses. -/
def CanonicalStatus (status : String) : Prop :=
  status = "queued" ∨ status = "running" ∨ status = "completed" ∨ status = "failed"

/-- A status is lowered to itself exactly when it is one of the four words. -/
theorem statusToPlan_statusFromPlan {status : String} :
    statusToPlan (statusFromPlan status) = status ↔ CanonicalStatus status := by
  constructor
  · intro h
    cases hs : statusFromPlan status with
    | queued => rw [hs] at h; exact .inl h.symm
    | running => rw [hs] at h; exact .inr (.inl h.symm)
    | done => rw [hs] at h; exact .inr (.inr (.inl h.symm))
    | failed => rw [hs] at h; exact .inr (.inr (.inr h.symm))
  · rintro (rfl | rfl | rfl | rfl) <;> rfl

/-- A rank is read back from its word exactly when it is at most 2. -/
theorem priorityRank_priorityString {rank : UInt8} :
    priorityRank (priorityString rank) = rank ↔ rank ≤ 2 := by
  by_cases h₀ : rank = 0
  · subst h₀; decide
  by_cases h₂ : rank = 2
  · subst h₂; decide
  have hword : priorityString rank = "medium" := by
    unfold priorityString
    split
    · exact absurd rfl h₀
    · exact absurd rfl h₂
    · rfl
  rw [hword]
  constructor
  · rintro rfl; decide
  · intro hle
    have h₀' : rank.toNat ≠ 0 := fun e => h₀ (UInt8.toNat_inj.mp e)
    have h₂' : rank.toNat ≠ 2 := fun e => h₂ (UInt8.toNat_inj.mp e)
    have hle' : rank.toNat ≤ 2 := UInt8.le_iff_toNat_le.mp hle
    exact UInt8.toNat_inj.mp (by show 1 = rank.toNat; omega)

/-! ### Lifting and lowering -/

theorem toTaskGraph_eq : toTaskGraph json plan =
    { mode := parseMode plan.mode, nodes := plan.items.map (liftItem json plan) } := by
  have h : ∀ (items : List PlanItem) (g : TaskGraph),
      items.foldl (fun graph item => graph.push (liftItem json plan item)) g =
        { g with nodes := g.nodes ++ items.map (liftItem json plan) } := by
    intro items
    induction items with
    | nil => simp
    | cons item items ih => intro g; rw [List.foldl_cons, ih]; simp
  exact (h _ _).trans (by simp [TaskGraph.new])

/-- The ids of a plan's items. -/
def VersionedPlan.ids (plan : VersionedPlan) : List String := plan.items.map (·.id)

@[simp] theorem toTaskGraph_ids : (toTaskGraph json plan).ids = plan.ids := by
  rw [toTaskGraph_eq]
  simp [TaskGraph.ids, VersionedPlan.ids, liftItem, Function.comp_def]

theorem applyTaskGraph_ids : (applyTaskGraph json plan graph).ids = graph.ids := by
  simp [applyTaskGraph, VersionedPlan.ids, TaskGraph.ids, lowerItem, Function.comp_def]

/-- The items of a plan by id. -/
def VersionedPlan.prior (plan : VersionedPlan) : StrMap PlanItem :=
  StrMap.collect (plan.items.map fun item => (item.id, item))

/-- The rank a node of a lowered graph is lifted with. -/
def liftedRank (plan : VersionedPlan) (id : String) (rank : UInt8) : UInt8 :=
  priorityRank (((plan.prior.get id).map PlanItem.priority).getD (priorityString rank))

/-- The artifacts of a graph survive being written and read. -/
def ArtifactsRoundTrip (json : SerdeJson) (graph : TaskGraph) : Prop :=
  ∀ n ∈ graph.nodes, ∀ a, n.output = some a →
    ∃ text, json.toString a = .ok text ∧ json.fromStr text = .ok a

theorem applyTaskGraph_meta (hids : graph.ids.Nodup) {n : TaskNode} (hn : n ∈ graph.nodes) :
    (applyTaskGraph json plan graph).nodeMeta.get n.id = some (lowerMeta json n) :=
  StrMap.get_collect_of_mem hids hn

/-- One node: all codes are read back but the priority. -/
theorem liftItem_lowerItem {n : TaskNode} {prior : StrMap PlanItem}
    (hmeta : plan.nodeMeta.get n.id = some (lowerMeta json n))
    (hjson : ∀ a, n.output = some a →
      ∃ text, json.toString a = .ok text ∧ json.fromStr text = .ok a) :
    liftItem json plan (lowerItem prior n) =
      { n with priority := priorityRank (lowerItem prior n).priority } := by
  have hout : ((n.output.bind fun a => (json.toString a).toOption).bind fun text =>
      (json.fromStr text).toOption) = n.output := by
    cases ho : n.output with
    | none => rfl
    | some a =>
        obtain ⟨text, hto, hfrom⟩ := hjson a ho
        simp [hto, hfrom, Except.toOption]
  have hid : (lowerItem prior n).id = n.id := rfl
  simp only [liftItem, hid, hmeta, Option.getD_some]
  simp only [lowerMeta, lowerItem, hout, parseKind_kindStr, parseOrigin_originStr,
    statusFromPlan_statusToPlan]

/-- **Lowering and lifting changes ranks only.** -/
theorem lift_lower (hids : graph.ids.Nodup) (hjson : ArtifactsRoundTrip json graph) :
    toTaskGraph json (applyTaskGraph json plan graph) = graph.rerank (liftedRank plan) := by
  rw [toTaskGraph_eq]
  have hmode : (applyTaskGraph json plan graph).mode = modeStr graph.mode := rfl
  rw [hmode, parseMode_modeStr, TaskGraph.rerank, TaskGraph.mk.injEq]
  refine ⟨rfl, (List.map_map ..).trans (List.map_congr_left fun n hn => ?_)⟩
  exact liftItem_lowerItem (applyTaskGraph_meta hids hn) (hjson n hn)

/-! ### Ranks with words -/

/-- Each node has a rank with a word. -/
def Worded (graph : TaskGraph) : Prop := ∀ n ∈ graph.nodes, n.priority ≤ 2

theorem priorityRank_le (priority : String) : priorityRank priority ≤ 2 := by
  unfold priorityRank
  split <;> decide

/-- A lifted plan has no other ranks. -/
theorem worded_toTaskGraph : Worded (toTaskGraph json plan) := by
  rw [toTaskGraph_eq]
  intro n hn
  obtain ⟨item, -, rfl⟩ := List.mem_map.mp hn
  exact priorityRank_le item.priority

theorem Worded.of_extends {g : TaskGraph} (h : Extends graph g) (hg : Worded g) : Worded graph := by
  intro n hn
  obtain ⟨n', hn', hsame⟩ := h.old n hn
  exact hsame.priority ▸ hg n' hn'

theorem prior_of_mem (hplan : plan.ids.Nodup) {item : PlanItem} (h : item ∈ plan.items) :
    plan.prior.get item.id = some item :=
  StrMap.get_collect_of_mem hplan h

/-- A node that is not an item is lifted with the rank of its word. -/
theorem liftedRank_of_notMem {id : String} (h : id ∉ plan.ids) (rank : UInt8) :
    liftedRank plan id rank = priorityRank (priorityString rank) := by
  have hprior : plan.prior.get id = none := StrMap.get_collect_of_notMem h
  rw [liftedRank, hprior]
  rfl

/-! ### Round trips -/

/-- A graph made from the plan by calls has the plan's items, with their ranks. -/
theorem lifted_extends {parse : String → Option ConfidenceLevel} (hplan : plan.ids.Nodup)
    (ops : List Op) :
    Extends (toTaskGraph json plan) (Op.applyAll parse (toTaskGraph json plan) ops) := by
  have hids : (toTaskGraph json plan).ids.Nodup := by rwa [toTaskGraph_ids]
  exact Op.applyAll_extends hids ops

/-- A node that is an item keeps its rank. -/
theorem liftedRank_of_mem (hplan : plan.ids.Nodup) (h : Extends (toTaskGraph json plan) graph)
    {n : TaskNode} (hn : n ∈ graph.nodes) (hid : n.id ∈ plan.ids) :
    liftedRank plan n.id n.priority = n.priority := by
  obtain ⟨item, hitem, e⟩ := List.mem_map.mp hid
  have hlift : liftItem json plan item ∈ (toTaskGraph json plan).nodes := by
    rw [toTaskGraph_eq]; exact List.mem_map_of_mem hitem
  obtain ⟨n', hn', hsame⟩ := h.old _ hlift
  obtain rfl := TaskGraph.eq_of_id_eq h.ids_nodup hn' hn (hsame.id.trans e)
  rw [liftedRank, ← e, prior_of_mem hplan hitem, hsame.priority]
  rfl

/-- **The round trip is exact for graphs whose ranks have words.** -/
theorem round_trip_iff (hplan : plan.ids.Nodup) (h : Extends (toTaskGraph json plan) graph)
    (hjson : ArtifactsRoundTrip json graph) :
    toTaskGraph json (applyTaskGraph json plan graph) = graph ↔ Worded graph := by
  constructor
  · intro e
    exact e ▸ worded_toTaskGraph
  · intro hword
    rw [lift_lower h.ids_nodup hjson]
    obtain ⟨mode, nodes⟩ := graph
    refine congrArg (TaskGraph.mk mode) ((List.map_congr_left fun n hn => ?_).trans (List.map_id _))
    have hrank : liftedRank plan n.id n.priority = n.priority := by
      by_cases hid : n.id ∈ plan.ids
      · exact liftedRank_of_mem hplan h hn hid
      · rw [liftedRank_of_notMem hid]
        exact priorityRank_priorityString.mpr (hword n hn)
    rw [TaskNode.rerank, hrank]
    rfl

section Run
variable (json) (parse : String → Option ConfidenceLevel)

/-- A call through the plan: lift it, make the call, and lower the graph. -/
def bridgeStep (plan : VersionedPlan) (op : Op) : VersionedPlan :=
  applyTaskGraph json plan (op.apply parse (toTaskGraph json plan))

def bridgeRun (plan : VersionedPlan) (ops : List Op) : VersionedPlan :=
  ops.foldl (bridgeStep json parse) plan

end Run

variable {parse : String → Option ConfidenceLevel}

/-- The artifacts of every graph of a run survive being written and read. -/
def RunRoundTrips (json : SerdeJson) (parse : String → Option ConfidenceLevel)
    (graph : TaskGraph) (ops : List Op) : Prop :=
  ∀ k ≤ ops.length, ArtifactsRoundTrip json (Op.applyAll parse graph (ops.take k))

/-- **Calls through the plan are calls on the graph**, for graphs whose ranks have words. -/
theorem bridgeRun_iff (hplan : plan.ids.Nodup) {ops : List Op}
    (hjson : RunRoundTrips json parse (toTaskGraph json plan) ops) :
    toTaskGraph json (bridgeRun json parse plan ops) =
        Op.applyAll parse (toTaskGraph json plan) ops ↔
      Worded (Op.applyAll parse (toTaskGraph json plan) ops) := by
  constructor
  · intro e
    exact e ▸ worded_toTaskGraph
  · intro hword
    induction ops generalizing plan with
    | nil => rfl
    | cons op ops ih =>
        have hone : Extends (toTaskGraph json plan) (op.apply parse (toTaskGraph json plan)) :=
          lifted_extends hplan [op]
        have hrest : Extends (op.apply parse (toTaskGraph json plan))
            (Op.applyAll parse (toTaskGraph json plan) (op :: ops)) :=
          Op.applyAll_extends hone.ids_nodup ops
        have hlift : toTaskGraph json (bridgeStep json parse plan op) =
            op.apply parse (toTaskGraph json plan) :=
          (round_trip_iff hplan hone (hjson 1 (Nat.succ_pos _))).mpr (.of_extends hrest hword)
        have hplan' : (bridgeStep json parse plan op).ids.Nodup := by
          rw [bridgeStep, applyTaskGraph_ids]; exact hone.ids_nodup
        have := @ih (bridgeStep json parse plan op) hplan'
        rw [hlift] at this
        exact this (fun k hk => hjson (k + 1) (Nat.succ_le_succ hk)) hword

end Jcode.Bridge
