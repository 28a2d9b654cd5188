import Jcode.Bridge.RoundTrip
import Jcode.Server.CommGraph

/-!
# Server — a plan stands for its graph

What the handlers rely on: lifting the lowered plan gives the graph back, calls made through the
plan are calls on the graph, and a batch seeded twice is seeded once.

* `seedPlan_again_iff`: seeding an accepted batch through the plan again.
* `bridge_faithful_iff`: the three together, with the ranks they hold for.
-/

namespace Jcode.Server
open Rust Jcode.Dag Jcode.Bridge

variable {json : SerdeJson} {plan : VersionedPlan} {specs : List NodeSpec} {g g' : TaskGraph}

/-- An accepted seed leaves the plan, or lowers the seeded graph into its next version. -/
theorem seedPlan_cases (h : (seedPlan json plan specs).1 = .ok ()) :
    ∃ graph, seed (toTaskGraph json plan) specs = (.ok (), graph) ∧
      (graph = toTaskGraph json plan ∧ (seedPlan json plan specs).2 = plan ∨
        graph ≠ toTaskGraph json plan ∧ (seedPlan json plan specs).2 =
          { applyTaskGraph json plan graph with version := plan.version + 1 }) := by
  cases hseed : seed (toTaskGraph json plan) specs with
  | mk r graph =>
      cases r with
      | error e => simp [seedPlan, hseed] at h
      | ok u =>
          refine ⟨graph, rfl, ?_⟩
          by_cases hg : graph = toTaskGraph json plan
          · exact .inl ⟨hg, by simp [seedPlan, hseed, hg]⟩
          · exact .inr ⟨hg, by simp [seedPlan, hseed, hg, applyTaskGraph]⟩

/-- Seeding through a plan does nothing exactly when seeding its graph does nothing. -/
theorem seedPlan_fixed_iff : seedPlan json plan specs = (.ok (), plan) ↔
    seed (toTaskGraph json plan) specs = (.ok (), toTaskGraph json plan) := by
  constructor
  · intro h
    obtain ⟨graph, hseed, ⟨rfl, -⟩ | ⟨-, hplan⟩⟩ := seedPlan_cases (congrArg Prod.fst h)
    · exact hseed
    · -- the version tells the plans apart
      rw [h] at hplan
      have hversion : plan.version = plan.version + 1 := congrArg VersionedPlan.version hplan
      omega
  · intro h
    simp [seedPlan, h]

/-- Every spec of an accepted batch has a node. -/
theorem seed_mem_ids (hg : g.ids.Nodup) (h : seed g specs = (.ok (), g')) :
    ∀ spec ∈ specs, spec.nodeId ∈ g'.ids := by
  obtain ⟨kept, hc, hd, -, rfl, -⟩ := seed_eq_ok.mp h
  obtain ⟨hn, -, hall⟩ := collapsed_nodeIds hc
  have hs := seed_seeded hg hn hd
  intro spec hspec
  obtain ⟨-, k, hk, hsame⟩ := hall spec hspec
  rw [← hsame.nodeId]
  by_cases hid : k.nodeId ∈ g.ids
  · exact hs.mem_ids hid
  · exact TaskGraph.id_mem_ids (hs.pushed k hk hid)

/-- A seed writes no artifact. -/
theorem seed_artifacts (hg : g.ids.Nodup) (h : seed g specs = (.ok (), g'))
    (hjson : ArtifactsRoundTrip json g) : ArtifactsRoundTrip json g' := by
  obtain ⟨kept, hc, hd, -, rfl, -⟩ := seed_eq_ok.mp h
  have hs := seed_seeded hg (collapsed_nodeIds hc).1 hd
  intro n hn a ha
  rcases hs.nodes n hn with ⟨m, hm, -, hout⟩ | ⟨-, -, hout⟩
  · exact hjson m hm a (hout ▸ ha)
  · rw [hout] at ha; cases ha

/-- The new specs of a batch survive the plan: their ranks have words, and no dependency of one has
it as its recorded parent. -/
def Reseedable (json : SerdeJson) (plan : VersionedPlan) (specs : List NodeSpec) : Prop :=
  ∀ spec ∈ specs, spec.nodeId ∉ plan.ids → spec.priority ≤ 2 ∧
    ∀ d ∈ spec.dependsOn, parentOf (toTaskGraph json plan) d ≠ some spec.nodeId

/-- **Seeding an accepted batch again** through the plan does nothing exactly when the new specs
survive the plan. -/
theorem seedPlan_again_iff (hplan : plan.ids.Nodup)
    (hjson : ArtifactsRoundTrip json (toTaskGraph json plan))
    (h : (seedPlan json plan specs).1 = .ok ()) :
    seedPlan json (seedPlan json plan specs).2 specs = (.ok (), (seedPlan json plan specs).2) ↔
      Reseedable json plan specs := by
  have hids : (toTaskGraph json plan).ids.Nodup := by rwa [toTaskGraph_ids]
  rw [seedPlan_fixed_iff]
  obtain ⟨graph, hseed, ⟨hg, hsame⟩ | ⟨-, hnext⟩⟩ := seedPlan_cases h
  · -- the batch was held already: the plan is the same and no spec is new
    rw [hsame, hseed, hg]
    refine ⟨fun _ spec hs hnew => absurd ?_ hnew, fun _ => rfl⟩
    rw [← @toTaskGraph_ids json plan, ← hg]
    exact seed_mem_ids hids hseed spec hs
  · have hext : Extends (toTaskGraph json plan) (seed (toTaskGraph json plan) specs).2 :=
      seed_extends hids specs
    rw [hseed] at hext
    have hlift : toTaskGraph json (seedPlan json plan specs).2 =
        graph.rerank (liftedRank plan) := by
      rw [hnext, ← lift_lower hext.ids_nodup (seed_artifacts hids hseed hjson)]
      rfl
    have hrank : ∀ n ∈ (toTaskGraph json plan).nodes,
        liftedRank plan n.id n.priority = n.priority := fun n hn => by
      refine liftedRank_of_mem hplan (.refl hids) hn ?_
      rw [← @toTaskGraph_ids json plan]
      exact TaskGraph.id_mem_ids hn
    rw [hlift, seed_again_iff hids hseed hrank, toTaskGraph_ids]
    refine forall₂_congr fun spec _ => forall_congr' fun hnew => ?_
    rw [liftedRank_of_notMem hnew, priorityRank_priorityString]

/-- **When a plan stands for its graph.**  The graph of a run comes back from its plan, and a run
through the plan ends in it, exactly when its ranks have words; and an accepted batch can be seeded
again exactly when its new specs survive the plan. -/
theorem bridge_faithful_iff {parse : String → Option ConfidenceLevel} (hplan : plan.ids.Nodup)
    (ops : List Op) (hjson : RunRoundTrips json parse (toTaskGraph json plan) ops) :
    let graph := Op.applyAll parse (toTaskGraph json plan) ops
    (toTaskGraph json (applyTaskGraph json plan graph) = graph ↔ Worded graph) ∧
      (toTaskGraph json (bridgeRun json parse plan ops) = graph ↔ Worded graph) ∧
      ∀ specs, (seedPlan json plan specs).1 = .ok () →
        (seedPlan json (seedPlan json plan specs).2 specs =
          (.ok (), (seedPlan json plan specs).2) ↔ Reseedable json plan specs) := by
  intro graph
  have hlast : ArtifactsRoundTrip json graph := by
    have := hjson ops.length le_rfl
    rwa [List.take_length] at this
  refine ⟨round_trip_iff hplan (lifted_extends hplan ops) hlast, bridgeRun_iff hplan hjson, ?_⟩
  exact fun specs h => seedPlan_again_iff hplan (hjson 0 (Nat.zero_le _)) h

/-- One node of the rank `priority`. -/
def rankedSpecs (priority : UInt8) : List NodeSpec :=
  [{ id := some "b", content := "run the tests", kind := .verify, priority := priority }]

/-- The graph of an empty plan after the seed of one node. -/
def rankedGraph (priority : UInt8) : TaskGraph :=
  Op.applyAll rungByName (toTaskGraph readJson (lightPlan [])) [.seed (rankedSpecs priority)]

/-- A node of rank 7 comes back with rank 1, and its batch is rejected the second time. -/
theorem rank_seven_lost :
    toTaskGraph readJson (applyTaskGraph readJson (lightPlan []) (rankedGraph 7)) ≠
      rankedGraph 7 ∧
    (seedPlan readJson (lightPlan []) (rankedSpecs 7)).1 = .ok () ∧
    (seedPlan readJson (seedPlan readJson (lightPlan []) (rankedSpecs 7)).2 (rankedSpecs 7)).1 =
      .error (.duplicateNode "b") := by
  decide +kernel

/-- `a` is completed, and a node of rank 2 is seeded. -/
def rankedCalls : List Op :=
  [.dispatch "a" "s", .completeNode "a" "s" readArtifact, .seed (rankedSpecs 2)]

def oneItem : VersionedPlan :=
  lightPlan [{ content := "map the module", status := "todo", priority := "p1", id := "a" }]

/-- The rank 2 survives. -/
theorem rank_two_kept :
    toTaskGraph readJson (bridgeRun readJson rungByName oneItem rankedCalls) =
      Op.applyAll rungByName (toTaskGraph readJson oneItem) rankedCalls := by
  have hplan : oneItem.ids.Nodup := by decide +kernel
  have houtput : ∀ k ≤ rankedCalls.length, ∀ n ∈ (Op.applyAll rungByName
      (toTaskGraph readJson oneItem) (rankedCalls.take k)).nodes,
        n.output = none ∨ n.output = some readArtifact := by decide +kernel
  have hjson : RunRoundTrips readJson rungByName (toTaskGraph readJson oneItem) rankedCalls := by
    intro k hk n hn a ha
    obtain hnone | hsome := houtput k hk n hn
    · rw [hnone] at ha; cases ha
    · rw [hsome] at ha; cases ha
      exact ⟨readText, by simp [readJson], by simp [readJson]⟩
  have hword : Worded (Op.applyAll rungByName (toTaskGraph readJson oneItem) rankedCalls) := by
    unfold Worded
    decide +kernel
  exact (bridge_faithful_iff hplan rankedCalls hjson).2.1.mpr hword

end Jcode.Server
