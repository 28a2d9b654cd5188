import Jcode.Bridge.RoundTrip
import Jcode.Server.CommGraph

/-!
# Server — what a completion does to the other items

The engine changes one node, but the handler rebuilds the whole plan from the lifted graph.  An item
keeps its fields exactly when its status and its artifact are in the form the bridge writes.

* `complete_frame_iff`: for an accepted completion.
-/

namespace Jcode.Server
open Rust Jcode.Dag Jcode.Bridge

variable {env : Env} {plans plans' : Plans} {session swarmId : String} {graph : TaskGraph}

/-- The artifact text of an item. -/
def artifactJson (plan : VersionedPlan) (id : String) : Option String :=
  (plan.nodeMeta.get id).bind NodeMeta.artifactJson

/-- `plan'` holds the item with its fields and its artifact as they are in `plan`. -/
def ItemKept (plan plan' : VersionedPlan) (item : PlanItem) : Prop :=
  ∃ item' ∈ plan'.items, item'.id = item.id ∧ item'.status = item.status ∧
    item'.assignedTo = item.assignedTo ∧ item'.priority = item.priority ∧
    item'.blockedBy = item.blockedBy ∧ item'.subsystem = item.subsystem ∧
    item'.fileScope = item.fileScope ∧ artifactJson plan' item.id = artifactJson plan item.id

instance (plan plan' : VersionedPlan) (item : PlanItem) : Decidable (ItemKept plan plan' item) :=
  inferInstanceAs (Decidable (∃ item' ∈ plan'.items, _))

/-- The artifact text is what `serde_json` writes for what it reads from it. -/
def CanonicalArtifact (json : SerdeJson) (text : Option String) : Prop :=
  (text.bind fun t => (json.fromStr t).toOption).bind (fun a => (json.toString a).toOption) = text

theorem dispatch_others (hg : graph.ids.Nodup) (id : NodeId) (actor : String) :
    (dispatch graph id actor).2.ids = graph.ids ∧
      ∀ n ∈ graph.nodes, n.id ≠ id → n ∈ (dispatch graph id actor).2.nodes := by
  cases h : dispatch graph id actor with
  | mk accepted g' =>
      cases accepted with
      | false => rw [dispatch_eq_false hg h]; exact ⟨rfl, fun n hn _ => hn⟩
      | true =>
          obtain ⟨n, -, -, rfl⟩ := (dispatch_eq_true hg).mp h
          refine ⟨TaskGraph.map_ids fun m _ => by split <;> rfl, fun m hm hne => ?_⟩
          exact List.mem_map.mpr ⟨m, hm, if_neg hne⟩

/-- A claim writes no other node. -/
theorem claim_others (hg : graph.ids.Nodup) (id : NodeId) (actor : String) :
    (claimQueuedNodeForActor graph id actor).ids = graph.ids ∧
      ∀ n ∈ graph.nodes, n.id ≠ id → n ∈ (claimQueuedNodeForActor graph id actor).nodes := by
  have hcases : claimQueuedNodeForActor graph id actor = (dispatch graph id actor).2 ∨
      claimQueuedNodeForActor graph id actor = graph := ite_eq_or_eq ..
  rcases hcases with e | e
  · rw [e]; exact dispatch_others hg id actor
  · rw [e]; exact ⟨rfl, fun n hn _ => hn⟩

/-- An accepted completion lowers a graph whose other nodes are those of the lifted plan. -/
theorem complete_accepted {nodeId : NodeId} {text : String} {plan : VersionedPlan}
    (hs : swarmIdFor session env.members = some swarmId) (hp : plans.get swarmId = some plan)
    (hids : plan.ids.Nodup)
    (h : handleCommCompleteNode env plans session nodeId text = (.done, plans')) :
    ∃ g : TaskGraph, g.ids.Nodup ∧
      (∀ n ∈ (toTaskGraph env.json plan).nodes, n.id ≠ nodeId → n ∈ g.nodes) ∧
      plans'.get swarmId = some
        { applyTaskGraph env.json plan g with version := plan.version + 1 } := by
  have hlift : (toTaskGraph env.json plan).ids.Nodup := by rwa [toTaskGraph_ids]
  obtain ⟨hcids, hclaim⟩ := claim_others hlift nodeId session
  simp only [handleCommCompleteNode, hs] at h
  split at h
  · cases h
  · rename_i artifact _
    simp only [mutateNode, hp] at h
    split at h
    · rename_i u g hc
      cases h
      have hnd := hlift
      rw [← hcids] at hnd
      have hext : Extends _ (completeNode env.parse _ nodeId session artifact).2 :=
        completeNode_extends hnd nodeId session artifact
      rw [hc] at hext
      refine ⟨g, hext.ids_nodup, fun m hm hne => ?_, StrMap.get_insert_self ..⟩
      obtain ⟨n, -, -, -, -, -, rfl⟩ := completeNode_eq_ok hnd hc
      exact List.mem_map.mpr ⟨m, hclaim m hm hne, if_neg hne⟩
    · cases h

/-- An item whose node was not changed keeps all but the form of its status and its artifact. -/
theorem itemKept_iff {json : SerdeJson} {plan : VersionedPlan} (hids : plan.ids.Nodup)
    (hg : graph.ids.Nodup) {item : PlanItem} (hitem : item ∈ plan.items)
    (hn : liftItem json plan item ∈ graph.nodes) (version : ℕ) :
    ItemKept plan { applyTaskGraph json plan graph with version := version } item ↔
      CanonicalStatus item.status ∧ CanonicalArtifact json (artifactJson plan item.id) := by
  have hmeta : (applyTaskGraph json plan graph).nodeMeta.get item.id =
      some (lowerMeta json (liftItem json plan item)) := applyTaskGraph_meta hg hn
  have hnew : artifactJson { applyTaskGraph json plan graph with version := version } item.id =
      ((artifactJson plan item.id).bind fun t => (json.fromStr t).toOption).bind
        fun a => (json.toString a).toOption := by
    have hold : ((plan.nodeMeta.get item.id).getD {}).artifactJson = artifactJson plan item.id := by
      rw [artifactJson]
      cases plan.nodeMeta.get item.id <;> rfl
    rw [artifactJson, hmeta, ← hold]
    rfl
  have hlow : lowerItem plan.prior (liftItem json plan item) =
      { item with status := statusToPlan (statusFromPlan item.status) } := by
    have hprior : plan.prior.get (liftItem json plan item).id = some item := prior_of_mem hids hitem
    rw [lowerItem, hprior]
    rfl
  constructor
  · rintro ⟨item', hitem', hid, hstatus, -, -, -, -, -, hart⟩
    obtain ⟨n, hn', rfl⟩ := List.mem_map.mp hitem'
    obtain rfl := TaskGraph.eq_of_id_eq hg hn' hn hid
    exact ⟨statusToPlan_statusFromPlan.mp hstatus, hnew.symm.trans hart⟩
  · rintro ⟨hstatus, hart⟩
    refine ⟨lowerItem plan.prior (liftItem json plan item), List.mem_map_of_mem hn, ?_⟩
    rw [hlow, statusToPlan_statusFromPlan.mpr hstatus]
    exact ⟨rfl, rfl, rfl, rfl, rfl, rfl, rfl, hnew.trans hart⟩

/-- **What a completion keeps.**  After an accepted completion of `nodeId`, every other item is as
it was exactly when every other item has one of the four statuses the bridge writes, and an artifact
in the form `serde_json` writes. -/
theorem complete_frame_iff {nodeId : NodeId} {text : String} {plan : VersionedPlan}
    (hs : swarmIdFor session env.members = some swarmId) (hp : plans.get swarmId = some plan)
    (hids : plan.ids.Nodup)
    (h : handle env plans session (.completeNode nodeId text) = (.done, plans')) :
    ∃ plan', plans'.get swarmId = some plan' ∧
      ((∀ item ∈ plan.items, item.id ≠ nodeId → ItemKept plan plan' item) ↔
        ∀ item ∈ plan.items, item.id ≠ nodeId → CanonicalStatus item.status ∧
          CanonicalArtifact env.json (artifactJson plan item.id)) := by
  obtain ⟨g, hgids, hothers, hget⟩ := complete_accepted hs hp hids h
  refine ⟨_, hget, forall₂_congr fun item hitem => ?_⟩
  refine imp_congr_right fun hne => ?_
  refine itemKept_iff hids hgids hitem (hothers _ ?_ hne) _
  rw [toTaskGraph_eq]
  exact List.mem_map_of_mem hitem

/-- An item to complete beside one of another session. -/
def besideItems (status : String) : List PlanItem :=
  [{ content := "map the module", status := "queued", priority := "high", id := "a" },
   { content := "run the tests", status := status, priority := "high", id := "b",
     assignedTo := some "t" }]

/-- The completion of `a` revives the stale item `b`. -/
theorem complete_revives_stale :
    (handle oneSession (onePlan (besideItems "running_stale")) "s" (.completeNode "a" readText)).1 =
      .done ∧
    ∃ plan' ∈ (handle oneSession (onePlan (besideItems "running_stale")) "s"
        (.completeNode "a" readText)).2.get "w",
      ∃ item ∈ besideItems "running_stale", item.id ≠ "a" ∧
        ¬ ItemKept (lightPlan (besideItems "running_stale")) plan' item := by
  decide +kernel

/-- A queued item beside the completed one is kept. -/
theorem complete_keeps_queued :
    ∃ plan', (handle oneSession (onePlan (besideItems "queued")) "s"
        (.completeNode "a" readText)).2.get "w" = some plan' ∧
      ∀ item ∈ besideItems "queued", item.id ≠ "a" →
        ItemKept (lightPlan (besideItems "queued")) plan' item := by
  have hreply : (handle oneSession (onePlan (besideItems "queued")) "s"
      (.completeNode "a" readText)).1 = .done := by decide +kernel
  have hswarm : swarmIdFor "s" oneSession.members = some "w" := by decide +kernel
  have hids : (lightPlan (besideItems "queued")).ids.Nodup := by decide +kernel
  obtain ⟨plan', hget, hiff⟩ :=
    complete_frame_iff hswarm (StrMap.get_insert_self ..) hids (Prod.ext hreply rfl)
  refine ⟨plan', hget, hiff.mpr fun item hitem _ => ⟨.inl ?_, rfl⟩⟩
  rcases List.mem_cons.mp hitem with rfl | h
  · rfl
  · obtain rfl := List.mem_singleton.mp h
    rfl

end Jcode.Server
