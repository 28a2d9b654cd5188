import Jcode.Server.CommGraph

/-!
# Server — what a rejected mutation leaves behind

Expansion, completion and injection write the plan only after the engine accepted the operation.
Seeding creates the entry and writes its mode and its participants first: a rejected seed leaves
the plan as it was exactly when these writes change nothing.

* `rejected_keeps_entry_iff`: for every request, with the condition `Settled`.
-/

namespace Jcode.Server
open Rust Jcode.Dag Jcode.Bridge

variable {env : Env} {plans plans' : Plans} {session swarmId : String}

/-- The writes a request makes before the engine is asked change nothing. -/
def Settled (env : Env) (plans : Plans) (session swarmId : String) : Request → Prop
  | .seedGraph mode _ => ∃ plan, plans.get swarmId = some plan ∧
      (∀ m, resolvedMode env session mode = some m → m = plan.mode) ∧ session ∈ plan.participants
  | _ => True

theorem seedPlan_error {json : SerdeJson} {plan plan' : VersionedPlan} {specs : List NodeSpec}
    {e : DagError} (h : seedPlan json plan specs = (.error e, plan')) : plan' = plan := by
  unfold seedPlan at h
  dsimp only at h
  split at h
  · split at h <;> cases h
  · cases h; rfl

/-- A rejected mutation of one node leaves the plans as they were. -/
theorem mutateNode_rejected {α : Type} {nodeId : NodeId} {name op : String} {e : DagError}
    {f : TaskGraph → Outcome α}
    (h : mutateNode env plans session swarmId nodeId name f = (.rejected op e, plans')) :
    plans' = plans := by
  unfold mutateNode at h
  split at h
  · cases h
  · dsimp only at h
    split at h
    · cases h
    · cases h; rfl

/-- The writes of the seed handler before the seed. -/
theorem seed_entry_eq_iff {plan : VersionedPlan} {mode : Option String} :
    { plan with
        mode := mode.getD plan.mode
        participants := insert session plan.participants } = plan ↔
      (∀ m, mode = some m → m = plan.mode) ∧ session ∈ plan.participants := by
  obtain ⟨items, version, participants, planMode, nodeMeta⟩ := plan
  simp only [VersionedPlan.mk.injEq, true_and, and_true, Finset.insert_eq_self]
  rw [and_comm]
  refine and_congr_left fun _ => ?_
  cases mode with
  | none => simp
  | some m => simp

theorem seed_rejected {mode : Option String} {nodes : List TaskGraphNodeSpec} {op : String}
    {e : DagError} (hs : swarmIdFor session env.members = some swarmId)
    (h : handleCommSeedGraph env plans session mode nodes = (.rejected op e, plans')) :
    plans'.get swarmId = some
      { (plans.get swarmId).getD VersionedPlan.new with
        mode := (resolvedMode env session mode).getD
          ((plans.get swarmId).getD VersionedPlan.new).mode
        participants := insert session
          ((plans.get swarmId).getD VersionedPlan.new).participants } := by
  unfold handleCommSeedGraph at h
  rw [hs] at h
  dsimp only at h
  split at h
  · cases h
  · split at h
    · cases h
    · rename_i he
      cases h
      rw [StrMap.get_insert_self, seedPlan_error he]

/-- **When a rejected mutation leaves the plan intact.**  A rejected expansion, completion or
injection always does; a rejected seed does exactly when the swarm had a plan, of the mode the seed
resolves to, with the session among its participants. -/
theorem rejected_keeps_entry_iff {request : Request} {op : String} {e : DagError}
    (hs : swarmIdFor session env.members = some swarmId)
    (h : handle env plans session request = (.rejected op e, plans')) :
    plans'.get swarmId = plans.get swarmId ↔ Settled env plans session swarmId request := by
  cases request with
  | seedGraph mode nodes =>
      rw [seed_rejected hs h, Settled]
      cases hp : plans.get swarmId with
      | none => simp
      | some plan =>
          simp only [Option.getD_some, Option.some.injEq, exists_eq_left']
          exact seed_entry_eq_iff
  | expandNode nodeId children =>
      simp only [handle, handleCommExpandNode, hs] at h
      simp [Settled, mutateNode_rejected h]
  | completeNode nodeId artifactJson =>
      simp only [handle, handleCommCompleteNode, hs] at h
      split at h
      · cases h
      · simp [Settled, mutateNode_rejected h]
  | injectGap gateId nodes =>
      simp only [handle, handleCommInjectGap, hs] at h
      simp [Settled, mutateNode_rejected h]

def runningItem : PlanItem :=
  { content := "map the module", status := "running", priority := "high", id := "a",
    assignedTo := some "s" }

/-- A batch the engine rejects. -/
def danglingNodes : List TaskGraphNodeSpec :=
  [{ id := "x", content := "check", dependsOn := ["nowhere"] }]

/-- A rejected seed turns the plan of running work deep. -/
theorem seed_rejected_deepens :
    (handle oneSession (onePlan [runningItem]) "s" (.seedGraph (some "deep") danglingNodes)).1 =
      .rejected "Seed" (.unknownDependency "x" "nowhere") ∧
    (handle oneSession (onePlan [runningItem]) "s"
      (.seedGraph (some "deep") danglingNodes)).2.get "w" ≠ (onePlan [runningItem]).get "w" := by
  refine ⟨by decide +kernel, fun h => ?_⟩
  have hmode := congrArg (Option.map VersionedPlan.mode) h
  exact absurd hmode (by decide +kernel)

/-- Without a mode, from a participant, the same seed leaves the plan as it is. -/
theorem seed_rejected_keeps :
    (handle oneSession (onePlan [runningItem]) "s" (.seedGraph none danglingNodes)).2.get "w" =
      (onePlan [runningItem]).get "w" := by
  have hreply : (handle oneSession (onePlan [runningItem]) "s" (.seedGraph none danglingNodes)).1 =
      .rejected "Seed" (.unknownDependency "x" "nowhere") := by decide +kernel
  have hmode : resolvedMode oneSession "s" none = none := rfl
  have hswarm : swarmIdFor "s" oneSession.members = some "w" := by decide +kernel
  have hsettled : Settled oneSession (onePlan [runningItem]) "s" "w"
      (.seedGraph none danglingNodes) := by
    refine ⟨lightPlan [runningItem], rfl, fun m hm => ?_, Finset.mem_singleton_self "s"⟩
    rw [hmode] at hm; cases hm
  exact (rejected_keeps_entry_iff hswarm (Prod.ext hreply rfl)).mpr hsettled

end Jcode.Server
