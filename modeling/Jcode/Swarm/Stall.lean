import Jcode.Dag.Known
import Jcode.Live.Stall
import Jcode.Server.LivePlan
import Jcode.Swarm.Reclaim

/-!
# Swarm — no plan stalls silently

A plan whose dependencies are all there, without a cycle and with statuses the scheduler knows,
stays so over the steps of its swarm: the handlers of the workers write statuses and assignees only,
and the graph calls check what they add.  Then a task that is not completed waits for one that is
runnable, active or failed.

* `Event.workable`: every step keeps a plan workable.
* `swarm_never_stalls`: over any run, and nothing is offered before its dependencies.
-/

namespace Jcode.Swarm
open Rust Runs Jcode.Dag Jcode.Bridge Jcode.Live Jcode.Server

variable {items items' : List PlanItem} {plan plan' : LivePlan}

/-- A status the scheduler knows. -/
def Scheduled (status : String) : Prop :=
  isRunnableStatus status = true ∨ isActiveStatus status = true ∨ isTerminalStatus status = true

instance (status : String) : Decidable (Scheduled status) := by
  unfold Scheduled; infer_instance

/-- A plan that can be worked off. -/
structure Workable (items : List PlanItem) : Prop where
  scheduled : ∀ item ∈ items, Scheduled item.status
  closed : EdgesKnown (itemEdges items)
  ranked : Ranked (itemEdges items)

theorem Workable.nil : Workable [] :=
  ⟨fun _ h => absurd h List.not_mem_nil, fun _ h => absurd h List.not_mem_nil,
    fun _ => 0, fun _ h => absurd h List.not_mem_nil⟩

/-- **In a workable plan, an open task waits for one that is runnable, active or failed.** -/
theorem Workable.exists_cause (h : Workable items) (order : IterOrder) {item : PlanItem}
    (hitem : item ∈ items) (hopen : isCompletedStatus item.status = false) :
    ∃ cause ∈ items, Relation.ReflTransGen (WaitsOn items) item cause ∧
      (cause.id ∈ nextRunnableItemIds order items none ∨ isActiveStatus cause.status = true ∨
        isFailedStatus cause.status = true) := by
  obtain ⟨cause, hcause, hpath, -, hwhy⟩ := Live.exists_cause order hitem hopen
  refine ⟨cause, hcause, hpath, ?_⟩
  cases hwhy with
  | runnable h => exact .inl h
  | active h => exact .inr (.inl h)
  | failed h => exact .inr (.inr h)
  | missing hmissing =>
      refine absurd (missingDependencies_eq_nil_iff.mpr fun d hd => ?_) hmissing
      have hknown := h.closed _ (List.mem_map_of_mem hcause) d hd
      rw [← ids_eq_itemEdges] at hknown
      exact List.mem_toFinset.mpr hknown
  | endless hends =>
      have hnil : cycleItemIds order items = [] := cycleItemIds_eq_nil_iff_ranked.mpr h.ranked
      exact absurd (mem_cycleItemIds_iff.mpr hends) (hnil ▸ List.not_mem_nil)
  | unscheduled hword =>
      obtain ⟨hrun, hactive, hterminal⟩ := hword
      have hknown := h.scheduled cause hcause
      simp [Scheduled, hrun, hactive, hterminal] at hknown

/-! ### Writes to statuses and assignees -/

/-- The edges are as they were, and the scheduler knows the statuses if it knew them before. -/
structure EdgesKept (items items' : List PlanItem) : Prop where
  edges : itemEdges items' = itemEdges items
  scheduled : (∀ item ∈ items, Scheduled item.status) → ∀ item ∈ items', Scheduled item.status

namespace EdgesKept

theorem refl (items : List PlanItem) : EdgesKept items items := ⟨rfl, id⟩

theorem trans {items₁ items₂ items₃ : List PlanItem} (h₁ : EdgesKept items₁ items₂)
    (h₂ : EdgesKept items₂ items₃) : EdgesKept items₁ items₃ :=
  ⟨h₂.edges.trans h₁.edges, h₂.scheduled ∘ h₁.scheduled⟩

theorem workable (h : EdgesKept items items') (hw : Workable items) : Workable items' :=
  ⟨h.scheduled hw.scheduled, h.edges ▸ hw.closed, h.edges ▸ hw.ranked⟩

end EdgesKept

/-- A write to the status and the assignee of one item. -/
theorem setItem_kept (plan : LivePlan) (id : String) {f : PlanItem → PlanItem}
    (hedge : ∀ item, ((f item).id, (f item).blockedBy) = (item.id, item.blockedBy))
    (hword : ∀ item, Scheduled item.status → Scheduled (f item).status) :
    EdgesKept plan.items (plan.setItem id f).items := by
  refine ⟨Keyed.map_updateFirst _ hedge _, fun h item hitem => ?_⟩
  rcases mem_updateFirst hitem with hitem | ⟨old, hold, rfl⟩
  · exact h item hitem
  · exact hword old (h old hold)

/-- A write of one of the handlers' words. -/
theorem setStatus_kept (plan : LivePlan) (id : String) {f : PlanItem → PlanItem} (word : String)
    (hedge : ∀ item, ((f item).id, (f item).blockedBy) = (item.id, item.blockedBy))
    (hf : ∀ item, (f item).status = word) (hword : Scheduled word) :
    EdgesKept plan.items (plan.setItem id f).items :=
  setItem_kept plan id hedge fun item _ => (hf item).symm ▸ hword

theorem closeTask_kept (nowMs : ℕ) (taskId status summary : String) (plan : LivePlan)
    (h : Scheduled status) : EdgesKept plan.items (closeTask nowMs taskId status summary plan).items :=
  setStatus_kept plan taskId status (fun _ => rfl) (fun _ => rfl) h

theorem endTurn_kept (nowMs : ℕ) (taskId : String) (result : Except String Unit)
    (plan : LivePlan) : EdgesKept plan.items (endTurn nowMs taskId result plan).items := by
  cases result with
  | error error =>
      simp only [endTurn, endTurnErr]
      split
      · exact .refl _
      · exact closeTask_kept _ _ _ _ _ (by decide)
  | ok =>
      simp only [endTurn, endTurnOk]
      split
      · exact .refl _
      · split
        · exact closeTask_kept _ _ _ _ _ (by decide)
        · exact setStatus_kept plan taskId "queued" (fun _ => rfl) (fun _ => rfl) (by decide)
        · exact closeTask_kept _ _ _ _ _ (by decide)
        · exact .refl _

theorem startTurn_kept (nowMs : ℕ) (run : TaskRun) (plan : LivePlan) :
    EdgesKept plan.items (startTurn nowMs run plan).items := by
  simp only [startTurn]
  split
  · exact .refl _
  · exact setStatus_kept plan run.taskId "running" (fun _ => rfl) (fun _ => rfl) (by decide)

theorem touch_kept (nowMs : ℕ) (taskId : String)
    (sessionId detail checkpointSummary : Option String) (plan : LivePlan) :
    EdgesKept plan.items
      (touchSwarmTaskProgress nowMs taskId sessionId detail checkpointSummary plan).items := by
  simp only [touchSwarmTaskProgress]
  split
  · exact .refl _
  · split
    · exact setStatus_kept (plan.touch taskId _) taskId "running" (fun _ => rfl) (fun _ => rfl)
        (by decide)
    · exact .refl _

/-! ### The sweep and the salvage -/

theorem refreshItem_kept (nowMs staleAfterMs : ℕ) (item : PlanItem) (plan : LivePlan) :
    EdgesKept [item] [(refreshItem nowMs staleAfterMs item plan).1] := by
  have hword : ∀ word, Scheduled word → EdgesKept [item] [{ item with status := word }] :=
    fun word h => ⟨rfl, fun _ => by simpa using h⟩
  simp only [refreshItem]
  split
  · exact .refl _
  · split
    · exact hword _ (by decide)
    · exact hword _ (by decide)
    · exact .refl _

theorem EdgesKept.cons {item item' : PlanItem} (h : EdgesKept [item] [item'])
    (hs : EdgesKept items items') : EdgesKept (item :: items) (item' :: items') := by
  refine ⟨?_, fun hall => ?_⟩
  · have hedge : (item'.id, item'.blockedBy) = (item.id, item.blockedBy) :=
      List.head_eq_of_cons_eq h.edges
    exact List.cons_eq_cons.mpr ⟨hedge, hs.edges⟩
  · rw [List.forall_mem_cons] at hall ⊢
    exact ⟨h.scheduled (by simpa using hall.1) item' List.mem_cons_self, hs.scheduled hall.2⟩

theorem refreshItems_kept (nowMs staleAfterMs : ℕ) (items : List PlanItem) (plan : LivePlan) :
    EdgesKept items (refreshItems nowMs staleAfterMs items plan).1 := by
  induction items generalizing plan with
  | nil => exact .refl _
  | cons item items ih => exact (refreshItem_kept nowMs staleAfterMs item plan).cons (ih _)

theorem reclaimStrandedAssignment_kept (plan : LivePlan) (taskId : String) :
    EdgesKept plan.items (reclaimStrandedAssignment plan taskId).2.items := by
  simp only [reclaimStrandedAssignment]
  split
  · exact .refl _
  · split
    · exact .refl _
    · exact setItem_kept plan taskId (fun _ => rfl) fun _ h => h

theorem salvageTask_kept (nowMs : ℕ) (sessionId : String) (state : DeadMemberSalvage × LivePlan)
    (taskId : String) :
    EdgesKept state.2.items (salvageTask nowMs sessionId state taskId).2.items := by
  obtain ⟨outcome, plan⟩ := state
  simp only [salvageTask]
  split
  · exact setStatus_kept plan taskId "failed" (fun _ => rfl) (fun _ => rfl) (by decide)
  · have hkept := reclaimStrandedAssignment_kept plan taskId
    split
    · rename_i plan' heq
      rw [heq] at hkept
      exact hkept
    · rename_i plan' heq
      rw [heq] at hkept
      exact hkept.trans
        (setStatus_kept plan' taskId "queued" (fun _ => rfl) (fun _ => rfl) (by decide))

theorem salvage_kept (nowMs : ℕ) (sessionId : String) (plan : LivePlan) :
    EdgesKept plan.items (salvagePlanAssignmentsOf nowMs sessionId plan).2.items := by
  have hfold : ∀ (ids : List String) (state : DeadMemberSalvage × LivePlan),
      EdgesKept state.2.items (ids.foldl (salvageTask nowMs sessionId) state).2.items := by
    intro ids
    induction ids with
    | nil => exact fun _ => .refl _
    | cons id ids ih => exact fun state => (salvageTask_kept nowMs sessionId state id).trans (ih _)
  exact hfold (assignedIds sessionId plan) ({}, plan)

/-! ### Dispatches -/

section Config
variable {cfg : Config}

theorem assignTask_kept {nowMs : ℕ} {d : Dispatch} {run : TaskRun}
    (h : assignTask cfg nowMs plan d = .ok (run, plan')) : EdgesKept plan.items plan'.items := by
  simp only [assignTask] at h
  split at h
  · cases h
  · split at h
    · split at h <;> cases h
    · rename_i item _
      cases h
      exact setStatus_kept plan item.id "queued" (fun _ => rfl) (fun _ => rfl) (by decide)

theorem land_kept {nowMs : ℕ} {p : Pending} {run : TaskRun}
    (h : p.land cfg nowMs plan = some (run, plan')) : EdgesKept plan.items plan'.items := by
  cases p with
  | assign d =>
      have hassign : assignTask cfg nowMs plan d = .ok (run, plan') := by
        simp only [Pending.land] at h
        cases hassign : assignTask cfg nowMs plan d with
        | error e => rw [hassign] at h; cases h
        | ok r => rw [hassign] at h; cases h; rfl
      exact assignTask_kept hassign
  | requeue reqSession assignee taskId text =>
      cases h
      simp only [requeueExistingAssignment]
      split
      · exact .refl _
      · exact setStatus_kept plan taskId "queued" (fun _ => rfl) (fun _ => rfl) (by decide)

theorem reclaimNextStranded_kept {memberStatuses : StrMap String} {taskId : String}
    (h : reclaimNextStranded cfg memberStatuses plan = some (taskId, plan')) :
    EdgesKept plan.items plan'.items := by
  simp only [reclaimNextStranded] at h
  split at h
  · cases h
  · rename_i id _
    have hkept := reclaimStrandedAssignment_kept plan id
    split at h
    · cases h
    · rename_i plan₁ heq
      cases h
      rw [heq] at hkept
      exact hkept

/-! ### Graph calls -/

theorem toTaskGraph_closed {json : SerdeJson} {plan : VersionedPlan} (h : Workable plan.items) :
    EdgesKnown (toTaskGraph json plan).edges := toTaskGraph_edges ▸ h.closed

/-- What a call commits is workable, whatever the words of its items were. -/
theorem applyTaskGraph_workable (json : SerdeJson) {plan : VersionedPlan} {graph : TaskGraph}
    (hclosed : EdgesKnown graph.edges) (hranked : Ranked graph.edges) :
    Workable (applyTaskGraph json plan graph).items := by
  refine ⟨fun item hitem => ?_, applyTaskGraph_edges ▸ hclosed, applyTaskGraph_edges ▸ hranked⟩
  obtain ⟨node, -, rfl⟩ := List.mem_map.mp hitem
  have hword : ∀ status, Scheduled (statusToPlan status) := fun status => by
    cases status <;> decide
  exact hword node.status

/-- Every plan is workable. -/
def PlansWorkable (plans : Plans) : Prop := ∀ swarmId, Workable (itemsOf plans swarmId)

theorem PlansWorkable.insert {plans : Plans} (h : PlansWorkable plans) {swarmId : String}
    {plan : VersionedPlan} (hplan : Workable plan.items) :
    PlansWorkable (plans.insert swarmId plan) := by
  intro swarmId'
  rw [itemsOf_insert]
  split
  · exact hplan
  · exact h swarmId'

theorem mutateNode_workable {α : Type} (env : Env) {plans : Plans} (session swarmId : String)
    (nodeId : NodeId) (name : String) (op : TaskGraph → Outcome α) (h : PlansWorkable plans)
    (hkeeps : ∀ g, Keeps g (op g).2) (hclosed : ∀ g, EdgesKnown g.edges → EdgesKnown (op g).2.edges) :
    PlansWorkable (mutateNode env plans session swarmId nodeId name op).2 := by
  unfold mutateNode
  split
  · exact h
  · rename_i plan hplan
    dsimp only
    split
    · rename_i graph hgraph
      have hw : Workable plan.items := by simpa [itemsOf, hplan] using h swarmId
      have hclaimed : EdgesKnown (claimQueuedNodeForActor (toTaskGraph env.json plan) nodeId
          session).edges := by
        simp only [claimQueuedNodeForActor]
        split_ifs
        · exact closed_dispatch (toTaskGraph_closed hw) nodeId session
        · exact toTaskGraph_closed hw
      have hranked := ((claim_keeps (toTaskGraph env.json plan) nodeId session).trans
        (hkeeps _)).ranked (toTaskGraph_edges ▸ hw.ranked)
      have hafter := hclosed _ hclaimed
      rw [hgraph] at hranked hafter
      exact h.insert (applyTaskGraph_workable env.json hafter hranked)
    · exact h

theorem seedPlan_workable (json : SerdeJson) {plan : VersionedPlan} (specs : List NodeSpec)
    (h : Workable plan.items) : Workable (seedPlan json plan specs).2.items := by
  unfold seedPlan
  dsimp only
  split
  · rename_i graph hgraph
    split
    · have hranked := (seed_keeps (g := toTaskGraph json plan) specs).ranked
        (toTaskGraph_edges ▸ h.ranked)
      have hbefore : EdgesKnown (toTaskGraph json plan).edges := toTaskGraph_closed h
      have hclosed := closed_seed hbefore specs
      rw [hgraph] at hranked hclosed
      exact applyTaskGraph_workable json hclosed hranked
    · exact h
  · exact h

theorem handle_workable (env : Env) {plans : Plans} (session : String) (request : Server.Request)
    (h : PlansWorkable plans) : PlansWorkable (handle env plans session request).2 := by
  cases request with
  | seedGraph mode nodes =>
      simp only [handle, handleCommSeedGraph]
      split
      · exact h
      · rename_i swarmId _
        have hstart := itemsOf_eq plans swarmId
        generalize (plans.get swarmId).getD VersionedPlan.new = plan at hstart ⊢
        have hplan : Workable plan.items := hstart ▸ h swarmId
        split
        · exact h.insert hplan
        · generalize hwritten : VersionedPlan.mk _ _ _ _ _ = written
          have hitems : written.items = plan.items := hwritten ▸ rfl
          have hseeded := seedPlan_workable env.json (nodes.map specFromWire) (hitems ▸ hplan)
          split
          all_goals
            rename_i seeded hseed
            rw [hseed] at hseeded
            exact h.insert hseeded
  | expandNode nodeId children =>
      simp only [handle, handleCommExpandNode]
      split
      · exact h
      · exact mutateNode_workable _ _ _ _ _ _ h (fun g => expandNode_keeps _ _ _)
          fun g hg => closed_expandNode hg _ _ _
  | completeNode nodeId artifactJson =>
      simp only [handle, handleCommCompleteNode]
      split
      · exact h
      · split
        · exact h
        · exact mutateNode_workable _ _ _ _ _ _ h (fun g => completeNode_keeps _ _ _)
            fun g hg => closed_completeNode hg _ _ _
  | injectGap gateId nodes =>
      simp only [handle, handleCommInjectGap]
      split
      · exact h
      · exact mutateNode_workable _ _ _ _ _ _ h (fun g => injectFromGate_keeps _ _ _)
          fun g hg => closed_injectFromGate hg _ _ _

theorem graphRequest_workable (session : String) (request : Server.Request)
    (h : Workable plan.items) : Workable (graphRequest cfg session request plan).items := by
  have hempty : PlansWorkable StrMap.empty := fun _ => Workable.nil
  have hplans : PlansWorkable (StrMap.empty.insert cfg.swarmId plan.toVersionedPlan) :=
    hempty.insert h
  have hafter := handle_workable cfg.env session request hplans cfg.swarmId
  simp only [graphRequest]
  split
  · rename_i stored hstored
    simpa [itemsOf, hstored] using hafter
  · exact h

/-! ### Steps and runs -/

/-- **Every step keeps a plan workable.** -/
theorem Event.workable (e : Event) (h : Workable plan.items) :
    Workable (e.writes cfg plan).items := by
  cases e with
  | assignTask | pickNext | control => exact h
  | reclaimNext memberStatuses =>
      simp only [Event.writes]
      rcases hreclaim : reclaimNextStranded cfg memberStatuses plan with _ | ⟨taskId, plan'⟩
      · exact h
      · exact (reclaimNextStranded_kept hreclaim).workable h
  | land nowMs p runs =>
      simp only [Event.writes]
      rcases hland : p.land cfg nowMs plan with _ | ⟨run, plan'⟩
      · exact h
      · exact (land_kept hland).workable h
  | start nowMs run => exact (startTurn_kept nowMs run plan).workable h
  | heartbeat nowMs taskId sessionId detail checkpointSummary =>
      exact (touch_kept nowMs taskId sessionId detail checkpointSummary plan).workable h
  | turnEnd nowMs run result => exact (endTurn_kept nowMs run.taskId result plan).workable h
  | sweep nowMs => exact (refreshItems_kept nowMs cfg.staleAfterMs plan.items plan).workable h
  | salvage nowMs sessionId => exact (salvage_kept nowMs sessionId plan).workable h
  | graph session request => exact graphRequest_workable session request h

/-- **No plan stalls silently.**  After any run from a workable plan, each task that is not completed
waits, over dependencies that are not completed, for a task that the scheduler offers, that is
active, or that failed; and whatever the scheduler offers has its dependencies completed. -/
theorem swarm_never_stalls {s s' : State} {ts : List Step} (run : Run (step cfg) s ts s')
    (h : Workable s.plan.items) :
    (∀ item ∈ s'.plan.items, isCompletedStatus item.status = false →
      ∃ cause ∈ s'.plan.items, Relation.ReflTransGen (WaitsOn s'.plan.items) item cause ∧
        (cause.id ∈ nextRunnableItemIds cfg.order s'.plan.items none ∨
          isActiveStatus cause.status = true ∨ isFailedStatus cause.status = true)) ∧
    ∀ id ∈ nextRunnableItemIds cfg.order s'.plan.items none,
      ∃ item ∈ s'.plan.items, item.id = id ∧ isRunnableStatus item.status = true ∧
        DepsCompleted s'.plan.items item := by
  have hafter : Workable s'.plan.items := run.preserves (P := fun s => Workable s.plan.items)
    (fun t _ hstep hw => by rw [step_plan hstep]; exact t.event.workable hw) h
  exact ⟨fun item hitem hopen => hafter.exists_cause cfg.order hitem hopen,
    fun id hid => runnable_depsCompleted hid⟩

end Config

/-- The worker `w1` runs `x`, and `y` waits for it. -/
def handedOver : State where
  plan := { taskPlan "light" "running" (some "w1") none with
    items := [{ content := taskText, status := "running", priority := "medium", id := "x",
                assignedTo := some "w1" },
              { content := taskText, status := "queued", priority := "medium", id := "y",
                blockedBy := ["x"] }] }
  active := [spawnAssignedTaskRun "w1" "x" taskText]

theorem handedOver_workable : Workable handedOver.plan.items where
  scheduled := by decide
  closed := by unfold EdgesKnown; decide
  ranked := ⟨fun id => if id = "x" then 0 else 1, by decide⟩

/-- The turn of `w1` fails. -/
def turnFails : Step where
  before := handedOver
  event := .turnEnd 1000 (spawnAssignedTaskRun "w1" "x" taskText) (.error "timeout")
  after := { plan := endTurn 1000 "x" (.error "timeout") handedOver.plan }

/-- Then nothing can be done: `y` waits for `x`, which failed. -/
theorem swarm_never_stalls_turnFails :
    Run (step config) handedOver [turnFails] turnFails.after ∧
    turnFails.after.plan.items.map (fun item => (item.id, item.status)) =
      [("x", "failed"), ("y", "queued")] ∧
    nextRunnableItemIds config.order turnFails.after.plan.items none = [] ∧
    (∀ item ∈ turnFails.after.plan.items, isCompletedStatus item.status = false →
      ∃ cause ∈ turnFails.after.plan.items,
        Relation.ReflTransGen (WaitsOn turnFails.after.plan.items) item cause ∧
        (cause.id ∈ nextRunnableItemIds config.order turnFails.after.plan.items none ∨
          isActiveStatus cause.status = true ∨ isFailedStatus cause.status = true)) := by
  have hstep : step config handedOver turnFails.event = some turnFails.after := by
    simp [step, handedOver, turnFails, spawnAssignedTaskRun]
  have run : Run (step config) handedOver [turnFails] turnFails.after := .cons hstep (.nil _)
  exact ⟨run, by decide, by decide, (swarm_never_stalls run handedOver_workable).1⟩

end Jcode.Swarm
