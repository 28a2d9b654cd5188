import Jcode.Mutation.Phases
import Jcode.Mutation.Window
import Jcode.Server.LivePlan

/-!
# Server — what an approval approves

A decision names the worker, not the proposal.  It may be answered from the record of an earlier
decision on the same worker, and it reads, appends and removes the proposal in three critical
sections, between which the worker may propose again.

* `approval_honoured`: an approval that is answered `Done` has appended the proposal that was
  pending when it arrived, once, and no proposal disappears unseen, as long as the worker proposes
  only between decisions and an approval is made alone and answered by its own execution.
* `approval_failing`: a second proposal is acknowledged from the record of the first.
-/

namespace Jcode.Server
open Rust Runs Jcode.Dag Jcode.Bridge Jcode.Live
open Jcode.Mutation (PersistedSwarmMutationResponse Phase AnsweredFrom)

/-! ### Requests under way -/

/-- The request has been made, and is not answered from a record or by another execution. -/
def active : Phase → Bool
  | .idle | .replayed | .joined _ => false
  | _ => true

/-- The request has arrived, and its own execution has not come to its end. -/
def PlanState.UnderWay (s : PlanState) (i : ℕ) : Prop :=
  active (s.mutations.phase i) = true ∧ ∀ response, s.work i ≠ .ended response

/-- The proposal that an approval works with. -/
def Work.proposal : Work → Option Proposal
  | .read proposal | .validated proposal _ | .merged proposal => some proposal
  | _ => none

namespace PlanRequest

/-- The swarm and the worker that the request is about. -/
def about (r : PlanRequest) : String × String := (r.swarmId, r.proposerSession)

end PlanRequest

section Requests
variable (order : IterOrder) (requestKey : String → String → List String → String)
variable (request : ℕ → PlanRequest)

/-- A worker proposes when nothing of it is pending and no decision on it is under way; an approval
arrives when no other approval for the worker is under way, and is answered by its own execution:
it neither finds a recorded `Done` nor joins an execution. -/
def Careful (s : PlanState) : PlanEvent → Prop
  | .propose session swarmId items => planCycleError order items = none →
      s.pending swarmId session = none ∧
        ∀ i, (request i).about = (swarmId, session) → ¬ s.UnderWay i
  | .runtime (.call i) => (request i).decision = .approve →
      ∀ j, (request j).decision = .approve → (request j).about = (request i).about → ¬ s.UnderWay j
  | .runtime (.register i) => (request i).decision = .approve →
      s.mutations.phase i ≠ .checked (some .done) ∧
        (s.mutations.phase i = .checked none →
          s.mutations.activeKeys.get (mutationOf requestKey request i).key = none)
  | _ => True

/-- Approvals apply what they were asked about. -/
structure Honoured (ts : List (Transition PlanState PlanEvent)) (s : PlanState) : Prop where
  /-- An approval answered `Done` has appended the proposal that was pending when it arrived; nobody
  else has appended it. -/
  applied : ∀ i id, (request i).decision = .approve → .done id ∈ s.mutations.responses i →
    ∃ proposal, s.arrived i = some proposal ∧
      s.appended.filter (·.2 = proposal) = [(i, proposal)]
  /-- What is appended is appended to the items of the plan. -/
  written : ∀ t ∈ ts, t.after.appended = t.before.appended ∨
    ∃ i proposal, t.after.appended = t.before.appended ++ [(i, proposal)] ∧
      itemsOf t.after.plans (request i).swarmId =
        itemsOf t.before.plans (request i).swarmId ++ proposal.items
  /-- A proposal is removed by an approval that has appended it, or by a rejection that arrived while
  it was pending. -/
  removed : ∀ t ∈ ts, ∀ swarmId session proposal, t.before.pending swarmId session = some proposal →
    t.after.pending swarmId session ≠ some proposal →
      ∃ i, t.event = .removeProposal i ∧ (request i).about = (swarmId, session) ∧
        t.before.arrived i = some proposal ∧
        ((request i).decision = .approve → (i, proposal) ∈ t.before.appended)

/-! ### The invariant -/

/-- The invariant.  `place` is where the proposal of each number was stored. -/
structure ApprovalLaw (files : Mutation.Files) (place : ℕ → String × String) (s : PlanState) :
    Prop where
  mutations : Mutation.Law (mutationOf requestKey request) files s.mutations
  untouched : ∀ i, (s.mutations.phase i).state = none → s.work i = .start
  answered : ∀ i response, (s.mutations.phase i).response = some response →
    s.work i = .ended response
  pending : ∀ swarmId session proposal, s.pending swarmId session = some proposal →
    proposal.createdAt < s.proposals ∧ place proposal.createdAt = (swarmId, session)
  arrived : ∀ i proposal, s.arrived i = some proposal →
    proposal.createdAt < s.proposals ∧ place proposal.createdAt = (request i).about
  since : ∀ i, s.UnderWay i →
    s.pendingFor (request i) = none ∨ s.pendingFor (request i) = s.arrived i
  holds : ∀ i proposal, (s.work i).proposal = some proposal →
    (request i).decision = .approve ∧ s.arrived i = some proposal
  finds : ∀ i, s.work i = .found → (request i).decision ≠ .approve
  ended : ∀ i, s.work i = .ended .done → (request i).decision = .approve →
    ∃ proposal, (i, proposal) ∈ s.appended
  merged : ∀ i proposal, s.work i = .merged proposal → (i, proposal) ∈ s.appended
  writer : ∀ i proposal, (i, proposal) ∈ s.appended → (request i).decision = .approve ∧
    s.arrived i = some proposal ∧ (s.work i = .merged proposal ∨ s.work i = .ended .done)
  once : (s.appended.map Prod.snd).Nodup
  alone : ∀ i j, (request i).decision = .approve → (request j).decision = .approve →
    (request i).about = (request j).about → s.UnderWay i → s.UnderWay j → i = j
  fresh : ∀ i j proposal, (request i).decision = .approve → s.UnderWay i →
    s.arrived i = some proposal → (j, proposal) ∈ s.appended → j = i
  kept : ∀ i proposal, (i, proposal) ∈ s.appended → s.pendingFor (request i) = some proposal →
    s.work i = .merged proposal
  own : ∀ i, (request i).decision = .approve → ∀ executor, s.mutations.phase i ≠ .joined executor
  direct : ∀ i, (request i).decision = .approve → s.mutations.phase i = .replayed →
    ∃ response, response ≠ .done ∧
      AnsweredFrom (mutationOf requestKey request) i response s.mutations

variable {order requestKey request} {s s' : PlanState} {e : PlanEvent} {files : Mutation.Files}
variable {place : ℕ → String × String}

/-! ### The slots of the shared context -/

theorem proposalKey_injective : Function.Injective proposalKey := by
  intro a b h
  have htext : "plan_proposal:".toList ++ a.toList = "plan_proposal:".toList ++ b.toList := by
    rw [← String.toList_append, ← String.toList_append]
    exact congrArg String.toList h
  exact String.toList_inj.mp (List.append_cancel_left htext)

theorem pending_propose (swarmId session swarmId' session' : String) (proposal : Proposal)
    (hs : s'.sharedContext = s.sharedContext.insert swarmId
      (((s.sharedContext.get swarmId).getD StrMap.empty).insert (proposalKey session) proposal)) :
    s'.pending swarmId' session' =
      if (swarmId', session') = (swarmId, session) then some proposal
      else s.pending swarmId' session' := by
  rw [PlanState.pending, hs, StrMap.get_insert]
  by_cases hswarm : swarmId' = swarmId
  · subst hswarm
    rw [if_pos rfl, Option.bind_some, StrMap.get_insert]
    by_cases hsession : session' = session
    · rw [if_pos (congrArg proposalKey hsession), if_pos (by rw [hsession])]
    · have hkey : proposalKey session' ≠ proposalKey session := fun heq =>
        hsession (proposalKey_injective heq)
      have hslot : (swarmId', session') ≠ (swarmId', session) := fun heq =>
        hsession (Prod.mk.inj heq).2
      rw [if_neg hkey, if_neg hslot, PlanState.pending]
      cases s.sharedContext.get swarmId' with
      | none => rfl
      | some context => rfl
  · have hslot : (swarmId', session') ≠ (swarmId, session) := fun heq =>
      hswarm (Prod.mk.inj heq).1
    rw [if_neg hswarm, if_neg hslot]
    rfl

theorem pending_remove (swarmId session swarmId' session' : String)
    (hs : s'.sharedContext = s.sharedContext.modify swarmId (·.remove (proposalKey session))) :
    s'.pending swarmId' session' =
      if (swarmId', session') = (swarmId, session) then none else s.pending swarmId' session' := by
  rw [PlanState.pending, hs, StrMap.get_modify]
  by_cases hswarm : swarmId' = swarmId
  · subst hswarm
    rw [if_pos rfl, PlanState.pending]
    cases s.sharedContext.get swarmId' with
    | none => exact (ite_self _).symm
    | some context =>
        show (context.remove _).get _ = _
        rw [StrMap.get_remove]
        by_cases hsession : session' = session
        · rw [if_pos (congrArg proposalKey hsession), if_pos (by rw [hsession])]
        · have hkey : proposalKey session' ≠ proposalKey session := fun heq =>
            hsession (proposalKey_injective heq)
          have hslot : (swarmId', session') ≠ (swarmId', session) := fun heq =>
            hsession (Prod.mk.inj heq).2
          rw [if_neg hkey, if_neg hslot]
          rfl
  · have hslot : (swarmId', session') ≠ (swarmId, session) := fun heq =>
      hswarm (Prod.mk.inj heq).1
    rw [if_neg hswarm, if_neg hslot]
    rfl

/-! ### Steps of the runtime -/

theorem active_of_moved {i : ℕ} {e : Mutation.Event} {phase phase' : Phase}
    (h : Mutation.Moved (mutationOf requestKey request) s.mutations i e phase phase')
    (hactive : active phase' = true) : active phase = true ∨ e = .call i := by
  cases h with
  | call => exact .inr rfl
  | replay _ | join _ => cases hactive
  | _ => exact .inl rfl

/-- A request that is under way after a step of the runtime was under way before, or arrives. -/
theorem underWay_of_runtime {e : Mutation.Event} {mutations : Mutation.State}
    (h : Mutation.step (mutationOf requestKey request) s.mutations e = some mutations)
    {i : ℕ} (hi : s'.UnderWay i) (hm : s'.mutations = mutations) (hw : s'.work = s.work) :
    s.UnderWay i ∨ e = .call i := by
  obtain ⟨hactive, hended⟩ := hi
  rw [hm] at hactive
  rw [hw] at hended
  rcases Mutation.phase_cases h i with heq | hmoved
  · exact .inl ⟨heq ▸ hactive, hended⟩
  · exact (active_of_moved hmoved hactive).imp_left fun hbefore => ⟨hbefore, hended⟩

/-- What a request keeps of its way to an answer. -/
theorem own_of_runtime {e : Mutation.Event} {mutations : Mutation.State}
    (law : ApprovalLaw requestKey request files place s)
    (hcareful : Careful order requestKey request s (.runtime e))
    (h : Mutation.step (mutationOf requestKey request) s.mutations e = some mutations) {i : ℕ}
    (happrove : (request i).decision = .approve) :
    (∀ executor, mutations.phase i ≠ .joined executor) ∧
      (mutations.phase i = .replayed → ∃ response, response ≠ .done ∧
        AnsweredFrom (mutationOf requestKey request) i response mutations) := by
  have hstay : ∀ {response : PersistedSwarmMutationResponse},
      AnsweredFrom (mutationOf requestKey request) i response s.mutations →
        AnsweredFrom (mutationOf requestKey request) i response mutations :=
    fun hanswered => hanswered.step law.mutations h
  rcases Mutation.phase_cases h i with heq | hmoved
  · rw [heq]
    refine ⟨law.own i happrove, fun hreplayed => ?_⟩
    obtain ⟨response, hne, hanswered⟩ := law.direct i happrove hreplayed
    exact ⟨response, hne, hstay hanswered⟩
  · generalize hphase' : mutations.phase i = phase' at hmoved
    generalize hphase : s.mutations.phase i = phase at hmoved
    cases hmoved with
    | replay response =>
        refine ⟨nofun, fun _ => ⟨response, ?_, hstay (.inl hphase)⟩⟩
        rintro rfl
        exact (hcareful happrove).1 hphase
    | join hactive =>
        rw [(hcareful happrove).2 hphase] at hactive
        cases hactive
    | _ => exact ⟨nofun, nofun⟩

/-- A step of the runtime that is not a call. -/
theorem ApprovalLaw.runtime {e : Mutation.Event} {mutations : Mutation.State}
    (law : ApprovalLaw requestKey request files place s)
    (hcareful : Careful order requestKey request s (.runtime e)) (he : e.isCall = false)
    (hwork : ∀ i response, e = .persistFinal i response → s.work i = .ended response)
    (h : Mutation.step (mutationOf requestKey request) s.mutations e = some mutations) :
    ApprovalLaw requestKey request files place { s with mutations := mutations } := by
  have hway : ∀ {i}, PlanState.UnderWay { s with mutations := mutations } i → s.UnderWay i := by
    intro i hi
    rcases underWay_of_runtime h hi rfl rfl with hbefore | rfl
    · exact hbefore
    · cases he
  exact {
    mutations := law.mutations.step h
    untouched := fun i hi => law.untouched i (Mutation.state_none_of_step h hi)
    answered := fun i response hi => (Mutation.response_of_step h hi).elim
      (law.answered i response) (hwork i response)
    pending := law.pending
    arrived := law.arrived
    since := fun i hi => law.since i (hway hi)
    holds := law.holds
    finds := law.finds
    ended := law.ended
    merged := law.merged
    writer := law.writer
    once := law.once
    alone := fun i j hi hj habout hway₁ hway₂ => law.alone i j hi hj habout (hway hway₁) (hway hway₂)
    fresh := fun i j proposal hi hway₁ => law.fresh i j proposal hi (hway hway₁)
    kept := law.kept
    own := fun i hi => (own_of_runtime law hcareful h hi).1
    direct := fun i hi => (own_of_runtime law hcareful h hi).2 }

/-- An execution that has done something is under way until it ends. -/
theorem ApprovalLaw.underWay_of_work (law : ApprovalLaw requestKey request files place s) {i : ℕ}
    (hstart : s.work i ≠ .start) (hended : ∀ response, s.work i ≠ .ended response) :
    s.UnderWay i := by
  refine ⟨?_, hended⟩
  have hstate : (s.mutations.phase i).state ≠ none := fun hnone => hstart (law.untouched i hnone)
  cases hphase : s.mutations.phase i with
  | executing _ | persisted _ _ | finished _ _ => rfl
  | _ => exact absurd (congrArg Phase.state hphase) hstate

/-- A request arrives. -/
theorem ApprovalLaw.call {i : ℕ} {mutations : Mutation.State}
    (law : ApprovalLaw requestKey request files place s)
    (hcareful : Careful order requestKey request s (.runtime (.call i)))
    (h : Mutation.step (mutationOf requestKey request) s.mutations (.call i) = some mutations) :
    ApprovalLaw requestKey request files place
      { s with
        mutations := mutations
        arrived := Function.update s.arrived i (s.pendingFor (request i)) } := by
  have hidle : s.mutations.phase i = .idle := by
    simp only [Mutation.step] at h
    split at h
    · assumption
    · cases h
  have hstart : s.work i = .start := law.untouched i (by rw [hidle]; rfl)
  have hway : ∀ {j : ℕ} {s' : PlanState}, s'.UnderWay j → s'.mutations = mutations →
      s'.work = s.work → j ≠ i → s.UnderWay j := by
    intro j s' hj hm hw hne
    rcases underWay_of_runtime h hj hm hw with hbefore | heq
    · exact hbefore
    · cases heq
      exact absurd rfl hne
  have hwriter : ∀ {j proposal}, (j, proposal) ∈ s.appended → j ≠ i := by
    rintro j proposal hmem rfl
    obtain ⟨-, -, hwork | hwork⟩ := law.writer j proposal hmem
    · rw [hstart] at hwork
      cases hwork
    · rw [hstart] at hwork
      cases hwork
  exact {
    mutations := law.mutations.step h
    untouched := fun j hj => law.untouched j (Mutation.state_none_of_step h hj)
    answered := fun j response hj => (Mutation.response_of_step h hj).elim
      (law.answered j response) fun heq => by cases heq
    pending := law.pending
    arrived := by
      intro j proposal hj
      dsimp only at hj
      rw [Function.update_apply] at hj
      split at hj
      · rename_i heq
        rw [heq]
        exact law.pending _ _ proposal hj
      · exact law.arrived j proposal hj
    since := by
      intro j hj
      by_cases hji : j = i
      · subst hji
        refine .inr ?_
        show s.pendingFor (request j) = Function.update s.arrived j _ j
        rw [Function.update_self]
      · have hbefore := law.since j (hway hj rfl rfl hji)
        dsimp only
        rw [Function.update_of_ne hji]
        exact hbefore
    holds := by
      intro j proposal hj
      have hji : j ≠ i := by
        rintro rfl
        rw [hstart] at hj
        cases hj
      dsimp only
      rw [Function.update_of_ne hji]
      exact law.holds j proposal hj
    finds := law.finds
    ended := law.ended
    merged := law.merged
    writer := by
      intro j proposal hmem
      dsimp only
      rw [Function.update_of_ne (hwriter hmem)]
      exact law.writer j proposal hmem
    once := law.once
    alone := by
      intro j k hj hk habout hway₁ hway₂
      by_cases hji : j = i
      · by_cases hki : k = i
        · exact hji.trans hki.symm
        · subst hji
          exact absurd (hway hway₂ rfl rfl hki) (hcareful hj k hk habout.symm)
      · by_cases hki : k = i
        · subst hki
          exact absurd (hway hway₁ rfl rfl hji) (hcareful hk j hj habout)
        · exact law.alone j k hj hk habout (hway hway₁ rfl rfl hji) (hway hway₂ rfl rfl hki)
    fresh := by
      intro j k proposal hj hway₁ harrived hmem
      by_cases hji : j = i
      · subst hji
        dsimp only at harrived hmem
        rw [Function.update_self] at harrived
        -- the proposal is still pending, so the approval that appended it has not removed it
        obtain ⟨hk, hkarrived, -⟩ := law.writer k proposal hmem
        have habout : (request k).about = (request j).about :=
          (law.arrived k proposal hkarrived).2.symm.trans (law.pending _ _ proposal harrived).2
        have hpending : s.pendingFor (request k) = some proposal := by
          rw [← harrived, PlanState.pendingFor, PlanState.pendingFor,
            show (request k).swarmId = (request j).swarmId from congrArg Prod.fst habout,
            show (request k).proposerSession = (request j).proposerSession from
              congrArg Prod.snd habout]
        have hmerged := law.kept k proposal hmem hpending
        have hk' : s.UnderWay k := law.underWay_of_work (by simp [hmerged]) (by simp [hmerged])
        exact absurd hk' (hcareful hj k hk habout)
      · dsimp only at harrived
        rw [Function.update_of_ne hji] at harrived
        exact law.fresh j k proposal hj (hway hway₁ rfl rfl hji) harrived hmem
    kept := law.kept
    own := fun j hj => (own_of_runtime law hcareful h hj).1
    direct := fun j hj => (own_of_runtime law hcareful h hj).2 }

/-! ### Steps of an execution -/

/-- Setting the work of an execution that has not ended puts nothing under way. -/
theorem underWay_of_setWork {i j : ℕ} {work : Work} (hi : ∀ response, s.work i ≠ .ended response)
    (hj : s'.UnderWay j) (hm : s'.mutations = s.mutations)
    (hw : s'.work = Function.update s.work i work) : s.UnderWay j := by
  obtain ⟨hactive, hended⟩ := hj
  refine ⟨hm ▸ hactive, fun response hresponse => ?_⟩
  by_cases hji : j = i
  · exact hi response (hji ▸ hresponse)
  · refine hended response ?_
    rw [hw, Function.update_of_ne hji]
    exact hresponse

/-- The work of the others, and of the one that moves. -/
theorem forall_work {i : ℕ} {work : Work} {P : ℕ → Work → Prop} (h : ∀ j, P j (s.work j))
    (hi : P i work) (j : ℕ) : P j (Function.update s.work i work j) := by
  rw [Function.update_apply]
  split
  · rename_i heq
    exact heq ▸ hi
  · exact h j

/-- An execution goes on before its first write. -/
theorem ApprovalLaw.advance {i : ℕ} {work : Work}
    (law : ApprovalLaw requestKey request files place s)
    (hstate : (s.mutations.phase i).state ≠ none)
    (hbefore : s.work i = .start ∨ ∃ proposal, s.work i = .read proposal)
    (hholds : ∀ proposal, work.proposal = some proposal →
      (request i).decision = .approve ∧ s.arrived i = some proposal)
    (hfinds : work = .found → (request i).decision ≠ .approve)
    (hended : work ≠ .ended .done) (hmerged : ∀ proposal, work ≠ .merged proposal) :
    ApprovalLaw requestKey request files place (s.setWork i work) := by
  have hnot : ∀ response, s.work i ≠ .ended response := by
    rcases hbefore with heq | ⟨_, heq⟩
    · simp [heq]
    · simp [heq]
  have hway : ∀ {j}, (s.setWork i work).UnderWay j → s.UnderWay j := fun hj =>
    underWay_of_setWork hnot hj rfl rfl
  -- it has appended nothing yet
  have hwriter : ∀ {j proposal}, (j, proposal) ∈ s.appended → j ≠ i := by
    rintro j proposal hmem rfl
    obtain ⟨-, -, hwork | hwork⟩ := law.writer j proposal hmem
    · rcases hbefore with heq | ⟨_, heq⟩
      · rw [heq] at hwork
        cases hwork
      · rw [heq] at hwork
        cases hwork
    · exact hnot _ hwork
  exact {
    mutations := law.mutations
    untouched := forall_work (P := fun j w => (s.mutations.phase j).state = none → w = .start)
      law.untouched fun hnone => absurd hnone hstate
    answered := forall_work (P := fun j w => ∀ response,
      (s.mutations.phase j).response = some response → w = .ended response) law.answered
      fun response hresponse => absurd (law.answered i response hresponse) (hnot response)
    pending := law.pending
    arrived := law.arrived
    since := fun j hj => law.since j (hway hj)
    holds := forall_work (P := fun j w => ∀ proposal, w.proposal = some proposal →
      (request j).decision = .approve ∧ s.arrived j = some proposal) law.holds hholds
    finds := forall_work (P := fun j w => w = .found → (request j).decision ≠ .approve) law.finds
      hfinds
    ended := forall_work (P := fun j w => w = .ended .done → (request j).decision = .approve →
      ∃ proposal, (j, proposal) ∈ s.appended) law.ended fun heq => absurd heq hended
    merged := forall_work (P := fun j w => ∀ proposal, w = .merged proposal →
      (j, proposal) ∈ s.appended) law.merged fun proposal heq => absurd heq (hmerged proposal)
    writer := fun j proposal hmem => by
      simp only [PlanState.setWork, Function.update_of_ne (hwriter hmem)]
      exact law.writer j proposal hmem
    once := law.once
    alone := fun j k hj hk habout hway₁ hway₂ => law.alone j k hj hk habout (hway hway₁) (hway hway₂)
    fresh := fun j k proposal hj hway₁ => law.fresh j k proposal hj (hway hway₁)
    kept := fun j proposal hmem hpending => by
      simp only [PlanState.setWork, Function.update_of_ne (hwriter hmem)]
      exact law.kept j proposal hmem hpending
    own := law.own
    direct := law.direct }

/-- An approval appends the proposal. -/
theorem ApprovalLaw.merge {i : ℕ} {proposal : Proposal} {seen : List PlanItem} {plans : Plans}
    (law : ApprovalLaw requestKey request files place s)
    (hwork : s.work i = .validated proposal seen) :
    ApprovalLaw requestKey request files place
      { s.setWork i (.merged proposal) with
        plans := plans
        appended := s.appended ++ [(i, proposal)] } := by
  have hnot : ∀ response, s.work i ≠ .ended response := by simp [hwork]
  have hi : s.UnderWay i := law.underWay_of_work (by simp [hwork]) hnot
  obtain ⟨happrove, harrived⟩ := law.holds i proposal (by rw [hwork]; rfl)
  have hway : ∀ {j : ℕ} {s' : PlanState}, s'.UnderWay j → s'.mutations = s.mutations →
      s'.work = Function.update s.work i (.merged proposal) → s.UnderWay j :=
    fun hj hm hw => underWay_of_setWork hnot hj hm hw
  have hwriter : ∀ {j q}, (j, q) ∈ s.appended → j ≠ i := by
    rintro j q hmem rfl
    obtain ⟨-, -, hw | hw⟩ := law.writer j q hmem
    · rw [hwork] at hw
      cases hw
    · exact hnot _ hw
  have hmem_iff : ∀ {j q}, (j, q) ∈ s.appended ++ [(i, proposal)] →
      (j, q) ∈ s.appended ∨ j = i ∧ q = proposal := by
    intro j q hmem
    simpa using hmem
  exact {
    mutations := law.mutations
    untouched := forall_work (P := fun j w => (s.mutations.phase j).state = none → w = .start)
      law.untouched fun hnone => by
        rw [law.untouched i hnone] at hwork
        cases hwork
    answered := forall_work (P := fun j w => ∀ response,
      (s.mutations.phase j).response = some response → w = .ended response) law.answered
      fun response hresponse => absurd (law.answered i response hresponse) (hnot response)
    pending := law.pending
    arrived := law.arrived
    since := fun j hj => law.since j (hway hj rfl rfl)
    holds := forall_work (P := fun j w => ∀ proposal, w.proposal = some proposal →
      (request j).decision = .approve ∧ s.arrived j = some proposal) law.holds fun q hq => by
        cases hq
        exact ⟨happrove, harrived⟩
    finds := forall_work (P := fun j w => w = .found → (request j).decision ≠ .approve) law.finds
      nofun
    ended := fun j hj happrove => by
      have hne : j ≠ i := by
        rintro rfl
        simp [PlanState.setWork] at hj
      simp only [PlanState.setWork, Function.update_of_ne hne] at hj
      obtain ⟨q, hq⟩ := law.ended j hj happrove
      exact ⟨q, List.mem_append_left _ hq⟩
    merged := forall_work (P := fun j w => ∀ q, w = .merged q →
      (j, q) ∈ s.appended ++ [(i, proposal)])
      (fun j q hq => List.mem_append_left _ (law.merged j q hq)) fun q hq => by
        cases hq
        exact List.mem_append_right _ List.mem_cons_self
    writer := fun j q hmem => by
      rcases hmem_iff hmem with hold | ⟨rfl, rfl⟩
      · simp only [PlanState.setWork, Function.update_of_ne (hwriter hold)]
        exact law.writer j q hold
      · exact ⟨happrove, harrived, .inl (Function.update_self _ _ _)⟩
    once := by
      show ((s.appended ++ [(i, proposal)]).map Prod.snd).Nodup
      rw [List.map_append]
      refine law.once.append (List.nodup_singleton _) ?_
      -- an earlier append of it would be by the same approval
      rw [List.map_singleton, List.disjoint_singleton]
      intro hmem
      obtain ⟨⟨j, q⟩, hold, rfl⟩ := List.mem_map.mp hmem
      exact hwriter hold (law.fresh i j q happrove hi harrived hold)
    alone := fun j k hj hk habout hway₁ hway₂ =>
      law.alone j k hj hk habout (hway hway₁ rfl rfl) (hway hway₂ rfl rfl)
    fresh := fun j k q hj hway₁ hq hmem => by
      rcases hmem_iff hmem with hold | ⟨rfl, rfl⟩
      · exact law.fresh j k q hj (hway hway₁ rfl rfl) hq hold
      · have habout : (request k).about = (request j).about :=
          (law.arrived k q harrived).2.symm.trans (law.arrived j q hq).2
        exact law.alone k j happrove hj habout hi (hway hway₁ rfl rfl)
    kept := fun j q hmem hpending => by
      rcases hmem_iff hmem with hold | ⟨rfl, rfl⟩
      · simp only [PlanState.setWork, Function.update_of_ne (hwriter hold)]
        exact law.kept j q hold hpending
      · exact Function.update_self _ _ _
    own := law.own
    direct := law.direct }

/-- What a request is about, as the two names of its slot. -/
theorem pendingFor_congr {i j : ℕ} (habout : (request i).about = (request j).about) :
    s.pendingFor (request i) = s.pendingFor (request j) := by
  rw [PlanState.pendingFor, PlanState.pendingFor,
    show (request i).swarmId = (request j).swarmId from congrArg Prod.fst habout,
    show (request i).proposerSession = (request j).proposerSession from congrArg Prod.snd habout]

/-- An execution removes the proposal of its worker, and ends. -/
theorem ApprovalLaw.remove {i : ℕ} (law : ApprovalLaw requestKey request files place s)
    (hwork : s.work i = .found ∨ ∃ proposal, s.work i = .merged proposal) :
    ApprovalLaw requestKey request files place
      { s.setWork i (.ended .done) with
        sharedContext := s.sharedContext.modify (request i).swarmId
          (·.remove (proposalKey (request i).proposerSession)) } := by
  have hnot : ∀ response, s.work i ≠ .ended response := by
    rcases hwork with heq | ⟨_, heq⟩
    · simp [heq]
    · simp [heq]
  have hstart : s.work i ≠ .start := by
    rcases hwork with heq | ⟨_, heq⟩
    · simp [heq]
    · simp [heq]
  have hway : ∀ {j : ℕ} {s' : PlanState}, s'.UnderWay j → s'.mutations = s.mutations →
      s'.work = Function.update s.work i (.ended .done) → s.UnderWay j :=
    fun hj hm hw => underWay_of_setWork hnot hj hm hw
  have hpending := fun swarmId session =>
    pending_remove (request i).swarmId (request i).proposerSession swarmId session
      (rfl : { s.setWork i (.ended .done) with
        sharedContext := s.sharedContext.modify (request i).swarmId
          (·.remove (proposalKey (request i).proposerSession)) }.sharedContext =
        s.sharedContext.modify (request i).swarmId
          (·.remove (proposalKey (request i).proposerSession)))
  have hold : ∀ {swarmId session proposal},
      (if (swarmId, session) = (request i).about then none else s.pending swarmId session) =
        some proposal → (swarmId, session) ≠ (request i).about ∧
          s.pending swarmId session = some proposal := by
    intro swarmId session proposal h
    split at h
    · cases h
    · exact ⟨‹_›, h⟩
  exact {
    mutations := law.mutations
    untouched := forall_work (P := fun j w => (s.mutations.phase j).state = none → w = .start)
      law.untouched fun hnone => absurd (law.untouched i hnone) hstart
    answered := forall_work (P := fun j w => ∀ response,
      (s.mutations.phase j).response = some response → w = .ended response) law.answered
      fun response hresponse => absurd (law.answered i response hresponse) (hnot response)
    pending := fun swarmId session proposal h =>
      law.pending swarmId session proposal (hold ((hpending swarmId session).symm.trans h)).2
    arrived := law.arrived
    since := fun j hj => by
      rw [PlanState.pendingFor, hpending]
      split
      · exact .inl rfl
      · exact law.since j (hway hj rfl rfl)
    holds := forall_work (P := fun j w => ∀ proposal, w.proposal = some proposal →
      (request j).decision = .approve ∧ s.arrived j = some proposal) law.holds nofun
    finds := forall_work (P := fun j w => w = .found → (request j).decision ≠ .approve) law.finds
      nofun
    ended := forall_work (P := fun j w => w = .ended .done → (request j).decision = .approve →
      ∃ proposal, (j, proposal) ∈ s.appended) law.ended fun _ happrove => by
        rcases hwork with hfound | ⟨proposal, hmerged⟩
        · exact absurd happrove (law.finds i hfound)
        · exact ⟨proposal, law.merged i proposal hmerged⟩
    merged := forall_work (P := fun j w => ∀ proposal, w = .merged proposal →
      (j, proposal) ∈ s.appended) law.merged nofun
    writer := fun j proposal hmem => by
      obtain ⟨happrove, harrived, hbefore⟩ := law.writer j proposal hmem
      refine ⟨happrove, harrived, ?_⟩
      by_cases hji : j = i
      · exact .inr (hji ▸ Function.update_self _ _ _)
      · simpa only [PlanState.setWork, Function.update_of_ne hji] using hbefore
    once := law.once
    alone := fun j k hj hk habout hway₁ hway₂ =>
      law.alone j k hj hk habout (hway hway₁ rfl rfl) (hway hway₂ rfl rfl)
    fresh := fun j k proposal hj hway₁ => law.fresh j k proposal hj (hway hway₁ rfl rfl)
    kept := fun j proposal hmem h => by
      obtain ⟨hne, hbefore⟩ := hold ((hpending _ _).symm.trans h)
      have hji : j ≠ i := by
        rintro rfl
        exact hne rfl
      simp only [PlanState.setWork, Function.update_of_ne hji]
      exact law.kept j proposal hmem hbefore
    own := law.own
    direct := law.direct }

/-- A worker proposes between decisions. -/
theorem ApprovalLaw.propose {session swarmId : String} {items : List PlanItem}
    (law : ApprovalLaw requestKey request files place s)
    (hcareful : ∀ i, (request i).about = (swarmId, session) → ¬ s.UnderWay i) :
    ApprovalLaw requestKey request files (Function.update place s.proposals (swarmId, session))
      { s with
        sharedContext := s.sharedContext.insert swarmId
          (((s.sharedContext.get swarmId).getD StrMap.empty).insert (proposalKey session)
            { createdAt := s.proposals, items := items })
        proposals := s.proposals + 1 } := by
  have hpending := fun swarmId' session' =>
    pending_propose swarmId session swarmId' session' { createdAt := s.proposals, items := items }
      (rfl : { s with
        sharedContext := s.sharedContext.insert swarmId
          (((s.sharedContext.get swarmId).getD StrMap.empty).insert (proposalKey session)
            { createdAt := s.proposals, items := items })
        proposals := s.proposals + 1 }.sharedContext = s.sharedContext.insert swarmId
          (((s.sharedContext.get swarmId).getD StrMap.empty).insert (proposalKey session)
            { createdAt := s.proposals, items := items }))
  have hplace : ∀ {n slot}, n < s.proposals ∧ place n = slot → n < s.proposals + 1 ∧
      Function.update place s.proposals (swarmId, session) n = slot := by
    rintro n slot ⟨hlt, rfl⟩
    exact ⟨Nat.lt_succ_of_lt hlt, Function.update_of_ne hlt.ne _ _⟩
  exact {
    mutations := law.mutations
    untouched := law.untouched
    answered := law.answered
    pending := fun swarmId' session' proposal h => by
      rw [hpending] at h
      split at h
      · rename_i hslot
        cases h
        exact ⟨Nat.lt_succ_self _, (Function.update_self _ _ _).trans hslot.symm⟩
      · exact hplace (law.pending _ _ _ h)
    arrived := fun i proposal h => hplace (law.arrived i proposal h)
    since := fun i hi => by
      have hslot : ((request i).swarmId, (request i).proposerSession) ≠ (swarmId, session) :=
        fun habout => hcareful i habout hi
      rw [PlanState.pendingFor, hpending, if_neg hslot]
      exact law.since i hi
    holds := law.holds
    finds := law.finds
    ended := law.ended
    merged := law.merged
    writer := law.writer
    once := law.once
    alone := law.alone
    fresh := law.fresh
    kept := fun i proposal hmem h => by
      rw [PlanState.pendingFor, hpending] at h
      split at h
      · -- what was appended before has another number
        cases h
        exact absurd (law.arrived i _ (law.writer i _ hmem).2.1).1 (lt_irrefl _)
      · exact law.kept i proposal hmem h
    own := law.own
    direct := law.direct }

/-- The law does not mention the plans. -/
theorem ApprovalLaw.plans (law : ApprovalLaw requestKey request files place s) (plans : Plans) :
    ApprovalLaw requestKey request files place { s with plans := plans } :=
  ⟨law.mutations, law.untouched, law.answered, law.pending, law.arrived, law.since, law.holds,
    law.finds, law.ended, law.merged, law.writer, law.once, law.alone, law.fresh, law.kept, law.own,
    law.direct⟩

/-- The step lemma. -/
theorem ApprovalLaw.step (law : ApprovalLaw requestKey request files place s)
    (hcareful : Careful order requestKey request s e)
    (h : planStep order requestKey request s e = some s') :
    ∃ place, ApprovalLaw requestKey request files place s' := by
  have effect := plan_step_cases h
  have hstate : ∀ {i}, s.work i ≠ .start → (s.mutations.phase i).state ≠ none :=
    fun hstart hnone => hstart (law.untouched _ hnone)
  cases effect with
  | call hstep => exact ⟨place, law.call hcareful hstep⟩
  | runtime he hwork hstep => exact ⟨place, law.runtime hcareful he hwork hstep⟩
  | missing hphase hwork hpending =>
      refine ⟨place, law.advance (by simp [hphase, Phase.state]) (.inl hwork) ?_ ?_
        (by simp [noPendingProposal]) ?_⟩
      · intro _ hq
        cases hq
      · intro hq
        cases hq
      · intro _ hq
        cases hq
  | @read i state proposal hphase hwork hpending happrove =>
      refine ⟨place, law.advance (by simp [hphase, Phase.state]) (.inl hwork) (fun q hq => ?_)
        (fun hq => ?_) (fun hq => ?_) (fun _ hq => ?_)⟩
      · cases hq
        have hway : s.UnderWay i := ⟨by rw [hphase]; rfl, by simp [hwork]⟩
        rcases law.since i hway with hnone | hsome
        · rw [hpending] at hnone
          cases hnone
        · exact ⟨happrove, hsome.symm.trans hpending⟩
      · cases hq
      · cases hq
      · cases hq
  | find hphase hwork hpending hreject =>
      refine ⟨place, law.advance (by simp [hphase, Phase.state]) (.inl hwork) (fun _ hq => ?_)
        (fun _ => by simp [hreject]) (fun hq => ?_) (fun _ hq => ?_)⟩
      · cases hq
      · cases hq
      · cases hq
  | cyclic hwork =>
      refine ⟨place, law.advance (hstate (by simp [hwork])) (.inr ⟨_, hwork⟩) (fun _ hq => ?_)
        (fun hq => ?_) (fun hq => ?_) (fun _ hq => ?_)⟩
      · cases hq
      · cases hq
      · cases hq
      · cases hq
  | @validate i proposal hwork hcheck =>
      refine ⟨place, law.advance (hstate (by simp [hwork])) (.inr ⟨_, hwork⟩) (fun q hq => ?_)
        (fun hq => ?_) (fun hq => ?_) (fun _ hq => ?_)⟩
      · cases hq
        exact law.holds i proposal (by rw [hwork]; rfl)
      · cases hq
      · cases hq
      · cases hq
  | merge hwork => exact ⟨place, law.merge hwork⟩
  | remove hwork => exact ⟨place, law.remove hwork⟩
  | refuse | refuseUpdate _ => exact ⟨place, law⟩
  | propose hcheck => exact ⟨_, law.propose (hcareful hcheck).2⟩
  | update _ | graph => exact ⟨place, law.plans _⟩

/-- The initial state. -/
theorem ApprovalLaw.init (files : Mutation.Files) (plans : Plans) :
    ApprovalLaw requestKey request files place (PlanState.init files plans) where
  mutations := .init
  untouched _ _ := rfl
  answered _ _ h := by cases h
  pending _ _ _ h := by cases h
  arrived _ _ h := by cases h
  since _ h := by cases h.1
  holds _ _ h := by cases h
  finds _ h := by cases h
  ended _ h := by cases h
  merged _ _ h := by cases h
  writer _ _ h := by cases h
  once := List.nodup_nil
  alone _ _ _ _ _ h := by cases h.1
  fresh _ _ _ _ h := by cases h.1
  kept _ _ h := by cases h
  own _ _ _ h := by cases h
  direct _ _ h := by cases h

/-! ### What the invariant gives -/

/-- An approval that was answered `Done` has appended what it was asked about. -/
theorem ApprovalLaw.applied (law : ApprovalLaw requestKey request files place s) {i id : ℕ}
    (happrove : (request i).decision = .approve)
    (hdone : .done id ∈ s.mutations.responses i) :
    ∃ proposal, s.arrived i = some proposal ∧
      s.appended.filter (·.2 = proposal) = [(i, proposal)] := by
  have hresponse : ∀ {response : PersistedSwarmMutationResponse} {requestId sessionId},
      .done id = response.intoServerEvent requestId sessionId → response = .done := by
    intro response requestId sessionId heq
    cases response with
    | done => rfl
    | _ => cases heq
  rcases law.mutations.sent i _ (Mutation.mem_responses.mp hdone) with
    ⟨hreplayed, -⟩ | ⟨executor, hi | hjoined, state, response, hfinished, hevent⟩
  · obtain ⟨response, hne, hchecked | ⟨-, hresponses⟩⟩ := law.direct i happrove hreplayed
    · rw [hreplayed] at hchecked
      cases hchecked
    · rw [hresponses, List.mem_singleton] at hdone
      exact absurd (hresponse hdone) hne
  · subst hi
    obtain rfl := hresponse hevent
    have hended := law.answered i .done (by rw [hfinished]; rfl)
    obtain ⟨proposal, hmem⟩ := law.ended i hended happrove
    exact ⟨proposal, (law.writer i proposal hmem).2.1,
      Keyed.filter_key_eq_singleton law.once hmem⟩
  · exact absurd hjoined (law.own i happrove executor)

/-- What a step appends. -/
theorem written_of_step (h : planStep order requestKey request s e = some s') :
    s'.appended = s.appended ∨ ∃ i proposal, s'.appended = s.appended ++ [(i, proposal)] ∧
      itemsOf s'.plans (request i).swarmId =
        itemsOf s.plans (request i).swarmId ++ proposal.items := by
  have effect := plan_step_cases h
  cases effect with
  | @merge i proposal seen hwork =>
      refine .inr ⟨i, proposal, rfl, ?_⟩
      show itemsOf (s.plans.insert _ _) _ = _
      rw [itemsOf_insert, if_pos rfl, itemsOf_eq]
      rfl
  | _ => exact .inl rfl

/-- Which step removes a pending proposal. -/
theorem ApprovalLaw.removed (law : ApprovalLaw requestKey request files place s)
    (hcareful : Careful order requestKey request s e)
    (h : planStep order requestKey request s e = some s') {swarmId session : String}
    {proposal : Proposal} (hpending : s.pending swarmId session = some proposal)
    (hgone : s'.pending swarmId session ≠ some proposal) :
    ∃ i, e = .removeProposal i ∧ (request i).about = (swarmId, session) ∧
      s.arrived i = some proposal ∧
      ((request i).decision = .approve → (i, proposal) ∈ s.appended) := by
  have effect := plan_step_cases h
  cases effect with
  | @propose session' swarmId' items hcheck =>
      rw [pending_propose swarmId' session' swarmId session _ rfl] at hgone
      split at hgone
      · rename_i hslot
        cases hslot
        rw [(hcareful hcheck).1] at hpending
        cases hpending
      · exact absurd hpending hgone
  | @remove i hwork =>
      rw [pending_remove (request i).swarmId (request i).proposerSession swarmId session rfl] at hgone
      split at hgone
      · rename_i hslot
        cases hslot
        have hway : s.UnderWay i := law.underWay_of_work
          (by rcases hwork with heq | ⟨_, heq⟩ <;> simp [heq])
          (by rcases hwork with heq | ⟨_, heq⟩ <;> simp [heq])
        have harrived : s.arrived i = some proposal := by
          rcases law.since i hway with hnone | hsome
          · rw [PlanState.pendingFor, hpending] at hnone
            cases hnone
          · exact hsome.symm.trans hpending
        refine ⟨i, rfl, rfl, harrived, fun happrove => ?_⟩
        rcases hwork with hfound | ⟨q, hmerged⟩
        · exact absurd happrove (law.finds i hfound)
        · obtain ⟨-, hq⟩ := law.holds i q (by rw [hmerged]; rfl)
          cases harrived.symm.trans hq
          exact law.merged i _ hmerged
      · exact absurd hpending hgone
  | _ => exact absurd hpending hgone

/-- **Approvals apply what they were asked about**, in a run of careful steps. -/
theorem approval_honoured {plans : Plans} {ts : List (Transition PlanState PlanEvent)}
    (run : Run (planStep order requestKey request) (PlanState.init files plans) ts s)
    (hcareful : ∀ t ∈ ts, Careful order requestKey request t.before t.event) :
    Honoured request ts s := by
  have hstep : ∀ t ∈ ts, planStep order requestKey request t.before t.event = some t.after →
      (∃ place, ApprovalLaw requestKey request files place t.before) →
        ∃ place, ApprovalLaw requestKey request files place t.after := by
    intro t ht h hlaw
    obtain ⟨place, law⟩ := hlaw
    exact law.step (hcareful t ht) h
  have hinit : ∃ place, ApprovalLaw requestKey request files place (PlanState.init files plans) :=
    ⟨fun _ => ("", ""), .init files plans⟩
  obtain ⟨place, law⟩ := run.preserves
    (P := fun s => ∃ place, ApprovalLaw requestKey request files place s) hstep hinit
  refine ⟨fun i id happrove hdone => law.applied happrove hdone,
    fun t ht => written_of_step (run.step_of_mem ht), ?_⟩
  intro t ht swarmId session proposal hpending hgone
  obtain ⟨place, law⟩ := run.before_of
    (P := fun s => ∃ place, ApprovalLaw requestKey request files place s) hstep hinit ht
  exact law.removed (hcareful t ht) (run.step_of_mem ht) hpending hgone

end Requests

/-! ### A second proposal -/

/-- An approval goes on from its first own step to its answer. -/
def approves (i : ℕ) : List PlanEvent :=
  begins i ++ [.readProposal i, .validate i, .writePlan i, .removeProposal i,
    .runtime (.persistFinal i .done), .runtime (.drain i), .runtime (.send i)]

/-- The first decision is about the worker `a`, the others are about `b`. -/
def firstOfA (i : ℕ) : PlanRequest := approvalOf (if i = 0 then "a" else "b") i

/-- One proposal and its approval. -/
def approveFirst : List PlanEvent := [.propose "a" "w" [queuedItem "A" []]] ++ approves 0

/-- What makes a step of `approveFirst` careful. -/
def carefulOfA (s : PlanState) : PlanEvent → Bool
  | .propose session swarmId _ =>
      (swarmId, session) = ("w", "a") && (s.pending swarmId session).isNone &&
        !active (s.mutations.phase 0)
  | .runtime (.call i) => i = 0 && !active (s.mutations.phase 0)
  | .runtime (.register i) =>
      s.mutations.phase i ≠ .checked (some .done) &&
        (s.mutations.activeKeys.get (mutationOf joinedKey firstOfA i).key).isNone
  | _ => true

theorem firstOfA_about {j : ℕ} (h : (firstOfA j).about = ("w", "a")) : j = 0 := by
  by_contra hne
  simp [firstOfA, approvalOf, PlanRequest.about, hne] at h

theorem careful_of_carefulOfA {s : PlanState} {e : PlanEvent} (h : carefulOfA s e = true) :
    Careful IterOrder.insertion joinedKey firstOfA s e := by
  have hidle : active (s.mutations.phase 0) = false → ¬ s.UnderWay 0 := fun hidle hway => by
    rw [hway.1] at hidle
    cases hidle
  unfold carefulOfA at h
  split at h
  · simp only [Bool.and_eq_true, decide_eq_true_eq, Bool.not_eq_true'] at h
    obtain ⟨⟨hslot, hpending⟩, hactive⟩ := h
    refine fun _ => ⟨Option.isNone_iff_eq_none.mp hpending, fun i hi => ?_⟩
    rw [firstOfA_about (hi.trans hslot)]
    exact hidle hactive
  · simp only [Bool.and_eq_true, decide_eq_true_eq, Bool.not_eq_true'] at h
    obtain ⟨rfl, hactive⟩ := h
    intro _ j _ hj
    rw [firstOfA_about hj]
    exact hidle hactive
  · simp only [Bool.and_eq_true, decide_eq_true_eq] at h
    exact fun _ => ⟨h.1, fun _ => Option.isNone_iff_eq_none.mp h.2⟩
  · rename_i hpropose hcall hregister
    unfold Careful
    split
    · exact absurd rfl (hpropose _ _ _)
    · exact absurd rfl (hcall _)
    · exact absurd rfl (hregister _)
    · trivial

theorem approval_honoured_first :
    ∃ ts s, Run (planStep IterOrder.insertion joinedKey firstOfA)
        (PlanState.init Mutation.Files.empty StrMap.empty) ts s ∧
      ts.map Transition.event = approveFirst ∧ s.mutations.responses 0 = [.done 0] ∧
      Honoured firstOfA ts s := by
  obtain ⟨ts, s, run, hevents, hobs⟩ := Run.of_observed
    (f := fun r : List (Transition PlanState PlanEvent) × PlanState =>
      (r.2.mutations.responses 0, r.1.all fun t => carefulOfA t.before t.event))
    (show (exec (planStep IterOrder.insertion joinedKey firstOfA)
        (PlanState.init Mutation.Files.empty StrMap.empty) approveFirst).map _ =
      some ([.done 0], true) by decide +kernel)
  obtain ⟨hresponses, hcareful⟩ := Prod.mk.inj hobs
  exact ⟨ts, s, run, hevents, hresponses, approval_honoured run fun t ht =>
    careful_of_carefulOfA (List.all_eq_true.mp hcareful t ht)⟩

/-- The coordinator `c` approves the proposals of the worker `a`. -/
def oneProposer (i : ℕ) : PlanRequest := approvalOf "a" i

/-- The worker proposes again, and the coordinator approves again at once. -/
def approveSecond : List PlanEvent :=
  approveFirst ++ [.propose "a" "w" [queuedItem "B" []], .runtime (.call 1), .runtime (.check 1 0),
    .runtime (.register 1)]

/-- The second approval is answered from the record of the first: the second proposal is neither
appended nor removed. -/
theorem approval_failing :
    ∃ ts s, Run (planStep IterOrder.insertion joinedKey oneProposer)
        (PlanState.init Mutation.Files.empty StrMap.empty) ts s ∧
      ts.map Transition.event = approveSecond ∧ ¬ Honoured oneProposer ts s := by
  obtain ⟨ts, s, run, hevents, hobs⟩ := Run.of_observed
    (f := fun r : List (Transition PlanState PlanEvent) × PlanState =>
      (r.2.mutations.responses 1, r.2.appended))
    (show (exec (planStep IterOrder.insertion joinedKey oneProposer)
        (PlanState.init Mutation.Files.empty StrMap.empty) approveSecond).map _ =
      some ([.done 1], [(0, ⟨0, [queuedItem "A" []]⟩)]) by decide +kernel)
  obtain ⟨hresponses, happended⟩ := Prod.mk.inj hobs
  refine ⟨ts, s, run, hevents, fun honoured => ?_⟩
  obtain ⟨proposal, -, honce⟩ := honoured.applied 1 1 rfl (hresponses ▸ List.mem_cons_self)
  have hmem : (1, proposal) ∈ s.appended :=
    (List.mem_filter.mp (honce ▸ List.mem_cons_self)).1
  rw [happended, List.mem_singleton] at hmem
  cases (Prod.mk.inj hmem).1

end Jcode.Server
