import Jcode.Mutation.Answers
import Jcode.Server.CommPlan

/-!
# Server — what a step of the plan handlers does

* `plan_step_cases`: the effect of each event, with what it checked.
-/

namespace Jcode.Server
open Rust Jcode.Dag Jcode.Bridge Jcode.Live
open Jcode.Mutation (PersistedSwarmMutationResponse PersistedSwarmMutationState)

section Requests
variable (order : IterOrder) (requestKey : String → String → List String → String)
variable (request : ℕ → PlanRequest)

/-- The decisions, as mutations. -/
def mutationOf (i : ℕ) : Mutation.Request := (request i).mutation requestKey

/-- What a step does. -/
inductive PlanEffect (s : PlanState) : PlanEvent → PlanState → Prop where
  | call {i : ℕ} {mutations : Mutation.State}
      (h : Mutation.step (mutationOf requestKey request) s.mutations (.call i) = some mutations) :
      PlanEffect s (.runtime (.call i))
        { s with
          mutations := mutations
          arrived := Function.update s.arrived i (s.pendingFor (request i)) }
  | runtime {e : Mutation.Event} {mutations : Mutation.State} (he : e.isCall = false)
      (hwork : ∀ i response, e = .persistFinal i response → s.work i = .ended response)
      (h : Mutation.step (mutationOf requestKey request) s.mutations e = some mutations) :
      PlanEffect s (.runtime e) { s with mutations := mutations }
  | missing {i : ℕ} {state : PersistedSwarmMutationState}
      (hphase : s.mutations.phase i = .executing state) (hwork : s.work i = .start)
      (hpending : s.pendingFor (request i) = none) :
      PlanEffect s (.readProposal i) (s.setWork i (.ended (noPendingProposal (request i))))
  | read {i : ℕ} {state : PersistedSwarmMutationState} {proposal : Proposal}
      (hphase : s.mutations.phase i = .executing state) (hwork : s.work i = .start)
      (hpending : s.pendingFor (request i) = some proposal)
      (happrove : (request i).decision = .approve) :
      PlanEffect s (.readProposal i) (s.setWork i (.read proposal))
  | find {i : ℕ} {state : PersistedSwarmMutationState} {proposal : Proposal}
      {reason : Option String}
      (hphase : s.mutations.phase i = .executing state) (hwork : s.work i = .start)
      (hpending : s.pendingFor (request i) = some proposal)
      (hreject : (request i).decision = .reject reason) :
      PlanEffect s (.readProposal i) (s.setWork i .found)
  | cyclic {i : ℕ} {proposal : Proposal} {message : String} (hwork : s.work i = .read proposal) :
      PlanEffect s (.validate i) (s.setWork i (.ended (.error message none)))
  | validate {i : ℕ} {proposal : Proposal} (hwork : s.work i = .read proposal)
      (hcheck : planCycleError order
        (itemsOf s.plans (request i).swarmId ++ proposal.items) = none) :
      PlanEffect s (.validate i)
        (s.setWork i (.validated proposal (itemsOf s.plans (request i).swarmId)))
  | merge {i : ℕ} {proposal : Proposal} {seen : List PlanItem}
      (hwork : s.work i = .validated proposal seen) :
      PlanEffect s (.writePlan i)
        { s.setWork i (.merged proposal) with
          plans := s.plans.insert (request i).swarmId (mergeProposal
            ((s.plans.get (request i).swarmId).getD VersionedPlan.new) (request i) proposal.items)
          appended := s.appended ++ [(i, proposal)] }
  | remove {i : ℕ} (hwork : s.work i = .found ∨ ∃ proposal, s.work i = .merged proposal) :
      PlanEffect s (.removeProposal i)
        { s.setWork i (.ended .done) with
          sharedContext := s.sharedContext.modify (request i).swarmId
            (·.remove (proposalKey (request i).proposerSession)) }
  | refuse {session swarmId : String} {items : List PlanItem} :
      PlanEffect s (.propose session swarmId items) s
  | propose {session swarmId : String} {items : List PlanItem}
      (hcheck : planCycleError order items = none) :
      PlanEffect s (.propose session swarmId items)
        { s with
          sharedContext := s.sharedContext.insert swarmId
            (((s.sharedContext.get swarmId).getD StrMap.empty).insert (proposalKey session)
              { createdAt := s.proposals, items := items })
          proposals := s.proposals + 1 }
  | refuseUpdate {session swarmId : String} {items : List PlanItem}
      (hcheck : planCycleError order items ≠ none) :
      PlanEffect s (.directUpdate session swarmId items) s
  | update {session swarmId : String} {items : List PlanItem}
      (hcheck : planCycleError order items = none) :
      PlanEffect s (.directUpdate session swarmId items)
        { s with
          plans := s.plans.insert swarmId
            (updatePlan ((s.plans.get swarmId).getD VersionedPlan.new) session items) }
  | graph {env : Env} {session : String} {r : Request} :
      PlanEffect s (.graph env session r) { s with plans := (handle env s.plans session r).2 }

variable {order requestKey request} {s s' : PlanState} {e : PlanEvent}

theorem runtime_step_cases {e : Mutation.Event}
    (hwork : ∀ i response, e = .persistFinal i response → s.work i = .ended response)
    (h : runtimeStep requestKey request s e = some s') :
    PlanEffect order requestKey request s (.runtime e) s' := by
  obtain ⟨mutations, hstep, rfl⟩ := Option.map_eq_some_iff.mp h
  cases e with
  | call i => exact .call hstep
  | _ => exact .runtime rfl hwork hstep

theorem plan_step_cases (h : planStep order requestKey request s e = some s') :
    PlanEffect order requestKey request s e s' := by
  cases e with
  | runtime e =>
      cases e with
      | persistFinal i response =>
          simp only [planStep] at h
          split at h
          · rename_i hwork
            exact runtime_step_cases (fun _ _ heq => by cases heq; exact hwork) h
          · cases h
      | _ => exact runtime_step_cases (fun _ _ heq => by cases heq) h
  | readProposal i =>
      simp only [planStep] at h
      split at h
      · rename_i hphase hwork
        split at h
        · rename_i hpending
          cases h
          exact .missing hphase hwork hpending
        · rename_i hpending hdecision
          cases h
          exact .read hphase hwork hpending hdecision
        · rename_i hpending hdecision
          cases h
          exact .find hphase hwork hpending hdecision
      · cases h
  | validate i =>
      simp only [planStep] at h
      split at h
      · rename_i hwork
        split at h
        · cases h
          exact .cyclic hwork
        · rename_i hcheck
          cases h
          exact .validate hwork hcheck
      · cases h
  | writePlan i =>
      simp only [planStep] at h
      split at h
      · rename_i hwork
        cases h
        exact .merge hwork
      · cases h
  | removeProposal i =>
      simp only [planStep] at h
      split at h
      · rename_i proposal hwork
        cases h
        exact .remove (.inr ⟨proposal, hwork⟩)
      · rename_i hwork
        cases h
        exact .remove (.inl hwork)
      · cases h
  | propose session swarmId items =>
      simp only [planStep] at h
      split at h
      · cases h
        exact .refuse
      · rename_i hcheck
        cases h
        exact .propose hcheck
  | directUpdate session swarmId items =>
      simp only [planStep] at h
      split at h
      · rename_i hcheck
        cases h
        exact .refuseUpdate fun heq => by rw [heq] at hcheck; cases hcheck
      · rename_i hcheck
        cases h
        exact .update hcheck
  | graph env session r =>
      cases h
      exact .graph

end Requests

end Jcode.Server
