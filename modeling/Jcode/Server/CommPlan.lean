import Jcode.Live.Scheduler
import Jcode.Mutation.Dedup
import Jcode.Server.CommGraph

/-!
# Server — plan proposals and their approval

`jcode-app-core/src/server/comm_plan.rs`, beside the graph mutations.  A worker stores a proposal in
the shared context, and the coordinator approves or rejects it, or writes a plan of its own.  A
decision is a swarm mutation, so it may be answered from the record of an earlier one; when it
executes, it takes the locks of the shared context and of the plans one after the other.

A step is one critical section.  Requests and proposals that fail the membership and role checks
touch nothing here and are left out; so are the notifications and the broadcasts.
-/

namespace Jcode.Server
open Rust Jcode.Dag Jcode.Bridge Jcode.Live
open Jcode.Mutation (PersistedSwarmMutationResponse)

/-- A proposal in the shared context, whose value is the text of the items.  Its time of creation is
the count of the proposals before it. -/
structure Proposal where
  createdAt : ℕ
  items : List PlanItem
  deriving DecidableEq, Repr

def proposalKey (proposerSession : String) : String := s!"plan_proposal:{proposerSession}"

inductive Decision where
  | approve
  | reject (reason : Option String)
  deriving DecidableEq, Repr

/-- A decision on the proposal of a worker, by the coordinator of its swarm. -/
structure PlanRequest where
  id : ℕ
  reqSession : String
  swarmId : String
  proposerSession : String
  decision : Decision
  deriving DecidableEq, Repr

/-- The owners that the items name. -/
def owners (items : List PlanItem) : Finset String := (items.filterMap PlanItem.assignedTo).toFinset

/-- The plan after a direct update of the coordinator. -/
def updatePlan (plan : VersionedPlan) (session : String) (items : List PlanItem) :
    VersionedPlan :=
  { plan with
    participants := owners items ∪ insert session plan.participants
    items := items
    version := plan.version + 1 }

/-- The plan after the approval of a proposal. -/
def mergeProposal (plan : VersionedPlan) (r : PlanRequest) (items : List PlanItem) :
    VersionedPlan :=
  { plan with
    items := plan.items ++ items
    version := plan.version + 1
    participants :=
      owners items ∪ insert r.proposerSession (insert r.reqSession plan.participants) }

/-- `plans.get(&swarm_id).map(|plan| plan.items.clone()).unwrap_or_default()`. -/
def itemsOf (plans : Plans) (swarmId : String) : List PlanItem :=
  ((plans.get swarmId).map VersionedPlan.items).getD []

/-- Where the execution of a decision is. -/
inductive Work where
  | start
  /-- An approval has read the proposal. -/
  | read (proposal : Proposal)
  /-- It has found no cycle in the items it saw in the plan and those of the proposal. -/
  | validated (proposal : Proposal) (seen : List PlanItem)
  | merged (proposal : Proposal)
  /-- A rejection has found a proposal. -/
  | found
  | ended (response : PersistedSwarmMutationResponse)
  deriving DecidableEq, Repr

/-- The state.  The last three are history, which no step reads. -/
structure PlanState where
  mutations : Mutation.State
  work : ℕ → Work
  sharedContext : StrMap (StrMap Proposal)
  plans : Plans
  /-- The proposals stored so far. -/
  proposals : ℕ
  /-- What was pending when a request arrived. -/
  arrived : ℕ → Option Proposal
  /-- The proposals that approvals have appended to plans. -/
  appended : List (ℕ × Proposal)

namespace PlanState

/-- The pending proposal of a worker. -/
def pending (s : PlanState) (swarmId proposerSession : String) : Option Proposal :=
  (s.sharedContext.get swarmId).bind fun context => context.get (proposalKey proposerSession)

def setWork (s : PlanState) (i : ℕ) (work : Work) : PlanState :=
  { s with work := Function.update s.work i work }

/-- Nothing is proposed and no request was made; plans and records may be there. -/
def init (files : Mutation.Files) (plans : Plans) : PlanState where
  mutations := Mutation.State.init files
  work _ := .start
  sharedContext := StrMap.empty
  plans := plans
  proposals := 0
  arrived _ := none
  appended := []

end PlanState

inductive PlanEvent where
  /-- A step of the mutation runtime.  The execution of a decision ends with its own response. -/
  | runtime (e : Mutation.Event)
  | readProposal (i : ℕ)
  | validate (i : ℕ)
  | writePlan (i : ℕ)
  | removeProposal (i : ℕ)
  /-- A worker proposes. -/
  | propose (session swarmId : String) (items : List PlanItem)
  /-- The coordinator writes the plan. -/
  | directUpdate (session swarmId : String) (items : List PlanItem)
  | graph (env : Env) (session : String) (request : Request)

section Order
variable (order : IterOrder)

/-- Reject plans whose dependency graph contains a cycle. -/
def planCycleError (items : List PlanItem) : Option String :=
  let cycleIds := cycleItemIds order items
  if cycleIds.isEmpty then none
  else some ("Plan rejected: dependency cycle among item(s): " ++ join ", " cycleIds ++
    ". Fix the blocked_by edges so the plan forms a DAG, then propose again.")

section Requests
variable (requestKey : String → String → List String → String) (request : ℕ → PlanRequest)

/-- `begin_or_replay` of a decision. -/
def PlanRequest.mutation (r : PlanRequest) : Mutation.Request :=
  let (action, components) := match r.decision with
    | .approve => ("approve_plan", [r.swarmId, r.proposerSession])
    | .reject reason => ("reject_plan", [r.swarmId, r.proposerSession, reason.getD ""])
  { key := requestKey r.reqSession action components
    action := action
    sessionId := r.reqSession
    requestId := r.id
    replayFinal := true }

def noPendingProposal (r : PlanRequest) : PersistedSwarmMutationResponse :=
  .error s!"No pending plan proposal from session '{r.proposerSession}'" none

/-- The proposal of the worker that the request names. -/
def PlanState.pendingFor (s : PlanState) (r : PlanRequest) : Option Proposal :=
  s.pending r.swarmId r.proposerSession

/-- A step of the runtime for decisions. -/
def runtimeStep (s : PlanState) (e : Mutation.Event) : Option PlanState :=
  (Mutation.step (fun i => (request i).mutation requestKey) s.mutations e).map fun mutations =>
    match e with
    | .call i =>
        { s with
          mutations := mutations
          arrived := Function.update s.arrived i (s.pendingFor (request i)) }
    | _ => { s with mutations := mutations }

def planStep (s : PlanState) : PlanEvent → Option PlanState
  | .runtime (.persistFinal i response) =>
      if s.work i = .ended response then runtimeStep requestKey request s (.persistFinal i response)
      else none
  | .runtime e => runtimeStep requestKey request s e
  | .readProposal i =>
      match s.mutations.phase i, s.work i with
      | .executing _, .start =>
          match s.pendingFor (request i), (request i).decision with
          | none, _ => some (s.setWork i (.ended (noPendingProposal (request i))))
          | some proposal, .approve => some (s.setWork i (.read proposal))
          | some _, .reject _ => some (s.setWork i .found)
      | _, _ => none
  | .validate i =>
      match s.work i with
      | .read proposal =>
          let seen := itemsOf s.plans (request i).swarmId
          match planCycleError order (seen ++ proposal.items) with
          | some message => some (s.setWork i (.ended (.error message none)))
          | none => some (s.setWork i (.validated proposal seen))
      | _ => none
  | .writePlan i =>
      match s.work i with
      | .validated proposal _ =>
          let r := request i
          let plan := (s.plans.get r.swarmId).getD VersionedPlan.new
          some { s.setWork i (.merged proposal) with
            plans := s.plans.insert r.swarmId (mergeProposal plan r proposal.items)
            appended := s.appended ++ [(i, proposal)] }
      | _ => none
  | .removeProposal i =>
      let r := request i
      match s.work i with
      | .merged _ | .found =>
          some { s.setWork i (.ended .done) with
            sharedContext :=
              s.sharedContext.modify r.swarmId (·.remove (proposalKey r.proposerSession)) }
      | _ => none
  | .propose session swarmId items =>
      match planCycleError order items with
      | some _ => some s
      | none =>
          let context := (s.sharedContext.get swarmId).getD StrMap.empty
          some { s with
            sharedContext := s.sharedContext.insert swarmId
              (context.insert (proposalKey session) { createdAt := s.proposals, items := items })
            proposals := s.proposals + 1 }
  | .directUpdate session swarmId items =>
      match planCycleError order items with
      | some _ => some s
      | none =>
          let plan := (s.plans.get swarmId).getD VersionedPlan.new
          some { s with plans := s.plans.insert swarmId (updatePlan plan session items) }
  | .graph env session request => some { s with plans := (handle env s.plans session request).2 }

end Requests

end Order

end Jcode.Server
