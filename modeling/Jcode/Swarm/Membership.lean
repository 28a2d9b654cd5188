import Jcode.Support.Runs
import Jcode.Support.Std

/-!
# Swarm — members, owners and coordinators

`jcode-app-core/src/server`: how a session joins a swarm (`client_session.rs`, `comm_session.rs`,
`headless.rs`), leaves it (`swarm.rs`: `remove_session_from_swarm`, and its callers), and how roles
are given (`comm_control.rs`: `handle_comm_assign_role`; `comm_graph.rs`:
`ensure_seeder_can_coordinate`).

The spawn tree is in the members: each reports back to its owner.  The coordinator of a swarm is
written twice, in `swarm_coordinators` and in the role of the member.
-/

namespace Jcode.Swarm.Membership
open Rust

structure SwarmMember where
  sessionId : String
  swarmId : Option String
  role : String
  isHeadless : Bool
  /-- The owner. -/
  reportBackToSessionId : Option String
  deriving DecidableEq, Repr

structure SwarmState where
  members : StrMap SwarmMember
  swarmsById : StrMap (List String)
  coordinators : StrMap String

/-- Nobody has joined. -/
def SwarmState.empty : SwarmState := ⟨.empty, .empty, .empty⟩

/-- What the handlers read of the connections: whether the channel of a session is closed, and
whether the session is among the live ones. -/
structure Connections where
  eventTxClosed : String → Bool
  inSessions : String → Bool

namespace SwarmState

def owner (s : SwarmState) (sessionId : String) : Option String :=
  (s.members.get sessionId).bind SwarmMember.reportBackToSessionId

def swarmId (s : SwarmState) (sessionId : String) : Option String :=
  (s.members.get sessionId).bind SwarmMember.swarmId

/-- `swarms.entry(swarm_id).or_insert_with(HashSet::new).insert(session_id)`. -/
def enter (s : SwarmState) (sessionId swarmId : String) : SwarmState :=
  { s with swarmsById :=
      s.swarmsById.insert swarmId (((s.swarmsById.get swarmId).getD []).insert sessionId) }

/-- Take a session out of the set of its swarm, which goes when it is empty. -/
def quit (s : SwarmState) (sessionId swarmId : String) : SwarmState :=
  match s.swarmsById.get swarmId with
  | none => s
  | some swarm =>
      let swarm := swarm.filter (· ≠ sessionId)
      { s with swarmsById :=
          if swarm.isEmpty then s.swarmsById.remove swarmId
          else s.swarmsById.insert swarmId swarm }

def setRole (s : SwarmState) (sessionId role : String) : SwarmState :=
  { s with members := s.members.modify sessionId fun member => { member with role := role } }

def setCoordinator (s : SwarmState) (swarmId sessionId : String) : SwarmState :=
  { s with coordinators := s.coordinators.insert swarmId sessionId }

/-- The least session of the swarm that is not headless. -/
def electable (s : SwarmState) (swarmId : String) : Option String :=
  (s.swarmsById.get swarmId).bind fun swarm =>
    (swarm.filter fun id =>
      ((s.members.get id).filter fun member => !member.isHeadless).isSome).min?

/-- When the coordinator leaves, another is elected. -/
def reelect (s : SwarmState) (sessionId swarmId : String) : SwarmState :=
  if s.coordinators.get swarmId = some sessionId then
    let removed := { s with coordinators := s.coordinators.remove swarmId }
    match s.electable swarmId with
    | none => removed
    | some newId => (removed.setCoordinator swarmId newId).setRole newId "coordinator"
  else s

/-- Who gets the children: the owner of the departing member when it is in the swarm, else the
coordinator. -/
def fallbackParent (s : SwarmState) (departingParent : Option String)
    (sessionId swarmId : String) : Option String :=
  match departingParent with
  | some parent =>
      if parent ≠ sessionId ∧ s.swarmId parent = some swarmId then some parent
      else (s.coordinators.get swarmId).filter (· ≠ sessionId)
  | none => (s.coordinators.get swarmId).filter (· ≠ sessionId)

/-- Whether a member is a child, in the swarm, of the departing one. -/
def isChild (sessionId swarmId : String) (member : SwarmMember) : Bool :=
  member.swarmId = some swarmId && member.reportBackToSessionId = some sessionId

def reparent (s : SwarmState) (fallback : Option String) (sessionId swarmId : String) :
    SwarmState :=
  { s with members := s.members.mapValues fun member =>
      if isChild sessionId swarmId member then
        { member with reportBackToSessionId := fallback.filter (· ≠ member.sessionId) }
      else member }

/-- `remove_session_from_swarm`, up to the orphans. -/
def vacate (s : SwarmState) (sessionId swarmId : String) : SwarmState :=
  ((s.quit sessionId swarmId).reelect sessionId swarmId).setRole sessionId "agent"

/-- The new parent of the children that `remove_session_from_swarm` leaves behind. -/
def heir (s : SwarmState) (sessionId swarmId : String) : Option String :=
  (s.vacate sessionId swarmId).fallbackParent (s.owner sessionId) sessionId swarmId

def removeSessionFromSwarm (s : SwarmState) (sessionId swarmId : String) : SwarmState :=
  (s.vacate sessionId swarmId).reparent (s.heir sessionId swarmId) sessionId swarmId

/-! ### Joining and leaving -/

def insertMember (s : SwarmState) (member : SwarmMember) : SwarmState :=
  let s := { s with members := s.members.insert member.sessionId member }
  match member.swarmId with
  | some swarmId => s.enter member.sessionId swarmId
  | none => s

/-- A client attaches to its session: the member is there, or joins as a root. -/
def ensureClientSwarmMember (s : SwarmState) (sessionId : String)
    (derivedSwarmId : Option String) : SwarmState :=
  if (s.members.get sessionId).isSome then
    { s with members := s.members.modify sessionId fun member =>
        { member with isHeadless := false } }
  else s.insertMember ⟨sessionId, derivedSwarmId, "agent", false, none⟩

/-- The entry of a member is taken out, as the callers of `remove_session_from_swarm` do. -/
def drop (s : SwarmState) (sessionId : String) : SwarmState :=
  { s with members := s.members.remove sessionId }

/-- A session is stopped, replaced, or disconnects. -/
def leave (s : SwarmState) (sessionId : String) : SwarmState :=
  match s.swarmId sessionId with
  | none => s.drop sessionId
  | some swarmId => (s.drop sessionId).removeSessionFromSwarm sessionId swarmId

/-- The member that turns the swarm feature off is an agent of no swarm. -/
def detach (s : SwarmState) (sessionId : String) : SwarmState :=
  { s with members := s.members.modify sessionId fun member =>
      { member with swarmId := none, role := "agent" } }

/-- Turn the swarm feature off. -/
def disable (s : SwarmState) (sessionId : String) : SwarmState :=
  match s.swarmId sessionId with
  | none => s.detach sessionId
  | some swarmId => (s.detach sessionId).removeSessionFromSwarm sessionId swarmId

/-- Leave the old swarm, if there is one. -/
def leaveOld (s : SwarmState) (sessionId : String) : SwarmState :=
  match s.swarmId sessionId with
  | none => s
  | some swarmId => s.removeSessionFromSwarm sessionId swarmId

/-- Turn the swarm feature on again, in the swarm of the working directory. -/
def enable (s : SwarmState) (sessionId : String) (newSwarmId : Option String) : SwarmState :=
  let s := s.leaveOld sessionId
  match newSwarmId with
  | none => s
  | some newId =>
      let s := s.enter sessionId newId
      { s with members := s.members.modify sessionId fun member =>
          { member with swarmId := some newId, role := "agent" } }

/-! ### Roles -/

/-- Whether a coordinator can be taken over by a session that promotes itself. -/
def staleForPromotion (s : SwarmState) (connections : Connections) (coordinator : String) : Bool :=
  match s.members.get coordinator with
  | some member =>
      connections.eventTxClosed coordinator || !connections.inSessions coordinator ||
        member.isHeadless
  | none => true

/-- Who may assign a role. -/
def canAssignRole (s : SwarmState) (connections : Connections)
    (reqSessionId targetSession role swarmId : String) : Bool :=
  if s.coordinators.get swarmId = some reqSessionId then true
  else if role = "coordinator" ∧ targetSession = reqSessionId then
    match s.coordinators.get swarmId with
    | some coordinator => s.staleForPromotion connections coordinator
    | none => true
  else false

/-- `none` when the request is refused. -/
def handleCommAssignRole (s : SwarmState) (connections : Connections)
    (reqSessionId targetSession role : String) : Option SwarmState :=
  match s.swarmId reqSessionId with
  | none => none
  | some swarmId =>
      if !s.canAssignRole connections reqSessionId targetSession role swarmId then none
      else if (s.members.get targetSession).isNone then none
      else
        let s := s.setRole targetSession role
        if role = "coordinator" then
          let s := s.setCoordinator swarmId targetSession
          if reqSessionId ≠ targetSession then some (s.setRole reqSessionId "agent") else some s
        else some s

def coordinatorIsLive (s : SwarmState) (connections : Connections) (coordinator : String) : Bool :=
  match s.members.get coordinator with
  | some member => !connections.eventTxClosed coordinator && !member.isHeadless
  | none => false

def ensureSeederCanCoordinate (s : SwarmState) (connections : Connections)
    (swarmId seederSessionId : String) : SwarmState :=
  match s.coordinators.get swarmId with
  | some prior =>
      if prior = seederSessionId ∨ s.coordinatorIsLive connections prior then s
      else
        ((s.setCoordinator swarmId seederSessionId).setRole seederSessionId "coordinator").setRole
          prior "agent"
  | none => (s.setCoordinator swarmId seederSessionId).setRole seederSessionId "coordinator"

end SwarmState

inductive Event where
  | attach (sessionId : String) (derivedSwarmId : Option String)
  /-- A session is spawned, with a new id, by its owner. -/
  | spawn (sessionId : String) (swarmId : Option String) (isHeadless : Bool)
      (reportBackToSessionId : Option String)
  | remove (sessionId swarmId : String)
  | leave (sessionId : String)
  | disable (sessionId : String)
  | enable (sessionId : String) (newSwarmId : Option String)
  | assignRole (connections : Connections) (reqSessionId targetSession role : String)
  | seed (connections : Connections) (sessionId : String)

def step (s : SwarmState) : Event → Option SwarmState
  | .attach sessionId derivedSwarmId => some (s.ensureClientSwarmMember sessionId derivedSwarmId)
  | .spawn sessionId swarmId isHeadless reportBackToSessionId =>
      if (s.members.get sessionId).isNone ∧
          (reportBackToSessionId.all fun owner => (s.members.get owner).isSome) then
        some (s.insertMember ⟨sessionId, swarmId, "agent", isHeadless, reportBackToSessionId⟩)
      else none
  | .remove sessionId swarmId => some (s.removeSessionFromSwarm sessionId swarmId)
  | .leave sessionId => some (s.leave sessionId)
  | .disable sessionId => some (s.disable sessionId)
  | .enable sessionId newSwarmId => some (s.enable sessionId newSwarmId)
  | .assignRole connections req target role => s.handleCommAssignRole connections req target role
  | .seed connections sessionId =>
      (s.swarmId sessionId).map fun swarmId =>
        s.ensureSeederCanCoordinate connections swarmId sessionId

end Jcode.Swarm.Membership
