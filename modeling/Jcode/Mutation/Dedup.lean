import Jcode.Support.Runs
import Jcode.Support.Std

/-!
# Mutation — the de-duplication of swarm mutations

`jcode-app-core/src/server/swarm_mutation_state.rs`, and the loading of `durable_state.rs`.  A
request first takes the lock of the runtime: it is answered from the file of its key, or joins the
execution of its key, or claims the key and executes.  An execution writes its file without the
lock, and takes the lock to collect its waiters; the answers are sent after that.

A step is one access to the files, to the runtime under its lock, or to a client, so requests and
executions interleave wherever the code lets them: a stale file is removed one step after it is
read.  Requests are numbered, and a step reads the clock in its event.
-/

namespace Jcode.Mutation
open Rust

/-! ### Files -/

def FINAL_STATE_TTL : ℕ := 30 * 1000

def PENDING_STATE_TTL : ℕ := 30 * 60 * 1000

inductive PersistedSwarmMutationResponse where
  | done
  | assignTask (taskId targetSession : String)
  | error (message : String) (retryAfterSecs : Option ℕ)
  | spawn (newSessionId : String)
  deriving DecidableEq, Repr

/-- The events that answer a mutation. -/
inductive ServerEvent where
  | done (id : ℕ)
  | commAssignTaskResponse (id : ℕ) (taskId targetSession : String)
  | error (id : ℕ) (message : String) (retryAfterSecs : Option ℕ)
  | commSpawnResponse (id : ℕ) (sessionId newSessionId : String)
  deriving DecidableEq, Repr

def PersistedSwarmMutationResponse.intoServerEvent (id : ℕ) (sessionId : String) :
    PersistedSwarmMutationResponse → ServerEvent
  | .done => .done id
  | .assignTask taskId targetSession => .commAssignTaskResponse id taskId targetSession
  | .error message retryAfterSecs => .error id message retryAfterSecs
  | .spawn newSessionId => .commSpawnResponse id sessionId newSessionId

structure PersistedSwarmMutationState where
  key : String
  action : String
  sessionId : String
  createdAtUnixMs : ℕ
  finalResponse : Option PersistedSwarmMutationResponse := none
  deriving DecidableEq, Repr

/-- The state files.  A file is named by the key of the state in it, as `save_state` names it. -/
structure Files where
  states : StrMap PersistedSwarmMutationState
  keyed : ∀ key state, states.get key = some state → state.key = key

namespace Files

def empty : Files where
  states := StrMap.empty
  keyed _ _ h := by cases h

def remove (files : Files) (key : String) : Files where
  states := files.states.remove key
  keyed key' state h := by
    rw [StrMap.get_remove] at h
    split at h
    · cases h
    · exact files.keyed key' state h

end Files

def saveState (state : PersistedSwarmMutationState) (files : Files) : Files where
  states := files.states.insert state.key state
  keyed key' state' h := by
    rw [StrMap.get_insert] at h
    split at h
    · rename_i hkey
      cases h
      exact hkey.symm
    · exact files.keyed key' state' h

def elapsedExceeds (nowMs createdAtUnixMs ttl : ℕ) : Bool := nowMs - createdAtUnixMs > ttl

def isStale (nowMs : ℕ) (state : PersistedSwarmMutationState) : Bool :=
  if state.finalResponse.isSome then elapsedExceeds nowMs state.createdAtUnixMs FINAL_STATE_TTL
  else elapsedExceeds nowMs state.createdAtUnixMs PENDING_STATE_TTL

inductive Loaded where
  | absent
  | stale
  | state (state : PersistedSwarmMutationState)
  deriving DecidableEq, Repr

/-- `load_state`, up to the removal of a stale file. -/
def loadState (nowMs : ℕ) (key : String) (files : Files) : Loaded :=
  match files.states.get key with
  | none => .absent
  | some state => if isStale nowMs state then .stale else .state state

/-! ### The runtime -/

/-- The arguments of `begin_or_replay`, or of `begin_or_join_in_flight`, which does not replay. -/
structure Request where
  key : String
  action : String
  sessionId : String
  requestId : ℕ
  replayFinal : Bool
  deriving DecidableEq, Repr

/-- The fresh state of an execution. -/
def Request.pendingState (r : Request) (nowMs : ℕ) : PersistedSwarmMutationState where
  key := r.key
  action := r.action
  sessionId := r.sessionId
  createdAtUnixMs := nowMs

/-- Where a request is. -/
inductive Phase where
  | idle
  | waiting
  /-- It holds the lock, and found a stale file. -/
  | dropping
  /-- It holds the lock, and has looked for a final response. -/
  | checked (found : Option PersistedSwarmMutationResponse)
  | replayed
  /-- It waits for an execution: that of the request `executor`. -/
  | joined (executor : ℕ)
  /-- It claimed its key: `ensure_pending_state` looks for a state, drops a stale one, and writes a
  fresh one. -/
  | claimed
  | droppingPending
  | creating
  | executing (state : PersistedSwarmMutationState)
  /-- Its final response is in its file, and its claim stands. -/
  | persisted (state : PersistedSwarmMutationState) (response : PersistedSwarmMutationResponse)
  | finished (state : PersistedSwarmMutationState) (response : PersistedSwarmMutationResponse)
  deriving DecidableEq, Repr

/-- An answer of `finish_request` that is still to be sent. -/
structure Unsent where
  executor : ℕ
  request : ℕ
  event : ServerEvent
  deriving DecidableEq, Repr

structure State where
  files : Files
  phase : ℕ → Phase
  /-- The request that holds the lock between its check and its registration. -/
  lock : Option ℕ
  /-- `active_keys`, each with the request that claimed it. -/
  activeKeys : StrMap ℕ
  waiters : StrMap (List ℕ)
  unsent : List Unsent
  sent : List (ℕ × ServerEvent)

/-- No request was made; files of earlier processes may be there. -/
def State.init (files : Files) : State where
  files := files
  phase _ := .idle
  lock := none
  activeKeys := StrMap.empty
  waiters := StrMap.empty
  unsent := []
  sent := []

namespace State

def setPhase (s : State) (i : ℕ) (phase : Phase) : State :=
  { s with phase := Function.update s.phase i phase }

/-- `waiters.get(key)`, empty without an entry. -/
def waitersOf (s : State) (key : String) : List ℕ := (s.waiters.get key).getD []

end State

/-! ### Steps -/

inductive Event where
  | call (i : ℕ)
  /-- Take the lock, and look for a final response. -/
  | check (i nowMs : ℕ)
  | dropStale (i : ℕ)
  /-- Answer, join or claim, and release the lock. -/
  | register (i : ℕ)
  | readPending (i nowMs : ℕ)
  | createPending (i nowMs : ℕ)
  /-- The execution calls `finish_request`, which writes the file. -/
  | persistFinal (i : ℕ) (response : PersistedSwarmMutationResponse)
  /-- Take the waiters and release the claim, under the lock. -/
  | drain (i : ℕ)
  /-- Send the next answer of an execution. -/
  | send (executor : ℕ)
  deriving DecidableEq, Repr

section Requests
variable (request : ℕ → Request)

/-- The answers to the waiters of an execution. -/
def answers (executor : ℕ) (state : PersistedSwarmMutationState)
    (response : PersistedSwarmMutationResponse) (waiters : List ℕ) : List Unsent :=
  waiters.map fun j =>
    { executor := executor, request := j
      event := response.intoServerEvent (request j).requestId state.sessionId }

/-- The registration of a request that found no final response. -/
def joinOrClaim (s : State) (i : ℕ) : State :=
  let r := request i
  let s := { s with lock := none, waiters := s.waiters.insert r.key (s.waitersOf r.key ++ [i]) }
  match s.activeKeys.get r.key with
  | some executor => s.setPhase i (.joined executor)
  | none =>
      { s.setPhase i (if r.replayFinal then .claimed else .creating) with
        activeKeys := s.activeKeys.insert r.key i }

def step (s : State) : Event → Option State
  | .call i =>
      match s.phase i with
      | .idle => some (s.setPhase i .waiting)
      | _ => none
  | .check i nowMs =>
      match s.phase i, s.lock with
      | .waiting, none =>
          let r := request i
          let phase :=
            if r.replayFinal then
              match loadState nowMs r.key s.files with
              | .absent => .checked none
              | .stale => .dropping
              | .state state => .checked state.finalResponse
            else .checked none
          some { s.setPhase i phase with lock := some i }
      | _, _ => none
  | .dropStale i =>
      let files := s.files.remove (request i).key
      match s.phase i with
      | .dropping => some { s.setPhase i (.checked none) with files := files }
      | .droppingPending => some { s.setPhase i .creating with files := files }
      | _ => none
  | .register i =>
      match s.phase i with
      | .checked (some response) =>
          let r := request i
          some { s.setPhase i .replayed with
            lock := none
            sent := s.sent ++ [(i, response.intoServerEvent r.requestId r.sessionId)] }
      | .checked none => some (joinOrClaim request s i)
      | _ => none
  | .readPending i nowMs =>
      match s.phase i with
      | .claimed =>
          match loadState nowMs (request i).key s.files with
          | .absent => some (s.setPhase i .creating)
          | .stale => some (s.setPhase i .droppingPending)
          | .state existing => some (s.setPhase i (.executing existing))
      | _ => none
  | .createPending i nowMs =>
      match s.phase i with
      | .creating =>
          let state := (request i).pendingState nowMs
          some { s.setPhase i (.executing state) with files := saveState state s.files }
      | _ => none
  | .persistFinal i response =>
      match s.phase i with
      | .executing state =>
          let next := { state with finalResponse := some response }
          some { s.setPhase i (.persisted next response) with files := saveState next s.files }
      | _ => none
  | .drain i =>
      match s.phase i, s.lock with
      | .persisted state response, none =>
          some { s.setPhase i (.finished state response) with
            waiters := s.waiters.remove state.key
            activeKeys := s.activeKeys.remove state.key
            unsent := s.unsent ++ answers request i state response (s.waitersOf state.key) }
      | _, _ => none
  | .send executor =>
      match s.unsent.find? fun answer => answer.executor == executor with
      | none => none
      | some answer =>
          some { s with
            unsent := s.unsent.erase answer
            sent := s.sent ++ [(answer.request, answer.event)] }

end Requests

end Jcode.Mutation
