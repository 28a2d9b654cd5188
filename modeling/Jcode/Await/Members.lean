import Jcode.Support.Std

/-!
# Await — waiting for the members of a swarm

`jcode-app-core/src/server/comm_await.rs` and `await_members_state.rs`, for the requests of one
session about the same members, statuses and mode, which share one key: one state file, one flag in
`active_keys` and one list in `waiters`, each behind a lock of its own.  A request joins the pending
state or creates one, registers itself as a waiter, and spawns a watcher unless the key is active; a
watcher looks at the members until they satisfy the mode, no client waits any more, or its deadline
passes.

A step is one access to a lock or to the file, with what follows it up to the next.  The file is
kept as its state, without the fields that the requests of a key have in common; the notifications of
a background wait are left out.  The broadcast channel that wakes a watcher is never closed, since
the watcher holds a sender of it.
-/

namespace Jcode.Await
open Rust

def FINAL_STATE_TTL : ℕ := 6 * 60 * 60 * 1000

def PENDING_STATE_TTL : ℕ := 24 * 60 * 60 * 1000

/-! ### Members -/

structure SwarmMember where
  friendlyName : Option String := none
  status : String
  latestCompletionReport : Option String := none
  deriving DecidableEq, Repr

structure AwaitedMemberStatus where
  sessionId : String
  friendlyName : Option String
  status : String
  done : Bool
  completionReport : Option String
  deriving DecidableEq, Repr

/-- What the requests of a key have in common. -/
structure Awaited where
  reqSession : String
  swarmId : String
  requestedIds : List String
  targetStatus : List String
  mode : Option String
  deriving DecidableEq, Repr

section Awaited
variable (awaited : Awaited)

/-- The status of one member; a member that is gone has stopped or completed. -/
def awaitedMemberStatus (members : StrMap SwarmMember) (sessionId : String) :
    AwaitedMemberStatus :=
  let member := members.get sessionId
  let status := (member.map SwarmMember.status).getD "unknown"
  let target := awaited.targetStatus
  { sessionId := sessionId
    friendlyName := member.bind SwarmMember.friendlyName
    status := status
    done := target.contains status ||
      (status == "unknown" && (target.contains "stopped" || target.contains "completed"))
    completionReport := member.bind SwarmMember.latestCompletionReport }

def awaitedMemberStatuses (members : StrMap SwarmMember) (swarms : StrMap (List String)) :
    List AwaitedMemberStatus :=
  let watchIds :=
    if awaited.requestedIds.isEmpty then
      let sessions := (swarms.get awaited.swarmId).getD []
      (sessions.filter (· ≠ awaited.reqSession)).insertionSort (· ≤ ·)
    else awaited.requestedIds
  watchIds.map (awaitedMemberStatus awaited members)

def modeSatisfied (statuses : List AwaitedMemberStatus) (mode : Option String) : Bool :=
  if mode = some "any" then statuses.any (·.done) else statuses.all (·.done)

/-- `current_still_satisfies`: there is nobody to wait for, or the mode is satisfied. -/
def satisfies (statuses : List AwaitedMemberStatus) : Bool :=
  statuses.isEmpty || modeSatisfied statuses awaited.mode

end Awaited

/-! ### Summaries -/

/-- Session ids are ASCII: the first eight bytes are eight characters. -/
def shortMemberName (member : AwaitedMemberStatus) : String :=
  member.friendlyName.getD (String.ofList (member.sessionId.toList.take 8))

def timeoutSummary (statuses : List AwaitedMemberStatus) : String :=
  "Timed out. Still waiting on: " ++ join ", " ((statuses.filter fun member => !member.done).map
    fun member => shortMemberName member ++ " (" ++ member.status ++ ")")

def completionSummary (statuses : List AwaitedMemberStatus) : String :=
  s!"All {statuses.length} members are done: " ++ join ", " (statuses.map shortMemberName)

def modeSummary (statuses : List AwaitedMemberStatus) (mode : Option String) : String :=
  if mode = some "any" then
    let matching := (statuses.filter (·.done)).map shortMemberName
    s!"Matched {matching.length} member" ++ (if matching.length = 1 then "" else "s") ++ ": " ++
      join ", " matching
  else completionSummary statuses

def backgroundStartedSummary (statuses : List AwaitedMemberStatus) (mode : Option String)
    (wake : Bool) : String :=
  let pending := (statuses.filter fun member => !member.done).map shortMemberName
  let scope := if mode = some "any" then "any of" else "all of"
  let delivery :=
    if wake then "You'll be woken with the result when it resolves."
    else "A notification will appear when it resolves."
  if pending.isEmpty then "Watching swarm members in the background. " ++ delivery
  else "Watching " ++ scope ++ " " ++ join ", " pending ++ " in the background. " ++ delivery

/-! ### The state file -/

/-- How a wait ends. -/
structure Outcome where
  completed : Bool
  members : List AwaitedMemberStatus
  summary : String
  deriving DecidableEq, Repr

structure AwaitMembersResult where
  outcome : Outcome
  resolvedAtUnixMs : ℕ
  deriving DecidableEq, Repr

structure AwaitMembersState where
  createdAtUnixMs : ℕ
  deadlineUnixMs : ℕ
  background : Bool
  notify : Bool
  wake : Bool
  finalResponse : Option AwaitMembersResult := none
  deriving DecidableEq, Repr

def AwaitMembersState.isPending (state : AwaitMembersState) : Bool := state.finalResponse.isNone

def isStale (now : ℕ) (state : AwaitMembersState) : Bool :=
  match state.finalResponse with
  | some final => now - final.resolvedAtUnixMs > FINAL_STATE_TTL
  | none => now - state.deadlineUnixMs > PENDING_STATE_TTL

/-- What is read from the file, and left in it: a stale state is removed. -/
def loadState (now : ℕ) (file : Option AwaitMembersState) : Option AwaitMembersState :=
  file.filter fun state => !isStale now state

/-- The pending state in the file, if there is one. -/
def loadPending (now : ℕ) (file : Option AwaitMembersState) : Option AwaitMembersState :=
  (loadState now file).filter AwaitMembersState.isPending

structure AwaitRequest where
  id : ℕ
  timeoutSecs : Option ℕ
  background : Bool
  notify : Bool
  wake : Bool
  deriving DecidableEq, Repr

/-- The fresh pending state of a request. -/
def AwaitRequest.pendingState (r : AwaitRequest) (now : ℕ) : AwaitMembersState where
  createdAtUnixMs := now
  deadlineUnixMs := now + r.timeoutSecs.getD 3600 * 1000
  background := r.background
  notify := r.notify
  wake := r.wake

/-- The delivery preferences of the latest request win. -/
def AwaitMembersState.withPrefs (state : AwaitMembersState) (r : AwaitRequest) :
    AwaitMembersState :=
  { state with background := r.background, notify := r.notify, wake := r.wake }

/-! ### Actors -/

/-- What is left of the end of a wait.  With `refresh`, the state that is written is the one in the
file, if it is pending; with `own`, a background request answers itself at the end. -/
inductive Finish where
  | persist (state : AwaitMembersState) (refresh own : Bool) (outcome : Outcome)
  | take (own : Bool) (outcome : Outcome)
  | clear (answer : Option Outcome)
  deriving DecidableEq, Repr

inductive Handler where
  | idle
  | loaded (persisted : Option AwaitMembersState)
  | prepared (persisted : Option AwaitMembersState) (statuses : List AwaitedMemberStatus)
  /-- It has joined a pending state, or created one. -/
  | joined (state : AwaitMembersState) (statuses : List AwaitedMemberStatus) (expired : Bool)
  /-- Its waiter is registered. -/
  | registered (state : AwaitMembersState)
  | finishing (finish : Finish)
  | done
  deriving DecidableEq, Repr

inductive Watcher where
  | absent
  | looping (state : AwaitMembersState)
  | unsatisfied (state : AwaitMembersState) (statuses : List AwaitedMemberStatus)
  | retaining (state : AwaitMembersState) (statuses : List AwaitedMemberStatus)
  | waiting (state : AwaitMembersState) (statuses : List AwaitedMemberStatus)
  | finishing (finish : Finish)
  | exited
  deriving DecidableEq, Repr

/-- The handler of a request, or the watcher that it has spawned. -/
inductive Actor where
  | handler (i : ℕ)
  | watcher (i : ℕ)
  deriving DecidableEq, Repr

/-- `CommAwaitMembersResponse`. -/
structure Response where
  outcome : Outcome
  backgroundStarted : Bool := false
  deriving DecidableEq, Repr

structure World where
  now : ℕ
  members : StrMap SwarmMember
  swarms : StrMap (List String)
  file : Option AwaitMembersState
  active : Bool
  waiters : List ℕ
  /-- The requests whose clients have disconnected. -/
  closed : ℕ → Bool
  handler : ℕ → Handler
  watcher : ℕ → Watcher
  responses : List (ℕ × Response)
  /-- The deadline of the state that a request has read a response from, joined or created; no step
  reads it. -/
  deadline : ℕ → Option ℕ

namespace World

/-- No request was made; the file of an earlier process may be there. -/
def init (now : ℕ) (members : StrMap SwarmMember) (swarms : StrMap (List String))
    (file : Option AwaitMembersState) : World where
  now := now
  members := members
  swarms := swarms
  file := file
  active := false
  waiters := []
  closed _ := false
  handler _ := .idle
  watcher _ := .absent
  responses := []
  deadline _ := none

def setHandler (s : World) (i : ℕ) (handler : Handler) : World :=
  { s with handler := Function.update s.handler i handler }

def setWatcher (s : World) (i : ℕ) (watcher : Watcher) : World :=
  { s with watcher := Function.update s.watcher i watcher }

/-- The end of a wait that an actor has come to. -/
def finish (s : World) : Actor → Option Finish
  | .handler i => match s.handler i with
      | .finishing finish => some finish
      | _ => none
  | .watcher i => match s.watcher i with
      | .finishing finish => some finish
      | _ => none

def setFinish (s : World) (finish : Finish) : Actor → World
  | .handler i => s.setHandler i (.finishing finish)
  | .watcher i => s.setWatcher i (.finishing finish)

/-- An actor is through. -/
def exit (s : World) : Actor → World
  | .handler i => s.setHandler i .done
  | .watcher i => s.setWatcher i .exited

def respond (s : World) (i : ℕ) (response : Response) : World :=
  { s with responses := s.responses ++ [(i, response)] }

end World

/-! ### Steps -/

inductive Event where
  | tick (ms : ℕ)
  | change (members : StrMap SwarmMember) (swarms : StrMap (List String))
  | disconnect (i : ℕ)
  | load (i : ℕ)
  /-- A request looks at the members, and answers inline when it can. -/
  | read (i : ℕ)
  /-- It joins the pending state or creates one. -/
  | ensure (i : ℕ)
  | addWaiter (i : ℕ)
  /-- `mark_active_if_new`, and the spawn of a watcher. -/
  | markActive (i : ℕ)
  /-- A watcher looks at the members. -/
  | watch (i : ℕ)
  /-- It looks whether the wait is in the background. -/
  | prefs (i : ℕ)
  | retain (i : ℕ)
  | timeout (i : ℕ)
  /-- A swarm event wakes it. -/
  | wake (i : ℕ)
  /-- An actor ends a wait: it persists the result, takes the waiters, clears the flag. -/
  | finish (actor : Actor)

section Steps
variable (awaited : Awaited) (request : ℕ → AwaitRequest)

/-- The statuses of the members, now. -/
def World.statuses (s : World) : List AwaitedMemberStatus :=
  awaitedMemberStatuses awaited s.members s.swarms

def nobodyOutcome : Outcome where
  completed := true
  members := []
  summary := "No other members in swarm to wait for."

/-- The outcome of a satisfied wait. -/
def satisfiedOutcome (statuses : List AwaitedMemberStatus) : Outcome :=
  if statuses.isEmpty then nobodyOutcome
  else { completed := true, members := statuses, summary := modeSummary statuses awaited.mode }

def timeoutOutcome (statuses : List AwaitedMemberStatus) : Outcome where
  completed := false
  members := statuses
  summary := timeoutSummary statuses

/-- A request has looked at the members. -/
def readStep (s : World) (i : ℕ) (persisted : Option AwaitMembersState) : World :=
  let statuses := s.statuses awaited
  let final := persisted.bind AwaitMembersState.finalResponse
  if satisfies awaited statuses then
    -- a stored result is replayed while the members still satisfy the mode
    let outcome := (final.map AwaitMembersResult.outcome).getD (satisfiedOutcome awaited statuses)
    { (s.setHandler i .done).respond i { outcome := outcome } with
      deadline := Function.update s.deadline i (persisted.map AwaitMembersState.deadlineUnixMs) }
  else
    let persisted := if final.isSome then none else persisted
    s.setHandler i (.prepared persisted statuses)

/-- The pending state that a request has loaded, or that is in the file now, or a fresh one; and the
file. -/
def joinPending (r : AwaitRequest) (s : World) :
    Option AwaitMembersState → AwaitMembersState × Option AwaitMembersState
  | some state => (state, s.file)
  | none =>
      match loadPending s.now s.file with
      | some state => (state, loadState s.now s.file)
      | none => (r.pendingState s.now, some (r.pendingState s.now))

/-- Where a request goes on from the pending state, with its own preferences. -/
def afterJoin (r : AwaitRequest) (statuses : List AwaitedMemberStatus) (prefs : AwaitMembersState)
    (expired : Bool) : Handler :=
  if r.background && expired then
    .finishing (.persist prefs true true (timeoutOutcome statuses))
  else .joined prefs statuses expired

/-- A request joins a pending state. -/
def ensureStep (s : World) (i : ℕ) (persisted : Option AwaitMembersState)
    (statuses : List AwaitedMemberStatus) : World :=
  let r := request i
  let state := (joinPending r s persisted).1
  let file := (joinPending r s persisted).2
  let prefs := state.withPrefs r
  let expired := decide (state.deadlineUnixMs ≤ s.now)
  { s.setHandler i (afterJoin r statuses prefs expired) with
    file := if prefs = state then file else some prefs
    deadline := Function.update s.deadline i (some state.deadlineUnixMs) }

def markStep (s : World) (i : ℕ) (state : AwaitMembersState) : World :=
  if s.active then s.setHandler i .done
  else { (s.setHandler i .done).setWatcher i (.looping state) with active := true }

/-- The next step of the end of a wait. -/
def finishStep (s : World) (actor : Actor) : Finish → World
  | .persist state refresh own outcome =>
      let state := if refresh then (loadPending s.now s.file).getD state else state
      { s.setFinish (.take own outcome) actor with
        file := some { state with finalResponse := some ⟨outcome, s.now⟩ } }
  | .take own outcome =>
      { s.setFinish (.clear (if own then some outcome else none)) actor with
        waiters := []
        responses := s.responses ++ s.waiters.map fun j => (j, { outcome := outcome }) }
  | .clear answer =>
      let s := { s.exit actor with active := false }
      match actor, answer with
      | .handler i, some outcome => s.respond i { outcome := outcome }
      | _, _ => s

def step (s : World) : Event → Option World
  | .tick ms => some { s with now := s.now + ms }
  | .change members swarms => some { s with members := members, swarms := swarms }
  | .disconnect i => some { s with closed := Function.update s.closed i true }
  | .load i =>
      match s.handler i with
      | .idle =>
          let persisted := loadState s.now s.file
          some { s.setHandler i (.loaded persisted) with file := persisted }
      | _ => none
  | .read i =>
      match s.handler i with
      | .loaded persisted => some (readStep awaited s i persisted)
      | _ => none
  | .ensure i =>
      match s.handler i with
      | .prepared persisted statuses => some (ensureStep request s i persisted statuses)
      | _ => none
  | .addWaiter i =>
      match s.handler i, (request i).background with
      | .joined state statuses expired, false =>
          let handler :=
            if expired then .finishing (.persist state false false (timeoutOutcome statuses))
            else .registered state
          some { s.setHandler i handler with waiters := s.waiters ++ [i] }
      | _, _ => none
  | .markActive i =>
      match s.handler i, (request i).background with
      | .joined state statuses false, true =>
          let summary := backgroundStartedSummary statuses awaited.mode (request i).wake
          some ((markStep s i state).respond i
            { outcome := { completed := false, members := statuses, summary := summary }
              backgroundStarted := true })
      | .registered state, false => some (markStep s i state)
      | _, _ => none
  | .watch i =>
      match s.watcher i with
      | .looping state =>
          let statuses := s.statuses awaited
          if satisfies awaited statuses then
            some (s.setWatcher i
              (.finishing (.persist state true false (satisfiedOutcome awaited statuses))))
          else some (s.setWatcher i (.unsatisfied state statuses))
      | _ => none
  | .prefs i =>
      match s.watcher i with
      | .unsatisfied state statuses =>
          let background := ((loadPending s.now s.file).getD state).background
          let watcher := if background then .waiting state statuses else .retaining state statuses
          some { s.setWatcher i watcher with file := loadState s.now s.file }
      | _ => none
  | .retain i =>
      match s.watcher i with
      | .retaining state statuses =>
          let remaining := s.waiters.filter fun j => !s.closed j
          let watcher :=
            if remaining.isEmpty then .finishing (.clear none) else .waiting state statuses
          some { s.setWatcher i watcher with waiters := remaining }
      | _ => none
  | .timeout i =>
      match s.watcher i with
      | .waiting state statuses =>
          if state.deadlineUnixMs ≤ s.now then
            some (s.setWatcher i (.finishing (.persist state true false (timeoutOutcome statuses))))
          else none
      | _ => none
  | .wake i =>
      match s.watcher i with
      | .waiting state _ => some (s.setWatcher i (.looping state))
      | _ => none
  | .finish actor => (s.finish actor).map (finishStep s actor)

end Steps

end Jcode.Await
