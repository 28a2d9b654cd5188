import Jcode.History.Types
import Jcode.Support.Std

/-!
# Interrupts — the soft interrupts of a session

`jcode-base/src/soft_interrupt_store.rs`, `jcode-app-core/src/agent/interrupts.rs` and
`queue_soft_interrupt_for_session` of `server/state.rs`, for one session.  An interrupt goes to the
queue of the session's agent, if the agent can be found, and else to the session's store file; an
agent moves the file into its queue when it is restored, and its queue into the file when it shuts
down; it injects its queue into the transcript.

A step is one access to the file, to a queue or to one of the server's two maps, with what follows it
up to the next; every access succeeds.  An interrupt carries the number of the call that queued it,
which no step reads.
-/

namespace Jcode.Interrupts
open Rust Chat History

inductive SoftInterruptSource where
  | user
  | system
  | backgroundTask
  deriving DecidableEq, Repr

structure SoftInterruptMessage where
  content : String
  urgent : Bool
  source : SoftInterruptSource
  deriving DecidableEq, Repr

/-- The interrupt of a call. -/
structure Queued where
  call : ℕ
  message : SoftInterruptMessage
  deriving DecidableEq, Repr

/-! ### Injection -/

structure InjectedSoftInterrupt where
  content : String
  source : SoftInterruptSource
  deriving DecidableEq, Repr

def softInterruptSessionDisplayRole : SoftInterruptSource → Option StoredDisplayRole
  | .user => none
  | .system => some .system
  | .backgroundTask => some .backgroundTask

/-- A message that is added to the transcript, without its id and its time. -/
structure TranscriptMessage where
  role : Role
  content : List ContentBlock
  displayRole : Option StoredDisplayRole
  deriving DecidableEq, Repr

def InjectedSoftInterrupt.added (i : InjectedSoftInterrupt) : TranscriptMessage where
  role := .user
  content := [.text i.content none]
  displayRole := softInterruptSessionDisplayRole i.source

def flushGroup (source : SoftInterruptSource) (parts : List String) : List InjectedSoftInterrupt :=
  if parts.isEmpty then [] else [⟨join "\n\n" parts, source⟩]

/-- The loop of `inject_soft_interrupts`, from the messages to come, the source of the group and its
parts. -/
def injectLoop : List SoftInterruptMessage → Option SoftInterruptSource → List String →
    List InjectedSoftInterrupt
  | [], none, _ => []
  | [], some source, parts => flushGroup source parts
  | message :: messages, none, parts =>
      injectLoop messages (some message.source) (parts ++ [message.content])
  | message :: messages, some source, parts =>
      if source ≠ message.source then
        flushGroup source parts ++ injectLoop messages (some message.source) [message.content]
      else injectLoop messages (some source) (parts ++ [message.content])

/-- What a drained queue becomes. -/
def injectMessages (messages : List SoftInterruptMessage) : List InjectedSoftInterrupt :=
  injectLoop messages none []

/-! ### The session -/

/-- Where a call of `queue_soft_interrupt_for_session` is. -/
inductive Call where
  | idle
  /-- No queue is registered for the session. -/
  | finding
  /-- It has the queue of an agent that it has found. -/
  | registering (agent : ℕ)
  | enqueueing (agent : ℕ)
  /-- No agent was found. -/
  | checking
  | loading
  | writing (loaded : List Queued)
  | returned (ok : Bool)
  deriving DecidableEq, Repr

/-- Where the session's agent is, between two of its accesses. -/
inductive Activity where
  | idle
  /-- `take` has read the file. -/
  | taken (items : List Queued)
  /-- And removed it. -/
  | restoring (items : List Queued)
  /-- Shutdown has a copy of the queue. -/
  | snapshot (pending : List Queued)
  deriving DecidableEq, Repr

structure World where
  /-- The session is known on disk. -/
  stored : Bool
  file : Option (List Queued)
  /-- The session's agent, by its number. -/
  agent : Option ℕ
  started : ℕ
  activity : Activity
  queue : ℕ → List Queued
  /-- The entry of the session in `sessions`. -/
  session : Option ℕ
  /-- The entry of the session in `queues`. -/
  registered : Option ℕ
  transcript : List TranscriptMessage
  /-- The interrupts that were injected; no step reads them. -/
  injected : List Queued
  call : ℕ → Call

namespace World

def init (stored : Bool) : World where
  stored := stored
  file := none
  agent := none
  started := 0
  activity := .idle
  queue _ := []
  session := none
  registered := none
  transcript := []
  injected := []
  call _ := .idle

/-- The interrupts in the file. -/
def load (s : World) : List Queued := s.file.getD []

/-- The queue of the session's agent. -/
def live (s : World) : List Queued := (s.agent.map s.queue).getD []

def setCall (s : World) (i : ℕ) (call : Call) : World :=
  { s with call := Function.update s.call i call }

def setQueue (s : World) (agent : ℕ) (queue : List Queued) : World :=
  { s with queue := Function.update s.queue agent queue }

end World

/-- `overwrite`: nothing is kept as no file. -/
def overwrite (interrupts : List Queued) : Option (List Queued) :=
  if interrupts.isEmpty then none else some interrupts

/-! ### Steps -/

inductive Event where
  /-- A call looks for the registered queue. -/
  | lookUp (i : ℕ)
  /-- It looks for the agent, which may be busy. -/
  | find (i : ℕ) (busy : Bool)
  | register (i : ℕ)
  | enqueue (i : ℕ)
  /-- It looks whether the session exists. -/
  | check (i : ℕ)
  | read (i : ℕ)
  | write (i : ℕ)
  /-- An agent starts for the session. -/
  | start
  | enter
  | leave
  | publish
  | withdraw
  | take
  | remove
  | extend
  | inject
  | snapshot
  /-- The snapshot is written; that is the end of the agent. -/
  | persist
  deriving DecidableEq, Repr

section Steps
variable (message : ℕ → SoftInterruptMessage)

def step (s : World) : Event → Option World
  | .lookUp i =>
      match s.call i with
      | .idle =>
          some (s.setCall i (match s.registered with
            | some agent => .enqueueing agent
            | none => .finding))
      | _ => none
  | .find i busy =>
      match s.call i with
      | .finding =>
          -- the agent's lock is held during all that it does
          let free := !busy && s.activity == .idle
          some (s.setCall i (match s.session with
            | some agent => if free then .registering agent else .checking
            | none => .checking))
      | _ => none
  | .register i =>
      match s.call i with
      | .registering agent => some { s.setCall i (.enqueueing agent) with registered := some agent }
      | _ => none
  | .enqueue i =>
      match s.call i with
      | .enqueueing agent =>
          some ((s.setQueue agent (s.queue agent ++ [⟨i, message i⟩])).setCall i (.returned true))
      | _ => none
  | .check i =>
      match s.call i with
      | .checking =>
          let sessionExists := s.session.isSome || s.stored
          some (s.setCall i (if sessionExists then .loading else .returned false))
      | _ => none
  | .read i =>
      match s.call i with
      | .loading => some (s.setCall i (.writing s.load))
      | _ => none
  | .write i =>
      match s.call i with
      | .writing loaded =>
          some { s.setCall i (.returned true) with file := overwrite (loaded ++ [⟨i, message i⟩]) }
      | _ => none
  | .start =>
      match s.agent with
      | none =>
          some { s.setQueue s.started [] with agent := some s.started, started := s.started + 1 }
      | some _ => none
  | .enter => s.agent.map fun agent => { s with session := some agent }
  | .leave => some { s with session := none }
  | .publish => s.agent.map fun agent => { s with registered := some agent }
  | .withdraw => some { s with registered := none }
  | .take =>
      match s.agent, s.activity with
      | some _, .idle => some { s with activity := .taken s.load }
      | _, _ => none
  | .remove =>
      match s.activity with
      | .taken items => some { s with activity := .restoring items, file := none }
      | _ => none
  | .extend =>
      match s.agent, s.activity with
      | some agent, .restoring items =>
          some { s.setQueue agent (s.queue agent ++ items) with activity := .idle }
      | _, _ => none
  | .inject =>
      match s.agent, s.activity with
      | some agent, .idle =>
          let messages := s.queue agent
          some { s.setQueue agent [] with
            transcript := s.transcript ++
              (injectMessages (messages.map Queued.message)).map InjectedSoftInterrupt.added
            injected := s.injected ++ messages }
      | _, _ => none
  | .snapshot =>
      match s.agent, s.activity with
      | some agent, .idle => some { s with activity := .snapshot (s.queue agent) }
      | _, _ => none
  | .persist =>
      match s.activity with
      | .snapshot pending =>
          some { s with activity := .idle, agent := none, file := overwrite pending }
      | _ => none

end Steps

end Jcode.Interrupts
