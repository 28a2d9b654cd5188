import Jcode.Compaction.Manager
import Jcode.Support.Runs

/-!
# Compaction — Session

A session: the transcript and its compaction manager.  A live session only appends to the
transcript, and announces each message (`LiveEvent`); a session may also be restored from a history
(`Event`).  Operations meet in any order, and the background task ends between any two of them.
-/

namespace Jcode.Compaction

open Runs

structure Session where
  messages : List Message
  manager : CompactionManager

namespace Session

def new (config : CompactionConfig) (mode : CompactionMode) : Session :=
  { messages := [], manager := .new config mode }

/-- Change the manager. -/
def withManager (s : Session) (m : CompactionManager) : Session := { s with manager := m }

end Session

/-- How the manager learns of a new message. -/
inductive Announcement where
  | unsized
  | withMessage
  | blocks

def Announcement.apply (m : CompactionManager) (message : Message) :
    Announcement → CompactionManager
  | .unsized => m.notifyMessageAdded
  | .withMessage => m.notifyMessageAddedWith message
  | .blocks => m.notifyMessageAddedBlocks message.content

/-- What happens in a live session. -/
inductive LiveEvent where
  | append (role : Role) (content : List ContentBlock) (announcement : Announcement)
  | maybeStart (env : Env)
  | force (env : Env)
  | finish (completion : Completion)
  | check
  | checkUnknown
  | poll
  | hard (env : Env)
  | ensure (env : Env) (during : Option Completion)
  | truncate
  | api
  | setBudget (budget : ℕ)
  | setMode (mode : CompactionMode)
  | observe (tokens : ℕ)
  | snapshot (tokens : ℕ)

namespace Session

def append (s : Session) (role : Role) (content : List ContentBlock)
    (announcement : Announcement) : Session :=
  let message : Message := { role := role, content := content, position := s.messages.length }
  { messages := s.messages ++ [message], manager := announcement.apply s.manager message }

def truncate (s : Session) : Session :=
  let (m, messages, _) := s.manager.emergencyTruncateWith s.messages
  { messages := messages, manager := m }

/-- One event of a live session. -/
def live (s : Session) : LiveEvent → Session
  | .append role content announcement => s.append role content announcement
  | .maybeStart env => s.withManager (s.manager.maybeStartCompactionWith env s.messages)
  | .force env => s.withManager (s.manager.forceCompactWith env s.messages).1
  | .finish completion => s.withManager (s.manager.finishTask completion)
  | .check => s.withManager (s.manager.checkAndApplyCompactionWith s.messages)
  | .checkUnknown => s.withManager s.manager.checkAndApplyCompaction
  | .poll => s.withManager (s.manager.pollCompactionEventWith s.messages).1
  | .hard env => s.withManager (s.manager.hardCompactWith env s.messages).1
  | .ensure env during => s.withManager (s.manager.ensureContextFits env during s.messages).1
  | .truncate => s.truncate
  | .api => s.withManager (s.manager.messagesForApiWith s.messages).1
  | .setBudget budget => s.withManager { s.manager with tokenBudget := budget }
  | .setMode mode => s.withManager { s.manager with mode := mode }
  | .observe tokens => s.withManager { s.manager with observedInputTokens := some tokens }
  | .snapshot tokens => s.withManager (s.manager.pushTokenSnapshot tokens)

/-- The size of the active messages, measured. -/
def activeChars (s : Session) : ℕ := totalChars (s.manager.activeMessages s.messages)

end Session

/-- No event of a live session fails. -/
def liveStep (s : Session) (e : LiveEvent) : Option Session := some (s.live e)

/-- What happens in a session that may be restored. -/
inductive Event where
  | live (e : LiveEvent)
  | seed (history : List Message)
  | seedWith (history : List Message)
  | restore (state : CompactionManager.StoredCompactionState) (history : List Message)
  | restoreWith (state : CompactionManager.StoredCompactionState) (history : List Message)

def Session.apply (s : Session) : Event → Session
  | .live e => s.live e
  | .seed history => ⟨history, s.manager.seedRestoredMessages history.length⟩
  | .seedWith history => ⟨history, s.manager.seedRestoredMessagesWith history⟩
  | .restore state history => ⟨history, s.manager.restorePersistedState state history.length⟩
  | .restoreWith state history => ⟨history, s.manager.restorePersistedStateWith state history⟩

/-- No event fails. -/
def step (s : Session) (e : Event) : Option Session := some (s.apply e)

end Jcode.Compaction
