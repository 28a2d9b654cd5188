import Jcode.Chat.Message
import Jcode.Support.Mirror

/-!
# History — Types

A session: the fields that are written to its files (`Saved`), and beside them what the process
alone holds, the state of its persistence and the cache of messages as the provider receives them.

The profile of the memory a session uses is kept beside it, in `MemoryProfile`.
-/

namespace Jcode.History

open Chat

/-! ### Constants -/

/-- The journal's length, in bytes, above which a save writes a snapshot. -/
def MAX_SESSION_JOURNAL_BYTES : ℕ := 512 * 1024
def MAX_ENV_SNAPSHOTS : ℕ := 8
def SESSION_CONTEXT_PREFIX : String := "<system-reminder>\n# Session Context"

/-! ### What a session holds -/

inductive SessionStatus where
  | active
  | closed
  | crashed (message : Option String)
  | reloaded
  | compacted
  | rateLimited
  | error (message : String)
  deriving DecidableEq, Repr

inductive SessionImproveMode where
  | improveRun
  | improvePlan
  | refactorRun
  | refactorPlan
  deriving DecidableEq, Repr

structure StoredCompactionState where
  summaryText : String
  openaiEncryptedContent : Option String
  coversUpToTurn : ℕ
  originalTurnCount : ℕ
  compactedCount : ℕ
  deriving DecidableEq, Repr

inductive StoredDisplayRole where
  | system
  | backgroundTask
  deriving DecidableEq, Repr

structure StoredTokenUsage where
  inputTokens : ℕ
  outputTokens : ℕ
  cacheReadInputTokens : Option ℕ
  cacheCreationInputTokens : Option ℕ
  deriving DecidableEq, Repr

structure StoredMessage where
  id : String
  role : Role
  content : List ContentBlock
  displayRole : Option StoredDisplayRole
  timestamp : Option DateTime
  toolDurationMs : Option ℕ
  tokenUsage : Option StoredTokenUsage
  deriving DecidableEq, Repr

def StoredMessage.toMessage (m : StoredMessage) : Message where
  role := m.role
  content := m.content
  timestamp := m.timestamp
  toolDurationMs := m.toolDurationMs

structure GitState where
  root : String
  head : Option String
  branch : Option String
  dirty : Option Bool
  deriving DecidableEq, Repr

structure EnvSnapshot where
  capturedAt : DateTime
  reason : String
  sessionId : String
  workingDir : Option String
  provider : String
  model : String
  jcodeVersion : String
  jcodeGitHash : Option String
  jcodeGitDirty : Option Bool
  os : String
  arch : String
  pid : ℕ
  isSelfdev : Bool
  isDebug : Bool
  isCanary : Bool
  testingBuild : Option String
  workingGit : Option GitState
  deriving DecidableEq, Repr

structure StoredMemoryInjection where
  summary : String
  content : String
  count : ℕ
  memoryIds : List String
  ageMs : Option ℕ
  beforeMessage : Option ℕ
  timestamp : DateTime
  deriving DecidableEq, Repr

/-- The members of a swarm and the items of a plan are represented by their JSON. -/
inductive StoredReplayEventKind where
  | displayMessage (role : String) (title : Option String) (content : String)
  | swarmStatus (members : List Value)
  | swarmPlan (swarmId : String) (version : ℕ) (items : List Value) (participants : List String)
      (reason : Option String)
  deriving DecidableEq, Repr

structure StoredReplayEvent where
  timestamp : DateTime
  kind : StoredReplayEventKind
  deriving DecidableEq, Repr

/-- The fields of a session that are serialized. -/
structure Saved where
  id : String
  parentId : Option String
  title : Option String
  customTitle : Option String
  createdAt : DateTime
  updatedAt : DateTime
  messages : List StoredMessage
  compaction : Option StoredCompactionState
  providerSessionId : Option String
  providerKey : Option String
  model : Option String
  routeApiMethod : Option String
  reasoningEffort : Option String
  subagentModel : Option String
  improveMode : Option SessionImproveMode
  autoreviewEnabled : Option Bool
  autojudgeEnabled : Option Bool
  isCanary : Bool
  testingBuild : Option String
  workingDir : Option String
  shortName : Option String
  status : SessionStatus
  lastPid : Option ℕ
  lastActiveAt : Option DateTime
  isDebug : Bool
  saved : Bool
  saveLabel : Option String
  envSnapshots : List EnvSnapshot
  memoryInjections : List StoredMemoryInjection
  replayEvents : List StoredReplayEvent
  deriving DecidableEq, Repr

/-! ### The journal's records -/

/-- The metadata that every journal entry carries. -/
structure SessionJournalMeta where
  parentId : Option String
  title : Option String
  customTitle : Option String
  updatedAt : DateTime
  compaction : Option StoredCompactionState
  providerSessionId : Option String
  providerKey : Option String
  model : Option String
  reasoningEffort : Option String
  subagentModel : Option String
  improveMode : Option SessionImproveMode
  autoreviewEnabled : Option Bool
  autojudgeEnabled : Option Bool
  isCanary : Bool
  testingBuild : Option String
  workingDir : Option String
  shortName : Option String
  status : SessionStatus
  lastPid : Option ℕ
  lastActiveAt : Option DateTime
  isDebug : Bool
  saved : Bool
  saveLabel : Option String
  deriving DecidableEq, Repr

structure SessionJournalEntry where
  entryMeta : SessionJournalMeta
  appendMessages : List StoredMessage
  appendEnvSnapshots : List EnvSnapshot
  appendMemoryInjections : List StoredMemoryInjection
  appendReplayEvents : List StoredReplayEvent
  deriving DecidableEq, Repr

/-- `Clean`, `Append` or `Full`. -/
abbrev PersistVectorMode := Mirror.Mode

structure SessionPersistState where
  snapshotExists : Bool
  messagesLen : ℕ
  envSnapshotsLen : ℕ
  memoryInjectionsLen : ℕ
  replayEventsLen : ℕ
  messagesMode : PersistVectorMode
  envSnapshotsMode : PersistVectorMode
  memoryInjectionsMode : PersistVectorMode
  replayEventsMode : PersistVectorMode
  lastMeta : Option SessionJournalMeta
  deriving DecidableEq, Repr

/-- A session in a process. -/
structure Session extends Saved where
  persistState : SessionPersistState
  providerMessagesCache : List Message
  providerMessagePrefixHashesCache : List UInt64
  providerMessagesCacheLen : ℕ
  providerMessagesCacheMode : PersistVectorMode
  deriving DecidableEq, Repr

end Jcode.History
