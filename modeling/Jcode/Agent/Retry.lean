import Jcode.Chat.Images
import Jcode.Compaction.Manager
import Jcode.Support.Runs

/-!
# Agent — retries after a context limit

`try_auto_compact_after_context_limit` of `agent/compaction.rs`, `messages_for_provider` of
`agent.rs`, and the control flow around them in the turns of `agent/turn_loops.rs` and
`agent/turn_streaming_mpsc.rs`.  A provider call is made, its stream opens or fails, the stream
breaks or comes to its end; where the recovery succeeds, the loop goes on.

What the other parts of a turn do to the agent (the repair of tool outputs, the memory, the events
of a stream, the tools) is left open: it comes with the events.
-/

namespace Jcode.Retry
open Rust
open Compaction (CompactionManager)
open Compaction.CompactionManager (StoredCompactionState)

/-! ### The agent -/

/-- What the agent asks of its provider about compaction. -/
structure Provider where
  supportsCompaction : Bool
  usesJcodeCompaction : Bool
  contextWindow : ℕ

structure Agent where
  provider : Provider
  messages : List Chat.Message
  /-- `session.compaction`. -/
  compaction : Option StoredCompactionState
  manager : CompactionManager
  providerSessionId : Option String

/-- What a call learns from outside; a lock of the manager may be busy each time it is tried. -/
structure Surroundings where
  env : Compaction.Env
  toLowercase : String → String
  config : Compaction.CompactionConfig
  mode : Compaction.CompactionMode
  nativeLock : Bool
  imageLock : Bool
  lock : Bool

/-- A block as the compaction sees it. -/
def viewBlock : Chat.ContentBlock → Compaction.ContentBlock
  | .text text _ => .text text
  | .reasoning text => .reasoning text
  | .reasoningTrace text => .reasoningTrace text
  | .anthropicThinking thinking signature => .anthropicThinking thinking signature
  | .openAIReasoning id summary encryptedContent status =>
      .openAIReasoning id summary encryptedContent status
  | .toolUse id name input _ => .toolUse id name input
  | .toolResult toolUseId content _ => .toolResult toolUseId content
  | .image mediaType data => .image mediaType data
  | .openAICompaction encryptedContent => .openAICompaction encryptedContent

def viewMessage (msg : Chat.Message) (position : ℕ) : Compaction.Message where
  role := match msg.role with
    | .user => .user
    | .assistant => .assistant
  content := msg.content.map viewBlock
  position := position

/-! ### Errors -/

def isContextLimitError (toLowercase : String → String) (error : String) : Bool :=
  let lower := toLowercase error
  contains lower "context length" || contains lower "context window" ||
    contains lower "maximum context" || contains lower "max context" ||
    contains lower "token limit" || contains lower "too many tokens" ||
    contains lower "prompt is too long" || contains lower "input is too long" ||
    contains lower "request too large" || contains lower "length limit" ||
    contains lower "maximum tokens" || (contains lower "exceeded" && contains lower "tokens")

def isOpenaiEncryptedContentTooLargeError (error : String) : Bool :=
  let lower := toAsciiLowercase error
  contains lower "encrypted_content" &&
    (contains lower "string_above_max_length" || contains lower "string too long" ||
      contains lower "maximum length" || contains lower "large_string_param" ||
      contains lower "largestringparam")

/-- The code stands somewhere in the text without a digit beside it; `before` is the character
before the text. -/
def containsIndependentStatusCode (code : List Char) : Option Char → List Char → Bool
  | _, [] => false
  | before, c :: cs =>
      (code.isPrefixOf (c :: cs) && !before.any Char.isDigit &&
        !((c :: cs).drop code.length).head?.any Char.isDigit) ||
      containsIndependentStatusCode code (some c) cs

def isRequestPayloadTooLargeError (error : String) : Bool :=
  let lower := toAsciiLowercase error
  contains lower "request_too_large" || contains lower "request too large" ||
    contains lower "payload too large" || contains lower "request entity too large" ||
    contains lower "request exceeds the maximum size" ||
    contains lower "exceeds the maximum size" ||
    containsIndependentStatusCode "413".toList none lower.toList

def PAYLOAD_IMAGE_CHAR_BUDGET : ℕ := 12 * 1024 * 1024

namespace Agent

/-! ### The recovery -/

def providerMessages (a : Agent) : List Compaction.Message :=
  a.messages.zipIdx.map fun (msg, position) => viewMessage msg position

def persistedState (m : CompactionManager) : Option StoredCompactionState :=
  m.activeSummary.map fun summary =>
    { summaryText := summary.text
      openaiEncryptedContent := summary.openaiEncryptedContent
      coversUpToTurn := summary.coversUpToTurn
      originalTurnCount := summary.originalTurnCount
      compactedCount := m.compactedCount }

def syncSessionCompactionStateFromManager (a : Agent) : Agent :=
  { a with compaction := persistedState a.manager }

def noteCompactionApplied (a : Agent) : Agent := { a with providerSessionId := none }

/-- Whether the manager has a native state that cannot be sent. -/
def oversizedNative (m : CompactionManager) : Bool :=
  (m.activeSummary.bind Compaction.Summary.discardOversized).isSome

def tryRecoverOversizedOpenaiNativeCompaction (a : Agent) (s : Surroundings) : Agent × Bool :=
  if s.nativeLock && oversizedNative a.manager then
    ({ a with manager := a.manager.discardOversizedOpenaiNativeCompaction }
      |>.syncSessionCompactionStateFromManager |>.noteCompactionApplied, true)
  else (a, false)

/-- The images of the transcript, within a payload. -/
def stripOversizedImages (a : Agent) (targetTotalChars : ℕ) : Agent × ℕ :=
  let (contents, stripped) :=
    Chat.stripLargeImagesInContents (a.messages.map (·.content)) targetTotalChars
  ({ a with messages := a.messages.zipWith (fun msg content => { msg with content }) contents },
    stripped)

/-- The manager forgets what it knew and is restored from the session. -/
def reseed (a : Agent) (s : Surroundings) : Agent :=
  let fresh := { CompactionManager.new s.config s.mode with
    tokenBudget := a.provider.contextWindow }
  let manager := match a.compaction with
    | some state => fresh.restorePersistedStateWith state a.providerMessages
    | none => fresh.seedRestoredMessagesWith a.providerMessages
  { a with manager }.syncSessionCompactionStateFromManager

def tryRecoverAfterPayloadTooLarge (a : Agent) (s : Surroundings) (error : String) :
    Agent × Bool :=
  if !isRequestPayloadTooLargeError error then (a, false)
  else
    let (a, stripped) := a.stripOversizedImages PAYLOAD_IMAGE_CHAR_BUDGET
    if stripped = 0 then (a, false)
    else
      let a := if s.imageLock then a.reseed s else a
      (a.noteCompactionApplied, true)

/-- The hard compaction, at the provider's context limit. -/
def hardCompact (a : Agent) (s : Surroundings) : Agent × Bool :=
  let observed := { a.manager with observedInputTokens := some a.provider.contextWindow }
  match observed.hardCompactWith s.env a.providerMessages with
  | (manager, .error _) => ({ a with manager }, false)
  | (manager, .ok _) =>
      ({ a with manager }.syncSessionCompactionStateFromManager.noteCompactionApplied, true)

def tryAutoCompactAfterContextLimit (a : Agent) (s : Surroundings) (error : String) :
    Agent × Bool :=
  let (a, recovered) :=
    if isOpenaiEncryptedContentTooLargeError error then
      a.tryRecoverOversizedOpenaiNativeCompaction s
    else (a, false)
  if recovered then (a, true)
  else
    let (a, recovered) := a.tryRecoverAfterPayloadTooLarge s error
    if recovered then (a, true)
    else if !isContextLimitError s.toLowercase error then (a, false)
    else if !a.provider.supportsCompaction then (a, false)
    else if !s.lock then (a, false)
    else a.hardCompact s

/-! ### The messages of a request -/

def messagesForProvider (a : Agent) (s : Surroundings) (during : Option Compaction.Completion) :
    Agent × List Compaction.Message :=
  let allMessages := a.providerMessages
  if (a.provider.supportsCompaction || a.compaction.isSome) && s.lock then
    let discarded := oversizedNative a.manager
    let manager := a.manager.discardOversizedOpenaiNativeCompaction
    let manager := if a.provider.usesJcodeCompaction then
      (manager.ensureContextFits s.env during allMessages).1 else manager
    let (manager, messages) := manager.messagesForApiWith allMessages
    let (manager, event) := manager.takeCompactionEvent
    let a := { a with manager }
    let a := if event.isSome || discarded then a.syncSessionCompactionStateFromManager else a
    (if event.isSome then a.noteCompactionApplied else a, messages)
  else (a, allMessages)

end Agent

/-! ### A turn -/

def MAX_CONTEXT_LIMIT_RETRIES : ℕ := 5

inductive Loop where
  | runTurn
  | runTurnStreamingMpsc
  deriving DecidableEq, Repr

/-- What is sent to the provider. -/
structure Request where
  messages : List Compaction.Message
  resumeSessionId : Option String

/-- Where a turn stands. -/
inductive Place where
  /-- At the head of its loop. -/
  | head
  /-- A call is under way; its future has completed or not. -/
  | opening (request : Request) (completed : Bool)
  | streaming
  | ended (result : Except String Unit)
  /-- A future was polled after it had completed. -/
  | panicked

structure Turn where
  agent : Agent
  contextLimitRetries : ℕ
  place : Place

def Turn.start (agent : Agent) : Turn := ⟨agent, 0, .head⟩

/-- What a poll of a call yields. -/
inductive Outcome where
  | pending
  | opened
  | failed (error : String) (s : Surroundings)

/-- How the loop goes on after a response. -/
inductive Next where
  | again
  | stop (result : Except String Unit)

inductive Event where
  /-- The tool outputs are repaired, and the request is built; `inject` adds the memory. -/
  | build (repair : Agent → Agent) (s : Surroundings) (during : Option Compaction.Completion)
      (inject : Agent → Agent × List Compaction.Message)
  | poll (outcome : Outcome)
  /-- The ticker of the keepalives. -/
  | tick
  /-- A cancellation before the stream is opened. -/
  | shutdown
  /-- An event of the stream that is no error. -/
  | received (effect : Agent → Agent)
  /-- An error in place of an event, or as one. -/
  | broke (error : String) (s : Surroundings)
  /-- The stream ends, or is cut off by a cancellation, and its response is dealt with. -/
  | responded (cancelled : Bool) (effect : Agent → Agent) (next : Next)

def retryLimitReached : String :=
  "Context limit exceeded after " ++ toString MAX_CONTEXT_LIMIT_RETRIES ++ " compaction retries"

namespace Turn

/-- A failure: the recovery, and where the turn goes on when it succeeds within the limit. -/
def fail (t : Turn) (s : Surroundings) (error : String) (resume : Place) : Turn :=
  match t.agent.tryAutoCompactAfterContextLimit s error with
  | (agent, true) =>
      let retries := t.contextLimitRetries + 1
      if MAX_CONTEXT_LIMIT_RETRIES < retries then
        ⟨agent, retries, .ended (.error retryLimitReached)⟩
      else ⟨agent, retries, resume⟩
  | (agent, false) => { t with agent, place := .ended (.error error) }

/-- `continue` after a call that failed: in `run_turn` it is that of the turn's loop, and in
`run_turn_streaming_mpsc` that of the loop around `select!`. -/
def afterFailedOpening (loop : Loop) (request : Request) : Place :=
  match loop with
  | .runTurn => .head
  | .runTurnStreamingMpsc => .opening request true

end Turn

/-- One step of a turn; `none` where the event cannot happen. -/
def step (loop : Loop) (t : Turn) : Event → Option Turn
  | .build repair s during inject =>
      match t.place with
      | .head =>
          let (agent, messages) := (repair t.agent).messagesForProvider s during
          let (agent, memory) := inject agent
          some { t with agent
                        place := .opening ⟨messages ++ memory, agent.providerSessionId⟩ false }
      | _ => none
  | .poll outcome =>
      match t.place with
      | .opening _ true => some { t with place := .panicked }
      | .opening request false =>
          match outcome with
          | .pending => some t
          | .opened => some { t with contextLimitRetries := 0, place := .streaming }
          | .failed error s => some (t.fail s error (Turn.afterFailedOpening loop request))
      | _ => none
  | .tick =>
      match loop, t.place with
      | .runTurnStreamingMpsc, .opening _ _ | .runTurnStreamingMpsc, .streaming => some t
      | _, _ => none
  | .shutdown =>
      match loop, t.place with
      | .runTurnStreamingMpsc, .opening _ _ => some { t with place := .ended (.ok ()) }
      | _, _ => none
  | .received effect =>
      match t.place with
      | .streaming => some { t with agent := effect t.agent }
      | _ => none
  | .broke error s =>
      match t.place with
      -- the event loop is left, and the turn's loop goes on from its head
      | .streaming => some (t.fail s error .head)
      | _ => none
  | .responded _ effect next =>
      match t.place with
      | .streaming => some { t with
          agent := effect t.agent
          place := match next with
            | .again => .head
            | .stop result => .ended result }
      | _ => none

end Jcode.Retry
