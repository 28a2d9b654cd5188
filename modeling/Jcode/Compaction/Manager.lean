import Jcode.Compaction.Core

/-!
# Compaction — Manager

The compaction manager.  It does not hold the messages: its caller passes the transcript to each
operation, and the manager knows how many messages from the front are compacted into the summary.
A background task summarises a copy of some of them; its result is applied when a later operation
finds it finished.

What the manager asks of floating point, of the embedding model and of Unicode comes from outside
(`Env`), and so does the provider (`Provider`); each call has its own.
-/

namespace Jcode.Compaction

open Rust

/-! ### The surroundings -/

/-- What a call learns from outside. -/
structure Env where
  /-- `tokens as f32 / budget as f32 >= threshold`. -/
  usageGe : Threshold → (tokens budget : ℕ) → Bool
  /-- `tokens as f32 / budget as f32 < threshold`. -/
  usageLt : Threshold → (tokens budget : ℕ) → Bool
  /-- The usage in percent, with one decimal. -/
  usagePercent : (tokens budget : ℕ) → String
  /-- The growth of the snapshots, projected ahead, reaches the compaction threshold. -/
  projectedGe : (snapshots : List ℕ) → (budget : ℕ) → Bool
  /-- At least four embeddings are recorded, and their halves differ. -/
  topicShift : Bool
  /-- The embedding model has an embedding of the text. -/
  embeds : String → Bool
  /-- The embedding of a text is close enough to that of the goal. -/
  relevant : (goal text : String) → Bool
  /-- `char::is_alphanumeric`. -/
  isAlphanumeric : Char → Bool

/-- The model that writes the summaries; `none` is a failed call. -/
structure Provider where
  nativeCompact : List Message → Option String → Option String →
    Option (Option String × Option String)
  contextWindow : ℕ
  completeSimple : (prompt system : String) → Option String

inductive CompactionMode where
  | reactive
  | proactive
  | semantic

def CompactionMode.asStr : CompactionMode → String
  | .reactive => "reactive"
  | .proactive => "proactive"
  | .semantic => "semantic"

structure CompactionConfig where
  minSamples : ℕ
  stallWindow : ℕ
  minTurnsBetweenCompactions : ℕ
  goalWindowTurns : ℕ

def CompactionConfig.default : CompactionConfig :=
  { minSamples := 3, stallWindow := 5, minTurnsBetweenCompactions := 10, goalWindowTurns := 5 }

/-! ### The background task -/

structure CompactionResult where
  summaryText : String
  openaiEncryptedContent : Option String
  coversUpToTurn : ℕ
  durationMs : ℕ
  summarizedMessages : ℕ
  chain : List (List ℕ)

/-- The steps that led to a summary. -/
def chainOf (summary : Option Summary) : List (List ℕ) := (summary.map Summary.chain).getD []

/-- A summary is made of the existing one and of the messages. -/
def extendChain (existing : Option Summary) (messages : List Message) : List (List ℕ) :=
  chainOf existing ++ [messages.map Message.position]

/-- The provider's own compaction, unless it fails or its state is too large to be replayed; then a
summary in text. -/
def generateCompactionArtifact (provider : Provider) (messages : List Message)
    (existingSummary : Option Summary) (durationMs : ℕ) : Option CompactionResult :=
  let existing := existingSummary.map fun summary => summary.discardOversized.getD summary
  let native := (provider.nativeCompact messages (existing.map Summary.text)
    (existing.bind Summary.openaiEncryptedContent)).filter fun result =>
      result.2.all openaiEncryptedContentIsSendable
  match native with
  | some (summaryText, openaiEncryptedContent) =>
      some { summaryText := summaryText.getD ""
             openaiEncryptedContent := openaiEncryptedContent
             coversUpToTurn := messages.length
             durationMs := durationMs
             summarizedMessages := messages.length
             chain := extendChain existing messages }
  | none =>
      let maxPromptChars := (provider.contextWindow - 4000) * CHARS_PER_TOKEN
      (provider.completeSimple (buildCompactionPrompt messages existing maxPromptChars)
        "You are a helpful assistant that summarizes conversations.").map fun summary =>
          { summaryText := summary
            openaiEncryptedContent := none
            coversUpToTurn := messages.length
            durationMs := durationMs
            summarizedMessages := messages.length
            chain := extendChain existing messages }

/-- How a finished task ended. -/
inductive TaskOutcome where
  | ok (result : CompactionResult)
  | err
  | panicked

/-- A task has its own copy of what it summarises; `startedAt` (history) is the compacted count it
was started at. -/
structure Task where
  messages : List Message
  existingSummary : Option Summary
  outcome : Option TaskOutcome
  startedAt : ℕ

/-- What ends a task: it has run to its end, or it has panicked. -/
inductive Completion where
  | ran (provider : Provider) (durationMs : ℕ)
  | panicked

def Task.finish (task : Task) : Completion → Task
  | .ran provider durationMs =>
      let result := generateCompactionArtifact provider task.messages task.existingSummary durationMs
      { task with outcome := some (result.elim .err .ok) }
  | .panicked => { task with outcome := some .panicked }

/-! ### The manager -/

/-- The rolling size of the active messages, and whether it is stale. -/
structure ActiveCharEstimate where
  chars : ℕ
  dirty : Bool

namespace ActiveCharEstimate

def invalidate (e : ActiveCharEstimate) : ActiveCharEstimate := { e with dirty := true }

def setExact (chars : ℕ) : ActiveCharEstimate := { chars := chars, dirty := false }

/-- The prior value is assumed accurate. -/
def appendExact (e : ActiveCharEstimate) (chars : ℕ) : ActiveCharEstimate :=
  { chars := e.chars + chars, dirty := false }

def resetPending (maybeHasActive : Bool) : ActiveCharEstimate :=
  { chars := 0, dirty := maybeHasActive }

end ActiveCharEstimate

structure CompactionEvent where
  trigger : String
  preTokens : Option ℕ
  postTokens : Option ℕ
  tokensSaved : Option ℕ
  durationMs : Option ℕ
  messagesDropped : Option ℕ
  messagesCompacted : Option ℕ
  summaryChars : Option ℕ
  activeMessages : Option ℕ

/-- History variables: how long the transcript was when a compaction was started, and how many
messages were left active when a background result was applied to a transcript that is not empty. -/
structure History where
  starts : List ℕ
  tails : List ℕ

structure CompactionManager where
  compactedCount : ℕ
  activeSummary : Option Summary
  activeChars : ActiveCharEstimate
  pendingTask : Option Task
  pendingTrigger : Option String
  pendingCutoff : ℕ
  totalTurns : ℕ
  suppressCompactionUntilNewMessage : Bool
  tokenBudget : ℕ
  observedInputTokens : Option ℕ
  lastCompaction : Option CompactionEvent
  mode : CompactionMode
  compactionConfig : CompactionConfig
  tokenHistory : List ℕ
  turnsSinceLastCompact : ℕ
  history : History

namespace CompactionManager

def new (config : CompactionConfig) (mode : CompactionMode) : CompactionManager :=
  { compactedCount := 0
    activeSummary := none
    activeChars := { chars := 0, dirty := false }
    pendingTask := none
    pendingTrigger := none
    pendingCutoff := 0
    totalTurns := 0
    suppressCompactionUntilNewMessage := false
    tokenBudget := DEFAULT_TOKEN_BUDGET
    observedInputTokens := none
    lastCompaction := none
    mode := mode
    compactionConfig := config
    tokenHistory := []
    turnsSinceLastCompact := 0
    history := { starts := [], tails := [] } }

/-! ### Notifications -/

def notifyMessageAdded (m : CompactionManager) : CompactionManager :=
  { m with
    totalTurns := m.totalTurns + 1
    suppressCompactionUntilNewMessage := false
    activeChars := m.activeChars.invalidate }

def notifyMessageAddedBlocks (m : CompactionManager) (content : List ContentBlock) :
    CompactionManager :=
  { m with
    totalTurns := m.totalTurns + 1
    suppressCompactionUntilNewMessage := false
    activeChars := m.activeChars.appendExact (contentCharCount content) }

def notifyMessageAddedWith (m : CompactionManager) (message : Message) : CompactionManager :=
  m.notifyMessageAddedBlocks message.content

def seedRestoredMessages (m : CompactionManager) (count : ℕ) : CompactionManager :=
  { m with
    totalTurns := count
    suppressCompactionUntilNewMessage := 0 < count
    activeChars := .resetPending (0 < count) }

def seedRestoredMessagesWith (m : CompactionManager) (allMessages : List Message) :
    CompactionManager :=
  { m with
    totalTurns := allMessages.length
    suppressCompactionUntilNewMessage := !allMessages.isEmpty
    activeChars := .setExact (totalChars allMessages) }

/-- A compacted view, as it is persisted. -/
structure StoredCompactionState where
  summaryText : String
  openaiEncryptedContent : Option String
  coversUpToTurn : ℕ
  originalTurnCount : ℕ
  compactedCount : ℕ

/-- Where the restored summary came from is not known. -/
def restorePersistedState (m : CompactionManager) (state : StoredCompactionState)
    (totalMessages : ℕ) : CompactionManager :=
  let compactedCount := min state.compactedCount totalMessages
  { m with
    pendingTask := none
    pendingTrigger := none
    pendingCutoff := 0
    observedInputTokens := none
    lastCompaction := none
    tokenHistory := []
    turnsSinceLastCompact := 0
    totalTurns := totalMessages
    compactedCount := compactedCount
    activeChars := .resetPending (compactedCount < totalMessages)
    activeSummary := some
      { text := state.summaryText
        openaiEncryptedContent := state.openaiEncryptedContent
        coversUpToTurn := state.coversUpToTurn
        originalTurnCount := state.originalTurnCount
        chain := [] }
    suppressCompactionUntilNewMessage := 0 < totalMessages }

/-- The messages that are not compacted. -/
def activeMessages (m : CompactionManager) (allMessages : List Message) : List Message :=
  allMessages.drop (min m.compactedCount allMessages.length)

def restorePersistedStateWith (m : CompactionManager) (state : StoredCompactionState)
    (allMessages : List Message) : CompactionManager :=
  let m := m.restorePersistedState state allMessages.length
  { m with activeChars := .setExact (totalChars (m.activeMessages allMessages)) }

def pushTokenSnapshot (m : CompactionManager) (tokens : ℕ) : CompactionManager :=
  let history := m.tokenHistory ++ [tokens]
  { m with
    tokenHistory := if TOKEN_HISTORY_WINDOW < history.length then history.tail else history
    turnsSinceLastCompact := m.turnsSinceLastCompact + 1 }

/-! ### Estimates -/

def activeMessagesCount (m : CompactionManager) : ℕ := m.totalTurns - m.compactedCount

/-- The size of the active messages: measured when the rolling one is stale or the turns do not
agree. -/
def activeMessageCharsWith (m : CompactionManager) (allMessages : List Message) : ℕ :=
  if m.activeChars.dirty || m.activeMessagesCount != (m.activeMessages allMessages).length then
    totalChars (m.activeMessages allMessages)
  else m.activeChars.chars

def tokenEstimateWith (m : CompactionManager) (allMessages : List Message) : ℕ :=
  estimateCompactionTokens m.activeSummary (m.activeMessageCharsWith allMessages) m.tokenBudget

def effectiveTokenCountWith (m : CompactionManager) (allMessages : List Message) : ℕ :=
  max (m.tokenEstimateWith allMessages) (m.observedInputTokens.getD 0)

def usageGe (m : CompactionManager) (env : Env) (threshold : Threshold)
    (allMessages : List Message) : Bool :=
  env.usageGe threshold (m.effectiveTokenCountWith allMessages) m.tokenBudget

def usageLt (m : CompactionManager) (env : Env) (threshold : Threshold)
    (allMessages : List Message) : Bool :=
  env.usageLt threshold (m.effectiveTokenCountWith allMessages) m.tokenBudget

/-! ### Whether to compact -/

/-- The newest of the last `stall_window` snapshots is not above the oldest. -/
def stalled (m : CompactionManager) : Bool :=
  let recent := m.tokenHistory.reverse.take m.compactionConfig.stallWindow
  m.compactionConfig.stallWindow ≤ m.tokenHistory.length && recent.headD 0 ≤ recent.getLastD 0

def antiSignalsBlock (m : CompactionManager) (env : Env) (allMessages : List Message) : Bool :=
  m.pendingTask.isSome || m.usageLt env .proactiveFloor allMessages ||
    m.tokenHistory.length < m.compactionConfig.minSamples || m.stalled ||
    m.turnsSinceLastCompact < m.compactionConfig.minTurnsBetweenCompactions

def shouldCompactProactively (m : CompactionManager) (env : Env) (allMessages : List Message) :
    Bool :=
  !m.antiSignalsBlock env allMessages && 2 ≤ m.tokenHistory.length &&
    env.projectedGe m.tokenHistory m.tokenBudget

def shouldCompactSemantic (m : CompactionManager) (env : Env) (allMessages : List Message) : Bool :=
  !m.antiSignalsBlock env allMessages &&
    (env.topicShift || m.shouldCompactProactively env allMessages)

def shouldCompactWith (m : CompactionManager) (env : Env) (allMessages : List Message) : Bool :=
  !m.suppressCompactionUntilNewMessage &&
    match m.mode with
    | .reactive =>
        m.pendingTask.isNone && m.usageGe env .compaction allMessages &&
          RECENT_TURNS_TO_KEEP < (m.activeMessages allMessages).length
    | .proactive =>
        RECENT_TURNS_TO_KEEP < (m.activeMessages allMessages).length &&
          m.shouldCompactProactively env allMessages
    | .semantic =>
        RECENT_TURNS_TO_KEEP < (m.activeMessages allMessages).length &&
          m.shouldCompactSemantic env allMessages

/-- The messages before the cutoff that are close to the goal of the recent ones are kept, with all
after them, unless that leaves too little. -/
def semanticCutoff (m : CompactionManager) (env : Env) (active : List Message) : ℕ :=
  let standardCutoff := active.length - RECENT_TURNS_TO_KEEP
  if standardCutoff = 0 then 0
  else
    let goalTurns := min m.compactionConfig.goalWindowTurns active.length
    let goalText := semanticGoalText (active.drop (active.length - goalTurns))
    if goalText.isEmpty || !env.embeds goalText then standardCutoff
    else
      let highRelevance := (active.take standardCutoff).findIdx? fun msg =>
        let text := semanticMessageText msg
        !text.isEmpty && env.embeds text && env.relevant goalText text
      match highRelevance with
      | none => standardCutoff
      | some earliest => if earliest < 2 then standardCutoff else earliest

/-! ### Starting a background compaction -/

def startTask (m : CompactionManager) (allMessages : List Message) (cutoff : ℕ) (trigger : String) :
    CompactionManager :=
  { m with
    pendingCutoff := cutoff
    pendingTrigger := some trigger
    pendingTask := some
      { messages := (m.activeMessages allMessages).take cutoff
        existingSummary := m.activeSummary
        outcome := none
        startedAt := m.compactedCount }
    history := { m.history with starts := allMessages.length :: m.history.starts } }

def backgroundCutoff (m : CompactionManager) (env : Env) (active : List Message) : ℕ :=
  match m.mode with
  | .semantic => m.semanticCutoff env active
  | .reactive | .proactive => active.length - RECENT_TURNS_TO_KEEP

def maybeStartCompactionWith (m : CompactionManager) (env : Env) (allMessages : List Message) :
    CompactionManager :=
  if !m.shouldCompactWith env allMessages then m
  else
    let active := m.activeMessages allMessages
    let cutoff := m.backgroundCutoff env active
    if cutoff = 0 then m
    else
      let cutoff := safeCompactionCutoff active cutoff
      if cutoff = 0 then m else m.startTask allMessages cutoff m.mode.asStr

def forceCompactWith (m : CompactionManager) (env : Env) (allMessages : List Message) :
    CompactionManager × Except String Unit :=
  let active := m.activeMessages allMessages
  if m.pendingTask.isSome then (m, .error "Compaction already in progress")
  else if active.length ≤ RECENT_TURNS_TO_KEEP then
    (m, .error ("Not enough messages to compact (need more than " ++
      toString RECENT_TURNS_TO_KEEP ++ ", have " ++ toString active.length ++ ")"))
  else if m.usageLt env .manualCompactMin allMessages then
    (m, .error ("Context usage too low (" ++
      env.usagePercent (m.effectiveTokenCountWith allMessages) m.tokenBudget ++
      "%) - nothing to compact"))
  else if active.length - RECENT_TURNS_TO_KEEP = 0 then
    (m, .error "No messages available to compact after keeping recent turns")
  else
    let cutoff := safeCompactionCutoff active (active.length - RECENT_TURNS_TO_KEEP)
    if cutoff = 0 then (m, .error "Cannot compact - would split tool call/result pairs")
    else (m.startTask allMessages cutoff "manual", .ok ())

/-- The background task, if it is still running, ends. -/
def finishTask (m : CompactionManager) (completion : Completion) : CompactionManager :=
  match m.pendingTask with
  | some task =>
      if task.outcome.isNone then { m with pendingTask := some (task.finish completion) } else m
  | none => m

/-! ### Applying its result -/

/-- An empty list means that the messages are not known. -/
def clampCompactedCountToMessages (m : CompactionManager) (allMessages : List Message) :
    CompactionManager :=
  if allMessages.isEmpty then m
  else if m.compactedCount ≤ allMessages.length then m
  else { m with compactedCount := allMessages.length, activeChars := .setExact 0 }

def discardOversizedOpenaiNativeCompaction (m : CompactionManager) : CompactionManager :=
  match m.activeSummary.bind Summary.discardOversized with
  | some summary => { m with activeSummary := some summary, observedInputTokens := none }
  | none => m

def clearPending (m : CompactionManager) : CompactionManager :=
  { m with pendingTask := none, pendingTrigger := none, pendingCutoff := 0 }

/-- The compacted messages are counted, and leave the estimate: what it is with the new count, less
their size. -/
def advance (m : CompactionManager) (allMessages : List Message) (cutoff : ℕ) : CompactionManager :=
  let compactedChars := totalChars ((m.activeMessages allMessages).take cutoff)
  let count := m.compactedCount + cutoff
  let m := { m with
    compactedCount := if allMessages.isEmpty then count else min count allMessages.length }
  { m with activeChars := .setExact (m.activeMessageCharsWith allMessages - compactedChars) }

/-- A cutoff that no longer leaves enough messages is stale. -/
def leavesNoHealthyTail (m : CompactionManager) (allMessages : List Message) : Bool :=
  !allMessages.isEmpty &&
    (m.activeMessages allMessages).length - MIN_TURNS_TO_KEEP < m.pendingCutoff

/-- The result of the task becomes the summary. -/
def adoptResult (m : CompactionManager) (result : CompactionResult) (allMessages : List Message) :
    CompactionManager :=
  let trigger := m.pendingTrigger.getD m.mode.asStr
  let preTokens := m.effectiveTokenCountWith allMessages
  let summary : Summary :=
    { text := result.summaryText
      openaiEncryptedContent := result.openaiEncryptedContent
      coversUpToTurn := result.coversUpToTurn
      originalTurnCount := m.pendingCutoff
      chain := result.chain }
  let m := m.advance allMessages m.pendingCutoff
  let m := { m with activeSummary := some summary }.discardOversizedOpenaiNativeCompaction
  let m := { m with observedInputTokens := none }
  let postTokens := m.effectiveTokenCountWith allMessages
  let m := { m with
    lastCompaction := some
      { trigger := trigger
        preTokens := some preTokens
        postTokens := some postTokens
        tokensSaved := some (preTokens - postTokens)
        durationMs := some result.durationMs
        messagesDropped := none
        messagesCompacted := some result.summarizedMessages
        summaryChars := m.activeSummary.map fun (summary : Summary) => len summary.text
        activeMessages := some m.activeMessagesCount }
    turnsSinceLastCompact := 0
    history := { m.history with
      tails := if allMessages.isEmpty then m.history.tails
        else (m.activeMessages allMessages).length :: m.history.tails } }
  m.clearPending

/-- A stale result is discarded with its cutoff. -/
def applyResult (m : CompactionManager) (result : CompactionResult) (allMessages : List Message) :
    CompactionManager :=
  if m.leavesNoHealthyTail allMessages then m.clearPending else m.adoptResult result allMessages

def checkAndApplyCompactionWith (m : CompactionManager) (allMessages : List Message) :
    CompactionManager :=
  let m := m.clampCompactedCountToMessages allMessages
  match m.pendingTask with
  | none => m
  | some task =>
      match task.outcome with
      | none => m
      | some (.ok result) => m.applyResult result allMessages
      | some .err | some .panicked => m.clearPending

/-- The check of callers that have no messages to pass. -/
def checkAndApplyCompaction (m : CompactionManager) : CompactionManager :=
  let m := m.checkAndApplyCompactionWith []
  { m with activeChars := m.activeChars.invalidate }

def takeCompactionEvent (m : CompactionManager) : CompactionManager × Option CompactionEvent :=
  ({ m with lastCompaction := none }, m.lastCompaction)

def pollCompactionEventWith (m : CompactionManager) (allMessages : List Message) :
    CompactionManager × Option CompactionEvent :=
  (m.checkAndApplyCompactionWith allMessages).takeCompactionEvent

/-- The message that stands for the compacted ones; its `position` means nothing. -/
def summaryMessage (summary : Summary) : Message :=
  { role := .user
    content := [match summary.openaiEncryptedContent with
      | some encryptedContent => .openAICompaction encryptedContent
      | none => .text (compactedSummaryTextBlock summary.text)]
    position := 0 }

/-- The messages of a request: the summary and the active ones. -/
def messagesForApiWith (m : CompactionManager) (allMessages : List Message) :
    CompactionManager × List Message :=
  let m := (m.checkAndApplyCompactionWith allMessages).discardOversizedOpenaiNativeCompaction
  (m, (m.activeSummary.map summaryMessage).toList ++ m.activeMessages allMessages)

/-! ### Emergencies -/

/-- The sizes of the suffixes of the active messages. -/
def remainingSuffixChars (active : List Message) (idx : ℕ) : ℕ := totalChars (active.drop idx)

/-- Fewer turns are kept until those that are fit into the budget, but never fewer than two. -/
def hardCutoff (active : List Message) (tokenBudget turnsToKeep : ℕ) : ℕ :=
  let cutoff := safeCompactionCutoff active (active.length - turnsToKeep)
  if 0 < cutoff ∧ remainingSuffixChars active cutoff / CHARS_PER_TOKEN ≤ tokenBudget then cutoff
  else if turnsToKeep ≤ MIN_TURNS_TO_KEEP then
    safeCompactionCutoff active (active.length - MIN_TURNS_TO_KEEP)
  else hardCutoff active tokenBudget (max (turnsToKeep / 2) MIN_TURNS_TO_KEEP)
termination_by turnsToKeep
decreasing_by unfold MIN_TURNS_TO_KEEP at *; omega

/-- A task that is superseded is aborted. -/
def abortTask (m : CompactionManager) : CompactionManager :=
  if m.pendingTask.isSome then m.clearPending else m

/-- The hard compaction, once its cutoff is found. -/
def dropMessages (m : CompactionManager) (env : Env) (allMessages : List Message) (cutoff : ℕ) :
    CompactionManager :=
  let active := m.activeMessages allMessages
  let preTokens := m.effectiveTokenCountWith allMessages
  let m := m.abortTask
  let summaryText := buildEmergencySummaryText env.isAlphanumeric (m.activeSummary.map Summary.text)
    cutoff preTokens m.tokenBudget (active.take cutoff)
  let m := { m with
    compactedCount := min (m.compactedCount + cutoff) allMessages.length
    activeChars := .setExact (remainingSuffixChars active cutoff)
    activeSummary := some
      { text := summaryText
        openaiEncryptedContent := none
        coversUpToTurn := cutoff
        originalTurnCount := cutoff
        chain := extendChain m.activeSummary (active.take cutoff) }
    observedInputTokens := none
    history := { m.history with starts := allMessages.length :: m.history.starts } }
  let postTokens := m.effectiveTokenCountWith allMessages
  { m with
    lastCompaction := some
      { trigger := "hard_compact"
        preTokens := some preTokens
        postTokens := some postTokens
        tokensSaved := some (preTokens - postTokens)
        durationMs := some 0
        messagesDropped := some cutoff
        messagesCompacted := some cutoff
        summaryChars := m.activeSummary.map fun (summary : Summary) => len summary.text
        activeMessages := some m.activeMessagesCount } }

/-- Drop old messages without a summary of the provider's; a running task is aborted. -/
def hardCompactWith (m : CompactionManager) (env : Env) (allMessages : List Message) :
    CompactionManager × Except String ℕ :=
  let m := m.clampCompactedCountToMessages allMessages
  let active := m.activeMessages allMessages
  if active.length ≤ MIN_TURNS_TO_KEEP then
    (m, .error ("Not enough messages to compact (have " ++ toString active.length ++
      ", need more than " ++ toString MIN_TURNS_TO_KEEP ++ ")"))
  else
    let cutoff := hardCutoff active m.tokenBudget (min RECENT_TURNS_TO_KEEP (active.length - 1))
    if cutoff = 0 then (m, .error "Cannot compact — would split tool call/result pairs")
    else (m.dropMessages env allMessages cutoff, .ok cutoff)

/-- Shorten the large payloads of the active messages, in the caller's transcript. -/
def emergencyTruncateWith (m : CompactionManager) (allMessages : List Message) :
    CompactionManager × List Message × ℕ :=
  let start := min m.compactedCount allMessages.length
  let (active, truncated) := emergencyTruncateLargePayloads (allMessages.drop start)
    EMERGENCY_TOOL_RESULT_MAX_CHARS EMERGENCY_IMAGE_MAX_CHARS
  let m := if 0 < truncated then
    { m with observedInputTokens := none, activeChars := m.activeChars.invalidate } else m
  (m, allMessages.take start ++ active, truncated)

/-! ### Before an API call -/

inductive CompactionAction where
  | none
  | backgroundStarted (trigger : String)
  | hardCompacted (dropped : ℕ)

/-- Wait for the task.  It may end meanwhile (`during`); when it has ended, its result is applied. -/
def waitForPendingCompactionAtHardThreshold (m : CompactionManager) (during : Option Completion)
    (allMessages : List Message) : CompactionManager :=
  let m := during.elim m m.finishTask
  if m.pendingTask.any fun task => task.outcome.isSome then
    m.checkAndApplyCompactionWith allMessages
  else m

def waitIfPending (m : CompactionManager) (during : Option Completion)
    (allMessages : List Message) : CompactionManager :=
  if m.pendingTask.isSome then m.waitForPendingCompactionAtHardThreshold during allMessages else m

/-- At the critical threshold the context is compacted at once, after a wait for a running task,
unless that clears the threshold. -/
def relieve (m : CompactionManager) (env : Env) (during : Option Completion)
    (allMessages : List Message) : CompactionManager × Option ℕ :=
  if !m.usageGe env .critical allMessages then (m, none)
  else
    let waited := m.waitIfPending during allMessages
    if m.pendingTask.isSome && waited.usageLt env .critical allMessages then (waited, none)
    else
      let (m, dropped) := waited.hardCompactWith env allMessages
      (m, dropped.toOption)

def ensureContextFits (m : CompactionManager) (env : Env) (during : Option Completion)
    (allMessages : List Message) : CompactionManager × CompactionAction :=
  match m.relieve env during allMessages with
  | (m, some dropped) => (m, .hardCompacted dropped)
  | (m, none) =>
      let wasCompacting := m.pendingTask.isSome
      let m := m.maybeStartCompactionWith env allMessages
      if !wasCompacting && m.pendingTask.isSome then
        (m, .backgroundStarted (m.pendingTrigger.getD m.mode.asStr))
      else (m, .none)

end CompactionManager

end Jcode.Compaction
