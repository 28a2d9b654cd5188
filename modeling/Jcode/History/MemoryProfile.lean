import Jcode.History.ProviderCache

/-!
# History — MemoryProfile

A session counts what it holds, to tell how much memory it uses: its messages, the provider's copy
of them, and the three other vectors.  An append counts what it adds.  Other changes set the flag
`memory_profile_dirty`, and the next snapshot counts everything anew.

* `memoryProfile`: the counters of what a session holds, which `rebuild_memory_profile_cache` sets.
* `Exact`: unless the flag is set, the counters are these.
* `Counted`: the step does not make the provider's cache anew over messages that are counted.
* `memory_profile_snapshot_iff`: every snapshot of a run is exact if and only if every step is
  `Counted`.
-/

namespace Jcode.History

open Chat Runs

/-! ### Blocks -/

def LARGE_MEMORY_BLOB_THRESHOLD_BYTES : ℕ := 16 * 1024

@[ext]
structure ContentBlockMemoryStats where
  blockCount : ℕ
  textBlocks : ℕ
  textBytes : ℕ
  reasoningBlocks : ℕ
  reasoningBytes : ℕ
  toolUseBlocks : ℕ
  toolUseInputJsonBytes : ℕ
  toolResultBlocks : ℕ
  toolResultBytes : ℕ
  imageBlocks : ℕ
  imageDataBytes : ℕ
  openaiCompactionBlocks : ℕ
  openaiCompactionBytes : ℕ
  largeBlockCount : ℕ
  largeBlockBytes : ℕ
  largeToolResultCount : ℕ
  largeToolResultBytes : ℕ
  maxBlockBytes : ℕ
  maxToolResultBytes : ℕ
  deriving DecidableEq, Repr, Inhabited

namespace ContentBlockMemoryStats

def mergeFrom (a b : ContentBlockMemoryStats) : ContentBlockMemoryStats where
  blockCount := a.blockCount + b.blockCount
  textBlocks := a.textBlocks + b.textBlocks
  textBytes := a.textBytes + b.textBytes
  reasoningBlocks := a.reasoningBlocks + b.reasoningBlocks
  reasoningBytes := a.reasoningBytes + b.reasoningBytes
  toolUseBlocks := a.toolUseBlocks + b.toolUseBlocks
  toolUseInputJsonBytes := a.toolUseInputJsonBytes + b.toolUseInputJsonBytes
  toolResultBlocks := a.toolResultBlocks + b.toolResultBlocks
  toolResultBytes := a.toolResultBytes + b.toolResultBytes
  imageBlocks := a.imageBlocks + b.imageBlocks
  imageDataBytes := a.imageDataBytes + b.imageDataBytes
  openaiCompactionBlocks := a.openaiCompactionBlocks + b.openaiCompactionBlocks
  openaiCompactionBytes := a.openaiCompactionBytes + b.openaiCompactionBytes
  largeBlockCount := a.largeBlockCount + b.largeBlockCount
  largeBlockBytes := a.largeBlockBytes + b.largeBlockBytes
  largeToolResultCount := a.largeToolResultCount + b.largeToolResultCount
  largeToolResultBytes := a.largeToolResultBytes + b.largeToolResultBytes
  maxBlockBytes := max a.maxBlockBytes b.maxBlockBytes
  maxToolResultBytes := max a.maxToolResultBytes b.maxToolResultBytes

def recordBytes (bytes : ℕ) (a : ContentBlockMemoryStats) : ContentBlockMemoryStats :=
  let a := { a with maxBlockBytes := max a.maxBlockBytes bytes }
  if LARGE_MEMORY_BLOB_THRESHOLD_BYTES ≤ bytes then
    { a with
      largeBlockCount := a.largeBlockCount + 1
      largeBlockBytes := a.largeBlockBytes + bytes }
  else a

/-- What a tool result adds to the counters of tool results. -/
def recordToolResult (bytes : ℕ) (a : ContentBlockMemoryStats) : ContentBlockMemoryStats :=
  let a :=
    { a with
      toolResultBlocks := a.toolResultBlocks + 1
      toolResultBytes := a.toolResultBytes + bytes
      maxToolResultBytes := max a.maxToolResultBytes bytes }
  if LARGE_MEMORY_BLOB_THRESHOLD_BYTES ≤ bytes then
    { a with
      largeToolResultCount := a.largeToolResultCount + 1
      largeToolResultBytes := a.largeToolResultBytes + bytes }
  else a

def recordReasoning (bytes : ℕ) (a : ContentBlockMemoryStats) : ContentBlockMemoryStats :=
  recordBytes bytes
    { a with
      reasoningBlocks := a.reasoningBlocks + 1
      reasoningBytes := a.reasoningBytes + bytes }

def recordBlock (a : ContentBlockMemoryStats) (block : ContentBlock) : ContentBlockMemoryStats :=
  let a := { a with blockCount := a.blockCount + 1 }
  match block with
  | .text text _ =>
      recordBytes text.utf8ByteSize
        { a with
          textBlocks := a.textBlocks + 1
          textBytes := a.textBytes + text.utf8ByteSize }
  | .reasoning text => a.recordReasoning text.utf8ByteSize
  | .reasoningTrace text => a.recordReasoning text.utf8ByteSize
  | .anthropicThinking thinking signature =>
      a.recordReasoning (thinking.utf8ByteSize + signature.utf8ByteSize)
  | .openAIReasoning id summary encryptedContent status =>
      a.recordReasoning
        (id.utf8ByteSize + (summary.map String.utf8ByteSize).sum +
          (encryptedContent.map String.utf8ByteSize).getD 0 +
            (status.map String.utf8ByteSize).getD 0)
  | .toolUse _ _ input _ =>
      recordBytes input.utf8ByteSize
        { a with
          toolUseBlocks := a.toolUseBlocks + 1
          toolUseInputJsonBytes := a.toolUseInputJsonBytes + input.utf8ByteSize }
  | .toolResult _ content _ =>
      recordBytes content.utf8ByteSize (a.recordToolResult content.utf8ByteSize)
  | .image _ data =>
      recordBytes data.utf8ByteSize
        { a with
          imageBlocks := a.imageBlocks + 1
          imageDataBytes := a.imageDataBytes + data.utf8ByteSize }
  | .openAICompaction encryptedContent =>
      recordBytes encryptedContent.utf8ByteSize
        { a with
          openaiCompactionBlocks := a.openaiCompactionBlocks + 1
          openaiCompactionBytes := a.openaiCompactionBytes + encryptedContent.utf8ByteSize }

def payloadTextBytes (a : ContentBlockMemoryStats) : ℕ :=
  a.textBytes + a.reasoningBytes + a.toolResultBytes + a.imageDataBytes + a.openaiCompactionBytes

end ContentBlockMemoryStats

def summarizeBlocks (blocks : List ContentBlock) : ContentBlockMemoryStats :=
  blocks.foldl .recordBlock default

def summarizeMessageContent (contents : List (List ContentBlock)) : ContentBlockMemoryStats :=
  contents.foldl (fun stats blocks => blocks.foldl .recordBlock stats) default

namespace ContentBlockMemoryStats

theorem mergeFrom_default (a : ContentBlockMemoryStats) : a.mergeFrom default = a := by
  have hmax (n : ℕ) : max n (default : ℕ) = n := Nat.max_zero n
  ext <;> first | rfl | exact hmax _

variable (a b : ContentBlockMemoryStats)

theorem mergeFrom_recordBytes (bytes : ℕ) :
    a.mergeFrom (b.recordBytes bytes) = (a.mergeFrom b).recordBytes bytes := by
  unfold recordBytes
  dsimp only
  split <;> simp only [mergeFrom, Nat.add_assoc, Nat.max_assoc]

theorem mergeFrom_recordToolResult (bytes : ℕ) :
    a.mergeFrom (b.recordToolResult bytes) = (a.mergeFrom b).recordToolResult bytes := by
  unfold recordToolResult
  dsimp only
  split <;> simp only [mergeFrom, Nat.add_assoc, Nat.max_assoc]

/-- A block is recorded the same before a merge and after it. -/
theorem mergeFrom_recordBlock (block : ContentBlock) :
    a.mergeFrom (b.recordBlock block) = (a.mergeFrom b).recordBlock block := by
  cases block <;>
    simp only [recordBlock, recordReasoning, mergeFrom_recordBytes, mergeFrom_recordToolResult] <;>
    simp only [mergeFrom, Nat.add_assoc]

theorem mergeFrom_foldl (blocks : List ContentBlock) :
    a.mergeFrom (blocks.foldl recordBlock b) = blocks.foldl recordBlock (a.mergeFrom b) := by
  induction blocks generalizing b with
  | nil => rfl
  | cons block blocks ih => rw [List.foldl_cons, List.foldl_cons, ih, mergeFrom_recordBlock]

end ContentBlockMemoryStats

/-- **To summarize more messages is to merge their summaries.** -/
theorem summarizeMessageContent_concat (contents : List (List ContentBlock))
    (blocks : List ContentBlock) :
    summarizeMessageContent (contents ++ [blocks]) =
      (summarizeMessageContent contents).mergeFrom (summarizeBlocks blocks) := by
  rw [summarizeBlocks, ContentBlockMemoryStats.mergeFrom_foldl,
    ContentBlockMemoryStats.mergeFrom_default]
  exact List.foldl_append ..

/-! ### The counters -/

/-- `estimate_json_bytes`, at the types that are counted. -/
structure JsonBytes where
  storedMessage : StoredMessage → ℕ
  message : Message → ℕ
  envSnapshot : EnvSnapshot → ℕ
  memoryInjection : StoredMemoryInjection → ℕ
  replayEvent : StoredReplayEvent → ℕ
  compaction : StoredCompactionState → ℕ

structure SessionMemoryProfileCache where
  messagesCount : ℕ
  messagesJsonBytes : ℕ
  messageStats : ContentBlockMemoryStats
  envSnapshotsCount : ℕ
  envSnapshotsJsonBytes : ℕ
  memoryInjectionsCount : ℕ
  memoryInjectionsJsonBytes : ℕ
  replayEventsCount : ℕ
  replayEventsJsonBytes : ℕ
  providerCacheCount : ℕ
  providerCacheJsonBytes : ℕ
  providerCacheStats : ContentBlockMemoryStats
  deriving DecidableEq, Repr, Inhabited

structure SessionMemoryProfileSnapshot where
  messageCount : ℕ
  providerCacheMessageCount : ℕ
  envSnapshotCount : ℕ
  memoryInjectionCount : ℕ
  replayEventCount : ℕ
  payloadTextBytes : ℕ
  totalJsonBytes : ℕ
  providerCacheJsonBytes : ℕ
  canonicalToolResultBytes : ℕ
  providerCacheToolResultBytes : ℕ
  canonicalLargeBlobBytes : ℕ
  providerCacheLargeBlobBytes : ℕ
  deriving DecidableEq, Repr

section
variable (sizes : JsonBytes)

namespace SessionMemoryProfileCache

def countMessage (message : StoredMessage) (c : SessionMemoryProfileCache) :
    SessionMemoryProfileCache :=
  { c with
    messagesCount := c.messagesCount + 1
    messagesJsonBytes := c.messagesJsonBytes + sizes.storedMessage message
    messageStats := c.messageStats.mergeFrom (summarizeBlocks message.content) }

def countEnvSnapshot (snapshot : EnvSnapshot) (c : SessionMemoryProfileCache) :
    SessionMemoryProfileCache :=
  { c with
    envSnapshotsCount := c.envSnapshotsCount + 1
    envSnapshotsJsonBytes := c.envSnapshotsJsonBytes + sizes.envSnapshot snapshot }

def countMemoryInjection (injection : StoredMemoryInjection) (c : SessionMemoryProfileCache) :
    SessionMemoryProfileCache :=
  { c with
    memoryInjectionsCount := c.memoryInjectionsCount + 1
    memoryInjectionsJsonBytes := c.memoryInjectionsJsonBytes + sizes.memoryInjection injection }

def countReplayEvent (event : StoredReplayEvent) (c : SessionMemoryProfileCache) :
    SessionMemoryProfileCache :=
  { c with
    replayEventsCount := c.replayEventsCount + 1
    replayEventsJsonBytes := c.replayEventsJsonBytes + sizes.replayEvent event }

/-- The counting of `push_provider_message_cache_entry`. -/
def countProviderMessage (c : SessionMemoryProfileCache) (message : Message) :
    SessionMemoryProfileCache :=
  { c with
    providerCacheCount := c.providerCacheCount + 1
    providerCacheJsonBytes := c.providerCacheJsonBytes + sizes.message message
    providerCacheStats := c.providerCacheStats.mergeFrom (summarizeBlocks message.content) }

/-- The counting of `reset_provider_messages_cache`. -/
def resetProviderMessagesCache (c : SessionMemoryProfileCache) : SessionMemoryProfileCache :=
  { c with
    providerCacheCount := 0
    providerCacheJsonBytes := 0
    providerCacheStats := default }

end SessionMemoryProfileCache

/-- What there is to count, counted. -/
def profileOf (messages : List StoredMessage) (envSnapshots : List EnvSnapshot)
    (memoryInjections : List StoredMemoryInjection) (replayEvents : List StoredReplayEvent)
    (providerMessagesCache : List Message) : SessionMemoryProfileCache where
  messagesCount := messages.length
  messagesJsonBytes := (messages.map sizes.storedMessage).sum
  messageStats := summarizeMessageContent (messages.map (·.content))
  envSnapshotsCount := envSnapshots.length
  envSnapshotsJsonBytes := (envSnapshots.map sizes.envSnapshot).sum
  memoryInjectionsCount := memoryInjections.length
  memoryInjectionsJsonBytes := (memoryInjections.map sizes.memoryInjection).sum
  replayEventsCount := replayEvents.length
  replayEventsJsonBytes := (replayEvents.map sizes.replayEvent).sum
  providerCacheCount := providerMessagesCache.length
  providerCacheJsonBytes := (providerMessagesCache.map sizes.message).sum
  providerCacheStats := summarizeMessageContent (providerMessagesCache.map (·.content))

def Session.memoryProfile (s : Session) : SessionMemoryProfileCache :=
  profileOf sizes s.messages s.envSnapshots s.memoryInjections s.replayEvents
    s.providerMessagesCache

/-- A session, its counters, and the flag that they are to be made anew. -/
structure Profiled where
  session : Session
  memoryProfileCache : SessionMemoryProfileCache
  memoryProfileDirty : Bool

namespace Profiled

def rebuildMemoryProfileCache (p : Profiled) : Profiled :=
  { p with
    memoryProfileCache := p.session.memoryProfile sizes
    memoryProfileDirty := false }

def ensureMemoryProfileCache (p : Profiled) : Profiled :=
  if p.memoryProfileDirty then p.rebuildMemoryProfileCache sizes else p

def memoryProfileSnapshot (p : Profiled) : SessionMemoryProfileSnapshot × Profiled :=
  let p := p.ensureMemoryProfileCache sizes
  let c := p.memoryProfileCache
  let compactionJsonBytes := (p.session.compaction.map sizes.compaction).getD 0
  ({  messageCount := c.messagesCount
      providerCacheMessageCount := c.providerCacheCount
      envSnapshotCount := c.envSnapshotsCount
      memoryInjectionCount := c.memoryInjectionsCount
      replayEventCount := c.replayEventsCount
      payloadTextBytes := c.messageStats.payloadTextBytes
      totalJsonBytes :=
        c.messagesJsonBytes + c.providerCacheJsonBytes + c.envSnapshotsJsonBytes +
          c.memoryInjectionsJsonBytes + c.replayEventsJsonBytes + compactionJsonBytes
      providerCacheJsonBytes := c.providerCacheJsonBytes
      canonicalToolResultBytes := c.messageStats.toolResultBytes
      providerCacheToolResultBytes := c.providerCacheStats.toolResultBytes
      canonicalLargeBlobBytes := c.messageStats.largeBlockBytes
      providerCacheLargeBlobBytes := c.providerCacheStats.largeBlockBytes },
    p)

/-! ### Mutations -/

/-- The session is changed, and nothing counted. -/
def markMemoryProfileDirty (s : Session) (p : Profiled) : Profiled :=
  { p with session := s, memoryProfileDirty := true }

def appendStoredMessage (message : StoredMessage) (p : Profiled) : Profiled :=
  { p with
    session := p.session.appendStoredMessage message
    memoryProfileCache := p.memoryProfileCache.countMessage sizes message }

def insertMessage (index : ℕ) (message : StoredMessage) (p : Profiled) : Option Profiled :=
  (p.session.insertMessage index message).map p.markMemoryProfileDirty

def replaceMessages (messages : List StoredMessage) (p : Profiled) : Profiled :=
  p.markMemoryProfileDirty (p.session.replaceMessages messages)

def truncateMessages (len : ℕ) (p : Profiled) : Profiled :=
  if len < p.session.messages.length then
    p.markMemoryProfileDirty (p.session.truncateMessages len)
  else p

def removeToolUseBlocks (messageId : String) (p : Profiled) : Profiled :=
  match p.session.messages.findIdx? (fun m => m.id == messageId) with
  | some _ => p.markMemoryProfileDirty (p.session.removeToolUseBlocks messageId)
  | none => p

def stripOversizedImages (target : ℕ) (p : Profiled) : Profiled :=
  let contents := p.session.messages.map (·.content)
  let stripped := (Session.stripLargeImagesInContents contents target).1
  if 0 < stripped then p.markMemoryProfileDirty (p.session.stripOversizedImages target) else p

def refreshInitialSessionContextMessage (wrapped : String) (p : Profiled) : Profiled :=
  if p.session.messages.any Session.isVisibleConversationMessage then p
  else
    match p.session.messages.findIdx? (fun m => m.content.any Session.isContextBlock) with
    | none => p
    | some i =>
        match p.session.messages[i]?.bind fun m => m.content.find? Session.isContextBlock with
        | none => p
        | some block =>
            if Session.blockText? block = some wrapped then p
            else
              p.markMemoryProfileDirty (p.session.refreshInitialSessionContextMessage wrapped)

/-- A snapshot that pushes older ones out sets the flag; it is counted all the same. -/
def recordEnvSnapshot (snapshot : EnvSnapshot) (p : Profiled) : Profiled :=
  { session := p.session.recordEnvSnapshot snapshot
    memoryProfileCache := p.memoryProfileCache.countEnvSnapshot sizes snapshot
    memoryProfileDirty :=
      p.memoryProfileDirty || decide (MAX_ENV_SNAPSHOTS < p.session.envSnapshots.length + 1) }

def recordMemoryInjection (summary content : String) (count ageMs : ℕ) (memoryIds : List String)
    (now : DateTime) (p : Profiled) : Profiled :=
  let injection : StoredMemoryInjection :=
    ⟨summary, content, count, memoryIds, some ageMs, some p.session.messages.length, now⟩
  { p with
    session := p.session.recordMemoryInjection summary content count ageMs memoryIds now
    memoryProfileCache := p.memoryProfileCache.countMemoryInjection sizes injection }

def pushReplayEvent (now : DateTime) (kind : StoredReplayEventKind) (p : Profiled) : Profiled :=
  { p with
    session := p.session.pushReplayEvent now kind
    memoryProfileCache := p.memoryProfileCache.countReplayEvent sizes ⟨now, kind⟩ }

def pushNewReplayEvent (now : DateTime) (kind : StoredReplayEventKind) (p : Profiled) : Profiled :=
  if p.session.replayEvents.getLast?.map (·.kind) = some kind then p
  else p.pushReplayEvent sizes now kind

def mutate (p : Profiled) : Mutation → Option Profiled
  | .appendStoredMessage message => some (p.appendStoredMessage sizes message)
  | .insertMessage index message => p.insertMessage index message
  | .replaceMessages messages => some (p.replaceMessages messages)
  | .truncateMessages len => some (p.truncateMessages len)
  | .removeToolUseBlocks messageId => some (p.removeToolUseBlocks messageId)
  | .stripOversizedImages target => some (p.stripOversizedImages target)
  | .refreshInitialSessionContextMessage wrapped =>
      some (p.refreshInitialSessionContextMessage wrapped)
  | .recordEnvSnapshot snapshot => some (p.recordEnvSnapshot sizes snapshot)
  | .recordMemoryInjection summary content count ageMs memoryIds now =>
      some (p.recordMemoryInjection sizes summary content count ageMs memoryIds now)
  | .recordReplayDisplayMessage role title content now =>
      some (p.pushReplayEvent sizes now (.displayMessage role title content))
  | .recordSwarmStatusEvent members now =>
      some (p.pushNewReplayEvent sizes now (.swarmStatus members))
  | .recordSwarmPlanEvent swarmId version items participants reason now =>
      some (p.pushNewReplayEvent sizes now (.swarmPlan swarmId version items participants reason))
  | .assign a => some { p with session := p.session.assign a }

/-! ### The provider's cache -/

/-- The messages that are pushed as entries, counted. -/
def countPushed (messages : List StoredMessage) (p : Profiled) : SessionMemoryProfileCache :=
  messages.foldl (fun c m => c.countProviderMessage sizes m.toMessage) p.memoryProfileCache

/-- `provider_messages`.  To make the cache anew clears the messages, and no counter. -/
def providerMessages (toVec : Message → List UInt8) (p : Profiled) : Profiled :=
  let s := p.session
  if s.providerMessagesCacheMode = .full ∨ s.messages.length < s.providerMessagesCacheLen then
    { p with
      session := s.updateProviderCache toVec
      memoryProfileCache := p.countPushed sizes s.messages }
  else if s.providerMessagesCacheMode = .append ∧
      s.providerMessagesCacheLen < s.messages.length then
    { p with
      session := s.updateProviderCache toVec
      memoryProfileCache := p.countPushed sizes (s.messages.drop s.providerMessagesCacheLen) }
  else p

def stripTranscriptForRemoteClient (p : Profiled) : Profiled :=
  let cleared : Session :=
    { p.session with
      messages := []
      compaction := none
      envSnapshots := []
      memoryInjections := []
      replayEvents := [] }
  let p := { p with session := cleared }.rebuildMemoryProfileCache sizes
  { p with
    session := cleared.resetProviderMessagesCache.resetPersistState true
    memoryProfileCache := p.memoryProfileCache.resetProviderMessagesCache }

/-- A loaded session has counted nothing. -/
def ofLoaded (s : Session) : Profiled := ⟨s, default, true⟩

/-- The vectors of a created session are empty. -/
def ofCreated (s : Session) : Profiled := ⟨s, default, false⟩

end Profiled

end

/-! ### The sessions are those of the mutations -/

theorem Session.stripOversizedImages_of_zero {s : Session} {target : ℕ}
    (h : (stripLargeImagesInContents (s.messages.map (·.content)) target).1 = 0) :
    s.stripOversizedImages target = s := by
  unfold stripOversizedImages
  dsimp only
  rw [if_neg (h ▸ Nat.lt_irrefl 0), stripLargeImagesInContents_of_zero h, zipWith_content]

namespace Profiled

section
variable {sizes : JsonBytes} {p p' : Profiled}

/-- **The counters are kept beside the session.**  A mutation does to the session what it does
without them. -/
theorem session_mutate (m : Mutation) :
    (p.mutate sizes m).map session = m.apply p.session := by
  cases m with
  | insertMessage index message =>
      rw [mutate, insertMessage, Option.map_map]
      exact Option.map_id' ..
  | truncateMessages len =>
      simp only [mutate, Mutation.apply, truncateMessages, Session.truncateMessages]
      split <;> rfl
  | removeToolUseBlocks messageId =>
      simp only [mutate, Mutation.apply, removeToolUseBlocks, Session.removeToolUseBlocks]
      cases p.session.messages.findIdx? (fun m => m.id == messageId) <;> rfl
  | stripOversizedImages target =>
      simp only [mutate, Mutation.apply, stripOversizedImages]
      split
      · rfl
      · rw [Session.stripOversizedImages_of_zero (Nat.eq_zero_of_not_pos ‹_›)]
        rfl
  | refreshInitialSessionContextMessage wrapped =>
      simp only [mutate, Mutation.apply, refreshInitialSessionContextMessage,
        Session.refreshInitialSessionContextMessage]
      split
      · rfl
      · cases p.session.messages.findIdx? (fun m => m.content.any Session.isContextBlock) with
        | none => rfl
        | some i =>
            dsimp only
            cases p.session.messages[i]?.bind fun m => m.content.find? Session.isContextBlock with
            | none => rfl
            | some block =>
                dsimp only
                split <;> rfl
  | recordSwarmStatusEvent members now =>
      simp only [mutate, Mutation.apply, pushNewReplayEvent, Session.recordSwarmStatusEvent,
        Session.pushNewReplayEvent]
      split <;> rfl
  | recordSwarmPlanEvent swarmId version items participants reason now =>
      simp only [mutate, Mutation.apply, pushNewReplayEvent, Session.recordSwarmPlanEvent,
        Session.pushNewReplayEvent]
      split <;> rfl
  | _ => rfl

end

end Profiled

/-! ### What counting does -/

section
variable (sizes : JsonBytes) (messages : List StoredMessage) (envSnapshots : List EnvSnapshot)
  (memoryInjections : List StoredMemoryInjection) (replayEvents : List StoredReplayEvent)
  (cache : List Message)

theorem profileOf_message (message : StoredMessage) :
    profileOf sizes (messages ++ [message]) envSnapshots memoryInjections replayEvents cache =
      (profileOf sizes messages envSnapshots memoryInjections replayEvents cache).countMessage
        sizes message := by
  simp [profileOf, SessionMemoryProfileCache.countMessage, summarizeMessageContent_concat]

theorem profileOf_envSnapshot (snapshot : EnvSnapshot) :
    profileOf sizes messages (envSnapshots ++ [snapshot]) memoryInjections replayEvents cache =
      (profileOf sizes messages envSnapshots memoryInjections replayEvents cache).countEnvSnapshot
        sizes snapshot := by
  simp [profileOf, SessionMemoryProfileCache.countEnvSnapshot]

theorem profileOf_memoryInjection (injection : StoredMemoryInjection) :
    profileOf sizes messages envSnapshots (memoryInjections ++ [injection]) replayEvents cache =
      (profileOf sizes messages envSnapshots memoryInjections replayEvents
        cache).countMemoryInjection sizes injection := by
  simp [profileOf, SessionMemoryProfileCache.countMemoryInjection]

theorem profileOf_replayEvent (event : StoredReplayEvent) :
    profileOf sizes messages envSnapshots memoryInjections (replayEvents ++ [event]) cache =
      (profileOf sizes messages envSnapshots memoryInjections replayEvents cache).countReplayEvent
        sizes event := by
  simp [profileOf, SessionMemoryProfileCache.countReplayEvent]

theorem profileOf_providerMessage (message : Message) :
    profileOf sizes messages envSnapshots memoryInjections replayEvents (cache ++ [message]) =
      (profileOf sizes messages envSnapshots memoryInjections replayEvents
        cache).countProviderMessage sizes message := by
  simp [profileOf, SessionMemoryProfileCache.countProviderMessage, summarizeMessageContent_concat]

/-- The messages pushed to the provider's cache. -/
theorem profileOf_pushed (pushed : List StoredMessage) :
    profileOf sizes messages envSnapshots memoryInjections replayEvents
        (cache ++ pushed.map StoredMessage.toMessage) =
      pushed.foldl (fun c m => c.countProviderMessage sizes m.toMessage)
        (profileOf sizes messages envSnapshots memoryInjections replayEvents cache) := by
  induction pushed using List.reverseRecOn with
  | nil => rw [List.map_nil, List.append_nil, List.foldl_nil]
  | append_singleton pushed m ih =>
      rw [List.map_append, ← List.append_assoc, List.map_singleton, profileOf_providerMessage, ih,
        List.foldl_append, List.foldl_cons, List.foldl_nil]

end

/-! ### The invariant -/

/-- Unless the flag is set, the counters are those of what the session holds. -/
def Profiled.Exact (sizes : JsonBytes) (p : Profiled) : Prop :=
  p.memoryProfileDirty = false → p.memoryProfileCache = p.session.memoryProfile sizes

/-- A snapshot of the memory tells what one of counters made anew would. -/
def Profiled.SnapshotExact (sizes : JsonBytes) (p : Profiled) : Prop :=
  (p.memoryProfileSnapshot sizes).1 =
    ((p.rebuildMemoryProfileCache sizes).memoryProfileSnapshot sizes).1

section
variable {sizes : JsonBytes} {toVec : Message → List UInt8} {p p' : Profiled}

theorem pushCacheEntries_fst (cache : List Message × List UInt64) (messages : List StoredMessage) :
    (pushCacheEntries toVec cache messages).1 =
      cache.1 ++ messages.map StoredMessage.toMessage := by
  induction messages generalizing cache with
  | nil => exact (List.append_nil _).symm
  | cons m messages ih =>
      exact (ih _).trans (List.append_assoc ..)

namespace Profiled

theorem Exact.of_dirty (h : p.memoryProfileDirty = true) : p.Exact sizes :=
  fun hclean => absurd (hclean.symm.trans h) Bool.false_ne_true

theorem Exact.snapshot (h : p.Exact sizes) : p.SnapshotExact sizes := by
  cases hdirty : p.memoryProfileDirty with
  | true =>
      rw [SnapshotExact, memoryProfileSnapshot, ensureMemoryProfileCache, if_pos hdirty]
      rfl
  | false =>
      have hsame : p.rebuildMemoryProfileCache sizes = p := by
        rw [rebuildMemoryProfileCache, ← h hdirty, ← hdirty]
      rw [SnapshotExact, hsame]

/-- An exact snapshot tells the number of messages the provider's cache holds. -/
theorem SnapshotExact.providerCacheCount (h : p.SnapshotExact sizes)
    (hdirty : p.memoryProfileDirty = false) :
    p.memoryProfileCache.providerCacheCount = p.session.providerMessagesCache.length := by
  have hensure : p.ensureMemoryProfileCache sizes = p := if_neg (by simp [hdirty])
  have hcount := congrArg SessionMemoryProfileSnapshot.providerCacheMessageCount h
  rwa [memoryProfileSnapshot, hensure] at hcount

/-- Where the vectors and the provider's cache stay, so does what there is to count. -/
theorem Exact.congr {s : Session} (h : p.Exact sizes)
    (hs : s.memoryProfile sizes = p.session.memoryProfile sizes) :
    Exact sizes { p with session := s } :=
  fun hclean => (h hclean).trans hs.symm

/-- **A mutation counts what it adds**, or sets the flag. -/
theorem Exact.mutate (h : p.Exact sizes) {m : Mutation} (hm : p.mutate sizes m = some p') :
    p'.Exact sizes := by
  have hreplay (now : DateTime) (kind : StoredReplayEventKind) :
      (p.pushReplayEvent sizes now kind).Exact sizes := by
    intro hclean
    exact (congrArg (·.countReplayEvent sizes ⟨now, kind⟩) (h hclean)).trans
      (profileOf_replayEvent ..).symm
  have hnew (now : DateTime) (kind : StoredReplayEventKind) :
      (p.pushNewReplayEvent sizes now kind).Exact sizes := by
    unfold pushNewReplayEvent
    split
    · exact h
    · exact hreplay now kind
  cases m with
  | appendStoredMessage message =>
      cases hm
      intro hclean
      exact (congrArg (·.countMessage sizes message) (h hclean)).trans (profileOf_message ..).symm
  | insertMessage index message =>
      obtain ⟨s, -, rfl⟩ := Option.map_eq_some_iff.mp hm
      exact .of_dirty rfl
  | replaceMessages messages =>
      cases hm
      exact .of_dirty rfl
  | truncateMessages len =>
      cases hm
      unfold truncateMessages
      split
      · exact .of_dirty rfl
      · exact h
  | removeToolUseBlocks messageId =>
      cases hm
      unfold removeToolUseBlocks
      split
      · exact .of_dirty rfl
      · exact h
  | stripOversizedImages target =>
      cases hm
      unfold stripOversizedImages
      dsimp only
      split
      · exact .of_dirty rfl
      · exact h
  | refreshInitialSessionContextMessage wrapped =>
      cases hm
      unfold refreshInitialSessionContextMessage
      split
      · exact h
      · split
        · exact h
        · split
          · exact h
          · split
            · exact h
            · exact .of_dirty rfl
  | recordEnvSnapshot snapshot =>
      cases hm
      intro hclean
      obtain ⟨hclean, hfew⟩ := Bool.or_eq_false_iff.mp hclean
      -- no snapshot is pushed out
      have hrecord : (p.session.recordEnvSnapshot snapshot).memoryProfile sizes =
          (p.session.memoryProfile sizes).countEnvSnapshot sizes snapshot := by
        unfold Session.recordEnvSnapshot
        dsimp only
        rw [if_neg (by simpa using hfew)]
        exact profileOf_envSnapshot ..
      exact (congrArg (·.countEnvSnapshot sizes snapshot) (h hclean)).trans hrecord.symm
  | recordMemoryInjection summary content count ageMs memoryIds now =>
      cases hm
      intro hclean
      refine Eq.trans ?_ (profileOf_memoryInjection ..).symm
      exact congrArg (SessionMemoryProfileCache.countMemoryInjection sizes _) (h hclean)
  | recordReplayDisplayMessage role title content now =>
      cases hm
      exact hreplay now _
  | recordSwarmStatusEvent members now =>
      cases hm
      exact hnew now _
  | recordSwarmPlanEvent swarmId version items participants reason now =>
      cases hm
      exact hnew now _
  | assign a =>
      cases hm
      exact h.congr (by cases a <;> rfl)

end Profiled

end

/-! ### Runs -/

/-- A step of the session, or a snapshot of its memory. -/
inductive ProfileEvent where
  | session (e : CacheEvent)
  | memoryProfileSnapshot

namespace Profiled

section
variable (sizes : JsonBytes) (toVec : Message → List UInt8) (lineLen : SessionJournalEntry → ℕ)

def step (p : Profiled) : ProfileEvent → Option Profiled
  | .session (.mutate m) => p.mutate sizes m
  | .session (.save now appendOk files) =>
      some { p with session := (p.session.save lineLen now appendOk files).1 }
  | .session (.load files) => (loadFromPath files).map ofLoaded
  | .session .stripTranscriptForRemoteClient => some (p.stripTranscriptForRemoteClient sizes)
  | .session .providerMessages => some (p.providerMessages sizes toVec)
  | .session .providerMessagePrefixHashes => some (p.providerMessages sizes toVec)
  | .memoryProfileSnapshot => some (p.memoryProfileSnapshot sizes).2

end

/-- The provider's cache is made anew over messages that are counted. -/
def recounts (p : Profiled) : Bool :=
  (p.session.providerMessagesCacheMode = .full ||
      p.session.messages.length < p.session.providerMessagesCacheLen) &&
    !p.memoryProfileDirty && !p.session.providerMessagesCache.isEmpty

/-- What keeps the counters: no read of the provider's messages counts them twice. -/
def Counted (p : Profiled) : ProfileEvent → Prop
  | .session .providerMessages => p.recounts = false
  | .session .providerMessagePrefixHashes => p.recounts = false
  | _ => True

instance (p : Profiled) : (e : ProfileEvent) → Decidable (p.Counted e)
  | .session .providerMessages => inferInstanceAs (Decidable (_ = _))
  | .session .providerMessagePrefixHashes => inferInstanceAs (Decidable (_ = _))
  | .session (.mutate _) => .isTrue trivial
  | .session (.save ..) => .isTrue trivial
  | .session (.load _) => .isTrue trivial
  | .session .stripTranscriptForRemoteClient => .isTrue trivial
  | .memoryProfileSnapshot => .isTrue trivial

/-- A run begins with a session that is created or loaded. -/
inductive Opened : Profiled → Prop where
  | created (host : Host) (id : String) (parentId title : Option String) :
      Opened (ofCreated (.createWithId host id parentId title))
  | loaded {files : Files} {s : Session} (h : loadFromPath files = some s) : Opened (ofLoaded s)

section
variable {sizes : JsonBytes} {toVec : Message → List UInt8} {lineLen : SessionJournalEntry → ℕ}
  {p p' : Profiled}

/-- The steps of the session are those it makes without counters. -/
theorem session_step {e : CacheEvent} (h : p.step sizes toVec lineLen (.session e) = some p') :
    cacheStep toVec lineLen p.session e = some p'.session := by
  have hread : (p.providerMessages sizes toVec).session =
      (p.session.providerMessages toVec).2 := by
    unfold providerMessages Session.providerMessages
    dsimp only
    split
    · rfl
    · split
      · rfl
      · rename_i hnot hnone
        rw [Session.updateProviderCache, if_neg hnot, if_neg hnone]
  cases e with
  | mutate m => rw [cacheStep, ← session_mutate, show p.mutate sizes m = some p' from h]; rfl
  | save now appendOk files => cases h; rfl
  | load files =>
      obtain ⟨s, hload, rfl⟩ := Option.map_eq_some_iff.mp h
      exact hload
  | stripTranscriptForRemoteClient => cases h; rfl
  | providerMessages =>
      cases h
      exact congrArg some hread.symm
  | providerMessagePrefixHashes =>
      cases h
      exact congrArg some hread.symm

theorem Opened.exact (h : Opened p) : p.Exact sizes := by
  cases h with
  | created => exact fun _ => rfl
  | loaded => exact .of_dirty rfl

/-- What there is to count once these messages are pushed to a cache. -/
theorem memoryProfile_setProviderCache (s : Session) (cache : List Message × List UInt64)
    (pushed : List StoredMessage) :
    (s.setProviderCache (pushCacheEntries toVec cache pushed)).memoryProfile sizes =
      pushed.foldl (fun c m => c.countProviderMessage sizes m.toMessage)
        (profileOf sizes s.messages s.envSnapshots s.memoryInjections s.replayEvents cache.1) := by
  rw [← profileOf_pushed, ← @pushCacheEntries_fst toVec]
  rfl

/-- **A read keeps the counters** unless it counts messages twice. -/
theorem Exact.providerMessages (h : p.Exact sizes) (hcounted : p.recounts = false) :
    (p.providerMessages sizes toVec).Exact sizes := by
  unfold Profiled.providerMessages
  dsimp only
  split
  · rename_i hfull
    intro hclean
    have hclean : p.memoryProfileDirty = false := hclean
    -- the cache that is made anew was empty
    have hempty : p.session.providerMessagesCache = [] := by
      simpa [recounts, hfull, hclean] using hcounted
    have hupdate : p.session.updateProviderCache toVec =
        p.session.setProviderCache (pushCacheEntries toVec ([], []) p.session.messages) :=
      if_pos hfull
    dsimp only
    rw [hupdate, memoryProfile_setProviderCache, countPushed, h hclean, Session.memoryProfile,
      hempty]
  · split
    · rename_i hnot happend
      intro hclean
      have hupdate : p.session.updateProviderCache toVec = _ :=
        (if_neg hnot).trans (if_pos happend)
      dsimp only
      rw [hupdate, memoryProfile_setProviderCache, countPushed, h hclean, Session.memoryProfile]
    · exact h

/-- A read that counts messages twice leaves more counted than the cache holds. -/
theorem providerCacheCount_of_recounts (h : p.Exact sizes) (hrecounts : p.recounts = true) :
    (p.providerMessages sizes toVec).memoryProfileDirty = false ∧
      (p.providerMessages sizes toVec).session.providerMessagesCache.length <
        (p.providerMessages sizes toVec).memoryProfileCache.providerCacheCount := by
  obtain ⟨⟨hfull, hclean⟩, hcached⟩ : (_ ∧ _) ∧ _ := by
    simpa [recounts] using hrecounts
  have hpushed (c : SessionMemoryProfileCache) (messages : List StoredMessage) :
      (messages.foldl (fun c m => c.countProviderMessage sizes m.toMessage)
        c).providerCacheCount = c.providerCacheCount + messages.length := by
    induction messages generalizing c with
    | nil => rfl
    | cons m messages ih =>
        rw [List.foldl_cons, ih, List.length_cons, Nat.add_comm messages.length, ← Nat.add_assoc]
        rfl
  have hupdate : p.session.updateProviderCache toVec =
      p.session.setProviderCache (pushCacheEntries toVec ([], []) p.session.messages) :=
    if_pos hfull
  have hread : p.providerMessages sizes toVec = _ := if_pos hfull
  rw [hread]
  refine ⟨hclean, ?_⟩
  dsimp only
  rw [hupdate, countPushed, hpushed, h hclean]
  have hold := List.length_pos_of_ne_nil hcached
  have hlen : (pushCacheEntries toVec ([], []) p.session.messages).1.length =
      p.session.messages.length := by
    rw [pushCacheEntries_fst, List.nil_append, List.length_map]
  exact (show _ < p.session.providerMessagesCache.length + _ from
    hlen ▸ Nat.lt_add_of_pos_left hold)

/-- A counted step keeps the counters. -/
theorem Exact.step {e : ProfileEvent} (h : p.Exact sizes)
    (hs : p.step sizes toVec lineLen e = some p') (hcounted : p.Counted e) : p'.Exact sizes := by
  cases e with
  | memoryProfileSnapshot =>
      cases hs
      rw [memoryProfileSnapshot]
      dsimp only
      unfold ensureMemoryProfileCache
      split
      · exact fun _ => rfl
      · exact h
  | session e =>
      cases e with
      | mutate m => exact h.mutate hs
      | save now appendOk files =>
          cases hs
          refine h.congr ?_
          rcases p.session.save_cases lineLen now appendOk files with ⟨-, hsave⟩ | ⟨-, hsave⟩
          · rw [hsave]
            rfl
          · rw [hsave]
            rfl
      | load files =>
          obtain ⟨s, -, rfl⟩ := Option.map_eq_some_iff.mp hs
          exact .of_dirty rfl
      | stripTranscriptForRemoteClient =>
          cases hs
          exact fun _ => rfl
      | providerMessages =>
          cases hs
          exact h.providerMessages hcounted
      | providerMessagePrefixHashes =>
          cases hs
          exact h.providerMessages hcounted

/-- A snapshot after a step that is not counted is wrong. -/
theorem SnapshotExact.counted {e : ProfileEvent} (h : p.Exact sizes)
    (hs : p.step sizes toVec lineLen e = some p') (hsnapshot : p'.SnapshotExact sizes) :
    p.Counted e := by
  have hread (hsnapshot : (p.providerMessages sizes toVec).SnapshotExact sizes) :
      p.recounts = false := by
    refine Bool.eq_false_iff.mpr fun hrecounts => ?_
    obtain ⟨hclean, hmore⟩ := @providerCacheCount_of_recounts sizes toVec p h hrecounts
    exact hmore.ne' (hsnapshot.providerCacheCount hclean)
  cases e with
  | memoryProfileSnapshot => trivial
  | session e =>
      cases e with
      | providerMessages =>
          cases hs
          exact hread hsnapshot
      | providerMessagePrefixHashes =>
          cases hs
          exact hread hsnapshot
      | _ => trivial

/-- **Counters are exact** as long as no read counts messages twice.  In a run every state gives a
snapshot equal to one of counters made anew if and only if no read of the provider's messages makes
their cache anew while it holds messages that are counted and no flag is set. -/
theorem memory_profile_snapshot_iff {ts : List (Transition Profiled ProfileEvent)}
    (opened : Opened p) (run : Run (Profiled.step sizes toVec lineLen) p ts p') :
    (∀ t ∈ ts, t.after.SnapshotExact sizes) ↔ ∀ t ∈ ts, t.before.Counted t.event := by
  constructor
  · intro hsnapshot t ht
    have hbefore : t.before.Exact sizes :=
      run.before_of (fun t ht hs h => h.step hs ((hsnapshot t ht).counted h hs)) opened.exact ht
    exact (hsnapshot t ht).counted hbefore (run.step_of_mem ht)
  · intro hcounted t ht
    have hbefore : t.before.Exact sizes :=
      run.before_of (fun t ht hs h => h.step hs (hcounted t ht)) opened.exact ht
    exact (hbefore.step (run.step_of_mem ht) (hcounted t ht)).snapshot

end

/-! ### Two runs -/

/-- The lengths of the JSON of messages of plain text, without times. -/
def plainBytes : JsonBytes where
  storedMessage m := (plainToVec m.toMessage).length + ("\"id\":\"" ++ m.id ++ "\",").utf8ByteSize
  message m := (plainToVec m).length
  envSnapshot _ := 0
  memoryInjection _ := 0
  replayEvent _ := 0
  compaction _ := 0

def foxProfile : Profiled := ofCreated fox.session

theorem opened_foxProfile : Opened foxProfile := .created _ _ _ _

/-- A prompt, its answer, and another answer in its place, which is read and counted. -/
def answered : List ProfileEvent := prompted.map .session ++ [.session .providerMessages]

theorem memory_profile_snapshot_iff_answered :
    ∃ ts p, Run (Profiled.step plainBytes plainToVec fun _ => 700) foxProfile ts p ∧
      ts.map Transition.event = answered ∧ p.session.providerMessagesCache.length = 2 ∧
      ∀ t ∈ ts, t.after.SnapshotExact plainBytes := by
  obtain ⟨ts, p, run, hevents, hobs⟩ := Run.of_observed
    (f := fun r : List (Transition Profiled ProfileEvent) × Profiled =>
      (r.1.all fun t => decide (t.before.Counted t.event),
        r.2.session.providerMessagesCache.length))
    (show (exec (Profiled.step plainBytes plainToVec fun _ => 700) foxProfile answered).map _ =
        some (true, 2) by
      decide +kernel)
  obtain ⟨hcounted, hlen⟩ := Prod.mk.inj hobs
  refine ⟨ts, p, run, hevents, hlen, (memory_profile_snapshot_iff opened_foxProfile run).mpr ?_⟩
  exact fun t ht => of_decide_eq_true (List.all_eq_true.mp hcounted t ht)

/-- The same answers, with a snapshot of the memory once the first one is gone. -/
def answeredWatched : List ProfileEvent :=
  (prompted.take 4).map .session ++ [.memoryProfileSnapshot] ++
    (prompted.drop 4).map .session ++ [.session .providerMessages]

/-- **Two messages are counted twice.**  The snapshot clears the flag that the truncation set, and
the next read makes the cache anew on top of the counters of the old one. -/
theorem providerCacheCount_doubled :
    ∃ ts p, Opened foxProfile ∧
      Run (Profiled.step plainBytes plainToVec fun _ => 700) foxProfile ts p ∧
      ts.map Transition.event = answeredWatched ∧
      (p.memoryProfileSnapshot plainBytes).1.providerCacheMessageCount = 4 ∧
      p.session.providerMessagesCache.length = 2 ∧ ¬ p.SnapshotExact plainBytes := by
  obtain ⟨ts, p, run, hevents, hobs⟩ := Run.of_observed
    (f := fun r : List (Transition Profiled ProfileEvent) × Profiled =>
      ((r.2.memoryProfileSnapshot plainBytes).1.providerCacheMessageCount,
        r.2.session.providerMessagesCache.length))
    (show (exec (Profiled.step plainBytes plainToVec fun _ => 700) foxProfile
        answeredWatched).map _ = some (4, 2) by
      decide +kernel)
  obtain ⟨hcounted, hlen⟩ := Prod.mk.inj hobs
  refine ⟨ts, p, opened_foxProfile, run, hevents, hcounted, hlen, fun hexact => ?_⟩
  have hcount := congrArg SessionMemoryProfileSnapshot.providerCacheMessageCount hexact
  exact absurd (hcounted.symm.trans (hcount.trans hlen)) (by decide)

end Profiled

end Jcode.History
