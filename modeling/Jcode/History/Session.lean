import Jcode.History.Types

/-!
# History — Session

The operations on a session in memory.  An operation on one of the four vectors marks it: `append`
when it only added items at the end, `full` when it changed what was there.  The marks on the
messages are shared by two readers, the next save and the cache of provider messages.
-/

namespace Jcode.History

open Chat

namespace Session

/-! ### Marks -/

def markMessagesAppendDirty (s : Session) : Session :=
  { s with
    persistState := { s.persistState with messagesMode := s.persistState.messagesMode.appended }
    providerMessagesCacheMode := s.providerMessagesCacheMode.appended }

def markMessagesFullDirty (s : Session) : Session :=
  { s with
    persistState := { s.persistState with messagesMode := .full }
    providerMessagesCacheMode := .full }

def markEnvSnapshotsAppendDirty (s : Session) : Session :=
  { s with persistState :=
      { s.persistState with envSnapshotsMode := s.persistState.envSnapshotsMode.appended } }

def markEnvSnapshotsFullDirty (s : Session) : Session :=
  { s with persistState := { s.persistState with envSnapshotsMode := .full } }

def markMemoryInjectionsAppendDirty (s : Session) : Session :=
  { s with persistState :=
      { s.persistState with memoryInjectionsMode := s.persistState.memoryInjectionsMode.appended } }

def markReplayEventsAppendDirty (s : Session) : Session :=
  { s with persistState :=
      { s.persistState with replayEventsMode := s.persistState.replayEventsMode.appended } }

/-! ### Messages -/

def appendStoredMessage (message : StoredMessage) (s : Session) : Session :=
  { s with messages := s.messages ++ [message] }.markMessagesAppendDirty

/-- The identifier and the time are the process's: `new_id("message")` and `Utc::now()`. -/
def addMessageExtWithDisplayRole (id : String) (now : DateTime) (role : Role)
    (content : List ContentBlock) (toolDurationMs : Option ℕ)
    (tokenUsage : Option StoredTokenUsage) (displayRole : Option StoredDisplayRole)
    (s : Session) : Session :=
  s.appendStoredMessage ⟨id, role, content, displayRole, some now, toolDurationMs, tokenUsage⟩

/-- An index past the end panics. -/
def insertMessage (index : ℕ) (message : StoredMessage) (s : Session) : Option Session :=
  if index ≤ s.messages.length then
    some { s with messages := s.messages.insertIdx index message }.markMessagesFullDirty
  else none

def replaceMessages (messages : List StoredMessage) (s : Session) : Session :=
  { s with messages := messages }.markMessagesFullDirty

def truncateMessages (len : ℕ) (s : Session) : Session :=
  if len < s.messages.length then
    { s with messages := s.messages.take len }.markMessagesFullDirty
  else s

def isToolUse : ContentBlock → Bool
  | .toolUse .. => true
  | _ => false

def dropToolUses (m : StoredMessage) : StoredMessage :=
  { m with content := m.content.filter fun block => !isToolUse block }

/-- The first message of that id loses its calls. -/
def removeToolUseBlocks (messageId : String) (s : Session) : Session :=
  match s.messages.findIdx? (fun m => m.id == messageId) with
  | some i => { s with messages := s.messages.modify i dropToolUses }.markMessagesFullDirty
  | none => s

/-! ### Images -/

/-- The payload of an image; other blocks have none. -/
def imageLen : ContentBlock → ℕ
  | .image _ data => data.utf8ByteSize
  | _ => 0

def omittedImage (mediaType data : String) : ContentBlock :=
  .text
    ("[Image omitted during request-size recovery: media_type=" ++ mediaType ++
      ", original_base64_chars=" ++ toString data.utf8ByteSize ++
      ". The request body exceeded the provider size limit; older images were dropped. " ++
      "Rely on adjacent browser/tool text, screenshots saved to disk, or " ++
      "re-open/re-screenshot if visual details are needed.]")
    none

/-- The images are met in transcript order and replaced while the total is over the target: the
total left, the number replaced, and the blocks. -/
def stripBlocks (target : ℕ) : ℕ × ℕ → List ContentBlock → (ℕ × ℕ) × List ContentBlock
  | acc, [] => (acc, [])
  | (total, stripped), block :: blocks =>
      match block with
      | .image mediaType data =>
          if total ≤ target then
            let (acc, rest) := stripBlocks target (total, stripped) blocks
            (acc, block :: rest)
          else
            let (acc, rest) :=
              stripBlocks target (total - data.utf8ByteSize, stripped + 1) blocks
            (acc, omittedImage mediaType data :: rest)
      | _ =>
          let (acc, rest) := stripBlocks target (total, stripped) blocks
          (acc, block :: rest)

def stripContents (target : ℕ) :
    ℕ × ℕ → List (List ContentBlock) → (ℕ × ℕ) × List (List ContentBlock)
  | acc, [] => (acc, [])
  | acc, content :: contents =>
      let (acc, content) := stripBlocks target acc content
      let (acc, rest) := stripContents target acc contents
      (acc, content :: rest)

/-- The number of images replaced, and the contents. -/
def stripLargeImagesInContents (contents : List (List ContentBlock)) (target : ℕ) :
    ℕ × List (List ContentBlock) :=
  let total := (contents.map fun content => (content.map imageLen).sum).sum
  if total ≤ target then (0, contents)
  else
    let (acc, contents) := stripContents target (total, 0) contents
    (acc.2, contents)

def stripOversizedImages (target : ℕ) (s : Session) : Session :=
  let (stripped, contents) := stripLargeImagesInContents (s.messages.map (·.content)) target
  let s := { s with messages :=
    s.messages.zipWith (fun m content => { m with content := content }) contents }
  if 0 < stripped then s.markMessagesFullDirty else s

/-! ### The session context -/

def isContextBlock : ContentBlock → Bool
  | .text text _ => SESSION_CONTEXT_PREFIX.toList.isPrefixOf text.toList
  | _ => false

def blockText? : ContentBlock → Option String
  | .text text _ => some text
  | _ => none

def isInternalSystemReminderMessage (m : StoredMessage) : Bool :=
  match m.content.findSome? blockText? with
  | some text =>
      "<system-reminder>".toList.isPrefixOf (text.toList.dropWhile Rust.isWhitespace)
  | none => false

def isVisibleConversationMessage (m : StoredMessage) : Bool :=
  m.displayRole.isNone && !isInternalSystemReminderMessage m

def setText (text : String) : ContentBlock → ContentBlock
  | .text _ cacheControl => .text text cacheControl
  | block => block

/-- The first context block of the message, rewritten. -/
def setContext (wrapped : String) (m : StoredMessage) : StoredMessage :=
  let index := m.content.findIdx isContextBlock
  { m with content := m.content.modify index (setText wrapped) }

/-- The context is rewritten in the first message that holds one, as long as no message of the
conversation is visible.  `wrapped` is the context built from the working directory. -/
def refreshInitialSessionContextMessage (wrapped : String) (s : Session) : Session :=
  if s.messages.any isVisibleConversationMessage then s
  else
    match s.messages.findIdx? (fun m => m.content.any isContextBlock) with
    | none => s
    | some i =>
        match s.messages[i]?.bind fun m => m.content.find? isContextBlock with
        | none => s
        | some block =>
            if blockText? block = some wrapped then s
            else
              { s with messages := s.messages.modify i (setContext wrapped) }.markMessagesFullDirty

/-! ### The other vectors -/

def recordEnvSnapshot (snapshot : EnvSnapshot) (s : Session) : Session :=
  let s := { s with envSnapshots := s.envSnapshots ++ [snapshot] }
  if MAX_ENV_SNAPSHOTS < s.envSnapshots.length then
    let excess := s.envSnapshots.length - MAX_ENV_SNAPSHOTS
    { s with envSnapshots := s.envSnapshots.drop excess }.markEnvSnapshotsFullDirty
  else s.markEnvSnapshotsAppendDirty

def recordMemoryInjection (summary content : String) (count ageMs : ℕ) (memoryIds : List String)
    (now : DateTime) (s : Session) : Session :=
  let injection : StoredMemoryInjection :=
    ⟨summary, content, count, memoryIds, some ageMs, some s.messages.length, now⟩
  { s with memoryInjections := s.memoryInjections ++ [injection] }.markMemoryInjectionsAppendDirty

def pushReplayEvent (now : DateTime) (kind : StoredReplayEventKind) (s : Session) : Session :=
  let event : StoredReplayEvent := ⟨now, kind⟩
  { s with replayEvents := s.replayEvents ++ [event] }.markReplayEventsAppendDirty

def recordReplayDisplayMessage (role : String) (title : Option String) (content : String)
    (now : DateTime) (s : Session) : Session :=
  s.pushReplayEvent now (.displayMessage role title content)

/-- A status or a plan that the last event already shows is not recorded again. -/
def pushNewReplayEvent (now : DateTime) (kind : StoredReplayEventKind) (s : Session) : Session :=
  if s.replayEvents.getLast?.map (·.kind) = some kind then s else s.pushReplayEvent now kind

def recordSwarmStatusEvent (members : List Value) (now : DateTime) (s : Session) : Session :=
  s.pushNewReplayEvent now (.swarmStatus members)

def recordSwarmPlanEvent (swarmId : String) (version : ℕ) (items : List Value)
    (participants : List String) (reason : Option String) (now : DateTime) (s : Session) :
    Session :=
  s.pushNewReplayEvent now (.swarmPlan swarmId version items participants reason)

end Session

/-! ### Assignments -/

/-- The assignment of one field that is not a vector. -/
inductive Assignment where
  | id (value : String)
  | parentId (value : Option String)
  | title (value : Option String)
  | customTitle (value : Option String)
  | createdAt (value : DateTime)
  | updatedAt (value : DateTime)
  | compaction (value : Option StoredCompactionState)
  | providerSessionId (value : Option String)
  | providerKey (value : Option String)
  | model (value : Option String)
  | routeApiMethod (value : Option String)
  | reasoningEffort (value : Option String)
  | subagentModel (value : Option String)
  | improveMode (value : Option SessionImproveMode)
  | autoreviewEnabled (value : Option Bool)
  | autojudgeEnabled (value : Option Bool)
  | isCanary (value : Bool)
  | testingBuild (value : Option String)
  | workingDir (value : Option String)
  | shortName (value : Option String)
  | status (value : SessionStatus)
  | lastPid (value : Option ℕ)
  | lastActiveAt (value : Option DateTime)
  | isDebug (value : Bool)
  | saved (value : Bool)
  | saveLabel (value : Option String)
  deriving DecidableEq, Repr

def Saved.assign (s : Saved) : Assignment → Saved
  | .id value => { s with id := value }
  | .parentId value => { s with parentId := value }
  | .title value => { s with title := value }
  | .customTitle value => { s with customTitle := value }
  | .createdAt value => { s with createdAt := value }
  | .updatedAt value => { s with updatedAt := value }
  | .compaction value => { s with compaction := value }
  | .providerSessionId value => { s with providerSessionId := value }
  | .providerKey value => { s with providerKey := value }
  | .model value => { s with model := value }
  | .routeApiMethod value => { s with routeApiMethod := value }
  | .reasoningEffort value => { s with reasoningEffort := value }
  | .subagentModel value => { s with subagentModel := value }
  | .improveMode value => { s with improveMode := value }
  | .autoreviewEnabled value => { s with autoreviewEnabled := value }
  | .autojudgeEnabled value => { s with autojudgeEnabled := value }
  | .isCanary value => { s with isCanary := value }
  | .testingBuild value => { s with testingBuild := value }
  | .workingDir value => { s with workingDir := value }
  | .shortName value => { s with shortName := value }
  | .status value => { s with status := value }
  | .lastPid value => { s with lastPid := value }
  | .lastActiveAt value => { s with lastActiveAt := value }
  | .isDebug value => { s with isDebug := value }
  | .saved value => { s with saved := value }
  | .saveLabel value => { s with saveLabel := value }

def Session.assign (a : Assignment) (s : Session) : Session :=
  { s with toSaved := s.toSaved.assign a }

/-! ### Mutations -/

/-- A mutation of a session, with the times and identifiers the process gives it. -/
inductive Mutation where
  | appendStoredMessage (message : StoredMessage)
  | insertMessage (index : ℕ) (message : StoredMessage)
  | replaceMessages (messages : List StoredMessage)
  | truncateMessages (len : ℕ)
  | removeToolUseBlocks (messageId : String)
  | stripOversizedImages (targetTotalChars : ℕ)
  | refreshInitialSessionContextMessage (wrapped : String)
  | recordEnvSnapshot (snapshot : EnvSnapshot)
  | recordMemoryInjection (summary content : String) (count ageMs : ℕ) (memoryIds : List String)
      (now : DateTime)
  | recordReplayDisplayMessage (role : String) (title : Option String) (content : String)
      (now : DateTime)
  | recordSwarmStatusEvent (members : List Value) (now : DateTime)
  | recordSwarmPlanEvent (swarmId : String) (version : ℕ) (items : List Value)
      (participants : List String) (reason : Option String) (now : DateTime)
  | assign (a : Assignment)
  deriving DecidableEq, Repr

/-- The session after a mutation, unless it panics. -/
def Mutation.apply (s : Session) : Mutation → Option Session
  | .appendStoredMessage message => some (s.appendStoredMessage message)
  | .insertMessage index message => s.insertMessage index message
  | .replaceMessages messages => some (s.replaceMessages messages)
  | .truncateMessages len => some (s.truncateMessages len)
  | .removeToolUseBlocks messageId => some (s.removeToolUseBlocks messageId)
  | .stripOversizedImages target => some (s.stripOversizedImages target)
  | .refreshInitialSessionContextMessage wrapped =>
      some (s.refreshInitialSessionContextMessage wrapped)
  | .recordEnvSnapshot snapshot => some (s.recordEnvSnapshot snapshot)
  | .recordMemoryInjection summary content count ageMs memoryIds now =>
      some (s.recordMemoryInjection summary content count ageMs memoryIds now)
  | .recordReplayDisplayMessage role title content now =>
      some (s.recordReplayDisplayMessage role title content now)
  | .recordSwarmStatusEvent members now => some (s.recordSwarmStatusEvent members now)
  | .recordSwarmPlanEvent swarmId version items participants reason now =>
      some (s.recordSwarmPlanEvent swarmId version items participants reason now)
  | .assign a => some (s.assign a)

/-! ### What a mutation can do -/

/-- What a mutation changes: each vector together with its marks, and nothing of what the process
remembers about the files and the cache. -/
structure Touches (s s' : Session) : Prop where
  messages : Mirror.Change s.messages s.persistState.messagesMode
    s'.messages s'.persistState.messagesMode
  provider : Mirror.Change s.messages s.providerMessagesCacheMode
    s'.messages s'.providerMessagesCacheMode
  envSnapshots : Mirror.Change s.envSnapshots s.persistState.envSnapshotsMode
    s'.envSnapshots s'.persistState.envSnapshotsMode
  memoryInjections : Mirror.Change s.memoryInjections s.persistState.memoryInjectionsMode
    s'.memoryInjections s'.persistState.memoryInjectionsMode
  replayEvents : Mirror.Change s.replayEvents s.persistState.replayEventsMode
    s'.replayEvents s'.persistState.replayEventsMode
  snapshotExists : s'.persistState.snapshotExists = s.persistState.snapshotExists
  messagesLen : s'.persistState.messagesLen = s.persistState.messagesLen
  envSnapshotsLen : s'.persistState.envSnapshotsLen = s.persistState.envSnapshotsLen
  memoryInjectionsLen : s'.persistState.memoryInjectionsLen = s.persistState.memoryInjectionsLen
  replayEventsLen : s'.persistState.replayEventsLen = s.persistState.replayEventsLen
  cache : s'.providerMessagesCache = s.providerMessagesCache
  hashes : s'.providerMessagePrefixHashesCache = s.providerMessagePrefixHashesCache
  cacheLen : s'.providerMessagesCacheLen = s.providerMessagesCacheLen

namespace Touches
variable (s : Session)

protected theorem refl : Touches s s :=
  ⟨.kept, .kept, .kept, .kept, .kept, rfl, rfl, rfl, rfl, rfl, rfl, rfl, rfl⟩

theorem editMessages (messages : List StoredMessage) :
    Touches s { s with messages := messages }.markMessagesFullDirty :=
  ⟨.edited _, .edited _, .kept, .kept, .kept, rfl, rfl, rfl, rfl, rfl, rfl, rfl, rfl⟩

theorem appendStoredMessage (message : StoredMessage) :
    Touches s (s.appendStoredMessage message) :=
  ⟨.pushed _, .pushed _, .kept, .kept, .kept, rfl, rfl, rfl, rfl, rfl, rfl, rfl, rfl⟩

theorem recordEnvSnapshot (snapshot : EnvSnapshot) : Touches s (s.recordEnvSnapshot snapshot) := by
  unfold Session.recordEnvSnapshot
  dsimp only
  split
  · exact ⟨.kept, .kept, .edited _, .kept, .kept, rfl, rfl, rfl, rfl, rfl, rfl, rfl, rfl⟩
  · exact ⟨.kept, .kept, .pushed _, .kept, .kept, rfl, rfl, rfl, rfl, rfl, rfl, rfl, rfl⟩

theorem recordMemoryInjection (summary content : String) (count ageMs : ℕ)
    (memoryIds : List String) (now : DateTime) :
    Touches s (s.recordMemoryInjection summary content count ageMs memoryIds now) :=
  ⟨.kept, .kept, .kept, .pushed _, .kept, rfl, rfl, rfl, rfl, rfl, rfl, rfl, rfl⟩

theorem pushReplayEvent (now : DateTime) (kind : StoredReplayEventKind) :
    Touches s (s.pushReplayEvent now kind) :=
  ⟨.kept, .kept, .kept, .kept, .pushed _, rfl, rfl, rfl, rfl, rfl, rfl, rfl, rfl⟩

theorem pushNewReplayEvent (now : DateTime) (kind : StoredReplayEventKind) :
    Touches s (s.pushNewReplayEvent now kind) := by
  unfold Session.pushNewReplayEvent
  split
  · exact .refl s
  · exact .pushReplayEvent s now kind

theorem removeToolUseBlocks (messageId : String) : Touches s (s.removeToolUseBlocks messageId) := by
  unfold Session.removeToolUseBlocks
  split
  · exact .editMessages s _
  · exact .refl s

theorem truncateMessages (len : ℕ) : Touches s (s.truncateMessages len) := by
  unfold Session.truncateMessages
  split
  · exact .editMessages s _
  · exact .refl s

theorem refreshInitialSessionContextMessage (wrapped : String) :
    Touches s (s.refreshInitialSessionContextMessage wrapped) := by
  unfold Session.refreshInitialSessionContextMessage
  split
  · exact .refl s
  · split
    · exact .refl s
    · split
      · exact .refl s
      · split
        · exact .refl s
        · exact .editMessages s _

theorem assign (a : Assignment) : Touches s (s.assign a) := by
  cases a <;> exact ⟨.kept, .kept, .kept, .kept, .kept, rfl, rfl, rfl, rfl, rfl, rfl, rfl, rfl⟩

end Touches

namespace Session

/-- The count of replaced images only grows, and blocks of which none was replaced are as they
were. -/
theorem stripBlocks_spec (target total stripped : ℕ) (blocks : List ContentBlock) :
    stripped ≤ (stripBlocks target (total, stripped) blocks).1.2 ∧
      ((stripBlocks target (total, stripped) blocks).1.2 = stripped →
        (stripBlocks target (total, stripped) blocks).2 = blocks) := by
  induction blocks generalizing total stripped with
  | nil => exact ⟨le_rfl, fun _ => rfl⟩
  | cons block blocks ih =>
      have keep := ih total stripped
      cases block with
      | image mediaType data =>
          rw [stripBlocks]
          split
          · exact ⟨keep.1, fun he => congrArg _ (keep.2 he)⟩
          · have hgrow := (ih (total - data.utf8ByteSize) (stripped + 1)).1
            exact ⟨(Nat.le_succ _).trans hgrow,
              fun he => absurd (hgrow.trans_eq he) (Nat.not_succ_le_self _)⟩
      | _ => exact ⟨keep.1, fun he => congrArg _ (keep.2 he)⟩

theorem stripContents_spec (target total stripped : ℕ) (contents : List (List ContentBlock)) :
    stripped ≤ (stripContents target (total, stripped) contents).1.2 ∧
      ((stripContents target (total, stripped) contents).1.2 = stripped →
        (stripContents target (total, stripped) contents).2 = contents) := by
  induction contents generalizing total stripped with
  | nil => exact ⟨le_rfl, fun _ => rfl⟩
  | cons content contents ih =>
      obtain ⟨hblocks, hsame⟩ := stripBlocks_spec target total stripped content
      rw [stripContents]
      generalize stripBlocks target (total, stripped) content = r at hblocks hsame
      obtain ⟨⟨left, count⟩, blocks⟩ := r
      obtain ⟨hgrow, hkept⟩ := ih left count
      refine ⟨hblocks.trans hgrow, fun he => ?_⟩
      -- no image of the rest was replaced, so none of this content was
      have hcount : count = stripped := le_antisymm (hgrow.trans_eq he) hblocks
      exact congrArg₂ List.cons (hsame hcount) (hkept (he.trans hcount.symm))

/-- When no image was replaced the contents are as they were. -/
theorem stripLargeImagesInContents_of_zero {contents : List (List ContentBlock)} {target : ℕ}
    (h : (stripLargeImagesInContents contents target).1 = 0) :
    (stripLargeImagesInContents contents target).2 = contents := by
  unfold stripLargeImagesInContents at h ⊢
  dsimp only at h ⊢
  split at h
  · rw [if_pos ‹_›]
  · rw [if_neg ‹_›]
    exact (stripContents_spec target _ 0 contents).2 h

theorem zipWith_content (messages : List StoredMessage) :
    messages.zipWith (fun m content => { m with content := content })
      (messages.map (·.content)) = messages := by
  induction messages with
  | nil => rfl
  | cons m messages ih => exact congrArg (m :: ·) ih

end Session

namespace Touches
variable {s s' : Session}

theorem stripOversizedImages (s : Session) (target : ℕ) :
    Touches s (s.stripOversizedImages target) := by
  unfold Session.stripOversizedImages
  have hzero := @Session.stripLargeImagesInContents_of_zero (s.messages.map (·.content)) target
  generalize Session.stripLargeImagesInContents (s.messages.map (·.content)) target = r at hzero
  obtain ⟨stripped, contents⟩ := r
  dsimp only at hzero ⊢
  split
  · exact .editMessages s _
  · rw [hzero (Nat.eq_zero_of_not_pos ‹_›), Session.zipWith_content]
    exact .refl s

/-- **Every mutation marks what it changes.** -/
theorem of_mutation {m : Mutation} (h : m.apply s = some s') : Touches s s' := by
  cases m with
  | appendStoredMessage message => cases h; exact .appendStoredMessage s message
  | insertMessage index message =>
      rw [Mutation.apply, Session.insertMessage] at h
      split at h <;> cases h
      exact .editMessages s _
  | replaceMessages messages => cases h; exact .editMessages s messages
  | truncateMessages len => cases h; exact .truncateMessages s len
  | removeToolUseBlocks messageId => cases h; exact .removeToolUseBlocks s messageId
  | stripOversizedImages target => cases h; exact .stripOversizedImages s target
  | refreshInitialSessionContextMessage wrapped =>
      cases h; exact .refreshInitialSessionContextMessage s wrapped
  | recordEnvSnapshot snapshot => cases h; exact .recordEnvSnapshot s snapshot
  | recordMemoryInjection summary content count ageMs memoryIds now =>
      cases h; exact .recordMemoryInjection s summary content count ageMs memoryIds now
  | recordReplayDisplayMessage role title content now => cases h; exact .pushReplayEvent s now _
  | recordSwarmStatusEvent members now => cases h; exact .pushNewReplayEvent s now _
  | recordSwarmPlanEvent swarmId version items participants reason now =>
      cases h; exact .pushNewReplayEvent s now _
  | assign a => cases h; exact .assign s a

end Touches

end Jcode.History
