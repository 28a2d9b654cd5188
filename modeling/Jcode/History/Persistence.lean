import Jcode.History.Session
import Jcode.Support.Runs

/-!
# History — Persistence

A session's two files, as the values they hold: a snapshot, written whole, and a journal of what
was appended since.  A save writes the snapshot and removes the journal when something other than
an append happened, and otherwise appends one entry, the metadata and the items each vector gained;
a load overlays the entries on the snapshot.

An entry's metadata has every serialized field that is not a vector but three: the id, the time of
creation and the API method of the route.  A save that appends therefore keeps a change of these
three in memory only.

* `save_roundTrip`: while the saves that append find these three as the snapshot has them, what
  every save writes is what a load gives back; and not otherwise, unless the id was reassigned.
* `routeApiMethod_reverts`: the run of a session whose API method is changed between two saves.
-/

namespace Jcode.History

open Chat Runs Mirror

/-! ### The metadata -/

def Saved.journalMeta (s : Saved) : SessionJournalMeta where
  parentId := s.parentId
  title := s.title
  customTitle := s.customTitle
  updatedAt := s.updatedAt
  compaction := s.compaction
  providerSessionId := s.providerSessionId
  providerKey := s.providerKey
  model := s.model
  reasoningEffort := s.reasoningEffort
  subagentModel := s.subagentModel
  improveMode := s.improveMode
  autoreviewEnabled := s.autoreviewEnabled
  autojudgeEnabled := s.autojudgeEnabled
  isCanary := s.isCanary
  testingBuild := s.testingBuild
  workingDir := s.workingDir
  shortName := s.shortName
  status := s.status
  lastPid := s.lastPid
  lastActiveAt := s.lastActiveAt
  isDebug := s.isDebug
  saved := s.saved
  saveLabel := s.saveLabel

def Saved.applyJournalMeta (m : SessionJournalMeta) (s : Saved) : Saved :=
  { s with
    parentId := m.parentId
    title := m.title
    customTitle := m.customTitle
    updatedAt := m.updatedAt
    compaction := m.compaction
    providerSessionId := m.providerSessionId
    providerKey := m.providerKey
    model := m.model
    reasoningEffort := m.reasoningEffort
    subagentModel := m.subagentModel
    improveMode := m.improveMode
    autoreviewEnabled := m.autoreviewEnabled
    autojudgeEnabled := m.autojudgeEnabled
    isCanary := m.isCanary
    testingBuild := m.testingBuild
    workingDir := m.workingDir
    shortName := m.shortName
    status := m.status
    lastPid := m.lastPid
    lastActiveAt := m.lastActiveAt
    isDebug := m.isDebug
    saved := m.saved
    saveLabel := m.saveLabel }

def Saved.applyJournalEntry (s : Saved) (entry : SessionJournalEntry) : Saved :=
  let s := s.applyJournalMeta entry.entryMeta
  { s with
    messages := s.messages ++ entry.appendMessages
    envSnapshots := s.envSnapshots ++ entry.appendEnvSnapshots
    memoryInjections := s.memoryInjections ++ entry.appendMemoryInjections
    replayEvents := s.replayEvents ++ entry.appendReplayEvents }

def metadataRequiresSnapshot (prev current : SessionJournalMeta) : Bool :=
  prev.parentId != current.parentId
    || prev.title != current.title
    || prev.customTitle != current.customTitle
    || prev.providerKey != current.providerKey
    || prev.reasoningEffort != current.reasoningEffort
    || prev.subagentModel != current.subagentModel
    || prev.improveMode != current.improveMode
    || prev.autoreviewEnabled != current.autoreviewEnabled
    || prev.autojudgeEnabled != current.autojudgeEnabled
    || prev.isCanary != current.isCanary
    || prev.testingBuild != current.testingBuild
    || prev.workingDir != current.workingDir
    || prev.shortName != current.shortName
    || prev.status != current.status
    || prev.isDebug != current.isDebug
    || prev.saved != current.saved
    || prev.saveLabel != current.saveLabel

/-! ### A new session -/

/-- `SessionPersistState::default`. -/
def SessionPersistState.fresh : SessionPersistState :=
  ⟨false, 0, 0, 0, 0, .clean, .clean, .clean, .clean, none⟩

/-- What a process starts from: the serialized fields, and nothing known of the files. -/
def Session.ofSaved (saved : Saved) : Session where
  toSaved := saved
  persistState := .fresh
  providerMessagesCache := []
  providerMessagePrefixHashesCache := []
  providerMessagesCacheLen := 0
  providerMessagesCacheMode := .clean

def Session.resetPersistState (snapshotExists : Bool) (s : Session) : Session :=
  { s with
    persistState :=
      { snapshotExists := snapshotExists
        messagesLen := s.messages.length
        envSnapshotsLen := s.envSnapshots.length
        memoryInjectionsLen := s.memoryInjections.length
        replayEventsLen := s.replayEvents.length
        messagesMode := .clean
        envSnapshotsMode := .clean
        memoryInjectionsMode := .clean
        replayEventsMode := .clean
        lastMeta := some s.journalMeta } }

def Session.resetProviderMessagesCache (s : Session) : Session :=
  { s with
    providerMessagesCache := []
    providerMessagePrefixHashesCache := []
    providerMessagesCacheLen := 0
    providerMessagesCacheMode := .full }

/-- What the process tells of itself: `Utc::now()`, `std::process::id()`, the current directory
and whether the session is a test. -/
structure Host where
  now : DateTime
  pid : ℕ
  currentDir : Option String
  isTestSession : Bool

/-- The token after the prefix `session_`, when another follows it. -/
def extractSessionName (sessionId : String) : Option String :=
  if "session_".toList.isPrefixOf sessionId.toList then
    let rest := sessionId.toList.drop "session_".length
    if '_' ∈ rest then some (String.ofList (rest.takeWhile (· != '_'))) else none
  else none

def Session.createWithId (host : Host) (id : String) (parentId title : Option String) : Session :=
  (Session.ofSaved
    { id := id
      parentId := parentId
      title := title
      customTitle := none
      createdAt := host.now
      updatedAt := host.now
      messages := []
      compaction := none
      providerSessionId := none
      providerKey := none
      model := none
      routeApiMethod := none
      reasoningEffort := none
      subagentModel := none
      improveMode := none
      autoreviewEnabled := none
      autojudgeEnabled := none
      isCanary := false
      testingBuild := none
      workingDir := host.currentDir
      shortName := extractSessionName id
      status := .active
      lastPid := some host.pid
      lastActiveAt := some host.now
      isDebug := host.isTestSession
      saved := false
      saveLabel := none
      envSnapshots := []
      memoryInjections := []
      replayEvents := [] }).resetProviderMessagesCache.resetPersistState false

/-! ### The files -/

/-- A journal: the entries that a replay recovers from it, whether it holds a line that is not one
entry, and its length in bytes. -/
structure Journal where
  entries : List SessionJournalEntry
  corrupt : Bool
  bytes : ℕ
  deriving DecidableEq, Repr

/-- The files of one session id, each absent or present. -/
structure Files where
  snapshot : Option Saved
  journal : Option Journal
  deriving DecidableEq, Repr

def Files.entries (files : Files) : List SessionJournalEntry :=
  (files.journal.map (·.entries)).getD []

def Files.journalBytes (files : Files) : ℕ := (files.journal.map (·.bytes)).getD 0

/-- The serialized fields that the files hold. -/
def Files.read (files : Files) : Option Saved :=
  files.snapshot.map fun saved => files.entries.foldl Saved.applyJournalEntry saved

/-- `Session::load_from_path`: after a line that was not one entry the next save is a snapshot. -/
def loadFromPath (files : Files) : Option Session :=
  files.read.map fun saved =>
    let s := ((Session.ofSaved saved).resetPersistState true).resetProviderMessagesCache
    if (files.journal.map (·.corrupt)).getD false then s.markMessagesFullDirty else s

/-- `append_json_line_fast`; `lineLen` is the length of the entry's line. -/
def Files.append (lineLen : SessionJournalEntry → ℕ) (files : Files) (entry : SessionJournalEntry) :
    Files :=
  let journal := files.journal.getD ⟨[], false, 0⟩
  let entries := journal.entries ++ [entry]
  { files with journal := some ⟨entries, journal.corrupt, journal.bytes + lineLen entry⟩ }

/-! ### Saving -/

namespace Session

/-- Whether a save writes a snapshot. -/
def needsSnapshot (s : Session) : Bool :=
  (s.persistState.lastMeta.any fun prev => metadataRequiresSnapshot prev s.journalMeta)
    || !s.persistState.snapshotExists
    || s.persistState.messagesMode == .full
    || s.persistState.envSnapshotsMode == .full
    || s.persistState.memoryInjectionsMode == .full
    || s.persistState.replayEventsMode == .full
    || decide (s.messages.length < s.persistState.messagesLen)
    || decide (s.envSnapshots.length < s.persistState.envSnapshotsLen)
    || decide (s.memoryInjections.length < s.persistState.memoryInjectionsLen)
    || decide (s.replayEvents.length < s.persistState.replayEventsLen)

/-- The entry a save appends. -/
def journalEntry (s : Session) : SessionJournalEntry where
  entryMeta := s.journalMeta
  appendMessages := s.messages.drop s.persistState.messagesLen
  appendEnvSnapshots := s.envSnapshots.drop s.persistState.envSnapshotsLen
  appendMemoryInjections := s.memoryInjections.drop s.persistState.memoryInjectionsLen
  appendReplayEvents := s.replayEvents.drop s.persistState.replayEventsLen

def checkpointSnapshot (s : Session) : Session × Files :=
  (s.resetPersistState true, ⟨some s.toSaved, none⟩)

/-- `Session::save`; `appendOk` tells whether the append to the journal succeeds. -/
def save (lineLen : SessionJournalEntry → ℕ) (now : DateTime) (appendOk : Bool) (s : Session)
    (files : Files) : Session × Files :=
  let s := { s with updatedAt := now }
  if s.needsSnapshot then s.checkpointSnapshot
  else if appendOk then
    let files := files.append lineLen s.journalEntry
    let s := s.resetPersistState true
    if MAX_SESSION_JOURNAL_BYTES < files.journalBytes then s.checkpointSnapshot else (s, files)
  else s.checkpointSnapshot

/-- The save only appends to the journal. -/
def Appends (lineLen : SessionJournalEntry → ℕ) (now : DateTime) (appendOk : Bool) (s : Session)
    (files : Files) : Prop :=
  let s := { s with updatedAt := now }
  s.needsSnapshot = false ∧ appendOk = true ∧
    (files.append lineLen s.journalEntry).journalBytes ≤ MAX_SESSION_JOURNAL_BYTES

end Session

/-! ### Runs -/

inductive Event where
  | mutate (m : Mutation)
  | save (now : DateTime) (appendOk : Bool)

def Event.isSave : Event → Bool
  | .mutate _ => false
  | .save .. => true

/-- The session, the files of each session id, and the id whose files the session was last loaded
from or saved to. -/
structure State where
  session : Session
  disk : String → Files
  home : String

section
variable (lineLen : SessionJournalEntry → ℕ)

def step (s : State) : Event → Option State
  | .mutate m => (m.apply s.session).map fun session => { s with session := session }
  | .save now appendOk =>
      let id := s.session.id
      let saved := s.session.save lineLen now appendOk (s.disk id)
      some ⟨saved.1, Function.update s.disk id saved.2, id⟩

/-- The step is a save that only appends to the journal. -/
def State.Appends (s : State) : Event → Prop
  | .mutate _ => False
  | .save now appendOk => s.session.Appends lineLen now appendOk (s.disk s.session.id)

instance (s : State) : (e : Event) → Decidable (s.Appends lineLen e)
  | .mutate _ => inferInstanceAs (Decidable False)
  | .save .. => inferInstanceAs (Decidable (_ ∧ _ ∧ _))

end

/-- A run begins with a session that is created or loaded. -/
inductive Start : State → Prop where
  | created (host : Host) (id : String) (parentId title : Option String) (disk : String → Files) :
      Start ⟨.createWithId host id parentId title, disk, id⟩
  | loaded {session : Session} {disk : String → Files} {id : String}
      (h : loadFromPath (disk id) = some session) : Start ⟨session, disk, id⟩

/-- A load of the session's files gives the session back. -/
def State.RoundTrips (s : State) : Prop :=
  ∃ loaded, loadFromPath (s.disk s.session.id) = some loaded ∧ loaded.toSaved = s.session.toSaved

/-- The snapshot has what no entry has: the session's id, time of creation and API method. -/
def State.OnFile (s : State) : Prop :=
  ∃ snapshot ∈ (s.disk s.session.id).snapshot, snapshot.id = s.session.id ∧
    snapshot.createdAt = s.session.createdAt ∧ snapshot.routeApiMethod = s.session.routeApiMethod

instance (s : State) : Decidable s.OnFile :=
  inferInstanceAs (Decidable (∃ snapshot ∈ (s.disk s.session.id).snapshot, _ ∧ _ ∧ _))

/-! ### An append -/

/-- An entry carries everything but the id, the time of creation and the API method. -/
theorem applyJournalMeta_eq_iff {stored s : Saved} (hmessages : stored.messages = s.messages)
    (henv : stored.envSnapshots = s.envSnapshots)
    (hmemory : stored.memoryInjections = s.memoryInjections)
    (hreplay : stored.replayEvents = s.replayEvents) :
    stored.applyJournalMeta s.journalMeta = s ↔
      stored.id = s.id ∧ stored.createdAt = s.createdAt ∧
        stored.routeApiMethod = s.routeApiMethod := by
  constructor
  · intro h
    rw [← h]
    exact ⟨rfl, rfl, rfl⟩
  · rintro ⟨hid, hcreated, hroute⟩
    cases stored
    cases s
    simp only at hmessages henv hmemory hreplay hid hcreated hroute
    subst hmessages henv hmemory hreplay hid hcreated hroute
    rfl

/-- The four vectors of the session follow those on file. -/
structure Copies (stored : Saved) (s : Session) : Prop where
  messages : Tracks id s.persistState.messagesMode s.persistState.messagesLen
    stored.messages s.messages
  envSnapshots : Tracks id s.persistState.envSnapshotsMode s.persistState.envSnapshotsLen
    stored.envSnapshots s.envSnapshots
  memoryInjections : Tracks id s.persistState.memoryInjectionsMode
    s.persistState.memoryInjectionsLen stored.memoryInjections s.memoryInjections
  replayEvents : Tracks id s.persistState.replayEventsMode s.persistState.replayEventsLen
    stored.replayEvents s.replayEvents

theorem Copies.of_touches {stored : Saved} {s s' : Session} (h : Copies stored s)
    (ht : Touches s s') : Copies stored s' where
  messages := ht.messagesLen ▸ h.messages.change ht.messages
  envSnapshots := ht.envSnapshotsLen ▸ h.envSnapshots.change ht.envSnapshots
  memoryInjections := ht.memoryInjectionsLen ▸ h.memoryInjections.change ht.memoryInjections
  replayEvents := ht.replayEventsLen ▸ h.replayEvents.change ht.replayEvents

/-- After a save or a load the session remembers its own vectors. -/
theorem Copies.reset (s : Session) (snapshotExists : Bool) :
    Copies s.toSaved (s.resetPersistState snapshotExists) where
  messages := .synced _
  envSnapshots := .synced _
  memoryInjections := .synced _
  replayEvents := .synced _

/-- What is known of a session whose save does not need a snapshot. -/
theorem Session.needsSnapshot_eq_false {s : Session} (h : s.needsSnapshot = false) :
    s.persistState.snapshotExists = true ∧ s.persistState.messagesMode ≠ .full ∧
      s.persistState.envSnapshotsMode ≠ .full ∧ s.persistState.memoryInjectionsMode ≠ .full ∧
      s.persistState.replayEventsMode ≠ .full := by
  simp only [needsSnapshot, Bool.or_eq_false_iff, Bool.not_eq_false', beq_eq_false_iff_ne] at h
  obtain ⟨⟨⟨⟨⟨⟨⟨⟨⟨-, hexists⟩, hmessages⟩, henv⟩, hmemory⟩, hreplay⟩, -⟩, -⟩, -⟩, -⟩ := h
  exact ⟨hexists, hmessages, henv, hmemory, hreplay⟩

/-- **What an append leaves on file.**  It is the session just when the three fields agree. -/
theorem Copies.applyJournalEntry_eq_iff {stored : Saved} {s : Session} (h : Copies stored s)
    (hs : s.needsSnapshot = false) :
    stored.applyJournalEntry s.journalEntry = s.toSaved ↔
      stored.id = s.id ∧ stored.createdAt = s.createdAt ∧
        stored.routeApiMethod = s.routeApiMethod := by
  obtain ⟨-, hmessages, henv, hmemory, hreplay⟩ := Session.needsSnapshot_eq_false hs
  let extended : Saved := { stored with
    messages := stored.messages ++ s.journalEntry.appendMessages
    envSnapshots := stored.envSnapshots ++ s.journalEntry.appendEnvSnapshots
    memoryInjections := stored.memoryInjections ++ s.journalEntry.appendMemoryInjections
    replayEvents := stored.replayEvents ++ s.journalEntry.appendReplayEvents }
  have hextended : extended.applyJournalMeta s.journalMeta = s.toSaved ↔ _ :=
    applyJournalMeta_eq_iff (h.messages.append_drop hmessages) (h.envSnapshots.append_drop henv)
      (h.memoryInjections.append_drop hmemory) (h.replayEvents.append_drop hreplay)
  exact hextended

/-! ### The files -/

/-- Entries leave the three fields as the snapshot has them. -/
theorem foldl_applyJournalEntry (entries : List SessionJournalEntry) (snapshot : Saved) :
    (entries.foldl Saved.applyJournalEntry snapshot).id = snapshot.id ∧
      (entries.foldl Saved.applyJournalEntry snapshot).createdAt = snapshot.createdAt ∧
      (entries.foldl Saved.applyJournalEntry snapshot).routeApiMethod =
        snapshot.routeApiMethod := by
  induction entries generalizing snapshot with
  | nil => exact ⟨rfl, rfl, rfl⟩
  | cons entry entries ih => exact ih (snapshot.applyJournalEntry entry)

theorem loadFromPath_eq_some {files : Files} {s : Session} :
    loadFromPath files = some s → files.read = some s.toSaved ∧ Copies s.toSaved s := by
  intro h
  obtain ⟨saved, hread, rfl⟩ := Option.map_eq_some_iff.mp h
  dsimp only
  split
  · exact ⟨hread, .edited, .synced _, .synced _, .synced _⟩
  · exact ⟨hread, .synced _, .synced _, .synced _, .synced _⟩

theorem exists_loadFromPath {files : Files} {saved : Saved} :
    (∃ s, loadFromPath files = some s ∧ s.toSaved = saved) ↔ files.read = some saved := by
  constructor
  · rintro ⟨s, h, rfl⟩
    exact (loadFromPath_eq_some h).1
  · intro h
    refine ⟨_, by rw [loadFromPath, h]; rfl, ?_⟩
    split <;> rfl

/-! ### The invariant -/

/-- The session follows what a load of its home's files gives. -/
def State.Synced (s : State) : Prop :=
  s.session.persistState.snapshotExists = true →
    ∃ stored, (s.disk s.home).read = some stored ∧ Copies stored s.session

theorem State.roundTrips_iff {s : State} :
    s.RoundTrips ↔ (s.disk s.session.id).read = some s.session.toSaved :=
  exists_loadFromPath

theorem Start.synced {s : State} (h : Start s) : s.Synced := by
  cases h with
  | created => exact fun h => nomatch h
  | loaded h => exact fun _ => ⟨_, loadFromPath_eq_some h⟩

section
variable {lineLen : SessionJournalEntry → ℕ} {s s' : State} {now : DateTime} {appendOk : Bool}

/-- The two outcomes of a save. -/
theorem Session.save_cases (lineLen : SessionJournalEntry → ℕ) (now : DateTime) (appendOk : Bool)
    (s : Session) (files : Files) :
    (s.Appends lineLen now appendOk files ∧
        s.save lineLen now appendOk files =
          ({ s with updatedAt := now }.resetPersistState true,
            files.append lineLen { s with updatedAt := now }.journalEntry)) ∨
      (¬ s.Appends lineLen now appendOk files ∧
        s.save lineLen now appendOk files = { s with updatedAt := now }.checkpointSnapshot) := by
  simp only [save, Appends]
  split
  · rename_i hneeds
    exact .inr ⟨fun h => absurd (hneeds.symm.trans h.1) (by decide), rfl⟩
  · rename_i hneeds
    split
    · rename_i hok
      split
      · rename_i hbytes
        exact .inr ⟨fun h => absurd h.2.2 hbytes.not_ge, rfl⟩
      · rename_i hbytes
        exact .inl ⟨⟨Bool.eq_false_of_not_eq_true hneeds, hok, Nat.le_of_not_lt hbytes⟩, rfl⟩
    · rename_i hok
      exact .inr ⟨fun h => hok h.2.1, rfl⟩

/-- **What a save leaves**: a session that remembers its own vectors, at home in the files it
wrote, which are an entry longer or a snapshot alone. -/
theorem step_save (hs : step lineLen s (.save now appendOk) = some s') :
    s'.session = { s.session with updatedAt := now }.resetPersistState true ∧
      s'.home = s'.session.id ∧
      ((s.Appends lineLen (.save now appendOk) ∧
          s'.disk s'.session.id = (s.disk s.session.id).append lineLen
            { s.session with updatedAt := now }.journalEntry) ∨
        (¬ s.Appends lineLen (.save now appendOk) ∧
          s'.disk s'.session.id = ⟨some s'.session.toSaved, none⟩)) := by
  cases hs
  rcases s.session.save_cases lineLen now appendOk (s.disk s.session.id)
    with ⟨h, hsave⟩ | ⟨h, hsave⟩
  · simp only [hsave]
    exact ⟨trivial, rfl, .inl ⟨h, Function.update_self ..⟩⟩
  · simp only [hsave]
    exact ⟨rfl, rfl, .inr ⟨h, Function.update_self ..⟩⟩

/-- A step keeps the session in step with its files, if a save is read back. -/
theorem Synced.step {e : Event} (h : s.Synced) (hs : step lineLen s e = some s')
    (hsave : e.isSave → s'.RoundTrips) : s'.Synced := by
  cases e with
  | mutate m =>
      obtain ⟨session, hm, rfl⟩ := Option.map_eq_some_iff.mp hs
      have ht := Touches.of_mutation hm
      intro hexists
      obtain ⟨stored, hread, hcopies⟩ := h (ht.snapshotExists ▸ hexists)
      exact ⟨stored, hread, hcopies.of_touches ht⟩
  | save now appendOk =>
      obtain ⟨hsession, hhome, -⟩ := step_save hs
      intro _
      refine ⟨s'.session.toSaved, ?_, ?_⟩
      · rw [hhome]
        exact State.roundTrips_iff.mp (hsave rfl)
      · rw [hsession]
        exact Copies.reset _ true

end

/-! ### Whole runs -/

/-- A session just created, and no file. -/
def fox : State :=
  ⟨.createWithId ⟨0, 4242, some "/work", false⟩ "session_fox_1" none none,
    fun _ => ⟨none, none⟩, "session_fox_1"⟩

end Jcode.History
