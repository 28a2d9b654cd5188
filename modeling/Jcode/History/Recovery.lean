import Jcode.History.Persistence
import Jcode.Support.Text

/-!
# History — Recovery

`session/crash.rs`: the sessions that have crashed, as three scanners find them, and their recovery
into new sessions that keep the text.  A recovery session has the crashed one for its parent, and
that is how a scanner tells that a crash is handled.

The legacy scan reads the snapshots as text first, and parses only those that have one of two words
in quotation marks.  What quotation marks a snapshot's text has is a parameter, with what holds of
any JSON text.  The process ids that are registered as active are left out.
-/

namespace Jcode.History.Recovery
open Chat Rust

abbrev Disk := String → Files

/-! ### What a call finds -/

/-- What a call finds apart from the sessions' files. -/
structure Scan where
  /-- The directory, as `read_dir` lists it. -/
  listing : List String
  host : Host
  /-- `is_pid_running`. -/
  running : ℕ → Bool
  /-- Whether the session that is found crashed can be saved. -/
  saves : String → Bool
  lineLen : SessionJournalEntry → ℕ
  appendOk : Bool
  /-- `new_id("rec")`, one after the other. -/
  recId : ℕ → String
  /-- `new_id("message")`, by the number of messages before. -/
  messageId : ℕ → String
  /-- The time of a snapshot's file. -/
  modified : String → DateTime

def Scan.now (scan : Scan) : DateTime := scan.host.now

def Scan.newId (scan : Scan) (i : ℕ) : String := "session_recovery_" ++ scan.recId i

def second : ℤ := 1000000000

def hour : ℤ := 3600 * second

/-! ### Crashes -/

def isCrashed : SessionStatus → Bool
  | .crashed _ => true
  | _ => false

def isRecovery (id : String) : Bool := startsWith id "session_recovery_"

def Scan.detectCrash (scan : Scan) (s : Session) : Session × Bool :=
  if s.status ≠ .active then (s, false)
  else
    match s.lastPid with
    | some pid =>
        if scan.running pid then (s, false)
        else
          ({ s with status := .crashed (some
              s!"Process {pid} exited unexpectedly (no shutdown signal captured)") }, true)
    | none =>
        if 120 < Int.tdiv (scan.now - s.updatedAt) second then
          ({ s with status := .crashed (some
              "Stale active session (possible abrupt termination)") }, true)
        else (s, false)

/-- `Session::load`, and the save when a crash is detected. -/
def Scan.load (scan : Scan) (disk : Disk) (id : String) : Option (Session × Disk) :=
  (loadFromPath (disk id)).map fun session =>
    let detected := scan.detectCrash session
    let s := detected.1
    if detected.2 then
      if scan.saves s.id then
        let saved := s.save scan.lineLen scan.now scan.appendOk (disk s.id)
        (saved.1, Function.update disk s.id saved.2)
      else ({ s with updatedAt := scan.now }, disk)
    else (s, disk)

/-- The sessions of the directory that can be loaded. -/
def Scan.loadAll (scan : Scan) : List String → Disk → List Session × Disk
  | [], disk => ([], disk)
  | id :: ids, disk =>
      match scan.load disk id with
      | none => scan.loadAll ids disk
      | some loaded =>
          let rest := scan.loadAll ids loaded.2
          (loaded.1 :: rest.1, rest.2)

/-- The parents of the recovery sessions. -/
def recoveredParents (sessions : List Session) : List String :=
  sessions.filterMap fun s => if isRecovery s.id then s.parentId else none

/-- The crashed sessions that are not recovered. -/
def unrecovered (sessions : List Session) : List Session :=
  (sessions.filter fun s => isCrashed s.status).filter
    fun s => !(recoveredParents sessions).contains s.id

def crashTimestamp (s : Session) : DateTime := s.lastActiveAt.getD s.updatedAt

def RELEVANT_CRASH_GROUP_WINDOW_SECS : ℤ := 60

/-- The crashes of the last minute before the most recent one. -/
def retainRelevantCrashGroup (crashed : List Session) : List Session :=
  match (crashed.map crashTimestamp).max? with
  | none => crashed
  | some mostRecent =>
      crashed.filter fun s =>
        let delta := mostRecent - crashTimestamp s
        decide (0 ≤ delta ∧ delta ≤ RELEVANT_CRASH_GROUP_WINDOW_SECS * second)

/-- The most recent first. -/
def sortByCrash (crashed : List Session) : List Session :=
  crashed.mergeSort fun a b => decide (crashTimestamp b ≤ crashTimestamp a)

/-! ### Recovery -/

def displayName (shortName : Option String) (id : String) : String :=
  (shortName.orElse fun _ => extractSessionName id).getD id

def isText : ContentBlock → Bool
  | .text _ _ => true
  | _ => false

/-- `add_message`. -/
def Scan.addMessage (scan : Scan) (role : Role) (content : List ContentBlock) (s : Session) :
    Session :=
  s.addMessageExtWithDisplayRole (scan.messageId s.messages.length) scan.now role content none none
    none

/-- The texts of a message, if it has any. -/
def Scan.addTexts (scan : Scan) (s : Session) (msg : StoredMessage) : Session :=
  let keptBlocks := msg.content.filter isText
  if keptBlocks = [] then s else scan.addMessage msg.role keptBlocks s

/-- The new session, without its messages. -/
def Scan.recoveryHead (scan : Scan) (newId : String) (old : Session) : Session :=
  { Session.createWithId scan.host newId (some old.id) old.title with
    customTitle := old.customTitle
    workingDir := old.workingDir
    providerKey := old.providerKey
    routeApiMethod := old.routeApiMethod
    model := old.model
    improveMode := old.improveMode
    isCanary := old.isCanary
    isDebug := old.isDebug
    testingBuild := old.testingBuild
    saved := old.saved
    saveLabel := old.saveLabel
    providerSessionId := none
    status := .closed }

def recoveryHeader (old : Session) : String :=
  "Recovered from crashed session \x60" ++ old.id ++ "\x60 (" ++
    displayName old.shortName old.id ++ ")"

def Scan.recoverySession (scan : Scan) (newId : String) (old : Session) : Session :=
  old.messages.foldl scan.addTexts
    (scan.addMessage .user [.text (recoveryHeader old) none] (scan.recoveryHead newId old))

/-- The loop of `recover_loaded_crashed_sessions`, from the `i`-th session on. -/
def Scan.recoverFrom (scan : Scan) : ℕ → List Session → Disk → Disk
  | _, [], disk => disk
  | i, old :: crashed, disk =>
      let s := scan.recoverySession (scan.newId i) old
      let saved := s.save scan.lineLen scan.now scan.appendOk (disk s.id)
      scan.recoverFrom (i + 1) crashed (Function.update disk s.id saved.2)

def Scan.recoverLoaded (scan : Scan) (crashed : List Session) (disk : Disk) : Disk :=
  scan.recoverFrom 0 (sortByCrash crashed) disk

/-- `recover_crashed_sessions`, or `recover_crashed_sessions_by_ids`, with the ids in the order that
the set of them has. -/
inductive Call where
  | recoverCrashedSessions
  | recoverCrashedSessionsByIds (ids : List String)

/-- The parents of the recovery sessions, from the snapshots alone. -/
def stubParents (scan : Scan) (disk : Disk) : List String :=
  scan.listing.filterMap fun stem =>
    if isRecovery stem then (disk stem).snapshot.bind fun stub => stub.parentId else none

/-- The sessions of these ids that have crashed; a session that cannot be loaded ends the call. -/
def Scan.loadAllowed (scan : Scan) (recovered : List String) :
    List String → Disk → Option (List Session × Disk)
  | [], disk => some ([], disk)
  | id :: ids, disk =>
      if recovered.contains id || (disk id).snapshot.isNone then
        scan.loadAllowed recovered ids disk
      else
        (scan.load disk id).bind fun loaded =>
          (scan.loadAllowed recovered ids loaded.2).map fun rest =>
            (if isCrashed loaded.1.status then loaded.1 :: rest.1 else rest.1, rest.2)

/-- The sessions that a call recovers, and the files as it has left them until then. -/
def Scan.chosen (scan : Scan) (disk : Disk) : Call → Option (List Session × Disk)
  | .recoverCrashedSessions =>
      let loaded := scan.loadAll scan.listing disk
      some (retainRelevantCrashGroup (unrecovered loaded.1), loaded.2)
  | .recoverCrashedSessionsByIds ids =>
      scan.loadAllowed (stubParents scan disk) ids.dedup disk

/-- A call that succeeds: the sessions that are recovered, and the files. -/
def Scan.recover (scan : Scan) (disk : Disk) (call : Call) : Option (List Session × Disk) :=
  (scan.chosen disk call).map fun r => (r.1, scan.recoverLoaded r.1 r.2)

/-! ### The scanners -/

structure CrashedSessionsInfo where
  sessionIds : List String
  displayNames : List String
  mostRecentCrash : DateTime
  omittedCrashedCount : ℕ

/-- `detect_crashed_sessions`. -/
def Scan.detectCrashedSessions (scan : Scan) (disk : Disk) : Option CrashedSessionsInfo × Disk :=
  let loaded := scan.loadAll scan.listing disk
  let all := unrecovered loaded.1
  let crashed := sortByCrash (retainRelevantCrashGroup all)
  let info :=
    if crashed = [] then none
    else some
      { sessionIds := crashed.map (·.id)
        displayNames := crashed.map fun s => displayName s.shortName s.id
        mostRecentCrash := ((all.map crashTimestamp).max?).getD scan.now
        omittedCrashedCount := all.length - crashed.length }
  (info, loaded.2)

/-- The strings of a block of text. -/
def blockWords : ContentBlock → List String
  | .text text cacheControl =>
      text :: (cacheControl.map fun control => control.kind :: control.ttl.toList).getD []
  | _ => []

/-- A snapshot's strings that a recovery copies. -/
def words (s : Saved) : List String :=
  s.title.toList ++ s.customTitle.toList ++ s.workingDir.toList ++ s.providerKey.toList ++
    s.routeApiMethod.toList ++ s.model.toList ++ s.testingBuild.toList ++ s.saveLabel.toList ++
      s.messages.flatMap fun m => m.content.flatMap blockWords

/-- A JSON string of the text has the word between quotation marks: it opens with it or with an
escaped mark before it, and it closes after it. -/
def quoted (word text : String) : Bool := text == word || endsWith text ("\"" ++ word)

/-- The words that the legacy scan searches. -/
def searched : List String := ["Crashed", "session_recovery_"]

/-- The quotations in the text of a snapshot. -/
structure SnapshotText where
  /-- `content.contains`, of a word in quotation marks. -/
  quotes : Saved → String → Bool
  /-- The name of the variant is a key. -/
  crashed : ∀ s : Saved, isCrashed s.status = true → quotes s "Crashed" = true
  /-- Neither word has a character to escape. -/
  holds : ∀ s : Saved, ∀ text ∈ s.parentId.toList ++ words s, ∀ word ∈ searched,
    quoted word text = true → quotes s word = true

/-- `extract_timestamp_from_filename`, of a name without its extension. -/
def extractTimestamp (stem : String) : Option ℕ :=
  let parts := stem.toList.splitOnP (· == '_')
  match parts.find? fun part =>
      decide (13 ≤ part.length) && part.head? == some '1' && part.all Char.isDigit with
  | some part =>
      let n := part.foldl (fun n c => 10 * n + (c.toNat - '0'.toNat)) 0
      if n < 2 ^ 64 then some n else none
  | none => none

/-- The file is not passed over for its age. -/
def Scan.recent (scan : Scan) (stem : String) : Bool :=
  let filenameCutoffMs := (Int.fdiv (scan.now - 48 * hour) 1000000).toNat
  !((extractTimestamp stem).any fun ts => decide (ts < filenameCutoffMs)) &&
    !decide (scan.modified stem < scan.now - 24 * hour)

/-- The snapshots that `find_crashed_legacy_scan` parses. -/
def Scan.headers (scan : Scan) (text : SnapshotText) (disk : Disk) : List Saved :=
  (scan.listing.filter scan.recent).filterMap fun stem =>
    (disk stem).snapshot.filter fun s => searched.any (text.quotes s)

def Scan.findCrashedLegacyScan (scan : Scan) (text : SnapshotText) (disk : Disk) :
    List (String × String) :=
  let headers := scan.headers text disk
  let recovered := headers.filterMap fun s => if isRecovery s.id then s.parentId else none
  let candidates := headers.filter fun s => text.quotes s "Crashed"
  let crashed := ((candidates.filter fun s => isCrashed s.status).filter
    fun s => !recovered.contains s.id).filter
      fun s => decide (scan.now - 24 * hour < s.lastActiveAt.getD s.updatedAt)
  (crashed.mergeSort fun a b => decide (b.updatedAt ≤ a.updatedAt)).map fun s =>
    (s.id, displayName s.shortName s.id)

end Jcode.History.Recovery
