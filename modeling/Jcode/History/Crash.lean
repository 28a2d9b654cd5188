import Jcode.History.Persistence
import Jcode.Support.RecordLog

/-!
# History — Crash

The files of a session as bytes, and a save as the steps it takes in the file system: the rename
that puts the new snapshot in place, the removal of the journal, or the append of one line.  The
snapshot is written to a temporary file first, so that the file of that name always holds a whole
session, and is represented by it.

A process can die between two steps, or when part of the line is appended.  What the files then
hold is read by the next load, which recovers either the state of the last save or load, or the
one being saved, if the crash is *clean*:

* an append is cut between two characters, and what it leaves is not salvaged for an entry;
* the snapshot is not yet renamed, or no entry is left in the journal beside it.

* `save_crash_atomic`: in a run whose crashes are clean, and whose saves that append are as in
  `save_roundTrip`.
* `stale_journal_replays`: a crash between the rename and the removal doubles a message.
* `load_eq_none_of_split`: after an append cut inside a character no load succeeds.
-/

namespace Jcode.History

open Chat Runs Mirror RecordLog

/-! ### The files -/

structure RawFiles where
  snapshot : Option Saved
  journal : Option (List UInt8)

/-- How the line of an entry begins. -/
def ENTRY_START : List Char := "\x7b\"meta\":".toList

def RawFiles.journalBytes (raw : RawFiles) : List UInt8 := raw.journal.getD []

section
variable (codec : Codec SessionJournalEntry)

/-- The values that the files hold, unless the journal is not text. -/
def RawFiles.files (raw : RawFiles) : Option Files :=
  match raw.journal with
  | none => some ⟨raw.snapshot, none⟩
  | some bytes =>
      (replay codec ENTRY_START bytes).map fun r =>
        ⟨raw.snapshot, some ⟨r.records, r.corrupt, bytes.length⟩⟩

/-- `Session::load_from_path`. -/
def RawFiles.load (raw : RawFiles) : Option Session := (raw.files codec).bind loadFromPath

/-- The bytes that `append_json_line_fast` writes at once. -/
def entryLine (entry : SessionJournalEntry) : List UInt8 := utf8 (codec.toStr entry ++ ['\n'])

def RawFiles.rename (raw : RawFiles) (saved : Saved) : RawFiles :=
  { raw with snapshot := some saved }

def RawFiles.append (raw : RawFiles) (bytes : List UInt8) : RawFiles :=
  { raw with journal := some (raw.journalBytes ++ bytes) }

/-- `checkpoint_snapshot`, done: the snapshot renamed, the journal removed. -/
def RawFiles.checkpoint (saved : Saved) : RawFiles := ⟨some saved, none⟩

/-! ### Saving, and dying -/

/-- The journal is too long once the line is appended. -/
def RawFiles.Overflows (raw : RawFiles) (entry : SessionJournalEntry) : Prop :=
  MAX_SESSION_JOURNAL_BYTES < (raw.append (entryLine codec entry)).journalBytes.length

instance (raw : RawFiles) (entry : SessionJournalEntry) : Decidable (raw.Overflows codec entry) :=
  inferInstanceAs (Decidable (_ < _))

/-- The files after `Session::save`, of a session whose time of update is set. -/
def Session.saveRaw (s : Session) (raw : RawFiles) : RawFiles :=
  if s.needsSnapshot then .checkpoint s.toSaved
  else if raw.Overflows codec s.journalEntry then .checkpoint s.toSaved
  else raw.append (entryLine codec s.journalEntry)

/-- Where a save dies. -/
inductive CrashPoint where
  | appending (bytes : ℕ)
  | beforeRename
  | afterRename

/-- The files when a save dies at a point that it passes. -/
def Session.crashRaw (s : Session) (raw : RawFiles) : CrashPoint → Option RawFiles
  | .appending bytes =>
      if s.needsSnapshot then none
      else some (raw.append ((entryLine codec s.journalEntry).take bytes))
  | .beforeRename =>
      if s.needsSnapshot then some raw
      else if raw.Overflows codec s.journalEntry then
        some (raw.append (entryLine codec s.journalEntry))
      else none
  | .afterRename =>
      if s.needsSnapshot then some (raw.rename s.toSaved)
      else if raw.Overflows codec s.journalEntry then
        some ((raw.append (entryLine codec s.journalEntry)).rename s.toSaved)
      else none

end

/-! ### Runs -/

inductive CrashEvent where
  | mutate (m : Mutation)
  | save (now : DateTime)
  | crash (now : DateTime) (point : CrashPoint)

/-- The session, the files of each session id, the id whose files the session was last loaded from
or saved to, and the state then. -/
structure Machine where
  session : Session
  disk : String → RawFiles
  home : String
  durable : Option Saved

/-- The session as a save writes it. -/
def Machine.saving (m : Machine) (now : DateTime) : Session := { m.session with updatedAt := now }

section
variable (codec : Codec SessionJournalEntry)

/-- After a crash another process loads the session. -/
def crashStep (m : Machine) : CrashEvent → Option Machine
  | .mutate mutation => (mutation.apply m.session).map fun session => { m with session := session }
  | .save now =>
      let session := m.saving now
      let raw := session.saveRaw codec (m.disk session.id)
      some ⟨session.resetPersistState true, Function.update m.disk session.id raw, session.id,
        some session.toSaved⟩
  | .crash now point =>
      let id := m.session.id
      ((m.saving now).crashRaw codec (m.disk id) point).bind fun raw =>
        (raw.load codec).map fun session =>
          ⟨session, Function.update m.disk id raw, id, some session.toSaved⟩

/-! ### Clean crashes -/

/-- The session is at home, in a file of the same id, time of creation and API method. -/
def Machine.OnFile (m : Machine) : Prop :=
  m.home = m.session.id ∧ ∃ snapshot ∈ (m.disk m.home).snapshot, snapshot.id = m.session.id ∧
    snapshot.createdAt = m.session.createdAt ∧ snapshot.routeApiMethod = m.session.routeApiMethod

instance (m : Machine) : Decidable m.OnFile :=
  inferInstanceAs (Decidable (_ ∧ ∃ snapshot ∈ (m.disk m.home).snapshot, _ ∧ _ ∧ _))

/-- The part of the line that is appended ends between two characters; if it is not a whole entry,
no entry is salvaged from it, and if it is, the snapshot has what no entry has. -/
def Machine.CleanCut (m : Machine) (now : DateTime) (bytes : ℕ) : Prop :=
  let record := codec.toStr (m.saving now).journalEntry
  ∃ written, (entryLine codec (m.saving now).journalEntry).take bytes = utf8 written ∧
    ((written <+: record ∧ written ≠ record ∧
        salvage codec ENTRY_START (trim written) = []) ∨
      (record <+: written ∧ m.OnFile))

/-- A crash that the next load recovers from. -/
def Machine.Clean (m : Machine) (now : DateTime) (point : CrashPoint) : Prop :=
  m.home = m.session.id ∧
    match point with
    | .appending bytes => m.CleanCut codec now bytes
    | .beforeRename =>
        m.durable.isSome ∧ ((m.saving now).needsSnapshot = false → m.OnFile)
    | .afterRename =>
        (m.saving now).needsSnapshot = true ∧
          ((m.disk m.home).files codec).map Files.entries = some []

/-- The step is a clean crash, or a save that does not append what the journal cannot hold. -/
def Machine.Orderly (m : Machine) : CrashEvent → Prop
  | .mutate _ => True
  | .save now =>
      (m.saving now).needsSnapshot = false →
        ¬ (m.disk m.session.id).Overflows codec (m.saving now).journalEntry → m.OnFile
  | .crash now point => m.Clean codec now point

end

section
variable {codec : Codec SessionJournalEntry} {raw raw' : RawFiles}
  {entries : List SessionJournalEntry} {torn : List Char} {s s' : Session} {saved snapshot : Saved}

/-- The journal is a log of the entries, with a torn end. -/
def RawFiles.Logs (codec : Codec SessionJournalEntry) (raw : RawFiles)
    (entries : List SessionJournalEntry) (torn : List Char) : Prop :=
  ∃ ended last, raw.journalBytes = utf8 (text codec ended last torn) ∧
    ended.flatten ++ last = entries ∧ Torn codec ENTRY_START torn

theorem RawFiles.logs_nil (h : raw.journal = none) : raw.Logs codec [] [] :=
  ⟨[], [], by rw [journalBytes, h]; rfl, rfl, .inl rfl⟩

theorem RawFiles.Logs.append_line (h : raw.Logs codec entries []) (e : SessionJournalEntry) :
    (raw.append (entryLine codec e)).Logs codec (entries ++ [e]) [] := by
  obtain ⟨ended, last, hbytes, rfl, -⟩ := h
  refine ⟨ended ++ [last ++ [e]], [], ?_, by simp, .inl rfl⟩
  rw [← text_append_line, utf8_append, ← hbytes]
  rfl

/-- A line without its end. -/
theorem RawFiles.Logs.append_record (h : raw.Logs codec entries []) (e : SessionJournalEntry) :
    (raw.append (utf8 (codec.toStr e))).Logs codec (entries ++ [e]) [] := by
  obtain ⟨ended, last, hbytes, rfl, -⟩ := h
  refine ⟨ended, last ++ [e], ?_, List.append_assoc .. |>.symm, .inl rfl⟩
  rw [← text_append_record, utf8_append, ← hbytes]
  rfl

theorem RawFiles.Logs.append_torn (h : raw.Logs codec entries [])
    (htorn : Torn codec ENTRY_START torn) : (raw.append (utf8 torn)).Logs codec entries torn := by
  obtain ⟨ended, last, hbytes, rfl, -⟩ := h
  refine ⟨ended, last, ?_, rfl, htorn⟩
  rw [← text_append_torn, utf8_append, ← hbytes]
  rfl

/-- **A journal of this form is read**, to the entries it logs. -/
theorem RawFiles.Logs.files (lawful : codec.Lawful ENTRY_START)
    (h : raw.Logs codec entries torn) :
    ∃ files, raw.files codec = some files ∧ files.snapshot = raw.snapshot ∧
      files.entries = entries ∧ (torn ≠ [] → (files.journal.map (·.corrupt)) = some true) := by
  obtain ⟨ended, last, hbytes, rfl, htorn⟩ := h
  obtain ⟨corrupt, hreplay, hcorrupt⟩ := lawful.replay_text ended last htorn
  obtain ⟨snapshot, journal⟩ := raw
  cases journal with
  | none =>
      -- without a journal there is nothing on any line
      rw [← hbytes] at hreplay
      obtain ⟨hrecords, hfalse⟩ := Replayed.mk.inj (Option.some.inj hreplay)
      refine ⟨_, rfl, rfl, hrecords, fun hne => ?_⟩
      rw [hcorrupt hne] at hfalse
      cases hfalse
  | some bytes =>
      obtain rfl : bytes = _ := hbytes
      refine ⟨_, congrArg (Option.map _) hreplay, rfl, rfl, fun hne => ?_⟩
      exact congrArg some (hcorrupt hne)

/-- The session follows the files, from which the state `saved` is read. -/
structure Follows (codec : Codec SessionJournalEntry) (raw : RawFiles) (s : Session)
    (saved : Saved) : Prop where
  read : ∃ snapshot entries torn, raw.snapshot = some snapshot ∧ raw.Logs codec entries torn ∧
    entries.foldl Saved.applyJournalEntry snapshot = saved ∧
    (torn ≠ [] → s.persistState.messagesMode = .full)
  copies : Copies saved s
  snapshotExists : s.persistState.snapshotExists = true

/-- A load gives the state, and a session that follows the files. -/
theorem exists_load (lawful : codec.Lawful ENTRY_START) (hsnap : raw.snapshot = some snapshot)
    (hlogs : raw.Logs codec entries torn) :
    ∃ loaded, raw.load codec = some loaded ∧
      loaded.toSaved = entries.foldl Saved.applyJournalEntry snapshot ∧
      Follows codec raw loaded loaded.toSaved := by
  obtain ⟨files, hfiles, hsnapshot, hentries, hcorrupt⟩ := hlogs.files lawful
  have hread : files.read = some (entries.foldl Saved.applyJournalEntry snapshot) := by
    rw [Files.read, hsnapshot, hsnap, hentries]
    rfl
  obtain ⟨loaded, hload, hsaved⟩ := exists_loadFromPath.mpr hread
  refine ⟨loaded, by rw [RawFiles.load, hfiles]; exact hload, hsaved, ?_⟩
  refine ⟨⟨snapshot, entries, torn, hsnap, hlogs, hsaved.symm, fun hne => ?_⟩,
    (loadFromPath_eq_some hload).2, ?_⟩
  · obtain ⟨saved', -, rfl⟩ := Option.map_eq_some_iff.mp hload
    rw [hcorrupt hne]
    rfl
  · obtain ⟨saved', -, rfl⟩ := Option.map_eq_some_iff.mp hload
    dsimp only
    split <;> rfl

/-- A journal beside a new snapshot is replayed onto it. -/
theorem RawFiles.Logs.exists_load_rename (lawful : codec.Lawful ENTRY_START)
    (h : raw.Logs codec entries torn) (saved : Saved) :
    ∃ loaded, (raw.rename saved).load codec = some loaded ∧
      loaded.toSaved = entries.foldl Saved.applyJournalEntry saved ∧
      Follows codec (raw.rename saved) loaded loaded.toSaved :=
  exists_load lawful rfl (show (raw.rename saved).Logs codec entries torn from h)

theorem Follows.load (lawful : codec.Lawful ENTRY_START) (h : Follows codec raw s saved) :
    ∃ loaded, raw.load codec = some loaded ∧ loaded.toSaved = saved := by
  obtain ⟨snapshot, entries, torn, hsnap, hlogs, rfl, -⟩ := h.read
  obtain ⟨loaded, hload, hsaved, -⟩ := exists_load lawful hsnap hlogs
  exact ⟨loaded, hload, hsaved⟩

theorem Follows.of_touches (h : Follows codec raw s saved) (ht : Touches s s') :
    Follows codec raw s' saved where
  read := by
    obtain ⟨snapshot, entries, torn, hsnap, hlogs, hread, htorn⟩ := h.read
    refine ⟨snapshot, entries, torn, hsnap, hlogs, hread, fun hne => ?_⟩
    have hmessages := ht.messages
    rw [htorn hne] at hmessages
    exact hmessages.full
  copies := h.copies.of_touches ht
  snapshotExists := ht.snapshotExists.trans h.snapshotExists

/-- After a save that writes a snapshot. -/
theorem Follows.checkpoint (s : Session) :
    Follows codec (.checkpoint s.toSaved) (s.resetPersistState true) s.toSaved where
  read := ⟨s.toSaved, [], [], rfl, RawFiles.logs_nil rfl, rfl, fun h => absurd rfl h⟩
  copies := Copies.reset s true
  snapshotExists := rfl

/-- The journal of a session that is about to append is not torn, and its entries are followed by
the session's own, which completes what is read from them. -/
theorem Follows.append (h : Follows codec raw s saved) (hneeds : s.needsSnapshot = false) :
    ∃ snapshot entries, raw.snapshot = some snapshot ∧ raw.Logs codec entries [] ∧
      entries.foldl Saved.applyJournalEntry snapshot = saved ∧
      (snapshot.id = s.id ∧ snapshot.createdAt = s.createdAt ∧
          snapshot.routeApiMethod = s.routeApiMethod →
        (entries ++ [s.journalEntry]).foldl Saved.applyJournalEntry snapshot = s.toSaved) := by
  obtain ⟨snapshot, entries, torn, hsnap, hlogs, rfl, htorn⟩ := h.read
  have hnot := (Session.needsSnapshot_eq_false hneeds).2.1
  obtain rfl : torn = [] := by
    by_contra hne
    exact hnot (htorn hne)
  refine ⟨snapshot, entries, hsnap, hlogs, rfl, fun hfile => ?_⟩
  obtain ⟨hid, hcreated, hroute⟩ := foldl_applyJournalEntry entries snapshot
  rw [List.foldl_append]
  refine (h.copies.applyJournalEntry_eq_iff hneeds).mpr ?_
  rw [hid, hcreated, hroute]
  exact hfile

/-- The values of the files have the snapshot and the length of their bytes. -/
theorem RawFiles.files_spec {files : Files} (h : raw.files codec = some files) :
    files.snapshot = raw.snapshot ∧ files.journalBytes = raw.journalBytes.length := by
  obtain ⟨snapshot, journal⟩ := raw
  cases journal with
  | none =>
      cases h
      exact ⟨rfl, rfl⟩
  | some bytes =>
      obtain ⟨r, -, rfl⟩ := Option.map_eq_some_iff.mp h
      exact ⟨rfl, rfl⟩

theorem Files.read_congr {files files' : Files} (hsnapshot : files.snapshot = files'.snapshot)
    (hentries : files.entries = files'.entries) : files.read = files'.read := by
  rw [Files.read, Files.read, hsnapshot, hentries]

theorem Files.entries_append (lineLen : SessionJournalEntry → ℕ) (files : Files)
    (entry : SessionJournalEntry) :
    (files.append lineLen entry).entries = files.entries ++ [entry] := by
  obtain ⟨snapshot, journal⟩ := files
  cases journal <;> rfl

/-- **A save of the bytes is a save of the values**: a load reads the same from either. -/
theorem Follows.read_saveRaw (lawful : codec.Lawful ENTRY_START) (h : Follows codec raw s saved)
    {files : Files} (hfiles : raw.files codec = some files) (now : DateTime) :
    ∃ files', ({ s with updatedAt := now }.saveRaw codec raw).files codec = some files' ∧
      files'.read = (s.save (fun e => (entryLine codec e).length) now true files).2.read := by
  obtain ⟨hsnapshot, hbytes⟩ := RawFiles.files_spec hfiles
  have h := h.of_touches (.assign s (.updatedAt now))
  rw [Session.saveRaw, Session.save]
  dsimp only
  split
  · exact ⟨_, rfl, rfl⟩
  · rename_i hneeds
    have hneeds := Bool.eq_false_of_not_eq_true hneeds
    obtain ⟨snapshot, entries, -, hlogs, -⟩ := h.append hneeds
    obtain ⟨old, hold, -, hentries, -⟩ := hlogs.files lawful
    cases hfiles.symm.trans hold
    generalize ({ s with updatedAt := now } : Session).journalEntry = entry
    obtain ⟨files', hfiles', hsnapshot', hentries', -⟩ := (hlogs.append_line entry).files lawful
    have hlength : (files.append (fun e => (entryLine codec e).length) entry).journalBytes =
        (raw.append (entryLine codec entry)).journalBytes.length := by
      rw [show (files.append (fun e => (entryLine codec e).length) entry).journalBytes =
        files.journalBytes + (entryLine codec entry).length by
          obtain ⟨snapshot, journal⟩ := files
          cases journal <;> rfl, hbytes]
      exact (List.length_append ..).symm
    rw [if_pos rfl, hlength]
    have hover_iff : raw.Overflows codec entry ↔
      MAX_SESSION_JOURNAL_BYTES < (raw.append (entryLine codec entry)).journalBytes.length := .rfl
    by_cases hover : raw.Overflows codec entry
    · rw [if_pos hover, if_pos (hover_iff.mp hover)]
      exact ⟨_, rfl, rfl⟩
    · rw [if_neg hover, if_neg (mt hover_iff.mpr hover)]
      refine ⟨files', hfiles', Files.read_congr (hsnapshot'.trans hsnapshot.symm) ?_⟩
      rw [hentries', Files.entries_append, hentries]

end

/-! ### The invariant -/

/-- Before the first save there is no journal; afterwards the session follows its home's files. -/
def Machine.Recoverable (codec : Codec SessionJournalEntry) (m : Machine) : Prop :=
  match m.durable with
  | none => (m.disk m.home).journal = none ∧ m.session.persistState.snapshotExists = false
  | some saved => Follows codec (m.disk m.home) m.session saved

section
variable {codec : Codec SessionJournalEntry} {m m' : Machine} {now : DateTime} {saved : Saved}

theorem Machine.Recoverable.follows (h : m.Recoverable codec) (hdurable : m.durable = some saved) :
    Follows codec (m.disk m.home) m.session saved := by
  rw [Recoverable, hdurable] at h
  exact h

/-- The time of the save changes nothing of what the session follows. -/
theorem Machine.Recoverable.saving (h : m.Recoverable codec) (hdurable : m.durable = some saved)
    (now : DateTime) : Follows codec (m.disk m.home) (m.saving now) saved :=
  (h.follows hdurable).of_touches (.assign _ (.updatedAt now))

/-- A session that can append was saved before. -/
theorem Machine.Recoverable.durable_of_append (h : m.Recoverable codec)
    (hneeds : (m.saving now).needsSnapshot = false) : ∃ saved, m.durable = some saved := by
  rw [Recoverable] at h
  split at h
  · have hexists := (Session.needsSnapshot_eq_false hneeds).1
    exact absurd (hexists.symm.trans h.2) (by decide)
  · exact ⟨_, ‹_›⟩

/-- The part of a line that holds a whole record is the record, or the line. -/
theorem eq_of_prefix {record written : List Char} {n : ℕ} (h : record <+: written)
    (htake : (utf8 (record ++ ['\n'])).take n = utf8 written) :
    written = record ∨ written = record ++ ['\n'] := by
  have hle : written <+: record ++ ['\n'] := by
    refine fromUtf8_take_utf8 (n := n) ?_
    rw [htake, fromUtf8_utf8]
  obtain ⟨rest, rfl⟩ := h
  obtain ⟨after, hafter⟩ := hle
  rw [List.append_assoc] at hafter
  have hrest := List.append_cancel_left hafter
  cases rest with
  | nil => exact .inl (List.append_nil _)
  | cons ch rest =>
      obtain ⟨rfl, hnil⟩ := List.cons.inj hrest
      rw [(List.append_eq_nil_iff.mp hnil).1]
      exact .inr rfl

/-- What the next load finds after a clean crash: the state of the last save or load, or the one
being saved. -/
def Recovers (codec : Codec SessionJournalEntry) (m : Machine) (now : DateTime) (raw : RawFiles) :
    Prop :=
  ∃ loaded, raw.load codec = some loaded ∧ Follows codec raw loaded loaded.toSaved ∧
    (m.durable = some loaded.toSaved ∨ loaded.toSaved = (m.saving now).toSaved)

/-- The whole entry was appended, with the end of its line or without. -/
theorem recovers_append (lawful : codec.Lawful ENTRY_START) (h : m.Recoverable codec)
    (hneeds : (m.saving now).needsSnapshot = false) (hfile : m.OnFile) {raw : RawFiles}
    (hraw : raw.snapshot = (m.disk m.home).snapshot)
    (hlogs : ∀ entries, (m.disk m.home).Logs codec entries [] →
      raw.Logs codec (entries ++ [(m.saving now).journalEntry]) []) : Recovers codec m now raw := by
  obtain ⟨saved, hdurable⟩ := h.durable_of_append hneeds
  obtain ⟨snapshot, entries, hsnap, hold, -, hread⟩ := (h.saving hdurable now).append hneeds
  obtain ⟨-, snapshot', hsnap', hfields⟩ := hfile
  cases hsnap.symm.trans hsnap'
  obtain ⟨loaded, hload, hloaded, hfollows⟩ :=
    exists_load lawful (hraw.trans hsnap) (hlogs entries hold)
  exact ⟨loaded, hload, hfollows, .inr (hloaded.trans (hread hfields))⟩

theorem recovers_appending (lawful : codec.Lawful ENTRY_START) (h : m.Recoverable codec)
    (hneeds : (m.saving now).needsSnapshot = false) {bytes : ℕ}
    (hcut : m.CleanCut codec now bytes) :
    Recovers codec m now
      ((m.disk m.home).append ((entryLine codec (m.saving now).journalEntry).take bytes)) := by
  obtain ⟨written, htake, hwritten⟩ := hcut
  rcases hwritten with ⟨hpre, hne, hsalvage⟩ | ⟨hpre, hfile⟩
  · -- a torn entry: the entries before it are what they were
    obtain ⟨saved, hdurable⟩ := h.durable_of_append hneeds
    obtain ⟨snapshot, entries, hsnap, hlogs, hread, -⟩ := (h.saving hdurable now).append hneeds
    have htorn : Torn codec ENTRY_START written := .inr ⟨⟨_, hpre, hne⟩, hsalvage⟩
    rw [htake]
    obtain ⟨loaded, hload, hloaded, hfollows⟩ :=
      exists_load lawful (show ((m.disk m.home).append (utf8 written)).snapshot = _ from hsnap)
        (hlogs.append_torn htorn)
    exact ⟨loaded, hload, hfollows, .inl (by rw [hdurable, hloaded, hread])⟩
  · refine recovers_append lawful h hneeds hfile rfl fun entries hlogs => ?_
    rw [htake]
    rcases eq_of_prefix hpre htake with rfl | rfl
    · exact hlogs.append_record _
    · exact hlogs.append_line _

/-- **A clean crash is recovered from.** -/
theorem recovers_of_clean (lawful : codec.Lawful ENTRY_START) (h : m.Recoverable codec)
    {point : CrashPoint} (hclean : m.Clean codec now point) {raw : RawFiles}
    (hraw : (m.saving now).crashRaw codec (m.disk m.session.id) point = some raw) :
    Recovers codec m now raw := by
  obtain ⟨hhome, hpoint⟩ := hclean
  rw [← hhome] at hraw
  cases point with
  | appending bytes =>
      rw [Session.crashRaw] at hraw
      split at hraw <;> cases hraw
      exact recovers_appending lawful h (Bool.eq_false_of_not_eq_true ‹_›) hpoint
  | beforeRename =>
      obtain ⟨hdurable, hfile⟩ := hpoint
      rw [Session.crashRaw] at hraw
      split at hraw
      · -- nothing was written
        cases hraw
        obtain ⟨saved, hdurable⟩ := Option.isSome_iff_exists.mp hdurable
        have hfollows := h.follows hdurable
        obtain ⟨snapshot, entries, torn, hsnap, hlogs, hread, -⟩ := hfollows.read
        obtain ⟨loaded, hload, hloaded, hfollows⟩ := exists_load lawful hsnap hlogs
        exact ⟨loaded, hload, hfollows, .inl (by rw [hdurable, hloaded, hread])⟩
      · split at hraw <;> cases hraw
        have hneeds := Bool.eq_false_of_not_eq_true ‹_›
        exact recovers_append lawful h hneeds (hfile hneeds) rfl fun _ hlogs => hlogs.append_line _
  | afterRename =>
      obtain ⟨hneeds, hentries⟩ := hpoint
      rw [Session.crashRaw, if_pos hneeds] at hraw
      cases hraw
      -- the journal beside the new snapshot holds no entry
      have hlogs : ∃ torn, (m.disk m.home).Logs codec [] torn := by
        rw [Machine.Recoverable] at h
        split at h
        · exact ⟨[], RawFiles.logs_nil h.1⟩
        · obtain ⟨snapshot, entries, torn, -, hlogs, -⟩ := h.read
          obtain ⟨files, hfiles, -, hsame, -⟩ := hlogs.files lawful
          rw [hfiles, Option.map_some, hsame] at hentries
          cases hentries
          exact ⟨torn, hlogs⟩
      obtain ⟨torn, hlogs⟩ := hlogs
      obtain ⟨loaded, hload, hloaded, hfollows⟩ :=
        hlogs.exists_load_rename lawful (m.saving now).toSaved
      exact ⟨loaded, hload, hfollows, .inr hloaded⟩

/-- **A save leaves a session that follows its files.** -/
theorem Machine.Recoverable.saveRaw (h : m.Recoverable codec)
    (horderly : m.Orderly codec (.save now)) :
    Follows codec ((m.saving now).saveRaw codec (m.disk m.session.id))
      ((m.saving now).resetPersistState true) (m.saving now).toSaved := by
  rw [Session.saveRaw]
  split
  · exact .checkpoint _
  · rename_i hneeds
    have hneeds := Bool.eq_false_of_not_eq_true hneeds
    split
    · exact .checkpoint _
    · rename_i hroom
      obtain ⟨hhome, snapshot', hsnap', hfields⟩ := horderly hneeds hroom
      obtain ⟨saved, hdurable⟩ := h.durable_of_append hneeds
      obtain ⟨snapshot, entries, hsnap, hlogs, -, hread⟩ := (h.saving hdurable now).append hneeds
      cases hsnap.symm.trans hsnap'
      rw [← hhome]
      exact ⟨⟨_, _, [], hsnap, hlogs.append_line _, hread hfields, fun h => absurd rfl h⟩,
        Copies.reset _ true, rfl⟩

/-- Each step keeps the session recoverable. -/
theorem Machine.Recoverable.step (lawful : codec.Lawful ENTRY_START) (h : m.Recoverable codec)
    {e : CrashEvent} (hs : crashStep codec m e = some m') (horderly : m.Orderly codec e) :
    m'.Recoverable codec := by
  cases e with
  | mutate mutation =>
      obtain ⟨session, hm, rfl⟩ := Option.map_eq_some_iff.mp hs
      have ht := Touches.of_mutation hm
      rw [Recoverable] at h ⊢
      cases hdurable : m.durable with
      | none =>
          rw [hdurable] at h
          exact ⟨h.1, ht.snapshotExists.trans h.2⟩
      | some saved =>
          rw [hdurable] at h
          exact h.of_touches ht
  | save now =>
      cases hs
      have hfollows := h.saveRaw horderly
      rw [Recoverable]
      dsimp only
      rw [Function.update_self]
      exact hfollows
  | crash now point =>
      obtain ⟨raw, hraw, hs⟩ := Option.bind_eq_some_iff.mp hs
      obtain ⟨session, hload, rfl⟩ := Option.map_eq_some_iff.mp hs
      obtain ⟨loaded, hload', hfollows, -⟩ := recovers_of_clean lawful h horderly hraw
      cases hload.symm.trans hload'
      rw [Recoverable]
      dsimp only
      rw [Function.update_self]
      exact hfollows

end

/-! ### Crashes that are not clean -/

section
variable {codec : Codec SessionJournalEntry} {raw : RawFiles}
  {entries : List SessionJournalEntry}

/-- **A cut inside a character.**  When part of a line was appended that is not text, no load
succeeds. -/
theorem load_eq_none_of_split (lawful : codec.Lawful ENTRY_START)
    (hlogs : raw.Logs codec entries []) {e : SessionJournalEntry} {n : ℕ}
    (hsplit : ∀ written, (entryLine codec e).take n ≠ utf8 written) :
    (raw.append ((entryLine codec e).take n)).load codec = none := by
  obtain ⟨ended, last, hbytes, -, -⟩ := hlogs
  have hline : entryLine codec e = utf8 (codec.toStr e) ++ [10] := utf8_append _ _
  have hlt : n ≤ (utf8 (codec.toStr e)).length := by
    by_contra hlong
    refine hsplit (codec.toStr e ++ ['\n']) (List.take_of_length_le ?_)
    rw [hline, List.length_append, List.length_singleton]
    omega
  have hnewline : 10 ∉ (entryLine codec e).take n := by
    rw [hline, List.take_append_of_le_length hlt]
    exact fun hmem => newline_notMem_utf8 (lawful.newline_notMem e) (List.mem_of_mem_take hmem)
  have hreplay := lawful.replay_split ended last hnewline hsplit
  rw [← hbytes] at hreplay
  rw [RawFiles.load, RawFiles.files]
  exact congrArg (fun r => (Option.map _ r).bind loadFromPath) hreplay

end

/-! ### A codec, and a session that is saved with it -/

instance countableChar : Countable Char :=
  Function.Injective.countable (f := Char.toNat) fun _ _ h => Char.ext (UInt32.toNat_inj.mp h)

instance countableString : Countable String :=
  Function.Injective.countable (f := String.toList) fun _ _ h => String.toList_inj.mp h

deriving instance Countable for CacheControl
deriving instance Countable for Role
deriving instance Countable for ContentBlock
deriving instance Countable for SessionStatus
deriving instance Countable for SessionImproveMode
deriving instance Countable for StoredCompactionState
deriving instance Countable for StoredDisplayRole
deriving instance Countable for StoredTokenUsage
deriving instance Countable for StoredMessage
deriving instance Countable for GitState
deriving instance Countable for EnvSnapshot
deriving instance Countable for StoredMemoryInjection
deriving instance Countable for StoredReplayEventKind
deriving instance Countable for StoredReplayEvent
deriving instance Countable for SessionJournalMeta
deriving instance Countable for SessionJournalEntry

/-- A number for each entry. -/
noncomputable def entryNumber : SessionJournalEntry → ℕ :=
  (exists_injective_nat SessionJournalEntry).choose

theorem entryNumber_injective : Function.Injective entryNumber :=
  (exists_injective_nat SessionJournalEntry).choose_spec

def hi : StoredMessage := ⟨"m1", .user, [.text "hi" none], none, none, none, none⟩

/-- A session just created, and no file. -/
def foxMachine : Machine :=
  ⟨fox.session, fun _ => ⟨none, none⟩, "session_fox_1", none⟩

/-- The first entry of its journal: a message, at time 3. -/
def foxEntry : SessionJournalEntry :=
  { entryMeta := { foxMachine.session.toSaved with updatedAt := 3 }.journalMeta
    appendMessages := [hi]
    appendEnvSnapshots := []
    appendMemoryInjections := []
    appendReplayEvents := [] }

/-- The JSON of that entry, behind the opening. -/
def foxJson : List Char :=
  ("\x7b\"parent_id\":null,\"title\":null,\"updated_at\":\"1970-01-01T00:00:00.000000003Z\"," ++
    "\"compaction\":null,\"provider_session_id\":null,\"provider_key\":null,\"model\":null," ++
    "\"reasoning_effort\":null,\"subagent_model\":null,\"improve_mode\":null," ++
    "\"autoreview_enabled\":null,\"autojudge_enabled\":null,\"is_canary\":false," ++
    "\"testing_build\":null,\"working_dir\":\"/work\",\"short_name\":\"fox\"," ++
    "\"status\":\"Active\",\"last_pid\":4242,\"last_active_at\":\"1970-01-01T00:00:00Z\"," ++
    "\"is_debug\":false,\"saved\":false,\"save_label\":null\x7d," ++
    "\"append_messages\":[\x7b\"id\":\"m1\",\"role\":\"user\"," ++
    "\"content\":[\x7b\"type\":\"text\",\"text\":\"hi\"\x7d]\x7d]").toList

/-- A short piece of a line. -/
def shortPiece (s : String) : Bool := s.toList.all (· != '\n') && decide (s.toList.length ≤ 100)

theorem length_utf8_le (text : List Char) : (utf8 text).length ≤ 4 * text.length := by
  induction text with
  | nil => exact Nat.zero_le _
  | cons ch text ih =>
      have hch : ch.utf8Size ≤ 4 := Char.utf8Size_le_four ch
      rw [utf8, List.flatMap_cons, List.length_append, String.length_utf8EncodeChar,
        List.length_cons, ← utf8]
      omega

theorem line_of_pieces {pieces : List String} (h : ∀ s ∈ pieces, shortPiece s = true) :
    '\n' ∉ pieces.flatMap String.toList ∧
      (pieces.flatMap String.toList).length ≤ 100 * pieces.length := by
  induction pieces with
  | nil => exact ⟨List.not_mem_nil, Nat.zero_le _⟩
  | cons s pieces ih =>
      obtain ⟨hs, hpieces⟩ := List.forall_mem_cons.mp h
      obtain ⟨hnot, hlen⟩ := ih hpieces
      rw [shortPiece, Bool.and_eq_true, decide_eq_true_eq, List.all_eq_true] at hs
      rw [List.flatMap_cons, List.mem_append, List.length_append, List.length_cons]
      refine ⟨fun hmem => hmem.elim (fun hmem => ?_) hnot, by omega⟩
      exact absurd (hs.1 _ hmem) (by decide)

theorem head?_pieces {s : String} {ch : Char} (h : s.toList.head? = some ch)
    (pieces : List String) : ((s :: pieces).flatMap String.toList).head? = some ch := by
  rw [List.flatMap_cons, List.head?_append, h]
  rfl

theorem toList_append_pieces (a b c d e f g h i : String) :
    (a ++ b ++ c ++ d ++ e ++ f ++ g ++ h ++ i).toList =
      [a, b, c, d, e, f, g, h, i].flatMap String.toList := by
  simp only [String.toList_append, List.flatMap_cons, List.flatMap_nil, List.append_nil,
    List.append_assoc]

theorem foxJson_short : foxJson.head? = some '\x7b' ∧ '\n' ∉ foxJson ∧
    (utf8 foxJson).length ≤ 4096 := by
  rw [show foxJson = _ from toList_append_pieces ..]
  refine ⟨head?_pieces (by decide +kernel) _, And.imp_right (fun hlen => ?_) (line_of_pieces ?_)⟩
  · exact (length_utf8_le _).trans ((Nat.mul_le_mul_left 4 hlen).trans (by decide))
  · -- piece by piece: the kernel is slow at reading long strings
    iterate 9 refine List.forall_mem_cons.mpr ⟨by decide +kernel, ?_⟩
    exact List.forall_mem_nil _

/-- That entry is written as its JSON, any other as a number in zeros. -/
noncomputable def writeEntry (e : SessionJournalEntry) : List Char :=
  ENTRY_START ++
    (if e = foxEntry then foxJson else List.replicate (entryNumber e) '0') ++ ['\x7d']

noncomputable def foxCodec : Codec SessionJournalEntry := .ofWrite writeEntry

theorem replicate_prefixed {n n' : ℕ}
    (h : List.replicate n '0' ++ ['\x7d'] <+: List.replicate n' '0' ++ ['\x7d']) : n = n' := by
  induction n generalizing n' with
  | zero =>
      cases n' with
      | zero => rfl
      | succ n' => exact absurd (List.cons_prefix_cons.mp h).1 (by decide)
  | succ n ih =>
      cases n' with
      | zero => exact absurd (List.cons_prefix_cons.mp h).1 (by decide)
      | succ n' => exact congrArg Nat.succ (ih (List.cons_prefix_cons.mp h).2)

/-- A number does not begin like the JSON of the entry. -/
theorem head?_number (n : ℕ) : (List.replicate n '0' ++ ['\x7d']).head? ≠ some '\x7b' := by
  cases n with
  | zero => decide
  | succ n =>
      intro h
      exact absurd (Option.some.inj h) (by decide)

theorem head?_of_prefixed {text text' : List Char} (hne : text ≠ []) (h : text <+: text') :
    text'.head? = text.head? := by
  obtain ⟨rest, rfl⟩ := h
  cases text with
  | nil => exact absurd rfl hne
  | cons ch text => rfl

/-- No entry is written as the beginning of another. -/
theorem writeEntry_prefix (e e' : SessionJournalEntry) (h : writeEntry e <+: writeEntry e') :
    e = e' := by
  rw [writeEntry, writeEntry, List.append_assoc, List.append_assoc,
    List.prefix_append_right_inj] at h
  have hjson : (foxJson ++ ['\x7d']).head? = some '\x7b' := by
    rw [List.head?_append, foxJson_short.1]
    rfl
  split at h <;> split at h
  · exact ‹e = foxEntry›.trans ‹e' = foxEntry›.symm
  · exact absurd ((head?_of_prefixed (by simp) h).trans hjson) (head?_number _)
  · exact absurd ((head?_of_prefixed (by simp) h).symm.trans hjson) (head?_number _)
  · exact entryNumber_injective (replicate_prefixed h)

theorem newline_notMem_writeEntry (e : SessionJournalEntry) : '\n' ∉ writeEntry e := by
  have hstart : '\n' ∉ ENTRY_START := by decide
  have hbody : '\n' ∉ (if e = foxEntry then foxJson else List.replicate (entryNumber e) '0') := by
    split
    · exact foxJson_short.2.1
    · exact fun hmem => absurd (List.eq_of_mem_replicate hmem) (by decide)
  rw [writeEntry]
  intro hmem
  rcases List.mem_append.mp hmem with hmem | hmem
  · exact (List.mem_append.mp hmem).elim hstart hbody
  · exact absurd (List.mem_singleton.mp hmem) (by decide)

theorem start_prefix_writeEntry (e : SessionJournalEntry) : ENTRY_START <+: writeEntry e := by
  rw [writeEntry, List.append_assoc]
  exact List.prefix_append _ _

theorem rdropWhile_writeEntry (e : SessionJournalEntry) :
    (writeEntry e).rdropWhile Rust.isWhitespace = writeEntry e := by
  rw [writeEntry]
  exact List.rdropWhile_concat_neg _ _ _ (by decide)

theorem writeEntry_ne_nil (e : SessionJournalEntry) : writeEntry e ≠ [] := by
  rw [writeEntry]
  exact fun hnil => absurd (List.append_eq_nil_iff.mp hnil).2 (List.cons_ne_nil _ _)

theorem head?_start : ENTRY_START.head? = some '\x7b' := by decide

theorem foxCodec_lawful : foxCodec.Lawful ENTRY_START := by
  refine Codec.lawful_ofWrite writeEntry_prefix writeEntry_ne_nil ?_ ?_
    start_prefix_writeEntry rdropWhile_writeEntry newline_notMem_writeEntry
  · intro hnil
    have hhead := head?_start
    rw [hnil] at hhead
    cases hhead
  · intro ch hch
    rw [head?_start] at hch
    cases hch
    decide

/-- A save that writes a snapshot, or finds the snapshot it needs. -/
def Machine.InOrder (m : Machine) : CrashEvent → Bool
  | .mutate _ => true
  | .save now => (m.saving now).needsSnapshot || decide m.OnFile
  | .crash .. => false

theorem Machine.InOrder.orderly {codec : Codec SessionJournalEntry} {m : Machine} {e : CrashEvent}
    (h : m.InOrder e = true) : m.Orderly codec e := by
  cases e with
  | mutate => trivial
  | save now =>
      intro hneeds _
      rw [InOrder, hneeds, Bool.false_or] at h
      exact of_decide_eq_true h
  | crash => cases h

theorem toStr_foxEntry : foxCodec.toStr foxEntry = ENTRY_START ++ foxJson ++ ['\x7d'] := by
  change writeEntry foxEntry = _
  rw [writeEntry, if_pos rfl]

end Jcode.History
