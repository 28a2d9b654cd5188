import Jcode.History.Recovery

/-!
# History — Recovered

What a run of recoveries keeps, of the files of any stored sessions.

* `loadAll_spec`, `loadAllowed_spec`: the sessions that a call loads are those of the files, and the
  files change only where a crash is detected.
* `recoverFrom_spec`: each session that is recovered is the parent of a recovery session.
* `mem_legacy`: the legacy scan lists the crashed snapshots without a recovery session, if it sees
  one for each of the others that has one.
* `recovered_once`: a run in which it does keeps all scanners in agreement.
* `fox_offered_again`: a recovery session that it does not see.
-/

namespace Jcode.History.Recovery
open Chat Rust Runs

/-! ### Stored sessions -/

/-- The files are as saves leave them: under the session's id, and with the parent and the status
of the snapshot in every entry of the journal, which a change of either would replace. -/
structure WellFormed (disk : Disk) : Prop where
  id : ∀ stem s, (disk stem).snapshot = some s → s.id = stem
  entries : ∀ stem s, (disk stem).snapshot = some s → ∀ e ∈ (disk stem).entries,
    e.entryMeta.parentId = s.parentId ∧ e.entryMeta.status = s.status

/-- A recovery session of `id` is on disk. -/
def HasRecovery (disk : Disk) (id : String) : Prop :=
  ∃ stem s, (disk stem).snapshot = some s ∧ isRecovery stem = true ∧ s.parentId = some id

/-- A crash is detected when the session is loaded. -/
def Detected (scan : Scan) (files : Files) : Prop :=
  ∃ session, loadFromPath files = some session ∧ (scan.detectCrash session).2 = true

/-- The session, as a call finds it in its files. -/
def found (scan : Scan) (files : Files) : Option Saved :=
  (loadFromPath files).map fun session =>
    let detected := scan.detectCrash session
    if detected.2 then { detected.1.toSaved with updatedAt := scan.now } else detected.1.toSaved

/-- The files of a session are as before, or a crash is detected, which the snapshot then has. -/
def Turned (files files' : Files) : Prop :=
  ∃ s s', files.snapshot = some s ∧ files'.snapshot = some s' ∧ s'.parentId = s.parentId ∧
    isCrashed s'.status = true

/-- The files where some sessions have turned out to be crashed. -/
structure Evolves (P : String → Prop) (disk disk' : Disk) : Prop where
  wf : WellFormed disk'
  kept : ∀ stem, disk' stem = disk stem ∨ Turned (disk stem) (disk' stem) ∧ P stem

variable {scan : Scan} {disk disk' : Disk} {stem id : String} {s : Saved} {session old : Session}
  {P : String → Prop}

theorem Evolves.refl (h : WellFormed disk) : Evolves P disk disk := ⟨h, fun _ => Or.inl rfl⟩

theorem Turned.trans {files files' files'' : Files} (h : Turned files files')
    (h' : Turned files' files'') : Turned files files'' := by
  obtain ⟨s, s₁, hs, hs₁, hparent, -⟩ := h
  obtain ⟨s₁', s₂, hs₁', hs₂, hparent', hcrashed⟩ := h'
  obtain rfl := Option.some.inj (hs₁.symm.trans hs₁')
  exact ⟨s, s₂, hs, hs₂, hparent'.trans hparent, hcrashed⟩

theorem Evolves.trans {disk'' : Disk} (h : Evolves P disk disk') (h' : Evolves P disk' disk'') :
    Evolves P disk disk'' := by
  refine ⟨h'.wf, fun stem => ?_⟩
  rcases h'.kept stem with heq' | ⟨hturned', hP⟩
  · rw [heq']
    exact h.kept stem
  · rcases h.kept stem with heq | ⟨hturned, -⟩
    · rw [heq] at hturned'
      exact Or.inr ⟨hturned', hP⟩
    · exact Or.inr ⟨hturned.trans hturned', hP⟩

/-- The snapshot of a session that was stored. -/
theorem Evolves.snapshot (h : Evolves P disk disk') (hs : (disk stem).snapshot = some s) :
    ∃ s', (disk' stem).snapshot = some s' ∧ s'.parentId = s.parentId ∧
      (s' = s ∨ isCrashed s'.status = true ∧ P stem) := by
  rcases h.kept stem with heq | ⟨⟨s₀, s', hs₀, hs', hparent, hcrashed⟩, hP⟩
  · exact ⟨s, by rw [heq, hs], rfl, Or.inl rfl⟩
  · obtain rfl := Option.some.inj (hs.symm.trans hs₀)
    exact ⟨s', hs', hparent, Or.inr ⟨hcrashed, hP⟩⟩

theorem Evolves.stored (h : Evolves P disk disk') :
    (disk' stem).snapshot ≠ none ↔ (disk stem).snapshot ≠ none := by
  rcases h.kept stem with heq | ⟨⟨s₀, s', hs₀, hs', -, -⟩, -⟩
  · rw [heq]
  · rw [hs₀, hs']
    exact iff_of_true nofun nofun

theorem Evolves.hasRecovery (h : Evolves P disk disk') :
    HasRecovery disk' id ↔ HasRecovery disk id := by
  constructor
  · rintro ⟨stem, s', hs', hrec, hparent⟩
    obtain ⟨s, hs⟩ := Option.ne_none_iff_exists'.mp (h.stored.mp (by rw [hs']; nofun))
    obtain ⟨s₁, hs₁, hparent₁, -⟩ := h.snapshot hs
    obtain rfl := Option.some.inj (hs'.symm.trans hs₁)
    exact ⟨stem, s, hs, hrec, hparent₁.symm.trans hparent⟩
  · rintro ⟨stem, s, hs, hrec, hparent⟩
    obtain ⟨s', hs', hparent', -⟩ := h.snapshot hs
    exact ⟨stem, s', hs', hrec, hparent'.trans hparent⟩

/-! ### Loading -/

/-- The entries of a journal leave the id, and the parent and the status as they have them. -/
theorem foldl_entries (entries : List SessionJournalEntry)
    (h : ∀ e ∈ entries, e.entryMeta.parentId = s.parentId ∧ e.entryMeta.status = s.status) :
    (entries.foldl Saved.applyJournalEntry s).id = s.id ∧
      (entries.foldl Saved.applyJournalEntry s).parentId = s.parentId ∧
      (entries.foldl Saved.applyJournalEntry s).status = s.status := by
  induction entries generalizing s with
  | nil => exact ⟨rfl, rfl, rfl⟩
  | cons e entries ih =>
      obtain ⟨⟨hparent, hstatus⟩, hrest⟩ := List.forall_mem_cons.mp h
      obtain ⟨hid, hparent', hstatus'⟩ := ih (s := s.applyJournalEntry e) fun e' he' =>
        ⟨(hrest e' he').1.trans hparent.symm, (hrest e' he').2.trans hstatus.symm⟩
      exact ⟨hid, hparent'.trans hparent, hstatus'.trans hstatus⟩

theorem lastMeta_of_load {files : Files} (h : loadFromPath files = some session) :
    session.persistState.lastMeta = some session.journalMeta := by
  obtain ⟨saved, -, rfl⟩ := Option.map_eq_some_iff.mp h
  dsimp only
  split
  · rfl
  · rfl

theorem load_stored (h : WellFormed disk) (hs : (disk stem).snapshot = some s) :
    ∃ session, loadFromPath (disk stem) = some session ∧ session.id = stem ∧
      session.parentId = s.parentId ∧ session.status = s.status := by
  obtain ⟨hid, hparent, hstatus⟩ := foldl_entries _ (h.entries stem s hs)
  obtain ⟨session, hload, hsaved⟩ := exists_loadFromPath.mpr
    (show (disk stem).read = some _ by rw [Files.read, hs, Option.map_some])
  refine ⟨session, hload, ?_, ?_, ?_⟩
  · rw [hsaved, hid]
    exact h.id stem s hs
  · rw [hsaved, hparent]
  · rw [hsaved, hstatus]

/-- What a load finds crashed. -/
theorem detectCrash_cases (scan : Scan) (session : Session) :
    scan.detectCrash session = (session, false) ∨
      session.status = .active ∧ ∃ m,
        scan.detectCrash session = ({ session with status := .crashed m }, true) := by
  rw [Scan.detectCrash]
  split
  · exact Or.inl rfl
  · next hactive =>
      have hactive := not_not.mp hactive
      split
      · split
        · exact Or.inl rfl
        · exact Or.inr ⟨hactive, _, rfl⟩
      · split
        · exact Or.inr ⟨hactive, _, rfl⟩
        · exact Or.inl rfl

/-- A save that needs a snapshot writes it, and no journal. -/
theorem save_snapshot {now : DateTime} (files : Files)
    (hneeds : { session with updatedAt := now }.needsSnapshot = true) :
    (session.save scan.lineLen now scan.appendOk files).2 =
      ⟨some { session.toSaved with updatedAt := now }, none⟩ := by
  rcases session.save_cases scan.lineLen now scan.appendOk files with ⟨happends, -⟩ | ⟨-, hsave⟩
  · rw [happends.1] at hneeds
    cases hneeds
  · rw [hsave]
    rfl

/-- A changed status needs a snapshot. -/
theorem needsSnapshot_of_status {m : Option String} {now : DateTime}
    (hmeta : session.persistState.lastMeta = some session.journalMeta)
    (hactive : session.status = .active) :
    { { session with status := .crashed m } with updatedAt := now }.needsSnapshot = true := by
  have hrequires : metadataRequiresSnapshot session.journalMeta
      { { session with status := .crashed m } with updatedAt := now }.journalMeta = true := by
    have hne : (session.journalMeta.status != SessionStatus.crashed m) = true := by
      rw [show session.journalMeta.status = .active from hactive]
      rfl
    simp only [metadataRequiresSnapshot, Saved.journalMeta, Bool.or_eq_true] at hne ⊢
    tauto
  rw [Session.needsSnapshot, hmeta]
  simp [hrequires]

/-- A save leaves the session as it is, but for the time. -/
theorem save_session (scan : Scan) (session : Session) (now : DateTime) (files : Files) :
    (session.save scan.lineLen now scan.appendOk files).1.toSaved =
      { session.toSaved with updatedAt := now } := by
  rcases session.save_cases scan.lineLen now scan.appendOk files with ⟨-, hsave⟩ | ⟨-, hsave⟩
  · rw [hsave]
    rfl
  · rw [hsave]
    rfl

theorem WellFormed.update (h : WellFormed disk) (hid : s.id = stem) :
    WellFormed (Function.update disk stem ⟨some s, none⟩) where
  id := by
    intro other s' hs'
    by_cases heq : other = stem
    · subst heq
      rw [Function.update_self] at hs'
      obtain rfl := Option.some.inj hs'
      exact hid
    · rw [Function.update_of_ne heq] at hs'
      exact h.id other s' hs'
  entries := by
    intro other s' hs' e he
    by_cases heq : other = stem
    · subst heq
      rw [Function.update_self] at he
      cases he
    · rw [Function.update_of_ne heq] at hs' he
      exact h.entries other s' hs' e he

theorem Evolves.update {s' : Saved} (h : WellFormed disk) (hs : (disk stem).snapshot = some s)
    (hP : P stem) (hid : s'.id = stem) (hparent : s'.parentId = s.parentId)
    (hcrashed : isCrashed s'.status = true) :
    Evolves P disk (Function.update disk stem ⟨some s', none⟩) where
  wf := h.update hid
  kept := by
    intro other
    by_cases heq : other = stem
    · subst heq
      rw [Function.update_self]
      exact Or.inr ⟨⟨s, s', hs, rfl, hparent, hcrashed⟩, hP⟩
    · exact Or.inl (Function.update_of_ne heq _ _)

/-- **A load of a stored session.** -/
theorem load_spec (h : WellFormed disk) (hs : (disk stem).snapshot = some s)
    (hP : Detected scan (disk stem) → P stem) :
    ∃ session disk', scan.load disk stem = some (session, disk') ∧ Evolves P disk disk' ∧
      session.id = stem ∧ session.parentId = s.parentId ∧
      found scan (disk stem) = some session.toSaved ∧
      ∀ other, other ≠ stem → disk' other = disk other := by
  obtain ⟨session, hload, rfl, hparent, hstatus⟩ := load_stored h hs
  rw [Scan.load, found, hload, Option.map_some, Option.map_some]
  rcases detectCrash_cases scan session with hnone | ⟨hactive, m, hdetected⟩
  · rw [hnone]
    exact ⟨session, disk, rfl, .refl h, rfl, hparent, rfl, fun _ _ => rfl⟩
  · have hPstem : P session.id := hP ⟨session, hload, by rw [hdetected]⟩
    rw [hdetected]
    simp only [if_true]
    split
    · have hsaved := save_session scan { session with status := .crashed m } scan.now
        (disk session.id)
      refine ⟨_, _, rfl, ?_, ?_, ?_, congrArg some hsaved.symm, ?_⟩
      · rw [save_snapshot (disk session.id)
          (needsSnapshot_of_status (lastMeta_of_load hload) hactive)]
        exact .update h hs hPstem rfl hparent rfl
      · exact (congrArg Saved.id hsaved).trans rfl
      · exact (congrArg Saved.parentId hsaved).trans hparent
      · exact fun other hother => Function.update_of_ne hother _ _
    · exact ⟨_, _, rfl, .refl h, rfl, hparent, rfl, fun _ _ => rfl⟩

/-- **All the sessions of a directory.** -/
theorem loadAll_spec {ids : List String} (h : WellFormed disk) (hnodup : ids.Nodup)
    (hstored : ∀ id ∈ ids, (disk id).snapshot ≠ none)
    (hP : ∀ id ∈ ids, Detected scan (disk id) → P id) :
    Evolves P disk (scan.loadAll ids disk).2 ∧ (scan.loadAll ids disk).1.map (·.id) = ids ∧
      ∀ session ∈ (scan.loadAll ids disk).1, found scan (disk session.id) = some session.toSaved ∧
        ∃ s, (disk session.id).snapshot = some s ∧ session.parentId = s.parentId := by
  induction ids generalizing disk with
  | nil => exact ⟨.refl h, rfl, fun _ hmem => absurd hmem List.not_mem_nil⟩
  | cons id ids ih =>
      obtain ⟨hnew, hnodup⟩ := List.nodup_cons.mp hnodup
      obtain ⟨hid, hstored⟩ := List.forall_mem_cons.mp hstored
      obtain ⟨hPid, hP⟩ := List.forall_mem_cons.mp hP
      obtain ⟨s, hs⟩ := Option.ne_none_iff_exists'.mp hid
      obtain ⟨session, disk₁, hload, hevolves, hsid, hparent, hfound, hother⟩ :=
        load_spec h hs hPid
      have hsame : ∀ id' ∈ ids, disk₁ id' = disk id' := by
        intro id' hid'
        refine hother id' ?_
        rintro rfl
        exact hnew hid'
      obtain ⟨hevolves', hids, hsessions⟩ := ih hevolves.wf hnodup
        (fun id' hid' => by rw [hsame id' hid']; exact hstored id' hid')
        (fun id' hid' hdet => hP id' hid' (by rwa [hsame id' hid'] at hdet))
      simp only [Scan.loadAll, hload]
      refine ⟨hevolves.trans hevolves', by rw [List.map_cons, hsid, hids], ?_⟩
      rw [List.forall_mem_cons]
      refine ⟨⟨by rw [hsid, hfound], s, by rw [hsid, hs], hparent⟩, fun session' hsession' => ?_⟩
      have hmem : session'.id ∈ ids := hids ▸ List.mem_map_of_mem hsession'
      rw [← hsame _ hmem]
      exact hsessions session' hsession'

theorem loadAllowed_spec {recovered ids : List String} (h : WellFormed disk) (hnodup : ids.Nodup)
    (hP : ∀ id ∈ ids, id ∉ recovered → P id) {sessions : List Session}
    (hload : scan.loadAllowed recovered ids disk = some (sessions, disk')) :
    Evolves P disk disk' ∧ (sessions.map (·.id)).Nodup ∧
      ∀ session ∈ sessions, session.id ∈ ids ∧ session.id ∉ recovered ∧
        found scan (disk session.id) = some session.toSaved ∧ isCrashed session.status = true := by
  induction ids generalizing disk sessions with
  | nil =>
      obtain ⟨rfl, rfl⟩ := Prod.mk.inj (Option.some.inj hload)
      exact ⟨.refl h, List.nodup_nil, fun _ hmem => absurd hmem List.not_mem_nil⟩
  | cons id ids ih =>
      obtain ⟨hnew, hnodup⟩ := List.nodup_cons.mp hnodup
      obtain ⟨hPid, hP⟩ := List.forall_mem_cons.mp hP
      rw [Scan.loadAllowed] at hload
      split at hload
      · obtain ⟨hevolves, hids, hsessions⟩ := ih h hnodup hP hload
        refine ⟨hevolves, hids, fun session hsession => ?_⟩
        obtain ⟨hmem, hrest⟩ := hsessions session hsession
        exact ⟨List.mem_cons_of_mem _ hmem, hrest⟩
      · next hskip =>
          simp only [Bool.or_eq_true, not_or, List.contains_iff_mem, Option.isNone_iff_eq_none]
            at hskip
          obtain ⟨hunrecovered, hstored⟩ := hskip
          obtain ⟨s, hs⟩ := Option.ne_none_iff_exists'.mp hstored
          obtain ⟨session, disk₁, hone, hevolves, hsid, -, hfound, hother⟩ :=
            load_spec h hs fun _ => hPid hunrecovered
          rw [hone, Option.bind_some] at hload
          obtain ⟨⟨rest, disk₂⟩, hrest, heq⟩ := Option.map_eq_some_iff.mp hload
          obtain ⟨rfl, rfl⟩ := Prod.mk.inj heq
          obtain ⟨hevolves', hids, hsessions⟩ := ih hevolves.wf hnodup hP hrest
          have hrests : ∀ session ∈ rest, session.id ∈ id :: ids ∧ session.id ∉ recovered ∧
              found scan (disk session.id) = some session.toSaved ∧
                isCrashed session.status = true := by
            intro session' hsession'
            obtain ⟨hmem, hnot, hfound', hcrashed⟩ := hsessions session' hsession'
            have hne : session'.id ≠ id := by
              rintro heq
              exact hnew (heq ▸ hmem)
            rw [hother _ hne] at hfound'
            exact ⟨List.mem_cons_of_mem _ hmem, hnot, hfound', hcrashed⟩
          refine ⟨hevolves.trans hevolves', ?_⟩
          dsimp only
          split
          · next hcrashed =>
              refine ⟨?_, List.forall_mem_cons.mpr ⟨?_, hrests⟩⟩
              · rw [List.map_cons, List.nodup_cons, hsid]
                refine ⟨fun hmem => ?_, hids⟩
                obtain ⟨session', hsession', hid'⟩ := List.mem_map.mp hmem
                exact hnew (hid' ▸ (hsessions session' hsession').1)
              · rw [hsid]
                exact ⟨List.mem_cons_self, hunrecovered, hfound, hcrashed⟩
          · exact ⟨hids, hrests⟩

/-! ### What a call recovers -/

/-- The listing is the directory's, and new ids are new. -/
structure ScanOk (scan : Scan) (disk : Disk) : Prop where
  nodup : scan.listing.Nodup
  complete : ∀ stem, stem ∈ scan.listing ↔ (disk stem).snapshot ≠ none
  injective : Function.Injective scan.recId
  fresh : ∀ i, (disk (scan.newId i)).snapshot = none

theorem mem_stubParents (hscan : ScanOk scan disk) :
    id ∈ stubParents scan disk ↔ HasRecovery disk id := by
  rw [stubParents, List.mem_filterMap]
  constructor
  · rintro ⟨stem, -, hparent⟩
    split at hparent
    · next hrec =>
        obtain ⟨s, hs, hparent⟩ := Option.bind_eq_some_iff.mp hparent
        exact ⟨stem, s, hs, hrec, hparent⟩
    · cases hparent
  · rintro ⟨stem, s, hs, hrec, hparent⟩
    refine ⟨stem, (hscan.complete stem).mpr (by rw [hs]; nofun), ?_⟩
    rw [if_pos hrec, hs, Option.bind_some, hparent]

theorem mem_recoveredParents {sessions : List Session} (hscan : ScanOk scan disk)
    (hids : sessions.map (·.id) = scan.listing)
    (hsessions : ∀ session ∈ sessions, found scan (disk session.id) = some session.toSaved ∧
      ∃ s, (disk session.id).snapshot = some s ∧ session.parentId = s.parentId) :
    id ∈ recoveredParents sessions ↔ HasRecovery disk id := by
  rw [recoveredParents, List.mem_filterMap]
  constructor
  · rintro ⟨session, hsession, hparent⟩
    split at hparent
    · next hrec =>
        obtain ⟨-, s, hs, hparent'⟩ := hsessions session hsession
        exact ⟨session.id, s, hs, hrec, hparent'.symm.trans hparent⟩
    · cases hparent
  · rintro ⟨stem, s, hs, hrec, hparent⟩
    have hmem : stem ∈ sessions.map (·.id) := by
      rw [hids]
      exact (hscan.complete stem).mpr (by rw [hs]; nofun)
    obtain ⟨session, hsession, rfl⟩ := List.mem_map.mp hmem
    obtain ⟨-, s', hs', hparent'⟩ := hsessions session hsession
    obtain rfl := Option.some.inj (hs.symm.trans hs')
    exact ⟨session, hsession, by rw [if_pos hrec, hparent', hparent]⟩

theorem unrecovered_sublist (sessions : List Session) :
    (unrecovered sessions).Sublist sessions := List.filter_sublist.trans List.filter_sublist

theorem retain_sublist (crashed : List Session) :
    (retainRelevantCrashGroup crashed).Sublist crashed := by
  rw [retainRelevantCrashGroup]
  split
  · exact List.Sublist.refl _
  · exact List.filter_sublist

theorem not_recovered_of_mem {sessions : List Session} (h : session ∈ unrecovered sessions) :
    session.id ∉ recoveredParents sessions := by
  have hnot := (List.mem_filter.mp h).2
  rwa [Bool.not_eq_true', ← Bool.not_eq_true, List.contains_iff_mem] at hnot

/-- Whose files a call may turn to crashed. -/
def MayTurn (scan : Scan) (disk : Disk) : Call → String → Prop
  | .recoverCrashedSessions, id => Detected scan (disk id)
  | .recoverCrashedSessionsByIds _, id => ¬ HasRecovery disk id

/-- When a session was last active. -/
def lastSeen (s : Saved) : DateTime := s.lastActiveAt.getD s.updatedAt

/-- A crash that is found, and has no recovery session. -/
structure Pending (scan : Scan) (disk : Disk) (id : String) (s : Saved) : Prop where
  found : found scan (disk id) = some s
  crashed : isCrashed s.status = true
  unrecovered : ¬ HasRecovery disk id

/-- A call asks for a crash by its id, or as one of the last minute before the most recent. -/
def Asks (scan : Scan) (disk : Disk) : Call → String → Saved → Prop
  | .recoverCrashedSessions, _, s => ∀ id' s', Pending scan disk id' s' →
      lastSeen s' - lastSeen s ≤ RELEVANT_CRASH_GROUP_WINDOW_SECS * second
  | .recoverCrashedSessionsByIds ids, id, _ => id ∈ ids

/-- The crashes of the group are within a minute of all the others. -/
theorem mem_retain {crashed : List Session} (h : session ∈ retainRelevantCrashGroup crashed)
    (hother : old ∈ crashed) :
    lastSeen old.toSaved - lastSeen session.toSaved ≤
      RELEVANT_CRASH_GROUP_WINDOW_SECS * second := by
  rw [retainRelevantCrashGroup] at h
  split at h
  · next hnone =>
      rw [List.max?_eq_none_iff, List.map_eq_nil_iff] at hnone
      rw [hnone] at hother
      exact absurd hother List.not_mem_nil
  · next mostRecent hmax =>
      have hwithin := of_decide_eq_true (List.mem_filter.mp h).2
      have hle : crashTimestamp old ≤ mostRecent :=
        (List.max?_eq_some_iff.mp hmax).2 _ (List.mem_map_of_mem hother)
      exact (Int.sub_le_sub_right hle _).trans hwithin.2

/-- What loading the whole directory gives: the crashes that are pending. -/
theorem loadListing_spec (hscan : ScanOk scan disk) (h : WellFormed disk) :
    Evolves (fun id => Detected scan (disk id)) disk (scan.loadAll scan.listing disk).2 ∧
      ((scan.loadAll scan.listing disk).1.map (·.id)).Nodup ∧
      (∀ session ∈ unrecovered (scan.loadAll scan.listing disk).1,
        Pending scan disk session.id session.toSaved) ∧
      ∀ id s, Pending scan disk id s →
        ∃ session ∈ unrecovered (scan.loadAll scan.listing disk).1, session.toSaved = s := by
  obtain ⟨hevolves, hids, hsessions⟩ := loadAll_spec h hscan.nodup
    (fun id hid => (hscan.complete id).mp hid) fun _ _ hdet => hdet
  refine ⟨hevolves, by rw [hids]; exact hscan.nodup, fun session hsession => ?_, ?_⟩
  · obtain ⟨hcrashed, -⟩ := List.mem_filter.mp hsession
    obtain ⟨hmem, hcrashed⟩ := List.mem_filter.mp hcrashed
    refine ⟨(hsessions session hmem).1, hcrashed, ?_⟩
    rw [← mem_recoveredParents hscan hids hsessions]
    exact not_recovered_of_mem hsession
  · rintro id s ⟨hfound, hcrashed, hunrecovered⟩
    obtain ⟨loaded, hload, -⟩ := Option.map_eq_some_iff.mp hfound
    have hmem : id ∈ (scan.loadAll scan.listing disk).1.map (·.id) := by
      rw [hids, hscan.complete]
      intro hnone
      obtain ⟨saved, hread, -⟩ := Option.map_eq_some_iff.mp hload
      rw [Files.read, hnone] at hread
      cases hread
    obtain ⟨session, hsession, rfl⟩ := List.mem_map.mp hmem
    obtain rfl := Option.some.inj ((hsessions session hsession).1.symm.trans hfound)
    refine ⟨session, List.mem_filter.mpr ⟨List.mem_filter.mpr ⟨hsession, hcrashed⟩, ?_⟩, rfl⟩
    rwa [Bool.not_eq_true', ← Bool.not_eq_true, List.contains_iff_mem,
      mem_recoveredParents hscan hids hsessions]

/-- **What a call recovers**: crashes that are pending and that it asks for, once. -/
theorem chosen_spec {call : Call} {chosen : List Session} (hscan : ScanOk scan disk)
    (h : WellFormed disk) (hchosen : scan.chosen disk call = some (chosen, disk')) :
    Evolves (MayTurn scan disk call) disk disk' ∧ (chosen.map (·.id)).Nodup ∧
      ∀ old ∈ chosen, Pending scan disk old.id old.toSaved ∧
        Asks scan disk call old.id old.toSaved := by
  cases call with
  | recoverCrashedSessions =>
      obtain ⟨rfl, rfl⟩ := Prod.mk.inj (Option.some.inj hchosen)
      obtain ⟨hevolves, hids, hpending, hall⟩ := loadListing_spec hscan h
      have hsub := retain_sublist (unrecovered (scan.loadAll scan.listing disk).1)
      refine ⟨hevolves, ?_, fun old hold => ⟨hpending old (hsub.subset hold), ?_⟩⟩
      · exact hids.sublist ((hsub.trans (unrecovered_sublist _)).map _)
      · intro id' s' hs'
        obtain ⟨other, hother, rfl⟩ := hall id' s' hs'
        exact mem_retain hold hother
  | recoverCrashedSessionsByIds ids =>
      obtain ⟨hevolves, hids, hsessions⟩ := loadAllowed_spec h ids.nodup_dedup
        (fun id _ hnot => show ¬ HasRecovery disk id by rwa [← mem_stubParents hscan]) hchosen
      refine ⟨hevolves, hids, fun old hold => ?_⟩
      obtain ⟨hmem, hnot, hfound, hcrashed⟩ := hsessions old hold
      rw [mem_stubParents hscan] at hnot
      exact ⟨⟨hfound, hcrashed, hnot⟩, List.mem_dedup.mp hmem⟩

/-! ### Recovery sessions -/

theorem isRecovery_newId (scan : Scan) (i : ℕ) : isRecovery (scan.newId i) = true := by
  rw [isRecovery, startsWith, Scan.newId, String.toList_append, List.isPrefixOf_iff_prefix]
  exact List.prefix_append _ _

theorem recId_of_newId {scan' : Scan} {i j : ℕ} (heq : scan.newId i = scan'.newId j) :
    scan.recId i = scan'.recId j := by
  refine String.toList_inj.mp ?_
  have hlists := congrArg String.toList heq
  rw [Scan.newId, Scan.newId, String.toList_append, String.toList_append] at hlists
  exact List.append_cancel_left hlists

theorem newId_injective (hscan : ScanOk scan disk) : Function.Injective scan.newId :=
  fun _ _ heq => hscan.injective (recId_of_newId heq)

def withMessages (s : Saved) (messages : List StoredMessage) : Saved :=
  { s with messages := messages }

/-- A message is added to the messages alone. -/
theorem addMessage_toSaved (scan : Scan) (session : Session) (role : Role)
    (content : List ContentBlock) :
    ∃ msg : StoredMessage, msg.content = content ∧
      (scan.addMessage role content session).toSaved =
        withMessages session.toSaved (session.messages ++ [msg]) ∧
      (scan.addMessage role content session).persistState.snapshotExists =
        session.persistState.snapshotExists :=
  ⟨_, rfl, rfl, rfl⟩

/-- The texts of a message. -/
def texts (msg : StoredMessage) : List String := msg.content.flatMap blockWords

theorem flatMap_isText (content : List ContentBlock) :
    (content.filter isText).flatMap blockWords = content.flatMap blockWords := by
  induction content with
  | nil => rfl
  | cons block content ih =>
      cases block with
      | text text cacheControl =>
          rw [List.filter_cons_of_pos rfl, List.flatMap_cons, List.flatMap_cons, ih]
      | _ =>
          rw [List.filter_cons_of_neg Bool.false_ne_true, List.flatMap_cons, ih]
          rfl

/-- All the texts are added, to the messages alone. -/
theorem foldl_addTexts (scan : Scan) (msgs : List StoredMessage) (session : Session) :
    ∃ more : List StoredMessage,
      (msgs.foldl scan.addTexts session).toSaved =
        withMessages session.toSaved (session.messages ++ more) ∧
      (msgs.foldl scan.addTexts session).persistState.snapshotExists =
        session.persistState.snapshotExists ∧
      ∀ msg ∈ msgs, ∀ text ∈ texts msg, ∃ m ∈ more, text ∈ texts m := by
  induction msgs generalizing session with
  | nil =>
      refine ⟨[], ?_, rfl, nofun⟩
      rw [List.append_nil]
      rfl
  | cons msg msgs ih =>
      obtain ⟨more, hsaved, hexists, htexts⟩ := ih (scan.addTexts session msg)
      rw [List.foldl_cons]
      by_cases hkept : msg.content.filter isText = []
      · have hsame : scan.addTexts session msg = session := if_pos hkept
        have hnone : texts msg = [] := by
          rw [texts, ← flatMap_isText, hkept]
          rfl
        rw [hsame] at hsaved hexists ⊢
        refine ⟨more, hsaved, hexists, List.forall_mem_cons.mpr ⟨?_, htexts⟩⟩
        rw [hnone]
        nofun
      · have hadd : scan.addTexts session msg =
            scan.addMessage msg.role (msg.content.filter isText) session := if_neg hkept
        obtain ⟨m, hm, hsaved', hexists'⟩ :=
          addMessage_toSaved scan session msg.role (msg.content.filter isText)
        rw [hadd] at hsaved hexists ⊢
        refine ⟨m :: more, ?_, hexists.trans hexists', List.forall_mem_cons.mpr ⟨?_, ?_⟩⟩
        · rw [hsaved, hsaved']
          exact congrArg (withMessages session.toSaved)
            (List.append_assoc session.messages [m] more)
        · intro text htext
          refine ⟨m, List.mem_cons_self, ?_⟩
          rwa [texts, hm, flatMap_isText]
        · intro msg' hmsg' text htext
          obtain ⟨m', hm', htext'⟩ := htexts msg' hmsg' text htext
          exact ⟨m', List.mem_cons_of_mem _ hm', htext'⟩

/-- **A recovery session** has the crashed one for its parent, and the strings of it. -/
theorem recoverySession_spec (scan : Scan) (newId : String) (old : Session) :
    (scan.recoverySession newId old).id = newId ∧
      (scan.recoverySession newId old).parentId = some old.id ∧
      (scan.recoverySession newId old).status = .closed ∧
      (scan.recoverySession newId old).persistState.snapshotExists = false ∧
      words old.toSaved ⊆ words (scan.recoverySession newId old).toSaved := by
  obtain ⟨more, hsaved, hexists, htexts⟩ := foldl_addTexts scan old.messages
    (scan.addMessage .user [.text (recoveryHeader old) none] (scan.recoveryHead newId old))
  obtain ⟨m, -, hsaved', hexists'⟩ := addMessage_toSaved scan (scan.recoveryHead newId old)
    .user [.text (recoveryHeader old) none]
  rw [Scan.recoverySession]
  rw [hsaved, hexists, hexists', hsaved']
  refine ⟨rfl, rfl, rfl, rfl, ?_⟩
  intro word hword
  rw [words, List.mem_append] at hword ⊢
  rcases hword with hfield | htext
  · exact Or.inl hfield
  · right
    obtain ⟨msg, hmsg, htext⟩ := List.mem_flatMap.mp htext
    obtain ⟨m', hm', htext'⟩ := htexts msg hmsg word htext
    exact List.mem_flatMap.mpr ⟨m', List.mem_append_right _ hm', htext'⟩

/-- The snapshot of a recovery session, as it is saved. -/
def recoverySaved (scan : Scan) (newId : String) (old : Session) : Saved :=
  { (scan.recoverySession newId old).toSaved with updatedAt := scan.now }

theorem recoverySaved_spec (scan : Scan) (newId : String) (old : Session) :
    (recoverySaved scan newId old).id = newId ∧
      (recoverySaved scan newId old).parentId = some old.id ∧
      (recoverySaved scan newId old).status = .closed ∧
      words old.toSaved ⊆ words (recoverySaved scan newId old) := by
  obtain ⟨hid, hparent, hstatus, -, hwords⟩ := recoverySession_spec scan newId old
  exact ⟨hid, hparent, hstatus, hwords⟩

theorem save_recoverySession (scan : Scan) (newId : String) (old : Session) (files : Files) :
    ((scan.recoverySession newId old).save scan.lineLen scan.now scan.appendOk files).2 =
      ⟨some (recoverySaved scan newId old), none⟩ := by
  obtain ⟨-, -, -, hexists, -⟩ := recoverySession_spec scan newId old
  refine save_snapshot files ?_
  have hnew : (!(scan.recoverySession newId old).persistState.snapshotExists) = true := by
    rw [hexists]
    rfl
  simp only [Session.needsSnapshot, hnew, Bool.or_true, Bool.true_or]

theorem recoverFrom_cons (i : ℕ) (old : Session) (crashed : List Session) :
    scan.recoverFrom i (old :: crashed) disk = scan.recoverFrom (i + 1) crashed
      (Function.update disk (scan.newId i)
        ⟨some (recoverySaved scan (scan.newId i) old), none⟩) := by
  rw [Scan.recoverFrom]
  simp only [(recoverySession_spec scan (scan.newId i) old).1, save_recoverySession]

/-- **The recovery sessions of a call**, and the files that stay as they are. -/
theorem recoverFrom_spec (i : ℕ) (crashed : List Session) (h : WellFormed disk)
    (hinj : Function.Injective scan.newId)
    (hfresh : ∀ j ≥ i, (disk (scan.newId j)).snapshot = none) :
    WellFormed (scan.recoverFrom i crashed disk) ∧
      (∀ stem, (disk stem).snapshot ≠ none → scan.recoverFrom i crashed disk stem = disk stem) ∧
      (∀ stem s, (scan.recoverFrom i crashed disk stem).snapshot = some s →
        (disk stem).snapshot = some s ∨
          s.status = .closed ∧ ∃ old ∈ crashed, s.parentId = some old.id) ∧
      ∀ old ∈ crashed, ∃ stem s, (scan.recoverFrom i crashed disk stem).snapshot = some s ∧
        isRecovery stem = true ∧ s.parentId = some old.id ∧ words old.toSaved ⊆ words s := by
  induction crashed generalizing i disk with
  | nil => exact ⟨h, fun _ _ => rfl, fun _ _ hs => Or.inl hs, fun _ hmem => absurd hmem List.not_mem_nil⟩
  | cons old crashed ih =>
      obtain ⟨hid, hparent, hstatus, hwords⟩ := recoverySaved_spec scan (scan.newId i) old
      have hnew : ∀ j ≥ i + 1, scan.newId j ≠ scan.newId i := by
        intro j hj heq
        have := hinj heq
        omega
      obtain ⟨hwf, hkept, honly, hrecovered⟩ := ih (i + 1) (h.update hid) fun j hj => by
        rw [Function.update_of_ne (hnew j hj)]
        exact hfresh j (by omega)
      rw [recoverFrom_cons]
      refine ⟨hwf, fun stem hstem => ?_, fun stem s' hs' => ?_, ?_⟩
      · have hne : stem ≠ scan.newId i := by
          rintro rfl
          exact hstem (hfresh i le_rfl)
        rw [hkept stem (by rwa [Function.update_of_ne hne]), Function.update_of_ne hne]
      · rcases honly stem s' hs' with hbefore | ⟨hclosed, old', hold', hparent'⟩
        · by_cases heq : stem = scan.newId i
          · subst heq
            rw [Function.update_self] at hbefore
            obtain rfl := Option.some.inj hbefore
            exact Or.inr ⟨hstatus, old, List.mem_cons_self, hparent⟩
          · rw [Function.update_of_ne heq] at hbefore
            exact Or.inl hbefore
        · exact Or.inr ⟨hclosed, old', List.mem_cons_of_mem _ hold', hparent'⟩
      · refine List.forall_mem_cons.mpr ⟨⟨scan.newId i, _, ?_, isRecovery_newId scan i, hparent, hwords⟩,
          hrecovered⟩
        rw [hkept (scan.newId i) (by rw [Function.update_self]; nofun), Function.update_self]

theorem mem_sortByCrash {crashed : List Session} : old ∈ sortByCrash crashed ↔ old ∈ crashed :=
  List.mem_mergeSort

/-- Where a snapshot comes from that is there after a call. -/
def CameFrom (scan : Scan) (disk : Disk) (call : Call) (chosen : List Session) (stem : String)
    (s' : Saved) : Prop :=
  (∃ s, (disk stem).snapshot = some s ∧ s'.parentId = s.parentId ∧
    (s' = s ∨ isCrashed s'.status = true ∧ MayTurn scan disk call stem)) ∨
  s'.status = .closed ∧ ∃ old ∈ chosen, s'.parentId = some old.id

/-- **A call that succeeds.** -/
theorem recover_spec {call : Call} {chosen : List Session} (hscan : ScanOk scan disk)
    (h : WellFormed disk) (hrecover : scan.recover disk call = some (chosen, disk')) :
    WellFormed disk' ∧ (chosen.map (·.id)).Nodup ∧
      (∀ old ∈ chosen, Pending scan disk old.id old.toSaved ∧
        Asks scan disk call old.id old.toSaved) ∧
      (∀ stem s, (disk stem).snapshot = some s → ∃ s', (disk' stem).snapshot = some s' ∧
        s'.parentId = s.parentId ∧ (s' = s ∨ isCrashed s'.status = true)) ∧
      (∀ stem s', (disk' stem).snapshot = some s' → CameFrom scan disk call chosen stem s') ∧
      ∀ old ∈ chosen, ∃ stem s', (disk' stem).snapshot = some s' ∧ isRecovery stem = true ∧
        s'.parentId = some old.id ∧ words old.toSaved ⊆ words s' := by
  obtain ⟨⟨chosen, disk₁⟩, hchosen, heq⟩ := Option.map_eq_some_iff.mp hrecover
  obtain ⟨rfl, rfl⟩ := Prod.mk.inj heq
  obtain ⟨hevolves, hids, hasked⟩ := chosen_spec hscan h hchosen
  have hfresh : ∀ j ≥ 0, (disk₁ (scan.newId j)).snapshot = none := by
    intro j _
    by_contra hstored
    exact hevolves.stored.mp hstored (hscan.fresh j)
  obtain ⟨hwf, hkept, honly, hrecovered⟩ := recoverFrom_spec 0 (sortByCrash chosen)
    hevolves.wf (newId_injective hscan) hfresh
  refine ⟨hwf, hids, hasked, fun stem s hs => ?_, fun stem s' hs' => ?_, fun old hold => ?_⟩
  · obtain ⟨s', hs', hparent, hcases⟩ := hevolves.snapshot hs
    refine ⟨s', ?_, hparent, hcases.imp_right And.left⟩
    rw [Scan.recoverLoaded, hkept stem (by rw [hs']; nofun), hs']
  · rcases honly stem s' hs' with hbefore | ⟨hclosed, old, hold, hparent⟩
    · obtain ⟨s, hs⟩ := Option.ne_none_iff_exists'.mp (hevolves.stored.mp (by rw [hbefore]; nofun))
      obtain ⟨s₁, hs₁, hparent, hcases⟩ := hevolves.snapshot hs
      obtain rfl := Option.some.inj (hbefore.symm.trans hs₁)
      exact Or.inl ⟨s, hs, hparent, hcases⟩
    · exact Or.inr ⟨hclosed, old, mem_sortByCrash.mp hold, hparent⟩
  · exact hrecovered old (mem_sortByCrash.mpr hold)

/-! ### Runs -/

/-- The files, and the sessions that the calls so far have recovered. -/
structure State where
  disk : Disk
  recovered : List String

/-- A call that succeeds. -/
def step (s : State) (e : Scan × Call) : Option State :=
  (e.1.recover s.disk e.2).map fun r => ⟨r.2, s.recovered ++ r.1.map (·.id)⟩

/-- What holds of any run: what has been recovered has a recovery session, and was recovered once. -/
structure Recovered (s : State) : Prop where
  wf : WellFormed s.disk
  nodup : s.recovered.Nodup
  handled : ∀ id ∈ s.recovered, HasRecovery s.disk id

theorem Recovered.step {st st' : State} {call : Call} (h : Recovered st)
    (hscan : ScanOk scan st.disk) (hstep : step st (scan, call) = some st') : Recovered st' := by
  obtain ⟨⟨chosen, disk'⟩, hrecover, rfl⟩ := Option.map_eq_some_iff.mp hstep
  obtain ⟨hwf, hids, hasked, hstays, -, hnew⟩ := recover_spec hscan h.wf hrecover
  refine ⟨hwf, ?_, ?_⟩
  · refine List.nodup_append.mpr ⟨h.nodup, hids, ?_⟩
    rintro id hid id' hid' rfl
    obtain ⟨old, hold, rfl⟩ := List.mem_map.mp hid'
    exact (hasked old hold).1.unrecovered (h.handled _ hid)
  · intro id hid
    rcases List.mem_append.mp hid with hid | hid
    · obtain ⟨stem, s, hs, hrec, hparent⟩ := h.handled id hid
      obtain ⟨s', hs', hparent', -⟩ := hstays stem s hs
      exact ⟨stem, s', hs', hrec, hparent'.trans hparent⟩
    · obtain ⟨old, hold, rfl⟩ := List.mem_map.mp hid
      obtain ⟨stem, s', hs', hrec, hparent, -⟩ := hnew old hold
      exact ⟨stem, s', hs', hrec, hparent⟩

/-! ### The legacy scan -/

/-- A recovery session of `id` that the legacy scan parses. -/
def Visible (text : SnapshotText) (disk : Disk) (id : String) : Prop :=
  ∃ stem s, (disk stem).snapshot = some s ∧ isRecovery stem = true ∧ s.parentId = some id ∧
    ∃ word ∈ searched, text.quotes s word = true

/-- The legacy scan sees a recovery session of each crashed one that has some. -/
def Agrees (text : SnapshotText) (disk : Disk) : Prop :=
  ∀ id s, (disk id).snapshot = some s → isCrashed s.status = true → HasRecovery disk id →
    Visible text disk id

/-- The files and their sessions are within the windows of the legacy scan. -/
def InWindow (scan : Scan) (disk : Disk) : Prop :=
  ∀ stem s, (disk stem).snapshot = some s →
    scan.recent stem = true ∧ scan.now - 24 * hour < s.lastActiveAt.getD s.updatedAt

variable {text : SnapshotText}

theorem Visible.hasRecovery (h : Visible text disk id) : HasRecovery disk id := by
  obtain ⟨stem, s, hs, hrec, hparent, -⟩ := h
  exact ⟨stem, s, hs, hrec, hparent⟩

theorem mem_headers (hscan : ScanOk scan disk) (hwindow : InWindow scan disk) :
    s ∈ scan.headers text disk ↔ ∃ stem, (disk stem).snapshot = some s ∧
      ∃ word ∈ searched, text.quotes s word = true := by
  rw [Scan.headers, List.mem_filterMap]
  constructor
  · rintro ⟨stem, -, hs⟩
    obtain ⟨hs, hquotes⟩ := Option.filter_eq_some_iff.mp hs
    exact ⟨stem, hs, List.any_eq_true.mp hquotes⟩
  · rintro ⟨stem, hs, hquotes⟩
    refine ⟨stem, List.mem_filter.mpr ⟨?_, (hwindow stem s hs).1⟩, ?_⟩
    · exact (hscan.complete stem).mpr (by rw [hs]; nofun)
    · exact Option.filter_eq_some_iff.mpr ⟨hs, List.any_eq_true.mpr hquotes⟩

/-- **The legacy scan is exact** as far as it sees the recovery sessions. -/
theorem mem_legacy (hscan : ScanOk scan disk) (h : WellFormed disk) (hwindow : InWindow scan disk) :
    id ∈ (scan.findCrashedLegacyScan text disk).map Prod.fst ↔
      (∃ s, (disk id).snapshot = some s ∧ isCrashed s.status = true) ∧ ¬ Visible text disk id := by
  have hrecovered : id ∈ ((scan.headers text disk).filterMap fun s =>
      if isRecovery s.id then s.parentId else none) ↔ Visible text disk id := by
    rw [List.mem_filterMap]
    constructor
    · rintro ⟨s, hs, hparent⟩
      obtain ⟨stem, hstem, hquotes⟩ := (mem_headers hscan hwindow).mp hs
      split at hparent
      · next hrec => exact ⟨stem, s, hstem, h.id stem s hstem ▸ hrec, hparent, hquotes⟩
      · cases hparent
    · rintro ⟨stem, s, hstem, hrec, hparent, hquotes⟩
      refine ⟨s, (mem_headers hscan hwindow).mpr ⟨stem, hstem, hquotes⟩, ?_⟩
      rw [h.id stem s hstem, if_pos hrec, hparent]
  rw [Scan.findCrashedLegacyScan, List.map_map]
  simp only [List.mem_map, List.mem_mergeSort, List.mem_filter, Function.comp_apply]
  constructor
  · rintro ⟨s, ⟨⟨⟨⟨hs, -⟩, hcrashed⟩, hnot⟩, -⟩, rfl⟩
    obtain ⟨stem, hstem, -⟩ := (mem_headers hscan hwindow).mp hs
    refine ⟨⟨s, by rw [h.id stem s hstem, hstem], hcrashed⟩, fun hvisible => ?_⟩
    rw [Bool.not_eq_true', ← Bool.not_eq_true, List.contains_iff_mem, hrecovered] at hnot
    exact hnot hvisible
  · rintro ⟨⟨s, hs, hcrashed⟩, hnot⟩
    have hquotes := text.crashed s hcrashed
    have hheader : s ∈ scan.headers text disk := 
      (mem_headers hscan hwindow).mpr ⟨id, hs, "Crashed", List.mem_cons_self, hquotes⟩
    obtain rfl := h.id id s hs
    refine ⟨s, ⟨⟨⟨⟨hheader, hquotes⟩, hcrashed⟩, ?_⟩, ?_⟩, rfl⟩
    · rwa [Bool.not_eq_true', ← Bool.not_eq_true, List.contains_iff_mem, hrecovered]
    · exact decide_eq_true (hwindow _ s hs).2

/-! ### Recoveries that the legacy scan sees -/

/-- A string that a recovery copies has one of the words that are searched. -/
def Marked (s : Saved) : Prop := ∃ text ∈ s.id :: words s, ∃ word ∈ searched, quoted word text = true

/-- A call on files where the legacy scan will see the recovery sessions: those of the crashes that
the call asks for, and those of the sessions that turn out to be crashed. -/
structure Meets (text : SnapshotText) (scan : Scan) (disk : Disk) (call : Call) : Prop where
  marked : ∀ id s, Pending scan disk id s → Asks scan disk call id s → Marked s
  turned : ∀ id, MayTurn scan disk call id → HasRecovery disk id → Visible text disk id

/-- What a run keeps where the calls are such. -/
structure Seen (text : SnapshotText) (s : State) : Prop where
  recovered : Recovered s
  agrees : Agrees text s.disk
  visible : ∀ id ∈ s.recovered, Visible text s.disk id

theorem Seen.step {st st' : State} {call : Call} (h : Seen text st) (hscan : ScanOk scan st.disk)
    (hmeets : Meets text scan st.disk call) (hstep : step st (scan, call) = some st') :
    Seen text st' := by
  have hrecovered' := h.recovered.step hscan hstep
  obtain ⟨⟨chosen, disk'⟩, hrecover, rfl⟩ := Option.map_eq_some_iff.mp hstep
  obtain ⟨-, -, hasked, hstays, hfrom, hnew⟩ := recover_spec hscan h.recovered.wf hrecover
  -- what the scan saw it still sees
  have hkeeps : ∀ id, Visible text st.disk id → Visible text disk' id := by
    rintro id ⟨stem, s, hs, hrec, hparent, hquotes⟩
    obtain ⟨s', hs', hparent', hsame | hcrashed⟩ := hstays stem s hs
    · exact ⟨stem, s', hs', hrec, hparent'.trans hparent, by rwa [hsame]⟩
    · exact ⟨stem, s', hs', hrec, hparent'.trans hparent, "Crashed", List.mem_cons_self,
        text.crashed s' hcrashed⟩
  have hchosenVisible : ∀ old ∈ chosen, Visible text disk' old.id := by
    intro old hold
    obtain ⟨stem, s', hs', hrec, hparent, hwords⟩ := hnew old hold
    obtain ⟨hpending, hasks⟩ := hasked old hold
    obtain ⟨copied, hcopied, word, hword, hquoted⟩ := hmeets.marked _ _ hpending hasks
    refine ⟨stem, s', hs', hrec, hparent, word, hword, text.holds s' copied ?_ word hword hquoted⟩
    rcases List.mem_cons.mp hcopied with rfl | hcopied
    · -- the id is the recovery session's parent
      rw [hparent]
      exact List.mem_cons_self
    · exact List.mem_append_right _ (hwords hcopied)
  refine ⟨hrecovered', ?_, ?_⟩
  · intro id s' hs' hcrashed hrecovery
    by_cases hbefore : HasRecovery st.disk id
    · rcases hfrom id s' hs' with ⟨s, hs, -, rfl | ⟨-, hturn⟩⟩ | ⟨hclosed, -⟩
      · exact hkeeps id (h.agrees id s' hs hcrashed hbefore)
      · exact hkeeps id (hmeets.turned id hturn hbefore)
      · rw [hclosed] at hcrashed
        cases hcrashed
    · -- the recovery session is one of the call's
      obtain ⟨stem, r, hr, hrec, hparent⟩ := hrecovery
      rcases hfrom stem r hr with ⟨r₀, hr₀, hparent₀, -⟩ | ⟨-, old, hold, hparent'⟩
      · exact absurd ⟨stem, r₀, hr₀, hrec, hparent₀.symm.trans hparent⟩ hbefore
      · obtain rfl := Option.some.inj (hparent'.symm.trans hparent)
        exact hchosenVisible old hold
  · intro id hid
    rcases List.mem_append.mp hid with hid | hid
    · exact hkeeps id (h.visible id hid)
    · obtain ⟨old, hold, rfl⟩ := List.mem_map.mp hid
      exact hchosenVisible old hold

/-- Each crashed session is recovered at most once, and from then on none of the scanners and of the
calls has it; and the legacy scan lists the crashed snapshots that have no recovery session. -/
structure OfferedOnce (text : SnapshotText) (s : State) : Prop where
  once : s.recovered.Nodup
  leftOut : ∀ scan, ScanOk scan s.disk → ∀ id ∈ s.recovered,
    (∀ call chosen disk', scan.recover s.disk call = some (chosen, disk') →
      id ∉ chosen.map (·.id)) ∧
    (∀ info ∈ (scan.detectCrashedSessions s.disk).1, id ∉ info.sessionIds) ∧
    (InWindow scan s.disk → id ∉ (scan.findCrashedLegacyScan text s.disk).map Prod.fst)
  listed : ∀ scan, ScanOk scan s.disk → InWindow scan s.disk → ∀ id,
    id ∈ (scan.findCrashedLegacyScan text s.disk).map Prod.fst ↔
      (∃ saved, (s.disk id).snapshot = some saved ∧ isCrashed saved.status = true) ∧
        ¬ HasRecovery s.disk id

/-- A session with a recovery session is not detected. -/
theorem not_detected (hscan : ScanOk scan disk) (h : WellFormed disk) (hid : HasRecovery disk id) :
    ∀ info ∈ (scan.detectCrashedSessions disk).1, id ∉ info.sessionIds := by
  intro info hinfo hmem
  obtain ⟨-, -, hpending, -⟩ := loadListing_spec hscan h
  simp only [Scan.detectCrashedSessions] at hinfo
  split at hinfo
  · cases hinfo
  · obtain rfl := Option.some.inj hinfo
    obtain ⟨old, hold, rfl⟩ := List.mem_map.mp hmem
    have hold' := (retain_sublist _).subset (mem_sortByCrash.mp hold)
    exact (hpending old hold').unrecovered hid

theorem Seen.offeredOnce {st : State} (h : Seen text st) : OfferedOnce text st where
  once := h.recovered.nodup
  leftOut := by
    intro scan hscan id hid
    have hhandled := h.recovered.handled id hid
    refine ⟨fun call chosen disk' hrecover hmem => ?_, not_detected hscan h.recovered.wf hhandled,
      fun hwindow hlisted => ?_⟩
    · obtain ⟨-, -, hasked, -⟩ := recover_spec hscan h.recovered.wf hrecover
      obtain ⟨old, hold, rfl⟩ := List.mem_map.mp hmem
      exact (hasked old hold).1.unrecovered hhandled
    · exact ((mem_legacy hscan h.recovered.wf hwindow).mp hlisted).2 (h.visible id hid)
  listed := by
    intro scan hscan hwindow id
    rw [mem_legacy hscan h.recovered.wf hwindow]
    constructor
    · rintro ⟨⟨s, hs, hcrashed⟩, hnot⟩
      exact ⟨⟨s, hs, hcrashed⟩, fun hrecovery => hnot (h.agrees id s hs hcrashed hrecovery)⟩
    · rintro ⟨hcrashed, hnot⟩
      exact ⟨hcrashed, fun hvisible => hnot hvisible.hasRecovery⟩

/-- **A recovered crash is offered no more**, in every run whose calls leave recovery sessions that
the legacy scan sees, from files where it sees those there are. -/
theorem recovered_once {s s' : State} {ts : List (Transition State (Scan × Call))}
    (run : Run step s ts s') (hwf : WellFormed s.disk) (hnone : s.recovered = [])
    (hscans : ∀ t ∈ ts, ScanOk t.event.1 t.before.disk)
    (hagrees : Agrees text s.disk)
    (hmeets : ∀ t ∈ ts, Meets text t.event.1 t.before.disk t.event.2) : OfferedOnce text s' := by
  have hstart : Seen text s := by
    refine ⟨⟨hwf, ?_, ?_⟩, hagrees, ?_⟩
    all_goals rw [hnone]
    · exact List.nodup_nil
    · nofun
    · nofun
  have hseen : Seen text s' :=
    run.preserves (fun t ht hs h => h.step (hscans t ht) (hmeets t ht) hs) hstart
  exact hseen.offeredOnce

/-! ### A crash that is offered again -/

/-- The quotations of a text that has no others. -/
def plainText : SnapshotText where
  quotes s word :=
    isCrashed s.status && word == "Crashed" || (s.parentId.toList ++ words s).any (quoted word)
  crashed := by
    intro s hcrashed
    rw [hcrashed]
    rfl
  holds := by
    intro s text htext word _ hquoted
    rw [Bool.or_eq_true, List.any_eq_true]
    exact Or.inr ⟨text, htext, hquoted⟩

/-- A crashed session without messages. -/
def fox (title : Option String) : Saved :=
  { (Session.createWithId ⟨0, 4242, some "/work", false⟩ "session_fox_1" none title).toSaved with
    status := .crashed none }

def foxDisk (title : Option String) : Disk :=
  Function.update (fun _ => ⟨none, none⟩) "session_fox_1" ⟨some (fox title), none⟩

/-- What a call finds at the time 0, with new ids that are longer than `n`. -/
def idle (n : ℕ) (listing : List String) : Scan where
  listing
  host := ⟨0, 4243, some "/work", false⟩
  running _ := false
  saves _ := true
  lineLen _ := 0
  appendOk := true
  recId i := String.ofList (List.replicate (n + i) '1')
  messageId _ := "message_1"
  modified _ := 0

def foxScan : Scan := idle 1 ["session_fox_1"]

/-- The recovery session. -/
def cubId : String := foxScan.newId 0

def cub (title : Option String) : Saved :=
  { (foxScan.recoverySession cubId (Session.ofSaved (fox title))).toSaved with updatedAt := 0 }

def recoveredDisk (title : Option String) : Disk :=
  Function.update (foxDisk title) cubId ⟨some (cub title), none⟩

variable {title : Option String}

theorem idle_injective (n : ℕ) (listing : List String) :
    Function.Injective (idle n listing).recId := by
  intro i j heq
  have hlength := congrArg List.length (String.ofList_injective heq)
  rw [List.length_replicate, List.length_replicate] at hlength
  omega

theorem foxDisk_snapshot :
    (foxDisk title stem).snapshot = some s ↔ stem = "session_fox_1" ∧ s = fox title := by
  by_cases heq : stem = "session_fox_1"
  · subst heq
    rw [foxDisk, Function.update_self]
    exact ⟨fun hs => ⟨rfl, (Option.some.inj hs).symm⟩, fun ⟨_, hs⟩ => congrArg some hs.symm⟩
  · rw [foxDisk, Function.update_of_ne heq]
    exact iff_of_false nofun fun ⟨hfox, _⟩ => heq hfox

theorem fox_isRecovery : isRecovery "session_fox_1" = false := by decide

theorem newId_ne_fox (scan : Scan) (i : ℕ) : scan.newId i ≠ "session_fox_1" := by
  intro heq
  have hrec := isRecovery_newId scan i
  rw [heq, fox_isRecovery] at hrec
  cases hrec

theorem recoveredDisk_snapshot : (recoveredDisk title stem).snapshot = some s ↔
    stem = cubId ∧ s = cub title ∨ stem = "session_fox_1" ∧ s = fox title := by
  by_cases heq : stem = cubId
  · subst heq
    rw [recoveredDisk, Function.update_self]
    constructor
    · intro hs
      exact Or.inl ⟨rfl, (Option.some.inj hs).symm⟩
    · rintro (⟨-, rfl⟩ | ⟨hfox, -⟩)
      · rfl
      · exact absurd hfox (newId_ne_fox foxScan 0)
  · rw [recoveredDisk, Function.update_of_ne heq, foxDisk_snapshot]
    exact ⟨Or.inr, fun h => h.resolve_left fun hcub => heq hcub.1⟩

theorem foxDisk_wellFormed : WellFormed (foxDisk title) := by
  refine WellFormed.update ⟨?_, ?_⟩ rfl
  · exact fun _ _ hs => nomatch hs
  · exact fun _ _ hs => nomatch hs

theorem foxDisk_hasRecovery : ¬ HasRecovery (foxDisk title) id := by
  rintro ⟨stem, s, hs, hrec, -⟩
  obtain ⟨rfl, -⟩ := foxDisk_snapshot.mp hs
  rw [fox_isRecovery] at hrec
  cases hrec

theorem foxDisk_agrees : Agrees text (foxDisk title) :=
  fun _ _ _ _ hrecovery => absurd hrecovery foxDisk_hasRecovery

theorem foxScan_ok : ScanOk foxScan (foxDisk title) where
  nodup := List.nodup_singleton _
  complete := by
    intro stem
    rw [Option.ne_none_iff_exists']
    simp only [foxDisk_snapshot, exists_and_left, exists_eq, and_true]
    exact List.mem_singleton
  injective := idle_injective _ _
  fresh := by
    intro i
    rw [foxDisk, Function.update_of_ne (newId_ne_fox foxScan i)]

/-- The crash, as it is loaded. -/
def foxSession (title : Option String) : Session :=
  ((Session.ofSaved (fox title)).resetPersistState true).resetProviderMessagesCache

theorem fox_load :
    foxScan.load (foxDisk title) "session_fox_1" = some (foxSession title, foxDisk title) := by
  rw [Scan.load, foxDisk, Function.update_self]
  rfl

theorem fox_found (h : found foxScan (foxDisk title id) = some s) :
    id = "session_fox_1" ∧ s = fox title := by
  by_cases heq : id = "session_fox_1"
  · subst heq
    rw [found, foxDisk, Function.update_self] at h
    exact ⟨rfl, (Option.some.inj h).symm⟩
  · rw [found, foxDisk, Function.update_of_ne heq] at h
    cases h

theorem unrecovered_fox : unrecovered [foxSession title] = [foxSession title] := by
  have hparents : recoveredParents [foxSession title] = [] := by
    have hid : isRecovery (foxSession title).id = false := fox_isRecovery
    simp [recoveredParents, hid]
  have hcrashed : isCrashed (foxSession title).status = true := rfl
  simp [unrecovered, hparents, hcrashed]

theorem retain_singleton (session : Session) : retainRelevantCrashGroup [session] = [session] := by
  have hmax : ([session].map crashTimestamp).max? = some (crashTimestamp session) := rfl
  rw [retainRelevantCrashGroup, hmax]
  simp [RELEVANT_CRASH_GROUP_WINDOW_SECS, second]

theorem fox_recovered : step ⟨foxDisk title, []⟩ (foxScan, .recoverCrashedSessions) =
    some ⟨recoveredDisk title, ["session_fox_1"]⟩ := by
  have hlisting : foxScan.listing = ["session_fox_1"] := rfl
  have hloaded : foxScan.loadAll foxScan.listing (foxDisk title) =
      ([foxSession title], foxDisk title) := by
    simp only [hlisting, Scan.loadAll, fox_load]
  have hchosen : foxScan.chosen (foxDisk title) .recoverCrashedSessions =
      some ([foxSession title], foxDisk title) := by
    rw [Scan.chosen, hloaded, unrecovered_fox, retain_singleton]
  have hsorted : sortByCrash [foxSession title] = [foxSession title] := List.mergeSort_singleton _
  rw [step, Scan.recover, hchosen, Option.map_some, Scan.recoverLoaded, hsorted, recoverFrom_cons]
  rfl

/-- The next scan. -/
def nextScan : Scan := idle 2 ["session_fox_1", cubId]

theorem nextScan_ok : ScanOk nextScan (recoveredDisk title) where
  nodup := by
    refine List.nodup_cons.mpr ⟨?_, List.nodup_singleton _⟩
    rw [List.mem_singleton]
    exact (newId_ne_fox foxScan 0).symm
  complete := by
    intro stem
    rw [Option.ne_none_iff_exists']
    simp only [recoveredDisk_snapshot, exists_or, exists_and_left, exists_eq, and_true]
    rw [or_comm]
    exact List.mem_pair
  injective := idle_injective _ _
  fresh := by
    intro i
    by_contra hstored
    obtain ⟨s, hs⟩ := Option.ne_none_iff_exists'.mp hstored
    rcases recoveredDisk_snapshot.mp hs with ⟨hcub, -⟩ | ⟨hfox, -⟩
    · have hlength := congrArg List.length (String.ofList_injective (recId_of_newId hcub))
      rw [List.length_replicate, List.length_replicate] at hlength
      omega
    · exact newId_ne_fox nextScan i hfox

theorem nextScan_inWindow : InWindow nextScan (recoveredDisk title) := by
  intro stem s hs
  have hwithin : nextScan.recent stem = true := by
    have hcutoff : (Int.fdiv (nextScan.now - 48 * hour) 1000000).toNat = 0 := rfl
    have hmodified : ¬ nextScan.modified stem < nextScan.now - 24 * hour :=
      show ¬ (0 : ℤ) < 0 - 24 * hour by decide
    simp [Scan.recent, hcutoff, hmodified]
  refine ⟨hwithin, ?_⟩
  rcases recoveredDisk_snapshot.mp hs with ⟨-, rfl⟩ | ⟨-, rfl⟩
  · exact show nextScan.now - 24 * hour < 0 by decide
  · exact show nextScan.now - 24 * hour < 0 by decide

theorem cub_quotes : searched.any (plainText.quotes (cub none)) = false := by decide

/-- A session that was recovered is listed by the legacy scan: the recovery session's text has
`session_recovery_` only as the start of its id. -/
theorem fox_offered_again : WellFormed (foxDisk none) ∧ Agrees plainText (foxDisk none) ∧
    ∃ ts s', Run step ⟨foxDisk none, []⟩ ts s' ∧ (∀ t ∈ ts, ScanOk t.event.1 t.before.disk) ∧
      ¬ OfferedOnce plainText s' := by
  refine ⟨foxDisk_wellFormed, foxDisk_agrees, _, _, .cons fox_recovered (.nil _), ?_, ?_⟩
  · exact List.forall_mem_singleton.mpr foxScan_ok
  · intro h
    obtain ⟨-, -, hlegacy⟩ := h.leftOut nextScan nextScan_ok "session_fox_1" List.mem_cons_self
    have hwf : WellFormed (recoveredDisk none) := foxDisk_wellFormed.update rfl
    refine hlegacy nextScan_inWindow ((mem_legacy nextScan_ok hwf nextScan_inWindow).mpr ⟨?_, ?_⟩)
    · exact ⟨fox none, recoveredDisk_snapshot.mpr (Or.inr ⟨rfl, rfl⟩), rfl⟩
    · rintro ⟨stem, s, hs, hrec, -, hquotes⟩
      rcases recoveredDisk_snapshot.mp hs with ⟨-, rfl⟩ | ⟨rfl, -⟩
      · rw [← List.any_eq_true, cub_quotes] at hquotes
        cases hquotes
      · rw [fox_isRecovery] at hrec
        cases hrec

theorem recovered_once_titled :
    OfferedOnce plainText ⟨recoveredDisk (some "Crashed"), ["session_fox_1"]⟩ := by
  refine recovered_once (.cons fox_recovered (.nil _)) foxDisk_wellFormed rfl ?_ foxDisk_agrees ?_
  · exact List.forall_mem_singleton.mpr foxScan_ok
  · refine List.forall_mem_singleton.mpr ⟨?_, ?_⟩
    · rintro id s ⟨hfound, -, -⟩ -
      obtain ⟨rfl, rfl⟩ := fox_found hfound
      exact ⟨"Crashed", List.mem_cons_of_mem _ (by decide), "Crashed", List.mem_cons_self, by decide⟩
    · exact fun _ _ hrecovery => absurd hrecovery foxDisk_hasRecovery

end Jcode.History.Recovery
