import Jcode.History.Recovered

/-!
# History — what a recovery keeps

`recover_loaded_crashed_sessions` of `session/crash.rs` writes a new session for each crashed one: a
header, and the messages of the crashed session with their blocks of text alone.  The files of the
crashed session stay; a load that detects the crash folds its journal into its snapshot.

* `conversation_recoverySaved`: the conversation of a recovery session.
* `step_keeps`: no call changes what was said in a stored session.
* `recovered_keeps_text`: over any run, what has been recovered is there twice, word for word.
-/

namespace Jcode.History.Recovery
open Chat Rust Runs

variable {scan : Scan} {disk disk' disk'' : Disk} {stem id : String} {session old : Session}

/-- What was said: the roles and the blocks of text, of the messages that have such blocks. -/
def conversation (messages : List StoredMessage) : List (Role × List ContentBlock) :=
  messages.filterMap fun msg =>
    let keptBlocks := msg.content.filter isText
    if keptBlocks = [] then none else some (msg.role, keptBlocks)

/-- The messages that a session's files hold. -/
def messagesOf (disk : Disk) (stem : String) : Option (List StoredMessage) :=
  (disk stem).read.map Saved.messages

/-- Every stored session has the messages it had. -/
def Keeps (disk disk' : Disk) : Prop :=
  ∀ stem, (disk stem).snapshot ≠ none → messagesOf disk' stem = messagesOf disk stem

theorem Keeps.refl (disk : Disk) : Keeps disk disk := fun _ _ => rfl

theorem stored_of_messagesOf {messages : List StoredMessage}
    (h : messagesOf disk stem = some messages) : (disk stem).snapshot ≠ none := by
  intro hnone
  rw [messagesOf, Files.read, hnone] at h
  cases h

theorem exists_messagesOf (h : (disk stem).snapshot ≠ none) :
    ∃ messages, messagesOf disk stem = some messages := by
  obtain ⟨s, hs⟩ := Option.ne_none_iff_exists'.mp h
  rw [messagesOf, Files.read, hs]
  exact ⟨_, rfl⟩

theorem Keeps.stored (h : Keeps disk disk') (hs : (disk stem).snapshot ≠ none) :
    (disk' stem).snapshot ≠ none := by
  obtain ⟨messages, hmessages⟩ := exists_messagesOf hs
  exact stored_of_messagesOf ((h stem hs).trans hmessages)

theorem Keeps.trans (h : Keeps disk disk') (h' : Keeps disk' disk'') : Keeps disk disk'' :=
  fun stem hs => (h' stem (h.stored hs)).trans (h stem hs)

/-! ### Loading -/

theorem detectCrash_messages (scan : Scan) (session : Session) :
    (scan.detectCrash session).1.messages = session.messages := by
  rcases detectCrash_cases scan session with hnone | ⟨-, m, hdetected⟩
  · rw [hnone]
  · rw [hdetected]

theorem load_messages (h : loadFromPath (disk stem) = some session) :
    messagesOf disk stem = some session.messages := by
  have hread := exists_loadFromPath.mp ⟨session, h, rfl⟩
  rw [messagesOf, hread, Option.map_some]

theorem found_messages {s : Saved} (h : found scan (disk stem) = some s) :
    messagesOf disk stem = some s.messages := by
  obtain ⟨session, hload, rfl⟩ := Option.map_eq_some_iff.mp h
  rw [load_messages hload]
  dsimp only
  split
  · exact congrArg some (detectCrash_messages scan session).symm
  · exact congrArg some (detectCrash_messages scan session).symm

/-- A snapshot with the messages of the files takes their place. -/
theorem Keeps.update {s : Saved} (hs : messagesOf disk stem = some s.messages) :
    Keeps disk (Function.update disk stem ⟨some s, none⟩) := by
  intro other _
  by_cases heq : other = stem
  · subst heq
    rw [hs, messagesOf, Function.update_self]
    rfl
  · rw [messagesOf, messagesOf, Function.update_of_ne heq]

/-- **A load changes no messages**, whether it finds a crash or not. -/
theorem load_keeps (h : WellFormed disk) (hload : scan.load disk stem = some (session, disk')) :
    WellFormed disk' ∧ Keeps disk disk' := by
  obtain ⟨loaded, hloaded, heq⟩ := Option.map_eq_some_iff.mp hload
  obtain ⟨s, hs⟩ := Option.ne_none_iff_exists'.mp (stored_of_messagesOf (load_messages hloaded))
  obtain ⟨session', disk₁, hload', hevolves, -⟩ :=
    load_spec (P := fun _ => True) h hs fun _ => trivial
  obtain ⟨rfl, rfl⟩ := Prod.mk.inj (Option.some.inj (hload'.symm.trans hload))
  refine ⟨hevolves.wf, ?_⟩
  rcases detectCrash_cases scan loaded with hnone | ⟨hactive, m, hdetected⟩
  · rw [hnone] at heq
    obtain ⟨-, rfl⟩ := Prod.mk.inj heq
    exact .refl disk
  · rw [hdetected] at heq
    simp only [if_true] at heq
    split at heq
    · obtain ⟨-, rfl⟩ := Prod.mk.inj heq
      rw [save_snapshot _ (needsSnapshot_of_status (lastMeta_of_load hloaded) hactive)]
      have hid : loaded.id = stem := by
        obtain ⟨loaded', hloaded', hid, -⟩ := load_stored h hs
        obtain rfl := Option.some.inj (hloaded'.symm.trans hloaded)
        exact hid
      subst hid
      exact .update (load_messages hloaded)
    · obtain ⟨-, rfl⟩ := Prod.mk.inj heq
      exact .refl disk

theorem loadAll_keeps (h : WellFormed disk) (ids : List String) :
    Keeps disk (scan.loadAll ids disk).2 := by
  induction ids generalizing disk with
  | nil => exact .refl disk
  | cons id ids ih =>
      rw [Scan.loadAll]
      split
      · exact ih h
      · rename_i loaded hload
        obtain ⟨hwf, hkeeps⟩ := load_keeps h hload
        exact hkeeps.trans (ih hwf)

theorem loadAllowed_keeps {recovered ids : List String} (h : WellFormed disk)
    {sessions : List Session} (hload : scan.loadAllowed recovered ids disk = some (sessions, disk')) :
    Keeps disk disk' := by
  induction ids generalizing disk sessions with
  | nil =>
      obtain ⟨-, rfl⟩ := Prod.mk.inj (Option.some.inj hload)
      exact .refl disk
  | cons id ids ih =>
      rw [Scan.loadAllowed] at hload
      split at hload
      · exact ih h hload
      · obtain ⟨loaded, hone, hrest⟩ := Option.bind_eq_some_iff.mp hload
        obtain ⟨⟨rest, disk₂⟩, hallowed, heq⟩ := Option.map_eq_some_iff.mp hrest
        obtain ⟨-, rfl⟩ := Prod.mk.inj heq
        obtain ⟨hwf, hkeeps⟩ := load_keeps h hone
        exact hkeeps.trans (ih hwf hallowed)

theorem chosen_keeps {call : Call} {chosen : List Session} (h : WellFormed disk)
    (hchosen : scan.chosen disk call = some (chosen, disk')) : Keeps disk disk' := by
  cases call with
  | recoverCrashedSessions =>
      obtain ⟨-, rfl⟩ := Prod.mk.inj (Option.some.inj hchosen)
      exact loadAll_keeps h _
  | recoverCrashedSessionsByIds ids => exact loadAllowed_keeps h hchosen

/-! ### Recovery sessions -/

theorem conversation_append (l l' : List StoredMessage) :
    conversation (l ++ l') = conversation l ++ conversation l' := List.filterMap_append

/-- A message of text is said. -/
theorem addMessage_conversation (scan : Scan) (session : Session) (role : Role)
    {content : List ContentBlock} (hne : content ≠ []) (htext : content.filter isText = content) :
    conversation (scan.addMessage role content session).messages =
      conversation session.messages ++ [(role, content)] := by
  obtain ⟨msg, hrole, hcontent, hmessages⟩ : ∃ msg : StoredMessage, msg.role = role ∧
      msg.content = content ∧
      (scan.addMessage role content session).messages = session.messages ++ [msg] :=
    ⟨_, rfl, rfl, rfl⟩
  have hsaid : conversation [msg] = [(role, content)] := by
    simp only [conversation, List.filterMap_cons, List.filterMap_nil, hcontent, htext, if_neg hne,
      hrole]
  rw [hmessages, conversation_append, hsaid]

theorem addTexts_conversation (scan : Scan) (session : Session) (msg : StoredMessage) :
    conversation (scan.addTexts session msg).messages =
      conversation session.messages ++ conversation [msg] := by
  by_cases hkept : msg.content.filter isText = []
  · have hsame : scan.addTexts session msg = session := if_pos hkept
    have hnone : conversation [msg] = [] := by
      simp only [conversation, List.filterMap_cons, List.filterMap_nil, if_pos hkept]
    rw [hsame, hnone, List.append_nil]
  · have hadd : scan.addTexts session msg =
        scan.addMessage msg.role (msg.content.filter isText) session := if_neg hkept
    have hone : conversation [msg] = [(msg.role, msg.content.filter isText)] := by
      simp only [conversation, List.filterMap_cons, List.filterMap_nil, if_neg hkept]
    rw [hadd, hone]
    exact addMessage_conversation scan session msg.role hkept (List.filter_filter.trans (by simp))

theorem foldl_addTexts_conversation (scan : Scan) (msgs : List StoredMessage) (session : Session) :
    conversation (msgs.foldl scan.addTexts session).messages =
      conversation session.messages ++ conversation msgs := by
  induction msgs generalizing session with
  | nil => exact (List.append_nil _).symm
  | cons msg msgs ih =>
      have hcons : conversation (msg :: msgs) = conversation [msg] ++ conversation msgs :=
        conversation_append [msg] msgs
      rw [List.foldl_cons, ih, addTexts_conversation, hcons, List.append_assoc]

/-- **The conversation of a recovery session**: a header, and the crashed session's. -/
theorem conversation_recoverySaved (scan : Scan) (newId : String) (old : Session) :
    conversation (recoverySaved scan newId old).messages =
      (.user, [.text (recoveryHeader old) none]) :: conversation old.messages := by
  have hhead : conversation (scan.addMessage .user [.text (recoveryHeader old) none]
      (scan.recoveryHead newId old)).messages = [(.user, [.text (recoveryHeader old) none])] :=
    addMessage_conversation scan (scan.recoveryHead newId old) .user (List.cons_ne_nil _ _) rfl
  have hmessages : (recoverySaved scan newId old).messages =
      (scan.recoverySession newId old).messages := rfl
  rw [hmessages, Scan.recoverySession, foldl_addTexts_conversation, hhead]
  rfl

/-- The recovery sessions of a call are in their files, and the others are as they were. -/
theorem recoverFrom_files (i : ℕ) (crashed : List Session) (hinj : Function.Injective scan.newId)
    (hfresh : ∀ j ≥ i, (disk (scan.newId j)).snapshot = none) :
    (∀ stem, (disk stem).snapshot ≠ none → scan.recoverFrom i crashed disk stem = disk stem) ∧
      ∀ old ∈ crashed, ∃ newId, isRecovery newId = true ∧
        scan.recoverFrom i crashed disk newId = ⟨some (recoverySaved scan newId old), none⟩ := by
  induction crashed generalizing i disk with
  | nil => exact ⟨fun _ _ => rfl, fun _ hmem => absurd hmem List.not_mem_nil⟩
  | cons old crashed ih =>
      have hnew : ∀ j ≥ i + 1, scan.newId j ≠ scan.newId i := by
        intro j hj heq
        have := hinj heq
        omega
      have hstill : ∀ j ≥ i + 1, (Function.update disk (scan.newId i)
          ⟨some (recoverySaved scan (scan.newId i) old), none⟩ (scan.newId j)).snapshot = none := by
        intro j hj
        rw [Function.update_of_ne (hnew j hj)]
        exact hfresh j (by omega)
      obtain ⟨hkept, hfiles⟩ := ih (i + 1) hstill
      rw [recoverFrom_cons]
      refine ⟨fun stem hstem => ?_, List.forall_mem_cons.mpr
        ⟨⟨scan.newId i, isRecovery_newId scan i, ?_⟩, hfiles⟩⟩
      · have hne : stem ≠ scan.newId i := by
          rintro rfl
          exact hstem (hfresh i le_rfl)
        rw [hkept stem (by rwa [Function.update_of_ne hne]), Function.update_of_ne hne]
      · rw [hkept (scan.newId i) (by rw [Function.update_self]; exact Option.some_ne_none _),
          Function.update_self]

/-! ### Runs -/

/-- The files of `newId` hold a recovery of the session `id`: a header that names it, and all that
is said in its files. -/
structure Recovers (disk : Disk) (id newId : String) : Prop where
  isRecovery : isRecovery newId = true
  parent : ∃ s, (disk newId).snapshot = some s ∧ s.parentId = some id
  text : ∃ messages recovered name, messagesOf disk id = some messages ∧
    messagesOf disk newId = some recovered ∧
    conversation recovered = (.user, [.text ("Recovered from crashed session \x60" ++ id ++
      "\x60 (" ++ name ++ ")") none]) :: conversation messages

/-- **A call keeps every conversation**, and copies those it recovers. -/
theorem recover_keeps {call : Call} {chosen : List Session} (hscan : ScanOk scan disk)
    (h : WellFormed disk) (hrecover : scan.recover disk call = some (chosen, disk')) :
    Keeps disk disk' ∧ ∀ old ∈ chosen, ∃ newId, Recovers disk' old.id newId := by
  obtain ⟨⟨chosen, disk₁⟩, hchosen, heq⟩ := Option.map_eq_some_iff.mp hrecover
  obtain ⟨rfl, rfl⟩ := Prod.mk.inj heq
  obtain ⟨hevolves, -, hasked⟩ := chosen_spec hscan h hchosen
  have hkeeps : Keeps disk disk₁ := chosen_keeps h hchosen
  have hfresh : ∀ j ≥ 0, (disk₁ (scan.newId j)).snapshot = none := by
    intro j _
    by_contra hstored
    exact hevolves.stored.mp hstored (hscan.fresh j)
  obtain ⟨hkept, hfiles⟩ := recoverFrom_files 0 (sortByCrash chosen) (newId_injective hscan) hfresh
  have hkeeps' : Keeps disk₁ (scan.recoverLoaded chosen disk₁) := fun stem hs => by
    rw [messagesOf, messagesOf, Scan.recoverLoaded, hkept stem hs]
  refine ⟨hkeeps.trans hkeeps', fun old hold => ?_⟩
  obtain ⟨newId, hrec, hfile⟩ := hfiles old (mem_sortByCrash.mpr hold)
  have hmessages : messagesOf disk old.id = some old.messages :=
    found_messages (hasked old hold).1.found
  have hstored := stored_of_messagesOf hmessages
  refine ⟨newId, hrec, ⟨_, congrArg Files.snapshot hfile, ?_⟩,
    old.messages, (recoverySaved scan newId old).messages, displayName old.shortName old.id, ?_, ?_,
    conversation_recoverySaved scan newId old⟩
  · exact (recoverySaved_spec scan newId old).2.1
  · rw [(hkeeps.trans hkeeps') old.id hstored, hmessages]
  · rw [messagesOf, Scan.recoverLoaded, hfile]
    rfl

/-- A recovery that is there stays, with its text. -/
theorem Recovers.kept {newId : String} (h : Recovers disk id newId) (hkeeps : Keeps disk disk')
    (hparent : ∀ s, (disk newId).snapshot = some s →
      ∃ s', (disk' newId).snapshot = some s' ∧ s'.parentId = s.parentId) :
    Recovers disk' id newId := by
  obtain ⟨s, hs, hid⟩ := h.parent
  obtain ⟨s', hs', hparent'⟩ := hparent s hs
  obtain ⟨messages, recovered, name, hmessages, hrecovered, htext⟩ := h.text
  refine ⟨h.isRecovery, ⟨s', hs', hparent'.trans hid⟩, messages, recovered, name, ?_, ?_, htext⟩
  · rw [hkeeps id (stored_of_messagesOf hmessages), hmessages]
  · rw [hkeeps newId (stored_of_messagesOf hrecovered), hrecovered]

/-- What a run from the files `start` keeps. -/
structure TextKept (start : Disk) (s : State) : Prop where
  recovered : Recovered s
  keeps : Keeps start s.disk
  copied : ∀ id ∈ s.recovered, ∃ newId, Recovers s.disk id newId

theorem TextKept.step {start : Disk} {st st' : State} {call : Call} (h : TextKept start st)
    (hscan : ScanOk scan st.disk) (hstep : step st (scan, call) = some st') :
    TextKept start st' := by
  have hrecovered' : Recovered st' := h.recovered.step hscan hstep
  obtain ⟨⟨chosen, disk'⟩, hrecover, rfl⟩ := Option.map_eq_some_iff.mp hstep
  obtain ⟨hkeeps, hcopied⟩ := recover_keeps hscan h.recovered.wf hrecover
  obtain ⟨-, -, -, hstays, -⟩ := recover_spec hscan h.recovered.wf hrecover
  refine ⟨hrecovered', h.keeps.trans hkeeps, fun id hid => ?_⟩
  rcases List.mem_append.mp hid with hid | hid
  · obtain ⟨newId, hrecovers⟩ := h.copied id hid
    refine ⟨newId, hrecovers.kept hkeeps fun s hs => ?_⟩
    obtain ⟨s', hs', hparent, -⟩ := hstays newId s hs
    exact ⟨s', hs', hparent⟩
  · obtain ⟨old, hold, rfl⟩ := List.mem_map.mp hid
    exact hcopied old hold

/-- **No conversation is lost.**  Over any run of recoveries, every session that was stored has its
messages, and each session that was recovered, once, is there again as a recovery session: a header,
and all that was said in it, in order. -/
theorem recovered_keeps_text {disk : Disk} {s' : State}
    {ts : List (Transition State (Scan × Call))} (run : Run step ⟨disk, []⟩ ts s')
    (h : WellFormed disk) (hscan : ∀ t ∈ ts, ScanOk t.event.1 t.before.disk) :
    (∀ stem, (disk stem).snapshot ≠ none → messagesOf s'.disk stem = messagesOf disk stem) ∧
      s'.recovered.Nodup ∧ ∀ id ∈ s'.recovered, ∃ newId, Recovers s'.disk id newId := by
  have hkept : TextKept disk s' := by
    refine run.preserves (P := TextKept disk) (fun t ht hstep hst => ?_) ?_
    · exact hst.step (hscan t ht) hstep
    · exact ⟨⟨h, List.nodup_nil, fun _ hid => absurd hid List.not_mem_nil⟩, .refl disk,
        fun _ hid => absurd hid List.not_mem_nil⟩
  exact ⟨hkept.keeps, hkept.recovered.nodup, hkept.copied⟩

theorem recovered_keeps_text_fox :
    Run step ⟨foxDisk none, []⟩ [⟨⟨foxDisk none, []⟩, (foxScan, .recoverCrashedSessions),
        ⟨recoveredDisk none, ["session_fox_1"]⟩⟩] ⟨recoveredDisk none, ["session_fox_1"]⟩ ∧
      ∃ newId, Recovers (recoveredDisk none) "session_fox_1" newId := by
  have hfox : step ⟨foxDisk none, []⟩ (foxScan, .recoverCrashedSessions) =
      some ⟨recoveredDisk none, ["session_fox_1"]⟩ := fox_recovered
  have run := Run.cons hfox (.nil _)
  refine ⟨run, (recovered_keeps_text run foxDisk_wellFormed fun t ht => ?_).2.2 _
    List.mem_cons_self⟩
  obtain rfl := List.mem_singleton.mp ht
  exact foxScan_ok

end Jcode.History.Recovery
