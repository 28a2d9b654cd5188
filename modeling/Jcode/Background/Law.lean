import Jcode.Background.Manager

/-!
# Background — what holds of every task

A task that a future runs belongs to a manager whose process lives, and says so in its file.  No
reader takes it for over, and until the future has written its end the file says that it runs.

* `grows_step`: a task keeps its kind, and an end that is written stays written.
* `law_step`: the invariant, along any step.
* `law_of_run`: in every state a run can reach.
-/

namespace Jcode.Background
open Runs

variable {P : Type}

/-- The future has yet to write its end. -/
def Future.Unwritten : Future P → Prop
  | .executing | .ended _ | .recording _ _ _ => True
  | _ => False

/-- A future of a manager runs the task. -/
def Slot.Owned (sl : Slot P) : Prop := sl.kind = .spawned ∨ sl.kind = .adopted

/-- The file names a process that lives. -/
def OwnedFile (cfg : Config) (f : TaskStatusFile P) : Prop :=
  f.detached = false ∧ ∃ m, f.ownerPid = some (cfg.process m).pid ∧
    f.ownerInstance = some (cfg.process m).token

section
variable (cfg : Config)

structure SlotLaw (sl : Slot P) : Prop where
  unknown : sl.kind = .unknown → sl.file = none ∧ sl.future = .none
  owned : sl.Owned → ∀ f, sl.file = some f → OwnedFile cfg f
  running : sl.future.Unwritten → sl.Owned ∧ ∃ f, sl.file = some f ∧ f.status = .running

/-- What a call knows of the task it is about. -/
def CallLaw (slot : String → Slot P) : Call P → Prop
  | .idle | .announcing _ | .delivering _ _ => True
  | .updating t f _ => (slot t).kind ≠ .unknown ∧ ((slot t).Owned → OwnedFile cfg f) ∧
      ((slot t).future.Unwritten → f.status = .running)
  | .finalizing t f f' => (slot t).kind = .external ∧ Verdict cfg f f'
  | .killing t f => (slot t).kind = .external ∧ f.status = .running
  | .cancelling _ task _ => (slot task.taskId).Owned ∧ ¬ (slot task.taskId).future.Unwritten
  | .draining _ task rest =>
      ((slot task.taskId).Owned ∧ ¬ (slot task.taskId).future.Unwritten) ∧
        ∀ next ∈ rest, (slot next.taskId).Owned
  | .interrupting _ task rest prior =>
      (((slot task.taskId).Owned ∧ ¬ (slot task.taskId).future.Unwritten) ∧
        ∀ next ∈ rest, (slot next.taskId).Owned) ∧
      ∀ f, prior = some f → f.status = .running
  | .removing t => (slot t).kind ≠ .unknown ∧ ¬ (slot t).future.Unwritten

/-- **The invariant.** -/
structure Law (s : State P) : Prop where
  slots : ∀ t, SlotLaw cfg (s.slot t)
  calls : ∀ i, CallLaw cfg s.slot (s.call i)
  lives : ∀ m, ∀ task ∈ s.live m, (s.slot task.taskId).Owned

end

/-- Tasks keep their kind, and no future goes back before its end. -/
def Grows (slot slot' : String → Slot P) : Prop :=
  ∀ t, (slot t).kind ≠ .unknown → (slot' t).kind = (slot t).kind ∧
    ((slot' t).future.Unwritten → (slot t).future.Unwritten)

variable {cfg : Config} {ops : ProgressOps P} {s s' : State P} {e : Event P} {t : String}
  {sl sl' : Slot P} {i : ℕ} {f f' : TaskStatusFile P}

/-! ### Slots -/

theorem Slot.Owned.known (h : sl.Owned) : sl.kind ≠ .unknown := by
  rcases h with h | h
  · simp [h]
  · simp [h]

theorem Slot.Owned.of_kind (h : sl.Owned) (hkind : sl'.kind = sl.kind) : sl'.Owned := by
  rw [Slot.Owned, hkind]
  exact h

@[simp] theorem abort_kind (sl : Slot P) : sl.abort.kind = sl.kind := by
  rw [Slot.abort]
  split <;> rfl

@[simp] theorem abort_file (sl : Slot P) : sl.abort.file = sl.file := by
  rw [Slot.abort]
  split <;> rfl

theorem abort_not_unwritten (sl : Slot P) : ¬ sl.abort.future.Unwritten := by
  rw [Slot.abort]
  split
  · next h => simp [h, Future.Unwritten]
  · next h => simp [h, Future.Unwritten]
  · next h => simp [h, Future.Unwritten]
  · next h => simp [h, Future.Unwritten]
  · exact id

/-- A living process takes no file of another living process for an orphan's. -/
theorem OwnedFile.not_orphan (h : OwnedFile cfg f) (m : ℕ) :
    statusIsReconcilableOrphan cfg m f = false := by
  obtain ⟨-, m', hpid, htoken⟩ := h
  rw [statusIsReconcilableOrphan]
  split
  · rfl
  · rw [hpid, htoken]
    dsimp only
    split
    · rfl
    · next hother =>
        split
        · next hsame =>
            exact absurd (congrArg (some ·.token) (cfg.image_unique m' m hsame)) hother
        · rw [cfg.running_own]
          rfl

theorem OwnedFile.not_verdict (h : OwnedFile cfg f) : ¬ Verdict cfg f f' := by
  rintro ⟨-, hdetached | ⟨m, horphan⟩, -⟩
  · rw [h.1] at hdetached
    cases hdetached
  · rw [h.not_orphan m] at horphan
    cases horphan

theorem ownedStatus_owned (m : ℕ) (t : String) (d : Description) (notify wake : Bool) :
    OwnedFile cfg (ownedStatus (cfg.process m) t d notify wake : TaskStatusFile P) :=
  ⟨rfl, m, rfl, rfl⟩

/-- An update leaves the owner and the status. -/
theorem update_apply {update : Update P} {now : String} (h : update.apply ops now f = some f') :
    f'.status = f.status ∧ f'.error = f.error ∧ f'.detached = f.detached ∧
      f'.ownerPid = f.ownerPid ∧ f'.ownerInstance = f.ownerInstance ∧
      Extends f.eventHistory f'.eventHistory := by
  cases update with
  | progress checkpoint report =>
      simp only [Update.apply] at h
      split at h
      · cases h
      · obtain rfl := Option.some.inj h
        exact ⟨rfl, rfl, rfl, rfl, rfl, pushTaskEvent_extends _ _⟩
  | delivery notify wake =>
      obtain rfl := Option.some.inj h
      exact ⟨rfl, rfl, rfl, rfl, rfl, pushTaskEvent_extends _ _⟩

theorem OwnedFile.update {update : Update P} {now : String} (h : OwnedFile cfg f)
    (happly : update.apply ops now f = some f') : OwnedFile cfg f' := by
  obtain ⟨-, -, hdetached, hpid, htoken, -⟩ := update_apply happly
  rw [OwnedFile, hdetached, hpid, htoken]
  exact h

/-! ### Growth -/

theorem Grows.refl (slot : String → Slot P) : Grows slot slot := fun _ _ => ⟨rfl, id⟩

theorem Grows.update {slot : String → Slot P}
    (h : (slot t).kind ≠ .unknown → sl'.kind = (slot t).kind ∧
      (sl'.future.Unwritten → (slot t).future.Unwritten)) :
    Grows slot (Function.update slot t sl') := by
  intro u hu
  by_cases hut : u = t
  · subst hut
    rw [Function.update_self]
    exact h hu
  · rw [Function.update_of_ne hut]
    exact ⟨rfl, id⟩

theorem Grows.trans {a b c : String → Slot P} (h : Grows a b) (h' : Grows b c) : Grows a c := by
  intro u hu
  obtain ⟨hkind, hback⟩ := h u hu
  obtain ⟨hkind', hback'⟩ := h' u (hkind ▸ hu)
  exact ⟨hkind'.trans hkind, fun hw => hback (hback' hw)⟩

theorem grows_nextDrained (s : State P) (i m : ℕ) (rest : List RunningTask) :
    Grows s.slot (s.nextDrained i m rest).slot := by
  cases rest with
  | nil => exact .refl _
  | cons task rest =>
      exact .update fun _ => ⟨abort_kind _, fun hw => absurd hw (abort_not_unwritten _)⟩

theorem grows_setFile (s : State P) (t : String) (file : Option (TaskStatusFile P)) :
    Grows s.slot (s.setFile t file).slot :=
  .update fun _ => ⟨rfl, id⟩

/-- **No step takes an end back.** -/
theorem grows_step (h : Effect cfg ops s e s') : Grows s.slot s'.slot := by
  cases h with
  | start _ hnew _ | registerDetached hnew => exact .update fun hknown => absurd hnew hknown
  | register => exact .update fun _ => ⟨rfl, id⟩
  | @finishTool t r htool =>
      refine .update fun _ => ⟨rfl, fun hw => ?_⟩
      cases hf : (s.slot t).future with
      | executing => trivial
      | _ => simpa [Slot.finishTool, hf] using hw
  | @panicTool t message htool =>
      refine .update fun _ => ⟨rfl, fun hw => ?_⟩
      cases hf : (s.slot t).future with
      | executing => trivial
      | _ => simpa [Slot.panicTool, hf] using hw
  | readPrior hfuture => exact .update fun _ => ⟨rfl, fun _ => by rw [hfuture]; trivial⟩
  | writeEnd | prune | announceEnd => exact .update fun _ => ⟨rfl, fun hw => hw.elim⟩
  | silent | readUpdate | leave | find | announceFinal | kill | readDrained | readOld =>
      exact .refl _
  | writeUpdate | writeFinal | writeCancelled | writeKilled | remove => exact grows_setFile s _ _
  | sendFlags => exact .update fun _ => ⟨rfl, id⟩
  | cancel =>
      exact .update fun _ => ⟨abort_kind _, fun hw => absurd hw (abort_not_unwritten _)⟩
  | @drain i m order => exact grows_nextDrained (s.setLive m []) i m order
  | skipDrained => exact grows_nextDrained s _ _ _
  | writeDrained => exact (grows_setFile s _ _).trans (grows_nextDrained _ _ _ _)

theorem CallLaw.mono {slot slot' : String → Slot P} {call : Call P} (h : CallLaw cfg slot call)
    (hg : Grows slot slot') : CallLaw cfg slot' call := by
  have howned : ∀ t, (slot t).Owned → (slot' t).Owned := fun t ht =>
    ht.of_kind (hg t ht.known).1
  cases call with
  | idle | announcing | delivering => trivial
  | updating t f update =>
      obtain ⟨hknown, hfile, hrunning⟩ := h
      obtain ⟨hkind, hback⟩ := hg t hknown
      refine ⟨hkind ▸ hknown, fun ho => hfile (ho.of_kind hkind.symm), fun hw => hrunning (hback hw)⟩
  | finalizing t f f' | killing t f =>
      have hknown : (slot t).kind ≠ .unknown := by simp [h.1]
      exact ⟨(hg t hknown).1.trans h.1, h.2⟩
  | cancelling m task flags =>
      exact ⟨howned _ h.1, fun hw => h.2 ((hg _ h.1.known).2 hw)⟩
  | draining m task rest =>
      exact ⟨⟨howned _ h.1.1, fun hw => h.1.2 ((hg _ h.1.1.known).2 hw)⟩,
        fun next hnext => howned _ (h.2 next hnext)⟩
  | interrupting m task rest prior =>
      obtain ⟨h, hprior⟩ := h
      exact ⟨⟨⟨howned _ h.1.1, fun hw => h.1.2 ((hg _ h.1.1.known).2 hw)⟩,
        fun next hnext => howned _ (h.2 next hnext)⟩, hprior⟩
  | removing t =>
      obtain ⟨hkind, hback⟩ := hg t h.1
      exact ⟨hkind ▸ h.1, fun hw => h.2 (hback hw)⟩

/-! ### The law of a slot -/

namespace SlotLaw

theorem setFile (h : SlotLaw cfg sl) (hknown : sl.kind ≠ .unknown)
    (howned : sl.Owned → OwnedFile cfg f) (hrunning : sl.future.Unwritten → f.status = .running) :
    SlotLaw cfg (sl.setFile (some f)) where
  unknown hk := absurd hk hknown
  owned ho _ hg := Option.some.inj hg ▸ howned ho
  running hw := ⟨(h.running hw).1, f, rfl, hrunning hw⟩

theorem removeFile (h : SlotLaw cfg sl) (hwritten : ¬ sl.future.Unwritten) :
    SlotLaw cfg (sl.setFile none) where
  unknown hk := ⟨rfl, (h.unknown hk).2⟩
  owned _ _ hg := by cases hg
  running hw := absurd hw hwritten

theorem setFuture {future : Future P} (h : SlotLaw cfg sl) (hknown : sl.kind ≠ .unknown)
    (hback : future.Unwritten → sl.future.Unwritten) : SlotLaw cfg (sl.setFuture future) where
  unknown hk := absurd hk hknown
  owned := h.owned
  running hw := h.running (hback hw)

theorem abort (h : SlotLaw cfg sl) : SlotLaw cfg sl.abort where
  unknown hk := by
    rw [abort_kind] at hk
    obtain ⟨hfile, hfuture⟩ := h.unknown hk
    exact ⟨(abort_file sl).trans hfile, by simp [Slot.abort, hfuture]⟩
  owned ho f hf := h.owned (ho.of_kind (abort_kind sl).symm) f (abort_file sl ▸ hf)
  running hw := absurd hw (abort_not_unwritten sl)

/-- No future depends on the file of another's task. -/
theorem setFile_external (h : SlotLaw cfg sl) (hkind : sl.kind = .external)
    (f : TaskStatusFile P) : SlotLaw cfg (sl.setFile (some f)) := by
  have howned : ¬ sl.Owned := by simp [Slot.Owned, hkind]
  exact h.setFile (by simp [hkind]) (fun ho => absurd ho howned)
    fun hw => absurd (h.running hw).1 howned

/-- A future is known. -/
theorem known (h : SlotLaw cfg sl) (hfuture : sl.future ≠ .none) : sl.kind ≠ .unknown :=
  fun hk => hfuture (h.unknown hk).2

theorem known_of_file (h : SlotLaw cfg sl) (hfile : sl.file = some f) : sl.kind ≠ .unknown := by
  intro hk
  rw [(h.unknown hk).1] at hfile
  cases hfile

/-- A file that is found over is no future's. -/
theorem external_of_verdict (h : SlotLaw cfg sl) (hfile : sl.file = some f)
    (hv : Verdict cfg f f') : sl.kind = .external := by
  cases hkind : sl.kind with
  | unknown => exact absurd hkind (h.known_of_file hfile)
  | spawned => exact absurd hv (h.owned (.inl hkind) f hfile).not_verdict
  | adopted => exact absurd hv (h.owned (.inr hkind) f hfile).not_verdict
  | external => rfl

end SlotLaw

theorem slots_update (h : ∀ u, SlotLaw cfg (s.slot u)) (ht : SlotLaw cfg sl') :
    ∀ u, SlotLaw cfg (Function.update s.slot t sl' u) :=
  (Function.forall_update_iff s.slot fun _ sl => SlotLaw cfg sl).mpr ⟨ht, fun u _ => h u⟩

theorem slots_nextDrained (h : ∀ u, SlotLaw cfg (s.slot u)) (m : ℕ) (rest : List RunningTask) :
    ∀ u, SlotLaw cfg ((s.nextDrained i m rest).slot u) := by
  cases rest with
  | nil => exact h
  | cons task rest => exact slots_update h (h task.taskId).abort

theorem Law.call {call : Call P} (law : Law cfg s) (h : s.call i = call) :
    CallLaw cfg s.slot call :=
  h ▸ law.calls i

/-- The laws of the slots, along any step. -/
theorem slots_step (law : Law cfg s) (h : Effect cfg ops s e s') :
    ∀ u, SlotLaw cfg (s'.slot u) := by
  cases h with
  | @start e kind m t d notify wake hkind hnew _ =>
      refine slots_update law.slots ⟨fun hk => ?_, fun _ f hf => ?_, fun _ => ⟨hkind, _, rfl, rfl⟩⟩
      · rcases hkind with rfl | rfl
        · cases hk
        · cases hk
      · exact Option.some.inj hf ▸ ownedStatus_owned m t d notify wake
  | registerDetached hnew =>
      refine slots_update law.slots ⟨fun hk => (by cases hk), fun ho => ?_,
        fun hw => hw.elim⟩
      rcases ho with ho | ho
      · cases ho
      · cases ho
  | @register t hnew hkind =>
      exact slots_update law.slots ⟨(law.slots t).unknown, (law.slots t).owned, (law.slots t).running⟩
  | @finishTool t r htool =>
      have hsl := law.slots t
      refine slots_update law.slots ⟨fun hk => ⟨(hsl.unknown hk).1, ?_⟩, hsl.owned, fun hw => ?_⟩
      · simp [Slot.finishTool, (hsl.unknown hk).2]
      · refine hsl.running ?_
        cases hf : (s.slot t).future with
        | executing => trivial
        | _ => simpa [Slot.finishTool, hf] using hw
  | @panicTool t message htool =>
      have hsl := law.slots t
      refine slots_update law.slots ⟨fun hk => ⟨(hsl.unknown hk).1, ?_⟩, hsl.owned, fun hw => ?_⟩
      · simp [Slot.panicTool, (hsl.unknown hk).2]
      · refine hsl.running ?_
        cases hf : (s.slot t).future with
        | executing => trivial
        | _ => simpa [Slot.panicTool, hf] using hw
  | @readPrior t o hfuture =>
      exact slots_update law.slots ((law.slots t).setFuture
        ((law.slots t).known (by simp [hfuture])) fun _ => by rw [hfuture]; trivial)
  | @writeEnd t now o flags prior hfuture =>
      have hknown := (law.slots t).known (by simp [hfuture])
      refine slots_update law.slots ⟨fun hk => absurd hk hknown, fun _ f hf => ?_, fun hw => hw.elim⟩
      exact Option.some.inj hf ▸ ⟨rfl, (s.slot t).manager, rfl, rfl⟩
  | @prune t o flags hfuture _ =>
      exact slots_update law.slots ((law.slots t).setFuture
        ((law.slots t).known (by simp [hfuture])) fun hw => hw.elim)
  | @announceEnd t o flags hfuture =>
      exact slots_update law.slots ((law.slots t).setFuture
        ((law.slots t).known (by simp [hfuture])) fun hw => hw.elim)
  | silent | readUpdate | leave | find | announceFinal | kill | readDrained | readOld =>
      exact law.slots
  | @writeUpdate i t now update f f' call hcall happly _ =>
      obtain ⟨hknown, howned, hrunning⟩ := law.call hcall
      obtain ⟨hstatus, -⟩ := update_apply happly
      exact slots_update law.slots ((law.slots t).setFile hknown
        (fun ho => (howned ho).update happly) fun hw => hstatus.trans (hrunning hw))
  | @sendFlags i m t flags _ =>
      exact slots_update law.slots ⟨(law.slots t).unknown, (law.slots t).owned, (law.slots t).running⟩
  | @writeFinal i t f f' hcall =>
      exact slots_update law.slots ((law.slots t).setFile_external (law.call hcall).1 f')
  | @writeKilled i t now f hcall =>
      exact slots_update law.slots ((law.slots t).setFile_external (law.call hcall).1 _)
  | @cancel i m t task _ _ _ => exact slots_update law.slots (law.slots t).abort
  | @writeCancelled i m now task flags hcall =>
      obtain ⟨howned, hwritten⟩ := law.call hcall
      exact slots_update law.slots ((law.slots task.taskId).setFile howned.known
        (fun _ => ⟨rfl, m, rfl, rfl⟩) fun hw => absurd hw hwritten)
  | @drain i m order _ _ => exact slots_nextDrained (s := s.setLive m []) law.slots m order
  | @skipDrained i m task rest _ => exact slots_nextDrained law.slots m rest
  | @writeDrained i m now task rest prior hcall =>
      obtain ⟨⟨⟨howned, hwritten⟩, -⟩, -⟩ := law.call hcall
      exact slots_nextDrained (s := s.setFile _ _) (slots_update law.slots
        ((law.slots task.taskId).setFile howned.known (fun _ => ⟨rfl, m, rfl, rfl⟩)
          fun hw => absurd hw hwritten)) m rest
  | @remove i t hcall =>
      obtain ⟨-, hwritten⟩ := law.call hcall
      exact slots_update law.slots ((law.slots t).removeFile hwritten)

/-! ### The invariant -/

/-- The call `i` goes on, and the others stay. -/
theorem calls_goto {slot : String → Slot P} {call : Call P} (law : Law cfg s)
    (hg : Grows s.slot slot) (hi : CallLaw cfg slot call) :
    ∀ j, CallLaw cfg slot (Function.update s.call i call j) :=
  (Function.forall_update_iff s.call fun _ call => CallLaw cfg slot call).mpr
    ⟨hi, fun j _ => (law.calls j).mono hg⟩

theorem calls_nextDrained {m : ℕ} {rest : List RunningTask} (law : Law cfg s)
    (hrest : ∀ task ∈ rest, (s.slot task.taskId).Owned) {slot : String → Slot P}
    (hg : Grows s.slot slot) {live : ℕ → List RunningTask} :
    ∀ j, CallLaw cfg (State.nextDrained ⟨slot, live, s.call, s.published⟩ i m rest).slot
      ((State.nextDrained ⟨slot, live, s.call, s.published⟩ i m rest).call j) := by
  have howned : ∀ task ∈ rest, (slot task.taskId).Owned := fun task htask =>
    (hrest task htask).of_kind (hg _ (hrest task htask).known).1
  cases rest with
  | nil => exact calls_goto (s := s) law hg trivial
  | cons task rest =>
      obtain ⟨hhead, htail⟩ := List.forall_mem_cons.mp howned
      have hg' : Grows slot (Function.update slot task.taskId (slot task.taskId).abort) :=
        .update fun _ => ⟨abort_kind _, fun hw => absurd hw (abort_not_unwritten _)⟩
      refine calls_goto (s := s) law (hg.trans hg') ⟨⟨?_, ?_⟩, fun next hnext => ?_⟩
      · exact hhead.of_kind (hg' _ hhead.known).1
      · show ¬ (Function.update slot task.taskId _ task.taskId).future.Unwritten
        rw [Function.update_self]
        exact abort_not_unwritten _
      · exact (htail next hnext).of_kind (hg' _ (htail next hnext).known).1

/-- The laws of the calls, along any step. -/
theorem calls_step (law : Law cfg s) (h : Effect cfg ops s e s') :
    ∀ j, CallLaw cfg s'.slot (s'.call j) := by
  have hg := grows_step h
  cases h with
  | start | registerDetached | register | finishTool | panicTool | readPrior | writeEnd | prune |
    announceEnd | silent => exact fun j => (law.calls j).mono hg
  | @readUpdate i t update f hcall hfile =>
      refine calls_goto (s := s) law hg ⟨(law.slots t).known_of_file hfile, fun ho => ?_, fun hw => ?_⟩
      · exact (law.slots t).owned ho f hfile
      · obtain ⟨-, g, hg, hrunning⟩ := (law.slots t).running hw
        obtain rfl := Option.some.inj (hfile.symm.trans hg)
        exact hrunning
  | @writeUpdate i t now update f f' call hcall happly hnext =>
      refine calls_goto (s := s) law hg ?_
      rcases hnext with rfl | ⟨flags, rfl⟩
      · trivial
      · trivial
  | sendFlags | leave | announceFinal | writeCancelled | writeKilled | writeFinal | remove =>
      exact calls_goto (s := s) law hg trivial
  | @find e i m t f f' _ _ hfile hv =>
      exact calls_goto (s := s) law hg ⟨(law.slots t).external_of_verdict hfile hv, hv⟩
  | @cancel i m t task hcall hlive htask =>
      obtain rfl := htask
      have howned := law.lives m task hlive
      refine calls_goto (s := s) law hg ⟨howned.of_kind (hg _ howned.known).1, ?_⟩
      show ¬ (Function.update s.slot task.taskId _ task.taskId).future.Unwritten
      rw [Function.update_self]
      exact abort_not_unwritten _
  | @kill i m t now probe f hcall hfile hrunning hdetached =>
      refine calls_goto (s := s) law hg ⟨?_, hrunning⟩
      cases hkind : (s.slot t).kind with
      | unknown => exact absurd hkind ((law.slots t).known_of_file hfile)
      | spawned => cases hdetached.symm.trans ((law.slots t).owned (.inl hkind) f hfile).1
      | adopted => cases hdetached.symm.trans ((law.slots t).owned (.inr hkind) f hfile).1
      | external => exact hkind
  | @drain i m order _ horder =>
      exact calls_nextDrained (s := s) law (fun task htask => law.lives m task (horder.mem_iff.mp htask))
        (.refl _)
  | @skipDrained i m task rest hcall =>
      exact calls_nextDrained (s := s) law (law.call hcall).2 (.refl _)
  | @readDrained i m task rest hcall hrunning =>
      exact calls_goto (s := s) law hg ⟨law.call hcall, hrunning⟩
  | @writeDrained i m now task rest prior hcall =>
      exact calls_nextDrained (s := s) law (law.call hcall).1.2
        (grows_setFile s _ _)
  | @readOld i t f _ hfile hover =>
      refine calls_goto (s := s) law hg ⟨(law.slots t).known_of_file hfile, fun hw => ?_⟩
      obtain ⟨-, g, hg, hrunning⟩ := (law.slots t).running hw
      obtain rfl := Option.some.inj (hfile.symm.trans hg)
      exact hover hrunning

theorem owned_of_grows (hg : Grows s.slot s'.slot) {tasks : List RunningTask}
    (h : ∀ task ∈ tasks, (s.slot task.taskId).Owned) :
    ∀ task ∈ tasks, (s'.slot task.taskId).Owned := fun task htask =>
  (h task htask).of_kind (hg _ (h task htask).known).1

/-- A live map after an entry has left it, or all have. -/
theorem live_nextDrained (s : State P) (i m : ℕ) (rest : List RunningTask) :
    (s.nextDrained i m rest).live = s.live := by
  cases rest with
  | nil => rfl
  | cons task rest => rfl

/-- Live tasks are owned, along any step. -/
theorem lives_step (law : Law cfg s) (h : Effect cfg ops s e s') :
    ∀ m, ∀ task ∈ s'.live m, (s'.slot task.taskId).Owned := by
  have hg := grows_step h
  have hsame : ∀ m, ∀ task ∈ s.live m, (s'.slot task.taskId).Owned :=
    fun m => owned_of_grows hg (law.lives m)
  have hmap : ∀ {m : ℕ} {tasks : List RunningTask},
      (∀ task ∈ tasks, (s'.slot task.taskId).Owned) →
      ∀ k, ∀ task ∈ Function.update s.live m tasks k, (s'.slot task.taskId).Owned :=
    fun htasks => (Function.forall_update_iff s.live
      fun _ tasks => ∀ task ∈ tasks, (s'.slot task.taskId).Owned).mpr ⟨htasks, fun k _ => hsame k⟩
  cases h with
  | @register t hnew hkind =>
      refine hmap fun task htask => ?_
      rcases List.mem_append.mp htask with htask | htask
      · exact hsame _ task htask
      · obtain rfl := List.mem_singleton.mp htask
        have howned : (s.slot t).Owned := hkind
        exact howned.of_kind (hg t howned.known).1
  | prune | cancel => exact hmap fun task htask => hsame _ task (List.mem_filter.mp htask).1
  | @drain i m order _ _ =>
      rw [live_nextDrained]
      exact hmap fun _ htask => by cases htask
  | skipDrained | writeDrained =>
      rw [live_nextDrained]
      exact hsame
  | _ => exact hsame

/-- **The invariant, along any step.** -/
theorem law_step (law : Law cfg s) (h : step cfg ops s e = some s') : Law cfg s' where
  slots := slots_step law (step_cases h)
  calls := calls_step law (step_cases h)
  lives := lives_step law (step_cases h)

theorem law_init (files : String → Option (TaskStatusFile P)) : Law cfg (State.init files) where
  slots t := by
    cases hf : files t with
    | none =>
        simp only [State.init, hf]
        exact ⟨fun _ => ⟨rfl, rfl⟩, fun _ _ h => (by cases h), fun hw => hw.elim⟩
    | some f =>
        simp only [State.init, hf]
        refine ⟨fun hk => (by cases hk), fun ho => ?_, fun hw => hw.elim⟩
        rcases ho with ho | ho
        · cases ho
        · cases ho
  calls _ := trivial
  lives _ _ h := by cases h

/-- **In every state a run can reach.** -/
theorem law_of_run {files : String → Option (TaskStatusFile P)}
    {ts : List (Transition (State P) (Event P))}
    (run : Run (step cfg ops) (State.init files) ts s') : Law cfg s' :=
  run.preserves (fun _ _ hstep law => law_step law hstep) (law_init files)

end Jcode.Background
