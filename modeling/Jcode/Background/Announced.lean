import Jcode.Background.Finished

/-!
# Background — the end of a task is announced once

The future of a task announces its end.  Where no future runs the task, each reader of its file may
find that it is over, write so and announce it, and between the read and the write another reader
finds the same.

* `told_step`: while nobody else is about to write its end, a task goes through the phases below.
* `announced_once`: so along a run without such a pair the end is announced at most once, and once
  it is written exactly once.
* `announced_twice`: two readers find a task over, and both announce it.
-/

namespace Jcode.Background
open Runs

variable {P : Type}

/-- The announcements of a task's end. -/
def State.announcements (s : State P) (t : String) : ℕ := s.published.countP (·.taskId = t)

/-- An update rewrites the report or the delivery flags of a file, not its end. -/
def Event.updates : Event P → Bool
  | .readUpdate _ _ _ | .writeUpdate _ _ | .sendFlags _ _ => true
  | _ => false

/-- The task is cancelled, or aborted for a reload. -/
def Event.cancels (t : String) : Event P → Bool
  | .cancel _ _ t' | .cancelDetached _ _ t' _ _ => t' = t
  | .drain _ _ order => order.any (·.taskId = t)
  | _ => false

/-- The task that a reader finds over. -/
def State.finds (cfg : Config) (s : State P) : Event P → Option String
  | .look _ m t probe locked now =>
      if ((s.slot t).file.bind (s.verdict cfg m t probe locked now)).isSome then some t else none
  | .reconcile _ m t now =>
      if ((s.slot t).file.bind (finalizeOrphaned cfg m (s.isLive m t) now)).isSome then some t
      else none
  | .cancelDetached _ _ t probe now =>
      if ((s.slot t).file.bind (finalizeDetached probe now)).isSome then some t else none
  | _ => none

/-- Nobody finds a task over that another has found over, and has not written so. -/
def Alone (cfg : Config) (s : State P) (e : Event P) : Prop :=
  ∀ t, s.finds cfg e = some t → ∀ j f f', s.call j ≠ .finalizing t f f'

/-- The call is about to write or to announce the end of the task. -/
def Call.About (t : String) : Call P → Prop
  | .finalizing t' _ _ => t' = t
  | .announcing f => f.taskId = t
  | _ => False

/-- The file does not say that the task runs. -/
def Slot.Over (sl : Slot P) : Prop := ∀ f, sl.file = some f → f.status ≠ .running

/-- **How far the end of a task that no future runs is known.** -/
inductive Phase (s : State P) (t : String) : Prop where
  | unknown (hcount : s.announcements t = 0)
      (hone : ∀ i j, (s.call i).About t → (s.call j).About t → i = j)
      (hwritten : ∀ i f, s.call i = .announcing f → f.taskId ≠ t)
  | written (i : ℕ) (f : TaskStatusFile P) (hcount : s.announcements t = 0)
      (hover : (s.slot t).Over) (hcall : s.call i = .announcing f) (htask : f.taskId = t)
      (hone : ∀ j, (s.call j).About t → j = i)
  | announced (hcount : s.announcements t = 1) (hover : (s.slot t).Over)
      (hnone : ∀ i, ¬ (s.call i).About t)

/-- **How far the end of any task is known.** -/
structure TaskTold (s : State P) (t : String) : Prop where
  name : ∀ f, (s.slot t).file = some f → f.taskId = t
  external : (s.slot t).kind = .external → (s.slot t).future = .none ∧ Phase s t
  own : (s.slot t).kind ≠ .external → (∀ i, ¬ (s.call i).About t) ∧
    s.announcements t ≤ 1 ∧ (s.announcements t = 1 ↔ (s.slot t).future = .announced)

/-- The files that the calls hold carry the names of their tasks. -/
def CallTold : Call P → Prop
  | .finalizing t _ f' => f'.taskId = t ∧ f'.status ≠ .running
  | .killing t f => f.taskId = t
  | .announcing f' => f'.status ≠ .running
  | _ => True

structure Told (s : State P) : Prop where
  tasks : ∀ t, TaskTold s t
  calls : ∀ i, CallTold (s.call i)

variable {cfg : Config} {ops : ProgressOps P} {s s' : State P} {e : Event P} {t : String}
  {f f' : TaskStatusFile P} {i : ℕ}

theorem goto_call (s : State P) (i : ℕ) (call : Call P) : (s.goto i call).call i = call :=
  Function.update_self ..

theorem goto_call_of_ne {j : ℕ} (h : j ≠ i) (s : State P) (call : Call P) :
    (s.goto i call).call j = s.call j :=
  Function.update_of_ne h ..

/-! ### One task -/

/-- What a step does to a slot without announcing anything. -/
structure Slot.Follows (t : String) (sl sl' : Slot P) : Prop where
  kind : sl'.kind = sl.kind
  announced : sl'.future = .announced ↔ sl.future = .announced
  absent : sl.future = .none → sl'.future = .none
  name : (∀ f, sl.file = some f → f.taskId = t) → ∀ f, sl'.file = some f → f.taskId = t
  ended : sl.kind = .external → sl.Over → sl'.Over

namespace Slot.Follows

variable {sl sl' : Slot P}

theorem refl (t : String) (sl : Slot P) : Slot.Follows t sl sl :=
  ⟨rfl, .rfl, id, id, fun _ => id⟩

theorem trans {sl'' : Slot P} (h : Slot.Follows t sl sl') (h' : Slot.Follows t sl' sl'') :
    Slot.Follows t sl sl'' :=
  ⟨h'.kind.trans h.kind, h'.announced.trans h.announced, h'.absent ∘ h.absent, h'.name ∘ h.name,
    fun hk ho => h'.ended (h.kind ▸ hk) (h.ended hk ho)⟩

/-- The file stays. -/
theorem of_file (hkind : sl'.kind = sl.kind) (hfile : sl'.file = sl.file)
    (hannounced : sl'.future = .announced ↔ sl.future = .announced)
    (hnone : sl.future = .none → sl'.future = .none) : Slot.Follows t sl sl' :=
  ⟨hkind, hannounced, hnone, fun h => by rwa [hfile], fun _ h => by rwa [Slot.Over, hfile]⟩

/-- A file is written that says that its task is over. -/
theorem setFile (hname : f.taskId = t) (hover : sl.kind = .external → f.status ≠ .running) :
    Slot.Follows t sl (sl.setFile (some f)) where
  kind := rfl
  announced := .rfl
  absent := id
  name _ _ hg := Option.some.inj hg ▸ hname
  ended hk _ _ hg := Option.some.inj hg ▸ hover hk

theorem removeFile (t : String) (sl : Slot P) : Slot.Follows t sl (sl.setFile none) where
  kind := rfl
  announced := .rfl
  absent := id
  name _ _ hg := by cases hg
  ended _ _ _ hg := by cases hg

theorem setFuture {future : Future P} (hlive : sl.future ≠ .none ∧ sl.future ≠ .announced)
    (hannounced : future ≠ .announced) : Slot.Follows t sl (sl.setFuture future) :=
  of_file rfl rfl ⟨fun h => absurd h hannounced, fun h => absurd h hlive.2⟩
    fun h => absurd h hlive.1

theorem abort (t : String) (sl : Slot P) : Slot.Follows t sl sl.abort := by
  refine of_file (abort_kind sl) (abort_file sl) ?_ fun h => by simp [Slot.abort, h]
  cases hf : sl.future with
  | _ => simp [Slot.abort, hf]

theorem finishTool (t : String) (sl : Slot P) (r : ToolResult) :
    Slot.Follows t sl (sl.finishTool r) := by
  refine of_file rfl rfl ?_ fun h => by simp [Slot.finishTool, h]
  cases hf : sl.future with
  | _ => simp [Slot.finishTool, hf]

theorem panicTool (t : String) (sl : Slot P) (message : String) :
    Slot.Follows t sl (sl.panicTool message) := by
  refine of_file rfl rfl ?_ fun h => by simp [Slot.panicTool, h]
  cases hf : sl.future with
  | executing =>
      simp only [Slot.panicTool, hf]
      split
      · simp
      · simp
  | _ => simp [Slot.panicTool, hf]

end Slot.Follows

theorem follows_update {sl' : Slot P} (h : Slot.Follows t (s.slot t) sl') (u : String) :
    Slot.Follows u (s.slot u) (Function.update s.slot t sl' u) := by
  by_cases hu : u = t
  · subst hu
    rwa [Function.update_self]
  · rw [Function.update_of_ne hu]
    exact .refl u _

theorem follows_nextDrained (s : State P) (i m : ℕ) (rest : List RunningTask) (u : String) :
    Slot.Follows u (s.slot u) ((s.nextDrained i m rest).slot u) := by
  cases rest with
  | nil => exact .refl u _
  | cons task rest => exact follows_update (.abort _ _) u

/-- The calls stay, but for one that is not about the task. -/
def CallsFollow (t : String) (call call' : ℕ → Call P) : Prop :=
  ∀ j, call' j = call j ∨ ¬ (call j).About t ∧ ¬ (call' j).About t

theorem callsFollow_goto {c : Call P} (h : ¬ (s.call i).About t) (hc : ¬ c.About t) :
    CallsFollow t s.call (Function.update s.call i c) := by
  intro j
  by_cases hj : j = i
  · subst hj
    rw [Function.update_self]
    exact .inr ⟨h, hc⟩
  · exact .inl (Function.update_of_ne hj _ _)

theorem callsFollow_nextDrained (h : ¬ (s.call i).About t) (m : ℕ) (rest : List RunningTask) :
    CallsFollow t s.call (s.nextDrained i m rest).call := by
  cases rest with
  | nil => exact callsFollow_goto h id
  | cons task rest => exact callsFollow_goto h id

theorem CallsFollow.about {call call' : ℕ → Call P} (h : CallsFollow t call call') {j : ℕ}
    (hj : (call' j).About t) : call' j = call j := by
  rcases h j with h | ⟨-, hnot⟩
  · exact h
  · exact absurd hj hnot

theorem CallsFollow.about' {call call' : ℕ → Call P} (h : CallsFollow t call call') {j : ℕ}
    (hj : (call j).About t) : call' j = call j := by
  rcases h j with h | ⟨hnot, -⟩
  · exact h
  · exact absurd hj hnot

/-- A step that is not about the end of the task. -/
theorem TaskTold.follow (h : TaskTold s t) (hslot : Slot.Follows t (s.slot t) (s'.slot t))
    (hcalls : CallsFollow t s.call s'.call) (hcount : s'.announcements t = s.announcements t) :
    TaskTold s' t where
  name := hslot.name h.name
  external hk := by
    have hkind := hslot.kind ▸ hk
    obtain ⟨hnone, hphase⟩ := h.external hkind
    refine ⟨hslot.absent hnone, ?_⟩
    cases hphase with
    | unknown hzero hone hwritten =>
        refine .unknown (hcount.trans hzero) (fun i j hi hj => ?_) fun i f hi htask => ?_
        · rw [hcalls.about hi] at hi
          rw [hcalls.about hj] at hj
          exact hone i j hi hj
        · rw [hcalls.about (j := i) (by rw [hi]; exact htask)] at hi
          exact hwritten i f hi htask
    | written i f hzero hover hcall htask hone =>
        have habout : (s.call i).About t := by
          rw [hcall]
          exact htask
        refine .written i f (hcount.trans hzero) (hslot.ended hkind hover)
          ((hcalls.about' habout).trans hcall) htask fun j hj => hone j ?_
        rwa [← hcalls.about hj]
    | announced hone hover hnone =>
        refine .announced (hcount.trans hone) (hslot.ended hkind hover) fun i hi => ?_
        rw [hcalls.about hi] at hi
        exact hnone i hi
  own hk := by
    obtain ⟨hnone, hle, hiff⟩ := h.own (hslot.kind ▸ hk)
    refine ⟨fun i hi => ?_, hcount ▸ hle, by rw [hcount, hiff, hslot.announced]⟩
    rw [hcalls.about hi] at hi
    exact hnone i hi

/-! ### Steps -/

/-- The reader of the event finds the task over. -/
theorem finds_of_find {m : ℕ}
    (he : (∃ probe locked now, e = .look i m t probe locked now) ∨ (∃ now, e = .reconcile i m t now) ∨
      ∃ probe now, e = .cancelDetached i m t probe now)
    (hcall : s.call i = .idle) (hfile : (s.slot t).file = some f)
    (h : step cfg ops s e = some (s.goto i (.finalizing t f f'))) : s.finds cfg e = some t := by
  have hne : s ≠ s.goto i (.finalizing t f f') := by
    intro heq
    have hsame := congrArg (fun s => State.call s i) heq
    simp only [State.goto, Function.update_self, hcall] at hsame
    cases hsame
  rcases he with ⟨probe, locked, now, rfl⟩ | ⟨now, rfl⟩ | ⟨probe, now, rfl⟩
  · simp only [step, hcall, hfile] at h
    split at h
    · next hv => simp [State.finds, hfile, hv]
    · exact absurd (Option.some.inj h) hne
  · simp only [step, hcall, hfile] at h
    split at h
    · next hv => simp [State.finds, hfile, hv]
    · exact absurd (Option.some.inj h) hne
  · cases hv : finalizeDetached probe now f with
    | some g => simp [State.finds, hfile, hv]
    | none =>
        cases hlive : s.isLive m t with
        | true => simp [step, hcall, hlive] at h
        | false =>
            simp only [step, hcall, hlive, hfile, hv] at h
            split at h
            · have hsame := congrArg (fun s => State.call s i) (Option.some.inj h)
              simp [State.goto] at hsame
            · exact absurd (Option.some.inj h) hne

theorem countP_publish (s : State P) (event : BackgroundTaskCompleted) (t : String) :
    (s.publish event).announcements t = s.announcements t + if event.taskId = t then 1 else 0 := by
  simp [State.announcements, State.publish, List.countP_append, List.countP_singleton]

/-- The names and the ends that calls hold. -/
theorem callTold_step (told : Told s) (h : Effect cfg ops s e s') :
    ∀ j, CallTold (s'.call j) := by
  have hgoto : ∀ {i : ℕ} {call : Call P}, CallTold call →
      ∀ j, CallTold (Function.update s.call i call j) := fun hcall =>
    (Function.forall_update_iff s.call fun _ call => CallTold call).mpr
      ⟨hcall, fun j _ => told.calls j⟩
  have hdrained : ∀ (i m : ℕ) (rest : List RunningTask) (slot : String → Slot P)
      (live : ℕ → List RunningTask) (j : ℕ),
      CallTold ((State.nextDrained ⟨slot, live, s.call, s.published⟩ i m rest).call j) := by
    intro i m rest slot live
    cases rest with
    | nil => exact hgoto trivial
    | cons task rest => exact hgoto trivial
  cases h with
  | start | registerDetached | register | finishTool | panicTool | readPrior | writeEnd | prune |
    announceEnd | silent => exact told.calls
  | writeUpdate _ _ hnext =>
      rcases hnext with rfl | ⟨flags, rfl⟩
      · exact hgoto trivial
      · exact hgoto trivial
  | readUpdate | sendFlags | leave | announceFinal | cancel | writeCancelled | writeKilled |
    readDrained | readOld | remove => exact hgoto trivial
  | @find e i m t f f' _ _ hfile hv =>
      obtain ⟨-, -, status, exitCode, error, now, hover, rfl⟩ := hv
      exact hgoto ⟨(told.tasks t).name f hfile, hover⟩
  | @kill i m t now probe f _ hfile _ _ => exact hgoto ((told.tasks t).name f hfile)
  | @writeFinal i t f f' hcall =>
      have hend := told.calls i
      rw [hcall] at hend
      exact hgoto hend.2
  | @drain i m order _ _ => exact hdrained i m order _ _
  | @skipDrained i m task rest _ => exact hdrained i m rest _ _
  | @writeDrained i m now task rest prior _ => exact hdrained i m rest _ _

theorem Slot.Owned.not_external {sl : Slot P} (h : sl.Owned) : sl.kind ≠ .external := by
  rcases h with h | h
  · simp [h]
  · simp [h]

/-- Another task's end is found, written or announced. -/
theorem callsFollow_of_ne {u : String} {c : Call P} (hcall : s.call i = c) (hc : ¬ c.About u)
    {c' : Call P} (hc' : ¬ c'.About u) : CallsFollow u s.call (Function.update s.call i c') :=
  callsFollow_goto (hcall ▸ hc) hc'

theorem slots_other {sl : Slot P} {u : String} (hu : u ≠ t) :
    Slot.Follows u (s.slot u) (Function.update s.slot t sl u) := by
  rw [Function.update_of_ne hu]
  exact .refl u _

/-- No announcement of a task that nobody has started. -/
theorem TaskTold.count_unknown (h : TaskTold s t) (law : SlotLaw cfg (s.slot t))
    (hnew : (s.slot t).kind = .unknown) :
    s.announcements t = 0 ∧ ∀ i, ¬ (s.call i).About t := by
  obtain ⟨hnone, hle, hiff⟩ := h.own (by simp [hnew])
  refine ⟨?_, hnone⟩
  have hne : s.announcements t ≠ 1 := by simp [hiff, (law.unknown hnew).2]
  omega

/-- A reader finds the task over, and nobody else is about to write so. -/
theorem TaskTold.find (h : TaskTold s t) (hkind : (s.slot t).kind = .external)
    (hfile : (s.slot t).file = some f) (hv : Verdict cfg f f')
    (halone : ∀ j g g', s.call j ≠ .finalizing t g g') :
    TaskTold (s.goto i (.finalizing t f f')) t where
  name := h.name
  external _ := by
    obtain ⟨hnone, hphase⟩ := h.external hkind
    refine ⟨hnone, ?_⟩
    cases hphase with
    | unknown hzero hone hwritten =>
        have hfree : ∀ j, ¬ (s.call j).About t := by
          intro j hj
          cases hcall : s.call j with
          | finalizing t' g g' =>
              rw [hcall] at hj
              obtain rfl : t' = t := hj
              exact halone j g g' hcall
          | announcing g =>
              rw [hcall] at hj
              exact hwritten j g hcall hj
          | _ =>
              rw [hcall] at hj
              exact hj
        have honly : ∀ j, ((s.goto i (.finalizing t f f')).call j).About t → j = i := by
          intro j hj
          by_contra hji
          exact hfree j (by rwa [goto_call_of_ne hji] at hj)
        refine .unknown hzero (fun j k hj hk => (honly j hj).trans (honly k hk).symm)
          fun j g hj htask => ?_
        obtain rfl := honly j (by rw [hj]; exact htask)
        rw [goto_call] at hj
        cases hj
    | written i f _ hover _ _ _ => exact absurd hv.running (hover _ hfile)
    | announced _ hover _ => exact absurd hv.running (hover _ hfile)
  own hk := absurd hkind hk

/-- The end of the task is written. -/
theorem TaskTold.write (h : TaskTold s t) (hkind : (s.slot t).kind = .external)
    (hcall : s.call i = .finalizing t f f') (hname : f'.taskId = t) (hover : f'.status ≠ .running) :
    TaskTold ((s.setFile t (some f')).goto i (.announcing f')) t := by
  have hslot : ((s.setFile t (some f')).goto i (.announcing f')).slot t =
      (s.slot t).setFile (some f') := Function.update_self ..
  refine ⟨fun g hg => ?_, fun _ => ?_, fun hk => ?_⟩
  · rw [hslot] at hg
    exact Option.some.inj hg ▸ hname
  · obtain ⟨hnone, hphase⟩ := h.external hkind
    refine ⟨by rw [hslot]; exact hnone, ?_⟩
    have habout : (s.call i).About t := by rw [hcall]; rfl
    cases hphase with
    | unknown hzero hone hwritten =>
        refine .written i f' hzero ?_ (Function.update_self ..) hname fun j hj => ?_
        · rw [hslot]
          exact fun g hg => Option.some.inj hg ▸ hover
        · by_contra hji
          refine hji (hone j i ?_ habout)
          rwa [goto_call_of_ne hji] at hj
    | written j g _ _ hg _ hone =>
        obtain rfl := hone i habout
        rw [hcall] at hg
        cases hg
    | announced _ _ hnone => exact absurd habout (hnone i)
  · rw [hslot] at hk
    exact absurd hkind hk

/-- The end of the task is announced. -/
theorem TaskTold.announce (h : TaskTold s f'.taskId)
    (hcall : s.call i = .announcing f') :
    TaskTold ((s.publish f'.announcement).goto i .idle) f'.taskId where
  name := h.name
  external hk := by
    have habout : (s.call i).About f'.taskId := by rw [hcall]; rfl
    obtain ⟨hnone, hphase⟩ := h.external hk
    refine ⟨hnone, ?_⟩
    cases hphase with
    | unknown _ _ hwritten => exact absurd rfl (hwritten i f' hcall)
    | written j g hzero hover hg _ hone =>
        obtain rfl := hone i habout
        refine .announced ?_ hover fun k hk => ?_
        · show (s.publish f'.announcement).announcements f'.taskId = 1
          rw [countP_publish, hzero]
          simp [TaskStatusFile.announcement]
        · by_cases hki : k = i
          · subst hki
            rw [goto_call] at hk
            exact hk
          · refine hki (hone k ?_)
            rwa [goto_call_of_ne hki] at hk
    | announced _ _ hnone => exact absurd habout (hnone i)
  own hk := by
    refine absurd ?_ ((h.own hk).1 i)
    rw [hcall]
    rfl

/-- A task enters, with nothing announced. -/
theorem TaskTold.enter (h : TaskTold s t) (law : SlotLaw cfg (s.slot t))
    (hnew : (s.slot t).kind = .unknown) {sl : Slot P}
    (hname : ∀ f, sl.file = some f → f.taskId = t) (hfuture : sl.future ≠ .announced)
    (hexternal : sl.kind = .external → sl.future = .none) : TaskTold (s.setSlot t sl) t := by
  obtain ⟨hzero, hfree⟩ := h.count_unknown law hnew
  have hslot : (s.setSlot t sl).slot t = sl := Function.update_self ..
  refine ⟨fun f hf => hname f (hslot ▸ hf), fun hk => ?_, fun _ => ⟨hfree, ?_, ?_⟩⟩
  · rw [hslot] at hk ⊢
    refine ⟨hexternal hk, .unknown hzero (fun i j hi _ => absurd hi (hfree i)) fun i f hi htask => ?_⟩
    have hcall : s.call i = .announcing f := hi
    exact hfree i (by rw [hcall]; exact htask)
  · show s.announcements t ≤ 1
    omega
  · rw [hslot]
    show s.announcements t = 1 ↔ _
    simp [hzero, hfuture]

/-- A future announces the end of its task. -/
theorem TaskTold.announceOwn (h : TaskTold s t) {o : Outcome} {flags : Bool × Bool}
    (hfuture : (s.slot t).future = .pruned o flags) :
    TaskTold ((s.setFuture t .announced).publish ((s.slot t).announcement t o flags)) t := by
  have hslot : (s.setFuture t .announced).slot t = (s.slot t).setFuture .announced :=
    Function.update_self ..
  have hkind : (s.slot t).kind ≠ .external := by
    intro hk
    have hnone := (h.external hk).1
    rw [hfuture] at hnone
    cases hnone
  obtain ⟨hfree, hle, hiff⟩ := h.own hkind
  have hone : ((s.setFuture t .announced).publish
      ((s.slot t).announcement t o flags)).announcements t = 1 := by
    have hne : s.announcements t ≠ 1 := by simp [hiff, hfuture]
    have hcount := countP_publish (s.setFuture t .announced) ((s.slot t).announcement t o flags) t
    rw [hcount, if_pos (by rfl)]
    show s.announcements t + 1 = 1
    omega
  refine ⟨fun f hf => h.name f ?_, fun hk => absurd ?_ hkind, fun _ => ⟨hfree, hone.le, ?_⟩⟩
  · rwa [State.publish, hslot] at hf
  · rwa [State.publish, hslot] at hk
  · rw [hone, State.publish, hslot]
    simp [Slot.setFuture]

theorem nextDrained_announcements (s : State P) (i m : ℕ) (rest : List RunningTask) (t : String) :
    (s.nextDrained i m rest).announcements t = s.announcements t := by
  cases rest with
  | nil => rfl
  | cons task rest => rfl

/-- **One step**, for every task. -/
theorem tasksTold_step (law : Law cfg s) (told : Told s) (hstep : step cfg ops s e = some s')
    (hupdates : e.updates = false) (halone : Alone cfg s e) : ∀ u, TaskTold s' u := by
  intro u
  have h := told.tasks u
  cases step_cases hstep with
  | @start e kind m t d notify wake hkind hnew _ =>
      by_cases hu : u = t
      · subst hu
        refine h.enter (law.slots u) hnew (fun f hf => ?_) (by simp [Slot.started]) fun hk => ?_
        · exact Option.some.inj hf ▸ rfl
        · rcases hkind with rfl | rfl
          · cases hk
          · cases hk
      · exact h.follow (slots_other hu) (fun _ => .inl rfl) rfl
  | @registerDetached t d pid notify wake hnew =>
      by_cases hu : u = t
      · subst hu
        refine h.enter (law.slots u) hnew (fun f hf => ?_) (by simp [Slot.leftBehind, Slot.unknown])
          fun _ => rfl
        exact Option.some.inj hf ▸ rfl
      · exact h.follow (slots_other hu) (fun _ => .inl rfl) rfl
  | @register t hnew hkind =>
      refine h.follow (follows_update (s := s) (t := t) ?_ u) (fun _ => .inl rfl) rfl
      exact .of_file rfl rfl .rfl id
  | @finishTool t r _ => exact h.follow (follows_update (.finishTool t _ r) u) (fun _ => .inl rfl) rfl
  | @panicTool t message _ =>
      exact h.follow (follows_update (.panicTool t _ message) u) (fun _ => .inl rfl) rfl
  | @readPrior t o hfuture =>
      exact h.follow (follows_update (.setFuture (by simp [hfuture]) (by simp)) u)
        (fun _ => .inl rfl) rfl
  | @writeEnd t now o flags prior hfuture =>
      have howned := ((law.slots t).running (by rw [hfuture]; trivial)).1
      have hlive : (s.slot t).future ≠ .none ∧ (s.slot t).future ≠ .announced := by simp [hfuture]
      refine h.follow (follows_update (s := s) (t := t) ?_ u) (fun _ => .inl rfl) rfl
      refine .trans (.setFile ?_ fun hk => absurd hk howned.not_external) (.setFuture hlive ?_)
      · rfl
      · simp
  | @prune t o flags hfuture _ =>
      exact h.follow (follows_update (.setFuture (by simp [hfuture]) (by simp)) u)
        (fun _ => .inl rfl) rfl
  | @announceEnd t o flags hfuture =>
      by_cases hu : u = t
      · subst hu
        exact h.announceOwn hfuture
      · refine h.follow (slots_other hu) (fun _ => .inl rfl) ?_
        show ((s.setFuture t .announced).publish _).announcements u = _
        rw [countP_publish]
        simp [Slot.announcement, Ne.symm hu, State.setFuture, State.setSlot, State.announcements]
  | silent => exact h
  | readUpdate | writeUpdate | sendFlags => cases hupdates
  | @leave e i hcall hbusy hfinal =>
      refine h.follow (.refl u _) (callsFollow_goto (fun hab => ?_) id) rfl
      cases hc : s.call i with
      | finalizing t f f' => exact hfinal t f f' hc
      | announcing f => exact hbusy f hc
      | _ =>
          rw [hc] at hab
          exact hab
  | @find e i m t f f' he hcall hfile hv =>
      by_cases hu : u = t
      · subst hu
        exact h.find ((law.slots u).external_of_verdict hfile hv) hfile hv
          (halone u (finds_of_find he hcall hfile hstep))
      · exact h.follow (.refl u _) (callsFollow_of_ne hcall id fun hab => hu hab.symm) rfl
  | @writeFinal i t f f' hcall =>
      have hend := told.calls i
      rw [hcall] at hend
      by_cases hu : u = t
      · subst hu
        exact h.write (law.call hcall).1 hcall hend.1 hend.2
      · exact h.follow (slots_other hu) (callsFollow_of_ne hcall (fun hab => hu hab.symm)
          fun hab => hu (hab.symm.trans hend.1)) rfl
  | @announceFinal i f' hcall =>
      by_cases hu : u = f'.taskId
      · subst hu
        exact h.announce hcall
      · refine h.follow (.refl u _) (callsFollow_of_ne hcall (fun hab => hu hab.symm) id) ?_
        show (s.publish f'.announcement).announcements u = _
        rw [countP_publish]
        simp [TaskStatusFile.announcement, Ne.symm hu]
  | @cancel i m t task hcall _ _ =>
      exact h.follow (follows_update (.abort t _) u) (callsFollow_of_ne hcall id id) rfl
  | @writeCancelled i m now task flags hcall =>
      refine h.follow (follows_update (s := s) (t := task.taskId) ?_ u)
        (callsFollow_of_ne hcall id id) rfl
      exact .setFile rfl fun hk => absurd hk (law.call hcall).1.not_external
  | @kill i m t now probe f hcall _ _ _ =>
      exact h.follow (.refl u _) (callsFollow_of_ne hcall id id) rfl
  | @writeKilled i t now f hcall =>
      have hname := told.calls i
      rw [hcall] at hname
      refine h.follow (follows_update (s := s) (t := t) ?_ u) (callsFollow_of_ne hcall id id) rfl
      exact .setFile hname fun _ => by simp [TaskStatusFile.finished, pushTaskEvent]
  | @drain i m order hcall _ =>
      exact h.follow (follows_nextDrained (s.setLive m []) i m order u)
        (callsFollow_nextDrained (s := s.setLive m []) (hcall ▸ id) m order)
        (nextDrained_announcements ..)
  | @skipDrained i m task rest hcall =>
      exact h.follow (follows_nextDrained s i m rest u)
        (callsFollow_nextDrained (hcall ▸ id) m rest) (nextDrained_announcements ..)
  | @readDrained i m task rest hcall _ =>
      exact h.follow (.refl u _) (callsFollow_of_ne hcall id id) rfl
  | @writeDrained i m now task rest prior hcall =>
      refine h.follow (.trans (follows_update (s := s) (t := task.taskId) ?_ u)
        (follows_nextDrained (s.setFile _ _) i m rest u))
        (callsFollow_nextDrained (s := s.setFile _ _) (hcall ▸ id) m rest)
        (nextDrained_announcements ..)
      exact .setFile rfl fun hk => absurd hk (law.call hcall).1.1.1.not_external
  | @readOld i t f hcall _ _ => exact h.follow (.refl u _) (callsFollow_of_ne hcall id id) rfl
  | @remove i t hcall =>
      exact h.follow (follows_update (.removeFile t _) u) (callsFollow_of_ne hcall id id) rfl

theorem told_step (law : Law cfg s) (told : Told s) (hstep : step cfg ops s e = some s')
    (hupdates : e.updates = false) (halone : Alone cfg s e) : Told s' where
  tasks := tasksTold_step law told hstep hupdates halone
  calls := callTold_step told (step_cases hstep)

theorem told_init {files : String → Option (TaskStatusFile P)}
    (hnames : ∀ t f, files t = some f → f.taskId = t) : Told (State.init files) where
  tasks t := by
    cases hf : files t with
    | none =>
        have hslot : (State.init files).slot t = .unknown := by simp [State.init, hf]
        refine ⟨fun f h => ?_, fun hk => ?_, fun _ => ⟨fun _ => id, Nat.zero_le 1, ?_⟩⟩
        · rw [hslot] at h
          cases h
        · rw [hslot] at hk
          cases hk
        · rw [hslot]
          simp [State.init, State.announcements, Slot.unknown]
    | some f =>
        have hslot : (State.init files).slot t = .leftBehind f := by simp [State.init, hf]
        refine ⟨fun g h => ?_, fun _ => ⟨by rw [hslot]; rfl, ?_⟩, fun hk => ?_⟩
        · rw [hslot] at h
          exact hnames t g (hf.trans h)
        · exact .unknown rfl (fun _ _ h => h.elim) fun _ _ h => by cases h
        · rw [hslot] at hk
          exact absurd rfl hk
  calls _ := trivial

/-! ### The end is announced -/

/-- The future has written its end. -/
def Future.Written : Future P → Prop
  | .recorded _ _ | .pruned _ _ | .announced => True
  | _ => False

/-- The call does not cancel the task. -/
def Call.Spares (t : String) : Call P → Prop
  | .cancelling _ task _ => task.taskId ≠ t
  | .killing t' _ => t' ≠ t
  | .draining _ task rest | .interrupting _ task rest _ =>
      task.taskId ≠ t ∧ ∀ next ∈ rest, next.taskId ≠ t
  | _ => True

/-- An end that the file tells has been announced, or somebody is about to announce it. -/
structure Pending (s : State P) (t : String) : Prop where
  calls : ∀ i, (s.call i).Spares t
  file : ∀ f, (s.slot t).file = some f → f.status ≠ .running →
    (s.slot t).future.Written ∨ (∃ i g, s.call i = .announcing g ∧ g.taskId = t) ∨
      0 < s.announcements t

/-- Nobody is about to announce the end of the task. -/
def Settled (s : State P) (t : String) : Prop :=
  (∀ o flags, (s.slot t).future ≠ .recorded o flags ∧ (s.slot t).future ≠ .pruned o flags) ∧
    ∀ i f, s.call i = .announcing f → f.taskId ≠ t

/-- What a step keeps of a slot whose file it does not write. -/
structure Slot.Retains (sl sl' : Slot P) : Prop where
  file : ∀ f, sl'.file = some f → f.status ≠ .running → sl.file = some f
  written : sl.future.Written → sl'.future.Written

theorem Slot.Retains.refl (sl : Slot P) : Slot.Retains sl sl := ⟨fun _ h _ => h, id⟩

theorem Slot.Retains.trans {a b c : Slot P} (h : Slot.Retains a b) (h' : Slot.Retains b c) :
    Slot.Retains a c :=
  ⟨fun f hf hover => h.file f (h'.file f hf hover) hover, h'.written ∘ h.written⟩

theorem retains_update {t' : String} {sl' : Slot P}
    (h : t' = t → Slot.Retains (s.slot t') sl') :
    Slot.Retains (s.slot t) (Function.update s.slot t' sl' t) := by
  by_cases ht : t = t'
  · subst ht
    rw [Function.update_self]
    exact h rfl
  · rw [Function.update_of_ne ht]
    exact .refl _

theorem retains_nextDrained {i m : ℕ} {rest : List RunningTask}
    (hrest : ∀ task ∈ rest, task.taskId ≠ t) (s : State P) :
    Slot.Retains (s.slot t) ((s.nextDrained i m rest).slot t) := by
  cases rest with
  | nil => exact .refl _
  | cons task rest =>
      exact retains_update fun heq => absurd heq (hrest task List.mem_cons_self)

/-- Announcements that are under way. -/
def AnnouncingKept (call call' : ℕ → Call P) : Prop :=
  ∀ j g, call j = .announcing g → call' j = .announcing g

theorem announcingKept_goto {c : Call P} (hc : ∀ g, s.call i = .announcing g → False) :
    AnnouncingKept s.call (Function.update s.call i c) := by
  intro j g hj
  by_cases hji : j = i
  · subst hji
    exact (hc g hj).elim
  · rw [Function.update_of_ne hji]
    exact hj

/-- The file of the task is not written. -/
theorem Pending.follow (h : Pending s t) (hcalls : ∀ i, (s'.call i).Spares t)
    (hslot : Slot.Retains (s.slot t) (s'.slot t))
    (hannouncing : AnnouncingKept s.call s'.call)
    (hcount : s'.announcements t = s.announcements t) : Pending s' t where
  calls := hcalls
  file f hf hover := by
    rcases h.file f (hslot.file f hf hover) hover with hwritten | ⟨i, g, hg, hname⟩ | hpos
    · exact .inl (hslot.written hwritten)
    · exact .inr (.inl ⟨i, g, hannouncing i g hg, hname⟩)
    · exact .inr (.inr (hcount ▸ hpos))

/-- No call comes to cancel the task. -/
theorem spares_step (h : Effect cfg ops s e s') (hcancels : e.cancels t = false)
    (hcalls : ∀ i, (s.call i).Spares t) : ∀ j, (s'.call j).Spares t := by
  have hgoto : ∀ {i : ℕ} {call : Call P}, call.Spares t →
      ∀ j, (Function.update s.call i call j).Spares t := fun hcall =>
    (Function.forall_update_iff s.call fun _ call => call.Spares t).mpr
      ⟨hcall, fun j _ => hcalls j⟩
  have hdrained : ∀ (i m : ℕ) (rest : List RunningTask), (∀ next ∈ rest, next.taskId ≠ t) →
      ∀ (slot : String → Slot P) (live : ℕ → List RunningTask) (j : ℕ),
      ((State.nextDrained ⟨slot, live, s.call, s.published⟩ i m rest).call j).Spares t := by
    intro i m rest hrest slot live
    cases rest with
    | nil => exact hgoto trivial
    | cons task rest => exact hgoto (List.forall_mem_cons.mp hrest)
  cases h with
  | start | registerDetached | register | finishTool | panicTool | readPrior | writeEnd | prune |
    announceEnd | silent => exact hcalls
  | writeUpdate _ _ hnext =>
      rcases hnext with rfl | ⟨flags, rfl⟩
      · exact hgoto trivial
      · exact hgoto trivial
  | readUpdate | sendFlags | leave | find | writeFinal | announceFinal | writeCancelled |
    writeKilled | readOld | remove => exact hgoto trivial
  | @cancel i m t' task _ _ htask =>
      have hne : t' ≠ t := by simpa [Event.cancels] using hcancels
      exact hgoto (htask ▸ hne)
  | @kill i m t' now probe f _ _ _ _ =>
      have hne : t' ≠ t := by simpa [Event.cancels] using hcancels
      exact hgoto hne
  | @drain i m order _ _ =>
      have hne : ∀ task ∈ order, task.taskId ≠ t := by simpa [Event.cancels] using hcancels
      exact hdrained i m order hne _ _
  | @skipDrained i m task rest hcall =>
      have hspares := hcalls i
      rw [hcall] at hspares
      exact hdrained i m rest hspares.2 _ _
  | @readDrained i m task rest hcall _ =>
      have hspares := hcalls i
      rw [hcall] at hspares
      exact hgoto hspares
  | @writeDrained i m now task rest prior hcall =>
      have hspares := hcalls i
      rw [hcall] at hspares
      exact hdrained i m rest hspares.2 _ _

theorem announcingKept_nextDrained {m : ℕ} {rest : List RunningTask}
    (hc : ∀ g, s.call i = .announcing g → False) :
    AnnouncingKept s.call (s.nextDrained i m rest).call := by
  cases rest with
  | nil => exact announcingKept_goto hc
  | cons task rest => exact announcingKept_goto hc

theorem Slot.Retains.finishTool (sl : Slot P) (r : ToolResult) :
    Slot.Retains sl (sl.finishTool r) := by
  refine ⟨fun _ h _ => h, fun hw => ?_⟩
  cases hf : sl.future with
  | executing =>
      rw [hf] at hw
      exact hw.elim
  | _ =>
      rw [hf] at hw
      simpa [Slot.finishTool, hf] using hw

theorem Slot.Retains.panicTool (sl : Slot P) (message : String) :
    Slot.Retains sl (sl.panicTool message) := by
  refine ⟨fun _ h _ => h, fun hw => ?_⟩
  cases hf : sl.future with
  | executing =>
      rw [hf] at hw
      exact hw.elim
  | _ =>
      rw [hf] at hw
      simpa [Slot.panicTool, hf] using hw

/-- The future has not written its end, or goes on. -/
theorem Slot.Retains.of_file {sl sl' : Slot P} (hfile : sl'.file = sl.file)
    (hfuture : ¬ sl.future.Written ∨ sl'.future.Written) : Slot.Retains sl sl' := by
  refine ⟨fun _ h _ => hfile ▸ h, fun hw => ?_⟩
  rcases hfuture with hnot | hwritten
  · exact absurd hw hnot
  · exact hwritten

def Call.Announcing : Call P → Prop
  | .announcing _ => True
  | _ => False

theorem not_announcing {c : Call P} (hcall : s.call i = c) (hc : ¬ c.Announcing) :
    ∀ g, s.call i = .announcing g → False := by
  intro g hg
  rw [hcall] at hg
  rw [hg] at hc
  exact hc trivial

/-- **One step** that does not cancel the task. -/
theorem pending_step (told : Told s) (h : Effect cfg ops s e s')
    (hupdates : e.updates = false) (hcancels : e.cancels t = false) (hp : Pending s t) :
    Pending s' t := by
  have hcalls := spares_step h hcancels hp.calls
  have hkept : AnnouncingKept s.call s.call := fun _ _ hj => hj
  have hgoto : ∀ {i : ℕ} {c c' : Call P}, s.call i = c → ¬ c.Announcing →
      AnnouncingKept s.call (Function.update s.call i c') := fun hcall hc =>
    announcingKept_goto (not_announcing hcall hc)
  cases h with
  | @start e kind m t' d notify wake hkind hnew _ =>
      by_cases ht : t' = t
      · subst ht
        refine ⟨hcalls, fun f hf hover => absurd ?_ hover⟩
        simp only [State.setSlot, Function.update_self] at hf
        exact Option.some.inj hf ▸ rfl
      · exact hp.follow hcalls (retains_update fun h => absurd h ht) hkept rfl
  | @registerDetached t' d pid notify wake hnew =>
      by_cases ht : t' = t
      · subst ht
        refine ⟨hcalls, fun f hf hover => absurd ?_ hover⟩
        simp only [State.setSlot, Function.update_self] at hf
        exact Option.some.inj hf ▸ rfl
      · exact hp.follow hcalls (retains_update fun h => absurd h ht) hkept rfl
  | @register t' hnew hkind =>
      refine hp.follow hcalls (retains_update (s := s) fun _ => ?_) hkept rfl
      exact ⟨fun _ h _ => h, id⟩
  | @finishTool t' r _ =>
      exact hp.follow hcalls (retains_update fun _ => .finishTool _ r) hkept rfl
  | @panicTool t' message _ =>
      exact hp.follow hcalls (retains_update fun _ => .panicTool _ message) hkept rfl
  | @readPrior t' o hfuture =>
      refine hp.follow hcalls (retains_update fun _ => .of_file rfl (.inl ?_)) hkept rfl
      rw [hfuture]
      exact id
  | @writeEnd t' now o flags prior hfuture =>
      by_cases ht : t' = t
      · subst ht
        refine ⟨hcalls, fun f hf hover => .inl ?_⟩
        simp only [State.setSlot, Function.update_self]
        trivial
      · exact hp.follow hcalls (retains_update fun h => absurd h ht) hkept rfl
  | @prune t' o flags hfuture _ =>
      refine hp.follow hcalls (retains_update (s := s) fun _ => ?_) hkept rfl
      exact .of_file rfl (.inr trivial)
  | @announceEnd t' o flags hfuture =>
      by_cases ht : t' = t
      · subst ht
        refine ⟨hcalls, fun f hf hover => .inl ?_⟩
        simp only [State.publish, State.setFuture, State.setSlot, Function.update_self]
        trivial
      · refine hp.follow hcalls (retains_update fun h => absurd h ht) hkept ?_
        have hcount := countP_publish (s.setFuture t' .announced)
          ((s.slot t').announcement t' o flags) t
        rw [hcount, if_neg (by exact ht)]
        rfl
  | silent => exact hp
  | readUpdate | writeUpdate | sendFlags => cases hupdates
  | @leave e i hcall hbusy hfinal =>
      exact hp.follow hcalls (.refl _) (announcingKept_goto hbusy) rfl
  | @find e i m t' f f' he hcall hfile hv =>
      exact hp.follow hcalls (.refl _) (hgoto hcall id) rfl
  | @writeFinal i t' f f' hcall =>
      by_cases ht : t' = t
      · subst ht
        have hend := told.calls i
        rw [hcall] at hend
        exact ⟨hcalls, fun g hg hover => .inr (.inl ⟨i, f', goto_call _ _ _, hend.1⟩)⟩
      · exact hp.follow hcalls (retains_update fun h => absurd h ht) (hgoto hcall id) rfl
  | @announceFinal i f' hcall =>
      have hcount := countP_publish s f'.announcement t
      refine ⟨hcalls, fun g hg hover => ?_⟩
      by_cases ht : f'.taskId = t
      · refine .inr (.inr ?_)
        show 0 < (s.publish f'.announcement).announcements t
        rw [hcount, if_pos (by exact ht)]
        omega
      · rw [if_neg (by exact ht), Nat.add_zero] at hcount
        rcases hp.file g hg hover with hwritten | ⟨j, g', hj, hname⟩ | hpos
        · exact .inl hwritten
        · refine .inr (.inl ⟨j, g', ?_, hname⟩)
          refine (goto_call_of_ne (fun hji => ?_) _ _).trans hj
          rw [hji, hcall] at hj
          cases hj
          exact ht hname
        · exact .inr (.inr (hcount ▸ hpos))
  | @cancel i m t' task hcall _ _ =>
      have hne : t' ≠ t := by simpa [Event.cancels] using hcancels
      exact hp.follow hcalls (retains_update fun h => absurd h hne) (hgoto hcall id) rfl
  | @writeCancelled i m now task flags hcall =>
      have hspares := hp.calls i
      rw [hcall] at hspares
      exact hp.follow hcalls (retains_update fun h => absurd h hspares) (hgoto hcall id) rfl
  | @kill i m t' now probe f hcall _ _ _ =>
      exact hp.follow hcalls (.refl _) (hgoto hcall id) rfl
  | @writeKilled i t' now f hcall =>
      have hspares := hp.calls i
      rw [hcall] at hspares
      exact hp.follow hcalls (retains_update fun h => absurd h hspares) (hgoto hcall id) rfl
  | @drain i m order hcall _ =>
      have hne : ∀ task ∈ order, task.taskId ≠ t := by simpa [Event.cancels] using hcancels
      exact hp.follow hcalls (retains_nextDrained hne (s.setLive m []))
        (announcingKept_nextDrained (s := s.setLive m []) (not_announcing hcall id))
        (nextDrained_announcements ..)
  | @skipDrained i m task rest hcall =>
      have hspares := hp.calls i
      rw [hcall] at hspares
      exact hp.follow hcalls (retains_nextDrained hspares.2 s)
        (announcingKept_nextDrained (not_announcing hcall id)) (nextDrained_announcements ..)
  | @readDrained i m task rest hcall _ =>
      exact hp.follow hcalls (.refl _) (hgoto hcall id) rfl
  | @writeDrained i m now task rest prior hcall =>
      have hspares := hp.calls i
      rw [hcall] at hspares
      exact hp.follow hcalls (.trans (retains_update fun h => absurd h hspares.1)
        (retains_nextDrained hspares.2 (s.setFile _ _)))
        (announcingKept_nextDrained (s := s.setFile _ _) (not_announcing hcall id))
        (nextDrained_announcements ..)
  | @readOld i t' f hcall _ _ =>
      exact hp.follow hcalls (.refl _) (hgoto hcall id) rfl
  | @remove i t' hcall =>
      refine hp.follow hcalls (retains_update fun _ => ⟨fun f hf => ?_, id⟩) (hgoto hcall id) rfl
      cases hf

/-! ### Runs -/

theorem TaskTold.announcements_le (h : TaskTold s t) : s.announcements t ≤ 1 := by
  by_cases hk : (s.slot t).kind = .external
  · cases (h.external hk).2 with
    | unknown hzero | written _ _ hzero => omega
    | announced hone => omega
  · exact (h.own hk).2.1

/-- A written end is announced when nobody is about to announce it. -/
theorem Pending.announced (h : Pending s t) (told : TaskTold s t) (hsettled : Settled s t)
    (hfile : (s.slot t).file = some f) (hover : f.status ≠ .running) : s.announcements t = 1 := by
  rcases h.file f hfile hover with hwritten | ⟨i, g, hg, hname⟩ | hpos
  · have hfuture : (s.slot t).future = .announced := by
      cases hf : (s.slot t).future with
      | recorded o flags => exact absurd hf (hsettled.1 o flags).1
      | pruned o flags => exact absurd hf (hsettled.1 o flags).2
      | announced => rfl
      | _ =>
          rw [hf] at hwritten
          exact hwritten.elim
    have hk : (s.slot t).kind ≠ .external := by
      intro hk
      rw [(told.external hk).1] at hfuture
      cases hfuture
    exact (told.own hk).2.2.mpr hfuture
  · exact absurd hname (hsettled.2 i g hg)
  · have hle := told.announcements_le
    omega

theorem pending_init {files : String → Option (TaskStatusFile P)}
    (hrunning : ∀ f, files t = some f → f.status = .running) : Pending (State.init files) t where
  calls _ := trivial
  file f hf hover := by
    refine absurd (hrunning f ?_) hover
    cases h : files t with
    | none => simp [State.init, h, Slot.unknown] at hf
    | some g =>
        simp only [State.init, h, Option.map_some, Option.getD_some, Slot.leftBehind] at hf
        exact hf

/-- **The end of a task is announced once**, along a run in which nobody finds a task over that another
is about to write over: at most once, and once when it is written, the task was not cancelled and
nobody is still about to announce it. -/
theorem announced_once {files : String → Option (TaskStatusFile P)}
    {ts : List (Transition (State P) (Event P))}
    (run : Run (step cfg ops) (State.init files) ts s')
    (hnames : ∀ t f, files t = some f → f.taskId = t)
    (hupdates : ∀ tr ∈ ts, tr.event.updates = false)
    (halone : ∀ tr ∈ ts, Alone cfg tr.before tr.event) (t : String) :
    s'.announcements t ≤ 1 ∧
    ((∀ f, files t = some f → f.status = .running) → (∀ tr ∈ ts, tr.event.cancels t = false) →
      Settled s' t → ∀ f, (s'.slot t).file = some f → f.status ≠ .running →
        s'.announcements t = 1) := by
  have hstep : ∀ tr ∈ ts, step cfg ops tr.before tr.event = some tr.after →
      Law cfg tr.before ∧ Told tr.before → Law cfg tr.after ∧ Told tr.after := by
    rintro tr htr hstep ⟨law, told⟩
    exact ⟨law_step law hstep, told_step law told hstep (hupdates tr htr) (halone tr htr)⟩
  have hinit : Law cfg (State.init files) ∧ Told (State.init files) :=
    ⟨law_init files, told_init hnames⟩
  obtain ⟨-, told⟩ := run.preserves (P := fun s => Law cfg s ∧ Told s) hstep hinit
  refine ⟨(told.tasks t).announcements_le, fun hrunning hcancels hsettled f hf hover => ?_⟩
  have hpending : Pending s' t := by
    refine run.preserves (P := fun s => Pending s t) (fun tr htr hs hp => ?_)
      (pending_init hrunning)
    obtain ⟨-, htold⟩ := run.before_of (P := fun s => Law cfg s ∧ Told s) hstep hinit htr
    exact pending_step htold (step_cases hs) (hupdates tr htr) (hcancels tr htr) hp
  exact hpending.announced (told.tasks t) hsettled hf hover

/-- A detached task, which a reader finds over. -/
def detachedFile : TaskStatusFile Unit := detachedStatus 7 "a" build true false

def detached : State Unit := (State.init fun _ => none).setSlot "a" (.leftBehind detachedFile)

def foundOver : State Unit :=
  detached.goto 0 (.finalizing "a" detachedFile
    (detachedFile.finished .completed (some 0) none ""))

def writtenOver : State Unit :=
  (foundOver.setFile "a" (some (detachedFile.finished .completed (some 0) none ""))).goto 0
    (.announcing (detachedFile.finished .completed (some 0) none ""))

def announcedOver : State Unit :=
  (writtenOver.publish (detachedFile.finished .completed (some 0) none "").announcement).goto 0 .idle

def finding : List (Transition (State Unit) (Event Unit)) :=
  [⟨State.init fun _ => none, .registerDetached "a" build 7 true false, detached⟩,
   ⟨detached, .look 0 0 "a" ⟨true, some 0⟩ false "", foundOver⟩,
   ⟨foundOver, .writeFinal 0, writtenOver⟩,
   ⟨writtenOver, .announceFinal 0, announcedOver⟩]

theorem run_finding :
    Run (step oneManager plainOps) (State.init fun _ => none) finding announcedOver :=
  .cons rfl (.cons rfl (.cons rfl (.cons rfl (.nil _))))

theorem announcedOver_idle (i : ℕ) : announcedOver.call i = .idle := by
  by_cases hi : i = 0
  · subst hi
    exact goto_call ..
  · have hpublish : ∀ (s : State Unit) event, (s.publish event).call = s.call := fun _ _ => rfl
    have hfile : ∀ (s : State Unit) t file, (s.setFile t file).call = s.call := fun _ _ _ => rfl
    rw [announcedOver, goto_call_of_ne hi, hpublish, writtenOver, goto_call_of_ne hi, hfile, foundOver,
      goto_call_of_ne hi]
    rfl

theorem announced_once_finding : announcedOver.announcements "a" = 1 := by
  have hmem : ∀ {Q : Transition (State Unit) (Event Unit) → Prop},
      Q ⟨State.init fun _ => none, .registerDetached "a" build 7 true false, detached⟩ →
      Q ⟨detached, .look 0 0 "a" ⟨true, some 0⟩ false "", foundOver⟩ →
      Q ⟨foundOver, .writeFinal 0, writtenOver⟩ →
      Q ⟨writtenOver, .announceFinal 0, announcedOver⟩ → ∀ tr ∈ finding, Q tr := by
    intro Q h₁ h₂ h₃ h₄ tr htr
    simp only [finding, List.mem_cons, List.not_mem_nil, or_false] at htr
    rcases htr with rfl | rfl | rfl | rfl
    · exact h₁
    · exact h₂
    · exact h₃
    · exact h₄
  refine (announced_once run_finding (fun _ _ h => ?_) (hmem rfl rfl rfl rfl)
    (hmem (fun _ h => ?_) (fun _ _ _ _ _ h => ?_) (fun _ h => ?_) fun _ h => ?_) "a").2
    (fun _ h => ?_) (hmem rfl rfl rfl rfl) ⟨fun _ _ => ⟨fun h => ?_, fun h => ?_⟩, fun i f h => ?_⟩
    (detachedFile.finished .completed (some 0) none "") rfl (by decide)
  · cases h
  · cases h
  · cases h
  · cases h
  · cases h
  · cases h
  · cases h
  · cases h
  · cases (announcedOver_idle i).symm.trans h

/-- Two readers find the task over before either writes so. -/
def twoReaders : List (Event Unit) :=
  [.registerDetached "a" build 7 true false, .look 0 0 "a" ⟨true, some 0⟩ false "",
    .look 1 0 "a" ⟨true, some 0⟩ false "", .writeFinal 0, .writeFinal 1, .announceFinal 0,
    .announceFinal 1]

/-- **The end is announced twice.** -/
theorem announced_twice : ∃ ts s',
    Run (step oneManager plainOps) (State.init fun _ => none) ts s' ∧
    ts.map Transition.event = twoReaders ∧ s'.announcements "a" = 2 := by
  obtain ⟨ts, s', run, hevents, hobs⟩ := Run.of_observed
    (f := fun r : List (Transition (State Unit) (Event Unit)) × State Unit =>
      r.2.announcements "a")
    (show (exec (step oneManager plainOps) (State.init fun _ => none) twoReaders).map _ =
      some 2 by decide +kernel)
  exact ⟨ts, s', run, hevents, hobs⟩

end Jcode.Background
