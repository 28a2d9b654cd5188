import Jcode.Background.Finished

/-!
# Background — a task that is over does not run on

An entry of the live map stands for a future, and the future of a spawned task executes the tool.
That of an adopted task only awaits it, and to abort it leaves the tool running.

* `alive_step`: what a step keeps of a task and its entry, while no adopted task is cut off.
* `over_stops_running`: so along a run, what has left the map has stopped, and what the map and the
  file call running has a future that will write its end.
* `adopted_runs_on`: a cancelled task that was adopted runs on.
-/

namespace Jcode.Background
open Runs

variable {P : Type}

/-- The task has an entry in a live map. -/
def State.Live (s : State P) (t : String) : Prop := ∃ m, ∃ task ∈ s.live m, task.taskId = t

/-- The steps of the futures, of the cancellation of live tasks, and of the abortion for a reload. -/
def Event.ofTasks : Event P → Bool
  | .spawn .. | .adopt .. | .register _ | .finishTool _ _ | .panicTool _ _ | .readPrior _ |
    .writeEnd _ _ | .prune _ | .announceEnd _ | .cancel _ _ _ | .writeCancelled _ _ |
    .drain _ _ _ | .readDrained _ | .writeDrained _ _ => true
  | _ => false

/-- An adopted tool that runs is not cut off, of several tasks that are drained only the first one's
tool runs, only adopted tools panic, and no tool calls itself running at its end. -/
def Mild (s : State P) : Event P → Prop
  | .cancel _ _ t => ¬ ((s.slot t).kind = .adopted ∧ (s.slot t).tool = .running)
  | .drain _ _ order =>
      (∀ task ∈ order.head?,
        ¬ ((s.slot task.taskId).kind = .adopted ∧ (s.slot task.taskId).tool = .running)) ∧
      ∀ task ∈ order.tail, (s.slot task.taskId).tool ≠ .running
  | .panicTool t _ => (s.slot t).kind = .adopted
  | .writeEnd t _ => ∀ o flags prior, (s.slot t).future = .recording o flags prior →
      o.status ≠ .running
  | _ => True

/-- **What holds of a task with an entry, or without one.** -/
structure SlotAlive (sl : Slot P) (live : Prop) : Prop where
  tool : sl.tool = .running → sl.future = .executing
  registered : sl.registered = true → sl.Owned
  gone : sl.registered = true → ¬ live → sl.tool ≠ .running
  end_to_come : (sl.registered = true → live) → sl.Owned →
    ∀ f, sl.file = some f → f.status = .running → sl.future.Unwritten

/-- The task has left the live map. -/
def State.Gone (s : State P) (t : String) : Prop := (s.slot t).registered = true ∧ ¬ s.Live t

/-- Calls work on tasks that have left the map. -/
def CallAlive (s : State P) : Call P → Prop
  | .cancelling _ task _ => s.Gone task.taskId
  | .draining _ task rest | .interrupting _ task rest _ =>
      s.Gone task.taskId ∧ ∀ next ∈ rest, s.Gone next.taskId
  | _ => True

structure Alive (s : State P) : Prop where
  slots : ∀ t, SlotAlive (s.slot t) (s.Live t)
  entries : ∀ m, ∀ task ∈ s.live m,
    (s.slot task.taskId).registered = true ∧ (s.slot task.taskId).manager = m
  calls : ∀ i, CallAlive s (s.call i)

variable {cfg : Config} {ops : ProgressOps P} {s s' : State P} {e : Event P} {t : String}
  {sl sl' : Slot P} {i m : ℕ} {live : Prop}

/-! ### One task -/

namespace SlotAlive

/-- A change of the tool and of the future. -/
theorem change (h : SlotAlive sl live) (hkind : sl'.kind = sl.kind)
    (hregistered : sl'.registered = sl.registered) (hfile : sl'.file = sl.file)
    (htool : sl'.tool = .running → sl.tool = .running ∧ sl'.future = sl.future)
    (hfuture : sl.future.Unwritten → sl'.future.Unwritten) : SlotAlive sl' live where
  tool hr := (htool hr).2.trans (h.tool (htool hr).1)
  registered hr := (h.registered (hregistered ▸ hr)).of_kind hkind
  gone hr hl hrun := h.gone (hregistered ▸ hr) hl (htool hrun).1
  end_to_come hl ho f hf hrun :=
    hfuture (h.end_to_come (fun hr => hl (hregistered ▸ hr)) (ho.of_kind hkind.symm) f (hfile ▸ hf)
      hrun)

theorem not_running (h : SlotAlive sl live) (hfuture : sl.future ≠ .executing) :
    sl.tool ≠ .running := fun hrun => hfuture (h.tool hrun)

/-- A task that has left the map is aborted, or left as it is. -/
theorem leave (h : SlotAlive sl live) (hregistered : sl.registered = true)
    (htool : sl.tool ≠ .running) : SlotAlive sl False where
  tool := h.tool
  registered := h.registered
  gone _ _ := htool
  end_to_come hl := (hl hregistered).elim

theorem abort (h : SlotAlive sl live) (hregistered : sl.registered = true)
    (hcut : ¬ (sl.kind = .adopted ∧ sl.tool = .running)) : SlotAlive sl.abort False := by
  have hreg : sl.abort.registered = sl.registered := by
    rw [Slot.abort]
    split <;> rfl
  have htool : sl.abort.tool ≠ .running := by
    rw [Slot.abort]
    split
    · next hf => exact h.not_running (by simp [hf])
    · next hf => exact h.not_running (by simp [hf])
    · next hf => exact h.not_running (by simp [hf])
    · next hf => exact h.not_running (by simp [hf])
    · dsimp only
      split
      · simp
      · next hif => exact fun hrun => hcut ⟨by_contra fun hk => hif ⟨hk, hrun⟩, hrun⟩
  exact {
    tool := fun hrun => absurd hrun htool
    registered := fun _ => (h.registered hregistered).of_kind (abort_kind sl)
    gone := fun _ _ => htool
    end_to_come := fun hl => (hl (hreg.trans hregistered)).elim }

/-- The file of a task that has left the map may say anything. -/
theorem setFile_gone (h : SlotAlive sl live) (hregistered : sl.registered = true) (hlive : ¬ live)
    (file : Option (TaskStatusFile P)) : SlotAlive (sl.setFile file) live where
  tool := h.tool
  registered := h.registered
  gone := h.gone
  end_to_come hl := absurd (hl hregistered) hlive

end SlotAlive

theorem alive_update (h : ∀ u, SlotAlive (s.slot u) (s.Live u)) (ht : SlotAlive sl' (s.Live t)) :
    ∀ u, SlotAlive (Function.update s.slot t sl' u) (s.Live u) :=
  (Function.forall_update_iff s.slot fun u sl => SlotAlive sl (s.Live u)).mpr ⟨ht, fun u _ => h u⟩

/-! ### Entries -/

theorem setLive_live (s : State P) (m : ℕ) (tasks : List RunningTask) :
    (s.setLive m tasks).live m = tasks :=
  Function.update_self ..

theorem setLive_live_of_ne {k : ℕ} (h : k ≠ m) (s : State P) (tasks : List RunningTask) :
    (s.setLive m tasks).live k = s.live k :=
  Function.update_of_ne h ..

theorem live_setLive (s : State P) (m : ℕ) (tasks : List RunningTask) (t : String) :
    (s.setLive m tasks).Live t ↔
      (∃ task ∈ tasks, task.taskId = t) ∨ ∃ k ≠ m, ∃ task ∈ s.live k, task.taskId = t := by
  constructor
  · rintro ⟨k, task, htask, hname⟩
    by_cases hk : k = m
    · subst hk
      rw [setLive_live] at htask
      exact .inl ⟨task, htask, hname⟩
    · rw [setLive_live_of_ne hk] at htask
      exact .inr ⟨k, hk, task, htask, hname⟩
  · rintro (⟨task, htask, hname⟩ | ⟨k, hk, task, htask, hname⟩)
    · exact ⟨m, task, by rwa [setLive_live], hname⟩
    · exact ⟨k, task, by rwa [setLive_live_of_ne hk], hname⟩

/-- A map from which entries are taken. -/
theorem live_of_setLive {tasks : List RunningTask} (hsub : ∀ task ∈ tasks, task ∈ s.live m)
    (h : (s.setLive m tasks).Live t) : s.Live t := by
  rcases (live_setLive s m tasks t).mp h with ⟨task, htask, hname⟩ | ⟨k, -, task, htask, hname⟩
  · exact ⟨m, task, hsub task htask, hname⟩
  · exact ⟨k, task, htask, hname⟩

theorem live_removeLive {u : String} (hu : u ≠ t) :
    (s.removeLive m t).Live u ↔ s.Live u := by
  refine ⟨live_of_setLive fun task htask => (List.mem_filter.mp htask).1, ?_⟩
  rintro ⟨k, task, htask, hname⟩
  refine (live_setLive ..).mpr ?_
  by_cases hk : k = m
  · subst hk
    exact .inl ⟨task, List.mem_filter.mpr ⟨htask, by simpa [hname] using hu⟩, hname⟩
  · exact .inr ⟨k, hk, task, htask, hname⟩

/-- An entry is in the map of the task's manager only. -/
theorem Alive.not_live_removed (h : Alive s) : ¬ (s.removeLive (s.slot t).manager t).Live t := by
  intro hlive
  rcases (live_setLive ..).mp hlive with ⟨task, htask, hname⟩ | ⟨k, hk, task, htask, hname⟩
  · simp [List.mem_filter, hname] at htask
  · exact hk ((h.entries k task htask).2.symm.trans (hname ▸ rfl))

theorem Alive.not_live_drained (h : Alive s) {task : RunningTask} (htask : task ∈ s.live m) :
    ¬ (s.setLive m []).Live task.taskId := by
  intro hlive
  rcases (live_setLive ..).mp hlive with ⟨other, hother, -⟩ | ⟨k, hk, other, hother, hname⟩
  · cases hother
  · have hmanager := (h.entries k other hother).2
    rw [hname, (h.entries m task htask).2] at hmanager
    exact hk hmanager.symm

theorem live_setLive_of_not_mem {tasks : List RunningTask}
    (h : ∀ task ∈ s.live m, task.taskId ≠ t) (h' : ∀ task ∈ tasks, task.taskId ≠ t) :
    (s.setLive m tasks).Live t ↔ s.Live t := by
  rw [live_setLive]
  constructor
  · rintro (⟨task, htask, hname⟩ | ⟨k, -, task, htask, hname⟩)
    · exact absurd hname (h' task htask)
    · exact ⟨k, task, htask, hname⟩
  · rintro ⟨k, task, htask, hname⟩
    by_cases hk : k = m
    · subst hk
      exact absurd hname (h task htask)
    · exact .inr ⟨k, hk, task, htask, hname⟩

theorem live_register {u : String} (hu : u ≠ t) :
    (((s.setSlot t { s.slot t with registered := true }).setLive (s.slot t).manager
      (s.live (s.slot t).manager ++ [(s.slot t).entry t])).Live u) ↔ s.Live u := by
  rw [live_setLive]
  constructor
  · rintro (⟨task, htask, hname⟩ | ⟨k, -, task, htask, hname⟩)
    · rcases List.mem_append.mp htask with htask | htask
      · exact ⟨_, task, htask, hname⟩
      · obtain rfl := List.mem_singleton.mp htask
        exact absurd hname.symm hu
    · exact ⟨k, task, htask, hname⟩
  · rintro ⟨k, task, htask, hname⟩
    by_cases hk : k = (s.slot t).manager
    · subst hk
      exact .inl ⟨task, List.mem_append_left _ htask, hname⟩
    · exact .inr ⟨k, hk, task, htask, hname⟩

/-! ### What has left stays away -/

theorem CallAlive.mono {call : Call P} (h : CallAlive s call)
    (hgone : ∀ t, s.Gone t → s'.Gone t) : CallAlive s' call := by
  cases call with
  | cancelling m task flags => exact hgone _ h
  | draining m task rest | interrupting m task rest prior =>
      exact ⟨hgone _ h.1, fun next hnext => hgone _ (h.2 next hnext)⟩
  | _ => trivial

@[simp] theorem abort_registered (sl : Slot P) : sl.abort.registered = sl.registered := by
  rw [Slot.abort]
  split <;> rfl

@[simp] theorem abort_manager (sl : Slot P) : sl.abort.manager = sl.manager := by
  rw [Slot.abort]
  split <;> rfl

/-- The task stays registered, with its manager. -/
def Slot.Stays (sl sl' : Slot P) : Prop :=
  sl.registered = true → sl'.registered = true ∧ sl'.manager = sl.manager

theorem Slot.Stays.refl (sl : Slot P) : Slot.Stays sl sl := fun hr => ⟨hr, rfl⟩

theorem stays_update (h : Slot.Stays (s.slot t) sl') (u : String) :
    Slot.Stays (s.slot u) (Function.update s.slot t sl' u) := by
  by_cases hu : u = t
  · subst hu
    rwa [Function.update_self]
  · rw [Function.update_of_ne hu]
    exact .refl _

theorem stays_nextDrained (s : State P) (i m : ℕ) (rest : List RunningTask) (u : String) :
    Slot.Stays (s.slot u) ((s.nextDrained i m rest).slot u) := by
  cases rest with
  | nil => exact .refl _
  | cons task rest =>
      exact stays_update (fun hr => ⟨(abort_registered _).trans hr, abort_manager _⟩) u

theorem stays_setFile (s : State P) (t : String) (file : Option (TaskStatusFile P)) (u : String) :
    Slot.Stays (s.slot u) ((s.setFile t file).slot u) := by
  refine stays_update (s := s) ?_ u
  exact fun hr => ⟨hr, rfl⟩

theorem stays_step (alive : Alive s) (h : Effect cfg ops s e s') (hevents : e.ofTasks = true)
    (u : String) : Slot.Stays (s.slot u) (s'.slot u) := by
  cases h with
  | @start e kind m t d notify wake hkind hnew _ =>
      refine stays_update (s := s) (t := t) (fun hr => ?_) u
      exact absurd hnew ((alive.slots t).registered hr).known
  | register =>
      refine stays_update (s := s) ?_ u
      exact fun _ => ⟨rfl, rfl⟩
  | finishTool | panicTool | readPrior | writeEnd | announceEnd | writeCancelled | prune =>
      refine stays_update (s := s) ?_ u
      exact fun hr => ⟨hr, rfl⟩
  | cancel =>
      exact stays_update (s := s) (fun hr => ⟨(abort_registered _).trans hr, abort_manager _⟩) u
  | silent | leave | readDrained => exact .refl _
  | find he =>
      rcases he with ⟨probe, locked, now, rfl⟩ | ⟨now, rfl⟩ | ⟨probe, now, rfl⟩
      · cases hevents
      · cases hevents
      · cases hevents
  | @drain i m order _ _ => exact stays_nextDrained (s.setLive m []) i m order u
  | skipDrained => exact stays_nextDrained s _ _ _ u
  | @writeDrained i m now task rest prior _ =>
      intro hr
      obtain ⟨hr', hm'⟩ := stays_setFile s task.taskId (some (interruptedStatus
        (cfg.process m) task (s.slot task.taskId).flags prior now)) u hr
      obtain ⟨hr'', hm''⟩ := stays_nextDrained _ i m rest u hr'
      exact ⟨hr'', hm''.trans hm'⟩
  | registerDetached | readUpdate | writeUpdate | sendFlags | writeFinal | announceFinal | kill |
    writeKilled | readOld | remove => cases hevents

/-- The entry is new, or was there. -/
theorem entry_step (h : Effect cfg ops s e s') {m : ℕ} {task : RunningTask}
    (htask : task ∈ s'.live m) :
    task ∈ s.live m ∨ (s.slot task.taskId).registered = false ∧
      (s'.slot task.taskId).registered = true ∧ (s'.slot task.taskId).manager = m := by
  have hmap : ∀ {k : ℕ} {tasks : List RunningTask}, (∀ task ∈ tasks, task ∈ s.live k) →
      task ∈ Function.update s.live k tasks m → task ∈ s.live m := by
    intro k tasks hsub hmem
    by_cases hk : m = k
    · subst hk
      rw [Function.update_self] at hmem
      exact hsub task hmem
    · rwa [Function.update_of_ne hk] at hmem
  cases h with
  | @register t hnew hkind =>
      by_cases hm : m = (s.slot t).manager
      · subst hm
        have hmem : task ∈ s.live (s.slot t).manager ++ [(s.slot t).entry t] := by
          rwa [setLive_live] at htask
        rcases List.mem_append.mp hmem with hmem | hmem
        · exact .inl hmem
        · obtain rfl := List.mem_singleton.mp hmem
          refine .inr ⟨hnew, ?_⟩
          show (Function.update s.slot t { s.slot t with registered := true } t).registered = true ∧
            (Function.update s.slot t { s.slot t with registered := true } t).manager =
              (s.slot t).manager
          rw [Function.update_self]
          exact ⟨rfl, rfl⟩
      · rw [setLive_live_of_ne hm] at htask
        exact .inl htask
  | prune => exact .inl (hmap (fun task htask => (List.mem_filter.mp htask).1) htask)
  | cancel => exact .inl (hmap (fun task htask => (List.mem_filter.mp htask).1) htask)
  | @drain i k order _ _ =>
      rw [live_nextDrained] at htask
      exact .inl (hmap (fun task htask => by cases htask) htask)
  | skipDrained | writeDrained =>
      rw [live_nextDrained] at htask
      exact .inl htask
  | _ => exact .inl htask

theorem entries_step (alive : Alive s) (h : Effect cfg ops s e s') (hevents : e.ofTasks = true) :
    ∀ m, ∀ task ∈ s'.live m,
      (s'.slot task.taskId).registered = true ∧ (s'.slot task.taskId).manager = m := by
  intro m task htask
  rcases entry_step h htask with htask | ⟨-, hentry⟩
  · obtain ⟨hregistered, hmanager⟩ := alive.entries m task htask
    obtain ⟨hregistered', hmanager'⟩ := stays_step alive h hevents task.taskId hregistered
    exact ⟨hregistered', hmanager'.trans hmanager⟩
  · exact hentry

/-- **What has left the map stays away**, along any step. -/
theorem gone_step (alive : Alive s) (h : Effect cfg ops s e s') (hevents : e.ofTasks = true)
    {u : String} (hgone : s.Gone u) : s'.Gone u := by
  obtain ⟨hregistered, hnot⟩ := hgone
  refine ⟨(stays_step alive h hevents u hregistered).1, ?_⟩
  rintro ⟨m, task, htask, rfl⟩
  rcases entry_step h htask with htask | ⟨hnew, -⟩
  · exact hnot ⟨m, task, htask, rfl⟩
  · rw [hregistered] at hnew
    cases hnew

/-! ### Steps -/

theorem slots_abort (h : ∀ u, SlotAlive (s.slot u) (s.Live u)) {task : RunningTask}
    (hgone : s.Gone task.taskId) (htool : (s.slot task.taskId).tool ≠ .running) :
    ∀ u, SlotAlive (Function.update s.slot task.taskId (s.slot task.taskId).abort u) (s.Live u) := by
  refine alive_update h ?_
  rw [iff_false_intro hgone.2]
  exact (h task.taskId).abort hgone.1 fun hcut => htool hcut.2

/-- The next of the drained tasks has left the map, and has stopped. -/
theorem slots_nextDrained_alive (h : ∀ u, SlotAlive (s.slot u) (s.Live u)) (i m : ℕ)
    {rest : List RunningTask} (hgone : ∀ task ∈ rest, s.Gone task.taskId) :
    ∀ u, SlotAlive ((s.nextDrained i m rest).slot u) ((s.nextDrained i m rest).Live u) := by
  cases rest with
  | nil => exact h
  | cons task rest =>
      obtain ⟨hhead, -⟩ := List.forall_mem_cons.mp hgone
      exact slots_abort h hhead ((h task.taskId).gone hhead.1 hhead.2)

/-- All that was in the map has left it; of the tools only the first may still run. -/
theorem slots_drained (alive : Alive s) (i : ℕ) {order : List RunningTask}
    (horder : order.Perm (s.live m))
    (hhead : ∀ task ∈ order.head?,
      ¬ ((s.slot task.taskId).kind = .adopted ∧ (s.slot task.taskId).tool = .running))
    (htail : ∀ task ∈ order.tail, (s.slot task.taskId).tool ≠ .running) (u : String) :
    SlotAlive (((s.setLive m []).nextDrained i m order).slot u)
      (((s.setLive m []).nextDrained i m order).Live u) := by
  have hlive : (((s.setLive m []).nextDrained i m order).Live u) ↔ (s.setLive m []).Live u := by
    cases order with
    | nil => exact .rfl
    | cons task rest => exact .rfl
  rw [hlive]
  by_cases hmem : ∃ task ∈ s.live m, task.taskId = u
  · obtain ⟨task, htask, rfl⟩ := hmem
    have hregistered := (alive.entries m task htask).1
    have hsl := alive.slots task.taskId
    rw [iff_false_intro (alive.not_live_drained htask)]
    cases order with
    | nil => cases horder.mem_iff.mpr htask
    | cons head rest =>
        show SlotAlive (Function.update s.slot head.taskId (s.slot head.taskId).abort task.taskId) _
        by_cases hsame : task.taskId = head.taskId
        · rw [hsame, Function.update_self]
          exact (hsame ▸ hsl).abort (hsame ▸ hregistered) (hhead head rfl)
        · rw [Function.update_of_ne hsame]
          refine hsl.leave hregistered (htail task ?_)
          rcases List.mem_cons.mp (horder.mem_iff.mpr htask) with rfl | htask
          · exact absurd rfl hsame
          · exact htask
  · have hnot : ∀ task ∈ s.live m, task.taskId ≠ u := fun task htask hname =>
      hmem ⟨task, htask, hname⟩
    rw [live_setLive_of_not_mem hnot fun _ h => by cases h]
    cases order with
    | nil => exact alive.slots u
    | cons head rest =>
        have hne : u ≠ head.taskId := fun heq =>
          hnot head (horder.mem_iff.mp List.mem_cons_self) heq.symm
        show SlotAlive (Function.update s.slot head.taskId (s.slot head.taskId).abort u) _
        rw [Function.update_of_ne hne]
        exact alive.slots u

/-- **Every task**, along a step. -/
theorem alive_slots_step (alive : Alive s) (h : Effect cfg ops s e s')
    (hevents : e.ofTasks = true) (hmild : Mild s e) : ∀ u, SlotAlive (s'.slot u) (s'.Live u) := by
  have hcall : ∀ {i : ℕ} {call : Call P}, s.call i = call → CallAlive s call :=
    fun {i} _ h => h ▸ alive.calls i
  cases h with
  | @start e kind m t d notify wake hkind hnew _ =>
      refine alive_update (s := s) alive.slots ⟨fun _ => rfl, fun hr => ?_, fun hr => ?_,
        fun _ _ _ _ _ => trivial⟩
      · cases hr
      · cases hr
  | @register t hnew hkind =>
      intro u
      by_cases hu : u = t
      · subst hu
        have hsl := alive.slots u
        show SlotAlive (Function.update s.slot u { s.slot u with registered := true } u) _
        rw [Function.update_self]
        refine ⟨hsl.tool, fun _ => hkind, fun _ hl => absurd ?_ hl, fun _ ho f hf hrun => ?_⟩
        · exact (live_setLive s _ _ u).mpr
            (.inl ⟨(s.slot u).entry u, List.mem_append_right _ (List.mem_singleton.mpr rfl), rfl⟩)
        · refine hsl.end_to_come (fun hr => ?_) ho f hf hrun
          rw [hnew] at hr
          cases hr
      · have hlive := live_register (s := s) hu
        show SlotAlive (Function.update s.slot t { s.slot t with registered := true } u) _
        rw [Function.update_of_ne hu]
        exact iff_iff_eq.mp hlive ▸ alive.slots u
  | @finishTool t r htool =>
      refine alive_update (s := s) alive.slots ((alive.slots t).change rfl rfl rfl (fun hr => ?_) ?_)
      · cases hr
      · rw [Slot.finishTool, (alive.slots t).tool htool]
        exact id
  | @panicTool t message htool =>
      refine alive_update (s := s) alive.slots ((alive.slots t).change rfl rfl rfl (fun hr => ?_) ?_)
      · cases hr
      · have hkind : (s.slot t).kind = .adopted := hmild
        simp only [Slot.panicTool, (alive.slots t).tool htool, hkind, if_true]
        exact id
  | @readPrior t o hfuture =>
      have hstopped := (alive.slots t).not_running (by simp [hfuture])
      exact alive_update (s := s) alive.slots ((alive.slots t).change rfl rfl rfl
        (fun hr => absurd hr hstopped) fun _ => trivial)
  | @writeEnd t now o flags prior hfuture =>
      have hsl := alive.slots t
      have hstopped := hsl.not_running (by simp [hfuture])
      refine alive_update (s := s) alive.slots ⟨fun hr => absurd hr hstopped, hsl.registered,
        fun _ _ => hstopped, fun _ _ f hf hrun => ?_⟩
      obtain rfl := Option.some.inj hf
      exact absurd hrun (hmild o flags prior hfuture)
  | @prune t o flags hfuture hreg =>
      intro u
      show SlotAlive (Function.update s.slot t ((s.slot t).setFuture (.pruned o flags)) u)
        ((s.removeLive (s.slot t).manager t).Live u)
      by_cases hu : u = t
      · subst hu
        have hsl := alive.slots u
        have hstopped := hsl.not_running (by simp [hfuture])
        rw [Function.update_self, iff_false_intro alive.not_live_removed]
        exact ⟨fun hr => absurd hr hstopped, hsl.registered, fun _ _ => hstopped,
          fun hl => (hl hreg).elim⟩
      · rw [Function.update_of_ne hu, live_removeLive hu]
        exact alive.slots u
  | @announceEnd t o flags hfuture =>
      have hstopped := (alive.slots t).not_running (by simp [hfuture])
      refine alive_update (s := s) alive.slots ((alive.slots t).change rfl rfl rfl
        (fun hr => absurd hr hstopped) ?_)
      rw [hfuture]
      exact id
  | silent | leave | readDrained => exact alive.slots
  | find he =>
      rcases he with ⟨probe, locked, now, rfl⟩ | ⟨now, rfl⟩ | ⟨probe, now, rfl⟩
      · cases hevents
      · cases hevents
      · cases hevents
  | @cancel i m t task _ hlive htask =>
      obtain rfl := htask
      obtain ⟨hregistered, hmanager⟩ := alive.entries m task hlive
      intro u
      show SlotAlive (Function.update s.slot task.taskId (s.slot task.taskId).abort u)
        ((s.removeLive m task.taskId).Live u)
      by_cases hu : u = task.taskId
      · subst hu
        have hnot := alive.not_live_removed (t := task.taskId)
        rw [hmanager] at hnot
        rw [Function.update_self, iff_false_intro hnot]
        exact (alive.slots task.taskId).abort hregistered hmild
      · rw [Function.update_of_ne hu, live_removeLive hu]
        exact alive.slots u
  | @writeCancelled i m now task flags hcancelling =>
      have hgone := hcall hcancelling
      exact alive_update (s := s) alive.slots
        ((alive.slots task.taskId).setFile_gone hgone.1 hgone.2 _)
  | @drain i m order _ horder =>
      exact slots_drained alive i horder hmild.1 hmild.2
  | @skipDrained i m task rest hdraining =>
      exact slots_nextDrained_alive alive.slots i m (hcall hdraining).2
  | @writeDrained i m now task rest prior hdraining =>
      have hgone := hcall hdraining
      refine slots_nextDrained_alive (s := s.setFile _ _) ?_ i m fun next hnext => ?_
      rotate_left
      · obtain ⟨hregistered, hnot⟩ := hgone.2 next hnext
        exact ⟨(stays_setFile s _ _ next.taskId hregistered).1, hnot⟩
      exact alive_update (s := s) alive.slots
        ((alive.slots task.taskId).setFile_gone hgone.1.1 hgone.1.2 _)
  | registerDetached | readUpdate | writeUpdate | sendFlags | writeFinal | announceFinal | kill |
    writeKilled | readOld | remove => cases hevents

theorem calls_nextDrained_alive {i m : ℕ} {rest : List RunningTask}
    (h : ∀ j, CallAlive s' (s.call j)) (hrest : ∀ task ∈ rest, s'.Gone task.taskId) :
    ∀ j, CallAlive s' ((s.nextDrained i m rest).call j) := by
  cases rest with
  | nil =>
      exact (Function.forall_update_iff s.call fun _ call => CallAlive s' call).mpr
        ⟨trivial, fun j _ => h j⟩
  | cons task rest =>
      exact (Function.forall_update_iff s.call fun _ call => CallAlive s' call).mpr
        ⟨List.forall_mem_cons.mp hrest, fun j _ => h j⟩

/-- **The calls**, along a step. -/
theorem alive_calls_step (alive : Alive s) (h : Effect cfg ops s e s')
    (hevents : e.ofTasks = true) : ∀ j, CallAlive s' (s'.call j) := by
  have hgone : ∀ {u : String}, s.Gone u → s'.Gone u := gone_step alive h hevents
  have hsame : ∀ j, CallAlive s' (s.call j) := fun j => (alive.calls j).mono fun _ => hgone
  have hgoto : ∀ {i : ℕ} {call : Call P}, CallAlive s' call →
      ∀ j, CallAlive s' (Function.update s.call i call j) := fun hcall =>
    (Function.forall_update_iff s.call fun _ call => CallAlive s' call).mpr
      ⟨hcall, fun j _ => hsame j⟩
  cases h with
  | start | register | finishTool | panicTool | readPrior | writeEnd | prune | announceEnd |
    silent => exact hsame
  | leave => exact hgoto trivial
  | find he =>
      rcases he with ⟨probe, locked, now, rfl⟩ | ⟨now, rfl⟩ | ⟨probe, now, rfl⟩
      · cases hevents
      · cases hevents
      · cases hevents
  | @cancel i m t task _ hlive htask =>
      obtain rfl := htask
      obtain ⟨hregistered, hmanager⟩ := alive.entries m task hlive
      have hnot := alive.not_live_removed (t := task.taskId)
      rw [hmanager] at hnot
      refine hgoto ⟨?_, hnot⟩
      exact (stays_update (s := s) (fun hr => ⟨(abort_registered _).trans hr, abort_manager _⟩)
        task.taskId hregistered).1
  | writeCancelled => exact hgoto trivial
  | @drain i m order _ horder =>
      refine calls_nextDrained_alive (s := s.setLive m []) hsame fun task htask => ?_
      have hlive := horder.mem_iff.mp htask
      refine ⟨(stays_nextDrained (s.setLive m []) i m order task.taskId
        (alive.entries m task hlive).1).1, ?_⟩
      have hnot := alive.not_live_drained hlive
      rw [State.Live, live_nextDrained]
      exact hnot
  | @skipDrained i m task rest hcall =>
      have hlaw := alive.calls i
      rw [hcall] at hlaw
      exact calls_nextDrained_alive hsame fun next hnext => hgone (hlaw.2 next hnext)
  | @readDrained i m task rest hcall _ =>
      have hlaw := alive.calls i
      rw [hcall] at hlaw
      exact hgoto (hlaw.mono fun _ => hgone)
  | @writeDrained i m now task rest prior hcall =>
      have hlaw := alive.calls i
      rw [hcall] at hlaw
      exact calls_nextDrained_alive (s := s.setFile _ _) hsame fun next hnext =>
        hgone (hlaw.2 next hnext)
  | registerDetached | readUpdate | writeUpdate | sendFlags | writeFinal | announceFinal | kill |
    writeKilled | readOld | remove => cases hevents

/-- **One step** that cuts no adopted tool off. -/
theorem alive_step (alive : Alive s) (h : step cfg ops s e = some s')
    (hevents : e.ofTasks = true) (hmild : Mild s e) : Alive s' where
  slots := alive_slots_step alive (step_cases h) hevents hmild
  entries := entries_step alive (step_cases h) hevents
  calls := alive_calls_step alive (step_cases h) hevents

theorem alive_init (files : String → Option (TaskStatusFile P)) : Alive (State.init files) where
  slots t := by
    cases hf : files t with
    | none =>
        simp only [State.init, hf]
        exact ⟨fun hr => (by cases hr), fun hr => (by cases hr), fun hr => (by cases hr),
          fun _ _ f h => (by cases h)⟩
    | some g =>
        simp only [State.init, hf]
        refine ⟨fun hr => (by cases hr), fun hr => (by cases hr), fun hr => (by cases hr),
          fun _ ho => ?_⟩
        rcases ho with ho | ho
        · cases ho
        · cases ho
  entries _ _ h := by cases h
  calls _ := trivial

/-- **What is over does not run on**, along a run that cuts no adopted tool off: the tool of a task that
has left the live map has stopped, and what the map and the file call running has a future that will
write its end. -/
theorem over_stops_running {files : String → Option (TaskStatusFile P)}
    {ts : List (Transition (State P) (Event P))}
    (run : Run (step cfg ops) (State.init files) ts s')
    (hevents : ∀ tr ∈ ts, tr.event.ofTasks = true) (hmild : ∀ tr ∈ ts, Mild tr.before tr.event)
    (t : String) :
    (s'.Gone t → (s'.slot t).tool ≠ .running) ∧
    (s'.Live t → ∀ f, (s'.slot t).file = some f → f.status = .running →
      (s'.slot t).future.Unwritten) := by
  have alive : Alive s' := by
    refine run.preserves (P := Alive) (fun tr htr hs h => ?_) (alive_init files)
    exact alive_step h hs (hevents tr htr) (hmild tr htr)
  refine ⟨fun hgone => (alive.slots t).gone hgone.1 hgone.2, fun hlive f hf hrunning => ?_⟩
  obtain ⟨m, task, htask, rfl⟩ := id hlive
  have howned := (alive.slots task.taskId).registered (alive.entries m task htask).1
  exact (alive.slots task.taskId).end_to_come (fun _ => hlive) howned f hf hrunning

/-! ### Runs -/

/-- A spawned task enters the map, and is cancelled. -/
def entered : State Unit :=
  (spawned.setSlot "a" { spawned.slot "a" with registered := true }).setLive 0
    [(spawned.slot "a").entry "a"]

def cutOff : State Unit :=
  ((entered.removeLive 0 "a").setSlot "a" (entered.slot "a").abort).goto 0
    (.cancelling 0 ((spawned.slot "a").entry "a") (true, false))

def cutting : List (Transition (State Unit) (Event Unit)) :=
  [⟨State.init fun _ => none, .spawn 0 "a" build true false, spawned⟩,
   ⟨spawned, .register "a", entered⟩, ⟨entered, .cancel 0 0 "a", cutOff⟩]

theorem run_cutting : Run (step oneManager plainOps) (State.init fun _ => none) cutting cutOff :=
  .cons rfl (.cons rfl (.cons rfl (.nil _)))

theorem cutOff_gone : cutOff.Gone "a" := by
  refine ⟨rfl, ?_⟩
  rintro ⟨m, task, htask, -⟩
  by_cases hm : m = 0
  · subst hm
    cases htask
  · have hnone : cutOff.live m = [] := by
      show (entered.removeLive 0 "a").live m = []
      rw [State.removeLive, setLive_live_of_ne hm, entered, setLive_live_of_ne hm]
      rfl
    rw [hnone] at htask
    cases htask

theorem over_stops_running_cutting : (cutOff.slot "a").tool ≠ .running := by
  refine (over_stops_running run_cutting (fun tr htr => ?_) (fun tr htr => ?_) "a").1 cutOff_gone
  · simp only [cutting, List.mem_cons, List.not_mem_nil, or_false] at htr
    rcases htr with rfl | rfl | rfl
    · rfl
    · rfl
    · rfl
  · simp only [cutting, List.mem_cons, List.not_mem_nil, or_false] at htr
    rcases htr with rfl | rfl | rfl
    · trivial
    · trivial
    · intro hcut
      cases hcut.1

/-- A task is adopted, and cancelled. -/
def adoption : List (Event Unit) :=
  [.adopt 0 "a" build true false, .register "a", .cancel 0 0 "a", .writeCancelled 0 ""]

/-- **An adopted task that is cancelled runs on.** -/
theorem adopted_runs_on : ∃ ts s',
    Run (step oneManager plainOps) (State.init fun _ => none) ts s' ∧
    ts.map Transition.event = adoption ∧
    (s'.slot "a").registered = true ∧ s'.isLive (s'.slot "a").manager "a" = false ∧
    (s'.slot "a").file.map (·.status) = some .failed ∧ (s'.slot "a").tool = .running := by
  obtain ⟨ts, s', run, hevents, hobs⟩ := Run.of_observed
    (f := fun r : List (Transition (State Unit) (Event Unit)) × State Unit =>
      ((r.2.slot "a").registered, r.2.isLive (r.2.slot "a").manager "a",
        (r.2.slot "a").file.map (·.status), (r.2.slot "a").tool))
    (show (exec (step oneManager plainOps) (State.init fun _ => none) adoption).map _ =
      some (true, false, some .failed, .running) by decide +kernel)
  simp only [Prod.mk.injEq] at hobs
  exact ⟨ts, s', run, hevents, hobs⟩

end Jcode.Background
