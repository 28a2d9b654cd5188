import Jcode.Background.Law

/-!
# Background — a finished task stays finished

Whoever rewrites a status file writes back what it read earlier, and nothing is locked in between.
A cancellation of a live task writes without reading.

* `kept_step`: a write over the file that was read keeps its end and its history.
* `finished_stays_finished`: so along a run in which all writes are such, an end stays.
* `progress_resurrects`: a report of progress that was read before the end of the task and is
  written after it makes the task run again.
-/

namespace Jcode.Background
open Runs

variable {P : Type}

/-- The end of a task and its history are in the new file. -/
def KeptFile (f f' : TaskStatusFile P) : Prop :=
  (f.status ≠ .running → f'.status = f.status ∧ f'.error = f.error) ∧
    (f' = f ∨ Extends f.eventHistory f'.eventHistory)

/-- No file is lost, and none loses its end or its history. -/
def Kept (s s' : State P) : Prop :=
  ∀ t f, (s.slot t).file = some f → ∃ f', (s'.slot t).file = some f' ∧ KeptFile f f'

/-- `cleanup` removes old files, whatever they hold. -/
def Event.cleansUp : Event P → Bool
  | .readOld _ _ | .remove _ => true
  | _ => false

/-- A write finds the file that was read for it.  A live task is cancelled while its file says that
it runs and no event is recorded. -/
def Fresh (s : State P) : Event P → Prop
  | .writeEnd t _ =>
      match (s.slot t).future with
      | .recording _ _ prior => (s.slot t).file = prior
      | _ => True
  | .writeUpdate i _ =>
      match s.call i with
      | .updating t f _ => (s.slot t).file = some f
      | _ => True
  | .writeFinal i =>
      match s.call i with
      | .finalizing t f _ => (s.slot t).file = some f
      | _ => True
  | .writeKilled i _ =>
      match s.call i with
      | .killing t f => (s.slot t).file = some f
      | _ => True
  | .writeDrained i _ =>
      match s.call i with
      | .interrupting _ task _ prior => (s.slot task.taskId).file = prior
      | _ => True
  | .writeCancelled i _ =>
      match s.call i with
      | .cancelling _ task _ => ∀ f, (s.slot task.taskId).file = some f →
          f.status = .running ∧ f.eventHistory = []
      | _ => True
  | _ => True

variable {cfg : Config} {ops : ProgressOps P} {s s' : State P} {e : Event P} {t : String}
  {sl' : Slot P} {f : TaskStatusFile P}

theorem KeptFile.refl (f : TaskStatusFile P) : KeptFile f f := ⟨fun _ => ⟨rfl, rfl⟩, .inl rfl⟩

/-- A running file may become any that goes on with its history. -/
theorem KeptFile.of_running {f' : TaskStatusFile P} (hrunning : f.status = .running)
    (hhistory : Extends f.eventHistory f'.eventHistory) : KeptFile f f' :=
  ⟨fun hne => absurd hrunning hne, .inr hhistory⟩

theorem Kept.of_slots (h : ∀ t, (s'.slot t).file = (s.slot t).file) : Kept s s' :=
  fun t f hf => ⟨f, (h t).trans hf, .refl f⟩

/-- One slot is changed. -/
theorem Kept.update {live : ℕ → List RunningTask} {call : ℕ → Call P}
    {published : List BackgroundTaskCompleted}
    (h : ∀ f, (s.slot t).file = some f → ∃ f', sl'.file = some f' ∧ KeptFile f f') :
    Kept s ⟨Function.update s.slot t sl', live, call, published⟩ := by
  intro u f hf
  by_cases hut : u = t
  · subst hut
    obtain ⟨f', hf', hkept⟩ := h f hf
    exact ⟨f', by simp [hf'], hkept⟩
  · exact ⟨f, by simp [Function.update_of_ne hut, hf], .refl f⟩

theorem Kept.same {live : ℕ → List RunningTask} {call : ℕ → Call P}
    {published : List BackgroundTaskCompleted} (h : sl'.file = (s.slot t).file) :
    Kept s ⟨Function.update s.slot t sl', live, call, published⟩ :=
  .update fun f hf => ⟨f, h.trans hf, .refl f⟩

theorem Kept.nextDrained {i m : ℕ} {rest : List RunningTask} (h : Kept s s') :
    Kept s (s'.nextDrained i m rest) := by
  cases rest with
  | nil => exact h
  | cons task rest =>
      intro t f hf
      obtain ⟨f', hf', hkept⟩ := h t f hf
      refine ⟨f', ?_, hkept⟩
      by_cases ht : t = task.taskId
      · subst ht
        show (Function.update s'.slot task.taskId _ task.taskId).file = some f'
        rw [Function.update_self, abort_file, hf']
      · show (Function.update s'.slot task.taskId _ t).file = some f'
        rw [Function.update_of_ne ht, hf']

/-- **One step**: what is written over the file that was read keeps what is there. -/
theorem kept_step (law : Law cfg s) (h : Effect cfg ops s e s') (hclean : e.cleansUp = false)
    (hfresh : Fresh s e) : Kept s s' := by
  cases h with
  | @start e kind m t d notify wake hkind hnew _ =>
      refine .update fun f hf => ?_
      rw [((law.slots t).unknown hnew).1] at hf
      cases hf
  | @registerDetached t d pid notify wake hnew =>
      refine .update fun f hf => ?_
      rw [((law.slots t).unknown hnew).1] at hf
      cases hf
  | register | finishTool | panicTool | readPrior | prune | announceEnd | sendFlags =>
      exact .same rfl
  | @writeEnd t now o flags prior hfuture =>
      simp only [Fresh, hfuture] at hfresh
      refine .update fun f hf => ⟨_, rfl, ?_⟩
      obtain ⟨-, g, hg, hrunning⟩ := (law.slots t).running (by rw [hfuture]; trivial)
      obtain rfl := Option.some.inj (hf.symm.trans hg)
      rw [← hfresh, hf]
      exact .of_running hrunning (pushTaskEvent_extends _ _)
  | silent | readUpdate | leave | find | announceFinal | kill | readDrained =>
      exact .of_slots fun _ => rfl
  | @writeUpdate i t now update f f' call hcall happly _ =>
      simp only [Fresh, hcall] at hfresh
      refine .update fun g hg => ⟨f', rfl, ?_⟩
      obtain rfl := Option.some.inj (hfresh.symm.trans hg)
      obtain ⟨hstatus, herror, -, -, -, hhistory⟩ := update_apply happly
      exact ⟨fun _ => ⟨hstatus, herror⟩, .inr hhistory⟩
  | @writeFinal i t f f' hcall =>
      simp only [Fresh, hcall] at hfresh
      obtain ⟨-, hrunning, -, status, exitCode, error, now, -, rfl⟩ := law.call hcall
      refine .update fun g hg => ⟨_, rfl, ?_⟩
      obtain rfl := Option.some.inj (hfresh.symm.trans hg)
      exact .of_running hrunning (pushTaskEvent_extends _ _)
  | @writeKilled i t now f hcall =>
      simp only [Fresh, hcall] at hfresh
      refine .update fun g hg => ⟨_, rfl, ?_⟩
      obtain rfl := Option.some.inj (hfresh.symm.trans hg)
      exact .of_running (law.call hcall).2 (pushTaskEvent_extends _ _)
  | cancel => exact .same (abort_file _)
  | @writeCancelled i m now task flags hcall =>
      simp only [Fresh, hcall] at hfresh
      refine .update fun f hf => ⟨_, rfl, ?_⟩
      obtain ⟨hrunning, hempty⟩ := hfresh f hf
      refine .of_running hrunning ?_
      rw [hempty]
      exact pushTaskEvent_extends _ _
  | @drain i m order _ _ => exact .nextDrained (.of_slots fun _ => rfl)
  | skipDrained => exact .nextDrained (.of_slots fun _ => rfl)
  | @writeDrained i m now task rest prior hcall =>
      simp only [Fresh, hcall] at hfresh
      refine .nextDrained (.update fun f hf => ⟨_, rfl, ?_⟩)
      rw [← hfresh, hf]
      exact .of_running ((law.call hcall).2 f (hfresh.symm.trans hf)) (pushTaskEvent_extends _ _)
  | readOld => cases hclean
  | remove => cases hclean

/-- **A finished task stays finished**, along a run whose writes all find the file that was read for
them. -/
theorem finished_stays_finished {files : String → Option (TaskStatusFile P)}
    {ts : List (Transition (State P) (Event P))}
    (run : Run (step cfg ops) (State.init files) ts s')
    (hclean : ∀ tr ∈ ts, tr.event.cleansUp = false) (hfresh : ∀ tr ∈ ts, Fresh tr.before tr.event) :
    (∀ tr ∈ ts, Kept tr.before tr.after) ∧
    ∀ tr ∈ ts, ∀ t f, (tr.before.slot t).file = some f → f.status ≠ .running →
      ∃ f', (s'.slot t).file = some f' ∧ f'.status = f.status ∧ f'.error = f.error := by
  have hkept : ∀ tr ∈ ts, Kept tr.before tr.after := by
    intro tr htr
    have law := run.before_of (fun _ _ hstep law => law_step law hstep) (law_init files) htr
    exact kept_step law (step_cases (run.step_of_mem htr)) (hclean tr htr) (hfresh tr htr)
  refine ⟨hkept, fun tr htr t f hf hover => ?_⟩
  obtain ⟨us, vs, rfl⟩ := List.append_of_mem htr
  obtain ⟨-, hstep, hrest⟩ := run.split_at
  refine (Run.cons hstep hrest).preserves (P := fun s => ∃ f', (s.slot t).file = some f' ∧
    f'.status = f.status ∧ f'.error = f.error) (fun tr' htr' _ hbefore => ?_) ⟨f, hf, rfl, rfl⟩
  obtain ⟨g, hg, hstatus, herror⟩ := hbefore
  obtain ⟨g', hg', hsame, -⟩ := hkept tr' (List.mem_append_right us htr') t g hg
  obtain ⟨hstatus', herror'⟩ := hsame (hstatus ▸ hover)
  exact ⟨g', hg', hstatus'.trans hstatus, herror'.trans herror⟩

/-! ### Runs -/

/-- One manager, in one process. -/
def oneManager : Config where
  process _ := ⟨1, "image"⟩
  running _ := true
  running_own _ := rfl
  image_unique _ _ _ := rfl

/-- Reports without contents. -/
def plainOps : ProgressOps Unit := ⟨id, fun _ _ => false, fun _ => none⟩

def build : Description := ⟨"bash", none, "s", ""⟩

/-- A task is spawned, and comes to its end. -/
def spawned : State Unit :=
  (State.init fun _ => none).setSlot "a"
    (.started .spawned 0 build (ownedStatus ⟨1, "image"⟩ "a" build true false))

def returned : State Unit :=
  spawned.setSlot "a" ((spawned.slot "a").finishTool (.ok none (some 0) none))

def recording : State Unit :=
  returned.setFuture "a" (.recording ⟨.completed, some 0, none⟩ (true, false)
    (returned.slot "a").file)

def ended : State Unit :=
  recording.setSlot "a" (((recording.slot "a").setFile (some (endStatus ⟨1, "image"⟩ "a" build
    (true, false) ⟨.completed, some 0, none⟩ (recording.slot "a").file ""))).setFuture
      (.recorded ⟨.completed, some 0, none⟩ (true, false)))

def ending : List (Transition (State Unit) (Event Unit)) :=
  [⟨State.init fun _ => none, .spawn 0 "a" build true false, spawned⟩,
   ⟨spawned, .finishTool "a" (.ok none (some 0) none), returned⟩,
   ⟨returned, .readPrior "a", recording⟩,
   ⟨recording, .writeEnd "a" "", ended⟩]

theorem run_ending : Run (step oneManager plainOps) (State.init fun _ => none) ending ended :=
  .cons rfl (.cons rfl (.cons rfl (.cons rfl (.nil _))))

theorem finished_stays_finished_ending : (∀ tr ∈ ending, Kept tr.before tr.after) ∧
    ∀ tr ∈ ending, ∀ t f, (tr.before.slot t).file = some f → f.status ≠ .running →
      ∃ f', (ended.slot t).file = some f' ∧ f'.status = f.status ∧ f'.error = f.error := by
  refine finished_stays_finished run_ending (fun tr htr => ?_) fun tr htr => ?_
  · simp only [ending, List.mem_cons, List.not_mem_nil, or_false] at htr
    rcases htr with rfl | rfl | rfl | rfl
    · rfl
    · rfl
    · rfl
    · rfl
  · simp only [ending, List.mem_cons, List.not_mem_nil, or_false] at htr
    rcases htr with rfl | rfl | rfl | rfl
    · trivial
    · trivial
    · trivial
    · rfl

/-- A report of progress is read while the task runs, and written after its end. -/
def resurrection : List (Event Unit) :=
  [.spawn 0 "a" build true false, .register "a", .finishTool "a" (.ok none (some 0) none),
    .readPrior "a", .readUpdate 0 "a" (.progress false ()), .writeEnd "a" "", .writeUpdate 0 ""]

/-- **A finished task runs again.** -/
theorem progress_resurrects : ∃ ts s',
    Run (step oneManager plainOps) (State.init fun _ => none) ts s' ∧
    ts.map Transition.event = resurrection ∧
    ∃ tr ∈ ts, (tr.before.slot "a").file.map (·.status) = some .completed ∧
      (tr.after.slot "a").file.map (·.status) = some .running := by
  obtain ⟨ts, s', run, hevents, hobs⟩ := Run.of_observed
    (f := fun r : List (Transition (State Unit) (Event Unit)) × State Unit =>
      r.1.any fun tr => (tr.before.slot "a").file.map (·.status) = some .completed ∧
        (tr.after.slot "a").file.map (·.status) = some .running)
    (show (exec (step oneManager plainOps) (State.init fun _ => none) resurrection).map _ =
      some true by decide +kernel)
  obtain ⟨tr, htr, h⟩ := List.any_eq_true.mp hobs
  exact ⟨ts, s', run, hevents, tr, htr, of_decide_eq_true h⟩

end Jcode.Background
