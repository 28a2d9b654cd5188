import Jcode.Background.Status

/-!
# Background — the managers

`background.rs` of `jcode-base`.  Several managers share a directory of status files.  A task is run
by a future of its manager, which writes the file at its end, or by a process of its own; everybody
else may read the file and write it back.  A step is one access to the file, to a live map or to the
bus, or one event of a tool.

* `step_cases`: what a step can do.
-/

namespace Jcode.Background
open Runs

variable {P : Type}

/-! ### States -/

/-- How a task was started. -/
inductive Kind where
  | unknown
  | spawned
  | adopted
  /-- By `register_detached_task`, or by a process that is gone. -/
  | external
  deriving DecidableEq, Repr

/-- The execution of the tool. -/
inductive Tool where
  | none
  | running
  | completed
  | dropped
  deriving DecidableEq, Repr

/-- Where the future of a task is. -/
inductive Future (P : Type) where
  | none
  /-- A spawned task executes the tool, an adopted one awaits it. -/
  | executing
  | ended (outcome : Outcome)
  /-- It has read the delivery flags and the status file. -/
  | recording (outcome : Outcome) (flags : Bool × Bool) (prior : Option (TaskStatusFile P))
  /-- It has written the status file. -/
  | recorded (outcome : Outcome) (flags : Bool × Bool)
  | pruned (outcome : Outcome) (flags : Bool × Bool)
  | announced
  | dropped
  | panicked
  deriving DecidableEq, Repr

/-- A task, under its id. -/
structure Slot (P : Type) where
  kind : Kind
  manager : ℕ
  description : Description
  flags : Bool × Bool
  file : Option (TaskStatusFile P)
  registered : Bool
  future : Future P
  tool : Tool
  deriving DecidableEq, Repr

/-- Where a call of an operation is. -/
inductive Call (P : Type) where
  | idle
  | updating (t : String) (snapshot : TaskStatusFile P) (update : Update P)
  | delivering (t : String) (flags : Bool × Bool)
  /-- A reader has found the task over. -/
  | finalizing (t : String) (snapshot final : TaskStatusFile P)
  | announcing (final : TaskStatusFile P)
  /-- A live task has been removed and aborted. -/
  | cancelling (m : ℕ) (task : RunningTask) (flags : Bool × Bool)
  /-- A detached process has been signalled. -/
  | killing (t : String) (snapshot : TaskStatusFile P)
  /-- Of the drained tasks, `task` has been aborted. -/
  | draining (m : ℕ) (task : RunningTask) (rest : List RunningTask)
  | interrupting (m : ℕ) (task : RunningTask) (rest : List RunningTask)
      (prior : Option (TaskStatusFile P))
  | removing (t : String)
  deriving DecidableEq, Repr

structure State (P : Type) where
  slot : String → Slot P
  /-- The live map of each manager. -/
  live : ℕ → List RunningTask
  call : ℕ → Call P
  published : List BackgroundTaskCompleted

namespace Slot

def unknown : Slot P :=
  ⟨.unknown, 0, ⟨"", none, "", ""⟩, (false, false), none, false, .none, .none⟩

/-- A task that another process has left, with its file. -/
def leftBehind (f : TaskStatusFile P) : Slot P :=
  { unknown with kind := .external, description := f.toDescription, file := some f }

/-- A task that a future of the manager `m` runs. -/
def started (kind : Kind) (m : ℕ) (d : Description) (f : TaskStatusFile P) : Slot P :=
  ⟨kind, m, d, (f.notify, f.wake), some f, false, .executing, .running⟩

def setFile (sl : Slot P) (f : Option (TaskStatusFile P)) : Slot P := { sl with file := f }

def setFuture (sl : Slot P) (future : Future P) : Slot P := { sl with future }

/-- The future is dropped, unless it has come to its end.  The tool goes with it, but an adopted tool
has a task of its own. -/
def abort (sl : Slot P) : Slot P :=
  match sl.future with
  | .none | .announced | .dropped | .panicked => sl
  | _ =>
      { sl with
        future := .dropped
        tool := if sl.kind ≠ .adopted ∧ sl.tool = .running then .dropped else sl.tool }

/-- The entry in the live map; that of an adopted task has no display name. -/
def entry (sl : Slot P) (t : String) : RunningTask where
  toDescription :=
    if sl.kind = .adopted then { sl.description with displayName := none } else sl.description
  taskId := t

/-- The announcement of the future of a task. -/
def announcement (sl : Slot P) (t : String) (o : Outcome) (flags : Bool × Bool) :
    BackgroundTaskCompleted :=
  ⟨t, sl.description.toolName, sl.description.displayName, sl.description.sessionId, o.status,
    o.exitCode, flags.1, flags.2⟩

/-- The tool returns. -/
def finishTool (sl : Slot P) (r : ToolResult) : Slot P :=
  { sl with
    tool := .completed
    future :=
      match sl.future with
      | .executing => .ended (if sl.kind = .adopted then r.adopted else r.spawned)
      | future => future }

/-- The tool panics: the wrapper of an adopted one gets an error, a spawned one panics itself. -/
def panicTool (sl : Slot P) (message : String) : Slot P :=
  { sl with
    tool := .completed
    future :=
      match sl.future with
      | .executing =>
          if sl.kind = .adopted then .ended ⟨.failed, none, some message⟩ else .panicked
      | future => future }

end Slot

namespace State

/-- Nothing runs yet; other processes have left the files. -/
def init (files : String → Option (TaskStatusFile P)) : State P where
  slot t := ((files t).map Slot.leftBehind).getD .unknown
  live _ := []
  call _ := .idle
  published := []

def setSlot (s : State P) (t : String) (sl : Slot P) : State P :=
  { s with slot := Function.update s.slot t sl }

def setFile (s : State P) (t : String) (f : Option (TaskStatusFile P)) : State P :=
  s.setSlot t ((s.slot t).setFile f)

def setFuture (s : State P) (t : String) (future : Future P) : State P :=
  s.setSlot t ((s.slot t).setFuture future)

def setLive (s : State P) (m : ℕ) (tasks : List RunningTask) : State P :=
  { s with live := Function.update s.live m tasks }

def goto (s : State P) (i : ℕ) (call : Call P) : State P :=
  { s with call := Function.update s.call i call }

def publish (s : State P) (event : BackgroundTaskCompleted) : State P :=
  { s with published := s.published ++ [event] }

def isLive (s : State P) (m : ℕ) (t : String) : Bool := (s.live m).any (·.taskId == t)

/-- The entry of a task leaves the map. -/
def removeLive (s : State P) (m : ℕ) (t : String) : State P :=
  s.setLive m ((s.live m).filter (·.taskId != t))

/-- `abort_live_tasks_for_reload` turns to the next of the tasks it has drained. -/
def nextDrained (s : State P) (i m : ℕ) : List RunningTask → State P
  | [] => s.goto i .idle
  | task :: rest =>
      (s.setSlot task.taskId (s.slot task.taskId).abort).goto i (.draining m task rest)

end State

/-! ### Steps -/

inductive Event (P : Type) where
  | spawn (m : ℕ) (t : String) (d : Description) (notify wake : Bool)
  | adopt (m : ℕ) (t : String) (d : Description) (notify wake : Bool)
  | registerDetached (t : String) (d : Description) (pid : ℕ) (notify wake : Bool)
  /-- A task enters the live map. -/
  | register (t : String)
  | finishTool (t : String) (r : ToolResult)
  | panicTool (t : String) (message : String)
  /-- The four accesses of a future at its end. -/
  | readPrior (t : String)
  | writeEnd (t : String) (now : String)
  | prune (t : String)
  | announceEnd (t : String)
  | readUpdate (i : ℕ) (t : String) (update : Update P)
  | writeUpdate (i : ℕ) (now : String)
  | sendFlags (i m : ℕ)
  /-- `list`, `status`, `wait` or `cleanup` reads a file. -/
  | look (i m : ℕ) (t : String) (probe : Probe) (locked : Bool) (now : String)
  /-- `reconcile_orphaned_tasks` reads a file. -/
  | reconcile (i m : ℕ) (t : String) (now : String)
  | writeFinal (i : ℕ)
  | announceFinal (i : ℕ)
  /-- `cancel_with_grace`, of a live task and of another. -/
  | cancel (i m : ℕ) (t : String)
  | writeCancelled (i : ℕ) (now : String)
  | cancelDetached (i m : ℕ) (t : String) (probe : Probe) (now : String)
  | writeKilled (i : ℕ) (now : String)
  /-- `abort_live_tasks_for_reload`, and the order in which the map yields its entries. -/
  | drain (i m : ℕ) (order : List RunningTask)
  | readDrained (i : ℕ)
  | writeDrained (i : ℕ) (now : String)
  /-- `cleanup` reads a file that is old, and removes it. -/
  | readOld (i : ℕ) (t : String)
  | remove (i : ℕ)
  deriving DecidableEq, Repr

section Step
variable (cfg : Config) (ops : ProgressOps P)

/-- The file a reader writes. -/
def State.verdict (s : State P) (m : ℕ) (t : String) (probe : Probe) (locked : Bool)
    (now : String) (f : TaskStatusFile P) : Option (TaskStatusFile P) :=
  finalize cfg m (s.isLive m t && !locked) probe now f

def step (s : State P) : Event P → Option (State P)
  | .spawn m t d notify wake =>
      if (s.slot t).kind = .unknown then
        some (s.setSlot t (.started .spawned m d (ownedStatus (cfg.process m) t d notify wake)))
      else none
  | .adopt m t d notify wake =>
      if (s.slot t).kind = .unknown then
        some (s.setSlot t (.started .adopted m d (ownedStatus (cfg.process m) t d notify wake)))
      else none
  | .registerDetached t d pid notify wake =>
      if (s.slot t).kind = .unknown then
        some (s.setSlot t (.leftBehind (detachedStatus pid t d notify wake)))
      else none
  | .register t =>
      if (s.slot t).registered = false ∧
          ((s.slot t).kind = .spawned ∨ (s.slot t).kind = .adopted) then
        some ((s.setSlot t { s.slot t with registered := true }).setLive (s.slot t).manager
          (s.live (s.slot t).manager ++ [(s.slot t).entry t]))
      else none
  | .finishTool t r =>
      if (s.slot t).tool = .running then some (s.setSlot t ((s.slot t).finishTool r)) else none
  | .panicTool t message =>
      if (s.slot t).tool = .running then some (s.setSlot t ((s.slot t).panicTool message)) else none
  | .readPrior t =>
      match (s.slot t).future with
      | .ended o => some (s.setFuture t (.recording o (s.slot t).flags (s.slot t).file))
      | _ => none
  | .writeEnd t now =>
      match (s.slot t).future with
      | .recording o flags prior =>
          some (s.setSlot t (((s.slot t).setFile (some (endStatus (cfg.process (s.slot t).manager) t
            (s.slot t).description flags o prior now))).setFuture (.recorded o flags)))
      | _ => none
  | .prune t =>
      match (s.slot t).future with
      | .recorded o flags =>
          if (s.slot t).registered then
            some ((s.removeLive (s.slot t).manager t).setFuture t (.pruned o flags))
          else none
      | _ => none
  | .announceEnd t =>
      match (s.slot t).future with
      | .pruned o flags =>
          some ((s.setFuture t .announced).publish ((s.slot t).announcement t o flags))
      | _ => none
  | .readUpdate i t update =>
      match s.call i, (s.slot t).file with
      | .idle, some f => some (s.goto i (.updating t f update))
      | .idle, none => some s
      | _, _ => none
  | .writeUpdate i now =>
      match s.call i with
      | .updating t f update =>
          match update.apply ops now f with
          | none => some (s.goto i .idle)
          | some f' =>
              some ((s.setFile t (some f')).goto i
                (match update with
                | .delivery notify wake => .delivering t (normalizeDelivery notify wake)
                | .progress _ _ => .idle))
      | _ => none
  | .sendFlags i m =>
      match s.call i with
      | .delivering t flags =>
          if s.isLive m t then some ((s.setSlot t { s.slot t with flags }).goto i .idle)
          else some (s.goto i .idle)
      | _ => none
  | .look i m t probe locked now =>
      match s.call i, (s.slot t).file with
      | .idle, some f =>
          match s.verdict cfg m t probe locked now f with
          | some f' => some (s.goto i (.finalizing t f f'))
          | none => some s
      | .idle, none => some s
      | _, _ => none
  | .reconcile i m t now =>
      match s.call i, (s.slot t).file with
      | .idle, some f =>
          match finalizeOrphaned cfg m (s.isLive m t) now f with
          | some f' => some (s.goto i (.finalizing t f f'))
          | none => some s
      | .idle, none => some s
      | _, _ => none
  | .writeFinal i =>
      match s.call i with
      | .finalizing t _ f' => some ((s.setFile t (some f')).goto i (.announcing f'))
      | _ => none
  | .announceFinal i =>
      match s.call i with
      | .announcing f' => some ((s.publish f'.announcement).goto i .idle)
      | _ => none
  | .cancel i m t =>
      match s.call i, (s.live m).find? (·.taskId == t) with
      | .idle, some task =>
          some (((s.removeLive m t).setSlot t (s.slot t).abort).goto i
            (.cancelling m task (s.slot t).flags))
      | _, _ => none
  | .writeCancelled i now =>
      match s.call i with
      | .cancelling m task flags =>
          some ((s.setFile task.taskId
            (some (cancelledStatus (cfg.process m) task flags now))).goto i .idle)
      | _ => none
  | .cancelDetached i m t probe now =>
      match s.call i, s.isLive m t, (s.slot t).file with
      | .idle, false, some f =>
          match finalizeDetached probe now f with
          | some f' => some (s.goto i (.finalizing t f f'))
          | none =>
              if f.status = .running ∧ f.detached = true ∧ f.pid ≠ none then
                some (s.goto i (.killing t f))
              else some s
      | .idle, false, none => some s
      | _, _, _ => none
  | .writeKilled i now =>
      match s.call i with
      | .killing t f =>
          some ((s.setFile t
            (some (f.finished .failed none (some cancelledByUser) now))).goto i .idle)
      | _ => none
  | .drain i m order =>
      match s.call i with
      | .idle =>
          if order.Perm (s.live m) then some ((s.setLive m []).nextDrained i m order) else none
      | _ => none
  | .readDrained i =>
      match s.call i with
      | .draining m task rest =>
          -- a task that won the race keeps its status
          if ((s.slot task.taskId).file.any fun f => f.status ≠ .running) then
            some (s.nextDrained i m rest)
          else some (s.goto i (.interrupting m task rest (s.slot task.taskId).file))
      | _ => none
  | .writeDrained i now =>
      match s.call i with
      | .interrupting m task rest prior =>
          some ((s.setFile task.taskId (some (interruptedStatus (cfg.process m) task
            (s.slot task.taskId).flags prior now))).nextDrained i m rest)
      | _ => none
  | .readOld i t =>
      match s.call i, (s.slot t).file with
      | .idle, some f =>
          if f.status = .running then some s else some (s.goto i (.removing t))
      | .idle, none => some s
      | _, _ => none
  | .remove i =>
      match s.call i with
      | .removing t => some ((s.setFile t none).goto i .idle)
      | _ => none

/-- What a reader found: a task that is over by its file. -/
structure Verdict (f f' : TaskStatusFile P) : Prop where
  running : f.status = .running
  /-- It is detached, or its process is gone. -/
  external : f.detached = true ∨ ∃ m, statusIsReconcilableOrphan cfg m f = true
  finished : ∃ status exitCode error now, status ≠ .running ∧
    f' = f.finished status exitCode error now

/-- **What a step can do.** -/
inductive Effect (s : State P) : Event P → State P → Prop where
  | start {e : Event P} {kind : Kind} {m : ℕ} {t : String} {d : Description} {notify wake : Bool}
      (hkind : kind = .spawned ∨ kind = .adopted) (hnew : (s.slot t).kind = .unknown)
      (he : e = .spawn m t d notify wake ∨ e = .adopt m t d notify wake) :
      Effect s e
        (s.setSlot t (.started kind m d (ownedStatus (cfg.process m) t d notify wake)))
  | registerDetached {t : String} {d : Description} {pid : ℕ} {notify wake : Bool}
      (hnew : (s.slot t).kind = .unknown) :
      Effect s (.registerDetached t d pid notify wake)
        (s.setSlot t (.leftBehind (detachedStatus pid t d notify wake)))
  | register {t : String} (hnew : (s.slot t).registered = false)
      (hkind : (s.slot t).kind = .spawned ∨ (s.slot t).kind = .adopted) :
      Effect s (.register t)
        ((s.setSlot t { s.slot t with registered := true }).setLive (s.slot t).manager
          (s.live (s.slot t).manager ++ [(s.slot t).entry t]))
  | finishTool {t : String} {r : ToolResult} (htool : (s.slot t).tool = .running) :
      Effect s (.finishTool t r) (s.setSlot t ((s.slot t).finishTool r))
  | panicTool {t message : String} (htool : (s.slot t).tool = .running) :
      Effect s (.panicTool t message) (s.setSlot t ((s.slot t).panicTool message))
  | readPrior {t : String} {o : Outcome} (hfuture : (s.slot t).future = .ended o) :
      Effect s (.readPrior t)
        (s.setFuture t (.recording o (s.slot t).flags (s.slot t).file))
  | writeEnd {t now : String} {o : Outcome} {flags : Bool × Bool}
      {prior : Option (TaskStatusFile P)} (hfuture : (s.slot t).future = .recording o flags prior) :
      Effect s (.writeEnd t now)
        (s.setSlot t (((s.slot t).setFile (some (endStatus (cfg.process (s.slot t).manager) t
          (s.slot t).description flags o prior now))).setFuture (.recorded o flags)))
  | prune {t : String} {o : Outcome} {flags : Bool × Bool}
      (hfuture : (s.slot t).future = .recorded o flags) (hreg : (s.slot t).registered = true) :
      Effect s (.prune t) ((s.removeLive (s.slot t).manager t).setFuture t (.pruned o flags))
  | announceEnd {t : String} {o : Outcome} {flags : Bool × Bool}
      (hfuture : (s.slot t).future = .pruned o flags) :
      Effect s (.announceEnd t)
        ((s.setFuture t .announced).publish ((s.slot t).announcement t o flags))
  /-- A read after which a call does nothing more. -/
  | silent {e : Event P} : Effect s e s
  | readUpdate {i : ℕ} {t : String} {update : Update P} {f : TaskStatusFile P}
      (hcall : s.call i = .idle) (hfile : (s.slot t).file = some f) :
      Effect s (.readUpdate i t update) (s.goto i (.updating t f update))
  | writeUpdate {i : ℕ} {t now : String} {update : Update P} {f f' : TaskStatusFile P}
      {call : Call P} (hcall : s.call i = .updating t f update)
      (happly : update.apply ops now f = some f')
      (hnext : call = .idle ∨ ∃ flags, call = .delivering t flags) :
      Effect s (.writeUpdate i now) ((s.setFile t (some f')).goto i call)
  | sendFlags {i m : ℕ} {t : String} {flags : Bool × Bool}
      (hcall : s.call i = .delivering t flags) :
      Effect s (.sendFlags i m) ((s.setSlot t { s.slot t with flags }).goto i .idle)
  /-- A call returns. -/
  | leave {e : Event P} {i : ℕ} (hcall : s.call i ≠ .idle) (hbusy : ∀ f, s.call i ≠ .announcing f)
      (hfinal : ∀ t f f', s.call i ≠ .finalizing t f f') : Effect s e (s.goto i .idle)
  | find {e : Event P} {i m : ℕ} {t : String} {f f' : TaskStatusFile P}
      (he : (∃ probe locked now, e = .look i m t probe locked now) ∨ (∃ now, e = .reconcile i m t now) ∨
        ∃ probe now, e = .cancelDetached i m t probe now)
      (hcall : s.call i = .idle) (hfile : (s.slot t).file = some f) (h : Verdict cfg f f') :
      Effect s e (s.goto i (.finalizing t f f'))
  | writeFinal {i : ℕ} {t : String} {f f' : TaskStatusFile P}
      (hcall : s.call i = .finalizing t f f') :
      Effect s (.writeFinal i) ((s.setFile t (some f')).goto i (.announcing f'))
  | announceFinal {i : ℕ} {f' : TaskStatusFile P} (hcall : s.call i = .announcing f') :
      Effect s (.announceFinal i) ((s.publish f'.announcement).goto i .idle)
  | cancel {i m : ℕ} {t : String} {task : RunningTask} (hcall : s.call i = .idle)
      (hlive : task ∈ s.live m) (htask : task.taskId = t) :
      Effect s (.cancel i m t) (((s.removeLive m t).setSlot t (s.slot t).abort).goto i
        (.cancelling m task (s.slot t).flags))
  | writeCancelled {i m : ℕ} {now : String} {task : RunningTask} {flags : Bool × Bool}
      (hcall : s.call i = .cancelling m task flags) :
      Effect s (.writeCancelled i now) ((s.setFile task.taskId
        (some (cancelledStatus (cfg.process m) task flags now))).goto i .idle)
  | kill {i m : ℕ} {t now : String} {probe : Probe} {f : TaskStatusFile P}
      (hcall : s.call i = .idle) (hfile : (s.slot t).file = some f) (hrunning : f.status = .running)
      (hdetached : f.detached = true) :
      Effect s (.cancelDetached i m t probe now) (s.goto i (.killing t f))
  | writeKilled {i : ℕ} {t now : String} {f : TaskStatusFile P} (hcall : s.call i = .killing t f) :
      Effect s (.writeKilled i now)
        ((s.setFile t (some (f.finished .failed none (some cancelledByUser) now))).goto i .idle)
  | drain {i m : ℕ} {order : List RunningTask} (hcall : s.call i = .idle)
      (horder : order.Perm (s.live m)) :
      Effect s (.drain i m order) ((s.setLive m []).nextDrained i m order)
  | skipDrained {i m : ℕ} {task : RunningTask} {rest : List RunningTask}
      (hcall : s.call i = .draining m task rest) :
      Effect s (.readDrained i) (s.nextDrained i m rest)
  | readDrained {i m : ℕ} {task : RunningTask} {rest : List RunningTask}
      (hcall : s.call i = .draining m task rest)
      (hrunning : ∀ f, (s.slot task.taskId).file = some f → f.status = .running) :
      Effect s (.readDrained i)
        (s.goto i (.interrupting m task rest (s.slot task.taskId).file))
  | writeDrained {i m : ℕ} {now : String} {task : RunningTask} {rest : List RunningTask}
      {prior : Option (TaskStatusFile P)} (hcall : s.call i = .interrupting m task rest prior) :
      Effect s (.writeDrained i now)
        ((s.setFile task.taskId (some (interruptedStatus (cfg.process m) task
          (s.slot task.taskId).flags prior now))).nextDrained i m rest)
  | readOld {i : ℕ} {t : String} {f : TaskStatusFile P} (hcall : s.call i = .idle)
      (hfile : (s.slot t).file = some f) (hover : f.status ≠ .running) :
      Effect s (.readOld i t) (s.goto i (.removing t))
  | remove {i : ℕ} {t : String} (hcall : s.call i = .removing t) :
      Effect s (.remove i) ((s.setFile t none).goto i .idle)

variable {cfg ops}

theorem verdict_detached {probe : Probe} {now : String} {f f' : TaskStatusFile P}
    (h : finalizeDetached probe now f = some f') : Verdict cfg f f' := by
  rw [finalizeDetached] at h
  split at h
  · cases h
  · next hif =>
      simp only [not_or, not_not] at hif
      obtain ⟨hrunning, hdetached, -, -⟩ := hif
      have hdetached : f.detached = true := by simpa using hdetached
      split at h
      · exact ⟨hrunning, .inl hdetached, _, _, _, _, by decide, (Option.some.inj h).symm⟩
      · exact ⟨hrunning, .inl hdetached, _, _, _, _, by decide, (Option.some.inj h).symm⟩

theorem verdict_orphaned {m : ℕ} {live : Bool} {now : String} {f f' : TaskStatusFile P}
    (h : finalizeOrphaned cfg m live now f = some f') : Verdict cfg f f' := by
  rw [finalizeOrphaned] at h
  split at h
  · next hif =>
      have hrunning : f.status = .running := by
        by_contra hne
        simp [statusIsReconcilableOrphan, hne] at hif
      exact ⟨hrunning, .inr ⟨m, hif.1⟩, _, _, _, _, by decide, (Option.some.inj h).symm⟩
  · cases h

theorem verdict_finalize {m : ℕ} {live : Bool} {probe : Probe} {now : String}
    {f f' : TaskStatusFile P} (h : finalize cfg m live probe now f = some f') :
    Verdict cfg f f' := by
  rw [finalize] at h
  cases hd : finalizeDetached probe now f with
  | some g =>
      rw [hd] at h
      cases h
      exact verdict_detached hd
  | none =>
      rw [hd] at h
      exact verdict_orphaned h

/-- The file that is found over, or nothing. -/
theorem find_cases {s s' : State P} {e : Event P} {i m : ℕ} {t : String}
    {verdict : TaskStatusFile P → Option (TaskStatusFile P)}
    (he : (∃ probe locked now, e = .look i m t probe locked now) ∨ (∃ now, e = .reconcile i m t now) ∨
      ∃ probe now, e = .cancelDetached i m t probe now)
    (hverdict : ∀ f f', verdict f = some f' → Verdict cfg f f')
    (h : (match s.call i, (s.slot t).file with
      | .idle, some f =>
          match verdict f with
          | some f' => some (s.goto i (.finalizing t f f'))
          | none => some s
      | .idle, none => some s
      | _, _ => none) = some s') : Effect cfg ops s e s' := by
  split at h
  · next hcall hfile =>
      split at h
      · next hf' =>
          obtain rfl := Option.some.inj h
          exact .find he hcall hfile (hverdict _ _ hf')
      · obtain rfl := Option.some.inj h
        exact .silent
  · obtain rfl := Option.some.inj h
    exact .silent
  · cases h

theorem step_cases {s s' : State P} {e : Event P} (h : step cfg ops s e = some s') :
    Effect cfg ops s e s' := by
  cases e with
  | spawn m t d notify wake =>
      obtain ⟨hnew, heq⟩ := Option.ite_none_right_eq_some.mp h
      obtain rfl := Option.some.inj heq
      exact .start (.inl rfl) hnew (.inl rfl)
  | adopt m t d notify wake =>
      obtain ⟨hnew, heq⟩ := Option.ite_none_right_eq_some.mp h
      obtain rfl := Option.some.inj heq
      exact .start (.inr rfl) hnew (.inr rfl)
  | registerDetached t d pid notify wake =>
      obtain ⟨hnew, heq⟩ := Option.ite_none_right_eq_some.mp h
      obtain rfl := Option.some.inj heq
      exact .registerDetached hnew
  | register t =>
      obtain ⟨⟨hnew, hkind⟩, heq⟩ := Option.ite_none_right_eq_some.mp h
      obtain rfl := Option.some.inj heq
      exact .register hnew hkind
  | finishTool t r =>
      obtain ⟨htool, heq⟩ := Option.ite_none_right_eq_some.mp h
      obtain rfl := Option.some.inj heq
      exact .finishTool htool
  | panicTool t message =>
      obtain ⟨htool, heq⟩ := Option.ite_none_right_eq_some.mp h
      obtain rfl := Option.some.inj heq
      exact .panicTool htool
  | readPrior t =>
      simp only [step] at h
      split at h
      · next hfuture =>
          obtain rfl := Option.some.inj h
          exact .readPrior hfuture
      · cases h
  | writeEnd t now =>
      simp only [step] at h
      split at h
      · next hfuture =>
          obtain rfl := Option.some.inj h
          exact .writeEnd hfuture
      · cases h
  | prune t =>
      simp only [step] at h
      split at h
      · next hfuture =>
          obtain ⟨hreg, heq⟩ := Option.ite_none_right_eq_some.mp h
          obtain rfl := Option.some.inj heq
          exact .prune hfuture hreg
      · cases h
  | announceEnd t =>
      simp only [step] at h
      split at h
      · next hfuture =>
          obtain rfl := Option.some.inj h
          exact .announceEnd hfuture
      · cases h
  | readUpdate i t update =>
      simp only [step] at h
      split at h
      · next hcall hfile =>
          obtain rfl := Option.some.inj h
          exact .readUpdate hcall hfile
      · obtain rfl := Option.some.inj h
        exact .silent
      · cases h
  | writeUpdate i now =>
      simp only [step] at h
      split at h
      · next hcall =>
          split at h
          · obtain rfl := Option.some.inj h
            exact .leave (by simp [hcall]) (by simp [hcall]) (by simp [hcall])
          · next happly =>
              obtain rfl := Option.some.inj h
              refine .writeUpdate hcall happly ?_
              split
              · exact .inr ⟨_, rfl⟩
              · exact .inl rfl
      · cases h
  | sendFlags i m =>
      simp only [step] at h
      split at h
      · next hcall =>
          split at h
          · obtain rfl := Option.some.inj h
            exact .sendFlags hcall
          · obtain rfl := Option.some.inj h
            exact .leave (by simp [hcall]) (by simp [hcall]) (by simp [hcall])
      · cases h
  | look i m t probe locked now =>
      exact find_cases (.inl ⟨_, _, _, rfl⟩) (fun _ _ => verdict_finalize) h
  | reconcile i m t now =>
      exact find_cases (.inr (.inl ⟨_, rfl⟩)) (fun _ _ => verdict_orphaned) h
  | writeFinal i =>
      simp only [step] at h
      split at h
      · next hcall =>
          obtain rfl := Option.some.inj h
          exact .writeFinal hcall
      · cases h
  | announceFinal i =>
      simp only [step] at h
      split at h
      · next hcall =>
          obtain rfl := Option.some.inj h
          exact .announceFinal hcall
      · cases h
  | cancel i m t =>
      simp only [step] at h
      split at h
      · next hcall hfind =>
          obtain rfl := Option.some.inj h
          have htask := List.find?_some hfind
          exact .cancel hcall (List.mem_of_find?_eq_some hfind) (beq_iff_eq.mp htask)
      · cases h
  | writeCancelled i now =>
      simp only [step] at h
      split at h
      · next hcall =>
          obtain rfl := Option.some.inj h
          exact .writeCancelled hcall
      · cases h
  | cancelDetached i m t probe now =>
      simp only [step] at h
      split at h
      · next hcall _ hfile =>
          split at h
          · next hf' =>
              obtain rfl := Option.some.inj h
              exact .find (.inr (.inr ⟨_, _, rfl⟩)) hcall hfile (verdict_detached hf')
          · split at h
            · next hif =>
                obtain rfl := Option.some.inj h
                exact .kill hcall hfile hif.1 hif.2.1
            · obtain rfl := Option.some.inj h
              exact .silent
      · obtain rfl := Option.some.inj h
        exact .silent
      · cases h
  | writeKilled i now =>
      simp only [step] at h
      split at h
      · next hcall =>
          obtain rfl := Option.some.inj h
          exact .writeKilled hcall
      · cases h
  | drain i m order =>
      simp only [step] at h
      split at h
      · next hcall =>
          obtain ⟨horder, heq⟩ := Option.ite_none_right_eq_some.mp h
          obtain rfl := Option.some.inj heq
          exact .drain hcall horder
      · cases h
  | readDrained i =>
      simp only [step] at h
      split at h
      · next m task rest hcall =>
          split at h
          · obtain rfl := Option.some.inj h
            exact .skipDrained hcall
          · next hany =>
              obtain rfl := Option.some.inj h
              refine .readDrained hcall fun f hf => ?_
              by_contra hne
              exact hany (by simp [hf, hne])
      · cases h
  | writeDrained i now =>
      simp only [step] at h
      split at h
      · next hcall =>
          obtain rfl := Option.some.inj h
          exact .writeDrained hcall
      · cases h
  | readOld i t =>
      simp only [step] at h
      split at h
      · next hcall hfile =>
          split at h
          · obtain rfl := Option.some.inj h
            exact .silent
          · next hover =>
              obtain rfl := Option.some.inj h
              exact .readOld hcall hfile hover
      · obtain rfl := Option.some.inj h
        exact .silent
      · cases h
  | remove i =>
      simp only [step] at h
      split at h
      · next hcall =>
          obtain rfl := Option.some.inj h
          exact .remove hcall
      · cases h

end Step

end Jcode.Background
