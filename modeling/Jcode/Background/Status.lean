import Jcode.Support.Runs

/-!
# Background — status files

The status file of a background task, as `background/model.rs` of `jcode-base` lays it out and as
`background.rs` rewrites it.  Each operation is a function of the file it has read; the durations,
which nothing reads, are left out.  What a progress report looks like is a parameter.

* `pushTaskEvent_extends`: an event goes to the end of the history.
-/

namespace Jcode.Background

inductive BackgroundTaskStatus where
  | running
  | completed
  | superseded
  | failed
  deriving DecidableEq, Repr

inductive EventKind where
  | progress
  | checkpoint
  | completed
  | failed
  | superseded
  | cancelled
  | deliveryUpdated
  deriving DecidableEq, Repr

/-- What `update_progress` does with a report of type `P`. -/
structure ProgressOps (P : Type) where
  normalize : P → P
  /-- The second report says nothing over the first: it is the same, or less determinate and parsed
  from the output. -/
  redundant : P → P → Bool
  message : P → Option String

section
variable {P : Type}

structure EventRecord (P : Type) where
  kind : EventKind
  timestamp : String
  message : Option String
  status : Option BackgroundTaskStatus
  exitCode : Option ℤ
  progress : Option P
  deriving DecidableEq, Repr

/-- What a task is called, and since when it runs. -/
structure Description where
  toolName : String
  displayName : Option String
  sessionId : String
  startedAt : String
  deriving DecidableEq, Repr

/-- The contents of a status file. -/
structure TaskStatusFile (P : Type) extends Description where
  taskId : String
  status : BackgroundTaskStatus
  exitCode : Option ℤ
  error : Option String
  completedAt : Option String
  pid : Option ℕ
  /-- The process that runs the task, and its image. -/
  ownerPid : Option ℕ
  ownerInstance : Option String
  detached : Bool
  notify : Bool
  wake : Bool
  progress : Option P
  eventHistory : List (EventRecord P)
  deriving DecidableEq, Repr

def MAX_EVENT_HISTORY : ℕ := 50

def normalizeDelivery (notify wake : Bool) : Bool × Bool := (notify || wake, wake)

/-- An event at the end of the history; the oldest make room. -/
def pushTaskEvent (f : TaskStatusFile P) (event : EventRecord P) : TaskStatusFile P :=
  let history := f.eventHistory ++ [event]
  { f with eventHistory := history.drop (history.length - MAX_EVENT_HISTORY) }

def progressEventRecord (ops : ProgressOps P) (kind : EventKind) (progress : P) (now : String) :
    EventRecord P where
  kind := kind
  timestamp := now
  message := ops.message progress
  status := some .running
  exitCode := none
  progress := some progress

def cancelledByUser : String := "Cancelled by user"

def terminalEventKind (status : BackgroundTaskStatus) (error : Option String) : EventKind :=
  match status with
  | .completed => .completed
  | .superseded => .superseded
  | .failed => if error = some cancelledByUser then .cancelled else .failed
  | .running => .progress

def terminalEventRecord (status : BackgroundTaskStatus) (exitCode : Option ℤ)
    (error : Option String) (now : String) : EventRecord P where
  kind := terminalEventKind status error
  timestamp := now
  message := error
  status := some status
  exitCode := exitCode
  progress := none

/-! ### Processes -/

/-- The image of a process: after an `exec` the number stays and the token is another. -/
structure Process where
  pid : ℕ
  token : String
  deriving DecidableEq, Repr

/-- The managers that share the directory, each by the process it is in. -/
structure Config where
  process : ℕ → Process
  /-- `is_process_running`. -/
  running : ℕ → Bool
  running_own : ∀ m, running (process m).pid = true
  /-- A process has one image at a time. -/
  image_unique : ∀ m m', (process m).pid = (process m').pid → process m = process m'

/-- What a manager finds out about a detached process. -/
structure Probe where
  /-- It has been reaped, or does not run. -/
  gone : Bool
  /-- From the reaping, or from the marker in the output. -/
  exitCode : Option ℤ
  deriving DecidableEq, Repr

/-! ### The first status file -/

/-- `spawn_with_notify` and `adopt_with_options`. -/
def ownedStatus (process : Process) (taskId : String) (d : Description) (notify wake : Bool) :
    TaskStatusFile P :=
  { toDescription := d, taskId, status := .running, exitCode := none, error := none
    completedAt := none, pid := none, ownerPid := some process.pid
    ownerInstance := some process.token, detached := false
    notify := (normalizeDelivery notify wake).1, wake := (normalizeDelivery notify wake).2
    progress := none, eventHistory := [] }

/-- `register_detached_task`. -/
def detachedStatus (pid : ℕ) (taskId : String) (d : Description) (notify wake : Bool) :
    TaskStatusFile P :=
  { toDescription := d, taskId, status := .running, exitCode := none, error := none
    completedAt := none, pid := some pid, ownerPid := none, ownerInstance := none, detached := true
    notify := (normalizeDelivery notify wake).1, wake := (normalizeDelivery notify wake).2
    progress := none, eventHistory := [] }

/-! ### Rewrites -/

/-- What `update_progress`, `update_checkpoint` and `update_delivery` write over. -/
inductive Update (P : Type) where
  | progress (checkpoint : Bool) (report : P)
  | delivery (notify wake : Bool)
  deriving DecidableEq, Repr

def deliveryMessage (notify wake : Bool) : String := s!"notify={notify}, wake={wake}"

/-- The file after an update, unless there is nothing to say. -/
def Update.apply (ops : ProgressOps P) (now : String) (f : TaskStatusFile P) :
    Update P → Option (TaskStatusFile P)
  | .progress checkpoint report =>
      let report := ops.normalize report
      if f.progress.any fun existing => ops.redundant existing report then none
      else some (pushTaskEvent { f with progress := some report }
        (progressEventRecord ops (if checkpoint then .checkpoint else .progress) report now))
  | .delivery notify wake =>
      let (notify, wake) := normalizeDelivery notify wake
      some (pushTaskEvent { f with notify, wake }
        { kind := .deliveryUpdated, timestamp := now, message := some (deliveryMessage notify wake)
          status := some f.status, exitCode := f.exitCode, progress := f.progress })

/-- The file of a task that is over. -/
def TaskStatusFile.finished (f : TaskStatusFile P) (status : BackgroundTaskStatus)
    (exitCode : Option ℤ) (error : Option String) (now : String) : TaskStatusFile P :=
  pushTaskEvent { f with status, exitCode, error, completedAt := some now }
    (terminalEventRecord status exitCode error now)

def detachedError : Option ℤ → String
  | some code => s!"Command exited with code {code}"
  | none => "Detached command exited without a readable exit code"

/-- `finalize_detached_status_if_needed`: the file it writes, if it writes one. -/
def finalizeDetached (probe : Probe) (now : String) (f : TaskStatusFile P) :
    Option (TaskStatusFile P) :=
  if f.status ≠ .running ∨ f.detached = false ∨ f.pid = none ∨ probe.gone = false then none
  else if probe.exitCode = some 0 then some (f.finished .completed probe.exitCode none now)
  else some (f.finished .failed probe.exitCode (some (detachedError probe.exitCode)) now)

/-- The task was run by a process that is gone. -/
def statusIsReconcilableOrphan (cfg : Config) (m : ℕ) (f : TaskStatusFile P) : Bool :=
  if f.status ≠ .running ∨ f.detached = true ∨ f.pid ≠ none then false
  else
    match f.ownerPid with
    | none => false
    | some owner =>
        if f.ownerInstance = some (cfg.process m).token then false
        else if owner = (cfg.process m).pid then true
        else !cfg.running owner

def orphanedError : String :=
  "Task orphaned: the owning server process exited (reloaded or crashed) before the task finished"

/-- `finalize_orphaned_status_if_needed`. -/
def finalizeOrphaned (cfg : Config) (m : ℕ) (live : Bool) (now : String) (f : TaskStatusFile P) :
    Option (TaskStatusFile P) :=
  if statusIsReconcilableOrphan cfg m f ∧ live = false then
    some (f.finished .failed none (some orphanedError) now)
  else none

/-- What `list` and `status` make of a file: the one they write, if they find the task over. -/
def finalize (cfg : Config) (m : ℕ) (live : Bool) (probe : Probe) (now : String)
    (f : TaskStatusFile P) : Option (TaskStatusFile P) :=
  finalizeDetached probe now f <|> finalizeOrphaned cfg m live now f

/-! ### How a task ends -/

/-- What the executed function returns. -/
inductive ToolResult where
  | ok (status : Option BackgroundTaskStatus) (exitCode : Option ℤ) (error : Option String)
  | error (message : String)
  deriving DecidableEq, Repr

structure Outcome where
  status : BackgroundTaskStatus
  exitCode : Option ℤ
  error : Option String
  deriving DecidableEq, Repr

/-- `spawn_with_notify`. -/
def ToolResult.spawned : ToolResult → Outcome
  | .ok status exitCode err =>
      ⟨status.getD (if err.isSome then .failed else .completed), exitCode, err⟩
  | .error message => ⟨.failed, none, some message⟩

/-- `adopt_with_options`; an adopted tool returns its output, or an error. -/
def ToolResult.adopted : ToolResult → Outcome
  | .ok _ _ _ => ⟨.completed, some 0, none⟩
  | .error message => ⟨.failed, none, some message⟩

/-- The file a task future writes at its end, over `prior`. -/
def endStatus (process : Process) (taskId : String) (d : Description) (flags : Bool × Bool)
    (o : Outcome) (prior : Option (TaskStatusFile P)) (now : String) : TaskStatusFile P :=
  pushTaskEvent
    { toDescription := d, taskId, status := o.status, exitCode := o.exitCode, error := o.error
      completedAt := some now, pid := none, ownerPid := some process.pid
      ownerInstance := some process.token, detached := false, notify := flags.1, wake := flags.2
      progress := prior.bind (·.progress)
      eventHistory := (prior.map (·.eventHistory)).getD [] }
    (terminalEventRecord o.status o.exitCode o.error now)

/-- The entry of a task in the live map. -/
structure RunningTask extends Description where
  taskId : String
  deriving DecidableEq, Repr

/-- The file `cancel_with_grace` writes for a live task. -/
def cancelledStatus (process : Process) (task : RunningTask) (flags : Bool × Bool) (now : String) :
    TaskStatusFile P :=
  pushTaskEvent
    { toDescription := task.toDescription, taskId := task.taskId, status := .failed
      exitCode := none, error := some cancelledByUser, completedAt := some now, pid := none
      ownerPid := some process.pid, ownerInstance := some process.token, detached := false
      notify := flags.1, wake := flags.2, progress := none, eventHistory := [] }
    (terminalEventRecord .failed none (some cancelledByUser) now)

def interruptedError : String :=
  "Interrupted by server reload: the owning server process was replaced before the task finished"

/-- The file `abort_live_tasks_for_reload` writes over `prior`. -/
def interruptedStatus (process : Process) (task : RunningTask) (flags : Bool × Bool)
    (prior : Option (TaskStatusFile P)) (now : String) : TaskStatusFile P :=
  pushTaskEvent
    { toDescription :=
        { task.toDescription with
          displayName := (prior.bind (·.displayName)) <|> task.displayName }
      taskId := task.taskId, status := .failed, exitCode := none, error := some interruptedError
      completedAt := some now, pid := none, ownerPid := some process.pid
      ownerInstance := some process.token, detached := false, notify := flags.1, wake := flags.2
      progress := prior.bind (·.progress)
      eventHistory := (prior.map (·.eventHistory)).getD [] }
    (terminalEventRecord .failed none (some interruptedError) now)

/-- The announcement of a task's end. -/
structure BackgroundTaskCompleted where
  taskId : String
  toolName : String
  displayName : Option String
  sessionId : String
  status : BackgroundTaskStatus
  exitCode : Option ℤ
  notify : Bool
  wake : Bool
  deriving DecidableEq, Repr

def TaskStatusFile.announcement (f : TaskStatusFile P) : BackgroundTaskCompleted :=
  ⟨f.taskId, f.toolName, f.displayName, f.sessionId, f.status, f.exitCode, f.notify, f.wake⟩

/-! ### Histories -/

/-- The history goes on at its end, and may lose its oldest entries beyond the maximum. -/
def Extends (history history' : List (EventRecord P)) : Prop :=
  ∃ added, history' =
    (history ++ added).drop ((history ++ added).length - MAX_EVENT_HISTORY)

theorem pushTaskEvent_extends (f : TaskStatusFile P) (event : EventRecord P) :
    Extends f.eventHistory (pushTaskEvent f event).eventHistory :=
  ⟨[event], rfl⟩

end

end Jcode.Background
