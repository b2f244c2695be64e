import DeviceLab.CommandFile.Document
import DeviceLab.Command.Shard
import DeviceLab.Invocation.Executor
import DeviceLab.Queue.Basic
import DeviceLab.Queue.Pacing

/-!
The state of the scheduler.

Commands wait in the queue, and the allocation loop matches them with free devices of the pool.  A
command with its device is a run.  Runs never touch the queue: what they have to say goes through a
channel of events, which the loop works off before each pass.  Every step that is described here and
in the modules beside this one happens at one instant, without anything in between.
-/

namespace DeviceLab

open Text

/-- The settings of a scheduler.  Times are in milliseconds. -/
structure SchedulerSettings where
  pollInterval : Nat := 100
  reload : Bool := false
  defaultMinLoopTime : Nat := 0
  maxConcurrent : Option Nat := none
  deriving Repr, DecidableEq, Inhabited

/-- A command file registered for reloading, the arguments added to each of its lines, and the files
it includes. -/
structure WatchedFile where
  path : Path
  extraArgs : List String := []
  included : List Path := []
  deriving Repr, DecidableEq, Inhabited

def WatchedFile.files (w : WatchedFile) : List Path :=
  w.path :: w.included

/-- What a run tells the allocation loop. -/
inductive Event
  | finished (id : Nat) (outcome : Outcome)
  | reschedule (request : FollowUp)
  | requeue (entry : QueuedCommand)
  deriving DecidableEq

/-- How far a run has come: its task has been made, or its invocation pauses with actions left. -/
inductive RunPhase
  | assigned
  | underway (startedAt : Nat) (rest : List Action) (ending : Ending)
  deriving DecidableEq

/-- A command on its device.  `listeners` are told beside those of the scheduler. -/
structure Run where
  entry : QueuedCommand
  device : Device
  listeners : List String := []
  phase : RunPhase := .assigned
  deriving DecidableEq

def Run.id (r : Run) : Nat :=
  r.entry.id

/-- A scheduler with its pool, at an instant in milliseconds.  The journal holds the latest entry
first. -/
structure Scheduler where
  settings : SchedulerSettings := {}
  catalog : Catalog := ∅
  listeners : List String := []
  now : Nat := 0
  pool : Pool := {}
  nextId : Nat := 1
  queue : Queue := ∅
  running : List Command := []
  inFlight : Nat := 0
  runs : List Run := []
  watched : List WatchedFile := []
  reload : Bool := settings.reload
  started : Bool := false
  shuttingDown : Bool := false
  draining : Bool := false
  stopped : Bool := false
  channel : List Event := []
  signalled : Bool := false
  journal : List JournalEntry := []
  deriving Inhabited

namespace Scheduler

def note (s : Scheduler) (notice : Notice) : Scheduler :=
  { s with journal := { time := s.now, notice } :: s.journal }

def noteAll (s : Scheduler) (notices : List Notice) : Scheduler :=
  notices.foldl note s

def signal (s : Scheduler) : Scheduler :=
  { s with signalled := true }

/-- The next id, which is then taken. -/
def takeId (s : Scheduler) : Nat × Scheduler :=
  (s.nextId, { s with nextId := s.nextId + 1 })

/-- Send an event to the allocation loop.  Once the loop has ended nobody receives it. -/
def send (s : Scheduler) (event : Event) : Scheduler :=
  if s.stopped then s else { s with channel := s.channel ++ [event] }.signal

def reportFailed (s : Scheduler) (args : List String) (error : String) : Scheduler :=
  s.noteAll (s.listeners.map (.failed · args error))

/-- Tell every listener that the scheduler refused a command. -/
def reportRefused (s : Scheduler) (args : List String) (error : ConfigurationError) : Scheduler :=
  s.reportFailed args (SchedulerError.configuration error).message

def pushAll (s : Scheduler) (entries : List QueuedCommand) : Scheduler :=
  { s with queue := entries.foldl Queue.push s.queue }

/-- Hand a device back to the pool.  A device that is free again wakes the loop. -/
def release (s : Scheduler) (d : Device) (report : ReturnReport) : Scheduler :=
  let s := { s with pool := s.pool.release d report }
  if Pool.returnState d report = .free then s.signal else s

def register (s : Scheduler) (d : Device) : Bool × Scheduler :=
  let (accepted, pool) := s.pool.register d
  (accepted, if accepted then { s with pool }.signal else s)

def setNullCount (s : Scheduler) (count : Nat) : Scheduler :=
  { s with pool := s.pool.setNullCount count }.signal

def run? (s : Scheduler) (id : Nat) : Option Run :=
  s.runs.find? (·.id == id)

def withoutRun (s : Scheduler) (id : Nat) : Scheduler :=
  { s with
    running := s.running.filter (·.id != id)
    runs := s.runs.filter (·.id != id) }

def take (s : Scheduler) (run : Run) : Scheduler :=
  { s with
    inFlight := s.inFlight + 1
    running := enterBy Command.id run.entry.command s.running
    runs := s.runs ++ [run] }

def commands (s : Scheduler) : List Command :=
  s.running.foldl (fun sorted c => enterBy Command.id c sorted) s.queue.commands

def size (s : Scheduler) : Nat :=
  s.queue.size + s.running.length

def table (s : Scheduler) : String :=
  let row (id runs time state line : String) : String :=
    padRight 6 id ++ " " ++ padRight 6 runs ++ " " ++ padRight 10 time ++ " " ++
      padRight 8 state ++ " " ++ line ++ "\n"
  row "Id" "Runs" "Exec time" "State" "Command" ++ String.join (s.commands.map fun c =>
    row (toString c.id) (toString c.executions) s!"{c.execTime}ms"
      (if s.running.any (·.id == c.id) then "running" else "queued") c.commandLine)

end Scheduler

end DeviceLab
