import DeviceLab.Command.Usage
import DeviceLab.Scheduler.Basic

namespace DeviceLab

/-- Where a submitted command comes from. -/
inductive Origin
  | direct
  | fileLine (path : Path)
  | reschedule (file : Option Path) (selection : Selection)
  deriving DecidableEq

/-- What becomes of a submitted command: its text is printed, or its entries are to be queued. -/
inductive Prepared
  | printed (text : String)
  | queued (entries : List QueuedCommand)
  deriving DecidableEq

namespace Scheduler

def effectiveMinLoopTime (s : Scheduler) (o : CommandOptions) : Nat :=
  if o.minLoopTime = 0 then s.settings.defaultMinLoopTime else o.minLoopTime

/-- The command that a configuration is submitted as, with the next id, and its device
constraints. -/
def unsplitCommand (s : Scheduler) (c : Configuration) (args : List String) (origin : Origin) :
    Command × Selection :=
  let command : Command := { id := s.nextId, args, expected := c.options.expectedExecutions }
  match origin with
  | .direct => (command, c.requirements)
  | .fileLine path =>
    ({ command with file := some path, line := some { args, group := s.nextId } }, c.requirements)
  | .reschedule file selection => ({ command with file }, selection)

/-- The entries that a configuration is queued as, and the next id after theirs. -/
def entriesOf (s : Scheduler) (c : Configuration) (args : List String) (origin : Origin) :
    Except ConfigurationError (List QueuedCommand × Nat) := do
  let (command, selection) := s.unsplitCommand c args origin
  let split ← match c.options.shardCount with
    | none => .ok none
    | some count => command.split s.catalog count (s.nextId + 1)
  let wrap (command : Command) : QueuedCommand :=
    { command, selection, mode := c.options.runMode
      minLoopTime := s.effectiveMinLoopTime c.options }
  match split with
  | none => return ([wrap command], s.nextId + 1)
  | some shards => return (shards.map wrap, s.nextId + 1 + shards.length)

/-- Read a command and take its ids; nothing is queued yet. -/
def prepare (s : Scheduler) (args : List String) (origin : Origin) :
    Except ConfigurationError (Prepared × Scheduler) := do
  let c ← Configuration.ofArgs args
  match c.options.runMode with
  | .help => return (.printed (Usage.ofArgs args), s)
  | .dryRun => return (.printed (Usage.dryRun c), s)
  | .oneShot | .loop =>
    let (entries, nextId) ← s.entriesOf c args origin
    return (.queued entries, { s with nextId })

/-- Read a command and queue it; the answer is whether anything was queued. -/
def submit (s : Scheduler) (args : List String) (origin : Origin) :
    Except ConfigurationError (Bool × Scheduler) := do
  match ← s.prepare args origin with
  | (.printed text, s) => return (false, s.note (.printed text))
  | (.queued entries, s) => return (true, s.pushAll entries)

/-- Submit a command.  A scheduler that is shutting down takes none. -/
def addFrom (s : Scheduler) (args : List String) (origin : Origin) :
    Except ConfigurationError (Bool × Scheduler) :=
  if s.shuttingDown then .ok (false, s)
  else (s.submit args origin).map fun (queued, s) => (queued, if queued then s.signal else s)

def addCommand (s : Scheduler) (args : List String) :
    Except SchedulerError (Bool × Scheduler) :=
  (s.addFrom args .direct).mapError .configuration

/-- Submit the lines of the file at `path`, and count those that were queued.  A line that is no
command is reported and skipped. -/
def addLines (path : Path) : Scheduler → List (List String) → Nat × Scheduler
  | s, [] => (0, s)
  | s, args :: rest =>
    match s.addFrom args (.fileLine path) with
    | .error error => addLines path (s.reportFailed args error.message) rest
    | .ok (queued, s) =>
      let (count, s) := addLines path s rest
      ((if queued then 1 else 0) + count, s)

def linesWith (document : CommandFile.Document) (extraArgs : List String) : List (List String) :=
  document.entries.map fun e => e.args ++ extraArgs

def enterWatched (w : WatchedFile) : List WatchedFile → List WatchedFile
  | [] => [w]
  | first :: rest =>
    if w.path.before first.path then w :: first :: rest else first :: enterWatched w rest

/-- Queue every line of a command file, and count those that were queued.  With reloading on, the
file is watched from then on; a file that is watched already is left alone. -/
def addFile (s : Scheduler) (tree : FileTree) (path : Path) (extraArgs : List String) :
    Except SchedulerError (Nat × Scheduler) :=
  if s.watched.any (·.path.same path) then .ok (0, s)
  else match CommandFile.Document.ofFile tree path with
    | .error failure => .error failure.toError
    | .ok document =>
      let (count, s) := s.addLines path (linesWith document extraArgs)
      let w : WatchedFile := { path, extraArgs, included := document.included }
      .ok (count, if s.reload then { s with watched := enterWatched w s.watched } else s)

/-- Note what a watched file was read with and what it includes. -/
def updateWatched (s : Scheduler) (path : Path) (extraArgs : List String)
    (included : List Path) : Scheduler :=
  { s with watched := s.watched.map fun w =>
      if w.path.same path then { w with extraArgs, included } else w }

def reloadLines (path : Path) : Scheduler → List (List String) → Scheduler
  | s, [] => s
  | s, args :: rest =>
    match s.submit args (.fileLine path) with
    | .error error => reloadLines path (s.reportRefused args error) rest
    | .ok (_, s) => reloadLines path s rest

/-- Read a command file again and bring the queue in line with it. -/
def notifyChanged (s : Scheduler) (tree : FileTree) (path : Path) (extraArgs : List String) :
    Except SchedulerError Scheduler :=
  match CommandFile.Document.ofFile tree path with
  | .error failure => .error failure.toError
  | .ok document =>
    let plan := ReloadPlan.between (s.queue.fromFile path) (linesWith document extraArgs)
    if plan.isEmpty then .ok (s.updateWatched path extraArgs document.included)
    else
      let s := { s with queue := plan.remove.foldl Queue.erase s.queue }
      let s := reloadLines path s plan.add
      .ok (s.updateWatched path extraArgs document.included).signal

/-- Drop every queued command, and count them. -/
def removeAll (s : Scheduler) : Nat × Scheduler :=
  (s.queue.size, { s with queue := ∅ }.signal)

def shutdown (s : Scheduler) : Scheduler :=
  { s with shuttingDown := true }.signal

def drain (s : Scheduler) : Scheduler :=
  { s with draining := true }.signal

end Scheduler

end DeviceLab
