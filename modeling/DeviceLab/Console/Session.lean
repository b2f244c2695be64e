import DeviceLab.Lab
import DeviceLab.Settings

namespace DeviceLab.Console

open Text

def listener : String := "console"

def shown (verbose : Bool) : Notice → String
  | .started _ command d => s!"▶ [{command.id}] {command.commandLine} on {d.serial}\n"
  | .failed _ args error => s!"✗ {spaced args}: {error}\n"
  | .complete _ d report =>
    if verbose || report != .available then s!"■ {d.serial} freed as {report.label}\n" else ""
  | .printed text => text
  | .invoked .. | .rescheduled .. | .terrible _ | .direct _ => ""

/-- A lab and what the console shows so far. -/
structure Session where
  lab : Lab
  verbose : Bool := false
  output : String := ""

namespace Session

/-- Show the journal of the lab, and empty it. -/
def flush (session : Session) : Session :=
  let text := String.join (session.lab.scheduler.journal.reverse.map fun entry =>
    shown session.verbose entry.notice)
  { session with
    lab := { session.lab with scheduler := { session.lab.scheduler with journal := [] } }
    output := session.output ++ text }

def say (session : Session) (text : String) : Session :=
  { session with output := session.output ++ text }

/-- A session with settings, its loop started. -/
def start (settings : Settings) (tree : FileTree) (verbose reload : Bool) : Session :=
  let pool := settings.buildPool
  let scheduler := { settings.scheduler with
    pollInterval := max 1 settings.scheduler.pollInterval
    reload := settings.scheduler.reload || reload }
  let lab : Lab := {
    scheduler := { settings := scheduler, catalog := settings.catalog, listeners := [listener], pool }
    tree
    behavior := fun tree c d _ => settings.runner.script tree c d }
  let session : Session := { lab := lab.start, verbose }
  if pool.slots.isEmpty then
    session.say "No devices configured; commands will wait for a device\n"
  else session

/-- Queue a command file; the flag says whether it could be used. -/
def addFile (extraArgs : List String) (session : Session) (path : Path) : Bool × Session :=
  match session.lab.scheduler.addFile session.lab.tree path extraArgs with
  | .error _ => (false, session)
  | .ok (count, s) =>
    let session := { session with lab := session.lab.withScheduler s }.flush
    (true, session.say s!"Loaded {count} commands from {path.text}\n")

/-- Queue command files up to the first that cannot be used; the flag says whether there was
none. -/
def addFiles (extraArgs : List String) : List Path → Session → Bool × Session
  | [], session => (true, session)
  | path :: rest, session =>
    match addFile extraArgs session path with
    | (false, session) => (false, session)
    | (true, session) => addFiles extraArgs rest session

/-- Queue a command, if there is one; the flag says whether it could be used. -/
def addCommand (args : List String) (session : Session) : Bool × Session :=
  if args.isEmpty then (true, session)
  else match session.lab.scheduler.addCommand args with
    | .error _ => (false, session)
    | .ok (_, s) => (true, { session with lab := session.lab.withScheduler s }.flush)

/-- How long a session may take, in milliseconds. -/
def maxTime : Nat := 1000000000000000

def finish (interval : Nat) (session : Session) : Session :=
  let lab := session.lab
  let lab := if lab.scheduler.reload then lab.addWatcher interval else lab
  let (_, lab) := lab.drain maxTime
  let (_, lab) := lab.join maxTime
  let session := { session with lab }.flush
  let s := lab.scheduler
  let session :=
    if s.size = 0 then session
    else session.say s!"{s.size} commands left unscheduled:\n{s.table}\n"
  session.say
    s!"Done: {s.pool.count .free} available, {s.pool.count .unavailable} unavailable\n"

/-- Run command files and a command; the flag says whether all of them could be used. -/
def run (settings : Settings) (tree : FileTree) (verbose : Bool) (files : List Path)
    (reload : Bool) (extraArgs args : List String) : Bool × String :=
  if files.isEmpty && args.isEmpty then (false, "")
  else
    match addFiles extraArgs files (start settings tree verbose reload) with
    | (false, session) => (false, session.output)
    | (true, session) =>
      match addCommand args session with
      | (false, session) => (false, session.output)
      | (true, session) => (true, (finish settings.reloadInterval session).output)

end Session

end DeviceLab.Console
