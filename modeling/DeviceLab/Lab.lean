import DeviceLab.Scheduler.Run
import DeviceLab.Watcher

/-!
A lab: a scheduler at work, on a clock that moves from event to event.

The allocation loop, the runs and the watchers are tasks.  Tasks that can go on stand in a line, and
each goes on until it has to wait.  The clock stands still while there is such a task and then moves
straight to the next timer.  Whoever operates the lab acts between two instants: what the operator
waits for is looked at when no task can go on, and before the tasks whose timers have just gone off.
-/

namespace DeviceLab

/-- Something that goes on by itself. -/
inductive Task
  | loop
  | run (id : Nat)
  | exec (listener : String) (device : Device) (args : List String)
  | watch (watcher : Watcher) (interval due : Nat)

/-- What an invocation does, and the files it leaves, given the files, what it is asked for, its
device, and how often the configuration of that name has been run before. -/
abbrev Behavior := FileTree → Configuration → Device → Nat → Script × FileTree

/-- A scheduler with its surroundings: the files, the tasks that can go on, and those that wait for
a timer, in the order in which they began to wait. -/
structure Lab where
  scheduler : Scheduler := {}
  tree : FileTree := {}
  behavior : Behavior := fun tree _ _ _ => ({}, tree)
  visits : List (String × Nat) := []
  ready : List Task := []
  timers : List (Nat × Task) := []
  loopAsleep : Bool := false
  loopJoinable : Bool := false
  handles : List Nat := []
  unattended : List Nat := []
  watcher : Watcher := {}

/-- What an operator waits for: a point in time alone, the end of the loop, or the end of the loop
and of runs. -/
inductive Awaited
  | nothing
  | stopped
  | joined (loop : Bool) (runs : List Nat)
  deriving Repr, DecidableEq

namespace Lab

/-- Put the loop in line if it sleeps and has been signalled. -/
def wake (lab : Lab) : Lab :=
  if lab.scheduler.signalled && lab.loopAsleep then
    { lab with
      ready := lab.ready ++ [.loop]
      timers := lab.timers.filter fun timer => match timer.2 with
        | .loop => false
        | .run _ | .exec .. | .watch .. => true
      loopAsleep := false }
  else lab

def withScheduler (lab : Lab) (s : Scheduler) : Lab :=
  { lab with scheduler := s }.wake

def visitsOf (lab : Lab) (name : String) : Nat :=
  (lab.visits.lookup name).getD 0

/-- What the invocation of a run will do, and the lab that has counted it. -/
def visit (lab : Lab) (r : Run) : (Configuration → Script) × Lab :=
  match r.phase, Configuration.ofArgs r.entry.command.args with
  | .assigned, .ok c =>
    let count := lab.visitsOf c.name
    let (script, tree) := lab.behavior lab.tree c r.device count
    (fun _ => script,
      { lab with tree, visits := (c.name, count + 1) :: lab.visits.filter (·.1 != c.name) })
  | _, _ => (fun _ => {}, lab)

/-- Go on with a run.  The answer is the instant its pause is over, or its outcome. -/
def stepRun (lab : Lab) (id : Nat) : Option (Nat ⊕ Outcome) × Lab :=
  match lab.scheduler.run? id with
  | none => (none, lab)
  | some r =>
    let (invocation, lab) := lab.visit r
    match lab.scheduler.step id invocation with
    | none => (none, lab)
    | some (result, s) => (some result, lab.withScheduler s)

def noteDirect (lab : Lab) (result : Except SchedulerError Outcome) : Lab :=
  { lab with scheduler := lab.scheduler.note (.direct result) }

def continueRun (lab : Lab) (id : Nat) : Lab :=
  match lab.stepRun id with
  | (none, lab) => lab
  | (some (.inl time), lab) => { lab with timers := lab.timers ++ [(time, .run id)] }
  | (some (.inr outcome), lab) =>
    if lab.unattended.contains id then lab.noteDirect (.ok outcome) else lab

def perform (lab : Lab) : Task → Lab
  | .loop =>
    let known := lab.scheduler.runs.length
    let s := lab.scheduler.pass
    let started := (s.runs.drop known).map Run.id
    let lab := { lab with
      scheduler := s
      ready := lab.ready ++ started.map .run
      handles := lab.handles ++ started }
    if s.stopped then lab
    else { lab with loopAsleep := true, timers := lab.timers ++ [(s.deadline, .loop)] }
  | .run id => lab.continueRun id
  | .exec listener d args =>
    match lab.scheduler.execCommand listener d args with
    | (.error error, s) => (lab.withScheduler s).noteDirect (.error error)
    | (.ok id, s) =>
      { lab.withScheduler s with unattended := id :: lab.unattended }.continueRun id
  | .watch watcher interval due =>
    if lab.scheduler.shuttingDown then lab
    else
      let (_, watcher, s) := watcher.check lab.tree lab.scheduler
      let next := due + interval
      { lab.withScheduler s with
        timers := lab.timers ++ [(next, Task.watch watcher interval next)] }.wake

def isGoing (lab : Lab) (id : Nat) : Bool :=
  (lab.scheduler.run? id).isSome

/-- Look at what is waited for: `none` when it has come.  Whoever joins waits for the loop, then for
the runs that had been started by then, and for runs started while waiting for those. -/
def poll (lab : Lab) : Awaited → Option Awaited × Lab
  | .nothing => (some .nothing, lab)
  | .stopped => (if lab.scheduler.stopped then none else some .stopped, lab)
  | .joined loop runs =>
    if loop && !lab.scheduler.stopped then (some (.joined loop runs), lab)
    else if runs.any lab.isGoing then (some (.joined false runs), lab)
    else
      let taken := lab.handles.filter lab.isGoing
      (if taken.isEmpty then none else some (.joined false taken), { lab with handles := [] })

def nextTimer (lab : Lab) : Option Nat :=
  (lab.timers.map (·.1)).min?

/-- Move the clock, and put the tasks whose timers have gone off in line. -/
def moveTo (lab : Lab) (time : Nat) : Lab :=
  let due := lab.timers.filter (·.1 ≤ time)
  let loopDue := due.any fun timer => match timer.2 with
    | .loop => true
    | .run _ | .exec .. | .watch .. => false
  { lab with
    scheduler := { lab.scheduler with now := max lab.scheduler.now time }
    ready := lab.ready ++ due.map (·.2)
    timers := lab.timers.filter fun timer => !(timer.1 ≤ time)
    loopAsleep := lab.loopAsleep && !loopDue }

/-- Let tasks go on until what is waited for has come or the deadline has been reached; the answer
is whether it has come.  At most `fuel` tasks and timers are worked off. -/
def goOn (deadline : Nat) : Nat → Awaited → Lab → Bool × Lab
  | 0, _, lab => (false, lab)
  | fuel + 1, awaited, lab =>
    match lab.ready with
    | task :: rest => goOn deadline fuel awaited ({ lab with ready := rest }.perform task)
    | [] =>
      match lab.poll awaited with
      | (none, lab) => (true, lab)
      | (some awaited, lab) =>
        match lab.nextTimer with
        | some time =>
          if time < deadline then goOn deadline fuel awaited (lab.moveTo time)
          else (false, lab.moveTo deadline)
        | none => (false, lab.moveTo deadline)

/-- How many tasks and timers are worked off while somebody waits. -/
def patience : Nat := 1000000

/-- Wait until the deadline at the latest; nothing happens if there is nothing to wait for. -/
def await (lab : Lab) (deadline : Nat) (awaited : Awaited) : Bool × Lab :=
  match lab.poll awaited with
  | (none, lab) => (true, lab)
  | (some awaited, lab) =>
    if deadline ≤ lab.scheduler.now then (false, lab) else goOn deadline patience awaited lab

def advance (lab : Lab) (time : Nat) : Lab :=
  (lab.await (lab.scheduler.now + sleepTime time) .nothing).2

/-- Start the loop; it can be started once. -/
def start (lab : Lab) : Lab :=
  if lab.scheduler.started then lab
  else { lab with
    scheduler := lab.scheduler.start
    ready := lab.ready ++ [.loop]
    loopJoinable := true }

/-- Ask the scheduler to stop once nothing is queued or running, and wait for that.  A scheduler
that was never started has nothing to wait for. -/
def drain (lab : Lab) (timeout : Nat) : Bool × Lab :=
  let lab := lab.withScheduler lab.scheduler.drain
  if lab.scheduler.started then lab.await (lab.scheduler.now + timeout) .stopped else (true, lab)

/-- Wait for the loop and the runs it started.  The loop can be waited for once, and so can each
run. -/
def join (lab : Lab) (timeout : Nat) : Bool × Lab :=
  { lab with loopJoinable := false }.await (lab.scheduler.now + timeout)
    (.joined lab.loopJoinable [])

/-- Go on with a run of the operator's own until it ends, passing its pauses. -/
def attend (id : Nat) : Nat → Lab → Option Outcome × Lab
  | 0, lab => (none, lab)
  | fuel + 1, lab =>
    match lab.stepRun id with
    | (none, lab) => (none, lab)
    | (some (.inr outcome), lab) => (some outcome, lab)
    | (some (.inl time), lab) => attend id fuel (lab.await time .nothing).2

/-- Execute a command on a device that the operator has claimed, and wait for its end. -/
def exec (lab : Lab) (listener : String) (d : Device) (args : List String) :
    Except SchedulerError (Option Outcome) × Lab :=
  match lab.scheduler.execCommand listener d args with
  | (.error error, s) => (.error error, lab.withScheduler s)
  | (.ok id, s) =>
    let (outcome, lab) := attend id patience (lab.withScheduler s)
    (.ok outcome, lab)

/-- Leave a command to be executed on a device that the operator has claimed. -/
def execLater (lab : Lab) (listener : String) (d : Device) (args : List String) : Lab :=
  { lab with ready := lab.ready ++ [.exec listener d args] }

/-- Add a watcher of its own that checks at once and then after every interval.  Without an interval
it never gets to check. -/
def addWatcher (lab : Lab) (interval : Nat) : Lab :=
  if interval = 0 then lab
  else { lab with ready := lab.ready ++ [Task.watch {} interval lab.scheduler.now] }

def check (lab : Lab) : List Path × Lab :=
  let (changed, watcher, s) := lab.watcher.check lab.tree lab.scheduler
  (changed, { lab with watcher }.withScheduler s)

end Lab

end DeviceLab
