import DeviceLab.Scheduler.Allocation

/-!
The steps of runs.

A run begins when its task is first taken up, goes on after each pause, and ends with its device
back in the pool.  A looping command with budget left is then sent back to the queue, unless the run
was fatal or the scheduler is shutting down.  A fatal run shuts the scheduler down.
-/

namespace DeviceLab

namespace Scheduler

/-- The listeners of a run: those of the scheduler, then its own. -/
def listenersOf (s : Scheduler) (r : Run) : List String :=
  s.listeners ++ r.listeners

def reschedulerOf (s : Scheduler) (r : Run) : Rescheduler :=
  { selection := r.entry.selection, file := r.entry.command.file, accepts := !s.stopped }

/-- The entry that a looping command goes back to the queue as, after a run that began at
`startedAt`. -/
def requeued (entry : QueuedCommand) (command : Command) (startedAt : Nat) : QueuedCommand :=
  { entry with
    command
    readyAt := some (Pacing.readyAt { minLoopTime := entry.minLoopTime, startedAt }) }

def comesBack (s : Scheduler) (entry : QueuedCommand) (command : Command)
    (outcome : Outcome) : Bool :=
  entry.mode == .loop && !outcome.isFatal && !s.shuttingDown && command.hasRemaining

/-- Send a command back to the queue after a run that began at `startedAt`, if it is to go there. -/
def sendBack (s : Scheduler) (entry : QueuedCommand) (startedAt : Nat)
    (outcome : Outcome) : Scheduler :=
  let command := entry.command.recordRun (s.now - startedAt)
  if s.comesBack entry command outcome then s.send (.requeue (requeued entry command startedAt))
  else s

/-- A fatal outcome is reported and shuts the scheduler down. -/
def heed (s : Scheduler) : Outcome → Scheduler
  | .fatalError detail => (s.note (.terrible detail)).shutdown
  | .completed | .deviceLost .. | .failed _ => s

/-- What the scheduler does when a run that began at `startedAt` is over. -/
def retire (s : Scheduler) (entry : QueuedCommand) (startedAt : Nat) (outcome : Outcome) :
    Scheduler :=
  let s := ((s.withoutRun entry.id).sendBack entry startedAt outcome).heed outcome
  let s := s.send (.finished entry.id outcome)
  { s with inFlight := s.inFlight - 1 }.signal

/-- End a run: its device goes back, listeners are told, and the command is done with or queued
again. -/
def finish (s : Scheduler) (r : Run) (startedAt : Nat) (error? : Option ConfigurationError)
    (c : Executor.Conclusion) : Scheduler :=
  let told := Executor.closing (s.listenersOf r) r.entry.command.args (c.error? error?) c
  (((s.release c.device c.report).noteAll told).retire r.entry startedAt c.outcome)

/-- Go on with a run up to its next pause or its end.  The answer is the instant at which the pause
is over, or the outcome. -/
def proceed (s : Scheduler) (r : Run) (startedAt : Nat) (actions : List Action)
    (ending : Ending) : (Nat ⊕ Outcome) × Scheduler :=
  let rescheduler := s.reschedulerOf r
  let b := burst rescheduler r.device actions
  let s := s.noteAll (Executor.askedFor rescheduler b.requests)
  let s := b.requests.foldl (fun s request => s.send (.reschedule request)) s
  let r := { r with device := b.device }
  match b.rest with
  | some (time, rest) =>
    let paused := { r with phase := .underway startedAt rest ending }
    (.inl (s.now + time),
      { s with runs := s.runs.map fun other => if other.id = r.id then paused else other })
  | none =>
    let c := Executor.conclude r.device ending
    (.inr c.outcome, s.finish r startedAt none c)

/-- Take a run up.  Arguments that cannot be read end it at once. -/
def begin (s : Scheduler) (r : Run) (invocation : Configuration → Script) :
    (Nat ⊕ Outcome) × Scheduler :=
  match Configuration.ofArgs r.entry.command.args with
  | .error error =>
    let c := Executor.rejected r.device error
    (.inr c.outcome, s.finish r s.now (some error) c)
  | .ok configuration =>
    let told := Executor.opening (s.listenersOf r) r.entry.command r.device configuration
    let script := invocation configuration
    (s.noteAll told).proceed r s.now script.actions script.ending

/-- Take a run up or go on with it, as far as it has come; `none` for an id that does not run. -/
def step (s : Scheduler) (id : Nat) (invocation : Configuration → Script) :
    Option ((Nat ⊕ Outcome) × Scheduler) :=
  (s.run? id).map fun r =>
    match r.phase with
    | .assigned => s.begin r invocation
    | .underway startedAt rest ending => s.proceed r startedAt rest ending

def lease (s : Scheduler) (selection : Selection) : Option (Device × Scheduler) :=
  (s.pool.allocate selection).map fun (d, pool) => (d, { s with pool })

/-- Take a command up on a device that an outside holder has claimed, past the queue.  The answer is
its id.  Where that is refused the device goes back unharmed. -/
def execCommand (s : Scheduler) (listener : String) (d : Device) (args : List String) :
    Except SchedulerError Nat × Scheduler :=
  if s.shuttingDown then (.error .shutdown, s.release d .available)
  else match Configuration.ofArgs args with
    | .error error => (.error (.configuration error), s.release d .available)
    | .ok c =>
      let entry : QueuedCommand :=
        { command := { id := s.nextId, args }, selection := c.requirements }
      (.ok s.nextId,
        { s with nextId := s.nextId + 1 }.take { entry, device := d, listeners := [listener] })

end Scheduler

end DeviceLab
