import DeviceLab.Command.Basic
import DeviceLab.Invocation.Script

namespace DeviceLab

/-- Something that listeners are told or that goes to the standard output. -/
inductive Notice
  | started (listener : String) (command : Command) (device : Device)
  | invoked (name : String) (args : List String) (serial : String)
  | rescheduled (args : List String) (accepted : Bool)
  | failed (listener : String) (args : List String) (error : String)
  | complete (listener : String) (device : Device) (report : ReturnReport)
  | terrible (detail : String)
  | direct (result : Except SchedulerError Outcome)
  | printed (text : String)

/-- A notice and the instant it was given at. -/
structure JournalEntry where
  time : Nat
  notice : Notice

namespace Executor

/-- How a run is left: the device as it is handed back, what is reported of it, and the outcome. -/
structure Conclusion where
  device : Device
  report : ReturnReport
  outcome : Outcome

/-- The conclusion of a run whose arguments cannot be read: its device was not touched. -/
def rejected (d : Device) (error : ConfigurationError) : Conclusion :=
  { device := d, report := .available, outcome := .failed error.message }

def conclude (d : Device) (ending : Ending) : Conclusion :=
  { device := d, report := ending.report d, outcome := ending.outcome d }

/-- The error that listeners are told of, if they are told of one. -/
def Conclusion.error? (c : Conclusion) (error : Option ConfigurationError) : Option String :=
  match error with
  | some error => some error.message
  | none => if c.outcome.isFailure then some c.outcome.text else none

def opening (listeners : List String) (command : Command) (d : Device) (c : Configuration) :
    List Notice :=
  listeners.map (.started · command d) ++ [.invoked c.name c.args d.serial]

def closing (listeners : List String) (args : List String) (error? : Option String)
    (c : Conclusion) : List Notice :=
  (error?.toList.flatMap fun error => listeners.map (.failed · args error)) ++
    listeners.map (.complete · c.device c.report)

def askedFor (r : Rescheduler) (requests : List FollowUp) : List Notice :=
  requests.map fun request => .rescheduled request.args r.accepts

/-- A run from start to end: when it ended, what was told when, the follow-up commands that were
taken, and how it was left. -/
structure Report where
  time : Nat
  journal : List JournalEntry := []
  requests : List FollowUp := []
  conclusion : Conclusion

def stamp (time : Nat) (notices : List Notice) : List JournalEntry :=
  notices.map fun notice => { time, notice }

/-- Play actions and the ending after them from an instant on. -/
def play (r : Rescheduler) (time : Nat) (d : Device) (ending : Ending) (actions : List Action) :
    Report :=
  let b := burst r d actions
  let told := stamp time (askedFor r b.requests)
  match _h : b.rest with
  | none =>
    { time, journal := told, requests := r.sent b.requests
      conclusion := conclude b.device ending }
  | some (pause, rest) =>
    let after := play r (time + pause) b.device ending rest
    { after with journal := told ++ after.journal, requests := r.sent b.requests ++ after.requests }
termination_by actions.length
decreasing_by exact burst_rest_length ‹_›

def execute (listeners : List String) (invocation : Configuration → Script) (r : Rescheduler)
    (command : Command) (d : Device) (time : Nat) : Report :=
  match Configuration.ofArgs command.args with
  | .error error =>
    let c := rejected d error
    { time
      journal := stamp time (closing listeners command.args (c.error? (some error)) c)
      conclusion := c }
  | .ok configuration =>
    let script := invocation configuration
    let run := play r time d script.ending script.actions
    { run with
      journal := stamp time (opening listeners command d configuration) ++ run.journal ++
        stamp run.time
          (closing listeners command.args (run.conclusion.error? none) run.conclusion) }

end Executor

end DeviceLab
