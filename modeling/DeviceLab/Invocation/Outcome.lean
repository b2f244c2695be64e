import DeviceLab.Device.Pool

namespace DeviceLab

/-- The result of a run as the scheduler sees it. -/
inductive Outcome
  | completed
  | deviceLost (serial detail : String)
  | fatalError (detail : String)
  | failed (detail : String)
  deriving Repr, DecidableEq, Inhabited

namespace Outcome

def isFatal : Outcome → Bool
  | .fatalError _ => true
  | .completed | .deviceLost .. | .failed _ => false

def text : Outcome → String
  | .completed => "completed"
  | .deviceLost serial _ => s!"device {serial} lost"
  | .fatalError detail => s!"fatal: {detail}"
  | .failed detail => s!"failed: {detail}"

/-- Whether listeners are told that the command failed.  A fatal error goes elsewhere. -/
def isFailure : Outcome → Bool
  | .deviceLost .. | .failed _ => true
  | .completed | .fatalError _ => false

end Outcome

/-- How an invocation ends: it comes to its end, reports an error, or panics with or without a
text.  An error that reports a lost device names a serial; `none` is that of the device that the
invocation runs on. -/
inductive Ending
  | ok
  | lost (detail : String) (serial : Option String := none)
  | fatal (detail : String)
  | other (detail : String)
  | panic (text : Option String)
  deriving Repr, DecidableEq, Inhabited

/-- What an ending says about the device as the invocation left it. -/
def Ending.report (d : Device) : Ending → ReturnReport
  | .ok =>
    match d.connection with
    | .online => .available
    | .notAvailable => .unavailable
  | .lost .. => .unavailable
  | .fatal _ | .other _ | .panic _ => .unknown

def Ending.outcome (d : Device) : Ending → Outcome
  | .ok => .completed
  | .lost detail serial => .deviceLost (serial.getD d.serial) detail
  | .fatal detail => .fatalError detail
  | .other detail => .failed detail
  | .panic text => .failed ("invocation panicked: " ++ text.getD "unknown panic")

end DeviceLab
