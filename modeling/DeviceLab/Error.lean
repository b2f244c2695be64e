import DeviceLab.Path

namespace DeviceLab

theorem bind_eq_ok_iff {ε α β : Type} {x : Except ε α} {f : α → Except ε β} {b : β} :
    x >>= f = .ok b ↔ ∃ a, x = .ok a ∧ f a = .ok b := by
  cases x <;> simp [bind, Except.bind]

/-- Why an argument list is no command. -/
inductive ConfigurationError
  | invalidArguments (detail : String)
  | missingName
  | invalidValue (option value : String)
  deriving Repr, DecidableEq

def ConfigurationError.message : ConfigurationError → String
  | .invalidArguments detail => s!"Invalid arguments: {detail}"
  | .missingName => "Missing configuration name"
  | .invalidValue option value => s!"Invalid value '{value}' for option {option}"

/-- What a run reports instead of coming to its end. -/
inductive InvocationError
  | deviceNotAvailable (serial detail : String)
  | fatalHost (detail : String)
  | other (detail : String)
  deriving Repr, DecidableEq

def InvocationError.message : InvocationError → String
  | .deviceNotAvailable serial detail => s!"Device {serial} not available: {detail}"
  | .fatalHost detail => s!"Fatal host error: {detail}"
  | .other detail => s!"Invocation error: {detail}"

/-- Why the scheduler refuses an operation. -/
inductive SchedulerError
  | configuration (error : ConfigurationError)
  | commandFile (path : Path) (detail : String)
  | shutdown
  | io (detail : String)
  deriving Repr, DecidableEq

def SchedulerError.message : SchedulerError → String
  | .configuration error => s!"Configuration error: {error.message}"
  | .commandFile path detail => s!"Command file {path.text}: {detail}"
  | .shutdown => "Scheduler is shutting down"
  | .io detail => s!"IO error: {detail}"

end DeviceLab
