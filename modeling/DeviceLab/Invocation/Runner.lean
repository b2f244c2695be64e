import DeviceLab.Error
import DeviceLab.Invocation.Child
import DeviceLab.Invocation.Script
import DeviceLab.Text.Blank

/-!
Invocations that start a program on the host.

The program gets its own arguments and then those of the command, and finds the serial of its device
in a variable.  That tests fail is no error.  One exit code says that the device was lost; a program
that cannot be started at all makes the host unfit.
-/

namespace DeviceLab

open Text

/-- How commands are run: the program, arguments before those of the command, variables to set, the
time after which it is stopped (0 for never), and the exit code that reports a lost device. -/
structure Runner where
  program : String := "echo"
  args : List String := []
  environment : List (String × String) := []
  timeout : Nat := 0
  lostCode : Int := 75
  deriving Repr, DecidableEq, Inhabited

namespace Runner

def serialVariable : String := "DEVICE_SERIAL"

/-- Start the program for a configuration on the device of a serial. -/
def start (runner : Runner) (tree : FileTree) (c : Configuration) (serial : String) :
    Except StartFault Child :=
  Child.start tree runner.program (runner.args ++ c.args)
    ((serialVariable, serial) :: runner.environment)

def ending (runner : Runner) (child : Child) : Ending :=
  match child.code with
  | none => .ok
  | some code =>
    if code ≠ 0 ∧ Int.ofNat code = runner.lostCode then
      .lost (String.ofList (trim (decodeLossy child.errors).toList))
    else .ok

/-- Whether the program is stopped because it takes too long. -/
def isLate (runner : Runner) (child : Child) : Bool :=
  runner.timeout ≠ 0 && runner.timeout ≤ child.elapsed

/-- Take time, if it is any. -/
def taking (time : Nat) : List Action :=
  if time = 0 then [] else [.pause time]

/-- What an invocation does, and the files it leaves.  A lost device is marked as such. -/
def script (runner : Runner) (tree : FileTree) (c : Configuration) (d : Device) :
    Script × FileTree :=
  match runner.start tree c d.serial with
  | .error fault => ({ ending := .fatal s!"cannot start '{runner.program}': {fault.message}" }, tree)
  | .ok child =>
    if runner.isLate child then
      ({ actions := taking runner.timeout
         ending := .other s!"command timed out after {runner.timeout}ms" }, child.tree)
    else
      let ending := runner.ending child
      let marks : List Action := match ending with
        | .lost .. => [.edit (.connection .notAvailable)]
        | .ok | .fatal _ | .other _ | .panic _ => []
      ({ actions := taking child.elapsed ++ marks, ending }, child.tree)

end Runner

/-- The error that an ending is reported as, on the device of a serial. -/
def Ending.error? (serial : String) : Ending → Option InvocationError
  | .ok | .panic _ => none
  | .lost detail named => some (.deviceNotAvailable (named.getD serial) detail)
  | .fatal detail => some (.fatalHost detail)
  | .other detail => some (.other detail)

def Script.deviceAfter (script : Script) (d : Device) : Device :=
  script.actions.foldl (fun d action => match action with
    | .edit change => d.edit change
    | .pause _ | .reschedule .. => d) d

end DeviceLab
