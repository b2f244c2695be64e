import DeviceLab.Error
import DeviceLab.FileTree

namespace DeviceLab.CommandFile

/-- What is wrong with a line. -/
inductive LineFault
  | unterminatedQuote
  | shortMacroForm
  | longMacroForm
  | unclosedLongMacro
  | includeForm
  | unknownMacro (call : String)
  | expansionTooDeep
  deriving Repr, DecidableEq

def LineFault.message : LineFault → String
  | .unterminatedQuote => "unterminated quote"
  | .shortMacroForm => "expected 'MACRO <name> = <args>'"
  | .longMacroForm => "expected 'LONG MACRO <name>'"
  | .unclosedLongMacro => "LONG MACRO without END MACRO"
  | .includeForm => "expected 'INCLUDE <path>'"
  | .unknownMacro call => s!"macro call '{call}' does not match any macro definition"
  | .expansionTooDeep => "macro expansion too deep; recursive macro?"

/-- What is wrong with a command file. -/
inductive Fault
  | includeCycle
  | includesTooDeep
  | unreadable (error : FileError)
  | atLine (number : Nat) (fault : LineFault)
  deriving Repr, DecidableEq

def Fault.message : Fault → String
  | .includeCycle => "include cycle detected"
  | .includesTooDeep => "includes nested too deeply"
  | .unreadable error => s!"cannot read: {error.message}"
  | .atLine number fault => s!"line {number}: {fault.message}"

/-- A fault and the file it was found in. -/
structure Failure where
  path : Path
  fault : Fault
  deriving Repr, DecidableEq

/-- The scheduler's error for a command file that cannot be used. -/
def Failure.toError (failure : Failure) : SchedulerError :=
  .commandFile failure.path failure.fault.message

end DeviceLab.CommandFile
