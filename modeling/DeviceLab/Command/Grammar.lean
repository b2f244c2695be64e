import DeviceLab.Text.Column
import DeviceLab.Text.Numeral
import DeviceLab.Text.Terminal

/-!
The grammar of a command's arguments.

A command is a name, switches (`--loop`), parameters with a value (`--serial S` or `--serial=S`)
and, after `--`, arguments that are passed through.  A value in an argument of its own may not begin
with a dash unless the dash is all of it.  Switches and most parameters may be given only once.

Arguments are read from left to right.  A parameter is settled, and its value checked, only when
the next argument that needs a settled state is read; so of two faults the one that is met first
while reading wins, which need not be the one written first.
-/

namespace DeviceLab

open Text

/-- A switch: an option without a value. -/
inductive Switch
  | loop
  | dryRun
  | help
  | emulator
  | nullDevice
  deriving Repr, DecidableEq

namespace Switch

def all : List Switch := [.loop, .dryRun, .help, .emulator, .nullDevice]

def name : Switch → String
  | .loop => "loop"
  | .dryRun => "dry-run"
  | .help => "help"
  | .emulator => "emulator"
  | .nullDevice => "null-device"

def flag (s : Switch) : String := "--" ++ s.name

def ofName? (name : String) : Option Switch :=
  all.find? (·.name == name)

@[simp] theorem ofName?_name (s : Switch) : ofName? s.name = some s := by
  cases s <;> decide

end Switch

/-- A parameter: an option with a value. -/
inductive Param
  | minLoopTime
  | maxRunCount
  | serial
  | excludeSerial
  | productType
  | productDeviceType
  | property
  | testClass
  | method
  | includeFilter
  | excludeFilter
  | shardUnit
  | runtimeHint
  | shardCount
  deriving Repr, DecidableEq

namespace Param

def all : List Param :=
  [.minLoopTime, .maxRunCount, .serial, .excludeSerial, .productType, .productDeviceType, .property,
    .testClass, .method, .includeFilter, .excludeFilter, .shardUnit, .runtimeHint, .shardCount]

def name : Param → String
  | .minLoopTime => "min-loop-time"
  | .maxRunCount => "max-run-count"
  | .serial => "serial"
  | .excludeSerial => "exclude-serial"
  | .productType => "product-type"
  | .productDeviceType => "product-device-type"
  | .property => "property"
  | .testClass => "class"
  | .method => "method"
  | .includeFilter => "include-filter"
  | .excludeFilter => "exclude-filter"
  | .shardUnit => "shard-unit"
  | .runtimeHint => "runtime-hint"
  | .shardCount => "shard-count"

def placeholder : Param → String
  | .minLoopTime | .runtimeHint => "MS"
  | .maxRunCount | .shardCount => "N"
  | .serial | .excludeSerial => "SERIAL"
  | .productType | .productDeviceType => "TYPE"
  | .property => "KEY=VALUE"
  | .testClass => "CLASS"
  | .method => "METHOD"
  | .includeFilter | .excludeFilter => "FILTER"
  | .shardUnit => "SHARD_UNIT"

def flag (p : Param) : String := "--" ++ p.name

def usage (p : Param) : String := s!"{p.flag} <{p.placeholder}>"

def isRepeatable : Param → Bool
  | .serial | .excludeSerial | .productType | .productDeviceType | .property | .testClass
  | .includeFilter | .excludeFilter => true
  | .minLoopTime | .maxRunCount | .method | .shardUnit | .runtimeHint | .shardCount => false

def ofName? (name : String) : Option Param :=
  all.find? (·.name == name)

@[simp] theorem ofName?_name (p : Param) : ofName? p.name = some p := by
  cases p <;> decide

end Param

/-- Why an argument list does not follow the grammar. -/
inductive ArgumentFault
  | unexpectedArgument (shown : String)
  | unexpectedValue (value : String) (s : Switch)
  | repeatedSwitch (s : Switch)
  | repeatedParam (p : Param)
  | missingValue (p : Param)
  | invalidValue (value : String) (p : Param) (reason : Option String)
  deriving Repr, DecidableEq

/-- The wording of a fault.  Arguments and values stand in a style of their own; a reason does
not. -/
def ArgumentFault.message : ArgumentFault → String
  | .unexpectedArgument shown => s!"unexpected argument '{styled shown}' found"
  | .unexpectedValue value s =>
    s!"unexpected value '{styled value}' for '{s.flag}' found; no more were expected"
  | .repeatedSwitch s => s!"the argument '{s.flag}' cannot be used multiple times"
  | .repeatedParam p => s!"the argument '{p.usage}' cannot be used multiple times"
  | .missingValue p => s!"a value is required for '{p.usage}' but none was supplied"
  | .invalidValue value p none => s!"invalid value '{styled value}' for '{p.usage}'"
  | .invalidValue value p (some reason) =>
    s!"invalid value '{styled value}' for '{p.usage}': {reason}"

def maxMillis : Nat := maxNatural64

def maxCount : Nat := maxNatural32

def readMillis (value : String) : Except String Nat :=
  match readNatural maxMillis value.toList with
  | .ok n => .ok n
  | .error fault => .error fault.message

def readCount (value : String) : Except String Nat :=
  match readInteger maxInteger64 value.toList with
  | .ok n =>
    if 0 ≤ n ∧ n ≤ maxCount then .ok n.toNat else .error s!"{n} is not in 0..={maxCount}"
  | .error fault => .error fault.message

/-- The text before and after the first equals sign, given what stands before in reverse. -/
def splitEquals (before : List Char) : List Char → Option (String × String)
  | [] => none
  | '=' :: after => some (String.ofList before.reverse, String.ofList after)
  | c :: cs => splitEquals (c :: before) cs

/-- The key and value that `KEY=VALUE` stands for. -/
def readProperty (value : String) : Except String (String × String) :=
  match splitEquals [] value.toList with
  | some entry => .ok entry
  | none => .error s!"expected KEY=VALUE, got '{value}'"

def Param.fault? (p : Param) (value : String) : Option ArgumentFault :=
  let reason {α : Type} : Except String α → Option ArgumentFault
    | .ok _ => none
    | .error reason => some (.invalidValue value p (some reason))
  match p with
  | .minLoopTime | .runtimeHint => reason (readMillis value)
  | .maxRunCount | .shardCount => reason (readCount value)
  | .property => reason (readProperty value)
  | .shardUnit =>
    if value = "class" ∨ value = "method" then none
    else if value = "" then some (.missingValue p)
    else some (.invalidValue value p none)
  | .serial | .excludeSerial | .productType | .productDeviceType | .testClass | .method
  | .includeFilter | .excludeFilter => none

/-- What has been read of an argument list. -/
structure Reading where
  name : Option String := none
  switches : List Switch := []
  values : List (Param × String) := []
  passthrough : List String := []
  deriving Repr, DecidableEq

namespace Reading

def give (r : Reading) (p : Param) (value : String) : Except ArgumentFault Reading :=
  if !p.isRepeatable && r.values.any (·.1 == p) then .error (.repeatedParam p)
  else match p.fault? value with
    | some fault => .error fault
    | none => .ok { r with values := r.values ++ [(p, value)] }

def turnOn (r : Reading) (s : Switch) : Except ArgumentFault Reading :=
  if s ∈ r.switches then .error (.repeatedSwitch s)
  else .ok { r with switches := r.switches ++ [s] }

/-- The values of a parameter, in the order given. -/
def valuesOf (r : Reading) (p : Param) : List String :=
  r.values.filterMap fun e => if e.1 = p then some e.2 else none

end Reading

/-- A parameter that has been named but not settled, with its value once that has been read. -/
structure Pending where
  param : Param
  value : Option String := none
  deriving Repr, DecidableEq

def Reading.settle (r : Reading) : Option Pending → Except ArgumentFault Reading
  | none => .ok r
  | some ⟨p, none⟩ => .error (.missingValue p)
  | some ⟨p, some value⟩ => r.give p value

/-- The forms an argument can have. -/
inductive ArgumentForm
  | divider
  | long (name : String) (value : Option String)
  | short (first : Char)
  | plain
  deriving Repr, DecidableEq

def ArgumentForm.of (arg : String) : ArgumentForm :=
  match arg.toList with
  | ['-', '-'] => .divider
  | '-' :: '-' :: rest =>
    match splitEquals [] rest with
    | some (name, value) => .long name (some value)
    | none => .long (String.ofList rest) none
  | '-' :: c :: _ => .short c
  | _ => .plain

def Reading.scan (r : Reading) (pending : Option Pending) :
    List String → Except ArgumentFault Reading
  | [] => r.settle pending
  | arg :: rest =>
    match ArgumentForm.of arg with
    | .divider => do
      let r ← r.settle pending
      return { r with passthrough := rest }
    | .short c => .error (.unexpectedArgument (String.ofList ['-', c]))
    | .long name value? =>
      match Switch.ofName? name, Param.ofName? name, value? with
      | some s, _, some value => .error (.unexpectedValue value s)
      | some s, _, none => do
        let r ← r.settle pending
        let r ← r.turnOn s
        r.scan none rest
      | none, some p, some value => do
        let r ← r.settle pending
        let r ← r.give p value
        r.scan none rest
      | none, some p, none => do
        let r ← r.settle pending
        r.scan (some { param := p }) rest
      | none, none, _ => .error (.unexpectedArgument ("--" ++ name))
    | .plain =>
      match pending, r.name with
      | some ⟨p, none⟩, _ => r.scan (some ⟨p, some arg⟩) rest
      | _, some _ => .error (.unexpectedArgument arg)
      | pending, none => do
        let r ← r.settle pending
        { r with name := some arg }.scan none rest

def Reading.ofArgs (args : List String) : Except ArgumentFault Reading :=
  Reading.scan {} none args

end DeviceLab
