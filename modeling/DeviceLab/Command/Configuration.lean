import DeviceLab.Command.Grammar
import DeviceLab.Command.Options
import DeviceLab.Device.Selection
import DeviceLab.Error
import DeviceLab.Text.Line
import DeviceLab.Text.Terminal

namespace DeviceLab

open Text

/-- The tests that a command is about.  The hint is in milliseconds. -/
structure TestTarget where
  classes : List String := []
  method : Option String := none
  includeFilters : List String := []
  excludeFilters : List String := []
  shardUnit : ShardUnit := .byClass
  runtimeHint : Nat := 0
  deriving Repr, DecidableEq, Inhabited

/-- What an argument list asks for, and that list. -/
structure Configuration where
  name : String
  args : List String := []
  options : CommandOptions := {}
  requirements : Selection := {}
  target : TestTarget := {}
  passthrough : List String := []
  deriving DecidableEq, Inhabited

namespace Configuration

/-- Whether two configurations ask for the same, whatever their argument lists. -/
def agrees (a b : Configuration) : Bool :=
  { a with args := [] } == { b with args := [] }

def fault? (c : Configuration) : Option ConfigurationError :=
  if c.options.shardCount = some 0 then some (.invalidValue Param.shardCount.flag "0")
  else match c.target.method with
    | some method =>
      if c.target.classes.isEmpty then some (.invalidValue Param.method.flag method) else none
    | none => none

/-- What is shown of a fault: the first line of its wording. -/
def detail (fault : ArgumentFault) : String :=
  String.ofList (firstLine (shown fault.message.toList))

/-- The number under a parameter, where its values are known to be numbers. -/
def number? (read : String → Except String Nat) (r : Reading) (p : Param) : Option Nat :=
  (r.valuesOf p).getLast?.bind fun value => (read value).toOption

def ofReading (name : String) (args : List String) (r : Reading) : Configuration where
  name
  args
  options := {
    loop := Switch.loop ∈ r.switches
    minLoopTime := (number? readMillis r .minLoopTime).getD 0
    maxRunCount := number? readCount r .maxRunCount
    dryRun := Switch.dryRun ∈ r.switches
    help := Switch.help ∈ r.switches
    shardCount := number? readCount r .shardCount }
  requirements := {
    serials := .ofList (r.valuesOf .serial)
    excludedSerials := .ofList (r.valuesOf .excludeSerial)
    productTypes := .ofList (r.valuesOf .productType)
    productDeviceTypes := .ofList (r.valuesOf .productDeviceType)
    properties := .ofList ((r.valuesOf .property).filterMap fun v => (readProperty v).toOption)
    emulator := Switch.emulator ∈ r.switches
    nullDevice := Switch.nullDevice ∈ r.switches }
  target := {
    classes := r.valuesOf .testClass
    method := (r.valuesOf .method).getLast?
    includeFilters := r.valuesOf .includeFilter
    excludeFilters := r.valuesOf .excludeFilter
    shardUnit := ((r.valuesOf .shardUnit).getLast?.bind ShardUnit.ofLabel?).getD .byClass
    runtimeHint := (number? readMillis r .runtimeHint).getD 0 }
  passthrough := r.passthrough

/-- The configuration of an argument list.  Only a request for help may come without a name. -/
def ofArgs (args : List String) : Except ConfigurationError Configuration :=
  match Reading.ofArgs args with
  | .error fault => .error (.invalidArguments (detail fault))
  | .ok r =>
    let named : Option String :=
      match r.name with
      | some name => some name
      | none => if Switch.help ∈ r.switches then some "" else none
    match named with
    | none => .error .missingName
    | some name =>
      let c := ofReading name args r
      match c.fault? with
      | some error => .error error
      | none => .ok c

/-- A switch as arguments, if it is on. -/
def switchArgs (s : Switch) (on : Bool) : List String :=
  if on then [s.flag] else []

def paramArgs (p : Param) (values : List String) : List String :=
  values.flatMap fun value => [p.flag, value]

/-- The values under which a number is written: none for one that is not given. -/
def numberValues (n? : Option Nat) : List String :=
  n?.toList.map toString

def nonzero? (n : Nat) : Option Nat :=
  if n = 0 then none else some n

def toArgs (c : Configuration) : List String :=
  c.name :: (
    switchArgs .loop c.options.loop ++
    paramArgs .minLoopTime (numberValues (nonzero? c.options.minLoopTime)) ++
    paramArgs .maxRunCount (numberValues c.options.maxRunCount) ++
    switchArgs .dryRun c.options.dryRun ++
    switchArgs .help c.options.help ++
    paramArgs .serial c.requirements.serials.toList ++
    paramArgs .excludeSerial c.requirements.excludedSerials.toList ++
    paramArgs .productType c.requirements.productTypes.toList ++
    paramArgs .productDeviceType c.requirements.productDeviceTypes.toList ++
    paramArgs .property (c.requirements.properties.entries.map fun e => e.1 ++ "=" ++ e.2) ++
    switchArgs .emulator c.requirements.emulator ++
    switchArgs .nullDevice c.requirements.nullDevice ++
    paramArgs .testClass c.target.classes ++
    paramArgs .method c.target.method.toList ++
    paramArgs .includeFilter c.target.includeFilters ++
    paramArgs .excludeFilter c.target.excludeFilters ++
    paramArgs .shardUnit
      (if c.target.shardUnit = .byClass then [] else [c.target.shardUnit.label]) ++
    paramArgs .runtimeHint (numberValues (nonzero? c.target.runtimeHint)) ++
    paramArgs .shardCount (numberValues c.options.shardCount) ++
    (if c.passthrough.isEmpty then [] else "--" :: c.passthrough))

end Configuration

end DeviceLab
