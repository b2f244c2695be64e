import DeviceLab.Settings
import DeviceLab.Text.Json.Reader

namespace DeviceLab.Settings

open Text

def text? : Json → Option String
  | .string text => some text
  | .number digits => some digits
  | .bool value => some (if value then "true" else "false")
  | .null => some "null"
  | .array _ | .object _ => none

/-- A natural number of at most `max`. -/
def natural? (max : Nat) : Json → Option Nat
  | .number digits => (readNatural max digits.toList).toOption
  | _ => none

/-- An integer between `-(max + 1)` and `max`. -/
def integer? (max : Nat) : Json → Option Int
  | .number digits => (readInteger max digits.toList).toOption
  | _ => none

def flag? : Json → Option Bool
  | .bool value => some value
  | _ => none

/-- Something that may be absent, or `null` for nothing. -/
def nullable? {α : Type} (read : Json → Option α) : Json → Option (Option α)
  | .null => some none
  | json => (read json).map some

def list? {α : Type} (read : Json → Option α) : Json → Option (List α)
  | .array items => items.mapM read
  | _ => none

/-- Values under names; of two values under one name the later counts. -/
def dictionary? {α : Type} (read : Json → Option α) : Json → Option (Dictionary α)
  | .object members => do
    let entries ← members.mapM fun (key, value) => (read value).map fun value => (key, value)
    return .ofList entries
  | _ => none

def pair? : Json → Option (String × String)
  | .array [a, b] => do return (← text? a, ← text? b)
  | _ => none

def kind? (json : Json) : Option DeviceKind :=
  (text? json).bind DeviceKind.ofLabel?

/-- The fields of an object that has fields of these names.  No field may be given twice. -/
def fields? (names : List String) : Json → Option (List (String × Json))
  | .object members =>
    let known := members.filter fun member => names.contains member.1
    if (known.map (·.1)).Nodup then some known else none
  | _ => none

/-- The value of a field, or a default where it is left out. -/
def field? {α : Type} (fields : List (String × Json)) (name : String) (read : Json → Option α)
    (default : α) : Option α :=
  match fields.lookup name with
  | some json => read json
  | none => some default

/-- The largest number that counts and times may be given as. -/
def maxNumber : Nat := maxNatural64

def device? (json : Json) : Option Device := do
  let fields ← fields? ["serial", "kind", "emulator", "properties"] json
  let serial ← (fields.lookup "serial").bind text?
  let kind ← field? fields "kind" kind? .real
  let emulator ← field? fields "emulator" flag? false
  let properties ← field? fields "properties" (dictionary? text?) ∅
  return { serial, kind, emulator, properties }

/-- The settings of the scheduler, and the interval between two checks of command files. -/
def scheduler? (json : Json) : Option (SchedulerSettings × Nat) := do
  let fields ← fields? ["poll_interval_ms", "command_file_reload", "reload_poll_interval_ms",
    "default_min_loop_time_ms", "max_concurrent_invocations"] json
  let pollInterval ← field? fields "poll_interval_ms" (natural? maxNumber) 100
  let reload ← field? fields "command_file_reload" flag? false
  let reloadInterval ← field? fields "reload_poll_interval_ms" (natural? maxNumber) 5000
  let defaultMinLoopTime ← field? fields "default_min_loop_time_ms" (natural? maxNumber) 0
  let maxConcurrent ← field? fields "max_concurrent_invocations"
    (nullable? (natural? maxNumber)) none
  return ({ pollInterval, reload, defaultMinLoopTime, maxConcurrent }, reloadInterval)

def runner? (json : Json) : Option Runner := do
  let fields ← fields? ["program", "args", "env", "timeout_ms", "device_lost_exit_code"] json
  let program ← field? fields "program" text? "echo"
  let args ← field? fields "args" (list? text?) []
  let environment ← field? fields "env" (list? pair?) []
  let timeout ← field? fields "timeout_ms" (natural? maxNumber) 0
  let lostCode ← field? fields "device_lost_exit_code" (integer? maxInteger32) 75
  return { program, args, environment, timeout, lostCode }

def ofJson? (json : Json) : Option Settings := do
  let fields ← fields? ["log_level", "scheduler", "devices", "null_devices", "invocation",
    "test_catalog"] json
  let logLevel ← field? fields "log_level" (nullable? text?) (some "info")
  let (scheduler, reloadInterval) ← field? fields "scheduler" scheduler? ({}, 5000)
  let devices ← field? fields "devices" (list? device?) []
  let nullDevices ← field? fields "null_devices" (natural? maxNumber) 0
  let runner ← field? fields "invocation" runner? {}
  let catalog ← field? fields "test_catalog" (dictionary? (list? text?)) ∅
  return { logLevel, scheduler, reloadInterval, devices, nullDevices, runner, catalog }

/-- Whether a character may stand in a settings file as it is. -/
def isPrintable (c : Char) : Bool :=
  let n := c.toNat
  n == 0x09 || n == 0x0A || n == 0x0D || (0x20 ≤ n && n ≤ 0x7E) || n == 0x85 ||
    (0xA0 ≤ n && n ≤ 0xFFFD) || 0x10000 ≤ n

def ofText? (text : String) : Option Settings :=
  if text.toList.all isPrintable then
    match Json.ofDocument? text with
    | some (some json) => ofJson? json
    | some none => some {}
    | none => none
  else none

def ofFile? (tree : FileTree) (path : Path) : Option Settings :=
  match tree.readText path with
  | .ok text => ofText? text
  | .error _ => none

/-- The settings in the first of some files that can be used, else those that hold without any. -/
def ofFirst (tree : FileTree) (paths : List Path) : Settings :=
  (paths.findSome? (ofFile? tree)).getD {}

end DeviceLab.Settings
