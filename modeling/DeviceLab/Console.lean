import DeviceLab.Console.Help
import DeviceLab.Console.Session
import DeviceLab.Settings.Reader
import DeviceLab.Text.Json

/-!
The program as it is called from the command line.

The answer to a command line is an exit code and what is written to the standard output.  The code
is 2 for a command line that cannot be read and 1 for a request that cannot be met.
-/

namespace DeviceLab.Console

open Text

/-- The answer to a command line. -/
structure Reply where
  code : Nat := 0
  output : String := ""
  deriving Repr, DecidableEq, Inhabited

def Halt.reply : Halt → Reply
  | .fault => { code := 2 }
  | .help action => { output := helpText action }
  | .helpOnHelp => { output := helpOnHelpText }
  | .version => { output := s!"{programName} {Console.version}\n" }

/-- A device as JSON, its fields in the order of their names. -/
def deviceJson (d : Device) : Json :=
  .object [("emulator", .bool d.emulator), ("kind", .string d.kind.label),
    ("properties", .object (d.properties.entries.map fun (key, value) => (key, .string value))),
    ("recovery_mode", .string d.recovery.label), ("serial", .string d.serial),
    ("state", .string d.connection.label)]

def deviceLine (d : Device) (state : SlotState) : String :=
  padRight 24 d.serial ++ " " ++ padRight 6 d.kind.label ++ " " ++ state.label ++
    (if d.emulator then " emulator" else "") ++
    (match d.productType? with
      | some product => " product=" ++ product
      | none => "") ++ "\n"

def stateWord : SlotState → String
  | .free => "Free"
  | .allocated => "Allocated"
  | .unavailable => "Unavailable"

def deviceListing (pool : Pool) (json : Bool) : String :=
  if json then
    Json.pretty 0 (.array (pool.slots.map fun slot =>
      .object [("device", (slot.device.map deviceJson).getD .null),
        ("serial", .string slot.serial), ("state", .string (stateWord slot.state))])) ++ "\n"
  else if pool.slots.isEmpty then "No devices configured\n"
  else String.join (pool.slots.filterMap fun slot =>
    slot.device.map fun d => deviceLine d slot.state)

def shardListing (shards? : Option (List Command)) (json : Bool) : String :=
  match shards?, json with
  | none, true => "null\n"
  | none, false => "Command is not shardable\n"
  | some shards, true =>
    Json.pretty 0 (.array (shards.map fun shard => Json.texts shard.args)) ++ "\n"
  | some shards, false =>
    String.join (shards.mapIdx fun index shard => s!"[{index}] {shard.commandLine}\n")

def documentListing (document : CommandFile.Document) (json : Bool) : String :=
  if json then
    Json.pretty 0 (.array (document.entries.map fun e =>
      .object [("args", Json.texts e.args), ("file", .string e.path.text),
        ("line", Json.natural e.number)])) ++ "\n"
  else
    String.join (document.entries.map fun e =>
      s!"{e.path.text}:{e.number}: {spaced e.args}\n") ++
    String.join (document.included.map fun path => s!"included {path.text}\n") ++
    s!"OK: {document.entries.length} commands\n"

/-- Do a job.  What it has written before it fails is kept. -/
def Job.perform (settings : Settings) (tree : FileTree) (verbose : Bool) : Job → Reply
  | .run files reload extraArgs args =>
    let (done, output) := Session.run settings tree verbose files reload extraArgs args
    { code := if done then 0 else 1, output }
  | .listDevices json => { output := deviceListing settings.buildPool json }
  | .split count json args =>
    match Command.split { id := 1, args } settings.catalog count 2 with
    | .error _ => { code := 1 }
    | .ok shards => { output := shardListing shards json }
  | .checkFile path json =>
    match CommandFile.Document.ofFile tree path with
    | .error _ => { code := 1 }
    | .ok document => { output := documentListing document json }

/-- Where settings are looked for unless a file is given: in the home directory, then in the working
directory. -/
def settingsPaths (home : Path) : List Path :=
  [home.join ⟨s!".config/{programName}/{programName}.yml"⟩, ⟨s!"{programName}.yml"⟩]

/-- The settings that a request is met with; `none` where the given file cannot be used. -/
def Request.settings? (request : Request) (tree : FileTree) (home : Path) : Option Settings :=
  match request.config with
  | some path => Settings.ofFile? tree path
  | none => some (Settings.ofFirst tree (settingsPaths home))

/-- The answer to a command line, given the files and the home directory. -/
def answer (tree : FileTree) (home : Path) (args : List String) : Reply :=
  match Request.ofArgs args with
  | .error halt => halt.reply
  | .ok request =>
    match request.settings? tree home with
    | none => { code := 1 }
    | some settings =>
      let reply := request.job.perform settings tree request.verbose
      { reply with
        output := (if request.verbose then "Verbose mode enabled\n" else "") ++ reply.output }

end DeviceLab.Console
