import DeviceLab.Command.Configuration

namespace DeviceLab

open Text

namespace Usage

/-- Entries of a usage text, their descriptions in one column. -/
def entries (indent : String) (items : List (String × String)) : String :=
  let width := items.foldl (fun width item => max width item.1.length) 0
  String.join (items.map fun item => indent ++ padRight (width + 2) item.1 ++ item.2 ++ "\n")

end Usage

/-- An option in a usage text. -/
inductive UsageOption
  | switch (s : Switch)
  | param (p : Param)
  deriving Repr, DecidableEq

namespace UsageOption

def usage : UsageOption → String
  | .switch s => s.flag
  | .param p => p.usage

def description : UsageOption → String
  | .switch .loop => "Re-queue the command after every run"
  | .param .minLoopTime => "Minimum milliseconds between loop iteration starts [default: 0]"
  | .param .maxRunCount => "Stop looping after this many runs"
  | .switch .dryRun => "Validate and print the command without running it"
  | .switch .help => "Print usage for the configuration"
  | .param .serial => "Run only on a device with this serial"
  | .param .excludeSerial => "Never run on a device with this serial"
  | .param .productType => "Acceptable product type (board name)"
  | .param .productDeviceType => "Acceptable product device name"
  | .param .property => "Required device property, as KEY=VALUE"
  | .switch .emulator => "Run on an emulator"
  | .switch .nullDevice => "Run on a host-only null device"
  | .param .testClass => "Test class to run"
  | .param .method => "Single test method to run"
  | .param .includeFilter => "Keep only tests matching CLASS or CLASS#METHOD"
  | .param .excludeFilter => "Drop tests matching CLASS or CLASS#METHOD"
  | .param .shardUnit => "Shard granularity [default: class] [possible values: class, method]"
  | .param .runtimeHint => "Expected total runtime in milliseconds [default: 0]"
  | .param .shardCount => "Split into this many shards on submission"

def all : List UsageOption :=
  [.switch .loop, .param .minLoopTime, .param .maxRunCount, .switch .dryRun, .switch .help,
    .param .serial, .param .excludeSerial, .param .productType, .param .productDeviceType,
    .param .property, .switch .emulator, .switch .nullDevice, .param .testClass, .param .method,
    .param .includeFilter, .param .excludeFilter, .param .shardUnit, .param .runtimeHint,
    .param .shardCount]

end UsageOption

namespace Usage

def text : String :=
  "Argument grammar understood by [\x60ArgsConfigurationFactory\x60]\n\n" ++
  "Usage: command [OPTIONS] [CONFIG_NAME] [-- <PASSTHROUGH>...]\n\n" ++
  "Arguments:\n" ++
  entries "  " [("[CONFIG_NAME]", "Name of the configuration to run"),
    ("[PASSTHROUGH]...", "Arguments passed through to the invocation")] ++
  "\nOptions:\n" ++
  entries "      " (UsageOption.all.map fun option => (option.usage, option.description))

/-- What is printed for a request for help with these arguments. -/
def ofArgs (args : List String) : String :=
  let heading := match args with
    | [] => ""
    | name :: _ =>
      if name.toList.head? = some '-' then "" else s!"Usage for configuration '{name}':\n"
  heading ++ text ++ "\n"

def dryRun (c : Configuration) : String :=
  s!"Dry run: {spaced c.toArgs}\n"

end Usage

end DeviceLab
