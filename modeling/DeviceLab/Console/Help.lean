import DeviceLab.Command.Usage
import DeviceLab.Console.Grammar

namespace DeviceLab.Console

def programName : String := "cmdsched"

def version : String := "0.1.0"

def purpose : String := "Schedules test commands onto a pool of single-tenant devices"

def helpPurpose : String := "Print this message or the help of the given subcommand(s)"

def Action.purpose : Action → String
  | .run => "Run commands on the configured devices until the queue drains"
  | .listDevices => "List the configured devices"
  | .split => "Show how a command would be split into shards"
  | .checkFile => "Parse a command file and print the expanded commands"

def Action.usage : Action → String
  | .run => "[OPTIONS] [-- <ARGS>...]"
  | .listDevices => "[OPTIONS]"
  | .split => "[OPTIONS] --shards <SHARDS> -- <ARGS>..."
  | .checkFile => "[OPTIONS] <PATH>"

def Action.operands : Action → List (String × String)
  | .run => [("[ARGS]...", "Command to run, after \x60--\x60")]
  | .listDevices => []
  | .split => [("<ARGS>...", "Command to split, after \x60--\x60")]
  | .checkFile => [("<PATH>", "Command file path")]

def Key.purpose : Key → String
  | .config => "Optional config file path"
  | .verbose => "Verbose output"
  | .logStderr => "Log to stderr instead of the log file"
  | .help => "Print help"
  | .version => "Print version"
  | .commandFile => "Command file to load (repeatable)"
  | .reload => "Reload command files when they change"
  | .extraArg => "Extra arguments appended to every command file line"
  | .json => "Print JSON"
  | .shards => "Desired number of shards"

def Key.usage (key : Key) : String :=
  let letter := match key.short? with
    | some c => String.ofList ['-', c, ',', ' ']
    | none => "    "
  let value := match key.placeholder? with
    | some word => " <" ++ word ++ ">"
    | none => ""
  letter ++ "--" ++ key.long ++ value

def optionList (level : Option Action) : String :=
  "\nOptions:\n" ++
    Usage.entries "  " ((Key.ofLevel level).map fun key => (key.usage, key.purpose))

def operandList (operands : List (String × String)) : String :=
  if operands.isEmpty then "" else "\nArguments:\n" ++ Usage.entries "  " operands

def helpText : Option Action → String
  | none =>
    s!"{purpose}\n\nUsage: {programName} [OPTIONS] <COMMAND>\n\nCommands:\n" ++
      Usage.entries "  " (Action.all.map (fun a => (a.name, a.purpose)) ++ [("help", helpPurpose)]) ++
      optionList none
  | some a =>
    s!"{a.purpose}\n\nUsage: {programName} {a.name} {a.usage}\n" ++ operandList a.operands ++
      optionList (some a)

def helpOnHelpText : String :=
  s!"{helpPurpose}\n\nUsage: {programName} help [COMMAND]...\n" ++
    operandList [("[COMMAND]...", "Print help for the subcommand(s)")]

end DeviceLab.Console
