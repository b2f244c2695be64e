import DeviceLab.Command.Grammar
import DeviceLab.Path

namespace DeviceLab.Console

open Text

/-- What can be asked for. -/
inductive Action
  | run
  | listDevices
  | split
  | checkFile
  deriving Repr, DecidableEq, Inhabited

namespace Action

def all : List Action := [.run, .listDevices, .split, .checkFile]

def name : Action → String
  | .run => "run"
  | .listDevices => "list-devices"
  | .split => "split"
  | .checkFile => "check-file"

def ofName? (name : String) : Option Action :=
  all.find? (·.name == name)

@[simp] theorem ofName?_name (a : Action) : ofName? a.name = some a := by
  cases a <;> decide

end Action

/-- An option of the command line. -/
inductive Key
  | config
  | verbose
  | logStderr
  | help
  | version
  | commandFile
  | reload
  | extraArg
  | json
  | shards
  deriving Repr, DecidableEq, Inhabited

namespace Key

def long : Key → String
  | .config => "config"
  | .verbose => "verbose"
  | .logStderr => "log-stderr"
  | .help => "help"
  | .version => "version"
  | .commandFile => "cmdfile"
  | .reload => "reload"
  | .extraArg => "extra-arg"
  | .json => "json"
  | .shards => "shards"

def short? : Key → Option Char
  | .config => some 'c'
  | .verbose => some 'v'
  | .help => some 'h'
  | .version => some 'V'
  | .shards => some 's'
  | .logStderr | .commandFile | .reload | .extraArg | .json => none

/-- The word that stands for the value of an option that takes one. -/
def placeholder? : Key → Option String
  | .config => some "CONFIG"
  | .commandFile => some "PATH"
  | .extraArg => some "ARG"
  | .shards => some "SHARDS"
  | .verbose | .logStderr | .help | .version | .reload | .json => none

def takesValue (key : Key) : Bool :=
  key.placeholder?.isSome

def isRepeatable : Key → Bool
  | .commandFile | .extraArg => true
  | .config | .verbose | .logStderr | .help | .version | .reload | .json | .shards => false

def takesDashes (key : Key) : Bool :=
  key == .extraArg

def accepts (key : Key) (value : String) : Bool :=
  match key with
  | .config | .commandFile => value != ""
  | .shards => (readCount value).isOk
  | .extraArg | .verbose | .logStderr | .help | .version | .reload | .json => true

/-- The options before an action, and those of an action, in the order of the usage text. -/
def ofLevel : Option Action → List Key
  | none => [.config, .verbose, .logStderr, .help, .version]
  | some .run => [.config, .commandFile, .reload, .verbose, .extraArg, .logStderr, .help]
  | some .listDevices => [.config, .json, .verbose, .logStderr, .help]
  | some .split => [.config, .shards, .json, .verbose, .logStderr, .help]
  | some .checkFile => [.config, .json, .verbose, .logStderr, .help]

end Key

/-- Why reading a command line ends without a request: a fault, or something to be shown instead. -/
inductive Halt
  | fault
  | help (action : Option Action)
  | helpOnHelp
  | version
  deriving Repr, DecidableEq

/-- The options and operands given before an action or to one. -/
structure Given where
  flags : List Key := []
  values : List (Key × String) := []
  operands : List String := []
  deriving Repr, DecidableEq, Inhabited

namespace Given

def give (given : Given) (key : Key) (value : String) : Except Halt Given :=
  if !key.isRepeatable && given.values.any (·.1 == key) then .error .fault
  else if key.accepts value then .ok { given with values := given.values ++ [(key, value)] }
  else .error .fault

/-- Turn a flag on.  Help and the version are shown at once. -/
def turnOn (given : Given) (level : Option Action) (key : Key) : Except Halt Given :=
  match key with
  | .help => .error (.help level)
  | .version => .error .version
  | _ =>
    if key ∈ given.flags then .error .fault
    else .ok { given with flags := given.flags ++ [key] }

/-- The values of an option, in the order given. -/
def valuesOf (given : Given) (key : Key) : List String :=
  given.values.filterMap fun e => if e.1 = key then some e.2 else none

end Given

/-- An option that has been named but not settled, with its value once that has been read. -/
structure Pending where
  key : Key
  value : Option String := none
  deriving Repr, DecidableEq

def Given.settle (given : Given) : Option Pending → Except Halt Given
  | none => .ok given
  | some ⟨_, none⟩ => .error .fault
  | some ⟨key, some value⟩ => given.give key value

/-- Read the letters after a single dash.  The last of them may be left pending. -/
def Given.letters (given : Given) (level : Option Action) (pending : Option Pending) :
    List Char → Except Halt (Given × Option Pending)
  | [] => .ok (given, pending)
  | c :: rest =>
    match (Key.ofLevel level).find? fun key => key.short? == some c with
    | none => .error .fault
    | some key =>
      if key.takesValue then do
        let given ← given.settle pending
        match rest with
        | [] => return (given, some { key })
        | '=' :: value => return (← given.give key (String.ofList value), none)
        | value => return (← given.give key (String.ofList value), none)
      else do
        let given ← given.settle pending
        let given ← given.turnOn level key
        given.letters level none rest

/-- Read a long option, of which something may be left pending. -/
def Given.long (given : Given) (level : Option Action) (pending : Option Pending) (name : String)
    (value? : Option String) : Except Halt (Given × Option Pending) :=
  match (Key.ofLevel level).find? (·.long == name), value? with
  | none, _ => .error .fault
  | some key, some value =>
    if key.takesValue then do
      let given ← given.settle pending
      return (← given.give key value, none)
    else .error .fault
  | some key, none => do
    let given ← given.settle pending
    if key.takesValue then return (given, some { key })
    else return (← given.turnOn level key, none)

/-- What an action makes of an operand that stands before `--`. -/
def Given.operand (given : Given) (level : Option Action) (arg : String) : Except Halt Given :=
  match level with
  | some .checkFile =>
    if given.operands.isEmpty && arg != "" then
      .ok { given with operands := [arg] }
    else .error .fault
  | none | some .run | some .listDevices | some .split => .error .fault

/-- What an action makes of the operands that stand after `--`. -/
def Given.trailing (given : Given) (level : Option Action) (args : List String) :
    Except Halt Given :=
  match level with
  | some .run | some .split => .ok { given with operands := args }
  | none | some .listDevices | some .checkFile =>
    args.foldlM (fun given arg => given.operand level arg) given

def helpOn : List String → Halt
  | [] => .help none
  | ["help"] => .helpOnHelp
  | [name] =>
    match Action.ofName? name with
    | some action => .help (some action)
    | none => .fault
  | _ :: _ :: _ => .fault

/-- Read the arguments at a level.  Before an action the answer ends with the action and the
arguments after its name; an option with its value may still be pending then. -/
def Given.scan (level : Option Action) (given : Given) (pending : Option Pending) :
    List String → Except Halt (Given × Option Pending × Option (Action × List String))
  | [] => .ok (given, pending, none)
  | arg :: rest =>
    let isValue := pending.any fun p =>
      p.value.isNone && (p.key.takesDashes || ArgumentForm.of arg == .plain)
    if isValue then given.scan level (pending.map fun p => { p with value := some arg }) rest
    else match ArgumentForm.of arg with
      | .divider => do
        let given ← given.settle pending
        return (← given.trailing level rest, none, none)
      | .long name value? => do
        let (given, pending) ← given.long level pending name value?
        given.scan level pending rest
      | .short _ => do
        let (given, pending) ← given.letters level pending (arg.toList.drop 1)
        given.scan level pending rest
      | .plain =>
        match level with
        | none =>
          match Action.ofName? arg with
          | some action => .ok (given, pending, some (action, rest))
          | none => .error (if arg = "help" then helpOn rest else .fault)
        | some _ => do
          let given ← given.settle pending
          let given ← given.operand level arg
          given.scan level none rest

/-- What is to be done. -/
inductive Job
  | run (files : List Path) (reload : Bool) (extraArgs args : List String)
  | listDevices (json : Bool)
  | split (count : Nat) (json : Bool) (args : List String)
  | checkFile (path : Path) (json : Bool)
  deriving Repr, DecidableEq, Inhabited

/-- What a command line asks for. -/
structure Request where
  job : Job
  config : Option Path := none
  verbose : Bool := false
  deriving Repr, DecidableEq, Inhabited

/-- The job of an action with what was given to it; `none` where something is missing. -/
def Given.job? (given : Given) : Action → Option Job
  | .run =>
    some (.run ((given.valuesOf .commandFile).map Path.mk) (given.flags.contains .reload)
      (given.valuesOf .extraArg) given.operands)
  | .listDevices => some (.listDevices (given.flags.contains .json))
  | .split => do
    let value ← (given.valuesOf .shards).head?
    let count ← (readCount value).toOption
    if given.operands.isEmpty then none
    else return .split count (given.flags.contains .json) given.operands
  | .checkFile => do
    let path ← given.operands.head?
    return .checkFile ⟨path⟩ (given.flags.contains .json)

/-- What a command line asks for.  Of two settings files the one given to the action counts. -/
def Request.ofArgs (args : List String) : Except Halt Request := do
  let (outer, pending, next) ← Given.scan none {} none args
  match next with
  | none => .error .fault
  | some (action, rest) =>
    let (inner, innerPending, _) ← Given.scan (some action) {} none rest
    let inner ← inner.settle innerPending
    match inner.job? action with
    | none => .error .fault
    | some job =>
      let outer ← outer.settle pending
      let config := (inner.valuesOf .config).head?.or (outer.valuesOf .config).head?
      let verbose := inner.flags.contains .verbose || outer.flags.contains .verbose
      return { job, config := config.map Path.mk, verbose }

end DeviceLab.Console
