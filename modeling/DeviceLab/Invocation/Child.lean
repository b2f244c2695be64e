import DeviceLab.Shell.Evaluation

namespace DeviceLab

open Shell Text

/-- What a program leaves: its code, unless a signal has ended it, what has been written about
errors, how long all this took in milliseconds, and the files. -/
structure Child where
  code : Option Nat
  errors : List UInt8 := []
  elapsed : Nat := 0
  tree : FileTree := {}
  deriving Repr, Inhabited

/-- Why a program cannot be started. -/
inductive StartFault
  | file (error : FileError)
  | nulInArgument
  | tooMuch
  deriving Repr, DecidableEq

def StartFault.message : StartFault → String
  | .file error => error.message
  | .nulInArgument => "nul byte found in provided data"
  | .tooMuch => "Argument list too long (os error 7)"

namespace Child

/-- The variables of every program, unless others are given. -/
def standardEnvironment : List (String × String) :=
  [("HOME", "/root"), ("PATH", "/usr/local/sbin:/usr/local/bin:/usr/sbin:/usr/bin:/sbin:/bin")]

/-- The variables that a list of names and values sets.  The last of several values for a name
counts; the names are set in ascending order, and a name ends at a sign of equality. -/
def variablesOf (pairs : List (String × String)) : List (String × String) :=
  let names := ((pairs.map (·.1)).mergeSort fun a b => !(b < a)).eraseDups
  names.map fun name =>
    let value := (pairs.reverse.lookup name).getD ""
    let (name, rest) := splitAssignment s!"{name}={value}"
    (name, rest.getD "")

/-- How many bytes an argument may have, and how many all of them. -/
def maxArgument : Nat := 131071

/-- How many bytes all arguments and variables may have together. -/
def maxArguments : Nat := 2000000

/-- How many commands the processes that come from a program may run. -/
def budget : Nat := 1000000

/-- Why a path cannot be started; a file that may not be run does not end a search. -/
def search (tree : FileTree) (place : Place) (name : String) (refusal : FileError) :
    List String → Except FileError String
  | [] => .error refusal
  | directory :: rest =>
    let path := inDirectory directory name
    match tree.locateFrom place ⟨path⟩ with
    | .error .notFound | .error .notDirectory => search tree place name refusal rest
    | .error e => .error e
    | .ok found =>
      if tree.isRunnable found then .ok path
      else if (tree.at? found).isNone then search tree place name refusal rest
      else search tree place name .permissionDenied rest

def find (tree : FileTree) (environment : List (String × String)) (program : String) :
    Except FileError String := do
  if program.toList.contains '/' then
    let place ← tree.locate ⟨program⟩
    let _ ← tree.nodeAt place
    if tree.isRunnable place then return program else throw .permissionDenied
  else if program.isEmpty then throw .notFound
  else if program.utf8ByteSize > 255 then throw .nameTooLong
  else
    let path := (environment.lookup "PATH").getD usualPath
    search tree tree.host.workplace program .notFound (splitPath path)

/-- What a program leaves that is started with arguments and variables. -/
def start (tree : FileTree) (program : String) (args : List String)
    (environment : List (String × String)) : Except StartFault Child := do
  let texts := program :: args ++ environment.flatMap fun v => [v.1, v.2]
  if texts.any (·.toList.contains '\x00') then throw .nulInArgument
  let bindings := variablesOf (standardEnvironment ++ environment)
  let path ← (find tree bindings program).mapError .file
  let sizes := (program :: args ++ bindings.map fun v => s!"{v.1}={v.2}").map (·.utf8ByteSize)
  if sizes.any (· > maxArgument) || sizes.foldl (· + ·) 0 > maxArguments then throw .tooMuch
  let process : Process := {
    place := tree.host.workplace
    route := narrow ("/" ++ String.intercalate "/" tree.host.workplace)
    streams := [(0, .sink), (1, .into 0), (2, .into 1)]
    name := narrow program
    bindings := bindings.reverse.map fun (name, value) =>
      (narrow name, { value := some (narrow value), exported := true }) }
  let machine : Machine := { tree, channels := #[{}, {}], budget }
  let ((result, process), machine) :=
    execute maxDepth (narrow path) ((program :: args).map narrow) process machine
  let ended := process.ending result
  let machine := machine.recordStays process ended.stop
  return {
    code := if ended.signal.isSome then none else some ended.status
    errors := (((machine.channels[1]?).getD default).all.map Chunk.bytes).flatten
    elapsed := max ended.stop (max (machine.closing 0) (machine.closing 1))
    tree := machine.tree }

end Child

end DeviceLab
