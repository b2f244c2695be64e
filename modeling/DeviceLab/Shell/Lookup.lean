import DeviceLab.Shell.Builtin

namespace DeviceLab.Shell

open Text

/-- What a command turns out to be. -/
inductive Found
  | function (body : Tree)
  | builtin
  | program (path : String)
  deriving Inhabited

def inDirectory (directory name : String) : String :=
  if directory.isEmpty then name else s!"{directory}/{name}"

/-- The directories that programs are looked for in by whoever knows of none. -/
def usualPath : String := "/bin:/usr/bin"

/-- The path of the program that a name stands for; else the reason why there is none.  The
directories are those of `fallback` where the variable is not set. -/
def findProgram (fallback name : String) : Act (Except FileError String) := do
  if name.toList.contains '/' then return .ok name
  let p ← Act.process
  let m ← Act.machine
  let rec search (reason : FileError) : List String → Except FileError String
    | [] => .error reason
    | directory :: rest =>
      let path := inDirectory directory name
      match m.tree.locateFrom p.place ⟨widen path⟩ with
      | .error .notFound | .error .notDirectory => search reason rest
      | .error e => search e rest
      | .ok place =>
        match m.tree.at? place with
        | none => search reason rest
        | some (.file _) | some .program => .ok path
        | some .directory | some .sink => search .permissionDenied rest
  return search .notFound (splitPath ((p.valueOf? "PATH").getD fallback))

/-- What a shell calls the reason why a program cannot be run. -/
def Manner.reason (manner : Manner) (path : String) (e : FileError) : String :=
  match manner with
  | .short => if e = .notFound ∨ e = .notDirectory then "not found" else e.label
  | .long =>
    if e = .notFound ∧ !path.toList.contains '/' then "command not found" else e.label

/-- What a command is, if it is anything. -/
def lookUp (name : String) : Act (Except FileError Found) := do
  let p ← Act.process
  match p.functions.lookup name with
  | some body => return .ok (.function body)
  | none =>
    if isBuiltin name then return .ok .builtin
    return (← findProgram "" name).map .program

/-- Tell what a command is: at length, or only what to call it by. -/
def describe (atLength : Bool) (name : String) : Act Nat := do
  let tell (brief long : String) : Act Nat :=
    output (if atLength then s!"{name} is {long}\n" else brief ++ "\n")
  if Token.keywords.contains name then tell name "a shell keyword"
  else
    let found ← match ← lookUp name with
      | .ok (.program path) =>
        match ← nodeAt path with
        | .ok _ => pure (Except.ok (Found.program path))
        | .error e => pure (.error e)
      | found => pure found
    match found with
    | .ok (.function _) => tell name "a shell function"
    | .ok .builtin =>
      tell name (if isSpecialBuiltin name then "a special shell builtin" else "a shell builtin")
    | .ok (.program path) => tell path path
    | .error _ =>
      if atLength then
        let _ ← output s!"{name}: not found\n"
      return 127

def describeAll (atLength : Bool) (names : List String) : Act Nat := do
  let mut status := 0
  for name in names do
    let s ← describe atLength name
    if s ≠ 0 then status := s
  return status

/-- Look commands up, and complain of those that are none. -/
def hashAll (names : List String) : Act Nat := do
  let mut status := 0
  for name in names.filter fun name => name.toList.head? != some '-' do
    match ← lookUp name with
    | .ok _ => pure ()
    | .error _ =>
      complain s!"{name}: not found"
      status := 1
  return status

end DeviceLab.Shell
