import DeviceLab.Shell.Expansion

namespace DeviceLab.Shell

open Text

/-- A redirection whose words have been expanded. -/
inductive Joint
  | file (stream : Nat) (access : Access) (name : String)
  | duplicate (stream source : Nat)
  | close (stream : Nat)
  | document (stream : Nat) (text : String)
  deriving Repr, DecidableEq, Inhabited

namespace Joint

def stream : Joint → Nat
  | .file stream _ _ | .duplicate stream _ | .close stream | .document stream _ => stream

/-- Complain of a word that names no stream, as of a fault of the script. -/
def badStream {α : Type} : Act α := do
  modify fun p => { p with line := p.reached }
  refuse "Syntax error: Bad fd number"

def ofRedirection (substitute : List Tree → Act String) : Redirection → Act Joint
  | .file stream access name => do
    return .file stream access (← expandText substitute .first name)
  | .duplicate stream source => do
    match (← expandText substitute .first source).toList with
    | ['-'] => return .close stream
    | [c] =>
      if c.isDigit then return .duplicate stream (ofDigits 10 [c])
      else badStream
    | _ => badStream
  | .document stream number => do
    let word := ((← Act.machine).documents.lookup number).getD []
    return .document stream (← expandText substitute .none word)

def deviceStream? (name : String) : Option Nat :=
  match name with
  | "/dev/stdin" => some 0
  | "/dev/stdout" => some 1
  | "/dev/stderr" => some 2
  | name =>
    if name.startsWith "/dev/fd/" then numeral? (name.toList.drop 8) else none
where
  /-- The number that digits stand for. -/
  numeral? (cs : List Char) : Option Nat :=
    if cs.isEmpty || !cs.all Char.isDigit then none else some (ofDigits 10 cs)

def refusal (p : Process) (access : Access) (name : String) (e : FileError) : String :=
  match p.manner, access with
  | .long, _ => s!"{name}: {e.label}"
  | .short, .read =>
    let reason := if e = .notFound ∨ e = .notDirectory then "No such file" else e.label
    s!"cannot open {name}: {reason}"
  | .short, _ =>
    let reason := if e = .notFound ∨ e = .notDirectory then "Directory nonexistent" else e.label
    s!"cannot create {name}: {reason}"

def openFile (access : Access) (name : String) : Act Handle := do
  let p ← Act.process
  let refused (e : FileError) : Act Handle := refuse (refusal p access name e)
  let opened (f : OpenFile) : Act Handle := do
    let number := (← Act.machine).files.size
    Act.onMachine fun m => { m with files := m.files.push f }
    return .file number
  let empty (place : Place) : Act Unit :=
    Act.onMachine fun m => { m with tree := m.tree.put place (.file []) }
  match deviceStream? name with
  | some stream =>
    match p.handle? stream with
    | some handle => return handle
    | none => refused .notFound
  | none =>
    match ← locate name with
    | .error e => refused e
    | .ok place =>
      let m ← Act.machine
      match access, m.tree.at? place with
      | _, some .sink => return .sink
      | .read, none => refused .notFound
      | .read, some _ => opened { place }
      | .write, some .directory | .append, some .directory | .readWrite, some .directory =>
        refused .isDirectory
      | .write, some _ =>
        if p.options.noOverwrite then refuse s!"cannot create {name}: File exists"
        empty place
        opened { place, writable := true }
      | .append, some _ => opened { place, appends := true, writable := true }
      | .readWrite, some _ => opened { place, writable := true }
      | .write, none | .readWrite, none =>
        empty place
        opened { place, writable := true }
      | .append, none =>
        empty place
        opened { place, appends := true, writable := true }

def perform : Joint → Act Unit
  | .file stream access name => do
    let handle ← openFile access name
    modify (·.join stream handle)
  | .duplicate stream source => do
    match (← Act.process).handle? source with
    | some handle => modify (·.join stream handle)
    | none => refuse s!"{source}: Bad file descriptor"
  | .close stream => modify (·.close stream)
  | .document stream text => do
    let channel ← newChannel
    let p ← Act.process
    let chunks := if text.isEmpty then []
      else [{ time := p.clock, writer := p.id, bytes := bytesOf text : Chunk }]
    Act.onMachine fun m => { m with
      channels := m.channels.modify channel fun _ => { waiting := chunks } }
    modify (·.join stream (.outOf channel))

end Joint

/-- Take down at which channels the process does not stay any more. -/
def leaveChannels (before : Process) : Act Unit := do
  let p ← Act.process
  let left := before.outlets.filter fun channel => !p.outlets.contains channel
  Act.onMachine fun m => { m with stays := left.map p.stay ++ m.stays }

def Process.restore (p : Process) (streams : List (Nat × Option Handle)) : Process :=
  streams.foldl (fun p (stream, handle?) => match handle? with
    | some handle => p.join stream handle
    | none => p.close stream) p

/-- Join streams for good; the answer is whether that has succeeded. -/
def joinAll (joints : List Joint) : Act Bool := do
  let before ← Act.process
  match ← Act.attempt (joints.forM Joint.perform) with
  | .ok () =>
    leaveChannels before
    return true
  | .error .failed =>
    modify fun p => { p with streams := before.streams }
    return false
  | .error halt => throw halt

/-- Do something with streams joined for the time being; `none` if they cannot be joined. -/
def whileJoined {α : Type} (joints : List Joint) (act : Act α) : Act (Option α) := do
  let before ← Act.process
  let saved := (joints.map Joint.stream).eraseDups.map fun stream => (stream, before.handle? stream)
  match ← Act.attempt (joints.forM Joint.perform) with
  | .ok () =>
    let result ← Act.attempt act
    modify (·.restore saved)
    match result with
    | .ok a => return some a
    | .error halt => throw halt
  | .error .failed =>
    modify fun p => { p with streams := before.streams }
    return none
  | .error halt => throw halt

end DeviceLab.Shell
