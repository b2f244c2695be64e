import DeviceLab.FileTree
import DeviceLab.Shell.Tree

/-!
Processes, and what they share.

Each process has its own clock, in milliseconds.  What is written into a channel carries the time of
its writing, so that processes which run side by side can be worked off one after the other.  A
process stands in the way of the end of a channel as long as it could write into it; such stays are
recorded.
-/

namespace DeviceLab.Shell

open Text

/-- What a stream of a process is joined to. -/
inductive Handle
  | sink
  | into (channel : Nat)
  | outOf (channel : Nat)
  | file (number : Nat)
  deriving Repr, DecidableEq, Inhabited

/-- A file that has been opened, with the position to go on at. -/
structure OpenFile where
  place : Place
  position : Nat := 0
  appends : Bool := false
  writable : Bool := false
  deriving Repr, DecidableEq, Inhabited

/-- Bytes that a process has written at some time. -/
structure Chunk where
  time : Nat
  writer : Nat
  bytes : List UInt8
  deriving Repr, DecidableEq, Inhabited

/-- A channel: what has been written, last first, and what is waiting to be read, in order. -/
structure Channel where
  written : List Chunk := []
  waiting : List Chunk := []
  deriving Repr, DecidableEq, Inhabited

/-- The time from `start` to `stop` in which a process could write into a channel. -/
structure Stay where
  process : Nat
  parent : Nat
  channel : Nat
  start : Nat
  stop : Nat
  deriving Repr, DecidableEq, Inhabited

/-- A signal that waits for the process it was sent to. -/
structure Signal where
  process : Nat
  number : Nat
  time : Nat
  deriving Repr, DecidableEq, Inhabited

/-- What processes share.  The documents of scripts are known by number.  `budget` bounds the number
of commands that may still be run. -/
structure Machine where
  tree : FileTree := {}
  channels : Array Channel := #[]
  files : Array OpenFile := #[]
  stays : List Stay := []
  signals : List Signal := []
  documents : List (Nat × Word) := []
  nextDocument : Nat := 0
  nextProcess : Nat := 4243
  budget : Nat := 0
  deriving Inhabited

/-- A variable of a shell.  It may be marked without having a value. -/
structure Variable where
  value : Option String := none
  exported : Bool := false
  readOnly : Bool := false
  deriving Repr, DecidableEq, Inhabited

/-- The options of a shell. -/
structure Options where
  exitOnFailure : Bool := false
  refuseUnset : Bool := false
  trace : Bool := false
  noPatterns : Bool := false
  noRun : Bool := false
  verbose : Bool := false
  exportAll : Bool := false
  noOverwrite : Bool := false
  deriving Repr, DecidableEq, Inhabited

/-- The manner in which a shell words its messages. -/
inductive Manner
  | short
  | long
  deriving Repr, DecidableEq, Inhabited

/-- A process left to itself: when it ends, its status then, and whether nobody has asked for
that. -/
structure Job where
  process : Nat
  stop : Nat
  status : Nat
  awaited : Bool := true
  deriving Repr, DecidableEq, Inhabited

/-- A process, and the shell that runs in it.  `route` is the path that has led to its directory,
`name` is what the shell calls itself in messages, `line` the line of the command that is being run,
`reached` the line that the reading of the script has come to, `command` the built-in command that
is being run, `kept` the status from before a trap, `letter` how far the options that are read have
come in a word, and `scopes` keeps the variables that functions have made their own as they were
before. -/
structure Process where
  id : Nat := 4242
  parent : Nat := 1
  shell : Nat := 4242
  begun : Nat := 0
  clock : Nat := 0
  place : Place := []
  route : String := "/"
  streams : List (Nat × Handle) := []
  name : String := "sh"
  args : List String := []
  bindings : List (String × Variable) := []
  functions : List (String × Tree) := []
  options : Options := {}
  manner : Manner := .short
  traps : List (Nat × String) := []
  pending : List Nat := []
  jobs : List Job := []
  status : Nat := 0
  kept : Option Nat := none
  substituted : Nat := 0
  line : Nat := 1
  reached : Nat := 1
  command : Option String := none
  loops : Nat := 0
  scopes : List (List (String × Option Variable)) := []
  mask : Nat := 18
  letter : Nat := 0
  deriving Inhabited

/-- Why a process does not go on with the next command. -/
inductive Halt
  | leaving
  | failed
  | killed (signal : Nat)
  | breaking (levels : Nat)
  | continuing (levels : Nat)
  | returning
  | endless
  deriving Repr, DecidableEq, Inhabited

abbrev Act := ExceptT Halt (StateT Process (StateM Machine))

namespace Act

def process : Act Process := get

def machine : Act Machine := fun p m => ((.ok m, p), m)

def onMachine (f : Machine → Machine) : Act Unit := fun p m => ((.ok (), p), f m)

/-- Do something, and answer how it went without going on with a halt. -/
def attempt {α : Type} (act : Act α) : Act (Except Halt α) := fun p m =>
  let ((result, p), m) := act p m
  ((.ok result, p), m)

/-- Take steps from a state until one of them comes to an answer, at most `fuel` of them. -/
def iterate {σ α : Type} (step : σ → Act (Except α σ)) : Nat → σ → Act α
  | 0, _ => fun p m => ((.error .endless, p), m)
  | fuel + 1, state => fun p m =>
    match step state p m with
    | ((.ok (.ok state), p), m) => iterate step fuel state p m
    | ((.ok (.error answer), p), m) => ((.ok answer, p), m)
    | ((.error halt, p), m) => ((.error halt, p), m)

end Act

/-! ### Streams -/

/-- The handle of a stream, unless it is closed. -/
def Process.handle? (p : Process) (stream : Nat) : Option Handle :=
  p.streams.lookup stream

def Process.join (p : Process) (stream : Nat) (handle : Handle) : Process :=
  { p with streams := (stream, handle) :: p.streams.filter (·.1 != stream) }

def Process.close (p : Process) (stream : Nat) : Process :=
  { p with streams := p.streams.filter (·.1 != stream) }

def Process.outlets (p : Process) : List Nat :=
  (p.streams.filterMap fun s => match s.2 with
    | .into channel => some channel
    | .sink | .outOf _ | .file _ => none).eraseDups

/-- The record of a process's stay at a channel, up to now. -/
def Process.stay (p : Process) (channel : Nat) : Stay :=
  { process := p.id, parent := p.parent, channel, start := p.begun, stop := p.clock }

def Machine.closing (m : Machine) (channel : Nat) : Nat :=
  m.stays.foldl (fun time s => if s.channel = channel then max time s.stop else time) 0

/-- Put a chunk among chunks in the order of their times, after those of the same time. -/
def Chunk.insert (chunk : Chunk) : List Chunk → List Chunk
  | [] => [chunk]
  | first :: rest =>
    if first.time ≤ chunk.time then first :: chunk.insert rest else chunk :: first :: rest

def Chunk.inOrder : List Chunk → Bool
  | first :: second :: rest => first.time ≤ second.time && Chunk.inOrder (second :: rest)
  | _ => true

/-- All chunks of a channel that have not been read, in the order of their times. -/
def Channel.all (c : Channel) : List Chunk :=
  let chunks := c.waiting ++ c.written.reverse
  if Chunk.inOrder chunks then chunks else chunks.foldl (fun sorted chunk => chunk.insert sorted) []

def newChannel : Act Nat := do
  let m ← Act.machine
  Act.onMachine fun m => { m with channels := m.channels.push {} }
  return m.channels.size

/-- Replace bytes from a position on, with zeros in a gap before them. -/
def overwrite (old : List UInt8) (position : Nat) (bytes : List UInt8) : List UInt8 :=
  let before := old.take position
  before ++ List.replicate (position - before.length) 0 ++ bytes ++
    old.drop (position + bytes.length)

def Machine.writeFile (m : Machine) (number : Nat) (bytes : List UInt8) : Machine :=
  match m.files[number]? with
  | none => m
  | some f =>
    match m.tree.at? f.place with
    | some (.file old) =>
      let position := if f.appends then old.length else f.position
      { m with
        tree := m.tree.put f.place (.file (overwrite old position bytes))
        files := m.files.set! number { f with position := position + bytes.length } }
    | _ => m

/-- Write bytes to what a stream is joined to; the answer is whether that is possible. -/
def writeTo (handle : Handle) (bytes : List UInt8) : Act Bool := do
  let p ← Act.process
  match handle with
  | .sink => return true
  | .into channel =>
    if !bytes.isEmpty then
      Act.onMachine fun m => { m with
        channels := m.channels.modify channel fun c =>
          { c with written := { time := p.clock, writer := p.id, bytes } :: c.written } }
    return true
  | .file number =>
    let m ← Act.machine
    if (m.files[number]?).any (·.writable) then
      Act.onMachine fun m => m.writeFile number bytes
      return true
    else return false
  | .outOf _ => return false

/-- Write bytes to a stream; the answer is whether that is possible. -/
def writeBytes (stream : Nat) (bytes : List UInt8) : Act Bool := do
  match (← Act.process).handle? stream with
  | some handle => writeTo handle bytes
  | none => return false

def write (stream : Nat) (text : String) : Act Bool :=
  writeBytes stream (bytesOf text)

def writeError (text : String) : Act Unit := do
  let _ ← write 2 text

def waitTill (time : Nat) : Act Unit :=
  modify fun p => { p with clock := max p.clock time }

/-- The next bytes of a stream, all that have been written at one time; `none` when it is closed.
At the end of a channel this waits until no process could write into it any more, and there are no
bytes. -/
def readChunk (stream : Nat) : Act (Option (List UInt8)) := do
  let p ← Act.process
  let m ← Act.machine
  match p.handle? stream with
  | none | some (.into _) => return none
  | some .sink => return some []
  | some (.file number) =>
    match m.files[number]? with
    | none => return none
    | some f =>
      let bytes := match m.tree.at? f.place with
        | some (.file bytes) => bytes.drop f.position
        | _ => []
      Act.onMachine fun m => { m with
        files := m.files.modify number fun f => { f with position := f.position + bytes.length } }
      return some bytes
  | some (.outOf channel) =>
    match ((m.channels[channel]?).getD {}).all with
    | [] =>
      waitTill (m.closing channel)
      return some []
    | chunk :: rest =>
      waitTill chunk.time
      Act.onMachine fun m => { m with
        channels := m.channels.modify channel fun _ => { waiting := rest } }
      return some chunk.bytes

def unread (stream : Nat) (bytes : List UInt8) : Act Unit := do
  let p ← Act.process
  match p.handle? stream with
  | some (.file number) =>
    Act.onMachine fun m => { m with
      files := m.files.modify number fun f => { f with position := f.position - bytes.length } }
  | some (.outOf channel) =>
    if !bytes.isEmpty then
      Act.onMachine fun m => { m with
        channels := m.channels.modify channel fun c =>
          { c with waiting := { time := p.clock, writer := p.id, bytes } :: c.waiting } }
  | some .sink | some (.into _) | none => return ()

def maxChunks : Nat := 10000000

/-- Everything that can be read from a stream; `none` when it is closed. -/
def readAll (stream : Nat) : Act (Option (List UInt8)) := do
  let rec collect (acc : List (List UInt8)) : Nat → Act (Option (List UInt8))
    | 0 => return some acc.reverse.flatten
    | fuel + 1 => do
      match ← readChunk stream with
      | none => return none
      | some [] => return some acc.reverse.flatten
      | some bytes => collect (bytes :: acc) fuel
  collect [] maxChunks

/-- The bytes of a stream up to the end of a line, which is read but not answered; the flag says
whether a line ended there.  `none` when the stream is closed. -/
def readLine (stream : Nat) : Act (Option (List UInt8 × Bool)) := do
  let rec collect (acc : List UInt8) : Nat → Act (Option (List UInt8 × Bool))
    | 0 => return some (acc, false)
    | fuel + 1 => do
      match ← readChunk stream with
      | none => return none
      | some [] => return some (acc, false)
      | some bytes =>
        let line := bytes.takeWhile (· != 10)
        if line.length < bytes.length then
          unread stream (bytes.drop (line.length + 1))
          return some (acc ++ line, true)
        else collect (acc ++ line) fuel
  collect [] maxChunks

/-! ### Messages -/

def Process.heading (p : Process) : String :=
  let line := match p.manner with
    | .short => s!"{p.name}: {p.line}: "
    | .long => s!"{p.name}: line {p.line}: "
  match p.command with
  | some command => s!"{line}{command}: "
  | none => line

/-- Complain, and go on. -/
def complain (text : String) : Act Unit := do
  writeError ((← Act.process).heading ++ text ++ "\n")

def setStatus (status : Nat) : Act Unit :=
  modify fun p => { p with status }

/-- Complain, and fail. -/
def refuse {α : Type} (text : String) : Act α := do
  complain text
  setStatus 2
  throw .failed

/-- The time in milliseconds that no process is watched beyond while it runs commands. -/
def horizon : Nat := 3600000

def spend : Act Unit := do
  if (← Act.machine).budget = 0 || (← Act.process).clock > horizon then throw .endless
  Act.onMachine fun m => { m with budget := m.budget - 1 }

/-! ### Variables -/

def Process.valueOf? (p : Process) (name : String) : Option String :=
  (p.bindings.lookup name).bind (·.value)

def Process.setVariable (p : Process) (name : String) (v : Variable) : Process :=
  { p with bindings := (name, v) :: p.bindings.filter (·.1 != name) }

def assign (name value : String) (exported : Bool) : Act Unit := do
  let p ← Act.process
  let old := (p.bindings.lookup name).getD {}
  if old.readOnly then refuse s!"{name}: is read only"
  let p := if name = "OPTIND" then { p with letter := 0 } else p
  set (p.setVariable name
    { old with value := some value, exported := old.exported || exported || p.options.exportAll })

def Process.environment (p : Process) : List (String × String) :=
  p.bindings.reverse.filterMap fun (name, v) =>
    if v.exported then v.value.map fun value => (name, value) else none

def splitPath (path : String) : List String :=
  path.splitOn ":"

def placeText (place : Place) : String :=
  "/" ++ narrow (String.intercalate "/" place)

def locate (path : String) : Act (Except FileError Place) := do
  return (← Act.machine).tree.locateFrom (← Act.process).place ⟨widen path⟩

def nodeAt (path : String) : Act (Except FileError (Place × FileNode)) := do
  let m ← Act.machine
  match m.tree.locateFrom (← Act.process).place ⟨widen path⟩ with
  | .error e => return .error e
  | .ok place =>
    match m.tree.at? place with
    | none => return .error .notFound
    | some node => return .ok (place, node)

end DeviceLab.Shell
