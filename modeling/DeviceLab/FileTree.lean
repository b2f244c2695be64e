import DeviceLab.Host
import DeviceLab.Path
import DeviceLab.Text.Utf8

/-!
Files on a host.

A tree holds what has been put on a host, in the working directory and elsewhere.  Reading a path
follows its pieces one by one, so a path through a missing directory or through a file fails even
where a later `..` would lead back.
-/

namespace DeviceLab

/-- Why the file system refuses an operation. -/
inductive FileError
  | notFound
  | notDirectory
  | isDirectory
  | permissionDenied
  | nameTooLong
  | badFormat
  | closed
  | nulInPath
  | notUtf8
  deriving Repr, DecidableEq

def FileError.label : FileError → String
  | .notFound => "No such file or directory"
  | .notDirectory => "Not a directory"
  | .isDirectory => "Is a directory"
  | .permissionDenied => "Permission denied"
  | .nameTooLong => "File name too long"
  | .badFormat => "Exec format error"
  | .closed => "Bad file descriptor"
  | .nulInPath => "file name contained an unexpected NUL byte"
  | .notUtf8 => "stream did not contain valid UTF-8"

/-- The number of a refusal, where the system has one for it. -/
def FileError.number? : FileError → Option Nat
  | .notFound => some 2
  | .badFormat => some 8
  | .closed => some 9
  | .permissionDenied => some 13
  | .notDirectory => some 20
  | .isDirectory => some 21
  | .nameTooLong => some 36
  | .nulInPath | .notUtf8 => none

def FileError.message (e : FileError) : String :=
  match e.number? with
  | some n => s!"{e.label} (os error {n})"
  | none => e.label

/-- What has been put on a host, by place, and the files among it that may be run. -/
structure FileTree where
  nodes : List (Place × FileNode) := []
  runnable : List Place := []
  host : Host := .usual
  deriving Repr, DecidableEq, Inhabited

namespace FileTree

def at? (tree : FileTree) (place : Place) : Option FileNode :=
  match tree.nodes.lookup place with
  | some node => some node
  | none => tree.host.node? place

/-- One step of a walk: `.` stays, `..` goes up, a name goes down.  Above the root is the root. -/
def step (tree : FileTree) (place : Place) (piece : String) : Place :=
  if piece = "" ∨ piece = "." then place
  else if piece = ".." then place.dropLast
  else tree.host.follow (place ++ [piece])

/-- Follow pieces from a place; every place on the way has to be a directory. -/
def walk (tree : FileTree) (place : Place) : List String → Except FileError Place
  | [] => .ok place
  | piece :: rest =>
    match tree.at? place with
    | none => .error .notFound
    | some .directory =>
      if piece.utf8ByteSize > 255 then .error .nameTooLong else tree.walk (tree.step place piece) rest
    | some (.file _) | some .sink | some .program => .error .notDirectory

def locateFrom (tree : FileTree) (base : Place) (p : Path) : Except FileError Place :=
  if p.text.toList.contains '\x00' then .error .nulInPath
  else if p.text = "" then .error .notFound
  else if p.text.utf8ByteSize ≥ 4096 then .error .nameTooLong
  else
    match p.text.toList with
    | '/' :: rest => tree.walk [] (Path.pieces rest)
    | cs => tree.walk base (Path.pieces cs)

/-- The place that a path leads to from the working directory. -/
def locate (tree : FileTree) (p : Path) : Except FileError Place :=
  tree.locateFrom tree.host.workplace p

def nodeAt (tree : FileTree) (place : Place) : Except FileError FileNode :=
  match tree.at? place with
  | none => .error .notFound
  | some node => .ok node

def node (tree : FileTree) (p : Path) : Except FileError FileNode := do
  tree.nodeAt (← tree.locate p)

def content (tree : FileTree) : FileNode → Except FileError (List UInt8)
  | .directory => .error .isDirectory
  | .file bytes => .ok bytes
  | .sink => .ok []
  | .program => .ok tree.host.programBytes

def read (tree : FileTree) (p : Path) : Except FileError (List UInt8) := do
  tree.content (← tree.node p)

def readText (tree : FileTree) (p : Path) : Except FileError String := do
  match Text.decode? (← tree.read p) with
  | none => .error .notUtf8
  | some text => .ok text

/-- Where a path leads from the working directory, `.` and `..` worked off; nothing is looked up. -/
def namesOf (tree : FileTree) (p : Path) : Place :=
  (Path.pieces p.text.toList).foldl tree.step (if p.isAbsolute then [] else tree.host.workplace)

/-- Put a node at a place, instead of what was there. -/
def put (tree : FileTree) (place : Place) (node : FileNode) : FileTree :=
  { tree with nodes := (place, node) :: tree.nodes.filter (·.1 != place) }

@[simp] theorem put_host (tree : FileTree) (place : Place) (node : FileNode) :
    (tree.put place node).host = tree.host := rfl

@[simp] theorem put_step (tree : FileTree) (place : Place) (node : FileNode) :
    (tree.put place node).step = tree.step := rfl

/-- Make a directory, and those above it, where nothing stands yet. -/
def makeDirectory (tree : FileTree) (place : Place) : FileTree :=
  (List.range place.length).foldl (fun t n =>
    let upTo := place.take (n + 1)
    if (t.at? upTo).isSome then t else t.put upTo .directory) tree

def addDirectory (tree : FileTree) (p : Path) : FileTree :=
  tree.makeDirectory (tree.namesOf p)

/-- Write a file, making the directories above it. -/
def write (tree : FileTree) (p : Path) (bytes : List UInt8) : FileTree :=
  let place := tree.namesOf p
  (tree.makeDirectory place.dropLast).put place (.file bytes)

/-- Take away what has been put at a place, and all below it. -/
def remove (tree : FileTree) (place : Place) : FileTree :=
  { tree with
    nodes := tree.nodes.filter fun node => !place.isPrefixOf node.1
    runnable := tree.runnable.filter fun file => !place.isPrefixOf file }

/-- Remove a file; `none` when the path leads to none. -/
def delete? (tree : FileTree) (p : Path) : Option FileTree :=
  match tree.locate p with
  | .ok place =>
    match tree.nodes.lookup place with
    | some (.file _) => some (tree.remove place)
    | _ => none
  | .error _ => none

/-- The names in a directory, in ascending order. -/
def namesIn (tree : FileTree) (place : Place) : List String :=
  let inside := (tree.nodes.map (·.1) ++ tree.host.places).filterMap fun other =>
    if other.length = place.length + 1 ∧ place.isPrefixOf other then other.getLast? else none
  (inside.mergeSort (fun a b => !(b < a))).eraseDups

def isRunnable (tree : FileTree) (place : Place) : Bool :=
  match tree.at? place with
  | some .program => true
  | some (.file _) => tree.runnable.contains place
  | some .directory | some .sink | none => false

end FileTree

end DeviceLab
