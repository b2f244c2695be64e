import DeviceLab.Ascending
import DeviceLab.Command.Basic
import DeviceLab.Command.Options
import DeviceLab.Device.Selection
import DeviceLab.Queue.Reload

/-!
The queue of commands that wait for a device.

Entries are kept in the order of their ids, which is the order of submission.
-/

namespace DeviceLab

/-- A waiting command: what it asks of its device, how it is run, the pace of its loop, and the
instant before which it is not offered a device. -/
structure QueuedCommand where
  command : Command
  selection : Selection := {}
  mode : RunMode := .oneShot
  minLoopTime : Nat := 0
  readyAt : Option Nat := none
  deriving DecidableEq, Inhabited

namespace QueuedCommand

def id (q : QueuedCommand) : Nat :=
  q.command.id

def isReady (q : QueuedCommand) (now : Nat) : Bool :=
  q.readyAt.all fun at_ => at_ ≤ now

end QueuedCommand

/-- The waiting commands, their ids strictly ascending. -/
structure Queue where
  entries : List QueuedCommand
  ascending : entries.Pairwise (·.id < ·.id)
  deriving DecidableEq

namespace Queue

instance : EmptyCollection Queue := ⟨⟨[], .nil⟩⟩
instance : Inhabited Queue := ⟨∅⟩

@[simp] theorem entries_empty : (∅ : Queue).entries = [] := rfl

def push (queue : Queue) (q : QueuedCommand) : Queue :=
  ⟨enterBy QueuedCommand.id q queue.entries, pairwise_enterBy QueuedCommand.id q queue.ascending⟩

def get? (queue : Queue) (id : Nat) : Option QueuedCommand :=
  queue.entries.find? (·.id == id)

def erase (queue : Queue) (id : Nat) : Queue :=
  ⟨queue.entries.filter (·.id != id), queue.ascending.filter _⟩

def size (queue : Queue) : Nat :=
  queue.entries.length

def isEmpty (queue : Queue) : Bool :=
  queue.entries.isEmpty

/-- The ids that wait, oldest first. -/
def ids (queue : Queue) : List Nat :=
  queue.entries.map QueuedCommand.id

/-- The waiting commands, oldest first. -/
def commands (queue : Queue) : List Command :=
  queue.entries.map QueuedCommand.command

/-- The earliest instant after `now` at which an entry becomes ready. -/
def nextReadyAt (queue : Queue) (now : Nat) : Option Nat :=
  ((queue.entries.filterMap QueuedCommand.readyAt).filter fun at_ => now < at_).min?

/-- A group number with what is queued for it. -/
structure NumberedGroup where
  number : Nat
  group : LineGroup
  deriving Repr, DecidableEq

/-- Groups with one more id for a line; a line of a new group number opens a group of its own. -/
def addToGroup (id : Nat) (line : FileLine) : List NumberedGroup → List NumberedGroup
  | [] => [⟨line.group, ⟨[id], line.args⟩⟩]
  | first :: rest =>
    if first.number = line.group then
      { first with group := { first.group with ids := first.group.ids ++ [id] } } :: rest
    else first :: addToGroup id line rest

/-- The line of the file at `path` that an entry stands for.  A command that only inherited the file
stands for none. -/
def lineOf? (path : Path) (q : QueuedCommand) : Option FileLine :=
  if q.command.file.any (·.same path) then q.command.line else none

/-- What is queued for the lines of the file at `path`, one group per line. -/
def fromFile (queue : Queue) (path : Path) : List LineGroup :=
  (queue.entries.foldl (fun groups q =>
    match lineOf? path q with
    | some line => addToGroup q.id line groups
    | none => groups) []).map NumberedGroup.group

end Queue

end DeviceLab
