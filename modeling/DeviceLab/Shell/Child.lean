import DeviceLab.Shell.Signal
import DeviceLab.Shell.State

namespace DeviceLab.Shell

def forever : Nat := 1000000000000000

/-- How a process has ended. -/
structure Ended where
  process : Nat
  stop : Nat
  status : Nat
  signal : Option Nat := none
  deriving Repr, DecidableEq, Inhabited

/-- The process as it begins as a child with a number of its own.  What its parent handles by
commands, it does not handle; what its parent ignores, it ignores. -/
def Process.child (p : Process) (id : Nat) : Process :=
  { p with
    id
    parent := p.id
    begun := p.clock
    reached := 1
    traps := p.traps.filter (·.2.isEmpty)
    pending := []
    jobs := [] }

def Process.ending (p : Process) : Except Halt Unit → Ended
  | .error (.killed signal) =>
    { process := p.id, stop := p.clock, status := signalStatus signal, signal := some signal }
  | .error .endless => { process := p.id, stop := forever, status := 0 }
  | .ok () | .error _ => { process := p.id, stop := min p.clock forever, status := p.status % 256 }

/-- Take down at which channels a process has stayed until its end. -/
def Machine.recordStays (m : Machine) (p : Process) (stop : Nat) : Machine :=
  { m with stays := (p.outlets.map fun channel => { p.stay channel with stop }) ++ m.stays }

/-- Let a child do something from now on.  The parent does not wait for it.  A child without an end
leaves others half of what may still be done. -/
def fork (act : Act Unit) : Act Ended := fun p m =>
  let child := p.child m.nextProcess
  let half := m.budget / 2
  let ((result, child), m) := act child { m with nextProcess := m.nextProcess + 1 }
  let ended := child.ending result
  let m := if ended.stop ≥ forever then { m with budget := max m.budget half } else m
  ((.ok ended, p), m.recordStays child ended.stop)

/-- Whether a process comes from another one, as far as the stays tell; `steps` bounds the
generations. -/
def descends (stays : List Stay) (ancestor : Nat) : Nat → Nat → Bool
  | 0, _ => false
  | steps + 1, process =>
    match stays.find? (·.process == process) with
    | none => false
    | some s => s.parent == ancestor || descends stays ancestor steps s.parent

/-- What is left of the deeds of processes when one of them ends early.  With `wholly` its
descendants end then too; else only those never begin that it would have begun later. -/
def Machine.cutShort (m : Machine) (process time : Nat) (wholly : Bool) : Machine :=
  let generations := m.stays.length + 1
  let begun (id : Nat) : Nat := ((m.stays.find? (·.process == id)).map (·.start)).getD 0
  let ends (id : Nat) : Bool :=
    id == process || (descends m.stays process generations id && (wholly || begun id > time))
  let keeps (chunk : Chunk) : Bool := chunk.time ≤ time || !ends chunk.writer
  { m with
    stays := (m.stays.filter fun s => s.start ≤ time || !ends s.process).map fun s =>
      if ends s.process then { s with stop := min s.stop time } else s
    channels := m.channels.map fun c =>
      { written := c.written.filter keeps, waiting := c.waiting.filter keeps } }

def receive (number : Nat) (time : Nat) : Act Unit := do
  let p ← Act.process
  match p.traps.lookup number, number == killSignal with
  | some "", false => return ()
  | some _, false => set { p with pending := p.pending ++ [number] }
  | _, _ =>
    match signalEffect number with
    | .nothing => return ()
    | .stop => throw .endless
    | .finish =>
      set { p with clock := max p.begun time }
      throw (.killed number)

/-- Act on all signals that others have sent to the process by now. -/
def receiveAll : Act Unit := do
  let p ← Act.process
  let m ← Act.machine
  let mine := m.signals.filter fun s => s.process == p.id && s.time ≤ p.clock
  if mine.isEmpty then return ()
  Act.onMachine fun m => { m with
    signals := m.signals.filter fun s => !(s.process == p.id && s.time ≤ p.clock) }
  mine.reverse.forM fun s => receive s.number s.time

/-- Wait for the end of a child, and answer its status. -/
def awaitEnd (ended : Ended) : Act Nat := do
  if ended.stop ≥ forever then throw .endless
  waitTill ended.stop
  receiveAll
  return ended.status

/-- Send a signal to a process; the answer is whether there is one. -/
def sendSignal (target : Nat) (number : Nat) : Act Bool := do
  let p ← Act.process
  if target = p.id then
    receive number p.clock
    return true
  match p.jobs.find? (·.process == target) with
  | some job =>
    if job.stop > p.clock && number != 0 then
      match signalEffect number with
      | .finish =>
        Act.onMachine fun m => m.cutShort target p.clock false
        let jobs := p.jobs.map fun j =>
          if j.process = target then { j with stop := p.clock, status := signalStatus number } else j
        set { p with jobs }
      | .nothing | .stop => pure ()
    return true
  | none =>
    if target = p.shell ∨ target = p.parent then
      Act.onMachine fun m => { m with
        signals := { process := target, number, time := p.clock } :: m.signals }
      return true
    return false

end DeviceLab.Shell
