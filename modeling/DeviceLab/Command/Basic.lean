import DeviceLab.Path
import DeviceLab.Text.Column

namespace DeviceLab

/-- The line of a command file that a command stands for.  Shards of one line share its group, the
id of the unsplit command. -/
structure FileLine where
  args : List String
  group : Nat
  deriving Repr, DecidableEq, Inhabited

/-- A submitted command.  `expected` is its run budget, `none` for one without end; `counter` counts
its runs; the time is in milliseconds. -/
structure Command where
  id : Nat
  args : List String
  file : Option Path := none
  line : Option FileLine := none
  expected : Option Nat := some 1
  counter : UInt32 := 0
  execTime : Nat := 0
  deriving Repr, DecidableEq, Inhabited

namespace Command

/-- The runs that are on record. -/
def executions (c : Command) : Nat :=
  c.counter.toNat

/-- Record a run.  The counter starts again at nothing after 2³² runs. -/
def recordRun (c : Command) (elapsed : Nat) : Command :=
  { c with counter := c.counter + 1, execTime := c.execTime + elapsed }

def hasRemaining (c : Command) : Bool :=
  c.expected.all fun expected => c.executions < expected

def commandLine (c : Command) : String :=
  Text.spaced c.args

@[simp] theorem recordRun_id (c : Command) (elapsed : Nat) : (c.recordRun elapsed).id = c.id := rfl

theorem executions_lt (c : Command) : c.executions < UInt32.size :=
  c.counter.toNat_lt_size

@[simp] theorem recordRun_executions (c : Command) (elapsed : Nat) :
    (c.recordRun elapsed).executions = (c.executions + 1) % UInt32.size :=
  UInt32.toNat_add c.counter 1

example :
    let c : Command := { id := 1, args := ["smoke"], counter := 0xFFFFFFFF }
    c.executions = 4294967295 ∧ (c.recordRun 0).executions = 0 := by
  decide

end Command

end DeviceLab
