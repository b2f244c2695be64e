namespace DeviceLab

/-- What is done with a command. -/
inductive RunMode
  | oneShot
  | loop
  | dryRun
  | help
  deriving Repr, DecidableEq, Inhabited

namespace RunMode

def label : RunMode → String
  | .oneShot => "one-shot"
  | .loop => "loop"
  | .dryRun => "dry-run"
  | .help => "help"

def isRunnable : RunMode → Bool
  | .oneShot | .loop => true
  | .dryRun | .help => false

end RunMode

/-- What a command is split along. -/
inductive ShardUnit
  | byClass
  | byMethod
  deriving Repr, DecidableEq, Inhabited

def ShardUnit.label : ShardUnit → String
  | .byClass => "class"
  | .byMethod => "method"

def ShardUnit.ofLabel? (text : String) : Option ShardUnit :=
  [ShardUnit.byClass, .byMethod].find? (·.label == text)

@[simp] theorem ShardUnit.ofLabel?_label (unit : ShardUnit) : ofLabel? unit.label = some unit := by
  cases unit <;> decide

/-- The scheduling options of a command.  Times are in milliseconds. -/
structure CommandOptions where
  loop : Bool := false
  minLoopTime : Nat := 0
  maxRunCount : Option Nat := none
  dryRun : Bool := false
  help : Bool := false
  shardCount : Option Nat := none
  deriving Repr, DecidableEq, Inhabited

namespace CommandOptions

def runMode (o : CommandOptions) : RunMode :=
  if o.help then .help
  else if o.dryRun then .dryRun
  else if o.loop then .loop
  else .oneShot

/-- How many runs are expected; `none` is without end. -/
def expectedExecutions (o : CommandOptions) : Option Nat :=
  if o.loop then o.maxRunCount else some 1

end CommandOptions

end DeviceLab
