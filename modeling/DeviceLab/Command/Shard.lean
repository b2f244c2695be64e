import DeviceLab.Command.Basic
import DeviceLab.Command.Configuration

namespace DeviceLab

open Text

/-- The test methods of each known class, in the order of declaration. -/
abbrev Catalog := Dictionary (List String)

/-- The test methods of a class, none if it is unknown. -/
def Catalog.methods (catalog : Catalog) (testClass : String) : List String :=
  (catalog.get? testClass).getD []

/-- A test method of a class. -/
structure TestCase where
  testClass : String
  method : String
  deriving Repr, DecidableEq

def TestCase.key (t : TestCase) : String :=
  t.testClass ++ "#" ++ t.method

namespace TestTarget

def names (filter : String) (t : TestCase) : Bool :=
  filter == t.testClass || filter == t.key

def selects (target : TestTarget) (t : TestCase) : Bool :=
  (target.includeFilters.isEmpty || target.includeFilters.any (names · t)) &&
    !target.excludeFilters.any (names · t)

/-- The test cases that the target selects, class by class. -/
def cases (target : TestTarget) (catalog : Catalog) : List TestCase :=
  (target.classes.flatMap fun testClass =>
    (catalog.methods testClass).map fun method => ⟨testClass, method⟩).filter target.selects

end TestTarget

namespace Configuration

def unsplit (c : Configuration) : Configuration :=
  { c with options := { c.options with shardCount := none } }

/-- The configuration without a request to split it, for another target. -/
def shard (c : Configuration) (target : TestTarget) : Configuration :=
  { c.unsplit with target }

/-- The part of `hint` that `part` of `total` cases get, rounded down. -/
def proportional (hint part total : Nat) : Nat :=
  if total = 0 then 0 else hint * part / total

def shardsByClass (c : Configuration) (catalog : Catalog) : List Configuration :=
  let cases := c.target.cases catalog
  c.target.classes.map fun testClass =>
    let size := cases.countP (·.testClass == testClass)
    c.shard { c.target with
      classes := [testClass]
      runtimeHint := proportional c.target.runtimeHint size cases.length }

/-- How many of `total` cases each of `count` runs gets. -/
def runSizes (total count : Nat) : List Nat :=
  (List.range count).map fun index =>
    total / count + if index < total % count then 1 else 0

def cut {α : Type} : List Nat → List α → List (List α)
  | [], _ => []
  | size :: sizes, items => items.take size :: cut sizes (items.drop size)

/-- Texts without repetition, each where it first occurs. -/
def distinct (texts : List String) : List String :=
  texts.foldl (fun seen text => if text ∈ seen then seen else seen ++ [text]) []

/-- The shard that runs exactly some of `total` cases. -/
def shardOfRun (c : Configuration) (total : Nat) (run : List TestCase) : Configuration :=
  c.shard { c.target with
    classes := distinct (run.map (·.testClass))
    includeFilters := run.map TestCase.key
    excludeFilters := []
    runtimeHint := proportional c.target.runtimeHint run.length total }

/-- At most `desired` shards of contiguous runs of test cases.  Where no case is left, there are as
many shards as desired and each runs nothing. -/
def shardsByMethod (c : Configuration) (catalog : Catalog) (desired : Nat) : List Configuration :=
  let cases := c.target.cases catalog
  if cases.isEmpty then
    List.replicate desired (c.shard { c.target with runtimeHint := 0 })
  else
    let count := min desired cases.length
    (cut (runSizes cases.length count) cases).map (c.shardOfRun cases.length)

/-- The shards of a configuration; `none` for fewer than two classes, a single method, or when no
shard is desired. -/
def shards? (c : Configuration) (catalog : Catalog) (desired : Nat) :
    Option (List Configuration) :=
  if c.target.classes.length < 2 ∨ c.target.method.isSome ∨ desired = 0 then none
  else match c.target.shardUnit with
    | .byClass => some (c.shardsByClass catalog)
    | .byMethod => some (c.shardsByMethod catalog desired)

end Configuration

namespace Command

/-- Commands for the shards of a command, numbered from `nextId`. -/
def number (c : Command) : Nat → List Configuration → List Command
  | _, [] => []
  | nextId, shard :: rest =>
    { id := nextId, args := shard.toArgs, file := c.file, line := c.line, expected := c.expected }
      :: number c (nextId + 1) rest

@[simp] theorem length_number (c : Command) (nextId : Nat) (shards : List Configuration) :
    (c.number nextId shards).length = shards.length := by
  induction shards generalizing nextId with
  | nil => rfl
  | cons shard rest ih => simp [number, ih]

/-- The shards of a command, with fresh ids from `nextId`; `none` where it cannot be split. -/
def split (c : Command) (catalog : Catalog) (desired nextId : Nat) :
    Except ConfigurationError (Option (List Command)) :=
  (Configuration.ofArgs c.args).map fun configuration =>
    (configuration.shards? catalog desired).map (c.number nextId)

end Command

end DeviceLab
