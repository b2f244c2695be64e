import DeviceLab.Device.Selection
import DeviceLab.Text.Numeral

/-!
The pool of devices.

Each registered serial has one slot, in the order of registration.  Allocation takes the device out
of its slot, and a release puts it back and decides whether it is free again.  The device value is
the lease: while a holder has it, its slot is empty, so nobody else can get it.
-/

namespace DeviceLab

open Text

/-- The state of a slot. -/
inductive SlotState
  | free
  | allocated
  | unavailable
  deriving Repr, DecidableEq, Inhabited

def SlotState.label : SlotState → String
  | .free => "free"
  | .allocated => "allocated"
  | .unavailable => "unavailable"

/-- A registered serial, the state of its slot, and the device that stands in it: none while a lease
holds the device. -/
structure Slot where
  serial : String
  state : SlotState
  device : Option Device
  deriving DecidableEq, Inhabited

/-- Whether a slot is free and holds a device that a selection accepts. -/
def Slot.suits (slot : Slot) (s : Selection) : Bool :=
  slot.state == .free && slot.device.any s.accepts

def Slot.vacate (slot : Slot) : Slot :=
  { slot with state := .allocated, device := none }

/-- What a holder reports when it hands a device back. -/
inductive ReturnReport
  | available
  | unavailable
  | unknown
  deriving Repr, DecidableEq, Inhabited

def ReturnReport.label : ReturnReport → String
  | .available => "Available"
  | .unavailable => "Unavailable"
  | .unknown => "UnknownState"

/-- The registered devices, in the order of registration. -/
structure Pool where
  slots : List Slot := []
  deriving DecidableEq, Inhabited

def nullSerial (index : Nat) : String :=
  s!"null-device-{index}"

/-- Whether a serial is that of a generated null device with a number below `count`. -/
def isNullSerialBelow (count : Nat) (serial : String) : Bool :=
  let stem := "null-device-".toList
  let cs := serial.toList
  stem.isPrefixOf cs &&
    match readNatural maxNatural64 (cs.drop stem.length) with
    | .ok n => n < count
    | .error _ => false

namespace Pool

def find? (pool : Pool) (serial : String) : Option Slot :=
  pool.slots.find? (·.serial == serial)

def stateOf? (pool : Pool) (serial : String) : Option SlotState :=
  (pool.find? serial).map Slot.state

def device? (pool : Pool) (serial : String) : Option Device :=
  (pool.find? serial).bind Slot.device

def snapshot (pool : Pool) : List (String × SlotState) :=
  pool.slots.map fun slot => (slot.serial, slot.state)

def count (pool : Pool) (state : SlotState) : Nat :=
  pool.slots.countP fun slot => slot.state == state

/-- The slots with a device put into the slot of a serial, which gets a new state; into a new last
slot if there was none. -/
def put (serial : String) (state : SlotState) (d : Device) : List Slot → List Slot
  | [] => [⟨serial, state, some d⟩]
  | slot :: rest =>
    if slot.serial = serial then { slot with state, device := some d } :: rest
    else slot :: put serial state d rest

/-- Register a device as free.  A serial out of rotation comes back with the new device; one that is
free or leased stays as it is, and the answer is `false`. -/
def register (pool : Pool) (d : Device) : Bool × Pool :=
  match pool.stateOf? d.serial with
  | none | some .unavailable => (true, ⟨put d.serial .free d pool.slots⟩)
  | some .free | some .allocated => (false, pool)

def ofDevices (devices : List Device) : Pool :=
  devices.foldl (fun pool d => (pool.register d).2) {}

/-- Whether a slot holds a free null device whose serial is none of the first `count`. -/
def Surplus (count : Nat) (slot : Slot) : Bool :=
  slot.device.any (fun d => d.isNull && !isNullSerialBelow count slot.serial) && slot.state == .free

/-- Register the null devices numbered below `count` whose serials are unknown. -/
def addNullDevices (pool : Pool) (count : Nat) : Pool :=
  (List.range count).foldl (fun pool index =>
    if (pool.find? (nullSerial index)).isSome then pool
    else (pool.register (Device.ofNull (nullSerial index))).2) pool

/-- Resize the set of generated null devices.  Surplus ones go only while they are free. -/
def setNullCount (pool : Pool) (count : Nat) : Pool :=
  ⟨(pool.addNullDevices count).slots.filter fun slot => !Surplus count slot⟩

def candidate? (pool : Pool) (s : Selection) : Option Device :=
  (pool.slots.find? (·.suits s)).bind Slot.device

/-- The slots after the first free device that a selection accepts was taken out. -/
def claimFirst (s : Selection) : List Slot → List Slot
  | [] => []
  | slot :: rest =>
    if slot.suits s then slot.vacate :: rest else slot :: claimFirst s rest

def allocate (pool : Pool) (s : Selection) : Option (Device × Pool) :=
  (pool.candidate? s).map fun d => (d, ⟨claimFirst s pool.slots⟩)

/-- The state that a returned device gets.  A placeholder is always free again; hardware follows the
report, and the connection where the report does not know. -/
def returnState (d : Device) (report : ReturnReport) : SlotState :=
  if d.isPlaceholder then .free
  else match report with
    | .available => .free
    | .unavailable => .unavailable
    | .unknown =>
      match d.connection with
      | .online => .free
      | .notAvailable => .unavailable

/-- A returned device as it goes into its slot.  One that is free again is recovered fully from now
on. -/
def returned (d : Device) (report : ReturnReport) : Device :=
  match returnState d report with
  | .free => { d with recovery := .available }
  | .allocated | .unavailable => d

def release (pool : Pool) (d : Device) (report : ReturnReport) : Pool :=
  ⟨put d.serial (returnState d report) (returned d report) pool.slots⟩

end Pool

end DeviceLab
