import DeviceLab.Text.Ordered

namespace DeviceLab

open Text

/-- What sort of target a device is. -/
inductive DeviceKind
  | real
  | stub
  | tcp
  | null
  deriving Repr, DecidableEq, Inhabited

namespace DeviceKind

def label : DeviceKind → String
  | .real => "real"
  | .stub => "stub"
  | .tcp => "tcp"
  | .null => "null"

def ofLabel? (text : String) : Option DeviceKind :=
  [DeviceKind.real, .stub, .tcp, .null].find? (·.label == text)

/-- Whether devices of this kind stand for something other than hardware. -/
def isPlaceholder : DeviceKind → Bool
  | .real => false
  | .stub | .tcp | .null => true

end DeviceKind

/-- The connection to a device as its holder last saw it. -/
inductive Connection
  | online
  | notAvailable
  deriving Repr, DecidableEq, Inhabited

def Connection.label : Connection → String
  | .online => "Online"
  | .notAvailable => "NotAvailable"

/-- How far the transport should go to recover a device. -/
inductive RecoveryMode
  | available
  | onlineOnly
  | never
  deriving Repr, DecidableEq, Inhabited

def RecoveryMode.label : RecoveryMode → String
  | .available => "Available"
  | .onlineOnly => "OnlineOnly"
  | .never => "None"

def boardProperty : String := "ro.product.board"

def deviceNameProperty : String := "ro.product.device"

/-- A target that commands run on. -/
structure Device where
  serial : String
  kind : DeviceKind := .real
  emulator : Bool := false
  properties : Dictionary String := ∅
  connection : Connection := .online
  recovery : RecoveryMode := .available
  deriving DecidableEq, Inhabited

namespace Device

/-- Whether the device stands for something other than hardware. -/
def isPlaceholder (d : Device) : Bool :=
  d.kind.isPlaceholder

/-- Whether the device is a stand-in for commands that need none. -/
def isNull (d : Device) : Bool :=
  d.kind == .null

/-- The value of a property; an empty value counts as set. -/
def property? (d : Device) (key : String) : Option String :=
  d.properties.get? key

def productDeviceType? (d : Device) : Option String :=
  d.property? deviceNameProperty

/-- The board name, or the device name where the board name is missing or empty. -/
def productType? (d : Device) : Option String :=
  match d.property? boardProperty with
  | some board => if board = "" then d.productDeviceType? else some board
  | none => d.productDeviceType?

def label (d : Device) : String :=
  s!"{d.serial} ({d.kind.label})"

def ofNull (serial : String) : Device :=
  { serial, kind := .null }

end Device

/-- A change that the holder of a device may make to it. -/
inductive DeviceEdit
  | connection (c : Connection)
  | recovery (r : RecoveryMode)
  | property (key value : String)
  deriving Repr, DecidableEq

/-- The device after a change; serial, kind and emulator flag stay. -/
def Device.edit (d : Device) : DeviceEdit → Device
  | .connection c => { d with connection := c }
  | .recovery r => { d with recovery := r }
  | .property key value => { d with properties := d.properties.insert key value }

@[simp] theorem Device.edit_serial (d : Device) (e : DeviceEdit) :
    (d.edit e).serial = d.serial := by
  cases e <;> rfl

@[simp] theorem Device.edit_kind (d : Device) (e : DeviceEdit) : (d.edit e).kind = d.kind := by
  cases e <;> rfl

end DeviceLab
