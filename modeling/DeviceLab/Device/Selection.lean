import DeviceLab.Device.Basic

namespace DeviceLab

open Text

/-- The constraints that a command places on its device. -/
structure Selection where
  serials : NameSet := ∅
  excludedSerials : NameSet := ∅
  productTypes : NameSet := ∅
  productDeviceTypes : NameSet := ∅
  properties : Dictionary String := ∅
  emulator : Bool := false
  nullDevice : Bool := false
  deriving DecidableEq, Inhabited

namespace Selection

def allows (names : NameSet) (name? : Option String) : Bool :=
  names.isEmpty || name?.any fun name => decide (name ∈ names)

def accepts (s : Selection) (d : Device) : Bool :=
  allows s.serials (some d.serial) &&
  !decide (d.serial ∈ s.excludedSerials) &&
  allows s.productTypes d.productType? &&
  allows s.productDeviceTypes d.productDeviceType? &&
  s.properties.entries.all (fun e => d.property? e.1 == some e.2) &&
  s.emulator == d.emulator &&
  s.nullDevice == d.isNull

end Selection

end DeviceLab
