import DeviceLab.Proofs.Device.Slots
import DeviceLab.Proofs.Text.Roundtrip
import DeviceLab.Settings
import Mathlib

namespace DeviceLab

open Text

theorem nullSerial_inj {i j : Nat} (h : nullSerial i = nullSerial j) : i = j :=
  Nat.repr_inj.mp ((String.append_right_inj "null-device-").mp h)

theorem toList_nullSerial (index : Nat) :
    (nullSerial index).toList = "null-device-".toList ++ (toString index).toList := by
  rw [← String.toList_append]
  rfl

theorem isNullSerialBelow_nullSerial {index count : Nat} (hmax : index ≤ maxNatural64) :
    isNullSerialBelow count (nullSerial index) = true ↔ index < count := by
  rw [isNullSerialBelow, toList_nullSerial, List.drop_left, readNatural_toString hmax]
  simp

namespace Device

theorem firstOfEach_of_nodup {devices : List Device}
    (h : (devices.map Device.serial).Nodup) : firstOfEach devices = devices := by
  induction devices with
  | nil => rfl
  | cons d rest ih =>
      obtain ⟨hnew, hrest⟩ := List.nodup_cons.mp h
      rw [firstOfEach, ih hrest, List.filter_eq_self.mpr]
      intro e he
      have hne : e.serial ≠ d.serial := fun heq => hnew (heq ▸ List.mem_map_of_mem he)
      simpa using hne

theorem mem_serials_firstOfEach {devices : List Device} {serial : String} :
    serial ∈ (firstOfEach devices).map Device.serial ↔ serial ∈ devices.map Device.serial := by
  constructor
  · exact fun h => ((firstOfEach_sublist devices).map Device.serial).subset h
  · intro h
    induction devices with
    | nil => exact h
    | cons d rest ih =>
        rw [firstOfEach, List.map_cons, List.mem_cons]
        by_cases hd : serial = d.serial
        · exact .inl hd
        · obtain ⟨e, he, rfl⟩ := List.mem_map.mp (ih ((List.mem_cons.mp h).resolve_left hd))
          exact .inr (List.mem_map_of_mem (List.mem_filter.mpr ⟨he, by simpa using hd⟩))

theorem nodup_serials_generated (count : Nat) : ((generated count).map Device.serial).Nodup := by
  rw [generated, List.map_map]
  exact List.nodup_range.map fun i j h => nullSerial_inj h

end Device

namespace Pool

theorem slots_addNullDevices (pool : Pool) (count : Nat) :
    (pool.addNullDevices count).slots = pool.slots ++
      ((Device.generated count).filter (·.serial ∉ pool.serials)).map Slot.holding := by
  rw [addNullDevices_eq_enroll, slots_enroll,
    Device.firstOfEach_of_nodup (Device.nodup_serials_generated count)]

theorem register_of_free {pool : Pool} (hfree : ∀ slot ∈ pool.slots, slot.state = .free)
    {d : Device} (hknown : d.serial ∈ pool.serials) : (pool.register d).2 = pool := by
  obtain ⟨slot, hfind⟩ := Option.isSome_iff_exists.mp (isSome_find?_iff.mpr hknown)
  have hstate : slot.state = .free := hfree slot (List.mem_of_find?_eq_some hfind)
  rw [register, stateOf?, hfind, Option.map_some, hstate]

theorem foldl_register_eq_enroll {pool : Pool} (hfree : ∀ slot ∈ pool.slots, slot.state = .free)
    (devices : List Device) :
    devices.foldl (fun pool d => (pool.register d).2) pool = pool.enroll devices := by
  unfold enroll
  induction devices generalizing pool with
  | nil => rfl
  | cons d rest ih =>
      rw [List.foldl_cons, List.foldl_cons]
      by_cases hknown : d.serial ∈ pool.serials
      · rw [register_of_free hfree hknown, if_pos (isSome_find?_iff.mpr hknown), ih hfree]
      · rw [if_neg (mt isSome_find?_iff.mp hknown)]
        refine ih fun slot hslot => ?_
        rw [slots_register_of_unknown hknown] at hslot
        rcases List.mem_append.mp hslot with hslot | hslot
        · exact hfree slot hslot
        · rw [List.mem_singleton.mp hslot]
          rfl

theorem slots_ofDevices (devices : List Device) :
    (ofDevices devices).slots = (Device.firstOfEach devices).map Slot.holding := by
  have hempty : ∀ slot ∈ ({} : Pool).slots, slot.state = .free := by simp
  have hunknown : (Device.firstOfEach devices).filter (·.serial ∉ ({} : Pool).serials) =
      Device.firstOfEach devices := by
    simp [serials]
  rw [ofDevices, foldl_register_eq_enroll hempty, slots_enroll, hunknown]
  rfl

theorem mem_serials_ofDevices {devices : List Device} {serial : String} :
    serial ∈ (ofDevices devices).serials ↔ serial ∈ devices.map Device.serial := by
  rw [serials, slots_ofDevices, List.map_map]
  exact Device.mem_serials_firstOfEach

end Pool

namespace Settings

variable {settings : Settings}

/-- The devices that settings ask for: the first listed one of each serial, and after them the
generated null devices whose serials are not listed. -/
def inventory (settings : Settings) : List Device :=
  Device.firstOfEach settings.devices ++
    (Device.generated settings.nullDevices).filter fun d =>
      d.serial ∉ settings.devices.map Device.serial

/-- Whether a device is taken away when null devices are generated: a null device whose serial is
not read as that of one of them. -/
def Drops (settings : Settings) (d : Device) : Prop :=
  settings.nullDevices ≠ 0 ∧ d.isNull = true ∧
    isNullSerialBelow settings.nullDevices d.serial = false

instance (settings : Settings) (d : Device) : Decidable (settings.Drops d) :=
  inferInstanceAs (Decidable (_ ∧ _ ∧ _))

theorem slots_buildPool (settings : Settings) :
    settings.buildPool.slots =
      (settings.inventory.filter fun d => ¬settings.Drops d).map Slot.holding := by
  rw [buildPool]
  split
  · rename_i hnone
    have hkept : ∀ d ∈ settings.inventory, decide (¬settings.Drops d) = true := by
      simp [Drops, hnone]
    rw [List.filter_eq_self.mpr hkept, inventory, hnone, Pool.slots_ofDevices]
    simp [Device.generated]
  · rename_i hsome
    have hinventory :
        ((Pool.ofDevices settings.devices).addNullDevices settings.nullDevices).slots =
          settings.inventory.map Slot.holding := by
      simp only [Pool.slots_addNullDevices, Pool.slots_ofDevices, Pool.mem_serials_ofDevices,
        inventory, List.map_append]
    rw [Pool.setNullCount, hinventory, List.filter_map]
    refine congrArg (List.map Slot.holding) (List.filter_congr fun d _ => ?_)
    rw [Function.comp_apply, Bool.eq_iff_iff]
    simp [Pool.Surplus, Slot.holding, Drops, hsome]

theorem not_drops_of_mem_generated (hcount : settings.nullDevices ≤ maxNatural64) {d : Device}
    (hd : d ∈ Device.generated settings.nullDevices) : ¬settings.Drops d := by
  rintro ⟨-, -, hother⟩
  obtain ⟨index, hindex, rfl⟩ := List.mem_map.mp hd
  have hmax := Nat.le_trans (Nat.le_of_lt (List.mem_range.mp hindex)) hcount
  have hbelow := (isNullSerialBelow_nullSerial hmax).mpr (List.mem_range.mp hindex)
  exact Bool.false_ne_true (hother.symm.trans hbelow)

/-- The pool holds the inventory, all of it free, apart from the listed null devices that are taken
away.  So it holds the whole inventory exactly if none is taken away.  The number of null devices
fits into 64 bits, as any that is read does. -/
theorem buildPool_holds_inventory (hcount : settings.nullDevices ≤ maxNatural64) :
    settings.buildPool.slots =
        (settings.inventory.filter fun d => ¬settings.Drops d).map Slot.holding ∧
      (settings.buildPool.slots = settings.inventory.map Slot.holding ↔
        ∀ d ∈ Device.firstOfEach settings.devices, ¬settings.Drops d) := by
  refine ⟨slots_buildPool settings, ?_⟩
  have hinjective : Function.Injective Slot.holding := fun d e h =>
    Option.some.inj (congrArg Slot.device h)
  rw [slots_buildPool, (List.map_injective_iff.mpr hinjective).eq_iff, List.filter_eq_self]
  simp only [decide_eq_true_eq]
  constructor
  · exact fun h d hd => h d (List.mem_append_left _ hd)
  · intro h d hd
    rcases List.mem_append.mp hd with hd | hd
    · exact h d hd
    · exact not_drops_of_mem_generated hcount (List.mem_of_mem_filter hd)

/-- A null device with a serial of its own is lost as soon as null devices are generated. -/
theorem listed_null_device_dropped :
    let settings : Settings := {
      devices := [{ serial := "host-only", kind := .null }]
      nullDevices := 1 }
    settings.inventory = [Device.ofNull "host-only", Device.ofNull "null-device-0"] ∧
      settings.buildPool.slots = [Slot.holding (Device.ofNull "null-device-0")] := by
  decide +kernel

theorem buildPool_holds_inventory_of_all_kinds :
    let settings : Settings := {
      devices := [{ serial := "SER1" }, { serial := "null-device-1", kind := .null },
        { serial := "SER1", kind := .tcp }, { serial := "null-device-2", kind := .stub }]
      nullDevices := 4 }
    settings.nullDevices ≤ maxNatural64 ∧
      settings.buildPool.slots = settings.inventory.map Slot.holding ∧
      settings.inventory.map (fun d => (d.serial, d.kind)) = [("SER1", .real),
        ("null-device-1", .null), ("null-device-2", .stub), ("null-device-0", .null),
        ("null-device-3", .null)] := by
  intro settings
  have hcount : settings.nullDevices ≤ maxNatural64 := by decide
  have hkept : ∀ d ∈ Device.firstOfEach settings.devices, ¬settings.Drops d := by decide +kernel
  exact ⟨hcount, (buildPool_holds_inventory hcount).2.mpr hkept, by decide +kernel⟩

end Settings

end DeviceLab
