import DeviceLab.Proofs.Device.Inventory
import DeviceLab.Proofs.Device.Rotation

namespace DeviceLab

open Text

/-- A device is a null device exactly if it has the serial of a generated one, whose number fits
into 64 bits. -/
def Device.NamedByKind (d : Device) : Prop :=
  d.kind = .null ↔ ∃ index ≤ maxNatural64, d.serial = nullSerial index

theorem Device.NamedByKind.congr {d e : Device} (h : d.NamedByKind) (hserial : e.serial = d.serial)
    (hkind : e.kind = d.kind) : e.NamedByKind := by
  rw [NamedByKind, hserial, hkind]
  exact h

theorem Device.namedByKind_of_mem_generated {count : Nat} (hcount : count ≤ maxNatural64)
    {d : Device} (hd : d ∈ generated count) : d.NamedByKind := by
  obtain ⟨index, hindex, rfl⟩ := List.mem_map.mp hd
  have hle : index ≤ maxNatural64 := Nat.le_trans (Nat.le_of_lt (List.mem_range.mp hindex)) hcount
  exact ⟨fun _ => ⟨index, hle, rfl⟩, fun _ => rfl⟩

theorem Pool.slots_setNullCount (pool : Pool) {count : Nat} (hcount : count ≤ maxNatural64) :
    (pool.setNullCount count).slots = pool.slots.filter (fun slot => !Surplus count slot) ++
      ((Device.generated count).filter (·.serial ∉ pool.serials)).map Slot.holding := by
  have hadded : ∀ slot ∈ ((Device.generated count).filter (·.serial ∉ pool.serials)).map
      Slot.holding, (!Surplus count slot) = true := by
    intro slot hslot
    obtain ⟨d, hd, rfl⟩ := List.mem_map.mp hslot
    obtain ⟨index, hindex, rfl⟩ := List.mem_map.mp (List.mem_of_mem_filter hd)
    rw [List.mem_range] at hindex
    have hbelow := (isNullSerialBelow_nullSerial
      (Nat.le_trans (Nat.le_of_lt hindex) hcount)).mpr hindex
    simp [Surplus, Slot.holding, Device.ofNull, hbelow]
  rw [setNullCount, slots_addNullDevices, List.filter_append, List.filter_eq_self.mpr hadded]

namespace Custody

variable {c : Custody} {a : Act} {count : Nat}

/-- The devices at hand: those in their slots and those that are leased. -/
def devices (c : Custody) : List Device :=
  c.pool.slots.filterMap Slot.device ++ c.leases

theorem mem_devices_of_slot {slot : Slot} {d : Device} (hslot : slot ∈ c.pool.slots)
    (hd : slot.device = some d) : d ∈ c.devices :=
  List.mem_append_left _ (List.mem_filterMap.mpr ⟨slot, hslot, hd⟩)

theorem mem_devices_of_lease {d : Device} (hd : d ∈ c.leases) : d ∈ c.devices :=
  List.mem_append_right _ hd

theorem exists_of_mem_devices_handBack (h : c.InOrder) {d : Device} {report : ReturnReport}
    {e : Device} (he : e ∈ (c.handBack d report).devices) :
    ∃ d ∈ c.devices, e.serial = d.serial ∧ e.kind = d.kind := by
  rw [handBack] at he
  split at he
  · rename_i hd
    rcases List.mem_append.mp he with he | he
    · obtain ⟨slot, hslot, hdevice⟩ := List.mem_filterMap.mp he
      rcases (Pool.mem_put_iff h.serials_nodup).mp hslot with rfl | ⟨hslot, -⟩
      · obtain rfl := Option.some.inj hdevice
        exact ⟨d, mem_devices_of_lease hd, Pool.returned_serial .., Pool.returned_kind ..⟩
      · exact ⟨e, mem_devices_of_slot hslot hdevice, rfl, rfl⟩
    · exact ⟨e, mem_devices_of_lease (List.mem_of_mem_erase he), rfl, rfl⟩
  · exact ⟨e, he, rfl, rfl⟩

theorem exists_of_mem_devices_act (h : c.InOrder) {e : Device} (he : e ∈ (c.act a).devices) :
    (∃ d ∈ c.devices, e.serial = d.serial ∧ e.kind = d.kind) ∨ a = .register e ∨
      ∃ count, a = .setNullCount count ∧ e ∈ Device.generated count := by
  have hold : e ∈ c.devices → ∃ d ∈ c.devices, e.serial = d.serial ∧ e.kind = d.kind :=
    fun he => ⟨e, he, rfl, rfl⟩
  cases a with
  | register d =>
      rcases List.mem_append.mp he with he | he
      · obtain ⟨slot, hslot, hdevice⟩ := List.mem_filterMap.mp he
        change slot ∈ (c.pool.register d).2.slots at hslot
        rcases Pool.register_cases h.serials_nodup d with ⟨-, hreg⟩ | ⟨-, hreg⟩
        · rw [hreg] at hslot
          exact .inl (hold (mem_devices_of_slot hslot hdevice))
        · rw [hreg] at hslot
          rcases (Pool.mem_put_iff h.serials_nodup).mp hslot with rfl | ⟨hslot, -⟩
          · exact .inr (.inl (congrArg Act.register (Option.some.inj hdevice)))
          · exact .inl (hold (mem_devices_of_slot hslot hdevice))
      · exact .inl (hold (mem_devices_of_lease he))
  | setNullCount count =>
      rcases List.mem_append.mp he with he | he
      · obtain ⟨slot, hslot, hdevice⟩ := List.mem_filterMap.mp he
        have hadded := List.mem_of_mem_filter hslot
        rw [Pool.slots_addNullDevices] at hadded
        rcases List.mem_append.mp hadded with hslot | hnew
        · exact .inl (hold (mem_devices_of_slot hslot hdevice))
        · obtain ⟨d, hd, rfl⟩ := List.mem_map.mp hnew
          obtain rfl := Option.some.inj hdevice
          exact .inr (.inr ⟨count, rfl, List.mem_of_mem_filter hd⟩)
      · exact .inl (hold (mem_devices_of_lease he))
  | allocate s =>
      left
      rw [act] at he
      split at he
      · exact hold he
      · rename_i d pool halloc
        obtain ⟨taken, htaken, -, hdevice, -, hmem⟩ :=
          Pool.exists_vacated_of_allocate h.serials_nodup halloc
        rcases List.mem_append.mp he with he | he
        · obtain ⟨slot, hslot, hheld⟩ := List.mem_filterMap.mp he
          rcases (hmem slot).mp hslot with rfl | ⟨hslot, -⟩
          · cases hheld
          · exact hold (mem_devices_of_slot hslot hheld)
        · rcases List.mem_cons.mp he with rfl | he
          · exact hold (mem_devices_of_slot htaken hdevice)
          · exact hold (mem_devices_of_lease he)
  | giveBack d report => exact .inl (exists_of_mem_devices_handBack h he)
  | drop d => exact .inl (exists_of_mem_devices_handBack h he)
  | edit d edited =>
      left
      rw [act] at he
      split at he
      · rename_i hedit
        obtain ⟨hd, hserial, hkind⟩ := hedit
        rcases List.mem_append.mp he with he | he
        · exact hold (List.mem_append_left _ he)
        · rcases List.mem_cons.mp he with rfl | he
          · exact ⟨d, mem_devices_of_lease hd, hserial, hkind⟩
          · exact hold (mem_devices_of_lease (List.mem_of_mem_erase he))
      · exact hold he

/-- All devices at hand are named by their kind. -/
def NamedByKind (c : Custody) : Prop :=
  ∀ d ∈ c.devices, d.NamedByKind

/-- Whatever devices an act brings in are named by their kind. -/
def Act.NamesByKind : Act → Prop
  | .register d => d.NamedByKind
  | .setNullCount count => count ≤ maxNatural64
  | .allocate _ | .giveBack .. | .drop _ | .edit .. => True

theorem InOrder.nodup_serials_devices (h : c.InOrder) : (c.devices.map Device.serial).Nodup := by
  have hslots : ((c.pool.slots.filterMap Slot.device).map Device.serial).Nodup :=
    (h.serials_devices_sublist).nodup h.serials_nodup
  rw [devices, List.map_append]
  refine List.Nodup.append hslots h.leases_nodup fun serial hstands hleased => ?_
  obtain ⟨d, hd, rfl⟩ := List.mem_map.mp hstands
  obtain ⟨slot, hslot, hdevice⟩ := List.mem_filterMap.mp hd
  rw [h.serial_device slot hslot d hdevice, ← h.state_iff_mem hslot,
    h.allocated_iff slot hslot, hdevice] at hleased
  cases hleased

/-- The leases are in order, all devices at hand are named by their kind, and what is out of
rotation is hardware. -/
structure Tidy (c : Custody) : Prop where
  inOrder : c.InOrder
  named : c.NamedByKind
  hardware : ∀ slot ∈ c.pool.slots, slot.state = .unavailable →
    ∃ d, slot.device = some d ∧ d.kind = .real

/-- The slot is free and holds a null device with a number from `count` on. -/
def Exceeds (count : Nat) (slot : Slot) : Prop :=
  slot.state = .free ∧ ∃ d, slot.device = some d ∧ d.kind = .null ∧
    ∃ index ≥ count, slot.serial = nullSerial index

/-- The serial is that of a null device that stands free in its slot. -/
def HasFreeNull (c : Custody) (serial : String) : Prop :=
  ∃ slot ∈ c.pool.slots, slot.serial = serial ∧ slot.state = .free ∧
    ∃ d, slot.device = some d ∧ d.kind = .null

theorem tidy_empty : ({} : Custody).Tidy :=
  ⟨Pool.lends_empty, by simp [NamedByKind, devices], by simp⟩

namespace Tidy

theorem act (h : c.Tidy) (ha : a.NamesByKind) : (c.act a).Tidy where
  inOrder := h.inOrder.act a
  named e he := by
    rcases exists_of_mem_devices_act h.inOrder he with
      ⟨d, hd, hserial, hkind⟩ | rfl | ⟨count, rfl, hnew⟩
    · exact (h.named d hd).congr hserial hkind
    · exact ha
    · exact Device.namedByKind_of_mem_generated ha hnew
  hardware := lasts_real.act h.inOrder h.hardware fun _ _ => nofun

theorem run {acts : List Act} (h : c.Tidy) (hacts : ∀ a ∈ acts, a.NamesByKind) :
    (c.run acts).Tidy := by
  induction acts generalizing c with
  | nil => exact h
  | cons a rest ih =>
      exact ih (h.act (hacts a List.mem_cons_self)) fun b hb => hacts b (List.mem_cons_of_mem _ hb)

theorem surplus_iff_exceeds (h : c.Tidy) {slot : Slot} (hslot : slot ∈ c.pool.slots) :
    Pool.Surplus count slot = true ↔ Exceeds count slot := by
  simp only [Pool.Surplus, Bool.and_eq_true, Option.any_eq_true, beq_iff_eq, Device.isNull,
    Bool.not_eq_true']
  have hnumber : ∀ d, slot.device = some d → d.kind = .null →
      ∃ index ≤ maxNatural64, slot.serial = nullSerial index := by
    intro d hd hnull
    rw [← h.inOrder.serial_device slot hslot d hd]
    exact (h.named d (mem_devices_of_slot hslot hd)).mp hnull
  constructor
  · rintro ⟨⟨d, hd, hnull, hbelow⟩, hfree⟩
    obtain ⟨index, hmax, hserial⟩ := hnumber d hd hnull
    refine ⟨hfree, d, hd, hnull, index, Nat.le_of_not_lt fun hlt => ?_, hserial⟩
    rw [hserial, (isNullSerialBelow_nullSerial hmax).mpr hlt] at hbelow
    cases hbelow
  · rintro ⟨hfree, d, hd, hnull, index, hle, hserial⟩
    obtain ⟨other, hmax, hother⟩ := hnumber d hd hnull
    obtain rfl := nullSerial_inj (hserial.symm.trans hother)
    refine ⟨⟨d, hd, hnull, ?_⟩, hfree⟩
    rw [hserial, Bool.eq_false_iff, ne_eq, isNullSerialBelow_nullSerial hmax]
    exact Nat.not_lt.mpr hle

theorem free_of_null (h : c.Tidy) {slot : Slot} (hslot : slot ∈ c.pool.slots) {d : Device}
    (hd : slot.device = some d) (hnull : d.kind = .null) : slot.state = .free := by
  cases hstate : slot.state with
  | free => rfl
  | allocated =>
      rw [(h.inOrder.allocated_iff slot hslot).mp hstate] at hd
      cases hd
  | unavailable =>
      obtain ⟨e, he, hreal⟩ := h.hardware slot hslot hstate
      obtain rfl : e = d := Option.some.inj (he.symm.trans hd)
      rw [hnull] at hreal
      cases hreal

theorem hasFreeNull_of_known (h : c.Tidy) {index : Nat} (hle : index ≤ maxNatural64)
    (hknown : nullSerial index ∈ c.pool.serials)
    (hleased : nullSerial index ∉ c.leases.map Device.serial) :
    c.HasFreeNull (nullSerial index) := by
  obtain ⟨slot, hslot, hserial⟩ := Pool.mem_serials.mp hknown
  have hlent : slot.device ≠ none := by
    rwa [ne_eq, ← h.inOrder.allocated_iff slot hslot, h.inOrder.state_iff_mem hslot, hserial]
  obtain ⟨d, hd⟩ := Option.ne_none_iff_exists'.mp hlent
  have hnull : d.kind = .null := by
    refine (h.named d (mem_devices_of_slot hslot hd)).mpr ⟨index, hle, ?_⟩
    rw [h.inOrder.serial_device slot hslot d hd, hserial]
  exact ⟨slot, hslot, hserial, h.free_of_null hslot hd hnull, d, hd, hnull⟩

/-- The free null devices after a resize are those with the numbers asked for, but for what is
leased. -/
theorem hasFreeNull_setNullCount_iff (h : c.Tidy) (hcount : count ≤ maxNatural64)
    {serial : String} :
    (c.act (.setNullCount count)).HasFreeNull serial ↔
      ∃ index < count, serial = nullSerial index ∧ serial ∉ c.leases.map Device.serial := by
  have hslots : (c.act (.setNullCount count)).pool.slots = _ := c.pool.slots_setNullCount hcount
  rw [HasFreeNull, hslots]
  constructor
  · rintro ⟨slot, hslot, rfl, hfree, d, hd, hnull⟩
    rcases List.mem_append.mp hslot with hslot | hslot
    · obtain ⟨hslot, hkept⟩ := List.mem_filter.mp hslot
      rw [Bool.not_eq_true', Bool.eq_false_iff, ne_eq, h.surplus_iff_exceeds hslot] at hkept
      have hleased : slot.serial ∉ c.leases.map Device.serial := by
        rw [← h.inOrder.state_iff_mem hslot, hfree]
        simp
      obtain ⟨index, -, hserial⟩ := (h.named d (mem_devices_of_slot hslot hd)).mp hnull
      rw [h.inOrder.serial_device slot hslot d hd] at hserial
      refine ⟨index, Nat.lt_of_not_le fun hle => ?_, hserial, hleased⟩
      exact hkept ⟨hfree, d, hd, hnull, index, hle, hserial⟩
    · obtain ⟨e, he, rfl⟩ := List.mem_map.mp hslot
      obtain ⟨hgenerated, hunknown⟩ := List.mem_filter.mp he
      obtain ⟨index, hindex, rfl⟩ := List.mem_map.mp hgenerated
      refine ⟨index, List.mem_range.mp hindex, rfl, fun hleased => ?_⟩
      obtain ⟨other, hother, hserial⟩ := List.mem_map.mp hleased
      have hmem := h.inOrder.serial_mem hother
      rw [hserial] at hmem
      exact of_decide_eq_true hunknown hmem
  · rintro ⟨index, hindex, rfl, hleased⟩
    by_cases hknown : nullSerial index ∈ c.pool.serials
    · have hle : index ≤ maxNatural64 := Nat.le_trans (Nat.le_of_lt hindex) hcount
      obtain ⟨slot, hslot, hserial, hfree, d, hd, hnull⟩ :=
        h.hasFreeNull_of_known hle hknown hleased
      refine ⟨slot, List.mem_append_left _ (List.mem_filter.mpr ⟨hslot, ?_⟩), hserial, hfree, d, hd,
        hnull⟩
      rw [Bool.not_eq_true', Bool.eq_false_iff, ne_eq, h.surplus_iff_exceeds hslot]
      rintro ⟨-, -, -, -, other, hother, hsame⟩
      obtain rfl := nullSerial_inj (hserial.symm.trans hsame)
      exact Nat.not_lt.mpr hother hindex
    · refine ⟨Slot.holding (Device.ofNull (nullSerial index)), List.mem_append_right _ ?_, rfl, rfl,
        _, rfl, rfl⟩
      refine List.mem_map_of_mem (List.mem_filter.mpr ⟨?_, decide_eq_true hknown⟩)
      exact List.mem_map_of_mem (List.mem_range.mpr hindex)

theorem nullSerial_mem_serials_setNullCount (h : c.Tidy) (hcount : count ≤ maxNatural64)
    {index : Nat} (hindex : index < count) :
    nullSerial index ∈ (c.act (.setNullCount count)).pool.serials := by
  by_cases hleased : nullSerial index ∈ c.leases.map Device.serial
  · obtain ⟨d, hd, hserial⟩ := List.mem_map.mp hleased
    have hresized : (c.act (.setNullCount count)).InOrder := h.inOrder.act _
    exact hserial ▸ hresized.serial_mem hd
  · obtain ⟨slot, hslot, hserial, -⟩ :=
      (h.hasFreeNull_setNullCount_iff hcount).mpr ⟨index, hindex, rfl, hleased⟩
    exact Pool.mem_serials.mpr ⟨slot, hslot, hserial⟩

theorem setNullCount_idem (h : c.Tidy) (hcount : count ≤ maxNatural64) :
    (c.act (.setNullCount count)).act (.setNullCount count) = c.act (.setNullCount count) := by
  let resized := c.act (.setNullCount count)
  have hresized : resized.Tidy := h.act hcount
  have hkept : resized.pool.slots.filter (fun slot => !Pool.Surplus count slot) =
      resized.pool.slots := by
    rw [List.filter_eq_self]
    intro slot hslot
    rw [Bool.not_eq_true', Bool.eq_false_iff, ne_eq, hresized.surplus_iff_exceeds hslot]
    rintro ⟨hfree, d, hd, hnull, index, hle, hserial⟩
    obtain ⟨other, hother, hsame, -⟩ :=
      (h.hasFreeNull_setNullCount_iff hcount).mp ⟨slot, hslot, rfl, hfree, d, hd, hnull⟩
    obtain rfl := nullSerial_inj (hserial.symm.trans hsame)
    exact Nat.not_lt.mpr hle hother
  have hmissing : (Device.generated count).filter (·.serial ∉ resized.pool.serials) = [] := by
    rw [List.filter_eq_nil_iff]
    intro d hd
    obtain ⟨index, hindex, rfl⟩ := List.mem_map.mp hd
    rw [decide_eq_true_eq, not_not]
    exact h.nullSerial_mem_serials_setNullCount hcount (List.mem_range.mp hindex)
  have hslots := resized.pool.slots_setNullCount hcount
  rw [hkept, hmissing, List.map_nil, List.append_nil] at hslots
  exact congrArg (fun slots => Custody.mk ⟨slots⟩ resized.leases) hslots

theorem exists_null_iff_hasFreeNull (h : c.Tidy) (hreturned : ∀ d ∈ c.leases, d.kind ≠ .null)
    {serial : String} :
    (∃ d ∈ c.devices, d.kind = .null ∧ d.serial = serial) ↔ c.HasFreeNull serial := by
  constructor
  · rintro ⟨d, hd, hnull, rfl⟩
    rcases List.mem_append.mp hd with hd | hd
    · obtain ⟨slot, hslot, hdevice⟩ := List.mem_filterMap.mp hd
      exact ⟨slot, hslot, (h.inOrder.serial_device slot hslot d hdevice).symm,
        h.free_of_null hslot hdevice hnull, d, hdevice, hnull⟩
    · exact absurd hnull (hreturned d hd)
  · rintro ⟨slot, hslot, rfl, -, d, hd, hnull⟩
    exact ⟨d, mem_devices_of_slot hslot hd, hnull, h.inOrder.serial_device slot hslot d hd⟩

theorem serials_nulls_setNullCount (h : c.Tidy) (hcount : count ≤ maxNatural64)
    (hreturned : ∀ d ∈ c.leases, d.kind ≠ .null) :
    (((c.act (.setNullCount count)).devices.filter Device.isNull).map Device.serial).Perm
      ((List.range count).map nullSerial) := by
  have hresized : (c.act (.setNullCount count)).Tidy := h.act hcount
  rw [List.perm_ext_iff_of_nodup
    ((List.filter_sublist.map _).nodup hresized.inOrder.nodup_serials_devices)
    (List.nodup_range.map fun i j heq => nullSerial_inj heq)]
  intro serial
  have hnull : serial ∈ ((c.act (.setNullCount count)).devices.filter Device.isNull).map
      Device.serial ↔ ∃ d ∈ (c.act (.setNullCount count)).devices, d.kind = .null ∧
        d.serial = serial := by
    simp [Device.isNull, and_assoc]
  have hnumber : serial ∈ (List.range count).map nullSerial ↔
      ∃ index < count, serial = nullSerial index := by
    simp [eq_comm]
  rw [hnull, hnumber, hresized.exists_null_iff_hasFreeNull hreturned,
    h.hasFreeNull_setNullCount_iff hcount]
  constructor
  · rintro ⟨index, hindex, heq, -⟩
    exact ⟨index, hindex, heq⟩
  · rintro ⟨index, hindex, rfl⟩
    refine ⟨index, hindex, rfl, fun hleased => ?_⟩
    obtain ⟨d, hd, hserial⟩ := List.mem_map.mp hleased
    have hle : index ≤ maxNatural64 := Nat.le_trans (Nat.le_of_lt hindex) hcount
    exact hreturned d hd ((h.named d (mem_devices_of_lease hd)).mpr ⟨index, hle, hserial⟩)

end Tidy

/-- Resizing the generated null devices is exact, however a pool has been used, while exactly the
null devices have generated serials.  The slots that go are those of free null devices with a number
that is not asked for; all others stay as they are and in their order, and what is missing follows
them in the order of the numbers.  After that the free null devices are those asked for, but for
what is leased, and resizing once more changes nothing.  Whatever is done later, as soon as no null
device is leased any more, a resize leaves exactly the null devices asked for. -/
theorem setNullCount_exact (acts : List Act) (hnamed : (({} : Custody).run acts).NamedByKind)
    {count : Nat} (hcount : count ≤ maxNatural64) :
    let c := ({} : Custody).run acts
    let resized := c.act (.setNullCount count)
    (∃ kept : List Slot, kept.Sublist c.pool.slots ∧
      (∀ slot ∈ c.pool.slots, slot ∉ kept ↔ Exceeds count slot) ∧
      resized.pool.slots = kept ++
        ((Device.generated count).filter (·.serial ∉ c.pool.serials)).map Slot.holding) ∧
    resized.leases = c.leases ∧
    (∀ serial, resized.HasFreeNull serial ↔
      ∃ index < count, serial = nullSerial index ∧ serial ∉ c.leases.map Device.serial) ∧
    resized.act (.setNullCount count) = resized ∧
    ∀ later, (∀ a ∈ later, a.NamesByKind) →
      (∀ d ∈ (resized.run later).leases, d.kind ≠ .null) →
      ((((resized.run later).act (.setNullCount count)).devices.filter Device.isNull).map
        Device.serial).Perm ((List.range count).map nullSerial) := by
  intro c resized
  have hempty : ({} : Custody).InOrder := Pool.lends_empty
  have h : c.Tidy :=
    ⟨hempty.run acts, hnamed, lasts_real.run hempty (by simp) fun _ _ => nofun⟩
  refine ⟨⟨_, List.filter_sublist, ?_, c.pool.slots_setNullCount hcount⟩, rfl, ?_,
    h.setNullCount_idem hcount, ?_⟩
  · intro slot hslot
    rw [← h.surplus_iff_exceeds hslot]
    simp [hslot]
  · intro serial
    exact h.hasFreeNull_setNullCount_iff hcount
  · intro later hlater hreturned
    have hresized : resized.Tidy := h.act hcount
    exact (hresized.run hlater).serials_nulls_setNullCount hcount hreturned

theorem setNullCount_exact_of_leased :
    let null : Selection := { nullDevice := true }
    let acts : List Act :=
      [.register { serial := "SER1" }, .setNullCount 3, .allocate null, .allocate null]
    let later : List Act := [.drop (Device.ofNull "null-device-0"),
      .drop (Device.ofNull "null-device-1")]
    let c := ({} : Custody).run acts
    let resized := c.act (.setNullCount 1)
    c.NamedByKind ∧ (∀ a ∈ later, a.NamesByKind) ∧ 1 ≤ maxNatural64 ∧
      (∀ d ∈ (resized.run later).leases, d.kind ≠ .null) ∧
      resized.pool.serials = ["SER1", "null-device-0", "null-device-1"] ∧
      resized.act (.setNullCount 1) = resized ∧
      ((((resized.run later).act (.setNullCount 1)).devices.filter Device.isNull).map
        Device.serial).Perm ((List.range 1).map nullSerial) := by
  intro null acts later c resized
  have hcount : 1 ≤ maxNatural64 := by decide
  have hhardware : ({ serial := "SER1" } : Device).NamedByKind := by
    refine ⟨nofun, ?_⟩
    rintro ⟨index, -, hserial⟩
    have hlist := congrArg (fun text => text.toList.head?) hserial
    simp [toList_nullSerial] at hlist
  have hnamed : c.NamedByKind := by
    refine (tidy_empty.run ?_).named
    intro a ha
    simp only [acts, List.mem_cons, List.not_mem_nil, or_false] at ha
    rcases ha with rfl | rfl | rfl | rfl
    · exact hhardware
    · change 3 ≤ maxNatural64
      decide
    · trivial
    · trivial
  have hlater : ∀ a ∈ later, a.NamesByKind := by
    intro a ha
    simp only [later, List.mem_cons, List.not_mem_nil, or_false] at ha
    rcases ha with rfl | rfl <;> trivial
  have hreturned : ∀ d ∈ (resized.run later).leases, d.kind ≠ .null := by decide +kernel
  obtain ⟨-, -, -, hagain, hafter⟩ := setNullCount_exact acts hnamed hcount
  exact ⟨hnamed, hlater, hcount, hreturned, by decide +kernel, hagain,
    hafter later hlater hreturned⟩

end Custody

end DeviceLab
