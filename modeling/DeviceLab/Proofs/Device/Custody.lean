import DeviceLab.Proofs.Device.Slots
import Mathlib.Data.List.Perm.Basic

/-!
Who has which device.

A device is either in its slot or with exactly one holder.  `Lends` says so of a pool and the
devices of all live leases, and every operation keeps it.
-/

namespace DeviceLab.Pool

/-- The pool is in order and has lent out exactly the devices of the given leases. -/
structure Lends (pool : Pool) (leases : List Device) : Prop where
  serials_nodup : pool.serials.Nodup
  serial_device : ∀ slot ∈ pool.slots, ∀ d, slot.device = some d → d.serial = slot.serial
  allocated_iff : ∀ slot ∈ pool.slots, slot.state = .allocated ↔ slot.device = none
  leases_nodup : (leases.map Device.serial).Nodup
  mem_leases_iff : ∀ serial, serial ∈ leases.map Device.serial ↔
    ∃ slot ∈ pool.slots, slot.serial = serial ∧ slot.state = .allocated

variable {pool : Pool} {leases : List Device}

theorem lends_empty : Lends {} [] where
  serials_nodup := List.nodup_nil
  serial_device := by simp
  allocated_iff := by simp
  leases_nodup := List.nodup_nil
  mem_leases_iff := by simp

namespace Lends

theorem congr (h : Lends pool leases) {other : List Device}
    (hperm : (leases.map Device.serial).Perm (other.map Device.serial)) : Lends pool other where
  serials_nodup := h.serials_nodup
  serial_device := h.serial_device
  allocated_iff := h.allocated_iff
  leases_nodup := hperm.nodup h.leases_nodup
  mem_leases_iff serial := hperm.mem_iff.symm.trans (h.mem_leases_iff serial)

theorem edit (h : Lends pool leases) {d edited : Device} (hd : d ∈ leases)
    (hserial : edited.serial = d.serial) : Lends pool (edited :: leases.erase d) := by
  refine h.congr ?_
  rw [List.map_cons, hserial, ← List.map_cons]
  exact (List.perm_cons_erase hd).map Device.serial

theorem exists_slot (h : Lends pool leases) {d : Device} (hd : d ∈ leases) :
    ∃ slot ∈ pool.slots, slot.serial = d.serial ∧ slot.state = .allocated :=
  (h.mem_leases_iff d.serial).mp (List.mem_map_of_mem hd)

theorem serial_mem (h : Lends pool leases) {d : Device} (hd : d ∈ leases) :
    d.serial ∈ pool.serials := by
  obtain ⟨slot, hslot, hserial, -⟩ := h.exists_slot hd
  exact mem_serials.mpr ⟨slot, hslot, hserial⟩

theorem serials_devices_sublist (h : Lends pool leases) :
    ((pool.slots.filterMap Slot.device).map Device.serial).Sublist pool.serials := by
  have hsublist : ∀ slots : List Slot,
      (∀ slot ∈ slots, ∀ d, slot.device = some d → d.serial = slot.serial) →
      ((slots.filterMap Slot.device).map Device.serial).Sublist (slots.map Slot.serial) := by
    intro slots hslots
    induction slots with
    | nil => exact List.Sublist.refl _
    | cons slot rest ih =>
        have hrest := ih fun other hother => hslots other (List.mem_cons_of_mem _ hother)
        cases hd : slot.device with
        | none =>
            rw [List.filterMap_cons_none hd, List.map_cons]
            exact hrest.cons _
        | some d =>
            rw [List.filterMap_cons_some hd, List.map_cons, List.map_cons,
              hslots slot List.mem_cons_self d hd]
            exact hrest.cons_cons _
  exact hsublist pool.slots h.serial_device

theorem state_iff_mem (h : Lends pool leases) {slot : Slot} (hslot : slot ∈ pool.slots) :
    slot.state = .allocated ↔ slot.serial ∈ leases.map Device.serial := by
  rw [h.mem_leases_iff]
  constructor
  · intro hstate
    exact ⟨slot, hslot, rfl, hstate⟩
  · rintro ⟨other, hother, hserial, hstate⟩
    rwa [← eq_of_serial_eq h.serials_nodup hother hslot hserial]

theorem state_iff_countP (h : Lends pool leases) {slot : Slot} (hslot : slot ∈ pool.slots) :
    slot.state = .allocated ↔ leases.countP (·.serial == slot.serial) = 1 := by
  rw [h.state_iff_mem hslot]
  have hcount : leases.countP (·.serial == slot.serial) =
      (leases.map Device.serial).count slot.serial := by
    rw [List.count_eq_countP, List.countP_map]
    rfl
  rw [hcount]
  exact ⟨List.count_eq_one_of_mem h.leases_nodup, fun hone =>
    List.count_pos_iff.mp (hone ▸ Nat.zero_lt_one)⟩

/-- A device goes into a slot that was not lent out, or comes back into its own: both are a put that
takes the serial off the leases. -/
theorem put (h : Lends pool leases) {d : Device} {state : SlotState} (hstate : state ≠ .allocated)
    {rest : List Device} (hrest : (rest.map Device.serial).Nodup)
    (hmem : ∀ serial, serial ∈ rest.map Device.serial ↔
      serial ∈ leases.map Device.serial ∧ serial ≠ d.serial) :
    Lends ⟨Pool.put d.serial state d pool.slots⟩ rest where
  serials_nodup := nodup_map_serial_put h.serials_nodup ..
  serial_device slot hslot := by
    rcases (mem_put_iff h.serials_nodup).mp hslot with rfl | ⟨hslot, -⟩
    · intro d' hd'
      rw [Option.some.inj hd']
    · exact h.serial_device slot hslot
  allocated_iff slot hslot := by
    rcases (mem_put_iff h.serials_nodup).mp hslot with rfl | ⟨hslot, -⟩
    · simp [hstate]
    · exact h.allocated_iff slot hslot
  leases_nodup := hrest
  mem_leases_iff serial := by
    rw [hmem, h.mem_leases_iff]
    constructor
    · rintro ⟨⟨slot, hslot, rfl, hallocated⟩, hne⟩
      exact ⟨slot, (mem_put_iff h.serials_nodup).mpr (.inr ⟨hslot, hne⟩), rfl, hallocated⟩
    · rintro ⟨slot, hslot, rfl, hallocated⟩
      rcases (mem_put_iff h.serials_nodup).mp hslot with rfl | ⟨hslot, hne⟩
      · exact absurd hallocated hstate
      · exact ⟨⟨slot, hslot, rfl, hallocated⟩, hne⟩

theorem register (h : Lends pool leases) (d : Device) : Lends (pool.register d).2 leases := by
  rcases register_cases h.serials_nodup d with ⟨-, hreg⟩ | ⟨hout, hreg⟩
  · rwa [hreg]
  · rw [hreg]
    refine h.put (by simp) h.leases_nodup fun serial => ?_
    rw [and_iff_left_of_imp]
    rintro hmem rfl
    obtain ⟨slot, hslot, hserial, hallocated⟩ := (h.mem_leases_iff d.serial).mp hmem
    rw [hout slot hslot hserial] at hallocated
    simp at hallocated

theorem release (h : Lends pool leases) {d : Device} (hd : d ∈ leases) {back : Device}
    (hserial : back.serial = d.serial) (report : ReturnReport) :
    Lends (pool.release back report) (leases.erase d) := by
  have hperm := List.perm_cons_erase hd
  have hnodup : ((d :: leases.erase d).map Device.serial).Nodup :=
    (hperm.map Device.serial).nodup h.leases_nodup
  obtain ⟨hnew, hrest⟩ := List.nodup_cons.mp hnodup
  have hput : Lends ⟨Pool.put (returned back report).serial (returnState back report)
      (returned back report) pool.slots⟩ (leases.erase d) := by
    refine h.put (returnState_ne_allocated back report) hrest fun serial => ?_
    rw [returned_serial, hserial, (hperm.map Device.serial).mem_iff, List.map_cons, List.mem_cons]
    constructor
    · intro hmem
      exact ⟨.inr hmem, fun heq => hnew (heq ▸ hmem)⟩
    · rintro ⟨heq | hmem, hne⟩
      · exact absurd heq hne
      · exact hmem
  rwa [returned_serial] at hput

theorem allocate (h : Lends pool leases) {s : Selection} {d : Device} {next : Pool}
    (halloc : pool.allocate s = some (d, next)) : Lends next (d :: leases) := by
  obtain ⟨slot, hslot, -, hdevice, hserials, hmem⟩ :=
    exists_vacated_of_allocate h.serials_nodup halloc
  have hserial : d.serial = slot.serial := h.serial_device slot hslot d hdevice
  have hfree : ¬ slot.state = .allocated := by
    simp [h.allocated_iff slot hslot, hdevice]
  refine ⟨hserials ▸ h.serials_nodup, ?_, ?_, ?_, ?_⟩
  · intro other hother d' hd'
    rcases (hmem other).mp hother with rfl | ⟨hother, -⟩
    · simp [Slot.vacate] at hd'
    · exact h.serial_device other hother d' hd'
  · intro other hother
    rcases (hmem other).mp hother with rfl | ⟨hother, -⟩
    · simp [Slot.vacate]
    · exact h.allocated_iff other hother
  · rw [List.map_cons, List.nodup_cons]
    refine ⟨fun hlent => hfree ?_, h.leases_nodup⟩
    exact (h.state_iff_mem hslot).mpr (hserial ▸ hlent)
  · intro serial
    rw [List.map_cons, List.mem_cons, h.mem_leases_iff]
    constructor
    · rintro (rfl | ⟨other, hother, rfl, hallocated⟩)
      · exact ⟨slot.vacate, (hmem _).mpr (.inl rfl), hserial.symm, rfl⟩
      · refine ⟨other, (hmem _).mpr (.inr ⟨hother, fun hsame => hfree ?_⟩), rfl, hallocated⟩
        rwa [← eq_of_serial_eq h.serials_nodup hother hslot hsame]
    · rintro ⟨other, hother, rfl, hallocated⟩
      rcases (hmem other).mp hother with rfl | ⟨hother, -⟩
      · exact .inl hserial.symm
      · exact .inr ⟨other, hother, rfl, hallocated⟩

theorem filter (h : Lends pool leases) {keep : Slot → Bool}
    (hkeep : ∀ slot ∈ pool.slots, slot.state = .allocated → keep slot = true) :
    Lends ⟨pool.slots.filter keep⟩ leases where
  serials_nodup := (List.filter_sublist.map Slot.serial).nodup h.serials_nodup
  serial_device slot hslot := h.serial_device slot (List.mem_of_mem_filter hslot)
  allocated_iff slot hslot := h.allocated_iff slot (List.mem_of_mem_filter hslot)
  leases_nodup := h.leases_nodup
  mem_leases_iff serial := by
    rw [h.mem_leases_iff]
    constructor
    · rintro ⟨slot, hslot, hserial, hallocated⟩
      exact ⟨slot, List.mem_filter.mpr ⟨hslot, hkeep slot hslot hallocated⟩, hserial, hallocated⟩
    · rintro ⟨slot, hslot, hserial, hallocated⟩
      exact ⟨slot, List.mem_of_mem_filter hslot, hserial, hallocated⟩

theorem addNullDevices (h : Lends pool leases) (count : Nat) :
    Lends (pool.addNullDevices count) leases := by
  unfold Pool.addNullDevices
  generalize List.range count = indices
  induction indices generalizing pool with
  | nil => exact h
  | cons index rest ih =>
      rw [List.foldl_cons]
      split
      · exact ih h
      · exact ih (h.register _)

theorem setNullCount (h : Lends pool leases) (count : Nat) :
    Lends (pool.setNullCount count) leases := by
  refine (h.addNullDevices count).filter fun slot _ hallocated => ?_
  simp [Surplus, hallocated]

end Lends

end DeviceLab.Pool
