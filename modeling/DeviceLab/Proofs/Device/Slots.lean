import DeviceLab.Device.Pool
import DeviceLab.Proofs.Device.Selection
import Mathlib.Data.List.Nodup

namespace DeviceLab

/-- A slot is free and holds a device that satisfies a selection. -/
def Slot.Offers (slot : Slot) (s : Selection) (d : Device) : Prop :=
  slot.state = .free ∧ slot.device = some d ∧ s.Admits d

theorem Slot.suits_iff {slot : Slot} {s : Selection} :
    slot.suits s = true ↔ ∃ d, slot.Offers s d := by
  simp only [suits, Bool.and_eq_true, beq_iff_eq, Option.any_eq_true, Selection.accepts_iff]
  constructor
  · rintro ⟨hfree, d, hd, hadmits⟩
    exact ⟨d, hfree, hd, hadmits⟩
  · rintro ⟨d, hfree, hd, hadmits⟩
    exact ⟨hfree, d, hd, hadmits⟩

theorem Slot.suits_vacate (slot : Slot) (s : Selection) : slot.vacate.suits s = false := rfl

namespace Pool

/-- The serials of the slots, in the order of registration. -/
def serials (pool : Pool) : List String :=
  pool.slots.map Slot.serial

theorem mem_serials {pool : Pool} {serial : String} :
    serial ∈ pool.serials ↔ ∃ slot ∈ pool.slots, slot.serial = serial := by
  simp [serials]

theorem eq_of_serial_eq {pool : Pool} (hnodup : pool.serials.Nodup) {a b : Slot}
    (ha : a ∈ pool.slots) (hb : b ∈ pool.slots) (h : a.serial = b.serial) : a = b :=
  List.inj_on_of_nodup_map hnodup ha hb h

theorem find?_eq_some_iff {pool : Pool} (hnodup : pool.serials.Nodup) {serial : String}
    {slot : Slot} :
    pool.find? serial = some slot ↔ slot ∈ pool.slots ∧ slot.serial = serial := by
  constructor
  · intro h
    exact ⟨List.mem_of_find?_eq_some h, by simpa using List.find?_some h⟩
  · rintro ⟨hslot, rfl⟩
    cases hfind : pool.find? slot.serial with
    | none =>
        exact absurd (List.find?_eq_none.mp hfind slot hslot) (by simp)
    | some other =>
        have hserial : other.serial = slot.serial := by
          simpa using List.find?_some hfind
        rw [eq_of_serial_eq hnodup (List.mem_of_find?_eq_some hfind) hslot hserial]

theorem find?_eq_none_iff {pool : Pool} {serial : String} :
    pool.find? serial = none ↔ serial ∉ pool.serials := by
  simp [find?, serials]

theorem isSome_find?_iff {pool : Pool} {serial : String} :
    (pool.find? serial).isSome = true ↔ serial ∈ pool.serials := by
  rw [Option.isSome_iff_ne_none, ne_eq, find?_eq_none_iff, not_not]

/-! Putting a device into the slot of a serial. -/

theorem put_of_not_mem {slots : List Slot} {serial : String} (state : SlotState) (d : Device)
    (h : serial ∉ slots.map Slot.serial) :
    put serial state d slots = slots ++ [⟨serial, state, some d⟩] := by
  induction slots with
  | nil => rfl
  | cons slot rest ih =>
      simp only [List.map_cons, List.mem_cons, not_or] at h
      rw [put, if_neg (Ne.symm h.1), ih h.2, List.cons_append]

theorem map_serial_put_of_mem {slots : List Slot} {serial : String} (state : SlotState)
    (d : Device) (h : serial ∈ slots.map Slot.serial) :
    (put serial state d slots).map Slot.serial = slots.map Slot.serial := by
  induction slots with
  | nil => simp at h
  | cons slot rest ih =>
      rw [put]
      split
      · rfl
      · rename_i hne
        have hrest : serial ∈ rest.map Slot.serial := by
          simpa [Ne.symm hne] using h
        rw [List.map_cons, ih hrest, List.map_cons]

theorem mem_put_iff {slots : List Slot} (hnodup : (slots.map Slot.serial).Nodup)
    {serial : String} {state : SlotState} {d : Device} {slot : Slot} :
    slot ∈ put serial state d slots ↔
      slot = ⟨serial, state, some d⟩ ∨ slot ∈ slots ∧ slot.serial ≠ serial := by
  induction slots with
  | nil => simp [put]
  | cons first rest ih =>
      obtain ⟨hfirst, hrest⟩ := List.nodup_cons.mp hnodup
      rw [put]
      split
      · rename_i heq
        subst heq
        have hother : ∀ other ∈ rest, other.serial ≠ first.serial := by
          intro other hmem hserial
          exact hfirst (hserial ▸ List.mem_map_of_mem hmem)
        constructor
        · intro h
          rcases List.mem_cons.mp h with rfl | h
          · exact .inl rfl
          · exact .inr ⟨List.mem_cons_of_mem _ h, hother slot h⟩
        · rintro (rfl | ⟨h, hne⟩)
          · exact List.mem_cons_self
          · rcases List.mem_cons.mp h with rfl | h
            · exact absurd rfl hne
            · exact List.mem_cons_of_mem _ h
      · rename_i hne
        rw [List.mem_cons, ih hrest]
        constructor
        · rintro (rfl | h | ⟨h, hserial⟩)
          · exact .inr ⟨List.mem_cons_self, hne⟩
          · exact .inl h
          · exact .inr ⟨List.mem_cons_of_mem _ h, hserial⟩
        · rintro (h | ⟨h, hserial⟩)
          · exact .inr (.inl h)
          · rcases List.mem_cons.mp h with rfl | h
            · exact .inl rfl
            · exact .inr (.inr ⟨h, hserial⟩)

theorem nodup_map_serial_put {slots : List Slot} (hnodup : (slots.map Slot.serial).Nodup)
    (serial : String) (state : SlotState) (d : Device) :
    ((put serial state d slots).map Slot.serial).Nodup := by
  by_cases h : serial ∈ slots.map Slot.serial
  · rwa [map_serial_put_of_mem state d h]
  · rw [put_of_not_mem state d h, List.map_append]
    exact List.Nodup.append hnodup (List.nodup_singleton _) (by simpa using h)

/-! Registration. -/

theorem register_eq_self {pool : Pool} {d : Device} (h : (pool.register d).1 = false) :
    (pool.register d).2 = pool := by
  unfold register at h ⊢
  split
  · simp_all
  · simp_all
  · rfl
  · rfl

/-- A registration is refused, or the device goes into the slot of its serial, which is new or out
of rotation. -/
theorem register_cases {pool : Pool} (hnodup : pool.serials.Nodup) (d : Device) :
    (d.serial ∈ pool.serials ∧ pool.register d = (false, pool)) ∨
    ((∀ slot ∈ pool.slots, slot.serial = d.serial → slot.state = .unavailable) ∧
      pool.register d = (true, ⟨put d.serial .free d pool.slots⟩)) := by
  cases hfind : pool.find? d.serial with
  | none =>
      right
      have hnew := find?_eq_none_iff.mp hfind
      refine ⟨fun slot hslot hserial => ?_, by simp [register, stateOf?, hfind]⟩
      exact absurd (mem_serials.mpr ⟨slot, hslot, hserial⟩) hnew
  | some slot =>
      obtain ⟨hslot, hserial⟩ := (find?_eq_some_iff hnodup).mp hfind
      have hunique : ∀ other ∈ pool.slots, other.serial = d.serial → other = slot := by
        intro other hother h
        exact eq_of_serial_eq hnodup hother hslot (h.trans hserial.symm)
      cases hstate : slot.state with
      | unavailable =>
          right
          refine ⟨fun other hother h => hunique other hother h ▸ hstate, ?_⟩
          simp [register, stateOf?, hfind, hstate]
      | free | allocated =>
          left
          refine ⟨mem_serials.mpr ⟨slot, hslot, hserial⟩, ?_⟩
          simp [register, stateOf?, hfind, hstate]

theorem serials_register {pool : Pool} (hnodup : pool.serials.Nodup) (d : Device) :
    (pool.register d).2.serials =
      if d.serial ∈ pool.serials then pool.serials else pool.serials ++ [d.serial] := by
  rcases register_cases hnodup d with ⟨hmem, h⟩ | ⟨-, h⟩
  · rw [h, if_pos hmem]
  · rw [h]
    split
    · rename_i hmem
      exact map_serial_put_of_mem .free d hmem
    · rename_i hnew
      simp only [serials, put_of_not_mem .free d hnew, List.map_append, List.map_cons,
        List.map_nil]

/-! Allocation. -/

theorem claimFirst_append {s : Selection} {front back : List Slot} {slot : Slot}
    (hfront : ∀ other ∈ front, other.suits s = false) (hslot : slot.suits s = true) :
    claimFirst s (front ++ slot :: back) = front ++ slot.vacate :: back := by
  induction front with
  | nil => rw [List.nil_append, claimFirst, if_pos hslot, List.nil_append]
  | cons first rest ih =>
      have hfirst : ¬ first.suits s = true := by
        simp [hfront first List.mem_cons_self]
      rw [List.cons_append, claimFirst, if_neg hfirst,
        ih fun other hother => hfront other (List.mem_cons_of_mem _ hother), List.cons_append]

theorem exists_of_allocate_eq_some {pool next : Pool} {s : Selection} {d : Device}
    (h : pool.allocate s = some (d, next)) :
    ∃ front slot back, pool.slots = front ++ slot :: back ∧
      (∀ other ∈ front, other.suits s = false) ∧ slot.suits s = true ∧
      slot.device = some d ∧ next.slots = front ++ slot.vacate :: back := by
  simp only [allocate, candidate?, Option.map_eq_some_iff, Option.bind_eq_some_iff,
    Prod.mk.injEq] at h
  obtain ⟨d', ⟨slot, hfind, hdevice⟩, rfl, rfl⟩ := h
  obtain ⟨hslot, front, back, hslots, hfront⟩ := List.find?_eq_some_iff_append.mp hfind
  have hfront' : ∀ other ∈ front, other.suits s = false := by
    intro other hother
    simpa using hfront other hother
  exact ⟨front, slot, back, hslots, hfront', hslot, hdevice,
    by simp only [hslots, claimFirst_append hfront' hslot]⟩

theorem exists_number_of_allocate {pool next : Pool} {s : Selection} {d : Device}
    (h : pool.allocate s = some (d, next)) :
    ∃ (k : Nat) (slot : Slot), pool.slots[k]? = some slot ∧ slot.Offers s d ∧
      (∀ j < k, ∀ other : Slot, pool.slots[j]? = some other → other.suits s = false) ∧
      ∀ j : Nat, next.slots[j]? =
        pool.slots[j]?.map fun other => if j = k then other.vacate else other := by
  obtain ⟨front, slot, back, hslots, hfront, hsuits, hdevice, hnext⟩ :=
    exists_of_allocate_eq_some h
  obtain ⟨d', hfree, hdevice', hadmits⟩ := Slot.suits_iff.mp hsuits
  have hd : d' = d := Option.some.inj (hdevice'.symm.trans hdevice)
  refine ⟨front.length, slot, by simp [hslots], ⟨hfree, hdevice, hd ▸ hadmits⟩, ?_, ?_⟩
  · intro j hj other hother
    rw [hslots, List.getElem?_append_left hj] at hother
    exact hfront other (List.mem_of_getElem? hother)
  · intro j
    rw [hslots, hnext]
    rcases Nat.lt_trichotomy j front.length with hj | rfl | hj
    · simp [List.getElem?_append_left hj, Nat.ne_of_lt hj]
    · simp
    · obtain ⟨i, rfl⟩ := Nat.exists_eq_add_of_lt hj
      simp [List.getElem?_append_right, Nat.add_assoc]

theorem exists_vacated_of_allocate {pool next : Pool} {s : Selection} {d : Device}
    (hnodup : pool.serials.Nodup) (h : pool.allocate s = some (d, next)) :
    ∃ slot ∈ pool.slots, slot.suits s = true ∧ slot.device = some d ∧
      next.serials = pool.serials ∧ ∀ other, other ∈ next.slots ↔
        other = slot.vacate ∨ other ∈ pool.slots ∧ other.serial ≠ slot.serial := by
  obtain ⟨front, slot, back, hslots, -, hsuits, hdevice, hnext⟩ := exists_of_allocate_eq_some h
  have hserials : next.serials = pool.serials := by
    simp [serials, hslots, hnext, Slot.vacate]
  refine ⟨slot, by simp [hslots], hsuits, hdevice, hserials, ?_⟩
  rw [serials, hslots, List.map_append, List.map_cons] at hnodup
  obtain ⟨hout, -⟩ := List.nodup_cons.mp (List.nodup_middle.mp hnodup)
  have hne : ∀ other, other ∈ front ∨ other ∈ back → other.serial ≠ slot.serial := by
    intro other hother hsame
    refine hout (hsame ▸ ?_)
    rw [← List.map_append]
    exact List.mem_map_of_mem (List.mem_append.mpr hother)
  intro other
  rw [hnext, hslots]
  simp only [List.mem_append, List.mem_cons]
  constructor
  · rintro (hother | rfl | hother)
    · exact .inr ⟨.inl hother, hne other (.inl hother)⟩
    · exact .inl rfl
    · exact .inr ⟨.inr (.inr hother), hne other (.inr hother)⟩
  · rintro (rfl | ⟨hother | rfl | hother, hsame⟩)
    · exact .inr (.inl rfl)
    · exact .inl hother
    · exact absurd rfl hsame
    · exact .inr (.inr hother)

theorem allocate_eq_none_iff {pool : Pool} {s : Selection} :
    pool.allocate s = none ↔ ∀ slot ∈ pool.slots, slot.suits s = false := by
  constructor
  · intro h slot hslot
    cases hfind : pool.slots.find? (·.suits s) with
    | none => simpa using List.find?_eq_none.mp hfind slot hslot
    | some first =>
        have hfirst := List.find?_some hfind
        simp only [Slot.suits, Bool.and_eq_true, Option.any_eq_true] at hfirst
        obtain ⟨-, d, hd, -⟩ := hfirst
        simp [allocate, candidate?, hfind, hd] at h
  · intro h
    have hfind : pool.slots.find? (·.suits s) = none := by
      simpa using h
    simp [allocate, candidate?, hfind]

/-! Return. -/

theorem returnState_ne_allocated (d : Device) (report : ReturnReport) :
    returnState d report ≠ .allocated := by
  unfold returnState
  split
  · simp
  · cases report with
    | available | unavailable => simp
    | unknown => cases d.connection <;> simp

theorem find?_put_self (serial : String) (state : SlotState) (d : Device) (slots : List Slot) :
    (put serial state d slots).find? (·.serial == serial) = some ⟨serial, state, some d⟩ := by
  induction slots with
  | nil => simp [put]
  | cons slot rest ih =>
      rw [put]
      split
      · rename_i hserial
        simp [hserial]
      · rename_i hserial
        rw [List.find?_cons_of_neg (by simpa using hserial)]
        exact ih

theorem filter_put (serial : String) (state : SlotState) (d : Device) (slots : List Slot) :
    (put serial state d slots).filter (·.serial != serial) =
      slots.filter (·.serial != serial) := by
  induction slots with
  | nil => simp [put]
  | cons slot rest ih =>
      rw [put]
      split
      · rename_i hserial
        simp [hserial]
      · rw [List.filter_cons, List.filter_cons, ih]

theorem find?_release (pool : Pool) (d : Device) (report : ReturnReport) :
    (pool.release d report).find? d.serial =
      some ⟨d.serial, returnState d report, some (returned d report)⟩ :=
  find?_put_self ..

theorem filter_release (pool : Pool) (d : Device) (report : ReturnReport) :
    (pool.release d report).slots.filter (·.serial != d.serial) =
      pool.slots.filter (·.serial != d.serial) :=
  filter_put ..

theorem stateOf?_release (pool : Pool) (d : Device) (report : ReturnReport) :
    (pool.release d report).stateOf? d.serial = some (returnState d report) := by
  rw [stateOf?, find?_release]
  rfl

theorem returnState_available (d : Device) : returnState d .available = .free := by
  unfold returnState
  split <;> rfl

@[simp] theorem returned_serial (d : Device) (report : ReturnReport) :
    (returned d report).serial = d.serial := by
  unfold returned
  split <;> rfl

end Pool

/-- The slot of a device that has just been registered. -/
def Slot.holding (d : Device) : Slot :=
  ⟨d.serial, .free, some d⟩

namespace Device

/-- Devices without those whose serial an earlier one has. -/
def firstOfEach : List Device → List Device
  | [] => []
  | d :: rest => d :: (firstOfEach rest).filter (·.serial != d.serial)

theorem firstOfEach_sublist (devices : List Device) : (firstOfEach devices).Sublist devices := by
  induction devices with
  | nil => exact List.Sublist.refl _
  | cons d rest ih => exact (List.filter_sublist.trans ih).cons_cons d

/-- The null devices that are generated for a count. -/
def generated (count : Nat) : List Device :=
  (List.range count).map fun index => ofNull (nullSerial index)

end Device

namespace Pool

/-- Register devices, but for those whose serials are known by then. -/
def enroll (pool : Pool) (devices : List Device) : Pool :=
  devices.foldl (fun pool d =>
    if (pool.find? d.serial).isSome then pool else (pool.register d).2) pool

theorem slots_register_of_unknown {pool : Pool} {d : Device} (h : d.serial ∉ pool.serials) :
    (pool.register d).2.slots = pool.slots ++ [Slot.holding d] := by
  rw [register, stateOf?, find?_eq_none_iff.mpr h]
  exact put_of_not_mem .free d h

theorem slots_enroll (pool : Pool) (devices : List Device) :
    (pool.enroll devices).slots = pool.slots ++
      ((Device.firstOfEach devices).filter (·.serial ∉ pool.serials)).map Slot.holding := by
  unfold enroll
  induction devices generalizing pool with
  | nil => exact (List.append_nil _).symm
  | cons d rest ih =>
      rw [List.foldl_cons, Device.firstOfEach]
      by_cases hknown : d.serial ∈ pool.serials
      · rw [if_pos (isSome_find?_iff.mpr hknown), ih,
          List.filter_cons_of_neg (by simpa using hknown), List.filter_filter]
        congr 2
        refine List.filter_congr fun e _ => ?_
        have hother : e.serial ∉ pool.serials → e.serial ≠ d.serial := fun h heq => h (heq ▸ hknown)
        rw [Bool.eq_iff_iff]
        simpa using hother
      · have hslots := slots_register_of_unknown hknown
        have hserials : (pool.register d).2.serials = pool.serials ++ [d.serial] := by
          rw [serials, hslots, List.map_append]
          rfl
        rw [if_neg (mt isSome_find?_iff.mp hknown), ih, hslots, hserials,
          List.filter_cons_of_pos (by simpa using hknown), List.filter_filter, List.append_assoc,
          List.map_cons, List.singleton_append]
        congr 3
        refine List.filter_congr fun e _ => ?_
        rw [Bool.eq_iff_iff]
        simp

theorem addNullDevices_eq_enroll (pool : Pool) (count : Nat) :
    pool.addNullDevices count = pool.enroll (Device.generated count) := by
  rw [enroll, Device.generated, List.foldl_map]
  rfl

theorem prefix_slots_addNullDevices (pool : Pool) (count : Nat) :
    pool.slots <+: (pool.addNullDevices count).slots := by
  rw [addNullDevices_eq_enroll, slots_enroll]
  exact List.prefix_append _ _

theorem mem_slots_addNullDevices {pool : Pool} {count : Nat} {slot : Slot}
    (h : slot ∈ (pool.addNullDevices count).slots) :
    slot ∈ pool.slots ∨ ∃ serial, slot = ⟨serial, .free, some (Device.ofNull serial)⟩ := by
  rw [addNullDevices_eq_enroll, slots_enroll] at h
  refine (List.mem_append.mp h).imp_right fun hnew => ?_
  obtain ⟨d, hd, rfl⟩ := List.mem_map.mp hnew
  have hgenerated := (Device.firstOfEach_sublist _).subset (List.mem_of_mem_filter hd)
  obtain ⟨index, -, rfl⟩ := List.mem_map.mp hgenerated
  exact ⟨nullSerial index, rfl⟩

end Pool

end DeviceLab
