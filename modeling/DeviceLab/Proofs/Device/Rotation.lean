import DeviceLab.Proofs.Device.Waiting

namespace DeviceLab

namespace Pool

theorem returnState_eq_unavailable_iff {d : Device} {report : ReturnReport} :
    returnState d report = .unavailable ↔ d.kind = .real ∧
      (report = .unavailable ∨ report = .unknown ∧ d.connection = .notAvailable) := by
  unfold returnState Device.isPlaceholder
  cases d.kind <;> cases report <;> cases d.connection <;> simp [DeviceKind.isPlaceholder]

@[simp] theorem returned_kind (d : Device) (report : ReturnReport) :
    (returned d report).kind = d.kind := by
  unfold returned
  split <;> rfl

theorem recovery_returned {d : Device} {report : ReturnReport}
    (h : returnState d report = .free) : (returned d report).recovery = .available := by
  rw [returned, h]

end Pool

namespace Custody

variable {c : Custody} {a : Act} {acts : List Act} {serial : String}

/-- A registration of a device is accepted in the course of some acts. -/
def Admits (c : Custody) (acts : List Act) (d : Device) : Prop :=
  ∃ before after, acts = before ++ .register d :: after ∧
    ((c.run before).pool.register d).1 = true

theorem Admits.head {d : Device} (h : (c.pool.register d).1 = true) (rest : List Act) :
    c.Admits (.register d :: rest) d :=
  ⟨[], rest, rfl, h⟩

theorem Admits.tail {d : Device} (h : (c.act a).Admits acts d) : c.Admits (a :: acts) d := by
  obtain ⟨before, after, rfl, haccepted⟩ := h
  exact ⟨a :: before, after, rfl, haccepted⟩

theorem Admits.append_left {d : Device} (h : c.Admits acts d) (more : List Act) :
    c.Admits (acts ++ more) d := by
  obtain ⟨before, after, rfl, haccepted⟩ := h
  exact ⟨before, after ++ more, by simp, haccepted⟩

theorem Admits.append_right {before : List Act} {d : Device}
    (h : (c.run before).Admits acts d) : c.Admits (before ++ acts) d := by
  obtain ⟨front, after, rfl, haccepted⟩ := h
  exact ⟨before ++ front, after, by simp, by rwa [run_append]⟩

/-- A property of slots that holds of whatever is put into a slot, but for registered devices. -/
structure Lasts (p : Slot → Prop) : Prop where
  generated : ∀ serial, p ⟨serial, .free, some (Device.ofNull serial)⟩
  vacated : ∀ slot : Slot, p slot.vacate
  returned : ∀ d report, p ⟨d.serial, Pool.returnState d report, some (Pool.returned d report)⟩

section lasts

variable {p : Slot → Prop}

theorem Lasts.handBack (hp : Lasts p) (h : c.InOrder) (hslots : ∀ slot ∈ c.pool.slots, p slot)
    (d : Device) (report : ReturnReport) : ∀ slot ∈ (c.handBack d report).pool.slots, p slot := by
  intro slot hslot
  rw [Custody.handBack] at hslot
  split at hslot
  · rcases (Pool.mem_put_iff h.serials_nodup).mp hslot with rfl | ⟨hslot, -⟩
    · exact hp.returned d report
    · exact hslots slot hslot
  · exact hslots slot hslot

theorem Lasts.act (hp : Lasts p) (h : c.InOrder) (hslots : ∀ slot ∈ c.pool.slots, p slot)
    (hregistered : ∀ d, c.Admits [a] d → p ⟨d.serial, .free, some d⟩) :
    ∀ slot ∈ (c.act a).pool.slots, p slot := by
  cases a with
  | register d =>
      intro slot hslot
      change slot ∈ (c.pool.register d).2.slots at hslot
      rcases Pool.register_cases h.serials_nodup d with ⟨-, hreg⟩ | ⟨-, hreg⟩
      · rw [hreg] at hslot
        exact hslots slot hslot
      · rw [hreg] at hslot
        rcases (Pool.mem_put_iff h.serials_nodup).mp hslot with rfl | ⟨hslot, -⟩
        · exact hregistered d (Admits.head (congrArg Prod.fst hreg) [])
        · exact hslots slot hslot
  | setNullCount count =>
      intro slot hslot
      rcases Pool.mem_slots_addNullDevices (List.mem_of_mem_filter hslot) with hslot | ⟨serial, rfl⟩
      · exact hslots slot hslot
      · exact hp.generated serial
  | allocate s =>
      rw [Custody.act]
      split
      · exact hslots
      · rename_i d pool halloc
        obtain ⟨slot, -, -, -, -, hmem⟩ := Pool.exists_vacated_of_allocate h.serials_nodup halloc
        intro other hother
        rcases (hmem other).mp hother with rfl | ⟨hother, -⟩
        · exact hp.vacated slot
        · exact hslots other hother
  | giveBack d report => exact hp.handBack h hslots d report
  | drop d => exact hp.handBack h hslots d .unknown
  | edit d edited =>
      rw [Custody.act]
      split <;> exact hslots

theorem Lasts.run (hp : Lasts p) (h : c.InOrder) (hslots : ∀ slot ∈ c.pool.slots, p slot)
    (hregistered : ∀ d, c.Admits acts d → p ⟨d.serial, .free, some d⟩) :
    ∀ slot ∈ (c.run acts).pool.slots, p slot := by
  induction acts generalizing c with
  | nil => exact hslots
  | cons a rest ih =>
      exact ih (h.act a)
        (hp.act h hslots fun d hadmits => hregistered d (hadmits.append_left rest))
        fun d hadmits => hregistered d hadmits.tail

end lasts

theorem lasts_real : Lasts fun slot =>
    slot.state = .unavailable → ∃ d, slot.device = some d ∧ d.kind = .real where
  generated _ := nofun
  vacated _ := nofun
  returned d report hstate := by
    refine ⟨Pool.returned d report, rfl, ?_⟩
    rw [Pool.returned_kind]
    exact (Pool.returnState_eq_unavailable_iff.mp hstate).1

theorem lasts_recovery : Lasts fun slot =>
    slot.state = .free → ∀ d, slot.device = some d → d.recovery = .available where
  generated _ _ _ h := Option.some.inj h ▸ rfl
  vacated _ := nofun
  returned _ _ hstate _ h := Option.some.inj h ▸ Pool.recovery_returned hstate

/-- The serial has a slot that is out of rotation. -/
def OutOfRotation (c : Custody) (serial : String) : Prop :=
  ∃ slot ∈ c.pool.slots, slot.serial = serial ∧ slot.state = .unavailable

/-- An act hands hardware back as lost: reported so, or unreported while it is not available. -/
def Loses (c : Custody) (a : Act) (serial : String) : Prop :=
  ∃ d ∈ c.leases, d.serial = serial ∧ d.kind = .real ∧
    (a = .giveBack d .unavailable ∨
      d.connection = .notAvailable ∧ (a = .giveBack d .unknown ∨ a = .drop d))

theorem outOfRotation_handBack {d : Device} {report : ReturnReport} (hd : d ∈ c.leases)
    (hstate : Pool.returnState d report = .unavailable) :
    (c.handBack d report).OutOfRotation d.serial := by
  rw [handBack, if_pos hd]
  have hfind := Pool.find?_release c.pool d report
  exact ⟨_, List.mem_of_find?_eq_some hfind, rfl, hstate⟩

theorem Loses.outOfRotation (h : c.Loses a serial) : (c.act a).OutOfRotation serial := by
  obtain ⟨d, hd, rfl, hreal, rfl | ⟨hgone, rfl | rfl⟩⟩ := h
  · exact outOfRotation_handBack hd
      (Pool.returnState_eq_unavailable_iff.mpr ⟨hreal, .inl rfl⟩)
  all_goals
    exact outOfRotation_handBack hd
      (Pool.returnState_eq_unavailable_iff.mpr ⟨hreal, .inr ⟨rfl, hgone⟩⟩)

namespace OutOfRotation

theorem not_mem_leases (hout : c.OutOfRotation serial) (h : c.InOrder) :
    serial ∉ c.leases.map Device.serial := by
  intro hmem
  obtain ⟨slot, hslot, rfl, hstate⟩ := hout
  rw [(h.state_iff_mem hslot).mpr hmem] at hstate
  cases hstate

theorem handBack (hout : c.OutOfRotation serial) (h : c.InOrder) (d : Device)
    (report : ReturnReport) : (c.handBack d report).OutOfRotation serial := by
  rw [Custody.handBack]
  split
  · rename_i hd
    have hother : serial ≠ d.serial := fun heq =>
      hout.not_mem_leases h (heq ▸ List.mem_map_of_mem hd)
    obtain ⟨slot, hslot, rfl, hstate⟩ := hout
    exact ⟨slot, (Pool.mem_put_iff h.serials_nodup).mpr (.inr ⟨hslot, hother⟩), rfl, hstate⟩
  · exact hout

theorem ne_of_allocate (hout : c.OutOfRotation serial) (h : c.InOrder) {s : Selection}
    {d : Device} {pool : Pool} (halloc : c.pool.allocate s = some (d, pool)) :
    d.serial ≠ serial := by
  rintro rfl
  obtain ⟨slot, hslot, hserial, hstate⟩ := hout
  obtain ⟨taken, htaken, hsuits, hdevice, -⟩ :=
    Pool.exists_vacated_of_allocate h.serials_nodup halloc
  have hsame : taken = slot := by
    refine Pool.eq_of_serial_eq h.serials_nodup htaken hslot ?_
    rw [hserial, h.serial_device taken htaken d hdevice]
  obtain ⟨-, hfree, -⟩ := Slot.suits_iff.mp hsuits
  rw [hsame, hstate] at hfree
  cases hfree

theorem act (hout : c.OutOfRotation serial) (h : c.InOrder)
    (hnew : ∀ d, c.Admits [a] d → d.serial ≠ serial) : (c.act a).OutOfRotation serial := by
  have hout' := hout
  obtain ⟨slot, hslot, hserial, hstate⟩ := hout'
  cases a with
  | register d =>
      rcases Pool.register_cases h.serials_nodup d with ⟨-, hreg⟩ | ⟨-, hreg⟩
      · exact ⟨slot, by rwa [Custody.act, hreg], hserial, hstate⟩
      · have hother : slot.serial ≠ d.serial := by
          rw [hserial]
          exact (hnew d (Admits.head (congrArg Prod.fst hreg) [])).symm
        refine ⟨slot, ?_, hserial, hstate⟩
        rw [Custody.act, hreg]
        exact (Pool.mem_put_iff h.serials_nodup).mpr (.inr ⟨hslot, hother⟩)
  | setNullCount count =>
      have hadded := (Pool.prefix_slots_addNullDevices c.pool count).subset hslot
      exact ⟨slot, List.mem_filter.mpr ⟨hadded, by simp [Pool.Surplus, hstate]⟩, hserial, hstate⟩
  | allocate s =>
      rw [Custody.act]
      split
      · exact hout
      · rename_i d pool halloc
        have hother := hout.ne_of_allocate h halloc
        obtain ⟨taken, htaken, -, hdevice, -, hmem⟩ :=
          Pool.exists_vacated_of_allocate h.serials_nodup halloc
        rw [h.serial_device taken htaken d hdevice] at hother
        exact ⟨slot, (hmem slot).mpr (.inr ⟨hslot, hserial ▸ hother.symm⟩), hserial, hstate⟩
  | giveBack d report => exact hout.handBack h d report
  | drop d => exact hout.handBack h d .unknown
  | edit d edited =>
      rw [Custody.act]
      split <;> exact hout

theorem run (hout : c.OutOfRotation serial) (h : c.InOrder)
    (hnew : ∀ d, c.Admits acts d → d.serial ≠ serial) : (c.run acts).OutOfRotation serial := by
  induction acts generalizing c with
  | nil => exact hout
  | cons a rest ih =>
      exact ih (hout.act h fun d hadmits => hnew d (hadmits.append_left rest)) (h.act a)
        fun d hadmits => hnew d hadmits.tail

end OutOfRotation

/-- Every device that may be claimed will be recovered fully. -/
def Recovers (c : Custody) : Prop :=
  ∀ slot ∈ c.pool.slots, slot.state = .free → ∀ d, slot.device = some d → d.recovery = .available

theorem Recovers.run (hrecovers : c.Recovers) (h : c.InOrder)
    (hregistered : ∀ d, c.Admits acts d → d.recovery = .available) : (c.run acts).Recovers := by
  refine lasts_recovery.run h hrecovers fun d hadmits _ other hother => ?_
  rw [← Option.some.inj hother]
  exact hregistered d hadmits

theorem Recovers.of_allocate (hrecovers : c.Recovers) (h : c.InOrder) {s : Selection} {d : Device}
    {pool : Pool} (halloc : c.pool.allocate s = some (d, pool)) : d.recovery = .available := by
  obtain ⟨slot, hslot, hsuits, hdevice, -⟩ := Pool.exists_vacated_of_allocate h.serials_nodup halloc
  obtain ⟨-, hfree, -⟩ := Slot.suits_iff.mp hsuits
  exact hrecovers slot hslot hfree d hdevice

end Custody

namespace Desk

variable {desk : Desk} {serial : String} (hnamed : desk.Named) (horder : desk.custody.InOrder)
  (s : Selection) (name : String) (timeout : Nat)
  (hclaimed : (desk.allocateWait s name timeout).1 = some serial)

include hnamed horder hclaimed

/-- A serial that is out of rotation is claimed by a waiter only if it is registered meanwhile. -/
theorem exists_admits_of_claimed (hout : desk.custody.OutOfRotation serial) :
    ∃ front back d, desk.agenda = front ++ back ∧ d.serial = serial ∧
      desk.custody.Admits (desk.deeds (front.map Prod.snd)) d := by
  obtain ⟨front, back, hagenda, hanswer, -⟩ := exists_allocateWait hnamed horder s name timeout
  by_contra hnever
  have hstill := hout.run horder fun d hadmits heq => hnever ⟨front, back, d, hagenda, heq, hadmits⟩
  rw [hanswer, Option.map_eq_some_iff] at hclaimed
  obtain ⟨⟨d, pool⟩, halloc, hserial⟩ := hclaimed
  exact hstill.ne_of_allocate (horder.run _) halloc hserial

theorem exists_recovery_of_claimed (hrecovers : desk.custody.Recovers)
    (hregistered : ∀ d, desk.custody.Admits (desk.deeds (desk.agenda.map Prod.snd)) d →
      d.recovery = .available) :
    ∃ d, (desk.allocateWait s name timeout).2.lease? name = some d ∧ d.serial = serial ∧
      d.recovery = .available := by
  obtain ⟨front, back, hagenda, hanswer, hlease⟩ := exists_allocateWait hnamed horder s name timeout
  rw [hanswer, Option.map_eq_some_iff] at hclaimed
  obtain ⟨⟨d, pool⟩, halloc, hserial⟩ := hclaimed
  obtain ⟨more, hdeeds⟩ := desk.deeds_prefix (front.map Prod.snd) (back.map Prod.snd)
  rw [← List.map_append, ← hagenda] at hdeeds
  have hwaited := hrecovers.run horder fun d hadmits =>
    hregistered d (hdeeds ▸ hadmits.append_left more)
  exact ⟨d, hlease d pool halloc, hserial, hwaited.of_allocate (horder.run _) halloc⟩

end Desk

/-- In the course of any acts: hardware that is handed back as lost is out of rotation.  Until a
registration of its serial is accepted, no claim gets a device with this serial; a claim that waits
for one at a desk gets it only if such a registration is accepted while it waits.  What is out of
rotation is hardware.  If every device was registered with full recovery, every claim gets a device
with full recovery, whatever its earlier holders did to it. -/
theorem Custody.lost_stay_out (acts : List Custody.Act) :
    let c := ({} : Custody).run acts
    (∀ a serial, c.Loses a serial → ∀ later,
      (∀ d, (c.act a).Admits later d → d.serial ≠ serial) →
      (∀ s d pool, ((c.act a).run later).pool.allocate s = some (d, pool) → d.serial ≠ serial) ∧
      ∀ desk : Desk, desk.Named → desk.custody = (c.act a).run later →
        ∀ s name timeout, (desk.allocateWait s name timeout).1 = some serial →
          ∃ front back d, desk.agenda = front ++ back ∧ d.serial = serial ∧
            desk.custody.Admits (desk.deeds (front.map Prod.snd)) d) ∧
    (∀ slot ∈ c.pool.slots, slot.state = .unavailable →
      ∃ d, slot.device = some d ∧ d.kind = .real) ∧
    ((∀ d, ({} : Custody).Admits acts d → d.recovery = .available) →
      (∀ s d pool, c.pool.allocate s = some (d, pool) → d.recovery = .available) ∧
      ∀ desk : Desk, desk.Named → desk.custody = c →
        (∀ d, desk.custody.Admits (desk.deeds (desk.agenda.map Prod.snd)) d →
          d.recovery = .available) →
        ∀ s name timeout serial, (desk.allocateWait s name timeout).1 = some serial →
          ∃ d, (desk.allocateWait s name timeout).2.lease? name = some d ∧ d.serial = serial ∧
            d.recovery = .available) := by
  intro c
  have hempty : ({} : Custody).InOrder := Pool.lends_empty
  have h : c.InOrder := hempty.run acts
  refine ⟨fun a serial hloses later hnew => ?_, ?_, fun hregistered => ?_⟩
  · have hlater := (h.act a).run later
    have hout := hloses.outOfRotation.run (h.act a) hnew
    refine ⟨fun s d pool halloc => hout.ne_of_allocate hlater halloc, ?_⟩
    intro desk hnamed hdesk s name timeout hclaimed
    rw [← hdesk] at hout hlater
    exact Desk.exists_admits_of_claimed hnamed hlater s name timeout hclaimed hout
  · exact lasts_real.run hempty (by simp) fun d _ => nofun
  · have hrecovers : c.Recovers := Recovers.run (by simp [Recovers]) hempty hregistered
    refine ⟨fun s d pool halloc => hrecovers.of_allocate h halloc, ?_⟩
    intro desk hnamed hdesk hwaiting s name timeout serial hclaimed
    rw [← hdesk] at hrecovers h
    exact Desk.exists_recovery_of_claimed hnamed h s name timeout hclaimed hrecovers hwaiting

theorem Custody.lost_stay_out_of_unplugged :
    let plugged : Device := { serial := "SER1" }
    let unplugged : Device := { serial := "SER1", connection := .notAvailable }
    let spare : Device := { serial := "SER2" }
    let c := ({} : Custody).run
      [.register plugged, .register spare, .allocate {}, .edit plugged unplugged]
    c.Loses (.drop unplugged) "SER1" ∧ ((c.act (.drop unplugged)).pool.allocate {}).isSome ∧
      ∀ s d pool, (c.act (.drop unplugged)).pool.allocate s = some (d, pool) →
        d.serial ≠ "SER1" := by
  intro plugged unplugged spare c
  have hloses : c.Loses (.drop unplugged) "SER1" :=
    ⟨unplugged, by decide, rfl, rfl, .inr ⟨rfl, .inr rfl⟩⟩
  refine ⟨hloses, by decide, ?_⟩
  have hstays := lost_stay_out
    [.register plugged, .register spare, .allocate {}, .edit plugged unplugged]
  refine (hstays.1 (.drop unplugged) "SER1" hloses [] ?_).1
  rintro d ⟨before, after, hnone, -⟩
  simp at hnone

end DeviceLab
