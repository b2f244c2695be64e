import DeviceLab.Proofs.Device.Conservation

namespace DeviceLab

namespace Pool

theorem put_comm {slots : List Slot} {serial other : String} (hne : serial ≠ other)
    (hmem : serial ∈ slots.map Slot.serial) (state state' : SlotState) (d e : Device) :
    put other state' e (put serial state d slots) =
      put serial state d (put other state' e slots) := by
  induction slots with
  | nil => simp at hmem
  | cons slot rest ih =>
      by_cases hserial : slot.serial = serial
      · have hother : slot.serial ≠ other := hserial ▸ hne
        simp [put, hserial, hne]
      · have hrest : serial ∈ rest.map Slot.serial := by
          simpa [Ne.symm hserial] using hmem
        by_cases hother : slot.serial = other
        · simp [put, hother, hne.symm]
        · simp [put, hserial, hother, ih hrest]

theorem put_eq_map {slots : List Slot} (hnodup : (slots.map Slot.serial).Nodup) {serial : String}
    (hmem : serial ∈ slots.map Slot.serial) (state : SlotState) (d : Device) :
    put serial state d slots =
      slots.map fun slot => if slot.serial = serial then ⟨serial, state, some d⟩ else slot := by
  induction slots with
  | nil => simp at hmem
  | cons slot rest ih =>
      obtain ⟨hslot, hrest⟩ := List.nodup_cons.mp hnodup
      rw [put, List.map_cons]
      split
      · rename_i hserial
        have hothers : ∀ other ∈ rest, other.serial ≠ serial := by
          intro other hother heq
          exact hslot (hserial ▸ heq ▸ List.mem_map_of_mem hother)
        congr 1
        · rw [← hserial]
        · rw [List.map_congr_left fun other hother => if_neg (hothers other hother), List.map_id']
      · rename_i hserial
        have hmem' : serial ∈ rest.map Slot.serial := by
          simpa [Ne.symm hserial] using hmem
        rw [ih hrest hmem']

theorem Lends.slots_release_of_allocate {pool next : Pool} {leases : List Device}
    (h : pool.Lends leases) {s : Selection} {d : Device}
    (halloc : pool.allocate s = some (d, next)) :
    (next.release d .available).slots = pool.slots.map fun slot =>
      if slot.serial = d.serial then
        { slot with device := slot.device.map fun e => { e with recovery := .available } }
      else slot := by
  obtain ⟨front, slot, back, hslots, -, hsuits, hdevice, hnext⟩ :=
    exists_of_allocate_eq_some halloc
  obtain ⟨-, hfree, -⟩ := Slot.suits_iff.mp hsuits
  have hserial : d.serial = slot.serial := h.serial_device slot (by simp [hslots]) d hdevice
  have hnodup := (h.allocate halloc).serials_nodup
  have hmem : d.serial ∈ next.serials := by
    rw [serials, hnext, hserial]
    simp [Slot.vacate]
  have hback : returned d .available = { d with recovery := .available } := by
    rw [returned, returnState_available]
  have hsame : ∀ other ∈ front ++ back, other.serial ≠ d.serial := by
    intro other hother heq
    rw [serials, hnext, List.map_append, List.map_cons] at hnodup
    refine (List.nodup_cons.mp (List.nodup_middle.mp hnodup)).1 ?_
    rw [← List.map_append]
    exact List.mem_map.mpr ⟨other, hother, heq.trans hserial⟩
  change Pool.put d.serial (returnState d .available) (returned d .available) next.slots = _
  rw [returnState_available, hback, put_eq_map hnodup hmem, hnext, hslots, List.map_append,
    List.map_append, List.map_cons, List.map_cons]
  congr 1
  · refine List.map_congr_left fun other hother => ?_
    have hne := hsame other (List.mem_append_left _ hother)
    rw [if_neg hne, if_neg hne]
  · congr 1
    · have hvacated : slot.vacate.serial = d.serial := hserial.symm
      rw [if_pos hvacated, if_pos hserial.symm, hdevice, hfree, ← hserial]
      rfl
    · refine List.map_congr_left fun other hother => ?_
      have hne := hsame other (List.mem_append_right _ hother)
      rw [if_neg hne, if_neg hne]

end Pool

namespace Custody

variable {c : Custody}

/-- How the holder of a device gives it up. -/
inductive Parting
  | free (report : ReturnReport)
  | dropped
  deriving DecidableEq

/-- What the pool is told; nothing of a lease that is dropped. -/
def Parting.report : Parting → ReturnReport
  | .free report => report
  | .dropped => .unknown

def Parting.act (d : Device) : Parting → Act
  | .free report => .giveBack d report
  | .dropped => .drop d

theorem act_parting (c : Custody) (d : Device) (parting : Parting) :
    c.act (parting.act d) = c.handBack d parting.report := by
  cases parting <;> rfl

def giveUp (c : Custody) (partings : List (Device × Parting)) : Custody :=
  c.run (partings.map fun x => x.2.act x.1)

@[simp] theorem giveUp_nil (c : Custody) : c.giveUp [] = c := rfl

theorem giveUp_cons (c : Custody) (x : Device × Parting) (rest : List (Device × Parting)) :
    c.giveUp (x :: rest) = (c.handBack x.1 x.2.report).giveUp rest := by
  rw [← act_parting]
  rfl

theorem giveUp_append (c : Custody) (front back : List (Device × Parting)) :
    c.giveUp (front ++ back) = (c.giveUp front).giveUp back := by
  rw [giveUp, List.map_append, run_append]
  rfl

theorem handBack_of_mem {d : Device} (hd : d ∈ c.leases) (report : ReturnReport) :
    c.handBack d report = { pool := c.pool.release d report, leases := c.leases.erase d } :=
  if_pos hd

theorem mem_leases_giveUp {partings : List (Device × Parting)} {d : Device} (hd : d ∈ c.leases)
    (hnot : d ∉ partings.map Prod.fst) : d ∈ (c.giveUp partings).leases := by
  induction partings generalizing c with
  | nil => exact hd
  | cons x rest ih =>
      rw [List.map_cons, List.mem_cons, not_or] at hnot
      rw [giveUp_cons]
      refine ih ?_ hnot.2
      unfold handBack
      split
      · exact (List.mem_erase_of_ne hnot.1).mpr hd
      · exact hd

theorem InOrder.handBack_comm (h : c.InOrder) {d e : Device} (hd : d ∈ c.leases)
    (he : e ∈ c.leases) (hne : d ≠ e) (report report' : ReturnReport) :
    (c.handBack d report).handBack e report' = (c.handBack e report').handBack d report := by
  have hserial : d.serial ≠ e.serial := fun heq =>
    hne (List.inj_on_of_nodup_map h.leases_nodup hd he heq)
  have he' : e ∈ (c.handBack d report).leases := by
    rw [handBack_of_mem hd]
    exact (List.mem_erase_of_ne hne.symm).mpr he
  have hd' : d ∈ (c.handBack e report').leases := by
    rw [handBack_of_mem he]
    exact (List.mem_erase_of_ne hne).mpr hd
  rw [handBack_of_mem he', handBack_of_mem hd', handBack_of_mem hd, handBack_of_mem he,
    List.erase_comm]
  congr 1
  exact congrArg Pool.mk (Pool.put_comm hserial (h.serial_mem hd) _ _ _ _)

theorem InOrder.giveUp_perm (h : c.InOrder) {xs ys : List (Device × Parting)} (hperm : xs.Perm ys)
    (hnodup : (xs.map Prod.fst).Nodup) (hlive : ∀ x ∈ xs, x.1 ∈ c.leases) :
    c.giveUp xs = c.giveUp ys := by
  induction hperm generalizing c with
  | nil => rfl
  | cons x hperm ih =>
      obtain ⟨hx, hrest⟩ := List.nodup_cons.mp hnodup
      rw [giveUp_cons, giveUp_cons]
      refine ih (h.handBack ..) hrest fun y hy => ?_
      have hne : y.1 ≠ x.1 := fun heq => hx (heq ▸ List.mem_map_of_mem hy)
      rw [handBack_of_mem (hlive x List.mem_cons_self)]
      exact (List.mem_erase_of_ne hne).mpr (hlive y (List.mem_cons_of_mem _ hy))
  | swap x y rest =>
      have hne : y.1 ≠ x.1 := by
        rintro heq
        simp [heq] at hnodup
      rw [giveUp_cons, giveUp_cons, giveUp_cons, giveUp_cons,
        h.handBack_comm (hlive y (by simp)) (hlive x (by simp)) hne]
  | trans hxy hyz ihxy ihyz =>
      refine (ihxy h hnodup hlive).trans (ihyz h ?_ fun z hz => hlive z (hxy.mem_iff.mpr hz))
      exact (hxy.map Prod.fst).nodup hnodup

theorem stateOf?_giveUp_concat {front : List (Device × Parting)} {x : Device × Parting}
    (hx : x.1 ∈ c.leases) (hnot : x.1 ∉ front.map Prod.fst) :
    (c.giveUp (front ++ [x])).pool.stateOf? x.1.serial =
      some (Pool.returnState x.1 x.2.report) := by
  rw [giveUp_append, giveUp_cons, giveUp_nil, handBack_of_mem (mem_leases_giveUp hx hnot)]
  exact Pool.stateOf?_release ..

/-- Each device that is given up gets the state that it gets on its own, whatever is given up
besides it. -/
theorem InOrder.stateOf?_giveUp (h : c.InOrder) {front back : List (Device × Parting)}
    {x : Device × Parting} (hnodup : ((front ++ x :: back).map Prod.fst).Nodup)
    (hlive : ∀ y ∈ front ++ x :: back, y.1 ∈ c.leases) :
    (c.giveUp (front ++ x :: back)).pool.stateOf? x.1.serial =
      some (Pool.returnState x.1 x.2.report) := by
  have hperm : (front ++ x :: back).Perm ((front ++ back) ++ [x]) :=
    List.perm_middle.trans (List.perm_append_singleton x _).symm
  have hlast := (hperm.map Prod.fst).nodup hnodup
  rw [List.map_append, List.map_singleton, ← List.concat_eq_append, List.nodup_concat] at hlast
  rw [h.giveUp_perm hperm hnodup hlive]
  exact stateOf?_giveUp_concat (hlive x (by simp)) hlast.1

/-- However a pool has been used, any of the devices that are leased may be given up in any order,
each handed back with some report or dropped: the pool with its slots, and the other leases, end up
the same.  The state that a device gets depends on itself and its report alone, both when it is
given up and once all are.  A device that is claimed and handed back unchanged as available leaves
the slots as they were, except that it is to be recovered fully. -/
theorem returns_commute (acts : List Act) :
    let c := ({} : Custody).run acts
    (∀ xs ys : List (Device × Parting), xs.Perm ys → (xs.map Prod.fst).Nodup →
      (∀ x ∈ xs, x.1 ∈ c.leases) →
      c.giveUp xs = c.giveUp ys ∧
      ∀ front x back, xs = front ++ x :: back →
        (c.giveUp (front ++ [x])).pool.stateOf? x.1.serial =
          some (Pool.returnState x.1 x.2.report) ∧
        (c.giveUp xs).pool.stateOf? x.1.serial = some (Pool.returnState x.1 x.2.report)) ∧
    ∀ s d next, c.pool.allocate s = some (d, next) →
      (next.release d .available).slots = c.pool.slots.map fun slot =>
        if slot.serial = d.serial then
          { slot with device := slot.device.map fun e => { e with recovery := .available } }
        else slot := by
  intro c
  have h : c.InOrder := InOrder.run (c := {}) Pool.lends_empty acts
  refine ⟨?_, fun s d next halloc => Pool.Lends.slots_release_of_allocate h halloc⟩
  intro xs ys hperm hnodup hlive
  refine ⟨h.giveUp_perm hperm hnodup hlive, ?_⟩
  rintro front x back rfl
  refine ⟨stateOf?_giveUp_concat (hlive x (by simp)) fun hmem => ?_,
    h.stateOf?_giveUp hnodup hlive⟩
  rw [List.map_append, List.map_cons] at hnodup
  exact (List.nodup_cons.mp (List.nodup_middle.mp hnodup)).1 (List.mem_append_left _ hmem)

theorem returns_commute_of_unplugged :
    let first : Device := { serial := "SER1", recovery := .never }
    let unplugged : Device := { serial := "SER2", connection := .notAvailable }
    let c := ({} : Custody).run [.register first, .register { serial := "SER2" }, .allocate {},
      .allocate {}, .edit { serial := "SER2" } unplugged]
    let xs : List (Device × Parting) := [(first, .free .available), (unplugged, .dropped)]
    c.leases = [unplugged, first] ∧ c.giveUp xs = c.giveUp xs.reverse ∧
      (c.giveUp xs).pool.stateOf? "SER2" = some .unavailable ∧
    let idle := c.giveUp xs
    ∃ next, idle.pool.allocate {} = some ({ first with recovery := .available }, next) ∧
      (next.release { first with recovery := .available } .available).slots = idle.pool.slots := by
  intro first unplugged c xs
  have hleases : c.leases = [unplugged, first] := by decide +kernel
  have hlive : ∀ x ∈ xs, x.1 ∈ c.leases := by
    rw [hleases]
    decide +kernel
  obtain ⟨hreturns, -⟩ := returns_commute [.register first, .register { serial := "SER2" },
    .allocate {}, .allocate {}, .edit { serial := "SER2" } unplugged]
  obtain ⟨hsame, hstates⟩ := hreturns xs xs.reverse (List.reverse_perm xs).symm (by decide +kernel)
    hlive
  refine ⟨hleases, hsame, (hstates [_] (unplugged, .dropped) [] rfl).2, ?_⟩
  intro idle
  refine ⟨_, rfl, ?_⟩
  have hback := (returns_commute [.register first, .register { serial := "SER2" },
    .allocate {}, .allocate {}, .edit { serial := "SER2" } unplugged,
    .giveBack first .available, .drop unplugged]).2 {} _ _ rfl
  exact hback.trans (by decide +kernel)

end Custody

end DeviceLab
