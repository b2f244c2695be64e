import DeviceLab.Proofs.Device.Custody
import Mathlib.Data.List.Induction

namespace DeviceLab

/-- A pool and the devices of its live leases. -/
structure Custody where
  pool : Pool := {}
  leases : List Device := []
  deriving DecidableEq

namespace Custody

/-- What may happen to a pool and its leases. -/
inductive Act
  | register (d : Device)
  | setNullCount (count : Nat)
  | allocate (s : Selection)
  | giveBack (d : Device) (report : ReturnReport)
  | drop (d : Device)
  | edit (d edited : Device)

def handBack (c : Custody) (d : Device) (report : ReturnReport) : Custody :=
  if d ∈ c.leases then { pool := c.pool.release d report, leases := c.leases.erase d } else c

/-- A lease that is dropped tells nothing of its device.  Whoever edits a leased device leaves its
serial and kind. -/
def act (c : Custody) : Act → Custody
  | .register d => { c with pool := (c.pool.register d).2 }
  | .setNullCount count => { c with pool := c.pool.setNullCount count }
  | .allocate s =>
    match c.pool.allocate s with
    | none => c
    | some (d, pool) => { pool, leases := d :: c.leases }
  | .giveBack d report => c.handBack d report
  | .drop d => c.handBack d .unknown
  | .edit d edited =>
    if d ∈ c.leases ∧ edited.serial = d.serial ∧ edited.kind = d.kind then
      { c with leases := edited :: c.leases.erase d }
    else c

def run (c : Custody) (acts : List Act) : Custody :=
  acts.foldl act c

@[simp] theorem run_append (c : Custody) (before after : List Act) :
    c.run (before ++ after) = (c.run before).run after :=
  List.foldl_append

/-- The pool has lent out exactly the devices of the live leases. -/
def InOrder (c : Custody) : Prop :=
  c.pool.Lends c.leases

theorem InOrder.handBack {c : Custody} (h : c.InOrder) (d : Device) (report : ReturnReport) :
    (c.handBack d report).InOrder := by
  unfold Custody.handBack
  split
  · rename_i hd
    exact Pool.Lends.release h hd rfl report
  · exact h

theorem InOrder.act {c : Custody} (h : c.InOrder) (a : Act) : (c.act a).InOrder := by
  cases a with
  | register d => exact Pool.Lends.register h d
  | setNullCount count => exact Pool.Lends.setNullCount h count
  | allocate s =>
      rw [Custody.act]
      split
      · exact h
      · rename_i d pool halloc
        exact Pool.Lends.allocate h halloc
  | giveBack d report => exact h.handBack d report
  | drop d => exact h.handBack d .unknown
  | edit d edited =>
      rw [Custody.act]
      split
      · rename_i hedit
        exact Pool.Lends.edit h hedit.1 hedit.2.1
      · exact h

theorem InOrder.run {c : Custody} (h : c.InOrder) (acts : List Act) : (c.run acts).InOrder := by
  induction acts generalizing c with
  | nil => exact h
  | cons a rest ih => exact ih (h.act a)

/-- An act takes the slot of a serial away.  It can only be a resize, and the slot must have been
free and held a null device. -/
def Dismisses (c : Custody) (a : Act) (serial : String) : Prop :=
  (∃ count, a = .setNullCount count) ∧ serial ∉ (c.act a).pool.serials ∧
    ∃ slot ∈ c.pool.slots, slot.serial = serial ∧ slot.state = .free ∧
      ∃ d, slot.device = some d ∧ d.kind = .null

/-- The slot of a serial is taken away in the course of some acts. -/
def DismissesDuring (c : Custody) (acts : List Act) (serial : String) : Prop :=
  ∃ before a after, acts = before ++ a :: after ∧ (c.run before).Dismisses a serial

theorem DismissesDuring.append {c : Custody} {acts : List Act} {serial : String}
    (h : c.DismissesDuring acts serial) (more : List Act) :
    c.DismissesDuring (acts ++ more) serial := by
  obtain ⟨before, a, after, rfl, hdismiss⟩ := h
  exact ⟨before, a, after ++ more, by simp, hdismiss⟩

theorem serials_handBack {c : Custody} (h : c.InOrder) (d : Device) (report : ReturnReport) :
    (c.handBack d report).pool.serials = c.pool.serials := by
  unfold handBack
  split
  · rename_i hd
    exact Pool.map_serial_put_of_mem _ _ (h.serial_mem hd)
  · rfl

theorem serials_sublist_act {c : Custody} (h : c.InOrder) {a : Act}
    (ha : ∀ count, a ≠ .setNullCount count) : c.pool.serials.Sublist (c.act a).pool.serials := by
  cases a with
  | register d =>
      change c.pool.serials.Sublist (c.pool.register d).2.serials
      rw [Pool.serials_register h.serials_nodup]
      split
      · exact List.Sublist.refl _
      · exact List.sublist_append_left _ _
  | setNullCount count => exact absurd rfl (ha count)
  | allocate s =>
      rw [act]
      split
      · exact List.Sublist.refl _
      · rename_i d pool halloc
        obtain ⟨-, -, -, -, hserials, -⟩ :=
          Pool.exists_vacated_of_allocate h.serials_nodup halloc
        exact hserials ▸ List.Sublist.refl _
  | giveBack d report => exact serials_handBack h d report ▸ List.Sublist.refl _
  | drop d => exact serials_handBack h d .unknown ▸ List.Sublist.refl _
  | edit d edited =>
      rw [act]
      split <;> exact List.Sublist.refl _

theorem dismisses_of_not_mem_setNullCount {c : Custody} {count : Nat} {serial : String}
    (hmem : serial ∈ c.pool.serials)
    (hgone : serial ∉ (c.act (.setNullCount count)).pool.serials) :
    c.Dismisses (.setNullCount count) serial := by
  refine ⟨⟨count, rfl⟩, hgone, ?_⟩
  obtain ⟨slot, hslot, hserial⟩ := Pool.mem_serials.mp hmem
  have hadded := (Pool.prefix_slots_addNullDevices c.pool count).subset hslot
  have hsurplus : Pool.Surplus count slot = true := by
    by_contra hstays
    refine hgone (Pool.mem_serials.mpr ⟨slot, ?_, hserial⟩)
    exact List.mem_filter.mpr ⟨hadded, by simpa using hstays⟩
  simp only [Pool.Surplus, Bool.and_eq_true, Option.any_eq_true, beq_iff_eq, Device.isNull]
    at hsurplus
  obtain ⟨⟨d, hd, hnull, -⟩, hfree⟩ := hsurplus
  exact ⟨slot, hslot, hserial, hfree, d, hd, hnull⟩

theorem filter_mem_sublist {α : Type} [DecidableEq α] {xs ys : List α} (hnodup : xs.Nodup)
    (h : ys.Sublist xs) : xs.filter (· ∈ ys) = ys := by
  have hsublist : ys.Sublist (xs.filter (· ∈ ys)) := by
    have hfiltered := h.filter (· ∈ ys)
    rwa [List.filter_eq_self.mpr (by simp)] at hfiltered
  have hperm : ys.Perm (xs.filter (· ∈ ys)) := by
    rw [List.perm_ext_iff_of_nodup (h.nodup hnodup) (hnodup.filter _)]
    intro x
    rw [List.mem_filter, decide_eq_true_eq]
    exact ⟨fun hx => ⟨h.subset hx, hx⟩, And.right⟩
  exact (hsublist.eq_of_length hperm.length_eq).symm

theorem filter_serials_sublist_act {c : Custody} (h : c.InOrder) (a : Act) :
    (c.pool.serials.filter (· ∈ (c.act a).pool.serials)).Sublist (c.act a).pool.serials := by
  by_cases ha : ∃ count, a = .setNullCount count
  · obtain ⟨count, rfl⟩ := ha
    have hadded := h.addNullDevices count
    have hkept : (c.act (.setNullCount count)).pool.serials.Sublist
        (c.pool.addNullDevices count).serials := List.filter_sublist.map Slot.serial
    have hbefore : c.pool.serials.Sublist (c.pool.addNullDevices count).serials :=
      (Pool.prefix_slots_addNullDevices c.pool count).sublist.map Slot.serial
    have hfiltered := hbefore.filter (· ∈ (c.act (.setNullCount count)).pool.serials)
    rwa [filter_mem_sublist hadded.serials_nodup hkept] at hfiltered
  · exact List.filter_sublist.trans
      (serials_sublist_act h fun count heq => ha ⟨count, heq⟩)

theorem mem_or_dismisses_act {c : Custody} (h : c.InOrder) (a : Act) {serial : String}
    (hmem : serial ∈ c.pool.serials) :
    serial ∈ (c.act a).pool.serials ∨ c.Dismisses a serial := by
  by_cases hgone : serial ∈ (c.act a).pool.serials
  · exact .inl hgone
  · right
    by_cases ha : ∃ count, a = .setNullCount count
    · obtain ⟨count, rfl⟩ := ha
      exact dismisses_of_not_mem_setNullCount hmem hgone
    · exact absurd ((serials_sublist_act h fun count heq => ha ⟨count, heq⟩).subset hmem) hgone

theorem exists_kept_run {c : Custody} (h : c.InOrder) (acts : List Act) :
    ∃ kept : List String, kept.Sublist c.pool.serials ∧ kept.Sublist (c.run acts).pool.serials ∧
      ∀ serial ∈ c.pool.serials, serial ∈ kept ∨ c.DismissesDuring acts serial := by
  induction acts using List.reverseRecOn with
  | nil => exact ⟨c.pool.serials, List.Sublist.refl _, List.Sublist.refl _, fun _ hs => .inl hs⟩
  | append_singleton before a ih =>
      obtain ⟨kept, hfirst, hbefore, hsplit⟩ := ih
      have horder := h.run before
      have hlast : c.run (before ++ [a]) = (c.run before).act a := run_append ..
      rw [hlast]
      refine ⟨kept.filter (· ∈ ((c.run before).act a).pool.serials),
        List.filter_sublist.trans hfirst,
        (hbefore.filter _).trans (filter_serials_sublist_act horder a), ?_⟩
      intro serial hserial
      rcases hsplit serial hserial with hkept | hdismissed
      · rcases mem_or_dismisses_act horder a (hbefore.subset hkept) with hstays | hdismissed
        · exact .inl (List.mem_filter.mpr ⟨hkept, by simpa using hstays⟩)
        · exact .inr ⟨before, a, [], rfl, hdismissed⟩
      · exact .inr (hdismissed.append [a])

/-- However a pool is used from the start on: no serial has two slots.  A slot is allocated exactly
when it is empty, and exactly when one live lease carries its serial; no two live leases carry the
same serial, and each finds its slot when it is handed back.  A registered serial has a slot, and
from then on keeps it, in the same order among the others, unless it is dismissed. -/
theorem exclusive_and_conserved (acts : List Act) :
    let c := ({} : Custody).run acts
    c.pool.serials.Nodup ∧
    (∀ slot ∈ c.pool.slots,
      (slot.state = .allocated ↔ slot.device = none) ∧
      (slot.state = .allocated ↔ c.leases.countP (·.serial == slot.serial) = 1)) ∧
    (c.leases.map Device.serial).Nodup ∧
    (∀ d ∈ c.leases, d.serial ∈ c.pool.serials ∧
      ∀ report, (c.pool.release d report).serials = c.pool.serials) ∧
    (∀ d, d.serial ∈ (c.act (.register d)).pool.serials) ∧
    ∀ later, ∃ kept : List String,
      kept.Sublist c.pool.serials ∧ kept.Sublist (c.run later).pool.serials ∧
      ∀ serial ∈ c.pool.serials, serial ∈ kept ∨ c.DismissesDuring later serial := by
  intro c
  have h : c.InOrder := InOrder.run (c := {}) Pool.lends_empty acts
  refine ⟨h.serials_nodup, ?_, h.leases_nodup, ?_, ?_, exists_kept_run h⟩
  · intro slot hslot
    exact ⟨h.allocated_iff slot hslot, h.state_iff_countP hslot⟩
  · intro d hd
    exact ⟨h.serial_mem hd, fun report => Pool.map_serial_put_of_mem _ _ (h.serial_mem hd)⟩
  · intro d
    change d.serial ∈ (c.pool.register d).2.serials
    rw [Pool.serials_register h.serials_nodup]
    split
    · assumption
    · simp

end Custody

end DeviceLab
