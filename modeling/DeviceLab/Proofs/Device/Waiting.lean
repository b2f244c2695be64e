import DeviceLab.Device.Desk
import DeviceLab.Proofs.Device.Conservation

namespace DeviceLab

namespace Desk

/-- The pool of a desk and the devices of its leases. -/
def custody (desk : Desk) : Custody where
  pool := desk.pool
  leases := desk.leases.map Prod.snd

/-- No two leases of a desk have the same name. -/
def Named (desk : Desk) : Prop :=
  (desk.leases.map Prod.fst).Nodup

/-- What an errand comes to; nothing where it is about a lease that is not there. -/
def deed? (desk : Desk) : Errand → Option Custody.Act
  | .giveBack lease report => (desk.lease? lease).map (.giveBack · report)
  | .register d => some (.register d)

def deeds (desk : Desk) : List Errand → List Custody.Act
  | [] => []
  | errand :: rest => (desk.deed? errand).toList ++ (desk.run errand).2.deeds rest

variable {desk : Desk} {name : String} {d : Device}

theorem mem_of_lookup {leases : List (String × Device)} (h : leases.lookup name = some d) :
    (name, d) ∈ leases := by
  induction leases with
  | nil => cases h
  | cons first rest ih =>
      rw [List.lookup_cons] at h
      split at h
      · rename_i hname
        cases h
        rw [eq_of_beq hname]
        exact List.mem_cons_self
      · exact List.mem_cons_of_mem _ (ih h)

theorem mem_leases_of_lease? (h : desk.lease? name = some d) : d ∈ desk.custody.leases :=
  List.mem_map_of_mem (mem_of_lookup h)

theorem map_snd_filter_ne {leases : List (String × Device)} (hnames : (leases.map Prod.fst).Nodup)
    (hserials : ((leases.map Prod.snd).map Device.serial).Nodup)
    (h : leases.lookup name = some d) :
    (leases.filter (·.1 != name)).map Prod.snd = (leases.map Prod.snd).erase d := by
  induction leases with
  | nil => cases h
  | cons first rest ih =>
      obtain ⟨hname, hnames⟩ := List.nodup_cons.mp hnames
      obtain ⟨hserial, hserials⟩ := List.nodup_cons.mp hserials
      rw [List.lookup_cons] at h
      split at h
      · rename_i hfirst
        obtain rfl : name = first.1 := eq_of_beq hfirst
        obtain rfl : first.2 = d := Option.some.inj h
        have hothers : rest.filter (·.1 != first.1) = rest := by
          rw [List.filter_eq_self]
          intro lease hlease
          rw [bne_iff_ne]
          exact fun heq => hname (heq ▸ List.mem_map_of_mem hlease)
        rw [List.filter_cons_of_neg (by simp), hothers, List.map_cons, List.erase_cons_head]
      · rename_i hfirst
        have hne : first.2 ≠ d := by
          rintro rfl
          have hmem := List.mem_map_of_mem (f := Prod.snd) (mem_of_lookup h)
          exact hserial (List.mem_map_of_mem hmem)
        have hkept : first.1 ≠ name := fun heq => ne_of_beq_false hfirst heq.symm
        rw [List.filter_cons, if_pos (bne_iff_ne.mpr hkept), List.map_cons, List.map_cons,
          List.erase_cons_tail (by simpa using hne), ih hnames hserials h]

section errands

variable (hnamed : desk.Named) (horder : desk.custody.InOrder)

include hnamed horder

theorem custody_giveBack (report : ReturnReport) :
    (desk.giveBack name report).2.custody =
      desk.custody.run (desk.deed? (.giveBack name report)).toList := by
  rw [giveBack, deed?]
  cases hlease : desk.lease? name with
  | none => rfl
  | some d =>
      have hmem := mem_leases_of_lease? hlease
      have hrest := map_snd_filter_ne hnamed horder.leases_nodup hlease
      change _ = desk.custody.handBack d report
      rw [Custody.handBack, if_pos hmem]
      exact congrArg (Custody.mk (desk.pool.release d report)) hrest

theorem custody_run (errand : Errand) :
    (desk.run errand).2.custody = desk.custody.run (desk.deed? errand).toList := by
  cases errand with
  | giveBack lease report => exact custody_giveBack hnamed horder report
  | register d => rfl

omit horder in
theorem named_run (errand : Errand) : (desk.run errand).2.Named := by
  cases errand with
  | register d => exact hnamed
  | giveBack lease report =>
      change (desk.giveBack lease report).2.Named
      rw [giveBack]
      split
      · exact hnamed
      · exact (List.filter_sublist.map Prod.fst).nodup hnamed

end errands

theorem run_now (desk : Desk) (now : Nat) (errand : Errand) :
    { desk with now }.run errand = ((desk.run errand).1, { (desk.run errand).2 with now }) := by
  cases errand with
  | register d => rfl
  | giveBack lease report =>
      have hlease : { desk with now }.lease? lease = desk.lease? lease := rfl
      rw [run, run, giveBack, giveBack, hlease]
      cases desk.lease? lease <;> rfl

theorem deeds_now (desk : Desk) (now : Nat) (errands : List Errand) :
    { desk with now }.deeds errands = desk.deeds errands := by
  induction errands generalizing desk with
  | nil => rfl
  | cons errand rest ih =>
      have hrun : ({ desk with now }.run errand).2 = { (desk.run errand).2 with now } := by
        rw [run_now]
      have hdeed : { desk with now }.deed? errand = desk.deed? errand := by
        cases errand <;> rfl
      rw [deeds, deeds, hrun, hdeed, ih]

theorem deeds_prefix (desk : Desk) (front back : List Errand) :
    desk.deeds front <+: desk.deeds (front ++ back) := by
  induction front generalizing desk with
  | nil => exact List.nil_prefix
  | cons errand rest ih => exact List.prefix_append_right_inj _ |>.mpr (ih _)

theorem exists_custody_waitUntil (hnamed : desk.Named) (horder : desk.custody.InOrder)
    (deadline : Nat) (done : Pool → Bool) (woken : Bool) (agenda : List (Nat × Errand)) :
    ∃ front back, agenda = front ++ back ∧
      (desk.waitUntil deadline done woken agenda).Named ∧
      (desk.waitUntil deadline done woken agenda).custody =
        desk.custody.run (desk.deeds (front.map Prod.snd)) := by
  induction agenda generalizing desk woken with
  | nil => exact ⟨[], [], rfl, hnamed, rfl⟩
  | cons first rest ih =>
      obtain ⟨time, errand⟩ := first
      rw [waitUntil]
      split
      · exact ⟨[], (time, errand) :: rest, rfl, hnamed, rfl⟩
      · split
        · let later : Desk := { desk with now := max desk.now time }
          have hlater : later.Named := hnamed
          have hnext : (later.run errand).2.Named := named_run hlater errand
          have hcustody : (later.run errand).2.custody =
              desk.custody.run (desk.deed? errand).toList :=
            custody_run hlater horder errand
          have horder' : (later.run errand).2.custody.InOrder := hcustody ▸ horder.run _
          obtain ⟨front, back, hrest, hnamed', hwaited⟩ := ih hnext horder'
            ((later.run errand).1 || (woken && decide (time ≤ desk.now)))
          refine ⟨(time, errand) :: front, back, by rw [hrest, List.cons_append], hnamed', ?_⟩
          have hdeeds := deeds_now desk (max desk.now time) (errand :: front.map Prod.snd)
          rw [List.map_cons, ← hdeeds, deeds, Custody.run_append]
          rw [hcustody] at hwaited
          exact hwaited
        · exact ⟨[], (time, errand) :: rest, rfl, hnamed, rfl⟩

theorem lease?_keep (desk : Desk) (name : String) (d : Device) :
    (desk.keep name d).lease? name = some d :=
  List.lookup_cons_self

theorem exists_allocateWait (hnamed : desk.Named) (horder : desk.custody.InOrder) (s : Selection)
    (name : String) (timeout : Nat) :
    ∃ front back, desk.agenda = front ++ back ∧
      let claimed := (desk.custody.run (desk.deeds (front.map Prod.snd))).pool.allocate s
      (desk.allocateWait s name timeout).1 = claimed.map (·.1.serial) ∧
      ∀ d pool, claimed = some (d, pool) →
        (desk.allocateWait s name timeout).2.lease? name = some d := by
  have hclaim (waited : Desk) :
      (waited.allocate s name).1 = (waited.pool.allocate s).map (·.1.serial) ∧
      ∀ d pool, waited.pool.allocate s = some (d, pool) →
        (waited.allocate s name).2.lease? name = some d := by
    rw [allocate]
    cases hpool : waited.pool.allocate s with
    | none => exact ⟨rfl, nofun⟩
    | some claimed =>
        refine ⟨rfl, fun d pool heq => ?_⟩
        cases heq
        exact lease?_keep ..
  rw [allocateWait]
  split
  · exact ⟨[], desk.agenda, rfl, hclaim desk⟩
  · obtain ⟨front, back, hagenda, -, hcustody⟩ := exists_custody_waitUntil hnamed horder
      (desk.now + timeout) (fun pool => (pool.candidate? s).isSome) false desk.agenda
    refine ⟨front, back, hagenda, ?_⟩
    rw [← hcustody]
    exact hclaim _

end Desk

end DeviceLab
