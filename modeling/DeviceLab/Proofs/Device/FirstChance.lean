import DeviceLab.Ascending
import DeviceLab.Proofs.Device.Waiting

/-!
When a waiting claim is served.

An errand after which a slot newly suits wakes the waiter, and no errand takes a slot away that
suits.  So whoever waits is served at the first instant at which some slot suits, and leaves with
empty hands only at the deadline.
-/

namespace DeviceLab

/-- Some slot is free and holds a device that a selection accepts. -/
def Pool.Offers (pool : Pool) (s : Selection) : Prop :=
  ∃ slot ∈ pool.slots, slot.suits s = true

theorem Pool.allocate_eq_none_iff_not_offers {pool : Pool} {s : Selection} :
    pool.allocate s = none ↔ ¬ pool.Offers s := by
  rw [allocate_eq_none_iff, Offers]
  simp

theorem Pool.candidate?_isSome_iff_offers {pool : Pool} {s : Selection} :
    (pool.candidate? s).isSome = true ↔ pool.Offers s := by
  rw [← not_iff_not, ← allocate_eq_none_iff_not_offers, allocate, Option.map_eq_none_iff]
  simp

namespace Desk

variable {desk : Desk} {s : Selection} {name : String} {errand : Errand}

/-! Errands that are run. -/

def after (desk : Desk) (errands : List (Nat × Errand)) : Desk :=
  errands.foldl (fun desk e => (desk.run e.2).2) desk

theorem after_cons (desk : Desk) (e : Nat × Errand) (rest : List (Nat × Errand)) :
    desk.after (e :: rest) = (desk.run e.2).2.after rest := rfl

theorem after_append (desk : Desk) (front back : List (Nat × Errand)) :
    desk.after (front ++ back) = (desk.after front).after back :=
  List.foldl_append

theorem after_now (desk : Desk) (now : Nat) (errands : List (Nat × Errand)) :
    { desk with now }.after errands = { desk.after errands with now } := by
  induction errands generalizing desk with
  | nil => rfl
  | cons e rest ih => rw [after_cons, run_now, ih, after_cons]

theorem lease?_run_eq_none (hname : desk.lease? name = none) (errand : Errand) :
    (desk.run errand).2.lease? name = none := by
  cases errand with
  | register d => exact hname
  | giveBack lease report =>
      change (desk.giveBack lease report).2.lease? name = none
      rw [giveBack]
      split
      · exact hname
      · refine List.lookup_eq_none_iff.mpr fun other hother => ?_
        exact List.lookup_eq_none_iff.mp hname other (List.mem_of_mem_filter hother)

theorem lease?_after_eq_none (hname : desk.lease? name = none) (errands : List (Nat × Errand)) :
    (desk.after errands).lease? name = none := by
  induction errands generalizing desk with
  | nil => exact hname
  | cons e rest ih => exact ih (lease?_run_eq_none hname e.2)

section errands

variable (horder : desk.custody.InOrder)

include horder

theorem run_cases (errand : Errand) :
    (desk.run errand).2.pool = desk.pool ∨
    ∃ serial state d, (∀ slot ∈ desk.pool.slots, slot.serial = serial → slot.state ≠ .free) ∧
      (desk.run errand).2.pool = ⟨Pool.put serial state d desk.pool.slots⟩ ∧
      (desk.run errand).1 = (state == .free) := by
  cases errand with
  | register d =>
      change (desk.pool.register d).2 = desk.pool ∨ _
      rcases Pool.register_cases horder.serials_nodup d with ⟨-, hreg⟩ | ⟨hout, hreg⟩
      · exact .inl (congrArg Prod.snd hreg)
      · refine .inr ⟨d.serial, .free, d, fun slot hslot hserial => ?_, congrArg Prod.snd hreg,
          congrArg Prod.fst hreg⟩
        simp [hout slot hslot hserial]
  | giveBack lease report =>
      rw [run, giveBack]
      cases hlease : desk.lease? lease with
      | none => exact .inl rfl
      | some d =>
          refine .inr ⟨d.serial, Pool.returnState d report, Pool.returned d report,
            fun slot hslot hserial => ?_, rfl, rfl⟩
          have hlent := List.mem_map_of_mem (f := Device.serial) (mem_leases_of_lease? hlease)
          simp [(horder.state_iff_mem hslot).mpr (hserial ▸ hlent)]

theorem offers_run (hoffers : desk.pool.Offers s) (errand : Errand) :
    (desk.run errand).2.pool.Offers s := by
  rcases run_cases horder errand with hpool | ⟨serial, state, d, hout, hpool, -⟩
  · rwa [hpool]
  · obtain ⟨slot, hslot, hsuits⟩ := hoffers
    obtain ⟨-, hfree, -⟩ := Slot.suits_iff.mp hsuits
    rw [hpool]
    exact ⟨slot, (Pool.mem_put_iff horder.serials_nodup).mpr
      (.inr ⟨hslot, fun hserial => hout slot hslot hserial hfree⟩), hsuits⟩

/-- No wake-up is lost: an errand after which a slot suits, where none did, wakes the waiter. -/
theorem wakes_of_offers_run (hnone : ¬ desk.pool.Offers s)
    (hoffers : (desk.run errand).2.pool.Offers s) : (desk.run errand).1 = true := by
  rcases run_cases horder errand with hpool | ⟨serial, state, d, -, hpool, hwakes⟩
  · exact absurd (hpool ▸ hoffers) hnone
  · rw [hpool] at hoffers
    obtain ⟨slot, hslot, hsuits⟩ := hoffers
    rcases (Pool.mem_put_iff horder.serials_nodup).mp hslot with rfl | ⟨hslot, -⟩
    · obtain ⟨-, hfree, -⟩ := Slot.suits_iff.mp hsuits
      rw [hwakes, beq_iff_eq]
      exact hfree
    · exact absurd ⟨slot, hslot, hsuits⟩ hnone

theorem inOrder_run (hnamed : desk.Named) (errand : Errand) :
    (desk.run errand).2.custody.InOrder :=
  custody_run hnamed horder errand ▸ horder.run _

theorem inOrder_after (hnamed : desk.Named) (errands : List (Nat × Errand)) :
    (desk.after errands).Named ∧ (desk.after errands).custody.InOrder := by
  induction errands generalizing desk with
  | nil => exact ⟨hnamed, horder⟩
  | cons e rest ih => exact ih (inOrder_run horder hnamed e.2) (named_run hnamed e.2)

theorem offers_after (hnamed : desk.Named) (hoffers : desk.pool.Offers s)
    (errands : List (Nat × Errand)) : (desk.after errands).pool.Offers s := by
  induction errands generalizing desk with
  | nil => exact hoffers
  | cons e rest ih =>
      have horder' := inOrder_run horder hnamed e.2
      exact ih horder' (named_run hnamed e.2) (offers_run horder hoffers e.2)

end errands

/-! Waiting. -/

/-- The errands to come are sorted by their times, and none is overdue. -/
structure OnTime (desk : Desk) : Prop where
  sorted : desk.agenda.Pairwise (·.1 ≤ ·.1)
  due : ∀ e ∈ desk.agenda, desk.now ≤ e.1

theorem mem_enter {time : Nat} {errand : Errand} {agenda : List (Nat × Errand)}
    {e : Nat × Errand} : e ∈ enter time errand agenda ↔ e = (time, errand) ∨ e ∈ agenda := by
  induction agenda with
  | nil => simp [enter]
  | cons first rest ih =>
      rw [enter]
      split
      · exact List.mem_cons
      · rw [List.mem_cons, ih, List.mem_cons]
        exact or_left_comm

theorem pairwise_enter {agenda : List (Nat × Errand)} (h : agenda.Pairwise (·.1 ≤ ·.1))
    (time : Nat) (errand : Errand) : (enter time errand agenda).Pairwise (·.1 ≤ ·.1) := by
  induction agenda with
  | nil => exact List.pairwise_singleton ..
  | cons first rest ih =>
      obtain ⟨hfirst, hrest⟩ := List.pairwise_cons.mp h
      rw [enter]
      split
      · rename_i hlt
        refine List.pairwise_cons.mpr ⟨fun e he => ?_, h⟩
        rcases List.mem_cons.mp he with rfl | he
        · exact Nat.le_of_lt hlt
        · exact Nat.le_trans (Nat.le_of_lt hlt) (hfirst e he)
      · rename_i hle
        refine List.pairwise_cons.mpr ⟨fun e he => ?_, ih hrest⟩
        rcases mem_enter.mp he with rfl | he
        · exact Nat.not_lt.mp hle
        · exact hfirst e he

theorem OnTime.plan (h : desk.OnTime) (delay : Nat) (errand : Errand) :
    (desk.plan delay errand).OnTime where
  sorted := pairwise_enter h.sorted ..
  due e he := by
    rcases mem_enter.mp he with rfl | he
    · exact Nat.le_add_right ..
    · exact h.due e he

/-- A desk at an instant, once the errands due by then have been run. -/
def asOf (desk : Desk) (time : Nat) (agenda : List (Nat × Errand)) : Desk :=
  { desk.after (agenda.filter (·.1 ≤ time)) with
    now := time
    agenda := agenda.filter (time < ·.1) }

/-- A desk when an instant comes, before the errands due then are run. -/
def justBefore (desk : Desk) (time : Nat) (agenda : List (Nat × Errand)) : Desk :=
  { desk.after (agenda.filter (·.1 < time)) with
    now := time
    agenda := agenda.filter (time ≤ ·.1) }

theorem asOf_cons {e : Nat × Errand} {time : Nat} (h : e.1 ≤ time) (now : Nat)
    (rest : List (Nat × Errand)) :
    { (desk.run e.2).2 with now }.asOf time rest = desk.asOf time (e :: rest) := by
  rw [asOf, asOf, after_now, List.filter_cons_of_pos (by simpa using h), after_cons,
    List.filter_cons_of_neg (by simpa using h)]

theorem justBefore_cons {e : Nat × Errand} {time : Nat} (h : e.1 < time) (now : Nat)
    (rest : List (Nat × Errand)) :
    { (desk.run e.2).2 with now }.justBefore time rest = desk.justBefore time (e :: rest) := by
  rw [justBefore, justBefore, after_now, List.filter_cons_of_pos (by simpa using h), after_cons,
    List.filter_cons_of_neg (by simpa using h)]

theorem asOf_eq_self {time : Nat} {agenda : List (Nat × Errand)} (h : ∀ e ∈ agenda, time < e.1) :
    desk.asOf time agenda = { desk with now := time, agenda } := by
  rw [asOf, List.filter_eq_nil_iff.mpr (by simpa using h),
    List.filter_eq_self.mpr (by simpa using h)]
  rfl

theorem justBefore_eq_self {time : Nat} {agenda : List (Nat × Errand)}
    (h : ∀ e ∈ agenda, time ≤ e.1) :
    desk.justBefore time agenda = { desk with now := time, agenda } := by
  rw [justBefore, List.filter_eq_nil_iff.mpr (by simpa using h),
    List.filter_eq_self.mpr (by simpa using h)]
  rfl

theorem run_agenda (desk : Desk) (agenda : List (Nat × Errand)) (errand : Errand) :
    { desk with agenda }.run errand =
      ((desk.run errand).1, { (desk.run errand).2 with agenda }) := by
  cases errand with
  | register d => rfl
  | giveBack lease report =>
      have hlease : { desk with agenda }.lease? lease = desk.lease? lease := rfl
      rw [run, run, giveBack, giveBack, hlease]
      cases desk.lease? lease <;> rfl

theorem waitUntil_agenda (desk : Desk) (agenda : List (Nat × Errand)) (deadline : Nat)
    (done : Pool → Bool) (woken : Bool) (errands : List (Nat × Errand)) :
    { desk with agenda }.waitUntil deadline done woken errands =
      desk.waitUntil deadline done woken errands := by
  induction errands generalizing desk woken with
  | nil => rfl
  | cons first rest ih =>
      rw [waitUntil, waitUntil]
      have hrun := run_agenda { desk with now := max desk.now first.1 } agenda first.2
      simp only at hrun
      simp only [hrun, ih]

section stop

variable {deadline : Nat} {done : Pool → Bool} {woken : Bool} {agenda : List (Nat × Errand)}

theorem waitUntil_of_woken (hhead : ∀ e ∈ agenda.head?, desk.now < e.1)
    (hdone : done desk.pool = true) :
    desk.waitUntil deadline done true agenda = { desk with agenda } := by
  cases agenda with
  | nil => simp [waitUntil, hdone]
  | cons first rest => simp [waitUntil, hdone, hhead first rfl]

theorem waitUntil_nil_of_not_ready (hready : ¬ (woken = true ∧ done desk.pool = true)) :
    desk.waitUntil deadline done woken [] =
      { desk with now := max desk.now deadline, agenda := [] } := by
  rw [waitUntil, if_neg (by simpa using hready)]

theorem waitUntil_cons_of_not_ready {first : Nat × Errand} {rest : List (Nat × Errand)}
    (hready : ¬ (woken = true ∧ desk.now < first.1 ∧ done desk.pool = true)) :
    desk.waitUntil deadline done woken (first :: rest) =
      if max desk.now first.1 < deadline then
        { (desk.run first.2).2 with now := max desk.now first.1 }.waitUntil deadline done
          ((desk.run first.2).1 || (woken && decide (first.1 ≤ desk.now))) rest
      else { desk with now := max desk.now deadline, agenda := first :: rest } := by
  have hgoes : ¬ (woken && decide (desk.now < first.1) && done desk.pool) = true := by
    rw [Bool.and_eq_true, Bool.and_eq_true, decide_eq_true_eq, and_assoc]
    exact hready
  simp only [waitUntil, if_neg hgoes, run_now]

theorem waitUntil_of_not_done (hhead : ∀ e ∈ agenda.head?, desk.now < e.1)
    (hdone : done desk.pool = false) :
    desk.waitUntil deadline done true agenda = desk.waitUntil deadline done false agenda := by
  cases agenda with
  | nil => rw [waitUntil_nil_of_not_ready (by simp [hdone]), waitUntil_nil_of_not_ready (by simp)]
  | cons first rest =>
      rw [waitUntil_cons_of_not_ready (by simp [hdone]), waitUntil_cons_of_not_ready (by simp),
        decide_eq_false (Nat.not_le.mpr (hhead first rfl)), Bool.and_false, Bool.and_false]

theorem waitUntil_of_late (hlate : deadline ≤ desk.now) :
    desk.waitUntil deadline done woken agenda = { desk with agenda } := by
  have hmax : max desk.now deadline = desk.now := Nat.max_eq_left hlate
  cases agenda with
  | nil => simp [waitUntil, hmax]
  | cons first rest =>
      have hlate' : ¬ max desk.now first.1 < deadline :=
        Nat.not_lt.mpr (Nat.le_trans hlate (Nat.le_max_left ..))
      simp [waitUntil, hmax, hlate']

theorem waitUntil_looks (hhead : ∀ e ∈ agenda.head?, desk.now < e.1) :
    desk.waitUntil deadline done true agenda =
      if desk.now < deadline ∧ done desk.pool = false then
        desk.waitUntil deadline done false agenda
      else { desk with agenda } := by
  split
  · rename_i h
    exact waitUntil_of_not_done hhead h.2
  · rename_i h
    by_cases hlt : desk.now < deadline
    · refine waitUntil_of_woken hhead ?_
      by_contra hdone
      exact h ⟨hlt, by simpa using hdone⟩
    · exact waitUntil_of_late (Nat.not_lt.mp hlt)

/-- To wait is to sleep until the waiter is woken, to look, and to sleep again. -/
theorem waitUntil_sleeps_again (desk : Desk) (deadline : Nat) (done : Pool → Bool) (woken : Bool)
    (agenda : List (Nat × Errand)) :
    let woke := desk.waitUntil deadline (fun _ => true) woken agenda
    desk.waitUntil deadline done woken agenda =
      if woke.now < deadline ∧ done woke.pool = false then
        woke.waitUntil deadline done false woke.agenda
      else woke := by
  induction agenda generalizing desk woken with
  | nil =>
      intro woke
      cases woken with
      | true =>
          have hwoke : woke = { desk with agenda := [] } := waitUntil_of_woken nofun rfl
          rw [hwoke, waitUntil_agenda desk []]
          exact waitUntil_looks nofun
      | false =>
          have hwoke : woke = { desk with now := max desk.now deadline, agenda := [] } :=
            waitUntil_nil_of_not_ready (by simp)
          rw [hwoke, waitUntil_nil_of_not_ready (by simp),
            if_neg fun h => Nat.not_lt.mpr (Nat.le_max_right ..) h.1]
  | cons first rest ih =>
      intro woke
      by_cases hwoken : woken = true ∧ desk.now < first.1
      · obtain ⟨rfl, hlater⟩ := hwoken
        have hhead : ∀ e ∈ (first :: rest).head?, desk.now < e.1 := by simpa using hlater
        have hwoke : woke = { desk with agenda := first :: rest } := waitUntil_of_woken hhead rfl
        rw [hwoke, waitUntil_agenda desk (first :: rest)]
        exact waitUntil_looks hhead
      · have hwoke : woke = _ := waitUntil_cons_of_not_ready fun h => hwoken ⟨h.1, h.2.1⟩
        rw [hwoke, waitUntil_cons_of_not_ready fun h => hwoken ⟨h.1, h.2.1⟩]
        split
        · exact ih _ _
        · exact (if_neg fun h => Nat.not_lt.mpr (Nat.le_max_right ..) h.1).symm

end stop

/-- Wait for a slot that suits. -/
def waitFor (desk : Desk) (s : Selection) (deadline : Nat) (woken : Bool)
    (agenda : List (Nat × Errand)) : Desk :=
  desk.waitUntil deadline (fun pool => (pool.candidate? s).isSome) woken agenda

/-- The waiter has been woken in time for what is on offer. -/
def Alert (desk : Desk) (s : Selection) (deadline : Nat) (woken : Bool) : Prop :=
  desk.pool.Offers s → woken = true ∧ desk.now < deadline

section wait

variable {deadline : Nat} {woken : Bool} {first : Nat × Errand} {rest : List (Nat × Errand)}

theorem Alert.run (h : desk.Alert s deadline woken) (horder : desk.custody.InOrder)
    (hready : ¬ (desk.pool.Offers s ∧ desk.now < first.1)) (hlt : first.1 < deadline) :
    { (desk.run first.2).2 with now := first.1 }.Alert s deadline
      ((desk.run first.2).1 || (woken && decide (first.1 ≤ desk.now))) := by
  intro hoffers
  refine ⟨Bool.or_eq_true_iff.mpr ?_, hlt⟩
  by_cases hbefore : desk.pool.Offers s
  · right
    simpa [(h hbefore).1] using fun hlater => hready ⟨hbefore, hlater⟩
  · exact .inl (wakes_of_offers_run horder hbefore hoffers)

theorem waitFor_of_offers (hoffers : desk.pool.Offers s) {agenda : List (Nat × Errand)}
    (hhead : ∀ e ∈ agenda.head?, desk.now < e.1) :
    desk.waitFor s deadline true agenda = { desk with agenda } :=
  waitUntil_of_woken hhead (Pool.candidate?_isSome_iff_offers.mpr hoffers)

theorem waitFor_nil_of_not_offers (hnone : ¬ desk.pool.Offers s)
    (hdeadline : desk.now ≤ deadline) :
    desk.waitFor s deadline woken [] = { desk with now := deadline, agenda := [] } := by
  have hready := mt Pool.candidate?_isSome_iff_offers.mp hnone
  rw [waitFor, waitUntil_nil_of_not_ready fun h => hready h.2, Nat.max_eq_right hdeadline]

theorem waitFor_cons_of_not_ready (hready : ¬ (desk.pool.Offers s ∧ desk.now < first.1))
    (hnow : desk.now ≤ first.1) :
    desk.waitFor s deadline woken (first :: rest) =
      if first.1 < deadline then
        { (desk.run first.2).2 with now := first.1 }.waitFor s deadline
          ((desk.run first.2).1 || (woken && decide (first.1 ≤ desk.now))) rest
      else { desk with now := max desk.now deadline, agenda := first :: rest } := by
  rw [waitFor, waitUntil_cons_of_not_ready, Nat.max_eq_right hnow]
  · rfl
  · rw [Pool.candidate?_isSome_iff_offers]
    exact fun h => hready ⟨h.2.2, h.2.1⟩

/-- Whoever waits for a slot that suits goes on at the first instant at which there is one, or at
the deadline if there is none before. -/
theorem waitFor_cases (hnamed : desk.Named) (horder : desk.custody.InOrder)
    (hdeadline : desk.now ≤ deadline) (halert : desk.Alert s deadline woken)
    {agenda : List (Nat × Errand)} (hsorted : agenda.Pairwise (·.1 ≤ ·.1))
    (hdue : ∀ e ∈ agenda, desk.now ≤ e.1) :
    (∃ time, desk.now ≤ time ∧ time < deadline ∧
      desk.waitFor s deadline woken agenda = desk.asOf time agenda ∧
      (desk.asOf time agenda).pool.Offers s ∧
      (time = desk.now ∨ ¬ (desk.justBefore time agenda).pool.Offers s)) ∨
    desk.waitFor s deadline woken agenda = desk.justBefore deadline agenda ∧
      ¬ (desk.justBefore deadline agenda).pool.Offers s := by
  -- On the agenda: where the waiter is not served before the next errand, that errand is run, the
  -- clock moves to its instant, and the waiter is as alert as before.
  induction agenda generalizing desk woken with
  | nil =>
      by_cases hoffers : desk.pool.Offers s
      · left
        obtain ⟨rfl, hlt⟩ := halert hoffers
        exact ⟨desk.now, Nat.le_refl _, hlt, waitFor_of_offers hoffers nofun, hoffers, .inl rfl⟩
      · exact .inr ⟨waitFor_nil_of_not_offers hoffers hdeadline, hoffers⟩
  | cons first rest ih =>
      obtain ⟨hfirst, hrest⟩ := List.pairwise_cons.mp hsorted
      have hnow : desk.now ≤ first.1 := hdue first List.mem_cons_self
      have hall : ∀ e ∈ first :: rest, first.1 ≤ e.1 := by
        intro e he
        rcases List.mem_cons.mp he with rfl | he
        · exact Nat.le_refl _
        · exact hfirst e he
      by_cases hready : desk.pool.Offers s ∧ desk.now < first.1
      · left
        obtain ⟨hoffers, hlater⟩ := hready
        obtain ⟨rfl, hlt⟩ := halert hoffers
        have hself : desk.asOf desk.now (first :: rest) = { desk with agenda := first :: rest } :=
          asOf_eq_self fun e he => Nat.lt_of_lt_of_le hlater (hall e he)
        exact ⟨desk.now, Nat.le_refl _, hlt,
          hself ▸ waitFor_of_offers hoffers (by simpa using hlater), hself ▸ hoffers, .inl rfl⟩
      · rw [waitFor_cons_of_not_ready hready hnow]
        split
        · rename_i hlt
          let next : Desk := { (desk.run first.2).2 with now := first.1 }
          have hnamed' : next.Named := named_run hnamed first.2
          have horder' : next.custody.InOrder := inOrder_run horder hnamed first.2
          rcases ih hnamed' horder' (Nat.le_of_lt hlt) (halert.run horder hready hlt) hrest hfirst
            with ⟨time, hle, htime, hwaited, hoffers, hwhen⟩ | ⟨hwaited, hnone⟩
          · left
            rw [asOf_cons hle] at hwaited hoffers
            refine ⟨time, Nat.le_trans hnow hle, htime, hwaited, hoffers, ?_⟩
            by_cases hsame : time = first.1
            · subst hsame
              refine (Nat.eq_or_lt_of_le hnow).imp Eq.symm fun hlater hbefore => ?_
              rw [justBefore_eq_self hall] at hbefore
              exact hready ⟨hbefore, hlater⟩
            · right
              rw [← justBefore_cons (Nat.lt_of_le_of_ne hle (Ne.symm hsame)) first.1]
              exact hwhen.resolve_left hsame
          · right
            rw [justBefore_cons hlt] at hwaited hnone
            exact ⟨hwaited, hnone⟩
        · right
          rename_i hlate
          have hself : desk.justBefore deadline (first :: rest) =
              { desk with now := deadline, agenda := first :: rest } :=
            justBefore_eq_self fun e he => Nat.le_trans (Nat.not_lt.mp hlate) (hall e he)
          rw [hself, Nat.max_eq_right hdeadline]
          exact ⟨rfl, fun hoffers =>
            hready ⟨hoffers, Nat.lt_of_lt_of_le (halert hoffers).2 (Nat.not_lt.mp hlate)⟩⟩

end wait

/-! Chances. -/

/-- Right after an errand that is due at an instant, some slot suits. -/
def Chance (desk : Desk) (s : Selection) (time : Nat) : Prop :=
  ∃ front e back, desk.agenda = front ++ e :: back ∧ e.1 = time ∧
    (desk.after (front ++ [e])).pool.Offers s

/-- There is a chance at an instant, and none before. -/
def FirstChance (desk : Desk) (s : Selection) (time : Nat) : Prop :=
  desk.Chance s time ∧ ∀ earlier < time, ¬ desk.Chance s earlier

theorem FirstChance.eq {time other : Nat} (h : desk.FirstChance s time)
    (hother : desk.FirstChance s other) : time = other := by
  rcases Nat.lt_trichotomy time other with hlt | heq | hlt
  · exact absurd h.1 (hother.2 time hlt)
  · exact heq
  · exact absurd hother.1 (h.2 other hlt)

theorem Chance.now_le {time : Nat} (h : desk.Chance s time) (honTime : desk.OnTime) :
    desk.now ≤ time := by
  obtain ⟨front, e, back, hagenda, rfl, -⟩ := h
  exact honTime.due e (by simp [hagenda])

/-- A claim takes the device out of the first slot that suits, keeps it under the name, and leaves
everything else as it is. -/
def Claims (desk : Desk) (s : Selection) (name : String) (result : Option String × Desk) : Prop :=
  ∃ front slot back d, desk.pool.slots = front ++ slot :: back ∧
    (∀ other ∈ front, other.suits s = false) ∧ slot.Offers s d ∧
    result = (some d.serial,
      { desk with pool := ⟨front ++ slot.vacate :: back⟩, leases := (name, d) :: desk.leases })

theorem filter_append_cons {agenda front back : List (Nat × Errand)} {e : Nat × Errand}
    (hsorted : agenda.Pairwise (·.1 ≤ ·.1)) (hagenda : agenda = front ++ e :: back)
    {p : Nat → Bool} (hp : ∀ a b, a ≤ b → p b = true → p a = true) (he : p e.1 = true) :
    agenda.filter (fun e => p e.1) = (front ++ [e]) ++ back.filter fun e => p e.1 := by
  subst hagenda
  have hfront : front.filter (fun e => p e.1) = front := by
    rw [List.filter_eq_self]
    intro a ha
    exact hp _ _ ((List.pairwise_append.mp hsorted).2.2 a ha e List.mem_cons_self) he
  rw [List.filter_append, hfront, List.filter_cons, if_pos he, List.append_assoc,
    List.singleton_append]

section chances

variable {time : Nat} (hnamed : desk.Named) (horder : desk.custody.InOrder)
  (hsorted : desk.agenda.Pairwise (·.1 ≤ ·.1))

include hnamed horder hsorted

theorem Chance.offers_filter (hchance : desk.Chance s time) (p : Nat → Bool)
    (hp : ∀ a b, a ≤ b → p b = true → p a = true) (htime : p time = true) :
    (desk.after (desk.agenda.filter fun e => p e.1)).pool.Offers s := by
  obtain ⟨front, e, back, hagenda, rfl, hoffers⟩ := hchance
  obtain ⟨horder', hnamed'⟩ := inOrder_after horder hnamed (front ++ [e])
  rw [filter_append_cons hsorted hagenda hp htime, after_append]
  exact offers_after hnamed' horder' hoffers _

theorem Chance.offers_justBefore {later : Nat} (hchance : desk.Chance s time)
    (hlt : time < later) : (desk.justBefore later desk.agenda).pool.Offers s :=
  hchance.offers_filter hnamed horder hsorted (· < later)
    (fun _ _ hab hb => decide_eq_true (Nat.lt_of_le_of_lt hab (of_decide_eq_true hb)))
    (decide_eq_true hlt)

omit hnamed horder in
theorem exists_chance_of_offers (hnone : ¬ desk.pool.Offers s)
    (hoffers : (desk.asOf time desk.agenda).pool.Offers s) :
    ∃ earlier ≤ time, desk.Chance s earlier := by
  change (desk.after (desk.agenda.filter (·.1 ≤ time))).pool.Offers s at hoffers
  rcases List.eq_nil_or_concat (desk.agenda.filter (·.1 ≤ time)) with hnil | ⟨front, e, hfront⟩
  · rw [hnil] at hoffers
    exact absurd hoffers hnone
  · rw [List.concat_eq_append] at hfront
    have he : e ∈ desk.agenda.filter (·.1 ≤ time) := by simp [hfront]
    have hagenda := (filter_le_append_filter_lt hsorted time).symm
    rw [hfront, List.append_assoc, List.singleton_append] at hagenda
    have hle : e.1 ≤ time := by simpa using (List.mem_filter.mp he).2
    exact ⟨e.1, hle, front, e, _, hagenda, rfl, hfront ▸ hoffers⟩

omit hsorted in
theorem waitFor_of_not_offers (honTime : desk.OnTime) (hstart : ¬ desk.pool.Offers s)
    {deadline : Nat} (hdeadline : desk.now ≤ deadline) :
    (∃ time < deadline, desk.FirstChance s time ∧ (desk.asOf time desk.agenda).pool.Offers s ∧
      desk.waitFor s deadline false desk.agenda = desk.asOf time desk.agenda) ∨
    (∀ time < deadline, ¬ desk.Chance s time) ∧
      ¬ (desk.justBefore deadline desk.agenda).pool.Offers s ∧
      desk.waitFor s deadline false desk.agenda = desk.justBefore deadline desk.agenda := by
  have hsorted := honTime.sorted
  have halert : desk.Alert s deadline false := fun hoffers => absurd hoffers hstart
  rcases waitFor_cases hnamed horder hdeadline halert hsorted honTime.due with
    ⟨time, -, htime, hwaited, hoffers, hwhen⟩ | ⟨hwaited, hnone⟩
  · left
    have hnever : ∀ earlier < time, ¬ desk.Chance s earlier := by
      intro earlier hearlier hchance
      rcases hwhen with rfl | hnone
      · exact absurd (hchance.now_le honTime) (Nat.not_le.mpr hearlier)
      · exact hnone (hchance.offers_justBefore hnamed horder hsorted hearlier)
    obtain ⟨first, hfirst, hchance⟩ := exists_chance_of_offers hsorted hstart hoffers
    obtain rfl : first = time :=
      (Nat.eq_or_lt_of_le hfirst).resolve_right fun hlt => hnever first hlt hchance
    exact ⟨first, htime, ⟨hchance, hnever⟩, hoffers, hwaited⟩
  · right
    exact ⟨fun time htime hchance =>
      hnone (hchance.offers_justBefore hnamed horder hsorted htime), hnone, hwaited⟩

end chances

theorem claims_allocate (hoffers : desk.pool.Offers s) (hname : desk.lease? name = none) :
    desk.Claims s name (desk.allocate s name) := by
  cases halloc : desk.pool.allocate s with
  | none => exact absurd hoffers (Pool.allocate_eq_none_iff_not_offers.mp halloc)
  | some claimed =>
      obtain ⟨d, pool⟩ := claimed
      obtain ⟨front, slot, back, hslots, hfront, hsuits, hdevice, hnext⟩ :=
        Pool.exists_of_allocate_eq_some halloc
      obtain ⟨d', hfree, hdevice', hadmits⟩ := Slot.suits_iff.mp hsuits
      have hd : d' = d := Option.some.inj (hdevice'.symm.trans hdevice)
      have hkeep : { desk with pool }.keep name d =
          { desk with pool, leases := (name, d) :: desk.leases } := by
        have hname' : { desk with pool }.lease? name = none := hname
        rw [keep, giveBack, hname']
      refine ⟨front, slot, back, d, hslots, hfront, ⟨hfree, hdevice, hd ▸ hadmits⟩, ?_⟩
      rw [allocate, halloc, ← hnext]
      exact congrArg (Prod.mk _) hkeep

theorem allocate_of_not_offers (hnone : ¬ desk.pool.Offers s) (name : String) :
    desk.allocate s name = (none, desk) := by
  rw [allocate, Pool.allocate_eq_none_iff_not_offers.mpr hnone]

theorem Claims.answer_ne_none {result : Option String × Desk} (h : desk.Claims s name result) :
    result.1 ≠ none := by
  obtain ⟨front, slot, back, d, -, -, -, rfl⟩ := h
  nofun

/-- However a pool has been used, and whatever errands are to come at a desk: a claim that waits is
served at once if some slot suits.  Otherwise it is served at the first instant before the deadline
at which some slot suits after an errand, once the errands of that instant have been run.  It takes
the first slot that suits and changes nothing else.  It ends with empty hands exactly if no slot
suits at the start or after any errand before the deadline, and then it ends at the deadline and
leaves all slots as the errands have put them. -/
theorem allocateWait_at_first_chance (acts : List Custody.Act)
    (hdesk : desk.custody = ({} : Custody).run acts) (hnamed : desk.Named)
    (honTime : desk.OnTime) (hname : desk.lease? name = none) (s : Selection) (timeout : Nat) :
    let deadline := desk.now + timeout
    let result := desk.allocateWait s name timeout
    (desk.pool.Offers s → desk.Claims s name result) ∧
    (¬ desk.pool.Offers s → ∀ time < deadline, desk.FirstChance s time →
      (desk.asOf time desk.agenda).Claims s name result) ∧
    (result.1 = none ↔ ¬ desk.pool.Offers s ∧ ∀ time < deadline, ¬ desk.Chance s time) ∧
    (result.1 = none → result.2 = desk.justBefore deadline desk.agenda) := by
  intro deadline result
  have horder : desk.custody.InOrder := hdesk ▸ Custody.InOrder.run (c := {}) Pool.lends_empty acts
  by_cases hstart : desk.pool.Offers s
  · have hclaims : desk.Claims s name result := by
      have hnow : result = desk.allocate s name :=
        if_pos (Pool.candidate?_isSome_iff_offers.mpr hstart)
      exact hnow ▸ claims_allocate hstart hname
    have hserved := hclaims.answer_ne_none
    exact ⟨fun _ => hclaims, fun hnone => absurd hstart hnone,
      ⟨fun h => absurd h hserved, fun h => absurd hstart h.1⟩, fun h => absurd h hserved⟩
  · have hwaits : result = (desk.waitFor s deadline false desk.agenda).allocate s name :=
      if_neg (mt Pool.candidate?_isSome_iff_offers.mp hstart)
    -- The wait ends at the first chance or at the deadline, and only then is a device taken.
    rcases waitFor_of_not_offers hnamed horder honTime hstart (Nat.le_add_right ..) with
      ⟨time, htime, hfirst, hoffers, hwaited⟩ | ⟨hnever, hnone, hwaited⟩
    · have hclaims : (desk.asOf time desk.agenda).Claims s name result := by
        rw [hwaits, hwaited]
        exact claims_allocate hoffers (lease?_after_eq_none hname _)
      have hserved := hclaims.answer_ne_none
      exact ⟨fun h => absurd h hstart, fun _ other _ hother => hother.eq hfirst ▸ hclaims,
        ⟨fun h => absurd h hserved, fun h => absurd hfirst.1 (h.2 time htime)⟩,
        fun h => absurd h hserved⟩
    · rw [hwaited, allocate_of_not_offers hnone] at hwaits
      exact ⟨fun h => absurd h hstart,
        fun _ time htime hfirst => absurd hfirst.1 (hnever time htime),
        ⟨fun _ => ⟨hstart, hnever⟩, fun _ => congrArg Prod.fst hwaits⟩,
        fun _ => congrArg Prod.snd hwaits⟩

theorem allocateWait_at_first_chance_of_lost :
    let lost : Device := { serial := "SER1" }
    let well : Device := { serial := "SER2" }
    let start : Desk :=
      { pool := ({} : Custody).run
          [.register lost, .register well, .allocate {}, .allocate {}] |>.pool
        leases := [("second", well), ("first", lost)] }
    let desk := (start.plan 20 (.giveBack "second" .available)).plan 10
      (.giveBack "first" .unavailable)
    desk.FirstChance {} 20 ∧
    (desk.asOf 20 desk.agenda).Claims {} "third" (desk.allocateWait {} "third" 50) ∧
    (desk.allocateWait {} "third" 20).1 = none ∧
    (desk.allocateWait {} "third" 20).2.pool.stateOf? "SER2" = some .allocated := by
  intro lost well start desk
  have hstart : start.OnTime := ⟨List.Pairwise.nil, nofun⟩
  have honTime : desk.OnTime := (hstart.plan 20 _).plan 10 _
  have hdesk : desk.custody =
      ({} : Custody).run [.register lost, .register well, .allocate {}, .allocate {}] := by
    decide +kernel
  have hnamed : desk.Named := by
    change (desk.leases.map Prod.fst).Nodup
    decide +kernel
  have hname : desk.lease? "third" = none := by decide +kernel
  obtain ⟨-, -, hnone, hleft⟩ :=
    allocateWait_at_first_chance _ hdesk hnamed honTime hname {} 20
  obtain ⟨-, hserved, -, -⟩ := allocateWait_at_first_chance _ hdesk hnamed honTime hname {} 50
  have hanswer : (desk.allocateWait {} "third" 20).1 = none := by decide +kernel
  obtain ⟨hstart', hnever⟩ := hnone.mp hanswer
  have hfirst : desk.FirstChance {} 20 := by
    refine ⟨⟨[(10, .giveBack "first" .unavailable)], (20, .giveBack "second" .available), [],
      by decide +kernel, rfl, ?_⟩, hnever⟩
    rw [← Pool.candidate?_isSome_iff_offers]
    decide +kernel
  refine ⟨hfirst, hserved hstart' 20 (by decide +kernel) hfirst, hanswer, ?_⟩
  rw [hleft hanswer]
  decide +kernel

end Desk

end DeviceLab
