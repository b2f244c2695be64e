import DeviceLab.Proofs.Device.Slots
import DeviceLab.Scheduler.Allocation

namespace DeviceLab.Scheduler

variable {now : Nat} {max? : Option Nat}

theorem atCapacity_iff {inFlight : Nat} :
    atCapacity max? inFlight = true ↔ ∃ m, max? = some m ∧ m ≤ inFlight := by
  simp [atCapacity, Option.any_eq_true]

theorem atCapacity_mono {n m : Nat} (hle : n ≤ m) (h : atCapacity max? n = true) :
    atCapacity max? m = true := by
  obtain ⟨cap, hcap, hn⟩ := atCapacity_iff.mp h
  exact atCapacity_iff.mpr ⟨cap, hcap, Nat.le_trans hn hle⟩

/-- A pass leaves a command waiting: it is not ready, no free device suits it, or no more runs are
allowed. -/
def Blocked (now : Nat) (max? : Option Nat) (pool : Pool) (inFlight : Nat)
    (q : QueuedCommand) : Prop :=
  q.isReady now = false ∨ (∀ slot ∈ pool.slots, slot.suits q.selection = false) ∨
    atCapacity max? inFlight = true

theorem allocate_of_atCapacity {pool : Pool} {n : Nat} (h : atCapacity max? n = true)
    (entries : List QueuedCommand) :
    allocate now max? pool n entries = { waiting := entries, pool, inFlight := n } := by
  cases entries with
  | nil => rfl
  | cons q rest => rw [allocate, if_pos h]

/-- A command that waits on is passed over: the others are served as if it were not there. -/
theorem allocate_cons_of_blocked {pool : Pool} {n : Nat} {q : QueuedCommand}
    (h : Blocked now max? pool n q) (rest : List QueuedCommand) :
    allocate now max? pool n (q :: rest) =
      { allocate now max? pool n rest with
        waiting := q :: (allocate now max? pool n rest).waiting } := by
  rw [allocate]
  split
  · rename_i hcap
    rw [allocate_of_atCapacity hcap]
  · rename_i hcap
    split
    · rfl
    · rename_i hready
      have hnone : pool.allocate q.selection = none := by
        rcases h with hwait | hnone | hfull
        · exact absurd (by simpa using hwait) hready
        · exact Pool.allocate_eq_none_iff.mpr hnone
        · exact absurd hfull hcap
      rw [hnone]

theorem allocate_cons_of_claim {pool next : Pool} {n : Nat} {q : QueuedCommand} {d : Device}
    (hready : q.isReady now = true) (hcap : atCapacity max? n = false)
    (halloc : pool.allocate q.selection = some (d, next)) (rest : List QueuedCommand) :
    allocate now max? pool n (q :: rest) =
      { allocate now max? next (n + 1) rest with
        started := (q, d) :: (allocate now max? next (n + 1) rest).started } := by
  rw [allocate]
  simp [hready, hcap, halloc]

theorem blocked_or_claim (now : Nat) (max? : Option Nat) (pool : Pool) (n : Nat)
    (q : QueuedCommand) :
    Blocked now max? pool n q ∨ ∃ d next, q.isReady now = true ∧ atCapacity max? n = false ∧
      pool.allocate q.selection = some (d, next) := by
  cases hready : q.isReady now with
  | false => exact .inl (.inl hready)
  | true =>
      cases hcap : atCapacity max? n with
      | true => exact .inl (.inr (.inr hcap))
      | false =>
          cases halloc : pool.allocate q.selection with
          | none => exact .inl (.inr (.inl (Pool.allocate_eq_none_iff.mp halloc)))
          | some claim => exact .inr ⟨claim.1, claim.2, rfl, rfl, rfl⟩

theorem allocate_append (pool : Pool) (n : Nat) (front back : List QueuedCommand) :
    allocate now max? pool n (front ++ back) =
      let a := allocate now max? pool n front
      let b := allocate now max? a.pool a.inFlight back
      { started := a.started ++ b.started, waiting := a.waiting ++ b.waiting
        pool := b.pool, inFlight := b.inFlight } := by
  induction front generalizing pool n with
  | nil => rfl
  | cons q rest ih =>
      rw [List.cons_append]
      rcases blocked_or_claim now max? pool n q with hblocked | ⟨d, next, hready, hcap, halloc⟩
      · rw [allocate_cons_of_blocked hblocked, allocate_cons_of_blocked hblocked, ih]
        rfl
      · rw [allocate_cons_of_claim hready hcap halloc, allocate_cons_of_claim hready hcap halloc,
          ih]
        rfl

theorem inFlight_allocate (pool : Pool) (n : Nat) (entries : List QueuedCommand) :
    (allocate now max? pool n entries).inFlight =
      n + (allocate now max? pool n entries).started.length := by
  induction entries generalizing pool n with
  | nil => rfl
  | cons q rest ih =>
      rcases blocked_or_claim now max? pool n q with hblocked | ⟨d, next, hready, hcap, halloc⟩
      · rw [allocate_cons_of_blocked hblocked]
        exact ih pool n
      · rw [allocate_cons_of_claim hready hcap halloc, List.length_cons, ih]
        omega

theorem inFlight_allocate_le {m : Nat} (hmax : max? = some m) (pool : Pool) (n : Nat)
    (entries : List QueuedCommand) :
    (allocate now max? pool n entries).inFlight ≤ max m n := by
  induction entries generalizing pool n with
  | nil => exact Nat.le_max_right ..
  | cons q rest ih =>
      rcases blocked_or_claim now max? pool n q with hblocked | ⟨d, next, hready, hcap, halloc⟩
      · rw [allocate_cons_of_blocked hblocked]
        exact ih pool n
      · rw [allocate_cons_of_claim hready hcap halloc]
        have hroom : n < m := by
          simpa [atCapacity, hmax] using hcap
        have hrest := ih next (n + 1)
        change (allocate now max? next (n + 1) rest).inFlight ≤ max m n
        omega

theorem started_waiting_perm (pool : Pool) (n : Nat) (entries : List QueuedCommand) :
    ((allocate now max? pool n entries).started.map Prod.fst ++
      (allocate now max? pool n entries).waiting).Perm entries := by
  induction entries generalizing pool n with
  | nil => exact List.Perm.nil
  | cons q rest ih =>
      rcases blocked_or_claim now max? pool n q with hblocked | ⟨d, next, hready, hcap, halloc⟩
      · rw [allocate_cons_of_blocked hblocked]
        exact List.perm_middle.trans ((ih pool n).cons q)
      · rw [allocate_cons_of_claim hready hcap halloc]
        exact (ih next (n + 1)).cons q

theorem started_sublist (pool : Pool) (n : Nat) (entries : List QueuedCommand) :
    ((allocate now max? pool n entries).started.map Prod.fst).Sublist entries := by
  induction entries generalizing pool n with
  | nil => exact List.Sublist.refl _
  | cons q rest ih =>
      rcases blocked_or_claim now max? pool n q with hblocked | ⟨d, next, hready, hcap, halloc⟩
      · rw [allocate_cons_of_blocked hblocked]
        exact (ih pool n).cons q
      · rw [allocate_cons_of_claim hready hcap halloc]
        exact (ih next (n + 1)).cons_cons q

theorem isReady_of_mem_started {pool : Pool} {n : Nat} {entries : List QueuedCommand}
    {q : QueuedCommand} {d : Device}
    (h : (q, d) ∈ (allocate now max? pool n entries).started) : q.isReady now = true := by
  induction entries generalizing pool n with
  | nil => simp [allocate] at h
  | cons first rest ih =>
      rcases blocked_or_claim now max? pool n first with
        hblocked | ⟨d', next, hready, hcap, halloc⟩
      · rw [allocate_cons_of_blocked hblocked] at h
        exact ih h
      · rw [allocate_cons_of_claim hready hcap halloc] at h
        rcases List.mem_cons.mp h with heq | h
        · rwa [(Prod.mk.inj heq).1]
        · exact ih h

/-- The commands started get slots by first fit: each in turn gets the first slot that offers it a
device and is not claimed before, and the device in it.  The last list holds the numbers of these
slots. -/
inductive FirstFit (slots : List Slot) :
    List Nat → List (QueuedCommand × Device) → List Nat → Prop
  | nil {claimed : List Nat} : FirstFit slots claimed [] []
  | cons {claimed claims : List Nat} {started : List (QueuedCommand × Device)}
      {q : QueuedCommand} {d : Device} {k : Nat} {slot : Slot}
      (hunclaimed : k ∉ claimed) (hslot : slots[k]? = some slot)
      (hoffers : slot.Offers q.selection d)
      (hfirst : ∀ j < k, ∀ (other : Slot) (e : Device), slots[j]? = some other →
        other.Offers q.selection e → j ∈ claimed)
      (hrest : FirstFit slots (k :: claimed) started claims) :
      FirstFit slots claimed ((q, d) :: started) (k :: claims)

/-- First fit after a slot was vacated is first fit with that slot claimed. -/
theorem FirstFit.of_vacated {slots next : List Slot} {k : Nat}
    (hnext : ∀ j : Nat, next[j]? =
      slots[j]?.map fun other => if j = k then other.vacate else other)
    {claimed claims : List Nat} {started : List (QueuedCommand × Device)}
    (h : FirstFit next claimed started claims) {before : List Nat}
    (hbefore : ∀ j, j ∈ before ↔ j = k ∨ j ∈ claimed) : FirstFit slots before started claims := by
  induction h generalizing before with
  | nil => exact .nil
  | @cons claimed claims started q d l slot hunclaimed hslot hoffers hfirst hrest ih =>
      have hother : ∀ j ≠ k, next[j]? = slots[j]? := by
        intro j hj
        simp [hnext, hj]
      have hl : l ≠ k := by
        rintro rfl
        rw [hnext, Option.map_eq_some_iff] at hslot
        obtain ⟨old, -, rfl⟩ := hslot
        simp [Slot.Offers, Slot.vacate] at hoffers
      refine .cons ?_ (hother l hl ▸ hslot) hoffers ?_ (ih fun j => ?_)
      · rw [hbefore]
        exact fun h => h.elim hl hunclaimed
      · intro j hj other e hget hoffer
        by_cases heq : j = k
        · exact (hbefore j).mpr (.inl heq)
        · exact (hbefore j).mpr (.inr (hfirst j hj other e (hother j heq ▸ hget) hoffer))
      · rw [List.mem_cons, List.mem_cons, hbefore]
        exact or_left_comm

theorem FirstFit.nodup {slots : List Slot} {claimed claims : List Nat}
    {started : List (QueuedCommand × Device)} (h : FirstFit slots claimed started claims) :
    claims.Nodup ∧ ∀ k ∈ claims, k ∉ claimed := by
  induction h with
  | nil => simp
  | cons hunclaimed _ _ _ _ ih =>
      obtain ⟨hnodup, hfresh⟩ := ih
      refine ⟨List.nodup_cons.mpr ⟨fun hk => ?_, hnodup⟩, fun j hj => ?_⟩
      · exact hfresh _ hk List.mem_cons_self
      · rcases List.mem_cons.mp hj with rfl | hj
        · exact hunclaimed
        · exact fun hclaimed => hfresh j hj (List.mem_cons_of_mem _ hclaimed)

/-- A pass serves the commands by first fit, and vacates exactly the slots that are claimed. -/
theorem exists_firstFit (pool : Pool) (n : Nat) (entries : List QueuedCommand) :
    ∃ claims : List Nat,
      FirstFit pool.slots [] (allocate now max? pool n entries).started claims ∧
      ∀ j : Nat, (allocate now max? pool n entries).pool.slots[j]? =
        pool.slots[j]?.map fun slot => if j ∈ claims then slot.vacate else slot := by
  induction entries generalizing pool n with
  | nil => exact ⟨[], .nil, by simp [allocate]⟩
  | cons q rest ih =>
      rcases blocked_or_claim now max? pool n q with hblocked | ⟨d, next, hready, hcap, halloc⟩
      · rw [allocate_cons_of_blocked hblocked]
        exact ih pool n
      · rw [allocate_cons_of_claim hready hcap halloc]
        obtain ⟨k, slot, hslot, hoffers, hfirst, hnext⟩ := Pool.exists_number_of_allocate halloc
        obtain ⟨claims, hfit, hpool⟩ := ih next (n + 1)
        refine ⟨k :: claims, .cons (by simp) hslot hoffers ?_ ?_, fun j => ?_⟩
        · intro j hj other e hget hoffer
          have hsuits := Slot.suits_iff.mpr ⟨e, hoffer⟩
          rw [hfirst j hj other hget] at hsuits
          simp at hsuits
        · exact hfit.of_vacated hnext (by simp)
        · change (allocate now max? next (n + 1) rest).pool.slots[j]? = _
          rw [hpool, hnext, Option.map_map]
          congr 1
          funext other
          by_cases hk : j = k <;> by_cases hj : j ∈ claims <;>
            simp [hk, hj, Slot.vacate]

theorem mem_of_suits_allocate {pool : Pool} {n : Nat} {entries : List QueuedCommand}
    {slot : Slot} {s : Selection}
    (hslot : slot ∈ (allocate now max? pool n entries).pool.slots) (hsuits : slot.suits s = true) :
    slot ∈ pool.slots := by
  obtain ⟨claims, -, hpool⟩ := @exists_firstFit now max? pool n entries
  obtain ⟨j, hj⟩ := List.mem_iff_getElem?.mp hslot
  rw [hpool, Option.map_eq_some_iff] at hj
  obtain ⟨old, hold, heq⟩ := hj
  split at heq
  · rw [← heq, Slot.suits_vacate] at hsuits
    simp at hsuits
  · exact heq ▸ List.mem_of_getElem? hold

theorem Blocked.allocate {pool : Pool} {n : Nat} {q : QueuedCommand}
    (h : Blocked now max? pool n q) (entries : List QueuedCommand) :
    Blocked now max? (allocate now max? pool n entries).pool
      (allocate now max? pool n entries).inFlight q := by
  rcases h with hwait | hnone | hfull
  · exact .inl hwait
  · refine .inr (.inl fun slot hslot => ?_)
    by_contra hsuits
    have hsuits : slot.suits q.selection = true := by simpa using hsuits
    rw [hnone slot (mem_of_suits_allocate hslot hsuits)] at hsuits
    simp at hsuits
  · refine .inr (.inr (atCapacity_mono ?_ hfull))
    rw [inFlight_allocate]
    exact Nat.le_add_right ..

theorem blocked_of_mem_waiting {pool : Pool} {n : Nat} {entries : List QueuedCommand}
    {q : QueuedCommand} (h : q ∈ (allocate now max? pool n entries).waiting) :
    Blocked now max? (allocate now max? pool n entries).pool
      (allocate now max? pool n entries).inFlight q := by
  induction entries generalizing pool n with
  | nil => simp [Scheduler.allocate] at h
  | cons first rest ih =>
      rcases blocked_or_claim now max? pool n first with
        hblocked | ⟨d, next, hready, hcap, halloc⟩
      · rw [allocate_cons_of_blocked hblocked] at h ⊢
        rcases List.mem_cons.mp h with rfl | h
        · exact hblocked.allocate rest
        · exact ih h
      · rw [allocate_cons_of_claim hready hcap halloc] at h ⊢
        exact ih h

end DeviceLab.Scheduler
