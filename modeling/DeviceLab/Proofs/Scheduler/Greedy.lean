import DeviceLab.Proofs.Queue.Order
import DeviceLab.Proofs.Scheduler.FirstFit

namespace DeviceLab.Scheduler

theorem foldl_take (started : List (QueuedCommand × Device)) (s : Scheduler) :
    started.foldl (fun s (q, d) => s.take { entry := q, device := d }) s =
      { s with
        inFlight := s.inFlight + started.length
        running := started.foldl (fun running p => enterBy Command.id p.1.command running) s.running
        runs := s.runs ++ started.map fun p => { entry := p.1, device := p.2 } } := by
  induction started generalizing s with
  | nil => simp
  | cons p rest ih =>
      rcases p with ⟨q, d⟩
      rw [List.foldl_cons, ih]
      simp [take, Nat.add_assoc, Nat.add_comm 1]

def allocation (s : Scheduler) : Allocation :=
  allocate s.now s.settings.maxConcurrent s.pool s.inFlight s.queue.entries

theorem scheduleReady_eq (s : Scheduler) :
    s.scheduleReady =
      { s with
        pool := s.allocation.pool
        queue := ⟨s.allocation.waiting, s.queue.ascending.sublist (allocate_waiting_sublist ..)⟩
        inFlight := s.inFlight + s.allocation.started.length
        running := s.allocation.started.foldl
          (fun running p => enterBy Command.id p.1.command running) s.running
        runs := s.runs ++ s.allocation.started.map fun p => { entry := p.1, device := p.2 } } :=
  foldl_take ..

/-- From `s` to `t` the commands of `started` were started, oldest first, on the devices in the
slots numbered `claims`, and nothing else was done. -/
structure Serves (s t : Scheduler) (started : List (QueuedCommand × Device))
    (claims : List Nat) : Prop where
  runs : t.runs = s.runs ++ started.map fun p => { entry := p.1, device := p.2 }
  oldest_first : (started.map Prod.fst).Sublist s.queue.entries
  ready : ∀ p ∈ started, p.1.isReady s.now = true
  first_fit : FirstFit s.pool.slots [] started claims
  slots : ∀ j : Nat, t.pool.slots[j]? =
    s.pool.slots[j]?.map fun slot => if j ∈ claims then slot.vacate else slot
  waiting : t.queue.entries = s.queue.entries.filter (· ∉ started.map Prod.fst)
  maximal : ∀ q ∈ t.queue.entries, q.isReady s.now = false ∨
    (∀ slot ∈ t.pool.slots, ∀ d, ¬ slot.Offers q.selection d) ∨
    ∃ m, s.settings.maxConcurrent = some m ∧ m ≤ t.inFlight
  in_flight : t.inFlight = s.inFlight + started.length
  capped : ∀ m, s.settings.maxConcurrent = some m → t.inFlight ≤ max m s.inFlight

theorem waiting_eq_filter {now : Nat} {max? : Option Nat} (pool : Pool) (n : Nat)
    (queue : Queue) :
    (allocate now max? pool n queue.entries).waiting = queue.entries.filter
      (· ∉ (allocate now max? pool n queue.entries).started.map Prod.fst) := by
  have hperm := @started_waiting_perm now max? pool n queue.entries
  have hsublist := allocate_waiting_sublist now max? pool n queue.entries
  have hirrefl : Std.Irrefl fun a b : QueuedCommand => a.id < b.id :=
    ⟨fun q => Nat.lt_irrefl q.id⟩
  have hantisymm : Std.Antisymm fun a b : QueuedCommand => a.id < b.id :=
    ⟨fun a b hab hba => absurd (Nat.lt_trans hab hba) (Nat.lt_irrefl _)⟩
  refine (queue.ascending.sublist hsublist).eq_of_mem_iff (queue.ascending.filter _) fun q => ?_
  have hnodup : queue.entries.Nodup :=
    queue.ascending.imp fun hlt heq => absurd (heq ▸ hlt) (Nat.lt_irrefl _)
  have hapart := (List.nodup_append.mp (hperm.nodup_iff.mpr hnodup)).2.2
  rw [List.mem_filter, decide_eq_true_eq]
  constructor
  · intro hq
    exact ⟨hsublist.subset hq, fun hstarted => hapart q hstarted q hq rfl⟩
  · rintro ⟨hq, hnot⟩
    exact (List.mem_append.mp (hperm.mem_iff.mpr hq)).resolve_left hnot

theorem exists_serves_scheduleReady (s : Scheduler) :
    ∃ started claims, Serves s s.scheduleReady started claims := by
  obtain ⟨claims, hfit, hslots⟩ := @exists_firstFit s.now s.settings.maxConcurrent s.pool
    s.inFlight s.queue.entries
  have hcount := @inFlight_allocate s.now s.settings.maxConcurrent s.pool s.inFlight
    s.queue.entries
  refine ⟨s.allocation.started, claims, ?_⟩
  rw [scheduleReady_eq]
  refine ⟨rfl, started_sublist .., fun p hp => isReady_of_mem_started hp, hfit, hslots,
    waiting_eq_filter .., fun q hq => ?_, rfl, fun m hm => ?_⟩
  · rcases blocked_of_mem_waiting hq with hwait | hnone | hfull
    · exact .inl hwait
    · refine .inr (.inl fun slot hslot d hoffers => ?_)
      have hsuits := Slot.suits_iff.mpr ⟨d, hoffers⟩
      rw [hnone slot hslot] at hsuits
      simp at hsuits
    · exact .inr (.inr (hcount ▸ atCapacity_iff.mp hfull))
  · exact hcount ▸ inFlight_allocate_le hm ..

/-- What is started of the commands up to an id is what would be started without the others. -/
theorem filter_started {now : Nat} {max? : Option Nat} (pool : Pool) (n : Nat) (queue : Queue)
    (i : Nat) :
    (allocate now max? pool n queue.entries).started.filter (·.1.id ≤ i) =
      (allocate now max? pool n (queue.entries.filter (·.id ≤ i))).started := by
  conv_lhs => rw [← queue.filter_le_append_filter_lt i, allocate_append]
  generalize hfront : queue.entries.filter (·.id ≤ i) = front
  generalize hback : queue.entries.filter (i < ·.id) = back
  have holder : ∀ q ∈ front, q.id ≤ i := by
    intro q hq
    rw [← hfront, List.mem_filter] at hq
    exact of_decide_eq_true hq.2
  have hyounger : ∀ q ∈ back, i < q.id := by
    intro q hq
    rw [← hback, List.mem_filter] at hq
    exact of_decide_eq_true hq.2
  rw [List.filter_append, List.filter_eq_self.mpr, List.filter_eq_nil_iff.mpr, List.append_nil]
  · intro p hp
    have hmem := (started_sublist _ _ back).subset (List.mem_map_of_mem hp)
    simpa using hyounger _ hmem
  · intro p hp
    have hmem := (started_sublist _ _ front).subset (List.mem_map_of_mem hp)
    simpa using holder _ hmem

theorem filter_runs_scheduleReady_erase (s : Scheduler) (i : Nat) {gone : List Nat}
    (hgone : ∀ j ∈ gone, i < j) :
    { s with queue := gone.foldl Queue.erase s.queue }.scheduleReady.runs.filter (·.id ≤ i) =
      s.scheduleReady.runs.filter (·.id ≤ i) := by
  rw [scheduleReady_eq, scheduleReady_eq]
  simp only [allocation, List.filter_append, List.filter_map]
  have hid : ∀ p : QueuedCommand × Device,
      ((fun r : Run => decide (r.id ≤ i)) ∘ fun p => { entry := p.1, device := p.2 }) p =
        decide (p.1.id ≤ i) := fun _ => rfl
  rw [funext hid, filter_started, filter_started, Queue.entries_foldl_erase, List.filter_filter]
  congr 4
  refine List.filter_congr fun q _ => ?_
  rw [Bool.eq_iff_iff, Bool.and_eq_true]
  simp only [decide_eq_true_eq, and_iff_left_iff_imp]
  intro hle hmem
  exact absurd (hgone _ hmem) (Nat.not_lt.mpr hle)

/-- A pass starts the waiting commands oldest first, each on the device in the first free slot in
the order of registration that satisfies its selection and is not claimed by an older one.  What
waits on is not ready, finds no free device, or would exceed the number of runs allowed, and
everything that is not started or claimed stays as it is.  Which of the commands up to an id are
started, and on which devices, does not depend on the younger ones. -/
theorem scheduleReady_greedy (s : Scheduler) :
    (∃ started claims, Serves s s.scheduleReady started claims) ∧
    ∀ (i : Nat) (gone : List Nat), (∀ j ∈ gone, i < j) →
      { s with queue := gone.foldl Queue.erase s.queue }.scheduleReady.runs.filter (·.id ≤ i) =
        s.scheduleReady.runs.filter (·.id ≤ i) :=
  ⟨exists_serves_scheduleReady s, fun i _ hgone => filter_runs_scheduleReady_erase s i hgone⟩

end DeviceLab.Scheduler
