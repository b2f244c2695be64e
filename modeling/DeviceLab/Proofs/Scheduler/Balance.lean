import DeviceLab.Proofs.Device.Custody
import DeviceLab.Proofs.Scheduler.Fates

namespace DeviceLab

namespace Scheduler

theorem lends_allocate {now : Nat} {max? : Option Nat} {pool : Pool} {leases : List Device}
    (h : pool.Lends leases) (n : Nat) (entries : List QueuedCommand) :
    (allocate now max? pool n entries).pool.Lends
      (leases ++ (allocate now max? pool n entries).started.map Prod.snd) := by
  induction entries generalizing pool leases n with
  | nil => simpa [allocate] using h
  | cons q rest ih =>
      rcases blocked_or_claim now max? pool n q with hblocked | ⟨d, next, hready, hcap, halloc⟩
      · rw [allocate_cons_of_blocked hblocked]
        exact ih h n
      · rw [allocate_cons_of_claim hready hcap halloc]
        refine (ih (h.allocate halloc) (n + 1)).congr (List.Perm.map _ ?_)
        exact List.perm_middle.symm

end Scheduler

namespace Books

/-- Every run is counted, listed among the running commands, and holds a device, and the pool has
lent out exactly these devices and the ones held outside.  The loop ends only in a shutdown. -/
structure Tallies (b : Books) (held : List Device) : Prop where
  in_flight : b.inFlight = b.runs.length
  running_perm : b.running.Perm (b.runs.map fun r => r.entry.command)
  lends : b.pool.Lends (held ++ b.runs.map Run.device)
  stopped : b.stopped = true → b.shuttingDown = true

namespace Tallies

variable {b c : Books} {held : List Device}

theorem of_lends (h : b.Tallies held) {pool : Pool} {other : List Device}
    (hlends : pool.Lends (other ++ b.runs.map Run.device)) : { b with pool }.Tallies other :=
  ⟨h.in_flight, h.running_perm, hlends, h.stopped⟩

theorem running_ids_perm (h : b.Tallies held) :
    (b.running.map Command.id).Perm (b.runs.map Run.id) := by
  have hids := h.running_perm.map Command.id
  rwa [List.map_map] at hids

theorem grows (h : b.Tallies held) (hgrows : b.Grows c) : c.Tallies held := by
  obtain ⟨fresh, -, hc⟩ := hgrows
  rw [hc]
  exact ⟨h.in_flight, h.running_perm, h.lends, h.stopped⟩

theorem pause (h : b.Tallies held) (horderly : b.Orderly) {r : Run} (hr : r ∈ b.runs) {d : Device}
    (hserial : d.serial = r.device.serial) (phase : RunPhase) :
    (b.pause { r with device := d, phase }).Tallies held := by
  have hid : Run.id { r with device := d, phase } = r.id := rfl
  refine ⟨?_, ?_, h.lends.congr ?_, h.stopped⟩
  · exact h.in_flight.trans (List.length_map _).symm
  · rw [horderly.map_runs_pause hr hid (fun r => r.entry.command) rfl]
    exact h.running_perm
  · rw [List.map_append, List.map_append, List.map_map, List.map_map,
      horderly.map_runs_pause hr hid (Device.serial ∘ Run.device) hserial]

theorem retire (h : b.Tallies held) (horderly : b.Orderly) {r : Run} (hr : r ∈ b.runs)
    {d : Device} (hserial : d.serial = r.device.serial) (report : ReturnReport)
    (back : List QueuedCommand) (outcome : Outcome) :
    ({ b with pool := b.pool.release d report }.retire r.entry back outcome).Tallies held := by
  have hruns := perm_cons_filter Run.id horderly.nodup_runs hr
  refine ⟨?_, ?_, ?_, fun hstopped => ?_⟩
  · have hlength := hruns.length_eq
    change b.inFlight - 1 = (b.runs.filter (·.id != r.id)).length
    rw [h.in_flight, hlength]
    rfl
  · have hfilter := h.running_perm.filter (·.id != r.entry.id)
    rwa [List.filter_map] at hfilter
  · have hmem : r.device ∈ held ++ b.runs.map Run.device :=
      List.mem_append_right _ (List.mem_map_of_mem hr)
    refine (h.lends.release hmem hserial report).congr (List.Perm.map _ ?_)
    have hheld : (held ++ b.runs.map Run.device).Perm
        (r.device :: (held ++ (b.runs.filter (·.id != r.id)).map Run.device)) :=
      ((hruns.map Run.device).append_left held).trans List.perm_middle
    have herase := hheld.erase r.device
    rwa [List.erase_cons_head] at herase
  · change (b.shuttingDown || outcome.isFatal) = true
    rw [h.stopped hstopped, Bool.true_or]

theorem take (h : b.Tallies held) (horderly : b.Orderly) {r : Run} (hr : r.device ∈ held)
    (hid : r.id = b.nextId) :
    { b with
      nextId := b.nextId + 1
      inFlight := b.inFlight + 1
      running := enterBy Command.id r.entry.command b.running
      runs := b.runs ++ [r] }.Tallies (held.erase r.device) := by
  refine ⟨?_, ?_, h.lends.congr (List.Perm.map _ ?_), h.stopped⟩
  · change b.inFlight + 1 = (b.runs ++ [r]).length
    rw [h.in_flight, List.length_append]
    rfl
  · have hnew : r.entry.command.id ∉ b.running.map Command.id := by
      rw [h.running_ids_perm.mem_iff]
      intro hmem
      obtain ⟨other, hother, heq⟩ := List.mem_map.mp hmem
      have hentry := mem_entries_of_mem_runs hother
      have hlt := horderly.lt_nextId other.entry hentry
      exact absurd (heq.trans hid) (Nat.ne_of_lt hlt)
    rw [List.map_append]
    exact (perm_enterBy hnew).trans ((h.running_perm.cons _).trans
      (List.perm_append_singleton _ _).symm)
  · rw [List.map_append, ← List.append_assoc]
    exact ((List.perm_cons_erase hr).append_right _).trans (List.perm_append_singleton _ _).symm

end Tallies

end Books

namespace Scheduler

variable {s : Scheduler} {held : List Device}

theorem tallies_scheduleReady (h : s.books.Tallies held) (horderly : s.books.Orderly) :
    s.scheduleReady.books.Tallies held := by
  let started := s.allocation.started
  have hsublist : (started.map Prod.fst).Sublist s.queue.entries := started_sublist ..
  rw [books_scheduleReady]
  refine ⟨?_, ?_, ?_, h.stopped⟩
  · change s.inFlight + started.length = (s.runs ++ started.map _).length
    rw [List.length_append, List.length_map]
    exact congrArg (· + _) h.in_flight
  · change (started.foldl (fun running p => enterBy Command.id p.1.command running)
      s.running).Perm ((s.runs ++ started.map _).map fun r : Run => r.entry.command)
    have hentered : started.foldl (fun running p => enterBy Command.id p.1.command running)
        s.running = (started.map (·.1.command)).foldl
          (fun entered c => enterBy Command.id c entered) s.running := by
      rw [List.foldl_map]
    have hids : (s.running.map Command.id ++ (started.map (·.1.command)).map Command.id).Nodup := by
      have hstarted := (hsublist.map QueuedCommand.id).append_right (s.runs.map Run.id)
      have hplaces : (s.queue.ids ++ s.runs.map Run.id).Nodup := by
        have hentries : (s.queue.entries ++ s.runs.map Run.entry).Sublist s.books.entries :=
          List.sublist_append_left _ _
        have hnodup := (hentries.map QueuedCommand.id).nodup horderly.nodup
        rwa [List.map_append, List.map_map] at hnodup
      have hnodup := hstarted.nodup hplaces
      rw [List.map_map] at hnodup ⊢
      refine ((h.running_ids_perm.append_right _).nodup_iff).mpr ?_
      exact List.perm_append_comm.nodup_iff.mp hnodup
    rw [hentered, List.map_append, List.map_map]
    exact (perm_foldl_enterBy hids).trans (h.running_perm.append_right _)
  · have hlends := @lends_allocate s.now s.settings.maxConcurrent _ _ h.lends s.inFlight
      s.queue.entries
    rw [List.append_assoc] at hlends
    rw [List.map_append, List.map_map]
    exact hlends

theorem tallies_pass (h : s.books.Tallies held) (horderly : s.books.Orderly) :
    s.pass.books.Tallies held := by
  obtain ⟨nextId, -, pushed, -, -, hbooks⟩ := { s with signalled := false }.exists_books_receive
  have hreceived : { s with signalled := false }.receive.books.Tallies held := by
    rw [hbooks]
    exact ⟨h.in_flight, h.running_perm, h.lends, h.stopped⟩
  have horderly' : { s with signalled := false }.receive.books.Orderly :=
    orderly_receive horderly
  rw [pass]
  split
  · exact ⟨hreceived.in_flight, hreceived.running_perm, hreceived.lends, fun _ => rfl⟩
  · exact tallies_scheduleReady hreceived horderly'

end Scheduler

namespace World

/-- The books of the scheduler are in order and balance. -/
structure Balanced (w : World) : Prop where
  orderly : w.scheduler.books.Orderly
  tallies : w.scheduler.books.Tallies w.held

namespace Balanced

variable {w : World} {a : Act}

theorem tallies_step (h : w.Balanced) {id : Nat} {invocation : Configuration → Script}
    {answer : Nat ⊕ Outcome} {t : Scheduler}
    (hstep : w.scheduler.step id invocation = some (answer, t)) : t.books.Tallies w.held := by
  obtain ⟨r, hr, -, hadvances⟩ := Scheduler.step_cases hstep
  generalize t.books = after at hadvances ⊢
  cases hadvances with
  | pause time phase hserial => exact h.tallies.pause h.orderly hr hserial phase
  | ending outcome elapsed startedAt report hserial =>
      exact h.tallies.retire h.orderly hr hserial report _ outcome

theorem lends_release (h : w.Balanced) {d : Device} (hd : d ∈ w.held) (report : ReturnReport) :
    (w.scheduler.pool.release d report).Lends
      (w.held.erase d ++ w.scheduler.runs.map Run.device) := by
  have hlends := h.tallies.lends.release (List.mem_append_left _ hd) rfl report
  rwa [List.erase_append_left _ hd] at hlends

theorem tallies_exec (h : w.Balanced) {d : Device} (hd : d ∈ w.held) (listener : String)
    (args : List String) :
    (w.scheduler.execCommand listener d args).2.books.Tallies (w.held.erase d) := by
  rcases w.scheduler.execCommand_cases listener d args with hbooks | ⟨r, hcommand, rfl, -, hbooks⟩
  · rw [hbooks]
    exact h.tallies.of_lends (h.lends_release hd .available)
  · rw [hbooks]
    exact h.tallies.take h.orderly hd (congrArg Command.id hcommand)

theorem lends_aside (h : w.Balanced) (haside : a.isAside = true) :
    (w.act a).scheduler.pool.Lends ((w.act a).held ++ w.scheduler.runs.map Run.device) := by
  have hlends := h.tallies.lends
  cases a with
  | register d =>
      have hpool : (w.act (.register d)).scheduler.pool = (w.scheduler.pool.register d).2 :=
        congrArg Books.pool (w.scheduler.books_register d)
      rw [hpool]
      exact hlends.register d
  | setNullCount count => exact hlends.setNullCount count
  | lease s =>
      rw [act]
      split
      · exact hlends
      · obtain ⟨pool, halloc, hbooks⟩ := Scheduler.exists_books_lease ‹_›
        obtain rfl := congrArg Books.pool hbooks
        exact hlends.allocate halloc
  | giveBack d report =>
      rw [act]
      split
      · have hpool : (w.scheduler.release d report).pool = w.scheduler.pool.release d report :=
          congrArg Books.pool (w.scheduler.books_release d report)
        dsimp only
        rw [hpool]
        exact h.lends_release ‹_› report
      · exact hlends
  | edit d edited =>
      rw [act]
      split
      · rename_i hedit
        obtain ⟨hd, hserial, -⟩ := hedit
        have hedited := hlends.edit (List.mem_append_left _ hd) hserial
        rwa [List.erase_append_left _ hd] at hedited
      · exact hlends
  | setReload | drain | start | wait => exact hlends
  | add | addFile | notifyChanged | removeAll | shutdown | pass | step | exec => cases haside

theorem tallies_act (h : w.Balanced) (a : Act) :
    (w.act a).scheduler.books.Tallies (w.act a).held := by
  have hlends := h.lends_aside (a := a)
  have hdoes := w.does a
  generalize w.act a = v at hlends hdoes ⊢
  cases hdoes with
  | nothing => exact h.tallies
  | aside held haside => exact h.tallies.of_lends (hlends haside)
  | added hadd => exact h.tallies.grows (Scheduler.grows_addCommand hadd)
  | addedFile hadd => exact h.tallies.grows (Scheduler.grows_addFile hadd)
  | notified hnotify =>
      obtain ⟨gone, hgrows⟩ := Scheduler.grows_notifyChanged hnotify
      refine Books.Tallies.grows ?_ hgrows
      exact ⟨h.tallies.in_flight, h.tallies.running_perm, h.tallies.lends, h.tallies.stopped⟩
  | removed =>
      exact ⟨h.tallies.in_flight, h.tallies.running_perm, h.tallies.lends, h.tallies.stopped⟩
  | shutDown =>
      exact ⟨h.tallies.in_flight, h.tallies.running_perm, h.tallies.lends, fun _ => rfl⟩
  | passed => exact Scheduler.tallies_pass h.tallies h.orderly
  | stepped hstep => exact h.tallies_step hstep
  | @executed listener d args hd => exact h.tallies_exec hd listener args

theorem exists_turns (h : w.Balanced) (a : Act) :
    ∃ kept next lost new, w.Turns a kept next lost new :=
  World.exists_turns h.orderly h.tallies.stopped a

theorem act (h : w.Balanced) (a : Act) : (w.act a).Balanced := by
  obtain ⟨kept, next, lost, new, hturns⟩ := h.exists_turns a
  exact ⟨hturns.orderly h.orderly, h.tallies_act a⟩

theorem run (h : w.Balanced) (acts : List Act) : (w.run acts).Balanced := by
  induction acts generalizing w with
  | nil => exact h
  | cons a rest ih => exact ih (h.act a)

end Balanced

theorem balanced_fresh (settings : SchedulerSettings) (catalog : Catalog)
    (listeners : List String) : (fresh settings catalog listeners).Balanced where
  orderly := ⟨List.nodup_nil, by simp [fresh, Scheduler.books, Books.entries],
    by simp [fresh, Scheduler.books, Books.entries]⟩
  tallies := ⟨rfl, List.Perm.nil, Pool.lends_empty, by simp [fresh, Scheduler.books]⟩

theorem Balanced.lt_nextId_of_mem_queue {w : World} (h : w.Balanced) {q : QueuedCommand}
    (hq : q ∈ w.scheduler.queue.entries) : q.id < w.scheduler.nextId :=
  h.orderly.lt_nextId q (Books.mem_entries_of_mem_queue hq)

theorem Balanced.inFlight_act {w : World} (h : w.Balanced) {a : Act} {id : Nat} {outcome : Outcome}
    (hended : w.ended? a = some (id, outcome)) :
    (w.act a).scheduler.inFlight + 1 = w.scheduler.inFlight := by
  obtain ⟨invocation, t, rfl, hstep⟩ := exists_of_ended? hended
  obtain ⟨r, hr, -, hadvances⟩ := Scheduler.step_cases hstep
  have hact : (w.act (.step id invocation)).scheduler = t := by
    rw [World.act, hstep]
  have hcounted : 0 < w.scheduler.inFlight :=
    (List.length_pos_of_mem hr).trans_eq h.tallies.in_flight.symm
  have hafter : t.inFlight = w.scheduler.inFlight - 1 := by
    change t.books.inFlight = _
    generalize t.books = after at hadvances ⊢
    cases hadvances with
    | ending outcome elapsed startedAt report hserial => rfl
  rw [hact, hafter]
  omega

/-- The devices of all leases: those held outside, and those of the runs. -/
def leases (w : World) : List Device :=
  w.held ++ w.scheduler.runs.map Run.device

/-- The ids in the queue, of the running commands, and on their way back to the queue. -/
def ids (w : World) : List Nat :=
  w.scheduler.queue.ids ++ w.scheduler.running.map Command.id ++
    w.scheduler.books.requeues.map QueuedCommand.id

theorem Balanced.ids_perm {w : World} (h : w.Balanced) :
    w.ids.Perm (w.scheduler.books.entries.map QueuedCommand.id) := by
  rw [Books.entries, List.map_append, List.map_append, List.map_map]
  exact ((h.tallies.running_ids_perm).append_left _).append_right _

/-- Whatever has happened to a scheduler: as many runs are counted as commands are running, and the
count never falls below zero.  The ids that wait, run, or are on their way back to the queue are
different from one another and have been taken before.  Each running command has one run, which
holds one lease; leases have different serials, and the allocated slots are theirs, so that none is
left once nothing runs and nothing is held. -/
theorem books_balance (settings : SchedulerSettings) (catalog : Catalog)
    (listeners : List String) (acts : List Act) :
    let w := (fresh settings catalog listeners).run acts
    let s := w.scheduler
    s.inFlight = s.running.length ∧
    (∀ a id outcome, w.ended? a = some (id, outcome) →
      (w.act a).scheduler.inFlight + 1 = s.inFlight) ∧
    w.ids.Nodup ∧ (∀ id ∈ w.ids, id < s.nextId) ∧
    (s.running.map Command.id).Perm (s.runs.map Run.id) ∧
    s.pool.serials.Nodup ∧ (w.leases.map Device.serial).Nodup ∧
    (∀ slot ∈ s.pool.slots,
      slot.state = .allocated ↔ slot.serial ∈ w.leases.map Device.serial) ∧
    (∀ d ∈ w.leases, d.serial ∈ s.pool.serials) ∧
    (s.running = [] → w.held = [] → ∀ slot ∈ s.pool.slots, slot.state ≠ .allocated) := by
  intro w s
  have h : w.Balanced := (balanced_fresh settings catalog listeners).run acts
  have hlends : s.pool.Lends w.leases := h.tallies.lends
  have hlength : s.running.length = s.runs.length :=
    h.tallies.running_perm.length_eq.trans (List.length_map _)
  refine ⟨h.tallies.in_flight.trans hlength.symm, fun a id outcome hended => h.inFlight_act hended,
    h.ids_perm.nodup_iff.mpr h.orderly.nodup, fun id hid => ?_, h.tallies.running_ids_perm,
    hlends.serials_nodup, hlends.leases_nodup, fun slot hslot => hlends.state_iff_mem hslot,
    fun d hd => hlends.serial_mem hd, fun hidle hnone slot hslot hallocated => ?_⟩
  · obtain ⟨q, hq, rfl⟩ := List.mem_map.mp (h.ids_perm.subset hid)
    exact h.orderly.lt_nextId q hq
  · have hruns : s.runs = [] := by
      rw [← List.length_eq_zero_iff, ← hlength, hidle]
      rfl
    have hmem := (hlends.state_iff_mem hslot).mp hallocated
    have hleases : w.leases = [] := by
      change w.held ++ s.runs.map Run.device = []
      rw [hnone, hruns]
      rfl
    rw [hleases] at hmem
    simp at hmem

end World

end DeviceLab
