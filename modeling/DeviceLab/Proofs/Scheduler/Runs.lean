import DeviceLab.Proofs.Scheduler.Submission

namespace DeviceLab

namespace Books

/-- The books after a run of `entry` ended and `back` was sent back to the queue. -/
def retire (b : Books) (entry : QueuedCommand) (back : List QueuedCommand)
    (outcome : Outcome) : Books :=
  { b with
    running := b.running.filter (·.id != entry.id)
    inFlight := b.inFlight - 1
    runs := b.runs.filter (·.id != entry.id)
    requeues := b.requeues ++ back
    shuttingDown := b.shuttingDown || outcome.isFatal }

/-- The books after the run `r` came to a pause. -/
def pause (b : Books) (r : Run) : Books :=
  { b with runs := b.runs.map fun other => if other.id = r.id then r else other }

end Books

namespace Scheduler

variable {s t : Scheduler}

theorem comesBack_iff {entry : QueuedCommand} {command : Command} {outcome : Outcome} :
    s.comesBack entry command outcome = true ↔
      entry.mode = .loop ∧ outcome.isFatal = false ∧ s.shuttingDown = false ∧
        command.hasRemaining = true := by
  simp [comesBack, and_assoc]

/-- What goes back to the queue after a run of an entry. -/
def back (s : Scheduler) (entry : QueuedCommand) (elapsed startedAt : Nat)
    (outcome : Outcome) : List QueuedCommand :=
  let command := entry.command.recordRun elapsed
  if !s.stopped && s.comesBack entry command outcome then [requeued entry command startedAt]
  else []

/-- A command goes back, once more run and ready after its pause, or there is a reason why it does
not. -/
theorem back_cases (s : Scheduler) (entry : QueuedCommand) (elapsed startedAt : Nat)
    (outcome : Outcome) :
    s.back entry elapsed startedAt outcome =
      [requeued entry (entry.command.recordRun elapsed) startedAt] ∨
    s.back entry elapsed startedAt outcome = [] ∧
      (s.stopped = true ∨ entry.mode ≠ .loop ∨ outcome.isFatal = true ∨ s.shuttingDown = true ∨
        ∃ n, entry.command.expected = some n ∧
          n ≤ (entry.command.executions + 1) % UInt32.size) := by
  unfold back
  dsimp only
  split
  · exact .inl rfl
  · rename_i hnot
    refine .inr ⟨rfl, ?_⟩
    rw [Bool.and_eq_true, Bool.not_eq_true', comesBack_iff] at hnot
    by_contra! hno
    obtain ⟨hstopped, hmode, hfatal, hdown, hbudget⟩ := hno
    refine hnot ⟨by simpa using hstopped, hmode, by simpa using hfatal, by simpa using hdown, ?_⟩
    rw [Command.hasRemaining, Option.all_eq_true]
    intro n hn
    rw [Command.recordRun_executions]
    exact decide_eq_true (hbudget n hn)

theorem back_congr (h : t.books = s.books) : t.back = s.back := by
  have hstopped : t.stopped = s.stopped := congrArg Books.stopped h
  have hdown : t.shuttingDown = s.shuttingDown := congrArg Books.shuttingDown h
  funext entry elapsed startedAt outcome
  unfold back comesBack
  rw [hstopped, hdown]

theorem books_sendBack (s : Scheduler) (entry : QueuedCommand) (startedAt : Nat)
    (outcome : Outcome) :
    (s.sendBack entry startedAt outcome).books =
      { s.books with
        requeues := s.books.requeues ++
          s.back entry (s.now - startedAt) startedAt outcome } := by
  unfold sendBack back
  by_cases hback : s.comesBack entry (entry.command.recordRun (s.now - startedAt)) outcome
  · cases hstopped : s.stopped <;> simp [hback, books_send, hstopped, Event.requeued?]
  · simp [hback]

theorem books_heed (s : Scheduler) (outcome : Outcome) :
    (s.heed outcome).books =
      { s.books with shuttingDown := s.books.shuttingDown || outcome.isFatal } := by
  cases outcome <;> simp [heed, Outcome.isFatal]

theorem books_retire (s : Scheduler) (entry : QueuedCommand) (startedAt : Nat)
    (outcome : Outcome) :
    (s.retire entry startedAt outcome).books =
      s.books.retire entry (s.back entry (s.now - startedAt) startedAt outcome) outcome := by
  let u := ((s.withoutRun entry.id).sendBack entry startedAt outcome).heed outcome
  have hsent : (u.send (.finished entry.id outcome)).books = u.books := books_send_finished ..
  have hlast : (s.retire entry startedAt outcome).books =
      { (u.send (.finished entry.id outcome)).books with
        inFlight := (u.send (.finished entry.id outcome)).books.inFlight - 1 } := rfl
  rw [hlast, hsent, books_heed, books_sendBack]
  rfl

theorem books_finish (s : Scheduler) (r : Run) (startedAt : Nat)
    (error? : Option ConfigurationError) (c : Executor.Conclusion) :
    ∃ elapsed, (s.finish r startedAt error? c).books =
      { s.books with pool := s.pool.release c.device c.report }.retire r.entry
        (s.back r.entry elapsed startedAt c.outcome) c.outcome := by
  let told := Executor.closing (s.listenersOf r) r.entry.command.args (c.error? error?) c
  let u := (s.release c.device c.report).noteAll told
  have hbooks : u.books = { s.books with pool := s.pool.release c.device c.report } := by
    simp [u]
  have hback : u.back = s.back :=
    back_congr (s := { s with pool := s.pool.release c.device c.report }) hbooks
  refine ⟨u.now - startedAt, ?_⟩
  rw [← hbooks, ← hback]
  exact books_retire ..

/-- What a step of the run `r` can come to, with the books afterwards: its next pause, or its end.
Its device may have changed, but not the serial. -/
inductive Advances (s : Scheduler) (r : Run) : Nat ⊕ Outcome → Books → Prop
  | pause (time : Nat) {d : Device} (phase : RunPhase) (hserial : d.serial = r.device.serial) :
      Advances s r (.inl time) (s.books.pause { r with device := d, phase })
  | ending (outcome : Outcome) (elapsed startedAt : Nat) {d : Device} (report : ReturnReport)
      (hserial : d.serial = r.device.serial) :
      Advances s r (.inr outcome)
        ({ s.books with pool := s.pool.release d report }.retire r.entry
          (s.back r.entry elapsed startedAt outcome) outcome)

theorem Advances.congr {r : Run} {answer : Nat ⊕ Outcome} {after : Books}
    (h : t.Advances r answer after) (hbooks : t.books = s.books) : s.Advances r answer after := by
  have hpool : t.pool = s.pool := congrArg Books.pool hbooks
  cases h with
  | pause time phase hserial =>
      rw [hbooks]
      exact .pause time phase hserial
  | ending outcome elapsed startedAt report hserial =>
      rw [hbooks, back_congr hbooks, hpool]
      exact .ending outcome elapsed startedAt report hserial

theorem advances_finish (s : Scheduler) (r : Run) (d : Device) (startedAt : Nat)
    (error? : Option ConfigurationError) (c : Executor.Conclusion)
    (hserial : c.device.serial = r.device.serial) :
    s.Advances r (.inr c.outcome) (s.finish { r with device := d } startedAt error? c).books := by
  obtain ⟨elapsed, hfinish⟩ := s.books_finish { r with device := d } startedAt error? c
  rw [hfinish]
  exact .ending c.outcome elapsed startedAt c.report hserial

theorem advances_proceed {r : Run} {startedAt : Nat} {actions : List Action} {ending : Ending}
    {answer : Nat ⊕ Outcome} (h : s.proceed r startedAt actions ending = (answer, t)) :
    s.Advances r answer t.books := by
  let b := burst (s.reschedulerOf r) r.device actions
  let u := b.requests.foldl (fun s request => s.send (.reschedule request))
    (s.noteAll (Executor.askedFor (s.reschedulerOf r) b.requests))
  have hserial : b.device.serial = r.device.serial := burst_device_serial ..
  have hbooks : u.books = s.books := by
    simp only [u, books_sendAll_reschedule, books_noteAll]
  refine Advances.congr ?_ hbooks
  unfold proceed at h
  dsimp only at h
  split at h
  · rename_i time rest _
    cases h
    exact .pause (u.now + time) (.underway startedAt rest ending) hserial
  · cases h
    let c := Executor.conclude b.device ending
    exact u.advances_finish r b.device startedAt none c hserial

theorem step_cases {id : Nat} {invocation : Configuration → Script} {answer : Nat ⊕ Outcome}
    (h : s.step id invocation = some (answer, t)) :
    ∃ r ∈ s.runs, r.id = id ∧ s.Advances r answer t.books := by
  obtain ⟨r, hrun, hstep⟩ := Option.map_eq_some_iff.mp h
  refine ⟨r, List.mem_of_find?_eq_some hrun, by simpa using List.find?_some hrun, ?_⟩
  cases hphase : r.phase with
  | underway startedAt rest ending =>
      rw [hphase] at hstep
      exact advances_proceed hstep
  | assigned =>
      rw [hphase] at hstep
      simp only [begin] at hstep
      split at hstep
      · cases hstep
        exact s.advances_finish r r.device s.now _ _ rfl
      · exact (advances_proceed hstep).congr (books_noteAll ..)

theorem exists_books_lease {selection : Selection} {d : Device}
    (h : s.lease selection = some (d, t)) :
    ∃ pool, s.pool.allocate selection = some (d, pool) ∧ t.books = { s.books with pool } := by
  obtain ⟨⟨d', pool⟩, halloc, heq⟩ := Option.map_eq_some_iff.mp h
  cases heq
  exact ⟨pool, halloc, rfl⟩

theorem execCommand_refused_or_taken (s : Scheduler) (listener : String) (d : Device)
    (args : List String) :
    (∃ error, s.execCommand listener d args = (.error error, s.release d .available)) ∨
    s.shuttingDown = false ∧ ∃ c, Configuration.ofArgs args = .ok c ∧
      s.execCommand listener d args = (.ok s.nextId,
        { s with nextId := s.nextId + 1 }.take {
          entry := { command := { id := s.nextId, args }, selection := c.requirements }
          device := d
          listeners := [listener] }) := by
  unfold execCommand
  split
  · exact .inl ⟨_, rfl⟩
  · rename_i hup
    split
    · exact .inl ⟨_, rfl⟩
    · exact .inr ⟨by simpa using hup, _, ‹_›, rfl⟩

theorem execCommand_cases (s : Scheduler) (listener : String) (d : Device) (args : List String) :
    (s.execCommand listener d args).2.books =
      { s.books with pool := s.pool.release d .available } ∨
    ∃ r : Run, r.entry.command = { id := s.nextId, args } ∧ r.device = d ∧
      r.entry.mode = .oneShot ∧
      (s.execCommand listener d args).2.books =
        { s.books with
          nextId := s.nextId + 1
          inFlight := s.inFlight + 1
          running := enterBy Command.id r.entry.command s.running
          runs := s.runs ++ [r] } := by
  rcases s.execCommand_refused_or_taken listener d args with ⟨error, heq⟩ | ⟨-, c, -, heq⟩
  · rw [heq]
    exact .inl (s.books_release d .available)
  · rw [heq]
    let entry : QueuedCommand :=
      { command := { id := s.nextId, args }, selection := c.requirements }
    exact .inr ⟨{ entry, device := d, listeners := [listener] }, rfl, rfl, rfl, rfl⟩

end Scheduler

end DeviceLab
