import DeviceLab.Proofs.Queue.Lines
import DeviceLab.Proofs.Scheduler.Greedy
import DeviceLab.Scheduler.Run

namespace DeviceLab

def Event.requeued? : Event → Option QueuedCommand
  | .requeue entry => some entry
  | .finished .. | .reschedule _ => none

/-- Where the commands and the devices are, and what that depends on. -/
structure Books where
  pool : Pool
  nextId : Nat
  queue : Queue
  running : List Command
  inFlight : Nat
  runs : List Run
  requeues : List QueuedCommand
  shuttingDown : Bool
  stopped : Bool

/-- Entries as they come out of a submission: their ids ascend within the ids taken for them, and
each is to be run once or in a loop. -/
structure Fresh (lo hi : Nat) (entries : List QueuedCommand) : Prop where
  le : lo ≤ hi
  ascending : (entries.map QueuedCommand.id).Pairwise (· < ·)
  bounds : ∀ q ∈ entries, lo ≤ q.id ∧ q.id < hi
  mode : ∀ q ∈ entries, q.mode = .oneShot ∨ q.mode = .loop

theorem Fresh.nil {lo hi : Nat} (h : lo ≤ hi) : Fresh lo hi [] :=
  ⟨h, List.Pairwise.nil, by simp, by simp⟩

theorem Fresh.append {lo mid hi : Nat} {older younger : List QueuedCommand}
    (holder : Fresh lo mid older) (hyounger : Fresh mid hi younger) :
    Fresh lo hi (older ++ younger) where
  le := Nat.le_trans holder.le hyounger.le
  ascending := by
    rw [List.map_append, List.pairwise_append]
    refine ⟨holder.ascending, hyounger.ascending, ?_⟩
    intro a ha b hb
    obtain ⟨p, hp, rfl⟩ := List.mem_map.mp ha
    obtain ⟨q, hq, rfl⟩ := List.mem_map.mp hb
    have hpmid := (holder.bounds p hp).2
    have hqmid := (hyounger.bounds q hq).1
    omega
  bounds q hq := by
    have hle := holder.le
    have hle' := hyounger.le
    rcases List.mem_append.mp hq with hq | hq
    · have := holder.bounds q hq
      omega
    · have := hyounger.bounds q hq
      omega
  mode q hq := (List.mem_append.mp hq).elim (holder.mode q) (hyounger.mode q)

theorem Fresh.nodup {lo hi : Nat} {entries : List QueuedCommand} (h : Fresh lo hi entries) :
    (entries.map QueuedCommand.id).Nodup :=
  h.ascending.imp Nat.ne_of_lt

theorem Fresh.of_range {lo start : Nat} {entries : List QueuedCommand} (hlo : lo ≤ start)
    (hids : entries.map QueuedCommand.id = List.range' start entries.length)
    (hmode : ∀ q ∈ entries, q.mode = .oneShot ∨ q.mode = .loop) :
    Fresh lo (start + entries.length) entries where
  le := by omega
  ascending := hids ▸ List.pairwise_lt_range'
  bounds q hq := by
    have hmem : q.id ∈ List.range' start entries.length := hids ▸ List.mem_map_of_mem hq
    rw [List.mem_range'_1] at hmem
    omega
  mode := hmode

theorem Fresh.singleton {lo : Nat} {q : QueuedCommand} (hid : q.id = lo)
    (hmode : q.mode = .oneShot ∨ q.mode = .loop) : Fresh lo (lo + 1) [q] := by
  have hids : [q].map QueuedCommand.id = List.range' lo [q].length := congrArg (fun id => [id]) hid
  exact Fresh.of_range (Nat.le_refl _) hids (by simpa using hmode)

/-- Whether the arguments of an entry, where they can be read at all, ask for a run. -/
def QueuedCommand.RunsIfRead (q : QueuedCommand) : Prop :=
  ∀ c, Configuration.ofArgs q.command.args = .ok c → c.options.runMode.isRunnable = true

/-- Entries as they come out of readings of arguments: they are fresh and ask for runs, and their
lines have new groups. -/
structure Submitted (lo hi : Nat) (entries : List QueuedCommand) : Prop
    extends Fresh lo hi entries where
  lined : Lined entries
  le_group : ∀ q ∈ entries, ∀ l, q.command.line = some l → lo ≤ l.group
  asks : ∀ q ∈ entries, q.RunsIfRead

theorem Submitted.nil {lo hi : Nat} (h : lo ≤ hi) : Submitted lo hi [] :=
  ⟨Fresh.nil h, Lined.of_no_line (by simp), by simp, by simp⟩

theorem Submitted.append {lo mid hi : Nat} {older younger : List QueuedCommand}
    (holder : Submitted lo mid older) (hyounger : Submitted mid hi younger) :
    Submitted lo hi (older ++ younger) where
  toFresh := holder.toFresh.append hyounger.toFresh
  lined := holder.lined.append hyounger.lined (fun q hq => (holder.bounds q hq).2)
    hyounger.le_group
  le_group q hq l hl := by
    rcases List.mem_append.mp hq with hq | hq
    · exact holder.le_group q hq l hl
    · exact Nat.le_trans holder.le (hyounger.le_group q hq l hl)
  asks q hq := (List.mem_append.mp hq).elim (holder.asks q) (hyounger.asks q)

namespace Books

/-- The books after entries were put into the queue and ids were taken. -/
def enter (b : Books) (entries : List QueuedCommand) (nextId : Nat) : Books :=
  { b with queue := entries.foldl Queue.push b.queue, nextId }

/-- Submitted entries, and nothing else, have been put into the queue. -/
def Grows (b c : Books) : Prop :=
  ∃ new, Submitted b.nextId c.nextId new ∧ c = b.enter new c.nextId

theorem Grows.refl (b : Books) : b.Grows b :=
  ⟨[], Submitted.nil (Nat.le_refl _), rfl⟩

theorem Grows.trans {a b c : Books} (hab : a.Grows b) (hbc : b.Grows c) : a.Grows c := by
  obtain ⟨older, holder, hb⟩ := hab
  obtain ⟨younger, hyounger, hc⟩ := hbc
  refine ⟨older ++ younger, holder.append hyounger, ?_⟩
  rw [hc, hb, enter, enter, enter, List.foldl_append]

end Books

namespace Scheduler

def books (s : Scheduler) : Books where
  pool := s.pool
  nextId := s.nextId
  queue := s.queue
  running := s.running
  inFlight := s.inFlight
  runs := s.runs
  requeues := s.channel.filterMap Event.requeued?
  shuttingDown := s.shuttingDown
  stopped := s.stopped

theorem mem_requeues_iff {s : Scheduler} {q : QueuedCommand} :
    q ∈ s.books.requeues ↔ Event.requeue q ∈ s.channel := by
  change q ∈ s.channel.filterMap Event.requeued? ↔ _
  rw [List.mem_filterMap]
  constructor
  · rintro ⟨event, hevent, heq⟩
    cases event with
    | requeue entry => rwa [← Option.some.inj heq]
    | finished id outcome => simp [Event.requeued?] at heq
    | reschedule request => simp [Event.requeued?] at heq
  · intro h
    exact ⟨_, h, rfl⟩

@[simp] theorem books_note (s : Scheduler) (notice : Notice) : (s.note notice).books = s.books :=
  rfl

@[simp] theorem books_noteAll (s : Scheduler) (notices : List Notice) :
    (s.noteAll notices).books = s.books := by
  induction notices generalizing s with
  | nil => rfl
  | cons notice rest ih => exact ih (s.note notice)

@[simp] theorem books_reportFailed (s : Scheduler) (args : List String) (error : String) :
    (s.reportFailed args error).books = s.books :=
  books_noteAll ..

@[simp] theorem books_reportRefused (s : Scheduler) (args : List String)
    (error : ConfigurationError) : (s.reportRefused args error).books = s.books :=
  books_noteAll ..

theorem books_send (s : Scheduler) (event : Event) :
    (s.send event).books =
      { s.books with
        requeues := s.books.requeues ++ if s.stopped then [] else event.requeued?.toList } := by
  unfold send
  split
  · simp
  · cases event <;> simp [books, signal, Event.requeued?]

theorem books_send_finished (s : Scheduler) (id : Nat) (outcome : Outcome) :
    (s.send (.finished id outcome)).books = s.books := by
  simp [books_send, Event.requeued?]

theorem books_sendAll_reschedule (s : Scheduler) (requests : List FollowUp) :
    (requests.foldl (fun s request => s.send (.reschedule request)) s).books = s.books := by
  induction requests generalizing s with
  | nil => rfl
  | cons request rest ih =>
      rw [List.foldl_cons, ih]
      simp [books_send, Event.requeued?]

@[simp] theorem books_release (s : Scheduler) (d : Device) (report : ReturnReport) :
    (s.release d report).books = { s.books with pool := s.pool.release d report } := by
  unfold release
  split <;> rfl

theorem books_register (s : Scheduler) (d : Device) :
    (s.register d).2.books = { s.books with pool := (s.pool.register d).2 } := by
  change (if (s.pool.register d).1 then { s with pool := (s.pool.register d).2 }.signal
    else s).books = _
  split
  · rfl
  · rename_i hrefused
    rw [Pool.register_eq_self (by simpa using hrefused)]
    rfl

@[simp] theorem books_shutdown (s : Scheduler) :
    s.shutdown.books = { s.books with shuttingDown := true } := rfl

theorem books_pushAll (s : Scheduler) (entries : List QueuedCommand) :
    (s.pushAll entries).books = s.books.enter entries s.nextId := rfl

theorem books_scheduleReady (s : Scheduler) :
    s.scheduleReady.books =
      { s.books with
        pool := s.allocation.pool
        queue := ⟨s.allocation.waiting, s.queue.ascending.sublist (allocate_waiting_sublist ..)⟩
        inFlight := s.inFlight + s.allocation.started.length
        running := s.allocation.started.foldl
          (fun running p => enterBy Command.id p.1.command running) s.running
        runs := s.runs ++ s.allocation.started.map fun p => { entry := p.1, device := p.2 } } := by
  rw [scheduleReady_eq]
  rfl

end Scheduler

end DeviceLab
