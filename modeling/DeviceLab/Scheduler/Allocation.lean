import DeviceLab.Scheduler.Submission

/-!
The allocation loop.

A pass works off the channel, ends the loop if it is time to, and otherwise offers the free devices
to the waiting commands, oldest first.  Between two passes the loop sleeps until it is woken, the
next delayed command becomes ready, or the poll interval is over.
-/

namespace DeviceLab

namespace Scheduler

/-- What an allocation leaves: the commands started, each with its device, those that still wait,
and the pool and number of runs afterwards. -/
structure Allocation where
  started : List (QueuedCommand × Device) := []
  waiting : List QueuedCommand := []
  pool : Pool
  inFlight : Nat
  deriving DecidableEq

def atCapacity (max? : Option Nat) (inFlight : Nat) : Bool :=
  max?.any fun max => max ≤ inFlight

/-- Offer the free devices of the pool to commands in turn.  A command that is not ready or that no
free device suits waits on; once the capacity is reached all others do. -/
def allocate (now : Nat) (max? : Option Nat) (pool : Pool) (inFlight : Nat) :
    List QueuedCommand → Allocation
  | [] => { pool, inFlight }
  | q :: rest =>
    if atCapacity max? inFlight then { waiting := q :: rest, pool, inFlight }
    else if !q.isReady now then
      let after := allocate now max? pool inFlight rest
      { after with waiting := q :: after.waiting }
    else match pool.allocate q.selection with
      | none =>
        let after := allocate now max? pool inFlight rest
        { after with waiting := q :: after.waiting }
      | some (d, pool) =>
        let after := allocate now max? pool (inFlight + 1) rest
        { after with started := (q, d) :: after.started }

theorem allocate_waiting_sublist (now : Nat) (max? : Option Nat) (pool : Pool) (inFlight : Nat)
    (entries : List QueuedCommand) :
    (allocate now max? pool inFlight entries).waiting.Sublist entries := by
  fun_induction allocate now max? pool inFlight entries with
  | case1 => exact List.Sublist.refl _
  | case2 => exact List.Sublist.refl _
  | case3 pool inFlight q rest _ _ after ih => exact ih.cons_cons q
  | case4 pool inFlight q rest _ _ _ after ih => exact ih.cons_cons q
  | case5 pool inFlight q rest _ _ d next _ after ih => exact ih.cons q

def scheduleReady (s : Scheduler) : Scheduler :=
  let a := allocate s.now s.settings.maxConcurrent s.pool s.inFlight s.queue.entries
  a.started.foldl (fun s (q, d) => s.take { entry := q, device := d })
    { s with
      pool := a.pool
      queue := ⟨a.waiting, s.queue.ascending.sublist (allocate_waiting_sublist ..)⟩ }

/-- Apply an event.  A looping command comes back only while the scheduler is not shutting down. -/
def handle (s : Scheduler) : Event → Scheduler
  | .finished .. => s
  | .requeue entry => if s.shuttingDown then s else s.pushAll [entry]
  | .reschedule request =>
    match s.submit request.args (.reschedule request.file request.selection) with
    | .error error => s.reportRefused request.args error
    | .ok (_, s) => s

/-- Apply every event of the channel, in the order sent. -/
def receive (s : Scheduler) : Scheduler :=
  s.channel.foldl handle { s with channel := [] }

/-- Whether the loop ends, given whether nothing was running before the channel was worked off. -/
def mayStop (s : Scheduler) (idle : Bool) : Bool :=
  s.shuttingDown || (s.draining && idle && s.queue.isEmpty)

def stop (s : Scheduler) : Scheduler :=
  { s with shuttingDown := true, stopped := true }

def deadline (s : Scheduler) : Nat :=
  match s.queue.nextReadyAt s.now with
  | none => s.now + s.settings.pollInterval
  | some ready => s.now + min (ready - s.now) s.settings.pollInterval

def pass (s : Scheduler) : Scheduler :=
  let idle := s.inFlight == 0
  let s := { s with signalled := false }.receive
  if s.mayStop idle then s.stop else s.scheduleReady

/-- Start the loop; it can be started once. -/
def start (s : Scheduler) : Scheduler :=
  { s with started := true }

end Scheduler

end DeviceLab
