import DeviceLab.Proofs.Scheduler.Notices

/-!
The loop and the runs at work side by side.

The loop takes its pass in several moves, a run takes its step deed by deed, and what the others do may
come between any two of them.  A pass and a step are what comes out when nothing does.
-/

namespace DeviceLab

/-- Where the allocation loop stands.  `idle` says whether no run was counted when the loop last
looked, and `drained` whether the loop ends because everything is done. -/
inductive LoopPhase
  | top
  | receiving (idle : Bool)
  | checking (idle : Bool)
  | testing (idle : Bool)
  | serving
  | asleep
  | leaving (drained : Bool)
  | ended (drained : Bool)
  deriving DecidableEq

/-- What a run has still to do before its step is over. -/
structure Chore where
  id : Nat
  deeds : List Deed

/-- Whether a deed takes the run out of the hands of its chore. -/
def Deed.isLast : Deed → Bool
  | .pause _ | .leave _ => true
  | .tell _ | .ask _ | .handBack .. | .sendBack .. | .heed _ | .announce .. | .countOut | .wake =>
    false

def Deed.isCountOut : Deed → Bool
  | .countOut => true
  | .tell _ | .ask _ | .pause _ | .handBack .. | .leave _ | .sendBack .. | .heed _ | .announce ..
  | .wake => false

namespace Chore

def holds (e : Chore) : Bool :=
  e.deeds.any Deed.isLast

/-- Whether the run of a chore is still counted, though it is not listed any more. -/
def owes (e : Chore) : Bool :=
  !e.holds && e.deeds.any Deed.isCountOut

end Chore

namespace Scheduler

theorem prepare_channel (s : Scheduler) (channel : List Event) (args : List String)
    (origin : Origin) :
    ({ s with channel } : Scheduler).prepare args origin =
      (s.prepare args origin).map fun answer => (answer.1, { answer.2 with channel }) := by
  have hentries (c : Configuration) : ({ s with channel } : Scheduler).entriesOf c args origin =
      s.entriesOf c args origin := rfl
  unfold prepare
  cases Configuration.ofArgs args with
  | error error => rfl
  | ok c =>
      simp only [bind, Except.bind]
      cases c.options.runMode with
      | help => rfl
      | dryRun => rfl
      | oneShot | loop =>
          simp only [hentries]
          cases s.entriesOf c args origin with
          | error error => rfl
          | ok answer => rfl

theorem submit_channel (s : Scheduler) (channel : List Event) (args : List String)
    (origin : Origin) :
    ({ s with channel } : Scheduler).submit args origin =
      (s.submit args origin).map fun answer => (answer.1, { answer.2 with channel }) := by
  unfold submit
  rw [prepare_channel]
  cases s.prepare args origin with
  | error error => rfl
  | ok answer =>
      rcases answer with ⟨prepared, t⟩
      cases prepared <;> rfl

theorem handle_channel (s : Scheduler) (channel : List Event) (event : Event) :
    ({ s with channel } : Scheduler).handle event = { s.handle event with channel } := by
  cases event with
  | finished id outcome => rfl
  | requeue entry => cases hdown : s.shuttingDown <;> simp [handle, hdown, pushAll]
  | reschedule request =>
      rw [handle, handle, submit_channel]
      cases s.submit request.args (.reschedule request.file request.selection) with
      | ok answer => rfl
      | error error =>
          change ({ s with channel } : Scheduler).noteAll _ = { s.noteAll _ with channel }
          rw [noteAll_eq, noteAll_eq]

theorem receive_cons {s : Scheduler} {event : Event} {rest : List Event}
    (h : s.channel = event :: rest) :
    s.receive = ({ s with channel := rest }.handle event).receive := by
  have hleft : s.receive = rest.foldl handle ({ s with channel := [] }.handle event) := by
    rw [receive, h]
    rfl
  have hright : ({ s with channel := rest }.handle event).receive =
      rest.foldl handle { s.handle event with channel := [] } := by
    rw [s.handle_channel rest event]
    rfl
  rw [hleft, hright, s.handle_channel [] event]

theorem channel_receive (s : Scheduler) : s.receive.channel = [] := by
  obtain ⟨queue, nextId, watched, signalled, answers, hreceive, -⟩ := TakesIn.receive s
  rw [hreceive]

/-- What is in the channel for an event that is sent. -/
def posts (s : Scheduler) (event : Event) : List Event :=
  if s.stopped then [] else [event]

/-- The events that a deed sends while somebody still takes them. -/
def sends (s : Scheduler) : Deed → List Event
  | .ask request => s.posts (.reschedule request)
  | .sendBack entry startedAt outcome =>
    (s.back entry (s.now - startedAt) startedAt outcome).map Event.requeue
  | .announce id outcome => s.posts (.finished id outcome)
  | .tell _ | .pause _ | .handBack .. | .leave _ | .heed _ | .countOut | .wake => []

end Scheduler

/-- A scheduler at work.  `sent` and `handled` are all events so far that somebody could still take,
and that the loop has applied. -/
structure Floor where
  world : World
  loop : LoopPhase := .top
  chores : List Chore := []
  sent : List Event := []
  handled : List Event := []

/-- What happens at one go: somebody outside acts, a run is taken up or goes on, the chore with a
number does its next deed, or the loop moves. -/
inductive Move
  | outside (a : World.Act)
  | resume (id : Nat) (invocation : Configuration → Script)
  | deed (n : Nat)
  | read
  | receive
  | findEmpty
  | check
  | test
  | serve
  | rouse
  | stop

namespace Move

def isLoop : Move → Bool
  | .outside _ | .resume .. | .deed _ => false
  | .read | .receive | .findEmpty | .check | .test | .serve | .rouse | .stop => true

/-- Whether somebody outside submits commands or executes one. -/
def submits : Move → Bool
  | .outside (.add _) | .outside (.addFile ..) | .outside (.notifyChanged ..)
  | .outside (.exec ..) => true
  | _ => false

end Move

namespace Floor

variable {f g : Floor} {m : Move}

def fresh (settings : SchedulerSettings) (catalog : Catalog) (listeners : List String) : Floor :=
  { world := World.fresh settings catalog listeners }

def scheduler (f : Floor) : Scheduler :=
  f.world.scheduler

def put (f : Floor) (s : Scheduler) : Floor :=
  { f with world := { f.world with scheduler := s } }

def isBusy (f : Floor) (id : Nat) : Bool :=
  f.chores.any fun e => e.id == id && e.holds

/-- Take the oldest event of the channel and apply it. -/
def takeEvent? (f : Floor) (next : LoopPhase) : Option Floor :=
  match f.scheduler.channel with
  | [] => none
  | event :: rest =>
    some { f.put ({ f.scheduler with channel := rest }.handle event) with
      loop := next
      handled := f.handled ++ [event] }

/-- A move, where it is possible.  The loop is awake again from its sleep whenever it likes, and may
take an event with it. -/
def move? (f : Floor) : Move → Option Floor
  | .outside .pass | .outside (.step ..) => none
  | .outside a => some { f with world := f.world.act a }
  | .resume id invocation =>
    match f.scheduler.run? id with
    | none => none
    | some r =>
      if f.isBusy id then none
      else some { f with chores := f.chores ++ [⟨id, (f.scheduler.course r invocation).2⟩] }
  | .deed n =>
    match f.chores.drop n with
    | ⟨id, deed :: rest⟩ :: back =>
      some { f.put (f.scheduler.perform deed) with
        chores := f.chores.take n ++ ⟨id, rest⟩ :: back
        sent := f.sent ++ f.scheduler.sends deed }
    | ⟨_, []⟩ :: _ | [] => none
  | .read =>
    if f.loop = .top ∧ f.scheduler.started = true then
      some { f with loop := .receiving (f.scheduler.inFlight == 0) }
    else none
  | .receive =>
    match f.loop with
    | .receiving idle => f.takeEvent? (.receiving idle)
    | .asleep => f.takeEvent? .top
    | _ => none
  | .findEmpty =>
    match f.loop with
    | .receiving idle =>
      if f.scheduler.channel = [] then some { f with loop := .checking idle } else none
    | _ => none
  | .check =>
    match f.loop with
    | .checking idle =>
      some { f with loop := if f.scheduler.shuttingDown then .leaving false else .testing idle }
    | _ => none
  | .test =>
    match f.loop with
    | .testing idle =>
      let drained := f.scheduler.draining && idle && f.scheduler.queue.isEmpty
      some { f with loop := if drained then .leaving true else .serving }
    | _ => none
  | .serve =>
    match f.loop with
    | .serving => some { f.put f.scheduler.scheduleReady with loop := .asleep }
    | _ => none
  | .rouse =>
    match f.loop with
    | .asleep => some { f.put { f.scheduler with signalled := false } with loop := .top }
    | _ => none
  | .stop =>
    match f.loop with
    | .leaving drained => some { f.put f.scheduler.stop with loop := .ended drained }
    | _ => none

/-- What the floor is after a move, and when the move is possible. -/
inductive Moved (f : Floor) : Move → Floor → Prop
  | outside {a : World.Act} (hpass : a ≠ .pass)
      (hstep : ∀ id invocation, a ≠ .step id invocation) :
      Moved f (.outside a) { f with world := f.world.act a }
  | resume {id : Nat} {invocation : Configuration → Script} {r : Run}
      (hrun : f.scheduler.run? id = some r) (hfree : f.isBusy id = false) :
      Moved f (.resume id invocation)
        { f with chores := f.chores ++ [⟨id, (f.scheduler.course r invocation).2⟩] }
  | deed {n id : Nat} {deed : Deed} {rest : List Deed} {back : List Chore}
      (hdrop : f.chores.drop n = ⟨id, deed :: rest⟩ :: back) :
      Moved f (.deed n) { f.put (f.scheduler.perform deed) with
        chores := f.chores.take n ++ ⟨id, rest⟩ :: back
        sent := f.sent ++ f.scheduler.sends deed }
  | read (hloop : f.loop = .top) :
      Moved f .read { f with loop := .receiving (f.scheduler.inFlight == 0) }
  | receive {idle : Bool} {next : Floor} (hloop : f.loop = .receiving idle)
      (htake : f.takeEvent? (.receiving idle) = some next) : Moved f .receive next
  | receiveAsleep {next : Floor} (hloop : f.loop = .asleep)
      (htake : f.takeEvent? .top = some next) : Moved f .receive next
  | findEmpty {idle : Bool} (hloop : f.loop = .receiving idle)
      (hempty : f.scheduler.channel = []) :
      Moved f .findEmpty { f with loop := .checking idle }
  | leave {idle : Bool} (hloop : f.loop = .checking idle) :
      Moved f .check { f with loop := .leaving false }
  | stay {idle : Bool} (hloop : f.loop = .checking idle) :
      Moved f .check { f with loop := .testing idle }
  | drain {idle : Bool} (hloop : f.loop = .testing idle) (hidle : idle = true)
      (hempty : f.scheduler.queue.entries = []) :
      Moved f .test { f with loop := .leaving true }
  | goOn {idle : Bool} (hloop : f.loop = .testing idle) :
      Moved f .test { f with loop := .serving }
  | serve (hloop : f.loop = .serving) :
      Moved f .serve { f.put f.scheduler.scheduleReady with loop := .asleep }
  | rouse (hloop : f.loop = .asleep) :
      Moved f .rouse { f.put { f.scheduler with signalled := false } with loop := .top }
  | stop {drained : Bool} (hloop : f.loop = .leaving drained) :
      Moved f .stop { f.put f.scheduler.stop with loop := .ended drained }

theorem moved_of_move? (h : f.move? m = some g) : f.Moved m g := by
  cases m with
  | outside a =>
      cases a with
      | pass => cases h
      | step id invocation => cases h
      | _ =>
          cases h
          exact .outside nofun nofun
  | resume id invocation =>
      rw [move?] at h
      split at h
      · cases h
      · rename_i r hrun
        cases hbusy : f.isBusy id with
        | true => simp [hbusy] at h
        | false =>
            simp only [hbusy, Bool.false_eq_true, if_false, Option.some.injEq] at h
            subst h
            exact .resume hrun hbusy
  | deed n =>
      rw [move?] at h
      split at h <;> cases h
      exact .deed ‹_›
  | read =>
      rw [move?] at h
      split at h <;> cases h
      rename_i hread
      exact .read hread.1
  | receive =>
      rw [move?] at h
      split at h
      · exact .receive ‹_› h
      · exact .receiveAsleep ‹_› h
      · cases h
  | findEmpty =>
      rw [move?] at h
      split at h
      · split at h <;> cases h
        exact .findEmpty ‹_› ‹_›
      · cases h
  | check =>
      rw [move?] at h
      split at h <;> cases h
      split
      · exact .leave ‹_›
      · exact .stay ‹_›
  | test =>
      rw [move?] at h
      split at h <;> cases h
      split
      · rename_i hloop hdrained
        simp only [Bool.and_eq_true] at hdrained
        exact .drain hloop hdrained.1.2 (List.isEmpty_iff.mp hdrained.2)
      · exact .goOn ‹_›
  | serve =>
      rw [move?] at h
      split at h <;> cases h
      exact .serve ‹_›
  | rouse =>
      rw [move?] at h
      split at h <;> cases h
      exact .rouse ‹_›
  | stop =>
      rw [move?] at h
      split at h <;> cases h
      exact .stop ‹_›

/-- Moves one after the other; `none` where one of them is not possible. -/
def run? (f : Floor) : List Move → Option Floor
  | [] => some f
  | m :: rest => (f.move? m).bind fun g => g.run? rest

theorem run?_append (f : Floor) (front back : List Move) :
    f.run? (front ++ back) = (f.run? front).bind fun g => g.run? back := by
  induction front generalizing f with
  | nil => rfl
  | cons m rest ih =>
      rw [List.cons_append, run?, run?]
      cases f.move? m with
      | none => rfl
      | some g => exact ih g

theorem run?_cons (h : f.move? m = some g) (rest : List Move) :
    f.run? (m :: rest) = g.run? rest := by
  rw [run?, h]
  rfl

theorem run?_induction {P : Floor → Prop} {moves : List Move}
    (hkept : ∀ m ∈ moves, ∀ f g : Floor, P f → f.move? m = some g → P g) (h : P f)
    (hrun : f.run? moves = some g) : P g := by
  induction moves generalizing f with
  | nil =>
      cases hrun
      exact h
  | cons m rest ih =>
      obtain ⟨next, hmove, hrest⟩ := Option.bind_eq_some_iff.mp hrun
      refine ih ?_ (hkept m List.mem_cons_self f next h hmove) hrest
      intro other hother
      exact hkept other (List.mem_cons_of_mem m hother)

theorem exists_run?_deeds {n id : Nat} {front : List Chore} (hn : front.length = n)
    (deeds : List Deed) (hchores : f.chores = front ++ [⟨id, deeds⟩]) :
    ∃ g, f.run? (List.replicate deeds.length (.deed n)) = some g ∧
      g.world = { f.world with scheduler := deeds.foldl Scheduler.perform f.scheduler } ∧
      g.loop = f.loop ∧ g.chores = front ++ [⟨id, []⟩] := by
  induction deeds generalizing f with
  | nil => exact ⟨f, rfl, rfl, rfl, hchores⟩
  | cons deed rest ih =>
      let next : Floor := { f.put (f.scheduler.perform deed) with
        chores := front ++ [⟨id, rest⟩]
        sent := f.sent ++ f.scheduler.sends deed }
      have hmove : f.move? (.deed n) = some next := by
        have hdrop : f.chores.drop n = [⟨id, deed :: rest⟩] := by
          rw [hchores, ← hn, List.drop_left]
        have htake : f.chores.take n = front := by
          rw [hchores, ← hn, List.take_left]
        simp only [move?, hdrop, htake]
        rfl
      obtain ⟨g, hrun, hworld, hloop, hafter⟩ := ih (f := next) rfl
      refine ⟨g, ?_, hworld, hloop, hafter⟩
      rw [List.length_cons, List.replicate_succ, run?_cons hmove]
      exact hrun

/-- A step of a run is what comes out when its chore is done with nothing in between. -/
theorem exists_run?_step {id : Nat} {invocation : Configuration → Script}
    {answer : Nat ⊕ Outcome} {t : Scheduler}
    (hstep : f.scheduler.step id invocation = some (answer, t)) (hfree : f.isBusy id = false) :
    ∃ moves g, f.run? (.resume id invocation :: moves) = some g ∧
      (∀ m ∈ moves, m = .deed f.chores.length) ∧
      g.world = { f.world with scheduler := t } ∧ g.loop = f.loop := by
  rw [Scheduler.step_eq] at hstep
  obtain ⟨r, hrun, hcourse⟩ := Option.map_eq_some_iff.mp hstep
  let deeds := (f.scheduler.course r invocation).2
  let next : Floor := { f with chores := f.chores ++ [⟨id, deeds⟩] }
  have hmove : f.move? (.resume id invocation) = some next := by
    simp only [move?, hrun, hfree]
    rfl
  obtain ⟨g, hdeeds, hworld, hloop, -⟩ := exists_run?_deeds (f := next) rfl deeds rfl
  refine ⟨_, g, (run?_cons hmove _).trans hdeeds, fun m hm => List.eq_of_mem_replicate hm, ?_,
    hloop⟩
  rw [hworld, ← (Prod.mk.inj hcourse).2]
  rfl

theorem run?_receive {idle : Bool} {channel : List Event} (hchannel : f.scheduler.channel = channel)
    (hloop : f.loop = .receiving idle) :
    f.run? (List.replicate channel.length .receive) =
      some { f.put f.scheduler.receive with handled := f.handled ++ channel } := by
  induction channel generalizing f with
  | nil =>
      have hnone : f.scheduler.receive = f.scheduler := by
        rw [Scheduler.receive, hchannel, List.foldl_nil, ← hchannel]
      rw [hnone, List.append_nil]
      rfl
  | cons event rest ih =>
      let next : Floor := { f.put ({ f.scheduler with channel := rest }.handle event) with
        handled := f.handled ++ [event] }
      have hmove : f.move? .receive = some next := by
        simp only [move?, hloop, takeEvent?, hchannel]
        rw [← hloop]
        rfl
      have hnext : next.scheduler.channel = rest :=
        congrArg Scheduler.channel (Scheduler.handle_channel ..)
      rw [List.length_cons, List.replicate_succ, run?_cons hmove, ih hnext hloop,
        Scheduler.receive_cons hchannel]
      simp only [next, List.append_assoc, List.singleton_append]
      rfl

theorem exists_run?_of_testing {idle : Bool} (hloop : f.loop = .testing idle) :
    ∃ moves g, f.run? moves = some g ∧ (∀ m ∈ moves, m.isLoop = true) ∧
      g.world = (f.put (if f.scheduler.draining && idle && f.scheduler.queue.isEmpty
        then f.scheduler.stop else f.scheduler.scheduleReady)).world ∧
      (g.loop = .asleep ∨ ∃ drained, g.loop = .ended drained) := by
  have htest : f.move? .test = some { f with
      loop := if f.scheduler.draining && idle && f.scheduler.queue.isEmpty then .leaving true
        else .serving } := by
    simp only [move?, hloop]
  cases hdrained : f.scheduler.draining && idle && f.scheduler.queue.isEmpty with
  | true =>
      rw [hdrained] at htest
      exact ⟨[.test, .stop], _, (run?_cons htest _).trans rfl, by simp [Move.isLoop], rfl,
        .inr ⟨true, rfl⟩⟩
  | false =>
      rw [hdrained] at htest
      exact ⟨[.test, .serve], _, (run?_cons htest _).trans rfl, by simp [Move.isLoop], rfl,
        .inl rfl⟩

theorem exists_run?_of_empty {idle : Bool} (hempty : f.scheduler.channel = [])
    (hloop : f.loop = .receiving idle) :
    ∃ moves g, f.run? moves = some g ∧ (∀ m ∈ moves, m.isLoop = true) ∧
      g.world = (f.put (if f.scheduler.mayStop idle then f.scheduler.stop
        else f.scheduler.scheduleReady)).world ∧
      (g.loop = .asleep ∨ ∃ drained, g.loop = .ended drained) := by
  let checking : Floor := { f with loop := .checking idle }
  have hfind : f.move? .findEmpty = some checking := by
    simp only [move?, hloop, hempty]
    rfl
  have hcheck : checking.move? .check = some { f with
      loop := if f.scheduler.shuttingDown then .leaving false else .testing idle } := rfl
  rw [Scheduler.mayStop]
  cases hdown : f.scheduler.shuttingDown with
  | true =>
      rw [hdown] at hcheck
      exact ⟨[.findEmpty, .check, .stop], _,
        (run?_cons hfind _).trans ((run?_cons hcheck _).trans rfl), by simp [Move.isLoop], rfl,
        .inr ⟨false, rfl⟩⟩
  | false =>
      rw [hdown] at hcheck
      let testing : Floor := { f with loop := .testing idle }
      obtain ⟨moves, g, hrun, hmoves, hworld, hend⟩ :=
        exists_run?_of_testing (f := testing) rfl
      refine ⟨.findEmpty :: .check :: moves, g,
        (run?_cons hfind _).trans ((run?_cons hcheck _).trans hrun), ?_, hworld, hend⟩
      simpa [Move.isLoop] using hmoves

/-- A pass is what comes out when the loop wakes and moves on to its end or its next sleep with
nothing in between. -/
theorem exists_run?_pass (hloop : f.loop = .asleep) (hstarted : f.scheduler.started = true) :
    ∃ moves g, f.run? moves = some g ∧ (∀ m ∈ moves, m.isLoop = true) ∧
      g.world = { f.world with scheduler := f.scheduler.pass } ∧
      (g.loop = .asleep ∨ ∃ drained, g.loop = .ended drained) := by
  let s : Scheduler := { f.scheduler with signalled := false }
  let idle := s.inFlight == 0
  let awake : Floor := { f.put s with loop := .top }
  let receiving : Floor := { f.put s with loop := .receiving idle }
  let received : Floor := { receiving.put s.receive with handled := f.handled ++ s.channel }
  have hrouse : f.move? .rouse = some awake := by
    simp only [move?, hloop]
    rfl
  have hread : awake.move? .read = some receiving := if_pos ⟨rfl, hstarted⟩
  have hreceive : receiving.run? (List.replicate s.channel.length .receive) = some received :=
    run?_receive rfl rfl
  obtain ⟨moves, g, hrun, hmoves, hworld, hend⟩ :=
    exists_run?_of_empty (f := received) s.channel_receive rfl
  refine ⟨.rouse :: .read :: (List.replicate s.channel.length .receive ++ moves), g, ?_, ?_,
    hworld, hend⟩
  · rw [run?_cons hrouse, run?_cons hread, run?_append, hreceive]
    exact hrun
  · intro m hm
    rcases List.mem_cons.mp hm with rfl | hm
    · rfl
    · rcases List.mem_cons.mp hm with rfl | hm
      · rfl
      · rcases List.mem_append.mp hm with hm | hm
        · rw [List.eq_of_mem_replicate hm]
          rfl
        · exact hmoves m hm

end Floor

end DeviceLab
