import DeviceLab.Proofs.Scheduler.Accounts

/-!
The loop drains before it ends.

A run sends what it has to say before it is counted out, and the loop looks at the count before it
works off the channel.  So a loop that found nobody counted and then nothing waiting has nothing left
to come, whatever happens in between; and what was sent before a loop ends has been applied, in the
order sent.
-/

namespace DeviceLab

namespace LoopPhase

/-- Whether the loop found nobody counted when it last looked. -/
def sawIdle : LoopPhase → Bool
  | .receiving idle | .checking idle | .testing idle => idle
  | .leaving drained | .ended drained => drained
  | .top | .serving | .asleep => false

/-- Whether it then found nothing in the channel. -/
def sawEmpty : LoopPhase → Bool
  | .checking idle | .testing idle => idle
  | .leaving drained | .ended drained => drained
  | .top | .receiving _ | .serving | .asleep => false

/-- Whether it then found nothing in the queue, and leaves. -/
def sawDrained : LoopPhase → Bool
  | .leaving drained | .ended drained => drained
  | .top | .receiving _ | .checking _ | .testing _ | .serving | .asleep => false

/-- Whether the loop has worked off the channel and is about to leave or go on. -/
def isPast : LoopPhase → Bool
  | .checking _ | .testing _ | .leaving _ => true
  | .top | .receiving _ | .serving | .asleep | .ended _ => false

theorem sawEmpty_of_sawDrained {phase : LoopPhase} (h : phase.sawDrained = true) :
    phase.sawEmpty = true := by
  cases phase <;> first | exact h | cases h

theorem sawIdle_of_sawEmpty {phase : LoopPhase} (h : phase.sawEmpty = true) :
    phase.sawIdle = true := by
  cases phase <;> first | exact h | cases h

end LoopPhase

namespace Floor

variable {f g : Floor} {m : Move}

/-- What the loop has seen still holds. -/
structure Clear (f : Floor) : Prop where
  idle : f.loop.sawIdle = true → f.scheduler.inFlight = 0
  empty : f.loop.sawEmpty = true → f.scheduler.channel = []
  drained : f.loop.sawDrained = true → f.scheduler.queue.entries = []

/-- Nothing is left to be done by anybody, but to wake the loop. -/
structure Quiescent (f : Floor) : Prop where
  queue : f.scheduler.queue.entries = []
  running : f.scheduler.running = []
  runs : f.scheduler.runs = []
  inFlight : f.scheduler.inFlight = 0
  channel : f.scheduler.channel = []
  chores : ∀ e ∈ f.chores, ∀ deed ∈ e.deeds, deed = .wake

theorem of_takeEvent? {next : LoopPhase} (h : f.takeEvent? next = some g) :
    g.loop = next ∧ g.scheduler.inFlight = f.scheduler.inFlight := by
  unfold takeEvent? at h
  split at h
  · cases h
  · rename_i event rest _
    cases h
    have hup := Scheduler.TakesUp.of_takesIn
      (.handle { f.scheduler with channel := rest } event)
    exact ⟨rfl, hup.inFlight⟩

namespace Clear

theorem of_unseen (h : f.loop.sawIdle = false) : f.Clear := by
  have hnot : ¬f.loop.sawIdle = true := by
    rw [h]
    exact Bool.false_ne_true
  constructor
  · intro hidle
    exact absurd hidle hnot
  · intro hempty
    exact absurd (LoopPhase.sawIdle_of_sawEmpty hempty) hnot
  · intro hdrained
    exact absurd (LoopPhase.sawIdle_of_sawEmpty (LoopPhase.sawEmpty_of_sawDrained hdrained)) hnot

/-- While nobody is counted, what the loop has seen holds on through anything that keeps it so. -/
theorem of_idle (h : f.Clear) (hloop : g.loop = f.loop)
    (hstill : f.scheduler.inFlight = 0 → g.scheduler.inFlight = 0 ∧
      g.scheduler.channel = f.scheduler.channel ∧
      (f.scheduler.queue.entries = [] → g.scheduler.queue.entries = [])) : g.Clear := by
  have hidle (hempty : f.loop.sawEmpty = true) : f.scheduler.inFlight = 0 :=
    h.idle (LoopPhase.sawIdle_of_sawEmpty hempty)
  constructor
  · intro hsaw
    exact (hstill (h.idle (hloop ▸ hsaw))).1
  · intro hsaw
    rw [hloop] at hsaw
    rw [(hstill (hidle hsaw)).2.1]
    exact h.empty hsaw
  · intro hsaw
    rw [hloop] at hsaw
    exact (hstill (hidle (LoopPhase.sawEmpty_of_sawDrained hsaw))).2.2 (h.drained hsaw)

theorem deed (h : f.Clear) (hsound : f.Sound) {n id : Nat} {deed : Deed} {rest : List Deed}
    {back chores : List Chore} {sent : List Event}
    (hdrop : f.chores.drop n = ⟨id, deed :: rest⟩ :: back) :
    Clear { f.put (f.scheduler.perform deed) with chores, sent } := by
  refine h.of_idle rfl fun hzero => ?_
  have hmem : ⟨id, deed :: rest⟩ ∈ f.chores :=
    List.mem_of_mem_drop (hdrop ▸ List.mem_cons_self)
  obtain ⟨-, -, hwake⟩ := hsound.books.of_empty hzero
  obtain rfl := hwake _ hmem deed List.mem_cons_self
  exact ⟨hzero, rfl, fun hempty => hempty⟩

theorem move (h : f.Clear) (hsound : f.Sound) (hmove : f.move? m = some g) (hread : m ≠ .read)
    (hsubmits : m.submits = false) : g.Clear := by
  cases moved_of_move? hmove with
  | outside hpass hstep =>
      obtain ⟨added, hup, hquiet⟩ := f.world.exists_takesUp_act hpass hstep
      obtain ⟨rfl, hqueue⟩ := hquiet hsubmits
      exact h.of_idle rfl fun hzero => ⟨hup.inFlight.trans hzero, hup.channel, hqueue⟩
  | resume hrun hfree => exact ⟨h.idle, h.empty, h.drained⟩
  | deed hdrop => exact h.deed hsound hdrop
  | read => exact absurd rfl hread
  | receive hloop htake =>
      obtain ⟨hnext, hinFlight⟩ := of_takeEvent? htake
      refine ⟨fun hsaw => hinFlight.trans (h.idle ?_), ?_, ?_⟩
      · rwa [hnext, ← hloop] at hsaw
      · simp [hnext, LoopPhase.sawEmpty]
      · simp [hnext, LoopPhase.sawDrained]
  | receiveAsleep hloop htake =>
      refine of_unseen ?_
      rw [(of_takeEvent? htake).1]
      rfl
  | findEmpty hloop hempty =>
      refine ⟨fun hsaw => h.idle ?_, fun _ => hempty, nofun⟩
      rwa [hloop]
  | leave hloop => exact of_unseen rfl
  | stay hloop =>
      refine ⟨fun hsaw => h.idle ?_, fun hsaw => h.empty ?_, nofun⟩
      · rwa [hloop]
      · rwa [hloop]
  | drain hloop hidle hempty =>
      refine ⟨fun _ => h.idle ?_, fun _ => h.empty ?_, fun _ => hempty⟩
      · rwa [hloop]
      · rwa [hloop]
  | goOn hloop => exact of_unseen rfl
  | serve hloop => exact of_unseen rfl
  | rouse hloop => exact of_unseen rfl
  | stop hloop =>
      refine ⟨fun hsaw => h.idle ?_, fun hsaw => h.empty ?_, fun hsaw => h.drained ?_⟩
      · rwa [hloop]
      · rwa [hloop]
      · rwa [hloop]

theorem run (h : f.Clear) (hsound : f.Sound) {moves : List Move} (hrun : f.run? moves = some g)
    (hmoves : ∀ m ∈ moves, m ≠ .read ∧ m.submits = false) : g.Clear := by
  have hboth : g.Sound ∧ g.Clear := by
    apply run?_induction (P := fun f => f.Sound ∧ f.Clear) ?_ ⟨hsound, h⟩ hrun
    rintro m hm f g ⟨hsound, hclear⟩ hmove
    obtain ⟨hread, hsubmits⟩ := hmoves m hm
    exact ⟨hsound.move hmove, hclear.move hsound hmove hread hsubmits⟩
  exact hboth.2

theorem quiescent (h : f.Clear) (hsound : f.Sound) (hdrained : f.loop.sawDrained = true) :
    f.Quiescent := by
  have hempty := LoopPhase.sawEmpty_of_sawDrained hdrained
  have hzero := h.idle (LoopPhase.sawIdle_of_sawEmpty hempty)
  obtain ⟨hruns, hrunning, hwake⟩ := hsound.books.of_empty hzero
  exact ⟨h.drained hdrained, hrunning, hruns, hzero, h.empty hempty, hwake⟩

end Clear

/-- The loop is not past the channel, or the channel is empty. -/
def Emptied (f : Floor) : Prop :=
  f.loop.isPast = true → f.scheduler.channel = []

namespace Emptied

theorem move (h : f.Emptied) (hmove : f.move? m = some g) (hloop : m.isLoop = true) :
    g.Emptied := by
  intro hpast
  cases moved_of_move? hmove with
  | outside | resume | deed => cases hloop
  | read => cases hpast
  | receive _ htake =>
      rw [(of_takeEvent? htake).1] at hpast
      cases hpast
  | receiveAsleep _ htake =>
      rw [(of_takeEvent? htake).1] at hpast
      cases hpast
  | findEmpty _ hempty => exact hempty
  | leave hat | stay hat | drain hat =>
      apply h
      rw [hat]
      rfl
  | goOn | serve | rouse | stop => cases hpast

theorem run (h : f.Emptied) {moves : List Move} (hrun : f.run? moves = some g)
    (hmoves : ∀ m ∈ moves, m.isLoop = true) : g.Emptied :=
  run?_induction (fun m hm _ _ hf hmove => hf.move hmove (hmoves m hm)) h hrun

end Emptied

/-- The loop has ended, and everything that was sent before has been applied. -/
structure Settled (f : Floor) : Prop where
  stopped : f.scheduler.stopped = true
  handled : f.handled = f.sent

namespace Settled

theorem move (h : f.Settled) (hsound : f.Sound) (hmove : f.move? m = some g) : g.Settled := by
  have hended {phase : LoopPhase} (hloop : f.loop = phase)
      (hphase : ∀ drained, phase ≠ .ended drained) : g.Settled :=
    absurd ((hsound.isOpen hloop hphase).symm.trans h.stopped) Bool.false_ne_true
  cases moved_of_move? hmove with
  | outside hpass hstep =>
      obtain ⟨added, hup, -⟩ := f.world.exists_takesUp_act hpass hstep
      exact ⟨hup.stopped.trans h.stopped, h.handled⟩
  | resume => exact ⟨h.stopped, h.handled⟩
  | deed hdrop =>
      refine ⟨(f.scheduler.stopped_perform _).trans h.stopped, ?_⟩
      change f.handled = f.sent ++ f.scheduler.sends _
      rw [Scheduler.sends_of_stopped h.stopped, List.append_nil]
      exact h.handled
  | read hloop | receive hloop | receiveAsleep hloop | findEmpty hloop | leave hloop
  | stay hloop | drain hloop | goOn hloop | serve hloop | rouse hloop | stop hloop =>
      exact hended hloop nofun

theorem run (h : f.Settled) (hsound : f.Sound) {moves : List Move}
    (hrun : f.run? moves = some g) : g.Settled := by
  have hboth : g.Sound ∧ g.Settled := by
    apply run?_induction (P := fun f => f.Sound ∧ f.Settled) ?_ ⟨hsound, h⟩ hrun
    rintro m - f g ⟨hsound, hsettled⟩ hmove
    exact ⟨hsound.move hmove, hsettled.move hsound hmove⟩
  exact hboth.2

end Settled

/-- When the loop leaves past an empty channel, everything sent has been applied. -/
theorem Emptied.settled (h : f.Emptied) (hsound : f.Sound) (hmove : f.move? .stop = some g) :
    g.Settled := by
  cases moved_of_move? hmove with
  | stop hloop =>
      have hempty : f.scheduler.channel = [] := by
        apply h
        rw [hloop]
        rfl
      have hsent := hsound.sent (hsound.isOpen hloop nofun)
      rw [hempty, List.append_nil] at hsent
      exact ⟨rfl, hsent.symm⟩

/-- In whatever order runs, loop and everybody else move, two things hold of the loop's end.  If
nobody submits or executes anything after the loop last looked at the count, it leaves on an empty
queue only when no run is listed, counted or has anything to send, and the channel is empty.  And if
the loop moves alone from that look to its end, then each event that was sent while somebody took it
has been applied, once and in the order sent, and so has each follow-up command whose run was told
that it was taken. -/
theorem drains_before_end (settings : SchedulerSettings) (catalog : Catalog)
    (listeners : List String) (before : List Move) :
    (∀ middle f, (fresh settings catalog listeners).run? (before ++ .read :: middle) = some f →
      (∀ m ∈ middle, m ≠ .read ∧ m.submits = false) →
      f.loop = .leaving true ∨ f.loop = .ended true → f.Quiescent) ∧
    ∀ turn after f,
      (fresh settings catalog listeners).run?
        (before ++ .read :: (turn ++ .stop :: after)) = some f →
      (∀ m ∈ turn, m.isLoop = true) →
      f.handled = f.sent ∧ f.scheduler.accepted = f.handled.filterMap Event.asked? := by
  have hfresh := sound_fresh settings catalog listeners
  have hsplit (rest : List Move) (f : Floor)
      (hrun : (fresh settings catalog listeners).run? (before ++ .read :: rest) = some f) :
      ∃ first : Floor, first.Sound ∧
        first.loop = .receiving (first.scheduler.inFlight == 0) ∧ first.run? rest = some f := by
    rw [run?_append] at hrun
    obtain ⟨start, hstart, hrun⟩ := Option.bind_eq_some_iff.mp hrun
    obtain ⟨first, hread, hrest⟩ := Option.bind_eq_some_iff.mp hrun
    have hstart := hfresh.run hstart
    refine ⟨first, hstart.move hread, ?_, hrest⟩
    cases moved_of_move? hread with
    | read hloop => rfl
  constructor
  -- `idle` is the truth about the count when it is read, and stays so up to the exit.
  · intro middle f hrun hmiddle hend
    obtain ⟨first, hsound, hloop, hrest⟩ := hsplit middle f hrun
    have hclear : first.Clear := by
      refine ⟨fun hsaw => ?_, ?_, ?_⟩
      · rw [hloop] at hsaw
        exact beq_iff_eq.mp hsaw
      · simp [hloop, LoopPhase.sawEmpty]
      · simp [hloop, LoopPhase.sawDrained]
    refine (hclear.run hsound hrest hmiddle).quiescent (hsound.run hrest) ?_
    rcases hend with hend | hend <;> rw [hend] <;> rfl
  · intro turn after f hrun hturn
    obtain ⟨first, hsound, hloop, hrest⟩ := hsplit _ f hrun
    rw [run?_append] at hrest
    obtain ⟨leaving, hleaving, hrest⟩ := Option.bind_eq_some_iff.mp hrest
    obtain ⟨ended, hstop, hafter⟩ := Option.bind_eq_some_iff.mp hrest
    have hleft := hsound.run hleaving
    have hfirst : first.Emptied := by
      intro hpast
      rw [hloop] at hpast
      cases hpast
    have hended := hleft.move hstop
    have hsettled := ((hfirst.run hleaving hturn).settled hleft hstop).run hended hafter
    refine ⟨hsettled.handled, ?_⟩
    rw [hsettled.handled]
    exact (hended.run hafter).accepted

theorem drains_before_end_of_follow_up :
    let lost : Configuration → Script := fun _ =>
      { actions := [.reschedule ["flaky"] none], ending := .lost "gone" }
    let before : List Move := List.flatten [
      [.outside (.register { serial := "SER1" }), .outside (.register { serial := "SER2" }),
        .outside (.add ["smoke"]), .outside .drain, .outside .start],
      [.read, .findEmpty, .check, .test, .serve, .resume 1 lost], .replicate 5 (.deed 0),
      [.rouse, .read], .replicate 3 (.deed 0),
      [.receive, .receive, .findEmpty, .check, .test, .serve, .resume 2 fun _ => {}],
      .replicate 7 (.deed 1), [.rouse]]
    let turn : List Move := [.receive, .findEmpty, .check, .test]
    ∃ f, (fresh {} ∅ []).run? (before ++ .read :: (turn ++ [.stop])) = some f ∧
      f.loop = .ended true ∧ f.Quiescent ∧ f.handled = f.sent ∧
      f.scheduler.accepted = [["flaky"]] ∧ f.handled.filterMap Event.asked? = [["flaky"]] := by
  intro lost before turn
  have hseen : ((fresh {} ∅ []).run? (before ++ .read :: (turn ++ [.stop]))).map
      (fun f => (f.loop, f.scheduler.accepted)) = some (.ended true, [["flaky"]]) := by
    decide
  obtain ⟨f, hrun, hf⟩ := Option.map_eq_some_iff.mp hseen
  obtain ⟨hloop, haccepted⟩ := Prod.mk.inj hf
  obtain ⟨hdrains, happlies⟩ := drains_before_end {} ∅ [] before
  obtain ⟨hhandled, hasked⟩ := happlies turn [] f hrun (by decide)
  refine ⟨f, hrun, hloop, hdrains _ f hrun ?_ (.inr hloop), hhandled, haccepted,
    hasked.symm.trans haccepted⟩
  intro m hm
  simp only [turn, List.cons_append, List.nil_append, List.mem_cons, List.not_mem_nil, or_false]
    at hm
  rcases hm with rfl | rfl | rfl | rfl | rfl <;> exact ⟨nofun, rfl⟩

end Floor

end DeviceLab
