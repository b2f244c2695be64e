import DeviceLab.Proofs.Scheduler.Places

namespace DeviceLab

/-- A command loops only because its configuration says so, and at the pace that the configuration or
else the settings say. -/
def QueuedCommand.LoopsAsAsked (settings : SchedulerSettings) (catalog : Catalog)
    (q : QueuedCommand) : Prop :=
  q.mode = .loop → ∃ c, Configuration.ofArgs c.args = .ok c ∧ c.options.runMode = .loop ∧
    c.Covers catalog q.command.args ∧
    q.minLoopTime = if c.options.minLoopTime = 0 then settings.defaultMinLoopTime
      else c.options.minLoopTime

theorem QueuedCommand.After.loopsAsAsked {settings : SchedulerSettings} {catalog : Catalog}
    {q e : QueuedCommand} {n : Nat} (h : q.After n e) (hq : q.LoopsAsAsked settings catalog) :
    e.LoopsAsAsked settings catalog := by
  obtain ⟨-, _, _, _, rfl⟩ := h
  exact hq

theorem Run.startedAt_mono (r : Run) {now later : Nat} (h : now ≤ later) :
    r.startedAt now ≤ r.startedAt later := by
  unfold startedAt
  split
  · exact h
  · exact Nat.le_refl _

namespace Scheduler

variable {s t : Scheduler}

theorem Brings.loopsAsAsked {args : List String} {origin : Origin} {e : QueuedCommand}
    (h : Brings args origin s t e) : e.LoopsAsAsked s.settings s.catalog := by
  intro hmode
  obtain ⟨c, hargs, hadmitted⟩ := h.admitted
  obtain ⟨hloop, hcovers, hpace⟩ := hadmitted.looping hmode
  exact ⟨c, (Configuration.args_of_ofArgs hargs).symm ▸ hargs, hloop, hcovers, hpace⟩

/-- From `s` to `t` settings and catalog stay, and the clock does not go back. -/
structure Lasts (s t : Scheduler) : Prop where
  settings : t.settings = s.settings
  catalog : t.catalog = s.catalog
  now : s.now ≤ t.now

namespace Lasts

theorem refl (s : Scheduler) : s.Lasts s :=
  ⟨rfl, rfl, Nat.le_refl _⟩

theorem trans {u : Scheduler} (hst : s.Lasts t) (htu : t.Lasts u) : s.Lasts u :=
  ⟨htu.settings.trans hst.settings, htu.catalog.trans hst.catalog, Nat.le_trans hst.now htu.now⟩

theorem of_takesIn (h : s.TakesIn t) : s.Lasts t := by
  obtain ⟨hsettings, hcatalog, hnow, -⟩ := h.same
  exact ⟨hsettings, hcatalog, hnow.ge⟩

theorem release (s : Scheduler) (d : Device) (report : ReturnReport) :
    s.Lasts (s.release d report) := by
  obtain ⟨signalled, hrelease⟩ := s.exists_release_eq d report
  rw [hrelease]
  exact ⟨rfl, rfl, Nat.le_refl _⟩

theorem perform (s : Scheduler) (deed : Deed) : s.Lasts (s.perform deed) := by
  rcases s.perform_cases deed with
    ⟨_, _, _, _, heq⟩ | ⟨_, _, _, rfl, heq⟩ | ⟨-, _, _, heq⟩ | rfl
  · rw [heq]
    exact ⟨rfl, rfl, Nat.le_refl _⟩
  · rw [heq]
    exact ⟨rfl, rfl, Nat.le_refl _⟩
  · rw [heq]
    exact ⟨rfl, rfl, Nat.le_refl _⟩
  · exact ⟨rfl, rfl, Nat.le_refl _⟩

theorem foldl_perform (deeds : List Deed) (s : Scheduler) :
    s.Lasts (deeds.foldl Scheduler.perform s) := by
  induction deeds generalizing s with
  | nil => exact refl s
  | cons deed rest ih => exact (perform s deed).trans (ih (s.perform deed))

theorem pass (s : Scheduler) : s.Lasts s.pass := by
  obtain ⟨hsettings, hcatalog, hnow, -⟩ := (TakesIn.receive { s with signalled := false }).same
  rw [Scheduler.pass]
  split
  · exact ⟨hsettings, hcatalog, hnow.ge⟩
  · rw [scheduleReady_eq]
    exact ⟨hsettings, hcatalog, hnow.ge⟩

theorem execCommand (s : Scheduler) (listener : String) (d : Device) (args : List String) :
    s.Lasts (s.execCommand listener d args).2 := by
  rcases s.execCommand_refused_or_taken listener d args with ⟨error, heq⟩ | ⟨-, c, -, heq⟩
  · rw [heq]
    exact release s d .available
  · rw [heq]
    exact ⟨rfl, rfl, Nat.le_refl _⟩

end Lasts

end Scheduler

namespace World

open Scheduler (Lasts)

variable {w : World} {a : Act}

theorem lasts_act (w : World) (a : Act) : w.scheduler.Lasts (w.act a).scheduler := by
  have hdoes := w.does a
  generalize w.act a = v at hdoes
  cases hdoes with
  | nothing | removed | shutDown => exact ⟨rfl, rfl, Nat.le_refl _⟩
  | aside _ _ hnow => exact ⟨rfl, rfl, hnow⟩
  | added hadd => exact Lasts.of_takesIn (.addCommand hadd)
  | addedFile hadd => exact Lasts.of_takesIn (.addFile hadd)
  | notified hnotify => exact Lasts.of_takesIn (.notifyChanged hnotify)
  | passed => exact Lasts.pass _
  | stepped hstep =>
      rw [Scheduler.step_eq] at hstep
      obtain ⟨r, -, hcourse⟩ := Option.map_eq_some_iff.mp hstep
      cases hcourse
      exact Lasts.foldl_perform _ _
  | @executed listener d args hd => exact Lasts.execCommand _ listener d args

def dated (w : World) (time : Nat) : World :=
  { w with scheduler := { w.scheduler with now := time } }

/-- An act, or a pass that goes by a reading of the clock that is so many milliseconds old. -/
inductive Beat
  | act (a : Act)
  | latePass (lag : Nat)

def beat (w : World) : Beat → World
  | .act a => w.act a
  | .latePass lag => ((w.dated (w.scheduler.now - lag)).act .pass).dated w.scheduler.now

def play (w : World) (beats : List Beat) : World :=
  beats.foldl beat w

@[simp] theorem play_append (w : World) (before after : List Beat) :
    w.play (before ++ after) = (w.play before).play after :=
  List.foldl_append

theorem Balanced.dated (h : w.Balanced) (time : Nat) : (w.dated time).Balanced :=
  ⟨h.orderly, h.tallies⟩

theorem Balanced.beat (h : w.Balanced) (b : Beat) : (w.beat b).Balanced := by
  cases b with
  | act a => exact h.act a
  | latePass lag => exact ((h.dated _).act .pass).dated _

theorem Balanced.play (h : w.Balanced) (beats : List Beat) : (w.play beats).Balanced := by
  induction beats generalizing w with
  | nil => exact h
  | cons b rest ih => exact ih (h.beat b)

/-- The run that an act takes up, if it takes one up. -/
def takenUp? (w : World) : Act → Option Run
  | .step id _ => (w.scheduler.run? id).filter (·.phase = .assigned)
  | _ => none

theorem exists_of_takenUp? {r : Run} (h : w.takenUp? a = some r) :
    ∃ invocation, a = .step r.id invocation ∧ r ∈ w.scheduler.runs ∧ r.phase = .assigned := by
  cases a with
  | step id invocation =>
      obtain ⟨hrun, hphase⟩ := Option.filter_eq_some_iff.mp h
      have hid : r.id = id := by simpa using List.find?_some hrun
      exact ⟨invocation, by rw [hid], List.mem_of_find?_eq_some hrun, of_decide_eq_true hphase⟩
  | _ => cases h

/-- A run of a command with this pace started at `since`; the next one does not start before the pace
is over. -/
structure Paced (id pace since : Nat) (w : World) : Prop where
  taken : id < w.scheduler.nextId
  past : since ≤ w.scheduler.now
  waiting : ∀ e ∈ w.scheduler.books.waiting, e.id = id →
    e.minLoopTime = pace ∧ ∃ ready, e.readyAt = some ready ∧ since + pace ≤ ready
  running : ∀ r ∈ w.scheduler.runs, r.id = id → r.entry.minLoopTime = pace ∧
    since ≤ r.startedAt w.scheduler.now ∧
    (r.phase = .assigned → since + pace ≤ w.scheduler.now)

theorem Enters.id_ne (h : w.Balanced) {e : QueuedCommand} (henters : w.Enters a e) {id : Nat}
    (htaken : id < w.scheduler.nextId) : e.id ≠ id := by
  have hle := henters.le h
  omega

theorem paced_of_takenUp? (h : w.Balanced) {r : Run} (hr : w.takenUp? a = some r) :
    (w.act a).Paced r.id r.entry.minLoopTime w.scheduler.now := by
  obtain ⟨invocation, rfl, hlisted, hphase⟩ := exists_of_takenUp? hr
  have hstarted : r.startedAt w.scheduler.now = w.scheduler.now := by
    rw [Run.startedAt, hphase]
  have htaken := h.orderly.lt_nextId r.entry (Books.mem_entries_of_mem_runs hlisted)
  have hsame (other : Run) (hother : other ∈ w.scheduler.runs) (hid : other.id = r.id) :
      other = r :=
    h.orderly.eq_of_run_id_eq hother hlisted hid
  refine ⟨Nat.lt_of_lt_of_le htaken (h.nextId_le_act _), (w.lasts_act _).now, ?_, ?_⟩
  · intro e he hid
    cases waits_of_mem h he with
    | still hold => exact absurd hid (h.orderly.id_ne_of_waiting hold hlisted)
    | entered henters => exact absurd hid (henters.id_ne h htaken)
    | @returned other _ elapsed hother ha hmode hleft =>
        obtain rfl := hsame other hother hid
        rw [hstarted]
        exact ⟨rfl, _, rfl, Nat.le_refl _⟩
  · intro other hother hid
    cases lists_of_mem h hother with
    | still hold ha => exact absurd (by rw [hid]) (ha invocation)
    | @paused before _ d rest ending hold ha =>
        obtain rfl := hsame before hold hid
        rw [hstarted]
        exact ⟨rfl, Nat.le_refl _, fun hphase => by cases hphase⟩
    | started ha => cases ha
    | executed ha => cases ha

namespace Paced

variable {id pace since : Nat}

/-- A command stays paced in the course of an act, even if a pass goes by an old reading of the
clock. -/
theorem of_act (h : w.Paced id pace since) (hbalanced : w.Balanced) {time : Nat}
    (htime : time ≤ w.scheduler.now)
    (hstep : ∀ id invocation, a = .step id invocation → time = w.scheduler.now) {v : World}
    (hbooks : v.scheduler.books = ((w.dated time).act a).scheduler.books)
    (hnow : w.scheduler.now ≤ v.scheduler.now) : v.Paced id pace since := by
  have hdated : (w.dated time).Balanced := hbalanced.dated time
  have hnext := hdated.nextId_le_act a
  refine ⟨?_, Nat.le_trans h.past hnow, ?_, ?_⟩
  · have hv : v.scheduler.nextId = ((w.dated time).act a).scheduler.nextId :=
      congrArg Books.nextId hbooks
    rw [hv]
    exact Nat.lt_of_lt_of_le h.taken hnext
  · intro e he hid
    rw [hbooks] at he
    cases waits_of_mem hdated he with
    | still hold => exact h.waiting e hold hid
    | entered henters => exact absurd hid (henters.id_ne hdated h.taken)
    | @returned r _ elapsed hr ha hmode hleft =>
        obtain ⟨hpace, hsince, -⟩ := h.running r hr hid
        obtain rfl : time = w.scheduler.now := hstep _ _ ha
        refine ⟨hpace, _, rfl, ?_⟩
        change since + pace ≤ r.startedAt w.scheduler.now + r.entry.minLoopTime
        rw [hpace]
        exact Nat.add_le_add_right hsince pace
  · intro r hr hid
    have hr : r ∈ ((w.dated time).act a).scheduler.books.runs := hbooks ▸ hr
    cases lists_of_mem hdated hr with
    | still hold ha =>
        obtain ⟨hpace, hsince, hassigned⟩ := h.running r hold hid
        exact ⟨hpace, Nat.le_trans hsince (r.startedAt_mono hnow),
          fun hphase => Nat.le_trans (hassigned hphase) hnow⟩
    | @paused before _ d rest ending hold ha =>
        obtain ⟨hpace, hsince, -⟩ := h.running before hold hid
        obtain rfl : time = w.scheduler.now := hstep _ _ ha
        exact ⟨hpace, hsince, nofun⟩
    | started ha hstarts hentry =>
        rcases hentry with hwaits | henters
        · obtain ⟨hpace, ready, hready, hle⟩ := h.waiting r.entry hwaits hid
          have hreached : ready ≤ time := by
            have hall := hstarts.ready
            rw [QueuedCommand.isReady, hready] at hall
            exact of_decide_eq_true hall
          have hpast := h.past
          refine ⟨hpace, ?_, fun _ => by omega⟩
          rw [Run.startedAt, hstarts.assigned]
          exact Nat.le_trans h.past hnow
        · exact absurd hid (henters.id_ne hdated h.taken)
    | executed ha henters => exact absurd hid (henters.id_ne hdated h.taken)

theorem beat (h : w.Paced id pace since) (hbalanced : w.Balanced) (b : Beat) :
    (w.beat b).Paced id pace since := by
  cases b with
  | act a => exact h.of_act hbalanced (Nat.le_refl _) (fun _ _ _ => rfl) rfl (w.lasts_act a).now
  | latePass lag => exact h.of_act (a := .pass) hbalanced (Nat.sub_le _ lag) nofun rfl (Nat.le_refl _)

theorem play (h : w.Paced id pace since) (hbalanced : w.Balanced) (beats : List Beat) :
    (w.play beats).Paced id pace since := by
  induction beats generalizing w with
  | nil => exact h
  | cons b rest ih => exact ih (h.beat hbalanced b) (hbalanced.beat b)

end Paced

theorem Submits.same {args : List String} {origin : Origin} {s t : Scheduler}
    (h : w.Submits a args origin s t) :
    s.settings = w.scheduler.settings ∧ s.catalog = w.scheduler.catalog := by
  cases h with
  | direct => exact ⟨rfl, rfl⟩
  | executed => exact ⟨rfl, rfl⟩
  | @line _ path _ _ _ older _ _ _ _ _ hs =>
      obtain ⟨hsettings, hcatalog, -⟩ := (Scheduler.TakesIn.addLines path older w.scheduler).same
      rw [Scheduler.addLines_eq_foldl] at hsettings hcatalog
      rw [hs]
      exact ⟨hsettings, hcatalog⟩
  | @newLine _ path _ _ _ lines older _ _ _ _ _ hs =>
      let cleared := { w.scheduler with queue := w.scheduler.queue.cleared path lines }
      obtain ⟨hsettings, hcatalog, -⟩ := (Scheduler.TakesIn.reloadLines path older cleared).same
      rw [Scheduler.reloadLines_eq_foldl] at hsettings hcatalog
      rw [hs]
      exact ⟨hsettings, hcatalog⟩
  | @followUp older _ _ _ _ _ hs =>
      let before := { w.scheduler with channel := older, signalled := false }
      obtain ⟨hsettings, hcatalog, -⟩ := (Scheduler.TakesIn.receive before).same
      rw [hs]
      exact ⟨hsettings, hcatalog⟩

/-- Every command at hand loops only as it was asked to. -/
structure AsAsked (settings : SchedulerSettings) (catalog : Catalog) (w : World) : Prop where
  settings_eq : w.scheduler.settings = settings
  catalog_eq : w.scheduler.catalog = catalog
  entries : ∀ q ∈ w.scheduler.books.entries, q.LoopsAsAsked settings catalog

namespace AsAsked

variable {settings : SchedulerSettings} {catalog : Catalog}

theorem act (h : w.AsAsked settings catalog) (hbalanced : w.Balanced) (a : Act) :
    (w.act a).AsAsked settings catalog := by
  have hlasts := w.lasts_act a
  refine ⟨hlasts.settings.trans h.settings_eq, hlasts.catalog.trans h.catalog_eq, fun e he => ?_⟩
  rcases hbalanced.goes_on_or_enters he with ⟨q, hq, n, hafter⟩ | henters
  · exact hafter.loopsAsAsked (h.entries q hq)
  · obtain ⟨args, origin, s, t, hsubmits, hbrings⟩ := henters
    obtain ⟨hsettings, hcatalog⟩ := hsubmits.same
    have hloops := hbrings.loopsAsAsked
    rwa [hsettings, hcatalog, h.settings_eq, h.catalog_eq] at hloops

theorem dated (h : w.AsAsked settings catalog) (time : Nat) :
    (w.dated time).AsAsked settings catalog :=
  ⟨h.settings_eq, h.catalog_eq, h.entries⟩

theorem play (h : w.AsAsked settings catalog) (hbalanced : w.Balanced) (beats : List Beat) :
    (w.play beats).AsAsked settings catalog := by
  induction beats generalizing w with
  | nil => exact h
  | cons b rest ih =>
      refine ih ?_ (hbalanced.beat b)
      cases b with
      | act a => exact h.act hbalanced a
      | latePass lag => exact ((h.dated _).act (hbalanced.dated _) .pass).dated _

end AsAsked

theorem asAsked_fresh (settings : SchedulerSettings) (catalog : Catalog)
    (listeners : List String) : (fresh settings catalog listeners).AsAsked settings catalog :=
  ⟨rfl, rfl, by simp [fresh, Scheduler.books, Books.entries]⟩

/-- However a scheduler has been used, with passes that may go by an old reading of the clock.  What a
pass starts was not to wait any longer at the instant that it went by.  When a run of a looping command
is taken up, the command loops because a configuration that it was submitted with says so; and
whatever happens from then on, the next run of that command is not taken up before the minimum loop
time that this configuration asks for, or else the settings, has gone by. -/
theorem iterations_apart (settings : SchedulerSettings) (catalog : Catalog)
    (listeners : List String) (beats : List Beat) :
    let start := fresh settings catalog listeners
    let w := start.play beats
    (∀ lag, ∀ r ∈ (w.dated (w.scheduler.now - lag)).starts .pass, ∀ ready,
      r.entry.readyAt = some ready → ready ≤ w.scheduler.now - lag) ∧
    ∀ a r, w.takenUp? a = some r → r.entry.mode = .loop →
      ∃ c, Configuration.ofArgs c.args = .ok c ∧ c.options.runMode = .loop ∧
        c.Covers catalog r.entry.command.args ∧
        ∀ between b next,
          let v := start.play (beats ++ .act a :: between)
          v.takenUp? b = some next → next.id = r.id →
            w.scheduler.now + (if c.options.minLoopTime = 0 then settings.defaultMinLoopTime
              else c.options.minLoopTime) ≤ v.scheduler.now := by
  intro start w
  have hstart : start.Balanced := balanced_fresh settings catalog listeners
  have hbalanced : w.Balanced := hstart.play beats
  constructor
  · intro lag r hr ready hready
    have hall := (starts_of_mem_starts_pass hr).ready
    rw [QueuedCommand.isReady, hready] at hall
    exact of_decide_eq_true hall
  · intro a r hr hmode
    have hasked : w.AsAsked settings catalog :=
      (asAsked_fresh settings catalog listeners).play hstart beats
    obtain ⟨-, -, hlisted, -⟩ := exists_of_takenUp? hr
    obtain ⟨c, hargs, hloop, hcovers, hpace⟩ :=
      hasked.entries r.entry (Books.mem_entries_of_mem_runs hlisted) hmode
    refine ⟨c, hargs, hloop, hcovers, ?_⟩
    intro between b next v hnext hid
    rw [← hpace]
    have hpaced := (paced_of_takenUp? hbalanced hr).play (hbalanced.act a) between
    have hv : v = (w.act a).play between := play_append start beats (.act a :: between)
    obtain ⟨-, -, hagain, hassigned⟩ := exists_of_takenUp? hnext
    rw [hv] at hagain ⊢
    exact (hpaced.running next hagain hid).2.2 hassigned

/-- A command that may start every 50 milliseconds has waited for 60: a pass that goes by a reading of
20 milliseconds ago does not start it yet, and one that goes by a reading of 5 milliseconds ago does. -/
example :
    let w := (fresh {} ∅ []).play
      [.act (.register { serial := "SER1" }),
        .act (.add ["smoke", "--loop", "--min-loop-time", "50"]), .act .start, .act .pass]
    let a : Act := .step 1 fun _ => {}
    let v := w.play [.act a, .act (.wait 60), .latePass 20]
    (w.takenUp? a).isSome = true ∧ v.takenUp? a = none ∧
      ((v.beat (.latePass 5)).takenUp? a).isSome = true := by
  decide

end World

end DeviceLab
