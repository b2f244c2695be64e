import DeviceLab.Proofs.Scheduler.Entrance
import DeviceLab.Proofs.Scheduler.Survival

namespace DeviceLab

/-- When a run was taken up; one that is only assigned could be taken up now at the earliest. -/
def Run.startedAt (r : Run) (now : Nat) : Nat :=
  match r.phase with
  | .assigned => now
  | .underway startedAt _ _ => startedAt

namespace Books

/-- The commands that wait or are on their way back. -/
def waiting (b : Books) : List QueuedCommand :=
  b.queue.entries ++ b.requeues

theorem mem_waiting {b : Books} {e : QueuedCommand} :
    e ∈ b.waiting ↔ e ∈ b.queue.entries ∨ e ∈ b.requeues :=
  List.mem_append

theorem mem_entries_of_mem_waiting {b : Books} {e : QueuedCommand} (h : e ∈ b.waiting) :
    e ∈ b.entries :=
  mem_entries.mpr ((mem_waiting.mp h).imp_right .inr)

theorem Orderly.id_ne_of_waiting {b : Books} (h : b.Orderly) {e : QueuedCommand} {r : Run}
    (he : e ∈ b.waiting) (hr : r ∈ b.runs) : e.id ≠ r.id := by
  intro hid
  have hperm : b.entries.Perm (b.waiting ++ b.runs.map Run.entry) := by
    rw [List.perm_iff_count]
    intro q
    simp only [entries, waiting, List.count_append]
    omega
  have hnodup := (hperm.map QueuedCommand.id).nodup_iff.mp h.nodup
  rw [List.map_append] at hnodup
  exact (List.nodup_append.mp hnodup).2.2 _ (List.mem_map_of_mem he) _
    (List.mem_map_of_mem (List.mem_map_of_mem hr)) hid

theorem Grows.waiting {b c : Books} (h : b.Grows c) {e : QueuedCommand} (he : e ∈ c.waiting) :
    e ∈ b.waiting ∨ b.nextId ≤ e.id := by
  obtain ⟨new, hnew, hc⟩ := h
  rw [hc] at he
  rcases mem_waiting.mp he with he | he
  · rcases Queue.mem_foldl_push he with he | he
    · exact .inl (mem_waiting.mpr (.inl he))
    · exact .inr (hnew.bounds e he).1
  · exact .inl (mem_waiting.mpr (.inr he))

theorem Grows.runs {b c : Books} (h : b.Grows c) {r : Run} (hr : r ∈ c.runs) : r ∈ b.runs := by
  obtain ⟨new, -, hc⟩ := h
  rwa [hc] at hr

end Books

namespace Scheduler

variable {s t : Scheduler}

theorem TakesIn.same (h : s.TakesIn t) :
    t.settings = s.settings ∧ t.catalog = s.catalog ∧ t.now = s.now ∧ t.pool = s.pool ∧
      t.runs = s.runs := by
  obtain ⟨queue, nextId, watched, signalled, answers, rfl, -⟩ := h
  exact ⟨rfl, rfl, rfl, rfl, rfl⟩

theorem FirstFit.exists_offer {slots : List Slot} {claimed claims : List Nat}
    {started : List (QueuedCommand × Device)} (h : FirstFit slots claimed started claims)
    {q : QueuedCommand} {d : Device} (hq : (q, d) ∈ started) :
    ∃ slot ∈ slots, slot.Offers q.selection d := by
  induction h with
  | nil => simp at hq
  | cons hunclaimed hslot hoffers hfirst hrest ih =>
      rcases List.mem_cons.mp hq with heq | hq
      · obtain ⟨rfl, rfl⟩ := Prod.mk.inj heq
        exact ⟨_, List.mem_of_getElem? hslot, hoffers⟩
      · exact ih hq

/-- A run as the allocation loop starts it: its command was ready at the instant that the loop went
by, and a free slot offered the device. -/
structure Starts (s : Scheduler) (r : Run) : Prop where
  assigned : r.phase = .assigned
  ready : r.entry.isReady s.now = true
  offered : ∃ slot ∈ s.pool.slots, slot.Offers r.entry.selection r.device

theorem starts_of_mem_started {q : QueuedCommand} {d : Device}
    (h : (q, d) ∈ s.allocation.started) : s.Starts { entry := q, device := d } := by
  obtain ⟨claims, hfit, -⟩ := @exists_firstFit s.now s.settings.maxConcurrent s.pool s.inFlight
    s.queue.entries
  exact ⟨rfl, isReady_of_mem_started h, hfit.exists_offer h⟩

theorem waiting_receive {e : QueuedCommand} (he : e ∈ s.receive.books.waiting) :
    e ∈ s.books.waiting ∨ s.nextId ≤ e.id := by
  obtain ⟨nextId, new, pushed, hnew, hperm, hbooks⟩ := s.exists_books_receive
  rw [hbooks] at he
  rcases Books.mem_waiting.mp he with he | he
  · rcases Queue.mem_foldl_push he with he | he
    · exact .inl (Books.mem_waiting.mpr (.inl he))
    · rcases List.mem_append.mp (hperm.subset he) with he | he
      · exact .inl (Books.mem_waiting.mpr (.inr (s.returning_sublist.subset he)))
      · exact .inr (hnew.bounds e he).1
  · simp [Books.enter] at he

theorem waiting_pass {e : QueuedCommand} (he : e ∈ s.pass.books.waiting) :
    e ∈ s.books.waiting ∨ s.nextId ≤ e.id := by
  rw [pass] at he
  split at he
  · exact waiting_receive (s := { s with signalled := false }) he
  · refine waiting_receive (s := { s with signalled := false }) ?_
    rw [books_scheduleReady] at he
    rcases Books.mem_waiting.mp he with he | he
    · exact Books.mem_waiting.mpr (.inl ((allocate_waiting_sublist ..).subset he))
    · exact Books.mem_waiting.mpr (.inr he)

theorem runs_pass {r : Run} (hr : r ∈ s.pass.runs) :
    r ∈ s.runs ∨ s.Starts r ∧ (r.entry ∈ s.books.waiting ∨ s.nextId ≤ r.entry.id) := by
  let received := { s with signalled := false }.receive
  obtain ⟨-, -, hnow, hpool, hruns⟩ := (TakesIn.receive { s with signalled := false }).same
  change r ∈ (if received.mayStop (s.inFlight == 0) then received.stop
    else received.scheduleReady).runs at hr
  split at hr
  · exact .inl (hruns ▸ hr)
  · rw [scheduleReady_eq] at hr
    rcases List.mem_append.mp hr with hr | hr
    · exact .inl (hruns ▸ hr)
    · right
      obtain ⟨⟨q, d⟩, hstarted, rfl⟩ := List.mem_map.mp hr
      have hstarts := starts_of_mem_started hstarted
      constructor
      · exact ⟨hstarts.assigned, hnow ▸ hstarts.ready, hpool ▸ hstarts.offered⟩
      · have hq : q ∈ received.queue.entries :=
          (started_sublist ..).subset (List.mem_map_of_mem hstarted)
        exact waiting_receive (s := { s with signalled := false }) (Books.mem_waiting.mpr (.inl hq))

/-- What a run taken up at `startedAt` comes to in a step: its next pause, or its end. -/
inductive GoesOn (s : Scheduler) (r : Run) (startedAt : Nat) : Nat ⊕ Outcome → Books → Prop
  | pause (time : Nat) (d : Device) (rest : List Action) (ending : Ending) :
      GoesOn s r startedAt (.inl time)
        (s.books.pause { r with device := d, phase := .underway startedAt rest ending })
  | ending (outcome : Outcome) (elapsed : Nat) (d : Device) (report : ReturnReport) :
      GoesOn s r startedAt (.inr outcome)
        ({ s.books with pool := s.pool.release d report }.retire r.entry
          (s.back r.entry elapsed startedAt outcome) outcome)

theorem GoesOn.congr {r : Run} {startedAt : Nat} {answer : Nat ⊕ Outcome} {after : Books}
    (h : t.GoesOn r startedAt answer after) (hbooks : t.books = s.books) :
    s.GoesOn r startedAt answer after := by
  have hpool : t.pool = s.pool := congrArg Books.pool hbooks
  cases h with
  | pause time d rest ending =>
      rw [hbooks]
      exact .pause time d rest ending
  | ending outcome elapsed d report =>
      rw [hbooks, back_congr hbooks, hpool]
      exact .ending outcome elapsed d report

theorem goesOn_finish (s : Scheduler) (r : Run) (d : Device) (startedAt : Nat)
    (error? : Option ConfigurationError) (c : Executor.Conclusion) :
    s.GoesOn r startedAt (.inr c.outcome)
      (s.finish { r with device := d } startedAt error? c).books := by
  obtain ⟨elapsed, hfinish⟩ := s.books_finish { r with device := d } startedAt error? c
  rw [hfinish]
  exact .ending c.outcome elapsed c.device c.report

theorem goesOn_proceed {r : Run} {startedAt : Nat} {actions : List Action} {ending : Ending}
    {answer : Nat ⊕ Outcome} (h : s.proceed r startedAt actions ending = (answer, t)) :
    s.GoesOn r startedAt answer t.books := by
  let b := burst (s.reschedulerOf r) r.device actions
  let u := b.requests.foldl (fun s request => s.send (.reschedule request))
    (s.noteAll (Executor.askedFor (s.reschedulerOf r) b.requests))
  have hbooks : u.books = s.books := by
    simp only [u, books_sendAll_reschedule, books_noteAll]
  refine GoesOn.congr ?_ hbooks
  unfold proceed at h
  dsimp only at h
  split at h
  · rename_i time rest _
    cases h
    exact .pause (u.now + time) b.device rest ending
  · cases h
    exact u.goesOn_finish r b.device startedAt none (Executor.conclude b.device ending)

theorem goesOn_step {id : Nat} {invocation : Configuration → Script} {answer : Nat ⊕ Outcome}
    (h : s.step id invocation = some (answer, t)) :
    ∃ r ∈ s.runs, r.id = id ∧ s.GoesOn r (r.startedAt s.now) answer t.books := by
  obtain ⟨r, hrun, hstep⟩ := Option.map_eq_some_iff.mp h
  refine ⟨r, List.mem_of_find?_eq_some hrun, by simpa using List.find?_some hrun, ?_⟩
  cases hphase : r.phase with
  | underway startedAt rest ending =>
      rw [hphase] at hstep
      rw [Run.startedAt, hphase]
      exact goesOn_proceed hstep
  | assigned =>
      rw [hphase] at hstep
      rw [Run.startedAt, hphase]
      simp only [begin] at hstep
      split at hstep
      · cases hstep
        exact s.goesOn_finish r r.device s.now _ _
      · exact (goesOn_proceed hstep).congr (books_noteAll ..)

end Scheduler

namespace World

variable {w : World} {a : Act}

/-- How a command has come to wait: it waited before, it is new, or the act ended a run of it that
leaves something of its budget. -/
inductive Waits (w : World) (a : Act) : QueuedCommand → Prop
  | still {e : QueuedCommand} (he : e ∈ w.scheduler.books.waiting) : Waits w a e
  | entered {e : QueuedCommand} (henters : w.Enters a e) : Waits w a e
  | returned {r : Run} {invocation : Configuration → Script} {elapsed : Nat}
      (hr : r ∈ w.scheduler.runs) (ha : a = .step r.id invocation)
      (hmode : r.entry.mode = .loop)
      (hleft : (r.entry.command.recordRun elapsed).hasRemaining = true) :
      Waits w a (Scheduler.requeued r.entry (r.entry.command.recordRun elapsed)
        (r.startedAt w.scheduler.now))

/-- How a run has come to be listed: it was listed before and let be, it came to a pause, the loop
started it for a command that waited or is new, or it is a direct execution. -/
inductive Lists (w : World) (a : Act) : Run → Prop
  | still {r : Run} (hr : r ∈ w.scheduler.runs) (ha : ∀ invocation, a ≠ .step r.id invocation) :
      Lists w a r
  | paused {r : Run} {invocation : Configuration → Script} {d : Device} {rest : List Action}
      {ending : Ending} (hr : r ∈ w.scheduler.runs) (ha : a = .step r.id invocation) :
      Lists w a { r with
        device := d, phase := .underway (r.startedAt w.scheduler.now) rest ending }
  | started {r : Run} (ha : a = .pass) (hstarts : w.scheduler.Starts r)
      (hentry : r.entry ∈ w.scheduler.books.waiting ∨ w.Enters .pass r.entry) : Lists w a r
  | executed {r : Run} {listener : String} {d : Device} {args : List String}
      (ha : a = .exec listener d args) (henters : w.Enters a r.entry) : Lists w a r

/-- The runs that are listed after an act and were not before. -/
def starts (w : World) (a : Act) : List Run :=
  (w.act a).scheduler.runs.filter fun r => r.id ∉ w.scheduler.runs.map Run.id

theorem exists_goesOn_step (w : World) (id : Nat) (invocation : Configuration → Script) :
    (w.act (.step id invocation) = w ∧ ∀ r ∈ w.scheduler.runs, r.id ≠ id) ∨
    ∃ r ∈ w.scheduler.runs, r.id = id ∧ ∃ answer,
      w.scheduler.GoesOn r (r.startedAt w.scheduler.now) answer
        (w.act (.step id invocation)).scheduler.books := by
  cases hstep : w.scheduler.step id invocation with
  | none =>
      left
      have hrun : w.scheduler.run? id = none := Option.map_eq_none_iff.mp hstep
      refine ⟨by rw [act, hstep], fun r hr heq => ?_⟩
      have hnot := List.find?_eq_none.mp hrun r hr
      simp [heq] at hnot
  | some result =>
      right
      obtain ⟨r, hr, hid, hgoes⟩ := Scheduler.goesOn_step hstep
      refine ⟨r, hr, hid, result.1, ?_⟩
      rw [act, hstep]
      exact hgoes

theorem waits_step (id : Nat) (invocation : Configuration → Script) {e : QueuedCommand}
    (he : e ∈ (w.act (.step id invocation)).scheduler.books.waiting) :
    w.Waits (.step id invocation) e := by
  rcases w.exists_goesOn_step id invocation with
    ⟨hact, -⟩ | ⟨r, hr, rfl, answer, hgoes⟩
  · rw [hact] at he
    exact .still he
  · generalize (w.act (.step r.id invocation)).scheduler.books = after at he hgoes
    cases hgoes with
    | pause time d rest ending => exact .still he
    | ending outcome elapsed d report =>
        rcases Books.mem_waiting.mp he with he | he
        · exact .still (Books.mem_waiting.mpr (.inl he))
        · rcases List.mem_append.mp he with he | he
          · exact .still (Books.mem_waiting.mpr (.inr he))
          · unfold Scheduler.back at he
            dsimp only at he
            split at he
            · rename_i hback
              rw [Bool.and_eq_true, Scheduler.comesBack_iff] at hback
              obtain ⟨-, hmode, -, -, hleft⟩ := hback
              rw [List.mem_singleton.mp he]
              exact .returned hr rfl hmode hleft
            · simp at he

theorem lists_step (id : Nat) (invocation : Configuration → Script) {r : Run}
    (hr : r ∈ (w.act (.step id invocation)).scheduler.runs) :
    w.Lists (.step id invocation) r := by
  rcases w.exists_goesOn_step id invocation with
    ⟨hact, hnone⟩ | ⟨stepped, hstepped, rfl, answer, hgoes⟩
  · rw [hact] at hr
    exact .still hr fun other heq => hnone r hr (Act.step.inj heq).1.symm
  · change r ∈ (w.act (.step stepped.id invocation)).scheduler.books.runs at hr
    generalize (w.act (.step stepped.id invocation)).scheduler.books = after at hr hgoes
    cases hgoes with
    | pause time d rest ending =>
        obtain ⟨other, hother, heq⟩ := List.mem_map.mp hr
        split at heq
        · rw [← heq]
          exact .paused hstepped rfl
        · rename_i hne
          subst heq
          exact .still hother fun _ heq => hne (Act.step.inj heq).1.symm
    | ending outcome elapsed d report =>
        obtain ⟨hr, hne⟩ := List.mem_filter.mp hr
        refine .still hr fun _ heq => ?_
        have hid : stepped.id = r.id := (Act.step.inj heq).1
        simp only [bne_iff_ne, ne_eq] at hne
        exact hne hid.symm

theorem waiting_act_of_not_step (ha : ∀ id invocation, a ≠ .step id invocation)
    {e : QueuedCommand} (he : e ∈ (w.act a).scheduler.books.waiting) :
    e ∈ w.scheduler.books.waiting ∨ w.scheduler.nextId ≤ e.id := by
  have hdoes := w.does a
  generalize w.act a = v at he hdoes
  cases hdoes with
  | nothing | aside | shutDown => exact .inl he
  | added hadd => exact (Scheduler.grows_addCommand hadd).waiting he
  | addedFile hadd => exact (Scheduler.grows_addFile hadd).waiting he
  | notified hnotify =>
      obtain ⟨gone, hgrows⟩ := Scheduler.grows_notifyChanged hnotify
      refine (hgrows.waiting he).imp_left fun he => ?_
      rcases Books.mem_waiting.mp he with he | he
      · rw [Queue.entries_foldl_erase] at he
        exact Books.mem_waiting.mpr (.inl (List.mem_of_mem_filter he))
      · exact Books.mem_waiting.mpr (.inr he)
  | removed => exact .inl (Books.mem_waiting.mpr (.inr he))
  | passed => exact Scheduler.waiting_pass he
  | stepped => exact absurd rfl (ha _ _)
  | @executed listener d args hd =>
      left
      rcases w.scheduler.execCommand_cases listener d args with
        hbooks | ⟨r, -, -, -, hbooks⟩ <;> rwa [hbooks] at he

theorem runs_act_of_not_step (ha : ∀ id invocation, a ≠ .step id invocation) {r : Run}
    (hr : r ∈ (w.act a).scheduler.runs) :
    r ∈ w.scheduler.runs ∨
    (a = .pass ∧ w.scheduler.Starts r ∧
      (r.entry ∈ w.scheduler.books.waiting ∨ w.scheduler.nextId ≤ r.entry.id)) ∨
    ((∃ listener d args, a = .exec listener d args) ∧ w.scheduler.nextId ≤ r.entry.id) := by
  have hdoes := w.does a
  generalize w.act a = v at hr hdoes
  cases hdoes with
  | nothing | aside | removed | shutDown => exact .inl hr
  | added hadd => exact .inl ((Scheduler.grows_addCommand hadd).runs hr)
  | addedFile hadd => exact .inl ((Scheduler.grows_addFile hadd).runs hr)
  | notified hnotify =>
      obtain ⟨gone, hgrows⟩ := Scheduler.grows_notifyChanged hnotify
      exact .inl (hgrows.runs hr)
  | passed => exact (Scheduler.runs_pass hr).imp_right fun hstarts => .inl ⟨rfl, hstarts⟩
  | stepped => exact absurd rfl (ha _ _)
  | @executed listener d args hd =>
      change r ∈ (w.scheduler.execCommand listener d args).2.books.runs at hr
      rcases w.scheduler.execCommand_cases listener d args with
        hbooks | ⟨new, hcommand, -, -, hbooks⟩
      · rw [hbooks] at hr
        exact .inl hr
      · rw [hbooks] at hr
        rcases List.mem_append.mp hr with hr | hr
        · exact .inl hr
        · rw [List.mem_singleton.mp hr]
          exact .inr (.inr ⟨⟨listener, d, args, rfl⟩, (congrArg Command.id hcommand).ge⟩)

theorem waits_of_mem (h : w.Balanced) {e : QueuedCommand}
    (he : e ∈ (w.act a).scheduler.books.waiting) : w.Waits a e := by
  by_cases hstep : ∃ id invocation, a = .step id invocation
  · obtain ⟨id, invocation, rfl⟩ := hstep
    exact waits_step id invocation he
  · have hnot : ∀ id invocation, a ≠ .step id invocation := fun id invocation heq =>
      hstep ⟨id, invocation, heq⟩
    rcases waiting_act_of_not_step hnot he with hold | hnew
    · exact .still hold
    · exact .entered (enters_of_new h (Books.mem_entries_of_mem_waiting he) hnew)

theorem lists_of_mem (h : w.Balanced) {r : Run} (hr : r ∈ (w.act a).scheduler.runs) :
    w.Lists a r := by
  by_cases hstep : ∃ id invocation, a = .step id invocation
  · obtain ⟨id, invocation, rfl⟩ := hstep
    exact lists_step id invocation hr
  · have hnot : ∀ id invocation, a ≠ .step id invocation := fun id invocation heq =>
      hstep ⟨id, invocation, heq⟩
    have hentry : r.entry ∈ (w.act a).scheduler.books.entries := Books.mem_entries_of_mem_runs hr
    rcases runs_act_of_not_step hnot hr with
      hold | ⟨rfl, hstarts, hwaits | hnew⟩ | ⟨⟨listener, d, args, rfl⟩, hnew⟩
    · exact .still hold (hnot r.id)
    · exact .started rfl hstarts (.inl hwaits)
    · exact .started rfl hstarts (.inr (enters_of_new h hentry hnew))
    · exact .executed rfl (enters_of_new h hentry hnew)

theorem Enters.le (h : w.Balanced) {e : QueuedCommand} (henters : w.Enters a e) :
    w.scheduler.nextId ≤ e.id := by
  obtain ⟨args, origin, s, t, hsubmits, hbrings⟩ := henters
  exact Nat.le_trans (hsubmits.bounds h).1 hbrings.le

theorem Balanced.nextId_le_act (h : w.Balanced) (a : Act) :
    w.scheduler.nextId ≤ (w.act a).scheduler.nextId := by
  obtain ⟨kept, next, lost, new, hturns⟩ := h.exists_turns a
  exact hturns.fresh.le

theorem Balanced.goes_on_or_enters (h : w.Balanced) {e : QueuedCommand}
    (he : e ∈ (w.act a).scheduler.books.entries) :
    (∃ q ∈ w.scheduler.books.entries, ∃ n, q.After n e) ∨ w.Enters a e := by
  obtain ⟨kept, next, lost, new, hturns⟩ := h.exists_turns a
  rcases List.mem_append.mp (hturns.after_perm.subset he) with hnext | hnew
  · left
    obtain ⟨q, hq, hafter⟩ := hturns.exists_of_mem_next hnext
    exact ⟨q, hturns.before_perm.mem_iff.mpr (List.mem_append_left lost hq), _, hafter⟩
  · right
    exact enters_of_new h he (hturns.fresh.bounds e hnew).1

theorem mem_starts {r : Run} :
    r ∈ w.starts a ↔ r ∈ (w.act a).scheduler.runs ∧ ∀ other ∈ w.scheduler.runs, other.id ≠ r.id := by
  simp [starts]

theorem starts_of_mem_starts_pass {r : Run} (hr : r ∈ w.starts .pass) : w.scheduler.Starts r := by
  obtain ⟨hlisted, hnew⟩ := mem_starts.mp hr
  have hnot : ∀ id invocation, Act.pass ≠ .step id invocation := nofun
  rcases runs_act_of_not_step hnot hlisted with hold | ⟨-, hstarts, -⟩ | ⟨⟨_, _, _, heq⟩, -⟩
  · exact absurd rfl (hnew r hold)
  · exact hstarts
  · cases heq

/-- Whatever has the id of a command at hand later on is this command after its runs since then. -/
theorem Balanced.after_of_id_eq (h : w.Balanced) {q e : QueuedCommand}
    (hq : q ∈ w.scheduler.books.entries) (acts : List Act)
    (he : e ∈ (w.run acts).scheduler.books.entries) (hid : e.id = q.id) :
    q.After (runsEnded q.id w acts) e := by
  induction acts generalizing w q with
  | nil =>
      obtain rfl : e = q := List.inj_on_of_nodup_map h.orderly.nodup he hq hid
      exact QueuedCommand.After.refl e
  | cons a rest ih =>
      obtain ⟨kept, next, lost, new, hturns⟩ := h.exists_turns a
      rcases hturns.goes_on_or_dismissed h.orderly hq with ⟨p, hp, hafter⟩ | ⟨-, hgone⟩
      · have hrest := ih (h.act a) hp he (hid.trans hafter.id_eq.symm)
        rw [hafter.id_eq] at hrest
        exact hafter.trans hrest
      · have hlt := Nat.lt_of_lt_of_le (h.orderly.lt_nextId q hq) hturns.fresh.le
        have hnever := (h.act a).not_mem_ids_run hlt ((h.act a).ids_perm.mem_iff.not.mpr hgone) rest
        refine absurd ?_ hnever
        rw [← hid]
        exact ((h.act a).run rest).mem_ids_iff.mpr ⟨e, he, rfl⟩

end World

end DeviceLab
