import DeviceLab.Proofs.Scheduler.Execution
import DeviceLab.Proofs.Scheduler.Places

namespace DeviceLab

theorem QueuedCommand.After.selection_eq {q e : QueuedCommand} {n : Nat} (h : q.After n e) :
    e.selection = q.selection := by
  obtain ⟨-, _, _, _, rfl⟩ := h
  rfl

theorem Origin.selection_of_ne_reschedule {origin : Origin}
    (h : ∀ file selection, origin ≠ .reschedule file selection) (c : Configuration) :
    origin.selection c = c.requirements := by
  cases origin with
  | direct | fileLine => rfl
  | reschedule file selection => exact absurd rfl (h file selection)

namespace Scheduler

variable {s t : Scheduler}

theorem TakesIn.channel (h : s.TakesIn t) : t.channel = s.channel := by
  obtain ⟨queue, nextId, watched, signalled, answers, rfl, -⟩ := h
  rfl

theorem channel_release (s : Scheduler) (d : Device) (report : ReturnReport) :
    (s.release d report).channel = s.channel := by
  obtain ⟨signalled, hrelease⟩ := s.exists_release_eq d report
  rw [hrelease]

theorem channel_execCommand (s : Scheduler) (listener : String) (d : Device) (args : List String) :
    (s.execCommand listener d args).2.channel = s.channel := by
  rcases s.execCommand_refused_or_taken listener d args with ⟨error, heq⟩ | ⟨-, c, -, heq⟩
  · rw [heq]
    exact s.channel_release d .available
  · rw [heq]
    rfl

theorem channel_pass (s : Scheduler) : s.pass.channel = [] := by
  rw [pass]
  split
  · exact channel_receive _
  · rw [scheduleReady_eq]
    exact channel_receive _

theorem eq_ask_of_mem_sends {deed : Deed} {request : FollowUp}
    (h : Event.reschedule request ∈ s.sends deed) : deed = .ask request := by
  cases deed with
  | ask other =>
      rw [sends, posts] at h
      split at h
      · cases h
      · cases List.mem_singleton.mp h
        rfl
  | announce id outcome =>
      rw [sends, posts] at h
      split at h
      · cases h
      · cases List.mem_singleton.mp h
  | sendBack entry startedAt outcome =>
      obtain ⟨back, -, hback⟩ := List.mem_map.mp h
      cases hback
  | tell | pause | handBack | leave | heed | countOut | wake => cases h

theorem mem_channel_foldl_perform {deeds : List Deed} {request : FollowUp}
    (h : Event.reschedule request ∈ (deeds.foldl perform s).channel) :
    Event.reschedule request ∈ s.channel ∨ request ∈ deeds.filterMap Deed.asked? := by
  induction deeds generalizing s with
  | nil => exact .inl h
  | cons deed rest ih =>
      rcases ih h with hmem | hmem
      · rw [channel_perform] at hmem
        rcases List.mem_append.mp hmem with hmem | hmem
        · exact .inl hmem
        · right
          rw [eq_ask_of_mem_sends hmem]
          exact List.mem_cons_self
      · right
        obtain ⟨asking, hasking, hasked⟩ := List.mem_filterMap.mp hmem
        exact List.mem_filterMap.mpr ⟨asking, List.mem_cons_of_mem deed hasking, hasked⟩

theorem mem_channel_step {id : Nat} {invocation : Configuration → Script} {answer : Nat ⊕ Outcome}
    {request : FollowUp} (hstep : s.step id invocation = some (answer, t))
    (h : Event.reschedule request ∈ t.channel) :
    Event.reschedule request ∈ s.channel ∨ ∃ r ∈ s.runs, r.id = id ∧ ∃ args given,
      .reschedule args given ∈ stretch (r.pending invocation) ∧
        request = r.rescheduler.followUp args given := by
  rw [step_eq] at hstep
  obtain ⟨r, hrun, hcourse⟩ := Option.map_eq_some_iff.mp hstep
  cases hcourse
  rcases mem_channel_foldl_perform h with h | h
  · exact .inl h
  · rw [asked_course] at h
    obtain ⟨action, haction, hasks⟩ := List.mem_filterMap.mp h
    refine .inr ⟨r, List.mem_of_find?_eq_some hrun, by simpa using List.find?_some hrun, ?_⟩
    cases action with
    | reschedule args given =>
        cases hasks
        exact ⟨args, given, haction, rfl⟩
    | pause time => cases hasks
    | edit change => cases hasks

end Scheduler

namespace World

variable {w : World} {a : Act}

theorem mem_channel_act {request : FollowUp}
    (h : Event.reschedule request ∈ (w.act a).scheduler.channel) :
    Event.reschedule request ∈ w.scheduler.channel ∨
    ∃ r ∈ w.scheduler.runs, ∃ invocation, a = .step r.id invocation ∧ ∃ args given,
      .reschedule args given ∈ stretch (r.pending invocation) ∧
        request = r.rescheduler.followUp args given := by
  have hdoes := w.does a
  generalize w.act a = v at h hdoes
  cases hdoes with
  | nothing | aside | removed | shutDown => exact .inl h
  | added hadd => exact .inl ((Scheduler.TakesIn.addCommand hadd).channel ▸ h)
  | addedFile hadd => exact .inl ((Scheduler.TakesIn.addFile hadd).channel ▸ h)
  | notified hnotify => exact .inl ((Scheduler.TakesIn.notifyChanged hnotify).channel ▸ h)
  | passed => simp [Scheduler.channel_pass] at h
  | @stepped id invocation answer t hstep =>
      rcases Scheduler.mem_channel_step hstep h with h | ⟨r, hr, rfl, hasks⟩
      · exact .inl h
      · exact .inr ⟨r, hr, invocation, rfl, hasks⟩
  | @executed listener d args hd => exact .inl (w.scheduler.channel_execCommand listener d args ▸ h)

/-- What the command of an id demands of its device, by where it comes from: after some acts, an id has
its constraints from the arguments that took it, or from the run that has asked for it. -/
inductive Demands (start : World) : List Act → Nat → Selection → Prop
  | read {before : List Act} {a : Act} {args : List String} {origin : Origin} {s t : Scheduler}
      {c : Configuration} {id : Nat}
      (hsubmits : (start.run before).Submits a args origin s t)
      (horigin : ∀ file selection, origin ≠ .reschedule file selection)
      (hargs : Configuration.ofArgs args = .ok c) (hle : s.nextId ≤ id) (hlt : id < t.nextId) :
      Demands start (before ++ [a]) id c.requirements
  | asked {before between : List Act} {invocation : Configuration → Script} {r : Run}
      {args : List String} {given : Option Selection} {inherited : Selection} {s t : Scheduler}
      {id : Nat}
      (hr : r ∈ (start.run before).scheduler.runs)
      (hinherited : Demands start before r.id inherited)
      (hasks : .reschedule args given ∈ stretch (r.pending invocation))
      (hsubmits : (start.run (before ++ .step r.id invocation :: between)).Submits .pass args
        (.reschedule r.entry.command.file (given.getD r.entry.selection)) s t)
      (hle : s.nextId ≤ id) (hlt : id < t.nextId) :
      Demands start (before ++ .step r.id invocation :: between ++ [.pass]) id
        (given.getD inherited)
  | kept {acts : List Act} {a : Act} {id : Nat} {selection : Selection}
      (h : Demands start acts id selection) : Demands start (acts ++ [a]) id selection

variable {start : World} {acts : List Act}

theorem Balanced.selection_of_submits (h : w.Balanced) {args : List String} {origin : Origin}
    {s t : Scheduler} (hsubmits : w.Submits a args origin s t) {e : QueuedCommand}
    (he : e ∈ (w.act a).scheduler.books.entries) (hle : s.nextId ≤ e.id) (hlt : e.id < t.nextId) :
    ∃ c, Configuration.ofArgs args = .ok c ∧ e.selection = origin.selection c := by
  obtain ⟨c, hargs, hadmitted⟩ := (hsubmits.brings h he hle hlt).admitted
  exact ⟨c, hargs, hadmitted.selection⟩

/-- Where a command comes from, that is what it demands for as long as it is at hand. -/
theorem Demands.eq_selection (hstart : start.Balanced) {id : Nat} {selection : Selection}
    (h : Demands start acts id selection) :
    id < (start.run acts).scheduler.nextId ∧
      ∀ e ∈ (start.run acts).scheduler.books.entries, e.id = id → e.selection = selection := by
  -- On where the command came from; acts in between neither take its id anew nor change what it
  -- demands.
  induction h with
  | @read before a args origin s t c id hsubmits horigin hargs hle hlt =>
      have hbalanced := hstart.run before
      rw [run_append]
      refine ⟨Nat.lt_of_lt_of_le hlt (hsubmits.bounds hbalanced).2, fun e he hid => ?_⟩
      subst hid
      obtain ⟨other, hother, hselection⟩ := hbalanced.selection_of_submits hsubmits he hle hlt
      cases hargs.symm.trans hother
      rw [hselection, Origin.selection_of_ne_reschedule horigin]
  | @asked before between invocation r args given inherited s t id hr hinherited hasks hsubmits hle
      hlt ih =>
      have hbalanced := hstart.run (before ++ .step r.id invocation :: between)
      have hparent : r.entry.selection = inherited :=
        ih.2 r.entry (Books.mem_entries_of_mem_runs hr) rfl
      rw [run_append]
      refine ⟨Nat.lt_of_lt_of_le hlt (hsubmits.bounds hbalanced).2, fun e he hid => ?_⟩
      subst hid
      obtain ⟨c, -, hselection⟩ := hbalanced.selection_of_submits hsubmits he hle hlt
      rw [hselection, ← hparent]
      rfl
  | @kept acts a id selection hdemands ih =>
      obtain ⟨hid, hat⟩ := ih
      have hbalanced := hstart.run acts
      rw [run_append]
      refine ⟨Nat.lt_of_lt_of_le hid (hbalanced.nextId_le_act a), fun e he heq => ?_⟩
      rcases hbalanced.goes_on_or_enters he with ⟨q, hq, n, hafter⟩ | henters
      · rw [hafter.selection_eq]
        exact hat q hq (hafter.id_eq.symm.trans heq)
      · have hnew := henters.le hbalanced
        omega

/-- What is at hand and on its way to the loop after some acts: the commands demand what they are said
to demand, and the follow-up commands have been asked for by runs. -/
structure Traced (start : World) (acts : List Act) : Prop where
  entries : ∀ e ∈ (start.run acts).scheduler.books.entries, Demands start acts e.id e.selection
  channel : ∀ request, Event.reschedule request ∈ (start.run acts).scheduler.channel →
    ∃ before between r invocation args given,
      acts = before ++ .step r.id invocation :: between ∧
        r ∈ (start.run before).scheduler.runs ∧
        Demands start before r.id r.entry.selection ∧
        .reschedule args given ∈ stretch (r.pending invocation) ∧
        request = r.rescheduler.followUp args given

theorem Traced.demands_of_enters (h : Traced start acts) {e : QueuedCommand}
    (henters : (start.run acts).Enters a e) : Demands start (acts ++ [a]) e.id e.selection := by
  obtain ⟨args, origin, s, t, hsubmits, hbrings⟩ := henters
  obtain ⟨c, hargs, hadmitted⟩ := hbrings.admitted
  rw [hadmitted.selection]
  cases origin with
  | direct => exact .read hsubmits nofun hargs hbrings.le hbrings.lt
  | fileLine path => exact .read hsubmits nofun hargs hbrings.le hbrings.lt
  | reschedule file selection =>
      have hasked : ∃ request, a = .pass ∧ args = request.args ∧ file = request.file ∧
          selection = request.selection ∧
          Event.reschedule request ∈ (start.run acts).scheduler.channel := by
        cases hsubmits with
        | @followUp older younger request s hpasses hchannel hs =>
            exact ⟨request, rfl, rfl, rfl, rfl, by simp [hchannel]⟩
      obtain ⟨request, rfl, rfl, rfl, rfl, hrequest⟩ := hasked
      obtain ⟨before, between, r, invocation, args, given, rfl, hr, hdemands, hasks, rfl⟩ :=
        h.channel request hrequest
      exact .asked hr hdemands hasks hsubmits hbrings.le hbrings.lt

theorem Traced.act (hstart : start.Balanced) (h : Traced start acts) (a : Act) :
    Traced start (acts ++ [a]) where
  entries e he := by
    have hbalanced := hstart.run acts
    rw [run_append] at he
    rcases hbalanced.goes_on_or_enters he with ⟨q, hq, n, hafter⟩ | henters
    · rw [hafter.id_eq, hafter.selection_eq]
      exact .kept (h.entries q hq)
    · exact h.demands_of_enters henters
  channel request hrequest := by
    rw [run_append] at hrequest
    rcases mem_channel_act hrequest with hold | ⟨r, hr, invocation, rfl, args, given, hasks, rfl⟩
    · obtain ⟨before, between, r, invocation, args, given, rfl, hasked⟩ := h.channel request hold
      exact ⟨before, between ++ [a], r, invocation, args, given, by simp, hasked⟩
    · exact ⟨acts, [], r, invocation, args, given, rfl, hr,
        h.entries r.entry (Books.mem_entries_of_mem_runs hr), hasks, rfl⟩

section reachable

variable (settings : SchedulerSettings) (catalog : Catalog) (listeners : List String)

theorem traced_run (acts : List Act) : Traced (fresh settings catalog listeners) acts := by
  induction acts using List.reverseRecOn with
  | nil =>
      refine ⟨fun e he => ?_, fun request hrequest => ?_⟩
      · simp [fresh, run, Scheduler.books, Books.entries] at he
      · simp [fresh, run] at hrequest
  | append_singleton acts a ih => exact ih.act (balanced_fresh settings catalog listeners) a

/-- However a scheduler has been used: a command at hand demands of its device exactly what it is to
demand by where it comes from; a run that the loop starts has a device that was free and satisfied what
its command is to demand; and whatever happens later, a command that is at hand then demands the same. -/
theorem constraints_kept (acts : List Act) :
    let start := fresh settings catalog listeners
    let w := start.run acts
    (∀ q ∈ w.scheduler.books.entries, ∀ selection,
      Demands start acts q.id selection ↔ selection = q.selection) ∧
    (∀ r ∈ w.starts .pass, ∃ selection, Demands start (acts ++ [.pass]) r.id selection ∧
      ∃ slot ∈ w.scheduler.pool.slots, slot.Offers selection r.device) ∧
    ∀ later, ∀ q ∈ w.scheduler.books.entries, ∀ e ∈ (w.run later).scheduler.books.entries,
      e.id = q.id → e.selection = q.selection := by
  intro start w
  have hstart : start.Balanced := balanced_fresh settings catalog listeners
  have htraced : Traced start acts := traced_run settings catalog listeners acts
  refine ⟨fun q hq selection => ?_, fun r hr => ?_, fun later q hq e he hid => ?_⟩
  · constructor
    · intro hdemands
      exact ((hdemands.eq_selection hstart).2 q hq rfl).symm
    · rintro rfl
      exact htraced.entries q hq
  · have hpassed : Traced start (acts ++ [.pass]) := htraced.act hstart .pass
    have hlisted : r.entry ∈ (start.run (acts ++ [.pass])).scheduler.books.entries := by
      rw [run_append]
      exact Books.mem_entries_of_mem_runs (mem_starts.mp hr).1
    exact ⟨r.entry.selection, hpassed.entries r.entry hlisted,
      (starts_of_mem_starts_pass hr).offered⟩
  · exact ((hstart.run acts).after_of_id_eq hq later he hid).selection_eq

end reachable

end World

end DeviceLab
