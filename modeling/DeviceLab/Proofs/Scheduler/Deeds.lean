import DeviceLab.Scheduler.Run

namespace DeviceLab

/-- What a run does to the scheduler at one go. -/
inductive Deed
  | tell (notice : Notice)
  | ask (request : FollowUp)
  | pause (paused : Run)
  | handBack (d : Device) (report : ReturnReport)
  | leave (id : Nat)
  | sendBack (entry : QueuedCommand) (startedAt : Nat) (outcome : Outcome)
  | heed (outcome : Outcome)
  | announce (id : Nat) (outcome : Outcome)
  | countOut
  | wake

namespace Scheduler

/-- A follow-up command that is asked for is sent at once; the answer is whether somebody still takes
it. -/
def ask (s : Scheduler) (request : FollowUp) : Scheduler :=
  (s.note (.rescheduled request.args !s.stopped)).send (.reschedule request)

def perform (s : Scheduler) : Deed → Scheduler
  | .tell notice => s.note notice
  | .ask request => s.ask request
  | .pause paused =>
    { s with runs := s.runs.map fun other => if other.id = paused.id then paused else other }
  | .handBack d report => s.release d report
  | .leave id => s.withoutRun id
  | .sendBack entry startedAt outcome => s.sendBack entry startedAt outcome
  | .heed outcome => s.heed outcome
  | .announce id outcome => s.send (.finished id outcome)
  | .countOut => { s with inFlight := s.inFlight - 1 }
  | .wake => s.signal

/-- What a run does last, once its device is back and its end has been told. -/
def lastDeeds (entry : QueuedCommand) (startedAt : Nat) (outcome : Outcome) : List Deed :=
  [.leave entry.id, .sendBack entry startedAt outcome, .heed outcome, .announce entry.id outcome,
    .countOut, .wake]

/-- What listeners are told before the device is back: that the arguments cannot be read. -/
def refusal (s : Scheduler) (r : Run) (error? : Option ConfigurationError) : List Notice :=
  error?.toList.flatMap fun error =>
    (s.listenersOf r).map (.failed · r.entry.command.args error.message)

/-- What listeners are told when the device is back: that the run failed, if they do not know yet,
and that it is over. -/
def farewell (s : Scheduler) (r : Run) (error? : Option ConfigurationError)
    (c : Executor.Conclusion) : List Notice :=
  Executor.closing (s.listenersOf r) r.entry.command.args
    (if error?.isSome then none else c.error? none) c

/-- How a run ends, deed by deed. -/
def ending (s : Scheduler) (r : Run) (startedAt : Nat) (error? : Option ConfigurationError)
    (c : Executor.Conclusion) : List Deed :=
  (s.refusal r error?).map Deed.tell ++ .handBack c.device c.report ::
    ((s.farewell r error? c).map Deed.tell ++ lastDeeds r.entry startedAt c.outcome)

/-- How a run goes on up to its next pause or its end, deed by deed. -/
def courseFrom (s : Scheduler) (r : Run) (startedAt : Nat) (actions : List Action)
    (ending : Ending) : (Nat ⊕ Outcome) × List Deed :=
  let b := burst (s.reschedulerOf r) r.device actions
  let r := { r with device := b.device }
  match b.rest with
  | some (time, rest) =>
    (.inl (s.now + time),
      b.requests.map Deed.ask ++ [.pause { r with phase := .underway startedAt rest ending }])
  | none =>
    let c := Executor.conclude b.device ending
    (.inr c.outcome, b.requests.map Deed.ask ++ s.ending r startedAt none c)

/-- How a run is taken up or goes on, deed by deed. -/
def course (s : Scheduler) (r : Run) (invocation : Configuration → Script) :
    (Nat ⊕ Outcome) × List Deed :=
  match r.phase with
  | .underway startedAt rest ending => s.courseFrom r startedAt rest ending
  | .assigned =>
    match Configuration.ofArgs r.entry.command.args with
    | .error error =>
      let c := Executor.rejected r.device error
      (.inr c.outcome, s.ending r s.now (some error) c)
    | .ok configuration =>
      let told := Executor.opening (s.listenersOf r) r.entry.command r.device configuration
      let script := invocation configuration
      let after := s.courseFrom r s.now script.actions script.ending
      (after.1, told.map Deed.tell ++ after.2)

variable {s : Scheduler}

theorem foldl_perform_tell (notices : List Notice) (s : Scheduler) :
    (notices.map Deed.tell).foldl perform s = s.noteAll notices := by
  rw [List.foldl_map]
  rfl

theorem note_send (s : Scheduler) (event : Event) (notice : Notice) :
    (s.send event).note notice = (s.note notice).send event := by
  unfold send
  split <;> rename_i hstopped
  · rw [if_pos (show (s.note notice).stopped = true from hstopped)]
  · rw [if_neg (show ¬(s.note notice).stopped = true from hstopped)]
    rfl

theorem noteAll_send (notices : List Notice) (s : Scheduler) (event : Event) :
    (s.send event).noteAll notices = (s.noteAll notices).send event := by
  induction notices generalizing s with
  | nil => rfl
  | cons notice rest ih =>
      change ((s.send event).note notice).noteAll rest = ((s.note notice).noteAll rest).send event
      rw [note_send, ih]

@[simp] theorem stopped_send (s : Scheduler) (event : Event) :
    (s.send event).stopped = s.stopped := by
  unfold send
  split <;> rfl

/-- Whether the requests are told of first and sent then, or each at its turn, comes to the same. -/
theorem foldl_perform_ask (s : Scheduler) (r : Rescheduler) (requests : List FollowUp)
    (haccepts : r.accepts = !s.stopped) :
    (requests.map Deed.ask).foldl perform s =
      requests.foldl (fun s request => s.send (.reschedule request))
        (s.noteAll (Executor.askedFor r requests)) := by
  induction requests generalizing s with
  | nil => rfl
  | cons request rest ih =>
      have hstopped : (s.ask request).stopped = s.stopped := stopped_send ..
      rw [List.map_cons, List.foldl_cons, List.foldl_cons]
      change (rest.map Deed.ask).foldl perform (s.ask request) = _
      rw [ih (s.ask request) (hstopped ▸ haccepts), ask, noteAll_send, ← haccepts]
      rfl

theorem noteAll_eq (notices : List Notice) (s : Scheduler) :
    s.noteAll notices =
      { s with journal := (notices.map fun notice => ⟨s.now, notice⟩).reverse ++ s.journal } := by
  induction notices generalizing s with
  | nil => rfl
  | cons notice rest ih =>
      change (s.note notice).noteAll rest = _
      rw [ih (s.note notice), note]
      simp

theorem refusal_append_farewell (s : Scheduler) (r : Run) (error? : Option ConfigurationError)
    (c : Executor.Conclusion) :
    s.refusal r error? ++ s.farewell r error? c =
      Executor.closing (s.listenersOf r) r.entry.command.args (c.error? error?) c := by
  cases error? with
  | none => rfl
  | some error => simp [refusal, farewell, Executor.closing, Executor.Conclusion.error?]

theorem release_noteAll (s : Scheduler) (d : Device) (report : ReturnReport)
    (notices : List Notice) :
    (s.noteAll notices).release d report = (s.release d report).noteAll notices := by
  rw [noteAll_eq, noteAll_eq]
  unfold release
  split <;> rfl

/-- Whether listeners are told of a failure before or after the device is back comes to the same. -/
theorem foldl_perform_ending (s : Scheduler) (r : Run) (startedAt : Nat)
    (error? : Option ConfigurationError) (c : Executor.Conclusion) :
    (s.ending r startedAt error? c).foldl perform s = s.finish r startedAt error? c := by
  have htold : ((s.noteAll (s.refusal r error?)).release c.device c.report).noteAll
      (s.farewell r error? c) = (s.release c.device c.report).noteAll
        (s.refusal r error? ++ s.farewell r error? c) := by
    rw [release_noteAll, noteAll, noteAll, noteAll, List.foldl_append]
  rw [ending, List.foldl_append, List.foldl_cons, List.foldl_append, foldl_perform_tell,
    foldl_perform_tell]
  change (lastDeeds r.entry startedAt c.outcome).foldl perform
    (((s.noteAll (s.refusal r error?)).release c.device c.report).noteAll
      (s.farewell r error? c)) = _
  rw [htold, refusal_append_farewell]
  rfl

theorem exists_send_eq (s : Scheduler) (event : Event) :
    ∃ channel signalled, s.send event = { s with channel, signalled } := by
  unfold send
  split
  · exact ⟨s.channel, s.signalled, rfl⟩
  · exact ⟨s.channel ++ [event], true, rfl⟩

theorem exists_sendBack_eq (s : Scheduler) (entry : QueuedCommand) (startedAt : Nat)
    (outcome : Outcome) :
    ∃ channel signalled, s.sendBack entry startedAt outcome = { s with channel, signalled } := by
  unfold sendBack
  dsimp only
  split
  · exact exists_send_eq ..
  · exact ⟨s.channel, s.signalled, rfl⟩

theorem exists_release_eq (s : Scheduler) (d : Device) (report : ReturnReport) :
    ∃ signalled, s.release d report =
      { s with pool := s.pool.release d report, signalled } := by
  unfold release
  split
  · exact ⟨true, rfl⟩
  · exact ⟨s.signalled, rfl⟩

theorem exists_ask_eq (s : Scheduler) (request : FollowUp) :
    ∃ channel signalled journal, s.ask request = { s with channel, signalled, journal } := by
  obtain ⟨channel, signalled, hsend⟩ :=
    (s.note (.rescheduled request.args !s.stopped)).exists_send_eq (.reschedule request)
  exact ⟨channel, signalled, _, hsend⟩

/-- What a deed may change: only a return the pool, only a pause or a leave the runs, and only
counting out the count. -/
theorem perform_cases (s : Scheduler) (deed : Deed) :
    (∃ shuttingDown channel signalled journal,
      s.perform deed = { s with shuttingDown, channel, signalled, journal }) ∨
    (∃ d report signalled, deed = .handBack d report ∧
      s.perform deed = { s with pool := s.pool.release d report, signalled }) ∨
    (((∃ paused, deed = .pause paused) ∨ ∃ id, deed = .leave id) ∧
      ∃ runs running, s.perform deed = { s with runs, running }) ∨
    deed = .countOut := by
  cases deed with
  | tell notice => exact .inl ⟨_, _, _, _, rfl⟩
  | ask request =>
      obtain ⟨channel, signalled, journal, hask⟩ := s.exists_ask_eq request
      exact .inl ⟨_, channel, signalled, journal, hask⟩
  | handBack d report =>
      obtain ⟨signalled, hrelease⟩ := s.exists_release_eq d report
      exact .inr (.inl ⟨d, report, signalled, rfl, hrelease⟩)
  | sendBack entry startedAt outcome =>
      obtain ⟨channel, signalled, hback⟩ := s.exists_sendBack_eq entry startedAt outcome
      exact .inl ⟨_, channel, signalled, _, hback⟩
  | heed outcome => cases outcome <;> exact .inl ⟨_, _, _, _, rfl⟩
  | announce id outcome =>
      obtain ⟨channel, signalled, hsend⟩ := s.exists_send_eq (.finished id outcome)
      exact .inl ⟨_, channel, signalled, _, hsend⟩
  | wake => exact .inl ⟨_, _, _, _, rfl⟩
  | pause paused => exact .inr (.inr (.inl ⟨.inl ⟨paused, rfl⟩, _, _, rfl⟩))
  | leave id => exact .inr (.inr (.inl ⟨.inr ⟨id, rfl⟩, _, _, rfl⟩))
  | countOut => exact .inr (.inr (.inr rfl))

theorem exists_foldl_ask_eq (requests : List FollowUp) (s : Scheduler) :
    ∃ channel signalled journal,
      (requests.map Deed.ask).foldl perform s = { s with channel, signalled, journal } := by
  induction requests generalizing s with
  | nil => exact ⟨s.channel, s.signalled, s.journal, rfl⟩
  | cons request rest ih =>
      obtain ⟨channel, signalled, journal, hask⟩ := s.exists_ask_eq request
      obtain ⟨channel, signalled, journal, hrest⟩ := ih (s.ask request)
      refine ⟨channel, signalled, journal, hrest.trans ?_⟩
      rw [hask]

theorem proceed_eq (s : Scheduler) (r : Run) (startedAt : Nat) (actions : List Action)
    (ending : Ending) :
    s.proceed r startedAt actions ending =
      ((s.courseFrom r startedAt actions ending).1,
        (s.courseFrom r startedAt actions ending).2.foldl perform s) := by
  let b := burst (s.reschedulerOf r) r.device actions
  obtain ⟨channel, signalled, journal, hasked⟩ := s.exists_foldl_ask_eq b.requests
  have hsent : b.requests.foldl (fun s request => s.send (.reschedule request))
      (s.noteAll (Executor.askedFor (s.reschedulerOf r) b.requests)) =
      { s with channel, signalled, journal } :=
    (s.foldl_perform_ask (s.reschedulerOf r) b.requests rfl).symm.trans hasked
  unfold proceed courseFrom
  dsimp only
  rw [hsent]
  cases b.rest with
  | some pause =>
      rw [List.foldl_append, hasked]
      rfl
  | none =>
      rw [List.foldl_append, hasked]
      exact Prod.ext rfl (foldl_perform_ending ..).symm

/-- A step is the course of its run, with nothing in between. -/
theorem step_eq (s : Scheduler) (id : Nat) (invocation : Configuration → Script) :
    s.step id invocation = (s.run? id).map fun r =>
      ((s.course r invocation).1, (s.course r invocation).2.foldl perform s) := by
  unfold step course
  congr 1
  funext r
  cases r.phase with
  | underway startedAt rest ending => exact proceed_eq ..
  | assigned =>
      dsimp only
      unfold begin
      cases Configuration.ofArgs r.entry.command.args with
      | error error => exact Prod.ext rfl (foldl_perform_ending ..).symm
      | ok configuration =>
          dsimp only
          rw [proceed_eq, List.foldl_append, foldl_perform_tell, noteAll_eq]
          rfl

end Scheduler

end DeviceLab
