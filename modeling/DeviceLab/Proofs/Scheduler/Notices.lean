import DeviceLab.Proofs.Scheduler.Deeds
import DeviceLab.Proofs.Scheduler.World

namespace DeviceLab

deriving instance DecidableEq for Notice

/-- Whether a notice is one that a submission may give. -/
def Notice.isAnswer : Notice → Bool
  | .failed .. | .printed _ => true
  | .started .. | .invoked .. | .rescheduled .. | .complete .. | .terrible _ | .direct _ => false

/-- Whether a notice says that a run began or that a failure was terrible. -/
def Notice.isNotable : Notice → Bool
  | .started .. | .invoked .. | .terrible _ => true
  | .rescheduled .. | .failed .. | .complete .. | .direct _ | .printed _ => false

def Notice.isTerrible : Notice → Bool
  | .terrible _ => true
  | .started .. | .invoked .. | .rescheduled .. | .failed .. | .complete .. | .direct _
  | .printed _ => false

/-- What the handler of terrible failures hears of an outcome. -/
def Outcome.terribles : Outcome → List Notice
  | .fatalError detail => [.terrible detail]
  | .completed | .deviceLost .. | .failed _ => []

def Deed.notices (stopped : Bool) : Deed → List Notice
  | .tell notice => [notice]
  | .ask request => [.rescheduled request.args !stopped]
  | .heed outcome => outcome.terribles
  | .pause _ | .handBack .. | .leave _ | .sendBack .. | .announce .. | .countOut | .wake => []

theorem Deed.notices_tells (stopped : Bool) (notices : List Notice) :
    (notices.map Deed.tell).flatMap (Deed.notices stopped) = notices := by
  rw [List.flatMap_map]
  exact List.flatMap_singleton' _

namespace Scheduler

/-- What has been told, the latest first. -/
def notices (s : Scheduler) : List Notice :=
  s.journal.map JournalEntry.notice

@[simp] theorem notices_send (s : Scheduler) (event : Event) :
    (s.send event).notices = s.notices := by
  obtain ⟨channel, signalled, hsend⟩ := s.exists_send_eq event
  rw [hsend]
  rfl

@[simp] theorem notices_release (s : Scheduler) (d : Device) (report : ReturnReport) :
    (s.release d report).notices = s.notices := by
  obtain ⟨signalled, hrelease⟩ := s.exists_release_eq d report
  rw [hrelease]
  rfl

theorem stopped_perform (s : Scheduler) (deed : Deed) :
    (s.perform deed).stopped = s.stopped := by
  rcases s.perform_cases deed with
    ⟨_, _, _, _, heq⟩ | ⟨_, _, _, rfl, heq⟩ | ⟨-, _, _, heq⟩ | rfl
  · rw [heq]
  · rw [heq]
  · rw [heq]
  · rfl

theorem notices_perform (s : Scheduler) (deed : Deed) :
    (s.perform deed).notices = deed.notices s.stopped ++ s.notices := by
  cases deed with
  | ask request => exact notices_send ..
  | handBack d report => exact notices_release ..
  | sendBack entry startedAt outcome =>
      obtain ⟨channel, signalled, hback⟩ := s.exists_sendBack_eq entry startedAt outcome
      rw [perform, hback]
      rfl
  | heed outcome => cases outcome <;> rfl
  | announce id outcome => exact notices_send ..
  | _ => rfl

theorem notices_foldl_perform (deeds : List Deed) (s : Scheduler) :
    (deeds.foldl perform s).notices =
      (deeds.flatMap (Deed.notices s.stopped)).reverse ++ s.notices := by
  induction deeds generalizing s with
  | nil => rfl
  | cons deed rest ih =>
      have hone : (deed.notices s.stopped).reverse = deed.notices s.stopped := by
        cases deed with
        | heed outcome => cases outcome <;> rfl
        | _ => rfl
      rw [List.foldl_cons, ih, stopped_perform, notices_perform, List.flatMap_cons,
        List.reverse_append, hone, List.append_assoc]

/-- How submissions may change a scheduler. -/
def TakesIn (s t : Scheduler) : Prop :=
  ∃ queue nextId watched signalled answers,
    t = { s with queue, nextId, watched, signalled, journal := answers ++ s.journal } ∧
    ∀ e ∈ answers, e.notice.isAnswer = true

namespace TakesIn

variable {s t u : Scheduler} {args : List String} {origin : Origin}

theorem refl (s : Scheduler) : s.TakesIn s :=
  ⟨s.queue, s.nextId, s.watched, s.signalled, [], rfl, by simp⟩

theorem trans (hst : s.TakesIn t) (htu : t.TakesIn u) : s.TakesIn u := by
  obtain ⟨_, _, _, _, older, rfl, holder⟩ := hst
  obtain ⟨queue, nextId, watched, signalled, younger, rfl, hyounger⟩ := htu
  refine ⟨queue, nextId, watched, signalled, younger ++ older, ?_, ?_⟩
  · rw [List.append_assoc]
  · intro e he
    exact (List.mem_append.mp he).elim (hyounger e) (holder e)

theorem notices (h : s.TakesIn t) :
    ∃ answers, t.notices = answers ++ s.notices ∧ ∀ n ∈ answers, n.isAnswer = true := by
  obtain ⟨_, _, _, _, answers, rfl, hanswers⟩ := h
  refine ⟨answers.map JournalEntry.notice, List.map_append, ?_⟩
  intro n hn
  obtain ⟨e, he, rfl⟩ := List.mem_map.mp hn
  exact hanswers e he

theorem pushAll (s : Scheduler) (entries : List QueuedCommand) : s.TakesIn (s.pushAll entries) :=
  ⟨_, s.nextId, s.watched, s.signalled, [], rfl, by simp⟩

theorem signal (s : Scheduler) : s.TakesIn s.signal :=
  ⟨s.queue, s.nextId, s.watched, true, [], rfl, by simp⟩

theorem noteAll (s : Scheduler) (notices : List Notice) (h : ∀ n ∈ notices, n.isAnswer = true) :
    s.TakesIn (s.noteAll notices) := by
  refine ⟨s.queue, s.nextId, s.watched, s.signalled, _, noteAll_eq notices s, ?_⟩
  intro e he
  obtain ⟨n, hn, rfl⟩ := List.mem_map.mp (List.mem_reverse.mp he)
  exact h n hn

theorem reportFailed (s : Scheduler) (args : List String) (error : String) :
    s.TakesIn (s.reportFailed args error) := by
  apply noteAll
  intro n hn
  obtain ⟨listener, -, rfl⟩ := List.mem_map.mp hn
  rfl

theorem submit {queued : Bool} (h : s.submit args origin = .ok (queued, t)) : s.TakesIn t := by
  rcases submit_cases h with ⟨-, text, rfl⟩ | ⟨-, entries, nextId, -, -, rfl⟩
  · exact noteAll _ [.printed text] (by simp [Notice.isAnswer])
  · exact ⟨_, nextId, s.watched, s.signalled, [], rfl, by simp⟩

theorem addFrom {queued : Bool} (h : s.addFrom args origin = .ok (queued, t)) : s.TakesIn t := by
  rcases addFrom_cases h with ⟨-, -, rfl⟩ | ⟨-, u, hsubmit, rfl⟩
  · exact refl _
  · cases queued with
    | false => exact submit hsubmit
    | true => exact (submit hsubmit).trans (signal _)

theorem addCommand {queued : Bool} (h : s.addCommand args = .ok (queued, t)) : s.TakesIn t :=
  addFrom (addFrom_of_addCommand h)

theorem addLines (path : Path) (lines : List (List String)) (s : Scheduler) :
    s.TakesIn (s.addLines path lines).2 := by
  induction lines generalizing s with
  | nil => exact refl _
  | cons args rest ih =>
      rw [Scheduler.addLines]
      cases hadd : s.addFrom args (.fileLine path) with
      | error error => exact (reportFailed s args error.message).trans (ih _)
      | ok answer => exact (addFrom hadd).trans (ih answer.2)

theorem addFile {tree : FileTree} {path : Path} {extraArgs : List String} {count : Nat}
    (h : s.addFile tree path extraArgs = .ok (count, t)) : s.TakesIn t := by
  rcases addFile_cases h with ⟨-, -, rfl⟩ | ⟨-, document, u, -, hlines, rfl⟩
  · exact refl _
  · have htaken := addLines path (linesWith document extraArgs) s
    rw [hlines] at htaken
    split
    · exact htaken.trans ⟨_, _, _, _, [], rfl, by simp⟩
    · exact htaken

theorem reloadLines (path : Path) (lines : List (List String)) (s : Scheduler) :
    s.TakesIn (s.reloadLines path lines) := by
  induction lines generalizing s with
  | nil => exact refl _
  | cons args rest ih =>
      rw [Scheduler.reloadLines]
      cases hsubmit : s.submit args (.fileLine path) with
      | error error => exact (reportFailed s args _).trans (ih _)
      | ok answer => exact (submit hsubmit).trans (ih answer.2)

theorem notifyChanged {tree : FileTree} {path : Path} {extraArgs : List String}
    (h : s.notifyChanged tree path extraArgs = .ok t) : s.TakesIn t := by
  obtain ⟨document, -, ⟨-, rfl⟩ | ⟨-, rfl⟩⟩ := notifyChanged_cases h
  · exact ⟨s.queue, s.nextId, _, s.signalled, [], rfl, by simp⟩
  · let plan := ReloadPlan.between (s.queue.fromFile path) (linesWith document extraArgs)
    let cleared := { s with queue := plan.remove.foldl Queue.erase s.queue }
    have hcleared : s.TakesIn cleared := ⟨_, s.nextId, s.watched, s.signalled, [], rfl, by simp⟩
    exact (hcleared.trans (reloadLines path plan.add cleared)).trans
      ⟨_, _, _, true, [], rfl, by simp⟩

theorem handle (s : Scheduler) (event : Event) : s.TakesIn (s.handle event) := by
  cases event with
  | finished id outcome => exact refl _
  | requeue entry =>
      rw [Scheduler.handle]
      split
      · exact refl _
      · exact pushAll s [entry]
  | reschedule request =>
      rw [Scheduler.handle]
      split
      · exact reportFailed ..
      · exact submit ‹_›

theorem receive (s : Scheduler) : TakesIn { s with channel := [] } s.receive := by
  have hfold (events : List Event) (u : Scheduler) :
      u.TakesIn (events.foldl Scheduler.handle u) := by
    induction events generalizing u with
    | nil => exact refl _
    | cons event rest ih => exact (handle u event).trans (ih (u.handle event))
  exact hfold s.channel _

end TakesIn

theorem filter_notices_ask (stopped : Bool) (requests : List FollowUp) :
    ((requests.map Deed.ask).flatMap (Deed.notices stopped)).filter Notice.isNotable = [] := by
  rw [List.filter_eq_nil_iff]
  intro n hn
  obtain ⟨deed, hdeed, hn⟩ := List.mem_flatMap.mp hn
  obtain ⟨request, -, rfl⟩ := List.mem_map.mp hdeed
  obtain rfl := List.mem_singleton.mp hn
  exact Bool.false_ne_true

theorem filter_notices_ending (stopped : Bool) (s : Scheduler) (r : Run) (startedAt : Nat)
    (error? : Option ConfigurationError) (c : Executor.Conclusion) :
    ((s.ending r startedAt error? c).flatMap (Deed.notices stopped)).filter Notice.isNotable =
      c.outcome.terribles := by
  have hbefore : (s.refusal r error?).filter Notice.isNotable = [] := by
    rw [List.filter_eq_nil_iff]
    intro n hn
    obtain ⟨error, -, hn⟩ := List.mem_flatMap.mp hn
    obtain ⟨listener, -, rfl⟩ := List.mem_map.mp hn
    exact Bool.false_ne_true
  have hafter : (s.farewell r error? c).filter Notice.isNotable = [] := by
    rw [List.filter_eq_nil_iff]
    intro n hn
    rcases List.mem_append.mp hn with hn | hn
    · obtain ⟨error, -, hn⟩ := List.mem_flatMap.mp hn
      obtain ⟨listener, -, rfl⟩ := List.mem_map.mp hn
      exact Bool.false_ne_true
    · obtain ⟨listener, -, rfl⟩ := List.mem_map.mp hn
      exact Bool.false_ne_true
  have hlast : ((lastDeeds r.entry startedAt c.outcome).flatMap
      (Deed.notices stopped)).filter Notice.isNotable = c.outcome.terribles := by
    cases c.outcome <;> rfl
  rw [ending, List.flatMap_append, List.flatMap_cons, List.flatMap_append, Deed.notices_tells,
    Deed.notices_tells]
  rw [List.filter_append, List.filter_append, List.filter_append, hbefore, hafter, hlast]
  rfl

/-- What the answer of a step means for the handler of terrible failures. -/
def terriblesOf : Nat ⊕ Outcome → List Notice
  | .inl _ => []
  | .inr outcome => outcome.terribles

theorem filter_notices_courseFrom (stopped : Bool) (s : Scheduler) (r : Run) (startedAt : Nat)
    (actions : List Action) (ending : Ending) :
    ((s.courseFrom r startedAt actions ending).2.flatMap (Deed.notices stopped)).filter
      Notice.isNotable = terriblesOf (s.courseFrom r startedAt actions ending).1 := by
  unfold courseFrom
  dsimp only
  cases (burst (s.reschedulerOf r) r.device actions).rest with
  | some pause =>
      rw [List.flatMap_append, List.filter_append, filter_notices_ask]
      rfl
  | none =>
      rw [List.flatMap_append, List.filter_append, filter_notices_ask, filter_notices_ending]
      rfl

/-- What a step tells that is notable: that its run began, if it did, and that its end was terrible,
if it was. -/
theorem notable_step {s t : Scheduler} {id : Nat} {invocation : Configuration → Script}
    {answer : Nat ⊕ Outcome} (h : s.step id invocation = some (answer, t)) :
    ∃ r ∈ s.runs, r.id = id ∧ ∃ opened,
      t.notices.filter Notice.isNotable =
        terriblesOf answer ++ (opened ++ s.notices.filter Notice.isNotable) ∧
      ∀ n ∈ opened, ∃ c, Configuration.ofArgs r.entry.command.args = .ok c ∧
        n ∈ Executor.opening (s.listenersOf r) r.entry.command r.device c := by
  rw [step_eq] at h
  obtain ⟨r, hrun, hcourse⟩ := Option.map_eq_some_iff.mp h
  cases hcourse
  refine ⟨r, List.mem_of_find?_eq_some hrun, by simpa using List.find?_some hrun, ?_⟩
  rw [notices_foldl_perform, List.filter_append, List.filter_reverse]
  have hone (answer : Nat ⊕ Outcome) : (terriblesOf answer).reverse = terriblesOf answer := by
    rcases answer with time | outcome
    · rfl
    · cases outcome <;> rfl
  unfold course
  split
  · refine ⟨[], ?_, by simp⟩
    rw [filter_notices_courseFrom, hone]
    rfl
  · split
    · refine ⟨[], ?_, by simp⟩
      rw [filter_notices_ending]
      rfl
    · rename_i c hargs
      let told := Executor.opening (s.listenersOf r) r.entry.command r.device c
      refine ⟨(told.filter Notice.isNotable).reverse, ?_, ?_⟩
      · rw [List.flatMap_append, List.filter_append, filter_notices_courseFrom,
          List.reverse_append, hone, List.flatMap_map, List.append_assoc]
        congr 3
        exact congrArg _ (List.flatMap_singleton' told)
      · intro n hn
        exact ⟨c, hargs, List.mem_of_mem_filter (List.mem_reverse.mp hn)⟩

/-- A step adds to what has been told, and tells of an invocation only if it takes up a run whose
arguments can be read. -/
theorem exists_told_step {s t : Scheduler} {id : Nat} {invocation : Configuration → Script}
    {answer : Nat ⊕ Outcome} (h : s.step id invocation = some (answer, t)) :
    ∃ told, t.notices = told ++ s.notices ∧
      ∀ name args serial, .invoked name args serial ∈ told →
        ∃ r ∈ s.runs, r.id = id ∧ r.entry.command.args = args ∧ r.device.serial = serial ∧
          ∃ c, Configuration.ofArgs args = .ok c ∧ c.name = name := by
  have htold : ∃ told, t.notices = told ++ s.notices := by
    rw [step_eq] at h
    obtain ⟨r, -, hcourse⟩ := Option.map_eq_some_iff.mp h
    cases hcourse
    exact ⟨_, notices_foldl_perform ..⟩
  obtain ⟨told, htold⟩ := htold
  refine ⟨told, htold, fun name args serial hmem => ?_⟩
  obtain ⟨r, hr, hid, opened, hnotices, hopened⟩ := notable_step h
  have hnotable : told.filter Notice.isNotable = terriblesOf answer ++ opened := by
    rw [htold, List.filter_append, ← List.append_assoc] at hnotices
    exact List.append_cancel_right hnotices
  have hnew : .invoked name args serial ∈ terriblesOf answer ++ opened :=
    hnotable ▸ List.mem_filter.mpr ⟨hmem, rfl⟩
  rcases List.mem_append.mp hnew with hterrible | hopening
  · rcases answer with time | outcome
    · cases hterrible
    · cases outcome <;> simp [terriblesOf, Outcome.terribles] at hterrible
  · obtain ⟨c, hargs, hopening⟩ := hopened _ hopening
    have hc : name = c.name ∧ args = c.args ∧ serial = r.device.serial := by
      simpa [Executor.opening] using hopening
    obtain ⟨rfl, rfl, rfl⟩ := hc
    have hread := Configuration.args_of_ofArgs hargs
    exact ⟨r, hr, hid, hread.symm, rfl, c, hread ▸ hargs, rfl⟩

theorem notices_execCommand (s : Scheduler) (listener : String) (d : Device)
    (args : List String) : (s.execCommand listener d args).2.notices = s.notices := by
  rcases s.execCommand_refused_or_taken listener d args with ⟨error, heq⟩ | ⟨-, c, -, heq⟩
  · rw [heq]
    exact notices_release ..
  · rw [heq]
    rfl

theorem notices_pass (s : Scheduler) :
    ∃ answers, s.pass.notices = answers ++ s.notices ∧ ∀ n ∈ answers, n.isAnswer = true := by
  obtain ⟨answers, hnotices, hanswers⟩ :=
    (TakesIn.receive { s with signalled := false }).notices
  have hbefore : ({ s with signalled := false, channel := [] } : Scheduler).notices = s.notices :=
    rfl
  refine ⟨answers, ?_, hanswers⟩
  rw [← hbefore, ← hnotices, pass]
  split
  · rfl
  · rw [scheduleReady_eq]
    rfl

end Scheduler

namespace World

theorem notices_act {w : World} {a : Act} (ha : ∀ id invocation, a ≠ .step id invocation) :
    ∃ answers, (w.act a).scheduler.notices = answers ++ w.scheduler.notices ∧
      ∀ n ∈ answers, n.isAnswer = true := by
  have hdoes := w.does a
  generalize w.act a = v at hdoes
  cases hdoes with
  | nothing | aside => exact ⟨[], rfl, by simp⟩
  | added hadd => exact (Scheduler.TakesIn.addCommand hadd).notices
  | addedFile hadd => exact (Scheduler.TakesIn.addFile hadd).notices
  | notified hnotify => exact (Scheduler.TakesIn.notifyChanged hnotify).notices
  | removed | shutDown => exact ⟨[], rfl, by simp⟩
  | passed => exact w.scheduler.notices_pass
  | stepped => exact absurd rfl (ha _ _)
  | executed => exact ⟨[], Scheduler.notices_execCommand .., by simp⟩

end World

end DeviceLab
