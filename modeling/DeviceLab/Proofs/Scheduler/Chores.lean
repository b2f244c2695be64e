import DeviceLab.Proofs.Scheduler.Interleaving

namespace DeviceLab

/-- The follow-up command that a notice says was asked for and taken. -/
def Notice.accepted? : Notice → Option (List String)
  | .rescheduled args true => some args
  | .rescheduled _ false | .started .. | .invoked .. | .failed .. | .complete .. | .terrible _
  | .direct _ | .printed _ => none

def Event.asked? : Event → Option (List String)
  | .reschedule request => some request.args
  | .finished .. | .requeue _ => none

/-- Whether a deed leaves the run where it is and says no more than the channel gets. -/
def Deed.isLight : Deed → Bool
  | .tell notice => notice.accepted?.isNone
  | .ask _ | .handBack .. => true
  | .pause _ | .leave _ | .sendBack .. | .heed _ | .announce .. | .countOut | .wake => false

/-- Whether a deed lies between a run's leaving and its being counted out. -/
def Deed.isParting : Deed → Bool
  | .sendBack .. | .heed _ | .announce .. => true
  | .tell _ | .ask _ | .pause _ | .handBack .. | .leave _ | .countOut | .wake => false

/-- The deeds of a run that is still listed: it has its pause, or all of its end, to come. -/
inductive Holding (id : Nat) : List Deed → Prop
  | pause {paused : Run} (hid : paused.id = id) : Holding id [.pause paused]
  | leave {entry : QueuedCommand} {startedAt : Nat} {outcome : Outcome} (hid : entry.id = id) :
      Holding id (Scheduler.lastDeeds entry startedAt outcome)
  | light {deed : Deed} {rest : List Deed} (hlight : deed.isLight = true)
      (hrest : Holding id rest) : Holding id (deed :: rest)

/-- The deeds of a run that is still counted, but not listed any more. -/
inductive Owing : List Deed → Prop
  | countOut : Owing [.countOut, .wake]
  | parting {deed : Deed} {rest : List Deed} (hparting : deed.isParting = true)
      (hrest : Owing rest) : Owing (deed :: rest)

namespace Chore

/-- The chores that there are: that of a listed run, of one that only has to be counted out, and
what is left then. -/
inductive Fits : Chore → Prop
  | holding {id : Nat} {deeds : List Deed} (h : Holding id deeds) : Fits ⟨id, deeds⟩
  | owing {id : Nat} {deeds : List Deed} (h : Owing deeds) : Fits ⟨id, deeds⟩
  | wake {id : Nat} : Fits ⟨id, [.wake]⟩
  | done {id : Nat} : Fits ⟨id, []⟩

theorem holds_of_rest {id : Nat} {deed : Deed} {rest : List Deed} (h : holds ⟨id, rest⟩ = true) :
    holds ⟨id, deed :: rest⟩ = true := by
  rw [holds, List.any_cons, Bool.or_eq_true]
  exact .inr h

theorem holds_of_holding {id : Nat} {deeds : List Deed} (h : Holding id deeds) :
    holds ⟨id, deeds⟩ = true := by
  induction h with
  | pause => rfl
  | leave => rfl
  | light _ _ ih => exact holds_of_rest ih

theorem of_owing {id : Nat} {deeds : List Deed} (h : Owing deeds) :
    holds ⟨id, deeds⟩ = false ∧ owes ⟨id, deeds⟩ = true := by
  induction h with
  | countOut => exact ⟨rfl, rfl⟩
  | @parting deed rest hparting _ ih =>
      have hlast : deed.isLast = false := by
        cases deed <;> first | rfl | cases hparting
      obtain ⟨hholds, howes⟩ := ih
      have hnone : holds ⟨id, deed :: rest⟩ = false := by
        rw [holds, List.any_cons, hlast, Bool.false_or]
        exact hholds
      refine ⟨hnone, ?_⟩
      rw [owes, hholds] at howes
      rw [owes, hnone, List.any_cons, Bool.not_false, Bool.true_and, Bool.or_eq_true]
      exact .inr howes

theorem owes_of_holds {e : Chore} (h : e.holds = true) : e.owes = false := by
  rw [owes, h]
  rfl

inductive Next (id : Nat) : Deed → List Deed → Prop
  | light {deed : Deed} {rest : List Deed} (hlight : deed.isLight = true)
      (hrest : Holding id rest) : Next id deed rest
  | pause {paused : Run} (hid : paused.id = id) : Next id (.pause paused) []
  | leave {rest : List Deed} (hrest : Owing rest) : Next id (.leave id) rest
  | parting {deed : Deed} {rest : List Deed} (hparting : deed.isParting = true)
      (hrest : Owing rest) : Next id deed rest
  | countOut : Next id .countOut [.wake]
  | wake : Next id .wake []

theorem Fits.next {id : Nat} {deed : Deed} {rest : List Deed} (h : Fits ⟨id, deed :: rest⟩) :
    Next id deed rest := by
  cases h with
  | holding h =>
      cases h with
      | pause hid => exact .pause hid
      | leave hid =>
          subst hid
          exact .leave (.parting rfl (.parting rfl (.parting rfl .countOut)))
      | light hlight hrest => exact .light hlight hrest
  | owing h =>
      cases h with
      | countOut => exact .countOut
      | parting hparting hrest => exact .parting hparting hrest
  | wake => exact .wake

theorem Next.accepted? {id : Nat} {deed : Deed} {rest : List Deed} (h : Next id deed rest) :
    ∀ notice, deed = .tell notice → notice.accepted? = none := by
  rintro notice rfl
  cases h with
  | light hlight _ => exact Option.isNone_iff_eq_none.mp hlight
  | parting hparting _ => cases hparting

theorem Next.fits {id : Nat} {deed : Deed} {rest : List Deed} (h : Next id deed rest) :
    Fits ⟨id, rest⟩ := by
  cases h with
  | light _ hrest => exact .holding hrest
  | pause => exact .done
  | leave hrest => exact .owing hrest
  | parting _ hrest => exact .owing hrest
  | countOut => exact .wake
  | wake => exact .done

end Chore

theorem Holding.lights {id : Nat} {lights deeds : List Deed}
    (hlights : ∀ deed ∈ lights, deed.isLight = true) (h : Holding id deeds) :
    Holding id (lights ++ deeds) := by
  induction lights with
  | nil => exact h
  | cons deed rest ih =>
      refine .light (hlights deed List.mem_cons_self) (ih ?_)
      intro other hother
      exact hlights other (List.mem_cons_of_mem _ hother)

namespace Scheduler

theorem holding_ending (s : Scheduler) (r : Run) (startedAt : Nat)
    (error? : Option ConfigurationError) (c : Executor.Conclusion) :
    Holding r.id (s.ending r startedAt error? c) := by
  refine Holding.lights ?_ (.light rfl (Holding.lights ?_ (.leave rfl)))
  · intro deed hdeed
    obtain ⟨notice, hnotice, rfl⟩ := List.mem_map.mp hdeed
    obtain ⟨error, -, hnotice⟩ := List.mem_flatMap.mp hnotice
    obtain ⟨listener, -, rfl⟩ := List.mem_map.mp hnotice
    rfl
  · intro deed hdeed
    obtain ⟨notice, hnotice, rfl⟩ := List.mem_map.mp hdeed
    rcases List.mem_append.mp hnotice with hnotice | hnotice
    · obtain ⟨error, -, hnotice⟩ := List.mem_flatMap.mp hnotice
      obtain ⟨listener, -, rfl⟩ := List.mem_map.mp hnotice
      rfl
    · obtain ⟨listener, -, rfl⟩ := List.mem_map.mp hnotice
      rfl

theorem holding_courseFrom (s : Scheduler) (r : Run) (startedAt : Nat) (actions : List Action)
    (ending : Ending) : Holding r.id (s.courseFrom r startedAt actions ending).2 := by
  have hasks (requests : List FollowUp) :
      ∀ deed ∈ requests.map Deed.ask, deed.isLight = true := by
    intro deed hdeed
    obtain ⟨request, -, rfl⟩ := List.mem_map.mp hdeed
    rfl
  unfold courseFrom
  dsimp only
  cases (burst (s.reschedulerOf r) r.device actions).rest with
  | some pause => exact Holding.lights (hasks _) (.pause rfl)
  | none =>
      apply Holding.lights (hasks _)
      exact s.holding_ending { r with device := _ } startedAt none _

theorem holding_course (s : Scheduler) (r : Run) (invocation : Configuration → Script) :
    Holding r.id (s.course r invocation).2 := by
  unfold course
  split
  · exact s.holding_courseFrom r ..
  · split
    · exact s.holding_ending r ..
    · refine Holding.lights ?_ (s.holding_courseFrom r ..)
      intro deed hdeed
      obtain ⟨notice, hnotice, rfl⟩ := List.mem_map.mp hdeed
      rcases List.mem_append.mp hnotice with hnotice | hnotice
      · obtain ⟨listener, -, rfl⟩ := List.mem_map.mp hnotice
        rfl
      · obtain rfl := List.mem_singleton.mp hnotice
        rfl

/-- The follow-up commands that were asked for and taken, in the order asked for. -/
def accepted (s : Scheduler) : List (List String) :=
  (s.notices.filterMap Notice.accepted?).reverse

theorem accepted_of_notices {s t : Scheduler} {new : List Notice}
    (h : t.notices = new ++ s.notices) :
    t.accepted = s.accepted ++ (new.filterMap Notice.accepted?).reverse := by
  rw [accepted, h, List.filterMap_append, List.reverse_append]
  rfl

theorem channel_send (s : Scheduler) (event : Event) :
    (s.send event).channel = s.channel ++ s.posts event := by
  unfold send posts
  split
  · exact (List.append_nil _).symm
  · rfl

theorem channel_sendBack (s : Scheduler) (entry : QueuedCommand) (startedAt : Nat)
    (outcome : Outcome) :
    (s.sendBack entry startedAt outcome).channel =
      s.channel ++ (s.back entry (s.now - startedAt) startedAt outcome).map Event.requeue := by
  unfold sendBack back
  dsimp only
  cases hback : s.comesBack entry (entry.command.recordRun (s.now - startedAt)) outcome with
  | false =>
      rw [Bool.and_false, if_neg Bool.false_ne_true]
      exact (List.append_nil _).symm
  | true =>
      rw [if_pos rfl, channel_send, posts]
      cases s.stopped <;> rfl

theorem channel_perform (s : Scheduler) (deed : Deed) :
    (s.perform deed).channel = s.channel ++ s.sends deed := by
  cases deed with
  | ask request => exact channel_send ..
  | sendBack entry startedAt outcome => exact channel_sendBack ..
  | announce id outcome => exact channel_send ..
  | handBack d report =>
      obtain ⟨signalled, hrelease⟩ := s.exists_release_eq d report
      rw [perform, hrelease]
      exact (List.append_nil _).symm
  | heed outcome => cases outcome <;> exact (List.append_nil _).symm
  | _ => exact (List.append_nil _).symm

theorem sends_of_stopped {s : Scheduler} (h : s.stopped = true) (deed : Deed) :
    s.sends deed = [] := by
  cases deed with
  | ask request => exact if_pos h
  | sendBack entry startedAt outcome => simp [sends, back, h]
  | announce id outcome => exact if_pos h
  | _ => rfl

theorem accepted_perform (s : Scheduler) {deed : Deed}
    (hdeed : ∀ notice, deed = .tell notice → notice.accepted? = none) :
    (s.perform deed).accepted = s.accepted ++ (s.sends deed).filterMap Event.asked? := by
  rw [accepted_of_notices (s.notices_perform deed)]
  congr 1
  cases deed with
  | tell notice =>
      change (List.filterMap Notice.accepted? [notice]).reverse = []
      rw [List.filterMap_cons_none (hdeed notice rfl)]
      rfl
  | ask request =>
      change (List.filterMap Notice.accepted? [.rescheduled request.args !s.stopped]).reverse =
        (s.posts _).filterMap Event.asked?
      rw [posts]
      cases s.stopped <;> rfl
  | sendBack entry startedAt outcome =>
      change [] = List.filterMap Event.asked? (List.map Event.requeue _)
      rw [List.filterMap_map]
      exact (List.filterMap_eq_nil_iff.mpr fun _ _ => rfl).symm
  | heed outcome => cases outcome <;> rfl
  | announce id outcome =>
      change [] = (s.posts _).filterMap Event.asked?
      rw [posts]
      cases s.stopped <;> rfl
  | _ => rfl

theorem books_perform (s : Scheduler) {deed : Deed} (hlast : deed.isLast = false)
    (hcountOut : deed.isCountOut = false) :
    (s.perform deed).runs = s.runs ∧ (s.perform deed).running = s.running ∧
      (s.perform deed).inFlight = s.inFlight := by
  rcases s.perform_cases deed with
    ⟨_, _, _, _, heq⟩ | ⟨_, _, _, rfl, heq⟩ | ⟨⟨paused, rfl⟩ | ⟨id, rfl⟩, -⟩ | rfl
  · rw [heq]
    exact ⟨rfl, rfl, rfl⟩
  · rw [heq]
    exact ⟨rfl, rfl, rfl⟩
  · cases hlast
  · cases hlast
  · cases hcountOut

end Scheduler

end DeviceLab
