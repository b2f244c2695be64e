import DeviceLab.Proofs.Invocation.Conclusion
import DeviceLab.Proofs.Scheduler.Chores

namespace DeviceLab

namespace Deed

def told? : Deed → Option Notice
  | .tell notice => some notice
  | .ask _ | .pause _ | .handBack .. | .leave _ | .sendBack .. | .heed _ | .announce .. | .countOut
  | .wake => none

def asked? : Deed → Option FollowUp
  | .ask request => some request
  | .tell _ | .pause _ | .handBack .. | .leave _ | .sendBack .. | .heed _ | .announce .. | .countOut
  | .wake => none

/-- Whether a deed is one of an invocation at work: it asks for something, or takes time. -/
def isWork : Deed → Bool
  | .ask _ | .pause _ => true
  | .tell _ | .handBack .. | .leave _ | .sendBack .. | .heed _ | .announce .. | .countOut
  | .wake => false

theorem asked_tells (notices : List Notice) :
    (notices.map tell).filterMap asked? = [] := by
  rw [List.filterMap_map]
  exact List.filterMap_eq_nil_iff.mpr fun _ _ => rfl

theorem asked_asks (requests : List FollowUp) :
    (requests.map ask).filterMap asked? = requests := by
  rw [List.filterMap_map]
  exact List.filterMap_some

theorem told_tells (notices : List Notice) :
    (notices.map tell).filterMap told? = notices := by
  rw [List.filterMap_map]
  exact List.filterMap_some

theorem told_work {deeds : List Deed} (h : ∀ deed ∈ deeds, deed.isWork = true) :
    deeds.filterMap told? = [] := by
  rw [List.filterMap_eq_nil_iff]
  intro deed hdeed
  have hwork := h deed hdeed
  cases deed <;> first | rfl | cases hwork

theorem notices_work {deeds : List Deed} (h : ∀ deed ∈ deeds, deed.isWork = true)
    (stopped : Bool) :
    deeds.flatMap (notices stopped) =
      (deeds.filterMap asked?).map fun request => .rescheduled request.args !stopped := by
  induction deeds with
  | nil => rfl
  | cons deed rest ih =>
      have hrest := ih fun other hother => h other (List.mem_cons_of_mem deed hother)
      have hwork := h deed List.mem_cons_self
      cases deed with
      | ask request => exact congrArg (Notice.rescheduled request.args (!stopped) :: ·) hrest
      | pause paused => exact hrest
      | _ => cases hwork

end Deed

namespace Scheduler

open Deed

variable {s t : Scheduler}

theorem followUp?_reschedulerOf (s : Scheduler) (r : Run) :
    Action.followUp? (s.reschedulerOf r) = Action.followUp? r.rescheduler :=
  Action.followUp?_accepts r.rescheduler (!s.stopped)

theorem courseFrom_cases (s : Scheduler) (r : Run) (startedAt : Nat) (actions : List Action)
    (ending : Ending) :
    (let asked := actions.filterMap (Action.followUp? r.rescheduler)
      let c := Executor.conclude (actions.foldl Device.after r.device) ending
      s.courseFrom r startedAt actions ending =
        (.inr c.outcome, asked.map Deed.ask ++ s.ending r startedAt none c)) ∨
    ∃ time rest asked d, rest.length < actions.length ∧
      asked ++ rest.filterMap (Action.followUp? r.rescheduler) =
        actions.filterMap (Action.followUp? r.rescheduler) ∧
      rest.foldl Device.after d = actions.foldl Device.after r.device ∧
      s.courseFrom r startedAt actions ending =
        (.inl (s.now + time), asked.map Deed.ask ++
          [.pause { r with device := d, phase := .underway startedAt rest ending }]) := by
  unfold courseFrom
  dsimp only
  cases hrest : (burst (s.reschedulerOf r) r.device actions).rest with
  | none =>
      left
      obtain ⟨hrequests, hdevice⟩ := burst_end hrest
      rw [hrequests, hdevice, followUp?_reschedulerOf]
      rfl
  | some pause =>
      right
      obtain ⟨hrequests, hdevice⟩ := burst_pause hrest
      rw [followUp?_reschedulerOf] at hrequests
      exact ⟨pause.1, pause.2, _, _, burst_rest_length hrest, hrequests, hdevice, rfl⟩

@[simp] theorem asked_lastDeeds (entry : QueuedCommand) (startedAt : Nat) (outcome : Outcome) :
    (lastDeeds entry startedAt outcome).filterMap asked? = [] := rfl

@[simp] theorem told_lastDeeds (entry : QueuedCommand) (startedAt : Nat) (outcome : Outcome) :
    (lastDeeds entry startedAt outcome).filterMap told? = [] := rfl

theorem notices_lastDeeds (stopped : Bool) (entry : QueuedCommand) (startedAt : Nat)
    (outcome : Outcome) :
    (lastDeeds entry startedAt outcome).flatMap (Deed.notices stopped) = outcome.terribles := by
  cases outcome <;> rfl

theorem asked_ending (s : Scheduler) (r : Run) (startedAt : Nat)
    (error? : Option ConfigurationError) (c : Executor.Conclusion) :
    (s.ending r startedAt error? c).filterMap Deed.asked? = [] := by
  rw [ending, List.filterMap_append, List.filterMap_cons_none rfl]
  simp only [List.filterMap_append, asked_tells, asked_lastDeeds, List.append_nil]

theorem asked_course (s : Scheduler) (r : Run) (invocation : Configuration → Script) :
    (s.course r invocation).2.filterMap Deed.asked? =
      (stretch (r.pending invocation)).filterMap (Action.followUp? r.rescheduler) := by
  have hfrom (startedAt : Nat) (actions : List Action) (ending : Ending) :
      (s.courseFrom r startedAt actions ending).2.filterMap Deed.asked? =
        (stretch actions).filterMap (Action.followUp? r.rescheduler) := by
    rw [← followUp?_reschedulerOf s r, ← burst_requests (s.reschedulerOf r) r.device, courseFrom]
    dsimp only
    cases (burst (s.reschedulerOf r) r.device actions).rest with
    | some pause =>
        rw [List.filterMap_append, asked_asks]
        exact List.append_nil _
    | none => rw [List.filterMap_append, asked_asks, asked_ending, List.append_nil]
  cases hphase : r.phase with
  | underway startedAt rest ending =>
      simp only [course, Run.pending, hphase]
      exact hfrom startedAt rest ending
  | assigned =>
      simp only [course, Run.pending, hphase]
      cases Configuration.ofArgs r.entry.command.args with
      | error error => exact asked_ending ..
      | ok configuration =>
          simp only [List.filterMap_append, asked_tells, hfrom, List.nil_append]

theorem ending_congr (h : t.listeners = s.listeners) (r : Run) (startedAt : Nat)
    (error? : Option ConfigurationError) (c : Executor.Conclusion) :
    t.ending r startedAt error? c = s.ending r startedAt error? c := by
  unfold ending refusal farewell listenersOf
  rw [h]

end Scheduler

/-- A run is executed from its `k`th step on: `found k` is the scheduler as this step finds it, `deeds`
are all deeds of the run from there to its end, which is `outcome`. -/
inductive Executes (found : Nat → Scheduler) (invocation : Configuration → Script) :
    Nat → Run → List Deed → Outcome → Prop
  | ending {k : Nat} {r : Run} {deeds : List Deed} {outcome : Outcome}
      (hcourse : (found k).course r invocation = (.inr outcome, deeds)) :
      Executes found invocation k r deeds outcome
  | pausing {k time : Nat} {r paused : Run} {deeds later : List Deed} {outcome : Outcome}
      (hcourse : (found k).course r invocation = (.inl time, deeds ++ [.pause paused]))
      (hlater : Executes found invocation (k + 1) paused later outcome) :
      Executes found invocation k r (deeds ++ .pause paused :: later) outcome

namespace Executes

variable {found : Nat → Scheduler} {invocation : Configuration → Script} {k : Nat} {r : Run}

theorem iff_of_ending {all : List Deed} {result : Outcome}
    (hcourse : (found k).course r invocation = (.inr result, all)) (deeds : List Deed)
    (outcome : Outcome) :
    Executes found invocation k r deeds outcome ↔ deeds = all ∧ outcome = result := by
  constructor
  · intro h
    cases h with
    | ending heq =>
        rw [hcourse] at heq
        cases heq
        exact ⟨rfl, rfl⟩
    | pausing heq hlater =>
        rw [hcourse] at heq
        cases heq
  · rintro ⟨rfl, rfl⟩
    exact .ending hcourse

theorem iff_of_pausing {time : Nat} {first : List Deed} {paused : Run}
    (hcourse : (found k).course r invocation = (.inl time, first ++ [.pause paused]))
    (deeds : List Deed) (outcome : Outcome) :
    Executes found invocation k r deeds outcome ↔
      ∃ later, Executes found invocation (k + 1) paused later outcome ∧
        deeds = first ++ .pause paused :: later := by
  constructor
  · intro h
    cases h with
    | ending heq =>
        rw [hcourse] at heq
        cases heq
    | pausing heq hlater =>
        rw [hcourse] at heq
        obtain ⟨hfirst, hlast⟩ := List.append_inj' (Prod.mk.inj heq).2 rfl
        cases hfirst
        cases hlast
        exact ⟨_, hlater, rfl⟩
  · rintro ⟨later, hlater, rfl⟩
    exact .pausing hcourse hlater

theorem of_actions {s : Scheduler} (hfound : ∀ k, (found k).listeners = s.listeners)
    {startedAt : Nat} {actions : List Action} {ending : Ending} {told : List Deed}
    (hstart : (found k).course r invocation =
      (((found k).courseFrom r startedAt actions ending).1,
        told ++ ((found k).courseFrom r startedAt actions ending).2)) :
    let c := Executor.conclude (actions.foldl Device.after r.device) ending
    ∃ work, (∀ deed ∈ work, deed.isWork = true) ∧
      work.filterMap Deed.asked? = actions.filterMap (Action.followUp? r.rescheduler) ∧
      ∀ deeds outcome, Executes found invocation k r deeds outcome ↔
        deeds = told ++ (work ++ s.ending r startedAt none c) ∧ outcome = c.outcome := by
  have hasks (requests : List FollowUp) : ∀ deed ∈ requests.map Deed.ask, deed.isWork = true := by
    intro deed hdeed
    obtain ⟨request, -, rfl⟩ := List.mem_map.mp hdeed
    rfl
  induction hlength : actions.length using Nat.strong_induction_on
    generalizing k r actions told with
  | _ n ih =>
      intro c
      rcases (found k).courseFrom_cases r startedAt actions ending with
        hcourse | ⟨time, rest, asked, d, hshorter, hrequests, hdevice, hcourse⟩
      · rw [hcourse] at hstart
        refine ⟨_, hasks _, Deed.asked_asks _, ?_⟩
        rw [← Scheduler.ending_congr (hfound k)]
        exact iff_of_ending hstart
      · rw [hcourse] at hstart
        let paused : Run := { r with device := d, phase := .underway startedAt rest ending }
        have hpaused : (found (k + 1)).course paused invocation =
            (((found (k + 1)).courseFrom paused startedAt rest ending).1,
              [] ++ ((found (k + 1)).courseFrom paused startedAt rest ending).2) := rfl
        obtain ⟨work, hwork, hasked, hiff⟩ := ih rest.length (hlength ▸ hshorter) hpaused rfl
        have hend : s.ending r startedAt none c =
            s.ending paused startedAt none
              (Executor.conclude (rest.foldl Device.after paused.device) ending) := by
          rw [hdevice]
          rfl
        refine ⟨asked.map Deed.ask ++ .pause paused :: work, ?_, ?_, ?_⟩
        · intro deed hdeed
          rcases List.mem_append.mp hdeed with hdeed | hdeed
          · exact hasks _ deed hdeed
          · rcases List.mem_cons.mp hdeed with rfl | hdeed
            · rfl
            · exact hwork deed hdeed
        · rw [List.filterMap_append, Deed.asked_asks, ← hrequests]
          exact congrArg _ hasked
        · intro deeds outcome
          have hpause : (found k).course r invocation =
              (.inl ((found k).now + time), (told ++ asked.map Deed.ask) ++ [.pause paused]) := by
            rw [hstart, List.append_assoc]
          rw [iff_of_pausing hpause, hend]
          constructor
          · rintro ⟨later, hlater, rfl⟩
            obtain ⟨rfl, rfl⟩ := (hiff later outcome).mp hlater
            constructor
            · simp only [List.append_assoc, List.cons_append, List.nil_append]
            · rw [hdevice]
          · rintro ⟨rfl, rfl⟩
            refine ⟨_, (hiff _ _).mpr ⟨rfl, ?_⟩, ?_⟩
            · rw [hdevice]
            · simp only [List.append_assoc, List.cons_append, List.nil_append]

/-- A run that is taken up is opened, has work to do and ends; one whose arguments cannot be read ends
at once. -/
theorem of_assigned {s : Scheduler} (hfound : ∀ k, (found k).listeners = s.listeners)
    (hr : r.phase = .assigned) :
    let c := r.conclusion invocation
    ∃ work, (∀ deed ∈ work, deed.isWork = true) ∧
      work.filterMap Deed.asked? =
        (r.pending invocation).filterMap (Action.followUp? r.rescheduler) ∧
      ∀ deeds outcome, Executes found invocation k r deeds outcome ↔
        deeds = (r.opening (s.listenersOf r)).map Deed.tell ++
          (work ++ s.ending r (found k).now r.error? c) ∧ outcome = c.outcome := by
  cases hargs : Configuration.ofArgs r.entry.command.args with
  | error error =>
      have hcourse : (found k).course r invocation =
          (.inr (r.conclusion invocation).outcome,
            s.ending r (found k).now (some error) (r.conclusion invocation)) := by
        simp only [Scheduler.course, hr, hargs, Run.conclusion, Scheduler.ending_congr (hfound k)]
      refine ⟨[], by simp, ?_, ?_⟩
      · simp [Run.pending, hr, hargs]
      · simp only [Run.opening, Run.error?, hargs]
        exact iff_of_ending hcourse
  | ok configuration =>
      let script := invocation configuration
      have hstart : (found k).course r invocation =
          (((found k).courseFrom r (found k).now script.actions script.ending).1,
            (r.opening (s.listenersOf r)).map Deed.tell ++
              ((found k).courseFrom r (found k).now script.actions script.ending).2) := by
        simp only [Scheduler.course, hr, hargs, Run.opening, Scheduler.listenersOf, hfound]
        rfl
      obtain ⟨work, hwork, hasked, hiff⟩ := of_actions hfound hstart
      refine ⟨work, hwork, ?_, ?_⟩
      · rw [hasked]
        simp only [Run.pending, hr, hargs]
        rfl
      · simp only [Run.conclusion, Run.error?, hargs]
        exact hiff

end Executes

namespace Scheduler

theorem pool_perform (s : Scheduler) {deed : Deed} (h : ∀ d report, deed ≠ .handBack d report) :
    (s.perform deed).pool = s.pool := by
  rcases s.perform_cases deed with
    ⟨_, _, _, _, heq⟩ | ⟨d, report, _, rfl, -⟩ | ⟨-, _, _, heq⟩ | rfl
  · rw [heq]
  · exact absurd rfl (h d report)
  · rw [heq]
  · rfl

theorem pool_handBack (s : Scheduler) (d : Device) (report : ReturnReport) :
    (s.perform (.handBack d report)).pool = s.pool.release d report := by
  obtain ⟨signalled, hrelease⟩ := s.exists_release_eq d report
  rw [perform, hrelease]

theorem pool_foldl_perform {deeds : List Deed}
    (h : ∀ s : Scheduler, ∀ deed ∈ deeds, (s.perform deed).pool = s.pool) (s : Scheduler) :
    (deeds.foldl perform s).pool = s.pool := by
  induction deeds generalizing s with
  | nil => rfl
  | cons deed rest ih =>
      rw [List.foldl_cons, ih fun s other hother => h s other (List.mem_cons_of_mem deed hother)]
      exact h s deed List.mem_cons_self

end Scheduler

/-- What all deeds of a run do, of which `front` come before its device goes back and `back` after
that: the pool is changed by no other, whatever comes in between. -/
structure HandsBackOnce (invocation : Configuration → Script) (r : Run) (listeners : List String)
    (front back : List Deed) : Prop where
  released (s : Scheduler) :
    let c := r.conclusion invocation
    (s.perform (.handBack c.device c.report)).pool = s.pool.release c.device c.report
  once (s : Scheduler) : ∀ deed ∈ front ++ back, (s.perform deed).pool = s.pool
  whole (s : Scheduler) :
    let c := r.conclusion invocation
    ((front ++ .handBack c.device c.report :: back).foldl Scheduler.perform s).pool =
      s.pool.release c.device c.report
  slot (pool : Pool) :
    let c := r.conclusion invocation
    ∃ slot, (pool.release c.device c.report).find? r.device.serial = some slot ∧
      r.ReturnsTo invocation slot
  others (pool : Pool) :
    let c := r.conclusion invocation
    (pool.release c.device c.report).slots.filter (·.serial != r.device.serial) =
      pool.slots.filter (·.serial != r.device.serial)
  told : (front ++ back).filterMap Deed.told? =
    r.opening listeners ++ r.closing invocation listeners
  completeLast : ∀ listener d report, Deed.tell (.complete listener d report) ∉ front
  asked : front.filterMap Deed.asked? =
    (r.pending invocation).filterMap (Action.followUp? r.rescheduler)
  askedFirst : back.filterMap Deed.asked? = []

theorem pool_perform_around {work : List Deed} (hwork : ∀ deed ∈ work, deed.isWork = true)
    (opening before after : List Notice) (entry : QueuedCommand) (startedAt : Nat)
    (outcome : Outcome) (s : Scheduler) :
    ∀ deed ∈ (opening.map Deed.tell ++ work ++ before.map Deed.tell) ++
        (after.map Deed.tell ++ Scheduler.lastDeeds entry startedAt outcome),
      (s.perform deed).pool = s.pool := by
  intro deed hdeed
  apply s.pool_perform
  rintro d report rfl
  simp only [List.mem_append, List.mem_map, reduceCtorEq, and_false, exists_false, false_or, or_false,
    Scheduler.lastDeeds, List.mem_cons, List.not_mem_nil] at hdeed
  exact Bool.false_ne_true (hwork _ hdeed)

theorem handsBackOnce {invocation : Configuration → Script} {r : Run} {work : List Deed}
    (hwork : ∀ deed ∈ work, deed.isWork = true)
    (hasked : work.filterMap Deed.asked? =
      (r.pending invocation).filterMap (Action.followUp? r.rescheduler))
    (s : Scheduler) (startedAt : Nat) :
    let c := r.conclusion invocation
    HandsBackOnce invocation r (s.listenersOf r)
      ((r.opening (s.listenersOf r)).map Deed.tell ++ work ++ (s.refusal r r.error?).map Deed.tell)
      ((s.farewell r r.error? c).map Deed.tell ++
        Scheduler.lastDeeds r.entry startedAt c.outcome) where
  released t := t.pool_handBack _ _
  once t := pool_perform_around hwork _ _ _ _ _ _ t
  whole t := by
    intro c
    have honce := pool_perform_around hwork (r.opening (s.listenersOf r)) (s.refusal r r.error?)
      (s.farewell r r.error? c) r.entry startedAt c.outcome
    have hfront := fun t deed hdeed => honce t deed (List.mem_append_left _ hdeed)
    have hback := fun t deed hdeed => honce t deed (List.mem_append_right _ hdeed)
    rw [List.foldl_append, List.foldl_cons, Scheduler.pool_foldl_perform hback,
      Scheduler.pool_handBack, Scheduler.pool_foldl_perform hfront]
  slot pool := by
    have hslot := Pool.find?_release pool (r.conclusion invocation).device
      (r.conclusion invocation).report
    rw [Run.conclusion_device_serial] at hslot
    exact ⟨_, hslot, r.returnsTo invocation⟩
  others pool := by
    have hothers := Pool.filter_release pool (r.conclusion invocation).device
      (r.conclusion invocation).report
    rwa [Run.conclusion_device_serial] at hothers
  told := by
    rw [← Run.closing_eq, ← Scheduler.refusal_append_farewell]
    simp only [List.filterMap_append, Deed.told_tells, Deed.told_work hwork,
      Scheduler.told_lastDeeds, List.append_nil, List.nil_append, List.append_assoc]
  completeLast listener d report := by
    intro hmem
    rcases List.mem_append.mp hmem with hmem | hmem
    · rcases List.mem_append.mp hmem with hmem | hmem
      · obtain ⟨notice, hnotice, heq⟩ := List.mem_map.mp hmem
        cases heq
        unfold Run.opening at hnotice
        split at hnotice
        · simp at hnotice
        · simp [Executor.opening] at hnotice
      · exact Bool.false_ne_true (hwork _ hmem)
    · obtain ⟨notice, hnotice, heq⟩ := List.mem_map.mp hmem
      cases heq
      simp [Scheduler.refusal] at hnotice
  asked := by
    simp only [List.filterMap_append, Deed.asked_tells, hasked, List.nil_append, List.append_nil]
  askedFirst := by
    simp only [List.filterMap_append, Deed.asked_tells, Scheduler.asked_lastDeeds, List.append_nil]

/-- A run is executed in one way, whatever others do to the scheduler in the meantime: it comes to its
end, hands its device back once and tells everybody then.  What it asks for is sent at once, and stays
in the channel until the loop takes it.  Executed in one go it is told of in the same order. -/
theorem hands_back_once (found : Nat → Scheduler) (invocation : Configuration → Script) (r : Run)
    (own : List String) (hfound : ∀ k, (found k).listeners = own) (hr : r.phase = .assigned) :
    let c := r.conclusion invocation
    let listeners := own ++ r.listeners
    ∃ front back,
      (∀ deeds outcome, Executes found invocation 0 r deeds outcome ↔
        deeds = front ++ .handBack c.device c.report :: back ∧ outcome = c.outcome) ∧
      HandsBackOnce invocation r listeners front back ∧
      (∀ (s : Scheduler) (request : FollowUp), (s.perform (.ask request)).channel =
        s.channel ++ if s.stopped then [] else [.reschedule request]) ∧
      (∀ (s : Scheduler) (deed : Deed), s.channel <+: (s.perform deed).channel) ∧
      ∀ accepts time,
        let report := Executor.execute listeners invocation { r.rescheduler with accepts }
          r.entry.command r.device time
        report.conclusion = c ∧
          report.requests = (if accepts then front.filterMap Deed.asked? else []) ∧
          report.journal.map JournalEntry.notice ++ c.outcome.terribles =
            (front ++ back).flatMap (Deed.notices !accepts) := by
  intro c listeners
  have hsame (k : Nat) : (found k).listeners = (found 0).listeners :=
    (hfound k).trans (hfound 0).symm
  have hlisteners : (found 0).listenersOf r = listeners := by
    rw [Scheduler.listenersOf, hfound]
  obtain ⟨work, hwork, hasked, hiff⟩ :=
    @Executes.of_assigned found invocation 0 r _ hsame hr
  have hhands := handsBackOnce hwork hasked (found 0) (found 0).now
  rw [hlisteners] at hhands
  refine ⟨_, _, fun deeds outcome => ?_, hhands, fun s request => ?_, fun s deed => ?_,
    fun accepts time => ?_⟩
  · rw [hiff, hlisteners, Scheduler.ending, ← List.append_assoc, ← List.append_assoc]
  · exact s.channel_perform (.ask request)
  · rw [s.channel_perform]
    exact List.prefix_append ..
  · obtain ⟨hconclusion, hrequests, hjournal⟩ := r.execute_eq hr listeners accepts time
    refine ⟨hconclusion, ?_, ?_⟩
    · rw [hhands.asked]
      exact hrequests
    · have hclosing := @Run.closing_eq r invocation listeners
      rw [← hlisteners, ← Scheduler.refusal_append_farewell] at hclosing
      rw [hjournal, ← hlisteners, ← hclosing]
      simp only [List.flatMap_append, Deed.notices_tells, Deed.notices_work hwork, hasked,
        Scheduler.notices_lastDeeds, Bool.not_not, List.append_assoc, c]

theorem hands_back_once_of_lost_device :
    let found : Nat → Scheduler := fun _ => { listeners := ["log"] }
    let r : Run :=
      { entry := { command := { id := 1, args := ["instrument"] } }, device := { serial := "SER1" } }
    let invocation : Configuration → Script := fun _ =>
      { actions := [.reschedule ["instrument"] none, .pause 10], ending := .lost "gone" }
    let again : FollowUp := { args := ["instrument"], selection := {}, file := none }
    ∃ front back,
      (∀ deeds outcome, Executes found invocation 0 r deeds outcome ↔
        deeds = front ++ .handBack { serial := "SER1" } .unavailable :: back ∧
          outcome = .deviceLost "SER1" "gone") ∧
      front.filterMap Deed.asked? = [again] ∧
      HandsBackOnce invocation r ["log"] front back := by
  intro found r invocation again
  obtain ⟨front, back, hiff, hhands, -⟩ :=
    hands_back_once found invocation r ["log"] (fun _ => rfl) rfl
  have hconclusion : r.conclusion invocation =
      { device := { serial := "SER1" }, report := .unavailable
        outcome := .deviceLost "SER1" "gone" } := by rfl
  have hpending : (r.pending invocation).filterMap (Action.followUp? r.rescheduler) = [again] := by
    decide
  rw [hconclusion] at hiff
  exact ⟨front, back, hiff, hhands.asked.trans hpending, hhands⟩

end DeviceLab
