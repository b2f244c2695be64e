import DeviceLab.Proofs.Scheduler.Notices
import DeviceLab.Proofs.Scheduler.Survival

namespace DeviceLab

namespace Books

variable {b c d : Books}

/-- While a scheduler is shutting down: no run begins, and the queue takes only what is new. -/
structure WindsDown (b c : Books) : Prop where
  down : c.shuttingDown = true
  runs : c.runs.map Run.id ⊆ b.runs.map Run.id
  queue : ∀ q ∈ c.queue.entries, q ∈ b.queue.entries ∨ b.nextId ≤ q.id
  nextId_le : b.nextId ≤ c.nextId

theorem WindsDown.refl (h : b.shuttingDown = true) : b.WindsDown b :=
  ⟨h, List.Subset.refl _, fun _ hq => .inl hq, Nat.le_refl _⟩

theorem WindsDown.trans (hbc : b.WindsDown c) (hcd : c.WindsDown d) : b.WindsDown d where
  down := hcd.down
  runs := List.Subset.trans hcd.runs hbc.runs
  queue q hq := by
    rcases hcd.queue q hq with hq | hid
    · exact hbc.queue q hq
    · exact .inr (Nat.le_trans hbc.nextId_le hid)
  nextId_le := Nat.le_trans hbc.nextId_le hcd.nextId_le

theorem WindsDown.enter (h : b.Orderly) (hdown : b.shuttingDown = true) {nextId : Nat}
    {new pushed : List QueuedCommand} (hnew : Submitted b.nextId nextId new)
    (hperm : pushed.Perm new) :
    b.WindsDown (b.enter pushed nextId) ∧
      b.queue.entries ⊆ (b.enter pushed nextId).queue.entries := by
  have hqueue : b.queue.ids.Sublist (b.entries.map QueuedCommand.id) :=
    ((List.sublist_append_left _ _).trans (List.sublist_append_left _ _)).map QueuedCommand.id
  have hnodup : (b.queue.ids ++ pushed.map QueuedCommand.id).Nodup :=
    (((hperm.map QueuedCommand.id).append_left _).nodup_iff).mpr
      ((hqueue.append_right _).nodup (h.nodup_ids_append_fresh hnew.toFresh))
  have hentries := Queue.entries_foldl_push_perm hnodup
  constructor
  · refine ⟨hdown, List.Subset.refl _, fun q hq => ?_, hnew.le⟩
    rcases List.mem_append.mp (hentries.subset hq) with hq | hq
    · exact .inl hq
    · exact .inr (hnew.bounds q (hperm.subset hq)).1
  · intro q hq
    exact hentries.mem_iff.mpr (List.mem_append_left _ hq)

theorem WindsDown.grows (h : b.Orderly) (hdown : b.shuttingDown = true) (hgrows : b.Grows c) :
    b.WindsDown c ∧ b.queue.entries ⊆ c.queue.entries := by
  obtain ⟨new, hnew, hc⟩ := hgrows
  rw [hc]
  exact WindsDown.enter h hdown hnew (List.Perm.refl _)

theorem WindsDown.of_pool (hdown : b.shuttingDown = true) (pool : Pool) :
    b.WindsDown { b with pool } :=
  ⟨hdown, List.Subset.refl _, fun _ hq => .inl hq, Nat.le_refl _⟩

end Books

namespace Scheduler

variable {s t : Scheduler}

theorem addCommand_of_shuttingDown (h : s.shuttingDown = true) (args : List String) :
    s.addCommand args = .ok (false, s) := by
  rw [addCommand, addFrom, if_pos h]
  rfl

theorem execCommand_of_shuttingDown (h : s.shuttingDown = true) (listener : String) (d : Device)
    (args : List String) :
    s.execCommand listener d args = (.error .shutdown, s.release d .available) :=
  if_pos h

theorem pass_of_shuttingDown (h : s.shuttingDown = true) :
    s.pass = ({ s with signalled := false } : Scheduler).receive.stop := by
  obtain ⟨queue, nextId, watched, signalled, answers, hreceive, -⟩ :=
    TakesIn.receive { s with signalled := false }
  apply if_pos
  rw [mayStop, hreceive, Bool.or_eq_true]
  exact .inl h

theorem windsDown_pass (horderly : s.books.Orderly) (h : s.shuttingDown = true) :
    s.books.WindsDown s.pass.books ∧ s.queue.entries ⊆ s.pass.queue.entries := by
  let u : Scheduler := { s with signalled := false }
  obtain ⟨nextId, new, pushed, hnew, hperm, hbooks⟩ := u.exists_books_receive
  rw [returning_of_shuttingDown (show u.shuttingDown = true from h), List.nil_append] at hperm
  obtain ⟨hwinds, hstays⟩ := Books.WindsDown.enter horderly h hnew hperm
  have hpass : s.pass.books = { s.books.enter pushed nextId with
      requeues := [], shuttingDown := true, stopped := true } := by
    rw [pass_of_shuttingDown h]
    change { u.receive.books with shuttingDown := true, stopped := true } = _
    rw [hbooks]
    rfl
  have hqueue : s.pass.queue = (s.books.enter pushed nextId).queue := congrArg Books.queue hpass
  rw [hpass, hqueue]
  exact ⟨⟨rfl, hwinds.runs, hwinds.queue, hwinds.nextId_le⟩, hstays⟩

theorem windsDown_step {id : Nat} {invocation : Configuration → Script} {answer : Nat ⊕ Outcome}
    (h : s.shuttingDown = true) (horderly : s.books.Orderly)
    (hstep : s.step id invocation = some (answer, t)) :
    s.books.WindsDown t.books ∧ s.queue.entries ⊆ t.queue.entries := by
  obtain ⟨r, hr, -, hadvances⟩ := step_cases hstep
  change _ ∧ s.books.queue.entries ⊆ t.books.queue.entries
  generalize t.books = after at hadvances ⊢
  cases hadvances with
  | pause time phase hserial =>
      rename_i d
      have hid : Run.id { r with device := d, phase } = r.id := rfl
      have hruns := horderly.map_runs_pause hr hid Run.id rfl
      exact ⟨⟨h, (List.Perm.of_eq hruns).subset, fun _ hq => .inl hq, Nat.le_refl _⟩,
        List.Subset.refl _⟩
  | ending outcome elapsed startedAt report hserial =>
      refine ⟨⟨?_, ?_, fun _ hq => .inl hq, Nat.le_refl _⟩, List.Subset.refl _⟩
      · change (s.shuttingDown || outcome.isFatal) = true
        rw [h, Bool.true_or]
      · exact (List.filter_sublist.map Run.id).subset

end Scheduler

namespace World

variable {w : World}

theorem windsDown_act (h : w.Balanced) (hdown : w.scheduler.shuttingDown = true) (a : Act) :
    w.scheduler.books.WindsDown (w.act a).scheduler.books ∧
      (a ≠ .removeAll → (∀ tree path extraArgs, a ≠ .notifyChanged tree path extraArgs) →
        w.scheduler.queue.entries ⊆ (w.act a).scheduler.queue.entries) := by
  have horderly := h.orderly
  have hdoes := w.does a
  generalize w.act a = v at hdoes
  cases hdoes with
  | nothing => exact ⟨.refl hdown, fun _ _ => List.Subset.refl _⟩
  | @aside _ pool => exact ⟨.of_pool hdown pool, fun _ _ => List.Subset.refl _⟩
  | added hadd =>
      rw [Scheduler.addCommand_of_shuttingDown hdown] at hadd
      cases hadd
      exact ⟨.refl hdown, fun _ _ => List.Subset.refl _⟩
  | addedFile hadd =>
      obtain ⟨hwinds, hstays⟩ :=
        Books.WindsDown.grows horderly hdown (Scheduler.grows_addFile hadd)
      exact ⟨hwinds, fun _ _ => hstays⟩
  | notified hnotify =>
      refine ⟨?_, fun _ hnot => absurd rfl (hnot _ _ _)⟩
      obtain ⟨gone, hgrows⟩ := Scheduler.grows_notifyChanged hnotify
      have herased : w.scheduler.books.WindsDown
          { w.scheduler.books with queue := gone.foldl Queue.erase w.scheduler.queue } := by
        refine ⟨hdown, List.Subset.refl _, fun q hq => .inl ?_, Nat.le_refl _⟩
        rw [Queue.entries_foldl_erase] at hq
        exact List.mem_of_mem_filter hq
      exact herased.trans (Books.WindsDown.grows (horderly.erase gone) hdown hgrows).1
  | removed =>
      refine ⟨⟨hdown, List.Subset.refl _, fun q hq => ?_, Nat.le_refl _⟩, fun hnot => ?_⟩
      · exact absurd hq List.not_mem_nil
      · exact absurd rfl hnot
  | shutDown =>
      refine ⟨⟨rfl, List.Subset.refl _, fun _ hq => .inl hq, Nat.le_refl _⟩, fun _ _ => ?_⟩
      exact List.Subset.refl _
  | passed =>
      obtain ⟨hwinds, hstays⟩ := Scheduler.windsDown_pass horderly hdown
      exact ⟨hwinds, fun _ _ => hstays⟩
  | stepped hstep =>
      obtain ⟨hwinds, hstays⟩ := Scheduler.windsDown_step hdown horderly hstep
      exact ⟨hwinds, fun _ _ => hstays⟩
  | @executed listener d args hd =>
      have hbooks : (w.scheduler.execCommand listener d args).2.books =
          { w.scheduler.books with pool := w.scheduler.pool.release d .available } := by
        rw [Scheduler.execCommand_of_shuttingDown hdown]
        exact Scheduler.books_release ..
      have hqueue : (w.scheduler.execCommand listener d args).2.queue = w.scheduler.queue :=
        congrArg Books.queue hbooks
      constructor
      · change w.scheduler.books.WindsDown (w.scheduler.execCommand listener d args).2.books
        rw [hbooks]
        exact .of_pool hdown _
      · intro _ _
        change _ ⊆ (w.scheduler.execCommand listener d args).2.queue.entries
        rw [hqueue]
        exact List.Subset.refl _

theorem windsDown_run (h : w.Balanced) (hdown : w.scheduler.shuttingDown = true)
    (later : List Act) : w.scheduler.books.WindsDown (w.run later).scheduler.books := by
  induction later generalizing w with
  | nil => exact .refl hdown
  | cons a rest ih =>
      have hact := (windsDown_act h hdown a).1
      exact hact.trans (ih (h.act a) hact.down)

/-- A direct execution is refused while the scheduler is shutting down: the device goes back into its
slot, which is free again, and nothing else happens to commands and devices. -/
theorem act_exec_of_shuttingDown (hdown : w.scheduler.shuttingDown = true) {listener : String}
    {d : Device} (hd : d ∈ w.held) (args : List String) :
    (w.scheduler.execCommand listener d args).1 = .error .shutdown ∧
      (w.act (.exec listener d args)).scheduler.pool.stateOf? d.serial = some .free ∧
      ∃ pool, (w.act (.exec listener d args)).scheduler.books =
        { w.scheduler.books with pool } := by
  have hbooks := w.scheduler.books_release d .available
  rw [act, if_pos hd, Scheduler.execCommand_of_shuttingDown hdown]
  refine ⟨rfl, ?_, _, hbooks⟩
  change (w.scheduler.release d .available).books.pool.stateOf? d.serial = _
  rw [hbooks]
  exact (Pool.stateOf?_release ..).trans (congrArg some (Pool.returnState_available d))

end World

namespace Scheduler

variable {s t : Scheduler}

/-- What the handler of terrible failures has heard, the latest first. -/
def terribles (s : Scheduler) : List Notice :=
  s.notices.filter Notice.isTerrible

theorem filter_isTerrible_filter (notices : List Notice) :
    (notices.filter Notice.isNotable).filter Notice.isTerrible =
      notices.filter Notice.isTerrible := by
  rw [List.filter_filter]
  apply List.filter_congr
  intro n _
  cases n <;> rfl

theorem terribles_step {id : Nat} {invocation : Configuration → Script} {answer : Nat ⊕ Outcome}
    (h : s.step id invocation = some (answer, t)) :
    t.terribles = terriblesOf answer ++ s.terribles := by
  obtain ⟨r, -, -, opened, hnotices, hopened⟩ := notable_step h
  have hopening : opened.filter Notice.isTerrible = [] := by
    rw [List.filter_eq_nil_iff]
    intro n hn
    obtain ⟨c, -, hn⟩ := hopened n hn
    rcases List.mem_append.mp hn with hn | hn
    · obtain ⟨listener, -, rfl⟩ := List.mem_map.mp hn
      exact Bool.false_ne_true
    · obtain rfl := List.mem_singleton.mp hn
      exact Bool.false_ne_true
  have hanswer : (terriblesOf answer).filter Notice.isTerrible = terriblesOf answer := by
    rcases answer with time | outcome
    · rfl
    · cases outcome <;> rfl
  rw [terribles, ← filter_isTerrible_filter, hnotices, List.filter_append, List.filter_append,
    hopening, hanswer, List.nil_append, filter_isTerrible_filter]
  rfl

theorem shuttingDown_step {id : Nat} {invocation : Configuration → Script}
    {answer : Nat ⊕ Outcome} (h : s.step id invocation = some (answer, t)) :
    t.shuttingDown = (s.shuttingDown || answer.elim (fun _ => false) Outcome.isFatal) := by
  obtain ⟨r, -, -, hadvances⟩ := step_cases h
  change t.books.shuttingDown = _
  generalize t.books = after at hadvances ⊢
  cases hadvances with
  | pause time phase hserial => exact (Bool.or_false _).symm
  | ending outcome elapsed startedAt report hserial => rfl

end Scheduler

namespace World

variable {w : World} {a : Act} {id : Nat} {outcome : Outcome}

theorem act_of_ended? (h : w.ended? a = some (id, outcome)) :
    (w.act a).scheduler.terribles = outcome.terribles ++ w.scheduler.terribles ∧
      (w.act a).scheduler.shuttingDown = (w.scheduler.shuttingDown || outcome.isFatal) := by
  obtain ⟨invocation, t, rfl, hstep⟩ := exists_of_ended? h
  rw [act, hstep]
  exact ⟨Scheduler.terribles_step hstep, Scheduler.shuttingDown_step hstep⟩

theorem terribles_act_of_not_ended (h : w.ended? a = none) :
    (w.act a).scheduler.terribles = w.scheduler.terribles := by
  by_cases hstep : ∃ id invocation, a = .step id invocation
  · obtain ⟨id, invocation, rfl⟩ := hstep
    rw [act]
    split
    · rfl
    · rename_i answer t hstep
      rw [ended?, hstep] at h
      rcases answer with time | outcome
      · exact Scheduler.terribles_step hstep
      · cases h
  · obtain ⟨answers, hnotices, hanswers⟩ :=
      notices_act (w := w) fun id invocation heq => hstep ⟨id, invocation, heq⟩
    have hnone : answers.filter Notice.isTerrible = [] := by
      rw [List.filter_eq_nil_iff]
      intro n hn hterrible
      have hanswer := hanswers n hn
      cases n with
      | terrible detail => cases hanswer
      | _ => cases hterrible
    rw [Scheduler.terribles, hnotices, List.filter_append, hnone]
    rfl

theorem shuttingDown_act_step_of_not_ended {invocation : Configuration → Script}
    (h : w.ended? (.step id invocation) = none) :
    (w.act (.step id invocation)).scheduler.shuttingDown = w.scheduler.shuttingDown := by
  rw [act]
  split
  · rfl
  · rename_i answer t hstep
    rw [ended?, hstep] at h
    rcases answer with time | outcome
    · exact (Scheduler.shuttingDown_step hstep).trans (Bool.or_false _)
    · cases h

theorem not_mem_ids_of_fatal (h : w.Balanced) (hended : w.ended? a = some (id, outcome))
    (hfatal : outcome.isFatal = true) (rest : List Act) : id ∉ ((w.act a).run rest).ids := by
  obtain ⟨invocation, t, rfl, hstep⟩ := exists_of_ended? hended
  obtain ⟨r, hr, rfl, hadvances⟩ := Scheduler.step_cases hstep
  have hact : w.act (.step r.id invocation) = { w with scheduler := t } := by
    rw [act, hstep]
  have hentry : r.entry ∈ w.scheduler.books.entries := Books.mem_entries_of_mem_runs hr
  have hid : r.id < (w.act (.step r.id invocation)).scheduler.nextId := by
    obtain ⟨kept, next, lost, new, hturns⟩ := h.exists_turns (.step r.id invocation)
    exact Nat.lt_of_lt_of_le (h.orderly.lt_nextId r.entry hentry) hturns.fresh.le
  refine (h.act _).not_mem_ids_run hid ?_ rest
  rw [(h.act _).ids_perm.mem_iff, hact]
  change r.id ∉ t.books.entries.map QueuedCommand.id
  generalize t.books = after at hadvances ⊢
  cases hadvances with
  | ending outcome elapsed startedAt report hserial =>
      have hback : w.scheduler.back r.entry elapsed startedAt outcome = [] := by
        simp [Scheduler.back, Scheduler.comesBack, hfatal]
      obtain ⟨others, hbefore, hafter⟩ := h.orderly.exists_perm_retire hr [] outcome
      have hids := (hbefore.map QueuedCommand.id).nodup_iff.mp h.orderly.nodup
      rw [hback]
      intro hmem
      exact (List.nodup_cons.mp hids).1 ((hafter.map QueuedCommand.id).subset hmem)

/-- Once a scheduler is shutting down it stays so, whatever happens.  From then on no command that
waits is started and none comes back to the queue, which loses commands only where it is cleared or a
file is read again; no command is taken any more, and a direct execution hands its device back free.
And at any time, a run that ends in a fatal error is reported as terrible once, shuts the scheduler
down and has its command dropped for good; nothing else in a run does any of this. -/
theorem shutdown_is_final (settings : SchedulerSettings) (catalog : Catalog)
    (listeners : List String) (before later : List Act) :
    let w := (fresh settings catalog listeners).run before
    let v := w.run later
    (w.scheduler.shuttingDown = true →
      v.scheduler.shuttingDown = true ∧
      v.scheduler.running.map Command.id ⊆ w.scheduler.running.map Command.id ∧
      (∀ id ∈ w.scheduler.queue.ids, id ∉ v.scheduler.running.map Command.id) ∧
      (∀ id ∈ v.scheduler.queue.ids, id ∈ w.scheduler.queue.ids ∨ w.scheduler.nextId ≤ id) ∧
      (∀ a, a ≠ .removeAll → (∀ tree path extraArgs, a ≠ .notifyChanged tree path extraArgs) →
        v.scheduler.queue.entries ⊆ (v.act a).scheduler.queue.entries) ∧
      (∀ args, v.scheduler.addCommand args = .ok (false, v.scheduler)) ∧
      ∀ listener d args, d ∈ v.held →
        (v.scheduler.execCommand listener d args).1 = .error .shutdown ∧
        (v.act (.exec listener d args)).scheduler.pool.stateOf? d.serial = some .free ∧
        ∃ pool, (v.act (.exec listener d args)).scheduler.books =
          { v.scheduler.books with pool }) ∧
    (∀ a id detail, w.ended? a = some (id, .fatalError detail) →
      (w.act a).scheduler.terribles = .terrible detail :: w.scheduler.terribles ∧
      (w.act a).scheduler.shuttingDown = true ∧
      ∀ rest, id ∉ ((w.act a).run rest).ids) ∧
    (∀ a id outcome, w.ended? a = some (id, outcome) → outcome.isFatal = false →
      (w.act a).scheduler.terribles = w.scheduler.terribles ∧
      (w.act a).scheduler.shuttingDown = w.scheduler.shuttingDown) ∧
    (∀ a, w.ended? a = none → (w.act a).scheduler.terribles = w.scheduler.terribles) ∧
    ∀ id invocation, w.ended? (.step id invocation) = none →
      (w.act (.step id invocation)).scheduler.shuttingDown = w.scheduler.shuttingDown := by
  intro w v
  have h : w.Balanced := (balanced_fresh settings catalog listeners).run before
  refine ⟨fun hdown => ?_, fun a id detail hended => ?_, fun a id outcome hended hfatal => ?_,
    fun a hended => terribles_act_of_not_ended hended,
    fun id invocation hended => shuttingDown_act_step_of_not_ended hended⟩
  · have hv : v.Balanced := h.run later
    have hwinds := windsDown_run h hdown later
    have hruns : v.scheduler.running.map Command.id ⊆ w.scheduler.running.map Command.id := by
      intro id hid
      apply h.tallies.running_ids_perm.mem_iff.mpr
      exact hwinds.runs (hv.tallies.running_ids_perm.subset hid)
    refine ⟨hwinds.down, hruns, fun id hid hrunning => ?_, fun id hid => ?_,
      (windsDown_act hv hwinds.down · |>.2), Scheduler.addCommand_of_shuttingDown hwinds.down,
      fun listener d args hd => act_exec_of_shuttingDown hwinds.down hd args⟩
    · have hnodup := h.ids_perm.nodup_iff.mpr h.orderly.nodup
      exact (List.nodup_append.mp (List.nodup_append.mp hnodup).1).2.2 id hid id (hruns hrunning) rfl
    · obtain ⟨q, hq, rfl⟩ := List.mem_map.mp hid
      exact (hwinds.queue q hq).imp_left fun hq => List.mem_map_of_mem hq
  · obtain ⟨hterribles, hdown⟩ := act_of_ended? hended
    exact ⟨hterribles, hdown.trans (Bool.or_true _), not_mem_ids_of_fatal h hended rfl⟩
  · obtain ⟨hterribles, hdown⟩ := act_of_ended? hended
    rw [hfatal, Bool.or_false] at hdown
    refine ⟨hterribles.trans ?_, hdown⟩
    cases outcome with
    | fatalError detail => cases hfatal
    | _ => rfl

theorem shutdown_is_final_of_fatal_run :
    let before : List Act :=
      [.register { serial := "SER1" }, .add ["smoke", "--loop"], .add ["flaky"], .start, .pass]
    let fatal : Act := .step 1 fun _ => { ending := .fatal "disk full" }
    let w := (fresh {} ∅ []).run before
    w.ended? fatal = some (1, .fatalError "disk full") ∧
      (w.act fatal).scheduler.terribles = [.terrible "disk full"] ∧
      (w.act fatal).scheduler.shuttingDown = true ∧
      ∀ later, 2 ∉ (((fresh {} ∅ []).run (before ++ [fatal])).run later).scheduler.running.map
        Command.id := by
  intro before fatal w
  have hended : w.ended? fatal = some (1, .fatalError "disk full") := by decide
  have hdown : ((fresh {} ∅ []).run (before ++ [fatal])).scheduler.shuttingDown = true := by
    decide
  obtain ⟨hterribles, hflag, -⟩ :=
    (shutdown_is_final {} ∅ [] before []).2.1 fatal 1 "disk full" hended
  refine ⟨hended, hterribles, hflag, fun later => ?_⟩
  obtain ⟨-, -, hwaits, -⟩ := (shutdown_is_final {} ∅ [] (before ++ [fatal]) later).1 hdown
  exact hwaits 2 (by decide)

end World

end DeviceLab
