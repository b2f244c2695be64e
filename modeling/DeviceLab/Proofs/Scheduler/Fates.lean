import DeviceLab.Proofs.Scheduler.Whereabouts

namespace DeviceLab

open List (Forall₂)
open Scheduler (grows_notifyChanged)

theorem perm_cons_filter {α : Type} (key : α → Nat) {xs : List α} (hnodup : (xs.map key).Nodup)
    {x : α} (hx : x ∈ xs) : xs.Perm (x :: xs.filter fun y => key y != key x) := by
  induction xs with
  | nil => simp at hx
  | cons first rest ih =>
      obtain ⟨hfirst, hrest⟩ := List.nodup_cons.mp hnodup
      have hne : ∀ y ∈ rest, key y ≠ key first := by
        intro y hy heq
        exact hfirst (heq ▸ List.mem_map_of_mem hy)
      rcases List.mem_cons.mp hx with rfl | hx
      · rw [List.filter_cons_of_neg (by simp), List.filter_eq_self.mpr (by simpa using hne)]
      · rw [List.filter_cons_of_pos (by simpa using (hne x hx).symm)]
        exact ((ih hrest hx).cons first).trans (List.Perm.swap x first _)

namespace Books

variable {b c : Books}

theorem mem_entries {q : QueuedCommand} :
    q ∈ b.entries ↔
      q ∈ b.queue.entries ∨ (∃ r ∈ b.runs, r.entry = q) ∨ q ∈ b.requeues := by
  simp [entries]

theorem mem_entries_of_mem_queue {q : QueuedCommand} (h : q ∈ b.queue.entries) : q ∈ b.entries :=
  mem_entries.mpr (.inl h)

theorem mem_entries_of_mem_runs {r : Run} (h : r ∈ b.runs) : r.entry ∈ b.entries :=
  mem_entries.mpr (.inr (.inl ⟨r, h, rfl⟩))

theorem entries_enter_perm {pushed : List QueuedCommand} {nextId : Nat}
    (h : (b.queue.ids ++ pushed.map QueuedCommand.id).Nodup) :
    (b.enter pushed nextId).entries.Perm (b.entries ++ pushed) := by
  have hqueue := Queue.entries_foldl_push_perm h
  refine ((hqueue.append_right (b.runs.map Run.entry)).append_right b.requeues).trans ?_
  rw [List.perm_iff_count]
  intro q
  simp only [entries, List.count_append]
  omega

theorem entries_append_run_perm (b : Books) (r : Run) (nextId inFlight : Nat)
    (running : List Command) :
    { b with nextId, inFlight, running, runs := b.runs ++ [r] }.entries.Perm
      (b.entries ++ [r.entry]) := by
  rw [List.perm_iff_count]
  intro q
  simp only [entries, List.count_append, List.map_append, List.map_cons, List.map_nil]
  omega

theorem entries_erase_perm (b : Books) (gone : List Nat) :
    b.entries.Perm ({ b with queue := gone.foldl Queue.erase b.queue }.entries ++
      b.queue.entries.filter (·.id ∈ gone)) := by
  have hsplit := List.filter_append_perm (fun q : QueuedCommand => decide (q.id ∈ gone))
    b.queue.entries
  rw [List.perm_iff_count] at hsplit ⊢
  intro q
  have hcount := hsplit q
  simp only [entries, List.count_append, Queue.entries_foldl_erase, decide_not] at hcount ⊢
  omega

namespace Orderly

theorem nodup_runs (h : b.Orderly) : (b.runs.map Run.id).Nodup := by
  have hsublist : (b.runs.map Run.entry).Sublist b.entries :=
    (List.sublist_append_right _ _).trans (List.sublist_append_left _ _)
  have hids := (hsublist.map QueuedCommand.id).nodup h.nodup
  rwa [List.map_map] at hids

theorem eq_of_run_id_eq (h : b.Orderly) {r other : Run} (hr : r ∈ b.runs) (hother : other ∈ b.runs)
    (hid : r.id = other.id) : r = other :=
  List.inj_on_of_nodup_map h.nodup_runs hr hother hid

theorem erase (h : b.Orderly) (gone : List Nat) :
    { b with queue := gone.foldl Queue.erase b.queue }.Orderly := by
  have hsub : { b with queue := gone.foldl Queue.erase b.queue }.entries.Sublist b.entries := by
    rw [entries, Queue.entries_foldl_erase]
    exact (List.filter_sublist.append_right _).append_right _
  exact ⟨(hsub.map _).nodup h.nodup, fun q hq => h.lt_nextId q (hsub.subset hq),
    fun q hq => h.mode q (hsub.subset hq)⟩

theorem nodup_ids_append_fresh (h : b.Orderly) {nextId : Nat} {fresh : List QueuedCommand}
    (hfresh : Fresh b.nextId nextId fresh) :
    (b.entries.map QueuedCommand.id ++ fresh.map QueuedCommand.id).Nodup := by
  refine List.nodup_append.mpr ⟨h.nodup, hfresh.nodup, ?_⟩
  rintro _ hmem _ hnew rfl
  obtain ⟨q, hq, hid⟩ := List.mem_map.mp hmem
  obtain ⟨e, he, heq⟩ := List.mem_map.mp hnew
  have hlt := h.lt_nextId q hq
  have hle := (hfresh.bounds e he).1
  omega

theorem entries_perm_of_grows (h : b.Orderly) (hgrows : b.Grows c) :
    ∃ new, Submitted b.nextId c.nextId new ∧ c.entries.Perm (b.entries ++ new) := by
  obtain ⟨new, hnew, hc⟩ := hgrows
  refine ⟨new, hnew, ?_⟩
  rw [hc]
  have hqueue : (b.queue.ids).Sublist (b.entries.map QueuedCommand.id) :=
    ((List.sublist_append_left _ _).trans (List.sublist_append_left _ _)).map QueuedCommand.id
  exact entries_enter_perm ((hqueue.append_right _).nodup (h.nodup_ids_append_fresh hnew.toFresh))

theorem map_runs_pause (h : b.Orderly) {r paused : Run} (hr : r ∈ b.runs)
    (hid : paused.id = r.id) {α : Type} (f : Run → α) (hf : f paused = f r) :
    (b.pause paused).runs.map f = b.runs.map f := by
  rw [pause, List.map_map]
  refine List.map_congr_left fun other hother => ?_
  rw [Function.comp_apply]
  split
  · rename_i heq
    rw [hf, h.eq_of_run_id_eq hr hother (hid ▸ heq.symm)]
  · rfl

theorem entries_pause (h : b.Orderly) {r paused : Run} (hr : r ∈ b.runs)
    (hentry : paused.entry = r.entry) : (b.pause paused).entries = b.entries := by
  have hid : paused.id = r.id := congrArg QueuedCommand.id hentry
  rw [entries, h.map_runs_pause hr hid Run.entry hentry]
  rfl

theorem exists_perm_retire (h : b.Orderly) {r : Run} (hr : r ∈ b.runs) (back : List QueuedCommand)
    (outcome : Outcome) :
    ∃ others, b.entries.Perm (r.entry :: others) ∧
      (b.retire r.entry back outcome).entries.Perm (back ++ others) := by
  let others := b.queue.entries ++ (b.runs.filter (·.id != r.id)).map Run.entry ++ b.requeues
  refine ⟨others, ?_, ?_⟩
  · have hruns := (perm_cons_filter Run.id h.nodup_runs hr).map Run.entry
    rw [List.perm_iff_count] at hruns ⊢
    intro q
    have hcount := hruns q
    simp only [entries, others, List.count_append, List.map_cons, List.count_cons] at hcount ⊢
    omega
  · have hafter : (b.retire r.entry back outcome).entries = others ++ back :=
      (List.append_assoc ..).symm
    rw [hafter]
    exact List.perm_append_comm

end Orderly

end Books

namespace Scheduler

theorem entries_scheduleReady_perm (s : Scheduler) :
    s.scheduleReady.books.entries.Perm s.books.entries := by
  have hsplit := @started_waiting_perm s.now s.settings.maxConcurrent s.pool s.inFlight
    s.queue.entries
  rw [books_scheduleReady]
  change (s.allocation.waiting ++ (s.runs ++ s.allocation.started.map fun p =>
    ({ entry := p.1, device := p.2 } : Run)).map Run.entry ++ s.books.requeues).Perm
    (s.queue.entries ++ s.runs.map Run.entry ++ s.books.requeues)
  have hstarted : (s.allocation.started.map fun p => ({ entry := p.1, device := p.2 } : Run)).map
      Run.entry = s.allocation.started.map Prod.fst := by
    rw [List.map_map]
    rfl
  rw [List.map_append, hstarted]
  rw [List.perm_iff_count] at hsplit ⊢
  intro q
  have hcount := hsplit q
  change (s.allocation.started.map Prod.fst ++ s.allocation.waiting).count q = _ at hcount
  simp only [List.count_append] at hcount ⊢
  omega

/-- What waits, runs, or comes back to the queue when the channel is worked off. -/
def staying (s : Scheduler) : List QueuedCommand :=
  { s.books with requeues := [] }.entries ++ s.returning

theorem staying_sublist (s : Scheduler) : s.staying.Sublist s.books.entries := by
  rw [staying, Books.entries, List.append_nil]
  exact s.returning_sublist.append_left _

theorem exists_perm_receive {s : Scheduler} (h : s.books.Orderly) :
    ∃ new, Submitted s.nextId s.receive.nextId new ∧
      s.receive.books.entries.Perm (s.staying ++ new) := by
  obtain ⟨nextId, new, pushed, hnew, hperm, hbooks⟩ := s.exists_books_receive
  have hnext : s.receive.nextId = nextId := congrArg Books.nextId hbooks
  refine ⟨new, hnext ▸ hnew, ?_⟩
  rw [hbooks]
  refine (Books.entries_enter_perm ?_).trans ?_
  · have hqueue : (s.queue.entries ++ s.books.requeues).Sublist s.books.entries :=
      (List.sublist_append_left _ _).append_right _
    have hback := s.returning_sublist.append_left s.queue.entries
    have hids := (hback.trans hqueue).map QueuedCommand.id
    refine (((hperm.map QueuedCommand.id).append_left _).nodup_iff).mpr ?_
    rw [List.map_append, ← List.append_assoc]
    rw [List.map_append] at hids
    exact (hids.append_right _).nodup (h.nodup_ids_append_fresh hnew.toFresh)
  · rw [staying, List.append_assoc]
    exact hperm.append_left _

theorem orderly_receive {s : Scheduler} (h : s.books.Orderly) : s.receive.books.Orderly := by
  obtain ⟨new, hnew, hperm⟩ := exists_perm_receive h
  have hsublist := s.staying_sublist
  exact h.of_perm (hsublist.map _).subperm (fun e he => h.mode e (hsublist.subset he))
    hnew.toFresh hperm

theorem exists_perm_pass {s : Scheduler} (h : s.books.Orderly) :
    ∃ new, Submitted s.nextId s.pass.nextId new ∧
      s.pass.books.entries.Perm (s.staying ++ new) := by
  obtain ⟨new, hnew, hperm⟩ := exists_perm_receive (s := { s with signalled := false }) h
  refine ⟨new, ?_⟩
  rw [pass]
  generalize { s with signalled := false }.receive = received at hnew hperm ⊢
  split
  · exact ⟨hnew, hperm⟩
  · refine ⟨?_, (entries_scheduleReady_perm _).trans hperm⟩
    rw [scheduleReady_eq]
    exact hnew

end Scheduler

namespace World

variable {w : World} {a : Act}

theorem endedCount_eq_zero {id : Nat} (h : ∀ outcome, w.ended? a ≠ some (id, outcome)) :
    w.endedCount a id = 0 := by
  rw [endedCount]
  split
  · rename_i hany
    obtain ⟨⟨other, outcome⟩, hended, heq⟩ := Option.any_eq_true _ _ |>.mp hany
    obtain rfl : other = id := beq_iff_eq.mp heq
    exact absurd hended (h outcome)
  · rfl

theorem forall₂_after_same {entries : List QueuedCommand}
    (h : ∀ q ∈ entries, ∀ outcome, w.ended? a ≠ some (q.id, outcome)) :
    Forall₂ (fun q e => q.After (w.endedCount a q.id) e) entries entries := by
  refine List.forall₂_same.mpr fun q hq => ?_
  rw [endedCount_eq_zero (h q hq)]
  exact QueuedCommand.After.refl q

theorem exists_turns_of_grows (horderly : w.scheduler.books.Orderly)
    (hended : w.ended? a = none)
    (hgrows : w.scheduler.books.Grows (w.act a).scheduler.books) :
    ∃ kept next lost new, w.Turns a kept next lost new := by
  obtain ⟨new, hnew, hperm⟩ := horderly.entries_perm_of_grows hgrows
  refine ⟨_, _, [], new, by rw [List.append_nil], hperm, forall₂_after_same ?_, by simp,
    hnew.toFresh, .inl hnew⟩
  simp [hended]

theorem exists_turns_of_entries_eq (hended : w.ended? a = none)
    (hentries : (w.act a).scheduler.books.entries = w.scheduler.books.entries)
    (hnext : (w.act a).scheduler.nextId = w.scheduler.nextId) :
    ∃ kept next lost new, w.Turns a kept next lost new := by
  refine ⟨_, _, [], [], by rw [List.append_nil], by rw [hentries, List.append_nil],
    forall₂_after_same ?_, by simp, Fresh.nil hnext.ge, .inl (Submitted.nil hnext.ge)⟩
  simp [hended]

theorem exists_turns_of_pool {pool : Pool} (hended : w.ended? a = none)
    (hbooks : (w.act a).scheduler.books = { w.scheduler.books with pool }) :
    ∃ kept next lost new, w.Turns a kept next lost new :=
  exists_turns_of_entries_eq hended (hbooks ▸ rfl) (congrArg Books.nextId hbooks)

theorem exists_turns_notifyChanged (horderly : w.scheduler.books.Orderly) (tree : FileTree)
    (path : Path) (extraArgs : List String) :
    ∃ kept next lost new, w.Turns (.notifyChanged tree path extraArgs) kept next lost new := by
  cases hnotify : w.scheduler.notifyChanged tree path extraArgs with
  | error error =>
      have hact : w.act (.notifyChanged tree path extraArgs) = w := by
        rw [act, hnotify]
      exact exists_turns_of_entries_eq rfl (by rw [hact]) (by rw [hact])
  | ok t =>
      have hact : w.act (.notifyChanged tree path extraArgs) = { w with scheduler := t } := by
        rw [act, hnotify]
      obtain ⟨gone, hgrows⟩ := grows_notifyChanged hnotify
      have hsplit := w.scheduler.books.entries_erase_perm gone
      obtain ⟨new, hnew, hperm⟩ := (horderly.erase gone).entries_perm_of_grows hgrows
      have hnew : Submitted w.scheduler.nextId
          (w.act (.notifyChanged tree path extraArgs)).scheduler.nextId new := hact ▸ hnew
      refine ⟨_, _, _, new, hsplit, by rw [hact]; exact hperm, forall₂_after_same ?_, ?_,
        hnew.toFresh, .inl hnew⟩
      · simp [ended?]
      · intro q hq
        exact .reloaded (List.mem_of_mem_filter hq)

theorem exists_turns_removeAll : ∃ kept next lost new, w.Turns .removeAll kept next lost new := by
  refine ⟨(w.act .removeAll).scheduler.books.entries, _, w.scheduler.queue.entries, [], ?_, ?_,
    forall₂_after_same ?_, fun q hq => .removed hq, Fresh.nil (Nat.le_refl _),
    .inl (Submitted.nil (Nat.le_refl _))⟩
  · change (w.scheduler.queue.entries ++ _ ++ _).Perm ([] ++ _ ++ _ ++ _)
    rw [List.append_assoc, List.nil_append]
    exact List.perm_append_comm
  · rw [List.append_nil]
  · simp [ended?]

theorem exists_turns_pass (horderly : w.scheduler.books.Orderly) :
    ∃ kept next lost new, w.Turns .pass kept next lost new := by
  by_cases hpasses : w.scheduler.started && !w.scheduler.stopped
  · have hact : w.act .pass = { w with scheduler := w.scheduler.pass } := by
      rw [act, if_pos hpasses]
    obtain ⟨new, hnew, hafter⟩ := Scheduler.exists_perm_pass horderly
    have hnew : Submitted w.scheduler.nextId (w.act .pass).scheduler.nextId new := hact ▸ hnew
    have hbefore : w.scheduler.books.entries.Perm
        ({ w.scheduler.books with requeues := [] }.entries ++ w.scheduler.books.requeues) := by
      simp [Books.entries]
    cases hdown : w.scheduler.shuttingDown with
    | true =>
        rw [Scheduler.staying, Scheduler.returning_of_shuttingDown hdown, List.append_nil] at hafter
        refine ⟨_, _, _, new, hbefore, by rw [hact]; exact hafter, forall₂_after_same ?_, ?_,
          hnew.toFresh, .inl hnew⟩
        · simp [ended?]
        · intro q hq
          exact .dropped (Scheduler.mem_requeues_iff.mp hq) hdown
    | false =>
        rw [Scheduler.staying, Scheduler.returning_of_not_shuttingDown hdown] at hafter
        refine ⟨_, _, [], new, hbefore.trans (by rw [List.append_nil]), by rw [hact]; exact hafter,
          forall₂_after_same ?_, by simp, hnew.toFresh, .inl hnew⟩
        simp [ended?]
  · have hact : w.act .pass = w := by
      rw [act, if_neg hpasses]
    exact exists_turns_of_entries_eq rfl (by rw [hact]) (by rw [hact])

theorem dismisses_of_run_ended (horderly : w.scheduler.books.Orderly)
    (hstopped : w.scheduler.stopped = true → w.scheduler.shuttingDown = true) {r : Run}
    (hr : r ∈ w.scheduler.runs) {outcome : Outcome} (hended : w.ended? a = some (r.id, outcome))
    (hwhy : w.scheduler.stopped = true ∨ r.entry.mode ≠ .loop ∨ outcome.isFatal = true ∨
      w.scheduler.shuttingDown = true ∨
      ∃ n, r.entry.command.expected = some n ∧
        n ≤ (r.entry.command.executions + 1) % UInt32.size) :
    w.Dismisses a r.entry := by
  rcases horderly.mode r.entry (Books.mem_entries_of_mem_runs hr) with hmode | hmode
  · exact .once hended hmode
  · rcases hwhy with hclosed | hnot | hfatal | hdown | ⟨n, hexpected, hspent⟩
    · exact .halted hended hmode (hstopped hclosed)
    · exact absurd hmode hnot
    · exact .fatal hended hmode hfatal
    · exact .halted hended hmode hdown
    · exact .spent hended hmode hexpected hspent

theorem exists_turns_ending (horderly : w.scheduler.books.Orderly)
    (hstopped : w.scheduler.stopped = true → w.scheduler.shuttingDown = true) {r : Run}
    (hr : r ∈ w.scheduler.runs) {outcome : Outcome} (hended : w.ended? a = some (r.id, outcome))
    {pool : Pool} {elapsed startedAt : Nat}
    (hbooks : (w.act a).scheduler.books = { w.scheduler.books with pool }.retire r.entry
      (w.scheduler.back r.entry elapsed startedAt outcome) outcome) :
    ∃ kept next lost new, w.Turns a kept next lost new := by
  have hnext : (w.act a).scheduler.nextId = w.scheduler.nextId := congrArg Books.nextId hbooks
  obtain ⟨others, hbefore, hafter⟩ := horderly.exists_perm_retire hr
    (w.scheduler.back r.entry elapsed startedAt outcome) outcome
  have hothers : ∀ q ∈ others, ∀ outcome', w.ended? a ≠ some (q.id, outcome') := by
    intro q hq outcome' heq
    rw [hended] at heq
    have hid : r.entry.id = q.id := (Prod.mk.inj (Option.some.inj heq)).1
    have hids := (hbefore.map QueuedCommand.id).nodup_iff.mp horderly.nodup
    exact (List.nodup_cons.mp hids).1 (hid ▸ List.mem_map_of_mem hq)
  -- The command comes back with one more execution, or the reason why it does not is the one for
  -- which it is dismissed.
  rcases w.scheduler.back_cases r.entry elapsed startedAt outcome with hback | ⟨hback, hwhy⟩
  · let later := Scheduler.requeued r.entry (r.entry.command.recordRun elapsed) startedAt
    have hgoes : r.entry.After (w.endedCount a r.entry.id) later := by
      have hcount : w.endedCount a r.entry.id = 1 := by
        rw [endedCount, hended]
        simp [Run.id]
      rw [hcount]
      exact ⟨r.entry.command.recordRun_executions elapsed, _, _, _, rfl⟩
    rw [hback] at hafter hbooks
    refine ⟨r.entry :: others, later :: others, [], [], by rwa [List.append_nil], ?_,
      .cons hgoes (forall₂_after_same hothers), by simp, Fresh.nil hnext.ge,
      .inl (Submitted.nil hnext.ge)⟩
    rw [hbooks, List.append_nil]
    exact hafter
  · rw [hback] at hafter hbooks
    refine ⟨others, others, [r.entry], [], hbefore.trans (List.perm_append_singleton ..).symm, ?_,
      forall₂_after_same hothers, ?_, Fresh.nil hnext.ge, .inl (Submitted.nil hnext.ge)⟩
    · rw [hbooks, List.append_nil]
      exact hafter
    · intro q hq
      obtain rfl := List.mem_singleton.mp hq
      exact dismisses_of_run_ended horderly hstopped hr hended hwhy

theorem exists_turns_step (horderly : w.scheduler.books.Orderly)
    (hstopped : w.scheduler.stopped = true → w.scheduler.shuttingDown = true) (id : Nat)
    (invocation : Configuration → Script) :
    ∃ kept next lost new, w.Turns (.step id invocation) kept next lost new := by
  cases hstep : w.scheduler.step id invocation with
  | none =>
      have hact : w.act (.step id invocation) = w := by
        rw [act, hstep]
      exact exists_turns_of_entries_eq (by rw [ended?, hstep]) (by rw [hact]) (by rw [hact])
  | some result =>
      rcases result with ⟨answer, t⟩
      have hact : w.act (.step id invocation) = { w with scheduler := t } := by
        rw [act, hstep]
      obtain ⟨r, hr, rfl, hadvances⟩ := Scheduler.step_cases hstep
      generalize hbooks : t.books = after at hadvances
      cases hadvances with
      | pause time phase hserial =>
          refine exists_turns_of_entries_eq (by rw [ended?, hstep]) ?_ ?_
          · rw [hact, hbooks]
            exact horderly.entries_pause hr rfl
          · rw [hact]
            exact congrArg Books.nextId hbooks
      | ending outcome elapsed startedAt report hserial =>
          have hended : w.ended? (.step r.id invocation) = some (r.id, outcome) := by
            rw [ended?, hstep]
          exact exists_turns_ending horderly hstopped hr hended (by rw [hact]; exact hbooks)

theorem exists_turns_exec (listener : String) (d : Device)
    (args : List String) :
    ∃ kept next lost new, w.Turns (.exec listener d args) kept next lost new := by
  by_cases hd : d ∈ w.held
  · have hact : w.act (.exec listener d args) =
        { scheduler := (w.scheduler.execCommand listener d args).2, held := w.held.erase d } := by
      rw [act, if_pos hd]
    rcases w.scheduler.execCommand_cases listener d args with
      hbooks | ⟨r, hcommand, -, hmode, hbooks⟩
    · exact exists_turns_of_pool rfl (by rw [hact]; exact hbooks)
    · have hnext : (w.act (.exec listener d args)).scheduler.nextId = w.scheduler.nextId + 1 := by
        rw [hact]
        exact congrArg Books.nextId hbooks
      refine ⟨_, _, [], [r.entry], by rw [List.append_nil], ?_, forall₂_after_same ?_, by simp, ?_,
        .inr ⟨listener, d, args, r.entry, rfl, hd, rfl, hcommand⟩⟩
      · rw [hact, hbooks]
        exact Books.entries_append_run_perm ..
      · simp [ended?]
      · rw [hnext]
        exact Fresh.singleton (congrArg Command.id hcommand) (.inl hmode)
  · have hact : w.act (.exec listener d args) = w := by
      rw [act, if_neg hd]
    exact exists_turns_of_entries_eq rfl (by rw [hact]) (by rw [hact])

theorem exists_turns_aside (haside : a.isAside = true) :
    ∃ kept next lost new, w.Turns a kept next lost new := by
  obtain ⟨pool, reload, draining, started, now, signalled, -, hact⟩ := w.exists_aside_act haside
  have hended : w.ended? a = none := by
    cases a with
    | step => cases haside
    | _ => rfl
  have hbooks : (w.act a).scheduler.books = { w.scheduler.books with pool } :=
    congrArg Scheduler.books hact
  exact exists_turns_of_pool hended hbooks

/-- Whatever happens, each command at hand goes on or is dismissed, and only fresh ones come in. -/
theorem exists_turns (horderly : w.scheduler.books.Orderly)
    (hstopped : w.scheduler.stopped = true → w.scheduler.shuttingDown = true) (a : Act) :
    ∃ kept next lost new, w.Turns a kept next lost new := by
  cases haside : a.isAside with
  | true => exact exists_turns_aside haside
  | false =>
      cases a with
      | add args =>
          refine exists_turns_of_grows horderly rfl ?_
          rw [act]
          split
          · exact Books.Grows.refl _
          · exact Scheduler.grows_addCommand ‹_›
      | addFile tree path extraArgs =>
          refine exists_turns_of_grows horderly rfl ?_
          rw [act]
          split
          · exact Books.Grows.refl _
          · exact Scheduler.grows_addFile ‹_›
      | notifyChanged tree path extraArgs =>
          exact exists_turns_notifyChanged horderly tree path extraArgs
      | removeAll => exact exists_turns_removeAll
      | shutdown => exact exists_turns_of_entries_eq rfl rfl rfl
      | pass => exact exists_turns_pass horderly
      | step id invocation => exact exists_turns_step horderly hstopped id invocation
      | exec listener d args => exact exists_turns_exec listener d args
      | setReload | drain | start | register | setNullCount | lease | giveBack | edit | wait =>
          cases haside

end World

end DeviceLab
