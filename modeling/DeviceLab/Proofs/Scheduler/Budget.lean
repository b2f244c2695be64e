import DeviceLab.Proofs.Scheduler.Places

namespace DeviceLab

/-- So many runs of a command are on record, and one more keeps within what is expected of it.  The
first run is always granted. -/
structure QueuedCommand.InBudget (q : QueuedCommand) (runs : Nat) : Prop where
  count : q.command.executions = runs % UInt32.size
  expected_le : ∀ n, q.command.expected = some n → n ≤ maxCount
  lt : ∀ n, q.command.expected = some n → runs < max n 1

theorem QueuedCommand.After.expected_eq {q e : QueuedCommand} {n : Nat} (h : q.After n e) :
    e.command.expected = q.command.expected := by
  obtain ⟨-, _, _, _, rfl⟩ := h
  rfl

namespace QueuedCommand.InBudget

variable {q : QueuedCommand} {runs n : Nat}

theorem of_admitted {settings : SchedulerSettings} {catalog : Catalog} {c : Configuration}
    {selection : Selection} (h : Admitted settings catalog c selection q) : q.InBudget 0 := by
  refine ⟨h.unrun, h.expected_le, fun n _ => ?_⟩
  omega

theorem lt_of_expected (h : q.InBudget runs) (hn : q.command.expected = some n) :
    runs + 1 < UInt32.size := by
  have hsize : UInt32.size = maxCount + 1 := rfl
  have hmax : 1 ≤ maxCount := by decide
  have hle := h.expected_le n hn
  have hlt := h.lt n hn
  omega

theorem executions_eq (h : q.InBudget runs) (hn : q.command.expected = some n) :
    q.command.executions = runs :=
  h.count.trans (Nat.mod_eq_of_lt (Nat.lt_of_succ_lt (h.lt_of_expected hn)))

theorem requeued (h : q.InBudget runs) {elapsed : Nat}
    (hleft : (q.command.recordRun elapsed).hasRemaining = true) (startedAt : Nat) :
    (Scheduler.requeued q (q.command.recordRun elapsed) startedAt).InBudget (runs + 1) where
  count := by
    change (q.command.recordRun elapsed).executions = _
    rw [Command.recordRun_executions, h.count, Nat.mod_add_mod]
  expected_le := h.expected_le
  lt n hn := by
    have hlt : (q.command.recordRun elapsed).executions < n :=
      of_decide_eq_true (Option.all_eq_true _ _ |>.mp hleft n hn)
    rw [Command.recordRun_executions, h.executions_eq hn,
      Nat.mod_eq_of_lt (h.lt_of_expected hn)] at hlt
    omega

end QueuedCommand.InBudget

namespace World

variable {w : World} {a : Act} {id k : Nat}

def startedCount (w : World) (a : Act) (id : Nat) : Nat :=
  (w.starts a).countP (·.id == id)

def runsStarted (id : Nat) : World → List Act → Nat
  | _, [] => 0
  | w, a :: rest => w.startedCount a id + runsStarted id (w.act a) rest

theorem runsStarted_append (id : Nat) (w : World) (before after : List Act) :
    runsStarted id w (before ++ after) =
      runsStarted id w before + runsStarted id (w.run before) after := by
  induction before generalizing w with
  | nil => exact (Nat.zero_add _).symm
  | cons a rest ih =>
      rw [List.cons_append, runsStarted, ih, runsStarted, Nat.add_assoc]
      rfl

theorem startedCount_eq_zero (h : ∀ r ∈ w.starts a, r.id ≠ id) : w.startedCount a id = 0 := by
  rw [startedCount, List.countP_eq_zero]
  intro r hr
  simpa using h r hr

theorem startedCount_eq_one (h : w.Balanced) {r : Run} (hr : r ∈ w.starts a) :
    w.startedCount a r.id = 1 := by
  have hnodup : ((w.starts a).map Run.id).Nodup :=
    (List.filter_sublist.map Run.id).nodup (h.act a).orderly.nodup_runs
  have hcount := List.count_eq_one_of_mem hnodup (List.mem_map_of_mem hr)
  rwa [List.count, List.countP_map] at hcount

/-- So many runs of a command have been started: as many as are recorded while it waits, and one more
while it runs.  Each time it is within its budget. -/
structure Counts (id k : Nat) (w : World) : Prop where
  untaken : w.scheduler.nextId ≤ id → k = 0
  waiting : ∀ e ∈ w.scheduler.books.waiting, e.id = id → e.InBudget k
  running : ∀ r ∈ w.scheduler.runs, r.id = id → ∃ runs, k = runs + 1 ∧ r.entry.InBudget runs

namespace Counts

theorem of_enters (h : w.Counts id k) (hbalanced : w.Balanced) {e : QueuedCommand}
    (henters : w.Enters a e) (hid : e.id = id) : k = 0 ∧ e.InBudget 0 := by
  have hnew := henters.le hbalanced
  obtain ⟨args, origin, s, t, -, hbrings⟩ := henters
  obtain ⟨c, -, hadmitted⟩ := hbrings.admitted
  exact ⟨h.untaken (hid ▸ hnew), .of_admitted hadmitted⟩

theorem act_waiting (h : w.Counts id k) (hbalanced : w.Balanced) {e : QueuedCommand}
    (he : e ∈ (w.act a).scheduler.books.waiting) (hid : e.id = id) :
    e.InBudget (k + w.startedCount a id) := by
  have hnone : w.startedCount a id = 0 := by
    refine startedCount_eq_zero fun r hr heq => ?_
    have hrun := (mem_starts.mp hr).1
    exact (hbalanced.act a).orderly.id_ne_of_waiting he hrun (hid.trans heq.symm)
  rw [hnone, Nat.add_zero]
  cases waits_of_mem hbalanced he with
  | still hold => exact h.waiting e hold hid
  | entered henters =>
      obtain ⟨rfl, hbudget⟩ := h.of_enters hbalanced henters hid
      exact hbudget
  | returned hr ha hmode hleft =>
      obtain ⟨runs, rfl, hbudget⟩ := h.running _ hr hid
      exact hbudget.requeued hleft _

theorem act_running (h : w.Counts id k) (hbalanced : w.Balanced) {r : Run}
    (hr : r ∈ (w.act a).scheduler.runs) (hid : r.id = id) :
    ∃ runs, k + w.startedCount a id = runs + 1 ∧ r.entry.InBudget runs := by
  have hold (other : Run) (hother : other ∈ w.scheduler.runs) (heq : other.id = id) :
      w.startedCount a id = 0 := by
    refine startedCount_eq_zero fun new hnew hsame => ?_
    exact (mem_starts.mp hnew).2 other hother (heq.trans hsame.symm)
  have hstarts (hnew : ∀ other ∈ w.scheduler.runs, other.id ≠ r.id) :
      w.startedCount a id = 1 := by
    rw [← hid]
    exact startedCount_eq_one hbalanced (mem_starts.mpr ⟨hr, hnew⟩)
  have hentered (henters : w.Enters a r.entry) :
      ∃ runs, k + w.startedCount a id = runs + 1 ∧ r.entry.InBudget runs := by
    obtain ⟨hk, hbudget⟩ := h.of_enters hbalanced henters hid
    have hone := hstarts fun other hother heq => by
      have hlt := hbalanced.orderly.lt_nextId _ (Books.mem_entries_of_mem_runs hother)
      have hle : w.scheduler.nextId ≤ r.id := henters.le hbalanced
      exact absurd (Nat.lt_of_lt_of_le hlt hle) (heq ▸ Nat.lt_irrefl _)
    exact ⟨0, by rw [hk, hone], hbudget⟩
  cases lists_of_mem hbalanced hr with
  | still hrun ha =>
      rw [hold r hrun hid]
      exact h.running r hrun hid
  | @paused r invocation d rest ending hrun ha =>
      rw [hold r hrun hid]
      exact h.running r hrun hid
  | started ha hstarted hentry =>
      rcases hentry with hwaits | henters
      · rw [hstarts fun other hother heq =>
          hbalanced.orderly.id_ne_of_waiting hwaits hother heq.symm]
        exact ⟨k, rfl, h.waiting r.entry hwaits hid⟩
      · subst ha
        exact hentered henters
  | executed ha henters => exact hentered henters

theorem act (h : w.Counts id k) (hbalanced : w.Balanced) (a : Act) :
    (w.act a).Counts id (k + w.startedCount a id) where
  untaken := by
    intro hnext
    have hle := hbalanced.nextId_le_act a
    have hnone : w.startedCount a id = 0 := by
      refine startedCount_eq_zero fun r hr heq => ?_
      have hlt := (hbalanced.act a).orderly.lt_nextId _
        (Books.mem_entries_of_mem_runs (mem_starts.mp hr).1)
      exact absurd (Nat.lt_of_lt_of_le hlt hnext) (heq ▸ Nat.lt_irrefl _)
    rw [h.untaken (Nat.le_trans hle hnext), hnone]
  waiting e he hid := h.act_waiting hbalanced he hid
  running r hr hid := h.act_running hbalanced hr hid

end Counts

section reachable

variable (settings : SchedulerSettings) (catalog : Catalog) (listeners : List String)

theorem counts_run (id : Nat) (acts : List Act) :
    ((fresh settings catalog listeners).run acts).Counts id
      (runsStarted id (fresh settings catalog listeners) acts) := by
  induction acts using List.reverseRecOn with
  | nil =>
      refine ⟨fun _ => rfl, ?_, ?_⟩ <;>
        simp [fresh, run, Scheduler.books, Books.waiting]
  | append_singleton acts a ih =>
      rw [run_append, runsStarted_append]
      exact ih.act ((balanced_fresh settings catalog listeners).run acts) a

/-- A run that is started finds recorded all runs that were started before. -/
theorem counts_starts (acts : List Act) {a : Act} {r : Run}
    (hr : r ∈ ((fresh settings catalog listeners).run acts).starts a) :
    r.entry.InBudget (runsStarted r.id (fresh settings catalog listeners) acts) := by
  have hbalanced := (balanced_fresh settings catalog listeners).run acts
  have hcounts := (counts_run settings catalog listeners r.id acts).act hbalanced a
  obtain ⟨runs, hcount, hbudget⟩ := hcounts.running r (mem_starts.mp hr).1 rfl
  rw [startedCount_eq_one hbalanced hr] at hcount
  exact Nat.succ.inj hcount ▸ hbudget

/-- However a scheduler has been used and goes on to be used: if a command waits of which so many
runs are expected, then each run of it that is started finds fewer runs recorded than that, and those
recorded are all the runs that were started before; so that no more runs are started.  Only where none
is expected one is started all the same. -/
theorem runs_within_budget (before later : List Act) {q : QueuedCommand} {n : Nat}
    (hq : q ∈ ((fresh settings catalog listeners).run before).scheduler.queue.entries)
    (hn : q.command.expected = some n) :
    let start := fresh settings catalog listeners
    (∀ a, ∀ r ∈ (start.run (before ++ later)).starts a, r.id = q.id →
      r.entry.command.executions = runsStarted q.id start (before ++ later) ∧
        r.entry.command.executions < max n 1) ∧
    runsStarted q.id start (before ++ later) ≤ max n 1 := by
  intro start
  have hwaits : q ∈ (start.run before).scheduler.books.waiting := Books.mem_waiting.mpr (.inl hq)
  have hstarts (more : List Act) (a : Act) (r : Run)
      (hr : r ∈ (start.run (before ++ more)).starts a) (hid : r.id = q.id) :
      r.entry.command.executions = runsStarted q.id start (before ++ more) ∧
        r.entry.command.executions < max n 1 := by
    have hbudget := counts_starts settings catalog listeners (before ++ more) hr
    have hlisted : r.entry ∈ ((start.run (before ++ more)).act a).scheduler.books.entries :=
      Books.mem_entries_of_mem_runs (mem_starts.mp hr).1
    have hlater : (start.run (before ++ more)).act a = (start.run before).run (more ++ [a]) := by
      rw [run_append, run_append]
      rfl
    rw [hlater] at hlisted
    have hafter := ((balanced_fresh settings catalog listeners).run before).after_of_id_eq
      (Books.mem_entries_of_mem_waiting hwaits) (more ++ [a]) hlisted hid
    have hcount := hbudget.executions_eq (hafter.expected_eq.trans hn)
    exact ⟨hid ▸ hcount, hcount ▸ hbudget.lt n (hafter.expected_eq.trans hn)⟩
  refine ⟨hstarts later, ?_⟩
  -- On the last act: the count grows only with a start, and a start finds it below the budget.
  induction later using List.reverseRecOn with
  | nil =>
      have hbudget := (counts_run settings catalog listeners q.id before).waiting q hwaits rfl
      rw [List.append_nil]
      exact Nat.le_of_lt (hbudget.lt n hn)
  | append_singleton more a ih =>
      rw [← List.append_assoc, runsStarted_append]
      change _ + (start.run (before ++ more)).startedCount a q.id ≤ _
      by_cases hnone : ∀ r ∈ (start.run (before ++ more)).starts a, r.id ≠ q.id
      · rw [startedCount_eq_zero hnone]
        exact ih
      · push Not at hnone
        obtain ⟨r, hr, hid⟩ := hnone
        obtain ⟨hcount, hlt⟩ := hstarts more a r hr hid
        have hone := startedCount_eq_one
          ((balanced_fresh settings catalog listeners).run (before ++ more)) hr
        rw [hid] at hone
        rw [hone, ← hcount]
        exact hlt

end reachable

theorem runs_within_budget_of_two :
    let start := fresh {} ∅ []
    let before : List Act :=
      [.register { serial := "SER1" }, .add ["smoke", "--loop", "--max-run-count", "2"], .start]
    let later : List Act := [.pass, .step 1 fun _ => {}]
    let q : QueuedCommand :=
      { command :=
          { id := 1, args := ["smoke", "--loop", "--max-run-count", "2"], expected := some 2 }
        mode := .loop }
    (∃ r ∈ (start.run (before ++ later)).starts .pass, r.id = q.id) ∧
      (∀ a, ∀ r ∈ (start.run (before ++ later)).starts a, r.id = q.id →
        r.entry.command.executions = runsStarted q.id start (before ++ later) ∧
          r.entry.command.executions < max 2 1) ∧
      runsStarted q.id start (before ++ later) ≤ max 2 1 :=
  ⟨by decide, runs_within_budget {} ∅ [] _ _ (by decide) rfl⟩

/-- A command that is to loop without any run is run all the same. -/
theorem exists_run_beyond_empty_budget :
    let w := (fresh {} ∅ []).run
      [.register { serial := "SER1" }, .add ["smoke", "--loop", "--max-run-count", "0"], .start]
    ∃ q ∈ w.scheduler.queue.entries, q.command.expected = some 0 ∧
      ∃ r ∈ w.starts .pass, r.id = q.id ∧ ¬ r.entry.command.executions < 0 := by
  decide

end World

end DeviceLab
