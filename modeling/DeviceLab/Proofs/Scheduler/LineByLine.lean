import DeviceLab.Proofs.Scheduler.Loads
import DeviceLab.Proofs.Scheduler.Refusals

namespace DeviceLab

namespace Scheduler

variable {s : Scheduler} {path : Path} {args : List String}

def queueLine (path : Path) (s : Scheduler) (args : List String) : Scheduler :=
  match s.submit args (.fileLine path) with
  | .error _ => s
  | .ok (_, t) => t

theorem queueLine_eq_of_asksToRun (h : Configuration.asksToRun args = true) (path : Path)
    (s : Scheduler) :
    ∃ c entries nextId, Configuration.ofArgs args = .ok c ∧
      c.options.runMode.isRunnable = true ∧
      s.entriesOf c args (.fileLine path) = .ok (entries, nextId) ∧
      s.queueLine path args = { s with nextId }.pushAll entries := by
  obtain ⟨c, entries, nextId, hargs, hrun, hentries, hsubmit⟩ :=
    submit_eq_of_asksToRun h s (.fileLine path)
  refine ⟨c, entries, nextId, hargs, hrun, hentries, ?_⟩
  rw [queueLine, hsubmit]

theorem queueLine_with (h : Configuration.asksToRun args = true) (path : Path) (s : Scheduler)
    (signalled : Bool) (journal : List JournalEntry) :
    queueLine path { s with signalled, journal } args =
      { queueLine path s args with signalled, journal } := by
  let told := { s with signalled, journal }
  obtain ⟨c, entries, nextId, hargs, -, hentries, hqueue⟩ := queueLine_eq_of_asksToRun h path s
  obtain ⟨c', entries', nextId', hargs', -, hentries', hqueue'⟩ :=
    queueLine_eq_of_asksToRun h path told
  obtain rfl : c = c' := Except.ok.inj (hargs.symm.trans hargs')
  have hsame : told.entriesOf c args (.fileLine path) = s.entriesOf c args (.fileLine path) := rfl
  rw [hsame, hentries] at hentries'
  cases hentries'
  rw [hqueue, hqueue']
  rfl

theorem addLines_cons (hup : s.shuttingDown = false) (path : Path) (args : List String)
    (rest : List (List String)) :
    s.addLines path (args :: rest) =
      if Configuration.asksToRun args then
        let loaded := (s.queueLine path args).signal.addLines path rest
        (loaded.1 + 1, loaded.2)
      else (s.noteAll (answers s.listeners args)).addLines path rest := by
  rw [addLines, addFrom, hup]
  cases hasks : Configuration.asksToRun args with
  | true =>
      obtain ⟨c, entries, nextId, -, -, -, hsubmit⟩ :=
        submit_eq_of_asksToRun hasks s (.fileLine path)
      rw [queueLine, hsubmit]
      simp [Except.map, Nat.add_comm 1]
  | false =>
      rcases submit_eq_of_not_asksToRun hasks s (.fileLine path) with
        ⟨error, hsubmit, hanswers⟩ | ⟨text, hsubmit, hanswers⟩
      · rw [hsubmit, hanswers]
        rfl
      · rw [hsubmit, hanswers]
        simp [Except.map, noteAll]

theorem exists_reloadLine_eq (s : Scheduler) (path : Path) (args : List String) :
    ∃ journal, s.reloadLine path args =
      { if Configuration.asksToRun args then s.queueLine path args else s with journal } := by
  rw [reloadLine]
  cases hasks : Configuration.asksToRun args with
  | true =>
      obtain ⟨c, entries, nextId, -, -, -, hsubmit⟩ :=
        submit_eq_of_asksToRun hasks s (.fileLine path)
      rw [queueLine, hsubmit]
      exact ⟨s.journal, rfl⟩
  | false =>
      rcases submit_of_not_asksToRun hasks s (.fileLine path) with
        ⟨error, hsubmit⟩ | ⟨text, hsubmit⟩
      · rw [hsubmit]
        exact ⟨_, noteAll_eq ..⟩
      · rw [hsubmit]
        exact ⟨_, rfl⟩

def queueLines (path : Path) (s : Scheduler) (lines : List (List String)) : Scheduler :=
  (lines.filter Configuration.asksToRun).foldl (queueLine path) s

theorem queueLines_cons_of_asksToRun (h : Configuration.asksToRun args = true) (path : Path)
    (s : Scheduler) (rest : List (List String)) :
    s.queueLines path (args :: rest) = (s.queueLine path args).queueLines path rest := by
  rw [queueLines, List.filter_cons_of_pos h, List.foldl_cons, queueLines]

theorem queueLines_cons_of_not_asksToRun (h : Configuration.asksToRun args = false) (path : Path)
    (s : Scheduler) (rest : List (List String)) :
    s.queueLines path (args :: rest) = s.queueLines path rest := by
  rw [queueLines, List.filter_cons_of_neg (by simp [h]), queueLines]

theorem queueLines_with (path : Path) (lines : List (List String)) (s : Scheduler)
    (signalled : Bool) (journal : List JournalEntry) :
    { s with signalled, journal }.queueLines path lines =
      { s.queueLines path lines with signalled, journal } := by
  induction lines generalizing s with
  | nil => rfl
  | cons args rest ih =>
      cases hasks : Configuration.asksToRun args with
      | true =>
          rw [queueLines_cons_of_asksToRun hasks, queueLine_with hasks, ih,
            queueLines_cons_of_asksToRun hasks]
      | false =>
          rw [queueLines_cons_of_not_asksToRun hasks, ih, queueLines_cons_of_not_asksToRun hasks]

theorem addLines_eq (hup : s.shuttingDown = false) (path : Path) (lines : List (List String)) :
    s.addLines path lines =
      (lines.countP Configuration.asksToRun,
        { s.queueLines path lines with
          signalled := s.signalled || lines.any Configuration.asksToRun
          journal := ((lines.flatMap (answers s.listeners)).map fun notice =>
            ⟨s.now, notice⟩).reverse ++ s.journal }) := by
  -- On the lines, with the scheduler as each of them finds it: those that are not to be run change
  -- the journal only.
  induction lines generalizing s with
  | nil => simp [addLines, queueLines]
  | cons args rest ih =>
      rw [addLines_cons hup]
      cases hasks : Configuration.asksToRun args with
      | true =>
          obtain ⟨c, entries, nextId, hargs, hrun, -, hqueue⟩ :=
            queueLine_eq_of_asksToRun hasks path s
          have hnothing : answers s.listeners args = [] := by
            rw [answers, hargs]
            rcases RunMode.isRunnable_iff.mp hrun with hmode | hmode <;> simp only [hmode]
          have hsignal : (s.queueLine path args).signal =
              { s.queueLine path args with signalled := true, journal := s.journal } := by
            rw [hqueue]
            rfl
          have hup' : (s.queueLine path args).signal.shuttingDown = false := by
            rw [hqueue]
            exact hup
          rw [ih hup', hsignal, queueLines_with, ← queueLines_cons_of_asksToRun hasks, hqueue]
          simp [hasks, hnothing, pushAll]
      | false =>
          have hanswer : s.noteAll (answers s.listeners args) =
              { s with
                signalled := s.signalled
                journal := ((answers s.listeners args).map fun notice =>
                  ⟨s.now, notice⟩).reverse ++ s.journal } := noteAll_eq ..
          have hup' : (s.noteAll (answers s.listeners args)).shuttingDown = false := by
            rw [hanswer]
            exact hup
          rw [if_neg (by simp), ih hup', hanswer, queueLines_with,
            ← queueLines_cons_of_not_asksToRun hasks]
          simp [hasks]

theorem exists_reloadLines_eq (path : Path) (lines : List (List String)) (s : Scheduler) :
    ∃ signalled journal,
      s.reloadLines path lines = { s.queueLines path lines with signalled, journal } := by
  rw [reloadLines_eq_foldl]
  induction lines generalizing s with
  | nil => exact ⟨s.signalled, s.journal, rfl⟩
  | cons args rest ih =>
      obtain ⟨told, hline⟩ := s.exists_reloadLine_eq path args
      obtain ⟨signalled, journal, hrest⟩ := ih (s.reloadLine path args)
      refine ⟨signalled, journal, ?_⟩
      rw [List.foldl_cons, hrest, hline]
      cases hasks : Configuration.asksToRun args with
      | true =>
          have htold := queueLines_with path rest (s.queueLine path args)
            (s.queueLine path args).signalled told
          rw [queueLines_cons_of_asksToRun hasks]
          exact congrArg (fun t : Scheduler => { t with signalled, journal }) htold
      | false =>
          have htold := queueLines_with path rest s s.signalled told
          rw [queueLines_cons_of_not_asksToRun hasks]
          exact congrArg (fun t : Scheduler => { t with signalled, journal }) htold

/-- What the line of a file is queued as: a batch, each of whose entries carries the file and the
line. -/
def QueuedAs (path : Path) (base : Nat) (line : List String × List QueuedCommand) : Prop :=
  ∃ first group, base ≤ first ∧ Batch first line.2 ∧
    ∀ q ∈ line.2, q.command.file = some path ∧ q.command.line = some { args := line.1, group }

theorem QueuedAs.mono {base lower : Nat} {line : List String × List QueuedCommand}
    (h : QueuedAs path base line) (hle : lower ≤ base) : QueuedAs path lower line := by
  obtain ⟨first, group, hbase, hbatch, hentries⟩ := h
  exact ⟨first, group, Nat.le_trans hle hbase, hbatch, hentries⟩

theorem exists_groups_queueLines (path : Path) (lines : List (List String)) (s : Scheduler) :
    ∃ queued : List (List String × List QueuedCommand),
      queued.map Prod.fst = lines.filter Configuration.asksToRun ∧
      (∀ line ∈ queued, QueuedAs path s.nextId line) ∧
      s.queueLines path lines =
        { s with nextId := (s.queueLines path lines).nextId }.pushAll (queued.flatMap Prod.snd) ∧
      Submitted s.nextId (s.queueLines path lines).nextId (queued.flatMap Prod.snd) ∧
      (Queue.groups path (queued.flatMap Prod.snd)).map Queue.NumberedGroup.group =
        queued.map fun line => ⟨line.2.map QueuedCommand.id, line.1⟩ := by
  induction lines generalizing s with
  | nil => exact ⟨[], rfl, by simp, rfl, Submitted.nil (Nat.le_refl _), rfl⟩
  | cons args rest ih =>
      cases hasks : Configuration.asksToRun args with
      | false =>
          rw [queueLines_cons_of_not_asksToRun hasks, List.filter_cons_of_neg (by simp [hasks])]
          exact ih s
      | true =>
          obtain ⟨c, entries, nextId, hargs, hrun, hentries, hqueue⟩ :=
            queueLine_eq_of_asksToRun hasks path s
          have hfront := submitted_entriesOf hargs hrun hentries
          obtain ⟨first, hfirst, hbatch⟩ := exists_batch_entriesOf hfront.toFresh hentries
          have hcarry : ∀ q ∈ entries, q.command.file = some path ∧
              q.command.line = some { args, group := s.nextId } := fun q hq =>
            ⟨(of_mem_entriesOf hargs hrun hentries hq).1,
              (of_mem_entriesOf hargs hrun hentries hq).2.1⟩
          obtain ⟨queued, hlines, hqueued, hpushed, hback, hgroups⟩ := ih (s.queueLine path args)
          rw [queueLines_cons_of_asksToRun hasks, List.filter_cons_of_pos hasks]
          have hnext : (s.queueLine path args).nextId = nextId := by rw [hqueue]; rfl
          rw [hnext] at hqueued hback
          refine ⟨(args, entries) :: queued, ?_, ?_, ?_, hfront.append hback, ?_⟩
          · rw [List.map_cons, hlines]
          · rintro line hline
            rcases List.mem_cons.mp hline with rfl | hline
            · exact ⟨first, s.nextId, hfirst, hbatch, hcarry⟩
            · exact (hqueued line hline).mono hfront.le
          · rw [hpushed, hqueue]
            simp [pushAll]
          · have hne : entries ≠ [] := hbatch.ne_nil
            have hline : ∀ q ∈ entries, Queue.lineOf? path q =
                some { args, group := s.nextId } := fun q hq =>
              Queue.lineOf?_eq_some_iff.mpr
                ⟨(hcarry q hq).2, path, (hcarry q hq).1, Path.same_iff.mpr rfl⟩
            rw [List.flatMap_cons, groups_append_of_line hfront hback hne hline, List.map_cons,
              hgroups, List.map_cons]

theorem exists_addFile_eq (hup : s.shuttingDown = false)
    (hunwatched : s.watched.any (·.path.same path) = false) {tree : FileTree}
    {document : CommandFile.Document}
    (hdocument : CommandFile.Document.ofFile tree path = .ok document) (extraArgs : List String) :
    ∃ watched signalled, s.addFile tree path extraArgs =
      .ok ((linesWith document extraArgs).countP Configuration.asksToRun,
        { s.queueLines path (linesWith document extraArgs) with
          watched, signalled
          journal := (((linesWith document extraArgs).flatMap (answers s.listeners)).map
            fun notice => ⟨s.now, notice⟩).reverse ++ s.journal }) := by
  rw [addFile, hunwatched, hdocument]
  simp only [Bool.false_eq_true, if_false]
  rw [addLines_eq hup]
  dsimp only
  split
  · exact ⟨_, _, rfl⟩
  · exact ⟨_, _, rfl⟩

theorem exists_notifyChanged_of_fromFile_eq_nil (hnone : s.queue.fromFile path = [])
    {tree : FileTree} {document : CommandFile.Document}
    (hdocument : CommandFile.Document.ofFile tree path = .ok document) (extraArgs : List String) :
    ∃ u, s.notifyChanged tree path extraArgs = .ok u ∧
      u.queue = (s.queueLines path (linesWith document extraArgs)).queue ∧
      u.nextId = (s.queueLines path (linesWith document extraArgs)).nextId := by
  obtain ⟨u, hnotify, hbooks⟩ := exists_notifyChanged_eq_ok hdocument s extraArgs
  have hcleared : s.queue.cleared path (linesWith document extraArgs) = s.queue := by
    rw [Queue.cleared, hnone, ReloadPlan.between_nil]
    rfl
  obtain ⟨signalled, journal, hreload⟩ :=
    exists_reloadLines_eq path (linesWith document extraArgs) s
  rw [hnone, ReloadPlan.between_nil, hcleared] at hbooks
  have hqueue : (s.reloadLines path (linesWith document extraArgs)).books =
      (s.queueLines path (linesWith document extraArgs)).books := by
    rw [hreload]
    rfl
  have hsame := hbooks.trans hqueue
  exact ⟨u, hnotify, congrArg Books.queue hsame, congrArg Books.nextId hsame⟩

end Scheduler

namespace World

open Scheduler (QueuedAs answers linesWith)

/-- However a scheduler has been used, unless it is shutting down: when a command file is loaded
that is not watched yet, each of its lines, with the additional arguments, is dealt with once, in
the order of the file.  A line that is no command is reported once to every listener, and one that
asks for help or a dry run gets its text.  Every other line comes in as one batch, behind all that
is queued, that carries the line and the file; the answer says how many these are.  What comes in
depends on these lines only.  If nothing was queued for the file before, then reading it again would
have queued the same and taken the same ids. -/
theorem addFile_line_by_line (settings : SchedulerSettings) (catalog : Catalog)
    (listeners : List String) (acts : List Act) :
    let s := ((fresh settings catalog listeners).run acts).scheduler
    ∀ path, s.shuttingDown = false → s.watched.any (·.path.same path) = false →
      ∀ tree document, CommandFile.Document.ofFile tree path = .ok document → ∀ extraArgs,
      let lines := linesWith document extraArgs
      ∃ t, ∃ queued : List (List String × List QueuedCommand),
        s.addFile tree path extraArgs = .ok (queued.length, t) ∧
        queued.map Prod.fst = lines.filter Configuration.asksToRun ∧
        (∀ line ∈ queued, QueuedAs path s.nextId line) ∧
        t.queue.entries = s.queue.entries ++ queued.flatMap Prod.snd ∧
        t.queue.fromFile path = s.queue.fromFile path ++
          queued.map (fun line => ⟨line.2.map QueuedCommand.id, line.1⟩) ∧
        t.journal = ((lines.flatMap (answers s.listeners)).map fun notice =>
          ⟨s.now, notice⟩).reverse ++ s.journal ∧
        t = { s with
          queue := t.queue, nextId := t.nextId, watched := t.watched, signalled := t.signalled
          journal := t.journal } ∧
        (∀ tree' document' extraArgs', CommandFile.Document.ofFile tree' path = .ok document' →
          (linesWith document' extraArgs').filter Configuration.asksToRun =
            lines.filter Configuration.asksToRun →
          ∃ t', s.addFile tree' path extraArgs' = .ok (queued.length, t') ∧
            t'.queue = t.queue ∧ t'.nextId = t.nextId) ∧
        (s.queue.fromFile path = [] →
          ∃ u, s.notifyChanged tree path extraArgs = .ok u ∧
            u.queue = t.queue ∧ u.nextId = t.nextId) := by
  intro s path hup hunwatched tree document hdocument extraArgs lines
  have h := (balanced_fresh settings catalog listeners).run acts
  have hlined : Lined s.queue.entries :=
    lined_queue_run settings catalog listeners acts
  have hlt : ∀ q ∈ s.queue.entries, q.id < s.nextId := fun _ => h.lt_nextId_of_mem_queue
  obtain ⟨queued, hlines, hqueued, hpushed, hnew, hgroups⟩ :=
    Scheduler.exists_groups_queueLines path lines s
  have hlength : (linesWith document extraArgs).countP Configuration.asksToRun =
      queued.length := by
    rw [List.countP_eq_length_filter, ← hlines, List.length_map]
  have hqueue : (s.queueLines path lines).queue =
      (queued.flatMap Prod.snd).foldl Queue.push s.queue := by
    rw [hpushed]
    rfl
  have hentries : (s.queueLines path lines).queue.entries =
      s.queue.entries ++ queued.flatMap Prod.snd := by
    rw [hqueue]
    refine Queue.entries_foldl_push_of_lt hnew.ascending fun q hq e he => ?_
    exact Nat.lt_of_lt_of_le (hlt q hq) (hnew.bounds e he).1
  obtain ⟨watched, signalled, hload⟩ :=
    Scheduler.exists_addFile_eq hup hunwatched hdocument extraArgs
  rw [hlength] at hload
  refine ⟨_, queued, hload, hlines, hqueued, hentries, ?_, rfl, ?_, ?_, ?_⟩
  · change (s.queueLines path lines).queue.fromFile path = _
    rw [Queue.fromFile_eq, hentries, hlined.groups_append hlt hnew.le_group, List.map_append,
      hgroups]
    rfl
  · rw [hpushed]
    rfl
  · intro tree' document' extraArgs' hdocument' hsame
    obtain ⟨watched', signalled', hload'⟩ :=
      Scheduler.exists_addFile_eq hup hunwatched hdocument' extraArgs'
    have hsame' : s.queueLines path (linesWith document' extraArgs') = s.queueLines path lines := by
      rw [Scheduler.queueLines, hsame]
      rfl
    rw [List.countP_eq_length_filter, hsame, ← hlines, List.length_map, hsame'] at hload'
    exact ⟨_, hload', rfl, rfl⟩
  · intro hnone
    exact Scheduler.exists_notifyChanged_of_fromFile_eq_nil hnone hdocument extraArgs

theorem addFile_line_by_line_of_mixed :
    let path : Path := ⟨"cmds.txt"⟩
    let tree : FileTree := FileTree.write {} path
      "smoke\nflaky --shard-count 0\nshow --help\nflaky\n".toUTF8.toList
    let s := ((fresh {} ∅ ["log"]).run []).scheduler
    ∃ t u, s.addFile tree path ["--loop"] = .ok (2, t) ∧
      (t.queue.fromFile path).map LineGroup.args = [["smoke", "--loop"], ["flaky", "--loop"]] ∧
      t.journal.map JournalEntry.notice =
        [.printed (Usage.ofArgs ["show", "--help", "--loop"]),
          .failed "log" ["flaky", "--shard-count", "0", "--loop"]
            "Invalid value '0' for option --shard-count"] ∧
      s.notifyChanged tree path ["--loop"] = .ok u ∧ u.queue = t.queue ∧ u.nextId = t.nextId := by
  intro path tree s
  let lines := [["smoke", "--loop"], ["flaky", "--shard-count", "0", "--loop"],
    ["show", "--help", "--loop"], ["flaky", "--loop"]]
  have hlines : linesOf? tree path ["--loop"] = some lines := by decide +kernel
  have hruns : lines.filter Configuration.asksToRun =
      [["smoke", "--loop"], ["flaky", "--loop"]] := by
    decide +kernel
  have hanswers : lines.flatMap (answers ["log"]) =
      [.failed "log" ["flaky", "--shard-count", "0", "--loop"]
          "Invalid value '0' for option --shard-count",
        .printed (Usage.ofArgs ["show", "--help", "--loop"])] := by
    decide +kernel
  obtain ⟨document, hdocument, hread⟩ := linesOf?_eq_some_iff.mp hlines
  obtain ⟨t, queued, hload, hqueued, -, -, hgroups, htold, -, -, hagree⟩ :=
    addFile_line_by_line {} ∅ ["log"] [] path (by decide) (by decide) tree document hdocument
      ["--loop"]
  obtain ⟨u, hnotify, hqueue, hnext⟩ := hagree (by decide)
  rw [← hread, hruns] at hqueued
  have hlength : queued.length = 2 := by
    rw [← List.length_map (f := Prod.fst), hqueued]
    rfl
  refine ⟨t, u, hlength ▸ hload, ?_, ?_, hnotify, hqueue, hnext⟩
  · rw [hgroups, List.map_append, List.map_map]
    exact hqueued
  · rw [htold, ← hread]
    change List.map _ ((List.map _ (lines.flatMap (answers ["log"]))).reverse ++ []) = _
    rw [hanswers]
    rfl

end World

end DeviceLab
