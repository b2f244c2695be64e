import DeviceLab.Proofs.Command.Shards
import DeviceLab.Proofs.Scheduler.Books

namespace DeviceLab

namespace Scheduler

variable {s t : Scheduler} {args : List String} {origin : Origin}

theorem unsplitCommand_id (s : Scheduler) (c : Configuration) (args : List String)
    (origin : Origin) : (s.unsplitCommand c args origin).1.id = s.nextId := by
  cases origin <;> rfl

theorem entriesOf_cases {c : Configuration} {entries : List QueuedCommand} {nextId : Nat}
    (h : s.entriesOf c args origin = .ok (entries, nextId)) :
    let submitted := s.unsplitCommand c args origin
    let wrap (command : Command) : QueuedCommand :=
      { command, selection := submitted.2, mode := c.options.runMode
        minLoopTime := s.effectiveMinLoopTime c.options }
    entries = [wrap submitted.1] ∧ nextId = s.nextId + 1 ∨
    ∃ count shards, submitted.1.split s.catalog count (s.nextId + 1) = .ok (some shards) ∧
      entries = shards.map wrap ∧ nextId = s.nextId + 1 + shards.length := by
  unfold entriesOf at h
  cases hcount : c.options.shardCount with
  | none =>
      rw [hcount] at h
      cases h
      exact .inl ⟨rfl, rfl⟩
  | some count =>
      rw [hcount] at h
      obtain ⟨split, hsplit, hentries⟩ := bind_eq_ok_iff.mp h
      cases split with
      | none =>
          cases hentries
          exact .inl ⟨rfl, rfl⟩
      | some shards =>
          cases hentries
          exact .inr ⟨count, shards, hsplit, rfl, rfl⟩

theorem unsplitCommand_line (s : Scheduler) (c : Configuration) (args : List String)
    (origin : Origin) :
    (s.unsplitCommand c args origin).1.args = args ∧
      ∀ l, (s.unsplitCommand c args origin).1.line = some l →
        l = { args, group := s.nextId } := by
  cases origin with
  | fileLine path => exact ⟨rfl, fun l hl => (Option.some.inj hl).symm⟩
  | direct => exact ⟨rfl, fun l hl => by cases hl⟩
  | reschedule file selection => exact ⟨rfl, fun l hl => by cases hl⟩

theorem of_mem_entriesOf {c : Configuration} {entries : List QueuedCommand} {nextId : Nat}
    (hargs : Configuration.ofArgs args = .ok c) (hrun : c.options.runMode.isRunnable = true)
    (h : s.entriesOf c args origin = .ok (entries, nextId)) {q : QueuedCommand}
    (hq : q ∈ entries) :
    q.command.file = (s.unsplitCommand c args origin).1.file ∧
      q.command.line = (s.unsplitCommand c args origin).1.line ∧ q.RunsIfRead := by
  have hunsplit := (s.unsplitCommand_line c args origin).1
  rcases entriesOf_cases h with ⟨rfl, -⟩ | ⟨count, shards, hsplit, rfl, -⟩
  · obtain rfl := List.mem_singleton.mp hq
    refine ⟨rfl, rfl, fun read hread => ?_⟩
    change Configuration.ofArgs (s.unsplitCommand c args origin).1.args = .ok read at hread
    rw [hunsplit, hargs] at hread
    exact Except.ok.inj hread ▸ hrun
  · obtain ⟨shard, hshard, rfl⟩ := List.mem_map.mp hq
    obtain ⟨hfile, hline, hruns⟩ := Command.of_mem_split hsplit hshard
    exact ⟨hfile, hline, fun read hread => hruns c read (by rwa [hunsplit]) hrun hread⟩

theorem fresh_entriesOf {c : Configuration} {entries : List QueuedCommand} {nextId : Nat}
    (hrun : c.options.runMode.isRunnable = true)
    (h : s.entriesOf c args origin = .ok (entries, nextId)) : Fresh s.nextId nextId entries := by
  have hmode := RunMode.isRunnable_iff.mp hrun
  rcases entriesOf_cases h with ⟨rfl, rfl⟩ | ⟨count, shards, hsplit, rfl, rfl⟩
  · exact Fresh.singleton (s.unsplitCommand_id c args origin) hmode
  · rw [← List.length_map]
    refine Fresh.of_range (Nat.le_succ _) ?_ (by simpa using fun _ _ => hmode)
    rw [List.map_map, List.length_map]
    exact Command.map_id_split hsplit

theorem submitted_entriesOf {c : Configuration} {entries : List QueuedCommand} {nextId : Nat}
    (hargs : Configuration.ofArgs args = .ok c) (hrun : c.options.runMode.isRunnable = true)
    (h : s.entriesOf c args origin = .ok (entries, nextId)) :
    Submitted s.nextId nextId entries := by
  have hfresh := fresh_entriesOf hrun h
  have hline := (s.unsplitCommand_line c args origin).2
  refine ⟨hfresh, ?_, fun q hq l hl => ?_, fun q hq => (of_mem_entriesOf hargs hrun h hq).2.2⟩
  · cases hunsplit : (s.unsplitCommand c args origin).1.line with
    | none =>
        exact Lined.of_no_line fun q hq => (of_mem_entriesOf hargs hrun h hq).2.1.trans hunsplit
    | some line =>
        have hargs' : line.args = args := congrArg FileLine.args (hline line hunsplit)
        have hgroup : line.group = s.nextId := congrArg FileLine.group (hline line hunsplit)
        refine Lined.of_line (fun q hq => ⟨?_, hgroup.trans_le (hfresh.bounds q hq).1⟩) ?_
        · exact (of_mem_entriesOf hargs hrun h hq).2.1.trans hunsplit
        · rw [hargs']
          exact Configuration.asksToRun_iff.mpr ⟨c, hargs, hrun⟩
  · rw [(of_mem_entriesOf hargs hrun h hq).2.1] at hl
    rw [hline l hl]

theorem prepare_cases {prepared : Prepared} (h : s.prepare args origin = .ok (prepared, t)) :
    (∃ text, prepared = .printed text ∧ t = s) ∨
    ∃ entries nextId, prepared = .queued entries ∧ Submitted s.nextId nextId entries ∧
      t = { s with nextId } := by
  obtain ⟨c, hargs, h⟩ := bind_eq_ok_iff.mp h
  cases hmode : c.options.runMode with
  | help =>
      rw [hmode] at h
      cases h
      exact .inl ⟨_, rfl, rfl⟩
  | dryRun =>
      rw [hmode] at h
      cases h
      exact .inl ⟨_, rfl, rfl⟩
  | oneShot | loop =>
      rw [hmode] at h
      obtain ⟨⟨entries, nextId⟩, hentries, h⟩ := bind_eq_ok_iff.mp h
      cases h
      exact .inr ⟨entries, nextId, rfl, submitted_entriesOf hargs (by rw [hmode]; rfl) hentries,
        rfl⟩

theorem submit_cases {queued : Bool} (h : s.submit args origin = .ok (queued, t)) :
    (queued = false ∧ ∃ text, t = s.note (.printed text)) ∨
    queued = true ∧ ∃ entries nextId,
      s.prepare args origin = .ok (.queued entries, { s with nextId }) ∧
      Submitted s.nextId nextId entries ∧ t = { s with nextId }.pushAll entries := by
  obtain ⟨⟨prepared, next⟩, hprepare, hanswer⟩ := bind_eq_ok_iff.mp h
  rcases prepare_cases hprepare with ⟨text, rfl, rfl⟩ | ⟨entries, nextId, rfl, hnew, rfl⟩
  · cases hanswer
    exact .inl ⟨rfl, text, rfl⟩
  · cases hanswer
    exact .inr ⟨rfl, entries, nextId, hprepare, hnew, rfl⟩

theorem addFrom_cases {queued : Bool} (h : s.addFrom args origin = .ok (queued, t)) :
    (s.shuttingDown = true ∧ queued = false ∧ t = s) ∨
    s.shuttingDown = false ∧ ∃ u, s.submit args origin = .ok (queued, u) ∧
      t = if queued then u.signal else u := by
  unfold addFrom at h
  split at h
  · cases h
    exact .inl ⟨‹_›, rfl, rfl⟩
  · rename_i hup
    cases hsubmit : s.submit args origin with
    | error error => simp [hsubmit, Except.map] at h
    | ok answer =>
        rw [hsubmit] at h
        cases h
        exact .inr ⟨by simpa using hup, _, rfl, rfl⟩

theorem addFrom_of_addCommand {queued : Bool} (h : s.addCommand args = .ok (queued, t)) :
    s.addFrom args .direct = .ok (queued, t) := by
  unfold addCommand at h
  cases hadd : s.addFrom args .direct with
  | error error => simp [hadd, Except.mapError] at h
  | ok answer =>
      rw [hadd] at h
      cases h
      rfl

theorem addFile_cases {tree : FileTree} {path : Path} {extraArgs : List String} {count : Nat}
    (h : s.addFile tree path extraArgs = .ok (count, t)) :
    (s.watched.any (·.path.same path) = true ∧ count = 0 ∧ t = s) ∨
    s.watched.any (·.path.same path) = false ∧ ∃ document u,
      CommandFile.Document.ofFile tree path = .ok document ∧
      s.addLines path (linesWith document extraArgs) = (count, u) ∧
      t = if u.reload then
        { u with
          watched := enterWatched { path, extraArgs, included := document.included } u.watched }
        else u := by
  unfold addFile at h
  split at h
  · cases h
    exact .inl ⟨‹_›, rfl, rfl⟩
  · rename_i hunwatched
    split at h
    · cases h
    · cases h
      exact .inr ⟨by simpa using hunwatched, _, _, ‹_›, rfl, rfl⟩

theorem notifyChanged_cases {tree : FileTree} {path : Path} {extraArgs : List String}
    (h : s.notifyChanged tree path extraArgs = .ok t) :
    ∃ document, CommandFile.Document.ofFile tree path = .ok document ∧
      let plan := ReloadPlan.between (s.queue.fromFile path) (linesWith document extraArgs)
      (plan.isEmpty = true ∧ t = s.updateWatched path extraArgs document.included) ∨
      plan.isEmpty = false ∧
        t = ((reloadLines path { s with queue := plan.remove.foldl Queue.erase s.queue }
          plan.add).updateWatched path extraArgs document.included).signal := by
  unfold notifyChanged at h
  split at h
  · cases h
  · refine ⟨_, ‹_›, ?_⟩
    simp only at h
    split at h
    · cases h
      exact .inl ⟨‹_›, rfl⟩
    · rename_i hsome
      cases h
      exact .inr ⟨by simpa using hsome, rfl⟩

theorem grows_submit {queued : Bool} (h : s.submit args origin = .ok (queued, t)) :
    s.books.Grows t.books := by
  rcases submit_cases h with ⟨-, text, rfl⟩ | ⟨-, entries, nextId, -, hnew, rfl⟩
  · exact Books.Grows.refl _
  · exact ⟨entries, hnew, rfl⟩

theorem grows_addFrom {queued : Bool} (h : s.addFrom args origin = .ok (queued, t)) :
    s.books.Grows t.books := by
  rcases addFrom_cases h with ⟨-, -, rfl⟩ | ⟨-, u, hsubmit, rfl⟩
  · exact Books.Grows.refl _
  · have hgrows := grows_submit hsubmit
    cases queued <;> exact hgrows

theorem grows_addCommand {queued : Bool} (h : s.addCommand args = .ok (queued, t)) :
    s.books.Grows t.books :=
  grows_addFrom (addFrom_of_addCommand h)

theorem grows_addLines (path : Path) (s : Scheduler) (lines : List (List String)) :
    s.books.Grows (s.addLines path lines).2.books := by
  induction lines generalizing s with
  | nil => exact Books.Grows.refl _
  | cons args rest ih =>
      rw [addLines]
      cases hadd : s.addFrom args (.fileLine path) with
      | error error => simpa using ih (s.reportFailed args error.message)
      | ok answer => exact (grows_addFrom hadd).trans (ih answer.2)

theorem grows_addFile {tree : FileTree} {path : Path} {extraArgs : List String} {count : Nat}
    (h : s.addFile tree path extraArgs = .ok (count, t)) : s.books.Grows t.books := by
  rcases addFile_cases h with ⟨-, -, rfl⟩ | ⟨-, document, u, -, hlines, rfl⟩
  · exact Books.Grows.refl _
  · have hgrows := s.grows_addLines path (linesWith document extraArgs)
    rw [hlines] at hgrows
    split <;> exact hgrows

theorem grows_reloadLines (path : Path) (s : Scheduler) (lines : List (List String)) :
    s.books.Grows (s.reloadLines path lines).books := by
  induction lines generalizing s with
  | nil => exact Books.Grows.refl _
  | cons args rest ih =>
      rw [reloadLines]
      cases hsubmit : s.submit args (.fileLine path) with
      | error error => simpa using ih (s.reportRefused args error)
      | ok answer => exact (grows_submit hsubmit).trans (ih answer.2)

theorem grows_notifyChanged {tree : FileTree} {path : Path} {extraArgs : List String}
    (h : s.notifyChanged tree path extraArgs = .ok t) :
    ∃ gone : List Nat,
      { s.books with queue := gone.foldl Queue.erase s.queue }.Grows t.books := by
  obtain ⟨document, -, ⟨-, rfl⟩ | ⟨-, rfl⟩⟩ := notifyChanged_cases h
  · exact ⟨[], Books.Grows.refl _⟩
  · let plan := ReloadPlan.between (s.queue.fromFile path) (linesWith document extraArgs)
    let cleared := { s with queue := plan.remove.foldl Queue.erase s.queue }
    exact ⟨plan.remove, grows_reloadLines path cleared plan.add⟩

/-- What comes back to the queue when the channel is worked off.  While the scheduler is shutting
down nothing does. -/
def returning (s : Scheduler) : List QueuedCommand :=
  if s.shuttingDown then [] else s.books.requeues

theorem returning_of_shuttingDown (h : s.shuttingDown = true) : s.returning = [] :=
  if_pos h

theorem returning_of_not_shuttingDown (h : s.shuttingDown = false) :
    s.returning = s.books.requeues := by
  rw [returning, h]
  rfl

theorem returning_sublist (s : Scheduler) : s.returning.Sublist s.books.requeues := by
  cases hdown : s.shuttingDown with
  | true =>
      rw [returning_of_shuttingDown hdown]
      exact List.nil_sublist _
  | false =>
      rw [returning_of_not_shuttingDown hdown]

theorem grows_handle_reschedule (s : Scheduler) (request : FollowUp) :
    s.books.Grows (s.handle (.reschedule request)).books := by
  rw [handle]
  split
  · simpa using Books.Grows.refl s.books
  · rename_i hsubmit
    exact grows_submit hsubmit

theorem books_foldl_handle (events : List Event) (s : Scheduler) :
    ∃ nextId new pushed, Submitted s.nextId nextId new ∧
      pushed.Perm
        ((if s.shuttingDown then [] else events.filterMap Event.requeued?) ++ new) ∧
      (events.foldl handle s).books = s.books.enter pushed nextId := by
  induction events generalizing s with
  | nil => exact ⟨s.nextId, [], [], Submitted.nil (Nat.le_refl _), by simp, rfl⟩
  | cons event rest ih =>
      rw [List.foldl_cons]
      cases event with
      | finished id outcome => exact ih s
      | requeue entry =>
          cases hdown : s.shuttingDown with
          | true =>
              have hs : s.handle (.requeue entry) = s := by simp [handle, hdown]
              rw [hs]
              simpa [hdown] using ih s
          | false =>
              have hs : s.handle (.requeue entry) = s.pushAll [entry] := by simp [handle, hdown]
              obtain ⟨nextId, new, pushed, hnew, hperm, hbooks⟩ := ih (s.pushAll [entry])
              refine ⟨nextId, new, entry :: pushed, hnew, ?_, ?_⟩
              · have hdown' : (s.pushAll [entry]).shuttingDown = false := hdown
                simpa [hdown', Event.requeued?] using hperm
              · rw [hs, hbooks, books_pushAll]
                rfl
      | reschedule request =>
          obtain ⟨older, holder, hnext⟩ := s.grows_handle_reschedule request
          have hdown : (s.handle (.reschedule request)).shuttingDown = s.shuttingDown :=
            congrArg Books.shuttingDown hnext
          obtain ⟨nextId, new, pushed, hnew, hperm, hbooks⟩ :=
            ih (s.handle (.reschedule request))
          refine ⟨nextId, older ++ new, older ++ pushed, holder.append hnew, ?_, ?_⟩
          · rw [hdown] at hperm
            refine (hperm.append_left older).trans ?_
            rw [← List.append_assoc, ← List.append_assoc]
            exact List.perm_append_comm.append_right new
          · rw [hbooks, hnext, Books.enter, Books.enter, Books.enter, List.foldl_append]

theorem exists_books_receive (s : Scheduler) :
    ∃ nextId new pushed, Submitted s.nextId nextId new ∧
      pushed.Perm (s.returning ++ new) ∧
      s.receive.books = { s.books with requeues := [] }.enter pushed nextId :=
  books_foldl_handle s.channel { s with channel := [] }

end Scheduler

end DeviceLab
