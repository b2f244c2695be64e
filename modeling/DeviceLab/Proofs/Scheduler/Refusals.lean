import DeviceLab.Proofs.Scheduler.Attempts
import DeviceLab.Proofs.Scheduler.Places

namespace DeviceLab

/-- Entries as one submission queues them: numbered one after the other from `first` on, and alike
in how and where and how often they run. -/
structure Batch (first : Nat) (entries : List QueuedCommand) : Prop where
  ne_nil : entries ≠ []
  ids : entries.map QueuedCommand.id = List.range' first entries.length
  runnable : ∀ q ∈ entries, q.mode.isRunnable = true
  alike : ∀ q ∈ entries, ∀ e ∈ entries, q.mode = e.mode ∧ q.selection = e.selection ∧
    q.minLoopTime = e.minLoopTime ∧ q.command.expected = e.command.expected

namespace Scheduler

variable {s t : Scheduler} {args : List String}

theorem exists_batch_entriesOf {c : Configuration} {origin : Origin} {entries : List QueuedCommand}
    {nextId : Nat} (hfresh : Fresh s.nextId nextId entries)
    (h : s.entriesOf c args origin = .ok (entries, nextId)) :
    ∃ first, s.nextId ≤ first ∧ Batch first entries := by
  have hnonempty := entriesOf_ne_nil h
  have hrunnable : ∀ q ∈ entries, q.mode.isRunnable = true := fun q hq =>
    RunMode.isRunnable_iff.mpr (hfresh.mode q hq)
  rcases entriesOf_cases h with ⟨rfl, -⟩ | ⟨count, shards, hsplit, rfl, -⟩
  · refine ⟨s.nextId, Nat.le_refl _, hnonempty, ?_, hrunnable, by simp⟩
    rw [List.map_singleton]
    exact congrArg (fun id => [id]) (s.unsplitCommand_id c args origin)
  · refine ⟨s.nextId + 1, Nat.le_succ _, hnonempty, ?_, hrunnable, ?_⟩
    · rw [List.map_map, List.length_map]
      exact Command.map_id_split hsplit
    · obtain ⟨whole, parts, -, -, rfl⟩ := Command.of_split_eq_ok hsplit
      intro q hq e he
      obtain ⟨shard, hshard, rfl⟩ := List.mem_map.mp hq
      obtain ⟨other, hother, rfl⟩ := List.mem_map.mp he
      obtain ⟨_, _, -, rfl⟩ := Command.of_mem_number hshard
      obtain ⟨_, _, -, rfl⟩ := Command.of_mem_number hother
      exact ⟨rfl, rfl, rfl, rfl⟩

theorem addCommand_cases {queued : Bool} (h : s.addCommand args = .ok (queued, t)) :
    (queued = false ∧ ∃ notices, t = s.noteAll notices) ∨
    queued = true ∧ ∃ first new nextId, s.nextId ≤ first ∧ Batch first new ∧
      t = ({ s with nextId }.pushAll new).signal := by
  rcases addFrom_cases (addFrom_of_addCommand h) with ⟨-, hqueued, rfl⟩ | ⟨-, u, hsubmit, rfl⟩
  · exact .inl ⟨hqueued, [], rfl⟩
  · rcases submit_cases hsubmit with
      ⟨rfl, text, rfl⟩ | ⟨rfl, entries, nextId, hprepare, hnew, rfl⟩
    · exact .inl ⟨rfl, [.printed text], rfl⟩
    · obtain ⟨c, -, -, hentries⟩ := prepare_queued hprepare
      obtain ⟨first, hle, hbatch⟩ := exists_batch_entriesOf hnew.toFresh hentries
      exact .inr ⟨rfl, first, entries, nextId, hle, hbatch, rfl⟩

theorem addFile_of_error {tree : FileTree} {path : Path} {extraArgs : List String}
    {error : SchedulerError} (h : s.addFile tree path extraArgs = .error error) :
    ∃ failure, CommandFile.Document.ofFile tree path = .error failure ∧
      error = failure.toError := by
  unfold addFile at h
  split at h
  · cases h
  · split at h
    · rename_i failure hfailure
      cases h
      exact ⟨failure, hfailure, rfl⟩
    · cases h

theorem entries_foldl_push_of_batch {queue : Queue} {first : Nat} {new : List QueuedCommand}
    (hbatch : Batch first new) (hlt : ∀ q ∈ queue.entries, q.id < first) :
    (new.foldl Queue.push queue).entries = queue.entries ++ new := by
  refine Queue.entries_foldl_push_of_lt (hbatch.ids ▸ List.pairwise_lt_range') fun p hp q hq => ?_
  have hold : p.id < first := hlt p hp
  have hnew : q.id ∈ List.range' first new.length := hbatch.ids ▸ List.mem_map_of_mem hq
  rw [List.mem_range'_1] at hnew
  omega

theorem execCommand_of_error {listener : String} {d : Device} {error : SchedulerError}
    (h : (s.execCommand listener d args).1 = .error error) :
    (s.execCommand listener d args).2 =
      { s with pool := s.pool.release d .available, signalled := true } := by
  have hrelease : s.release d .available =
      { s with pool := s.pool.release d .available, signalled := true } := by
    rw [release, if_pos (Pool.returnState_available d)]
    rfl
  rcases s.execCommand_refused_or_taken listener d args with ⟨error', heq⟩ | ⟨-, c, -, heq⟩
  · rw [heq]
    exact hrelease
  · rw [heq] at h
    cases h

end Scheduler

namespace Attempt

variable {ε α : Type} {f : Scheduler → Except ε (α × Scheduler)} {s t : Scheduler}

theorem of_whole_error {error : ε} (h : (whole f).run s = .error error t) :
    t = s ∧ f s = .error error := by
  rw [run_whole] at h
  split at h
  · rename_i hf
    cases h
    exact ⟨rfl, hf⟩
  · cases h

theorem of_whole_ok {a : α} (h : (whole f).run s = .ok a t) : f s = .ok (a, t) := by
  rw [run_whole] at h
  split at h
  · cases h
  · rename_i hf
    cases h
    exact hf

end Attempt

namespace World

theorem Balanced.lt_nextId_of_mem_ids {w : World} (h : w.Balanced) {id : Nat} (hid : id ∈ w.ids) :
    id < w.scheduler.nextId := by
  obtain ⟨q, hq, rfl⟩ := h.mem_ids_iff.mp hid
  exact h.orderly.lt_nextId q hq

theorem Balanced.nextId_le_run {w : World} (h : w.Balanced) (acts : List Act) :
    w.scheduler.nextId ≤ (w.run acts).scheduler.nextId := by
  induction acts generalizing w with
  | nil => exact Nat.le_refl _
  | cons a rest ih => exact Nat.le_trans (h.nextId_le_act a) (ih (h.act a))

/-- However a scheduler has been used: an operation that fails leaves it exactly as it was, also
where it has begun to take ids or to queue lines, and a command that is not queued leaves no more
than notices.  Adding a file fails only where the file cannot be read.  A direct execution that is
refused gives its device back as free, and changes nothing else.  A command that is queued lines up
behind all others in a batch with new ids, and changes nothing else. -/
theorem refused_without_trace (settings : SchedulerSettings) (catalog : Catalog)
    (listeners : List String) (acts : List Act) :
    let start := fresh settings catalog listeners
    let w := start.run acts
    let s := w.scheduler
    (∀ args error t, (Attempt.addCommand args).run s = .error error t → t = s) ∧
    (∀ args t, (Attempt.addCommand args).run s = .ok false t → ∃ notices, t = s.noteAll notices) ∧
    (∀ tree path extraArgs error t, (Attempt.addFile tree path extraArgs).run s = .error error t →
      t = s ∧ ∃ failure, CommandFile.Document.ofFile tree path = .error failure ∧
        error = failure.toError) ∧
    (∀ tree path extraArgs error t,
      (Attempt.notifyChanged tree path extraArgs).run s = .error error t → t = s) ∧
    (∀ listener args error, ∀ d ∈ w.held, (s.execCommand listener d args).1 = .error error →
      let pool := s.pool.release d .available
      (s.execCommand listener d args).2 = { s with pool, signalled := true } ∧
      pool.stateOf? d.serial = some .free ∧ pool.serials = s.pool.serials ∧
      pool.slots.filter (·.serial != d.serial) = s.pool.slots.filter (·.serial != d.serial)) ∧
    ∀ args t, (Attempt.addCommand args).run s = .ok true t →
      ∃ first new, Batch first new ∧ t.queue.entries = s.queue.entries ++ new ∧
        t = { s with queue := t.queue, nextId := t.nextId, signalled := true } ∧
        ∀ before after, acts = before ++ after → (start.run before).scheduler.nextId ≤ first ∧
          ∀ id ∈ (start.run before).ids, id < first := by
  intro start w s
  have hstart : start.Balanced := balanced_fresh settings catalog listeners
  have h : w.Balanced := hstart.run acts
  refine ⟨?_, ?_, ?_, ?_, ?_, ?_⟩
  · intro args error t hrun
    rw [Attempt.addCommand_eq] at hrun
    exact (Attempt.of_whole_error hrun).1
  · intro args t hrun
    rw [Attempt.addCommand_eq] at hrun
    rcases Scheduler.addCommand_cases (Attempt.of_whole_ok hrun) with ⟨-, hnotices⟩ | ⟨hqueued, -⟩
    · exact hnotices
    · cases hqueued
  · intro tree path extraArgs error t hrun
    rw [Attempt.addFile_eq] at hrun
    exact (Attempt.of_whole_error hrun).imp_right Scheduler.addFile_of_error
  · intro tree path extraArgs error t hrun
    rw [Attempt.notifyChanged_eq] at hrun
    exact (Attempt.of_whole_error hrun).1
  · intro listener args error d hd hrefused
    have hmem := h.tallies.lends.serial_mem (List.mem_append_left _ hd)
    refine ⟨Scheduler.execCommand_of_error hrefused, ?_,
      Pool.map_serial_put_of_mem _ _ hmem, Pool.filter_release ..⟩
    rw [Pool.stateOf?_release, Pool.returnState_available]
  · intro args t hrun
    rw [Attempt.addCommand_eq] at hrun
    rcases Scheduler.addCommand_cases (Attempt.of_whole_ok hrun) with
      ⟨hqueued, -⟩ | ⟨-, first, new, nextId, hle, hbatch, rfl⟩
    · cases hqueued
    · refine ⟨first, new, hbatch, ?_, rfl, ?_⟩
      · refine Scheduler.entries_foldl_push_of_batch hbatch fun q hq => ?_
        exact Nat.lt_of_lt_of_le (h.lt_nextId_of_mem_queue hq) hle
      · rintro before after rfl
        have hbefore : (start.run before).Balanced := hstart.run before
        have hnext := hbefore.nextId_le_run after
        rw [← run_append] at hnext
        have hfirst : (start.run before).scheduler.nextId ≤ first := Nat.le_trans hnext hle
        exact ⟨hfirst, fun id hid => Nat.lt_of_lt_of_le (hbefore.lt_nextId_of_mem_ids hid) hfirst⟩

theorem refused_without_trace_of_no_name :
    let d : Device := { serial := "SER1" }
    let s := ((fresh {} ∅ []).run [.register d, .lease {}]).scheduler
    s.pool.stateOf? "SER1" = some .allocated ∧
    (s.execCommand "watch" d []).1 = .error (.configuration .missingName) ∧
    (s.pool.release d .available).stateOf? "SER1" = some .free ∧
    ∃ t first new, (Attempt.addCommand ["smoke"]).run s = .ok true t ∧ Batch first new ∧
      t.queue.entries = s.queue.entries ++ new := by
  intro d s
  obtain ⟨-, -, -, -, hexec, hadd⟩ := refused_without_trace {} ∅ [] [.register d, .lease {}]
  have hrefused : (s.execCommand "watch" d []).1 = .error (.configuration .missingName) := by decide
  obtain ⟨-, hfree, -⟩ := hexec "watch" [] _ d (by decide) hrefused
  have hqueued : ∃ t, (Attempt.addCommand ["smoke"]).run s = .ok true t := ⟨_, rfl⟩
  obtain ⟨t, hqueued⟩ := hqueued
  obtain ⟨first, new, hbatch, hentries, -⟩ := hadd ["smoke"] t hqueued
  exact ⟨by decide, hrefused, hfree, t, first, new, hqueued, hbatch, hentries⟩

end World

end DeviceLab
