import DeviceLab.Proofs.Scheduler.Notices
import DeviceLab.Proofs.Scheduler.Provenance

namespace DeviceLab

namespace World

variable {name serial : String} {args : List String}

theorem exists_told (w : World) (a : Act) :
    ∃ told, (w.act a).scheduler.notices = told ++ w.scheduler.notices ∧
      ∀ name args serial, .invoked name args serial ∈ told →
        ∃ r ∈ w.scheduler.runs, (∃ invocation, a = .step r.id invocation) ∧
          r.entry.command.args = args ∧ r.device.serial = serial ∧
          ∃ c, Configuration.ofArgs args = .ok c ∧ c.name = name := by
  by_cases hstep : ∃ id invocation, a = .step id invocation
  · obtain ⟨id, invocation, rfl⟩ := hstep
    rw [act]
    split
    · exact ⟨[], rfl, by simp⟩
    · rename_i hstep
      obtain ⟨told, htold, hinvoked⟩ := Scheduler.exists_told_step hstep
      refine ⟨told, htold, fun name args serial hmem => ?_⟩
      obtain ⟨r, hr, rfl, hrun⟩ := hinvoked name args serial hmem
      exact ⟨r, hr, ⟨invocation, rfl⟩, hrun⟩
  · obtain ⟨answers, hnotices, hanswers⟩ :=
      notices_act (w := w) fun id invocation heq => hstep ⟨id, invocation, heq⟩
    refine ⟨answers, hnotices, fun name args serial hmem => ?_⟩
    exact absurd (hanswers _ hmem) Bool.false_ne_true

/-- However a scheduler is used, each time that something is invoked this is by a step of a run of
these arguments on this device; and they ask for a run, or the command of this run was executed
directly.  So a command that asks for help or for a dry run is not invoked when it was submitted by
hand or in a file, when its file was read again, when it was asked for by a run, or as a shard. -/
theorem invoked_to_run_or_exec (settings : SchedulerSettings) (catalog : Catalog)
    (listeners : List String) (acts : List Act) {newer older : List Notice}
    (h : ((fresh settings catalog listeners).run acts).scheduler.notices =
      newer ++ .invoked name args serial :: older) :
    let start := fresh settings catalog listeners
    ∃ before a after, acts = before ++ a :: after ∧
      (start.run before).scheduler.notices <:+ older ∧
      .invoked name args serial :: older <:+ ((start.run before).act a).scheduler.notices ∧
      ∃ r ∈ (start.run before).scheduler.runs, (∃ invocation, a = .step r.id invocation) ∧
        r.entry.command.args = args ∧ r.device.serial = serial ∧
        ∃ c, Configuration.ofArgs args = .ok c ∧ c.name = name ∧
          (c.options.runMode.isRunnable = true ∨ start.TakenUp before r.entry) := by
  intro start
  -- The notice is one of those that the last act has added, or was there before.
  induction acts using List.reverseRecOn generalizing newer with
  | nil => simp [fresh, run, Scheduler.notices] at h
  | append_singleton acts a ih =>
      obtain ⟨told, htold, hinvoked⟩ := (start.run acts).exists_told a
      rw [run_append] at h
      change ((start.run acts).act a).scheduler.notices = _ at h
      rcases List.append_eq_append_iff.mp (htold.symm.trans h) with
        ⟨between, -, hrest⟩ | ⟨between, hsplit, hrest⟩
      · obtain ⟨before, b, after, rfl, htells⟩ := ih hrest
        exact ⟨before, b, after ++ [a], by simp, htells⟩
      · rcases between with _ | ⟨first, between⟩
        · obtain ⟨before, b, after, rfl, htells⟩ := @ih [] hrest.symm
          exact ⟨before, b, after ++ [a], by simp, htells⟩
        · obtain ⟨rfl, rfl⟩ := List.cons.inj hrest
          obtain ⟨r, hr, hstep, rfl, hserial, c, hargs, hname⟩ :=
            hinvoked name args serial (by simp [hsplit])
          refine ⟨acts, a, [], rfl, List.suffix_append .., h ▸ List.suffix_append .., r, hr, hstep,
            rfl, hserial, c, hargs, hname, ?_⟩
          have hentry : r.entry ∈ (start.run acts).scheduler.books.entries :=
            Books.mem_entries_of_mem_runs hr
          exact (justified_run settings catalog listeners acts r.entry hentry).imp_left
            fun hruns => hruns c hargs

theorem invoked_to_run_or_exec_of_plain :
    let start := fresh {} ∅ []
    let acts : List Act :=
      [.register { serial := "SER1" }, .add ["smoke"], .start, .pass, .step 1 fun _ => {}]
    (start.run acts).scheduler.notices = [] ++ .invoked "smoke" ["smoke"] "SER1" :: [] ∧
      ∃ before a after, acts = before ++ a :: after ∧
        (start.run before).scheduler.notices <:+ [] ∧
        [.invoked "smoke" ["smoke"] "SER1"] <:+ ((start.run before).act a).scheduler.notices ∧
        ∃ r ∈ (start.run before).scheduler.runs, (∃ invocation, a = .step r.id invocation) ∧
          r.entry.command.args = ["smoke"] ∧ r.device.serial = "SER1" ∧
          ∃ c, Configuration.ofArgs ["smoke"] = .ok c ∧ c.name = "smoke" ∧
            (c.options.runMode.isRunnable = true ∨ start.TakenUp before r.entry) := by
  intro start acts
  have hinvoked : (start.run acts).scheduler.notices =
      [] ++ .invoked "smoke" ["smoke"] "SER1" :: [] := by
    decide
  exact ⟨hinvoked, invoked_to_run_or_exec {} ∅ [] acts hinvoked⟩

/-- A direct execution does invoke what only asks for a dry run. -/
theorem exists_invoked_dry_run :
    let d : Device := { serial := "SER1" }
    let w := (fresh {} ∅ []).run
      [.register d, .lease {}, .exec "spec" d ["smoke", "--dry-run"], .step 1 fun _ => {}]
    Notice.invoked "smoke" ["smoke", "--dry-run"] "SER1" ∈ w.scheduler.notices ∧
      ∃ c, Configuration.ofArgs ["smoke", "--dry-run"] = .ok c ∧
        c.options.runMode = .dryRun := by
  intro d w
  refine ⟨by decide, { name := "smoke", args := ["smoke", "--dry-run"]
                       options := { dryRun := true } }, by decide, rfl⟩

end World

end DeviceLab
