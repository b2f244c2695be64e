import DeviceLab.Proofs.Scheduler.Places

namespace DeviceLab

namespace Scheduler

variable {s t u : Scheduler} {path : Path}

theorem addLine_cases (path : Path) (s : Scheduler) (args : List String) :
    (s.addLine path args).books = s.books ∨
    ∃ entries, (s.addLine path args).books = s.books.enter entries (s.addLine path args).nextId ∧
      Submitted s.nextId (s.addLine path args).nextId entries ∧ entries ≠ [] ∧
      ∀ q ∈ entries, Queue.lineOf? path q = some { args, group := s.nextId } := by
  rw [addLine, addFrom]
  cases s.shuttingDown with
  | true => exact .inl rfl
  | false =>
      cases hasks : Configuration.asksToRun args with
      | true =>
          right
          obtain ⟨entries, t, hsubmit, hbooks, hentries, hne, hline⟩ :=
            submit_of_asksToRun hasks s path
          rw [hsubmit]
          exact ⟨entries, hbooks, hentries, hne, hline⟩
      | false =>
          left
          rcases submit_of_not_asksToRun hasks s (.fileLine path) with
            ⟨error, hsubmit⟩ | ⟨text, hsubmit⟩
          · rw [hsubmit]
            exact s.books_reportFailed args error.message
          · rw [hsubmit]
            rfl

theorem exists_books_addLines (path : Path) (lines : List (List String)) (s : Scheduler) :
    ∃ added, (lines.foldl (addLine path) s).books =
        s.books.enter added (lines.foldl (addLine path) s).nextId ∧
      Submitted s.nextId (lines.foldl (addLine path) s).nextId added ∧
      ((Queue.groups path added).map (·.group.args)).Sublist lines := by
  induction lines generalizing s with
  | nil => exact ⟨[], rfl, Submitted.nil (Nat.le_refl _), List.Sublist.refl _⟩
  | cons args rest ih =>
      obtain ⟨back, hafter, hback, hrest⟩ := ih (s.addLine path args)
      rw [List.foldl_cons]
      rcases s.addLine_cases path args with hbooks | ⟨front, hbooks, hfront, hne, hline⟩
      · have hnext : (s.addLine path args).nextId = s.nextId := congrArg Books.nextId hbooks
        rw [hbooks] at hafter
        rw [hnext] at hback
        exact ⟨back, hafter, hback, hrest.cons args⟩
      · refine ⟨front ++ back, ?_, hfront.append hback, ?_⟩
        · rw [hafter, hbooks]
          simp only [Books.enter, List.foldl_append]
        · rw [groups_append_of_line hfront hback hne hline]
          exact hrest.cons_cons args

/-- Whatever `t` has at hand for a line of the file at `path`, `s` had something at hand for it. -/
def KeepsLines (path : Path) (s t : Scheduler) : Prop :=
  ∀ e ∈ t.books.entries, ∀ line, Queue.lineOf? path e = some line →
    ∃ q ∈ s.books.entries, Queue.lineOf? path q = some line

theorem KeepsLines.refl (path : Path) (s : Scheduler) : KeepsLines path s s :=
  fun e he _ hline => ⟨e, he, hline⟩

theorem KeepsLines.trans (hst : KeepsLines path s t) (htu : KeepsLines path t u) :
    KeepsLines path s u := by
  intro e he line hline
  obtain ⟨q, hq, hqline⟩ := htu e he line hline
  exact hst q hq line hqline

/-- Whether all that is at hand for a line of the file at `path`, known by the number of its group,
is away from the queue: it runs, or waits to be put back. -/
def isAway (s : Scheduler) (path : Path) (n : Nat) : Bool :=
  s.books.entries.any (Queue.stands path n) && !s.queue.entries.any (Queue.stands path n)

theorem KeepsLines.exists_group (h : KeepsLines path s t) (hlined : Lined s.books.entries)
    {g : Queue.NumberedGroup} (hg : g ∈ Queue.groups path t.queue.entries)
    (hnot : s.isAway path g.number = false) :
    ∃ k ∈ Queue.groups path s.queue.entries, k.number = g.number ∧
      k.group.args = g.group.args := by
  obtain ⟨-, e, he, -, heline⟩ := Queue.of_mem_groups hg
  obtain ⟨q, hq, hqline⟩ := h e (Books.mem_entries_of_mem_queue he) _ heline
  have hstands : s.books.entries.any (Queue.stands path g.number) = true :=
    List.any_eq_true.mpr ⟨q, hq, Queue.stands_iff.mpr ⟨_, hqline, rfl⟩⟩
  have hqueued : s.queue.entries.any (Queue.stands path g.number) = true := by
    rwa [isAway, hstands, Bool.true_and, Bool.not_eq_false'] at hnot
  obtain ⟨p, hp, hpstands⟩ := List.any_eq_true.mp hqueued
  obtain ⟨k, hk, hnumber⟩ := List.mem_map.mp (Queue.mem_numbers_iff.mpr ⟨p, hp, hpstands⟩)
  refine ⟨k, hk, hnumber, ?_⟩
  obtain ⟨-, r, hr, -, hrline⟩ := Queue.of_mem_groups hk
  exact hlined.args_eq r (Books.mem_entries_of_mem_queue hr) q hq _ _
    (Queue.lineOf?_eq_some_iff.mp hrline).1 (Queue.lineOf?_eq_some_iff.mp hqline).1 hnumber

theorem KeepsLines.count_le (h : KeepsLines path s t) (hlined : Lined s.books.entries)
    (args : List String) :
    (Queue.groups path t.queue.entries).countP
        (fun g => g.group.args == args && !s.isAway path g.number) ≤
      ((s.queue.fromFile path).map LineGroup.args).count args := by
  let now := (Queue.groups path t.queue.entries).filter
    fun g => g.group.args == args && !s.isAway path g.number
  let before := (Queue.groups path s.queue.entries).filter fun g => g.group.args == args
  have hnodup : (now.map Queue.NumberedGroup.number).Nodup :=
    (Queue.nodup_numbers path t.queue.entries).sublist (List.filter_sublist.map _)
  have hsub : now.map Queue.NumberedGroup.number ⊆ before.map Queue.NumberedGroup.number := by
    intro n hn
    obtain ⟨g, hg, rfl⟩ := List.mem_map.mp hn
    obtain ⟨hg, hcounts⟩ := List.mem_filter.mp hg
    rw [Bool.and_eq_true, Bool.not_eq_true'] at hcounts
    obtain ⟨k, hk, hnumber, hargs⟩ := h.exists_group hlined hg hcounts.2
    refine List.mem_map.mpr ⟨k, List.mem_filter.mpr ⟨hk, ?_⟩, hnumber⟩
    rw [hargs]
    exact hcounts.1
  calc (Queue.groups path t.queue.entries).countP _
      = (now.map Queue.NumberedGroup.number).length := by
        rw [List.countP_eq_length_filter, List.length_map]
    _ ≤ (before.map Queue.NumberedGroup.number).length :=
        (List.subperm_of_subset hnodup hsub).length_le
    _ = ((s.queue.fromFile path).map LineGroup.args).count args := by
        rw [List.length_map, ← List.countP_eq_length_filter, Queue.fromFile_eq, List.count,
          List.countP_map, List.countP_map]
        rfl

end Scheduler

namespace World

variable {w : World} {a : Act} {path : Path} {lines : List (List String)}

def linesOf? (tree : FileTree) (path : Path) (extraArgs : List String) :
    Option (List (List String)) :=
  match CommandFile.Document.ofFile tree path with
  | .error _ => none
  | .ok document => some (Scheduler.linesWith document extraArgs)

theorem linesOf?_eq_some_iff {tree : FileTree} {extraArgs : List String} :
    linesOf? tree path extraArgs = some lines ↔
      ∃ document, CommandFile.Document.ofFile tree path = .ok document ∧
        lines = Scheduler.linesWith document extraArgs := by
  rw [linesOf?]
  cases CommandFile.Document.ofFile tree path <;> simp [eq_comm]

/-- The lines that an act reads from the file at `path`, each with the arguments that are added:
when the file is added, unless it is watched already, and when it is said to have changed. -/
def linesRead? (path : Path) (w : World) : Act → Option (List (List String))
  | .addFile tree p extraArgs =>
    if p.same path && !w.scheduler.watched.any (·.path.same p) then linesOf? tree p extraArgs
    else none
  | .notifyChanged tree p extraArgs => if p.same path then linesOf? tree p extraArgs else none
  | _ => none

/-- The lines that were read last from the file at `path`, and what the world was like right after
that. -/
def lastRead? (path : Path) : World → List Act → Option (List (List String) × World)
  | _, [] => none
  | w, a :: rest =>
    (lastRead? path (w.act a) rest).or ((w.linesRead? path a).map (·, w.act a))

def Act.addsFile : Act → Bool
  | .addFile .. => true
  | _ => false

/-- Of the acts that read the file at `path`, only the first may be one that adds it. -/
def AddsOnce (path : Path) (w : World) (acts : List Act) : Prop :=
  ∀ i, ∀ h : i < acts.length, acts[i].addsFile = true →
    ((w.run (acts.take i)).linesRead? path acts[i]).isSome = true →
      (lastRead? path w (acts.take i)).isNone = true

instance (path : Path) (w : World) (acts : List Act) : Decidable (AddsOnce path w acts) :=
  inferInstanceAs (Decidable (∀ i, ∀ _ : i < acts.length, _))

theorem AddsOnce.lastRead?_eq_none {before after : List Act}
    (h : AddsOnce path w (before ++ a :: after)) (hadds : a.addsFile = true)
    (hread : (w.run before).linesRead? path a = some lines) : lastRead? path w before = none := by
  have hbefore := h before.length (by simp)
  rw [List.getElem_append_right (Nat.le_refl _)] at hbefore
  simp only [List.take_left', Nat.sub_self, List.getElem_cons_zero] at hbefore
  exact Option.isNone_iff_eq_none.mp (hbefore hadds (Option.isSome_of_eq_some hread))

theorem exists_act_of_lastRead? {acts : List Act} {loaded : World}
    (h : lastRead? path w acts = some (lines, loaded)) :
    ∃ before a after, acts = before ++ a :: after ∧
      (w.run before).linesRead? path a = some lines ∧ loaded = (w.run before).act a ∧
      lastRead? path loaded after = none := by
  induction acts generalizing w with
  | nil => cases h
  | cons a rest ih =>
      rw [lastRead?, Option.or_eq_some_iff] at h
      rcases h with hrest | ⟨hnone, hfirst⟩
      · obtain ⟨before, b, after, rfl, hlines, hloaded, hnone⟩ := ih hrest
        exact ⟨a :: before, b, after, rfl, hlines, hloaded, hnone⟩
      · obtain ⟨read, hread, heq⟩ := Option.map_eq_some_iff.mp hfirst
        cases heq
        exact ⟨[], a, rest, rfl, hread, rfl, hnone⟩

theorem Submits.isSome_linesRead? {args : List String} {p : Path} {s t : Scheduler}
    (h : w.Submits a args (.fileLine p) s t) (hsame : p.same path = true) :
    (w.linesRead? path a).isSome = true := by
  cases h with
  | line hunwatched hdocument hlines hs =>
      simp [linesRead?, linesOf?, hsame, hunwatched, hdocument]
  | newLine hdocument hlines hnew hs => simp [linesRead?, linesOf?, hsame, hdocument]

theorem keepsLines_act (h : w.Balanced) (hnone : w.linesRead? path a = none) :
    Scheduler.KeepsLines path w.scheduler (w.act a).scheduler := by
  intro e he line hline
  obtain ⟨hcommand, file, hfile, hsame⟩ := Queue.lineOf?_eq_some_iff.mp hline
  by_cases hnew : w.scheduler.nextId ≤ e.id
  · obtain ⟨args, origin, s, t, hsubmits, hbrings⟩ := exists_submits_of_new h he hnew
    obtain ⟨p, rfl, hp⟩ := hbrings.comesFrom line hcommand
    obtain rfl : p = file := Option.some.inj (hp.symm.trans hfile)
    have hread := hsubmits.isSome_linesRead? hsame
    rw [hnone] at hread
    cases hread
  · rcases h.goes_on_or_enters he with ⟨q, hq, n, hafter⟩ | henters
    · refine ⟨q, hq, Queue.lineOf?_eq_some_iff.mpr ⟨?_, file, ?_, hsame⟩⟩
      · rw [← hafter.line_eq, hcommand]
      · rw [← hafter.file_eq, hfile]
    · exact absurd (henters.le h) hnew

theorem keepsLines_run (h : w.Balanced) {acts : List Act} (hnone : lastRead? path w acts = none) :
    Scheduler.KeepsLines path w.scheduler (w.run acts).scheduler := by
  induction acts generalizing w with
  | nil => exact Scheduler.KeepsLines.refl path w.scheduler
  | cons a rest ih =>
      rw [lastRead?, Option.or_eq_none_iff, Option.map_eq_none_iff] at hnone
      exact (keepsLines_act h hnone.2).trans (ih (h.act a) hnone.1)

theorem exists_fromFile_addFile (h : w.Balanced) (hlined : Lined w.scheduler.queue.entries)
    {tree : FileTree} {document : CommandFile.Document}
    (hunwatched : w.scheduler.watched.any (·.path.same path) = false)
    (hdocument : CommandFile.Document.ofFile tree path = .ok document) (extraArgs : List String) :
    ∃ new, (w.act (.addFile tree path extraArgs)).scheduler.queue.fromFile path =
        w.scheduler.queue.fromFile path ++ new ∧
      (new.map LineGroup.args).Sublist (Scheduler.linesWith document extraArgs) := by
  have hlt : ∀ q ∈ w.scheduler.queue.entries, q.id < w.scheduler.nextId :=
    fun _ => h.lt_nextId_of_mem_queue
  obtain ⟨added, hadded, hsubmitted, hlines⟩ := Scheduler.exists_books_addLines path
    (Scheduler.linesWith document extraArgs) w.scheduler
  have hbooks := books_act_addFile hunwatched hdocument extraArgs
  have hpushed : (w.act (.addFile tree path extraArgs)).scheduler.queue =
      added.foldl Queue.push w.scheduler.queue := congrArg Books.queue (hbooks.trans hadded)
  have hentries : (w.act (.addFile tree path extraArgs)).scheduler.queue.entries =
      w.scheduler.queue.entries ++ added := by
    rw [hpushed]
    refine Queue.entries_foldl_push_of_lt hsubmitted.ascending fun q hq e he => ?_
    exact Nat.lt_of_lt_of_le (hlt q hq) (hsubmitted.bounds e he).1
  refine ⟨(Queue.groups path added).map Queue.NumberedGroup.group, ?_, ?_⟩
  · rw [Queue.fromFile_eq, hentries, hlined.groups_append hlt hsubmitted.le_group, List.map_append]
    rfl
  · rw [List.map_map]
    exact hlines

/-- Right after a file has been read, no line is queued for more often than the file has it.  If it
has been added, then nothing may be queued for it before. -/
theorem count_le_of_linesRead? (h : w.Balanced) (hlined : Lined w.scheduler.queue.entries)
    (hread : w.linesRead? path a = some lines)
    (hfirst : a.addsFile = true → w.scheduler.queue.fromFile path = []) (args : List String) :
    (((w.act a).scheduler.queue.fromFile path).map LineGroup.args).count args ≤
      lines.count args := by
  cases a with
  | addFile tree p extraArgs =>
      rw [linesRead?, Option.ite_none_right_eq_some, Bool.and_eq_true, Bool.not_eq_true'] at hread
      obtain ⟨⟨hsame, hunwatched⟩, hread⟩ := hread
      obtain ⟨document, hdocument, rfl⟩ := linesOf?_eq_some_iff.mp hread
      obtain ⟨new, hqueued, hlines⟩ :=
        exists_fromFile_addFile h hlined hunwatched hdocument extraArgs
      rw [Queue.fromFile_of_same hsame, Queue.fromFile_of_same hsame, hfirst rfl] at hqueued
      rw [hqueued]
      exact hlines.count_le args
  | notifyChanged tree p extraArgs =>
      rw [linesRead?, Option.ite_none_right_eq_some] at hread
      obtain ⟨hsame, hread⟩ := hread
      obtain ⟨document, hdocument, rfl⟩ := linesOf?_eq_some_iff.mp hread
      have hlt : ∀ q ∈ w.scheduler.queue.entries, q.id < w.scheduler.nextId :=
        fun _ => h.lt_nextId_of_mem_queue
      obtain ⟨t, kept, new, added, hnotify, hreloads⟩ :=
        Scheduler.exists_reloads hlined hlt hdocument extraArgs
      have hact : (w.act (.notifyChanged tree p extraArgs)).scheduler = t := by
        rw [act, hnotify]
      rw [hact, ← Queue.fromFile_of_same hsame]
      exact hreloads.count_le args
  | _ => cases hread

section reachable

variable (settings : SchedulerSettings) (catalog : Catalog) (listeners : List String)
  (acts : List Act)

theorem fromFile_eq_nil_of_lastRead? {path : Path}
    (hnever : lastRead? path (fresh settings catalog listeners) acts = none) :
    ((fresh settings catalog listeners).run acts).scheduler.queue.fromFile path = [] := by
  apply Queue.fromFile_eq_nil
  intro q hq
  rw [Option.eq_none_iff_forall_not_mem]
  intro line hline
  obtain ⟨e, he, -⟩ := keepsLines_run (balanced_fresh settings catalog listeners) hnever q
    (Books.mem_entries_of_mem_queue hq) line hline
  simp [fresh, Scheduler.books, Books.entries] at he

/-- A file that is added once is never queued for more than its lines ask for, however the scheduler
is used: at any time the queue holds for each argument list at most as many groups as the file had
lines with it when it was read last.  Only what was away just after that is not counted. -/
theorem queued_at_most_as_read (path : Path) (lines : List (List String)) (loaded : World)
    (honce : AddsOnce path (fresh settings catalog listeners) acts)
    (hlast : lastRead? path (fresh settings catalog listeners) acts = some (lines, loaded))
    (args : List String) :
    (Queue.groups path
        ((fresh settings catalog listeners).run acts).scheduler.queue.entries).countP
      (fun g => g.group.args == args && !loaded.scheduler.isAway path g.number) ≤
        lines.count args := by
  let start := fresh settings catalog listeners
  obtain ⟨before, a, after, rfl, hread, rfl, hnone⟩ := exists_act_of_lastRead? hlast
  have hbefore : (start.run before).Balanced := (balanced_fresh settings catalog listeners).run _
  have hrun : start.run (before ++ a :: after) = ((start.run before).act a).run after := by
    rw [run_append]
    rfl
  have hlined : Lined (start.run before).scheduler.queue.entries :=
    lined_queue_run settings catalog listeners before
  have hlined' : Lined ((start.run before).act a).scheduler.books.entries := by
    have hread := lined_run settings catalog listeners (before ++ [a])
    rwa [run_append] at hread
  have hkeeps := keepsLines_run (hbefore.act a) hnone
  rw [hrun]
  calc _ ≤ ((((start.run before).act a).scheduler.queue.fromFile path).map
        LineGroup.args).count args := hkeeps.count_le hlined' args
    _ ≤ lines.count args := by
        refine count_le_of_linesRead? hbefore hlined hread (fun hadds => ?_) args
        exact fromFile_eq_nil_of_lastRead? settings catalog listeners before
          (honce.lastRead?_eq_none hadds hread)

end reachable

theorem queued_at_most_as_read_of_requeue :
    let path : Path := ⟨"cmds.txt"⟩
    let both : FileTree := FileTree.write {} path "smoke --loop\nflaky\n".toUTF8.toList
    let one : FileTree := FileTree.write {} path "smoke --loop\n".toUTF8.toList
    let start := fresh {} ∅ []
    let acts : List Act :=
      [.register { serial := "SER1", kind := .real }, .start, .addFile both path [], .pass,
        .step 1 fun _ => { ending := .lost "gone" }, .pass, .notifyChanged one path []]
    let smoke := ["smoke", "--loop"]
    AddsOnce path start acts ∧ ∃ loaded, lastRead? path start acts = some ([smoke], loaded) ∧
      (Queue.groups path (start.run acts).scheduler.queue.entries).countP
        (fun g => g.group.args == smoke && !loaded.scheduler.isAway path g.number) ≤
          [smoke].count smoke := by
  intro path both one start acts smoke
  have honce : AddsOnce path start acts := by decide +kernel
  have hlines : (lastRead? path start acts).map Prod.fst = some [smoke] := by decide +kernel
  obtain ⟨⟨lines, loaded⟩, hlast, rfl⟩ := Option.map_eq_some_iff.mp hlines
  exact ⟨honce, loaded, hlast, queued_at_most_as_read {} ∅ [] acts path _ loaded honce hlast _⟩

/-- A looping line that is on a device when its file is read again, and comes back after that: the
queue then holds it twice, though the file has it once. -/
theorem exists_queued_beyond_read :
    ¬ ∀ (settings : SchedulerSettings) (catalog : Catalog) (listeners : List String)
        (acts : List Act) (path : Path) (lines : List (List String)) (loaded : World),
      AddsOnce path (fresh settings catalog listeners) acts →
      lastRead? path (fresh settings catalog listeners) acts = some (lines, loaded) →
      ∀ args, ((((fresh settings catalog listeners).run acts).scheduler.queue.fromFile path).map
        LineGroup.args).count args ≤ lines.count args := by
  intro h
  let path : Path := ⟨"cmds.txt"⟩
  let tree : FileTree := FileTree.write {} path "smoke --loop\n".toUTF8.toList
  let invocation (_ : Configuration) : Script := { actions := [.pause 50], ending := .lost "gone" }
  let acts : List Act :=
    [.register { serial := "SER1", kind := .real }, .start, .addFile tree path [], .pass,
      .step 1 invocation, .notifyChanged tree path [], .step 1 invocation, .pass]
  let start := fresh {} ∅ []
  have honce : AddsOnce path start acts := by decide +kernel
  have hlines : (lastRead? path start acts).map Prod.fst = some [["smoke", "--loop"]] := by
    decide +kernel
  have htwice : (((start.run acts).scheduler.queue.fromFile path).map LineGroup.args).count
      ["smoke", "--loop"] = 2 := by
    decide +kernel
  obtain ⟨⟨lines, loaded⟩, hlast, rfl⟩ := Option.map_eq_some_iff.mp hlines
  have hle := h {} ∅ [] acts path _ loaded honce hlast ["smoke", "--loop"]
  rw [htwice] at hle
  exact absurd hle (by decide)

end World

end DeviceLab
