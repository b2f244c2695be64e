import DeviceLab.Proofs.Queue.Diff
import DeviceLab.Proofs.Scheduler.Provenance

namespace DeviceLab

open ReloadPlan (paid unpaid)

namespace Queue

variable {queue : Queue} {path : Path}

theorem mem_flatMap_ids_iff {gs : List NumberedGroup} (hgs : gs ⊆ groups path queue.entries)
    {q : QueuedCommand} (hq : q ∈ queue.entries) :
    q.id ∈ gs.flatMap (·.group.ids) ↔
      ∃ line, lineOf? path q = some line ∧ line.group ∈ gs.map NumberedGroup.number := by
  have hnodup : (queue.entries.map QueuedCommand.id).Nodup :=
    (List.pairwise_map.mpr queue.ascending).imp Nat.ne_of_lt
  rw [List.mem_flatMap]
  constructor
  · rintro ⟨g, hg, hid⟩
    rw [(of_mem_groups (hgs hg)).1] at hid
    obtain ⟨p, hp, heq⟩ := List.mem_map.mp hid
    obtain ⟨hp, hstands⟩ := List.mem_filter.mp hp
    obtain rfl := List.inj_on_of_nodup_map hnodup hp hq heq
    obtain ⟨line, hline, hgroup⟩ := stands_iff.mp hstands
    exact ⟨line, hline, hgroup ▸ List.mem_map_of_mem hg⟩
  · rintro ⟨line, hline, hmem⟩
    obtain ⟨g, hg, hgroup⟩ := List.mem_map.mp hmem
    refine ⟨g, hg, ?_⟩
    rw [(of_mem_groups (hgs hg)).1]
    apply List.mem_map_of_mem
    exact List.mem_filter.mpr ⟨hq, stands_iff.mpr ⟨line, hline, hgroup.symm⟩⟩

section remove

variable (queue path) (lines : List (List String))

/-- The groups of a file that its lines do not pay for. -/
def unpaidGroups : List NumberedGroup :=
  unpaid (fun g => g.group.args) lines (groups path queue.entries)

/-- The groups of a file that its lines pay for. -/
def paidGroups : List NumberedGroup :=
  paid (fun g => g.group.args) lines (groups path queue.entries)

/-- The queue once what the lines of a file do not pay for has been removed. -/
def cleared : Queue :=
  (ReloadPlan.between (queue.fromFile path) lines).remove.foldl erase queue

theorem remove_between :
    (ReloadPlan.between (queue.fromFile path) lines).remove =
      (queue.unpaidGroups path lines).flatMap (·.group.ids) := by
  rw [ReloadPlan.between, fromFile_eq, ReloadPlan.unpaid_map, List.flatMap_map]
  rfl

theorem filter_number_not_mem :
    (groups path queue.entries).filter
      (fun g => g.number ∉ (queue.unpaidGroups path lines).map NumberedGroup.number) =
        queue.paidGroups path lines :=
  ReloadPlan.filter_not_mem_unpaid (nodup_numbers path queue.entries)

theorem entries_cleared :
    (queue.cleared path lines).entries = queue.entries.filter fun q =>
      (lineOf? path q).all fun line =>
        decide (line.group ∉ (queue.unpaidGroups path lines).map NumberedGroup.number) := by
  have hsubset : queue.unpaidGroups path lines ⊆ groups path queue.entries :=
    (ReloadPlan.unpaid_sublist _ _ _).subset
  rw [cleared, entries_foldl_erase, remove_between]
  apply List.filter_congr
  intro q hq
  rw [Bool.eq_iff_iff, decide_eq_true_eq, mem_flatMap_ids_iff hsubset hq]
  cases lineOf? path q <;> simp

theorem groups_cleared :
    groups path (queue.cleared path lines).entries = queue.paidGroups path lines := by
  let kept (n : Nat) : Bool := n ∉ (queue.unpaidGroups path lines).map NumberedGroup.number
  rw [entries_cleared, ← filter_number_not_mem]
  exact groups_filter kept path queue.entries

theorem map_group_paidGroups :
    (queue.paidGroups path lines).map NumberedGroup.group =
      paid LineGroup.args lines (queue.fromFile path) := by
  rw [fromFile_eq, ReloadPlan.paid_map]
  rfl

theorem entries_cleared_eq_filter :
    (queue.cleared path lines).entries = queue.entries.filter fun q =>
      (lineOf? path q).isNone ||
        decide (q.id ∈ (paid LineGroup.args lines (queue.fromFile path)).flatMap
          LineGroup.ids) := by
  have hsubset : queue.paidGroups path lines ⊆ groups path queue.entries :=
    (ReloadPlan.paid_sublist _ _ _).subset
  rw [entries_cleared, ← map_group_paidGroups, List.flatMap_map]
  apply List.filter_congr
  intro q hq
  rw [Bool.eq_iff_iff, Bool.or_eq_true, decide_eq_true_eq, mem_flatMap_ids_iff hsubset hq,
    ← filter_number_not_mem]
  cases hline : lineOf? path q with
  | none => simp
  | some line =>
      obtain ⟨g, hg, hgroup⟩ := exists_group hq hline
      simp only [Option.all_some, decide_eq_true_eq, Option.isNone_some, Bool.false_eq_true,
        false_or, Option.some.injEq, exists_eq_left']
      constructor
      · intro hnot
        refine hgroup ▸ List.mem_map_of_mem (List.mem_filter.mpr ⟨hg, ?_⟩)
        exact decide_eq_true (hgroup ▸ hnot)
      · intro hmem
        obtain ⟨k, hk, hnumber⟩ := List.mem_map.mp hmem
        exact hnumber ▸ of_decide_eq_true (List.mem_filter.mp hk).2

end remove

/-- What is queued for a file is what its lines ask for. -/
structure InLine (queue : Queue) (path : Path) (lines : List (List String)) : Prop where
  remove : (ReloadPlan.between (queue.fromFile path) lines).remove = []
  add : ∀ args ∈ (ReloadPlan.between (queue.fromFile path) lines).add,
    Configuration.asksToRun args = false

theorem InLine.congr {other : Queue} {lines : List (List String)} (h : queue.InLine path lines)
    (hsame : other.fromFile path = queue.fromFile path) : other.InLine path lines := by
  constructor
  · rw [hsame]
    exact h.remove
  · rw [hsame]
    exact h.add

end Queue

namespace Scheduler

variable {s : Scheduler} {path : Path} {args : List String}

theorem exists_entriesOf_eq_ok {c : Configuration} (hargs : Configuration.ofArgs args = .ok c)
    (s : Scheduler) (origin : Origin) :
    ∃ entries nextId, s.entriesOf c args origin = .ok (entries, nextId) := by
  unfold entriesOf
  cases c.options.shardCount with
  | none => exact ⟨_, _, rfl⟩
  | some count =>
      have hunsplit := (s.unsplitCommand_line c args origin).1
      obtain ⟨split, hsplit⟩ : ∃ split, (s.unsplitCommand c args origin).1.split s.catalog count
          (s.nextId + 1) = .ok split := by
        rw [Command.split, hunsplit, hargs]
        exact ⟨_, rfl⟩
      simp only [hsplit]
      cases split with
      | none => exact ⟨_, _, rfl⟩
      | some shards => exact ⟨_, _, rfl⟩

theorem entriesOf_ne_nil {c : Configuration} {origin : Origin} {entries : List QueuedCommand}
    {nextId : Nat} (h : s.entriesOf c args origin = .ok (entries, nextId)) : entries ≠ [] := by
  rcases entriesOf_cases h with ⟨rfl, -⟩ | ⟨count, shards, hsplit, rfl, -⟩
  · simp
  · simpa using Command.split_ne_nil hsplit

theorem submit_eq_of_asksToRun (h : Configuration.asksToRun args = true) (s : Scheduler)
    (origin : Origin) :
    ∃ c entries nextId, Configuration.ofArgs args = .ok c ∧
      c.options.runMode.isRunnable = true ∧
      s.entriesOf c args origin = .ok (entries, nextId) ∧
      s.submit args origin = .ok (true, { s with nextId }.pushAll entries) := by
  obtain ⟨c, hargs, hrun⟩ := Configuration.asksToRun_iff.mp h
  obtain ⟨entries, nextId, hentries⟩ := exists_entriesOf_eq_ok hargs s origin
  have hprepare : s.prepare args origin = .ok (.queued entries, { s with nextId }) := by
    unfold prepare
    rw [hargs]
    rcases RunMode.isRunnable_iff.mp hrun with hmode | hmode <;>
      simp only [bind, Except.bind, hmode, hentries] <;> rfl
  refine ⟨c, entries, nextId, hargs, hrun, hentries, ?_⟩
  unfold submit
  rw [hprepare]
  rfl

theorem submit_of_asksToRun (h : Configuration.asksToRun args = true) (s : Scheduler)
    (path : Path) :
    ∃ entries t, s.submit args (.fileLine path) = .ok (true, t) ∧
      t.books = s.books.enter entries t.nextId ∧ Submitted s.nextId t.nextId entries ∧
      entries ≠ [] ∧
      ∀ q ∈ entries, Queue.lineOf? path q = some { args, group := s.nextId } := by
  obtain ⟨c, entries, nextId, hargs, hrun, hentries, hsubmit⟩ :=
    submit_eq_of_asksToRun h s (.fileLine path)
  refine ⟨entries, { s with nextId }.pushAll entries, hsubmit, rfl,
    submitted_entriesOf hargs hrun hentries, entriesOf_ne_nil hentries, fun q hq => ?_⟩
  obtain ⟨hfile, hline, -⟩ := of_mem_entriesOf hargs hrun hentries hq
  exact Queue.lineOf?_eq_some_iff.mpr ⟨hline, path, hfile, Path.same_iff.mpr rfl⟩

/-- What listeners are told of a line of a command file, or what is printed for it, when the file is
loaded; nothing where the line is to be run. -/
def answers (listeners : List String) (args : List String) : List Notice :=
  match Configuration.ofArgs args with
  | .error error => listeners.map (.failed · args error.message)
  | .ok c =>
    match c.options.runMode with
    | .help => [.printed (Usage.ofArgs args)]
    | .dryRun => [.printed (Usage.dryRun c)]
    | .oneShot | .loop => []

theorem submit_eq_of_not_asksToRun (h : Configuration.asksToRun args = false) (s : Scheduler)
    (origin : Origin) :
    (∃ error, s.submit args origin = .error error ∧
      ∀ listeners, answers listeners args = listeners.map (.failed · args error.message)) ∨
    ∃ text, s.submit args origin = .ok (false, s.note (.printed text)) ∧
      ∀ listeners, answers listeners args = [.printed text] := by
  unfold submit prepare answers
  cases hargs : Configuration.ofArgs args with
  | error error => exact .inl ⟨error, rfl, fun _ => rfl⟩
  | ok c =>
      right
      simp only [bind, Except.bind]
      cases hmode : c.options.runMode with
      | help => exact ⟨_, rfl, fun _ => rfl⟩
      | dryRun => exact ⟨_, rfl, fun _ => rfl⟩
      | oneShot | loop =>
          rw [Configuration.asksToRun, hargs] at h
          simp [hmode, RunMode.isRunnable] at h

theorem submit_of_not_asksToRun (h : Configuration.asksToRun args = false) (s : Scheduler)
    (origin : Origin) :
    (∃ error, s.submit args origin = .error error) ∨
    ∃ text, s.submit args origin = .ok (false, s.note (.printed text)) :=
  (submit_eq_of_not_asksToRun h s origin).imp (fun ⟨error, hsubmit, _⟩ => ⟨error, hsubmit⟩)
    fun ⟨text, hsubmit, _⟩ => ⟨text, hsubmit⟩

theorem groups_append_of_line {lo mid hi : Nat} {line : FileLine} {front back : List QueuedCommand}
    (hfront : Submitted lo mid front) (hback : Submitted mid hi back) (hne : front ≠ [])
    (hline : ∀ q ∈ front, Queue.lineOf? path q = some line) :
    Queue.groups path (front ++ back) =
      ⟨line.group, ⟨front.map QueuedCommand.id, line.args⟩⟩ :: Queue.groups path back := by
  have hlt : ∀ q ∈ front, q.id < mid := by
    intro q hq
    exact (hfront.bounds q hq).2
  rw [hfront.lined.groups_append hlt hback.le_group, Queue.groups_of_line hne hline,
    List.singleton_append]

theorem exists_books_reloadLines (path : Path) (lines : List (List String)) (s : Scheduler) :
    ∃ added, (s.reloadLines path lines).books =
        s.books.enter added (s.reloadLines path lines).nextId ∧
      Submitted s.nextId (s.reloadLines path lines).nextId added ∧
      (Queue.groups path added).map (·.group.args) = lines.filter Configuration.asksToRun ∧
      (Queue.groups path added).flatMap (·.group.ids) = added.map QueuedCommand.id ∧
      ∀ q ∈ added, (Queue.lineOf? path q).isSome = true := by
  -- On the lines: each that is to be run takes the next ids, which is why its group stands before
  -- those of the lines after it.
  induction lines generalizing s with
  | nil => exact ⟨[], rfl, Submitted.nil (Nat.le_refl _), rfl, rfl, by simp⟩
  | cons args rest ih =>
      rw [reloadLines]
      cases hasks : Configuration.asksToRun args with
      | false =>
          rw [List.filter_cons_of_neg (by simp [hasks])]
          rcases submit_of_not_asksToRun hasks s (.fileLine path) with
            ⟨error, hsubmit⟩ | ⟨text, hsubmit⟩
          · rw [hsubmit]
            have hbooks := s.books_reportRefused args error
            have hnext : (s.reportRefused args error).nextId = s.nextId :=
              congrArg Books.nextId hbooks
            have hrest := ih (s.reportRefused args error)
            rwa [hbooks, hnext] at hrest
          · rw [hsubmit]
            exact ih (s.note (.printed text))
      | true =>
          obtain ⟨front, t, hsubmit, hbooks, hfront, hne, hline⟩ :=
            submit_of_asksToRun hasks s path
          rw [hsubmit, List.filter_cons_of_pos hasks]
          dsimp only
          obtain ⟨back, hafter, hback, hargs, hids, hsome⟩ := ih t
          have hgroups : Queue.groups path (front ++ back) =
              ⟨s.nextId, ⟨front.map QueuedCommand.id, args⟩⟩ :: Queue.groups path back :=
            groups_append_of_line hfront hback hne hline
          refine ⟨front ++ back, ?_, hfront.append hback, ?_, ?_, ?_⟩
          · rw [hafter, hbooks]
            simp only [Books.enter, List.foldl_append]
          · rw [hgroups, List.map_cons, hargs]
          · rw [hgroups, List.flatMap_cons, hids, List.map_append]
          · intro q hq
            rcases List.mem_append.mp hq with hq | hq
            · rw [hline q hq]
              rfl
            · exact hsome q hq

theorem books_reloadLines_of_not_asksToRun {lines : List (List String)}
    (h : ∀ args ∈ lines, Configuration.asksToRun args = false) (path : Path) (s : Scheduler) :
    (s.reloadLines path lines).books = s.books := by
  induction lines generalizing s with
  | nil => rfl
  | cons args rest ih =>
      have hrest := ih fun other hother => h other (List.mem_cons_of_mem _ hother)
      rw [reloadLines]
      rcases submit_of_not_asksToRun (h args List.mem_cons_self) s (.fileLine path) with
        ⟨error, hsubmit⟩ | ⟨text, hsubmit⟩
      · rw [hsubmit]
        exact (hrest _).trans (s.books_reportRefused args error)
      · rw [hsubmit]
        exact hrest (s.note (.printed text))

/-- What reading a file again does to a scheduler: of the groups queued for the file those of `kept`
stay, those of `new` come in, whose entries are those of `added`, and nothing else happens. -/
structure Reloads (path : Path) (lines : List (List String)) (s t : Scheduler)
    (kept new : List LineGroup) (added : List QueuedCommand) : Prop where
  fromFile : t.queue.fromFile path = kept ++ new
  asks : ∀ g ∈ kept ++ new, Configuration.asksToRun g.args = true
  count : ∀ args, Configuration.asksToRun args = true →
    ((kept ++ new).map LineGroup.args).count args = lines.count args
  kept_sublist : kept.Sublist (s.queue.fromFile path)
  oldest : ∀ args, kept.filter (·.args == args) =
    ((s.queue.fromFile path).filter (·.args == args)).take (lines.count args)
  entries : t.queue.entries = (s.queue.entries.filter fun q =>
    (Queue.lineOf? path q).isNone || decide (q.id ∈ kept.flatMap LineGroup.ids)) ++ added
  stands : ∀ q ∈ t.queue.entries, ∀ line, Queue.lineOf? path q = some line → line.args ∈ lines
  new_sublist : (new.map LineGroup.args).Sublist lines
  new_ids : new.flatMap LineGroup.ids = added.map QueuedCommand.id
  added_stand : ∀ q ∈ added, (Queue.lineOf? path q).isSome = true
  fresh : Fresh s.nextId t.nextId added
  elsewhere : t.books = { s.books with queue := t.queue, nextId := t.nextId }

theorem exists_notifyChanged_eq_ok {tree : FileTree} {document : CommandFile.Document}
    (hdocument : CommandFile.Document.ofFile tree path = .ok document) (s : Scheduler)
    (extraArgs : List String) :
    let lines := linesWith document extraArgs
    let add := (ReloadPlan.between (s.queue.fromFile path) lines).add
    ∃ t, s.notifyChanged tree path extraArgs = .ok t ∧
      t.books =
        (reloadLines path { s with queue := s.queue.cleared path lines } add).books := by
  intro lines add
  unfold notifyChanged
  rw [hdocument]
  dsimp only
  split
  · rename_i hempty
    rw [ReloadPlan.isEmpty, Bool.and_eq_true, List.isEmpty_iff, List.isEmpty_iff] at hempty
    obtain ⟨hremove, hadd⟩ := hempty
    have hnone : add = [] := hadd
    have hsame : s.queue.cleared path lines = s.queue := by
      rw [Queue.cleared, hremove]
      rfl
    refine ⟨_, rfl, ?_⟩
    rw [hnone, hsame]
    rfl
  · exact ⟨_, rfl, rfl⟩

theorem exists_added {tree : FileTree} {document : CommandFile.Document}
    (hlt : ∀ q ∈ s.queue.entries, q.id < s.nextId)
    (hdocument : CommandFile.Document.ofFile tree path = .ok document) (extraArgs : List String) :
    let lines := linesWith document extraArgs
    let add := (ReloadPlan.between (s.queue.fromFile path) lines).add
    ∃ t added, s.notifyChanged tree path extraArgs = .ok t ∧
      t.books = { s.books with queue := t.queue, nextId := t.nextId } ∧
      t.queue.entries = (s.queue.cleared path lines).entries ++ added ∧
      Submitted s.nextId t.nextId added ∧
      (Queue.groups path added).map (·.group.args) = add.filter Configuration.asksToRun ∧
      (Queue.groups path added).flatMap (·.group.ids) = added.map QueuedCommand.id ∧
      ∀ q ∈ added, (Queue.lineOf? path q).isSome = true := by
  intro lines add
  let between := { s with queue := s.queue.cleared path lines }
  obtain ⟨t, hnotify, hbooks⟩ := exists_notifyChanged_eq_ok hdocument s extraArgs
  obtain ⟨added, hafter, hadded, hargs, hids, hstand⟩ :=
    exists_books_reloadLines path add between
  have hnext : t.nextId = (between.reloadLines path add).nextId := congrArg Books.nextId hbooks
  rw [← hnext] at hafter hadded
  have ht : t.books = between.books.enter added t.nextId := hbooks.trans hafter
  have hqueue : t.queue = added.foldl Queue.push (s.queue.cleared path lines) :=
    congrArg Books.queue ht
  refine ⟨t, added, hnotify, ?_, ?_, hadded, hargs, hids, hstand⟩
  · rw [ht, hqueue]
    rfl
  · rw [hqueue]
    apply Queue.entries_foldl_push_of_lt hadded.ascending
    intro p hp q hq
    rw [Queue.entries_cleared] at hp
    exact Nat.lt_of_lt_of_le (hlt p (List.mem_of_mem_filter hp)) (hadded.bounds q hq).1

theorem exists_reloads {tree : FileTree} {document : CommandFile.Document}
    (hlined : Lined s.queue.entries) (hlt : ∀ q ∈ s.queue.entries, q.id < s.nextId)
    (hdocument : CommandFile.Document.ofFile tree path = .ok document) (extraArgs : List String) :
    ∃ t kept new added, s.notifyChanged tree path extraArgs = .ok t ∧
      Reloads path (linesWith document extraArgs) s t kept new added := by
  let lines := linesWith document extraArgs
  let old := s.queue.fromFile path
  let kept := paid LineGroup.args lines old
  obtain ⟨t, added, hnotify, helsewhere, hentries, hadded, hargs, hids, hstand⟩ :=
    exists_added hlt hdocument extraArgs
  have hsubset : (s.queue.cleared path lines).entries ⊆ s.queue.entries := by
    intro q hq
    rw [Queue.entries_cleared] at hq
    exact List.mem_of_mem_filter hq
  have hkept : Lined (s.queue.cleared path lines).entries := hlined.mono hsubset
  have hold : ∀ q ∈ (s.queue.cleared path lines).entries, q.id < s.nextId := by
    intro q hq
    exact hlt q (hsubset hq)
  have hlined' : Lined t.queue.entries := by
    rw [hentries]
    exact hkept.append hadded.lined hold hadded.le_group
  let new := (Queue.groups path added).map Queue.NumberedGroup.group
  have hfile : t.queue.fromFile path = kept ++ new := by
    rw [Queue.fromFile_eq, hentries, hkept.groups_append hold hadded.le_group,
      Queue.groups_cleared, List.map_append, Queue.map_group_paidGroups]
  have hnew : new.map LineGroup.args =
      (ReloadPlan.between old lines).add.filter Configuration.asksToRun := by
    rw [List.map_map]
    exact hargs
  have hcount : ∀ args, Configuration.asksToRun args = true →
      ((kept ++ new).map LineGroup.args).count args = lines.count args := by
    intro args hask
    rw [List.map_append, List.count_append, hnew, List.count_filter hask]
    exact ReloadPlan.count_paid_add_count_add old lines args
  refine ⟨t, kept, new, added, hnotify, hfile, ?_, hcount, ReloadPlan.paid_sublist _ _ _,
    ReloadPlan.filter_paid _ _ _, ?_, ?_, ?_, ?_, hstand, hadded.toFresh, helsewhere⟩
  · rw [← hfile]
    intro g hg
    exact hlined'.asksToRun_of_mem_fromFile hg
  · rw [hentries, Queue.entries_cleared_eq_filter]
  · intro q hq line hline
    have hruns := hlined'.runs q hq line (Queue.lineOf?_eq_some_iff.mp hline).1
    have hpos := List.count_pos_iff.mpr (hlined'.args_mem_fromFile hq hline)
    rw [hfile, hcount line.args hruns] at hpos
    exact List.count_pos_iff.mp hpos
  · rw [hnew]
    exact List.filter_sublist.trans (ReloadPlan.unpaid_sublist _ _ _)
  · rw [List.flatMap_map]
    exact hids

theorem Reloads.count_le {t : Scheduler} {kept new : List LineGroup} {added : List QueuedCommand}
    {lines : List (List String)} (h : Reloads path lines s t kept new added)
    (args : List String) :
    ((t.queue.fromFile path).map LineGroup.args).count args ≤ lines.count args := by
  rw [h.fromFile]
  cases hask : Configuration.asksToRun args with
  | true => exact (h.count args hask).le
  | false =>
      rw [List.count_eq_zero_of_not_mem]
      · exact Nat.zero_le _
      · intro hmem
        obtain ⟨g, hg, rfl⟩ := List.mem_map.mp hmem
        rw [h.asks g hg] at hask
        cases hask

theorem Reloads.inLine {t : Scheduler} {kept new : List LineGroup} {added : List QueuedCommand}
    {lines : List (List String)} (h : Reloads path lines s t kept new added) :
    t.queue.InLine path lines := by
  let queued := t.queue.fromFile path
  have hqueued : queued = kept ++ new := h.fromFile
  constructor
  · rw [ReloadPlan.between, ReloadPlan.unpaid_eq_nil h.count_le]
    rfl
  · intro args hmem
    cases hask : Configuration.asksToRun args with
    | false => rfl
    | true =>
        have hpos : 0 < (ReloadPlan.between queued lines).add.count args :=
          List.count_pos_iff.mpr hmem
        have hall := ReloadPlan.count_paid_add_count_add queued lines args
        have hpaid := ReloadPlan.count_paid LineGroup.args lines queued args
        have hexact := h.count args hask
        rw [← hqueued] at hexact
        omega

theorem Reloads.fromFile_other {t : Scheduler} {kept new : List LineGroup}
    {added : List QueuedCommand} {lines : List (List String)}
    (h : Reloads path lines s t kept new added) {other : Path} (hother : path.same other = false) :
    t.queue.fromFile other = s.queue.fromFile other := by
  have hadded : added.filter (fun q => (Queue.lineOf? other q).isSome) = [] := by
    rw [List.filter_eq_nil_iff]
    intro q hq
    rw [Queue.lineOf?_of_other hother (h.added_stand q hq)]
    exact Bool.false_ne_true
  have hentries : t.queue.entries.filter (fun q => (Queue.lineOf? other q).isSome) =
      s.queue.entries.filter (fun q => (Queue.lineOf? other q).isSome) := by
    rw [h.entries, List.filter_append, hadded, List.append_nil, List.filter_filter]
    apply List.filter_congr
    intro q _
    cases hline : Queue.lineOf? path q with
    | none => rw [Option.isNone_none, Bool.true_or, Bool.and_true]
    | some line =>
        rw [Queue.lineOf?_of_other hother (by rw [hline]; rfl)]
        rfl
  rw [Queue.fromFile_eq, Queue.fromFile_eq, ← Queue.groups_filter_isSome other t.queue.entries,
    hentries, Queue.groups_filter_isSome]

/-- Once the queue is in line with a file, reading the file again changes nothing. -/
theorem exists_notifyChanged_of_inLine {tree : FileTree} {document : CommandFile.Document}
    {extraArgs : List String} (hdocument : CommandFile.Document.ofFile tree path = .ok document)
    (h : s.queue.InLine path (linesWith document extraArgs)) :
    ∃ t, s.notifyChanged tree path extraArgs = .ok t ∧ t.books = s.books := by
  have hcleared : s.queue.cleared path (linesWith document extraArgs) = s.queue := by
    rw [Queue.cleared, h.remove]
    rfl
  obtain ⟨t, hnotify, hbooks⟩ := exists_notifyChanged_eq_ok hdocument s extraArgs
  refine ⟨t, hnotify, ?_⟩
  rw [hbooks, hcleared]
  exact books_reloadLines_of_not_asksToRun h.add path s

end Scheduler

namespace World

/-- Reading a command file again brings the queue in line with it, however the scheduler has been
used.  Each line that is to be run is queued for exactly as often as the file has it, and nothing
else is queued for the file.  Of the groups that were queued the oldest ones of each argument list
stay, their entries untouched; what is new follows in the order of the file, with new ids; and
nothing changes but the queue.  Reading the same file once more changes nothing. -/
theorem notifyChanged_in_line (settings : SchedulerSettings) (catalog : Catalog)
    (listeners : List String) (acts : List Act) {tree : FileTree} {path : Path}
    {document : CommandFile.Document}
    (hdocument : CommandFile.Document.ofFile tree path = .ok document) (extraArgs : List String) :
    let s := ((fresh settings catalog listeners).run acts).scheduler
    let lines := Scheduler.linesWith document extraArgs
    (s.queue.fromFile path).Pairwise (fun g k => ∀ i ∈ g.ids, ∀ j ∈ k.ids, i < j) ∧
    ∃ t kept new added, s.notifyChanged tree path extraArgs = .ok t ∧
      Scheduler.Reloads path lines s t kept new added ∧
      ∃ u, t.notifyChanged tree path extraArgs = .ok u ∧
        u.queue = t.queue ∧ u.nextId = t.nextId := by
  intro s lines
  have hlined : Lined s.queue.entries := lined_queue_run settings catalog listeners acts
  have hlt : ∀ q ∈ s.queue.entries, q.id < s.nextId := fun _ =>
    ((balanced_fresh settings catalog listeners).run acts).lt_nextId_of_mem_queue
  obtain ⟨t, kept, new, added, hnotify, hreloads⟩ :=
    Scheduler.exists_reloads hlined hlt hdocument extraArgs
  obtain ⟨u, hagain, hbooks⟩ :=
    Scheduler.exists_notifyChanged_of_inLine hdocument hreloads.inLine
  refine ⟨hlined.pairwise_fromFile path, t, kept, new, added, hnotify, hreloads, u, hagain, ?_, ?_⟩
  · exact congrArg Books.queue hbooks
  · exact congrArg Books.nextId hbooks

theorem notifyChanged_in_line_of_other_line :
    let path : Path := ⟨"cmds"⟩
    let before : FileTree := FileTree.write {} path "smoke\nsmoke\n".toUTF8.toList
    let tree : FileTree := FileTree.write {} path "smoke\nflaky\n".toUTF8.toList
    let s := ((fresh {} ∅ []).run [.addFile before path []]).scheduler
    CommandFile.Document.ofFile tree path =
      .ok { entries := [⟨["smoke"], path, 1⟩, ⟨["flaky"], path, 2⟩] } ∧
    ∃ t kept new added, s.notifyChanged tree path [] = .ok t ∧
      Scheduler.Reloads path [["smoke"], ["flaky"]] s t kept new added := by
  intro path before tree s
  have hdocument : CommandFile.Document.ofFile tree path =
      .ok { entries := [⟨["smoke"], path, 1⟩, ⟨["flaky"], path, 2⟩] } := by
    decide +kernel
  obtain ⟨-, t, kept, new, added, hnotify, hreloads, -⟩ :=
    notifyChanged_in_line {} ∅ [] [.addFile before path []] hdocument []
  exact ⟨hdocument, t, kept, new, added, hnotify, hreloads⟩

end World

end DeviceLab
