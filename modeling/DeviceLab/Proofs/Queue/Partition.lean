import DeviceLab.Proofs.Queue.Groups
import DeviceLab.Proofs.Scheduler.Provenance

namespace DeviceLab

namespace Queue

variable {path : Path} {entries : List QueuedCommand} {id : Nat} {line : FileLine}
  {gs : List NumberedGroup}

theorem map_head?_addToGroup (hids : ∀ g ∈ gs, g.group.ids ≠ []) :
    (addToGroup id line gs).map (fun g => g.group.ids.head?) =
      if line.group ∈ gs.map NumberedGroup.number then gs.map fun g => g.group.ids.head?
      else (gs.map fun g => g.group.ids.head?) ++ [some id] := by
  induction gs with
  | nil => rfl
  | cons first rest ih =>
      obtain ⟨hfirst, hrest⟩ := List.forall_mem_cons.mp hids
      rw [addToGroup]
      by_cases hsame : first.number = line.group
      · have hhead : (first.group.ids ++ [id]).head? = first.group.ids.head? :=
          List.head?_append_of_ne_nil _ hfirst
        simp [hsame, hhead]
      · have hother : line.group ≠ first.number := fun h => hsame h.symm
        rw [if_neg hsame, List.map_cons, List.map_cons, List.map_cons, ih hrest]
        by_cases hmem : line.group ∈ rest.map NumberedGroup.number
        · simp only [hmem, List.mem_cons, or_true, if_true]
        · simp only [hmem, hother, List.mem_cons, or_false, if_false, List.cons_append]

theorem ids_ne_nil_of_mem_groups {g : NumberedGroup} (h : g ∈ groups path entries) :
    g.group.ids ≠ [] := by
  obtain ⟨-, q, -, hhead, -⟩ := of_mem_groups h
  intro hnil
  simp [hnil] at hhead

theorem pairwise_head?_groups (hascending : entries.Pairwise (·.id < ·.id)) :
    (groups path entries).Pairwise fun g k =>
      ∀ i ∈ g.group.ids.head?, ∀ j ∈ k.group.ids.head?, i < j := by
  rw [← List.pairwise_map (f := fun g : NumberedGroup => g.group.ids.head?)
    (R := fun first second => ∀ i ∈ first, ∀ j ∈ second, i < j)]
  induction entries using List.reverseRecOn with
  | nil => simp [groups]
  | append_singleton entries q ih =>
      obtain ⟨hentries, -, hlast⟩ := List.pairwise_append.mp hascending
      have hearlier := ih hentries
      rw [groups_concat]
      cases hline : lineOf? path q with
      | none => exact hearlier
      | some line =>
          simp only [map_head?_addToGroup fun g hg => ids_ne_nil_of_mem_groups hg]
          split
          · exact hearlier
          · rw [List.pairwise_append]
            refine ⟨hearlier, List.pairwise_singleton _ _, ?_⟩
            intro first hfirst last hid i hi j hj
            obtain ⟨g, hg, rfl⟩ := List.mem_map.mp hfirst
            obtain ⟨-, p, hp, hhead, -⟩ := of_mem_groups hg
            obtain rfl : p.id = i := Option.some.inj (hhead.symm.trans hi)
            obtain rfl := List.mem_singleton.mp hid
            obtain rfl : q.id = j := Option.some.inj hj
            exact hlast p hp q (by simp)

theorem id_mem_iff_stands (hascending : entries.Pairwise (·.id < ·.id)) {g : NumberedGroup}
    (hg : g ∈ groups path entries) {q : QueuedCommand} (hq : q ∈ entries) :
    q.id ∈ g.group.ids ↔ stands path g.number q = true := by
  rw [(of_mem_groups hg).1, List.mem_map]
  constructor
  · rintro ⟨p, hp, hid⟩
    obtain ⟨hp, hstands⟩ := List.mem_filter.mp hp
    have hnodup : (entries.map QueuedCommand.id).Nodup :=
      List.pairwise_map.mpr (hascending.imp Nat.ne_of_lt)
    obtain rfl := List.inj_on_of_nodup_map hnodup hp hq hid
    exact hstands
  · intro hstands
    exact ⟨q, List.mem_filter.mpr ⟨hq, hstands⟩, rfl⟩

/-- The ids of the queued commands for the lines of a file, in one group for each line. -/
structure DividedInto (queue : Queue) (path : Path) (found : List LineGroup) : Prop where
  nonempty : ∀ g ∈ found, g.ids ≠ []
  disjoint : found.Pairwise fun g k => ∀ i ∈ g.ids, i ∉ k.ids
  ascending : ∀ g ∈ found, g.ids.Pairwise (· < ·)
  ordered : found.Pairwise fun g k => ∀ i ∈ g.ids.head?, ∀ j ∈ k.ids.head?, i < j
  covers : ∀ i, (∃ g ∈ found, i ∈ g.ids) ↔
    ∃ q ∈ queue.entries, q.id = i ∧ (∃ line, q.command.line = some line) ∧
      ∃ file, q.command.file = some file ∧ file.same path = true
  together : ∀ p ∈ queue.entries, ∀ q ∈ queue.entries, ∀ l m, lineOf? path p = some l →
    lineOf? path q = some m → ((∃ g ∈ found, p.id ∈ g.ids ∧ q.id ∈ g.ids) ↔ l.group = m.group)
  first_args : ∀ g ∈ found, ∃ q ∈ queue.entries, ∃ line,
    g.ids.head? = some q.id ∧ lineOf? path q = some line ∧ g.args = line.args

theorem covers_fromFile (queue : Queue) (path : Path) (i : Nat) :
    (∃ g ∈ queue.fromFile path, i ∈ g.ids) ↔
      ∃ q ∈ queue.entries, q.id = i ∧ (∃ line, q.command.line = some line) ∧
        ∃ file, q.command.file = some file ∧ file.same path = true := by
  rw [fromFile_eq]
  constructor
  · rintro ⟨_, hg, hi⟩
    obtain ⟨g, hmem, rfl⟩ := List.mem_map.mp hg
    rw [(of_mem_groups hmem).1] at hi
    obtain ⟨q, hq, rfl⟩ := List.mem_map.mp hi
    obtain ⟨hq, hstands⟩ := List.mem_filter.mp hq
    obtain ⟨line, hline, -⟩ := stands_iff.mp hstands
    obtain ⟨hline, hfile⟩ := lineOf?_eq_some_iff.mp hline
    exact ⟨q, hq, rfl, ⟨line, hline⟩, hfile⟩
  · rintro ⟨q, hq, rfl, ⟨line, hline⟩, hfile⟩
    have hof := lineOf?_eq_some_iff.mpr ⟨hline, hfile⟩
    obtain ⟨g, hg, hnumber⟩ := exists_group hq hof
    refine ⟨g.group, List.mem_map_of_mem hg, ?_⟩
    exact (id_mem_iff_stands queue.ascending hg hq).mpr (stands_iff.mpr ⟨line, hof, hnumber.symm⟩)

theorem together_fromFile {queue : Queue} {p q : QueuedCommand} (hp : p ∈ queue.entries)
    (hq : q ∈ queue.entries) {l m : FileLine} (hl : lineOf? path p = some l)
    (hm : lineOf? path q = some m) :
    (∃ g ∈ queue.fromFile path, p.id ∈ g.ids ∧ q.id ∈ g.ids) ↔ l.group = m.group := by
  have hstands : ∀ (e : QueuedCommand) (k : FileLine) (n : Nat), lineOf? path e = some k →
      (stands path n e = true ↔ k.group = n) := by
    intro e k n hk
    simp [stands, hk]
  rw [fromFile_eq]
  constructor
  · rintro ⟨_, hg, hpg, hqg⟩
    obtain ⟨g, hmem, rfl⟩ := List.mem_map.mp hg
    rw [id_mem_iff_stands queue.ascending hmem hp, hstands p l _ hl] at hpg
    rw [id_mem_iff_stands queue.ascending hmem hq, hstands q m _ hm] at hqg
    rw [hpg, hqg]
  · intro hsame
    obtain ⟨g, hg, hnumber⟩ := exists_group hp hl
    refine ⟨g.group, List.mem_map_of_mem hg, ?_, ?_⟩
    · rw [id_mem_iff_stands queue.ascending hg hp, hstands p l _ hl, hnumber]
    · rw [id_mem_iff_stands queue.ascending hg hq, hstands q m _ hm, hnumber, hsame]

theorem dividedInto_fromFile (queue : Queue) (path : Path) :
    queue.DividedInto path (queue.fromFile path) where
  nonempty := by
    rw [fromFile_eq, List.forall_mem_map]
    exact fun g hg => ids_ne_nil_of_mem_groups hg
  disjoint := by
    rw [fromFile_eq, List.pairwise_map]
    refine (List.pairwise_map.mp (nodup_numbers path queue.entries)).imp_of_mem ?_
    intro g k hg hk hne i hi hi'
    rw [(of_mem_groups hg).1] at hi
    obtain ⟨q, hq, rfl⟩ := List.mem_map.mp hi
    obtain ⟨hq, hstands⟩ := List.mem_filter.mp hq
    obtain ⟨l, hl, hnumber⟩ := stands_iff.mp hstands
    obtain ⟨m, hm, hnumber'⟩ := stands_iff.mp ((id_mem_iff_stands queue.ascending hk hq).mp hi')
    obtain rfl : l = m := Option.some.inj (hl.symm.trans hm)
    exact hne (hnumber.symm.trans hnumber')
  ascending := by
    rw [fromFile_eq, List.forall_mem_map]
    intro g hg
    rw [(of_mem_groups hg).1, List.pairwise_map]
    exact queue.ascending.filter _
  ordered := by
    rw [fromFile_eq, List.pairwise_map]
    exact pairwise_head?_groups queue.ascending
  covers := covers_fromFile queue path
  together _ hp _ hq _ _ := together_fromFile hp hq
  first_args := by
    rw [fromFile_eq, List.forall_mem_map]
    intro g hg
    obtain ⟨-, q, hq, hhead, hline⟩ := of_mem_groups hg
    exact ⟨q, hq, _, hhead, hline, rfl⟩

end Queue

theorem Lined.args_of_mem_fromFile {queue : Queue} (h : Lined queue.entries) {path : Path}
    {g : LineGroup} (hg : g ∈ queue.fromFile path) {q : QueuedCommand} (hq : q ∈ queue.entries)
    (hid : q.id ∈ g.ids) :
    ∃ line, Queue.lineOf? path q = some line ∧ line.args = g.args := by
  rw [Queue.fromFile_eq] at hg
  obtain ⟨k, hk, rfl⟩ := List.mem_map.mp hg
  obtain ⟨-, p, hp, -, hpline⟩ := Queue.of_mem_groups hk
  obtain ⟨line, hline, hnumber⟩ :=
    Queue.stands_iff.mp ((Queue.id_mem_iff_stands queue.ascending hk hq).mp hid)
  refine ⟨line, hline, ?_⟩
  exact h.args_eq q hq p hp _ _ (Queue.lineOf?_eq_some_iff.mp hline).1
    (Queue.lineOf?_eq_some_iff.mp hpline).1 hnumber

namespace World

/-- The groups of a file divide the ids of the queued commands that stand for its lines: each is in
one group, with the others of its line.  However a scheduler was used, all members of a group stand
for a line with the arguments of the group. -/
theorem fromFile_divides_lines :
    (∀ (queue : Queue) (path : Path), queue.DividedInto path (queue.fromFile path)) ∧
    ∀ settings catalog listeners acts path,
      let queue := ((fresh settings catalog listeners).run acts).scheduler.queue
      ∀ g ∈ queue.fromFile path, ∀ q ∈ queue.entries, q.id ∈ g.ids →
        ∃ line, Queue.lineOf? path q = some line ∧ line.args = g.args := by
  refine ⟨Queue.dividedInto_fromFile, ?_⟩
  intro settings catalog listeners acts path queue g hg q hq hid
  have hlined : Lined queue.entries :=
    lined_queue_run settings catalog listeners acts
  exact hlined.args_of_mem_fromFile hg hq hid

theorem fromFile_divides_lines_of_shards :
    let path : Path := ⟨"cmds.txt"⟩
    let split := ["smoke", "--class", "A", "--class", "B", "--shard-count", "2"]
    let tree := FileTree.write {} path
      (Text.encode "smoke --class A --class B --shard-count 2\nflaky\n")
    let acts : List Act := [.addFile tree path [], .add ["flaky"], .addFile tree path []]
    let queue := ((fresh {} ∅ []).run acts).scheduler.queue
    queue.fromFile path =
        [⟨[2, 3], split⟩, ⟨[4], ["flaky"]⟩, ⟨[7, 8], split⟩, ⟨[9], ["flaky"]⟩] ∧
      queue.DividedInto path (queue.fromFile path) ∧
      ∀ q ∈ queue.entries, q.id ∈ [7, 8] →
        ∃ line, Queue.lineOf? path q = some line ∧ line.args = split := by
  intro path split tree acts queue
  have hgroups : queue.fromFile path =
      [⟨[2, 3], split⟩, ⟨[4], ["flaky"]⟩, ⟨[7, 8], split⟩, ⟨[9], ["flaky"]⟩] := by
    decide +kernel
  obtain ⟨hdivides, hargs⟩ := fromFile_divides_lines
  refine ⟨hgroups, hdivides queue path, fun q hq hid => ?_⟩
  exact hargs {} ∅ [] acts path ⟨[7, 8], split⟩ (by simp [hgroups, queue]) q hq hid

end World

end DeviceLab
