import DeviceLab.Queue.Basic
import Mathlib.Data.List.Induction
import Mathlib.Data.List.Nodup

/-!
What is queued for the lines of a command file.

The queued shards of a line form a group, which is known by its number.  Groups are kept in the order
in which their first entries wait, and what happens to the entries of one group does not touch the
others.
-/

namespace DeviceLab.Queue

/-- What some entries make of the file at `path`, each group with its number. -/
def groups (path : Path) (entries : List QueuedCommand) : List NumberedGroup :=
  entries.foldl (fun groups q =>
    match lineOf? path q with
    | some line => addToGroup q.id line groups
    | none => groups) []

/-- Whether an entry stands for the line of the file at `path` whose group has the number `n`. -/
def stands (path : Path) (n : Nat) (q : QueuedCommand) : Bool :=
  (lineOf? path q).any (·.group == n)

theorem fromFile_eq (queue : Queue) (path : Path) :
    queue.fromFile path = (groups path queue.entries).map NumberedGroup.group := rfl

theorem stands_iff {path : Path} {n : Nat} {q : QueuedCommand} :
    stands path n q = true ↔ ∃ line, lineOf? path q = some line ∧ line.group = n := by
  simp [stands, Option.any_eq_true]

theorem lineOf?_eq_some_iff {path : Path} {q : QueuedCommand} {line : FileLine} :
    lineOf? path q = some line ↔
      q.command.line = some line ∧ ∃ file, q.command.file = some file ∧ file.same path = true := by
  unfold lineOf?
  split
  · rename_i hfile
    rw [Option.any_eq_true] at hfile
    constructor
    · intro h
      exact ⟨h, hfile⟩
    · intro h
      exact h.1
  · rename_i hfile
    rw [Option.any_eq_true] at hfile
    constructor
    · intro h
      cases h
    · intro h
      exact absurd h.2 hfile

section addToGroup

variable {id : Nat} {line : FileLine} {gs hs : List NumberedGroup}

theorem map_number_addToGroup (id : Nat) (line : FileLine) (gs : List NumberedGroup) :
    (addToGroup id line gs).map NumberedGroup.number =
      if line.group ∈ gs.map NumberedGroup.number then gs.map NumberedGroup.number
      else gs.map NumberedGroup.number ++ [line.group] := by
  induction gs with
  | nil => rfl
  | cons first rest ih =>
      rw [addToGroup]
      by_cases hfirst : first.number = line.group
      · simp [hfirst]
      · have hne : line.group ≠ first.number := fun h => hfirst h.symm
        rw [if_neg hfirst, List.map_cons, List.map_cons, ih]
        by_cases hmem : line.group ∈ rest.map NumberedGroup.number
        · rw [if_pos hmem, if_pos (List.mem_cons_of_mem _ hmem)]
        · rw [if_neg hmem, if_neg (List.not_mem_cons_of_ne_of_not_mem hne hmem), List.cons_append]

theorem mem_addToGroup (hnodup : (gs.map NumberedGroup.number).Nodup) {g : NumberedGroup}
    (h : g ∈ addToGroup id line gs) :
    (g ∈ gs ∧ g.number ≠ line.group) ∨
    (∃ old ∈ gs, old.number = line.group ∧
      g = ⟨line.group, ⟨old.group.ids ++ [id], old.group.args⟩⟩) ∨
    (line.group ∉ gs.map NumberedGroup.number ∧ g = ⟨line.group, ⟨[id], line.args⟩⟩) := by
  induction gs with
  | nil => exact .inr (.inr ⟨List.not_mem_nil, List.mem_singleton.mp h⟩)
  | cons first rest ih =>
      obtain ⟨hnew, hrest⟩ := List.nodup_cons.mp hnodup
      rw [addToGroup] at h
      split at h
      · rename_i hfirst
        rcases List.mem_cons.mp h with rfl | hg
        · exact .inr (.inl ⟨first, List.mem_cons_self, hfirst, by rw [hfirst]⟩)
        · refine .inl ⟨List.mem_cons_of_mem _ hg, fun heq => hnew ?_⟩
          rw [hfirst, ← heq]
          exact List.mem_map_of_mem hg
      · rename_i hfirst
        rcases List.mem_cons.mp h with rfl | hg
        · exact .inl ⟨List.mem_cons_self, hfirst⟩
        · rcases ih hrest hg with ⟨hg, hne⟩ | ⟨old, hold, heq, rfl⟩ | ⟨hnot, rfl⟩
          · exact .inl ⟨List.mem_cons_of_mem _ hg, hne⟩
          · exact .inr (.inl ⟨old, List.mem_cons_of_mem _ hold, heq, rfl⟩)
          · refine .inr (.inr ⟨?_, rfl⟩)
            rw [List.map_cons, List.mem_cons, not_or]
            exact ⟨fun heq => hfirst heq.symm, hnot⟩

theorem filter_addToGroup (p : Nat → Bool) (id : Nat) (line : FileLine)
    (gs : List NumberedGroup) :
    (addToGroup id line gs).filter (fun g => p g.number) =
      if p line.group then addToGroup id line (gs.filter fun g => p g.number)
      else gs.filter fun g => p g.number := by
  induction gs with
  | nil => cases h : p line.group <;> simp [addToGroup, h]
  | cons first rest ih =>
      rw [addToGroup]
      by_cases hfirst : first.number = line.group
      · rw [if_pos hfirst]
        cases h : p line.group <;> simp [hfirst, h, addToGroup]
      · rw [if_neg hfirst, List.filter_cons, List.filter_cons, ih]
        cases hp : p first.number <;> cases h : p line.group <;> simp [addToGroup, hfirst]

theorem addToGroup_append (hnot : line.group ∉ gs.map NumberedGroup.number) :
    addToGroup id line (gs ++ hs) = gs ++ addToGroup id line hs := by
  induction gs with
  | nil => rfl
  | cons first rest ih =>
      rw [List.map_cons, List.mem_cons, not_or] at hnot
      rw [List.cons_append, addToGroup, if_neg fun heq => hnot.1 heq.symm, ih hnot.2]
      rfl

end addToGroup

variable {path : Path} {entries front back : List QueuedCommand}

theorem groups_concat (path : Path) (entries : List QueuedCommand) (q : QueuedCommand) :
    groups path (entries ++ [q]) =
      match lineOf? path q with
      | some line => addToGroup q.id line (groups path entries)
      | none => groups path entries := by
  rw [groups, List.foldl_append]
  rfl

theorem mem_numbers_iff {n : Nat} :
    n ∈ (groups path entries).map NumberedGroup.number ↔ ∃ q ∈ entries, stands path n q = true := by
  induction entries using List.reverseRecOn with
  | nil => simp [groups]
  | append_singleton entries q ih =>
      have hsplit : (∃ p ∈ entries ++ [q], stands path n p = true) ↔
          (∃ p ∈ entries, stands path n p = true) ∨ stands path n q = true := by
        simp [or_and_right, exists_or]
      rw [groups_concat, hsplit, ← ih, stands_iff]
      cases hline : lineOf? path q with
      | none => simp
      | some line =>
          simp only [map_number_addToGroup, Option.some.injEq, exists_eq_left']
          split
          · rename_i hmem
            constructor
            · exact .inl
            · rintro (h | rfl)
              · exact h
              · exact hmem
          · rw [List.mem_append, List.mem_singleton]
            exact or_congr Iff.rfl eq_comm

theorem nodup_numbers (path : Path) (entries : List QueuedCommand) :
    ((groups path entries).map NumberedGroup.number).Nodup := by
  induction entries using List.reverseRecOn with
  | nil => exact List.nodup_nil
  | append_singleton entries q ih =>
      rw [groups_concat]
      cases hline : lineOf? path q with
      | none => exact ih
      | some line =>
          simp only [map_number_addToGroup]
          split
          · exact ih
          · rename_i hnot
            exact List.nodup_append.mpr ⟨ih, List.nodup_singleton _, fun a ha b hb heq =>
              hnot (List.mem_singleton.mp hb ▸ heq ▸ ha)⟩

theorem of_mem_groups {g : NumberedGroup} (h : g ∈ groups path entries) :
    g.group.ids = (entries.filter (stands path g.number)).map QueuedCommand.id ∧
      ∃ q ∈ entries, g.group.ids.head? = some q.id ∧
        lineOf? path q = some { args := g.group.args, group := g.number } := by
  -- On the last entry, as the groups are collected: it stands for no line, it joins the group of
  -- its line, or it opens one.
  induction entries using List.reverseRecOn generalizing g with
  | nil => simp [groups] at h
  | append_singleton entries q ih =>
      rw [groups_concat] at h
      rw [List.filter_append, List.map_append]
      cases hline : lineOf? path q with
      | none =>
          rw [hline] at h
          obtain ⟨hids, p, hp, hfirst⟩ := ih h
          have hnot : stands path g.number q = false := by simp [stands, hline]
          exact ⟨by simp [hids, hnot], p, List.mem_append_left _ hp, hfirst⟩
      | some line =>
          rw [hline] at h
          rcases mem_addToGroup (nodup_numbers path entries) h with
            ⟨hg, hne⟩ | ⟨old, hold, heq, rfl⟩ | ⟨hnew, rfl⟩
          · obtain ⟨hids, p, hp, hfirst⟩ := ih hg
            have hnot : stands path g.number q = false := by
              simpa [stands, hline] using fun heq => hne heq.symm
            exact ⟨by simp [hids, hnot], p, List.mem_append_left _ hp, hfirst⟩
          · obtain ⟨hids, p, hp, hhead, hpline⟩ := ih hold
            have hyes : stands path line.group q = true := stands_iff.mpr ⟨line, hline, rfl⟩
            refine ⟨?_, p, List.mem_append_left _ hp, ?_, ?_⟩
            · simp [hids, heq, hyes]
            · simp [List.head?_append, hhead]
            · rw [hpline, heq]
          · have hyes : stands path line.group q = true := stands_iff.mpr ⟨line, hline, rfl⟩
            have hnone : entries.filter (stands path line.group) = [] := by
              rw [List.filter_eq_nil_iff]
              intro p hp hstands
              exact hnew (mem_numbers_iff.mpr ⟨p, hp, hstands⟩)
            exact ⟨by simp [hnone, hyes], q, by simp, rfl, hline⟩

theorem exists_group {q : QueuedCommand} {line : FileLine} (hq : q ∈ entries)
    (hline : lineOf? path q = some line) :
    ∃ g ∈ groups path entries, g.number = line.group :=
  List.mem_map.mp (mem_numbers_iff.mpr ⟨q, hq, stands_iff.mpr ⟨line, hline, rfl⟩⟩)

/-- Taking the entries of whole groups out leaves the other groups as they are. -/
theorem groups_filter (p : Nat → Bool) (path : Path) (entries : List QueuedCommand) :
    groups path (entries.filter fun q => (lineOf? path q).all fun line => p line.group) =
      (groups path entries).filter fun g => p g.number := by
  induction entries using List.reverseRecOn with
  | nil => rfl
  | append_singleton entries q ih =>
      rw [List.filter_append, groups_concat]
      cases hline : lineOf? path q with
      | none => rw [List.filter_singleton, hline, Option.all_none, cond_true, groups_concat, hline, ih]
      | some line =>
          rw [List.filter_singleton, hline, Option.all_some]
          dsimp only
          rw [filter_addToGroup, ← ih]
          cases hp : p line.group with
          | false => rw [cond_false, List.append_nil, if_neg Bool.false_ne_true]
          | true => rw [cond_true, groups_concat, hline, if_pos rfl]

theorem groups_filter_isSome (path : Path) (entries : List QueuedCommand) :
    groups path (entries.filter fun q => (lineOf? path q).isSome) = groups path entries := by
  induction entries using List.reverseRecOn with
  | nil => rfl
  | append_singleton entries q ih =>
      rw [List.filter_append, List.filter_singleton, groups_concat]
      cases hline : lineOf? path q with
      | none => rw [Option.isSome_none, cond_false, List.append_nil, ih]
      | some line => rw [Option.isSome_some, cond_true, groups_concat, hline, ih]

theorem lineOf?_of_other {other : Path} {q : QueuedCommand} (hother : path.same other = false)
    (h : (lineOf? path q).isSome = true) : lineOf? other q = none := by
  obtain ⟨line, hline⟩ := Option.isSome_iff_exists.mp h
  obtain ⟨-, file, hfile, hsame⟩ := lineOf?_eq_some_iff.mp hline
  rw [Option.eq_none_iff_forall_not_mem]
  intro m hm
  obtain ⟨-, file', hfile', hsame'⟩ := lineOf?_eq_some_iff.mp hm
  obtain rfl : file = file' := Option.some.inj (hfile.symm.trans hfile')
  rw [Path.same_iff] at hsame hsame'
  have hboth : path.same other = true := Path.same_iff.mpr (hsame.symm.trans hsame')
  rw [hother] at hboth
  cases hboth

theorem fromFile_eq_nil {queue : Queue}
    (h : ∀ q ∈ queue.entries, lineOf? path q = none) : queue.fromFile path = [] := by
  have hnone : queue.entries.filter (fun q => (lineOf? path q).isSome) = [] := by
    rw [List.filter_eq_nil_iff]
    intro q hq
    rw [h q hq]
    exact Bool.false_ne_true
  rw [fromFile_eq, ← groups_filter_isSome, hnone]
  rfl

theorem lineOf?_of_same {p : Path} (h : p.same path = true) (q : QueuedCommand) :
    lineOf? p q = lineOf? path q := by
  have hsame : (Path.same · p) = (Path.same · path) := by
    funext file
    rw [Path.same, Path.same, Path.same_iff.mp h]
  rw [lineOf?, lineOf?, hsame]

theorem fromFile_of_same {p : Path} (h : p.same path = true) (queue : Queue) :
    queue.fromFile p = queue.fromFile path := by
  simp only [fromFile, lineOf?_of_same h]

theorem groups_append (hapart : ∀ p ∈ front, ∀ q ∈ back, ∀ l m, lineOf? path p = some l →
      lineOf? path q = some m → l.group ≠ m.group) :
    groups path (front ++ back) = groups path front ++ groups path back := by
  induction back using List.reverseRecOn with
  | nil => rw [List.append_nil, groups, groups, List.foldl_nil, List.append_nil]
  | append_singleton back q ih =>
      have hback := ih fun p hp e he => hapart p hp e (List.mem_append_left _ he)
      rw [← List.append_assoc, groups_concat, groups_concat, hback]
      cases hline : lineOf? path q with
      | none => rfl
      | some line =>
          refine addToGroup_append fun hmem => ?_
          obtain ⟨p, hp, hstands⟩ := mem_numbers_iff.mp hmem
          obtain ⟨l, hl, heq⟩ := stands_iff.mp hstands
          exact hapart p hp q (by simp) l line hl hline heq

theorem groups_of_line {line : FileLine} (hne : entries ≠ [])
    (hline : ∀ q ∈ entries, lineOf? path q = some line) :
    groups path entries = [⟨line.group, ⟨entries.map QueuedCommand.id, line.args⟩⟩] := by
  induction entries using List.reverseRecOn with
  | nil => exact absurd rfl hne
  | append_singleton entries q ih =>
      rw [groups_concat, hline q (by simp)]
      rcases entries.eq_nil_or_concat with rfl | ⟨before, last, rfl⟩
      · rfl
      · rw [ih (by simp) fun p hp => hline p (List.mem_append_left _ hp)]
        simp [addToGroup]

end DeviceLab.Queue
