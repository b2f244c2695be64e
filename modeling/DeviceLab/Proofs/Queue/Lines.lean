import DeviceLab.Proofs.Command.Reading
import DeviceLab.Proofs.Queue.Groups

namespace DeviceLab

/-- What entries stand for in command files.  Each line is one that is to be run and has its own
group; the groups are numbered in the order of the ids, from before the first id of their own. -/
structure Lined (entries : List QueuedCommand) : Prop where
  runs : ∀ q ∈ entries, ∀ l, q.command.line = some l → Configuration.asksToRun l.args = true
  group_le : ∀ q ∈ entries, ∀ l, q.command.line = some l → l.group ≤ q.id
  args_eq : ∀ p ∈ entries, ∀ q ∈ entries, ∀ l m, p.command.line = some l →
    q.command.line = some m → l.group = m.group → l.args = m.args
  apart : ∀ p ∈ entries, ∀ q ∈ entries, ∀ l m, p.command.line = some l →
    q.command.line = some m → l.group < m.group → p.id < m.group

namespace Lined

variable {entries next older younger : List QueuedCommand}

theorem congr (h : Lined entries)
    (hnext : ∀ e ∈ next, ∃ q ∈ entries, e.command.line = q.command.line ∧ e.id = q.id) :
    Lined next where
  runs e he l hl := by
    obtain ⟨q, hq, hline, -⟩ := hnext e he
    exact h.runs q hq l (hline ▸ hl)
  group_le e he l hl := by
    obtain ⟨q, hq, hline, hid⟩ := hnext e he
    exact hid ▸ h.group_le q hq l (hline ▸ hl)
  args_eq e he f hf l m hl hm := by
    obtain ⟨p, hp, hpline, -⟩ := hnext e he
    obtain ⟨q, hq, hqline, -⟩ := hnext f hf
    exact h.args_eq p hp q hq l m (hpline ▸ hl) (hqline ▸ hm)
  apart e he f hf l m hl hm := by
    obtain ⟨p, hp, hpline, hid⟩ := hnext e he
    obtain ⟨q, hq, hqline, -⟩ := hnext f hf
    exact hid ▸ h.apart p hp q hq l m (hpline ▸ hl) (hqline ▸ hm)

theorem mono (h : Lined entries) (hsub : next ⊆ entries) : Lined next :=
  h.congr fun e he => ⟨e, hsub he, rfl, rfl⟩

theorem of_no_line (h : ∀ q ∈ entries, q.command.line = none) : Lined entries where
  runs q hq l hl := absurd hl (by simp [h q hq])
  group_le q hq l hl := absurd hl (by simp [h q hq])
  args_eq q hq _ _ l _ hl := absurd hl (by simp [h q hq])
  apart q hq _ _ l _ hl := absurd hl (by simp [h q hq])

theorem of_line {line : FileLine}
    (hline : ∀ q ∈ entries, q.command.line = some line ∧ line.group ≤ q.id)
    (hruns : Configuration.asksToRun line.args = true) : Lined entries where
  runs q hq l hl := by
    obtain rfl : line = l := Option.some.inj ((hline q hq).1.symm.trans hl)
    exact hruns
  group_le q hq l hl := by
    obtain rfl : line = l := Option.some.inj ((hline q hq).1.symm.trans hl)
    exact (hline q hq).2
  args_eq p hp q hq l m hl hm _ := by
    obtain rfl : line = l := Option.some.inj ((hline p hp).1.symm.trans hl)
    obtain rfl : line = m := Option.some.inj ((hline q hq).1.symm.trans hm)
    rfl
  apart p hp q hq l m hl hm hlt := by
    obtain rfl : line = l := Option.some.inj ((hline p hp).1.symm.trans hl)
    obtain rfl : line = m := Option.some.inj ((hline q hq).1.symm.trans hm)
    exact absurd hlt (Nat.lt_irrefl _)

theorem append {mid : Nat} (holder : Lined older) (hyounger : Lined younger)
    (hlt : ∀ q ∈ older, q.id < mid)
    (hle : ∀ q ∈ younger, ∀ l, q.command.line = some l → mid ≤ l.group) :
    Lined (older ++ younger) where
  runs q hq := (List.mem_append.mp hq).elim (holder.runs q) (hyounger.runs q)
  group_le q hq := (List.mem_append.mp hq).elim (holder.group_le q) (hyounger.group_le q)
  args_eq p hp q hq l m hl hm heq := by
    rcases List.mem_append.mp hp with hp | hp <;> rcases List.mem_append.mp hq with hq | hq
    · exact holder.args_eq p hp q hq l m hl hm heq
    · have hgroup := holder.group_le p hp l hl
      have hid := hlt p hp
      have hfrom := hle q hq m hm
      omega
    · have hgroup := holder.group_le q hq m hm
      have hid := hlt q hq
      have hfrom := hle p hp l hl
      omega
    · exact hyounger.args_eq p hp q hq l m hl hm heq
  apart p hp q hq l m hl hm hgroups := by
    rcases List.mem_append.mp hp with hp | hp <;> rcases List.mem_append.mp hq with hq | hq
    · exact holder.apart p hp q hq l m hl hm hgroups
    · exact Nat.lt_of_lt_of_le (hlt p hp) (hle q hq m hm)
    · have hgroup := holder.group_le q hq m hm
      have hid := hlt q hq
      have hfrom := hle p hp l hl
      omega
    · exact hyounger.apart p hp q hq l m hl hm hgroups

theorem groups_append {mid : Nat} (holder : Lined older) (hlt : ∀ q ∈ older, q.id < mid)
    (hle : ∀ q ∈ younger, ∀ l, q.command.line = some l → mid ≤ l.group) (path : Path) :
    Queue.groups path (older ++ younger) =
      Queue.groups path older ++ Queue.groups path younger := by
  apply Queue.groups_append
  intro p hp q hq l m hl hm heq
  have hgroup := holder.group_le p hp l (Queue.lineOf?_eq_some_iff.mp hl).1
  have hfrom := hle q hq m (Queue.lineOf?_eq_some_iff.mp hm).1
  have hid := hlt p hp
  omega

/-- The groups of a file are in the order in which their lines were read. -/
theorem pairwise_numbers (h : Lined entries) (hascending : entries.Pairwise (·.id < ·.id))
    (path : Path) :
    ((Queue.groups path entries).map Queue.NumberedGroup.number).Pairwise (· < ·) := by
  induction entries using List.reverseRecOn with
  | nil => exact List.Pairwise.nil
  | append_singleton entries q ih =>
      obtain ⟨hfront, -, hlt⟩ := List.pairwise_append.mp hascending
      have hfront := ih (h.mono (List.subset_append_left _ _)) hfront
      rw [Queue.groups_concat]
      cases hline : Queue.lineOf? path q with
      | none => exact hfront
      | some m =>
          simp only [Queue.map_number_addToGroup]
          split
          · exact hfront
          · rename_i hnew
            rw [List.pairwise_append]
            refine ⟨hfront, List.pairwise_singleton _ _, ?_⟩
            intro n hn b hb
            obtain rfl := List.mem_singleton.mp hb
            obtain ⟨p, hp, hstands⟩ := Queue.mem_numbers_iff.mp hn
            obtain ⟨l, hl, rfl⟩ := Queue.stands_iff.mp hstands
            have hl := (Queue.lineOf?_eq_some_iff.mp hl).1
            have hm := (Queue.lineOf?_eq_some_iff.mp hline).1
            have hp' := List.mem_append_left [q] hp
            have hq' : q ∈ entries ++ [q] := by simp
            have hpq := hlt p hp q (List.mem_singleton.mpr rfl)
            have hle := h.group_le p hp' l hl
            have hne : l.group ≠ m.group := fun heq => hnew (heq ▸ hn)
            -- Of two lines the one with the larger number has all its ids beyond those of the
            -- other, and `q` comes last.
            by_contra hge
            have hapart := h.apart q hq' p hp' m l hm hl (by omega)
            omega

theorem pairwise_fromFile {queue : Queue} (h : Lined queue.entries) (path : Path) :
    (queue.fromFile path).Pairwise fun g k => ∀ i ∈ g.ids, ∀ j ∈ k.ids, i < j := by
  rw [Queue.fromFile_eq, List.pairwise_map]
  refine (List.pairwise_map.mp (h.pairwise_numbers queue.ascending path)).imp_of_mem ?_
  intro g k hg hk hlt i hi j hj
  rw [(Queue.of_mem_groups hg).1] at hi
  rw [(Queue.of_mem_groups hk).1] at hj
  obtain ⟨p, hp, rfl⟩ := List.mem_map.mp hi
  obtain ⟨q, hq, rfl⟩ := List.mem_map.mp hj
  obtain ⟨hp, hpstands⟩ := List.mem_filter.mp hp
  obtain ⟨hq, hqstands⟩ := List.mem_filter.mp hq
  obtain ⟨l, hl, hgroup⟩ := Queue.stands_iff.mp hpstands
  obtain ⟨m, hm, hgroup'⟩ := Queue.stands_iff.mp hqstands
  have hl := (Queue.lineOf?_eq_some_iff.mp hl).1
  have hm := (Queue.lineOf?_eq_some_iff.mp hm).1
  have hapart := h.apart p hp q hq l m hl hm (by omega)
  have hle := h.group_le q hq m hm
  omega

theorem asksToRun_of_mem_fromFile {queue : Queue} (h : Lined queue.entries) {path : Path}
    {g : LineGroup} (hg : g ∈ queue.fromFile path) : Configuration.asksToRun g.args = true := by
  rw [Queue.fromFile_eq] at hg
  obtain ⟨k, hk, rfl⟩ := List.mem_map.mp hg
  obtain ⟨-, q, hq, -, hline⟩ := Queue.of_mem_groups hk
  exact h.runs q hq _ (Queue.lineOf?_eq_some_iff.mp hline).1

theorem args_mem_fromFile {queue : Queue} (h : Lined queue.entries) {path : Path}
    {q : QueuedCommand} (hq : q ∈ queue.entries) {line : FileLine}
    (hline : Queue.lineOf? path q = some line) :
    line.args ∈ (queue.fromFile path).map LineGroup.args := by
  obtain ⟨g, hg, hgroup⟩ := Queue.exists_group hq hline
  obtain ⟨-, p, hp, -, hpline⟩ := Queue.of_mem_groups hg
  have hline := (Queue.lineOf?_eq_some_iff.mp hline).1
  have hpline := (Queue.lineOf?_eq_some_iff.mp hpline).1
  have hargs : g.group.args = line.args := h.args_eq p hp q hq _ _ hpline hline hgroup
  rw [Queue.fromFile_eq, ← hargs]
  exact List.mem_map_of_mem (List.mem_map_of_mem hg)

end Lined

end DeviceLab
