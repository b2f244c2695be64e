import DeviceLab.Proofs.Scheduler.World
import Mathlib.Data.List.Forall2

/-!
Where the commands are.

A command at hand waits, runs, or is on its way back to the queue.  An act lets most commands be;
of the others it takes some on by a run, and takes some away, for one of a few reasons.
-/

namespace DeviceLab

open List (Forall₂)

/-- The command `q` after some more runs: nothing but the counts of runs and of their time, and when
it is ready, has changed.  Each run adds one to the count, which is kept in 32 bits. -/
def QueuedCommand.After (q : QueuedCommand) (runs : Nat) (e : QueuedCommand) : Prop :=
  e.command.executions = (q.command.executions + runs) % UInt32.size ∧
  ∃ counter execTime readyAt, e = { q with
    command := { q.command with counter, execTime }
    readyAt }

theorem QueuedCommand.After.refl (q : QueuedCommand) : q.After 0 q :=
  ⟨(Nat.mod_eq_of_lt q.command.executions_lt).symm, q.command.counter, q.command.execTime,
    q.readyAt, rfl⟩

theorem QueuedCommand.After.trans {q e f : QueuedCommand} {m n : Nat} (hqe : q.After m e)
    (hef : e.After n f) : q.After (m + n) f := by
  obtain ⟨hcount, _, _, _, rfl⟩ := hqe
  obtain ⟨hcount', counter, execTime, readyAt, rfl⟩ := hef
  refine ⟨?_, counter, execTime, readyAt, rfl⟩
  rw [hcount', hcount, Nat.mod_add_mod, Nat.add_assoc]

theorem QueuedCommand.After.id_eq {q e : QueuedCommand} {n : Nat} (h : q.After n e) :
    e.id = q.id := by
  obtain ⟨-, _, _, _, rfl⟩ := h
  rfl

theorem QueuedCommand.After.mode_eq {q e : QueuedCommand} {n : Nat} (h : q.After n e) :
    e.mode = q.mode := by
  obtain ⟨-, _, _, _, rfl⟩ := h
  rfl

theorem exists_of_forall₂ {α β : Type} {R : α → β → Prop} {xs : List α} {ys : List β}
    (h : Forall₂ R xs ys) {x : α} (hx : x ∈ xs) : ∃ y ∈ ys, R x y := by
  induction h with
  | nil => simp at hx
  | cons hrel _ ih =>
      rcases List.mem_cons.mp hx with rfl | hx
      · exact ⟨_, List.mem_cons_self, hrel⟩
      · obtain ⟨y, hy, hrel⟩ := ih hx
        exact ⟨y, List.mem_cons_of_mem _ hy, hrel⟩

namespace Books

/-- The commands at hand. -/
def entries (b : Books) : List QueuedCommand :=
  b.queue.entries ++ b.runs.map Run.entry ++ b.requeues

/-- The commands at hand have different ids, all taken before, and each is to be run once or in a
loop. -/
structure Orderly (b : Books) : Prop where
  nodup : (b.entries.map QueuedCommand.id).Nodup
  lt_nextId : ∀ q ∈ b.entries, q.id < b.nextId
  mode : ∀ q ∈ b.entries, q.mode = .oneShot ∨ q.mode = .loop

namespace Orderly

variable {b c : Books}

theorem of_perm (h : b.Orderly) {next new : List QueuedCommand}
    (hids : (next.map QueuedCommand.id).Subperm (b.entries.map QueuedCommand.id))
    (hmode : ∀ e ∈ next, e.mode = .oneShot ∨ e.mode = .loop)
    (hfresh : Fresh b.nextId c.nextId new) (hperm : c.entries.Perm (next ++ new)) :
    c.Orderly := by
  have hlt : ∀ e ∈ next, e.id < b.nextId := by
    intro e he
    obtain ⟨q, hq, heq⟩ := List.mem_map.mp (hids.subset (List.mem_map_of_mem he))
    exact heq ▸ h.lt_nextId q hq
  refine ⟨?_, fun e he => ?_, fun e he => ?_⟩
  · rw [(hperm.map QueuedCommand.id).nodup_iff, List.map_append]
    obtain ⟨ids, hpermuted, hsublist⟩ := hids
    refine List.nodup_append.mpr
      ⟨hpermuted.nodup_iff.mp (hsublist.nodup h.nodup), hfresh.nodup, ?_⟩
    rintro _ hnext _ hnew rfl
    obtain ⟨e, he, heq⟩ := List.mem_map.mp hnext
    obtain ⟨f, hf, hfeq⟩ := List.mem_map.mp hnew
    have hebound := hlt e he
    have hfbound := (hfresh.bounds f hf).1
    omega
  · rcases List.mem_append.mp (hperm.subset he) with he | he
    · exact Nat.lt_of_lt_of_le (hlt e he) hfresh.le
    · exact (hfresh.bounds e he).2
  · rcases List.mem_append.mp (hperm.subset he) with he | he
    · exact hmode e he
    · exact hfresh.mode e he

end Orderly

end Books

namespace World

/-- Why an act takes a command away: it is taken out of the queue; its only run ends; its run ends
in a fatal error or has used up what was expected of it; or, while the scheduler is shutting down,
its run ends or it is dropped on its way back. -/
inductive Dismisses (w : World) : Act → QueuedCommand → Prop
  | removed {q : QueuedCommand} (hwaits : q ∈ w.scheduler.queue.entries) :
      Dismisses w .removeAll q
  | reloaded {q : QueuedCommand} {tree : FileTree} {path : Path} {extraArgs : List String}
      (hwaits : q ∈ w.scheduler.queue.entries) :
      Dismisses w (.notifyChanged tree path extraArgs) q
  | once {q : QueuedCommand} {a : Act} {outcome : Outcome}
      (hended : w.ended? a = some (q.id, outcome)) (hmode : q.mode = .oneShot) : Dismisses w a q
  | fatal {q : QueuedCommand} {a : Act} {outcome : Outcome}
      (hended : w.ended? a = some (q.id, outcome)) (hmode : q.mode = .loop)
      (hfatal : outcome.isFatal = true) : Dismisses w a q
  | spent {q : QueuedCommand} {a : Act} {outcome : Outcome} {n : Nat}
      (hended : w.ended? a = some (q.id, outcome)) (hmode : q.mode = .loop)
      (hexpected : q.command.expected = some n)
      (hspent : n ≤ (q.command.executions + 1) % UInt32.size) : Dismisses w a q
  | halted {q : QueuedCommand} {a : Act} {outcome : Outcome}
      (hended : w.ended? a = some (q.id, outcome)) (hmode : q.mode = .loop)
      (hdown : w.scheduler.shuttingDown = true) : Dismisses w a q
  | dropped {q : QueuedCommand} (hback : Event.requeue q ∈ w.scheduler.channel)
      (hdown : w.scheduler.shuttingDown = true) : Dismisses w .pass q

/-- What an act does to the commands at hand: those of `kept` go on as those of `next`, those of
`lost` are taken away, and those of `new` are new, either submitted or taken up directly. -/
structure Turns (w : World) (a : Act) (kept next lost new : List QueuedCommand) : Prop where
  before_perm : w.scheduler.books.entries.Perm (kept ++ lost)
  after_perm : (w.act a).scheduler.books.entries.Perm (next ++ new)
  goes_on : Forall₂ (fun q e => q.After (w.endedCount a q.id) e) kept next
  dismissed : ∀ q ∈ lost, w.Dismisses a q
  fresh : Fresh w.scheduler.nextId (w.act a).scheduler.nextId new
  source : Submitted w.scheduler.nextId (w.act a).scheduler.nextId new ∨
    ∃ listener d args q, a = .exec listener d args ∧ d ∈ w.held ∧ new = [q] ∧
      q.command = { id := w.scheduler.nextId, args }

namespace Turns

variable {w : World} {a : Act} {kept next lost new : List QueuedCommand}

theorem map_id (h : w.Turns a kept next lost new) :
    next.map QueuedCommand.id = kept.map QueuedCommand.id := by
  have hgoes := h.goes_on
  clear h
  induction hgoes with
  | nil => rfl
  | cons hafter _ ih => rw [List.map_cons, List.map_cons, ih, hafter.id_eq]

theorem exists_of_mem_kept (h : w.Turns a kept next lost new) {q : QueuedCommand}
    (hq : q ∈ kept) : ∃ e ∈ next, q.After (w.endedCount a q.id) e :=
  exists_of_forall₂ h.goes_on hq

theorem exists_of_mem_next (h : w.Turns a kept next lost new) {e : QueuedCommand}
    (he : e ∈ next) : ∃ q ∈ kept, q.After (w.endedCount a q.id) e :=
  exists_of_forall₂ h.goes_on.flip he

theorem ids_before (h : w.Turns a kept next lost new) :
    (w.scheduler.books.entries.map QueuedCommand.id).Perm
      (kept.map QueuedCommand.id ++ lost.map QueuedCommand.id) := by
  rw [← List.map_append]
  exact h.before_perm.map QueuedCommand.id

theorem ids_after (h : w.Turns a kept next lost new) :
    ((w.act a).scheduler.books.entries.map QueuedCommand.id).Perm
      (kept.map QueuedCommand.id ++ new.map QueuedCommand.id) := by
  rw [← h.map_id, ← List.map_append]
  exact h.after_perm.map QueuedCommand.id

theorem not_mem_new (h : w.Turns a kept next lost new) {id : Nat} (hid : id < w.scheduler.nextId) :
    id ∉ new.map QueuedCommand.id := by
  intro hmem
  obtain ⟨e, he, rfl⟩ := List.mem_map.mp hmem
  have hle := (h.fresh.bounds e he).1
  omega

theorem orderly (h : w.Turns a kept next lost new) (horderly : w.scheduler.books.Orderly) :
    (w.act a).scheduler.books.Orderly := by
  refine horderly.of_perm ?_ (fun e he => ?_) h.fresh h.after_perm
  · rw [h.map_id]
    exact (List.sublist_append_left _ _).subperm.trans h.ids_before.symm.subperm
  · obtain ⟨q, hq, hafter⟩ := h.exists_of_mem_next he
    have hq := h.before_perm.mem_iff.mpr (List.mem_append_left lost hq)
    rw [hafter.mode_eq]
    exact horderly.mode q hq

theorem goes_on_or_dismissed (h : w.Turns a kept next lost new)
    (horderly : w.scheduler.books.Orderly) {q : QueuedCommand}
    (hq : q ∈ w.scheduler.books.entries) :
    (∃ e ∈ (w.act a).scheduler.books.entries, q.After (w.endedCount a q.id) e) ∨
    (w.Dismisses a q ∧ q.id ∉ (w.act a).scheduler.books.entries.map QueuedCommand.id) := by
  rcases List.mem_append.mp (h.before_perm.subset hq) with hkept | hlost
  · left
    obtain ⟨e, he, hafter⟩ := h.exists_of_mem_kept hkept
    exact ⟨e, h.after_perm.mem_iff.mpr (List.mem_append_left new he), hafter⟩
  · right
    refine ⟨h.dismissed q hlost, fun hmem => ?_⟩
    have hapart := (List.nodup_append.mp (h.ids_before.nodup_iff.mp horderly.nodup)).2.2
    rcases List.mem_append.mp (h.ids_after.subset hmem) with hkept | hnew
    · exact hapart _ hkept _ (List.mem_map_of_mem hlost) rfl
    · exact h.not_mem_new (horderly.lt_nextId q hq) hnew

theorem not_mem_after (h : w.Turns a kept next lost new) {id : Nat}
    (hid : id < w.scheduler.nextId)
    (hgone : id ∉ w.scheduler.books.entries.map QueuedCommand.id) :
    id ∉ (w.act a).scheduler.books.entries.map QueuedCommand.id := by
  intro hmem
  rcases List.mem_append.mp (h.ids_after.subset hmem) with hkept | hnew
  · exact hgone (h.ids_before.mem_iff.mpr (List.mem_append_left _ hkept))
  · exact h.not_mem_new hid hnew

end Turns

end World

end DeviceLab
