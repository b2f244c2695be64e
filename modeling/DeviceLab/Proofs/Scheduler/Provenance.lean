import DeviceLab.Proofs.Scheduler.Balance
import Mathlib.Data.List.Induction

namespace DeviceLab

theorem QueuedCommand.After.line_eq {q e : QueuedCommand} {n : Nat} (h : q.After n e) :
    e.command.line = q.command.line := by
  obtain ⟨-, _, _, _, rfl⟩ := h
  rfl

theorem QueuedCommand.After.file_eq {q e : QueuedCommand} {n : Nat} (h : q.After n e) :
    e.command.file = q.command.file := by
  obtain ⟨-, _, _, _, rfl⟩ := h
  rfl

theorem QueuedCommand.After.args_eq {q e : QueuedCommand} {n : Nat} (h : q.After n e) :
    e.command.args = q.command.args := by
  obtain ⟨-, _, _, _, rfl⟩ := h
  rfl

namespace World

variable {w : World} {a : Act} {kept next lost new : List QueuedCommand}

namespace Turns

theorem mem_entries_of_mem_kept (h : w.Turns a kept next lost new) {q : QueuedCommand}
    (hq : q ∈ kept) : q ∈ w.scheduler.books.entries :=
  h.before_perm.mem_iff.mpr (List.mem_append_left lost hq)

theorem lined_new (h : w.Turns a kept next lost new) :
    Lined new ∧ ∀ q ∈ new, ∀ l, q.command.line = some l → w.scheduler.nextId ≤ l.group := by
  rcases h.source with hnew | ⟨listener, d, args, q, -, -, rfl, hcommand⟩
  · exact ⟨hnew.lined, hnew.le_group⟩
  · have hline : ∀ e ∈ [q], e.command.line = none := by
      intro e he
      rw [List.mem_singleton.mp he, hcommand]
    constructor
    · exact Lined.of_no_line hline
    · intro e he l hl
      rw [hline e he] at hl
      cases hl

theorem lined (h : w.Turns a kept next lost new) (horderly : w.scheduler.books.Orderly)
    (hlined : Lined w.scheduler.books.entries) : Lined (w.act a).scheduler.books.entries := by
  obtain ⟨hnew, hgroups⟩ := h.lined_new
  have hnext : Lined next := by
    refine hlined.congr fun e he => ?_
    obtain ⟨q, hq, hafter⟩ := h.exists_of_mem_next he
    exact ⟨q, h.mem_entries_of_mem_kept hq, hafter.line_eq, hafter.id_eq⟩
  refine (hnext.append hnew (fun e he => ?_) hgroups).mono h.after_perm.subset
  obtain ⟨q, hq, hafter⟩ := h.exists_of_mem_next he
  rw [hafter.id_eq]
  exact horderly.lt_nextId q (h.mem_entries_of_mem_kept hq)

end Turns

/-- Whether a command was taken up directly in the course of some acts: by the one that took its id,
on a device that an outside holder had claimed. -/
def TakenUp (w : World) (acts : List Act) (q : QueuedCommand) : Prop :=
  ∃ before listener d after, acts = before ++ .exec listener d q.command.args :: after ∧
    d ∈ (w.run before).held ∧ (w.run before).scheduler.nextId = q.id

theorem TakenUp.append {acts : List Act} {q : QueuedCommand} (h : w.TakenUp acts q)
    (more : List Act) : w.TakenUp (acts ++ more) q := by
  obtain ⟨before, listener, d, after, rfl, hd, hid⟩ := h
  exact ⟨before, listener, d, after ++ more, by simp, hd, hid⟩

theorem TakenUp.after {acts : List Act} {q e : QueuedCommand} {n : Nat} (h : w.TakenUp acts q)
    (hafter : q.After n e) : w.TakenUp acts e := by
  rw [TakenUp, hafter.args_eq, hafter.id_eq]
  exact h

/-- Whether a command asks for a run if it can be read at all, or was taken up directly. -/
def Justified (w : World) (acts : List Act) (q : QueuedCommand) : Prop :=
  q.RunsIfRead ∨ w.TakenUp acts q

theorem Turns.justified {acts : List Act} (h : (w.run acts).Turns a kept next lost new)
    (hjustified : ∀ q ∈ (w.run acts).scheduler.books.entries, w.Justified acts q) :
    ∀ q ∈ ((w.run acts).act a).scheduler.books.entries, w.Justified (acts ++ [a]) q := by
  intro e he
  rcases List.mem_append.mp (h.after_perm.subset he) with he | he
  · obtain ⟨q, hq, hafter⟩ := h.exists_of_mem_next he
    rcases hjustified q (h.mem_entries_of_mem_kept hq) with hruns | htaken
    · left
      rw [QueuedCommand.RunsIfRead, hafter.args_eq]
      exact hruns
    · exact .inr ((htaken.after hafter).append [a])
  · rcases h.source with hnew | ⟨listener, d, args, q, rfl, hd, rfl, hcommand⟩
    · exact .inl (hnew.asks e he)
    · obtain rfl := List.mem_singleton.mp he
      refine .inr ⟨acts, listener, d, [], ?_, hd, (congrArg Command.id hcommand).symm⟩
      rw [hcommand]

section reachable

variable (settings : SchedulerSettings) (catalog : Catalog) (listeners : List String)
  (acts : List Act)

theorem lined_run :
    Lined ((fresh settings catalog listeners).run acts).scheduler.books.entries := by
  induction acts using List.reverseRecOn with
  | nil => exact Lined.of_no_line (by simp [fresh, run, Scheduler.books, Books.entries])
  | append_singleton acts a ih =>
      have h := (balanced_fresh settings catalog listeners).run acts
      obtain ⟨kept, next, lost, new, hturns⟩ := h.exists_turns a
      rw [run_append]
      exact hturns.lined h.orderly ih

theorem lined_queue_run :
    Lined ((fresh settings catalog listeners).run acts).scheduler.queue.entries :=
  (lined_run settings catalog listeners acts).mono fun _ hq => Books.mem_entries_of_mem_queue hq

theorem justified_run :
    ∀ q ∈ ((fresh settings catalog listeners).run acts).scheduler.books.entries,
      (fresh settings catalog listeners).Justified acts q := by
  induction acts using List.reverseRecOn with
  | nil => simp [fresh, run, Scheduler.books, Books.entries]
  | append_singleton acts a ih =>
      have h := (balanced_fresh settings catalog listeners).run acts
      obtain ⟨kept, next, lost, new, hturns⟩ := h.exists_turns a
      rw [run_append]
      exact hturns.justified ih

end reachable

end World

end DeviceLab
