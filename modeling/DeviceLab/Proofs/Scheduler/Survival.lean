import DeviceLab.Proofs.Scheduler.Balance
import Mathlib.Data.List.Induction

namespace DeviceLab.World

variable {w : World}

theorem runsEnded_append (id : Nat) (w : World) (before after : List Act) :
    runsEnded id w (before ++ after) =
      runsEnded id w before + runsEnded id (w.run before) after := by
  induction before generalizing w with
  | nil => exact (Nat.zero_add _).symm
  | cons a rest ih =>
      rw [List.cons_append, runsEnded, ih, runsEnded, Nat.add_assoc]
      rfl

/-- After some acts a command is in exactly one of the places, and nothing about it has changed but
what its runs since then have added. -/
def Keeps (w : World) (acts : List Act) (q : QueuedCommand) : Prop :=
  (w.run acts).ids.count q.id = 1 ∧
  ∃ e ∈ (w.run acts).scheduler.books.entries, q.After (runsEnded q.id w acts) e

/-- In the course of some acts a command is kept until one of them takes it away for a reason, and
its id never comes back. -/
def Ends (w : World) (acts : List Act) (q : QueuedCommand) : Prop :=
  ∃ during a after, acts = during ++ a :: after ∧
    (∀ prior, prior <+: during → w.Keeps prior q) ∧
    (∃ e ∈ (w.run during).scheduler.books.entries,
      q.After (runsEnded q.id w during) e ∧ (w.run during).Dismisses a e) ∧
    ∀ rest, q.id ∉ (w.run (during ++ a :: rest)).ids

theorem Balanced.mem_ids_iff (h : w.Balanced) {id : Nat} :
    id ∈ w.ids ↔ ∃ q ∈ w.scheduler.books.entries, q.id = id := by
  rw [h.ids_perm.mem_iff, List.mem_map]

theorem Balanced.count_ids (h : w.Balanced) {q : QueuedCommand}
    (hq : q ∈ w.scheduler.books.entries) : w.ids.count q.id = 1 :=
  List.count_eq_one_of_mem (h.ids_perm.nodup_iff.mpr h.orderly.nodup)
    (h.mem_ids_iff.mpr ⟨q, hq, rfl⟩)

theorem Balanced.not_mem_ids_run (h : w.Balanced) {id : Nat} (hid : id < w.scheduler.nextId)
    (hgone : id ∉ w.ids) (acts : List Act) : id ∉ (w.run acts).ids := by
  induction acts generalizing w with
  | nil => exact hgone
  | cons a rest ih =>
      obtain ⟨kept, next, lost, new, hturns⟩ := h.exists_turns a
      refine ih (h.act a) (Nat.lt_of_lt_of_le hid hturns.fresh.le) ?_
      rw [(h.act a).ids_perm.mem_iff]
      exact hturns.not_mem_after hid (h.ids_perm.mem_iff.not.mp hgone)

theorem Ends.append {acts : List Act} {q : QueuedCommand} (h : w.Ends acts q)
    (more : List Act) : w.Ends (acts ++ more) q := by
  obtain ⟨during, a, after, rfl, hkept, hwhy, hgone⟩ := h
  exact ⟨during, a, after ++ more, by simp, hkept, hwhy, hgone⟩

theorem Keeps.act (h : w.Balanced) {acts : List Act} {q : QueuedCommand} (hkept : w.Keeps acts q)
    (a : Act) :
    w.Keeps (acts ++ [a]) q ∨
    (∃ e ∈ (w.run acts).scheduler.books.entries,
      q.After (runsEnded q.id w acts) e ∧ (w.run acts).Dismisses a e) ∧
    ∀ rest, q.id ∉ (w.run (acts ++ a :: rest)).ids := by
  obtain ⟨-, e, he, hafter⟩ := hkept
  have hrun := h.run acts
  have hact := hrun.act a
  obtain ⟨kept, next, lost, new, hturns⟩ := hrun.exists_turns a
  rcases hturns.goes_on_or_dismissed hrun.orderly he with ⟨f, hf, hgoes⟩ | ⟨hdismissed, hgone⟩
  · left
    have hlast : w.run (acts ++ [a]) = (w.run acts).act a := run_append ..
    have hcount : runsEnded q.id w (acts ++ [a]) =
        runsEnded q.id w acts + (w.run acts).endedCount a e.id := by
      rw [runsEnded_append, hafter.id_eq]
      rfl
    have htotal : q.After (runsEnded q.id w (acts ++ [a])) f := hcount ▸ hafter.trans hgoes
    rw [Keeps, hlast, ← htotal.id_eq]
    exact ⟨hact.count_ids hf, f, hf, htotal.id_eq ▸ htotal⟩
  · right
    refine ⟨⟨e, he, hafter, hdismissed⟩, fun rest => ?_⟩
    rw [run_append, ← hafter.id_eq]
    have hid := Nat.lt_of_lt_of_le (hrun.orderly.lt_nextId e he) hturns.fresh.le
    refine hact.not_mem_ids_run hid ?_ rest
    rwa [hact.ids_perm.mem_iff]

/-- However a scheduler has been used: a command that waits in the queue is from then on in exactly
one of the queue, the running commands, and the way back to the queue, as it was but for its runs
that have ended since; until, if ever, an act takes it away.  It does so only by taking it out of
the queue, by ending its only run or one that was fatal or used up what was expected, or when its
run ends or it comes back while the scheduler is shutting down. -/
theorem kept_until_dismissed (settings : SchedulerSettings) (catalog : Catalog)
    (listeners : List String) (before later : List Act) {q : QueuedCommand}
    (hq : q ∈ ((fresh settings catalog listeners).run before).scheduler.queue.entries) :
    let w := (fresh settings catalog listeners).run before
    (∀ prior, prior <+: later → w.Keeps prior q) ∨ w.Ends later q := by
  intro w
  have h : w.Balanced := (balanced_fresh settings catalog listeners).run before
  induction later using List.reverseRecOn with
  | nil =>
      refine .inl fun prior hprior => ?_
      obtain rfl := List.prefix_nil.mp hprior
      have hmem : q ∈ w.scheduler.books.entries := Books.mem_entries_of_mem_queue hq
      exact ⟨h.count_ids hmem, q, hmem, QueuedCommand.After.refl q⟩
  | append_singleton acts a ih =>
      rcases ih with hkept | hends
      · rcases Keeps.act h (hkept acts (List.prefix_refl acts)) a with hgoes | ⟨hwhy, hgone⟩
        · refine .inl fun prior hprior => ?_
          rcases List.prefix_concat_iff.mp hprior with rfl | hprior
          · exact hgoes
          · exact hkept prior hprior
        · exact .inr ⟨acts, a, [], rfl, hkept, hwhy, hgone⟩
      · exact .inr (hends.append [a])

theorem kept_until_dismissed_of_lost_device :
    let start := fresh {} ∅ []
    let add : Act := .add ["smoke", "--loop", "--null-device"]
    let q : QueuedCommand :=
      { command := { id := 1, args := ["smoke", "--loop", "--null-device"], expected := none }
        selection := { nullDevice := true }
        mode := .loop }
    let later : List Act :=
      [.setNullCount 1, .start, .pass, .step 1 fun _ => { ending := .lost "gone" }, .pass]
    q ∈ (start.run [add]).scheduler.queue.entries ∧
      ((∀ prior, prior <+: later → (start.run [add]).Keeps prior q) ∨
        (start.run [add]).Ends later q) :=
  ⟨by decide, kept_until_dismissed {} ∅ [] _ _ (by decide)⟩

end DeviceLab.World
