import DeviceLab.Queue.Basic
import Mathlib.Data.List.Perm.Basic
import Mathlib.Data.List.Sort

namespace DeviceLab

theorem perm_foldl_enterBy {α : Type} {key : α → Nat} {xs added : List α}
    (h : (xs.map key ++ added.map key).Nodup) :
    (added.foldl (fun entered x => enterBy key x entered) xs).Perm (xs ++ added) := by
  induction added generalizing xs with
  | nil => simp
  | cons x rest ih =>
      have hkeys : (xs.map key ++ key x :: rest.map key).Nodup := h
      have hnew : key x ∉ xs.map key := by
        rw [List.nodup_middle] at hkeys
        exact fun hmem => (List.nodup_cons.mp hkeys).1 (List.mem_append_left _ hmem)
      have henter := perm_enterBy hnew
      have hperm : ((enterBy key x xs).map key ++ rest.map key).Perm
          (xs.map key ++ key x :: rest.map key) :=
        ((henter.map key).append_right _).trans List.perm_middle.symm
      rw [List.foldl_cons]
      refine (ih (hperm.nodup_iff.mpr hkeys)).trans ?_
      exact (henter.append_right rest).trans List.perm_middle.symm

theorem enterBy_of_forall_lt {α : Type} {key : α → Nat} {x : α} {xs : List α}
    (h : ∀ y ∈ xs, key y < key x) : enterBy key x xs = xs ++ [x] := by
  induction xs with
  | nil => rfl
  | cons first rest ih =>
      have hfirst := h first List.mem_cons_self
      rw [enterBy, if_neg (by omega), if_neg (by omega)]
      rw [ih fun y hy => h y (List.mem_cons_of_mem _ hy), List.cons_append]

namespace Queue

theorem entries_foldl_push (queue : Queue) (added : List QueuedCommand) :
    (added.foldl push queue).entries =
      added.foldl (fun entered q => enterBy QueuedCommand.id q entered) queue.entries := by
  induction added generalizing queue with
  | nil => rfl
  | cons q rest ih => exact ih (queue.push q)

theorem entries_foldl_push_perm {queue : Queue} {added : List QueuedCommand}
    (h : (queue.ids ++ added.map QueuedCommand.id).Nodup) :
    (added.foldl push queue).entries.Perm (queue.entries ++ added) := by
  rw [entries_foldl_push]
  exact perm_foldl_enterBy h

theorem entries_foldl_push_of_lt {queue : Queue} {added : List QueuedCommand}
    (hascending : (added.map QueuedCommand.id).Pairwise (· < ·))
    (hlt : ∀ p ∈ queue.entries, ∀ q ∈ added, p.id < q.id) :
    (added.foldl push queue).entries = queue.entries ++ added := by
  induction added generalizing queue with
  | nil => simp
  | cons q rest ih =>
      obtain ⟨hfirst, hrest⟩ := List.pairwise_cons.mp hascending
      have hpush : (queue.push q).entries = queue.entries ++ [q] :=
        enterBy_of_forall_lt fun p hp => hlt p hp q List.mem_cons_self
      rw [List.foldl_cons, ih hrest, hpush, List.append_assoc, List.singleton_append]
      rw [hpush]
      intro p hp e he
      rcases List.mem_append.mp hp with hp | hp
      · exact hlt p hp e (List.mem_cons_of_mem _ he)
      · rw [List.mem_singleton.mp hp]
        exact hfirst e.id (List.mem_map_of_mem he)

theorem entries_foldl_erase (queue : Queue) (gone : List Nat) :
    (gone.foldl erase queue).entries = queue.entries.filter (·.id ∉ gone) := by
  induction gone generalizing queue with
  | nil => simp
  | cons id rest ih =>
      rw [List.foldl_cons, ih]
      change (queue.entries.filter (·.id != id)).filter _ = _
      rw [List.filter_filter]
      refine List.filter_congr fun q _ => ?_
      rw [Bool.eq_iff_iff]
      simp [and_comm]

theorem filter_le_append_filter_lt (queue : Queue) (i : Nat) :
    queue.entries.filter (·.id ≤ i) ++ queue.entries.filter (i < ·.id) = queue.entries :=
  DeviceLab.filter_le_append_filter_lt (queue.ascending.imp Nat.le_of_lt) i

end Queue

end DeviceLab
