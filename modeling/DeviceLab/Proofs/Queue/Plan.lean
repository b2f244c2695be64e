import DeviceLab.Proofs.Queue.Diff
import Mathlib.Data.List.Flatten
import Mathlib.Data.List.Perm.Basic

namespace DeviceLab.ReloadPlan

section beyond

variable {α κ : Type} [BEq κ] [LawfulBEq κ]

/-- The items that come after at least as many of their key as the budget has of it. -/
def beyond (key : α → κ) (budget : List κ) (items : List α) : List α :=
  (items.zipIdx.filter fun e =>
    budget.count (key e.1) ≤ ((items.take e.2).map key).count (key e.1)).map Prod.fst

theorem beyond_cons (key : α → κ) (budget : List κ) (item : α) (rest : List α) :
    beyond key budget (item :: rest) =
      (if key item ∈ budget then [] else [item]) ++ beyond key (budget.erase (key item)) rest := by
  have hrest : (rest.zipIdx 1).filter (fun e => budget.count (key e.1) ≤
        (((item :: rest).take e.2).map key).count (key e.1)) =
      (rest.zipIdx.filter fun e => (budget.erase (key item)).count (key e.1) ≤
        ((rest.take e.2).map key).count (key e.1)).map fun e => (e.1, e.2 + 1) := by
    rw [List.zipIdx_succ, List.filter_map]
    refine congrArg _ (List.filter_congr fun e _ => ?_)
    change decide (budget.count (key e.1) ≤
      (((item :: rest).take (e.2 + 1)).map key).count (key e.1)) = _
    rw [decide_eq_decide, List.take_succ_cons, List.map_cons, List.count_cons, List.count_erase]
    omega
  rw [beyond, List.zipIdx_cons, List.filter_cons, hrest]
  by_cases hmem : key item ∈ budget
  · have hpos := List.count_pos_iff.mpr hmem
    rw [if_neg (by simp [List.count_eq_zero, hmem]), if_pos hmem, List.map_map]
    rfl
  · rw [if_pos (by simp [List.count_eq_zero, hmem]), if_neg hmem, List.map_cons, List.map_map]
    rfl

theorem unpaid_eq_beyond (key : α → κ) (budget : List κ) (items : List α) :
    unpaid key budget items = beyond key budget items := by
  induction items generalizing budget with
  | nil => rfl
  | cons item rest ih =>
      rw [unpaid, beyond_cons]
      split
      · rename_i hpays
        rw [if_pos (List.contains_iff_mem.mp hpays), List.nil_append, ih]
      · rename_i hpays
        have hnot : key item ∉ budget := fun hmem => hpays (List.contains_iff_mem.mpr hmem)
        rw [if_neg hnot, List.erase_of_not_mem hnot, List.singleton_append, ih]

omit [LawfulBEq κ] in
theorem paid_append_unpaid_perm (key : α → κ) (budget : List κ) (items : List α) :
    (paid key budget items ++ unpaid key budget items).Perm items := by
  induction items generalizing budget with
  | nil => exact List.Perm.refl _
  | cons item rest ih =>
      rw [paid, unpaid]
      split
      · exact (ih _).cons item
      · exact List.perm_middle.trans ((ih budget).cons item)

end beyond

variable {queued : List LineGroup} {lines : List (List String)}

/-- How a plan brings the queued groups of a file in line with its lines: it keeps some of the
groups and removes the others. -/
structure Reconciles (queued : List LineGroup) (lines : List (List String)) (plan : ReloadPlan)
    (kept removed : List LineGroup) : Prop where
  whole : (kept ++ removed).Perm queued
  kept_sublist : kept.Sublist queued
  removed_sublist : removed.Sublist queued
  kept_first : ∀ args, kept.filter (·.args == args) =
    (queued.filter (·.args == args)).take (lines.count args)
  removed_last : ∀ args, removed.filter (·.args == args) =
    (queued.filter (·.args == args)).drop (lines.count args)
  remove : plan.remove = removed.flatMap LineGroup.ids
  remove_sublist : plan.remove.Sublist (queued.flatMap LineGroup.ids)
  spared : ∀ g ∈ kept, ∀ id ∈ g.ids, id ∉ plan.remove
  count_add : ∀ args,
    plan.add.count args = lines.count args - (queued.map LineGroup.args).count args
  add_sublist : plan.add.Sublist lines
  add_last : plan.add = beyond id (queued.map LineGroup.args) lines
  makes_up : (kept.map LineGroup.args ++ plan.add).Perm lines
  apart : ∀ g ∈ removed, g.args ∉ plan.add

theorem count_add_between (queued : List LineGroup) (lines : List (List String))
    (args : List String) : (between queued lines).add.count args =
      lines.count args - (queued.map LineGroup.args).count args := by
  have hadd := count_unpaid id (queued.map LineGroup.args) lines args
  rwa [List.map_id, List.map_id] at hadd

theorem spared_between (hdisjoint : queued.Pairwise fun g h => ∀ id ∈ g.ids, id ∉ h.ids)
    {g : LineGroup} (hg : g ∈ paid LineGroup.args lines queued) {id : Nat} (hid : id ∈ g.ids) :
    id ∉ (between queued lines).remove := by
  have hperm := paid_append_unpaid_perm LineGroup.args lines queued
  have hsymm : ∀ {g h : LineGroup}, (∀ id ∈ g.ids, id ∉ h.ids) → ∀ id ∈ h.ids, id ∉ g.ids :=
    fun h id hid hid' => h id hid' hid
  have happart := (hperm.pairwise_iff hsymm).mpr hdisjoint
  intro hmem
  obtain ⟨other, hother, hid'⟩ := List.mem_flatMap.mp hmem
  exact (List.pairwise_append.mp happart).2.2 g hg other hother id hid hid'

/-- A group is removed only if there are more groups of its argument list than lines, and a line is
added only if there are fewer. -/
theorem not_mem_add_of_unpaid {g : LineGroup} (hg : g ∈ unpaid LineGroup.args lines queued) :
    g.args ∉ (between queued lines).add := by
  have hremoved : 0 < ((unpaid LineGroup.args lines queued).map LineGroup.args).count g.args :=
    List.count_pos_iff.mpr (List.mem_map_of_mem hg)
  rw [count_unpaid] at hremoved
  intro hmem
  have hadded := List.count_pos_iff.mpr hmem
  rw [count_add_between] at hadded
  omega

theorem reconciles_between (hdisjoint : queued.Pairwise fun g h => ∀ id ∈ g.ids, id ∉ h.ids) :
    Reconciles queued lines (between queued lines) (paid LineGroup.args lines queued)
      (unpaid LineGroup.args lines queued) where
  whole := paid_append_unpaid_perm _ _ _
  kept_sublist := paid_sublist _ _ _
  removed_sublist := unpaid_sublist _ _ _
  kept_first := filter_paid _ _ _
  removed_last := filter_unpaid _ _ _
  remove := rfl
  remove_sublist := (unpaid_sublist _ _ _).flatMap _
  spared := fun _ hg _ hid => spared_between hdisjoint hg hid
  count_add := count_add_between queued lines
  add_sublist := unpaid_sublist _ _ _
  add_last := unpaid_eq_beyond _ _ _
  makes_up := by
    rw [List.perm_iff_count]
    intro args
    rw [List.count_append]
    exact count_paid_add_count_add queued lines args
  apart := fun _ => not_mem_add_of_unpaid

theorem isEmpty_eq_true_iff {plan : ReloadPlan} :
    plan.isEmpty = true ↔ plan.remove = [] ∧ plan.add = [] := by
  rw [isEmpty, Bool.and_eq_true, List.isEmpty_iff, List.isEmpty_iff]

theorem isEmpty_between_of_perm (h : (queued.map LineGroup.args).Perm lines) :
    (between queued lines).isEmpty = true := by
  have hremoved : unpaid LineGroup.args lines queued = [] :=
    unpaid_eq_nil fun args => Nat.le_of_eq (h.count_eq args)
  have hadded : unpaid id (queued.map LineGroup.args) lines = [] := by
    refine unpaid_eq_nil fun args => ?_
    rw [List.map_id]
    exact Nat.le_of_eq (h.count_eq args).symm
  rw [isEmpty_eq_true_iff, between, hremoved, hadded]
  exact ⟨rfl, rfl⟩

/-- The plan is the exact and least change from the queued groups to the lines.  It is empty where
the groups make up the lines already, and only there if each group has an id to remove. -/
theorem between_exact (hdisjoint : queued.Pairwise fun g h => ∀ id ∈ g.ids, id ∉ h.ids) :
    (∃ kept removed, Reconciles queued lines (between queued lines) kept removed) ∧
      ((queued.map LineGroup.args).Perm lines → (between queued lines).isEmpty = true) ∧
      ((∀ g ∈ queued, g.ids ≠ []) → (between queued lines).isEmpty = true →
        (queued.map LineGroup.args).Perm lines) := by
  refine ⟨⟨_, _, reconciles_between hdisjoint⟩, isEmpty_between_of_perm, fun hids hempty => ?_⟩
  have hplan : Reconciles queued lines (between queued lines) (paid LineGroup.args lines queued)
      (unpaid LineGroup.args lines queued) := reconciles_between hdisjoint
  obtain ⟨hremove, hadd⟩ := isEmpty_eq_true_iff.mp hempty
  have hremoved : unpaid LineGroup.args lines queued = [] := by
    rw [List.eq_nil_iff_forall_not_mem]
    intro g hg
    rw [hplan.remove, List.flatMap_eq_nil_iff] at hremove
    exact hids g (hplan.removed_sublist.subset hg) (hremove g hg)
  have hgroups := hplan.whole
  have hlines := hplan.makes_up
  rw [hremoved, List.append_nil] at hgroups
  rw [hadd, List.append_nil] at hlines
  exact (hgroups.map LineGroup.args).symm.trans hlines

/-- A group without ids is not missed: nothing has to be removed for it. -/
theorem isEmpty_beside_group_without_ids :
    let queued : List LineGroup := [⟨[], ["smoke"]⟩]
    queued.Pairwise (fun g h => ∀ id ∈ g.ids, id ∉ h.ids) ∧ (between queued []).isEmpty = true ∧
      ¬(queued.map LineGroup.args).Perm [] := by
  decide

theorem between_exact_of_repeated_lines :
    let queued : List LineGroup :=
      [⟨[1], ["a"]⟩, ⟨[2, 3], ["b"]⟩, ⟨[4], ["a"]⟩, ⟨[5, 6], ["a"]⟩]
    let lines : List (List String) := [["c"], ["b"], ["a"], ["b"], ["c"]]
    queued.Pairwise (fun g h => ∀ id ∈ g.ids, id ∉ h.ids) ∧
      between queued lines = { remove := [4, 5, 6], add := [["c"], ["b"], ["c"]] } ∧
      ∃ kept removed, Reconciles queued lines (between queued lines) kept removed := by
  intro queued lines
  have hdisjoint : queued.Pairwise fun g h => ∀ id ∈ g.ids, id ∉ h.ids := by decide
  exact ⟨hdisjoint, by decide, (between_exact hdisjoint).1⟩

end DeviceLab.ReloadPlan
