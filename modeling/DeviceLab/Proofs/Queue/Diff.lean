import DeviceLab.Queue.Reload
import Mathlib.Data.List.Count
import Mathlib.Data.List.Nodup

namespace DeviceLab.ReloadPlan

variable {α β κ : Type} [BEq κ] [LawfulBEq κ] {key : α → κ}

/-- The items that are paid for by a budget of keys, each key of which pays once. -/
def paid (key : α → κ) : List κ → List α → List α
  | _, [] => []
  | budget, item :: rest =>
    if budget.contains (key item) then item :: paid key (budget.erase (key item)) rest
    else paid key budget rest

omit [LawfulBEq κ] in
theorem paid_sublist (key : α → κ) (budget : List κ) (items : List α) :
    (paid key budget items).Sublist items := by
  induction items generalizing budget with
  | nil => exact List.Sublist.refl _
  | cons item rest ih =>
      rw [paid]
      split
      · exact (ih _).cons_cons item
      · exact (ih _).cons item

theorem count_eq_succ {budget : List κ} {k : κ} (h : k ∈ budget) :
    budget.count k = (budget.erase k).count k + 1 := by
  have hpos := List.count_pos_iff.mpr h
  rw [List.count_erase_self]
  omega

theorem filter_paid (key : α → κ) (budget : List κ) (items : List α) (k : κ) :
    (paid key budget items).filter (key · == k) =
      (items.filter (key · == k)).take (budget.count k) := by
  induction items generalizing budget with
  | nil => simp [paid]
  | cons item rest ih =>
      rw [paid, List.filter_cons]
      by_cases hk : key item = k
      · rw [if_pos (beq_iff_eq.mpr hk)]
        split
        · rename_i hpays
          have hmem : k ∈ budget := hk ▸ List.contains_iff_mem.mp hpays
          rw [List.filter_cons, if_pos (beq_iff_eq.mpr hk), ih, hk, count_eq_succ hmem,
            List.take_succ_cons]
        · rename_i hpays
          have hnot : k ∉ budget := fun hmem => hpays (List.contains_iff_mem.mpr (hk ▸ hmem))
          rw [ih, List.count_eq_zero_of_not_mem hnot, List.take_zero, List.take_zero]
      · have hne : (key item == k) = false := beq_false_of_ne hk
        rw [if_neg (ne_true_of_eq_false hne)]
        split
        · rw [List.filter_cons, if_neg (ne_true_of_eq_false hne), ih,
            List.count_erase_of_ne fun heq => hk heq.symm]
        · exact ih budget

theorem filter_unpaid (key : α → κ) (budget : List κ) (items : List α) (k : κ) :
    (unpaid key budget items).filter (key · == k) =
      (items.filter (key · == k)).drop (budget.count k) := by
  induction items generalizing budget with
  | nil => simp
  | cons item rest ih =>
      rw [unpaid, List.filter_cons]
      by_cases hk : key item = k
      · rw [if_pos (beq_iff_eq.mpr hk)]
        split
        · rename_i hpays
          have hmem : k ∈ budget := hk ▸ List.contains_iff_mem.mp hpays
          rw [ih, hk, count_eq_succ hmem, List.drop_succ_cons]
        · rename_i hpays
          have hnot : k ∉ budget := fun hmem => hpays (List.contains_iff_mem.mpr (hk ▸ hmem))
          rw [List.filter_cons, if_pos (beq_iff_eq.mpr hk), ih,
            List.count_eq_zero_of_not_mem hnot, List.drop_zero, List.drop_zero]
      · have hne : (key item == k) = false := beq_false_of_ne hk
        rw [if_neg (ne_true_of_eq_false hne)]
        split
        · rw [ih, List.count_erase_of_ne fun heq => hk heq.symm]
        · rw [List.filter_cons, if_neg (ne_true_of_eq_false hne)]
          exact ih budget

omit [LawfulBEq κ] in
theorem count_map_key (key : α → κ) (items : List α) (k : κ) :
    (items.map key).count k = (items.filter (key · == k)).length := by
  rw [List.count, List.countP_map, List.countP_eq_length_filter]
  rfl

theorem count_unpaid (key : α → κ) (budget : List κ) (items : List α) (k : κ) :
    ((unpaid key budget items).map key).count k = (items.map key).count k - budget.count k := by
  rw [count_map_key, count_map_key, filter_unpaid, List.length_drop]

theorem unpaid_eq_nil {budget : List κ} {items : List α}
    (h : ∀ k, (items.map key).count k ≤ budget.count k) : unpaid key budget items = [] := by
  rw [← List.map_eq_nil_iff (f := key), List.eq_nil_iff_forall_not_mem]
  intro k hk
  have hpos := List.count_pos_iff.mpr hk
  rw [count_unpaid] at hpos
  have hle := h k
  omega

omit [LawfulBEq κ] in
theorem unpaid_of_no_budget (key : α → κ) (items : List α) : unpaid key [] items = items := by
  induction items with
  | nil => rfl
  | cons item rest ih => exact congrArg (item :: ·) ih

omit [LawfulBEq κ] in
theorem unpaid_map (key : α → κ) (f : β → α) (budget : List κ) (items : List β) :
    unpaid key budget (items.map f) = (unpaid (fun x => key (f x)) budget items).map f := by
  induction items generalizing budget with
  | nil => rfl
  | cons item rest ih =>
      rw [List.map_cons, unpaid, unpaid]
      split
      · exact ih _
      · rw [List.map_cons, ih]

omit [LawfulBEq κ] in
theorem paid_map (key : α → κ) (f : β → α) (budget : List κ) (items : List β) :
    paid key budget (items.map f) = (paid (fun x => key (f x)) budget items).map f := by
  induction items generalizing budget with
  | nil => rfl
  | cons item rest ih =>
      rw [List.map_cons, paid, paid]
      split
      · rw [List.map_cons, ih]
      · exact ih _

theorem count_paid (key : α → κ) (budget : List κ) (items : List α) (k : κ) :
    ((paid key budget items).map key).count k =
      min (budget.count k) ((items.map key).count k) := by
  rw [count_map_key, count_map_key, filter_paid, List.length_take]

omit [LawfulBEq κ] in
theorem filter_not_mem_unpaid {name : α → Nat} {budget : List κ} {items : List α}
    (hnodup : (items.map name).Nodup) :
    items.filter (fun x => name x ∉ (unpaid key budget items).map name) =
      paid key budget items := by
  induction items generalizing budget with
  | nil => rfl
  | cons item rest ih =>
      obtain ⟨hnew, hrest⟩ := List.nodup_cons.mp hnodup
      rw [unpaid, paid]
      split
      · have hkept : name item ∉ (unpaid key (budget.erase (key item)) rest).map name :=
          fun hmem => hnew (((unpaid_sublist key _ rest).map name).subset hmem)
        rw [List.filter_cons_of_pos (by simpa using hkept), ih hrest]
      · rw [List.filter_cons_of_neg (by simp), ← ih hrest]
        refine List.filter_congr fun x hx => ?_
        have hne : name x ≠ name item := fun heq => hnew (heq ▸ List.mem_map_of_mem hx)
        rw [Bool.eq_iff_iff, decide_eq_true_eq, decide_eq_true_eq, List.map_cons, List.mem_cons,
          not_or]
        exact and_iff_right hne

theorem between_nil (lines : List (List String)) : between [] lines = { add := lines } :=
  congrArg (ReloadPlan.mk []) (unpaid_of_no_budget id lines)

theorem count_paid_add_count_add (queued : List LineGroup) (lines : List (List String))
    (args : List String) :
    ((paid LineGroup.args lines queued).map LineGroup.args).count args +
      (between queued lines).add.count args = lines.count args := by
  have hpaid := count_paid LineGroup.args lines queued args
  have hadd := count_unpaid id (queued.map LineGroup.args) lines args
  rw [List.map_id, List.map_id] at hadd
  have hbetween : (between queued lines).add = unpaid id (queued.map LineGroup.args) lines := rfl
  rw [hpaid, hbetween, hadd]
  omega

end DeviceLab.ReloadPlan
