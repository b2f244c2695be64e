namespace DeviceLab

variable {α κ : Type} [LT κ] [DecidableLT κ] [DecidableEq κ]

/-- A list with one more item, in the order of keys; an item with the same key is replaced. -/
def enterBy (key : α → κ) (x : α) : List α → List α
  | [] => [x]
  | first :: rest =>
    if key x < key first then x :: first :: rest
    else if key x = key first then x :: rest
    else first :: enterBy key x rest

theorem eq_or_mem_of_mem_enterBy {key : α → κ} {x y : α} {xs : List α}
    (h : y ∈ enterBy key x xs) : y = x ∨ y ∈ xs := by
  induction xs with
  | nil => simpa [enterBy] using h
  | cons first rest ih =>
      simp only [enterBy] at h
      split at h
      · simpa using h
      · split at h
        · rcases List.mem_cons.mp h with h | h
          · exact .inl h
          · exact .inr (List.mem_cons_of_mem _ h)
        · rcases List.mem_cons.mp h with h | h
          · exact .inr (h ▸ List.mem_cons_self)
          · exact (ih h).imp_right (List.mem_cons_of_mem _)

theorem pairwise_enterBy [LE κ] [Std.IsLinearOrder κ] [Std.LawfulOrderLT κ] (key : α → κ)
    (x : α) {xs : List α} (h : xs.Pairwise (key · < key ·)) :
    (enterBy key x xs).Pairwise (key · < key ·) := by
  induction xs with
  | nil => simp [enterBy]
  | cons first rest ih =>
      obtain ⟨hfirst, hrest⟩ := List.pairwise_cons.mp h
      simp only [enterBy]
      split
      · rename_i hlt
        refine List.pairwise_cons.mpr ⟨fun y hy => ?_, h⟩
        rcases List.mem_cons.mp hy with rfl | hy
        · exact hlt
        · exact Std.lt_trans hlt (hfirst y hy)
      · rename_i hge
        split
        · rename_i heq
          exact List.pairwise_cons.mpr ⟨fun y hy => heq ▸ hfirst y hy, hrest⟩
        · rename_i hne
          refine List.pairwise_cons.mpr ⟨fun y hy => ?_, ih hrest⟩
          rcases eq_or_mem_of_mem_enterBy hy with rfl | hy
          · exact Std.lt_of_le_of_ne (Std.not_lt.mp hge) fun heq => hne heq.symm
          · exact hfirst y hy

/-- An item with a new key is there beside the others. -/
theorem perm_enterBy {key : α → κ} {x : α} {xs : List α} (h : key x ∉ xs.map key) :
    (enterBy key x xs).Perm (x :: xs) := by
  induction xs with
  | nil => exact List.Perm.refl _
  | cons first rest ih =>
      simp only [List.map_cons, List.mem_cons, not_or] at h
      rw [enterBy]
      split
      · exact List.Perm.refl _
      · rw [if_neg h.1]
        exact ((ih h.2).cons first).trans (List.Perm.swap x first rest)

omit [DecidableEq κ] in
/-- A list in the order of a key is its items up to a bound followed by those beyond it. -/
theorem filter_le_append_filter_lt [LE κ] [DecidableLE κ] [Std.IsLinearOrder κ]
    [Std.LawfulOrderLT κ] {key : α → κ} {xs : List α} (h : xs.Pairwise (key · ≤ key ·))
    (bound : κ) : xs.filter (key · ≤ bound) ++ xs.filter (bound < key ·) = xs := by
  induction xs with
  | nil => rfl
  | cons first rest ih =>
      obtain ⟨hfirst, hrest⟩ := List.pairwise_cons.mp h
      by_cases hle : key first ≤ bound
      · have hlt : ¬ bound < key first := Std.not_lt.mpr hle
        rw [List.filter_cons_of_pos (by simpa using hle),
          List.filter_cons_of_neg (by simpa using hlt), List.cons_append, ih hrest]
      · have hbeyond : ∀ x ∈ first :: rest, bound < key x := by
          intro x hx
          rcases List.mem_cons.mp hx with rfl | hx
          · exact Std.not_le.mp hle
          · exact Std.lt_of_lt_of_le (Std.not_le.mp hle) (hfirst x hx)
        have hnone : ∀ x ∈ first :: rest, ¬ key x ≤ bound :=
          fun x hx => Std.not_le.mpr (hbeyond x hx)
        rw [List.filter_eq_nil_iff.mpr (by simpa using hnone),
          List.filter_eq_self.mpr (by simpa using hbeyond), List.nil_append]

end DeviceLab
