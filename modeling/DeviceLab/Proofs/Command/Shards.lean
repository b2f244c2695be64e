import DeviceLab.Command.Shard
import DeviceLab.Proofs.Command.Rendering

namespace DeviceLab

namespace Configuration

variable {c : Configuration} {catalog : Catalog} {desired : Nat} {shards : List Configuration}

@[simp] theorem length_cut {α : Type} (sizes : List Nat) (items : List α) :
    (cut sizes items).length = sizes.length := by
  induction sizes generalizing items with
  | nil => rfl
  | cons size sizes ih => simp [cut, ih]

@[simp] theorem length_runSizes (total count : Nat) : (runSizes total count).length = count := by
  rw [runSizes, List.length_map, List.length_range]

theorem length_le_of_mem_cut {α : Type} {sizes : List Nat} {items run : List α}
    (h : run ∈ cut sizes items) : run.length ≤ items.length := by
  induction sizes generalizing items with
  | nil => cases h
  | cons size sizes ih =>
      rcases List.mem_cons.mp h with rfl | h
      · rw [List.length_take]
        exact Nat.min_le_right _ _
      · have hrest := ih h
        rw [List.length_drop] at hrest
        omega

theorem proportional_le {hint part total : Nat} (h : part ≤ total) :
    proportional hint part total ≤ hint := by
  unfold proportional
  split
  · exact Nat.zero_le hint
  · rename_i htotal
    calc
      hint * part / total ≤ hint * total / total :=
        Nat.div_le_div_right (Nat.mul_le_mul_left hint h)
      _ = hint := Nat.mul_div_cancel hint (Nat.pos_of_ne_zero htotal)

theorem shards?_eq_some_iff :
    c.shards? catalog desired = some shards ↔
      2 ≤ c.target.classes.length ∧ c.target.method = none ∧ 1 ≤ desired ∧
        (c.target.shardUnit = .byClass ∧ shards = c.shardsByClass catalog ∨
          c.target.shardUnit = .byMethod ∧ shards = c.shardsByMethod catalog desired) := by
  have hrefused : (c.target.classes.length < 2 ∨ c.target.method.isSome = true ∨ desired = 0) ↔
      ¬(2 ≤ c.target.classes.length ∧ c.target.method = none ∧ 1 ≤ desired) := by
    cases c.target.method with
    | none => simp; omega
    | some method => simp
  unfold shards?
  split
  · rename_i h
    simp only [reduceCtorEq, false_iff]
    rintro ⟨hclasses, hmethod, hdesired, -⟩
    exact hrefused.mp h ⟨hclasses, hmethod, hdesired⟩
  · rename_i h
    obtain ⟨hclasses, hmethod, hdesired⟩ := Decidable.not_not.mp (mt hrefused.mpr h)
    cases hunit : c.target.shardUnit <;> simp [hclasses, hmethod, hdesired, eq_comm]

theorem shardsByMethod_of_nil (hcases : c.target.cases catalog = []) (desired : Nat) :
    c.shardsByMethod catalog desired =
      List.replicate desired (c.shard { c.target with runtimeHint := 0 }) := by
  dsimp only [shardsByMethod]
  rw [hcases, List.isEmpty_nil, if_pos rfl]

theorem shardsByMethod_of_ne_nil (hcases : c.target.cases catalog ≠ []) (desired : Nat) :
    c.shardsByMethod catalog desired =
      (cut (runSizes (c.target.cases catalog).length (min desired (c.target.cases catalog).length))
        (c.target.cases catalog)).map (c.shardOfRun (c.target.cases catalog).length) := by
  dsimp only [shardsByMethod]
  rw [if_neg (by simpa using hcases)]

theorem of_mem_shards (h : c.shards? catalog desired = some shards) {shard : Configuration}
    (hshard : shard ∈ shards) :
    ∃ target, shard = c.shard target ∧ target.method = none ∧
      target.shardUnit = c.target.shardUnit ∧ target.runtimeHint ≤ c.target.runtimeHint := by
  obtain ⟨-, hmethod, -, ⟨-, rfl⟩ | ⟨-, rfl⟩⟩ := shards?_eq_some_iff.mp h
  · obtain ⟨testClass, -, rfl⟩ := List.mem_map.mp hshard
    exact ⟨_, rfl, hmethod, rfl, proportional_le List.countP_le_length⟩
  · by_cases hcases : c.target.cases catalog = []
    · rw [shardsByMethod_of_nil hcases] at hshard
      obtain rfl := List.eq_of_mem_replicate hshard
      exact ⟨_, rfl, hmethod, rfl, Nat.zero_le _⟩
    · rw [shardsByMethod_of_ne_nil hcases] at hshard
      obtain ⟨run, hrun, rfl⟩ := List.mem_map.mp hshard
      exact ⟨_, rfl, hmethod, rfl, proportional_le (length_le_of_mem_cut hrun)⟩

theorem WellFormed.of_mem_shards (hc : c.WellFormed)
    (h : c.shards? catalog desired = some shards) {shard : Configuration}
    (hshard : shard ∈ shards) : shard.WellFormed := by
  obtain ⟨target, rfl, hmethod, -, hhint⟩ := Configuration.of_mem_shards h hshard
  have hfault : (c.shard target).fault? = none := by
    simp [fault?, shard, unsplit, hmethod]
  have hshardCount : (c.shard target).options.shardCount = none := rfl
  refine ⟨hc.name, hc.minLoopTime, Nat.le_trans hhint hc.runtimeHint, hc.maxRunCount,
    fun n hn => ?_, hc.properties, hfault⟩
  rw [hshardCount] at hn
  cases hn

theorem shards_ne_nil (h : c.shards? catalog desired = some shards) : shards ≠ [] := by
  obtain ⟨hclasses, -, hdesired, ⟨-, rfl⟩ | ⟨-, rfl⟩⟩ := shards?_eq_some_iff.mp h
  · rw [← List.length_pos_iff, shardsByClass, List.length_map]
    omega
  · rw [← List.length_pos_iff]
    by_cases hcases : c.target.cases catalog = []
    · rw [shardsByMethod_of_nil hcases, List.length_replicate]
      omega
    · have hpos : 0 < (c.target.cases catalog).length := List.length_pos_iff.mpr hcases
      rw [shardsByMethod_of_ne_nil hcases, List.length_map, length_cut, length_runSizes]
      omega

end Configuration

namespace Command

variable {c : Command}

theorem map_id_number (c : Command) (start : Nat) (shards : List Configuration) :
    (c.number start shards).map Command.id = List.range' start shards.length := by
  induction shards generalizing start with
  | nil => rfl
  | cons shard rest ih =>
      rw [number, List.map_cons, ih, List.length_cons, List.range'_succ]

theorem map_args_number (c : Command) (start : Nat) (shards : List Configuration) :
    (c.number start shards).map Command.args = shards.map Configuration.toArgs := by
  induction shards generalizing start with
  | nil => rfl
  | cons shard rest ih => rw [number, List.map_cons, ih, List.map_cons]

theorem of_mem_number {start : Nat} {shards : List Configuration} {command : Command}
    (h : command ∈ c.number start shards) :
    ∃ id, ∃ shard ∈ shards, command =
      { id, args := shard.toArgs, file := c.file, line := c.line, expected := c.expected } := by
  induction shards generalizing start with
  | nil => simp [number] at h
  | cons shard rest ih =>
      rw [number] at h
      rcases List.mem_cons.mp h with rfl | h
      · exact ⟨start, shard, List.mem_cons_self, rfl⟩
      · obtain ⟨id, other, hother, rfl⟩ := ih h
        exact ⟨id, other, List.mem_cons_of_mem _ hother, rfl⟩

section split

variable {catalog : Catalog} {desired start : Nat} {shards : List Command}

theorem of_split_eq_ok (h : c.split catalog desired start = .ok (some shards)) :
    ∃ configuration configurations, Configuration.ofArgs c.args = .ok configuration ∧
      configuration.shards? catalog desired = some configurations ∧
      shards = c.number start configurations := by
  unfold split at h
  cases hargs : Configuration.ofArgs c.args with
  | error error => simp [hargs, Except.map] at h
  | ok configuration =>
      simp only [hargs, Except.map, Except.ok.injEq, Option.map_eq_some_iff] at h
      obtain ⟨configurations, hshards, rfl⟩ := h
      exact ⟨configuration, configurations, rfl, hshards, rfl⟩

theorem map_id_split (h : c.split catalog desired start = .ok (some shards)) :
    shards.map Command.id = List.range' start shards.length := by
  obtain ⟨_, configurations, _, _, rfl⟩ := of_split_eq_ok h
  rw [map_id_number, length_number]

theorem split_ne_nil (h : c.split catalog desired start = .ok (some shards)) : shards ≠ [] := by
  obtain ⟨_, configurations, _, hshards, rfl⟩ := of_split_eq_ok h
  rw [← List.length_pos_iff, length_number, List.length_pos_iff]
  exact Configuration.shards_ne_nil hshards

theorem of_mem_split (h : c.split catalog desired start = .ok (some shards)) {shard : Command}
    (hshard : shard ∈ shards) :
    shard.file = c.file ∧ shard.line = c.line ∧
      ∀ configuration e, Configuration.ofArgs c.args = .ok configuration →
        configuration.options.runMode.isRunnable = true →
        Configuration.ofArgs shard.args = .ok e → e.options.runMode.isRunnable = true := by
  obtain ⟨configuration, configurations, hargs, hshards, rfl⟩ := of_split_eq_ok h
  obtain ⟨id, part, hpart, rfl⟩ := of_mem_number hshard
  refine ⟨rfl, rfl, fun other e hother hrun hread => ?_⟩
  obtain rfl : configuration = other := Except.ok.inj (hargs.symm.trans hother)
  have hwell := (Configuration.wellFormed_of_ofArgs hargs).of_mem_shards hshards hpart
  obtain ⟨target, rfl, -⟩ := Configuration.of_mem_shards hshards hpart
  rw [(hwell.ofArgs_toArgs_eq_ok_iff.mp hread).2]
  exact hrun

end split

end Command

end DeviceLab
