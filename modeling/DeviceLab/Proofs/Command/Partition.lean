import DeviceLab.Proofs.Command.Shards
import Mathlib

namespace DeviceLab

open Text

namespace TestCase

variable {t u : TestCase}

theorem toList_key (t : TestCase) :
    t.key.toList = t.testClass.toList ++ '#' :: t.method.toList := by
  simp [key]

theorem key_ne_testClass (ht : '#' ∉ t.testClass.toList) : u.key ≠ t.testClass := by
  intro heq
  have hlist : u.testClass.toList ++ '#' :: u.method.toList = t.testClass.toList := by
    rw [← toList_key, heq]
  exact ht (hlist ▸ by simp)

theorem eq_of_key_eq (ht : '#' ∉ t.testClass.toList) (hu : '#' ∉ u.testClass.toList)
    (h : t.key = u.key) : t = u := by
  have hlist : t.testClass.toList ++ '#' :: t.method.toList =
      u.testClass.toList ++ '#' :: u.method.toList := by
    rw [← toList_key, ← toList_key, h]
  obtain ⟨hclass, hmethod⟩ := append_separator_inj ht hu hlist
  cases t
  cases u
  rw [TestCase.mk.injEq]
  exact ⟨String.toList_injective hclass, String.toList_injective hmethod⟩

end TestCase

theorem TestTarget.mem_cases_iff {target : TestTarget} {catalog : Catalog} {t : TestCase} :
    t ∈ target.cases catalog ↔
      t.testClass ∈ target.classes ∧ t.method ∈ catalog.methods t.testClass ∧
        target.selects t = true := by
  rw [cases, List.mem_filter, ← and_assoc]
  refine and_congr_left fun _ => ?_
  simp only [List.mem_flatMap, List.mem_map]
  constructor
  · rintro ⟨testClass, hclass, method, hmethod, rfl⟩
    exact ⟨hclass, hmethod⟩
  · rintro ⟨hclass, hmethod⟩
    exact ⟨t.testClass, hclass, t.method, hmethod, rfl⟩

namespace Configuration

section cut

variable {α : Type} {sizes : List Nat} {items : List α}

theorem flatten_cut (h : sizes.sum = items.length) : (cut sizes items).flatten = items := by
  induction sizes generalizing items with
  | nil => exact (List.eq_nil_of_length_eq_zero h.symm).symm
  | cons size sizes ih =>
      rw [List.sum_cons] at h
      have hrest : sizes.sum = (items.drop size).length := by
        rw [List.length_drop]
        omega
      rw [cut, List.flatten_cons, ih hrest, List.take_append_drop]

theorem map_length_cut (h : sizes.sum = items.length) :
    (cut sizes items).map List.length = sizes := by
  induction sizes generalizing items with
  | nil => rfl
  | cons size sizes ih =>
      rw [List.sum_cons] at h
      have hrest : sizes.sum = (items.drop size).length := by
        rw [List.length_drop]
        omega
      rw [cut, List.map_cons, ih hrest, List.length_take, Nat.min_eq_left (by omega)]

end cut

theorem sum_runSizes (total : Nat) {count : Nat} (h : 0 < count) :
    (runSizes total count).sum = total := by
  let base := total / count
  let remainder := total % count
  have hrange : ∀ n, ((List.range n).map fun index =>
      base + if index < remainder then 1 else 0).sum = n * base + min n remainder := by
    intro n
    induction n with
    | zero => simp
    | succ n ih =>
        rw [List.range_succ, List.map_append, List.sum_append, ih, List.map_singleton,
          List.sum_singleton, Nat.succ_mul]
        split <;> omega
  calc
    (runSizes total count).sum = count * base + min count remainder := hrange count
    _ = count * base + remainder := by rw [Nat.min_eq_right (Nat.le_of_lt (Nat.mod_lt _ h))]
    _ = total := Nat.div_add_mod total count

theorem length_eq_of_runSizes {α : Type} {runs : List (List α)} {run : List α}
    {total count i : Nat} (hlengths : runs.map List.length = runSizes total count)
    (hrun : runs[i]? = some run) :
    run.length = total / count + if i < total % count then 1 else 0 := by
  have hsize : (runs.map List.length)[i]? = some run.length := by
    rw [List.getElem?_map, hrun]
    rfl
  rw [hlengths, runSizes, List.getElem?_map, Option.map_eq_some_iff] at hsize
  obtain ⟨j, hj, hsize⟩ := hsize
  obtain ⟨hi, rfl⟩ := List.getElem?_eq_some_iff.mp hj
  rw [← hsize, List.getElem_range]

section hint

variable {total : Nat}

theorem sum_div_add_sum_mod (hint total : Nat) (sizes : List Nat) :
    total * (sizes.map fun size => hint * size / total).sum +
      (sizes.map fun size => hint * size % total).sum = hint * sizes.sum := by
  induction sizes with
  | nil => simp
  | cons size sizes ih =>
      simp only [List.map_cons, List.sum_cons, Nat.mul_add]
      have hsize := Nat.div_add_mod (hint * size) total
      omega

theorem sum_mod_add_length_le (hint : Nat) (htotal : 0 < total) (sizes : List Nat) :
    (sizes.map fun size => hint * size % total).sum + sizes.length ≤ total * sizes.length := by
  induction sizes with
  | nil => simp
  | cons size sizes ih =>
      simp only [List.map_cons, List.sum_cons, List.length_cons, Nat.mul_succ]
      have hsize := Nat.mod_lt (hint * size) htotal
      omega

theorem proportional_eq (hint part total : Nat) :
    proportional hint part total = hint * part / total := by
  unfold proportional
  split
  · rename_i htotal
    rw [htotal, Nat.div_zero]
  · rfl

theorem sum_proportional_mul_bounds (hint : Nat) (htotal : 0 < total) {sizes : List Nat}
    (hsizes : sizes ≠ []) :
    total * (sizes.map fun size => proportional hint size total).sum ≤ hint * sizes.sum ∧
      hint * sizes.sum <
        total * ((sizes.map fun size => proportional hint size total).sum + sizes.length) := by
  simp only [proportional_eq]
  have hsplit := sum_div_add_sum_mod hint total sizes
  have hlost := sum_mod_add_length_le hint htotal sizes
  have hlength : 0 < sizes.length := List.length_pos_iff.mpr hsizes
  rw [Nat.mul_add]
  omega

theorem sum_proportional_bounds (hint : Nat) {sizes : List Nat} (htotal : 0 < total)
    (hsum : sizes.sum = total) :
    (sizes.map fun size => proportional hint size total).sum ≤ hint ∧
      hint < (sizes.map fun size => proportional hint size total).sum + sizes.length := by
  have hsizes : sizes ≠ [] := by
    rintro rfl
    exact absurd hsum (Nat.ne_of_lt htotal)
  obtain ⟨hle, hlt⟩ := sum_proportional_mul_bounds hint htotal hsizes
  rw [hsum, Nat.mul_comm hint total] at hle hlt
  exact ⟨Nat.le_of_mul_le_mul_left hle htotal, Nat.lt_of_mul_lt_mul_left hlt⟩

end hint

theorem mem_distinct {texts : List String} {text : String} :
    text ∈ distinct texts ↔ text ∈ texts := by
  have hfold : ∀ texts seen : List String,
      text ∈ texts.foldl (fun seen text => if text ∈ seen then seen else seen ++ [text]) seen ↔
        text ∈ seen ∨ text ∈ texts := by
    intro texts
    induction texts with
    | nil => simp
    | cons first rest ih =>
        intro seen
        rw [List.foldl_cons, ih, List.mem_cons, ← or_assoc]
        refine or_congr_left ?_
        split
        · rename_i hseen
          exact ⟨.inl, fun h => h.elim id fun heq => heq ▸ hseen⟩
        · rw [List.mem_append, List.mem_singleton]
  exact (hfold texts []).trans (or_iff_right List.not_mem_nil)

variable {c : Configuration} {catalog : Catalog} {total : Nat} {run : List TestCase} {t : TestCase}

theorem mem_cases_shardOfRun (hrun : ∀ t ∈ run, t ∈ c.target.cases catalog) (ht : t ∈ run) :
    t ∈ (c.shardOfRun total run).target.cases catalog := by
  have hmethod := (TestTarget.mem_cases_iff.mp (hrun t ht)).2.1
  have hnamed : (run.map TestCase.key).any (TestTarget.names · t) = true := by
    rw [List.any_eq_true]
    exact ⟨t.key, List.mem_map_of_mem ht, by simp [TestTarget.names]⟩
  refine TestTarget.mem_cases_iff.mpr ⟨mem_distinct.mpr (List.mem_map_of_mem ht), hmethod, ?_⟩
  simp [TestTarget.selects, shardOfRun, shard, hnamed]

/-- Where a class is not taken for a test case, a shard selects nothing but its run. -/
theorem mem_run_of_mem_cases (hplain : ∀ u ∈ run, '#' ∉ u.testClass.toList)
    (ht : t ∈ (c.shardOfRun total run).target.cases catalog) : t ∈ run := by
  obtain ⟨hclass, -, hselects⟩ := TestTarget.mem_cases_iff.mp ht
  obtain ⟨u, hu, hsame⟩ := List.mem_map.mp (mem_distinct.mp hclass)
  have htplain : '#' ∉ t.testClass.toList := hsame ▸ hplain u hu
  have hnonempty : (run.map TestCase.key).isEmpty = false := by
    rw [List.isEmpty_eq_false_iff_exists_mem]
    exact ⟨u.key, List.mem_map_of_mem hu⟩
  have hnamed : (run.map TestCase.key).any (TestTarget.names · t) = true := by
    simpa [TestTarget.selects, shardOfRun, shard, hnonempty] using hselects
  obtain ⟨filter, hfilter, hnames⟩ := List.any_eq_true.mp hnamed
  obtain ⟨v, hv, rfl⟩ := List.mem_map.mp hfilter
  simp only [TestTarget.names, Bool.or_eq_true, beq_iff_eq] at hnames
  rcases hnames with hclass | hkey
  · exact absurd hclass (TestCase.key_ne_testClass htplain)
  · exact TestCase.eq_of_key_eq htplain (hplain v hv) hkey.symm ▸ hv

/-- What a shard is to the run of test cases that it is made for.  Its part of the runtime hint is
computed without loss: the part fits into 64 bits, and the product into 128. -/
structure Carries (c : Configuration) (catalog : Catalog) (shard : Configuration)
    (run : List TestCase) : Prop where
  filters : shard.target.includeFilters = run.map TestCase.key
  selects : ∀ t ∈ run, t ∈ shard.target.cases catalog
  only : (∀ testClass ∈ c.target.classes, '#' ∉ testClass.toList) →
    ∀ t ∈ shard.target.cases catalog, t ∈ run
  hint : shard.target.runtimeHint =
    c.target.runtimeHint * run.length / (c.target.cases catalog).length
  hint_fits : shard.target.runtimeHint < 2 ^ 64
  product_fits : (c.target.cases catalog).length < 2 ^ 64 →
    c.target.runtimeHint * run.length < 2 ^ 128

theorem WellFormed.runtimeHint_lt (hc : c.WellFormed) : c.target.runtimeHint < 2 ^ 64 :=
  Nat.lt_succ_of_le hc.runtimeHint

theorem WellFormed.carries_shardOfRun (hc : c.WellFormed)
    (hrun : ∀ t ∈ run, t ∈ c.target.cases catalog)
    (hlength : run.length ≤ (c.target.cases catalog).length) :
    c.Carries catalog (c.shardOfRun (c.target.cases catalog).length run) run where
  filters := rfl
  selects := fun t => mem_cases_shardOfRun hrun
  only := fun hplain t => mem_run_of_mem_cases fun u hu =>
    hplain u.testClass (TestTarget.mem_cases_iff.mp (hrun u hu)).1
  hint := proportional_eq _ _ _
  hint_fits := Nat.lt_of_le_of_lt (proportional_le hlength) hc.runtimeHint_lt
  product_fits := fun htotal => by
    have hsize : run.length ≤ 2 ^ 64 := Nat.le_trans hlength (Nat.le_of_lt htotal)
    calc
      c.target.runtimeHint * run.length < 2 ^ 64 * 2 ^ 64 :=
        Nat.mul_lt_mul_of_lt_of_le hc.runtimeHint_lt hsize (by decide)
      _ = 2 ^ 128 := by decide

/-- How shards share out the test cases that a configuration selects: each gets one of the runs, in
order, and the runs are of nearly equal size. -/
structure SharesOut (c : Configuration) (catalog : Catalog) (desired : Nat)
    (shards : List Configuration) (runs : List (List TestCase)) : Prop where
  count : shards.length = min desired (c.target.cases catalog).length
  cases : runs.flatten = c.target.cases catalog
  sizes : ∀ i run, runs[i]? = some run →
    run.length = (c.target.cases catalog).length / shards.length +
      if i < (c.target.cases catalog).length % shards.length then 1 else 0
  carries : List.Forall₂ (c.Carries catalog) shards runs
  filters : shards.flatMap (·.target.includeFilters) = (c.target.cases catalog).map TestCase.key
  hints_le : (shards.map (·.target.runtimeHint)).sum ≤ c.target.runtimeHint
  lt_hints : c.target.runtimeHint < (shards.map (·.target.runtimeHint)).sum + shards.length

theorem isSome_shards?_iff (c : Configuration) (catalog : Catalog) (desired : Nat) :
    (c.shards? catalog desired).isSome = true ↔
      2 ≤ c.target.classes.length ∧ c.target.method = none ∧ 1 ≤ desired := by
  simp only [Option.isSome_iff_exists, shards?_eq_some_iff]
  constructor
  · rintro ⟨shards, hclasses, hmethod, hdesired, -⟩
    exact ⟨hclasses, hmethod, hdesired⟩
  · rintro ⟨hclasses, hmethod, hdesired⟩
    cases c.target.shardUnit with
    | byClass => exact ⟨_, hclasses, hmethod, hdesired, .inl ⟨rfl, rfl⟩⟩
    | byMethod => exact ⟨_, hclasses, hmethod, hdesired, .inr ⟨rfl, rfl⟩⟩

theorem eq_shardsByMethod {desired : Nat} {shards : List Configuration}
    (hunit : c.target.shardUnit = .byMethod) (h : c.shards? catalog desired = some shards) :
    desired ≠ 0 ∧ shards = c.shardsByMethod catalog desired := by
  obtain ⟨-, -, hdesired, ⟨hclass, -⟩ | ⟨-, hshards⟩⟩ := shards?_eq_some_iff.mp h
  · cases hunit.symm.trans hclass
  · exact ⟨Nat.ne_of_gt hdesired, hshards⟩

theorem WellFormed.exists_sharesOut (hc : c.WellFormed) {desired : Nat} (hdesired : desired ≠ 0)
    (hcases : c.target.cases catalog ≠ []) :
    ∃ runs, c.SharesOut catalog desired (c.shardsByMethod catalog desired) runs := by
  let cases := c.target.cases catalog
  let count := min desired cases.length
  let runs := cut (runSizes cases.length count) cases
  have htotal : 0 < cases.length := List.length_pos_iff.mpr hcases
  have hcount : 0 < count := by omega
  -- The sizes add up to the number of cases, so that cutting along them loses none; the bounds on
  -- the parts of the hint rest on the same sum.
  have hsum : (runSizes cases.length count).sum = cases.length := sum_runSizes cases.length hcount
  have hflatten : runs.flatten = cases := flatten_cut hsum
  have hlengths : runs.map List.length = runSizes cases.length count := map_length_cut hsum
  have hshards : c.shardsByMethod catalog desired = runs.map (c.shardOfRun cases.length) :=
    shardsByMethod_of_ne_nil hcases desired
  have hlength : (runs.map (c.shardOfRun cases.length)).length = count := by
    rw [List.length_map, length_cut, length_runSizes]
  have hhints : (runs.map (c.shardOfRun cases.length)).map (·.target.runtimeHint) =
      (runSizes cases.length count).map fun size =>
        proportional c.target.runtimeHint size cases.length := by
    rw [← hlengths, List.map_map, List.map_map]
    rfl
  obtain ⟨hle, hlt⟩ := sum_proportional_bounds c.target.runtimeHint htotal hsum
  rw [hshards]
  refine ⟨runs, hlength, hflatten, fun i run hrun => ?_, ?_, ?_, ?_, ?_⟩
  · rw [hlength]
    exact length_eq_of_runSizes hlengths hrun
  · refine List.forall₂_map_left_iff.mpr (List.forall₂_same.mpr fun run hrun => ?_)
    refine hc.carries_shardOfRun (fun t ht => ?_) (length_le_of_mem_cut hrun)
    change t ∈ cases
    rw [← hflatten]
    exact List.mem_flatten_of_mem hrun ht
  · change _ = cases.map TestCase.key
    rw [List.flatMap_map, ← hflatten, List.map_flatten]
    rfl
  · rw [hhints]
    exact hle
  · rw [length_runSizes] at hlt
    rw [hhints, hlength]
    exact hlt

end Configuration

namespace Command

variable {command : Command} {c : Configuration} {catalog : Catalog} {desired start : Nat}

theorem exists_split_iff (hread : Configuration.ofArgs command.args = .ok c) :
    (∃ parts, command.split catalog desired start = .ok (some parts)) ↔
      2 ≤ c.target.classes.length ∧ c.target.method = none ∧ 1 ≤ desired := by
  rw [← c.isSome_shards?_iff catalog desired, split, hread]
  cases hshards : c.shards? catalog desired <;> simp [Except.map, hshards]

/-- Splitting by method partitions the test cases that a command selects.  Its shards are written
from configurations, and each is read as the configuration that it was written from, if it is read
at all.  Where no test case is selected, there are as many shards as desired, and none of them
selects any; otherwise they share out the cases. -/
theorem split_by_method (hread : Configuration.ofArgs command.args = .ok c)
    (hunit : c.target.shardUnit = .byMethod) :
    ((∃ parts, command.split catalog desired start = .ok (some parts)) ↔
      2 ≤ c.target.classes.length ∧ c.target.method = none ∧ 1 ≤ desired) ∧
    ∀ parts, command.split catalog desired start = .ok (some parts) →
      ∃ shards : List Configuration,
        parts.map Command.args = shards.map Configuration.toArgs ∧
        (∀ shard ∈ shards, ∀ e, Configuration.ofArgs shard.toArgs = .ok e →
          e = { shard with args := shard.toArgs }) ∧
        (c.target.cases catalog = [] → shards.length = desired ∧ ∀ shard ∈ shards,
          shard.target.cases catalog = [] ∧ shard.target.runtimeHint = 0) ∧
        (c.target.cases catalog ≠ [] → ∃ runs, c.SharesOut catalog desired shards runs) := by
  refine ⟨exists_split_iff hread, fun parts h => ?_⟩
  obtain ⟨read, shards, hread', hshards, rfl⟩ := of_split_eq_ok h
  obtain rfl : read = c := Except.ok.inj (hread'.symm.trans hread)
  have hwell := Configuration.wellFormed_of_ofArgs hread
  obtain ⟨hdesired, hmethod⟩ := Configuration.eq_shardsByMethod hunit hshards
  refine ⟨shards, map_args_number command start shards, fun shard hshard e he => ?_,
    fun hnone => ?_, fun hsome => ?_⟩
  · exact ((hwell.of_mem_shards hshards hshard).ofArgs_toArgs_eq_ok_iff.mp he).2
  · rw [hmethod, Configuration.shardsByMethod_of_nil hnone]
    refine ⟨List.length_replicate, fun shard hshard => ?_⟩
    obtain rfl := List.eq_of_mem_replicate hshard
    exact ⟨hnone, rfl⟩
  · rw [hmethod]
    exact hwell.exists_sharesOut hdesired hsome

theorem split_by_method_of_three_cases :
    let command : Command := {
      id := 1
      args := ["smoke", "--class", "A", "--class", "B", "--shard-unit", "method",
        "--runtime-hint", "100"] }
    let catalog : Catalog := .ofList [("A", ["t1", "t2"]), ("B", ["t1"])]
    let parts : List Command := [
      { id := 7, args := ["smoke", "--class", "A", "--include-filter", "A#t1",
        "--include-filter", "A#t2", "--shard-unit", "method", "--runtime-hint", "66"] },
      { id := 8, args := ["smoke", "--class", "B", "--include-filter", "B#t1",
        "--shard-unit", "method", "--runtime-hint", "33"] }]
    command.split catalog 2 7 = .ok (some parts) ∧
      ∃ shards : List Configuration, parts.map Command.args = shards.map Configuration.toArgs ∧
        shards.flatMap (·.target.includeFilters) = ["A#t1", "A#t2", "B#t1"] := by
  intro command catalog parts
  let c : Configuration := {
    name := "smoke"
    args := command.args
    target := { classes := ["A", "B"], shardUnit := .byMethod, runtimeHint := 100 } }
  have hread : Configuration.ofArgs command.args = .ok c := by decide +kernel
  have hsplit : command.split catalog 2 7 = .ok (some parts) := by decide +kernel
  have hcases : c.target.cases catalog = [⟨"A", "t1"⟩, ⟨"A", "t2"⟩, ⟨"B", "t1"⟩] := by
    decide +kernel
  obtain ⟨shards, hargs, -, -, hsome⟩ := (split_by_method hread rfl).2 parts hsplit
  obtain ⟨runs, hruns⟩ := hsome (by rw [hcases]; exact List.cons_ne_nil _ _)
  refine ⟨hsplit, shards, hargs, ?_⟩
  rw [hruns.filters, hcases]
  decide

end Command

end DeviceLab
