import DeviceLab.Proofs.Command.Partition

namespace DeviceLab

namespace TestTarget

theorem cases_eq_flatMap (target : TestTarget) (catalog : Catalog) :
    target.cases catalog =
      target.classes.flatMap fun testClass =>
        { target with classes := [testClass] }.cases catalog := by
  rw [cases, List.filter_flatMap]
  refine List.flatMap_congr fun testClass _ => ?_
  rw [cases, List.flatMap_singleton]
  rfl

/-- How many cases the shards by class count: each as often as its class is listed. -/
def countedByClass (target : TestTarget) (catalog : Catalog) : Nat :=
  ((target.cases catalog).map fun t => target.classes.count t.testClass).sum

/-- Whether no class is listed again that a selected case is in. -/
def ListsOnce (target : TestTarget) (catalog : Catalog) : Prop :=
  ∀ t ∈ target.cases catalog, target.classes.count t.testClass = 1

theorem sum_ite_eq_count (text : String) (texts : List String) :
    (texts.map fun other => if text == other then 1 else 0).sum = texts.count text := by
  induction texts with
  | nil => rfl
  | cons other texts ih =>
      rw [List.map_cons, List.sum_cons, ih, List.count_cons, Nat.add_comm, BEq.comm]

/-- Whether one counts the cases of each listed class or the listings of the class of each case. -/
theorem sum_countP_testClass (classes : List String) (cases : List TestCase) :
    (classes.map fun testClass => cases.countP (·.testClass == testClass)).sum =
      (cases.map fun t => classes.count t.testClass).sum := by
  induction cases with
  | nil => simp
  | cons t rest ih =>
      simp only [List.countP_cons, List.map_cons, List.sum_cons]
      rw [List.sum_map_add, ih, sum_ite_eq_count, Nat.add_comm]

variable {target : TestTarget} {catalog : Catalog}

theorem ListsOnce.countedByClass_eq (h : target.ListsOnce catalog) :
    target.countedByClass catalog = (target.cases catalog).length := by
  rw [countedByClass, List.map_congr_left h, List.map_const', List.sum_replicate, smul_eq_mul,
    Nat.mul_one]

theorem length_lt_countedByClass (h : ¬target.ListsOnce catalog) :
    (target.cases catalog).length < target.countedByClass catalog := by
  have hcount : ∀ t ∈ target.cases catalog, 1 ≤ target.classes.count t.testClass := fun t ht =>
    List.one_le_count_iff.mpr (mem_cases_iff.mp ht).1
  obtain ⟨t, ht, hagain⟩ : ∃ t ∈ target.cases catalog, 1 < target.classes.count t.testClass := by
    simp only [ListsOnce, not_forall] at h
    obtain ⟨t, ht, hne⟩ := h
    exact ⟨t, ht, Nat.lt_of_le_of_ne (hcount t ht) (Ne.symm hne)⟩
  have hlength : ((target.cases catalog).map fun _ => 1).sum = (target.cases catalog).length := by
    rw [List.map_const', List.sum_replicate, smul_eq_mul, Nat.mul_one]
  rw [← hlength, countedByClass]
  exact List.sum_lt_sum _ _ hcount ⟨t, ht, hagain⟩

end TestTarget

namespace Configuration

variable {c : Configuration} {catalog : Catalog} {desired : Nat} {shards : List Configuration}

/-- Whether `shard` is the configuration for one class: not to be split again and with a runtime
hint of its own, but otherwise the same. -/
def ForClass (c : Configuration) (testClass : String) (shard : Configuration) : Prop :=
  ∃ hint, shard = c.shard { c.target with classes := [testClass], runtimeHint := hint }

theorem eq_shardsByClass (hunit : c.target.shardUnit = .byClass)
    (h : c.shards? catalog desired = some shards) : shards = c.shardsByClass catalog := by
  obtain ⟨-, -, -, ⟨-, hshards⟩ | ⟨hmethod, -⟩⟩ := shards?_eq_some_iff.mp h
  · exact hshards
  · cases hunit.symm.trans hmethod

theorem forClass_shardsByClass (c : Configuration) (catalog : Catalog) :
    List.Forall₂ c.ForClass c.target.classes (c.shardsByClass catalog) :=
  List.forall₂_map_right_iff.mpr (List.forall₂_same.mpr fun _ _ => ⟨_, rfl⟩)

theorem flatMap_cases_shardsByClass (c : Configuration) (catalog : Catalog) :
    (c.shardsByClass catalog).flatMap (·.target.cases catalog) = c.target.cases catalog := by
  rw [shardsByClass, List.flatMap_map, c.target.cases_eq_flatMap catalog]
  rfl

theorem hints_shardsByClass (c : Configuration) (catalog : Catalog) :
    (c.shardsByClass catalog).map (·.target.runtimeHint) =
      (c.target.classes.map fun testClass =>
        (c.target.cases catalog).countP (·.testClass == testClass)).map fun size =>
          proportional c.target.runtimeHint size (c.target.cases catalog).length := by
  rw [shardsByClass, List.map_map, List.map_map]
  rfl

theorem sum_hints_of_nil (hcases : c.target.cases catalog = []) :
    ((c.shardsByClass catalog).map (·.target.runtimeHint)).sum = 0 := by
  rw [hints_shardsByClass, hcases, List.map_map]
  refine List.sum_eq_zero fun hint hhint => ?_
  obtain ⟨_, -, rfl⟩ := List.mem_map.mp hhint
  exact proportional_eq _ _ _ |>.trans (Nat.div_zero _)

theorem sum_hints_mul_bounds (hclasses : c.target.classes ≠ [])
    (hcases : c.target.cases catalog ≠ []) :
    let total := (c.target.cases catalog).length
    let counted := c.target.countedByClass catalog
    let hints := ((c.shardsByClass catalog).map (·.target.runtimeHint)).sum
    total * hints ≤ c.target.runtimeHint * counted ∧
      c.target.runtimeHint * counted < total * (hints + c.target.classes.length) := by
  intro total counted hints
  let sizes := c.target.classes.map fun testClass =>
    (c.target.cases catalog).countP (·.testClass == testClass)
  have hsizes : sizes ≠ [] := List.map_eq_nil_iff.not.mpr hclasses
  have hcounted : sizes.sum = counted := TestTarget.sum_countP_testClass _ _
  have hbounds := sum_proportional_mul_bounds c.target.runtimeHint
    (List.length_pos_iff.mpr hcases) hsizes
  rwa [hcounted, ← hints_shardsByClass, List.length_map] at hbounds

theorem sum_hints_bounds (hclasses : c.target.classes ≠ []) (honce : c.target.ListsOnce catalog) :
    let hints := ((c.shardsByClass catalog).map (·.target.runtimeHint)).sum
    hints ≤ c.target.runtimeHint ∧
      (c.target.cases catalog ≠ [] →
        c.target.runtimeHint < hints + c.target.classes.length) := by
  intro hints
  by_cases hcases : c.target.cases catalog = []
  · have hzero : hints = 0 := sum_hints_of_nil hcases
    exact ⟨by omega, fun hsome => absurd hcases hsome⟩
  · obtain ⟨hle, hlt⟩ := sum_hints_mul_bounds hclasses hcases
    rw [honce.countedByClass_eq, Nat.mul_comm c.target.runtimeHint] at hle hlt
    exact ⟨Nat.le_of_mul_le_mul_left hle (List.length_pos_iff.mpr hcases),
      fun _ => Nat.lt_of_mul_lt_mul_left hlt⟩

theorem lt_sum_hints (hclasses : c.target.classes ≠ []) (hagain : ¬c.target.ListsOnce catalog)
    (hlarge : (c.target.cases catalog).length * c.target.classes.length ≤ c.target.runtimeHint) :
    c.target.runtimeHint < ((c.shardsByClass catalog).map (·.target.runtimeHint)).sum := by
  have hcases : c.target.cases catalog ≠ [] := fun hnil =>
    hagain fun t ht => absurd (hnil ▸ ht) List.not_mem_nil
  obtain ⟨-, hlt⟩ := sum_hints_mul_bounds hclasses hcases
  have hcounted := Nat.mul_le_mul_left c.target.runtimeHint
    (TestTarget.length_lt_countedByClass hagain)
  rw [Nat.mul_succ, Nat.mul_comm] at hcounted
  refine Nat.lt_of_mul_lt_mul_left (a := (c.target.cases catalog).length) ?_
  rw [Nat.mul_add] at hlt
  omega

end Configuration

namespace Command

variable {command : Command} {c : Configuration} {catalog : Catalog} {desired start : Nat}
  {parts : List Command}

theorem of_split (hread : Configuration.ofArgs command.args = .ok c)
    (h : command.split catalog desired start = .ok (some parts)) :
    ∃ shards, c.shards? catalog desired = some shards ∧
      parts.map Command.args = shards.map Configuration.toArgs ∧
      ∀ shard ∈ shards, ∀ e, Configuration.ofArgs shard.toArgs = .ok e →
        e = { shard with args := shard.toArgs } := by
  obtain ⟨read, shards, hread', hshards, rfl⟩ := of_split_eq_ok h
  obtain rfl : read = c := Except.ok.inj (hread'.symm.trans hread)
  have hwell := Configuration.wellFormed_of_ofArgs hread
  exact ⟨shards, hshards, map_args_number command start shards, fun shard hshard e he =>
    ((hwell.of_mem_shards hshards hshard).ofArgs_toArgs_eq_ok_iff.mp he).2⟩

/-- Splitting by class partitions the test cases that a command selects.  There is a shard for each
listed class in turn, whatever number of shards is desired, and in this order the shards select the
cases of the command. -/
theorem split_by_class (hread : Configuration.ofArgs command.args = .ok c)
    (hunit : c.target.shardUnit = .byClass) (catalog : Catalog) :
    ∃ shards : List Configuration,
      List.Forall₂ c.ForClass c.target.classes shards ∧
      shards.flatMap (·.target.cases catalog) = c.target.cases catalog ∧
      ∀ desired start,
        ((∃ parts, command.split catalog desired start = .ok (some parts)) ↔
          2 ≤ c.target.classes.length ∧ c.target.method = none ∧ 1 ≤ desired) ∧
        ∀ parts, command.split catalog desired start = .ok (some parts) →
          parts.map Command.args = shards.map Configuration.toArgs ∧
          ∀ shard ∈ shards, ∀ e, Configuration.ofArgs shard.toArgs = .ok e →
            e = { shard with args := shard.toArgs } := by
  refine ⟨c.shardsByClass catalog, c.forClass_shardsByClass catalog,
    c.flatMap_cases_shardsByClass catalog, fun desired start =>
    ⟨exists_split_iff hread, fun parts h => ?_⟩⟩
  obtain ⟨shards, hshards, hargs, hback⟩ := of_split hread h
  obtain rfl := Configuration.eq_shardsByClass hunit hshards
  exact ⟨hargs, hback⟩

theorem split_by_class_of_repeated_class :
    let command : Command := {
      id := 1
      args := ["smoke", "--class", "A", "--class", "X", "--class", "A", "--class", "B",
        "--include-filter", "A", "--include-filter", "A#t1", "--include-filter", "B#t2",
        "--exclude-filter", "A#t2", "--runtime-hint", "70", "--shard-count", "2"] }
    let catalog : Catalog := .ofList [("A", ["t1", "t2", "t1"]), ("B", ["t1", "t2"])]
    let filters := ["--include-filter", "A", "--include-filter", "A#t1", "--include-filter", "B#t2",
      "--exclude-filter", "A#t2"]
    let parts : List Command := [
      { id := 7, args := ["smoke", "--class", "A"] ++ filters ++ ["--runtime-hint", "56"] },
      { id := 8, args := ["smoke", "--class", "X"] ++ filters },
      { id := 9, args := ["smoke", "--class", "A"] ++ filters ++ ["--runtime-hint", "56"] },
      { id := 10, args := ["smoke", "--class", "B"] ++ filters ++ ["--runtime-hint", "14"] }]
    command.split catalog 1 7 = .ok (some parts) ∧
      ∃ shards : List Configuration, parts.map Command.args = shards.map Configuration.toArgs ∧
        shards.flatMap (·.target.cases catalog) =
          [⟨"A", "t1"⟩, ⟨"A", "t1"⟩, ⟨"A", "t1"⟩, ⟨"A", "t1"⟩, ⟨"B", "t2"⟩] := by
  intro command catalog filters parts
  let c : Configuration := {
    name := "smoke"
    args := command.args
    options := { shardCount := some 2 }
    target := {
      classes := ["A", "X", "A", "B"]
      includeFilters := ["A", "A#t1", "B#t2"]
      excludeFilters := ["A#t2"]
      runtimeHint := 70 } }
  have hread : Configuration.ofArgs command.args = .ok c := by decide +kernel
  have hsplit : command.split catalog 1 7 = .ok (some parts) := by decide +kernel
  obtain ⟨shards, -, hcases, hparts⟩ := split_by_class hread rfl catalog
  refine ⟨hsplit, shards, ((hparts 1 7).2 parts hsplit).1, hcases.trans ?_⟩
  decide +kernel

/-- Splitting by class deals out the runtime hint of a command, as long as no class of a selected case
is listed again: the parts do not exceed the hint, and where a case is selected, less than a
millisecond of it is lost with each shard.  Otherwise a case is counted once for each listing of its
class, and the parts of a hint that is large enough exceed it. -/
theorem split_by_class_hints (hread : Configuration.ofArgs command.args = .ok c)
    (hunit : c.target.shardUnit = .byClass)
    (h : command.split catalog desired start = .ok (some parts)) :
    ∃ shards : List Configuration,
      parts.map Command.args = shards.map Configuration.toArgs ∧
      (∀ shard ∈ shards, ∀ e, Configuration.ofArgs shard.toArgs = .ok e →
        e = { shard with args := shard.toArgs }) ∧
      let hint := c.target.runtimeHint
      let hints := (shards.map (·.target.runtimeHint)).sum
      let total := (c.target.cases catalog).length
      let counted := c.target.countedByClass catalog
      (c.target.ListsOnce catalog →
        hints ≤ hint ∧ (c.target.cases catalog ≠ [] → hint < hints + shards.length)) ∧
      (c.target.cases catalog ≠ [] →
        total * hints ≤ hint * counted ∧ hint * counted < total * (hints + shards.length)) ∧
      (¬c.target.ListsOnce catalog → total * shards.length ≤ hint → hint < hints) := by
  obtain ⟨shards, hshards, hargs, hback⟩ := of_split hread h
  have hclasses : c.target.classes ≠ [] := by
    rw [← List.length_pos_iff]
    exact Nat.lt_of_lt_of_le Nat.two_pos (Configuration.shards?_eq_some_iff.mp hshards).1
  obtain rfl := Configuration.eq_shardsByClass hunit hshards
  have hlength : (c.shardsByClass catalog).length = c.target.classes.length := List.length_map _
  refine ⟨c.shardsByClass catalog, hargs, hback, ?_⟩
  rw [hlength]
  exact ⟨Configuration.sum_hints_bounds hclasses, Configuration.sum_hints_mul_bounds hclasses,
    Configuration.lt_sum_hints hclasses⟩

/-- Both shards of a class that is listed twice get the whole hint. -/
theorem hints_beyond_hint_of_repeated_class :
    let command : Command := {
      id := 1, args := ["smoke", "--class", "A", "--class", "A", "--runtime-hint", "100"] }
    let catalog : Catalog := .ofList [("A", ["t1"])]
    let part : Nat → Command := fun id =>
      { id, args := ["smoke", "--class", "A", "--runtime-hint", "100"] }
    ∃ c e : Configuration, Configuration.ofArgs command.args = .ok c ∧
      c.target.shardUnit = .byClass ∧ command.split catalog 2 1 = .ok (some [part 1, part 2]) ∧
      (∀ id, Configuration.ofArgs (part id).args = .ok e) ∧
      c.target.runtimeHint < e.target.runtimeHint + e.target.runtimeHint := by
  intro command catalog part
  let c : Configuration := {
    name := "smoke"
    args := command.args
    target := { classes := ["A", "A"], runtimeHint := 100 } }
  let e : Configuration := {
    name := "smoke"
    args := (part 1).args
    target := { classes := ["A"], runtimeHint := 100 } }
  have he : Configuration.ofArgs (part 1).args = .ok e := by decide +kernel
  exact ⟨c, e, by decide +kernel, rfl, by decide +kernel, fun _ => he, by decide⟩

theorem split_by_class_hints_of_unknown_class :
    let command : Command := {
      id := 1
      args := ["smoke", "--class", "A", "--class", "X", "--class", "B", "--class", "X",
        "--runtime-hint", "100"] }
    let catalog : Catalog := .ofList [("A", ["t1", "t2"]), ("B", ["t1"])]
    let parts : List Command := [
      { id := 7, args := ["smoke", "--class", "A", "--runtime-hint", "66"] },
      { id := 8, args := ["smoke", "--class", "X"] },
      { id := 9, args := ["smoke", "--class", "B", "--runtime-hint", "33"] },
      { id := 10, args := ["smoke", "--class", "X"] }]
    command.split catalog 1 7 = .ok (some parts) ∧
      ∃ shards : List Configuration, parts.map Command.args = shards.map Configuration.toArgs ∧
        (shards.map (·.target.runtimeHint)).sum ≤ 100 ∧
        100 < (shards.map (·.target.runtimeHint)).sum + shards.length := by
  intro command catalog parts
  let c : Configuration := {
    name := "smoke"
    args := command.args
    target := { classes := ["A", "X", "B", "X"], runtimeHint := 100 } }
  have hread : Configuration.ofArgs command.args = .ok c := by decide +kernel
  have hsplit : command.split catalog 1 7 = .ok (some parts) := by decide +kernel
  have hcases : c.target.cases catalog = [⟨"A", "t1"⟩, ⟨"A", "t2"⟩, ⟨"B", "t1"⟩] := by
    decide +kernel
  have honce : c.target.ListsOnce catalog := by
    rw [TestTarget.ListsOnce, hcases]
    decide
  obtain ⟨shards, hargs, -, hbounds, -⟩ := split_by_class_hints hread rfl hsplit
  obtain ⟨hle, hlt⟩ := hbounds honce
  exact ⟨hsplit, shards, hargs, hle, hlt (by rw [hcases]; exact List.cons_ne_nil _ _)⟩

end Command

end DeviceLab
