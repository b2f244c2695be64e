import DeviceLab.Proofs.Command.Partition

namespace DeviceLab

/-- Whether each value of a selection can stand in an argument of its own. -/
structure Selection.Separable (s : Selection) : Prop where
  serials : ∀ serial ∈ s.serials, ¬Dashed serial
  excludedSerials : ∀ serial ∈ s.excludedSerials, ¬Dashed serial
  productTypes : ∀ product ∈ s.productTypes, ¬Dashed product
  productDeviceTypes : ∀ product ∈ s.productDeviceTypes, ¬Dashed product
  properties : ∀ e ∈ s.properties.entries, e.1.toList.head? ≠ some '-'

/-- Whether each value of a test target can stand in an argument of its own. -/
structure TestTarget.Separable (target : TestTarget) : Prop where
  classes : ∀ testClass ∈ target.classes, ¬Dashed testClass
  method : ∀ method, target.method = some method → ¬Dashed method
  includeFilters : ∀ filter ∈ target.includeFilters, ¬Dashed filter
  excludeFilters : ∀ filter ∈ target.excludeFilters, ¬Dashed filter

theorem TestCase.dashed_key_iff {t : TestCase} :
    Dashed t.key ↔ t.testClass.toList.head? = some '-' := by
  rw [key, String.append_assoc]
  exact Configuration.dashed_marked_iff '#' (by decide) (by simp)

namespace Configuration

variable {c : Configuration} {catalog : Catalog} {desired : Nat} {shards : List Configuration}

theorem separable_iff_parts : c.Separable ↔ c.requirements.Separable ∧ c.target.Separable :=
  ⟨fun h => ⟨⟨h.serials, h.excludedSerials, h.productTypes, h.productDeviceTypes, h.properties⟩,
      ⟨h.classes, h.method, h.includeFilters, h.excludeFilters⟩⟩,
    fun ⟨hs, ht⟩ => ⟨hs.serials, hs.excludedSerials, hs.productTypes, hs.productDeviceTypes,
      hs.properties, ht.classes, ht.method, ht.includeFilters, ht.excludeFilters⟩⟩

theorem forall_separable_shardsByClass_iff (hclasses : c.target.classes ≠ []) :
    (∀ shard ∈ c.shardsByClass catalog, shard.Separable) ↔ c.Separable := by
  rw [shardsByClass, List.forall_mem_map]
  simp only [separable_iff_parts]
  constructor
  · intro h
    obtain ⟨first, hfirst⟩ := List.exists_mem_of_ne_nil _ hclasses
    obtain ⟨hrequirements, htarget⟩ := h first hfirst
    refine ⟨hrequirements, fun testClass hclass => ?_, htarget.method, htarget.includeFilters,
      htarget.excludeFilters⟩
    exact (h testClass hclass).2.classes testClass List.mem_cons_self
  · rintro ⟨hrequirements, htarget⟩ testClass hclass
    refine ⟨hrequirements, fun other hother => ?_, htarget.method, htarget.includeFilters,
      htarget.excludeFilters⟩
    rw [List.mem_singleton.mp hother]
    exact htarget.classes testClass hclass

theorem separable_shardOfRun_iff (hmethod : c.target.method = none) {total : Nat}
    {run : List TestCase} :
    (c.shardOfRun total run).Separable ↔
      c.requirements.Separable ∧ ∀ t ∈ run, t.testClass.toList.head? ≠ some '-' := by
  rw [separable_iff_parts]
  refine and_congr_right fun _ => ?_
  constructor
  · intro h t ht hdash
    exact h.includeFilters t.key (List.mem_map_of_mem ht) (TestCase.dashed_key_iff.mpr hdash)
  · intro h
    refine ⟨fun testClass hclass => ?_, fun method heq => ?_, fun filter hfilter => ?_, by
      simp [shardOfRun, shard]⟩
    · obtain ⟨t, ht, rfl⟩ := List.mem_map.mp (mem_distinct.mp hclass)
      exact fun hdashed => h t ht hdashed.2
    · cases hmethod.symm.trans heq
    · obtain ⟨t, ht, rfl⟩ := List.mem_map.mp hfilter
      exact fun hdashed => h t ht (TestCase.dashed_key_iff.mp hdashed)

/-- Whether each value that the shards of a configuration have can stand in an argument of its own.
By class, and where there is no test case to deal out, these are the values of the configuration;
otherwise what it asks of devices, and the names of the test cases. -/
def SeparableInShards (c : Configuration) (catalog : Catalog) : Prop :=
  if c.target.shardUnit = .byClass ∨ c.target.cases catalog = [] then c.Separable
  else c.requirements.Separable ∧
    ∀ t ∈ c.target.cases catalog, t.testClass.toList.head? ≠ some '-'

theorem separable_shard_hint_iff (hint : Nat) :
    (c.shard { c.target with runtimeHint := hint }).Separable ↔ c.Separable := by
  rw [separable_iff_parts, separable_iff_parts]
  refine and_congr_right fun _ => ?_
  exact ⟨fun h => ⟨h.classes, h.method, h.includeFilters, h.excludeFilters⟩,
    fun h => ⟨h.classes, h.method, h.includeFilters, h.excludeFilters⟩⟩

theorem forall_separable_shardsByMethod_iff (hmethod : c.target.method = none)
    (hdesired : 1 ≤ desired) (hcases : c.target.cases catalog ≠ []) :
    (∀ shard ∈ c.shardsByMethod catalog desired, shard.Separable) ↔
      c.requirements.Separable ∧
        ∀ t ∈ c.target.cases catalog, t.testClass.toList.head? ≠ some '-' := by
  let cases := c.target.cases catalog
  let runs := cut (runSizes cases.length (min desired cases.length)) cases
  have htotal : 0 < cases.length := List.length_pos_iff.mpr hcases
  have hflatten : runs.flatten = cases := flatten_cut (sum_runSizes cases.length (by omega))
  have hmem : ∀ t, t ∈ cases ↔ ∃ run ∈ runs, t ∈ run := by
    intro t
    rw [← hflatten, List.mem_flatten]
  rw [shardsByMethod_of_ne_nil hcases, List.forall_mem_map]
  simp only [separable_shardOfRun_iff hmethod]
  constructor
  · intro h
    obtain ⟨first, hfirst⟩ := List.exists_mem_of_ne_nil _ hcases
    obtain ⟨run, hrun, -⟩ := (hmem first).mp hfirst
    refine ⟨(h run hrun).1, fun t ht => ?_⟩
    obtain ⟨other, hother, ht⟩ := (hmem t).mp ht
    exact (h other hother).2 t ht
  · rintro ⟨hrequirements, hnames⟩ run hrun
    exact ⟨hrequirements, fun t ht => hnames t ((hmem t).mpr ⟨run, hrun, ht⟩)⟩

theorem forall_separable_shards_iff (h : c.shards? catalog desired = some shards) :
    (∀ shard ∈ shards, shard.Separable) ↔ c.SeparableInShards catalog := by
  obtain ⟨hclasses, hmethod, hdesired, ⟨hunit, rfl⟩ | ⟨hunit, rfl⟩⟩ := shards?_eq_some_iff.mp h
  · rw [SeparableInShards, if_pos (.inl hunit)]
    exact forall_separable_shardsByClass_iff (List.length_pos_iff.mp (by omega))
  · by_cases hcases : c.target.cases catalog = []
    · rw [SeparableInShards, if_pos (.inr hcases), shardsByMethod_of_nil hcases,
        ← separable_shard_hint_iff 0]
      constructor
      · intro hshards
        exact hshards _ (List.mem_replicate.mpr ⟨Nat.ne_of_gt hdesired, rfl⟩)
      · intro hc shard hshard
        rw [List.eq_of_mem_replicate hshard]
        exact hc
    · rw [SeparableInShards, if_neg (by simp [hunit, hcases])]
      exact forall_separable_shardsByMethod_iff hmethod hdesired hcases

/-- Whether a configuration is run like another one, but not split again: on the same devices and in
the same way, while its tests may be others. -/
structure RunsLike (e c : Configuration) : Prop where
  name : e.name = c.name
  options : e.options = { c.options with shardCount := none }
  requirements : e.requirements = c.requirements
  shardUnit : e.target.shardUnit = c.target.shardUnit
  passthrough : e.passthrough = c.passthrough

theorem runsLike_of_mem_shards (h : c.shards? catalog desired = some shards)
    {shard : Configuration} (hshard : shard ∈ shards) (args : List String) :
    { shard with args }.RunsLike c := by
  obtain ⟨target, rfl, -, hunit, -⟩ := of_mem_shards h hshard
  exact ⟨rfl, rfl, rfl, hunit, rfl⟩

end Configuration

namespace Command

variable {command : Command} {c : Configuration} {catalog : Catalog} {desired start : Nat}
  {parts : List Command}

/-- The shards of a command are commands of the same line with fresh ids in increasing order.  Each
that is read is run like the whole command; all of them are read exactly if no value looks like an
option. -/
theorem split_accepted (hread : Configuration.ofArgs command.args = .ok c)
    (h : command.split catalog desired start = .ok (some parts)) :
    (parts.map Command.id).Pairwise (· < ·) ∧
      (∀ part ∈ parts, start ≤ part.id ∧ part.file = command.file ∧ part.line = command.line ∧
        part.expected = command.expected ∧
        ∀ e, Configuration.ofArgs part.args = .ok e → e.RunsLike c) ∧
      ((∀ part ∈ parts, ∃ e, Configuration.ofArgs part.args = .ok e) ↔
        c.SeparableInShards catalog) := by
  have hids := map_id_split h
  obtain ⟨read, shards, hread', hshards, rfl⟩ := of_split_eq_ok h
  obtain rfl : read = c := Except.ok.inj (hread'.symm.trans hread)
  have hwell : ∀ shard ∈ shards, shard.WellFormed := fun shard hshard =>
    (Configuration.wellFormed_of_ofArgs hread).of_mem_shards hshards hshard
  refine ⟨?_, fun part hpart => ?_, ?_⟩
  · rw [hids]
    exact List.pairwise_lt_range'
  · have hid : part.id ∈ List.range' start (command.number start shards).length := by
      rw [← hids]
      exact List.mem_map_of_mem hpart
    obtain ⟨id, shard, hshard, rfl⟩ := of_mem_number hpart
    refine ⟨(List.mem_range'_1.mp hid).1, rfl, rfl, rfl, fun e he => ?_⟩
    rw [((hwell shard hshard).ofArgs_toArgs_eq_ok_iff.mp he).2]
    exact Configuration.runsLike_of_mem_shards hshards hshard shard.toArgs
  -- Written arguments are read back just if none of their values looks like an option, so what
  -- decides is what the shards carry together.
  · rw [← Configuration.forall_separable_shards_iff hshards]
    have hargs : (∀ part ∈ command.number start shards,
        ∃ e, Configuration.ofArgs part.args = .ok e) ↔
          ∀ args ∈ shards.map Configuration.toArgs, ∃ e, Configuration.ofArgs args = .ok e := by
      rw [← map_args_number command start shards, List.forall_mem_map]
    rw [hargs, List.forall_mem_map]
    refine forall₂_congr fun shard hshard => ?_
    simp only [(hwell shard hshard).ofArgs_toArgs_eq_ok_iff, ← Configuration.separable_iff]
    exact ⟨fun ⟨_, hseparable, _⟩ => hseparable, fun hseparable => ⟨_, hseparable, rfl⟩⟩

/-- A serial that begins with a dash can be attached to its option, but a shard has it in an
argument of its own. -/
theorem attached_serial_refused_in_parts :
    let command : Command := {
      id := 1, args := ["smoke", "--serial=-S1", "--class", "A", "--class", "B"] }
    let parts : List Command := [
      { id := 2, args := ["smoke", "--serial", "-S1", "--class", "A"] },
      { id := 3, args := ["smoke", "--serial", "-S1", "--class", "B"] }]
    (∃ c, Configuration.ofArgs command.args = .ok c) ∧
      command.split (.ofList []) 2 2 = .ok (some parts) ∧
      ∀ part ∈ parts, ¬∃ e, Configuration.ofArgs part.args = .ok e := by
  intro command parts
  let c : Configuration := {
    name := "smoke"
    args := command.args
    requirements := { serials := .ofList ["-S1"] }
    target := { classes := ["A", "B"] } }
  have hrefused : ∀ part ∈ parts, (Configuration.ofArgs part.args).toOption = none := by
    decide +kernel
  refine ⟨⟨c, by decide +kernel⟩, by decide +kernel, fun part hpart => ?_⟩
  rintro ⟨e, he⟩
  have hnone := hrefused part hpart
  rw [he] at hnone
  cases hnone

theorem split_accepted_of_lone_dash :
    let command : Command := {
      id := 4
      args := ["smoke", "--loop", "--max-run-count=3", "--serial=-", "--class=A", "--class=-B#t1",
        "--shard-unit=method", "--shard-count=2", "--", "-x"]
      file := some ⟨"cmds.txt"⟩ }
    let catalog : Catalog := .ofList [("A", ["t1", "t2"])]
    ∃ c parts, Configuration.ofArgs command.args = .ok c ∧
      command.split catalog 2 5 = .ok (some parts) ∧ parts.map Command.id = [5, 6] ∧
      ∀ part ∈ parts, part.file = some ⟨"cmds.txt"⟩ ∧
        ∃ e, Configuration.ofArgs part.args = .ok e ∧ e.RunsLike c := by
  intro command catalog
  let c : Configuration := {
    name := "smoke"
    args := command.args
    options := { loop := true, maxRunCount := some 3, shardCount := some 2 }
    requirements := { serials := .ofList ["-"] }
    target := { classes := ["A", "-B#t1"], shardUnit := .byMethod }
    passthrough := ["-x"] }
  let parts : List Command := ["t1", "t2"].zipIdx.map fun shard => {
    id := 5 + shard.2
    args := ["smoke", "--loop", "--max-run-count", "3", "--serial", "-", "--class", "A",
      "--include-filter", "A#" ++ shard.1, "--shard-unit", "method", "--", "-x"]
    file := some ⟨"cmds.txt"⟩ }
  have hread : Configuration.ofArgs command.args = .ok c := by decide +kernel
  have hsplit : command.split catalog 2 5 = .ok (some parts) := by decide +kernel
  have hseparable : c.SeparableInShards catalog := by
    rw [Configuration.SeparableInShards, if_neg (by decide +kernel)]
    refine ⟨?_, by decide +kernel⟩
    constructor <;> decide +kernel
  obtain ⟨-, hparts, haccepted⟩ := split_accepted hread hsplit
  refine ⟨c, parts, hread, hsplit, by decide +kernel, fun part hpart => ?_⟩
  obtain ⟨-, hfile, -, -, hlike⟩ := hparts part hpart
  obtain ⟨e, he⟩ := haccepted.mpr hseparable part hpart
  exact ⟨hfile, e, he, hlike e he⟩

end Command

end DeviceLab
