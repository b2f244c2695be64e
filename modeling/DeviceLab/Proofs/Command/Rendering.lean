import DeviceLab.Command.Usage
import DeviceLab.Proofs.Command.Reading
import Mathlib.Data.List.Basic

/-!
Reading arguments that were written.

A configuration that comes from arguments is written option by option, each value in an argument of
its own.  Reading what is written goes through the options in the same order.  It adds to what has
been read what the option stands for, unless a value looks like an option there; then it fails.  So
the written arguments are read as the same configuration or as none, and which of the two is
decided by the values alone.
-/

namespace DeviceLab

open Text

theorem UsageOption.mem_all (option : UsageOption) : option ∈ all := by
  rcases option with s | p
  · cases s <;> decide
  · cases p <;> decide

namespace Reading

variable {r after : Reading} {rest : List String}

def withValues (r : Reading) (p : Param) (values : List String) : Reading :=
  { r with values := r.values ++ values.map fun value => (p, value) }

def withSwitch (r : Reading) (s : Switch) (on : Bool) : Reading :=
  { r with switches := r.switches ++ if on then [s] else [] }

theorem valuesOf_withValues (r : Reading) (p other : Param) (values : List String) :
    (r.withValues p values).valuesOf other =
      r.valuesOf other ++ if p = other then values else [] := by
  by_cases h : p = other <;>
    simp [valuesOf, withValues, List.filterMap_append, List.filterMap_map, h]

theorem mem_switches_withSwitch {s t : Switch} {on : Bool} :
    t ∈ (r.withSwitch s on).switches ↔ t ∈ r.switches ∨ t = s ∧ on = true := by
  cases on <;> simp [withSwitch]

theorem withValues_cons (r : Reading) (p : Param) (value : String) (rest : List String) :
    r.withValues p (value :: rest) = (r.withValues p [value]).withValues p rest := by
  simp [withValues]

theorem give_eq_ok {p : Param} {value : String}
    (hroom : p.isRepeatable = true ∨ r.valuesOf p = []) (hfault : p.fault? value = none) :
    r.give p value = .ok (r.withValues p [value]) := by
  have hnew : ¬(!p.isRepeatable && r.values.any (·.1 == p)) = true := by
    simp only [Bool.and_eq_true, Bool.not_eq_true', List.any_eq_true, beq_iff_eq, not_and,
      not_exists]
    rintro hsingle ⟨_, value⟩ hmem rfl
    rcases hroom with hrepeatable | hnone
    · exact absurd hrepeatable (ne_true_of_eq_false hsingle)
    · have := List.filterMap_eq_nil_iff.mp hnone _ hmem
      simp at this
  rw [give, if_neg hnew, hfault]
  rfl

theorem scan_paramArgs_eq_ok_iff {p : Param} {values : List String}
    (hroom : p.isRepeatable = true ∨ (r.valuesOf p ++ values).length ≤ 1)
    (hfault : ∀ value ∈ values, p.fault? value = none) :
    r.scan none (Configuration.paramArgs p values ++ rest) = .ok after ↔
      (∀ value ∈ values, ¬Dashed value) ∧ (r.withValues p values).scan none rest = .ok after := by
  induction values generalizing r with
  | nil => simp [Configuration.paramArgs, withValues]
  | cons value values ih =>
      have hgive : r.give p value = .ok (r.withValues p [value]) := by
        refine give_eq_ok (hroom.imp_right fun hlength => ?_) (hfault value List.mem_cons_self)
        rw [List.length_append, List.length_cons] at hlength
        exact List.eq_nil_of_length_eq_zero (by omega)
      have hroom' : p.isRepeatable = true ∨
          ((r.withValues p [value]).valuesOf p ++ values).length ≤ 1 := by
        rwa [valuesOf_withValues, if_pos rfl, List.append_assoc]
      change r.scan none (p.flag :: value :: (Configuration.paramArgs p values ++ rest)) = _ ↔ _
      rw [scan_param_eq_ok_iff hgive, withValues_cons r p value values, List.forall_mem_cons,
        ih hroom' fun other hother => hfault other (List.mem_cons_of_mem _ hother), and_assoc]

/-- Nothing has been read of an option. -/
def Lacks (r : Reading) : UsageOption → Prop
  | .switch s => s ∉ r.switches
  | .param p => r.valuesOf p = []

theorem scan_switchArgs {s : Switch} (hoff : s ∉ r.switches) (on : Bool) (rest : List String) :
    r.scan none (Configuration.switchArgs s on ++ rest) = (r.withSwitch s on).scan none rest := by
  cases on with
  | false => simp [Configuration.switchArgs, withSwitch]
  | true =>
      have hturn : r.turnOn s = .ok (r.withSwitch s true) := if_neg hoff
      exact scan_switch hturn rest

theorem scan_passthrough (r : Reading) (hr : r.passthrough = []) (passthrough : List String) :
    r.scan none (if passthrough.isEmpty then [] else "--" :: passthrough) =
      .ok { r with passthrough } := by
  cases passthrough with
  | nil =>
      have hsame : { r with passthrough := [] } = r := by rw [← hr]
      rw [hsame]
      rfl
  | cons first rest =>
      have hform : ArgumentForm.of "--" = .divider := by decide
      rw [List.isEmpty_cons, if_neg Bool.false_ne_true, scan.eq_def]
      dsimp only
      rw [hform]
      rfl

theorem valuesOf_passthrough (r : Reading) (passthrough : List String) (p : Param) :
    { r with passthrough }.valuesOf p = r.valuesOf p := rfl

end Reading

namespace Configuration

variable {c e : Configuration} {args : List String}

def isOn (c : Configuration) : Switch → Bool
  | .loop => c.options.loop
  | .dryRun => c.options.dryRun
  | .help => c.options.help
  | .emulator => c.requirements.emulator
  | .nullDevice => c.requirements.nullDevice

/-- The values under which a parameter is written. -/
def written (c : Configuration) : Param → List String
  | .minLoopTime => numberValues (nonzero? c.options.minLoopTime)
  | .maxRunCount => numberValues c.options.maxRunCount
  | .serial => c.requirements.serials.toList
  | .excludeSerial => c.requirements.excludedSerials.toList
  | .productType => c.requirements.productTypes.toList
  | .productDeviceType => c.requirements.productDeviceTypes.toList
  | .property => c.requirements.properties.entries.map fun e => e.1 ++ "=" ++ e.2
  | .testClass => c.target.classes
  | .method => c.target.method.toList
  | .includeFilter => c.target.includeFilters
  | .excludeFilter => c.target.excludeFilters
  | .shardUnit => if c.target.shardUnit = .byClass then [] else [c.target.shardUnit.label]
  | .runtimeHint => numberValues (nonzero? c.target.runtimeHint)
  | .shardCount => numberValues c.options.shardCount

/-- An option as arguments. -/
def optionArgs (c : Configuration) : UsageOption → List String
  | .switch s => switchArgs s (c.isOn s)
  | .param p => paramArgs p (c.written p)

theorem toArgs_eq (c : Configuration) :
    c.toArgs = c.name :: (UsageOption.all.flatMap c.optionArgs ++
      if c.passthrough.isEmpty then [] else "--" :: c.passthrough) := by
  simp only [toArgs, UsageOption.all, List.flatMap_cons, List.flatMap_nil, List.append_nil,
    List.append_assoc]
  rfl

theorem mem_numberValues {n? : Option Nat} {value : String} :
    value ∈ numberValues n? ↔ ∃ n, n? = some n ∧ value = toString n := by
  cases n? <;> simp [numberValues]

theorem readMillis_of_nonzero? {n m : Nat} (hn : n ≤ maxMillis) (hm : nonzero? n = some m) :
    readMillis (toString m) = .ok m := by
  unfold nonzero? at hm
  split at hm
  · cases hm
  · rw [← Option.some.inj hm]
    exact readMillis_toString hn

theorem getD_nonzero? (n : Nat) : (nonzero? n).getD 0 = n := by
  rw [nonzero?]
  split
  · exact Eq.symm ‹_›
  · rfl

theorem length_written (c : Configuration) (p : Param) :
    p.isRepeatable = true ∨ (c.written p).length ≤ 1 := by
  have hnumber : ∀ n? : Option Nat, (numberValues n?).length ≤ 1 := by
    intro n?
    rw [numberValues, List.length_map]
    exact Option.length_toList_le
  cases p
  case minLoopTime => exact .inr (hnumber _)
  case maxRunCount => exact .inr (hnumber _)
  case runtimeHint => exact .inr (hnumber _)
  case shardCount => exact .inr (hnumber _)
  case method => exact .inr Option.length_toList_le
  case shardUnit =>
    refine .inr ?_
    rw [written]
    split <;> simp
  all_goals exact .inl rfl

theorem WellFormed.fault?_written (hc : c.WellFormed) {p : Param} {value : String}
    (h : value ∈ c.written p) : p.fault? value = none := by
  cases p
  case minLoopTime =>
    obtain ⟨n, hn, rfl⟩ := mem_numberValues.mp h
    simp only [Param.fault?, readMillis_of_nonzero? hc.minLoopTime hn]
  case runtimeHint =>
    obtain ⟨n, hn, rfl⟩ := mem_numberValues.mp h
    simp only [Param.fault?, readMillis_of_nonzero? hc.runtimeHint hn]
  case maxRunCount =>
    obtain ⟨n, hn, rfl⟩ := mem_numberValues.mp h
    simp only [Param.fault?, readCount_toString (hc.maxRunCount n hn)]
  case shardCount =>
    obtain ⟨n, hn, rfl⟩ := mem_numberValues.mp h
    simp only [Param.fault?, readCount_toString (hc.shardCount n hn)]
  case property =>
    obtain ⟨e, he, rfl⟩ := List.mem_map.mp h
    simp only [Param.fault?, readProperty_append (hc.properties e he)]
  case shardUnit =>
    rw [written] at h
    split at h
    · cases h
    · obtain rfl := List.mem_singleton.mp h
      cases c.target.shardUnit <;> decide
  all_goals rfl

/-! ### Reading what is written -/

/-- What has been read, and what an option of the configuration stands for. -/
def adds (c : Configuration) (r : Reading) : UsageOption → Reading
  | .switch s => r.withSwitch s (c.isOn s)
  | .param p => r.withValues p (c.written p)

/-- What the written arguments are read as. -/
def reading (c : Configuration) : Reading :=
  { UsageOption.all.foldl c.adds { name := some c.name } with passthrough := c.passthrough }

theorem lacks_adds {r : Reading} {option other : UsageOption} (h : r.Lacks other)
    (hne : option ≠ other) : (c.adds r option).Lacks other := by
  cases option with
  | switch s =>
      cases other with
      | switch t =>
          have hst : t ≠ s := fun heq => hne (by rw [heq])
          have hnot : t ∉ if c.isOn s then [s] else [] := by
            split <;> simp [hst]
          exact fun hmem => (List.mem_append.mp hmem).elim h hnot
      | param p => exact h
  | param p =>
      cases other with
      | switch s => exact h
      | param q =>
          have hpq : p ≠ q := fun heq => hne (by rw [heq])
          change (r.withValues p (c.written p)).valuesOf q = []
          rw [Reading.valuesOf_withValues, if_neg hpq, List.append_nil]
          exact h

theorem WellFormed.scan_optionArgs_eq_ok_iff (hc : c.WellFormed) {r after : Reading}
    {option : UsageOption} (hlacks : r.Lacks option) (rest : List String) :
    r.scan none (c.optionArgs option ++ rest) = .ok after ↔
      (∀ p, option = .param p → ∀ value ∈ c.written p, ¬Dashed value) ∧
        (c.adds r option).scan none rest = .ok after := by
  cases option with
  | switch s =>
      change r.scan none (switchArgs s (c.isOn s) ++ rest) = _ ↔ _
      rw [Reading.scan_switchArgs hlacks]
      simp [adds]
  | param p =>
      have hroom : p.isRepeatable = true ∨ (r.valuesOf p ++ c.written p).length ≤ 1 := by
        rw [hlacks, List.nil_append]
        exact c.length_written p
      change r.scan none (paramArgs p (c.written p) ++ rest) = _ ↔ _
      rw [Reading.scan_paramArgs_eq_ok_iff hroom fun value => hc.fault?_written]
      simp [adds]

theorem WellFormed.scan_options_eq_ok_iff (hc : c.WellFormed) {options : List UsageOption}
    (hnodup : options.Nodup) {r after : Reading} (hlacks : ∀ option ∈ options, r.Lacks option)
    (rest : List String) :
    r.scan none (options.flatMap c.optionArgs ++ rest) = .ok after ↔
      (∀ p, .param p ∈ options → ∀ value ∈ c.written p, ¬Dashed value) ∧
        (options.foldl c.adds r).scan none rest = .ok after := by
  induction options generalizing r with
  | nil => simp
  | cons option options ih =>
      obtain ⟨hnew, hnodup⟩ := List.nodup_cons.mp hnodup
      have hlacks' : ∀ other ∈ options, (c.adds r option).Lacks other := by
        intro other hother
        refine lacks_adds (hlacks other (List.mem_cons_of_mem _ hother)) ?_
        rintro rfl
        exact hnew hother
      rw [List.flatMap_cons, List.append_assoc,
        hc.scan_optionArgs_eq_ok_iff (hlacks option List.mem_cons_self), ih hnodup hlacks',
        List.foldl_cons, ← and_assoc]
      refine and_congr_left fun _ => ?_
      constructor
      · rintro ⟨hfirst, hothers⟩ p hp
        rcases List.mem_cons.mp hp with heq | hp
        · exact hfirst p heq.symm
        · exact hothers p hp
      · intro hall
        exact ⟨fun p heq => hall p (heq ▸ List.mem_cons_self),
          fun p hp => hall p (List.mem_cons_of_mem _ hp)⟩

theorem foldl_adds (c : Configuration) (options : List UsageOption) (r : Reading) :
    (options.foldl c.adds r).name = r.name ∧
      (options.foldl c.adds r).passthrough = r.passthrough := by
  induction options generalizing r with
  | nil => exact ⟨rfl, rfl⟩
  | cons option options ih =>
      obtain ⟨hname, hpassthrough⟩ := ih (c.adds r option)
      rw [List.foldl_cons, hname, hpassthrough]
      cases option <;> exact ⟨rfl, rfl⟩

theorem valuesOf_foldl_adds (c : Configuration) (options : List UsageOption) (r : Reading)
    (p : Param) : (options.foldl c.adds r).valuesOf p =
      r.valuesOf p ++ options.flatMap fun option =>
        if option = .param p then c.written p else [] := by
  induction options generalizing r with
  | nil => exact (List.append_nil _).symm
  | cons option options ih =>
      rw [List.foldl_cons, ih, List.flatMap_cons, ← List.append_assoc]
      congr 1
      cases option with
      | switch s => exact (List.append_nil _).symm
      | param q =>
          rw [adds, Reading.valuesOf_withValues]
          by_cases hq : q = p <;> simp [hq]

theorem mem_switches_foldl_adds {options : List UsageOption} {r : Reading} {s : Switch} :
    s ∈ (options.foldl c.adds r).switches ↔
      s ∈ r.switches ∨ .switch s ∈ options ∧ c.isOn s = true := by
  induction options generalizing r with
  | nil => simp
  | cons option options ih =>
      rw [List.foldl_cons, ih]
      cases option with
      | switch t =>
          rw [adds, Reading.mem_switches_withSwitch, or_assoc]
          refine or_congr_right ?_
          by_cases hst : s = t <;> simp [hst]
      | param p => simp [adds, Reading.withValues]

theorem WellFormed.readingOfArgs_toArgs_eq_ok_iff (hc : c.WellFormed) {r : Reading} :
    Reading.ofArgs c.toArgs = .ok r ↔
      (∀ p, ∀ value ∈ c.written p, ¬Dashed value) ∧ r = c.reading := by
  have hname : ∀ rest, Reading.scan {} none (c.name :: rest) =
      Reading.scan { name := some c.name } none rest := by
    intro rest
    rw [Reading.scan.eq_def]
    dsimp only
    rw [ArgumentForm.of_eq_plain_iff.mpr hc.name]
    rfl
  have hlacks : ∀ option ∈ UsageOption.all, Reading.Lacks { name := some c.name } option := by
    rintro (s | p) -
    · exact List.not_mem_nil
    · rfl
  rw [Reading.ofArgs, toArgs_eq, hname, hc.scan_options_eq_ok_iff (by decide) hlacks,
    Reading.scan_passthrough _ (c.foldl_adds _ _).2, Except.ok.injEq, eq_comm]
  simp only [UsageOption.mem_all, true_imp_iff]
  rfl

theorem name_reading (c : Configuration) : c.reading.name = some c.name := by
  rw [reading]
  dsimp only
  rw [(c.foldl_adds _ _).1]

theorem valuesOf_reading (c : Configuration) (p : Param) : c.reading.valuesOf p = c.written p := by
  rw [reading, Reading.valuesOf_passthrough, valuesOf_foldl_adds]
  cases p <;> simp [UsageOption.all, Reading.valuesOf]

theorem mem_switches_reading {s : Switch} : s ∈ c.reading.switches ↔ c.isOn s = true := by
  rw [reading]
  dsimp only
  rw [mem_switches_foldl_adds]
  simp [UsageOption.mem_all]

theorem number?_eq {read : String → Except String Nat} {r : Reading} {p : Param} {n? : Option Nat}
    (hvalues : r.valuesOf p = numberValues n?)
    (hread : ∀ n, n? = some n → read (toString n) = .ok n) : number? read r p = n? := by
  rw [number?, hvalues]
  cases n? with
  | none => rfl
  | some n =>
      change (read (toString n)).toOption = some n
      rw [hread n rfl]
      rfl

theorem WellFormed.ofReading_reading (hc : c.WellFormed) (args : List String) :
    ofReading c.name args c.reading = { c with args } := by
  have hmillis : ∀ {n : Nat} {p : Param}, n ≤ maxMillis → c.written p = numberValues (nonzero? n) →
      (number? readMillis c.reading p).getD 0 = n := by
    intro n p hn hwritten
    rw [number?_eq ((c.valuesOf_reading p).trans hwritten), getD_nonzero?]
    exact fun m => readMillis_of_nonzero? hn
  have hcount : ∀ {n? : Option Nat} {p : Param}, (∀ n, n? = some n → n ≤ maxCount) →
      c.written p = numberValues n? → number? readCount c.reading p = n? := by
    intro n? p hn hwritten
    refine number?_eq ((c.valuesOf_reading p).trans hwritten) fun n heq => ?_
    exact readCount_toString (hn n heq)
  have hswitch : ∀ s, decide (s ∈ c.reading.switches) = c.isOn s := by
    intro s
    rw [Bool.eq_iff_iff, decide_eq_true_iff, mem_switches_reading]
  have hset : ∀ {p : Param} (names : NameSet), c.written p = names.toList →
      NameSet.ofList (c.reading.valuesOf p) = names := by
    intro p names hwritten
    rw [valuesOf_reading, hwritten, NameSet.ofList_toList]
  have hproperties : (c.reading.valuesOf .property).filterMap (fun v => (readProperty v).toOption) =
      c.requirements.properties.entries := by
    have hread : ∀ e ∈ c.requirements.properties.entries,
        (readProperty (e.1 ++ "=" ++ e.2)).toOption = some e := by
      intro e he
      rw [readProperty_append (hc.properties e he)]
      rfl
    rw [valuesOf_reading, written, List.filterMap_map]
    exact (List.filterMap_congr hread).trans List.filterMap_some
  have hunit : ((c.reading.valuesOf .shardUnit).getLast?.bind ShardUnit.ofLabel?).getD .byClass =
      c.target.shardUnit := by
    rw [valuesOf_reading, written]
    cases c.target.shardUnit <;> decide
  have hmethod : (c.reading.valuesOf .method).getLast? = c.target.method := by
    rw [valuesOf_reading, written]
    cases c.target.method <;> rfl
  unfold ofReading
  rw [hmillis hc.minLoopTime rfl, hmillis hc.runtimeHint rfl, hcount hc.maxRunCount rfl,
    hcount hc.shardCount rfl, hset c.requirements.serials rfl,
    hset c.requirements.excludedSerials rfl, hset c.requirements.productTypes rfl,
    hset c.requirements.productDeviceTypes rfl, hproperties, Dictionary.ofList_entries, hunit,
    hmethod]
  simp only [hswitch, valuesOf_reading]
  rfl

/-- The written arguments of a configuration that is well-formed are read as that configuration, if
no value looks like an option, and are refused otherwise. -/
theorem WellFormed.ofArgs_toArgs_eq_ok_iff (hc : c.WellFormed) :
    ofArgs c.toArgs = .ok e ↔
      (∀ p, ∀ value ∈ c.written p, ¬Dashed value) ∧ e = { c with args := c.toArgs } := by
  have hname := c.name_reading
  simp only [ofArgs_eq_ok_iff, hc.readingOfArgs_toArgs_eq_ok_iff]
  constructor
  · rintro ⟨r, name, ⟨hplain, rfl⟩, rfl, -, hread | ⟨hread, -⟩⟩
    · obtain rfl : c.name = name := Option.some.inj (hname.symm.trans hread)
      exact ⟨hplain, hc.ofReading_reading c.toArgs⟩
    · rw [hname] at hread
      cases hread
  · rintro ⟨hplain, rfl⟩
    exact ⟨c.reading, c.name, ⟨hplain, rfl⟩, (hc.ofReading_reading c.toArgs).symm, hc.fault,
      .inl hname⟩

/-- Whether each value of a configuration can stand in an argument of its own. -/
structure Separable (c : Configuration) : Prop where
  serials : ∀ serial ∈ c.requirements.serials, ¬Dashed serial
  excludedSerials : ∀ serial ∈ c.requirements.excludedSerials, ¬Dashed serial
  productTypes : ∀ product ∈ c.requirements.productTypes, ¬Dashed product
  productDeviceTypes : ∀ product ∈ c.requirements.productDeviceTypes, ¬Dashed product
  properties : ∀ e ∈ c.requirements.properties.entries, e.1.toList.head? ≠ some '-'
  classes : ∀ testClass ∈ c.target.classes, ¬Dashed testClass
  method : ∀ method, c.target.method = some method → ¬Dashed method
  includeFilters : ∀ filter ∈ c.target.includeFilters, ¬Dashed filter
  excludeFilters : ∀ filter ∈ c.target.excludeFilters, ¬Dashed filter

theorem not_dashed_toString (n : Nat) : ¬Dashed (toString n) := by
  rintro ⟨-, hdash⟩
  obtain ⟨cs, hlist⟩ := List.head?_eq_some_iff.mp hdash
  exact toString_ne_cons (by decide) hlist

/-- A text with a mark in it looks like an option exactly if what stands before the mark begins with
a dash: the mark follows it in any case. -/
theorem dashed_marked_iff {front rest : String} (mark : Char) (hmark : mark ≠ '-')
    (hrest : rest.toList.head? = some mark) :
    Dashed (front ++ rest) ↔ front.toList.head? = some '-' := by
  obtain ⟨tail, htail⟩ := List.head?_eq_some_iff.mp hrest
  rw [Dashed, ← String.length_toList, String.toList_append, htail]
  cases front.toList with
  | nil => simp [hmark]
  | cons c cs => simp; omega

theorem dashed_property_iff {key value : String} :
    Dashed (key ++ "=" ++ value) ↔ key.toList.head? = some '-' := by
  rw [String.append_assoc]
  exact dashed_marked_iff '=' (by decide) (by simp)

theorem separable_iff : c.Separable ↔ ∀ p, ∀ value ∈ c.written p, ¬Dashed value := by
  have hnumber : ∀ n? : Option Nat, ∀ value ∈ numberValues n?, ¬Dashed value := by
    intro n? value h
    obtain ⟨n, -, rfl⟩ := mem_numberValues.mp h
    exact not_dashed_toString n
  constructor
  · intro hc p
    cases p
    case minLoopTime => exact hnumber _
    case maxRunCount => exact hnumber _
    case runtimeHint => exact hnumber _
    case shardCount => exact hnumber _
    case serial => exact hc.serials
    case excludeSerial => exact hc.excludedSerials
    case productType => exact hc.productTypes
    case productDeviceType => exact hc.productDeviceTypes
    case property =>
      intro value h
      obtain ⟨e, he, rfl⟩ := List.mem_map.mp h
      exact fun hdashed => hc.properties e he (dashed_property_iff.mp hdashed)
    case testClass => exact hc.classes
    case method => exact fun method h => hc.method method (Option.mem_toList.mp h)
    case includeFilter => exact hc.includeFilters
    case excludeFilter => exact hc.excludeFilters
    case shardUnit =>
      rw [written]
      cases c.target.shardUnit <;> decide
  · intro h
    exact {
      serials := h .serial
      excludedSerials := h .excludeSerial
      productTypes := h .productType
      productDeviceTypes := h .productDeviceType
      properties := fun e he hdash =>
        h .property _ (List.mem_map_of_mem he) (dashed_property_iff.mpr hdash)
      classes := h .testClass
      method := fun method hmethod => h .method method (Option.mem_toList.mpr hmethod)
      includeFilters := h .includeFilter
      excludeFilters := h .excludeFilter }

/-- The arguments that a configuration is written as are read as the same configuration or refused,
and they are refused exactly if a value cannot stand in an argument of its own. -/
theorem ofArgs_toArgs (h : ofArgs args = .ok c) :
    (∀ e, ofArgs c.toArgs = .ok e → e = { c with args := c.toArgs }) ∧
      (ofArgs c.toArgs = .ok { c with args := c.toArgs } ↔ c.Separable) := by
  have hc := wellFormed_of_ofArgs h
  constructor
  · intro e he
    exact (hc.ofArgs_toArgs_eq_ok_iff.mp he).2
  · rw [hc.ofArgs_toArgs_eq_ok_iff, separable_iff]
    exact and_iff_left rfl

theorem ofArgs_toArgs_of_attached_values :
    (∃ c, ofArgs ["smoke", "--serial=-", "--property=k=v=w", "--class=a.B", "--", "-x"] = .ok c ∧
      ofArgs c.toArgs = .ok { c with args := c.toArgs }) ∧
    ∃ c, ofArgs ["smoke", "--serial=-S1"] = .ok c ∧
      ofArgs c.toArgs ≠ .ok { c with args := c.toArgs } ∧
      ∀ e, ofArgs c.toArgs = .ok e → e = { c with args := c.toArgs } := by
  let plain : Configuration := {
    name := "smoke"
    args := ["smoke", "--serial=-", "--property=k=v=w", "--class=a.B", "--", "-x"]
    requirements := { serials := .ofList ["-"], properties := .ofList [("k", "v=w")] }
    target := { classes := ["a.B"] }
    passthrough := ["-x"] }
  let dashed : Configuration := {
    name := "smoke"
    args := ["smoke", "--serial=-S1"]
    requirements := { serials := .ofList ["-S1"] } }
  have hplain : ofArgs plain.args = .ok plain := by decide +kernel
  have hdashed : ofArgs dashed.args = .ok dashed := by decide +kernel
  have hseparable : plain.Separable := by
    constructor <;> decide +kernel
  refine ⟨⟨plain, hplain, ?_⟩, dashed, hdashed, ?_, ?_⟩
  · exact (ofArgs_toArgs hplain).2.mpr hseparable
  · intro h
    have hserials := ((ofArgs_toArgs hdashed).2.mp h).serials
    exact hserials "-S1" (by decide +kernel) (by decide +kernel)
  · exact (ofArgs_toArgs hdashed).1

end Configuration

end DeviceLab
