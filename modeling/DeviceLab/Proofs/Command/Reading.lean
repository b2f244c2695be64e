import DeviceLab.Command.Configuration
import DeviceLab.Proofs.Text.Roundtrip

namespace DeviceLab

open Text

theorem RunMode.isRunnable_iff {m : RunMode} :
    m.isRunnable = true ↔ m = .oneShot ∨ m = .loop := by
  cases m <;> decide

/-- Whether a text begins with a dash and goes on, so that it is no value in an argument of its
own. -/
def Dashed (text : String) : Prop :=
  2 ≤ text.length ∧ text.toList.head? = some '-'

instance (text : String) : Decidable (Dashed text) :=
  inferInstanceAs (Decidable (_ ∧ _))

theorem ArgumentForm.of_eq_plain_iff {arg : String} : of arg = .plain ↔ ¬Dashed arg := by
  rw [Dashed, ← String.length_toList, of]
  split
  · next h => simp [h]
  · next h =>
    simp only [h]
    split <;> simp
  · next h => simp [h]
  · next hdivider hlong hshort =>
    simp only [true_iff, not_and]
    rcases hlist : arg.toList with - | ⟨c, - | ⟨d, cs⟩⟩
    · simp
    · simp
    · rintro - hdash
      obtain rfl : c = '-' := by simpa using hdash
      exact hshort d cs hlist

section splitEquals

variable {before key value : List Char}

theorem splitEquals_append (hkey : '=' ∉ key) (before value : List Char) :
    splitEquals before (key ++ '=' :: value) =
      some (String.ofList (before.reverse ++ key), String.ofList value) := by
  induction key generalizing before with
  | nil => simp [splitEquals]
  | cons c cs ih =>
      obtain ⟨hc, hcs⟩ : '=' ≠ c ∧ '=' ∉ cs := by simpa using hkey
      rw [List.cons_append, splitEquals, ih hcs, List.reverse_cons, List.append_assoc]
      · rfl
      · exact fun heq => hc heq.symm

theorem not_mem_of_splitEquals {text : List Char} {entry : String × String}
    (hbefore : '=' ∉ before) (h : splitEquals before text = some entry) :
    '=' ∉ entry.1.toList := by
  induction text generalizing before with
  | nil => cases h
  | cons c cs ih =>
      by_cases hc : c = '='
      · rw [hc, splitEquals] at h
        cases h
        simpa using hbefore
      · rw [splitEquals.eq_3 _ _ _ hc] at h
        refine ih (List.not_mem_cons_of_ne_of_not_mem (Ne.symm hc) hbefore) h

end splitEquals

theorem readProperty_append {key : String} (hkey : '=' ∉ key.toList) (value : String) :
    readProperty (key ++ "=" ++ value) = .ok (key, value) := by
  have hlist : (key ++ "=" ++ value).toList = key.toList ++ '=' :: value.toList := by simp
  rw [readProperty, hlist, splitEquals_append hkey]
  simp

theorem not_mem_of_readProperty {text : String} {entry : String × String}
    (h : readProperty text = .ok entry) : '=' ∉ entry.1.toList := by
  unfold readProperty at h
  split at h
  · cases h
    exact not_mem_of_splitEquals List.not_mem_nil ‹_›
  · cases h

theorem readMillis_toString {n : Nat} (h : n ≤ maxMillis) : readMillis (toString n) = .ok n := by
  rw [readMillis, readNatural_toString h]

theorem readMillis_le {text : String} {n : Nat} (h : readMillis text = .ok n) : n ≤ maxMillis := by
  unfold readMillis at h
  split at h
  · cases h
    exact readNatural_le ‹_›
  · cases h

theorem readCount_toString {n : Nat} (h : n ≤ maxCount) : readCount (toString n) = .ok n := by
  have hmax : n ≤ maxInteger64 := Nat.le_trans h (by decide)
  rw [readCount, readInteger_toString hmax]
  dsimp only
  rw [if_pos (by omega)]
  rfl

theorem readCount_le {text : String} {n : Nat} (h : readCount text = .ok n) : n ≤ maxCount := by
  unfold readCount at h
  split at h
  · split at h
    · cases h
      omega
    · cases h
  · cases h

namespace Reading

variable {r q after : Reading} {pending : Option Pending} {rest : List String}

theorem name_of_give {p : Param} {value : String} (h : r.give p value = .ok after) :
    after.name = r.name := by
  unfold give at h
  split at h
  · cases h
  · split at h
    · cases h
    · cases h
      rfl

theorem name_of_settle (h : r.settle pending = .ok after) : after.name = r.name := by
  rcases pending with - | ⟨p, - | value⟩
  · cases h
    rfl
  · cases h
  · exact name_of_give h

theorem name_of_turnOn {s : Switch} (h : r.turnOn s = .ok after) : after.name = r.name := by
  unfold turnOn at h
  split at h
  · cases h
  · cases h
    rfl

theorem form_param (p : Param) : ArgumentForm.of p.flag = .long p.name none := by
  cases p <;> decide

theorem form_switch (s : Switch) : ArgumentForm.of s.flag = .long s.name none := by
  cases s <;> decide

theorem switch_ofName?_param (p : Param) : Switch.ofName? p.name = none := by
  cases p <;> decide

/-- Where a parameter that waits to be settled can be settled, it makes no difference whether it has
been. -/
theorem scan_eq_of_settle (h : r.settle pending = .ok q) (rest : List String) :
    r.scan pending rest = q.scan none rest := by
  rcases pending with - | ⟨p, - | value⟩
  · cases h
    rfl
  · cases h
  · have hname : q.name = r.name := name_of_settle h
    cases rest with
    | nil =>
        rw [scan, scan, h]
        rfl
    | cons arg rest =>
        unfold scan
        rw [h, hname]
        cases ArgumentForm.of arg with
        | divider => rfl
        | short c => rfl
        | long name value? => rfl
        | plain =>
            cases r.name with
            | none =>
                dsimp only
                rw [h]
                rfl
            | some name => rfl

theorem scan_flag (p : Param) (rest : List String) :
    r.scan none (p.flag :: rest) = r.scan (some { param := p }) rest := by
  rw [scan.eq_def]
  dsimp only
  rw [form_param]
  dsimp only
  rw [switch_ofName?_param, Param.ofName?_name]
  rfl

theorem scan_awaiting_eq_ok_iff {p : Param} {value : String} :
    r.scan (some { param := p }) (value :: rest) = .ok after ↔
      ¬Dashed value ∧ r.scan (some ⟨p, some value⟩) rest = .ok after := by
  rw [← ArgumentForm.of_eq_plain_iff]
  constructor
  · intro h
    unfold scan at h
    split at h
    · cases h
    · cases h
    · split at h <;> cases h
    · exact ⟨‹_›, h⟩
  · rintro ⟨hplain, h⟩
    rw [scan, hplain]
    exact h

theorem scan_param_eq_ok_iff {p : Param} {value : String} (hgive : r.give p value = .ok q) :
    r.scan none (p.flag :: value :: rest) = .ok after ↔
      ¬Dashed value ∧ q.scan none rest = .ok after := by
  have hsettle : r.settle (some ⟨p, some value⟩) = .ok q := hgive
  rw [scan_flag, scan_awaiting_eq_ok_iff, scan_eq_of_settle hsettle]

theorem scan_switch {s : Switch} (hturn : r.turnOn s = .ok q) (rest : List String) :
    r.scan none (s.flag :: rest) = q.scan none rest := by
  rw [scan.eq_def]
  dsimp only
  rw [form_switch]
  dsimp only
  rw [Switch.ofName?_name]
  dsimp only
  change (r.turnOn s >>= fun r => r.scan none rest) = q.scan none rest
  rw [hturn]
  rfl

theorem form_name {args : List String} (h : r.scan pending args = .ok after)
    (hname : ∀ name, r.name = some name → ArgumentForm.of name = .plain) :
    ∀ name, after.name = some name → ArgumentForm.of name = .plain := by
  fun_induction scan r pending args with
  | case1 r pending =>
      rw [name_of_settle h]
      exact hname
  | case2 r pending =>
      obtain ⟨settled, hsettle, h⟩ := bind_eq_ok_iff.mp h
      cases h
      rw [name_of_settle hsettle]
      exact hname
  | case3 => cases h
  | case4 => cases h
  | case5 r pending arg rest name s _ _ ih =>
      obtain ⟨settled, hsettle, h⟩ := bind_eq_ok_iff.mp h
      obtain ⟨turned, hturn, h⟩ := bind_eq_ok_iff.mp h
      refine ih turned h ?_
      rw [name_of_turnOn hturn, name_of_settle hsettle]
      exact hname
  | case6 r pending arg rest name p value _ _ _ ih =>
      obtain ⟨settled, hsettle, h⟩ := bind_eq_ok_iff.mp h
      obtain ⟨given, hgive, h⟩ := bind_eq_ok_iff.mp h
      refine ih given h ?_
      rw [name_of_give hgive, name_of_settle hsettle]
      exact hname
  | case7 r pending arg rest name p _ _ _ ih =>
      obtain ⟨settled, hsettle, h⟩ := bind_eq_ok_iff.mp h
      refine ih settled h ?_
      rw [name_of_settle hsettle]
      exact hname
  | case8 => cases h
  | case9 r arg rest _ p ih => exact ih h hname
  | case10 => cases h
  | case11 r arg rest hplain pending _ _ ih =>
      obtain ⟨settled, hsettle, h⟩ := bind_eq_ok_iff.mp h
      refine ih settled h fun name heq => ?_
      rwa [← Option.some.inj heq]

end Reading

namespace Configuration

variable {c : Configuration} {args : List String}

/-- What a configuration that is read comes from.  It has the name that was read, and an empty one
where none was, which is so only for a request for help. -/
theorem ofArgs_eq_ok_iff :
    ofArgs args = .ok c ↔ ∃ r name, Reading.ofArgs args = .ok r ∧ c = ofReading name args r ∧
      c.fault? = none ∧
      (r.name = some name ∨ r.name = none ∧ Switch.help ∈ r.switches ∧ name = "") := by
  unfold ofArgs
  cases hread : Reading.ofArgs args with
  | error fault => simp
  | ok r =>
      dsimp only
      constructor
      · intro h
        split at h
        · cases h
        · rename_i name hnamed
          split at h
          · cases h
          · rename_i hfault
            cases h
            refine ⟨r, name, rfl, rfl, hfault, ?_⟩
            split at hnamed
            · exact .inl (Eq.trans ‹_› hnamed)
            · split at hnamed
              · exact .inr ⟨‹_›, ‹_›, (Option.some.inj hnamed).symm⟩
              · cases hnamed
      · rintro ⟨_, name, ⟨⟩, rfl, hfault, hname | ⟨hname, hhelp, rfl⟩⟩
        · simp only [hname, hfault]
        · simp only [hname, if_pos hhelp, hfault]

theorem args_of_ofArgs (h : ofArgs args = .ok c) : c.args = args := by
  obtain ⟨r, name, -, rfl, -⟩ := ofArgs_eq_ok_iff.mp h
  rfl

/-- Whether arguments are those of a command that is to be run. -/
def asksToRun (args : List String) : Bool :=
  match ofArgs args with
  | .error _ => false
  | .ok c => c.options.runMode.isRunnable

theorem asksToRun_iff :
    asksToRun args = true ↔ ∃ c, ofArgs args = .ok c ∧ c.options.runMode.isRunnable = true := by
  unfold asksToRun
  cases ofArgs args <;> simp

theorem number?_le {read : String → Except String Nat} {max : Nat}
    (hread : ∀ {text n}, read text = .ok n → n ≤ max) {r : Reading} {p : Param} {n : Nat}
    (h : number? read r p = some n) : n ≤ max := by
  obtain ⟨value, -, hvalue⟩ := Option.bind_eq_some_iff.mp h
  cases hnumber : read value with
  | error reason => simp [hnumber, Except.toOption] at hvalue
  | ok m =>
      obtain rfl : m = n := by simpa [hnumber, Except.toOption] using hvalue
      exact hread hnumber

theorem getD_number?_le {read : String → Except String Nat} {max : Nat}
    (hread : ∀ {text n}, read text = .ok n → n ≤ max) (r : Reading) (p : Param) :
    (number? read r p).getD 0 ≤ max := by
  cases hnumber : number? read r p with
  | none => exact Nat.zero_le max
  | some n => exact number?_le hread hnumber

/-- What holds of every configuration that is read, and of what is made of it for a shard. -/
structure WellFormed (c : Configuration) : Prop where
  name : ¬Dashed c.name
  minLoopTime : c.options.minLoopTime ≤ maxMillis
  runtimeHint : c.target.runtimeHint ≤ maxMillis
  maxRunCount : ∀ n, c.options.maxRunCount = some n → n ≤ maxCount
  shardCount : ∀ n, c.options.shardCount = some n → n ≤ maxCount
  properties : ∀ e ∈ c.requirements.properties.entries, '=' ∉ e.1.toList
  fault : c.fault? = none

theorem wellFormed_of_ofArgs (h : ofArgs args = .ok c) : c.WellFormed := by
  obtain ⟨r, name, hread, rfl, hfault, hname⟩ := ofArgs_eq_ok_iff.mp h
  refine ⟨?_, getD_number?_le readMillis_le r _, getD_number?_le readMillis_le r _,
    fun n => number?_le readCount_le, fun n => number?_le readCount_le, fun e he => ?_, hfault⟩
  · rcases hname with hname | ⟨-, -, rfl⟩
    · rw [← ArgumentForm.of_eq_plain_iff]
      exact Reading.form_name hread (by simp) name hname
    · change ¬Dashed ""
      decide
  · obtain ⟨value, -, hvalue⟩ := List.mem_filterMap.mp (Dictionary.mem_of_mem_ofList he)
    cases hproperty : readProperty value with
    | error reason => simp [hproperty, Except.toOption] at hvalue
    | ok entry =>
        obtain rfl : entry = e := by simpa [hproperty, Except.toOption] using hvalue
        exact not_mem_of_readProperty hproperty

theorem expectedExecutions_le (h : ofArgs args = .ok c) {n : Nat}
    (hn : c.options.expectedExecutions = some n) : n ≤ maxCount := by
  unfold CommandOptions.expectedExecutions at hn
  split at hn
  · exact (wellFormed_of_ofArgs h).maxRunCount n hn
  · cases hn
    decide

end Configuration

end DeviceLab
