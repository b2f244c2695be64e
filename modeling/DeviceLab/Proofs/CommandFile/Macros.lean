import DeviceLab.Proofs.CommandFile.Writing
import Mathlib.Data.List.Forall2

namespace DeviceLab.CommandFile

open Text

theorem firstCall?_eq_none_iff {tokens : List String} :
    firstCall? tokens = none ↔ ∀ token ∈ tokens, calledName? token = none := by
  refine ⟨fun h => ?_, firstCall?_eq_none⟩
  induction tokens with
  | nil => simp
  | cons token rest ih =>
      rw [firstCall?] at h
      cases hname : calledName? token with
      | some name =>
          rw [hname] at h
          cases h
      | none =>
          rw [hname] at h
          exact List.forall_mem_cons.mpr ⟨hname, ih (Option.map_eq_none_iff.mp h)⟩

theorem of_firstCall?_eq_some {tokens : List String} {site : CallSite}
    (h : firstCall? tokens = some site) :
    tokens = site.before ++ site.call :: site.after ∧ firstCall? site.before = none ∧
      calledName? site.call = some site.name := by
  induction tokens generalizing site with
  | nil => cases h
  | cons token rest ih =>
      rw [firstCall?] at h
      cases hname : calledName? token with
      | some name =>
          rw [hname] at h
          cases h
          exact ⟨rfl, rfl, hname⟩
      | none =>
          rw [hname] at h
          obtain ⟨inner, hinner, rfl⟩ := Option.map_eq_some_iff.mp h
          obtain ⟨hrest, hbefore, hcall⟩ := ih hinner
          refine ⟨by simp [← hrest], ?_, hcall⟩
          simp [firstCall?, hname, hbefore]

section append

variable {front back : List String} {site : CallSite}

theorem firstCall?_append_of_none (h : firstCall? front = none) :
    firstCall? (front ++ back) =
      (firstCall? back).map fun site => { site with before := front ++ site.before } := by
  induction front with
  | nil => simp
  | cons token rest ih =>
      obtain ⟨htoken, hrest⟩ := List.forall_mem_cons.mp (firstCall?_eq_none_iff.mp h)
      rw [List.cons_append, firstCall?, htoken]
      dsimp only
      rw [ih (firstCall?_eq_none_iff.mpr hrest), Option.map_map]
      rfl

theorem firstCall?_append_of_some (h : firstCall? front = some site) :
    firstCall? (front ++ back) = some { site with after := site.after ++ back } := by
  induction front generalizing site with
  | nil => cases h
  | cons token rest ih =>
      rw [List.cons_append, firstCall?]
      rw [firstCall?] at h
      cases hname : calledName? token with
      | some name =>
          rw [hname] at h
          cases h
          rfl
      | none =>
          rw [hname] at h
          obtain ⟨inner, hinner, rfl⟩ := Option.map_eq_some_iff.mp h
          dsimp only
          rw [ih hinner]
          rfl

theorem CallSite.splice_before (front tokens : List String) :
    { site with before := front ++ site.before }.splice tokens = front ++ site.splice tokens := by
  simp [splice]

theorem CallSite.splice_after (tokens back : List String) :
    { site with after := site.after ++ back }.splice tokens = site.splice tokens ++ back := by
  simp [splice]

end append

section collect

variable {α β ε : Type} {f : α → Except ε (List β)} {items : List α}

theorem collect_eq_ok_iff {results : List β} :
    collect f items = .ok results ↔
      ∃ parts, List.Forall₂ (fun a part => f a = .ok part) items parts ∧
        results = parts.flatten := by
  induction items generalizing results with
  | nil => simp [collect, eq_comm]
  | cons a rest ih =>
      rw [collect, bind_eq_ok_iff]
      constructor
      · rintro ⟨first, hfirst, h⟩
        obtain ⟨others, hothers, h⟩ := bind_eq_ok_iff.mp h
        obtain ⟨parts, hparts, rfl⟩ := ih.mp hothers
        cases h
        exact ⟨first :: parts, .cons hfirst hparts, List.flatten_cons.symm⟩
      · rintro ⟨_, hparts, rfl⟩
        cases hparts with
        | @cons _ first _ parts hfirst hparts =>
            exact ⟨first, hfirst, bind_eq_ok_iff.mpr
              ⟨parts.flatten, ih.mpr ⟨parts, hparts, rfl⟩, by rw [List.flatten_cons]; rfl⟩⟩

theorem exists_of_collect_eq_ok {results : List β} (h : collect f items = .ok results) {a : α}
    (ha : a ∈ items) : ∃ part, f a = .ok part := by
  obtain ⟨parts, hparts, -⟩ := collect_eq_ok_iff.mp h
  clear h
  induction hparts with
  | nil => simp at ha
  | cons hfirst _ ih =>
      rcases List.mem_cons.mp ha with rfl | ha
      · exact ⟨_, hfirst⟩
      · exact ih ha

theorem exists_of_collect_eq_error {error : ε} (h : collect f items = .error error) :
    ∃ a ∈ items, f a = .error error := by
  induction items with
  | nil => cases h
  | cons a rest ih =>
      rw [collect] at h
      cases hfirst : f a with
      | error first =>
          rw [hfirst] at h
          cases h
          exact ⟨a, by simp, hfirst⟩
      | ok first =>
          rw [hfirst] at h
          cases hrest : collect f rest with
          | error other =>
              rw [hrest] at h
              cases h
              obtain ⟨b, hb, hfault⟩ := ih hrest
              exact ⟨b, by simp [hb], hfault⟩
          | ok others =>
              rw [hrest] at h
              cases h

theorem collect_eq_ok_or_error {parts : List (List β)} {error : ε}
    (h : List.Forall₂ (fun a part => f a = .ok part ∨ f a = .error error) items parts) :
    collect f items = .ok parts.flatten ∨ collect f items = .error error := by
  induction h with
  | nil => exact .inl rfl
  | cons hfirst _ ih =>
      rw [collect]
      rcases hfirst with hfirst | hfirst
      · rcases ih with ih | ih
        · exact .inl (by rw [hfirst, ih, List.flatten_cons]; rfl)
        · exact .inr (by rw [hfirst, ih]; rfl)
      · exact .inr (by rw [hfirst]; rfl)

theorem eq_map_of_forall₂ {γ : Type} {R : α → β → Prop} {S : α → γ → Prop} {g : β → γ}
    {parts : List β} {others : List γ} (hparts : List.Forall₂ R items parts)
    (hothers : List.Forall₂ S items others) (h : ∀ a b c, R a b → S a c → c = g b) :
    others = parts.map g := by
  induction hparts generalizing others with
  | nil =>
      cases hothers
      rfl
  | cons hfirst _ ih =>
      cases hothers with
      | cons hother hothers => rw [List.map_cons, ← ih hothers, h _ _ _ hfirst hother]

end collect

/-- The token lists that the macro of a name stands for, just one if it is a short macro. -/
def Macros.bodies? (macros : Macros) (name : String) : Option (List (List String)) :=
  match macros.short.get? name with
  | some body => some [body]
  | none => macros.long.get? name

variable {macros : Macros} {levels : Nat} {tokens : List String} {results : List (List String)}
  {site : CallSite}

theorem expand_succ_of_call (hsite : firstCall? tokens = some site) (macros : Macros)
    (levels : Nat) :
    expand macros (levels + 1) tokens =
      match macros.bodies? site.name with
      | some bodies => collect (fun body => expand macros levels (site.splice body)) bodies
      | none => .error (.unknownMacro site.call) := by
  rw [expand, hsite, Macros.bodies?]
  dsimp only
  cases macros.short.get? site.name with
  | none => rfl
  | some body =>
      dsimp only [collect]
      cases expand macros levels (site.splice body) with
      | error fault => rfl
      | ok results => simp [Bind.bind, Except.bind, Pure.pure, Except.pure]

theorem eq_of_expand_of_no_call (hcall : firstCall? tokens = none)
    (h : expand macros levels tokens = .ok results) : results = [tokens] := by
  cases levels with
  | zero => cases h
  | succ levels =>
      rw [expand, hcall] at h
      exact (Except.ok.inj h).symm

theorem exists_bodies_of_expand (hsite : firstCall? tokens = some site)
    (h : expand macros levels tokens = .ok results) :
    ∃ bodies parts, macros.bodies? site.name = some bodies ∧
      List.Forall₂ (fun body part => expand macros (levels - 1) (site.splice body) = .ok part)
        bodies parts ∧ results = parts.flatten := by
  cases levels with
  | zero => cases h
  | succ levels =>
      rw [expand_succ_of_call hsite] at h
      cases hbodies : macros.bodies? site.name with
      | none =>
          rw [hbodies] at h
          cases h
      | some bodies =>
          rw [hbodies] at h
          obtain ⟨parts, hparts, rfl⟩ := collect_eq_ok_iff.mp h
          exact ⟨bodies, parts, rfl, hparts, rfl⟩

theorem expand_append {front back : List String} {fronts backs : List (List String)}
    {frontLevels backLevels : Nat} (hfront : expand macros frontLevels front = .ok fronts)
    (hback : expand macros backLevels back = .ok backs)
    (h : expand macros levels (front ++ back) = .ok results) :
    results = fronts.flatMap fun first => backs.map (first ++ ·) := by
  -- On the levels: the first call of both lists is that of the front, and once the front has none,
  -- that of the back.
  induction levels generalizing front back fronts backs frontLevels backLevels results with
  | zero => cases h
  | succ levels ih =>
      cases hsite : firstCall? front with
      | some site =>
          obtain ⟨bodies, parts, hbodies, hparts, rfl⟩ := exists_bodies_of_expand hsite hfront
          obtain ⟨bodies', parts', hbodies', hparts', rfl⟩ :=
            exists_bodies_of_expand (firstCall?_append_of_some hsite) h
          obtain rfl : bodies' = bodies := Option.some.inj (hbodies'.symm.trans hbodies)
          have hmap := eq_map_of_forall₂ hparts hparts' fun body part part' hpart hpart' => by
            rw [CallSite.splice_after] at hpart'
            exact ih hpart hback hpart'
          rw [hmap, List.flatMap_def, List.map_flatten, List.flatten_flatten, List.map_map]
          rfl
      | none =>
          obtain rfl := eq_of_expand_of_no_call hsite hfront
          rw [List.flatMap_singleton]
          have happend : firstCall? (front ++ back) = _ := firstCall?_append_of_none hsite
          cases hsite' : firstCall? back with
          | none =>
              rw [hsite'] at happend
              obtain rfl := eq_of_expand_of_no_call hsite' hback
              exact eq_of_expand_of_no_call happend h
          | some site =>
              rw [hsite'] at happend
              obtain ⟨bodies, parts, hbodies, hparts, rfl⟩ := exists_bodies_of_expand hsite' hback
              obtain ⟨bodies', parts', hbodies', hparts', rfl⟩ := exists_bodies_of_expand happend h
              obtain rfl : bodies' = bodies := Option.some.inj (hbodies'.symm.trans hbodies)
              have hmap := eq_map_of_forall₂ hparts hparts' fun body part part' hpart hpart' => by
                rw [CallSite.splice_before] at hpart'
                exact (ih hfront hpart hpart').trans (List.flatMap_singleton _ front)
              rw [hmap, List.map_flatten]

theorem firstCall?_of_mem_expand (h : expand macros levels tokens = .ok results)
    {result : List String} (hresult : result ∈ results) : firstCall? result = none := by
  induction levels generalizing tokens results result with
  | zero => cases h
  | succ levels ih =>
      cases hsite : firstCall? tokens with
      | none =>
          obtain rfl := eq_of_expand_of_no_call hsite h
          rw [List.mem_singleton.mp hresult]
          exact hsite
      | some site =>
          obtain ⟨bodies, parts, -, hparts, rfl⟩ := exists_bodies_of_expand hsite h
          obtain ⟨part, hpart, hresult⟩ := List.mem_flatten.mp hresult
          have hall : List.Forall₂ (fun part body => (∀ result ∈ part, firstCall? result = none) ∧
              expand macros levels (site.splice body) = .ok part) parts bodies :=
            (hparts.imp fun body part hpart => ⟨fun result => ih hpart, hpart⟩).flip
          exact ((List.forall₂_and_left _ _).mp hall).1 part hpart result hresult

theorem expand_mono {more : Nat} (hle : levels ≤ more)
    (h : expand macros levels tokens = .ok results) :
    expand macros more tokens = .ok results := by
  induction levels generalizing more tokens results with
  | zero => cases h
  | succ levels ih =>
      cases more with
      | zero => exact absurd hle (Nat.not_succ_le_zero levels)
      | succ more =>
          cases hsite : firstCall? tokens with
          | none =>
              obtain rfl := eq_of_expand_of_no_call hsite h
              rw [expand, hsite]
          | some site =>
              obtain ⟨bodies, parts, hbodies, hparts, rfl⟩ := exists_bodies_of_expand hsite h
              rw [expand_succ_of_call hsite, hbodies]
              refine collect_eq_ok_iff.mpr ⟨parts, hparts.imp fun body part hpart => ?_, rfl⟩
              exact ih (Nat.le_of_succ_le_succ hle) hpart

theorem expand_eq_ok_or_tooDeep (h : expand macros levels tokens = .ok results) (others : Nat) :
    expand macros others tokens = .ok results ∨
      expand macros others tokens = .error .expansionTooDeep := by
  induction others generalizing levels tokens results with
  | zero => exact .inr rfl
  | succ others ih =>
      cases hsite : firstCall? tokens with
      | none =>
          obtain rfl := eq_of_expand_of_no_call hsite h
          exact .inl (by rw [expand, hsite])
      | some site =>
          obtain ⟨bodies, parts, hbodies, hparts, rfl⟩ := exists_bodies_of_expand hsite h
          rw [expand_succ_of_call hsite, hbodies]
          exact collect_eq_ok_or_error (hparts.imp fun body part hpart => ih hpart)

/-- Macros are expanded without regard to what stands around their calls.  Two token lists side by
side are expanded to each result of the first with each result of the second after it, the first
varying slowest, whatever the depths.  No call is left in a result, and what a token list is
expanded to at one depth it is also expanded to at another, unless that is too deep; it is not where
less depth has been reached. -/
theorem expandAt_in_context (macros : Macros) :
    (∀ front back fronts backs results depth depth' depth'',
      expandAt macros depth front = .ok fronts → expandAt macros depth' back = .ok backs →
      expandAt macros depth'' (front ++ back) = .ok results →
      results = fronts.flatMap fun first => backs.map (first ++ ·)) ∧
    (∀ tokens results depth, expandAt macros depth tokens = .ok results →
      (∀ result ∈ results, ∀ token ∈ result, calledName? token = none) ∧
      (∀ depth' ≤ depth, expandAt macros depth' tokens = .ok results) ∧
      ∀ depth', expandAt macros depth' tokens = .ok results ∨
        expandAt macros depth' tokens = .error .expansionTooDeep) := by
  refine ⟨fun _ _ _ _ _ _ _ _ hfront hback h => expand_append hfront hback h,
    fun tokens results depth h => ⟨fun result hresult => ?_, fun depth' hle => ?_, fun depth' => ?_⟩⟩
  · exact firstCall?_eq_none_iff.mp (firstCall?_of_mem_expand h hresult)
  · exact expand_mono (Nat.sub_le_sub_left hle _) h
  · exact expand_eq_ok_or_tooDeep h _

theorem expandAt_in_context_of_nested_macros :
    let macros : Macros := {
      short := .ofList [("serial", ["--serial", "host()"]), ("host", ["S1"])]
      long := .ofList [("modes", [["loops()"], ["nowhere()"]]), ("loops", [["--loop"], []]),
        ("nowhere", [])] }
    let front := ["smoke", "modes()", "serial()"]
    let back := ["loops()", "()"]
    let fronts := [["smoke", "--loop", "--serial", "S1"], ["smoke", "--serial", "S1"]]
    let backs := [["--loop", "()"], ["()"]]
    let results := [
      ["smoke", "--loop", "--serial", "S1", "--loop", "()"],
      ["smoke", "--loop", "--serial", "S1", "()"],
      ["smoke", "--serial", "S1", "--loop", "()"],
      ["smoke", "--serial", "S1", "()"]]
    (expandAt macros 0 front = .ok fronts ∧ expandAt macros 9 back = .ok backs ∧
      expandAt macros 3 (front ++ back) = .ok results) ∧
      results = (fronts.flatMap fun first => backs.map (first ++ ·)) ∧
      (∀ result ∈ results, ∀ token ∈ result, calledName? token = none) ∧
      expandAt macros 2 (front ++ back) = .ok results ∧
      expandAt macros 8 (front ++ back) = .error .expansionTooDeep := by
  intro macros front back fronts backs results
  have hfront : expandAt macros 0 front = .ok fronts := by decide +kernel
  have hback : expandAt macros 9 back = .ok backs := by decide +kernel
  have hall : expandAt macros 3 (front ++ back) = .ok results := by decide +kernel
  obtain ⟨happend, hdepth⟩ := expandAt_in_context macros
  obtain ⟨hcalls, hless, -⟩ := hdepth _ _ _ hall
  exact ⟨⟨hfront, hback, hall⟩, happend _ _ _ _ _ _ _ _ hfront hback hall, hcalls,
    hless 2 (by decide), by decide +kernel⟩

end DeviceLab.CommandFile
