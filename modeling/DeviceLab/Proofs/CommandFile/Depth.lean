import DeviceLab.Proofs.CommandFile.Macros
import Mathlib.Data.List.Chain
import Mathlib.Data.List.Nodup
import Mathlib.Logic.Relation

/-!
How many calls can be replaced in a token list.

The levels of an expansion are used up by calls that stand side by side as well as by calls within
the bodies of others.  So a token list is too deep exactly when more calls can be replaced in it than
there are levels, if only each macro that comes up is known and has a body.  Where no token list has
more than one call, these calls are nested in one another: then the macros are nested too deeply, or
one of them is recursive.
-/

namespace DeviceLab.CommandFile

open Text

def Calls (tokens : List String) (name : String) : Prop :=
  ∃ token ∈ tokens, calledName? token = some name

def callCount (tokens : List String) : Nat :=
  tokens.countP fun token => (calledName? token).isSome

namespace Macros

/-- Whether a body of the macro of one name calls that of another. -/
def Refers (macros : Macros) (name inner : String) : Prop :=
  ∃ bodies, macros.bodies? name = some bodies ∧ ∃ body ∈ bodies, Calls body inner

def Recursive (macros : Macros) (name : String) : Prop :=
  Relation.TransGen macros.Refers name name

/-- Whether a token list calls a macro, directly or through the bodies of others. -/
def Reaches (macros : Macros) (tokens : List String) (name : String) : Prop :=
  ∃ first, Calls tokens first ∧ Relation.ReflTransGen macros.Refers first name

/-- Macros of which the first is called in a token list and each other one in a body of the one
before. -/
structure Nests (macros : Macros) (tokens names : List String) : Prop where
  chain : names.IsChain macros.Refers
  first : ∀ name ∈ names.head?, Calls tokens name

/-- Whether a token list comes up in the expansion of another: that one itself, or the body of a
macro that it calls. -/
def ComesUp (macros : Macros) (tokens list : List String) : Prop :=
  list = tokens ∨
    ∃ name bodies, macros.Reaches tokens name ∧ macros.bodies? name = some bodies ∧ list ∈ bodies

/-- Whether so many calls can be replaced in a token list, with those in the bodies that are put in
for them.  A body is chosen for each call, and calls may be left as they are. -/
inductive Replaces (macros : Macros) : List String → Nat → Prop
  | nil : Replaces macros [] 0
  | skip {token : String} {rest : List String} {n : Nat} (after : Replaces macros rest n) :
      Replaces macros (token :: rest) n
  | call {token name : String} {rest body : List String} {bodies : List (List String)} {k n : Nat}
      (named : calledName? token = some name) (known : macros.bodies? name = some bodies)
      (chosen : body ∈ bodies) (within : Replaces macros body k) (after : Replaces macros rest n) :
      Replaces macros (token :: rest) (k + n + 1)

/-- Whether each macro that a token list calls, in whatever way, is known and has a body. -/
def Provides (macros : Macros) (tokens : List String) : Prop :=
  ∀ name, macros.Reaches tokens name → ∃ body rest, macros.bodies? name = some (body :: rest)

end Macros

open Macros

variable {macros : Macros} {levels n : Nat} {tokens front back body : List String}
  {bodies results : List (List String)} {site : CallSite}

/-! ### Calls around the first one -/

theorem Calls.cons {token name : String} (h : Calls tokens name) : Calls (token :: tokens) name := by
  obtain ⟨call, hcall, hname⟩ := h
  exact ⟨call, by simp [hcall], hname⟩

theorem calls_site (h : firstCall? tokens = some site) : Calls tokens site.name := by
  obtain ⟨rfl, -, hcall⟩ := of_firstCall?_eq_some h
  exact ⟨site.call, by simp, hcall⟩

theorem Macros.Reaches.of_splice {name : String} (hsite : firstCall? tokens = some site)
    (hbodies : macros.bodies? site.name = some bodies) (hbody : body ∈ bodies)
    (h : macros.Reaches (site.splice body) name) : macros.Reaches tokens name := by
  obtain ⟨first, ⟨token, htoken, hfirst⟩, hpath⟩ := h
  rw [CallSite.splice, List.append_assoc, List.mem_append, List.mem_append] at htoken
  rcases htoken with hbefore | hinside | hafter
  · obtain ⟨rfl, -, -⟩ := of_firstCall?_eq_some hsite
    exact ⟨first, ⟨token, by simp [hbefore], hfirst⟩, hpath⟩
  · have hrefers : macros.Refers site.name first :=
      ⟨bodies, hbodies, body, hbody, token, hinside, hfirst⟩
    exact ⟨site.name, calls_site hsite, .head hrefers hpath⟩
  · obtain ⟨rfl, -, -⟩ := of_firstCall?_eq_some hsite
    exact ⟨first, ⟨token, by simp [hafter], hfirst⟩, hpath⟩

theorem Macros.Provides.of_splice (h : macros.Provides tokens)
    (hsite : firstCall? tokens = some site) (hbodies : macros.bodies? site.name = some bodies)
    (hbody : body ∈ bodies) : macros.Provides (site.splice body) :=
  fun name hname => h name (hname.of_splice hsite hbodies hbody)

theorem Macros.Provides.exists_bodies (h : macros.Provides tokens)
    (hsite : firstCall? tokens = some site) :
    ∃ body rest, macros.bodies? site.name = some (body :: rest) :=
  h site.name ⟨site.name, calls_site hsite, .refl⟩

/-! ### Replacements -/

namespace Macros.Replaces

theorem zero (macros : Macros) (tokens : List String) : macros.Replaces tokens 0 := by
  induction tokens with
  | nil => exact .nil
  | cons token rest ih => exact .skip ih

theorem callCount_pos (h : macros.Replaces tokens n) (hpos : 0 < n) : 0 < callCount tokens := by
  induction h with
  | nil => omega
  | @skip token rest n hafter ih =>
      have hrest := ih hpos
      simp only [callCount, List.countP_cons] at hrest ⊢
      omega
  | @call token name rest body bodies k n hnamed =>
      simp [callCount, hnamed]

theorem append {i j : Nat} (hfront : macros.Replaces front i) (hback : macros.Replaces back j) :
    macros.Replaces (front ++ back) (i + j) := by
  induction hfront with
  | nil => simpa using hback
  | skip _ ih => exact .skip ih
  | @call token name rest body bodies k n hnamed hknown hchosen hwithin _ _ ih =>
      have hsum : k + n + 1 + j = k + (n + j) + 1 := by omega
      rw [hsum]
      exact .call hnamed hknown hchosen hwithin ih

theorem exists_of_append (h : macros.Replaces (front ++ back) n) :
    ∃ i j, macros.Replaces front i ∧ macros.Replaces back j ∧ n = i + j := by
  induction front generalizing n with
  | nil => exact ⟨0, n, .nil, h, by omega⟩
  | cons token front ih =>
      rw [List.cons_append] at h
      cases h with
      | skip hafter =>
          obtain ⟨i, j, hi, hj, rfl⟩ := ih hafter
          exact ⟨i, j, .skip hi, hj, rfl⟩
      | call hnamed hknown hchosen hwithin hafter =>
          obtain ⟨i, j, hi, hj, rfl⟩ := ih hafter
          exact ⟨_, j, .call hnamed hknown hchosen hwithin hi, hj, by omega⟩

theorem eq_zero (h : macros.Replaces tokens n) (hcall : firstCall? tokens = none) : n = 0 := by
  by_contra hne
  have hpos := h.callCount_pos (by omega)
  obtain ⟨token, htoken, hsome⟩ := List.countP_pos_iff.mp hpos
  rw [firstCall?_eq_none_iff.mp hcall token htoken] at hsome
  cases hsome

theorem of_splice (hsite : firstCall? tokens = some site)
    (hbodies : macros.bodies? site.name = some bodies) (hbody : body ∈ bodies)
    (h : macros.Replaces (site.splice body) n) : macros.Replaces tokens (n + 1) := by
  obtain ⟨htokens, hbefore, hcall⟩ := of_firstCall?_eq_some hsite
  rw [CallSite.splice, List.append_assoc] at h
  obtain ⟨i, _, hi, hrest, rfl⟩ := exists_of_append h
  obtain ⟨j, k, hj, hk, rfl⟩ := exists_of_append hrest
  have hhere : macros.Replaces (site.before ++ site.call :: site.after) (0 + (j + k + 1)) :=
    append (zero macros site.before) (.call hcall hbodies hbody hj hk)
  have hzero := hi.eq_zero hbefore
  rw [← htokens] at hhere
  have hsum : i + (j + k) + 1 = 0 + (j + k + 1) := by omega
  rwa [hsum]

/-- Of the calls that can be replaced at most one is the first, and the others can be when one of its
bodies is there instead. -/
theorem exists_splice (h : macros.Replaces tokens n) (hsite : firstCall? tokens = some site)
    (hbodies : macros.bodies? site.name = some (body :: bodies)) :
    ∃ other ∈ body :: bodies, ∃ k, macros.Replaces (site.splice other) k ∧ n ≤ k + 1 := by
  obtain ⟨htokens, hbefore, hcall⟩ := of_firstCall?_eq_some hsite
  rw [htokens] at h
  obtain ⟨i, j, hi, hj, rfl⟩ := exists_of_append h
  have hzero := hi.eq_zero hbefore
  cases hj with
  | skip hafter =>
      refine ⟨body, by simp, j, ?_, by omega⟩
      have hbody := append (append (zero macros site.before) (zero macros body)) hafter
      simpa [CallSite.splice] using hbody
  | @call _ name _ other others k m hnamed hknown hchosen hwithin hafter =>
      obtain rfl : name = site.name := Option.some.inj (hnamed.symm.trans hcall)
      obtain rfl : others = body :: bodies := Option.some.inj (hknown.symm.trans hbodies)
      refine ⟨other, hchosen, k + m, ?_, by omega⟩
      have hother := append (append (zero macros site.before) hwithin) hafter
      simpa [CallSite.splice] using hother

end Macros.Replaces

/-! ### Levels -/

theorem replaces_of_expand_tooDeep (h : expand macros levels tokens = .error .expansionTooDeep) :
    macros.Replaces tokens levels := by
  induction levels generalizing tokens with
  | zero => exact Replaces.zero macros tokens
  | succ levels ih =>
      cases hsite : firstCall? tokens with
      | none =>
          rw [expand, hsite] at h
          cases h
      | some site =>
          rw [expand_succ_of_call hsite] at h
          cases hbodies : macros.bodies? site.name with
          | none =>
              rw [hbodies] at h
              cases h
          | some bodies =>
              rw [hbodies] at h
              obtain ⟨body, hbody, hdeep⟩ := exists_of_collect_eq_error h
              exact Replaces.of_splice hsite hbodies hbody (ih hdeep)

theorem lt_of_expand_eq_ok (hprovides : macros.Provides tokens)
    (h : expand macros levels tokens = .ok results) (hn : macros.Replaces tokens n) :
    n < levels := by
  induction levels generalizing tokens results n with
  | zero => cases h
  | succ levels ih =>
      cases hsite : firstCall? tokens with
      | none =>
          have hzero := hn.eq_zero hsite
          omega
      | some site =>
          obtain ⟨body, rest, hbodies⟩ := hprovides.exists_bodies hsite
          obtain ⟨other, hother, k, hk, hle⟩ := hn.exists_splice hsite hbodies
          rw [expand_succ_of_call hsite, hbodies] at h
          obtain ⟨part, hpart⟩ := exists_of_collect_eq_ok h hother
          have hlt := ih (hprovides.of_splice hsite hbodies hother) hpart hk
          omega

theorem eq_tooDeep_of_expand {fault : LineFault} (hprovides : macros.Provides tokens)
    (h : expand macros levels tokens = .error fault) : fault = .expansionTooDeep := by
  induction levels generalizing tokens with
  | zero =>
      cases h
      rfl
  | succ levels ih =>
      cases hsite : firstCall? tokens with
      | none =>
          rw [expand, hsite] at h
          cases h
      | some site =>
          obtain ⟨body, rest, hbodies⟩ := hprovides.exists_bodies hsite
          rw [expand_succ_of_call hsite, hbodies] at h
          obtain ⟨other, hother, hfault⟩ := exists_of_collect_eq_error h
          exact ih (hprovides.of_splice hsite hbodies hother) hfault

/-! ### Nesting -/

namespace Macros

theorem Reaches.cons {token name : String} (h : macros.Reaches tokens name) :
    macros.Reaches (token :: tokens) name := by
  obtain ⟨first, hfirst, hpath⟩ := h
  exact ⟨first, hfirst.cons, hpath⟩

theorem Nests.cons {token : String} {names : List String} (h : macros.Nests tokens names) :
    macros.Nests (token :: tokens) names :=
  ⟨h.chain, fun name hname => (h.first name hname).cons⟩

section within

variable {name : String} (hcalls : Calls tokens name) (hbodies : macros.bodies? name = some bodies)
  (hbody : body ∈ bodies)

include hcalls hbodies hbody

theorem Nests.within {names : List String} (h : macros.Nests body names) :
    macros.Nests tokens (name :: names) := by
  constructor
  · rw [List.isChain_cons]
    exact ⟨fun inner hinner => ⟨bodies, hbodies, body, hbody, h.first inner hinner⟩, h.chain⟩
  · intro first hfirst
    obtain rfl : name = first := Option.some.inj hfirst
    exact hcalls

theorem ComesUp.within {list : List String} (h : macros.ComesUp body list) :
    macros.ComesUp tokens list := by
  rcases h with rfl | ⟨inner, others, ⟨first, hfirst, hpath⟩, hothers, hlist⟩
  · exact .inr ⟨name, bodies, ⟨name, hcalls, .refl⟩, hbodies, hbody⟩
  · have hrefers : macros.Refers name first := ⟨bodies, hbodies, body, hbody, hfirst⟩
    exact .inr ⟨inner, others, ⟨name, hcalls, .head hrefers hpath⟩, hothers, hlist⟩

end within

/-- Replaced calls are nested in one another, unless two calls stand side by side somewhere. -/
theorem Replaces.nests_or_beside (h : macros.Replaces tokens n) :
    (∃ names, macros.Nests tokens names ∧ names.length = n) ∨
      ∃ list, macros.ComesUp tokens list ∧ 1 < callCount list := by
  induction h with
  | nil => exact .inl ⟨[], ⟨.nil, by simp⟩, rfl⟩
  | @skip token rest n hafter ih =>
      rcases ih with ⟨names, hnests, hlength⟩ | ⟨list, hlist, hmany⟩
      · exact .inl ⟨names, hnests.cons, hlength⟩
      · right
        rcases hlist with rfl | ⟨name, bodies, hreaches, hbodies, hbody⟩
        · refine ⟨token :: list, .inl rfl, ?_⟩
          simp only [callCount, List.countP_cons] at hmany ⊢
          omega
        · exact ⟨list, .inr ⟨name, bodies, hreaches.cons, hbodies, hbody⟩, hmany⟩
  | @call token name rest body bodies k n hnamed hknown hchosen hwithin hafter ih _ =>
      have hcalls : Calls (token :: rest) name := ⟨token, by simp, hnamed⟩
      by_cases hpos : 0 < n
      · -- what is replaced after the call stands beside it
        refine .inr ⟨token :: rest, .inl rfl, ?_⟩
        have hcount := hafter.callCount_pos hpos
        simp only [callCount, List.countP_cons, hnamed] at hcount ⊢
        simp only [Option.isSome_some, if_true]
        omega
      · rcases ih with ⟨names, hnests, hlength⟩ | ⟨list, hlist, hmany⟩
        · exact .inl ⟨name :: names, hnests.within hcalls hknown hchosen, by simp; omega⟩
        · exact .inr ⟨list, hlist.within hcalls hknown hchosen, hmany⟩

theorem Nests.nodup_or_recursive {names : List String} (h : macros.Nests tokens names) :
    names.Nodup ∨ ∃ name, macros.Reaches tokens name ∧ macros.Recursive name := by
  by_cases hnodup : names.Nodup
  · exact .inl hnodup
  · right
    have htrans : names.IsChain (Relation.TransGen macros.Refers) :=
      h.chain.imp fun _ _ => Relation.TransGen.single
    rw [List.nodup_iff_sublist, not_forall_not] at hnodup
    obtain ⟨name, htwice⟩ := hnodup
    have hrecursive : macros.Recursive name :=
      (List.isChain_cons_cons.mp (htrans.sublist htwice)).1
    refine ⟨name, ?_, hrecursive⟩
    cases names with
    | nil => simp at htwice
    | cons first rest =>
        have hfirst := h.first first rfl
        rcases List.mem_cons.mp (htwice.subset (by simp : name ∈ [name, name])) with rfl | hname
        · exact ⟨name, hfirst, .refl⟩
        · exact ⟨first, hfirst, (htrans.rel_cons hname).to_reflTransGen⟩

end Macros

theorem LineFault.eq_tooDeep_of_message {fault : LineFault}
    (h : fault.message = "macro expansion too deep; recursive macro?") :
    fault = .expansionTooDeep := by
  cases fault with
  | expansionTooDeep => rfl
  | unknownMacro call =>
      have hchars := congrArg String.toList h
      simp [message, toString, String.toList_append] at hchars
  | _ => exact absurd h (by decide)

/-- A token list is refused as too deep only if more calls can be replaced in it than the depth
allows, and then if each macro that it calls is known and has a body.  The calls are nested in one
another: a macro is recursive, or more macros than the depth allows call one another in turn.  Or
else some token list that comes up has calls side by side, which count alike. -/
theorem expandAt_tooDeep (macros : Macros) (tokens : List String) :
    (∀ fault, expandAt macros 0 tokens = .error fault →
      fault.message = "macro expansion too deep; recursive macro?" →
      macros.Replaces tokens (maxExpansionDepth + 1) ∧
        ((∃ name, macros.Reaches tokens name ∧ macros.Recursive name) ∨
          (∃ names, macros.Nests tokens names ∧ names.Nodup ∧ maxExpansionDepth < names.length) ∨
          ∃ list, macros.ComesUp tokens list ∧ 1 < callCount list)) ∧
    (macros.Provides tokens → macros.Replaces tokens (maxExpansionDepth + 1) →
      expandAt macros 0 tokens = .error .expansionTooDeep) := by
  constructor
  · intro fault h hmessage
    obtain rfl := LineFault.eq_tooDeep_of_message hmessage
    have hreplaces : macros.Replaces tokens (maxExpansionDepth + 1) :=
      replaces_of_expand_tooDeep h
    refine ⟨hreplaces, ?_⟩
    rcases hreplaces.nests_or_beside with ⟨names, hnests, hlength⟩ | hbeside
    · rcases hnests.nodup_or_recursive with hnodup | hrecursive
      · exact .inr (.inl ⟨names, hnests, hnodup, by omega⟩)
      · exact .inl hrecursive
    · exact .inr (.inr hbeside)
  · intro hprovides hreplaces
    cases hresult : expandAt macros 0 tokens with
    | ok results =>
        have hlt := lt_of_expand_eq_ok hprovides hresult hreplaces
        omega
    | error fault => rw [eq_tooDeep_of_expand hprovides hresult]

theorem expandAt_tooDeep_of_recursive :
    let macros : Macros :=
      { short := .ofList [("a", ["b()"])], long := .ofList [("b", [["x"], ["--loop", "a()"]])] }
    let tokens := ["smoke", "a()"]
    expandAt macros 0 tokens = .error .expansionTooDeep ∧
      LineFault.expansionTooDeep.message = "macro expansion too deep; recursive macro?" ∧
      macros.Provides tokens ∧ macros.Replaces tokens (maxExpansionDepth + 1) ∧
      ((∃ name, macros.Reaches tokens name ∧ macros.Recursive name) ∨
        (∃ names, macros.Nests tokens names ∧ names.Nodup ∧ maxExpansionDepth < names.length) ∨
        ∃ list, macros.ComesUp tokens list ∧ 1 < callCount list) := by
  intro macros tokens
  have hshort : macros.bodies? "a" = some [["b()"]] := by decide
  have hlong : macros.bodies? "b" = some [["x"], ["--loop", "a()"]] := by decide
  have hcalls : ∀ list ∈ [tokens, ["b()"], ["x"], ["--loop", "a()"]], ∀ token ∈ list,
      calledName? token = none ∨ calledName? token = some "a" ∨ calledName? token = some "b" := by
    decide
  have hnames : ∀ list ∈ [tokens, ["b()"], ["x"], ["--loop", "a()"]], ∀ name, Calls list name →
      name = "a" ∨ name = "b" := by
    rintro list hlist name ⟨token, htoken, hnamed⟩
    have hcall := hcalls list hlist token htoken
    rw [hnamed] at hcall
    simpa using hcall
  have hreaches : ∀ name, macros.Reaches tokens name → name = "a" ∨ name = "b" := by
    rintro name ⟨first, hfirst, hpath⟩
    induction hpath with
    | refl => exact hnames tokens (by simp) first hfirst
    | tail _ hrefers ih =>
        obtain ⟨bodies, hbodies, body, hbody, hcall⟩ := hrefers
        rcases ih with rfl | rfl
        · obtain rfl := Option.some.inj (hbodies.symm.trans hshort)
          exact hnames body (by simp_all) _ hcall
        · obtain rfl := Option.some.inj (hbodies.symm.trans hlong)
          refine hnames body ?_ _ hcall
          rcases List.mem_pair.mp hbody with rfl | rfl <;> simp
  have hprovides : macros.Provides tokens := by
    intro name hname
    rcases hreaches name hname with rfl | rfl
    · exact ⟨_, _, hshort⟩
    · exact ⟨_, _, hlong⟩
  have hdeep : expandAt macros 0 tokens = .error .expansionTooDeep := by decide +kernel
  obtain ⟨honly, hif⟩ := expandAt_tooDeep macros tokens
  obtain ⟨hreplaces, hcause⟩ := honly _ hdeep rfl
  exact ⟨hif hprovides hreplaces, rfl, hprovides, hreplaces, hcause⟩

/-- One call more side by side than the depth allows, of a macro that calls no other. -/
theorem exists_shallow_calls_refused :
    let macros : Macros := { short := .ofList [("a", ["x"])] }
    let tokens := "smoke" :: List.replicate 11 "a()"
    expandAt macros 0 tokens = .error .expansionTooDeep ∧
      (¬∃ name, macros.Reaches tokens name ∧ macros.Recursive name) ∧
      ∀ names, macros.Nests tokens names → names.length ≤ 1 := by
  intro macros tokens
  have hbodies : ∀ name bodies, macros.bodies? name = some bodies → bodies = [["x"]] := by
    intro name bodies h
    by_cases hname : name = "a"
    · subst hname
      exact (Option.some.inj h).symm
    · have hentries : macros.short.entries = [("a", ["x"])] := rfl
      have hnone : macros.bodies? name = none := by
        simp only [bodies?, Dictionary.get?, hentries, List.lookup_cons, beq_false_of_ne hname]
        rfl
      rw [hnone] at h
      cases h
  have hrefers : ∀ name inner, ¬macros.Refers name inner := by
    rintro name inner ⟨bodies, hknown, body, hbody, token, htoken, hnamed⟩
    obtain rfl := hbodies name bodies hknown
    obtain rfl := List.mem_singleton.mp hbody
    obtain rfl := List.mem_singleton.mp htoken
    exact absurd hnamed (by simp [show calledName? "x" = none by decide])
  refine ⟨by decide +kernel, ?_, ?_⟩
  · rintro ⟨name, -, hrecursive⟩
    cases hrecursive with
    | single hstep => exact hrefers _ _ hstep
    | tail _ hstep => exact hrefers _ _ hstep
  · rintro names ⟨hchain, -⟩
    rcases names with _ | ⟨first, _ | ⟨second, rest⟩⟩
    · simp
    · simp
    · exact absurd (List.isChain_cons_cons.mp hchain).1 (hrefers first second)

end DeviceLab.CommandFile
