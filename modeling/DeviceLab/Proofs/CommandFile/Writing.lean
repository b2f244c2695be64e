import DeviceLab.CommandFile.Document
import DeviceLab.Proofs.Text.Roundtrip
import Mathlib.Data.List.Basic

namespace DeviceLab.CommandFile

open Text

def written (argss : List (List String)) : List Char :=
  ['\n'].intercalate (argss.map quoteAll)

/-- Whether a token list begins with the words of a directive. -/
def BeginsDirective (args : List String) : Prop :=
  ["MACRO"] <+: args ∨ ["INCLUDE"] <+: args ∨ ["LONG", "MACRO"] <+: args

instance : DecidablePred BeginsDirective := fun args =>
  inferInstanceAs
    (Decidable (["MACRO"] <+: args ∨ ["INCLUDE"] <+: args ∨ ["LONG", "MACRO"] <+: args))

/-- Whether a token list can stand on a line of a command file and mean itself. -/
structure Writable (args : List String) : Prop where
  nonempty : args ≠ []
  unbroken : ∀ token ∈ args, '\n' ∉ token.toList
  command : ¬BeginsDirective args
  uncalled : ∀ token ∈ args, 2 < token.length → ¬['(', ')'] <:+ token.toList

theorem tokensFrom_quoted_cons (mark c : Char) (current cs : List Char) :
    tokensFrom (.quoted mark) current (c :: cs) =
      if c = mark then tokensFrom .word current cs
      else if c = '\\' ∧ mark = '"' then
        match cs with
        | [] => .error .unterminatedQuote
        | escaped :: cs => tokensFrom (.quoted mark) (escaped :: current) cs
      else tokensFrom (.quoted mark) (c :: current) cs := by
  cases cs <;> rfl

theorem tokensFrom_between_quote (current cs : List Char) :
    tokensFrom .between current ('"' :: cs) = tokensFrom (.quoted '"') current cs := by
  cases cs <;> rfl

theorem tokensFrom_word_space (current cs : List Char) :
    tokensFrom .word current (' ' :: cs) =
      (tokensFrom .between [] cs).map (String.ofList current.reverse :: ·) := by
  cases cs <;> rfl

theorem tokensFrom_escape (cs current rest : List Char) :
    tokensFrom (.quoted '"') current (escape cs ++ '"' :: rest) =
      tokensFrom .word (cs.reverse ++ current) rest := by
  induction cs generalizing current with
  | nil =>
      rw [escape, List.nil_append, tokensFrom_quoted_cons, if_pos rfl]
      rfl
  | cons c cs ih =>
      have hnext : tokensFrom (.quoted '"') (c :: current) (escape cs ++ '"' :: rest) =
          tokensFrom .word ((c :: cs).reverse ++ current) rest := by
        rw [ih, List.reverse_cons, List.append_assoc, List.singleton_append]
      rw [escape, ← hnext]
      by_cases hc : c = '"' ∨ c = '\\'
      · rw [if_pos hc, List.cons_append, tokensFrom_quoted_cons, if_neg (by decide),
          if_pos (by decide)]
        rfl
      · obtain ⟨hquote, hbackslash⟩ := not_or.mp hc
        rw [if_neg hc, List.cons_append, tokensFrom_quoted_cons, if_neg hquote,
          if_neg fun h => hbackslash h.1]

theorem tokensFrom_quote (token : String) (rest : List Char) :
    tokensFrom .between [] (quote token ++ rest) = tokensFrom .word token.toList.reverse rest := by
  rw [quote, List.cons_append, List.cons_append, tokensFrom_between_quote, List.append_assoc,
    List.singleton_append, tokensFrom_escape, List.append_nil]

theorem tokens_quoteAll (args : List String) : tokens (quoteAll args) = .ok args := by
  induction args using quoteAll.induct with
  | case1 => rfl
  | case2 token =>
      have hread := tokensFrom_quote token []
      rw [List.append_nil] at hread
      change tokensFrom .between [] (quote token) = .ok [token]
      rw [hread]
      change Except.ok [String.ofList token.toList.reverse.reverse] = _
      rw [List.reverse_reverse, String.ofList_toList]
  | case3 token rest hrest ih =>
      rw [quoteAll.eq_3 _ _ hrest, tokens, tokensFrom_quote, tokensFrom_word_space, ← tokens, ih,
        List.reverse_reverse, String.ofList_toList]
      rfl

theorem quoteAll_eq_concat {args : List String} (h : args ≠ []) :
    ∃ front, quoteAll args = front ++ ['"'] := by
  induction args using quoteAll.induct with
  | case1 => exact absurd rfl h
  | case2 token => exact ⟨'"' :: escape token.toList, rfl⟩
  | case3 token rest hrest ih =>
      obtain ⟨front, hfront⟩ := ih fun hnil => hrest hnil
      refine ⟨quote token ++ ' ' :: front, ?_⟩
      rw [quoteAll.eq_3 _ _ hrest, hfront, List.append_assoc, List.cons_append]

theorem newline_not_mem_escape {cs : List Char} (h : '\n' ∉ cs) : '\n' ∉ escape cs := by
  induction cs with
  | nil => exact h
  | cons c cs ih =>
      obtain ⟨hc, hcs⟩ := not_or.mp (mt List.mem_cons.mpr h)
      rw [escape]
      split <;> simp [hc, ih hcs]

theorem newline_not_mem_quote {token : String} (h : '\n' ∉ token.toList) : '\n' ∉ quote token := by
  simp [quote, newline_not_mem_escape h]

theorem newline_not_mem_quoteAll {args : List String} (h : ∀ token ∈ args, '\n' ∉ token.toList) :
    '\n' ∉ quoteAll args := by
  induction args using quoteAll.induct with
  | case1 => exact List.not_mem_nil
  | case2 token => exact newline_not_mem_quote (h token List.mem_cons_self)
  | case3 token rest hrest ih =>
      have hfirst := newline_not_mem_quote (h token List.mem_cons_self)
      have hothers := ih fun other hother => h other (List.mem_cons_of_mem token hother)
      simp [quoteAll.eq_3 _ _ hrest, hfirst, hothers]

theorem trimEnd_concat (front : List Char) {c : Char} (hc : isBlank c = false) :
    trimEnd (front ++ [c]) = front ++ [c] := by
  induction front with
  | nil => simp [trimEnd, hc]
  | cons first front ih =>
      rw [List.cons_append, trimEnd, ih]
      cases front <;> rfl

theorem joinFrom_of_quotes {all : List (List Char)}
    (hall : ∀ line ∈ all, ∃ front, line = front ++ ['"']) (start index : Nat) :
    joinFrom start [] index all = (all.zipIdx index).map Prod.swap := by
  induction all generalizing start index with
  | nil => rfl
  | cons line rest ih =>
      obtain ⟨front, hline⟩ := hall line List.mem_cons_self
      have htrim : trimEnd line = line := by
        rw [hline]
        exact trimEnd_concat front (by decide)
      have hwhole : beforeContinuation? line = none := by
        rw [hline, beforeContinuation?, List.getLast?_concat]
        rfl
      have hrest := ih (fun other hother => hall other (List.mem_cons_of_mem line hother))
        index (index + 1)
      rw [joinFrom, htrim, hwhole, List.zipIdx_cons, List.map_cons, ← hrest]
      rfl

theorem tokenizeAll_quoteAll {argss : List (List String)} (hargss : ∀ args ∈ argss, args ≠ [])
    (index : Nat) :
    tokenizeAll (((argss.map quoteAll).zipIdx index).map Prod.swap) =
      .ok ((argss.zipIdx index).map fun (args, number) => ⟨number, args⟩) := by
  induction argss generalizing index with
  | nil => rfl
  | cons args rest ih =>
      have hargs : args.isEmpty = false :=
        List.isEmpty_eq_false_iff.mpr (hargss args List.mem_cons_self)
      have hrest :=
        ih (fun other hother => hargss other (List.mem_cons_of_mem args hother)) (index + 1)
      rw [List.map_cons, List.zipIdx_cons, List.map_cons, Prod.swap_prod_mk, tokenizeAll]
      dsimp only
      rw [tokens_quoteAll]
      dsimp only
      rw [hrest]
      simp [hargs, Bind.bind, Except.bind, Pure.pure, Except.pure]

theorem logicalLines_written {argss : List (List String)} (hargss : ∀ args ∈ argss, Writable args)
    {final : List Char} (hfinal : final = [] ∨ final = ['\n']) :
    logicalLines (written argss ++ final) =
      .ok ((argss.zipIdx 1).map fun (args, number) => ⟨number, args⟩) := by
  have hends : ∀ line ∈ argss.map quoteAll, ∃ front, line = front ++ ['"'] := by
    rintro line hline
    obtain ⟨args, hargs, rfl⟩ := List.mem_map.mp hline
    exact quoteAll_eq_concat (hargss args hargs).nonempty
  have hlines : argss ≠ [] → lines (written argss ++ final) = argss.map quoteAll := by
    intro hne
    refine lines_intercalate (by simpa using hne) ?_ ?_ ?_ hfinal
    · intro line hline
      obtain ⟨args, hargs, rfl⟩ := List.mem_map.mp hline
      exact newline_not_mem_quoteAll (hargss args hargs).unbroken
    · intro line hline
      obtain ⟨front, rfl⟩ := hends line hline
      simp
    · intro line hline
      obtain ⟨front, rfl⟩ := hends line hline
      simp
  by_cases hne : argss = []
  · subst hne
    rcases hfinal with rfl | rfl <;> rfl
  · rw [logicalLines, joined, hlines hne, joinFrom_of_quotes hends,
      tokenizeAll_quoteAll fun args hargs => (hargss args hargs).nonempty]

theorem ofTokens_of_not_beginsDirective {args : List String} (h : ¬BeginsDirective args) :
    Statement.ofTokens args = .command args := by
  unfold Statement.ofTokens
  split
  · exact absurd (.inl ⟨_, rfl⟩) h
  · exact absurd (.inl ⟨_, rfl⟩) h
  · exact absurd (.inr (.inr ⟨_, rfl⟩)) h
  · exact absurd (.inr (.inr ⟨_, rfl⟩)) h
  · exact absurd (.inr (.inl ⟨_, rfl⟩)) h
  · exact absurd (.inr (.inl ⟨_, rfl⟩)) h
  · rfl

theorem calledName?_eq_none {token : String}
    (h : 2 < token.length → ¬['(', ')'] <:+ token.toList) : calledName? token = none := by
  unfold calledName?
  dsimp only
  split
  · rfl
  · rename_i hname
    have hlong : 2 < token.toList.length := by
      by_contra hshort
      refine hname ?_
      rw [Nat.sub_eq_zero_of_le (Nat.le_of_not_lt hshort)]
      rfl
    have hlength : (token.toList.take (token.toList.length - 2)).length =
        token.toList.length - 2 := by
      rw [List.length_take]
      omega
    have hsuffix := h (by rwa [← String.length_toList])
    rw [List.suffix_iff_eq_drop] at hsuffix
    rw [hlength, if_neg fun hcall => hsuffix hcall.symm]

theorem firstCall?_eq_none {args : List String} (h : ∀ token ∈ args, calledName? token = none) :
    firstCall? args = none := by
  induction args with
  | nil => rfl
  | cons token rest ih =>
      rw [firstCall?, h token List.mem_cons_self]
      dsimp only
      rw [ih fun other hother => h other (List.mem_cons_of_mem token hother)]
      rfl

theorem Writable.expandAt_eq {args : List String} (h : Writable args) (macros : Macros) :
    expandAt macros 0 args = .ok [args] := by
  have hcall := firstCall?_eq_none fun token htoken => calledName?_eq_none (h.uncalled token htoken)
  change expand macros (maxExpansionDepth + 1) args = .ok [args]
  rw [expand, hcall]

theorem Draft.readLines_of_commands {follow : Path → Draft → Except Failure Draft} {path : Path}
    {read : List LogicalLine}
    (h : ∀ line ∈ read, Statement.ofTokens line.tokens = .command line.tokens) (draft : Draft) :
    draft.readLines follow path none read =
      .ok { draft with
        entries := draft.entries ++ read.map fun line => ⟨line.tokens, path, line.number⟩ } := by
  induction read generalizing draft with
  | nil => simp [readLines]
  | cons line rest ih =>
      rw [readLines, h line List.mem_cons_self]
      dsimp only
      rw [ih fun other hother => h other (List.mem_cons_of_mem line hother)]
      simp

theorem collect_of_singletons {α ε : Type} {f : α → Except ε (List α)} {items : List α}
    (h : ∀ a ∈ items, f a = .ok [a]) : collect f items = .ok items := by
  induction items with
  | nil => rfl
  | cons a rest ih =>
      rw [collect, h a List.mem_cons_self, ih fun b hb => h b (List.mem_cons_of_mem a hb)]
      rfl

theorem readText_of_read {tree : FileTree} {path : Path} {text : String}
    (h : tree.read path = .ok (encode text)) : tree.readText path = .ok text := by
  refine bind_eq_ok_iff.mpr ⟨encode text, h, ?_⟩
  rw [decode?_encode]

namespace Document

/-- A file that holds written token lists says exactly these, each on the line that it was written
on; a line feed at the end of the file makes no difference. -/
theorem ofFile_written {tree : FileTree} {path : Path} {argss : List (List String)}
    {final : List Char} (hargss : ∀ args ∈ argss, Writable args)
    (hfinal : final = [] ∨ final = ['\n'])
    (hread : tree.read path = .ok (encode (String.ofList (written argss ++ final)))) :
    ofFile tree path = .ok {
      entries := (argss.zipIdx 1).map fun (args, number) => ⟨args, path, number⟩
      included := [] } := by
  let read : List LogicalLine := (argss.zipIdx 1).map fun (args, number) => ⟨number, args⟩
  let entries : List Entry := read.map fun line => ⟨line.tokens, path, line.number⟩
  have hwritable : ∀ line ∈ read, Writable line.tokens := by
    intro line hline
    obtain ⟨⟨args, number⟩, hpair, rfl⟩ := List.mem_map.mp hline
    exact hargss args (List.fst_mem_of_mem_zipIdx hpair)
  have hlines : logicalLines (String.ofList (written argss ++ final)).toList = .ok read := by
    rw [String.toList_ofList]
    exact logicalLines_written hargss hfinal
  have hdraft : Draft.readFile tree maxIncludeDepth [] path {} = .ok { entries } := by
    change Draft.readFile tree (9 + 1) [] path {} = .ok { entries }
    rw [Draft.readFile, if_neg (by simp), readText_of_read hread]
    dsimp only
    rw [hlines]
    exact Draft.readLines_of_commands
      (fun line hline => ofTokens_of_not_beginsDirective (hwritable line hline).command) {}
  have hexpand : ∀ e ∈ entries, e.expand {} = .ok [e] := by
    intro e he
    obtain ⟨line, hline, rfl⟩ := List.mem_map.mp he
    rw [Entry.expand, (hwritable line hline).expandAt_eq]
    rfl
  have hentries : entries = (argss.zipIdx 1).map fun (args, number) => ⟨args, path, number⟩ :=
    List.map_map
  rw [ofFile, hdraft, ← hentries]
  change Draft.finish { entries } = .ok { entries, included := [] }
  rw [Draft.finish, collect_of_singletons hexpand]
  rfl

theorem ofFile_written_of_awkward_tokens :
    let awkward := ["smoke", "", " ", "#1", "\"", "\\", "a\\\"'b\\", "\t\r", "()"]
    let lone := ["LONG"]
    let last := ["END", "MACRO", "f()g"]
    let path : Path := ⟨"cmds.txt"⟩
    let tree := FileTree.write {} path (encode (String.ofList (written [awkward, lone, last])))
    ofFile tree path = .ok {
      entries := [⟨awkward, path, 1⟩, ⟨lone, path, 2⟩, ⟨last, path, 3⟩]
      included := [] } := by
  intro awkward lone last path tree
  let argss := [awkward, lone, last]
  have hnonempty : ∀ args ∈ argss, args ≠ [] := by decide +kernel
  have hunbroken : ∀ args ∈ argss, ∀ token ∈ args, '\n' ∉ token.toList := by decide +kernel
  have hcommand : ∀ args ∈ argss, ¬BeginsDirective args := by decide +kernel
  have huncalled : ∀ args ∈ argss, ∀ token ∈ args, 2 < token.length →
      ¬['(', ')'] <:+ token.toList := by decide +kernel
  have hwritable : ∀ args ∈ argss, Writable args := fun args hargs =>
    ⟨hnonempty args hargs, hunbroken args hargs, hcommand args hargs, huncalled args hargs⟩
  have hread : tree.read path = .ok (encode (String.ofList (written argss ++ []))) := by
    decide +kernel
  exact ofFile_written hwritable (.inl rfl) hread

end Document

end DeviceLab.CommandFile
