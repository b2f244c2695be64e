import DeviceLab.CommandFile.LogicalLine
import DeviceLab.Error
import DeviceLab.Proofs.Text.Roundtrip
import Mathlib.Data.List.Basic

namespace DeviceLab

namespace Text

theorem linesFrom_feed (current rest : List Char) :
    linesFrom current ('\n' :: rest) = linesFrom current ['\n'] ++ lines rest := rfl

theorem linesFrom_eq_nil_iff {current text : List Char} :
    linesFrom current text = [] ↔ current = [] ∧ text = [] := by
  induction text generalizing current with
  | nil => simp [linesFrom]
  | cons c rest ih =>
      by_cases hc : c = '\n'
      · subst hc
        have hsome : linesFrom current ('\n' :: rest) ≠ [] := List.cons_ne_nil _ _
        simp [hsome]
      · rw [linesFrom.eq_4 _ _ _ hc, ih]
        simp

theorem linesFrom_append_of_ended {front : List Char} (hended : front.getLast? = some '\n')
    (current back : List Char) :
    linesFrom current (front ++ back) = linesFrom current front ++ lines back := by
  induction front generalizing current with
  | nil => cases hended
  | cons c rest ih =>
      by_cases hc : c = '\n'
      · subst hc
        cases rest with
        | nil => exact linesFrom_feed current back
        | cons d rest =>
            rw [List.getLast?_cons_cons] at hended
            rw [List.cons_append, linesFrom_feed, linesFrom_feed current (d :: rest),
              List.append_assoc]
            exact congrArg _ (ih hended [])
      · cases rest with
        | nil => exact absurd (Option.some.inj hended) hc
        | cons d rest =>
            rw [List.getLast?_cons_cons] at hended
            rw [List.cons_append, linesFrom.eq_4 _ _ _ hc, linesFrom.eq_4 _ _ _ hc, ih hended]

end Text

namespace CommandFile

open Text

/-- Whether the last physical line of a text goes on in what follows. -/
def continues (text : List Char) : Bool :=
  (lines text).getLast?.any fun line => (beforeContinuation? (trimEnd line)).isSome

/-- Whether a text ends where a logical line does. -/
structure Complete (text : List Char) : Prop where
  ended : text = [] ∨ text.getLast? = some '\n'
  whole : continues text = false

theorem Complete.lines_append {front : List Char} (h : Complete front) (back : List Char) :
    lines (front ++ back) = lines front ++ lines back := by
  rcases h.ended with rfl | hended
  · rfl
  · exact linesFrom_append_of_ended hended [] back

theorem Complete.after {front back : List Char} (h : Complete back) (hback : back ≠ [])
    (hended : front.getLast? = some '\n') : Complete (front ++ back) where
  ended := by
    refine .inr ?_
    rw [List.getLast?_append, h.ended.resolve_left hback]
    rfl
  whole := by
    have hlines : lines back ≠ [] := fun hnil => hback (linesFrom_eq_nil_iff.mp hnil).2
    obtain ⟨last, hlast⟩ := Option.ne_none_iff_exists'.mp (mt List.getLast?_eq_none_iff.mp hlines)
    have hwhole := h.whole
    rw [continues, hlast] at hwhole
    rw [continues, lines, linesFrom_append_of_ended hended, List.getLast?_append, hlast]
    exact hwhole

theorem Complete.append {front back : List Char} (hfront : Complete front) (hback : Complete back) :
    Complete (front ++ back) := by
  by_cases hnil : back = []
  · rwa [hnil, List.append_nil]
  · rcases hfront.ended with rfl | hended
    · exact hback
    · exact hback.after hnil hended

/-! ### Joined lines -/

theorem joinFrom_start (start other index : Nat) (physical : List (List Char)) :
    joinFrom start [] index physical = joinFrom other [] index physical := by
  cases physical <;> rfl

theorem joinFrom_add (start : Nat) (pending : List Char) (index k : Nat)
    (physical : List (List Char)) :
    joinFrom (start + k) pending (index + k) physical =
      (joinFrom start pending index physical).map fun line => (line.1 + k, line.2) := by
  induction physical generalizing start pending index with
  | nil =>
      rw [joinFrom, joinFrom]
      split <;> rfl
  | cons line rest ih =>
      have hstart : (if pending.isEmpty then index + k else start + k) =
          (if pending.isEmpty then index else start) + k := by
        split <;> rfl
      rw [joinFrom, joinFrom, hstart, Nat.add_right_comm index k 1]
      cases beforeContinuation? (trimEnd line) with
      | some head => exact ih _ _ _
      | none =>
          dsimp only
          rw [ih, List.map_cons]

theorem joinFrom_append {front back : List (List Char)} {pending : List Char}
    (hlast : ∀ line, front.getLast? = some line → beforeContinuation? (trimEnd line) = none)
    (hnil : front = [] → pending = []) (start index : Nat) :
    joinFrom start pending index (front ++ back) =
      joinFrom start pending index front ++ joinFrom 0 [] (index + front.length) back := by
  induction front generalizing start pending index with
  | nil =>
      rw [hnil rfl]
      exact joinFrom_start start 0 index back
  | cons line rest ih =>
      have hlength : index + (line :: rest).length = index + 1 + rest.length := by
        rw [List.length_cons]
        omega
      have hrest : ∀ other, rest.getLast? = some other →
          beforeContinuation? (trimEnd other) = none := by
        intro other hother
        refine hlast other ?_
        rw [List.getLast?_cons, hother]
        rfl
      rw [List.cons_append, joinFrom, joinFrom, hlength]
      cases hgoes : beforeContinuation? (trimEnd line) with
      | some head =>
          refine ih hrest ?_ _ _
          rintro rfl
          rw [hlast line rfl] at hgoes
          cases hgoes
      | none =>
          dsimp only
          rw [ih hrest (fun _ => rfl), List.cons_append]

theorem Complete.joined_append {front : List Char} (h : Complete front) (back : List Char) :
    joined (front ++ back) = joined front ++
      (joined back).map fun line => (line.1 + (lines front).length, line.2) := by
  have hlast : ∀ line, (lines front).getLast? = some line →
      beforeContinuation? (trimEnd line) = none := by
    intro line hline
    have hwhole := h.whole
    rw [continues, hline] at hwhole
    exact Option.isSome_eq_false_iff.mp hwhole |> Option.isNone_iff_eq_none.mp
  rw [joined, h.lines_append, joinFrom_append hlast (fun _ => rfl), joined, joined, ← joinFrom_add]
  exact congrArg _ (joinFrom_start _ _ _ _)

/-! ### Tokens -/

/-- The same line further down. -/
def LogicalLine.later (k : Nat) (line : LogicalLine) : LogicalLine :=
  { line with number := line.number + k }

theorem tokenizeAll_cons_eq_ok_iff {number : Nat} {line : List Char}
    {rest : List (Nat × List Char)} {read : List LogicalLine} :
    tokenizeAll ((number, line) :: rest) = .ok read ↔
      ∃ found after, tokens line = .ok found ∧ tokenizeAll rest = .ok after ∧
        read = if found.isEmpty then after else ⟨number, found⟩ :: after := by
  rw [tokenizeAll]
  cases tokens line with
  | error fault => simp
  | ok found =>
      dsimp only
      rw [bind_eq_ok_iff]
      constructor
      · rintro ⟨after, hafter, h⟩
        exact ⟨found, after, rfl, hafter, (Except.ok.inj h).symm⟩
      · rintro ⟨_, after, hfound, hafter, rfl⟩
        cases hfound
        exact ⟨after, hafter, rfl⟩

theorem tokenizeAll_append_eq_ok_iff {front back : List (Nat × List Char)}
    {read : List LogicalLine} :
    tokenizeAll (front ++ back) = .ok read ↔
      ∃ before after, tokenizeAll front = .ok before ∧ tokenizeAll back = .ok after ∧
        read = before ++ after := by
  induction front generalizing read with
  | nil => simp [tokenizeAll]
  | cons line rest ih =>
      obtain ⟨number, text⟩ := line
      simp only [List.cons_append, tokenizeAll_cons_eq_ok_iff, ih]
      constructor
      · rintro ⟨found, _, hfound, ⟨before, after, hbefore, hafter, rfl⟩, rfl⟩
        refine ⟨_, after, ⟨found, before, hfound, hbefore, rfl⟩, hafter, ?_⟩
        split <;> rfl
      · rintro ⟨_, after, ⟨found, before, hfound, hbefore, rfl⟩, hafter, rfl⟩
        refine ⟨found, _, hfound, ⟨before, after, hbefore, hafter, rfl⟩, ?_⟩
        split <;> rfl

theorem tokenizeAll_later_eq_ok_iff {k : Nat} {all : List (Nat × List Char)}
    {read : List LogicalLine} :
    tokenizeAll (all.map fun line => (line.1 + k, line.2)) = .ok read ↔
      ∃ early, tokenizeAll all = .ok early ∧ read = early.map (LogicalLine.later k) := by
  induction all generalizing read with
  | nil => simp [tokenizeAll, eq_comm]
  | cons line rest ih =>
      obtain ⟨number, text⟩ := line
      simp only [List.map_cons, tokenizeAll_cons_eq_ok_iff, ih]
      constructor
      · rintro ⟨found, _, hfound, ⟨early, hearly, rfl⟩, rfl⟩
        refine ⟨_, ⟨found, early, hfound, hearly, rfl⟩, ?_⟩
        split <;> rfl
      · rintro ⟨_, ⟨found, early, hfound, hearly, rfl⟩, rfl⟩
        refine ⟨found, _, hfound, ⟨early, hearly, rfl⟩, ?_⟩
        split <;> rfl

/-- A text after a complete one is read as by itself, further down. -/
theorem Complete.logicalLines_append_eq_ok_iff {front back : List Char} (h : Complete front)
    {read : List LogicalLine} :
    logicalLines (front ++ back) = .ok read ↔
      ∃ before after, logicalLines front = .ok before ∧ logicalLines back = .ok after ∧
        read = before ++ after.map (LogicalLine.later (lines front).length) := by
  rw [logicalLines, h.joined_append, tokenizeAll_append_eq_ok_iff]
  simp only [tokenizeAll_later_eq_ok_iff]
  constructor
  · rintro ⟨before, _, hbefore, ⟨after, hafter, rfl⟩, rfl⟩
    exact ⟨before, after, hbefore, hafter, rfl⟩
  · rintro ⟨before, after, hbefore, hafter, rfl⟩
    exact ⟨before, _, hbefore, ⟨after, hafter, rfl⟩, rfl⟩

/-! ### The end of a text -/

theorem trimEnd_append_blank (front : List Char) {c : Char} (hc : isBlank c = true) :
    trimEnd (front ++ [c]) = trimEnd front := by
  induction front with
  | nil => simp [trimEnd, hc]
  | cons first front ih => rw [List.cons_append, trimEnd, trimEnd, ih]

theorem map_trimEnd_linesFrom {text current : List Char} (hended : text.getLast? ≠ some '\n')
    (hsome : text = [] → current ≠ []) :
    (linesFrom current (text ++ ['\n'])).map trimEnd = (linesFrom current text).map trimEnd := by
  induction text generalizing current with
  | nil =>
      cases current with
      | nil => exact absurd rfl (hsome rfl)
      | cons c before =>
          by_cases hc : c = '\r'
          · subst hc
            change [trimEnd before.reverse] = [trimEnd ('\r' :: before).reverse]
            rw [List.reverse_cons, trimEnd_append_blank _ (by decide)]
          · have hline : linesFrom (c :: before) ['\n'] = [(c :: before).reverse] := by
              rw [linesFrom.eq_def]
              refine congrArg (· :: []) ?_
              split
              · rename_i h
                exact absurd (List.cons.inj h).1 hc
              · rfl
            rw [List.nil_append, hline]
            rfl
  | cons c rest ih =>
      have hrest : rest.getLast? ≠ some '\n' := by
        cases rest with
        | nil => simp
        | cons d rest => rwa [List.getLast?_cons_cons] at hended
      by_cases hc : c = '\n'
      · subst hc
        have hne : rest ≠ [] := by
          rintro rfl
          exact hended rfl
        rw [List.cons_append, linesFrom_feed, linesFrom_feed current rest, List.map_append,
          List.map_append]
        exact congrArg _ (ih hrest fun hnil => absurd hnil hne)
      · rw [List.cons_append, linesFrom.eq_4 _ _ _ hc, linesFrom.eq_4 _ _ _ hc]
        exact ih hrest fun _ => List.cons_ne_nil _ _

theorem joinFrom_congr {physical other : List (List Char)}
    (h : physical.map trimEnd = other.map trimEnd) (start : Nat) (pending : List Char)
    (index : Nat) : joinFrom start pending index physical = joinFrom start pending index other := by
  induction physical generalizing other start pending index with
  | nil => rw [List.map_eq_nil_iff.mp h.symm]
  | cons line rest ih =>
      cases other with
      | nil => cases h
      | cons line' rest' =>
          obtain ⟨hline, hrest⟩ := List.cons.inj h
          rw [joinFrom, joinFrom, hline]
          cases beforeContinuation? (trimEnd line') with
          | some head => exact ih hrest _ _ _
          | none => exact congrArg _ (ih hrest _ _ _)

/-- A text with a line feed at its end, which is added where there is none. -/
def withLineEnd (text : List Char) : List Char :=
  if text.getLast? = some '\n' then text else text ++ ['\n']

theorem map_trimEnd_lines_withLineEnd {text : List Char} (hsome : text ≠ []) :
    (lines (withLineEnd text)).map trimEnd = (lines text).map trimEnd := by
  unfold withLineEnd
  split
  · rfl
  · rename_i hended
    exact map_trimEnd_linesFrom hended fun hnil => absurd hnil hsome

theorem logicalLines_withLineEnd (text : List Char) :
    logicalLines (withLineEnd text) = logicalLines text := by
  by_cases htext : text = []
  · subst htext
    rfl
  · rw [logicalLines, logicalLines, joined, joined,
      joinFrom_congr (map_trimEnd_lines_withLineEnd htext)]

theorem complete_withLineEnd {text : List Char} (h : continues text = false) :
    Complete (withLineEnd text) where
  ended := by
    unfold withLineEnd
    split
    · rename_i hended
      exact .inr hended
    · exact .inr List.getLast?_concat
  whole := by
    by_cases htext : text = []
    · subst htext
      rfl
    · have hmap : continues (withLineEnd text) =
          ((lines (withLineEnd text)).map trimEnd).getLast?.any
            fun line => (beforeContinuation? line).isSome := by
        rw [List.getLast?_map, Option.any_map]
        rfl
      rw [hmap, map_trimEnd_lines_withLineEnd htext, List.getLast?_map, Option.any_map]
      exact h

/-! ### The first logical line -/

theorem exists_physical {text : List Char} (h : text ≠ []) :
    ∃ first rest physical, text = first ++ rest ∧ first ≠ [] ∧ lines first = [physical] ∧
      (first.getLast? = some '\n' ∨ rest = []) := by
  by_cases hfeed : '\n' ∈ text
  · obtain ⟨line, rest, rfl, hunbroken⟩ := List.eq_append_cons_of_mem hfeed
    obtain ⟨physical, hphysical⟩ : ∃ physical, lines (line ++ ['\n']) = [physical] :=
      ⟨_, (linesFrom_append hunbroken [] ['\n']).trans rfl⟩
    exact ⟨line ++ ['\n'], rest, physical, by simp, by simp, hphysical, .inl List.getLast?_concat⟩
  · exact ⟨text, [], text, (List.append_nil _).symm, h, lines_of_unbroken hfeed h, .inr rfl⟩

theorem joinFrom_eq_nil_iff {start index : Nat} {pending : List Char}
    {physical : List (List Char)} :
    joinFrom start pending index physical = [] ↔ pending = [] ∧ physical = [] := by
  induction physical generalizing start pending index with
  | nil => simp [joinFrom]
  | cons line rest ih =>
      rw [joinFrom]
      cases beforeContinuation? (trimEnd line) with
      | some head => simp [ih]
      | none => simp

theorem joinFrom_of_pending {physical : List (List Char)} (hsome : physical ≠ []) {start index : Nat}
    {pending : List Char} {one : Nat × List Char}
    (h : joinFrom start pending index physical = [one]) {start' index' : Nat} {pending' : List Char}
    (hpending : pending' ≠ []) :
    ∃ joint, joinFrom start' pending' index' physical = [(start', joint)] := by
  induction physical generalizing start pending index pending' index' with
  | nil => exact absurd rfl hsome
  | cons line rest ih =>
      rw [joinFrom] at h ⊢
      rw [if_neg (by simpa using hpending)]
      cases hgoes : beforeContinuation? (trimEnd line) with
      | some head =>
          rw [hgoes] at h
          by_cases hrest : rest = []
          · subst hrest
            exact ⟨_, if_neg (by simp)⟩
          · exact ih hrest h (by simp)
      | none =>
          rw [hgoes] at h
          have hrest := (joinFrom_eq_nil_iff.mp (List.cons.inj h).2).2
          subst hrest
          exact ⟨_, rfl⟩

theorem exists_logical {text : List Char} (h : text ≠ []) :
    ∃ first rest joint, text = first ++ rest ∧ first ≠ [] ∧ joined first = [(1, joint)] ∧
      (Complete first ∨ rest = []) := by
  -- On the length: a line that goes on takes the first logical line of what follows along.
  induction hn : text.length using Nat.strongRecOn generalizing text with
  | ind n ih =>
      obtain ⟨line, others, physical, rfl, hline, hlines, hended⟩ := exists_physical h
      cases hgoes : beforeContinuation? (trimEnd physical) with
      | none =>
          refine ⟨line, others, trimEnd physical, rfl, hline, ?_, ?_⟩
          · rw [joined, hlines, joinFrom, hgoes]
            rfl
          · refine hended.imp_left fun hended => ⟨.inr hended, ?_⟩
            rw [continues, hlines]
            simp [hgoes]
      | some head =>
          by_cases hothers : others = []
          · subst hothers
            refine ⟨line, [], head ++ [' '], rfl, hline, ?_, .inr rfl⟩
            rw [joined, hlines, joinFrom, hgoes]
            exact if_neg (by simp)
          · have hfeed := hended.resolve_right hothers
            have hshorter : others.length < n := by
              rw [← hn, List.length_append]
              exact Nat.lt_add_of_pos_left (List.length_pos_iff.mpr hline)
            obtain ⟨first, rest, joint, rfl, hfirst, hjoined, hcomplete⟩ :=
              ih others.length hshorter hothers rfl
            have hboth : lines (line ++ first) = physical :: lines first := by
              rw [lines, linesFrom_append_of_ended hfeed, ← lines, hlines]
              rfl
            have hsome : lines first ≠ [] := fun hnil => hfirst (linesFrom_eq_nil_iff.mp hnil).2
            obtain ⟨joint', hjoint⟩ : ∃ joint', joinFrom 1 (head ++ [' ']) 2 (lines first) =
                [(1, joint')] := joinFrom_of_pending hsome hjoined (by simp)
            refine ⟨line ++ first, rest, joint', (List.append_assoc _ _ _).symm, by simp [hline], ?_,
              hcomplete.imp_left fun hcomplete => hcomplete.after hfirst hfeed⟩
            rw [joined, hboth, joinFrom, hgoes]
            exact hjoint

/-- A logical line with its tokens as a passage of a text, perhaps with lines without tokens around
it. -/
structure Passage (text : List Char) (tokens : List String) where
  front : List Char
  line : List Char
  back : List Char
  text_eq : text = front ++ line ++ back
  complete : Complete front
  holds : ∃ number, logicalLines line = .ok [⟨number, tokens⟩]
  ended : Complete line ∨ back = []

namespace Passage

variable {text : List Char} {tokens : List String}

def prepend {more : List Char} (p : Passage text tokens) (h : Complete more) :
    Passage (more ++ text) tokens where
  front := more ++ p.front
  line := p.line
  back := p.back
  text_eq := by simp [p.text_eq]
  complete := h.append p.complete
  holds := p.holds
  ended := p.ended

/-- The text with another one in the place of the passage. -/
def replaced (p : Passage text tokens) (other : List Char) : List Char :=
  p.front ++ withLineEnd other ++ p.back

theorem logicalLines_eq_ok (p : Passage text tokens) {read : List LogicalLine}
    (h : logicalLines text = .ok read) :
    ∃ before number after k, logicalLines p.front = .ok before ∧ logicalLines p.back = .ok after ∧
      read = before ++ ⟨number, tokens⟩ :: after.map (LogicalLine.later k) := by
  obtain ⟨number, hline⟩ := p.holds
  rw [p.text_eq, List.append_assoc] at h
  obtain ⟨before, _, hbefore, hhere, rfl⟩ := p.complete.logicalLines_append_eq_ok_iff.mp h
  rcases p.ended with hended | hback
  · obtain ⟨_, after, hline', hafter, rfl⟩ := hended.logicalLines_append_eq_ok_iff.mp hhere
    cases hline.symm.trans hline'
    refine ⟨before, number + (lines p.front).length, after,
      (lines p.line).length + (lines p.front).length, hbefore, hafter, ?_⟩
    simp [LogicalLine.later, Nat.add_assoc]
  · rw [hback, List.append_nil, hline] at hhere
    cases hhere
    exact ⟨before, number + (lines p.front).length, [], 0, hbefore, by rw [hback]; rfl, rfl⟩

theorem logicalLines_replaced (p : Passage text tokens) {other : List Char}
    (hwhole : continues other = false) {before inner after : List LogicalLine}
    (hbefore : logicalLines p.front = .ok before) (hinner : logicalLines other = .ok inner)
    (hafter : logicalLines p.back = .ok after) :
    ∃ k l, logicalLines (p.replaced other) =
      .ok (before ++ (inner.map (LogicalLine.later k) ++ after.map (LogicalLine.later l))) := by
  rw [← logicalLines_withLineEnd] at hinner
  have hrest := (complete_withLineEnd hwhole).logicalLines_append_eq_ok_iff.mpr
    ⟨inner, after, hinner, hafter, rfl⟩
  have hall := p.complete.logicalLines_append_eq_ok_iff.mpr ⟨before, _, hbefore, hrest, rfl⟩
  refine ⟨(lines p.front).length, (lines (withLineEnd other)).length + (lines p.front).length, ?_⟩
  rw [replaced, List.append_assoc, hall]
  simp [LogicalLine.later, Nat.add_assoc]

end Passage

theorem map_tokens_later (k : Nat) (read : List LogicalLine) :
    (read.map (LogicalLine.later k)).map LogicalLine.tokens = read.map LogicalLine.tokens := by
  simp [LogicalLine.later]

theorem logicalLines_of_joined {text joint : List Char} (h : joined text = [(1, joint)])
    {read : List LogicalLine} (hread : logicalLines text = .ok read) :
    read = [] ∨ ∃ tokens, read = [⟨1, tokens⟩] := by
  rw [logicalLines, h, tokenizeAll_cons_eq_ok_iff] at hread
  obtain ⟨tokens, _, -, ⟨⟩, rfl⟩ := hread
  by_cases htokens : tokens.isEmpty
  · exact .inl (if_pos htokens)
  · exact .inr ⟨tokens, if_neg htokens⟩

/-- Each logical line is a passage of the text, after the lines before it. -/
theorem exists_passage {text : List Char} {before after : List LogicalLine} {line : LogicalLine}
    (h : logicalLines text = .ok (before ++ line :: after)) :
    ∃ p : Passage text line.tokens, logicalLines p.front = .ok before := by
  have hempty : Complete [] := ⟨.inl rfl, rfl⟩
  induction hn : text.length using Nat.strongRecOn generalizing text before after line with
  | ind n ih =>
      have htext : text ≠ [] := by
        rintro rfl
        exact absurd (Except.ok.inj h).symm (by simp)
      obtain ⟨first, rest, joint, rfl, hfirst, hjoined, hended⟩ := exists_logical htext
      have hshorter : rest.length < n := by
        rw [← hn, List.length_append]
        exact Nat.lt_add_of_pos_left (List.length_pos_iff.mpr hfirst)
      rcases hended with hcomplete | rfl
      · obtain ⟨found, others, hfound, hothers, hsplit⟩ :=
          hcomplete.logicalLines_append_eq_ok_iff.mp h
        have hlater : ∀ more, before = found ++ more →
            others.map (LogicalLine.later (lines first).length) = more ++ line :: after →
            ∃ p : Passage (first ++ rest) line.tokens, logicalLines p.front = .ok before := by
          rintro more rfl hmap
          obtain ⟨early, _, rfl, rfl, hrest⟩ := List.map_eq_append_iff.mp hmap
          obtain ⟨same, late, rfl, rfl, rfl⟩ := List.map_eq_cons_iff.mp hrest
          obtain ⟨p, hp⟩ := ih rest.length hshorter hothers rfl
          exact ⟨p.prepend hcomplete,
            hcomplete.logicalLines_append_eq_ok_iff.mpr ⟨found, early, hfound, hp, rfl⟩⟩
        rcases logicalLines_of_joined hjoined hfound with rfl | ⟨tokens, rfl⟩
        · exact hlater before rfl hsplit.symm
        · cases before with
          | nil =>
              obtain ⟨rfl, -⟩ := List.cons.inj hsplit
              exact ⟨⟨[], first, rest, rfl, hempty, ⟨1, hfound⟩, .inl hcomplete⟩, rfl⟩
          | cons other more =>
              obtain ⟨rfl, hmap⟩ := List.cons.inj hsplit
              exact hlater more rfl hmap.symm
      · rw [List.append_nil] at h
        rcases logicalLines_of_joined hjoined h with hnone | ⟨tokens, hfound⟩
        · simp at hnone
        · obtain ⟨rfl, rfl⟩ : before = [] ∧ line = ⟨1, tokens⟩ := by
            cases before with
            | nil => exact ⟨rfl, (List.cons.inj hfound).1⟩
            | cons other more => simp at hfound
          rw [hfound] at h
          exact ⟨⟨[], first, [], rfl, hempty, ⟨1, h⟩, .inr rfl⟩, rfl⟩

end CommandFile

end DeviceLab
