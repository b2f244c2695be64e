import DeviceLab.Proofs.CommandFile.Passages

namespace DeviceLab.CommandFile

open Text

/-- Whether the first character of a line that is not blank is a `#`, if there is one. -/
def isRemark (line : List Char) : Bool :=
  (trimStart line).head?.all (· == '#')

variable {front back line : List Char} {read : List LogicalLine}

theorem isRemark_cons (c : Char) (cs : List Char) :
    isRemark (c :: cs) = (c == '#' || (isBlank c && isRemark cs)) := by
  by_cases hblank : isBlank c = true
  · have hhash : c ≠ '#' := by
      rintro rfl
      exact absurd hblank (by decide)
    simp [isRemark, trimStart, hblank, hhash]
  · simp [isRemark, trimStart, hblank]

theorem isRemark_trimEnd (h : isRemark line = true) : isRemark (trimEnd line) = true := by
  induction line with
  | nil => exact h
  | cons c cs ih =>
      simp only [isRemark_cons, Bool.or_eq_true, beq_iff_eq, Bool.and_eq_true] at h
      rw [trimEnd]
      split
      · split
        · rfl
        · rcases h with rfl | ⟨hblank, -⟩
          · rfl
          · contradiction
      · rw [isRemark_cons]
        rcases h with rfl | ⟨hblank, hrest⟩
        · simp
        · simp [hblank, ih hrest]

theorem tokensFrom_between_hash (current cs : List Char) :
    tokensFrom .between current ('#' :: cs) = .ok [] := by
  cases cs <;> rfl

theorem tokensFrom_between_blank {c : Char} (hc : isBlank c = true) (current cs : List Char) :
    tokensFrom .between current (c :: cs) = tokensFrom .between [] cs := by
  cases cs <;> exact if_pos hc

theorem tokens_of_isRemark (h : isRemark line = true) : tokens line = .ok [] := by
  rw [tokens]
  induction line with
  | nil => rfl
  | cons c cs ih =>
      simp only [isRemark_cons, Bool.or_eq_true, beq_iff_eq, Bool.and_eq_true] at h
      rcases h with rfl | ⟨hblank, hrest⟩
      · exact tokensFrom_between_hash [] cs
      · rw [tokensFrom_between_blank hblank]
        exact ih hrest

theorem isRemark_of_concat {c : Char} (h : isRemark (line ++ [c]) = true)
    (hblank : isBlank c = false) (hhash : c ≠ '#') (more : List Char) : isRemark (line ++ more) = true := by
  induction line with
  | nil => simp [isRemark_cons, hblank, hhash] at h
  | cons first rest ih =>
      simp only [List.cons_append, isRemark_cons, Bool.or_eq_true, beq_iff_eq,
        Bool.and_eq_true] at h ⊢
      rcases h with rfl | ⟨hfirst, hrest⟩
      · exact .inl rfl
      · exact .inr ⟨hfirst, ih hrest⟩

theorem exists_lines_feed (hunbroken : '\n' ∉ line) (rest : List Char) :
    ∃ physical, lines (line ++ '\n' :: rest) = physical :: lines rest ∧
      trimEnd physical = trimEnd line := by
  rw [lines, linesFrom_append hunbroken, List.append_nil, linesFrom.eq_def]
  dsimp only
  refine ⟨_, rfl, ?_⟩
  split
  · rename_i before hreverse
    have hline : line = before.reverse ++ ['\r'] := by
      rw [← List.reverse_reverse line, hreverse, List.reverse_cons]
    rw [hline, trimEnd_append_blank _ (by decide)]
  · rw [List.reverse_reverse]

theorem complete_of_isRemark (hunbroken : '\n' ∉ line) (hremark : isRemark line = true)
    (hwhole : (trimEnd line).getLast? ≠ some '\\') :
    Complete (line ++ ['\n']) ∧ (lines (line ++ ['\n'])).length = 1 ∧
      logicalLines (line ++ ['\n']) = .ok [] := by
  obtain ⟨physical, hphysical, htrim⟩ := exists_lines_feed hunbroken []
  have hnone : beforeContinuation? (trimEnd line) = none := if_neg hwhole
  refine ⟨⟨.inr List.getLast?_concat, ?_⟩, by simp [hphysical], ?_⟩
  · simp [continues, hphysical, htrim, hnone]
  · rw [logicalLines, joined, hphysical, lines_nil, joinFrom, htrim, hnone]
    simp only [List.nil_append, joinFrom, tokenizeAll, tokens_of_isRemark (isRemark_trimEnd hremark)]
    rfl

theorem joinFrom_of_before {start index number : Nat} {pending text : List Char}
    {physical : List (List Char)} {others : List (Nat × List Char)}
    (h : joinFrom start pending index physical = (number, text) :: others) (start' : Nat)
    {before : List Char} (hbefore : before ≠ []) :
    joinFrom start' (before ++ pending) index physical = (start', before ++ text) :: others := by
  induction physical generalizing start pending index with
  | nil =>
      by_cases hpending : pending = []
      · simp [joinFrom, hpending] at h
      · simp only [joinFrom, List.isEmpty_iff, hpending, if_false, List.cons.injEq,
          Prod.mk.injEq] at h
        obtain ⟨⟨-, rfl⟩, rfl⟩ := h
        simp [joinFrom, hbefore]
  | cons line rest ih =>
      rw [joinFrom] at h ⊢
      rw [if_neg (by simp [hbefore])]
      cases hgoes : beforeContinuation? (trimEnd line) with
      | some head =>
          rw [hgoes] at h
          simpa [List.append_assoc] using ih h
      | none =>
          rw [hgoes] at h
          simp only [List.cons.injEq, Prod.mk.injEq] at h
          obtain ⟨⟨-, rfl⟩, rfl⟩ := h
          simp [joinFrom_start start' (if pending.isEmpty then index else start)]

/-- A comment that goes on takes the first logical line of what follows with it. -/
theorem joined_of_continued (hunbroken : '\n' ∉ line) {head : List Char}
    (hgoes : beforeContinuation? (trimEnd line) = some head) (back : List Char) :
    ∃ more, joined (line ++ '\n' :: back) =
      (1, head ++ more) :: (joined back).tail.map fun later => (later.1 + 1, later.2) := by
  obtain ⟨physical, hphysical, htrim⟩ := exists_lines_feed hunbroken back
  have hback : joinFrom 0 [] 2 (lines back) =
      (joined back).map fun later => (later.1 + 1, later.2) := by
    rw [joined, ← joinFrom_add]
    exact joinFrom_start _ _ _ _
  rw [joined, hphysical, joinFrom, htrim, hgoes]
  simp only [List.isEmpty_nil, if_true, List.nil_append]
  cases hjoined : joined back with
  | nil =>
      have hnil := joinFrom_eq_nil_iff.mp hjoined
      refine ⟨[' '], ?_⟩
      simp [hnil.2, joinFrom]
  | cons first others =>
      rw [hjoined, List.map_cons] at hback
      have hjoint : joinFrom 1 (head ++ [' '] ++ []) 2 (lines back) = _ :=
        joinFrom_of_before hback 1 (by simp)
      rw [List.append_nil] at hjoint
      exact ⟨' ' :: first.2, by simp [hjoint]⟩

theorem logicalLines_of_continued (hunbroken : '\n' ∉ line) (hremark : isRemark line = true)
    (hgoes : (trimEnd line).getLast? = some '\\') (back : List Char) :
    logicalLines (line ++ '\n' :: back) = .ok read ↔
      ∃ after, tokenizeAll (joined back).tail = .ok after ∧
        read = after.map (LogicalLine.later 1) := by
  obtain ⟨head, hhead⟩ := List.getLast?_eq_some_iff.mp hgoes
  have hcontinued : beforeContinuation? (trimEnd line) = some head := by
    rw [hhead, beforeContinuation?, List.getLast?_concat, if_pos rfl, List.dropLast_concat]
  obtain ⟨more, hjoined⟩ := joined_of_continued hunbroken hcontinued back
  have htokens : tokens (head ++ more) = .ok [] := by
    apply tokens_of_isRemark
    have htrimmed := isRemark_trimEnd hremark
    rw [hhead] at htrimmed
    exact isRemark_of_concat htrimmed (by decide) (by decide) more
  rw [logicalLines, hjoined, tokenizeAll_cons_eq_ok_iff]
  simp only [htokens, tokenizeAll_later_eq_ok_iff]
  constructor
  · rintro ⟨_, _, ⟨⟩, ⟨after, hafter, rfl⟩, rfl⟩
    exact ⟨after, hafter, rfl⟩
  · rintro ⟨after, hafter, rfl⟩
    exact ⟨[], _, rfl, ⟨after, hafter, rfl⟩, rfl⟩

theorem logicalLines_concat_feed (hunbroken : '\n' ∉ line) (hsome : line ≠ []) (front : List Char) :
    logicalLines (front ++ (line ++ ['\n'])) = logicalLines (front ++ line) := by
  have hlast : (front ++ line).getLast? ≠ some '\n' := by
    rw [List.getLast?_append_of_ne_nil front hsome]
    exact fun h => hunbroken (List.mem_of_getLast? h)
  rw [← logicalLines_withLineEnd (front ++ line), withLineEnd, if_neg hlast, List.append_assoc]

/-- A blank line or a comment may be put between two logical lines.  If it does not end in a
backslash, then all that was read is read as before, further down after the line; and if it does, the
first logical line after it is lost. -/
theorem logicalLines_insert_remark (hfront : Complete front) (hunbroken : '\n' ∉ line)
    (hremark : isRemark line = true) (back : List Char) {feed : List Char}
    (hfeed : feed = ['\n'] ∨ feed = [] ∧ line ≠ [] ∧ back = []) :
    ((trimEnd line).getLast? ≠ some '\\' → ∀ read,
      logicalLines (front ++ (line ++ feed) ++ back) = .ok read ↔
        ∃ before after, logicalLines front = .ok before ∧
          logicalLines (front ++ back) = .ok (before ++ after) ∧
          read = before ++ after.map (LogicalLine.later 1)) ∧
    ((trimEnd line).getLast? = some '\\' → ∀ read,
      logicalLines (front ++ (line ++ feed) ++ back) = .ok read ↔
        ∃ before after, logicalLines front = .ok before ∧
          tokenizeAll (joined back).tail = .ok after ∧
          read = before ++ after.map (LogicalLine.later (1 + (lines front).length))) := by
  have hfed : logicalLines (front ++ (line ++ feed) ++ back) =
      logicalLines (front ++ (line ++ '\n' :: back)) := by
    rcases hfeed with rfl | ⟨rfl, hsome, rfl⟩
    · rw [List.append_assoc, List.append_assoc, List.singleton_append]
    · rw [List.append_nil, List.append_nil, logicalLines_concat_feed hunbroken hsome]
  rw [hfed]
  constructor
  · intro hwhole read
    obtain ⟨hcomplete, hlength, hnone⟩ := complete_of_isRemark hunbroken hremark hwhole
    rw [List.append_cons]
    constructor
    · intro h
      obtain ⟨before, _, hbefore, hrest, rfl⟩ := hfront.logicalLines_append_eq_ok_iff.mp h
      obtain ⟨_, after, hline, hafter, rfl⟩ := hcomplete.logicalLines_append_eq_ok_iff.mp hrest
      obtain rfl := Except.ok.inj (hnone.symm.trans hline)
      refine ⟨before, _, hbefore,
        hfront.logicalLines_append_eq_ok_iff.mpr ⟨before, after, hbefore, hafter, rfl⟩, ?_⟩
      simp [LogicalLine.later, hlength, Nat.add_right_comm]
    · rintro ⟨before, after, hbefore, hall, rfl⟩
      obtain ⟨before', early, hbefore', hearly, hsplit⟩ :=
        hfront.logicalLines_append_eq_ok_iff.mp hall
      obtain rfl := Except.ok.inj (hbefore.symm.trans hbefore')
      obtain rfl := List.append_cancel_left hsplit
      have hrest := hcomplete.logicalLines_append_eq_ok_iff.mpr ⟨[], early, hnone, hearly, rfl⟩
      refine hfront.logicalLines_append_eq_ok_iff.mpr ⟨before, _, hbefore, hrest, ?_⟩
      simp [LogicalLine.later, hlength, Nat.add_right_comm]
  · intro hgoes read
    rw [hfront.logicalLines_append_eq_ok_iff]
    simp only [logicalLines_of_continued hunbroken hremark hgoes]
    constructor
    · rintro ⟨before, _, hbefore, ⟨after, hafter, rfl⟩, rfl⟩
      exact ⟨before, after, hbefore, hafter, by simp [LogicalLine.later, Nat.add_assoc]⟩
    · rintro ⟨before, after, hbefore, hafter, rfl⟩
      exact ⟨before, _, hbefore, ⟨after, hafter, rfl⟩, by simp [LogicalLine.later, Nat.add_assoc]⟩

theorem logicalLines_insert_remark_of_comments :
    let front := "smoke\n".toList
    let comment := "  # isn't done ".toList
    let continued := "\t#\\ ".toList
    let back := "flaky \\\n --loop\nhost\n".toList
    (Complete front ∧ isRemark comment = true ∧ isRemark continued = true) ∧
      logicalLines (front ++ (comment ++ ['\n']) ++ back) =
        .ok [⟨1, ["smoke"]⟩, ⟨3, ["flaky", "--loop"]⟩, ⟨5, ["host"]⟩] ∧
      logicalLines (front ++ (continued ++ ['\n']) ++ back) =
        .ok [⟨1, ["smoke"]⟩, ⟨5, ["host"]⟩] := by
  intro front comment continued back
  have hfront : Complete front := ⟨.inr (by decide +kernel), by decide +kernel⟩
  have hcomment : isRemark comment = true := by decide +kernel
  have hcontinued : isRemark continued = true := by decide +kernel
  have hbefore : logicalLines front = .ok [⟨1, ["smoke"]⟩] := by decide +kernel
  have hall : logicalLines (front ++ back) =
      .ok ([⟨1, ["smoke"]⟩] ++ [⟨2, ["flaky", "--loop"]⟩, ⟨4, ["host"]⟩]) := by decide +kernel
  have hafter : tokenizeAll (joined back).tail = .ok [⟨3, ["host"]⟩] := by decide +kernel
  obtain ⟨hkept, -⟩ := logicalLines_insert_remark hfront (by decide +kernel) hcomment back
    (.inl rfl)
  obtain ⟨-, hlost⟩ := logicalLines_insert_remark hfront (by decide +kernel) hcontinued back
    (.inl rfl)
  refine ⟨⟨hfront, hcomment, hcontinued⟩, ?_, ?_⟩
  · exact (hkept (by decide +kernel) _).mpr ⟨_, _, hbefore, hall, rfl⟩
  · exact (hlost (by decide +kernel) _).mpr ⟨_, _, hbefore, hafter, rfl⟩

/-- A line after a comment that ends in a backslash is lost. -/
theorem exists_line_lost_to_comment :
    let comment := "# todo \\".toList
    let back := "smoke\nflaky\n".toList
    isRemark comment = true ∧ '\n' ∉ comment ∧
      logicalLines back = .ok [⟨1, ["smoke"]⟩, ⟨2, ["flaky"]⟩] ∧
      logicalLines (comment ++ '\n' :: back) = .ok [⟨3, ["flaky"]⟩] := by
  decide +kernel

end DeviceLab.CommandFile
