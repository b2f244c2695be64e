import DeviceLab.Proofs.CommandFile.Sources

namespace DeviceLab.CommandFile

/-- How far a file has been read: the draft, and the long macro that is open, if any. -/
structure Progress where
  draft : Draft
  unclosed : Option OpenMacro

namespace Progress

/-- What a line can do: end a long macro or add to it, and outside of one, define a short macro,
begin a long one, include a file or stand for a command. -/
inductive Step (follow : Path → Draft → Except Failure Draft) (path : Path) :
    Progress → LogicalLine → Progress → Prop
  | close {draft : Draft} {m : OpenMacro} {line : LogicalLine}
      (hline : line.tokens = ["END", "MACRO"]) :
      Step follow path ⟨draft, some m⟩ line
        ⟨{ draft with
          macros := { draft.macros with long := draft.macros.long.insert m.name m.bodies } }, none⟩
  | body {draft : Draft} {m : OpenMacro} {line : LogicalLine}
      (hline : line.tokens ≠ ["END", "MACRO"]) :
      Step follow path ⟨draft, some m⟩ line
        ⟨draft, some { m with bodies := m.bodies ++ [line.tokens] }⟩
  | short {draft : Draft} {line : LogicalLine} {name : String} {body : List String}
      (hline : Statement.ofTokens line.tokens = .short name body) :
      Step follow path ⟨draft, none⟩ line
        ⟨{ draft with
          macros := { draft.macros with short := draft.macros.short.insert name body } }, none⟩
  | long {draft : Draft} {line : LogicalLine} {name : String}
      (hline : Statement.ofTokens line.tokens = .long name) :
      Step follow path ⟨draft, none⟩ line ⟨draft, some { name, number := line.number }⟩
  | inclusion {draft final : Draft} {line : LogicalLine} {target : Path}
      (hline : Statement.ofTokens line.tokens = .inclusion target)
      (hfollow : follow (path.beside target)
        { draft with included := draft.included ++ [path.beside target] } = .ok final) :
      Step follow path ⟨draft, none⟩ line ⟨final, none⟩
  | command {draft : Draft} {line : LogicalLine} {args : List String}
      (hline : Statement.ofTokens line.tokens = .command args) :
      Step follow path ⟨draft, none⟩ line
        ⟨{ draft with entries := draft.entries ++ [⟨args, path, line.number⟩] }, none⟩

inductive Steps (follow : Path → Draft → Except Failure Draft) (path : Path) :
    Progress → List LogicalLine → Progress → Prop
  | nil {s : Progress} : Steps follow path s [] s
  | cons {s t u : Progress} {line : LogicalLine} {rest : List LogicalLine}
      (first : Step follow path s line t) (others : Steps follow path t rest u) :
      Steps follow path s (line :: rest) u

variable {follow : Path → Draft → Except Failure Draft} {path : Path} {s t : Progress}
  {line : LogicalLine}

theorem readLines_cons_eq_ok_iff {d final : Draft} {unclosed : Option OpenMacro}
    {rest : List LogicalLine} :
    d.readLines follow path unclosed (line :: rest) = .ok final ↔
      ∃ t, Step follow path ⟨d, unclosed⟩ line t ∧
        t.draft.readLines follow path t.unclosed rest = .ok final := by
  constructor
  · intro h
    cases unclosed with
    | some m =>
        rw [Draft.readLines] at h
        split at h
        · rename_i hline
          exact ⟨_, .close hline, h⟩
        · rename_i hline
          exact ⟨_, .body hline, h⟩
    | none =>
        rw [Draft.readLines] at h
        cases hline : Statement.ofTokens line.tokens with
        | faulty fault =>
            rw [hline] at h
            cases h
        | short name body =>
            rw [hline] at h
            exact ⟨_, .short hline, h⟩
        | long name =>
            rw [hline] at h
            exact ⟨_, .long hline, h⟩
        | inclusion target =>
            rw [hline] at h
            obtain ⟨middle, hfollow, h⟩ := bind_eq_ok_iff.mp h
            exact ⟨⟨middle, none⟩, .inclusion hline hfollow, h⟩
        | command args =>
            rw [hline] at h
            exact ⟨_, .command hline, h⟩
  · rintro ⟨t, hstep, h⟩
    cases hstep with
    | close hline =>
        rw [Draft.readLines, if_pos hline]
        exact h
    | body hline =>
        rw [Draft.readLines, if_neg hline]
        exact h
    | inclusion hline hfollow =>
        rw [Draft.readLines, hline]
        dsimp only
        rw [hfollow]
        exact h
    | short hline | long hline | command hline =>
        rw [Draft.readLines, hline]
        exact h

theorem readLines_eq_ok_iff {d final : Draft} {unclosed : Option OpenMacro}
    {read : List LogicalLine} :
    d.readLines follow path unclosed read = .ok final ↔
      Steps follow path ⟨d, unclosed⟩ read ⟨final, none⟩ := by
  induction read generalizing d unclosed with
  | nil =>
      cases unclosed with
      | none =>
          constructor
          · rintro ⟨⟩
            exact .nil
          · rintro ⟨⟩
            rfl
      | some m =>
          constructor
          · rintro ⟨⟩
          · rintro ⟨⟩
  | cons line rest ih =>
      rw [readLines_cons_eq_ok_iff]
      constructor
      · rintro ⟨t, hstep, h⟩
        exact .cons hstep (ih.mp h)
      · rintro ⟨⟩
        rename_i t hstep hrest
        exact ⟨t, hstep, ih.mpr hrest⟩

theorem steps_append_iff {front back : List LogicalLine} :
    Steps follow path s (front ++ back) t ↔
      ∃ middle, Steps follow path s front middle ∧ Steps follow path middle back t := by
  induction front generalizing s with
  | nil =>
      constructor
      · intro h
        exact ⟨s, .nil, h⟩
      · rintro ⟨_, ⟨⟩, h⟩
        exact h
  | cons line rest ih =>
      constructor
      · rintro (_ | ⟨hstep, h⟩)
        obtain ⟨middle, hrest, h⟩ := ih.mp h
        exact ⟨middle, .cons hstep hrest, h⟩
      · rintro ⟨middle, _ | ⟨hstep, hrest⟩, h⟩
        exact .cons hstep (ih.mpr ⟨middle, hrest, h⟩)

/-- Whether a long macro is open after a line, given whether there was one before. -/
def isInside (inside : Bool) (tokens : List String) : Bool :=
  if inside then tokens ≠ ["END", "MACRO"]
  else match Statement.ofTokens tokens with
    | .long _ => true
    | _ => false

theorem Step.isSome_unclosed (h : Step follow path s line t) :
    t.unclosed.isSome = isInside s.unclosed.isSome line.tokens := by
  cases h with
  | close hline => simp [isInside, hline]
  | body hline => simp [isInside, hline]
  | short hline => simp [isInside, hline]
  | long hline => simp [isInside, hline]
  | inclusion hline hfollow => simp [isInside, hline]
  | command hline => simp [isInside, hline]

theorem Steps.isSome_unclosed {read : List LogicalLine} (h : Steps follow path s read t) :
    t.unclosed.isSome = (read.map LogicalLine.tokens).foldl isInside s.unclosed.isSome := by
  induction h with
  | nil => rfl
  | cons hstep _ ih => rw [List.map_cons, List.foldl_cons, ← hstep.isSome_unclosed, ih]

variable {tree : FileTree}

theorem Step.included_subset (hfollows : Follows tree tree follow follow)
    (h : Step follow path s line t) : s.draft.included ⊆ t.draft.included := by
  cases h with
  | inclusion hline hfollow =>
      obtain ⟨reported, htraces⟩ := hfollows _ _ _ hfollow
      rw [htraces.included, List.append_assoc]
      exact List.subset_append_left _ _
  | close | body | short | long | command => exact fun _ => id

theorem Steps.included_subset (hfollows : Follows tree tree follow follow)
    {read : List LogicalLine} (h : Steps follow path s read t) :
    s.draft.included ⊆ t.draft.included := by
  induction h with
  | nil => exact fun _ => id
  | cons hstep _ ih => exact List.Subset.trans (hstep.included_subset hfollows) ih

end Progress

theorem readFile_zero_ne_ok {tree : FileTree} {path : Path} {outer : List Path} {d final : Draft} :
    Draft.readFile tree 0 outer path d ≠ .ok final := by
  intro h
  rw [Draft.readFile] at h
  split at h <;> cases h

theorem readFile_succ_eq_ok_iff {tree : FileTree} {path : Path} {levels : Nat}
    {outer : List Path} {d final : Draft} :
    Draft.readFile tree (levels + 1) outer path d = .ok final ↔
      outer.any (·.same path) = false ∧ ∃ text read, tree.readText path = .ok text ∧
        logicalLines text.toList = .ok read ∧
        Progress.Steps (Draft.readFile tree levels (path :: outer)) path ⟨d, none⟩ read
          ⟨final, none⟩ := by
  simp only [← Progress.readLines_eq_ok_iff]
  rw [Draft.readFile]
  cases outer.any (·.same path) with
  | true => simp
  | false =>
      cases tree.readText path with
      | error error => simp
      | ok text =>
          cases hread : logicalLines text.toList with
          | error fault => simp [hread]
          | ok read => simp [hread]

theorem exists_lines_of_readFile {tree : FileTree} {path : Path} {levels : Nat} {outer : List Path}
    {d final : Draft} (h : Draft.readFile tree levels outer path d = .ok final) :
    ∃ text read, tree.readText path = .ok text ∧ logicalLines text.toList = .ok read := by
  cases levels with
  | zero => exact absurd h readFile_zero_ne_ok
  | succ levels =>
      obtain ⟨-, text, read, htext, hread, -⟩ := readFile_succ_eq_ok_iff.mp h
      exact ⟨text, read, htext, hread⟩

end DeviceLab.CommandFile
