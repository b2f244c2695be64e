import DeviceLab.CommandFile.Document
import Mathlib.Data.List.Basic

/-!
What the content of a command file depends on.

A file is read together with those that it includes, and it reports every one of them.  So where
these files are the same, it says the same, whatever else there is.  Where some of them cannot be
read, it may not be readable either, but it cannot say anything else.
-/

namespace DeviceLab.CommandFile

variable {tree other : FileTree} {path : Path}

/-- No file of `paths` has another text in `other` than in `tree`; it may not be readable there. -/
def Agree (tree other : FileTree) (paths : List Path) : Prop :=
  ∀ p ∈ paths, ∀ text, other.readText p = .ok text → tree.readText p = .ok text

theorem Agree.mono {paths some : List Path} (h : Agree tree other paths) (hsub : some ⊆ paths) :
    Agree tree other some :=
  fun p hp => h p (hsub hp)

/-- What becomes elsewhere of a reading that gave `result` here: the same, or it fails, and then one
of the files read cannot be read there. -/
def Recurs {α : Type} (other : FileTree) (paths : List Path) (result : α)
    (there : Except Failure α) : Prop :=
  there = .ok result ∨
    (∃ p ∈ paths, ∃ error, other.readText p = .error error) ∧ ∃ failure, there = .error failure

theorem Recurs.bind {α β : Type} {front back : List Path} {first : α} {result : β}
    {x : Except Failure α} {f : α → Except Failure β} (hx : Recurs other front first x)
    (hf : Recurs other back result (f first)) : Recurs other (front ++ back) result (x >>= f) := by
  rcases hx with rfl | ⟨⟨p, hp, error, hread⟩, failure, rfl⟩
  · rcases hf with hf | ⟨⟨p, hp, error, hread⟩, hf⟩
    · exact .inl hf
    · exact .inr ⟨⟨p, List.mem_append_right front hp, error, hread⟩, hf⟩
  · exact .inr ⟨⟨p, List.mem_append_left back hp, error, hread⟩, failure, rfl⟩

/-- The files of `paths` were read in `tree` on the way to `after`, and those of `reported` are noted
in it after those of `before`.  Where they agree, the same is read in `other`, if anything. -/
structure Traces (tree other : FileTree) (paths reported before : List Path) (after : Draft)
    (there : Except Failure Draft) : Prop where
  included : after.included = before ++ reported
  readable : ∀ p ∈ paths, ∃ text, tree.readText p = .ok text
  recurs : Agree tree other paths → Recurs other paths after there

/-- A way to follow inclusions in `tree`, and the same one in `other`. -/
def Follows (tree other : FileTree) (follow follow' : Path → Draft → Except Failure Draft) :
    Prop :=
  ∀ target draft after, follow target draft = .ok after →
    ∃ reported,
      Traces tree other (target :: reported) reported draft.included after (follow' target draft)

theorem Traces.refl (draft : Draft) :
    Traces tree other [] [] draft.included draft (.ok draft) where
  included := (List.append_nil _).symm
  readable _ hp := absurd hp List.not_mem_nil
  recurs _ := .inl rfl

theorem Traces.inclusion {target : Path} {front back before : List Path} {middle after : Draft}
    {there : Except Failure Draft} {next : Draft → Except Failure Draft}
    (hfront : Traces tree other (target :: front) front (before ++ [target]) middle there)
    (hback : Traces tree other back back middle.included after (next middle)) :
    Traces tree other (target :: front ++ back) (target :: front ++ back) before after
      (there >>= next) where
  included := by
    rw [hback.included, hfront.included]
    simp
  readable p hp := by
    rcases List.mem_append.mp hp with hp | hp
    · exact hfront.readable p hp
    · exact hback.readable p hp
  recurs hagree :=
    (hfront.recurs (hagree.mono (List.subset_append_left _ _))).bind
      (hback.recurs (hagree.mono (List.subset_append_right _ _)))

theorem exists_traces_readLines {follow follow' : Path → Draft → Except Failure Draft}
    (hfollows : Follows tree other follow follow') {lines : List LogicalLine} {draft after : Draft}
    {unclosed : Option OpenMacro} (h : draft.readLines follow path unclosed lines = .ok after) :
    ∃ reported, Traces tree other reported reported draft.included after
      (draft.readLines follow' path unclosed lines) := by
  induction lines generalizing draft unclosed with
  | nil =>
      cases unclosed with
      | none =>
          cases h
          exact ⟨[], Traces.refl _⟩
      | some m => cases h
  | cons line rest ih =>
      cases unclosed with
      | some m =>
          rw [Draft.readLines] at h ⊢
          split at h
          · rename_i hend
            rw [if_pos hend]
            exact ih h
          · rename_i hend
            rw [if_neg hend]
            exact ih h
      | none =>
          rw [Draft.readLines] at h ⊢
          cases hstatement : Statement.ofTokens line.tokens with
          | faulty fault =>
              rw [hstatement] at h
              cases h
          | short name body =>
              rw [hstatement] at h
              exact ih h
          | long name =>
              rw [hstatement] at h
              exact ih h
          | inclusion target =>
              rw [hstatement] at h
              obtain ⟨middle, hmiddle, h⟩ := bind_eq_ok_iff.mp h
              obtain ⟨front, hfront⟩ := hfollows _ _ _ hmiddle
              obtain ⟨back, hback⟩ := ih h
              exact ⟨_, hfront.inclusion hback⟩
          | command args =>
              rw [hstatement] at h
              exact ih h

theorem exists_traces_readFile (tree other : FileTree) (levels : Nat) (outer : List Path) :
    Follows tree other (Draft.readFile tree levels outer) (Draft.readFile other levels outer) := by
  induction levels generalizing outer with
  | zero =>
      intro path draft after h
      rw [Draft.readFile] at h
      split at h <;> cases h
  | succ levels ih =>
      intro path draft after h
      rw [Draft.readFile] at h ⊢
      split at h
      · cases h
      · rename_i hcycle
        rw [if_neg hcycle]
        cases hread : tree.readText path with
        | error error =>
            rw [hread] at h
            cases h
        | ok text =>
            rw [hread] at h
            dsimp only at h
            cases hlines : logicalLines text.toList with
            | error fault =>
                rw [hlines] at h
                cases h
            | ok lines =>
                rw [hlines] at h
                obtain ⟨reported, hincluded, hreadable, hrecurs⟩ :=
                  exists_traces_readLines (ih (path :: outer)) h
                refine ⟨reported, hincluded, ?_, fun hagree => ?_⟩
                · intro p hp
                  rcases List.mem_cons.mp hp with rfl | hp
                  · exact ⟨text, hread⟩
                  · exact hreadable p hp
                -- The file itself may be lost in the other tree; where it is there it says the
                -- same.
                · cases hthere : other.readText path with
                  | error error =>
                      exact .inr ⟨⟨path, List.mem_cons_self, error, hthere⟩, _, rfl⟩
                  | ok text' =>
                      have hsame := hagree path List.mem_cons_self text' hthere
                      obtain rfl : text = text' := Except.ok.inj (hread.symm.trans hsame)
                      dsimp only
                      rw [hlines]
                      rcases hrecurs (hagree.mono (List.subset_cons_self path reported)) with
                        hrecurs | ⟨⟨p, hp, hlost⟩, hfails⟩
                      · exact .inl hrecurs
                      · exact .inr ⟨⟨p, List.mem_cons_of_mem path hp, hlost⟩, hfails⟩

namespace Document

variable {document : Document}

theorem of_finish_eq_ok {draft : Draft} (h : draft.finish = .ok document) :
    document.included = draft.included := by
  obtain ⟨entries, -, h⟩ := bind_eq_ok_iff.mp h
  cases h
  rfl

/-- A command file that can be read has read all that it reports.  Elsewhere it is read in the same
way, if those files agree and can be read. -/
theorem traces_ofFile (h : ofFile tree path = .ok document) (other : FileTree) :
    (∀ p ∈ path :: document.included, ∃ text, tree.readText p = .ok text) ∧
    (Agree tree other (path :: document.included) →
      Recurs other (path :: document.included) document (ofFile other path)) := by
  obtain ⟨draft, hdraft, hfinish⟩ := bind_eq_ok_iff.mp h
  obtain ⟨reported, hincluded, hreadable, hrecurs⟩ :=
    exists_traces_readFile tree other maxIncludeDepth [] path {} draft hdraft
  rw [of_finish_eq_ok hfinish, hincluded, List.nil_append]
  refine ⟨hreadable, fun hagree => ?_⟩
  have hdocument : Recurs other [] document draft.finish := .inl hfinish
  have hboth := (hrecurs hagree).bind hdocument
  rwa [List.append_nil] at hboth

theorem readable_of_ofFile (h : ofFile tree path = .ok document) {p : Path}
    (hp : p ∈ path :: document.included) : ∃ text, tree.readText p = .ok text :=
  (traces_ofFile h tree).1 p hp

theorem eq_of_agree {document' : Document} (h : ofFile tree path = .ok document)
    (h' : ofFile other path = .ok document')
    (hagree : Agree tree other (path :: document.included)) : document' = document := by
  rcases (traces_ofFile h other).2 hagree with hsame | ⟨-, failure, hfails⟩
  · exact Except.ok.inj (h'.symm.trans hsame)
  · rw [h'] at hfails
    cases hfails

theorem readText_congr {p : Path} (h : other.read p = tree.read p) :
    other.readText p = tree.readText p := by
  rw [FileTree.readText, FileTree.readText, h]

/-- A command file depends only on itself and on the files that it reports: where these have the
same content, the same commands are read from the same lines, and the same files are reported. -/
theorem ofFile_of_same_sources (h : ofFile tree path = .ok document)
    (hsame : ∀ p ∈ path :: document.included, other.read p = tree.read p) :
    ofFile other path = .ok document := by
  have hagree : Agree tree other (path :: document.included) := by
    intro p hp text htext
    rwa [← readText_congr (hsame p hp)]
  rcases (traces_ofFile h other).2 hagree with hrecurs | ⟨⟨p, hp, error, hlost⟩, -⟩
  · exact hrecurs
  · obtain ⟨text, htext⟩ := readable_of_ofFile h hp
    rw [readText_congr (hsame p hp), htext] at hlost
    cases hlost

theorem ofFile_of_same_sources_of_nested :
    let bytes (text : String) : List UInt8 := text.toUTF8.toList
    let shared : FileTree :=
      ((FileTree.write {} ⟨"cmds.txt"⟩ (bytes "INCLUDE sub/a.txt\nsmoke serial()\n")).write
        ⟨"sub/a.txt"⟩ (bytes "INCLUDE b.txt\n")).write ⟨"sub/b.txt"⟩
          (bytes "MACRO serial = --serial S\nflaky\n")
    let tree := shared.write ⟨"b.txt"⟩ (bytes "LONG MACRO\n")
    let other := shared.write ⟨"sub/c.txt"⟩ (bytes "broken\n")
    let path : Path := ⟨"cmds.txt"⟩
    let document : Document :=
      { entries := [⟨["flaky"], ⟨"sub/b.txt"⟩, 2⟩, ⟨["smoke", "--serial", "S"], path, 2⟩]
        included := [⟨"sub/a.txt"⟩, ⟨"sub/b.txt"⟩] }
    (ofFile tree path = .ok document ∧
      ∀ p ∈ path :: document.included, other.read p = tree.read p) ∧
      ofFile other path = .ok document := by
  intro bytes shared tree other path document
  have hfile : ofFile tree path = .ok document := by decide +kernel
  have hsame : ∀ p ∈ path :: document.included, other.read p = tree.read p := by decide +kernel
  exact ⟨⟨hfile, hsame⟩, ofFile_of_same_sources hfile hsame⟩

end Document

end DeviceLab.CommandFile
