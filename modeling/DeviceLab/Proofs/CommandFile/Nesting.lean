import DeviceLab.Proofs.CommandFile.Progress
import DeviceLab.Proofs.FileTree.Walks
import Mathlib.Logic.Relation

namespace DeviceLab.CommandFile

/-- What a line outside of long macros includes. -/
def targetOf? (inside : Bool) (tokens : List String) : Option Path :=
  if inside then none
  else match Statement.ofTokens tokens with
    | .inclusion target => some target
    | _ => none

/-- What lines include, of which the first may be inside a long macro. -/
def targets : Bool → List (List String) → List Path
  | _, [] => []
  | inside, tokens :: rest =>
    (targetOf? inside tokens).toList ++ targets (Progress.isInside inside tokens) rest

/-- Whether the file at one place is included by the file at another, by some path to it. -/
def IncludedBy (tree : FileTree) (y x : Place) : Prop :=
  ∃ path text read target, tree.locate path = .ok x ∧ tree.readText path = .ok text ∧
    logicalLines text.toList = .ok read ∧ target ∈ targets false (read.map LogicalLine.tokens) ∧
    tree.locate (path.beside target) = .ok y

/-- A way to follow inclusions to files whose own inclusions come to an end, and only to these. -/
def Descends (tree : FileTree) (follow : Path → Draft → Except Failure Draft) : Prop :=
  ∀ path d final, follow path d = .ok final →
    ∃ x, tree.locate path = .ok x ∧ Acc (IncludedBy tree) x ∧
      ∀ q ∈ final.included, q ∈ d.included ∨
        ∃ y, tree.locate q = .ok y ∧ Relation.TransGen (IncludedBy tree) y x

variable {tree : FileTree} {follow : Path → Draft → Except Failure Draft} {path q : Path}
  {s t : Progress}

/-- Whether a path was noted for one of some targets. -/
def NotedFor (tree : FileTree) (path : Path) (all : List Path) (q : Path) : Prop :=
  ∃ target ∈ all, ∃ y z, tree.locate (path.beside target) = .ok y ∧ tree.locate q = .ok z ∧
    Relation.ReflTransGen (IncludedBy tree) z y

namespace Progress

theorem Step.descends (hfollow : Descends tree follow) {line : LogicalLine}
    (h : Step follow path s line t) :
    (∀ target ∈ (targetOf? s.unclosed.isSome line.tokens).toList,
      ∃ y, tree.locate (path.beside target) = .ok y ∧ Acc (IncludedBy tree) y) ∧
    ∀ q ∈ t.draft.included, q ∈ s.draft.included ∨
      NotedFor tree path (targetOf? s.unclosed.isSome line.tokens).toList q := by
  cases h with
  | @inclusion draft final line target hline hinto =>
      have htarget : (targetOf? false line.tokens).toList = [target] := by simp [targetOf?, hline]
      obtain ⟨y, hy, hacc, hincluded⟩ := hfollow _ _ _ hinto
      refine ⟨?_, fun q hq => ?_⟩
      · intro other hother
        obtain rfl := List.mem_singleton.mp (htarget ▸ hother)
        exact ⟨y, hy, hacc⟩
      · rcases hincluded q hq with hbefore | ⟨z, hz, hbelow⟩
        · rcases List.mem_append.mp hbefore with hbefore | hitself
          · exact .inl hbefore
          · obtain rfl := List.mem_singleton.mp hitself
            exact .inr ⟨target, htarget ▸ List.mem_singleton_self target, y, y, hy, hy, .refl⟩
        · exact .inr ⟨target, htarget ▸ List.mem_singleton_self target, y, z, hy, hz,
            hbelow.to_reflTransGen⟩
  | close hline | body hline | short hline | long hline | command hline =>
      refine ⟨fun target htarget => ?_, fun q hq => .inl hq⟩
      simp [targetOf?, *] at htarget

theorem Steps.descends (hfollow : Descends tree follow) {read : List LogicalLine}
    (h : Steps follow path s read t) :
    (∀ target ∈ targets s.unclosed.isSome (read.map LogicalLine.tokens),
      ∃ y, tree.locate (path.beside target) = .ok y ∧ Acc (IncludedBy tree) y) ∧
    ∀ q ∈ t.draft.included, q ∈ s.draft.included ∨
      NotedFor tree path (targets s.unclosed.isSome (read.map LogicalLine.tokens)) q := by
  induction h with
  | nil => exact ⟨fun _ h => absurd h List.not_mem_nil, fun _ => .inl⟩
  | cons hstep _ ih =>
      obtain ⟨hends, hnoted⟩ := hstep.descends hfollow
      rw [hstep.isSome_unclosed] at ih
      obtain ⟨hends', hnoted'⟩ := ih
      rw [List.map_cons, targets]
      refine ⟨fun target htarget => ?_, fun q hq => ?_⟩
      · rcases List.mem_append.mp htarget with htarget | htarget
        · exact hends target htarget
        · exact hends' target htarget
      · rcases hnoted' q hq with hmiddle | ⟨target, htarget, hplaces⟩
        · rcases hnoted q hmiddle with hbefore | ⟨target, htarget, hplaces⟩
          · exact .inl hbefore
          · exact .inr ⟨target, List.mem_append_left _ htarget, hplaces⟩
        · exact .inr ⟨target, List.mem_append_right _ htarget, hplaces⟩

end Progress

theorem readText_congr_place (h : tree.locate q = tree.locate path) :
    tree.readText q = tree.readText path := by
  rw [FileTree.readText, FileTree.readText, FileTree.read, FileTree.read, FileTree.node,
    FileTree.node, h]

theorem exists_place_of_readText {text : String} (h : tree.readText path = .ok text) :
    ∃ x node, tree.locate path = .ok x ∧ tree.at? x = some node ∧ node ≠ .directory := by
  obtain ⟨bytes, hread, -⟩ := bind_eq_ok_iff.mp h
  obtain ⟨node, hnode, hcontent⟩ := bind_eq_ok_iff.mp hread
  obtain ⟨x, hx, hat⟩ := bind_eq_ok_iff.mp hnode
  refine ⟨x, node, hx, ?_, ?_⟩
  · rw [FileTree.nodeAt] at hat
    split at hat
    · cases hat
    · cases hat
      assumption
  · rintro rfl
    cases hcontent

theorem descends_readFile (hgrounded : tree.Grounded) (levels : Nat) (outer : List Path) :
    Descends tree (Draft.readFile tree levels outer) := by
  induction levels generalizing outer with
  | zero => exact fun path d final h => absurd h readFile_zero_ne_ok
  | succ levels ih =>
      intro path d final h
      obtain ⟨-, text, read, htext, hread, hsteps⟩ := readFile_succ_eq_ok_iff.mp h
      obtain ⟨x, node, hx, hnode, hfile⟩ := exists_place_of_readText htext
      have hnondirectory : tree.at? x ≠ some .directory := by
        rw [hnode]
        exact fun h => hfile (Option.some.inj h)
      obtain ⟨hends, hnoted⟩ := hsteps.descends (ih (path :: outer))
      refine ⟨x, hx, .intro x ?_, fun q hq => ?_⟩
      · -- by another path the file has the same text, and includes files of the same places
        rintro y ⟨other, text', read', target, hother, htext', hread', htarget, hy⟩
        cases htext.symm.trans ((readText_congr_place (hx.trans hother.symm)).trans htext')
        cases hread.symm.trans hread'
        obtain ⟨z, hz, hacc⟩ := hends target htarget
        rwa [hgrounded.locate_beside_congr hother hx hnondirectory hy hz]
      · rcases hnoted q hq with hbefore | ⟨target, htarget, y, z, hy, hz, hbelow⟩
        · exact .inl hbefore
        · exact .inr ⟨z, hz, .tail' hbelow ⟨path, text, read, target, hx, htext, hread, htarget, hy⟩⟩

theorem not_rel_self_of_acc {α : Type} {r : α → α → Prop} {a : α} (h : Acc r a) : ¬r a a := by
  induction h with
  | intro b _ ih => exact fun hb => ih b hb hb

namespace Document

variable {document : Document}

/-- A file that can be read is not among those that it includes, by whatever path. -/
theorem locate_ne_of_mem_included (hgrounded : tree.Grounded) (h : ofFile tree path = .ok document)
    (hq : q ∈ document.included) : tree.locate q ≠ tree.locate path := by
  obtain ⟨draft, hdraft, hfinish⟩ := bind_eq_ok_iff.mp h
  obtain ⟨x, hx, hacc, hincluded⟩ := descends_readFile hgrounded maxIncludeDepth [] _ _ _ hdraft
  rw [of_finish_eq_ok hfinish] at hq
  rcases hincluded q hq with hnone | ⟨y, hy, hbelow⟩
  · exact absurd hnone List.not_mem_nil
  · intro hsame
    rw [hy, hx] at hsame
    cases hsame
    exact not_rel_self_of_acc hacc.transGen hbelow

end Document

end DeviceLab.CommandFile
