import DeviceLab.Proofs.CommandFile.Macros
import DeviceLab.Proofs.CommandFile.Nesting
import DeviceLab.Proofs.CommandFile.Passages

/-!
Including a file in place.

An inclusion stands for the text of the included file: put in its place, the text is read alike.
-/

namespace DeviceLab.CommandFile

open Text

/-- Whether two drafts say the same, be it on other lines and in other files. -/
structure Draft.Alike (d e : Draft) : Prop where
  macros : e.macros = d.macros
  args : e.entries.map Entry.args = d.entries.map Entry.args

/-- Whether two long macros say the same so far. -/
structure OpenMacro.Alike (m n : OpenMacro) : Prop where
  name : n.name = m.name
  bodies : n.bodies = m.bodies

/-- Whether two readings have come equally far. -/
structure Progress.Alike (s t : Progress) : Prop where
  draft : s.draft.Alike t.draft
  unclosed : Option.Rel OpenMacro.Alike s.unclosed t.unclosed

/-- Whether each of `files` that includes none but these says the same under `follow'` as under
`follow`. -/
def FollowsAlike (files : List Path) (follow follow' : Path → Draft → Except Failure Draft) : Prop :=
  ∀ target d after e, follow target d = .ok after → target ∈ files → after.included ⊆ files →
    d.Alike e → ∃ after', follow' target e = .ok after' ∧ after.Alike after'

variable {tree other : FileTree} {files : List Path}
  {follow follow' : Path → Draft → Except Failure Draft} {path path' : Path} {s s' t : Progress}

namespace Progress

theorem Step.exists_alike (hfollows : Follows tree tree follow follow)
    (halike : FollowsAlike files follow follow')
    (hbeside : ∀ target, path'.beside target = path.beside target) {line line' : LogicalLine}
    (htokens : line'.tokens = line.tokens) (h : Step follow path s line t)
    (hfiles : t.draft.included ⊆ files) (hs : s.Alike s') :
    ∃ t', Step follow' path' s' line' t' ∧ t.Alike t' := by
  obtain ⟨e, unclosed⟩ := s'
  obtain ⟨hdraft, hunclosed⟩ := hs
  cases h with
  | close hline =>
      cases hunclosed with
      | some hopen =>
          refine ⟨_, .close (htokens.trans hline), ⟨?_, hdraft.args⟩, .none⟩
          rw [hdraft.macros, hopen.name, hopen.bodies]
  | body hline =>
      cases hunclosed with
      | some hopen =>
          refine ⟨_, .body (htokens ▸ hline), hdraft, .some ⟨hopen.name, ?_⟩⟩
          rw [hopen.bodies, htokens]
  | short hline =>
      cases hunclosed
      refine ⟨_, .short (htokens ▸ hline), ⟨?_, hdraft.args⟩, .none⟩
      rw [hdraft.macros]
  | long hline =>
      cases hunclosed
      exact ⟨_, .long (htokens ▸ hline), hdraft, .some ⟨rfl, rfl⟩⟩
  | @inclusion draft final line target hline hfollow =>
      cases hunclosed
      have htarget : path.beside target ∈ files := hfiles (by
        obtain ⟨reported, htraces⟩ := hfollows _ _ _ hfollow
        rw [htraces.included]
        simp)
      obtain ⟨final', hfollow', hfinal⟩ := halike _ _ _
        { e with included := e.included ++ [path.beside target] } hfollow htarget hfiles
        ⟨hdraft.macros, hdraft.args⟩
      rw [← hbeside] at hfollow'
      exact ⟨_, .inclusion (htokens ▸ hline) hfollow', hfinal, .none⟩
  | command hline =>
      cases hunclosed
      refine ⟨_, .command (htokens ▸ hline), ⟨hdraft.macros, ?_⟩, .none⟩
      simp [hdraft.args]

theorem Steps.exists_alike (hfollows : Follows tree tree follow follow)
    (halike : FollowsAlike files follow follow')
    (hbeside : ∀ target, path'.beside target = path.beside target) {read read' : List LogicalLine}
    (htokens : read'.map LogicalLine.tokens = read.map LogicalLine.tokens)
    (h : Steps follow path s read t) (hfiles : t.draft.included ⊆ files) (hs : s.Alike s') :
    ∃ t', Steps follow' path' s' read' t' ∧ t.Alike t' := by
  induction h generalizing read' s' with
  | nil =>
      rw [List.map_eq_nil_iff.mp htokens]
      exact ⟨s', .nil, hs⟩
  | cons hstep hothers ih =>
      cases read' with
      | nil => cases htokens
      | cons line' rest' =>
          obtain ⟨hline, hrest⟩ := List.cons.inj htokens
          have hmiddle := List.Subset.trans (hothers.included_subset hfollows) hfiles
          obtain ⟨middle', hstep', hmiddles⟩ :=
            hstep.exists_alike hfollows halike hbeside hline hmiddle hs
          obtain ⟨t', hothers', ht⟩ := ih hrest hfiles hmiddles
          exact ⟨t', .cons hstep' hothers', ht⟩

end Progress

/-- Where the files have the same texts, they say the same with more levels and for fewer files. -/
theorem followsAlike_readFile (hsame : ∀ p ∈ files, other.readText p = tree.readText p)
    {levels levels' : Nat} (hlevels : levels ≤ levels') {outer outer' : List Path}
    (houter : outer' ⊆ outer) :
    FollowsAlike files (Draft.readFile tree levels outer) (Draft.readFile other levels' outer') := by
  induction levels generalizing levels' outer outer' with
  | zero => exact fun path d final e h => absurd h readFile_zero_ne_ok
  | succ levels ih =>
      intro path d final e h hpath hfiles hde
      obtain ⟨more, rfl⟩ := Nat.exists_eq_add_of_le hlevels
      rw [Nat.add_right_comm]
      obtain ⟨hcycle, text, read, htext, hread, hsteps⟩ := readFile_succ_eq_ok_iff.mp h
      have hcycle' : outer'.any (·.same path) = false := by
        rw [List.any_eq_false] at hcycle ⊢
        exact fun p hp => hcycle p (houter hp)
      have halike := ih (Nat.le_add_right levels more) (List.cons_subset_cons path houter)
      have hstart : Progress.Alike ⟨d, none⟩ ⟨e, none⟩ := ⟨hde, .none⟩
      obtain ⟨⟨final', _⟩, hsteps', hfinal, ⟨⟩⟩ :=
        hsteps.exists_alike (exists_traces_readFile tree tree levels (path :: outer)) halike
          (fun _ => rfl) rfl hfiles hstart
      rw [← hsame path hpath] at htext
      exact ⟨final', readFile_succ_eq_ok_iff.mpr ⟨hcycle', text, read, htext, hread, hsteps'⟩,
        hfinal⟩

namespace Progress

theorem Steps.exists_around {before after : List LogicalLine} {number : Nat} {name : String}
    {d : Draft} (h : Steps follow path ⟨d, none⟩ (before ++ ⟨number, ["INCLUDE", name]⟩ :: after) t)
    (houtside : (before.map LogicalLine.tokens).foldl isInside false = false) :
    ∃ middle final, Steps follow path ⟨d, none⟩ before ⟨middle, none⟩ ∧
      follow (path.beside ⟨name⟩)
        { middle with included := middle.included ++ [path.beside ⟨name⟩] } = .ok final ∧
      Steps follow path ⟨final, none⟩ after t := by
  obtain ⟨⟨middle, unclosed⟩, hbefore, _ | ⟨hinclusion, hafter⟩⟩ := steps_append_iff.mp h
  have hunclosed : unclosed = none := by
    have hinside := hbefore.isSome_unclosed.trans houtside
    exact Option.isNone_iff_eq_none.mp (Option.isSome_eq_false_iff.mp hinside)
  subst hunclosed
  cases hinclusion with
  | inclusion hline hfollow =>
      cases hline
      exact ⟨middle, _, hbefore, hfollow, hafter⟩
  | short hline | long hline | command hline => cases hline

end Progress

theorem exists_steps_in_place {before inner after before' inner' after' : List LogicalLine}
    {levels : Nat} {outer : List Path} {name : String} {d e middle final : Draft} {included : String}
    (hbefore : Progress.Steps (Draft.readFile tree levels outer) path ⟨d, none⟩ before
      ⟨middle, none⟩)
    (hincluded : Draft.readFile tree levels outer (path.beside ⟨name⟩)
      { middle with included := middle.included ++ [path.beside ⟨name⟩] } = .ok final)
    (hafter : Progress.Steps (Draft.readFile tree levels outer) path ⟨final, none⟩ after t)
    (hname : Path.IsName name) (htext : tree.readText (path.beside ⟨name⟩) = .ok included)
    (hinner : logicalLines included.toList = .ok inner)
    (hsame : ∀ p ∈ t.draft.included, other.readText p = tree.readText p) (hde : d.Alike e)
    (hbefore' : before'.map LogicalLine.tokens = before.map LogicalLine.tokens)
    (hinner' : inner'.map LogicalLine.tokens = inner.map LogicalLine.tokens)
    (hafter' : after'.map LogicalLine.tokens = after.map LogicalLine.tokens) :
    ∃ t', Progress.Steps (Draft.readFile other levels outer) path ⟨e, none⟩
      (before' ++ (inner' ++ after')) t' ∧ t.Alike t' := by
  cases levels with
  | zero => exact absurd hincluded readFile_zero_ne_ok
  | succ levels =>
      obtain ⟨-, _, read, htext', hread, hlines⟩ := readFile_succ_eq_ok_iff.mp hincluded
      cases htext.symm.trans htext'
      cases hinner.symm.trans hread
      have hfollows := exists_traces_readFile tree tree (levels + 1) outer
      have hdeeper := exists_traces_readFile tree tree levels (path.beside ⟨name⟩ :: outer)
      have hlast := hafter.included_subset hfollows
      have hfirst := List.Subset.trans (hlines.included_subset hdeeper) hlast
      -- Around the inclusion the readings go on at the same depth. The lines in its place are read
      -- one level further up, and with one file less that must not come up again.
      have halike := followsAlike_readFile hsame (Nat.le_refl (levels + 1)) (List.Subset.refl outer)
      have halike' := followsAlike_readFile hsame (Nat.le_succ levels)
        (List.subset_cons_self (path.beside ⟨name⟩) outer)
      have hstart : Progress.Alike ⟨d, none⟩ ⟨e, none⟩ := ⟨hde, .none⟩
      obtain ⟨⟨middle', _⟩, hfront, hmiddle, ⟨⟩⟩ := hbefore.exists_alike hfollows halike
        (fun _ => rfl) hbefore' (List.Subset.trans (List.subset_append_left _ _) hfirst) hstart
      have hplaced : Progress.Alike
          ⟨{ middle with included := middle.included ++ [path.beside ⟨name⟩] }, none⟩
          ⟨middle', none⟩ := ⟨⟨hmiddle.macros, hmiddle.args⟩, .none⟩
      obtain ⟨⟨final', _⟩, hplace, hfinal, ⟨⟩⟩ := hlines.exists_alike hdeeper halike'
        (fun target => (path.beside_beside hname target).symm) hinner' hlast hplaced
      have hresumed : Progress.Alike ⟨final, none⟩ ⟨final', none⟩ := ⟨hfinal, .none⟩
      obtain ⟨t', hback, ht⟩ := hafter.exists_alike hfollows halike (fun _ => rfl) hafter'
        (fun _ => id) hresumed
      exact ⟨t', Progress.steps_append_iff.mpr ⟨_, hfront,
        Progress.steps_append_iff.mpr ⟨_, hplace, hback⟩⟩, ht⟩

theorem collect_expand_eq_ok_iff {macros : Macros} {entries : List Entry}
    {argss : List (List String)} :
    collect (expandAt macros 0) (entries.map Entry.args) = .ok argss ↔
      ∃ read, collect (Entry.expand macros) entries = .ok read ∧ read.map Entry.args = argss := by
  induction entries generalizing argss with
  | nil => simp [collect, eq_comm]
  | cons entry rest ih =>
      simp only [List.map_cons, collect, bind_eq_ok_iff, ih]
      rw [Entry.expand]
      cases expandAt macros 0 entry.args with
      | error fault => simp
      | ok results =>
          let found : List Entry := results.map fun args => { entry with args }
          have hfound : found.map Entry.args = results := by simp [found, Function.comp_def]
          constructor
          · rintro ⟨_, ⟨⟩, _, ⟨read, hread, rfl⟩, ⟨⟩⟩
            exact ⟨found ++ read, ⟨found, rfl, read, hread, rfl⟩, by rw [List.map_append, hfound]⟩
          · rintro ⟨_, ⟨_, ⟨⟩, read, hread, ⟨⟩⟩, rfl⟩
            refine ⟨results, rfl, _, ⟨read, hread, rfl⟩, ?_⟩
            rw [List.map_append, hfound]
            rfl

theorem Draft.Alike.finish {d e : Draft} {document : Document} (hde : d.Alike e)
    (h : d.finish = .ok document) :
    ∃ document', e.finish = .ok document' ∧
      document'.entries.map Entry.args = document.entries.map Entry.args := by
  obtain ⟨read, hread, h⟩ := bind_eq_ok_iff.mp h
  cases h
  have hargs := collect_expand_eq_ok_iff.mpr ⟨read, hread, rfl⟩
  rw [← hde.macros, ← hde.args] at hargs
  obtain ⟨read', hread', hsame⟩ := collect_expand_eq_ok_iff.mp hargs
  exact ⟨⟨read', e.included⟩, bind_eq_ok_iff.mpr ⟨read', hread', rfl⟩, hsame⟩

/-- A passage that includes `target`, outside of long macros. -/
structure Inclusion (text : List Char) (target : String) extends
    Passage text ["INCLUDE", target] where
  outside : ∀ read, logicalLines front = .ok read →
    (read.map LogicalLine.tokens).foldl Progress.isInside false = false

theorem Inclusion.exists_of_logicalLines {text : List Char} {name : String}
    {before after : List LogicalLine} {number : Nat}
    (h : logicalLines text = .ok (before ++ ⟨number, ["INCLUDE", name]⟩ :: after))
    (houtside : (before.map LogicalLine.tokens).foldl Progress.isInside false = false) :
    ∃ i : Inclusion text name, logicalLines i.front = .ok before := by
  obtain ⟨p, hp⟩ := exists_passage h
  refine ⟨⟨p, fun read hread => ?_⟩, hp⟩
  cases hp.symm.trans hread
  exact houtside

namespace Document

variable {document : Document} {text : List Char} {name included : String}

/-- An inclusion can be replaced by the text that it includes, where the other files stay what they
are. -/
theorem exists_ofFile_replaced (i : Inclusion text name) (hname : Path.IsName name)
    (h : ofFile tree path = .ok document)
    (htext : tree.readText path = .ok (String.ofList text))
    (hincluded : tree.readText (path.beside ⟨name⟩) = .ok included)
    (hwhole : continues included.toList = false)
    (hreplaced : other.readText path = .ok (String.ofList (i.replaced included.toList)))
    (hsame : ∀ p ∈ document.included, other.readText p = tree.readText p) :
    ∃ document', ofFile other path = .ok document' ∧
      document'.entries.map Entry.args = document.entries.map Entry.args := by
  obtain ⟨draft, hdraft, hfinish⟩ := bind_eq_ok_iff.mp h
  rw [of_finish_eq_ok hfinish] at hsame
  obtain ⟨levels, hlevels⟩ : ∃ levels, maxIncludeDepth = levels + 1 := ⟨_, rfl⟩
  rw [hlevels] at hdraft
  obtain ⟨hcycle, _, read, htext', hread, hsteps⟩ := readFile_succ_eq_ok_iff.mp hdraft
  cases htext.symm.trans htext'
  rw [String.toList_ofList] at hread
  obtain ⟨before, number, after, k, hbefore, hafter, rfl⟩ := i.logicalLines_eq_ok hread
  obtain ⟨middle, final, hfront, hfollow, hback⟩ := hsteps.exists_around (i.outside before hbefore)
  obtain ⟨_, inner, htext', hinner⟩ := exists_lines_of_readFile hfollow
  cases hincluded.symm.trans htext'
  obtain ⟨l, m, hread'⟩ := i.logicalLines_replaced hwhole hbefore hinner hafter
  obtain ⟨⟨draft', _⟩, hsteps', hdrafts, ⟨⟩⟩ := exists_steps_in_place hfront hfollow hback hname
    hincluded hinner hsame (⟨rfl, rfl⟩ : Draft.Alike {} {}) rfl (map_tokens_later l inner)
    ((map_tokens_later m after).trans (map_tokens_later k after).symm)
  have hdraft' : Draft.readFile other maxIncludeDepth [] path {} = .ok draft' := by
    rw [← String.toList_ofList (l := i.replaced included.toList)] at hread'
    rw [hlevels]
    exact readFile_succ_eq_ok_iff.mpr ⟨hcycle, _, _, hreplaced, hread', hsteps'⟩
  obtain ⟨document', hfinish', hargs⟩ := hdrafts.finish hfinish
  exact ⟨document', bind_eq_ok_iff.mpr ⟨draft', hdraft', hfinish'⟩, hargs⟩

/-- Inclusion is textual.  Each inclusion of a file that can be read, outside of long macros, is on a
passage of its own, and this can be replaced by the text of the included file, if that one is in the
same directory and its last line does not go on: the commands stay the same.  They do so wherever
the text is read instead and the included files have the texts that they had, and hence where the
file is written anew. -/
theorem inclusion_in_place (hname : Path.IsName name) (h : ofFile tree path = .ok document)
    (htext : tree.readText path = .ok (String.ofList text))
    (hincluded : tree.readText (path.beside ⟨name⟩) = .ok included)
    (hwhole : continues included.toList = false) :
    (∀ before number after,
      logicalLines text = .ok (before ++ ⟨number, ["INCLUDE", name]⟩ :: after) →
      (before.map LogicalLine.tokens).foldl Progress.isInside false = false →
      ∃ i : Inclusion text name, logicalLines i.front = .ok before) ∧
    ∀ i : Inclusion text name,
      let replaced := String.ofList (i.replaced included.toList)
      (∀ other : FileTree, other.readText path = .ok replaced →
        (∀ p ∈ document.included, other.readText p = tree.readText p) →
        ∃ document', ofFile other path = .ok document' ∧
          document'.entries.map Entry.args = document.entries.map Entry.args) ∧
      (∀ place, tree.Grounded → tree.locate path = .ok place →
        ∃ document', ofFile (tree.put place (.file (encode replaced))) path = .ok document' ∧
          document'.entries.map Entry.args = document.entries.map Entry.args) := by
  refine ⟨fun before number after => Inclusion.exists_of_logicalLines, fun i => ?_⟩
  refine ⟨fun other => exists_ofFile_replaced i hname h htext hincluded hwhole, ?_⟩
  intro place hgrounded hplace
  obtain ⟨x, node, hx, hnode, hfile⟩ := exists_place_of_readText htext
  cases hplace.symm.trans hx
  refine exists_ofFile_replaced i hname h htext hincluded hwhole ?_ fun p hp => ?_
  · exact readText_of_read (FileTree.read_put_self hnode hfile hx)
  · have hother := locate_ne_of_mem_included hgrounded h hp
    rw [hx] at hother
    exact readText_congr (FileTree.read_put_of_ne hnode hfile hother)

theorem inclusion_in_place_of_nested_files :
    let front := "MACRO s = h()\nLONG MACRO b\nINCLUDE x\nEND MACRO\n".toList
    let line := "INCLUDE \\\n a # in place\n".toList
    let back := "b() t()\n".toList
    let included := "MACRO h = S\nINCLUDE c\ns()"
    let replaced := String.ofList (front ++ (included.toList ++ ['\n']) ++ back)
    let path : Path := ⟨"cmds"⟩
    let workplace := Host.usual.workplace
    let place := workplace ++ ["cmds"]
    let others := [(workplace ++ ["a"], FileNode.file (encode included)),
      (workplace ++ ["c"], .file (encode "MACRO t = once\n"))]
    let tree : FileTree := {
      nodes := (place, .file (encode (String.ofList (front ++ line ++ back)))) :: others }
    let other : FileTree := {
      nodes := (place, .file (encode replaced)) :: (workplace ++ ["x"], .directory) :: others }
    ∃ document, ofFile tree path = .ok document ∧
      (other.readText path = .ok replaced ∧
        (∀ p ∈ document.included, other.readText p = tree.readText p) ∧
        ∃ document', ofFile other path = .ok document' ∧
          document'.entries.map Entry.args = document.entries.map Entry.args) ∧
      tree.Grounded ∧ tree.locate path = .ok place ∧
      ∃ document', ofFile (tree.put place (.file (encode replaced))) path = .ok document' ∧
        document'.entries.map Entry.args = document.entries.map Entry.args := by
  intro front line back included replaced path workplace place others tree other
  let document : Document := {
    entries := [⟨["S"], ⟨"a"⟩, 3⟩, ⟨["INCLUDE", "x", "once"], path, 7⟩]
    included := [⟨"a"⟩, ⟨"c"⟩] }
  have hfront : logicalLines front = .ok [⟨1, ["MACRO", "s", "=", "h()"]⟩,
      ⟨2, ["LONG", "MACRO", "b"]⟩, ⟨3, ["INCLUDE", "x"]⟩, ⟨4, ["END", "MACRO"]⟩] := by
    decide +kernel
  let i : Inclusion (front ++ line ++ back) "a" := {
    front, line, back
    text_eq := rfl
    complete := ⟨.inr (by decide +kernel), by decide +kernel⟩
    outside := fun read hread => by
      cases hfront.symm.trans hread
      decide +kernel
    holds := ⟨1, by decide +kernel⟩
    ended := .inl ⟨.inr (by decide +kernel), by decide +kernel⟩ }
  have hname : Path.IsName "a" := ⟨by decide +kernel, by decide +kernel⟩
  have h : ofFile tree path = .ok document := by decide +kernel
  have htext : tree.readText path = .ok (String.ofList (front ++ line ++ back)) := by decide +kernel
  have hincluded : tree.readText (path.beside ⟨"a"⟩) = .ok included := by decide +kernel
  have hwhole : continues included.toList = false := by decide +kernel
  have hended : withLineEnd included.toList = included.toList ++ ['\n'] := by decide +kernel
  have hreplaced : String.ofList (i.replaced included.toList) = replaced := by
    change String.ofList (front ++ withLineEnd included.toList ++ back) = replaced
    rw [hended]
  have hread : other.readText path = .ok replaced := by decide +kernel
  have hsame : ∀ p ∈ document.included, other.readText p = tree.readText p := by decide +kernel
  have hgrounded : tree.Grounded := by decide +kernel
  have hplace : tree.locate path = .ok place := by decide +kernel
  clear_value i document other tree replaced
  obtain ⟨helsewhere, hanew⟩ := (inclusion_in_place hname h htext hincluded hwhole).2 i
  rw [hreplaced] at helsewhere hanew
  exact ⟨document, h, ⟨hread, hsame, helsewhere other hread hsame⟩, hgrounded, hplace,
    hanew place hgrounded hplace⟩

end Document

end DeviceLab.CommandFile
