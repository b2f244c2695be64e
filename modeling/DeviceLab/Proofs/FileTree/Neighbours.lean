import DeviceLab.Path
import Mathlib.Data.List.DropRight

namespace DeviceLab.Path

/-! ### Pieces -/

theorem piecesFrom_append_slash (current front back : List Char) :
    piecesFrom current (front ++ '/' :: back) = piecesFrom current front ++ pieces back := by
  induction front generalizing current with
  | nil => rfl
  | cons c front ih =>
      by_cases hc : c = '/'
      · subst hc
        exact congrArg _ (ih [])
      · rw [List.cons_append, piecesFrom.eq_3 _ _ _ hc, piecesFrom.eq_3 _ _ _ hc, ih]

theorem pieces_append_slash (front back : List Char) :
    pieces (front ++ '/' :: back) = pieces front ++ pieces back :=
  piecesFrom_append_slash [] front back

theorem piecesFrom_of_unbroken {cs : List Char} (h : '/' ∉ cs) (current : List Char) :
    piecesFrom current cs = [String.ofList (current.reverse ++ cs)] := by
  induction cs generalizing current with
  | nil => rw [List.append_nil]; rfl
  | cons c cs ih =>
      obtain ⟨hc, hcs⟩ := not_or.mp (mt List.mem_cons.mpr h)
      rw [piecesFrom.eq_3 _ _ _ (Ne.symm hc), ih hcs, List.reverse_cons, List.append_assoc,
        List.singleton_append]

theorem pieces_of_unbroken {name : String} (h : '/' ∉ name.toList) : pieces name.toList = [name] := by
  rw [pieces, piecesFrom_of_unbroken h, List.reverse_nil, List.nil_append, String.ofList_toList]

theorem piecesFrom_ne_nil (current cs : List Char) : piecesFrom current cs ≠ [] := by
  induction cs generalizing current with
  | nil => exact List.cons_ne_nil _ _
  | cons c cs ih =>
      by_cases hc : c = '/'
      · subst hc
        exact List.cons_ne_nil _ _
      · rw [piecesFrom.eq_3 _ _ _ hc]
        exact ih _

theorem pieces_ne_nil (cs : List Char) : pieces cs ≠ [] :=
  piecesFrom_ne_nil [] cs

theorem slash_not_mem_of_mem_piecesFrom {current cs : List Char} (hcurrent : '/' ∉ current)
    {piece : String} (h : piece ∈ piecesFrom current cs) : '/' ∉ piece.toList := by
  induction cs generalizing current with
  | nil =>
      rw [List.mem_singleton.mp h]
      simpa using hcurrent
  | cons c cs ih =>
      by_cases hc : c = '/'
      · subst hc
        rcases List.mem_cons.mp h with rfl | h
        · simpa using hcurrent
        · exact ih List.not_mem_nil h
      · rw [piecesFrom.eq_3 _ _ _ hc] at h
        refine ih ?_ h
        simp [hcurrent, Ne.symm hc]

theorem slash_not_mem_of_mem_pieces {cs : List Char} {piece : String} (h : piece ∈ pieces cs) :
    '/' ∉ piece.toList :=
  slash_not_mem_of_mem_piecesFrom List.not_mem_nil h

theorem toList_intercalate_append {front back : List String} (hfront : front ≠ [])
    (hback : back ≠ []) :
    ("/".intercalate (front ++ back)).toList =
      ("/".intercalate front).toList ++ '/' :: ("/".intercalate back).toList := by
  obtain ⟨first, rest, rfl⟩ := List.exists_cons_of_ne_nil hback
  simp only [String.toList_intercalate, List.map_append, List.map_cons]
  induction front with
  | nil => exact absurd rfl hfront
  | cons piece front ih =>
      cases front with
      | nil => simp [List.intercalate_cons_cons]
      | cons next front =>
          simp only [List.map_cons, List.cons_append, List.intercalate_cons_cons] at ih ⊢
          rw [ih (List.cons_ne_nil _ _)]
          simp

theorem pieces_intercalate {ps : List String} (hne : ps ≠ [])
    (hunbroken : ∀ piece ∈ ps, '/' ∉ piece.toList) : pieces ("/".intercalate ps).toList = ps := by
  induction ps with
  | nil => exact absurd rfl hne
  | cons piece rest ih =>
      have hpiece := pieces_of_unbroken (hunbroken piece List.mem_cons_self)
      by_cases hrest : rest = []
      · subst hrest
        simpa [String.toList_intercalate] using hpiece
      · have hothers := ih hrest fun other hother => hunbroken other (List.mem_cons_of_mem _ hother)
        rw [← List.singleton_append, toList_intercalate_append (List.cons_ne_nil piece []) hrest,
          pieces_append_slash, hothers]
        refine congrArg (· ++ rest) ?_
        simpa [String.toList_intercalate] using hpiece

theorem toList_intercalate_piecesFrom (current cs : List Char) :
    ("/".intercalate (piecesFrom current cs)).toList = current.reverse ++ cs := by
  induction cs generalizing current with
  | nil => simp [piecesFrom]
  | cons c cs ih =>
      by_cases hc : c = '/'
      · subst hc
        change ("/".intercalate ([String.ofList current.reverse] ++ piecesFrom [] cs)).toList = _
        rw [toList_intercalate_append (List.cons_ne_nil _ _) (piecesFrom_ne_nil _ _), ih]
        simp
      · rw [piecesFrom.eq_3 _ _ _ hc, ih]
        simp

theorem toList_intercalate_pieces (cs : List Char) : ("/".intercalate (pieces cs)).toList = cs :=
  toList_intercalate_piecesFrom [] cs

theorem exists_toList_intercalate_cons (piece : String) (rest : List String) :
    ∃ tail, (tail = [] ∨ ∃ more, tail = '/' :: more) ∧
      ("/".intercalate (piece :: rest)).toList = piece.toList ++ tail := by
  by_cases hrest : rest = []
  · subst hrest
    exact ⟨[], .inl rfl, by simp⟩
  · refine ⟨'/' :: ("/".intercalate rest).toList, .inr ⟨_, rfl⟩, ?_⟩
    rw [← List.singleton_append, toList_intercalate_append (List.cons_ne_nil piece []) hrest]
    simp

/-! ### Leads -/

/-- The path of some pieces after a lead. -/
def ofPieces (lead : Option Component) (ps : List String) : Path :=
  ⟨(lead.map Component.lead).getD "" ++ "/".intercalate ps⟩

/-- Which pieces a path with a lead can have. -/
inductive Leads : Option Component → List String → Prop
  | root {ps : List String} (hne : ps ≠ []) : Leads (some .root) ps
  | current {ps : List String} : Leads (some .current) ("" :: ps)
  | relative {piece : String} {ps : List String} (hempty : piece ≠ "") (hdot : piece ≠ ".") :
      Leads none (piece :: ps)

theorem Leads.ne_nil {lead : Option Component} {ps : List String} (h : Leads lead ps) :
    ps ≠ [] := by
  cases h with
  | root hne => exact hne
  | current => exact List.cons_ne_nil _ _
  | relative => exact List.cons_ne_nil _ _

theorem Leads.of_head? {lead : Option Component} {ps qs : List String} (h : Leads lead ps)
    (hhead : qs.head? = ps.head?) : Leads lead qs := by
  cases h with
  | root hne =>
      refine .root ?_
      rintro rfl
      exact hne (List.head?_eq_none_iff.mp hhead.symm)
  | current =>
      obtain ⟨rest, rfl⟩ := List.head?_eq_some_iff.mp hhead
      exact .current
  | relative hempty hdot =>
      obtain ⟨rest, rfl⟩ := List.head?_eq_some_iff.mp hhead
      exact .relative hempty hdot

theorem split_ofPieces {lead : Option Component} {ps : List String} (h : Leads lead ps)
    (hunbroken : ∀ piece ∈ ps, '/' ∉ piece.toList) :
    (ofPieces lead ps).split = (lead, ("/".intercalate ps).toList) := by
  cases h with
  | root hne => simp [split, ofPieces, Component.lead]
  | @current ps =>
      obtain ⟨tail, rfl | ⟨more, rfl⟩, htail⟩ := exists_toList_intercalate_cons "" ps
      · simp [split, ofPieces, Component.lead, htail]
      · simp [split, ofPieces, Component.lead, htail]
  | @relative piece ps hempty hdot =>
      have hpiece := hunbroken piece List.mem_cons_self
      obtain ⟨tail, htail, htext⟩ := exists_toList_intercalate_cons piece ps
      have hchars : (ofPieces none (piece :: ps)).text.toList = piece.toList ++ tail := by
        simp [ofPieces, htext]
      obtain ⟨c, cs, hcs⟩ := List.exists_cons_of_ne_nil (mt String.toList_eq_nil_iff.mp hempty)
      have hslash : c ≠ '/' := fun heq => hpiece (by simp [hcs, heq])
      have hdots : c = '.' → ∃ d ds, cs = d :: ds ∧ d ≠ '/' := by
        rintro rfl
        cases cs with
        | nil => exact absurd (String.toList_injective hcs) hdot
        | cons d ds => exact ⟨d, ds, rfl, fun heq => hpiece (by simp [hcs, heq])⟩
      rw [split, hchars, htext, hcs, List.cons_append]
      split
      · rename_i heq
        exact absurd (List.cons.inj heq).1 hslash
      · rename_i heq
        obtain ⟨d, ds, rfl, -⟩ := hdots (List.cons.inj heq).1
        cases (List.cons.inj heq).2
      · rename_i heq
        obtain ⟨d, ds, rfl, hd⟩ := hdots (List.cons.inj heq).1
        exact absurd (List.cons.inj (List.cons.inj heq).2).1 hd
      · rfl

theorem leads_split {p : Path} (hp : p.text ≠ "") : Leads p.split.1 (pieces p.split.2) := by
  rw [split]
  split
  · exact .root (pieces_ne_nil _)
  · exact .current
  · exact .current
  · rename_i hroot hdot hcurrent
    dsimp only
    obtain ⟨piece, ps, hps⟩ := List.exists_cons_of_ne_nil (pieces_ne_nil p.text.toList)
    obtain ⟨tail, htail, htext⟩ := exists_toList_intercalate_cons piece ps
    rw [← hps, toList_intercalate_pieces] at htext
    rw [hps]
    refine .relative ?_ ?_
    · rintro rfl
      rcases htail with rfl | ⟨more, rfl⟩
      · exact hp (String.toList_eq_nil_iff.mp htext)
      · exact hroot more htext
    · rintro rfl
      rcases htail with rfl | ⟨more, rfl⟩
      · exact hdot htext
      · exact hcurrent more htext

/-- The pieces above the last one that stands for a component. -/
def above (ps : List String) : List String :=
  (dropBlankPieces (dropBlankPieces ps.reverse).tail).reverse

theorem above_prefix (ps : List String) : above ps <+: ps := by
  rw [above, ← List.reverse_suffix, List.reverse_reverse]
  exact ((List.dropWhile_suffix _).trans (List.tail_suffix _)).trans (List.dropWhile_suffix _)

theorem exists_blank_suffix (ps : List String) :
    ∃ blanks, ps = (dropBlankPieces ps.reverse).reverse ++ blanks ∧
      ∀ piece ∈ blanks, Component.ofPiece? piece = none := by
  refine ⟨(ps.reverse.takeWhile fun piece => (Component.ofPiece? piece).isNone).reverse, ?_, ?_⟩
  · rw [dropBlankPieces, ← List.reverse_append, List.takeWhile_append_dropWhile, List.reverse_reverse]
  · intro piece hpiece
    simpa using List.mem_takeWhile_imp (List.mem_reverse.mp hpiece)

theorem exists_last_piece {ps : List String} (h : dropBlankPieces ps.reverse ≠ []) :
    ∃ between last after, ps = above ps ++ (between ++ last :: after) ∧
      (∀ piece ∈ between, Component.ofPiece? piece = none) ∧ Component.ofPiece? last ≠ none ∧
      ∀ piece ∈ after, Component.ofPiece? piece = none := by
  obtain ⟨after, hafter, hblank⟩ := exists_blank_suffix ps
  obtain ⟨last, before, hlast⟩ := List.exists_cons_of_ne_nil h
  obtain ⟨between, hbetween, hblank'⟩ := exists_blank_suffix before.reverse
  refine ⟨between, last, after, ?_, hblank', ?_, hblank⟩
  · rw [above, hlast, List.tail_cons]
    rw [List.reverse_reverse] at hbetween
    rw [hlast, List.reverse_cons, hbetween] at hafter
    simpa using hafter
  · have hself : dropBlankPieces (last :: before) = last :: before := by
      rw [← hlast]
      exact List.dropWhile_idempotent _ _
    have hhead := List.dropWhile_eq_self_iff.mp hself (Nat.succ_pos _)
    rw [List.getElem_cons_zero] at hhead
    simpa using hhead

theorem parent?_eq {p : Path} (h : dropBlankPieces (pieces p.split.2).reverse ≠ []) :
    p.parent? = some (ofPieces p.split.1 (above (pieces p.split.2))) := by
  rw [parent?, above]
  obtain ⟨last, before, hlast⟩ := List.exists_cons_of_ne_nil h
  rw [hlast]
  rfl

/-- The lead and the pieces of a directory's path, of which the last one stands for a component. -/
structure IsDirectory (lead : Option Component) (kept : List String) : Prop where
  leads : ∃ more, Leads lead (kept ++ more)
  unbroken : ∀ piece ∈ kept, '/' ∉ piece.toList
  ended : dropBlankPieces kept.reverse = kept.reverse

theorem isDirectory_above {p : Path} (htext : p.text ≠ "") :
    IsDirectory p.split.1 (above (pieces p.split.2)) := by
  obtain ⟨more, hmore⟩ := above_prefix (pieces p.split.2)
  refine ⟨⟨more, ?_⟩, ?_, ?_⟩
  · rw [hmore]
    exact leads_split htext
  · intro piece hpiece
    exact slash_not_mem_of_mem_pieces (hmore ▸ List.mem_append_left more hpiece)
  · rw [above, List.reverse_reverse]
    exact List.dropWhile_idempotent _ _

theorem exists_isDirectory (p : Path) :
    ∃ lead kept, IsDirectory lead kept ∧ p.parent?.getD ⟨"."⟩ = ofPieces lead kept := by
  by_cases hblank : dropBlankPieces (pieces p.split.2).reverse = []
  · by_cases hlead : p.split.1 = some .current
    · refine ⟨none, [], ⟨⟨["a"], .relative (by decide) (by decide)⟩, by simp, rfl⟩, ?_⟩
      rw [parent?, hblank]
      dsimp only
      rw [if_pos hlead]
      rfl
    · refine ⟨some .current, [], ⟨⟨[""], .current⟩, by simp, rfl⟩, ?_⟩
      rw [parent?, hblank]
      dsimp only
      rw [if_neg hlead]
      rfl
  · have htext : p.text ≠ "" := by
      intro htext
      refine hblank ?_
      rw [split, htext]
      rfl
    refine ⟨p.split.1, above (pieces p.split.2), isDirectory_above htext, ?_⟩
    rw [parent?_eq hblank]
    rfl

/-- Pieces that others can follow: after a lone dot comes a slash. -/
def directory (lead : Option Component) (ps : List String) : List String :=
  if ps = [] ∧ lead = some .current then [""] else ps

theorem getLast?_intercalate (front : List String) {last : String} (hlast : last ≠ "") :
    ("/".intercalate (front ++ [last])).toList.getLast? = last.toList.getLast? := by
  obtain ⟨c, cs, hcs⟩ := List.exists_cons_of_ne_nil (mt String.toList_eq_nil_iff.mp hlast)
  by_cases hfront : front = []
  · subst hfront
    simp
  · rw [toList_intercalate_append hfront (List.cons_ne_nil last [])]
    simp [List.getLast?_append, hcs, List.getLast?_cons]

namespace IsDirectory

variable {lead : Option Component} {kept : List String} {target : Path}

theorem join_eq (h : IsDirectory lead kept) (htarget : target.isAbsolute = false) :
    (ofPieces lead kept).join target =
      ofPieces lead (directory lead kept ++ pieces target.text.toList) := by
  have htext : "/".intercalate (pieces target.text.toList) = target.text :=
    String.toList_injective (toList_intercalate_pieces _)
  obtain ⟨more, hlead⟩ := h.leads
  rw [join, if_neg (by simp [htarget])]
  -- Without any kept piece the lead alone stands before the target, and the text that is joined
  -- depends on it.
  by_cases hnil : kept = []
  · subst hnil
    cases hlead with
    | root => simp [ofPieces, directory, Component.lead, htext]
    | current =>
        have hslash : "/".intercalate ("" :: pieces target.text.toList) = "/" ++ target.text := by
          refine String.toList_injective ?_
          rw [← List.singleton_append, toList_intercalate_append (List.cons_ne_nil _ _)
            (pieces_ne_nil _), htext]
          simp
        have hdot : "./" ++ target.text = "." ++ ("/" ++ target.text) := by
          rw [← String.append_assoc]
          rfl
        simpa [ofPieces, directory, Component.lead, hslash] using hdot
    | relative => simp [ofPieces, directory, htext]
  · obtain ⟨front, last, rfl⟩ := (List.eq_nil_or_concat' kept).resolve_left hnil
    have hcounts : Component.ofPiece? last ≠ none := by
      simpa using List.dropWhile_eq_self_iff.mp h.ended (by simp)
    have hlast : last ≠ "" := fun heq => hcounts (heq ▸ rfl)
    obtain ⟨c, hc⟩ := Option.ne_none_iff_exists'.mp
      (mt List.getLast?_eq_none_iff.mp (mt String.toList_eq_nil_iff.mp hlast))
    have hslash : c ≠ '/' := by
      rintro rfl
      exact h.unbroken last (by simp) (List.mem_of_getLast? hc)
    have hend : (ofPieces lead (front ++ [last])).text.toList.getLast? = some c := by
      rw [ofPieces, String.toList_append, List.getLast?_append, getLast?_intercalate front hlast, hc]
      rfl
    have hdirectory : directory lead (front ++ [last]) = front ++ [last] :=
      if_neg fun h => hnil h.1
    have hsplit := toList_intercalate_append hnil (pieces_ne_nil target.text.toList)
    rw [htext] at hsplit
    rw [hend, hdirectory]
    refine congrArg Path.mk (String.toList_injective ?_)
    simp only [ofPieces, String.toList_append, hsplit]
    simp [hslash]

theorem leads_append (h : IsDirectory lead kept) {more : List String} (hmore : more ≠ [])
    (hfirst : kept = [] → lead = none → Leads none more) :
    Leads lead (directory lead kept ++ more) := by
  obtain ⟨others, hlead⟩ := h.leads
  by_cases hnil : kept = []
  · subst hnil
    cases hlead with
    | root => exact .root (by simpa [directory] using hmore)
    | current => exact .current
    | relative => exact hfirst rfl rfl
  · have hdirectory : directory lead kept = kept := if_neg fun h => hnil h.1
    obtain ⟨first, rest, rfl⟩ := List.exists_cons_of_ne_nil hnil
    rw [hdirectory]
    exact hlead.of_head? rfl

theorem unbroken_append (h : IsDirectory lead kept) {more : List String}
    (hmore : ∀ piece ∈ more, '/' ∉ piece.toList) :
    ∀ piece ∈ directory lead kept ++ more, '/' ∉ piece.toList := by
  intro piece hpiece
  rcases List.mem_append.mp hpiece with hpiece | hpiece
  · unfold directory at hpiece
    split at hpiece
    · rw [List.mem_singleton.mp hpiece]
      exact List.not_mem_nil
    · exact h.unbroken piece hpiece
  · exact hmore piece hpiece

theorem parent?_concat (h : IsDirectory lead kept) {name : String} (hslash : '/' ∉ name.toList)
    (hempty : name ≠ "") (hdot : name ≠ ".") :
    (ofPieces lead (directory lead kept ++ [name])).parent? = some (ofPieces lead kept) := by
  have hunbroken := h.unbroken_append fun piece hpiece =>
    List.mem_singleton.mp hpiece ▸ hslash
  have hcounts : dropBlankPieces (directory lead kept ++ [name]).reverse =
      name :: (directory lead kept).reverse := by
    rw [List.reverse_concat, dropBlankPieces, List.dropWhile_cons_of_neg]
    unfold Component.ofPiece?
    simp only [hempty, hdot, false_or, if_false]
    split <;> simp
  have hleads : Leads lead (directory lead kept ++ [name]) :=
    h.leads_append (List.cons_ne_nil name []) fun _ _ => .relative hempty hdot
  have hsplit := split_ofPieces hleads hunbroken
  have hpieces := pieces_intercalate (by simp) hunbroken
  have habove : above (directory lead kept ++ [name]) = kept := by
    rw [above, hcounts, List.tail_cons]
    unfold directory
    split
    · rename_i hnil
      rw [hnil.1]
      rfl
    · rw [h.ended, List.reverse_reverse]
  rw [parent?_eq (by rw [hsplit, hpieces, hcounts]; exact List.cons_ne_nil _ _), hsplit, hpieces,
    habove]

end IsDirectory

/-- Whether a text is the name of a file in some directory, and not a way there. -/
structure IsName (name : String) : Prop where
  unbroken : '/' ∉ name.toList
  counts : name ∉ ["", ".", ".."]

theorem IsName.isAbsolute_eq {name : String} (h : IsName name) :
    (⟨name⟩ : Path).isAbsolute = false := by
  unfold isAbsolute split
  split
  · rename_i rest heq
    exact absurd (heq ▸ List.mem_cons_self) h.unbroken
  all_goals rfl

/-- What lies beside a file lies beside every other file of the same directory. -/
theorem beside_beside (p : Path) {name : String} (hname : IsName name) (target : Path) :
    (p.beside ⟨name⟩).beside target = p.beside target := by
  obtain ⟨lead, kept, hdirectory, hbase⟩ := exists_isDirectory p
  have hempty : name ≠ "" := fun h => hname.counts (by simp [h])
  have hdot : name ≠ "." := fun h => hname.counts (by simp [h])
  have hfile : p.beside ⟨name⟩ = ofPieces lead (directory lead kept ++ [name]) := by
    have habsolute := hname.isAbsolute_eq
    rw [beside, if_neg (by simp [habsolute]), hbase, hdirectory.join_eq habsolute,
      pieces_of_unbroken hname.unbroken]
  rw [hfile, beside, beside, hdirectory.parent?_concat hname.unbroken hempty hdot, hbase]
  rfl

end DeviceLab.Path
