import DeviceLab.Error
import DeviceLab.FileTree
import DeviceLab.Proofs.FileTree.Neighbours
import Mathlib.Data.List.Infix

/-!
Places that paths lead to.

Whichever path leads to a file, what lies beside the file is looked up from the directory that the
file stands in.  Another file in its place leaves all places where they are.
-/

namespace DeviceLab.FileTree

open DeviceLab.Path

variable {tree : FileTree} {place x y : Place} {p q target : Path}

theorem walk_cons_eq_ok_iff {piece : String} {rest : List String} :
    tree.walk place (piece :: rest) = .ok x ↔
      tree.at? place = some .directory ∧ piece.utf8ByteSize ≤ 255 ∧
        tree.walk (tree.step place piece) rest = .ok x := by
  rw [walk]
  cases hnode : tree.at? place with
  | none => simp
  | some node =>
      cases node with
      | directory =>
          by_cases hlong : piece.utf8ByteSize > 255
          · have hsize : ¬piece.utf8ByteSize ≤ 255 := Nat.not_le.mpr hlong
            simp [hlong, hsize]
          · simp [hlong, Nat.not_lt.mp hlong]
      | file | sink | program => simp

theorem walk_append_eq_ok_iff {front back : List String} :
    tree.walk place (front ++ back) = .ok x ↔
      ∃ middle, tree.walk place front = .ok middle ∧ tree.walk middle back = .ok x := by
  induction front generalizing place with
  | nil => simp [walk]
  | cons piece rest ih =>
      simp only [List.cons_append, walk_cons_eq_ok_iff, ih]
      constructor
      · rintro ⟨hnode, hsize, middle, hrest, hback⟩
        exact ⟨middle, ⟨hnode, hsize, hrest⟩, hback⟩
      · rintro ⟨middle, ⟨hnode, hsize, hrest⟩, hback⟩
        exact ⟨hnode, hsize, middle, hrest, hback⟩

theorem step_of_blank {piece : String} (h : Component.ofPiece? piece = none) :
    tree.step place piece = place := by
  unfold Component.ofPiece? at h
  split at h
  · rename_i hblank
    exact if_pos hblank
  · split at h <;> cases h

theorem walk_of_blank {ps : List String} (hblank : ∀ piece ∈ ps, Component.ofPiece? piece = none)
    (h : tree.walk place ps = .ok x) : x = place ∧ (ps ≠ [] → tree.at? x = some .directory) := by
  induction ps with
  | nil =>
      cases h
      exact ⟨rfl, fun hne => absurd rfl hne⟩
  | cons piece rest ih =>
      obtain ⟨hnode, -, hrest⟩ := walk_cons_eq_ok_iff.mp h
      rw [step_of_blank (hblank piece List.mem_cons_self)] at hrest
      obtain ⟨rfl, -⟩ := ih (fun other hother => hblank other (List.mem_cons_of_mem piece hother)) hrest
      exact ⟨rfl, fun _ => hnode⟩

/-- As in a file system, a directory stands in a directory, and links lead to directories. -/
structure Grounded (tree : FileTree) : Prop where
  nested : ∀ place, tree.at? place = some .directory → tree.at? place.dropLast = some .directory
  links : ∀ link ∈ tree.host.links, tree.at? link.2 = some .directory

theorem mem_places_of_at? {node : FileNode} (h : tree.at? place = some node) :
    place ∈ tree.nodes.map (·.1) ++ tree.host.places := by
  rw [at?] at h
  cases hlookup : tree.nodes.lookup place with
  | none =>
      rw [hlookup] at h
      obtain ⟨front, back, hnodes, -⟩ := List.lookup_eq_some_iff.mp h
      exact List.mem_append_right _ (by simp [Host.places, hnodes])
  | some other =>
      obtain ⟨front, back, hnodes, -⟩ := List.lookup_eq_some_iff.mp hlookup
      exact List.mem_append_left _ (by simp [hnodes])

theorem grounded_iff :
    tree.Grounded ↔
      (∀ place ∈ tree.nodes.map (·.1) ++ tree.host.places,
        tree.at? place = some .directory → tree.at? place.dropLast = some .directory) ∧
      ∀ link ∈ tree.host.links, tree.at? link.2 = some .directory :=
  ⟨fun h => ⟨fun place _ => h.nested place, h.links⟩,
    fun h => ⟨fun place hplace => h.1 place (mem_places_of_at? hplace) hplace, h.2⟩⟩

instance : Decidable tree.Grounded :=
  decidable_of_iff _ grounded_iff.symm

namespace Grounded

theorem dropLast_step (h : tree.Grounded) {piece : String} (hplace : tree.at? place = some .directory)
    (hcounts : Component.ofPiece? piece ≠ none)
    (hfile : tree.at? (tree.step place piece) ≠ some .directory) :
    (tree.step place piece).dropLast = place := by
  have hnotBlank : ¬(piece = "" ∨ piece = ".") := fun hblank => hcounts (if_pos hblank)
  have hnotUp : piece ≠ ".." := by
    rintro rfl
    exact hfile (h.nested place hplace)
  have hdown : tree.step place piece = tree.host.follow (place ++ [piece]) := by
    rw [step, if_neg hnotBlank, if_neg hnotUp]
  rw [hdown] at hfile ⊢
  unfold Host.follow at hfile ⊢
  split at hfile
  · rename_i name heq
    cases hlink : tree.host.links.lookup name with
    | none =>
        obtain rfl : place = [] := by simpa using congrArg List.dropLast heq
        rfl
    | some target =>
        rw [hlink] at hfile
        obtain ⟨front, back, hlinks, -⟩ := List.lookup_eq_some_iff.mp hlink
        exact absurd (h.links (name, target) (hlinks ▸ by simp)) hfile
  · exact List.dropLast_concat

theorem walk_above (h : tree.Grounded) {ps : List String} (hps : ps ≠ [])
    (hwalk : tree.walk place ps = .ok x) (hfile : tree.at? x ≠ some .directory) :
    dropBlankPieces ps.reverse ≠ [] ∧ tree.walk place (above ps) = .ok x.dropLast := by
  have hne : dropBlankPieces ps.reverse ≠ [] := by
    intro hnil
    obtain ⟨after, hafter, hblank⟩ := exists_blank_suffix ps
    obtain rfl : ps = after := by simpa [hnil] using hafter
    exact hfile ((walk_of_blank hblank hwalk).2 hps)
  obtain ⟨between, last, after, hsplit, hbetween, hcounts, hafter⟩ := exists_last_piece hne
  rw [hsplit] at hwalk
  obtain ⟨directory, habove, hbelow⟩ := walk_append_eq_ok_iff.mp hwalk
  obtain ⟨_, hstay, hstep⟩ := walk_append_eq_ok_iff.mp hbelow
  obtain ⟨rfl, -⟩ := walk_of_blank hbetween hstay
  obtain ⟨hdirectory, -, hrest⟩ := walk_cons_eq_ok_iff.mp hstep
  obtain ⟨rfl, -⟩ := walk_of_blank hafter hrest
  refine ⟨hne, ?_⟩
  rwa [h.dropLast_step hdirectory hcounts hfile]

end Grounded

/-- Where the pieces after a lead are looked up. -/
def start (tree : FileTree) : Option Component → Place
  | some .root => []
  | _ => tree.host.workplace

theorem walk_of_locate_text (h : tree.locate p = .ok x) :
    p.text ≠ "" ∧
      (match p.text.toList with
        | '/' :: rest => tree.walk [] (pieces rest)
        | cs => tree.walk tree.host.workplace (pieces cs)) = .ok x := by
  rw [locate, locateFrom] at h
  split at h
  · cases h
  split at h
  · cases h
  rename_i htext
  split at h
  · cases h
  exact ⟨htext, h⟩

theorem walk_of_locate (h : tree.locate p = .ok x) :
    tree.walk (tree.start p.split.1) (pieces p.split.2) = .ok x := by
  obtain ⟨-, hwalk⟩ := walk_of_locate_text h
  rw [split]
  split at hwalk
  · rename_i rest hchars
    rw [hchars]
    exact hwalk
  · rename_i hroot
    split
    · rename_i rest hchars
      exact absurd hchars (hroot rest)
    · rename_i hchars
      rw [hchars] at hwalk
      exact hwalk
    · rename_i rest hchars
      rw [hchars] at hwalk
      exact hwalk
    · exact hwalk

theorem walk_of_locate_relative (hrelative : p.isAbsolute = false) (h : tree.locate p = .ok x) :
    tree.walk tree.host.workplace (pieces p.text.toList) = .ok x := by
  obtain ⟨-, hwalk⟩ := walk_of_locate_text h
  split at hwalk
  · rename_i rest hchars
    rw [isAbsolute, split, hchars] at hrelative
    cases hrelative
  · exact hwalk

theorem walk_of_locate_join {lead : Option Component} {kept : List String}
    (hdirectory : IsDirectory lead kept) (htarget : target.isAbsolute = false)
    (h : tree.locate ((ofPieces lead kept).join target) = .ok x) :
    tree.walk (tree.start lead) (kept ++ pieces target.text.toList) = .ok x := by
  -- The directory of a bare name is the empty path, and joining adds nothing to the target.
  by_cases hbare : kept = [] ∧ lead = none
  · obtain ⟨rfl, rfl⟩ := hbare
    have hself : (ofPieces none []).join target = target := by
      rw [hdirectory.join_eq htarget]
      refine congrArg Path.mk (String.toList_injective ?_)
      rw [Option.map_none, Option.getD_none, String.empty_append]
      exact toList_intercalate_pieces _
    rw [hself] at h
    exact walk_of_locate_relative htarget h
  · have hleads : Leads lead (directory lead kept ++ pieces target.text.toList) :=
      hdirectory.leads_append (pieces_ne_nil _) fun hnil hnone => absurd ⟨hnil, hnone⟩ hbare
    have hpieces : ∀ piece ∈ pieces target.text.toList, '/' ∉ piece.toList :=
      fun _ => slash_not_mem_of_mem_pieces
    have hunbroken := hdirectory.unbroken_append hpieces
    rw [hdirectory.join_eq htarget] at h
    have hwalk := walk_of_locate h
    rw [split_ofPieces hleads hunbroken, pieces_intercalate hleads.ne_nil hunbroken] at hwalk
    unfold directory at hwalk
    split at hwalk
    · rename_i hdot
      obtain ⟨-, -, hwalk⟩ := walk_cons_eq_ok_iff.mp hwalk
      rw [hdot.1]
      exact hwalk
    · exact hwalk

/-- What lies beside a file is looked up from the directory that the file stands in. -/
theorem Grounded.walk_of_locate_beside (h : tree.Grounded) (hp : tree.locate p = .ok x)
    (hfile : tree.at? x ≠ some .directory) (htarget : target.isAbsolute = false)
    (hbeside : tree.locate (p.beside target) = .ok y) :
    tree.walk x.dropLast (pieces target.text.toList) = .ok y := by
  obtain ⟨htext, -⟩ := walk_of_locate_text hp
  obtain ⟨hcounts, habove⟩ := h.walk_above (pieces_ne_nil _) (walk_of_locate hp) hfile
  rw [beside, if_neg (by simp [htarget]), parent?_eq hcounts] at hbeside
  obtain ⟨_, habove', hrest⟩ := walk_append_eq_ok_iff.mp
    (walk_of_locate_join (isDirectory_above htext) htarget hbeside)
  cases habove.symm.trans habove'
  exact hrest

theorem Grounded.locate_beside_congr (h : tree.Grounded) (hp : tree.locate p = .ok x)
    (hq : tree.locate q = .ok x) (hfile : tree.at? x ≠ some .directory) {z : Place}
    (hy : tree.locate (p.beside target) = .ok y) (hz : tree.locate (q.beside target) = .ok z) :
    y = z := by
  cases htarget : target.isAbsolute with
  | true =>
      rw [beside, if_pos htarget] at hy hz
      exact Except.ok.inj (hy.symm.trans hz)
  | false =>
      have hwalk := h.walk_of_locate_beside hp hfile htarget hy
      exact Except.ok.inj (hwalk.symm.trans (h.walk_of_locate_beside hq hfile htarget hz))

theorem lookup_filter_ne {nodes : List (Place × FileNode)} (hne : x ≠ place) :
    (nodes.filter (·.1 != place)).lookup x = nodes.lookup x := by
  induction nodes with
  | nil => rfl
  | cons entry rest ih =>
      obtain ⟨other, node⟩ := entry
      by_cases hother : other = place
      · subst hother
        rw [List.filter_cons_of_neg (by simp), ih, List.lookup_cons, beq_false_of_ne hne]
      · rw [List.filter_cons_of_pos (by simpa using hother), List.lookup_cons, List.lookup_cons, ih]

theorem at?_put (tree : FileTree) (place : Place) (node : FileNode) (x : Place) :
    (tree.put place node).at? x = if x = place then some node else tree.at? x := by
  rw [at?, put, List.lookup_cons]
  by_cases hx : x = place
  · simp [hx]
  · rw [lookup_filter_ne hx, beq_false_of_ne hx, if_neg hx]
    rfl

variable {node : FileNode} {bytes : List UInt8}

theorem walk_put (hnode : tree.at? place = some node) (hfile : node ≠ .directory) (x : Place)
    (ps : List String) : (tree.put place (.file bytes)).walk x ps = tree.walk x ps := by
  induction ps generalizing x with
  | nil => rfl
  | cons piece rest ih =>
      rw [walk, walk, at?_put]
      by_cases hx : x = place
      · rw [if_pos hx, hx, hnode]
        cases node with
        | directory => exact absurd rfl hfile
        | file | sink | program => rfl
      · rw [if_neg hx, put_step, ih]

theorem locate_put (hnode : tree.at? place = some node) (hfile : node ≠ .directory) (p : Path) :
    (tree.put place (.file bytes)).locate p = tree.locate p := by
  simp only [locate, locateFrom, put_host, walk_put hnode hfile]

theorem content_put (tree : FileTree) (place : Place) (node : FileNode) :
    (tree.put place node).content = tree.content := by
  funext other
  cases other <;> rfl

theorem read_put_self (hnode : tree.at? place = some node) (hfile : node ≠ .directory)
    (hp : tree.locate p = .ok place) : (tree.put place (.file bytes)).read p = .ok bytes := by
  refine bind_eq_ok_iff.mpr ⟨.file bytes, bind_eq_ok_iff.mpr ⟨place, ?_, ?_⟩, rfl⟩
  · rw [locate_put hnode hfile, hp]
  · rw [nodeAt, at?_put, if_pos rfl]

theorem read_put_of_ne (hnode : tree.at? place = some node) (hfile : node ≠ .directory)
    (hp : tree.locate p ≠ .ok place) : (tree.put place (.file bytes)).read p = tree.read p := by
  have hsame : (tree.put place (.file bytes)).node p = tree.node p := by
    rw [FileTree.node, FileTree.node, locate_put hnode hfile]
    cases hx : tree.locate p with
    | error error => rfl
    | ok x =>
        have hne : x ≠ place := fun heq => hp (heq ▸ hx)
        change nodeAt _ x = nodeAt _ x
        rw [nodeAt, nodeAt, at?_put, if_neg hne]
  rw [read, read, hsame, content_put]

end DeviceLab.FileTree
