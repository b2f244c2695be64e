import DeviceLab.Digest
import DeviceLab.Error
import DeviceLab.Proofs.Text.Roundtrip

/-!
What a fingerprint of files tells about them.

Each path and each content ends in a NUL byte.  So as long as there is none in them, what is hashed
determines the paths and their contents, and a file that cannot be read is like an empty one.
-/

namespace DeviceLab

namespace Text

theorem zero_ne_ofNat {n : Nat} (h : n % 256 ≠ 0) : (0 : UInt8) ≠ UInt8.ofNat n := by
  intro hzero
  have hnat := congrArg UInt8.toNat hzero
  rw [UInt8.toNat_ofNat'] at hnat
  exact h hnat.symm

theorem zero_not_mem_utf8EncodeChar {c : Char} (hc : c ≠ '\x00') :
    0 ∉ String.utf8EncodeChar c := by
  have hpos : c.val.toNat ≠ 0 := fun h => hc (Char.ext (UInt32.toNat_inj.mp h))
  unfold String.utf8EncodeChar
  dsimp only
  split
  · simp only [List.mem_singleton]
    exact zero_ne_ofNat (by omega)
  · split
    · simp only [List.mem_cons, List.not_mem_nil, or_false, not_or]
      exact ⟨zero_ne_ofNat (by omega), zero_ne_ofNat (by omega)⟩
    · split
      · simp only [List.mem_cons, List.not_mem_nil, or_false, not_or]
        exact ⟨zero_ne_ofNat (by omega), zero_ne_ofNat (by omega), zero_ne_ofNat (by omega)⟩
      · simp only [List.mem_cons, List.not_mem_nil, or_false, not_or]
        exact ⟨zero_ne_ofNat (by omega), zero_ne_ofNat (by omega), zero_ne_ofNat (by omega),
          zero_ne_ofNat (by omega)⟩

theorem zero_not_mem_encode {text : String} (h : '\x00' ∉ text.toList) : 0 ∉ encode text := by
  rw [encode_eq, List.mem_flatMap]
  rintro ⟨c, hc, hzero⟩
  refine zero_not_mem_utf8EncodeChar ?_ hzero
  rintro rfl
  exact h hc

end Text

namespace Digest

variable {tree other : FileTree}

/-- What is hashed of a file: its bytes, none if it cannot be read. -/
def content (tree : FileTree) (p : Path) : List UInt8 :=
  match tree.read p with
  | .ok bytes => bytes
  | .error _ => []

theorem entry_eq (tree : FileTree) (p : Path) :
    entry tree p = Text.encode p.text ++ 0 :: (content tree p ++ [0]) := by
  rw [entry, List.append_assoc]
  rfl

/-- Neither the path nor the content of a file holds the byte that ends them. -/
structure Plain (tree : FileTree) (p : Path) : Prop where
  path : '\x00' ∉ p.text.toList
  content : 0 ∉ content tree p

theorem entry_append_inj {p q : Path} {back back' : List UInt8} (hp : Plain tree p)
    (hq : Plain other q) (h : entry tree p ++ back = entry other q ++ back') :
    p = q ∧ content tree p = content other q ∧ back = back' := by
  simp only [entry_eq, List.append_assoc, List.cons_append, List.nil_append] at h
  obtain ⟨hpath, h⟩ := append_separator_inj (Text.zero_not_mem_encode hp.path)
    (Text.zero_not_mem_encode hq.path) h
  obtain ⟨hcontent, hback⟩ := append_separator_inj hp.content hq.content h
  cases p
  cases q
  exact ⟨congrArg Path.mk (Text.encode_inj hpath), hcontent, hback⟩

theorem entry_ne_nil (tree : FileTree) (p : Path) : entry tree p ≠ [] := by
  rw [entry_eq]
  exact List.append_ne_nil_of_right_ne_nil _ (List.cons_ne_nil _ _)

/-- What is hashed of plain files determines which they are and what is in them. -/
theorem stream_inj {files files' : List Path} (hplain : ∀ p ∈ files, Plain tree p)
    (hplain' : ∀ p ∈ files', Plain other p) (h : stream tree files = stream other files') :
    files = files' ∧ ∀ p ∈ files, content tree p = content other p := by
  induction files generalizing files' with
  | nil =>
      cases files' with
      | nil => exact ⟨rfl, fun p hp => absurd hp List.not_mem_nil⟩
      | cons q rest =>
          rw [stream, stream, List.flatMap_nil, List.flatMap_cons] at h
          exact absurd (List.append_eq_nil_iff.mp h.symm).1 (entry_ne_nil other q)
  | cons p files ih =>
      cases files' with
      | nil =>
          rw [stream, stream, List.flatMap_nil, List.flatMap_cons] at h
          exact absurd (List.append_eq_nil_iff.mp h).1 (entry_ne_nil tree p)
      | cons q rest =>
          rw [stream, stream, List.flatMap_cons, List.flatMap_cons] at h
          obtain ⟨rfl, hcontent, hrest⟩ := entry_append_inj (hplain p List.mem_cons_self)
            (hplain' q List.mem_cons_self) h
          obtain ⟨rfl, hall⟩ := ih (fun r hr => hplain r (List.mem_cons_of_mem p hr))
            (fun r hr => hplain' r (List.mem_cons_of_mem p hr)) hrest
          refine ⟨rfl, fun r hr => ?_⟩
          rcases List.mem_cons.mp hr with rfl | hr
          · exact hcontent
          · exact hall r hr

end Digest

namespace FileTree

variable {tree : FileTree} {p : Path}

theorem read_eq_ok_of_readText {text : String} (h : tree.readText p = .ok text) :
    ∃ bytes, tree.read p = .ok bytes ∧ Text.decode? bytes = some text := by
  obtain ⟨bytes, hread, h⟩ := bind_eq_ok_iff.mp h
  refine ⟨bytes, hread, ?_⟩
  split at h
  · cases h
  · rename_i hdecode
    cases h
    exact hdecode

theorem zero_not_mem_of_read {bytes : List UInt8} (h : tree.read p = .ok bytes) :
    '\x00' ∉ p.text.toList := by
  obtain ⟨node, hnode, -⟩ := bind_eq_ok_iff.mp h
  obtain ⟨place, hplace, -⟩ := bind_eq_ok_iff.mp hnode
  intro hmem
  rw [locate, locateFrom, if_pos (List.contains_iff_mem.mpr hmem)] at hplace
  cases hplace

end FileTree

end DeviceLab
