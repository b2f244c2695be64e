import DeviceLab.Proofs.Watcher.Fingerprint
import Mathlib.Data.List.Chain

namespace DeviceLab

section marks

variable {α : Type} {separator : α} {name front front' back back' shift : List α}

theorem prefix_of_shift (hname : separator ∉ name) (hshift : shift ≠ [])
    (h : separator :: (name ++ separator :: back) =
      shift ++ separator :: (name ++ separator :: back')) :
    separator :: (name ++ [separator]) <+: shift ++ [separator] := by
  cases shift with
  | nil => exact absurd rfl hshift
  | cons first shift =>
      rw [List.cons_append, List.cons.injEq] at h
      obtain ⟨rfl, h⟩ := h
      rcases List.append_eq_append_iff.mp h with ⟨more, rfl, hmore⟩ | ⟨more, hmore, hrest⟩
      · rcases more with _ | ⟨next, more⟩
        · simp
        · obtain rfl : separator = next := List.head_eq_of_cons_eq hmore
          exact ⟨more ++ [separator], by simp⟩
      · rcases more with _ | ⟨next, more⟩
        · simp [hmore]
        · obtain rfl : separator = next := List.head_eq_of_cons_eq hrest
          exact absurd (by simp [hmore]) hname

theorem shift_eq_nil (hname : separator ∉ name)
    (hfront : ¬separator :: (name ++ [separator]) <:+: front ++ shift ++ [separator])
    (h : separator :: (name ++ separator :: back) =
      shift ++ separator :: (name ++ separator :: back')) : shift = [] := by
  by_contra hshift
  apply hfront
  rw [List.append_assoc]
  exact (prefix_of_shift hname hshift h).isInfix.trans (List.suffix_append _ _).isInfix

theorem append_mark_inj (hname : separator ∉ name)
    (hfront : ¬separator :: (name ++ [separator]) <:+: front ++ [separator])
    (hfront' : ¬separator :: (name ++ [separator]) <:+: front' ++ [separator])
    (h : front ++ separator :: (name ++ separator :: back) =
      front' ++ separator :: (name ++ separator :: back')) : front = front' ∧ back = back' := by
  have hsame : front = front' := by
    rcases List.append_eq_append_iff.mp h with ⟨shift, rfl, hshift⟩ | ⟨shift, rfl, hshift⟩
    · simp [shift_eq_nil hname hfront' hshift]
    · simp [shift_eq_nil hname hfront hshift]
  subst hsame
  simpa using h

end marks

namespace Digest

variable {tree other : FileTree} {p q : Path} {files front back : List Path}

/-- Whether the path of another file does not stand in the content of a file between NUL bytes, of
which the last may be the one that ends the content. -/
def Delimited (tree : FileTree) (p q : Path) : Prop :=
  ¬0 :: (Text.encode q.text ++ [0]) <:+: content tree p ++ [0]

instance : Decidable (Delimited tree p q) :=
  inferInstanceAs (Decidable ¬0 :: (Text.encode q.text ++ [0]) <:+: content tree p ++ [0])

theorem stream_cons (tree : FileTree) (p : Path) (files : List Path) :
    stream tree (p :: files) =
      Text.encode p.text ++ 0 :: (content tree p ++ 0 :: stream tree files) := by
  simp [stream, entry_eq]

theorem stream_append (tree : FileTree) (front back : List Path) :
    stream tree (front ++ back) = stream tree front ++ stream tree back := by
  simp [stream]

theorem stream_congr (h : ∀ p ∈ files, content other p = content tree p) :
    stream other files = stream tree files := by
  induction files with
  | nil => rfl
  | cons p files ih =>
      obtain ⟨hfirst, hrest⟩ := List.forall_mem_cons.mp h
      rw [stream_cons, stream_cons, hfirst, ih hrest]

theorem content_eq_of_stream_eq (hpaths : ∀ p ∈ files, '\x00' ∉ p.text.toList)
    (hdelimited : files.IsChain (Delimited tree)) (hdelimited' : files.IsChain (Delimited other))
    (h : stream tree files = stream other files) :
    ∀ p ∈ files, content tree p = content other p := by
  induction files with
  | nil => simp
  | cons p files ih =>
      have hbody : content tree p ++ 0 :: stream tree files =
          content other p ++ 0 :: stream other files := by
        rw [stream_cons, stream_cons] at h
        simpa using h
      rw [List.forall_mem_cons]
      cases files with
      | nil =>
          simp only [stream, List.flatMap_nil] at hbody
          exact ⟨List.append_cancel_right hbody, by simp⟩
      | cons q files =>
          obtain ⟨hfirst, hrest⟩ := List.isChain_cons_cons.mp hdelimited
          obtain ⟨hfirst', hrest'⟩ := List.isChain_cons_cons.mp hdelimited'
          obtain ⟨-, hpaths⟩ := List.forall_mem_cons.mp hpaths
          have hname := Text.zero_not_mem_encode (hpaths q (by simp))
          rw [stream_cons, stream_cons] at hbody
          obtain ⟨hsame, hback⟩ := append_mark_inj hname hfirst hfirst' hbody
          refine ⟨hsame, ih hpaths hrest hrest' ?_⟩
          rw [stream_cons, stream_cons, hback]

/-- A content in which the next path stands between NUL bytes may as well end there. -/
theorem exists_other_contents (h : ¬Delimited tree p q) :
    ∃ c d, c ≠ content tree p ∧
      c ++ 0 :: (Text.encode q.text ++ 0 :: (d ++ [0])) =
        content tree p ++ 0 :: (Text.encode q.text ++ 0 :: (content tree q ++ [0])) := by
  obtain ⟨c, rest, hsplit⟩ := not_not.mp h
  refine ⟨c, rest ++ (Text.encode q.text ++ 0 :: content tree q), ?_, ?_⟩
  · rintro rfl
    have hlength := congrArg List.length hsplit
    simp at hlength
  · have hcontent : content tree p ++ 0 :: (Text.encode q.text ++ 0 :: (content tree q ++ [0])) =
        content tree p ++ [0] ++ (Text.encode q.text ++ 0 :: (content tree q ++ [0])) := by simp
    rw [hcontent, ← hsplit]
    simp

/-- What is hashed of some files determines what is in them if each content can be told from the path
of the next file.  If that is not so of one of them, then the same is hashed where that file and the
next one have certain other contents. -/
theorem stream_determines_contents (hpaths : ∀ p ∈ files, '\x00' ∉ p.text.toList) :
    (∀ tree other, files.IsChain (Delimited tree) → files.IsChain (Delimited other) →
      stream tree files = stream other files → ∀ p ∈ files, content tree p = content other p) ∧
    ∀ tree front p q back, files = front ++ p :: q :: back → ¬Delimited tree p q →
      ∃ c d, c ≠ content tree p ∧ ∀ other, content other p = c → content other q = d →
        (∀ r ∈ front ++ back, content other r = content tree r) →
        stream other files = stream tree files := by
  refine ⟨fun tree other hdelimited hdelimited' h =>
    content_eq_of_stream_eq hpaths hdelimited hdelimited' h, ?_⟩
  rintro tree front p q back rfl hnot
  obtain ⟨c, d, hne, hsame⟩ := exists_other_contents hnot
  refine ⟨c, d, hne, ?_⟩
  rintro other rfl rfl hothers
  obtain ⟨hfront, hback⟩ := List.forall_mem_append.mp hothers
  have hboth := congrArg (· ++ stream tree back) hsame
  simp only [List.append_assoc, List.cons_append, List.nil_append] at hboth
  simp only [stream_append, stream_cons, stream_congr hfront, stream_congr hback, hboth]

theorem stream_determines_contents_of_missing_file :
    let path : Path := ⟨"cmds.txt"⟩
    let inner : Path := ⟨"inner.txt"⟩
    let tree := FileTree.write {} path (Text.encode "smoke\n#\x00inner\x00")
    let other := tree.write inner []
    let telling := FileTree.write {} path (Text.encode "#\x00inner.txt\x00\n")
    stream tree [path, inner] = stream other [path, inner] ∧
      (∀ p ∈ [path, inner], content tree p = content other p) ∧
      ∃ c d, c ≠ content telling path ∧ ∀ third, content third path = c → content third inner = d →
        (∀ r ∈ ([] ++ [] : List Path), content third r = content telling r) →
        stream third [path, inner] = stream telling [path, inner] := by
  intro path inner tree other telling
  have hpaths : ∀ p ∈ [path, inner], '\x00' ∉ p.text.toList := by decide
  have htree : [path, inner].IsChain (Delimited tree) := List.isChain_pair.mpr (by decide +kernel)
  have hother : [path, inner].IsChain (Delimited other) := List.isChain_pair.mpr (by decide +kernel)
  have htelling : ¬Delimited telling path inner := by decide +kernel
  have hstream : stream tree [path, inner] = stream other [path, inner] := by decide +kernel
  obtain ⟨hsame, hothers⟩ := stream_determines_contents hpaths
  exact ⟨hstream, hsame tree other htree hother hstream,
    hothers telling [] path inner [] rfl htelling⟩

/-- An edit of two files after which the same is hashed. -/
theorem exists_edit_with_same_stream :
    let path : Path := ⟨"cmds.txt"⟩
    let inner : Path := ⟨"inner.txt"⟩
    let tree := (FileTree.write {} path (Text.encode "smoke\nINCLUDE inner.txt\n#")).write inner
      (Text.encode "\n#\x00inner.txt\x00flaky\n")
    let other := (tree.write path
      (Text.encode "smoke\nINCLUDE inner.txt\n#\x00inner.txt\x00\n#")).write inner
      (Text.encode "flaky\n")
    (∀ p ∈ [path, inner], '\x00' ∉ p.text.toList) ∧
      stream tree [path, inner] = stream other [path, inner] ∧
      ∀ p ∈ [path, inner], content tree p ≠ content other p := by
  decide +kernel

end Digest

end DeviceLab
