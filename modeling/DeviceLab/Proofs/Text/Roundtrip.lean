import DeviceLab.Text.Line
import DeviceLab.Text.Numeral
import DeviceLab.Text.Ordered
import DeviceLab.Text.Utf8

/-!
Values that are written and read again.

The decimal digits of a number are read as that number, if it is within the bounds.  The entries of
a dictionary make up the same dictionary when they are entered in the order in which they stand, and
so do the members of a set.  Of a list, what stands before the first separator can be told from the
rest.  A text is decoded from its bytes, and lines that are joined are the lines of the result.
-/

namespace DeviceLab

theorem enterBy_eq_append {α κ : Type} [LT κ] [DecidableLT κ] [DecidableEq κ] [LE κ]
    [Std.IsLinearOrder κ] [Std.LawfulOrderLT κ] {key : α → κ} {x : α} {xs : List α}
    (h : ∀ y ∈ xs, key y < key x) : enterBy key x xs = xs ++ [x] := by
  induction xs with
  | nil => rfl
  | cons first rest ih =>
      have hfirst : key first < key x := h first List.mem_cons_self
      rw [enterBy, if_neg (Std.not_gt_of_lt hfirst), if_neg (Std.ne_of_lt hfirst).symm,
        ih fun y hy => h y (List.mem_cons_of_mem _ hy), List.cons_append]

/-- What ends at the first separator is known together with what follows it. -/
theorem append_separator_inj {α : Type} {separator : α} {front front' back back' : List α}
    (hfront : separator ∉ front) (hfront' : separator ∉ front')
    (h : front ++ separator :: back = front' ++ separator :: back') :
    front = front' ∧ back = back' := by
  induction front generalizing front' with
  | nil =>
      cases front' with
      | nil => exact ⟨rfl, List.tail_eq_of_cons_eq h⟩
      | cons b rest =>
          obtain rfl : separator = b := List.head_eq_of_cons_eq h
          exact absurd List.mem_cons_self hfront'
  | cons a front ih =>
      cases front' with
      | nil =>
          obtain rfl : a = separator := List.head_eq_of_cons_eq h
          exact absurd List.mem_cons_self hfront
      | cons b rest =>
          obtain rfl : a = b := List.head_eq_of_cons_eq h
          obtain ⟨hsame, hback⟩ := ih (fun hmem => hfront (List.mem_cons_of_mem a hmem))
            (fun hmem => hfront' (List.mem_cons_of_mem a hmem)) (List.tail_eq_of_cons_eq h)
          exact ⟨congrArg (a :: ·) hsame, hback⟩

namespace Text

section numeral

variable {max value : Nat} {beyond : NumeralFault} {digits : List Char}

theorem le_ofDigitChars (value : Nat) (digits : List Char) :
    value ≤ Nat.ofDigitChars 10 digits value := by
  induction digits generalizing value with
  | nil => exact Nat.le_refl value
  | cons c cs ih =>
      rw [Nat.ofDigitChars_cons]
      have hnext := ih (10 * value + (c.toNat - '0'.toNat))
      omega

theorem readDigits_eq_ok (hdigits : ∀ c ∈ digits, c.isDigit = true)
    (hmax : Nat.ofDigitChars 10 digits value ≤ max) :
    readDigits max beyond value digits = .ok (Nat.ofDigitChars 10 digits value) := by
  induction digits generalizing value with
  | nil => rfl
  | cons c cs ih =>
      rw [Nat.ofDigitChars_cons, Nat.mul_comm 10 value] at hmax ⊢
      have hnext := Nat.le_trans (le_ofDigitChars (value * 10 + (c.toNat - '0'.toNat)) cs) hmax
      rw [readDigits, if_pos (hdigits c List.mem_cons_self)]
      dsimp only
      rw [if_pos hnext]
      exact ih (fun d hd => hdigits d (List.mem_cons_of_mem c hd)) hmax

theorem toList_toString_nat (n : Nat) : (toString n).toList = Nat.toDigits 10 n := by
  rw [Nat.toString_eq_repr, Nat.toList_repr]

theorem isDigit_of_mem_toString {n : Nat} {c : Char} (h : c ∈ (toString n).toList) :
    c.isDigit = true := by
  rw [toList_toString_nat] at h
  exact Nat.isDigit_of_mem_toDigits (by decide) (by decide) h

theorem readDigits_toString {n : Nat} (h : n ≤ max) :
    readDigits max beyond 0 (toString n).toList = .ok n := by
  have hdenotes : Nat.ofDigitChars 10 (toString n).toList 0 = n := by
    rw [toList_toString_nat, Nat.ofDigitChars_ten_toDigits]
  rw [readDigits_eq_ok (fun c => isDigit_of_mem_toString) (hdenotes.symm ▸ h), hdenotes]

theorem toString_ne_nil (n : Nat) : (toString n).toList ≠ [] := by
  rw [toList_toString_nat]
  exact Nat.toDigits_ne_nil

theorem toString_ne_cons {n : Nat} {c : Char} {cs : List Char} (hc : c.isDigit = false) :
    (toString n).toList ≠ c :: cs := by
  intro heq
  have hmem : c ∈ (toString n).toList := by
    rw [heq]
    exact List.mem_cons_self
  exact absurd (isDigit_of_mem_toString hmem) (ne_true_of_eq_false hc)

theorem readNatural_toString {n : Nat} (h : n ≤ max) :
    readNatural max (toString n).toList = .ok n := by
  unfold readNatural
  split
  · exact absurd ‹_› (toString_ne_nil n)
  · exact absurd ‹_› (toString_ne_cons (by decide))
  · exact absurd ‹_› (toString_ne_cons (by decide))
  · exact readDigits_toString h

theorem readInteger_toString {n : Nat} (h : n ≤ max) :
    readInteger max (toString n).toList = .ok n := by
  unfold readInteger
  split
  · exact absurd ‹_› (toString_ne_nil n)
  · exact absurd ‹_› (toString_ne_cons (by decide))
  · exact absurd ‹_› (toString_ne_cons (by decide))
  · exact absurd ‹_› (toString_ne_cons (by decide))
  · exact absurd ‹_› (toString_ne_cons (by decide))
  · rw [readDigits_toString h]
    rfl

theorem readNatural_le {cs : List Char} {n : Nat} (h : readNatural max cs = .ok n) : n ≤ max := by
  unfold readNatural at h
  split at h
  · cases h
  · cases h
  · exact readDigits_le (Nat.zero_le max) h
  · exact readDigits_le (Nat.zero_le max) h

end numeral

section bytes

theorem toList_loop (bytes : ByteArray) (i : Nat) (read : List UInt8) :
    ByteArray.toList.loop bytes i read = read.reverse ++ bytes.data.toList.drop i := by
  fun_induction ByteArray.toList.loop bytes i read with
  | case1 i read hi ih =>
      rw [ih, List.reverse_cons, List.append_assoc, List.singleton_append]
      have hdrop : bytes.data.toList.drop i = bytes.get! i :: bytes.data.toList.drop (i + 1) := by
        have hlt : i < bytes.data.toList.length := hi
        rw [List.drop_eq_getElem_cons hlt]
        congr 1
        exact (getElem!_pos bytes.data i hi).symm
      rw [hdrop]
  | case2 i read hi =>
      have hlen : bytes.data.toList.length ≤ i := Nat.le_of_not_lt hi
      rw [List.drop_eq_nil_of_le hlen, List.append_nil]

theorem encode_eq (text : String) : encode text = text.toList.flatMap String.utf8EncodeChar := by
  have hbytes : text.toUTF8 = (text.toList.flatMap String.utf8EncodeChar).toByteArray :=
    String.utf8Encode_toList.symm
  rw [encode, ByteArray.toList, toList_loop, hbytes, List.toList_data_toByteArray]
  rfl

theorem encode_inj {text other : String} (h : encode text = encode other) : text = other := by
  rw [encode_eq, encode_eq] at h
  apply String.toByteArray_inj.mp
  rw [← String.utf8Encode_toList, ← String.utf8Encode_toList]
  exact congrArg List.toByteArray h

theorem decode?_encode (text : String) : decode? (encode text) = some text := by
  have hbytes : (⟨(encode text).toArray⟩ : ByteArray) = text.toUTF8 := by
    rw [encode, ByteArray.toList, toList_loop]
    rfl
  rw [decode?, hbytes, String.fromUTF8?]
  exact dif_pos text.isValidUTF8

end bytes

section lines

variable {line : List Char}

theorem linesFrom_append (hunbroken : '\n' ∉ line) (current rest : List Char) :
    linesFrom current (line ++ rest) = linesFrom (line.reverse ++ current) rest := by
  induction line generalizing current with
  | nil => rfl
  | cons c cs ih =>
      have hc : c ≠ '\n' := fun h => hunbroken (h ▸ List.mem_cons_self)
      rw [List.cons_append, linesFrom.eq_4 _ _ _ hc,
        ih fun h => hunbroken (List.mem_cons_of_mem c h), List.reverse_cons, List.append_assoc]
      rfl

theorem lines_of_unbroken (hunbroken : '\n' ∉ line) (hline : line ≠ []) : lines line = [line] := by
  have hread := linesFrom_append hunbroken [] []
  rw [List.append_nil, List.append_nil] at hread
  rw [lines, hread, linesFrom, if_neg (by simpa using hline), List.reverse_reverse]

theorem lines_append (hunbroken : '\n' ∉ line) (hreturn : line.getLast? ≠ some '\r')
    (rest : List Char) : lines (line ++ '\n' :: rest) = line :: lines rest := by
  rw [lines, linesFrom_append hunbroken, List.append_nil, linesFrom.eq_def]
  refine congrArg (· :: lines rest) ?_
  split
  · rename_i before hlast
    refine absurd ?_ hreturn
    rw [← List.head?_reverse, hlast, List.head?_cons]
  · exact List.reverse_reverse line

theorem lines_intercalate {all : List (List Char)} (hall : all ≠ [])
    (hunbroken : ∀ line ∈ all, '\n' ∉ line) (hreturn : ∀ line ∈ all, line.getLast? ≠ some '\r')
    (hlines : ∀ line ∈ all, line ≠ []) {final : List Char} (hfinal : final = [] ∨ final = ['\n']) :
    lines (['\n'].intercalate all ++ final) = all := by
  induction all with
  | nil => exact absurd rfl hall
  | cons line rest ih =>
      have hunbroken' := hunbroken line List.mem_cons_self
      have hreturn' := hreturn line List.mem_cons_self
      cases rest with
      | nil =>
          rw [List.intercalate_singleton]
          rcases hfinal with rfl | rfl
          · rw [List.append_nil, lines_of_unbroken hunbroken' (hlines line List.mem_cons_self)]
          · rw [lines_append hunbroken' hreturn', lines_nil]
      | cons next rest =>
          rw [List.intercalate_cons_cons, List.append_assoc, List.append_assoc,
            List.singleton_append, lines_append hunbroken' hreturn',
            ih (List.cons_ne_nil _ _)
              (fun line hline => hunbroken line (List.mem_cons_of_mem _ hline))
              (fun line hline => hreturn line (List.mem_cons_of_mem _ hline))
              (fun line hline => hlines line (List.mem_cons_of_mem _ hline))]

end lines

namespace Dictionary

variable {β : Type}

theorem entries_foldl_insert (d : Dictionary β) {entries : List (String × β)}
    (h : (d.entries ++ entries).Pairwise (·.1 < ·.1)) :
    (entries.foldl (fun d e => d.insert e.1 e.2) d).entries = d.entries ++ entries := by
  induction entries generalizing d with
  | nil => exact (List.append_nil _).symm
  | cons e rest ih =>
      have hbelow : ∀ y ∈ d.entries, y.1 < e.1 := fun y hy =>
        (List.pairwise_append.mp h).2.2 y hy e List.mem_cons_self
      have hinsert : (d.insert e.1 e.2).entries = d.entries ++ [e] := enterBy_eq_append hbelow
      rw [List.append_cons, ← hinsert] at h ⊢
      exact ih _ h

theorem ofList_entries (d : Dictionary β) : ofList d.entries = d :=
  ext_entries (entries_foldl_insert ∅ d.ascending)

theorem mem_of_mem_ofList {e : String × β} {entries : List (String × β)}
    (h : e ∈ (ofList entries).entries) : e ∈ entries := by
  have hfold : ∀ (entries : List (String × β)) (d : Dictionary β),
      e ∈ (entries.foldl (fun d e => d.insert e.1 e.2) d).entries →
        e ∈ d.entries ∨ e ∈ entries := by
    intro entries
    induction entries with
    | nil => exact fun d h => .inl h
    | cons first rest ih =>
        intro d h
        rcases ih _ h with h | h
        · rcases eq_or_mem_of_mem_enterBy h with rfl | h
          · exact .inr List.mem_cons_self
          · exact .inl h
        · exact .inr (List.mem_cons_of_mem _ h)
  exact (hfold entries ∅ h).resolve_left List.not_mem_nil

end Dictionary

namespace NameSet

theorem members_foldl_insert (s : NameSet) (names : List String) :
    (names.foldl insert s).members =
      (names.map fun name => (name, ())).foldl (fun d e => d.insert e.1 e.2) s.members := by
  induction names generalizing s with
  | nil => rfl
  | cons name rest ih => exact ih (s.insert name)

theorem ofList_toList (s : NameSet) : ofList s.toList = s := by
  have hentries : (s.toList.map fun name => (name, ())) = s.members.entries := by
    rw [toList, List.map_map]
    exact List.map_id _
  have hmembers : (ofList s.toList).members = s.members := by
    rw [ofList, members_foldl_insert, hentries]
    exact Dictionary.ofList_entries s.members
  cases s
  exact congrArg NameSet.mk hmembers

end NameSet

end Text

end DeviceLab
