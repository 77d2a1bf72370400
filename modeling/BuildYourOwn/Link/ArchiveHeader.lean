import BuildYourOwn.Link.Archive

/-!
# Member headers are read back

What `write_member` formats is ASCII, so its columns are where the reader cuts: the name in front, the size at the back
and between them thirty-two bytes nobody reads. A column is padded with spaces, and what `trim_end` and `trim` leave of
it is what was formatted.
-/

namespace BuildYourOwn.Link.Archive

open Lib
open Topic (parseUsize parseDigits)

/-! ## ASCII -/

/-- `is_ascii`. -/
def Ascii (s : String) : Prop := ∀ c ∈ s.toList, c.toNat < 128

section
variable {s t name : String} {n size : Nat}

instance : Decidable (Ascii s) := List.decidableBAll (fun c : Char => c.toNat < 128) s.toList

theorem Ascii.append (hs : Ascii s) (ht : Ascii t) : Ascii (s ++ t) := by
  intro c hc
  rw [String.toList_append] at hc
  exact (List.mem_append.mp hc).elim (hs c) (ht c)

variable {c : Char}

theorem utf8Size_of_ascii (h : c.toNat < 128) : c.utf8Size = 1 := by
  refine Char.utf8Size_eq_one_iff.mpr (UInt32.le_iff_toNat_le.mpr ?_)
  exact Nat.le_of_lt_succ h

theorem Ascii.length_asBytes (h : Ascii s) : (asBytes s).length = s.length := by
  rw [asBytes_eq, ← String.length_toList]
  unfold Ascii at h
  generalize s.toList = cs at h
  induction cs with
  | nil => rfl
  | cons c cs ih =>
    rw [List.flatMap_cons, List.length_append, String.length_utf8EncodeChar,
      utf8Size_of_ascii (h c List.mem_cons_self), ih fun c hc => h c (List.mem_cons_of_mem _ hc), List.length_cons]
    omega

/-! ## Columns -/

theorem toList_padRight : (padRight n s).toList = s.toList ++ List.replicate (n - s.length) ' ' := by
  rw [padRight, String.toList_append, String.toList_ofList]

theorem length_padRight (h : s.length ≤ n) : (padRight n s).length = n := by
  rw [← String.length_toList, toList_padRight, List.length_append, String.length_toList, List.length_replicate]
  omega

theorem Ascii.padRight (h : Ascii s) : Ascii (padRight n s) := by
  refine h.append fun c hc => ?_
  rw [String.toList_ofList] at hc
  rw [List.eq_of_mem_replicate hc]
  decide

theorem Ascii.length_padRight (h : Ascii s) (hn : s.length ≤ n) : (asBytes (Archive.padRight n s)).length = n := by
  rw [h.padRight.length_asBytes, Archive.length_padRight hn]

theorem rdropWhile_spaces (cs : List Char) (n : Nat) :
    (cs ++ List.replicate n ' ').rdropWhile whiteSpace = cs.rdropWhile whiteSpace := by
  induction n with
  | zero => rw [List.replicate_zero, List.append_nil]
  | succ n ih =>
    rw [List.replicate_succ', ← List.append_assoc, List.rdropWhile_concat_pos _ _ _ (by decide), ih]

theorem trimEnd_padRight (hs : ∀ h : s.toList ≠ [], whiteSpace (s.toList.getLast h) = false) :
    trimEnd (padRight n s) = s := by
  rw [trimEnd, toList_padRight, rdropWhile_spaces,
    List.rdropWhile_eq_self_iff.mpr fun h => by rw [hs h]; exact Bool.false_ne_true, String.ofList_toList]

/-! ## Numbers -/

theorem isDigit_spec (h : c.isDigit = true) : 48 ≤ c.toNat ∧ c.toNat ≤ 57 := by
  unfold Char.isDigit at h
  rw [Bool.and_eq_true, decide_eq_true_eq, decide_eq_true_eq] at h
  exact ⟨UInt32.le_iff_toNat_le.mp h.1, UInt32.le_iff_toNat_le.mp h.2⟩

theorem whiteSpace_digit (h : c.isDigit = true) : whiteSpace c = false := by
  obtain ⟨h48, h57⟩ := isDigit_spec h
  simp only [whiteSpace, List.contains_eq_mem, List.mem_cons, List.not_mem_nil, or_false, Bool.or_eq_false_iff,
    Bool.and_eq_false_iff, decide_eq_false_iff_not]
  omega

theorem toList_toString (n : Nat) : (toString n).toList = Nat.toDigits 10 n := by
  rw [Nat.toString_eq_ofList_toDigits, String.toList_ofList]

theorem isDigit_toString (h : c ∈ (toString n).toList) : c.isDigit = true := by
  rw [toList_toString] at h
  exact Nat.isDigit_of_mem_toDigits (by decide) (by decide) h

theorem toString_ne_nil (n : Nat) : (toString n).toList ≠ [] := by
  rw [toList_toString]
  exact Nat.toDigits_ne_nil

theorem ascii_toString (n : Nat) : Ascii (toString n) := fun c hc => by
  have := isDigit_spec (isDigit_toString hc)
  omega

theorem length_toString (h : n < 10 ^ (size + 1)) : (toString n).length ≤ size + 1 := by
  rw [← String.length_toList, toList_toString]
  exact (Nat.length_toDigits_le_iff (by decide) (Nat.succ_pos _)).mpr h

theorem parseDigits_toString (n : Nat) : parseDigits (toString n).toList = some n := by
  have hall : (toString n).toList.all Char.isDigit = true := List.all_eq_true.mpr fun c hc => isDigit_toString hc
  rw [parseDigits, if_pos ⟨toString_ne_nil n, hall⟩, toList_toString]
  conv_rhs => rw [← Nat.ofDigitChars_ten_toDigits (n := n), Nat.ofDigitChars_eq_foldl]
  simp only [Nat.mul_comm]
  rfl

theorem parseUsize_toString (h : n < 2 ^ 64) : parseUsize (toString n) = some n := by
  have hdigits := parseDigits_toString n
  unfold parseUsize
  split
  · next ds hcs =>
    have := isDigit_toString (n := n) (c := '+') (by rw [hcs]; exact List.mem_cons_self)
    cases this
  · rw [hdigits]
    exact Option.filter_eq_some_iff.mpr ⟨rfl, decide_eq_true h⟩

theorem trim_padRight_toString (n size : Nat) : trim (padRight n (toString size)) = toString size := by
  have hdigit : ∀ c ∈ (toString size).toList, whiteSpace c = false := fun c hc => whiteSpace_digit (isDigit_toString hc)
  have hfront : (padRight n (toString size)).toList.dropWhile whiteSpace = (padRight n (toString size)).toList := by
    rw [toList_padRight]
    obtain ⟨c, cs, hcs⟩ := List.exists_cons_of_ne_nil (toString_ne_nil size)
    rw [hcs, List.cons_append, List.dropWhile_cons_of_neg]
    rw [hdigit c (by rw [hcs]; exact List.mem_cons_self)]
    exact Bool.false_ne_true
  rw [trim, hfront]
  exact trimEnd_padRight fun h => hdigit _ (List.getLast_mem h)

/-! ## Headers -/

/-- The columns between the name and the size. -/
def middle : String :=
  padRight 12 (toString 0) ++ padRight 6 (toString 0) ++ padRight 6 (toString 0) ++ padRight 8 "644"

theorem length_middle : (asBytes middle).length = 32 := by
  decide +kernel

theorem asBytes_headerText (name : String) (size : Nat) : asBytes (headerText name size) =
      asBytes (padRight 16 name) ++ asBytes middle ++ asBytes (padRight 10 (toString size)) := by
  unfold headerText middle
  simp only [asBytes_append, List.append_assoc]

/-- What the columns of a header have room for. -/
structure Fits (name : String) (data : Bytes) : Prop where
  ascii : Ascii name
  short : name.length ≤ 16
  size : data.length < 10 ^ 10

def memberBytes (name : String) (data : Bytes) : Bytes :=
  asBytes (headerText name data.length) ++ headerTerminator ++ data ++ if data.length % 2 = 0 then [] else [0x0a]

end

section
variable {name : String} {data out : Bytes}

theorem Fits.length_name (h : Fits name data) : (asBytes (padRight 16 name)).length = 16 :=
  h.ascii.length_padRight h.short

theorem Fits.length_size (h : Fits name data) : (asBytes (padRight 10 (toString data.length))).length = 10 :=
  (ascii_toString _).length_padRight (length_toString h.size)

theorem Fits.length_header (h : Fits name data) : (asBytes (headerText name data.length)).length = 58 := by
  rw [asBytes_headerText, List.length_append, List.length_append, h.length_name, length_middle, h.length_size]

theorem Fits.writeMember (h : Fits name data) : writeMember out name data = .ok (out ++ memberBytes name data) := by
  rw [Archive.writeMember, if_neg (by rw [h.ascii.length_asBytes]; exact Nat.not_lt.mpr h.short)]
  refine (if_neg (not_not.mpr h.length_header)).trans ?_
  simp only [memberBytes, List.append_assoc]

theorem Fits.length_memberBytes (h : Fits name data) :
    (memberBytes name data).length = memberHeaderSize + padEven data.length := by
  have hpad : (if data.length % 2 = 0 then [] else [0x0a] : Bytes).length = data.length % 2 := by
    by_cases heven : data.length % 2 = 0
    · rw [if_pos heven, heven]
      rfl
    · rw [if_neg heven, Nat.mod_two_ne_zero.mp heven]
      rfl
  simp only [memberBytes, List.length_append, h.length_header, hpad, memberHeaderSize, padEven]
  change 58 + 2 + _ + _ = _
  omega

end

end BuildYourOwn.Link.Archive
