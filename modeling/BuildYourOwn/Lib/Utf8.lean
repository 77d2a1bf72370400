import Mathlib.Algebra.Ring.Nat
import Mathlib.Data.List.Basic

/-!
# Strings as bytes

* `asBytes`: the UTF-8 bytes of a string; `fromUTF8_asBytes` reads them back.
* `fromUtf8Lossy`: the string that some bytes are, with a replacement character for what is not UTF-8; what is,
  is read back (`fromUtf8Lossy_asBytes`).
-/

namespace BuildYourOwn.Lib

def asBytes (s : String) : List UInt8 := s.toUTF8.data.toList

theorem asBytes_eq (s : String) : asBytes s = s.toList.flatMap String.utf8EncodeChar := by
  have hof : asBytes (String.ofList s.toList) = s.toList.flatMap String.utf8EncodeChar := by
    show (s.toList.flatMap String.utf8EncodeChar).toByteArray.data.toList = _
    rw [List.toList_data_toByteArray]
  rwa [String.ofList_toList] at hof

theorem asBytes_append (s t : String) : asBytes (s ++ t) = asBytes s ++ asBytes t := by
  rw [asBytes_eq, asBytes_eq, asBytes_eq, String.toList_append, List.flatMap_append]

theorem fromUTF8_asBytes (s : String) : String.fromUTF8? ⟨(asBytes s).toArray⟩ = some s := by
  have hbytes : (⟨(asBytes s).toArray⟩ : ByteArray) = s.toUTF8 := rfl
  rw [hbytes]
  unfold String.fromUTF8?
  rw [dif_pos]
  rfl

/-! ## `String::from_utf8_lossy` -/

/-- The ranges of the bytes that follow this one in UTF-8, if it begins a character. -/
def utf8Tail (b : UInt8) : Option (List (UInt8 × UInt8)) :=
  if b < 0x80 then some []
  else if b < 0xc2 then none
  else if b < 0xe0 then some [(0x80, 0xbf)]
  else if b = 0xe0 then some [(0xa0, 0xbf), (0x80, 0xbf)]
  else if b = 0xed then some [(0x80, 0x9f), (0x80, 0xbf)]
  else if b < 0xf0 then some [(0x80, 0xbf), (0x80, 0xbf)]
  else if b = 0xf0 then some [(0x90, 0xbf), (0x80, 0xbf), (0x80, 0xbf)]
  else if b < 0xf4 then some [(0x80, 0xbf), (0x80, 0xbf), (0x80, 0xbf)]
  else if b = 0xf4 then some [(0x80, 0x8f), (0x80, 0xbf), (0x80, 0xbf)]
  else none

def inRanges : List (UInt8 × UInt8) → List UInt8 → Nat
  | (low, high) :: ranges, b :: bytes => if low ≤ b ∧ b ≤ high then inRanges ranges bytes + 1 else 0
  | _, _ => 0

/-- The first character, and the bytes it took; what is no character is replaced. -/
def utf8Char (b : UInt8) (rest : List UInt8) : Char × Nat :=
  match utf8Tail b with
  | none => (Char.ofNat 0xfffd, 1)
  | some ranges =>
    let n := inRanges ranges rest
    if n < ranges.length then (Char.ofNat 0xfffd, 1 + n)
    else
      let lead := if n = 0 then b.toNat else b.toNat % 2 ^ (6 - n)
      (Char.ofNat ((rest.take n).foldl (fun v t => v * 64 + t.toNat % 64) lead), 1 + n)

/-- The characters of at most so many bytes. -/
def utf8Chars : Nat → List UInt8 → List Char
  | n + 1, b :: rest =>
    let (c, taken) := utf8Char b rest
    c :: utf8Chars n (rest.drop (taken - 1))
  | _, _ => []

def fromUtf8Lossy (bytes : List UInt8) : String := String.ofList (utf8Chars bytes.length bytes)

/-! ## A string is read back -/

theorem utf8Tail_of {b : UInt8} {n : Nat} (hb : b.toNat = n) : utf8Tail b =
    if n < 0x80 then some []
    else if n < 0xc2 then none
    else if n < 0xe0 then some [(0x80, 0xbf)]
    else if n = 0xe0 then some [(0xa0, 0xbf), (0x80, 0xbf)]
    else if n = 0xed then some [(0x80, 0x9f), (0x80, 0xbf)]
    else if n < 0xf0 then some [(0x80, 0xbf), (0x80, 0xbf)]
    else if n = 0xf0 then some [(0x90, 0xbf), (0x80, 0xbf), (0x80, 0xbf)]
    else if n < 0xf4 then some [(0x80, 0xbf), (0x80, 0xbf), (0x80, 0xbf)]
    else if n = 0xf4 then some [(0x80, 0x8f), (0x80, 0xbf), (0x80, 0xbf)]
    else none := by
  subst hb
  simp only [utf8Tail, UInt8.lt_iff_toNat_lt, ← UInt8.toNat_inj]
  rfl

theorem utf8Char_of {c : Char} {b : UInt8} {tail more : List UInt8} (ranges : List (UInt8 × UInt8))
    (hranges : utf8Tail b = some ranges) (hlength : ranges.length = tail.length)
    (hin : inRanges ranges (tail ++ more) = tail.length) (hvalue : tail.foldl (fun v t => v * 64 + t.toNat % 64)
      (if tail.length = 0 then b.toNat else b.toNat % 2 ^ (6 - tail.length)) = c.toNat) :
    utf8Char b (tail ++ more) = (c, 1 + tail.length) := by
  unfold utf8Char
  rw [hranges]
  dsimp only
  rw [hin, if_neg (by omega), List.take_left, hvalue, Char.ofNat_toNat]

theorem inRanges_next {low high b : UInt8} {n : Nat} {ranges : List (UInt8 × UInt8)} {bytes : List UInt8}
    (hb : b.toNat = n) (hlow : low.toNat ≤ n) (hhigh : n ≤ high.toNat) {k : Nat}
    (hrest : inRanges ranges bytes = k) : inRanges ((low, high) :: ranges) (b :: bytes) = k + 1 := by
  rw [inRanges, if_pos ⟨UInt8.le_iff_toNat_le.mpr (hb ▸ hlow), UInt8.le_iff_toNat_le.mpr (hb ▸ hhigh)⟩, hrest]

theorem toNat_byte {n : Nat} (h : n < 256) : (UInt8.ofNat n).toNat = n := by
  rw [UInt8.toNat_ofNat']
  exact Nat.mod_eq_of_lt h

/-- **A character** is read back, whatever follows it. -/
theorem utf8Char_encode (c : Char) : ∃ b tail, String.utf8EncodeChar c = b :: tail ∧
    ∀ more, utf8Char b (tail ++ more) = (c, 1 + tail.length) := by
  have hvalid : c.val.toNat < 0xd800 ∨ 0xdfff < c.val.toNat ∧ c.val.toNat < 0x110000 := c.valid
  have hc : c.toNat = c.val.toNat := rfl
  unfold String.utf8EncodeChar
  dsimp only
  generalize c.val.toNat = v at hvalid hc
  -- what the last bytes of a character are in
  have hlast (k : Nat) : (UInt8.ofNat (v / k % 64 + 128)).toNat = v / k % 64 + 128 := toNat_byte (by omega)
  have hlow (k : Nat) : (0x80 : UInt8).toNat ≤ v / k % 64 + 128 := Nat.le_add_left _ _
  have hhigh (k : Nat) : v / k % 64 + 128 ≤ (0xbf : UInt8).toNat := by show _ ≤ 191; omega
  have hone : v % 64 = v / 1 % 64 := by rw [Nat.div_one]
  rw [hone]
  split
  · refine ⟨_, _, rfl, fun more => utf8Char_of [] ?_ rfl rfl ?_⟩
    · rw [utf8Tail_of (toNat_byte (by omega)), if_pos (by omega)]
    · rw [hc]
      exact toNat_byte (by omega)
  split
  · refine ⟨_, _, rfl, fun more => utf8Char_of [(0x80, 0xbf)] ?_ rfl ?_ ?_⟩
    · rw [utf8Tail_of (toNat_byte (by omega)), if_neg (by omega), if_neg (by omega), if_pos (by omega)]
    · exact inRanges_next (hlast 1) (hlow 1) (hhigh 1) rfl
    · simp only [List.foldl_cons, List.foldl_nil, List.length_cons, List.length_nil]
      rw [hlast, toNat_byte (by omega), if_neg (by decide), hc]
      omega
  split
  · have hlead : (UInt8.ofNat (v / 4096 % 16 + 224)).toNat = v / 4096 % 16 + 224 := toNat_byte (by omega)
    have htail (low high : UInt8) (hranges : utf8Tail (UInt8.ofNat (v / 4096 % 16 + 224)) =
        some [(low, high), (0x80, 0xbf)]) (hfrom : low.toNat ≤ v / 64 % 64 + 128)
        (hto : v / 64 % 64 + 128 ≤ high.toNat) (more : List UInt8) :
        utf8Char (UInt8.ofNat (v / 4096 % 16 + 224))
          ([UInt8.ofNat (v / 64 % 64 + 128), UInt8.ofNat (v / 1 % 64 + 128)] ++ more) = (c, 3) := by
      refine utf8Char_of _ hranges rfl (inRanges_next (hlast 64) hfrom hto
        (inRanges_next (hlast 1) (hlow 1) (hhigh 1) rfl)) ?_
      simp only [List.foldl_cons, List.foldl_nil, List.length_cons, List.length_nil]
      rw [hlast, hlast, hlead, if_neg (by decide), hc]
      omega
    refine ⟨_, _, rfl, ?_⟩
    -- the second byte is bounded where the first one is the least, or leads to the surrogates
    by_cases hleast : v / 4096 % 16 + 224 = 0xe0
    · refine htail 0xa0 0xbf ?_ (by show 160 ≤ _; omega) (hhigh 64)
      rw [utf8Tail_of hlead, if_neg (by omega), if_neg (by omega), if_neg (by omega), if_pos hleast]
    · by_cases hsurrogate : v / 4096 % 16 + 224 = 0xed
      · refine htail 0x80 0x9f ?_ (hlow 64) (by show _ ≤ 159; omega)
        rw [utf8Tail_of hlead, if_neg (by omega), if_neg (by omega), if_neg (by omega), if_neg hleast,
          if_pos hsurrogate]
      · refine htail 0x80 0xbf ?_ (hlow 64) (hhigh 64)
        rw [utf8Tail_of hlead, if_neg (by omega), if_neg (by omega), if_neg (by omega), if_neg hleast,
          if_neg hsurrogate, if_pos (by omega)]
  · have hlead : (UInt8.ofNat (v / 262144 % 8 + 240)).toNat = v / 262144 % 8 + 240 := toNat_byte (by omega)
    have htail (low high : UInt8) (hranges : utf8Tail (UInt8.ofNat (v / 262144 % 8 + 240)) =
        some [(low, high), (0x80, 0xbf), (0x80, 0xbf)]) (hfrom : low.toNat ≤ v / 4096 % 64 + 128)
        (hto : v / 4096 % 64 + 128 ≤ high.toNat) (more : List UInt8) :
        utf8Char (UInt8.ofNat (v / 262144 % 8 + 240)) ([UInt8.ofNat (v / 4096 % 64 + 128),
          UInt8.ofNat (v / 64 % 64 + 128), UInt8.ofNat (v / 1 % 64 + 128)] ++ more) = (c, 4) := by
      refine utf8Char_of _ hranges rfl (inRanges_next (hlast 4096) hfrom hto
        (inRanges_next (hlast 64) (hlow 64) (hhigh 64) (inRanges_next (hlast 1) (hlow 1) (hhigh 1) rfl))) ?_
      simp only [List.foldl_cons, List.foldl_nil, List.length_cons, List.length_nil]
      rw [hlast, hlast, hlast, hlead, if_neg (by decide), hc]
      omega
    refine ⟨_, _, rfl, ?_⟩
    by_cases hleast : v / 262144 % 8 + 240 = 0xf0
    · refine htail 0x90 0xbf ?_ (by show 144 ≤ _; omega) (hhigh 4096)
      rw [utf8Tail_of hlead, if_neg (by omega), if_neg (by omega), if_neg (by omega), if_neg (by omega),
        if_neg (by omega), if_neg (by omega), if_pos hleast]
    · by_cases hmost : v / 262144 % 8 + 240 = 0xf4
      · refine htail 0x80 0x8f ?_ (hlow 4096) (by show _ ≤ 143; omega)
        rw [utf8Tail_of hlead, if_neg (by omega), if_neg (by omega), if_neg (by omega), if_neg (by omega),
          if_neg (by omega), if_neg (by omega), if_neg hleast, if_neg (by omega), if_pos hmost]
      · refine htail 0x80 0xbf ?_ (hlow 4096) (hhigh 4096)
        rw [utf8Tail_of hlead, if_neg (by omega), if_neg (by omega), if_neg (by omega), if_neg (by omega),
          if_neg (by omega), if_neg (by omega), if_neg hleast, if_pos (by omega)]

theorem utf8Chars_encode (cs : List Char) : ∀ n, (cs.flatMap String.utf8EncodeChar).length ≤ n →
    utf8Chars n (cs.flatMap String.utf8EncodeChar) = cs := by
  induction cs with
  | nil =>
    intro n _
    cases n <;> rfl
  | cons c cs ih =>
    intro n hn
    obtain ⟨b, tail, hencode, hchar⟩ := utf8Char_encode c
    rw [List.flatMap_cons, hencode] at hn ⊢
    cases n with
    | zero => simp at hn
    | succ n =>
      have hrest : (cs.flatMap String.utf8EncodeChar).length ≤ n := by
        simp only [List.length_append, List.length_cons] at hn
        omega
      rw [List.cons_append, utf8Chars, hchar]
      dsimp only
      rw [Nat.add_sub_cancel_left, List.drop_left, ih n hrest]

/-- **A string** is read back. -/
theorem fromUtf8Lossy_asBytes (s : String) : fromUtf8Lossy (asBytes s) = s := by
  unfold fromUtf8Lossy
  rw [asBytes_eq, utf8Chars_encode _ _ (Nat.le_refl _), String.ofList_toList]

end BuildYourOwn.Lib
