import Mathlib.Algebra.Ring.Nat
import Mathlib.Algebra.Ring.Int.Defs
import Mathlib.Data.List.Basic

/-!
# LEB128: numbers in groups of seven bits

A number is written seven bits a byte, the lowest first, and every byte but the last is marked
(`Groups`). `unsignedGroups` and `signedGroups` are the shortest such encodings, as a loop writes them
that has at most so many rounds.
-/

namespace BuildYourOwn.Lib

inductive Groups : List UInt8 → Prop
  | last {b : UInt8} (h : b.toNat < 128) : Groups [b]
  | more {b : UInt8} {bs : List UInt8} (h : 128 ≤ b.toNat) (hbs : Groups bs) : Groups (b :: bs)

/-- The number in the low seven bits of the bytes. -/
def ofGroups : List UInt8 → Nat
  | [] => 0
  | b :: bs => b.toNat % 128 + 128 * ofGroups bs

/-- Whether the sign bit of the last byte is set. -/
def signed : List UInt8 → Bool
  | [] => false
  | [b] => 64 ≤ b.toNat % 128
  | _ :: bs => signed bs

theorem ofGroups_lt (bs : List UInt8) : ofGroups bs < 128 ^ bs.length := by
  induction bs with
  | nil => exact Nat.one_pos
  | cons b bs ih =>
    rw [ofGroups, List.length_cons, Nat.pow_succ]
    omega

theorem Groups.ne_nil {bs : List UInt8} (h : Groups bs) : bs ≠ [] := by
  cases h <;> simp

theorem signed_cons {b : UInt8} {bs : List UInt8} (h : bs ≠ []) : signed (b :: bs) = signed bs := by
  cases bs with
  | nil => exact absurd rfl h
  | cons b' bs => rfl

variable {n : Nat}

theorem toNat_group (h : n < 256) : (UInt8.ofNat n).toNat = n := by
  rw [UInt8.toNat_ofNat']
  exact Nat.mod_eq_of_lt h

/-! ## Unsigned -/

def unsignedGroups : Nat → Nat → List UInt8
  | 0, _ => []
  | n + 1, v =>
    if v / 128 = 0 then [UInt8.ofNat (v % 128)]
    else UInt8.ofNat (v % 128 + 128) :: unsignedGroups n (v / 128)

theorem groups_unsigned {n v : Nat} (h : v < 128 ^ n) (hn : 0 < n) : Groups (unsignedGroups n v) := by
  induction n generalizing v with
  | zero => exact absurd hn (Nat.lt_irrefl 0)
  | succ n ih =>
    rw [unsignedGroups]
    split
    · exact .last (by rw [toNat_group (by omega)]; omega)
    · rename_i hmore
      rw [Nat.pow_succ] at h
      have hn' : 0 < n := by
        rcases Nat.eq_zero_or_pos n with rfl | hn'
        · omega
        · exact hn'
      exact .more (by rw [toNat_group (by omega)]; omega) (ih (by omega) hn')

theorem ofGroups_unsigned {n v : Nat} (h : v < 128 ^ n) : ofGroups (unsignedGroups n v) = v := by
  induction n generalizing v with
  | zero =>
    rw [Nat.pow_zero] at h
    change 0 = v
    omega
  | succ n ih =>
    rw [Nat.pow_succ] at h
    rw [unsignedGroups]
    split
    · rw [ofGroups, ofGroups, toNat_group (by omega)]
      omega
    · rw [ofGroups, toNat_group (by omega), ih (by omega)]
      omega

theorem length_unsigned {n k v : Nat} (h : v < 128 ^ k) (hk : 0 < k) : (unsignedGroups n v).length ≤ k := by
  induction n generalizing v k with
  | zero => exact Nat.zero_le k
  | succ n ih =>
    rw [unsignedGroups]
    split
    · exact hk
    · rename_i hmore
      obtain ⟨k, rfl⟩ : ∃ j, k = j + 1 := ⟨k - 1, by omega⟩
      rw [Nat.pow_succ] at h
      have hk' : 0 < k := by
        rcases Nat.eq_zero_or_pos k with rfl | hk'
        · omega
        · exact hk'
      have hrest := ih (v := v / 128) (k := k) (by omega) hk'
      rw [List.length_cons]
      omega

theorem length_unsigned_pos (hn : 0 < n) (v : Nat) : 0 < (unsignedGroups n v).length := by
  obtain ⟨n, rfl⟩ : ∃ j, n = j + 1 := ⟨n - 1, by omega⟩
  rw [unsignedGroups]
  split
  · exact Nat.one_pos
  · exact Nat.succ_pos _

theorem length_unsigned_max (n v : Nat) : (unsignedGroups n v).length ≤ n := by
  induction n generalizing v with
  | zero => exact Nat.le_refl 0
  | succ n ih =>
    rw [unsignedGroups]
    split
    · exact Nat.succ_le_succ (Nat.zero_le n)
    · exact Nat.succ_le_succ (ih _)

theorem length_unsigned_mono {n v w : Nat} (h : v ≤ w) : (unsignedGroups n v).length ≤ (unsignedGroups n w).length := by
  induction n generalizing v w with
  | zero => exact Nat.le_refl 0
  | succ n ih =>
    rw [unsignedGroups]
    split
    · exact length_unsigned_pos (Nat.succ_pos n) w
    · rename_i hmore
      rw [unsignedGroups, if_neg (by omega)]
      exact Nat.succ_le_succ (ih (Nat.div_le_div_right h))

theorem lt_of_length_unsigned {n k v : Nat} (h : (unsignedGroups n v).length ≤ k) (hk : k < n) : v < 128 ^ k := by
  induction n generalizing k v with
  | zero => exact absurd hk (Nat.not_lt_zero k)
  | succ n ih =>
    rw [unsignedGroups] at h
    split at h
    · have hpow : 128 ^ 1 ≤ 128 ^ k := Nat.pow_le_pow_right (by omega) h
      omega
    · rw [List.length_cons] at h
      obtain ⟨k, rfl⟩ : ∃ j, k = j + 1 := ⟨k - 1, by omega⟩
      have hlt := ih (Nat.le_of_succ_le_succ h) (Nat.lt_of_succ_lt_succ hk)
      rw [Nat.pow_succ]
      omega

/-- **A length that stands before what it counts** is found from the total of the two: the length of the total
is at most one more, and then the number it leaves is as long. -/
theorem length_unsigned_total (n v : Nat) : (unsignedGroups n ((unsignedGroups n v).length + v -
        (unsignedGroups n ((unsignedGroups n v).length + v)).length)).length = (unsignedGroups n v).length := by
  rcases Nat.eq_zero_or_pos n with rfl | hn
  · rfl
  generalize hcount : (unsignedGroups n v).length = count
  have hpos : 0 < count := hcount ▸ length_unsigned_pos hn v
  have hmono : count ≤ (unsignedGroups n (count + v)).length :=
    hcount ▸ length_unsigned_mono (Nat.le_add_left v _)
  rcases Nat.eq_or_lt_of_le hmono with hsame | hmore
  · rw [← hsame, Nat.add_sub_cancel_left, hcount]
  have hroom : count < n := Nat.lt_of_lt_of_le hmore (length_unsigned_max n _)
  have hv : v < 128 ^ count := lt_of_length_unsigned (Nat.le_of_eq hcount) hroom
  have hsum : 128 ^ count ≤ count + v := by
    by_contra hless
    exact absurd (length_unsigned (n := n) (Nat.not_le.mp hless) hpos) (Nat.not_le.mpr hmore)
  have hpow : 128 ^ count = 128 * 128 ^ (count - 1) := by
    conv_lhs => rw [show count = count - 1 + 1 by omega, Nat.pow_succ, Nat.mul_comm]
  have hself : count - 1 < 128 ^ (count - 1) := Nat.lt_pow_self (by omega)
  have hone : (unsignedGroups n (count + v)).length = count + 1 := by
    have hnext : 128 ^ (count + 1) = 128 * 128 ^ count := by rw [Nat.pow_succ, Nat.mul_comm]
    have hle := length_unsigned (n := n) (k := count + 1) (v := count + v) (by omega) (Nat.succ_pos _)
    exact Nat.le_antisymm hle hmore
  rw [hone, show count + v - (count + 1) = v - 1 by omega]
  refine Nat.le_antisymm (hcount ▸ length_unsigned_mono (Nat.sub_le v 1)) ?_
  by_contra hless
  have hbefore := lt_of_length_unsigned (Nat.le_refl (unsignedGroups n (v - 1)).length) (by omega)
  have hpows : 128 ^ (unsignedGroups n (v - 1)).length ≤ 128 ^ (count - 1) :=
    Nat.pow_le_pow_right (by omega) (by omega)
  omega

/-! ## Signed -/

def signedGroups : Nat → Int → List UInt8
  | 0, _ => []
  | n + 1, v =>
    let byte := (v % 128).toNat
    let rest := v / 128
    if (rest = 0 ∧ byte < 64) ∨ (rest = -1 ∧ 64 ≤ byte) then [UInt8.ofNat byte]
    else UInt8.ofNat (byte + 128) :: signedGroups n rest

/-- What there is room for in one byte and `n` more. -/
def SignedFits (n : Nat) (v : Int) : Prop := -(64 * 128 ^ n) ≤ v ∧ v < 64 * 128 ^ n

variable {v : Int}

theorem SignedFits.zero (h : SignedFits 0 v) :
    (v / 128 = 0 ∧ (v % 128).toNat < 64) ∨ (v / 128 = -1 ∧ 64 ≤ (v % 128).toNat) := by
  obtain ⟨hlow, hhigh⟩ := h
  omega

theorem SignedFits.rest (h : SignedFits (n + 1) v) : SignedFits n (v / 128) := by
  obtain ⟨hlow, hhigh⟩ := h
  rw [Int.pow_succ] at hlow hhigh
  constructor <;> omega

theorem groups_signed (h : SignedFits n v) : Groups (signedGroups (n + 1) v) := by
  induction n generalizing v with
  | zero =>
    rw [signedGroups, if_pos h.zero]
    exact .last (by rw [toNat_group (by omega)]; omega)
  | succ n ih =>
    rw [signedGroups]
    split
    · exact .last (by rw [toNat_group (by omega)]; omega)
    · exact .more (by rw [toNat_group (by omega)]; omega) (ih h.rest)

theorem length_signed (m : Nat) (h : SignedFits n v) : (signedGroups m v).length ≤ n + 1 := by
  induction m generalizing n v with
  | zero => exact Nat.zero_le _
  | succ m ih =>
    rw [signedGroups]
    split
    · exact Nat.succ_le_succ (Nat.zero_le n)
    · rename_i hmore
      cases n with
      | zero => exact absurd h.zero hmore
      | succ n =>
        rw [List.length_cons]
        exact Nat.succ_le_succ (ih h.rest)

/-- **A signed number**, counted from the sign bit of its last byte. -/
theorem ofGroups_signed (h : SignedFits n v) : (ofGroups (signedGroups (n + 1) v) : Int) =
      v + if signed (signedGroups (n + 1) v) then 128 ^ (signedGroups (n + 1) v).length else 0 := by
  have hone {b : Nat} (hb : b < 128) : ofGroups [UInt8.ofNat b] = b ∧
      signed [UInt8.ofNat b] = decide (64 ≤ b) := by
    constructor
    · rw [ofGroups, ofGroups, toNat_group (by omega)]
      omega
    · rw [signed, toNat_group (by omega), Nat.mod_eq_of_lt hb]
  have hend {v : Int} (hlast : (v / 128 = 0 ∧ (v % 128).toNat < 64) ∨
      (v / 128 = -1 ∧ 64 ≤ (v % 128).toNat)) :
      (ofGroups [UInt8.ofNat (v % 128).toNat] : Int) =
        v + if signed [UInt8.ofNat (v % 128).toNat] then 128 ^ 1 else 0 := by
    obtain ⟨hvalue, hsigned⟩ := hone (b := (v % 128).toNat) (by omega)
    rw [hvalue, hsigned]
    rcases hlast with ⟨hrest, hbyte⟩ | ⟨hrest, hbyte⟩
    · rw [if_neg (by simpa using hbyte)]
      omega
    · rw [if_pos (by simpa using hbyte)]
      omega
  induction n generalizing v with
  | zero =>
    rw [signedGroups, if_pos h.zero]
    exact hend h.zero
  | succ n ih =>
    rw [signedGroups]
    split
    · rename_i hlast
      exact hend hlast
    · have hrest := ih h.rest
      rw [signed_cons (groups_signed h.rest).ne_nil, ofGroups, toNat_group (by omega), List.length_cons]
      cases hs : signed (signedGroups (n + 1) (v / 128)) with
      | false =>
        simp only [hs, Bool.false_eq_true, if_false] at hrest ⊢
        omega
      | true =>
        simp only [hs, if_true] at hrest ⊢
        rw [Int.pow_succ]
        omega

theorem signed_signedGroups (h : SignedFits n v) : signed (signedGroups (n + 1) v) = decide (v < 0) := by
  have hlt : (ofGroups (signedGroups (n + 1) v) : Int) < 128 ^ (signedGroups (n + 1) v).length := by
    exact_mod_cast ofGroups_lt _
  have hvalue := ofGroups_signed h
  by_cases hs : signed (signedGroups (n + 1) v) = true
  · rw [if_pos hs] at hvalue
    exact hs.trans (decide_eq_true (by omega)).symm
  · rw [if_neg hs] at hvalue
    exact (Bool.eq_false_iff.mpr hs).trans (decide_eq_false (by omega)).symm

end BuildYourOwn.Lib
