import BuildYourOwn.Wasm.Instr
import Mathlib.Tactic.Ring

/-!
# LEB128, shortest and padded

Model of `uleb_padded` and `sleb_padded` (`wasmtest/src/wasm/encode.rs`), beside `uleb` and `sleb`, and what the four
write, read as LEB128: all bytes but the last are marked, and a signed number counts from the sign bit of the last.

* `no_bytes`: padded to no byte at all, a number is not written.
-/

namespace BuildYourOwn.Wasm

open Lib

/-- The loop of `uleb_padded` and of `sleb_padded`, with so many bytes to come. -/
def padded (v : Int) : Nat → Bytes
  | 0 => []
  | n + 1 =>
    let last := n = 0
    let byte := (v % 128).toNat
    UInt8.ofNat (if last then byte else byte + 128) :: padded (v / 128) n

def ulebPadded (v : UInt64) (len : Nat) : Bytes := padded v.toNat len

def slebPadded (v : Int64) (len : Nat) : Bytes := padded v.toInt len

def Unsigned (bs : Bytes) (v : Nat) : Prop := Groups bs ∧ ofGroups bs = v

def Signed (bs : Bytes) (v : Int) : Prop :=
  Groups bs ∧ (ofGroups bs : Int) - (if signed bs then 128 ^ bs.length else 0) = v

theorem length_padded (v : Int) (n : Nat) : (padded v n).length = n := by
  induction n generalizing v with
  | zero => rfl
  | succ n ih => simp [padded, ih]

theorem groups_padded (v : Int) (n : Nat) : Groups (padded v (n + 1)) := by
  induction n generalizing v with
  | zero => exact .last (by simp only [if_true]; rw [toNat_group (by omega)]; omega)
  | succ n ih => exact .more (by simp only [Nat.succ_ne_zero, if_false]; rw [toNat_group (by omega)]; omega) (ih _)

theorem ofGroups_padded (v : Int) (n : Nat) : (ofGroups (padded v n) : Int) = v % 128 ^ n := by
  induction n generalizing v with
  | zero => simp [padded, ofGroups]
  | succ n ih =>
    have hbyte : (UInt8.ofNat (if n = 0 then (v % 128).toNat else (v % 128).toNat + 128)).toNat % 128 =
        (v % 128).toNat := by
      split <;> rw [toNat_group (by omega)] <;> omega
    rw [padded, ofGroups, hbyte]
    push_cast
    rw [ih, Int.pow_succ, Int.mul_comm (128 ^ n), Int.emod_def v (128 * _), Int.emod_def _ (128 ^ n), Int.mul_assoc,
      ← Int.ediv_ediv_of_nonneg (by decide)]
    omega

theorem signed_eq {bs : Bytes} (h : Groups bs) : signed bs = decide (64 * 128 ^ (bs.length - 1) ≤ ofGroups bs) := by
  induction h with
  | last h => simp [signed, ofGroups]
  | @more b bs h hbs ih =>
    obtain ⟨m, hm⟩ : ∃ m, bs.length = m + 1 := ⟨bs.length - 1, by have := List.length_pos_of_ne_nil hbs.ne_nil; omega⟩
    rw [signed_cons hbs.ne_nil, ih, ofGroups, List.length_cons, hm, Nat.add_sub_cancel, Nat.add_sub_cancel,
      Nat.pow_succ]
    exact decide_eq_decide.mpr (by omega)

theorem emod_room {v p : Int} (hlow : -(64 * p) ≤ v) (hhigh : v < 64 * p) :
    v % (p * 128) = v + if v < 0 then p * 128 else 0 := by
  split
  · rw [← Int.add_emod_right, Int.emod_eq_of_lt (by omega) (by omega)]
  · rw [Int.emod_eq_of_lt (by omega) (by omega), Int.add_zero]

theorem Unsigned.length {bs : Bytes} {v : Nat} (h : Unsigned bs v) : (uleb v).length ≤ bs.length :=
  length_unsigned (h.2 ▸ ofGroups_lt bs) (List.length_pos_of_ne_nil h.1.ne_nil)

theorem Signed.length {bs : Bytes} {v : Int} (h : Signed bs v) : (sleb v).length ≤ bs.length := by
  obtain ⟨hgroups, rfl⟩ := h
  obtain ⟨m, hm⟩ : ∃ m, bs.length = m + 1 := ⟨bs.length - 1, by have := List.length_pos_of_ne_nil hgroups.ne_nil; omega⟩
  have hroom : (ofGroups bs : Int) < 128 ^ m * 128 := by
    have := ofGroups_lt bs
    rw [hm, Nat.pow_succ] at this
    exact_mod_cast this
  rw [hm]
  refine length_signed 10 ?_
  rw [signed_eq hgroups, hm, Nat.add_sub_cancel, SignedFits, Int.pow_succ]
  by_cases hsign : 64 * 128 ^ m ≤ ofGroups bs
  · have : (64 * 128 ^ m : Int) ≤ ofGroups bs := by exact_mod_cast hsign
    simp only [hsign, decide_true, if_true]
    omega
  · have : (ofGroups bs : Int) < 64 * 128 ^ m := by exact_mod_cast Nat.not_le.mp hsign
    simp only [hsign, decide_false, Bool.false_eq_true, if_false]
    omega

/-- **The writers are exact**: what `uleb` and `sleb` write is read as the number, and so are no fewer bytes; what is
padded has the length, and is read as the number where so many bytes have room for it. -/
theorem leb128_exact :
    (∀ v : UInt64, Unsigned (uleb v.toNat) v.toNat ∧
      ∀ bs, Unsigned bs v.toNat → (uleb v.toNat).length ≤ bs.length) ∧
    (∀ v : Int64, Signed (sleb v.toInt) v.toInt ∧ ∀ bs, Signed bs v.toInt → (sleb v.toInt).length ≤ bs.length) ∧
    (∀ v len, (ulebPadded v len).length = len ∧
      (0 < len → v.toNat < 2 ^ (7 * len) → Unsigned (ulebPadded v len) v.toNat)) ∧
    ∀ v len, (slebPadded v len).length = len ∧
      (0 < len → -2 ^ (7 * len - 1) ≤ v.toInt → v.toInt < 2 ^ (7 * len - 1) → Signed (slebPadded v len) v.toInt) := by
  refine ⟨fun v => ⟨?_, fun _ => Unsigned.length⟩, fun v => ⟨?_, fun _ => Signed.length⟩,
    fun v len => ⟨length_padded .., ?_⟩,
    fun v len => ⟨length_padded .., ?_⟩⟩
  · have hv : v.toNat < 128 ^ 10 := v.toNat_lt.trans (by decide)
    exact ⟨groups_unsigned hv (by decide), ofGroups_unsigned hv⟩
  · have hv : SignedFits 9 v.toInt := by
      have := v.le_toInt
      have := v.toInt_lt
      constructor <;> omega
    exact ⟨groups_signed hv, by rw [sleb, ofGroups_signed hv]; exact Int.add_sub_cancel ..⟩
  · intro hlen hv
    obtain ⟨n, rfl⟩ : ∃ n, len = n + 1 := ⟨len - 1, by omega⟩
    refine ⟨groups_padded .., ?_⟩
    have hvalue := ofGroups_padded v.toNat (n + 1)
    rw [Int.emod_eq_of_lt (by omega) (by rw [pow_mul] at hv; exact_mod_cast hv)] at hvalue
    exact_mod_cast hvalue
  · intro hlen hlow hhigh
    obtain ⟨n, rfl⟩ : ∃ n, len = n + 1 := ⟨len - 1, by omega⟩
    refine ⟨groups_padded .., ?_⟩
    have hpow : (2 : Int) ^ (7 * (n + 1) - 1) = 64 * 128 ^ n := by
      rw [show 7 * (n + 1) - 1 = 6 + 7 * n by omega, pow_add, pow_mul]
      rfl
    rw [hpow] at hlow hhigh
    have hvalue := ofGroups_padded v.toInt (n + 1)
    rw [Int.pow_succ, emod_room hlow hhigh] at hvalue
    rw [slebPadded, signed_eq (groups_padded ..), length_padded, Nat.add_sub_cancel, Int.pow_succ]
    have hsign : (64 * 128 ^ n ≤ ofGroups (padded v.toInt (n + 1))) ↔ v.toInt < 0 := by
      rw [← Int.ofNat_le, hvalue]
      push_cast
      split <;> omega
    simp [hsign, hvalue]

/-- **No byte at all** holds no number, not even zero. -/
theorem padded_to_nothing : ¬ ∀ (v : UInt64) (len : Nat), v.toNat < 2 ^ (7 * len) →
    Unsigned (ulebPadded v len) v.toNat := fun h => (h 0 0 (by decide)).1.ne_nil rfl

end BuildYourOwn.Wasm
