import Mathlib.Algebra.Group.Nat.Defs
import Mathlib.Data.List.Induction

/-!
# Numbers as bytes
-/

namespace BuildYourOwn.Lib

/-! ## Big-endian -/

/-- The lowest `w` bytes of `n`, the highest first. -/
def bigEndian : Nat → Nat → List UInt8
  | 0, _ => []
  | w + 1, n => bigEndian w (n / 256) ++ [UInt8.ofNat n]

def ofBigEndian (bytes : List UInt8) : Nat := bytes.foldl (fun n b => n * 256 + b.toNat) 0

@[simp] theorem length_bigEndian (w n : Nat) : (bigEndian w n).length = w := by
  induction w generalizing n with
  | zero => rfl
  | succ w ih => rw [bigEndian, List.length_append, ih, List.length_singleton]

theorem ofBigEndian_concat (bytes : List UInt8) (b : UInt8) :
    ofBigEndian (bytes ++ [b]) = ofBigEndian bytes * 256 + b.toNat := by
  unfold ofBigEndian
  rw [List.foldl_append]
  rfl

theorem ofBigEndian_lt (bytes : List UInt8) : ofBigEndian bytes < 256 ^ bytes.length := by
  induction bytes using List.reverseRecOn with
  | nil => exact Nat.one_pos
  | append_singleton bytes b ih =>
    have hb := b.toNat_lt
    rw [ofBigEndian_concat, List.length_append, List.length_singleton, Nat.pow_succ]
    omega

/-- **A number written in as many bytes** as it was read from is these bytes. -/
theorem bigEndian_ofBigEndian (bytes : List UInt8) : bigEndian bytes.length (ofBigEndian bytes) = bytes := by
  induction bytes using List.reverseRecOn with
  | nil => rfl
  | append_singleton bytes b ih =>
    have hb := b.toNat_lt
    have hhigh : (ofBigEndian bytes * 256 + b.toNat) / 256 = ofBigEndian bytes := by omega
    have hlow : UInt8.ofNat (ofBigEndian bytes * 256 + b.toNat) = b := by
      apply UInt8.toNat_inj.mp
      rw [UInt8.toNat_ofNat']
      omega
    rw [ofBigEndian_concat, List.length_append, List.length_singleton]
    unfold bigEndian
    rw [hhigh, ih, hlow]

/-- **Big-endian bytes** read back, as far as they fit. -/
theorem ofBigEndian_bigEndian (w n : Nat) : ofBigEndian (bigEndian w n) = n % 256 ^ w := by
  induction w generalizing n with
  | zero => rw [Nat.pow_zero, Nat.mod_one]; rfl
  | succ w ih =>
    have hsnoc : ofBigEndian (bigEndian (w + 1) n) =
        ofBigEndian (bigEndian w (n / 256)) * 256 + (UInt8.ofNat n).toNat := ofBigEndian_concat _ _
    have hbyte : (UInt8.ofNat n).toNat = n % 256 := UInt8.toNat_ofNat'
    rw [hsnoc, ih, hbyte, Nat.pow_succ, Nat.mul_comm (256 ^ w) 256, Nat.mod_mul]
    omega

/-! ## Little-endian -/

/-- `to_le_bytes`. -/
def littleEndian (w n : Nat) : List UInt8 := (bigEndian w n).reverse

/-- `from_le_bytes`. -/
def ofLittleEndian (bytes : List UInt8) : Nat := ofBigEndian bytes.reverse

@[simp] theorem length_littleEndian (w n : Nat) : (littleEndian w n).length = w := by
  unfold littleEndian
  rw [List.length_reverse, length_bigEndian]

theorem ofLittleEndian_littleEndian (w n : Nat) : ofLittleEndian (littleEndian w n) = n % 256 ^ w := by
  unfold ofLittleEndian littleEndian
  rw [List.reverse_reverse, ofBigEndian_bigEndian]

/-! ## Zig-zag -/

variable {w : Nat}

/-- The bits one place up, and the sign in the lowest; all of them turned when it is negative. -/
def zigzag (x : BitVec w) : BitVec w := (x <<< 1) ^^^ x.sshiftRight (w - 1)

def unzigzag (y : BitVec w) : BitVec w := (y >>> 1) ^^^ -(y &&& 1#w)

theorem getLsbD_zigzag {x : BitVec w} {i : Nat} (hi : i < w) :
    (zigzag x).getLsbD i = ((!decide (i < 1) && x.getLsbD (i - 1)) ^^ x.msb) := by
  unfold zigzag
  rw [BitVec.getLsbD_xor, BitVec.getLsbD_shiftLeft, BitVec.getLsbD_sshiftRight]
  have hsign : (if w - 1 + i < w then x.getLsbD (w - 1 + i) else x.msb) = x.msb := by
    split
    · rename_i hlt
      rw [show w - 1 + i = w - 1 by omega, BitVec.msb_eq_getLsbD_last]
    · rfl
  rw [hsign]
  simp [hi]

theorem zigzag_and_one (h : 0 < w) (x : BitVec w) : zigzag x &&& 1#w = if x.msb then 1#w else 0#w := by
  apply BitVec.eq_of_getLsbD_eq
  intro i hi
  rw [BitVec.getLsbD_and, getLsbD_zigzag hi, BitVec.getLsbD_one]
  by_cases hzero : i = 0
  · subst hzero
    cases x.msb <;> simp [h]
  · cases x.msb <;> simp [hzero, BitVec.getLsbD_one]

/-- **A zig-zag** reads back. -/
theorem unzigzag_zigzag (h : 0 < w) (x : BitVec w) : unzigzag (zigzag x) = x := by
  unfold unzigzag
  rw [zigzag_and_one h]
  apply BitVec.eq_of_getLsbD_eq
  intro i hi
  have hneg : (-(if x.msb then 1#w else 0#w)).getLsbD i = x.msb := by
    cases x.msb with
    | false => simp
    | true => simp [BitVec.neg_one_eq_allOnes, hi]
  rw [BitVec.getLsbD_xor, BitVec.getLsbD_ushiftRight, hneg]
  by_cases hlast : 1 + i < w
  · rw [getLsbD_zigzag hlast, show 1 + i - 1 = i by omega]
    cases x.msb <;> simp
  · have hout : (zigzag x).getLsbD (1 + i) = false := BitVec.getLsbD_of_ge _ _ (by omega)
    rw [hout, Bool.false_xor, BitVec.msb_eq_getLsbD_last, show w - 1 = i by omega]

/-! ## Digits -/

/-- **A digit above** what is there is added by `or`. -/
theorem or_digit {out digit shift : Nat} (h : out < 2 ^ shift) : out ||| digit <<< shift = out + digit * 2 ^ shift := by
  rw [Nat.shiftLeft_eq, Nat.mul_comm, Nat.or_comm, ← Nat.two_pow_add_eq_or_of_lt h, Nat.add_comm]

end BuildYourOwn.Lib
