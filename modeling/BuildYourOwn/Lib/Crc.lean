import Mathlib.Algebra.Ring.Nat

/-!
# A register that is shifted down, bit by bit or a byte at a time

A cyclic redundancy check turns a register one bit at a time: it shifts the register down, and adds a
polynomial when a one falls out. That is linear, so what the low bits do can be looked up and the
rest only shifts: `Shifts.repeat_eq` is what makes a table of bytes do the work of eight turns.
-/

namespace BuildYourOwn.Lib

variable {w : ℕ} {f : BitVec w → BitVec w}

/-- One turn of the register: linear, and only a shift when a zero falls out. -/
structure Shifts (f : BitVec w → BitVec w) : Prop where
  xor : ∀ x y, f (x ^^^ y) = f x ^^^ f y
  even : ∀ x, x.getLsbD 0 = false → f x = x >>> 1

theorem Shifts.repeat_xor (h : Shifts f) (n : ℕ) (x y : BitVec w) :
    Nat.repeat f n (x ^^^ y) = Nat.repeat f n x ^^^ Nat.repeat f n y := by
  induction n with
  | zero => rfl
  | succ n ih =>
    rw [Nat.repeat, Nat.repeat, Nat.repeat, ih, h.xor]

theorem Shifts.repeat_zeros (h : Shifts f) {n : ℕ} {x : BitVec w}
    (hx : ∀ i < n, x.getLsbD i = false) : Nat.repeat f n x = x >>> n := by
  induction n with
  | zero => exact (BitVec.ushiftRight_zero x).symm
  | succ n ih =>
    rw [Nat.repeat, ih fun i hi => hx i (Nat.lt_succ_of_lt hi), h.even, ← BitVec.shiftRight_add]
    rw [BitVec.getLsbD_ushiftRight]
    exact hx n (Nat.lt_succ_self n)

theorem low_xor_high (x : BitVec w) (n : ℕ) : (x &&& BitVec.ofNat w (2 ^ n - 1)) ^^^ (x >>> n) <<< n = x := by
  apply BitVec.eq_of_getLsbD_eq
  intro i hi
  rw [BitVec.getLsbD_xor, BitVec.getLsbD_and, BitVec.getLsbD_shiftLeft,
    BitVec.getLsbD_ushiftRight, BitVec.getLsbD_ofNat, Nat.testBit_two_pow_sub_one]
  by_cases hlow : i < n
  · simp [hi, hlow]
  · simp [hi, hlow, Nat.add_sub_cancel' (Nat.le_of_not_lt hlow)]

/-- **Turning `n` times** is looking up what the low `n` bits do, and shifting by `n`. -/
theorem Shifts.repeat_eq (h : Shifts f) (x : BitVec w) (n : ℕ) :
    Nat.repeat f n x = Nat.repeat f n (x &&& BitVec.ofNat w (2 ^ n - 1)) ^^^ x >>> n := by
  have hzeros : ∀ i < n, ((x >>> n) <<< n).getLsbD i = false := by
    intro i hi
    rw [BitVec.getLsbD_shiftLeft]
    simp [hi]
  have hback : (x >>> n) <<< n >>> n = x >>> n := by
    apply BitVec.eq_of_getLsbD_eq
    intro i hi
    rw [BitVec.getLsbD_ushiftRight, BitVec.getLsbD_shiftLeft, BitVec.getLsbD_ushiftRight,
      Nat.add_sub_cancel_left]
    by_cases hin : n + i < w
    · simp [hin]
    · simp [hin, BitVec.getLsbD_of_ge x (n + i) (Nat.le_of_not_lt hin)]
  calc Nat.repeat f n x
      = Nat.repeat f n ((x &&& BitVec.ofNat w (2 ^ n - 1)) ^^^ (x >>> n) <<< n) := by
        rw [low_xor_high]
    _ = Nat.repeat f n (x &&& BitVec.ofNat w (2 ^ n - 1)) ^^^ x >>> n := by
        rw [h.repeat_xor, h.repeat_zeros hzeros, hback]

end BuildYourOwn.Lib
