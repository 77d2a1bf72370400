import Mathlib.Algebra.Ring.Int.Defs
import BuildYourOwn.Kafka.RoundTrip
import BuildYourOwn.Lib.Crc

/-!
# The lab's Kafka writer

Model of `crc32c`, `encodeUnsignedVarint`, `encodeZigZagVarint` and `Writer` of
`site/src/lib/lab/kafka.ts`, with what each writes compared with what the suite's encoder in
`kafkatest/src/proto/records.rs` does.

A `number` that stands for an integer is an `Int`, and so is a `bigint`. An operator on bits makes
32 bits of a `number` first (`toInt32`), so what comes after the first one is a bit vector. An array
of bytes, `number[]` or `Uint8Array`, is `Bytes`.
-/

namespace BuildYourOwn.Lab

open Lib Kafka

/-- What an operator on bits makes of a `number`. -/
def toInt32 (v : Int) : BitVec 32 := BitVec.ofInt 32 v

/-- `v & 0xff`, as a byte. -/
def low (v : BitVec 32) : UInt8 := ⟨(v &&& 0xff).setWidth 8⟩

/-! ## CRC32C -/

/-- `c & 1 ? 0x82f63b78 ^ (c >>> 1) : c >>> 1`. -/
def crcTurn (c : BitVec 32) : BitVec 32 :=
  if c &&& 1 ≠ 0 then 0x82f63b78 ^^^ (c >>> 1) else c >>> 1

def crc32cTable : List (BitVec 32) :=
  (List.range 256).map fun n => Nat.repeat crcTurn 8 (BitVec.ofNat 32 n)

def crc32c (bytes : Bytes) (seed : BitVec 32) : BitVec 32 :=
  bytes.foldl (fun (crc : BitVec 32) b =>
    crc32cTable.getD ((crc ^^^ b.toBitVec.setWidth 32) &&& 0xff).toNat 0 ^^^ (crc >>> 8))
    (seed ^^^ 0xffffffff) ^^^ 0xffffffff

/-! ## Varints -/

/-- The loop of `encodeUnsignedVarint`. -/
def unsignedFrom (v : BitVec 32) : Bytes :=
  if 0x7f < v.toNat then low ((v &&& 0x7f) ||| 0x80) :: unsignedFrom (v >>> 7) else [low v]
termination_by v.toNat
decreasing_by
  rw [BitVec.toNat_ushiftRight, Nat.shiftRight_eq_div_pow]
  omega

def encodeUnsignedVarint (value : Int) : Bytes := unsignedFrom (toInt32 value)

def encodeZigZagVarint (value : Int) : Bytes :=
  encodeUnsignedVarint ((toInt32 value <<< 1) ^^^ (toInt32 value).sshiftRight 31).toNat

/-! ## Writer -/

structure Writer where
  bytes : Bytes := []

namespace Writer

variable (w : Writer)

def raw (v : Bytes) : Writer := ⟨w.bytes ++ v⟩

def i8 (v : Int) : Writer := w.raw [low (toInt32 v)]

def i16 (v : Int) : Writer := w.raw [low ((toInt32 v).sshiftRight 8), low (toInt32 v)]

def i32 (v : Int) : Writer :=
  w.raw [low (toInt32 v >>> 24), low (toInt32 v >>> 16), low (toInt32 v >>> 8), low (toInt32 v)]

def u32 (v : Int) : Writer := w.i32 (toInt32 v).toNat

/-- The shift of a `bigint` keeps its sign, and `& 0xffn` is its remainder by 256. -/
def i64 (v : Int) : Writer :=
  w.raw ((List.range 8).reverse.map fun (i : Nat) => UInt8.ofNat ((v >>> (i * 8)) % 256).toNat)

end Writer

/-! ## The CRC, bit by bit -/

theorem and_one_eq (c : BitVec 32) : c &&& 1 = if c.getLsbD 0 then 1 else 0 := by
  apply BitVec.eq_of_getLsbD_eq
  intro i hi
  rw [BitVec.getLsbD_and]
  by_cases hzero : i = 0
  · subst hzero
    cases c.getLsbD 0 <;> rfl
  · have hone : (1 : BitVec 32).getLsbD i = false := by simp [hzero]
    rw [hone, Bool.and_false]
    cases c.getLsbD 0
    · exact BitVec.getLsbD_zero.symm
    · exact hone.symm

theorem crcBit_eq (c : BitVec 32) : crcBit c = if c.getLsbD 0 then (c >>> 1) ^^^ 0x82f63b78 else c >>> 1 := by
  unfold crcBit
  rw [and_one_eq]
  cases c.getLsbD 0 <;> rfl

theorem crcTurn_eq : crcTurn = crcBit := by
  funext c
  rw [crcBit_eq, crcTurn, and_one_eq, BitVec.xor_comm]
  cases c.getLsbD 0 <;> rfl

theorem shifts_crcBit : Shifts crcBit where
  xor x y := by
    rw [crcBit_eq, crcBit_eq, crcBit_eq, BitVec.getLsbD_xor, BitVec.ushiftRight_xor_distrib]
    apply BitVec.eq_of_getLsbD_eq
    intro i hi
    cases x.getLsbD 0 <;> cases y.getLsbD 0 <;>
      simp only [Bool.xor_false, Bool.xor_true, Bool.not_true, Bool.not_false, if_true,
        Bool.false_eq_true, if_false, BitVec.getLsbD_xor] <;>
      cases (x >>> 1).getLsbD i <;> cases (y >>> 1).getLsbD i <;>
      cases (0x82f63b78 : BitVec 32).getLsbD i <;> rfl
  even x hx := by
    rw [crcBit_eq, hx]
    rfl

theorem getD_crc32cTable {n : BitVec 32} (hn : n.toNat < 256) : crc32cTable.getD n.toNat 0 = Nat.repeat crcBit 8 n := by
  unfold crc32cTable
  rw [crcTurn_eq, List.getD_eq_getElem?_getD, List.getElem?_map, List.getElem?_range hn]
  exact congrArg (Nat.repeat crcBit 8) (BitVec.ofNat_toNat 32 n)

/-- **The table does eight turns at once.** -/
theorem crc32c_eq (bytes : Bytes) : crc32c bytes 0 = Kafka.crc32c bytes := by
  have hfold : ∀ crc : BitVec 32, bytes.foldl (fun (crc : BitVec 32) b =>
      crc32cTable.getD ((crc ^^^ b.toBitVec.setWidth 32) &&& 0xff).toNat 0 ^^^ (crc >>> 8)) crc =
      bytes.foldl (fun crc b => Nat.repeat crcBit 8 (crc ^^^ b.toBitVec.setWidth 32)) crc := by
    induction bytes with
    | nil => exact fun _ => rfl
    | cons b bytes ih =>
      intro crc
      rw [List.foldl_cons, List.foldl_cons, ih]
      congr 1
      have hsmall : ((crc ^^^ b.toBitVec.setWidth 32) &&& 0xff).toNat < 256 := by
        rw [BitVec.toNat_and]
        exact Nat.lt_of_le_of_lt Nat.and_le_right (by decide)
      rw [getD_crc32cTable hsmall, shifts_crcBit.repeat_eq (crc ^^^ b.toBitVec.setWidth 32) 8,
        BitVec.ushiftRight_xor_distrib]
      have hbyte : b.toBitVec.setWidth 32 >>> 8 = 0 := by
        apply BitVec.eq_of_toNat_eq
        have hb := b.toBitVec.isLt
        rw [BitVec.toNat_ushiftRight, BitVec.toNat_setWidth, Nat.shiftRight_eq_div_pow]
        rw [Nat.mod_eq_of_lt (Nat.lt_of_lt_of_le hb (by decide))]
        exact Nat.div_eq_of_lt hb
      rw [hbyte]
      exact congrArg _ (BitVec.xor_zero (x := crc >>> 8)).symm
  unfold crc32c Kafka.crc32c
  rw [hfold]
  exact BitVec.xor_allOnes

/-! ## Both writers write the same -/

theorem toNat_low (x : BitVec 32) : (low x).toNat = x.toNat % 256 := by
  have hand : (x &&& 0xff).toNat = x.toNat % 256 := by
    rw [BitVec.toNat_and]
    exact Nat.and_two_pow_sub_one_eq_mod x.toNat 8
  change ((x &&& 0xff).setWidth 8).toNat = _
  rw [BitVec.toNat_setWidth, hand]
  exact Nat.mod_mod _ _

theorem low_eq (x : BitVec 32) : low x = UInt8.ofNat x.toNat := by
  apply UInt8.toNat_inj.mp
  rw [toNat_low, UInt8.toNat_ofNat']

theorem low_marked (v : BitVec 32) : low ((v &&& 0x7f) ||| 0x80) = UInt8.ofNat v.toNat ||| 0x80 := by
  rw [← low_eq v]
  apply UInt8.eq_of_toBitVec_eq
  apply BitVec.eq_of_getLsbD_eq
  intro i hi
  change ((((v &&& 0x7f) ||| 0x80) &&& 0xff).setWidth 8).getLsbD i =
    ((v &&& 0xff).setWidth 8 ||| 0x80).getLsbD i
  simp only [BitVec.getLsbD_setWidth, BitVec.getLsbD_and, BitVec.getLsbD_or, hi, decide_true,
    Bool.true_and]
  obtain rfl | rfl | rfl | rfl | rfl | rfl | rfl | rfl :
      i = 0 ∨ i = 1 ∨ i = 2 ∨ i = 3 ∨ i = 4 ∨ i = 5 ∨ i = 6 ∨ i = 7 := by omega
  all_goals
    generalize v.getLsbD _ = bit
    cases bit <;> rfl

theorem unsignedFrom_eq (v : BitVec 32) : unsignedFrom v = putUvarlong (v.setWidth 64) := by
  have hwide : ∀ x : BitVec 32, (x.setWidth 64).toNat = x.toNat := fun x =>
    BitVec.toNat_setWidth_of_le (by decide)
  fun_induction unsignedFrom v with
  | case1 v hmore ih =>
    have hshift : v.setWidth 64 >>> 7 = (v >>> 7).setWidth 64 := by
      apply BitVec.eq_of_toNat_eq
      rw [hwide, BitVec.toNat_ushiftRight, BitVec.toNat_ushiftRight, hwide]
    rw [putUvarlong, hwide, if_pos (show 0x80 ≤ v.toNat from hmore), low_marked, ih, hshift]
  | case2 v hlast =>
    rw [putUvarlong, hwide, if_neg (show ¬ 0x80 ≤ v.toNat from hlast), low_eq]

theorem encodeZigZagVarint_eq (value : Int) : encodeZigZagVarint value = putVarint (BitVec.ofInt 32 value) := by
  unfold encodeZigZagVarint encodeUnsignedVarint
  have hback : toInt32 (((toInt32 value <<< 1) ^^^ (toInt32 value).sshiftRight 31).toNat : Int) =
      zigzag (toInt32 value) := by
    unfold toInt32
    rw [BitVec.ofInt_natCast, BitVec.ofNat_toNat, BitVec.setWidth_eq]
    rfl
  rw [hback, unsignedFrom_eq]
  rfl

theorem setWidth_zigzag (x : BitVec 32) : (zigzag x).setWidth 64 = zigzag (x.signExtend 64) := by
  apply BitVec.eq_of_getLsbD_eq
  intro i hi
  have hmsb : (x.signExtend 64).msb = x.msb := by
    rw [BitVec.msb_eq_getLsbD_last, BitVec.getLsbD_signExtend]
    rfl
  rw [getLsbD_zigzag hi, hmsb, BitVec.getLsbD_setWidth, BitVec.getLsbD_signExtend]
  by_cases hin : i < 32
  · rw [getLsbD_zigzag hin, if_pos (show i - 1 < 32 by omega)]
    simp [hi, show i - 1 < 64 by omega]
  · rw [BitVec.getLsbD_of_ge (zigzag x) i (Nat.le_of_not_lt hin)]
    -- only copies of the sign are up there
    have hsign : (if i - 1 < 32 then x.getLsbD (i - 1) else x.msb) = x.msb := by
      split
      · rw [show i - 1 = 31 by omega, BitVec.msb_eq_getLsbD_last]
      · rfl
    rw [hsign]
    simp [show ¬ i < 1 by omega, show i - 1 < 64 by omega]

theorem putVarint_eq (x : BitVec 32) : putVarint x = putVarlong (x.signExtend 64) := by
  unfold putVarint putVarlong
  rw [setWidth_zigzag]

theorem bigEndian_eq (k n : Nat) : bigEndian k n = (List.range k).reverse.map fun i => UInt8.ofNat (n / 256 ^ i) := by
  induction k generalizing n with
  | zero => rfl
  | succ k ih =>
    rw [bigEndian, ih, List.range_succ_eq_map, List.reverse_cons, List.map_append,
      ← List.map_reverse, List.map_map]
    refine congrArg₂ _ (List.map_congr_left fun i _ => ?_) (by simp)
    change _ = UInt8.ofNat (n / 256 ^ (i + 1))
    rw [Nat.div_div_eq_div_mul, Nat.pow_succ']

theorem emod_ediv_emod (v : Int) {p m : Nat} (hp : 0 < p) : v % (p * (256 * m) : Nat) / p % 256 = v / p % 256 := by
  have hpos : (p : Int) ≠ 0 := Int.natCast_ne_zero.mpr (Nat.pos_iff_ne_zero.mp hp)
  have hcast : ((p * (256 * m) : Nat) : Int) = p * (256 * m) := by
    rw [Int.natCast_mul, Int.natCast_mul]
    rfl
  have hv : v % (p * (256 * m) : Nat) = v - p * (256 * (m * (v / (p * (256 * m) : Nat)))) := by
    rw [Int.emod_def, hcast, Int.mul_assoc, Int.mul_assoc]
  rw [hv, Int.sub_eq_add_neg, ← Int.mul_neg, Int.add_mul_ediv_left _ _ hpos, ← Int.mul_neg,
    Int.add_mul_emod_self_left]

/-- Byte `i` of a number, counted from the lowest. -/
theorem byte_of_emod (v : Int) {i n : Nat} (h : 8 * i + 8 ≤ n) :
    UInt8.ofNat ((v % (2 ^ n : Nat)).toNat / 256 ^ i) = UInt8.ofNat ((v >>> (i * 8)) % 256).toNat := by
  have hpow : (256 : Nat) ^ i = 2 ^ (i * 8) := by rw [Nat.mul_comm, Nat.pow_mul]
  have hsplit : (2 : Nat) ^ n = 2 ^ (i * 8) * (256 * 2 ^ (n - (i * 8 + 8))) := by
    rw [← Nat.mul_assoc, show 256 = 2 ^ 8 from rfl, ← Nat.pow_add, ← Nat.pow_add]
    congr 1
    omega
  have hdigit := emod_ediv_emod v (m := 2 ^ (n - (i * 8 + 8))) (Nat.two_pow_pos (i * 8))
  rw [← hsplit] at hdigit
  have hr : 0 ≤ v % (2 ^ n : Nat) :=
    Int.emod_nonneg _ (Int.natCast_ne_zero.mpr (Nat.pos_iff_ne_zero.mp (Nat.two_pow_pos n)))
  apply UInt8.toNat_inj.mp
  rw [UInt8.toNat_ofNat', UInt8.toNat_ofNat', Int.shiftRight_eq_div_pow, hpow, ← hdigit]
  generalize hrest : v % (2 ^ n : Nat) = r at hr ⊢
  obtain ⟨r, rfl⟩ := Int.eq_ofNat_of_zero_le hr
  rw [Int.toNat_natCast]
  omega

theorem toBytes_ofInt (k : Nat) (v : Int) : toBytes k (BitVec.ofInt (8 * k) v) =
      (List.range k).reverse.map fun (i : Nat) => UInt8.ofNat ((v >>> (i * 8)) % 256).toNat := by
  rw [toBytes, bigEndian_eq, BitVec.toNat_ofInt]
  refine List.map_congr_left fun i hi => byte_of_emod v ?_
  have hlt : i < k := by simpa using hi
  omega

theorem low_shift (v : Int) {i : Nat} (hi : i < 4) :
    low (toInt32 v >>> (i * 8)) = UInt8.ofNat ((v >>> (i * 8)) % 256).toNat := by
  rw [low_eq, BitVec.toNat_ushiftRight, toInt32, BitVec.toNat_ofInt, Nat.shiftRight_eq_div_pow,
    ← byte_of_emod v (show 8 * i + 8 ≤ 32 by omega), Nat.mul_comm, Nat.pow_mul]

theorem low_sshiftRight (x : BitVec 32) : low (x.sshiftRight 8) = low (x >>> 8) := by
  apply UInt8.eq_of_toBitVec_eq
  apply BitVec.eq_of_getLsbD_eq
  intro i hi
  change ((x.sshiftRight 8 &&& 0xff).setWidth 8).getLsbD i = ((x >>> 8 &&& 0xff).setWidth 8).getLsbD i
  rw [BitVec.getLsbD_setWidth, BitVec.getLsbD_setWidth, BitVec.getLsbD_and, BitVec.getLsbD_and,
    BitVec.getLsbD_sshiftRight, BitVec.getLsbD_ushiftRight, if_pos (by omega)]
  simp [show ¬ 32 ≤ i by omega]

namespace Writer

variable (w : Writer) (v : Int)

@[simp] theorem bytes_raw (b : Bytes) : (w.raw b).bytes = w.bytes ++ b := rfl

@[simp] theorem bytes_i8 : (w.i8 v).bytes = w.bytes ++ toBytes 1 (BitVec.ofInt 8 v) := by
  refine congrArg (w.bytes ++ ·) ?_
  have hzero := low_shift v (i := 0) (by decide)
  rw [toBytes_ofInt 1 v]
  exact congrArg (· :: []) hzero

@[simp] theorem bytes_i16 : (w.i16 v).bytes = w.bytes ++ toBytes 2 (BitVec.ofInt 16 v) := by
  refine congrArg (w.bytes ++ ·) ?_
  have hzero := low_shift v (i := 0) (by decide)
  have hone := low_shift v (i := 1) (by decide)
  rw [toBytes_ofInt 2 v, low_sshiftRight]
  exact congrArg₂ (fun a b => [a, b]) hone hzero

@[simp] theorem bytes_i32 : (w.i32 v).bytes = w.bytes ++ toBytes 4 (BitVec.ofInt 32 v) := by
  refine congrArg (w.bytes ++ ·) ?_
  have hzero := low_shift v (i := 0) (by decide)
  have hone := low_shift v (i := 1) (by decide)
  have htwo := low_shift v (i := 2) (by decide)
  have hthree := low_shift v (i := 3) (by decide)
  rw [toBytes_ofInt 4 v]
  exact congrArg₂ (fun a b => a ++ b) (congrArg₂ (fun a b => [a, b]) hthree htwo)
    (congrArg₂ (fun a b => [a, b]) hone hzero)

@[simp] theorem bytes_u32 : (w.u32 v).bytes = w.bytes ++ toBytes 4 (BitVec.ofInt 32 v) := by
  rw [u32, bytes_i32, toInt32, BitVec.ofInt_natCast, BitVec.ofNat_toNat, BitVec.setWidth_eq]

@[simp] theorem bytes_i64 : (w.i64 v).bytes = w.bytes ++ toBytes 8 (BitVec.ofInt 64 v) :=
  congrArg (w.bytes ++ ·) (toBytes_ofInt 8 v).symm

end Writer

end BuildYourOwn.Lab
