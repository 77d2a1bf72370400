import BuildYourOwn.Lib.Encoding
import BuildYourOwn.Lib.Reader

/-!
# Kafka's wire: fixed-width numbers, varints, nullable byte strings

Model of the lower half of `kafkatest/src/proto/records.rs`: the `Cursor` with its reads, and
`put_uvarlong`, `put_varint`, `put_varlong`, `put_nullable`.

* A failure is an `anyhow` error, with its contexts from the outermost in, or a panic: a slice out of
  range, or a `usize` that would fall below zero.
* `u64`, `i64`, `i32` are bit vectors, so what a shift pushes out is lost as in the source.

Results: each read takes back what the write of the same kind put (`number_reads`, `uvarlong_reads`,
`varint_reads`, `varlong_reads`, `nullable_reads`), and on bytes of any kind it returns or fails with an
error (`uvarlong_tame`, `nullable_tame`).
-/

namespace BuildYourOwn.Kafka

open Lib Lib.Reader

abbrev Bytes := List UInt8

/-- Why a call does not return a value. -/
inductive Failure where
  | error (chain : List String)
  | panic
deriving DecidableEq

/-- `Context::context`: one more text around an error. -/
def Failure.context (text : String) : Failure → Failure
  | .error chain => .error (text :: chain)
  | .panic => .panic

/-- An error whose text prints `a - b`, two `usize`s. -/
def Failure.printing (a b : Nat) (text : Nat → String) : Failure :=
  if b ≤ a then .error [text (a - b)] else .panic

/-- A computation that reads at a `Cursor`. -/
abbrev Read := Reader UInt8 Failure

def context {α : Type} (text : String) (r : Read α) : Read α := r.mapError (Failure.context text)

def inContext {α : Type} (text : String) (x : Except Failure α) : Except Failure α :=
  x.mapError (Failure.context text)

/-! ## Cursor -/

/-- What `Cursor::take` says when too little is left. -/
def short (n left : Nat) : Failure := .error [s!"need {n} bytes, {left} remain"]

/-- `Cursor::take`, whose slice would panic if it were out of range. -/
def take (n : Nat) : Read Bytes := fun c =>
  if c.buf.length - c.pos < n then .error (short n (c.buf.length - c.pos))
  else if c.pos + n ≤ c.buf.length then
    .ok ((c.buf.drop c.pos).take n, { c with pos := c.pos + n })
  else .error .panic

/-- The big-endian number of the next `w` bytes, as `n` bits. -/
def number (w n : Nat) : Read (BitVec n) := do
  let b ← take w
  pure (BitVec.ofNat n (ofBigEndian b))

def i8 : Read (BitVec 8) := number 1 8

def i16 : Read (BitVec 16) := number 2 16

def i32 : Read (BitVec 32) := number 4 32

def u32 : Read (BitVec 32) := i32

def i64 : Read (BitVec 64) := number 8 64

/-- The loop of `Cursor::uvarlong`. -/
def uvarlongFrom (shift : Nat) (out : BitVec 64) : Read (BitVec 64) :=
  if 63 < shift then fail (.error ["varint is longer than 10 bytes"])
  else do
    let b ← number 1 8
    let out := out ||| (b &&& 0x7f).setWidth 64 <<< shift
    if b &&& 0x80 = 0 then pure out else uvarlongFrom (shift + 7) out
termination_by 64 - shift

def uvarlong : Read (BitVec 64) := uvarlongFrom 0 0

def varint : Read (BitVec 32) := do
  let v ← uvarlong
  require (v.toNat ≤ 0xffffffff) (.error ["varint does not fit in 32 bits"])
  pure (unzigzag (v.setWidth 32))

def varlong : Read (BitVec 64) := do
  let v ← uvarlong
  pure (unzigzag v)

def nullable : Read (Option Bytes) := do
  let n ← varint
  if n.toInt = -1 then pure none
  else do
    require (0 ≤ n.toInt) (.error [s!"length {n.toInt} is negative but not -1"])
    let bytes ← take n.toNat
    pure (some bytes)

/-! ## What is written -/

/-- `to_be_bytes` of a number of `w` bytes. -/
def toBytes (w : Nat) {n : Nat} (x : BitVec n) : Bytes := bigEndian w x.toNat

def putUvarlong (v : BitVec 64) : Bytes :=
  if 0x80 ≤ v.toNat then (UInt8.ofNat v.toNat ||| 0x80) :: putUvarlong (v >>> 7)
  else [UInt8.ofNat v.toNat]
termination_by v.toNat
decreasing_by
  rw [BitVec.toNat_ushiftRight, Nat.shiftRight_eq_div_pow]
  omega

def putVarint (v : BitVec 32) : Bytes := putUvarlong ((zigzag v).setWidth 64)

def putVarlong (v : BitVec 64) : Bytes := putUvarlong (zigzag v)

def putNullable : Option Bytes → Bytes
  | none => putVarint (-1)
  | some b => putVarint (BitVec.ofNat 32 b.length) ++ b

/-! ## Reading back -/

variable {bs : Bytes}

theorem context_reads {α : Type} {r : Read α} {a : α} (text : String)
    (h : Reads r bs a) : Reads (context text r) bs a := h.mapError

/-- **The slice of `take`** is in range when the cursor is. -/
theorem take_eq {c : Cursor UInt8} (h : c.pos ≤ c.buf.length) (n : Nat) : take n c = Reader.take (short n) n c := by
  unfold take Reader.take
  by_cases hshort : c.buf.length - c.pos < n
  · rw [if_pos hshort, if_pos hshort]
  · rw [if_neg hshort, if_neg hshort, if_pos (by omega)]

theorem take_reads {n : Nat} (h : bs.length = n) : Reads (take n) bs bs := by
  subst h
  intro before rest
  unfold ReadsAt
  rw [take_eq (by simp)]
  exact Reads.take _ bs before rest

@[simp] theorem length_toBytes (w : Nat) {n : Nat} (x : BitVec n) : (toBytes w x).length = w :=
  length_bigEndian w x.toNat

theorem number_reads {w n : Nat} (h : 2 ^ n ≤ 256 ^ w) (x : BitVec n) : Reads (number w n) (toBytes w x) x := by
  have hread := (take_reads (length_toBytes w x)).map fun b => BitVec.ofNat n (ofBigEndian b)
  have hvalue : BitVec.ofNat n (ofBigEndian (toBytes w x)) = x := by
    unfold toBytes
    rw [ofBigEndian_bigEndian, Nat.mod_eq_of_lt (Nat.lt_of_lt_of_le x.isLt h)]
    rw [BitVec.ofNat_toNat, BitVec.setWidth_eq]
  rw [hvalue] at hread
  exact hread

theorem i8_reads (x : BitVec 8) : Reads i8 (toBytes 1 x) x := number_reads (by decide) x

theorem i16_reads (x : BitVec 16) : Reads i16 (toBytes 2 x) x := number_reads (by decide) x

theorem i32_reads (x : BitVec 32) : Reads i32 (toBytes 4 x) x := number_reads (by decide) x

theorem i64_reads (x : BitVec 64) : Reads i64 (toBytes 8 x) x := number_reads (by decide) x

/-! ### Varints -/

theorem ofBigEndian_byte (b : UInt8) : BitVec.ofNat 8 (ofBigEndian [b]) = b.toBitVec := by
  apply BitVec.eq_of_toNat_eq
  show (0 * 256 + b.toNat) % 2 ^ 8 = b.toNat
  rw [Nat.zero_mul, Nat.zero_add, Nat.mod_eq_of_lt b.toNat_lt]

theorem byte_reads (b : UInt8) : Reads (number 1 8) [b] b.toBitVec := by
  have htake : Reads (take 1) [b] [b] := take_reads rfl
  have hread := htake.map fun b => BitVec.ofNat 8 (ofBigEndian b)
  rw [ofBigEndian_byte] at hread
  exact hread

theorem toNat_and_low (x : BitVec 8) : (x &&& 0x7f).toNat = x.toNat % 128 := by
  rw [BitVec.toNat_and]
  exact Nat.and_two_pow_sub_one_eq_mod x.toNat 7

theorem and_high (x : BitVec 8) : x &&& 0x80 = 0 ↔ x.toNat < 128 := by
  have hbit : x &&& 0x80 = if x.getLsbD 7 then BitVec.twoPow 8 7 else 0#8 := BitVec.and_twoPow x 7
  have hmsb : x.getLsbD 7 = decide (128 ≤ x.toNat) := BitVec.msb_eq_decide x
  rw [hbit, hmsb]
  by_cases h : 128 ≤ x.toNat
  · simp [h]
  · simp [h]
    omega

theorem or_high_and_low (x : BitVec 8) : (x ||| 0x80) &&& 0x7f = x &&& 0x7f := by
  rw [BitVec.and_or_distrib_right]
  exact BitVec.or_zero

theorem or_high_and_high (x : BitVec 8) : (x ||| 0x80) &&& 0x80 ≠ 0 := by
  rw [ne_eq, and_high, BitVec.toNat_or, Nat.not_lt]
  exact Nat.right_le_or

/-- A round of `uvarlong` adds seven bits above those there are, as long as they fit. -/
theorem toNat_or_low {out : BitVec 64} {b : BitVec 8} {shift : Nat} (hout : out.toNat < 2 ^ shift)
    (hfit : out.toNat + b.toNat % 128 * 2 ^ shift < 2 ^ 64) :
    (out ||| (b &&& 0x7f).setWidth 64 <<< shift).toNat = out.toNat + b.toNat % 128 * 2 ^ shift := by
  have hlow : ((b &&& 0x7f).setWidth 64).toNat = b.toNat % 128 := by
    rw [BitVec.toNat_setWidth, toNat_and_low]
    omega
  have hdigit : ((b &&& 0x7f).setWidth 64 <<< shift).toNat = (b.toNat % 128) <<< shift := by
    rw [BitVec.toNat_shiftLeft, hlow, Nat.shiftLeft_eq]
    apply Nat.mod_eq_of_lt
    omega
  rw [BitVec.toNat_or, hdigit, or_digit hout]

/-- **The loop of `uvarlong`** puts the bits it reads above those it has. -/
theorem uvarlongFrom_reads (v : BitVec 64) : ∀ (shift : Nat) (out : BitVec 64),
    out.toNat < 2 ^ shift → out.toNat + v.toNat * 2 ^ shift < 2 ^ 64 → shift ≤ 63 →
      Reads (uvarlongFrom shift out) (putUvarlong v) (BitVec.ofNat 64 (out.toNat + v.toNat * 2 ^ shift)) := by
  fun_induction putUvarlong v with
  | case1 v hmore ih =>
    intro shift out hout hfit hshift
    have hlow : (BitVec.ofNat 8 v.toNat ||| 0x80).toNat % 128 = v.toNat % 128 := by
      rw [← toNat_and_low, or_high_and_low, toNat_and_low, BitVec.toNat_ofNat]
      omega
    have hrest : (v >>> 7).toNat = v.toNat / 128 := by
      rw [BitVec.toNat_ushiftRight, Nat.shiftRight_eq_div_pow]
    -- what is written is below `2 ^ 64`, so the bits that are still to come have their place
    have hshift' : shift + 7 ≤ 63 := by
      by_contra hlong
      have hle : 2 ^ 57 ≤ 2 ^ shift := Nat.pow_le_pow_right (by decide) (by omega)
      have hmul : 0x80 * 2 ^ 57 ≤ v.toNat * 2 ^ shift := Nat.mul_le_mul hmore hle
      omega
    have hsplit : v.toNat % 128 * 2 ^ shift + (v >>> 7).toNat * 2 ^ (shift + 7) =
        v.toNat * 2 ^ shift := by
      rw [hrest, Nat.pow_add, Nat.mul_comm (2 ^ shift), ← Nat.mul_assoc, ← Nat.add_mul]
      congr 1
      omega
    have hfull := toNat_or_low (b := BitVec.ofNat 8 v.toNat ||| 0x80) hout (by rw [hlow]; omega)
    rw [hlow] at hfull
    have hbelow : v.toNat % 128 * 2 ^ shift ≤ 127 * 2 ^ shift :=
      Nat.mul_le_mul_right _ (by omega)
    have hread := ih (shift + 7) _ (by rw [hfull, Nat.pow_add]; omega) (by rw [hfull]; omega) hshift'
    rw [hfull, Nat.add_assoc, hsplit] at hread
    have hbyte : (UInt8.ofNat v.toNat ||| 0x80).toBitVec = BitVec.ofNat 8 v.toNat ||| 0x80 := rfl
    rw [uvarlongFrom, if_neg (by omega)]
    refine (byte_reads (UInt8.ofNat v.toNat ||| 0x80)).bind ?_
    rw [hbyte, if_neg (or_high_and_high _)]
    exact hread
  | case2 v hlast =>
    intro shift out hout hfit hshift
    have hlow : (BitVec.ofNat 8 v.toNat).toNat = v.toNat := by
      rw [BitVec.toNat_ofNat]
      omega
    have hlow' : (BitVec.ofNat 8 v.toNat).toNat % 128 = v.toNat := by omega
    have hfull := toNat_or_low (b := BitVec.ofNat 8 v.toNat) hout (by rw [hlow']; exact hfit)
    rw [hlow'] at hfull
    have hout' : BitVec.ofNat 64 (out.toNat + v.toNat * 2 ^ shift) =
        out ||| (BitVec.ofNat 8 v.toNat &&& 0x7f).setWidth 64 <<< shift := by
      rw [← hfull, BitVec.ofNat_toNat, BitVec.setWidth_eq]
    rw [uvarlongFrom, if_neg (by omega), hout']
    refine (byte_reads (UInt8.ofNat v.toNat)).bind (?_ : Reads _ [] _)
    rw [if_pos ((and_high _).2 (by show (BitVec.ofNat 8 v.toNat).toNat < 128; omega))]
    exact Reads.pure _

/-- **Varints** read back. -/
theorem uvarlong_reads (v : BitVec 64) : Reads uvarlong (putUvarlong v) v := by
  have hread := uvarlongFrom_reads v 0 0 Nat.one_pos (by have := v.isLt; simpa using this)
    (by decide)
  have hvalue : BitVec.ofNat 64 ((0 : BitVec 64).toNat + v.toNat * 2 ^ 0) = v := by
    rw [Nat.pow_zero, Nat.mul_one]
    show BitVec.ofNat 64 (0 + v.toNat) = v
    rw [Nat.zero_add, BitVec.ofNat_toNat, BitVec.setWidth_eq]
  rw [hvalue] at hread
  exact hread

theorem varint_reads (v : BitVec 32) : Reads varint (putVarint v) v := by
  have hsmall : ((zigzag v).setWidth 64).toNat ≤ 0xffffffff := by
    have hlt := (zigzag v).isLt
    rw [BitVec.toNat_setWidth]
    omega
  have hvalue : unzigzag (((zigzag v).setWidth 64).setWidth 32) = v := by
    rw [BitVec.setWidth_setWidth_of_le _ (by decide), BitVec.setWidth_eq]
    exact unzigzag_zigzag (by decide) v
  rw [← List.append_nil (putVarint v)]
  refine (uvarlong_reads ((zigzag v).setWidth 64)).bind (Reads.require hsmall ?_)
  rw [hvalue]
  exact Reads.pure v

theorem varlong_reads (v : BitVec 64) : Reads varlong (putVarlong v) v := by
  have hread := (uvarlong_reads (zigzag v)).map unzigzag
  rw [unzigzag_zigzag (by decide)] at hread
  exact hread

/-! ### Lengths -/

theorem toInt_length {n : Nat} (h : n < 2 ^ 31) : (BitVec.ofNat 32 n).toInt = n := by
  rw [BitVec.toInt_eq_toNat_of_lt] <;> rw [BitVec.toNat_ofNat] <;> omega

theorem toNat_length {n : Nat} (h : n < 2 ^ 31) : (BitVec.ofNat 32 n).toNat = n := by
  rw [BitVec.toNat_ofNat]
  omega

theorem nullable_reads {v : Option Bytes} (h : ∀ b ∈ v, b.length < 2 ^ 31) : Reads nullable (putNullable v) v := by
  cases v with
  | none =>
    rw [← List.append_nil (putNullable none)]
    refine (varint_reads (-1)).bind ?_
    rw [if_pos (by decide)]
    exact Reads.pure none
  | some b =>
    have hlen := h b rfl
    refine (varint_reads (BitVec.ofNat 32 b.length)).bind ?_
    rw [if_neg (by rw [toInt_length hlen]; omega)]
    refine Reads.require (by rw [toInt_length hlen]; omega) ?_
    exact (take_reads (toNat_length hlen).symm).map some

/-! ## No read panics -/

/-- An error, and not a panic. -/
def Failure.Proper (e : Failure) : Prop := e ≠ .panic

theorem Failure.proper_error (chain : List String) : (Failure.error chain).Proper := by
  intro h
  cases h

theorem Failure.Proper.context {e : Failure} (h : e.Proper) (text : String) : (e.context text).Proper := by
  cases e with
  | error chain => exact proper_error (text :: chain)
  | panic => exact h

theorem context_tame {α : Type} {r : Read α} (text : String) (h : Tame r Failure.Proper) :
    Tame (context text r) Failure.Proper := h.mapError fun _ he => he.context text

theorem take_takes (n : Nat) : Takes (take n) fun b taken _ => taken = b ∧ b.length = n := by
  intro before bs b c' heq
  rw [take_eq (by simp)] at heq
  exact Takes.take _ n before bs b c' heq

theorem take_tame (n : Nat) : Tame (take n) Failure.Proper where
  takes := (take_takes n).mono fun b taken _ h => by rw [h.1]; exact take_reads h.2
  fails before bs e heq := by
    rw [take_eq (by simp)] at heq
    unfold Reader.take at heq
    split at heq
    · cases heq
      exact Failure.proper_error _
    · cases heq

theorem number_tame (w n : Nat) : Tame (number w n) Failure.Proper :=
  (take_tame w).bind fun _ => Tame.pure _

theorem number_takes {w n : Nat} (h : 256 ^ w = 2 ^ n) : Takes (number w n) fun x taken _ => taken = toBytes w x := by
  refine (take_takes w).bind fun b t => Takes.pure fun rest ht => ?_
  obtain ⟨rfl, hlen⟩ := ht
  have hlt : ofBigEndian t < 2 ^ n := by
    rw [← h, ← hlen]
    exact ofBigEndian_lt t
  unfold toBytes
  rw [List.append_nil, BitVec.toNat_ofNat, Nat.mod_eq_of_lt hlt, ← hlen, bigEndian_ofBigEndian]

theorem reads_number {w n : Nat} (h : 256 ^ w = 2 ^ n) {x : BitVec n} : Reads (number w n) bs x ↔ bs = toBytes w x := by
  constructor
  · exact fun hread => hread.takes (number_takes h) []
  · rintro rfl
    exact number_reads (Nat.le_of_eq h.symm) x

theorem reads_i8 {x : BitVec 8} : Reads i8 bs x ↔ bs = toBytes 1 x :=
  reads_number (by decide)

theorem reads_i16 {x : BitVec 16} : Reads i16 bs x ↔ bs = toBytes 2 x :=
  reads_number (by decide)

theorem reads_i32 {x : BitVec 32} : Reads i32 bs x ↔ bs = toBytes 4 x :=
  reads_number (by decide)

theorem reads_i64 {x : BitVec 64} : Reads i64 bs x ↔ bs = toBytes 8 x :=
  reads_number (by decide)

theorem i8_tame : Tame i8 Failure.Proper := number_tame 1 8

theorem i16_tame : Tame i16 Failure.Proper := number_tame 2 16

theorem i32_tame : Tame i32 Failure.Proper := number_tame 4 32

theorem i64_tame : Tame i64 Failure.Proper := number_tame 8 64

theorem uvarlongFrom_tame (shift : Nat) (out : BitVec 64) : Tame (uvarlongFrom shift out) Failure.Proper := by
  fun_induction uvarlongFrom shift out with
  | case1 => exact Tame.fail (Failure.proper_error _)
  | case2 shift out hshift ih =>
    refine (number_tame 1 8).bind fun b => ?_
    split
    · exact Tame.pure _
    · exact ih b

theorem uvarlong_tame : Tame uvarlong Failure.Proper := uvarlongFrom_tame 0 0

theorem varint_tame : Tame varint Failure.Proper :=
  uvarlong_tame.bind fun _ => Tame.require (fun _ => Failure.proper_error _) fun _ => Tame.pure _

theorem varlong_tame : Tame varlong Failure.Proper := uvarlong_tame.bind fun _ => Tame.pure _

theorem nullable_tame : Tame nullable Failure.Proper := by
  refine varint_tame.bind fun n => ?_
  split
  · exact Tame.pure none
  · refine Tame.require (fun _ => Failure.proper_error _) fun _ => ?_
    exact (take_tame _).bind fun _ => Tame.pure _

end BuildYourOwn.Kafka
