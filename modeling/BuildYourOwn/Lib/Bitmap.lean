import Mathlib.Tactic.Common

/-!
# Bitmaps of 64-bit words

A set of indices as a list of words: index `i` is bit `i % 64` of word `i / 64`.

**`testBit_setBit`**: writing one bit changes that bit and no other.
-/

namespace BuildYourOwn.Lib

/-- Bit `i` of the words, `false` past their end. -/
def testBit (ws : List UInt64) (i : Nat) : Bool := (ws.getD (i / 64) 0).toBitVec.getLsbD (i % 64)

/-- Write bit `i`. -/
def setBit (ws : List UInt64) (i : Nat) (b : Bool) : List UInt64 :=
  let bit : UInt64 := 1 <<< UInt64.ofNat (i % 64)
  ws.modify (i / 64) fun w => if b then w ||| bit else w &&& ~~~bit

@[simp] theorem length_setBit (ws : List UInt64) (i : Nat) (b : Bool) : (setBit ws i b).length = ws.length :=
  List.length_modify ..

theorem getLsbD_bit (i j : Nat) :
    ((1 : UInt64) <<< UInt64.ofNat (i % 64)).toBitVec.getLsbD (j % 64) = decide (j % 64 = i % 64) := by
  have hi : i % 64 < 64 := Nat.mod_lt _ (by decide)
  have hj : j % 64 < 64 := Nat.mod_lt _ (by decide)
  have hshift : ((UInt64.ofNat (i % 64)).toBitVec % 64).toNat = i % 64 := by simp
  rw [UInt64.toBitVec_shiftLeft, BitVec.shiftLeft_eq', hshift, BitVec.getLsbD_shiftLeft,
    Bool.eq_iff_iff]
  simp only [UInt64.toBitVec_one, BitVec.getLsbD_one, Bool.and_eq_true, Bool.not_eq_true',
    decide_eq_true_eq, decide_eq_false_iff_not]
  omega

/-- **One bit is written, the others stay.** -/
theorem testBit_setBit {ws : List UInt64} {i : Nat} (hi : i / 64 < ws.length) (b : Bool)
    (j : Nat) : testBit (setBit ws i b) j = if j = i then b else testBit ws j := by
  unfold testBit setBit
  rw [List.getD_eq_getElem?_getD, List.getElem?_modify]
  by_cases hword : i / 64 = j / 64
  · have hj : ws[j / 64]? = some (ws.getD (j / 64) 0) := by
      rw [List.getD_eq_getElem?_getD, List.getElem?_eq_getElem (hword ▸ hi)]
      rfl
    have hsame : j % 64 = i % 64 ↔ j = i := by omega
    rw [hj]
    simp only [if_pos hword]
    cases b
    · simp only [Option.map_eq_map, Option.map_some, Option.getD_some, Bool.false_eq_true, if_false,
        UInt64.toBitVec_and, UInt64.toBitVec_not, BitVec.getLsbD_and, BitVec.getLsbD_not,
        getLsbD_bit, hsame]
      by_cases hji : j = i
      · simp [hji]
      · have hlt : j % 64 < 64 := Nat.mod_lt _ (by decide)
        simp [hji, hlt]
    · simp only [Option.map_eq_map, Option.map_some, Option.getD_some, if_true,
        UInt64.toBitVec_or, BitVec.getLsbD_or, getLsbD_bit, hsame]
      by_cases hji : j = i <;> simp [hji]
  · have hji : j ≠ i := fun h => hword (h ▸ rfl)
    rw [if_neg hji]
    simp [hword]

end BuildYourOwn.Lib
