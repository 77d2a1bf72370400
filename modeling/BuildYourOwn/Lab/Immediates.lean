import Mathlib.Tactic.Ring
import Mathlib.Tactic.Zify
import Mathlib.Algebra.Order.Ring.Int
import BuildYourOwn.Lab.Wasm
import BuildYourOwn.Wasm.Instr

/-!
# Immediates, as they are read back

What the builder writes after an opcode, the disassembler reads to its last byte, whatever follows: one
lemma for each shape of immediate (`ReadsImm`).

`readUleb` reads six bytes and no more (`readUleb_uleb`, `readUleb_long`): an index is an u32, but
the count before the labels of a `br_table` or the types of a `select` is written as any u64.

**`leb_readers_exact_iff`**: what `readUleb` and `readSleb` make of LEB128, and of what `encodeUleb` and `encodeSleb`
(`site/src/lib/lab/wasm.ts`) write. `readSleb` adds the groups up, in doubles, before it takes the sign off: a negative
number comes out right only where the sum, which is longer, is a double as well, and one of ten bytes never does.
-/

namespace BuildYourOwn.Lab.Wasm

open Lib
open BuildYourOwn.Wasm (uleb sleb ValType BlockType)

/-! ## LEB128 -/

variable {bytes bs rest : Bytes} {off : Nat}

theorem getElem?_of_drop {b : UInt8} (h : bytes.drop off = b :: rest) : bytes[off]? = some b := by
  rw [← List.head?_drop, h]
  rfl

theorem drop_of_drop (h : bytes.drop off = bs ++ rest) : bytes.drop (off + bs.length) = rest := by
  rw [← List.drop_drop, h, List.drop_left]

theorem readUlebRounds_groups (hbs : Groups bs) {n value shift size : Nat} (hn : bs.length ≤ n)
    (hshift : shift + 7 * n = 42) (h : bytes.drop (off + size) = bs ++ rest) :
    readUlebRounds bytes off n value shift size = .ok ⟨(value + ofGroups bs * 2 ^ shift : Nat), size + bs.length⟩ := by
  induction hbs generalizing n value shift size with
  | @last b hb =>
    obtain ⟨n, rfl⟩ : ∃ k, n = k + 1 := ⟨n - 1, by simp at hn; omega⟩
    rw [readUlebRounds, getElem?_of_drop h]
    dsimp only
    rw [if_pos hb, ofGroups, ofGroups]
    rfl
  | @more b bs hb hbs ih =>
    have hlen : 0 < bs.length := List.length_pos_of_ne_nil hbs.ne_nil
    rw [List.length_cons] at hn
    obtain ⟨n, rfl⟩ : ∃ k, n = k + 1 := ⟨n - 1, by omega⟩
    rw [readUlebRounds, getElem?_of_drop h]
    dsimp only
    rw [if_neg (by omega), if_neg (by omega), ih (by omega) (by omega)
      (by rw [← Nat.add_assoc]; exact drop_of_drop (show _ = [b] ++ _ from h)), ofGroups, List.length_cons]
    congr 2
    · rw [Nat.pow_add]
      push_cast
      ring
    · exact Nat.add_right_comm size 1 bs.length

/-- **A number of at most 42 bits** is read back. -/
theorem readUleb_uleb {v : Nat} (hv : v < 2 ^ 42) (h : bytes.drop off = uleb v ++ rest) :
    readUleb bytes off = .ok ⟨v, (uleb v).length⟩ := by
  have hgroups : Groups (uleb v) := groups_unsigned (by omega) (by decide)
  have hlength : (uleb v).length ≤ 6 := length_unsigned (by omega) (by decide)
  have hvalue : ofGroups (uleb v) = v := ofGroups_unsigned (by omega)
  have hread : readUlebRounds bytes off 6 0 0 0 = _ := readUlebRounds_groups hgroups hlength rfl h
  rw [hvalue, Nat.zero_add, Nat.zero_add, Nat.pow_zero, Nat.mul_one] at hread
  exact hread

theorem double_small {n : Int} (h : n.natAbs < 2 ^ 53) : double n = n := if_pos h

theorem group_fits {value : Int} {d shift : Nat} (hlow : 0 ≤ value) (hhigh : value < 2 ^ shift)
    (hd : d < 128) : 0 ≤ value + d * 2 ^ shift ∧ value + d * 2 ^ shift < 2 ^ (shift + 7) := by
  rw [Int.pow_add]
  generalize (2 : Int) ^ shift = p at *
  have hmul : (d : Int) * p ≤ 127 * p := Int.mul_le_mul_of_nonneg_right (by omega) (by omega)
  have hpos : 0 ≤ (d : Int) * p := Int.mul_nonneg (by omega) (by omega)
  omega

def total (value : Int) (shift : Nat) : Bytes → Int
  | [] => value
  | b :: bs => total (double (value + b.toNat % 128 * 2 ^ shift)) (shift + 7) bs

theorem readSlebRounds_groups (hbs : Groups bs) {n shift size : Nat} {value : Int} (hn : bs.length ≤ n)
    (hshift : shift + 7 * n = 77) (h : bytes.drop (off + size) = bs ++ rest) :
    readSlebRounds bytes off n value shift size =
      .ok ⟨if signed bs ∧ shift + 7 * bs.length < 64 then double (total value shift bs - 2 ^ (shift + 7 * bs.length))
        else total value shift bs, size + bs.length⟩ := by
  induction hbs generalizing n value shift size with
  | @last b hb =>
    obtain ⟨n, rfl⟩ : ∃ k, n = k + 1 := ⟨n - 1, by simp at hn; omega⟩
    rw [readSlebRounds, getElem?_of_drop h]
    dsimp only
    rw [if_pos hb]
    simp [total, signed]
  | @more b bs hb hbs ih =>
    have hlen : 0 < bs.length := List.length_pos_of_ne_nil hbs.ne_nil
    rw [List.length_cons] at hn
    obtain ⟨n, rfl⟩ : ∃ k, n = k + 1 := ⟨n - 1, by omega⟩
    rw [readSlebRounds, getElem?_of_drop h]
    dsimp only
    rw [if_neg (by omega), if_neg (by omega), ih (by omega) (by omega)
      (by rw [← Nat.add_assoc]; exact drop_of_drop (show _ = [b] ++ _ from h)), signed_cons hbs.ne_nil, total,
      List.length_cons, show shift + 7 * (bs.length + 1) = shift + 7 + 7 * bs.length by omega, Nat.add_right_comm size 1]
    rfl

theorem double_of_dvd {n : Int} {e : Nat} (h : (2 : Int) ^ e ∣ n) (hn : n.natAbs < 2 ^ (e + 53)) : double n = n := by
  unfold double
  split
  · rfl
  · rename_i hbig
    have hpos : n.natAbs ≠ 0 := by omega
    have hle : n.natAbs.log2 - 52 ≤ e := by
      have := (Nat.log2_lt hpos).mpr hn
      omega
    have hdvd : 2 ^ (n.natAbs.log2 - 52) ∣ n.natAbs :=
      (pow_dvd_pow 2 hle).trans (by simpa using Int.natAbs_dvd_natAbs.mpr h)
    dsimp only
    rw [Nat.mod_eq_zero_of_dvd hdvd, if_neg (by have := Nat.two_pow_pos (n.natAbs.log2 - 52); omega), Nat.div_mul_cancel hdvd,
      Int.sign_mul_natAbs]

/-- **Added up exactly**, as long as the sum is a double. -/
theorem total_eq {value : Int} {shift e : Nat} (bs : Bytes) (hlow : 0 ≤ value) (hhigh : value < 2 ^ shift)
    (hdvd : (2 : Int) ^ e ∣ value + ofGroups bs * 2 ^ shift) (hsum : value + ofGroups bs * 2 ^ shift < 2 ^ (e + 53)) :
    total value shift bs = value + ofGroups bs * 2 ^ shift := by
  induction bs generalizing value shift with
  | nil => simp [total, ofGroups]
  | cons b bs ih =>
    obtain ⟨hlow', hhigh'⟩ := group_fits hlow hhigh (d := b.toNat % 128) (by omega)
    push_cast at hlow' hhigh'
    have hsplit : value + ofGroups (b :: bs) * 2 ^ shift =
        value + b.toNat % 128 * 2 ^ shift + ofGroups bs * 2 ^ (shift + 7) := by
      rw [ofGroups, Int.pow_add]
      push_cast
      ring
    rw [hsplit] at hdvd hsum ⊢
    have hrest : 0 ≤ (ofGroups bs : Int) * 2 ^ (shift + 7) := Int.mul_nonneg (by omega) (Int.pow_nonneg (by decide))
    have hexact : double (value + b.toNat % 128 * 2 ^ shift) = value + b.toNat % 128 * 2 ^ shift := by
      rcases Nat.le_total e (shift + 7) with he | he
      · refine double_of_dvd (e := e) ((Int.dvd_add_left (Dvd.dvd.mul_left (pow_dvd_pow 2 he) _)).mp hdvd) ?_
        zify
        rw [abs_of_nonneg hlow']
        omega
      · have hzero := (Int.dvd_add_left (Dvd.intro_left _ rfl)).mp ((pow_dvd_pow 2 he).trans hdvd)
        rw [Int.eq_zero_of_dvd_of_nonneg_of_lt hlow' hhigh' hzero]
        rfl
    rw [total, hexact]
    exact ih hlow' hhigh' hdvd hsum

/-- **What `readSleb` makes of a number**: the sign comes off the sum, unless the number takes ten bytes. -/
theorem readSleb_signed {v : Int} {n : Nat} (hv : SignedFits n v) (hn : n ≤ 9)
    (h : bytes.drop off = signedGroups (n + 1) v ++ rest) :
    let bs := signedGroups (n + 1) v
    readSleb bytes off = .ok ⟨if v < 0 ∧ bs.length ≤ 9 then double (total 0 0 bs - 2 ^ (7 * bs.length)) else total 0 0 bs,
      bs.length⟩ := by
  have hlength := length_signed (n + 1) hv
  have hread := @readSlebRounds_groups _ _ _ _ (groups_signed hv) 11 0 0 0 (by omega) rfl h
  rw [signed_signedGroups hv] at hread
  simp only [Nat.zero_add, decide_eq_true_eq, show ∀ k, 7 * k < 64 ↔ k ≤ 9 by omega] at hread
  exact hread

theorem ofGroups_signedGroups {v : Int} {n : Nat} (hv : SignedFits n v) :
    (ofGroups (signedGroups (n + 1) v) : Int) = v + if v < 0 then 2 ^ (7 * (signedGroups (n + 1) v).length) else 0 := by
  rw [ofGroups_signed hv, signed_signedGroups hv, pow_mul]
  simp

theorem readSleb_exact {v : Int} {n e : Nat} (hv : SignedFits n v) (hn : n ≤ 9)
    (h : bytes.drop off = signedGroups (n + 1) v ++ rest) (hlen : v < 0 → (signedGroups (n + 1) v).length ≤ 9)
    (hdvd : (2 : Int) ^ e ∣ ofGroups (signedGroups (n + 1) v)) (hsum : ofGroups (signedGroups (n + 1) v) < 2 ^ (e + 53))
    (hdouble : double v = v) : readSleb bytes off = .ok ⟨v, (signedGroups (n + 1) v).length⟩ := by
  have htotal : total 0 0 (signedGroups (n + 1) v) = ofGroups (signedGroups (n + 1) v) := by
    simpa using @total_eq 0 0 e _ (Int.le_refl 0) (by decide) (by simpa using hdvd)
      (by simpa using mod_cast hsum)
  rw [readSleb_signed hv hn h, htotal, ofGroups_signedGroups hv]
  by_cases hneg : v < 0
  · simp [hneg, hlen hneg, hdouble]
  · simp [hneg]

/-- **An `i64`** is read to its end, and one of at most 49 bits is read back. -/
theorem readSleb_sleb {v : Int} (hv : SignedFits 9 v) (h : bytes.drop off = sleb v ++ rest) :
    ∃ v', readSleb bytes off = .ok ⟨v', (sleb v).length⟩ ∧ (SignedFits 6 v → v' = v) := by
  refine ⟨_, readSleb_signed hv (Nat.le_refl 9) h, fun hfew => ?_⟩
  have hshort : (sleb v).length ≤ 7 := length_signed 10 hfew
  have hsum : ofGroups (sleb v) < 128 ^ 7 :=
    Nat.lt_of_lt_of_le (ofGroups_lt _) (Nat.pow_le_pow_right (by decide) hshort)
  have hread := readSleb_exact (e := 0) hv (Nat.le_refl 9) h (fun _ => Nat.le_trans hshort (by decide)) (one_dvd _)
    (Nat.lt_of_lt_of_le hsum (by decide)) (double_small (by obtain ⟨hlow, hhigh⟩ := hfew; omega))
  rw [readSleb_signed hv (Nat.le_refl 9) h] at hread
  exact congrArg Leb.value (Except.ok.inj hread)


/-! ## What the readers make of LEB128 -/

/-- `encodeUleb`, of a number from 0 to 2^32 - 1. -/
def encodeUleb (value : UInt32) : Bytes := unsignedGroups 5 value.toNat

/-- `encodeSleb`, of a number from -2^31 to 2^31 - 1, which the operators on bits leave alone. -/
def encodeSleb (value : Int32) : Bytes := signedGroups 5 value.toInt

/-! ## Unsigned -/

theorem readUlebRounds_eq_ok {n value shift size : Nat} {l : Leb}
    (h : readUlebRounds bytes off n value shift size = .ok l) :
    ∃ bs rest, Groups bs ∧ bs.length ≤ n ∧ bytes.drop (off + size) = bs ++ rest := by
  induction n generalizing value shift size with
  | zero => cases h
  | succ n ih =>
    rw [readUlebRounds] at h
    cases hb : bytes[off + size]? with
    | none =>
      rw [hb] at h
      cases h
    | some b =>
      obtain ⟨hlt, rfl⟩ := List.getElem?_eq_some_iff.mp hb
      have hdrop := List.drop_eq_getElem_cons hlt
      rw [hb] at h
      dsimp only at h
      split at h
      · rename_i hlast
        exact ⟨[_], _, .last hlast, by simp, hdrop⟩
      · rename_i hmore
        split at h
        · cases h
        · obtain ⟨bs, rest, hbs, hn, hrest⟩ := ih h
          exact ⟨_ :: bs, rest, .more (by omega) hbs, by simpa using hn, hdrop.trans (congrArg _ hrest)⟩

theorem readUleb_of_groups (hbs : Groups bs) (hlen : bs.length ≤ 6) (h : bytes.drop off = bs ++ rest) :
    readUleb bytes off = .ok ⟨ofGroups bs, bs.length⟩ := by
  refine (@readUlebRounds_groups _ _ _ _ hbs 6 0 0 0 hlen rfl h).trans ?_
  simp

/-- **What is accepted** is LEB128 of six bytes at most. -/
theorem readUleb_eq_ok {l : Leb} : readUleb bytes off = .ok l ↔
    ∃ bs rest, bytes.drop off = bs ++ rest ∧ Groups bs ∧ bs.length ≤ 6 ∧ l = ⟨ofGroups bs, bs.length⟩ := by
  constructor
  · intro h
    obtain ⟨bs, rest, hbs, hlen, hdrop⟩ := readUlebRounds_eq_ok h
    exact ⟨bs, rest, hdrop, hbs, hlen, Except.ok.inj (h.symm.trans (readUleb_of_groups hbs hlen hdrop))⟩
  · rintro ⟨bs, rest, hdrop, hbs, hlen, rfl⟩
    exact readUleb_of_groups hbs hlen hdrop

/-- LEB128 of six bytes, or of five that end in more than the four bits that an `u32` has left. -/
def Overlong (bs : Bytes) : Prop := Groups bs ∧ (bs.length = 6 ∨ bs.length = 5 ∧ 16 ≤ bs.getLastD 0)

theorem overlong_iff (h : Groups bs) (hlen : bs.length ≤ 6) : ¬ Overlong bs ↔ bs.length ≤ 5 ∧ ofGroups bs < 2 ^ 32 := by
  rw [Overlong, and_iff_right h, not_or, not_and]
  by_cases hfive : bs.length = 5
  · obtain ⟨a, b, c, d, e, rfl⟩ : ∃ a b c d e, bs = [a, b, c, d, e] := by
      match bs, hfive with
      | [a, b, c, d, e], _ => exact ⟨a, b, c, d, e, rfl⟩
    have he : e.toNat < 128 := by
      cases h with | more _ h => cases h with | more _ h => cases h with | more _ h => cases h with | more _ h =>
        cases h with
        | last h => exact h
        | more _ h => cases h
    simp [ofGroups, UInt8.le_iff_toNat_le]
    omega
  · have hlt := ofGroups_lt bs
    have hpow (hle : bs.length ≤ 4) : 128 ^ bs.length ≤ 128 ^ 4 := Nat.pow_le_pow_right (by decide) hle
    constructor <;> rintro ⟨h₁, h₂⟩
    · exact ⟨by omega, by have := hpow (by omega); omega⟩
    · exact ⟨by omega, fun h => absurd h hfive⟩

/-! ## Doubles -/

theorem double_cases (n : Int) : (n.natAbs < 2 ^ 53 ∧ double n = n) ∨
    ∃ e q : Nat, 2 ^ (e + 52) ≤ n.natAbs ∧ n.natAbs < 2 ^ (e + 53) ∧ q ≤ n.natAbs / 2 ^ e + 1 ∧
      double n = n.sign * (q * 2 ^ e : Nat) := by
  by_cases hn : n.natAbs < 2 ^ 53
  · exact .inl ⟨hn, double_small hn⟩
  have hpos : n.natAbs ≠ 0 := by omega
  have hlog := (Nat.le_log2 hpos).mpr (Nat.not_lt.mp hn)
  refine .inr ⟨n.natAbs.log2 - 52, _, ?_, ?_, ?_, if_neg hn⟩
  · rw [Nat.sub_add_cancel (by omega)]
    exact Nat.log2_self_le hpos
  · rw [show n.natAbs.log2 - 52 + 53 = n.natAbs.log2 + 1 by omega]
    exact Nat.lt_log2_self
  · split <;> omega

theorem dvd_double {n : Int} {p : Nat} (h : (2 : Int) ^ p ∣ n ∨ 2 ^ (p + 53) ≤ 2 * n.natAbs) :
    (2 : Int) ^ p ∣ double n := by
  rcases double_cases n with ⟨hn, heq⟩ | ⟨e, q, hlow, hhigh, -, heq⟩
  · rw [heq]
    rcases h with h | h
    · exact h
    · rw [Nat.pow_succ] at h
      have hp : p = 0 := by
        by_contra hp
        have := Nat.pow_le_pow_right (n := 2) (by decide) (show 53 ≤ p + 52 by omega)
        omega
      simp [hp]
  by_cases hpe : p ≤ e
  · rw [heq]
    push_cast
    exact ((pow_dvd_pow 2 hpe).mul_left _).mul_left _
  · rcases h with h | h
    · have hfew : n.natAbs < 2 ^ (p + 53) :=
        Nat.lt_trans hhigh (Nat.pow_lt_pow_right (by decide) (by omega))
      rwa [double_of_dvd h hfew]
    · have := Nat.pow_le_pow_right (n := 2) (by decide) (show e + 53 ≤ p + 52 by omega)
      rw [Nat.pow_succ] at h
      omega

theorem double_mem {n : Int} {p : Nat} (hlow : 0 ≤ n) (hhigh : n ≤ 2 ^ p) : 0 ≤ double n ∧ double n ≤ 2 ^ p := by
  obtain ⟨n, rfl⟩ := Int.eq_ofNat_of_zero_le hlow
  rcases double_cases n with ⟨-, heq⟩ | ⟨e, q, hroom, -, hq, heq⟩
  · rw [heq]
    exact ⟨hlow, hhigh⟩
  rw [Int.natAbs_natCast] at hroom hq
  have hle : n ≤ 2 ^ p := by exact_mod_cast hhigh
  rcases Nat.eq_or_lt_of_le hle with rfl | hlt
  · rw [double_of_dvd (e := p) (by simp) (by simpa using Nat.pow_lt_pow_right (by decide) (by omega))]
    exact ⟨hlow, hhigh⟩
  obtain ⟨d, rfl⟩ : ∃ d, p = d + e := ⟨p - e, by
    have := (Nat.pow_lt_pow_iff_right (by decide)).mp (Nat.lt_of_le_of_lt hroom hlt)
    omega⟩
  have hdiv : n / 2 ^ e < 2 ^ d := Nat.div_lt_of_lt_mul (by rwa [Nat.mul_comm, ← Nat.pow_add])
  have hmul : q * 2 ^ e ≤ 2 ^ d * 2 ^ e := Nat.mul_le_mul_right _ (by omega)
  rw [heq, Int.sign_eq_one_of_pos (by have := Nat.two_pow_pos (e + 52); omega), one_mul, pow_add]
  exact ⟨Int.natCast_nonneg _, by exact_mod_cast hmul⟩

theorem dvd_of_double_eq {n : Int} (h : double n = n) : ∃ e, (2 : Int) ^ e ∣ n ∧ n.natAbs < 2 ^ (e + 53) := by
  rcases double_cases n with ⟨hn, -⟩ | ⟨e, q, -, hhigh, -, heq⟩
  · exact ⟨0, one_dvd n, hn⟩
  · refine ⟨e, ?_, hhigh⟩
    rw [← h, heq]
    push_cast
    exact (Dvd.intro_left _ rfl).mul_left _

theorem next_mem {value : Int} {shift : Nat} (b : UInt8) (hlow : 0 ≤ value) (hhigh : value ≤ 2 ^ shift) :
    0 ≤ double (value + b.toNat % 128 * 2 ^ shift) ∧ double (value + b.toNat % 128 * 2 ^ shift) ≤ 2 ^ (shift + 7) := by
  have hnonneg : (0 : Int) ≤ b.toNat % 128 * 2 ^ shift :=
    Int.mul_nonneg (by omega) (Int.pow_nonneg (by decide))
  have hbyte : (b.toNat % 128 * 2 ^ shift : Int) ≤ 127 * 2 ^ shift :=
    Int.mul_le_mul_of_nonneg_right (by omega) (Int.pow_nonneg (by decide))
  refine double_mem (by omega) ?_
  rw [Int.pow_add]
  omega

theorem total_nonneg {value : Int} {shift : Nat} (bs : Bytes) (hlow : 0 ≤ value) (hhigh : value ≤ 2 ^ shift) :
    0 ≤ total value shift bs := by
  induction bs generalizing value shift with
  | nil => exact hlow
  | cons b bs ih => exact ih (next_mem b hlow hhigh).1 (next_mem b hlow hhigh).2

theorem dvd_total (h : Groups bs) {value : Int} {shift p : Nat} (hsigned : signed bs = true) (hlow : 0 ≤ value)
    (hhigh : value ≤ 2 ^ shift) (hp : shift + 7 * bs.length = p + 53) : (2 : Int) ^ p ∣ total value shift bs := by
  induction h generalizing value shift with
  | @last b hb =>
    have hpow : 2 ^ (p + 53) = 2 ^ shift * 128 := by
      rw [← hp, List.length_singleton, Nat.pow_add]
    have hbyte : 64 * 2 ^ shift ≤ b.toNat % 128 * 2 ^ shift :=
      Nat.mul_le_mul_right _ (of_decide_eq_true hsigned)
    refine dvd_double (.inr ?_)
    zify
    rw [abs_of_nonneg (Int.add_nonneg hlow (Int.mul_nonneg (by omega) (Int.pow_nonneg (by decide))))]
    zify at hpow hbyte
    omega
  | @more b bs hb hbs ih =>
    rw [signed_cons hbs.ne_nil] at hsigned
    rw [List.length_cons] at hp
    exact ih hsigned (next_mem b hlow hhigh).1 (next_mem b hlow hhigh).2 (by omega)

theorem readSleb_iff {v : Int} (hv : SignedFits 9 v) (hdouble : double v = v) (h : bytes.drop off = sleb v ++ rest) :
    readSleb bytes off = .ok ⟨v, (sleb v).length⟩ ↔
      0 ≤ v ∨ (sleb v).length ≤ 9 ∧ (2 : Int) ^ (7 * (sleb v).length - 53) ∣ v := by
  have hgroups : (ofGroups (sleb v) : Int) = v + if v < 0 then 2 ^ (7 * (sleb v).length) else 0 :=
    ofGroups_signedGroups hv
  constructor
  · intro hread
    by_contra hnot
    obtain ⟨hneg, hnot⟩ := not_or.mp hnot
    rw [readSleb_signed hv (Nat.le_refl 9) h, show signedGroups (9 + 1) v = sleb v from rfl] at hread
    have hvalue := congrArg Leb.value (Except.ok.inj hread)
    have hbytes : Groups (sleb v) := groups_signed hv
    have hsigned : signed (sleb v) = true := (signed_signedGroups hv).trans (decide_eq_true (by omega))
    dsimp only at hvalue
    split at hvalue
    · rename_i hnine
      have hsum : (2 : Int) ^ (7 * (sleb v).length - 53) ∣ total 0 0 (sleb v) := by
        by_cases hfew : 7 * (sleb v).length ≤ 53
        · simp [Nat.sub_eq_zero_of_le hfew]
        · exact dvd_total hbytes hsigned (Int.le_refl 0) (by decide) (by omega)
      have hdvd := dvd_double (.inl (Int.dvd_sub hsum (pow_dvd_pow 2 (Nat.sub_le (7 * (sleb v).length) 53))))
      rw [hvalue] at hdvd
      exact hnot ⟨hnine.2, hdvd⟩
    · have hpos := @total_nonneg 0 0 (sleb v) (Int.le_refl 0) (by decide)
      omega
  · rintro (hpos | ⟨hnine, hdvd⟩)
    · obtain ⟨e, hdvd, hfits⟩ := dvd_of_double_eq hdouble
      rw [if_neg (by omega), Int.add_zero] at hgroups
      have hroom : ofGroups (sleb v) < 2 ^ (e + 53) := by
        zify at hfits ⊢
        rwa [abs_of_nonneg hpos, ← hgroups] at hfits
      rw [← hgroups] at hdvd
      exact readSleb_exact hv (Nat.le_refl 9) h (fun hneg => absurd hneg (by omega)) hdvd hroom hdouble
    · have hsum : (2 : Int) ^ (7 * (sleb v).length - 53) ∣ ofGroups (sleb v) := by
        rw [hgroups]
        refine Int.dvd_add hdvd ?_
        split
        · exact pow_dvd_pow 2 (Nat.sub_le ..)
        · exact Int.dvd_zero _
      have hroom : ofGroups (sleb v) < 2 ^ (7 * (sleb v).length - 53 + 53) := by
        refine Nat.lt_of_lt_of_le (ofGroups_lt (sleb v)) ?_
        rw [show 128 = 2 ^ 7 from rfl, ← pow_mul]
        exact Nat.pow_le_pow_right (by decide) (by omega)
      exact readSleb_exact hv (Nat.le_refl 9) h (fun _ => hnine) hsum hroom hdouble

/-- **The readers are exact** on what the inspector writes; on other bytes just where no LEB128 stands that is too
long for an `u32`, and on the suite's numbers just where the groups make a double. -/
theorem leb_readers_exact_iff (before rest : Bytes) :
    (∀ v : UInt32, readUleb (before ++ (encodeUleb v ++ rest)) before.length =
      .ok ⟨v.toNat, (encodeUleb v).length⟩) ∧
    (∀ v : Int32, readSleb (before ++ (encodeSleb v ++ rest)) before.length =
      .ok ⟨v.toInt, (encodeSleb v).length⟩) ∧
    (∀ bytes off, (∀ l, readUleb bytes off = .ok l → l.size ≤ 5 ∧ l.value < 2 ^ 32) ↔
      ∀ bs rest, bytes.drop off = bs ++ rest → ¬ Overlong bs) ∧
    ∀ v : Int64, double v.toInt = v.toInt →
      (readSleb (before ++ (sleb v.toInt ++ rest)) before.length = .ok ⟨v.toInt, (sleb v.toInt).length⟩ ↔
        0 ≤ v.toInt ∨ (sleb v.toInt).length ≤ 9 ∧ (2 : Int) ^ (7 * (sleb v.toInt).length - 53) ∣ v.toInt) := by
  refine ⟨fun v => ?_, fun v => ?_, fun bytes off => ⟨fun h bs rest hdrop hover => ?_,
    fun h l hread => ?_⟩, fun v hdouble => readSleb_iff ?_ hdouble List.drop_left⟩
  · have hv : v.toNat < 128 ^ 5 := Nat.lt_trans v.toNat_lt (by decide)
    have hread := readUleb_of_groups (groups_unsigned hv (by decide)) (Nat.le_succ_of_le (length_unsigned_max 5 _))
      (@List.drop_left _ before (unsignedGroups 5 v.toNat ++ rest))
    rwa [ofGroups_unsigned hv] at hread
  · have hlow := v.le_toInt
    have hhigh := v.toInt_lt
    have hv : SignedFits 4 v.toInt := by constructor <;> omega
    have hlength : (encodeSleb v).length ≤ 5 := length_signed 5 hv
    refine readSleb_exact (n := 4) (e := 0) hv (by decide) List.drop_left (fun _ => Nat.le_trans hlength (by decide))
      (one_dvd _) (Nat.lt_of_lt_of_le (ofGroups_lt _) ?_) (double_small (by omega))
    exact (Nat.pow_le_pow_right (by decide) hlength).trans (by decide)
  · have hlen : bs.length ≤ 6 := by
      rcases hover.2 with h6 | ⟨h5, -⟩ <;> omega
    obtain ⟨h5, hvalue⟩ := h _ (readUleb_of_groups hover.1 hlen hdrop)
    dsimp only at hvalue
    exact (overlong_iff hover.1 hlen).mpr ⟨h5, by exact_mod_cast hvalue⟩ hover
  · obtain ⟨bs, rest, hdrop, hbs, hlen, rfl⟩ := readUleb_eq_ok.mp hread
    obtain ⟨h5, hvalue⟩ := (overlong_iff hbs hlen).mp (h bs rest hdrop)
    exact ⟨h5, Int.ofNat_lt.mpr hvalue⟩
  · have hlow := v.le_toInt
    have hhigh := v.toInt_lt
    constructor <;> omega

/-- A zero of six bytes is read, and the least `i64`, a power of two, comes out positive. -/
theorem leb_readers_wrong : readUleb [0x80, 0x80, 0x80, 0x80, 0x80, 0] 0 = .ok ⟨0, 6⟩ ∧
    double (-2 ^ 63) = -2 ^ 63 ∧ readSleb (sleb (-2 ^ 63)) 0 = .ok ⟨127 * 2 ^ 63, 10⟩ := by
  refine ⟨rfl, by decide +kernel, by decide +kernel⟩

/-! ## Immediates -/

variable [NumberText]

/-- The immediates of this shape are these bytes, and this is printed of them when it is said what is. -/
def ReadsImm (imm : Imm) (bs : Bytes) (args : Option (List String)) : Prop :=
  ∀ bytes off rest, bytes.drop off = bs ++ rest → ∃ texts,
    immediates bytes off imm = .ok (texts, off + bs.length) ∧ ∀ given ∈ args, texts = given

theorem numberText_small {n : Nat} (h : n < 2 ^ 53) : numberText (n : Int) = toString n := if_pos (by omega)

theorem printed_uleb {v : Nat} (hv : v < 2 ^ 42) (h : bytes.drop off = uleb v ++ rest) :
    printed readUleb bytes off = .ok (toString v, off + (uleb v).length) := by
  unfold printed
  rw [readUleb_uleb hv h]
  change Except.ok (numberText (v : Int), off + (uleb v).length) = _
  rw [numberText_small (by omega)]

theorem printed_sleb {v : Int} (hv : SignedFits 9 v) (h : bytes.drop off = sleb v ++ rest) :
    ∃ text, printed readSleb bytes off = .ok (text, off + (sleb v).length) ∧ (SignedFits 6 v → text = toString v) := by
  obtain ⟨v', hread, hvalue⟩ := readSleb_sleb hv h
  refine ⟨numberText v', ?_, fun hfew => ?_⟩
  · unfold printed
    rw [hread]
    rfl
  · obtain ⟨hlow, hhigh⟩ := hfew
    rw [hvalue ⟨hlow, hhigh⟩]
    exact if_pos (by omega)

omit [NumberText] in
theorem u32_fits (n : UInt32) : n.toNat < 2 ^ 42 := by
  have := n.toNat_lt
  omega

theorem readsImm_none : ReadsImm .none [] (some []) := fun _ _ _ _ => ⟨[], rfl, by simp⟩

theorem readsImm_u32 (n : UInt32) : ReadsImm .u32 (uleb n.toNat) (some [toString n]) := by
  intro bytes off rest h
  refine ⟨[toString n.toNat], ?_, fun given hgiven => by cases hgiven; rfl⟩
  unfold immediates
  rw [printed_uleb (u32_fits n) h]
  rfl

theorem readsImm_u32u32 (a b : UInt32) :
    ReadsImm .u32u32 (uleb a.toNat ++ uleb b.toNat) (some [toString a, toString b]) := by
  intro bytes off rest h
  rw [List.append_assoc] at h
  refine ⟨[toString a.toNat, toString b.toNat], ?_, fun given hgiven => by cases hgiven; rfl⟩
  unfold immediates
  rw [printed_uleb (u32_fits a) h]
  change (printed readUleb bytes (off + (uleb a.toNat).length) >>= _) = _
  rw [printed_uleb (u32_fits b) (drop_of_drop h), List.length_append, ← Nat.add_assoc]
  rfl

theorem readsImm_memarg (align offset : UInt32) :
    ReadsImm .memarg (uleb align.toNat ++ uleb offset.toNat) (some [s!"align=2^{align}", s!"offset={offset}"]) := by
  intro bytes off rest h
  rw [List.append_assoc] at h
  refine ⟨[s!"align=2^{align.toNat}", s!"offset={offset.toNat}"], ?_,
    fun given hgiven => by cases hgiven; rfl⟩
  unfold immediates
  rw [printed_uleb (u32_fits align) h]
  change (printed readUleb bytes (off + (uleb align.toNat).length) >>= _) = _
  rw [printed_uleb (u32_fits offset) (drop_of_drop h), List.length_append, ← Nat.add_assoc]
  rfl

/-- An `i32` is five bytes at most, and is printed as it is. -/
theorem readsImm_i32 (v : Int32) : ReadsImm .i32 (sleb v.toInt) (some [toString v.toInt]) := by
  intro bytes off rest h
  have hlow := v.le_toInt
  have hhigh := v.toInt_lt
  obtain ⟨text, hread, htext⟩ := printed_sleb (v := v.toInt) ⟨by omega, by omega⟩ h
  rw [htext ⟨by omega, by omega⟩] at hread
  refine ⟨[toString v.toInt], ?_, fun given hgiven => by cases hgiven; rfl⟩
  unfold immediates
  rw [hread]
  rfl

theorem readsImm_i64 (v : Int64) : ReadsImm .i64 (sleb v.toInt) none := by
  intro bytes off rest h
  have hlow := v.le_toInt
  have hhigh := v.toInt_lt
  obtain ⟨text, hread, -⟩ := printed_sleb (v := v.toInt) ⟨by omega, by omega⟩ h
  refine ⟨[text], ?_, nofun⟩
  unfold immediates
  rw [hread]
  rfl

omit [NumberText] in
/-- A `DataView` holds what is left. -/
theorem view_of_drop {w : Nat} (h : bytes.drop off = bs ++ rest) (hw : bs.length = w) (hpos : 0 < w) :
    ∃ n, view bytes off w = .ok n := by
  have hlength := congrArg List.length h
  rw [List.length_drop, List.length_append] at hlength
  exact ⟨_, if_pos (by omega)⟩

theorem readsImm_f32 (n : Nat) : ReadsImm .f32 (littleEndian 4 n) none := by
  intro bytes off rest h
  obtain ⟨bits, hview⟩ := view_of_drop h (length_littleEndian 4 n) (by decide)
  refine ⟨[NumberText.float32 (.ofNat bits)], ?_, fun _ hgiven => nomatch hgiven⟩
  unfold immediates
  rw [hview, length_littleEndian]
  rfl

theorem readsImm_f64 (n : Nat) : ReadsImm .f64 (littleEndian 8 n) none := by
  intro bytes off rest h
  obtain ⟨bits, hview⟩ := view_of_drop h (length_littleEndian 8 n) (by decide)
  refine ⟨[NumberText.float64 (.ofNat bits)], ?_, fun _ hgiven => nomatch hgiven⟩
  unfold immediates
  rw [hview, length_littleEndian]
  rfl

/-! ### Types -/

omit [NumberText] in
theorem valtypes_code (t : ValType) : valtypes t.code = some t.name := by
  cases t <;> rfl

def blockText : BlockType → String
  | .empty => "(empty)"
  | .value t => s!"-> {t.name}"
  | .type i => s!"type {i}"

omit [NumberText] in
theorem index_no_type (i : UInt32) : ∃ b bs, sleb (i.toNat : Int) = b :: bs ∧ b ≠ 0x40 ∧ valtypes b = none := by
  have hall (b : UInt8) (hb : b.toNat < 64 ∨ 128 ≤ b.toNat) : b ≠ 0x40 ∧ valtypes b = none := by
    have hne {c : UInt8} (hc : 64 ≤ c.toNat ∧ c.toNat < 128) : b ≠ c := by
      rintro rfl
      omega
    refine ⟨hne (by decide), ?_⟩
    unfold valtypes
    rw [if_neg (hne (by decide)), if_neg (hne (by decide)), if_neg (hne (by decide)),
      if_neg (hne (by decide)), if_neg (hne (by decide)), if_neg (hne (by decide)),
      if_neg (hne (by decide))]
  unfold sleb signedGroups
  dsimp only
  split
  · rename_i hlast
    exact ⟨_, _, rfl, hall _ (.inl (by rw [toNat_group (by omega)]; omega))⟩
  · exact ⟨_, _, rfl, hall _ (.inr (by rw [toNat_group (by omega)]; omega))⟩

theorem readsImm_blocktype (bt : BlockType) : ReadsImm .blocktype bt.encode (some [blockText bt]) := by
  intro bytes off rest h
  refine ⟨[blockText bt], ?_, fun given hgiven => by cases hgiven; rfl⟩
  unfold immediates blockType
  cases bt with
  | empty =>
    rw [if_pos (getElem?_of_drop h)]
    rfl
  | value t =>
    rw [getElem?_of_drop h, if_neg (by cases t <;> decide)]
    rw [Option.bind_some, valtypes_code]
    rfl
  | type i =>
    have hhigh := i.toNat_lt
    obtain ⟨text, hread, htext⟩ := printed_sleb (v := (i.toNat : Int)) ⟨by omega, by omega⟩ h
    rw [htext ⟨by omega, by omega⟩] at hread
    obtain ⟨b, bs, hbytes, hempty, hvalue⟩ := index_no_type i
    rw [show BlockType.encode (.type i) = b :: bs from hbytes] at h
    rw [getElem?_of_drop h, if_neg (by simpa using hempty)]
    rw [Option.bind_some, hvalue]
    rw [hread]
    rfl

theorem readsImm_byte (b : UInt8) : ReadsImm .byte [b] (some []) := fun _ _ _ _ =>
  ⟨[], rfl, by simp⟩

theorem readsImm_reftype (t : ValType) : ReadsImm .reftype [t.code] (some [t.name]) := by
  intro bytes off rest h
  refine ⟨[t.name], ?_, fun given hgiven => by cases hgiven; rfl⟩
  unfold immediates
  rw [getElem?_of_drop h, typeText, valtypes_code]
  rfl

/-! ### Lists -/

theorem targets_labels (labels : List UInt32) (h : bytes.drop off = labels.flatMap (fun l => uleb l.toNat) ++ rest) :
    targets bytes labels.length off =
      .ok (labels.map toString, off + (labels.flatMap fun l => uleb l.toNat).length) := by
  induction labels generalizing off with
  | nil => rfl
  | cons l labels ih =>
    rw [List.flatMap_cons, List.append_assoc] at h
    rw [List.length_cons, targets, printed_uleb (u32_fits l) h]
    change (targets bytes labels.length (off + (uleb l.toNat).length) >>= _) = _
    rw [ih (drop_of_drop h), List.flatMap_cons, List.length_append, ← Nat.add_assoc]
    rfl

theorem readsImm_brtable {labels : List UInt32} (default : UInt32) (hfew : labels.length < 2 ^ 42) : ReadsImm .brtable
      (uleb labels.length ++ labels.flatMap (fun l => uleb l.toNat) ++ uleb default.toNat)
      (some ["[" ++ " ".intercalate (labels.map toString) ++ "]", s!"default {default}"]) := by
  intro bytes off rest h
  rw [List.append_assoc, List.append_assoc] at h
  refine ⟨_, ?_, fun given hgiven => Option.some.inj hgiven⟩
  unfold immediates
  rw [readUleb_uleb hfew h]
  change (targets bytes labels.length (off + (uleb labels.length).length) >>= _) = _
  rw [targets_labels labels (drop_of_drop h)]
  change (printed readUleb bytes (off + (uleb labels.length).length +
    (labels.flatMap fun l => uleb l.toNat).length) >>= _) = _
  rw [printed_uleb (u32_fits default) (drop_of_drop (drop_of_drop h)), List.length_append,
    List.length_append, ← Nat.add_assoc, ← Nat.add_assoc]
  rfl

omit [NumberText] in
theorem selected_types (types : List ValType) (h : bytes.drop off = types.map ValType.code ++ rest) :
    selected bytes types.length off = .ok (types.map ValType.name, off + types.length) := by
  induction types generalizing off with
  | nil => rfl
  | cons t types ih =>
    have hrest : bytes.drop (off + 1) = types.map ValType.code ++ rest :=
      drop_of_drop (show _ = [t.code] ++ _ from h)
    rw [List.length_cons, selected, getElem?_of_drop h, typeText, valtypes_code]
    change (selected bytes types.length (off + 1) >>= _) = _
    rw [ih hrest, Nat.add_assoc, Nat.add_comm 1]
    rfl

theorem readsImm_selectt {types : List ValType} (hfew : types.length < 2 ^ 42) :
    ReadsImm .selectt (uleb types.length ++ types.map ValType.code) (some (types.map ValType.name)) := by
  intro bytes off rest h
  rw [List.append_assoc] at h
  refine ⟨types.map ValType.name, ?_, fun given hgiven => Option.some.inj hgiven⟩
  unfold immediates
  rw [readUleb_uleb hfew h]
  change selected bytes types.length (off + (uleb types.length).length) = _
  rw [selected_types types (drop_of_drop h), List.length_append, List.length_map, ← Nat.add_assoc]

end BuildYourOwn.Lab.Wasm
