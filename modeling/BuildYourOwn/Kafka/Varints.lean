import BuildYourOwn.Kafka.Wire
import BuildYourOwn.Lib.Leb128

/-!
# What a varint is read as

A varint holds a number in groups of seven bits (`ofGroups`). `Cursor::uvarlong` takes up to ten of them
and keeps 64 bits: of the tenth byte only the lowest bit has a place, and the others are shifted out
without an error. So the number is read as it stands unless there is a tenth byte above 1
(`TenthTooLarge`), and then it is read modulo `2 ^ 64` (`uvarlong_reads_groups`).

**`uvarlong_numbers`**: exactly so, and what `put_varint` and `put_varlong` write reads back.
-/

namespace BuildYourOwn.Kafka

open Lib Lib.Reader

variable {bs taken : Bytes} {shift : Nat} {out v : BitVec 64}

/-! ## Groups -/

theorem groups_iff : Groups bs ↔
    ∃ marked last, bs = marked ++ [last] ∧ (∀ b ∈ marked, 128 ≤ b.toNat) ∧ last.toNat < 128 := by
  constructor
  · intro h
    induction h with
    | @last b hb => exact ⟨[], b, rfl, List.forall_mem_nil _, hb⟩
    | @more b bs hb _ ih =>
      obtain ⟨marked, last, rfl, hmarked, hlast⟩ := ih
      exact ⟨b :: marked, last, rfl, List.forall_mem_cons.mpr ⟨hb, hmarked⟩, hlast⟩
  · rintro ⟨marked, last, rfl, hmarked, hlast⟩
    induction marked with
    | nil => exact Groups.last hlast
    | cons b marked ih =>
      obtain ⟨hb, hrest⟩ := List.forall_mem_cons.mp hmarked
      exact Groups.more hb (ih hrest)

theorem ofGroups_append (bs cs : Bytes) : ofGroups (bs ++ cs) = ofGroups bs + 128 ^ bs.length * ofGroups cs := by
  induction bs with
  | nil => simp [ofGroups]
  | cons b bs ih =>
    rw [List.cons_append, ofGroups, ofGroups, ih, List.length_cons, Nat.pow_succ', Nat.mul_add,
      Nat.mul_assoc, Nat.add_assoc]

/-! ## One round -/

/-- **A round of `uvarlong`** adds its seven bits, and what is past the 64th is lost. -/
theorem toNat_round {b : BitVec 8} (hout : out.toNat < 2 ^ shift) (hshift : shift ≤ 63) :
    (out ||| (b &&& 0x7f).setWidth 64 <<< shift).toNat = (out.toNat + b.toNat % 128 * 2 ^ shift) % 2 ^ 64 := by
  have hlow : ((b &&& 0x7f).setWidth 64).toNat = b.toNat % 128 := by
    rw [BitVec.toNat_setWidth, toNat_and_low]
    omega
  have hpow : 2 ^ 64 = 2 ^ (64 - shift) * 2 ^ shift := by
    rw [← Nat.pow_add, Nat.sub_add_cancel (by omega)]
  -- the bits that are lost are those of the group past the `64 - shift` that fit
  have hdigit : ((b &&& 0x7f).setWidth 64 <<< shift).toNat =
      (b.toNat % 128 % 2 ^ (64 - shift)) <<< shift := by
    rw [BitVec.toNat_shiftLeft, hlow, Nat.shiftLeft_eq, Nat.shiftLeft_eq, hpow, Nat.mul_mod_mul_right]
  have hvalue : (out ||| (b &&& 0x7f).setWidth 64 <<< shift).toNat =
      out.toNat + b.toNat % 128 * 2 ^ shift % 2 ^ 64 := by
    rw [BitVec.toNat_or, hdigit, or_digit hout, hpow, Nat.mul_mod_mul_right]
  have hlt := (out ||| (b &&& 0x7f).setWidth 64 <<< shift).isLt
  rw [hvalue] at hlt ⊢
  rw [← Nat.add_mod_mod, Nat.mod_eq_of_lt hlt]

theorem uvarlongFrom_last {b : UInt8} (hb : b.toNat < 128) (hshift : shift ≤ 63) (hout : out.toNat < 2 ^ shift) :
    Reads (uvarlongFrom shift out) [b] (BitVec.ofNat 64 (out.toNat + b.toNat % 128 * 2 ^ shift)) := by
  have hvalue : BitVec.ofNat 64 (out.toNat + b.toNat % 128 * 2 ^ shift) =
      out ||| (b.toBitVec &&& 0x7f).setWidth 64 <<< shift :=
    BitVec.eq_of_toNat_eq ((BitVec.toNat_ofNat _ 64).trans (toNat_round hout hshift).symm)
  rw [uvarlongFrom, if_neg (by omega), hvalue]
  refine (byte_reads b).bind (?_ : Reads _ [] _)
  rw [if_pos ((and_high _).2 hb)]
  exact Reads.pure _

theorem uvarlongFrom_more {b : UInt8} {bs : Bytes} (hb : 128 ≤ b.toNat) (hshift : shift ≤ 63)
    (h : Reads (uvarlongFrom (shift + 7) (out ||| (b.toBitVec &&& 0x7f).setWidth 64 <<< shift)) bs v) :
    Reads (uvarlongFrom shift out) (b :: bs) v := by
  have hmore : ¬ b.toBitVec &&& 0x80 = 0 := by
    rw [and_high]
    exact Nat.not_lt.mpr hb
  rw [uvarlongFrom, if_neg (by omega)]
  refine (byte_reads b).bind ?_
  rw [if_neg hmore]
  exact h

/-- **Ten groups and no more** are read, modulo `2 ^ 64`. -/
theorem uvarlongFrom_reads_groups (h : Groups bs) :
    ∀ (shift : Nat) (out : BitVec 64), shift + 7 * bs.length ≤ 70 → out.toNat < 2 ^ shift →
      Reads (uvarlongFrom shift out) bs (BitVec.ofNat 64 (out.toNat + ofGroups bs * 2 ^ shift)) := by
  induction h with
  | @last b hb =>
    intro shift out hlen hout
    rw [List.length_singleton] at hlen
    have hshift : shift ≤ 63 := by omega
    have hread := uvarlongFrom_last hb hshift hout
    rwa [ofGroups, ofGroups, Nat.mul_zero, Nat.add_zero]
  | @more b bs hb hbs ih =>
    intro shift out hlen hout
    have hpos : 0 < bs.length := List.length_pos_iff.mpr hbs.ne_nil
    rw [List.length_cons] at hlen
    -- more groups follow, so this one has its place
    have hle : 2 ^ (shift + 7) ≤ 2 ^ 63 := Nat.pow_le_pow_right (by decide) (by omega)
    have hbelow : b.toNat % 128 * 2 ^ shift ≤ 127 * 2 ^ shift := Nat.mul_le_mul_right _ (by omega)
    have hround := toNat_round (b := b.toBitVec) hout (by omega)
    have hbyte : b.toBitVec.toNat = b.toNat := rfl
    rw [Nat.pow_add] at hle
    rw [hbyte, Nat.mod_eq_of_lt (by omega)] at hround
    have hread := ih (shift + 7) (out ||| (b.toBitVec &&& 0x7f).setWidth 64 <<< shift) (by omega)
      (by rw [hround, Nat.pow_add]; omega)
    have hsum : out.toNat + b.toNat % 128 * 2 ^ shift + ofGroups bs * 2 ^ (shift + 7) =
        out.toNat + ofGroups (b :: bs) * 2 ^ shift := by
      rw [ofGroups, Nat.add_mul, Nat.pow_add, Nat.mul_right_comm 128, Nat.mul_comm (128 * 2 ^ shift),
        Nat.mul_comm 128, Nat.add_assoc]
    rw [hround, hsum] at hread
    exact uvarlongFrom_more hb (by omega) hread

theorem uvarlong_reads_groups (h : Groups bs) (hlen : bs.length ≤ 10) :
    Reads uvarlong bs (BitVec.ofNat 64 (ofGroups bs)) := by
  have hread := uvarlongFrom_reads_groups h 0 0 (by omega) (by decide)
  rw [Nat.pow_zero, Nat.mul_one] at hread
  have hzero : (0 : BitVec 64).toNat + ofGroups bs = ofGroups bs := Nat.zero_add _
  rwa [hzero] at hread

theorem byte_takes : Takes (number 1 8) fun v taken _ => ∃ b : UInt8, taken = [b] ∧ v = b.toBitVec := by
  refine (take_takes 1).bind fun bytes t => Takes.pure fun rest ht => ?_
  obtain ⟨rfl, hlen⟩ := ht
  obtain ⟨b, rfl⟩ := List.length_eq_one_iff.mp hlen
  exact ⟨b, rfl, ofBigEndian_byte b⟩

theorem uvarlongFrom_takes (shift : Nat) (out : BitVec 64) :
    Takes (uvarlongFrom shift out) fun _ taken _ => Groups taken ∧ shift + 7 * taken.length ≤ 70 := by
  fun_induction uvarlongFrom shift out with
  | case1 =>
    intro before bs v c' heq
    cases heq
  | case2 shift out hshift ih =>
    refine byte_takes.bind fun b t => ?_
    split
    · rename_i hlast
      refine Takes.pure fun rest hb => ?_
      obtain ⟨byte, rfl, rfl⟩ := hb
      exact ⟨Groups.last ((and_high _).mp hlast), by simp; omega⟩
    · rename_i hmore
      refine (ih b).mono fun v taken rest htaken hb => ?_
      obtain ⟨byte, rfl, rfl⟩ := hb
      rw [and_high] at hmore
      refine ⟨Groups.more (Nat.not_lt.mp hmore) htaken.1, ?_⟩
      rw [List.singleton_append, List.length_cons]
      omega

/-! ## The number -/

def ReadsNumber (bs : Bytes) : Prop :=
  ∀ before v c', uvarlong ⟨before ++ bs, before.length⟩ = .ok (v, c') → ∃ taken rest,
    bs = taken ++ rest ∧ c' = ⟨before ++ bs, before.length + taken.length⟩ ∧ v.toNat = ofGroups taken

def TenthTooLarge (bs : Bytes) : Prop :=
  ∃ nine tenth rest, bs = nine ++ tenth :: rest ∧ nine.length = 9 ∧ (∀ b ∈ nine, 128 ≤ b.toNat) ∧
    2 ≤ tenth.toNat ∧ tenth.toNat < 128

theorem readsNumber_iff (bs : Bytes) : ReadsNumber bs ↔ ¬ TenthTooLarge bs := by
  constructor
  · rintro h ⟨nine, tenth, rest, rfl, hnine, hmarked, hlow, hhigh⟩
    have hgroups : Groups (nine ++ [tenth]) := groups_iff.mpr ⟨nine, tenth, rfl, hmarked, hhigh⟩
    have hlength : (nine ++ [tenth]).length = 10 := by
      rw [List.length_append, hnine, List.length_singleton]
    have hread := uvarlong_reads_groups hgroups (Nat.le_of_eq hlength) [] rest
    unfold ReadsAt at hread
    rw [List.append_assoc, List.singleton_append] at hread
    obtain ⟨taken, rest', hsplit, hc, hv⟩ := h [] _ _ hread
    have hlen : (nine ++ [tenth]).length = taken.length := by
      have hpos := congrArg Cursor.pos hc
      simpa using hpos
    obtain ⟨rfl, -⟩ := List.append_inj ((List.append_assoc nine [tenth] rest).trans hsplit) hlen
    have hvalue : ofGroups (nine ++ [tenth]) = ofGroups nine + 128 ^ 9 * tenth.toNat := by
      rw [ofGroups_append, hnine, ofGroups, ofGroups, Nat.mod_eq_of_lt hhigh, Nat.mul_zero,
        Nat.add_zero]
    rw [BitVec.toNat_ofNat, hvalue] at hv
    omega
  · intro h before v c' heq
    obtain ⟨taken, rest, rfl, rfl, hgroups, hlen⟩ := uvarlongFrom_takes 0 0 before bs v c' heq
    refine ⟨taken, rest, rfl, rfl, ?_⟩
    have hread := uvarlong_reads_groups hgroups (by omega) before rest
    unfold ReadsAt at hread
    rw [hread] at heq
    obtain rfl : BitVec.ofNat 64 (ofGroups taken) = v := (Prod.mk.inj (Except.ok.inj heq)).1
    rw [BitVec.toNat_ofNat]
    refine Nat.mod_eq_of_lt (lt_of_not_ge fun hlarge => ?_)
    obtain ⟨marked, last, rfl, hmarked, hlast⟩ := groups_iff.mp hgroups
    have hlt := ofGroups_lt (marked ++ [last])
    have hmarkedlt := ofGroups_lt marked
    have hsplit := ofGroups_append marked [last]
    rw [List.length_append, List.length_singleton] at hlen hlt
    -- nine groups are not enough, so there is a tenth
    have hnine : marked.length = 9 := by
      by_contra hne
      have hle : 128 ^ (marked.length + 1) ≤ 128 ^ 9 := Nat.pow_le_pow_right (by decide) (by omega)
      omega
    rw [ofGroups, ofGroups, hnine, Nat.mod_eq_of_lt hlast] at hsplit
    rw [hnine] at hmarkedlt
    exact h ⟨marked, last, rest, by simp, hnine, hmarked, by omega, hlast⟩

/-- **Varints are read as numbers** unless there is a tenth byte above 1, and what is written reads
back. -/
theorem uvarlong_numbers (bs : Bytes) : (ReadsNumber bs ↔ ¬ TenthTooLarge bs) ∧
    (∀ v, Reads varint (putVarint v) v) ∧ ∀ v, Reads varlong (putVarlong v) v :=
  ⟨readsNumber_iff bs, varint_reads, varlong_reads⟩

/-- The encoding of `2 ^ 64` is read as zero. -/
theorem tenth_byte_lost : uvarlong ⟨List.replicate 9 0x80 ++ [2], 0⟩ =
      .ok (0, ⟨List.replicate 9 0x80 ++ [2], 10⟩) ∧
    ofGroups (List.replicate 9 0x80 ++ [2]) = 2 ^ 64 ∧
    ¬ ReadsNumber (List.replicate 9 0x80 ++ [2]) := by
  have hgroups : Groups (List.replicate 9 0x80 ++ [2]) := groups_iff.mpr
    ⟨List.replicate 9 0x80, 2, rfl, fun b hb => by rw [List.eq_of_mem_replicate hb]; decide, by decide⟩
  have hread := uvarlong_reads_groups hgroups (by decide) [] []
  unfold ReadsAt at hread
  rw [List.append_nil, List.nil_append] at hread
  refine ⟨hread, by decide, fun h => ?_⟩
  obtain ⟨taken, rest, hsplit, hc, hv⟩ := h [] _ _ hread
  have hlen : 10 = taken.length := by
    have hpos := congrArg Cursor.pos hc
    simpa using hpos
  obtain ⟨rfl, -⟩ := List.append_inj ((List.append_nil _).trans hsplit) (Eq.trans (by decide) hlen)
  cases hv

end BuildYourOwn.Kafka
