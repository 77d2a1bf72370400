import Mathlib.Data.List.Basic

/-!
# The range of a prefix

Model of `prefix_end` (`disttest/src/etcd/mod.rs`). A range request asks for the keys from `key` up to, not
including, `range_end`, in the order of the bytes, and a `range_end` of `[0]` sets no end.

**`prefix_range_exact`**: the range from a prefix to its `prefix_end` is the keys that begin with it. The proof is an
induction over the prefix from its front, along `prefixEnd_cons`.
-/

namespace BuildYourOwn.Etcd

/-- The loop of `prefix_end`, over the bytes that are left, the last of them first. -/
def prefixEndLoop : List UInt8 → List UInt8
  | [] => [0]
  | last :: rest => if last < 0xff then ((last + 1) :: rest).reverse else prefixEndLoop rest

def prefixEnd (bytes : List UInt8) : List UInt8 := prefixEndLoop bytes.reverse

def Full (bytes : List UInt8) : Prop := ∀ b ∈ bytes, b = 0xff

theorem not_lt_full {b : UInt8} : ¬ b < 0xff ↔ b = 0xff := by
  rw [UInt8.lt_iff_toNat_lt, ← UInt8.toNat_inj]
  have := b.toNat_lt
  simp
  omega

theorem le_full (b : UInt8) : b ≤ 0xff := by
  rcases UInt8.le_total b 0xff with h | h
  · exact h
  · exact UInt8.le_of_eq (not_lt_full.mp (UInt8.not_lt.mpr h))

theorem prefixEndLoop_append (b : UInt8) (bytes : List UInt8) :
    (Full bytes ∧ prefixEndLoop (bytes ++ [b]) = prefixEndLoop [b]) ∨
      (¬ Full bytes ∧ prefixEndLoop (bytes ++ [b]) = b :: prefixEndLoop bytes) := by
  induction bytes with
  | nil => exact .inl ⟨by simp [Full], rfl⟩
  | cons last rest ih =>
    simp only [List.cons_append, prefixEndLoop]
    by_cases hlast : last < 0xff
    · refine .inr ⟨fun hfull => ?_, ?_⟩
      · exact absurd hlast (not_lt_full.mpr (hfull last List.mem_cons_self))
      · rw [if_pos hlast, if_pos hlast]
        simp
    · have hfull : Full (last :: rest) ↔ Full rest := by
        simp [Full, not_lt_full.mp hlast]
      rw [if_neg hlast, if_neg hlast, hfull]
      exact ih

theorem prefixEnd_cons (b : UInt8) (bytes : List UInt8) :
    (Full bytes ∧ prefixEnd (b :: bytes) = if b < 0xff then [b + 1] else [0]) ∨
      (¬ Full bytes ∧ prefixEnd (b :: bytes) = b :: prefixEnd bytes) := by
  have hfull : Full bytes.reverse ↔ Full bytes := by simp [Full]
  unfold prefixEnd
  rw [List.reverse_cons, ← hfull]
  simpa [prefixEndLoop] using prefixEndLoop_append b bytes.reverse

theorem lt_succ {b c : UInt8} (h : b < 0xff) : c < b + 1 ↔ c ≤ b := by
  rw [UInt8.lt_iff_toNat_lt] at h ⊢
  rw [UInt8.le_iff_toNat_le, UInt8.toNat_add]
  simp at h ⊢
  omega

theorem succ_ne_zero {b : UInt8} (h : b < 0xff) : b + 1 ≠ 0 := fun hzero => by
  simpa [hzero] using (lt_succ h).mpr (UInt8.le_refl b)

theorem prefixEnd_ne_nil (bytes : List UInt8) : prefixEnd bytes ≠ [] := by
  cases bytes with
  | nil => exact List.cons_ne_nil 0 []
  | cons b bytes =>
    rcases prefixEnd_cons b bytes with ⟨-, h⟩ | ⟨-, h⟩ <;> rw [h]
    · split <;> exact List.cons_ne_nil _ _
    · exact List.cons_ne_nil _ _

/-- **The marker for no end** stands for bytes that cannot be counted up, and for nothing else. -/
theorem prefixEnd_eq_zero {bytes : List UInt8} : prefixEnd bytes = [0] ↔ Full bytes := by
  cases bytes with
  | nil => exact iff_of_true rfl (by simp [Full])
  | cons b bytes =>
    have hcons : Full (b :: bytes) ↔ b = 0xff ∧ Full bytes := by simp [Full]
    rw [hcons]
    rcases prefixEnd_cons b bytes with ⟨hfull, h⟩ | ⟨hfull, h⟩ <;> rw [h]
    · by_cases hb : b < 0xff
      · simp [hb, succ_ne_zero hb, mt not_lt_full.mpr (not_not.mpr hb)]
      · simp [hfull, not_lt_full.mp hb]
    · simp [hfull, prefixEnd_ne_nil]

/-- **A prefix range is exactly the prefix**: the keys that are not below it, and below its end where it has one, are
those it begins; and it has no end just when it has no byte that can be counted up. -/
theorem prefix_range_exact (p k : List UInt8) :
    (p ≤ k ∧ (prefixEnd p = [0] ∨ k < prefixEnd p) ↔ p <+: k) ∧ (prefixEnd p = [0] ↔ ∀ b ∈ p, b = 0xff) := by
  refine ⟨?_, prefixEnd_eq_zero⟩
  induction p generalizing k with
  | nil => simp [prefixEnd, prefixEndLoop]
  | cons b p ih =>
    cases k with
    | nil => simp
    | cons c k =>
      rw [List.cons_prefix_cons, ← ih k, List.cons_le_cons_iff]
      rcases prefixEnd_cons b p with ⟨hfull, h⟩ | ⟨hfull, h⟩ <;> rw [h]
      · rw [prefixEnd_eq_zero.mpr hfull]
        by_cases hb : b < 0xff
        · simp only [if_pos hb, List.cons_lt_cons_iff, lt_succ hb, List.not_lt_nil, and_false, or_false,
            List.cons.injEq, and_true, succ_ne_zero hb, false_or, true_or]
          constructor
          · rintro ⟨hlt | ⟨rfl, hk⟩, hle⟩
            · exact absurd hlt (UInt8.not_lt.mpr hle)
            · exact ⟨rfl, hk⟩
          · rintro ⟨rfl, hk⟩
            exact ⟨.inr ⟨rfl, hk⟩, UInt8.le_refl b⟩
        · have hc : ¬ b < c := fun hlt => hb (UInt8.lt_of_lt_of_le hlt (le_full c))
          simp [hb, hc]
      · simp only [List.cons.injEq, prefixEnd_ne_nil, and_false, false_or, List.cons_lt_cons_iff,
          mt prefixEnd_eq_zero.mp hfull]
        constructor
        · rintro ⟨hlt | ⟨rfl, hk⟩, hlt' | ⟨hsame, hend⟩⟩
          · exact absurd hlt' (UInt8.lt_asymm hlt)
          · exact absurd hlt (hsame ▸ UInt8.lt_irrefl c)
          · exact absurd hlt' (UInt8.lt_irrefl _)
          · exact ⟨rfl, hk, hend⟩
        · rintro ⟨rfl, hk, hend⟩
          exact ⟨.inr ⟨rfl, hk⟩, .inr ⟨rfl, hend⟩⟩

end BuildYourOwn.Etcd
