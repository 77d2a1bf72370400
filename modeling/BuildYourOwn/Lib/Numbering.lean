import Mathlib.Data.List.Nodup

/-!
# Numbers under names

One name is in force, and what is done is done under it and under the next number; a name that is put in force counts
from zero. Nothing is done twice under one name and number unless a name comes back in force that was used before.

* `Fresh S`: what was done is all different, and the next number of the name in force is new, but for the names `S`
  that came back. `Fresh.install` and `Fresh.use` are its steps.
* `FromZero m`: what was done from the `m`-th on began with the number zero under each name.
-/

namespace BuildYourOwn.Lib

variable {K : Type}

structure Numbering (K : Type) where
  inForce : Option K
  next : ℕ
  used : List (K × ℕ)

namespace Numbering

/-- Put a name in force. -/
def install (s : Numbering K) (k : K) : Numbering K := { s with inForce := some k, next := 0 }

/-- Do one thing. -/
def use (s : Numbering K) : Numbering K :=
  match s.inForce with
  | some k => { s with next := s.next + 1, used := s.used ++ [(k, s.next)] }
  | none => s

variable {s : Numbering K} {S S' : K → Prop} {k : K} {m n : ℕ}

/-- Something was done under this name. -/
def Spent (s : Numbering K) (k : K) : Prop := ∃ n, (k, n) ∈ s.used

@[simp] theorem install_used (s : Numbering K) (k : K) : (s.install k).used = s.used := rfl

theorem use_none (h : s.inForce = none) : s.use = s := by simp [use, h]

theorem use_some (h : s.inForce = some k) : s.use = { s with next := s.next + 1, used := s.used ++ [(k, s.next)] } := by
  simp [use, h]

@[simp] theorem use_inForce (s : Numbering K) : s.use.inForce = s.inForce := by
  cases h : s.inForce <;> simp [use, h]

theorem used_prefix_use (s : Numbering K) : s.used <+: s.use.used := by
  cases h : s.inForce <;> simp [use, h]

theorem spent_use : s.use.Spent k ↔ s.Spent k ∨ s.inForce = some k := by
  cases h : s.inForce with
  | none => simp [use_none h]
  | some k' =>
    rw [use_some h]
    unfold Spent
    simp only [List.mem_append, List.mem_singleton, Prod.mk.injEq, Option.some.injEq]
    constructor
    · rintro ⟨n, hn | ⟨rfl, -⟩⟩
      · exact .inl ⟨n, hn⟩
      · exact .inr rfl
    · rintro (⟨n, hn⟩ | rfl)
      · exact ⟨n, .inl hn⟩
      · exact ⟨s.next, .inr ⟨rfl, rfl⟩⟩

/-- All different so far, and so will the next be unless its name came back. -/
structure Fresh (S : K → Prop) (s : Numbering K) : Prop where
  nodup : s.used.Nodup
  below : ∀ k, s.inForce = some k → ¬S k → ∀ n, (k, n) ∈ s.used → n < s.next

theorem Fresh.mono (h : Fresh S s) (hS : ∀ k, S k → S' k) : Fresh S' s where
  nodup := h.nodup
  below k hk hnot := h.below k hk fun hk => hnot (hS k hk)

theorem Fresh.install (h : Fresh S s) (hk : s.Spent k → S k) : Fresh S (s.install k) where
  nodup := h.nodup
  below k' hk' hnot n hn := by
    cases hk'
    exact absurd (hk ⟨n, hn⟩) hnot

/-- **One more**, under a name that did not come back. -/
theorem Fresh.use (h : Fresh S s) (hk : ∀ k, s.inForce = some k → ¬S k) : Fresh S s.use := by
  cases hforce : s.inForce with
  | none =>
    rw [use_none hforce]
    exact h
  | some k =>
    have hbelow := h.below k hforce (hk k hforce)
    rw [use_some hforce]
    refine ⟨?_, ?_⟩
    · refine List.nodup_append.mpr ⟨h.nodup, List.nodup_singleton _, ?_⟩
      rintro ⟨k', n⟩ hn b hb rfl
      obtain ⟨rfl, rfl⟩ := Prod.mk.inj (List.mem_singleton.mp hb)
      exact Nat.lt_irrefl _ (hbelow _ hn)
    · intro k' hk' _ n hn
      obtain rfl := Option.mem_unique hforce hk'
      obtain hn | hn := List.mem_append.mp hn
      · exact Nat.lt_succ_of_lt (hbelow n hn)
      · obtain ⟨-, rfl⟩ := Prod.mk.inj (List.mem_singleton.mp hn)
        exact Nat.lt_succ_self _

/-- From the `m`-th on every name began at zero. -/
structure FromZero (m : ℕ) (s : Numbering K) : Prop where
  length : m ≤ s.used.length
  began : ∀ k n, (k, n) ∈ s.used.drop m → (k, 0) ∈ s.used.drop m
  next : ∀ k, s.inForce = some k → s.next = 0 ∨ (k, 0) ∈ s.used.drop m

theorem fromZero_start (h : ∀ k, s.inForce = some k → s.next = 0) : FromZero s.used.length s where
  length := Nat.le_refl _
  began k n hn := by simp at hn
  next k hk := .inl (h k hk)

theorem FromZero.install (h : FromZero m s) (k : K) : FromZero m (s.install k) where
  length := h.length
  began := h.began
  next _ _ := .inl rfl

theorem FromZero.use (h : FromZero m s) : FromZero m s.use := by
  cases hforce : s.inForce with
  | none =>
    rw [use_none hforce]
    exact h
  | some k =>
    rw [use_some hforce]
    have hdrop : (s.used ++ [(k, s.next)]).drop m = s.used.drop m ++ [(k, s.next)] :=
      List.drop_append_of_le_length h.length
    -- the first number of the name in force is there now
    have hzero : (k, 0) ∈ s.used.drop m ++ [(k, s.next)] := by
      rcases h.next k hforce with hnext | hmem
      · simp [hnext]
      · exact List.mem_append_left _ hmem
    refine ⟨?_, ?_, ?_⟩
    · simpa using Nat.le_succ_of_le h.length
    · intro k' n hn
      dsimp only at hn ⊢
      rw [hdrop] at hn ⊢
      obtain hn | hn := List.mem_append.mp hn
      · exact List.mem_append_left _ (h.began k' n hn)
      · obtain ⟨rfl, -⟩ := Prod.mk.inj (List.mem_singleton.mp hn)
        exact hzero
    · intro k' hk'
      obtain rfl := Option.mem_unique hforce hk'
      rw [hdrop]
      exact .inr hzero

/-- **A name used on both sides** is used twice with the number zero. -/
theorem not_nodup_of_spent (hfirst : ∀ k n, (k, n) ∈ s.used.take m → (k, 0) ∈ s.used.take m) (hlast : FromZero m s)
    {i j : ℕ} (hi : (k, i) ∈ s.used.take m) (hj : (k, j) ∈ s.used.drop m) : ¬s.used.Nodup := by
  intro hnodup
  rw [← List.take_append_drop m s.used] at hnodup
  exact (List.nodup_append.mp hnodup).2.2 _ (hfirst k i hi) _ (hlast.began k j hj) rfl

end Numbering

end BuildYourOwn.Lib
