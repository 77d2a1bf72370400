import Mathlib.Algebra.Order.BigOperators.Group.Finset

/-!
# What a replica has absorbed

Replicas make updates and merge the states that others were in at an earlier moment. What happens at a position of
the history is an `Act`. A replica has absorbed its own updates, and with a state all that the other had absorbed
at that moment, old or not.

* Of one process's updates a replica has always absorbed the first ones, so that of two replicas one has
  absorbed all that the other has (`absorbed_chain`).
-/

namespace BuildYourOwn.Lib

/-- What happens: `p` makes an update, or merges the state that `q` was in after the first `k` events. -/
inductive Act (P : Type)
  | update (p : P)
  | merge (p q : P) (k : Nat)

variable {P : Type} (acts : Nat → Option (Act P))

/-- The update at position `u` is absorbed by `p` in the first `n` events. -/
inductive Absorbed : Nat → P → Nat → Prop
  | own {n : Nat} {p : P} (h : acts n = some (.update p)) : Absorbed (n + 1) p n
  | keep {n u : Nat} {p : P} (h : Absorbed n p u) : Absorbed (n + 1) p u
  | merged {n k u : Nat} {p q : P} (h : acts n = some (.merge p q k)) (hu : Absorbed k q u) :
      Absorbed (n + 1) p u

def Earlier : Prop := ∀ n p q k, acts n = some (.merge p q k) → k ≤ n

open Classical in
/-- The positions of the updates that `p` has absorbed in the first `n` events. -/
noncomputable def absorbed (n : Nat) (p : P) : Finset Nat :=
  (Finset.range n).filter fun u => Absorbed acts n p u

variable {acts} {n m k u v : Nat} {p q r : P}

theorem Absorbed.lt (he : Earlier acts) (h : Absorbed acts n p u) : u < n := by
  induction h with
  | own => exact Nat.lt_succ_self _
  | keep _ ih => exact Nat.lt_succ_of_lt ih
  | merged h _ ih => exact Nat.lt_succ_of_lt (Nat.lt_of_lt_of_le ih (he _ _ _ _ h))

theorem Absorbed.mono (h : Absorbed acts n p u) (hnm : n ≤ m) : Absorbed acts m p u := by
  induction hnm with
  | refl => exact h
  | step _ ih => exact ih.keep

open Classical in
theorem mem_absorbed (he : Earlier acts) : u ∈ absorbed acts n p ↔ Absorbed acts n p u := by
  unfold absorbed
  rw [Finset.mem_filter, Finset.mem_range]
  exact ⟨And.right, fun h => ⟨h.lt he, h⟩⟩

theorem absorbed_update (he : Earlier acts) (h : acts n = some (.update p)) :
    absorbed acts (n + 1) p = insert n (absorbed acts n p) := by
  ext u
  rw [Finset.mem_insert, mem_absorbed he, mem_absorbed he]
  constructor
  · intro hu
    cases hu with
    | own => exact .inl rfl
    | keep hu => exact .inr hu
    | merged h' => cases h.symm.trans h'
  · rintro (rfl | hu)
    · exact Absorbed.own h
    · exact hu.keep

theorem absorbed_merge (he : Earlier acts) (h : acts n = some (.merge p q k)) :
    absorbed acts (n + 1) p = absorbed acts n p ∪ absorbed acts k q := by
  ext u
  rw [Finset.mem_union, mem_absorbed he, mem_absorbed he, mem_absorbed he]
  constructor
  · intro hu
    cases hu with
    | own h' => cases h.symm.trans h'
    | keep hu => exact .inl hu
    | merged h' hu =>
      obtain ⟨-, rfl, rfl⟩ := Act.merge.inj (Option.mem_unique h h')
      exact .inr hu
  · rintro (hu | hu)
    · exact hu.keep
    · exact Absorbed.merged h hu

theorem absorbed_other (he : Earlier acts) (hupdate : acts n ≠ some (.update p))
    (hmerge : ∀ q k, acts n ≠ some (.merge p q k)) : absorbed acts (n + 1) p = absorbed acts n p := by
  ext u
  rw [mem_absorbed he, mem_absorbed he]
  constructor
  · intro hu
    cases hu with
    | own h => exact absurd h hupdate
    | keep hu => exact hu
    | merged h => exact absurd h (hmerge _ _)
  · exact Absorbed.keep

theorem notMem_absorbed (he : Earlier acts) (hnu : n ≤ u) : u ∉ absorbed acts n p := fun h =>
  absurd (((mem_absorbed he).mp h).lt he) (Nat.not_lt.mpr hnu)

theorem absorbed_rule {σ : Type} {state : Nat → P → σ} {Q : Finset Nat → σ → Prop}
    (he : Earlier acts) (hzero : ∀ p, Q ∅ (state 0 p))
    (hupdate : ∀ n p, acts n = some (.update p) → Q (absorbed acts n p) (state n p) →
      Q (insert n (absorbed acts n p)) (state (n + 1) p))
    (hmerge : ∀ n p q k, acts n = some (.merge p q k) → Q (absorbed acts n p) (state n p) →
      Q (absorbed acts k q) (state k q) →
      Q (absorbed acts n p ∪ absorbed acts k q) (state (n + 1) p))
    (hother : ∀ n p, acts n ≠ some (.update p) → (∀ q k, acts n ≠ some (.merge p q k)) →
      Q (absorbed acts n p) (state n p) → Q (absorbed acts n p) (state (n + 1) p))
    (n : Nat) : ∀ p, Q (absorbed acts n p) (state n p) := by
  -- a merge looks at any earlier moment
  induction n using Nat.strong_induction_on with
  | _ n ih =>
    intro p
    cases n with
    | zero => exact hzero p
    | succ n =>
      have hnow := ih n (Nat.lt_succ_self n) p
      by_cases hu : acts n = some (.update p)
      · rw [absorbed_update he hu]
        exact hupdate n p hu hnow
      by_cases hm : ∃ q k, acts n = some (.merge p q k)
      · obtain ⟨q, k, hm⟩ := hm
        rw [absorbed_merge he hm]
        exact hmerge n p q k hm hnow (ih k (Nat.lt_succ_of_le (he _ _ _ _ hm)) q)
      · have hm' : ∀ q k, acts n ≠ some (.merge p q k) := fun q k h => hm ⟨q, k, h⟩
        rw [absorbed_other he hu hm']
        exact hother n p hu hm' hnow

theorem Absorbed.update (h : Absorbed acts n p u) : ∃ r, acts u = some (.update r) := by
  induction h with
  | own h => exact ⟨_, h⟩
  | keep _ ih => exact ih
  | merged _ _ ih => exact ih

theorem Absorbed.earlier (h : Absorbed acts n p u) (hu : acts u = some (.update r))
    (hv : acts v = some (.update r)) (hvu : v ≤ u) : Absorbed acts n p v := by
  induction h with
  | @own n p h =>
    obtain rfl : p = r := Act.update.inj (Option.mem_unique h hu)
    exact (Absorbed.own hv).mono (Nat.succ_le_succ hvu)
  | keep _ ih => exact (ih hu hvu).keep
  | merged h _ ih => exact Absorbed.merged h (ih hu hvu)

/-! ## Sums -/

variable {κ : Type} [DecidableEq κ] {key : Nat → κ} {a : κ}

def OneMaker (acts : Nat → Option (Act P)) (key : Nat → κ) : Prop :=
  ∀ u v r r', acts u = some (.update r) → acts v = some (.update r') → key u = key v → r = r'

omit [DecidableEq κ] in
theorem mem_absorbed_of_le (he : Earlier acts) (hkey : OneMaker acts key) (hu : u ∈ absorbed acts n p)
    (hv : v ∈ absorbed acts m q) (huv : key u = key v) (hle : u ≤ v) : u ∈ absorbed acts m q := by
  rw [mem_absorbed he] at hu hv ⊢
  obtain ⟨r, hr⟩ := hu.update
  obtain ⟨r', hr'⟩ := hv.update
  obtain rfl := hkey u v r r' hr hr' huv
  exact hv.earlier hr' hr hle

/-- **Of the updates of one maker, one replica has all that another has.** -/
theorem absorbed_chain (he : Earlier acts) (hkey : OneMaker acts key) (n m : Nat) (p q : P) (a : κ) :
    (absorbed acts n p).filter (fun u => key u = a) ⊆ (absorbed acts m q).filter (fun u => key u = a) ∨
      (absorbed acts m q).filter (fun u => key u = a) ⊆ (absorbed acts n p).filter (fun u => key u = a) := by
  by_contra hnot
  obtain ⟨h₁, h₂⟩ := not_or.mp hnot
  obtain ⟨u, hu, hu'⟩ := Finset.not_subset.mp h₁
  obtain ⟨v, hv, hv'⟩ := Finset.not_subset.mp h₂
  obtain ⟨hun, hua⟩ := Finset.mem_filter.mp hu
  obtain ⟨hvm, hva⟩ := Finset.mem_filter.mp hv
  have huv := hua.trans hva.symm
  rcases Nat.le_total u v with hle | hle
  · exact hu' (Finset.mem_filter.mpr ⟨mem_absorbed_of_le he hkey hun hvm huv hle, hua⟩)
  · exact hv' (Finset.mem_filter.mpr ⟨mem_absorbed_of_le he hkey hvm hun huv.symm hle, hva⟩)

noncomputable def keySum (key : Nat → κ) (weight : Nat → Int) (A : Finset Nat) (a : κ) : Int :=
  ∑ u ∈ A.filter (fun u => key u = a), weight u

variable {weight : Nat → Int}

theorem keySum_union (hweight : ∀ u, 0 ≤ weight u) (he : Earlier acts)
    (hkey : OneMaker acts key) (n m : Nat) (p q : P) (a : κ) :
    keySum key weight (absorbed acts n p ∪ absorbed acts m q) a =
      max (keySum key weight (absorbed acts n p) a) (keySum key weight (absorbed acts m q) a) := by
  unfold keySum
  rw [Finset.filter_union]
  rcases absorbed_chain he hkey n m p q a with h | h
  · rw [Finset.union_eq_right.mpr h, max_eq_right]
    exact Finset.sum_le_sum_of_subset_of_nonneg h fun u _ _ => hweight u
  · rw [Finset.union_eq_left.mpr h, max_eq_left]
    exact Finset.sum_le_sum_of_subset_of_nonneg h fun u _ _ => hweight u

theorem keySum_insert {A : Finset Nat} (hu : u ∉ A) :
    keySum key weight (insert u A) a = keySum key weight A a + if key u = a then weight u else 0 := by
  unfold keySum
  rw [Finset.filter_insert]
  split_ifs
  · rw [Finset.sum_insert (fun h => hu (Finset.mem_filter.mp h).1), Int.add_comm]
  · rw [Int.add_zero]

theorem sum_keySum {A : Finset Nat} {T : Finset κ} (h : ∀ u ∈ A, key u ∈ T) :
    ∑ a ∈ T, keySum key weight A a = ∑ u ∈ A, weight u :=
  Finset.sum_fiberwise_of_maps_to h weight

end BuildYourOwn.Lib
