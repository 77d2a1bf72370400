import Mathlib.Data.Fintype.Card
import Mathlib.Order.Bounds.Defs

/-!
# Majorities

Two majorities of one finite set share a member, and so do two majorities of sets that differ by
one member. A majority of `s` is a subset with at least `s.card / 2 + 1` members.

Where up to `f` members may be faulty, two quorums must share more than `f` (`Overlap`). The least size
at which they do is `(n + f) / 2 + 1`, as long as there are sets of that size (`isLeast_overlap`).
-/

namespace BuildYourOwn.Lib

variable {α : Type} [DecidableEq α] {s a b : Finset α}

/-- Two subsets of `s` that are together larger than `s` share a member. -/
theorem exists_mem_inter (ha : a ⊆ s) (hb : b ⊆ s) (h : s.card < a.card + b.card) : ∃ x, x ∈ a ∧ x ∈ b := by
  obtain ⟨x, hx⟩ := Finset.inter_nonempty_of_card_lt_card_add_card ha hb h
  exact ⟨x, Finset.mem_inter.mp hx⟩

/-- **Two majorities of one set share a member.** -/
theorem majorities_meet (ha : a ⊆ s) (hb : b ⊆ s) (hma : s.card / 2 + 1 ≤ a.card)
    (hmb : s.card / 2 + 1 ≤ b.card) : ∃ x, x ∈ a ∧ x ∈ b :=
  exists_mem_inter ha hb (by omega)

/-- **A majority of a set and a majority of the set with one more member share a member.** -/
theorem majorities_meet_insert {x : α} (hx : x ∉ s) (ha : a ⊆ s) (hb : b ⊆ insert x s)
    (hma : s.card / 2 + 1 ≤ a.card) (hmb : (insert x s).card / 2 + 1 ≤ b.card) : ∃ y, y ∈ a ∧ y ∈ b := by
  rw [Finset.card_insert_of_notMem hx] at hmb
  refine exists_mem_inter (ha.trans (Finset.subset_insert x s)) hb ?_
  rw [Finset.card_insert_of_notMem hx]
  omega

/-- The positions of a list that hold what `p` accepts are as many as `filter` keeps. -/
theorem exists_positions {β : Type} (p : β → Bool) (l : List β) :
    ∃ s : Finset Nat, s.card = (l.filter p).length ∧ ∀ i ∈ s, ∃ x, l[i]? = some x ∧ p x = true := by
  refine ⟨((l.zipIdx.filter fun x => p x.1).map Prod.snd).toFinset, ?_, fun i hi => ?_⟩
  · have hnodup : ((l.zipIdx.filter fun x => p x.1).map Prod.snd).Nodup := by
      have hall : (l.zipIdx.map Prod.snd).Nodup := by
        rw [List.zipIdx_map_snd]
        exact List.nodup_range'
      exact hall.sublist ((List.filter_sublist).map Prod.snd)
    have hfilter : l.filter p = (l.zipIdx.filter fun x => p x.1).map Prod.fst := by
      have hmap := List.filter_map (p := p) (f := Prod.fst) (l := l.zipIdx)
      rwa [List.zipIdx_map_fst] at hmap
    rw [List.toFinset_card_of_nodup hnodup, List.length_map, hfilter, List.length_map]
  · obtain ⟨x, hx, rfl⟩ := List.mem_map.mp (List.mem_toFinset.mp hi)
    obtain ⟨hmem, hp⟩ := List.mem_filter.mp hx
    exact ⟨x.1, List.mem_zipIdx_iff_getElem?.mp hmem, hp⟩

/-- Positions that hold what `p` accepts are no more than `filter` keeps. -/
theorem card_positions_le {β : Type} (p : β → Bool) (l : List β) {s : Finset Nat}
    (hs : ∀ i ∈ s, ∃ x, l[i]? = some x ∧ p x = true) : s.card ≤ (l.filter p).length := by
  have hsub : s ⊆ ((l.zipIdx.filter fun x => p x.1).map Prod.snd).toFinset := by
    intro i hi
    obtain ⟨x, hx, hp⟩ := hs i hi
    rw [List.mem_toFinset, List.mem_map]
    exact ⟨(x, i), List.mem_filter.mpr ⟨List.mem_zipIdx_iff_getElem?.mpr hx, hp⟩, rfl⟩
  have hfilter : l.filter p = (l.zipIdx.filter fun x => p x.1).map Prod.fst := by
    have hmap := List.filter_map (p := p) (f := Prod.fst) (l := l.zipIdx)
    rwa [List.zipIdx_map_fst] at hmap
  calc s.card ≤ _ := Finset.card_le_card hsub
    _ ≤ ((l.zipIdx.filter fun x => p x.1).map Prod.snd).length := List.toFinset_card_le _
    _ = (l.filter p).length := by rw [hfilter, List.length_map, List.length_map]

/-! ## Quorums that share more than `f` -/

/-- Any two sets of `q` members share more than `f`. -/
def Overlap (α : Type) [Fintype α] [DecidableEq α] (q f : Nat) : Prop :=
  ∀ a b : Finset α, a.card = q → b.card = q → f < (a ∩ b).card

/-- Two sets of `q` that share as little as they can. -/
theorem exists_card_inter_le [Fintype α] {q f : Nat} (hq : q ≤ Fintype.card α) (hf : 2 * q ≤ Fintype.card α + f) :
    ∃ a b : Finset α, a.card = q ∧ b.card = q ∧ (a ∩ b).card ≤ f := by
  obtain ⟨a, ha⟩ := Finset.exists_subset_card_eq (s := (Finset.univ : Finset α)) hq
  have hcompl : aᶜ.card = Fintype.card α - q := by rw [Finset.card_compl, ha.2]
  -- `b` is taken outside of `a` as far as there is anything outside
  by_cases hout : q ≤ Fintype.card α - q
  · obtain ⟨b, hb, hcard⟩ := Finset.exists_subset_card_eq (s := aᶜ) (hcompl ▸ hout)
    have hempty : a ∩ b = ∅ := Finset.disjoint_iff_inter_eq_empty.mp
      (Finset.disjoint_of_subset_right hb disjoint_compl_right)
    exact ⟨a, b, ha.2, hcard, by rw [hempty]; exact Nat.zero_le f⟩
  · obtain ⟨c, hc, hcard⟩ := Finset.exists_subset_card_eq (s := a)
      (n := q - (Fintype.card α - q)) (by omega)
    have hdisjoint : Disjoint aᶜ c := Finset.disjoint_of_subset_right hc disjoint_compl_left
    refine ⟨a, aᶜ ∪ c, ha.2, ?_, ?_⟩
    · rw [Finset.card_union_of_disjoint hdisjoint, hcompl, hcard]
      omega
    · rw [Finset.inter_union_distrib_left, Finset.inter_compl, Finset.empty_union,
        Finset.inter_eq_right.mpr hc, hcard]
      omega

/-- **Two quorums share more than `f`** when together they are larger than everything by more than
that, or when there are no sets so large. -/
theorem overlap_iff [Fintype α] {q f : Nat} : Overlap α q f ↔ Fintype.card α < q ∨ Fintype.card α + f < 2 * q := by
  constructor
  · intro h
    by_contra hnot
    obtain ⟨a, b, ha, hb, hinter⟩ := exists_card_inter_le (α := α) (q := q) (f := f) (by omega) (by omega)
    exact absurd (h a b ha hb) (by omega)
  · intro h a b ha hb
    have hle : a.card ≤ Fintype.card α := Finset.card_le_univ a
    have hunion : (a ∪ b).card ≤ Fintype.card α := Finset.card_le_univ _
    have hcards := Finset.card_union_add_card_inter a b
    omega

theorem isLeast_overlap (α : Type) [Fintype α] [DecidableEq α] (f : Nat) :
    IsLeast {q | Overlap α q f} (min ((Fintype.card α + f) / 2 + 1) (Fintype.card α + 1)) := by
  constructor
  · rw [Set.mem_ofPred_eq, overlap_iff]
    omega
  · intro q hq
    rw [Set.mem_ofPred_eq, overlap_iff] at hq
    omega

end BuildYourOwn.Lib
