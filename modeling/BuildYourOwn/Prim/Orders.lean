import Mathlib.Data.List.Permutation

/-!
# Every delivery order

Model of `permutations` and `permute` (`disttest/src/prim/oracles.rs`). `permute` works in place: it returns the
vector it was given as it leaves it, and the orders pushed so far. Its first argument is how many places are left,
`items.len() - k`.
-/

namespace BuildYourOwn.Prim

/-- `items.swap(i, j)`, with both indices in range. -/
def swap (items : List Nat) (i j : Nat) : List Nat :=
  (items.set i (items.getD j 0)).set j (items.getD i 0)

def permute : Nat → List Nat → Nat → List (List Nat) → List Nat × List (List Nat)
  | 0, items, _, out => (items, out ++ [items])
  | left + 1, items, k, out =>
    (List.range' k (left + 1)).foldl (fun (items, out) i =>
      let items := swap items k i
      let (items, out) := permute left items (k + 1) out
      (swap items k i, out)) (items, out)

def permutations (n : Nat) : List (List Nat) := (permute n (List.range n) 0 []).2

/-! ## What is pushed -/

def orders : Nat → List Nat → Nat → List (List Nat)
  | 0, items, _ => [items]
  | left + 1, items, k => (List.range' k (left + 1)).flatMap fun i => orders left (swap items k i) (k + 1)

variable {items l : List Nat} {i k left : Nat}

theorem length_swap (items : List Nat) (k i : Nat) : (swap items k i).length = items.length := by simp [swap]

theorem getElem?_swap (hk : k < items.length) (hi : i < items.length) (m : Nat) :
    (swap items k i)[m]? = if m = i then items[k]? else if m = k then items[i]? else items[m]? := by
  unfold swap
  rw [List.getElem?_set, List.getElem?_set]
  by_cases hmi : m = i
  · subst hmi
    simp [hi, hk]
  · by_cases hmk : m = k
    · subst hmk
      simp [hi, hk, hmi, Ne.symm hmi]
    · simp [hmi, hmk, Ne.symm hmi, Ne.symm hmk]

theorem swap_swap (hk : k < items.length) (hi : i < items.length) : swap (swap items k i) k i = items := by
  refine List.ext_getElem? fun m => ?_
  rw [getElem?_swap (by rwa [length_swap]) (by rwa [length_swap]), getElem?_swap hk hi, getElem?_swap hk hi,
    getElem?_swap hk hi]
  grind

theorem swap_perm (hk : k < items.length) (hi : i < items.length) : (swap items k i).Perm items := by
  simpa [swap, hk, hi] using List.set_set_perm hk hi

/-- **The vector is restored**, and the orders are pushed. -/
theorem permute_eq (h : items.length = k + left) (out : List (List Nat)) :
    permute left items k out = (items, out ++ orders left items k) := by
  induction left generalizing items k out with
  | zero => rfl
  | succ left ih =>
    have hloop (is : List Nat) (his : ∀ i ∈ is, i < items.length) (out : List (List Nat)) :
        is.foldl (fun (items, out) i =>
          let items := swap items k i
          let (items, out) := permute left items (k + 1) out
          (swap items k i, out)) (items, out) =
        (items, out ++ is.flatMap fun i => orders left (swap items k i) (k + 1)) := by
      induction is generalizing out with
      | nil => simp
      | cons i is ihloop =>
        have hi := his i List.mem_cons_self
        rw [List.foldl_cons]
        dsimp only
        rw [ih (by rw [length_swap]; omega), swap_swap (by omega) hi,
          ihloop fun j hj => his j (List.mem_cons_of_mem _ hj)]
        simp
    exact hloop _ (fun i hi => by have := List.mem_range'_1.mp hi; omega) out

/-- The lists are alike up to `k`. -/
def Alike (k : Nat) (l items : List Nat) : Prop := ∀ m < k, l[m]? = items[m]?

theorem alike_swap (hk : k < items.length) (hi : i < items.length) (hki : k ≤ i) :
    Alike (k + 1) l (swap items k i) ↔ Alike k l items ∧ l[k]? = items[i]? := by
  constructor
  · refine fun h => ⟨fun m hm => ?_, ?_⟩
    · rw [h m (by omega), getElem?_swap hk hi, if_neg (by omega), if_neg (by omega)]
    · rw [h k (by omega), getElem?_swap hk hi]
      by_cases heq : k = i <;> simp [heq]
  · rintro ⟨h, hlast⟩ m hm
    rw [getElem?_swap hk hi]
    by_cases hmk : m = k
    · subst hmk
      rw [hlast]
      by_cases heq : m = i <;> simp [heq]
    · rw [if_neg (by omega), if_neg hmk, h m (by omega)]

/-- Exactly the permutations that keep the first `k` places. -/
theorem mem_orders (hnodup : items.Nodup) (h : items.length = k + left) :
    l ∈ orders left items k ↔ l.Perm items ∧ Alike k l items := by
  induction left generalizing items k with
  | zero =>
    refine List.mem_singleton.trans ⟨fun heq => heq ▸ ⟨.refl _, fun _ _ => rfl⟩, fun ⟨hperm, hsame⟩ => ?_⟩
    refine List.ext_getElem? fun m => ?_
    by_cases hm : m < k
    · exact hsame m hm
    · rw [List.getElem?_eq_none (by rw [hperm.length_eq]; omega), List.getElem?_eq_none (by omega)]
  | succ left ih =>
    rw [orders, List.mem_flatMap]
    have hbranch : ∀ i, k ≤ i → i < items.length → (l ∈ orders left (swap items k i) (k + 1) ↔
        l.Perm items ∧ Alike k l items ∧ l[k]? = items[i]?) := fun i hki hi => by
      rw [ih ((swap_perm (by omega) hi).nodup_iff.mpr hnodup) (by rw [length_swap]; omega),
        alike_swap (by omega) hi hki, (swap_perm (by omega) hi).congr_right l]
    constructor
    · rintro ⟨i, hi, hl⟩
      have hi := List.mem_range'_1.mp hi
      obtain ⟨hperm, hsame, -⟩ := (hbranch i hi.1 (by omega)).mp hl
      exact ⟨hperm, hsame⟩
    · rintro ⟨hperm, hsame⟩
      -- what stands at `k` is somewhere in `items`, and not before `k`
      have hk : k < l.length := by rw [hperm.length_eq]; omega
      obtain ⟨i, hi, hx⟩ := List.getElem_of_mem (hperm.mem_iff.mp (List.getElem_mem hk))
      have hki : k ≤ i := by
        by_contra hlt
        have hli := hsame i (by omega)
        rw [List.getElem?_eq_getElem hi, hx, ← List.getElem?_eq_getElem hk] at hli
        exact absurd ((List.getElem?_inj (by omega) (hperm.nodup_iff.mpr hnodup)).mp hli) (by omega)
      refine ⟨i, List.mem_range'_1.mpr ⟨hki, by omega⟩, (hbranch i hki hi).mpr ⟨hperm, hsame, ?_⟩⟩
      rw [List.getElem?_eq_getElem hk, List.getElem?_eq_getElem hi, hx]

theorem nodup_orders (hnodup : items.Nodup) (h : items.length = k + left) : (orders left items k).Nodup := by
  induction left generalizing items k with
  | zero => exact List.nodup_singleton _
  | succ left ih =>
    rw [orders, List.nodup_flatMap]
    have hswap {i : Nat} (hi : i ∈ List.range' k (left + 1)) :
        i < items.length ∧ k ≤ i ∧ (swap items k i).Nodup ∧ (swap items k i).length = k + 1 + left := by
      have := List.mem_range'_1.mp hi
      exact ⟨by omega, this.1, (swap_perm (by omega) (by omega)).nodup_iff.mpr hnodup, by rw [length_swap]; omega⟩
    refine ⟨fun i hi => ih (hswap hi).2.2.1 (hswap hi).2.2.2, ?_⟩
    refine (List.nodup_range' ..).imp_of_mem fun {i j} hi hj hne l hli hlj => ?_
    have hat {i : Nat} (hi : i ∈ List.range' k (left + 1)) (hl : l ∈ orders left (swap items k i) (k + 1)) :
        l[k]? = items[i]? :=
      ((alike_swap (by omega) (hswap hi).1 (hswap hi).2.1).mp
        ((mem_orders (hswap hi).2.2.1 (hswap hi).2.2.2).mp hl).2).2
    exact hne ((List.getElem?_inj (hswap hi).1 hnodup).mp ((hat hi hli).symm.trans (hat hj hlj)))

/-- **Every permutation once**, and every call of `permute` leaves the vector as it was. -/
theorem permutations_exact (n : Nat) :
    (∀ l, l ∈ permutations n ↔ l.Perm (List.range n)) ∧ (permutations n).Nodup ∧
      (permutations n).length = n.factorial ∧
      ∀ items k left out, items.length = k + left → (permute left items k out).1 = items := by
  have hout : permutations n = orders n (List.range n) 0 := by
    rw [permutations, permute_eq (by simp)]
    rfl
  have hmem : ∀ l, l ∈ permutations n ↔ l.Perm (List.range n) := fun l => by
    rw [hout, mem_orders List.nodup_range (by simp)]
    exact and_iff_left fun m hm => absurd hm (Nat.not_lt_zero m)
  have hnodup : (permutations n).Nodup := hout ▸ nodup_orders List.nodup_range (by simp)
  refine ⟨hmem, hnodup, ?_, fun items k left out h => by rw [permute_eq h]⟩
  have hperm : (permutations n).Perm (List.range n).permutations :=
    (List.perm_ext_iff_of_nodup hnodup (List.nodup_permutations _ List.nodup_range)).mpr fun l => by
      rw [hmem, List.mem_permutations]
  rw [hperm.length_eq, List.length_permutations, List.length_range]

end BuildYourOwn.Prim
