import Mathlib.Data.List.Basic
import Mathlib.Tactic.Ring

/-!
# Hash trees, and the walk that compares two

A tree is the list of its levels: the leaves, then each level made from the one below by `node` on its pairs, a node
without a partner carried up unchanged (`pairUp`, `climb`). `descend` goes down two trees of one shape, into
the nodes whose hashes differ. What it finds is right where `node` is free of collisions on the pairs that occur
(`Free`).
-/

namespace BuildYourOwn.Lib.HashTree

variable {α : Type} (node : α → α → α)

/-- The next level up. -/
def pairUp : List α → List α
  | x :: y :: rest => node x y :: pairUp rest
  | [x] => [x]
  | [] => []

def climb : Nat → List α → List (List α)
  | 0, l => [l]
  | n + 1, l => if 1 < l.length then l :: climb n (pairUp node l) else [l]

/-- The level `k` steps up. -/
def level (l : List α) : Nat → List α
  | 0 => l
  | k + 1 => pairUp node (level l k)

def descend [DecidableEq α] (a b : List (List α)) : Nat → Nat → Nat × List Nat → Nat × List Nat
  | k, i, (compared, differing) =>
    match (a.getD k [])[i]?, (b.getD k [])[i]? with
    | some x, some y =>
      if x = y then (compared + 1, differing)
      else
        match k with
        | 0 => (compared + 1, differing ++ [i])
        | k + 1 => descend a b k (i * 2 + 1) (descend a b k (i * 2) (compared + 1, differing))
    | _, _ => (compared, differing)

def diffs [DecidableEq α] (l l' : List α) (lo n : Nat) : List Nat :=
  (List.range' lo n).filter fun j => l[j]? ≠ l'[j]?

variable {node} {l l' : List α} {i k n : Nat}

/-! ## Levels -/

theorem getElem?_both (h : l.length = l'.length) (i : Nat) :
    (l[i]? = none ∧ l'[i]? = none) ∨ ∃ x x', l[i]? = some x ∧ l'[i]? = some x' := by
  rcases Nat.lt_or_ge i l.length with hi | hi
  · exact .inr ⟨l[i], l'[i], List.getElem?_eq_getElem hi, List.getElem?_eq_getElem (h ▸ hi)⟩
  · exact .inl ⟨List.getElem?_eq_none hi, List.getElem?_eq_none (h ▸ hi)⟩

theorem length_pairUp (l : List α) : (pairUp node l).length = (l.length + 1) / 2 := by
  induction l using pairUp.induct with
  | case1 x y rest ih =>
    rw [pairUp, List.length_cons, ih, List.length_cons, List.length_cons]
    omega
  | case2 x => simp [pairUp]
  | case3 => simp [pairUp]

theorem getElem?_pairUp (l : List α) (i : Nat) : (pairUp node l)[i]? =
    match l[i * 2]?, l[i * 2 + 1]? with
    | some x, some y => some (node x y)
    | x, _ => x := by
  induction l using pairUp.induct generalizing i with
  | case1 x y rest ih =>
    cases i with
    | zero => rfl
    | succ i =>
      rw [pairUp, List.getElem?_cons_succ, ih, Nat.succ_mul]
      rfl
  | case2 x =>
    cases i with
    | zero => rfl
    | succ i => simp [pairUp]
  | case3 => simp [pairUp]

variable (node) in
theorem length_level (h : l.length = l'.length) (k : Nat) : (level node l k).length = (level node l' k).length := by
  induction k with
  | zero => exact h
  | succ k ih => rw [level, level, length_pairUp, length_pairUp, ih]

theorem level_pairUp (l : List α) (k : Nat) : level node (pairUp node l) k = level node l (k + 1) := by
  induction k with
  | zero => rfl
  | succ k ih =>
    rw [level, ih]
    rfl

theorem getElem?_climb (hk : k < (climb node n l).length) : (climb node n l)[k]? = some (level node l k) := by
  induction n generalizing l k with
  | zero =>
    obtain rfl : k = 0 := by simpa [climb] using hk
    rfl
  | succ n ih =>
    rw [climb] at hk ⊢
    split at hk
    · rename_i hlength
      rw [if_pos hlength]
      cases k with
      | zero => rfl
      | succ k =>
        rw [List.getElem?_cons_succ, ih (by simpa using hk), level_pairUp]
    · rename_i hlength
      obtain rfl : k = 0 := by simpa using hk
      rw [if_neg hlength]
      rfl

theorem length_climb_pos : 0 < (climb node n l).length := by
  cases n with
  | zero => exact Nat.one_pos
  | succ n =>
    rw [climb]
    split <;> simp

theorem length_climb (h : l.length = l'.length) : (climb node n l).length = (climb node n l').length := by
  induction n generalizing l l' with
  | zero => rfl
  | succ n ih =>
    rw [climb, climb, h]
    split
    · have hup : (pairUp node l).length = (pairUp node l').length := by rw [length_pairUp, length_pairUp, h]
      rw [List.length_cons, List.length_cons, ih hup]
    · rfl

theorem length_climb_le (h : l.length ≤ 2 ^ k) : (climb node n l).length ≤ k + 1 := by
  induction n generalizing l k with
  | zero => exact Nat.succ_le_succ (Nat.zero_le k)
  | succ n ih =>
    rw [climb]
    split
    · rename_i hlength
      cases k with
      | zero => exact absurd hlength (Nat.not_lt.mpr h)
      | succ k =>
        rw [Nat.pow_succ] at h
        exact Nat.succ_le_succ (ih (by rw [length_pairUp]; omega))
    · exact Nat.succ_le_succ (Nat.zero_le k)

theorem le_length_climb (h : l.length ≤ n + 1) : l.length ≤ 2 ^ ((climb node n l).length - 1) := by
  induction n generalizing l with
  | zero => simpa [climb] using h
  | succ n ih =>
    rw [climb]
    split
    · rename_i hlength
      have hhalf := ih (l := pairUp node l) (by rw [length_pairUp]; omega)
      have hpos : 0 < (climb node n (pairUp node l)).length := length_climb_pos
      rw [length_pairUp] at hhalf
      rw [List.length_cons, Nat.add_sub_cancel, show (climb node n (pairUp node l)).length =
        (climb node n (pairUp node l)).length - 1 + 1 by omega, Nat.pow_succ]
      omega
    · rename_i hlength
      simpa using hlength

theorem length_level_le (h : l.length ≤ 2 ^ k) : (level node l k).length ≤ 1 := by
  induction k generalizing l with
  | zero => exact h
  | succ k ih =>
    rw [Nat.pow_succ] at h
    rw [← level_pairUp]
    exact ih (by rw [length_pairUp]; omega)

/-! ## What equal nodes say -/

/-- `node` has no collision on the pairs at the same places of the two trees. -/
def Free (node : α → α → α) (l l' : List α) : Prop :=
  ∀ k i x y x' y', (level node l k)[i * 2]? = some x → (level node l k)[i * 2 + 1]? = some y →
    (level node l' k)[i * 2]? = some x' → (level node l' k)[i * 2 + 1]? = some y' →
    node x y = node x' y' → x = x' ∧ y = y'

theorem level_succ_eq_iff (hlength : l.length = l'.length) (hfree : Free node l l') :
    (level node l (k + 1))[i]? = (level node l' (k + 1))[i]? ↔
      (level node l k)[i * 2]? = (level node l' k)[i * 2]? ∧
      (level node l k)[i * 2 + 1]? = (level node l' k)[i * 2 + 1]? := by
  have hsame := length_level node hlength k
  rw [level, level, getElem?_pairUp, getElem?_pairUp]
  rcases getElem?_both hsame (i * 2) with ⟨hx, hx'⟩ | ⟨x, x', hx, hx'⟩ <;>
    rcases getElem?_both hsame (i * 2 + 1) with ⟨hy, hy'⟩ | ⟨y, y', hy, hy'⟩ <;> rw [hx, hx', hy, hy']
  · exact iff_of_true rfl ⟨rfl, rfl⟩
  · -- the second child is there only with the first
    have hlt := (List.getElem?_eq_some_iff.mp hy).1
    exact absurd (List.getElem?_eq_none_iff.mp hx) (by omega)
  · exact ⟨fun h => ⟨h, rfl⟩, And.left⟩
  · simp only [Option.some.injEq]
    constructor
    · exact hfree k i x y x' y' hx hy hx' hy'
    · rintro ⟨rfl, rfl⟩
      rfl

/-- **Nodes are the same exactly when the leaves below them are.** -/
theorem level_eq_iff (hlength : l.length = l'.length) (hfree : Free node l l') :
    (level node l k)[i]? = (level node l' k)[i]? ↔ ∀ j, i * 2 ^ k ≤ j → j < i * 2 ^ k + 2 ^ k → l[j]? = l'[j]? := by
  induction k generalizing i with
  | zero =>
    constructor
    · intro h j hlo hhi
      obtain rfl : i = j := by omega
      exact h
    · exact fun h => h i (by omega) (by omega)
  | succ k ih =>
    have hlo : i * 2 ^ (k + 1) = i * 2 * 2 ^ k := by ring
    have hmid : (i * 2 + 1) * 2 ^ k = i * 2 * 2 ^ k + 2 ^ k := by ring
    have hhi : 2 ^ (k + 1) = 2 ^ k + 2 ^ k := by ring
    rw [level_succ_eq_iff hlength hfree, ih, ih, hlo, hmid, hhi]
    constructor
    · rintro ⟨hleft, hright⟩ j hj hj'
      rcases Nat.lt_or_ge j (i * 2 * 2 ^ k + 2 ^ k) with hlt | hge
      · exact hleft j hj hlt
      · exact hright j hge (by omega)
    · intro h
      exact ⟨fun j hj hj' => h j hj (by omega), fun j hj hj' => h j (by omega) (by omega)⟩

/-! ## The walk -/

variable [DecidableEq α]

theorem diffs_eq_nil (h : ∀ j, i ≤ j → j < i + n → l[j]? = l'[j]?) : diffs l l' i n = [] := by
  unfold diffs
  refine List.filter_eq_nil_iff.mpr fun j hj => ?_
  obtain ⟨hlo, hhi⟩ := List.mem_range'_1.mp hj
  simpa using h j hlo hhi

theorem diffs_ne_nil (h : ¬ ∀ j, i ≤ j → j < i + n → l[j]? = l'[j]?) : 0 < (diffs l l' i n).length := by
  refine List.length_pos_of_ne_nil fun hnil => h fun j hlo hhi => ?_
  unfold diffs at hnil
  have hj := List.filter_eq_nil_iff.mp hnil j (List.mem_range'_1.mpr ⟨hlo, hhi⟩)
  simpa using hj

theorem diffs_append (lo m n : Nat) : diffs l l' lo (m + n) = diffs l l' lo m ++ diffs l l' (lo + m) n := by
  unfold diffs
  rw [← List.range'_append_1, List.filter_append]

/-- **What the walk finds, and what it costs.** -/
theorem descend_spec (hlength : l.length = l'.length) (hfree : Free node l l') (hk : k < (climb node n l).length)
    (compared : Nat) (differing : List Nat) : ∃ cost,
      descend (climb node n l) (climb node n l') k i (compared, differing) =
        (compared + cost, differing ++ diffs l l' (i * 2 ^ k) (2 ^ k)) ∧
      cost ≤ 1 + 2 * k * (diffs l l' (i * 2 ^ k) (2 ^ k)).length := by
  have hat : ∀ m : List α, m.length = l.length → ∀ k, k < (climb node n l).length →
      (climb node n m).getD k [] = level node m k := by
    intro m hm k hk
    rw [List.getD_eq_getElem?_getD, getElem?_climb (by rwa [length_climb hm]), Option.getD_some]
  induction k generalizing i compared differing with
  | zero =>
    have hiff := level_eq_iff (k := 0) (i := i) hlength hfree
    rw [descend, hat l rfl 0 hk, hat l' hlength.symm 0 hk]
    rcases getElem?_both (length_level node hlength 0) i with ⟨hx, hx'⟩ | ⟨x, x', hx, hx'⟩ <;>
      rw [hx, hx'] at hiff ⊢
    · exact ⟨0, by rw [diffs_eq_nil (hiff.mp rfl), List.append_nil]; rfl, Nat.zero_le _⟩
    dsimp only
    split
    · rename_i heq
      exact ⟨1, by rw [diffs_eq_nil (hiff.mp (congrArg some heq)), List.append_nil], Nat.le_add_right 1 _⟩
    · rename_i hne
      have hleaf : l[i]? ≠ l'[i]? := fun h => hne (Option.some.inj (hx.symm.trans (h.trans hx')))
      refine ⟨1, ?_, Nat.le_add_right 1 _⟩
      rw [Nat.pow_zero, Nat.mul_one]
      unfold diffs
      simp [hleaf]
  | succ k ih =>
    have hiff := level_eq_iff (k := k + 1) (i := i) hlength hfree
    rw [descend, hat l rfl _ hk, hat l' hlength.symm _ hk]
    rcases getElem?_both (length_level node hlength (k + 1)) i with ⟨hx, hx'⟩ | ⟨x, x', hx, hx'⟩ <;>
      rw [hx, hx'] at hiff ⊢
    · exact ⟨0, by rw [diffs_eq_nil (hiff.mp rfl), List.append_nil]; rfl, Nat.zero_le _⟩
    dsimp only
    split
    · rename_i heq
      exact ⟨1, by rw [diffs_eq_nil (hiff.mp (congrArg some heq)), List.append_nil], Nat.le_add_right 1 _⟩
    · rename_i hne
      have hpos := diffs_ne_nil fun h => hne (Option.some.inj (hiff.mpr h))
      obtain ⟨left, hleft, hleftCost⟩ := ih (i := i * 2) (Nat.lt_of_succ_lt hk) (compared + 1) differing
      obtain ⟨right, hright, hrightCost⟩ := ih (i := i * 2 + 1) (Nat.lt_of_succ_lt hk) (compared + 1 + left)
        (differing ++ diffs l l' (i * 2 * 2 ^ k) (2 ^ k))
      have hsplit : diffs l l' (i * 2 ^ (k + 1)) (2 ^ (k + 1)) =
          diffs l l' (i * 2 * 2 ^ k) (2 ^ k) ++ diffs l l' ((i * 2 + 1) * 2 ^ k) (2 ^ k) := by
        rw [show i * 2 ^ (k + 1) = i * 2 * 2 ^ k by ring, show 2 ^ (k + 1) = 2 ^ k + 2 ^ k by ring, diffs_append,
          show (i * 2 + 1) * 2 ^ k = i * 2 * 2 ^ k + 2 ^ k by ring]
      refine ⟨1 + left + right, ?_, ?_⟩
      · rw [hleft, hright, hsplit, List.append_assoc, Nat.add_assoc, Nat.add_assoc, Nat.add_assoc]
      · -- a node that differs has a leaf that does, which pays for the two below it
        rw [hsplit, List.length_append] at hpos ⊢
        generalize (diffs l l' (i * 2 * 2 ^ k) (2 ^ k)).length = p at *
        generalize (diffs l l' ((i * 2 + 1) * 2 ^ k) (2 ^ k)).length = q at *
        have hexpand : 2 * (k + 1) * (p + q) = 2 * k * p + 2 * k * q + 2 * (p + q) := by ring
        omega

end BuildYourOwn.Lib.HashTree
