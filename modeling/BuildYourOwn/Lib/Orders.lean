import Mathlib.Data.List.Perm.Basic

/-!
# Orders of a list under a precedence

`Completes before legal start rest tail`: after `start`, the elements of `rest` can be put in the order `tail`,
with nothing placed before what must precede it, so that the whole is legal. A search for an order places one
element after another, and the rule it follows is **`completable_iff_next`**: there is an order iff some element
that no other of the rest must precede can come next. The rule needs what is legal to be closed under prefixes,
which is also what lets the search give up on a prefix that is not.

A search that marks what it has placed has the `unplaced` elements left.
-/

namespace BuildYourOwn.Lib

variable {α : Type}

section

variable (before : α → α → Prop) (legal : List α → Prop)

/-- `tail` is an order of `rest` that can follow `start`. -/
structure Completes (start rest tail : List α) : Prop where
  whole : tail.Perm rest
  respects : tail.Pairwise fun a b => ¬ before b a
  legal : legal (start ++ tail)

def Completable (start rest : List α) : Prop := ∃ tail, Completes before legal start rest tail

end

variable {before : α → α → Prop} {legal : List α → Prop} {start rest : List α}

theorem completable_nil : Completable before legal start [] ↔ legal start := by
  constructor
  · rintro ⟨tail, hwhole, -, hlegal⟩
    obtain rfl := hwhole.eq_nil
    rwa [List.append_nil] at hlegal
  · exact fun h => ⟨[], .nil, .nil, by rwa [List.append_nil]⟩

theorem completable_iff_next (hne : rest ≠ []) (hclosed : ∀ l l', legal (l ++ l') → legal l) :
    Completable before legal start rest ↔ ∃ x rest', rest.Perm (x :: rest') ∧ (∀ y ∈ rest', ¬ before y x) ∧
      legal (start ++ [x]) ∧ Completable before legal (start ++ [x]) rest' := by
  constructor
  · rintro ⟨tail, hwhole, hrespects, hlegal⟩
    cases tail with
    | nil => exact absurd hwhole.symm.eq_nil hne
    | cons x tail =>
      obtain ⟨hfirst, hrespects⟩ := List.pairwise_cons.mp hrespects
      rw [List.append_cons] at hlegal
      exact ⟨x, tail, hwhole.symm, hfirst, hclosed _ _ hlegal, tail, .refl _, hrespects, hlegal⟩
  · rintro ⟨x, rest', hperm, hfirst, -, tail, hwhole, hrespects, hlegal⟩
    refine ⟨x :: tail, (hwhole.cons x).trans hperm.symm, List.pairwise_cons.mpr ⟨fun y hy => ?_, hrespects⟩, ?_⟩
    · exact hfirst y (hwhole.subset hy)
    · rwa [List.append_cons]

theorem Completable.perm {rest' : List α} (h : Completable before legal start rest) (hp : rest.Perm rest') :
    Completable before legal start rest' := by
  obtain ⟨tail, hwhole, hrespects, hlegal⟩ := h
  exact ⟨tail, hwhole.trans hp, hrespects, hlegal⟩

/-! ## What is left -/

/-- The elements whose mark is not set. -/
def unplaced : List Bool → List α → List α
  | false :: placed, x :: l => x :: unplaced placed l
  | true :: placed, _ :: l => unplaced placed l
  | _, _ => []

theorem unplaced_replicate (l : List α) : unplaced (List.replicate l.length false) l = l := by
  induction l with
  | nil => rfl
  | cons x l ih => exact congrArg (x :: ·) ih

variable {placed : List Bool}

theorem mem_unplaced {l : List α} {x : α} :
    x ∈ unplaced placed l ↔ ∃ i : Nat, l[i]? = some x ∧ placed[i]? = some false := by
  induction l generalizing placed with
  | nil => cases placed <;> simp [unplaced]
  | cons y l ih =>
    cases placed with
    | nil => simp [unplaced]
    | cons b placed =>
      have hsplit : (∃ i : Nat, (y :: l)[i]? = some x ∧ (b :: placed)[i]? = some false) ↔
          (y = x ∧ b = false) ∨ ∃ i : Nat, l[i]? = some x ∧ placed[i]? = some false := by
        constructor
        · rintro ⟨i, hi, hb⟩
          cases i with
          | zero => exact .inl ⟨Option.some.inj hi, Option.some.inj hb⟩
          | succ i => exact .inr ⟨i, hi, hb⟩
        · rintro (⟨rfl, rfl⟩ | ⟨i, hi, hb⟩)
          · exact ⟨0, rfl, rfl⟩
          · exact ⟨i + 1, hi, hb⟩
      rw [hsplit, ← ih]
      cases b with
      | false => simp [unplaced, eq_comm]
      | true => simp [unplaced]

theorem unplaced_perm {l : List α} {x : α} {i : Nat} (hi : l[i]? = some x)
    (hleft : placed[i]? = some false) : (unplaced placed l).Perm (x :: unplaced (placed.set i true) l) := by
  induction l generalizing placed i with
  | nil => cases hi
  | cons y l ih =>
    cases placed with
    | nil => cases hleft
    | cons b placed =>
      cases i with
      | zero =>
        obtain rfl : y = x := Option.some.inj hi
        obtain rfl : b = false := Option.some.inj hleft
        exact .refl _
      | succ i =>
        have htail := ih (show l[i]? = some x from hi) (show placed[i]? = some false from hleft)
        cases b with
        | false => exact (htail.cons y).trans (.swap ..)
        | true => exact htail

theorem mem_unplaced_set {l : List α} {x : α} {i : Nat} :
    x ∈ unplaced (placed.set i true) l ↔ ∃ j : Nat, j ≠ i ∧ l[j]? = some x ∧ placed[j]? = some false := by
  rw [mem_unplaced]
  refine exists_congr fun j => ?_
  rw [List.getElem?_set]
  split
  · rename_i hij
    subst hij
    refine iff_of_false ?_ fun h => h.1 rfl
    rintro ⟨-, hset⟩
    split at hset <;> cases hset
  · rename_i hij
    exact (and_iff_right (Ne.symm hij)).symm

end BuildYourOwn.Lib
