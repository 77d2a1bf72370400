import Mathlib.Order.Lattice
import Mathlib.Tactic.Common

/-!
# Copies compared by a rank

A copy of a value may be absent, and has a rank either way; a copy takes another one only when that ranks higher.
-/

namespace BuildYourOwn.Lib

variable {α ι : Type} [LinearOrder ι] (rank : Option α → ι) {x y held : Option α} {v : α}

/-- The copy after it has been offered `v`. -/
def absorb (held : Option α) (v : α) : Option α := if rank (some v) ≤ rank held then held else some v

/-- The better of two copies. -/
def newest (x y : Option α) : Option α :=
  match x, y with
  | some v, some w => if rank (some w) ≤ rank (some v) then some v else some w
  | some v, none => some v
  | none, y => y

/-- The copy after it has been offered what there is. -/
def settle (held : Option α) : Option α → Option α
  | none => held
  | some v => absorb rank held v

def Ranked (x : Option α) : Prop := ∀ v ∈ x, rank none < rank (some v)

variable {rank}

theorem absorb_of_le (h : rank (some v) ≤ rank held) : absorb rank held v = held := if_pos h

theorem absorb_of_lt (h : rank held < rank (some v)) : absorb rank held v = some v := if_neg (not_le.mpr h)

theorem absorb_absorb (held : Option α) (v : α) : absorb rank (absorb rank held v) v = absorb rank held v := by
  rcases le_or_gt (rank (some v)) (rank held) with h | h
  · rw [absorb_of_le h, absorb_of_le h]
  · rw [absorb_of_lt h, absorb_of_le le_rfl]

theorem Ranked.rank_le (h : Ranked rank x) : rank none ≤ rank x := by
  cases x with
  | none => exact le_rfl
  | some v => exact (h v rfl).le

theorem newest_of_lt (hx : Ranked rank x) (h : rank x < rank y) : newest rank x y = y := by
  cases x with
  | none => rfl
  | some v =>
    cases y with
    | none => exact absurd h (not_lt.mpr hx.rank_le)
    | some w => exact if_neg (not_le.mpr h)

theorem newest_of_gt (hy : Ranked rank y) (h : rank y < rank x) : newest rank x y = x := by
  cases x with
  | none => exact absurd h (not_lt.mpr hy.rank_le)
  | some v =>
    cases y with
    | none => rfl
    | some w => exact if_pos h.le

theorem newest_cases (rank : Option α → ι) (x y : Option α) : newest rank x y = x ∨ newest rank x y = y := by
  cases x with
  | none => exact .inr rfl
  | some v =>
    cases y with
    | none => exact .inl rfl
    | some w =>
      show (if _ then _ else _) = _ ∨ (if _ then _ else _) = _
      split
      · exact .inl rfl
      · exact .inr rfl

theorem settle_of_lt (hheld : Ranked rank held) (h : rank held < rank y) : settle rank held y = y := by
  cases y with
  | none => exact absurd h (not_lt.mpr hheld.rank_le)
  | some v => exact absorb_of_lt h

theorem settle_of_le (h : rank y ≤ rank held) : settle rank held y = held := by
  cases y with
  | none => rfl
  | some v => exact absorb_of_le h

/-- **Settled with each other**, two copies are the better one, or are as they were and rank the same. -/
theorem settle_cases (hx : Ranked rank x) (hy : Ranked rank y) :
    (rank x < rank y ∧ settle rank x (newest rank x y) = y ∧ settle rank y (newest rank x y) = y) ∨
    (rank y < rank x ∧ settle rank x (newest rank x y) = x ∧ settle rank y (newest rank x y) = x) ∨
    (rank x = rank y ∧ settle rank x (newest rank x y) = x ∧ settle rank y (newest rank x y) = y) := by
  rcases lt_trichotomy (rank x) (rank y) with h | h | h
  · rw [newest_of_lt hx h]
    exact .inl ⟨h, settle_of_lt hx h, settle_of_le le_rfl⟩
  · refine .inr (.inr ⟨h, ?_⟩)
    rcases newest_cases rank x y with hbest | hbest
    · rw [hbest]
      exact ⟨settle_of_le le_rfl, settle_of_le h.le⟩
    · rw [hbest]
      exact ⟨settle_of_le h.ge, settle_of_le le_rfl⟩
  · rw [newest_of_gt hy h]
    exact .inr (.inl ⟨h, settle_of_le le_rfl, settle_of_lt hy h⟩)

theorem rank_settle (hx : Ranked rank x) (hy : Ranked rank y) :
    rank (settle rank x (newest rank x y)) = max (rank x) (rank y) ∧
      rank (settle rank y (newest rank x y)) = max (rank x) (rank y) := by
  rcases settle_cases hx hy with ⟨h, hx', hy'⟩ | ⟨h, hx', hy'⟩ | ⟨h, hx', hy'⟩
  · rw [hx', hy', max_eq_right h.le]
    exact ⟨rfl, rfl⟩
  · rw [hx', hy', max_eq_left h.le]
    exact ⟨rfl, rfl⟩
  · rw [hx', hy', h, max_self]
    exact ⟨rfl, rfl⟩

theorem settle_agree (hx : Ranked rank x) (hy : Ranked rank y) :
    settle rank x (newest rank x y) = settle rank y (newest rank x y) ∨
      (rank x = rank y ∧ settle rank x (newest rank x y) = x ∧ settle rank y (newest rank x y) = y) := by
  rcases settle_cases hx hy with ⟨-, hx', hy'⟩ | ⟨-, hx', hy'⟩ | h
  · exact .inl (hx'.trans hy'.symm)
  · exact .inl (hx'.trans hy'.symm)
  · exact .inr h

end BuildYourOwn.Lib
