import Mathlib.Algebra.Order.Group.Int
import Mathlib.Data.Nat.Count

/-!
# Happened before, and the clocks that capture it

A computation places events at positions `0, 1, 2, …`. Each event belongs to a process, and some
events receive a message that an earlier one sent. `HappenedBefore` is the least transitive relation
that orders the events of one process and puts a sending before its receipts.

`Stamps` says how a vector clock is kept: an event's stamp is the least vector above the stamps of
what directly precedes it, with the own entry one higher. Absent entries are zero, and a vector has an
entry for any process at all.

For other clocks: `HappenedBefore.grows`, a stamp that grows with every direct step, and `level_le`, what a
level that is handed on can come from.
-/

namespace BuildYourOwn.Lib

/-- Which process the event at a position belongs to, and which receipts are of which sendings. -/
structure Computation (P : Type) where
  proc : Nat → Option P
  message : Nat → Nat → Prop

namespace Computation

variable {P : Type} (C : Computation P) {i j k : Nat} {p q : P}

/-- `i` comes earlier at the same process as `j`, or `j` receives what `i` sent. -/
def Direct (i j : Nat) : Prop :=
  i < j ∧ ∃ p q, C.proc i = some p ∧ C.proc j = some q ∧ (p = q ∨ C.message i j)

/-- Lamport's relation. -/
def HappenedBefore (i j : Nat) : Prop := Relation.TransGen C.Direct i j

/-- `i` is `j`, or happened before it. -/
def InPast (i j : Nat) : Prop := i = j ∨ C.HappenedBefore i j

variable {C}

theorem HappenedBefore.lt (h : C.HappenedBefore i j) : i < j := by
  induction h with
  | single h => exact h.1
  | tail _ h ih => exact ih.trans h.1

theorem InPast.le (h : C.InPast i j) : i ≤ j := by
  rcases h with rfl | h
  · exact Nat.le_refl i
  · exact Nat.le_of_lt h.lt

theorem InPast.trans_direct (h : C.InPast i j) (hjk : C.Direct j k) : C.InPast i k := by
  rcases h with rfl | h
  · exact .inr (Relation.TransGen.single hjk)
  · exact .inr (h.tail hjk)

theorem InPast.trans (h : C.InPast i j) (hjk : C.InPast j k) : C.InPast i k := by
  rcases hjk with rfl | hjk
  · exact h
  · rcases h with rfl | h
    · exact .inr hjk
    · exact .inr (h.trans hjk)

theorem InPast.antisymm (hij : C.InPast i j) (hji : C.InPast j i) : i = j :=
  Nat.le_antisymm hij.le hji.le

theorem happenedBefore_iff : C.HappenedBefore i j ↔ C.InPast i j ∧ ¬ C.InPast j i := by
  constructor
  · exact fun h => ⟨.inr h, fun hji => absurd h.lt (Nat.not_lt_of_le hji.le)⟩
  · rintro ⟨rfl | h, hnot⟩
    · exact absurd (.inl rfl) hnot
    · exact h

theorem InPast.cases_direct (h : C.InPast i k) : i = k ∨ ∃ j, C.InPast i j ∧ C.Direct j k := by
  rcases h with rfl | h
  · exact .inl rfl
  · cases h with
    | single h => exact .inr ⟨i, .inl rfl, h⟩
    | tail h hjk => exact .inr ⟨_, .inr h, hjk⟩

theorem HappenedBefore.grows {α : Type} {r : α → α → Prop} (stamp : Nat → α)
    (htrans : ∀ a b c, r a b → r b c → r a c) (h : ∀ i j, C.Direct i j → r (stamp i) (stamp j)) (hij : C.HappenedBefore i j) :
    r (stamp i) (stamp j) := by
  induction hij with
  | single hij => exact h _ _ hij
  | tail _ hjk ih => exact htrans _ _ _ ih (h _ _ hjk)

theorem level_le {level : Nat → Int} (value : Nat → Int) {floor : Int}
    (h : ∀ i p, C.proc i = some p → level i ≤ floor ∨ level i ≤ value i ∨ ∃ j, C.Direct j i ∧ level i ≤ level j)
    (i : Nat) (p : P) (hi : C.proc i = some p) :
    level i ≤ floor ∨ ∃ k q, C.proc k = some q ∧ C.InPast k i ∧ level i ≤ value k := by
  induction i using Nat.strong_induction_on generalizing p with
  | _ i ih =>
    rcases h i p hi with hfloor | hvalue | ⟨j, hji, hle⟩
    · exact .inl hfloor
    · exact .inr ⟨i, p, hi, .inl rfl, hvalue⟩
    · have hproc := hji.2
      obtain ⟨q, -, hq, -⟩ := hproc
      rcases ih j hji.1 q hq with hfloor | ⟨k, r, hr, hkj, hvalue⟩
      · exact .inl (hle.trans hfloor)
      · exact .inr ⟨k, r, hr, hkj.trans_direct hji, hle.trans hvalue⟩

/-! ## Counting the events of a process -/

variable [DecidableEq P]

variable (C) in
/-- How many events of `p` come before position `n`. -/
def eventsOf (p : P) (n : Nat) : Nat := Nat.count (fun k => C.proc k = some p) n

variable (C) in
/-- The number of an event among those of its process, from one. -/
def rank (p : P) (i : Nat) : Nat := C.eventsOf p (i + 1)

theorem rank_eq (hi : C.proc i = some p) : C.rank p i = C.eventsOf p i + 1 := by
  unfold rank eventsOf
  rw [Nat.count_succ, if_pos hi]

/-- An event of `p` before `j` is among the events of `p` before `j`. -/
theorem rank_le_eventsOf (hij : i < j) : C.rank p i ≤ C.eventsOf p j :=
  Nat.count_monotone _ hij

theorem le_of_rank_le (hi : C.proc i = some p) (h : C.rank p i ≤ C.rank p j) : i ≤ j := by
  by_contra hlt
  have hle : C.rank p j ≤ C.eventsOf p i := rank_le_eventsOf (Nat.lt_of_not_le hlt)
  rw [rank_eq hi] at h
  omega

/-- Before a position with events of `p` before it, there is a last one. -/
theorem exists_last (n : Nat) (hpos : 0 < C.eventsOf p n) :
    ∃ k < n, C.proc k = some p ∧ C.rank p k = C.eventsOf p n := by
  induction n with
  | zero => simp [eventsOf] at hpos
  | succ n ih =>
    by_cases hn : C.proc n = some p
    · exact ⟨n, Nat.lt_succ_self n, hn, rfl⟩
    · have heq : C.eventsOf p (n + 1) = C.eventsOf p n := by
        unfold eventsOf
        rw [Nat.count_succ, if_neg hn, Nat.add_zero]
      obtain ⟨k, hk, hproc, hrank⟩ := ih (heq ▸ hpos)
      exact ⟨k, hk.trans (Nat.lt_succ_self n), hproc, hrank.trans heq.symm⟩

/-! ## Vector clocks -/

variable (C) in
/-- `stamp` is kept as a vector clock: the stamp of an event is the least vector `base` that is above
everything that directly precedes the event, one higher at the event's own process. -/
def Stamps (stamp : Nat → P → Int) : Prop :=
  ∀ i p, C.proc i = some p → ∃ base : P → Int,
    (∀ q, stamp i q = if q = p then base q + 1 else base q) ∧
    (∀ q, 0 ≤ base q) ∧
    (∀ j q, C.Direct j i → stamp j q ≤ base q) ∧
    (∀ q, base q = 0 ∨ ∃ j, C.Direct j i ∧ base q = stamp j q)

/-- What the stamp of the event at `i` says: of each process, the first events up to the entry are
in the past, and there are that many. -/
structure Knows (C : Computation P) (stamp : Nat → P → Int) (i : Nat) : Prop where
  nonneg : ∀ q, 0 ≤ stamp i q
  past : ∀ q k, C.proc k = some q → (C.InPast k i ↔ (C.rank q k : Int) ≤ stamp i q)
  reached : ∀ q, stamp i q = 0 ∨ ∃ k, C.proc k = some q ∧ stamp i q = C.rank q k

variable {stamp : Nat → P → Int}

theorem Stamps.own (h : C.Stamps stamp) (hi : C.proc i = some p)
    (ih : ∀ j, C.Direct j i → Knows C stamp j) : stamp i p = C.rank p i := by
  obtain ⟨base, hstamp, hnonneg, habove, hleast⟩ := h i p hi
  rw [hstamp, if_pos rfl, rank_eq hi]
  have hle : base p ≤ C.eventsOf p i := by
    rcases hleast p with h0 | ⟨j, hji, hj⟩
    · omega
    · rcases (ih j hji).reached p with h0 | ⟨k, hk, hrank⟩
      · omega
      · have hkj : C.InPast k j := ((ih j hji).past p k hk).mpr (by omega)
        have hki : C.rank p k ≤ C.eventsOf p i :=
          rank_le_eventsOf (Nat.lt_of_le_of_lt hkj.le hji.1)
        omega
  have hge : (C.eventsOf p i : Int) ≤ base p := by
    rcases Nat.eq_zero_or_pos (C.eventsOf p i) with h0 | hpos
    · have := hnonneg p
      omega
    · obtain ⟨k, hki, hk, hrank⟩ := exists_last i hpos
      have hdirect : C.Direct k i := ⟨hki, p, p, hk, hi, .inl rfl⟩
      have hself := ((ih k hdirect).past p k hk).mp (.inl rfl)
      have := habove k p hdirect
      omega
  push_cast
  omega

theorem Stamps.knows (h : C.Stamps stamp) (i : Nat) (p : P) (hi : C.proc i = some p) : Knows C stamp i := by
  induction i using Nat.strong_induction_on generalizing p with
  | _ i ih =>
    have hpred : ∀ j, C.Direct j i → Knows C stamp j := by
      rintro j ⟨hji, q, -, hq, -⟩
      exact ih j hji q hq
    have hown := h.own hi hpred
    obtain ⟨base, hstamp, hnonneg, habove, hleast⟩ := h i p hi
    have hbase : ∀ q, base q ≤ stamp i q := by
      intro q
      rw [hstamp]
      split_ifs <;> omega
    refine ⟨fun q => (hnonneg q).trans (hbase q), ?_, ?_⟩
    · intro q k hk
      constructor
      · intro hki
        rcases hki.cases_direct with rfl | ⟨j, hkj, hji⟩
        · obtain rfl : p = q := Option.mem_unique hi hk
          exact Int.le_of_eq hown.symm
        · calc (C.rank q k : Int) ≤ stamp j q := ((hpred j hji).past q k hk).mp hkj
            _ ≤ base q := habove j q hji
            _ ≤ stamp i q := hbase q
      · intro hle
        by_cases hqp : q = p
        · subst hqp
          rw [hown] at hle
          have hki : k ≤ i := le_of_rank_le hk (by omega)
          rcases Nat.eq_or_lt_of_le hki with rfl | hlt
          · exact .inl rfl
          · exact .inr (Relation.TransGen.single ⟨hlt, q, q, hk, hi, .inl rfl⟩)
        · rw [hstamp, if_neg hqp] at hle
          have hpos := rank_eq hk
          rcases hleast q with h0 | ⟨j, hji, hj⟩
          · omega
          · exact (((hpred j hji).past q k hk).mpr (by omega)).trans_direct hji
    · intro q
      by_cases hqp : q = p
      · exact .inr ⟨i, hqp ▸ hi, hqp ▸ hown⟩
      · rw [hstamp, if_neg hqp]
        rcases hleast q with h0 | ⟨j, hji, hj⟩
        · exact .inl h0
        · rcases (hpred j hji).reached q with h0 | ⟨k, hk, hrank⟩
          · exact .inl (hj.trans h0)
          · exact .inr ⟨k, hk, hj.trans hrank⟩

/-- **Stamps are ordered as the events are.** -/
theorem Stamps.le_iff (h : C.Stamps stamp) (hi : C.proc i = some p) (hj : C.proc j = some q) :
    (∀ r, stamp i r ≤ stamp j r) ↔ C.InPast i j := by
  have ki := h.knows i p hi
  have kj := h.knows j q hj
  constructor
  · intro hle
    have hself := (ki.past p i hi).mp (.inl rfl)
    exact (kj.past p i hi).mpr (hself.trans (hle p))
  · intro hij r
    rcases ki.reached r with h0 | ⟨k, hk, hrank⟩
    · exact h0 ▸ kj.nonneg r
    · have hki : C.InPast k i := (ki.past r k hk).mpr (Int.le_of_eq hrank.symm)
      exact hrank ▸ (kj.past r k hk).mp (hki.trans hij)

end Computation

end BuildYourOwn.Lib
