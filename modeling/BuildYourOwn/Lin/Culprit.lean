import BuildYourOwn.Lin.Locality
import BuildYourOwn.Lin.Prefix

/-!
# The operation to blame

`check_one_key` (`disttest/src/lin/mod.rs`) bisects over the return instants of a rejected key for
the first one that is already too late, and blames the operation that returned then.

`Narrowed` is the invariant of the loop: before `lo` every prefix is possible, and what is kept is
the report on the prefix at `hi`.
-/

namespace BuildYourOwn.Lin

open Lib

variable {entries : List Entry} {budget fuel lo hi : Nat} {best : Option Best}

/-- The invariant of the bisection. -/
structure Narrowed (entries : List Entry) (budget fuel lo hi : Nat) (best : Option Best) :
    Prop where
  sated : ∀ t ∈ probes entries budget (returns entries) fuel lo hi,
    ¬ Starved (prefixAt entries t).2 budget
  possible : ∀ i t culprit, i < lo → (returns entries)[i]? = some (t, culprit) →
    ¬ Impossible entries t
  kept : (best = none ∧ hi = (returns entries).length) ∨
    ∃ t culprit s, (returns entries)[hi]? = some (t, culprit) ∧
      Fails (prefixAt entries t).2 budget s ∧ best = some (.of entries t culprit s)

namespace Narrowed

theorem start (h : Sated entries budget) :
    Narrowed entries budget ((returns entries).length + 1) 0 (returns entries).length none :=
  ⟨h, fun _ _ _ hi => absurd hi (Nat.not_lt_zero _), .inl ⟨rfl, rfl⟩⟩

variable {mid culprit : Nat} {t : UInt64} {s : Search}

/-- The prefix at `mid` is impossible. -/
theorem low (hlt : lo < hi) (hmid : mid = lo + (hi - lo) / 2) (hget : (returns entries)[mid]? = some (t, culprit))
    (hfails : Fails (prefixAt entries t).2 budget s) (h : Narrowed entries budget (fuel + 1) lo hi best) :
    Narrowed entries budget fuel lo mid (some (.of entries t culprit s)) := by
  refine ⟨fun t' ht' => h.sated t' ?_, h.possible, .inr ⟨t, culprit, s, hget, hfails, rfl⟩⟩
  subst hmid
  unfold probes
  rw [if_pos hlt]
  dsimp only
  rw [hget]
  dsimp only
  rw [hfails.1]
  simp only [hfails.2]
  exact List.mem_cons_of_mem _ ht'

/-- The prefix at `mid` is possible, and so are the ones before. -/
theorem high (hw : ∀ e ∈ entries, e.WellTimed) {ok : Bool} (hlt : lo < hi)
    (hmid : mid = lo + (hi - lo) / 2) (hget : (returns entries)[mid]? = some (t, culprit))
    (hrun : run (prefixAt entries t).2 budget = some (s, ok)) (hpass : ok = false → s.exhaustedBudget = true)
    (h : Narrowed entries budget (fuel + 1) lo hi best) : Narrowed entries budget fuel (mid + 1) hi best := by
  have hprobes : probes entries budget (returns entries) (fuel + 1) lo hi =
      t :: probes entries budget (returns entries) fuel (mid + 1) hi := by
    subst hmid
    rw [probes, if_pos hlt]
    dsimp only
    rw [hget]
    dsimp only
    rw [hrun]
    cases ok with
    | true => rfl
    | false => simp [hpass rfl]
  have hsated := h.sated
  rw [hprobes] at hsated
  have hok : ok = true := by
    cases ok with
    | true => rfl
    | false => exact absurd ⟨s, false, hrun, hpass rfl⟩ (hsated t List.mem_cons_self)
  have hlin : ¬ Impossible entries t := not_not.mpr (run_sound (hok ▸ hrun))
  refine ⟨fun t' ht' => hsated t' (List.mem_cons_of_mem _ ht'), fun i t' c hi hget' himp => ?_,
    h.kept⟩
  refine hlin (himp.mono hw ?_)
  rcases Nat.lt_or_eq_of_le (Nat.le_of_lt_succ hi) with hi | rfl
  · rcases returns_sorted hi hget' hget with hearlier | ⟨hsame, -⟩
    · exact UInt64.le_of_lt hearlier
    · exact UInt64.le_of_eq hsame
  · obtain ⟨rfl, -⟩ := Prod.mk.inj (Option.mem_unique hget' hget)
    exact UInt64.le_refl _

end Narrowed

theorem exists_impossible (hw : ∀ e ∈ entries, e.WellTimed) (hnot : ¬ register.Linearizable none entries) :
    ∃ p ∈ returns entries, Impossible entries p.1 := by
  have hmem : ∀ e ∈ entries, e.isUnknown = false → ∃ i, (e.retNs, i) ∈ returns entries := by
    intro e he hanswered
    obtain ⟨i, hi⟩ := List.mem_iff_getElem?.mp he
    exact ⟨i, mem_returns.mpr ⟨e, hi, hanswered, rfl⟩⟩
  cases hlast : ((returns entries).filter fun _ => true).getLast? with
  | none =>
    have hnil : returns entries = [] := by
      rw [← List.filter_true (returns entries)]
      exact List.getLast?_eq_none_iff.mp hlast
    refine absurd (Object.linearizable_of_optional fun e he => ?_) hnot
    cases hunknown : e.isUnknown with
    | true => exact Entry.isUnknown_iff.mp hunknown
    | false =>
      obtain ⟨i, hi⟩ := hmem e he hunknown
      exact absurd (hnil ▸ hi) List.not_mem_nil
  | some p =>
    refine ⟨p, (List.mem_filter.mp (List.mem_of_getLast? hlast)).1,
      impossible_of_answered hw (fun e he hanswered => ?_) hnot⟩
    obtain ⟨i, hi⟩ := hmem e he hanswered
    exact le_getLast? hlast hi rfl

/-- **Where the bisection ends**: at the first return, in the order of `(ret_ns, index)`, at which
the history is impossible. -/
theorem bisect_first {s : Search} (hw : ∀ e ∈ entries, e.WellTimed)
    (hfails : Fails entries budget s) (hsated : Sated entries budget) :
    ∃ t culprit s', bisect entries budget (returns entries) ((returns entries).length + 1) 0
        (returns entries).length none = some (some (.of entries t culprit s')) ∧
      (t, culprit) ∈ returns entries ∧ Fails (prefixAt entries t).2 budget s' ∧
      Impossible entries t ∧ ∀ p ∈ returns entries, Impossible entries p.1 → returnLe (t, culprit) p := by
  obtain ⟨best, fuel, lo, hi, hbisect, hdone, h⟩ :=
    @bisect_rule entries budget (returns entries) (Narrowed entries budget)
      (fun hlt _ hmid hget hfails h => h.low hlt hmid hget hfails)
      (fun hlt _ hmid hget hrun hpass h => h.high hw hlt hmid hget hrun hpass) _ 0 _ none
      (Nat.lt_succ_self _) (Nat.le_refl _) (Narrowed.start hsated)
  rcases h.kept with ⟨rfl, hhi⟩ | ⟨t, culprit, s', hget, hfails', rfl⟩
  · -- the prefix at the last return would be possible, and the history with it
    obtain ⟨p, hp, himp⟩ := exists_impossible hw (hfails.not_linearizable hw)
    obtain ⟨i, hi⟩ := List.mem_iff_getElem?.mp hp
    have hlt : i < (returns entries).length := (List.getElem?_eq_some_iff.mp hi).1
    exact absurd himp (h.possible i p.1 p.2 (by omega) hi)
  · refine ⟨t, culprit, s', hbisect, List.mem_of_getElem? hget, hfails',
      hfails'.not_linearizable (wellTimed_prefixAt hw t), fun p hp himp => ?_⟩
    obtain ⟨i, hi'⟩ := List.mem_iff_getElem?.mp hp
    rcases Nat.lt_trichotomy i hi with hlt | rfl | hgt
    · exact absurd himp (h.possible i p.1 p.2 (Nat.lt_of_lt_of_le hlt hdone) hi')
    · obtain rfl := Option.mem_unique hget hi'
      exact .inr ⟨rfl, Nat.le_refl _⟩
    · exact returns_sorted hgt hget hi'

/-- **The culprit's return made the history impossible.** Impossible never becomes possible again,
so the bisection finds the first return instant at which it is; and what the report shows of that
instant has no linearization either. -/
theorem culprit_first (key : String) {s : Search} (hw : ∀ e ∈ entries, e.WellTimed)
    (hrun : run entries budget = some (s, false)) (hexh : s.exhaustedBudget = false)
    (hsated : Sated entries budget) :
    (∀ t t', t ≤ t' → Impossible entries t → Impossible entries t') ∧
      ∃ v, checkOneKey key entries budget = some (.notLinearizable v) ∧
        v.culprit ∈ entries ∧ v.culprit.isUnknown = false ∧
        Impossible entries v.culprit.retNs ∧
        (∀ e ∈ entries, e.isUnknown = false → Impossible entries e.retNs →
          v.culprit.retNs ≤ e.retNs) ∧
        v.entries = (prefixAt entries v.culprit.retNs).1 ∧
        ¬ register.Linearizable none v.entries := by
  refine ⟨fun t t' hle himp => himp.mono hw hle, ?_⟩
  obtain ⟨t, culprit, s', hfirst, hmem, -, himp, hleast⟩ := bisect_first hw ⟨hrun, hexh⟩ hsated
  obtain ⟨best, v, hbisect, hv, hreport, -⟩ := checkOneKey_report key ⟨hrun, hexh⟩
  obtain rfl := Option.mem_unique hbisect hfirst
  obtain ⟨hculprit, hentries, -, -⟩ := hreport _ rfl
  obtain ⟨e, he, hanswered, rfl⟩ := mem_returns.mp hmem
  obtain rfl : e = v.culprit := Option.mem_unique he hculprit
  refine ⟨v, hv, List.mem_of_getElem? he, hanswered, himp, fun e' he' hanswered' himp' => ?_,
    hentries, ?_⟩
  · obtain ⟨i, hi⟩ := List.mem_iff_getElem?.mp he'
    rcases hleast _ (mem_returns.mpr ⟨e', hi, hanswered', rfl⟩) himp' with hlater | ⟨hsame, -⟩
    · exact UInt64.le_of_lt hlater
    · exact UInt64.le_of_eq hsame
  · rw [hentries]
    exact himp.shown hw

theorem culprit_first_staleRead :
    ∃ v, checkOneKey "k" staleRead 400000 = some (.notLinearizable v) ∧
      Impossible staleRead v.culprit.retNs ∧ ¬ register.Linearizable none v.entries := by
  obtain ⟨s, hrun, hexh⟩ := exists_fails (show (run staleRead 400000).map
    (fun r => (r.2, r.1.exhaustedBudget)) = some (false, false) from rfl)
  obtain ⟨-, v, hv, -, -, himp, -, -, hnot⟩ :=
    culprit_first "k" (by decide) hrun hexh (sated_of_probes rfl)
  exact ⟨v, hv, himp, hnot⟩

/-! ## Operations that return at the same instant -/

/-- `(t, i)` is the first return at which the history is impossible. -/
structure FirstImpossible (entries : List Entry) (t : UInt64) (i : Nat) : Prop where
  returned : (t, i) ∈ returns entries
  impossible : Impossible entries t
  least : ∀ p ∈ returns entries, Impossible entries p.1 → returnLe (t, i) p

/-- The prefix at `t` with the answer of operation `i` forgotten. -/
def sparing (entries : List Entry) (t : UInt64) (i : Nat) : List Entry :=
  (prefixAt (entries.modify i Entry.forget) t).2

/-- What was known before `t`, and what the operations other than `i` answered at `t`. -/
def othersAt (entries : List Entry) (t : UInt64) (i : Nat) : List Entry :=
  (entries.zipIdx.map fun p =>
    if p.1.retNs < t ∨ p.1.retNs = t ∧ p.2 ≠ i then p.1 else p.1.forget).filter
      fun e => e.callNs ≤ t

variable {t : UInt64} {i : Nat}

theorem Entry.at_forget (t : UInt64) (e : Entry) : e.forget.at t = e.forget := by
  by_cases h : e.forget.retNs > t
  · exact Entry.at_of_gt h
  · exact Entry.at_of_le (UInt64.not_lt.mp h)

theorem othersAt_eq (h : (t, i) ∈ returns entries) : othersAt entries t i = sparing entries t i := by
  unfold othersAt sparing
  rw [prefixAt_eq]
  refine congrArg _ (List.ext_getElem? fun k => ?_)
  rw [List.getElem?_map, List.getElem?_map, List.getElem?_zipIdx, List.getElem?_modify]
  cases hk : entries[k]? with
  | none => rfl
  | some e =>
    refine congrArg some ?_
    by_cases hki : i = k
    · subst hki
      obtain ⟨e', he', -, rfl⟩ := mem_returns.mp h
      obtain rfl : e = e' := Option.mem_unique hk he'
      simp [Entry.at_forget]
    · rcases UInt64.lt_or_le t e.retNs with hgt | hle
      · have hne : ¬ (e.retNs < t ∨ e.retNs = t) := fun hor =>
          UInt64.not_le.mpr hgt (hor.elim UInt64.le_of_lt UInt64.le_of_eq)
        simp [hki, Ne.symm hki, Entry.at_of_gt hgt, hne]
      · have hor : e.retNs < t ∨ e.retNs = t := UInt64.lt_or_eq_of_le hle
        simp [hki, Ne.symm hki, Entry.at_of_le hle, hor]

theorem FirstImpossible.spared (hw : ∀ e ∈ entries, e.WellTimed) (h : FirstImpossible entries t i)
    (halone : ∀ p ∈ returns entries, p.1 = t → p.2 = i) : register.Linearizable none (sparing entries t i) := by
  obtain ⟨c, hc, -, rfl⟩ := mem_returns.mp h.returned
  -- the other answers known at the instant came before it
  have hbefore : ∀ (k : Nat) (e : Entry), entries[k]? = some e → e.isUnknown = false → k ≠ i →
      e.retNs ≤ c.retNs → e.retNs < c.retNs := by
    intro k e hk hanswered hki hle
    rcases UInt64.lt_or_eq_of_le hle with hlt | hsame
    · exact hlt
    · exact absurd (halone (e.retNs, k) (mem_returns.mpr ⟨e, hk, hanswered, rfl⟩) hsame) hki
  cases hlast : ((returns entries).filter fun p => p.1 < c.retNs).getLast? with
  | none =>
    have hnil := List.getLast?_eq_none_iff.mp hlast
    refine Object.linearizable_of_optional fun x hx => ?_
    rw [← othersAt_eq h.returned] at hx
    obtain ⟨⟨e, k⟩, hp, rfl⟩ := List.mem_map.mp (List.mem_filter.mp hx).1
    have hk : entries[k]? = some e := List.mem_zipIdx_iff_getElem?.mp hp
    split
    · rename_i hknown
      cases hunknown : e.isUnknown with
      | true => exact Entry.isUnknown_iff.mp hunknown
      | false =>
        have hret : (e.retNs, k) ∈ returns entries := mem_returns.mpr ⟨e, hk, hunknown, rfl⟩
        rcases hknown with hlt | ⟨hsame, hki⟩
        · exact absurd (hnil ▸ List.mem_filter.mpr ⟨hret, by simpa using hlt⟩) List.not_mem_nil
        · exact absurd (halone _ hret hsame) hki
    · rfl
  | some p =>
    obtain ⟨hp, hlt⟩ := List.mem_filter.mp (List.mem_of_getLast? hlast)
    have hlt' : p.1 < c.retNs := by simpa using hlt
    have hpossible : register.Linearizable none (prefixAt entries p.1).2 := by
      by_contra himp
      rcases h.least p hp himp with hless | ⟨hsame, -⟩
      · exact UInt64.lt_asymm hless hlt'
      · exact UInt64.lt_irrefl _ (hsame ▸ hlt')
    refine possible_of_same hw (UInt64.le_of_lt hlt') (List.ext_getElem? fun k => ?_) hpossible
    rw [List.getElem?_map, List.getElem?_map, List.getElem?_modify]
    cases hk : entries[k]? with
    | none => rfl
    | some e =>
      refine congrArg some ?_
      by_cases hki : i = k
      · subst hki
        obtain rfl : e = c := Option.mem_unique hk hc
        simp [Entry.at_forget, Entry.at_of_gt hlt']
      · dsimp only
        rw [if_neg hki]
        cases hunknown : e.isUnknown with
        | true =>
          have hout := Entry.isUnknown_iff.mp hunknown
          have hwt := hw e (List.mem_of_getElem? hk)
          rw [hwt.at_unknown hout, hwt.at_unknown hout]
        | false =>
          rcases UInt64.lt_or_le c.retNs e.retNs with hgt | hle
          · rw [Entry.at_of_gt hgt, Entry.at_of_gt (UInt64.lt_trans hlt' hgt)]
          · have hret := mem_returns.mpr ⟨e, hk, hunknown, rfl⟩
            have hltc := hbefore k e hk hunknown (Ne.symm hki) hle
            have hlep : e.retNs ≤ p.1 := le_getLast? hlast hret (by simpa using hltc)
            rw [Entry.at_of_le hle, Entry.at_of_le hlep]

end BuildYourOwn.Lin
