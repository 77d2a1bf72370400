import BuildYourOwn.Lin.Locality

/-!
# A bigger budget

The search of `check_with_budget` (`disttest/src/lin/mod.rs`) gives up when it has counted as many
states as its budget. A run that did not give up is the same run with any bigger budget: nothing but
the test on `states` reads the budget.

**`decided_of_le`**: a bigger budget never changes a decided verdict. It may turn an undecided key
into a broken one, which is then the one reported.
-/

namespace BuildYourOwn.Lin

open Lib

variable {entries : List Entry} {budget budget' : Nat} {s s' : Search} {state : State} {ok : Bool}

/-! ## One search -/

theorem Explores.states_le {job : Job} (h : Explores entries budget job s state s' ok)
    (hle : s.states ≤ budget) : s'.states ≤ budget := by
  induction h with
  | settled => exact hle
  | starved => exact hle
  | seenBefore _ hbudget => exact Nat.lt_of_not_le hbudget
  | @opened s s' state ok _ hbudget _ _ ih =>
    refine ih ?_
    rw [Search.visit_states]
    exact Nat.lt_of_not_le hbudget
  | tried => exact hle
  | skipped _ _ ih => exact ih hle
  | found _ _ _ _ ih => exact ih hle
  | gaveUp _ _ _ _ _ ih => exact ih hle
  | failed _ _ _ _ _ _ ih ihrest => exact ihrest (ih hle)

theorem Explores.found_in_time {job : Job} (h : Explores entries budget job s state s' ok)
    (hexh : s.exhaustedBudget = false) (hok : ok = true) : s'.exhaustedBudget = false := by
  induction h with
  | settled => exact hexh
  | starved => cases hok
  | seenBefore => cases hok
  | opened _ _ _ _ ih => exact ih ((Search.visit_exhaustedBudget _ _).trans hexh) hok
  | tried => cases hok
  | skipped _ _ ih => exact ih hexh hok
  | found _ _ _ _ ih => exact ih hexh rfl
  | gaveUp => cases hok
  | failed _ _ _ _ hexh₁ _ _ ihrest => exact ihrest hexh₁ hok

/-- The loop of a node that did not run out of budget, with a `recurse` that agrees with the first
wherever that one did not. -/
theorem tryEach_of_same {rec rec' : Search → State → Option (Search × Bool)}
    (hrec : ∀ s state s' ok, rec s state = some (s', ok) → s'.exhaustedBudget = false →
      rec' s state = some (s', ok)) {limit : UInt64} {todo : List (Entry × Nat)}
    (h : tryEach rec state limit todo s = some (s', ok)) (hexh : s'.exhaustedBudget = false) :
    tryEach rec' state limit todo s = some (s', ok) := by
  induction todo generalizing s with
  | nil => exact h
  | cons p rest ih =>
    obtain ⟨e, i⟩ := p
    unfold tryEach at h ⊢
    split at h
    · rename_i hplaced
      rw [if_pos hplaced]
      exact ih h
    rename_i hleft
    rw [if_neg hleft]
    split at h
    · rename_i hlate
      rw [if_pos hlate]
      exact ih h
    rename_i hcall
    rw [if_neg hcall]
    split at h
    · exact ih h
    obtain ⟨⟨s₁, ok₁⟩, hnode, hrest⟩ := Option.bind_eq_some_iff.mp h
    have hmore : s₁.exhaustedBudget = false := by
      cases ok₁ with
      | true =>
        obtain ⟨rfl, -⟩ : s₁ = s' ∧ true = ok := by simpa using hrest
        exact hexh
      | false =>
        by_contra hout
        have hout' : s₁.exhaustedBudget = true := by simpa using hout
        obtain ⟨rfl, -⟩ : s₁.unplace i e = s' ∧ false = ok := by simpa [hout'] using hrest
        exact hout hexh
    refine Option.bind_eq_some_iff.mpr ⟨(s₁, ok₁), hrec _ _ _ _ hnode hmore, ?_⟩
    cases ok₁ with
    | true => exact hrest
    | false =>
      have hout : ¬ (s₁.unplace i e).exhaustedBudget = true := by simp [hmore]
      dsimp only at hrest ⊢
      rw [if_neg Bool.false_ne_true, if_neg hout] at hrest ⊢
      exact ih hrest

/-- **A search that did not run out of budget is the same with a bigger one.** -/
theorem recurse_of_le (hle : budget ≤ budget') {fuel : Nat} (h : recurse entries budget fuel s state = some (s', ok))
    (hexh : s'.exhaustedBudget = false) : recurse entries budget' fuel s state = some (s', ok) := by
  induction fuel generalizing s state s' ok with
  | zero => exact h
  | succ fuel ih =>
    unfold recurse at h ⊢
    split at h
    · rename_i hknown
      rw [if_pos hknown]
      exact h
    rename_i hknown
    rw [if_neg hknown]
    split at h
    · obtain ⟨rfl, -⟩ : { s with exhaustedBudget := true } = s' ∧ false = ok := by simpa using h
      cases hexh
    rename_i hbudget
    rw [if_neg fun hge => hbudget (Nat.le_trans hle hge)]
    dsimp only at h ⊢
    split at h
    · rename_i hseen
      rw [if_pos hseen]
      exact h
    · rename_i hseen
      rw [if_neg hseen]
      exact tryEach_of_same (fun _ _ _ _ hnode hmore => ih hnode hmore) h hexh

theorem run_of_le (hle : budget ≤ budget') (h : run entries budget = some (s, ok))
    (hexh : s.exhaustedBudget = false) : run entries budget' = some (s, ok) := by
  unfold run at h ⊢
  split at h
  · rename_i hnil
    rw [if_pos hnil]
    exact h
  · rename_i hne
    rw [if_neg hne]
    exact recurse_of_le hle h hexh

theorem run_states_le (h : run entries budget = some (s, ok)) : s.states ≤ budget := by
  by_cases hne : entries = []
  · unfold run at h
    rw [if_pos hne] at h
    obtain ⟨rfl, -⟩ : Search.new entries = s ∧ true = ok := by simpa using h
    exact Nat.zero_le _
  · exact (explores_of_run h hne).states_le (Nat.zero_le _)

theorem run_found_in_time (h : run entries budget = some (s, true)) : s.exhaustedBudget = false := by
  by_cases hne : entries = []
  · unfold run at h
    rw [if_pos hne] at h
    obtain rfl : Search.new entries = s := by simpa using h
    rfl
  · exact (explores_of_run h hne).found_in_time rfl rfl

/-! ## The keys -/

variable {key : String} {keys : List String} {h : History} {undecided : Option Verdict}

theorem checkOneKey_of_le (hle : budget ≤ budget') : (checkOneKey key entries budget = some .linearizable →
      checkOneKey key entries budget' = some .linearizable) ∧
    ((∃ v, checkOneKey key entries budget = some (.notLinearizable v)) →
      ∃ v, checkOneKey key entries budget' = some (.notLinearizable v)) := by
  constructor
  · intro hyes
    rcases checkOneKey_cases key entries budget with ⟨s, hrun, -⟩ | ⟨s, -, -, h⟩ | ⟨s, v, -, h⟩
    · have hrun' := run_of_le hle hrun (run_found_in_time hrun)
      unfold checkOneKey
      rw [hrun']
      rfl
    · cases h.symm.trans hyes
    · cases h.symm.trans hyes
  · rintro ⟨v, hno⟩
    obtain ⟨s, hrun, hexh⟩ := fails_of_rejected hno
    obtain ⟨_, v', -, hv', -, -⟩ := checkOneKey_report key ⟨run_of_le hle hrun hexh, hexh⟩
    exact ⟨v', hv'⟩

theorem checkKeys_linearizable_iff (hundecided : ∀ v, undecided = some v → ∃ k states, v = .inconclusive k states) :
    checkKeys h budget keys undecided = some .linearizable ↔ undecided = none ∧
      ∀ key ∈ keys, checkOneKey key (h.forKey key) budget = some .linearizable := by
  induction keys generalizing undecided with
  | nil =>
    cases undecided with
    | none => simp [checkKeys]
    | some u =>
      obtain ⟨k, states, rfl⟩ := hundecided u rfl
      simp [checkKeys]
  | cons key keys ih =>
    unfold checkKeys
    rcases checkOneKey_cases key (h.forKey key) budget with
      ⟨s, -, hone⟩ | ⟨s, -, -, hone⟩ | ⟨s, v, -, hone⟩
    · rw [hone, Option.bind_eq_bind, Option.bind_some]
      rw [ih hundecided]
      simp [hone]
    · rw [hone, Option.bind_eq_bind, Option.bind_some]
      rw [ih (held_undecided hundecided _ _)]
      simp [hone]
    · rw [hone, Option.bind_eq_bind, Option.bind_some]
      simp [hone]

theorem checkKeys_broken_iff (hundecided : ∀ v, undecided = some v → ∃ k states, v = .inconclusive k states) :
    (∃ v, checkKeys h budget keys undecided = some (.notLinearizable v)) ↔
      ∃ key ∈ keys, ∃ v, checkOneKey key (h.forKey key) budget = some (.notLinearizable v) := by
  induction keys generalizing undecided with
  | nil =>
    cases undecided with
    | none => simp [checkKeys]
    | some u =>
      obtain ⟨k, states, rfl⟩ := hundecided u rfl
      simp [checkKeys]
  | cons key keys ih =>
    unfold checkKeys
    rcases checkOneKey_cases key (h.forKey key) budget with
      ⟨s, -, hone⟩ | ⟨s, -, -, hone⟩ | ⟨s, v, -, hone⟩
    · rw [hone, Option.bind_eq_bind, Option.bind_some]
      rw [ih hundecided]
      simp [hone]
    · rw [hone, Option.bind_eq_bind, Option.bind_some]
      rw [ih (held_undecided hundecided _ _)]
      simp [hone]
    · rw [hone, Option.bind_eq_bind, Option.bind_some]
      simp [hone]

/-- **A bigger budget never changes a decided verdict**, and no search counts beyond its own. -/
theorem decided_of_le (h : History) (hle : budget ≤ budget') :
    (checkWithBudget h budget = some .linearizable →
      checkWithBudget h budget' = some .linearizable) ∧
    ((∃ v, checkWithBudget h budget = some (.notLinearizable v)) →
      ∃ v, checkWithBudget h budget' = some (.notLinearizable v)) ∧
    ∀ entries s ok, run entries budget = some (s, ok) → s.states ≤ budget := by
  have hnone : ∀ v : Verdict, none = some v → ∃ k states, v = .inconclusive k states :=
    nofun
  refine ⟨fun hyes => ?_, fun hno => ?_, fun _ _ _ hrun => run_states_le hrun⟩
  · obtain ⟨-, hkeys⟩ := (checkKeys_linearizable_iff hnone).mp hyes
    exact (checkKeys_linearizable_iff hnone).mpr
      ⟨rfl, fun key hk => (checkOneKey_of_le hle).1 (hkeys key hk)⟩
  · obtain ⟨key, hk, hbroken⟩ := (checkKeys_broken_iff hnone).mp hno
    exact (checkKeys_broken_iff hnone).mpr ⟨key, hk, (checkOneKey_of_le hle).2 hbroken⟩

/-- With two states the first key of `starved` is undecided and the second broken; so it stays with
any budget that decides both. -/
theorem decided_of_le_starved :
    (∃ v, checkWithBudget starved 2 = some (.notLinearizable v)) ∧
      ∃ v, checkWithBudget starved 400000 = some (.notLinearizable v) :=
  ⟨⟨_, rfl⟩, (decided_of_le starved (show 2 ≤ 400000 by decide)).2.1 ⟨_, rfl⟩⟩

end BuildYourOwn.Lin
