import BuildYourOwn.Lin.Check
import BuildYourOwn.Lin.Exactness

/-!
# The bisection over the return instants

The loop of `check_one_key` (`disttest/src/lin/mod.rs`) halves an interval of indices into the
return instants, in the order of `(ret_ns, index)`. What holds before it and is kept by both of its
branches holds when the interval is empty: **`bisect_rule`**, the one induction over the loop.

`probes` are the instants the loop searches. A history is `Sated` when none of those searches runs
out of budget: only then does a search that did not fail say that its prefix is possible.
-/

namespace BuildYourOwn.Lin

open Lib

variable {entries : List Entry} {budget : Nat} {rs : List (UInt64 × Nat)}

def Starved (entries : List Entry) (budget : Nat) : Prop :=
  ∃ s ok, run entries budget = some (s, ok) ∧ s.exhaustedBudget = true

def Fails (entries : List Entry) (budget : Nat) (s : Search) : Prop :=
  run entries budget = some (s, false) ∧ s.exhaustedBudget = false

theorem exists_fails (h : (run entries budget).map (fun r => (r.2, r.1.exhaustedBudget)) = some (false, false)) :
    ∃ s, Fails entries budget s := by
  obtain ⟨s, ok, hrun⟩ := run_isSome entries budget
  rw [hrun] at h
  obtain ⟨rfl, hexh⟩ : ok = false ∧ s.exhaustedBudget = false := by simpa using h
  exact ⟨s, hrun, hexh⟩

theorem Fails.not_linearizable {s : Search} (h : Fails entries budget s)
    (hw : ∀ e ∈ entries, e.WellTimed) : ¬ register.Linearizable none entries :=
  run_complete hw h.1 h.2

/-- The instants that `bisect` searches. -/
def probes (entries : List Entry) (budget : Nat) (returns : List (UInt64 × Nat)) :
    Nat → Nat → Nat → List UInt64
  | 0, _, _ => []
  | fuel + 1, lo, hi =>
    if lo < hi then
      let mid := lo + (hi - lo) / 2
      match returns[mid]? with
      | none => []
      | some (t, _) =>
        t :: match run (prefixAt entries t).2 budget with
          | none => []
          | some (s, ok) =>
            if !ok && !s.exhaustedBudget then probes entries budget returns fuel lo mid
            else probes entries budget returns fuel (mid + 1) hi
    else []

def Sated (entries : List Entry) (budget : Nat) : Prop :=
  ∀ t ∈ probes entries budget (returns entries) ((returns entries).length + 1) 0
    (returns entries).length, ¬ Starved (prefixAt entries t).2 budget

theorem sated_of_probes (h : (probes entries budget (returns entries) ((returns entries).length + 1) 0
      (returns entries).length).all (fun t =>
        (run (prefixAt entries t).2 budget).any fun r => !r.1.exhaustedBudget) = true) : Sated entries budget := by
  rintro t ht ⟨s, ok, hrun, hexh⟩
  have hmore := List.all_eq_true.mp h t ht
  rw [hrun] at hmore
  simp [hexh] at hmore

/-! ## The return instants -/

instance : IsTrans (UInt64 × Nat) returnLe where
  trans a b c hab hbc := by
    unfold returnLe at *
    rcases hab with hab | ⟨hab, hi⟩ <;> rcases hbc with hbc | ⟨hbc, hj⟩
    · exact .inl (UInt64.lt_trans hab hbc)
    · exact .inl (hbc ▸ hab)
    · exact .inl (hab ▸ hbc)
    · exact .inr ⟨hab.trans hbc, Nat.le_trans hi hj⟩

instance : Std.Total returnLe where
  total a b := by
    by_cases hlt : a.1 < b.1
    · exact .inl (.inl hlt)
    by_cases hgt : b.1 < a.1
    · exact .inr (.inl hgt)
    have hsame : a.1 = b.1 :=
      UInt64.le_antisymm (UInt64.not_lt.mp hgt) (UInt64.not_lt.mp hlt)
    rcases Nat.le_total a.2 b.2 with hi | hi
    · exact .inl (.inr ⟨hsame, hi⟩)
    · exact .inr (.inr ⟨hsame.symm, hi⟩)

theorem mem_returns {t : UInt64} {i : Nat} :
    (t, i) ∈ returns entries ↔ ∃ e, entries[i]? = some e ∧ e.isUnknown = false ∧ e.retNs = t := by
  unfold returns
  rw [List.mem_insertionSort]
  constructor
  · intro h
    obtain ⟨⟨e, j⟩, hp, heq⟩ := List.mem_map.mp h
    obtain ⟨hp, hout⟩ := List.mem_filter.mp hp
    obtain ⟨rfl, rfl⟩ : e.retNs = t ∧ j = i := by simpa using heq
    exact ⟨e, List.mem_zipIdx_iff_getElem?.mp hp, by simpa using hout, rfl⟩
  · rintro ⟨e, hi, hout, rfl⟩
    exact List.mem_map.mpr ⟨(e, i), List.mem_filter.mpr
      ⟨List.mem_zipIdx_iff_getElem?.mpr hi, by simp [hout]⟩, rfl⟩

theorem le_getLast? {p : UInt64 × Nat → Bool} {q last : UInt64 × Nat}
    (hlast : ((returns entries).filter p).getLast? = some last) (hq : q ∈ returns entries)
    (hpq : p q = true) : q.1 ≤ last.1 := by
  have hsorted : ((returns entries).filter p).Pairwise returnLe :=
    (List.pairwise_insertionSort returnLe _).filter _
  obtain ⟨before, hsplit⟩ := List.getLast?_eq_some_iff.mp hlast
  rw [hsplit] at hsorted
  have hmem : q ∈ before ++ [last] := hsplit ▸ List.mem_filter.mpr ⟨hq, hpq⟩
  rcases List.mem_append.mp hmem with hq | hq
  · rcases (List.pairwise_append.mp hsorted).2.2 q hq last List.mem_cons_self with hlt | ⟨heq, -⟩
    · exact UInt64.le_of_lt hlt
    · exact UInt64.le_of_eq heq
  · rw [List.mem_singleton.mp hq]
    exact UInt64.le_refl _

theorem returns_sorted {i j : Nat} {p q : UInt64 × Nat} (hij : i < j)
    (hp : (returns entries)[i]? = some p) (hq : (returns entries)[j]? = some q) : returnLe p q := by
  obtain ⟨hi, rfl⟩ := List.getElem?_eq_some_iff.mp hp
  obtain ⟨hj, rfl⟩ := List.getElem?_eq_some_iff.mp hq
  exact List.pairwise_iff_getElem.mp (List.pairwise_insertionSort returnLe _) i j hi hj hij

/-! ## The loop -/

/-- What is kept of a search of the prefix at `t` that failed. -/
def Best.of (entries : List Entry) (t : UInt64) (culprit : Nat) (s : Search) : Best :=
  ⟨culprit, (prefixAt entries t).1, s.bestAttempt, s.bestState.join⟩

theorem bisect_rule {P : Nat → Nat → Nat → Option Best → Prop}
    (hlow : ∀ {fuel lo hi best mid t culprit s}, lo < hi → hi ≤ rs.length →
      mid = lo + (hi - lo) / 2 → rs[mid]? = some (t, culprit) →
      Fails (prefixAt entries t).2 budget s → P (fuel + 1) lo hi best →
      P fuel lo mid (some (.of entries t culprit s)))
    (hhigh : ∀ {fuel lo hi best mid t culprit s ok}, lo < hi → hi ≤ rs.length →
      mid = lo + (hi - lo) / 2 → rs[mid]? = some (t, culprit) →
      run (prefixAt entries t).2 budget = some (s, ok) →
      (ok = false → s.exhaustedBudget = true) → P (fuel + 1) lo hi best →
      P fuel (mid + 1) hi best) {fuel lo hi : Nat} {best : Option Best} (hfuel : hi - lo < fuel) (hhi : hi ≤ rs.length)
    (h : P fuel lo hi best) : ∃ best' fuel' lo' hi', bisect entries budget rs fuel lo hi best = some best' ∧ hi' ≤ lo' ∧
      P fuel' lo' hi' best' := by
  induction fuel generalizing lo hi best with
  | zero => exact absurd hfuel (Nat.not_lt_zero _)
  | succ fuel ih =>
    unfold bisect
    split
    · rename_i hlt
      have hmid : lo + (hi - lo) / 2 < rs.length := by omega
      have hget := List.getElem?_eq_getElem hmid
      obtain ⟨s, ok, hrun⟩ := run_isSome
        (prefixAt entries (rs[lo + (hi - lo) / 2]).1).2 budget
      dsimp only
      rw [hget]
      simp only [Option.bind_eq_bind, Option.bind_some, hrun]
      split
      · rename_i hfail
        obtain ⟨rfl, hexh⟩ : ok = false ∧ s.exhaustedBudget = false := by simpa using hfail
        exact ih (by omega) (by omega) (hlow hlt hhi rfl hget ⟨hrun, hexh⟩ h)
      · rename_i hpass
        exact ih (by omega) hhi (hhigh hlt hhi rfl hget hrun (by simpa using hpass) h)
    · rename_i hge
      exact ⟨best, _, lo, hi, rfl, Nat.not_lt.mp hge, h⟩

/-- What is kept blames an operation that returned, for the search of a prefix that failed. -/
def Reported (entries : List Entry) (budget : Nat) (best : Option Best) : Prop :=
  ∀ b, best = some b → ∃ t s, (t, b.culprit) ∈ returns entries ∧
    Fails (prefixAt entries t).2 budget s ∧ b = .of entries t b.culprit s

theorem reported_of {t : UInt64} {culprit : Nat} {s : Search}
    (hret : (t, culprit) ∈ returns entries) (hfails : Fails (prefixAt entries t).2 budget s) :
    Reported entries budget (some (.of entries t culprit s)) := by
  intro b hb
  cases hb
  exact ⟨t, s, hret, hfails, rfl⟩

theorem bisect_isSome (entries : List Entry) (budget : Nat) :
    ∃ best, bisect entries budget (returns entries) ((returns entries).length + 1) 0
      (returns entries).length none = some best ∧ Reported entries budget best := by
  have hnone : Reported entries budget none := fun b hb => absurd hb (Option.some_ne_none b).symm
  obtain ⟨best, _, _, _, hbisect, -, hbest⟩ :=
    @bisect_rule entries budget (returns entries) (fun _ _ _ best => Reported entries budget best)
      (fun _ _ _ hget hfails _ => reported_of (List.mem_of_getElem? hget) hfails)
      (fun _ _ _ _ _ _ h => h) _ _ _ none (Nat.lt_succ_self _) (Nat.le_refl _) hnone
  exact ⟨best, hbisect, hbest⟩

end BuildYourOwn.Lin

/-!
## The verdict is about the whole store

`check_with_budget` (`disttest/src/lin/mod.rs`) searches one key at a time. Its verdict is about
one order of all the operations over all the keys, replayed on a map that starts empty, with the
real-time order respected across keys: `Object.linearizable_perKey_iff` merges the orders of the
keys.

* `checkOneKey_spec`: one key gets a verdict, and an accepted or rejected one is right.
* `checkKeys_spec`: the loop accepts when every key was accepted, rejects when some key was, whatever
  it left undecided before.
* **`check_exact`**: the verdict on a history of many keys.
-/

namespace BuildYourOwn.Lin

open Lib

variable {entries : List Entry} {budget : Nat}

/-! ## One key -/

theorem checkOneKey_report {s : Search} (key : String) (hfails : Fails entries budget s) :
    ∃ best v, bisect entries budget (returns entries) ((returns entries).length + 1) 0
        (returns entries).length none = some best ∧
      checkOneKey key entries budget = some (.notLinearizable v) ∧
      (∀ b, best = some b → entries[b.culprit]? = some v.culprit ∧ v.entries = b.shown ∧
        v.bestAttempt = b.bestAttempt ∧ v.bestState = b.bestState) ∧
      (best = none → v.entries = entries.insertionSort entryLe ∧
        v.bestAttempt = s.bestAttempt ∧ v.bestState = s.bestState.join) := by
  obtain ⟨hrun, hexh⟩ := hfails
  obtain ⟨best, hbisect, hreported⟩ := bisect_isSome entries budget
  unfold checkOneKey
  simp only [hrun, hexh, hbisect, Option.bind_eq_bind, Option.bind_some, Bool.false_eq_true,
    if_false]
  cases best with
  | some b =>
    obtain ⟨t, _, ht, -, -⟩ := hreported b rfl
    obtain ⟨e, he, -, -⟩ := mem_returns.mp ht
    dsimp only
    rw [he]
    refine ⟨_, _, rfl, rfl, fun b' hb => ?_, fun hnone => absurd hnone (Option.some_ne_none b)⟩
    cases hb
    exact ⟨he, rfl, rfl, rfl⟩
  | none =>
    -- an empty history is never rejected
    cases entries with
    | nil => simp [run] at hrun
    | cons e es =>
      cases ((e :: es).insertionSort entryLe).getLast? with
      | some culprit =>
        exact ⟨_, _, rfl, rfl, fun b hb => absurd hb.symm (Option.some_ne_none b),
          fun _ => ⟨rfl, rfl, rfl⟩⟩
      | none =>
        exact ⟨_, _, rfl, rfl, fun b hb => absurd hb.symm (Option.some_ne_none b),
          fun _ => ⟨rfl, rfl, rfl⟩⟩

/-- The three ways through `check_one_key`. -/
theorem checkOneKey_cases (key : String) (entries : List Entry) (budget : Nat) :
    (∃ s, run entries budget = some (s, true) ∧
        checkOneKey key entries budget = some .linearizable) ∨
      (∃ s, run entries budget = some (s, false) ∧ s.exhaustedBudget = true ∧
        checkOneKey key entries budget = some (.inconclusive key s.states)) ∨
      ∃ s v, Fails entries budget s ∧ checkOneKey key entries budget = some (.notLinearizable v) := by
  obtain ⟨s, ok, hrun⟩ := run_isSome entries budget
  cases ok with
  | true =>
    refine .inl ⟨s, hrun, ?_⟩
    unfold checkOneKey
    rw [hrun]
    rfl
  | false =>
    cases hexh : s.exhaustedBudget with
    | true =>
      refine .inr (.inl ⟨s, hrun, hexh, ?_⟩)
      unfold checkOneKey
      simp only [hrun, hexh, Option.bind_eq_bind, Option.bind_some, Bool.false_eq_true, if_false,
        if_true, Option.pure_def]
    | false =>
      obtain ⟨_, v, -, hv, -, -⟩ := checkOneKey_report key ⟨hrun, hexh⟩
      exact .inr (.inr ⟨s, v, ⟨hrun, hexh⟩, hv⟩)

theorem fails_of_rejected {key : String} {v : Violation}
    (h : checkOneKey key entries budget = some (.notLinearizable v)) : ∃ s, Fails entries budget s := by
  rcases checkOneKey_cases key entries budget with ⟨s, -, h'⟩ | ⟨s, -, -, h'⟩ | ⟨s, -, hfails, -⟩
  · cases h'.symm.trans h
  · cases h'.symm.trans h
  · exact ⟨s, hfails⟩

/-- **One key is judged as it deserves.** -/
theorem checkOneKey_spec (key : String) (budget : Nat) (hw : ∀ e ∈ entries, e.WellTimed) :
    ∃ verdict, checkOneKey key entries budget = some verdict ∧
      (verdict = .linearizable → register.Linearizable none entries) ∧
      ∀ v, verdict = .notLinearizable v → ¬ register.Linearizable none entries := by
  rcases checkOneKey_cases key entries budget with ⟨s, hrun, h⟩ | ⟨s, -, -, h⟩ | ⟨s, v, hfails, h⟩
  · exact ⟨_, h, fun _ => run_sound hrun, nofun⟩
  · exact ⟨_, h, nofun, fun v hv => absurd hv (by simp)⟩
  · exact ⟨_, h, nofun, fun _ _ => hfails.not_linearizable hw⟩

/-! ## All keys -/

variable {h : History} {key : String} {keys : List String} {undecided undecided' : Option Verdict}
  {verdict : Verdict}

/-- What a verdict says of the keys it was reached on, when `undecided` was held before them. -/
structure Judges (h : History) (budget : Nat) (keys : List String) (undecided : Option Verdict)
    (verdict : Verdict) : Prop where
  accepts : verdict = .linearizable → undecided = none ∧
    ∀ key ∈ keys, register.Linearizable none (h.forKey key)
  rejects : ∀ v, verdict = .notLinearizable v →
    ∃ key ∈ keys, ¬ register.Linearizable none (h.forKey key)
  broken : ∀ key ∈ keys, ∀ v, checkOneKey key (h.forKey key) budget = some (.notLinearizable v) →
    ∃ v', verdict = .notLinearizable v'

theorem Judges.cons (hj : Judges h budget keys undecided' verdict) {one : Verdict}
    (hone : checkOneKey key (h.forKey key) budget = some one) (hnot : ∀ v, one ≠ .notLinearizable v)
    (hkey : undecided' = none → undecided = none ∧ register.Linearizable none (h.forKey key)) :
    Judges h budget (key :: keys) undecided verdict where
  accepts hv := by
    obtain ⟨hnone, hkeys⟩ := hj.accepts hv
    exact ⟨(hkey hnone).1, List.forall_mem_cons.mpr ⟨(hkey hnone).2, hkeys⟩⟩
  rejects v hv := by
    obtain ⟨k, hk, hrejected⟩ := hj.rejects v hv
    exact ⟨k, List.mem_cons_of_mem _ hk, hrejected⟩
  broken k hk v hkv := by
    rcases List.mem_cons.mp hk with rfl | hk
    · exact absurd (Option.mem_unique hone hkv) (hnot v)
    · exact hj.broken k hk v hkv

theorem held_undecided
    (hundecided : ∀ v, undecided = some v → ∃ k states, v = .inconclusive k states) (k₀ : String) (states₀ : Nat) :
    ∀ v, some (undecided.getD (.inconclusive k₀ states₀)) = some v → ∃ k states, v = .inconclusive k states := by
  intro v hv
  cases hv
  cases undecided with
  | none => exact ⟨k₀, states₀, rfl⟩
  | some u => exact hundecided u rfl

/-- **The loop over the keys.** Whatever undecided verdict it already holds, it accepts only when
every key was accepted, and rejects exactly when some key was rejected. -/
theorem checkKeys_spec (hw : h.WellTimed)
    (hundecided : ∀ v, undecided = some v → ∃ k states, v = .inconclusive k states) :
    ∃ verdict, checkKeys h budget keys undecided = some verdict ∧ Judges h budget keys undecided verdict := by
  induction keys generalizing undecided with
  | nil =>
    refine ⟨undecided.getD .linearizable, rfl, fun hv => ?_, fun v hv => ?_,
      List.forall_mem_nil _⟩
    all_goals
      cases undecided with
      | none => simp at hv ⊢
      | some u =>
        obtain ⟨k, states, rfl⟩ := hundecided u rfl
        cases hv
  | cons key keys ih =>
    obtain ⟨one, hone, hyes, hno⟩ := checkOneKey_spec key budget
      fun e (he : e ∈ h.forKey key) => hw e (List.mem_filter.mp he).1
    unfold checkKeys
    rw [hone, Option.bind_eq_bind, Option.bind_some]
    cases one with
    | linearizable =>
      obtain ⟨verdict, hrest, hj⟩ := ih hundecided
      exact ⟨verdict, hrest, hj.cons hone (fun v => by simp) fun hnone => ⟨hnone, hyes rfl⟩⟩
    | inconclusive k₀ states =>
      -- from here on the loop holds an undecided key and accepts no more
      obtain ⟨verdict, hrest, hj⟩ := ih (held_undecided hundecided k₀ states)
      exact ⟨verdict, hrest, hj.cons hone (fun v => by simp) nofun⟩
    | notLinearizable violation =>
      exact ⟨_, rfl, nofun,
        fun v _ => ⟨key, List.mem_cons_self, hno _ rfl⟩, fun _ _ _ _ => ⟨_, rfl⟩⟩

theorem store_linearizable_iff {h : History} (hw : h.WellTimed) :
    store.Linearizable (fun _ => none) h.entries ↔ ∀ key ∈ h.keys, register.Linearizable none (h.forKey key) := by
  rw [store_eq_perKey, Object.linearizable_perKey_iff _ (wellTimed_register hw).window]
  constructor
  · exact fun hall key _ => hall key
  · intro hall key
    by_cases hk : key ∈ h.keys
    · exact hall key hk
    · have hnil : (h.entries.filter fun e => e.key = key) = [] := History.forKey_eq_nil hk
      rw [hnil]
      exact Object.linearizable_of_optional fun e he => absurd he List.not_mem_nil

/-- **The verdict is about one order of all the operations.** The checker always answers; what it
accepts the store could have done, what it rejects the store could not, and a key it rejects
decides the verdict whatever the other keys do. -/
theorem check_exact (h : History) (budget : Nat) (hw : h.WellTimed) :
    ∃ verdict, checkWithBudget h budget = some verdict ∧
      (verdict = .linearizable → store.Linearizable (fun _ => none) h.entries) ∧
      (∀ v, verdict = .notLinearizable v → ¬ store.Linearizable (fun _ => none) h.entries) ∧
      (∀ key ∈ h.keys, ∀ v, checkOneKey key (h.forKey key) budget = some (.notLinearizable v) →
        ∃ v', verdict = .notLinearizable v') := by
  have hnone : ∀ v : Verdict, none = some v → ∃ k states, v = .inconclusive k states :=
    nofun
  obtain ⟨verdict, hcheck, hj⟩ := checkKeys_spec hw hnone
  refine ⟨verdict, hcheck, fun hv => ?_, fun v hv hlin => ?_, hj.broken⟩
  · exact (store_linearizable_iff hw).mpr (hj.accepts hv).2
  · obtain ⟨key, hk, hnot⟩ := hj.rejects v hv
    exact hnot ((store_linearizable_iff hw).mp hlin key hk)

/-- Three operations of one key that take three states to place, and a stale read of another. -/
def starved : History where
  entries := [Recorder.entry 0 "a" (.write [97]) .ok 0 10 "",
    Recorder.entry 0 "a" .read (.value (some [97])) 20 30 "",
    Recorder.entry 0 "a" .delete .ok 40 50 "",
    Recorder.entry 1 "b" (.write [98]) .ok 60 70 "",
    Recorder.entry 1 "b" .read (.value none) 80 90 ""]

theorem check_exact_starved :
    checkOneKey "a" (starved.forKey "a") 2 = some (.inconclusive "a" 2) ∧
      (∃ v, checkWithBudget starved 2 = some (.notLinearizable v)) ∧
      ¬ store.Linearizable (fun _ => none) starved.entries := by
  have hrejected : ∃ v, checkWithBudget starved 2 = some (.notLinearizable v) := ⟨_, rfl⟩
  obtain ⟨v, hv⟩ := hrejected
  obtain ⟨verdict, hcheck, -, hno, -⟩ := check_exact starved 2 (by decide)
  have hverdict : verdict = .notLinearizable v := Option.mem_unique hcheck hv
  exact ⟨rfl, ⟨v, hv⟩, hno v hverdict⟩

end BuildYourOwn.Lin
