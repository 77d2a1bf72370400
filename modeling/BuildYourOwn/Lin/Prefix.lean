import BuildYourOwn.Lin.Check

/-!
# What was known at an instant

`prefix_at` (`disttest/src/lin/mod.rs`) shows a history as it stood at an instant `t`: what was
called by then, with the answers that came later forgotten. `check_one_key` bisects over `t`, which
is sound because an impossible prefix never becomes possible again.

* `Entry.forgets_at`: forgetting a later answer rules nothing out, a compare-and-swap included: its
  outcome is decided by the state it meets.
-/

namespace BuildYourOwn.Lin

open Lib

variable {entries : List Entry} {e : Entry} {t t' : UInt64}

/-- The operation with its answer forgotten. -/
def Entry.forget (e : Entry) : Entry := { e with outcome := .unknown, retNs := u64Max }

/-- `t` is an instant at which the history is already impossible. -/
def Impossible (entries : List Entry) (t : UInt64) : Prop :=
  ¬ register.Linearizable none (prefixAt entries t).2

/-! ## One operation -/

namespace Entry

theorem isUnknown_iff : e.isUnknown = true ↔ e.outcome = .unknown := by
  simp [isUnknown]

theorem at_of_le (h : e.retNs ≤ t) : e.at t = e := if_neg (UInt64.not_lt.mpr h)

theorem at_of_gt (h : e.retNs > t) : e.at t = e.forget := if_pos h

theorem at_cases (t : UInt64) (e : Entry) : e.at t = e ∨ e.at t = e.forget := by
  by_cases h : e.retNs > t
  · exact .inr (at_of_gt h)
  · exact .inl (at_of_le (UInt64.not_lt.mp h))

@[simp] theorem callNs_at (t : UInt64) (e : Entry) : (e.at t).callNs = e.callNs := by
  unfold Entry.at
  split <;> rfl

theorem forgets_forget : register.Forgets forget where
  call _ := rfl
  ret e := UInt64.le_iff_toNat_le.mp (le_u64Max e.retNs)
  optional _ _ := rfl
  -- whatever an operation did, it may have done unseen
  step _ _ _ h := step_eq_some_iff.mpr ⟨(step_eq_some_iff.mp h).1, .inl rfl⟩

theorem forgets_at (t : UInt64) : register.Forgets (Entry.at t) :=
  forgets_forget.of_cases (at_cases t)

theorem WellTimed.at (h : e.WellTimed) (t : UInt64) : (e.at t).WellTimed := by
  by_cases hret : e.retNs > t
  · rw [at_of_gt hret]
    exact ⟨le_u64Max _, iff_of_true rfl rfl⟩
  · rw [at_of_le (UInt64.not_lt.mp hret)]
    exact h

theorem WellTimed.at_unknown (h : e.WellTimed) (hout : e.outcome = .unknown) : e.at t = e := by
  have hret : e.retNs = u64Max := h.never.mpr hout
  by_cases hgt : e.retNs > t
  · rw [at_of_gt hgt]
    unfold forget
    rw [← hout, ← hret]
  · exact at_of_le (UInt64.not_lt.mp hgt)

theorem at_at (h : t ≤ t') (e : Entry) : (e.at t').at t = e.at t := by
  by_cases hret : e.retNs > t'
  · have hret' : e.retNs > t := UInt64.lt_of_le_of_lt h hret
    rw [at_of_gt hret, at_of_gt hret']
    unfold Entry.at
    split <;> rfl
  · rw [at_of_le (UInt64.not_lt.mp hret)]

end Entry

/-! ## The whole history -/

theorem wellTimed_prefixAt (hw : ∀ e ∈ entries, e.WellTimed) (t : UInt64) :
    ∀ e ∈ (prefixAt entries t).2, e.WellTimed := by
  intro e he
  obtain ⟨x, hx, rfl⟩ := List.mem_map.mp he
  exact (hw x (List.mem_filter.mp hx).1).at t

theorem prefixAt_eq (entries : List Entry) (t : UInt64) :
    (prefixAt entries t).2 = (entries.map (Entry.at t)).filter fun e => e.callNs ≤ t := by
  rw [List.filter_map]
  exact congrArg _ (List.filter_congr fun e _ => by simp)

theorem prefixAt_prefixAt (h : t ≤ t') :
    ((prefixAt entries t').2.filter fun e => e.callNs ≤ t).map (Entry.at t) = (prefixAt entries t).2 := by
  rw [prefixAt_eq, prefixAt_eq, List.filter_filter, List.filter_map, List.filter_map, List.map_map]
  have hat : Entry.at t ∘ Entry.at t' = Entry.at t := funext fun e => Entry.at_at h e
  rw [hat]
  refine congrArg _ (List.filter_congr fun e _ => ?_)
  by_cases hcall : e.callNs ≤ t
  · simp [hcall, UInt64.le_trans hcall h]
  · simp [hcall]

theorem Impossible.mono (hw : ∀ e ∈ entries, e.WellTimed) (h : t ≤ t')
    (himp : Impossible entries t) : Impossible entries t' := by
  intro hlin
  refine himp ?_
  rw [← prefixAt_prefixAt h]
  refine hlin.weaken (Entry.forgets_at t) (fun x hx y hy hneeded hxy => ?_) fun x hx =>
    UInt64.le_iff_toNat_le.mp (wellTimed_prefixAt hw t' x hx).window
  -- an answer that is still known at `t` came by then, and `x` was called before it
  have hret : y.retNs ≤ t := by
    by_contra hgt
    refine hneeded ?_
    rw [Entry.at_of_gt (UInt64.not_le.mp hgt)]
    rfl
  have hcall : x.callNs ≤ y.retNs := UInt64.le_iff_toNat_le.mpr (not_lt.mp hxy)
  exact decide_eq_true (UInt64.le_trans hcall hret)

theorem Impossible.shown (hw : ∀ e ∈ entries, e.WellTimed) (himp : Impossible entries t) :
    ¬ register.Linearizable none (prefixAt entries t).1 := by
  intro hlin
  refine himp ?_
  have hall : register.Linearizable none
      (((prefixAt entries t).1.filter fun _ => true).map (Entry.at t)) :=
    hlin.weaken (Entry.forgets_at t) (fun _ _ _ _ _ _ => rfl) fun x hx =>
      UInt64.le_iff_toNat_le.mp (hw x (List.mem_filter.mp hx).1).window
  rwa [List.filter_true] at hall

theorem impossible_of_answered (hw : ∀ e ∈ entries, e.WellTimed)
    (hall : ∀ e ∈ entries, e.isUnknown = false → e.retNs ≤ t)
    (hnot : ¬ register.Linearizable none entries) : Impossible entries t := by
  intro hlin
  refine hnot ?_
  have hsame : ∀ e ∈ entries, e.at t = e := by
    intro e he
    cases hunknown : e.isUnknown with
    | true => exact (hw e he).at_unknown (Entry.isUnknown_iff.mp hunknown)
    | false => exact Entry.at_of_le (hall e he hunknown)
  have hshown : (prefixAt entries t).2 = entries.filter fun e => e.callNs ≤ t := by
    rw [prefixAt_eq, List.map_congr_left hsame, List.map_id']
  rw [hshown] at hlin
  -- an operation called later has no answer
  have hlate : ∀ e ∈ entries.filter fun e => !decide (e.callNs ≤ t), e.outcome = .unknown := by
    intro e he
    obtain ⟨he, hcall⟩ := List.mem_filter.mp he
    cases hunknown : e.isUnknown with
    | true => exact Entry.isUnknown_iff.mp hunknown
    | false =>
      have hret : e.callNs ≤ t := UInt64.le_trans (hw e he).window (hall e he hunknown)
      simp [hret] at hcall
  exact (hlin.append_optional hlate).perm (List.filter_append_perm _ entries)

theorem possible_of_same {entries' : List Entry} (hw : ∀ e ∈ entries, e.WellTimed) (hle : t ≤ t')
    (hsame : entries'.map (Entry.at t') = entries.map (Entry.at t))
    (h : register.Linearizable none (prefixAt entries t).2) : register.Linearizable none (prefixAt entries' t').2 := by
  rw [prefixAt_eq] at h
  rw [prefixAt_eq, hsame]
  have hlate : ∀ e ∈ ((entries.map (Entry.at t)).filter fun e => e.callNs ≤ t').filter
      fun e => !decide (e.callNs ≤ t), e.outcome = .unknown := by
    intro e he
    obtain ⟨he, hcall⟩ := List.mem_filter.mp he
    obtain ⟨x, hx, rfl⟩ := List.mem_map.mp (List.mem_filter.mp he).1
    have hret : x.retNs > t := by
      refine UInt64.lt_of_lt_of_le (UInt64.not_le.mp ?_) (hw x hx).window
      simpa using hcall
    rw [Entry.at_of_gt hret]
    rfl
  have hearly : ((entries.map (Entry.at t)).filter fun e => e.callNs ≤ t').filter
      (fun e => decide (e.callNs ≤ t)) = (entries.map (Entry.at t)).filter fun e => e.callNs ≤ t := by
    rw [List.filter_filter]
    refine List.filter_congr fun e _ => ?_
    by_cases hcall : e.callNs ≤ t
    · simp [hcall, UInt64.le_trans hcall hle]
    · simp [hcall]
  refine Object.Linearizable.perm ?_ (List.filter_append_perm (fun e => decide (e.callNs ≤ t)) _)
  rw [hearly]
  exact h.append_optional hlate

end BuildYourOwn.Lin
