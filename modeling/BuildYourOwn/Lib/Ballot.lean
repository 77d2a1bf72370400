import Mathlib.Order.Interval.Finset.Basic

/-!
# Ballots: why Paxos agrees

Acceptors `α`, ballot numbers `β` in any order whose intervals are finite, values `γ`, and a family
of quorums any two of which meet. `Accepted a b v` says that acceptor `a` accepted value `v` at
ballot `b` at some time of a run; nothing is said about when.

* `Reports Accepted a b r`: `r` is the highest-numbered proposal `a` accepted below `b`, if any. It
  holds of the promise an acceptor gives at `b` when it accepts nothing below `b` afterwards.
* `Picks Q report v`: `v` is the value of the highest-numbered report of the quorum `Q`, or any
  value when nobody reports one.

**`Balloting.agreement`**: once a quorum has accepted a value at a ballot, every value accepted at
that ballot or above is the same one.
-/

namespace BuildYourOwn.Lib

variable {α β γ : Type} [LinearOrder β]

/-- `r` is the last proposal that `a` accepts below ballot `b`. -/
def Reports (Accepted : α → β → γ → Prop) (a : α) (b : β) : Option (β × γ) → Prop
  | none => ∀ m w, m < b → ¬ Accepted a m w
  | some (m, w) => m < b ∧ Accepted a m w ∧ ∀ m' w', m' < b → Accepted a m' w' → m' ≤ m

/-- `v` is what the reports of `Q` leave a proposer free to propose. -/
def Picks (Q : Finset α) (report : α → Option (β × γ)) (v : γ) : Prop :=
  (∀ a ∈ Q, report a = none) ∨
    ∃ a ∈ Q, ∃ m, report a = some (m, v) ∧
      ∀ a' ∈ Q, ∀ m' w', report a' = some (m', w') → m' ≤ m

/-- What a run of Paxos leaves behind. -/
structure Balloting (Quorum : Finset α → Prop) (Accepted : α → β → γ → Prop) : Prop where
  unique : ∀ a a' b v v', Accepted a b v → Accepted a' b v' → v = v'
  proposed : ∀ a b v, Accepted a b v → ∃ Q report, Quorum Q ∧
    (∀ a ∈ Q, Reports Accepted a b (report a)) ∧ Picks Q report v

variable {Quorum : Finset α → Prop} {Accepted : α → β → γ → Prop}

theorem Reports.of_accepted {a : α} {b m : β} {w : γ} {r : Option (β × γ)}
    (h : Reports Accepted a b r) (hlt : m < b) (hacc : Accepted a m w) : ∃ m' w', r = some (m', w') ∧ m ≤ m' := by
  cases r with
  | none => exact absurd hacc (h m w hlt)
  | some p => exact ⟨p.1, p.2, rfl, h.2.2 m w hlt hacc⟩

theorem Reports.congr {Accepted' : α → β → γ → Prop} {a : α} {b : β} {r : Option (β × γ)}
    (h : Reports Accepted a b r) (hsame : ∀ m w, m < b → (Accepted' a m w ↔ Accepted a m w)) :
    Reports Accepted' a b r := by
  cases r with
  | none => exact fun m w hlt hacc => h m w hlt ((hsame m w hlt).mp hacc)
  | some p =>
    obtain ⟨hlt, hacc, hmax⟩ := h
    exact ⟨hlt, (hsame _ _ hlt).mpr hacc,
      fun m w hm hacc' => hmax m w hm ((hsame m w hm).mp hacc')⟩

theorem Balloting.agreement [LocallyFiniteOrder β] (h : Balloting Quorum Accepted)
    (hmeet : ∀ Q Q', Quorum Q → Quorum Q' → ∃ a, a ∈ Q ∧ a ∈ Q') {Q : Finset α} {b : β} {v : γ}
    (hQ : Quorum Q) (hchosen : ∀ a ∈ Q, Accepted a b v) :
    ∀ (n : Nat) (a : α) (b' : β) (v' : γ), (Finset.Ico b b').card = n → b ≤ b' → Accepted a b' v' → v' = v := by
  intro n
  induction n using Nat.strong_induction_on with
  | _ n ih =>
    intro a b' v' hn hle hacc
    rcases eq_or_lt_of_le hle with rfl | hlt
    · obtain ⟨q, hq, -⟩ := hmeet Q Q hQ hQ
      exact h.unique a q b v' v hacc (hchosen q hq)
    obtain ⟨Q', report, hQ', hreports, hpicks⟩ := h.proposed a b' v' hacc
    -- the quorums share an acceptor, which reports `b` or something higher
    obtain ⟨q, hq, hq'⟩ := hmeet Q Q' hQ hQ'
    obtain ⟨m, w, hr, hbm⟩ := (hreports q hq').of_accepted hlt (hchosen q hq)
    rcases hpicks with hnone | ⟨p, hp, top, htop, hmax⟩
    · rw [hnone q hq'] at hr
      cases hr
    · have hreport := hreports p hp
      rw [htop] at hreport
      obtain ⟨hlt', hacc', -⟩ := hreport
      have hb : b ≤ top := hbm.trans (hmax q hq' m w hr)
      -- the highest report is a proposal between the two ballots
      have hfewer : (Finset.Ico b top).card < n := by
        rw [← hn]
        refine Finset.card_lt_card ⟨Finset.Ico_subset_Ico_right hlt'.le, fun hsub => ?_⟩
        exact absurd (Finset.mem_Ico.mp (hsub (Finset.mem_Ico.mpr ⟨hb, hlt'⟩))).2 (lt_irrefl top)
      exact ih _ hfewer p top v' rfl hb hacc'

theorem Balloting.chosen_unique [LocallyFiniteOrder β] (h : Balloting Quorum Accepted)
    (hmeet : ∀ Q Q', Quorum Q → Quorum Q' → ∃ a, a ∈ Q ∧ a ∈ Q') {Q Q' : Finset α} {b b' : β}
    {v v' : γ} (hQ : Quorum Q) (hQ' : Quorum Q') (hchosen : ∀ a ∈ Q, Accepted a b v)
    (hchosen' : ∀ a ∈ Q', Accepted a b' v') : v = v' := by
  obtain ⟨q, hq, hq'⟩ := hmeet Q Q' hQ hQ'
  rcases le_total b b' with hle | hle
  · exact (h.agreement hmeet hQ hchosen _ q b' v' rfl hle (hchosen' q hq')).symm
  · exact h.agreement hmeet hQ' hchosen' _ q b v rfl hle (hchosen q hq)

end BuildYourOwn.Lib
