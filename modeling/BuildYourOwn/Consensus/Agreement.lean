import Mathlib.Data.Int.Interval
import BuildYourOwn.Consensus.Acceptors
import BuildYourOwn.Lib.Majority

/-!
# Agreement of single-decree Paxos

Runs of the `Paxos` machine in which the lines are those of honest proposers (`Honest`): an `accept`
of a number carries the value that the machine's own proposer computed at some earlier moment, from
a majority of promises each of which records what an acceptor answered to `prepare` at that number.
Nothing is said about when an `accept` is delivered, how often or whether at all.

What such a run leaves behind is a `Balloting` (`balloting`): what the promises report is what the
acceptors remember (`recorded`), and `proposer_value` picks the value of the highest report.

**`paxos_agreement`**: no two majorities accept different proposals with different values, and all
`learn` answers that report a chosen value report the same one.
-/

namespace BuildYourOwn.Consensus.Paxos

open Lib Topic

/-! ## What `proposer_value` picks -/

/-- A stored promise as a report: the proposal it names, if it names one. -/
def proposal : Option Int × Option String → Option (Int × String)
  | (some n, some v) => some (n, v)
  | _ => none

/-- `best` is the highest-numbered proposal among the promises seen, if there is any. -/
def Best (seen : List (Option Int × Option String)) : Option (Int × String) → Prop
  | none => ∀ x ∈ seen, proposal x = none
  | some (m, v) => (∃ x ∈ seen, proposal x = some (m, v)) ∧
      ∀ x ∈ seen, ∀ m' v', proposal x = some (m', v') → m' ≤ m

theorem better_of_none {x : Option Int × Option String} (h : proposal x = none)
    (best : Option (Int × String)) : better best x = best := by
  obtain ⟨n, v⟩ := x
  cases n with
  | none => rfl
  | some n =>
    cases v with
    | none => rfl
    | some v => simp [proposal] at h

theorem better_of_some {x : Option Int × Option String} {n : Int} {v : String}
    (h : proposal x = some (n, v)) : better none x = some (n, v) ∧ ∀ m w,
      better (some (m, w)) x = if m < n then some (n, v) else some (m, w) := by
  obtain ⟨n', v'⟩ := x
  cases n' with
  | none => simp [proposal] at h
  | some n' =>
    cases v' with
    | none => simp [proposal] at h
    | some v' =>
      cases h
      exact ⟨rfl, fun m w => rfl⟩

/-- One round of the loop of `proposer_value`. -/
theorem Best.better {seen : List (Option Int × Option String)} {best : Option (Int × String)}
    (h : Best seen best) (x : Option Int × Option String) : Best (seen ++ [x]) (better best x) := by
  cases hx : proposal x with
  | none =>
    rw [better_of_none hx]
    cases best with
    | none =>
      intro y hy
      rcases List.mem_append.mp hy with hy | hy
      · exact h y hy
      · rwa [List.mem_singleton.mp hy]
    | some b =>
      obtain ⟨⟨y, hy, hprop⟩, hmax⟩ := h
      refine ⟨⟨y, List.mem_append_left _ hy, hprop⟩, fun z hz m' v' hz' => ?_⟩
      rcases List.mem_append.mp hz with hz | hz
      · exact hmax z hz m' v' hz'
      · rw [List.mem_singleton.mp hz, hx] at hz'
        cases hz'
  | some q =>
    obtain ⟨n, v⟩ := q
    obtain ⟨hfirst, hnext⟩ := better_of_some hx
    have hself : x ∈ seen ++ [x] := List.mem_concat_self
    cases best with
    | none =>
      rw [hfirst]
      refine ⟨⟨x, hself, hx⟩, fun z hz m' v' hz' => ?_⟩
      rcases List.mem_append.mp hz with hz | hz
      · rw [h z hz] at hz'
        cases hz'
      · rw [List.mem_singleton.mp hz, hx] at hz'
        cases hz'
        exact Int.le_refl _
    | some b =>
      obtain ⟨m, w⟩ := b
      obtain ⟨⟨y, hy, hprop⟩, hmax⟩ := h
      rw [hnext]
      by_cases hlt : m < n
      · rw [if_pos hlt]
        refine ⟨⟨x, hself, hx⟩, fun z hz m' v' hz' => ?_⟩
        rcases List.mem_append.mp hz with hz | hz
        · exact Int.le_trans (hmax z hz m' v' hz') (Int.le_of_lt hlt)
        · rw [List.mem_singleton.mp hz, hx] at hz'
          cases hz'
          exact Int.le_refl _
      · rw [if_neg hlt]
        refine ⟨⟨y, List.mem_append_left _ hy, hprop⟩, fun z hz m' v' hz' => ?_⟩
        rcases List.mem_append.mp hz with hz | hz
        · exact hmax z hz m' v' hz'
        · rw [List.mem_singleton.mp hz, hx] at hz'
          cases hz'
          exact Int.not_lt.mp hlt

/-- **`proposer_value` is the value of the highest-numbered report**, and the proposer's own value
when nothing was reported. -/
theorem proposerValue_spec (p : Proposer) : (∀ x ∈ StringMap.vals p.promises, proposal x = none) ∨
    ∃ x ∈ StringMap.vals p.promises, ∃ m, proposal x = some (m, proposerValue p) ∧
      ∀ y ∈ StringMap.vals p.promises, ∀ m' v', proposal y = some (m', v') → m' ≤ m := by
  have hloop : ∀ (l seen : List (Option Int × Option String)) (best : Option (Int × String)),
      Best seen best → Best (seen ++ l) (l.foldl Paxos.better best) := by
    intro l
    induction l with
    | nil =>
      intro seen best h
      rwa [List.append_nil]
    | cons x l ih =>
      intro seen best h
      have hnext := ih (seen ++ [x]) _ (h.better x)
      rwa [List.append_assoc] at hnext
  have hbest := hloop (StringMap.vals p.promises) [] none (List.forall_mem_nil _)
  rw [List.nil_append] at hbest
  unfold proposerValue
  cases hfold : (StringMap.vals p.promises).foldl Paxos.better none with
  | none =>
    rw [hfold] at hbest
    exact .inl hbest
  | some b =>
    rw [hfold] at hbest
    obtain ⟨⟨x, hx, hprop⟩, hmax⟩ := hbest
    exact .inr ⟨x, hx, b.1, hprop, hmax⟩

/-! ## Honest proposers -/

/-- The name of acceptor `k`: `a1` for the first. -/
def acceptorName (k : Nat) : String := "a" ++ toString (k + 1)

variable [Host]

/-- The proposal `n` with value `v` was ready at some moment of the history: a majority of promises,
each of which stores under an acceptor's name what that acceptor answered to `prepare` at `n`, and
`v` is what `proposer_value` makes of them. -/
def Backed (es : History) (n : Int) (v : String) : Prop :=
  ∃ d ∈ es, ∃ p, d.after.proposer = some p ∧ p.n = n ∧ d.after.majority ≤ p.promises.size ∧
    proposerValue p = v ∧ ∀ (name : String) stored, p.promises[name]? = some stored →
      ∃ k r, name = acceptorName k ∧ (∃ e ∈ es, Promises e k n r) ∧
        stored = reported ((r.map Prod.fst).getD (-1)) ((r.map Prod.snd).getD "-")

/-- The lines of a run of honest proposers: every `accept` belongs to a proposal that was ready
before it, at a number above 0 and with a value that is not the sentinel, and there is one value to
a number. -/
structure Honest (es : History) : Prop where
  lines : ∀ e ∈ es, e.input.command ≠ "init"
  backed : ∀ es₁ e es₂, es = es₁ ++ e :: es₂ → e.input.command = "accept" → ∀ n v,
    int e.input.args 1 = .ok n → word e.input.args 2 = .ok v → 0 < n ∧ v ≠ "-" ∧ Backed es₁ n v
  single : ∀ e₁ ∈ es, ∀ e₂ ∈ es, e₁.input.command = "accept" → e₂.input.command = "accept" →
    ∀ n v₁ v₂, int e₁.input.args 1 = .ok n → int e₂.input.args 1 = .ok n →
      word e₁.input.args 2 = .ok v₁ → word e₂.input.args 2 = .ok v₂ → v₁ = v₂

/-- A majority of the `N` acceptors. -/
def Quorum (N : Nat) (Q : Finset Nat) : Prop := Q ⊆ Finset.range N ∧ N / 2 + 1 ≤ Q.card

omit [Host] in
theorem quorums_meet {N : Nat} (Q Q' : Finset Nat) (h : Quorum N Q) (h' : Quorum N Q') : ∃ k, k ∈ Q ∧ k ∈ Q' := by
  refine majorities_meet h.1 h'.1 ?_ ?_
  · rw [Finset.card_range]
    exact h.2
  · rw [Finset.card_range]
    exact h'.2

variable {es : History} {N : Nat} {s : Paxos}

theorem Honest.accepted (h : Honest es) {k : Nat} {n : Int} {w : String} (hacc : Acc es k n w) : 0 < n ∧ w ≠ "-" := by
  obtain ⟨e, he, ha⟩ := hacc
  obtain ⟨es₁, es₂, hes⟩ := List.append_of_mem he
  obtain ⟨hn, hw, -⟩ := h.backed es₁ e es₂ hes ha.command n w ha.number ha.value
  exact ⟨hn, hw⟩

omit [Host] in
theorem proposal_reported {r : Option (Int × String)} (h : ∀ m w, r = some (m, w) → 0 < m ∧ w ≠ "-") :
    proposal (reported ((r.map Prod.fst).getD (-1)) ((r.map Prod.snd).getD "-")) = r := by
  cases r with
  | none => rfl
  | some q =>
    obtain ⟨m, w⟩ := q
    obtain ⟨hm, hw⟩ := h m w rfl
    have hbad : ¬ (m < 0 ∨ w = "-") := by
      rintro (hlt | heq)
      · omega
      · exact hw heq
    simp only [Option.map_some, Option.getD_some, reported, if_neg hbad, proposal]

/-- The promises of a proposal, as `Backed` has them. -/
def Collected (es : History) (p : Proposer) : Prop :=
  ∀ (name : String) stored, p.promises[name]? = some stored →
    ∃ k r, name = acceptorName k ∧ (∃ e ∈ es, Promises e k p.n r) ∧
      stored = reported ((r.map Prod.fst).getD (-1)) ((r.map Prod.snd).getD "-")

/-- Acceptor `k` promised the proposal, and its report is among the promises. -/
def Answered (es : History) (p : Proposer) (k : Nat) : Prop :=
  ∃ r, p.promises[acceptorName k]? =
      some (reported ((r.map Prod.fst).getD (-1)) ((r.map Prod.snd).getD "-")) ∧
    ∃ e ∈ es, Promises e k p.n r

open Classical in
noncomputable def answering (N : Nat) (es : History) (p : Proposer) : Finset Nat :=
  (Finset.range N).filter (Answered es p)

variable {p : Proposer}

theorem mem_answering {k : Nat} : k ∈ answering N es p ↔ k < N ∧ Answered es p k := by
  classical
  unfold answering
  rw [Finset.mem_filter, Finset.mem_range]

/-- The report among the promises of acceptor `k`. -/
def reportOf (p : Proposer) (k : Nat) : Option (Int × String) :=
  (p.promises[acceptorName k]?).bind proposal

theorem exists_answering (hrec : Recorded N es s) (hp : Collected es p)
    {name : String} {stored : Option Int × Option String} (h : p.promises[name]? = some stored) :
    ∃ k ∈ answering N es p, name = acceptorName k := by
  obtain ⟨k, r, rfl, ⟨e, he, hpromise⟩, rfl⟩ := hp name stored h
  obtain ⟨⟨a, ha, -⟩, -⟩ := hrec.promised e he k p.n r hpromise
  have hlt := (List.getElem?_eq_some_iff.mp ha).1
  rw [hrec.count] at hlt
  exact ⟨k, mem_answering.mpr ⟨hlt, r, h, e, he, hpromise⟩, rfl⟩

theorem quorum_answering (hrec : Recorded N es s) (hp : Collected es p)
    (hready : N / 2 + 1 ≤ p.promises.size) : Quorum N (answering N es p) := by
  refine ⟨fun k hk => Finset.mem_range.mpr (mem_answering.mp hk).1, ?_⟩
  have hsub : p.promises.keys.toFinset ⊆ (answering N es p).image acceptorName := by
    intro name hname
    obtain ⟨stored, hstored⟩ := StringMap.mem_keys.mp (List.mem_toFinset.mp hname)
    obtain ⟨k, hk, rfl⟩ := exists_answering hrec hp hstored
    exact Finset.mem_image_of_mem _ hk
  calc N / 2 + 1 ≤ p.promises.size := hready
    _ = p.promises.keys.toFinset.card := by
      rw [List.toFinset_card_of_nodup Std.ExtTreeMap.nodup_keys, Std.ExtTreeMap.length_keys]
    _ ≤ ((answering N es p).image acceptorName).card := Finset.card_le_card hsub
    _ ≤ (answering N es p).card := Finset.card_image_le

theorem reports_answering (hrec : Recorded N es s) (h : Honest es) {k : Nat}
    (hk : k ∈ answering N es p) : Reports (Acc es) k p.n (reportOf p k) := by
  obtain ⟨-, r, hr, e, he, hpromise⟩ := mem_answering.mp hk
  have hreports := (hrec.promised e he k p.n r hpromise).2
  have hread : reportOf p k = r := by
    rw [reportOf, hr, Option.bind_some]
    refine proposal_reported fun m w hmw => ?_
    rw [hmw] at hreports
    exact h.accepted hreports.2.1
  rwa [hread]

theorem picks_answering (hrec : Recorded N es s) (hp : Collected es p) :
    Picks (answering N es p) (reportOf p) (proposerValue p) := by
  have hreport : ∀ k q, reportOf p k = some q →
      ∃ x ∈ StringMap.vals p.promises, proposal x = some q := by
    intro k q hk
    obtain ⟨x, hx, hq⟩ := Option.bind_eq_some_iff.mp hk
    exact ⟨x, StringMap.mem_vals.mpr ⟨_, hx⟩, hq⟩
  rcases proposerValue_spec p with hnone | ⟨x, hx, m, hprop, hmax⟩
  · refine .inl fun k _ => ?_
    cases hk : reportOf p k with
    | none => rfl
    | some q =>
      obtain ⟨x, hx, hq⟩ := hreport k q hk
      rw [hnone x hx] at hq
      cases hq
  · obtain ⟨name, hname⟩ := StringMap.mem_vals.mp hx
    obtain ⟨k, hk, rfl⟩ := exists_answering hrec hp hname
    refine .inr ⟨k, hk, m, by rw [reportOf, hname, Option.bind_some, hprop], ?_⟩
    intro k' _ m' w' hk'
    obtain ⟨y, hy, hq⟩ := hreport k' _ hk'
    exact hmax y hy m' w' hq

/-- **The history of an honest run is a `Balloting`.** -/
theorem balloting (hrun : Run (onLine step) (init N) es s) (h : Honest es) : Balloting (Quorum N) (Acc es) where
  unique k k' n v v' hacc hacc' := by
    obtain ⟨e, he, ha⟩ := hacc
    obtain ⟨e', he', ha'⟩ := hacc'
    exact h.single e he e' he' ha.command ha'.command n v v' ha.number ha'.number ha.value ha'.value
  proposed k n v hacc := by
    obtain ⟨e, he, ha⟩ := hacc
    obtain ⟨es₁, es₂, hes⟩ := List.append_of_mem he
    have hsub : ∀ {d}, d ∈ es₁ → d ∈ es := fun hd => hes ▸ List.mem_append_left _ hd
    obtain ⟨-, -, d, hd, p, -, rfl, hready, rfl, hstored⟩ :=
      h.backed es₁ e es₂ hes ha.command n v ha.number ha.value
    have hrec := recorded hrun h.lines
    have hcollected : Collected es p := fun name stored hs => by
      obtain ⟨k, r, hname, ⟨e', he', hpromise⟩, hr⟩ := hstored name stored hs
      exact ⟨k, r, hname, ⟨e', hsub he', hpromise⟩, hr⟩
    -- the promises were as many as a majority of the `N` acceptors
    have hcount : d.after.acceptors.length = N := by
      obtain ⟨ds₁, ds₂, hds⟩ := List.append_of_mem (hsub hd)
      refine (recorded (hrun.split_after hds) fun d' hd' => ?_).count
      refine h.lines d' (hds ▸ ?_)
      rcases List.mem_append.mp hd' with hd' | hd'
      · exact List.mem_append_left _ hd'
      · obtain rfl := List.mem_singleton.mp hd'
        exact List.mem_append_right _ List.mem_cons_self
    unfold majority at hready
    rw [hcount] at hready
    exact ⟨answering N es p, reportOf p, quorum_answering hrec hcollected hready,
      fun k hk => reports_answering hrec h hk, picks_answering hrec hcollected⟩

/-! ## What `learn` reports -/

omit [Host] in
/-- A value that `learn` reports is one that a majority's last accepted proposal carries. -/
theorem learn_spec {v : String} (hchosen : s.learn.flagAt "chosen" = some true) (hv : s.learn.textAt "value" = some v) :
    ∃ n, s.majority ≤ (s.holders n).length ∧ ∃ a ∈ s.holders n, a.lastValue = some v := by
  have hloop : ∀ (l : List Int) (best : Option String) (w : String),
      (best = some w → ∃ n, s.majority ≤ (s.holders n).length ∧
        ∃ a ∈ s.holders n, a.lastValue = some w) →
      l.foldl s.choose best = some w → ∃ n, s.majority ≤ (s.holders n).length ∧
        ∃ a ∈ s.holders n, a.lastValue = some w := by
    intro l
    induction l with
    | nil => exact fun best w h hw => h hw
    | cons n l ih =>
      intro best w h hw
      refine ih (s.choose best n) w (fun hnext => ?_) hw
      unfold choose at hnext
      by_cases hmaj : s.majority ≤ (s.holders n).length
      · rw [if_pos hmaj] at hnext
        cases hhead : (s.holders n).head?.bind Acceptor.lastValue with
        | none =>
          rw [hhead] at hnext
          exact h hnext
        | some u =>
          rw [hhead] at hnext
          cases hnext
          obtain ⟨a, ha, hu⟩ := Option.bind_eq_some_iff.mp hhead
          exact ⟨n, hmaj, a, List.mem_of_head? ha, hu⟩
      · rw [if_neg hmaj] at hnext
        exact h hnext
  unfold learn at hchosen hv
  cases hfold : s.numbers.foldl s.choose none with
  | none =>
    rw [hfold] at hchosen
    cases Option.some.inj hchosen
  | some w =>
    rw [hfold] at hv
    obtain rfl : w = v := Option.some.inj hv
    exact hloop s.numbers none w (nofun) hfold

/-- A majority of the acceptors has accepted the proposal `n` with value `v`, each at some time of
the history. -/
def Chosen (N : Nat) (es : History) (n : Int) (v : String) : Prop :=
  ∃ Q : Finset Nat, Q ⊆ Finset.range N ∧ N / 2 + 1 ≤ Q.card ∧ ∀ k ∈ Q, Acc es k n v

/-- The event is a `learn` that reports `v` as chosen. -/
structure Learns (e : Event Paxos Line Value) (v : String) : Prop where
  command : e.input.command = "learn"
  chosen : e.output.flagAt "chosen" = some true
  value : e.output.textAt "value" = some v

/-- What `learn` reports has been chosen. -/
theorem chosen_of_learns (hrun : Run (onLine step) (init N) es s) (h : Honest es)
    {e : Event Paxos Line Value} (he : e ∈ es) {v : String} (hl : Learns e v) : ∃ n, Chosen N es n v := by
  obtain ⟨es₁, es₂, hes⟩ := List.append_of_mem he
  have hsub : ∀ {d}, d ∈ es₁ → d ∈ es := fun hd => hes ▸ List.mem_append_left _ hd
  have hrec := recorded (hrun.split hes) fun d hd => h.lines d (hsub hd)
  have hanswer : e.output = e.before.learn := by
    have hs := hrun.step_of_mem he
    unfold onLine at hs
    rw [hl.command] at hs
    exact (Prod.mk.inj (Option.some.inj hs)).2.symm
  have hchosen := hl.chosen
  have hvalue := hl.value
  rw [hanswer] at hchosen hvalue
  obtain ⟨n, hmaj, a, ha, hav⟩ := learn_spec hchosen hvalue
  -- an acceptor that holds proposal `n` has accepted it
  have hheld : ∀ (k : Nat) b, e.before.acceptors[k]? = some b → b.lastN = some n →
      ∃ w, b.lastValue = some w ∧ Acc es k n w := by
    intro k b hb hn
    rcases hrec.last k b hb with ⟨hnone, -, -⟩ | ⟨m, w, hm, hw, ⟨d, hd, hacc⟩, -⟩
    · rw [hnone] at hn
      cases hn
    · obtain rfl : m = n := Option.mem_unique hm hn
      exact ⟨w, hw, d, hsub hd, hacc⟩
  obtain ⟨hmem, hfirst⟩ := List.mem_filter.mp ha
  obtain ⟨j, hj⟩ := List.getElem?_of_mem hmem
  obtain ⟨w, hw, hacc⟩ := hheld j a hj (by simpa using hfirst)
  obtain rfl : w = v := Option.mem_unique hw hav
  obtain ⟨Q, hcard, hQ⟩ := exists_positions (fun a => a.lastN == some n) e.before.acceptors
  refine ⟨n, Q, fun k hk => ?_, ?_, fun k hk => ?_⟩
  · obtain ⟨b, hb, -⟩ := hQ k hk
    have hlt := (List.getElem?_eq_some_iff.mp hb).1
    rw [hrec.count] at hlt
    exact Finset.mem_range.mpr hlt
  · unfold majority at hmaj
    rw [hrec.count] at hmaj
    rw [hcard]
    exact hmaj
  · obtain ⟨b, hb, hn⟩ := hQ k hk
    obtain ⟨u, -, hu⟩ := hheld k b hb (by simpa using hn)
    obtain rfl := (balloting hrun h).unique k j n u w hu hacc
    exact hu

/-- **Agreement.** In every run of honest proposers over any number of acceptors: proposals that
majorities have accepted carry the same value, whatever their numbers, and so any two `learn` answers
that report a chosen value report the same one. -/
theorem paxos_agreement (hrun : Run (onLine step) (init N) es s) (h : Honest es) :
    (∀ n₁ v₁ n₂ v₂, Chosen N es n₁ v₁ → Chosen N es n₂ v₂ → v₁ = v₂) ∧
    ∀ e₁ ∈ es, ∀ e₂ ∈ es, ∀ v₁ v₂, Learns e₁ v₁ → Learns e₂ v₂ → v₁ = v₂ := by
  have hunique : ∀ n₁ v₁ n₂ v₂, Chosen N es n₁ v₁ → Chosen N es n₂ v₂ → v₁ = v₂ := by
    rintro n₁ v₁ n₂ v₂ ⟨Q₁, hsub₁, hmaj₁, hacc₁⟩ ⟨Q₂, hsub₂, hmaj₂, hacc₂⟩
    exact (balloting hrun h).chosen_unique quorums_meet ⟨hsub₁, hmaj₁⟩ ⟨hsub₂, hmaj₂⟩ hacc₁ hacc₂
  refine ⟨hunique, fun e₁ he₁ e₂ he₂ v₁ v₂ hl₁ hl₂ => ?_⟩
  obtain ⟨n₁, hc₁⟩ := chosen_of_learns hrun h he₁ hl₁
  obtain ⟨n₂, hc₂⟩ := chosen_of_learns hrun h he₂ hl₂
  exact hunique n₁ v₁ n₂ v₂ hc₁ hc₂

/-! Three acceptors, one proposal that two of them promise and accept. -/

@[reducible] def three : Host := hostOf []

def oneProposal : List Line :=
  [⟨"propose", ["1", "x"]⟩, ⟨"prepare", ["a1", "1"]⟩, ⟨"prepare", ["a2", "1"]⟩,
    ⟨"promise", ["a1", "-1", "-"]⟩, ⟨"promise", ["a2", "-1", "-"]⟩, ⟨"accept", ["a1", "1", "x"]⟩,
    ⟨"accept", ["a2", "1", "x"]⟩, ⟨"learn", []⟩]

def twoPromises : StringMap (Option Int × Option String) :=
  ((∅ : StringMap _).insert "a1" (none, none)).insert "a2" (none, none)

omit [Host] in
theorem paxos_agreement_three : ∃ es s, Run (onLine (@step three)) (init 3) es s ∧
    es.map Event.input = oneProposal ∧ ∃ e ∈ es, Learns e "x" ∧
      ∀ n v, @Chosen three 3 es n v → v = "x" := by
  let _ : Host := three
  obtain ⟨es, s, e₁, e₂, d, l, p, hrun, hinputs, he₁, he₂, hd, hl, hp₁, hp₂, hdp, hn, hready,
      hvalue, hpromises, hlearns⟩ :
      ∃ es s e₁ e₂ d l p, Run (onLine step) (init 3) es s ∧ es.map Event.input = oneProposal ∧
        es[1]? = some e₁ ∧ es[2]? = some e₂ ∧ es[4]? = some d ∧ es[7]? = some l ∧
        Promises e₁ 0 1 none ∧ Promises e₂ 1 1 none ∧ d.after.proposer = some p ∧ p.n = 1 ∧
        d.after.majority ≤ p.promises.size ∧ proposerValue p = "x" ∧ p.promises = twoPromises ∧
        Learns l "x" :=
    ⟨_, _, _, _, _, _, _, run_of_exec oneProposal rfl, rfl, rfl, rfl, rfl, rfl,
      ⟨rfl, rfl, rfl, rfl, rfl, rfl⟩, ⟨rfl, rfl, rfl, rfl, rfl, rfl⟩, rfl, rfl, by decide, rfl, rfl,
      ⟨rfl, rfl, rfl⟩⟩
  have hmem : ∀ {e}, e ∈ es → e.input ∈ oneProposal := fun he => hinputs ▸ List.mem_map_of_mem he
  have hargs : ∀ e ∈ es, e.input.command = "accept" → ∀ n v, int e.input.args 1 = .ok n →
      word e.input.args 2 = .ok v → n = 1 ∧ v = "x" := by
    intro e he hcommand n v hn hv
    have hall : ∀ l ∈ oneProposal, l.command = "accept" →
        l.args[1]? = some "1" ∧ l.args[2]? = some "x" := by decide
    obtain ⟨h₁, h₂⟩ := hall _ (hmem he) hcommand
    have hint : int e.input.args 1 = .ok 1 := by
      unfold int
      rw [h₁]
      rfl
    exact ⟨Except.ok.inj (hn.symm.trans hint), Option.some.inj ((word_eq_ok.mp hv).symm.trans h₂)⟩
  have hhonest : Honest es := by
    refine ⟨fun e he => ?_, fun es₁ e es₂ hes hcommand n v hn' hv => ?_,
      fun e₁ he₁ e₂ he₂ hc₁ hc₂ n v₁ v₂ hn₁ hn₂ hv₁ hv₂ => ?_⟩
    · have hall : ∀ l ∈ oneProposal, l.command ≠ "init" := by decide
      exact hall _ (hmem he)
    · have he : e ∈ es := hes ▸ List.mem_append_right _ List.mem_cons_self
      obtain ⟨rfl, rfl⟩ := hargs e he hcommand n v hn' hv
      -- the proposal was ready before the first accept, the sixth line
      have hlate : 5 ≤ es₁.length := by
        by_contra hearly
        have hat : oneProposal[es₁.length]? = some e.input := by
          rw [← hinputs, hes, List.map_append, List.map_cons, List.getElem?_append_right (by simp)]
          simp
        have hall : ∀ l ∈ oneProposal.take 5, l.command ≠ "accept" := by decide
        rw [← List.getElem?_take_of_lt (show es₁.length < 5 by omega)] at hat
        exact hall _ (List.mem_of_getElem? hat) hcommand
      have hbefore : ∀ {i e'}, es[i]? = some e' → i < 5 → e' ∈ es₁ := by
        intro i e' he' hi
        rw [hes, List.getElem?_append_left (by omega)] at he'
        exact List.mem_of_getElem? he'
      refine ⟨by decide, by decide, d, hbefore hd (by omega), p, hdp, hn, hready, hvalue, ?_⟩
      intro name stored hstored
      rw [hpromises, twoPromises, StringMap.get_insert, StringMap.get_insert] at hstored
      split at hstored
      · rename_i hname
        cases hstored
        exact ⟨1, none, hname.symm, ⟨e₂, hbefore he₂ (by omega), hp₂⟩, rfl⟩
      split at hstored
      · rename_i hname
        cases hstored
        exact ⟨0, none, hname.symm, ⟨e₁, hbefore he₁ (by omega), hp₁⟩, rfl⟩
      · cases hstored
    · rw [(hargs e₁ he₁ hc₁ n v₁ hn₁ hv₁).2, (hargs e₂ he₂ hc₂ n v₂ hn₂ hv₂).2]
  have hmemLearn := List.mem_of_getElem? hl
  obtain ⟨m, hchosen⟩ := chosen_of_learns hrun hhonest hmemLearn hlearns
  exact ⟨es, s, hrun, hinputs, l, hmemLearn, hlearns,
    fun n v hc => (paxos_agreement hrun hhonest).1 n v m "x" hc hchosen⟩

end BuildYourOwn.Consensus.Paxos
