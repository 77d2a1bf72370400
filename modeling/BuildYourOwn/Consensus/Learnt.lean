import BuildYourOwn.Consensus.Agreement

/-!
# What `learn` says after a value was chosen

Runs of honest proposers, and a `learn` that has reported a value. An acceptor remembers its last proposal
only, so while a later proposal replaces that number at one acceptor after another, no number may be held by
a majority, and `learn` reports nothing chosen (`learnt_is_forgotten`).

**`stays_learnt`**: but no other value is ever reported, a majority of the acceptors holds the value at any
time, and `learn` reports it whenever a majority holds one number.
-/

namespace BuildYourOwn.Consensus.Paxos

open Lib Topic

variable {s : Paxos}

/-- Every acceptor that has accepted a number holds its value. -/
def Valued (s : Paxos) : Prop := ∀ a ∈ s.acceptors, a.lastN ≠ none → ∃ v, a.lastValue = some v

/-- A number that a majority holds makes `learn` report something. -/
theorem learn_of_holders (hvalued : s.Valued) {n : Int} (hmaj : s.majority ≤ (s.holders n).length) :
    ∃ v, s.learn.flagAt "chosen" = some true ∧ s.learn.textAt "value" = some v := by
  have hpos : 0 < (s.holders n).length := by
    unfold majority at hmaj
    omega
  obtain ⟨a, ha⟩ := List.exists_mem_of_length_pos hpos
  obtain ⟨hmem, hlast⟩ := List.mem_filter.mp ha
  have hnumber : n ∈ s.numbers := by
    unfold numbers
    rw [List.mem_dedup, List.mem_insertionSort, List.mem_filterMap]
    exact ⟨a, hmem, by simpa using hlast⟩
  -- the loop keeps what it has chosen, and chooses at `n`
  have hkeep : ∀ (l : List Int) (best : Option String), (best ≠ none ∨ n ∈ l) → l.foldl s.choose best ≠ none := by
    intro l
    induction l with
    | nil =>
      intro best h
      exact h.resolve_right List.not_mem_nil
    | cons m l ih =>
      intro best h
      refine ih (s.choose best m) ?_
      rcases h with h | h
      · refine .inl ?_
        unfold choose
        split
        · split
          · simp
          · exact h
        · exact h
      rcases List.mem_cons.mp h with rfl | h
      · refine .inl ?_
        obtain ⟨b, hb⟩ : ∃ b, (s.holders n).head? = some b :=
          ⟨_, List.head?_eq_some_head (List.ne_nil_of_length_pos hpos)⟩
        obtain ⟨hbmem, hblast⟩ := List.mem_filter.mp (List.mem_of_mem_head? hb)
        obtain ⟨v, hv⟩ := hvalued b hbmem (by rw [eq_of_beq hblast]; simp)
        unfold choose
        rw [if_pos hmaj, hb, Option.bind_some, hv]
        simp
      · exact .inr h
  have hchosen := hkeep s.numbers none (.inr hnumber)
  unfold learn
  cases hfold : s.numbers.foldl s.choose none with
  | none => exact absurd hfold hchosen
  | some v => exact ⟨v, rfl, rfl⟩

theorem learn_cases (s : Paxos) : (∃ v, s.learn.flagAt "chosen" = some true ∧ s.learn.textAt "value" = some v) ∨
    s.learn.flagAt "chosen" = some false := by
  unfold learn
  cases s.numbers.foldl s.choose none with
  | none => exact .inr rfl
  | some v => exact .inl ⟨v, rfl, rfl⟩

section

variable [Host] {es es₁ es₂ : History} {N : Nat} {e e' : Event Paxos Line Value} {v : String}

theorem Recorded.valued (h : Recorded N es s) : s.Valued := by
  intro a ha hn
  obtain ⟨k, hk⟩ := List.getElem?_of_mem ha
  rcases h.last k a hk with ⟨hnone, -, -⟩ | ⟨m, w, -, hw, -, -⟩
  · exact absurd hnone hn
  · exact ⟨w, hw⟩

/-- The answer to a `learn`. -/
theorem learn_output (hrun : Run (onLine step) (init N) es s) (he : e ∈ es) (hl : e.input.command = "learn") :
    e.output = e.before.learn := by
  have hs := hrun.step_of_mem he
  unfold onLine at hs
  rw [hl] at hs
  exact (Prod.mk.inj (Option.some.inj hs)).2.symm

theorem Honest.initial (h : Honest (es₁ ++ es₂)) : Honest es₁ where
  lines e he := h.lines e (List.mem_append_left _ he)
  backed as e bs has := h.backed as e (bs ++ es₂) (by rw [has, List.append_assoc, List.cons_append])
  single a ha b hb := h.single a (List.mem_append_left _ ha) b (List.mem_append_left _ hb)

def holdersOf (s : Paxos) (v : String) : List Acceptor := s.acceptors.filter fun a => a.lastValue == some v

/-- **A chosen value stays**: whatever is proposed afterwards, a majority holds it as the last value it has
accepted. -/
theorem majority_holds (hrun : Run (onLine step) (init N) es s) (h : Honest es) (he : e ∈ es)
    (hl : Learns e v) : s.majority ≤ (s.holdersOf v).length := by
  obtain ⟨n, Q, hsub, hcard, hacc⟩ := chosen_of_learns hrun h he hl
  have hrec := recorded hrun h.lines
  have hmaj : s.majority ≤ Q.card := by
    unfold majority
    rwa [hrec.count]
  refine hmaj.trans (card_positions_le _ _ fun k hk => ?_)
  have hlt : k < s.acceptors.length := by
    rw [hrec.count]
    exact Finset.mem_range.mp (hsub hk)
  refine ⟨_, List.getElem?_eq_getElem hlt, ?_⟩
  rcases hrec.last k _ (List.getElem?_eq_getElem hlt) with ⟨-, -, hno⟩ | ⟨m, w, -, hw, hlast, hmax⟩
  · exact absurd (hacc k hk) (hno n v)
  · -- its last number is `n` or a higher one, and so its value is the chosen one
    have hle : n ≤ m := hmax n v (hacc k hk)
    obtain rfl := (balloting hrun h).agreement quorums_meet ⟨hsub, hcard⟩ hacc _ k m w rfl hle hlast
    rw [hw, beq_self_eq_true]

/-- **What `learn` says after it has reported `v`**: `v`, whenever the last accepted number of a majority is one
and the same, or that nothing is chosen; and all the while a majority holds `v`. -/
theorem stays_learnt (hrun : Run (onLine step) (init N) es s) (h : Honest es) (hes : es = es₁ ++ e :: es₂)
    (hl : Learns e v) (he' : e' ∈ es₂) (hlearn : e'.input.command = "learn") :
    (Learns e' v ∨ e'.output.flagAt "chosen" = some false) ∧
      ((∃ n, e'.before.majority ≤ (e'.before.holders n).length) → Learns e' v) ∧
      e'.before.majority ≤ (e'.before.holdersOf v).length := by
  have he : e ∈ es := hes ▸ List.mem_append_right _ List.mem_cons_self
  have hmem : e' ∈ es := hes ▸ List.mem_append_right _ (List.mem_cons_of_mem _ he')
  obtain ⟨as, bs, hsplit⟩ := List.append_of_mem he'
  have hsplit' : es = (es₁ ++ e :: as) ++ e' :: bs := by
    rw [hes, hsplit, List.append_assoc, List.cons_append]
  have hprefix : Honest (es₁ ++ e :: as) := (hsplit' ▸ h).initial
  have hrun' := hrun.split hsplit'
  have hanswer := learn_output hrun hmem hlearn
  have hsame {w : String} (hflag : e'.before.learn.flagAt "chosen" = some true)
      (hvalue : e'.before.learn.textAt "value" = some w) : Learns e' v := by
    have hlearns : Learns e' w := ⟨hlearn, by rw [hanswer]; exact hflag, by rw [hanswer]; exact hvalue⟩
    rwa [(paxos_agreement hrun h).2 e he e' hmem v w hl hlearns]
  refine ⟨?_, fun ⟨n, hn⟩ => ?_, majority_holds hrun' hprefix
    (List.mem_append_right _ List.mem_cons_self) hl⟩
  · rcases learn_cases e'.before with ⟨w, hflag, hvalue⟩ | hnone
    · exact .inl (hsame hflag hvalue)
    · exact .inr (by rw [hanswer]; exact hnone)
  · obtain ⟨w, hflag, hvalue⟩ := learn_of_holders (recorded hrun' hprefix.lines).valued hn
    exact hsame hflag hvalue

/-! Two of three acceptors choose `red`; the next proposal, for the same value, has reached one of them. -/

theorem honest_of_places (hlines : ∀ e ∈ es, e.input.command ≠ "init")
    (hback : ∀ i e, es[i]? = some e → e.input.command = "accept" → ∀ n v, int e.input.args 1 = .ok n →
      word e.input.args 2 = .ok v → 0 < n ∧ v = "red" ∧ Backed (es.take i) n v) : Honest es where
  lines := hlines
  backed es₁ e es₂ hes hl n v hn hv := by
    have hplace : es[es₁.length]? = some e := by
      rw [hes, List.getElem?_append_right (Nat.le_refl _), Nat.sub_self, List.getElem?_cons_zero]
    obtain ⟨hpos, rfl, hbacked⟩ := hback _ e hplace hl n v hn hv
    rw [hes, List.take_left] at hbacked
    exact ⟨hpos, by decide, hbacked⟩
  single e he e' he' hl hl' n v v' hn hn' hv hv' := by
    obtain ⟨i, hi⟩ := List.getElem?_of_mem he
    obtain ⟨j, hj⟩ := List.getElem?_of_mem he'
    rw [(hback i e hi hl n v hn hv).2.1, (hback j e' hj hl' n v' hn' hv').2.1]

end

def reproposal : List Line :=
  [⟨"propose", ["1", "red"]⟩, ⟨"prepare", ["a1", "1"]⟩, ⟨"prepare", ["a2", "1"]⟩,
    ⟨"promise", ["a1", "-1", "-"]⟩, ⟨"promise", ["a2", "-1", "-"]⟩, ⟨"accept", ["a1", "1", "red"]⟩,
    ⟨"accept", ["a2", "1", "red"]⟩, ⟨"learn", []⟩, ⟨"propose", ["2", "blue"]⟩, ⟨"prepare", ["a1", "2"]⟩,
    ⟨"prepare", ["a3", "2"]⟩, ⟨"promise", ["a1", "1", "red"]⟩, ⟨"promise", ["a3", "-1", "-"]⟩,
    ⟨"accept", ["a1", "2", "red"]⟩, ⟨"learn", []⟩]

/-- What `a3` and `a1` reported to the second proposer. -/
def redPromises : StringMap (Option Int × Option String) :=
  ((∅ : StringMap _).insert "a1" (some 1, some "red")).insert "a3" (none, none)

/-- It is an honest run; `learn` reports `red` in its eighth line and nothing in its last. -/
theorem reproposal_run : ∃ es s e e', Run (onLine (@step three)) (init 3) es s ∧
    es.map Event.input = reproposal ∧ @Honest three es ∧ es[7]? = some e ∧ Learns e "red" ∧
    es[14]? = some e' ∧ e'.input.command = "learn" ∧ e'.output.flagAt "chosen" = some false := by
  let _ : Host := three
  obtain ⟨es, s, e₁, e₂, e₉, e₁₀, d, d', l, l', p, p', hrun, hinputs, h₁, h₂, h₉, h₁₀, hd, hd', hl, hl', hp₁,
      hp₂, hp₉, hp₁₀, hdp, hdp', hn, hready, hvalue, hpromises, hn', hready', hvalue', hpromises', hlearns,
      hcommand, hforgotten⟩ :
      ∃ es s e₁ e₂ e₉ e₁₀ d d' l l' p p', Run (onLine step) (init 3) es s ∧
        es.map Event.input = reproposal ∧ es[1]? = some e₁ ∧ es[2]? = some e₂ ∧ es[9]? = some e₉ ∧
        es[10]? = some e₁₀ ∧ es[4]? = some d ∧ es[12]? = some d' ∧ es[7]? = some l ∧ es[14]? = some l' ∧
        Promises e₁ 0 1 none ∧ Promises e₂ 1 1 none ∧ Promises e₉ 0 2 (some (1, "red")) ∧
        Promises e₁₀ 2 2 none ∧ d.after.proposer = some p ∧ d'.after.proposer = some p' ∧ p.n = 1 ∧
        d.after.majority ≤ p.promises.size ∧ proposerValue p = "red" ∧ p.promises = twoPromises ∧ p'.n = 2 ∧
        d'.after.majority ≤ p'.promises.size ∧ proposerValue p' = "red" ∧ p'.promises = redPromises ∧
        Learns l "red" ∧ l'.input.command = "learn" ∧ l'.output.flagAt "chosen" = some false :=
    ⟨_, _, _, _, _, _, _, _, _, _, _, _, run_of_exec reproposal rfl, rfl, rfl, rfl, rfl, rfl, rfl, rfl, rfl,
      rfl, ⟨rfl, rfl, rfl, rfl, rfl, rfl⟩, ⟨rfl, rfl, rfl, rfl, rfl, rfl⟩, ⟨rfl, rfl, rfl, rfl, rfl, rfl⟩,
      ⟨rfl, rfl, rfl, rfl, rfl, rfl⟩, rfl, rfl, rfl, by decide, rfl, rfl, rfl, by decide, rfl, rfl,
      ⟨rfl, rfl, rfl⟩, rfl, rfl⟩
  have hearlier {i j : Nat} {x : Event Paxos Line Value} (hx : es[i]? = some x) (hij : i < j) :
      x ∈ es.take j := List.mem_of_getElem? (by rwa [List.getElem?_take_of_lt hij])
  refine ⟨es, s, l, l', hrun, hinputs, honest_of_places (fun e he => ?_) (fun i e hi hcommand n v hn hv => ?_),
    hl, hlearns, hl', hcommand, hforgotten⟩
  · have hall : ∀ l ∈ reproposal, l.command ≠ "init" := by decide
    exact hall _ (hinputs ▸ List.mem_map_of_mem he)
  -- the two proposals were ready after the fifth and the thirteenth line
  have hplace : (e.input, i) ∈ reproposal.zipIdx := by
    rw [List.mem_zipIdx_iff_getElem?, ← hinputs, List.getElem?_map, hi]
    rfl
  have hall : ∀ l ∈ reproposal.zipIdx, l.1.command = "accept" → l.1.args[2]? = some "red" ∧
      (4 < l.2 ∧ l.1.args[1]? = some "1" ∨ 12 < l.2 ∧ l.1.args[1]? = some "2") := by decide
  obtain ⟨hred, hnumber⟩ := hall _ hplace hcommand
  obtain rfl := Option.some.inj ((word_eq_ok.mp hv).symm.trans hred)
  rcases hnumber with ⟨hlate, harg⟩ | ⟨hlate, harg⟩
  · have hint : int e.input.args 1 = .ok 1 := by
      unfold int
      rw [harg]
      rfl
    obtain rfl := Except.ok.inj (hn.symm.trans hint)
    refine ⟨by decide, rfl, d, hearlier hd hlate, p, hdp, ‹_›, hready, hvalue, fun name stored hstored => ?_⟩
    rw [hpromises, twoPromises, StringMap.get_insert, StringMap.get_insert] at hstored
    split at hstored
    · cases hstored
      exact ⟨1, none, ‹"a2" = name›.symm, ⟨e₂, hearlier h₂ (by omega), hp₂⟩, rfl⟩
    split at hstored
    · cases hstored
      exact ⟨0, none, ‹"a1" = name›.symm, ⟨e₁, hearlier h₁ (by omega), hp₁⟩, rfl⟩
    · cases hstored
  · have hint : int e.input.args 1 = .ok 2 := by
      unfold int
      rw [harg]
      rfl
    obtain rfl := Except.ok.inj (hn.symm.trans hint)
    refine ⟨by decide, rfl, d', hearlier hd' hlate, p', hdp', hn', hready', hvalue',
      fun name stored hstored => ?_⟩
    rw [hpromises', redPromises, StringMap.get_insert, StringMap.get_insert] at hstored
    split at hstored
    · cases hstored
      exact ⟨2, none, ‹"a3" = name›.symm, ⟨e₁₀, hearlier h₁₀ (by omega), hp₁₀⟩, rfl⟩
    split at hstored
    · cases hstored
      exact ⟨0, some (1, "red"), ‹"a1" = name›.symm, ⟨e₉, hearlier h₉ (by omega), hp₉⟩, rfl⟩
    · cases hstored

/-- What was reported as chosen is reported as not chosen. -/
theorem learnt_is_forgotten : ∃ es s e e', Run (onLine (@step three)) (init 3) es s ∧ @Honest three es ∧
    es[7]? = some e ∧ Learns e "red" ∧ es[14]? = some e' ∧ e'.input.command = "learn" ∧ ¬ Learns e' "red" := by
  obtain ⟨es, s, e, e', hrun, -, hhonest, he, hl, he', hlearn, hno⟩ := reproposal_run
  refine ⟨es, s, e, e', hrun, hhonest, he, hl, he', hlearn, fun h => ?_⟩
  rw [h.chosen] at hno
  cases hno

theorem stays_learnt_reproposal : ∃ es s e', Run (onLine (@step three)) (init 3) es s ∧
    es.map Event.input = reproposal ∧ es[14]? = some e' ∧
    e'.before.majority ≤ (e'.before.holdersOf "red").length := by
  let _ : Host := three
  obtain ⟨es, s, e, e', hrun, hinputs, hhonest, he, hl, he', hlearn, -⟩ := reproposal_run
  have hsplit : es = es.take 7 ++ e :: es.drop 8 := by
    obtain ⟨hlt, rfl⟩ := List.getElem?_eq_some_iff.mp he
    rw [List.getElem_cons_drop, List.take_append_drop]
  refine ⟨es, s, e', hrun, hinputs, he', (stays_learnt hrun hhonest hsplit hl ?_ hlearn).2.2⟩
  exact List.mem_of_getElem? (show (es.drop 8)[6]? = some e' by rw [List.getElem?_drop]; exact he')

end BuildYourOwn.Consensus.Paxos
