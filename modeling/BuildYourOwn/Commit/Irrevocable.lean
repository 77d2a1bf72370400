import BuildYourOwn.Commit.Atomicity

/-!
# What is decided in `two-phase-commit` stands, or not

A participant that has settled keeps its state, and the coordinator its decision, through every line but
two (`Revokes`). `vote` writes the participant's state without asking whether it has settled, as `settle`,
`p-timeout` and `p-consult` do, and an abort can be delivered to a participant that has not voted: its yes
then makes it `prepared` again (`unsettled_by_vote`). The other line is an `init`, which starts another
transaction.

The invariant (`Promised`): whoever neither works nor has aborted has voted, so only an aborted participant
can have its first vote to come.

**`decisions_stand_iff`**: in a run from an `init`, nothing decided changes between any two of its states
iff no line of it revokes.
-/

namespace BuildYourOwn.Commit.TwoPhase

open Lib Topic

/-- From `s` to `s'` nothing that is decided changes. -/
structure Stands (s s' : TwoPhase) : Prop where
  settled : ∀ p d, (s.pstate p).decision = some d → s'.pstate p = s.pstate p
  decided : ∀ d, s.decision = some d → s'.decision = some d

/-- The line is the first vote, a yes, of a participant that has aborted, or it starts another transaction
over something decided. -/
def Revokes [Host] (s : TwoPhase) (l : Line) : Prop :=
  (l.command = "vote" ∧ ∃ p, word l.args 0 = .ok p ∧ p ∈ s.participants ∧
    flag l.args 1 "yes" "no" = .ok true ∧ s.votes.contains p = false ∧ s.pstate p = .aborted) ∨
  l.command = "init" ∧ (∃ names, wordList l.args 0 = .ok names) ∧
    ((∃ p d, (s.pstate p).decision = some d) ∨ ∃ d, s.decision = some d)

structure Promised (s : TwoPhase) : Prop where
  voter : ∀ (p : String) v, s.votes[p]? = some v → p ∈ s.participants
  commit : s.decision = some .commit → ∀ p ∈ s.participants, ∃ v, s.votes[p]? = some v
  promised : ∀ p : String, s.pstate p = .working ∨ s.pstate p = .aborted ∨ ∃ v, s.votes[p]? = some v

structure Keeps (s s' : TwoPhase) : Prop where
  promised : Promised s'
  stands : Stands s s'

variable {s s' : TwoPhase} {p : String}

theorem Stands.refl (s : TwoPhase) : Stands s s := ⟨fun _ _ _ => rfl, fun _ h => h⟩

theorem Stands.trans {s'' : TwoPhase} (h : Stands s s') (h' : Stands s' s'') : Stands s s'' where
  settled p d hd := by
    have hsame := h.settled p d hd
    rw [← hsame] at hd
    exact (h'.settled p d hd).trans hsame
  decided d hd := h'.decided d (h.decided d hd)

/-! ## What each command keeps -/

theorem Promised.elsewhere (h : Promised s) {state : CState} {up broadcast : Bool} :
    Keeps s { s with state := state, coordinatorUp := up, broadcast := broadcast } :=
  ⟨⟨h.voter, h.commit, h.promised⟩, ⟨fun _ _ _ => rfl, fun _ h => h⟩⟩

theorem Promised.keeps (h : Promised s) : Keeps s s := ⟨h, Stands.refl s⟩

/-- `reconsider` decides once, and commits only on every vote. -/
theorem Promised.reconsider (h : Promised s) : Keeps s s.reconsider := by
  unfold TwoPhase.reconsider
  by_cases hdecided : s.decision.isSome = true
  · rw [if_pos hdecided]
    exact h.keeps
  rw [if_neg hdecided]
  have hnone : ∀ d, s.decision ≠ some d := fun d hd => hdecided (by rw [hd]; rfl)
  by_cases hno : (StringMap.vals s.votes).any (· == .no) = true
  · rw [if_pos hno]
    exact ⟨⟨h.voter, fun hc => absurd (Option.some.inj hc) (by simp), h.promised⟩,
      ⟨fun _ _ _ => rfl, fun d hd => absurd hd (hnone d)⟩⟩
  rw [if_neg hno]
  by_cases hall : s.participants ≠ [] ∧ s.votes.size = s.participants.length
  · rw [if_pos hall]
    exact ⟨⟨h.voter, fun _ => StringMap.exists_of_size h.voter hall.2, h.promised⟩,
      ⟨fun _ _ _ => rfl, fun d hd => absurd hd (hnone d)⟩⟩
  · rw [if_neg hall]
    exact h.keeps

theorem Promised.move (h : Promised s) {x : PState} {votes : StringMap Vote}
    (hopen : (s.pstate p).decision = none ∨ s.pstate p = x)
    (hvotes : ∀ (q : String) v, s.votes[q]? = some v → ∃ w, votes[q]? = some w)
    (hvoter : ∀ (q : String) v, votes[q]? = some v → q ∈ s.participants) (hx : x = .aborted ∨ ∃ v, votes[p]? = some v) :
    Keeps s { s with pState := s.pState.insert p x, votes := votes } := by
  have hstate (q : String) : pstate { s with pState := s.pState.insert p x, votes := votes } q =
      if p = q then x else s.pstate q := StringMap.getD_insert ..
  refine ⟨⟨hvoter, fun hc q hq => ?_, fun q => ?_⟩, ⟨fun q d hd => ?_, fun _ hd => hd⟩⟩
  · obtain ⟨v, hv⟩ := h.commit hc q hq
    exact hvotes q v hv
  · rw [hstate]
    split
    · rename_i heq
      rw [← heq]
      exact .inr hx
    · rcases h.promised q with hw | ha | ⟨v, hv⟩
      · exact .inl hw
      · exact .inr (.inl ha)
      · exact .inr (.inr (hvotes q v hv))
  · rw [hstate]
    split
    · rename_i heq
      subst heq
      rcases hopen with hopen | hsame
      · rw [hopen] at hd
        cases hd
      · exact hsame.symm
    · rfl

variable {v : Vote}

theorem votes_insert {q : String} {w : Vote} (hq : s.votes[q]? = some w) :
    ∃ w', (s.votes.insert p v)[q]? = some w' := by
  rw [StringMap.get_insert]
  split
  · exact ⟨v, rfl⟩
  · exact ⟨w, hq⟩

theorem Promised.voter_insert (h : Promised s) (hp : p ∈ s.participants) (q : String) (w : Vote)
    (hq : (s.votes.insert p v)[q]? = some w) : q ∈ s.participants := by
  rw [StringMap.get_insert] at hq
  split at hq
  · rename_i heq
    exact heq ▸ hp
  · exact h.voter q w hq

theorem Promised.record (h : Promised s) (hp : p ∈ s.participants) {x : PState}
    (hopen : (s.pstate p).decision = none ∨ s.pstate p = x) :
    Keeps s (TwoPhase.reconsider { s with votes := s.votes.insert p v, pState := s.pState.insert p x }) := by
  have hmove : Keeps s { s with votes := s.votes.insert p v, pState := s.pState.insert p x } :=
    h.move hopen (fun q w hq => votes_insert hq) (h.voter_insert hp)
      (.inr ⟨v, StringMap.get_insert_self ..⟩)
  have hdecide := hmove.promised.reconsider
  exact ⟨hdecide.promised, hmove.stands.trans hdecide.stands⟩

theorem Promised.cast (h : Promised s) (hp : p ∈ s.participants) (hvote : s.votes[p]? = none) (hv : v = .no ∨ s.pstate p ≠ .aborted) : Keeps s (s.cast p v) := by
  have hwork : s.pstate p = .working ∨ s.pstate p = .aborted := by
    rcases h.promised p with hw | ha | ⟨v, hv⟩
    · exact .inl hw
    · exact .inr ha
    · rw [hvote] at hv
      cases hv
  cases v with
  | yes =>
    refine h.record hp (.inl ?_)
    rcases hwork with hw | ha
    · rw [hw]
      rfl
    · exact absurd ha (hv.resolve_left (by simp))
  | no =>
    refine h.record hp ?_
    rcases hwork with hw | ha
    · rw [hw]
      exact .inl rfl
    · exact .inr ha

theorem Promised.giveUp (h : Promised s) (hp : p ∈ s.participants) (hopen : (s.pstate p).decision = none) :
    Keeps s (s.giveUp p) := by
  have hmove : Keeps s { s with
      pState := s.pState.insert p .aborted
      votes := if s.votes.contains p then s.votes else s.votes.insert p .no } := by
    refine h.move (.inl hopen) (fun q w hq => ?_) (fun q w hq => ?_) (.inl rfl)
    · split
      · exact ⟨w, hq⟩
      · exact votes_insert hq
    · split at hq
      · exact h.voter q w hq
      · exact h.voter_insert hp q w hq
  have hdecide := hmove.promised.reconsider
  exact ⟨hdecide.promised, hmove.stands.trans hdecide.stands⟩

theorem Promised.settle (h : Promised s) {d : Decision}
    (hd : d = .abort ∨ ∃ v, s.votes[p]? = some v) : Keeps s (s.settle p d) := by
  unfold TwoPhase.settle
  by_cases hsettled : (s.pstate p).decision.isSome = true
  · rw [if_pos hsettled]
    exact h.keeps
  rw [if_neg hsettled]
  have hopen : (s.pstate p).decision = none := by simpa using hsettled
  refine h.move (.inl hopen) (fun _ w hq => ⟨w, hq⟩) h.voter ?_
  rcases hd with rfl | hv
  · exact .inl rfl
  · exact .inr hv

theorem Promised.prepare (h : Promised s) : Keeps s s.prepare.1 := by
  unfold TwoPhase.prepare
  split
  · exact h.keeps
  · split
    · exact h.elsewhere
    · exact h.keeps

theorem Promised.decide (h : Promised s) : Keeps s s.decide.1 := by
  unfold TwoPhase.decide
  split
  · exact h.keeps
  · exact h.elsewhere

theorem Promised.vote (h : Promised s) (hp : p ∈ s.participants) {yes : Bool}
    (hsafe : ¬ (yes = true ∧ s.votes.contains p = false ∧ s.pstate p = .aborted)) : Keeps s (s.vote p yes).1 := by
  unfold TwoPhase.vote
  cases hvote : s.votes.contains p with
  | true => exact h.keeps
  | false =>
    have hnone : s.votes[p]? = none := by
      rw [Std.ExtTreeMap.contains_eq_isSome_getElem?] at hvote
      exact Option.isSome_eq_false_iff.mp hvote |> Option.isNone_iff_eq_none.mp
    cases yes with
    | true => exact h.cast hp hnone (.inr fun ha => hsafe ⟨rfl, hvote, ha⟩)
    | false => exact h.cast hp hnone (.inl rfl)

theorem Promised.deliver (h : Promised s) (hp : p ∈ s.participants) : Keeps s (s.deliver p).1 := by
  unfold TwoPhase.deliver
  cases hb : s.broadcast with
  | false => exact h.keeps
  | true =>
    cases hd : s.decision with
    | none => exact h.keeps
    | some d =>
      cases d with
      | abort =>
        have hkeeps : Keeps s (s.settle p .abort) := h.settle (.inl rfl)
        exact hkeeps
      | commit =>
        have hkeeps : Keeps s (s.settle p .commit) := h.settle (.inr (h.commit hd p hp))
        exact hkeeps

theorem Promised.pTimeout (h : Promised s) (hp : p ∈ s.participants) : Keeps s (s.pTimeout p).1 := by
  unfold TwoPhase.pTimeout
  cases hopen : (s.pstate p).decision with
  | some d => exact h.keeps
  | none =>
    dsimp only
    split
    · exact h.keeps
    · exact h.giveUp hp hopen

theorem Promised.pConsult (h : Promised s) (hp : p ∈ s.participants) : Keeps s (s.pConsult p).1 := by
  unfold TwoPhase.pConsult
  cases hopen : (s.pstate p).decision with
  | some d => exact h.keeps
  | none =>
    dsimp only
    split
    · exact h.giveUp hp hopen
    · rename_i hwork
      have hvoted : ∃ v, s.votes[p]? = some v := by
        rcases h.promised p with hw | ha | hv
        · exact absurd hw hwork
        · rw [ha] at hopen
          cases hopen
        · exact hv
      cases hpeer : (s.peers p).findSome? (fun peer => (s.pstate peer).decision) with
      | some d => exact h.settle (.inr hvoted)
      | none =>
        dsimp only
        split
        · exact h.move (.inl hopen) (fun _ w hq => ⟨w, hq⟩) h.voter (.inl rfl)
        · exact h.keeps

theorem promised_init (names : List String) : Promised (init names) where
  voter p v hv := absurd hv (by simp [init])
  commit hc := absurd hc (by simp [init])
  promised p := .inl (init_pstate names p)

/-! ## Runs -/

section

variable [Host] {v : Value} {l : Line} {names : List String} {es : List (Event TwoPhase Line Value)}

omit [Host] in
theorem keeps_of_some {r : TwoPhase × Value} (h : some r = some (s', v)) (hr : Keeps s r.1) : Keeps s s' := by
  cases h
  exact hr

theorem keeps_about {args : List String} {k : String → Handled TwoPhase} (h : Promised s)
    (hs : about s args k = some (s', v))
    (hk : ∀ p, word args 0 = .ok p → p ∈ s.participants → k p = some (s', v) → Keeps s s') : Keeps s s' := by
  unfold about at hs
  refine arg_keeps h.keeps hs fun p hp hs => ?_
  · by_cases hmem : p ∈ s.participants
    · rw [if_pos hmem] at hs
      exact hk p hp hmem hs
    · rw [if_neg hmem] at hs
      cases hs
      exact h.keeps

/-- **One line changes nothing decided, unless it revokes.** -/
theorem keeps_step (h : Promised s) (hl : ¬ Revokes s l) (hs : onLine step s l = some (s', v)) : Keeps s s' := by
  obtain ⟨command, args⟩ := l
  unfold onLine step at hs
  split at hs
  case h_1 hcommand =>
    refine arg_keeps h.keeps hs fun names hnames hs => ?_
    · refine keeps_of_some hs ⟨promised_init names, ⟨fun p d hd => ?_, fun d hd => ?_⟩⟩
      · exact absurd (.inr ⟨hcommand, ⟨names, hnames⟩, .inl ⟨p, d, hd⟩⟩) hl
      · exact absurd (.inr ⟨hcommand, ⟨names, hnames⟩, .inr ⟨d, hd⟩⟩) hl
  case h_2 => exact keeps_of_some hs h.prepare
  case h_3 hcommand =>
    refine keeps_about h hs fun p hword hp hs => ?_
    refine arg_keeps h.keeps hs fun yes hyes hs => ?_
    · refine keeps_of_some hs (h.vote hp fun hbad => hl (.inl ⟨hcommand, p, hword, hp, ?_, hbad.2⟩))
      rw [hyes, hbad.1]
  case h_4 => exact keeps_of_some hs h.decide
  case h_5 => exact keeps_about h hs fun p _ hp hs => keeps_of_some hs (h.deliver hp)
  case h_6 => exact keeps_about h hs fun p _ _ hs => keeps_of_some hs h.keeps
  case h_7 => exact keeps_about h hs fun p _ hp hs => keeps_of_some hs (h.pTimeout hp)
  case h_8 => exact keeps_about h hs fun p _ hp hs => keeps_of_some hs (h.pConsult hp)
  case h_9 =>
    refine arg_keeps h.keeps hs fun what _ hs => ?_
    · split at hs
      · exact keeps_of_some hs h.keeps
      · exact keeps_of_some hs h.elsewhere
  case h_10 => exact keeps_of_some hs h.keeps
  case h_11 => exact keeps_of_some hs h.keeps

theorem not_stands_of_revokes (hl : Revokes s l) (hs : onLine step s l = some (s', v)) : ¬ Stands s s' := by
  obtain ⟨command, args⟩ := l
  rcases hl with ⟨rfl, p, hword, hp, hyes, hvote, haborted⟩ | ⟨rfl, ⟨names, hnames⟩, hdecided⟩
  · have hvoted : onLine step s ⟨"vote", args⟩ = some (s.vote p true) := by
      show about s args (fun p => arg s (flag args 1 "yes" "no") fun yes => some (s.vote p yes)) = _
      unfold about
      rw [hword, arg_ok, if_pos hp]
      show arg s (flag args 1 "yes" "no") (fun yes => some (s.vote p yes)) = _
      rw [hyes, arg_ok]
    rw [hvoted] at hs
    obtain rfl : (s.vote p true).1 = s' := congrArg Prod.fst (Option.some.inj hs)
    intro hstands
    have hsame := hstands.settled p .abort (by rw [haborted]; rfl)
    unfold TwoPhase.vote at hsame
    simp only [hvote, Bool.false_eq_true, if_false, if_true] at hsame
    have hprepared : (s.cast p .yes).pstate p = .prepared := by
      have hkept (s : TwoPhase) (q : String) : s.reconsider.pstate q = s.pstate q := by
        unfold TwoPhase.reconsider
        split
        · rfl
        · split
          · rfl
          · split
            · rfl
            · rfl
      unfold TwoPhase.cast
      rw [hkept, pstate, StringMap.getD_insert, if_pos rfl]
    rw [hprepared, haborted] at hsame
    cases hsame
  · have hinit : onLine step s ⟨"init", args⟩ = some (init names, .obj [("state",
        .str (init names).state.text), ("participants", .arr (names.map .str))]) := by
      show arg s (wordList args 0) (fun names => some (init names, .obj [("state",
        .str (init names).state.text), ("participants", .arr (names.map .str))])) = _
      rw [hnames, arg_ok]
    rw [hinit] at hs
    obtain rfl : init names = s' := congrArg Prod.fst (Option.some.inj hs)
    intro hstands
    rcases hdecided with ⟨p, d, hd⟩ | ⟨d, hd⟩
    · have hsame := hstands.settled p d hd
      rw [init_pstate] at hsame
      rw [← hsame] at hd
      cases hd
    · exact absurd (hstands.decided d hd) (by simp [init])

theorem promised_run (hrun : Run (onLine step) (init names) es s)
    (hes : ∀ e ∈ es, ¬ Revokes e.before e.input) : Promised s :=
  hrun.invariant (G := fun s l => ¬ Revokes s l) (promised_init names)
    (fun _ _ _ _ h hl hs => (keeps_step h hl hs).promised) hes

/-- **Nothing decided changes** between two states of a run iff none of its lines revokes. -/
theorem decisions_stand_iff (hrun : Run (onLine step) (init names) es s) :
    (∀ es₁ es₂ es₃ s₁ s₂, es = es₁ ++ es₂ ++ es₃ → Run (onLine step) (init names) es₁ s₁ →
      Run (onLine step) s₁ es₂ s₂ → Stands s₁ s₂) ↔ ∀ e ∈ es, ¬ Revokes e.before e.input := by
  constructor
  · intro hstands e he hrevokes
    obtain ⟨es₁, es₃, rfl⟩ := List.append_of_mem he
    have hstep := hrun.step_of_mem he
    have hone : Run (onLine step) e.before [e] e.after := Run.nil.snoc hstep
    exact not_stands_of_revokes hrevokes hstep
      (hstands es₁ [e] es₃ _ _ (by simp) (hrun.split rfl) hone)
  · rintro hes es₁ es₂ es₃ s₁ s₂ rfl hbefore hlater
    have hpromised : Promised s₁ := promised_run hbefore fun e he =>
      hes e (List.mem_append_left _ (List.mem_append_left _ he))
    have hkeeps : Keeps s₁ s₂ := hlater.invariant (G := fun s l => ¬ Revokes s l) hpromised.keeps
      (fun _ _ _ _ h hl hs => by
        have hnext := keeps_step h.promised hl hs
        exact ⟨hnext.promised, h.stands.trans hnext.stands⟩) fun e he =>
      hes e (List.mem_append_left _ (List.mem_append_right _ he))
    exact hkeeps.stands

end

/-! A run of two participants: `a` votes no, the abort reaches `b`, and only then does `b` vote yes. -/

def abortUnvoted : List Line := [⟨"vote", ["a", "no"]⟩, ⟨"decide", []⟩, ⟨"deliver", ["b"]⟩]

theorem unsettled_by_vote : ∃ es₁ es₂ s₁ s₂, Run (onLine (@step pair)) (init ["a", "b"]) es₁ s₁ ∧
    es₁.map Event.input = abortUnvoted ∧ Run (onLine (@step pair)) s₁ es₂ s₂ ∧
    es₂.map Event.input = [⟨"vote", ["b", "yes"]⟩] ∧ s₁.pstate "b" = .aborted ∧
    s₂.pstate "b" = .prepared ∧ ¬ Stands s₁ s₂ := by
  let _ : Host := pair
  obtain ⟨es₁, s₁, es₂, s₂, hrun, hinputs, hlater, hvote, haborted, hprepared⟩ :
      ∃ es₁ s₁ es₂ s₂, Run (onLine step) (init ["a", "b"]) es₁ s₁ ∧
        es₁.map Event.input = abortUnvoted ∧ Run (onLine step) s₁ es₂ s₂ ∧
        es₂.map Event.input = [⟨"vote", ["b", "yes"]⟩] ∧ s₁.pstate "b" = .aborted ∧
        s₂.pstate "b" = .prepared :=
    ⟨_, _, _, _, run_of_exec abortUnvoted rfl, rfl, run_of_exec [⟨"vote", ["b", "yes"]⟩] rfl, rfl, rfl,
      rfl⟩
  refine ⟨es₁, es₂, s₁, s₂, hrun, hinputs, hlater, hvote, haborted, hprepared, fun hstands => ?_⟩
  have hsame := hstands.settled "b" .abort (by rw [haborted]; rfl)
  rw [haborted, hprepared] at hsame
  cases hsame

theorem decisions_stand_aborted : ∃ es s, Run (onLine (@step pair)) (init ["a", "b"]) es s ∧
    es.map Event.input = abortUnvoted ∧ s.pstate "b" = .aborted ∧
    ∀ es₁ es₂ es₃ s₁ s₂, es = es₁ ++ es₂ ++ es₃ → Run (onLine (@step pair)) (init ["a", "b"]) es₁ s₁ →
      Run (onLine (@step pair)) s₁ es₂ s₂ → Stands s₁ s₂ := by
  let _ : Host := pair
  obtain ⟨es, s, hrun, hinputs, haborted, hworking⟩ : ∃ es s, Run (onLine step) (init ["a", "b"]) es s ∧
      es.map Event.input = abortUnvoted ∧ s.pstate "b" = .aborted ∧
      (es.all fun e => e.input.command != "vote" || e.before.pstate "a" == .working &&
        e.input.args == ["a", "no"]) = true ∧ (es.all fun e => e.input.command != "init") = true :=
    ⟨_, _, run_of_exec abortUnvoted rfl, rfl, rfl, rfl, rfl⟩
  refine ⟨es, s, hrun, hinputs, haborted, (decisions_stand_iff hrun).mpr fun e he hrevokes => ?_⟩
  rcases hrevokes with ⟨hcommand, p, hword, -, -, -, hp⟩ | ⟨hcommand, -⟩
  · have hvote := List.all_eq_true.mp hworking.1 e he
    simp only [hcommand, bne_self_eq_false, Bool.false_or, Bool.and_eq_true, beq_iff_eq] at hvote
    rw [hvote.2] at hword
    obtain rfl : "a" = p := Except.ok.inj hword
    rw [hvote.1] at hp
    cases hp
  · have hinit := List.all_eq_true.mp hworking.2 e he
    simp [hcommand] at hinit

end BuildYourOwn.Commit.TwoPhase
