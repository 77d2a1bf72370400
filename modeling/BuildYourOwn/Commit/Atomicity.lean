import BuildYourOwn.Commit.TwoPhase

/-!
# Atomicity of `two-phase-commit`

No participant commits while another aborts, and none commits without every vote, as long as nobody
is told "a peer never voted" (`AbortsUnvoted`). That answer aborts a prepared participant because
some peer has not voted yet, and leaves the peer free to vote yes afterwards: then every vote is a
yes, the coordinator commits, and the aborted participant has broken its promise
(`not_atomic_unvoted`). `p-timeout` of the same peer records its no.

The invariant: votes come from participants, one that works has not voted, the decision is commit
only when everyone voted yes, and nobody has settled on anything but the coordinator's decision.

**`two_phase_atomic`**: in every run from an `init` in which no line takes that branch, the state reached is
`Atomic`.
-/

namespace BuildYourOwn.Commit.TwoPhase

open Lib Topic

structure Atomic (s : TwoPhase) : Prop where
  agreed : ¬ ∃ p q, s.pstate p = .committed ∧ s.pstate q = .aborted
  unanimous : ∀ p, s.pstate p = .committed → ∀ q ∈ s.participants, s.votes[q]? = some .yes

/-- `p` is prepared, none of its peers has decided, and one of them still works: `p-consult` would
abort `p` on the strength of a vote that is yet to come. -/
structure Stranded (s : TwoPhase) (p : String) : Prop where
  known : p ∈ s.participants
  prepared : s.pstate p = .prepared
  undecided : ∀ q ∈ s.peers p, (s.pstate q).decision = none
  working : ∃ q ∈ s.peers p, s.pstate q = .working

def AbortsUnvoted (s : TwoPhase) (l : Line) : Prop :=
  l.command = "p-consult" ∧ ∃ p, word l.args 0 = .ok p ∧ Stranded s p

/-! ## The invariant -/

structure Ballots (s : TwoPhase) : Prop where
  voter : ∀ (p : String) v, s.votes[p]? = some v → p ∈ s.participants
  unvoted : ∀ p ∈ s.participants, s.pstate p = .working → s.votes[p]? = none
  commit : s.decision = some .commit → ∀ p ∈ s.participants, s.votes[p]? = some .yes
  noPre : ∀ p, s.pstate p ≠ .preCommitted

structure Inv (s : TwoPhase) : Prop extends Ballots s where
  settled : ∀ p d, (s.pstate p).decision = some d → s.decision = some d

variable {s : TwoPhase} {p : String}

theorem Inv.isAtomic (h : Inv s) : Atomic s where
  agreed := by
    rintro ⟨p, q, hp, hq⟩
    have hcommit := h.settled p .commit (by rw [hp]; rfl)
    have habort := h.settled q .abort (by rw [hq]; rfl)
    rw [hcommit] at habort
    cases Option.some.inj habort
  unanimous p hp := h.commit (h.settled p .commit (by rw [hp]; rfl))

theorem pstate_insert {q : String} {x : PState} :
    pstate { s with pState := s.pState.insert p x } q = if p = q then x else s.pstate q :=
  StringMap.getD_insert ..

theorem Ballots.all_voted (h : Ballots s) (hsize : s.votes.size = s.participants.length) :
    ∀ p ∈ s.participants, ∃ v, s.votes[p]? = some v :=
  StringMap.exists_of_size h.voter hsize

/-- `reconsider` turns a recorded no into the decision it forces. -/
theorem Ballots.reconsider (h : Ballots s) (hsettled : ∀ p d, (s.pstate p).decision = some d → s.decision = some d ∨
      s.decision = none ∧ d = .abort ∧ ∃ q : String, s.votes[q]? = some Vote.no) : Inv s.reconsider := by
  unfold TwoPhase.reconsider
  by_cases hdecided : s.decision.isSome = true
  · rw [if_pos hdecided]
    refine ⟨h, fun p d hd => ?_⟩
    rcases hsettled p d hd with heq | ⟨hnone, -, -⟩
    · exact heq
    · rw [hnone] at hdecided
      cases hdecided
  have hnone : s.decision = none := by simpa using hdecided
  rw [if_neg hdecided]
  by_cases hno : (StringMap.vals s.votes).any (· == .no) = true
  · rw [if_pos hno]
    refine ⟨⟨h.voter, h.unvoted, fun hc => absurd (Option.some.inj hc) (by simp), h.noPre⟩,
      fun p d hd => ?_⟩
    rcases hsettled p d hd with heq | ⟨-, rfl, -⟩
    · rw [hnone] at heq
      cases heq
    · rfl
  rw [if_neg hno]
  have hyes : ∀ (q : String) v, s.votes[q]? = some v → v = Vote.yes := by
    intro q v hq
    cases v with
    | yes => rfl
    | no => exact absurd (List.any_eq_true.mpr ⟨_, StringMap.mem_vals.mpr ⟨q, hq⟩, rfl⟩) hno
  have hopen : ∀ p, (s.pstate p).decision = none := by
    intro p
    cases hd : (s.pstate p).decision with
    | none => rfl
    | some d =>
      rcases hsettled p d hd with heq | ⟨-, -, q, hq⟩
      · rw [hnone] at heq
        cases heq
      · cases hyes q _ hq
  by_cases hall : s.participants ≠ [] ∧ s.votes.size = s.participants.length
  · rw [if_pos hall]
    refine ⟨⟨h.voter, h.unvoted, fun _ p hp => ?_, h.noPre⟩, fun p d hd => ?_⟩
    · obtain ⟨v, hv⟩ := h.all_voted hall.2 p hp
      rw [hyes p v hv] at hv
      exact hv
    · rw [show pstate { s with decision := some .commit, state := .committed } p = s.pstate p from
        rfl, hopen p] at hd
      cases hd
  · rw [if_neg hall]
    refine ⟨h, fun p d hd => ?_⟩
    rw [hopen p] at hd
    cases hd

/-! ## What each command keeps -/

theorem Inv.cast (h : Inv s) (hp : p ∈ s.participants) (hvote : s.votes[p]? = none) (v : Vote) : Inv (s.cast p v) := by
  have hopen : s.decision ≠ some .commit := fun hc => by
    rw [h.commit hc p hp] at hvote
    cases hvote
  refine Ballots.reconsider ⟨fun q w hq => ?_, fun q hq hwork => ?_, fun hc => absurd hc hopen,
    fun q hpre => ?_⟩ fun q d hd => ?_
  · simp only [StringMap.get_insert] at hq
    split at hq
    · rename_i heq
      exact heq ▸ hp
    · exact h.voter q w hq
  · rw [pstate, StringMap.getD_insert] at hwork
    simp only [StringMap.get_insert]
    split at hwork
    · cases v <;> cases hwork
    · rename_i hne
      rw [if_neg hne]
      exact h.unvoted q hq hwork
  · rw [pstate, StringMap.getD_insert] at hpre
    split at hpre
    · cases v <;> cases hpre
    · exact h.noPre q hpre
  · rw [pstate, StringMap.getD_insert] at hd
    split at hd
    · -- the participant that votes: a no forces the decision, a yes settles nothing
      cases v with
      | yes => simp [PState.decision] at hd
      | no =>
        cases hd
        cases hdec : s.decision with
        | none => exact .inr ⟨rfl, rfl, p, StringMap.get_insert_self ..⟩
        | some d' =>
          cases d' with
          | commit => exact absurd hdec hopen
          | abort => exact .inl rfl
    · exact .inl (h.settled q d hd)

theorem Inv.giveUp (h : Inv s) (hp : p ∈ s.participants) (hwork : s.pstate p = .working) : Inv (s.giveUp p) := by
  have hvote := h.unvoted p hp hwork
  have hnew : s.votes.contains p = false := by
    rw [Std.ExtTreeMap.contains_eq_isSome_getElem?, hvote]
    rfl
  have heq : s.giveUp p = s.cast p .no := by
    unfold TwoPhase.giveUp TwoPhase.cast
    rw [hnew]
    rfl
  rw [heq]
  exact h.cast hp hvote .no

theorem Inv.settle (h : Inv s) {d : Decision} (hd : s.decision = some d) : Inv (s.settle p d) := by
  unfold TwoPhase.settle
  by_cases hsettled : (s.pstate p).decision.isSome = true
  · rw [if_pos hsettled]
    exact h
  rw [if_neg hsettled]
  refine ⟨⟨h.voter, fun q hq hwork => ?_, h.commit, fun q hpre => ?_⟩, fun q e he => ?_⟩
  · rw [pstate_insert] at hwork
    split at hwork
    · cases d <;> cases hwork
    · exact h.unvoted q hq hwork
  · rw [pstate_insert] at hpre
    split at hpre
    · cases d <;> cases hpre
    · exact h.noPre q hpre
  · rw [pstate_insert] at he
    split at he
    · cases d <;> exact he ▸ hd
    · exact h.settled q e he

theorem Inv.peer_decision (h : Inv s) {d : Decision}
    (hd : (s.peers p).findSome? (fun peer => (s.pstate peer).decision) = some d) : s.decision = some d := by
  obtain ⟨q, -, hq⟩ := List.exists_of_findSome?_eq_some hd
  exact h.settled q d hq

theorem Inv.elsewhere (h : Inv s) {state : CState} {up broadcast : Bool} :
    Inv { s with state := state, coordinatorUp := up, broadcast := broadcast } :=
  ⟨⟨h.voter, h.unvoted, h.commit, h.noPre⟩, h.settled⟩

theorem Inv.prepare (h : Inv s) : Inv s.prepare.1 := by
  unfold TwoPhase.prepare
  split
  · exact h
  · split
    · exact h.elsewhere
    · exact h

theorem Inv.decide (h : Inv s) : Inv s.decide.1 := by
  unfold TwoPhase.decide
  split
  · exact h
  · exact h.elsewhere

theorem Inv.vote (h : Inv s) (hp : p ∈ s.participants) (yes : Bool) : Inv (s.vote p yes).1 := by
  unfold TwoPhase.vote
  by_cases hvote : s.votes.contains p = true
  · simp only [hvote, if_true]
    exact h
  · simp only [if_neg hvote]
    have hnone : s.votes[p]? = none := by
      rw [Std.ExtTreeMap.contains_eq_isSome_getElem?] at hvote
      simpa using hvote
    exact h.cast hp hnone _

theorem Inv.deliver (h : Inv s) : Inv (s.deliver p).1 := by
  unfold TwoPhase.deliver
  cases hb : s.broadcast with
  | false => exact h
  | true =>
    cases hd : s.decision with
    | none => exact h
    | some d => exact h.settle hd

theorem Inv.pTimeout (h : Inv s) (hp : p ∈ s.participants) : Inv (s.pTimeout p).1 := by
  unfold TwoPhase.pTimeout
  cases hst : s.pstate p with
  | working => exact h.giveUp hp hst
  | preCommitted => exact absurd hst (h.noPre p)
  | prepared => exact h
  | committed => exact h
  | aborted => exact h

/-- **Asking the peers is safe unless the participant is stranded.** -/
theorem Inv.pConsult (h : Inv s) (hp : p ∈ s.participants) (hsafe : ¬ Stranded s p) : Inv (s.pConsult p).1 := by
  unfold TwoPhase.pConsult
  cases hst : s.pstate p with
  | working => exact h.giveUp hp hst
  | preCommitted => exact absurd hst (h.noPre p)
  | committed => exact h
  | aborted => exact h
  | prepared =>
    have hdec : PState.prepared.decision = none := rfl
    simp only [hdec, reduceCtorEq, if_false]
    cases hpeer : (s.peers p).findSome? (fun peer => (s.pstate peer).decision) with
    | some d => exact h.settle (h.peer_decision hpeer)
    | none =>
      simp only
      by_cases hany : ((s.peers p).any fun peer => s.pstate peer == .working) = true
      · refine absurd ⟨hp, hst, List.findSome?_eq_none_iff.mp hpeer, ?_⟩ hsafe
        obtain ⟨q, hq, hw⟩ := List.any_eq_true.mp hany
        exact ⟨q, hq, by simpa using hw⟩
      · rw [if_neg hany]
        exact h

/-- Every participant works after an `init`. -/
theorem init_pstate (names : List String) (p : String) : (init names).pstate p = .working := by
  have hget : (init names).pState[p]? = if p ∈ names then some .working else none :=
    (StringMap.get_foldl_insert _ (fun _ => PState.working) names ∅).trans
      (by rw [Std.ExtTreeMap.getElem?_empty])
  rw [pstate, Std.ExtTreeMap.getD_eq_getD_getElem?, hget]
  split
  · rfl
  · rfl

theorem inv_init (names : List String) : Inv (init names) where
  voter p v hv := absurd hv (by simp [init])
  unvoted p _ _ := by simp [init]
  commit hc := absurd hc (by simp [init])
  noPre p hpre := by
    rw [init_pstate] at hpre
    cases hpre
  settled p d hd := by
    rw [init_pstate] at hd
    simp [PState.decision] at hd

/-! ## Runs -/

section

variable [Host] {s' : TwoPhase} {v : Value} {l : Line}

omit [Host] in
theorem inv_of_some {r : TwoPhase × Value} (h : some r = some (s', v)) (hr : Inv r.1) : Inv s' := by
  cases h
  exact hr

theorem inv_about {args : List String} {k : String → Handled TwoPhase} (h : Inv s) (hs : about s args k = some (s', v))
    (hk : ∀ p, word args 0 = .ok p → p ∈ s.participants → k p = some (s', v) → Inv s') : Inv s' := by
  unfold about at hs
  refine arg_keeps h hs fun p hp hs => ?_
  · by_cases hmem : p ∈ s.participants
    · rw [if_pos hmem] at hs
      exact hk p hp hmem hs
    · rw [if_neg hmem] at hs
      cases hs
      exact h

/-- **One line keeps the invariant, unless it takes the branch.** -/
theorem inv_step (h : Inv s) (hl : ¬ AbortsUnvoted s l) (hs : onLine step s l = some (s', v)) : Inv s' := by
  obtain ⟨command, args⟩ := l
  unfold onLine step at hs
  split at hs
  case h_1 =>
    refine arg_keeps h hs fun names _ hs => ?_
    · exact inv_of_some hs (inv_init names)
  case h_2 => exact inv_of_some hs h.prepare
  case h_3 =>
    refine inv_about h hs fun p _ hp hs => ?_
    refine arg_keeps h hs fun yes _ hs => ?_
    · exact inv_of_some hs (h.vote hp yes)
  case h_4 => exact inv_of_some hs h.decide
  case h_5 => exact inv_about h hs fun p _ _ hs => inv_of_some hs h.deliver
  case h_6 => exact inv_about h hs fun p _ _ hs => inv_of_some hs h
  case h_7 => exact inv_about h hs fun p _ hp hs => inv_of_some hs (h.pTimeout hp)
  case h_8 hcommand =>
    refine inv_about h hs fun p hword hp hs => inv_of_some hs (h.pConsult hp fun hstranded => ?_)
    exact hl ⟨hcommand, p, hword, hstranded⟩
  case h_9 =>
    refine arg_keeps h hs fun what _ hs => ?_
    · split at hs
      · exact inv_of_some hs h
      · exact inv_of_some hs h.elsewhere
  case h_10 => exact inv_of_some hs h
  case h_11 => exact inv_of_some hs h

/-- **Two-phase commit is atomic** along every run in which no participant aborts because a peer has
not voted yet. -/
theorem two_phase_atomic {names : List String} {es : List (Event TwoPhase Line Value)}
    (hrun : Run (onLine step) (init names) es s)
    (hes : ∀ e ∈ es, ¬ AbortsUnvoted e.before e.input) : Atomic s :=
  (hrun.invariant (G := fun s l => ¬ AbortsUnvoted s l) (inv_init names)
    (fun _ _ _ _ h hl hs => inv_step h hl hs) hes).isAtomic

end

/-! A run of two participants: `a` votes yes and asks `b`, which has not voted, then votes yes too. -/

@[reducible] def pair : Host := hostOf []

def promiseThenAsk : List Line :=
  [⟨"vote", ["a", "yes"]⟩, ⟨"p-consult", ["a"]⟩, ⟨"vote", ["b", "yes"]⟩, ⟨"decide", []⟩,
    ⟨"deliver", ["b"]⟩]

theorem not_atomic_unvoted : ∃ es s, Run (onLine (@step pair)) (init ["a", "b"]) es s ∧
    es.map Event.input = promiseThenAsk ∧ s.pstate "a" = .aborted ∧ s.pstate "b" = .committed ∧
    ¬ Atomic s := by
  let _ : Host := pair
  obtain ⟨es, s, hrun, hinputs, ha, hb⟩ : ∃ es s, Run (onLine step) (init ["a", "b"]) es s ∧
      es.map Event.input = promiseThenAsk ∧ s.pstate "a" = .aborted ∧ s.pstate "b" = .committed :=
    ⟨_, _, run_of_exec promiseThenAsk rfl, rfl, rfl, rfl⟩
  exact ⟨es, s, hrun, hinputs, ha, hb, fun h => h.agreed ⟨"b", "a", hb, ha⟩⟩

def promiseThenDecide : List Line :=
  [⟨"vote", ["a", "yes"]⟩, ⟨"vote", ["b", "yes"]⟩, ⟨"decide", []⟩, ⟨"deliver", ["b"]⟩,
    ⟨"p-consult", ["a"]⟩]

/-- `a` asks when `b` has committed. -/
def asksDecided (e : Event TwoPhase Line Value) : Bool :=
  e.input.command != "p-consult" || (e.input.args == ["a"] &&
    (e.before.peers "a" == ["b"] && e.before.pstate "b" == .committed))

theorem two_phase_atomic_decided : ∃ es s, Run (onLine (@step pair)) (init ["a", "b"]) es s ∧
    es.map Event.input = promiseThenDecide ∧ s.pstate "a" = .committed ∧ Atomic s := by
  let _ : Host := pair
  obtain ⟨es, s, hrun, hinputs, ha, hall⟩ : ∃ es s, Run (onLine step) (init ["a", "b"]) es s ∧
      es.map Event.input = promiseThenDecide ∧ s.pstate "a" = .committed ∧
      es.all asksDecided = true :=
    ⟨_, _, run_of_exec promiseThenDecide rfl, rfl, rfl, rfl⟩
  refine ⟨es, s, hrun, hinputs, ha, two_phase_atomic hrun fun e he hbad => ?_⟩
  obtain ⟨hcommand, p, hp, hstranded⟩ := hbad
  have hasks := List.all_eq_true.mp hall e he
  simp only [asksDecided, hcommand, bne_self_eq_false, Bool.false_or, Bool.and_eq_true,
    beq_iff_eq] at hasks
  obtain ⟨hargs, hpeers, hb⟩ := hasks
  obtain rfl : "a" = p := Except.ok.inj (by rw [hargs] at hp; exact hp)
  have hopen := hstranded.undecided "b" (by rw [hpeers]; exact List.mem_singleton_self _)
  rw [hb] at hopen
  simp [PState.decision] at hopen

end BuildYourOwn.Commit.TwoPhase
