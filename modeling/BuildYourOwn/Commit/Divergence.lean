import BuildYourOwn.Commit.ThreePhase

/-!
# Where `three-phase-commit` diverges

A pre-commit goes out only when every participant has voted yes, and nobody commits without one, so one
no keeps everybody from committing for good. The other way round is weaker: a participant that is
prepared and times out aborts on its own, whatever the others have seen, and this is the only way to
abort once every vote is a yes.

The invariant (`Inv`) classifies what stands: whatever points to a commit has every vote behind it, and
every aborted participant has a no behind it or its own timeout.

**`three_phase_diverges`**: in every run nobody commits unless everyone voted yes, no timeout blocks, and
when the decisions are inconsistent everyone voted yes and a timeout aborted a participant that was
merely prepared.
-/

namespace BuildYourOwn.Commit.ThreePhase

open Lib Topic

variable {s s' : ThreePhase} {names : List String} {p : String} {l : Line} {v : Value}
  {T T' : String → Prop} {es es₁ es₂ : List (Event ThreePhase Line Value)}

/-- Every participant voted yes. -/
def Unanimous (names : List String) (s : ThreePhase) : Prop := ∀ q ∈ names, s.votes[q]? = some .yes

/-- Some participant voted no. -/
def Refused (s : ThreePhase) : Prop := ∃ q : String, s.votes[q]? = some .no

/-- A timeout found `p` merely prepared and aborted it. -/
def TimedOut (es : List (Event ThreePhase Line Value)) (p : String) : Prop :=
  ∃ e ∈ es, e.input.command = "p-timeout" ∧ word e.input.args 0 = .ok p ∧
    e.before.pstate p = .prepared ∧ e.after.pstate p = .aborted

/-! ## The invariant -/

def Committing (s : ThreePhase) : Prop :=
  s.state = .preCommitted ∨ s.decision = some .commit ∨
    ∃ p, s.pstate p = .preCommitted ∨ s.pstate p = .committed

/-- What holds of every state; `T` are the participants that a timeout found prepared. -/
structure Inv (names : List String) (T : String → Prop) (s : ThreePhase) : Prop where
  members : s.participants = names
  voter : ∀ (p : String) v, s.votes[p]? = some v → p ∈ names
  unvoted : ∀ p ∈ names, s.pstate p = .working → s.votes[p]? = none
  agreed : Committing s → Unanimous names s
  refused : s.decision = some .abort → Refused s
  aborted : ∀ p, s.pstate p = .aborted → Refused s ∨ T p

theorem Inv.mono (h : Inv names T s) (ht : ∀ p, T p → T' p) : Inv names T' s :=
  ⟨h.members, h.voter, h.unvoted, h.agreed, h.refused, fun p hp => (h.aborted p hp).imp_right (ht p)⟩

theorem Inv.not_refused (h : Inv names T s) (hyes : Unanimous names s) : ¬ Refused s := by
  rintro ⟨q, hq⟩
  have hno := (hyes q (h.voter q _ hq)).symm.trans hq
  cases Option.some.inj hno

theorem pstate_move {q : String} {x : PState} :
    (s.move p x).pstate q = if p = q then x else s.pstate q := StringMap.getD_insert ..

/-! ## Participants -/

/-- **A participant moves**: to a commit only with every vote, and to an abort with a no or by its
timeout. -/
theorem Inv.move (h : Inv names T s) {x : PState} (hx : x ≠ .working)
    (hyes : x = .preCommitted ∨ x = .committed → Unanimous names s)
    (hno : x = .aborted → Refused s ∨ T p) : Inv names T (s.move p x) where
  members := h.members
  voter := h.voter
  unvoted q hq hworking := by
    rw [pstate_move] at hworking
    split at hworking
    · exact absurd hworking hx
    · exact h.unvoted q hq hworking
  agreed hc := by
    rcases hc with hstate | hdecision | ⟨q, hq⟩
    · exact h.agreed (.inl hstate)
    · exact h.agreed (.inr (.inl hdecision))
    · rw [pstate_move] at hq
      split at hq
      · exact hyes hq
      · exact h.agreed (.inr (.inr ⟨q, hq⟩))
  refused := h.refused
  aborted q hq := by
    rw [pstate_move] at hq
    split at hq
    · rename_i hpq
      exact hpq ▸ hno hq
    · exact h.aborted q hq

theorem Inv.congr (h : Inv names T s) (hnames : s'.participants = s.participants)
    (hvotes : s'.votes = s.votes) (hpState : s'.pState = s.pState)
    (hstate : s'.state = .preCommitted → Unanimous names s)
    (hdecision : s'.decision = s.decision ∨ s'.decision = some .commit ∧ Unanimous names s) : Inv names T s' := by
  have hpstate : ∀ q, s'.pstate q = s.pstate q := fun q => by
    unfold pstate
    rw [hpState]
  refine ⟨hnames.trans h.members, hvotes ▸ h.voter, fun q hq hworking => ?_, fun hc => ?_, fun hd => ?_,
    fun q hq => ?_⟩
  · rw [hvotes]
    exact h.unvoted q hq (hpstate q ▸ hworking)
  · unfold Unanimous
    rw [hvotes]
    rcases hc with hpre | hcommit | ⟨q, hq⟩
    · exact hstate hpre
    · rcases hdecision with hsame | ⟨-, hyes⟩
      · exact h.agreed (.inr (.inl (hsame ▸ hcommit)))
      · exact hyes
    · exact h.agreed (.inr (.inr ⟨q, hpstate q ▸ hq⟩))
  · unfold Refused
    rw [hvotes]
    rcases hdecision with hsame | ⟨hcommit, -⟩
    · exact h.refused (hsame ▸ hd)
    · cases Option.mem_unique hcommit hd
  · unfold Refused
    rw [hvotes]
    exact h.aborted q (hpstate q ▸ hq)

theorem Inv.settle (h : Inv names T s) {d : Decision} (hd : s.decision = some d) : Inv names T (s.settle p d) := by
  unfold ThreePhase.settle
  split
  · exact h
  · cases d with
    | commit =>
      exact h.move (by simp) (fun _ => h.agreed (Or.inr (Or.inl hd))) nofun
    | abort => exact h.move (by simp) (nofun) fun _ => Or.inl (h.refused hd)

theorem Refused.insert {votes : StringMap Vote} {x : Vote} (hvote : votes[p]? = none)
    (h : ∃ q : String, votes[q]? = some Vote.no) : ∃ q : String, (votes.insert p x)[q]? = some Vote.no := by
  obtain ⟨q, hq⟩ := h
  refine ⟨q, ?_⟩
  rw [StringMap.get_insert, if_neg fun hpq => by simp [← hpq, hvote] at hq]
  exact hq

theorem Inv.record (h : Inv names T s) (hp : p ∈ names) (hvote : s.votes[p]? = none) {x : PState}
    {y : Vote} (hx : x = .prepared ∨ x = .aborted) (hy : x = .aborted → y = .no)
    (hs' : s'.participants = s.participants ∧ s'.votes = s.votes.insert p y ∧
      s'.pState = s.pState.insert p x) (hstate : s'.state = .preCommitted → s.state = .preCommitted)
    (hdecision : s'.decision = s.decision ∨ s'.decision = some .abort ∧ y = .no) : Inv names T s' := by
  obtain ⟨hnames, hvotes, hpState⟩ := hs'
  have hpstate : ∀ q, s'.pstate q = if p = q then x else s.pstate q := fun q => by
    unfold pstate
    rw [hpState]
    exact StringMap.getD_insert ..
  have hself : y = .no → Refused s' := fun hno => ⟨p, by rw [hvotes, StringMap.get_insert_self, hno]⟩
  have hold : Refused s → Refused s' := fun h => by
    unfold Refused
    rw [hvotes]
    exact Refused.insert hvote h
  -- without the vote of `p` nothing points to a commit
  have hopen : ¬ Committing s := fun hc => by
    rw [h.agreed hc p hp] at hvote
    simp at hvote
  refine ⟨hnames.trans h.members, fun q v hq => ?_, fun q hq hworking => ?_, fun hc => ?_,
    fun hd => ?_, fun q hq => ?_⟩
  · rw [hvotes, StringMap.get_insert] at hq
    split at hq
    · rename_i hpq
      exact hpq ▸ hp
    · exact h.voter q v hq
  · rw [hpstate] at hworking
    split at hworking
    · rcases hx with rfl | rfl
      · simp at hworking
      · simp at hworking
    · rename_i hpq
      rw [hvotes, StringMap.get_insert, if_neg hpq]
      exact h.unvoted q hq hworking
  · refine absurd ?_ hopen
    rcases hc with hpre | hcommit | ⟨q, hq⟩
    · exact .inl (hstate hpre)
    · rcases hdecision with hsame | ⟨habort, -⟩
      · exact .inr (.inl (hsame ▸ hcommit))
      · cases Option.mem_unique habort hcommit
    · rw [hpstate] at hq
      split at hq
      · rcases hx with rfl | rfl
        · simp at hq
        · simp at hq
      · exact .inr (.inr ⟨q, hq⟩)
  · rcases hdecision with hsame | ⟨-, hno⟩
    · exact hold (h.refused (hsame ▸ hd))
    · exact hself hno
  · rw [hpstate] at hq
    split at hq
    · exact .inl (hself (hy hq))
    · exact (h.aborted q hq).imp_left hold

theorem Inv.cast (h : Inv names T s) (hp : p ∈ names) (hvote : s.votes[p]? = none) (yes : Bool) :
    Inv names T (s.cast p yes) := by
  have hstage : (if s.state = .init then Stage.voting else s.state) = .preCommitted →
      s.state = .preCommitted := fun hpre => by
    split at hpre
    · cases hpre
    · exact hpre
  unfold ThreePhase.cast
  cases yes with
  | true =>
    rw [if_neg fun hno => absurd hno.1 (by simp)]
    exact h.record hp hvote (Or.inl rfl) (nofun) ⟨rfl, rfl, rfl⟩ hstage
      (.inl rfl)
  | false =>
    dsimp only
    split
    · exact h.record hp hvote (.inr rfl) (fun _ => rfl) ⟨rfl, rfl, rfl⟩
        (nofun) (Or.inr ⟨rfl, rfl⟩)
    · exact h.record hp hvote (.inr rfl) (fun _ => rfl) ⟨rfl, rfl, rfl⟩ hstage (.inl rfl)

/-- **A timeout** decides by what the participant has seen. -/
theorem Inv.pTimeout (h : Inv names T s) (hp : p ∈ names) :
    Inv names (fun q => T q ∨ q = p ∧ s.pstate p = .prepared) (s.pTimeout p).1 := by
  have hmono : Inv names (fun q => T q ∨ q = p ∧ s.pstate p = .prepared) s := h.mono fun _ => .inl
  unfold ThreePhase.pTimeout
  split
  · exact hmono
  · rename_i hopen
    split
    · rename_i hpre
      exact hmono.move (by simp) (fun _ => h.agreed (.inr (.inr ⟨p, .inl hpre⟩)))
        nofun
    · rename_i hprepared
      exact hmono.move (by simp) (nofun) fun _ => Or.inr (Or.inr ⟨rfl, hprepared⟩)
    · rename_i hnotPre hnotPrepared
      have hworking : s.pstate p = .working := by
        cases hstate : s.pstate p with
        | working => rfl
        | prepared => exact absurd hstate hnotPrepared
        | preCommitted => exact absurd hstate hnotPre
        | committed => rw [hstate] at hopen; simp [PState.decision] at hopen
        | aborted => rw [hstate] at hopen; simp [PState.decision] at hopen
      have hvote := h.unvoted p hp hworking
      have hnot : ¬ s.votes.contains p = true := by
        rw [Std.ExtTreeMap.contains_eq_isSome_getElem?, hvote]
        simp
      exact hmono.record hp hvote (.inr rfl) (fun _ => rfl) ⟨rfl, if_neg hnot, rfl⟩ (fun h => h)
        (.inl rfl)

/-! ## The coordinator and the network -/

/-- `all_yes` has counted a yes of every participant. -/
theorem Inv.unanimous_of_allYes (h : Inv names T s) (hall : s.allYes = true) : Unanimous names s := by
  unfold allYes at hall
  rw [Bool.and_eq_true, Bool.and_eq_true, decide_eq_true_eq] at hall
  obtain ⟨⟨-, hsize⟩, hyes⟩ := hall
  intro q hq
  obtain ⟨v, hv⟩ := StringMap.exists_of_size h.voter (h.members ▸ hsize) q hq
  have hyes := List.all_eq_true.mp hyes v (StringMap.mem_vals.mpr ⟨q, hv⟩)
  rw [hv, beq_iff_eq.mp hyes]

theorem Inv.preCommit (h : Inv names T s) : Inv names T s.preCommit.1 := by
  unfold ThreePhase.preCommit
  split
  · exact h
  · split
    · exact h
    · rename_i hall
      exact h.congr rfl rfl rfl (fun _ => h.unanimous_of_allYes (Bool.not_eq_false _ ▸ hall))
        (.inl rfl)

theorem Inv.pPreCommit (h : Inv names T s) (p : String) : Inv names T (s.pPreCommit p).1 := by
  unfold ThreePhase.pPreCommit
  split
  · rename_i hheard
    exact h.move (by simp) (fun _ => h.agreed (Or.inl hheard.1)) nofun
  · exact h

theorem Inv.ack (h : Inv names T s) (p : String) : Inv names T (s.ack p).1 := by
  unfold ThreePhase.ack
  split
  · exact h.congr rfl rfl rfl (fun hpre => h.agreed (.inl hpre)) (.inl rfl)
  · exact h

theorem Inv.commit (h : Inv names T s) : Inv names T s.commit.1 := by
  unfold ThreePhase.commit
  split
  · exact h
  · split
    · exact h
    · rename_i hpre
      split
      · exact h
      · exact h.congr rfl rfl rfl (nofun)
          (.inr ⟨rfl, h.agreed (.inl (not_not.mp hpre))⟩)

theorem Inv.deliver (h : Inv names T s) (p : String) : Inv names T (s.deliver p).1 := by
  unfold ThreePhase.deliver
  split
  · split
    · rename_i hd
      exact h.settle hd
    · exact h
  · exact h

theorem Inv.partition [Host] (h : Inv names T s) (group : List String) : Inv names T (s.partition group).1 := by
  unfold ThreePhase.partition
  split
  · exact h
  · exact h.congr rfl rfl rfl (fun hpre => h.agreed (.inl hpre)) (.inl rfl)

/-! ## Runs -/

/-- A command about a participant is refused, or it is about one that `init` named. -/
theorem about_eq_some [Host] {args : List String} {k : String → Handled ThreePhase}
    (hs : about s args k = some (s', v)) : s' = s ∨ ∃ p ∈ s.participants, word args 0 = .ok p ∧ k p = some (s', v) := by
  unfold about at hs
  rcases arg_eq_some.mp hs with ⟨-, rfl⟩ | ⟨p, hword, hs⟩
  · exact .inl rfl
  · split at hs
    · rename_i hp
      exact .inr ⟨p, hp, hword, hs⟩
    · exact .inl (state_eq hs)

theorem TimedOut.snoc {e : Event ThreePhase Line Value} (h : TimedOut es p) : TimedOut (es ++ [e]) p := by
  obtain ⟨e', he', h⟩ := h
  exact ⟨e', List.mem_append_left _ he', h⟩

/-- A timeout that finds `p` prepared aborts it. -/
theorem pstate_pTimeout (h : s.pstate p = .prepared) : (s.pTimeout p).1.pstate p = .aborted := by
  have hmove : (s.pTimeout p).1 = s.move p .aborted := by
    unfold pTimeout
    rw [h]
    rfl
  rw [hmove, pstate_move, if_pos rfl]

/-- **Every command** but `init` keeps the invariant. -/
theorem step_inv [Host] (h : Inv names (TimedOut es) s) (hl : l.command ≠ "init")
    (hs : onLine step s l = some (s', v)) : Inv names (TimedOut (es ++ [⟨s, l, v, s'⟩])) s' := by
  have hmono : Inv names (TimedOut es) s' → Inv names (TimedOut (es ++ [⟨s, l, v, s'⟩])) s' :=
    fun h => h.mono fun _ => TimedOut.snoc
  have hfst : ∀ {r : ThreePhase × Value}, some r = some (s', v) → r.1 = s' := fun h =>
    congrArg Prod.fst (Option.some.inj h)
  have hkeep : ∀ {r : ThreePhase × Value}, some r = some (s', v) → Inv names (TimedOut es) r.1 →
      Inv names (TimedOut (es ++ [⟨s, l, v, s'⟩])) s' := fun hr h => hmono (hfst hr ▸ h)
  obtain ⟨command, args⟩ := l
  unfold onLine step at hs
  dsimp only at hs
  split at hs
  case h_1 => exact absurd rfl hl
  case h_2 =>
    rcases about_eq_some hs with rfl | ⟨p, hp, -, hs⟩
    · exact hmono h
    · rcases arg_eq_some.mp hs with ⟨-, rfl⟩ | ⟨yes, -, hs⟩
      · exact hmono h
      · refine hkeep hs ?_
        unfold vote
        split
        · exact h
        · rename_i hvote
          refine h.cast (h.members ▸ hp) ?_ yes
          rw [Std.ExtTreeMap.contains_eq_isSome_getElem?] at hvote
          simpa using hvote
  case h_3 => exact hkeep hs h.preCommit
  case h_4 =>
    rcases about_eq_some hs with rfl | ⟨p, -, -, hs⟩
    · exact hmono h
    · exact hkeep hs (h.pPreCommit p)
  case h_5 =>
    rcases about_eq_some hs with rfl | ⟨p, -, -, hs⟩
    · exact hmono h
    · exact hkeep hs (h.ack p)
  case h_6 => exact hkeep hs h.commit
  case h_7 =>
    rcases about_eq_some hs with rfl | ⟨p, -, -, hs⟩
    · exact hmono h
    · exact hkeep hs (h.deliver p)
  case h_8 =>
    rcases about_eq_some hs with rfl | ⟨p, -, -, hs⟩
    · exact hmono h
    · exact hkeep hs h
  case h_9 =>
    rcases about_eq_some hs with rfl | ⟨p, hp, hword, hs⟩
    · exact hmono h
    · have hs' := hfst hs
      rw [← hs']
      refine (h.pTimeout (h.members ▸ hp)).mono fun q hq => ?_
      rcases hq with hq | ⟨rfl, hprepared⟩
      · exact hq.snoc
      · exact ⟨_, List.mem_concat_self, rfl, hword, hprepared,
          pstate_pTimeout hprepared⟩
  case h_10 =>
    rcases arg_eq_some.mp hs with ⟨-, rfl⟩ | ⟨what, -, hs⟩
    · exact hmono h
    · split at hs
      · exact hkeep hs h
      · exact hkeep hs (h.congr rfl rfl rfl (fun hpre => h.agreed (.inl hpre)) (.inl rfl))
  case h_11 =>
    rcases arg_eq_some.mp hs with ⟨-, rfl⟩ | ⟨group, -, hs⟩
    · exact hmono h
    · exact hkeep hs (h.partition group)
  case h_12 =>
    exact hkeep hs (h.congr rfl rfl rfl (fun hpre => h.agreed (.inl hpre)) (.inl rfl))
  case h_13 => exact hkeep hs h
  case h_14 => exact hkeep hs h

theorem inv_init (names : List String) : Inv names (TimedOut []) (init names) := by
  have hworking : ∀ p, (init names).pstate p = .working := fun p => by
    have hget := StringMap.get_foldl_insert p (fun _ => PState.working) names ∅
    unfold pstate init
    rw [Std.ExtTreeMap.getD_eq_getD_getElem?, hget]
    split
    · rfl
    · rfl
  have hopen : ¬ Committing (init names) := by
    rintro (h | h | ⟨p, h | h⟩)
    · simp [init] at h
    · simp [init] at h
    · cases (hworking p).symm.trans h
    · cases (hworking p).symm.trans h
  exact ⟨rfl, fun p v hv => absurd hv (by simp [init]), fun p _ _ => by simp [init],
    fun h => absurd h hopen, fun h => absurd h (by simp [init]),
    fun p hp => nomatch (hworking p).symm.trans hp⟩

theorem inv [Host] (hrun : Run (onLine step) (init names) es s)
    (hkept : ∀ e ∈ es, e.input.command ≠ "init") : Inv names (TimedOut es) s :=
  hrun.history_invariant (P := fun es s => Inv names (TimedOut es) s)
    (G := fun e => e.input.command ≠ "init") (inv_init names)
    (fun _ _ _ _ _ h hl hs => step_inv h hl hs) hkept

/-! ## What is answered -/

/-- `p-timeout` never blocks. -/
theorem timeout_not_blocked [Host] (hl : l.command = "p-timeout")
    (hs : onLine step s l = some (s', v)) : v.flagAt "blocked" ≠ some true := by
  obtain ⟨command, args⟩ := l
  obtain rfl : command = "p-timeout" := hl
  have hs : about s args (fun p => some (s.pTimeout p)) = some (s', v) := hs
  unfold about at hs
  rcases arg_eq_some.mp hs with ⟨hbad, -⟩ | ⟨p, -, hs⟩
  · obtain ⟨message, rfl⟩ := word_error hbad
    exact flagAt_err message "blocked"
  · split at hs
    · have hv : (s.pTimeout p).2 = v := congrArg Prod.snd (Option.some.inj hs)
      have hanswer : ∃ d reason, (s.pTimeout p).2 = answer d false reason := by
        unfold pTimeout
        split
        · exact ⟨_, _, rfl⟩
        · split
          · exact ⟨_, _, rfl⟩
          · exact ⟨_, _, rfl⟩
          · exact ⟨_, _, rfl⟩
      obtain ⟨d, reason, hanswer⟩ := hanswer
      rw [← hv, hanswer]
      exact fun h => nomatch Option.some.inj h
    · have hv : notAParticipant p = v := congrArg Prod.snd (Option.some.inj hs)
      rw [← hv]
      exact flagAt_err _ "blocked"

/-- What `decisions` calls inconsistent. -/
theorem inconsistent_of_decisions [Host] (hl : l.command = "decisions")
    (hs : onLine step s l = some (s', v)) (h : v.flagAt "inconsistent" = some true) :
    (∃ p ∈ s.participants, s.pstate p = .committed) ∧ ∃ p ∈ s.participants, s.pstate p = .aborted := by
  obtain ⟨command, args⟩ := l
  obtain rfl : command = "decisions" := hl
  have hv : s.decisions = v := congrArg Prod.snd (Option.some.inj hs)
  rw [← hv] at h
  have hboth := Option.some.inj h
  obtain ⟨hcommitted, haborted⟩ := (Bool.and_eq_true _ _).mp hboth
  obtain ⟨p, hp, hpc⟩ := List.any_eq_true.mp hcommitted
  obtain ⟨q, hq, hqa⟩ := List.any_eq_true.mp haborted
  exact ⟨⟨p, hp, beq_iff_eq.mp hpc⟩, ⟨q, hq, beq_iff_eq.mp hqa⟩⟩

/-- **Three-phase commit** diverges only where a timeout aborts a prepared participant. -/
theorem three_phase_diverges [Host] (hrun : Run (onLine step) (init names) es s)
    (hkept : ∀ e ∈ es, e.input.command ≠ "init") :
    (∀ p, s.pstate p = .committed → Unanimous names s) ∧
    (∀ e ∈ es, e.input.command = "p-timeout" → e.output.flagAt "blocked" ≠ some true) ∧
    ∀ es₁ e es₂, es = es₁ ++ e :: es₂ → e.input.command = "decisions" →
      e.output.flagAt "inconsistent" = some true →
      Unanimous names e.before ∧
        ∃ p ∈ names, e.before.pstate p = .aborted ∧ TimedOut es₁ p := by
  refine ⟨fun p hp => (inv hrun hkept).agreed (.inr (.inr ⟨p, .inr hp⟩)),
    fun e he hl => timeout_not_blocked hl (hrun.step_of_mem he), fun es₁ e es₂ hsplit hl h => ?_⟩
  have hbefore := inv (hrun.split hsplit) fun e he => hkept e (hsplit ▸ List.mem_append_left _ he)
  have he : e ∈ es := hsplit ▸ List.mem_append_right _ List.mem_cons_self
  obtain ⟨⟨p, -, hp⟩, q, hq, hqa⟩ := inconsistent_of_decisions hl (hrun.step_of_mem he) h
  have hyes := hbefore.agreed (.inr (.inr ⟨p, .inr hp⟩))
  exact ⟨hyes, q, hbefore.members ▸ hq, hqa,
    (hbefore.aborted q hqa).resolve_left (hbefore.not_refused hyes)⟩

/-! Three participants, one cut off from the pre-commit: it aborts by its timeout, the others commit. -/

@[reducible] def noJson : Host := hostOf [("[\"c\"]", .arr [.str "c"])]

def cutOffTimesOut : List Line :=
  [⟨"vote", ["a", "yes"]⟩, ⟨"vote", ["b", "yes"]⟩, ⟨"vote", ["c", "yes"]⟩,
    ⟨"partition", ["[\"c\"]"]⟩, ⟨"pre-commit", []⟩, ⟨"p-precommit", ["a"]⟩, ⟨"p-precommit", ["c"]⟩,
    ⟨"p-timeout", ["a"]⟩, ⟨"p-timeout", ["c"]⟩, ⟨"decisions", []⟩]

def keptLine (e : Event ThreePhase Line Value) : Bool := e.input.command != "init"

theorem three_phase_diverges_cut_off : ∃ es e s,
    Run (onLine (@step noJson)) (init ["a", "b", "c"]) (es ++ [e]) s ∧
    (es ++ [e]).map Event.input = cutOffTimesOut ∧
    e.output.flagAt "inconsistent" = some true ∧ TimedOut es "c" ∧ Unanimous ["a", "b", "c"] s := by
  let _ : Host := noJson
  obtain ⟨es, e, s, hrun, hinputs, hdecisions, hflag, hother, hcommitted, hall⟩ : ∃ es e s,
      Run (onLine step) (init ["a", "b", "c"]) (es ++ [e]) s ∧
      (es ++ [e]).map Event.input = cutOffTimesOut ∧ e.input.command = "decisions" ∧
      e.output.flagAt "inconsistent" = some true ∧
      (e.before.pstate "a" = .committed ∧ e.before.pstate "b" = .prepared) ∧
      s.pstate "a" = .committed ∧ (es ++ [e]).all keptLine = true :=
    ⟨[_, _, _, _, _, _, _, _, _], _, _, run_of_exec cutOffTimesOut rfl, rfl, rfl, rfl, ⟨rfl, rfl⟩, rfl,
      rfl⟩
  have h := three_phase_diverges hrun fun e he => bne_iff_ne.mp (List.all_eq_true.mp hall e he)
  obtain ⟨-, p, hp, haborted, htimed⟩ := h.2.2 es e [] rfl hdecisions hflag
  refine ⟨es, e, s, hrun, hinputs, hflag, ?_, h.1 "a" hcommitted⟩
  rcases List.mem_cons.mp hp with rfl | hp
  · rw [hother.1] at haborted
    cases haborted
  · rcases List.mem_cons.mp hp with rfl | hp
    · rw [hother.2] at haborted
      cases haborted
    · rw [List.mem_singleton.mp hp] at htimed
      exact htimed

end BuildYourOwn.Commit.ThreePhase
