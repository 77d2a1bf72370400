import BuildYourOwn.Raft.Commitment
import BuildYourOwn.Raft.LogReplication

/-!
# Catching a follower up

The two halves of AppendEntries together: a `Commitment` leader probes one `LogReplication`
follower at `nextIndex - 1` with everything from `nextIndex` on, and on a refusal moves `nextIndex`
to the conflict index it was answered with (`catchUp`, which also lists the values of `nextIndex`
it tried).

Each refusal moves `nextIndex` down: past the end of a log that is too short, and from there to the
start of the run of equal terms that conflicts. `probes f next` counts what is left: the runs of the
follower's log that start below the probe, and one more for a probe past its end.

**`catch_up`**: from any `nextIndex` in range the loop ends with an accepted append, after at most
`runs f.log + 1` refusals, `nextIndex` strictly decreasing, and the leader's log is then a prefix of
the follower's.
-/

namespace BuildYourOwn.Raft

open Lib Topic

/-- `append T (next-1) (term of L at next-1) commit L[next..]` on the follower. -/
def sendFrom (l : Commitment) (commit next : Int) (f : LogReplication) : LogReplication × Value :=
  f.append l.term (next - 1) ((l.termAt (next - 1)).getD 0) commit (l.log.drop (next - 1).toNat)

/-- Probe, and on a refusal `reject` with the answered conflict index and probe again. The result
lists `nextIndex` at each probe, the last of which was accepted; `none` when `fuel` probes were not
enough. -/
def catchUp (peer : String) (commit : Int) :
    Nat → Commitment → LogReplication → Option (List Int × Commitment × LogReplication)
  | 0, _, _ => none
  | fuel + 1, l, f =>
    let next := l.nextIndex.getD peer 1
    let r := sendFrom l commit next f
    if r.2.flagAt "success" = some true then some ([next], l, r.1)
    else
      match r.2.numAt "conflict_index" with
      | none => none
      | some conflict =>
        match catchUp peer commit fuel (l.reject peer conflict).1 r.1 with
        | some (tried, l', f') => some (next :: tried, l', f')
        | none => none

/-- How many more refusals a probe at `next` can meet. -/
def probes (log : List Int) (next : Int) : Nat :=
  runsBelow log (min (next - 1).toNat log.length) + if (log.length : Int) < next - 1 then 1 else 0

theorem probes_le (log : List Int) (next : Int) : probes log next ≤ runs log + 1 := by
  have h := runsBelow_mono log (Nat.min_le_right (next - 1).toNat log.length)
  unfold probes runs
  split <;> omega

variable {l : Commitment} {f f' : LogReplication} {v : Value} {commit next : Int}

/-- **An accepted probe leaves the leader's log in place.** -/
theorem sendFrom_accepted (hmatch : LogMatching f.log l.log) (h1 : 1 ≤ next)
    (hle : next ≤ l.lastIndex + 1) (h : sendFrom l commit next f = (f', v))
    (hv : v.flagAt "success" = some true) : l.log <+: f'.log := by
  unfold sendFrom at h
  rcases LogReplication.append_cases h with ⟨hno, -⟩ | ⟨-, h0, hlast, hanchor, -, -, hlog⟩
  · exact absurd hv hno
  have hi : (next - 1).toNat ≤ f.log.length := by
    unfold LogReplication.lastIndex at hlast
    omega
  have ha : Anchored f.log l.log (next - 1).toNat := by
    by_cases hz : next = 1
    · exact .inl (by omega)
    · obtain ⟨k, hk⟩ : ∃ k : Nat, next - 1 = (k : Int) + 1 := ⟨(next - 2).toNat, by omega⟩
      have hk' : k < l.log.length := by
        unfold Commitment.lastIndex at hle
        omega
      have hpos : (next - 1).toNat - 1 = k := by omega
      have hterm := hanchor (by omega)
      rw [hk, Commitment.termAt_succ, LogReplication.termAt_succ, List.getElem?_eq_getElem hk',
        Option.getD_some] at hterm
      refine .inr ⟨l.log[k], ?_, ?_⟩
      · rw [hpos]
        exact hterm
      · rw [hpos]
        exact List.getElem?_eq_getElem hk'
  have hpre := graft_initial hi (l.log.drop (next - 1).toNat)
  rwa [hmatch.take_eq ha, List.take_append_drop, ← hlog] at hpre

/-- **A refused probe moves `nextIndex` down**, to a probe with fewer refusals left. -/
theorem sendFrom_refused (hterm : f.term ≤ l.term) (h1 : 1 ≤ next)
    (h : sendFrom l commit next f = (f', v)) (hv : v.flagAt "success" ≠ some true) :
    ∃ conflict, v.numAt "conflict_index" = some conflict ∧ f' = { f with term := l.term } ∧
      1 ≤ conflict ∧ conflict < next ∧ probes f.log conflict < probes f.log next := by
  obtain ⟨conflict, hc, rfl, hwhy⟩ := LogReplication.append_refused (by omega) hterm h hv
  refine ⟨conflict, hc, rfl, ?_⟩
  unfold probes
  rcases hwhy with ⟨hlast, rfl⟩ | ⟨hle, hc1, hcle, hstart⟩
  · unfold LogReplication.lastIndex at hlast ⊢
    have hmin : min (next - 1).toNat f.log.length = f.log.length := by omega
    have hmin' : min ((f.log.length : Int) + 1 - 1).toNat f.log.length = f.log.length := by omega
    rw [hmin, hmin', if_pos hlast, if_neg (by omega)]
    exact ⟨by omega, by omega, by omega⟩
  · unfold LogReplication.lastIndex at hle
    have hmin : min (next - 1).toNat f.log.length = (next - 1).toNat := by omega
    have hmin' : min (conflict - 1).toNat f.log.length = (conflict - 1).toNat := by omega
    rw [hmin, hmin', if_neg (by omega), if_neg (by omega)]
    refine ⟨hc1, by omega, ?_⟩
    have := runsBelow_lt hstart (show (conflict - 1).toNat < (next - 1).toNat by omega)
    omega

theorem catchUp_spec (peer : String) (commit : Int) : ∀ (fuel : Nat) (l : Commitment)
    (f : LogReplication) (next : Int), l.nextIndex[peer]? = some next → 1 ≤ next → next ≤ l.lastIndex + 1 →
    LogMatching f.log l.log → f.term ≤ l.term → probes f.log next < fuel →
    ∃ tried l' f', catchUp peer commit fuel l f = some (next :: tried, l', f') ∧
      (next :: tried).Pairwise (· > ·) ∧ tried.length ≤ probes f.log next ∧ l.log <+: f'.log
  | 0, l, f, next, _, _, _, _, _, hfuel => absurd hfuel (Nat.not_lt_zero _)
  | fuel + 1, l, f, next, hpeer, h1, hle, hmatch, hterm, hfuel => by
    have hnext : l.nextIndex.getD peer 1 = next := by
      rw [Std.ExtTreeMap.getD_eq_getD_getElem?, hpeer]
      rfl
    unfold catchUp
    simp only [hnext]
    obtain ⟨f', v, hsend⟩ : ∃ f' v, sendFrom l commit next f = (f', v) := ⟨_, _, rfl⟩
    rw [hsend]
    by_cases hv : v.flagAt "success" = some true
    · rw [if_pos hv]
      exact ⟨[], l, f', rfl, List.pairwise_singleton _ _, Nat.zero_le _,
        sendFrom_accepted hmatch h1 hle hsend hv⟩
    · rw [if_neg hv]
      obtain ⟨conflict, hc, rfl, hc1, hclt, hprobes⟩ := sendFrom_refused hterm h1 hsend hv
      simp only [hc]
      rw [Commitment.reject_of_mem hpeer, Int.max_eq_left hc1]
      -- the next probe is at the conflict index, of the same log
      obtain ⟨tried, l', f', hrec, hdec, hlen, hpre⟩ := catchUp_spec peer commit fuel
        { l with nextIndex := l.nextIndex.insert peer conflict } { f with term := l.term } conflict
        (StringMap.get_insert_self ..) hc1
        (show conflict ≤ l.lastIndex + 1 by omega) hmatch (Int.le_refl l.term)
        (show probes f.log conflict < fuel by omega)
      simp only [hrec]
      refine ⟨conflict :: tried, l', f', rfl, ?_, ?_, hpre⟩
      · refine List.pairwise_cons.mpr ⟨fun n hn => ?_, hdec⟩
        rcases List.mem_cons.mp hn with rfl | hn
        · exact hclt
        · exact Int.lt_trans ((List.pairwise_cons.mp hdec).1 n hn) hclt
      · simp only [List.length_cons] at hlen ⊢
        omega

/-- **Catch-up terminates and converges.** From every leader and every follower whose log matches
the leader's and whose term is not past the leader's, and every `nextIndex` between 1 and one past
the leader's log: the loop ends with an accepted append, `nextIndex` decreased strictly on every
refusal (`tried` lists it after each), there were at most `runs f.log + 1` refusals, and the
leader's log is a prefix of the follower's. -/
theorem catch_up {peer : String} {fuel : Nat} (hpeer : l.nextIndex[peer]? = some next)
    (h1 : 1 ≤ next) (hle : next ≤ l.lastIndex + 1) (hmatch : LogMatching f.log l.log)
    (hterm : f.term ≤ l.term) (hfuel : runs f.log + 2 ≤ fuel) :
    ∃ tried l' f', catchUp peer commit fuel l f = some (next :: tried, l', f') ∧
      (next :: tried).Pairwise (· > ·) ∧ tried.length ≤ runs f.log + 1 ∧ l.log <+: f'.log := by
  have hprobes := probes_le f.log next
  obtain ⟨tried, l', f', hrun, hdec, hlen, hpre⟩ :=
    catchUp_spec peer commit fuel l f next hpeer h1 hle hmatch hterm (by omega)
  exact ⟨tried, l', f', hrun, hdec, by omega, hpre⟩

/-- A leader of term 3 whose log is `1 1 3`, about to probe a follower that holds `1 2 2`. -/
def aheadLeader : Commitment := Commitment.init 3 3 [1, 1, 3]

def strayFollower : LogReplication where
  term := 2
  log := [1, 2, 2]
  commitIndex := 1

theorem strayFollower_matches : LogMatching strayFollower.log aheadLeader.log := by
  intro i x hf hl
  rcases i with _ | _ | _ | i
  · rfl
  all_goals simp_all [strayFollower, aheadLeader, Commitment.init]
  all_goals omega

theorem catch_up_stray : ∃ tried l' f',
    catchUp "s2" 1 5 aheadLeader strayFollower = some (4 :: tried, l', f') ∧
      (4 :: tried).Pairwise (· > ·) ∧ tried.length ≤ runs strayFollower.log + 1 ∧
      aheadLeader.log <+: f'.log :=
  catch_up (by decide) (by decide) (by decide) strayFollower_matches (by decide) (by decide)

end BuildYourOwn.Raft
