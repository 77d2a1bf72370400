import BuildYourOwn.Patterns.Compensation
import BuildYourOwn.Patterns.Saga

/-!
# One command or many

A saga that goes forward has done some steps (`going`); one that goes back has undone some of them
(`back`). The steps before the failure are compensated one by one until a name comes up that has already
been undone. The retry rule takes it for a repeat, so it stays at the head of `pending` and nothing can
be compensated any more (`Stuck`).

`run` and the same commands sent one at a time go through the same states. A compensation that fails, or
one that is sent again, changes nothing wherever it comes (`Noisy`).

**`saga_runs`**: the commands sent one at a time always end where `run` ends, and that is the committed
or the compensated saga exactly when no two of the steps to compensate have one name.
-/

namespace BuildYourOwn.Patterns.Saga

open Lib Topic
open Choreo (words did undid)

variable {s s' t : Saga} {v : Value} {x y : String} {ok : Bool} {k : Nat}
  {names ran rest done left l l' : List String}

/-! ## The states of a saga -/

/-- Some steps done, the others still to run. -/
def going (ran rest : List String) : Saga where
  names := ran ++ rest
  completed := ran
  pending := []
  undone := ∅
  ledger := ran.map did
  phase := if rest = [] then .done else .forward
  outcome := if rest = [] then .committed else .running

/-- A step has failed, some of those before it are undone, the others are still to be undone. -/
def back (ran rest done left : List String) : Saga where
  names := ran ++ rest
  completed := ran
  pending := left
  undone := StringSet.extend ∅ done
  ledger := ran.map did ++ done.map undid
  phase := if left = [] then .done else .compensating
  outcome := if left = [] then .compensated else .running

/-- What `init` leaves. -/
def started (names : List String) : Saga := { new with names := names }

theorem started_eq (h : names ≠ []) : started names = going [] names := by
  unfold going
  rw [if_neg h, if_neg h]
  rfl

theorem reset_eq (h : s.names = names) : s.reset = started names := by
  unfold reset started
  rw [h]

theorem mem_undone : x ∈ (back ran rest done left).undone ↔ x ∈ done := by
  show x ∈ StringSet.extend ∅ done ↔ x ∈ done
  rw [StringSet.mem_extend]
  simp

/-- The head of `pending` has been undone, so nothing else can be. -/
def Stuck (s : Saga) : Prop := ∃ x rest, s.pending = x :: rest ∧ x ∈ s.undone

/-- What can be undone, and what is left when the next one has been undone already. -/
def unwind (done : List String) : List String → List String × List String
  | [] => (done, [])
  | x :: left => if x ∈ done then (done, x :: left) else unwind (done ++ [x]) left

theorem unwind_cons_of_mem (h : x ∈ done) : unwind done (x :: left) = (done, x :: left) := if_pos h

theorem unwind_cons_of_notMem (h : x ∉ done) : unwind done (x :: left) = unwind (done ++ [x]) left :=
  if_neg h

theorem unwind_append (done left : List String) : (unwind done left).1 ++ (unwind done left).2 = done ++ left := by
  induction left generalizing done with
  | nil => rfl
  | cons x left ih =>
    by_cases h : x ∈ done
    · rw [unwind_cons_of_mem h]
    · rw [unwind_cons_of_notMem h, ih, List.append_assoc, List.singleton_append]

theorem unwind_nodup (h : done.Nodup) : (unwind done left).1.Nodup := by
  induction left generalizing done with
  | nil => exact h
  | cons x left ih =>
    by_cases hx : x ∈ done
    · rwa [unwind_cons_of_mem hx]
    · rw [unwind_cons_of_notMem hx]
      exact ih (List.nodup_append.mpr ⟨h, List.nodup_singleton x, fun a ha b hb => by
        rw [List.mem_singleton.mp hb]
        exact fun he => hx (he ▸ ha)⟩)

theorem unwind_stops (h : (unwind done left).2 = y :: l) : y ∈ (unwind done left).1 := by
  induction left generalizing done with
  | nil => simp [unwind] at h
  | cons x left ih =>
    by_cases hx : x ∈ done
    · rw [unwind_cons_of_mem hx] at h ⊢
      exact (List.cons.inj h).1 ▸ hx
    · rw [unwind_cons_of_notMem hx] at h ⊢
      exact ih h

/-- **Everything is undone** exactly when no name comes twice. -/
theorem unwind_snd_eq_nil (h : done.Nodup) : (unwind done left).2 = [] ↔ (done ++ left).Nodup := by
  rw [← unwind_append]
  constructor
  · intro hnil
    rw [hnil, List.append_nil]
    exact unwind_nodup h
  · intro hnodup
    cases hleft : (unwind done left).2 with
    | nil => rfl
    | cons y l =>
      rw [hleft] at hnodup
      exact absurd rfl ((List.nodup_append.mp hnodup).2.2 y (unwind_stops hleft) y List.mem_cons_self)

/-- Where `run` ends when a step fails. -/
def unwound (ran rest : List String) : Saga :=
  back ran rest (unwind [] ran.reverse).1 (unwind [] ran.reverse).2

/-- Every step to compensate has been undone, or one of its name has. -/
def Unwinds (ran : List String) : Prop :=
  ∀ x ∈ (unwind [] ran.reverse).2, x ∈ (unwind [] ran.reverse).1

theorem unwind_left_iff (h : done.Nodup) : (∀ x ∈ (unwind done left).2, x ∈ (unwind done left).1) ↔
      ∃ l l', left = l ++ l' ∧ (done ++ l).Nodup ∧ ∀ x ∈ l', x ∈ done ++ l := by
  induction left generalizing done with
  | nil =>
    refine iff_of_true (List.forall_mem_nil _) ⟨[], [], rfl, ?_, fun x hx => ?_⟩
    · rwa [List.append_nil]
    · cases hx
  | cons x left ih =>
    by_cases hx : x ∈ done
    · rw [unwind_cons_of_mem hx]
      constructor
      · exact fun hall => ⟨[], x :: left, rfl, by rwa [List.append_nil], by rwa [List.append_nil]⟩
      · rintro ⟨l, l', hsplit, hnodup, hall⟩
        cases l with
        | nil =>
          rw [List.nil_append] at hsplit
          rwa [← hsplit, List.append_nil] at hall
        | cons y l =>
          obtain ⟨rfl, -⟩ := List.cons.inj hsplit
          exact absurd rfl ((List.nodup_append.mp hnodup).2.2 x hx x List.mem_cons_self)
    · have hnodup : (done ++ [x]).Nodup := List.nodup_append.mpr ⟨h, List.nodup_singleton x,
        fun a ha b hb he => hx (by rwa [← List.mem_singleton.mp hb, ← he])⟩
      rw [unwind_cons_of_notMem hx, ih hnodup]
      constructor
      · rintro ⟨l, l', rfl, hl, hall⟩
        rw [List.append_assoc, List.singleton_append] at hl hall
        exact ⟨x :: l, l', rfl, hl, hall⟩
      · rintro ⟨l, l', hsplit, hl, hall⟩
        cases l with
        | nil =>
          rw [List.nil_append] at hsplit
          rw [List.append_nil, ← hsplit] at hall
          exact absurd (hall x List.mem_cons_self) hx
        | cons y l =>
          obtain ⟨rfl, rfl⟩ := List.cons.inj hsplit
          refine ⟨l, l', rfl, ?_, ?_⟩
          · rwa [List.append_assoc, List.singleton_append]
          · rwa [List.append_assoc, List.singleton_append]

theorem unwinds_iff : Unwinds ran ↔ ∃ done left, ran.reverse = done ++ left ∧ done.Nodup ∧ ∀ x ∈ left, x ∈ done :=
  unwind_left_iff List.nodup_nil

section

variable [Host]

/-! ## Steps and compensations -/

theorem doStep_ok : (going ran (x :: rest)).doStep x true = .ok (going (ran ++ [x]) rest) := by
  have hget : (ran ++ x :: rest)[ran.length]? = some x := by simp
  unfold doStep
  rw [if_neg (by simp [going])]
  simp only [going, hget, ne_eq, not_true_eq_false, if_false, if_true]
  cases rest with
  | nil => simp [did]
  | cons y rest => simp [did]

theorem doStep_fail : (going ran (x :: rest)).doStep x false = .ok (back ran (x :: rest) [] ran.reverse) := by
  have hget : (ran ++ x :: rest)[ran.length]? = some x := by simp
  unfold doStep
  rw [if_neg (by simp [going])]
  simp only [going, back, hget, ne_eq, not_true_eq_false, if_false, Bool.false_eq_true,
    List.cons_ne_nil]
  split
  · simp [StringSet.extend, *]
  · simp [StringSet.extend, *]

/-- **A compensation that succeeds.** -/
theorem doComp_ok (h : x ∉ done) : (back ran rest done (x :: left)).doComp x true =
    .ok (back ran rest (done ++ [x]) left) := by
  unfold doComp
  rw [if_neg (mt mem_undone.mp h), if_neg (by simp [back])]
  simp only [back, ne_eq, not_true_eq_false, if_false, if_true, List.cons_ne_nil]
  split
  · simp [StringSet.extend, undid, *]
  · simp [StringSet.extend, undid, *]

/-- The state after a command that may have been refused. -/
def next (s : Saga) (e : Except Value Saga) : Saga := (s.answered e stepped).1

theorem next_doComp_undone (h : x ∈ s.undone) : s.next (s.doComp x ok) = s := by
  unfold doComp
  rw [if_pos h]
  rfl

theorem next_doComp_fail (s : Saga) (x : String) : s.next (s.doComp x false) = s := by
  unfold doComp
  split
  · rfl
  · split
    · rfl
    · split
      · rfl
      · split
        · rfl
        · rfl

theorem Stuck.next_doComp (h : Stuck s) (x : String) (ok : Bool) : s.next (s.doComp x ok) = s := by
  obtain ⟨head, rest, hpending, hhead⟩ := h
  unfold doComp
  split
  · rfl
  · rename_i hx
    split
    · rfl
    · have hne : head ≠ x := fun he => hx (he ▸ hhead)
      rw [hpending]
      dsimp only
      rw [if_pos hne]
      rfl

/-! ## Going back -/

omit [Host] in
theorem stuck_back (h : x ∈ done) : Stuck (back ran rest done (x :: left)) :=
  ⟨x, left, rfl, mem_undone.mpr h⟩

/-- The second loop of `run` in a stuck saga passes over what has been undone. -/
theorem Stuck.runComps (h : Stuck s) (l : List String) :
    (s.runComps l).1 = s ∧ ((s.runComps l).2 = none ↔ ∀ x ∈ l, x ∈ s.undone) := by
  induction l with
  | nil => exact ⟨rfl, fun _ _ hx => absurd hx List.not_mem_nil, fun _ => rfl⟩
  | cons x l ih =>
    unfold Saga.runComps
    by_cases hx : x ∈ s.undone
    · have hdo : s.doComp x true = .ok s := if_pos hx
      rw [hdo, List.forall_mem_cons]
      exact ⟨ih.1, ih.2.trans ⟨fun hl => ⟨hx, hl⟩, fun hl => hl.2⟩⟩
    · obtain ⟨head, rest, hpending, hhead⟩ := h
      have hne : head ≠ x := fun he => hx (he ▸ hhead)
      obtain ⟨e, hdo⟩ : ∃ e, s.doComp x true = .error e := by
        unfold doComp
        rw [if_neg hx, hpending]
        split
        · exact ⟨_, rfl⟩
        · exact ⟨_, if_pos hne⟩
      rw [hdo]
      exact ⟨rfl, nofun, fun hl => absurd (hl x List.mem_cons_self) hx⟩

/-- **The second loop of `run`**: it undoes what can be undone, and it ends in an error exactly when
one of the names that are left has not been undone. -/
theorem runComps_back : ((back ran rest done left).runComps left).1 =
      back ran rest (unwind done left).1 (unwind done left).2 ∧
    (((back ran rest done left).runComps left).2 = none ↔ ∀ x ∈ (unwind done left).2, x ∈ (unwind done left).1) := by
  induction left generalizing done with
  | nil => exact ⟨rfl, fun _ _ hx => absurd hx List.not_mem_nil, fun _ => rfl⟩
  | cons x left ih =>
    by_cases h : x ∈ done
    · have hstuck : Stuck (back ran rest done (x :: left)) := stuck_back h
      obtain ⟨hstate, herror⟩ := hstuck.runComps (x :: left)
      simp only [mem_undone] at herror
      rw [unwind_cons_of_mem h]
      exact ⟨hstate, herror⟩
    · unfold Saga.runComps
      rw [doComp_ok h, unwind_cons_of_notMem h]
      exact ih

/-! ## Going forward -/

theorem runSteps_cons (hk : ran.length + 1 ≠ k) : (going ran (x :: rest)).runSteps k ran.length (x :: rest) =
      (going (ran ++ [x]) rest).runSteps k (ran ++ [x]).length rest := by
  have hok : decide (k = 0 ∨ ran.length + 1 ≠ k) = true := decide_eq_true (.inr hk)
  rw [runSteps, hok, List.length_append, List.length_singleton, doStep_ok]
  rfl

/-- The first loop of `run`, where no step fails. -/
theorem runSteps_ok (rest : List String) (ran : List String) :
    (going ran rest).runSteps 0 ran.length rest = (going (ran ++ rest) [], none) := by
  induction rest generalizing ran with
  | nil => simp [runSteps]
  | cons x rest ih =>
    rw [runSteps_cons (Nat.succ_ne_zero _), ih, List.append_assoc, List.singleton_append]

/-- The first loop of `run`, where a step fails. -/
theorem runSteps_fail (hk : ran.length + l.length + 1 = k) :
    (going ran (l ++ x :: rest)).runSteps k ran.length (l ++ x :: rest) =
      (back (ran ++ l) (x :: rest) [] (ran ++ l).reverse, none) := by
  induction l generalizing ran with
  | nil =>
    have hok : decide (k = 0 ∨ ran.length + 1 ≠ k) = false := by
      rw [List.length_nil] at hk
      exact decide_eq_false (by omega)
    rw [List.nil_append, List.append_nil, runSteps, hok, doStep_fail]
    rfl
  | cons y l ih =>
    rw [List.length_cons] at hk
    rw [List.cons_append, runSteps_cons (by omega), ih, List.append_assoc, List.singleton_append]
    rw [List.length_append, List.length_singleton]
    omega

/-- **`run` with no failure.** -/
theorem run_ok (hs : s.names = names) (hne : names ≠ []) : s.run 0 = (going names [], (going names []).ran) := by
  have hsteps : s.reset.runSteps 0 0 s.names = (going names [], none) := by
    rw [hs, reset_eq hs, started_eq hne]
    exact runSteps_ok names []
  unfold run
  rw [if_neg (Nat.not_lt_zero _), hsteps]
  rfl

theorem doComp_error {e : Value} (h : s.doComp x ok = .error e) : ∃ message, e = err message := by
  unfold doComp at h
  split at h
  · cases h
  · split at h
    · exact ⟨_, (Except.error.inj h).symm⟩
    · split at h
      · exact ⟨_, (Except.error.inj h).symm⟩
      · split at h
        · exact ⟨_, (Except.error.inj h).symm⟩
        · split at h
          · dsimp only at h
            split at h
            · cases h
            · cases h
          · cases h

theorem runComps_error {e : Value} (h : (s.runComps l).2 = some e) : ∃ message, e = err message := by
  induction l generalizing s with
  | nil => simp [runComps] at h
  | cons x l ih =>
    unfold runComps at h
    split at h
    · rename_i hdo
      exact Option.some.inj h ▸ doComp_error hdo
    · exact ih h

/-- **`run` with a failure.** -/
theorem run_fail (hs : s.names = ran ++ x :: rest) (hk : ran.length + 1 = k) : (s.run k).1 = unwound ran (x :: rest) ∧
    (Unwinds ran → (s.run k).2 = (unwound ran (x :: rest)).ran) ∧
    (¬ Unwinds ran → ∃ message, (s.run k).2 = err message) := by
  have hle : ¬ s.names.length < k := by
    rw [hs, List.length_append, List.length_cons]
    omega
  have hsteps : s.reset.runSteps k 0 s.names = (back ran (x :: rest) [] ran.reverse, none) := by
    rw [hs, reset_eq hs, started_eq (by simp)]
    have hlen : ([] : List String).length + ran.length + 1 = k := by simpa using hk
    exact runSteps_fail hlen
  have hback : ((back ran (x :: rest) [] ran.reverse).runComps ran.reverse).1 = _ ∧ _ := runComps_back
  obtain ⟨hstate, herror⟩ := hback
  have hpending : (back ran (x :: rest) [] ran.reverse).pending = ran.reverse := rfl
  unfold run
  rw [if_neg hle, hsteps]
  dsimp only
  rw [hpending]
  rcases hcomps : (back ran (x :: rest) [] ran.reverse).runComps ran.reverse with ⟨s₂, e⟩
  rw [hcomps] at hstate herror
  cases e with
  | none =>
    obtain rfl : s₂ = unwound ran (x :: rest) := hstate
    exact ⟨rfl, fun _ => rfl, fun hn => absurd (herror.mp rfl) hn⟩
  | some e =>
    refine ⟨hstate, fun hall => absurd (herror.mpr hall) (by simp), fun _ => ?_⟩
    exact runComps_error (congrArg Prod.snd hcomps)

/-! ## One command at a time -/

def after (s : Saga) (l : Line) : Saga := ((onLine step s l).map Prod.fst).getD s

def stepLine (ok : Bool) (x : String) : Line := ⟨"step", [x, if ok = true then "ok" else "fail"]⟩

/-- The command that compensates a step. -/
def compLine (ok : Bool) (x : String) : Line := ⟨"compensate", [x, if ok = true then "ok" else "fail"]⟩

theorem after_step (s : Saga) (ok : Bool) (x : String) : after s (stepLine ok x) = s.next (s.doStep x ok) := by
  cases ok with
  | true => rfl
  | false => rfl

theorem after_comp (s : Saga) (ok : Bool) (x : String) : after s (compLine ok x) = s.next (s.doComp x ok) := by
  cases ok with
  | true =>
    show (s.answered (s.doComp x true) compensated).1 = s.next (s.doComp x true)
    cases s.doComp x true with
    | ok s' => rfl
    | error e => rfl
  | false =>
    show (s.answered (s.doComp x false) compensated).1 = s.next (s.doComp x false)
    cases s.doComp x false with
    | ok s' => rfl
    | error e => rfl

theorem step_total (s : Saga) (l : Line) : ∃ s' v, onLine step s l = some (s', v) := by
  unfold onLine step
  split
  · refine arg_total (fun names => ?_) s
    split
    · exact ⟨_, _, rfl⟩
    · exact ⟨_, _, rfl⟩
  · exact arg_total (fun _ => arg_total (fun _ => ⟨_, _, rfl⟩) s) s
  · exact arg_total (fun _ => arg_total (fun _ => ⟨_, _, rfl⟩) s) s
  · exact arg_total (fun _ => ⟨_, _, rfl⟩) s
  · exact ⟨_, _, rfl⟩
  · exact ⟨_, _, rfl⟩
  · exact ⟨_, _, rfl⟩

/-- The commands of a saga whose step `k` fails, or none when `k` is zero. -/
def plan (names : List String) (k : Nat) : List Line :=
  if k = 0 then names.map (stepLine true)
  else
    (names.take (k - 1)).map (stepLine true) ++ (names[k - 1]?).toList.map (stepLine false) ++
      (names.take (k - 1)).reverse.map (compLine true)

inductive Noisy : List Line → List Line → List Line → Prop
  | nil (sent : List Line) : Noisy sent [] []
  | next {sent plan ls : List Line} {l : Line} (h : Noisy (sent ++ [l]) plan ls) :
      Noisy sent (l :: plan) (l :: ls)
  | failed {sent plan ls : List Line} (x : String) (h : Noisy sent plan ls) :
      Noisy sent plan (compLine false x :: ls)
  | repeated {sent plan ls : List Line} (x : String) (hx : compLine true x ∈ sent)
      (h : Noisy sent plan ls) : Noisy sent plan (compLine true x :: ls)

/-- **Noise changes nothing**, as long as no compensation does that has been sent. -/
theorem Noisy.foldl {sent lines ls : List Line} (h : Noisy sent lines ls)
    (hsent : ∀ p q, lines = p ++ q → ∀ x, compLine true x ∈ sent ++ p →
      after (p.foldl after s) (compLine true x) = p.foldl after s) : ls.foldl after s = lines.foldl after s := by
  induction h generalizing s with
  | nil => rfl
  | @next sent lines ls l _ ih =>
    refine ih (s := after s l) fun p q hpq x hx => ?_
    exact hsent (l :: p) q (by rw [hpq, List.cons_append]) x (by simpa using hx)
  | failed x _ ih =>
    rw [List.foldl_cons, after_comp, next_doComp_fail]
    exact ih hsent
  | repeated x hx _ ih =>
    have hsame : after s (compLine true x) = s :=
      hsent [] _ rfl x (List.mem_append_left _ hx)
    rw [List.foldl_cons, hsame]
    exact ih hsent

theorem foldl_steps : (l.map (stepLine true)).foldl after (going ran (l ++ rest)) = going (ran ++ l) rest := by
  induction l generalizing ran with
  | nil => simp
  | cons x l ih =>
    rw [List.map_cons, List.foldl_cons, after_step, List.cons_append, doStep_ok]
    show (l.map (stepLine true)).foldl after (going (ran ++ [x]) (l ++ rest)) = _
    rw [ih, List.append_assoc, List.singleton_append]

theorem Stuck.after_comp (h : Stuck s) (x : String) (ok : Bool) :
    after s (compLine ok x) = s := (Saga.after_comp s ok x).trans (h.next_doComp x ok)

theorem Stuck.foldl (h : Stuck s) (l : List String) : (l.map (compLine true)).foldl after s = s := by
  induction l with
  | nil => rfl
  | cons x l ih => rw [List.map_cons, List.foldl_cons, h.after_comp, ih]

/-- **Compensations one at a time** undo what can be undone. -/
theorem foldl_comps : (l.map (compLine true)).foldl after (back ran rest done (l ++ left)) =
    back ran rest (unwind done l).1 ((unwind done l).2 ++ left) := by
  induction l generalizing done with
  | nil => rfl
  | cons x l ih =>
    by_cases h : x ∈ done
    · rw [unwind_cons_of_mem h, List.cons_append]
      exact (stuck_back h).foldl (x :: l)
    · rw [unwind_cons_of_notMem h, List.map_cons, List.foldl_cons, Saga.after_comp, List.cons_append,
        doComp_ok h]
      exact ih

theorem after_comp_again (hx : x ∈ l) :
    after (back ran rest (unwind [] l).1 ((unwind [] l).2 ++ left)) (compLine true x) =
      back ran rest (unwind [] l).1 ((unwind [] l).2 ++ left) := by
  have hmem : x ∈ (unwind [] l).1 ++ (unwind [] l).2 := by
    rw [unwind_append]
    exact hx
  rcases hleft : (unwind [] l).2 with _ | ⟨y, rest'⟩
  · rw [hleft, List.append_nil] at hmem
    rw [Saga.after_comp, next_doComp_undone (mem_undone.mpr hmem)]
  · exact (stuck_back (unwind_stops hleft)).after_comp x true

omit [Host] in
theorem compLine_notMem (l : List String) (ok : Bool) : compLine true x ∉ l.map (stepLine ok) := by
  intro h
  obtain ⟨y, -, hy⟩ := List.mem_map.mp h
  exact absurd (congrArg Line.command hy) (by simp [stepLine, compLine])

theorem foldl_forward (hnames : names = ran ++ x :: rest) :
    (ran.map (stepLine true) ++ [stepLine false x]).foldl after (started names) =
      back ran (x :: rest) [] ran.reverse := by
  rw [hnames, started_eq (by simp), List.foldl_append, foldl_steps, List.nil_append, List.foldl_cons,
    List.foldl_nil, after_step, doStep_fail]
  rfl

variable {ls : List Line}

/-- **The plan with noise in between, where a step fails.** -/
theorem foldl_plan_fail (hnames : names = ran ++ x :: rest) (h : Noisy [] (plan names (ran.length + 1)) ls) :
    ls.foldl after (started names) = unwound ran (x :: rest) := by
  have hplan : plan names (ran.length + 1) =
      (ran.map (stepLine true) ++ [stepLine false x]) ++ ran.reverse.map (compLine true) := by
    have hget : (ran ++ x :: rest)[ran.length]? = some x := by simp
    unfold plan
    rw [if_neg (Nat.succ_ne_zero _), Nat.add_sub_cancel, hnames, List.take_left', hget]
    · rfl
    · rfl
  have hcomps : ∀ w left : List String, ran.reverse = w ++ left →
      ((ran.map (stepLine true) ++ [stepLine false x]) ++ w.map (compLine true)).foldl after
        (started names) = back ran (x :: rest) (unwind [] w).1 ((unwind [] w).2 ++ left) := by
    intro w left hw
    rw [List.foldl_append, foldl_forward hnames, hw, foldl_comps]
  rw [hplan] at h
  rw [h.foldl, hcomps ran.reverse [] (List.append_nil _).symm, List.append_nil]
  · rfl
  · intro p q hpq y hy
    rw [List.nil_append] at hy
    rcases List.append_eq_append_iff.mp hpq with ⟨c, hp, hq⟩ | ⟨c, hp, hq⟩
    · obtain ⟨w, left, hw, rfl, -⟩ := List.map_eq_append_iff.mp hq
      rw [hp] at hy ⊢
      rw [hcomps w left hw]
      refine after_comp_again ?_
      rcases List.mem_append.mp hy with hy | hy
      · rcases List.mem_append.mp hy with hy | hy
        · exact absurd hy (compLine_notMem ran true)
        · exact absurd (List.mem_singleton.mp hy) (by simp [stepLine, compLine])
      · obtain ⟨z, hz, he⟩ := List.mem_map.mp hy
        have hzy : z = y := by simpa [compLine] using he
        exact hzy ▸ hz
    · have hmem : compLine true y ∈ ran.map (stepLine true) ++ [stepLine false x] :=
        hp ▸ List.mem_append_left c hy
      rcases List.mem_append.mp hmem with hy | hy
      · exact absurd hy (compLine_notMem ran true)
      · exact absurd (List.mem_singleton.mp hy) (by simp [stepLine, compLine])

/-- **The plan with noise in between, where no step fails.** -/
theorem foldl_plan_ok (hne : names ≠ []) (h : Noisy [] (plan names 0) ls) :
    ls.foldl after (started names) = going names [] := by
  have hplan : plan names 0 = names.map (stepLine true) := if_pos rfl
  rw [hplan] at h
  rw [h.foldl, started_eq hne]
  · have hsteps : (names.map (stepLine true)).foldl after (going [] (names ++ [])) = going ([] ++ names) [] :=
      foldl_steps
    rwa [List.append_nil] at hsteps
  · intro p q hpq y hy
    rw [List.nil_append] at hy
    have hmem : compLine true y ∈ names.map (stepLine true) := hpq ▸ List.mem_append_left q hy
    exact absurd hmem (compLine_notMem names true)

/-- The commands, sent one at a time, can be taken and end in `s'`. -/
def Drives (names : List String) (ls : List Line) (s' : Saga) : Prop :=
  ∃ es, Run (onLine step) (started names) es s' ∧ es.map Event.input = ls

theorem drives_of_foldl (h : ls.foldl after (started names) = s') : Drives names ls s' := by
  obtain ⟨es, t, hrun, hinputs⟩ := Run.extend step_total ls
    (Run.nil : Run (onLine step) (started names) [] (started names))
  rw [List.nil_append] at hrun
  have hend : t = (es.map Event.input).foldl after (started names) := hrun.eq_foldl fun e _ he => by
    unfold after
    rw [he]
    rfl
  rw [hinputs, h] at hend
  exact ⟨es, hend ▸ hrun, hinputs⟩

structure Ends (names : List String) (k : Nat) (s : Saga) (v : Value) : Prop where
  outcome : s.outcome = if k = 0 then .committed else .compensated
  answered : v.textAt "outcome" = some s.outcome.text
  executed : v.get "executed" = some (words (if k = 0 then names else names.take (k - 1)))
  compensated : v.get "compensated" =
    some (words (if k = 0 then [] else (names.take (k - 1)).reverse))
  ledger : s.ledger = if k = 0 then names.map did
    else (names.take (k - 1)).map did ++ (names.take (k - 1)).reverse.map undid

omit [Host] in
theorem ends_ok (names : List String) : Ends names 0 (going names []) (going names []).ran where
  outcome := rfl
  answered := rfl
  executed := rfl
  compensated := rfl
  ledger := rfl

/-- **A failed saga ends compensated** exactly when the steps before the failure differ. -/
theorem ends_fail (hs : s.names = names) (hnames : names = ran ++ x :: rest) :
    Ends names (ran.length + 1) (s.run (ran.length + 1)).1 (s.run (ran.length + 1)).2 ↔ ran.Nodup := by
  obtain ⟨hstate, hanswer, -⟩ := run_fail (hs.trans hnames) rfl
  have hleft : (unwind [] ran.reverse).2 = [] ↔ ran.Nodup := by
    rw [unwind_snd_eq_nil List.nodup_nil, List.nil_append, List.nodup_reverse]
  constructor
  · intro h
    have houtcome := h.outcome
    rw [hstate, if_neg (Nat.succ_ne_zero _)] at houtcome
    refine hleft.mp ?_
    by_contra hne
    have hrunning : (unwound ran (x :: rest)).outcome = .running := if_neg hne
    cases hrunning.symm.trans houtcome
  · intro hnodup
    have hnil := hleft.mpr hnodup
    have hdone : (unwind [] ran.reverse).1 = ran.reverse := by
      have happend := unwind_append [] ran.reverse
      rwa [hnil, List.append_nil, List.nil_append] at happend
    have hall : Unwinds ran := by
      unfold Unwinds
      rw [hnil]
      exact List.forall_mem_nil _
    have htake : names.take (ran.length + 1 - 1) = ran := by
      rw [hnames, Nat.add_sub_cancel, List.take_left']
      rfl
    have hback : unwound ran (x :: rest) = back ran (x :: rest) ran.reverse [] := by
      unfold unwound
      rw [hnil, hdone]
    rw [hstate, hanswer hall, hback]
    constructor
    · rfl
    · rfl
    · rw [htake]
      rfl
    · rw [htake]
      rfl
    · rw [htake]
      rfl

/-- **Both ways end in one state**, and it is the committed or the compensated saga exactly when no two
of the steps to compensate have one name. -/
theorem saga_runs {args₀ args : List String} (hnames : wordList args₀ 0 = .ok names) (hne : names ≠ [])
    (hk : uint args 0 = .ok k) (hle : k ≤ names.length) :
    (∀ s : Saga, ∃ v, s.step "init" args₀ = some (started names, v)) ∧
    ∀ s : Saga, s.names = names → ∃ s' v, s.step "run" args = some (s', v) ∧
      (∀ ls, Noisy [] (plan names k) ls → Drives names ls s') ∧
      ((Ends names k s' v ∧ ∀ ls, Noisy [] (plan names k) ls → Drives names ls s') ↔
        k = 0 ∨ (names.take (k - 1)).Nodup) := by
  constructor
  · intro s
    refine ⟨.obj [("steps", .num names.length), ("names", words names)], ?_⟩
    show arg s (wordList args₀ 0) _ = _
    rw [hnames, arg_ok, if_neg hne, reset_eq rfl]
  · intro s hs
    have hrun : s.step "run" args = some (s.run k) := by
      show arg s (uint args 0) _ = _
      rw [hk, arg_ok]
    refine ⟨(s.run k).1, (s.run k).2, hrun, ?_⟩
    cases k with
    | zero =>
      have hdrives : ∀ ls, Noisy [] (plan names 0) ls → Drives names ls (s.run 0).1 := by
        intro ls hls
        rw [run_ok hs hne]
        exact drives_of_foldl (foldl_plan_ok hne hls)
      refine ⟨hdrives, fun _ => .inl rfl, fun _ => ⟨?_, hdrives⟩⟩
      rw [run_ok hs hne]
      exact ends_ok names
    | succ k =>
      have hsplit : names = names.take k ++ names[k] :: names.drop (k + 1) := by
        rw [← List.drop_eq_getElem_cons hle, List.take_append_drop]
      have hlen : (names.take k).length = k := List.length_take_of_le (Nat.le_of_succ_le hle)
      have hends := ends_fail hs hsplit
      have hstate := (run_fail (hs.trans hsplit) rfl).1
      have hdrives : ∀ ls, Noisy [] (plan names (k + 1)) ls → Drives names ls (s.run (k + 1)).1 := by
        intro ls hls
        have hplan := foldl_plan_fail hsplit (hlen.symm ▸ hls)
        rw [hlen] at hstate
        exact hstate ▸ drives_of_foldl hplan
      rw [hlen] at hends
      refine ⟨hdrives, fun h => .inr (hends.mp h.1), fun h => ⟨hends.mpr ?_, hdrives⟩⟩
      exact h.resolve_left (Nat.succ_ne_zero k)

end

/-! ## Two runs -/

@[reducible] def stepLists : Host := hostOf
  [("[aab]", .arr [.str "a", .str "a", .str "b"]), ("[abc]", .arr [.str "a", .str "b", .str "c"])]

theorem repeated_step_never_undone :
    @wordList stepLists ["[aab]"] 0 = .ok ["a", "a", "b"] ∧ uint ["3"] 0 = .ok 3 ∧
    ∃ s v, @step stepLists (started ["a", "a", "b"]) "run" ["3"] = some (s, v) ∧
      s.outcome = .running ∧ s.pending = ["a"] ∧ s.ledger = ["do:a", "do:a", "undo:a"] ∧
      ¬ Ends ["a", "a", "b"] 3 s v := by
  let _ : Host := stepLists
  have hrun : ∃ s v, step (started ["a", "a", "b"]) "run" ["3"] = some (s, v) ∧ s.outcome = .running ∧
      s.pending = ["a"] ∧ s.ledger = ["do:a", "do:a", "undo:a"] := ⟨_, _, rfl, rfl, rfl, rfl⟩
  obtain ⟨s, v, hstep, houtcome, hpending, hledger⟩ := hrun
  refine ⟨rfl, rfl, s, v, hstep, houtcome, hpending, hledger, fun h => ?_⟩
  have hcompensated := h.outcome
  rw [houtcome] at hcompensated
  cases hcompensated

theorem saga_runs_noisy : ∃ s v, @step stepLists (started ["a", "b", "c"]) "run" ["3"] = some (s, v) ∧
    Ends ["a", "b", "c"] 3 s v ∧
    @Drives stepLists ["a", "b", "c"] [⟨"step", ["a", "ok"]⟩, ⟨"step", ["b", "ok"]⟩,
      ⟨"step", ["c", "fail"]⟩, ⟨"compensate", ["b", "fail"]⟩, ⟨"compensate", ["b", "ok"]⟩,
      ⟨"compensate", ["b", "ok"]⟩, ⟨"compensate", ["a", "ok"]⟩] s := by
  let _ : Host := stepLists
  have hnames : wordList ["[abc]"] 0 = .ok ["a", "b", "c"] := rfl
  have hk : uint ["3"] 0 = .ok 3 := rfl
  obtain ⟨s, v, hstep, hdrives, hends⟩ := (saga_runs hnames (by simp) hk (by simp)).2
    (started ["a", "b", "c"]) rfl
  refine ⟨s, v, hstep, (hends.mpr (.inr (by decide))).1, hdrives _ ?_⟩
  exact .next (.next (.next (.failed "b" (.next (.repeated "b" (by simp [compLine, stepLine])
    (.next (.nil _)))))))

end BuildYourOwn.Patterns.Saga
