import BuildYourOwn.Patterns.Charges
import BuildYourOwn.Patterns.Dedup
import BuildYourOwn.Patterns.Orchestration
import BuildYourOwn.Patterns.Outbox

/-!
# What an error leaves

A command that is answered with an error leaves the machine as it was (`LeavesAlone`), in all five
topics and in every state, but for two commands that write before they look.

* `crash` of an outbox brings the process down and forgets what was published before it reads which
  crash point it was given.
* `run` of a saga starts over before it goes, and ends in an error when a name that is still to be
  compensated comes after one that has been undone and comes again.

**`refusals`**: exactly these.
-/

namespace BuildYourOwn.Patterns

open Lib Topic

/-- An error object. -/
def Refused (v : Value) : Prop := v.flagAt "ok" = some false ∧ (v.get "error").isSome = true

/-- The command changes nothing if it is answered with an error. -/
def LeavesAlone {σ : Type} (s : σ) (r : Handled σ) : Prop :=
  ∀ s' v, r = some (s', v) → Refused v → s' = s

theorem refused_err (message : String) : Refused (err message) := ⟨rfl, rfl⟩

section

variable {σ α : Type} {s s' : σ} {v : Value}

theorem LeavesAlone.same (s : σ) (v : Value) : LeavesAlone s (some (s, v)) := by
  intro s' v' h _
  exact (state_eq h)

theorem LeavesAlone.answer (s : σ) {b : Option Bool} (hb : b ≠ some false) (h : v.flagAt "ok" = b) :
    LeavesAlone s (some (s', v)) := by
  intro s'' v' heq hv
  cases heq
  exact absurd (h.symm.trans hv.1) hb

/-- An answer that says nothing of `ok`. -/
theorem LeavesAlone.silent (s : σ) (h : v.flagAt "ok" = none) : LeavesAlone s (some (s', v)) :=
  .answer s (by simp) h

theorem LeavesAlone.granted (s : σ) (h : v.flagAt "ok" = some true) : LeavesAlone s (some (s', v)) :=
  .answer s (by simp) h

theorem LeavesAlone.panic (s : σ) : LeavesAlone s none := nofun

theorem LeavesAlone.arg {e : Except Value α} {k : α → Handled σ}
    (h : ∀ a, e = .ok a → LeavesAlone s (k a)) : LeavesAlone s (Topic.arg s e k) := by
  cases e with
  | ok a => exact h a rfl
  | error v => exact .same s v

theorem LeavesAlone.iff_same (hv : Refused v) : LeavesAlone s (some (s', v)) ↔ s' = s := by
  constructor
  · exact fun h => h s' v rfl hv
  · rintro rfl
    exact .same s' v

end

section

variable [Host]

/-! ## The topics that always do -/

namespace Choreo

omit [Host] in
theorem leavesAlone_event (s : Choreo) (name : String) : LeavesAlone s (some (s.event name)) := by
  unfold event
  split
  · exact .same s _
  · split
    · exact .silent s rfl
    · exact .silent s rfl

theorem leavesAlone (s : Choreo) (l : Line) : LeavesAlone s (onLine step s l) := by
  unfold onLine step
  split
  · refine .arg fun names _ => ?_
    split
    · exact .same s _
    · exact .silent s rfl
  · exact .arg fun name _ => leavesAlone_event s name
  · exact .same s _
  · exact .same s _
  · exact .same s _
  · exact .same s _

end Choreo

namespace Dedup

theorem leavesAlone (s : Dedup) (l : Line) : LeavesAlone s (onLine step s l) := by
  unfold onLine step
  split
  · exact .arg fun window _ => .silent s rfl
  · refine .arg fun id _ => .arg fun amount _ => ?_
    unfold deliver
    split
    · exact .same s _
    · split
      · exact .panic s
      · split
        · exact .silent s rfl
        · exact .panic s
  · refine .arg fun id _ => ?_
    unfold forget
    split
    · exact .granted s rfl
    · exact .same s _
  · exact .same s _
  · exact .same s _
  · exact .same s _

end Dedup

namespace Keys

theorem leavesAlone (s : Keys) (l : Line) : LeavesAlone s (onLine step s l) := by
  by_cases hcmd : l.command = "init"
  · unfold onLine step
    rw [hcmd]
    exact .silent s rfl
  · exact fun s' v h hv => (step_acts hcmd h).refused hv.1

end Keys

/-! ## The outbox -/

namespace Outbox

def CrashesNowhere (s : Outbox) (l : Line) : Prop :=
  s.down = false ∧ l.command = "crash" ∧
    ∃ point, l.args[0]? = some point ∧ point ∉ ["now", "after-row", "before-commit"]

theorem leavesAlone_crash {s : Outbox} (hup : s.down = false) (point : String) :
    LeavesAlone s (some (s.crash point)) ↔ point ∈ ["now", "after-row", "before-commit"] := by
  unfold crash
  split
  · exact iff_of_true (.granted s rfl) (by simp)
  · split
    · exact iff_of_true (.granted s rfl) (by simp)
    · exact iff_of_true (.granted s rfl) (by simp)
  · split
    · exact iff_of_true (.granted s rfl) (by simp)
    · exact iff_of_true (.granted s rfl) (by simp)
    · exact iff_of_true (.granted s rfl) (by simp)
  · rename_i hnow hrow hcommit
    rw [LeavesAlone.iff_same (refused_err _)]
    refine iff_of_false (fun h => ?_) fun hmem => ?_
    · cases hup.symm.trans (congrArg Outbox.down h).symm
    · simp only [List.mem_cons, List.not_mem_nil, or_false] at hmem
      rcases hmem with h | h | h
      · exact hnow h
      · exact hrow h
      · exact hcommit h

theorem leavesAlone_of_ne {s : Outbox} {l : Line} (hcmd : l.command ≠ "crash" ∨ s.down = true) :
    LeavesAlone s (onLine step s l) := by
  unfold onLine step
  split
  · exact .same s _
  · rename_i hrunning
    split
    · exact .silent s rfl
    · exact .arg fun key _ => .arg fun value _ => .arg fun event _ => .granted s rfl
    · exact .arg fun key _ => .arg fun value _ => .arg fun event _ => .granted s rfl
    · rename_i hc
      rcases hcmd with hne | hdown
      · exact absurd hc hne
      · exact absurd ⟨hdown, by rw [hc]; decide⟩ hrunning
    · exact .silent s rfl
    · exact .silent s rfl
    · exact .arg fun event _ => .silent s rfl
    · exact .arg fun event _ => .same s _
    · exact .same s _
    · exact .same s _

theorem leavesAlone_iff (s : Outbox) (l : Line) : LeavesAlone s (onLine step s l) ↔ ¬ s.CrashesNowhere l := by
  by_cases hcmd : l.command = "crash" ∧ s.down = false
  · obtain ⟨hc, hup⟩ := hcmd
    have hstep : onLine step s l = arg s (word l.args 0) fun point => some (s.crash point) := by
      unfold onLine step
      rw [hc, if_neg (by simp [hup])]
      rfl
    rw [hstep]
    cases hget : l.args[0]? with
    | none =>
      refine iff_of_true (.arg fun point hpoint => ?_) ?_
      · cases hget.symm.trans (word_eq_ok.mp hpoint)
      · rintro ⟨-, -, point, hpoint, -⟩
        cases hget.symm.trans hpoint
    | some point =>
      rw [word_eq_ok.mpr hget, arg_ok, leavesAlone_crash hup, ← not_not (a := point ∈ _), not_iff_not]
      constructor
      · exact fun hnot => ⟨hup, hc, point, hget, hnot⟩
      · rintro ⟨-, -, point', hpoint, hnot⟩
        exact Option.mem_unique hget hpoint ▸ hnot
  · refine iff_of_true (leavesAlone_of_ne ?_) fun h => hcmd ⟨h.2.1, h.1⟩
    by_cases hc : l.command = "crash"
    · exact .inr (by simpa [hc] using hcmd)
    · exact .inl hc

end Outbox

/-! ## The saga -/

namespace Saga

/-- A step is to fail in a saga where a name that is not undone by then comes after one that is undone
and comes again, and the saga is not in the state already where that leads. -/
def RunsAstray (s : Saga) (l : Line) : Prop :=
  l.command = "run" ∧ ∃ k, uint l.args 0 = .ok (k + 1) ∧ k < s.names.length ∧
    (¬ ∃ done left, (s.names.take k).reverse = done ++ left ∧ done.Nodup ∧ ∀ x ∈ left, x ∈ done) ∧
    s ≠ unwound (s.names.take k) (s.names.drop k)

omit [Host] in
theorem leavesAlone_answered (s : Saga) {e : Except Value Saga} {answer : Saga → Value}
    (h : ∀ s', (answer s').flagAt "ok" = none) : LeavesAlone s (some (s.answered e answer)) := by
  cases e with
  | ok s' => exact .silent s (h s')
  | error v => exact .same s v

/-- With no failure `run` is never refused. -/
theorem leavesAlone_run_ok (s : Saga) : LeavesAlone s (some (s.run 0)) := by
  by_cases hnames : s.names = []
  · have hrun : s.run 0 = (s.reset, s.reset.ran) := by
      unfold run
      rw [hnames]
      rfl
    rw [hrun]
    exact .silent s rfl
  · rw [run_ok rfl hnames]
    exact .silent s rfl

theorem leavesAlone_run_fail {s : Saga} {k : Nat} (hk : k < s.names.length) : LeavesAlone s (some (s.run (k + 1))) ↔
      (∃ done left, (s.names.take k).reverse = done ++ left ∧ done.Nodup ∧ ∀ x ∈ left, x ∈ done) ∨
      s = unwound (s.names.take k) (s.names.drop k) := by
  have hdrop : s.names.drop k = s.names[k] :: s.names.drop (k + 1) := List.drop_eq_getElem_cons hk
  have hsplit : s.names = s.names.take k ++ s.names[k] :: s.names.drop (k + 1) := by
    rw [← hdrop, List.take_append_drop]
  have hlen : (s.names.take k).length = k := List.length_take_of_le (Nat.le_of_lt hk)
  obtain ⟨hstate, hanswer, herror⟩ := run_fail hsplit (congrArg (· + 1) hlen)
  rw [← hdrop] at hstate hanswer
  rw [← unwinds_iff]
  by_cases hunwinds : Unwinds (s.names.take k)
  · refine iff_of_true ?_ (.inl hunwinds)
    have hrun : (s.run (k + 1)).2.flagAt "ok" = none := by
      rw [hanswer hunwinds]
      rfl
    exact .silent s hrun
  · obtain ⟨message, hmessage⟩ := herror hunwinds
    have hrun : s.run (k + 1) = (unwound (s.names.take k) (s.names.drop k), err message) :=
      Prod.ext hstate hmessage
    rw [hrun, LeavesAlone.iff_same (refused_err message)]
    exact ⟨fun h => .inr h.symm, fun h => (h.resolve_left hunwinds).symm⟩

theorem leavesAlone_of_ne {s : Saga} {l : Line} (hcmd : l.command ≠ "run") : LeavesAlone s (onLine step s l) := by
  unfold onLine step
  split
  · refine .arg fun names _ => ?_
    split
    · exact .same s _
    · exact .silent s rfl
  · exact .arg fun name _ => .arg fun ok _ => leavesAlone_answered s fun _ => rfl
  · exact .arg fun name _ => .arg fun ok _ => leavesAlone_answered s fun _ => rfl
  · rename_i hc
    exact absurd hc hcmd
  · exact .same s _
  · exact .same s _
  · exact .same s _

theorem leavesAlone_iff (s : Saga) (l : Line) : LeavesAlone s (onLine step s l) ↔ ¬ s.RunsAstray l := by
  by_cases hcmd : l.command = "run"
  · have hstep : onLine step s l = arg s (uint l.args 0) fun failAt => some (s.run failAt) := by
      unfold onLine step
      rw [hcmd]
      rfl
    rw [hstep]
    cases huint : uint l.args 0 with
    | error v =>
      refine iff_of_true (.same s v) ?_
      rintro ⟨-, k, hk, -⟩
      cases huint.symm.trans hk
    | ok failAt =>
      rw [arg_ok]
      cases failAt with
      | zero =>
        refine iff_of_true (leavesAlone_run_ok s) ?_
        rintro ⟨-, k, hk, -⟩
        cases Except.ok.inj (huint.symm.trans hk)
      | succ k =>
        by_cases hlt : k < s.names.length
        · rw [leavesAlone_run_fail hlt]
          constructor
          · rintro hor ⟨-, k', hk', -, hnot, hne⟩
            obtain rfl : k = k' := by simpa using Except.ok.inj (huint.symm.trans hk')
            exact hor.elim hnot hne
          · intro hnot
            by_contra hor
            rw [not_or] at hor
            exact hnot ⟨hcmd, k, huint, hlt, hor.1, hor.2⟩
        · have hrun : s.run (k + 1) =
              (s, err ("fail_at " ++ toString (k + 1) ++ " is past the last step")) :=
            if_pos (by omega)
          rw [hrun]
          refine iff_of_true (.same s _) ?_
          rintro ⟨-, k', hk', hlt', -⟩
          obtain rfl : k = k' := by simpa using Except.ok.inj (huint.symm.trans hk')
          exact hlt hlt'
  · exact iff_of_true (leavesAlone_of_ne hcmd) fun h => hcmd h.1

end Saga

/-- **What an error leaves**: the machine as it was, but for a crash at an unknown point and a run
that goes astray. -/
theorem refusals :
    (∀ (s : Outbox) (l : Line), LeavesAlone s (onLine Outbox.step s l) ↔ ¬ s.CrashesNowhere l) ∧
    (∀ (s : Saga) (l : Line), LeavesAlone s (onLine Saga.step s l) ↔ ¬ s.RunsAstray l) ∧
    (∀ (s : Choreo) (l : Line), LeavesAlone s (onLine Choreo.step s l)) ∧
    (∀ (s : Dedup) (l : Line), LeavesAlone s (onLine Dedup.step s l)) ∧
    ∀ (s : Keys) (l : Line), LeavesAlone s (onLine Keys.step s l) :=
  ⟨Outbox.leavesAlone_iff, Saga.leavesAlone_iff, Choreo.leavesAlone, Dedup.leavesAlone,
    Keys.leavesAlone⟩

end

/-! ## Two errors that leave a trace -/

@[reducible] def astraySteps : Host :=
  hostOf [("[baax]", .arr [.str "b", .str "a", .str "a", .str "x"])]

theorem refusals_with_a_trace :
    (∃ s v, @onLine Outbox (@Outbox.step astraySteps) Outbox.new ⟨"crash", ["later"]⟩ = some (s, v) ∧
      Refused v ∧ s.down = true ∧ s ≠ Outbox.new) ∧
    ∃ es s s' v, Run (onLine (@Saga.step astraySteps)) Saga.new es s ∧
      es.map Event.input = [⟨"init", ["[baax]"]⟩] ∧
      @onLine Saga (@Saga.step astraySteps) s ⟨"run", ["4"]⟩ = some (s', v) ∧ Refused v ∧
      s'.ledger = ["do:b", "do:a", "do:a", "undo:a"] ∧ s' ≠ s := by
  let _ : Host := astraySteps
  constructor
  · refine ⟨_, _, rfl, ⟨rfl, rfl⟩, rfl, fun h => ?_⟩
    exact absurd (congrArg Outbox.down h) (by decide)
  · obtain ⟨es, s, s', v, hrun, hinputs, hstep, hok, herror, hledger, hempty⟩ :
        ∃ es s s' v, Run (onLine Saga.step) Saga.new es s ∧
          es.map Event.input = [⟨"init", ["[baax]"]⟩] ∧
          onLine Saga.step s ⟨"run", ["4"]⟩ = some (s', v) ∧ v.flagAt "ok" = some false ∧
          (v.get "error").isSome = true ∧ s'.ledger = ["do:b", "do:a", "do:a", "undo:a"] ∧
          s.ledger = [] :=
      ⟨_, _, _, _, run_of_exec [⟨"init", ["[baax]"]⟩] rfl, rfl, rfl, rfl, rfl, rfl, rfl⟩
    refine ⟨es, s, s', v, hrun, hinputs, hstep, ⟨hok, herror⟩, hledger, fun h => ?_⟩
    rw [h, hempty] at hledger
    cases hledger

end BuildYourOwn.Patterns
