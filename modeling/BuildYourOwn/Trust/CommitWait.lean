import Mathlib.Data.List.Infix
import BuildYourOwn.Topic.Command

/-!
# `commit-wait`: bounded clock uncertainty, and what it buys

Model of `CommitWait` in `disttest/examples/alg/trust.rs`. The true time is somewhere in
`[now - epsilon, now + epsilon]`; a commit takes the latest of these as its timestamp and, with commit-wait on,
is released when the earliest has reached it.

Time is an `i64` and leaving it panics. A difference is checked as the sum with what is subtracted negated.
-/

namespace BuildYourOwn.Trust

open Topic

/-- `Committed`: a transaction that has been given a timestamp, and when its commit was released to the
world. -/
structure Committed where
  name : String
  ts : Int
  released : Int

structure CommitWait where
  epsilon : Int
  now : Int
  wait : Bool
  committed : List Committed

namespace CommitWait

/-- `CommitWait::default`, the state a topic starts in. -/
def default : CommitWait where
  epsilon := 0
  now := 0
  wait := false
  committed := []

def earliest (s : CommitWait) : Option Int := addI64 s.now (-s.epsilon)

def latest (s : CommitWait) : Option Int := addI64 s.now s.epsilon

/-! ## The commands -/

/-- What a successful `init` leaves. -/
def started (epsilon : Int) : CommitWait where
  epsilon := epsilon
  now := 100
  wait := true
  committed := []

def init (s : CommitWait) (e : Int) : CommitWait × Value :=
  if e < 0 then (s, err "uncertainty cannot be negative")
  else (started e, .obj [("ok", .bool true), ("epsilon", .num e), ("commit_wait", .bool true)])

/-- `commit-wait`. -/
def setWait [Host] (s : CommitWait) (w : String) : CommitWait × Value :=
  if w = "on" then ({ s with wait := true }, .obj [("ok", .bool true), ("commit_wait", .bool true)])
  else if w = "off" then ({ s with wait := false }, .obj [("ok", .bool true), ("commit_wait", .bool false)])
  else (s, err ("expected on or off, got " ++ debugStr w))

def tick (s : CommitWait) (d : Int) : Handled CommitWait :=
  if d < 0 then some (s, err "time does not run backwards")
  else
    (addI64 s.now d).map fun now =>
      ({ s with now := now }, .obj [("ok", .bool true), ("now", .num now)])

/-- `now`. -/
def interval (s : CommitWait) : Option (CommitWait × Value) := do
  let earliest ← s.earliest
  let latest ← s.latest
  let uncertainty ← addI64 s.epsilon s.epsilon
  return (s, .obj [("ok", .bool true), ("earliest", .num earliest), ("latest", .num latest),
    ("uncertainty", .num uncertainty)])

/-- When a commit at `ts` is released: with commit-wait on, not before the earliest possible now has reached
`ts`. -/
def release (s : CommitWait) (ts : Int) : Option Int :=
  if s.wait then (addI64 ts s.epsilon).map (max s.now) else some s.now

/-- `commit`: take a timestamp and wait out the uncertainty. -/
def commit (s : CommitWait) (name : String) : Option (CommitWait × Value) := do
  let ts ← s.latest
  let released ← s.release ts
  let asked ← addI64 ts (-s.epsilon)
  let waited ← addI64 released (-asked)
  return ({ s with now := released, committed := s.committed ++ [⟨name, ts, released⟩] },
    .obj [("ok", .bool true), ("transaction", .str name), ("ts", .num ts), ("released_at", .num released),
      ("waited", .num waited)])

/-- `b` was released when `a` had been, with a timestamp that is not later. -/
def violates (a b : Committed) : Bool := decide (a.released ≤ b.released) && decide (b.ts ≤ a.ts)

/-- The loops of `external-order`: each commit against those after it. -/
def violations : List Committed → List Value
  | [] => []
  | a :: rest =>
    (rest.filter (violates a)).map (fun b =>
      .obj [("earlier", .str a.name), ("later", .str b.name), ("earlier_ts", .num a.ts),
        ("later_ts", .num b.ts)]) ++ violations rest

/-- `external-order`: do the timestamps agree with the order commits were released in? -/
def externalOrder (s : CommitWait) : Value :=
  .obj [("ok", .bool true), ("holds", .bool (violations s.committed).isEmpty),
    ("violations", .arr (violations s.committed))]

def state (s : CommitWait) : Value :=
  .obj [("ok", .bool true), ("now", .num s.now), ("epsilon", .num s.epsilon), ("commit_wait", .bool s.wait),
    ("committed", .arr (s.committed.map fun c =>
      .obj [("name", .str c.name), ("ts", .num c.ts), ("released_at", .num c.released)]))]

def step [Host] (s : CommitWait) (command : String) (args : List String) : Handled CommitWait :=
  match command with
  | "init" => arg s (int args 0) fun e => some (s.init e)
  | "commit-wait" => arg s (word args 0) fun w => some (s.setWait w)
  | "tick" => arg s (int args 0) s.tick
  | "now" => s.interval
  | "commit" => arg s (word args 0) s.commit
  | "external-order" => some (s, s.externalOrder)
  | "state" => some (s, s.state)
  | other => some (s, err ("unknown command " ++ debugStr other))

end CommitWait

end BuildYourOwn.Trust

/-!
## Commit-wait and the order of the timestamps

Runs of `commit-wait` with the wait on. A commit takes `now + epsilon` and moves `now` to `now + 2 * epsilon`, so
the next timestamp is larger by what the clock was moved and by every tick in between. With an uncertainty of
zero, which `init` accepts, the clock is not moved at all, and two commits without a tick between them
(`Spaced`) get the same timestamp.

**`external_order_holds`**: the timestamps of all commits are increasing and `external-order` holds, in exactly
the runs with a positive uncertainty or a tick between any two commits.
-/

namespace BuildYourOwn.Trust.CommitWait

open Lib Topic

variable {s s' : CommitWait} {l : Line} {v : Value} {name : String}

/-! ## What a line does -/

def Waits (l : Line) : Prop := l.command ≠ "init" ∧ ¬ (l.command = "commit-wait" ∧ l.args[0]? = some "off")

def Commits (l : Line) : Prop := l.command = "commit" ∧ ∃ name, word l.args 0 = .ok name

def Ticks (l : Line) : Prop := l.command = "tick" ∧ ∃ d, int l.args 0 = .ok d ∧ 0 < d

/-- The wait is on, with an uncertainty that `init` accepts. -/
structure Waiting (s : CommitWait) : Prop where
  on : s.wait = true
  epsilon : 0 ≤ s.epsilon

/-- The commit of `name`, waited out. -/
def waitedOut (s : CommitWait) (name : String) : CommitWait :=
  { s with
    now := s.now + 2 * s.epsilon
    committed := s.committed ++ [⟨name, s.now + s.epsilon, s.now + 2 * s.epsilon⟩] }

inductive Moves (s : CommitWait) (l : Line) : CommitWait → Prop
  | commit (name : String) (hl : Commits l) : Moves s l (s.waitedOut name)
  | tick (d : Int) (hl : Ticks l) (hd : 0 < d) : Moves s l { s with now := s.now + d }
  | still (hl : ¬ Commits l) (hl' : ¬ Ticks l) : Moves s l s

theorem commit_eq (h : s.Waiting) (hs : s.commit name = some (s', v)) : s' = s.waitedOut name := by
  unfold commit at hs
  obtain ⟨ts, hts, hs⟩ := Option.bind_eq_some_iff.mp hs
  obtain ⟨released, hreleased, hs⟩ := Option.bind_eq_some_iff.mp hs
  obtain ⟨asked, -, hs⟩ := Option.bind_eq_some_iff.mp hs
  obtain ⟨waited, -, hs⟩ := Option.bind_eq_some_iff.mp hs
  obtain ⟨-, rfl⟩ := addI64_eq_some.mp hts
  unfold release at hreleased
  rw [if_pos h.on] at hreleased
  obtain ⟨until', huntil, rfl⟩ := Option.map_eq_some_iff.mp hreleased
  obtain ⟨-, rfl⟩ := addI64_eq_some.mp huntil
  cases hs
  have hmax : max s.now (s.now + s.epsilon + s.epsilon) = s.now + 2 * s.epsilon := by
    have := h.epsilon
    omega
  unfold waitedOut
  rw [hmax]

theorem tick_cases {d : Int} (hs : s.tick d = some (s', v)) :
    (d ≤ 0 ∧ s' = s) ∨ (0 < d ∧ s' = { s with now := s.now + d }) := by
  unfold tick at hs
  split at hs
  · exact .inl ⟨by omega, (state_eq hs)⟩
  · obtain ⟨now, hnow, heq⟩ := Option.map_eq_some_iff.mp hs
    cases heq
    obtain ⟨-, rfl⟩ := addI64_eq_some.mp hnow
    by_cases hpos : 0 < d
    · exact .inr ⟨hpos, rfl⟩
    · obtain rfl : d = 0 := by omega
      exact .inl ⟨Int.le_refl 0, by rw [Int.add_zero]⟩

theorem interval_eq (hs : s.interval = some (s', v)) : s' = s := by
  unfold interval at hs
  obtain ⟨earliest, -, hs⟩ := Option.bind_eq_some_iff.mp hs
  obtain ⟨latest, -, hs⟩ := Option.bind_eq_some_iff.mp hs
  obtain ⟨uncertainty, -, hs⟩ := Option.bind_eq_some_iff.mp hs
  exact (state_eq hs)

section

variable [Host]

theorem setWait_eq (h : s.Waiting) {w : String} (hw : w ≠ "off") : (s.setWait w).1 = s := by
  unfold setWait
  split
  · rw [← h.on]
  · rfl

theorem still_of_other (h : s.Waiting) (hl : Waits l) (hcommit : l.command ≠ "commit")
    (htick : l.command ≠ "tick") (hs : onLine step s l = some (s', v)) : s' = s := by
  unfold onLine step at hs
  split at hs
  case h_1 hinit => exact absurd hinit hl.1
  case h_2 hwait =>
    rcases arg_eq_some.mp hs with ⟨-, heq⟩ | ⟨w, hw, hs⟩
    · exact heq
    have hon : w ≠ "off" := by
      rintro rfl
      exact hl.2 ⟨hwait, word_eq_ok.mp hw⟩
    have heq := setWait_eq h hon
    rwa [Option.some.inj hs] at heq
  case h_3 hcommand => exact absurd hcommand htick
  case h_4 => exact interval_eq hs
  case h_5 hcommand => exact absurd hcommand hcommit
  case h_6 => exact (state_eq hs)
  case h_7 => exact (state_eq hs)
  case h_8 => exact (state_eq hs)

theorem step_moves (h : s.Waiting) (hl : Waits l) (hs : onLine step s l = some (s', v)) : Moves s l s' := by
  by_cases hcommit : l.command = "commit"
  · have htick : ¬ Ticks l := fun h => absurd (hcommit.symm.trans h.1) (by decide)
    unfold onLine at hs
    rw [hcommit] at hs
    simp only [step] at hs
    rcases arg_eq_some.mp hs with ⟨hw, rfl⟩ | ⟨name, hname, hs⟩
    · refine .still ?_ htick
      rintro ⟨-, name, hname⟩
      cases hw.symm.trans hname
    · rw [commit_eq h hs]
      exact .commit name ⟨hcommit, name, hname⟩
  have hno : ¬ Commits l := fun h => hcommit h.1
  by_cases htick : l.command = "tick"
  · unfold onLine at hs
    rw [htick] at hs
    simp only [step] at hs
    rcases arg_eq_some.mp hs with ⟨hd, rfl⟩ | ⟨d, hd, hs⟩
    · refine .still hno ?_
      rintro ⟨-, d, hd', -⟩
      cases hd.symm.trans hd'
    rcases tick_cases hs with ⟨hle, rfl⟩ | ⟨hpos, rfl⟩
    · refine .still hno ?_
      rintro ⟨-, d', hd', hpos⟩
      obtain rfl := Except.ok.inj (hd.symm.trans hd')
      omega
    · exact .tick d ⟨htick, d, hd, hpos⟩ hpos
  · rw [still_of_other h hl hcommit htick hs]
    exact .still hno fun h => htick h.1

end

/-! ## The order of the timestamps -/

/-- The timestamps of the commits are increasing, and `external-order` reports so. -/
structure InOrder (s : CommitWait) : Prop where
  increasing : s.committed.Pairwise fun a b => a.ts < b.ts
  reported : s.externalOrder.flagAt "holds" = some true

theorem violations_eq_nil {cs : List Committed} : violations cs = [] ↔ cs.Pairwise fun a b => violates a b = false := by
  induction cs with
  | nil => exact iff_of_true rfl .nil
  | cons a cs ih =>
    unfold violations
    rw [List.append_eq_nil_iff, List.map_eq_nil_iff, List.filter_eq_nil_iff, ih, List.pairwise_cons]
    simp only [Bool.not_eq_true]

/-- Increasing timestamps are all that `external-order` looks for. -/
theorem inOrder_iff : s.InOrder ↔ s.committed.Pairwise fun a b => a.ts < b.ts := by
  refine ⟨InOrder.increasing, fun h => ⟨h, ?_⟩⟩
  have hnone : violations s.committed = [] := by
    refine violations_eq_nil.mpr (h.imp fun hlt => ?_)
    unfold violates
    rw [decide_eq_false (Int.not_le.mpr hlt), Bool.and_false]
  show some (violations s.committed).isEmpty = some true
  rw [hnone]
  rfl

variable {es es₁ es₂ es₃ : List (Event CommitWait Line Value)} {e e' : Event CommitWait Line Value} {ε : Int}

def Spaced (es : List (Event CommitWait Line Value)) : Prop := ∀ es₁ e es₂ e' es₃,
  es = es₁ ++ e :: es₂ ++ e' :: es₃ → Commits e.input → Commits e'.input → ∃ x ∈ es₂, Ticks x.input

/-- What a run knows of its commits: `now` has not gone back behind a release, and where it has not moved on
with an uncertainty of zero, no time has passed since some commit. -/
structure Timed (es : List (Event CommitWait Line Value)) (s : CommitWait) : Prop where
  waiting : s.Waiting
  past : ∀ c ∈ s.committed, c.ts + s.epsilon ≤ s.now
  last : s.epsilon = 0 → ∀ c ∈ s.committed, c.ts = s.now → ∃ es₁ e es₂, es = es₁ ++ e :: es₂ ∧
    Commits e.input ∧ ∀ x ∈ es₂, ¬ Ticks x.input

theorem Timed.step (h : Timed es s) (hm : Moves s l s') : Timed (es ++ [⟨s, l, v, s'⟩]) s' := by
  obtain ⟨⟨hon, hepsilon⟩, hpast, hlast⟩ := h
  cases hm with
  | commit name hl =>
    refine ⟨⟨hon, hepsilon⟩, fun c hc => ?_, fun _ _ _ _ => ⟨es, _, [], rfl, hl, ?_⟩⟩
    · show c.ts + s.epsilon ≤ s.now + 2 * s.epsilon
      rcases List.mem_append.mp hc with hc | hc
      · have := hpast c hc
        omega
      · obtain rfl := List.mem_singleton.mp hc
        dsimp only
        omega
    · exact List.forall_mem_nil _
  | tick d hl hd =>
    refine ⟨⟨hon, hepsilon⟩, fun c hc => ?_, fun hzero c hc hnow => ?_⟩
    · exact Int.le_trans (hpast c hc) (Int.le_add_of_nonneg_right (Int.le_of_lt hd))
    · have := hpast c hc
      dsimp only at hzero hnow
      omega
  | still hl hl' =>
    refine ⟨⟨hon, hepsilon⟩, hpast, fun hzero c hc hnow => ?_⟩
    obtain ⟨es₁, e, es₂, rfl, he, hes₂⟩ := hlast hzero c hc hnow
    refine ⟨es₁, e, es₂ ++ [⟨s, l, v, s⟩], by rw [List.append_assoc, List.cons_append], he, fun x hx => ?_⟩
    rcases List.mem_append.mp hx with hx | hx
    · exact hes₂ x hx
    · obtain rfl := List.mem_singleton.mp hx
      exact hl'

theorem Timed.increases (h : Timed es s) (hl : Commits l) (hspaced : s.epsilon = 0 → Spaced (es ++ [⟨s, l, v, s'⟩])) :
    ∀ c ∈ s.committed, c.ts < s.now + s.epsilon := by
  intro c hc
  have hpast := h.past c hc
  have hepsilon := h.waiting.epsilon
  by_cases hzero : s.epsilon = 0
  · refine Int.lt_iff_le_and_ne.mpr ⟨by omega, fun heq => ?_⟩
    rw [hzero, Int.add_zero] at heq
    obtain ⟨es₁, e, es₂, rfl, he, hes₂⟩ := h.last hzero c hc heq
    obtain ⟨x, hx, htick⟩ := hspaced hzero es₁ e es₂ _ [] rfl he hl
    exact hes₂ x hx htick
  · omega

theorem Spaced.init (h : Spaced (es ++ es₂)) : Spaced es := by
  rintro es₁ e es₃ e' es₄ rfl he he'
  exact h es₁ e es₃ e' (es₄ ++ es₂) (by simp) he he'

structure Advancing (ε : Int) (es : List (Event CommitWait Line Value)) (s : CommitWait) : Prop where
  timed : Timed es s
  epsilon : s.epsilon = ε
  increasing : 0 < ε ∨ Spaced es → s.committed.Pairwise fun a b => a.ts < b.ts

theorem Advancing.step (h : Advancing ε es s) (hm : Moves s l s') : Advancing ε (es ++ [⟨s, l, v, s'⟩]) s' := by
  refine ⟨h.timed.step hm, ?_, fun hspaced => ?_⟩
  · have hepsilon := h.epsilon
    cases hm <;> exact hepsilon
  have hbefore := h.increasing (hspaced.imp_right Spaced.init)
  cases hm with
  | commit name hl =>
    refine List.pairwise_append.mpr ⟨hbefore, List.pairwise_singleton _ _, fun c hc c' hc' => ?_⟩
    obtain rfl := List.mem_singleton.mp hc'
    refine h.timed.increases hl (fun hzero => hspaced.resolve_left ?_) c hc
    have hepsilon := h.epsilon
    omega
  | tick d _ _ => exact hbefore
  | still _ _ => exact hbefore

structure Stretch (m s : CommitWait) : Prop where
  waiting : s.Waiting
  epsilon : s.epsilon = m.epsilon
  grown : m.committed <+: s.committed

section

variable [Host]

theorem stretch {m : CommitWait} (hrun : Run (onLine step) m es s) (hm : m.Waiting)
    (hlines : ∀ e ∈ es, Waits e.input) : Stretch m s := by
  refine hrun.invariant (G := fun _ l => Waits l) ⟨hm, rfl, List.prefix_rfl⟩
    (fun s l s' v h hl hs => ?_) hlines
  obtain ⟨hwaiting, hepsilon, hgrown⟩ := h
  cases step_moves hwaiting hl hs with
  | commit name _ => exact ⟨⟨hwaiting.on, hwaiting.epsilon⟩, hepsilon, hgrown.trans (List.prefix_append ..)⟩
  | tick d _ _ => exact ⟨⟨hwaiting.on, hwaiting.epsilon⟩, hepsilon, hgrown⟩
  | still _ _ => exact ⟨hwaiting, hepsilon, hgrown⟩

theorem now_eq {m : CommitWait} (hrun : Run (onLine step) m es s) (hm : m.Waiting) (hzero : m.epsilon = 0)
    (hlines : ∀ e ∈ es, Waits e.input ∧ ¬ Ticks e.input) : s.now = m.now := by
  refine (hrun.invariant (P := fun s => s.Waiting ∧ s.epsilon = 0 ∧ s.now = m.now)
    (G := fun _ l => Waits l ∧ ¬ Ticks l) ⟨hm, hzero, rfl⟩ (fun s l s' v h hl hs => ?_) hlines).2.2
  obtain ⟨hwaiting, hzero, hnow⟩ := h
  cases step_moves hwaiting hl.1 hs with
  | commit name _ =>
    refine ⟨⟨hwaiting.on, hwaiting.epsilon⟩, hzero, ?_⟩
    show s.now + 2 * s.epsilon = m.now
    omega
  | tick d htick _ => exact absurd htick hl.2
  | still _ _ => exact ⟨hwaiting, hzero, hnow⟩

theorem advancing (hε : 0 ≤ ε) (hrun : Run (onLine step) (started ε) es s)
    (hlines : ∀ e ∈ es, Waits e.input) : Advancing ε es s := by
  refine hrun.history_invariant (G := fun e => Waits e.input) ⟨⟨⟨rfl, hε⟩, ?_, ?_⟩, rfl, fun _ => .nil⟩
    (fun es s l s' v h hl hs => h.step (step_moves h.timed.waiting hl hs)) hlines
  · exact List.forall_mem_nil _
  · exact fun _ c hc => absurd hc List.not_mem_nil

theorem committed_after (hs : onLine step e.before e.input = some (e.after, e.output))
    (h : e.before.Waiting) (hwaits : Waits e.input) (he : Commits e.input) :
    ∃ name, e.after = e.before.waitedOut name := by
  generalize hafter : e.after = after at hs
  cases step_moves h hwaits hs with
  | commit name _ => exact ⟨name, rfl⟩
  | tick d htick _ => exact absurd (he.1.symm.trans htick.1) (by decide)
  | still hno _ => exact absurd he hno

theorem not_inOrder (hrun : Run (onLine step) (started 0) (es₁ ++ e :: es₂ ++ e' :: es₃) s)
    (hlines : ∀ x ∈ es₁ ++ e :: es₂ ++ e' :: es₃, Waits x.input) (he : Commits e.input) (he' : Commits e'.input)
    (hstill : ∀ x ∈ es₂, ¬ Ticks x.input) : ¬ s.InOrder := by
  have hbetween : Run (onLine step) (started 0) (es₁ ++ e :: es₂) e'.before := hrun.split rfl
  have hmem {x : Event CommitWait Line Value} (hx : x ∈ es₁ ++ e :: es₂) : Waits x.input :=
    hlines x (List.mem_append_left _ hx)
  have hfirst := advancing (Int.le_refl 0) (hbetween.split rfl) fun x hx => hmem (List.mem_append_left _ hx)
  have hsecond := advancing (Int.le_refl 0) hbetween fun x => hmem
  obtain ⟨name, hname⟩ := committed_after (hbetween.step_of_mem (List.mem_append_right _ List.mem_cons_self))
    hfirst.timed.waiting (hmem (List.mem_append_right _ List.mem_cons_self)) he
  obtain ⟨name', hname'⟩ := committed_after (hrun.step_of_mem (List.mem_append_right _ List.mem_cons_self))
    hsecond.timed.waiting (hlines e' (List.mem_append_right _ List.mem_cons_self)) he'
  -- the stretch between the two commits, and the one behind them
  have hwaiting : e.after.Waiting := by
    rw [hname]
    exact ⟨hfirst.timed.waiting.on, hfirst.timed.waiting.epsilon⟩
  have hwaiting' : e'.after.Waiting := by
    rw [hname']
    exact ⟨hsecond.timed.waiting.on, hsecond.timed.waiting.epsilon⟩
  have hzero : e.after.epsilon = 0 := by
    rw [hname]
    exact hfirst.epsilon
  have hlines₂ (x : Event CommitWait Line Value) (hx : x ∈ es₂) : Waits x.input :=
    hmem (List.mem_append_right _ (List.mem_cons_of_mem _ hx))
  have hlines₃ (x : Event CommitWait Line Value) (hx : x ∈ es₃) : Waits x.input :=
    hlines x (List.mem_append_right _ (List.mem_cons_of_mem _ hx))
  have hnow := now_eq hbetween.rest hwaiting hzero fun x hx => ⟨hlines₂ x hx, hstill x hx⟩
  have hgrown := (stretch hbetween.rest hwaiting hlines₂).grown
  have hgrown' := (stretch hrun.rest hwaiting' hlines₃).grown
  rw [hname] at hnow hgrown
  rw [hname'] at hgrown'
  intro horder
  have hincreasing := (List.pairwise_append.mp (horder.increasing.sublist hgrown'.sublist)).2.2
  have hlt := hincreasing _ (hgrown.mem List.mem_concat_self) _
    (List.mem_singleton_self _)
  have hepsilon := hfirst.epsilon
  have hepsilon' := hsecond.epsilon
  unfold waitedOut at hnow
  dsimp only at hlt hnow
  omega

/-- **External order**: the timestamps of the commits are increasing, and `external-order` holds, in exactly
the runs in which the clock is uncertain or some time passes between any two commits. -/
theorem external_order_holds (hε : 0 ≤ ε) (hrun : Run (onLine step) (started ε) es s)
    (hlines : ∀ e ∈ es, Waits e.input) : s.InOrder ↔ 0 < ε ∨ Spaced es := by
  refine ⟨fun horder => ?_, fun hspaced => inOrder_iff.mpr ((advancing hε hrun hlines).increasing hspaced)⟩
  by_contra hno
  obtain ⟨hpos, hspaced⟩ := not_or.mp hno
  obtain rfl : ε = 0 := by omega
  unfold Spaced at hspaced
  push Not at hspaced
  obtain ⟨es₁, e, es₂, e', es₃, rfl, he, he', hstill⟩ := hspaced
  exact not_inOrder hrun hlines he he' hstill horder

end

/-! With an uncertainty of five the clock is moved; with none, two commits in a row get one timestamp. -/

@[reducible] def plain : Host := hostOf []

def twoCommits : List Line := [⟨"commit", ["t1"]⟩, ⟨"commit", ["t2"]⟩, ⟨"external-order", []⟩]

theorem waits_twoCommits {es : List (Event CommitWait Line Value)} (hinputs : es.map Event.input = twoCommits) :
    ∀ e ∈ es, Waits e.input := by
  intro e he
  have hall : ∀ l ∈ twoCommits, l.command ≠ "init" ∧ l.command ≠ "commit-wait" := by decide
  obtain ⟨hinit, hwait⟩ := hall _ (hinputs ▸ List.mem_map_of_mem he)
  exact ⟨hinit, fun h => hwait h.1⟩

theorem external_order_holds_five : ∃ es s, Run (onLine (@step plain)) (started 5) es s ∧
    es.map Event.input = twoCommits ∧ s.committed.map Committed.ts = [105, 115] ∧ s.InOrder := by
  let _ : Host := plain
  obtain ⟨es, s, hrun, hinputs, hts⟩ : ∃ es s, Run (onLine step) (started 5) es s ∧
      es.map Event.input = twoCommits ∧ s.committed.map Committed.ts = [105, 115] :=
    ⟨_, _, run_of_exec twoCommits rfl, rfl, rfl⟩
  exact ⟨es, s, hrun, hinputs, hts,
    (external_order_holds (by decide) hrun (waits_twoCommits hinputs)).mpr (.inl (by decide))⟩

/-- Two transactions with one timestamp, and `external-order` reports them. -/
theorem same_timestamp : ∃ es s, Run (onLine (@step plain)) (started 0) es s ∧
    es.map Event.input = twoCommits ∧ (∀ e ∈ es, Waits e.input) ∧ s.committed.map Committed.ts = [100, 100] ∧
    s.externalOrder.flagAt "holds" = some false ∧ ¬ s.InOrder := by
  let _ : Host := plain
  obtain ⟨es, s, hrun, hinputs, hts, hholds⟩ : ∃ es s, Run (onLine step) (started 0) es s ∧
      es.map Event.input = twoCommits ∧ s.committed.map Committed.ts = [100, 100] ∧
      s.externalOrder.flagAt "holds" = some false :=
    ⟨_, _, run_of_exec twoCommits rfl, rfl, rfl, rfl⟩
  refine ⟨es, s, hrun, hinputs, waits_twoCommits hinputs, hts, hholds, fun horder => ?_⟩
  exact absurd (horder.reported.symm.trans hholds) (by decide)

end BuildYourOwn.Trust.CommitWait
