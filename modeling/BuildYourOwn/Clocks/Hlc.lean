import BuildYourOwn.Lib.Causality
import BuildYourOwn.Topic.Command
import BuildYourOwn.Topic.Map

/-!
# Hybrid logical clocks: `hlc`

Model of `Hlc` in `disttest/examples/prim/clocks.rs`, and what its clocks say of the order of events.

The events of a run are its `now` and `recv` lines that are answered with a clock, at the positions they have
in the history. A receipt is of an earlier event that answered what it was given; where several did, which one
is a choice, and the results hold for every choice (`Delivers`).

* What one line does is `Effect`: the new clock is after the process's own, and after the message's, and its
  `l` is one of the walls and `l`s it was made from.
-/

namespace BuildYourOwn.Clocks

open Lib Topic

/-- `Hlc`: one `(l, c)` pair a process. -/
abbrev Hlc := StringMap (Int × Int)

namespace Hlc

/-- The pair of a process. -/
def clock (s : Hlc) (p : String) : Int × Int := s.getD p (0, 0)

def answer (t : Int × Int) : Value := .obj [("l", .num t.1), ("c", .num t.2)]

/-- The end of an event at `p`: `c` is what the branch counts from, and one more, or zero. -/
def stamp (s : Hlc) (p : String) (l : Int) (c : Option Int) : Handled Hlc :=
  (match c with
    | some c => addI64 c 1
    | none => some 0).map fun c => (s.insert p (l, c), answer (l, c))

def step [Host] (s : Hlc) (command : String) (args : List String) : Handled Hlc :=
  match command with
  | "now" => arg s (word args 0) fun p => arg s (int args 1) fun wall =>
    let l := max (s.clock p).1 wall
    s.stamp p l (if l = (s.clock p).1 then some (s.clock p).2 else none)
  | "recv" => arg s (word args 0) fun p => arg s (int args 1) fun wall =>
    arg s (int args 2) fun lm => arg s (int args 3) fun cm =>
      let (lo, co) := s.clock p
      let l := max (max lo lm) wall
      s.stamp p l <|
        if l = lo ∧ l = lm then some (max co cm)
        else if l = lo then some co
        else if l = lm then some cm
        else none
  | "get" => arg s (word args 0) fun p => some (s, answer (s.clock p))
  | other => some (s, err ("unknown command " ++ debugStr other))

/-! ## The events of a run -/

/-- `(l, c)` pairs in lexicographic order. -/
def Before (a b : Int × Int) : Prop := a.1 < b.1 ∨ a.1 = b.1 ∧ a.2 < b.2

def owner (e : Event Hlc Line Value) : Option String :=
  if e.input.command ∈ ["now", "recv"] ∧ (e.output.get "l").isSome = true then e.input.args[0]? else none

def Answered (es : List (Event Hlc Line Value)) (i : Nat) (t : Int × Int) : Prop :=
  ∃ e, es[i]? = some e ∧ (owner e).isSome = true ∧ e.output = answer t

def Given (es : List (Event Hlc Line Value)) (i : Nat) (wall : Int) : Prop :=
  ∃ e, es[i]? = some e ∧ (owner e).isSome = true ∧ int e.input.args 1 = .ok wall

def computation (es : List (Event Hlc Line Value)) (sender : Nat → Nat) : Lib.Computation String where
  proc i := es[i]?.bind owner
  message i j := ∃ f, es[j]? = some f ∧ (owner f).isSome = true ∧ f.input.command = "recv" ∧ sender j = i

def Delivers (es : List (Event Hlc Line Value)) (sender : Nat → Nat) : Prop :=
  ∀ j f, es[j]? = some f → (owner f).isSome = true → f.input.command = "recv" →
    sender j < j ∧ ∃ lm cm, int f.input.args 2 = .ok lm ∧ int f.input.args 3 = .ok cm ∧
      Answered es (sender j) (lm, cm)

/-! ## One step -/

variable {s s' : Hlc} {l : Line} {v : Value} {p q : String} {wall : Int} {a b t : Int × Int}

theorem Before.trans (h : Before a b) (h' : Before b t) : Before a t := by
  unfold Before at *
  omega

theorem answer_injective (h : answer a = answer b) : a = b := by
  unfold answer at h
  simp only [Value.obj.injEq, List.cons.injEq, Prod.mk.injEq, Value.num.injEq, true_and, and_true] at h
  exact Prod.ext h.1 h.2

theorem clock_insert : clock (s.insert p t) q = if p = q then t else s.clock q :=
  StringMap.getD_insert _ _ _ _ _

/-- What an event at `p` makes of its clock `own`, the wall clock, and the pair of a message if it receives
one. -/
structure Stamped (own : Int × Int) (wall : Int) (message : Option (Int × Int)) (t : Int × Int) : Prop where
  later : Before own t
  received : ∀ m ∈ message, Before m t
  onTime : wall ≤ t.1
  source : t.1 = own.1 ∨ t.1 = wall ∨ ∃ m ∈ message, t.1 = m.1

/-- What a line does: it is an event of a process, or it leaves every clock as it is. -/
def Effect (s : Hlc) (l : Line) (s' : Hlc) (v : Value) : Prop :=
  (owner ⟨s, l, v, s'⟩ = none ∧ s' = s) ∨
  ∃ p wall message t, owner ⟨s, l, v, s'⟩ = some p ∧ int l.args 1 = .ok wall ∧
    (l.command = "now" ∧ message = none ∨
      l.command = "recv" ∧ ∃ lm cm, int l.args 2 = .ok lm ∧ int l.args 3 = .ok cm ∧ message = some (lm, cm)) ∧
    Stamped (s.clock p) wall message t ∧ s' = s.insert p t ∧ v = answer t

theorem stamp_eq_some {n : Int} {c : Option Int} (h : s.stamp p n c = some (s', v)) :
    s' = s.insert p (n, c.elim 0 (· + 1)) ∧ v = answer (n, c.elim 0 (· + 1)) := by
  unfold stamp at h
  obtain ⟨c', hc, heq⟩ := Option.map_eq_some_iff.mp h
  rw [Prod.mk.injEq] at heq
  cases c with
  | none =>
    cases hc
    exact ⟨heq.1.symm, heq.2.symm⟩
  | some c =>
    obtain rfl := (addI64_eq_some.mp hc).2
    exact ⟨heq.1.symm, heq.2.symm⟩

theorem owner_err {message : String} : owner ⟨s, l, err message, s'⟩ = none := by
  have hl : (err message).get "l" = none := rfl
  exact if_neg fun h => absurd h.2 (by rw [hl]; simp)

theorem owner_answer (hcmd : l.command ∈ ["now", "recv"]) (hp : word l.args 0 = .ok p) :
    owner ⟨s, l, answer t, s'⟩ = some p :=
  (if_pos ⟨hcmd, rfl⟩).trans (word_eq_ok.mp hp)

/-- `now`: the clock counts on where the wall clock is not ahead of it. -/
theorem stamped_now (own : Int × Int) (wall : Int) :
    Stamped own wall none (max own.1 wall, (if max own.1 wall = own.1 then some own.2 else none).elim 0 (· + 1)) := by
  constructor
  · unfold Before
    split_ifs with h <;> simp only [Option.elim] <;> omega
  · exact nofun
  · exact le_max_right _ _
  · exact (max_choice own.1 wall).imp id .inl

/-- `recv`: the clock counts on from the larger count among those whose `l` it has. -/
theorem stamped_recv (own m : Int × Int) (wall : Int) : Stamped own wall (some m) (max (max own.1 m.1) wall,
      (if max (max own.1 m.1) wall = own.1 ∧ max (max own.1 m.1) wall = m.1 then some (max own.2 m.2)
        else if max (max own.1 m.1) wall = own.1 then some own.2
        else if max (max own.1 m.1) wall = m.1 then some m.2
        else none).elim 0 (· + 1)) := by
  constructor
  · unfold Before
    split_ifs with hboth hown hmessage <;> simp only [Option.elim] <;> omega
  · rintro _ ⟨rfl⟩
    unfold Before
    split_ifs with hboth hown hmessage <;> simp only [Option.elim] <;> omega
  · exact le_max_right _ _
  · rcases max_choice (max own.1 m.1) wall with h | h
    · rcases max_choice own.1 m.1 with h' | h'
      · exact .inl (h.trans h')
      · exact .inr (.inr ⟨m, rfl, h.trans h'⟩)
    · exact .inr (.inl h)

theorem effect_none (h : some (s, v) = some (s', v')) (hv : owner ⟨s, l, v, s⟩ = none) : Effect s l s' v' := by
  rw [Option.some.injEq, Prod.mk.injEq] at h
  obtain ⟨rfl, rfl⟩ := h
  exact .inl ⟨hv, rfl⟩

theorem step_effect [Host] (h : onLine step s l = some (s', v)) : Effect s l s' v := by
  obtain ⟨command, args⟩ := l
  have hbad : ∀ {α : Type} {e : Except Value α}, (∀ {w}, e = .error w → ∃ message, w = err message) →
      e = .error v → s' = s → Effect s ⟨command, args⟩ s' v := by
    intro α e herror he hs
    obtain ⟨message, rfl⟩ := herror he
    exact .inl ⟨owner_err, hs⟩
  unfold onLine step at h
  dsimp only at h
  split at h
  · rcases arg_eq_some.mp h with ⟨hp, hs⟩ | ⟨p, hp, h⟩
    · exact hbad word_error hp hs
    rcases arg_eq_some.mp h with ⟨hwall, hs⟩ | ⟨wall, hwall, h⟩
    · exact hbad int_error hwall hs
    · obtain ⟨rfl, rfl⟩ := stamp_eq_some h
      exact .inr ⟨p, wall, none, _, owner_answer (by simp) hp, hwall, .inl ⟨rfl, rfl⟩, stamped_now _ _, rfl, rfl⟩
  · rcases arg_eq_some.mp h with ⟨hp, hs⟩ | ⟨p, hp, h⟩
    · exact hbad word_error hp hs
    rcases arg_eq_some.mp h with ⟨hwall, hs⟩ | ⟨wall, hwall, h⟩
    · exact hbad int_error hwall hs
    rcases arg_eq_some.mp h with ⟨hlm, hs⟩ | ⟨lm, hlm, h⟩
    · exact hbad int_error hlm hs
    rcases arg_eq_some.mp h with ⟨hcm, hs⟩ | ⟨cm, hcm, h⟩
    · exact hbad int_error hcm hs
    · obtain ⟨rfl, rfl⟩ := stamp_eq_some h
      exact .inr ⟨p, wall, some (lm, cm), _, owner_answer (by simp) hp, hwall,
        .inr ⟨rfl, lm, cm, hlm, hcm, rfl⟩, stamped_recv _ (lm, cm) _, rfl, rfl⟩
  · rcases arg_eq_some.mp h with ⟨hp, hs⟩ | ⟨p, hp, h⟩
    · exact hbad word_error hp hs
    · exact effect_none h (if_neg fun h => absurd h.1 (by simp))
  · exact effect_none h owner_err

/-! ## A run -/

variable {es : List (Event Hlc Line Value)} {sender : Nat → Nat}

structure Kept (es : List (Event Hlc Line Value)) (s : Hlc) : Prop where
  last : ∀ p, s.clock p = (0, 0) ∨ ∃ e ∈ es, owner e = some p ∧ e.output = answer (s.clock p)
  above : ∀ e ∈ es, ∀ p t, owner e = some p → e.output = answer t → t = s.clock p ∨ Before t (s.clock p)

theorem kept_step [Host] (h : Kept es s) (hs : onLine step s l = some (s', v)) : Kept (es ++ [⟨s, l, v, s'⟩]) s' := by
  rcases step_effect hs with ⟨hnone, rfl⟩ | ⟨p, wall, message, t, hp, -, -, hstamped, rfl, rfl⟩
  · refine ⟨fun p => ?_, forall_mem_snoc h.above fun q t hq => nomatch hnone.symm.trans hq⟩
    rcases h.last p with h0 | ⟨e, he, hlast⟩
    · exact .inl h0
    · exact .inr ⟨e, List.mem_append_left _ he, hlast⟩
  · refine ⟨fun q => ?_, forall_mem_snoc (fun e he q u hq hu => ?_) fun q u hq hu => ?_⟩
    · rw [clock_insert]
      split_ifs with hpq
      · subst hpq
        exact .inr ⟨_, List.mem_concat_self, hp, rfl⟩
      · rcases h.last q with h0 | ⟨e, he, hlast⟩
        · exact .inl h0
        · exact .inr ⟨e, List.mem_append_left _ he, hlast⟩
    · rw [clock_insert]
      split_ifs with hpq
      · subst hpq
        rcases h.above e he p u hq hu with rfl | hbefore
        · exact .inr hstamped.later
        · exact .inr (hbefore.trans hstamped.later)
      · exact h.above e he q u hq hu
    · obtain rfl : p = q := Option.mem_unique hp hq
      obtain rfl := answer_injective hu
      exact .inl (by rw [clock_insert, if_pos rfl])

theorem kept [Host] (hrun : Run (onLine step) ∅ es s) : Kept es s :=
  hrun.history_invariant (P := Kept) (G := fun _ => True)
    ⟨fun _ => .inl Std.ExtTreeMap.getD_empty, List.forall_mem_nil _⟩
    (fun _ _ _ _ _ h _ hs => kept_step h hs) fun _ _ => trivial

def stampAt (es : List (Event Hlc Line Value)) (i : Nat) : Int × Int :=
  match es[i]? with
  | some e => e.after.clock ((owner e).getD "")
  | none => (0, 0)

def wallAt (es : List (Event Hlc Line Value)) (i : Nat) : Int :=
  match es[i]?.map fun e => int e.input.args 1 with
  | some (.ok wall) => wall
  | _ => 0

variable {i : Nat}

theorem proc_eq_some : (computation es sender).proc i = some p ↔ ∃ e, es[i]? = some e ∧ owner e = some p :=
  Option.bind_eq_some_iff

variable {e : Event Hlc Line Value}

theorem event_at [Host] (hrun : Run (onLine step) ∅ es s) (he : es[i]? = some e)
    (hp : owner e = some p) : Kept (es.take i) e.before ∧ ∃ wall message, int e.input.args 1 = .ok wall ∧
      (e.input.command = "now" ∧ message = none ∨ e.input.command = "recv" ∧ ∃ lm cm,
        int e.input.args 2 = .ok lm ∧ int e.input.args 3 = .ok cm ∧ message = some (lm, cm)) ∧
      Stamped (e.before.clock p) wall message (stampAt es i) ∧ e.output = answer (stampAt es i) := by
  have hi : i < es.length := (List.getElem?_eq_some_iff.mp he).1
  have hsplit : es = es.take i ++ e :: es.drop (i + 1) := by
    conv_lhs => rw [← List.take_append_drop i es]
    rw [List.drop_eq_getElem_cons hi, (List.getElem?_eq_some_iff.mp he).2]
  have hstamp : stampAt es i = e.after.clock p := by
    unfold stampAt
    rw [he]
    dsimp only
    rw [hp, Option.getD_some]
  refine ⟨kept (hrun.split hsplit), ?_⟩
  rcases step_effect (hrun.step_of_mem (List.mem_of_getElem? he)) with
    ⟨hnone, -⟩ | ⟨q, wall, message, t, hq, hwall, hmessage, hstamped, hafter, houtput⟩
  · cases hnone.symm.trans hp
  obtain rfl : q = p := Option.mem_unique hq hp
  obtain rfl : stampAt es i = t := by rw [hstamp, hafter, clock_insert, if_pos rfl]
  exact ⟨wall, message, hwall, hmessage, hstamped, houtput⟩

variable (sender) in
theorem answered_iff [Host] (hrun : Run (onLine step) ∅ es s) (h : Answered es i t) :
    ∃ p, (computation es sender).proc i = some p ∧ t = stampAt es i := by
  obtain ⟨e, he, hsome, hanswer⟩ := h
  obtain ⟨p, hp⟩ := Option.isSome_iff_exists.mp hsome
  obtain ⟨-, -, -, -, -, -, houtput⟩ := event_at hrun he hp
  exact ⟨p, proc_eq_some.mpr ⟨e, he, hp⟩, answer_injective (hanswer.symm.trans houtput)⟩

variable (sender) in
theorem own_source [Host] (hrun : Run (onLine step) ∅ es s)
    (he : es[i]? = some e) (hp : owner e = some p) : e.before.clock p = (0, 0) ∨
      ∃ j, (computation es sender).Direct j i ∧ e.before.clock p = stampAt es j := by
  obtain ⟨hkept, -⟩ := event_at hrun he hp
  refine (hkept.last p).imp id ?_
  rintro ⟨f, hf, hfp, houtput⟩
  obtain ⟨j, hj⟩ := List.getElem?_of_mem hf
  rw [List.getElem?_take] at hj
  split_ifs at hj with hji
  obtain ⟨-, -, -, -, -, -, hstamp⟩ := event_at hrun hj hfp
  exact ⟨j, ⟨hji, p, p, proc_eq_some.mpr ⟨f, hj, hfp⟩, proc_eq_some.mpr ⟨e, he, hp⟩, .inl rfl⟩,
    answer_injective (houtput.symm.trans hstamp)⟩

theorem before_of_direct [Host] (hrun : Run (onLine step) ∅ es s) (hdelivers : Delivers es sender) {i j : Nat}
    (h : (computation es sender).Direct i j) : Before (stampAt es i) (stampAt es j) := by
  obtain ⟨hij, p, q, hp, hq, horder⟩ := h
  obtain ⟨e, he, hep⟩ := proc_eq_some.mp hp
  obtain ⟨f, hf, hfq⟩ := proc_eq_some.mp hq
  obtain ⟨-, -, -, -, -, -, hstamp⟩ := event_at hrun he hep
  obtain ⟨hkept, wall, message, -, hmessage, hstamped, -⟩ := event_at hrun hf hfq
  rcases horder with rfl | ⟨f', hf', hsome, hrecv, rfl⟩
  · have hmem : e ∈ es.take j := List.mem_of_getElem? (i := i) (by rw [List.getElem?_take, if_pos hij, he])
    rcases hkept.above e hmem p _ hep hstamp with heq | hbefore
    · rw [heq]
      exact hstamped.later
    · exact hbefore.trans hstamped.later
  · obtain rfl := Option.mem_unique hf' hf
    obtain ⟨-, lm, cm, hlm, hcm, hanswered⟩ := hdelivers j f' hf hsome hrecv
    obtain ⟨-, -, hpair⟩ := answered_iff sender hrun hanswered
    rcases hmessage with ⟨hnow, -⟩ | ⟨-, lm', cm', hlm', hcm', rfl⟩
    · exact absurd (hnow.symm.trans hrecv) (by decide)
    · obtain rfl := Except.ok.inj (hlm.symm.trans hlm')
      obtain rfl := Except.ok.inj (hcm.symm.trans hcm')
      exact hpair ▸ hstamped.received _ rfl

theorem wallAt_eq (he : es[i]? = some e) (hwall : int e.input.args 1 = .ok wall) : wallAt es i = wall := by
  unfold wallAt
  rw [he, Option.map_some, hwall]

/-- And their `l` is handed on, or is the wall clock. -/
theorem level_source [Host] (hrun : Run (onLine step) ∅ es s) (hdelivers : Delivers es sender) (i : Nat) (p : String)
    (hi : (computation es sender).proc i = some p) : (stampAt es i).1 ≤ 0 ∨ (stampAt es i).1 ≤ wallAt es i ∨
      ∃ j, (computation es sender).Direct j i ∧ (stampAt es i).1 ≤ (stampAt es j).1 := by
  obtain ⟨e, he, hp⟩ := proc_eq_some.mp hi
  obtain ⟨-, wall, message, hwall, hmessage, hstamped, -⟩ := event_at hrun he hp
  rcases hstamped.source with hown | hw | ⟨m, hm, hlevel⟩
  · rcases own_source sender hrun he hp with h0 | ⟨j, hji, hj⟩
    · exact .inl (by rw [hown, h0])
    · exact .inr (.inr ⟨j, hji, by rw [hown, hj]⟩)
  · exact .inr (.inl (by rw [hw, wallAt_eq he hwall]))
  · rcases hmessage with ⟨-, rfl⟩ | ⟨hrecv, lm, cm, hlm, hcm, rfl⟩
    · cases hm
    · cases hm
      have hsome : (owner e).isSome = true := by rw [hp]; rfl
      obtain ⟨hlt, lm', cm', hlm', hcm', hanswered⟩ := hdelivers i e he hsome hrecv
      obtain rfl := Except.ok.inj (hlm.symm.trans hlm')
      obtain ⟨q, hq, hpair⟩ := answered_iff sender hrun hanswered
      refine .inr (.inr ⟨sender i, ⟨hlt, q, p, hq, hi, .inr ⟨e, he, hsome, hrecv, rfl⟩⟩, ?_⟩)
      rw [hlevel, ← hpair]

/-- **Hybrid logical clocks are causal and bounded**: an event that happened before another has the smaller
pair; an answered `l` is at least the wall time given with its event; and it is at most a wall time given with an
event in its past, or at most zero. -/
theorem hlc_causal_and_bounded [Host] (hrun : Run (onLine step) ∅ es s) (hdelivers : Delivers es sender) :
    (∀ i j a b, Answered es i a → Answered es j b → (computation es sender).HappenedBefore i j → Before a b) ∧
    (∀ i a wall, Answered es i a → Given es i wall → wall ≤ a.1) ∧
    (∀ i a, Answered es i a → a.1 ≤ 0 ∨
      ∃ k wall, (computation es sender).InPast k i ∧ Given es k wall ∧ a.1 ≤ wall) := by
  refine ⟨fun i j a b ha hb hij => ?_, fun i a wall ha hwall => ?_, fun i a ha => ?_⟩
  · obtain ⟨-, -, rfl⟩ := answered_iff sender hrun ha
    obtain ⟨-, -, rfl⟩ := answered_iff sender hrun hb
    exact hij.grows (r := Before) (stampAt es) (fun _ _ _ => Before.trans) fun _ _ =>
      before_of_direct hrun hdelivers
  · obtain ⟨-, -, rfl⟩ := answered_iff sender hrun ha
    obtain ⟨e, he, hsome, hwall⟩ := hwall
    obtain ⟨p, hp⟩ := Option.isSome_iff_exists.mp hsome
    obtain ⟨-, wall', _, hwall', -, hstamped, -⟩ := event_at hrun he hp
    obtain rfl := Except.ok.inj (hwall.symm.trans hwall')
    exact hstamped.onTime
  · obtain ⟨p, hp, rfl⟩ := answered_iff sender hrun ha
    refine (Lib.Computation.level_le (wallAt es) (level_source hrun hdelivers) i p hp).imp id ?_
    rintro ⟨k, q, hq, hki, hle⟩
    obtain ⟨e, he, heq⟩ := proc_eq_some.mp hq
    obtain ⟨-, wall, -, hwall, -, -, -⟩ := event_at hrun he heq
    exact ⟨k, wall, hki, ⟨e, he, by rw [heq]; rfl, hwall⟩, by rwa [wallAt_eq he hwall] at hle⟩

def aheadOfTime : List Line := [⟨"now", ["p", "10"]⟩, ⟨"recv", ["q", "5", "10", "0"]⟩]

theorem hlc_ahead_of_time : ∃ es s, Run (onLine (@step (hostOf []))) ∅ es s ∧ es.map Event.input = aheadOfTime ∧
    Delivers es (fun _ => 0) ∧ Answered es 0 (10, 0) ∧ Answered es 1 (10, 1) ∧ Given es 1 5 ∧
    Before (10, 0) (10, 1) ∧ (5 : Int) ≤ 10 := by
  let _ : Host := hostOf []
  obtain ⟨e, f, s, hrun, hinputs, hsent, hreceived, hgiven⟩ :
      ∃ e f s, Run (onLine step) ∅ [e, f] s ∧ [e, f].map Event.input = aheadOfTime ∧
        Answered [e, f] 0 (10, 0) ∧ Answered [e, f] 1 (10, 1) ∧ Given [e, f] 1 5 :=
    ⟨_, _, _, run_of_exec aheadOfTime rfl, rfl, ⟨_, rfl, rfl, rfl⟩, ⟨_, rfl, rfl, rfl⟩, _, rfl, rfl, rfl⟩
  have hlines : e.input = ⟨"now", ["p", "10"]⟩ ∧ f.input = ⟨"recv", ["q", "5", "10", "0"]⟩ := by
    simpa only [aheadOfTime, List.map_cons, List.map_nil, List.cons.injEq, and_true] using hinputs
  have hdelivers : Delivers [e, f] fun _ => 0 := by
    intro j g hg _ hrecv
    match j with
    | 0 =>
      obtain rfl := Option.some.inj hg
      rw [hlines.1] at hrecv
      exact absurd hrecv (by decide)
    | 1 =>
      obtain rfl := Option.some.inj hg
      rw [hlines.2]
      exact ⟨Nat.one_pos, 10, 0, rfl, rfl, hsent⟩
    | j + 2 => simp at hg
  obtain ⟨hcausal, honTime, -⟩ := hlc_causal_and_bounded hrun hdelivers
  refine ⟨_, s, hrun, hinputs, hdelivers, hsent, hreceived, hgiven, hcausal 0 1 _ _ hsent hreceived ?_,
    honTime 1 _ _ hreceived hgiven⟩
  obtain ⟨p, hp, -⟩ := answered_iff (fun _ => 0) hrun hsent
  obtain ⟨q, hq, -⟩ := answered_iff (fun _ => 0) hrun hreceived
  obtain ⟨g, hg, hsome, -⟩ := hreceived
  obtain rfl := Option.some.inj hg
  have hrecv : f.input.command = "recv" := by rw [hlines.2]
  exact .single ⟨Nat.one_pos, p, q, hp, hq, .inr ⟨f, rfl, hsome, hrecv, rfl⟩⟩

end Hlc

end BuildYourOwn.Clocks
