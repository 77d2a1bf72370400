import BuildYourOwn.Clocks.Clock
import BuildYourOwn.Lib.Causality

/-!
# Vector clocks capture causality

The events of a run are its `local`, `send` and `recv` lines that are answered with a clock, at the
positions they have in the history (`computation`). A receipt is of the sending whose clock it was
given.

* The clock of a process is the stamp of its last event, above all its earlier ones (`Kept`).
* An event's stamp is the least clock above what directly precedes it, one higher at its own process
  (`stamps`), so `Computation.Stamps.le_iff` applies.
-/

namespace BuildYourOwn.Clocks.VectorClocks

open Lib Topic Clock

def owner (e : Event VectorClocks Line Value) : Option String :=
  if e.input.command ∈ ["local", "send", "recv"] ∧ (e.output.get "vc").isSome = true then
    e.input.args[0]?
  else none

/-- The event at position `j` received what the one at position `i` sent. -/
def Received [Host] (es : List (Event VectorClocks Line Value)) (i j : Nat) : Prop :=
  ∃ e f c, es[i]? = some e ∧ es[j]? = some f ∧
    e.input.command = "send" ∧ (owner e).isSome = true ∧ e.output = answer c ∧
    f.input.command = "recv" ∧ clockArg f.input.args 1 = .ok c

def computation [Host] (es : List (Event VectorClocks Line Value)) : Lib.Computation String where
  proc i := es[i]?.bind owner
  message := Received es

def Answered (es : List (Event VectorClocks Line Value)) (i : Nat) (c : Clock) : Prop :=
  ∃ e, es[i]? = some e ∧ (owner e).isSome = true ∧ e.output = answer c

/-- Every receipt is of a message sent before. -/
def Delivers [Host] (es : List (Event VectorClocks Line Value)) : Prop :=
  ∀ j f, es[j]? = some f → (owner f).isSome = true → f.input.command = "recv" →
    ∃ i < j, Received es i j

/-! ## One step -/

variable {s s' : VectorClocks} {l : Line} {v : Value} {p q : String} {c msg : Clock}

theorem answer_injective {a b : Clock} (h : answer a = answer b) : a = b := by
  unfold answer at h
  rw [Value.obj.injEq, List.cons.injEq, Prod.mk.injEq] at h
  exact json_injective h.1.2

/-- What an event at `p` starts from: the clock of `p`, with the message's merged into it. -/
def Base [Host] (s : VectorClocks) (l : Line) (p : String) (base : Clock) : Prop :=
  (l.command ≠ "recv" ∧ base = s.clock p) ∨
  (l.command = "recv" ∧ ∃ msg, clockArg l.args 1 = .ok msg ∧ base = mergeInto (s.clock p) msg)

def Effect [Host] (s : VectorClocks) (l : Line) (s' : VectorClocks) (v : Value) : Prop :=
  (owner ⟨s, l, v, s'⟩ = none ∧ ∀ p, s'.clock p = s.clock p) ∨
  ∃ p base, owner ⟨s, l, v, s'⟩ = some p ∧ Base s l p base ∧ s.stamp p base = some (s', v)

theorem stamp_eq_some {base : Clock} (h : s.stamp p base = some (s', v)) :
    ∃ c, base.bump p = some c ∧ s' = s.insert p c ∧ v = answer c := by
  unfold stamp at h
  obtain ⟨c, hc, heq⟩ := Option.map_eq_some_iff.mp h
  rw [Prod.mk.injEq] at heq
  exact ⟨c, hc, heq.1.symm, heq.2.symm⟩

theorem owner_err {message : String} : owner ⟨s, l, err message, s'⟩ = none := by
  have hvc : (err message).get "vc" = none := rfl
  exact if_neg fun h => absurd h.2 (by rw [hvc]; simp)

theorem owner_answer (hcmd : l.command ∈ ["local", "send", "recv"]) (hp : word l.args 0 = .ok p) :
    owner ⟨s, l, answer c, s'⟩ = some p :=
  (if_pos ⟨hcmd, rfl⟩).trans (word_eq_ok.mp hp)

theorem owner_other (hcmd : l.command ∉ ["local", "send", "recv"]) : owner ⟨s, l, v, s'⟩ = none :=
  if_neg fun h => hcmd h.1

theorem clock_of_stamp {base : Clock} (h : s.stamp p base = some (s', v)) :
    v = answer (s'.clock p) ∧ (∀ q ≠ p, s'.clock q = s.clock q) ∧
    ∀ name, (s'.clock p).count name = if name = p then base.count name + 1 else base.count name := by
  obtain ⟨c, hc, rfl, rfl⟩ := stamp_eq_some h
  rw [clock_insert, if_pos rfl]
  exact ⟨rfl, fun q hq => by rw [clock_insert, if_neg (Ne.symm hq)], fun name => count_bump hc⟩

theorem effect_err [Host] {message : String} : Effect s l s (err message) :=
  .inl ⟨owner_err, fun _ => rfl⟩

variable [Host]

theorem step_effect (h : onLine step s l = some (s', v)) : Effect s l s' v := by
  obtain ⟨command, args⟩ := l
  unfold onLine step at h
  dsimp only at h
  have hevent : ∀ command ∈ ["local", "send"], arg s (word args 0) s.tick = some (s', v) →
      Effect s ⟨command, args⟩ s' v := by
    intro command hcmd h
    rcases arg_eq_some.mp h with ⟨hp, rfl⟩ | ⟨p, hp, h⟩
    · obtain ⟨message, rfl⟩ := word_error hp
      exact effect_err
    · obtain ⟨c, -, -, rfl⟩ := stamp_eq_some h
      refine .inr ⟨p, _, owner_answer (List.mem_append_left ["recv"] hcmd) hp, .inl ⟨?_, rfl⟩, h⟩
      rintro rfl
      exact absurd hcmd (by decide)
  split at h
  · exact hevent "local" (by decide) h
  · exact hevent "send" (by decide) h
  · rcases arg_eq_some.mp h with ⟨hp, rfl⟩ | ⟨p, hp, h⟩
    · obtain ⟨message, rfl⟩ := word_error hp
      exact effect_err
    rcases arg_eq_some.mp h with ⟨hmsg, rfl⟩ | ⟨msg, hmsg, h⟩
    · obtain ⟨message, rfl⟩ := clockArg_error hmsg
      exact effect_err
    · obtain ⟨c, -, -, rfl⟩ := stamp_eq_some h
      exact .inr ⟨p, _, owner_answer (by simp) hp, .inr ⟨rfl, msg, hmsg, rfl⟩, h⟩
  · rcases arg_eq_some.mp h with ⟨hp, rfl⟩ | ⟨p, hp, h⟩
    · obtain ⟨message, rfl⟩ := word_error hp
      exact effect_err
    · rw [Option.some.injEq, Prod.mk.injEq] at h
      obtain ⟨rfl, rfl⟩ := h
      refine .inl ⟨owner_other (by simp), fun q => ?_⟩
      rw [clock_insert]
      split_ifs with hpq
      · rw [hpq]
      · rfl
  · refine .inl ⟨owner_other (by simp), ?_⟩
    rcases arg_eq_some.mp h with ⟨-, rfl⟩ | ⟨a, -, h⟩
    · exact fun _ => rfl
    rcases arg_eq_some.mp h with ⟨-, rfl⟩ | ⟨b, -, h⟩
    · exact fun _ => rfl
    · rw [Option.some.injEq, Prod.mk.injEq] at h
      obtain ⟨rfl, -⟩ := h
      exact fun _ => rfl
  · rw [Option.some.injEq, Prod.mk.injEq] at h
    obtain ⟨rfl, rfl⟩ := h
    exact effect_err

/-! ## A run -/

variable {es : List (Event VectorClocks Line Value)}

structure Kept (es : List (Event VectorClocks Line Value)) (s : VectorClocks) : Prop where
  nonneg : ∀ p name, 0 ≤ (s.clock p).count name
  above : ∀ e ∈ es, ∀ p, owner e = some p → Le (e.after.clock p) (s.clock p)
  last : ∀ p name, (s.clock p).count name = 0 ∨
    ∃ e ∈ es, owner e = some p ∧ (s.clock p).count name = (e.after.clock p).count name

theorem Base.above {base : Clock} (h : Base s l p base)
    (hnonneg : ∀ name, 0 ≤ (s.clock p).count name) : Le (s.clock p) base := by
  rcases h with ⟨-, rfl⟩ | ⟨-, msg, -, rfl⟩
  · exact Le.refl _
  · intro name
    rw [count_merge (hnonneg name)]
    exact le_max_left _ _

theorem kept_step (h : Kept es s) (hs : onLine step s l = some (s', v)) : Kept (es ++ [⟨s, l, v, s'⟩]) s' := by
  rcases step_effect hs with ⟨hnone, hclock⟩ | ⟨p, base, hp, hbase, hstamp⟩
  · refine ⟨fun p name => hclock p ▸ h.nonneg p name, fun e he p hp => ?_, fun p name => ?_⟩
    · rcases List.mem_append.mp he with he | he
      · exact hclock p ▸ h.above e he p hp
      · obtain rfl := List.mem_singleton.mp he
        cases hnone.symm.trans hp
    · rcases h.last p name with h0 | ⟨e, he, hp, heq⟩
      · exact .inl (hclock p ▸ h0)
      · exact .inr ⟨e, List.mem_append_left _ he, hp, hclock p ▸ heq⟩
  · obtain ⟨-, hother, hcount⟩ := clock_of_stamp hstamp
    have hgrow : Le (s.clock p) (s'.clock p) := by
      intro name
      have := hbase.above (h.nonneg p) name
      rw [hcount name]
      split_ifs <;> omega
    refine ⟨fun q name => ?_, fun e he q hq => ?_, fun q name => ?_⟩
    · by_cases hqp : q = p
      · exact hqp ▸ (h.nonneg p name).trans (hgrow name)
      · exact hother q hqp ▸ h.nonneg q name
    · rcases List.mem_append.mp he with he | he
      · by_cases hqp : q = p
        · subst hqp
          exact (h.above e he q hq).trans hgrow
        · exact hother q hqp ▸ h.above e he q hq
      · obtain rfl := List.mem_singleton.mp he
        exact Le.refl _
    · by_cases hqp : q = p
      · subst hqp
        exact .inr ⟨_, List.mem_concat_self, hp, rfl⟩
      · rcases h.last q name with h0 | ⟨e, he, hq, heq⟩
        · exact .inl (hother q hqp ▸ h0)
        · exact .inr ⟨e, List.mem_append_left _ he, hq, hother q hqp ▸ heq⟩

theorem kept (hrun : Run (onLine step) ∅ es s) : Kept es s := by
  refine hrun.history_invariant (P := Kept) (G := fun _ => True) ?_
    (fun es s l s' v h _ hs => kept_step h hs) (fun _ _ => trivial)
  have hempty : ∀ p name, ((∅ : VectorClocks).clock p).count name = 0 := by
    intro p name
    rw [clock, Std.ExtTreeMap.getD_empty, count_empty]
  exact ⟨fun p name => Int.le_of_eq (hempty p name).symm, List.forall_mem_nil _,
    fun p name => .inl (hempty p name)⟩

/-! ## The stamps of a run -/

def stampAt (es : List (Event VectorClocks Line Value)) (i : Nat) (name : String) : Int :=
  match es[i]? with
  | some e => (e.after.clock ((owner e).getD "")).count name
  | none => 0

variable {e : Event VectorClocks Line Value}

omit [Host] in
theorem stampAt_eq {i : Nat} (he : es[i]? = some e)
    (hp : owner e = some p) (name : String) : stampAt es i name = (e.after.clock p).count name := by
  unfold stampAt
  rw [he]
  dsimp only
  rw [hp, Option.getD_some]

theorem proc_eq_some {i : Nat} : (computation es).proc i = some p ↔ ∃ e, es[i]? = some e ∧ owner e = some p :=
  Option.bind_eq_some_iff

theorem event_at (hrun : Run (onLine step) ∅ es s) {i : Nat} (he : es[i]? = some e) :
    Kept (es.take i) e.before ∧ Effect e.before e.input e.after e.output := by
  have hi : i < es.length := (List.getElem?_eq_some_iff.mp he).1
  have hsplit : es = es.take i ++ e :: es.drop (i + 1) := by
    conv_lhs => rw [← List.take_append_drop i es]
    rw [List.drop_eq_getElem_cons hi, (List.getElem?_eq_some_iff.mp he).2]
  exact ⟨kept (hrun.split hsplit), step_effect (hrun.step_of_mem (List.mem_of_getElem? he))⟩

theorem answer_eq (hrun : Run (onLine step) ∅ es s) {i : Nat}
    (he : es[i]? = some e) (hp : owner e = some p) : e.output = answer (e.after.clock p) := by
  rcases (event_at hrun he).2 with ⟨hnone, -⟩ | ⟨q, base, hq, -, hstamp⟩
  · cases hnone.symm.trans hp
  · obtain rfl : q = p := Option.mem_unique hq hp
    exact (clock_of_stamp hstamp).1

theorem received_stamp (hrun : Run (onLine step) ∅ es s) {i j : Nat} {f : Event VectorClocks Line Value}
    (hij : Received es i j) (hf : es[j]? = some f) (hmsg : clockArg f.input.args 1 = .ok msg) :
    ∃ p, (computation es).proc i = some p ∧ ∀ name, stampAt es i name = msg.count name := by
  obtain ⟨e, f', c, he, hf', -, hsome, hout, -, hc⟩ := hij
  obtain ⟨p, hp⟩ := Option.isSome_iff_exists.mp hsome
  obtain rfl : f' = f := Option.mem_unique hf' hf
  obtain rfl : c = msg := Except.ok.inj (hc.symm.trans hmsg)
  refine ⟨p, proc_eq_some.mpr ⟨e, he, hp⟩, fun name => ?_⟩
  rw [stampAt_eq he hp, answer_injective (hout.symm.trans (answer_eq hrun he hp))]

/-- **The clocks of a run are kept as vector clocks.** -/
theorem stamps (hrun : Run (onLine step) ∅ es s) (hdelivers : Delivers es) : (computation es).Stamps (stampAt es) := by
  intro i p hi
  obtain ⟨e, he, hp⟩ := proc_eq_some.mp hi
  obtain ⟨hkept, heffect⟩ := event_at hrun he
  rcases heffect with ⟨hnone, -⟩ | ⟨q, base, hq, hbase, hstamp⟩
  · cases hnone.symm.trans hp
  obtain rfl : q = p := Option.mem_unique hq hp
  obtain ⟨-, -, hcount⟩ := clock_of_stamp hstamp
  -- what the process's own clock holds is the stamps of its earlier events
  have hown : ∀ j f, j < i → es[j]? = some f → f ∈ es.take i := by
    intro j f hji hf
    exact List.mem_of_getElem? (i := j) (by rw [List.getElem?_take, if_pos hji, hf])
  have hlast : ∀ name, (e.before.clock q).count name = 0 ∨ ∃ j, (computation es).Direct j i ∧
      (e.before.clock q).count name = stampAt es j name := by
    intro name
    rcases hkept.last q name with h0 | ⟨f, hf, hfq, heq⟩
    · exact .inl h0
    · obtain ⟨j, hj⟩ := List.getElem?_of_mem hf
      rw [List.getElem?_take] at hj
      split_ifs at hj with hji
      · exact .inr ⟨j, ⟨hji, q, q, proc_eq_some.mpr ⟨f, hj, hfq⟩, hi, .inl rfl⟩,
          heq.trans (stampAt_eq hj hfq name).symm⟩
  refine ⟨base.count, fun name => ?_, fun name => ?_, fun j name hji => ?_, fun name => ?_⟩
  · rw [stampAt_eq he hp, hcount]
  · exact (hkept.nonneg q name).trans (hbase.above (hkept.nonneg q) name)
  · obtain ⟨hlt, r, r', hr, hr', horder⟩ := hji
    obtain ⟨f, hf, hfr⟩ := proc_eq_some.mp hr
    obtain rfl : r' = q := Option.mem_unique hr' hi
    rcases horder with rfl | hmessage
    · rw [stampAt_eq hf hfr]
      exact (hkept.above f (hown j f hlt hf) r hfr).trans (hbase.above (hkept.nonneg r)) name
    · rcases hbase with ⟨hcmd, -⟩ | ⟨-, msg, hmsg, rfl⟩
      · obtain ⟨-, f', -, -, hf', -, -, -, hrecv, -⟩ := hmessage
        exact absurd hrecv (Option.mem_unique hf' he ▸ hcmd)
      · obtain ⟨-, -, heq⟩ := received_stamp hrun hmessage he hmsg
        rw [heq, count_merge (hkept.nonneg r' name)]
        exact le_max_right _ _
  · rcases hbase with ⟨-, rfl⟩ | ⟨hcmd, msg, hmsg, rfl⟩
    · exact hlast name
    · rw [count_merge (hkept.nonneg q name)]
      rcases max_choice ((e.before.clock q).count name) (msg.count name) with hmax | hmax
      · rw [hmax]
        exact hlast name
      · obtain ⟨j, hji, hmessage⟩ := hdelivers i e he (by rw [hp]; rfl) hcmd
        obtain ⟨r, hr, heq⟩ := received_stamp hrun hmessage he hmsg
        rw [hmax]
        exact .inr ⟨j, ⟨hji, r, q, hr, hi, .inr hmessage⟩, (heq name).symm⟩

/-- **Vector clocks capture causality**: `cmp` of the clocks of two events answers how the events are
related. -/
theorem clocks_capture_causality (hrun : Run (onLine step) ∅ es s) (hdelivers : Delivers es)
    {i j : Nat} {a b : Clock} (hi : Answered es i a) (hj : Answered es j b)
    (t : VectorClocks) (args : List String) (ha : clockArg args 0 = .ok a)
    (hb : clockArg args 1 = .ok b) :
    ∃ r : Rel, step t "cmp" args = some (t, .obj [("rel", .str r.text)]) ∧
      (r = .before ↔ (computation es).HappenedBefore i j) ∧
      (r = .after ↔ (computation es).HappenedBefore j i) ∧
      (r = .equal ↔ i = j) ∧
      (r = .concurrent ↔ i ≠ j ∧ ¬ (computation es).HappenedBefore i j ∧
        ¬ (computation es).HappenedBefore j i) := by
  have hle : ∀ {i j : Nat} {a b : Clock}, Answered es i a → Answered es j b →
      (Le a b ↔ (computation es).InPast i j) := by
    rintro i j a b ⟨e, he, hep, ha⟩ ⟨f, hf, hfp, hb⟩
    obtain ⟨p, hp⟩ := Option.isSome_iff_exists.mp hep
    obtain ⟨q, hq⟩ := Option.isSome_iff_exists.mp hfp
    rw [← (stamps hrun hdelivers).le_iff (proc_eq_some.mpr ⟨e, he, hp⟩)
      (proc_eq_some.mpr ⟨f, hf, hq⟩)]
    rw [answer_injective (ha.symm.trans (answer_eq hrun he hp)),
      answer_injective (hb.symm.trans (answer_eq hrun hf hq))]
    exact forall_congr' fun name => by rw [stampAt_eq he hp, stampAt_eq hf hq]
  have hcmp : step t "cmp" args = some (t, .obj [("rel", .str (relation a b).text)]) := by
    show arg t (clockArg args 0) _ = _
    rw [ha, arg_ok, hb, arg_ok]
  obtain ⟨hequal, hbefore, hafter, hconcurrent⟩ := relation_spec a b
  rw [hle hi hj, hle hj hi] at hequal hbefore hafter hconcurrent
  refine ⟨relation a b, hcmp, ?_, ?_, ?_, ?_⟩
  · rw [hbefore, Lib.Computation.happenedBefore_iff]
  · rw [hafter, Lib.Computation.happenedBefore_iff, and_comm]
  · rw [hequal]
    constructor
    · exact fun h => h.1.antisymm h.2
    · rintro rfl
      exact ⟨.inl rfl, .inl rfl⟩
  · rw [hconcurrent, Lib.Computation.InPast, Lib.Computation.InPast, not_or, not_or]
    constructor
    · exact fun ⟨⟨hne, hij⟩, _, hji⟩ => ⟨hne, hij, hji⟩
    · exact fun ⟨hne, hij, hji⟩ => ⟨⟨hne, hij⟩, Ne.symm hne, hji⟩

/-! Process `p` sends, `q` has an event of its own and then receives. -/

@[reducible] def clockTexts : Host := hostOf
  [("\x7b\"p\":1\x7d", .obj [("p", .num 1)]),
    ("\x7b\"p\":1,\"q\":2\x7d", .obj [("p", .num 1), ("q", .num 2)])]

def oneMessage : List Line :=
  [⟨"send", ["p"]⟩, ⟨"local", ["q"]⟩, ⟨"recv", ["q", "\x7b\"p\":1\x7d"]⟩]

omit [Host] in
theorem clocks_capture_causality_one_message : ∃ es s, Run (onLine (@step clockTexts)) ∅ es s ∧
    es.map Event.input = oneMessage ∧
    @step clockTexts ∅ "cmp" ["\x7b\"p\":1\x7d", "\x7b\"p\":1,\"q\":2\x7d"] =
      some (∅, .obj [("rel", .str "before")]) ∧
    (@computation clockTexts es).HappenedBefore 0 2 := by
  let _ : Host := clockTexts
  let a : Clock := Std.ExtTreeMap.insert ∅ "p" 1
  let b : Clock := Std.ExtTreeMap.insert a "q" 2
  obtain ⟨e, f, g, s, hrun, hinputs, hfirst, hlast, hmsg⟩ :
      ∃ e f g s, Run (onLine step) ∅ [e, f, g] s ∧ [e, f, g].map Event.input = oneMessage ∧
        Answered [e, f, g] 0 a ∧ Answered [e, f, g] 2 b ∧ clockArg g.input.args 1 = .ok a :=
    ⟨_, _, _, _, run_of_exec oneMessage rfl, rfl, ⟨_, rfl, rfl, rfl⟩, ⟨_, rfl, rfl, rfl⟩, rfl⟩
  have hcmds : e.input.command = "send" ∧ f.input.command = "local" ∧ g.input.command = "recv" := by
    simp only [oneMessage, List.map_cons, List.map_nil, List.cons.injEq] at hinputs
    obtain ⟨he, hf, hg, -⟩ := hinputs
    exact ⟨by rw [he], by rw [hf], by rw [hg]⟩
  have hdelivers : Delivers [e, f, g] := by
    intro j k hk _ hrecv
    match j with
    | 0 =>
      obtain rfl := Option.some.inj hk
      exact absurd (hcmds.1.symm.trans hrecv) (by decide)
    | 1 =>
      obtain rfl := Option.some.inj hk
      exact absurd (hcmds.2.1.symm.trans hrecv) (by decide)
    | 2 =>
      obtain ⟨e', he', hown, hout⟩ := hfirst
      obtain rfl := Option.some.inj he'
      exact ⟨0, by decide, e, g, a, rfl, rfl, hcmds.1, hown, hout, hcmds.2.2, hmsg⟩
    | j + 3 => simp at hk
  obtain ⟨r, hr, hbefore, -⟩ := clocks_capture_causality hrun hdelivers hfirst hlast ∅
    ["\x7b\"p\":1\x7d", "\x7b\"p\":1,\"q\":2\x7d"] rfl rfl
  have hcmp : step ∅ "cmp" ["\x7b\"p\":1\x7d", "\x7b\"p\":1,\"q\":2\x7d"] =
      some (∅, .obj [("rel", .str "before")]) := rfl
  have htext : r.text = "before" := by
    have heq := hr.symm.trans hcmp
    simp only [Option.some.injEq, Prod.mk.injEq, Value.obj.injEq, List.cons.injEq, Value.str.injEq,
      true_and, and_true] at heq
    exact heq
  refine ⟨_, s, hrun, hinputs, hcmp, hbefore.mp ?_⟩
  cases r with
  | before => rfl
  | _ => exact absurd htext (by decide)

end BuildYourOwn.Clocks.VectorClocks
