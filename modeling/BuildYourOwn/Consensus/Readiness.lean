import Mathlib.Data.Finset.Card
import BuildYourOwn.Consensus.Paxos

/-!
# When a proposer is ready

The acceptors whose promises a run of the `Paxos` machine has received for the proposal that is under way
(`received`), next to the words that its proposer stores them under.

The two are as many as long as no two of the words name one acceptor. `acceptor_index` reads `a1`, `a01` and
`a+1` as the same, and `promise` counts them as three (`respells`).

**`ready_is_majority`**: in every run without that, and in no other, a ready proposal has promises of a
majority of distinct acceptors and a promise of an acceptor that has promised already adds nothing.
-/

namespace BuildYourOwn.Consensus.Paxos

open Lib Topic

variable {s s' : Paxos} {l : Line} {v : Value} {k : Nat}

def promises (s : Paxos) : StringMap (Option Int × Option String) :=
  match s.proposer with
  | some p => p.promises
  | none => ∅

def restarts (l : Line) : Bool :=
  match int l.args 0, word l.args 1 with
  | .ok _, .ok _ => l.command == "propose"
  | _, _ => false

theorem not_restarts (hl : l.command ≠ "propose") : restarts l = false := by
  unfold restarts
  split
  · exact beq_eq_false_iff_ne.mpr hl
  · rfl

section

variable [Host]

def promiser (s : Paxos) (l : Line) : Option Nat :=
  if l.command = "promise" ∧ s.proposer.isSome = true then
    match acceptorIndex s.acceptors.length l.args 0, int l.args 1, word l.args 2 with
    | .ok k, .ok _, .ok _ => some k
    | _, _, _ => none
  else none

/-- The promise is stored under a new word for an acceptor that is there under another. -/
def respells (s : Paxos) (l : Line) : Prop :=
  ∃ k name other stored, promiser s l = some k ∧ word l.args 0 = .ok name ∧ s.promises[name]? = none ∧
    s.promises[other]? = some stored ∧ parseName other = parseName name

inductive Promising (s : Paxos) (l : Line) : Paxos → Prop
  | quiet {s' : Paxos} (hline : restarts l = false) (hno : promiser s l = none) (h : s'.promises = s.promises) :
      Promising s l s'
  | restart {s' : Paxos} (hline : restarts l = true) (h : s'.promises = ∅) : Promising s l s'
  | store {s' : Paxos} {k : Nat} {name : String} {stored : Option Int × Option String} (hline : restarts l = false)
      (hk : promiser s l = some k) (hname : word l.args 0 = .ok name) (hparse : parseName name = some (k + 1))
      (h : s'.promises = s.promises.insert name stored) : Promising s l s'

theorem promising_of_other (hl : l.command ≠ "propose") (hl' : l.command ≠ "promise")
    (h : s'.proposer = s.proposer) : Promising s l s' := by
  refine .quiet (not_restarts hl) ?_ (by unfold promises; rw [h])
  unfold promiser
  rw [if_neg fun hp => hl' hp.1]

omit [Host] in
theorem atAcceptor_proposer {i : Nat} {f : Acceptor → Acceptor × Value} (h : s.atAcceptor i f = some (s', v)) :
    s'.proposer = s.proposer := by
  unfold atAcceptor at h
  split at h
  · cases h
  · cases h
    rfl

omit [Host] in
theorem atAcceptor_output {i : Nat} {f : Acceptor → Acceptor × Value} (h : s.atAcceptor i f = some (s', v)) :
    ∃ a, v = (f a).2 := by
  unfold atAcceptor at h
  split at h
  · cases h
  · exact ⟨_, (Prod.mk.inj (Option.some.inj h)).2.symm⟩

theorem promise_moves (hl : l.command = "promise") (hs : onLine step s l = some (s', v)) : Promising s l s' := by
  have hno : restarts l = false := not_restarts (by rw [hl]; decide)
  unfold onLine at hs
  rw [hl] at hs
  simp only [step] at hs
  have hquiet (hnone : promiser s l = none) (h : s' = s) : Promising s l s' := .quiet hno hnone (by rw [h])
  rcases arg_eq_some.mp hs with ⟨hw, rfl⟩ | ⟨name, hname, hs⟩
  · refine hquiet ?_ rfl
    unfold promiser acceptorIndex
    rw [hw]
    split <;> rfl
  split at hs
  · rename_i e he
    refine hquiet ?_ (state_eq hs)
    unfold promiser
    rw [he]
    split <;> rfl
  rename_i k hk
  rcases arg_eq_some.mp hs with ⟨hn, rfl⟩ | ⟨n, hn, hs⟩
  · refine hquiet ?_ rfl
    unfold promiser
    rw [hk, hn]
    split <;> rfl
  rcases arg_eq_some.mp hs with ⟨hw, rfl⟩ | ⟨w, hw, hs⟩
  · refine hquiet ?_ rfl
    unfold promiser
    rw [hk, hn, hw]
    split <;> rfl
  unfold promise at hs
  cases hp : s.proposer with
  | none =>
    rw [hp] at hs
    refine hquiet ?_ (state_eq hs)
    unfold promiser
    rw [if_neg fun h => absurd h.2 (by rw [hp]; decide)]
  | some p =>
    rw [hp] at hs
    cases hs
    obtain ⟨name', hname', hparse, -⟩ := acceptorIndex_eq_ok.mp hk
    obtain rfl := Except.ok.inj (hname.symm.trans hname')
    have hstore : promises { s with proposer := some { p with promises := p.promises.insert name (reported n w) } } =
        s.promises.insert name (reported n w) := by
      unfold promises
      rw [hp]
    refine .store hno ?_ hname hparse hstore
    unfold promiser
    rw [if_pos ⟨hl, by rw [hp]; rfl⟩, hk, hn, hw]

theorem step_promising (hinit : l.command ≠ "init") (hs : onLine step s l = some (s', v)) : Promising s l s' := by
  by_cases hpromise : l.command = "promise"
  · exact promise_moves hpromise hs
  by_cases hpropose : l.command = "propose"
  · unfold onLine at hs
    rw [hpropose] at hs
    simp only [step] at hs
    have hquiet (hno : restarts l = false) (h : s' = s) : Promising s l s' := by
      refine .quiet hno ?_ (by rw [h])
      unfold promiser
      rw [if_neg fun hp => hpromise hp.1]
    rcases arg_eq_some.mp hs with ⟨hn, rfl⟩ | ⟨n, hn, hs⟩
    · refine hquiet ?_ rfl
      unfold restarts
      rw [hn]
    rcases arg_eq_some.mp hs with ⟨hw, rfl⟩ | ⟨w, hw, hs⟩
    · refine hquiet ?_ rfl
      unfold restarts
      rw [hn, hw]
    cases hs
    refine .restart ?_ rfl
    unfold restarts
    rw [hn, hw]
    exact beq_iff_eq.mpr hpropose
  refine promising_of_other hpropose hpromise ?_
  unfold onLine step at hs
  split at hs
  case h_1 hcommand => exact absurd hcommand hinit
  case h_2 =>
    rcases arg_eq_some.mp hs with ⟨-, rfl⟩ | ⟨i, -, hs⟩
    · rfl
    rcases arg_eq_some.mp hs with ⟨-, rfl⟩ | ⟨n, -, hs⟩
    · rfl
    exact atAcceptor_proposer hs
  case h_3 =>
    rcases arg_eq_some.mp hs with ⟨-, rfl⟩ | ⟨i, -, hs⟩
    · rfl
    rcases arg_eq_some.mp hs with ⟨-, rfl⟩ | ⟨n, -, hs⟩
    · rfl
    rcases arg_eq_some.mp hs with ⟨-, rfl⟩ | ⟨w, -, hs⟩
    · rfl
    exact atAcceptor_proposer hs
  case h_4 =>
    rcases arg_eq_some.mp hs with ⟨-, rfl⟩ | ⟨i, -, hs⟩
    · rfl
    exact atAcceptor_proposer hs
  case h_5 =>
    cases hs
    rfl
  case h_6 hcommand => exact absurd hcommand hpropose
  case h_7 hcommand => exact absurd hcommand hpromise
  case h_8 =>
    cases hs
    rfl
  case h_9 =>
    cases hs
    rfl

/-! ## What was received -/

/-- What one event adds to the acceptors that were heard; a new proposal starts over. -/
def hear (ks : Finset Nat) (e : Event Paxos Line Value) : Finset Nat :=
  if restarts e.input then ∅
  else
    match promiser e.before e.input with
    | some k => insert k ks
    | none => ks

/-- The acceptors whose promises were received for the proposal that is under way. -/
def received (es : List (Event Paxos Line Value)) : Finset Nat := es.foldl hear ∅

variable {es es₁ : List (Event Paxos Line Value)} {e : Event Paxos Line Value} {N : Nat}

theorem received_snoc : received (es ++ [e]) = hear (received es) e := List.foldl_append ..

structure Heard (es : List (Event Paxos Line Value)) (s : Paxos) : Prop where
  word : ∀ (name : String) stored, s.promises[name]? = some stored →
    ∃ k ∈ received es, parseName name = some (k + 1)
  all : ∀ k ∈ received es, ∃ name stored, s.promises[name]? = some stored ∧ parseName name = some (k + 1)

/-- No two of the words name one acceptor. -/
def Distinct (s : Paxos) : Prop := ∀ (a b : String) x y, s.promises[a]? = some x → s.promises[b]? = some y →
  parseName a = parseName b → a = b

theorem Heard.step (h : Heard es s) (hs : Promising s l s') : Heard (es ++ [⟨s, l, v, s'⟩]) s' := by
  cases hs with
  | quiet hline hno hsame =>
    have hreceived : received (es ++ [⟨s, l, v, s'⟩]) = received es := by
      rw [received_snoc, hear, if_neg (by rw [hline]; decide), hno]
    constructor <;> rw [hreceived, hsame]
    · exact h.word
    · exact h.all
  | restart hline hnone =>
    have hreceived : received (es ++ [⟨s, l, v, s'⟩]) = ∅ := by rw [received_snoc, hear, if_pos hline]
    constructor <;> rw [hreceived, hnone]
    · exact nofun
    · exact fun k hk => absurd hk (Finset.notMem_empty k)
  | @store k name stored hline hk hname hparse hinsert =>
    have hreceived : received (es ++ [⟨s, l, v, s'⟩]) = insert k (received es) := by
      rw [received_snoc, hear, if_neg (by rw [hline]; decide), hk]
    constructor <;> rw [hreceived, hinsert]
    · intro name' stored' hname'
      rw [StringMap.get_insert] at hname'
      split at hname'
      · rename_i heq
        exact ⟨k, Finset.mem_insert_self k _, heq ▸ hparse⟩
      · obtain ⟨k', hk', hparse'⟩ := h.word name' stored' hname'
        exact ⟨k', Finset.mem_insert_of_mem hk', hparse'⟩
    · intro k' hk'
      rcases Finset.mem_insert.mp hk' with rfl | hk'
      · exact ⟨name, stored, StringMap.get_insert_self _ _ _, hparse⟩
      · obtain ⟨name', stored', hname', hparse'⟩ := h.all k' hk'
        by_cases heq : name = name'
        · subst heq
          exact ⟨name, stored, StringMap.get_insert_self _ _ _, hparse'⟩
        · exact ⟨name', stored', by rw [StringMap.get_insert, if_neg heq, hname'], hparse'⟩

theorem Distinct.step (h : s.Distinct) (hs : Promising s l s') (hkept : ¬ respells s l) : s'.Distinct := by
  cases hs with
  | quiet _ _ hsame =>
    unfold Distinct
    rw [hsame]
    exact h
  | restart _ hnone =>
    intro a b x y ha
    rw [hnone] at ha
    cases ha
  | @store k name stored hline hk hname hparse hinsert =>
    -- what is there under another word for the same acceptor would be respelt
    have hother {b : String} {y : Option Int × Option String} (hb : s.promises[b]? = some y)
        (hsame : parseName b = parseName name) : b = name := by
      cases hnew : s.promises[name]? with
      | none => exact absurd ⟨k, name, b, y, hk, hname, hnew, hb, hsame⟩ hkept
      | some x => exact h b name y x hb hnew hsame
    intro a b x y ha hb hsame
    rw [hinsert, StringMap.get_insert] at ha hb
    split at ha
    · rename_i hname'
      subst hname'
      split at hb
      · assumption
      · exact (hother hb hsame.symm).symm
    · split at hb
      · rename_i hname'
        subst hname'
        exact hother ha hsame
      · exact h a b x y ha hb hsame

theorem size_le_received (h : Heard es s) (hdistinct : s.Distinct) : s.promises.size ≤ (received es).card := by
  have hcard : s.promises.size = s.promises.keys.toFinset.card := by
    rw [List.toFinset_card_of_nodup Std.ExtTreeMap.nodup_keys, Std.ExtTreeMap.length_keys]
  rw [hcard]
  have hkey {name : String} (hname : name ∈ s.promises.keys.toFinset) :
      (∃ stored, s.promises[name]? = some stored) ∧ ∃ k ∈ received es, parseName name = some (k + 1) := by
    obtain ⟨stored, hstored⟩ := StringMap.mem_keys.mp (List.mem_toFinset.mp hname)
    exact ⟨⟨stored, hstored⟩, h.word name stored hstored⟩
  refine Finset.card_le_card_of_injOn (fun name => (parseName name).getD 0 - 1) (fun name hname => ?_)
    fun a ha b hb hab => ?_
  · obtain ⟨-, k, hk, hparse⟩ := hkey hname
    dsimp only
    rwa [hparse]
  · obtain ⟨⟨x, hx⟩, k, -, hparse⟩ := hkey ha
    obtain ⟨⟨y, hy⟩, k', -, hparse'⟩ := hkey hb
    refine hdistinct a b x y hx hy ?_
    dsimp only at hab
    rw [hparse, hparse'] at hab ⊢
    simp only [Option.getD_some, Nat.add_sub_cancel] at hab
    rw [hab]

/-! ## What is reported -/

omit [Host] in
theorem not_ready {fields : List (String × Value)} (hready : (Value.obj fields).flagAt "ready" = some true)
    (hnone : fields.lookup "ready" = none) {P : Prop} : P := by
  have hflag : (Value.obj fields).flagAt "ready" = (fields.lookup "ready").bind Value.asBool := rfl
  rw [hflag, hnone] at hready
  cases hready

theorem acceptorIndex_error {n i : Nat} {args : List String} (h : acceptorIndex n args i = .error v) :
    ∃ message, v = err message := by
  unfold acceptorIndex at h
  split at h
  · rename_i hword
    obtain rfl := Except.error.inj h
    exact word_error hword
  split at h
  · exact ⟨_, (Except.error.inj h).symm⟩
  split at h
  · cases h
  · exact ⟨_, (Except.error.inj h).symm⟩

omit [Host] in
theorem not_ready_err {message : String} (hready : (err message).flagAt "ready" = some true) {P : Prop} : P :=
  absurd hready (flagAt_err _ _)

omit [Host] in
theorem arg_of_ready {α : Type} {e : Except Value α} {k : α → Handled Paxos} (hs : arg s e k = some (s', v))
    (hready : v.flagAt "ready" = some true) (herror : ∀ w, e = .error w → ∃ message, w = err message) :
    ∃ a, k a = some (s', v) := by
  rcases arg_eq_some.mp hs with ⟨he, -⟩ | ⟨a, -, hs⟩
  · obtain ⟨message, rfl⟩ := herror v he
    exact not_ready_err hready
  · exact ⟨a, hs⟩

/-- Only `promise` and `proposer` report a proposer as ready, and then the promises are a majority. -/
theorem majority_of_ready (hs : onLine step s l = some (s', v)) (hready : v.flagAt "ready" = some true) :
    s.majority ≤ s'.promises.size := by
  unfold onLine step at hs
  split at hs
  case h_1 =>
    obtain ⟨n, hs⟩ := arg_of_ready hs hready fun _ => uint_error
    split at hs
    · cases hs
      exact not_ready_err hready
    · cases hs
      exact not_ready hready rfl
  case h_2 =>
    obtain ⟨i, hs⟩ := arg_of_ready hs hready fun _ => acceptorIndex_error
    obtain ⟨n, hs⟩ := arg_of_ready hs hready fun _ => int_error
    obtain ⟨a, rfl⟩ := atAcceptor_output hs
    exact not_ready hready rfl
  case h_3 =>
    obtain ⟨i, hs⟩ := arg_of_ready hs hready fun _ => acceptorIndex_error
    obtain ⟨n, hs⟩ := arg_of_ready hs hready fun _ => int_error
    obtain ⟨w, hs⟩ := arg_of_ready hs hready fun _ => word_error
    obtain ⟨a, rfl⟩ := atAcceptor_output hs
    exact not_ready hready rfl
  case h_4 =>
    obtain ⟨i, hs⟩ := arg_of_ready hs hready fun _ => acceptorIndex_error
    obtain ⟨a, rfl⟩ := atAcceptor_output hs
    exact not_ready hready rfl
  case h_5 =>
    cases hs
    unfold learn at hready
    split at hready <;> exact not_ready hready rfl
  case h_6 =>
    obtain ⟨n, hs⟩ := arg_of_ready hs hready fun _ => int_error
    obtain ⟨w, hs⟩ := arg_of_ready hs hready fun _ => word_error
    cases hs
    exact not_ready hready rfl
  case h_7 =>
    obtain ⟨name, hs⟩ := arg_of_ready hs hready fun _ => word_error
    split at hs
    · cases hs
      exact not_ready_err hready
    obtain ⟨n, hs⟩ := arg_of_ready hs hready fun _ => int_error
    obtain ⟨w, hs⟩ := arg_of_ready hs hready fun _ => word_error
    unfold promise at hs
    split at hs
    · cases hs
      exact not_ready_err hready
    · cases hs
      exact of_decide_eq_true (Option.some.inj hready)
  case h_8 =>
    cases hs
    unfold proposerState at hready
    unfold promises
    split at hready
    · exact not_ready_err hready
    · rename_i p hp
      rw [hp]
      exact of_decide_eq_true (Option.some.inj hready)
  case h_9 =>
    cases hs
    exact not_ready_err hready

/-! ## Ready is a majority -/

structure Counted (es₁ : List (Event Paxos Line Value)) (e : Event Paxos Line Value) : Prop where
  ready : e.output.flagAt "ready" = some true → e.before.majority ≤ (received (es₁ ++ [e])).card
  again : ∀ k, promiser e.before e.input = some k → k ∈ received es₁ →
    e.after.promises.size ≤ e.before.promises.size

theorem counted_of_distinct (h : Heard es₁ e.before) (h' : Heard (es₁ ++ [e]) e.after)
    (hdistinct : e.after.Distinct) (hs : onLine step e.before e.input = some (e.after, e.output))
    (hinit : e.input.command ≠ "init") (hkept : ¬ respells e.before e.input) : Counted es₁ e where
  ready hready := (majority_of_ready hs hready).trans (size_le_received h' hdistinct)
  again k hk hheard := by
    cases step_promising hinit hs with
    | quiet _ hno _ => cases hk.symm.trans hno
    | restart _ hnone =>
      rw [hnone]
      exact Nat.zero_le _
    | @store k' name stored _ hk' hname hparse hinsert =>
      obtain rfl := Option.mem_unique hk hk'
      obtain ⟨other, stored', hother, hparse'⟩ := h.all k hheard
      have hthere : name ∈ e.before.promises := by
        refine Classical.byContradiction fun hnew => hkept ⟨k, name, other, stored', hk, hname, ?_, hother, ?_⟩
        · exact Std.ExtTreeMap.getElem?_eq_none hnew
        · rw [hparse', hparse]
      rw [hinsert, Std.ExtTreeMap.size_insert, if_pos (Std.ExtTreeMap.mem_iff_contains.mp hthere)]

theorem respells.not_counted (h : Heard es₁ e.before) (hrespells : respells e.before e.input)
    (hs : onLine step e.before e.input = some (e.after, e.output)) (hinit : e.input.command ≠ "init") :
    ¬ Counted es₁ e := by
  intro hcounted
  obtain ⟨k, name, other, stored, hk, hname, hnew, hother, hsame⟩ := hrespells
  cases step_promising hinit hs with
  | quiet _ hno _ => cases hk.symm.trans hno
  | restart hline _ =>
    obtain ⟨hcommand, -⟩ : e.input.command = "promise" ∧ e.before.proposer.isSome = true := by
      unfold promiser at hk
      split at hk
      · assumption
      · cases hk
    rw [not_restarts (by rw [hcommand]; decide)] at hline
    cases hline
  | @store k' name' stored' _ hk' hname' hparse hinsert =>
    obtain rfl := Option.mem_unique hk hk'
    obtain rfl := Except.ok.inj (hname.symm.trans hname')
    obtain ⟨k', hheard, hparse'⟩ := h.word other stored hother
    obtain rfl : k' = k := by
      have := Option.some.inj (hparse'.symm.trans (hsame.trans hparse))
      omega
    have hle := hcounted.again k' hk hheard
    have hfresh : ¬ e.before.promises.contains name = true := by
      rw [Std.ExtTreeMap.contains_eq_isSome_getElem?, hnew]
      decide
    rw [hinsert, Std.ExtTreeMap.size_insert, if_neg hfresh] at hle
    omega

theorem heard (hrun : Run (onLine step) (init N) es s) (hlines : ∀ e ∈ es, e.input.command ≠ "init") : Heard es s :=
  hrun.history_invariant (G := fun e => e.input.command ≠ "init")
    ⟨fun _ _ h => absurd h (by simp [init, promises]), fun k hk => absurd hk (Finset.notMem_empty k)⟩
    (fun _ _ _ _ _ h hinit hs => h.step (step_promising hinit hs)) hlines

/-- **Ready is a majority**, and one acceptor answering twice is one promise, in exactly the runs in which no
promise is stored under a new word for an acceptor that is there under another. -/
theorem ready_is_majority (hrun : Run (onLine step) (init N) es s)
    (hlines : ∀ e ∈ es, e.input.command ≠ "init") :
    (∀ es₁ e es₂, es = es₁ ++ e :: es₂ → Counted es₁ e) ↔ ∀ e ∈ es, ¬ respells e.before e.input := by
  constructor
  · intro hcounted e he hrespells
    obtain ⟨es₁, es₂, rfl⟩ := List.append_of_mem he
    have hbefore := heard (hrun.split rfl) fun e' he' => hlines e' (List.mem_append_left _ he')
    exact hrespells.not_counted hbefore (hrun.step_of_mem he) (hlines e he) (hcounted es₁ e es₂ rfl)
  · rintro hkept es₁ e es₂ rfl
    have hsub {e' : Event Paxos Line Value} (he' : e' ∈ es₁ ++ [e]) : e' ∈ es₁ ++ e :: es₂ := by
      rcases List.mem_append.mp he' with he' | he'
      · exact List.mem_append_left _ he'
      · exact List.mem_append_right _ (List.mem_singleton.mp he' ▸ List.mem_cons_self)
    have hafter := hrun.split_after rfl
    have hdistinct : e.after.Distinct :=
      hafter.invariant (G := fun s l => l.command ≠ "init" ∧ ¬ respells s l)
        (fun _ _ _ _ h => absurd h (by simp [init, promises]))
        (fun _ _ _ _ h hg hs => h.step (step_promising hg.1 hs) hg.2)
        fun e' he' => ⟨hlines e' (hsub he'), hkept e' (hsub he')⟩
    have he : e ∈ es₁ ++ e :: es₂ := List.mem_append_right _ List.mem_cons_self
    exact counted_of_distinct (heard (hrun.split rfl) fun e' he' => hlines e' (List.mem_append_left _ he'))
      (heard hafter fun e' he' => hlines e' (hsub he')) hdistinct (hrun.step_of_mem he) (hlines e he)
      (hkept e he)

/-- No promise is there under another word for the acceptor that the line names. -/
def spelt (e : Event Paxos Line Value) : Bool :=
  match word e.input.args 0 with
  | .ok name => e.before.promises.keys.all fun other => other == name || parseName other != parseName name
  | .error _ => true

theorem not_respells (h : spelt e = true) : ¬ respells e.before e.input := by
  rintro ⟨k, name, other, stored, -, hname, hnew, hother, hsame⟩
  unfold spelt at h
  rw [hname] at h
  have hother' := List.all_eq_true.mp h other (StringMap.mem_keys.mpr ⟨stored, hother⟩)
  rcases Bool.or_eq_true_iff.mp hother' with heq | hne
  · rw [eq_of_beq heq, hnew] at hother
    cases hother
  · exact bne_iff_ne.mp hne hsame

end

/-! One acceptor of three promises twice, and then once more as `a01`. -/

@[reducible] def alone : Host := hostOf []

def twice : List Line :=
  [⟨"propose", ["1", "red"]⟩, ⟨"promise", ["a1", "-1", "-"]⟩, ⟨"promise", ["a1", "-1", "-"]⟩,
    ⟨"promise", ["a2", "-1", "-"]⟩]

def respelt : List Line :=
  [⟨"propose", ["1", "red"]⟩, ⟨"promise", ["a1", "-1", "-"]⟩, ⟨"promise", ["a01", "-1", "-"]⟩]

theorem ready_is_majority_twice : ∃ es s, Run (onLine (@step alone)) (init 3) es s ∧
    es.map Event.input = twice ∧ es.getLast?.bind (fun e => e.output.flagAt "ready") = some true ∧
    ∀ es₁ e es₂, es = es₁ ++ e :: es₂ → @Counted alone es₁ e := by
  let _ : Host := alone
  obtain ⟨es, s, hrun, hinputs, hready, hspelt⟩ : ∃ es s, Run (onLine step) (init 3) es s ∧
      es.map Event.input = twice ∧ es.getLast?.bind (fun e => e.output.flagAt "ready") = some true ∧
      es.all spelt = true :=
    ⟨_, _, run_of_exec twice rfl, rfl, rfl, rfl⟩
  refine ⟨es, s, hrun, hinputs, hready, (ready_is_majority hrun fun e he => ?_).mpr fun e he => ?_⟩
  · have hall : ∀ l ∈ twice, l.command ≠ "init" := by decide
    exact hall _ (hinputs ▸ List.mem_map_of_mem he)
  · exact not_respells (List.all_eq_true.mp hspelt e he)

theorem ready_alone : ∃ es₁ e s, Run (onLine (@step alone)) (init 3) (es₁ ++ [e]) s ∧
    (es₁ ++ [e]).map Event.input = respelt ∧ e.before.majority = 2 ∧
    @received alone (es₁ ++ [e]) = {0} ∧ ¬ @Counted alone es₁ e := by
  let _ : Host := alone
  obtain ⟨es, s, hrun, hinputs, e, he, hmaj, hready, hreceived⟩ : ∃ es s,
      Run (onLine step) (init 3) es s ∧ es.map Event.input = respelt ∧ ∃ e, es.getLast? = some e ∧
        e.before.majority = 2 ∧ e.output.flagAt "ready" = some true ∧ received es = {0} :=
    ⟨_, _, run_of_exec respelt rfl, rfl, _, rfl, rfl, rfl, by decide⟩
  obtain ⟨es₁, rfl⟩ := List.getLast?_eq_some_iff.mp he
  refine ⟨es₁, e, s, hrun, hinputs, hmaj, hreceived, fun h => ?_⟩
  have hcard := h.ready hready
  rw [hreceived, hmaj, Finset.card_singleton] at hcard
  omega

end BuildYourOwn.Consensus.Paxos
