import BuildYourOwn.Lib.Absorption
import BuildYourOwn.Lib.Replicas
import BuildYourOwn.Topic.Command

/-!
# States that go from replica to replica

The `state` and `merge` commands that every topic of `disttest/examples/prim/crdt.rs` has: `state`
answers a replica's state as a JSON object, and `merge` takes one back. Each replica is a process of its own.

* `Genuine` says where merged states come from: each one was answered by some replica before, any time
  before and any number of times.
* `Replicated` is what a topic does on its commands: an update, a merge, or nothing. So the histories of
  its replicas are acts (`actAt`), and `absorbed` is which updates a replica knows of.
-/

namespace BuildYourOwn.Crdt

open Lib Topic

variable {P σ U : Type} [Host]

/-- What happened among replicas: each line is for one of the processes. -/
abbrev History (P σ : Type) := List (Event (P → σ) (P × Line) Value)

/-- The state of the arguments of a `merge`. -/
def mergedBy (args : List String) : Option Value :=
  match word args 0, jsonArg args 1 with
  | .ok _, .ok incoming => some incoming
  | _, _ => none

def mergedIn (l : Line) : Option Value :=
  match l.command with
  | "merge" => mergedBy l.args
  | _ => none

def sharedAt (e : Event (P → σ) (P × Line) Value) : Option Value :=
  match e.input.2.command with
  | "state" => e.output.get "state"
  | _ => none

/-- Every merged state was answered before, at the position that `origin` gives. -/
def Genuine (origin : Nat → Nat) (es : History P σ) : Prop :=
  ∀ n e v, es[n]? = some e → mergedIn e.input.2 = some v →
    origin n < n ∧ ∃ e', es[origin n]? = some e' ∧ sharedAt e' = some v

/-- The shared body of the `state` commands. -/
def shareState (s : σ) (state : σ → Value) (args : List String) : Handled σ :=
  arg s (word args 0) fun _ => some (s, .obj [("state", state s)])

omit [Host] in
theorem eq_of_shareState {s s' : σ} {state : σ → Value} {args : List String} {o v : Value}
    (h : shareState s state args = some (s', o)) (hv : o.get "state" = some v) : v = state s := by
  rcases arg_eq_some.mp h with ⟨hword, rfl⟩ | ⟨w, -, h⟩
  · obtain ⟨message, rfl⟩ := word_error hword
    simp [err, Value.get, List.lookup_cons] at hv
  · cases h
    exact (Option.some.inj hv).symm

variable {step : σ → String → List String → Handled σ} {state : σ → Value}
  {s₀ : σ} {sys : P → σ} {es : History P σ} {origin : Nat → Nat} {n k : Nat} {p q : P}
  {e : Event (P → σ) (P × Line) Value} {v : Value}

/-- A replica at a moment: its state after the first `n` events. -/
abbrev replica (s₀ : σ) (es : History P σ) (n : Nat) (p : P) : σ := stateAt (fun _ => s₀) es n p

theorem Genuine.earlier [DecidableEq P] (h : Genuine origin es) (hrun : Run (each (onLine step)) (fun _ => s₀) es sys)
    (hstate : ∀ s args, step s "state" args = shareState s state args)
    (he : es[n]? = some e) (hv : mergedIn e.input.2 = some v) :
    origin n < n ∧ ∃ e', es[origin n]? = some e' ∧ v = state (replica s₀ es (origin n) e'.input.1) := by
  obtain ⟨hlt, e', he', hshared⟩ := h n e v he hv
  refine ⟨hlt, e', he', ?_⟩
  obtain ⟨hstep, -⟩ := each_eq_some.mp (hrun.step_at he')
  unfold sharedAt at hshared
  split at hshared
  · rename_i hcommand
    rw [onLine, hcommand, hstate] at hstep
    exact eq_of_shareState hstep hshared
  · cases hshared

/-! ## Updates and merges -/

def Case (update : σ → Line → Option U) (makes : σ → U → σ → Prop) (takes : σ → Value → σ → Prop)
    (s : σ) (l : Line) (s' : σ) : Prop :=
  (∃ u, update s l = some u ∧ makes s u s') ∨
  (update s l = none ∧ ∃ v, mergedIn l = some v ∧ takes s v s') ∨
  (update s l = none ∧ mergedIn l = none ∧ s' = s)

/-- What the commands of a topic do: those that `update` accepts make an update, a `merge` takes a state in, and
the others leave the replica as it is. -/
structure Replicated (step : σ → String → List String → Handled σ) (state : σ → Value)
    (update : σ → Line → Option U) (makes : σ → U → σ → Prop) (takes : σ → Value → σ → Prop) :
    Prop where
  shares : ∀ s args, step s "state" args = shareState s state args
  cases : ∀ s l s' o, onLine step s l = some (s', o) → Case update makes takes s l s'

/-- A `merge` whose arguments can be read goes on with the state, and one whose arguments cannot changes nothing. -/
theorem merge_cases {s s' : σ} {args : List String} {o : Value} {k : Value → Handled σ}
    (h : (arg s (word args 0) fun _ => arg s (jsonArg args 1) k) = some (s', o)) :
    (mergedBy args = none ∧ s' = s) ∨ ∃ v, mergedBy args = some v ∧ k v = some (s', o) := by
  rcases arg_eq_some.mp h with ⟨hword, rfl⟩ | ⟨_, hword, h⟩
  · exact .inl ⟨by rw [mergedBy, hword], rfl⟩
  rcases arg_eq_some.mp h with ⟨hjson, rfl⟩ | ⟨incoming, hjson, h⟩
  · exact .inl ⟨by rw [mergedBy, hword, hjson], rfl⟩
  · exact .inr ⟨incoming, by rw [mergedBy, hword, hjson], h⟩

def updateAt (update : σ → Line → Option U) (e : Event (P → σ) (P × Line) Value) : Option U :=
  update (e.before e.input.1) e.input.2

def updateOf (update : σ → Line → Option U) (es : History P σ) (n : Nat) : Option U :=
  (es[n]?).bind (updateAt update)

/-- What happens at a position. -/
def actAt (update : σ → Line → Option U) (origin : Nat → Nat) (es : History P σ) (n : Nat) :
    Option (Act P) :=
  match es[n]? with
  | none => none
  | some e =>
    match updateAt update e, mergedIn e.input.2 with
    | some _, _ => some (.update e.input.1)
    | none, some _ => (es[origin n]?).map fun e' => .merge e.input.1 e'.input.1 (origin n)
    | none, none => none

variable {update : σ → Line → Option U} {makes : σ → U → σ → Prop}
  {takes : σ → Value → σ → Prop}

theorem actAt_event (he : es[n]? = some e) : actAt update origin es n =
    match updateAt update e, mergedIn e.input.2 with
    | some _, _ => some (.update e.input.1)
    | none, some _ => (es[origin n]?).map fun e' => .merge e.input.1 e'.input.1 (origin n)
    | none, none => none := by
  rw [actAt, he]

theorem Genuine.acts_earlier (h : Genuine origin es) : Earlier (actAt update origin es) := by
  intro n p q k hact
  cases he : es[n]? with
  | none => rw [actAt, he] at hact; cases hact
  | some e =>
    rw [actAt_event he] at hact
    split at hact
    · cases hact
    · rename_i v _ hv
      obtain ⟨e', -, heq⟩ := Option.map_eq_some_iff.mp hact
      obtain ⟨-, -, rfl⟩ := Act.merge.inj heq
      exact Nat.le_of_lt (h n e v he hv).1
    · cases hact

theorem of_act_update (h : actAt update origin es n = some (.update p)) :
    ∃ e u, es[n]? = some e ∧ e.input.1 = p ∧ updateAt update e = some u := by
  cases he : es[n]? with
  | none => rw [actAt, he] at h; cases h
  | some e =>
    rw [actAt_event he] at h
    cases hu : updateAt update e with
    | some u =>
      rw [hu] at h
      exact ⟨e, u, rfl, Act.update.inj (Option.some.inj h), hu⟩
    | none =>
      rw [hu] at h
      split at h
      · rename_i heq
        cases heq
      · obtain ⟨e', -, heq⟩ := Option.map_eq_some_iff.mp h
        cases heq
      · cases h

section Steps

variable [DecidableEq P] (hr : Replicated step state update makes takes)
  (hrun : Run (each (onLine step)) (fun _ => s₀) es sys)
include hr hrun

theorem Replicated.at_update (h : actAt update origin es n = some (.update p)) :
    ∃ u, updateOf update es n = some u ∧ makes (replica s₀ es n p) u (replica s₀ es (n + 1) p) := by
  obtain ⟨e, u, he, rfl, hu⟩ := of_act_update h
  obtain ⟨hstep, -⟩ := each_eq_some.mp (hrun.step_at he)
  refine ⟨u, by rw [updateOf, he]; exact hu, ?_⟩
  rw [updateAt, hrun.before_eq he] at hu
  rcases hr.cases _ _ _ _ hstep with ⟨u', hu', hmakes⟩ | ⟨hnone, -⟩ | ⟨hnone, -⟩
  · obtain rfl := Option.mem_unique hu hu'
    exact hmakes
  · cases hu.symm.trans hnone
  · cases hu.symm.trans hnone

theorem Replicated.at_merge (hgenuine : Genuine origin es) (h : actAt update origin es n = some (.merge p q k)) :
    takes (replica s₀ es n p) (state (replica s₀ es k q)) (replica s₀ es (n + 1) p) := by
  cases he : es[n]? with
  | none => rw [actAt, he] at h; cases h
  | some e =>
    rw [actAt_event he] at h
    have hu : updateAt update e = update (replica s₀ es n e.input.1) e.input.2 := by
      rw [updateAt, hrun.before_eq he]
    rcases hr.cases _ _ _ _ (each_eq_some.mp (hrun.step_at he)).1 with ⟨u, hsome, -⟩ |
      ⟨hnone, v, hv, htakes⟩ | ⟨hnone, hv, -⟩
    · rw [hu, hsome] at h
      cases h
    · rw [hu, hnone, hv] at h
      obtain ⟨e', he', heq⟩ := Option.map_eq_some_iff.mp h
      obtain ⟨rfl, rfl, rfl⟩ := Act.merge.inj heq
      obtain ⟨-, e'', he'', rfl⟩ := hgenuine.earlier hrun hr.shares he hv
      obtain rfl := Option.mem_unique he' he''
      exact htakes
    · rw [hu, hnone, hv] at h
      cases h

/-- **Otherwise** it stays as it is. -/
theorem Replicated.at_other (hgenuine : Genuine origin es) (hupdate : actAt update origin es n ≠ some (.update p))
    (hmerge : ∀ q k, actAt update origin es n ≠ some (.merge p q k)) : replica s₀ es (n + 1) p = replica s₀ es n p := by
  rcases hrun.each_cases n p with ⟨hstays, -⟩ | ⟨e, he, rfl, hstep⟩
  · exact hstays
  rw [actAt_event he] at hupdate hmerge
  have hu : updateAt update e = update (replica s₀ es n e.input.1) e.input.2 := by
    rw [updateAt, hrun.before_eq he]
  rcases hr.cases _ _ _ _ hstep with ⟨u, hsome, -⟩ | ⟨hnone, v, hv, -⟩ | ⟨-, -, hstays⟩
  · rw [hu, hsome] at hupdate
    exact absurd rfl hupdate
  · obtain ⟨-, e', he', -⟩ := hgenuine n e v he hv
    rw [hu, hnone, hv, he'] at hmerge
    exact absurd rfl (hmerge _ _)
  · exact hstays

end Steps

theorem Replicated.rule [DecidableEq P] {Q : Finset Nat → σ → Prop} (hr : Replicated step state update makes takes)
    (hrun : Run (each (onLine step)) (fun _ => s₀) es sys) (hgenuine : Genuine origin es) (hzero : Q ∅ s₀)
    (hupdate : ∀ n p u, actAt update origin es n = some (.update p) → updateOf update es n = some u →
      makes (replica s₀ es n p) u (replica s₀ es (n + 1) p) →
      Q (absorbed (actAt update origin es) n p) (replica s₀ es n p) →
      Q (insert n (absorbed (actAt update origin es) n p)) (replica s₀ es (n + 1) p))
    (htake : ∀ n m p q s', takes (replica s₀ es n p) (state (replica s₀ es m q)) s' →
      Q (absorbed (actAt update origin es) n p) (replica s₀ es n p) →
      Q (absorbed (actAt update origin es) m q) (replica s₀ es m q) →
      Q (absorbed (actAt update origin es) n p ∪ absorbed (actAt update origin es) m q) s')
    (n : Nat) (p : P) : Q (absorbed (actAt update origin es) n p) (replica s₀ es n p) := by
  refine @absorbed_rule P (actAt update origin es) σ (replica s₀ es) Q hgenuine.acts_earlier
    (fun _ => hzero) (fun n p hact hQ => ?_) (fun n p q k hact hQ hQ' => ?_)
    (fun n p hu hm hQ => ?_) n p
  · obtain ⟨u, hu, hmakes⟩ := hr.at_update hrun hact
    exact hupdate n p u hact hu hmakes hQ
  · exact htake n k p q _ (hr.at_merge hrun hgenuine hact) hQ hQ'
  · rw [hr.at_other hrun hgenuine hu hm]
    exact hQ

def OwnNames (update : σ → Line → Option U) (replicaOf : U → Option String) (name : P → String)
    (es : History P σ) : Prop :=
  Function.Injective name ∧ ∀ (n : Nat) e u r, es[n]? = some e → updateAt update e = some u →
    replicaOf u = some r → r = name e.input.1

/-- A history of replicas that exchange states only through `state` and `merge`, each under its own name. -/
structure Exchanged [DecidableEq P] (step : σ → String → List String → Handled σ) (s₀ : σ)
    (update : σ → Line → Option U) (replicaOf : U → Option String) (origin : Nat → Nat)
    (es : History P σ) : Prop where
  run : ∃ sys, Run (each (onLine step)) (fun _ => s₀) es sys
  genuine : Genuine origin es
  own : ∃ name, OwnNames update replicaOf name es

/-- What a merge leaves, as others see it: the state it would answer, and its own answer. -/
def shown (state : σ → Value) (r : σ × Value) : Value × Value := (state r.1, r.2)

structure MergeLaws (merge : σ → Value → Handled σ) (state : σ → Value) (s₀ : σ) (es : History P σ) :
    Prop where
  comm : ∀ n m p q, (merge (replica s₀ es n p) (state (replica s₀ es m q))).map (shown state) =
    (merge (replica s₀ es m q) (state (replica s₀ es n p))).map (shown state)
  assoc : ∀ n m k p q r st v tu w,
    merge (replica s₀ es n p) (state (replica s₀ es m q)) = some (st, v) →
    merge (replica s₀ es m q) (state (replica s₀ es k r)) = some (tu, w) →
    (merge st (state (replica s₀ es k r))).map (shown state) =
      (merge (replica s₀ es n p) (state tu)).map (shown state)
  idem : ∀ n p, ∃ s v, merge (replica s₀ es n p) (state (replica s₀ es n p)) = some (s, v) ∧
    state s = state (replica s₀ es n p)

end BuildYourOwn.Crdt
