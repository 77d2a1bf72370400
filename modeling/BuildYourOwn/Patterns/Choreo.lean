import Mathlib.Data.Finset.Card
import BuildYourOwn.Topic.Command

/-!
# `saga-choreo`: a saga driven by events, with no coordinator

Model of `Choreo` in `disttest/examples/alg/patterns.rs`: every service's reaction rule in one place. A
step that succeeds makes the next one run, one that fails makes the ones before it undo themselves, the
latest first. The events come in any order and any number of times.

* `handle` may have touched the state when it answers `None`, so it returns both.
* The outcome is a string in the source, and only ever one of three.
-/

namespace BuildYourOwn.Patterns

open Topic

/-! ## Names of events -/

/-- `str::rsplit_once(c)`: what stands before the last `c` and what stands after it. -/
def rsplitOnce (c : Char) (w : String) : Option (String × String) :=
  match w.toList.reverse.dropWhile (· ≠ c) with
  | [] => none
  | _ :: front =>
    some (String.ofList front.reverse, String.ofList (w.toList.reverse.takeWhile (· ≠ c)).reverse)

/-- **A name splits at its last dot.** -/
theorem rsplitOnce_append (x : String) {kind : String} (h : '.' ∉ kind.toList) :
    rsplitOnce '.' (x ++ "." ++ kind) = some (x, kind) := by
  have hlist : (x ++ "." ++ kind).toList.reverse = kind.toList.reverse ++ '.' :: x.toList.reverse := by
    rw [String.toList_append, String.toList_append, List.reverse_append, List.reverse_append]
    rfl
  have hall : ∀ c ∈ kind.toList.reverse, decide (c ≠ '.') = true := fun c hc =>
    decide_eq_true fun e => h (e ▸ List.mem_reverse.mp hc)
  unfold rsplitOnce
  rw [hlist, List.dropWhile_append_of_pos hall, List.takeWhile_append_of_pos hall,
    List.dropWhile_cons_of_neg (by simp), List.takeWhile_cons_of_neg (by simp)]
  simp only [List.append_nil, List.reverse_reverse, String.ofList_toList]

theorem eq_of_rsplitOnce {w x kind : String} (h : rsplitOnce '.' w = some (x, kind)) : w = x ++ "." ++ kind := by
  unfold rsplitOnce at h
  split at h
  · cases h
  · rename_i c front hdrop
    cases h
    have hc : c = '.' := by
      have hne := List.head?_dropWhile_not (· ≠ '.') w.toList.reverse
      rw [hdrop] at hne
      simpa using hne
    have hsplit := List.takeWhile_append_dropWhile (p := (· ≠ '.')) (l := w.toList.reverse)
    rw [hdrop, hc] at hsplit
    generalize List.takeWhile (· ≠ '.') w.toList.reverse = tail at hsplit ⊢
    apply String.toList_injective
    rw [String.toList_append, String.toList_append, String.toList_ofList (l := front.reverse),
      String.toList_ofList (l := tail.reverse), ← List.reverse_reverse w.toList, ← hsplit,
      List.reverse_append, List.reverse_cons]
    rfl

/-! ## The machine -/

inductive Outcome
  | running
  | committed
  | compensated
  deriving DecidableEq

def Outcome.text : Outcome → String
  | running => "running"
  | committed => "committed"
  | compensated => "compensated"

@[ext] structure Choreo where
  names : List String
  handled : List String
  emitted : List String
  ledger : List String
  inflightDo : Finset String
  inflightUndo : Finset String
  compensating : Bool
  outcome : Outcome

namespace Choreo

/-- The state `init` leaves. -/
def reset (names : List String) : Choreo where
  names := names
  handled := []
  emitted := []
  ledger := []
  inflightDo := ∅
  inflightUndo := ∅
  compensating := false
  outcome := .running

/-- `undo_before`: emit the previous step's `.undo`, or finish the saga. -/
def undoBefore (s : Choreo) (idx : Nat) : Choreo × List String :=
  match (match idx with
    | 0 => none
    | i + 1 => s.names[i]?) with
  | some prev => ({ s with inflightUndo := insert prev s.inflightUndo }, [prev ++ ".undo"])
  | none => ({ s with outcome := .compensated }, [])

/-- `handle` on `start`. -/
def onStart (s : Choreo) : Choreo × Option (List String) :=
  if s.handled ≠ [] then (s, none)
  else
    match s.names.head? with
    | none => (s, none)
    | some first =>
      ({ s with
          ledger := s.ledger ++ ["do:" ++ first]
          inflightDo := insert first s.inflightDo }, some [first ++ ".do"])

/-- `handle` on the `.ok` of the step at `idx`. -/
def onOk (s : Choreo) (step : String) (idx : Nat) : Choreo × Option (List String) :=
  if s.compensating = true then (s, none)
  else
    let removed := { s with inflightDo := s.inflightDo.erase step }
    if step ∉ s.inflightDo then (removed, none)
    else
      match s.names[idx + 1]? with
      | some next =>
        ({ removed with
            ledger := removed.ledger ++ ["do:" ++ next]
            inflightDo := insert next removed.inflightDo }, some [next ++ ".do"])
      | none => ({ removed with outcome := .committed }, some [])

/-- `handle` on the `.fail` of the step at `idx`. -/
def onFail (s : Choreo) (step : String) (idx : Nat) : Choreo × Option (List String) :=
  if s.compensating = true then (s, none)
  else
    let removed := { s with inflightDo := s.inflightDo.erase step }
    if step ∉ s.inflightDo then (removed, none)
    else
      let undo := { removed with compensating := true }.undoBefore idx
      (undo.1, some undo.2)

/-- `handle` on the `.undone` of the step at `idx`. -/
def onUndone (s : Choreo) (step : String) (idx : Nat) : Choreo × Option (List String) :=
  let removed := { s with inflightUndo := s.inflightUndo.erase step }
  if step ∉ s.inflightUndo then (removed, none)
  else
    let undo := { removed with ledger := removed.ledger ++ ["undo:" ++ step] }.undoBefore idx
    (undo.1, some undo.2)

/-- `handle`: what an event makes the services emit; `none` when it does not apply. -/
def handle (s : Choreo) (name : String) : Choreo × Option (List String) :=
  if name = "start" then s.onStart
  else
    match rsplitOnce '.' name with
    | none => (s, none)
    | some (step, kind) =>
      match s.names.idxOf? step with
      | none => (s, none)
      | some idx =>
        match kind with
        | "ok" => s.onOk step idx
        | "fail" => s.onFail step idx
        | "undone" => s.onUndone step idx
        | _ => (s, none)

def words (l : List String) : Value := .arr (l.map .str)

def answer (emitted : List String) (duplicate : Bool) (ledger : List String) : Value :=
  .obj [("emitted", words emitted), ("duplicate", .bool duplicate), ("ledger", words ledger)]

def event (s : Choreo) (name : String) : Choreo × Value :=
  if name ∈ s.handled then (s, answer [] true s.ledger)
  else
    match s.handle name with
    | (s', some out) =>
      ({ s' with handled := s'.handled ++ [name], emitted := s'.emitted ++ out },
        answer out false s'.ledger)
    | (s', none) => (s', answer [] false s'.ledger)

def state (s : Choreo) : Value :=
  .obj [("handled", words s.handled), ("emitted", words s.emitted), ("outcome", .str s.outcome.text)]

def step [Host] (s : Choreo) (command : String) (args : List String) : Handled Choreo :=
  match command with
  | "init" => arg s (wordList args 0) fun names =>
    if names = [] then some (s, err "a saga needs at least one step")
    else some (reset names, .obj [("steps", .num names.length), ("names", words names)])
  | "event" => arg s (word args 0) fun name => some (s.event name)
  | "ledger" => some (s, .obj [("entries", words s.ledger)])
  | "outcome" => some (s, .obj [("outcome", .str s.outcome.text),
      ("inflight", .num (s.inflightDo.card + s.inflightUndo.card))])
  | "state" => some (s, s.state)
  | other => some (s, err ("unknown command " ++ debugStr other))

end Choreo

end BuildYourOwn.Patterns
