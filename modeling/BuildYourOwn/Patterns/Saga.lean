import BuildYourOwn.Patterns.Choreo
import BuildYourOwn.Topic.Map

/-!
# `saga`: an orchestrated saga, its steps and their compensations in reverse

Model of `Saga` in `disttest/examples/alg/patterns.rs`. The steps run one after another; when one fails,
the steps before it are compensated, the newest first. `run` does all of it in one command.

* `do_step` and `do_comp` check everything before they write, so an error carries no state.
* The phase and the outcome are strings in the source, and only ever one of three each.
-/

namespace BuildYourOwn.Patterns

open Topic
open Choreo (words)

/-- `phase`. -/
inductive SagaPhase
  | forward
  | compensating
  | done
  deriving DecidableEq

def SagaPhase.text : SagaPhase → String
  | forward => "forward"
  | compensating => "compensating"
  | done => "done"

/-- `Saga`: what has run, what is left to undo, and the ledger. -/
@[ext] structure Saga where
  names : List String
  completed : List String
  pending : List String
  undone : StringSet
  ledger : List String
  phase : SagaPhase
  outcome : Outcome

namespace Saga

def new : Saga where
  names := []
  completed := []
  pending := []
  undone := ∅
  ledger := []
  phase := .forward
  outcome := .running

def reset (s : Saga) : Saga := { new with names := s.names }

/-- `do_step`: run the next forward step. -/
def doStep [Host] (s : Saga) (name : String) (ok : Bool) : Except Value Saga :=
  if s.phase ≠ .forward then .error (err "the saga is not running forward")
  else
    match s.names[s.completed.length]? with
    | none => .error (err "every step has already run")
    | some expected =>
      if expected ≠ name then
        .error (err ("the next step is " ++ debugStr expected ++ ", not " ++ debugStr name))
      else if ok = true then
        let s' := { s with completed := s.completed ++ [name], ledger := s.ledger ++ ["do:" ++ name] }
        if s'.completed.length = s'.names.length then
          .ok { s' with phase := .done, outcome := .committed }
        else .ok s'
      else
        let s' := { s with phase := .compensating, pending := s.completed.reverse }
        if s'.pending = [] then .ok { s' with phase := .done, outcome := .compensated }
        else .ok s'

/-- `do_comp`: run the next compensation; a repeat of one already recorded is a no-op. -/
def doComp [Host] (s : Saga) (name : String) (ok : Bool) : Except Value Saga :=
  if name ∈ s.undone then .ok s
  else if s.phase ≠ .compensating then .error (err "the saga is not compensating")
  else
    match s.pending with
    | [] => .error (err "there is nothing left to compensate")
    | head :: rest =>
      if head ≠ name then
        .error (err ("the next compensation is " ++ debugStr head ++ ", not " ++ debugStr name))
      else if ok = true then
        let s' := { s with
          pending := rest
          undone := s.undone.insert name
          ledger := s.ledger ++ ["undo:" ++ name] }
        if s'.pending = [] then .ok { s' with phase := .done, outcome := .compensated }
        else .ok s'
      else .ok s

/-- The first loop of `run`, from step `i` on: the state where it ends, and the error if it ends in
one. -/
def runSteps [Host] (failAt : Nat) (s : Saga) (i : Nat) : List String → Saga × Option Value
  | [] => (s, none)
  | name :: rest =>
    let ok := decide (failAt = 0 ∨ i + 1 ≠ failAt)
    match s.doStep name ok with
    | .error e => (s, some e)
    | .ok s' => if ok = true then runSteps failAt s' (i + 1) rest else (s', none)

/-- The second loop of `run`. -/
def runComps [Host] (s : Saga) : List String → Saga × Option Value
  | [] => (s, none)
  | name :: rest =>
    match s.doComp name true with
    | .error e => (s, some e)
    | .ok s' => runComps s' rest

/-- The answer to `run`. -/
def ran (s : Saga) : Value :=
  .obj [("executed", words s.completed),
    ("compensated", words (if s.outcome = .compensated then s.completed.reverse else [])),
    ("outcome", .str s.outcome.text)]

def run [Host] (s : Saga) (failAt : Nat) : Saga × Value :=
  if s.names.length < failAt then
    (s, err ("fail_at " ++ toString failAt ++ " is past the last step"))
  else
    match s.reset.runSteps failAt 0 s.names with
    | (s₁, some e) => (s₁, e)
    | (s₁, none) =>
      match s₁.runComps s₁.pending with
      | (s₂, some e) => (s₂, e)
      | (s₂, none) => (s₂, s₂.ran)

def answered (s : Saga) (e : Except Value Saga) (answer : Saga → Value) : Saga × Value :=
  match e with
  | .ok s' => (s', answer s')
  | .error e => (s, e)

/-- The answer to `step`. -/
def stepped (s : Saga) : Value :=
  .obj [("phase", .str s.phase.text), ("completed", words s.completed), ("outcome", .str s.outcome.text)]

/-- The answer to `compensate`. -/
def compensated (s : Saga) : Value :=
  .obj [("phase", .str s.phase.text), ("pending", words s.pending), ("outcome", .str s.outcome.text)]

def state (s : Saga) : Value :=
  .obj [("phase", .str s.phase.text), ("completed", words s.completed), ("pending", words s.pending),
    ("outcome", .str s.outcome.text)]

def step [Host] (s : Saga) (command : String) (args : List String) : Handled Saga :=
  match command with
  | "init" => arg s (wordList args 0) fun names =>
    if names = [] then some (s, err "a saga needs at least one step")
    else
      some ({ s with names := names }.reset,
        .obj [("steps", .num names.length), ("names", words names)])
  | "step" => arg s (word args 0) fun name => arg s (flag args 1 "ok" "fail") fun ok =>
    some (s.answered (s.doStep name ok) stepped)
  | "compensate" => arg s (word args 0) fun name => arg s (flag args 1 "ok" "fail") fun ok =>
    some (s.answered (s.doComp name ok) compensated)
  | "run" => arg s (uint args 0) fun failAt => some (s.run failAt)
  | "ledger" => some (s, .obj [("entries", words s.ledger)])
  | "state" => some (s, s.state)
  | other => some (s, err ("unknown command " ++ debugStr other))

end Saga

end BuildYourOwn.Patterns
