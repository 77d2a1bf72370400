import BuildYourOwn.Topic.Command
import BuildYourOwn.Topic.Map

/-!
# `idempotency-key`: a retry that replays an answer instead of charging again

Model of `KeyRec` and `Keys` in `disttest/examples/alg/patterns.rs`. A key is charged at once by
`charge`, or opened by `begin` and charged by `finish`; a retry is answered with the stored charge.

* The state of a key is a string in the source, and only ever one of two. A key has a charge id
  exactly when it is done, which `KeyRec` carries as a field.
* `next_id` is a `usize` and the balance an `i64`: both panic when they overflow.
-/

namespace BuildYourOwn.Patterns

open Topic

/-- `KeyRec::state`. -/
inductive KeyState
  | inProgress
  | done
  deriving DecidableEq

def KeyState.text : KeyState → String
  | inProgress => "in-progress"
  | done => "done"

/-- `KeyRec`: what the server remembers about one key. -/
structure KeyRec where
  chargeId : Option String
  amount : Int
  state : KeyState
  settled : chargeId.isSome = true ↔ state = .done

def KeyRec.charged (id : String) (amount : Int) : KeyRec where
  chargeId := some id
  amount := amount
  state := .done
  settled := by simp

def KeyRec.opened (amount : Int) : KeyRec where
  chargeId := none
  amount := amount
  state := .inProgress
  settled := by simp

structure Keys where
  balance : Int
  nextId : Nat
  keys : StringMap KeyRec

namespace Keys

def new : Keys where
  balance := 0
  nextId := 0
  keys := ∅

/-- The id that `mint` gives when the counter stands at `n`. -/
def chargeId (n : Nat) : String := "c" ++ toString n

def mint (s : Keys) : Option (Keys × String) :=
  if s.nextId + 1 < UInt64.size then
    some ({ s with nextId := s.nextId + 1 }, chargeId (s.nextId + 1))
  else none

/-- `mint`, and then `self.balance += amount`. -/
def take (s : Keys) (amount : Int) : Option (Keys × String) :=
  match s.mint with
  | none => none
  | some (s₁, id) => (addI64 s₁.balance amount).map fun balance => ({ s₁ with balance := balance }, id)

/-- `mismatch`: a key may only be used for the amount it was first seen with. -/
def mismatch (s : Keys) (key : String) (amount : Int) : Option Value :=
  match s.keys[key]? with
  | none => none
  | some rec =>
    if rec.amount = amount then none
    else
      some (.obj [("ok", .bool false),
        ("error", .str ("key " ++ key ++ " was used for " ++ toString rec.amount ++ ", not " ++
          toString amount)), ("balance", .num s.balance)])

def charge (s : Keys) (key : String) (amount : Int) : Handled Keys :=
  match s.mismatch key amount with
  | some bad => some (s, bad)
  | none =>
    match s.keys[key]? with
    | some rec =>
      match rec.state with
      | .inProgress =>
        some (s, .obj [("ok", .bool false), ("error", .str "in progress"), ("balance", .num s.balance)])
      | .done =>
        some (s, .obj [("ok", .bool true), ("charge_id", .ofOption .str rec.chargeId),
          ("amount", .num rec.amount), ("replayed", .bool true), ("balance", .num s.balance)])
    | none =>
      match s.take amount with
      | none => none
      | some (s₁, id) =>
        some ({ s₁ with keys := s₁.keys.insert key (.charged id amount) },
          .obj [("ok", .bool true), ("charge_id", .str id), ("amount", .num amount),
            ("replayed", .bool false), ("balance", .num s₁.balance)])

/-- `naive-charge`. -/
def naiveCharge (s : Keys) (amount : Int) : Handled Keys :=
  match s.take amount with
  | none => none
  | some (s₁, id) => some (s₁, .obj [("charge_id", .str id), ("balance", .num s₁.balance)])

def begin (s : Keys) (key : String) (amount : Int) : Keys × Value :=
  match s.mismatch key amount with
  | some bad => (s, bad)
  | none =>
    match s.keys[key]? with
    | some rec =>
      match rec.state with
      | .inProgress =>
        (s, .obj [("ok", .bool false), ("state", .str "in-progress"), ("error", .str "in progress")])
      | .done => (s, .obj [("ok", .bool true), ("state", .str "done")])
    | none =>
      ({ s with keys := s.keys.insert key (.opened amount) },
        .obj [("ok", .bool true), ("state", .str "in-progress")])

def finish (s : Keys) (key : String) : Handled Keys :=
  match s.keys[key]? with
  | none => some (s, err ("unknown key " ++ key))
  | some rec =>
    match rec.chargeId with
    | some id =>
      some (s, .obj [("ok", .bool true), ("charge_id", .str id), ("balance", .num s.balance)])
    | none =>
      match s.take rec.amount with
      | none => none
      | some (s₁, id) =>
        some ({ s₁ with keys := s₁.keys.insert key (.charged id rec.amount) },
          .obj [("ok", .bool true), ("charge_id", .str id), ("balance", .num s₁.balance)])

/-- One key in the answer to `state`. -/
def entry (rec : KeyRec) : Value :=
  .obj [("charge_id", .ofOption .str rec.chargeId), ("amount", .num rec.amount),
    ("state", .str rec.state.text)]

def state (s : Keys) : Value :=
  .obj [("balance", .num s.balance), ("keys", .obj (s.keys.toList.map fun p => (p.1, entry p.2)))]

def step [Host] (s : Keys) (command : String) (args : List String) : Handled Keys :=
  match command with
  | "init" => some (new, .obj [("balance", .num 0), ("charges", .num 0)])
  | "charge" => arg s (word args 0) fun key => arg s (int args 1) fun amount => s.charge key amount
  | "naive-charge" => arg s (int args 0) fun amount => s.naiveCharge amount
  | "begin" => arg s (word args 0) fun key => arg s (int args 1) fun amount =>
    some (s.begin key amount)
  | "finish" => arg s (word args 0) fun key => s.finish key
  | "lost-answer" => arg s (word args 0) fun _ => some (s, .obj [("ok", .bool true)])
  | "state" => some (s, s.state)
  | other => some (s, err ("unknown command " ++ debugStr other))

end Keys

end BuildYourOwn.Patterns
