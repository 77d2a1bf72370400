import BuildYourOwn.Crdt.Exchange
import BuildYourOwn.Lib.MapSum
import BuildYourOwn.Topic.Map

/-!
# `g-counter`, `pn-counter` and `lww-register`

Model of `as_i64`, `counts_to_json`, `merge_max`, `Counter` and `Lww` in `disttest/examples/prim/crdt.rs`: a count of
increments for every replica name and, in a PN-counter, one of decrements. A sum, a difference or an increment panics
when it leaves `i64`.

A merge that meets something that is not a number answers with an error and keeps the entries before it, as the
source does, which writes the map in place.

A register takes a write whose timestamp and name are greater than those it holds.
-/

namespace BuildYourOwn.Crdt

open Lib Topic

def asI64 : Value → Option Int
  | .str s => parseI64 s
  | v => v.asI64

def countsToJson (m : StringMap Int) : Value := .obj (m.toList.map fun e => (e.1, .num e.2))

/-- The loop of `merge_max`: the map after it, and the error it stopped at. -/
def mergeEntries [Host] : List (String × Value) → StringMap Int → StringMap Int × Option Value
  | [], dst => (dst, none)
  | (replica, count) :: entries, dst =>
    match asI64 count with
    | some count => mergeEntries entries (dst.insert replica (max (dst.getD replica 0) count))
    | none => (dst, some (err ("the entry for " ++ debugStr replica ++ " is not a number")))

def mergeMax [Host] (dst : StringMap Int) : Option Value → StringMap Int × Option Value
  | none => (dst, none)
  | some (.obj entries) => mergeEntries entries dst
  | some _ => (dst, some (err "a counter half of a state must be an object"))

/-- `values().sum::<i64>()`. -/
def sumI64 (counts : List Int) : Option Int := counts.foldlM addI64 0

/-- `a - b` on `i64`: `none` is the overflow panic. -/
def subI64 (a b : Int) : Option Int := if inI64 (a - b) then some (a - b) else none

structure Counter where
  signed : Bool
  p : StringMap Int
  n : StringMap Int

namespace Counter

def new (signed : Bool) : Counter := ⟨signed, ∅, ∅⟩

def value (s : Counter) : Option Int :=
  (sumI64 s.p.vals).bind fun up => (sumI64 s.n.vals).bind fun down => subI64 up down

def state (s : Counter) : Value :=
  if s.signed then .obj [("n", countsToJson s.n), ("p", countsToJson s.p)]
  else .obj [("p", countsToJson s.p)]

/-- The answer of a command that leaves `s`. -/
def answer (s : Counter) : Handled Counter := s.value.map fun value => (s, .obj [("value", .num value)])

/-- `inc`, or `dec` when not `up`. -/
def add (s : Counter) (up : Bool) (replica : String) (amount : Int) : Handled Counter :=
  if amount < 0 then some (s, err "a counter entry may not move backwards")
  else if up then
    (addI64 (s.p.getD replica 0) amount).bind fun count =>
      answer { s with p := s.p.insert replica count }
  else
    (addI64 (s.n.getD replica 0) amount).bind fun count =>
      answer { s with n := s.n.insert replica count }

/-- What `merge` makes of both halves, and the error it stopped at. -/
def absorb [Host] (s : Counter) (incoming : Value) : Counter × Option Value :=
  match mergeMax s.p (incoming.get "p") with
  | (p, some e) => ({ s with p := p }, some e)
  | (p, none) =>
    let n := mergeMax s.n (incoming.get "n")
    ({ s with p := p, n := n.1 }, n.2)

def merge [Host] (s : Counter) (incoming : Value) : Handled Counter :=
  match s.absorb incoming with
  | (s, some e) => some (s, e)
  | (s, none) => answer s

/-- `Counter::run`. -/
def step [Host] (s : Counter) (command : String) (args : List String) : Handled Counter :=
  match command with
  | "inc" => arg s (word args 0) fun replica => arg s (int args 1) fun amount => s.add true replica amount
  | "dec" =>
    if s.signed then
      arg s (word args 0) fun replica => arg s (int args 1) fun amount => s.add false replica amount
    else some (s, err "a g-counter only ever increases")
  | "value" => arg s (word args 0) fun _ => answer s
  | "state" => shareState s state args
  | "merge" => arg s (word args 0) fun _ => arg s (jsonArg args 1) fun incoming => s.merge incoming
  | other => some (s, err ("unknown command " ++ debugStr other))

end Counter

/-! ## The register -/

structure Lww where
  value : Value
  ts : Int
  replica : String

namespace Lww

/-- `Lww::default()`. -/
def default : Lww := ⟨.null, 0, ""⟩

/-- `(ts, replica) > (self.ts, self.replica)`. -/
def beats (ts : Int) (replica : String) (s : Lww) : Bool :=
  decide (s.ts < ts) || decide (s.ts = ts) && decide (s.replica < replica)

def take (s : Lww) (value : Value) (ts : Int) (replica : String) : Lww :=
  if beats ts replica s then ⟨value, ts, replica⟩ else s

def state (s : Lww) : Value := .obj [("r", .str s.replica), ("ts", .num s.ts), ("v", s.value)]

/-- The answer of `set` and `value`. -/
def answer (s : Lww) : Value := .obj [("ts", .num s.ts), ("value", s.value)]

/-- What `merge` makes of an incoming state. -/
def absorb (s : Lww) (incoming : Value) : Lww :=
  let value := (incoming.get "v").getD .null
  let ts := ((incoming.get "ts").bind asI64).getD 0
  let replica := ((incoming.get "r").bind Value.asStr).getD ""
  s.take value ts replica

def merge (s : Lww) (incoming : Value) : Handled Lww :=
  let s := s.absorb incoming
  some (s, .obj [("value", s.value)])

/-- `Lww::run`. -/
def step [Host] (s : Lww) (command : String) (args : List String) : Handled Lww :=
  match command with
  | "set" => arg s (word args 0) fun replica => arg s (word args 1) fun value => arg s (int args 2) fun ts =>
    let s := s.take (.str value) ts replica
    some (s, answer s)
  | "value" => arg s (word args 0) fun _ => some (s, answer s)
  | "state" => shareState s state args
  | "merge" => arg s (word args 0) fun _ => arg s (jsonArg args 1) fun incoming => s.merge incoming
  | other => some (s, err ("unknown command " ++ debugStr other))

end Lww

end BuildYourOwn.Crdt
