import Mathlib.Data.Prod.Lex
import BuildYourOwn.Topic.Command

/-!
# `abd`: a register from quorums

Model of `Tagged` and `Abd` in `disttest/examples/alg/replication.rs`: a read asks a quorum for the
highest tag and, with write-back on, puts it on a quorum; a write puts the value under the next
timestamp. A quorum is the first majority of whichever replicas are up.

* A tag is the pair `(ts, writer)`, compared as Rust compares pairs.
* `write` panics when the timestamp leaves `i64`. `messages` is counted without a bound.
-/

namespace BuildYourOwn.Replication

open Topic

/-- `Tagged`: one replica's register. -/
structure Tagged where
  ts : Int
  writer : Int
  value : Int
  deriving DecidableEq

namespace Tagged

/-- `Tagged::default()`. -/
def default : Tagged := ⟨0, 0, 0⟩

def tag (t : Tagged) : Int ×ₗ Int := toLex (t.ts, t.writer)

end Tagged

structure Abd where
  replicas : List Tagged
  up : List Bool
  writeback : Bool
  messages : Nat

namespace Abd

def quorum (s : Abd) : Nat := s.replicas.length / 2 + 1

/-- The replicas that are up. -/
def live (s : Abd) : List Nat := (List.range s.replicas.length).filter fun i => s.up.getD i false

/-- `reachable`, cut to the quorum that both phases use of it. -/
def reachable (s : Abd) : Option (List Nat) :=
  if s.quorum ≤ s.live.length then some (s.live.take s.quorum) else none

def higher (best r : Tagged) : Tagged := if best.tag < r.tag then r else best

/-- One replica asked in `read_quorum`. -/
def ask (replicas : List Tagged) (best : Tagged) (i : Nat) : Tagged :=
  match replicas[i]? with
  | some r => higher best r
  | none => best

def best (replicas : List Tagged) (is : List Nat) : Tagged := is.foldl (ask replicas) Tagged.default

/-- `read_quorum`: the highest tagged value a quorum holds. -/
def readQuorum (s : Abd) : Option (Abd × Tagged) :=
  s.reachable.map fun is => ({ s with messages := s.messages + is.length }, best s.replicas is)

def putOn (t : Tagged) (replicas : List Tagged) (is : List Nat) : List Tagged :=
  is.foldl (fun rs i => rs.modify i fun r => higher r t) replicas

def writeQuorum (s : Abd) (t : Tagged) : Option (Abd × Nat) :=
  s.reachable.map fun is =>
    ({ s with replicas := putOn t s.replicas is, messages := s.messages + is.length }, is.length)

/-- The state `init` leaves. -/
def init (n : Nat) : Abd where
  replicas := List.replicate n Tagged.default
  up := List.replicate n true
  writeback := true
  messages := 0

/-- An operation that cannot reach a majority. -/
def noQuorum (what : String) : Value :=
  .obj [("ok", .bool true), (what, .bool false), ("reason", .str "no quorum")]

def write (s : Abd) (writer value : Int) : Handled Abd :=
  match s.readQuorum with
  | none => some (s, noQuorum "committed")
  | some (s, found) =>
    (addI64 found.ts 1).bind fun ts =>
      match s.writeQuorum ⟨ts, writer, value⟩ with
      | some (s, n) => some (s, .obj [("ok", .bool true), ("committed", .bool true), ("ts", .num ts),
          ("writer", .num writer), ("replicas_written", .num n)])
      | none => some (s, noQuorum "committed")

def served (found : Tagged) (wroteBack : Bool) : Value :=
  .obj [("ok", .bool true), ("served", .bool true), ("value", .num found.value),
    ("ts", .num found.ts), ("writer", .num found.writer), ("wrote_back", .bool wroteBack)]

def read (s : Abd) : Abd × Value :=
  match s.readQuorum with
  | none => (s, noQuorum "served")
  | some (s, found) =>
    if s.writeback then
      match s.writeQuorum found with
      | some (s, _) => (s, served found true)
      | none => (s, served found false)
    else (s, served found false)

def about (s : Abd) (args : List String) (k : Nat → Handled Abd) : Handled Abd :=
  arg s (uint args 0) fun i =>
    if s.replicas.length ≤ i then some (s, err ("no replica " ++ toString i)) else k i

/-- `up` and `down`. -/
def setUp (s : Abd) (i : Nat) (up : Bool) : Abd × Value :=
  ({ s with up := s.up.set i up }, .obj [("ok", .bool true), ("replica", .num i), ("up", .bool up)])

/-- `poke`: a tagged value put on one replica directly. -/
def poke (s : Abd) (i : Nat) (t : Tagged) : Abd × Value :=
  ({ s with replicas := s.replicas.set i t },
    .obj [("ok", .bool true), ("replica", .num i), ("ts", .num t.ts), ("value", .num t.value)])

/-- `state`. -/
def stateValue (s : Abd) : Value :=
  .obj [("ok", .bool true), ("quorum", .num s.quorum), ("messages", .num s.messages),
    ("writeback", .bool s.writeback),
    ("replicas", .arr (s.replicas.mapIdx fun i r => .obj [("up", .bool (s.up.getD i false)),
      ("ts", .num r.ts), ("writer", .num r.writer), ("value", .num r.value)]))]

def step [Host] (s : Abd) (command : String) (args : List String) : Handled Abd :=
  match command with
  | "init" => arg s (uint args 0) fun n =>
    if n = 0 then some (s, err "a register needs at least one replica")
    else some (init n, .obj [("ok", .bool true), ("replicas", .num n),
      ("quorum", .num (n / 2 + 1 : Nat))])
  | "writeback" => arg s (word args 0) fun w =>
    match w with
    | "on" => some ({ s with writeback := true }, .obj [("ok", .bool true), ("writeback", .bool true)])
    | "off" =>
      some ({ s with writeback := false }, .obj [("ok", .bool true), ("writeback", .bool false)])
    | other => some (s, err ("expected on or off, got " ++ debugStr other))
  | "down" => about s args fun i => some (s.setUp i false)
  | "up" => about s args fun i => some (s.setUp i true)
  | "write" => arg s (int args 0) fun writer => arg s (int args 1) fun value => s.write writer value
  | "read" => some s.read
  | "poke" => about s args fun i => arg s (int args 1) fun ts => arg s (int args 2) fun writer =>
    arg s (int args 3) fun value => some (s.poke i ⟨ts, writer, value⟩)
  | "state" => some (s, s.stateValue)
  | other => some (s, err ("unknown command " ++ debugStr other))

end Abd

end BuildYourOwn.Replication
