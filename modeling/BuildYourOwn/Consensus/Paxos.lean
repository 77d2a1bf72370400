import Mathlib.Data.List.Sort
import Mathlib.Data.List.Dedup
import BuildYourOwn.Topic.Command
import BuildYourOwn.Topic.Map

/-!
# `paxos`: every acceptor and one proposer in one process

Model of `Paxos` in `disttest/examples/alg/paxos.rs`. The proposer of the current proposal keeps its
promises by the name of the acceptor; on the wire an acceptor that has accepted nothing is reported
as `-1` and `-` (`reported`).
-/

namespace BuildYourOwn.Consensus

open Topic

/-- The index after the `a` of an acceptor's name, as a number. -/
def parseName (name : String) : Option Nat :=
  match name.toList with
  | 'a' :: rest => parseUsize (String.ofList rest)
  | _ => none

/-- `acceptor_index`: an acceptor name (`a1` to `a<count>`) as its position. -/
def acceptorIndex [Host] (count : Nat) (args : List String) (i : Nat) : Except Value Nat :=
  match word args i with
  | .error e => .error e
  | .ok name =>
    match parseName name with
    | none => .error (err (debugStr name ++ " is not an acceptor name like \"a1\""))
    | some k =>
      if 1 ≤ k ∧ k ≤ count then .ok (k - 1)
      else .error (err ("there is no acceptor " ++ debugStr name))

theorem acceptorIndex_eq_ok [Host] {args : List String} {n i j : Nat} :
    acceptorIndex n args j = .ok i ↔ ∃ name, word args j = .ok name ∧ parseName name = some (i + 1) ∧ i < n := by
  unfold acceptorIndex
  constructor
  · intro h
    split at h
    · cases h
    · rename_i name hname
      split at h
      · cases h
      · rename_i p hp
        split at h
        · rename_i hrange
          have hi : p - 1 = i := Except.ok.inj h
          obtain rfl : p = i + 1 := by omega
          exact ⟨name, hname, hp, by omega⟩
        · cases h
  · rintro ⟨name, hname, hp, hi⟩
    rw [hname]
    dsimp only
    rw [hp]
    dsimp only
    rw [if_pos ⟨by omega, by omega⟩, Nat.add_sub_cancel]

/-- A number as JSON, or `null`. -/
def numOr (n : Option Int) : Value := Value.ofOption .num n

/-- A text as JSON, or `null`. -/
def strOr (s : Option String) : Value := Value.ofOption .str s

/-- `Acceptor`: the highest number it has promised, and the highest proposal it accepted. -/
structure Acceptor where
  promisedN : Int
  lastN : Option Int
  lastValue : Option String

namespace Acceptor

/-- `Acceptor::default`. -/
def fresh : Acceptor where
  promisedN := 0
  lastN := none
  lastValue := none

/-- The acceptor's part of `prepare`: strictly greater, or one acceptor could promise a number
twice. -/
def prepare (a : Acceptor) (n : Int) : Acceptor × Value :=
  let promised := decide (a.promisedN < n)
  let a := if promised then { a with promisedN := n } else a
  (a, .obj [("promised", .bool promised), ("promised_n", .num a.promisedN),
    ("last_n", numOr a.lastN), ("last_value", strOr a.lastValue)])

/-- The acceptor's part of `accept`: the proposal it promised to, and anything above it. -/
def accept (a : Acceptor) (n : Int) (value : String) : Acceptor × Value :=
  let accepted := decide (a.promisedN ≤ n)
  let a : Acceptor := if accepted then
      { promisedN := n, lastN := some n, lastValue := some value }
    else a
  (a, .obj [("accepted", .bool accepted), ("promised_n", .num a.promisedN)])

end Acceptor

/-- `Proposer`: one proposal, with the promises collected for it. -/
structure Proposer where
  n : Int
  ownValue : String
  promises : StringMap (Option Int × Option String)

/-- `Paxos`: one instance of single-decree Paxos. -/
structure Paxos where
  acceptors : List Acceptor
  proposer : Option Proposer

namespace Paxos

def majority (s : Paxos) : Nat := s.acceptors.length / 2 + 1

/-- One round of the loop of `proposer_value`: a report that beats the best seen so far. -/
def better (best : Option (Int × String)) (report : Option Int × Option String) :
    Option (Int × String) :=
  match report with
  | (some n, some v) =>
    match best with
    | none => some (n, v)
    | some (seen, _) => if seen < n then some (n, v) else best
  | _ => best

/-- `proposer_value`: the value of the highest-numbered report, and the proposer's own only when
no promise reported one. -/
def proposerValue (p : Proposer) : String :=
  match (StringMap.vals p.promises).foldl better none with
  | some (_, value) => value
  | none => p.ownValue

def proposerState (s : Paxos) : Value :=
  match s.proposer with
  | none => err "no proposal has been started"
  | some p =>
    let ready := decide (s.majority ≤ p.promises.size)
    .obj [("n", .num p.n), ("phase", .str (if ready then "accept" else "prepare")),
      ("promises", .num p.promises.size), ("value", .str (proposerValue p)),
      ("ready", .bool ready)]

def numbers (s : Paxos) : List Int :=
  ((s.acceptors.filterMap Acceptor.lastN).insertionSort (· ≤ ·)).dedup

/-- The acceptors whose last accepted proposal is number `n`. -/
def holders (s : Paxos) (n : Int) : List Acceptor := s.acceptors.filter fun a => a.lastN == some n

/-- One round of the loop of `learn`: a number that a majority holds is chosen. -/
def choose (s : Paxos) (chosen : Option String) (n : Int) : Option String :=
  if s.majority ≤ (s.holders n).length then
    match (s.holders n).head?.bind Acceptor.lastValue with
    | some v => some v
    | none => chosen
  else chosen

/-- `learn`: has a majority accepted one and the same proposal number? -/
def learn (s : Paxos) : Value :=
  match s.numbers.foldl s.choose none with
  | some value =>
    let count := (s.acceptors.filter fun a => a.lastValue == some value).length
    .obj [("chosen", .bool true), ("value", .str value), ("count", .num count)]
  | none => .obj [("chosen", .bool false), ("value", .null), ("count", .num 0)]

/-! ## The commands -/

/-- The state `init` leaves. -/
def init (n : Nat) : Paxos where
  acceptors := List.replicate n Acceptor.fresh
  proposer := none

def atAcceptor (s : Paxos) (i : Nat) (f : Acceptor → Acceptor × Value) : Handled Paxos :=
  match s.acceptors[i]? with
  | none => none
  | some a => some ({ s with acceptors := s.acceptors.set i (f a).1 }, (f a).2)

/-- What `promise` records for the words of a report. -/
def reported (lastN : Int) (lastValue : String) : Option Int × Option String :=
  if lastN < 0 ∨ lastValue = "-" then (none, none) else (some lastN, some lastValue)

/-- `promise`, with its arguments read. -/
def promise (s : Paxos) (name : String) (lastN : Int) (lastValue : String) : Paxos × Value :=
  match s.proposer with
  | none => (s, err "no proposal has been started")
  | some p =>
    let p := { p with promises := p.promises.insert name (reported lastN lastValue) }
    ({ s with proposer := some p },
      .obj [("promises", .num p.promises.size), ("value", .str (proposerValue p)),
        ("ready", .bool (decide (s.majority ≤ p.promises.size)))])

def step [Host] (s : Paxos) (command : String) (args : List String) : Handled Paxos :=
  match command with
  | "init" => arg s (uint args 0) fun n =>
    if n < 1 then some (s, err "Paxos needs at least one acceptor")
    else some (init n, .obj [("ok", .bool true), ("acceptors", .num n),
      ("majority", .num (init n).majority)])
  | "prepare" =>
    arg s (acceptorIndex s.acceptors.length args 0) fun i =>
    arg s (int args 1) fun n => s.atAcceptor i fun a => a.prepare n
  | "accept" =>
    arg s (acceptorIndex s.acceptors.length args 0) fun i =>
    arg s (int args 1) fun n =>
    arg s (word args 2) fun value => s.atAcceptor i fun a => a.accept n value
  | "acceptor" =>
    arg s (acceptorIndex s.acceptors.length args 0) fun i =>
      s.atAcceptor i fun a => (a, .obj [("promised_n", .num a.promisedN), ("last_n", numOr a.lastN),
        ("last_value", strOr a.lastValue)])
  | "learn" => some (s, s.learn)
  | "propose" =>
    arg s (int args 0) fun n =>
    arg s (word args 1) fun value =>
      some ({ s with proposer := some { n := n, ownValue := value, promises := ∅ } },
        .obj [("phase", .str "prepare"), ("n", .num n), ("value", .str value)])
  | "promise" =>
    arg s (word args 0) fun name =>
      match acceptorIndex s.acceptors.length args 0 with
      | .error _ => some (s, err ("there is no acceptor " ++ debugStr name))
      | .ok _ =>
        arg s (int args 1) fun lastN =>
        arg s (word args 2) fun lastValue => some (s.promise name lastN lastValue)
  | "proposer" => some (s, s.proposerState)
  | other => some (s, err ("unknown command " ++ debugStr other))

end Paxos

end BuildYourOwn.Consensus
