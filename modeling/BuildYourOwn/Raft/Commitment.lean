import BuildYourOwn.Topic.Command
import BuildYourOwn.Topic.Map

/-!
# `raft-commit`: the leader half of AppendEntries

Model of `Commitment` in `disttest/examples/alg/raft.rs`: `matchIndex`, `nextIndex` and the rule
that advances `commitIndex`. Indices are 1-based. The one addition that can leave `i64` is the
`matched + 1` of `ack`, whose operand comes from the wire.
-/

namespace BuildYourOwn.Raft

open Topic

/-- `Commitment`: a leader's bookkeeping for its followers. -/
structure Commitment where
  members : Nat
  term : Int
  log : List Int
  commitIndex : Int
  matchIndex : StringMap Int
  nextIndex : StringMap Int

namespace Commitment

def majority (s : Commitment) : Nat := s.members / 2 + 1

def lastIndex (s : Commitment) : Int := s.log.length

def termAt (s : Commitment) (index : Int) : Option Int :=
  if 1 ≤ index ∧ index ≤ s.lastIndex then s.log[(index - 1).toNat]? else none

/-- `replicas`: the members that hold the entry at `index`, the leader included. -/
def replicas (s : Commitment) (index : Int) : Nat :=
  1 + ((StringMap.vals s.matchIndex).filter fun m => decide (index ≤ m)).length

/-- The loop of `advance_commit`, down from `n`. -/
def advanceFrom (s : Commitment) : Nat → Commitment
  | 0 => s
  | n + 1 =>
    if s.commitIndex < n + 1 then
      if s.majority ≤ s.replicas (n + 1) ∧ s.termAt (n + 1) = some s.term then
        { s with commitIndex := n + 1 }
      else s.advanceFrom n
    else s

/-- `advance_commit`: the highest index a majority holds from the leader's own term. -/
def advanceCommit (s : Commitment) : Commitment := s.advanceFrom s.log.length

def indexMap (m : StringMap Int) : Value := .obj (m.toList.map fun p => (p.1, .num p.2))

def state (s : Commitment) : Value :=
  .obj [("term", .num s.term), ("last_index", .num s.lastIndex),
    ("commit_index", .num s.commitIndex), ("match", indexMap s.matchIndex),
    ("next", indexMap s.nextIndex)]

/-! ## The commands -/

/-- The peers `init` knows: `s2` to `s<n>`. -/
def peers (n : Nat) : List String := (List.range' 2 (n - 1)).map fun i => "s" ++ toString i

/-- The state `init` leaves. -/
def init (n : Nat) (term : Int) (terms : List Int) : Commitment where
  members := n
  term := term
  log := terms
  commitIndex := 0
  matchIndex := (peers n).foldl (fun m p => m.insert p 0) ∅
  nextIndex := (peers n).foldl (fun m p => m.insert p (terms.length + 1)) ∅

/-- The error of a peer that `init` did not make. -/
def notAPeer (peer : String) : Value := err (peer ++ " is not a peer of this cluster")

/-- `ack`: a matchIndex only ever rises, and nextIndex stays above it. -/
def ack (s : Commitment) (peer : String) (index : Int) : Handled Commitment :=
  if s.matchIndex.contains peer then
    let matched := max (s.matchIndex.getD peer 0) index
    match addI64 matched 1 with
    | none => none
    | some above =>
      let next := max (s.nextIndex.getD peer 1) above
      let s := { s with
        matchIndex := s.matchIndex.insert peer matched
        nextIndex := s.nextIndex.insert peer next }
      let s := s.advanceCommit
      some (s, .obj [("match_index", .num matched), ("next_index", .num next),
        ("commit_index", .num s.commitIndex)])
  else some (s, notAPeer peer)

/-- `reject`: back nextIndex up to where the follower's log conflicts. -/
def reject (s : Commitment) (peer : String) (conflict : Int) : Commitment × Value :=
  if s.nextIndex.contains peer then
    let next := max conflict 1
    ({ s with nextIndex := s.nextIndex.insert peer next }, .obj [("next_index", .num next)])
  else (s, notAPeer peer)

/-- The answer of `commit-safe`. -/
def safety (safe : Bool) (replicas : Nat) (reason : String) : Value :=
  .obj [("safe", .bool safe), ("replicas", .num replicas), ("reason", .str reason)]

/-- `commit-safe`. -/
def commitSafe (s : Commitment) (index : Int) : Value :=
  if index < 1 ∨ s.lastIndex < index then safety false 0 "past the end of the log"
  else
    let replicas := s.replicas index
    if index ≤ s.commitIndex then safety true replicas "already committed"
    else if replicas < s.majority then safety false replicas "no majority"
    else if s.termAt index ≠ some s.term then safety false replicas "earlier term"
    else safety true replicas "current term"

def step [Host] (s : Commitment) (command : String) (args : List String) : Handled Commitment :=
  match command with
  | "init" =>
    arg s (uint args 0) fun n =>
    arg s (int args 1) fun term =>
    arg s (intList args 2) fun terms =>
      if n < 1 then some (s, err "a cluster needs at least one member")
      else
        let s := init n term terms
        some (s, .obj [("term", .num s.term), ("last_index", .num s.lastIndex),
          ("commit_index", .num s.commitIndex), ("majority", .num s.majority)])
  | "append" =>
    let s := { s with log := s.log ++ [s.term] }
    some (s, .obj [("last_index", .num s.lastIndex), ("term", .num s.term)])
  | "ack" =>
    arg s (word args 0) fun peer =>
    arg s (int args 1) fun index => s.ack peer index
  | "reject" =>
    arg s (word args 0) fun peer =>
    arg s (int args 1) fun conflict => some (s.reject peer conflict)
  | "commit-safe" => arg s (int args 0) fun index => some (s, s.commitSafe index)
  | "entry" => arg s (int args 0) fun index =>
    match s.termAt index with
    | some t => some (s, .obj [("term", .num t)])
    | none => some (s, err ("there is no entry at index " ++ toString index))
  | "state" => some (s, s.state)
  | other => some (s, err ("unknown command " ++ debugStr other))

/-! ## What the catch-up needs of it -/

variable {s : Commitment} {v : Value}

/-- `term_at` is the position before the index. -/
theorem termAt_succ (s : Commitment) (i : Nat) : s.termAt (i + 1) = s.log[i]? := by
  unfold termAt lastIndex
  split
  · congr 1
    omega
  · rw [List.getElem?_eq_none_iff.mpr (by omega)]

theorem reject_of_mem {peer : String} {conflict next : Int} (hp : s.nextIndex[peer]? = some next) :
    (s.reject peer conflict).1 = { s with nextIndex := s.nextIndex.insert peer (max conflict 1) } := by
  have hc : s.nextIndex.contains peer = true := by
    rw [Std.ExtTreeMap.contains_eq_isSome_getElem?, hp]
    rfl
  unfold reject
  rw [if_pos hc]

theorem step_reject [Host] {args : List String} {peer : String} {conflict : Int}
    (h₀ : word args 0 = .ok peer) (h₁ : int args 1 = .ok conflict) :
    s.step "reject" args = some (s.reject peer conflict) := by
  simp only [step, h₀, h₁, arg_ok]

end Commitment

end BuildYourOwn.Raft
