import Mathlib.Data.Finset.Card
import BuildYourOwn.Commit.TwoPhase

/-!
# `three-phase-commit`: a pre-commit round and a network that can split

Model of `ThreePhase` in `disttest/examples/alg/commit.rs`. Between the votes and the commit the
coordinator sends a pre-commit, and a participant that timed out decides on its own: it commits when it
has seen the pre-commit and aborts when it has not. A partition keeps the coordinator from the
participants it cuts off.

* `state` and a decision are strings in the source, and only ever those below.
-/

namespace BuildYourOwn.Commit

open Topic

/-- `state`: where the coordinator is. -/
inductive Stage
  | init
  | voting
  | preCommitted
  | committed
  | aborted
  deriving DecidableEq

def Stage.text : Stage → String
  | init => "init"
  | voting => "voting"
  | preCommitted => "pre-committed"
  | committed => "committed"
  | aborted => "aborted"

/-- `ThreePhase`: one transaction. `cutOff` are the participants on the far side of a `split`. -/
structure ThreePhase where
  participants : List String
  state : Stage
  decision : Option Decision
  votes : StringMap Vote
  pState : StringMap PState
  acks : Finset String
  coordinatorUp : Bool
  broadcast : Bool
  cutOff : Finset String
  split : Bool

namespace ThreePhase

def pstate (s : ThreePhase) (p : String) : PState := s.pState.getD p .working

/-- `reachable`: the coordinator sits with everyone the partition did not cut off. -/
def reachable (s : ThreePhase) (p : String) : Bool := !s.split || !decide (p ∈ s.cutOff)

def majority (s : ThreePhase) : Nat := s.participants.length / 2 + 1

def allYes (s : ThreePhase) : Bool :=
  !s.participants.isEmpty && decide (s.votes.size = s.participants.length) &&
    (StringMap.vals s.votes).all (· == .yes)

/-- A participant moves. -/
def move (s : ThreePhase) (p : String) (x : PState) : ThreePhase :=
  { s with pState := s.pState.insert p x }

/-- `settle`: a participant settles once. -/
def settle (s : ThreePhase) (p : String) (d : Decision) : ThreePhase :=
  if (s.pstate p).decision.isSome then s
  else
    s.move p (match d with
      | .commit => .committed
      | .abort => .aborted)

def decided (d : Option Decision) : Value := Value.ofOption (fun d => .str d.text) d

/-- The error of a participant that `init` did not name. -/
def notAParticipant [Host] (p : String) : Value := err (debugStr p ++ " is not a participant")

/-! ## The commands -/

/-- The state `init` leaves: every participant works. -/
def init (names : List String) : ThreePhase where
  participants := names
  state := .init
  decision := none
  votes := ∅
  pState := names.foldl (fun m p => m.insert p .working) ∅
  acks := ∅
  coordinatorUp := true
  broadcast := false
  cutOff := ∅
  split := false

/-- A first vote: it is recorded, its participant prepares or aborts, and a no decides. -/
def cast (s : ThreePhase) (p : String) (yes : Bool) : ThreePhase :=
  let s := { s with
    votes := s.votes.insert p (if yes then .yes else .no)
    pState := s.pState.insert p (if yes then .prepared else .aborted)
    state := if s.state = .init then .voting else s.state }
  if yes = false ∧ s.decision.isNone then
    { s with decision := some .abort, state := .aborted, broadcast := true }
  else s

/-- `vote`: the first vote a participant casts is the one that stands. -/
def vote (s : ThreePhase) (p : String) (yes : Bool) : ThreePhase × Value :=
  let s := if s.votes.contains p then s else s.cast p yes
  (s, .obj [("state", .str s.state.text), ("votes", .num s.votes.size),
    ("decision", decided s.decision)])

/-- The answer of `pre-commit`. -/
def round (s : ThreePhase) (ok : Bool) (sent : Nat) (error : Value) : Value :=
  .obj [("ok", .bool ok), ("state", .str s.state.text), ("sent", .num sent), ("error", error)]

/-- `pre-commit`. -/
def preCommit (s : ThreePhase) : ThreePhase × Value :=
  if s.coordinatorUp = false then (s, s.round false 0 (.str "the coordinator has crashed"))
  else if s.allYes = false then (s, s.round false 0 (.str "not every participant has voted yes"))
  else
    let s := { s with state := .preCommitted }
    (s, s.round true (s.participants.countP s.reachable) .null)

/-- The answer about one participant. -/
def pStateValue (s : ThreePhase) (p : String) : Value := .obj [("state", .str (s.pstate p).text)]

/-- `p-precommit`: the pre-commit reaches a participant, unless a partition stops it. -/
def pPreCommit (s : ThreePhase) (p : String) : ThreePhase × Value :=
  let s :=
    if s.state = .preCommitted ∧ s.reachable p = true ∧ s.pstate p = .prepared then
      s.move p .preCommitted
    else s
  (s, s.pStateValue p)

def ack (s : ThreePhase) (p : String) : ThreePhase × Value :=
  let s :=
    if s.pstate p = .preCommitted ∧ s.reachable p = true then { s with acks := insert p s.acks }
    else s
  (s, .obj [("acks", .num s.acks.card)])

/-- The answer of `commit`. -/
def commitValue (ok : Bool) (decision error : Value) : Value :=
  .obj [("ok", .bool ok), ("decision", decision), ("error", error)]

def commit (s : ThreePhase) : ThreePhase × Value :=
  if s.coordinatorUp = false then
    (s, commitValue false .null (.str "the coordinator has crashed"))
  else if s.state ≠ .preCommitted then
    (s, commitValue false .null (.str "no pre-commit round has finished"))
  else if s.acks.card < s.majority then
    (s, commitValue false .null (.str "fewer than a majority have acknowledged the pre-commit"))
  else
    ({ s with decision := some .commit, state := .committed, broadcast := true },
      commitValue true (.str "commit") .null)

/-- `deliver`: the decision reaches a participant, unless a partition stops it. -/
def deliver (s : ThreePhase) (p : String) : ThreePhase × Value :=
  let s :=
    if s.broadcast = true ∧ s.reachable p = true then
      match s.decision with
      | some d => s.settle p d
      | none => s
    else s
  (s, s.pStateValue p)

/-- The answer of `p-timeout`. -/
def answer (d : Decision) (blocked : Bool) (reason : String) : Value :=
  .obj [("decision", .str d.text), ("blocked", .bool blocked), ("reason", .str reason)]

/-- `p-timeout`. -/
def pTimeout (s : ThreePhase) (p : String) : ThreePhase × Value :=
  match (s.pstate p).decision with
  | some d => (s, answer d false "already decided")
  | none =>
    match s.pstate p with
    | .preCommitted =>
      (s.move p .committed,
        answer .commit false "pre-commit received, every participant voted yes")
    | .prepared => (s.move p .aborted, answer .abort false "no pre-commit received")
    | _ =>
      ({ s.move p .aborted with
          votes := if s.votes.contains p then s.votes else s.votes.insert p .no },
        answer .abort false "has not voted")

def partition [Host] (s : ThreePhase) (group : List String) : ThreePhase × Value :=
  match group.find? fun p => !decide (p ∈ s.participants) with
  | some p => (s, notAParticipant p)
  | none =>
    let cutOff := group.toFinset
    ({ s with cutOff := cutOff, split := true },
      .obj [("split", .bool true), ("groups", .arr [.arr (group.map .str),
        .arr ((s.participants.filter fun p => !decide (p ∈ cutOff)).map .str)])])

def heal (s : ThreePhase) : ThreePhase × Value :=
  ({ s with split := false, cutOff := ∅ }, .obj [("split", .bool false), ("groups", .arr [])])

def decisions (s : ThreePhase) : Value :=
  let committed := s.participants.any fun p => s.pstate p == .committed
  let aborted := s.participants.any fun p => s.pstate p == .aborted
  let each := s.participants.foldl
    (fun (m : StringMap Value) p => m.insert p (decided (s.pstate p).decision)) ∅
  .obj [("decisions", .obj each.toList), ("inconsistent", .bool (committed && aborted))]

def about [Host] (s : ThreePhase) (args : List String) (k : String → Handled ThreePhase) :
    Handled ThreePhase :=
  arg s (word args 0) fun p => if p ∈ s.participants then k p else some (s, notAParticipant p)

def step [Host] (s : ThreePhase) (command : String) (args : List String) : Handled ThreePhase :=
  match command with
  | "init" => arg s (wordList args 0) fun names =>
    some (init names, .obj [("state", .str (init names).state.text),
      ("participants", .arr (names.map .str))])
  | "vote" => about s args fun p => arg s (flag args 1 "yes" "no") fun yes => some (s.vote p yes)
  | "pre-commit" => some s.preCommit
  | "p-precommit" => about s args fun p => some (s.pPreCommit p)
  | "ack" => about s args fun p => some (s.ack p)
  | "commit" => some s.commit
  | "deliver" => about s args fun p => some (s.deliver p)
  | "p-state" => about s args fun p => some (s, s.pStateValue p)
  | "p-timeout" => about s args fun p => some (s.pTimeout p)
  | "crash" => arg s (word args 0) fun what =>
    if what ≠ "coordinator" then
      some (s, err ("only the coordinator can crash, not " ++ debugStr what))
    else
      some ({ s with coordinatorUp := false },
        .obj [("ok", .bool true), ("coordinator", .str "crashed")])
  | "partition" => arg s (wordList args 0) fun group => some (s.partition group)
  | "heal" => some s.heal
  | "decisions" => some (s, s.decisions)
  | other => some (s, err ("unknown command " ++ debugStr other))

end ThreePhase

end BuildYourOwn.Commit
