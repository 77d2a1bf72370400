import BuildYourOwn.Topic.Command
import BuildYourOwn.Topic.Map

/-!
# `two-phase-commit`: the coordinator and every participant in one process

Model of `TwoPhase` in `disttest/examples/alg/commit.rs`. The coordinator collects votes and decides
(`reconsider`); a participant settles by its own no vote, by the decision it is delivered, by its
timeout, or by asking its peers (`pConsult`).
-/

namespace BuildYourOwn.Commit

open Topic

inductive Decision
  | commit
  | abort
  deriving DecidableEq

def Decision.text : Decision → String
  | commit => "commit"
  | abort => "abort"

/-- `PState`: what one participant is doing. -/
inductive PState
  | working
  | prepared
  | preCommitted
  | committed
  | aborted
  deriving DecidableEq

namespace PState

/-- `as_str`. -/
def text : PState → String
  | working => "working"
  | prepared => "prepared"
  | preCommitted => "pre-committed"
  | committed => "committed"
  | aborted => "aborted"

/-- `decision`: what the participant has settled on, if it has. -/
def decision : PState → Option Decision
  | committed => some .commit
  | aborted => some .abort
  | _ => none

end PState

inductive Vote
  | yes
  | no
  deriving DecidableEq

def Vote.text : Vote → String
  | yes => "yes"
  | no => "no"

/-- `state`: where the coordinator is. -/
inductive CState
  | init
  | preparing
  | committed
  | aborted
  deriving DecidableEq

def CState.text : CState → String
  | init => "init"
  | preparing => "preparing"
  | committed => "committed"
  | aborted => "aborted"

/-- `TwoPhase`: one transaction. `broadcast` is whether the decision has been put on the wire. -/
structure TwoPhase where
  participants : List String
  state : CState
  decision : Option Decision
  votes : StringMap Vote
  pState : StringMap PState
  coordinatorUp : Bool
  broadcast : Bool

namespace TwoPhase

def pstate (s : TwoPhase) (p : String) : PState := s.pState.getD p .working

/-- `reconsider`: one no is enough to abort, commit needs every vote. -/
def reconsider (s : TwoPhase) : TwoPhase :=
  if s.decision.isSome then s
  else if (StringMap.vals s.votes).any (· == .no) then
    { s with decision := some .abort, state := .aborted }
  else if s.participants ≠ [] ∧ s.votes.size = s.participants.length then
    { s with decision := some .commit, state := .committed }
  else s

/-- `settle`: a participant settles once. -/
def settle (s : TwoPhase) (p : String) (d : Decision) : TwoPhase :=
  if (s.pstate p).decision.isSome then s
  else
    let target : PState := match d with
      | .commit => .committed
      | .abort => .aborted
    { s with pState := s.pState.insert p target }

def decided (d : Option Decision) : Value := Value.ofOption (fun d => .str d.text) d

def stateValue (s : TwoPhase) : Value :=
  .obj [("state", .str s.state.text), ("decision", decided s.decision),
    ("votes", .obj (s.votes.toList.map fun v => (v.1, .str v.2.text))),
    ("coordinator", .str (if s.coordinatorUp then "up" else "crashed"))]

/-- The error of a participant that `init` did not name. -/
def notAParticipant [Host] (p : String) : Value := err (debugStr p ++ " is not a participant")

/-! ## The commands -/

/-- The state `init` leaves: every participant works. -/
def init (names : List String) : TwoPhase where
  participants := names
  state := .init
  decision := none
  votes := ∅
  pState := names.foldl (fun m p => m.insert p .working) ∅
  coordinatorUp := true
  broadcast := false

def prepare (s : TwoPhase) : TwoPhase × Value :=
  if s.coordinatorUp = false then (s, .obj [("state", .str s.state.text), ("sent", .num 0)])
  else
    let s := if s.state = .init then { s with state := .preparing } else s
    (s, .obj [("state", .str s.state.text), ("sent", .num s.participants.length)])

def cast (s : TwoPhase) (p : String) (v : Vote) : TwoPhase :=
  reconsider { s with
    votes := s.votes.insert p v
    pState := s.pState.insert p (match v with
      | .yes => .prepared
      | .no => .aborted) }

/-- `vote`: the first vote a participant casts is the one that stands. -/
def vote (s : TwoPhase) (p : String) (yes : Bool) : TwoPhase × Value :=
  let s := if s.votes.contains p then s else s.cast p (if yes then .yes else .no)
  (s, .obj [("state", .str s.state.text), ("votes", .num s.votes.size),
    ("decision", decided s.decision)])

def decide (s : TwoPhase) : TwoPhase × Value :=
  if s.coordinatorUp = false ∨ s.decision.isNone then
    (s, .obj [("decision", .null), ("sent", .num 0)])
  else
    ({ s with broadcast := true },
      .obj [("decision", decided s.decision), ("sent", .num s.participants.length)])

/-- `deliver`: the decision reaches a participant, once it is on the wire. -/
def deliver (s : TwoPhase) (p : String) : TwoPhase × Value :=
  let s := match s.broadcast, s.decision with
    | true, some d => s.settle p d
    | _, _ => s
  (s, .obj [("state", .str (s.pstate p).text)])

/-- The answer of `p-timeout` and `p-consult`. -/
def answer (d : Option Decision) (blocked : Bool) (reason : String) : Value :=
  .obj [("decision", decided d), ("blocked", .bool blocked), ("reason", .str reason)]

/-- A participant that has promised nothing aborts, and its vote is recorded as no. -/
def giveUp (s : TwoPhase) (p : String) : TwoPhase :=
  reconsider { s with
    pState := s.pState.insert p .aborted
    votes := if s.votes.contains p then s.votes else s.votes.insert p .no }

/-- `p-timeout`. -/
def pTimeout (s : TwoPhase) (p : String) : TwoPhase × Value :=
  match (s.pstate p).decision with
  | some d => (s, answer (some d) false "already decided")
  | none =>
    if s.pstate p = .prepared then (s, answer none true "prepared, waiting for the coordinator")
    else (s.giveUp p, answer (some .abort) false "has not voted")

/-- The peers of `p`. -/
def peers (s : TwoPhase) (p : String) : List String := s.participants.filter (· ≠ p)

/-- `p-consult`: what a peer has decided, or an abort when a peer has not voted. -/
def pConsult (s : TwoPhase) (p : String) : TwoPhase × Value :=
  match (s.pstate p).decision with
  | some d => (s, answer (some d) false "already decided")
  | none =>
    if s.pstate p = .working then (s.giveUp p, answer (some .abort) false "has not voted")
    else
      match (s.peers p).findSome? fun peer => (s.pstate peer).decision with
      | some d => (s.settle p d, answer (some d) false "a peer already decided")
      | none =>
        if (s.peers p).any fun peer => s.pstate peer == .working then
          ({ s with pState := s.pState.insert p .aborted },
            answer (some .abort) false "a peer never voted")
        else (s, answer none true "every peer is prepared")

def about [Host] (s : TwoPhase) (args : List String) (k : String → Handled TwoPhase) :
    Handled TwoPhase :=
  arg s (word args 0) fun p => if p ∈ s.participants then k p else some (s, notAParticipant p)

def step [Host] (s : TwoPhase) (command : String) (args : List String) : Handled TwoPhase :=
  match command with
  | "init" => arg s (wordList args 0) fun names =>
    some (init names, .obj [("state", .str (init names).state.text),
      ("participants", .arr (names.map .str))])
  | "prepare" => some s.prepare
  | "vote" => about s args fun p => arg s (flag args 1 "yes" "no") fun yes => some (s.vote p yes)
  | "decide" => some s.decide
  | "deliver" => about s args fun p => some (s.deliver p)
  | "p-state" => about s args fun p => some (s, .obj [("state", .str (s.pstate p).text)])
  | "p-timeout" => about s args fun p => some (s.pTimeout p)
  | "p-consult" => about s args fun p => some (s.pConsult p)
  | "crash" => arg s (word args 0) fun what =>
    if what ≠ "coordinator" then
      some (s, err ("only the coordinator can crash, not " ++ debugStr what))
    else
      some ({ s with coordinatorUp := false },
        .obj [("ok", .bool true), ("coordinator", .str "crashed")])
  | "state" => some (s, s.stateValue)
  | other => some (s, err ("unknown command " ++ debugStr other))

end TwoPhase

end BuildYourOwn.Commit
