import BuildYourOwn.Topic.Command
import BuildYourOwn.Topic.Map

/-!
# `commit-recovery`: one participant's write-ahead log across a crash

Model of `Recovery` in `disttest/examples/alg/commit.rs`. The log holds one text a record, a kind and a
transaction with a colon in between; what is durable is the log and what was applied, and a `recover` builds the
states of the transactions from these alone.
-/

namespace BuildYourOwn.Commit

open Topic

/-- `str::split_once(c)`: what stands before the first `c` and what stands after it. -/
def splitOnce (c : Char) (w : String) : Option (String × String) :=
  match w.toList.dropWhile (· ≠ c) with
  | [] => none
  | _ :: back => some (String.ofList (w.toList.takeWhile (· ≠ c)), String.ofList back)

/-- `Recovery`: the log and `applied` are durable, `states` is lost in a crash. -/
structure Recovery where
  participant : String
  log : List String
  applied : StringSet
  states : StringMap String
  crashed : Bool

namespace Recovery

/-- The text of a record. -/
def entry (kind tx : String) : String := kind ++ ":" ++ tx

def logged (s : Recovery) (kind tx : String) : Bool := s.log.contains (entry kind tx)

/-- One record of the loop of `transactions`. -/
def mention (out : List String) (record : String) : List String :=
  match splitOnce ':' record with
  | some (_, tx) => if out.contains tx then out else out ++ [tx]
  | none => out

/-- `transactions`: every transaction the log mentions, in the order it first appears. -/
def transactions (s : Recovery) : List String := s.log.foldl mention []

/-- `state_from_log`: what the log alone says about one transaction, and what recovery must do about it. -/
def stateFromLog (s : Recovery) (tx : String) : String × String :=
  if s.logged "commit" tx then
    if tx ∈ s.applied then ("committed", "none") else ("committed", "redo")
  else if s.logged "abort" tx then ("aborted", "none")
  else if s.logged "prepared" tx then ("prepared", "ask-coordinator")
  else ("aborted", "abort")

/-! ## The commands -/

/-- The state `init` leaves, and with an empty name the one a topic starts in. -/
def init (participant : String) : Recovery where
  participant := participant
  log := []
  applied := ∅
  states := ∅
  crashed := false

def force (s : Recovery) (kind tx state : String) : Recovery :=
  { s with log := s.log ++ [entry kind tx], states := s.states.insert tx state }

def begin (s : Recovery) (tx : String) : Recovery × Value :=
  (s.force "begin" tx "working", .obj [("state", .str "working")])

/-- `prepare`: the record is forced out before the vote is sent. -/
def prepare (s : Recovery) (tx : String) (yes : Bool) : Recovery × Value :=
  if yes then
    (s.force "prepared" tx "prepared",
      .obj [("vote", .str "yes"), ("logged", .str "prepared"), ("state", .str "prepared")])
  else
    (s.force "abort" tx "aborted", .obj [("vote", .str "no"), ("logged", .str "abort"), ("state", .str "aborted")])

/-- The record of a decision, and the state it leaves. -/
def decided (commit : Bool) : String × String :=
  if commit then ("commit", "committed") else ("abort", "aborted")

def decide (s : Recovery) (tx : String) (commit : Bool) : Recovery × Value :=
  (s.force (decided commit).1 tx (decided commit).2,
    .obj [("state", .str (decided commit).2), ("logged", .str (decided commit).1)])

/-- `apply`: applying an effect that is already there is free. -/
def apply (s : Recovery) (tx : String) : Recovery × Value :=
  ({ s with applied := s.applied.insert tx }, .obj [("applied", .bool true)])

def crash (s : Recovery) : Recovery × Value :=
  ({ s with states := ∅, crashed := true }, .obj [("ok", .bool true), ("lost", .str "volatile state")])

def recover (s : Recovery) : Recovery × Value :=
  let txs := s.transactions
  ({ s with
      crashed := false
      states := txs.foldl (fun m tx => m.insert tx (s.stateFromLog tx).1) ∅ },
    .obj [("pending", .arr ((txs.filter fun tx => (s.stateFromLog tx).1 == "prepared").map .str)),
      ("decided", .arr ((txs.filter fun tx => (s.stateFromLog tx).1 != "prepared").map .str)),
      ("actions", .obj (txs.map fun tx => (tx, .str (s.stateFromLog tx).2)))])

def outcome (s : Recovery) (tx : String) : Value :=
  let state := if s.crashed then "unknown" else s.states.getD tx "unknown"
  .obj [("state", .str state), ("applied", .bool (s.applied.contains tx))]

/-- `coordinator-says`: the decision as the coordinator has it, applied at once when it is to commit. -/
def coordinatorSays (s : Recovery) (tx : String) (commit : Bool) : Recovery × Value :=
  let s := s.force (decided commit).1 tx (decided commit).2
  let s := if commit then { s with applied := s.applied.insert tx } else s
  (s, .obj [("state", .str (decided commit).2), ("applied", .bool (s.applied.contains tx))])

def step [Host] (s : Recovery) (command : String) (args : List String) : Handled Recovery :=
  match command with
  | "init" => arg s (word args 0) fun name => some (init name, .obj [("ok", .bool true), ("log", .arr [])])
  | "begin" => arg s (word args 0) fun tx => some (s.begin tx)
  | "prepare" =>
    arg s (word args 0) fun tx =>
    arg s (flag args 1 "yes" "no") fun yes => some (s.prepare tx yes)
  | "vote-sent" => arg s (word args 0) fun _ => some (s, .obj [("ok", .bool true)])
  | "decide" =>
    arg s (word args 0) fun tx =>
    arg s (flag args 1 "commit" "abort") fun commit => some (s.decide tx commit)
  | "apply" => arg s (word args 0) fun tx => some (s.apply tx)
  | "crash" => some s.crash
  | "recover" => some s.recover
  | "outcome" => arg s (word args 0) fun tx => some (s, s.outcome tx)
  | "coordinator-says" =>
    arg s (word args 0) fun tx =>
    arg s (flag args 1 "commit" "abort") fun commit => some (s.coordinatorSays tx commit)
  | "log" => some (s, .obj [("records", .arr (s.log.map .str)), ("participant", .str s.participant)])
  | other => some (s, err ("unknown command " ++ debugStr other))

end Recovery

end BuildYourOwn.Commit
