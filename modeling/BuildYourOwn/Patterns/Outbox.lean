import BuildYourOwn.Topic.Command
import BuildYourOwn.Topic.Map

/-!
# `outbox`: a row and its event committed together, and a relay that drains the table

Model of `Rec`, `LastWrite` and `Outbox` in `disttest/examples/alg/patterns.rs`. A write puts its row
into the store and a record of its event into the outbox; the relay publishes the records and drops one
when it is acknowledged. A crash forgets which records have been published and may rewind the most
recent write.

* `position` and `rposition` followed by `remove` take one element away, the first or the last.
-/

namespace BuildYourOwn.Patterns

open Topic

/-- `Rec`: an outbox record, and whether the relay has put it on the bus. -/
structure Rec where
  event : String
  published : Bool

/-- `LastWrite`: what the most recent write did. -/
inductive LastWrite
  | transactional (key : String) (prev : Option String)
  | naive (key : String) (prev : Option String) (event : String)

@[ext] structure Outbox where
  rows : StringMap String
  outbox : List Rec
  published : List String
  lost : List String
  down : Bool
  last : Option LastWrite

namespace Outbox

def new : Outbox where
  rows := ∅
  outbox := []
  published := []
  lost := []
  down := false
  last := none

def unacked (s : Outbox) : Nat := s.outbox.countP (·.published)

def restore (rows : StringMap String) (key : String) : Option String → StringMap String
  | some v => rows.insert key v
  | none => rows.erase key

/-- `unpublish`: drop the last occurrence of `event` from the bus. -/
def unpublish (published : List String) (event : String) : List String :=
  (published.reverse.erase event).reverse

/-- `write`: the row and the outbox record, as one transaction. -/
def write (s : Outbox) (key value event : String) : Outbox × Value :=
  let s' := { s with
    rows := s.rows.insert key value
    outbox := s.outbox ++ [⟨event, false⟩]
    last := some (.transactional key s.rows[key]?) }
  (s', .obj [("ok", .bool true), ("rows", .num s'.rows.size), ("outbox", .num s'.outbox.length)])

/-- `naive-write`: the row, and then the event straight on the bus. -/
def naiveWrite (s : Outbox) (key value event : String) : Outbox × Value :=
  let s' := { s with
    rows := s.rows.insert key value
    published := s.published ++ [event]
    last := some (.naive key s.rows[key]? event) }
  (s', .obj [("ok", .bool true), ("rows", .num s'.rows.size),
    ("published", .num s'.published.length)])

/-- A record that the relay no longer knows it has sent. -/
def forget (r : Rec) : Rec := { r with published := false }

/-- The answer to a crash. -/
def lostValue (what : String) : Value := .obj [("ok", .bool true), ("lost", .str what)]

def crash [Host] (s : Outbox) (point : String) : Outbox × Value :=
  let s' := { s with outbox := s.outbox.map forget, down := true, last := none }
  match point with
  | "now" => (s', lostValue "the relay's unacknowledged publishes")
  | "after-row" =>
    match s.last with
    | some (.naive _ _ event) =>
      ({ s' with published := unpublish s'.published event, lost := s'.lost ++ [event] },
        lostValue "the event, which was never in a transaction")
    | _ => (s', lostValue "nothing: the row and the record committed together")
  | "before-commit" =>
    match s.last with
    | some (.naive key prev event) =>
      ({ s' with rows := restore s'.rows key prev, published := unpublish s'.published event },
        lostValue "the whole transaction")
    | some (.transactional key prev) =>
      ({ s' with rows := restore s'.rows key prev, outbox := s'.outbox.dropLast },
        lostValue "the whole transaction")
    | none => (s', lostValue "nothing: no write was in flight")
  | other => (s', err ("unknown crash point " ++ debugStr other))

def recover (s : Outbox) : Outbox × Value :=
  let s' := { s with down := false }
  (s', .obj [("rows", .num s'.rows.size), ("outbox", .num s'.outbox.length),
    ("published", .num s'.published.length), ("lost", .num s'.lost.length)])

def words (l : List String) : Value := .arr (l.map .str)

/-- `publish`: every record not yet published goes on the bus. -/
def publish (s : Outbox) : Outbox × Value :=
  let sent := (s.outbox.filter fun r => !r.published).map (·.event)
  let s' := { s with
    outbox := s.outbox.map fun r => { r with published := true }
    published := s.published ++ sent }
  (s', .obj [("published", words sent), ("outbox", .num s'.outbox.length), ("unacked", .num s'.unacked)])

/-- `ack`: the first published record of an event leaves the outbox. -/
def ack (s : Outbox) (event : String) : Outbox × Value :=
  let s' := { s with outbox := s.outbox.eraseP fun r => r.published && r.event == event }
  (s', .obj [("outbox", .num s'.outbox.length), ("unacked", .num s'.unacked)])

def delivered (s : Outbox) (event : String) : Value :=
  let count := s.published.count event
  .obj [("count", .num count), ("distinct", .num (if 0 < count then 1 else 0))]

def state (s : Outbox) : Value :=
  .obj [("rows", .obj (s.rows.toList.map fun p => (p.1, .str p.2))),
    ("outbox", words (s.outbox.map (·.event))), ("published", words s.published),
    ("lost", words s.lost)]

def step [Host] (s : Outbox) (command : String) (args : List String) : Handled Outbox :=
  if s.down = true ∧ ¬ (command = "recover" ∨ command = "state" ∨ command = "delivered") then
    some (s, err "the process is down; recover first")
  else
    match command with
    | "init" => some (new, .obj [("rows", .num 0), ("outbox", .num 0), ("published", .num 0)])
    | "write" => arg s (word args 0) fun key => arg s (word args 1) fun value =>
      arg s (word args 2) fun event => some (s.write key value event)
    | "naive-write" => arg s (word args 0) fun key => arg s (word args 1) fun value =>
      arg s (word args 2) fun event => some (s.naiveWrite key value event)
    | "crash" => arg s (word args 0) fun point => some (s.crash point)
    | "recover" => some s.recover
    | "publish" => some s.publish
    | "ack" => arg s (word args 0) fun event => some (s.ack event)
    | "delivered" => arg s (word args 0) fun event => some (s, s.delivered event)
    | "state" => some (s, s.state)
    | other => some (s, err ("unknown command " ++ debugStr other))

end Outbox

end BuildYourOwn.Patterns
