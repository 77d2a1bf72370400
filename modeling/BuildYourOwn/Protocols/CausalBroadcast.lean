import BuildYourOwn.Clocks.Clock

/-!
# `causal-broadcast`: causal delivery

Model of `View` and `CausalBroadcast` in `disttest/examples/prim/protocols.rs`: a process delivers its own
broadcasts at once, and a received message when it is the sender's next and nothing that its clock
counts is missing. Until then the message waits in a buffer that is scanned again after each delivery.

* The clock of this file is that of `clocks.rs`, and `*slot = (*slot).max(*count)` its `merge_into`.
* A duplicate is told by its sender and its text.
* An increment, or the comparison with the next count, panics when it leaves `i64`.
* `drain` takes one message out of the buffer a round, so it has at most as many rounds as the
  buffer has messages.
-/

namespace BuildYourOwn.Protocols

open Clocks Topic

structure Message where
  sender : String
  text : String
  vc : Clock
  deriving DecidableEq

/-- `View`: what a process has delivered, and what is waiting. -/
structure View where
  seen : Clock
  log : List String
  buffer : List Message

/-- `CausalBroadcast`: every process's view. -/
abbrev CausalBroadcast := StringMap View

def deliverable (seen : Clock) (m : Message) : Option Bool :=
  (addI64 (seen.count m.sender) 1).map fun next =>
    m.vc.count m.sender == next &&
      (m.vc.toList.filter fun e => e.1 != m.sender).all fun e => decide (e.2 ≤ seen.count e.1)

namespace View

/-- `View::default()`. -/
def default : View := ⟨∅, [], []⟩

def nextIn (seen : Clock) : List Message → Option (Option Nat)
  | [] => some none
  | m :: buffer =>
    (deliverable seen m).bind fun ready =>
      if ready then some (some 0) else (nextIn seen buffer).map fun i => i.map (· + 1)

def release (v : View) (index : Nat) (m : Message) : Option View :=
  (v.seen.bump m.sender).map fun seen =>
    ⟨Clock.mergeInto seen m.vc, v.log ++ [m.text], v.buffer.eraseIdx index⟩

/-- The loop of `drain`, with at most `left` rounds to come, and what it released. -/
def drainLoop : Nat → View → Option (View × List Message)
  | 0, v => some (v, [])
  | left + 1, v =>
    (nextIn v.seen v.buffer).bind fun next =>
      match next.bind fun index => (v.buffer[index]?).map fun m => (index, m) with
      | none => some (v, [])
      | some (index, m) =>
        (v.release index m).bind fun v =>
          (drainLoop left v).map fun r => (r.1, m :: r.2)

def drain (v : View) : Option (View × List Message) := drainLoop v.buffer.length v

def accept (v : View) (m : Message) : View :=
  let alreadyBuffered := v.buffer.any fun b => b.sender == m.sender && b.text == m.text
  if v.seen.count m.sender < m.vc.count m.sender ∧ alreadyBuffered = false then
    { v with buffer := v.buffer ++ [m] }
  else v

end View

namespace CausalBroadcast

def view (s : CausalBroadcast) (p : String) : View := s.getD p View.default

/-- `clock_json`, without the zero entries. -/
def clockJson (c : Clock) : Value :=
  .obj ((c.toList.filter fun e => e.2 != 0).map fun e => (e.1, .num e.2))

def readCount : Value → Option Int
  | .str s => parseI64 s
  | v => v.asI64

/-- The loop of `clock_from` over the fields of an object. -/
def readFields : List (String × Value) → Clock → Except Value Clock
  | [], out => .ok out
  | (name, v) :: fields, out =>
    match readCount v with
    | some n => readFields fields (if n = 0 then out else out.insert name n)
    | none => .error (err (name ++ " is not a whole number"))

/-- `clock_from(&json_arg(args, i)?)`. -/
def clockFrom [Host] (args : List String) (i : Nat) : Except Value Clock :=
  match jsonArg args i with
  | .error e => .error e
  | .ok (.obj fields) => readFields fields ∅
  | .ok _ => .error (err "a vector clock must be a JSON object")

/-- `names.split(',')` without the empty ones. -/
def names (s : String) : List String := (s.splitOn ",").filter fun n => n != ""

/-- `entry(p).or_default()`. -/
def addView (s : CausalBroadcast) (p : String) : CausalBroadcast := s.insert p (s.view p)

def bcast (s : CausalBroadcast) (p text : String) : Handled CausalBroadcast :=
  let v := s.view p
  (v.seen.bump p).map fun seen =>
    (s.insert p { v with seen := seen, log := v.log ++ [text] }, .obj [("vc", clockJson seen)])

def recv (s : CausalBroadcast) (p : String) (m : Message) : Handled CausalBroadcast :=
  ((s.view p).accept m).drain.map fun r =>
    (s.insert p r.1, .obj [("delivered", .arr (r.2.map fun m => .str m.text)),
      ("buffered", .num r.1.buffer.length)])

/-- `CausalBroadcast::run`. -/
def step [Host] (s : CausalBroadcast) (command : String) (args : List String) :
    Handled CausalBroadcast :=
  match command with
  | "init" => arg s (word args 0) fun w =>
    let s := (names w).foldl addView s
    some (s, .obj [("processes", .num s.size)])
  | "bcast" => arg s (word args 0) fun p => arg s (word args 1) fun text => s.bcast p text
  | "recv" => arg s (word args 0) fun p => arg s (word args 1) fun sender =>
    arg s (word args 2) fun text => arg s (clockFrom args 3) fun vc => s.recv p ⟨sender, text, vc⟩
  | "delivered" => arg s (word args 0) fun p =>
    some (s.addView p, .obj [("messages", .arr ((s.view p).log.map .str))])
  | other => some (s, err ("unknown command " ++ debugStr other))

end CausalBroadcast

end BuildYourOwn.Protocols
