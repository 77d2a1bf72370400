import BuildYourOwn.Topic.Command
import BuildYourOwn.Topic.Map

/-!
# `broadcast`: best-effort, reliable and uniform reliable broadcast

Model of `Mode`, `Msg` and `Broadcast` in `disttest/examples/alg/broadcast.rs`. A message is held for
the processes that have not delivered it yet; under the stronger modes a process that delivers it
relays it to the others. A crash takes with it what the crashed sender had not managed to send.

`broadcast` panics when the next id leaves `i64`. The loop of `settle` runs at most `4 * n + 1` rounds,
which `settleRounds` counts down.
-/

namespace BuildYourOwn.Group

open Topic

inductive Mode
  | bestEffort
  | reliable
  | uniform
  deriving DecidableEq

/-- `as_str`. -/
def Mode.text : Mode → String
  | bestEffort => "best-effort"
  | reliable => "reliable"
  | uniform => "uniform"

/-- `Msg`: who has a message in hand, and who has delivered it. -/
structure Msg where
  id : Int
  sender : Nat
  held : IndexSet
  delivered : IndexSet

structure Broadcast where
  n : Nat
  alive : List Bool
  mode : Mode
  msgs : List Msg
  nextId : Int

namespace Broadcast

/-- Is process `i` alive? -/
def isAlive (s : Broadcast) (i : Nat) : Bool := s.alive.getD i false

def live (s : Broadcast) : List Nat := (List.range s.n).filter fun i => s.isAlive i

def find (s : Broadcast) (id : Int) : Option Msg := s.msgs.find? fun m => m.id == id

def onMsg (id : Int) (f : Msg → Msg) : List Msg → List Msg
  | [] => []
  | m :: ms => if m.id = id then f m :: ms else m :: onMsg id f ms

def relayTo (m : Msg) (o : Nat) : Msg :=
  if o ∈ m.delivered then m else { m with held := m.held.insert o }

/-- One message delivered to `dest`, and relayed to the others under the stronger modes. -/
def deliverTo (mode : Mode) (n dest : Nat) (m : Msg) : Msg :=
  let m := { m with delivered := m.delivered.insert dest, held := m.held.erase dest }
  if mode = .bestEffort then m else ((List.range n).filter (· ≠ dest)).foldl relayTo m

/-- A message that reaches `dest`, which delivers it once and only when it is alive. -/
def deliverMsg (s : Broadcast) (dest : Nat) (m : Msg) : Msg :=
  if dest ∈ m.delivered ∨ s.isAlive dest = false then m else deliverTo s.mode s.n dest m

def deliver (s : Broadcast) (id : Int) (dest : Nat) : Broadcast :=
  { s with msgs := onMsg id (s.deliverMsg dest) s.msgs }

def state (s : Broadcast) : Value :=
  .obj [("ok", .bool true), ("mode", .str s.mode.text),
    ("alive", .arr (s.live.map fun i => .num i)),
    ("messages", .arr (s.msgs.map fun m => .obj [("id", .num m.id), ("from", .num m.sender),
      ("held_by", .arr (m.held.toList.map fun i => .num i)),
      ("delivered_to", .arr (m.delivered.toList.map fun i => .num i))]))]

/-- The state `init` leaves. -/
def init (n : Nat) : Broadcast := ⟨n, List.replicate n true, .bestEffort, [], 1⟩

def noProcess (i : Nat) : Value := err ("no process " ++ toString i)

/-- The message that a process sends: the others have it in hand. -/
def newMsg (n : Nat) (id : Int) (sender : Nat) : Msg :=
  ⟨id, sender, .ofList ((List.range n).filter (· ≠ sender)), ∅⟩

/-- `broadcast`: the sender delivers to itself and hands the rest out. -/
def broadcast (s : Broadcast) (sender : Nat) : Handled Broadcast :=
  if s.n ≤ sender then some (s, noProcess sender)
  else if s.isAlive sender = false then
    some (s, .obj [("ok", .bool true), ("sent", .bool false), ("reason", .str "sender is down")])
  else
    (addI64 s.nextId 1).map fun next =>
      (deliver { s with nextId := next, msgs := s.msgs ++ [newMsg s.n s.nextId sender] } s.nextId
          sender,
        .obj [("ok", .bool true), ("sent", .bool true), ("id", .num s.nextId)])

/-- `hand`: the network delivers one held message to one process. -/
def hand (s : Broadcast) (id : Int) (dest : Nat) : Broadcast × Value :=
  if s.n ≤ dest then (s, noProcess dest)
  else if (s.find id).any (fun m => decide (dest ∈ m.held)) then
    (s.deliver id dest,
      .obj [("ok", .bool true), ("handed", .bool true), ("id", .num id), ("to", .num dest)])
  else
    (s, .obj [("ok", .bool true), ("handed", .bool false), ("reason", .str "nothing held for it")])

/-- `drop`: the network loses one message. -/
def drop (s : Broadcast) (id : Int) (dest : Nat) : Broadcast × Value :=
  ({ s with msgs := onMsg id (fun m => { m with held := m.held.erase dest }) s.msgs },
    .obj [("ok", .bool true), ("dropped", .num id), ("to", .num dest)])

/-- Does a message of the process that has just crashed outlive it? -/
def survives (s : Broadcast) (i : Nat) (m : Msg) : Bool :=
  match s.mode with
  | .bestEffort => false
  | .reliable => m.delivered.toList.any fun d => d != i && s.isAlive d
  | .uniform => !m.delivered.isEmpty

def crash (s : Broadcast) (i : Nat) : Broadcast × Value :=
  if s.n ≤ i then (s, noProcess i)
  else
    let s := { s with alive := s.alive.set i false }
    ({ s with msgs := s.msgs.map fun m =>
        if m.sender = i ∧ s.survives i m = false then { m with held := ∅ } else m },
      .obj [("ok", .bool true), ("crashed", .num i)])

/-- Everything held for a live process. -/
def pending (s : Broadcast) : List (Int × Nat) :=
  s.msgs.flatMap fun m => (m.held.toList.filter fun dest => s.isAlive dest).map fun dest => (m.id, dest)

/-- One round of `settle`. -/
def deliverAll (s : Broadcast) (pending : List (Int × Nat)) : Broadcast :=
  pending.foldl (fun s p => s.deliver p.1 p.2) s

/-- The loop of `settle`, with at most `left` rounds to come, and the rounds it took. -/
def settleRounds : Nat → Broadcast → Broadcast × Nat
  | 0, s => (s, 0)
  | left + 1, s =>
    if s.pending.isEmpty then (s, 0)
    else
      let r := settleRounds left (s.deliverAll s.pending)
      (r.1, r.2 + 1)

def settle (s : Broadcast) : Broadcast × Value :=
  let r := settleRounds (s.n * 4 + 1) s
  (r.1, .obj [("ok", .bool true), ("rounds", .num r.2)])

/-- `delivered`: who has it. -/
def deliveredTo (s : Broadcast) (id : Int) : Value :=
  match s.find id with
  | none => err ("no message " ++ toString id)
  | some m =>
    .obj [("ok", .bool true), ("id", .num id),
      ("delivered_to", .arr (m.delivered.toList.map fun i => .num i)),
      ("correct_processes", .arr ((m.delivered.toList.filter fun i => s.isAlive i).map fun i => .num i)),
      ("all_correct", .bool (s.live.all fun i => decide (i ∈ m.delivered)))]

/-- `mode`. -/
def setMode [Host] (s : Broadcast) (w : String) : Broadcast × Value :=
  let set (mode : Mode) : Broadcast × Value :=
    ({ s with mode := mode }, .obj [("ok", .bool true), ("mode", .str mode.text)])
  match w with
  | "best-effort" => set .bestEffort
  | "reliable" => set .reliable
  | "uniform" => set .uniform
  | other => (s, err ("unknown mode " ++ debugStr other))

def step [Host] (s : Broadcast) (command : String) (args : List String) : Handled Broadcast :=
  match command with
  | "init" => arg s (uint args 0) fun n =>
    if n = 0 then some (s, err "a group needs at least one process")
    else some (init n, .obj [("ok", .bool true), ("processes", .num n),
      ("mode", .str Mode.bestEffort.text)])
  | "mode" => arg s (word args 0) fun w => some (s.setMode w)
  | "broadcast" => arg s (uint args 0) fun sender => s.broadcast sender
  | "hand" => arg s (int args 0) fun id => arg s (uint args 1) fun dest => some (s.hand id dest)
  | "drop" => arg s (int args 0) fun id => arg s (uint args 1) fun dest => some (s.drop id dest)
  | "crash" => arg s (uint args 0) fun i => some (s.crash i)
  | "settle" => some s.settle
  | "delivered" => arg s (int args 0) fun id => some (s, s.deliveredTo id)
  | "state" => some (s, s.state)
  | other => some (s, err ("unknown command " ++ debugStr other))

end Broadcast

end BuildYourOwn.Group
