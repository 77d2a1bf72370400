import BuildYourOwn.Topic.Command
import BuildYourOwn.Topic.Map

/-!
# `chain`: writes at the head, reads at the tail

Model of `Link` and `Chain` in `disttest/examples/alg/replication.rs`. A node applies an update and
keeps it pending until `propagate` hands it one hop down the chain of live nodes; `fail` closes the
chain up around a node and gives what it had pending back to the node before it.

* The code never looks into an update, so a node is generic in what it holds (`σ`), in what is handed
  on (`υ`) and in how an update is applied (`put`). `Chain` is the machine of the source, where a node
  holds a map and an update is a key with its value.
* `moved` is counted without a bound.
-/

namespace BuildYourOwn.Replication

open Topic

/-- `Link`: what a node has applied, and what it has not yet passed on, oldest first. -/
structure Link (σ υ : Type) where
  applied : σ
  pending : List υ
  alive : Bool

namespace Link

variable {σ υ : Type} (put : σ → υ → σ)

/-- One update reaches a node: it is applied and waits to be passed on. -/
def take (n : Link σ υ) (u : υ) : Link σ υ :=
  { n with applied := put n.applied u, pending := n.pending ++ [u] }

/-- A node with nothing pending. -/
def emptied (n : Link σ υ) : Link σ υ := { n with pending := [] }

/-- A node that goes down: its pending updates are taken from it. -/
def down (n : Link σ υ) : Link σ υ := { n with pending := [], alive := false }

/-- A node that takes back what the node behind it had not passed on. -/
def takeBack (us : List υ) (n : Link σ υ) : Link σ υ := { n with pending := n.pending ++ us }

end Link

/-- `nodes`, by position. -/
abbrev Links (σ υ : Type) := List (Link σ υ)

namespace Links

variable {σ υ : Type} (put : σ → υ → σ) (nodes : Links σ υ)

def live : List Nat := (List.range nodes.length).filter fun i => nodes[i]?.any (·.alive)

def head : Option Nat := (live nodes).head?

def tail : Option Nat := (live nodes).getLast?

/-- What node `i` has pending. -/
def pendingAt (i : Nat) : List υ := (nodes[i]?.map (·.pending)).getD []

/-- The nodes `init` makes. -/
def fresh (empty : σ) (n : Nat) : Links σ υ := List.replicate n ⟨empty, [], true⟩

/-- A write at the head, when there is a live node. -/
def accept (u : υ) : Links σ υ :=
  match head nodes with
  | some h => nodes.modify h (·.take put u)
  | none => nodes

/-- One pair of neighbours of `propagate`: `a` hands what it has pending to `b`. -/
def handOn (a b : Nat) : Links σ υ × Nat :=
  let pending := pendingAt nodes a
  ((nodes.modify a (·.emptied)).modify b fun n => pending.foldl (·.take put) n, pending.length)

/-- The loop of `propagate` over the pairs of neighbours, back to front, with the updates moved. -/
def sweep : List Nat → Links σ υ → Links σ υ × Nat
  | a :: b :: rest, nodes =>
    let after := sweep (b :: rest) nodes
    let pair := handOn put after.1 a b
    (pair.1, after.2 + pair.2)
  | _, nodes => (nodes, 0)

def clearTail : Links σ υ :=
  match tail nodes with
  | some t => nodes.modify t (·.emptied)
  | none => nodes

def propagate : Links σ υ × Nat :=
  let swept := sweep put (live nodes) nodes
  (clearTail swept.1, swept.2)

/-- The live node before `i`. -/
def predecessor (i : Nat) : Option Nat := (live nodes).reverse.find? (· < i)

/-- `fail`: the node before it re-sends what `i` had taken and not forwarded. -/
def fail (i : Nat) : Links σ υ :=
  let orphaned := pendingAt nodes i
  match predecessor nodes i with
  | some prev => (nodes.modify i (·.down)).modify prev (·.takeBack orphaned)
  | none => nodes.modify i (·.down)

end Links

abbrev Update := String × Int

/-- `applied.insert(key, value)`. -/
def putUpdate (applied : StringMap Int) (u : Update) : StringMap Int := applied.insert u.1 u.2

@[ext] structure Chain where
  nodes : Links (StringMap Int) Update

namespace Chain

/-- `Chain::default()`. -/
def empty : Chain := ⟨[]⟩

/-- A position as JSON. -/
def at? (i : Option Nat) : Value := Value.ofOption (fun i => .num i) i

def state (s : Chain) : Value :=
  .obj [("ok", .bool true), ("head", at? (Links.head s.nodes)), ("tail", at? (Links.tail s.nodes)),
    ("nodes", .arr (s.nodes.map fun n => .obj [("alive", .bool n.alive),
      ("pending", .num n.pending.length), ("applied", .num n.applied.size)]))]

def init (n : Nat) : Chain := ⟨Links.fresh ∅ n⟩

/-- `write`: accepted at the head only. -/
def write (s : Chain) (key : String) (value : Int) : Chain × Value :=
  (⟨Links.accept putUpdate s.nodes (key, value)⟩,
    match Links.head s.nodes with
    | some h => .obj [("ok", .bool true), ("accepted", .bool true), ("at", .num h)]
    | none => .obj [("ok", .bool true), ("accepted", .bool false), ("reason", .str "no live node")])

/-- `propagate`: every live node hands its pending updates one hop down the chain. -/
def propagate (s : Chain) : Chain × Value :=
  (⟨(Links.propagate putUpdate s.nodes).1⟩,
    .obj [("ok", .bool true), ("moved", .num (Links.propagate putUpdate s.nodes).2)])

/-- What node `n` holds for a key. -/
def valueOf (n : Link (StringMap Int) Update) (key : String) : Int := n.applied.getD key 0

/-- `read`: the tail answers, and only the tail. -/
def read (s : Chain) (key : String) : Value :=
  match Links.tail s.nodes with
  | none => .obj [("ok", .bool true), ("served", .bool false), ("reason", .str "no live node")]
  | some t => .obj [("ok", .bool true), ("served", .bool true),
      ("value", .num ((s.nodes[t]?.map fun n => valueOf n key).getD 0)), ("from", .num t)]

/-- `read-at`: reading any node, which may be ahead of the tail. -/
def readAt (s : Chain) (i : Nat) (key : String) : Value :=
  match s.nodes[i]? with
  | none => err ("no node " ++ toString i)
  | some n =>
    if n.alive = false then
      .obj [("ok", .bool true), ("served", .bool false), ("reason", .str "node is down")]
    else
      .obj [("ok", .bool true), ("served", .bool true), ("value", .num (valueOf n key)),
        ("from", .num i), ("committed", .bool (Links.tail s.nodes == some i))]

def fail (s : Chain) (i : Nat) : Chain × Value :=
  if s.nodes.length ≤ i then (s, err ("no node " ++ toString i))
  else
    let nodes := Links.fail s.nodes i
    (⟨nodes⟩, .obj [("ok", .bool true), ("failed", .num i),
      ("was_head", .bool (Links.head s.nodes == some i)),
      ("was_tail", .bool (Links.tail s.nodes == some i)),
      ("head", at? (Links.head nodes)), ("tail", at? (Links.tail nodes))])

def step [Host] (s : Chain) (command : String) (args : List String) : Handled Chain :=
  match command with
  | "init" => arg s (uint args 0) fun n =>
    if n = 0 then some (s, err "a chain needs at least one node")
    else some (init n, .obj [("ok", .bool true), ("nodes", .num n), ("head", .num 0),
      ("tail", .num (n - 1 : Nat))])
  | "write" => arg s (word args 0) fun key => arg s (int args 1) fun value => some (s.write key value)
  | "propagate" => some s.propagate
  | "read" => arg s (word args 0) fun key => some (s, s.read key)
  | "read-at" => arg s (uint args 0) fun i => arg s (word args 1) fun key => some (s, s.readAt i key)
  | "fail" => arg s (uint args 0) fun i => some (s.fail i)
  | "state" => some (s, s.state)
  | other => some (s, err ("unknown command " ++ debugStr other))

end Chain

end BuildYourOwn.Replication
