import BuildYourOwn.Crdt.Exchange
import BuildYourOwn.Topic.Map
import Mathlib.Data.List.Sort
import Mathlib.Data.String.Basic

/-!
# `rga`: a replicated sequence

Model of `Elem` and `Rga` in `disttest/examples/prim/crdt.rs`: a tree of characters, each under the one
it was inserted after, read out depth first with the siblings by id, the largest first.

* `walk` recurses once for each level of the tree, so it is given a number of levels. A tree of `n`
  elements has at most `n`; a walk that goes deeper goes round a cycle and ends when the stack does, which
  is `none`, as any panic.
* No two ids are equal, so an insertion sort stands for `sort_unstable`.
* `serde_json` keeps an object in the order of its keys.
-/

namespace BuildYourOwn.Crdt

open Topic

/-- `Elem`: one element of the sequence. -/
structure Elem where
  ch : String
  after : String
  deleted : Bool
  deriving DecidableEq

/-- `Rga`: the elements by their ids. -/
abbrev Rga := StringMap Elem

namespace Rga

/-- The elements after `parent`, in the order of the walk. -/
def kids (s : Rga) (parent : String) : List String :=
  (((s.toList.filter fun e => e.2.after == parent).map Prod.fst).insertionSort (· ≤ ·)).reverse

/-- `walk`, with the levels that may come. -/
def walk (s : Rga) : Nat → String → String → Option String
  | 0, _, _ => none
  | levels + 1, parent, out =>
    (s.kids parent).foldlM (fun out id =>
      match s[id]? with
      | some e => walk s levels id (if e.deleted then out else out ++ e.ch)
      | none => some out) out

def text (s : Rga) : Option String := s.walk (s.size + 1) "root" ""

/-- An element in a state. -/
def elemJson (e : Elem) : Value := .obj [("a", .str e.after), ("c", .str e.ch), ("d", .bool e.deleted)]

def state (s : Rga) : Value := .obj [("e", .obj (s.toList.map fun e => (e.1, elemJson e.2)))]

/-- An element read out of a state. -/
def elemOf (e : Value) : Elem :=
  ⟨((e.get "c").bind Value.asStr).getD "", ((e.get "a").bind Value.asStr).getD "root",
    ((e.get "d").bind Value.asBool).getD false⟩

/-- One element of an incoming state. -/
def take (s : Rga) (id : String) (e : Elem) : Rga :=
  match s[id]? with
  | some existing => s.insert id { existing with deleted := existing.deleted || e.deleted }
  | none => s.insert id e

/-- The loop of `merge`. -/
def takeAll : List (String × Value) → Rga → Rga
  | [], s => s
  | (id, e) :: elems, s => takeAll elems (s.take id (elemOf e))

/-- `incoming.get("e").and_then(Value::as_object)`. -/
def elemsOf (incoming : Value) : Option (List (String × Value)) :=
  match incoming.get "e" with
  | some (.obj elems) => some elems
  | _ => none

/-- The answer of a command that leaves `s`. -/
def answer (s : Rga) : Handled Rga := s.text.map fun text => (s, .obj [("text", .str text)])

/-- `insert`. -/
def insertElem [Host] (s : Rga) (after id ch : String) : Handled Rga :=
  if id = "root" then some (s, err "'root' is the name of the start of the sequence")
  else if id ∈ s then some (s, err ("there is already an element " ++ debugStr id))
  else if after ≠ "root" ∧ after ∉ s then
    some (s, err ("there is no element " ++ debugStr after ++ " to insert after"))
  else answer (s.insert id ⟨ch, after, false⟩)

def delete [Host] (s : Rga) (id : String) : Handled Rga :=
  match s[id]? with
  | some e => answer (s.insert id { e with deleted := true })
  | none => some (s, err ("there is no element " ++ debugStr id))

def merge (s : Rga) (incoming : Value) : Handled Rga :=
  match elemsOf incoming with
  | some elems => answer (takeAll elems s)
  | none => some (s, err "an rga state must carry an object of elements")

/-- `Rga::run`. -/
def step [Host] (s : Rga) (command : String) (args : List String) : Handled Rga :=
  match command with
  | "insert" => arg s (word args 0) fun _ => arg s (word args 1) fun after => arg s (word args 2) fun id =>
    arg s (word args 3) fun ch => s.insertElem after id ch
  | "delete" => arg s (word args 0) fun _ => arg s (word args 1) fun id => s.delete id
  | "text" => arg s (word args 0) fun _ => answer s
  | "state" => shareState s state args
  | "merge" => arg s (word args 0) fun _ => arg s (jsonArg args 1) fun incoming => s.merge incoming
  | other => some (s, err ("unknown command " ++ debugStr other))

end Rga

end BuildYourOwn.Crdt
