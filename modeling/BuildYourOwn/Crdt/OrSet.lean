import BuildYourOwn.Crdt.Exchange
import BuildYourOwn.Topic.Map

/-!
# `or-set`: an observed-remove set

Model of `string_list` and `OrSet` in `disttest/examples/prim/crdt.rs`: an add mints a tag from the name of the
replica and a count that the process keeps, and a remove names the tags that it sees.

* The count is a `u64`; past its end the process panics.
* As in the other merges, what was read before an error stays.
-/

namespace BuildYourOwn.Crdt

open Lib Topic

def stringList : Option Value → Except Value (List String)
  | none => .ok []
  | some (.arr items) => items.mapM fun x =>
    match x.asStr with
    | some s => .ok s
    | none => .error (err "expected an array of strings in the state")
  | some _ => .error (err "expected an array of strings in the state")

structure OrSet where
  seq : Nat
  adds : StringMap StringSet
  removed : StringSet

namespace OrSet

/-- `OrSet::default()`. -/
def default : OrSet := ⟨0, ∅, ∅⟩

def elements (s : OrSet) : List String :=
  (s.adds.toList.filter fun e => e.2.toList.any fun t => !decide (t ∈ s.removed)).map Prod.fst

def state (s : OrSet) : Value :=
  .obj [("a", .obj (s.adds.toList.map fun e => (e.1, .arr (e.2.toList.map .str)))),
    ("r", .arr (s.removed.toList.map .str))]

/-- The answer of a command that leaves `s`. -/
def answer (s : OrSet) : Handled OrSet := some (s, .obj [("elements", .arr (s.elements.map .str))])

/-- `format!("{replica}.{}", self.seq)`. -/
def tag (replica : String) (seq : Nat) : String := replica ++ "." ++ toString seq

def add (s : OrSet) (replica element : String) : Handled OrSet :=
  if s.seq + 1 < UInt64.size then
    answer { s with
      seq := s.seq + 1
      adds := s.adds.insert element ((s.adds.getD element ∅).insert (tag replica (s.seq + 1))) }
  else none

def remove (s : OrSet) (element : String) : Handled OrSet :=
  match s.adds[element]? with
  | some tags => answer { s with removed := s.removed.extend tags.toList }
  | none => answer s

/-- The loop of `merge` over the adds: the map after it, and the error it stopped at. -/
def addAll : List (String × Value) → StringMap StringSet → StringMap StringSet × Option Value
  | [], adds => (adds, none)
  | (element, tags) :: incoming, adds =>
    match stringList (some tags) with
    | .ok tags => addAll incoming (adds.insert element ((adds.getD element ∅).extend tags))
    | .error e => (adds, some e)

/-- The second half of `merge`. -/
def absorbRemoved (s : OrSet) (removed : Option Value) : OrSet × Option Value :=
  match stringList removed with
  | .ok tags => ({ s with removed := s.removed.extend tags }, none)
  | .error e => (s, some e)

/-- What `merge` makes of both halves, and the error it stopped at. -/
def absorb (s : OrSet) (incoming : Value) : OrSet × Option Value :=
  match incoming.get "a" with
  | none => s.absorbRemoved (incoming.get "r")
  | some (.obj adds) =>
    match addAll adds s.adds with
    | (adds, some e) => ({ s with adds := adds }, some e)
    | (adds, none) => absorbRemoved { s with adds := adds } (incoming.get "r")
  | some _ => (s, some (err "the add half of an or-set state must be an object"))

def merge (s : OrSet) (incoming : Value) : Handled OrSet :=
  match s.absorb incoming with
  | (s, some e) => some (s, e)
  | (s, none) => answer s

/-- `OrSet::run`. -/
def step [Host] (s : OrSet) (command : String) (args : List String) : Handled OrSet :=
  match command with
  | "add" => arg s (word args 0) fun replica => arg s (word args 1) fun element => s.add replica element
  | "remove" => arg s (word args 0) fun _ => arg s (word args 1) fun element => s.remove element
  | "elements" => arg s (word args 0) fun _ => answer s
  | "state" => shareState s state args
  | "merge" => arg s (word args 0) fun _ => arg s (jsonArg args 1) fun incoming => s.merge incoming
  | other => some (s, err ("unknown command " ++ debugStr other))

end OrSet

end BuildYourOwn.Crdt
