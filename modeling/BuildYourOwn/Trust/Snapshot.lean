import BuildYourOwn.Topic.Command
import BuildYourOwn.Topic.Map

/-!
# `snapshot`: Percolator-style snapshot isolation

Model of `Snapshot` in `disttest/examples/alg/trust.rs`. A transaction reads the versions committed
by its start timestamp, buffers its writes, takes a lock on every key it has written at `prewrite`
and installs them all at one commit timestamp. `none` is the clock running out of `i64`.
-/

namespace BuildYourOwn.Trust

open Topic

/-- `Version`: a committed value. -/
structure Version where
  commitTs : Int
  value : Int

structure Txn where
  startTs : Int
  writes : StringMap Int
  prewritten : Bool
  committed : Option Int
  aborted : Bool

/-- `Snapshot`: the committed versions of each key, oldest first, and the lock on it with the owner's
start timestamp. -/
structure Snapshot where
  clock : Int
  data : StringMap (List Version)
  locks : StringMap (String × Int)
  txns : StringMap Txn

namespace Snapshot

/-- The state `init` leaves, and the one a topic starts in. -/
def fresh : Snapshot where
  clock := 0
  data := ∅
  locks := ∅
  txns := ∅

/-- `tick`: the next timestamp and the clock at it. -/
def tick (s : Snapshot) : Option (Int × Snapshot) :=
  (addI64 s.clock 1).map fun clock => (clock, { s with clock := clock })

def versions (s : Snapshot) (key : String) : List Version := s.data.getD key []

/-- `read_at`: the value as of `ts`, ignoring anything committed later. -/
def readAt (s : Snapshot) (key : String) (ts : Int) : Int :=
  (((s.versions key).reverse.find? fun v => v.commitTs ≤ ts).map Version.value).getD 0

/-- The transaction `name` is now `t`. -/
def setTxn (s : Snapshot) (name : String) (t : Txn) : Snapshot :=
  { s with txns := s.txns.insert name t }

/-! ## The commands -/

def begin [Host] (s : Snapshot) (name : String) : Handled Snapshot :=
  if s.txns.contains name then
    some (s, err ("transaction " ++ debugStr name ++ " already exists"))
  else
    match s.tick with
    | none => none
    | some (startTs, s) =>
      let t : Txn :=
        { startTs := startTs, writes := ∅, prewritten := false, committed := none, aborted := false }
      some (s.setTxn name t, .obj [("ok", .bool true), ("transaction", .str name),
        ("start_ts", .num startTs)])

/-- `read`: its own writes first, then the snapshot. -/
def read (s : Snapshot) (t : Txn) (key : String) : Value :=
  match t.writes[key]? with
  | some v => .obj [("ok", .bool true), ("value", .num v), ("from", .str "own writes"),
      ("start_ts", .num t.startTs)]
  | none => .obj [("ok", .bool true), ("value", .num (s.readAt key t.startTs)),
      ("from", .str "snapshot"), ("start_ts", .num t.startTs)]

/-- `write`: buffered until prewrite. -/
def write (s : Snapshot) (name : String) (t : Txn) (key : String) (value : Int) :
    Snapshot × Value :=
  if t.committed.isSome ∨ t.aborted = true then
    (s, err "the transaction has already finished")
  else
    let t := { t with writes := t.writes.insert key value }
    (s.setTxn name t, .obj [("ok", .bool true), ("buffered", .num t.writes.size)])

def conflict (s : Snapshot) (name : String) (t : Txn) (key : String) : Option Value :=
  let newer := (s.versions key).any fun v => t.startTs < v.commitTs
  let refused : Option Value :=
    if newer then
      some (.obj [("ok", .bool true), ("prewritten", .bool false), ("reason", .str "write conflict"),
        ("key", .str key)])
    else none
  match s.locks[key]? with
  | some (owner, _) =>
    if owner ≠ name then
      some (.obj [("ok", .bool true), ("prewritten", .bool false), ("reason", .str "locked"),
        ("key", .str key), ("owner", .str owner)])
    else refused
  | none => refused

/-- `prewrite`: take the locks, and find the conflicts. -/
def prewrite (s : Snapshot) (name : String) (t : Txn) : Snapshot × Value :=
  if t.aborted then (s, err "the transaction has already aborted")
  else
    match t.writes.keys.findSome? (s.conflict name t) with
    | some answer => (s.setTxn name { t with aborted := true }, answer)
    | none =>
      let s := { s with
        locks := t.writes.keys.foldl (fun m key => m.insert key (name, t.startTs)) s.locks }
      (s.setTxn name { t with prewritten := true },
        .obj [("ok", .bool true), ("prewritten", .bool true), ("locks", .num t.writes.size)])

/-- The versions after the writes of a transaction are pushed at `commitTs`. -/
def install (commitTs : Int) (data : StringMap (List Version)) (writes : List (String × Int)) :
    StringMap (List Version) :=
  writes.foldl (fun data w => data.insert w.1 (data.getD w.1 [] ++ [⟨commitTs, w.2⟩])) data

/-- `commit`: every write becomes visible, and every key loses its lock. -/
def commit (s : Snapshot) (name : String) (t : Txn) : Handled Snapshot :=
  if t.aborted then
    some (s, .obj [("ok", .bool true), ("committed", .bool false), ("reason", .str "aborted")])
  else if t.prewritten = false then
    some (s, .obj [("ok", .bool true), ("committed", .bool false),
      ("reason", .str "not prewritten")])
  else
    match s.tick with
    | none => none
    | some (commitTs, s) =>
      let s := { s with
        data := install commitTs s.data t.writes.toList
        locks := t.writes.keys.foldl (fun m key => m.erase key) s.locks }
      some (s.setTxn name { t with committed := some commitTs },
        .obj [("ok", .bool true), ("committed", .bool true), ("commit_ts", .num commitTs)])

def lockedBy (s : Snapshot) (name : String) (t : Txn) : List String :=
  t.writes.keys.filter fun key => (s.locks[key]?).map Prod.fst == some name

/-- `abort`: drop the locks, keep nothing. -/
def abort (s : Snapshot) (name : String) (t : Txn) : Snapshot × Value :=
  let s := { s with locks := (s.lockedBy name t).foldl (fun m key => m.erase key) s.locks }
  (s.setTxn name { t with aborted := true }, .obj [("ok", .bool true), ("aborted", .bool true)])

def state (s : Snapshot) : Value :=
  .obj [("ok", .bool true), ("clock", .num s.clock),
    ("locks", .arr (s.locks.toList.map fun l =>
      .obj [("key", .str l.1), ("owner", .str l.2.1), ("start_ts", .num l.2.2)])),
    ("keys", .arr (s.data.toList.map fun d =>
      .obj [("key", .str d.1), ("versions", .arr (d.2.map fun v =>
        .obj [("commit_ts", .num v.commitTs), ("value", .num v.value)]))]))]

/-- A command on the transaction `name`, which has to exist. -/
def onTxn [Host] (s : Snapshot) (name : String) (k : Txn → Handled Snapshot) : Handled Snapshot :=
  match s.txns[name]? with
  | none => some (s, err ("no transaction " ++ debugStr name))
  | some t => k t

def step [Host] (s : Snapshot) (command : String) (args : List String) : Handled Snapshot :=
  match command with
  | "init" => some (fresh, .obj [("ok", .bool true), ("clock", .num 0)])
  | "begin" => arg s (word args 0) fun name => s.begin name
  | "read" =>
    arg s (word args 0) fun name =>
    arg s (word args 1) fun key => onTxn s name fun t => some (s, s.read t key)
  | "write" =>
    arg s (word args 0) fun name =>
    arg s (word args 1) fun key =>
    arg s (int args 2) fun value => onTxn s name fun t => some (s.write name t key value)
  | "prewrite" => arg s (word args 0) fun name => onTxn s name fun t => some (s.prewrite name t)
  | "commit" => arg s (word args 0) fun name => onTxn s name fun t => s.commit name t
  | "abort" => arg s (word args 0) fun name => onTxn s name fun t => some (s.abort name t)
  | "state" => some (s, s.state)
  | other => some (s, err ("unknown command " ++ debugStr other))

end Snapshot

end BuildYourOwn.Trust
