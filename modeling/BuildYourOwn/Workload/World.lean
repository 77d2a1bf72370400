import Mathlib.Data.List.Sort
import BuildYourOwn.Lib.Run
import BuildYourOwn.Lin.History

/-!
# One request over HTTP

Model of `Http::request` and `round_trip` (`disttest/src/etcd/http.rs`), of the requests that
`execute` makes of a store, and of what it records for their answers
(`disttest/src/cluster/workload.rs`, `disttest/src/etcd/mod.rs`).

A request is sent at most twice. It is repeated when it was sent over a pooled connection, the
connection failed, and either the path changes nothing or not a byte of answer came back
(`repeats`). An answer is what the JSON of a whole one decodes to, or `undecodable`; the texts of
errors, the framing of a message and the JSON itself are not modelled.

`serve` is what a store does with one request, and `serve_request` that it is the sequential
store of the checker, seen through requests and answers.
-/

namespace BuildYourOwn.Workload

open Lin

/-- Everything that can go wrong below the JSON layer. -/
inductive HttpError where
  | connect
  | io
  | timeout
  | protocol
  deriving DecidableEq, Repr

/-! ## Requests and answers -/

/-- The comparison of a transaction: `cmp_value_eq`, or `cmp_create_eq` with revision 0. -/
inductive Compare where
  | valueEq (v : List UInt8)
  | neverCreated
  deriving DecidableEq, Repr

inductive Request where
  | range
  | put (v : List UInt8)
  | deleteRange
  | txn (compare : Compare) (put : List UInt8)
  deriving DecidableEq, Repr

/-- The part of an answer that `execute` reads. -/
inductive Response where
  /-- `RangeResponse`: the value of the first of its `kvs`. -/
  | range (value : Option (List UInt8))
  | put
  | deleteRange
  | txn (succeeded : Bool)
  /-- A body that is not the documented shape. -/
  | undecodable
  deriving DecidableEq, Repr

/-- The request that `execute` makes. -/
def request : Op → Request
  | .read => .range
  | .write v => .put v
  | .delete => .deleteRange
  | .cas (some v) new => .txn (.valueEq v) new
  | .cas none new => .txn .neverCreated new

def path : Op → String
  | .read => "/v3/kv/range"
  | .write _ => "/v3/kv/put"
  | .delete => "/v3/kv/deleterange"
  | .cas _ _ => "/v3/kv/txn"

/-- `execute`: every error becomes `Unknown`. -/
def outcomeOf : Op → Except HttpError Response → Outcome
  | .read, .ok (.range value) => .value value
  | .write _, .ok .put => .ok
  | .delete, .ok .deleteRange => .ok
  | .cas _ _, .ok (.txn succeeded) => .swapped succeeded
  | _, _ => .unknown

/-! ## The retry rule -/

def isReadOnly (path : String) : Bool :=
  path ∈ ["/health", "/version", "/v3/kv/range", "/v3/maintenance/status",
    "/v3/cluster/member/list", "/v3/lease/timetolive", "/v3/lease/leases"]

/-- How the steps of `round_trip` went. -/
inductive Exchanged where
  /-- Writing or flushing the request failed. -/
  | unwritten
  | closed
  /-- An answer began, and `read_response` returned. -/
  | read (result : Except HttpError Response)
  /-- The deadline passed. -/
  | late

/-- `Http::round_trip`: an error says whether repeating the request is harmless. -/
def roundTrip : Exchanged → Except (HttpError × Bool) Response
  | .unwritten => .error (.io, true)
  | .closed => .error (.io, true)
  | .read (.ok resp) => .ok resp
  | .read (.error e) => .error (e, false)
  | .late => .error (.timeout, false)

/-- The guard of `Http::request` for another attempt. -/
def repeats (attempt : Nat) (pooled : Bool) (path : String) (e : HttpError) (retrySafe : Bool) :
    Bool :=
  attempt = 0 && pooled && (retrySafe || isReadOnly path) && e = .io

@[simp] theorem isReadOnly_path (op : Op) : isReadOnly (path op) = decide (op = .read) := by
  cases op with
  | read => rfl
  | write v => simp [path, isReadOnly]
  | delete => rfl
  | cas expect new => simp [path, isReadOnly]

theorem safe_of_repeats {attempt : Nat} {pooled : Bool} {op : Op} {e : HttpError}
    {retrySafe : Bool} (h : repeats attempt pooled (path op) e retrySafe = true)
    (hwrite : op ≠ .read) : retrySafe = true := by
  unfold repeats at h
  rw [isReadOnly_path] at h
  have hall : ((attempt = 0 ∧ pooled = true) ∧ retrySafe = true) ∧ e = .io := by
    simpa [hwrite] using h
  exact hall.1.2

/-! ## The store -/

def Compare.holds (state : State) : Compare → Bool
  | .valueEq v => state = some v
  | .neverCreated => state = none

/-- What a store does to the key, and what it answers. -/
def serve (state : State) : Request → State × Response
  | .range => (state, .range state)
  | .put v => (some v, .put)
  | .deleteRange => (none, .deleteRange)
  | .txn compare put => if compare.holds state then (some put, .txn true) else (state, .txn false)

/-- **The store behind the requests is the sequential one.** -/
theorem serve_request (state : State) (op : Op) : (serve state (request op)).1 = (op.apply state).1 ∧
      outcomeOf op (.ok (serve state (request op)).2) = (op.apply state).2 := by
  cases op with
  | read => exact ⟨rfl, rfl⟩
  | write v => exact ⟨rfl, rfl⟩
  | delete => exact ⟨rfl, rfl⟩
  | cas expect new =>
    cases expect with
    | none =>
      by_cases h : state = none <;> simp [request, serve, Compare.holds, Op.apply, outcomeOf, h]
    | some v =>
      by_cases h : state = some v <;> simp [request, serve, Compare.holds, Op.apply, outcomeOf, h]

end BuildYourOwn.Workload

/-!
## Clients, connections and a store

The workload of `disttest/src/cluster/workload.rs` as a machine: client loops that each issue one
operation after another over the pooled connections of `disttest/src/etcd/http.rs`, and a store
behind them that applies every request it has received in full, once, atomically, before it answers.
An event is one thing that a client, the store, the network or the clock does; between any two of
them anything else may happen.

The store may never answer, and may apply a request whose client has given up. A connection may be
lost at any moment: when it is in the pool, before, while or after an answer comes back, and with or
without the request having arrived. What a client asks, where, and when it gives up is left open. The
clock is the recorder's, in nanoseconds, as long as it fits its `u64`.
-/

namespace BuildYourOwn.Workload

open Lib Lin

structure Operation where
  client : Nat
  member : Nat
  key : String
  op : Op
  call : UInt64
  deriving DecidableEq, Repr

structure Exchange where
  number : Nat
  conn : Nat
  received : Bool
  answer : Option Response
  /-- Some of the answer has come back. -/
  begun : Bool
  /-- The client has sent the request once more. -/
  repeated : Bool
  deriving DecidableEq, Repr

structure Applied where
  number : Nat
  answer : Response
  time : UInt64
  deriving DecidableEq, Repr

inductive Stage where
  | idle
  | checkout (number attempt : Nat)
  | writing (number attempt conn : Nat) (pooled : Bool)
  | awaiting (number attempt conn : Nat) (pooled : Bool) (exchange : Nat)
  | reading (number attempt conn : Nat) (pooled : Bool) (exchange : Nat)
  /-- `execute` has returned. -/
  | returned (number : Nat) (outcome : Outcome)
  deriving DecidableEq, Repr

/-- The operation a client is at. -/
def Stage.number : Stage → Option Nat
  | .idle => none
  | .checkout n _ => some n
  | .writing n _ _ _ => some n
  | .awaiting n _ _ _ _ => some n
  | .reading n _ _ _ _ => some n
  | .returned n _ => some n

structure World where
  now : UInt64
  store : String → State
  applied : List Applied
  exchanges : List Exchange
  /-- Which connections were closed or failed. -/
  lost : List Bool
  operations : List Operation
  stage : Nat → Stage
  /-- The idle connections of a client to a member, the last one put back first. -/
  idle : Nat → Nat → List Nat
  recorded : List (Nat × Entry)

/-- Nothing was asked yet. -/
def World.start : World where
  now := 0
  store _ := none
  applied := []
  exchanges := []
  lost := []
  operations := []
  stage _ := .idle
  idle _ _ := []
  recorded := []

/-- How `read_response` ended. -/
inductive Arrived where
  /-- All of the answer came; the connection is put back unless it says `close`. -/
  | whole (close : Bool)
  /-- The connection was lost inside the answer: an error of the connection, a message that is not
  HTTP, or one that ended early and does not decode. -/
  | cut (e : HttpError)
  | truncated (close : Bool)

inductive Event where
  | tick (t : UInt64)
  | call (client member : Nat) (key : String) (op : Op)
  | checkout (client : Nat) (connects : Bool)
  | write (client : Nat) (delivered : Bool)
  | receive (exchange : Nat)
  | apply (exchange : Nat)
  | reply (exchange : Nat)
  | lose (conn : Nat)
  | await (client : Nat)
  | read (client : Nat) (arrived : Arrived)
  /-- The deadline of `round_trip` passes. -/
  | late (client : Nat)
  /-- The deadline of `execute` passes, or of connecting. -/
  | timeout (client : Nat)
  | record (client : Nat)

namespace World

variable (w : World)

def setStage (client : Nat) (stage : Stage) : World :=
  { w with stage := Function.update w.stage client stage }

def setIdle (client member : Nat) (pool : List Nat) : World :=
  { w with idle := Function.update w.idle client (Function.update (w.idle client) member pool) }

/-- `Http::checkout`: the first pooled connection that is still open, or a new one. -/
def checkout (client n attempt : Nat) (o : Operation) (connects : Bool) : World :=
  match (w.idle client o.member).dropWhile fun c => w.lost.getD c true with
  | c :: pool => (w.setIdle client o.member pool).setStage client (.writing n attempt c true)
  | [] =>
    let w := w.setIdle client o.member []
    if connects then
      ({ w with lost := w.lost ++ [false] } : World).setStage client
        (.writing n attempt w.lost.length false)
    else w.setStage client (.returned n (outcomeOf o.op (.error .connect)))

/-- `Http::request` after a `round_trip`, for operation `n` sent as `exchange`, if it was. -/
def exchanged (client n attempt conn : Nat) (pooled : Bool) (o : Operation)
    (exchange : Option Nat) (how : Exchanged) (close : Bool) : World :=
  match roundTrip how with
  | .ok resp =>
    let w := if close then w else w.setIdle client o.member (conn :: w.idle client o.member)
    w.setStage client (.returned n (outcomeOf o.op (.ok resp)))
  | .error (e, retrySafe) =>
    if repeats attempt pooled (path o.op) e retrySafe then
      let w := match exchange with
        | some x => { w with exchanges := w.exchanges.modify x fun ex => { ex with repeated := true } }
        | none => w
      w.setStage client (.checkout n (attempt + 1))
    else w.setStage client (.returned n (outcomeOf o.op (.error e)))

/-- The store applies a request it has received. -/
def serveExchange (x : Nat) (ex : Exchange) (o : Operation) : World :=
  let (value, answer) := serve (w.store o.key) (request o.op)
  { w with
    store := Function.update w.store o.key value
    applied := w.applied ++ [⟨ex.number, answer, w.now⟩]
    exchanges := w.exchanges.modify x fun ex => { ex with answer := some answer } }

def entryOf (client : Nat) (o : Operation) (outcome : Outcome) : Entry :=
  Recorder.entry client o.key o.op outcome o.call w.now ("m" ++ toString (o.member + 1))

end World

/-- One event; `none` where it cannot happen. -/
def next (w : World) : Event → Option World
  | .tick t => if w.now ≤ t then some { w with now := t } else none
  | .call client member key op =>
    match w.stage client with
    | .idle =>
      let w' : World := { w with operations := w.operations ++ [⟨client, member, key, op, w.now⟩] }
      some (w'.setStage client (.checkout w.operations.length 0))
    | _ => none
  | .checkout client connects =>
    match w.stage client with
    | .checkout n attempt => do
      let o ← w.operations[n]?
      some (w.checkout client n attempt o connects)
    | _ => none
  | .write client delivered =>
    match w.stage client with
    | .writing n attempt conn pooled => do
      let o ← w.operations[n]?
      if delivered then
        let w' : World := { w with exchanges := w.exchanges ++ [⟨n, conn, false, none, false, false⟩] }
        some (w'.setStage client (.awaiting n attempt conn pooled w.exchanges.length))
      else some (w.exchanged client n attempt conn pooled o none .unwritten false)
    | _ => none
  | .receive x => do
    let ex ← w.exchanges[x]?
    if ex.received then none
    else some { w with exchanges := w.exchanges.modify x fun ex => { ex with received := true } }
  | .apply x => do
    let ex ← w.exchanges[x]?
    let o ← w.operations[ex.number]?
    if ex.received && ex.answer.isNone then some (w.serveExchange x ex o) else none
  | .reply x => do
    let ex ← w.exchanges[x]?
    if ex.answer.isSome && !ex.begun && !w.lost.getD ex.conn true then
      some { w with exchanges := w.exchanges.modify x fun ex => { ex with begun := true } }
    else none
  | .lose conn => if conn < w.lost.length then some { w with lost := w.lost.set conn true } else none
  | .await client =>
    match w.stage client with
    | .awaiting n attempt conn pooled x => do
      let ex ← w.exchanges[x]?
      let o ← w.operations[n]?
      if ex.begun then some (w.setStage client (.reading n attempt conn pooled x))
      else if w.lost.getD conn true then
        some (w.exchanged client n attempt conn pooled o (some x) .closed false)
      else none
    | _ => none
  | .read client arrived =>
    match w.stage client with
    | .reading n attempt conn pooled x => do
      let ex ← w.exchanges[x]?
      let o ← w.operations[n]?
      match arrived with
      | .whole close => do
        let resp ← ex.answer
        some (w.exchanged client n attempt conn pooled o (some x) (.read (.ok resp)) close)
      | .cut e =>
        if w.lost.getD conn true then
          some (w.exchanged client n attempt conn pooled o (some x) (.read (.error e)) false)
        else none
      | .truncated close =>
        if w.lost.getD conn true then
          some (w.exchanged client n attempt conn pooled o (some x) (.read (.ok .undecodable)) close)
        else none
    | _ => none
  | .late client =>
    match w.stage client with
    | .writing n attempt conn pooled => do
      let o ← w.operations[n]?
      some (w.exchanged client n attempt conn pooled o none .late false)
    | .awaiting n attempt conn pooled x => do
      let o ← w.operations[n]?
      some (w.exchanged client n attempt conn pooled o (some x) .late false)
    | .reading n attempt conn pooled x => do
      let o ← w.operations[n]?
      some (w.exchanged client n attempt conn pooled o (some x) .late false)
    | _ => none
  | .timeout client =>
    match w.stage client with
    | .idle | .returned _ _ => none
    | stage => do
      let n ← stage.number
      some (w.setStage client (.returned n .unknown))
  | .record client =>
    match w.stage client with
    | .returned n outcome => do
      let o ← w.operations[n]?
      let w' : World := { w with recorded := w.recorded ++ [(n, w.entryOf client o outcome)] }
      some (w'.setStage client .idle)
    | _ => none

/-- The step of the machine, in the shape of `Run`. -/
def step (w : World) (event : Event) : Option (World × Unit) := (next w event).map (·, ())

/-- The history that `run` hands back: what was recorded, in the order of the calls, numbered. -/
def World.history (w : World) : History :=
  ((w.recorded.map (·.2)).insertionSort fun a b => a.callNs ≤ b.callNs).foldl History.push ⟨[]⟩

end BuildYourOwn.Workload
