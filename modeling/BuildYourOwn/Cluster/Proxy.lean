import BuildYourOwn.Link.Archive

/-!
# The peer proxy

Model of `pump` and of the two pumps of a connection (`disttest/src/cluster/proxy.rs`). An await is a
state (`Place`), and what runs from one await to the next is one step, under the fault that the link has
then. The chances of a fault are kept as far as that they are not zero, and a draw is part of the input.
The counters are left out, and that a length past a `usize` panics.
-/

namespace BuildYourOwn.Cluster

open Lib
open Link.Archive (trim)
open Topic (parseUsize)

abbrev Bytes := List UInt8

structure LinkFault where
  cut : Bool := false
  /-- In nanoseconds. -/
  delay : Nat := 0
  duplicate : Bool := false
  reorder : Bool := false
deriving DecidableEq

def LinkFault.messageMode (f : LinkFault) : Bool := f.duplicate || f.reorder

/-! ## Messages -/

def find (haystack needle : Bytes) : Option Nat :=
  (List.range (haystack.length + 1 - needle.length)).find? fun i => (haystack.drop i).take needle.length = needle

/-- The end of a head. -/
def blankLine : Bytes := [13, 10, 13, 10]

def lowercase (head : Bytes) : List Char := (fromUtf8Lossy head).toList.map Char.toLower

def contains (text needle : List Char) : Bool := text.tails.any needle.isPrefixOf

def httpMessageLen (buf : Bytes) : Option Nat := do
  let headEnd := (← find buf blankLine) + 4
  let head := lowercase (buf.take headEnd)
  if contains head "transfer-encoding:".toList then none
  else
    let name := "content-length:".toList
    let len := ((head.splitOn '\n').find? name.isPrefixOf).bind fun l =>
      parseUsize (trim (String.ofList (l.drop name.length)))
    let total := headEnd + len.getD 0
    if total ≤ buf.length then some total else none

def hasBody (msg : Bytes) : Bool := (find msg blankLine).any fun i => i + 4 < msg.length

def unframeable (buf : Bytes) : Bool :=
  let upper := fun b : UInt8 => decide (65 ≤ b ∧ b ≤ 90)
  let probe := buf.take 9
  2 ^ 20 < buf.length ||
    (find buf blankLine).any (fun i => contains (lowercase (buf.take i)) "transfer-encoding:".toList) ||
    match probe.findIdx? (· = 32) with
    | some 0 => true
    | some i => !(probe.take i).all upper
    | none => probe.length = 9 || !probe.all upper

/-! ## A pump -/

inductive After
  | chunk
  /-- A held message that nothing overtook. -/
  | late
  /-- A held message, before a stream that is not framed any more. -/
  | earlier
  /-- What was pending of such a stream. -/
  | rest
  | overtaking (earlier : Bytes) (fault : LinkFault)
  | overtaken (fault : LinkFault)
  | message (msg : Bytes) (fault : LinkFault)
  | lastHeld
  | lastPending
deriving DecidableEq

inductive Place
  | start
  | selecting
  | delayed (chunk : Bytes) (fault : LinkFault)
  | writing (after : After)
  | flushing
  | done
deriving DecidableEq

structure Pump where
  framed : Bool
  sideChannel : Bool
  pending : Bytes := []
  held : Option Bytes := none
  place : Place := .start
deriving DecidableEq

/-- What ends an await. `hold` and `duplicate` are what the draws of the step come to, if it draws. -/
inductive Input
  | begin
  | read (chunk : Bytes) (hold : Bool)
  | ended
  | changed
  | timer
  | slept (hold : Bool)
  | written (ok hold duplicate : Bool)
  | flushed

/-- What a step does: the write to the destination that it starts, and the copy that it sends on a connection
of its own. -/
structure Output where
  write : Option Bytes := none
  copy : Option Bytes := none
deriving DecidableEq

namespace Pump

abbrev Stepped := Pump × Output

def stop (p : Pump) : Stepped := ({ p with place := .done }, {})

def write (bytes : Bytes) (after : After) (p : Pump) : Stepped :=
  ({ p with place := .writing after }, { write := some bytes })

/-- The head of the loop. -/
def top (now : LinkFault) (p : Pump) : Stepped := if now.cut then p.stop else ({ p with place := .selecting }, {})

def finishPending (p : Pump) : Stepped :=
  if p.pending = [] then ({ p with place := .flushing }, {}) else p.write p.pending .lastPending

/-- What comes behind the loop. -/
def finish (p : Pump) : Stepped :=
  match p.held with
  | some earlier => write earlier .lastHeld { p with held := none }
  | none => p.finishPending

def frame (now fault : LinkFault) (hold : Bool) : Nat → Pump → Stepped
  | 0, p => p.top now
  | rounds + 1, p =>
    match httpMessageLen p.pending with
    | none =>
      if unframeable p.pending then
        match p.held with
        | some earlier => write earlier .earlier { p with framed := false, held := none }
        | none => write p.pending .rest { p with framed := false }
      else p.top now
    | some len =>
      let msg := p.pending.take len
      let p := { p with pending := p.pending.drop len }
      match p.held with
      | some earlier => write msg (.overtaking earlier fault) { p with held := none }
      | none =>
        if fault.reorder && hold then frame now fault hold rounds { p with held := some msg }
        else p.write msg (.message msg fault)

def forward (now fault : LinkFault) (chunk : Bytes) (hold : Bool) (p : Pump) : Stepped :=
  if p.framed then frame now fault hold 2 { p with pending := p.pending ++ chunk } else p.write chunk .chunk

def wrote (now : LinkFault) (hold duplicate : Bool) (p : Pump) : After → Stepped
  | .chunk | .late => p.top now
  | .earlier => p.write p.pending .rest
  | .rest => top now { p with pending := [] }
  | .overtaking earlier fault => p.write earlier (.overtaken fault)
  | .overtaken fault => p.frame now fault hold 2
  | .message msg fault =>
    let copied := fault.duplicate && hasBody msg && duplicate && p.sideChannel
    let r := p.frame now fault hold 2
    (r.1, { r.2 with copy := if copied then some msg else none })
  | .lastHeld => p.finishPending
  | .lastPending => ({ p with place := .flushing }, {})

def failed (p : Pump) : After → Stepped
  | .chunk => p.finish
  | .lastHeld => p.finishPending
  | .lastPending => ({ p with place := .flushing }, {})
  | .late | .earlier | .rest | .overtaking .. | .overtaken _ | .message .. => p.stop

def step (now : LinkFault) (p : Pump) : Input → Option Stepped
  | .begin => if p.place = .start then some (p.top now) else none
  | .read chunk hold =>
    if p.place = .selecting ∧ chunk ≠ [] then
      some <| if now.cut then p.stop
        else if now.delay ≠ 0 then ({ p with place := .delayed chunk now }, {})
        else p.forward now now chunk hold
    else none
  | .ended => if p.place = .selecting then some p.finish else none
  | .changed => if p.place = .selecting then some (p.top now) else none
  | .timer =>
    match p.place, p.held with
    | .selecting, some earlier => some (write earlier .late { p with held := none })
    | _, _ => none
  | .slept hold =>
    match p.place with
    | .delayed chunk fault => some (if now.cut then p.stop else p.forward now fault chunk hold)
    | _ => none
  | .written ok hold duplicate =>
    match p.place with
    | .writing after => some (if ok then p.wrote now hold duplicate after else p.failed after)
    | _ => none
  | .flushed => if p.place = .flushing then some p.stop else none

end Pump

/-! ## A connection -/

structure Conn where
  link : LinkFault
  requests : Pump
  answers : Pump
deriving DecidableEq

inductive Action
  | set (fault : LinkFault)
  | requests (i : Input)
  | answers (i : Input)
  /-- `handle` aborts the answers when the requests have ended. -/
  | abort

namespace Conn

/-- A connection that `handle` has made, under the fault it had found. -/
def accepted (fault link : LinkFault) : Conn where
  link := link
  requests := { framed := fault.messageMode, sideChannel := true }
  answers := { framed := false, sideChannel := false }

def step (c : Conn) : Action → Option (Conn × Output)
  | .set fault => some ({ c with link := fault }, {})
  | .requests i => (c.requests.step c.link i).map fun r => ({ c with requests := r.1 }, r.2)
  | .answers i => (c.answers.step c.link i).map fun r => ({ c with answers := r.1 }, r.2)
  | .abort => if c.requests.place = .done then some ({ c with answers := c.answers.stop.1 }, {}) else none

end Conn

end BuildYourOwn.Cluster
