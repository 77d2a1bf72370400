import BuildYourOwn.Link.Archive

/-!
# The lines of a watch

Model of `Stream` (`disttest/src/etcd/http.rs`): `next_line`, which hands out the body of a response
line by line, and `fill`, which reads one more piece of it, as one machine. An await is a state of its
own (`Phase`), so bytes arrive and the timeout fires between any two of its steps. A call that is
cancelled there forgets what `read_line` and `read_exact` had read. The text of an error is kept as far
as it depends on the stream.
-/

namespace BuildYourOwn.Etcd

open Lib
open Link.Archive (trim)

abbrev Bytes := List UInt8

/-! ## The machine -/

inductive HttpError
  | io (text : String)
  | badChunkSize (line : String)
deriving DecidableEq

/-- Where a call of `next_line` stands. -/
inductive Phase
  | idle
  /-- At the head of the loop. -/
  | looking
  /-- In `read_line`, with what it has read. -/
  | line (read : Bytes)
  /-- In `read_exact`, with what it has read of a chunk of this size. -/
  | chunk (size : Nat) (read : Bytes)
  /-- In `read`, of a body that is not chunked. -/
  | body
deriving DecidableEq

structure Stream where
  inbuf : Bytes
  coming : Bytes
  closed : Bool := false
  chunked : Bool
  pending : Bytes := []
  done : Bool := false
  phase : Phase := .idle
deriving DecidableEq

inductive Input
  | nextLine
  | arrive (n : Nat)
  | close
  /-- The call goes on; what is not chunked comes in pieces of at most so many bytes. -/
  | poll (n : Nat)
  | timeout

abbrev Answer := Except HttpError (Option String)

def text (line : Bytes) : String := trim (fromUtf8Lossy line)

/-- `take_line`, where what has been looked at of the first line has no newline. -/
def takeLine (front : Bytes) : Bytes → Option String × Bytes
  | [] => (none, front)
  | b :: rest =>
    if b = 10 then
      if text (front ++ [b]) = "" then takeLine [] rest else (some (text (front ++ [b])), rest)
    else takeLine (front ++ [b]) rest

def hexDigit (c : Char) : Option Nat :=
  if '0' ≤ c ∧ c ≤ '9' then some (c.toNat - 48)
  else if 'a' ≤ c ∧ c ≤ 'f' then some (c.toNat - 87)
  else if 'A' ≤ c ∧ c ≤ 'F' then some (c.toNat - 55)
  else none

def hexValue (digits : List Char) (n : Nat) : Option Nat :=
  digits.foldlM (fun n c => (hexDigit c).bind fun d => if 16 * n + d < 2 ^ 64 then some (16 * n + d) else none) n

/-- `usize::from_str_radix(_, 16)`. -/
def fromStrRadix : List Char → Option Nat
  | [] => none
  | '+' :: digits => if digits = [] then none else hexValue digits 0
  | digits => hexValue digits 0

def parseSize (line : String) : Option Nat := fromStrRadix ((trim line).toList.takeWhile (· ≠ ';'))

namespace Stream

/-- The call ends. -/
def answer (s : Stream) (a : Answer) : Option (Stream × Option Answer) :=
  some ({ s with phase := .idle }, some a)

/-- `fill` has found the end of the body. -/
def ended (s : Stream) : Option (Stream × Option Answer) :=
  answer { s with done := true, pending := (takeLine [] s.pending).2 } (.ok (takeLine [] s.pending).1)

/-- What `fill` does with a size line; a size that no vector has is a panic. -/
def sized (line : Bytes) (s : Stream) : Option (Stream × Option Answer) :=
  if line = [] then s.ended else
    match String.fromUTF8? ⟨line.toArray⟩ with
    | none => s.answer (.error (.io "stream did not contain valid UTF-8"))
    | some text =>
      match parseSize text with
      | none => s.answer (.error (.badChunkSize text))
      | some 0 => s.ended
      | some size => if size + 2 < 2 ^ 63 then some ({ s with phase := .chunk size [] }, none) else none

/-- The call goes on, unless it has to wait. -/
def poll (s : Stream) (n : Nat) : Option (Stream × Option Answer) :=
  match s.phase with
  | .idle => none
  | .looking =>
    match takeLine [] s.pending with
    | (some line, rest) => answer { s with pending := rest } (.ok (some line))
    | (none, rest) =>
      if s.done then answer { s with pending := rest } (.ok none)
      else some ({ s with pending := rest, phase := if s.chunked then .line [] else .body }, none)
  | .line read =>
    match s.inbuf.span (· ≠ 10) with
    | (front, newline :: back) => sized (read ++ front ++ [newline]) { s with inbuf := back }
    | (front, []) =>
      if front ≠ [] then some ({ s with inbuf := [], phase := .line (read ++ front) }, none)
      else if s.closed then sized read s else none
  | .chunk size read =>
    let read' := read ++ s.inbuf.take (size + 2 - read.length)
    let s' := { s with inbuf := s.inbuf.drop (size + 2 - read.length) }
    if s.inbuf = [] then if s.closed then s.answer (.error (.io "early eof")) else none
    else if read'.length < size + 2 then some ({ s' with phase := .chunk size read' }, none)
    else some ({ s' with pending := s.pending ++ read'.take size, phase := .looking }, none)
  | .body =>
    if s.inbuf = [] then if s.closed then s.ended else none
    else if 0 < n ∧ n ≤ 8192 then
      some ({ s with inbuf := s.inbuf.drop n, pending := s.pending ++ s.inbuf.take n, phase := .looking }, none)
    else none

def step (s : Stream) : Input → Option (Stream × Option Answer)
  | .nextLine => if s.phase = .idle then some ({ s with phase := .looking }, none) else none
  | .arrive n => some ({ s with inbuf := s.inbuf ++ s.coming.take n, coming := s.coming.drop n }, none)
  | .close => if s.coming = [] then some ({ s with closed := true }, none) else none
  | .poll n => s.poll n
  | .timeout => if s.phase = .idle ∨ s.phase = .looking then none else s.answer (.ok none)

end Stream

/-- The stream of a response whose head is read, and what its reader has of the body then. -/
def opened (chunked : Bool) (arrived coming : Bytes) : Stream where
  inbuf := arrived
  coming := coming
  chunked := chunked

def lineOf : Option Answer → Option String
  | some (.ok line) => line
  | _ => none

def returned (es : List (Event Stream Input (Option Answer))) : List String := es.filterMap fun e => lineOf e.output

/-! ## The body -/

def cutLines (front : Bytes) : Bytes → List Bytes × Bytes
  | [] => ([], front)
  | b :: rest =>
    if b = 10 then ((front ++ [b]) :: (cutLines [] rest).1, (cutLines [] rest).2) else cutLines (front ++ [b]) rest

/-- The non-blank ones among some lines, trimmed. -/
def said (lines : List Bytes) : List String := (lines.map text).filter (· ≠ "")

def bodyLines (body : Bytes) : List String := said ((cutLines [] body).1 ++ [(cutLines [] body).2])

inductive SizeLine : Bytes → Nat → Prop
  | mk {digits ext : List Char} {n : Nat} (hne : digits ≠ []) (hdigits : ∀ c ∈ digits, (hexDigit c).isSome)
      (hvalue : hexValue digits 0 = some n) (hext : ext = [] ∨ ext.head? = some ';') (hline : '\n' ∉ ext) :
      SizeLine (asBytes (String.ofList (digits ++ ext ++ ['\r', '\n']))) n

inductive Framed : Bool → Bytes → Bytes → Prop
  | plain (body : Bytes) : Framed false body body
  | last {line : Bytes} (hline : SizeLine line 0) (trailer : Bytes) : Framed true (line ++ trailer) []
  | chunk {line data wire body : Bytes} (hline : SizeLine line data.length) (hne : data ≠ [])
      (hsize : data.length + 2 < 2 ^ 63) (h : Framed true wire body) :
      Framed true (line ++ (data ++ ([13, 10] ++ wire))) (data ++ body)

end BuildYourOwn.Etcd
