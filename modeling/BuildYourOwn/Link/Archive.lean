import Mathlib.Data.List.DropRight
import BuildYourOwn.Link.Checked
import BuildYourOwn.Topic.Command

/-!
# The `ar` archive

Model of `linktest/src/elf/archive.rs`: `ArchiveBuilder::build`, `parse` and `parse_index`, the reader with its panics.

* What is formatted (`{name:<16}`) is padded by characters; lengths are those of the UTF-8 bytes.
* The builder's sums are natural numbers: what is summed are lengths of what is in memory.
-/

namespace BuildYourOwn.Link.Archive

open Lib Lib.Action
open Topic (parseUsize)

/-- `!<arch>` and a newline. -/
def archiveMagic : Sized 8 := ⟨[0x21, 0x3c, 0x61, 0x72, 0x63, 0x68, 0x3e, 0x0a], rfl⟩

def headerTerminator : Bytes := [0x60, 0x0a]

def memberHeaderSize : Nat := 60

structure Member where
  name : String
  data : Bytes
  symbols : List String

inductive IndexMode where
  | correct
  | omitted
  | stale
  | phantom
deriving DecidableEq

structure ArchiveBuilder where
  members : List Member
  index : IndexMode := .correct
  magicOverride : Option (Sized 8) := none
  truncateTo : Option Nat := none

/-! ## Writing -/

def padEven (n : Nat) : Nat := n + n % 2

/-- `{s:<n}`. -/
def padRight (n : Nat) (s : String) : String := s ++ String.ofList (List.replicate (n - s.length) ' ')

def headerText (name : String) (size : Nat) : String :=
  padRight 16 name ++ padRight 12 (toString 0) ++ padRight 6 (toString 0) ++ padRight 6 (toString 0) ++
    padRight 8 "644" ++ padRight 10 (toString size)

def writeMember (out : Bytes) (name : String) (data : Bytes) : Except String Bytes :=
  if (asBytes name).length > 16 then .error s!"member name '{name}' does not fit a 16-byte field"
  else
    let header := asBytes (headerText name data.length)
    if header.length ≠ memberHeaderSize - 2 then
      .error s!"internal: member header came out {header.length + 2} bytes, not {memberHeaderSize}"
    else .ok (out ++ header ++ headerTerminator ++ data ++ if data.length % 2 = 0 then [] else [0x0a])

/-- The loop over the names: the long name table behind `long`, and the names as they are stored. -/
def storeNames (long : Bytes) : List Member → Bytes × List String
  | [] => (long, [])
  | m :: members =>
    if (asBytes m.name).length ≤ 15 then
      let r := storeNames long members
      (r.1, s!"{m.name}/" :: r.2)
    else
      let r := storeNames (long ++ asBytes m.name ++ [0x2f, 0x0a]) members
      (r.1, s!"/{long.length}" :: r.2)

def memberOffsets (cursor : Nat) : List Member → List UInt32
  | [] => []
  | m :: members =>
    UInt32.ofNat cursor :: memberOffsets (cursor + (memberHeaderSize + padEven m.data.length)) members

def phantomSymbol : String := "linktest_phantom_symbol"

namespace ArchiveBuilder

/-- `index_payload_len`. -/
def indexLength (b : ArchiveBuilder) : Nat :=
  if b.index = .omitted then 0
  else
    let symbolCount := (b.members.map fun m => m.symbols.length).sum
    let names := ((b.members.flatMap Member.symbols).map fun s => (asBytes s).length + 1).sum
    let phantom := if b.index = .phantom then (asBytes phantomSymbol).length + 1 + 4 else 0
    4 + 4 * symbolCount + names + phantom

def entries (b : ArchiveBuilder) (offsets : List UInt32) : List (UInt32 × String) :=
  ((b.members.zip offsets).flatMap fun (m, offset) =>
    m.symbols.map fun s => (if b.index = .stale then offsets.headD 0 else offset, s)) ++
    if b.index = .phantom then [(offsets.headD 0, phantomSymbol)] else []

/-- Where the first member's header lands. -/
def firstOffset (b : ArchiveBuilder) : Nat :=
  archiveMagic.val.length + (if 0 < b.indexLength then memberHeaderSize + padEven b.indexLength else 0) +
    if (storeNames [] b.members).1 ≠ [] then memberHeaderSize + padEven (storeNames [] b.members).1.length else 0

end ArchiveBuilder

def indexPayload (entries : List (UInt32 × String)) : Bytes :=
  bigEndian 4 (UInt32.ofNat entries.length).toNat ++ (entries.flatMap fun e => bigEndian 4 e.1.toNat) ++
    entries.flatMap fun e => asBytes e.2 ++ [0]

def ArchiveBuilder.build (b : ArchiveBuilder) : Except String Bytes := do
  let (longNames, storedNames) := storeNames [] b.members
  let offsets := memberOffsets b.firstOffset b.members
  let out := (b.magicOverride.getD archiveMagic).val
  let out ← if 0 < b.indexLength then writeMember out "/" (indexPayload (b.entries offsets)) else pure out
  let out ← if longNames ≠ [] then writeMember out "//" longNames else pure out
  let out ← (b.members.zip storedNames).foldlM (fun out r => writeMember out r.2 r.1.data) out
  pure (match b.truncateTo with
    | some n => out.take n
    | none => out)

/-! ## Reading -/

structure ParsedMember where
  name : String
  headerOffset : Nat
  data : Bytes
deriving DecidableEq

structure ParsedIndex where
  entries : List (String × UInt32)
deriving DecidableEq

/-- What stops where the source panics. -/
abbrev Reading := Action Unit String

/-- The Unicode property `White_Space`. -/
def whiteSpace (c : Char) : Bool :=
  (9 ≤ c.toNat && c.toNat ≤ 13) || (0x2000 ≤ c.toNat && c.toNat ≤ 0x200a) ||
    [0x20, 0x85, 0xa0, 0x1680, 0x2028, 0x2029, 0x202f, 0x205f, 0x3000].contains c.toNat

def trimEnd (s : String) : String := String.ofList (s.toList.rdropWhile whiteSpace)

def trim (s : String) : String := String.ofList ((s.toList.dropWhile whiteSpace).rdropWhile whiteSpace)

/-- `text.get(n..)`: what is behind `n` bytes, if a character begins there. -/
def getFrom : Nat → List Char → Option (List Char)
  | 0, cs => some cs
  | _ + 1, [] => none
  | n + 1, c :: cs => if c.utf8Size ≤ n + 1 then getFrom (n + 1 - c.utf8Size) cs else none

/-- `split` at the bytes that are zero. -/
def splitZero : Bytes → List Bytes
  | [] => [[]]
  | b :: rest =>
    if b = 0 then [] :: splitZero rest
    else
      match splitZero rest with
      | [] => [[b]]
      | piece :: pieces => (b :: piece) :: pieces

/-- `u32::from_be_bytes` of the bytes at `i`. -/
def u32be (data : Bytes) (i : Nat) : Reading UInt32 := do
  let b₀ ← index data i
  let i₁ ← addUsize i 1
  let b₁ ← index data i₁
  let i₂ ← addUsize i 2
  let b₂ ← index data i₂
  let i₃ ← addUsize i 3
  let b₃ ← index data i₃
  pure (UInt32.ofNat (ofBigEndian [b₀, b₁, b₂, b₃]))

def parseIndex (data : Bytes) : Reading ParsedIndex := do
  require (¬ data.length < 4) "the symbol index is shorter than its own count field"
  let count ← u32be data 0
  let offsets ← mulUsize 4 count.toNat
  let offsetsEnd ← addUsize 4 offsets
  require (¬ data.length < offsetsEnd)
    s!"the symbol index claims {count} symbols but is only {data.length} bytes"
  let behind ← range data offsetsEnd data.length
  let names := splitZero behind
  let entries ← each (fun i => do
    let before ← mulUsize 4 i
    let pos ← addUsize 4 before
    let offset ← u32be data pos
    let name ← demand names[i]? s!"the symbol index has no name for entry {i}"
    pure (fromUtf8Lossy name, offset)) (List.range count.toNat)
  pure ⟨entries⟩

/-- The locals of the loop of `parse`. -/
structure Parsing where
  /-- `at`. -/
  pos : Nat
  members : List ParsedMember
  index : Option ParsedIndex
  longNames : Bytes

def memberName (longNames : Bytes) (rawName : String) : Reading String :=
  match rawName.toList with
  | '/' :: offset => do
    let start ← demand (parseUsize (String.ofList offset)) s!"bad long-name reference '{rawName}'"
    let text := (fromUtf8Lossy longNames).toList
    pure (String.ofList (((getFrom start text).map fun s => s.takeWhile fun c => c != '/').getD []))
  | cs => pure (String.ofList (cs.rdropWhile fun c => c == '/'))

/-- The match of `parse`. -/
def takeMember (p : Parsing) (rawName : String) (data : Bytes) : Reading Parsing :=
  if rawName = "/" then do
    let index ← parseIndex data
    pure { p with index := some index }
  else if rawName = "//" then pure { p with longNames := data }
  else do
    let name ← memberName p.longNames rawName
    pure { p with members := p.members ++ [⟨name, p.pos, data⟩] }

/-- One round of the loop of `parse`. -/
def parseRound (bytes : Bytes) (p : Parsing) : Reading (Parsing ⊕ (List ParsedMember × Option ParsedIndex)) := do
  let start ← addUsize p.pos memberHeaderSize
  if start ≤ bytes.length then do
    let header ← range bytes p.pos start
    let terminator ← range header 58 60
    require (terminator = headerTerminator) s!"member header at {p.pos} does not end with '`\\n'"
    let name ← range header 0 16
    let rawName := trimEnd (fromUtf8Lossy name)
    let sizeField ← range header 48 58
    let size ← demand (parseUsize (trim (fromUtf8Lossy sizeField)))
      s!"member at {p.pos} has an unreadable size field"
    let stop ← demand ((checkedAdd start size).filter fun e => e ≤ bytes.length)
      s!"member at {p.pos} claims {size} bytes, past the end"
    let data ← range bytes start stop
    let p ← takeMember p rawName data
    let next ← addUsize stop (stop % 2)
    pure (.inl { p with pos := next })
  else pure (.inr (p.members, p.index))

/-- The condition that `parse` begins with. -/
def hasMagic (bytes : Bytes) : Reading Bool :=
  if bytes.length < 8 then pure false
  else do
    let magic ← range bytes 0 8
    pure (magic = archiveMagic.val)

def parse (bytes : Bytes) : Reading (List ParsedMember × Option ParsedIndex) := do
  let ok ← hasMagic bytes
  require (ok = true) "not an archive: the file does not start with !<arch>\\n"
  rounds (parseRound bytes) (bytes.length + 1) ⟨8, [], none, []⟩

end BuildYourOwn.Link.Archive
