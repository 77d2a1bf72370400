import Mathlib.Algebra.Ring.Int.Defs
import BuildYourOwn.Lib.Encoding

/-!
# The lab's WebAssembly disassembler

Model of `readUleb`, `readSleb`, the opcode tables and `disassemble` of `site/src/lib/lab/wasm.ts`. The
bytes are an array over all of its buffer.

A number that a double holds is an `Int`, rounded where a sum may not fit (`double`). How such a number of
2^53 or more and a float are printed is left to `NumberText`. An exception is the text of its
`Error`, or the kind of what the language throws.
-/

namespace BuildYourOwn.Lab.Wasm

open Lib

abbrev Bytes := List UInt8

inductive Thrown where
  | error (message : String)
  | typeError
  | rangeError
deriving DecidableEq

/-- `String` of a number that is no integer below 2^53. -/
class NumberText where
  float32 (bits : UInt32) : String
  float64 (bits : UInt64) : String
  large (n : Int) : String

def double (n : Int) : Int :=
  if n.natAbs < 2 ^ 53 then n
  else
    let e := n.natAbs.log2 - 52
    let q := n.natAbs / 2 ^ e
    let r := n.natAbs % 2 ^ e
    let up := 2 ^ e < 2 * r ∨ (2 ^ e = 2 * r ∧ q % 2 = 1)
    n.sign * ((if up then q + 1 else q) * 2 ^ e : Nat)

def numberText [NumberText] (n : Int) : String :=
  if n.natAbs < 2 ^ 53 then toString n else NumberText.large n

/-! ## LEB128 -/

structure Leb where
  value : Int
  size : Nat
deriving DecidableEq

/-- The loop of `readUleb`, at most so many rounds of it; the sixth is the last that ends without a throw. -/
def readUlebRounds (bytes : Bytes) (offset : Nat) : Nat → Nat → Nat → Nat → Except Thrown Leb
  | 0, _, _, _ => .error (.error s!"LEB128 at {offset} is longer than a u32 can be")
  | n + 1, value, shift, size =>
    match bytes[offset + size]? with
    | none => .error (.error s!"LEB128 at {offset} runs past the end")
    | some b =>
      let value := value + b.toNat % 128 * 2 ^ shift
      let size := size + 1
      if b.toNat < 128 then .ok ⟨value, size⟩
      else
        let shift := shift + 7
        if 35 < shift then .error (.error s!"LEB128 at {offset} is longer than a u32 can be")
        else readUlebRounds bytes offset n value shift size

def readUleb (bytes : Bytes) (offset : Nat) : Except Thrown Leb := readUlebRounds bytes offset 6 0 0 0

/-- The loop of `readSleb`; the eleventh round is the last that ends without a throw. -/
def readSlebRounds (bytes : Bytes) (offset : Nat) : Nat → Int → Nat → Nat → Except Thrown Leb
  | 0, _, _, _ => .error (.error s!"signed LEB128 at {offset} is too long")
  | n + 1, value, shift, size =>
    match bytes[offset + size]? with
    | none => .error (.error s!"signed LEB128 at {offset} runs past the end")
    | some byte =>
      let value := double (value + byte.toNat % 128 * 2 ^ shift)
      let shift := shift + 7
      let size := size + 1
      if byte.toNat < 128 then
        .ok ⟨if 64 ≤ byte.toNat % 128 ∧ shift < 64 then double (value - 2 ^ shift) else value, size⟩
      else if 70 < shift then .error (.error s!"signed LEB128 at {offset} is too long")
      else readSlebRounds bytes offset n value shift size

def readSleb (bytes : Bytes) (offset : Nat) : Except Thrown Leb := readSlebRounds bytes offset 11 0 0 0

/-! ## The tables -/

def valtypes (b : UInt8) : Option String :=
  if b = 0x7f then some "i32"
  else if b = 0x7e then some "i64"
  else if b = 0x7d then some "f32"
  else if b = 0x7c then some "f64"
  else if b = 0x7b then some "v128"
  else if b = 0x70 then some "funcref"
  else if b = 0x6f then some "externref"
  else none

/-- Immediate shapes. -/
inductive Imm where
  | none
  | u32
  | u32u32
  | i32
  | i64
  | f32
  | f64
  | memarg
  | blocktype
  | brtable
  | byte
  | reftype
  | selectt
deriving DecidableEq

def numericOps : List String :=
  ["i32.eqz", "i32.eq", "i32.ne", "i32.lt_s", "i32.lt_u", "i32.gt_s", "i32.gt_u", "i32.le_s",
    "i32.le_u", "i32.ge_s", "i32.ge_u", "i64.eqz", "i64.eq", "i64.ne", "i64.lt_s", "i64.lt_u",
    "i64.gt_s", "i64.gt_u", "i64.le_s", "i64.le_u", "i64.ge_s", "i64.ge_u", "f32.eq", "f32.ne",
    "f32.lt", "f32.gt", "f32.le", "f32.ge", "f64.eq", "f64.ne", "f64.lt", "f64.gt", "f64.le",
    "f64.ge", "i32.clz", "i32.ctz", "i32.popcnt", "i32.add", "i32.sub", "i32.mul", "i32.div_s",
    "i32.div_u", "i32.rem_s", "i32.rem_u", "i32.and", "i32.or", "i32.xor", "i32.shl", "i32.shr_s",
    "i32.shr_u", "i32.rotl", "i32.rotr", "i64.clz", "i64.ctz", "i64.popcnt", "i64.add", "i64.sub",
    "i64.mul", "i64.div_s", "i64.div_u", "i64.rem_s", "i64.rem_u", "i64.and", "i64.or", "i64.xor",
    "i64.shl", "i64.shr_s", "i64.shr_u", "i64.rotl", "i64.rotr", "f32.abs", "f32.neg", "f32.ceil",
    "f32.floor", "f32.trunc", "f32.nearest", "f32.sqrt", "f32.add", "f32.sub", "f32.mul", "f32.div",
    "f32.min", "f32.max", "f32.copysign", "f64.abs", "f64.neg", "f64.ceil", "f64.floor",
    "f64.trunc", "f64.nearest", "f64.sqrt", "f64.add", "f64.sub", "f64.mul", "f64.div", "f64.min",
    "f64.max", "f64.copysign", "i32.wrap_i64", "i32.trunc_f32_s", "i32.trunc_f32_u",
    "i32.trunc_f64_s", "i32.trunc_f64_u", "i64.extend_i32_s", "i64.extend_i32_u", "i64.trunc_f32_s",
    "i64.trunc_f32_u", "i64.trunc_f64_s", "i64.trunc_f64_u", "f32.convert_i32_s",
    "f32.convert_i32_u", "f32.convert_i64_s", "f32.convert_i64_u", "f32.demote_f64",
    "f64.convert_i32_s", "f64.convert_i32_u", "f64.convert_i64_s", "f64.convert_i64_u",
    "f64.promote_f32", "i32.reinterpret_f32", "i64.reinterpret_f64", "f32.reinterpret_i32",
    "f64.reinterpret_i64", "i32.extend8_s", "i32.extend16_s", "i64.extend8_s", "i64.extend16_s",
    "i64.extend32_s"]

def memoryOps : List String :=
  ["i32.load", "i64.load", "f32.load", "f64.load", "i32.load8_s", "i32.load8_u", "i32.load16_s",
    "i32.load16_u", "i64.load8_s", "i64.load8_u", "i64.load16_s", "i64.load16_u", "i64.load32_s",
    "i64.load32_u", "i32.store", "i64.store", "f32.store", "f64.store", "i32.store8", "i32.store16",
    "i64.store8", "i64.store16", "i64.store32"]

/-- The entries of `OPCODES` that are written out. -/
def writtenOpcodes : List (Nat × String × Imm) :=
  [(0x00, "unreachable", .none), (0x01, "nop", .none), (0x02, "block", .blocktype),
    (0x03, "loop", .blocktype), (0x04, "if", .blocktype), (0x05, "else", .none),
    (0x0b, "end", .none), (0x0c, "br", .u32), (0x0d, "br_if", .u32), (0x0e, "br_table", .brtable),
    (0x0f, "return", .none), (0x10, "call", .u32), (0x11, "call_indirect", .u32u32),
    (0x1a, "drop", .none), (0x1b, "select", .none), (0x1c, "select", .selectt),
    (0x20, "local.get", .u32), (0x21, "local.set", .u32), (0x22, "local.tee", .u32),
    (0x23, "global.get", .u32), (0x24, "global.set", .u32), (0x25, "table.get", .u32),
    (0x26, "table.set", .u32), (0x3f, "memory.size", .byte), (0x40, "memory.grow", .byte),
    (0x41, "i32.const", .i32), (0x42, "i64.const", .i64), (0x43, "f32.const", .f32),
    (0x44, "f64.const", .f64), (0xd0, "ref.null", .reftype), (0xd1, "ref.is_null", .none),
    (0xd2, "ref.func", .u32)]

/-- `OPCODES`: the names of the two lists are put in by position. -/
def opcodes : List (Nat × String × Imm) :=
  writtenOpcodes ++ memoryOps.zipIdx.map (fun n => (0x28 + n.2, n.1, .memarg)) ++
    numericOps.zipIdx.map fun n => (0x45 + n.2, n.1, .none)

def fcOps : List (Nat × String × Imm) :=
  [(0, "i32.trunc_sat_f32_s", .none), (1, "i32.trunc_sat_f32_u", .none),
    (2, "i32.trunc_sat_f64_s", .none), (3, "i32.trunc_sat_f64_u", .none),
    (4, "i64.trunc_sat_f32_s", .none), (5, "i64.trunc_sat_f32_u", .none),
    (6, "i64.trunc_sat_f64_s", .none), (7, "i64.trunc_sat_f64_u", .none),
    (8, "memory.init", .u32u32), (9, "data.drop", .u32), (10, "memory.copy", .u32u32),
    (11, "memory.fill", .byte), (12, "table.init", .u32u32), (13, "elem.drop", .u32),
    (14, "table.copy", .u32u32), (15, "table.grow", .u32), (16, "table.size", .u32),
    (17, "table.fill", .u32)]

def entryOf (table : List (Nat × String × Imm)) (key : Int) : Option (String × Imm) :=
  (table.reverse.find? fun e => (e.1 : Int) = key).map Prod.snd

/-! ## Disassembling -/

structure WasmInstruction where
  offset : Nat
  stop : Nat
  name : String
  args : String
  depth : Int
deriving DecidableEq

/-- `toString(16).padStart(w, '0')`. -/
def hexDigits (w n : Nat) : String := String.ofList (List.leftpad w '0' (Nat.toDigits 16 n))

/-- What is printed of a type byte; one past the end is `undefined`, which has no `toString`. -/
def typeText : Option UInt8 → Except Thrown String
  | none => .error .typeError
  | some b => .ok ((valtypes b).getD s!"0x{hexDigits 0 b.toNat}")

/-- The little-endian bytes of a `DataView` at this place. -/
def view (bytes : Bytes) (offset w : Nat) : Except Thrown Nat :=
  if offset + w ≤ bytes.length then .ok (ofBigEndian ((bytes.drop offset).take w).reverse)
  else .error .rangeError

def printed [NumberText] (read : Bytes → Nat → Except Thrown Leb) (bytes : Bytes) (offset : Nat) :
    Except Thrown (String × Nat) := do
  let v ← read bytes offset
  pure (numberText v.value, offset + v.size)

/-- The loop over the targets of a `br_table`. -/
def targets [NumberText] (bytes : Bytes) : Nat → Nat → Except Thrown (List String × Nat)
  | 0, offset => .ok ([], offset)
  | n + 1, offset => do
    let (text, offset) ← printed readUleb bytes offset
    let (rest, offset) ← targets bytes n offset
    pure (text :: rest, offset)

/-- The loop over the types of a typed `select`. -/
def selected (bytes : Bytes) : Nat → Nat → Except Thrown (List String × Nat)
  | 0, offset => .ok ([], offset)
  | n + 1, offset => do
    let text ← typeText bytes[offset]?
    let (rest, offset) ← selected bytes n (offset + 1)
    pure (text :: rest, offset)

section variable [NumberText]

/-- `case 'blocktype'`. -/
def blockType (bytes : Bytes) (offset : Nat) : Except Thrown (List String × Nat) :=
  if bytes[offset]? = some 0x40 then .ok (["(empty)"], offset + 1)
  else
    match bytes[offset]?.bind valtypes with
    | some name => .ok ([s!"-> {name}"], offset + 1)
    | none => do
      let (text, offset) ← printed readSleb bytes offset
      pure ([s!"type {text}"], offset)

/-- The `switch` over the immediates: the arguments and where they end. -/
def immediates (bytes : Bytes) (offset : Nat) : Imm → Except Thrown (List String × Nat)
  | .none => .ok ([], offset)
  | .u32 => do
    let (text, offset) ← printed readUleb bytes offset
    pure ([text], offset)
  | .u32u32 => do
    let (a, offset) ← printed readUleb bytes offset
    let (b, offset) ← printed readUleb bytes offset
    pure ([a, b], offset)
  | .memarg => do
    let (align, offset) ← printed readUleb bytes offset
    let (off, offset) ← printed readUleb bytes offset
    pure ([s!"align=2^{align}", s!"offset={off}"], offset)
  | .i32 | .i64 => do
    let (text, offset) ← printed readSleb bytes offset
    pure ([text], offset)
  | .f32 => do
    let bits ← view bytes offset 4
    pure ([NumberText.float32 (.ofNat bits)], offset + 4)
  | .f64 => do
    let bits ← view bytes offset 8
    pure ([NumberText.float64 (.ofNat bits)], offset + 8)
  | .blocktype => blockType bytes offset
  | .brtable => do
    let count ← readUleb bytes offset
    let (texts, offset) ← targets bytes count.value.toNat (offset + count.size)
    let (default, offset) ← printed readUleb bytes offset
    pure (["[" ++ " ".intercalate texts ++ "]", s!"default {default}"], offset)
  | .byte => .ok ([], offset + 1)
  | .reftype => do
    let text ← typeText bytes[offset]?
    pure ([text], offset + 1)
  | .selectt => do
    let count ← readUleb bytes offset
    selected bytes count.value.toNat (offset + count.size)

def opcode (bytes : Bytes) (offset : Nat) : Except Thrown (String × Imm × Nat) :=
  match bytes[offset]? with
  | none => .error .typeError
  | some op =>
    if op = 0xfc then do
      let sub ← readUleb bytes (offset + 1)
      let entry := (entryOf fcOps sub.value).getD (s!"0xfc {numberText sub.value}", .none)
      pure (entry.1, entry.2, offset + 1 + sub.size)
    else
      let entry := (entryOf opcodes op.toNat).getD (s!"0x{hexDigits 2 op.toNat}", .none)
      .ok (entry.1, entry.2, offset + 1)

def instruction (bytes : Bytes) (at_ : Nat) (depth : Int) : Except Thrown (WasmInstruction × Int) := do
  let (name, imm, offset) ← opcode bytes at_
  let (args, offset) ← immediates bytes offset imm
  let after := if name = "end" then depth - 1 else depth
  let render :=
    if name = "end" then max 0 after else if name = "else" then max 0 (depth - 1) else depth
  let entry : WasmInstruction := ⟨at_, offset, name, " ".intercalate args, render⟩
  pure (entry, if name = "block" ∨ name = "loop" ∨ name = "if" then after + 1 else after)

end

end BuildYourOwn.Lab.Wasm
