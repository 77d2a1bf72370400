import BuildYourOwn.Lib.Encoding
import BuildYourOwn.Lib.Leb128

/-!
# The instruction builder of the WebAssembly suite

Model of `wasmtest/src/wasm/instr.rs`, and of the LEB128 and value types of `wasmtest/src/wasm/encode.rs`:
every builder but those of the vector instructions. An `Expr` is its bytes; the text it carries for
annotations, which nothing here reads, is left out. A float is its bits.

Methods that differ in an opcode only are `index`, `index2`, `mem` and `structured`, applied to it.
-/

namespace BuildYourOwn.Wasm

open Lib

abbrev Bytes := List UInt8

/-! ## LEB128 and value types -/

/-- `uleb`, of a `u64`. -/
def uleb (v : Nat) : Bytes := unsignedGroups 10 v

/-- `sleb`, of an `i64`. -/
def sleb (v : Int) : Bytes := signedGroups 10 v

inductive ValType where
  | i32
  | i64
  | f32
  | f64
  | funcRef
  | externRef
  | v128
deriving DecidableEq

def ValType.code : ValType → UInt8
  | .i32 => 0x7f
  | .i64 => 0x7e
  | .f32 => 0x7d
  | .f64 => 0x7c
  | .funcRef => 0x70
  | .externRef => 0x6f
  | .v128 => 0x7b

def ValType.name : ValType → String
  | .i32 => "i32"
  | .i64 => "i64"
  | .f32 => "f32"
  | .f64 => "f64"
  | .funcRef => "funcref"
  | .externRef => "externref"
  | .v128 => "v128"

inductive BlockType where
  | empty
  | value (t : ValType)
  | type (i : UInt32)
deriving DecidableEq

def BlockType.encode : BlockType → Bytes
  | .empty => [0x40]
  | .value t => [t.code]
  | .type i => sleb i.toNat

/-! ## Opcodes -/

/-- A single-byte opcode and its mnemonic. -/
structure Op where
  code : UInt8
  name : String
deriving DecidableEq

/-- A `0xfc`-prefixed opcode and its mnemonic. -/
structure Op2 where
  code : UInt32
  name : String
deriving DecidableEq

namespace op

def unreachable : Op := ⟨0x00, "unreachable"⟩
def nop : Op := ⟨0x01, "nop"⟩
def else_ : Op := ⟨0x05, "else"⟩
def end_ : Op := ⟨0x0b, "end"⟩
def return_ : Op := ⟨0x0f, "return"⟩
def drop : Op := ⟨0x1a, "drop"⟩
def select : Op := ⟨0x1b, "select"⟩

/-- The loads and stores. -/
def memory : List Op :=
  [⟨0x28, "i32.load"⟩, ⟨0x29, "i64.load"⟩, ⟨0x2a, "f32.load"⟩, ⟨0x2b, "f64.load"⟩,
    ⟨0x2c, "i32.load8_s"⟩, ⟨0x2d, "i32.load8_u"⟩, ⟨0x2e, "i32.load16_s"⟩, ⟨0x2f, "i32.load16_u"⟩,
    ⟨0x30, "i64.load8_s"⟩, ⟨0x31, "i64.load8_u"⟩, ⟨0x32, "i64.load16_s"⟩, ⟨0x33, "i64.load16_u"⟩,
    ⟨0x34, "i64.load32_s"⟩, ⟨0x35, "i64.load32_u"⟩, ⟨0x36, "i32.store"⟩, ⟨0x37, "i64.store"⟩,
    ⟨0x38, "f32.store"⟩, ⟨0x39, "f64.store"⟩, ⟨0x3a, "i32.store8"⟩, ⟨0x3b, "i32.store16"⟩,
    ⟨0x3c, "i64.store8"⟩, ⟨0x3d, "i64.store16"⟩, ⟨0x3e, "i64.store32"⟩]

/-- The comparisons, the arithmetic, the conversions and the sign extensions. -/
def numeric : List Op :=
  [⟨0x45, "i32.eqz"⟩, ⟨0x46, "i32.eq"⟩, ⟨0x47, "i32.ne"⟩, ⟨0x48, "i32.lt_s"⟩, ⟨0x49, "i32.lt_u"⟩,
    ⟨0x4a, "i32.gt_s"⟩, ⟨0x4b, "i32.gt_u"⟩, ⟨0x4c, "i32.le_s"⟩, ⟨0x4d, "i32.le_u"⟩,
    ⟨0x4e, "i32.ge_s"⟩, ⟨0x4f, "i32.ge_u"⟩, ⟨0x50, "i64.eqz"⟩, ⟨0x51, "i64.eq"⟩, ⟨0x52, "i64.ne"⟩,
    ⟨0x53, "i64.lt_s"⟩, ⟨0x54, "i64.lt_u"⟩, ⟨0x55, "i64.gt_s"⟩, ⟨0x56, "i64.gt_u"⟩,
    ⟨0x57, "i64.le_s"⟩, ⟨0x58, "i64.le_u"⟩, ⟨0x59, "i64.ge_s"⟩, ⟨0x5a, "i64.ge_u"⟩,
    ⟨0x5b, "f32.eq"⟩, ⟨0x5c, "f32.ne"⟩, ⟨0x5d, "f32.lt"⟩, ⟨0x5e, "f32.gt"⟩, ⟨0x5f, "f32.le"⟩,
    ⟨0x60, "f32.ge"⟩, ⟨0x61, "f64.eq"⟩, ⟨0x62, "f64.ne"⟩, ⟨0x63, "f64.lt"⟩, ⟨0x64, "f64.gt"⟩,
    ⟨0x65, "f64.le"⟩, ⟨0x66, "f64.ge"⟩, ⟨0x67, "i32.clz"⟩, ⟨0x68, "i32.ctz"⟩, ⟨0x69, "i32.popcnt"⟩,
    ⟨0x6a, "i32.add"⟩, ⟨0x6b, "i32.sub"⟩, ⟨0x6c, "i32.mul"⟩, ⟨0x6d, "i32.div_s"⟩,
    ⟨0x6e, "i32.div_u"⟩, ⟨0x6f, "i32.rem_s"⟩, ⟨0x70, "i32.rem_u"⟩, ⟨0x71, "i32.and"⟩,
    ⟨0x72, "i32.or"⟩, ⟨0x73, "i32.xor"⟩, ⟨0x74, "i32.shl"⟩, ⟨0x75, "i32.shr_s"⟩,
    ⟨0x76, "i32.shr_u"⟩, ⟨0x77, "i32.rotl"⟩, ⟨0x78, "i32.rotr"⟩, ⟨0x79, "i64.clz"⟩,
    ⟨0x7a, "i64.ctz"⟩, ⟨0x7b, "i64.popcnt"⟩, ⟨0x7c, "i64.add"⟩, ⟨0x7d, "i64.sub"⟩,
    ⟨0x7e, "i64.mul"⟩, ⟨0x7f, "i64.div_s"⟩, ⟨0x80, "i64.div_u"⟩, ⟨0x81, "i64.rem_s"⟩,
    ⟨0x82, "i64.rem_u"⟩, ⟨0x83, "i64.and"⟩, ⟨0x84, "i64.or"⟩, ⟨0x85, "i64.xor"⟩, ⟨0x86, "i64.shl"⟩,
    ⟨0x87, "i64.shr_s"⟩, ⟨0x88, "i64.shr_u"⟩, ⟨0x89, "i64.rotl"⟩, ⟨0x8a, "i64.rotr"⟩,
    ⟨0x8b, "f32.abs"⟩, ⟨0x8c, "f32.neg"⟩, ⟨0x8d, "f32.ceil"⟩, ⟨0x8e, "f32.floor"⟩,
    ⟨0x8f, "f32.trunc"⟩, ⟨0x90, "f32.nearest"⟩, ⟨0x91, "f32.sqrt"⟩, ⟨0x92, "f32.add"⟩,
    ⟨0x93, "f32.sub"⟩, ⟨0x94, "f32.mul"⟩, ⟨0x95, "f32.div"⟩, ⟨0x96, "f32.min"⟩, ⟨0x97, "f32.max"⟩,
    ⟨0x98, "f32.copysign"⟩, ⟨0x99, "f64.abs"⟩, ⟨0x9a, "f64.neg"⟩, ⟨0x9b, "f64.ceil"⟩,
    ⟨0x9c, "f64.floor"⟩, ⟨0x9d, "f64.trunc"⟩, ⟨0x9e, "f64.nearest"⟩, ⟨0x9f, "f64.sqrt"⟩,
    ⟨0xa0, "f64.add"⟩, ⟨0xa1, "f64.sub"⟩, ⟨0xa2, "f64.mul"⟩, ⟨0xa3, "f64.div"⟩, ⟨0xa4, "f64.min"⟩,
    ⟨0xa5, "f64.max"⟩, ⟨0xa6, "f64.copysign"⟩, ⟨0xa7, "i32.wrap_i64"⟩, ⟨0xa8, "i32.trunc_f32_s"⟩,
    ⟨0xa9, "i32.trunc_f32_u"⟩, ⟨0xaa, "i32.trunc_f64_s"⟩, ⟨0xab, "i32.trunc_f64_u"⟩,
    ⟨0xac, "i64.extend_i32_s"⟩, ⟨0xad, "i64.extend_i32_u"⟩, ⟨0xae, "i64.trunc_f32_s"⟩,
    ⟨0xaf, "i64.trunc_f32_u"⟩, ⟨0xb0, "i64.trunc_f64_s"⟩, ⟨0xb1, "i64.trunc_f64_u"⟩,
    ⟨0xb2, "f32.convert_i32_s"⟩, ⟨0xb3, "f32.convert_i32_u"⟩, ⟨0xb4, "f32.convert_i64_s"⟩,
    ⟨0xb5, "f32.convert_i64_u"⟩, ⟨0xb6, "f32.demote_f64"⟩, ⟨0xb7, "f64.convert_i32_s"⟩,
    ⟨0xb8, "f64.convert_i32_u"⟩, ⟨0xb9, "f64.convert_i64_s"⟩, ⟨0xba, "f64.convert_i64_u"⟩,
    ⟨0xbb, "f64.promote_f32"⟩, ⟨0xbc, "i32.reinterpret_f32"⟩, ⟨0xbd, "i64.reinterpret_f64"⟩,
    ⟨0xbe, "f32.reinterpret_i32"⟩, ⟨0xbf, "f64.reinterpret_i64"⟩, ⟨0xc0, "i32.extend8_s"⟩,
    ⟨0xc1, "i32.extend16_s"⟩, ⟨0xc2, "i64.extend8_s"⟩, ⟨0xc3, "i64.extend16_s"⟩,
    ⟨0xc4, "i64.extend32_s"⟩]

/-- Every opcode that is an instruction of one byte. -/
def plain : List Op := [unreachable, nop, return_, drop, select] ++ numeric

end op

/-- `op2`: the saturating truncations. -/
def op2.truncations : List Op2 :=
  [⟨0, "i32.trunc_sat_f32_s"⟩, ⟨1, "i32.trunc_sat_f32_u"⟩, ⟨2, "i32.trunc_sat_f64_s"⟩,
    ⟨3, "i32.trunc_sat_f64_u"⟩, ⟨4, "i64.trunc_sat_f32_s"⟩, ⟨5, "i64.trunc_sat_f32_u"⟩,
    ⟨6, "i64.trunc_sat_f64_s"⟩, ⟨7, "i64.trunc_sat_f64_u"⟩]

/-! ## Expressions -/

structure Expr where
  bytes : Bytes
deriving DecidableEq

namespace Expr

def new : Expr := ⟨[]⟩

def push (e : Expr) (bytes : Bytes) : Expr := ⟨e.bytes ++ bytes⟩

/-- `then`. -/
def then_ (e other : Expr) : Expr := e.push other.bytes

/-- `repeat`. -/
def repeat_ (e : Expr) (n : Nat) (other : Expr) : Expr :=
  e.push (List.replicate n other.bytes).flatten

/-! ### Constants -/

def i32Const (e : Expr) (v : Int32) : Expr := e.push (0x41 :: sleb v.toInt)

def i64Const (e : Expr) (v : Int64) : Expr := e.push (0x42 :: sleb v.toInt)

def f32Bits (e : Expr) (bits : UInt32) : Expr := e.push (0x43 :: littleEndian 4 bits.toNat)

def f32Const (e : Expr) (v : UInt32) : Expr := e.f32Bits v

def f64Bits (e : Expr) (bits : UInt64) : Expr := e.push (0x44 :: littleEndian 8 bits.toNat)

def f64Const (e : Expr) (v : UInt64) : Expr := e.f64Bits v

/-! ### Locals, globals, plain opcodes -/

def index (e : Expr) (opcode : UInt8) (n : UInt32) : Expr := e.push (opcode :: uleb n.toNat)

def localGet (e : Expr) (n : UInt32) : Expr := e.index 0x20 n

def localSet (e : Expr) (n : UInt32) : Expr := e.index 0x21 n

def localTee (e : Expr) (n : UInt32) : Expr := e.index 0x22 n

def globalGet (e : Expr) (n : UInt32) : Expr := e.index 0x23 n

def globalSet (e : Expr) (n : UInt32) : Expr := e.index 0x24 n

def op (e : Expr) (o : Op) : Expr := e.push [o.code]

def op2 (e : Expr) (o : Op2) : Expr := e.push (0xfc :: uleb o.code.toNat)

def nop (e : Expr) : Expr := e.op op.nop

def drop (e : Expr) : Expr := e.op op.drop

def unreachable (e : Expr) : Expr := e.op op.unreachable

def return_ (e : Expr) : Expr := e.op op.return_

def select (e : Expr) : Expr := e.op op.select

def selectTyped (e : Expr) (types : List ValType) : Expr :=
  e.push (0x1c :: uleb types.length ++ types.map ValType.code)

/-! ### Control flow -/

def structured (e : Expr) (opcode : UInt8) (bt : BlockType) (body : Bytes) : Expr :=
  e.push (opcode :: bt.encode ++ body ++ [0x0b])

def block (e : Expr) (bt : BlockType) (body : Expr) : Expr := e.structured 0x02 bt body.bytes

def loop (e : Expr) (bt : BlockType) (body : Expr) : Expr := e.structured 0x03 bt body.bytes

/-- `if_`. -/
def if_ (e : Expr) (bt : BlockType) (then_ : Expr) : Expr := e.structured 0x04 bt then_.bytes

def ifElse (e : Expr) (bt : BlockType) (then_ otherwise : Expr) : Expr :=
  e.structured 0x04 bt (then_.bytes ++ [0x05] ++ otherwise.bytes)

def br (e : Expr) (label : UInt32) : Expr := e.index 0x0c label

def brIf (e : Expr) (label : UInt32) : Expr := e.index 0x0d label

def brTable (e : Expr) (labels : List UInt32) (default : UInt32) : Expr :=
  e.push (0x0e :: uleb labels.length ++ labels.flatMap (fun l => uleb l.toNat) ++ uleb default.toNat)

def call (e : Expr) (n : UInt32) : Expr := e.index 0x10 n

def callIndirect (e : Expr) (ty table : UInt32) : Expr :=
  e.push (0x11 :: uleb ty.toNat ++ uleb table.toNat)

/-! ### Memory -/

def mem (e : Expr) (o : Op) (align offset : UInt32) : Expr :=
  e.push (o.code :: uleb align.toNat ++ uleb offset.toNat)

def i32Load (e : Expr) (offset : UInt32) : Expr := e.mem ⟨0x28, "i32.load"⟩ 2 offset

def i32Store (e : Expr) (offset : UInt32) : Expr := e.mem ⟨0x36, "i32.store"⟩ 2 offset

def i64Load (e : Expr) (offset : UInt32) : Expr := e.mem ⟨0x29, "i64.load"⟩ 3 offset

def i64Store (e : Expr) (offset : UInt32) : Expr := e.mem ⟨0x37, "i64.store"⟩ 3 offset

def memorySize (e : Expr) : Expr := e.push [0x3f, 0x00]

def memoryGrow (e : Expr) : Expr := e.push [0x40, 0x00]

def memoryInit (e : Expr) (seg : UInt32) : Expr := e.push (0xfc :: uleb 8 ++ uleb seg.toNat ++ [0x00])

def memoryCopy (e : Expr) : Expr := e.push (0xfc :: uleb 10 ++ [0x00, 0x00])

def memoryFill (e : Expr) : Expr := e.push (0xfc :: uleb 11 ++ [0x00])

/-! ### Tables and references -/

/-- A `0xfc`-prefixed opcode and an index. -/
def index2 (e : Expr) (opcode : Nat) (n : UInt32) : Expr := e.push (0xfc :: uleb opcode ++ uleb n.toNat)

def dataDrop (e : Expr) (seg : UInt32) : Expr := e.index2 9 seg

def tableGet (e : Expr) (table : UInt32) : Expr := e.index 0x25 table

def tableSet (e : Expr) (table : UInt32) : Expr := e.index 0x26 table

def tableSize (e : Expr) (table : UInt32) : Expr := e.index2 16 table

def tableGrow (e : Expr) (table : UInt32) : Expr := e.index2 15 table

def tableFill (e : Expr) (table : UInt32) : Expr := e.index2 17 table

def tableCopy (e : Expr) (dst src : UInt32) : Expr :=
  e.push (0xfc :: uleb 14 ++ uleb dst.toNat ++ uleb src.toNat)

def tableInit (e : Expr) (seg table : UInt32) : Expr :=
  e.push (0xfc :: uleb 12 ++ uleb seg.toNat ++ uleb table.toNat)

def elemDrop (e : Expr) (seg : UInt32) : Expr := e.index2 13 seg

def refNull (e : Expr) (t : ValType) : Expr := e.push [0xd0, t.code]

def refIsNull (e : Expr) : Expr := e.push [0xd1]

def refFunc (e : Expr) (n : UInt32) : Expr := e.index 0xd2 n

end Expr

end BuildYourOwn.Wasm
