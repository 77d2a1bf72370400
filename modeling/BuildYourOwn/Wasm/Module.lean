import BuildYourOwn.Lib.Utf8
import BuildYourOwn.Wasm.Instr

/-!
# The module builder of the WebAssembly suite

Model of `wasmtest/src/wasm/encode.rs`: `Enc`, the contents of a `ModuleBuilder`, how each item is encoded and
what its annotation says, and `ModuleBuilder::build`.

* The sections that are vectors of items differ in their id, the items, and what is said of an item: they are
  `itemsSection`, applied to these. The code section annotates each item twice and has a loop of its own.
* A function's index is a `u32`: `base + i as u32` wraps, as in a release build.
-/

namespace BuildYourOwn.Wasm

open Lib

def vector (items : List Bytes) : Bytes := uleb items.length ++ items.flatten

def wasmName (s : String) : Bytes := uleb (asBytes s).length ++ asBytes s

/-! ## The sink -/

/-- One annotated region. -/
structure Ann where
  offset : Nat
  length : Nat
  field : String
  value : String
deriving DecidableEq

structure Module where
  bytes : Bytes
  anns : List Ann
  label : String
deriving DecidableEq

/-- A byte sink that records what each region it writes means. -/
structure Enc where
  buf : Bytes
  anns : List Ann

def sectionName : UInt8 → String
  | 0 => "custom section"
  | 1 => "type section"
  | 2 => "import section"
  | 3 => "function section"
  | 4 => "table section"
  | 5 => "memory section"
  | 6 => "global section"
  | 7 => "export section"
  | 8 => "start section"
  | 9 => "element section"
  | 10 => "code section"
  | 11 => "data section"
  | 12 => "data count section"
  | _ => "an id no section uses"

namespace Enc

def new : Enc := ⟨[], []⟩

/-- `at`. -/
def at_ (e : Enc) : Nat := e.buf.length

def raw (e : Enc) (bytes : Bytes) : Enc := { e with buf := e.buf ++ bytes }

def put (e : Enc) (bytes : Bytes) (field value : String) : Enc :=
  ⟨e.buf ++ bytes, e.anns ++ [⟨e.buf.length, bytes.length, field, value⟩]⟩

def annotate (e : Enc) (offset length : Nat) (field value : String) : Enc :=
  { e with anns := e.anns ++ [⟨offset, length, field, value⟩] }

def withHeader : Enc :=
  (new.put [0x00, 0x61, 0x73, 0x6d] "header.magic" "\\0asm").put [1, 0, 0, 0] "header.version"
    "1 (little-endian)"

/-- `section`. -/
def section_ (e : Enc) (id : UInt8) (body : Bytes) : Enc :=
  ((e.put [id] s!"section[{id}].id" (sectionName id)).put (uleb body.length) s!"section[{id}].size"
    s!"{body.length} bytes").raw body

def finish (e : Enc) (label : String) : Module := ⟨e.buf, e.anns, label⟩

end Enc

/-! ## Types -/

def typesText (ts : List ValType) : String := " ".intercalate (ts.map ValType.name)

structure FuncType where
  params : List ValType
  results : List ValType
deriving DecidableEq

def FuncType.text (t : FuncType) : String := s!"({typesText t.params}) -> ({typesText t.results})"

def FuncType.encode (t : FuncType) : Bytes :=
  [0x60] ++ uleb t.params.length ++ t.params.map ValType.code ++ uleb t.results.length ++
    t.results.map ValType.code

structure Limits where
  min : UInt32
  max : Option UInt32
deriving DecidableEq

def Limits.encode (l : Limits) : Bytes :=
  match l.max with
  | none => [0x00] ++ uleb l.min.toNat
  | some m => [0x01] ++ uleb l.min.toNat ++ uleb m.toNat

def Limits.text (l : Limits) : String :=
  match l.max with
  | none => s!"min {l.min}, no max"
  | some m => s!"min {l.min}, max {m}"

structure TableType where
  elem : ValType
  limits : Limits
deriving DecidableEq

def TableType.encode (t : TableType) : Bytes := [t.elem.code] ++ t.limits.encode

/-- `mut` or `const`. -/
def mutText (mutable : Bool) : String := if mutable then "mut" else "const"

def flagByte (b : Bool) : UInt8 := if b then 1 else 0

structure Global where
  ty : ValType
  mutable : Bool
  init : Bytes
  initText : String
deriving DecidableEq

def Global.encode (g : Global) : Bytes := [g.ty.code, flagByte g.mutable] ++ g.init

inductive ImportKind where
  | func (type : UInt32)
  | table (t : TableType)
  | memory (l : Limits)
  | global (ty : ValType) (mutable : Bool)
deriving DecidableEq

structure Import where
  module : String
  name : String
  kind : ImportKind
deriving DecidableEq

inductive ExportKind where
  | func
  | table
  | memory
  | global
deriving DecidableEq

def ExportKind.code : ExportKind → UInt8
  | .func => 0
  | .table => 1
  | .memory => 2
  | .global => 3

def ExportKind.name : ExportKind → String
  | .func => "func"
  | .table => "table"
  | .memory => "memory"
  | .global => "global"

structure Export where
  name : String
  kind : ExportKind
  index : UInt32
deriving DecidableEq

def Export.encode (x : Export) : Bytes := wasmName x.name ++ [x.kind.code] ++ uleb x.index.toNat

structure Func where
  locals : List (UInt32 × ValType)
  body : Bytes
  text : String
deriving DecidableEq

inductive ElemMode where
  | active (table : UInt32) (offset : Bytes)
  | passive
  | declarative
deriving DecidableEq

structure Elem where
  mode : ElemMode
  ty : ValType
  funcs : List UInt32
  exprs : List Bytes
deriving DecidableEq

inductive DataMode where
  | active (memory : UInt32) (offset : Bytes)
  | passive
deriving DecidableEq

structure Data where
  mode : DataMode
  bytes : Bytes
deriving DecidableEq

structure Custom where
  name : String
  payload : Bytes
  after : Option UInt8
deriving DecidableEq

/-- The contents of a `ModuleBuilder`. -/
structure ModuleBuilder where
  label : String
  types : List FuncType
  imports : List Import
  funcs : List UInt32
  tables : List TableType
  memories : List Limits
  globals : List Global
  exports : List Export
  start : Option UInt32
  elems : List Elem
  code : List Func
  data : List Data
  forceDataCount : Bool
  customs : List Custom

namespace ModuleBuilder

def new (label : String) : ModuleBuilder := ⟨label, [], [], [], [], [], [], [], none, [], [], [], false, []⟩

def custom (b : ModuleBuilder) (name : String) (payload : Bytes) (after : Option UInt8) : ModuleBuilder :=
  { b with customs := b.customs ++ [⟨name, payload, after⟩] }

def importedFuncs (b : ModuleBuilder) : UInt32 :=
  UInt32.ofNat (b.imports.countP fun i => i.kind matches .func _)

def needsDataCount (b : ModuleBuilder) : Bool :=
  b.forceDataCount || b.data.any fun d => d.mode matches .passive

def typeText (b : ModuleBuilder) (ty : UInt32) : String :=
  ((b.types[ty.toNat]?).map FuncType.text).getD "(no such type)"

end ModuleBuilder

/-! ## What the items are, in bytes and in words -/

def localsText (locals : List (UInt32 × ValType)) : String :=
  ", ".intercalate (locals.map fun (n, t) => s!"{n}×{t.name}")

def importText (kind : ImportKind) (b : ModuleBuilder) : String :=
  match kind with
  | .func t => s!"func type {t} {b.typeText t}"
  | .table t => s!"table {t.elem.name}, {t.limits.text}"
  | .memory l => s!"memory {l.text}"
  | .global ty mutable => s!"global {mutText mutable} {ty.name}"

def encodeImport (i : Import) : Bytes :=
  wasmName i.module ++ wasmName i.name ++
    match i.kind with
    | .func t => [0x00] ++ uleb t.toNat
    | .table t => [0x01, t.elem.code] ++ t.limits.encode
    | .memory l => [0x02] ++ l.encode
    | .global ty mutable => [0x03, ty.code, flagByte mutable]

/-- `encode_func`, what its size counts. -/
def Func.inner (f : Func) : Bytes :=
  uleb f.locals.length ++ f.locals.flatMap (fun (n, t) => uleb n.toNat ++ [t.code]) ++ f.body

def encodeFunc (f : Func) : Bytes := uleb f.inner.length ++ f.inner

def encodeElem (e : Elem) : Bytes :=
  let funcs := vector (e.funcs.map fun f => uleb f.toNat)
  match e.mode, !e.exprs.isEmpty with
  | .active table offset, false =>
    if table = 0 then [0x00] ++ offset ++ funcs
    else [0x02] ++ uleb table.toNat ++ offset ++ [0x00] ++ funcs
  | .passive, false => [0x01, 0x00] ++ funcs
  | .declarative, false => [0x03, 0x00] ++ funcs
  | .active table offset, true =>
    if table = 0 ∧ e.ty = .funcRef then [0x04] ++ offset ++ vector e.exprs
    else [0x06] ++ uleb table.toNat ++ offset ++ [e.ty.code] ++ vector e.exprs
  | .passive, true => [0x05, e.ty.code] ++ vector e.exprs
  | .declarative, true => [0x07, e.ty.code] ++ vector e.exprs

def elemText (e : Elem) : String :=
  let what :=
    if e.exprs.isEmpty then s!"{e.funcs.length} funcs {e.funcs}"
    else s!"{e.exprs.length} element expressions"
  match e.mode with
  | .active table _ => s!"active into table {table}, {what}"
  | .passive => s!"passive, {what}"
  | .declarative => s!"declarative, {what}"

def encodeData (d : Data) : Bytes :=
  (match d.mode with
    | .active memory offset => if memory = 0 then [0x00] ++ offset else [0x02] ++ uleb memory.toNat ++ offset
    | .passive => [0x01]) ++ uleb d.bytes.length ++ d.bytes

def dataText (d : Data) : String :=
  let preview := String.ofList ((d.bytes.take 16).map fun b =>
    if 0x20 ≤ b ∧ b < 0x7f then Char.ofNat b.toNat else '.')
  match d.mode with
  | .active memory _ => s!"active into memory {memory}, {d.bytes.length} bytes '{preview}'"
  | .passive => s!"passive, {d.bytes.length} bytes '{preview}'"

/-- The text of a function body. -/
def Func.note (f : Func) : String :=
  if f.locals.isEmpty then f.text else s!"locals {localsText f.locals}; {f.text}"

/-! ## `build` -/

/-- The loop over a vector's items, from a position on. -/
def annotateItems {α : Type} (field value : Nat → α → String) : Nat → Nat → List (α × Bytes) → Enc → Enc
  | _, _, [], e => e
  | i, pos, (x, bytes) :: rest, e =>
    annotateItems field value (i + 1) (pos + bytes.length) rest
      (e.annotate pos bytes.length (field i x) (value i x))

/-- The loop over the code section's items. -/
def annotateFuncs (base : UInt32) : Nat → Nat → List (Func × Bytes) → Enc → Enc
  | _, _, [], e => e
  | i, pos, (f, bytes) :: rest, e =>
    let sizeLen := (uleb (bytes.length - (uleb bytes.length).length)).length
    annotateFuncs base (i + 1) (pos + bytes.length) rest
      ((e.annotate pos sizeLen s!"code[{base + UInt32.ofNat i}].size" s!"{bytes.length - sizeLen} bytes").annotate
        (pos + sizeLen) (bytes.length - sizeLen) s!"code[{base + UInt32.ofNat i}].body" f.note)

def vectorSection {α : Type} (id : UInt8) (xs : List α) (encode : α → Bytes)
    (annotate : Nat → Nat → List (α × Bytes) → Enc → Enc) (e : Enc) : Enc :=
  if xs.isEmpty then e
  else
    let items := xs.map encode
    let body := vector items
    let pos := e.at_ + 1 + (uleb body.length).length + (uleb items.length).length
    annotate 0 pos (xs.zip items) (e.section_ id body)

def itemsSection {α : Type} (id : UInt8) (xs : List α) (encode : α → Bytes) (field value : Nat → α → String)
    (e : Enc) : Enc :=
  vectorSection id xs encode (annotateItems field value) e

def numberSection (id : UInt8) (n : Nat) (field value : String) (e : Enc) : Enc :=
  let body := uleb n
  (e.section_ id body).annotate (e.at_ + 1 + (uleb body.length).length) body.length field value

def Custom.body (c : Custom) : Bytes := wasmName c.name ++ c.payload

/-- The loop body of `customs_after`. -/
def customSection (e : Enc) (c : Custom) : Enc :=
  (e.section_ 0 c.body).annotate (e.at_ + 2) c.body.length s!"custom[{c.name}]"
    s!"name '{c.name}', {c.payload.length} payload bytes"

namespace ModuleBuilder

variable (b : ModuleBuilder)

def customsAfter (id : Option UInt8) (e : Enc) : Enc :=
  (b.customs.filter fun c => c.after = id).foldl customSection e

def typeSection : Enc → Enc :=
  itemsSection 1 b.types FuncType.encode (fun i _ => s!"type[{i}]") fun _ t => t.text

def importSection : Enc → Enc :=
  itemsSection 2 b.imports encodeImport (fun i _ => s!"import[{i}]") fun _ imp =>
    s!"{imp.module}::{imp.name} — {importText imp.kind b}"

def functionSection : Enc → Enc :=
  itemsSection 3 b.funcs (fun t => uleb t.toNat)
    (fun i _ => s!"function[{b.importedFuncs + UInt32.ofNat i}]") fun _ ty => s!"type {ty} {b.typeText ty}"

def tableSection : Enc → Enc :=
  itemsSection 4 b.tables TableType.encode (fun i _ => s!"table[{i}]") fun _ t =>
    s!"{t.elem.name}, {t.limits.text}"

def memorySection : Enc → Enc :=
  itemsSection 5 b.memories Limits.encode (fun i _ => s!"memory[{i}]") fun _ m => s!"{m.text} (64 KiB pages)"

def globalSection : Enc → Enc :=
  itemsSection 6 b.globals Global.encode (fun i _ => s!"global[{i}]") fun _ g =>
    s!"{mutText g.mutable} {g.ty.name}, init {g.initText}"

def exportSection : Enc → Enc :=
  itemsSection 7 b.exports Export.encode (fun i _ => s!"export[{i}]") fun _ x =>
    s!"'{x.name}' → {x.kind.name} {x.index}"

def startSection (e : Enc) : Enc :=
  match b.start with
  | none => e
  | some s =>
    numberSection 8 s.toNat "start.func" s!"function {s} runs before any export is callable" e

def elementSection : Enc → Enc :=
  itemsSection 9 b.elems encodeElem (fun i _ => s!"elem[{i}]") fun _ el => elemText el

def dataCountSection (e : Enc) : Enc :=
  if b.needsDataCount then
    numberSection 12 b.data.length "data_count.count"
      s!"{b.data.length} data segments, declared before the code section" e
  else e

def codeSection : Enc → Enc :=
  vectorSection 10 b.code encodeFunc (annotateFuncs b.importedFuncs)

def dataSection : Enc → Enc :=
  itemsSection 11 b.data encodeData (fun i _ => s!"data[{i}]") fun _ d => dataText d

/-- `build`, in the order of its statements. -/
def build : Module :=
  let e := b.customsAfter none Enc.withHeader
  let e := b.customsAfter (some 1) (b.typeSection e)
  let e := b.customsAfter (some 2) (b.importSection e)
  let e := b.customsAfter (some 3) (b.functionSection e)
  let e := b.customsAfter (some 4) (b.tableSection e)
  let e := b.customsAfter (some 5) (b.memorySection e)
  let e := b.customsAfter (some 6) (b.globalSection e)
  let e := b.customsAfter (some 7) (b.exportSection e)
  let e := b.customsAfter (some 8) (b.startSection e)
  let e := b.customsAfter (some 9) (b.elementSection e)
  let e := b.customsAfter (some 12) (b.dataCountSection e)
  let e := b.customsAfter (some 10) (b.codeSection e)
  let e := b.customsAfter (some 11) (b.dataSection e)
  e.finish b.label

end ModuleBuilder

end BuildYourOwn.Wasm
