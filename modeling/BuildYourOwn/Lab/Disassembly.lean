import Mathlib.Data.List.Forall2
import BuildYourOwn.Lab.Immediates
import BuildYourOwn.Lib.Tiling

/-!
# The disassembler reads what the builder writes

`Built e ws`: the expression is made with the builders, and `ws` is what was written, every `else` and
`end` included. Each builder appends bytes that one round after another of the loop takes, and leaves the
depth as it found it (`Lists`); a structured one puts its body a level deeper.
-/

namespace BuildYourOwn.Lab.Wasm

open Lib
open BuildYourOwn.Wasm (uleb ValType BlockType Op Op2 Expr)

/-- An instruction or a marker, so many blocks deep. -/
structure Written where
  name : String
  args : Option (List String)
  depth : Nat

def Written.deeper (w : Written) : Written := { w with depth := w.depth + 1 }

structure Written.Shows (base : Nat) (w : Written) (entry : WasmInstruction) : Prop where
  name : entry.name = w.name
  args : ∀ given ∈ w.args, entry.args = " ".intercalate given
  depth : entry.depth = base + w.depth

/-! ## One round -/

def shownAt (name : String) (depth : Int) : Int :=
  let after := if name = "end" then depth - 1 else depth
  if name = "end" then max 0 after else if name = "else" then max 0 (depth - 1) else depth

def depthAfter (name : String) (depth : Int) : Int :=
  let after := if name = "end" then depth - 1 else depth
  if name = "block" ∨ name = "loop" ∨ name = "if" then after + 1 else after

variable [NumberText] {bytes bs bs' rest : Bytes} {off stop : Nat} {depth : Int} {name : String}
  {args : Option (List String)}

def Reads (bs : Bytes) (name : String) (args : Option (List String)) : Prop :=
  ∀ bytes off depth rest, bytes.drop off = bs ++ rest → ∃ texts,
    instruction bytes off depth = .ok (⟨off, off + bs.length, name, " ".intercalate texts,
      shownAt name depth⟩, depthAfter name depth) ∧ ∀ given ∈ args, texts = given

variable {imm : Imm}

theorem reads_of_opcode {code : Bytes} (himm : ReadsImm imm bs args)
    (hcode : ∀ {bytes : Bytes} {off : Nat} {rest}, bytes.drop off = code ++ rest →
      opcode bytes off = .ok (name, imm, off + code.length)) : Reads (code ++ bs) name args := by
  intro bytes off depth rest h
  rw [List.append_assoc] at h
  obtain ⟨texts, hread, htexts⟩ := himm bytes (off + code.length) rest (drop_of_drop h)
  refine ⟨texts, ?_, htexts⟩
  unfold instruction
  rw [hcode h]
  change (immediates bytes (off + code.length) imm >>= _) = _
  rw [hread, List.length_append, ← Nat.add_assoc]
  rfl

variable {code : UInt8}

theorem reads_single (hcode : code ≠ 0xfc)
    (hentry : entryOf opcodes code.toNat = some (name, imm)) (himm : ReadsImm imm bs args) :
    Reads (code :: bs) name args := by
  change Reads ([code] ++ bs) name args
  refine reads_of_opcode himm fun h => ?_
  unfold opcode
  rw [getElem?_of_drop h]
  dsimp only
  rw [if_neg hcode, hentry]
  rfl

theorem reads_double {sub : Nat} (hsub : sub < 2 ^ 42)
    (hentry : entryOf fcOps sub = some (name, imm)) (himm : ReadsImm imm bs args) :
    Reads (0xfc :: uleb sub ++ bs) name args := by
  refine reads_of_opcode himm fun {bytes off rest} h => ?_
  have hsubs : bytes.drop (off + 1) = uleb sub ++ rest := drop_of_drop (show _ = [0xfc] ++ _ from h)
  unfold opcode
  rw [getElem?_of_drop h]
  dsimp only
  rw [if_pos rfl, readUleb_uleb hsub hsubs]
  change Except.ok (((entryOf fcOps sub).getD _).1, ((entryOf fcOps sub).getD _).2, _) = _
  rw [hentry, List.length_cons, Nat.add_comm (List.length _) 1, ← Nat.add_assoc]
  rfl

/-! ## Many rounds -/

inductive Walk (bytes : Bytes) : Nat → Int → List WasmInstruction → Nat → Int → Prop
  | nil {off : Nat} {depth : Int} : Walk bytes off depth [] off depth
  | cons {off stop : Nat} {depth after last : Int} {entry : WasmInstruction} {entries : List WasmInstruction}
      (h : instruction bytes off depth = .ok (entry, after)) (hstart : entry.offset = off)
      (hlonger : off < entry.stop) (hmore : ¬ (entry.name = "end" ∧ after < 0))
      (hrest : Walk bytes entry.stop after entries stop last) :
      Walk bytes off depth (entry :: entries) stop last

theorem Walk.append {off off' off'' : Nat} {depth depth' depth'' : Int} {es es' : List WasmInstruction}
    (h : Walk bytes off depth es off' depth') (h' : Walk bytes off' depth' es' off'' depth'') :
    Walk bytes off depth (es ++ es') off'' depth'' := by
  induction h with
  | nil => exact h'
  | cons hread hstart hlonger hmore _ ih => exact .cons hread hstart hlonger hmore (ih h')

variable {es : List WasmInstruction}

theorem Walk.le {off : Nat} {last : Int} (h : Walk bytes off depth es stop last) : off ≤ stop := by
  induction h with
  | nil => exact Nat.le_refl _
  | cons _ _ hlonger _ _ ih => omega

theorem Walk.tiles {off : Nat} {last : Int} (h : Walk bytes off depth es stop last) :
    Tiles WasmInstruction.offset (fun e => e.stop - e.offset) off es stop := by
  induction h with
  | nil => exact .nil _
  | @cons off stop depth after last entry entries hread hstart hlonger hmore hrest ih =>
    subst hstart
    exact .cons (by rwa [Nat.add_sub_cancel' (Nat.le_of_lt hlonger)])

theorem Walk.one (depth : Int) (base d : Nat) {off : Nat} (h : Reads bs name args) (hne : bs ≠ [])
    (hdrop : bytes.drop off = bs ++ rest) (hmore : ¬ (name = "end" ∧ depthAfter name depth < 0))
    (hshown : shownAt name depth = base + d) :
    ∃ e, Walk bytes off depth [e] (off + bs.length) (depthAfter name depth) ∧ Written.Shows base ⟨name, args, d⟩ e := by
  obtain ⟨texts, hread, htexts⟩ := h bytes off depth rest hdrop
  have hlength := List.length_pos_of_ne_nil hne
  exact ⟨_, .cons hread rfl (by dsimp only; omega) hmore .nil,
    rfl, fun given hgiven => congrArg " ".intercalate (htexts given hgiven), hshown⟩

/-- Wherever they stand so deep, the bytes are read as this, and the depth is the same after them. -/
def Lists (inside : Nat) (bs : Bytes) (ws : List Written) : Prop :=
  ∀ bytes off base rest, bytes.drop off = bs ++ rest → ∃ es,
    Walk bytes off ((base + inside : Nat) : Int) es (off + bs.length) ((base + inside : Nat) : Int) ∧
      List.Forall₂ (Written.Shows base) ws es

/-- An instruction that neither opens a block nor closes one. -/
def Simple (name : String) : Prop := name ∉ ["block", "loop", "if", "else", "end"]

instance : DecidablePred Simple := fun _ => inferInstanceAs (Decidable (_ ∉ _))

omit [NumberText] in
theorem Simple.shownAt (h : Simple name) : shownAt name depth = depth := by
  simp only [Simple, List.mem_cons, not_or] at h
  unfold Wasm.shownAt
  rw [if_neg h.2.2.2.2.1, if_neg h.2.2.2.1]

omit [NumberText] in
theorem Simple.depthAfter (h : Simple name) : depthAfter name depth = depth := by
  simp only [Simple, List.mem_cons, not_or] at h
  unfold Wasm.depthAfter
  rw [if_neg (by tauto), if_neg h.2.2.2.2.1]

variable {inside : Nat} {ws ws' : List Written}

theorem Lists.nil : Lists inside [] [] := fun _ _ _ _ _ => ⟨[], .nil, .nil⟩

theorem Lists.append (h : Lists inside bs ws) (h' : Lists inside bs' ws') : Lists inside (bs ++ bs') (ws ++ ws') := by
  intro bytes off base rest hdrop
  rw [List.append_assoc] at hdrop
  obtain ⟨es, hwalk, hshows⟩ := h bytes off base _ hdrop
  obtain ⟨es', hwalk', hshows'⟩ := h' bytes (off + bs.length) base rest (drop_of_drop hdrop)
  refine ⟨es ++ es', ?_, List.rel_append hshows hshows'⟩
  rw [List.length_append, ← Nat.add_assoc]
  exact hwalk.append hwalk'

theorem Lists.flatten_replicate (h : Lists inside bs ws) (n : Nat) :
    Lists inside (List.replicate n bs).flatten (List.replicate n ws).flatten := by
  induction n with
  | zero => exact .nil
  | succ n ih =>
    rw [List.replicate_succ, List.replicate_succ, List.flatten_cons, List.flatten_cons]
    exact h.append ih

theorem Reads.lists (h : Reads bs name args) (hne : bs ≠ []) (hname : Simple name) : Lists 0 bs [⟨name, args, 0⟩] := by
  intro bytes off base rest hdrop
  have hend : ¬ (name = "end" ∧ depthAfter name ((base + 0 : Nat) : Int) < 0) := by
    rintro ⟨rfl, -⟩
    exact absurd hname (by decide)
  obtain ⟨e, hwalk, hshows⟩ := Walk.one ((base + 0 : Nat) : Int) base 0 h hne hdrop hend hname.shownAt
  rw [hname.depthAfter] at hwalk
  exact ⟨[e], hwalk, .cons hshows .nil⟩

omit [NumberText] in
theorem Written.Shows.deeper {base : Nat} {w : Written} {e : WasmInstruction} (h : w.Shows (base + 1) e) :
    w.deeper.Shows base e := by
  refine ⟨h.name, h.args, ?_⟩
  have := h.depth
  change e.depth = base + ((w.depth + 1 : Nat) : Int)
  omega

theorem Lists.deeper (h : Lists 0 bs ws) : Lists 1 bs (ws.map Written.deeper) := by
  intro bytes off base rest hdrop
  obtain ⟨es, hwalk, hshows⟩ := h bytes off (base + 1) rest hdrop
  exact ⟨es, hwalk, List.forall₂_map_left_iff.mpr (hshows.imp fun _ _ => Written.Shows.deeper)⟩

theorem lists_else : Lists 1 [0x05] [⟨"else", some [], 0⟩] := by
  intro bytes off base rest hdrop
  have hread : Reads [0x05] "else" (some []) := reads_single (by decide) rfl readsImm_none
  obtain ⟨e, hwalk, hshows⟩ := Walk.one ((base + 1 : Nat) : Int) base 0 hread
    (List.cons_ne_nil _ _) hdrop (fun h => absurd h.1 (by decide)) (by
      change max 0 (((base + 1 : Nat) : Int) - 1) = (base : Int) + (0 : Nat)
      omega)
  exact ⟨[e], hwalk, .cons hshows .nil⟩

/-- **A block**: the body is a level deeper than the opcode and the `end`. -/
theorem Reads.structured (hread : Reads bs name args) (hne : bs ≠ [])
    (hname : name = "block" ∨ name = "loop" ∨ name = "if") (hbody : Lists 1 bs' ws) :
    Lists 0 (bs ++ bs' ++ [0x0b]) (⟨name, args, 0⟩ :: ws ++ [⟨"end", some [], 0⟩]) := by
  intro bytes off base rest hdrop
  rw [List.append_assoc, List.append_assoc] at hdrop
  have hend : name ≠ "end" ∧ name ≠ "else" := by
    rcases hname with rfl | rfl | rfl <;> decide
  obtain ⟨e, hopen, hshows⟩ := Walk.one ((base + 0 : Nat) : Int) base 0 hread hne
    hdrop (fun h => hend.1 h.1) (by
      unfold shownAt
      rw [if_neg hend.1, if_neg hend.2]
      rfl)
  have hafter : depthAfter name ((base + 0 : Nat) : Int) = ((base + 1 : Nat) : Int) := by
    unfold depthAfter
    rw [if_pos hname, if_neg hend.1]
    rfl
  obtain ⟨es, hwalk, hshows'⟩ := hbody bytes (off + bs.length) base _ (drop_of_drop hdrop)
  have hclose : Reads [0x0b] "end" (some []) := reads_single (by decide) rfl readsImm_none
  obtain ⟨e', hwalk', hshows''⟩ := Walk.one ((base + 1 : Nat) : Int) base 0 hclose
    (List.cons_ne_nil _ _) (drop_of_drop (drop_of_drop hdrop)) (by
      rintro ⟨-, hneg⟩
      change ((base + 1 : Nat) : Int) - 1 < 0 at hneg
      omega) (by
      change max 0 (((base + 1 : Nat) : Int) - 1) = (base : Int) + (0 : Nat)
      omega)
  have hback : depthAfter "end" ((base + 1 : Nat) : Int) = ((base + 0 : Nat) : Int) := by
    change ((base + 1 : Nat) : Int) - 1 = ((base + 0 : Nat) : Int)
    omega
  rw [hafter] at hopen
  rw [hback] at hwalk'
  refine ⟨e :: es ++ [e'], ?_, List.rel_append (.cons hshows hshows') (.cons hshows'' .nil)⟩
  rw [List.length_append, List.length_append, ← Nat.add_assoc, ← Nat.add_assoc]
  exact (hopen.append hwalk).append hwalk'

/-! ## The builders -/

def instr (name : String) (args : List String) : Written := ⟨name, some args, 0⟩

/-- One whose arguments are left open. -/
def literal (name : String) : Written := ⟨name, none, 0⟩

/-- A block type before the body and an `end` after it. -/
def enclosed (name : String) (bt : BlockType) (body : List Written) : List Written :=
  instr name [blockText bt] :: body ++ [instr "end" []]

/-- The expressions that the builders make, and what they write. `nop`, `drop`, `unreachable`, `return_`
and `select` are `op`, the four loads and stores with an offset only are `mem`, and the floats are their bits. -/
inductive Built : Expr → List Written → Prop
  | new : Built .new []
  | then_ {e e' : Expr} {ws ws' : List Written} (h : Built e ws) (h' : Built e' ws') :
      Built (e.then_ e') (ws ++ ws')
  | repeat_ {e e' : Expr} {ws ws' : List Written} (h : Built e ws) (h' : Built e' ws') (n : Nat) :
      Built (e.repeat_ n e') (ws ++ (List.replicate n ws').flatten)
  | i32Const {e : Expr} {ws : List Written} (h : Built e ws) (v : Int32) :
      Built (e.i32Const v) (ws ++ [instr "i32.const" [toString v.toInt]])
  | i64Const {e : Expr} {ws : List Written} (h : Built e ws) (v : Int64) :
      Built (e.i64Const v) (ws ++ [literal "i64.const"])
  | f32Bits {e : Expr} {ws : List Written} (h : Built e ws) (bits : UInt32) :
      Built (e.f32Bits bits) (ws ++ [literal "f32.const"])
  | f64Bits {e : Expr} {ws : List Written} (h : Built e ws) (bits : UInt64) :
      Built (e.f64Bits bits) (ws ++ [literal "f64.const"])
  | localGet {e : Expr} {ws : List Written} (h : Built e ws) (n : UInt32) :
      Built (e.localGet n) (ws ++ [instr "local.get" [toString n]])
  | localSet {e : Expr} {ws : List Written} (h : Built e ws) (n : UInt32) :
      Built (e.localSet n) (ws ++ [instr "local.set" [toString n]])
  | localTee {e : Expr} {ws : List Written} (h : Built e ws) (n : UInt32) :
      Built (e.localTee n) (ws ++ [instr "local.tee" [toString n]])
  | globalGet {e : Expr} {ws : List Written} (h : Built e ws) (n : UInt32) :
      Built (e.globalGet n) (ws ++ [instr "global.get" [toString n]])
  | globalSet {e : Expr} {ws : List Written} (h : Built e ws) (n : UInt32) :
      Built (e.globalSet n) (ws ++ [instr "global.set" [toString n]])
  | op {e : Expr} {ws : List Written} (h : Built e ws) {o : Op} (ho : o ∈ Wasm.op.plain) :
      Built (e.op o) (ws ++ [instr o.name []])
  | op2 {e : Expr} {ws : List Written} (h : Built e ws) {o : Op2} (ho : o ∈ Wasm.op2.truncations) :
      Built (e.op2 o) (ws ++ [instr o.name []])
  | selectTyped {e : Expr} {ws : List Written} (h : Built e ws) {types : List ValType}
      (hfew : types.length < 2 ^ 42) :
      Built (e.selectTyped types) (ws ++ [instr "select" (types.map ValType.name)])
  | block {e body : Expr} {ws ws' : List Written} (h : Built e ws) (bt : BlockType) (hbody : Built body ws') :
      Built (e.block bt body) (ws ++ enclosed "block" bt (ws'.map Written.deeper))
  | loop {e body : Expr} {ws ws' : List Written} (h : Built e ws) (bt : BlockType) (hbody : Built body ws') :
      Built (e.loop bt body) (ws ++ enclosed "loop" bt (ws'.map Written.deeper))
  | if_ {e body : Expr} {ws ws' : List Written} (h : Built e ws) (bt : BlockType) (hbody : Built body ws') :
      Built (e.if_ bt body) (ws ++ enclosed "if" bt (ws'.map Written.deeper))
  | ifElse {e body otherwise : Expr} {ws ws' ws'' : List Written} (h : Built e ws) (bt : BlockType)
      (hbody : Built body ws') (hotherwise : Built otherwise ws'') :
      Built (e.ifElse bt body otherwise) (ws ++ enclosed "if" bt
        (ws'.map Written.deeper ++ [instr "else" []] ++ ws''.map Written.deeper))
  | br {e : Expr} {ws : List Written} (h : Built e ws) (label : UInt32) :
      Built (e.br label) (ws ++ [instr "br" [toString label]])
  | brIf {e : Expr} {ws : List Written} (h : Built e ws) (label : UInt32) :
      Built (e.brIf label) (ws ++ [instr "br_if" [toString label]])
  | brTable {e : Expr} {ws : List Written} (h : Built e ws) {labels : List UInt32} (default : UInt32)
      (hfew : labels.length < 2 ^ 42) :
      Built (e.brTable labels default) (ws ++ [instr "br_table"
        ["[" ++ " ".intercalate (labels.map toString) ++ "]", s!"default {default}"]])
  | call {e : Expr} {ws : List Written} (h : Built e ws) (n : UInt32) :
      Built (e.call n) (ws ++ [instr "call" [toString n]])
  | callIndirect {e : Expr} {ws : List Written} (h : Built e ws) (ty table : UInt32) :
      Built (e.callIndirect ty table) (ws ++ [instr "call_indirect" [toString ty, toString table]])
  | mem {e : Expr} {ws : List Written} (h : Built e ws) {o : Op} (ho : o ∈ Wasm.op.memory)
      (align offset : UInt32) :
      Built (e.mem o align offset) (ws ++ [instr o.name [s!"align=2^{align}", s!"offset={offset}"]])
  | memorySize {e : Expr} {ws : List Written} (h : Built e ws) :
      Built e.memorySize (ws ++ [instr "memory.size" []])
  | memoryGrow {e : Expr} {ws : List Written} (h : Built e ws) :
      Built e.memoryGrow (ws ++ [instr "memory.grow" []])
  | memoryInit {e : Expr} {ws : List Written} (h : Built e ws) (seg : UInt32) :
      Built (e.memoryInit seg) (ws ++ [instr "memory.init" [toString seg, "0"]])
  | dataDrop {e : Expr} {ws : List Written} (h : Built e ws) (seg : UInt32) :
      Built (e.dataDrop seg) (ws ++ [instr "data.drop" [toString seg]])
  | memoryCopy {e : Expr} {ws : List Written} (h : Built e ws) :
      Built e.memoryCopy (ws ++ [instr "memory.copy" ["0", "0"]])
  | memoryFill {e : Expr} {ws : List Written} (h : Built e ws) :
      Built e.memoryFill (ws ++ [instr "memory.fill" []])
  | tableGet {e : Expr} {ws : List Written} (h : Built e ws) (table : UInt32) :
      Built (e.tableGet table) (ws ++ [instr "table.get" [toString table]])
  | tableSet {e : Expr} {ws : List Written} (h : Built e ws) (table : UInt32) :
      Built (e.tableSet table) (ws ++ [instr "table.set" [toString table]])
  | tableSize {e : Expr} {ws : List Written} (h : Built e ws) (table : UInt32) :
      Built (e.tableSize table) (ws ++ [instr "table.size" [toString table]])
  | tableGrow {e : Expr} {ws : List Written} (h : Built e ws) (table : UInt32) :
      Built (e.tableGrow table) (ws ++ [instr "table.grow" [toString table]])
  | tableFill {e : Expr} {ws : List Written} (h : Built e ws) (table : UInt32) :
      Built (e.tableFill table) (ws ++ [instr "table.fill" [toString table]])
  | tableCopy {e : Expr} {ws : List Written} (h : Built e ws) (dst src : UInt32) :
      Built (e.tableCopy dst src) (ws ++ [instr "table.copy" [toString dst, toString src]])
  | tableInit {e : Expr} {ws : List Written} (h : Built e ws) (seg table : UInt32) :
      Built (e.tableInit seg table) (ws ++ [instr "table.init" [toString seg, toString table]])
  | elemDrop {e : Expr} {ws : List Written} (h : Built e ws) (seg : UInt32) :
      Built (e.elemDrop seg) (ws ++ [instr "elem.drop" [toString seg]])
  | refNull {e : Expr} {ws : List Written} (h : Built e ws) (t : ValType) :
      Built (e.refNull t) (ws ++ [instr "ref.null" [t.name]])
  | refIsNull {e : Expr} {ws : List Written} (h : Built e ws) :
      Built e.refIsNull (ws ++ [instr "ref.is_null" []])
  | refFunc {e : Expr} {ws : List Written} (h : Built e ws) (n : UInt32) :
      Built (e.refFunc n) (ws ++ [instr "ref.func" [toString n]])

theorem Lists.single (h : Lists 0 bs ws) (himm : ReadsImm imm bs' args)
    (hcode : code ≠ 0xfc) (hentry : entryOf opcodes code.toNat = some (name, imm)) (hname : Simple name) :
    Lists 0 (bs ++ code :: bs') (ws ++ [⟨name, args, 0⟩]) :=
  h.append ((reads_single hcode hentry himm).lists (List.cons_ne_nil _ _) hname)

/-- One after `0xfc` is appended. -/
theorem Lists.double {sub : Nat} (h : Lists 0 bs ws) (himm : ReadsImm imm bs' args)
    (hsub : sub < 2 ^ 42) (hentry : entryOf fcOps sub = some (name, imm)) (hname : Simple name) :
    Lists 0 (bs ++ (0xfc :: uleb sub ++ bs')) (ws ++ [⟨name, args, 0⟩]) :=
  h.append ((reads_double hsub hentry himm).lists (List.cons_ne_nil _ _) hname)

theorem Lists.enclosed {bt : BlockType} (h : Lists 0 bs ws) (hbody : Lists 1 bs' ws')
    (hcode : code ≠ 0xfc) (hentry : entryOf opcodes code.toNat = some (name, .blocktype))
    (hname : name = "block" ∨ name = "loop" ∨ name = "if") :
    Lists 0 (bs ++ (code :: bt.encode ++ bs' ++ [0x0b])) (ws ++ Wasm.enclosed name bt ws') :=
  h.append ((reads_single hcode hentry (readsImm_blocktype bt)).structured (List.cons_ne_nil _ _) hname hbody)

omit [NumberText] in
theorem plain_listed : ∀ o ∈ Wasm.op.plain, o.code ≠ 0xfc ∧
    entryOf opcodes o.code.toNat = some (o.name, .none) ∧ Simple o.name := by
  decide +kernel

omit [NumberText] in
theorem memory_listed : ∀ o ∈ Wasm.op.memory, o.code ≠ 0xfc ∧
    entryOf opcodes o.code.toNat = some (o.name, .memarg) ∧ Simple o.name := by
  decide +kernel

omit [NumberText] in
theorem truncations_listed : ∀ o ∈ Wasm.op2.truncations,
    entryOf fcOps o.code.toNat = some (o.name, .none) ∧ Simple o.name := by
  decide +kernel

/-- **What the builders append is read as what they write.** -/
theorem Built.lists {e : Expr} (h : Built e ws) : Lists 0 e.bytes ws := by
  induction h with
  | new => exact .nil
  | then_ _ _ ih ih' => exact ih.append ih'
  | repeat_ _ _ n ih ih' => exact ih.append (ih'.flatten_replicate n)
  | i32Const _ v ih => exact ih.single (readsImm_i32 v) (by decide) rfl (by decide)
  | i64Const _ v ih => exact ih.single (readsImm_i64 v) (by decide) rfl (by decide)
  | f32Bits _ bits ih => exact ih.single (readsImm_f32 bits.toNat) (by decide) rfl (by decide)
  | f64Bits _ bits ih => exact ih.single (readsImm_f64 bits.toNat) (by decide) rfl (by decide)
  | op _ ho ih =>
    obtain ⟨hcode, hentry, hname⟩ := plain_listed _ ho
    exact ih.single readsImm_none hcode hentry hname
  | op2 _ ho ih =>
    obtain ⟨hentry, hname⟩ := truncations_listed _ ho
    have hdouble := ih.double readsImm_none (u32_fits _) hentry hname
    rwa [List.append_nil] at hdouble
  | selectTyped _ hfew ih => exact ih.single (readsImm_selectt hfew) (by decide) rfl (by decide)
  | block _ bt _ ih ih' => exact ih.enclosed ih'.deeper (by decide) rfl (.inl rfl)
  | loop _ bt _ ih ih' => exact ih.enclosed ih'.deeper (by decide) rfl (.inr (.inl rfl))
  | if_ _ bt _ ih ih' => exact ih.enclosed ih'.deeper (by decide) rfl (.inr (.inr rfl))
  | ifElse _ bt _ _ ih ih' ih'' =>
    exact ih.enclosed ((ih'.deeper.append lists_else).append ih''.deeper) (by decide) rfl (.inr (.inr rfl))
  | brTable _ default hfew ih => exact ih.single (readsImm_brtable default hfew) (by decide) rfl (by decide)
  | mem _ ho align offset ih =>
    obtain ⟨hcode, hentry, hname⟩ := memory_listed _ ho
    exact ih.single (readsImm_memarg align offset) hcode hentry hname
  | callIndirect _ ty table ih => exact ih.single (readsImm_u32u32 ty table) (by decide) rfl (by decide)
  | memorySize _ ih => exact ih.single (readsImm_byte 0) (by decide) rfl (by decide)
  | memoryGrow _ ih => exact ih.single (readsImm_byte 0) (by decide) rfl (by decide)
  | memoryInit _ seg ih => exact ih.double (readsImm_u32u32 seg 0) (show 8 < 2 ^ 42 by decide) rfl (by decide)
  | memoryCopy _ ih => exact ih.double (readsImm_u32u32 0 0) (by decide) rfl (by decide)
  | memoryFill _ ih => exact ih.double (readsImm_byte 0) (by decide) rfl (by decide)
  | tableCopy _ dst src ih => exact ih.double (readsImm_u32u32 dst src) (show 14 < 2 ^ 42 by decide) rfl (by decide)
  | tableInit _ seg table ih => exact ih.double (readsImm_u32u32 seg table) (show 12 < 2 ^ 42 by decide) rfl (by decide)
  | refNull _ t ih => exact ih.single (readsImm_reftype t) (by decide) rfl (by decide)
  | refIsNull _ ih => exact ih.single readsImm_none (by decide) rfl (by decide)
  | localGet _ n ih | localSet _ n ih | localTee _ n ih | globalGet _ n ih | globalSet _ n ih
  | br _ n ih | brIf _ n ih | call _ n ih | tableGet _ n ih | tableSet _ n ih | refFunc _ n ih =>
    exact ih.single (readsImm_u32 n) (by decide) rfl (by decide)
  | dataDrop _ n ih | tableSize _ n ih | tableGrow _ n ih | tableFill _ n ih | elemDrop _ n ih =>
    exact ih.double (readsImm_u32 n) (by decide) rfl (by decide)

end BuildYourOwn.Lab.Wasm
