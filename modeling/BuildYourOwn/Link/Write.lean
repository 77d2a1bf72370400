import BuildYourOwn.Link.Format

/-!
# The ELF64 object writer

Model of `linktest/src/elf/write.rs`: what an object is made of, the string tables, `Layout::plan`, `Layout::emit`
and `ObjectBuilder::build`.

* An index is a number; it is narrowed where the source stores it in a field.
* `plan` is cut where its comments cut it: the section header indices (`Layout.number`), the symbols
  (`Layout.symbolTables`), the relocations (`Layout.relaFor`), the entries and their names.
* The names that the source keeps beside the bytes of the symbols are never read.
-/

namespace BuildYourOwn.Link

open Lib

/-! ## What an object is made of -/

/-- What a symbol's `st_shndx` says. -/
inductive SymSection where
  | undefined
  | absolute
  | common
  | «section» (name : String)
  | raw (v : UInt16)

/-- What a relocation points at. -/
inductive RelTarget where
  | symbol (name : String)
  | «section» (name : String)
  | raw (i : UInt32)

structure Reloc where
  offset : UInt64
  target : RelTarget
  kind : UInt32
  addend : Int64

structure SectionSpec where
  name : String
  shType : UInt32
  flags : UInt64
  align : UInt64
  data : Bytes
  nobitsSize : UInt64 := 0
  entsize : UInt64 := 0
  addr : UInt64 := 0
  relocs : List Reloc := []
  offsetOverride : Option UInt64 := none
  sizeOverride : Option UInt64 := none
  linkOverride : Option UInt32 := none
  infoOverride : Option UInt32 := none

namespace SectionSpec

def new (name : String) (shType : UInt32) (flags : UInt64) (data : Bytes) : SectionSpec where
  name := name
  shType := shType
  flags := flags
  align := 1
  data := data

/-- The builder method `align`. -/
def aligned (s : SectionSpec) (align : UInt64) : SectionSpec := { s with align := align }

/-- The builder method `relocs`. -/
def withRelocs (s : SectionSpec) (rs : List Reloc) : SectionSpec := { s with relocs := s.relocs ++ rs }

def text (name : String) (data : Bytes) : SectionSpec :=
  (new name shtProgbits (shfAlloc ||| shfExecinstr) data).aligned 16

def rodata (name : String) (data : Bytes) : SectionSpec := new name shtProgbits shfAlloc data

def bss (name : String) (size : UInt64) : SectionSpec :=
  { new name shtNobits (shfAlloc ||| shfWrite) [] with nobitsSize := size }

def size (s : SectionSpec) : UInt64 :=
  s.sizeOverride.getD (if s.shType = shtNobits then s.nobitsSize else UInt64.ofNat s.data.length)

end SectionSpec

structure SymbolSpec where
  name : String
  bind : UInt8
  stype : UInt8
  visibility : UInt8
  «section» : SymSection
  value : UInt64
  size : UInt64

namespace SymbolSpec

def global (name inSection : String) (value : UInt64) : SymbolSpec where
  name := name
  bind := stbGlobal
  stype := sttNotype
  visibility := stvDefault
  «section» := .section inSection
  value := value
  size := 0

/-- `SymbolSpec::local`. -/
def «local» (name inSection : String) (value : UInt64) : SymbolSpec :=
  { global name inSection value with bind := stbLocal }

def undefined (name : String) : SymbolSpec where
  name := name
  bind := stbGlobal
  stype := sttNotype
  visibility := stvDefault
  «section» := .undefined
  value := 0
  size := 0

end SymbolSpec

/-- Fields of the ELF header a fixture can deliberately get wrong. -/
structure HeaderOverrides where
  magic : Option (Sized 4) := none
  «class» : Option UInt8 := none
  endianness : Option UInt8 := none
  identVersion : Option UInt8 := none
  osabi : Option UInt8 := none
  eType : Option UInt16 := none
  eMachine : Option UInt16 := none
  eVersion : Option UInt32 := none
  eEhsize : Option UInt16 := none
  eShoff : Option UInt64 := none
  eShnum : Option UInt16 := none
  eShentsize : Option UInt16 := none
  eShstrndx : Option UInt16 := none
  eEntry : Option UInt64 := none

structure ObjectBuilder where
  sections : List SectionSpec
  symbols : List SymbolSpec
  header : HeaderOverrides := {}
  truncateTo : Option Nat := none
  relaBeforeTarget : Bool := false
  symtabFirst : Bool := false
  omitSectionSymbols : Bool := false

/-! ## String tables -/

structure StrTab where
  bytes : Bytes
  first : bytes.head? = some 0

namespace StrTab

def new : StrTab := ⟨[0], rfl⟩

theorem first_append {t : StrTab} (more : Bytes) : (t.bytes ++ more).head? = some 0 := by
  rw [List.head?_append, t.first]
  rfl

def add (t : StrTab) (s : String) : UInt32 × StrTab :=
  if s = "" then (0, t)
  else (UInt32.ofNat t.bytes.length, ⟨t.bytes ++ (asBytes s ++ [0]), first_append _⟩)

/-- The strings one after another. -/
def addAll (t : StrTab) (names : List String) : List UInt32 × StrTab :=
  names.foldl (fun (offsets, t) s => (offsets ++ [(t.add s).1], (t.add s).2)) ([], t)

end StrTab

/-! ## Entries of the section header table -/

structure Shdr where
  name : String
  shType : UInt32
  flags : UInt64 := 0
  addr : UInt64 := 0
  size : UInt64
  link : UInt32 := 0
  info : UInt32 := 0
  align : UInt64
  entsize : UInt64 := 0
  data : Bytes
  offsetOverride : Option UInt64 := none
  occupiesFileSpace : Bool := true

namespace Shdr

def null : Shdr where
  name := ""
  shType := shtNull
  size := 0
  align := 0
  data := []
  occupiesFileSpace := false

def rela (s : SectionSpec) (bytes : Bytes) (symtabIndex idx : Nat) : Shdr where
  name := ".rela" ++ s.name
  shType := shtRela
  flags := shfInfoLink
  size := UInt64.ofNat bytes.length
  link := UInt32.ofNat symtabIndex
  info := UInt32.ofNat idx
  align := 8
  entsize := UInt64.ofNat relaSize
  data := bytes

def ofSpec (s : SectionSpec) : Shdr where
  name := s.name
  shType := s.shType
  flags := s.flags
  addr := s.addr
  size := s.size
  link := s.linkOverride.getD 0
  info := s.infoOverride.getD 0
  align := s.align
  entsize := s.entsize
  data := s.data
  offsetOverride := s.offsetOverride
  occupiesFileSpace := s.shType != shtNobits

def symtab (bytes : Bytes) (strtabIndex firstGlobal : Nat) : Shdr where
  name := ".symtab"
  shType := shtSymtab
  size := UInt64.ofNat bytes.length
  link := UInt32.ofNat strtabIndex
  info := UInt32.ofNat firstGlobal
  align := 8
  entsize := UInt64.ofNat symSize
  data := bytes

def strings (name : String) (bytes : Bytes) : Shdr where
  name := name
  shType := shtStrtab
  size := UInt64.ofNat bytes.length
  align := 1
  data := bytes

end Shdr

/-- One `Elf64_Sym`. -/
def symBytes (name : UInt32) (info other : UInt8) (shndx : UInt16) (value size : UInt64) : Bytes :=
  le32 name ++ ([info] ++ ([other] ++ (le16 shndx ++ (le64 value ++ le64 size))))

/-- One `Elf64_Rela`. -/
def relaBytes (sym : UInt32) (r : Reloc) : Bytes :=
  le64 r.offset ++ (le64 (rInfo sym r.kind) ++ le64 r.addend.toUInt64)

/-! ## Planning -/

/-- The concrete tables of an object. -/
structure Layout where
  shdrs : List Shdr
  indexOf : List (String × Nat)
  nameOffsets : List UInt32
  shstrtabIndex : UInt16

structure Symbols where
  syms : List Bytes
  symIndex : List (String × Nat)
  strtab : StrTab

structure SymbolTables extends Symbols where
  sectionSymIndex : List (String × Nat)
  firstGlobal : Nat

namespace Layout

/-- The user sections from `next` on, each behind its relocations when these go in front. -/
def number (relaBeforeTarget : Bool) : Nat → List SectionSpec → List (String × Nat)
  | _, [] => []
  | next, s :: sections =>
    let next := if relaBeforeTarget && !s.relocs.isEmpty then next + 1 else next
    (s.name, next) :: number relaBeforeTarget (next + 1) sections

def sectionIndex (indexOf : List (String × Nat)) (name : String) : Except String Nat :=
  match indexOf.lookup name with
  | some i => .ok i
  | none => .error s!"the object has no section named '{name}'"

def contentBase (b : ObjectBuilder) : Nat := if b.symtabFirst then 4 else 1

def symtabIndex (b : ObjectBuilder) : Nat :=
  if b.symtabFirst then 1
  else contentBase b + b.sections.length + (b.sections.filter fun s => !s.relocs.isEmpty).length

def sectionSyms (indexOf : List (String × Nat)) (sections : List SectionSpec) :
    Except String (List Bytes × List (String × Nat)) :=
  sections.foldlM
    (fun (syms, index) s => do
      let shndx ← sectionIndex indexOf s.name
      pure (syms ++ [symBytes 0 (stInfo stbLocal sttSection) stvDefault (UInt16.ofNat shndx) 0 0],
        index ++ [(s.name, syms.length)]))
    ([List.replicate symSize 0], [])

/-- The `st_shndx` of a symbol. -/
def shndxOf (indexOf : List (String × Nat)) : SymSection → Except String UInt16
  | .undefined => .ok shnUndef
  | .absolute => .ok shnAbs
  | .common => .ok shnCommon
  | .raw v => .ok v
  | .section name => (sectionIndex indexOf name).map UInt16.ofNat

def pushSym (indexOf : List (String × Nat)) (t : Symbols) (spec : SymbolSpec) : Except String Symbols := do
  let shndx ← shndxOf indexOf spec.section
  let (nameOff, strtab) := t.strtab.add spec.name
  pure
    { syms := t.syms ++ [symBytes nameOff (stInfo spec.bind spec.stype) spec.visibility shndx spec.value spec.size]
      symIndex := if spec.name = "" then t.symIndex else t.symIndex ++ [(spec.name, t.syms.length)]
      strtab := strtab }

def symbolTables (b : ObjectBuilder) (indexOf : List (String × Nat)) : Except String SymbolTables := do
  let (syms, sectionSymIndex) ←
    if b.omitSectionSymbols then pure ([List.replicate symSize 0], []) else sectionSyms indexOf b.sections
  let locals ← (b.symbols.filter fun s => s.bind == stbLocal).foldlM (pushSym indexOf) ⟨syms, [], StrTab.new⟩
  let all ← (b.symbols.filter fun s => s.bind != stbLocal).foldlM (pushSym indexOf) locals
  pure { all with sectionSymIndex := sectionSymIndex, firstGlobal := locals.syms.length }

def relaSym (t : SymbolTables) (s : SectionSpec) : RelTarget → Except String UInt32
  | .raw i => .ok i
  | .symbol name =>
    match t.symIndex.lookup name with
    | some i => .ok (UInt32.ofNat i)
    | none => .error
        s!"section '{s.name}' has a relocation against '{name}', which the object never declares as a symbol"
  | .section name =>
    match t.sectionSymIndex.lookup name with
    | some i => .ok (UInt32.ofNat i)
    | none => .error
        s!"section '{s.name}' has a relocation against the section symbol of '{name}', which this object does not have"

def relaFor (t : SymbolTables) (sections : List SectionSpec) : Except String (List (String × Bytes)) :=
  (sections.filter fun s => !s.relocs.isEmpty).mapM fun s => do
    let rows ← s.relocs.mapM fun r => do
      let sym ← relaSym t s r.target
      pure (relaBytes sym r)
    pure (s.name, rows.flatten)

def sectionEntries (b : ObjectBuilder) (indexOf : List (String × Nat)) (relas : List (String × Bytes))
    (s : SectionSpec) : Except String (List (Nat × Shdr)) := do
  let idx ← sectionIndex indexOf s.name
  match relas.lookup s.name with
  | some bytes =>
    let relaIndex :=
      if b.relaBeforeTarget then idx - 1
      else contentBase b + b.sections.length + (relas.findIdx? fun e => e.1 == s.name).getD 0
    pure [(relaIndex, Shdr.rela s bytes (symtabIndex b) idx), (idx, Shdr.ofSpec s)]
  | none => pure [(idx, Shdr.ofSpec s)]

/-- The entries, each with its index; `.shstrtab` is still empty. -/
def entries (b : ObjectBuilder) (indexOf : List (String × Nat)) (t : SymbolTables) (relas : List (String × Bytes)) :
    Except String (List (Nat × Shdr)) := do
  let perSection ← b.sections.mapM (sectionEntries b indexOf relas)
  pure ((0, Shdr.null) :: (perSection.flatten ++
    [(symtabIndex b, Shdr.symtab t.syms.flatten (symtabIndex b + 1) t.firstGlobal),
      (symtabIndex b + 1, Shdr.strings ".strtab" t.strtab.bytes),
      (symtabIndex b + 2, Shdr.strings ".shstrtab" [])]))

/-- The entries in the order of their indices, and their names in `.shstrtab`. -/
def fromEntries (b : ObjectBuilder) (indexOf : List (String × Nat)) (entries : List (Nat × Shdr)) :
    Except String Layout :=
  let expected := List.range entries.length
  let got := (byNumber entries).map Prod.fst
  if got ≠ expected then .error s!"internal: section indices came out as {got}, expected {expected}"
  else
    let shdrs := (byNumber entries).map Prod.snd
    let (nameOffsets, shstr) := StrTab.new.addAll (shdrs.map Shdr.name)
    match shdrs[symtabIndex b + 2]? with
    | none => .error "internal: .shstrtab is not in the section header table"
    | some shstrtab => .ok
        { shdrs := shdrs.set (symtabIndex b + 2)
            { shstrtab with data := shstr.bytes, size := UInt64.ofNat shstr.bytes.length }
          indexOf := indexOf
          nameOffsets := nameOffsets
          shstrtabIndex := UInt16.ofNat (symtabIndex b + 2) }

/-- `Layout::new` with `Layout::plan`. -/
def plan (b : ObjectBuilder) : Except String Layout := do
  if b.relaBeforeTarget && b.symtabFirst then
    throw ("rela_before_target and symtab_first cannot be combined: both rewrite the section header " ++
      "indices")
  let indexOf := number b.relaBeforeTarget (contentBase b) b.sections
  let t ← symbolTables b indexOf
  let relas ← relaFor t b.sections
  let es ← entries b indexOf t relas
  fromEntries b indexOf es

/-! ## Emission -/

/-- Zeros are pushed until the length is a multiple of `align`. -/
def padTo (align : Nat) (out : Bytes) : Bytes :=
  out ++ List.replicate ((align - out.length % align) % align) 0

def place (state : Bytes × List UInt64) (s : Shdr) : Bytes × List UInt64 :=
  let (out, offsets) := state
  if s.shType = shtNull then (out, offsets ++ [0])
  else
    let out := padTo (max s.align.toNat 1) out
    (if s.occupiesFileSpace then out ++ s.data else out,
      offsets ++ [s.offsetOverride.getD (UInt64.ofNat out.length)])

/-- One section header. -/
def shdrBytes (nameOff : UInt32) (s : Shdr) (offset : UInt64) : Bytes :=
  le32 nameOff ++ (le32 s.shType ++ (le64 s.flags ++ (le64 s.addr ++ (le64 offset ++ (le64 s.size ++
    (le32 s.link ++ (le32 s.info ++ (le64 s.align ++ le64 s.entsize))))))))

def headerBytes (l : Layout) (h : HeaderOverrides) (shoff : UInt64) : Bytes :=
  (h.magic.getD elfMagic).val ++ ([h.class.getD elfclass64] ++ ([h.endianness.getD elfdata2lsb] ++
    ([h.identVersion.getD evCurrent] ++ ([h.osabi.getD elfosabiSysv] ++ (List.replicate 8 0 ++
    (le16 (h.eType.getD etRel) ++ (le16 (h.eMachine.getD emX86_64) ++
    (le32 (h.eVersion.getD evCurrent.toUInt32) ++ (le64 (h.eEntry.getD 0) ++ (le64 0 ++
    (le64 (h.eShoff.getD shoff) ++ (le32 0 ++ (le16 (h.eEhsize.getD (UInt16.ofNat ehdrSize)) ++ (le16 0 ++
    (le16 0 ++ (le16 (h.eShentsize.getD (UInt16.ofNat shdrSize)) ++
    (le16 (h.eShnum.getD (UInt16.ofNat l.shdrs.length)) ++
    le16 (h.eShstrndx.getD l.shstrtabIndex))))))))))))))))))

def emit (b : ObjectBuilder) (l : Layout) : Except String Bytes :=
  let (out, offsets) := l.shdrs.foldl place (List.replicate ehdrSize 0, [])
  let out := padTo 8 out
  let shoff := UInt64.ofNat out.length
  let out := out ++ l.shdrs.zipIdx.flatMap fun (s, i) => shdrBytes (l.nameOffsets.getD i 0) s (offsets.getD i 0)
  let hdr := headerBytes l b.header shoff
  if hdr.length ≠ ehdrSize then
    .error s!"internal: the file header came out {hdr.length} bytes, not {ehdrSize}"
  else
    let out := hdr ++ out.drop ehdrSize
    match b.truncateTo with
    | some n => .ok (out.take n)
    | none => .ok out

end Layout

def ObjectBuilder.build (b : ObjectBuilder) : Except String Bytes := do
  Layout.emit b (← Layout.plan b)

end BuildYourOwn.Link
