import BuildYourOwn.Lib.Slices
import BuildYourOwn.Link.Fields

/-!
# The ELF64 reader with its panics

Model of `linktest/src/elf/read.rs` once more, with every operation that could panic: sums and differences of `usize`
and `u64`, indices, ranges, copies into arrays, `chunks`. `Elf::parse`, `slice`, `section_data` and `read_at_vaddr`
with its narrow readers.

Results: `parse_follows`, the reader never panics and is `Elf.parse`; `reader_total`, with the address readers.
-/

namespace BuildYourOwn.Link

open Lib Lib.Action

/-- A slice of bytes: no slice is longer than `isize::MAX`. -/
abbrev Slice := {b : Bytes // b.length < 2 ^ 63}

/-- What stops where the source panics. -/
abbrev Checked := Action Unit ElfError

namespace Checked

/-! ## Bounded reads -/

def u16le (b : Bytes) (i : Nat) : Checked UInt16 := do
  let stop := (checkedAdd i 2).getD (usizes - 1)
  require (¬ stop > b.length) (wanted 2 b i)
  let x ← index b i
  let j ← addUsize i 1
  let y ← index b j
  pure (UInt16.ofNat (ofLittleEndian [x, y]))

/-- The bytes that `u32le` and `u64le` copy. -/
def leArray (n : Nat) (b : Bytes) (i : Nat) : Checked Bytes := do
  let stop := (checkedAdd i n).getD (usizes - 1)
  require (¬ stop > b.length) (wanted n b i)
  let v ← range b i stop
  copyInto n v

def u32le (b : Bytes) (i : Nat) : Checked UInt32 := do
  let v ← leArray 4 b i
  pure (UInt32.ofNat (ofLittleEndian v))

def u64le (b : Bytes) (i : Nat) : Checked UInt64 := do
  let v ← leArray 8 b i
  pure (UInt64.ofNat (ofLittleEndian v))

/-- `u32le(b, start + k)`. -/
def u32leOff (b : Bytes) (start k : Nat) : Checked UInt32 := do
  let i ← addUsize start k
  u32le b i

/-- `u64le(b, start + k)`. -/
def u64leOff (b : Bytes) (start k : Nat) : Checked UInt64 := do
  let i ← addUsize start k
  u64le b i

def cstr (table : Bytes) (i : Nat) : Checked String :=
  if table.length ≤ i then pure ""
  else do
    let rest ← range table i table.length
    let stop ← match rest.findIdx? fun b => b == 0 with
      | some n => addUsize i n
      | none => pure table.length
    let name ← range table i stop
    pure (fromUtf8Lossy name)

/-- `chunks`, of a length that is not zero. -/
def chunksOf (n : Nat) (data : Bytes) : Checked (List Bytes) := orStop (if 0 < n then some (chunks n data) else none)

/-! ## Parsing -/

def parseHeader (bytes : Bytes) : Checked Elf := do
  require (¬ bytes.length < ehdrSize)
    ⟨s!"the file is {bytes.length} bytes; an ELF64 header alone is {ehdrSize}"⟩
  let magic ← range bytes 0 4
  let shown := debugHex magic
  require (magic = elfMagic.val) ⟨s!"bad magic {shown}, expected 7f 45 4c 46"⟩
  let class_ ← index bytes 4
  require (class_ = elfclass64) ⟨s!"e_ident[EI_CLASS] is {class_}, this parser only reads ELFCLASS64 (2)"⟩
  let data ← index bytes 5
  require (data = elfdata2lsb) ⟨s!"e_ident[EI_DATA] is {data}, this parser only reads little-endian (1)"⟩
  let ident ← range bytes 0 eiNident
  let ident ← copyInto eiNident ident
  pure
    { bytes := bytes
      ident := ident
      eType := ← u16le bytes 16
      eMachine := ← u16le bytes 18
      eVersion := ← u32le bytes 20
      entry := ← u64le bytes 24
      phoff := ← u64le bytes 32
      shoff := ← u64le bytes 40
      eFlags := ← u32le bytes 48
      ehsize := ← u16le bytes 52
      phentsize := ← u16le bytes 54
      phnum := ← u16le bytes 56
      shentsize := ← u16le bytes 58
      shnum := ← u16le bytes 60
      shstrndx := ← u16le bytes 62 }

def readSegment (b : Bytes) (base entrySize i : Nat) : Checked Segment := do
  let start ← lift (entryAt base i entrySize b.length "program header")
  pure
    { index := i
      pType := ← u32le b start
      flags := ← u32leOff b start 4
      offset := ← u64leOff b start 8
      vaddr := ← u64leOff b start 16
      paddr := ← u64leOff b start 24
      filesz := ← u64leOff b start 32
      memsz := ← u64leOff b start 40
      align := ← u64leOff b start 48 }

def parseSegments (e : Elf) : Checked Elf :=
  if e.phnum = 0 then pure e
  else do
    let entrySize := e.phentsize.toNat
    require (¬ entrySize < phdrSize)
      ⟨s!"e_phentsize is {entrySize}, an ELF64 program header is {phdrSize} bytes"⟩
    let segments ← each (readSegment e.bytes e.phoff.toNat entrySize) (List.range e.phnum.toNat)
    pure { e with segments := segments }

def readSection (b : Bytes) (base entrySize i : Nat) : Checked (UInt32 × Section) := do
  let start ← lift (entryAt base i entrySize b.length "section header")
  let nameOff ← u32le b start
  pure (nameOff,
    { index := i
      name := ""
      shType := ← u32leOff b start 4
      flags := ← u64leOff b start 8
      addr := ← u64leOff b start 16
      offset := ← u64leOff b start 24
      size := ← u64leOff b start 32
      link := ← u32leOff b start 40
      info := ← u32leOff b start 44
      align := ← u64leOff b start 48
      entsize := ← u64leOff b start 56 })

def parseSections (e : Elf) : Checked Elf :=
  if e.shnum = 0 ∨ e.shoff = 0 then pure e
  else do
    let entrySize := e.shentsize.toNat
    require (¬ entrySize < shdrSize)
      ⟨s!"e_shentsize is {entrySize}, an ELF64 section header is {shdrSize} bytes"⟩
    let raw ← each (readSection e.bytes e.shoff.toNat entrySize) (List.range e.shnum.toNat)
    let names := e.bytesAt (raw.map Prod.snd) e.shstrndx.toNat
    let sections ← each (fun (r : UInt32 × Section) => do
      let name ← cstr names r.1.toNat
      pure { r.2 with name := name }) raw
    pure { e with sections := sections }

def readSymbol (strings : Bytes) (i : Nat) (chunk : Bytes) : Checked Symbol := do
  let nameOff ← u32le chunk 0
  let info ← index chunk 4
  let name ← cstr strings nameOff.toNat
  let other ← index chunk 5
  pure
    { index := i
      name := name
      bind := stBind info
      stype := stType info
      visibility := other &&& 0x3
      shndx := ← u16le chunk 6
      value := ← u64le chunk 8
      size := ← u64le chunk 16 }

def parseSymbols (e : Elf) : Checked Elf :=
  match e.sections.find? fun s => s.shType == shtSymtab with
  | none => pure e
  | some symtab => do
    let strings := e.bytesAt e.sections symtab.link.toNat
    let data ← lift (e.slice symtab.offset symtab.size)
    let step := if symtab.entsize = 0 then symSize else symtab.entsize.toNat
    require (¬ step < symSize) ⟨s!".symtab has sh_entsize {step}, an ELF64 symbol is {symSize} bytes"⟩
    let chunks ← chunksOf step data
    let whole := chunks.takeWhile fun chunk => symSize ≤ chunk.length
    let symbols ← each (fun (r : Bytes × Nat) => readSymbol strings r.2 r.1) whole.zipIdx
    pure { e with symbols := symbols }

def readRelocation (s : Section) (chunk : Bytes) : Checked Relocation := do
  let info ← u64le chunk 8
  pure
    { targetSection := s.info.toNat
      offset := ← u64le chunk 0
      sym := rSym info
      kind := rType info
      addend := ← if s.shType = shtRela then do pure (← u64le chunk 16).toInt64 else pure 0 }

def relocationsOf (e : Elf) (s : Section) : Checked (List Relocation) := do
  let step := if s.shType = shtRela then relaSize else relSize
  let data ← lift (e.slice s.offset s.size)
  let chunks ← chunksOf step data
  each (readRelocation s) (chunks.takeWhile fun chunk => step ≤ chunk.length)

def parseRelocations (e : Elf) : Checked Elf := do
  let relaSections := e.sections.filter fun s => s.shType == shtRela || s.shType == shtRel
  let relocations ← each (relocationsOf e) relaSections
  pure { e with relocations := relocations.flatten }

def parse (bytes : Bytes) : Checked Elf := do
  let e ← parseHeader bytes
  let e ← parseSegments e
  let e ← parseSections e
  let e ← parseSymbols e
  parseRelocations e

end Checked

/-! ## Looking things up -/

def ptLoad : UInt32 := 1

/-- `contains`; the sum saturates. -/
def Segment.contains (s : Segment) (addr : UInt64) : Bool :=
  s.vaddr ≤ addr && decide (addr.toNat < min (s.vaddr.toNat + s.memsz.toNat) (usizes - 1))

namespace Elf

/-- `section`. -/
def sectionNamed (e : Elf) (name : String) : Option Section := e.sections.find? fun s => s.name == name

def loads (e : Elf) : List Segment := e.segments.filter fun s => s.pType == ptLoad

def segmentAt (e : Elf) (addr : UInt64) : Option Segment := e.loads.find? fun s => s.contains addr

end Elf

namespace Checked

/-- `slice`: `checked_add` and `get`, which do not panic. -/
def slice (e : Elf) (offset size : UInt64) : Checked Bytes := lift (e.slice offset size)

def sectionData (e : Elf) (name : String) : Checked Bytes := do
  let s ← demand (e.sectionNamed name) ⟨s!"the file has no section named '{name}'"⟩
  if s.isNobits then pure [] else slice e s.offset s.size

def readAtVaddr (e : Elf) (addr len : UInt64) : Checked Bytes := do
  let shown := hex addr.toNat
  let seg ← demand (e.segmentAt addr) ⟨s!"no PT_LOAD segment maps address 0x{shown}"⟩
  let delta ← subUsize addr.toNat seg.vaddr.toNat
  let vaddr := hex seg.vaddr.toNat
  let filesz := hex seg.filesz.toNat
  require (¬ min (delta + len.toNat) (usizes - 1) > seg.filesz.toNat)
    ⟨s!"address 0x{shown} is inside the segment at 0x{vaddr} but past its {seg.filesz} file bytes " ++
      s!"(p_filesz 0x{filesz}) — .bss has no bytes in the file"⟩
  let offset := hex seg.offset.toNat
  let start ← demand (checkedAdd seg.offset.toNat delta)
    ⟨s!"the segment at 0x{vaddr} claims p_offset 0x{offset}, which overflows"⟩
  slice e (UInt64.ofNat start) len

end Checked

end BuildYourOwn.Link
