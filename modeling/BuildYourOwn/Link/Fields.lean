import BuildYourOwn.Link.Write

/-!
# The ELF64 reader

Model of `Elf::parse` and what it calls, in `linktest/src/elf/read.rs`. A `usize` is a natural number,
and what would go past `usize::MAX` is an error as in the source.
-/

namespace BuildYourOwn.Link

open Lib

structure ElfError where
  message : String

/-- `{:x}`. -/
def hex (n : Nat) : String := String.ofList (Nat.toDigits 16 n)

/-- `{:02x?}` of some bytes. -/
def debugHex (bytes : Bytes) : String :=
  "[" ++ ", ".intercalate (bytes.map fun b => String.ofList (List.leftpad 2 '0' (Nat.toDigits 16 b.toNat))) ++ "]"

structure Section where
  index : Nat
  name : String
  shType : UInt32
  flags : UInt64
  addr : UInt64
  offset : UInt64
  size : UInt64
  link : UInt32
  info : UInt32
  align : UInt64
  entsize : UInt64

def Section.isNobits (s : Section) : Bool := s.shType == shtNobits

/-- A parsed program header. -/
structure Segment where
  index : Nat
  pType : UInt32
  flags : UInt32
  offset : UInt64
  vaddr : UInt64
  paddr : UInt64
  filesz : UInt64
  memsz : UInt64
  align : UInt64

structure Symbol where
  index : Nat
  name : String
  bind : UInt8
  stype : UInt8
  visibility : UInt8
  shndx : UInt16
  value : UInt64
  size : UInt64
deriving DecidableEq

structure Relocation where
  targetSection : Nat
  offset : UInt64
  sym : UInt32
  kind : UInt32
  addend : Int64
deriving DecidableEq

structure Elf where
  bytes : Bytes
  ident : Bytes
  eType : UInt16
  eMachine : UInt16
  eVersion : UInt32
  entry : UInt64
  phoff : UInt64
  shoff : UInt64
  eFlags : UInt32
  ehsize : UInt16
  phentsize : UInt16
  phnum : UInt16
  shentsize : UInt16
  shnum : UInt16
  shstrndx : UInt16
  sections : List Section := []
  segments : List Segment := []
  symbols : List Symbol := []
  relocations : List Relocation := []

/-! ## Bounded reads -/

/-- What a read at `i` of `n` bytes says that does not fit. -/
def wanted (n : Nat) (b : Bytes) (i : Nat) : ElfError :=
  ⟨s!"wanted {n} bytes at offset {i}, the file is only {b.length} bytes"⟩

/-- `n` little-endian bytes at `i`. -/
def leAt (n : Nat) (b : Bytes) (i : Nat) : Except ElfError Nat :=
  if i + n > b.length then .error (wanted n b i) else .ok (ofLittleEndian ((b.drop i).take n))

def u16le (b : Bytes) (i : Nat) : Except ElfError UInt16 := (leAt 2 b i).map UInt16.ofNat

def u32le (b : Bytes) (i : Nat) : Except ElfError UInt32 := (leAt 4 b i).map UInt32.ofNat

def u64le (b : Bytes) (i : Nat) : Except ElfError UInt64 := (leAt 8 b i).map UInt64.ofNat

/-- The file offset of entry `i` of a table, checked to lie wholly inside the file. -/
def entryAt (base i entrySize len : Nat) (what : String) : Except ElfError Nat :=
  if i * entrySize < 2 ^ 64 ∧ base + i * entrySize < 2 ^ 64 ∧ base + i * entrySize + entrySize < 2 ^ 64 ∧
      base + i * entrySize + entrySize ≤ len then
    .ok (base + i * entrySize)
  else
    let base := hex base
    .error ⟨s!"{what} {i} at 0x{base} + {i} * {entrySize} is past the end of a {len}-byte file"⟩

/-- A NUL-terminated string inside `table`. -/
def cstr (table : Bytes) (i : Nat) : String :=
  if table.length ≤ i then "" else fromUtf8Lossy ((table.drop i).takeWhile fun b => b != 0)

namespace Elf

def slice (e : Elf) (offset size : UInt64) : Except ElfError Bytes :=
  let start := offset.toNat
  let stop := start + size.toNat
  if 2 ^ 64 ≤ stop then
    let offset := hex offset.toNat
    let size := hex size.toNat
    .error ⟨s!"offset 0x{offset} + size 0x{size} overflows"⟩
  else if stop ≤ e.bytes.length then .ok ((e.bytes.drop start).take size.toNat)
  else
    let start := hex start
    let stop := hex stop
    .error ⟨s!"bytes 0x{start}..0x{stop} are past the end of a {e.bytes.length}-byte file"⟩

/-! ## Parsing -/

def parseHeader (bytes : Bytes) : Except ElfError Elf := do
  if bytes.length < ehdrSize then
    throw ⟨s!"the file is {bytes.length} bytes; an ELF64 header alone is {ehdrSize}"⟩
  if bytes.take 4 ≠ elfMagic.val then
    let magic := debugHex (bytes.take 4)
    throw ⟨s!"bad magic {magic}, expected 7f 45 4c 46"⟩
  if bytes.getD 4 0 ≠ elfclass64 then
    let class_ := bytes.getD 4 0
    throw ⟨s!"e_ident[EI_CLASS] is {class_}, this parser only reads ELFCLASS64 (2)"⟩
  if bytes.getD 5 0 ≠ elfdata2lsb then
    let data := bytes.getD 5 0
    throw ⟨s!"e_ident[EI_DATA] is {data}, this parser only reads little-endian (1)"⟩
  pure
    { bytes := bytes
      ident := bytes.take eiNident
      eType := ← u16le bytes 16
      eMachine := ← u16le bytes 18
      eVersion := ← u32le bytes 20
      entry := ← u64le bytes 24
      phoff := ← u64le bytes 32
      shoff := ← u64le bytes 40
      eFlags := ← u32le bytes 48
      ehsize := ← u16le bytes 52
      phentsize := ← u16le bytes 54
      phnum := ← u16le bytes 56
      shentsize := ← u16le bytes 58
      shnum := ← u16le bytes 60
      shstrndx := ← u16le bytes 62 }

def readSegment (b : Bytes) (base entrySize i : Nat) : Except ElfError Segment := do
  let start ← entryAt base i entrySize b.length "program header"
  pure
    { index := i
      pType := ← u32le b start
      flags := ← u32le b (start + 4)
      offset := ← u64le b (start + 8)
      vaddr := ← u64le b (start + 16)
      paddr := ← u64le b (start + 24)
      filesz := ← u64le b (start + 32)
      memsz := ← u64le b (start + 40)
      align := ← u64le b (start + 48) }

def parseSegments (e : Elf) : Except ElfError Elf := do
  if e.phnum = 0 then return e
  let entrySize := e.phentsize.toNat
  if entrySize < phdrSize then
    throw ⟨s!"e_phentsize is {entrySize}, an ELF64 program header is {phdrSize} bytes"⟩
  let segments ← (List.range e.phnum.toNat).mapM (readSegment e.bytes e.phoff.toNat entrySize)
  pure { e with segments := segments }

/-- A section header with its `sh_name`, which is not resolved yet. -/
def readSection (b : Bytes) (base entrySize i : Nat) : Except ElfError (UInt32 × Section) := do
  let start ← entryAt base i entrySize b.length "section header"
  let nameOff ← u32le b start
  pure (nameOff,
    { index := i
      name := ""
      shType := ← u32le b (start + 4)
      flags := ← u64le b (start + 8)
      addr := ← u64le b (start + 16)
      offset := ← u64le b (start + 24)
      size := ← u64le b (start + 32)
      link := ← u32le b (start + 40)
      info := ← u32le b (start + 44)
      align := ← u64le b (start + 48)
      entsize := ← u64le b (start + 56) })

def bytesAt (e : Elf) (sections : List Section) (i : Nat) : Bytes :=
  match sections[i]? with
  | some s => (e.slice s.offset s.size).toOption.getD []
  | none => []

def parseSections (e : Elf) : Except ElfError Elf := do
  if e.shnum = 0 ∨ e.shoff = 0 then return e
  let entrySize := e.shentsize.toNat
  if entrySize < shdrSize then
    throw ⟨s!"e_shentsize is {entrySize}, an ELF64 section header is {shdrSize} bytes"⟩
  let raw ← (List.range e.shnum.toNat).mapM (readSection e.bytes e.shoff.toNat entrySize)
  let names := e.bytesAt (raw.map Prod.snd) e.shstrndx.toNat
  pure { e with sections := raw.map fun (nameOff, s) => { s with name := cstr names nameOff.toNat } }

def readSymbol (strings : Bytes) (i : Nat) (chunk : Bytes) : Except ElfError Symbol := do
  let nameOff ← u32le chunk 0
  let info := chunk.getD 4 0
  pure
    { index := i
      name := cstr strings nameOff.toNat
      bind := stBind info
      stype := stType info
      visibility := chunk.getD 5 0 &&& 0x3
      shndx := ← u16le chunk 6
      value := ← u64le chunk 8
      size := ← u64le chunk 16 }

def parseSymbols (e : Elf) : Except ElfError Elf := do
  match e.sections.find? fun s => s.shType == shtSymtab with
  | none => pure e
  | some symtab =>
    let strings := e.bytesAt e.sections symtab.link.toNat
    let data ← e.slice symtab.offset symtab.size
    let step := if symtab.entsize = 0 then symSize else symtab.entsize.toNat
    if step < symSize then
      throw ⟨s!".symtab has sh_entsize {step}, an ELF64 symbol is {symSize} bytes"⟩
    -- a short chunk ends the table
    let whole := (chunks step data).takeWhile fun chunk => symSize ≤ chunk.length
    let symbols ← whole.zipIdx.mapM fun (chunk, i) => readSymbol strings i chunk
    pure { e with symbols := symbols }

def readRelocation (s : Section) (chunk : Bytes) : Except ElfError Relocation := do
  let info ← u64le chunk 8
  pure
    { targetSection := s.info.toNat
      offset := ← u64le chunk 0
      sym := rSym info
      kind := rType info
      addend := ← if s.shType = shtRela then do pure (← u64le chunk 16).toInt64 else pure 0 }

def relocationsOf (e : Elf) (s : Section) : Except ElfError (List Relocation) := do
  let step := if s.shType = shtRela then relaSize else relSize
  let data ← e.slice s.offset s.size
  ((chunks step data).takeWhile fun chunk => step ≤ chunk.length).mapM (readRelocation s)

def parseRelocations (e : Elf) : Except ElfError Elf := do
  let relaSections := e.sections.filter fun s => s.shType == shtRela || s.shType == shtRel
  let relocations ← relaSections.mapM (relocationsOf e)
  pure { e with relocations := relocations.flatten }

def parse (bytes : Bytes) : Except ElfError Elf := do
  let e ← parseHeader bytes
  let e ← parseSegments e
  let e ← parseSections e
  let e ← parseSymbols e
  parseRelocations e

end Elf

end BuildYourOwn.Link

/-!
## What is written in a field is read back

* A number behind any bytes and before any others: `u16le_of_drop`, `u32le_of_drop`, `u64le_of_drop`.
* A name in a string table, however much is added to the table afterwards: `StrTab.Holds`, `holds_addAll`.
* The rows: `readSection_row`, `readSymbol_row`, `readRelocation_row`, and the file header (`parseHeader_header`).
-/

namespace BuildYourOwn.Link

open Lib

variable {b rest : Bytes} {i : Nat}

/-! ## Numbers -/

theorem leAt_of_drop {n : Nat} {field : Bytes} (h : b.drop i = field ++ rest) (hn : field.length = n) (hpos : 0 < n) :
    leAt n b i = .ok (ofLittleEndian field) := by
  have hlength : b.length - i = n + rest.length := by rw [← List.length_drop, h, List.length_append, hn]
  unfold leAt
  rw [if_neg (by omega), h, List.take_left' hn]

theorem u16le_of_drop {v : UInt16} (h : b.drop i = le16 v ++ rest) : u16le b i = .ok v := by
  unfold u16le
  rw [leAt_of_drop h (length_le16 v) (by decide), Except.map, read16_le16]

theorem u32le_of_drop {v : UInt32} (h : b.drop i = le32 v ++ rest) : u32le b i = .ok v := by
  unfold u32le
  rw [leAt_of_drop h (length_le32 v) (by decide), Except.map, read32_le32]

theorem u64le_of_drop {v : UInt64} (h : b.drop i = le64 v ++ rest) : u64le b i = .ok v := by
  unfold u64le
  rw [leAt_of_drop h (length_le64 v) (by decide), Except.map, read64_le64]

/-! ## Names -/

def StrTab.Holds (t : StrTab) (off : UInt32) (s : String) : Prop :=
  ∃ rest, t.bytes.drop off.toNat = asBytes s ++ 0 :: rest

namespace StrTab

variable {t t' : StrTab} {off : UInt32} {s : String}

theorem Holds.mono (h : t.Holds off s) (hmore : t.bytes <+: t'.bytes) : t'.Holds off s := by
  obtain ⟨rest, hrest⟩ := h
  obtain ⟨more, hmore⟩ := hmore
  have hoff : off.toNat ≤ t.bytes.length := by
    by_contra hoff
    rw [List.drop_eq_nil_of_le (by omega)] at hrest
    simp at hrest
  refine ⟨rest ++ more, ?_⟩
  rw [← hmore, List.drop_append_of_le_length hoff, hrest, List.append_assoc, List.cons_append]

/-- **A name is read back**, when no byte of it ends it. -/
theorem Holds.cstr (h : t.Holds off s) (hfree : 0 ∉ asBytes s) : cstr t.bytes off.toNat = s := by
  obtain ⟨rest, hrest⟩ := h
  have hoff : ¬ t.bytes.length ≤ off.toNat := by
    intro hoff
    rw [List.drop_eq_nil_of_le hoff] at hrest
    simp at hrest
  have htake : (asBytes s ++ 0 :: rest).takeWhile (fun b => b != 0) = asBytes s := by
    have hbytes : ∀ x ∈ asBytes s, (x != 0) = true := fun x hx => bne_iff_ne.mpr fun hzero => hfree (hzero ▸ hx)
    rw [List.takeWhile_append_of_pos hbytes, List.takeWhile_cons_of_neg (by decide), List.append_nil]
  unfold Link.cstr
  rw [if_neg hoff, hrest, htake, fromUtf8Lossy_asBytes]

theorem prefix_add : t.bytes <+: (t.add s).2.bytes := by
  unfold add
  split
  · exact List.prefix_refl _
  · exact List.prefix_append _ _

theorem holds_empty (t : StrTab) : t.Holds 0 "" := by
  obtain ⟨bytes, hfirst⟩ := t
  cases bytes with
  | nil => cases hfirst
  | cons x rest =>
    obtain rfl : x = 0 := Option.some.inj hfirst
    exact ⟨rest, rfl⟩

theorem holds_add (hfit : s ≠ "" → t.bytes.length < 2 ^ 32) : (t.add s).2.Holds (t.add s).1 s := by
  unfold add
  split
  · rename_i hs
    exact hs ▸ holds_empty t
  · rename_i hs
    refine ⟨[], ?_⟩
    have hoff : (UInt32.ofNat t.bytes.length).toNat = t.bytes.length := by
      rw [UInt32.toNat_ofNat']
      exact Nat.mod_eq_of_lt (hfit hs)
    rw [hoff, List.drop_left]

def OffsetsFit (t : StrTab) (names : List String) : Prop :=
  ∀ before s after, names = before ++ s :: after → s ≠ "" → (t.addAll before).2.bytes.length < 2 ^ 32

theorem addAll_concat (names : List String) : t.addAll (names ++ [s]) =
    ((t.addAll names).1 ++ [((t.addAll names).2.add s).1], ((t.addAll names).2.add s).2) := by
  unfold addAll
  rw [List.foldl_append]
  rfl

theorem addAll_append (t : StrTab) (names names' : List String) : t.addAll (names ++ names') =
    ((t.addAll names).1 ++ ((t.addAll names).2.addAll names').1, ((t.addAll names).2.addAll names').2) := by
  induction names' using List.reverseRecOn with
  | nil =>
    rw [List.append_nil]
    show _ = (_ ++ [], _)
    rw [List.append_nil]
    rfl
  | append_singleton names' s ih => rw [← List.append_assoc, addAll_concat, addAll_concat, ih, List.append_assoc]

/-- **Every name** is in the table where it was put. -/
theorem holds_addAll {names : List String} (hfit : t.OffsetsFit names) :
    List.Forall₂ (t.addAll names).2.Holds (t.addAll names).1 names := by
  induction names using List.reverseRecOn with
  | nil => exact .nil
  | append_singleton names s ih =>
    have hnames : t.OffsetsFit names := fun before x after h => hfit before x (after ++ [s]) (by rw [h]; simp)
    rw [addAll_concat]
    refine List.rel_append ((ih hnames).imp fun _ _ h => h.mono prefix_add) (.cons ?_ .nil)
    exact holds_add fun hs => hfit names s [] rfl hs

theorem prefix_addAll (names : List String) : t.bytes <+: (t.addAll names).2.bytes := by
  induction names using List.reverseRecOn with
  | nil => exact List.prefix_refl _
  | append_singleton names s ih =>
    rw [addAll_concat]
    exact ih.trans prefix_add

theorem offsetsFit_of_lt {names : List String} (h : (t.addAll names).2.bytes.length < 2 ^ 32) : t.OffsetsFit names := by
  rintro before s after rfl -
  rw [addAll_append] at h
  exact (prefix_addAll _).length_le.trans_lt h

theorem length_addAll (names : List String) : (t.addAll names).1.length = names.length := by
  induction names using List.reverseRecOn with
  | nil => rfl
  | append_singleton names s ih =>
    rw [addAll_concat, List.length_append, List.length_append, ih]
    rfl

end StrTab

/-! ## Rows -/

theorem entryAt_ok {base entrySize len : Nat} {what : String} (h : base + i * entrySize + entrySize ≤ len)
    (hlen : len < 2 ^ 64) : entryAt base i entrySize len what = .ok (base + i * entrySize) := by
  unfold entryAt
  exact if_pos ⟨by omega, by omega, by omega, h⟩

/-- What a header says, with its place in the table and the offset of its contents. -/
def Shdr.read (s : Shdr) (name : String) (i : Nat) (offset : UInt64) : Section where
  index := i
  name := name
  shType := s.shType
  flags := s.flags
  addr := s.addr
  offset := offset
  size := s.size
  link := s.link
  info := s.info
  align := s.align
  entsize := s.entsize

@[simp] theorem length_shdrBytes (nameOff : UInt32) (s : Shdr) (offset : UInt64) :
    (Layout.shdrBytes nameOff s offset).length = shdrSize := by
  simp [Layout.shdrBytes, shdrSize]

theorem readSection_row {base : Nat} {nameOff : UInt32} {s : Shdr} {offset : UInt64}
    (h : b.drop (base + i * shdrSize) = Layout.shdrBytes nameOff s offset ++ rest) (hlen : b.length < 2 ^ 64) :
    Elf.readSection b base shdrSize i = .ok (nameOff, s.read "" i offset) := by
  have hfits : base + i * shdrSize + shdrSize ≤ b.length := by
    have hlength := congrArg List.length h
    rw [List.length_drop, List.length_append, length_shdrBytes] at hlength
    unfold shdrSize at hlength ⊢
    omega
  simp only [Layout.shdrBytes, List.append_assoc] at h
  have h₁ : b.drop (base + i * shdrSize + 4) = _ := drop_field h (length_le32 _) rfl
  have h₂ : b.drop (base + i * shdrSize + 8) = _ := drop_field h₁ (length_le32 _) rfl
  have h₃ : b.drop (base + i * shdrSize + 16) = _ := drop_field h₂ (length_le64 _) rfl
  have h₄ : b.drop (base + i * shdrSize + 24) = _ := drop_field h₃ (length_le64 _) rfl
  have h₅ : b.drop (base + i * shdrSize + 32) = _ := drop_field h₄ (length_le64 _) rfl
  have h₆ : b.drop (base + i * shdrSize + 40) = _ := drop_field h₅ (length_le64 _) rfl
  have h₇ : b.drop (base + i * shdrSize + 44) = _ := drop_field h₆ (length_le32 _) rfl
  have h₈ : b.drop (base + i * shdrSize + 48) = _ := drop_field h₇ (length_le32 _) rfl
  have h₉ : b.drop (base + i * shdrSize + 56) = _ := drop_field h₈ (length_le64 _) rfl
  unfold Elf.readSection
  rw [entryAt_ok hfits hlen]
  simp only [bind, Except.bind, u32le_of_drop h, u32le_of_drop h₁, u64le_of_drop h₂, u64le_of_drop h₃,
    u64le_of_drop h₄, u64le_of_drop h₅, u32le_of_drop h₆, u32le_of_drop h₇, u64le_of_drop h₈, u64le_of_drop h₉]
  rfl

theorem getD_of_drop {x : UInt8} (h : b.drop i = [x] ++ rest) : b.getD i 0 = x := by
  have hx : (b.drop i)[0]? = some x := by rw [h]; rfl
  rw [List.getElem?_drop, Nat.add_zero] at hx
  rw [List.getD_eq_getElem?_getD, hx]
  rfl

@[simp] theorem length_symBytes (name : UInt32) (info other : UInt8) (shndx : UInt16) (value size : UInt64) :
    (symBytes name info other shndx value size).length = symSize := by
  simp [symBytes, symSize]

theorem readSymbol_row (strings : Bytes) (i : Nat) (name : UInt32) (info other : UInt8) (shndx : UInt16)
    (value size : UInt64) : Elf.readSymbol strings i (symBytes name info other shndx value size) = .ok
      { index := i
        name := cstr strings name.toNat
        bind := stBind info
        stype := stType info
        visibility := other &&& 0x3
        shndx := shndx
        value := value
        size := size } := by
  obtain ⟨chunk, hchunk⟩ : ∃ chunk, chunk = symBytes name info other shndx value size := ⟨_, rfl⟩
  have h : chunk.drop 0 = symBytes name info other shndx value size ++ [] := by
    rw [List.drop_zero, List.append_nil, hchunk]
  rw [← hchunk]
  simp only [symBytes, List.append_assoc] at h
  have h₁ : chunk.drop 4 = _ := drop_field h (length_le32 _) rfl
  have h₂ : chunk.drop 5 = _ := drop_field h₁ rfl rfl
  have h₃ : chunk.drop 6 = _ := drop_field h₂ rfl rfl
  have h₄ : chunk.drop 8 = _ := drop_field h₃ (length_le16 _) rfl
  have h₅ : chunk.drop 16 = _ := drop_field h₄ (length_le64 _) rfl
  unfold Elf.readSymbol
  simp only [bind, Except.bind, u32le_of_drop h, getD_of_drop h₁, getD_of_drop h₂, u16le_of_drop h₃,
    u64le_of_drop h₄, u64le_of_drop h₅]
  rfl

@[simp] theorem length_relaBytes (sym : UInt32) (r : Reloc) : (relaBytes sym r).length = relaSize := by
  simp [relaBytes, relaSize]

theorem readRelocation_row {s : Section} (hs : s.shType = shtRela) (sym : UInt32) (r : Reloc) :
    Elf.readRelocation s (relaBytes sym r) = .ok
      { targetSection := s.info.toNat
        offset := r.offset
        sym := sym
        kind := r.kind
        addend := r.addend } := by
  obtain ⟨chunk, hchunk⟩ : ∃ chunk, chunk = relaBytes sym r := ⟨_, rfl⟩
  have h : chunk.drop 0 = relaBytes sym r ++ [] := by rw [List.drop_zero, List.append_nil, hchunk]
  rw [← hchunk]
  simp only [relaBytes, List.append_assoc] at h
  have h₁ : chunk.drop 8 = _ := drop_field h (length_le64 _) rfl
  have h₂ : chunk.drop 16 = _ := drop_field h₁ (length_le64 _) rfl
  unfold Elf.readRelocation
  simp only [bind, Except.bind, u64le_of_drop h, u64le_of_drop h₁, u64le_of_drop h₂, hs, if_true, pure, Except.pure,
    rSym_rInfo, rType_rInfo, Int64.toInt64_toUInt64]

/-! ## The file header -/

theorem parseHeader_header {l : Layout} {shoff : UInt64} (h : b = Layout.headerBytes l {} shoff ++ rest) :
    Elf.parseHeader b = .ok
      { bytes := b
        ident := b.take eiNident
        eType := etRel
        eMachine := emX86_64
        eVersion := evCurrent.toUInt32
        entry := 0
        phoff := 0
        shoff := shoff
        eFlags := 0
        ehsize := UInt16.ofNat ehdrSize
        phentsize := 0
        phnum := 0
        shentsize := UInt16.ofNat shdrSize
        shnum := UInt16.ofNat l.shdrs.length
        shstrndx := l.shstrtabIndex } := by
  have hlength : ¬ b.length < ehdrSize := by
    rw [h, List.length_append]
    simp [Layout.headerBytes, elfMagic, ehdrSize]
  have h₀ : b.drop 0 = Layout.headerBytes l {} shoff ++ rest := h
  simp only [Layout.headerBytes, List.append_assoc, Option.getD_none] at h₀
  have h₁ : b.drop 4 = _ := drop_field h₀ rfl rfl
  have h₂ : b.drop 5 = _ := drop_field h₁ rfl rfl
  have h₃ : b.drop 6 = _ := drop_field h₂ rfl rfl
  have h₄ : b.drop 7 = _ := drop_field h₃ rfl rfl
  have h₅ : b.drop 8 = _ := drop_field h₄ rfl rfl
  have h₆ : b.drop 16 = _ := drop_field h₅ rfl rfl
  have h₇ : b.drop 18 = _ := drop_field h₆ (length_le16 _) rfl
  have h₈ : b.drop 20 = _ := drop_field h₇ (length_le16 _) rfl
  have h₉ : b.drop 24 = _ := drop_field h₈ (length_le32 _) rfl
  have h₁₀ : b.drop 32 = _ := drop_field h₉ (length_le64 _) rfl
  have h₁₁ : b.drop 40 = _ := drop_field h₁₀ (length_le64 _) rfl
  have h₁₂ : b.drop 48 = _ := drop_field h₁₁ (length_le64 _) rfl
  have h₁₃ : b.drop 52 = _ := drop_field h₁₂ (length_le32 _) rfl
  have h₁₄ : b.drop 54 = _ := drop_field h₁₃ (length_le16 _) rfl
  have h₁₅ : b.drop 56 = _ := drop_field h₁₄ (length_le16 _) rfl
  have h₁₆ : b.drop 58 = _ := drop_field h₁₅ (length_le16 _) rfl
  have h₁₇ : b.drop 60 = _ := drop_field h₁₆ (length_le16 _) rfl
  have h₁₈ : b.drop 62 = _ := drop_field h₁₇ (length_le16 _) rfl
  have hmagic : b.take 4 = elfMagic.val := by
    rw [List.drop_zero] at h₀
    rw [h₀]
    exact List.take_left' rfl
  unfold Elf.parseHeader
  rw [if_neg hlength, if_neg (not_not_intro hmagic), getD_of_drop h₁, getD_of_drop h₂, if_neg (not_not_intro rfl),
    if_neg (not_not_intro rfl)]
  simp only [bind, Except.bind, pure, Except.pure, u16le_of_drop h₆, u16le_of_drop h₇, u32le_of_drop h₈,
    u64le_of_drop h₉, u64le_of_drop h₁₀, u64le_of_drop h₁₁, u32le_of_drop h₁₂, u16le_of_drop h₁₃,
    u16le_of_drop h₁₄, u16le_of_drop h₁₅, u16le_of_drop h₁₆, u16le_of_drop h₁₇, u16le_of_drop h₁₈]

end BuildYourOwn.Link
