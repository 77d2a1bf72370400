import BuildYourOwn.Lib.Folds
import BuildYourOwn.Link.Fields

/-!
# What an object says

What is in the file of an object, whatever the layout, in the words of the format: the symbols in the order of the table,
with the sections they are bound to, and the entries a relocation points at. `ReadsBack` says that a parsed file has all
of it.

* `ObjectBuilder.Ordinary`: nothing is overridden or left out, and every value is within its bits.
* `ObjectBuilder.Declared`: what symbols and relocations name is there.
* `ObjectBuilder.Fits`: the counts, and the offsets of the names, fit their fields.
-/

namespace BuildYourOwn.Link

open Lib

/-! ## Symbols and targets -/

/-- `st_shndx`, when the sections are at `place`. -/
def SymSection.shndx (place : String → Nat) : SymSection → UInt16
  | .undefined => shnUndef
  | .absolute => shnAbs
  | .common => shnCommon
  | .section name => UInt16.ofNat (place name)
  | .raw v => v

namespace SymbolSpec

def null : SymbolSpec where
  name := ""
  bind := stbLocal
  stype := sttNotype
  visibility := stvDefault
  «section» := .undefined
  value := 0
  size := 0

def ofSection (s : SectionSpec) : SymbolSpec :=
  { null with stype := sttSection, «section» := .section s.name }

def read (place : String → Nat) (s : SymbolSpec) (i : Nat) : Symbol where
  index := i
  name := s.name
  bind := s.bind
  stype := s.stype
  visibility := s.visibility
  shndx := s.section.shndx place
  value := s.value
  size := s.size

end SymbolSpec

namespace ObjectBuilder

variable (b : ObjectBuilder)

def ordered : List SymbolSpec :=
  (b.symbols.filter fun s => s.bind == stbLocal) ++ b.symbols.filter fun s => s.bind != stbLocal

def symbolTable : List SymbolSpec := SymbolSpec.null :: b.sections.map SymbolSpec.ofSection ++ b.ordered

def targetIndex : RelTarget → UInt32
  | .symbol name => UInt32.ofNat (1 + b.sections.length + b.ordered.findIdx fun s => s.name == name)
  | .section name => UInt32.ofNat (1 + b.sections.findIdx fun s => s.name == name)
  | .raw i => i

/-! ## Objects that are written as they are -/

structure Ordinary : Prop where
  header : b.header = {}
  truncate : b.truncateTo = none
  sectionSymbols : b.omitSectionSymbols = false
  plain : ∀ s ∈ b.sections, s.offsetOverride = none ∧ s.sizeOverride = none ∧ s.linkOverride = none ∧
    s.infoOverride = none
  types : ∀ s ∈ b.sections, s.shType ∉ [shtNull, shtSymtab, shtRela, shtRel]
  sectionNames : ∀ s ∈ b.sections, 0 ∉ asBytes s.name
  symbolNames : ∀ s ∈ b.symbols, 0 ∉ asBytes s.name
  symbols : ∀ s ∈ b.symbols, s.bind < 16 ∧ s.stype < 16 ∧ s.visibility < 4

def HasSection (name : String) : Prop := name ∈ b.sections.map SectionSpec.name

def Resolves : RelTarget → Prop
  | .symbol name => name ≠ "" ∧ name ∈ b.symbols.map SymbolSpec.name
  | .section name => b.HasSection name
  | .raw _ => True

structure Declared : Prop where
  symbols : ∀ s ∈ b.symbols, ∀ name, s.section = .section name → b.HasSection name
  relocs : ∀ s ∈ b.sections, ∀ r ∈ s.relocs, b.Resolves r.target

def relocated : List SectionSpec := b.sections.filter fun s => !s.relocs.isEmpty

structure Fits : Prop where
  headers : b.sections.length + b.relocated.length + 4 < 2 ^ 16
  symbols : 1 + b.sections.length + b.symbols.length < 2 ^ 32
  symbolNames : StrTab.new.OffsetsFit (b.ordered.map SymbolSpec.name)
  sectionNames : ∀ l, Layout.plan b = .ok l → StrTab.new.OffsetsFit (l.shdrs.map Shdr.name)

/-- The section header table, as the names and types of its entries. -/
def headers : List (String × UInt32) :=
  let sections := b.sections.map fun s => (s.name, s.shType)
  let relas := b.relocated.map fun s => (".rela" ++ s.name, shtRela)
  let tables := [(".symtab", shtSymtab), (".strtab", shtStrtab), (".shstrtab", shtStrtab)]
  ("", shtNull) :: if b.symtabFirst then tables ++ (sections ++ relas)
    else if b.relaBeforeTarget then
      b.sections.flatMap (fun s =>
        (if s.relocs.isEmpty then [] else [(".rela" ++ s.name, shtRela)]) ++ [(s.name, s.shType)]) ++ tables
    else sections ++ relas ++ tables

end ObjectBuilder

/-! ## Parsed files -/

def Section.fileSize (s : Section) : Nat := if s.shType = shtNull ∨ s.isNobits then 0 else s.size.toNat

structure Section.Reads (sec : Section) (e : Elf) (s : SectionSpec) : Prop where
  name : sec.name = s.name
  shType : sec.shType = s.shType
  flags : sec.flags = s.flags
  addr : sec.addr = s.addr
  align : sec.align = s.align
  entsize : sec.entsize = s.entsize
  size : sec.size = s.size
  bytes : ¬ sec.isNobits → e.slice sec.offset sec.size = .ok s.data
  aligned : max s.align.toNat 1 ∣ sec.offset.toNat

def RelTarget.Points (e : Elf) (place : String → Nat) (i : UInt32) : RelTarget → Prop
  | .symbol name => ∃ symbol, e.symbols[i.toNat]? = some symbol ∧ symbol.name = name
  | .section name => ∃ symbol, e.symbols[i.toNat]? = some symbol ∧ symbol.stype = sttSection ∧
      symbol.shndx = UInt16.ofNat (place name)
  | .raw j => i = j

/-- **A parsed file has what the object says**, with the sections at `place`. -/
structure ReadsBack (b : ObjectBuilder) (e : Elf) (place : String → Nat) : Prop where
  headers : e.sections.map (fun sec => (sec.name, sec.shType)) = b.headers
  sections : ∀ s ∈ b.sections, ∃ sec, e.sections[place s.name]? = some sec ∧ sec.Reads e s
  once : (b.sections.map fun s => place s.name).Pairwise (· < ·)
  apart : e.sections.Pairwise fun sec sec' =>
    sec.offset.toNat + sec.fileSize ≤ sec'.offset.toNat ∨ sec.fileSize = 0 ∨ sec'.fileSize = 0
  symbols : e.symbols = b.symbolTable.zipIdx.map fun (s, i) => s.read place i
  firstGlobal : ∀ sec ∈ e.sections, sec.shType = shtSymtab →
    sec.info.toNat = e.symbols.findIdx fun symbol => symbol.bind != stbLocal
  relocations : e.relocations = b.sections.flatMap fun s => s.relocs.map fun r =>
    { targetSection := place s.name, offset := r.offset, sym := b.targetIndex r.target, kind := r.kind,
      addend := r.addend }
  targets : ∀ s ∈ b.sections, ∀ r ∈ s.relocs, r.target.Points e place (b.targetIndex r.target)

end BuildYourOwn.Link

/-!
## The symbol table and what the relocations point at

* `lookup_indexed`: the first entry of a name, in a list numbered from some index on.
* **`symbolTables_eq_ok`**: the symbols are resolved when every section they name is declared, and then the table has the
  null symbol, those of the sections, the locals and the others, in this order.
* **`relaFor_eq_ok`**: the relocations are resolved when every target is declared.
-/

namespace BuildYourOwn.Link

open Lib Layout

variable {b : ObjectBuilder} {name : String} {α : Type}

/-! ## Numbered names -/

/-- The names of what is kept, each with its number from `k` on. -/
def indexed (keep : α → Bool) (key : α → String) (k : Nat) (l : List α) : List (String × Nat) :=
  ((l.zipIdx k).filter fun x => keep x.1).map fun x => (key x.1, x.2)

theorem indexed_append (keep : α → Bool) (key : α → String) (k : Nat) (l l' : List α) :
    indexed keep key k (l ++ l') = indexed keep key k l ++ indexed keep key (k + l.length) l' := by
  unfold indexed
  rw [List.zipIdx_append, List.filter_append, List.map_append]

theorem indexed_cons (keep : α → Bool) (key : α → String) (k : Nat) (a : α) (l : List α) :
    indexed keep key k (a :: l) = (if keep a then [(key a, k)] else []) ++ indexed keep key (k + 1) l := by
  unfold indexed
  rw [List.zipIdx_cons, List.filter_cons]
  split <;> rfl

theorem lookup_indexed {keep : α → Bool} {key : α → String} {l : List α} (hkeep : ∀ a ∈ l, key a = name → keep a = true)
    (h : name ∈ l.map key) (k : Nat) :
    (indexed keep key k l).lookup name = some (k + l.findIdx fun a => key a == name) := by
  induction l generalizing k with
  | nil => cases h
  | cons a l ih =>
    obtain ⟨ha, hrest⟩ := List.forall_mem_cons.mp hkeep
    rw [List.findIdx_cons, indexed_cons]
    by_cases hname : key a = name
    · rw [if_pos (ha hname), hname, List.singleton_append, List.lookup_cons_self, beq_self_eq_true]
      rfl
    · have hmem : name ∈ l.map key := (List.mem_cons.mp h).resolve_left fun h => hname h.symm
      have hne : (name == key a) = false := beq_false_of_ne fun h => hname h.symm
      have hfront : ((if keep a then [(key a, k)] else []) ++ indexed keep key (k + 1) l).lookup name =
          (indexed keep key (k + 1) l).lookup name := by
        split
        · rw [List.singleton_append, List.lookup_cons, hne]
        · rfl
      rw [hfront, ih hrest hmem, beq_false_of_ne hname, cond_false, Nat.add_assoc, Nat.add_comm 1]

theorem lookup_indexed_none {keep : α → Bool} {key : α → String} {l : List α} {k : Nat}
    (h : ∀ a ∈ l, keep a = true → key a ≠ name) : (indexed keep key k l).lookup name = none := by
  rw [List.lookup_eq_none_iff]
  intro p hp
  obtain ⟨x, hx, rfl⟩ := List.mem_map.mp hp
  obtain ⟨hx, hk⟩ := List.mem_filter.mp hx
  exact bne_iff_ne.mpr fun hname => h x.1 (List.fst_mem_of_mem_zipIdx hx) hk hname.symm

/-! ## The sections that symbols are bound to -/

def ObjectBuilder.indexOf (b : ObjectBuilder) : List (String × Nat) :=
  number b.relaBeforeTarget (contentBase b) b.sections

/-- Where a section goes. -/
def ObjectBuilder.placeOf (b : ObjectBuilder) (name : String) : Nat := (b.indexOf.lookup name).getD 0

theorem map_fst_number (relaBeforeTarget : Bool) (next : Nat) (sections : List SectionSpec) :
    (number relaBeforeTarget next sections).map Prod.fst = sections.map SectionSpec.name := by
  induction sections generalizing next with
  | nil => rfl
  | cons s sections ih => rw [number, List.map_cons, List.map_cons, ih]

theorem hasSection_iff : b.HasSection name ↔ b.indexOf.lookup name ≠ none := by
  unfold ObjectBuilder.HasSection ObjectBuilder.indexOf
  rw [← map_fst_number b.relaBeforeTarget (contentBase b), ne_eq, List.lookup_eq_none_iff]
  constructor
  · intro h hnone
    obtain ⟨p, hp, rfl⟩ := List.mem_map.mp h
    exact bne_iff_ne.mp (hnone p hp) rfl
  · intro h
    by_contra hname
    refine h fun p hp => bne_iff_ne.mpr fun heq => hname ?_
    exact heq ▸ List.mem_map_of_mem hp

theorem sectionIndex_eq_ok {i : Nat} :
    sectionIndex b.indexOf name = .ok i ↔ b.HasSection name ∧ i = b.placeOf name := by
  unfold sectionIndex ObjectBuilder.placeOf
  rw [hasSection_iff]
  cases b.indexOf.lookup name with
  | none => simp
  | some j => simp [eq_comm]

theorem shndxOf_eq_ok {sec : SymSection} {v : UInt16} : shndxOf b.indexOf sec = .ok v ↔
    (∀ name, sec = .section name → b.HasSection name) ∧ v = sec.shndx b.placeOf := by
  cases sec with
  | «section» name =>
    unfold shndxOf SymSection.shndx
    cases hindex : sectionIndex b.indexOf name with
    | ok i =>
      obtain ⟨hname, rfl⟩ := sectionIndex_eq_ok.mp hindex
      simp [hname, hindex, Except.map, eq_comm]
    | error message =>
      have hname : ¬ b.HasSection name := by
        intro hname
        rw [sectionIndex_eq_ok.mpr ⟨hname, rfl⟩] at hindex
        cases hindex
      simp [hname, hindex, Except.map]
  | _ => simp [shndxOf, SymSection.shndx, eq_comm]

/-! ## The table -/

def SymbolSpec.row (place : String → Nat) (off : UInt32) (s : SymbolSpec) : Bytes :=
  symBytes off (stInfo s.bind s.stype) s.visibility (s.section.shndx place) s.value s.size

def Symbols.with (t : Symbols) (place : String → Nat) (specs : List SymbolSpec) : Symbols where
  syms := t.syms ++ List.zipWith (SymbolSpec.row place) (t.strtab.addAll (specs.map SymbolSpec.name)).1 specs
  symIndex := t.symIndex ++ indexed (fun s => s.name != "") SymbolSpec.name t.syms.length specs
  strtab := (t.strtab.addAll (specs.map SymbolSpec.name)).2

theorem length_with (t : Symbols) (place : String → Nat) (specs : List SymbolSpec) :
    (t.with place specs).syms.length = t.syms.length + specs.length := by
  unfold Symbols.with
  rw [List.length_append, List.length_zipWith, StrTab.length_addAll, List.length_map, Nat.min_self]

/-- One more. -/
theorem pushSym_eq_ok {t t' : Symbols} {s : SymbolSpec} : pushSym b.indexOf t s = .ok t' ↔
    (∀ name, s.section = .section name → b.HasSection name) ∧ t' = t.with b.placeOf [s] := by
  have hadd : t.strtab.addAll [s.name] = ([(t.strtab.add s.name).1], (t.strtab.add s.name).2) := rfl
  have hwith : t.with b.placeOf [s] =
      { syms := t.syms ++ [SymbolSpec.row b.placeOf (t.strtab.add s.name).1 s]
        symIndex := if s.name = "" then t.symIndex else t.symIndex ++ [(s.name, t.syms.length)]
        strtab := (t.strtab.add s.name).2 } := by
    unfold Symbols.with
    rw [List.map_singleton, hadd, indexed_cons]
    by_cases hs : s.name = ""
    · simp [hs, indexed]
    · simp [hs, indexed]
  unfold pushSym
  rw [bind_eq_ok, hwith]
  constructor
  · rintro ⟨shndx, hshndx, h⟩
    obtain ⟨hname, rfl⟩ := shndxOf_eq_ok.mp hshndx
    exact ⟨hname, (Except.ok.inj h).symm⟩
  · rintro ⟨hname, rfl⟩
    exact ⟨_, shndxOf_eq_ok.mpr ⟨hname, rfl⟩, rfl⟩

theorem with_with (t : Symbols) (place : String → Nat) (specs specs' : List SymbolSpec) :
    (t.with place specs).with place specs' = t.with place (specs ++ specs') := by
  have hcount : (t.strtab.addAll (specs.map SymbolSpec.name)).1.length = specs.length := by
    rw [StrTab.length_addAll, List.length_map]
  have hlength := length_with t place specs
  have haddAll := t.strtab.addAll_append (specs.map SymbolSpec.name) (specs'.map SymbolSpec.name)
  rw [Symbols.with, hlength]
  simp only [Symbols.with, List.map_append, haddAll, indexed_append, List.zipWith_append hcount, List.append_assoc]

theorem foldlM_pushSym {t t' : Symbols} {specs : List SymbolSpec} : specs.foldlM (pushSym b.indexOf) t = .ok t' ↔
    (∀ s ∈ specs, ∀ name, s.section = .section name → b.HasSection name) ∧ t' = t.with b.placeOf specs := by
  induction specs generalizing t with
  | nil =>
    have hnil : t.with b.placeOf [] = t := by
      unfold Symbols.with
      simp [indexed, StrTab.addAll]
    rw [List.foldlM_nil, hnil]
    exact ⟨fun h => ⟨List.forall_mem_nil _, (Except.ok.inj h).symm⟩, fun h => h.2 ▸ rfl⟩
  | cons s specs ih =>
    rw [List.foldlM_cons, bind_eq_ok, List.forall_mem_cons]
    constructor
    · rintro ⟨t₁, hpush, h⟩
      obtain ⟨hs, rfl⟩ := pushSym_eq_ok.mp hpush
      obtain ⟨hspecs, rfl⟩ := ih.mp h
      exact ⟨⟨hs, hspecs⟩, with_with t _ [s] specs⟩
    · rintro ⟨⟨hs, hspecs⟩, rfl⟩
      exact ⟨_, pushSym_eq_ok.mpr ⟨hs, rfl⟩, ih.mpr ⟨hspecs, (with_with t _ [s] specs).symm⟩⟩

theorem foldlM_sectionSyms {sections : List SectionSpec} (hsections : ∀ s ∈ sections, b.HasSection s.name)
    (syms : List Bytes) (index : List (String × Nat)) : sections.foldlM (fun (syms, index) s => do
      let shndx ← sectionIndex b.indexOf s.name
      pure (syms ++ [symBytes 0 (stInfo stbLocal sttSection) stvDefault (UInt16.ofNat shndx) 0 0],
        index ++ [(s.name, syms.length)])) (syms, index) =
    (.ok (syms ++ sections.map (fun s => (SymbolSpec.ofSection s).row b.placeOf 0),
      index ++ indexed (fun _ => true) SectionSpec.name syms.length sections) :
      Except String (List Bytes × List (String × Nat))) := by
  induction sections generalizing syms index with
  | nil => simp [indexed, pure, Except.pure]
  | cons s sections ih =>
    obtain ⟨hs, hrest⟩ := List.forall_mem_cons.mp hsections
    rw [List.foldlM_cons]
    rw [sectionIndex_eq_ok.mpr ⟨hs, rfl⟩]
    simp only [bind, Except.bind, pure, Except.pure] at ih ⊢
    rw [ih hrest, indexed_cons, List.length_append, List.append_assoc, List.append_assoc]
    rfl

namespace ObjectBuilder

def baseSymbols (b : ObjectBuilder) : Symbols where
  syms := SymbolSpec.null.row b.placeOf 0 :: b.sections.map fun s => (SymbolSpec.ofSection s).row b.placeOf 0
  symIndex := []
  strtab := StrTab.new

def tables (b : ObjectBuilder) : SymbolTables :=
  { b.baseSymbols.with b.placeOf b.ordered with
    sectionSymIndex := indexed (fun _ => true) SectionSpec.name 1 b.sections
    firstGlobal := 1 + b.sections.length + (b.symbols.filter fun s => s.bind == stbLocal).length }

def relaData (b : ObjectBuilder) (s : SectionSpec) : Bytes :=
  s.relocs.flatMap fun r => relaBytes (b.targetIndex r.target) r

end ObjectBuilder

theorem length_baseSymbols : b.baseSymbols.syms.length = 1 + b.sections.length := by
  unfold ObjectBuilder.baseSymbols
  rw [List.length_cons, List.length_map, Nat.add_comm]

theorem mem_ordered {s : SymbolSpec} : s ∈ b.ordered ↔ s ∈ b.symbols := by
  unfold ObjectBuilder.ordered
  rw [List.mem_append, List.mem_filter, List.mem_filter, ← and_or_left]
  refine and_iff_left ?_
  by_cases hs : s.bind = stbLocal
  · exact .inl (beq_iff_eq.mpr hs)
  · exact .inr (bne_iff_ne.mpr hs)

theorem symbolTables_eq_ok (homit : b.omitSectionSymbols = false) {t : SymbolTables} :
    symbolTables b b.indexOf = .ok t ↔
      (∀ s ∈ b.symbols, ∀ name, s.section = .section name → b.HasSection name) ∧ t = b.tables := by
  have hsections : sectionSyms b.indexOf b.sections =
      .ok (b.baseSymbols.syms, indexed (fun _ => true) SectionSpec.name 1 b.sections) := by
    have hnull : SymbolSpec.null.row b.placeOf 0 = List.replicate symSize 0 := by
      show symBytes 0 (stInfo stbLocal sttNotype) stvDefault shnUndef 0 0 = _
      decide
    unfold ObjectBuilder.baseSymbols
    rw [hnull]
    exact foldlM_sectionSyms (fun s hs => List.mem_map_of_mem hs) [List.replicate symSize 0] []
  have hbase : (⟨b.baseSymbols.syms, [], StrTab.new⟩ : Symbols) = b.baseSymbols := rfl
  unfold symbolTables
  rw [homit, if_neg (by decide), hsections]
  have hbind : ∀ x : List Bytes × List (String × Nat), ∀ k : List Bytes × List (String × Nat) → Except String SymbolTables,
      ((.ok x : Except String _) >>= k) = k x := fun _ _ => rfl
  rw [hbind]
  dsimp only
  rw [hbase, bind_eq_ok]
  constructor
  · rintro ⟨locals, hlocals, h⟩
    obtain ⟨all, hall, h⟩ := bind_eq_ok.mp h
    obtain ⟨hdeclared, rfl⟩ := foldlM_pushSym.mp hlocals
    obtain ⟨hdeclared', rfl⟩ := foldlM_pushSym.mp hall
    refine ⟨fun s hs => ?_, ?_⟩
    · rcases List.mem_append.mp (mem_ordered.mpr hs) with hs | hs
      · exact hdeclared s hs
      · exact hdeclared' s hs
    · rw [← Except.ok.inj h, with_with, length_with, length_baseSymbols]
      rfl
  · rintro ⟨hdeclared, rfl⟩
    refine ⟨_, foldlM_pushSym.mpr ⟨fun s hs => hdeclared s (List.mem_filter.mp hs).1, rfl⟩, bind_eq_ok.mpr
      ⟨_, foldlM_pushSym.mpr ⟨fun s hs => hdeclared s (List.mem_filter.mp hs).1, rfl⟩, ?_⟩⟩
    rw [with_with, length_with, length_baseSymbols]
    rfl

/-! ## What the relocations point at -/

theorem relaSym_eq_ok {s : SectionSpec} {target : RelTarget} {i : UInt32} :
    relaSym b.tables s target = .ok i ↔ b.Resolves target ∧ i = b.targetIndex target := by
  cases target with
  | raw j => simp [relaSym, ObjectBuilder.Resolves, ObjectBuilder.targetIndex, eq_comm]
  | symbol name =>
    have hmem : name ∈ b.symbols.map SymbolSpec.name ↔ name ∈ b.ordered.map SymbolSpec.name := by
      simp only [List.mem_map, mem_ordered]
    have hindex : b.tables.symIndex = indexed (fun s => s.name != "") SymbolSpec.name (1 + b.sections.length) b.ordered := by
      show [] ++ indexed _ _ b.baseSymbols.syms.length _ = _
      rw [List.nil_append, length_baseSymbols]
    unfold relaSym ObjectBuilder.Resolves ObjectBuilder.targetIndex
    dsimp only
    rw [hindex, hmem]
    by_cases h : name ≠ "" ∧ name ∈ b.ordered.map SymbolSpec.name
    · rw [lookup_indexed (fun s _ hs => bne_iff_ne.mpr (hs ▸ h.1)) h.2]
      simp [h, eq_comm]
    · rw [lookup_indexed_none fun s hs hkeep (hname : s.name = name) =>
        h ⟨hname ▸ bne_iff_ne.mp hkeep, hname ▸ List.mem_map_of_mem hs⟩]
      exact ⟨fun hi => (nomatch hi), fun hi => absurd hi.1 h⟩
  | «section» name =>
    have hindex : b.tables.sectionSymIndex = indexed (fun _ => true) SectionSpec.name 1 b.sections := rfl
    unfold relaSym ObjectBuilder.Resolves ObjectBuilder.targetIndex
    dsimp only
    rw [hindex]
    by_cases h : b.HasSection name
    · rw [lookup_indexed (fun _ _ _ => rfl) h]
      simp [h, eq_comm]
    · rw [lookup_indexed_none fun s hs _ (hname : s.name = name) => h (hname ▸ List.mem_map_of_mem hs)]
      simp [h]

theorem relaFor_eq_ok {relas : List (String × Bytes)} : relaFor b.tables b.sections = .ok relas ↔
    (∀ s ∈ b.sections, ∀ r ∈ s.relocs, b.Resolves r.target) ∧ relas = b.relocated.map fun s => (s.name, b.relaData s) := by
  have hrelocated : (∀ s ∈ b.relocated, ∀ r ∈ s.relocs, b.Resolves r.target) ↔
      ∀ s ∈ b.sections, ∀ r ∈ s.relocs, b.Resolves r.target := by
    refine ⟨fun h s hs r hr => h s (List.mem_filter.mpr ⟨hs, ?_⟩) r hr, fun h s hs => h s (List.mem_filter.mp hs).1⟩
    rw [Bool.not_eq_true', List.isEmpty_eq_false_iff]
    exact List.ne_nil_of_mem hr
  rw [← hrelocated]
  refine mapM_eq_ok_map fun s _ x => ?_
  rw [bind_eq_ok]
  have hrows : ∀ rows, (s.relocs.mapM fun r => do
      let sym ← relaSym b.tables s r.target
      pure (relaBytes sym r)) = .ok rows ↔
      (∀ r ∈ s.relocs, b.Resolves r.target) ∧ rows = s.relocs.map fun r => relaBytes (b.targetIndex r.target) r := by
    intro rows
    refine mapM_eq_ok_map fun r _ row => ?_
    rw [bind_eq_ok]
    constructor
    · rintro ⟨sym, hsym, h⟩
      obtain ⟨hr, rfl⟩ := relaSym_eq_ok.mp hsym
      exact ⟨hr, (Except.ok.inj h).symm⟩
    · rintro ⟨hr, rfl⟩
      exact ⟨_, relaSym_eq_ok.mpr ⟨hr, rfl⟩, rfl⟩
  constructor
  · rintro ⟨rows, hmapM, h⟩
    obtain ⟨hs, rfl⟩ := (hrows rows).mp hmapM
    refine ⟨hs, ?_⟩
    rw [← Except.ok.inj h, ObjectBuilder.relaData, List.flatMap_def]
  · rintro ⟨hs, rfl⟩
    refine ⟨_, (hrows _).mpr ⟨hs, rfl⟩, ?_⟩
    rw [ObjectBuilder.relaData, List.flatMap_def]
    rfl

end BuildYourOwn.Link
