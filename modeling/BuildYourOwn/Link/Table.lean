import BuildYourOwn.Link.Emission
import BuildYourOwn.Link.Planning

/-!
# What is in the planned table
-/

namespace BuildYourOwn.Link

open Lib Layout

variable {b : ObjectBuilder} {names : Bytes} {s : Shdr} {spec : SectionSpec}

/-! ## The entries -/

theorem mem_table : s ∈ b.table names ↔ s = Shdr.null ∨ (∃ spec ∈ b.sections, s = Shdr.ofSpec spec) ∨
    (∃ spec ∈ b.relocated, s = b.relaShdr spec) ∨ s ∈ b.ownTables names := by
  have hspecs : s ∈ b.sections.map Shdr.ofSpec ↔ ∃ spec ∈ b.sections, s = Shdr.ofSpec spec := by
    simp only [List.mem_map, eq_comm]
  have hrelas : s ∈ b.relocated.map b.relaShdr ↔ ∃ spec ∈ b.relocated, s = b.relaShdr spec := by
    simp only [List.mem_map, eq_comm]
  have hinterleaved : (s ∈ b.sections.flatMap fun spec => (if spec.relocs.isEmpty then [] else [b.relaShdr spec]) ++
      [Shdr.ofSpec spec]) ↔ s ∈ b.relocated.map b.relaShdr ∨ s ∈ b.sections.map Shdr.ofSpec := by
    rw [← (List.flatMap_append_perm b.sections _ _).mem_iff, flatMap_relocated, ← List.map_eq_flatMap, List.mem_append]
    rfl
  unfold ObjectBuilder.table
  rw [List.mem_cons, ← hspecs, ← hrelas]
  refine or_congr_right ?_
  split
  · rw [List.mem_append, List.mem_append, or_comm, or_assoc]
  split
  · rw [List.mem_append, hinterleaved, or_comm (a := s ∈ b.relocated.map b.relaShdr), or_assoc]
  · rw [List.mem_append, List.mem_append, or_assoc]

theorem strings_sized (name : String) (bytes : Bytes) : (Shdr.strings name bytes).Sized :=
  ⟨show shtStrtab ≠ shtNull by decide, rfl, rfl⟩

theorem symtab_sized (bytes : Bytes) (strtabIndex firstGlobal : Nat) :
    (Shdr.symtab bytes strtabIndex firstGlobal).Sized := ⟨show shtSymtab ≠ shtNull by decide, rfl, rfl⟩

theorem relaShdr_sized (spec : SectionSpec) : (b.relaShdr spec).Sized :=
  ⟨show shtRela ≠ shtNull by decide, rfl, rfl⟩

theorem ofSpec_sized (h : b.Ordinary) (hspec : spec ∈ b.sections) (hnobits : spec.shType ≠ shtNobits) :
    (Shdr.ofSpec spec).Sized where
  notNull hnull := h.types spec hspec (hnull ▸ List.mem_cons_self)
  occupies := bne_iff_ne.mpr hnobits
  size := by
    show spec.size = _
    unfold SectionSpec.size
    rw [(h.plain spec hspec).2.1, Option.getD_none, if_neg hnobits]
    rfl

theorem ownTables_sized (hs : s ∈ b.ownTables names) : s.Sized := by
  rcases List.mem_cons.mp hs with rfl | hs
  · exact symtab_sized _ _ _
  rcases List.mem_cons.mp hs with rfl | hs
  · exact strings_sized _ _
  · obtain rfl := List.mem_singleton.mp hs
    exact strings_sized _ _

/-- **Every entry with contents** says how many bytes they are. -/
theorem table_sized (h : b.Ordinary) (hs : s ∈ b.table names) :
    s.shType = shtNull ∨ s.shType = shtNobits ∧ s.occupiesFileSpace = false ∨ s.Sized := by
  rcases mem_table.mp hs with rfl | ⟨spec, hspec, rfl⟩ | ⟨spec, -, rfl⟩ | hs
  · exact .inl rfl
  · by_cases hnobits : spec.shType = shtNobits
    · exact .inr (.inl ⟨hnobits, bne_eq_false_iff_eq.mpr hnobits⟩)
    · exact .inr (.inr (ofSpec_sized h hspec hnobits))
  · exact .inr (.inr (relaShdr_sized spec))
  · exact .inr (.inr (ownTables_sized hs))

theorem table_plain (h : b.Ordinary) (hs : s ∈ b.table names) : s.offsetOverride = none := by
  rcases mem_table.mp hs with rfl | ⟨spec, hspec, rfl⟩ | ⟨spec, -, rfl⟩ | hs
  · rfl
  · exact (h.plain spec hspec).1
  · rfl
  · rcases List.mem_cons.mp hs with rfl | hs
    · rfl
    rcases List.mem_cons.mp hs with rfl | hs
    · rfl
    · obtain rfl := List.mem_singleton.mp hs
      rfl

theorem table_free (h : b.Ordinary) (hs : s ∈ b.table names) : 0 ∉ asBytes s.name := by
  rcases mem_table.mp hs with rfl | ⟨spec, hspec, rfl⟩ | ⟨spec, hspec, rfl⟩ | hs
  · decide
  · exact h.sectionNames spec hspec
  · show 0 ∉ asBytes (".rela" ++ spec.name)
    rw [asBytes_append, List.mem_append, not_or]
    exact ⟨by decide, h.sectionNames spec (List.mem_filter.mp hspec).1⟩
  · rcases List.mem_cons.mp hs with rfl | hs
    · show 0 ∉ asBytes ".symtab"
      decide
    rcases List.mem_cons.mp hs with rfl | hs
    · show 0 ∉ asBytes ".strtab"
      decide
    · obtain rfl := List.mem_singleton.mp hs
      show 0 ∉ asBytes ".shstrtab"
      decide

theorem table_symtab (h : b.Ordinary) (hs : s ∈ b.table names) (hsymtab : s.shType = shtSymtab) :
    s = Shdr.symtab b.tables.syms.flatten (symtabIndex b + 1) b.tables.firstGlobal := by
  rcases mem_table.mp hs with rfl | ⟨spec, hspec, rfl⟩ | ⟨spec, -, rfl⟩ | hs
  · cases hsymtab
  · refine absurd ?_ (h.types spec hspec)
    rw [show spec.shType = shtSymtab from hsymtab]
    exact List.mem_cons_of_mem _ List.mem_cons_self
  · exact absurd hsymtab (by show shtRela ≠ _; decide)
  · rcases List.mem_cons.mp hs with rfl | hs
    · rfl
    rcases List.mem_cons.mp hs with rfl | hs
    · exact absurd hsymtab (by show shtStrtab ≠ _; decide)
    · obtain rfl := List.mem_singleton.mp hs
      exact absurd hsymtab (by show shtStrtab ≠ _; decide)

/-! ## Where they are -/

theorem table_placeOf (hnodup : (b.sections.map SectionSpec.name).Nodup)
    (hlayout : ¬ (b.relaBeforeTarget = true ∧ b.symtabFirst = true)) (hspec : spec ∈ b.sections) :
    (b.table names)[b.placeOf spec.name]? = some (Shdr.ofSpec spec) := by
  have hperm := entries_perm hnodup hlayout
  have hmem : (b.placeOf spec.name, Shdr.ofSpec spec) ∈ b.sections.flatMap b.entriesOf :=
    List.mem_flatMap.mpr ⟨spec, hspec, List.mem_append_right _ List.mem_cons_self⟩
  -- `.shstrtab` is elsewhere
  have hne : symtabIndex b + 2 ≠ b.placeOf spec.name := by
    have hkeys : (b.entryList.map Prod.fst).Nodup := by
      rw [(hperm.map Prod.fst).nodup_iff, List.map_map]
      exact (List.zipIdx_map_snd 0 (b.table [])).symm ▸ List.nodup_range'
    have hkeys := (List.nodup_cons.mp hkeys).2
    rw [List.map_append, List.nodup_append] at hkeys
    refine (hkeys.2.2 _ (List.mem_map_of_mem hmem) _ ?_).symm
    exact List.mem_cons_of_mem _ (List.mem_cons_of_mem _ List.mem_cons_self)
  have hentry : (b.placeOf spec.name, Shdr.ofSpec spec) ∈ b.entryList :=
    List.mem_cons_of_mem _ (List.mem_append_left _ hmem)
  obtain ⟨⟨s, i⟩, hs, heq⟩ := List.mem_map.mp (hperm.mem_iff.mp hentry)
  cases heq
  rw [table_set, List.getElem?_set_ne hne]
  exact List.mem_zipIdx_iff_getElem?.mp hs

theorem ownTables_length : (b.ownTables names).length = 3 := rfl

theorem length_table : (b.table names).length = b.sections.length + b.relocated.length + 4 := by
  unfold ObjectBuilder.table
  rw [List.length_cons]
  split
  · rw [List.length_append, List.length_append, List.length_map, List.length_map, ownTables_length]
    omega
  split
  · rw [List.length_append, length_interleaved, ownTables_length]
    omega
  · rw [List.length_append, List.length_append, List.length_map, List.length_map, ownTables_length]

/-- The names of the entries do not depend on what `.shstrtab` holds. -/
theorem map_name_table : (b.table names).map Shdr.name = (b.table []).map Shdr.name := by
  obtain ⟨front, back, -, htable⟩ := table_split b
  rw [htable, htable, List.map_append, List.map_append, List.map_append, List.map_append]
  rfl

/-- **The relocations are in the order of the sections.** -/
theorem table_relocated (h : b.Ordinary) :
    (b.table names).filter (fun s => s.shType == shtRela || s.shType == shtRel) = b.relocated.map b.relaShdr := by
  have hrela : ∀ spec, ((b.relaShdr spec).shType == shtRela || (b.relaShdr spec).shType == shtRel) = true :=
    fun spec => rfl
  have hspec : ∀ spec ∈ b.sections,
      ¬ ((Shdr.ofSpec spec).shType == shtRela || (Shdr.ofSpec spec).shType == shtRel) = true := by
    intro spec hspec hor
    refine h.types spec hspec ?_
    rcases Bool.or_eq_true_iff.mp hor with htype | htype
    · rw [show spec.shType = shtRela from beq_iff_eq.mp htype]
      decide
    · rw [show spec.shType = shtRel from beq_iff_eq.mp htype]
      decide
  have hspecs : (b.sections.map Shdr.ofSpec).filter (fun s => s.shType == shtRela || s.shType == shtRel) = [] := by
    rw [List.filter_eq_nil_iff]
    intro s hs
    obtain ⟨spec, hmem, rfl⟩ := List.mem_map.mp hs
    exact hspec spec hmem
  have hrelas : (b.relocated.map b.relaShdr).filter (fun s => s.shType == shtRela || s.shType == shtRel) =
      b.relocated.map b.relaShdr := by
    rw [List.filter_eq_self]
    intro s hs
    obtain ⟨spec, -, rfl⟩ := List.mem_map.mp hs
    exact hrela spec
  have hown : (b.ownTables names).filter (fun s => s.shType == shtRela || s.shType == shtRel) = [] := rfl
  have hinterleaved : (b.sections.flatMap fun spec => (if spec.relocs.isEmpty then [] else [b.relaShdr spec]) ++
      [Shdr.ofSpec spec]).filter (fun s => s.shType == shtRela || s.shType == shtRel) = b.relocated.map b.relaShdr := by
    rw [ObjectBuilder.relocated, ← flatMap_relocated, List.filter_flatMap]
    refine List.flatMap_congr fun spec hmem => ?_
    have hown : [Shdr.ofSpec spec].filter (fun s => s.shType == shtRela || s.shType == shtRel) = [] :=
      List.filter_cons_of_neg (hspec spec hmem)
    rw [List.filter_append, hown, List.append_nil]
    split
    · rfl
    · rfl
  have hnull : ∀ l, (Shdr.null :: l).filter (fun s => s.shType == shtRela || s.shType == shtRel) =
      l.filter fun s => s.shType == shtRela || s.shType == shtRel := fun l => rfl
  unfold ObjectBuilder.table
  rw [hnull]
  split
  · rw [List.filter_append, List.filter_append, hown, hspecs, hrelas]
    rfl
  split
  · rw [List.filter_append, hown, hinterleaved, List.append_nil]
  · rw [List.filter_append, List.filter_append, hown, hspecs, hrelas, List.append_nil]
    rfl

theorem headers_table : (b.table names).map (fun s => (s.name, s.shType)) = b.headers := by
  unfold ObjectBuilder.table ObjectBuilder.headers
  rw [List.map_cons]
  refine congrArg _ ?_
  split
  · rw [List.map_append, List.map_append, List.map_map, List.map_map]
    rfl
  split
  · rw [List.map_append, List.map_flatMap]
    refine congrArg (· ++ _) (List.flatMap_congr fun spec _ => ?_)
    rw [List.map_append]
    split <;> rfl
  · rw [List.map_append, List.map_append, List.map_map, List.map_map]
    rfl

/-! ## Names -/

theorem planned_named (h : b.Ordinary) (hfits : b.Fits) (hplan : plan b = .ok b.planned) :
    b.planned.Named (Shdr.strings ".shstrtab" b.shstrtab.bytes) b.shstrtab where
  index := by
    have hat : (b.table b.shstrtab.bytes)[symtabIndex b + 2]? = some (Shdr.strings ".shstrtab" b.shstrtab.bytes) :=
      table_at _ (by decide)
    have hindex : (UInt16.ofNat (symtabIndex b + 2)).toNat = symtabIndex b + 2 := by
      obtain ⟨hlt, -⟩ := List.getElem?_eq_some_iff.mp hat
      rw [length_table] at hlt
      rw [UInt16.toNat_ofNat']
      exact Nat.mod_eq_of_lt (hlt.trans hfits.headers)
    show (b.table b.shstrtab.bytes)[(UInt16.ofNat (symtabIndex b + 2)).toNat]? = _
    rw [hindex, hat]
  sized := strings_sized _ _
  table := rfl
  holds := by
    have hfit := hfits.sectionNames _ hplan
    have hnames : b.planned.shdrs.map Shdr.name = (b.table []).map Shdr.name := map_name_table
    rw [hnames] at hfit ⊢
    exact StrTab.holds_addAll hfit
  free _ := table_free h

def RowOf (t : StrTab) (place : String → Nat) (row : Bytes) (spec : SymbolSpec) : Prop :=
  ∃ off, t.Holds off spec.name ∧ row = spec.row place off

variable {place : String → Nat} {specs : List SymbolSpec}

theorem zipWith_rows {t : StrTab} {offsets : List UInt32}
    (h : List.Forall₂ t.Holds offsets (specs.map SymbolSpec.name)) :
    List.Forall₂ (RowOf t place) (List.zipWith (SymbolSpec.row place) offsets specs) specs := by
  rw [List.forall₂_map_right_iff] at h
  induction h with
  | nil => exact .nil
  | cons hoff _ ih => exact .cons ⟨_, hoff, rfl⟩ ih

theorem symbols_rows (hfits : b.Fits) : List.Forall₂ (RowOf b.tables.strtab b.placeOf) b.tables.syms b.symbolTable := by
  have hbase : List.Forall₂ (RowOf b.tables.strtab b.placeOf) b.baseSymbols.syms
      (SymbolSpec.null :: b.sections.map SymbolSpec.ofSection) := by
    refine .cons ⟨0, StrTab.holds_empty _, rfl⟩ ?_
    rw [List.forall₂_map_left_iff, List.forall₂_map_right_iff, List.forall₂_same]
    exact fun s _ => ⟨0, StrTab.holds_empty _, rfl⟩
  exact List.rel_append hbase (zipWith_rows (StrTab.holds_addAll hfits.symbolNames))

theorem rows_length {t : StrTab} {rows : List Bytes}
    (h : List.Forall₂ (RowOf t place) rows specs) : ∀ row ∈ rows, row.length = symSize := by
  induction h with
  | nil => exact List.forall_mem_nil _
  | cons hrow _ ih =>
    obtain ⟨off, -, rfl⟩ := hrow
    exact List.forall_mem_cons.mpr ⟨length_symBytes _ _ _ _ _ _, ih⟩

/-- The name has no zero byte, and every value is within its bits. -/
def SymbolSpec.Readable (s : SymbolSpec) : Prop :=
  0 ∉ asBytes s.name ∧ s.bind < 16 ∧ s.stype < 16 ∧ s.visibility < 4

theorem visibility_bits {v : UInt8} (hv : v < 4) : v &&& 0x3 = v := by
  apply UInt8.toNat_inj.mp
  rw [UInt8.toNat_and]
  exact (Nat.and_two_pow_sub_one_eq_mod _ 2).trans (Nat.mod_eq_of_lt (UInt8.lt_iff_toNat_lt.mp hv))

theorem rows_read {t : StrTab} {rows : List Bytes}
    (h : List.Forall₂ (RowOf t place) rows specs) (hspecs : ∀ s ∈ specs, s.Readable) (k : Nat) :
    List.Forall₂ (fun x symbol => Elf.readSymbol t.bytes x.2 x.1 = .ok symbol) (rows.zipIdx k)
      ((specs.zipIdx k).map fun (s, i) => s.read place i) := by
  induction h generalizing k with
  | nil => exact .nil
  | cons hrow _ ih =>
    obtain ⟨hs, hrest⟩ := List.forall_mem_cons.mp hspecs
    obtain ⟨off, hname, rfl⟩ := hrow
    obtain ⟨hfree, hbind, hstype, hvisibility⟩ := hs
    rw [List.zipIdx_cons, List.zipIdx_cons, List.map_cons]
    refine .cons ?_ (ih hrest (k + 1))
    unfold SymbolSpec.row
    rw [readSymbol_row, hname.cstr hfree, stBind_stInfo hbind hstype, stType_stInfo hbind hstype,
      visibility_bits hvisibility]
    rfl

theorem symbolTable_readable (h : b.Ordinary) : ∀ s ∈ b.symbolTable, s.Readable := by
  have hnull : SymbolSpec.null.Readable := by
    unfold SymbolSpec.Readable
    decide
  intro s hs
  rcases List.mem_append.mp hs with hs | hs
  · rcases List.mem_cons.mp hs with rfl | hs
    · exact hnull
    · obtain ⟨spec, -, rfl⟩ := List.mem_map.mp hs
      exact ⟨hnull.1, hnull.2.1, show sttSection < 16 by decide, hnull.2.2.2⟩
  · have hmem := mem_ordered.mp hs
    exact ⟨h.symbolNames s hmem, h.symbols s hmem⟩

end BuildYourOwn.Link
