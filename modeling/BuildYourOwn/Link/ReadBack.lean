import BuildYourOwn.Link.Table

/-!
# The reader reads what the writer writes
-/

namespace BuildYourOwn.Link

open Lib Layout

variable {b : ObjectBuilder} {file : Bytes} {offsets : List UInt64} {shoff : UInt64} {e : Elf}

structure Written (b : ObjectBuilder) (file : Bytes) (offsets : List UInt64) (shoff : UInt64) : Prop where
  ordinary : b.Ordinary
  fits : b.Fits
  layout : ¬ (b.relaBeforeTarget = true ∧ b.symtabFirst = true)
  nodup : (b.sections.map SectionSpec.name).Nodup
  declared : b.Declared
  emitted : Emitted b.planned file offsets shoff
  length : file.length < 2 ^ 64

theorem build_eq_ok (homit : b.omitSectionSymbols = false) : (∃ file, b.build = .ok file) ↔
    ¬ (b.relaBeforeTarget = true ∧ b.symtabFirst = true) ∧ (b.sections.map SectionSpec.name).Nodup ∧ b.Declared := by
  unfold ObjectBuilder.build
  constructor
  · rintro ⟨file, h⟩
    obtain ⟨l, hplan, -⟩ := bind_eq_ok.mp h
    obtain ⟨hlayout, hnodup, hdeclared, -⟩ := (plan_eq_ok homit).mp hplan
    exact ⟨hlayout, hnodup, hdeclared⟩
  · rintro ⟨hlayout, hnodup, hdeclared⟩
    obtain ⟨file, hfile⟩ := emit_total b b.planned
    exact ⟨file, bind_eq_ok.mpr ⟨_, (plan_eq_ok homit).mpr ⟨hlayout, hnodup, hdeclared, rfl⟩, hfile⟩⟩

theorem written (h : b.Ordinary) (hfits : b.Fits) (hbuild : b.build = .ok file) (hlen : file.length < 2 ^ 64) :
    ∃ offsets shoff, Written b file offsets shoff := by
  obtain ⟨l, hplan, hemit⟩ := bind_eq_ok.mp hbuild
  obtain ⟨hlayout, hnodup, hdeclared, rfl⟩ := (plan_eq_ok h.sectionSymbols).mp hplan
  obtain ⟨offsets, shoff, hemitted⟩ := emitted h.header h.truncate (fun s hs => table_plain h hs) hemit hlen
  exact ⟨offsets, shoff, h, hfits, hlayout, hnodup, hdeclared, hemitted, hlen⟩

namespace Written

/-! ## Sections -/

theorem section_at (h : Written b file offsets shoff) {sec : Section} (hsec : sec ∈ b.planned.sectionsAt offsets) :
    ∃ s ∈ b.planned.shdrs, ∃ i offset, (b.planned.shdrs.zip offsets)[i]? = some (s, offset) ∧
      sec = s.read s.name i offset ∧ (s.shType ≠ shtNull → s.At file offset.toNat) := by
  obtain ⟨⟨⟨s, offset⟩, i⟩, hx, rfl⟩ := List.mem_map.mp hsec
  have hi : (b.planned.shdrs.zip offsets)[i]? = some (s, offset) := List.mem_zipIdx_iff_getElem?.mp hx
  have hmem := List.mem_of_getElem? hi
  exact ⟨s, (List.of_mem_zip hmem).1, i, offset, hi, rfl, h.emitted.each _ hmem⟩

theorem at_place (h : Written b file offsets shoff) {i : Nat} {s : Shdr} (hs : b.planned.shdrs[i]? = some s) :
    ∃ offset, (b.planned.sectionsAt offsets)[i]? = some (s.read s.name i offset) ∧
      (s.shType ≠ shtNull → s.At file offset.toNat) := by
  obtain ⟨offset, -, hzip⟩ := h.emitted.at hs
  exact ⟨offset, sectionsAt_at hzip, h.emitted.each _ (List.mem_of_getElem? hzip)⟩

theorem place_lt (h : Written b file offsets shoff) {spec : SectionSpec} (hspec : spec ∈ b.sections) :
    b.placeOf spec.name < 2 ^ 16 := by
  have hat : (b.table [])[b.placeOf spec.name]? = _ := table_placeOf h.nodup h.layout hspec
  obtain ⟨hlt, -⟩ := List.getElem?_eq_some_iff.mp hat
  rw [length_table] at hlt
  exact hlt.trans h.fits.headers

theorem symtabIndex_lt (h : Written b file offsets shoff) : symtabIndex b + 1 < 2 ^ 32 := by
  obtain ⟨hlt, -⟩ := List.getElem?_eq_some_iff.mp (table_at (b := b) (i := 1) [] (by decide))
  rw [length_table] at hlt
  have := h.fits.headers
  omega

/-! ## Symbols -/

theorem parseSymbols (h : Written b file offsets shoff) (hbytes : e.bytes = file)
    (hsections : e.sections = b.planned.sectionsAt offsets) : Elf.parseSymbols e =
      .ok { e with symbols := b.symbolTable.zipIdx.map fun (s, i) => s.read b.placeOf i } := by
  -- there is one symbol table
  have hat : b.planned.shdrs[symtabIndex b + 0]? = _ := table_at _ (by decide)
  obtain ⟨offset, hsection, -⟩ := h.at_place hat
  have hsome : (e.sections.find? fun s => s.shType == shtSymtab).isSome := by
    rw [List.find?_isSome, hsections]
    exact ⟨_, List.mem_of_getElem? hsection, rfl⟩
  obtain ⟨symtab, hfind⟩ := Option.isSome_iff_exists.mp hsome
  have hmem := List.mem_of_find?_eq_some hfind
  rw [hsections] at hmem
  obtain ⟨s, hs, i, offset, -, rfl, hcontents⟩ := h.section_at hmem
  have htype : s.shType = shtSymtab := beq_iff_eq.mp (List.find?_some hfind :)
  obtain rfl := table_symtab h.ordinary hs htype
  have hsized := symtab_sized b.tables.syms.flatten (symtabIndex b + 1) b.tables.firstGlobal
  have hdata := slice_held hsized (hbytes ▸ hcontents hsized.notNull) (hbytes ▸ h.length)
  -- its names are in `.strtab`
  have hstrtab : b.planned.shdrs[symtabIndex b + 1]? = some (Shdr.strings ".strtab" b.tables.strtab.bytes) :=
    table_at _ (by decide)
  obtain ⟨offset', hstrings, hcontents'⟩ := h.at_place hstrtab
  have hsized' := strings_sized ".strtab" b.tables.strtab.bytes
  have hnames : e.bytesAt e.sections (UInt32.ofNat (symtabIndex b + 1)).toNat = b.tables.strtab.bytes := by
    have hlink : (UInt32.ofNat (symtabIndex b + 1)).toNat = symtabIndex b + 1 := by
      rw [UInt32.toNat_ofNat']
      exact Nat.mod_eq_of_lt h.symtabIndex_lt
    unfold Elf.bytesAt
    rw [hlink, hsections, hstrings]
    dsimp only [Shdr.read]
    rw [slice_held hsized' (hbytes ▸ hcontents' hsized'.notNull) (hbytes ▸ h.length)]
    rfl
  have hrows := symbols_rows h.fits
  exact parseSymbols_rows hfind hnames hdata rfl (rows_length hrows)
    (rows_read hrows (symbolTable_readable h.ordinary) 0)

/-! ## Relocations -/

theorem relocation_sections (h : Written b file offsets shoff) :
    List.Forall₂ (fun sec spec => ∃ i offset, sec = (b.relaShdr spec).read (".rela" ++ spec.name) i offset ∧
        (b.relaShdr spec).At file offset.toNat)
      ((b.planned.sectionsAt offsets).filter fun s => s.shType == shtRela || s.shType == shtRel) b.relocated := by
  -- the entries with their places and offsets, of which these are some
  let rows := (b.planned.shdrs.zip offsets).zipIdx.filter fun x =>
    x.1.1.shType == shtRela || x.1.1.shType == shtRel
  have hrows : ((b.planned.sectionsAt offsets).filter fun s => s.shType == shtRela || s.shType == shtRel) =
      rows.map fun x => x.1.1.read x.1.1.name x.2 x.1.2 := List.filter_map
  have hshdrs : rows.map (fun x => x.1.1) = b.relocated.map b.relaShdr := by
    have hall : ((b.planned.shdrs.zip offsets).zipIdx.map Prod.fst).map Prod.fst = b.table b.shstrtab.bytes := by
      rw [List.zipIdx_map_fst]
      exact List.map_fst_zip (Nat.le_of_eq h.emitted.count.symm)
    rw [List.map_map] at hall
    rw [← table_relocated h.ordinary, ← hall, List.filter_map]
    rfl
  have heq : List.Forall₂ (fun x spec => x.1.1 = b.relaShdr spec) rows b.relocated := by
    have heq : List.Forall₂ (· = ·) (rows.map fun x => x.1.1) (b.relocated.map b.relaShdr) := by
      rw [hshdrs, List.forall₂_eq_eq_eq]
    rwa [List.forall₂_map_left_iff, List.forall₂_map_right_iff] at heq
  have hboth := (List.forall₂_and_left (p := fun x => x ∈ rows) rows b.relocated).mpr ⟨fun x hx => hx, heq⟩
  rw [hrows, List.forall₂_map_left_iff]
  refine hboth.imp fun x spec hx => ?_
  obtain ⟨⟨s, offset⟩, i⟩ := x
  obtain ⟨hmem, rfl⟩ := hx
  have hi := List.mem_zipIdx_iff_getElem?.mp (List.mem_filter.mp hmem).1
  exact ⟨i, offset, rfl, h.emitted.each _ (List.mem_of_getElem? hi) (relaShdr_sized spec).notNull⟩

theorem flatten_relocated {F : SectionSpec → List Relocation} (hF : ∀ s, s.relocs.isEmpty = true → F s = []) :
    (b.relocated.map F).flatten = b.sections.flatMap F := by
  unfold ObjectBuilder.relocated
  induction b.sections with
  | nil => rfl
  | cons s sections ih =>
    rw [List.filter_cons, List.flatMap_cons, ← ih]
    cases hs : s.relocs.isEmpty with
    | true => rw [hF s hs]; rfl
    | false => rfl

theorem parseRelocations (h : Written b file offsets shoff) (hbytes : e.bytes = file)
    (hsections : e.sections = b.planned.sectionsAt offsets) : Elf.parseRelocations e =
      .ok { e with relocations := b.sections.flatMap fun s => s.relocs.map fun r =>
        { targetSection := b.placeOf s.name, offset := r.offset, sym := b.targetIndex r.target, kind := r.kind,
          addend := r.addend } } := by
  have hmapM : (e.sections.filter fun s => s.shType == shtRela || s.shType == shtRel).mapM e.relocationsOf =
      .ok (b.relocated.map fun s => s.relocs.map fun r =>
        { targetSection := b.placeOf s.name, offset := r.offset, sym := b.targetIndex r.target, kind := r.kind,
          addend := r.addend }) := by
    rw [hsections, mapM_eq_ok, List.forall₂_map_right_iff]
    have hmem := (List.forall₂_and_left (p := fun spec => spec ∈ b.relocated) _ _).mpr
      ⟨fun spec hspec => hspec, h.relocation_sections.flip⟩
    refine (hmem.imp fun spec sec hsec => ?_).flip
    obtain ⟨hspec, i, offset, rfl, hat⟩ := hsec
    have hinfo : (UInt32.ofNat (b.placeOf spec.name)).toNat = b.placeOf spec.name := by
      have hlt := h.place_lt (List.mem_filter.mp hspec).1
      rw [UInt32.toNat_ofNat']
      exact Nat.mod_eq_of_lt (by omega)
    have hdata := slice_held (relaShdr_sized spec) (hbytes ▸ hat) (hbytes ▸ h.length)
    show e.relocationsOf _ = _
    rw [relocationsOf_rows rfl hdata, ← hinfo]
    rfl
  unfold Elf.parseRelocations
  dsimp only
  rw [hmapM]
  simp only [bind, Except.bind, pure, Except.pure]
  rw [flatten_relocated]
  intro s hs
  rw [List.isEmpty_iff.mp hs]
  rfl

/-! ## What it says -/

theorem headers (h : Written b file offsets shoff) :
    (b.planned.sectionsAt offsets).map (fun sec => (sec.name, sec.shType)) = b.headers := by
  have hall : ((b.planned.shdrs.zip offsets).zipIdx.map Prod.fst).map Prod.fst = b.table b.shstrtab.bytes := by
    rw [List.zipIdx_map_fst]
    exact List.map_fst_zip (Nat.le_of_eq h.emitted.count.symm)
  rw [← headers_table, ← hall, List.map_map, List.map_map]
  unfold sectionsAt
  rw [List.map_map]
  rfl

theorem reads (h : Written b file offsets shoff) (hbytes : e.bytes = file) {s : SectionSpec} (hs : s ∈ b.sections) :
    ∃ sec, (b.planned.sectionsAt offsets)[b.placeOf s.name]? = some sec ∧ sec.Reads e s := by
  have hshdr : b.planned.shdrs[b.placeOf s.name]? = some (Shdr.ofSpec s) := table_placeOf h.nodup h.layout hs
  obtain ⟨offset, hsection, hcontents⟩ := h.at_place hshdr
  have hnull : (Shdr.ofSpec s).shType ≠ shtNull := fun hnull => h.ordinary.types s hs (hnull ▸ List.mem_cons_self)
  refine ⟨_, hsection, rfl, rfl, rfl, rfl, rfl, rfl, rfl, fun hnobits => ?_, (hcontents hnull).aligned⟩
  have hsized := ofSpec_sized h.ordinary hs fun htype => hnobits (beq_iff_eq.mpr htype)
  exact slice_held hsized (hbytes ▸ hcontents hnull) (hbytes ▸ h.length)

theorem once (h : Written b file offsets shoff) : (b.sections.map fun s => b.placeOf s.name).Pairwise (· < ·) := by
  rw [map_placeOf h.nodup]
  exact (number_increasing _ _ _).2

theorem fileSize_read (h : Written b file offsets shoff) {s : Shdr} (hs : s ∈ b.planned.shdrs) {i : Nat}
    {offset : UInt64} (hat : s.shType ≠ shtNull → s.At file offset.toNat) :
    (s.read s.name i offset).fileSize = 0 ∨ s.shType ≠ shtNull ∧ (s.read s.name i offset).fileSize = s.fileSize := by
  have hlength := h.length
  unfold Section.fileSize Section.isNobits
  rcases table_sized h.ordinary hs with hnull | ⟨hnobits, -⟩ | hsized
  · exact .inl (if_pos (.inl hnull))
  · exact .inl (if_pos (.inr (beq_iff_eq.mpr hnobits)))
  · have hwithin := (hat hsized.notNull).within
    unfold Shdr.fileSize at hwithin ⊢
    rw [if_pos hsized.occupies] at hwithin ⊢
    have hsize : s.size.toNat = s.data.length := by
      rw [hsized.size, UInt64.toNat_ofNat']
      exact Nat.mod_eq_of_lt (show s.data.length < 2 ^ 64 by omega)
    split
    · exact .inl rfl
    · exact .inr ⟨hsized.notNull, hsize⟩

theorem apart (h : Written b file offsets shoff) : (b.planned.sectionsAt offsets).Pairwise fun sec sec' =>
    sec.offset.toNat + sec.fileSize ≤ sec'.offset.toNat ∨ sec.fileSize = 0 ∨ sec'.fileSize = 0 := by
  have hzip : ((b.planned.shdrs.zip offsets).zipIdx.map Prod.fst).Pairwise fun p q =>
      p.1.shType ≠ shtNull → q.1.shType ≠ shtNull → p.2.toNat + p.1.fileSize ≤ q.2.toNat := by
    rw [List.zipIdx_map_fst]
    exact h.emitted.apart
  have hmem : ∀ x ∈ (b.planned.shdrs.zip offsets).zipIdx, x.1 ∈ b.planned.shdrs.zip offsets :=
    fun x hx => List.fst_mem_of_mem_zipIdx hx
  unfold sectionsAt
  rw [List.pairwise_map] at hzip ⊢
  refine hzip.imp_of_mem fun {x y} hx hy hxy => ?_
  have hx := hmem x hx
  have hy := hmem y hy
  have hfirst := h.fileSize_read (List.of_mem_zip hx).1 (i := x.2) (h.emitted.each _ hx)
  have hsecond := h.fileSize_read (List.of_mem_zip hy).1 (i := y.2) (h.emitted.each _ hy)
  rcases hfirst with hfirst | ⟨hnull, hfirst⟩
  · exact .inr (.inl hfirst)
  rcases hsecond with hsecond | ⟨hnull', -⟩
  · exact .inr (.inr hsecond)
  · refine .inl ?_
    rw [hfirst]
    exact hxy hnull hnull'

theorem findIdx_symbols :
    ((b.symbolTable.zipIdx.map fun (s, i) => s.read b.placeOf i).findIdx fun symbol => symbol.bind != stbLocal) =
      b.tables.firstGlobal := by
  have hspecs : ((b.symbolTable.zipIdx.map fun (s, i) => s.read b.placeOf i).findIdx fun symbol =>
      symbol.bind != stbLocal) = b.symbolTable.findIdx fun s => s.bind != stbLocal := by
    conv_rhs => rw [← List.zipIdx_map_fst 0 b.symbolTable]
    rw [List.findIdx_map, List.findIdx_map]
    rfl
  have hsplit : b.symbolTable = (SymbolSpec.null :: b.sections.map SymbolSpec.ofSection ++
      b.symbols.filter fun s => s.bind == stbLocal) ++ b.symbols.filter fun s => s.bind != stbLocal := by
    rw [List.append_assoc]
    rfl
  have hlocal : ∀ s ∈ SymbolSpec.null :: b.sections.map SymbolSpec.ofSection ++
      b.symbols.filter (fun s => s.bind == stbLocal), (s.bind != stbLocal) = false := by
    intro s hs
    rcases List.mem_append.mp hs with hs | hs
    · rcases List.mem_cons.mp hs with rfl | hs
      · rfl
      · obtain ⟨spec, -, rfl⟩ := List.mem_map.mp hs
        rfl
    · exact bne_eq_false_iff_eq.mpr (beq_iff_eq.mp (List.mem_filter.mp hs).2)
  have hglobal : ((b.symbols.filter fun s => s.bind != stbLocal).findIdx fun s => s.bind != stbLocal) = 0 := by
    cases hfilter : b.symbols.filter fun s => s.bind != stbLocal with
    | nil => rfl
    | cons s rest =>
      have hmem : s ∈ b.symbols.filter fun s => s.bind != stbLocal := hfilter ▸ List.mem_cons_self
      have hs : (s.bind != stbLocal) = true := (List.mem_filter.mp hmem).2
      rw [List.findIdx_cons, hs]
      rfl
  rw [hspecs, hsplit, List.findIdx_append, List.findIdx_eq_length_of_false hlocal, if_neg (Nat.lt_irrefl _), hglobal,
    List.length_append, List.length_cons, List.length_map, Nat.zero_add, Nat.add_comm b.sections.length]
  rfl

theorem length_ordered : b.ordered.length = b.symbols.length := by
  unfold ObjectBuilder.ordered
  rw [List.length_append, List.length_eq_length_filter_add (l := b.symbols) fun s => s.bind == stbLocal]
  rfl

theorem symbol_at {i : Nat} {s : SymbolSpec} (hs : b.symbolTable[i]? = some s) :
    (b.symbolTable.zipIdx.map fun (s, i) => s.read b.placeOf i)[i]? = some (s.read b.placeOf i) := by
  rw [List.getElem?_map, List.getElem?_zipIdx, hs, Nat.zero_add]
  rfl

theorem points (h : Written b file offsets shoff) (hsymbols : e.symbols = b.symbolTable.zipIdx.map fun (s, i) =>
    s.read b.placeOf i) {target : RelTarget} (htarget : b.Resolves target) :
    target.Points e b.placeOf (b.targetIndex target) := by
  have hfits := h.fits.symbols
  cases target with
  | raw j => rfl
  | symbol name =>
    obtain ⟨-, hname⟩ := htarget
    have hexists : ∃ s ∈ b.ordered, (s.name == name) = true := by
      obtain ⟨s, hs, rfl⟩ := List.mem_map.mp hname
      exact ⟨s, mem_ordered.mpr hs, beq_self_eq_true _⟩
    have hlt := List.findIdx_lt_length_of_exists hexists
    have hindex : (b.targetIndex (.symbol name)).toNat =
        1 + b.sections.length + b.ordered.findIdx fun s => s.name == name := by
      unfold ObjectBuilder.targetIndex
      rw [UInt32.toNat_ofNat']
      rw [length_ordered] at hlt
      exact Nat.mod_eq_of_lt (by omega)
    have hat : b.symbolTable[1 + b.sections.length + b.ordered.findIdx fun s => s.name == name]? =
        some (b.ordered[b.ordered.findIdx fun s => s.name == name]) := by
      have hfront : (SymbolSpec.null :: b.sections.map SymbolSpec.ofSection).length = 1 + b.sections.length := by
        rw [List.length_cons, List.length_map, Nat.add_comm]
      unfold ObjectBuilder.symbolTable
      rw [← hfront, List.getElem?_append_right (Nat.le_add_right _ _), Nat.add_sub_cancel_left,
        List.getElem?_eq_getElem]
    have hfound : (b.ordered[b.ordered.findIdx fun s => s.name == name]).name = name :=
      beq_iff_eq.mp (List.findIdx_getElem (w := hlt))
    exact ⟨_, by rw [hsymbols, hindex, symbol_at hat], hfound⟩
  | «section» name =>
    have hexists : ∃ s ∈ b.sections, (s.name == name) = true := by
      obtain ⟨s, hs, rfl⟩ := List.mem_map.mp htarget
      exact ⟨s, hs, beq_self_eq_true _⟩
    have hlt := List.findIdx_lt_length_of_exists hexists
    have hindex : (b.targetIndex (.section name)).toNat = 1 + b.sections.findIdx fun s => s.name == name := by
      unfold ObjectBuilder.targetIndex
      rw [UInt32.toNat_ofNat']
      exact Nat.mod_eq_of_lt (by omega)
    have hat : b.symbolTable[1 + b.sections.findIdx fun s => s.name == name]? =
        some (SymbolSpec.ofSection (b.sections[b.sections.findIdx fun s => s.name == name])) := by
      unfold ObjectBuilder.symbolTable
      rw [List.cons_append, Nat.add_comm, List.getElem?_cons_succ, List.getElem?_append_left (by rwa [List.length_map]),
        List.getElem?_map, List.getElem?_eq_getElem hlt]
      rfl
    have hname : (b.sections[b.sections.findIdx fun s => s.name == name]).name = name :=
      beq_iff_eq.mp (List.findIdx_getElem (w := hlt))
    refine ⟨_, by rw [hsymbols, hindex, symbol_at hat], rfl, ?_⟩
    show UInt16.ofNat (b.placeOf _) = _
    rw [hname]

/-! ## The file -/

theorem parse (h : Written b file offsets shoff) : ∃ e, Elf.parse file = .ok e ∧ e.bytes = file ∧
    e.sections = b.planned.sectionsAt offsets ∧
    e.symbols = (b.symbolTable.zipIdx.map fun (s, i) => s.read b.placeOf i) ∧
    e.relocations = b.sections.flatMap fun s => s.relocs.map fun r =>
      { targetSection := b.placeOf s.name, offset := r.offset, sym := b.targetIndex r.target, kind := r.kind,
        addend := r.addend } := by
  obtain ⟨rest, hheader⟩ := h.emitted.header
  have hcount : b.planned.shdrs.length < 2 ^ 16 := by
    show (b.table _).length < _
    rw [length_table]
    exact h.fits.headers
  have hplan : plan b = .ok b.planned :=
    (plan_eq_ok h.ordinary.sectionSymbols).mpr ⟨h.layout, h.nodup, h.declared, rfl⟩
  unfold Elf.parse
  rw [parseHeader_header hheader]
  simp only [bind, Except.bind]
  rw [Elf.parseSegments, if_pos rfl]
  simp only [pure, Except.pure]
  rw [parseSections_emitted h.emitted (planned_named h.ordinary h.fits hplan) hcount h.length rfl rfl rfl rfl rfl]
  dsimp only
  rw [h.parseSymbols rfl rfl]
  dsimp only
  rw [h.parseRelocations rfl rfl]
  exact ⟨_, rfl, rfl, rfl, rfl, rfl⟩

end Written

/-! ## Writing and reading -/

/-- **What is written is read back.** An object with neither overrides nor truncation is refused when both layouts are
asked for, when two sections share a name, or when a symbol or a relocation names what is not declared. Otherwise its
file is parsed, and has what the object says. -/
theorem object_reads_back (h : b.Ordinary) (hfits : b.Fits) :
    ((∃ message, b.build = .error message) ↔ b.relaBeforeTarget = true ∧ b.symtabFirst = true ∨
      ¬ (b.sections.map SectionSpec.name).Nodup ∨ ¬ b.Declared) ∧
    ∀ file, b.build = .ok file → file.length < 2 ^ 64 →
      ∃ e, Elf.parse file = .ok e ∧ ∃ place, ReadsBack b e place := by
  constructor
  · have hok := build_eq_ok h.sectionSymbols
    have herror : (∃ message, b.build = .error message) ↔ ¬ ∃ file, b.build = .ok file := by
      cases b.build with
      | ok file => exact ⟨fun ⟨_, he⟩ => (nomatch he), fun hno => absurd ⟨file, rfl⟩ hno⟩
      | error message => exact ⟨fun _ ⟨_, he⟩ => (nomatch he), fun _ => ⟨message, rfl⟩⟩
    rw [herror, hok, not_and_or, not_not, not_and_or]
  · intro file hbuild hlen
    obtain ⟨offsets, shoff, hwritten⟩ := written h hfits hbuild hlen
    obtain ⟨e, hparse, hbytes, hsections, hsymbols, hrelocations⟩ := hwritten.parse
    refine ⟨e, hparse, b.placeOf, ?_, fun s hs => ?_, hwritten.once, ?_, hsymbols, fun sec hsec htype => ?_,
      hrelocations, fun s hs r hr => ?_⟩
    · rw [hsections]
      exact hwritten.headers
    · rw [hsections]
      exact hwritten.reads hbytes hs
    · rw [hsections]
      exact hwritten.apart
    · rw [hsections] at hsec
      obtain ⟨s, hs, i, offset, -, rfl, -⟩ := hwritten.section_at hsec
      obtain rfl := table_symtab h hs htype
      have hfirst : b.tables.firstGlobal < 2 ^ 32 := by
        have hlocals := List.length_filter_le (fun s : SymbolSpec => s.bind == stbLocal) b.symbols
        have := hfits.symbols
        show 1 + b.sections.length + (b.symbols.filter fun s => s.bind == stbLocal).length < _
        omega
      rw [hsymbols, Written.findIdx_symbols]
      show (UInt32.ofNat b.tables.firstGlobal).toNat = _
      rw [UInt32.toNat_ofNat']
      exact Nat.mod_eq_of_lt hfirst
    · exact hwritten.points hsymbols (hwritten.declared.relocs s hs r hr)

theorem eq_ok_of_toOption {ε α : Type} {x : Except ε α} {a : α} (h : x.toOption = some a) : x = .ok a := by
  cases x with
  | ok c => exact congrArg _ (Option.some.inj h)
  | error e => exact (nomatch h)

def referring : ObjectBuilder where
  sections :=
    [(SectionSpec.text ".text" [0x90, 0xc3]).withRelocs
      [⟨0, .symbol "target", rX86_64_pc32, -4⟩, ⟨8, .section ".rodata", rX86_64_64, 3⟩],
      (SectionSpec.rodata ".rodata" [104, 105]).withRelocs [⟨0, .symbol "_start", rX86_64_64, 0⟩],
      SectionSpec.bss ".bss" 128]
  symbols :=
    [SymbolSpec.global "_start" ".text" 0, SymbolSpec.undefined "target", SymbolSpec.local "x" ".bss" 3]
  symtabFirst := true

theorem object_reads_back_referring : ∃ file e place,
    referring.build = .ok file ∧ Elf.parse file = .ok e ∧ ReadsBack referring e place := by
  have hordinary : referring.Ordinary :=
    ⟨rfl, rfl, rfl, by decide, by decide, by decide, by decide, by decide⟩
  have hfits : referring.Fits := by
    refine ⟨by decide, by decide, StrTab.offsetsFit_of_lt (by decide +kernel), fun l hplan => ?_⟩
    obtain ⟨-, -, -, rfl⟩ := (plan_eq_ok rfl).mp hplan
    exact StrTab.offsetsFit_of_lt (by decide +kernel)
  have hlength : (referring.build.toOption.map List.length) = some 976 := by decide +kernel
  obtain ⟨file, hfile, hlen⟩ := Option.map_eq_some_iff.mp hlength
  have hbuild := eq_ok_of_toOption hfile
  obtain ⟨e, hparse, place, hreads⟩ := (object_reads_back hordinary hfits).2 file hbuild (by rw [hlen]; decide)
  exact ⟨file, e, place, hbuild, hparse, hreads⟩

/-- A symbol without a name, and a relocation against it. -/
def unnamed : ObjectBuilder where
  sections := [(SectionSpec.text ".text" [0x90, 0xc3]).withRelocs [⟨0, .symbol "", rX86_64_pc32, -4⟩]]
  symbols := [SymbolSpec.global "" ".text" 0]

/-- A section without an alignment, and one that has bytes of its own but none in the file. -/
def unaligned : ObjectBuilder where
  sections := [(SectionSpec.rodata ".rodata" [104, 105]).aligned 0, { SectionSpec.bss ".bss" 1 with data := [1] }]
  symbols := []

/-- Everything that `unnamed` names is declared, and it is refused; of `unaligned`, the file has a section at an offset
that is no multiple of zero, and a section with other bytes. -/
theorem unnamed_refused :
    (unnamed.Ordinary ∧ unnamed.Fits ∧ ¬ (unnamed.relaBeforeTarget = true ∧ unnamed.symtabFirst = true) ∧
      (unnamed.sections.map SectionSpec.name).Nodup ∧
      (∀ s ∈ unnamed.symbols, ∀ name, s.section = .section name → unnamed.HasSection name) ∧
      (∀ s ∈ unnamed.sections, ∀ r ∈ s.relocs, ∃ name, r.target = .symbol name ∧
        name ∈ unnamed.symbols.map SymbolSpec.name) ∧
      ∃ message, unnamed.build = .error message) ∧
    unaligned.Ordinary ∧ ∃ file e, unaligned.build = .ok file ∧ Elf.parse file = .ok e ∧
      (∃ sec ∈ e.sections, sec.name = ".rodata" ∧ ¬ sec.align.toNat ∣ sec.offset.toNat) ∧
      ∃ sec ∈ e.sections, sec.name = ".bss" ∧ (e.slice sec.offset sec.size).toOption ≠ some [1] := by
  have hrefused : ¬ unnamed.Declared := by
    intro hdeclared
    exact (hdeclared.relocs _ List.mem_cons_self _ List.mem_cons_self).1 rfl
  have hfits : unnamed.Fits := by
    refine ⟨by decide, by decide, StrTab.offsetsFit_of_lt (by decide), fun l hplan => ?_⟩
    exact absurd ((plan_eq_ok rfl).mp hplan).2.2.1 hrefused
  have herror : ∃ message, unnamed.build = .error message := by
    cases hbuild : unnamed.build with
    | error message => exact ⟨message, rfl⟩
    | ok file => exact absurd ((build_eq_ok rfl).mp ⟨file, hbuild⟩).2.2 hrefused
  have hcheck : ((unaligned.build.toOption.bind fun file => (Elf.parse file).toOption).any fun e => decide
      ((∃ sec ∈ e.sections, sec.name = ".rodata" ∧ ¬ sec.align.toNat ∣ sec.offset.toNat) ∧
        ∃ sec ∈ e.sections, sec.name = ".bss" ∧ (e.slice sec.offset sec.size).toOption ≠ some [1])) = true := by
    decide +kernel
  obtain ⟨e, he, hsections⟩ := (Option.any_eq_true _ _).mp hcheck
  obtain ⟨file, hfile, hparse⟩ := Option.bind_eq_some_iff.mp he
  refine ⟨⟨⟨rfl, rfl, rfl, by decide, by decide, by decide, by decide, by decide⟩, hfits, by decide, by decide, ?_, ?_,
    herror⟩, ⟨rfl, rfl, rfl, by decide, by decide, by decide, by decide, by decide⟩, file, e, eq_ok_of_toOption hfile,
    eq_ok_of_toOption hparse, of_decide_eq_true hsections⟩
  · intro s hs name hname
    obtain rfl := List.mem_singleton.mp hs
    obtain rfl : ".text" = name := SymSection.section.inj hname
    exact List.mem_cons_self
  · intro s hs r hr
    obtain rfl := List.mem_singleton.mp hs
    obtain rfl := List.mem_singleton.mp hr
    exact ⟨"", rfl, by decide⟩

end BuildYourOwn.Link
