import Mathlib.Data.List.TakeWhile
import BuildYourOwn.Lib.Folds
import BuildYourOwn.Link.Fields

/-!
# Where the contents come to stand

* What one entry adds (`Placed.place`) and what all of them do (`placed`): the contents are in the file behind the
  file header, each at its own alignment, and no two overlap.
-/

namespace BuildYourOwn.Link

open Lib Layout

variable {b : ObjectBuilder} {l : Layout} {shdrs : List Shdr} {s : Shdr} {out file : Bytes} {offsets : List UInt64}

def Shdr.fileSize (s : Shdr) : Nat := if s.occupiesFileSpace then s.data.length else 0

/-- The contents of an entry are in `out` at `o`. -/
structure Shdr.At (s : Shdr) (out : Bytes) (o : Nat) : Prop where
  behind : ehdrSize ≤ o
  aligned : max s.align.toNat 1 ∣ o
  within : o + s.fileSize ≤ out.length
  held : s.occupiesFileSpace = true → (out.drop o).take s.data.length = s.data

/-- The contents of the entries are in `out` at the offsets; the null entry has none. -/
structure Placed (shdrs : List Shdr) (out : Bytes) (offsets : List UInt64) : Prop where
  count : offsets.length = shdrs.length
  start : ehdrSize ≤ out.length
  each : ∀ p ∈ shdrs.zip offsets, p.1.shType ≠ shtNull → p.1.At out p.2.toNat
  apart : (shdrs.zip offsets).Pairwise fun p q =>
    p.1.shType ≠ shtNull → q.1.shType ≠ shtNull → p.2.toNat + p.1.fileSize ≤ q.2.toNat

/-! ## Padding -/

theorem prefix_padTo (align : Nat) : out <+: padTo align out := List.prefix_append _ _

theorem dvd_length_padTo {align : Nat} (h : 0 < align) : align ∣ (padTo align out).length := by
  unfold padTo
  rw [List.length_append, List.length_replicate]
  have hmod := Nat.mod_lt out.length h
  apply Nat.dvd_of_mod_eq_zero
  by_cases hzero : out.length % align = 0
  · rw [hzero, Nat.sub_zero, Nat.mod_self, Nat.add_zero, hzero]
  · rw [Nat.mod_eq_of_lt (show align - out.length % align < align by omega), Nat.add_mod,
      Nat.mod_eq_of_lt (show align - out.length % align < align by omega),
      show out.length % align + (align - out.length % align) = align by omega, Nat.mod_self]

/-! ## The contents -/

theorem place_null (hs : s.shType = shtNull) : place (out, offsets) s = (out, offsets ++ [0]) := if_pos hs

theorem place_of_ne (hs : s.shType ≠ shtNull) : place (out, offsets) s =
    (if s.occupiesFileSpace then padTo (max s.align.toNat 1) out ++ s.data else padTo (max s.align.toNat 1) out,
      offsets ++ [s.offsetOverride.getD (UInt64.ofNat (padTo (max s.align.toNat 1) out).length)]) := if_neg hs

theorem prefix_place (state : Bytes × List UInt64) : state.1 <+: (place state s).1 := by
  obtain ⟨out, offsets⟩ := state
  by_cases hs : s.shType = shtNull
  · exact (congrArg Prod.fst (place_null hs)).symm ▸ List.prefix_refl _
  · rw [place_of_ne hs]
    split
    · exact (prefix_padTo _).trans (List.prefix_append _ _)
    · exact prefix_padTo _

theorem Shdr.At.mono {o : Nat} (h : s.At out o) {out' : Bytes} (hmore : out <+: out') : s.At out' o := by
  obtain ⟨more, rfl⟩ := hmore
  refine ⟨h.behind, h.aligned, ?_, fun hs => ?_⟩
  · rw [List.length_append]
    exact Nat.le_add_right_of_le h.within
  · have hwithin := h.within
    unfold fileSize at hwithin
    rw [if_pos hs] at hwithin
    rw [List.drop_append_of_le_length (by omega), List.take_append_of_le_length (by rw [List.length_drop]; omega)]
    exact h.held hs

/-- **The step lemma.** -/
theorem Placed.place (h : Placed shdrs out offsets) (hplain : s.offsetOverride = none)
    (hlen : (place (out, offsets) s).1.length < 2 ^ 64) :
    Placed (shdrs ++ [s]) (Layout.place (out, offsets) s).1 (Layout.place (out, offsets) s).2 := by
  have hprefix : out <+: (Layout.place (out, offsets) s).1 := prefix_place (out, offsets)
  -- what is added to the offsets
  obtain ⟨offset, hoffsets, hat⟩ : ∃ offset, (Layout.place (out, offsets) s).2 = offsets ++ [offset] ∧
      (s.shType ≠ shtNull → out.length ≤ offset.toNat ∧ s.At (Layout.place (out, offsets) s).1 offset.toNat) := by
    by_cases hs : s.shType = shtNull
    · refine ⟨0, ?_, fun h => absurd hs h⟩
      rw [place_null hs]
    · rw [place_of_ne hs, hplain, Option.getD_none] at hlen hprefix ⊢
      dsimp only at hlen hprefix ⊢
      have hpad : out.length ≤ (padTo (max s.align.toNat 1) out).length := (prefix_padTo _).length_le
      have hdvd : max s.align.toNat 1 ∣ (padTo (max s.align.toNat 1) out).length := dvd_length_padTo (by omega)
      generalize padTo (max s.align.toNat 1) out = padded at hlen hpad hdvd ⊢
      have hoffset : (UInt64.ofNat padded.length).toNat = padded.length := by
        rw [UInt64.toNat_ofNat']
        refine Nat.mod_eq_of_lt ?_
        split at hlen
        · rw [List.length_append] at hlen
          omega
        · exact hlen
      refine ⟨_, rfl, fun _ => ?_⟩
      rw [hoffset]
      refine ⟨hpad, h.start.trans hpad, hdvd, ?_, fun hoccupies => ?_⟩
      · unfold Shdr.fileSize
        split
        · rw [List.length_append]
        · exact Nat.le_refl _
      · rw [if_pos hoccupies, List.drop_left, List.take_length]
  rw [hoffsets]
  have hzip : (shdrs ++ [s]).zip (offsets ++ [offset]) = shdrs.zip offsets ++ [(s, offset)] :=
    List.zip_append h.count.symm
  refine ⟨?_, h.start.trans hprefix.length_le, ?_, ?_⟩
  · rw [List.length_append, List.length_append, h.count]
    rfl
  · rw [hzip]
    intro p hp hnull
    rcases List.mem_append.mp hp with hp | hp
    · exact (h.each p hp hnull).mono hprefix
    · obtain rfl := List.mem_singleton.mp hp
      exact (hat hnull).2
  · rw [hzip, List.pairwise_append]
    refine ⟨h.apart, List.pairwise_singleton _ _, fun p hp q hq hnull hnull' => ?_⟩
    obtain rfl := List.mem_singleton.mp hq
    exact (h.each p hp hnull).within.trans (hat hnull').1

theorem prefix_foldl_place (shdrs : List Shdr) (state : Bytes × List UInt64) :
    state.1 <+: (shdrs.foldl place state).1 := by
  induction shdrs generalizing state with
  | nil => exact List.prefix_refl _
  | cons s shdrs ih => exact (prefix_place state).trans (ih _)

/-- **The contents of all entries** are placed. -/
theorem placed {l : List Shdr} (hplain : ∀ s ∈ l, s.offsetOverride = none)
    (hlen : (l.foldl place (List.replicate ehdrSize 0, [])).1.length < 2 ^ 64) :
    Placed l (l.foldl place (List.replicate ehdrSize 0, [])).1 (l.foldl place (List.replicate ehdrSize 0, [])).2 := by
  induction l using List.reverseRecOn with
  | nil => exact ⟨rfl, Nat.le_refl _, List.forall_mem_nil _, .nil⟩
  | append_singleton l s ih =>
    rw [List.foldl_append, List.foldl_cons, List.foldl_nil] at hlen ⊢
    refine (ih (fun s hs => hplain s (List.mem_append_left _ hs)) ?_).place
      (hplain s (List.mem_append_right _ List.mem_cons_self)) hlen
    exact (prefix_place _).length_le.trans_lt hlen

/-! ## The file -/

theorem length_headerBytes (l : Layout) (h : HeaderOverrides) (shoff : UInt64) :
    (headerBytes l h shoff).length = ehdrSize := by
  have hmagic := (h.magic.getD elfMagic).property
  simp only [headerBytes, List.length_append, List.length_cons, List.length_nil, length_le16, length_le32, length_le64,
    List.length_replicate, hmagic]
  rfl

theorem emit_total (b : ObjectBuilder) (l : Layout) : ∃ file, emit b l = .ok file := by
  unfold emit
  dsimp only
  rw [if_neg (not_not_intro (length_headerBytes _ _ _))]
  split <;> exact ⟨_, rfl⟩

/-- What is in a file: the header first, the contents at the offsets, and the table at `shoff`. -/
structure Emitted (l : Layout) (file : Bytes) (offsets : List UInt64) (shoff : UInt64) : Prop
    extends Placed l.shdrs file offsets where
  header : ∃ rest, file = headerBytes l {} shoff ++ rest
  behind : ehdrSize ≤ shoff.toNat
  table : ∀ i s offset, l.shdrs[i]? = some s → offsets[i]? = some offset → ∃ rest,
    file.drop (shoff.toNat + i * shdrSize) = shdrBytes (l.nameOffsets.getD i 0) s offset ++ rest

theorem emitted (hheader : b.header = {}) (htruncate : b.truncateTo = none)
    (hplain : ∀ s ∈ l.shdrs, s.offsetOverride = none) (h : emit b l = .ok file) (hlen : file.length < 2 ^ 64) :
    ∃ offsets shoff, Emitted l file offsets shoff := by
  unfold emit at h
  dsimp only at h
  rw [if_neg (not_not_intro (length_headerBytes _ _ _)), htruncate, hheader] at h
  have h := Except.ok.inj h
  generalize hstate : l.shdrs.foldl place (List.replicate ehdrSize 0, []) = state at h
  obtain ⟨out, offsets⟩ := state
  generalize hpadded : padTo 8 out = padded at h
  generalize hrows : (l.shdrs.zipIdx.flatMap fun x =>
    shdrBytes (l.nameOffsets.getD x.2 0) x.1 (offsets.getD x.2 0)) = rows at h
  have hprefix : out <+: padded := hpadded ▸ prefix_padTo 8
  -- the header takes the place of the zeros
  have hdrop : ∀ o, ehdrSize ≤ o → file.drop o = (padded ++ rows).drop o := by
    intro o ho
    obtain ⟨k, rfl⟩ := Nat.exists_eq_add_of_le ho
    rw [← h, ← List.drop_drop, List.drop_left' (length_headerBytes _ _ _), List.drop_drop]
  have hstart : ehdrSize ≤ out.length := by
    have hfrom := (prefix_foldl_place l.shdrs (List.replicate ehdrSize 0, [])).length_le
    rwa [hstate, List.length_replicate] at hfrom
  have hpad := hprefix.length_le
  have hlength : file.length = (padded ++ rows).length := by
    rw [← h, List.length_append, length_headerBytes, List.length_drop, List.length_append]
    omega
  have hshoff : (UInt64.ofNat padded.length).toNat = padded.length := by
    rw [UInt64.toNat_ofNat']
    refine Nat.mod_eq_of_lt ?_
    rw [hlength, List.length_append] at hlen
    omega
  have hplaced : Placed l.shdrs out offsets := by
    have hfold := placed (l := l.shdrs) hplain
    rw [hstate] at hfold
    refine hfold ?_
    rw [hlength, List.length_append] at hlen
    exact (hpad.trans (Nat.le_add_right _ _)).trans_lt hlen
  refine ⟨offsets, UInt64.ofNat padded.length, ⟨hplaced.count, ?_, fun p hp hnull => ?_, hplaced.apart⟩, ?_, ?_, ?_⟩
  · rw [hlength, List.length_append]
    omega
  · have hat := (hplaced.each p hp hnull).mono (( hprefix.trans) (List.prefix_append _ rows))
    exact ⟨hat.behind, hat.aligned, hlength ▸ hat.within, by rw [hdrop _ hat.behind]; exact hat.held⟩
  · exact ⟨_, h.symm⟩
  · rw [hshoff]
    exact hstart.trans hpad
  · intro i s offset hs hoffset
    have hrow : l.shdrs.zipIdx[i]? = some (s, i) := by
      rw [List.getElem?_zipIdx, hs, Nat.zero_add]
      rfl
    obtain ⟨rest, hrest⟩ := drop_row (fun (x : Shdr × Nat) _ => length_shdrBytes (l.nameOffsets.getD x.2 0) x.1
      (offsets.getD x.2 0)) hrow
    have hgetD : offsets.getD i 0 = offset := by rw [List.getD_eq_getElem?_getD, hoffset, Option.getD_some]
    refine ⟨rest, ?_⟩
    rw [hshoff, hdrop _ ((hstart.trans hpad).trans (Nat.le_add_right _ _)), ← List.drop_drop, List.drop_left,
      Nat.mul_comm, ← hrows, hrest, hgetD]

end BuildYourOwn.Link

/-!
## What is parsed of an emitted file

* A section's bytes: `slice_held`.
* **`parseSections_emitted`**: the sections are the entries, named, each with its place and its offset.
* `parseSymbols_rows`, `relocationsOf_rows`: a table of rows is read row by row.
-/

namespace BuildYourOwn.Link

open Lib Layout

variable {l : Layout} {s : Shdr} {file : Bytes} {offsets : List UInt64} {shoff offset : UInt64} {e : Elf} {i : Nat}

/-- The entry has its contents in the file, and says how many bytes they are. -/
structure Shdr.Sized (s : Shdr) : Prop where
  notNull : s.shType ≠ shtNull
  occupies : s.occupiesFileSpace = true
  size : s.size = UInt64.ofNat s.data.length

theorem slice_held (hs : s.Sized) (hat : s.At e.bytes offset.toNat) (hlen : e.bytes.length < 2 ^ 64) :
    e.slice offset s.size = .ok s.data := by
  have hwithin := hat.within
  unfold Shdr.fileSize at hwithin
  rw [if_pos hs.occupies] at hwithin
  have hsize : s.size.toNat = s.data.length := by
    rw [hs.size, UInt64.toNat_ofNat']
    exact Nat.mod_eq_of_lt (show s.data.length < 2 ^ 64 by omega)
  unfold Elf.slice
  rw [hsize, if_neg (by omega), if_pos hwithin, hat.held hs.occupies]

/-! ## Sections -/

def Layout.sectionsAt (l : Layout) (offsets : List UInt64) : List Section :=
  (l.shdrs.zip offsets).zipIdx.map fun (p, i) => p.1.read p.1.name i p.2

theorem Placed.at (h : Placed l.shdrs file offsets) (hs : l.shdrs[i]? = some s) :
    ∃ offset, offsets[i]? = some offset ∧ (l.shdrs.zip offsets)[i]? = some (s, offset) := by
  obtain ⟨hi, -⟩ := List.getElem?_eq_some_iff.mp hs
  have hlt : i < offsets.length := h.count ▸ hi
  have hoffset : offsets[i]? = some offsets[i] := List.getElem?_eq_getElem hlt
  exact ⟨_, hoffset, by rw [List.getElem?_zip_eq_some]; exact ⟨hs, hoffset⟩⟩

theorem sectionsAt_at (h : (l.shdrs.zip offsets)[i]? = some (s, offset)) :
    (l.sectionsAt offsets)[i]? = some (s.read s.name i offset) := by
  unfold sectionsAt
  rw [List.getElem?_map, List.getElem?_zipIdx, h, Nat.zero_add]
  rfl

structure Layout.Named (l : Layout) (shstrtab : Shdr) (t : StrTab) : Prop where
  index : l.shdrs[l.shstrtabIndex.toNat]? = some shstrtab
  sized : shstrtab.Sized
  table : shstrtab.data = t.bytes
  holds : List.Forall₂ t.Holds l.nameOffsets (l.shdrs.map Shdr.name)
  free : ∀ s ∈ l.shdrs, 0 ∉ asBytes s.name

theorem Layout.Named.cstr {shstrtab : Shdr} {t : StrTab} (h : l.Named shstrtab t) (hs : l.shdrs[i]? = some s) :
    cstr t.bytes (l.nameOffsets.getD i 0).toNat = s.name := by
  have hname : (l.shdrs.map Shdr.name)[i]? = some s.name := by rw [List.getElem?_map, hs]; rfl
  obtain ⟨hi, hget⟩ := List.getElem?_eq_some_iff.mp hname
  obtain ⟨hlength, hholds⟩ := List.forall₂_iff_get.mp h.holds
  have hheld := hholds i (hlength ▸ hi) hi
  rw [List.get_eq_getElem, List.get_eq_getElem, hget] at hheld
  rw [List.getD_eq_getElem?_getD, List.getElem?_eq_getElem (hlength ▸ hi), Option.getD_some]
  exact hheld.cstr (h.free s (List.mem_of_getElem? hs))

def Layout.rawAt (l : Layout) (offsets : List UInt64) : List (UInt32 × Section) :=
  (l.shdrs.zip offsets).zipIdx.map fun (p, i) => (l.nameOffsets.getD i 0, p.1.read "" i p.2)

theorem mapM_readSection (h : Emitted l file offsets shoff) (hlen : file.length < 2 ^ 64) :
    (List.range l.shdrs.length).mapM (Elf.readSection file shoff.toNat shdrSize) = .ok (l.rawAt offsets) := by
  have hcount : (l.shdrs.zip offsets).length = l.shdrs.length := by
    rw [List.length_zip, h.count, Nat.min_self]
  rw [mapM_eq_ok, List.forall₂_iff_get]
  refine ⟨by rw [List.length_range, rawAt, List.length_map, List.length_zipIdx, hcount], fun i hi hi' => ?_⟩
  rw [List.length_range] at hi
  obtain ⟨offset, hoffset, hzip⟩ := h.at (List.getElem?_eq_getElem hi)
  obtain ⟨rest, hrow⟩ := h.table i _ offset (List.getElem?_eq_getElem hi) hoffset
  have hraw : (l.rawAt offsets)[i]? = some (l.nameOffsets.getD i 0, l.shdrs[i].read "" i offset) := by
    unfold rawAt
    rw [List.getElem?_map, List.getElem?_zipIdx, hzip, Nat.zero_add]
    rfl
  obtain ⟨_, hget⟩ := List.getElem?_eq_some_iff.mp hraw
  rw [List.get_eq_getElem, List.get_eq_getElem, List.getElem_range, hget]
  exact readSection_row hrow hlen

theorem parseSections_emitted {shstrtab : Shdr} {t : StrTab} (h : Emitted l file offsets shoff)
    (hnamed : l.Named shstrtab t) (hcount : l.shdrs.length < 2 ^ 16) (hlen : file.length < 2 ^ 64)
    (hbytes : e.bytes = file) (hshnum : e.shnum = UInt16.ofNat l.shdrs.length) (hshoff : e.shoff = shoff)
    (hshentsize : e.shentsize = UInt16.ofNat shdrSize) (hshstrndx : e.shstrndx = l.shstrtabIndex) :
    Elf.parseSections e = .ok { e with sections := l.sectionsAt offsets } := by
  have hnum : e.shnum.toNat = l.shdrs.length := by
    rw [hshnum, UInt16.toNat_ofNat']
    exact Nat.mod_eq_of_lt hcount
  have hpos : 0 < l.shdrs.length := (List.getElem?_eq_some_iff.mp hnamed.index).1.trans_le' (Nat.zero_le _)
  have hsome : ¬ (e.shnum = 0 ∨ e.shoff = 0) := by
    rintro (hzero | hzero)
    · rw [hzero] at hnum
      exact absurd hnum (Nat.ne_of_lt hpos)
    · have hbehind := h.behind
      rw [← hshoff, hzero] at hbehind
      cases hbehind
  obtain ⟨offset, hoffset, hzip⟩ := h.at hnamed.index
  have hnames : e.bytesAt ((l.rawAt offsets).map Prod.snd) e.shstrndx.toNat = t.bytes := by
    have hsection : ((l.rawAt offsets).map Prod.snd)[l.shstrtabIndex.toNat]? =
        some (shstrtab.read "" l.shstrtabIndex.toNat offset) := by
      unfold rawAt
      rw [List.getElem?_map, List.getElem?_map, List.getElem?_zipIdx, hzip, Nat.zero_add]
      rfl
    have hat := h.each _ (List.mem_of_getElem? hzip) hnamed.sized.notNull
    unfold Elf.bytesAt
    rw [hshstrndx, hsection]
    dsimp only [Shdr.read]
    rw [slice_held hnamed.sized (hbytes ▸ hat) (hbytes ▸ hlen), hnamed.table]
    rfl
  have hentry : e.shentsize.toNat = shdrSize := by rw [hshentsize]; rfl
  unfold Elf.parseSections
  rw [if_neg hsome, hentry, hnum, hbytes, hshoff]
  simp only [bind, Except.bind, Nat.lt_irrefl, if_false, pure, Except.pure, mapM_readSection h hlen, hnames]
  congr 2
  -- the names are resolved
  unfold rawAt sectionsAt
  rw [List.map_map]
  refine List.map_congr_left fun x hx => ?_
  obtain ⟨⟨s, o⟩, i⟩ := x
  have hs : l.shdrs[i]? = some s := by
    have hi := List.mem_zipIdx_iff_getElem?.mp hx
    exact (List.getElem?_zip_eq_some.mp hi).1
  show Section.mk i (cstr t.bytes (l.nameOffsets.getD i 0).toNat) s.shType s.flags s.addr o s.size s.link s.info s.align
    s.entsize = _
  rw [hnamed.cstr hs]
  rfl

/-! ## Tables of rows -/

theorem takeWhile_long {n : Nat} {rows : List Bytes} (hw : ∀ row ∈ rows, row.length = n) :
    (rows.takeWhile fun chunk => n ≤ chunk.length) = rows :=
  List.takeWhile_eq_self_iff.mpr fun row hrow => decide_eq_true (Nat.le_of_eq (hw row hrow).symm)

theorem parseSymbols_rows {symtab : Section} {rows : List Bytes} {strings : Bytes} {symbols : List Symbol}
    (hfind : e.sections.find? (fun s => s.shType == shtSymtab) = some symtab)
    (hstrings : e.bytesAt e.sections symtab.link.toNat = strings)
    (hdata : e.slice symtab.offset symtab.size = .ok rows.flatten)
    (hentsize : symtab.entsize = UInt64.ofNat symSize) (hw : ∀ row ∈ rows, row.length = symSize)
    (hread : List.Forall₂ (fun x symbol => Elf.readSymbol strings x.2 x.1 = .ok symbol) rows.zipIdx symbols) :
    Elf.parseSymbols e = .ok { e with symbols := symbols } := by
  have hstep : (if symtab.entsize = 0 then symSize else symtab.entsize.toNat) = symSize := by rw [hentsize]; rfl
  have hchunks : (chunks symSize rows.flatten).takeWhile (fun chunk => symSize ≤ chunk.length) = rows := by
    have hrows : chunks symSize (rows.flatMap id) = rows.map id := chunks_rows hw (by decide)
    rw [List.flatMap_id, List.map_id] at hrows
    rw [hrows, takeWhile_long hw]
  have hmapM : rows.zipIdx.mapM (fun x => Elf.readSymbol strings x.2 x.1) = .ok symbols := mapM_eq_ok.mpr hread
  unfold Elf.parseSymbols
  rw [hfind]
  simp only [bind, Except.bind, hdata, hstep, hstrings, Nat.lt_irrefl, if_false, pure, Except.pure, hchunks, hmapM]

theorem relocationsOf_rows {s : Section} (hs : s.shType = shtRela) {relocs : List Reloc} {sym : Reloc → UInt32}
    (hdata : e.slice s.offset s.size = .ok (relocs.flatMap fun r => relaBytes (sym r) r)) :
    e.relocationsOf s = .ok (relocs.map fun r =>
      { targetSection := s.info.toNat, offset := r.offset, sym := sym r, kind := r.kind, addend := r.addend }) := by
  have hw : ∀ r ∈ relocs, (relaBytes (sym r) r).length = relaSize := fun r _ => length_relaBytes _ r
  have hchunks : (chunks relaSize (relocs.flatMap fun r => relaBytes (sym r) r)).takeWhile
      (fun chunk => relaSize ≤ chunk.length) = relocs.map fun r => relaBytes (sym r) r := by
    rw [chunks_rows hw (by decide), takeWhile_long]
    intro row hrow
    obtain ⟨r, hr, rfl⟩ := List.mem_map.mp hrow
    exact hw r hr
  unfold Elf.relocationsOf
  simp only [bind, Except.bind, hdata, hs, if_true, hchunks]
  rw [mapM_eq_ok, List.forall₂_map_left_iff, List.forall₂_map_right_iff, List.forall₂_same]
  exact fun r _ => readRelocation_row hs _ r

end BuildYourOwn.Link
