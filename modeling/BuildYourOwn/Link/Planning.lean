import Mathlib.Data.List.Perm.Basic
import BuildYourOwn.Link.SymbolTable

/-!
# The plan comes out as the table
-/

namespace BuildYourOwn.Link

open Lib Layout

variable {b : ObjectBuilder} {name : String}

/-! ## The table -/

namespace ObjectBuilder

def relaShdr (b : ObjectBuilder) (s : SectionSpec) : Shdr :=
  Shdr.rela s (b.relaData s) (symtabIndex b) (b.placeOf s.name)

/-- The tables of the writer, with what `.shstrtab` holds. -/
def ownTables (b : ObjectBuilder) (names : Bytes) : List Shdr :=
  [Shdr.symtab b.tables.syms.flatten (symtabIndex b + 1) b.tables.firstGlobal,
    Shdr.strings ".strtab" b.tables.strtab.bytes, Shdr.strings ".shstrtab" names]

def table (b : ObjectBuilder) (names : Bytes) : List Shdr :=
  Shdr.null :: if b.symtabFirst then
      b.ownTables names ++ (b.sections.map Shdr.ofSpec ++ b.relocated.map b.relaShdr)
    else if b.relaBeforeTarget then
      b.sections.flatMap (fun s => (if s.relocs.isEmpty then [] else [b.relaShdr s]) ++ [Shdr.ofSpec s]) ++
        b.ownTables names
    else b.sections.map Shdr.ofSpec ++ b.relocated.map b.relaShdr ++ b.ownTables names

def relaPlace (b : ObjectBuilder) (s : SectionSpec) : Nat :=
  if b.relaBeforeTarget then b.placeOf s.name - 1
  else contentBase b + b.sections.length + b.relocated.findIdx fun s' => s'.name == s.name

def entriesOf (b : ObjectBuilder) (s : SectionSpec) : List (Nat × Shdr) :=
  (if s.relocs.isEmpty then [] else [(b.relaPlace s, b.relaShdr s)]) ++ [(b.placeOf s.name, Shdr.ofSpec s)]

/-- The entries in the order in which they are pushed. -/
def entryList (b : ObjectBuilder) : List (Nat × Shdr) :=
  (0, Shdr.null) :: (b.sections.flatMap b.entriesOf ++
    [(symtabIndex b, Shdr.symtab b.tables.syms.flatten (symtabIndex b + 1) b.tables.firstGlobal),
      (symtabIndex b + 1, Shdr.strings ".strtab" b.tables.strtab.bytes),
      (symtabIndex b + 2, Shdr.strings ".shstrtab" [])])

end ObjectBuilder

/-! ## Numbers -/

theorem mem_zip_number {relaBeforeTarget : Bool} {next : Nat} {sections : List SectionSpec}
    {x : SectionSpec × String × Nat} (hx : x ∈ sections.zip (number relaBeforeTarget next sections)) :
    x.2.1 = x.1.name := by
  induction sections generalizing next with
  | nil => cases hx
  | cons s sections ih =>
    rw [number, List.zip_cons_cons] at hx
    rcases List.mem_cons.mp hx with rfl | hx
    · rfl
    · exact ih hx

theorem lookup_of_nodup {α : Type} {l : List (String × α)} (hnodup : (l.map Prod.fst).Nodup) {p : String × α}
    (hp : p ∈ l) : l.lookup p.1 = some p.2 := by
  obtain ⟨before, after, rfl⟩ := List.append_of_mem hp
  rw [List.map_append, List.map_cons, List.nodup_append] at hnodup
  rw [List.lookup_eq_some_iff]
  refine ⟨before, after, rfl, fun q hq => bne_iff_ne.mpr fun heq => ?_⟩
  exact hnodup.2.2 q.1 (List.mem_map_of_mem hq) p.1 List.mem_cons_self heq.symm

theorem length_number (relaBeforeTarget : Bool) (next : Nat) (sections : List SectionSpec) :
    (number relaBeforeTarget next sections).length = sections.length := by
  rw [← List.length_map Prod.fst, map_fst_number, List.length_map]

theorem placeOf_number (hnodup : (b.sections.map SectionSpec.name).Nodup) {x : SectionSpec × String × Nat}
    (hx : x ∈ b.sections.zip b.indexOf) : b.placeOf x.1.name = x.2.2 := by
  have hkeys : (b.indexOf.map Prod.fst).Nodup := by
    unfold ObjectBuilder.indexOf
    rwa [map_fst_number]
  unfold ObjectBuilder.placeOf
  rw [← mem_zip_number hx, lookup_of_nodup hkeys (List.of_mem_zip hx).2]
  rfl

theorem flatMap_sections {F : SectionSpec → Nat → List (Nat × Shdr)} (hnodup : (b.sections.map SectionSpec.name).Nodup) :
    b.sections.flatMap (fun s => F s (b.placeOf s.name)) = (b.sections.zip b.indexOf).flatMap fun x => F x.1 x.2.2 := by
  have hsections : (b.sections.zip b.indexOf).map Prod.fst = b.sections :=
    List.map_fst_zip (Nat.le_of_eq (length_number _ _ _).symm)
  conv_lhs => rw [← hsections, List.flatMap_map]
  exact List.flatMap_congr fun x hx => by rw [placeOf_number hnodup hx]

theorem map_placeOf (hnodup : (b.sections.map SectionSpec.name).Nodup) :
    b.sections.map (fun s => b.placeOf s.name) = b.indexOf.map Prod.snd := by
  have hsections : (b.sections.zip b.indexOf).map Prod.fst = b.sections :=
    List.map_fst_zip (Nat.le_of_eq (length_number _ _ _).symm)
  have hindex : (b.sections.zip b.indexOf).map Prod.snd = b.indexOf :=
    List.map_snd_zip (Nat.le_of_eq (length_number _ _ _))
  conv_lhs => rw [← hsections]
  conv_rhs => rw [← hindex]
  rw [List.map_map, List.map_map]
  exact List.map_congr_left fun x hx => placeOf_number hnodup hx

/-- One after another. -/
theorem map_snd_number (next : Nat) (sections : List SectionSpec) :
    (number false next sections).map Prod.snd = List.range' next sections.length := by
  induction sections generalizing next with
  | nil => rfl
  | cons s sections ih => rw [number, List.map_cons, List.length_cons, List.range'_succ, ← ih]; rfl

theorem number_before (rela own : SectionSpec → Shdr) (next : Nat) (sections : List SectionSpec) :
    (sections.zip (number true next sections)).flatMap (fun x =>
      (if x.1.relocs.isEmpty then [] else [(x.2.2 - 1, rela x.1)]) ++ [(x.2.2, own x.1)]) =
    ((sections.flatMap fun s => (if s.relocs.isEmpty then [] else [rela s]) ++ [own s]).zipIdx next).map Prod.swap := by
  induction sections generalizing next with
  | nil => rfl
  | cons s sections ih =>
    rw [number, List.zip_cons_cons, List.flatMap_cons, List.flatMap_cons, ih, List.zipIdx_append, List.map_append]
    cases s.relocs.isEmpty <;> rfl

theorem number_increasing (relaBeforeTarget : Bool) (next : Nat) (sections : List SectionSpec) :
    (∀ i ∈ (number relaBeforeTarget next sections).map Prod.snd, next ≤ i) ∧
      ((number relaBeforeTarget next sections).map Prod.snd).Pairwise (· < ·) := by
  induction sections generalizing next with
  | nil => exact ⟨List.forall_mem_nil _, .nil⟩
  | cons s sections ih =>
    unfold number
    rw [List.map_cons, List.forall_mem_cons, List.pairwise_cons]
    generalize hnext : (if relaBeforeTarget && !s.relocs.isEmpty then next + 1 else next) = own
    have hle : next ≤ own := by rw [← hnext]; split <;> omega
    obtain ⟨hbound, hsorted⟩ := ih (own + 1)
    exact ⟨⟨hle, fun i hi => by have := hbound i hi; omega⟩, fun i hi => hbound i hi, hsorted⟩

theorem map_findIdx {l : List SectionSpec} (hnodup : (l.map SectionSpec.name).Nodup) :
    l.map (fun s => l.findIdx fun s' => s'.name == s.name) = List.range l.length := by
  refine List.ext_getElem (by rw [List.length_map, List.length_range]) fun i hi hi' => ?_
  rw [List.length_range] at hi'
  rw [List.getElem_map, List.getElem_range, List.findIdx_eq hi']
  refine ⟨beq_self_eq_true _, fun j hj => beq_false_of_ne fun hname => ?_⟩
  have hne := List.pairwise_iff_getElem.mp hnodup j i (by rw [List.length_map]; omega) (by rwa [List.length_map]) hj
  rw [List.getElem_map, List.getElem_map] at hne
  exact hne hname

/-! ## The entries -/

variable {s : SectionSpec}

theorem mem_relocated : s ∈ b.relocated ↔ s ∈ b.sections ∧ s.relocs.isEmpty = false := by
  unfold ObjectBuilder.relocated
  rw [List.mem_filter, Bool.not_eq_true']

theorem nodup_relocated (hnodup : (b.sections.map SectionSpec.name).Nodup) : (b.relocated.map SectionSpec.name).Nodup :=
  hnodup.sublist ((List.filter_sublist).map _)

theorem sectionEntries_ends {relas : List (String × Bytes)} {es : List (Nat × Shdr)}
    (h : sectionEntries b b.indexOf relas s = .ok es) : ∃ front, es = front ++ [(b.placeOf s.name, Shdr.ofSpec s)] := by
  unfold sectionEntries at h
  obtain ⟨idx, hidx, h⟩ := bind_eq_ok.mp h
  obtain ⟨-, rfl⟩ := sectionIndex_eq_ok.mp hidx
  split at h
  · exact ⟨[_], (Except.ok.inj h).symm⟩
  · exact ⟨[], (Except.ok.inj h).symm⟩

theorem places_sublist {sections : List SectionSpec} {perSection : List (List (Nat × Shdr))}
    (h : List.Forall₂ (fun s es => ∃ front, es = front ++ [(b.placeOf s.name, Shdr.ofSpec s)]) sections perSection) :
    (sections.map fun s => b.placeOf s.name).Sublist (perSection.flatten.map Prod.fst) := by
  induction h with
  | nil => exact .slnil
  | cons hs _ ih =>
    obtain ⟨front, rfl⟩ := hs
    rw [List.map_cons, List.flatten_cons, List.map_append, List.map_append, List.append_assoc]
    exact (List.Sublist.cons_cons _ ih).trans (List.sublist_append_right _ _)

theorem sectionEntries_eq (hnodup : (b.sections.map SectionSpec.name).Nodup) (hs : s ∈ b.sections) :
    sectionEntries b b.indexOf (b.relocated.map fun s => (s.name, b.relaData s)) s = .ok (b.entriesOf s) := by
  have hkeys : ((b.relocated.map fun s => (s.name, b.relaData s)).map Prod.fst).Nodup := by
    rw [List.map_map]
    exact nodup_relocated hnodup
  unfold sectionEntries
  rw [sectionIndex_eq_ok.mpr ⟨List.mem_map_of_mem hs, rfl⟩]
  simp only [bind, Except.bind]
  cases hempty : s.relocs.isEmpty with
  | true =>
    -- no other section has the name
    have hlookup : (b.relocated.map fun s => (s.name, b.relaData s)).lookup s.name = none := by
      rw [List.lookup_eq_none_iff]
      intro p hp
      obtain ⟨s', hs', rfl⟩ := List.mem_map.mp hp
      obtain ⟨hmem, hrelocs⟩ := mem_relocated.mp hs'
      refine bne_iff_ne.mpr fun hname => ?_
      obtain rfl := List.inj_on_of_nodup_map hnodup hs hmem hname
      rw [hempty] at hrelocs
      cases hrelocs
    rw [hlookup]
    unfold ObjectBuilder.entriesOf
    rw [if_pos hempty]
    rfl
  | false =>
    have hmem : s ∈ b.relocated := mem_relocated.mpr ⟨hs, hempty⟩
    have hlookup : (b.relocated.map fun s => (s.name, b.relaData s)).lookup s.name = some (b.relaData s) :=
      lookup_of_nodup hkeys (List.mem_map_of_mem (f := fun s => (s.name, b.relaData s)) hmem)
    have hfindIdx : ((b.relocated.map fun s => (s.name, b.relaData s)).findIdx? fun e => e.1 == s.name) =
        some (b.relocated.findIdx fun s' => s'.name == s.name) := by
      rw [List.findIdx?_map, List.findIdx?_eq_some_iff_findIdx_eq]
      exact ⟨List.findIdx_lt_length_of_exists ⟨s, hmem, beq_self_eq_true _⟩, rfl⟩
    have hentries : b.entriesOf s = [(b.relaPlace s, b.relaShdr s), (b.placeOf s.name, Shdr.ofSpec s)] := by
      unfold ObjectBuilder.entriesOf
      rw [hempty]
      rfl
    rw [hlookup, hentries]
    rw [hfindIdx]
    rfl

theorem entries_eq (hnodup : (b.sections.map SectionSpec.name).Nodup) :
    entries b b.indexOf b.tables (b.relocated.map fun s => (s.name, b.relaData s)) = .ok b.entryList := by
  have hmapM : b.sections.mapM (sectionEntries b b.indexOf (b.relocated.map fun s => (s.name, b.relaData s))) =
      .ok (b.sections.map b.entriesOf) := by
    rw [mapM_eq_ok, List.forall₂_map_right_iff, List.forall₂_same]
    exact fun s hs => sectionEntries_eq hnodup hs
  unfold entries
  rw [hmapM]
  rfl

theorem flatMap_relocated {α : Type} (f : SectionSpec → α) (sections : List SectionSpec) :
    sections.flatMap (fun s => if s.relocs.isEmpty then [] else [f s]) =
      (sections.filter fun s => !s.relocs.isEmpty).map f := by
  induction sections with
  | nil => rfl
  | cons s sections ih =>
    rw [List.flatMap_cons, ih, List.filter_cons]
    cases s.relocs.isEmpty <;> rfl

theorem entriesOf_perm (hnodup : (b.sections.map SectionSpec.name).Nodup) (hbefore : b.relaBeforeTarget = false) :
    (b.sections.flatMap b.entriesOf).Perm
      (((b.sections.map Shdr.ofSpec ++ b.relocated.map b.relaShdr).zipIdx (contentBase b)).map Prod.swap) := by
  have hplaces : b.sections.map (fun s => b.placeOf s.name) = List.range' (contentBase b) b.sections.length := by
    rw [map_placeOf hnodup, ObjectBuilder.indexOf, hbefore, map_snd_number]
  have hrelaPlaces : b.relocated.map b.relaPlace =
      List.range' (contentBase b + b.sections.length) b.relocated.length := by
    have hplace : b.relaPlace = fun s => contentBase b + b.sections.length +
        b.relocated.findIdx fun s' => s'.name == s.name := by
      funext s
      unfold ObjectBuilder.relaPlace
      rw [hbefore, if_neg (by decide)]
    rw [hplace, List.range'_eq_map_range, ← map_findIdx (nodup_relocated hnodup), List.map_map]
    rfl
  have howns : b.sections.flatMap (fun s => [(b.placeOf s.name, Shdr.ofSpec s)]) =
      ((b.sections.map Shdr.ofSpec).zipIdx (contentBase b)).map Prod.swap := by
    rw [← map_numbered hplaces, List.map_eq_flatMap]
  have hrelas : b.sections.flatMap (fun s => if s.relocs.isEmpty then [] else [(b.relaPlace s, b.relaShdr s)]) =
      ((b.relocated.map b.relaShdr).zipIdx (contentBase b + b.sections.length)).map Prod.swap := by
    rw [flatMap_relocated, ← map_numbered hrelaPlaces]
    rfl
  rw [List.zipIdx_append, List.map_append, List.length_map, ← howns, ← hrelas]
  exact (List.flatMap_append_perm b.sections _ _).symm.trans List.perm_append_comm

theorem length_interleaved : (b.sections.flatMap fun s => (if s.relocs.isEmpty then [] else [b.relaShdr s]) ++
    [Shdr.ofSpec s]).length = b.relocated.length + b.sections.length := by
  rw [← (List.flatMap_append_perm b.sections _ _).length_eq, flatMap_relocated, ← List.map_eq_flatMap,
    List.length_append, List.length_map, List.length_map]
  rfl

theorem entries_perm (hnodup : (b.sections.map SectionSpec.name).Nodup)
    (hlayout : ¬ (b.relaBeforeTarget = true ∧ b.symtabFirst = true)) :
    b.entryList.Perm ((b.table []).zipIdx.map Prod.swap) := by
  unfold ObjectBuilder.entryList ObjectBuilder.table ObjectBuilder.ownTables
  rw [List.zipIdx_cons, List.map_cons]
  refine List.Perm.cons _ ?_
  have hcount : b.relocated.length = (b.sections.filter fun s => !s.relocs.isEmpty).length := rfl
  by_cases hfirst : b.symtabFirst = true
  · have hbefore : b.relaBeforeTarget = false := Bool.eq_false_iff.mpr fun h => hlayout ⟨h, hfirst⟩
    have hbase : contentBase b = 4 := by unfold contentBase; rw [if_pos hfirst]
    have hsymtab : symtabIndex b = 1 := by unfold symtabIndex; rw [if_pos hfirst]
    rw [if_pos hfirst, List.zipIdx_append, List.map_append, hsymtab]
    refine List.perm_append_comm.trans (List.Perm.append_left _ ?_)
    have hperm := entriesOf_perm hnodup hbefore
    rwa [hbase] at hperm
  have hbase : contentBase b = 1 := by unfold contentBase; rw [if_neg hfirst]
  have hsymtab : symtabIndex b = 1 + b.sections.length + b.relocated.length := by
    unfold symtabIndex
    rw [if_neg hfirst, hbase, hcount]
  rw [if_neg hfirst]
  by_cases hbefore : b.relaBeforeTarget = true
  · have hentries : b.sections.flatMap b.entriesOf = ((b.sections.flatMap fun s =>
        (if s.relocs.isEmpty then [] else [b.relaShdr s]) ++ [Shdr.ofSpec s]).zipIdx 1).map Prod.swap := by
      have hindex : b.indexOf = number true 1 b.sections := by
        unfold ObjectBuilder.indexOf
        rw [hbefore, hbase]
      have hplace : b.relaPlace = fun s => b.placeOf s.name - 1 := by
        funext s
        unfold ObjectBuilder.relaPlace
        rw [if_pos hbefore]
      unfold ObjectBuilder.entriesOf
      rw [← number_before, ← hindex, hplace]
      exact flatMap_sections (F := fun s i =>
        (if s.relocs.isEmpty then [] else [(i - 1, b.relaShdr s)]) ++ [(i, Shdr.ofSpec s)]) hnodup
    rw [if_pos hbefore, List.zipIdx_append, List.map_append, ← hentries, length_interleaved, hsymtab,
      show 1 + (b.relocated.length + b.sections.length) = 1 + b.sections.length + b.relocated.length by omega]
    rfl
  · have hperm := entriesOf_perm hnodup (Bool.eq_false_iff.mpr hbefore)
    rw [hbase] at hperm
    rw [if_neg hbefore, List.zipIdx_append, List.map_append]
    refine hperm.append (List.Perm.of_eq ?_)
    rw [List.length_append, List.length_map, List.length_map, hsymtab, Nat.add_assoc]
    rfl

/-! ## The layout -/

theorem table_split (b : ObjectBuilder) : ∃ front back, front.length = symtabIndex b ∧
    ∀ names, b.table names = front ++ b.ownTables names ++ back := by
  unfold ObjectBuilder.table symtabIndex contentBase
  by_cases hfirst : b.symtabFirst = true
  · refine ⟨[Shdr.null], b.sections.map Shdr.ofSpec ++ b.relocated.map b.relaShdr, ?_, fun names => ?_⟩
    · rw [if_pos hfirst]
      rfl
    · rw [if_pos hfirst, List.append_assoc]
      rfl
  simp only [if_neg hfirst]
  by_cases hbefore : b.relaBeforeTarget = true
  · refine ⟨Shdr.null :: b.sections.flatMap (fun s =>
      (if s.relocs.isEmpty then [] else [b.relaShdr s]) ++ [Shdr.ofSpec s]), [], ?_, fun names => ?_⟩
    · rw [List.length_cons, length_interleaved]
      show _ = 1 + b.sections.length + b.relocated.length
      omega
    · rw [if_pos hbefore, List.append_nil]
      rfl
  · refine ⟨Shdr.null :: (b.sections.map Shdr.ofSpec ++ b.relocated.map b.relaShdr), [], ?_, fun names => ?_⟩
    · rw [List.length_cons, List.length_append, List.length_map, List.length_map]
      show _ = 1 + b.sections.length + b.relocated.length
      omega
    · rw [if_neg hbefore, List.append_nil]
      rfl

theorem table_at (names : Bytes) {i : Nat} (hi : i < 3) :
    (b.table names)[symtabIndex b + i]? = (b.ownTables names)[i]? := by
  obtain ⟨front, back, hlength, htable⟩ := table_split b
  rw [htable, List.append_assoc, ← hlength, List.getElem?_append_right (Nat.le_add_right _ _),
    Nat.add_sub_cancel_left, List.getElem?_append_left]
  exact hi

/-- What `.shstrtab` holds is filled in. -/
theorem table_set (names : Bytes) :
    b.table names = (b.table []).set (symtabIndex b + 2) (Shdr.strings ".shstrtab" names) := by
  obtain ⟨front, back, hfront, htable⟩ := table_split b
  rw [htable, htable, List.append_assoc, List.append_assoc, ← hfront, List.set_append_right _ _ (Nat.le_add_right _ _),
    Nat.add_sub_cancel_left]
  rfl

namespace ObjectBuilder

/-- The names of the entries. -/
def shstrtab (b : ObjectBuilder) : StrTab := (StrTab.new.addAll ((b.table []).map Shdr.name)).2

def planned (b : ObjectBuilder) : Layout where
  shdrs := b.table b.shstrtab.bytes
  indexOf := b.indexOf
  nameOffsets := (StrTab.new.addAll ((b.table []).map Shdr.name)).1
  shstrtabIndex := UInt16.ofNat (symtabIndex b + 2)

end ObjectBuilder

theorem fromEntries_eq (hnodup : (b.sections.map SectionSpec.name).Nodup)
    (hlayout : ¬ (b.relaBeforeTarget = true ∧ b.symtabFirst = true)) :
    fromEntries b b.indexOf b.entryList = .ok b.planned := by
  have hperm := entries_perm hnodup hlayout
  have hlength : b.entryList.length = (b.table []).length := by
    rw [hperm.length_eq, List.length_map, List.length_zipIdx]
  have hnumbers : (byNumber b.entryList).map Prod.fst = List.range b.entryList.length := by
    rw [byNumber_eq hperm, List.map_map, hlength, List.range_eq_range', ← List.zipIdx_map_snd 0 (b.table [])]
    rfl
  have hshdrs : (byNumber b.entryList).map Prod.snd = b.table [] := by
    rw [byNumber_eq hperm, List.map_map]
    exact List.zipIdx_map_fst 0 _
  unfold fromEntries
  dsimp only
  rw [if_neg (not_not_intro hnumbers), hshdrs, table_at [] (by decide)]
  show Except.ok _ = _
  unfold ObjectBuilder.planned
  rw [table_set b.shstrtab.bytes]
  rfl

theorem nodup_of_fromEntries {relas : List (String × Bytes)} {es : List (Nat × Shdr)} {l : Layout}
    (hes : entries b b.indexOf b.tables relas = .ok es) (h : fromEntries b b.indexOf es = .ok l) :
    (b.sections.map SectionSpec.name).Nodup := by
  have hnumbers : (byNumber es).map Prod.fst = List.range es.length := by
    unfold fromEntries at h
    by_contra hne
    rw [if_pos hne] at h
    cases h
  have hnodup := nodup_of_byNumber hnumbers
  obtain ⟨perSection, hmapM, hes⟩ := bind_eq_ok.mp hes
  cases hes
  -- each section has its own entry among these
  have hsublist : (b.sections.map fun s => b.placeOf s.name).Sublist (perSection.flatten.map Prod.fst) :=
    places_sublist ((mapM_eq_ok.mp hmapM).imp fun _ _ => sectionEntries_ends)
  have hplaces : (b.sections.map fun s => b.placeOf s.name).Nodup := by
    refine hnodup.sublist (hsublist.trans ?_)
    rw [List.map_cons, List.map_append]
    exact ((List.sublist_append_left _ _).cons _)
  have hnames : ((b.sections.map SectionSpec.name).map b.placeOf).Nodup := by rwa [List.map_map]
  exact hnames.of_map _

theorem plan_eq_ok (homit : b.omitSectionSymbols = false) {l : Layout} : plan b = .ok l ↔
    ¬ (b.relaBeforeTarget = true ∧ b.symtabFirst = true) ∧ (b.sections.map SectionSpec.name).Nodup ∧ b.Declared ∧
      l = b.planned := by
  have hand : ((b.relaBeforeTarget && b.symtabFirst) = true) ↔ b.relaBeforeTarget = true ∧ b.symtabFirst = true :=
    Bool.and_eq_true_iff
  have hindex : number b.relaBeforeTarget (contentBase b) b.sections = b.indexOf := rfl
  unfold plan
  constructor
  · intro h
    have hlayout : ¬ (b.relaBeforeTarget = true ∧ b.symtabFirst = true) := by
      intro hboth
      rw [if_pos (hand.mpr hboth)] at h
      cases h
    rw [if_neg (mt hand.mp hlayout), hindex] at h
    obtain ⟨t, ht, h⟩ := bind_eq_ok.mp h
    obtain ⟨hsymbols, rfl⟩ := (symbolTables_eq_ok homit).mp ht
    obtain ⟨relas, hrelas, h⟩ := bind_eq_ok.mp h
    obtain ⟨hrelocs, rfl⟩ := relaFor_eq_ok.mp hrelas
    obtain ⟨es, hes, h⟩ := bind_eq_ok.mp h
    have hnodup := nodup_of_fromEntries hes h
    rw [entries_eq hnodup] at hes
    cases hes
    rw [fromEntries_eq hnodup hlayout] at h
    exact ⟨hlayout, hnodup, ⟨hsymbols, hrelocs⟩, (Except.ok.inj h).symm⟩
  · rintro ⟨hlayout, hnodup, hdeclared, rfl⟩
    rw [if_neg (mt hand.mp hlayout), hindex]
    refine bind_eq_ok.mpr ⟨_, (symbolTables_eq_ok homit).mpr ⟨hdeclared.symbols, rfl⟩,
      bind_eq_ok.mpr ⟨_, relaFor_eq_ok.mpr ⟨hdeclared.relocs, rfl⟩, bind_eq_ok.mpr ⟨_, entries_eq hnodup, ?_⟩⟩⟩
    exact fromEntries_eq hnodup hlayout

end BuildYourOwn.Link
