import BuildYourOwn.Lib.Pieces
import BuildYourOwn.Wasm.Module

/-!
# Annotations describe the bytes they point at

What a built module should be, from the contents of its builder alone: its pieces, one after another, with
what is said of each (`ModuleBuilder.pieces`). A module is described when its annotations are the notes of
these pieces, each over its own (`Described`).

* `Writes f ps C`: `f` writes the pieces `ps`, with as many annotations as they have notes, in order and within
  what it writes; and these annotations are the notes of the pieces exactly when `C` holds. Such functions are
  composed by `Writes.then_`, and each section is one.
* The annotation of a custom section starts two bytes into the section, which is behind its size only when the
  size is of one byte (`writes_custom`).
-/

namespace BuildYourOwn.Wasm

open Lib

/-! ## What a module should be -/

abbrev ModulePiece := Piece UInt8 (String × String)

def noted (content : Bytes) (field value : String) : ModulePiece := ⟨content, some (field, value)⟩

def sectionPieces (id : UInt8) (content : List ModulePiece) : List ModulePiece :=
  noted [id] s!"section[{id}].id" (sectionName id) ::
    noted (uleb (written content).length) s!"section[{id}].size" s!"{(written content).length} bytes" :: content

def vectorPieces {α : Type} (id : UInt8) (xs : List α) (item : Nat → α → List ModulePiece) : List ModulePiece :=
  if xs.isEmpty then []
  else sectionPieces id (⟨uleb xs.length, none⟩ :: xs.zipIdx.flatMap fun (x, i) => item i x)

/-- A function body: its size, then what the size counts. -/
def funcPieces (base : UInt32) (i : Nat) (f : Func) : List ModulePiece :=
  [noted (uleb f.inner.length) s!"code[{base + UInt32.ofNat i}].size" s!"{f.inner.length} bytes",
    noted f.inner s!"code[{base + UInt32.ofNat i}].body" f.note]

def customPieces (c : Custom) : List ModulePiece :=
  sectionPieces 0 [noted c.body s!"custom[{c.name}]" s!"name '{c.name}', {c.payload.length} payload bytes"]

def headerPieces : List ModulePiece :=
  [noted [0x00, 0x61, 0x73, 0x6d] "header.magic" "\\0asm",
    noted [1, 0, 0, 0] "header.version" "1 (little-endian)"]

namespace ModuleBuilder

variable (b : ModuleBuilder)

def sections : List (UInt8 × List ModulePiece) :=
  [(1, vectorPieces 1 b.types fun i t => [noted t.encode s!"type[{i}]" t.text]),
    (2, vectorPieces 2 b.imports fun i imp => [noted (encodeImport imp) s!"import[{i}]"
      s!"{imp.module}::{imp.name} — {importText imp.kind b}"]),
    (3, vectorPieces 3 b.funcs fun i ty => [noted (uleb ty.toNat)
      s!"function[{b.importedFuncs + UInt32.ofNat i}]" s!"type {ty} {b.typeText ty}"]),
    (4, vectorPieces 4 b.tables fun i t => [noted t.encode s!"table[{i}]" s!"{t.elem.name}, {t.limits.text}"]),
    (5, vectorPieces 5 b.memories fun i m => [noted m.encode s!"memory[{i}]" s!"{m.text} (64 KiB pages)"]),
    (6, vectorPieces 6 b.globals fun i g => [noted g.encode s!"global[{i}]"
      s!"{mutText g.mutable} {g.ty.name}, init {g.initText}"]),
    (7, vectorPieces 7 b.exports fun i x => [noted x.encode s!"export[{i}]"
      s!"'{x.name}' → {x.kind.name} {x.index}"]),
    (8, match b.start with
      | none => []
      | some s => sectionPieces 8
          [noted (uleb s.toNat) "start.func" s!"function {s} runs before any export is callable"]),
    (9, vectorPieces 9 b.elems fun i el => [noted (encodeElem el) s!"elem[{i}]" (elemText el)]),
    (12, if b.needsDataCount then
      sectionPieces 12 [noted (uleb b.data.length) "data_count.count"
        s!"{b.data.length} data segments, declared before the code section"]
      else []),
    (10, vectorPieces 10 b.code (funcPieces b.importedFuncs)),
    (11, vectorPieces 11 b.data fun i d => [noted (encodeData d) s!"data[{i}]" (dataText d)])]

def customsPieces (id : Option UInt8) : List ModulePiece :=
  (b.customs.filter fun c => c.after = id).flatMap customPieces

/-- **The pieces of a module.** -/
def pieces : List ModulePiece :=
  headerPieces ++ b.customsPieces none ++ b.sections.flatMap fun (id, ps) => ps ++ b.customsPieces (some id)

end ModuleBuilder

def customSlots : List (Option UInt8) :=
  [none, some 1, some 2, some 3, some 4, some 5, some 6, some 7, some 8, some 9, some 12, some 10, some 11]

/-- A note of a piece, as an annotation. -/
def Ann.of (x : Place (String × String)) : Ann := ⟨x.offset, x.length, x.note.1, x.note.2⟩

structure Described (b : ModuleBuilder) (m : Module) : Prop where
  inside : ∀ a ∈ m.anns, a.offset + a.length ≤ m.bytes.length
  ascending : m.anns.Pairwise fun a a' => a.offset < a'.offset
  bytes : m.bytes = written b.pieces
  covers : m.anns = (places 0 b.pieces).map Ann.of

/-! ## Writing pieces -/

/-- `f` writes these pieces, and annotates them as their notes say exactly when `C` holds. -/
def Writes (f : Enc → Enc) (ps : List ModulePiece) (C : Prop) : Prop :=
  ∀ e, ∃ xs, f e = ⟨e.buf ++ written ps, e.anns ++ xs.map Ann.of⟩ ∧
    xs.length = (places e.buf.length ps).length ∧
    Within e.buf.length (e.buf.length + (written ps).length) xs ∧
    (xs = places e.buf.length ps ↔ C)

variable {f g : Enc → Enc} {ps qs : List ModulePiece} {C D : Prop}

theorem Writes.nothing : Writes (fun e => e) [] True := by
  intro e
  refine ⟨[], ?_, rfl, .nil, iff_of_true rfl trivial⟩
  rw [written, List.flatMap_nil, List.append_nil, List.map_nil, List.append_nil]

theorem Writes.then_ (h : Writes f ps C) (h' : Writes g qs D) : Writes (fun e => g (f e)) (ps ++ qs) (C ∧ D) := by
  intro e
  obtain ⟨xs, hf, hlength, hwithin, hiff⟩ := h e
  obtain ⟨ys, hg, hlength', hwithin', hiff'⟩ := h' (f e)
  have hbuf : (f e).buf.length = e.buf.length + (written ps).length := by rw [hf, List.length_append]
  rw [hbuf] at hlength' hwithin' hiff'
  refine ⟨xs ++ ys, ?_, ?_, ?_, ?_⟩
  · show g (f e) = _
    rw [hg, hf, written_append, List.map_append, ← List.append_assoc, ← List.append_assoc]
  · rw [List.length_append, places_append, List.length_append, hlength, hlength']
  · rw [written_append, List.length_append, ← Nat.add_assoc]
    exact hwithin.append hwithin' (Nat.le_add_right _ _) (Nat.le_add_right _ _)
  · rw [places_append, ← hiff, ← hiff']
    constructor
    · exact fun heq => List.append_inj heq hlength
    · rintro ⟨rfl, rfl⟩
      rfl

theorem Writes.congr (h : Writes f ps C) (hiff : C ↔ D) : Writes f ps D := by
  rwa [← propext hiff]

theorem writes_of_eq (hne : ∀ p ∈ ps, p.note.isSome = true → p.content ≠ [])
    (h : ∀ e, f e = ⟨e.buf ++ written ps, e.anns ++ (places e.buf.length ps).map Ann.of⟩) : Writes f ps True :=
  fun e => ⟨_, h e, rfl, within_places hne, iff_of_true rfl trivial⟩

/-! ## Lengths -/

theorem uleb_ne_nil (n : Nat) : uleb n ≠ [] :=
  List.ne_nil_of_length_pos (length_unsigned_pos (by decide) n)

theorem length_uleb_eq_one {n : Nat} : (uleb n).length = 1 ↔ n < 128 := by
  constructor
  · exact fun h => lt_of_length_unsigned (n := 10) (k := 1) (Nat.le_of_eq h) (by decide)
  · exact fun h => Nat.le_antisymm (length_unsigned (k := 1) h Nat.one_pos) (length_unsigned_pos (by decide) n)

theorem length_size (f : Func) :
    (uleb ((encodeFunc f).length - (uleb (encodeFunc f).length).length)).length = (uleb f.inner.length).length := by
  unfold encodeFunc
  rw [List.length_append]
  exact length_unsigned_total 10 f.inner.length

/-! ## The loops over items -/

def Annotates {α : Type} (annotate : Nat → Nat → List (α × Bytes) → Enc → Enc) (encode : α → Bytes)
    (item : Nat → α → List ModulePiece) : Prop :=
  ∀ (xs : List α) i pos e, annotate i pos (xs.zip (xs.map encode)) e =
    { e with anns := e.anns ++ (places pos ((xs.zipIdx i).flatMap fun (x, i) => item i x)).map Ann.of }

variable {α : Type}

theorem annotates_items (field value : Nat → α → String) (encode : α → Bytes) :
    Annotates (annotateItems field value) encode fun i x => [noted (encode x) (field i x) (value i x)] := by
  intro xs i pos e
  induction xs generalizing i pos e with
  | nil => exact congrArg (Enc.mk e.buf) (List.append_nil _).symm
  | cons x xs ih =>
    rw [List.map_cons, List.zip_cons_cons, annotateItems, ih, List.zipIdx_cons, List.flatMap_cons,
      List.singleton_append, places]
    unfold Enc.annotate noted
    rw [List.append_assoc]
    rfl

theorem annotates_funcs (base : UInt32) : Annotates (annotateFuncs base) encodeFunc (funcPieces base) := by
  intro xs i pos e
  induction xs generalizing i pos e with
  | nil => exact congrArg (Enc.mk e.buf) (List.append_nil _).symm
  | cons f xs ih =>
    have hlength : (encodeFunc f).length = (uleb f.inner.length).length + f.inner.length := List.length_append
    rw [List.map_cons, List.zip_cons_cons, annotateFuncs, ih, length_size, hlength, Nat.add_sub_cancel_left,
      List.zipIdx_cons, List.flatMap_cons, places_append]
    unfold Enc.annotate funcPieces noted
    simp only [places, written, List.flatMap_cons, List.flatMap_nil, List.append_nil, List.length_append,
      List.map_append, List.append_assoc]
    rfl

/-! ## Sections -/

theorem section_eq (e : Enc) (id : UInt8) (body : Bytes) :
    e.section_ id body = ⟨e.buf ++ ([id] ++ (uleb body.length ++ body)),
      e.anns ++ [⟨e.buf.length, 1, s!"section[{id}].id", sectionName id⟩,
        ⟨e.buf.length + 1, (uleb body.length).length, s!"section[{id}].size", s!"{body.length} bytes"⟩]⟩ := by
  unfold Enc.section_ Enc.raw Enc.put
  simp only [List.append_assoc, List.length_append, List.length_cons, List.length_nil, List.cons_append,
    List.nil_append]

theorem written_single (content : Bytes) (field value : String) : written [noted content field value] = content :=
  List.append_nil content

theorem written_section (id : UInt8) (content : List ModulePiece) :
    written (sectionPieces id content) = [id] ++ (uleb (written content).length ++ written content) := rfl

theorem places_section (n : Nat) (id : UInt8) (content : List ModulePiece) :
    (places n (sectionPieces id content)).map Ann.of =
      [⟨n, 1, s!"section[{id}].id", sectionName id⟩,
        ⟨n + 1, (uleb (written content).length).length, s!"section[{id}].size",
          s!"{(written content).length} bytes"⟩] ++
      (places (n + 1 + (uleb (written content).length).length) content).map Ann.of := rfl

theorem noted_section {id : UInt8} {content : List ModulePiece}
    (h : ∀ p ∈ content, p.note.isSome = true → p.content ≠ []) :
    ∀ p ∈ sectionPieces id content, p.note.isSome = true → p.content ≠ [] := by
  intro p hp
  rcases List.mem_cons.mp hp with rfl | hp
  · exact fun _ => List.cons_ne_nil _ _
  rcases List.mem_cons.mp hp with rfl | hp
  · exact fun _ => uleb_ne_nil _
  · exact h p hp

variable {encode : α → Bytes}

theorem written_items {item : Nat → α → List ModulePiece}
    (hitem : ∀ i x, written (item i x) = encode x) (xs : List α) (k : Nat) :
    written ((xs.zipIdx k).flatMap fun (x, i) => item i x) = (xs.map encode).flatten := by
  induction xs generalizing k with
  | nil => rfl
  | cons x xs ih =>
    rw [List.zipIdx_cons, List.flatMap_cons, written_append, hitem, ih, List.map_cons, List.flatten_cons]

theorem writes_vector {item : Nat → α → List ModulePiece}
    {annotate : Nat → Nat → List (α × Bytes) → Enc → Enc} (id : UInt8) (xs : List α)
    (h : Annotates annotate encode item) (hitem : ∀ i x, written (item i x) = encode x)
    (hne : ∀ i x, ∀ p ∈ item i x, p.content ≠ []) :
    Writes (vectorSection id xs encode annotate) (vectorPieces id xs item) True := by
  unfold vectorSection vectorPieces
  split
  · exact .nothing
  refine writes_of_eq (noted_section fun p hp hnote => ?_) fun e => ?_
  · rcases List.mem_cons.mp hp with rfl | hp
    · cases hnote
    · obtain ⟨⟨x, i⟩, -, hp⟩ := List.mem_flatMap.mp hp
      exact hne i x p hp
  · have hbody : vector (xs.map encode) =
        written (⟨uleb xs.length, none⟩ :: xs.zipIdx.flatMap fun (x, i) => item i x : List ModulePiece) := by
      unfold vector
      rw [List.length_map, ← written_items hitem xs 0]
      rfl
    rw [h, hbody, section_eq, written_section, places_section, List.length_map,
      ← List.append_assoc e.anns]
    rfl

theorem writes_items (id : UInt8) (xs : List α) (field value : Nat → α → String) (hne : ∀ x, encode x ≠ []) :
    Writes (itemsSection id xs encode field value)
      (vectorPieces id xs fun i x => [noted (encode x) (field i x) (value i x)]) True :=
  writes_vector id xs (annotates_items field value encode) (fun _ _ => List.append_nil _) fun _ x _ hp =>
    List.mem_singleton.mp hp ▸ hne x

theorem writes_number (id : UInt8) (n : Nat) (field value : String) :
    Writes (numberSection id n field value) (sectionPieces id [noted (uleb n) field value]) True := by
  refine writes_of_eq (noted_section fun p hp _ => ?_) fun e => ?_
  · obtain rfl := List.mem_singleton.mp hp
    exact uleb_ne_nil n
  · unfold numberSection
    dsimp only
    rw [section_eq, written_section, places_section, written_single]
    unfold Enc.annotate
    rw [List.append_assoc]
    rfl

/-! ## Custom sections -/

theorem Custom.body_ne_nil (c : Custom) : c.body ≠ [] := by
  unfold Custom.body wasmName
  simp [uleb_ne_nil]

theorem customPieces_eq (c : Custom) : customPieces c =
    [noted [0] s!"section[{(0 : UInt8)}].id" (sectionName 0),
      noted (uleb c.body.length) s!"section[{(0 : UInt8)}].size" s!"{c.body.length} bytes",
      noted c.body s!"custom[{c.name}]" s!"name '{c.name}', {c.payload.length} payload bytes"] := by
  unfold customPieces sectionPieces
  rw [written_single]

def customPlaces (n : Nat) (c : Custom) : List (Place (String × String)) :=
  [⟨n, 1, s!"section[{(0 : UInt8)}].id", sectionName 0⟩,
    ⟨n + 1, (uleb c.body.length).length, s!"section[{(0 : UInt8)}].size", s!"{c.body.length} bytes"⟩,
    ⟨n + 2, c.body.length, s!"custom[{c.name}]", s!"name '{c.name}', {c.payload.length} payload bytes"⟩]

theorem customPlaces_iff (n : Nat) (c : Custom) :
    customPlaces n c = places n (customPieces c) ↔ c.body.length < 128 := by
  rw [← length_uleb_eq_one, customPieces_eq]
  unfold customPlaces
  simp only [places, noted, Option.toList_some, List.map_cons, List.map_nil, List.cons_append, List.nil_append,
    List.cons.injEq, Place.mk.injEq, List.length_cons, List.length_nil, true_and, and_true]
  omega

theorem within_customPlaces (n : Nat) (c : Custom) :
    Within n (n + (written (customPieces c)).length) (customPlaces n c) := by
  have hsize : 0 < (uleb c.body.length).length := length_unsigned_pos (by decide) _
  have hbody : 0 < c.body.length := List.length_pos_of_ne_nil c.body_ne_nil
  have hwritten : (written (customPieces c)).length = 1 + (uleb c.body.length).length + c.body.length := by
    unfold customPieces
    rw [written_section, written_single, List.length_append, List.length_append, Nat.add_assoc]
    rfl
  rw [hwritten]
  constructor <;> simp only [customPlaces, List.forall_mem_cons, List.pairwise_cons, List.not_mem_nil,
    false_implies, implies_true, List.Pairwise.nil, and_true] <;> omega

/-- **A custom section** is annotated as it should be when its size takes one byte. -/
theorem writes_custom (c : Custom) : Writes (fun e => customSection e c) (customPieces c) (c.body.length < 128) := by
  intro e
  refine ⟨customPlaces e.buf.length c, ?_, ?_, within_customPlaces _ c, customPlaces_iff _ c⟩
  · unfold customSection
    dsimp only
    rw [section_eq, customPieces]
    unfold Enc.annotate
    rw [written_section, written_single, List.append_assoc]
    rfl
  · rw [customPieces_eq]
    rfl

theorem writes_customs (cs : List Custom) :
    Writes (fun e => cs.foldl customSection e) (cs.flatMap customPieces) (∀ c ∈ cs, c.body.length < 128) := by
  induction cs with
  | nil => exact Writes.nothing.congr (by simp)
  | cons c cs ih => exact ((writes_custom c).then_ ih).congr (List.forall_mem_cons (p := fun c : Custom => c.body.length < 128)).symm

/-! ## Modules -/

namespace ModuleBuilder

variable (b : ModuleBuilder)

def SmallCustoms (id : Option UInt8) : Prop := ∀ c ∈ b.customs, c.after = id → c.body.length < 128

theorem writes_after (id : Option UInt8) : Writes (b.customsAfter id) (b.customsPieces id) (b.SmallCustoms id) := by
  refine (writes_customs _).congr ?_
  unfold SmallCustoms
  simp only [List.mem_filter, decide_eq_true_eq, and_imp]

theorem writes_then_customs {section_ : Enc → Enc} (id : UInt8) (h : Writes section_ ps True) :
    Writes (fun e => b.customsAfter (some id) (section_ e)) (ps ++ b.customsPieces (some id))
      (b.SmallCustoms (some id)) :=
  (h.then_ (b.writes_after (some id))).congr (iff_of_eq (true_and _))

theorem encode_ne_nil : (∀ t : FuncType, t.encode ≠ []) ∧ (∀ i, encodeImport i ≠ []) ∧
    (∀ t : TableType, t.encode ≠ []) ∧ (∀ l : Limits, l.encode ≠ []) ∧ (∀ g : Global, g.encode ≠ []) ∧
    (∀ x : Export, x.encode ≠ []) ∧ (∀ e, encodeElem e ≠ []) ∧ ∀ d, encodeData d ≠ [] := by
  refine ⟨?_, ?_, ?_, ?_, ?_, ?_, ?_, ?_⟩
  · exact fun t => List.cons_ne_nil _ _
  · exact fun i => by simp [encodeImport, wasmName, uleb_ne_nil]
  · exact fun t => List.cons_ne_nil _ _
  · intro l
    unfold Limits.encode
    split <;> exact List.cons_ne_nil _ _
  · exact fun g => List.cons_ne_nil _ _
  · exact fun x => by simp [Export.encode]
  · intro e
    unfold encodeElem
    split <;> (try split) <;> exact List.cons_ne_nil _ _
  · exact fun d => by simp [encodeData, uleb_ne_nil]

theorem writes_start : Writes b.startSection (match b.start with
    | none => []
    | some s => sectionPieces 8
        [noted (uleb s.toNat) "start.func" s!"function {s} runs before any export is callable"]) True := by
  unfold startSection
  cases b.start with
  | none => exact .nothing
  | some s => exact writes_number _ _ _ _

theorem writes_dataCount : Writes b.dataCountSection (if b.needsDataCount then
      sectionPieces 12 [noted (uleb b.data.length) "data_count.count"
        s!"{b.data.length} data segments, declared before the code section"]
      else []) True := by
  unfold dataCountSection
  split
  · exact writes_number _ _ _ _
  · exact .nothing

theorem writes_code : Writes b.codeSection (vectorPieces 10 b.code (funcPieces b.importedFuncs)) True := by
  refine writes_vector 10 b.code (annotates_funcs _) (fun i f => ?_) fun i f p hp => ?_
  · unfold funcPieces encodeFunc
    simp [written, noted]
  · unfold funcPieces at hp
    rcases List.mem_cons.mp hp with rfl | hp
    · exact uleb_ne_nil _
    · obtain rfl := List.mem_singleton.mp hp
      show Func.inner f ≠ []
      unfold Func.inner
      simp [uleb_ne_nil]

theorem writes_sections : ∃ f, b.build = (f Enc.withHeader).finish b.label ∧
    Writes f (b.customsPieces none ++ b.sections.flatMap fun (id, ps) => ps ++ b.customsPieces (some id))
      (∀ id ∈ customSlots, b.SmallCustoms id) := by
  obtain ⟨htype, himport, htable, hmemory, hglobal, hexport, helem, hdata⟩ := encode_ne_nil
  have htype : Writes b.typeSection _ True := writes_items 1 b.types _ _ htype
  have himport : Writes b.importSection _ True := writes_items 2 b.imports _ _ himport
  have hfunction : Writes b.functionSection _ True := writes_items 3 b.funcs _ _ fun t => uleb_ne_nil t.toNat
  have htable : Writes b.tableSection _ True := writes_items 4 b.tables _ _ htable
  have hmemory : Writes b.memorySection _ True := writes_items 5 b.memories _ _ hmemory
  have hglobal : Writes b.globalSection _ True := writes_items 6 b.globals _ _ hglobal
  have hexport : Writes b.exportSection _ True := writes_items 7 b.exports _ _ hexport
  have helement : Writes b.elementSection _ True := writes_items 9 b.elems _ _ helem
  have hdata : Writes b.dataSection _ True := writes_items 11 b.data _ _ hdata
  have hall := (b.writes_after none).then_ <|
    (b.writes_then_customs 1 htype).then_ <| (b.writes_then_customs 2 himport).then_ <|
    (b.writes_then_customs 3 hfunction).then_ <| (b.writes_then_customs 4 htable).then_ <|
    (b.writes_then_customs 5 hmemory).then_ <| (b.writes_then_customs 6 hglobal).then_ <|
    (b.writes_then_customs 7 hexport).then_ <| (b.writes_then_customs 8 b.writes_start).then_ <|
    (b.writes_then_customs 9 helement).then_ <| (b.writes_then_customs 12 b.writes_dataCount).then_ <|
    (b.writes_then_customs 10 b.writes_code).then_ <| (b.writes_then_customs 11 hdata).then_ .nothing
  refine ⟨_, ?_, hall.congr ?_⟩
  · rfl
  · simp only [customSlots, List.forall_mem_cons, List.not_mem_nil, false_implies, implies_true]

theorem build_writes : ∃ xs, b.build = ⟨written b.pieces, xs.map Ann.of, b.label⟩ ∧
    Within 0 (written b.pieces).length xs ∧ (xs = places 0 b.pieces ↔ ∀ id ∈ customSlots, b.SmallCustoms id) := by
  obtain ⟨f, hbuild, hwrites⟩ := b.writes_sections
  obtain ⟨xs, hf, -, hwithin, hiff⟩ := hwrites Enc.withHeader
  have hheader : Within 0 (0 + (written headerPieces).length) (places 0 headerPieces) := by
    refine within_places fun p hp _ => ?_
    rcases List.mem_cons.mp hp with rfl | hp
    · exact List.cons_ne_nil _ _
    · obtain rfl := List.mem_singleton.mp hp
      exact List.cons_ne_nil _ _
  have hpieces : written b.pieces = Enc.withHeader.buf ++ written
      (b.customsPieces none ++ b.sections.flatMap fun (id, ps) => ps ++ b.customsPieces (some id)) := by
    unfold pieces
    rw [List.append_assoc, written_append]
    rfl
  refine ⟨places 0 headerPieces ++ xs, ?_, ?_, ?_⟩
  · rw [hbuild, hf, hpieces, List.map_append]
    rfl
  · rw [hpieces, List.length_append]
    exact hheader.append hwithin (Nat.zero_le _) (Nat.le_add_right _ _)
  · rw [← hiff]
    unfold pieces
    rw [List.append_assoc, places_append, List.append_right_inj, Nat.zero_add]
    rfl

/-- **Annotations lie inside their module and ascend**, whatever the builder holds. -/
theorem build_within : (∀ a ∈ b.build.anns, a.offset + a.length ≤ b.build.bytes.length) ∧
    b.build.anns.Pairwise fun a a' => a.offset < a'.offset := by
  obtain ⟨xs, hbuild, hwithin, -⟩ := b.build_writes
  rw [hbuild]
  constructor
  · intro a ha
    obtain ⟨x, hx, rfl⟩ := List.mem_map.mp ha
    exact hwithin.upTo x hx
  · exact List.pairwise_map.mpr hwithin.ascending

end ModuleBuilder

theorem Ann.of_injective : Function.Injective Ann.of := by
  rintro ⟨offset, length, field, value⟩ ⟨offset', length', field', value'⟩ h
  cases h
  rfl

/-- **Annotations describe the bytes they point at** exactly when every custom section that is written is of
less than 128 bytes. -/
theorem annotations_describe (b : ModuleBuilder) :
    Described b b.build ↔ ∀ c ∈ b.customs, c.after ∈ customSlots → c.body.length < 128 := by
  obtain ⟨xs, hbuild, -, hiff⟩ := b.build_writes
  have hslots : (∀ id ∈ customSlots, b.SmallCustoms id) ↔ ∀ c ∈ b.customs, c.after ∈ customSlots → c.body.length < 128 :=
    ⟨fun h c hc hafter => h c.after hafter c hc rfl, fun h id hid c hc hafter => h c hc (hafter ▸ hid)⟩
  rw [← hslots, ← hiff]
  constructor
  · intro h
    have hcovers := h.covers
    rw [hbuild] at hcovers
    exact List.map_injective_iff.mpr Ann.of_injective hcovers
  · intro hxs
    obtain ⟨hinside, hascending⟩ := b.build_within
    refine ⟨hinside, hascending, ?_, ?_⟩
    · rw [hbuild]
    · rw [hbuild, hxs]

/-- A custom section of 128 bytes: its annotation starts at the second byte of its size. -/
def largeCustom : ModuleBuilder := (ModuleBuilder.new "large").custom "n" (List.replicate 126 0) none

theorem large_custom_undescribed : ¬ Described largeCustom largeCustom.build := by
  intro h
  have hcovers := h.covers
  revert hcovers
  decide +kernel

end BuildYourOwn.Wasm
