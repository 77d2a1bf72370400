import Mathlib.Data.List.TakeWhile
import BuildYourOwn.Link.Checked

/-!
# The ELF64 reader never panics

Each part of the reader with its panics follows the part without, on files whose length is a `usize`.

* `entry_at` leaves room for every field of the row it points at (`entryAt_room`); that is what the sums rest on.
* The file that is carried along is the one that was given (`bytes_of_parseSections` and the others).
-/

namespace BuildYourOwn.Link

open Lib Lib.Action

variable {b : Bytes} {i start k n : Nat}

/-! ## Bounded reads -/

namespace Checked

theorem u16le_follows (hi : i + 2 < usizes) : Follows (u16le b i) (Link.u16le b i) := by
  unfold u16le Link.u16le leAt
  rw [checkedAdd, if_pos hi, Option.getD_some]
  refine follows_require (fun hle => ?_) fun hgt => ?_
  · have hle := Nat.not_lt.mp hle
    rw [if_neg (Nat.not_lt.mpr hle)]
    refine follows_next (follows_index (by omega)) (follows_next (follows_addUsize (by omega))
      (follows_next (follows_index (by omega)) ?_))
    have htake : (b.drop i).take 2 = [b[i], b[i + 1]] := by
      rw [List.drop_eq_getElem_cons (by omega), List.drop_eq_getElem_cons (by omega)]
      rfl
    rw [htake]
    exact follows_pure _
  · rw [if_pos (not_not.mp hgt)]
    rfl

theorem leArray_follows (hi : i + n < usizes) : Follows (leArray n b i)
    (if i + n > b.length then .error (wanted n b i) else .ok ((b.drop i).take n)) := by
  unfold leArray
  rw [checkedAdd, if_pos hi, Option.getD_some]
  refine follows_require (fun hle => ?_) fun hgt => if_pos (not_not.mp hgt)
  have hle := Nat.not_lt.mp hle
  rw [if_neg (Nat.not_lt.mpr hle)]
  refine follows_next (follows_range (Nat.le_add_right i n) hle) ?_
  rw [Nat.add_sub_cancel_left]
  exact follows_copyInto (by rw [List.length_take, List.length_drop]; omega)

theorem u32le_follows (hi : i + 4 < usizes) : Follows (u32le b i) (Link.u32le b i) := by
  have h := follows_bind (leArray_follows (b := b) hi) fun v _ => follows_pure (UInt32.ofNat (ofLittleEndian v))
  unfold u32le Link.u32le leAt
  by_cases hlong : i + 4 > b.length
  · rw [if_pos hlong] at h ⊢
    exact h
  · rw [if_neg hlong] at h ⊢
    exact h

theorem u64le_follows (hi : i + 8 < usizes) : Follows (u64le b i) (Link.u64le b i) := by
  have h := follows_bind (leArray_follows (b := b) hi) fun v _ => follows_pure (UInt64.ofNat (ofLittleEndian v))
  unfold u64le Link.u64le leAt
  by_cases hlong : i + 8 > b.length
  · rw [if_pos hlong] at h ⊢
    exact h
  · rw [if_neg hlong] at h ⊢
    exact h

theorem u32leOff_follows (hi : start + k + 4 < usizes) : Follows (u32leOff b start k) (Link.u32le b (start + k)) :=
  follows_next (follows_addUsize (by omega)) (u32le_follows hi)

theorem u64leOff_follows (hi : start + k + 8 < usizes) : Follows (u64leOff b start k) (Link.u64le b (start + k)) :=
  follows_next (follows_addUsize (by omega)) (u64le_follows hi)

theorem cstr_follows (hb : b.length < usizes) : Follows (cstr b i) (.ok (Link.cstr b i)) := by
  unfold cstr Link.cstr
  by_cases hi : b.length ≤ i
  · rw [if_pos hi, if_pos hi]
    exact follows_pure _
  rw [if_neg hi, if_neg hi]
  refine follows_next (follows_range (by omega) le_rfl) ?_
  rw [List.take_of_length_le (by rw [List.length_drop])]
  have hname : (b.drop i).takeWhile (fun b => b != 0) = (b.drop i).take ((b.drop i).findIdx fun b => b == 0) := by
    rw [List.takeWhile_eq_take_findIdx_not]
    simp only [bne, Bool.not_not]
  rw [hname]
  cases hzero : (b.drop i).findIdx? fun b => b == 0 with
  | some n =>
    obtain ⟨hlt, hn⟩ := List.findIdx?_eq_some_iff_findIdx_eq.mp hzero
    rw [List.length_drop] at hlt
    refine follows_next (follows_addUsize (by omega)) (follows_next (follows_range (by omega) (by omega)) ?_)
    rw [Nat.add_sub_cancel_left, hn]
    exact follows_pure _
  | none =>
    rw [List.findIdx?_eq_none_iff_findIdx_eq.mp hzero, List.length_drop]
    exact follows_next (follows_pure _) (follows_next (follows_range (by omega) le_rfl) (follows_pure _))

theorem chunksOf_follows (hn : 0 < n) : Follows (chunksOf n b) (.ok (chunks n b)) := by
  rw [chunksOf, if_pos hn]
  exact follows_pure _

/-! ## The rows -/

end Checked

theorem entryAt_room {base entrySize len : Nat} {what : String} (h : entryAt base i entrySize len what = .ok start) :
    start + entrySize ≤ len := by
  unfold entryAt at h
  split at h
  · rename_i hfits
    cases h
    exact hfits.2.2.2
  · exact nomatch h

namespace Checked

theorem readSegment_follows (hb : b.length < usizes) {base entrySize : Nat} (hsize : phdrSize ≤ entrySize) :
    Follows (readSegment b base entrySize i) (Elf.readSegment b base entrySize i) := by
  refine follows_bind (follows_lift _) fun start hstart => ?_
  have hroom := entryAt_room hstart
  have hfits : start + phdrSize < usizes := by omega
  unfold phdrSize at hfits
  refine follows_bind (u32le_follows (by omega)) fun _ _ => ?_
  refine follows_bind (u32leOff_follows (by omega)) fun _ _ => ?_
  iterate 6 refine follows_bind (u64leOff_follows (by omega)) fun _ _ => ?_
  exact follows_pure _

theorem readSection_follows (hb : b.length < usizes) {base entrySize : Nat} (hsize : shdrSize ≤ entrySize) :
    Follows (readSection b base entrySize i) (Elf.readSection b base entrySize i) := by
  refine follows_bind (follows_lift _) fun start hstart => ?_
  have hroom := entryAt_room hstart
  have hfits : start + shdrSize < usizes := by omega
  unfold shdrSize at hfits
  refine follows_bind (u32le_follows (by omega)) fun _ _ => ?_
  refine follows_bind (u32leOff_follows (by omega)) fun _ _ => ?_
  iterate 4 refine follows_bind (u64leOff_follows (by omega)) fun _ _ => ?_
  iterate 2 refine follows_bind (u32leOff_follows (by omega)) fun _ _ => ?_
  iterate 2 refine follows_bind (u64leOff_follows (by omega)) fun _ _ => ?_
  exact follows_pure _

theorem getD_of_lt (h : i < b.length) : b.getD i 0 = b[i] := by
  rw [List.getD_eq_getElem?_getD, List.getElem?_eq_getElem h, Option.getD_some]

theorem parseHeader_follows : Follows (parseHeader b) (Elf.parseHeader b) := by
  unfold parseHeader Elf.parseHeader
  refine follows_require (fun hlong => ?_) fun hshort => ?_
  · have hlen : 64 ≤ b.length := Nat.not_lt.mp hlong
    rw [if_neg hlong]
    refine follows_next (follows_range (Nat.zero_le _) (by omega)) ?_
    refine follows_require (fun hmagic : b.take 4 = elfMagic.val => ?_) fun hmagic : b.take 4 ≠ elfMagic.val => ?_
    · rw [if_neg (not_not_intro hmagic)]
      rw [getD_of_lt (show 4 < b.length by omega), getD_of_lt (show 5 < b.length by omega)]
      refine follows_next (follows_index (by omega)) (follows_require (fun hclass => ?_) fun hclass => ?_)
      · rw [if_neg (not_not_intro hclass)]
        refine follows_next (follows_index (by omega)) (follows_require (fun hdata => ?_) fun hdata => ?_)
        · rw [if_neg (not_not_intro hdata)]
          refine follows_next (follows_range (Nat.zero_le _) (by unfold eiNident; omega)) (follows_next
            (follows_copyInto (by rw [List.length_take, List.length_drop]; unfold eiNident; omega)) ?_)
          iterate 2 refine follows_bind (u16le_follows (by decide)) fun _ _ => ?_
          refine follows_bind (u32le_follows (by decide)) fun _ _ => ?_
          iterate 3 refine follows_bind (u64le_follows (by decide)) fun _ _ => ?_
          refine follows_bind (u32le_follows (by decide)) fun _ _ => ?_
          iterate 6 refine follows_bind (u16le_follows (by decide)) fun _ _ => ?_
          exact follows_pure _
        · rw [if_pos hdata]
          rfl
      · rw [if_pos hclass]
        rfl
    · rw [if_pos hmagic]
      rfl
  · rw [if_pos (not_not.mp hshort)]
    rfl

theorem readSymbol_follows {strings : Bytes} (hstrings : strings.length < usizes) (hb : symSize ≤ b.length) :
    Follows (readSymbol strings i b) (Elf.readSymbol strings i b) := by
  unfold symSize at hb
  unfold readSymbol Elf.readSymbol
  refine follows_bind (u32le_follows (by decide)) fun nameOff _ => ?_
  rw [getD_of_lt (show 4 < b.length by omega), getD_of_lt (show 5 < b.length by omega)]
  refine follows_next (follows_index (by omega)) (follows_next (cstr_follows hstrings)
    (follows_next (follows_index (by omega)) ?_))
  refine follows_bind (u16le_follows (by decide)) fun _ _ => ?_
  iterate 2 refine follows_bind (u64le_follows (by decide)) fun _ _ => ?_
  exact follows_pure _

theorem readRelocation_follows (s : Section) : Follows (readRelocation s b) (Elf.readRelocation s b) := by
  unfold readRelocation Elf.readRelocation
  refine follows_bind (u64le_follows (by decide)) fun info _ => follows_bind (u64le_follows (by decide)) fun _ _ => ?_
  by_cases hrela : s.shType = shtRela
  · rw [if_pos hrela, if_pos hrela]
    exact follows_bind (u64le_follows (by decide)) fun _ _ => follows_pure _
  · rw [if_neg hrela, if_neg hrela]
    exact follows_bind (follows_pure _) fun _ _ => follows_pure _

/-! ## The tables -/

variable {e e' : Elf}

theorem parseSegments_follows (he : e.bytes.length < usizes) : Follows (parseSegments e) (Elf.parseSegments e) := by
  unfold parseSegments Elf.parseSegments
  by_cases hnone : e.phnum = 0
  · rw [if_pos hnone, if_pos hnone]
    exact follows_pure e
  rw [if_neg hnone, if_neg hnone]
  refine follows_require (fun hsize => ?_) fun hsize => ?_
  · rw [if_neg hsize]
    exact follows_bind (follows_each fun i _ => readSegment_follows he (Nat.not_lt.mp hsize)) fun _ _ => follows_pure _
  · rw [if_pos (not_not.mp hsize)]
    rfl

theorem length_slice (e : Elf) (offset size : UInt64) {b : Bytes} (h : e.slice offset size = .ok b) :
    b.length = size.toNat ∧ b.length ≤ e.bytes.length := by
  unfold Elf.slice at h
  dsimp only at h
  split at h
  · exact nomatch h
  · split at h
    · rename_i hle
      cases h
      rw [List.length_take, List.length_drop]
      omega
    · exact nomatch h

theorem length_bytesAt (e : Elf) (sections : List Section) (i : Nat) :
    (e.bytesAt sections i).length ≤ e.bytes.length := by
  unfold Elf.bytesAt
  cases sections[i]? with
  | none => exact Nat.zero_le _
  | some s =>
    dsimp only
    cases hslice : e.slice s.offset s.size with
    | error _ => exact Nat.zero_le _
    | ok b => exact (length_slice e _ _ hslice).2

theorem parseSections_follows (he : e.bytes.length < usizes) : Follows (parseSections e) (Elf.parseSections e) := by
  unfold parseSections Elf.parseSections
  by_cases hnone : e.shnum = 0 ∨ e.shoff = 0
  · rw [if_pos hnone, if_pos hnone]
    exact follows_pure e
  rw [if_neg hnone, if_neg hnone]
  refine follows_require (fun hsize => ?_) fun hsize => ?_
  · rw [if_neg hsize]
    refine follows_bind (follows_each fun i _ => readSection_follows he (Nat.not_lt.mp hsize)) fun raw _ => ?_
    have hnames := (length_bytesAt e (raw.map Prod.snd) e.shstrndx.toNat).trans_lt he
    refine follows_next (follows_each_map fun r _ => ?_) (follows_pure _)
    exact follows_next (cstr_follows hnames) (follows_pure _)
  · rw [if_pos (not_not.mp hsize)]
    rfl

theorem parseSymbols_follows (he : e.bytes.length < usizes) : Follows (parseSymbols e) (Elf.parseSymbols e) := by
  unfold parseSymbols Elf.parseSymbols
  cases e.sections.find? fun s => s.shType == shtSymtab with
  | none => exact follows_pure e
  | some symtab =>
    have hstrings := (length_bytesAt e e.sections symtab.link.toNat).trans_lt he
    refine follows_bind (follows_lift _) fun data _ => follows_require (fun hstep => ?_) fun hstep => ?_
    · rw [if_neg hstep]
      refine follows_next (chunksOf_follows (Nat.lt_of_lt_of_le (by decide) (Nat.not_lt.mp hstep))) ?_
      refine follows_bind (follows_each fun r hr => ?_) fun _ _ => follows_pure _
      have hchunk := List.mem_takeWhile_imp (List.fst_mem_of_mem_zipIdx hr)
      exact readSymbol_follows hstrings (of_decide_eq_true hchunk)
    · rw [if_pos (not_not.mp hstep)]
      rfl

theorem relocationsOf_follows (e : Elf) (s : Section) : Follows (relocationsOf e s) (Elf.relocationsOf e s) := by
  have hstep : 0 < if s.shType = shtRela then relaSize else relSize := by
    split <;> decide
  refine follows_bind (follows_lift _) fun data _ => follows_next (chunksOf_follows hstep) ?_
  exact follows_each fun chunk _ => readRelocation_follows s

theorem parseRelocations_follows (e : Elf) : Follows (parseRelocations e) (Elf.parseRelocations e) :=
  follows_bind (follows_each fun s _ => relocationsOf_follows e s) fun _ _ => follows_pure _

end Checked

namespace Elf

/-! ## The file is kept -/

variable {e e' : Elf}

theorem bytes_of_parseHeader {e : Elf} (h : parseHeader b = .ok e) : e.bytes = b := by
  unfold parseHeader at h
  by_cases hshort : b.length < ehdrSize
  · rw [if_pos hshort] at h
    exact nomatch h
  by_cases hmagic : b.take 4 ≠ elfMagic.val
  · rw [if_neg hshort, if_pos hmagic] at h
    exact nomatch h
  by_cases hclass : b.getD 4 0 ≠ elfclass64
  · rw [if_neg hshort, if_neg hmagic, if_pos hclass] at h
    exact nomatch h
  by_cases hdata : b.getD 5 0 ≠ elfdata2lsb
  · rw [if_neg hshort, if_neg hmagic, if_neg hclass, if_pos hdata] at h
    exact nomatch h
  rw [if_neg hshort, if_neg hmagic, if_neg hclass, if_neg hdata] at h
  simp only [except_bind_ok] at h
  obtain ⟨_, -, _, -, _, -, _, -, _, -, _, -, _, -, _, -, _, -, _, -, _, -, _, -, _, -, he⟩ := h
  cases he
  rfl

theorem bytes_of_parseSegments (h : parseSegments e = .ok e') : e'.bytes = e.bytes := by
  unfold parseSegments at h
  by_cases hnone : e.phnum = 0
  · rw [if_pos hnone] at h
    cases h
    rfl
  by_cases hsize : e.phentsize.toNat < phdrSize
  · rw [if_neg hnone, if_pos hsize] at h
    exact nomatch h
  rw [if_neg hnone, if_neg hsize] at h
  obtain ⟨_, -, he⟩ := except_bind_ok.mp h
  cases he
  rfl

theorem bytes_of_parseSections (h : parseSections e = .ok e') : e'.bytes = e.bytes := by
  unfold parseSections at h
  by_cases hnone : e.shnum = 0 ∨ e.shoff = 0
  · rw [if_pos hnone] at h
    cases h
    rfl
  by_cases hsize : e.shentsize.toNat < shdrSize
  · rw [if_neg hnone, if_pos hsize] at h
    exact nomatch h
  rw [if_neg hnone, if_neg hsize] at h
  obtain ⟨_, -, he⟩ := except_bind_ok.mp h
  cases he
  rfl

end Elf

/-- **The reader never panics**, and is `Elf.parse`. -/
theorem Checked.parse_follows (hb : b.length < usizes) : Follows (Checked.parse b) (Elf.parse b) := by
  refine follows_bind parseHeader_follows fun e he => ?_
  have he := Elf.bytes_of_parseHeader he
  refine follows_bind (parseSegments_follows (by rw [he]; exact hb)) fun e₁ he₁ => ?_
  have he₁ := (Elf.bytes_of_parseSegments he₁).trans he
  refine follows_bind (parseSections_follows (by rw [he₁]; exact hb)) fun e₂ he₂ => ?_
  have he₂ := (Elf.bytes_of_parseSections he₂).trans he₁
  exact follows_bind (parseSymbols_follows (by rw [he₂]; exact hb)) fun e₃ _ => parseRelocations_follows e₃

/-! ## The address readers -/

/-- What comes back without a panic, and of this length if it is a value. -/
def Gets (x : Checked Bytes) (n : Nat) : Prop := ∃ r, Follows x r ∧ ∀ b, r = .ok b → b.length = n

namespace Checked

variable {e : Elf}

theorem gets_next {α : Type} {x : Checked α} {a : α} {f : α → Checked Bytes} (hx : Follows x (.ok a))
    (hf : Gets (f a) n) : Gets (x >>= f) n := by
  obtain ⟨r, hr, hlen⟩ := hf
  exact ⟨r, follows_next hx hr, hlen⟩

theorem gets_error {α : Type} {x : Checked α} {err : ElfError} (f : α → Checked Bytes) (hx : Follows x (.error err)) :
    Gets (x >>= f) n :=
  ⟨_, follows_bind (g := fun _ => .error err) hx fun _ h => (nomatch h), fun _ h => nomatch h⟩

theorem slice_gets (e : Elf) (offset size : UInt64) : Gets (slice e offset size) size.toNat :=
  ⟨_, follows_lift _, fun _ h => (length_slice e _ _ h).1⟩

theorem sectionData_gets (e : Elf) (name : String) : Gets (sectionData e name)
    ((e.sectionNamed name).elim 0 fun s => if s.isNobits then 0 else s.size.toNat) := by
  unfold sectionData
  cases e.sectionNamed name with
  | none => exact gets_error _ (follows_fail _)
  | some s =>
    refine gets_next (follows_pure s) ?_
    rw [Option.elim_some]
    by_cases hnobits : s.isNobits = true
    · rw [if_pos hnobits, if_pos hnobits]
      exact ⟨_, follows_pure [], fun b hb => by cases hb; rfl⟩
    · rw [if_neg hnobits, if_neg hnobits]
      exact slice_gets e _ _

theorem readAtVaddr_gets (e : Elf) (addr len : UInt64) : Gets (readAtVaddr e addr len) len.toNat := by
  unfold readAtVaddr
  cases hseg : e.segmentAt addr with
  | none => exact gets_error _ (follows_fail _)
  | some seg =>
    -- the segment that was found begins at the address or before it
    have hle : seg.vaddr.toNat ≤ addr.toNat := by
      have hcontains := List.find?_some hseg
      unfold Segment.contains at hcontains
      rw [Bool.and_eq_true, decide_eq_true_eq, UInt64.le_iff_toNat_le] at hcontains
      exact hcontains.1
    refine gets_next (follows_pure seg) (gets_next (follows_subUsize hle) ?_)
    dsimp only
    by_cases hfits : min (addr.toNat - seg.vaddr.toNat + len.toNat) (usizes - 1) > seg.filesz.toNat
    · rw [require, if_neg (not_not_intro hfits)]
      exact gets_error _ (follows_fail _)
    rw [require, if_pos hfits]
    refine gets_next (follows_pure ()) ?_
    cases checkedAdd seg.offset.toNat (addr.toNat - seg.vaddr.toNat) with
    | none => exact gets_error _ (follows_fail _)
    | some start => exact gets_next (follows_pure start) (slice_gets e _ _)

end Checked

/-- **The reader and the address readers are total**: on every byte string the reader gives a file or an error, and on
every file it gives, a reader gives an error or just the bytes that were asked for; a section without bytes in the file
gives none. -/
theorem reader_total (bytes : Slice) : ∃ r, Follows (Checked.parse bytes.val) r ∧ ∀ e, r = .ok e →
    (∀ addr len, Gets (Checked.readAtVaddr e addr len) len.toNat) ∧
    (∀ offset size, Gets (Checked.slice e offset size) size.toNat) ∧
    ∀ name, Gets (Checked.sectionData e name)
      ((e.sectionNamed name).elim 0 fun s => if s.isNobits then 0 else s.size.toNat) :=
  ⟨_, Checked.parse_follows (bytes.property.trans (by decide)), fun e _ =>
    ⟨Checked.readAtVaddr_gets e, Checked.slice_gets e, Checked.sectionData_gets e⟩⟩

def nobitsFile : Slice :=
  ⟨[0x7f, 0x45, 0x4c, 0x46, 2, 1, 1, 0] ++ List.replicate 32 0 ++ [64] ++ List.replicate 17 0 ++ [64, 0, 1, 0, 1, 0] ++
    List.replicate 4 0 ++ [8] ++ List.replicate 27 0 ++ [16] ++ List.replicate 31 0, by decide +kernel⟩

theorem nobitsFile_empty : ∃ e s, Follows (Checked.parse nobitsFile.val) (.ok e) ∧ e.sectionNamed "" = some s ∧
    s.size = 16 ∧ Follows (Checked.sectionData e "") (.ok []) := by
  have hparse := Checked.parse_follows (nobitsFile.property.trans (by decide))
  have hread : (Elf.parse nobitsFile.val).toOption.map
      (fun e => (e.sectionNamed "").map fun s => (s.size, s.isNobits)) = some (some (16, true)) := by decide +kernel
  cases hfile : Elf.parse nobitsFile.val with
  | error err =>
    rw [hfile] at hread
    exact nomatch hread
  | ok e =>
    rw [hfile] at hparse hread
    obtain ⟨s, hs, hsize⟩ := Option.map_eq_some_iff.mp (Option.some.inj hread)
    obtain ⟨hsize, hnobits⟩ := Prod.mk.inj hsize
    refine ⟨e, s, hparse, hs, hsize, ?_⟩
    unfold Checked.sectionData
    rw [hs]
    refine follows_next (follows_pure s) ?_
    rw [if_pos hnobits]
    exact follows_pure []

end BuildYourOwn.Link
