import BuildYourOwn.Link.ArchiveReadBack

/-!
# Archives round-trip

What is built between overrides is the magic, the index if there is one, the table of long names if there are any, and
the members (`build_eq`). The two passes of the builder agree: the sizes the layout predicts for the index and the table
are the sizes that are written (`length_image`), so a reader meets every member where the layout put it.

Headline: `build_parse`.
-/

namespace BuildYourOwn.Link.Archive

open Lib Lib.Action

/-! ## The members -/

def membersSize (members : List Member) : Nat :=
  (members.map fun m => memberHeaderSize + padEven m.data.length).sum

def laidOut (cursor : Nat) : List Member → List ParsedMember
  | [] => []
  | m :: members => ⟨m.name, cursor, m.data⟩ :: laidOut (cursor + (memberHeaderSize + padEven m.data.length)) members

def membersBytes (rs : List (Member × String)) : Bytes := rs.flatMap fun r => memberBytes r.2 r.1.data

section
variable {members : List Member} {stored : List String} {long bytes before : Bytes} {cursor n : Nat} {p : Parsing}

theorem laidOut_contents (cursor : Nat) (members : List Member) :
    (laidOut cursor members).map (fun m => (m.name, m.data)) = members.map fun m => (m.name, m.data) := by
  induction members generalizing cursor with
  | nil => rfl
  | cons m members ih => rw [laidOut, List.map_cons, ih, List.map_cons]

theorem laidOut_even (heven : cursor % 2 = 0) : ∀ m ∈ laidOut cursor members, m.headerOffset % 2 = 0 := by
  induction members generalizing cursor with
  | nil => exact fun _ h => nomatch h
  | cons m members ih =>
    refine List.forall_mem_cons.mpr ⟨heven, ih ?_⟩
    unfold memberHeaderSize padEven
    omega

theorem laidOut_offsets (hsize : cursor + membersSize members < 2 ^ 32) :
    (laidOut cursor members).map ParsedMember.headerOffset = (memberOffsets cursor members).map UInt32.toNat := by
  induction members generalizing cursor with
  | nil => rfl
  | cons m members ih =>
    unfold membersSize at hsize
    rw [List.map_cons, List.sum_cons] at hsize
    have hcursor : (UInt32.ofNat cursor).toNat = cursor :=
      UInt32.toNat_ofNat_of_lt' (show cursor < 2 ^ 32 by omega)
    have hrest := @ih (cursor + (memberHeaderSize + padEven m.data.length)) (by unfold membersSize; omega)
    rw [laidOut, memberOffsets, List.map_cons, List.map_cons, hcursor, hrest]

theorem laidOut_symbols (hsize : cursor + membersSize members < 2 ^ 32) :
    ((members.zip (memberOffsets cursor members)).flatMap fun r => r.1.symbols.map fun s => (s, r.2.toNat)) =
      (members.zip (laidOut cursor members)).flatMap fun r => r.1.symbols.map fun s => (s, r.2.headerOffset) := by
  have hzip := congrArg (List.zip members) (laidOut_offsets hsize)
  rw [List.zip_map_right, List.zip_map_right] at hzip
  have hflat := congrArg (List.flatMap fun r : Member × Nat => r.1.symbols.map fun s => (s, r.2)) hzip
  rw [List.flatMap_map, List.flatMap_map] at hflat
  exact hflat.symm

theorem stored_fits (hsize : membersSize members < 10 ^ 10) (h : List.Forall₂ (Stored long) members stored) :
    ∀ r ∈ members.zip stored, Fits r.2 r.1.data := by
  induction h with
  | nil => exact fun _ h => nomatch h
  | cons hm _ ih =>
    unfold membersSize padEven at hsize ih
    rw [List.map_cons, List.sum_cons] at hsize
    rw [List.zip_cons_cons]
    exact List.forall_mem_cons.mpr ⟨⟨hm.ascii, hm.short, by dsimp only; omega⟩, ih (by omega)⟩

theorem length_membersBytes (hsize : membersSize members < 10 ^ 10) (h : List.Forall₂ (Stored long) members stored) :
    (membersBytes (members.zip stored)).length = membersSize members := by
  induction h with
  | nil => rfl
  | cons hm htail ih =>
    have hfits := stored_fits hsize (.cons hm htail) _ List.mem_cons_self
    unfold membersSize at hsize ⊢
    rw [List.map_cons, List.sum_cons] at hsize ⊢
    rw [List.zip_cons_cons, membersBytes, List.flatMap_cons, List.length_append, hfits.length_memberBytes]
    exact congrArg _ (ih (by unfold membersSize; omega))

theorem writeMembers_fit {rs : List (Member × String)} (h : ∀ r ∈ rs, Fits r.2 r.1.data) (out : Bytes) :
    rs.foldlM (fun out r => writeMember out r.2 r.1.data) out = .ok (out ++ membersBytes rs) := by
  induction rs generalizing out with
  | nil => exact congrArg _ (List.append_nil out).symm
  | cons r rs ih =>
    rw [List.foldlM_cons, (h r List.mem_cons_self).writeMember, membersBytes, List.flatMap_cons, ← List.append_assoc]
    exact ih (fun r' hr' => h r' (List.mem_cons_of_mem r hr')) _

theorem members_follow (h : List.Forall₂ (Stored long) members stored) (hsize : membersSize members < 10 ^ 10)
    (hsplit : bytes = before ++ membersBytes (members.zip stored)) (hbytes : bytes.length < 2 ^ 63)
    (heven : before.length % 2 = 0) (hpos : p.pos = before.length) (hlong : p.longNames = long)
    (hfuel : members.length < n) :
    Follows (rounds (parseRound bytes) n p) (.ok (p.members ++ laidOut before.length members, p.index)) := by
  induction h generalizing before p n with
  | nil =>
    obtain ⟨n, rfl⟩ := Nat.exists_eq_succ_of_ne_zero (by omega : n ≠ 0)
    have hlen : bytes.length = before.length := by
      rw [hsplit]
      exact congrArg List.length (List.append_nil before)
    have husize : 2 ^ 63 + 100 < usizes := by decide
    have hround : Follows (parseRound bytes p) (.ok (.inr (p.members, p.index))) := by
      unfold parseRound memberHeaderSize
      refine follows_next (follows_addUsize (by omega)) ?_
      rw [if_neg (by omega)]
      exact follows_pure _
    rw [laidOut, List.append_nil]
    exact follows_next hround (follows_pure _)
  | @cons m r members stored hm htail ih =>
    obtain ⟨n, rfl⟩ := Nat.exists_eq_succ_of_ne_zero (by omega : n ≠ 0)
    have hfits := stored_fits hsize (.cons hm htail) _ List.mem_cons_self
    rw [List.zip_cons_cons, membersBytes, List.flatMap_cons] at hsplit
    let q : Parsing := { p with members := p.members ++ [⟨m.name, p.pos, m.data⟩] }
    have htake : Follows (takeMember p r m.data) (.ok q) := by
      unfold takeMember
      rw [if_neg hm.notIndex, if_neg hm.notTable, hlong]
      refine follows_next hm.reads ?_
      rw [← hlong]
      exact follows_pure _
    have hround := parseRound_follows hfits hm.ends heven (by rw [hsplit, List.append_assoc]) hbytes hpos htake
    refine follows_rounds hround ?_
    have hlen : (before ++ memberBytes r m.data).length = before.length + (memberBytes r m.data).length :=
      List.length_append
    have hmember : (memberBytes r m.data).length = memberHeaderSize + padEven m.data.length := hfits.length_memberBytes
    have hnext : (before ++ memberBytes r m.data).length % 2 = 0 := by
      rw [hlen, hmember, memberHeaderSize, padEven]
      omega
    unfold membersSize at hsize
    rw [List.map_cons, List.sum_cons] at hsize
    have hrest := @ih (before ++ memberBytes r m.data) n { q with pos := before.length + (memberBytes r m.data).length }
      (by unfold membersSize; omega) (by rw [hsplit, List.append_assoc]; rfl) hnext hlen.symm hlong
      (by rw [List.length_cons] at hfuel; omega)
    rw [hlen, hmember] at hrest
    rw [laidOut, hmember, ← hpos, List.append_cons]
    rw [← hpos] at hrest
    exact hrest

end

/-! ## The archive -/

namespace ArchiveBuilder

variable (b : ArchiveBuilder)

/-- What the archive takes. -/
def total : Nat := b.firstOffset + membersSize b.members

/-- What is built without corrupting it, and is read back. -/
structure Ordinary : Prop where
  named : ∀ m ∈ b.members, m.Named
  free : ∀ m ∈ b.members, ∀ s ∈ m.symbols, 0 ∉ asBytes s
  index : b.index = .correct ∨ b.index = .omitted
  magic : b.magicOverride = none
  whole : b.truncateTo = none
  size : b.total < 2 ^ 32

def symbolIndex : Bytes := indexPayload (b.entries (memberOffsets b.firstOffset b.members))

def indexPart : Bytes := if 0 < b.indexLength then memberBytes "/" b.symbolIndex else []

def tablePart : Bytes := if (storeNames [] b.members).1 ≠ [] then memberBytes "//" (storeNames [] b.members).1 else []

/-- The archive as it is written. -/
def image : Bytes :=
  archiveMagic.val ++ b.indexPart ++ b.tablePart ++ membersBytes (b.members.zip (storeNames [] b.members).2)

variable {b}

theorem Ordinary.stored (h : b.Ordinary) :
    List.Forall₂ (Stored (storeNames [] b.members).1) b.members (storeNames [] b.members).2 := by
  refine (storeNames_stored (t := "") h.named ?_).2
  have := h.size
  unfold total firstOffset at this
  by_cases hlong : (storeNames [] b.members).1 ≠ []
  · rw [if_pos hlong] at this
    unfold padEven at this
    change (storeNames [] b.members).1.length < _
    omega
  · change (storeNames [] b.members).1.length < _
    rw [not_not.mp hlong]
    decide

theorem entries_correct (hindex : b.index = .correct) (offsets : List UInt32) :
    b.entries offsets = (b.members.zip offsets).flatMap fun r => r.1.symbols.map fun s => (r.2, s) := by
  simp [entries, hindex]

theorem entries_names (hindex : b.index = .correct) (cursor : Nat) :
    (b.entries (memberOffsets cursor b.members)).map Prod.snd = b.members.flatMap Member.symbols := by
  rw [entries_correct hindex]
  generalize b.members = members
  induction members generalizing cursor with
  | nil => rfl
  | cons m members ih =>
    rw [memberOffsets, List.zip_cons_cons, List.flatMap_cons, List.map_append, ih, List.map_map, List.flatMap_cons]
    exact congrArg (· ++ _) (List.map_id _)

theorem length_symbolIndex (hindex : b.index = .correct) : b.symbolIndex.length = b.indexLength := by
  have hnames := entries_names hindex b.firstOffset
  have hcount := congrArg List.length hnames
  have hsizes := congrArg (fun names => (names.map fun s => (asBytes s).length + 1).sum) hnames
  rw [List.length_map, List.length_flatMap] at hcount
  simp only [List.map_map] at hsizes
  unfold symbolIndex indexLength indexPayload
  rw [List.length_append, List.length_append, length_bigEndian, length_offsets, hcount, if_neg (by rw [hindex]; decide)]
  rw [← hsizes, List.length_flatMap, if_neg (by rw [hindex]; decide)]
  simp only [List.length_append, List.length_singleton]
  rfl

theorem indexLength_pos : 0 < b.indexLength ↔ b.index ≠ .omitted := by
  unfold indexLength
  by_cases h : b.index = .omitted
  · simp [h]
  · rw [if_neg h]
    simp only [h, ne_eq, not_false_eq_true, iff_true]
    omega

theorem Ordinary.correct (h : b.Ordinary) (hpos : 0 < b.indexLength) : b.index = .correct :=
  h.index.resolve_right (indexLength_pos.mp hpos)

theorem Ordinary.membersSize (h : b.Ordinary) : membersSize b.members < 10 ^ 10 := by
  have := h.size
  unfold total at this
  omega

theorem Ordinary.index_fits (h : b.Ordinary) (hpos : 0 < b.indexLength) : Fits "/" b.symbolIndex := by
  refine ⟨by decide, by decide, ?_⟩
  have := h.size
  unfold total firstOffset at this
  rw [if_pos hpos, padEven] at this
  rw [length_symbolIndex (h.correct hpos)]
  omega

theorem Ordinary.table_fits (h : b.Ordinary) (hlong : (storeNames [] b.members).1 ≠ []) :
    Fits "//" (storeNames [] b.members).1 := by
  refine ⟨by decide, by decide, ?_⟩
  have := h.size
  unfold total firstOffset at this
  rw [if_pos hlong] at this
  unfold padEven at this
  omega

theorem Ordinary.length_indexPart (h : b.Ordinary) :
    b.indexPart.length = if 0 < b.indexLength then memberHeaderSize + padEven b.indexLength else 0 := by
  unfold indexPart
  by_cases hpos : 0 < b.indexLength
  · rw [if_pos hpos, if_pos hpos, (h.index_fits hpos).length_memberBytes, length_symbolIndex (h.correct hpos)]
  · rw [if_neg hpos, if_neg hpos]
    rfl

theorem Ordinary.length_tablePart (h : b.Ordinary) : b.tablePart.length =
    if (storeNames [] b.members).1 ≠ [] then memberHeaderSize + padEven (storeNames [] b.members).1.length else 0 := by
  unfold tablePart
  by_cases hlong : (storeNames [] b.members).1 ≠ []
  · rw [if_pos hlong, if_pos hlong, (h.table_fits hlong).length_memberBytes]
  · rw [if_neg hlong, if_neg hlong]
    rfl

theorem Ordinary.length_front (h : b.Ordinary) :
    (archiveMagic.val ++ b.indexPart ++ b.tablePart).length = b.firstOffset := by
  rw [List.length_append, List.length_append, h.length_indexPart, h.length_tablePart]
  rfl

theorem Ordinary.length_image (h : b.Ordinary) : b.image.length = b.total := by
  rw [image, List.length_append, h.length_front, length_membersBytes h.membersSize h.stored]
  rfl

theorem firstOffset_even (b : ArchiveBuilder) : b.firstOffset % 2 = 0 := by
  have heven : ∀ n, (memberHeaderSize + padEven n) % 2 = 0 := fun n => by
    unfold memberHeaderSize padEven
    omega
  have hpart : ∀ (p : Prop) [Decidable p] (n : Nat), (if p then memberHeaderSize + padEven n else 0) % 2 = 0 := by
    intro p _ n
    by_cases hp : p
    · rw [if_pos hp, heven]
    · rw [if_neg hp]
  have hindex := hpart (0 < b.indexLength) b.indexLength
  have htable := hpart ((storeNames [] b.members).1 ≠ []) (storeNames [] b.members).1.length
  have hmagic : archiveMagic.val.length = 8 := rfl
  unfold firstOffset
  omega

theorem write_if {p : Prop} [Decidable p] {x y : Except String Bytes} {f : Bytes → Except String Bytes} {out : Bytes}
    (h : (if p then x else y) = .ok out) : (if p then x >>= f else y >>= f) = f out := by
  by_cases hp : p
  · rw [if_pos hp] at h ⊢
    rw [h]
    rfl
  · rw [if_neg hp] at h ⊢
    rw [h]
    rfl

theorem Ordinary.build_eq (h : b.Ordinary) : b.build = .ok b.image := by
  have hindex : (if 0 < b.indexLength then writeMember archiveMagic.val "/" b.symbolIndex else pure archiveMagic.val) =
      .ok (archiveMagic.val ++ b.indexPart) := by
    unfold indexPart
    by_cases hpos : 0 < b.indexLength
    · rw [if_pos hpos, if_pos hpos, (h.index_fits hpos).writeMember]
    · rw [if_neg hpos, if_neg hpos, List.append_nil]
      rfl
  have htable : ∀ out, (if (storeNames [] b.members).1 ≠ [] then writeMember out "//" (storeNames [] b.members).1
      else pure out) = .ok (out ++ b.tablePart) := by
    intro out
    unfold tablePart
    by_cases hlong : (storeNames [] b.members).1 ≠ []
    · rw [if_pos hlong, if_pos hlong, (h.table_fits hlong).writeMember]
    · rw [if_neg hlong, if_neg hlong, List.append_nil]
      rfl
  unfold build
  rw [h.magic, h.whole]
  refine (write_if hindex).trans ((write_if (htable _)).trans ?_)
  exact congrArg (· >>= _) (writeMembers_fit (stored_fits h.membersSize h.stored) _)

theorem Ordinary.index_follows (h : b.Ordinary) (hpos : 0 < b.indexLength) :
    ∃ index : ParsedIndex, Follows (parseIndex b.symbolIndex) (.ok index) ∧
      index.entries.map (fun e => (e.1, e.2.toNat)) =
        (b.members.zip (laidOut b.firstOffset b.members)).flatMap fun r =>
          r.1.symbols.map fun s => (s, r.2.headerOffset) := by
  have hcorrect := h.correct hpos
  have hfree : ∀ e ∈ b.entries (memberOffsets b.firstOffset b.members), 0 ∉ asBytes e.2 := by
    intro e he
    have hmem : e.2 ∈ b.members.flatMap Member.symbols := by
      rw [← entries_names hcorrect b.firstOffset]
      exact List.mem_map_of_mem he
    obtain ⟨m, hm, hs⟩ := List.mem_flatMap.mp hmem
    exact h.free m hm e.2 hs
  have hsize : b.symbolIndex.length < 2 ^ 32 := by
    have := h.size
    unfold total firstOffset at this
    rw [if_pos hpos, padEven] at this
    rw [length_symbolIndex hcorrect]
    omega
  refine ⟨_, parseIndex_follows hfree hsize, ?_⟩
  rw [← laidOut_symbols h.size, entries_correct hcorrect]
  simp only [List.map_flatMap, List.map_map, Function.comp_def]

theorem Ordinary.length_lt (h : b.Ordinary) : b.image.length < 2 ^ 63 := by
  rw [h.length_image]
  exact h.size.trans (by decide)

theorem Ordinary.behind_table (h : b.Ordinary) {p : Parsing} {n : Nat} (hmembers : p.members = [])
    (hlong : p.longNames = (storeNames [] b.members).1) (hpos : p.pos = b.firstOffset) (hfuel : b.members.length < n) :
    Follows (rounds (parseRound b.image) n p) (.ok (laidOut b.firstOffset b.members, p.index)) := by
  have hrest := members_follow h.stored h.membersSize rfl h.length_lt (h.length_front ▸ firstOffset_even b)
    (hpos.trans h.length_front.symm) hlong hfuel
  rw [h.length_front, hmembers] at hrest
  exact hrest

theorem Ordinary.behind_index (h : b.Ordinary) {p : Parsing} {n : Nat} (hmembers : p.members = [])
    (hlong : p.longNames = []) (hpos : p.pos = (archiveMagic.val ++ b.indexPart).length)
    (hfuel : b.members.length + 1 < n) :
    Follows (rounds (parseRound b.image) n p) (.ok (laidOut b.firstOffset b.members, p.index)) := by
  have hfront := h.length_front
  rw [List.length_append] at hfront
  have htable := h.length_tablePart
  by_cases hnames : (storeNames [] b.members).1 ≠ []
  · rw [if_pos hnames] at htable
    have hpart : b.tablePart = memberBytes "//" (storeNames [] b.members).1 := if_pos hnames
    obtain ⟨n, rfl⟩ := Nat.exists_eq_succ_of_ne_zero (by omega : n ≠ 0)
    have hsplit : b.image = archiveMagic.val ++ b.indexPart ++ memberBytes "//" (storeNames [] b.members).1 ++
        membersBytes (b.members.zip (storeNames [] b.members).2) := by
      rw [← hpart]
      rfl
    have heven : (archiveMagic.val ++ b.indexPart).length % 2 = 0 := by
      have := firstOffset_even b
      unfold memberHeaderSize padEven at htable
      omega
    have hround := parseRound_follows (q := { p with longNames := (storeNames [] b.members).1 })
      (h.table_fits hnames) (by decide) heven hsplit h.length_lt hpos (follows_pure _)
    rw [← hpart, hfront] at hround
    exact follows_rounds hround (h.behind_table hmembers rfl rfl (by omega))
  · rw [if_neg hnames] at htable
    exact h.behind_table hmembers (by rw [hlong, not_not.mp hnames]) (by omega) (by omega)

theorem length_le_membersSize (members : List Member) : members.length ≤ membersSize members := by
  induction members with
  | nil => rfl
  | cons m members ih =>
    unfold membersSize memberHeaderSize at ih ⊢
    rw [List.map_cons, List.sum_cons, List.length_cons]
    omega

theorem Ordinary.parse_follows (h : b.Ordinary) :
    ∃ index : Option ParsedIndex, Follows (parse b.image) (.ok (laidOut b.firstOffset b.members, index)) ∧
      index.map (fun index => index.entries.map fun e => (e.1, e.2.toNat)) =
        if b.index = .omitted then none
        else some ((b.members.zip (laidOut b.firstOffset b.members)).flatMap fun r =>
          r.1.symbols.map fun s => (s, r.2.headerOffset)) := by
  have hlen := h.length_image
  have hcount := length_le_membersSize b.members
  have hfirst : 8 ≤ b.firstOffset := by
    have hmagic : archiveMagic.val.length = 8 := rfl
    unfold firstOffset
    omega
  unfold total at hlen
  have hmagic : Follows (hasMagic b.image) (.ok true) := by
    have htake : b.image.take 8 = archiveMagic.val := by
      unfold image
      rw [List.append_assoc, List.append_assoc]
      exact List.take_left' rfl
    have hfollows := hasMagic_follows b.image
    rwa [decide_eq_true ⟨by omega, htake⟩] at hfollows
  have hstart : ∀ {r}, Follows (rounds (parseRound b.image) (b.image.length + 1) ⟨8, [], none, []⟩) (.ok r) →
      Follows (parse b.image) (.ok r) := fun hr =>
    follows_next hmagic (follows_require (fun _ => hr) fun hno => absurd rfl hno)
  by_cases hpos : 0 < b.indexLength
  · obtain ⟨index, hindex, hentries⟩ := h.index_follows hpos
    have hpart : b.indexPart = memberBytes "/" b.symbolIndex := if_pos hpos
    have hsplit : b.image = archiveMagic.val ++ memberBytes "/" b.symbolIndex ++
        (b.tablePart ++ membersBytes (b.members.zip (storeNames [] b.members).2)) := by
      rw [← hpart, ← List.append_assoc]
      rfl
    have htake : Follows (takeMember ⟨8, [], none, []⟩ "/" b.symbolIndex) (.ok ⟨8, [], some index, []⟩) :=
      follows_next hindex (follows_pure _)
    refine ⟨some index, hstart (follows_rounds (parseRound_follows (h.index_fits hpos) (by decide) rfl hsplit
      h.length_lt rfl htake) ?_), ?_⟩
    · exact h.behind_index rfl rfl (by rw [hpart, List.length_append]) (by omega)
    · rw [if_neg (indexLength_pos.mp hpos), Option.map_some, hentries]
  · have hpart : b.indexPart = [] := if_neg hpos
    refine ⟨none, hstart (h.behind_index rfl rfl (by rw [hpart]; rfl) (by omega)), ?_⟩
    rw [if_pos (not_not.mp fun hno => hpos (indexLength_pos.mpr hno))]
    rfl

end ArchiveBuilder

/-- **Archives round-trip with a truthful index.** What is built is read back: the members in order with their names and
data, each header at an even offset and where it was laid out, and an index that names for every symbol of every member
exactly the header of that member. The reader never panics. -/
theorem build_parse (b : ArchiveBuilder) (h : b.Ordinary) (bytes : Slice) :
    (∃ out members index, b.build = .ok out ∧ Follows (parse out) (.ok (members, index)) ∧
      members.map (fun m => (m.name, m.data)) = b.members.map (fun m => (m.name, m.data)) ∧
      members.map ParsedMember.headerOffset = (memberOffsets b.firstOffset b.members).map UInt32.toNat ∧
      (∀ m ∈ members, m.headerOffset % 2 = 0) ∧
      index.map (fun index => index.entries.map fun e => (e.1, e.2.toNat)) =
        if b.index = .omitted then none
        else some ((b.members.zip members).flatMap fun r => r.1.symbols.map fun s => (s, r.2.headerOffset))) ∧
    Total (parse bytes.val) := by
  obtain ⟨index, hparse, hindex⟩ := h.parse_follows
  refine ⟨⟨b.image, laidOut b.firstOffset b.members, index, h.build_eq, hparse, ?_, ?_, ?_, hindex⟩, parse_total bytes⟩
  · exact laidOut_contents _ _
  · exact laidOut_offsets h.size
  · exact laidOut_even b.firstOffset_even

def pair : ArchiveBuilder where
  members := [⟨"start.o", [1, 2, 3], ["main", "exit"]⟩, ⟨"arithmetic_helpers.o", [4], ["add"]⟩]

theorem pair_ordinary : pair.Ordinary where
  named := by
    refine List.forall_mem_cons.mpr ⟨⟨by decide +kernel, by decide +kernel, fun _ => by decide +kernel⟩, ?_⟩
    exact List.forall_mem_singleton.mpr ⟨by decide +kernel, by decide +kernel, fun h => absurd h (by decide +kernel)⟩
  free := by decide +kernel
  index := .inl rfl
  magic := rfl
  whole := rfl
  size := by decide +kernel

theorem pair_parsed : ∃ out members index, pair.build = .ok out ∧ Follows (parse out) (.ok (members, index)) ∧
    members.map ParsedMember.headerOffset = [180, 244] := by
  obtain ⟨out, members, index, hbuild, hparse, -, hoffsets, -⟩ := (build_parse pair pair_ordinary ⟨[], by decide⟩).1
  exact ⟨out, members, index, hbuild, hparse, hoffsets.trans (by decide +kernel)⟩

end BuildYourOwn.Link.Archive
