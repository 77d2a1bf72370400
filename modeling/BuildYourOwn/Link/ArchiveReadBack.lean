import BuildYourOwn.Link.ArchiveHeader

/-!
# Archives are read back

* The reader of archives never panics (`parse_total`).
* Between overrides, what is built is read back (`build_parse`): the members in order with their names and data, each
  header where it was laid out and at an even offset, and an index that names for every symbol the header of the member
  that declares it.
-/

namespace BuildYourOwn.Link.Archive

open Lib Lib.Action
open Topic (parseUsize)

/-! ## The reader never panics -/

section
variable {data bytes : Bytes} {i : Nat} {p : Parsing}

theorem u32be_follows (h : i + 3 < data.length) (hdata : data.length < 2 ^ 63) :
    Follows (u32be data i) (.ok (UInt32.ofNat (ofBigEndian ((data.drop i).take 4)))) := by
  have husize : data.length < usizes := hdata.trans (by decide)
  have htake : (data.drop i).take 4 = [data[i], data[i + 1], data[i + 2], data[i + 3]] := by
    iterate 4 rw [List.drop_eq_getElem_cons (by omega)]
    rfl
  unfold u32be
  rw [htake]
  refine follows_next (follows_index (by omega)) ?_
  iterate 3 refine follows_next (follows_addUsize (by omega)) (follows_next (follows_index (by omega)) ?_)
  exact follows_pure _

theorem parseIndex_total (hdata : data.length < 2 ^ 63) : Total (parseIndex data) := by
  have hbounds : 4 * 2 ^ 32 + 4 < usizes := by decide
  unfold parseIndex
  refine total_require fun hlong => total_next (u32be_follows (by omega) hdata) ?_
  generalize UInt32.ofNat (ofBigEndian ((data.drop 0).take 4)) = count
  have hcount : count.toNat < 2 ^ 32 := count.toNat_lt
  refine total_next (follows_mulUsize (by omega)) (total_next (follows_addUsize (by omega)) ?_)
  refine total_require fun hfits => ?_
  refine total_next (follows_range (by omega) le_rfl) ?_
  refine total_bind (total_each fun i hi => ?_) fun entries _ => ⟨_, follows_pure _⟩
  have hi := List.mem_range.mp hi
  refine total_next (follows_mulUsize (by omega)) (total_next (follows_addUsize (by omega)) ?_)
  refine total_next (u32be_follows (by omega) hdata) (total_demand fun name _ => ?_)
  exact ⟨_, follows_pure _⟩

theorem memberName_total (longNames : Bytes) (rawName : String) : Total (memberName longNames rawName) := by
  unfold memberName
  split
  · exact total_demand fun start _ => ⟨_, follows_pure _⟩
  · exact ⟨_, follows_pure _⟩

theorem takeMember_total (p : Parsing) (rawName : String) (hdata : data.length < 2 ^ 63) :
    Total (takeMember p rawName data) := by
  unfold takeMember
  by_cases hindex : rawName = "/"
  · rw [if_pos hindex]
    exact total_bind (parseIndex_total hdata) fun _ _ => ⟨_, follows_pure _⟩
  rw [if_neg hindex]
  by_cases hlong : rawName = "//"
  · rw [if_pos hlong]
    exact ⟨_, follows_pure _⟩
  · rw [if_neg hlong]
    exact total_bind (memberName_total _ _) fun _ _ => ⟨_, follows_pure _⟩

theorem parseRound_ends (hbytes : bytes.length < 2 ^ 63) (hpos : p.pos ≤ bytes.length + 1) :
    Ends False (Turn (fun p _ => p.pos ≤ bytes.length + 1) (fun p => bytes.length + 2 - p.pos) (fun _ _ => True)
      (bytes.length + 2 - p.pos)) (parseRound bytes p ()) := by
  have husize : bytes.length + 100 < usizes := by
    have : 2 ^ 63 + 100 < usizes := by decide
    omega
  unfold parseRound memberHeaderSize
  refine (ends_next (follows_addUsize (by omega))).mpr ?_
  by_cases hfits : p.pos + 60 ≤ bytes.length
  · rw [if_pos hfits]
    refine (ends_next (follows_range (by omega) hfits)).mpr ?_
    have hheader : ((bytes.drop p.pos).take (p.pos + 60 - p.pos)).length = 60 := by
      rw [List.length_take, List.length_drop]
      omega
    refine (ends_next (follows_range (by decide) (by omega))).mpr (ends_require_next (fun _ => ?_) fun _ => trivial)
    refine (ends_next (follows_range (by decide) (by omega))).mpr ?_
    refine (ends_next (follows_range (by decide) (by omega))).mpr ?_
    generalize parseUsize _ = size
    generalize trimEnd _ = rawName
    refine ends_demand_next (fun size _ => ?_) fun _ => trivial
    refine ends_demand_next (fun stop hstop => ?_) fun _ => trivial
    obtain ⟨hsum, hle⟩ := Option.filter_eq_some_iff.mp hstop
    have hle := of_decide_eq_true hle
    have hstart : p.pos + 60 ≤ stop := by
      unfold checkedAdd at hsum
      split at hsum
      · cases hsum
        omega
      · exact nomatch hsum
    refine (ends_next (follows_range hstart hle)).mpr ?_
    have hdata : ((bytes.drop (p.pos + 60)).take (stop - (p.pos + 60))).length < 2 ^ 63 := by
      rw [List.length_take, List.length_drop]
      omega
    refine ends_total_next (takeMember_total p rawName hdata) (fun q _ => ?_) fun _ _ => trivial
    refine (ends_next (follows_addUsize (by omega))).mpr ⟨?_, ?_⟩
    · dsimp only
      omega
    · dsimp only
      omega
  · rw [if_neg hfits]
    exact trivial

theorem hasMagic_follows (bytes : Bytes) :
    Follows (hasMagic bytes) (.ok (decide (8 ≤ bytes.length ∧ bytes.take 8 = archiveMagic.val))) := by
  unfold hasMagic
  by_cases hshort : bytes.length < 8
  · rw [if_pos hshort, decide_eq_false (by omega)]
    exact follows_pure false
  · rw [if_neg hshort]
    refine follows_next (follows_range (by decide) (by omega)) ?_
    simp only [Nat.not_lt.mp hshort, true_and]
    exact follows_pure _

/-- **The reader of archives never panics.** -/
theorem parse_total (bytes : Slice) : Total (parse bytes.val) := by
  refine total_next (hasMagic_follows bytes.val) (total_require fun hmagic => ?_)
  have hlong := (of_decide_eq_true hmagic).1
  have hrounds : Ends False (fun _ _ => True)
      (rounds (parseRound bytes.val) (bytes.val.length + 1) ⟨8, [], none, []⟩ ()) :=
    ends_rounds (I := fun p _ => p.pos ≤ bytes.val.length + 1) (m := fun p => bytes.val.length + 2 - p.pos)
      (show 8 ≤ bytes.val.length + 1 by omega) (show bytes.val.length + 2 - 8 < bytes.val.length + 1 by omega)
      fun p _ hp => parseRound_ends bytes.property hp
  obtain ⟨r, _, hrun, -⟩ := hrounds.comes
  exact ⟨r, fun _ => hrun⟩

end

/-! ## One member -/

section
variable {before rest data bytes : Bytes} {name : String} {p q : Parsing}

theorem parseRound_follows (h : Fits name data)
    (hend : ∀ hne : name.toList ≠ [], whiteSpace (name.toList.getLast hne) = false)
    (heven : before.length % 2 = 0) (hsplit : bytes = before ++ memberBytes name data ++ rest)
    (hbytes : bytes.length < 2 ^ 63) (hp : p.pos = before.length) (htake : Follows (takeMember p name data) (.ok q)) :
    Follows (parseRound bytes p) (.ok (.inl { q with pos := before.length + (memberBytes name data).length })) := by
  have husize : 2 ^ 63 + 100 < usizes := by decide
  have hlen : bytes.length = before.length + (60 + padEven data.length) + rest.length := by
    rw [hsplit, List.length_append, List.length_append, h.length_memberBytes, memberHeaderSize]
  unfold padEven at hlen
  let name16 := asBytes (padRight 16 name)
  let size10 := asBytes (padRight 10 (toString data.length))
  have h16 : name16.length = 16 := h.length_name
  have h32 := length_middle
  have h10 : size10.length = 10 := h.length_size
  let header := name16 ++ asBytes middle ++ size10 ++ headerTerminator
  have hheader : header.length = 60 := by
    simp only [header, List.length_append, h16, h32, h10]
    rfl
  let pad : Bytes := if data.length % 2 = 0 then [] else [0x0a]
  have hparts : bytes = before ++ header ++ (data ++ pad ++ rest) := by
    rw [hsplit, memberBytes, asBytes_headerText]
    simp only [header, name16, size10, pad, List.append_assoc]
  unfold parseRound memberHeaderSize
  refine follows_next (follows_addUsize (by omega)) ?_
  rw [if_pos (by omega)]
  refine follows_next (a := header) ?_ ?_
  · rw [hparts]
    exact follows_range_part _ _ _ hp (by omega)
  refine follows_next (a := headerTerminator) ?_ (follows_require (fun _ => ?_) fun hne => absurd rfl hne)
  · have hterm : Follows (range (header ++ []) 58 60 : Reading Bytes) (.ok headerTerminator) :=
      follows_range_part _ _ _ (by simp only [List.length_append, h16, h32, h10])
        (by simp only [List.length_append, h16, h32, h10]; rfl)
    rwa [List.append_nil] at hterm
  refine follows_next (a := name16) ?_ ?_
  · have hname : Follows (range ([] ++ name16 ++ (asBytes middle ++ size10 ++ headerTerminator)) 0 16 : Reading Bytes)
        (.ok name16) := follows_range_part _ _ _ rfl (by rw [h16]; rfl)
    simpa only [header, List.nil_append, List.append_assoc] using hname
  refine follows_next (a := size10) ?_ ?_
  · exact follows_range_part (name16 ++ asBytes middle) size10 headerTerminator
      (by simp only [List.length_append]; omega) (by simp only [List.length_append]; omega)
  rw [fromUtf8Lossy_asBytes, fromUtf8Lossy_asBytes, trimEnd_padRight hend, trim_padRight_toString,
    parseUsize_toString (h.size.trans (by decide))]
  refine follows_next (follows_pure _) ?_
  have hstop : (checkedAdd (p.pos + 60) data.length).filter (fun e => e ≤ bytes.length) =
      some (p.pos + 60 + data.length) := by
    rw [checkedAdd, if_pos (by omega)]
    exact Option.filter_eq_some_iff.mpr ⟨rfl, decide_eq_true (by omega)⟩
  rw [hstop]
  refine follows_next (follows_pure _) ?_
  refine follows_next (a := data) ?_ (follows_next htake ?_)
  · have hparts : bytes = before ++ header ++ data ++ (pad ++ rest) := by
      rw [hparts]
      simp only [List.append_assoc]
    rw [hparts]
    exact follows_range_part _ _ _ (by rw [List.length_append]; omega) (by rw [List.length_append]; omega)
  refine follows_next (follows_addUsize (by omega)) ?_
  have hnext : p.pos + 60 + data.length + (p.pos + 60 + data.length) % 2 =
      before.length + (memberBytes name data).length := by
    rw [h.length_memberBytes, memberHeaderSize, padEven]
    omega
  rw [hnext]
  exact follows_pure _

end

/-! ## Names -/

structure Member.Named (m : Member) : Prop where
  nonempty : m.name ≠ ""
  free : '/' ∉ m.name.toList
  ascii : (asBytes m.name).length ≤ 15 → Ascii m.name

structure Stored (long : Bytes) (m : Member) (stored : String) : Prop where
  ascii : Ascii stored
  short : stored.length ≤ 16
  ends : ∀ h : stored.toList ≠ [], whiteSpace (stored.toList.getLast h) = false
  notIndex : stored ≠ "/"
  notTable : stored ≠ "//"
  reads : Follows (memberName long stored) (.ok m.name)

section
variable {m : Member} {long : Bytes} {t u : String}

theorem stored_short (h : m.Named) (hshort : (asBytes m.name).length ≤ 15) : Stored long m s!"{m.name}/" := by
  have hascii := h.ascii hshort
  have hlist : (s!"{m.name}/").toList = m.name.toList ++ ['/'] := String.toList_append
  have hfirst : ∀ cs, (s!"{m.name}/").toList ≠ '/' :: cs := by
    intro cs hcs
    obtain ⟨c, rest, hname⟩ := List.exists_cons_of_ne_nil fun hnil => h.nonempty (String.toList_eq_nil_iff.mp hnil)
    rw [hlist, hname, List.cons_append, List.cons.injEq] at hcs
    exact h.free (by rw [hname, hcs.1]; exact List.mem_cons_self)
  refine ⟨hascii.append (by decide), ?_, fun hne => ?_, fun heq => ?_, fun heq => ?_, ?_⟩
  · rw [← String.length_toList, hlist, List.length_append, String.length_toList, ← hascii.length_asBytes]
    exact Nat.succ_le_succ hshort
  · simp only [hlist, List.getLast_concat]
    decide
  · exact hfirst [] (by rw [heq]; rfl)
  · exact hfirst ['/'] (by rw [heq]; rfl)
  · unfold memberName
    split
    · next cs hcs => exact absurd hcs (hfirst cs)
    · have hdrop : (m.name.toList ++ ['/']).rdropWhile (fun c => c == '/') = m.name.toList := by
        rw [List.rdropWhile_concat_pos _ _ _ rfl]
        refine List.rdropWhile_eq_self_iff.mpr fun hne hlast => h.free ?_
        rw [← beq_iff_eq.mp hlast]
        exact List.getLast_mem hne
      rw [hlist, hdrop, String.ofList_toList]
      exact follows_pure _

theorem getFrom_sum (cs ds : List Char) : getFrom (cs.map Char.utf8Size).sum (cs ++ ds) = some ds := by
  induction cs with
  | nil =>
    cases ds <;> rfl
  | cons c cs ih =>
    have hpos := c.utf8Size_pos
    rw [List.map_cons, List.sum_cons, List.cons_append]
    obtain ⟨k, hk⟩ := Nat.exists_eq_add_of_lt (show 0 < c.utf8Size + (cs.map Char.utf8Size).sum by omega)
    rw [hk, Nat.zero_add, getFrom, if_pos (by omega)]
    rw [show k + 1 - c.utf8Size = (cs.map Char.utf8Size).sum by omega, ih]

theorem length_asBytes (s : String) : (asBytes s).length = (s.toList.map Char.utf8Size).sum := by
  rw [asBytes_eq, List.length_flatMap]
  simp only [String.length_utf8EncodeChar]

theorem stored_long (h : m.Named) (hlen : (asBytes t).length < 10 ^ 15) :
    Stored (asBytes (t ++ m.name ++ "/\n" ++ u)) m s!"/{(asBytes t).length}" := by
  have hlist : (s!"/{(asBytes t).length}").toList = '/' :: (toString (asBytes t).length).toList := String.toList_append
  have hdigits := toString_ne_nil (asBytes t).length
  refine ⟨Ascii.append (by decide) (ascii_toString _), ?_, fun hne => ?_, fun heq => ?_, fun heq => ?_, ?_⟩
  · rw [← String.length_toList, hlist, List.length_cons, String.length_toList]
    exact Nat.succ_le_succ (length_toString hlen)
  · simp only [hlist, List.getLast_cons hdigits]
    exact whiteSpace_digit (isDigit_toString (List.getLast_mem hdigits))
  · have hcs : '/' :: (toString (asBytes t).length).toList = ['/'] := by
      rw [← hlist, heq]
      rfl
    exact hdigits (List.cons.inj hcs).2
  · have hcs : '/' :: (toString (asBytes t).length).toList = ['/', '/'] := by
      rw [← hlist, heq]
      rfl
    have hslash : '/' ∈ (toString (asBytes t).length).toList := by
      rw [(List.cons.inj hcs).2]
      exact List.mem_cons_self
    exact absurd (isDigit_toString hslash) (by decide)
  · have hfrom : getFrom (asBytes t).length (t ++ m.name ++ "/\n" ++ u).toList =
        some (m.name.toList ++ '/' :: '\n' :: u.toList) := by
      have hassoc : t ++ m.name ++ "/\n" ++ u = t ++ (m.name ++ "/\n" ++ u) := by
        simp only [String.append_assoc]
      rw [length_asBytes, hassoc, String.toList_append, getFrom_sum]
      simp
    have htake : (m.name.toList ++ '/' :: '\n' :: u.toList).takeWhile (fun c => c != '/') = m.name.toList := by
      rw [List.takeWhile_append_of_pos fun c hc => bne_iff_ne.mpr fun heq => h.free (by rw [← heq]; exact hc)]
      rw [List.takeWhile_cons_of_neg (by decide), List.append_nil]
    unfold memberName
    split
    · next offset hcs =>
      rw [hlist] at hcs
      rw [← (List.cons.inj hcs).2, String.ofList_toList, parseUsize_toString (hlen.trans (by decide))]
      refine follows_next (follows_pure _) ?_
      rw [fromUtf8Lossy_asBytes]
      dsimp only
      rw [hfrom, Option.map_some, htake, Option.getD_some, String.ofList_toList]
      exact follows_pure _
    · next hno => exact absurd hlist (hno _)

theorem storeNames_stored {members : List Member} (hnamed : ∀ m ∈ members, m.Named)
    (hlen : (storeNames (asBytes t) members).1.length < 10 ^ 15) :
    (∃ u, (storeNames (asBytes t) members).1 = asBytes (t ++ u)) ∧
      List.Forall₂ (Stored (storeNames (asBytes t) members).1) members (storeNames (asBytes t) members).2 := by
  induction members generalizing t with
  | nil => exact ⟨⟨"", by rw [String.append_empty]; rfl⟩, .nil⟩
  | cons m members ih =>
    have hm := hnamed m List.mem_cons_self
    have hrest : ∀ m ∈ members, m.Named := fun m' hm' => hnamed m' (List.mem_cons_of_mem m hm')
    unfold storeNames at hlen ⊢
    by_cases hshort : (asBytes m.name).length ≤ 15
    · rw [if_pos hshort] at hlen ⊢
      obtain ⟨htable, hstored⟩ := ih hrest hlen
      exact ⟨htable, .cons (stored_short hm hshort) hstored⟩
    · rw [if_neg hshort] at hlen ⊢
      have hgrow : asBytes t ++ asBytes m.name ++ [0x2f, 0x0a] = asBytes (t ++ m.name ++ "/\n") := by
        rw [asBytes_append, asBytes_append]
        rfl
      rw [hgrow] at hlen ⊢
      obtain ⟨⟨u, htable⟩, hstored⟩ := ih hrest hlen
      have ht : (asBytes t).length < 10 ^ 15 := by
        rw [htable] at hlen
        simp only [asBytes_append, List.length_append] at hlen
        omega
      refine ⟨⟨m.name ++ "/\n" ++ u, by rw [htable]; simp only [String.append_assoc]⟩, .cons ?_ hstored⟩
      rw [htable]
      exact stored_long hm ht

end

/-! ## The index -/

section
variable {entries : List (UInt32 × String)}

theorem splitZero_free {piece : Bytes} (h : 0 ∉ piece) (rest : Bytes) :
    splitZero (piece ++ 0 :: rest) = piece :: splitZero rest := by
  induction piece with
  | nil => exact if_pos rfl
  | cons b piece ih =>
    have hb : b ≠ 0 := fun hb => h (by rw [hb]; exact List.mem_cons_self)
    rw [List.cons_append, splitZero, if_neg hb, ih fun hmem => h (List.mem_cons_of_mem b hmem)]

theorem splitZero_names (hfree : ∀ e ∈ entries, 0 ∉ asBytes e.2) :
    splitZero (entries.flatMap fun e => asBytes e.2 ++ [0]) = entries.map (fun e => asBytes e.2) ++ [[]] := by
  induction entries with
  | nil => rfl
  | cons e entries ih =>
    rw [List.flatMap_cons, List.append_assoc, List.singleton_append, splitZero_free (hfree e List.mem_cons_self),
      ih fun e' he' => hfree e' (List.mem_cons_of_mem e he'), List.map_cons, List.cons_append]

theorem length_offsets (entries : List (UInt32 × String)) :
    (entries.flatMap fun e => bigEndian 4 e.1.toNat).length = 4 * entries.length := by
  induction entries with
  | nil => rfl
  | cons e entries ih =>
    rw [List.flatMap_cons, List.length_append, length_bigEndian, ih, List.length_cons]
    omega

theorem indexPayload_offset {i : Nat} (hi : i < entries.length) :
    ((indexPayload entries).drop (4 + 4 * i)).take 4 = bigEndian 4 entries[i].1.toNat := by
  have hsplit : (entries.flatMap fun e => bigEndian 4 e.1.toNat) =
      ((entries.take i).flatMap fun e => bigEndian 4 e.1.toNat) ++ (bigEndian 4 entries[i].1.toNat ++
        (entries.drop (i + 1)).flatMap fun e => bigEndian 4 e.1.toNat) := by
    conv_lhs => rw [← List.take_append_drop i entries, List.drop_eq_getElem_cons hi]
    rw [List.flatMap_append, List.flatMap_cons]
  have hbefore : (bigEndian 4 (UInt32.ofNat entries.length).toNat ++
      (entries.take i).flatMap fun e => bigEndian 4 e.1.toNat).length = 4 + 4 * i := by
    rw [List.length_append, length_bigEndian, length_offsets, List.length_take, Nat.min_eq_left hi.le]
  rw [indexPayload, hsplit]
  simp only [← List.append_assoc]
  rw [← hbefore]
  simp only [List.append_assoc]
  rw [← List.append_assoc, List.drop_left, List.take_left' (length_bigEndian _ _)]

theorem u32be_bigEndian (n : UInt32) : UInt32.ofNat (ofBigEndian (bigEndian 4 n.toNat)) = n := by
  have hlt : n.toNat < 256 ^ 4 := n.toNat_lt
  rw [ofBigEndian_bigEndian, Nat.mod_eq_of_lt hlt, UInt32.ofNat_toNat]

theorem parseIndex_follows (hfree : ∀ e ∈ entries, 0 ∉ asBytes e.2) (hlen : (indexPayload entries).length < 2 ^ 32) :
    Follows (parseIndex (indexPayload entries)) (.ok ⟨entries.map fun e => (e.2, e.1)⟩) := by
  have husize : 2 ^ 35 < usizes := by decide
  have hlong : 4 + 4 * entries.length ≤ (indexPayload entries).length := by
    rw [indexPayload, List.length_append, List.length_append, length_bigEndian, length_offsets]
    omega
  have hcount : (UInt32.ofNat entries.length).toNat = entries.length := UInt32.toNat_ofNat_of_lt' (by
    show entries.length < 2 ^ 32
    omega)
  have hhead : ((indexPayload entries).drop 0).take 4 = bigEndian 4 (UInt32.ofNat entries.length).toNat := by
    rw [List.drop_zero, indexPayload, List.append_assoc, List.take_left' (length_bigEndian _ _)]
  unfold parseIndex
  refine follows_require (fun _ => ?_) fun hno => absurd (by omega) hno
  refine follows_next (u32be_follows (by omega) (by omega)) ?_
  rw [hhead, u32be_bigEndian, hcount]
  refine follows_next (follows_mulUsize (by omega)) (follows_next (follows_addUsize (by omega)) ?_)
  refine follows_require (fun _ => ?_) fun hno => absurd (by omega) hno
  refine follows_next (a := entries.flatMap fun e => asBytes e.2 ++ [0]) ?_ ?_
  · have hbehind : (indexPayload entries).drop (4 + 4 * entries.length) = entries.flatMap fun e => asBytes e.2 ++ [0] :=
      List.drop_left' (by rw [List.length_append, length_bigEndian, length_offsets])
    have hrange := follows_range (σ := Unit) (ε := String) hlong le_rfl
    rwa [hbehind, List.take_of_length_le (by rw [← hbehind, List.length_drop])] at hrange
  rw [splitZero_names hfree]
  have hentries : (List.range entries.length).map (fun i => ((entries.getD i default).2, (entries.getD i default).1)) =
      entries.map fun e => (e.2, e.1) := by
    refine List.ext_getElem (by simp) fun i hi _ => ?_
    simp at hi
    simp [hi]
  rw [← hentries]
  refine follows_next (follows_each_map fun i hi => ?_) (follows_pure _)
  have hi := List.mem_range.mp hi
  refine follows_next (follows_mulUsize (by omega)) (follows_next (follows_addUsize (by omega)) ?_)
  refine follows_next (u32be_follows (by omega) (by omega)) ?_
  have hname : (entries.map (fun e => asBytes e.2) ++ [[]])[i]? = some (asBytes entries[i].2) := by
    rw [List.getElem?_append_left (by rwa [List.length_map]), List.getElem?_map, List.getElem?_eq_getElem hi]
    rfl
  rw [indexPayload_offset hi, u32be_bigEndian, hname, List.getD, List.getElem?_eq_getElem hi, Option.getD_some]
  refine follows_next (follows_pure _) ?_
  rw [fromUtf8Lossy_asBytes]
  exact follows_pure _

end

end BuildYourOwn.Link.Archive
