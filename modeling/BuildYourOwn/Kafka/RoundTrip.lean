import BuildYourOwn.Kafka.Records

/-!
# Record batches round-trip

`RecordBatch::decode` against `RecordBatch::encode`, and `decode_all` against `encode_batches`.

* A batch is `Plain` when no header field is forced and its codec can be undone, and it `Fits` when its
  length, its record count and the length of each record fit an `i32`. The lengths inside a record then
  fit too: what is counted stands in the record's bytes.

Result: `record_batches_round_trip`.
-/

namespace BuildYourOwn.Kafka

open Lib Lib.Reader

/-! ## What is counted is there -/

theorem length_putUvarlong_pos (v : BitVec 64) : 1 ≤ (putUvarlong v).length := by
  rw [putUvarlong]
  split
  · exact Nat.le_add_left 1 _
  · exact Nat.le_refl 1

theorem length_le_putNullable {v : Option Bytes} : ∀ b ∈ v, b.length ≤ (putNullable v).length := by
  intro b hb
  cases hb
  unfold putNullable
  rw [List.length_append]
  exact Nat.le_add_left _ _

theorem length_le_flatMap {α : Type} {enc : α → Bytes} {as : List α} {a : α} (h : a ∈ as) :
    (enc a).length ≤ (as.flatMap enc).length := by
  obtain ⟨s, t, rfl⟩ := List.append_of_mem h
  rw [List.flatMap_append, List.flatMap_cons, List.length_append, List.length_append]
  omega

theorem count_le_flatMap {α : Type} {enc : α → Bytes} (as : List α)
    (h : ∀ a ∈ as, 1 ≤ (enc a).length) : as.length ≤ (as.flatMap enc).length := by
  induction as with
  | nil => exact Nat.le_refl 0
  | cons a as ih =>
    have hlen := h a List.mem_cons_self
    have hrest := ih fun b hb => h b (List.mem_cons_of_mem a hb)
    rw [List.flatMap_cons, List.length_append, List.length_cons]
    omega

theorem length_le_headers (hs : List (String × Option Bytes)) : hs.length ≤ (hs.flatMap encodeHeader).length := by
  refine count_le_flatMap hs fun h _ => ?_
  have hpos := length_putUvarlong_pos ((zigzag (BitVec.ofNat 32 (asBytes h.1).length)).setWidth 64)
  unfold encodeHeader putVarint
  rw [List.length_append, List.length_append]
  omega

theorem length_le_encodeRecord (r : RecordItem) :
    1 ≤ (encodeRecord r).length ∧ (recordBody r).length ≤ (encodeRecord r).length := by
  have hpos := length_putUvarlong_pos ((zigzag (BitVec.ofNat 32 (recordBody r).length)).setWidth 64)
  unfold encodeRecord putVarint
  rw [List.length_append]
  omega

/-- `buf[c.pos..stop]`, when so much is there. -/
theorem slice_eq (before covered rest : Bytes) {stop : Nat} (hstop : stop = before.length + covered.length) :
    slice stop ⟨before ++ (covered ++ rest), before.length⟩ =
      .ok (covered, ⟨before ++ (covered ++ rest), before.length⟩) := by
  subst hstop
  unfold slice
  rw [if_pos ⟨Nat.le_add_right _ _, by simp only [List.length_append]; omega⟩, List.drop_left,
    Nat.add_sub_cancel_left, List.take_left]

theorem sliceOrDefault_eq (before covered rest : Bytes) {stop : Nat} (hstop : stop = before.length + covered.length) :
    sliceOrDefault stop ⟨before ++ (covered ++ rest), before.length⟩ =
      .ok (covered, ⟨before ++ (covered ++ rest), before.length⟩) := by
  subst hstop
  unfold sliceOrDefault
  rw [if_pos ⟨Nat.le_add_right _ _, by simp only [List.length_append]; omega⟩, List.drop_left,
    Nat.add_sub_cancel_left, List.take_left]

theorem length_fields (b : RecordBatch) : b.fields.length = 40 := by
  unfold RecordBatch.fields
  simp only [List.length_append, length_toBytes]

/-! ## Records -/

section variable [Crates]

theorem fromUtf8_asBytes (k : String) : fromUtf8 (asBytes k) = .ok k := by
  unfold fromUtf8
  rw [fromUTF8_asBytes]

theorem fromUtf8_proper {bytes : Bytes} {e : Failure} (h : fromUtf8 bytes = .error e) : e.Proper := by
  unfold fromUtf8 at h
  split at h
  · cases h
  · cases h
    exact Failure.proper_error _

theorem header_reads {h : String × Option Bytes} (hfit : (encodeHeader h).length < 2 ^ 31) (i : Nat) :
    Reads (decodeHeader i) (encodeHeader h) h := by
  have hlen : (putVarint (BitVec.ofNat 32 (asBytes h.1).length)).length +
      ((asBytes h.1).length + (putNullable h.2).length) < 2 ^ 31 := by
    unfold encodeHeader at hfit
    rw [List.length_append, List.length_append] at hfit
    omega
  have hkey : (asBytes h.1).length < 2 ^ 31 := by omega
  have hvalue : ∀ b ∈ h.2, b.length < 2 ^ 31 := by
    intro b hb
    have hle := length_le_putNullable b hb
    omega
  intro before rest
  unfold decodeHeader encodeHeader
  rw [List.append_assoc]
  refine (context_reads _ (varint_reads _)).andThen ?_
  refine ReadsAt.require (by rw [toInt_length hkey]; omega) ?_
  refine (context_reads _ (take_reads (toNat_length hkey).symm)).andThen ?_
  have hutf8 (text : String) : Reads (context text (lift (fromUtf8 (asBytes h.1)))) [] h.1 := by
    rw [fromUtf8_asBytes]
    exact context_reads text (Reads.pure h.1)
  rw [← List.nil_append (putNullable h.2)]
  refine (hutf8 _).andThen ?_
  exact (context_reads _ (nullable_reads hvalue)).map _ _ _

variable {r : RecordItem}

theorem fields_reads (hfit : (recordBody r).length < 2 ^ 31) : Reads decodeFields (recordBody r) r := by
  have hlen : (putNullable r.key).length + (putNullable r.value).length +
      (r.headers.flatMap encodeHeader).length < 2 ^ 31 := by
    unfold recordBody at hfit
    simp only [List.length_append] at hfit
    omega
  have hkey : ∀ b ∈ r.key, b.length < 2 ^ 31 := by
    intro b hb
    have hle := length_le_putNullable b hb
    omega
  have hvalue : ∀ b ∈ r.value, b.length < 2 ^ 31 := by
    intro b hb
    have hle := length_le_putNullable b hb
    omega
  have hcount : r.headers.length < 2 ^ 31 := by
    have hle := length_le_headers r.headers
    omega
  have hheaders : Reads (collect decodeHeader 0 r.headers.length)
      (r.headers.flatMap encodeHeader) r.headers := by
    refine Reads.collect r.headers 0 fun i h hmem => header_reads ?_ i
    have hle : (encodeHeader h).length ≤ (r.headers.flatMap encodeHeader).length :=
      length_le_flatMap hmem
    omega
  intro before rest
  unfold decodeFields recordBody
  simp only [List.append_assoc]
  refine (context_reads _ (i8_reads _)).andThen ?_
  refine (context_reads _ (varlong_reads _)).andThen ?_
  refine (context_reads _ (varint_reads _)).andThen ?_
  refine (context_reads _ (nullable_reads hkey)).andThen ?_
  refine (context_reads _ (nullable_reads hvalue)).andThen ?_
  refine (context_reads _ (varint_reads _)).andThen ?_
  refine ReadsAt.require (by rw [toInt_length hcount]; omega) ?_
  rw [toNat_length hcount]
  exact hheaders.map (fun headers => { r with headers }) _ _

theorem reads_record {length fields : Bytes} {n : BitVec 32}
    (hlength : Reads varint length n) (hn : 0 ≤ n.toInt) (hfields : Reads decodeFields fields r)
    (hlen : n.toNat = fields.length) : Reads decodeRecord (length ++ fields) r := by
  intro before rest
  unfold decodeRecord
  refine (context_reads _ hlength).andThen ?_
  refine ReadsAt.require hn (ReadsAt.here ?_)
  rw [hlen]
  refine ReadsAt.require ?_ ?_
  · simp only [List.length_append]
    omega
  rw [← List.append_nil fields]
  refine hfields.andThen (ReadsAt.here ?_)
  refine ReadsAt.require ?_ ?_
  · simp only [List.length_append, List.length_nil, Nat.add_zero]
  exact Reads.pure r _ _

theorem record_reads (hfit : (recordBody r).length < 2 ^ 31) : Reads decodeRecord (encodeRecord r) r :=
  reads_record (varint_reads _) (by rw [toInt_length hfit]; omega) (fields_reads hfit)
    (toNat_length hfit)

theorem decodeRecords_ok {records : List RecordItem} (hcount : records.length < 2 ^ 31)
    (hfit : ∀ r ∈ records, (recordBody r).length < 2 ^ 31) :
    decodeRecords (BitVec.ofNat 32 records.length) (records.flatMap encodeRecord) = .ok (records, 0) := by
  have hloop : Reads (collect (fun i => context s!"records[{i}]" decodeRecord) 0 records.length)
      (records.flatMap encodeRecord) records :=
    Reads.collect records 0 fun i r hr => context_reads _ (record_reads (hfit r hr))
  have hread := hloop [] []
  unfold ReadsAt at hread
  rw [List.nil_append, List.append_nil, List.length_nil] at hread
  unfold decodeRecords
  rw [toNat_length hcount, hread]
  simp only [Nat.zero_add, Nat.sub_self]

/-! ## Batches -/

def Compression.Lossless (c : Compression) : Prop :=
  ∀ raw, ∃ packed, c.compress raw = .ok packed ∧ c.decompress packed = .ok raw

structure RecordBatch.Plain (b : RecordBatch) : Prop where
  recordCount : b.recordCountOverride = none
  crc : b.crcOverride = none
  codec : b.compression.toNat ≤ 4
  lossless : ∀ c, compressor b.compression = some c → c.Lossless

/-- What the header and the records count fits in an `i32`. -/
structure RecordBatch.Fits (b : RecordBatch) : Prop where
  batchLength : b.encode.length < 12 + 2 ^ 31
  recordCount : b.records.length < 2 ^ 31
  records : ∀ r ∈ b.records, (recordBody r).length < 2 ^ 31

theorem compressor_some {codec : BitVec 16} (hsome : codec ≠ noCompression) (h : codec.toNat ≤ 4) :
    ∃ c, compressor codec = some c := by
  have hcodec : codec = 1 ∨ codec = 2 ∨ codec = 3 ∨ codec = 4 := by
    have hne : codec.toNat ≠ 0 := fun hzero => hsome (BitVec.eq_of_toNat_eq hzero)
    obtain hone | htwo | hthree | hfour :
        codec.toNat = 1 ∨ codec.toNat = 2 ∨ codec.toNat = 3 ∨ codec.toNat = 4 := by omega
    · exact .inl (BitVec.eq_of_toNat_eq hone)
    · exact .inr (.inl (BitVec.eq_of_toNat_eq htwo))
    · exact .inr (.inr (.inl (BitVec.eq_of_toNat_eq hthree)))
    · exact .inr (.inr (.inr (BitVec.eq_of_toNat_eq hfour)))
  obtain rfl | rfl | rfl | rfl := hcodec <;> exact ⟨_, rfl⟩

variable {b : RecordBatch}

/-- **The payload** is the records again, once decompressed. -/
theorem payload_ok (h : b.Plain) (hcount : b.records.length < 2 ^ 31)
    (hfit : ∀ r ∈ b.records, (recordBody r).length < 2 ^ 31) : ∃ payload, b.payload = .ok payload ∧
      decodePayload b.compression (BitVec.ofNat 32 b.records.length) payload = .ok b.records := by
  have hrecords := decodeRecords_ok hcount hfit
  by_cases hnone : b.compression = noCompression
  · refine ⟨b.records.flatMap encodeRecord, if_pos hnone, ?_⟩
    unfold decodePayload
    rw [if_pos hnone]
    show (decodeRecords _ _ >>= _) = _
    rw [hrecords]
    rfl
  · obtain ⟨c, hc⟩ := compressor_some hnone h.codec
    obtain ⟨packed, hpack, hunpack⟩ := h.lossless c hc (b.records.flatMap encodeRecord)
    have hcompress : compressRecords b.compression (b.records.flatMap encodeRecord) = .ok packed := by
      unfold compressRecords
      rw [if_neg hnone, hc]
      exact hpack
    have hdecompress : decompressRecords b.compression packed =
        .ok (b.records.flatMap encodeRecord) := by
      unfold decompressRecords
      rw [if_neg hnone, hc]
      exact hunpack
    refine ⟨packed, ?_, ?_⟩
    · unfold RecordBatch.payload
      rw [if_neg hnone, hcompress]
      rfl
    · unfold decodePayload
      rw [if_neg hnone, hdecompress]
      show (decodeRecords _ _ >>= _) = _
      rw [hrecords]
      rfl

theorem body_reads {payload : Bytes} (h : b.Plain) (hcount : b.records.length < 2 ^ 31)
    (hpayload : decodePayload b.compression (BitVec.ofNat 32 b.records.length) payload =
      .ok b.records) (before rest : Bytes) {total : Nat} (htotal : total = before.length + (b.body payload).length) :
    ReadsAt (decodeBody b.baseOffset b.partitionLeaderEpoch total) before b.fields (payload ++ rest) b := by
  have hfields : b.fields = toBytes 2 b.attributes ++ (toBytes 4 b.lastOffsetDelta ++
      (toBytes 8 b.baseTimestamp ++ (toBytes 8 b.maxTimestamp ++ (toBytes 8 b.producerId ++
        (toBytes 2 b.producerEpoch ++ (toBytes 4 b.baseSequence ++
          (toBytes 4 (BitVec.ofNat 32 b.records.length) ++ []))))))) := by
    unfold RecordBatch.fields
    simp only [h.recordCount, Option.getD_none, List.append_assoc, List.append_nil]
  unfold RecordBatch.body at htotal
  rw [hfields] at htotal ⊢
  unfold decodeBody
  refine (context_reads _ (i16_reads _)).andThen ?_
  refine (context_reads _ (i32_reads _)).andThen ?_
  refine (context_reads _ (i64_reads _)).andThen ?_
  refine (context_reads _ (i64_reads _)).andThen ?_
  refine (context_reads _ (i64_reads _)).andThen ?_
  refine (context_reads _ (i16_reads _)).andThen ?_
  refine (context_reads _ (i32_reads _)).andThen ?_
  refine (context_reads _ (i32_reads _)).andThen ?_
  refine ReadsAt.require (by rw [toInt_length hcount]; omega) ?_
  refine ReadsAt.peek (sliceOrDefault_eq _ payload rest ?_) ?_
  · rw [htotal]
    simp only [List.length_append, List.length_nil, Nat.add_zero, Nat.add_assoc]
  refine ReadsAt.lift hpayload ?_
  have hbatch : { b with recordCountOverride := none, crcOverride := none } = b := by
    cases b
    congr
    · exact h.recordCount.symm
    · exact h.crc.symm
  have hdone : Reads (Pure.pure { b with recordCountOverride := none, crcOverride := none } :
      Read RecordBatch) [] b := by
    rw [hbatch]
    exact Reads.pure b
  exact hdone _ _

def RecordBatch.front (b : RecordBatch) (payload : Bytes) : Bytes :=
  toBytes 8 b.baseOffset ++ (toBytes 4 (BitVec.ofNat 32 (4 + 1 + 4 + (b.body payload).length)) ++
    (toBytes 4 b.partitionLeaderEpoch ++ (toBytes 1 magicV2 ++
      toBytes 4 (Crates.crc32c (b.body payload)))))

theorem frame_eq (h : b.crcOverride = none) (payload : Bytes) :
    b.frame payload = b.front payload ++ (b.fields ++ payload) := by
  unfold RecordBatch.frame RecordBatch.front RecordBatch.body
  simp only [h, Option.getD_none, List.append_assoc]

theorem length_frame (h : b.crcOverride = none) (payload : Bytes) :
    (b.frame payload).length = 12 + (4 + 1 + 4 + (b.body payload).length) := by
  rw [frame_eq h]
  unfold RecordBatch.front RecordBatch.body
  simp only [List.length_append, length_toBytes]
  omega

theorem batch_reads {payload : Bytes} (h : b.Plain) (hcount : b.records.length < 2 ^ 31)
    (hpayload : decodePayload b.compression (BitVec.ofNat 32 b.records.length) payload =
      .ok b.records) (hlength : (b.frame payload).length < 12 + 2 ^ 31) (rest : Bytes) :
    ReadsAt decodeBatch [] (b.front payload ++ b.fields) (payload ++ rest) (b, (b.frame payload).length) := by
  have hsize := length_frame h.crc payload
  have hcounted : 4 + 1 + 4 + (b.body payload).length < 2 ^ 31 := by omega
  -- the CRC is over what stands from here to the end of the batch
  have hcovered : b.fields ++ [] ++ (payload ++ rest) = b.body payload ++ rest := by
    unfold RecordBatch.body
    rw [List.append_nil, List.append_assoc]
  have hfront : b.front payload ++ b.fields = toBytes 8 b.baseOffset ++
      (toBytes 4 (BitVec.ofNat 32 (4 + 1 + 4 + (b.body payload).length)) ++
        (toBytes 4 b.partitionLeaderEpoch ++ (toBytes 1 magicV2 ++
          (toBytes 4 (Crates.crc32c (b.body payload)) ++ (b.fields ++ []))))) := by
    unfold RecordBatch.front
    simp only [List.append_assoc, List.append_nil]
  rw [hfront]
  unfold decodeBatch
  refine (context_reads _ (i64_reads _)).andThen ?_
  refine (context_reads _ (i32_reads _)).andThen ?_
  refine ReadsAt.require ?_ (ReadsAt.here ?_)
  · rw [toInt_length hcounted]
    unfold batchHeaderAfterLength RecordBatch.body
    rw [List.length_append, length_fields]
    omega
  have htotal : ([] ++ toBytes 8 b.baseOffset ++
      toBytes 4 (BitVec.ofNat 32 (4 + 1 + 4 + (b.body payload).length))).length +
        (4 + 1 + 4 + (b.body payload).length) = (b.frame payload).length := by
    rw [hsize]
    simp only [List.length_append, length_toBytes, List.length_nil]
  rw [toNat_length hcounted, htotal]
  refine ReadsAt.require ?_ ?_
  · rw [hsize]
    unfold RecordBatch.body
    simp only [List.length_append, length_toBytes, List.length_nil]
    omega
  refine (context_reads _ (i32_reads _)).andThen ?_
  refine (context_reads _ (i8_reads _)).andThen ?_
  refine ReadsAt.require rfl ?_
  refine (context_reads _ (i32_reads _)).andThen ?_
  refine ReadsAt.peek (a := b.body payload) ?_ (ReadsAt.require rfl ?_)
  · rw [hcovered]
    refine slice_eq _ _ rest ?_
    rw [hsize]
    simp only [List.length_append, length_toBytes, List.length_nil]
    omega
  refine ReadsAt.andThen ?_ (Reads.pure _ _ _)
  refine body_reads h hcount hpayload _ rest ?_
  rw [hsize]
  simp only [List.length_append, length_toBytes, List.length_nil]
  omega

theorem encode_eq (h : b.Plain) (hfits : b.Fits) : ∃ payload, b.encode = b.frame payload ∧
      decodePayload b.compression (BitVec.ofNat 32 b.records.length) payload = .ok b.records := by
  obtain ⟨payload, hpayload, hdecode⟩ := payload_ok h hfits.recordCount hfits.records
  refine ⟨payload, ?_, hdecode⟩
  have htry : b.tryEncode = .ok (b.frame payload) := by
    unfold RecordBatch.tryEncode
    rw [hpayload]
    rfl
  unfold RecordBatch.encode
  rw [htry]

/-- **What is written decodes** to the batch, whatever follows it. -/
theorem decode_encode (h : b.Plain) (hfits : b.Fits) (rest : Bytes) :
    RecordBatch.decode (b.encode ++ rest) = .ok (b, b.encode.length) := by
  obtain ⟨payload, hencode, hdecode⟩ := encode_eq h hfits
  have hlength := hfits.batchLength
  rw [hencode] at hlength ⊢
  have hread := batch_reads h hfits.recordCount hdecode hlength rest
  have hbuf : b.frame payload ++ rest = [] ++ (b.front payload ++ b.fields ++ (payload ++ rest)) := by
    rw [frame_eq h.crc, List.nil_append]
    simp only [List.append_assoc]
  unfold ReadsAt at hread
  rw [← hbuf] at hread
  have hrun : decodeBatch ⟨b.frame payload ++ rest, 0⟩ = _ := hread
  unfold RecordBatch.decode
  rw [hrun]

theorem encode_length (h : b.Plain) (hfits : b.Fits) : 12 ≤ b.encode.length := by
  obtain ⟨payload, hencode, _⟩ := encode_eq h hfits
  rw [hencode, length_frame h.crc]
  exact Nat.le_add_right _ _

/-- **The loop of `decode_all`** decodes the batches that still stand in front of it. -/
theorem decodeAllFrom_ok {buf : Bytes} (bs : List RecordBatch) :
    (∀ b ∈ bs, b.Plain ∧ b.Fits) → ∀ pos, buf.drop pos = encodeBatches bs → decodeAllFrom buf pos = .ok bs := by
  induction bs with
  | nil =>
    intro _ pos hdrop
    have hshort : buf.length ≤ pos := List.drop_eq_nil_iff.1 hdrop
    rw [decodeAllFrom, if_neg (by omega)]
  | cons b bs ih =>
    intro h pos hdrop
    obtain ⟨hplain, hfits⟩ := h b List.mem_cons_self
    have hlen := encode_length hplain hfits
    have hcons : buf.drop pos = b.encode ++ encodeBatches bs := hdrop
    have hleft : buf.length - pos = b.encode.length + (encodeBatches bs).length := by
      rw [← List.length_drop, hcons, List.length_append]
    have hdecode : RecordBatch.decode (buf.drop pos) = .ok (b, b.encode.length) := by
      rw [hcons]
      exact decode_encode hplain hfits _
    have hrest : buf.drop (pos + b.encode.length) = encodeBatches bs := by
      rw [← List.drop_drop, hcons, List.drop_left]
    have htail := ih (fun b' hb' => h b' (List.mem_cons_of_mem b hb')) _ hrest
    rw [decodeAllFrom, if_pos (by omega)]
    split
    · rename_i e he
      rw [hdecode] at he
      cases he
    · rename_i b' used hb'
      rw [hdecode] at hb'
      cases hb'
      rw [htail]

/-- **Record batches round-trip**: each decodes from its bytes, whatever follows them, and a run of them
decodes to itself. -/
theorem record_batches_round_trip (bs : List RecordBatch) (h : ∀ b ∈ bs, b.Plain ∧ b.Fits) :
    (∀ b ∈ bs, ∀ rest, RecordBatch.decode (b.encode ++ rest) = .ok (b, b.encode.length)) ∧
      RecordBatch.decodeAll (encodeBatches bs) = .ok bs := by
  constructor
  · intro b hb rest
    obtain ⟨hplain, hfits⟩ := h b hb
    exact decode_encode hplain hfits rest
  · exact decodeAllFrom_ok bs h 0 rfl

end

/-! ## Two batches -/

def crcBit (crc : BitVec 32) : BitVec 32 :=
  if crc &&& 1 = 1 then (crc >>> 1) ^^^ 0x82f63b78 else crc >>> 1

def crc32c (bytes : Bytes) : BitVec 32 :=
  ~~~bytes.foldl (fun crc b => Nat.repeat crcBit 8 (crc ^^^ b.toBitVec.setWidth 32)) 0xffffffff

def asItIs : Compression where
  compress raw := .ok raw
  decompress raw := .ok raw

/-- Enough for batches that are not compressed. -/
@[reducible] def uncompressed : Crates where
  crc32c := crc32c
  gzip := asItIs
  snappy := asItIs
  lz4 := asItIs
  zstd := asItIs
  utf8Error _ := "invalid utf-8 sequence"

def firstBatch : RecordBatch where
  baseOffset := 17
  partitionLeaderEpoch := 3
  attributes := 0
  lastOffsetDelta := 1
  baseTimestamp := 1700000000000
  maxTimestamp := 1700000000000
  producerId := -1
  producerEpoch := -1
  baseSequence := -1
  records :=
    [{ attributes := 0, timestampDelta := 0, offsetDelta := 0, key := some [0x6b],
       value := some [0x68, 0x69], headers := [] },
     { attributes := 0, timestampDelta := -5, offsetDelta := 1, key := some [], value := none,
       headers := [("h1", some [0x76]), ("h2", none)] }]
  recordCountOverride := none
  crcOverride := none

def secondBatch : RecordBatch :=
  { firstBatch with baseOffset := 19, attributes := 0x20, records := [] }

theorem record_batches_round_trip_two :
    (∀ b ∈ [firstBatch, secondBatch], ∀ rest,
      @RecordBatch.decode uncompressed (@RecordBatch.encode uncompressed b ++ rest) =
        .ok (b, (@RecordBatch.encode uncompressed b).length)) ∧
    @RecordBatch.decodeAll uncompressed (@encodeBatches uncompressed [firstBatch, secondBatch]) =
      .ok [firstBatch, secondBatch] := by
  let _ : Crates := uncompressed
  refine record_batches_round_trip [firstBatch, secondBatch] fun b hb => ?_
  obtain rfl | rfl : b = firstBatch ∨ b = secondBatch := by simpa using hb
  · refine ⟨⟨rfl, rfl, by decide, ?_⟩, by decide +kernel, by decide, by decide +kernel⟩
    intro c hc
    cases hc
  · refine ⟨⟨rfl, rfl, by decide, ?_⟩, by decide +kernel, by decide, by decide +kernel⟩
    intro c hc
    cases hc

end BuildYourOwn.Kafka
