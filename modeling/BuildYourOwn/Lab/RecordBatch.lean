import BuildYourOwn.Lab.Kafka
import BuildYourOwn.Lib.Tiling

/-!
# The lab's record batches

Model of `site/src/lib/lab/recordbatch.ts`: `encodeRecord`, `encodeRecordBatch` with its list of
fields, and `attributeNote`. Strings are well formed, so `TextEncoder` writes their UTF-8.

* `encodeRecord_eq`, `bytes_eq`: the bytes are those of the suite's own encoder, for the batch
  `batchOf records opts`. Nothing is asked of the options: what does not fit its field is cut as the
  suite's integers are.
* `tiles_fields`, `slices_fields`: the fields lie one after another over all of the bytes, and the
  one of a record covers its encoding.
-/

namespace BuildYourOwn.Lab

open Lib Kafka

structure Header where
  key : String
  value : String
  deriving DecidableEq, Repr

structure RecordInput where
  key : Option String
  value : String
  headers : Option (List Header) := none
  timestampDelta : Option Int := none
  deriving DecidableEq, Repr

inductive Codec where
  | none
  | gzip
  | snappy
  | lz4
  | zstd
  deriving DecidableEq, Repr

/-- How a template prints it. -/
def Codec.text : Codec → String
  | .none => "none"
  | .gzip => "gzip"
  | .snappy => "snappy"
  | .lz4 => "lz4"
  | .zstd => "zstd"

def codecBits : Codec → Nat
  | .none => 0
  | .gzip => 1
  | .snappy => 2
  | .lz4 => 3
  | .zstd => 4

inductive Group where
  | header
  | record
  deriving DecidableEq, Repr

structure BatchField where
  name : String
  start : Nat
  length : Nat
  value : String
  note : Option String
  group : Group
  deriving DecidableEq, Repr

structure BatchOptions where
  baseOffset : Option Int := none
  baseTimestamp : Option Int := none
  producerId : Option Int := none
  producerEpoch : Option Int := none
  baseSequence : Option Int := none
  codec : Option Codec := none
  transactional : Option Bool := none
  control : Option Bool := none
  compressedPayload : Option Bytes := none
  deriving DecidableEq, Repr

structure EncodedBatch where
  bytes : Bytes
  fields : List BatchField
  crc : Nat
  attributes : Nat
  recordsPayload : Bytes

/-! ## Records -/

/-- One turn of the headers' loop in `encodeRecord`. -/
def writeHeader (body : Writer) (h : Header) : Writer :=
  let hk := asBytes h.key
  let body := (body.raw (encodeZigZagVarint hk.length)).raw hk
  let hv := asBytes h.value
  (body.raw (encodeZigZagVarint hv.length)).raw hv

def encodeRecord (rec : RecordInput) (offsetDelta : Nat) : Bytes :=
  let body : Writer := {}
  let body := body.i8 0
  let body := body.raw (encodeZigZagVarint (rec.timestampDelta.getD offsetDelta))
  let body := body.raw (encodeZigZagVarint offsetDelta)
  let body := match rec.key with
    | none => body.raw (encodeZigZagVarint (-1))
    | some key =>
      let k := asBytes key
      (body.raw (encodeZigZagVarint k.length)).raw k
  let v := asBytes rec.value
  let body := (body.raw (encodeZigZagVarint v.length)).raw v
  let headers := rec.headers.getD []
  let body := body.raw (encodeZigZagVarint headers.length)
  let body := headers.foldl writeHeader body
  let inner := body.bytes
  let out : Writer := {}
  ((out.raw (encodeZigZagVarint inner.length)).raw inner).bytes

/-! ## Texts -/

/-- `toString(16).padStart(w, '0')`. -/
def hex (w n : Nat) : String := String.ofList (List.leftpad w '0' (Nat.toDigits 16 n))

/-- One character in `JSON.stringify` of a string. -/
def escape (c : Char) : String :=
  match c.toNat with
  | 0x22 => "\\\""
  | 0x5c => "\\\\"
  | 0x08 => "\\b"
  | 0x09 => "\\t"
  | 0x0a => "\\n"
  | 0x0c => "\\f"
  | 0x0d => "\\r"
  | n => if n < 0x20 then "\\u" ++ hex 4 n else String.singleton c

/-- `JSON.stringify` of a string. -/
def stringify (s : String) : String := "\"" ++ String.join (s.toList.map escape) ++ "\""

def attributeNote (codec : Codec) (transactional control : Bool) : String :=
  s!"bits 0-2 = {codecBits codec} ({codec.text}), " ++
    s!"bit 4 transactional = {transactional.toNat}, bit 5 control = {control.toNat}"

/-! ## The list of fields -/

/-- `fields`, and `at`. -/
structure Layout where
  fields : List BatchField := []
  next : Nat := 0

def Layout.f (m : Layout) (name : String) (length : Nat) (value : String) (note : Option String)
    (group : Group) : Layout where
  fields := m.fields ++ [⟨name, m.next, length, value, note, group⟩]
  next := m.next + length

def Layout.record (m : Layout) (i : Nat) (rec : RecordInput) : Layout :=
  m.f s!"record[{i}]" (encodeRecord rec i).length
    (match rec.key with
      | none => "value " ++ stringify rec.value
      | some key => stringify key ++ " → " ++ stringify rec.value)
    (some "length, attributes, timestamp delta, offset delta, key, value, headers — all varints")
    .record

/-! ## Batches -/

/-- `Math.max(0, records.length - 1)`. -/
def lastDelta (records : List RecordInput) : Int := max 0 ((records.length : Int) - 1)

/-- `uncompressed`. -/
def recordsPayload (records : List RecordInput) : Bytes :=
  ((records.zipIdx).foldl (fun (plain : Writer) r => plain.raw (encodeRecord r.1 r.2)) {}).bytes

/-- `attributes`. -/
def attributesOf (opts : BatchOptions) : Nat :=
  let attributes := codecBits (opts.codec.getD .none) &&& 0x07
  let attributes := if opts.transactional.getD false then attributes ||| 1 <<< 4 else attributes
  if opts.control.getD false then attributes ||| 1 <<< 5 else attributes

/-- `afterCrcBytes`: everything after the CRC field, which is what the CRC covers. -/
def afterCrc (records : List RecordInput) (opts : BatchOptions) (payload : Bytes) : Bytes :=
  let w : Writer := {}
  let w := w.i16 (attributesOf opts)
  let w := w.i32 (lastDelta records)
  let w := w.i64 (opts.baseTimestamp.getD 1757721600000)
  let w := w.i64 (opts.baseTimestamp.getD 1757721600000 + lastDelta records)
  let w := w.i64 (opts.producerId.getD (-1))
  let w := w.i16 (opts.producerEpoch.getD (-1))
  let w := w.i32 (opts.baseSequence.getD (-1))
  let w := w.i32 records.length
  (w.raw payload).bytes

/-- The header's part of `fields`. -/
def headerFields (records : List RecordInput) (opts : BatchOptions) (batchLength crc : Nat) :
    Layout :=
  let codec := opts.codec.getD .none
  let baseTimestamp := opts.baseTimestamp.getD 1757721600000
  let m : Layout := {}
  let m := m.f "base_offset" 8 (toString (opts.baseOffset.getD 0))
    (some "the broker rewrites this when it appends the batch") .header
  let m := m.f "batch_length" 4 (toString batchLength) (some "bytes after this field") .header
  let m := m.f "partition_leader_epoch" 4 "-1" (some "set by the leader, -1 from a producer") .header
  let m := m.f "magic" 1 "2" (some "the v2 record batch format") .header
  let m := m.f "crc" 4 ("0x" ++ hex 8 crc)
    (some "CRC32C (Castagnoli) over every byte after this one") .header
  let m := m.f "attributes" 2 ("0x" ++ hex 4 (attributesOf opts))
    (some (attributeNote codec (opts.transactional.getD false) (opts.control.getD false))) .header
  let m := m.f "last_offset_delta" 4 (toString (lastDelta records)) (some "record_count - 1") .header
  let m := m.f "base_timestamp" 8 (toString baseTimestamp) none .header
  let m := m.f "max_timestamp" 8 (toString (baseTimestamp + lastDelta records)) none .header
  let m := m.f "producer_id" 8 (toString (opts.producerId.getD (-1)))
    (some "from InitProducerId; -1 when not idempotent") .header
  let m := m.f "producer_epoch" 2 (toString (opts.producerEpoch.getD (-1))) none .header
  let m := m.f "base_sequence" 4 (toString (opts.baseSequence.getD (-1)))
    (some "the idempotence counter (stage 36)") .header
  m.f "record_count" 4 (toString records.length) none .header

def recordFields (records : List RecordInput) (opts : BatchOptions) (m : Layout) : Layout :=
  match opts.compressedPayload with
  | some payload =>
    m.f s!"records ({(opts.codec.getD .none).text})" payload.length
      s!"{payload.length} bytes, was {(recordsPayload records).length}"
      (some "the whole record run is compressed as one blob, not per record") .record
  | none => (records.zipIdx).foldl (fun m r => m.record r.2 r.1) m

def encodeRecordBatch (records : List RecordInput) (opts : BatchOptions) : EncodedBatch :=
  let payload := opts.compressedPayload.getD (recordsPayload records)
  let afterCrcBytes := afterCrc records opts payload
  let crc := crc32c afterCrcBytes 0
  let batchLength := 4 + 1 + 4 + afterCrcBytes.length
  let w : Writer := {}
  let w := w.i64 (opts.baseOffset.getD 0)
  let w := w.i32 batchLength
  let w := w.i32 (-1)
  let w := w.i8 2
  let w := w.u32 crc.toNat
  let w := w.raw afterCrcBytes
  { bytes := w.bytes
    fields := (recordFields records opts (headerFields records opts batchLength crc.toNat)).fields
    crc := crc.toNat
    attributes := attributesOf opts
    recordsPayload := payload }

/-! ## The same bytes as the suite's encoder -/

def itemOf (rec : RecordInput) (i : Nat) : RecordItem where
  attributes := 0
  timestampDelta := (BitVec.ofInt 32 (rec.timestampDelta.getD i)).signExtend 64
  offsetDelta := BitVec.ofNat 32 i
  key := rec.key.map asBytes
  value := some (asBytes rec.value)
  headers := (rec.headers.getD []).map fun h => (h.key, some (asBytes h.value))

def batchOf (records : List RecordInput) (opts : BatchOptions) : RecordBatch where
  baseOffset := BitVec.ofInt 64 (opts.baseOffset.getD 0)
  partitionLeaderEpoch := -1
  attributes := BitVec.ofNat 16 (attributesOf opts)
  lastOffsetDelta := BitVec.ofInt 32 (lastDelta records)
  baseTimestamp := BitVec.ofInt 64 (opts.baseTimestamp.getD 1757721600000)
  maxTimestamp := BitVec.ofInt 64 (opts.baseTimestamp.getD 1757721600000 + lastDelta records)
  producerId := BitVec.ofInt 64 (opts.producerId.getD (-1))
  producerEpoch := BitVec.ofInt 16 (opts.producerEpoch.getD (-1))
  baseSequence := BitVec.ofInt 32 (opts.baseSequence.getD (-1))
  records := records.zipIdx.map fun r => itemOf r.1 r.2
  recordCountOverride := none
  crcOverride := none

theorem encodeZigZagVarint_length (n : Nat) : encodeZigZagVarint n = putVarint (BitVec.ofNat 32 n) := by
  rw [encodeZigZagVarint_eq, BitVec.ofInt_natCast]

theorem bytes_writeHeaders (headers : List Header) (body : Writer) :
    (headers.foldl writeHeader body).bytes = body.bytes ++
      (headers.map fun h => (h.key, some (asBytes h.value))).flatMap encodeHeader := by
  induction headers generalizing body with
  | nil => exact (List.append_nil _).symm
  | cons h headers ih =>
    rw [List.foldl_cons, ih, List.map_cons, List.flatMap_cons]
    unfold writeHeader encodeHeader
    simp only [Writer.bytes_raw, encodeZigZagVarint_length, putNullable, List.append_assoc]

/-- **A record** is written as the suite writes it. -/
theorem encodeRecord_eq (rec : RecordInput) (i : Nat) : encodeRecord rec i = Kafka.encodeRecord (itemOf rec i) := by
  have htime : encodeZigZagVarint (rec.timestampDelta.getD i) =
      putVarlong (itemOf rec i).timestampDelta := by
    rw [encodeZigZagVarint_eq, putVarint_eq]
    rfl
  have hnull : encodeZigZagVarint (-1) = putVarint (-1) := encodeZigZagVarint_eq (-1)
  have hcount : (itemOf rec i).headers.length = (rec.headers.getD []).length := List.length_map _
  unfold encodeRecord Kafka.encodeRecord recordBody
  rw [hcount, htime, hnull]
  cases hkey : rec.key <;>
    simp only [Writer.bytes_raw, Writer.bytes_i8, bytes_writeHeaders, encodeZigZagVarint_length,
      itemOf, hkey, Option.map_none, Option.map_some, putNullable, List.append_assoc,
      List.nil_append] <;> rfl

theorem bytes_raws {α : Type} (enc : α → Bytes) (xs : List α) (plain : Writer) :
    (xs.foldl (fun (plain : Writer) x => plain.raw (enc x)) plain).bytes = plain.bytes ++ xs.flatMap enc := by
  induction xs generalizing plain with
  | nil => exact (List.append_nil _).symm
  | cons x xs ih =>
    rw [List.foldl_cons, ih, Writer.bytes_raw, List.append_assoc]
    rfl

theorem recordsPayload_eq (records : List RecordInput) (opts : BatchOptions) :
    recordsPayload records = (batchOf records opts).records.flatMap Kafka.encodeRecord := by
  unfold recordsPayload batchOf
  rw [bytes_raws]
  change [] ++ _ = _
  rw [List.nil_append, List.flatMap_map]
  exact List.flatMap_congr fun r _ => encodeRecord_eq r.1 r.2

theorem afterCrc_eq (records : List RecordInput) (opts : BatchOptions) (payload : Bytes) :
    afterCrc records opts payload = (batchOf records opts).body payload := by
  unfold afterCrc RecordBatch.body RecordBatch.fields
  simp only [Writer.bytes_raw, Writer.bytes_i16, Writer.bytes_i32, Writer.bytes_i64, batchOf,
    Option.getD_none, BitVec.ofInt_natCast, List.length_map, List.length_zipIdx, List.append_assoc, List.nil_append]

def headerPieces (b : RecordBatch) (body : Bytes) : List Bytes :=
  [toBytes 8 b.baseOffset, toBytes 4 (BitVec.ofNat 32 (4 + 1 + 4 + body.length)),
    toBytes 4 b.partitionLeaderEpoch, toBytes 1 magicV2, toBytes 4 (Kafka.crc32c body),
    toBytes 2 b.attributes, toBytes 4 b.lastOffsetDelta, toBytes 8 b.baseTimestamp,
    toBytes 8 b.maxTimestamp, toBytes 8 b.producerId, toBytes 2 b.producerEpoch,
    toBytes 4 b.baseSequence, toBytes 4 (BitVec.ofNat 32 b.records.length)]

theorem bytes_pieces (records : List RecordInput) (opts : BatchOptions) :
    let payload := opts.compressedPayload.getD (recordsPayload records)
    (encodeRecordBatch records opts).bytes =
      (headerPieces (batchOf records opts) ((batchOf records opts).body payload)).flatten ++
        payload := by
  unfold encodeRecordBatch
  dsimp only
  rw [afterCrc_eq, crc32c_eq]
  simp only [Writer.bytes_raw, Writer.bytes_i8, Writer.bytes_i32, Writer.bytes_u32,
    Writer.bytes_i64, BitVec.ofInt_natCast, BitVec.ofNat_toNat, BitVec.setWidth_eq,
    RecordBatch.body, RecordBatch.fields, headerPieces, List.flatten_cons, List.flatten_nil,
    List.append_assoc, List.nil_append]
  rfl

theorem frame_pieces [Crates] (hcrc : Crates.crc32c = Kafka.crc32c) {b : RecordBatch}
    (hcount : b.recordCountOverride = none) (hover : b.crcOverride = none) (payload : Bytes) :
    b.frame payload = (headerPieces b (b.body payload)).flatten ++ payload := by
  unfold RecordBatch.frame headerPieces RecordBatch.body RecordBatch.fields
  rw [hover, hcount, hcrc]
  simp only [Option.getD_none, List.flatten_cons, List.flatten_nil, List.append_assoc,
    List.nil_append]

/-! ## The fields tile the bytes -/

/-- The fields so far lie one after another. -/
def Layout.Tiled (m : Layout) : Prop := Tiles BatchField.start BatchField.length 0 m.fields m.next

theorem Layout.Tiled.f {m : Layout} (h : m.Tiled) (name : String) (length : Nat) (value : String)
    (note : Option String) (group : Group) : (m.f name length value note group).Tiled :=
  Tiles.snoc h rfl rfl

theorem tiled_headerFields (records : List RecordInput) (opts : BatchOptions)
    (batchLength crc : Nat) : (headerFields records opts batchLength crc).Tiled := by
  have hempty : ({} : Layout).Tiled := Tiles.nil 0
  exact ((((((((((((hempty.f ..).f ..).f ..).f ..).f ..).f ..).f ..).f ..).f ..).f ..).f ..).f ..).f ..

theorem tiled_recordFields {records : List RecordInput} {opts : BatchOptions} {m : Layout}
    (h : m.Tiled) : (recordFields records opts m).Tiled := by
  unfold recordFields
  cases opts.compressedPayload with
  | some payload => exact h.f ..
  | none =>
    generalize records.zipIdx = rs
    induction rs generalizing m with
    | nil => exact h
    | cons r rs ih => exact ih (h.f ..)

theorem fields_records (rs : List (RecordInput × Nat)) (m : Layout) :
    (rs.foldl (fun m r => m.record r.2 r.1) m).fields.map (fun f => (f.name, f.length)) =
      m.fields.map (fun f => (f.name, f.length)) ++
        rs.map fun r => (s!"record[{r.2}]", (encodeRecord r.1 r.2).length) := by
  induction rs generalizing m with
  | nil => exact (List.append_nil _).symm
  | cons r rs ih =>
    rw [List.foldl_cons, ih]
    unfold Layout.record Layout.f
    rw [List.map_append, List.append_assoc]
    rfl

def headerNames : List (String × Nat) :=
  [("base_offset", 8), ("batch_length", 4), ("partition_leader_epoch", 4), ("magic", 1), ("crc", 4),
    ("attributes", 2), ("last_offset_delta", 4), ("base_timestamp", 8), ("max_timestamp", 8),
    ("producer_id", 8), ("producer_epoch", 2), ("base_sequence", 4), ("record_count", 4)]

theorem names_fields (records : List RecordInput) {opts : BatchOptions} (hplain : opts.compressedPayload = none) :
    (encodeRecordBatch records opts).fields.map (fun f => (f.name, f.length)) =
      headerNames ++ records.zipIdx.map fun r => (s!"record[{r.2}]", (encodeRecord r.1 r.2).length) := by
  unfold encodeRecordBatch recordFields
  rw [hplain]
  exact fields_records _ _

theorem length_headerPieces (b : RecordBatch) (body : Bytes) :
    (headerPieces b body).map List.length = headerNames.map Prod.snd := by
  unfold headerPieces
  simp only [List.map_cons, List.map_nil, length_toBytes]
  rfl

def BatchField.slice (bytes : Bytes) (f : BatchField) : Bytes := (bytes.drop f.start).take f.length

def pieces (records : List RecordInput) (opts : BatchOptions) : List Bytes :=
  headerPieces (batchOf records opts) ((batchOf records opts).body (recordsPayload records)) ++
    records.zipIdx.map fun r => encodeRecord r.1 r.2

theorem bytes_eq_pieces (records : List RecordInput) {opts : BatchOptions} (hplain : opts.compressedPayload = none) :
    (encodeRecordBatch records opts).bytes = (pieces records opts).flatten := by
  have hrun : (records.zipIdx.map fun r => encodeRecord r.1 r.2).flatten = recordsPayload records := by
    unfold recordsPayload
    rw [bytes_raws]
    rfl
  rw [bytes_pieces, pieces, List.flatten_append, hrun, hplain]
  rfl

theorem lengths_pieces (records : List RecordInput) {opts : BatchOptions} (hplain : opts.compressedPayload = none) :
    (pieces records opts).map List.length = (encodeRecordBatch records opts).fields.map BatchField.length := by
  have hnames := congrArg (List.map Prod.snd) (names_fields records hplain)
  rw [List.map_map, List.map_append, List.map_map] at hnames
  rw [pieces, List.map_append, length_headerPieces, List.map_map]
  exact hnames.symm

theorem tiles_fields (records : List RecordInput) {opts : BatchOptions} (hplain : opts.compressedPayload = none) :
    Tiles BatchField.start BatchField.length 0 (encodeRecordBatch records opts).fields
        (encodeRecordBatch records opts).bytes.length ∧
      (encodeRecordBatch records opts).fields.map
          (fun f => (f.name, f.slice (encodeRecordBatch records opts).bytes)) =
        (headerNames.map Prod.fst).zip (headerPieces (batchOf records opts)
            ((batchOf records opts).body (recordsPayload records))) ++
          records.zipIdx.map fun r => (s!"record[{r.2}]", encodeRecord r.1 r.2) := by
  have htiled : Tiles BatchField.start BatchField.length 0 (encodeRecordBatch records opts).fields _ :=
    tiled_recordFields (tiled_headerFields ..)
  have hlengths := lengths_pieces records hplain
  have hslices := htiled.pieces hlengths (List.length_nil (α := UInt8))
  have htotal := htiled.total
  rw [← hlengths, ← List.length_flatten, ← bytes_eq_pieces records hplain, Nat.zero_add] at htotal
  rw [htotal] at htiled
  refine ⟨htiled, ?_⟩
  have hnames := congrArg (List.map Prod.fst) (names_fields records hplain)
  rw [List.map_map, List.map_append, List.map_map] at hnames
  rw [List.nil_append, ← bytes_eq_pieces records hplain] at hslices
  calc (encodeRecordBatch records opts).fields.map
          (fun f => (f.name, f.slice (encodeRecordBatch records opts).bytes))
      = ((encodeRecordBatch records opts).fields.map BatchField.name).zip (pieces records opts) := by
        rw [← hslices, List.zip_map']
        rfl
    _ = (headerNames.map Prod.fst ++ records.zipIdx.map fun r => s!"record[{r.2}]").zip
          (pieces records opts) := congrArg (List.zip · _) hnames
    _ = _ := by
        rw [pieces, List.zip_append, List.zip_map']
        rfl

/-! ## The suite's decoder -/

theorem attributesOf_spec {opts : BatchOptions} (hcodec : opts.codec.getD .none = .none) :
    BitVec.ofNat 16 (attributesOf opts) &&& compressionMask = noCompression ∧
      (BitVec.ofNat 16 (attributesOf opts)).getLsbD 4 = opts.transactional.getD false ∧
      (BitVec.ofNat 16 (attributesOf opts)).getLsbD 5 = opts.control.getD false := by
  unfold attributesOf
  rw [hcodec]
  cases opts.transactional.getD false <;> cases opts.control.getD false <;> decide

theorem plain_batchOf [Crates] {records : List RecordInput} {opts : BatchOptions}
    (hcodec : opts.codec.getD .none = .none) : (batchOf records opts).Plain := by
  have hnone : (batchOf records opts).compression = noCompression := (attributesOf_spec hcodec).1
  refine ⟨rfl, rfl, ?_, fun c hc => ?_⟩
  · rw [hnone]
    exact Nat.zero_le _
  · rw [hnone] at hc
    cases hc

theorem encode_batchOf [Crates] (records : List RecordInput) {opts : BatchOptions}
    (hcodec : opts.codec.getD .none = .none) :
    (batchOf records opts).encode = (batchOf records opts).frame (recordsPayload records) := by
  have hnone : (batchOf records opts).compression = noCompression := (attributesOf_spec hcodec).1
  have htry : (batchOf records opts).tryEncode =
      .ok ((batchOf records opts).frame (recordsPayload records)) := by
    unfold RecordBatch.tryEncode RecordBatch.payload
    rw [if_pos hnone, ← recordsPayload_eq]
    rfl
  unfold RecordBatch.encode
  rw [htry]

/-- **The bytes** are what the suite's own encoder writes. -/
theorem bytes_eq_encode [Crates] (hcrc : Crates.crc32c = Kafka.crc32c) (records : List RecordInput)
    {opts : BatchOptions} (hcodec : opts.codec.getD .none = .none) (hplain : opts.compressedPayload = none) :
    (encodeRecordBatch records opts).bytes = (batchOf records opts).encode := by
  rw [encode_batchOf records hcodec, frame_pieces hcrc rfl rfl, bytes_pieces, hplain]
  rfl

theorem fits_batchOf [Crates] {records : List RecordInput} {opts : BatchOptions}
    (hcodec : opts.codec.getD .none = .none)
    (hsize : (batchOf records opts).encode.length < 12 + 2 ^ 31) : (batchOf records opts).Fits := by
  have hpayload : (recordsPayload records).length < 2 ^ 31 := by
    rw [encode_batchOf records hcodec, length_frame rfl] at hsize
    unfold RecordBatch.body at hsize
    rw [List.length_append] at hsize
    omega
  rw [recordsPayload_eq records opts] at hpayload
  refine ⟨hsize, ?_, fun r hr => ?_⟩
  · exact Nat.lt_of_le_of_lt
      (count_le_flatMap _ fun r _ => (length_le_encodeRecord r).1) hpayload
  · exact Nat.lt_of_le_of_lt (Nat.le_trans (length_le_encodeRecord r).2 (length_le_flatMap hr)) hpayload

theorem decode_bytes [Crates] (hcrc : Crates.crc32c = Kafka.crc32c) {records : List RecordInput}
    {opts : BatchOptions} (hcodec : opts.codec.getD .none = .none) (hplain : opts.compressedPayload = none)
    (hsize : (encodeRecordBatch records opts).bytes.length < 12 + 2 ^ 31) :
    RecordBatch.decode (encodeRecordBatch records opts).bytes =
      .ok (batchOf records opts, (encodeRecordBatch records opts).bytes.length) := by
  rw [bytes_eq_encode hcrc records hcodec hplain] at hsize ⊢
  have h := decode_encode (plain_batchOf hcodec) (fits_batchOf hcodec hsize) []
  rwa [List.append_nil] at h

theorem length_records_lt [Crates] (hcrc : Crates.crc32c = Kafka.crc32c) {records : List RecordInput}
    {opts : BatchOptions} (hcodec : opts.codec.getD .none = .none) (hplain : opts.compressedPayload = none)
    (hsize : (encodeRecordBatch records opts).bytes.length < 12 + 2 ^ 31) : records.length < 2 ^ 31 := by
  rw [bytes_eq_encode hcrc records hcodec hplain] at hsize
  have hcount := (fits_batchOf hcodec hsize).recordCount
  unfold batchOf at hcount
  rwa [List.length_map, List.length_zipIdx] at hcount

/-- **The suite's decoder takes what the lab encodes**, all of it, and gives back the options, as far
as they fit their fields, the two flags and the records in order; the list of fields tiles the bytes,
record by record. -/
theorem decode_encodeRecordBatch [Crates] (hcrc : Crates.crc32c = Kafka.crc32c)
    (records : List RecordInput) (opts : BatchOptions) (hcodec : opts.codec.getD .none = .none)
    (hplain : opts.compressedPayload = none)
    (hsize : (encodeRecordBatch records opts).bytes.length < 12 + 2 ^ 31) :
    (∃ b, RecordBatch.decode (encodeRecordBatch records opts).bytes =
        .ok (b, (encodeRecordBatch records opts).bytes.length) ∧
      b.baseOffset.toInt = (opts.baseOffset.getD 0).bmod (2 ^ 64) ∧
      b.producerId.toInt = (opts.producerId.getD (-1)).bmod (2 ^ 64) ∧
      b.producerEpoch.toInt = (opts.producerEpoch.getD (-1)).bmod (2 ^ 16) ∧
      b.baseSequence.toInt = (opts.baseSequence.getD (-1)).bmod (2 ^ 32) ∧
      b.attributes.getLsbD 4 = opts.transactional.getD false ∧
      b.attributes.getLsbD 5 = opts.control.getD false ∧
      b.records.map (fun r => (r.key, r.value, r.headers, r.offsetDelta.toInt)) =
        records.zipIdx.map fun r => (r.1.key.map asBytes, some (asBytes r.1.value),
          (r.1.headers.getD []).map fun h => (h.key, some (asBytes h.value)), (r.2 : Int))) ∧
    Tiles BatchField.start BatchField.length 0 (encodeRecordBatch records opts).fields
      (encodeRecordBatch records opts).bytes.length ∧
    (encodeRecordBatch records opts).fields.map
        (fun f => (f.name, f.slice (encodeRecordBatch records opts).bytes)) =
      (headerNames.map Prod.fst).zip (headerPieces (batchOf records opts)
          ((batchOf records opts).body (recordsPayload records))) ++
        records.zipIdx.map fun r => (s!"record[{r.2}]", encodeRecord r.1 r.2) := by
  refine ⟨⟨batchOf records opts, decode_bytes hcrc hcodec hplain hsize, ?_, ?_, ?_, ?_,
    (attributesOf_spec hcodec).2.1, (attributesOf_spec hcodec).2.2, ?_⟩,
    tiles_fields records hplain⟩
  · exact BitVec.toInt_ofInt ..
  · exact BitVec.toInt_ofInt ..
  · exact BitVec.toInt_ofInt ..
  · exact BitVec.toInt_ofInt ..
  · unfold batchOf
    rw [List.map_map]
    refine List.map_congr_left fun r hr => ?_
    have hlt : r.2 < 2 ^ 31 := by
      have hidx := List.snd_lt_of_mem_zipIdx hr
      have hcount := length_records_lt hcrc hcodec hplain hsize
      omega
    unfold itemOf
    simp only [Function.comp, toInt_length hlt]

def sampleRecords : List RecordInput :=
  [{ key := some "k", value := "é\n", headers := some [⟨"h", ""⟩, ⟨"h", "v"⟩] },
    { key := none, value := "", timestampDelta := some (-5) }]

def sampleOptions : BatchOptions :=
  { baseOffset := some 17, producerId := some 4, producerEpoch := some 1, baseSequence := some 9,
    transactional := some true }

theorem decode_encodeRecordBatch_sample :
    ∃ b, @RecordBatch.decode uncompressed (encodeRecordBatch sampleRecords sampleOptions).bytes =
        .ok (b, (encodeRecordBatch sampleRecords sampleOptions).bytes.length) ∧
      b.baseOffset.toInt = 17 ∧ b.producerEpoch.toInt = 1 ∧ b.attributes.getLsbD 4 = true ∧
      b.records.map (fun r => (r.key, r.value, r.headers, r.offsetDelta.toInt)) =
        [(some [0x6b], some [0xc3, 0xa9, 0x0a], [("h", some []), ("h", some [0x76])], 0),
          (none, some [], [], 1)] := by
  let _ : Crates := uncompressed
  obtain ⟨⟨b, hdecode, hoffset, -, hepoch, -, htrans, -, hrecords⟩, -⟩ :=
    decode_encodeRecordBatch rfl sampleRecords sampleOptions rfl rfl (by decide +kernel)
  exact ⟨b, hdecode, hoffset.trans (by decide), hepoch.trans (by decide), htrans,
    hrecords.trans rfl⟩

theorem baseOffset_wraps :
    ∃ b, @RecordBatch.decode uncompressed (encodeRecordBatch [] { baseOffset := some (2 ^ 63) }).bytes =
        .ok (b, (encodeRecordBatch [] { baseOffset := some (2 ^ 63) }).bytes.length) ∧
      b.baseOffset.toInt = -2 ^ 63 :=
  ⟨_, @decode_bytes uncompressed rfl [] { baseOffset := some (2 ^ 63) } rfl rfl (by decide +kernel),
    by decide⟩

end BuildYourOwn.Lab
