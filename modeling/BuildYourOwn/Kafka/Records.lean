import BuildYourOwn.Kafka.Wire
import BuildYourOwn.Lib.Utf8

/-!
# Kafka record batches

Model of the upper half of `kafkatest/src/proto/records.rs`: `RecordItem`, `RecordBatch`,
`compress_records`, `decompress_records`, `encode_record`, `decode_record`, `RecordBatch::try_encode`,
`encode`, `decode`, `decode_all` and `encode_batches`.

* The harness takes CRC-32C from the `crc32c` crate and the compressors from `kafka-protocol`; both are
  parameters (`Crates`), and so is the text of the standard library's UTF-8 error.
* A slice out of range is a panic, and so is a `usize` that falls below zero in an error's text.
* Every batch that decodes takes bytes (`decode_used`), so the loop of `decode_all` ends.
-/

namespace BuildYourOwn.Kafka

open Lib Lib.Reader

def batchHeaderAfterLength : Int := 49

def magicV2 : BitVec 8 := 2

def compressionMask : BitVec 16 := 0x07

def noCompression : BitVec 16 := 0

def codecName (codec : BitVec 16) : String :=
  if codec = 0 then "none"
  else if codec = 1 then "gzip"
  else if codec = 2 then "snappy"
  else if codec = 3 then "lz4"
  else if codec = 4 then "zstd"
  else "unknown"

/-- A `Compressor` with its `Decompressor`. -/
structure Compression where
  compress : Bytes → Except Failure Bytes
  decompress : Bytes → Except Failure Bytes

/-- What the harness takes from elsewhere. -/
class Crates where
  crc32c : Bytes → BitVec 32
  gzip : Compression
  snappy : Compression
  lz4 : Compression
  zstd : Compression
  /-- What `String::from_utf8` says of bytes that are not UTF-8. -/
  utf8Error : Bytes → String

structure RecordItem where
  attributes : BitVec 8
  timestampDelta : BitVec 64
  offsetDelta : BitVec 32
  key : Option Bytes
  value : Option Bytes
  headers : List (String × Option Bytes)
deriving DecidableEq

structure RecordBatch where
  baseOffset : BitVec 64
  partitionLeaderEpoch : BitVec 32
  attributes : BitVec 16
  lastOffsetDelta : BitVec 32
  baseTimestamp : BitVec 64
  maxTimestamp : BitVec 64
  producerId : BitVec 64
  producerEpoch : BitVec 16
  baseSequence : BitVec 32
  records : List RecordItem
  recordCountOverride : Option (BitVec 32)
  crcOverride : Option (BitVec 32)
deriving DecidableEq

def RecordBatch.compression (b : RecordBatch) : BitVec 16 := b.attributes &&& compressionMask

def RecordBatch.withCompression (b : RecordBatch) (codec : BitVec 16) : RecordBatch :=
  { b with attributes := (b.attributes &&& ~~~compressionMask) ||| (codec &&& compressionMask) }

def compressor [Crates] (codec : BitVec 16) : Option Compression :=
  if codec = 1 then some Crates.gzip
  else if codec = 2 then some Crates.snappy
  else if codec = 3 then some Crates.lz4
  else if codec = 4 then some Crates.zstd
  else none

def unknownCodec (codec : BitVec 16) : Failure :=
  .error [s!"unknown compression codec {codec.toInt}"]

def compressRecords [Crates] (codec : BitVec 16) (raw : Bytes) : Except Failure Bytes :=
  if codec = noCompression then .ok raw
  else match compressor codec with
    | some c => c.compress raw
    | none => .error (unknownCodec codec)

def decompressRecords [Crates] (codec : BitVec 16) (payload : Bytes) : Except Failure Bytes :=
  if codec = noCompression then .ok payload
  else match compressor codec with
    | some c => c.decompress payload
    | none => .error (unknownCodec codec)

/-! ## Writing -/

/-- One turn of the headers' loop in `encode_record`. -/
def encodeHeader (h : String × Option Bytes) : Bytes :=
  putVarint (BitVec.ofNat 32 (asBytes h.1).length) ++ asBytes h.1 ++ putNullable h.2

/-- What `encode_record` counts and then appends. -/
def recordBody (r : RecordItem) : Bytes :=
  toBytes 1 r.attributes ++ putVarlong r.timestampDelta ++ putVarint r.offsetDelta ++
    putNullable r.key ++ putNullable r.value ++ putVarint (BitVec.ofNat 32 r.headers.length) ++
    r.headers.flatMap encodeHeader

def encodeRecord (r : RecordItem) : Bytes :=
  putVarint (BitVec.ofNat 32 (recordBody r).length) ++ recordBody r

def RecordBatch.fields (b : RecordBatch) : Bytes :=
  let count := b.recordCountOverride.getD (BitVec.ofNat 32 b.records.length)
  toBytes 2 b.attributes ++ toBytes 4 b.lastOffsetDelta ++ toBytes 8 b.baseTimestamp ++
    toBytes 8 b.maxTimestamp ++ toBytes 8 b.producerId ++ toBytes 2 b.producerEpoch ++
    toBytes 4 b.baseSequence ++ toBytes 4 count

def RecordBatch.body (b : RecordBatch) (payload : Bytes) : Bytes := b.fields ++ payload

def RecordBatch.payload [Crates] (b : RecordBatch) : Except Failure Bytes :=
  let payload := b.records.flatMap encodeRecord
  if b.compression = noCompression then .ok payload
  else inContext s!"compressing the batch payload with {codecName b.compression}"
    (compressRecords b.compression payload)

/-- What `try_encode` puts around the body. -/
def RecordBatch.frame [Crates] (b : RecordBatch) (payload : Bytes) : Bytes :=
  let body := b.body payload
  let crc := b.crcOverride.getD (Crates.crc32c body)
  let batchLength := BitVec.ofNat 32 (4 + 1 + 4 + body.length)
  toBytes 8 b.baseOffset ++ toBytes 4 batchLength ++ toBytes 4 b.partitionLeaderEpoch ++
    toBytes 1 magicV2 ++ toBytes 4 crc ++ body

def RecordBatch.tryEncode [Crates] (b : RecordBatch) : Except Failure Bytes := do
  let payload ← b.payload
  pure (b.frame payload)

/-- `RecordBatch::encode`: uncompressed when it cannot be compressed. -/
def RecordBatch.encode [Crates] (b : RecordBatch) : Bytes :=
  match b.tryEncode with
  | .ok bytes => bytes
  | .error _ =>
    match (b.withCompression noCompression).tryEncode with
    | .ok bytes => bytes
    | .error _ => []

def encodeBatches [Crates] (batches : List RecordBatch) : Bytes := batches.flatMap RecordBatch.encode

/-! ## Reading -/

def fromUtf8 [Crates] (bytes : Bytes) : Except Failure String :=
  match String.fromUTF8? ⟨bytes.toArray⟩ with
  | some k => .ok k
  | none => .error (.error [Crates.utf8Error bytes])

/-- One turn of the headers' loop in `decode_record`. -/
def decodeHeader [Crates] (i : Nat) : Read (String × Option Bytes) := do
  let klen ← context s!"headers[{i}].key_length" varint
  require (0 ≤ klen.toInt) (.error [s!"headers[{i}].key_length is negative"])
  let kb ← context s!"headers[{i}].key" (take klen.toNat)
  let k ← context s!"headers[{i}].key is not utf-8" (lift (fromUtf8 kb))
  let v ← context s!"headers[{i}].value" nullable
  pure (k, v)

/-- The fields of `decode_record`, behind its length. -/
def decodeFields [Crates] : Read RecordItem := do
  let attributes ← context "record.attributes" i8
  let timestampDelta ← context "record.timestamp_delta" varlong
  let offsetDelta ← context "record.offset_delta" varint
  let key ← context "record.key" nullable
  let value ← context "record.value" nullable
  let nheaders ← context "record.header_count" varint
  require (0 ≤ nheaders.toInt) (.error [s!"record.header_count is negative ({nheaders.toInt})"])
  let headers ← collect decodeHeader 0 nheaders.toNat
  pure { attributes, timestampDelta, offsetDelta, key, value, headers }

def decodeRecord [Crates] : Read RecordItem := do
  let len ← context "record.length" varint
  require (0 ≤ len.toInt) (.error [s!"record.length is negative ({len.toInt})"])
  let c ← here
  let stop := c.pos + len.toNat
  require (stop ≤ c.buf.length)
    (.printing c.buf.length c.pos fun left => s!"record claims {len.toInt} bytes, only {left} left")
  let record ← decodeFields
  let c ← here
  require (c.pos = stop)
    (.printing stop c.pos fun left =>
      s!"record length {len.toInt} does not match the {(stop : Int) - left} bytes decoded")
  pure record

def decodeRecords [Crates] (count : BitVec 32) (raw : Bytes) :
    Except Failure (List RecordItem × Nat) :=
  match collect (fun i => context s!"records[{i}]" decodeRecord) 0 count.toNat ⟨raw, 0⟩ with
  | .ok (records, rc) => .ok (records, rc.buf.length - rc.pos)
  | .error e => .error e

/-- `&buf[c.pos..stop]`. -/
def slice (stop : Nat) : Read Bytes := fun c =>
  if c.pos ≤ stop ∧ stop ≤ c.buf.length then .ok ((c.buf.drop c.pos).take (stop - c.pos), c)
  else .error .panic

/-- `buf.get(c.pos..stop).unwrap_or_default()`. -/
def sliceOrDefault (stop : Nat) : Read Bytes := fun c =>
  if c.pos ≤ stop ∧ stop ≤ c.buf.length then .ok ((c.buf.drop c.pos).take (stop - c.pos), c)
  else .ok ([], c)

def decodePayload [Crates] (codec : BitVec 16) (count : BitVec 32) (payload : Bytes) :
    Except Failure (List RecordItem) := do
  let raw ← if codec = noCompression then pure payload else
    inContext s!"decompressing a {codecName codec} batch of {count.toInt} records"
      (decompressRecords codec payload)
  let (records, leftover) ← decodeRecords count raw
  if leftover = 0 then pure records
  else .error (.error [s!"{leftover} byte(s) left in the batch after its {count.toInt} record(s): " ++
    "batchLength or recordCount does not match the records"])

/-- The body of `RecordBatch::decode`, from the attributes on. -/
def decodeBody [Crates] (baseOffset : BitVec 64) (partitionLeaderEpoch : BitVec 32) (total : Nat) :
    Read RecordBatch := do
  let attributes ← context "batch.attributes" i16
  let lastOffsetDelta ← context "batch.last_offset_delta" i32
  let baseTimestamp ← context "batch.base_timestamp" i64
  let maxTimestamp ← context "batch.max_timestamp" i64
  let producerId ← context "batch.producer_id" i64
  let producerEpoch ← context "batch.producer_epoch" i16
  let baseSequence ← context "batch.base_sequence" i32
  let count ← context "batch.record_count" i32
  let codec := attributes &&& compressionMask
  require (0 ≤ count.toInt) (.error [s!"batch.record_count is negative ({count.toInt})"])
  let payload ← sliceOrDefault total
  let records ← lift (decodePayload codec count payload)
  pure { baseOffset, partitionLeaderEpoch, attributes, lastOffsetDelta, baseTimestamp, maxTimestamp,
         producerId, producerEpoch, baseSequence, records, recordCountOverride := none,
         crcOverride := none }

/-- `RecordBatch::decode`, at its cursor. -/
def decodeBatch [Crates] : Read (RecordBatch × Nat) := do
  let baseOffset ← context "batch.base_offset" i64
  let batchLength ← context "batch.batch_length" i32
  require (batchHeaderAfterLength ≤ batchLength.toInt)
    (.error [s!"batch.batch_length is {batchLength.toInt}, less than the {batchHeaderAfterLength} " ++
      "bytes of header that follow it"])
  let c ← here
  let total := c.pos + batchLength.toNat
  require (total ≤ c.buf.length)
    (.error [s!"batch claims {total} bytes but only {c.buf.length} are available"])
  let partitionLeaderEpoch ← context "batch.partition_leader_epoch" i32
  let magic ← context "batch.magic" i8
  require (magic = magicV2)
    (.error [s!"unsupported record batch magic {magic.toInt}, only v2 is supported"])
  let crc ← context "batch.crc" u32
  let covered ← slice total
  let actualCrc := Crates.crc32c covered
  require (actualCrc = crc)
    (.error [s!"batch.crc mismatch: header says {crc.toNat}, computed {actualCrc.toNat}"])
  let b ← decodeBody baseOffset partitionLeaderEpoch total
  pure (b, total)

def RecordBatch.decode [Crates] (buf : Bytes) : Except Failure (RecordBatch × Nat) :=
  match decodeBatch ⟨buf, 0⟩ with
  | .ok (x, _) => .ok x
  | .error e => .error e

theorem decodeBatch_returns [Crates] : Returns (decodeBatch : Read (RecordBatch × Nat)) fun x => 49 ≤ x.2 := by
  refine .bind fun baseOffset => .bind fun batchLength => .require fun hlen => .bind fun c => ?_
  have htotal : 49 ≤ c.pos + batchLength.toNat := by
    have hint := BitVec.toInt_eq_toNat_cond batchLength
    unfold batchHeaderAfterLength at hlen
    omega
  refine .require fun _ => .bind fun _ => .bind fun _ => .require fun _ => ?_
  exact .bind fun _ => .bind fun _ => .require fun _ => .bind fun _ => .pure htotal

/-- **A batch that decodes** takes at least its header. -/
theorem decode_used [Crates] {buf : Bytes} {b : RecordBatch} {used : Nat}
    (h : RecordBatch.decode buf = .ok (b, used)) : 49 ≤ used := by
  unfold RecordBatch.decode at h
  split at h
  · rename_i x c hx
    cases h
    exact decodeBatch_returns _ _ _ hx
  · cases h

/-- The loop of `RecordBatch::decode_all`. -/
def decodeAllFrom [Crates] (buf : Bytes) (pos : Nat) : Except Failure (List RecordBatch) :=
  if pos + 12 ≤ buf.length then
    match _h : RecordBatch.decode (buf.drop pos) with
    | .error e => .error (e.context s!"batch at byte {pos}")
    | .ok (b, used) =>
      match decodeAllFrom buf (pos + used) with
      | .error e => .error e
      | .ok out => .ok (b :: out)
  else .ok []
termination_by buf.length - pos
decreasing_by
  have hused := decode_used _h
  omega

def RecordBatch.decodeAll [Crates] (buf : Bytes) : Except Failure (List RecordBatch) :=
  decodeAllFrom buf 0

end BuildYourOwn.Kafka
