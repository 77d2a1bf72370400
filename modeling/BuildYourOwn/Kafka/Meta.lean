import BuildYourOwn.Kafka.RoundTrip

/-!
# Cluster-metadata records

Model of `kafkatest/src/proto/meta.rs`: the writer `Enc` of Kafka's compact encoding, `frame`, the three
records that the fixtures write, and `decode_record`.

* A compact length is the length as a `u32` with one added, which panics when it overflows. What is
  written is appended to `Enc::buf`, so here each method returns the bytes it appends.
* `Uuid::from_bytes` takes an array of 16 bytes; `copy_from_slice` panics on a slice of another length.
* The tagged fields behind a record are written and never read.
-/

namespace BuildYourOwn.Kafka.Meta

open Lib Lib.Reader

/-- `record_type::TOPIC`. -/
def topicType : BitVec 32 := 2

/-- `record_type::PARTITION`. -/
def partitionType : BitVec 32 := 3

/-- `record_type::FEATURE_LEVEL`. -/
def featureLevelType : BitVec 32 := 12

def frameVersion : BitVec 8 := 1

abbrev Uuid := { b : Bytes // b.length = 16 }

/-! ## Enc -/

/-- `Enc::uvarint`. -/
def encUvarint (v : BitVec 32) : Bytes :=
  if 0x80 ≤ v.toNat then (UInt8.ofNat v.toNat ||| 0x80) :: encUvarint (v >>> 7)
  else [UInt8.ofNat v.toNat]
termination_by v.toNat
decreasing_by
  rw [BitVec.toNat_ushiftRight, Nat.shiftRight_eq_div_pow]
  omega

/-- `self.uvarint(len as u32 + 1)`. -/
def encLength (len : Nat) : Except Failure Bytes :=
  if BitVec.ofNat 32 len = -1 then .error .panic else .ok (encUvarint (BitVec.ofNat 32 len + 1))

/-- `Enc::compact_string`. -/
def encString (s : String) : Except Failure Bytes := do
  let n ← encLength (asBytes s).length
  pure (n ++ asBytes s)

/-- The shared body of `Enc::compact_i32_array` and `Enc::compact_uuid_array`. -/
def encArray {α : Type} (enc : α → Bytes) (items : List α) : Except Failure Bytes := do
  let n ← encLength items.length
  pure (n ++ items.flatMap enc)

/-- `Enc::compact_i32_array`. -/
def encI32Array (items : List (BitVec 32)) : Except Failure Bytes := encArray (toBytes 4) items

/-- `Enc::compact_uuid_array`. -/
def encUuidArray (items : List Uuid) : Except Failure Bytes := encArray Subtype.val items

def emptyTaggedFields : Bytes := encUvarint 0

def frame (typeId version : BitVec 32) : Bytes :=
  toBytes 1 frameVersion ++ (encUvarint typeId ++ encUvarint version)

/-! ## The records -/

structure FeatureLevelRecord where
  name : String
  level : BitVec 16
deriving DecidableEq

def FeatureLevelRecord.encode (r : FeatureLevelRecord) : Except Failure Bytes := do
  let name ← encString r.name
  pure (frame featureLevelType 0 ++ (name ++ toBytes 2 r.level) ++ emptyTaggedFields)

structure TopicRecord where
  name : String
  id : Uuid
deriving DecidableEq

def TopicRecord.encode (r : TopicRecord) : Except Failure Bytes := do
  let name ← encString r.name
  pure (frame topicType 0 ++ (name ++ r.id.val) ++ emptyTaggedFields)

structure PartitionRecord where
  partitionId : BitVec 32
  topicId : Uuid
  replicas : List (BitVec 32)
  isr : List (BitVec 32)
  leader : BitVec 32
  leaderEpoch : BitVec 32
  partitionEpoch : BitVec 32
  directories : List Uuid
deriving DecidableEq

def PartitionRecord.encode (r : PartitionRecord) : Except Failure Bytes := do
  let replicas ← encI32Array r.replicas
  let isr ← encI32Array r.isr
  let removing ← encI32Array []
  let adding ← encI32Array []
  let directories ← encUuidArray r.directories
  pure (frame partitionType 1 ++ (toBytes 4 r.partitionId ++ (r.topicId.val ++ (replicas ++ (isr ++
    (removing ++ (adding ++ (toBytes 4 r.leader ++ (toBytes 4 r.leaderEpoch ++
      (toBytes 4 r.partitionEpoch ++ directories))))))))) ++ emptyTaggedFields)

inductive MetadataRecord
  | featureLevel (r : FeatureLevelRecord)
  | topic (r : TopicRecord)
  | partition (r : PartitionRecord)
  | other (typeId version : BitVec 32)
deriving DecidableEq

/-! ## Reading -/

def readUuid : Read Uuid := do
  let b ← take 16
  if h : b.length = 16 then pure ⟨b, h⟩ else fail .panic

def compactString [Crates] : Read String := do
  let n ← uvarlong
  require (n ≠ 0) (.error ["compact string is null where a value is required"])
  let bytes ← take (n - 1).toNat
  context "compact string is not utf-8" (lift (fromUtf8 bytes))

/-- The shared body of `compact_i32_array` and `compact_uuid_array`. -/
def compactArray {α : Type} (item : Read α) : Read (List α) := do
  let n ← uvarlong
  if n = 0 then pure [] else collect (fun _ => item) 0 (n - 1).toNat

def compactI32Array : Read (List (BitVec 32)) := compactArray i32

def compactUuidArray : Read (List Uuid) := compactArray readUuid

/-- The fields of a feature level in `decode_record`. -/
def decodeFeatureLevel [Crates] : Read MetadataRecord := do
  let name ← context "feature_level.name" compactString
  let level ← context "feature_level.level" i16
  pure (.featureLevel { name, level })

/-- The fields of a topic in `decode_record`. -/
def decodeTopic [Crates] : Read MetadataRecord := do
  let name ← context "topic.name" compactString
  let id ← context "topic.id" readUuid
  pure (.topic { name, id })

/-- The fields of a partition in `decode_record`; version 0 has no directories. -/
def decodePartition (version : BitVec 32) : Read MetadataRecord := do
  let partitionId ← context "partition.partition_id" i32
  let topicId ← context "partition.topic_id" readUuid
  let replicas ← context "partition.replicas" compactI32Array
  let isr ← context "partition.isr" compactI32Array
  let _removing ← context "partition.removing_replicas" compactI32Array
  let _adding ← context "partition.adding_replicas" compactI32Array
  let leader ← context "partition.leader" i32
  let leaderEpoch ← context "partition.leader_epoch" i32
  let partitionEpoch ← context "partition.partition_epoch" i32
  let directories ← if 1 ≤ version.toNat then context "partition.directories" compactUuidArray
    else pure []
  pure (.partition { partitionId, topicId, replicas, isr, leader, leaderEpoch, partitionEpoch,
                     directories })

/-- What `decode_record` reads behind the frame. -/
def decodePayload [Crates] (typeId version : BitVec 32) : Read MetadataRecord :=
  if typeId = featureLevelType then decodeFeatureLevel
  else if typeId = topicType then decodeTopic
  else if typeId = partitionType then decodePartition version
  else pure (.other typeId version)

/-- `decode_record`, at its cursor. -/
def decodeFrame [Crates] : Read MetadataRecord := do
  let version ← context "metadata record frame version" i8
  require (version = frameVersion)
    (.error [s!"unexpected metadata frame version {version.toInt}, want {frameVersion.toNat}"])
  let typeId ← context "metadata record type" uvarlong
  let version ← context "metadata record version" uvarlong
  decodePayload (typeId.setWidth 32) (version.setWidth 32)

def decodeRecord [Crates] (value : Bytes) : Except Failure MetadataRecord := decodeFrame.run value

end BuildYourOwn.Kafka.Meta

/-!
## Metadata records are read back

`Enc` writes a length with one added as a varint of a `u32` and `decode_record` reads it as one of a
`u64`: the bytes are those of `put_uvarlong` (`encUvarint_eq`). So each part is read back where it
stands, and the parts of a record one after another.

**`metadata_round_trip`**: each of the three records decodes from what `encode` writes, as long as no
string or array is too long for its length, and `decode_record` ends in a record or an error whatever
the bytes.
-/

namespace BuildYourOwn.Kafka.Meta

open Lib Lib.Reader

/-! ## Lengths -/

/-- **The two writers of varints** write the same. -/
theorem encUvarint_eq (v : BitVec 32) : encUvarint v = putUvarlong (v.setWidth 64) := by
  fun_induction encUvarint v with
  | case1 v hmore ih =>
    have hnat : (v.setWidth 64).toNat = v.toNat := by
      rw [BitVec.toNat_setWidth]
      omega
    have hshift : (v >>> 7).setWidth 64 = v.setWidth 64 >>> 7 := by
      apply BitVec.eq_of_toNat_eq
      rw [BitVec.toNat_setWidth, BitVec.toNat_ushiftRight, BitVec.toNat_ushiftRight, hnat,
        Nat.shiftRight_eq_div_pow]
      omega
    rw [putUvarlong, if_pos (hnat.symm ▸ hmore), hnat, ih, hshift]
  | case2 v hlast =>
    have hnat : (v.setWidth 64).toNat = v.toNat := by
      rw [BitVec.toNat_setWidth]
      omega
    rw [putUvarlong, if_neg (hnat.symm ▸ hlast), hnat]

/-- Below `u32::MAX` a compact length is the length and one. -/
theorem encLength_ok {len : Nat} (h : len < 2 ^ 32 - 1) :
    encLength len = .ok (putUvarlong (BitVec.ofNat 64 (len + 1))) := by
  have hne : BitVec.ofNat 32 len ≠ -1 := by
    intro he
    have hnat := congrArg BitVec.toNat he
    rw [BitVec.toNat_ofNat, Nat.mod_eq_of_lt (by omega)] at hnat
    exact absurd hnat (by show len ≠ 2 ^ 32 - 1; omega)
  have hsum : (BitVec.ofNat 32 len + 1).setWidth 64 = BitVec.ofNat 64 (len + 1) := by
    apply BitVec.eq_of_toNat_eq
    rw [BitVec.toNat_setWidth, BitVec.toNat_add, BitVec.toNat_ofNat, BitVec.toNat_ofNat]
    show ((len % 2 ^ 32 + 1) % 2 ^ 32) % 2 ^ 64 = _
    omega
  unfold encLength
  rw [if_neg hne, encUvarint_eq, hsum]

theorem toNat_read {len : Nat} (h : len < 2 ^ 32 - 1) :
    BitVec.ofNat 64 (len + 1) ≠ 0 ∧ (BitVec.ofNat 64 (len + 1) - 1).toNat = len := by
  have hnat : (BitVec.ofNat 64 (len + 1)).toNat = len + 1 := by
    rw [BitVec.toNat_ofNat]
    omega
  constructor
  · intro he
    rw [he] at hnat
    exact absurd hnat (by show 0 ≠ len + 1; omega)
  · rw [BitVec.toNat_sub, hnat]
    show (2 ^ 64 - 1 + (len + 1)) % 2 ^ 64 = len
    omega

/-! ## Parts -/

theorem uuid_reads (id : Uuid) : Reads readUuid id.val id := by
  rw [← List.append_nil id.val]
  refine (take_reads id.property).bind ?_
  rw [dif_pos id.property]
  exact Reads.pure id

theorem string_reads [Crates] {s : String} (h : (asBytes s).length < 2 ^ 32 - 1) :
    ∃ bytes, encString s = .ok bytes ∧ Reads compactString bytes s := by
  refine ⟨_, by unfold encString; rw [encLength_ok h]; rfl, ?_⟩
  obtain ⟨hne, hlen⟩ := toNat_read h
  have htext : Reads (context "compact string is not utf-8" (lift (fromUtf8 (asBytes s)))) [] s := by
    rw [fromUtf8_asBytes]
    exact context_reads _ (Reads.pure s)
  have hbytes := (take_reads (n := (asBytes s).length) rfl).bind
    (f := fun bytes => context "compact string is not utf-8" (lift (fromUtf8 bytes))) htext
  rw [List.append_nil] at hbytes
  refine (uvarlong_reads _).bind (Reads.require hne ?_)
  rw [hlen]
  exact hbytes

theorem array_reads {α : Type} {enc : α → Bytes} {item : Read α} {items : List α}
    (hitem : ∀ a ∈ items, Reads item (enc a) a) (h : items.length < 2 ^ 32 - 1) :
    ∃ bytes, encArray enc items = .ok bytes ∧ Reads (compactArray item) bytes items := by
  refine ⟨_, by unfold encArray; rw [encLength_ok h]; rfl, ?_⟩
  obtain ⟨hne, hlen⟩ := toNat_read h
  refine (uvarlong_reads _).bind ?_
  rw [if_neg hne, hlen]
  exact Reads.collect items 0 fun _ => hitem

theorem i32Array_reads {items : List (BitVec 32)} (h : items.length < 2 ^ 32 - 1) :
    ∃ bytes, encI32Array items = .ok bytes ∧ Reads compactI32Array bytes items :=
  array_reads (fun a _ => i32_reads a) h

theorem uuidArray_reads {items : List Uuid} (h : items.length < 2 ^ 32 - 1) :
    ∃ bytes, encUuidArray items = .ok bytes ∧ Reads compactUuidArray bytes items :=
  array_reads (fun a _ => uuid_reads a) h

/-! ## Records -/

section

variable [Crates]

/-- **A framed record** is read back when its fields are, whatever stands behind them. -/
theorem decodeRecord_ok {typeId version : BitVec 32} {fields : Bytes} {r : MetadataRecord}
    (h : Reads (decodePayload typeId version) fields r) (rest : Bytes) :
    decodeRecord (frame typeId version ++ fields ++ rest) = .ok r := by
  have hframe : Reads decodeFrame (frame typeId version ++ fields) r := by
    unfold frame
    rw [List.append_assoc, List.append_assoc]
    refine (context_reads _ (i8_reads frameVersion)).bind (Reads.require rfl ?_)
    rw [encUvarint_eq, encUvarint_eq]
    refine (context_reads _ (uvarlong_reads _)).bind ?_
    refine (context_reads _ (uvarlong_reads _)).bind ?_
    rw [BitVec.setWidth_setWidth_of_le _ (by decide), BitVec.setWidth_eq,
      BitVec.setWidth_setWidth_of_le _ (by decide), BitVec.setWidth_eq]
    exact h
  exact hframe.run rest

theorem featureLevel_decodes {r : FeatureLevelRecord} (h : (asBytes r.name).length < 2 ^ 32 - 1) :
    ∃ bytes, r.encode = .ok bytes ∧ decodeRecord bytes = .ok (.featureLevel r) := by
  obtain ⟨name, hname, hread⟩ := string_reads h
  refine ⟨_, by unfold FeatureLevelRecord.encode; rw [hname]; rfl, decodeRecord_ok ?_ _⟩
  refine (context_reads _ hread).bind ?_
  exact (context_reads _ (i16_reads r.level)).map _

theorem topic_decodes {r : TopicRecord} (h : (asBytes r.name).length < 2 ^ 32 - 1) :
    ∃ bytes, r.encode = .ok bytes ∧ decodeRecord bytes = .ok (.topic r) := by
  obtain ⟨name, hname, hread⟩ := string_reads h
  refine ⟨_, by unfold TopicRecord.encode; rw [hname]; rfl, decodeRecord_ok ?_ _⟩
  refine (context_reads _ hread).bind ?_
  exact (context_reads _ (uuid_reads r.id)).map _

theorem partition_decodes {r : PartitionRecord} (hreplicas : r.replicas.length < 2 ^ 32 - 1)
    (hisr : r.isr.length < 2 ^ 32 - 1) (hdirectories : r.directories.length < 2 ^ 32 - 1) :
    ∃ bytes, r.encode = .ok bytes ∧ decodeRecord bytes = .ok (.partition r) := by
  obtain ⟨replicas, henc₁, hread₁⟩ := i32Array_reads hreplicas
  obtain ⟨isr, henc₂, hread₂⟩ := i32Array_reads hisr
  have hnil : ([] : List (BitVec 32)).length < 2 ^ 32 - 1 := by decide
  obtain ⟨empty, henc₃, hread₃⟩ := i32Array_reads hnil
  obtain ⟨directories, henc₄, hread₄⟩ := uuidArray_reads hdirectories
  refine ⟨_, by unfold PartitionRecord.encode; rw [henc₁, henc₂, henc₃, henc₄]; rfl,
    decodeRecord_ok ?_ _⟩
  refine (context_reads _ (i32_reads r.partitionId)).bind ?_
  refine (context_reads _ (uuid_reads r.topicId)).bind ?_
  refine (context_reads _ hread₁).bind ?_
  refine (context_reads _ hread₂).bind ?_
  refine (context_reads _ hread₃).bind ?_
  refine (context_reads _ hread₃).bind ?_
  refine (context_reads _ (i32_reads r.leader)).bind ?_
  refine (context_reads _ (i32_reads r.leaderEpoch)).bind ?_
  refine (context_reads _ (i32_reads r.partitionEpoch)).bind ?_
  exact (context_reads _ hread₄).map _

/-! ## Any bytes -/

omit [Crates] in
/-- **Sixteen bytes** are what `Uuid::from_bytes` needs. -/
theorem readUuid_tame : Tame readUuid Failure.Proper where
  takes := by
    refine (take_takes 16).bind fun b t => ?_
    split
    · refine Takes.pure fun rest ht => ?_
      rw [List.append_nil, ht.1]
      exact uuid_reads ⟨b, _⟩
    · intro before bs id c' heq
      cases heq
  fails before bs e heq := by
    rcases bind_error heq with htake | ⟨b, c', htake, hrest⟩
    · exact (take_tame 16).fails before bs e htake
    · obtain ⟨_, _, _, _, _, hlen⟩ := take_takes 16 before bs b c' htake
      rw [dif_pos hlen] at hrest
      cases hrest

theorem compactString_tame : Tame compactString Failure.Proper := by
  refine uvarlong_tame.bind fun n => Tame.require (fun _ => Failure.proper_error _) fun _ => ?_
  refine (take_tame _).bind fun bytes => context_tame _ ?_
  exact Tame.lift fun e he => fromUtf8_proper he

omit [Crates] in
theorem compactArray_tame {α : Type} {item : Read α} (h : Tame item Failure.Proper) :
    Tame (compactArray item) Failure.Proper := by
  refine uvarlong_tame.bind fun n => ?_
  split
  · exact Tame.pure []
  · exact Tame.collect (fun _ => h) 0 _

omit [Crates] in
theorem decodePartition_tame (version : BitVec 32) : Tame (decodePartition version) Failure.Proper := by
  have hnumber := fun text => context_tame text (number_tame 4 32)
  have harray := fun text => context_tame text (compactArray_tame (number_tame 4 32))
  refine (hnumber _).bind fun _ => (context_tame _ readUuid_tame).bind fun _ => ?_
  refine (harray _).bind fun _ => (harray _).bind fun _ => ?_
  refine (harray _).bind fun _ => (harray _).bind fun _ => ?_
  refine (hnumber _).bind fun _ => (hnumber _).bind fun _ => (hnumber _).bind fun _ => ?_
  split
  · exact (context_tame _ (compactArray_tame readUuid_tame)).bind fun _ => Tame.pure _
  · exact (Tame.pure []).bind fun _ => Tame.pure _

theorem decodeFrame_tame : Tame decodeFrame Failure.Proper := by
  refine (context_tame _ (number_tame 1 8)).bind fun _ => ?_
  refine Tame.require (fun _ => Failure.proper_error _) fun _ => ?_
  refine (context_tame _ uvarlong_tame).bind fun typeId => ?_
  refine (context_tame _ uvarlong_tame).bind fun version => ?_
  unfold decodePayload
  split
  · refine (context_tame _ compactString_tame).bind fun _ => ?_
    exact (context_tame _ (number_tame 2 16)).bind fun _ => Tame.pure _
  · split
    · refine (context_tame _ compactString_tame).bind fun _ => ?_
      exact (context_tame _ readUuid_tame).bind fun _ => Tame.pure _
    · split
      · exact decodePartition_tame _
      · exact Tame.pure _

/-- **Metadata records round-trip**, and bytes of any kind are a record or an error. -/
theorem metadata_round_trip :
    (∀ r : FeatureLevelRecord, (asBytes r.name).length < 2 ^ 32 - 1 →
      ∃ bytes, r.encode = .ok bytes ∧ decodeRecord bytes = .ok (.featureLevel r)) ∧
    (∀ r : TopicRecord, (asBytes r.name).length < 2 ^ 32 - 1 →
      ∃ bytes, r.encode = .ok bytes ∧ decodeRecord bytes = .ok (.topic r)) ∧
    (∀ r : PartitionRecord, r.replicas.length < 2 ^ 32 - 1 → r.isr.length < 2 ^ 32 - 1 →
      r.directories.length < 2 ^ 32 - 1 →
      ∃ bytes, r.encode = .ok bytes ∧ decodeRecord bytes = .ok (.partition r)) ∧
    ∀ value, decodeRecord value ≠ .error .panic :=
  ⟨fun _ h => featureLevel_decodes h, fun _ h => topic_decodes h,
    fun _ h₁ h₂ h₃ => partition_decodes h₁ h₂ h₃, fun _ h => decodeFrame_tame.run h rfl⟩

end

/-! ## A partition -/

def onTwoReplicas : PartitionRecord where
  partitionId := 3
  topicId := ⟨List.replicate 16 0x5a, rfl⟩
  replicas := [1, 2]
  isr := [1]
  leader := 1
  leaderEpoch := 7
  partitionEpoch := 9
  directories := [⟨List.replicate 16 0, rfl⟩, ⟨List.replicate 16 0xff, rfl⟩]

theorem metadata_round_trip_partition : ∃ bytes, onTwoReplicas.encode = .ok bytes ∧
    @decodeRecord uncompressed bytes = .ok (.partition onTwoReplicas) := by
  let _ : Crates := uncompressed
  exact metadata_round_trip.2.2.1 onTwoReplicas (by decide) (by decide) (by decide)

end BuildYourOwn.Kafka.Meta
