import BuildYourOwn.Kafka.RoundTrip

/-!
# Where decoding a batch panics

The reads of a record are bounded by the payload and not by the record's own end. A record whose fields
run past that end (`Overlong`) is found out when they have been read, and the text of that error
subtracts: `end - c.pos` falls below zero and the process panics. Everything else in `decode` and
`decode_all` is a batch or an error: every slice is in range, and the other differences are not negative.

* `FailsAt` with its rules reads the bytes that lead to the panic off the decoder, field by field
  (`overlong_iff`, `spills_iff`, `overruns_iff`).

The decompressors come from a crate and return a `Result`; they are not to panic themselves.
-/

namespace BuildYourOwn.Kafka

open Lib Lib.Reader

variable {bs bad before rest raw payload buf : Bytes} {n : BitVec 32} {b : RecordBatch} {used : Nat}

variable {α : Type} {text : String}

theorem reads_context {r : Read α} {a : α} : Reads (context text r) bs a ↔ Reads r bs a := reads_mapError

theorem failsAt_context {r : Read α} : FailsAt (context text r) .panic before bs ↔ FailsAt r .panic before bs := by
  unfold FailsAt context Reader.mapError
  cases r ⟨before ++ bs, before.length⟩ with
  | ok x => simp
  | error e =>
    cases e with
    | error chain => simp [Failure.context]
    | panic => simp [Failure.context]

theorem printing_eq_panic {a c : Nat} {text : Nat → String} : Failure.printing a c text = .panic ↔ a < c := by
  unfold Failure.printing
  split
  · exact iff_of_false (by simp) (by omega)
  · exact iff_of_true rfl (by omega)

theorem failsAt_printing {p : Prop} [Decidable p] {a c : Nat} {text : Nat → String}
    {f : Unit → Read α} : FailsAt (Reader.require p (.printing a c text) >>= f) .panic before bs ↔
      (¬ p ∧ a < c) ∨ (p ∧ FailsAt (f ()) .panic before bs) := by
  rw [failsAt_require, printing_eq_panic]

theorem failsAt_require_error {p : Prop} [Decidable p] {chain : List String}
    {f : Unit → Read α} : FailsAt (Reader.require p (.error chain) >>= f) .panic before bs ↔
      p ∧ FailsAt (f ()) .panic before bs := by
  rw [failsAt_require, or_iff_right]
  exact fun h => absurd h.2 (by simp)

theorem failsAt_number {α β : Type} {r : Read α} {enc : α → Bytes} {f : α → Read β}
    (h : Tame r Failure.Proper) (henc : ∀ {bs a}, Reads r bs a ↔ bs = enc a) :
    FailsAt (context text r >>= f) .panic before bs ↔
      ∃ a rest, bs = enc a ++ rest ∧ FailsAt (f a) .panic (before ++ enc a) rest := by
  rw [failsAt_bind (context_tame text h)]
  constructor
  · rintro ⟨a, taken, rest, rfl, hread, hf⟩
    obtain rfl := henc.mp (reads_context.mp hread)
    exact ⟨a, rest, rfl, hf⟩
  · rintro ⟨a, rest, rfl, hf⟩
    exact ⟨a, enc a, rest, rfl, reads_context.mpr (henc.mpr rfl), hf⟩

variable {β : Type}

theorem failsAt_i8 {f : BitVec 8 → Read β} :
    FailsAt (context text i8 >>= f) .panic before bs ↔ ∃ x rest, bs = toBytes 1 x ++ rest ∧
      FailsAt (f x) .panic (before ++ toBytes 1 x) rest := failsAt_number i8_tame reads_i8

theorem failsAt_i16 {f : BitVec 16 → Read β} :
    FailsAt (context text i16 >>= f) .panic before bs ↔ ∃ x rest, bs = toBytes 2 x ++ rest ∧
      FailsAt (f x) .panic (before ++ toBytes 2 x) rest := failsAt_number i16_tame reads_i16

theorem failsAt_i32 {f : BitVec 32 → Read β} :
    FailsAt (context text i32 >>= f) .panic before bs ↔ ∃ x rest, bs = toBytes 4 x ++ rest ∧
      FailsAt (f x) .panic (before ++ toBytes 4 x) rest := failsAt_number i32_tame reads_i32

theorem failsAt_i64 {f : BitVec 64 → Read β} :
    FailsAt (context text i64 >>= f) .panic before bs ↔ ∃ x rest, bs = toBytes 8 x ++ rest ∧
      FailsAt (f x) .panic (before ++ toBytes 8 x) rest := failsAt_number i64_tame reads_i64

section

variable [Crates]

/-! ## Records -/

theorem decodeHeader_tame (i : Nat) : Tame (decodeHeader i) Failure.Proper := by
  refine (context_tame _ varint_tame).bind fun n => Tame.require (fun _ => Failure.proper_error _) fun _ => ?_
  refine (context_tame _ (take_tame _)).bind fun bytes => ?_
  refine (context_tame _ (Tame.lift fun e he => fromUtf8_proper he)).bind fun k => ?_
  exact (context_tame _ nullable_tame).bind fun v => Tame.pure _

theorem decodeFields_tame : Tame decodeFields Failure.Proper := by
  refine (context_tame _ (number_tame 1 8)).bind fun _ => (context_tame _ varlong_tame).bind fun _ => ?_
  refine (context_tame _ varint_tame).bind fun _ => (context_tame _ nullable_tame).bind fun _ => ?_
  refine (context_tame _ nullable_tame).bind fun _ => (context_tame _ varint_tame).bind fun n => ?_
  refine Tame.require (fun _ => Failure.proper_error _) fun _ => ?_
  exact (Tame.collect decodeHeader_tame 0 _).bind fun _ => Tame.pure _

/-- A record whose fields are longer than it says. -/
def Overlong (bad : Bytes) : Prop :=
  ∃ length n fields r, bad = length ++ fields ∧ Reads varint length n ∧ 0 ≤ n.toInt ∧
    Reads decodeFields fields r ∧ n.toNat < fields.length

/-- **A record panics** exactly when its fields are longer than it says. -/
theorem overlong_iff : FailsAt decodeRecord .panic before bs ↔ ∃ bad rest, bs = bad ++ rest ∧ Overlong bad := by
  unfold decodeRecord
  rw [failsAt_bind (context_tame _ varint_tame)]
  simp only [failsAt_require_error, failsAt_here, failsAt_printing, failsAt_bind decodeFields_tame,
    not_failsAt_pure]
  constructor
  · rintro ⟨n, length, rest, rfl, hlength, hn, ⟨-, hlt⟩ | ⟨-, r, fields, rest', rfl, hfields, hor⟩⟩
    · simp only [List.length_append] at hlt
      omega
    · rcases hor with ⟨-, hlt⟩ | ⟨-, hfalse⟩
      · simp only [List.length_append] at hlt
        exact ⟨length ++ fields, rest', by rw [List.append_assoc], length, n, fields, r, rfl,
          reads_mapError.mp hlength, hn, hfields, by omega⟩
      · exact absurd hfalse id
  · rintro ⟨_, rest, rfl, length, n, fields, r, rfl, hlength, hn, hfields, hlt⟩
    refine ⟨n, length, fields ++ rest, by rw [List.append_assoc], reads_mapError.mpr hlength, hn,
      .inr ⟨?_, r, fields, rest, rfl, hfields, .inl ⟨?_, ?_⟩⟩⟩
    · simp only [List.length_append]
      omega
    · simp only [List.length_append]
      omega
    · simp only [List.length_append]
      omega

theorem decodeRecord_takes : Takes decodeRecord fun r taken _ => Reads decodeRecord taken r := by
  intro before bs r c' heq
  unfold decodeRecord at heq
  obtain ⟨n, c₁, hread, heq⟩ := bind_ok.mp heq
  obtain ⟨length, bs, rfl, rfl, hlength⟩ := (context_tame _ varint_tame).takes before bs n c₁ hread
  obtain ⟨_, c₂, hread, heq⟩ := bind_ok.mp heq
  obtain ⟨hn, rfl⟩ := require_ok hread
  obtain ⟨_, c₃, hread, heq⟩ := bind_ok.mp heq
  cases hread
  obtain ⟨_, c₄, hread, heq⟩ := bind_ok.mp heq
  obtain ⟨-, rfl⟩ := require_ok hread
  obtain ⟨r', c₅, hread, heq⟩ := bind_ok.mp heq
  rw [← List.append_assoc, ← List.length_append] at hread
  obtain ⟨fields, rest, rfl, rfl, hfields⟩ := decodeFields_tame.takes (before ++ length) bs r' c₅ hread
  obtain ⟨_, c₆, hread, heq⟩ := bind_ok.mp heq
  cases hread
  obtain ⟨_, c₇, hread, heq⟩ := bind_ok.mp heq
  obtain ⟨hstop, rfl⟩ := require_ok hread
  cases heq
  have hlen : n.toNat = fields.length := by
    simp only [List.length_append] at hstop
    omega
  refine ⟨length ++ fields, rest, by rw [List.append_assoc], ?_, ?_⟩
  · simp only [List.append_assoc, List.length_append, Nat.add_assoc]
  · exact reads_record (reads_mapError.mp hlength) hn hfields hlen

def IsRecord (bs : Bytes) : Prop := ∃ r, Reads decodeRecord bs r

/-- Behind fewer than `count` records comes one whose fields are longer than it says. -/
def Spills (count : Nat) (raw : Bytes) : Prop :=
  ∃ records bad rest, raw = List.flatten records ++ (bad ++ rest) ∧ records.length < count ∧
    (∀ bs ∈ records, IsRecord bs) ∧ Overlong bad

theorem not_spills_zero : ¬ Spills 0 raw := by
  rintro ⟨records, bad, rest, -, hlt, -⟩
  exact absurd hlt (Nat.not_lt_zero _)

theorem spills_succ {count : Nat} : Spills (count + 1) bs ↔
    (∃ bad rest, bs = bad ++ rest ∧ Overlong bad) ∨
      ∃ r taken rest, bs = taken ++ rest ∧ Reads decodeRecord taken r ∧ Spills count rest := by
  constructor
  · rintro ⟨records, bad, rest, rfl, hlt, hall, hbad⟩
    cases records with
    | nil => exact .inl ⟨bad, rest, by simp, hbad⟩
    | cons taken records =>
      obtain ⟨⟨r, hr⟩, hrest⟩ := List.forall_mem_cons.mp hall
      rw [List.flatten_cons, List.append_assoc]
      exact .inr ⟨r, taken, _, rfl, hr, records, bad, rest, rfl, Nat.lt_of_succ_lt_succ hlt, hrest, hbad⟩
  · rintro (⟨bad, rest, rfl, hbad⟩ | ⟨r, taken, _, rfl, hr, records, bad, rest, rfl, hlt, hall, hbad⟩)
    · exact ⟨[], bad, rest, by simp, Nat.succ_pos _, List.forall_mem_nil _, hbad⟩
    · refine ⟨taken :: records, bad, rest, ?_, Nat.succ_lt_succ hlt, ?_, hbad⟩
      · rw [List.flatten_cons, List.append_assoc]
      · exact List.forall_mem_cons.mpr ⟨⟨r, hr⟩, hall⟩

/-- **The loop over the records** panics at the first that is longer than it says. -/
theorem spills_iff (count i : Nat) :
    FailsAt (collect (fun i => context s!"records[{i}]" decodeRecord) i count) .panic before bs ↔ Spills count bs := by
  induction count generalizing i before bs with
  | zero => exact iff_of_false not_failsAt_pure not_spills_zero
  | succ count ih =>
    have hitem : Takes (context s!"records[{i}]" decodeRecord) fun r taken _ =>
        Reads (context s!"records[{i}]" decodeRecord) taken r :=
      decodeRecord_takes.mapError.mono fun _ _ _ hreads => reads_context.mpr hreads
    unfold collect
    rw [failsAt_bind_of hitem, failsAt_context, overlong_iff, spills_succ]
    simp only [failsAt_map, ih, reads_context]

/-! ## Batches -/

/-- The decompressors do not panic. -/
def CratesReturn : Prop :=
  ∀ codec c, compressor codec = some c → ∀ packed, c.decompress packed ≠ .error .panic

theorem decompressRecords_returns (h : CratesReturn) (codec : BitVec 16) (payload : Bytes) :
    decompressRecords codec payload ≠ .error .panic := by
  unfold decompressRecords
  split
  · simp
  · split
    · rename_i c hc
      exact h codec c hc payload
    · simp [unknownCodec]

variable {count : BitVec 32}

theorem decodeRecords_panics : decodeRecords count raw = .error .panic ↔ Spills count.toNat raw := by
  have hspills : FailsAt (collect (fun i => context s!"records[{i}]" decodeRecord) 0 count.toNat) .panic [] raw ↔
      Spills count.toNat raw := spills_iff count.toNat 0
  rw [← hspills]
  unfold decodeRecords FailsAt
  show _ ↔ collect _ 0 count.toNat ⟨raw, 0⟩ = _
  cases collect (fun i => context s!"records[{i}]" decodeRecord) 0 count.toNat ⟨raw, 0⟩ with
  | ok x => simp
  | error e => simp

omit [Crates] in
theorem except_bind_error {α β : Type} {x : Except Failure α} {f : α → Except Failure β} {e : Failure} :
    x >>= f = .error e ↔ x = .error e ∨ ∃ a, x = .ok a ∧ f a = .error e := by
  cases x with
  | ok a =>
    constructor
    · exact fun h => .inr ⟨a, rfl, h⟩
    · rintro (h | ⟨a', h, hf⟩)
      · cases h
      · cases h
        exact hf
  | error e' =>
    constructor
    · exact fun h => .inl (congrArg Except.error (Except.error.inj h))
    · rintro (h | ⟨a', h, -⟩)
      · exact congrArg Except.error (Except.error.inj h)
      · cases h

/-- What `decode` does with the records' bytes. -/
def decodeRaw (count : BitVec 32) (raw : Bytes) : Except Failure (List RecordItem) := do
  let (records, leftover) ← decodeRecords count raw
  if leftover = 0 then pure records
  else .error (.error [s!"{leftover} byte(s) left in the batch after its {count.toInt} record(s): " ++
    "batchLength or recordCount does not match the records"])

theorem decodePayload_eq (codec : BitVec 16) (count : BitVec 32) (payload : Bytes) : decodePayload codec count payload =
      if codec = noCompression then decodeRaw count payload
      else inContext s!"decompressing a {codecName codec} batch of {count.toInt} records"
        (decompressRecords codec payload) >>= decodeRaw count := rfl

theorem decodeRaw_panics : decodeRaw count raw = .error .panic ↔ Spills count.toNat raw := by
  unfold decodeRaw
  rw [except_bind_error, decodeRecords_panics, or_iff_left]
  rintro ⟨⟨records, leftover⟩, -, h⟩
  dsimp only at h
  split at h
  · cases h
  · cases h

theorem decodePayload_panics (h : CratesReturn) {codec : BitVec 16} :
    decodePayload codec count payload = .error .panic ↔
      ∃ raw, decompressRecords codec payload = .ok raw ∧ Spills count.toNat raw := by
  rw [decodePayload_eq]
  split
  · rename_i hnone
    have hraw : decompressRecords codec payload = .ok payload := if_pos hnone
    simp [hraw, decodeRaw_panics]
  · rw [except_bind_error]
    simp only [decodeRaw_panics]
    cases hdecompress : decompressRecords codec payload with
    | ok raw => simp [inContext, Except.mapError]
    | error e =>
      have hproper : e.Proper := fun he => decompressRecords_returns h codec payload (he ▸ hdecompress)
      refine iff_of_false ?_ (by simp)
      rintro (heq | ⟨raw, heq, -⟩)
      · exact hproper.context _ (Except.error.inj heq)
      · cases heq

omit [Crates] in
theorem fields_eq (b : RecordBatch) (hcount : b.recordCountOverride = some count) :
    b.fields = toBytes 2 b.attributes ++ (toBytes 4 b.lastOffsetDelta ++ (toBytes 8 b.baseTimestamp ++
      (toBytes 8 b.maxTimestamp ++ (toBytes 8 b.producerId ++ (toBytes 2 b.producerEpoch ++
        (toBytes 4 b.baseSequence ++ toBytes 4 count)))))) := by
  unfold RecordBatch.fields
  simp only [hcount, Option.getD_some, List.append_assoc]

theorem failsAt_payload (h : CratesReturn) {codec : BitVec 16} {total : Nat}
    (htotal : total = before.length + payload.length) (g : List RecordItem → RecordBatch) :
    FailsAt (sliceOrDefault total >>= fun payload =>
      lift (decodePayload codec count payload) >>= fun records => pure (g records)) .panic before
        (payload ++ rest) ↔ ∃ raw, decompressRecords codec payload = .ok raw ∧ Spills count.toNat raw := by
  rw [failsAt_peek (sliceOrDefault_eq before payload rest htotal), failsAt_lift,
    decodePayload_panics h, or_iff_left]
  rintro ⟨records, -, hpure⟩
  exact not_failsAt_pure hpure

theorem body_panics (h : CratesReturn) {base : BitVec 64} {epoch : BitVec 32} {total : Nat}
    {covered : Bytes} (htotal : total = before.length + covered.length) (hforty : 40 ≤ covered.length) :
    FailsAt (decodeBody base epoch total) .panic before (covered ++ rest) ↔
      ∃ (b : RecordBatch) (count : BitVec 32) (payload raw : Bytes), b.baseOffset = base ∧
        b.partitionLeaderEpoch = epoch ∧ b.recordCountOverride = some count ∧ b.crcOverride = none ∧
        covered = b.body payload ∧ 0 ≤ count.toInt ∧
        decompressRecords b.compression payload = .ok raw ∧ Spills count.toNat raw := by
  unfold decodeBody
  simp only [failsAt_i64, failsAt_i32, failsAt_i16, failsAt_require_error]
  constructor
  · rintro ⟨attributes, _, hbytes, lastOffsetDelta, _, rfl, baseTimestamp, _, rfl, maxTimestamp, _, rfl,
      producerId, _, rfl, producerEpoch, _, rfl, baseSequence, _, rfl, count, left, rfl, hcount, hfails⟩
    let b : RecordBatch := ⟨base, epoch, attributes, lastOffsetDelta, baseTimestamp, maxTimestamp,
      producerId, producerEpoch, baseSequence, [], some count, none⟩
    have hfields := fields_eq b rfl
    have hsplit : covered ++ rest = b.fields ++ left := by
      rw [hfields, hbytes]
      simp only [b, List.append_assoc]
    obtain ⟨payload, rfl⟩ : b.fields <+: covered := List.prefix_of_prefix_length_le
      (hsplit ▸ List.prefix_append b.fields left) (List.prefix_append covered rest)
      ((length_fields b).symm ▸ hforty)
    rw [List.append_assoc] at hsplit
    obtain rfl := List.append_cancel_left hsplit
    have hlen : total = (before ++ toBytes 2 attributes ++ toBytes 4 lastOffsetDelta ++
        toBytes 8 baseTimestamp ++ toBytes 8 maxTimestamp ++ toBytes 8 producerId ++
        toBytes 2 producerEpoch ++ toBytes 4 baseSequence ++ toBytes 4 count).length +
          payload.length := by
      rw [htotal, List.length_append, length_fields]
      simp only [List.length_append, length_toBytes]
      omega
    obtain ⟨raw, hraw, hspills⟩ := (failsAt_payload h hlen _).mp hfails
    exact ⟨b, count, payload, raw, rfl, rfl, rfl, rfl, rfl, hcount, hraw, hspills⟩
  · rintro ⟨b, count, payload, raw, rfl, rfl, hoverride, -, rfl, hcount, hraw, hspills⟩
    unfold RecordBatch.body at htotal ⊢
    rw [fields_eq b hoverride] at htotal ⊢
    simp only [List.append_assoc]
    refine ⟨_, _, rfl, _, _, rfl, _, _, rfl, _, _, rfl, _, _, rfl, _, _, rfl, _, _, rfl, count, _, rfl,
      hcount, (failsAt_payload h ?_ _).mpr ⟨raw, hraw, hspills⟩⟩
    rw [htotal]
    simp only [List.length_append, length_toBytes]
    omega

/-- The buffer begins with a batch that passes every check of its header and whose payload spills. -/
def Overruns (buf : Bytes) : Prop :=
  ∃ (b : RecordBatch) (count : BitVec 32) (payload raw rest : Bytes),
    b.recordCountOverride = some count ∧ b.crcOverride = none ∧ buf = b.frame payload ++ rest ∧
    49 + payload.length < 2 ^ 31 ∧ 0 ≤ count.toInt ∧
    decompressRecords b.compression payload = .ok raw ∧ Spills count.toNat raw

theorem overruns_iff (h : CratesReturn) : RecordBatch.decode buf = .error .panic ↔ Overruns buf := by
  have hdecode : RecordBatch.decode buf = .error .panic ↔ FailsAt decodeBatch .panic [] buf := by
    unfold RecordBatch.decode FailsAt
    show _ ↔ decodeBatch ⟨buf, 0⟩ = _
    cases decodeBatch ⟨buf, 0⟩ with
    | ok x => simp
    | error e => simp
  rw [hdecode]
  clear hdecode
  unfold decodeBatch
  have hu32 : u32 = i32 := rfl
  simp only [hu32, failsAt_i64, failsAt_i32, failsAt_i8, failsAt_require_error, failsAt_here]
  constructor
  · rintro ⟨base, _, rfl, length, _, rfl, hlength, htotal, epoch, _, rfl, magic, _, rfl, rfl, crc, left,
      rfl, hfails⟩
    have hint := BitVec.toInt_eq_toNat_cond length
    unfold batchHeaderAfterLength at hlength
    simp only [List.length_append, length_toBytes, List.length_nil] at htotal
    -- the CRC is over what stands from here to the end of the batch
    obtain ⟨covered, rest, rfl, hcovered⟩ : ∃ covered rest, left = covered ++ rest ∧
        covered.length = length.toNat - 9 :=
      ⟨left.take (length.toNat - 9), left.drop (length.toNat - 9), (List.take_append_drop _ _).symm, by
        rw [List.length_take]; omega⟩
    rw [failsAt_peek (slice_eq _ covered rest ?_), failsAt_require_error, failsAt_map,
      body_panics h ?_ (by omega)] at hfails
    · obtain ⟨hcrc, b, count, payload, raw, rfl, rfl, hoverride, hnone, rfl, hcount, hraw, hspills⟩ := hfails
      have hbody : (b.body payload).length = 40 + payload.length := by
        unfold RecordBatch.body
        rw [List.length_append, length_fields]
      refine ⟨b, count, payload, raw, rest, hoverride, hnone, ?_, by omega, hcount, hraw, hspills⟩
      have hlen : BitVec.ofNat 32 (4 + 1 + 4 + (b.body payload).length) = length := by
        refine BitVec.eq_of_toNat_eq ?_
        rw [toNat_length (by omega)]
        omega
      rw [frame_eq hnone]
      unfold RecordBatch.front
      rw [hlen, hcrc]
      unfold RecordBatch.body
      simp only [List.append_assoc]
    · simp only [List.length_append, length_toBytes, List.length_nil]
      omega
    · simp only [List.length_append, length_toBytes, List.length_nil]
      omega
  · rintro ⟨b, count, payload, raw, rest, hoverride, hcrc, rfl, hshort, hcount, hraw, hspills⟩
    have hbody : (b.body payload).length = 40 + payload.length := by
      unfold RecordBatch.body
      rw [List.length_append, length_fields]
    have hframe : b.frame payload ++ rest = toBytes 8 b.baseOffset ++ (toBytes 4 (BitVec.ofNat 32
        (4 + 1 + 4 + (b.body payload).length)) ++ (toBytes 4 b.partitionLeaderEpoch ++ (toBytes 1 magicV2 ++
          (toBytes 4 (Crates.crc32c (b.body payload)) ++ (b.body payload ++ rest))))) := by
      rw [frame_eq hcrc]
      unfold RecordBatch.front RecordBatch.body
      simp only [List.append_assoc]
    have hlength : 4 + 1 + 4 + (b.body payload).length < 2 ^ 31 := by omega
    rw [hframe]
    refine ⟨_, _, rfl, _, _, rfl, ?_, ?_, _, _, rfl, _, _, rfl, rfl, _, _, rfl, ?_⟩
    · rw [toInt_length hlength]
      unfold batchHeaderAfterLength
      omega
    · rw [toNat_length hlength]
      simp only [List.length_append, length_toBytes, List.length_nil]
      omega
    · rw [toNat_length hlength, failsAt_peek (slice_eq _ (b.body payload) rest ?_), failsAt_require_error,
        failsAt_map, body_panics h ?_ (by omega)]
      · exact ⟨rfl, b, count, payload, raw, rfl, rfl, hoverride, hcrc, rfl, hcount, hraw, hspills⟩
      · simp only [List.length_append, length_toBytes, List.length_nil]
        omega
      · simp only [List.length_append, length_toBytes, List.length_nil]
        omega

/-- Where `decode_all` gets to: the buffer, or what is behind a batch that decodes. -/
inductive Reaches : Bytes → Bytes → Prop
  | here {buf : Bytes} : Reaches buf buf
  | after {buf rest : Bytes} {b : RecordBatch} {used : Nat} :
    RecordBatch.decode buf = .ok (b, used) → Reaches (buf.drop used) rest → Reaches buf rest

theorem Reaches.length_le (h : Reaches buf rest) : rest.length ≤ buf.length := by
  induction h with
  | here => exact Nat.le_refl _
  | after _ _ ih =>
    rw [List.length_drop] at ih
    omega

theorem Overruns.length_le (h : Overruns buf) : 12 ≤ buf.length := by
  obtain ⟨b, count, payload, raw, rest, -, hcrc, rfl, -⟩ := h
  rw [List.length_append, length_frame hcrc]
  omega

omit [Crates] in
theorem Failure.context_panic {e : Failure} {text : String} : e.context text = .panic ↔ e = .panic := by
  cases e <;> simp [Failure.context]

/-- **The loop of `decode_all`** panics where a batch it gets to does. -/
theorem decodeAllFrom_panics (h : CratesReturn) (pos : Nat) :
    decodeAllFrom buf pos = .error .panic ↔ ∃ rest, Reaches (buf.drop pos) rest ∧ Overruns rest := by
  -- the induction is on what the loop has still in front of it
  generalize hn : buf.length - pos = n
  induction n using Nat.strongRecOn generalizing pos with
  | _ n ih =>
  rw [decodeAllFrom]
  split
  · split
    · rename_i e hdecode
      constructor
      · intro hpanic
        have hpanic' : e = .panic := Failure.context_panic.mp (Except.error.inj hpanic)
        exact ⟨_, .here, (overruns_iff h).mp (hpanic' ▸ hdecode)⟩
      · rintro ⟨rest, hreach, hrest⟩
        cases hreach with
        | here =>
          rw [(overruns_iff h).mpr hrest] at hdecode
          cases hdecode
          rfl
        | after hok _ =>
          rw [hdecode] at hok
          cases hok
    · rename_i b used hdecode
      have hused := decode_used hdecode
      have hloop := ih (buf.length - (pos + used)) (by omega) (pos + used) rfl
      rw [← List.drop_drop] at hloop
      have hstep : (∃ rest, Reaches (buf.drop pos) rest ∧ Overruns rest) ↔
          ∃ rest, Reaches ((buf.drop pos).drop used) rest ∧ Overruns rest := by
        constructor
        · rintro ⟨rest, hreach, hrest⟩
          cases hreach with
          | here =>
            rw [(overruns_iff h).mpr hrest] at hdecode
            cases hdecode
          | after hok hreach =>
            rw [hdecode] at hok
            cases hok
            exact ⟨rest, hreach, hrest⟩
        · rintro ⟨rest, hreach, hrest⟩
          exact ⟨rest, .after hdecode hreach, hrest⟩
      rw [hstep, ← hloop]
      cases decodeAllFrom buf (pos + used) with
      | ok out => simp
      | error e => simp
  · rename_i hshort
    refine iff_of_false (fun hok => by cases hok) ?_
    rintro ⟨rest, hreach, hrest⟩
    have hle := hreach.length_le
    have hlen := hrest.length_le
    rw [List.length_drop] at hle
    omega

/-- **Where decoding is total**: it panics on no bytes but those of a batch, first or reached behind others,
that overruns; and what decodes takes at least its header, so the loop over the batches ends. -/
theorem decode_total (h : CratesReturn) :
    (∀ buf, RecordBatch.decode buf ≠ .error .panic ↔ ¬ Overruns buf) ∧
      (∀ buf, RecordBatch.decodeAll buf ≠ .error .panic ↔ ∀ rest, Reaches buf rest → ¬ Overruns rest) ∧
        ∀ buf b used, RecordBatch.decode buf = .ok (b, used) → 49 ≤ used := by
  refine ⟨fun buf => not_congr (overruns_iff h), fun buf => ?_, fun buf b used => decode_used⟩
  have hall : decodeAllFrom buf 0 = .error .panic ↔ ∃ rest, Reaches (buf.drop 0) rest ∧ Overruns rest :=
    decodeAllFrom_panics h 0
  rw [List.drop_zero] at hall
  show ¬ decodeAllFrom buf 0 = _ ↔ _
  rw [hall]
  push Not
  exact Iff.rfl

end

/-! ## One byte too many -/

theorem uncompressed_returns : @CratesReturn uncompressed := by
  intro codec c hc packed
  have hsame : @compressor uncompressed codec = some asItIs ∨ @compressor uncompressed codec = none := by
    unfold compressor
    repeat' split
    all_goals first | exact .inl rfl | exact .inr rfl
  rcases hsame with hsome | hnone
  · rw [hsome] at hc
    cases hc
    exact fun hpanic => by cases hpanic
  · rw [hnone] at hc
    cases hc

def emptyRecord : RecordItem where
  attributes := 0
  timestampDelta := 0
  offsetDelta := 0
  key := none
  value := none
  headers := []

/-- The record, said to take five. -/
def oneTooMany : Bytes := putVarint 5 ++ recordBody emptyRecord

/-- A frame around it whose length and CRC are right. -/
def spilled : RecordBatch := { secondBatch with recordCountOverride := some 1 }

theorem overlong_oneTooMany : @Overlong uncompressed oneTooMany := by
  let _ : Crates := uncompressed
  exact ⟨putVarint 5, 5, recordBody emptyRecord, emptyRecord, rfl, varint_reads 5, by decide,
    fields_reads (by decide +kernel), by decide +kernel⟩

/-- **The process panics** on a batch of which every check of the header holds. -/
theorem decode_panics :
    @RecordBatch.decode uncompressed (@RecordBatch.frame uncompressed spilled oneTooMany) = .error .panic ∧
      @RecordBatch.decodeAll uncompressed (@RecordBatch.frame uncompressed spilled oneTooMany) =
        .error .panic := by
  let _ : Crates := uncompressed
  suffices hover : Overruns (spilled.frame oneTooMany) from ⟨(overruns_iff uncompressed_returns).mpr hover,
    (decodeAllFrom_panics uncompressed_returns 0).mpr ⟨_, .here, hover⟩⟩
  refine ⟨spilled, 1, oneTooMany, oneTooMany, [], rfl, rfl,
    (List.append_nil _).symm, by decide +kernel, by decide, rfl, ?_⟩
  exact ⟨[], oneTooMany, [], (List.append_nil _).symm, by decide, List.forall_mem_nil _,
    overlong_oneTooMany⟩

theorem decode_total_uncompressed :
    (∀ buf, @RecordBatch.decode uncompressed buf ≠ .error .panic ↔ ¬ @Overruns uncompressed buf) ∧
      (∀ buf, @RecordBatch.decodeAll uncompressed buf ≠ .error .panic ↔
        ∀ rest, @Reaches uncompressed buf rest → ¬ @Overruns uncompressed rest) ∧
        ∀ buf b used, @RecordBatch.decode uncompressed buf = .ok (b, used) → 49 ≤ used :=
  @decode_total uncompressed uncompressed_returns

end BuildYourOwn.Kafka
