import BuildYourOwn.Tls.Crypto

/-!
# The TLS record layer

Model of `tlstest/src/tls/record.rs`: `Record`, `InnerPlaintext` and `RecordLayer`.

A call of the layer is an action: it changes the layer and returns `Ok` or `Err`, or it panics, which is
where the action does not come back. A sequence number that would pass `u64::MAX` is such a panic.

Results: what is built parses (`parse_build`, `innerParse_build`), and what `seal` and `open` do, branch by
branch (`seal_cases`, `open_cases`).
-/

namespace BuildYourOwn.Tls

open Lib

/-! ## Records -/

structure Record where
  contentType : ContentType
  legacyVersion : UInt16
  fragment : Bytes
  raw : Bytes
deriving DecidableEq

def Record.header (r : Record) : Bytes :=
  r.contentType.asU8 :: u16Bytes r.legacyVersion ++ bigEndian 2 r.fragment.length

/-- `Record::build`; a length past `u16::MAX` is cut. -/
def Record.build (contentType : UInt8) (legacyVersion : UInt16) (fragment : Bytes) : Bytes :=
  contentType :: u16Bytes legacyVersion ++ bigEndian 2 fragment.length ++ fragment

def Record.parse (bytes : Bytes) : Except TlsError (Record × Nat) :=
  match bytes with
  | t :: v₁ :: v₀ :: l₁ :: l₀ :: rest =>
    let length := ofBigEndian [l₁, l₀]
    if rest.length < length then
      .error (.record
        s!"the record header claims {length} fragment bytes, {rest.length} arrived")
    else
      .ok ({ contentType := .fromU8 t
             legacyVersion := .ofNat (ofBigEndian [v₁, v₀])
             fragment := rest.take length
             raw := bytes.take (5 + length) }, 5 + length)
  | _ => .error (.record s!"a record header is five bytes; only {bytes.length} arrived")

/-! ## Inner plaintexts -/

structure InnerPlaintext where
  contentType : ContentType
  content : Bytes
  padding : Nat
deriving DecidableEq

/-- `Iterator::rposition` of a byte that is not zero. -/
def rposition (bytes : Bytes) : Option Nat :=
  (bytes.reverse.findIdx? (· ≠ 0)).map fun i => bytes.length - 1 - i

def InnerPlaintext.build (contentType : ContentType) (content : Bytes) (padding : Nat) : Bytes :=
  content ++ [contentType.asU8] ++ List.replicate padding 0

def InnerPlaintext.parse (decrypted : Bytes) : Except TlsError InnerPlaintext :=
  match rposition decrypted with
  | none =>
    .error (.record ("the decrypted record is all zeros: TLSInnerPlaintext has no content type byte " ++
      "(RFC 8446 section 5.4)"))
  | some «end» =>
    .ok { contentType := .fromU8 (decrypted.getD «end» 0)
          content := decrypted.take «end»
          padding := decrypted.length - «end» - 1 }

/-! ## The layer -/

structure RecordLayer where
  write : Option TrafficKeys
  writeSeq : UInt64
  read : Option TrafficKeys
  readSeq : UInt64
  writeVersion : UInt16

namespace RecordLayer

def new : RecordLayer := ⟨none, 0, none, 0, legacyVersionTls12⟩

def setWrite (l : RecordLayer) (keys : TrafficKeys) : RecordLayer :=
  { l with write := some keys, writeSeq := 0 }

def setRead (l : RecordLayer) (keys : TrafficKeys) : RecordLayer :=
  { l with read := some keys, readSeq := 0 }

def readingEncrypted (l : RecordLayer) : Bool := l.read.isSome

end RecordLayer

/-- `seq += 1` of a `u64`; `none` is the panic. -/
def nextSeq (seq : UInt64) : Option UInt64 := if seq + 1 = 0 then none else some (seq + 1)

section variable [Crates]

def RecordLayer.seal (contentType : ContentType) (content : Bytes) (padding : Nat) :
    Action RecordLayer TlsError Bytes := do
  let l ← Action.get
  match l.write with
  | none => pure (Record.build contentType.asU8 l.writeVersion content)
  | some keys =>
    let inner := InnerPlaintext.build contentType content padding
    let length := inner.length + keys.aead.tagLen
    Action.require (length ≤ maxCiphertext) (.record
      s!"a protected record would be {length} bytes, more than the {maxCiphertext} limit")
    let aad := ContentType.applicationData.asU8 :: u16Bytes l.writeVersion ++ bigEndian 2 length
    let nonce ← Action.orStop (keys.nonce l.writeSeq)
    let outcome ← Action.orStop (keys.aead.seal keys.key nonce aad inner)
    let sealed ← Action.lift outcome
    let seq ← Action.orStop (nextSeq l.writeSeq)
    Action.modify fun l => { l with writeSeq := seq }
    pure (aad ++ sealed)

/-- The `map_err` of `open`. -/
def sayWhere (readSeq : UInt64) (nonce : Bytes) : TlsError → TlsError
  | .crypto m => .crypto s!"{m} — read sequence number {readSeq}, nonce {hex nonce}"
  | other => other

def RecordLayer.open (record : Record) : Action RecordLayer TlsError InnerPlaintext := do
  let l ← Action.get
  let keys ← Action.demand l.read (.record "cannot open a record: no read keys are in force yet")
  let nonce ← Action.orStop (keys.nonce l.readSeq)
  let aad := record.header
  let outcome ← Action.orStop (keys.aead.open keys.key nonce aad record.fragment)
  let plain ← Action.lift (outcome.mapError (sayWhere l.readSeq nonce))
  let seq ← Action.orStop (nextSeq l.readSeq)
  Action.modify fun l => { l with readSeq := seq }
  Action.lift (InnerPlaintext.parse plain)

end

/-! ## What is built parses -/

theorem bigEndian_two (n : Nat) : bigEndian 2 n = [UInt8.ofNat (n / 256), UInt8.ofNat n] := rfl

theorem length_build (t : UInt8) (v : UInt16) (fragment : Bytes) :
    (Record.build t v fragment).length = 5 + fragment.length := by
  unfold Record.build
  simp only [List.length_append, List.length_cons, length_u16Bytes, length_bigEndian]

/-- What `Record.build` builds, as a record. -/
def Record.built (t : UInt8) (v : UInt16) (fragment : Bytes) : Record :=
  ⟨.fromU8 t, v, fragment, Record.build t v fragment⟩

theorem header_built (t : UInt8) (v : UInt16) (fragment : Bytes) :
    (Record.built t v fragment).header = t :: u16Bytes v ++ bigEndian 2 fragment.length := by
  unfold Record.header Record.built
  rw [asU8_fromU8]

/-- **A record** in front of other bytes parses, as long as its length fits. -/
theorem parse_build (t : UInt8) (v : UInt16) {fragment : Bytes} (h : fragment.length < 65536) (rest : Bytes) :
    Record.parse (Record.build t v fragment ++ rest) =
      .ok (Record.built t v fragment, (Record.build t v fragment).length) := by
  have hlength : ofBigEndian [UInt8.ofNat (fragment.length / 256), UInt8.ofNat fragment.length] =
      fragment.length := by
    rw [← bigEndian_two, ofBigEndian_bigEndian]
    exact Nat.mod_eq_of_lt h
  have hversion : UInt16.ofNat (ofBigEndian [UInt8.ofNat (v.toNat / 256), UInt8.ofNat v.toNat]) = v := by
    rw [← bigEndian_two, ← u16Bytes, ofBigEndian_u16Bytes, UInt16.ofNat_toNat]
  have hraw : (Record.build t v fragment ++ rest).take (5 + fragment.length) =
      Record.build t v fragment := by
    rw [← length_build t v fragment, List.take_left]
  have hbytes : Record.build t v fragment ++ rest =
      t :: UInt8.ofNat (v.toNat / 256) :: UInt8.ofNat v.toNat ::
        UInt8.ofNat (fragment.length / 256) :: UInt8.ofNat fragment.length :: (fragment ++ rest) := rfl
  rw [hbytes] at hraw ⊢
  unfold Record.parse
  dsimp only
  rw [hlength, if_neg (by rw [List.length_append]; omega), hversion, List.take_left, hraw,
    length_build]
  rfl

theorem rposition_eq {b : UInt8} (hb : b ≠ 0) (content : Bytes) (padding : Nat) :
    rposition (content ++ [b] ++ List.replicate padding 0) = some content.length := by
  have hfind : (content ++ [b] ++ List.replicate padding 0).reverse.findIdx? (· ≠ 0) =
      some padding := by
    rw [List.reverse_append, List.reverse_append, List.reverse_replicate, List.findIdx?_append]
    simp [List.findIdx?_cons, hb]
  unfold rposition
  rw [hfind, Option.map_some]
  simp only [List.length_append, List.length_replicate, List.length_singleton]
  congr 1
  omega

theorem innerParse_build {t : ContentType} (ht : t.asU8 ≠ 0) (content : Bytes) (padding : Nat) :
    InnerPlaintext.parse (InnerPlaintext.build t content padding) = .ok ⟨.fromU8 t.asU8, content, padding⟩ := by
  unfold InnerPlaintext.parse InnerPlaintext.build
  rw [rposition_eq ht]
  have htype : (content ++ [t.asU8] ++ List.replicate padding 0).getD content.length 0 = t.asU8 := by
    simp
  have hcontent : (content ++ [t.asU8] ++ List.replicate padding 0).take content.length = content := by
    rw [List.append_assoc, List.take_left]
  dsimp only
  rw [htype, hcontent]
  simp only [List.length_append, List.length_replicate, List.length_singleton]
  congr 2
  omega

/-! ## What a call does -/

section variable [Crates]

theorem aeadSeal_ok {alg : AeadAlg} {key nonce aad msg sealed : Bytes}
    (h : alg.seal key nonce aad msg = some (.ok sealed)) : key.length = alg.keyLen ∧ nonce.length = 12 ∧
      ∃ out, Crates.encrypt alg key nonce aad msg = some out ∧ sealed = out.val := by
  unfold AeadAlg.seal AeadAlg.keyed at h
  split at h
  · cases h
  · rename_i hkey
    split at h
    · cases h
    · rename_i hnonce
      refine ⟨not_not.mp hkey, not_not.mp hnonce, ?_⟩
      split at h
      · rename_i out hout
        cases h
        exact ⟨out, hout, rfl⟩
      · cases h

/-- The header that goes in front of `sealed`. -/
def aadOf (version : UInt16) (sealed : Bytes) : Bytes :=
  ContentType.applicationData.asU8 :: u16Bytes version ++ bigEndian 2 sealed.length

/-- What the protected branch of `seal` comes to. -/
structure Sealed (l : RecordLayer) (t : ContentType) (content : Bytes) (padding : Nat)
    (keys : TrafficKeys) (nonce sealed : Bytes) (seq : UInt64) : Prop where
  hwrite : l.write = some keys
  hnonce : keys.nonce l.writeSeq = some nonce
  hout : keys.aead.seal keys.key nonce (aadOf l.writeVersion sealed)
    (InnerPlaintext.build t content padding) = some (.ok sealed)
  hseq : nextSeq l.writeSeq = some seq
  hsmall : sealed.length ≤ maxCiphertext

variable {l l' : RecordLayer} {t : ContentType} {content bytes : Bytes} {padding : Nat}

/-- **`seal`**, when it returns a record. -/
theorem seal_cases (h : RecordLayer.seal t content padding l = some (.ok bytes, l')) :
    (l.write = none ∧ l' = l ∧ bytes = Record.build t.asU8 l.writeVersion content) ∨
    ∃ keys nonce sealed seq, Sealed l t content padding keys nonce sealed seq ∧
      l' = { l with writeSeq := seq } ∧
      bytes = Record.build ContentType.applicationData.asU8 l.writeVersion sealed := by
  unfold RecordLayer.seal at h
  replace h := Action.bind_get_ok.mp h
  cases hwrite : l.write with
  | none =>
    rw [hwrite] at h
    obtain ⟨rfl, rfl⟩ := Action.pure_ok.mp h
    exact .inl ⟨rfl, rfl, rfl⟩
  | some keys =>
    rw [hwrite] at h
    simp only [Action.bind_ok, Action.require_ok, Action.orStop_ok, Action.lift_ok,
      Action.modify_ok, Action.pure_ok] at h
    obtain ⟨_, _, ⟨hsmall, rfl⟩, nonce, _, ⟨hnonce, rfl⟩, _, _, ⟨hout, rfl⟩, sealed, _, ⟨rfl, rfl⟩,
      seq, _, ⟨hseq, rfl⟩, _, _, rfl, rfl, rfl⟩ := h
    obtain ⟨hkey, hlen, out, henc, rfl⟩ := aeadSeal_ok hout
    have hlength : out.val.length =
        (InnerPlaintext.build t content padding).length + keys.aead.tagLen := out.property
    rw [← hlength] at hout hsmall
    refine .inr ⟨keys, nonce, out.val, seq, ⟨hwrite, hnonce, hout, hseq, hsmall⟩, ?_, ?_⟩
    · rw [hwrite]
    · rw [← hlength]
      rfl

/-- **`seal`**, when it returns an error, leaves the layer alone. -/
theorem seal_error {e : TlsError} (h : RecordLayer.seal t content padding l = some (.error e, l')) : l' = l := by
  unfold RecordLayer.seal at h
  simp only [Action.bind_error, Action.get_error, false_or] at h
  obtain ⟨_, _, hget, h⟩ := h
  obtain ⟨rfl, rfl⟩ := Action.get_ok.mp hget
  cases hwrite : l.write with
  | none =>
    rw [hwrite] at h
    exact (Action.pure_error.mp h).elim
  | some keys =>
    rw [hwrite] at h
    simp only [Action.bind_error, Action.require_error, Action.require_ok, Action.orStop_error,
      Action.orStop_ok, Action.lift_error, Action.lift_ok, Action.modify_error, Action.pure_error,
      false_or] at h
    rcases h with ⟨_, _, rfl⟩ | ⟨_, _, ⟨_, rfl⟩, _, _, ⟨_, rfl⟩, _, _, ⟨_, rfl⟩, h⟩
    · rfl
    · rcases h with ⟨_, rfl⟩ | ⟨_, _, _, _, _, _, _, _, _, h⟩
      · rfl
      · exact h.elim

/-- **`open`**, when it returns an inner plaintext. -/
theorem open_ok {r : Record} {inner : InnerPlaintext} : RecordLayer.open r l = some (.ok inner, l') ↔
      ∃ keys nonce plain seq, l.read = some keys ∧ keys.nonce l.readSeq = some nonce ∧
        keys.aead.open keys.key nonce r.header r.fragment = some (.ok plain) ∧
        nextSeq l.readSeq = some seq ∧ InnerPlaintext.parse plain = .ok inner ∧ l' = { l with readSeq := seq } := by
  unfold RecordLayer.open
  simp only [Action.bind_ok, Action.get_ok, Action.demand_ok, Action.orStop_ok, Action.lift_ok,
    Action.modify_ok]
  constructor
  · rintro ⟨_, _, ⟨rfl, rfl⟩, keys, _, ⟨hread, rfl⟩, nonce, _, ⟨hnonce, rfl⟩, outcome, _,
      ⟨hout, rfl⟩, plain, _, ⟨hplain, rfl⟩, seq, _, ⟨hseq, rfl⟩, _, _, rfl, hparse, rfl⟩
    cases outcome with
    | error e => cases hplain
    | ok _ =>
      cases hplain
      exact ⟨keys, nonce, plain, seq, hread, hnonce, hout, hseq, hparse, rfl⟩
  · rintro ⟨keys, nonce, plain, seq, hread, hnonce, hout, hseq, hparse, rfl⟩
    exact ⟨l, l, ⟨rfl, rfl⟩, keys, l, ⟨hread, rfl⟩, nonce, l, ⟨hnonce, rfl⟩, .ok plain, l,
      ⟨hout, rfl⟩, plain, l, ⟨rfl, rfl⟩, seq, l, ⟨hseq, rfl⟩, (), _, rfl, hparse, rfl⟩

/-- **`open`**, when the AEAD refuses, leaves the layer alone. -/
theorem open_crypto {r : Record} {m : String} (h : RecordLayer.open r l = some (.error (.crypto m), l')) : l' = l := by
  unfold RecordLayer.open at h
  simp only [Action.bind_error, Action.get_error, Action.get_ok, Action.demand_error,
    Action.demand_ok, Action.orStop_error, Action.orStop_ok, Action.lift_error, Action.lift_ok,
    Action.modify_error, Action.modify_ok, false_or] at h
  obtain ⟨_, _, ⟨rfl, rfl⟩, h⟩ := h
  rcases h with ⟨_, h, _⟩ | ⟨_, _, ⟨_, rfl⟩, _, _, ⟨_, rfl⟩, _, _, ⟨_, rfl⟩, h⟩
  · cases h
  · rcases h with ⟨_, rfl⟩ | ⟨plain, _, ⟨_, rfl⟩, _, _, ⟨_, rfl⟩, _, _, rfl, hparse, _⟩
    · rfl
    · -- what does not parse is a `Record` error
      unfold InnerPlaintext.parse at hparse
      split at hparse
      · cases hparse
      · cases hparse

end

end BuildYourOwn.Tls
