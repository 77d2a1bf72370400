import BuildYourOwn.Lib.Reader
import BuildYourOwn.Tls.Codes

/-!
# The TLS byte grammar: integers and length-prefixed vectors

Model of `tlstest/src/tls/buf.rs`. A `Writer` is the bytes it has, so `nest8`, `nest16` and `nest24` are
`vec8`, `vec16` and `vec24` of what is written inside. A `Reader` reads at a cursor; the path its errors
start with is an argument of every read.

Results: what is written is read back, as long as its length fits (`u8_reads` … `vec24_reads`), and what is
read is what would have been written (`u8_undoes` … `vec24_undoes`).
-/

namespace BuildYourOwn.Tls

open Lib Lib.Reader

/-! ## Writer -/

def u24Bytes (v : Nat) : Bytes := bigEndian 3 v

def u32Bytes (v : UInt32) : Bytes := bigEndian 4 v.toNat

/-- `Writer::vec8`; a length past one byte is cut. -/
def vec8 (v : Bytes) : Bytes := UInt8.ofNat v.length :: v

/-- `Writer::vec16`; a length past two bytes is cut. -/
def vec16 (v : Bytes) : Bytes := bigEndian 2 v.length ++ v

/-- `Writer::vec24`; a length past three bytes is cut. -/
def vec24 (v : Bytes) : Bytes := bigEndian 3 v.length ++ v

/-! ## Reader -/

/-- A computation that reads at a `Reader`. -/
abbrev Read := Reader UInt8 TlsError

namespace Read

def take (path : String) (n : Nat) (field : String) : Read Bytes := do
  let c ← here
  Reader.take (fun left =>
    .decode s!"{path}.{field}: wanted {n} byte(s), {left} left at offset {c.pos}") n

/-- The big-endian number of the next `w` bytes. -/
def number (path : String) (w : Nat) (field : String) : Read Nat := do
  let b ← take path w field
  pure (ofBigEndian b)

def u8 (path field : String) : Read UInt8 := do
  let n ← number path 1 field
  pure (UInt8.ofNat n)

def u16 (path field : String) : Read UInt16 := do
  let n ← number path 2 field
  pure (UInt16.ofNat n)

def u24 (path field : String) : Read Nat := number path 3 field

def u32 (path field : String) : Read UInt32 := do
  let n ← number path 4 field
  pure (UInt32.ofNat n)

/-- A vector with a length prefix of `w` bytes. -/
def vec (w : Nat) (path field : String) : Read Bytes := do
  let n ← number path w s!"{field}.length"
  take path n field

def vec8 (path field : String) : Read Bytes := vec 1 path field

def vec16 (path field : String) : Read Bytes := vec 2 path field

def vec24 (path field : String) : Read Bytes := vec 3 path field

def expectDone (path field : String) : Read Unit := do
  let c ← here
  require (c.buf.length - c.pos = 0)
    (.decode s!"{path}.{field}: {c.buf.length - c.pos} byte(s) left over after the structure ended")

end Read

/-! ## What is written is read back -/

section

variable {path field : String}

variable {b : Bytes}

theorem take_reads {n : Nat} (h : b.length = n) : Reads (Read.take path n field) b b := by
  subst h
  exact fun before rest => ReadsAt.here (Reads.take _ b before rest)

theorem number_reads {w n : Nat} (h : n < 256 ^ w) : Reads (Read.number path w field) (bigEndian w n) n := by
  have hread := (@take_reads path field _ _ (length_bigEndian w n)).map ofBigEndian
  rw [ofBigEndian_bigEndian, Nat.mod_eq_of_lt h] at hread
  exact hread

theorem u8_reads (v : UInt8) : Reads (Read.u8 path field) [v] v := by
  have hread := (@number_reads path field 1 _ v.toNat_lt).map UInt8.ofNat
  have hbytes : bigEndian 1 v.toNat = [v] := by
    show [UInt8.ofNat v.toNat] = [v]
    rw [UInt8.ofNat_toNat]
  rw [UInt8.ofNat_toNat, hbytes] at hread
  exact hread

theorem u16_reads (v : UInt16) : Reads (Read.u16 path field) (u16Bytes v) v := by
  have hread := (@number_reads path field 2 _ v.toNat_lt).map UInt16.ofNat
  rw [UInt16.ofNat_toNat] at hread
  exact hread

theorem vec_reads {w : Nat} (h : b.length < 256 ^ w) : Reads (Read.vec w path field) (bigEndian w b.length ++ b) b :=
  (number_reads h).bind (take_reads rfl)

theorem vec8_reads (h : b.length < 256) : Reads (Read.vec8 path field) (vec8 b) b :=
  vec_reads h

theorem vec16_reads (h : b.length < 65536) : Reads (Read.vec16 path field) (vec16 b) b :=
  vec_reads h

theorem vec24_reads (h : b.length < 16777216) : Reads (Read.vec24 path field) (vec24 b) b := vec_reads h

theorem expectDone_reads {α : Type} {f : Unit → Read α} {before : Bytes} {a : α} (h : ReadsAt (f ()) before [] [] a) :
    ReadsAt (Read.expectDone path field >>= f) before [] [] a := by
  refine ReadsAt.peek ?_ h
  show Reader.require _ _ _ = _
  unfold Reader.require
  rw [if_pos (by simp)]
  rfl

/-! ## What is read is what would have been written -/

theorem take_takes (n : Nat) : Takes (Read.take path n field) fun b taken _ => taken = b ∧ b.length = n := by
  intro before bs b c' heq
  obtain ⟨c, c₁, hhere, htake⟩ := bind_ok.mp heq
  cases hhere
  exact Takes.take _ n before bs b c' htake

theorem take_undoes {n : Nat} : Undoes (Read.take path n field) fun b => b :=
  (take_takes n).mono fun _ _ _ h => h.1

theorem number_takes (w : Nat) :
    Takes (Read.number path w field) fun n taken _ => taken = bigEndian w n ∧ n < 256 ^ w := by
  refine Takes.bind (take_takes w) fun b t => Takes.pure fun rest => ?_
  rintro ⟨rfl, rfl⟩
  rw [List.append_nil]
  exact ⟨(bigEndian_ofBigEndian t).symm, ofBigEndian_lt t⟩

theorem u8_undoes : Undoes (Read.u8 path field) fun v => [v] := by
  refine Takes.bind (number_takes 1) fun n t => Takes.pure fun rest => ?_
  rintro ⟨rfl, -⟩
  rw [List.append_nil]
  rfl

theorem u16_undoes : Undoes (Read.u16 path field) u16Bytes := by
  refine Takes.bind (number_takes 2) fun n t => Takes.pure fun rest => ?_
  rintro ⟨rfl, hn⟩
  unfold u16Bytes
  rw [List.append_nil, UInt16.toNat_ofNat', Nat.mod_eq_of_lt (show n < 2 ^ 16 from hn)]

theorem vec_undoes (w : Nat) : Undoes (Read.vec w path field) fun b => bigEndian w b.length ++ b := by
  refine Takes.bind (number_takes w) fun n t => (take_takes n).mono fun b u rest hb ht => ?_
  obtain ⟨rfl, rfl⟩ := hb
  rw [ht.1]

theorem vec8_undoes : Undoes (Read.vec8 path field) vec8 := vec_undoes 1

theorem vec16_undoes : Undoes (Read.vec16 path field) vec16 := vec_undoes 2

theorem vec24_undoes : Undoes (Read.vec24 path field) vec24 := vec_undoes 3

theorem expectDone_takes {α : Type} {f : Unit → Read α} {Q : α → Bytes → Bytes → Prop}
    (h : Takes (f ()) fun b u rest => u = [] → rest = [] → Q b [] []) :
    Takes (Read.expectDone path field >>= f) Q := Takes.atEnd h

end

end BuildYourOwn.Tls

/-!
## TLS handshake messages

Model of `tlstest/src/tls/msg.rs`: extensions, the ClientHello, the framing of handshake messages, and the
messages a server sends. `KeyExchange` is in `Tls/KeyExchange.lean`.

A parser is a `Reader` that is run over the whole body. A sub-reader is run over the bytes of its vector,
and what it gives is lifted.
-/

namespace BuildYourOwn.Tls

open Lib Lib.Reader

/-! ## Extensions -/

structure Extension where
  extType : UInt16
  data : Bytes
deriving DecidableEq

def Extension.encode (e : Extension) : Bytes := u16Bytes e.extType ++ vec16 e.data

def encodeExtensions (extensions : List Extension) : Bytes := vec16 (extensions.flatMap Extension.encode)

/-- The body of the loop of `parse_extensions`. -/
def readExtension (path : String) (i : Nat) : Read Extension := do
  let extType ← Read.u16 path s!"extensions[{i}].extension_type"
  let data ← Read.vec16 path s!"extensions[{i}].extension_data"
  pure ⟨extType, data⟩

def parseExtensions (bytes : Bytes) (path : String) : Except TlsError (List Extension) :=
  run (untilDone (readExtension path) 0) bytes

def findExtension (extensions : List Extension) (extType : UInt16) : Option Extension :=
  extensions.find? fun e => e.extType = extType

def serverNameExtension (host : String) : Extension :=
  ⟨extServerName, vec16 (0 :: vec16 (asBytes host))⟩

def alpnExtension (protocols : List String) : Extension :=
  ⟨extAlpn, vec16 (protocols.flatMap fun p => vec8 (asBytes p))⟩

def supportedVersionsExtension (versions : List UInt16) : Extension :=
  ⟨extSupportedVersions, vec8 (versions.flatMap u16Bytes)⟩

def supportedGroupsExtension (groups : List UInt16) : Extension :=
  ⟨extSupportedGroups, vec16 (groups.flatMap u16Bytes)⟩

def signatureAlgorithmsExtension (schemes : List UInt16) : Extension :=
  ⟨extSignatureAlgorithms, vec16 (schemes.flatMap u16Bytes)⟩

def pskKeyExchangeModesExtension (modes : Bytes) : Extension := ⟨extPskKeyExchangeModes, vec8 modes⟩

def clientKeyShareExtension (shares : List (UInt16 × Bytes)) : Extension :=
  ⟨extKeyShare, vec16 (shares.flatMap fun s => u16Bytes s.1 ++ vec16 s.2)⟩

def cookieExtension (cookie : Bytes) : Extension := ⟨extCookie, vec16 cookie⟩

def earlyDataExtension : Extension := ⟨extEarlyData, []⟩

/-! ## The framing of handshake messages -/

structure HandshakeMessage where
  msgType : HandshakeType
  body : Bytes
  raw : Bytes
deriving DecidableEq

def HandshakeMessage.parse (bytes : Bytes) : Except TlsError (HandshakeMessage × Nat) :=
  match bytes with
  | t :: l₂ :: l₁ :: l₀ :: rest =>
    let length := ofBigEndian [l₂, l₁, l₀]
    if rest.length < length then
      .error (.decode (s!"handshake message {(HandshakeType.mk t).name} claims a {length}-byte body, " ++
        s!"{rest.length} arrived"))
    else .ok ({ msgType := ⟨t⟩, body := rest.take length, raw := bytes.take (4 + length) }, 4 + length)
  | _ => .error (.decode s!"a handshake header is four bytes; only {bytes.length} arrived")

def HandshakeMessage.name (m : HandshakeMessage) : String := m.msgType.name

/-- `encode_handshake`; a length past three bytes is cut. -/
def encodeHandshake (msgType : HandshakeType) (body : Bytes) : Bytes :=
  msgType.code :: u24Bytes body.length ++ body

/-! ## ClientHello -/

structure ClientHello where
  legacyVersion : UInt16
  random : Sized 32
  legacySessionId : Bytes
  cipherSuites : List UInt16
  legacyCompressionMethods : Bytes
  extensions : List Extension
deriving DecidableEq

/-- `try_into` of an array of 32 bytes. -/
def intoRandom (b : Bytes) (e : TlsError) : Except TlsError (Sized 32) :=
  if h : b.length = 32 then .ok ⟨b, h⟩ else .error e

def ClientHello.encodeBody (h : ClientHello) : Bytes :=
  u16Bytes h.legacyVersion ++ h.random.val ++ vec8 h.legacySessionId ++
    vec16 (h.cipherSuites.flatMap u16Bytes) ++ vec8 h.legacyCompressionMethods ++
    encodeExtensions h.extensions

def ClientHello.encode (h : ClientHello) : Bytes := encodeHandshake .clientHello h.encodeBody

def ClientHello.parseBody (body : Bytes) : Except TlsError ClientHello :=
  run (do
    let legacyVersion ← Read.u16 "client_hello" "legacy_version"
    let bytes ← Read.take "client_hello" 32 "random"
    let random ← lift (intoRandom bytes (.decode "client_hello.random must be 32 bytes"))
    let legacySessionId ← Read.vec8 "client_hello" "legacy_session_id"
    let suites ← Read.vec16 "client_hello" "cipher_suites"
    let cipherSuites ←
      lift (run (untilDone (fun _ => Read.u16 "client_hello.cipher_suites" "entry") 0) suites)
    let legacyCompressionMethods ← Read.vec8 "client_hello" "legacy_compression_methods"
    let extBytes ← Read.vec16 "client_hello" "extensions"
    let extensions ← lift (parseExtensions extBytes "client_hello")
    Read.expectDone "client_hello" "client_hello"
    pure ⟨legacyVersion, random, legacySessionId, cipherSuites, legacyCompressionMethods, extensions⟩) body

/-! ## ServerHello -/

def helloRetryRequestRandom : Bytes :=
  [0xCF, 0x21, 0xAD, 0x74, 0xE5, 0x9A, 0x61, 0x11, 0xBE, 0x1D, 0x8C, 0x02, 0x1E, 0x65, 0xB8, 0x91,
    0xC2, 0xA2, 0x11, 0x16, 0x7A, 0xBB, 0x8C, 0x5E, 0x07, 0x9E, 0x09, 0xE2, 0xC8, 0xA8, 0x33, 0x9C]

structure ServerHello where
  legacyVersion : UInt16
  random : Sized 32
  legacySessionIdEcho : Bytes
  cipherSuite : UInt16
  legacyCompressionMethod : UInt8
  extensions : List Extension
deriving DecidableEq

namespace ServerHello

def parse (body : Bytes) : Except TlsError ServerHello :=
  run (do
    let legacyVersion ← Read.u16 "server_hello" "legacy_version"
    let bytes ← Read.take "server_hello" 32 "random"
    let random ← lift (intoRandom bytes (.decode "server_hello.random must be 32 bytes"))
    let legacySessionIdEcho ← Read.vec8 "server_hello" "legacy_session_id_echo"
    let cipherSuite ← Read.u16 "server_hello" "cipher_suite"
    let legacyCompressionMethod ← Read.u8 "server_hello" "legacy_compression_method"
    let extBytes ← Read.vec16 "server_hello" "extensions"
    let extensions ← lift (parseExtensions extBytes "server_hello")
    Read.expectDone "server_hello" "server_hello"
    pure ⟨legacyVersion, random, legacySessionIdEcho, cipherSuite, legacyCompressionMethod, extensions⟩) body

def isHelloRetryRequest (h : ServerHello) : Bool := h.random.val = helloRetryRequestRandom

/-- What `r` reads of the extension of this type, when there is one. -/
def readExt {α : Type} (h : ServerHello) (extType : UInt16) (r : Read α) : Except TlsError (Option α) :=
  match findExtension h.extensions extType with
  | none => .ok none
  | some e => (run r e.data).map some

def keyShare (h : ServerHello) : Except TlsError (Option (UInt16 × Bytes)) :=
  h.readExt extKeyShare do
    let group ← Read.u16 "server_hello.key_share" "group"
    let keyExchange ← Read.vec16 "server_hello.key_share" "key_exchange"
    Read.expectDone "server_hello.key_share" "key_share"
    pure (group, keyExchange)

def retryGroup (h : ServerHello) : Except TlsError (Option UInt16) :=
  h.readExt extKeyShare do
    let group ← Read.u16 "hello_retry_request.key_share" "selected_group"
    Read.expectDone "hello_retry_request.key_share" "key_share"
    pure group

def cookie (h : ServerHello) : Except TlsError (Option Bytes) :=
  h.readExt extCookie do
    let cookie ← Read.vec16 "hello_retry_request.cookie" "cookie"
    Read.expectDone "hello_retry_request.cookie" "cookie"
    pure cookie

def selectedPsk (h : ServerHello) : Except TlsError (Option UInt16) :=
  h.readExt extPreSharedKey do
    let index ← Read.u16 "server_hello.pre_shared_key" "selected_identity"
    Read.expectDone "server_hello.pre_shared_key" "pre_shared_key"
    pure index

end ServerHello

/-! ## Certificate, CertificateRequest, CertificateVerify -/

structure CertificateMsg where
  requestContext : Bytes
  entries : List (Bytes × List Extension)
deriving DecidableEq

namespace CertificateMsg

/-- The body of the loop of `CertificateMsg::parse`. -/
def readEntry (i : Nat) : Read (Bytes × List Extension) := do
  let certData ← Read.vec24 "certificate.certificate_list" s!"[{i}].cert_data"
  let extBytes ← Read.vec16 "certificate.certificate_list" s!"[{i}].extensions"
  let extensions ← lift (parseExtensions extBytes s!"certificate.certificate_list[{i}]")
  pure (certData, extensions)

def parse (body : Bytes) : Except TlsError CertificateMsg :=
  run (do
    let requestContext ← Read.vec8 "certificate" "certificate_request_context"
    let list ← Read.vec24 "certificate" "certificate_list"
    Read.expectDone "certificate" "certificate"
    let entries ← lift (run (untilDone readEntry 0) list)
    pure ⟨requestContext, entries⟩) body

/-- One entry as `encode_body` writes it. -/
def encodeEntry (e : Bytes × List Extension) : Bytes := vec24 e.1 ++ encodeExtensions e.2

def encodeBody (m : CertificateMsg) : Bytes :=
  vec8 m.requestContext ++ vec24 (m.entries.flatMap encodeEntry)

def one (requestContext der : Bytes) : CertificateMsg := ⟨requestContext, [(der, [])]⟩

def none (requestContext : Bytes) : CertificateMsg := ⟨requestContext, []⟩

def leaf (m : CertificateMsg) : Except TlsError Bytes :=
  match m.entries with
  | e :: _ => .ok e.1
  | [] => .error (.protocol ("certificate.certificate_list is empty: a server must send its " ++
      "end-entity certificate first"))

end CertificateMsg

structure CertificateRequestMsg where
  context : Bytes
  extensions : List Extension
deriving DecidableEq

namespace CertificateRequestMsg

def parse (body : Bytes) : Except TlsError CertificateRequestMsg :=
  run (do
    let context ← Read.vec8 "certificate_request" "certificate_request_context"
    let extBytes ← Read.vec16 "certificate_request" "extensions"
    Read.expectDone "certificate_request" "certificate_request"
    let extensions ← lift (parseExtensions extBytes "certificate_request")
    pure ⟨context, extensions⟩) body

def signatureAlgorithms (m : CertificateRequestMsg) : Except TlsError (List UInt16) :=
  match findExtension m.extensions extSignatureAlgorithms with
  | .none => .error (.protocol ("certificate_request has no signature_algorithms: RFC 8446 section " ++
      "4.3.2 makes it mandatory, because nothing else tells the client what to sign with"))
  | some e =>
    run (do
      let list ← Read.vec16 "certificate_request.signature_algorithms" "supported_signature_algorithms"
      lift (run (untilDone (fun _ => Read.u16 "supported_signature_algorithms" "scheme") 0) list)) e.data

end CertificateRequestMsg

structure CertificateVerifyMsg where
  algorithm : UInt16
  signature : Bytes
deriving DecidableEq

namespace CertificateVerifyMsg

def encodeBody (m : CertificateVerifyMsg) : Bytes := u16Bytes m.algorithm ++ vec16 m.signature

def parse (body : Bytes) : Except TlsError CertificateVerifyMsg :=
  run (do
    let algorithm ← Read.u16 "certificate_verify" "algorithm"
    let signature ← Read.vec16 "certificate_verify" "signature"
    Read.expectDone "certificate_verify" "certificate_verify"
    pure ⟨algorithm, signature⟩) body

end CertificateVerifyMsg

/-! ## NewSessionTicket, KeyUpdate, alerts -/

structure NewSessionTicket where
  ticketLifetime : UInt32
  ticketAgeAdd : UInt32
  ticketNonce : Bytes
  ticket : Bytes
  extensions : List Extension
deriving DecidableEq

def NewSessionTicket.parse (body : Bytes) : Except TlsError NewSessionTicket :=
  run (do
    let ticketLifetime ← Read.u32 "new_session_ticket" "ticket_lifetime"
    let ticketAgeAdd ← Read.u32 "new_session_ticket" "ticket_age_add"
    let ticketNonce ← Read.vec8 "new_session_ticket" "ticket_nonce"
    let ticket ← Read.vec16 "new_session_ticket" "ticket"
    let extBytes ← Read.vec16 "new_session_ticket" "extensions"
    let extensions ← lift (parseExtensions extBytes "new_session_ticket")
    Read.expectDone "new_session_ticket" "new_session_ticket"
    pure ⟨ticketLifetime, ticketAgeAdd, ticketNonce, ticket, extensions⟩) body

structure KeyUpdate where
  requestUpdate : UInt8
deriving DecidableEq

def KeyUpdate.parse (body : Bytes) : Except TlsError KeyUpdate :=
  run (do
    let requestUpdate ← Read.u8 "key_update" "request_update"
    Read.expectDone "key_update" "key_update"
    pure ⟨requestUpdate⟩) body

/-- The body that `KeyUpdate::encode` wraps. -/
def KeyUpdate.body (u : KeyUpdate) : Bytes := [u.requestUpdate]

def KeyUpdate.encode (u : KeyUpdate) : Bytes := encodeHandshake .keyUpdate u.body

structure Alert where
  level : AlertLevel
  description : AlertDescription
deriving DecidableEq

def Alert.parse (body : Bytes) : Except TlsError Alert :=
  match body with
  | [level, description] => .ok ⟨.fromU8 level, ⟨description⟩⟩
  | _ => .error (.decode
      s!"an alert is exactly two bytes (level, description); {body.length} arrived")

end BuildYourOwn.Tls
