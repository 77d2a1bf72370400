import BuildYourOwn.Lib.Contract
import BuildYourOwn.Tls.Messages

/-!
# Naming every field of a byte string

Model of `tlstest/src/tls/annotate.rs`: `records`, `handshake` and `handshake_flight`, with the walks over messages,
extension blocks and extension bodies.

* A value is kept as what it shows (`Shown`); `Shown.text` is the text of it.
* `Into` is a computation on the walk. It stops where the source would panic: an index or a slice out of range, or a
  loop that goes round more often than there are bytes.
* A `Reader` is what it has left to read (`Into.read`): which offset its errors name is not looked at, since every
  caller here drops the error.
-/

namespace BuildYourOwn.Tls

open Lib

/-! ## Names -/

def hexPrefix (bytes : Bytes) (n : Nat) : String :=
  if bytes.length ≤ n then hex bytes else s!"{hex (bytes.take n)}… ({bytes.length} bytes)"

def extName (ext : UInt16) : String :=
  match ([(0, "server_name"), (1, "max_fragment_length"), (5, "status_request"), (10, "supported_groups"),
    (13, "signature_algorithms"), (14, "use_srtp"), (15, "heartbeat"),
    (16, "application_layer_protocol_negotiation"), (18, "signed_certificate_timestamp"),
    (19, "client_certificate_type"), (20, "server_certificate_type"), (21, "padding"), (41, "pre_shared_key"),
    (42, "early_data"), (43, "supported_versions"), (44, "cookie"), (45, "psk_key_exchange_modes"),
    (47, "certificate_authorities"), (48, "oid_filters"), (49, "post_handshake_auth"),
    (50, "signature_algorithms_cert"), (51, "key_share")] : List (UInt16 × String)).lookup ext with
  | some n => s!"{n}({ext})"
  | none => if isGrease ext then s!"GREASE(0x{hexDigits 4 ext.toNat})" else s!"unknown({ext})"

def versionName (v : UInt16) : String :=
  if v = 0x0304 then "TLS 1.3 (0x0304)"
  else if v = 0x0303 then "TLS 1.2 (0x0303)"
  else if v = 0x0302 then "TLS 1.1 (0x0302)"
  else if v = 0x0301 then "TLS 1.0 (0x0301)"
  else if isGrease v then s!"GREASE(0x{hexDigits 4 v.toNat})"
  else s!"unknown(0x{hexDigits 4 v.toNat})"

def AlertLevel.asU8 : AlertLevel → UInt8
  | .warning => 1
  | .fatal => 2
  | .other b => b

def AlertLevel.name : AlertLevel → String
  | .warning => "warning(1)"
  | .fatal => "fatal(2)"
  | .other b => s!"unknown({b})"

def AlertDescription.name (d : AlertDescription) : String :=
  match ([(0, "close_notify"), (10, "unexpected_message"), (20, "bad_record_mac"),
    (21, "decryption_failed_RESERVED"), (22, "record_overflow"), (40, "handshake_failure"), (42, "bad_certificate"),
    (43, "unsupported_certificate"), (44, "certificate_revoked"), (45, "certificate_expired"),
    (46, "certificate_unknown"), (47, "illegal_parameter"), (48, "unknown_ca"), (49, "access_denied"),
    (50, "decode_error"), (51, "decrypt_error"), (70, "protocol_version"), (71, "insufficient_security"),
    (80, "internal_error"), (86, "inappropriate_fallback"), (90, "user_canceled"), (100, "no_renegotiation_RESERVED"),
    (109, "missing_extension"), (110, "unsupported_extension"), (112, "unrecognized_name"),
    (113, "bad_certificate_status_response"), (115, "unknown_psk_identity"), (116, "certificate_required"),
    (120, "no_application_protocol")] : List (UInt8 × String)).lookup d.code with
  | some n => s!"{n}({d.code})"
  | none => s!"unknown({d.code})"

/-- `KeyUpdate::name`. -/
def keyUpdateName (b : UInt8) : String :=
  if b = 0 then "update_not_requested(0)" else if b = 1 then "update_requested(1)" else s!"unknown({b})"

def shortName (t : HandshakeType) : String := String.ofList (t.name.toList.takeWhile (· ≠ '('))

/-! ## Annotations -/

/-- The values an annotation can show. -/
inductive Shown where
  | name (table : UInt16 → String) (v : UInt16) (after : String)
  | byteName (table : UInt8 → String) (v : UInt8)
  | number (v : Nat) (after : String)
  | hexNumber (digits v : Nat) (after : String)
  | hex (b : Bytes) (after : String)
  | hexPrefix (before : String) (b : Bytes) (after : String)
  | text (b : Bytes)
  | constant (b : Bytes) (text : String)
  /-- How many bytes there are. -/
  | count (n : Nat) (after : String)
  | remark (text : String)

structure FieldAnn where
  offset : Nat
  length : Nat
  field : String
  value : Shown
  varies : Bool

structure Walk where
  fields : List FieldAnn
  /-- `at`. -/
  pos : Nat

/-- `Walk::at`. -/
def Walk.startAt (pos : Nat) : Walk := ⟨[], pos⟩

/-- What `add` and `add_varying` do to the walk. -/
def Walk.push (w : Walk) (length : Nat) (field : String) (value : Shown) (varies : Bool) : Walk :=
  ⟨w.fields ++ [⟨w.pos, length, field, value, varies⟩], w.pos + length⟩

abbrev Into := Action Walk TlsError

namespace Into

def add (length : Nat) (field : String) (value : Shown) : Into Unit :=
  Action.modify fun w => w.push length field value false

def addVarying (length : Nat) (field : String) (value : Shown) : Into Unit :=
  Action.modify fun w => w.push length field value true

def skip (length : Nat) : Into Unit := Action.modify fun w => { w with pos := w.pos + length }

/-- `walk.at = pos`. -/
def setPos (pos : Nat) : Into Unit := Action.modify fun w => { w with pos := pos }

/-- `data[i]`. -/
def index (data : Bytes) (i : Nat) : Into UInt8 := Action.orStop data[i]?

/-- `&data[start..]`. -/
def tail (data : Bytes) (start : Nat) : Into Bytes :=
  Action.orStop (if start ≤ data.length then some (data.drop start) else none)

/-- `&data[start..stop]`. -/
def slice (data : Bytes) (start stop : Nat) : Into Bytes :=
  Action.orStop (if start ≤ stop ∧ stop ≤ data.length then some ((data.drop start).take (stop - start)) else none)

/-- `u16::from_be_bytes` of the bytes at `i`. -/
def u16At (data : Bytes) (i : Nat) : Into UInt16 := do
  let a ← index data i
  let b ← index data (i + 1)
  pure (UInt16.ofNat (ofBigEndian [a, b]))

end Into

def taking {α : Type} (x : Read α) (left : Bytes) : Except TlsError (α × Bytes) :=
  (x ⟨left, 0⟩).map fun r => (r.1, r.2.buf.drop r.2.pos)

def Into.read {α : Type} (x : Read α) (left : Bytes) : Into (α × Bytes) := Action.lift (taking x left)

/-! ## Extensions -/

/-- The loop over `chunks(2)`: an annotation for each pair. -/
def pairsInto (field : Nat → String) (table : UInt16 → String) : Nat → Bytes → Into Unit
  | i, a :: b :: rest => do
    Into.add 2 (field i) (.name table (UInt16.ofNat (ofBigEndian [a, b])) "")
    pairsInto field table (i + 1) rest
  | _, _ => pure ()

def codesInto (data : Bytes) (list : String) (table : UInt16 → String) : Into Unit :=
  if data.length < 2 then pure ()
  else do
    Into.add 2 s!"{list}.length" (.number (data.length - 2) " bytes")
    let rest ← Into.tail data 2
    pairsInto (fun i => s!"{list}[{i}]") table 0 rest

/-- One round of the loop over `client_shares`. -/
def clientShareRound (base : String) (r : Bytes × Nat) : Into ((Bytes × Nat) ⊕ Unit) :=
  let (left, i) := r
  if left = [] then pure (.inr ())
  else
    match taking (Read.u16 base "group") left with
    | .error _ => pure (.inr ())
    | .ok (group, left) =>
      match taking (Read.vec16 base "key_exchange") left with
      | .error _ => pure (.inr ())
      | .ok (share, left) => do
        Into.add 2 s!"{base}.client_shares[{i}].group" (.name groupName group "")
        Into.add 2 s!"{base}.client_shares[{i}].key_exchange.length" (.number share.length "")
        Into.addVarying share.length s!"{base}.client_shares[{i}].key_exchange"
          (.hexPrefix "" share " — the client's ephemeral public key")
        pure (.inl (left, i + 1))

def clientSharesInto (data : Bytes) (base : String) : Into Unit :=
  if data.length < 2 then pure ()
  else do
    Into.add 2 s!"{base}.client_shares.length" (.number (data.length - 2) " bytes")
    let rest ← Into.tail data 2
    Action.rounds (clientShareRound base) (rest.length + 1) (rest, 0)

def serverShareInto (data : Bytes) (base : String) : Into Unit :=
  if data.length = 2 then do
    let group ← Into.u16At data 0
    Into.add 2 s!"{base}.selected_group"
      (.name groupName group " — a HelloRetryRequest names a group and sends no share")
  else if data.length < 4 then pure ()
  else do
    let group ← Into.u16At data 0
    Into.add 2 s!"{base}.server_share.group" (.name groupName group "")
    let len ← Into.u16At data 2
    Into.add 2 s!"{base}.server_share.key_exchange.length" (.number len.toNat "")
    let rest ← Into.tail data 4
    Into.addVarying (min len.toNat (data.length - 4)) s!"{base}.server_share.key_exchange"
      (.hexPrefix "" rest
        " — the server's ephemeral public key; the (EC)DHE shared secret comes from this")

def serverNameInto (data : Bytes) (base : String) : Into Unit :=
  if data.length < 5 then pure ()
  else do
    Into.add 2 s!"{base}.server_name_list.length" (.number (data.length - 2) " bytes")
    Into.add 1 s!"{base}.server_name_list[0].name_type" (.constant [0] "host_name(0)")
    let len ← Into.u16At data 3
    Into.add 2 s!"{base}.server_name_list[0].host_name.length" (.number len.toNat "")
    let rest ← Into.tail data 5
    Into.add (min len.toNat (data.length - 5)) s!"{base}.server_name_list[0].host_name" (.text rest)

/-- One round of the loop over `protocol_name_list`. -/
def protocolRound (base : String) (r : Bytes × Nat) : Into ((Bytes × Nat) ⊕ Unit) :=
  let (left, i) := r
  if left = [] then pure (.inr ())
  else
    match taking (Read.vec8 base "protocol_name") left with
    | .error _ => pure (.inr ())
    | .ok (name, left) => do
      Into.add 1 s!"{base}.protocol_name_list[{i}].length" (.number name.length "")
      Into.add name.length s!"{base}.protocol_name_list[{i}]" (.text name)
      pure (.inl (left, i + 1))

def alpnInto (data : Bytes) (base : String) : Into Unit :=
  if data.length < 3 then pure ()
  else do
    Into.add 2 s!"{base}.protocol_name_list.length" (.number (data.length - 2) " bytes")
    let rest ← Into.tail data 2
    Action.rounds (protocolRound base) (rest.length + 1) (rest, 0)

def cookieInto (data : Bytes) (base : String) : Into Unit :=
  if data.length < 2 then pure ()
  else do
    Into.add 2 s!"{base}.cookie.length" (.number (data.length - 2) "")
    let rest ← Into.tail data 2
    Into.addVarying (data.length - 2) s!"{base}.cookie"
      (.hexPrefix "" rest " — echoed back in the second ClientHello")

def versionsInto (data : Bytes) (base : String) : Into Unit :=
  if data = [] then pure ()
  else do
    let n ← Into.index data 0
    Into.add 1 s!"{base}.versions.length" (.number n.toNat "")
    let rest ← Into.tail data 1
    pairsInto (fun i => s!"{base}.versions[{i}]") versionName 0 rest

def selectedVersionInto (data : Bytes) (base : String) : Into Unit :=
  if data.length = 2 then do
    let version ← Into.u16At data 0
    Into.add 2 s!"{base}.selected_version" (.name versionName version "")
  else pure ()

def selectedIdentityInto (data : Bytes) (base : String) : Into Unit :=
  if data.length = 2 then do
    let identity ← Into.u16At data 0
    Into.add 2 s!"{base}.selected_identity"
      (.number identity.toNat " — the index of the PSK the server took from the ClientHello's list")
  else pure ()

def otherExtensionInto (data : Bytes) (base : String) : Into Unit :=
  if data = [] then
    Action.modify fun w =>
      { w with fields := w.fields ++
          [⟨w.pos, 0, s!"{base}.extension_data", .constant [] "empty — this extension is a flag", false⟩] }
  else
    Into.addVarying data.length s!"{base}.extension_data" (.hexPrefix s!"{data.length} bytes: " data "")

def extensionBodyInto (extType : UInt16) (data : Bytes) (base : String) (client : Bool) : Into Unit :=
  if extType = extSupportedVersions then
    if client then versionsInto data base else selectedVersionInto data base
  else if extType = extSupportedGroups then codesInto data s!"{base}.named_group_list" groupName
  else if extType = extSignatureAlgorithms then
    codesInto data s!"{base}.supported_signature_algorithms" sigName
  else if extType = extKeyShare then
    if client then clientSharesInto data base else serverShareInto data base
  else if extType = extServerName ∧ client then serverNameInto data base
  else if extType = extAlpn then alpnInto data base
  else if extType = extCookie then cookieInto data base
  else if extType = extPreSharedKey ∧ !client then selectedIdentityInto data base
  else otherExtensionInto data base

def extensionRound (path : String) (client : Bool) (r : Bytes × Nat) : Into ((Bytes × Nat) ⊕ Unit) :=
  let (left, i) := r
  if left = [] then pure (.inr ())
  else do
    let (extType, left) ← Into.read (Read.u16 path "extension_type") left
    let (data, left) ← Into.read (Read.vec16 path "extension_data") left
    let base := s!"{path}.extensions[{i}]"
    Into.add 2 s!"{base}.extension_type" (.name extName extType "")
    Into.add 2 s!"{base}.length" (.number data.length " bytes")
    let before ← Action.get
    extensionBodyInto extType data base client
    Into.setPos (before.pos + data.length)
    pure (.inl (left, i + 1))

def extensionsInto (bytes : Bytes) (path : String) (client : Bool) : Into Unit :=
  Action.rounds (extensionRound path client) (bytes.length + 1) (bytes, 0)

/-! ## Messages -/

def extensionBlockInto (left : Bytes) (path : String) (client : Bool) : Into Unit := do
  let (extensions, _) ← Into.read (Read.vec16 path "extensions") left
  Into.add 2 s!"{path}.extensions.length" (.number extensions.length " bytes of extensions")
  extensionsInto extensions path client

/-- What follows the length of `legacy_session_id`. -/
def sessionIdInto (session : Bytes) (path : String) (client : Bool) : Into Unit :=
  if session = [] then pure ()
  else
    Into.addVarying session.length
      (s!"{path}." ++ if client then "legacy_session_id" else "legacy_session_id_echo")
      (.hex session (if client then " (the server must echo this back byte for byte)"
        else " (must equal the ClientHello's legacy_session_id)"))

def clientRestInto (left : Bytes) (path : String) : Into Unit := do
  let (suites, r) ← Into.read (Read.vec16 path "cipher_suites") left
  Into.add 2 s!"{path}.cipher_suites.length" (.number suites.length s!" bytes, {suites.length / 2} suites")
  pairsInto (fun i => s!"{path}.cipher_suites[{i}]") suiteName 0 suites
  let (compression, r) ← Into.read (Read.vec8 path "legacy_compression_methods") r
  Into.add 1 s!"{path}.legacy_compression_methods.length" (.number compression.length "")
  Into.add compression.length s!"{path}.legacy_compression_methods"
    (.constant [0] "null(0) — TLS 1.3 allows nothing else")
  extensionBlockInto r path true

def serverRestInto (left : Bytes) (path : String) : Into Unit := do
  let (suite, r) ← Into.read (Read.u16 path "cipher_suite") left
  Into.add 2 s!"{path}.cipher_suite" (.name suiteName suite "")
  let (compression, r) ← Into.read (Read.u8 path "legacy_compression_method") r
  Into.add 1 s!"{path}.legacy_compression_method" (.number compression.toNat " (must be 0)")
  extensionBlockInto r path false

def helloInto (body : Bytes) (path : String) (client : Bool) : Into Unit := do
  let (version, r) ← Into.read (Read.u16 path "legacy_version") body
  Into.add 2 s!"{path}.legacy_version" (.hexNumber 4 version.toNat
    " (TLS 1.3 pins this at 0x0303; the real version is in supported_versions)")
  let (random, r) ← Into.read (Read.take path 32 "random") r
  let note :=
    if !client ∧ random = helloRetryRequestRandom then
      " — the fixed SHA-256(\"HelloRetryRequest\") value that makes this a HelloRetryRequest"
    else ""
  Into.addVarying 32 s!"{path}.random" (.hex random note)
  let (session, r) ← Into.read (Read.vec8 path "legacy_session_id") r
  Into.add 1 s!"{path}.legacy_session_id.length" (.number session.length "")
  sessionIdInto session path client
  if client then clientRestInto r path else serverRestInto r path

def encryptedExtensionsInto (body : Bytes) (path : String) : Into Unit := extensionBlockInto body path false

/-- One round of the loop over `certificate_list`. -/
def certificateRound (path : String) (r : Bytes × Nat) : Into ((Bytes × Nat) ⊕ Unit) :=
  let (left, i) := r
  if left = [] then pure (.inr ())
  else
    match taking (Read.vec24 path "cert_data") left with
    | .error _ => pure (.inr ())
    | .ok (cert, left) =>
      match taking (Read.vec16 path "extensions") left with
      | .error _ => pure (.inr ())
      | .ok (exts, left) => do
        Into.add 3 s!"{path}.certificate_list[{i}].cert_data.length" (.number cert.length " bytes")
        Into.addVarying cert.length s!"{path}.certificate_list[{i}].cert_data" (.remark
          ("a DER X.509 certificate" ++
            if i = 0 then " — entry 0 is the end-entity certificate, and each later entry certifies the one before it"
            else ""))
        Into.add 2 s!"{path}.certificate_list[{i}].extensions.length" (.number exts.length
          " — every entry carries its own extensions block, new in TLS 1.3")
        Into.skip exts.length
        pure (.inl (left, i + 1))

def certificateInto (body : Bytes) (path : String) : Into Unit := do
  let (context, r) ← Into.read (Read.vec8 path "certificate_request_context") body
  Into.add 1 s!"{path}.certificate_request_context.length" (.number context.length
    " — a server's Certificate always carries an empty context")
  Into.skip context.length
  let (list, _) ← Into.read (Read.vec24 path "certificate_list") r
  Into.add 3 s!"{path}.certificate_list.length" (.number list.length " bytes")
  Action.rounds (certificateRound path) (list.length + 1) (list, 0)

def certificateVerifyInto (body : Bytes) (path : String) : Into Unit := do
  let (algorithm, r) ← Into.read (Read.u16 path "algorithm") body
  Into.add 2 s!"{path}.algorithm" (.name sigName algorithm "")
  let (signature, _) ← Into.read (Read.vec16 path "signature") r
  Into.add 2 s!"{path}.signature.length" (.number signature.length " bytes")
  Into.addVarying signature.length s!"{path}.signature" (.hexPrefix
    ("over 64 spaces, \"TLS 1.3, server CertificateVerify\", a zero byte and " ++
      "Transcript-Hash(ClientHello..Certificate) — ") signature "")

def newSessionTicketInto (body : Bytes) (path : String) : Into Unit := do
  let (lifetime, r) ← Into.read (Read.u32 path "ticket_lifetime") body
  Into.add 4 s!"{path}.ticket_lifetime" (.number lifetime.toNat " seconds")
  let (ageAdd, r) ← Into.read (Read.u32 path "ticket_age_add") r
  Into.addVarying 4 s!"{path}.ticket_age_add" (.hexNumber 8 ageAdd.toNat
    " — added to the client's ticket age so it cannot be correlated")
  let (nonce, r) ← Into.read (Read.vec8 path "ticket_nonce") r
  Into.add 1 s!"{path}.ticket_nonce.length" (.number nonce.length "")
  Into.add nonce.length s!"{path}.ticket_nonce" (.hex nonce
    (" — the PSK is HKDF-Expand-Label(resumption_master_secret, \"resumption\", this, " ++ "Hash.length)"))
  let (ticket, r) ← Into.read (Read.vec16 path "ticket") r
  Into.add 2 s!"{path}.ticket.length" (.number ticket.length " bytes")
  Into.addVarying ticket.length s!"{path}.ticket"
    (.hexPrefix "" ticket " — opaque to the client; it becomes the PSK identity")
  let (exts, _) ← Into.read (Read.vec16 path "extensions") r
  Into.add 2 s!"{path}.extensions.length" (.number exts.length
    " — an `early_data` extension here would carry max_early_data_size")
  Into.skip exts.length

/-- The match of `handshake_into`. -/
def bodyInto (message : HandshakeMessage) (path : String) : Into Unit :=
  let body := message.body
  if message.msgType = .clientHello then helloInto body path true
  else if message.msgType = .serverHello then helloInto body path false
  else if message.msgType = .encryptedExtensions then encryptedExtensionsInto body path
  else if message.msgType = .certificate then certificateInto body path
  else if message.msgType = .certificateVerify then certificateVerifyInto body path
  else if message.msgType = .finished then
    Into.addVarying body.length s!"{path}.verify_data" (.hex body
      " — HMAC(finished_key, Transcript-Hash(everything before this message))")
  else if message.msgType = .newSessionTicket then newSessionTicketInto body path
  else if message.msgType = .keyUpdate then
    match body with
    | [] => pure ()
    | b :: _ => Into.add 1 s!"{path}.request_update" (.byteName keyUpdateName b)
  else Into.add body.length s!"{path}.body" (.count body.length " bytes")

def handshakeInto (message : HandshakeMessage) (path : String) : Into Unit := do
  Into.add 1 s!"{path}.msg_type" (.byteName (fun b => (HandshakeType.mk b).name) message.msgType.code)
  Into.add 3 s!"{path}.length" (.number message.body.length " (bytes of body that follow)")
  let w ← Action.get
  let _ ← Action.attempt (bodyInto message path)
  Into.setPos (w.pos + message.body.length)

/-! ## Records -/

def subWalk (start : Nat) (message : HandshakeMessage) (path : String) : Into Unit := fun w =>
  (handshakeInto message path (.startAt start)).map fun r => (.ok (), { w with fields := w.fields ++ r.2.fields })

def messageRound (fragment : Bytes) (start : Nat) (fieldPrefix : String) (r : Nat × Nat) : Into ((Nat × Nat) ⊕ Unit) :=
  let (inner, n) := r
  if inner < fragment.length then do
    let rest ← Into.tail fragment inner
    match HandshakeMessage.parse rest with
    | .error _ => pure (.inr ())
    | .ok (message, used) => do
      let path :=
        if n = 0 then s!"{fieldPrefix}{shortName message.msgType}"
        else s!"{fieldPrefix}{shortName message.msgType}#{n}"
      subWalk (start + inner) message path
      pure (.inl (inner + used, n + 1))
  else pure (.inr ())

/-- The match of `records`. -/
def fragmentInto (contentType : ContentType) (fragment : Bytes) (offset : Nat) (fieldPrefix : String) : Into Unit :=
  match contentType with
  | .handshake => do
    Action.rounds (messageRound fragment (offset + 5) fieldPrefix) (fragment.length + 1) (0, 0)
    Into.setPos (offset + 5 + fragment.length)
  | .alert =>
    match Alert.parse fragment with
    | .ok alert => do
      Into.add 1 s!"{fieldPrefix}alert.level" (.byteName (fun b => (AlertLevel.fromU8 b).name) alert.level.asU8)
      Into.add 1 s!"{fieldPrefix}alert.description"
        (.byteName (fun b => (AlertDescription.mk b).name) alert.description.code)
    | .error _ => Into.skip fragment.length
  | .changeCipherSpec =>
    Into.add fragment.length s!"{fieldPrefix}change_cipher_spec"
      (.constant [1] "0x01, the compatibility byte TLS 1.3 keeps for middleboxes")
  | .applicationData =>
    Into.addVarying fragment.length s!"{fieldPrefix}record.encrypted_record" (.count fragment.length
      (" bytes: the AEAD ciphertext plus its 16-byte tag. The real content type is inside it, " ++
        "after the content and before the padding."))
  | .other b =>
    Into.add fragment.length s!"{fieldPrefix}record.fragment"
      (.count fragment.length s!" bytes of a type {b} record")

/-- One round of the loop of `records`; what it ends with is the offset. -/
def recordRound (bytes : Bytes) (r : Nat × Nat) : Into ((Nat × Nat) ⊕ Nat) :=
  let (offset, i) := r
  if offset + 5 ≤ bytes.length then do
    let length ← Into.u16At bytes (offset + 3)
    if offset + 5 + length.toNat > bytes.length then pure (.inr offset)
    else do
      let fieldPrefix := if i = 0 then "" else s!"record{i}."
      let typeByte ← Into.index bytes offset
      Into.setPos offset
      Into.add 1 s!"{fieldPrefix}record.type" (.byteName (fun b => (ContentType.fromU8 b).name) typeByte)
      let version ← Into.u16At bytes (offset + 1)
      Into.add 2 s!"{fieldPrefix}record.legacy_record_version" (.hexNumber 4 version.toNat
        (if version = 0x0301 then " (the first-flight exception of RFC 8446 section 5.1)" else ""))
      Into.add 2 s!"{fieldPrefix}record.length" (.number length.toNat " (bytes that follow)")
      let fragment ← Into.slice bytes (offset + 5) (offset + 5 + length.toNat)
      fragmentInto (ContentType.fromU8 typeByte) fragment offset fieldPrefix
      pure (.inl (offset + 5 + length.toNat, i + 1))
  else pure (.inr offset)

/-- `records`: the annotations, and whether the walk took the whole string; none where it would panic. -/
def records (bytes : Bytes) : Option (List FieldAnn × Bool) :=
  match Action.rounds (recordRound bytes) (bytes.length + 1) (0, 0) (.startAt 0) with
  | some (.ok offset, w) => some (w.fields, decide (offset = bytes.length) && decide (bytes ≠ []))
  | _ => none

def handshake (bytes : Bytes) : Option (List FieldAnn × Bool) :=
  match HandshakeMessage.parse bytes with
  | .error _ => some ([], false)
  | .ok (message, used) =>
    (handshakeInto message (shortName message.msgType) (.startAt 0)).map fun r =>
      (r.2.fields, decide (used = bytes.length))

/-- One round of the loop of `handshake_flight`. -/
def flightRound (bytes : Bytes) (offset : Nat) : Into (Nat ⊕ Nat) :=
  if offset < bytes.length then do
    let rest ← Into.tail bytes offset
    match HandshakeMessage.parse rest with
    | .error _ => pure (.inr offset)
    | .ok (message, used) => do
      subWalk offset message (shortName message.msgType)
      pure (.inl (offset + used))
  else pure (.inr offset)

def handshakeFlight (bytes : Bytes) : Option (List FieldAnn × Bool) :=
  match Action.rounds (flightRound bytes) (bytes.length + 1) 0 (.startAt 0) with
  | some (.ok offset, w) => some (w.fields, decide (offset = bytes.length) && decide (bytes ≠ []))
  | _ => none

end BuildYourOwn.Tls
