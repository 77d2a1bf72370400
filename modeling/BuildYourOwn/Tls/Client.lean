import BuildYourOwn.Tls.Conn
import BuildYourOwn.Tls.KeyExchange
import BuildYourOwn.Tls.Signature

/-!
# The TLS client: one handshake, flight by flight

Model of `tlstest/src/tls/client.rs`, as far as the handshake goes. A method of `Client` is an action on
it, and keeps what it had stored when it fails.

The arrival times of the tickets and the list of key updates, which nothing in a handshake reads, are left
out; what follows the handshake is in `PostHandshake`. The loop over the flight has two locals, whether
EncryptedExtensions came and the type of the previous message.
-/

namespace BuildYourOwn.Tls

open Lib

/-! ## The configuration -/

structure PskOffer where
  identity : Bytes
  obfuscatedTicketAge : UInt32
  psk : Bytes
  suite : Suite

structure ClientConfig where
  legacyVersion : UInt16
  cipherSuites : List UInt16
  groups : List UInt16
  shareGroups : List UInt16
  signatureAlgorithms : List UInt16
  versions : List UInt16
  sessionId : Bytes
  serverName : Option String
  alpn : List String
  extraExtensions : List Extension
  sendCcs : Bool
  followHelloRetry : Bool
  entropy : Sized 32
  psk : Option PskOffer
  offerEarlyData : Bool
  corruptPskBinder : Bool

/-- `ClientAuth` of `certs.rs`, as far as a handshake reads it. -/
structure ClientAuth where
  clientDer : Bytes
  keyPkcs8Pem : String
  scheme : UInt16

namespace ClientConfig

variable [Crates]

/-- `share_entropy`; `n` is cut to a byte. -/
def shareEntropy (config : ClientConfig) (n : Nat) : Sized 32 :=
  Crates.sha256 (config.entropy.val ++ [UInt8.ofNat n] ++ asBytes "key share")

def random (config : ClientConfig) : Sized 32 :=
  Crates.sha256 (config.entropy.val ++ asBytes "random")

end ClientConfig

section variable [Crates] [Curves]

/-- The loop of `build_hello` over the groups that get a share. -/
def buildShares (config : ClientConfig) : Except TlsError (List KeyExchange) :=
  config.shareGroups.zipIdx.mapM fun g => KeyExchange.fromEntropy g.1 (config.shareEntropy g.2)

def buildHello (config : ClientConfig) : Except TlsError (ClientHello × List KeyExchange) := do
  let keyShares ← buildShares config
  let shares := config.shareGroups.zip (keyShares.map KeyExchange.publicBytes)
  let extensions :=
    (config.serverName.map serverNameExtension).toList ++
    [supportedVersionsExtension config.versions, supportedGroupsExtension config.groups,
      signatureAlgorithmsExtension config.signatureAlgorithms, clientKeyShareExtension shares] ++
    (if config.alpn.isEmpty then [] else [alpnExtension config.alpn]) ++
    (if config.psk.isSome then [pskKeyExchangeModesExtension [1]] else []) ++
    config.extraExtensions ++
    if config.offerEarlyData then [earlyDataExtension] else []
  pure (⟨config.legacyVersion, config.random, config.sessionId, config.cipherSuites, [0], extensions⟩,
    keyShares)

end

def alpnChoice (extensions : List Extension) : Option String :=
  match findExtension extensions extAlpn with
  | none => none
  | some e =>
    let name := Reader.run (do
      let list ← Read.vec16 "encrypted_extensions.alpn" "protocol_name_list"
      Reader.lift (Reader.run (Read.vec8 "protocol_name_list" "protocol_name") list)) e.data
    name.toOption.map fromUtf8Lossy

/-! ## The client -/

structure Client where
  conn : TlsConn
  config : ClientConfig
  keyShares : List KeyExchange
  clientHello : Option ClientHello
  clientHelloBytes : Bytes
  helloRetryRequest : Option ServerHello
  serverHello : Option ServerHello
  serverHelloBytes : Bytes
  suite : Option Suite
  selectedGroup : Option UInt16
  sharedSecret : Bytes
  schedule : Option KeySchedule
  transcript : Option Transcript
  encryptedExtensions : List Extension
  encryptedExtensionsBytes : Bytes
  certificate : Option CertificateMsg
  certificateBytes : Bytes
  certificateVerify : Option CertificateVerifyMsg
  certificateVerifyBytes : Bytes
  certificateRequest : Option Bytes
  certificateRequestMsg : Option CertificateRequestMsg
  clientHandshakeKeysInstalled : Bool
  clientCertificateBytes : Bytes
  clientCertificateVerifyBytes : Bytes
  serverFinishedBytes : Bytes
  serverVerifyData : Bytes
  clientFinishedBytes : Bytes
  serverPublicKey : Option PublicKey
  hashAfterClientHello : Bytes
  hashAfterServerHello : Bytes
  hashAfterEncryptedExtensions : Bytes
  hashAfterCertificate : Bytes
  hashAfterCertificateVerify : Bytes
  hashBeforeServerFinished : Bytes
  hashAfterServerFinished : Bytes
  hashAfterClientFinished : Bytes
  serverCcsRecords : Nat
  serverCcsBeforeEncrypted : Bool
  alpnSelected : Option String
  tickets : List NewSessionTicket
  pendingApp : Bytes
  finished : Bool

def Client.over (conn : TlsConn) (config : ClientConfig) : Client where
  conn := conn
  config := config
  keyShares := []
  clientHello := none
  clientHelloBytes := []
  helloRetryRequest := none
  serverHello := none
  serverHelloBytes := []
  suite := none
  selectedGroup := none
  sharedSecret := []
  schedule := none
  transcript := none
  encryptedExtensions := []
  encryptedExtensionsBytes := []
  certificate := none
  certificateBytes := []
  certificateVerify := none
  certificateVerifyBytes := []
  certificateRequest := none
  certificateRequestMsg := none
  clientHandshakeKeysInstalled := false
  clientCertificateBytes := []
  clientCertificateVerifyBytes := []
  serverFinishedBytes := []
  serverVerifyData := []
  clientFinishedBytes := []
  serverPublicKey := none
  hashAfterClientHello := []
  hashAfterServerHello := []
  hashAfterEncryptedExtensions := []
  hashAfterCertificate := []
  hashAfterCertificateVerify := []
  hashBeforeServerFinished := []
  hashAfterServerFinished := []
  hashAfterClientFinished := []
  serverCcsRecords := 0
  serverCcsBeforeEncrypted := false
  alpnSelected := none
  tickets := []
  pendingApp := []
  finished := false

namespace Client

def onConn {α : Type} (x : Action TlsConn TlsError α) : Action Client TlsError α :=
  Action.onPart conn (fun conn c => { c with conn := conn }) x

/-- `self.transcript.as_mut().ok_or_else(..)?`. -/
def theTranscript (missing : String) : Action Client TlsError Transcript := do
  let c ← Action.get
  Action.demand c.transcript (.protocol missing)

/-- `self.schedule.as_mut().ok_or_else(..)?`, and a method of it. -/
def onSchedule {α : Type} (x : Action KeySchedule TlsError α) : Action Client TlsError α := do
  let c ← Action.get
  let schedule ← Action.demand c.schedule (.crypto "no key schedule")
  Action.onPart (fun _ => schedule) (fun schedule c => { c with schedule := some schedule }) x

/-! ### Flight 1 -/

section variable [Crates] [Curves]

def buildClientHello : Action Client TlsError ClientHello := do
  let c ← Action.get
  let (hello, shares) ← Action.lift (buildHello c.config)
  Action.modify fun c => { c with keyShares := shares }
  pure hello

end

section variable [Crates]

def noteClientHello (hello : ClientHello) (bytes : Bytes) : Action Client TlsError Unit :=
  Action.modify fun c =>
    let hash := (c.config.psk.map fun p => p.suite.hash).getD .sha256
    let transcript := (Transcript.new hash).push bytes
    { c with hashAfterClientHello := transcript.current
             transcript := some transcript
             clientHelloBytes := bytes
             clientHello := some hello }

/-- `attach_psk_binder`, where a PSK is offered. -/
def attachPskBinder (hello : ClientHello) (offer : PskOffer) : Action Client TlsError Bytes := do
  let hash := offer.suite.hash
  let identities := vec16 (vec16 offer.identity ++ u32Bytes offer.obfuscatedTicketAge)
  let binders := vec16 (vec8 (List.replicate hash.len 0))
  let psk : Extension := ⟨extPreSharedKey, identities ++ binders⟩
  let withPsk := { hello with extensions := hello.extensions ++ [psk] }
  let full := withPsk.encode
  let truncatedLen := full.length - binders.length
  let (binderKey, schedule) ←
    Action.onLocal (KeySchedule.new offer.suite (some offer.psk)) KeySchedule.deriveBinderKey
  let binderKeys ← Action.lift (TrafficKeys.derive offer.suite binderKey)
  let finishedKey ← Action.lift binderKeys.finishedKey
  let binder := hash.hmac finishedKey (hash.digest (full.take truncatedLen))
  let start := truncatedLen + 3
  let out := full.take start ++ binder ++ full.drop (start + hash.len)
  let c ← Action.get
  let out := if c.config.corruptPskBinder then out.modify start (· ^^^ 1) else out
  Action.modify fun c => { c with schedule := some schedule }
  pure out

def sendBuiltClientHello (hello : ClientHello) : Action Client TlsError Unit := do
  let c ← Action.get
  let bytes ←
    match c.config.psk with
    | some offer => attachPskBinder hello offer
    | none => pure hello.encode
  onConn (TlsConn.writeHandshake bytes)
  noteClientHello hello bytes

end

def maybeSendCcs : Action Client TlsError Unit := do
  let c ← Action.get
  if c.config.sendCcs then onConn TlsConn.writeChangeCipherSpec else pure ()

section variable [Crates] [Curves]

def sendClientHello : Action Client TlsError Unit := do
  let hello ← buildClientHello
  sendBuiltClientHello hello

end

/-! ### Reading handshake messages -/

section variable [Crates]

/-- The loop body of `next_handshake`. -/
def nextHandshakeRound (what : String) (_ : Unit) :
    Action Client TlsError (Unit ⊕ HandshakeMessage) := do
  match ← onConn TlsConn.nextMessage with
  | .handshake m =>
    if m.msgType = .newSessionTicket then do
      let ticket ← Action.lift (NewSessionTicket.parse m.body)
      Action.modify fun c => { c with tickets := c.tickets ++ [ticket] }
      pure (.inl ())
    else pure (.inr m)
  | .changeCipherSpec _ => do
    Action.modify fun c =>
      { c with serverCcsRecords := c.serverCcsRecords + 1
               serverCcsBeforeEncrypted := c.serverCcsBeforeEncrypted ||
                 (c.serverHello.isNone || c.encryptedExtensions.isEmpty) }
    pure (.inl ())
  | .alert a => Action.fail (.alert a.level a.description)
  | .appData d => do
    Action.modify fun c => { c with pendingApp := c.pendingApp ++ d }
    pure (.inl ())
  | .unexpected r =>
    Action.fail (.protocol s!"a {r.contentType.name} record arrived while waiting for {what}")

def nextHandshake (what : String) : Action Client TlsError HandshakeMessage :=
  Action.forever (fun c => c.conn.pending) (nextHandshakeRound what) ()

end

/-! ### Flight 2: the ServerHello -/

section variable [Crates] [Curves]

def handleHelloRetry (retry : ServerHello) (retryBytes : Bytes) : Action Client TlsError Unit := do
  let suite ← Action.demand (Suite.fromCode retry.cipherSuite)
    (.protocol s!"hello_retry_request.cipher_suite is {suiteName retry.cipherSuite}")
  let named ← Action.lift retry.retryGroup
  let group ← Action.demand named
    (.protocol "hello_retry_request carries no key_share telling the client which group to use")
  let transcript ← theTranscript "no ClientHello has been sent"
  let transcript :=
    if transcript.hashAlg ≠ suite.hash then transcript.rehash suite.hash else transcript
  Action.modify fun c =>
    { c with hashAfterClientHello := transcript.current
             transcript := some (transcript.replaceWithMessageHash.push retryBytes) }
  let c ← Action.get
  Action.require (group ∈ c.config.groups ∧ group ∉ c.config.shareGroups)
    (.protocol (s!"hello_retry_request.key_share.selected_group is {groupName group}, which is " ++
      (if group ∈ c.config.shareGroups then "a group the ClientHello already sent a share for"
        else "not in the ClientHello's supported_groups") ++ " (RFC 8446 section 4.1.4)"))
  Action.modify fun c => { c with config := { c.config with shareGroups := [group] } }
  let hello ← buildClientHello
  let cookie ← Action.lift retry.cookie
  let hello :=
    { hello with extensions := hello.extensions ++ (cookie.map cookieExtension).toList }
  let bytes := hello.encode
  onConn (TlsConn.writeHandshake bytes)
  let transcript ← theTranscript "no transcript"
  Action.modify fun c =>
    { c with transcript := some (transcript.push bytes)
             hashAfterClientHello := (transcript.push bytes).current
             clientHelloBytes := bytes
             clientHello := some hello }
  maybeSendCcs

/-- `read_server_hello`, the hashes it takes once the suite is chosen. -/
def hashServerHello (suite : Suite) (raw : Bytes) : Action Client TlsError Unit := do
  let transcript ← theTranscript "no ClientHello has been sent"
  let transcript :=
    if transcript.hashAlg ≠ suite.hash then transcript.rehash suite.hash else transcript
  Action.modify fun c =>
    { c with hashAfterClientHello := transcript.current
             transcript := some (transcript.push raw)
             hashAfterServerHello := (transcript.push raw).current }

/-- `read_server_hello`, whether the PSK is accepted. -/
def pskAccepted (hello : ServerHello) (psk : Option Bytes) : Except TlsError Bool := do
  match ← hello.selectedPsk with
  | none => pure false
  | some index =>
    if index = 0 ∧ psk.isSome then pure true
    else
      .error (.protocol (s!"server_hello.pre_shared_key.selected_identity is {index}, but the " ++
        s!"ClientHello offered {if psk.isSome then 1 else 0} identities"))

/-- `read_server_hello`, from a ServerHello that is no HelloRetryRequest. -/
def takeServerHello (hello : ServerHello) (raw : Bytes) : Action Client TlsError Unit := do
  Action.modify fun c => { c with serverHelloBytes := raw }
  let suite ← Action.demand (Suite.fromCode hello.cipherSuite)
    (.protocol (s!"server_hello.cipher_suite is {suiteName hello.cipherSuite}, which is not one of the " ++
      "three TLS 1.3 suites this client offered"))
  let c ← Action.get
  Action.require (hello.cipherSuite ∈ c.config.cipherSuites)
    (.protocol (s!"server_hello.cipher_suite is {suiteName hello.cipherSuite}, which the ClientHello " ++
      "never offered"))
  let chosen := (c.helloRetryRequest.map fun retry => suiteName retry.cipherSuite).getD ""
  Action.require (∀ retry ∈ c.helloRetryRequest, retry.cipherSuite = hello.cipherSuite)
    (.protocol (s!"server_hello.cipher_suite is {suiteName hello.cipherSuite} but the " ++
      s!"hello_retry_request chose {chosen} (RFC 8446 section 4.1.4)"))
  Action.modify fun c => { c with suite := some suite }
  hashServerHello suite raw
  let keyShare ← Action.lift hello.keyShare
  let (group, peerShare) ← Action.demand keyShare
    (.protocol ("server_hello carries no key_share extension: a TLS 1.3 server that is not resuming " ++
      "with psk_ke must send one (RFC 8446 section 4.2.8)"))
  let kx ← Action.demand (c.keyShares.find? fun k => k.group = group)
    (.protocol (s!"server_hello.key_share names {groupName group}, for which the ClientHello sent no " ++
      "share"))
  Action.modify fun c => { c with selectedGroup := some group }
  let shared ← Action.lift (kx.complete peerShare)
  Action.modify fun c => { c with sharedSecret := shared, serverHello := some hello }
  let psk := c.config.psk.map fun p => p.psk
  let accepted ← Action.lift (pskAccepted hello psk)
  let c ← Action.get
  let (_, schedule) ← Action.onLocal (KeySchedule.new suite (if accepted then psk else none))
    (KeySchedule.enterHandshake shared c.hashAfterServerHello)
  let serverKeys ← Action.demand schedule.serverHandshake
    (.crypto "no server handshake traffic keys")
  Action.modify fun c =>
    { c with conn := { c.conn with layer := c.conn.layer.setRead serverKeys }
             schedule := some schedule }

/-- One call of `read_server_hello`; it calls itself after a HelloRetryRequest. -/
def readServerHelloRound (_ : Unit) : Action Client TlsError (Unit ⊕ Unit) := do
  let message ← nextHandshake "server_hello"
  Action.require (message.msgType = .serverHello)
    (.protocol (s!"the server's first handshake message must be server_hello(2); it sent " ++
      message.name))
  let hello ← Action.lift (ServerHello.parse message.body)
  if hello.isHelloRetryRequest then do
    let c ← Action.get
    Action.require (c.helloRetryRequest.isNone)
      (.protocol ("the server sent a second hello_retry_request: RFC 8446 section 4.1.4 allows one " ++
        "per connection"))
    Action.modify fun c => { c with helloRetryRequest := some hello, serverHelloBytes := message.raw }
    Action.require c.config.followHelloRetry
      (.protocol ("the server asked for a HelloRetryRequest and this client was told not to follow " ++
        "one"))
    handleHelloRetry hello message.raw
    pure (.inl ())
  else do
    takeServerHello hello message.raw
    pure (.inr ())

def readServerHello : Action Client TlsError Unit :=
  Action.forever (fun c => c.conn.pending) readServerHelloRound ()

end

/-! ### Flight 2 continued -/

/-- The guards of `read_server_flight`: why this message is out of order. -/
def outOfOrder (resumed sawEncryptedExtensions : Bool) (previous : Option HandshakeType)
    (certificate : Option CertificateMsg) (t : HandshakeType) : Option String :=
  if t = .encryptedExtensions then none
  else if ¬sawEncryptedExtensions then
    some ("RFC 8446 section 4.3.1 makes EncryptedExtensions the first message of the encrypted " ++
      "flight")
  else if t = .certificateRequest ∧ resumed then
    some "a resumed handshake carries no CertificateRequest (section 4.3.2)"
  else if t = .certificateRequest ∧ previous ≠ some .encryptedExtensions then
    some "CertificateRequest comes straight after EncryptedExtensions"
  else if t = .certificate ∧ resumed then
    some ("the server accepted a PSK, so it authenticates with that and sends no Certificate " ++
      "(section 4.4)")
  else if t = .certificate ∧ certificate.isSome then some "the server sent its Certificate twice"
  else if t = .certificateVerify ∧ previous ≠ some .certificate then
    some "CertificateVerify comes immediately after the Certificate it proves"
  else if t = .finished ∧ ¬resumed ∧ previous ≠ some .certificateVerify then
    some ("a handshake that is not resuming must authenticate the server with Certificate and " ++
      "CertificateVerify before its Finished (section 4.4)")
  else if t = .finished ∧ resumed ∧ previous ≠ some .encryptedExtensions then
    some "a resumed handshake goes EncryptedExtensions, Finished"
  else none

def parseEncryptedExtensions (body : Bytes) : Except TlsError (List Extension) := do
  let extBytes ← Reader.run (do
    let extBytes ← Read.vec16 "encrypted_extensions" "extensions"
    Read.expectDone "encrypted_extensions" "encrypted_extensions"
    pure extBytes) body
  parseExtensions extBytes "encrypted_extensions"

section variable [Crates]

def takeEncryptedExtensions (message : HandshakeMessage) (transcript : Transcript) :
    Action Client TlsError Unit := do
  let extensions ← Action.lift (parseEncryptedExtensions message.body)
  let transcript := transcript.push message.raw
  Action.modify fun c =>
    { c with encryptedExtensions := extensions
             encryptedExtensionsBytes := message.raw
             alpnSelected := alpnChoice extensions
             transcript := some transcript
             hashAfterEncryptedExtensions := transcript.current }

omit [Crates] in
def takeCertificateRequest (message : HandshakeMessage) (transcript : Transcript) :
    Action Client TlsError Unit := do
  let request ← Action.lift (CertificateRequestMsg.parse message.body)
  Action.modify fun c =>
    { c with certificateRequestMsg := some request
             certificateRequest := some message.raw
             transcript := some (transcript.push message.raw) }

variable [Signatures]

def takeCertificate (message : HandshakeMessage) (transcript : Transcript) :
    Action Client TlsError Unit := do
  let cert ← Action.lift (CertificateMsg.parse message.body)
  let leaf ← Action.lift cert.leaf
  let key ← Action.lift (PublicKey.fromCertificate leaf)
  let transcript := transcript.push message.raw
  Action.modify fun c =>
    { c with serverPublicKey := some key
             certificate := some cert
             certificateBytes := message.raw
             transcript := some transcript
             hashAfterCertificate := transcript.current }

def takeCertificateVerify (message : HandshakeMessage) (transcript : Transcript) :
    Action Client TlsError Unit := do
  let cv ← Action.lift (CertificateVerifyMsg.parse message.body)
  let c ← Action.get
  Action.require (cv.algorithm ∈ c.config.signatureAlgorithms ∧ cv.algorithm ≠ sigRsaPkcs1Sha256)
    (.protocol (s!"certificate_verify.algorithm is {sigName cv.algorithm}, which " ++
      (if cv.algorithm = sigRsaPkcs1Sha256 then
        "TLS 1.3 never uses in CertificateVerify: RSA signs with PSS"
        else "the ClientHello's signature_algorithms did not offer") ++ " (RFC 8446 section 4.4.3)"))
  let key ← Action.demand c.serverPublicKey
    (.protocol "certificate_verify arrived before certificate")
  Action.lift (verify key cv.algorithm cv.signature c.hashAfterCertificate)
  let transcript := transcript.push message.raw
  Action.modify fun c =>
    { c with certificateVerify := some cv
             certificateVerifyBytes := message.raw
             transcript := some transcript
             hashAfterCertificateVerify := transcript.current }

omit [Signatures] in
def takeServerFinished (message : HandshakeMessage) (transcript : Transcript) :
    Action Client TlsError Unit := do
  let expectedOver := transcript.current
  Action.modify fun c => { c with hashBeforeServerFinished := expectedOver }
  let c ← Action.get
  let schedule ← Action.demand c.schedule (.crypto "no key schedule")
  let keys ← Action.demand schedule.serverHandshake (.crypto "no server handshake keys")
  let want ← Action.lift (schedule.verifyData keys expectedOver)
  Action.require (want = message.body)
    (.crypto (s!"the server's Finished does not match: expected verify_data {hex want}, got " ++
      s!"{hex message.body} (HMAC of the finished key over the transcript hash {hex expectedOver})"))
  let transcript := transcript.push message.raw
  Action.modify fun c =>
    { c with serverVerifyData := message.body
             serverFinishedBytes := message.raw
             transcript := some transcript
             hashAfterServerFinished := transcript.current }
  onSchedule (KeySchedule.enterApplication transcript.current)

/-- The loop body of `read_server_flight`. -/
def flightRound (resumed : Bool) (seen : Bool × Option HandshakeType) :
    Action Client TlsError ((Bool × Option HandshakeType) ⊕ Unit) := do
  let message ← nextHandshake "the server's encrypted flight"
  let c ← Action.get
  let (sawEncryptedExtensions, previous) := seen
  let t := message.msgType
  match outOfOrder resumed sawEncryptedExtensions previous c.certificate t with
  | some why =>
    let after := match previous with
      | some p => s!"after {p.name}"
      | none => "first"
    Action.fail (.protocol s!"{message.name} arrived {after}: {why}")
  | none => do
    let transcript ← theTranscript "no transcript"
    if t = .encryptedExtensions then do
      Action.require (¬sawEncryptedExtensions)
        (.protocol "the server sent encrypted_extensions twice")
      takeEncryptedExtensions message transcript
      pure (.inl (true, some t))
    else if t = .certificateRequest then do
      takeCertificateRequest message transcript
      pure (.inl (sawEncryptedExtensions, some t))
    else if t = .certificate then do
      takeCertificate message transcript
      pure (.inl (sawEncryptedExtensions, some t))
    else if t = .certificateVerify then do
      takeCertificateVerify message transcript
      pure (.inl (sawEncryptedExtensions, some t))
    else if t = .finished then do
      takeServerFinished message transcript
      pure (.inr ())
    else Action.fail (.protocol s!"{t.name} has no place in a server's first flight")

/-- Whether the ServerHello selected a PSK. -/
def resumed (c : Client) : Bool :=
  match c.serverHello.map ServerHello.selectedPsk with
  | some (.ok (some _)) => true
  | _ => false

def readServerFlight : Action Client TlsError Unit := do
  let c ← Action.get
  Action.forever (fun c => c.conn.pending) (flightRound c.resumed) (false, none)

end

/-! ### Flight 3 -/

section variable [Crates]

omit [Crates] in
def ensureClientHandshakeKeys : Action Client TlsError Unit := do
  let c ← Action.get
  if c.clientHandshakeKeysInstalled then pure ()
  else do
    let schedule ← Action.demand c.schedule (.crypto "no key schedule")
    let keys ← Action.demand schedule.clientHandshake (.crypto "no client handshake keys")
    Action.modify fun c =>
      { c with conn := { c.conn with layer := c.conn.layer.setWrite keys }
               clientHandshakeKeysInstalled := true }

def writeClientHandshake (message : Bytes) : Action Client TlsError Unit := do
  ensureClientHandshakeKeys
  onConn (TlsConn.writeHandshake message)

def sendClientCertificateBytes (message : Bytes) : Action Client TlsError Unit := do
  writeClientHandshake message
  Action.modify fun c => { c with clientCertificateBytes := message }
  let transcript ← theTranscript "no transcript"
  Action.modify fun c => { c with transcript := some (transcript.push message) }

def sendClientCertificateVerifyBytes (message : Bytes) : Action Client TlsError Unit := do
  writeClientHandshake message
  Action.modify fun c => { c with clientCertificateVerifyBytes := message }
  let transcript ← theTranscript "no transcript"
  Action.modify fun c => { c with transcript := some (transcript.push message) }

def sendClientAuth [Signatures] (auth : ClientAuth) : Action Client TlsError Unit := do
  let c ← Action.get
  let request ← Action.demand c.certificateRequestMsg
    (.protocol "the server never sent a certificate_request, so there is nothing to answer")
  let accepted ← Action.lift request.signatureAlgorithms
  Action.require (auth.scheme ∈ accepted)
    (.protocol (s!"the server's certificate_request does not accept " ++
      s!"0x{hexDigits 4 auth.scheme.toNat}, the scheme the suite's client certificate uses"))
  let cert := CertificateMsg.one request.context auth.clientDer
  sendClientCertificateBytes (encodeHandshake .certificate cert.encodeBody)
  let transcript ← theTranscript "no transcript"
  let signature ← Action.lift
    (signPem auth.keyPkcs8Pem auth.scheme (clientSignedContent transcript.current))
  let cv : CertificateVerifyMsg := ⟨auth.scheme, signature⟩
  sendClientCertificateVerifyBytes (encodeHandshake .certificateVerify cv.encodeBody)

def sendEmptyClientCertificate : Action Client TlsError Unit := do
  let c ← Action.get
  let context := (c.certificateRequestMsg.map fun r => r.context).getD []
  sendClientCertificateBytes
    (encodeHandshake .certificate (CertificateMsg.none context).encodeBody)

def clientVerifyData (c : Client) : Except TlsError Bytes := do
  let schedule ← c.schedule.elim (.error (.crypto "no key schedule")) .ok
  let keys ← schedule.clientHandshake.elim (.error (.crypto "no client handshake keys")) .ok
  let hash ←
    if c.clientCertificateBytes.isEmpty then pure c.hashAfterServerFinished
    else do
      let transcript ← c.transcript.elim (.error (.protocol "no transcript")) .ok
      pure transcript.current
  schedule.verifyData keys hash

def clientFinishedSent (message : Bytes) : Action Client TlsError Unit := do
  Action.modify fun c => { c with clientFinishedBytes := message }
  let transcript ← theTranscript "no transcript"
  let transcript := transcript.push message
  Action.modify fun c =>
    { c with transcript := some transcript, hashAfterClientFinished := transcript.current }
  let _ ← onSchedule (KeySchedule.deriveResumptionMaster transcript.current)
  Action.modify fun c =>
    let layer := c.conn.layer
    let layer := ((c.schedule.bind fun k => k.clientApplication).map layer.setWrite).getD layer
    let layer := ((c.schedule.bind fun k => k.serverApplication).map layer.setRead).getD layer
    { c with conn := { c.conn with layer := layer }, finished := true }

def sendClientFinishedBytes (message : Bytes) : Action Client TlsError Unit := do
  ensureClientHandshakeKeys
  let written ← Action.attempt (onConn (TlsConn.writeHandshake message))
  clientFinishedSent message
  Action.lift written

def sendClientFinished : Action Client TlsError Unit := do
  let c ← Action.get
  let verifyData ← Action.lift c.clientVerifyData
  sendClientFinishedBytes (encodeHandshake .finished verifyData)

/-! ### Whole handshakes -/

variable [Curves] [Signatures]

def handshakeThroughServerFlight : Action Client TlsError Unit := do
  sendClientHello
  maybeSendCcs
  readServerHello
  readServerFlight

def handshake : Action Client TlsError Unit := do
  handshakeThroughServerFlight
  sendClientFinished

def handshakeWithClientAuth (auth : ClientAuth) : Action Client TlsError Unit := do
  handshakeThroughServerFlight
  sendClientAuth auth
  sendClientFinished

def handshakeDecliningClientAuth : Action Client TlsError Unit := do
  handshakeThroughServerFlight
  sendEmptyClientCertificate
  sendClientFinished

end

end Client

end BuildYourOwn.Tls
