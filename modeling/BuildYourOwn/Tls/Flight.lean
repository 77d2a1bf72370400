import BuildYourOwn.Tls.Hellos

/-!
# The order of the server's flight

`read_server_flight` of `tlstest/src/tls/client.rs` refuses a message for its type with a match over the
type, the previous one, a flag, the stored certificate and whether a PSK was selected. The comment above
it gives the order of the RFC, and so does `InOrder`.

* `Place` says how far a flight has come; `next` is what the guards and the arms of the match make of a
  message type there, `remaining` the flights that the RFC still allows. `remaining_cons`: they agree, a
  message at a time.
* `Passing` is what the contents of the messages have to satisfy: that they parse, that the signature
  verifies, that `verify_data` matches.
* A NewSessionTicket before the Finished is not refused: `next_handshake` keeps it to itself. So the flight
  is accepted in the order of the RFC exactly when there is no ticket in a flight otherwise in order
  (`in_order_iff`).
-/

namespace BuildYourOwn.Tls

open Lib
open Lib.Action (bind_demand_ok bind_get_ok bind_lift_ok bind_modify_ok bind_ok bind_require_ok
  fail_ok finishes_iff lift_ok modify_ok pure_ok require_ok)

/-! ## The order -/

/-- The messages of a server's flight, up to its Finished. -/
def InOrder (resumed : Bool) (types : List HandshakeType) : Prop :=
  if resumed then types = [.encryptedExtensions, .finished]
  else
    types = [.encryptedExtensions, .certificateRequest, .certificate, .certificateVerify, .finished] ∨
    types = [.encryptedExtensions, .certificate, .certificateVerify, .finished]

def flightTypes : List HandshakeType :=
  [.encryptedExtensions, .certificateRequest, .certificate, .certificateVerify, .finished]

/-- How far a flight has come. -/
inductive Place where
  | start
  | afterExtensions
  | afterRequest
  | afterCertificate
  | afterVerify
deriving DecidableEq

namespace Place

/-- The locals of the loop. -/
def seen : Place → Bool × Option HandshakeType
  | start => (false, none)
  | afterExtensions => (true, some .encryptedExtensions)
  | afterRequest => (true, some .certificateRequest)
  | afterCertificate => (true, some .certificate)
  | afterVerify => (true, some .certificateVerify)

def certified : Place → Bool
  | afterCertificate => true
  | afterVerify => true
  | _ => false

/-- The messages the RFC still allows. -/
def remaining (resumed : Bool) : Place → List (List HandshakeType)
  | start =>
    if resumed then [[.encryptedExtensions, .finished]]
    else [[.encryptedExtensions, .certificateRequest, .certificate, .certificateVerify, .finished],
      [.encryptedExtensions, .certificate, .certificateVerify, .finished]]
  | afterExtensions =>
    if resumed then [[.finished]]
    else [[.certificateRequest, .certificate, .certificateVerify, .finished],
      [.certificate, .certificateVerify, .finished]]
  | afterRequest => if resumed then [] else [[.certificate, .certificateVerify, .finished]]
  | afterCertificate => if resumed then [] else [[.certificateVerify, .finished]]
  | afterVerify => if resumed then [] else [[.finished]]

/-- Where a message of this type leads, `inr` at the end of the flight. -/
def next (resumed : Bool) (place : Place) (t : HandshakeType) : Option (Place ⊕ Unit) :=
  if t = .encryptedExtensions then if place = start then some (.inl afterExtensions) else none
  else if t = .certificateRequest then
    if ¬resumed ∧ place = afterExtensions then some (.inl afterRequest) else none
  else if t = .certificate then
    if ¬resumed ∧ (place = afterExtensions ∨ place = afterRequest) then some (.inl afterCertificate)
    else none
  else if t = .certificateVerify then
    if place = afterCertificate then some (.inl afterVerify) else none
  else if t = .finished then
    if place = (if resumed then afterExtensions else afterVerify) then some (.inr ()) else none
  else none

end Place

def allowed (resumed : Bool) : Place ⊕ Unit → List (List HandshakeType)
  | .inl place => place.remaining resumed
  | .inr _ => [[]]

theorem inOrder_iff {resumed : Bool} {types : List HandshakeType} :
    InOrder resumed types ↔ types ∈ Place.start.remaining resumed := by
  cases resumed <;> simp [InOrder, Place.remaining]

theorem remaining_nil (resumed : Bool) (place : Place) : [] ∉ place.remaining resumed := by
  cases place <;> cases resumed <;> decide

/-- **The guards follow the order**, a message at a time. -/
theorem remaining_cons (resumed : Bool) (place : Place) (t : HandshakeType) (ts : List HandshakeType) :
    t :: ts ∈ place.remaining resumed ↔ ∃ o, place.next resumed t = some o ∧ ts ∈ allowed resumed o := by
  by_cases hlisted : t ∈ flightTypes
  · simp only [flightTypes, List.mem_cons, List.not_mem_nil, or_false] at hlisted
    obtain rfl | rfl | rfl | rfl | rfl := hlisted <;> cases place <;> cases resumed <;>
      simp [Place.remaining, Place.next, allowed, HandshakeType.encryptedExtensions,
        HandshakeType.certificateRequest, HandshakeType.certificate, HandshakeType.certificateVerify,
        HandshakeType.finished]
  · simp only [flightTypes, List.mem_cons, List.not_mem_nil, or_false, not_or] at hlisted
    obtain ⟨hee, hcr, hcert, hcv, hfin⟩ := hlisted
    have hnone : place.next resumed t = none := by simp [Place.next, hee, hcr, hcert, hcv, hfin]
    cases place <;> cases resumed <;> simp [Place.remaining, hnone, hee, hcr, hcert, hcv, hfin]

/-! ## What each message leaves -/

section variable [Crates]

variable {c c' : Client} {u : Unit} {m : HandshakeMessage} {t : Transcript}

theorem takeEncryptedExtensions_ok : Client.takeEncryptedExtensions m t c = some (.ok u, c') ↔
      ∃ extensions, Client.parseEncryptedExtensions m.body = .ok extensions ∧
        c' = { c with
          encryptedExtensions := extensions
          encryptedExtensionsBytes := m.raw
          alpnSelected := alpnChoice extensions
          transcript := some (t.push m.raw)
          hashAfterEncryptedExtensions := (t.push m.raw).current } := by
  unfold Client.takeEncryptedExtensions
  rw [bind_ok]
  constructor
  · rintro ⟨extensions, _, hlift, h⟩
    obtain ⟨hparse, rfl⟩ := lift_ok.mp hlift
    exact ⟨extensions, hparse, (modify_ok.mp h).symm⟩
  · rintro ⟨extensions, hparse, rfl⟩
    exact ⟨extensions, c, lift_ok.mpr ⟨hparse, rfl⟩, modify_ok.mpr rfl⟩

omit [Crates] in
theorem takeCertificateRequest_ok : Client.takeCertificateRequest m t c = some (.ok u, c') ↔
      ∃ request, CertificateRequestMsg.parse m.body = .ok request ∧
        c' = { c with
          certificateRequestMsg := some request
          certificateRequest := some m.raw
          transcript := some (t.push m.raw) } := by
  unfold Client.takeCertificateRequest
  rw [bind_ok]
  constructor
  · rintro ⟨request, _, hlift, h⟩
    obtain ⟨hparse, rfl⟩ := lift_ok.mp hlift
    exact ⟨request, hparse, (modify_ok.mp h).symm⟩
  · rintro ⟨request, hparse, rfl⟩
    exact ⟨request, c, lift_ok.mpr ⟨hparse, rfl⟩, modify_ok.mpr rfl⟩

theorem takeServerFinished_ok : Client.takeServerFinished m t c = some (.ok u, c') ↔
      ∃ schedule keys schedule', c.schedule = some schedule ∧ schedule.serverHandshake = some keys ∧
        schedule.verifyData keys t.current = .ok m.body ∧
        KeySchedule.enterApplication (t.push m.raw).current schedule = some (.ok (), schedule') ∧
        c' = { c with
          hashBeforeServerFinished := t.current
          serverVerifyData := m.body
          serverFinishedBytes := m.raw
          transcript := some (t.push m.raw)
          hashAfterServerFinished := (t.push m.raw).current
          schedule := some schedule' } := by
  unfold Client.takeServerFinished Client.onSchedule
  constructor
  · intro h
    replace h := bind_modify_ok.mp h
    replace h := bind_get_ok.mp h
    obtain ⟨schedule, hschedule, h⟩ := bind_demand_ok.mp h
    obtain ⟨keys, hkeys, h⟩ := bind_demand_ok.mp h
    obtain ⟨want, hwant, h⟩ := bind_lift_ok.mp h
    obtain ⟨_, _, hrequire, h⟩ := bind_ok.mp h
    obtain ⟨rfl, rfl⟩ := require_ok.mp hrequire
    replace h := bind_modify_ok.mp h
    replace h := bind_get_ok.mp h
    obtain ⟨schedule₁, hschedule₁, h⟩ := bind_demand_ok.mp h
    obtain rfl : schedule = schedule₁ := Option.mem_unique hschedule hschedule₁
    obtain ⟨schedule', henter, rfl⟩ := Action.onPart_ok.mp h
    exact ⟨schedule, keys, schedule', hschedule, hkeys, hwant, henter, rfl⟩
  · rintro ⟨schedule, keys, schedule', hschedule, hkeys, hverify, henter, rfl⟩
    refine bind_modify_ok.mpr ?_
    refine bind_get_ok.mpr ?_
    refine bind_demand_ok.mpr ⟨schedule, hschedule, ?_⟩
    refine bind_demand_ok.mpr ⟨keys, hkeys, ?_⟩
    refine bind_lift_ok.mpr ⟨m.body, hverify, ?_⟩
    refine bind_require_ok.mpr ⟨rfl, ?_⟩
    refine bind_modify_ok.mpr ?_
    refine bind_get_ok.mpr ?_
    refine bind_demand_ok.mpr ⟨schedule, hschedule, ?_⟩
    exact Action.onPart_ok.mpr ⟨schedule', henter, rfl⟩

variable [Signatures]

omit [Crates] in
def presentedKey (m : HandshakeMessage) : Except TlsError (CertificateMsg × PublicKey) := do
  let cert ← CertificateMsg.parse m.body
  let leaf ← cert.leaf
  let key ← PublicKey.fromCertificate leaf
  pure (cert, key)

theorem takeCertificate_ok : Client.takeCertificate m t c = some (.ok u, c') ↔
      ∃ cert key, presentedKey m = .ok (cert, key) ∧
        c' = { c with
          serverPublicKey := some key
          certificate := some cert
          certificateBytes := m.raw
          transcript := some (t.push m.raw)
          hashAfterCertificate := (t.push m.raw).current } := by
  unfold Client.takeCertificate presentedKey
  constructor
  · intro h
    obtain ⟨cert, hparse, h⟩ := bind_lift_ok.mp h
    obtain ⟨leaf, hleaf, h⟩ := bind_lift_ok.mp h
    obtain ⟨key, hkey, h⟩ := bind_lift_ok.mp h
    obtain rfl := modify_ok.mp h
    refine ⟨cert, key, ?_, rfl⟩
    exact except_bind_ok.mpr ⟨cert, hparse, except_bind_ok.mpr
      ⟨leaf, hleaf, except_bind_ok.mpr ⟨key, hkey, rfl⟩⟩⟩
  · rintro ⟨cert, key, hpresented, rfl⟩
    obtain ⟨cert', hparse, hrest⟩ := except_bind_ok.mp hpresented
    obtain ⟨leaf, hleaf, hrest⟩ := except_bind_ok.mp hrest
    obtain ⟨key', hkey, hpair⟩ := except_bind_ok.mp hrest
    cases hpair
    refine bind_lift_ok.mpr ⟨cert, hparse, ?_⟩
    refine bind_lift_ok.mpr ⟨leaf, hleaf, ?_⟩
    refine bind_lift_ok.mpr ⟨key, hkey, ?_⟩
    exact modify_ok.mpr rfl

def Proves (config : ClientConfig) (key : PublicKey) (hash : Bytes) (m : HandshakeMessage)
    (cv : CertificateVerifyMsg) : Prop :=
  CertificateVerifyMsg.parse m.body = .ok cv ∧
    (cv.algorithm ∈ config.signatureAlgorithms ∧ cv.algorithm ≠ sigRsaPkcs1Sha256) ∧
    verify key cv.algorithm cv.signature hash = .ok ()

theorem takeCertificateVerify_ok : Client.takeCertificateVerify m t c = some (.ok u, c') ↔
      ∃ cv key, c.serverPublicKey = some key ∧ Proves c.config key c.hashAfterCertificate m cv ∧
        c' = { c with
          certificateVerify := some cv
          certificateVerifyBytes := m.raw
          transcript := some (t.push m.raw)
          hashAfterCertificateVerify := (t.push m.raw).current } := by
  unfold Client.takeCertificateVerify Proves
  constructor
  · intro h
    obtain ⟨cv, hparse, h⟩ := bind_lift_ok.mp h
    replace h := bind_get_ok.mp h
    obtain ⟨hscheme, h⟩ := bind_require_ok.mp h
    obtain ⟨key, hkey, h⟩ := bind_demand_ok.mp h
    obtain ⟨_, hverify, h⟩ := bind_lift_ok.mp h
    exact ⟨cv, key, hkey, ⟨hparse, hscheme, hverify⟩, (modify_ok.mp h).symm⟩
  · rintro ⟨cv, key, hkey, ⟨hparse, hscheme, hverify⟩, rfl⟩
    refine bind_lift_ok.mpr ⟨cv, hparse, ?_⟩
    refine bind_get_ok.mpr ?_
    refine bind_require_ok.mpr ⟨hscheme, ?_⟩
    refine bind_demand_ok.mpr ⟨key, hkey, ?_⟩
    refine bind_lift_ok.mpr ⟨(), hverify, ?_⟩
    exact modify_ok.mpr rfl

/-! ## A round of the loop -/

inductive Takes (saw : Bool) (m : HandshakeMessage) (t : Transcript) (c c' : Client) :
    (Bool × Option HandshakeType) ⊕ Unit → Prop
  | extensions (htype : m.msgType = .encryptedExtensions) (hsaw : saw = false)
      (htake : Client.takeEncryptedExtensions m t c = some (.ok (), c')) :
      Takes saw m t c c' (.inl (true, some .encryptedExtensions))
  | request (htype : m.msgType = .certificateRequest)
      (htake : Client.takeCertificateRequest m t c = some (.ok (), c')) :
      Takes saw m t c c' (.inl (saw, some .certificateRequest))
  | certificate (htype : m.msgType = .certificate)
      (htake : Client.takeCertificate m t c = some (.ok (), c')) :
      Takes saw m t c c' (.inl (saw, some .certificate))
  | verify (htype : m.msgType = .certificateVerify)
      (htake : Client.takeCertificateVerify m t c = some (.ok (), c')) :
      Takes saw m t c c' (.inl (saw, some .certificateVerify))
  | finished (htype : m.msgType = .finished)
      (htake : Client.takeServerFinished m t c = some (.ok (), c')) :
      Takes saw m t c c' (.inr ())

theorem flightRound_ok {resumed saw : Bool} {previous : Option HandshakeType}
    {o : (Bool × Option HandshakeType) ⊕ Unit} : Client.flightRound resumed (saw, previous) c = some (.ok o, c') ↔
      ∃ m c₁ t, Client.nextHandshake "the server's encrypted flight" c = some (.ok m, c₁) ∧
        Client.outOfOrder resumed saw previous c₁.certificate m.msgType = none ∧
        c₁.transcript = some t ∧ Takes saw m t c₁ c' o := by
  unfold Client.flightRound
  constructor
  · intro h
    obtain ⟨m, c₁, hnext, h⟩ := bind_ok.mp h
    replace h := bind_get_ok.mp h
    dsimp only at h
    cases horder : Client.outOfOrder resumed saw previous c₁.certificate m.msgType with
    | some why =>
      rw [horder] at h
      exact (fail_ok.mp h).elim
    | none =>
      rw [horder] at h
      obtain ⟨t, _, htranscript, h⟩ := bind_ok.mp h
      obtain ⟨ht, rfl⟩ := theTranscript_ok.mp htranscript
      refine ⟨m, c₁, t, hnext, horder, ht, ?_⟩
      split at h
      · rename_i htype
        obtain ⟨hsaw, h⟩ := bind_require_ok.mp h
        obtain ⟨_, _, htake, h⟩ := bind_ok.mp h
        rw [htype] at h
        obtain ⟨rfl, rfl⟩ := pure_ok.mp h
        exact .extensions htype (by simpa using hsaw) htake
      split at h
      · rename_i htype
        obtain ⟨_, _, htake, h⟩ := bind_ok.mp h
        rw [htype] at h
        obtain ⟨rfl, rfl⟩ := pure_ok.mp h
        exact .request htype htake
      split at h
      · rename_i htype
        obtain ⟨_, _, htake, h⟩ := bind_ok.mp h
        rw [htype] at h
        obtain ⟨rfl, rfl⟩ := pure_ok.mp h
        exact .certificate htype htake
      split at h
      · rename_i htype
        obtain ⟨_, _, htake, h⟩ := bind_ok.mp h
        rw [htype] at h
        obtain ⟨rfl, rfl⟩ := pure_ok.mp h
        exact .verify htype htake
      split at h
      · rename_i htype
        obtain ⟨_, _, htake, h⟩ := bind_ok.mp h
        obtain ⟨rfl, rfl⟩ := pure_ok.mp h
        exact .finished htype htake
      · exact (fail_ok.mp h).elim
  · rintro ⟨m, c₁, t, hnext, horder, ht, htakes⟩
    refine bind_ok.mpr ⟨m, c₁, hnext, ?_⟩
    refine bind_get_ok.mpr ?_
    dsimp only
    rw [horder]
    refine bind_ok.mpr ⟨t, c₁, theTranscript_ok.mpr ⟨ht, rfl⟩, ?_⟩
    have hdone {o : (Bool × Option HandshakeType) ⊕ Unit} {x : Action Client TlsError Unit}
        (htake : x c₁ = some (.ok (), c')) :
        (do
          x
          pure o) c₁ = some (.ok o, c') :=
      bind_ok.mpr ⟨(), c', htake, pure_ok.mpr ⟨rfl, rfl⟩⟩
    cases htakes with
    | extensions htype hsaw htake =>
      rw [htype, if_pos rfl]
      exact bind_ok.mpr ⟨(), c₁, require_ok.mpr ⟨by simpa using hsaw, rfl⟩, hdone htake⟩
    | request htype htake =>
      rw [htype, if_neg (by decide), if_pos rfl]
      exact hdone htake
    | certificate htype htake =>
      rw [htype, if_neg (by decide), if_neg (by decide), if_pos rfl]
      exact hdone htake
    | verify htype htake =>
      rw [htype, if_neg (by decide), if_neg (by decide), if_neg (by decide), if_pos rfl]
      exact hdone htake
    | finished htype htake =>
      rw [htype, if_neg (by decide), if_neg (by decide), if_neg (by decide), if_neg (by decide),
        if_pos rfl]
      exact hdone htake

omit [Crates] [Signatures] in
/-- **The guards and the arms together** let through what has a next place. -/
theorem guards_next (resumed : Bool) {place : Place} {certificate : Option CertificateMsg}
    (hcert : certificate.isSome = place.certified) (t : HandshakeType) :
    (Client.outOfOrder resumed place.seen.1 place.seen.2 certificate t = none ∧
      (t = .encryptedExtensions → place.seen.1 = false) ∧ t ∈ flightTypes) ↔ (place.next resumed t).isSome := by
  by_cases hlisted : t ∈ flightTypes
  · rw [and_iff_left hlisted]
    simp only [flightTypes, List.mem_cons, List.not_mem_nil, or_false] at hlisted
    obtain rfl | rfl | rfl | rfl | rfl := hlisted <;> cases place <;> cases resumed <;>
      cases certificate <;> simp [Place.seen, Place.certified, Place.next, Client.outOfOrder,
        HandshakeType.encryptedExtensions, HandshakeType.certificateRequest, HandshakeType.certificate,
        HandshakeType.certificateVerify, HandshakeType.finished] at hcert ⊢
  · refine iff_of_false (fun h => hlisted h.2.2) ?_
    simp only [flightTypes, List.mem_cons, List.not_mem_nil, or_false, not_or] at hlisted
    obtain ⟨hee, hcr, hcert, hcv, hfin⟩ := hlisted
    simp [Place.next, hee, hcr, hcert, hcv, hfin]

/-! ## The key schedule has its lengths -/

omit [Signatures] in
theorem hkdfExpandLabel_runs (alg : HashAlg) (secret : Bytes) (label : String) (context : Bytes)
    {length : Nat} (h : length ≤ 48) : ∃ out, hkdfExpandLabel alg secret label context length = .ok out := by
  unfold hkdfExpandLabel hkdfExpand
  have hblocks : ¬255 < (length + alg.len - 1) / alg.len := by
    have hlen : 32 ≤ alg.len ∧ alg.len ≤ 48 := by cases alg <;> decide
    have hfew : (length + alg.len - 1) / alg.len ≤ length + alg.len - 1 := Nat.div_le_self _ _
    omega
  rw [if_neg hblocks]
  exact ⟨_, rfl⟩

omit [Signatures] in
theorem deriveSecret_runs (alg : HashAlg) (secret : Bytes) (label : String) (hash : Bytes) :
    ∃ out, deriveSecret alg secret label hash = .ok out :=
  hkdfExpandLabel_runs alg secret label hash (by cases alg <;> decide)

omit [Signatures] in
theorem TrafficKeys.derive_runs (suite : Suite) (secret : Bytes) :
    ∃ keys, TrafficKeys.derive suite secret = .ok keys := by
  have hlen : suite.aead.keyLen ≤ 48 := by cases suite.aead <;> decide
  have hivLen : suite.aead.ivLen ≤ 48 := by cases suite.aead <;> decide
  obtain ⟨key, hkey⟩ := hkdfExpandLabel_runs suite.hash secret "key" [] hlen
  obtain ⟨iv, hiv⟩ := hkdfExpandLabel_runs suite.hash secret "iv" [] hivLen
  unfold TrafficKeys.derive
  rw [hkey]
  change ∃ keys, (hkdfExpandLabel suite.hash secret "iv" [] suite.aead.ivLen >>= _) = Except.ok keys
  rw [hiv]
  exact ⟨_, rfl⟩

omit [Signatures] in
/-- **Entering the application epoch never fails.** -/
theorem KeySchedule.enterApplication_runs (hash : Bytes) (k : KeySchedule) :
    ∃ k', KeySchedule.enterApplication hash k = some (.ok (), k') := by
  obtain ⟨s₁, h₁⟩ := deriveSecret_runs k.suite.hash k.masterSecret "c ap traffic" hash
  obtain ⟨s₂, h₂⟩ := deriveSecret_runs k.suite.hash k.masterSecret "s ap traffic" hash
  obtain ⟨s₃, h₃⟩ := deriveSecret_runs k.suite.hash k.masterSecret "exp master" hash
  obtain ⟨client, hclient⟩ := TrafficKeys.derive_runs k.suite s₁
  obtain ⟨server, hserver⟩ := TrafficKeys.derive_runs k.suite s₂
  unfold KeySchedule.enterApplication
  refine ⟨{ k with
    clientApplication := some client
    serverApplication := some server
    exporterMaster := some s₃ }, bind_ok.mpr ⟨k, k, Action.get_ok.mpr ⟨rfl, rfl⟩, ?_⟩⟩
  refine bind_lift_ok.mpr ⟨s₁, h₁, ?_⟩
  refine bind_lift_ok.mpr ⟨s₂, h₂, ?_⟩
  refine bind_lift_ok.mpr ⟨s₃, h₃, ?_⟩
  refine bind_lift_ok.mpr ⟨client, hclient, ?_⟩
  refine bind_modify_ok.mpr ?_
  refine bind_lift_ok.mpr ⟨server, hserver, ?_⟩
  refine bind_modify_ok.mpr ?_
  exact modify_ok.mpr rfl

/-! ## What the messages have in them -/

structure Contents (config : ClientConfig) (k : KeySchedule) (t : Transcript)
    (presented : Option (PublicKey × Bytes)) (m : HandshakeMessage) : Prop where
  extensions : m.msgType = .encryptedExtensions →
    ∃ extensions, Client.parseEncryptedExtensions m.body = .ok extensions
  request : m.msgType = .certificateRequest →
    ∃ request, CertificateRequestMsg.parse m.body = .ok request
  certificate : m.msgType = .certificate → ∃ cert key, presentedKey m = .ok (cert, key)
  verify : m.msgType = .certificateVerify →
    ∀ key hash, presented = some (key, hash) → ∃ cv, Proves config key hash m cv
  finished : m.msgType = .finished →
    ∀ keys, k.serverHandshake = some keys → k.verifyData keys t.current = .ok m.body

def presents (t : Transcript) (presented : Option (PublicKey × Bytes)) (m : HandshakeMessage) :
    Option (PublicKey × Bytes) :=
  if m.msgType = .certificate then
    (presentedKey m).toOption.map fun c => (c.2, (t.push m.raw).current)
  else presented

/-- Every message parses, the signature verifies and `verify_data` matches. -/
def Passing (config : ClientConfig) (k : KeySchedule) :
    Transcript → Option (PublicKey × Bytes) → List HandshakeMessage → Prop
  | _, _, [] => True
  | t, presented, m :: ms =>
    Contents config k t presented m ∧ Passing config k (t.push m.raw) (presents t presented m) ms

structure Stands (config : ClientConfig) (k : KeySchedule) (t : Transcript)
    (presented : Option (PublicKey × Bytes)) (place : Place) (c : Client) : Prop where
  config : c.config = config
  schedule : c.schedule = some k
  transcript : c.transcript = some t
  certificate : c.certificate.isSome = place.certified
  checkedWith : ∀ key hash, presented = some (key, hash) →
    c.serverPublicKey = some key ∧ c.hashAfterCertificate = hash
  authentic : place = .afterCertificate → presented.isSome

variable {config : ClientConfig} {k : KeySchedule} {presented : Option (PublicKey × Bytes)}
  {place : Place} {keys : TrafficKeys} {resumed : Bool}

omit [Crates] [Signatures] in
theorem Stands.read {c₁ : Client} (h : Stands config k t presented place c)
    (hsame : c.SameButRead c₁) : Stands config k t presented place c₁ := by
  obtain ⟨hconfig, hschedule, htranscript, hcert, hpresented, hauthentic⟩ := h
  rw [hsame]
  exact ⟨hconfig, hschedule, htranscript, hcert, hpresented, hauthentic⟩

variable {o : Place ⊕ Unit}

/-- **A message in its place is taken**, and the client stands where it leads. -/
theorem takes_next (hkeys : k.serverHandshake = some keys) (hc : Stands config k t presented place c)
    (hm : Contents config k t presented m) (ho : place.next resumed m.msgType = some o) :
    ∃ c', Takes place.seen.1 m t c c' (o.map Place.seen id) ∧ c'.conn = c.conn ∧
      ∀ place', o = .inl place' → Stands config k (t.push m.raw) (presents t presented m) place' c' := by
  obtain ⟨hconfig, hschedule, htranscript, hcert, hchecked, hauthentic⟩ := hc
  -- a message that is no Certificate leaves the key as it was
  have hother {t' : HandshakeType} (h : m.msgType = t') (hne : t' ≠ .certificate) :
      presents t presented m = presented := if_neg (h ▸ hne)
  unfold Place.next at ho
  split at ho
  · rename_i htype
    split at ho
    · rename_i hplace
      cases ho
      subst hplace
      obtain ⟨extensions, hparse⟩ := hm.extensions htype
      have htake := (takeEncryptedExtensions_ok (t := t) (c := c) (u := ())).mpr ⟨extensions, hparse, rfl⟩
      refine ⟨_, .extensions htype rfl htake, rfl, fun place' hplace' => ?_⟩
      cases hplace'
      rw [hother htype (by decide)]
      exact ⟨hconfig, hschedule, rfl, hcert, hchecked, fun h => by cases h⟩
    · cases ho
  split at ho
  · rename_i htype
    split at ho
    · rename_i hplace
      cases ho
      obtain ⟨-, rfl⟩ := hplace
      obtain ⟨request, hparse⟩ := hm.request htype
      have htake := (takeCertificateRequest_ok (t := t) (c := c) (u := ())).mpr ⟨request, hparse, rfl⟩
      refine ⟨_, .request htype htake, rfl, fun place' hplace' => ?_⟩
      cases hplace'
      rw [hother htype (by decide)]
      exact ⟨hconfig, hschedule, rfl, hcert, hchecked, fun h => by cases h⟩
    · cases ho
  split at ho
  · rename_i htype
    split at ho
    · rename_i hplace
      cases ho
      have hsaw : place.seen.1 = true := by obtain ⟨-, rfl | rfl⟩ := hplace <;> rfl
      obtain ⟨cert, key, hpresented⟩ := hm.certificate htype
      have htake := (takeCertificate_ok (t := t) (c := c) (u := ())).mpr ⟨cert, key, hpresented, rfl⟩
      rw [hsaw]
      refine ⟨_, .certificate htype htake, rfl, fun place' hplace' => ?_⟩
      cases hplace'
      have hpresents : presents t presented m = some (key, (t.push m.raw).current) := by
        unfold presents
        rw [if_pos htype, hpresented]
        rfl
      rw [hpresents]
      refine ⟨hconfig, hschedule, rfl, rfl, fun key' hash' h => ?_, fun _ => rfl⟩
      cases h
      exact ⟨rfl, rfl⟩
    · cases ho
  split at ho
  · rename_i htype
    split at ho
    · rename_i hplace
      cases ho
      subst hplace
      obtain ⟨⟨key, hash⟩, hpresented⟩ := Option.isSome_iff_exists.mp (hauthentic rfl)
      obtain ⟨hkey, hhash⟩ := hchecked key hash hpresented
      obtain ⟨cv, hproves⟩ := hm.verify htype key hash hpresented
      rw [← hconfig, ← hhash] at hproves
      have htake := (takeCertificateVerify_ok (t := t) (c := c) (u := ())).mpr ⟨cv, key, hkey, hproves, rfl⟩
      refine ⟨_, .verify htype htake, rfl, fun place' hplace' => ?_⟩
      cases hplace'
      rw [hother htype (by decide)]
      exact ⟨hconfig, hschedule, rfl, hcert, hchecked, fun h => by cases h⟩
    · cases ho
  split at ho
  · rename_i htype
    obtain ⟨-, ho⟩ := Option.ite_none_right_eq_some.mp ho
    cases ho
    have hverify := hm.finished htype keys hkeys
    obtain ⟨k', henter⟩ := KeySchedule.enterApplication_runs (t.push m.raw).current k
    have htake := (takeServerFinished_ok (t := t) (c := c) (u := ())).mpr
      ⟨k, keys, k', hschedule, hkeys, hverify, henter, rfl⟩
    exact ⟨_, .finished htype htake, rfl, fun place' h => by cases h⟩
  · cases ho

theorem takes_contents {saw : Bool} {o : (Bool × Option HandshakeType) ⊕ Unit}
    (hc : Stands config k t presented place c) (h : Takes saw m t c c' o) : Contents config k t presented m := by
  -- a check of another type does not apply
  have hno {t' t'' : HandshakeType} {p : Prop} (htype : m.msgType = t') (hne : t' ≠ t'') :
      m.msgType = t'' → p := fun h => absurd (htype.symm.trans h) hne
  cases h with
  | extensions htype _ htake =>
    obtain ⟨extensions, hparse, -⟩ := takeEncryptedExtensions_ok.mp htake
    exact ⟨fun _ => ⟨extensions, hparse⟩, hno htype (by decide), hno htype (by decide),
      hno htype (by decide), hno htype (by decide)⟩
  | request htype htake =>
    obtain ⟨request, hparse, -⟩ := takeCertificateRequest_ok.mp htake
    exact ⟨hno htype (by decide), fun _ => ⟨request, hparse⟩, hno htype (by decide),
      hno htype (by decide), hno htype (by decide)⟩
  | certificate htype htake =>
    obtain ⟨cert, key, hpresented, -⟩ := takeCertificate_ok.mp htake
    exact ⟨hno htype (by decide), hno htype (by decide), fun _ => ⟨cert, key, hpresented⟩,
      hno htype (by decide), hno htype (by decide)⟩
  | verify htype htake =>
    obtain ⟨cv, key, hkey, hproves, -⟩ := takeCertificateVerify_ok.mp htake
    refine ⟨hno htype (by decide), hno htype (by decide), hno htype (by decide),
      fun _ key' hash hpresented => ?_, hno htype (by decide)⟩
    obtain ⟨hkey', rfl⟩ := hc.checkedWith key' hash hpresented
    obtain rfl : key = key' := Option.mem_unique hkey hkey'
    exact ⟨cv, hc.config ▸ hproves⟩
  | finished htype htake =>
    obtain ⟨k', keys', _, hk, hkeys, hverify, -, -⟩ := takeServerFinished_ok.mp htake
    obtain rfl : k = k' := Option.mem_unique hc.schedule hk
    refine ⟨hno htype (by decide), hno htype (by decide), hno htype (by decide),
      hno htype (by decide), fun _ keys'' hkeys'' => ?_⟩
    obtain rfl : keys' = keys'' := Option.mem_unique hkeys hkeys''
    exact hverify

/-! ## Runs of the loop -/

theorem takes_listed {saw : Bool} {o : (Bool × Option HandshakeType) ⊕ Unit} (h : Takes saw m t c c' o) :
    (m.msgType = .encryptedExtensions → saw = false) ∧ m.msgType ∈ flightTypes := by
  cases h with
  | extensions htype hsaw _ =>
    rw [htype]
    exact ⟨fun _ => hsaw, by decide⟩
  | request htype _ =>
    rw [htype]
    exact ⟨fun h => absurd h (by decide), by decide⟩
  | certificate htype _ =>
    rw [htype]
    exact ⟨fun h => absurd h (by decide), by decide⟩
  | verify htype _ =>
    rw [htype]
    exact ⟨fun h => absurd h (by decide), by decide⟩
  | finished htype _ =>
    rw [htype]
    exact ⟨fun h => absurd h (by decide), by decide⟩

theorem flightRound_refuses {c₁ : Client}
    (hnext : Client.nextHandshake "the server's encrypted flight" c = some (.ok m, c₁))
    (hc : Stands config k t presented place c₁) (hnone : place.next resumed m.msgType = none)
    {o : (Bool × Option HandshakeType) ⊕ Unit} : Client.flightRound resumed place.seen c ≠ some (.ok o, c') := by
  intro h
  obtain ⟨m', c₁', t', hnext', horder, -, htakes⟩ := flightRound_ok.mp h
  obtain ⟨rfl, rfl⟩ : m = m' ∧ c₁ = c₁' := by simpa using hnext.symm.trans hnext'
  have hsome := (guards_next resumed hc.certificate m.msgType).mp ⟨horder, takes_listed htakes⟩
  rw [hnone] at hsome
  cases hsome

theorem flightRound_takes {c₁ : Client}
    (hnext : Client.nextHandshake "the server's encrypted flight" c = some (.ok m, c₁))
    (hkeys : k.serverHandshake = some keys) (hc : Stands config k t presented place c₁)
    (hm : Contents config k t presented m) (ho : place.next resumed m.msgType = some o) :
    ∃ c', Client.flightRound resumed place.seen c = some (.ok (o.map Place.seen id), c') ∧
      c'.conn = c₁.conn ∧ ∀ place', o = .inl place' →
        Stands config k (t.push m.raw) (presents t presented m) place' c' := by
  obtain ⟨c', htakes, hconn, hstands⟩ := takes_next hkeys hc hm ho
  have hguards := (guards_next resumed hc.certificate m.msgType).mpr (by rw [ho]; rfl)
  exact ⟨c', flightRound_ok.mpr ⟨m, c₁, t, hnext, hguards.1, hc.transcript, htakes⟩, hconn, hstands⟩

omit [Crates] [Signatures] in
theorem Place.next_finished {t' : HandshakeType}
    (h : place.next resumed t' = some o) : t' = .finished ↔ o = .inr () := by
  constructor
  · rintro rfl
    exact (Option.some.inj (Option.ite_none_right_eq_some.mp h).2).symm
  · rintro rfl
    grind [Place.next]

theorem flight_accepts (resumed : Bool) (hkeys : k.serverHandshake = some keys) (ms : List HandshakeMessage)
    (hms : ticketless (received c.conn) = ms) (hparse : TicketsParse (received c.conn))
    (hc : Stands config k t presented place c) (hpass : Passing config k t presented ms) :
    (∃ c', Action.Repeats (Client.flightRound resumed) place.seen c (.ok ()) c') ↔
      ms.map HandshakeMessage.msgType ∈ place.remaining resumed := by
  induction ms generalizing c t presented place with
  | nil =>
    refine iff_of_false ?_ (remaining_nil resumed place)
    have htakes := nextHandshake_received "the server's encrypted flight" c hparse
    rw [hms] at htakes
    have hnone : ∀ o c', Client.flightRound resumed place.seen c ≠ some (.ok o, c') := fun o c' h => by
      obtain ⟨m, c₁, -, hnext, -⟩ := flightRound_ok.mp h
      exact htakes m c₁ hnext
    rintro ⟨c', h⟩
    cases h with
    | done hbody => exact hnone _ _ hbody
    | again hbody _ => exact hnone _ _ hbody
  | cons m ms ih =>
    have htakes := nextHandshake_received "the server's encrypted flight" c hparse
    rw [hms] at htakes
    obtain ⟨c₁, hnext, hlast, hrest⟩ := htakes
    have hc₁ := hc.read (nextHandshake_ok hnext).1
    rw [List.map_cons, remaining_cons]
    cases ho : place.next resumed m.msgType with
    | none =>
      refine iff_of_false ?_ (by simp)
      rintro ⟨c', h⟩
      cases h with
      | done hbody => exact flightRound_refuses hnext hc₁ ho hbody
      | again hbody _ => exact flightRound_refuses hnext hc₁ ho hbody
    | some o =>
      obtain ⟨c₂, hround, hconn, hstands⟩ := flightRound_takes hnext hkeys hc₁ hpass.1 ho
      cases o with
      | inr u =>
        have hend := hlast ((Place.next_finished ho).mpr rfl)
        refine iff_of_true ⟨c₂, .done hround⟩ ⟨_, rfl, ?_⟩
        rw [hend]
        exact List.mem_singleton.mpr rfl
      | inl place' =>
        have hmore : m.msgType ≠ .finished := fun h => by cases (Place.next_finished ho).mp h
        obtain ⟨hms', hsub⟩ := hrest hmore
        have hthen := ih (c := c₂) (hconn ▸ hms')
          (fun m' hm' => hparse m' (hsub m' (hconn ▸ hm'))) (hstands place' rfl) hpass.2
        constructor
        · rintro ⟨c', h⟩
          cases h with
          | done hbody => cases hbody.symm.trans hround
          | again hbody hrest' =>
            obtain ⟨rfl, rfl⟩ : place'.seen = _ ∧ c₂ = _ := by simpa using hround.symm.trans hbody
            exact ⟨_, rfl, hthen.mp ⟨c', hrest'⟩⟩
        · rintro ⟨o', ho', hmem⟩
          cases ho'
          obtain ⟨c', h⟩ := hthen.mpr hmem
          exact ⟨c', .again hround h⟩

/-- **A flight that ends well** has passed its checks. -/
theorem flight_passes (hkeys : k.serverHandshake = some keys) (ms : List HandshakeMessage)
    (hms : ticketless (received c.conn) = ms) (hparse : TicketsParse (received c.conn))
    (hc : Stands config k t presented place c)
    (h : Action.Repeats (Client.flightRound resumed) place.seen c (.ok ()) c') : Passing config k t presented ms := by
  induction ms generalizing c t presented place with
  | nil => trivial
  | cons m ms ih =>
    have htakes := nextHandshake_received "the server's encrypted flight" c hparse
    rw [hms] at htakes
    obtain ⟨c₁, hnext, hlast, hrest⟩ := htakes
    have hc₁ := hc.read (nextHandshake_ok hnext).1
    -- the first round has taken `m`
    have hfirst {o : (Bool × Option HandshakeType) ⊕ Unit} {c₂ : Client}
        (hround : Client.flightRound resumed place.seen c = some (.ok o, c₂)) :
        Contents config k t presented m ∧ ∃ o', place.next resumed m.msgType = some o' := by
      obtain ⟨m', c₁', t', hnext', horder, ht', htakes⟩ := flightRound_ok.mp hround
      obtain ⟨rfl, rfl⟩ : m = m' ∧ c₁ = c₁' := by simpa using hnext.symm.trans hnext'
      obtain rfl : t = t' := Option.mem_unique hc₁.transcript ht'
      exact ⟨takes_contents hc₁ htakes, Option.isSome_iff_exists.mp
        ((guards_next resumed hc₁.certificate m.msgType).mp ⟨horder, takes_listed htakes⟩)⟩
    have hcontents : Contents config k t presented m ∧ ∃ o', place.next resumed m.msgType = some o' := by
      cases h with
      | done hround => exact hfirst hround
      | again hround _ => exact hfirst hround
    obtain ⟨hm, o, ho⟩ := hcontents
    obtain ⟨c₂, hround, hconn, hstands⟩ := flightRound_takes hnext hkeys hc₁ hm ho
    refine ⟨hm, ?_⟩
    cases o with
    | inr u =>
      rw [hlast ((Place.next_finished ho).mpr rfl)]
      trivial
    | inl place' =>
      have hmore : m.msgType ≠ .finished := fun h => by cases (Place.next_finished ho).mp h
      obtain ⟨hms', hsub⟩ := hrest hmore
      cases h with
      | done hround' => cases hround'.symm.trans hround
      | again hround' hrest' =>
        obtain ⟨rfl, rfl⟩ : place'.seen = _ ∧ c₂ = _ := by simpa using hround.symm.trans hround'
        exact ih (hconn ▸ hms') (fun m' hm' => hparse m' (hsub m' (hconn ▸ hm'))) (hstands place' rfl)
          hrest'

theorem flightRound_fewer {i j : Bool × Option HandshakeType}
    (h : Client.flightRound resumed i c = some (.ok (.inl j), c')) : c'.conn.pending < c.conn.pending := by
  obtain ⟨m, c₁, t, hnext, -, -, htakes⟩ := flightRound_ok.mp h
  have hfewer := (nextHandshake_ok hnext).2.2.2.2.2
  suffices hconn : c'.conn = c₁.conn by rwa [hconn]
  cases htakes with
  | extensions _ _ htake =>
    obtain ⟨_, _, rfl⟩ := takeEncryptedExtensions_ok.mp htake
    rfl
  | request _ htake =>
    obtain ⟨_, _, rfl⟩ := takeCertificateRequest_ok.mp htake
    rfl
  | certificate _ htake =>
    obtain ⟨_, _, _, rfl⟩ := takeCertificate_ok.mp htake
    rfl
  | verify _ htake =>
    obtain ⟨_, _, _, _, rfl⟩ := takeCertificateVerify_ok.mp htake
    rfl

theorem readServerFlight_runs {r : Except TlsError Unit} :
    Client.readServerFlight c = some (r, c') ↔ Action.Repeats (Client.flightRound c.resumed) Place.start.seen c r c' :=
  Action.forever_some fun (i : Bool × Option HandshakeType) t j t'
    (hround : Client.flightRound c.resumed i t = some (.ok (.inl j), t')) => flightRound_fewer hround

/-! ## From the ServerHello on -/

variable [Curves] {c₀ : Client}

omit [Signatures] in
theorem readServerHelloRound_certificate {u v : Unit}
    (h : Client.readServerHelloRound u c = some (.ok (.inl v), c')) : c'.certificate = c.certificate := by
  unfold Client.readServerHelloRound at h
  obtain ⟨m, c₁, hnext, h⟩ := bind_ok.mp h
  have hsame := (nextHandshake_ok hnext).1
  obtain ⟨-, h⟩ := bind_require_ok.mp h
  obtain ⟨hello, -, h⟩ := bind_lift_ok.mp h
  split at h
  · replace h := bind_get_ok.mp h
    obtain ⟨-, h⟩ := bind_require_ok.mp h
    replace h := bind_modify_ok.mp h
    obtain ⟨-, h⟩ := bind_require_ok.mp h
    obtain ⟨_, _, hhandle, h⟩ := bind_ok.mp h
    obtain ⟨-, rfl⟩ := pure_ok.mp h
    obtain ⟨_, _, _, _, _, _, -, -, -, -, rfl⟩ := handleHelloRetry_ok hhandle
    rw [hsame]
  · obtain ⟨_, _, -, h⟩ := bind_ok.mp h
    exact absurd (pure_ok.mp h).1 (by simp)

omit [Signatures] in
theorem readServerHello_stands (hfresh : c₀.certificate = none) (h : Client.readServerHello c₀ = some (.ok u, c)) :
    ∃ k keys t, k.serverHandshake = some keys ∧ Stands c.config k t none .start c := by
  obtain ⟨_, c₁, hcert, hlast⟩ := (Action.rounds_repeats h).invariant
    (fun _ t => t.certificate = none)
    (fun _ _ _ _ ht hround => (readServerHelloRound_certificate hround).trans ht) hfresh
  unfold Client.readServerHelloRound at hlast
  obtain ⟨m, c₂, hnext, h⟩ := bind_ok.mp hlast
  have hsame := (nextHandshake_ok hnext).1
  obtain ⟨-, h⟩ := bind_require_ok.mp h
  obtain ⟨hello, -, h⟩ := bind_lift_ok.mp h
  split at h
  · obtain ⟨_, _, -, h⟩ := bind_ok.mp h
    obtain ⟨_, _, -, h⟩ := bind_ok.mp h
    obtain ⟨_, _, -, h⟩ := bind_ok.mp h
    obtain ⟨_, _, -, h⟩ := bind_ok.mp h
    obtain ⟨_, _, -, h⟩ := bind_ok.mp h
    exact absurd (pure_ok.mp h).1 (by simp)
  · obtain ⟨_, _, htake, h⟩ := bind_ok.mp h
    obtain ⟨suite, t, group, shared, accepted, k, keys, -, -, -, -, -, hkeys, rfl⟩ :=
      takeServerHello_ok htake
    obtain ⟨-, rfl⟩ := pure_ok.mp h
    refine ⟨k, keys, _, hkeys, rfl, rfl, rfl, ?_, fun _ _ h => (by cases h), fun h => (by cases h)⟩
    change c₂.certificate.isSome = false
    rw [hsame]
    exact Option.isSome_eq_false_iff.mpr (Option.isNone_iff_eq_none.mpr hcert)

omit [Curves] in
/-- What comes in after the ServerHello passes its checks. -/
def ContentsPass (c : Client) : Prop :=
  ∀ k t, c.schedule = some k → c.transcript = some t →
    Passing c.config k t none (ticketless (received c.conn))

theorem contentsPass_of_flight (hfresh : c₀.certificate = none)
    (h : Client.readServerHello c₀ = some (.ok u, c)) (hparse : TicketsParse (received c.conn))
    (hflight : Client.readServerFlight c = some (.ok (), c')) : ContentsPass c := by
  intro k t hk ht
  obtain ⟨k', keys, t', hkeys, hstands⟩ := readServerHello_stands hfresh h
  obtain rfl : k' = k := Option.mem_unique hstands.schedule hk
  obtain rfl : t' = t := Option.mem_unique hstands.transcript ht
  exact flight_passes hkeys _ rfl hparse hstands (readServerFlight_runs.mp hflight)

theorem readServerFlight_accepts (hfresh : c₀.certificate = none)
    (h : Client.readServerHello c₀ = some (.ok u, c)) (hparse : TicketsParse (received c.conn))
    (hpass : ContentsPass c) : (∃ c', Client.readServerFlight c = some (.ok (), c')) ↔
      InOrder c.resumed ((ticketless (received c.conn)).map HandshakeMessage.msgType) := by
  obtain ⟨k, keys, t, hkeys, hstands⟩ := readServerHello_stands hfresh h
  have hflight := flight_accepts c.resumed hkeys _ rfl hparse hstands
    (hpass k t hstands.schedule hstands.transcript)
  rw [inOrder_iff, ← hflight]
  exact exists_congr fun c' => readServerFlight_runs

omit [Crates] [Signatures] [Curves] in
theorem InOrder.no_ticket {types : List HandshakeType} (h : InOrder resumed types) :
    HandshakeType.newSessionTicket ∉ types := by
  cases resumed with
  | true =>
    obtain rfl : types = _ := h
    decide
  | false =>
    obtain rfl | rfl : _ ∨ _ := h <;> decide

/-- **The order of the RFC, and when it is kept.** The flight is accepted exactly in it unless a
NewSessionTicket comes in a flight otherwise in order. -/
theorem in_order_iff (hfresh : c₀.certificate = none)
    (h : Client.readServerHello c₀ = some (.ok u, c)) (hparse : TicketsParse (received c.conn))
    (hpass : ContentsPass c) :
    ((∃ c', Client.readServerFlight c = some (.ok (), c')) ↔
      InOrder c.resumed ((received c.conn).map HandshakeMessage.msgType)) ↔
    ¬(InOrder c.resumed ((ticketless (received c.conn)).map HandshakeMessage.msgType) ∧
      HandshakeType.newSessionTicket ∈ (received c.conn).map HandshakeMessage.msgType) := by
  rw [readServerFlight_accepts hfresh h hparse hpass]
  by_cases hticket : HandshakeType.newSessionTicket ∈ (received c.conn).map HandshakeMessage.msgType
  · have hno : ¬InOrder c.resumed ((received c.conn).map HandshakeMessage.msgType) :=
      fun horder => horder.no_ticket hticket
    rw [iff_false_right hno, and_iff_left hticket]
  · have hall : ticketless (received c.conn) = received c.conn :=
      List.filter_eq_self.mpr fun m hm =>
        decide_eq_true fun htype => hticket (htype ▸ List.mem_map_of_mem hm)
    rw [hall]
    exact iff_of_true Iff.rfl fun h => hticket h.2

end

/-! ## A run

A handshake under a PSK, with a NewSessionTicket before the Finished. What the crates give for it is in the
tables `digests` and `hmacs`. -/

namespace Resumed

def word (n : Nat) : Bytes := bigEndian 32 n

def sized (w n : Nat) : Sized w := ⟨bigEndian w n, length_bigEndian w n⟩

def psk : Bytes := List.replicate 32 1

def config : ClientConfig where
  legacyVersion := legacyVersionTls12
  cipherSuites := [tlsAes128GcmSha256]
  groups := [groupX25519]
  shareGroups := [groupX25519]
  signatureAlgorithms := [sigEcdsaSecp256r1Sha256]
  versions := [0x0304]
  sessionId := []
  serverName := none
  alpn := []
  extraExtensions := []
  sendCcs := false
  followHelloRetry := true
  entropy := ⟨List.replicate 32 42, rfl⟩
  psk := some ⟨[1], 0, psk, ⟨tlsAes128GcmSha256, .sha256, .aes128Gcm⟩⟩
  offerEarlyData := false
  corruptPskBinder := false

def clientHello : Bytes :=
  bigEndian 44 0x010000a203033cc65a09181fa407b2f9b10aa4b47d2bf9fe4ddabab02234842729219da673a0000002130101 ++
  bigEndian 44 0x000077002b0003020304000a00040002001d000d000400020403003300260024001d0020deb9d5d8b7accefe ++
  bigEndian 44 0x1fecc358006e3268cc97964bc1dfcc6c198a455d32e69515002d000201010029002c00070001010000000000 ++
  bigEndian 34 0x2120813defedf7905a76e3b3411b245a3c97fa527a0437e4a87aafa403f74ac7c180

def serverHello : Bytes :=
  bigEndian 44 0x0200005c03030909090909090909090909090909090909090909090909090909090909090909001301000034 ++
  bigEndian 44 0x002b0002030400330024001d002013be4feaeaf204c7fd3358fc9c00721881d174278128227ec674f37f7fe9 ++
  bigEndian 8 0x7b6d002900020000

def encryptedExtensions : Bytes := [8, 0, 0, 2, 0, 0]

def newSessionTicket : Bytes := [4, 0, 0, 14, 0, 0, 0, 1, 0, 0, 0, 0, 0, 0, 1, 5, 0, 0]

def serverVerifyData : Bytes := word 0xd6bd839be79830638c6bacce43519310fc9aea051afa22933e59639aa8e3b426

def clientVerifyData : Bytes := word 0x18f1c3a0a79ebe1812c80631607e728b40d9572a6797290d5b269bdf638cfdae

def serverFinished : Bytes := [20, 0, 0, 32] ++ serverVerifyData

def clientFinished : Bytes := [20, 0, 0, 32] ++ clientVerifyData

def hashes : List (Bytes × Nat) :=
  [(clientHello.take 131, 0x613eb7e9385f92016d08a646d923c7616bbc90bcf938f7275f0b1add2abadfe2),
    (clientHello, 0x068b96d4d8801a69b3d229066d1c237e9f4d3d7e589dd67009d10f89a0026908),
    (clientHello ++ serverHello,
      0x2e81ecc8cfa42d3aab06786b9ae8ba281d62fc69f5b288125733a2f6d27f2691),
    (clientHello ++ serverHello ++ encryptedExtensions,
      0x66b348c292bc4e68cb04a3d91dc8a6371f202cfe992bb305dd4e0fa4187ab36f),
    (clientHello ++ serverHello ++ encryptedExtensions ++ serverFinished,
      0x37e9883f836b8474d812b67ef2f959a326cd623ba4e4c5fe1d7ad3984f2e2fa8),
    (clientHello ++ serverHello ++ encryptedExtensions ++ serverFinished ++ clientFinished,
      0x48e2b7852241c4bfd7f7b312ce483d2a541deb93c8807d490f17dbd50d7e9930)]

def emptyHash : Nat := 0xe3b0c44298fc1c149afbf4c8996fb92427ae41e4649b934ca495991b7852b855

def digests : List (Bytes × Nat) :=
  hashes ++
  [(config.entropy.val ++ [0] ++ asBytes "key share",
      0xa8825faff62f06050bdd853af091f9fdea1ff76fcc1edc94a7a0dcc42bcefc2a),
    (config.entropy.val ++ asBytes "random",
      0x3cc65a09181fa407b2f9b10aa4b47d2bf9fe4ddabab02234842729219da673a0),
    ([], emptyHash)]

def sharedSecret : Bytes := word 0x5e914ea31e48b463bd3c3267eefb188a0180640d4c8ef04bd67382f25ff5d720

/-- What HKDF-Expand hashes for a single block. -/
def info (label : String) (context : Bytes) (length : Nat) : Bytes := hkdfLabel label context length ++ [1]

/-- The steps of the key schedule: a key, what is hashed under it, and what that gives. -/
def hmacs : List (Bytes × Bytes × Bytes) :=
  let earlySecret := word 0x80a09de3bfe30da90116e588ade2f812d49b55625be8b4abbff775fa5a5a74e9
  let binderKey := word 0x28b3998b79622c7f4438618176cb354371495e7dd37e18394a79ea7b4ad768b1
  let binderTrafficKey := word 0xda2e473fd49fb553fa1a581914363ac3bf041eda3bc8f2872da564a4a53643ea
  let binderTrafficIv := word 0xef7d77a5362bf25dd969c9f0e87bfff5320d29a6419270a720ebe8749245797d
  let binderFinishedKey := word 0xa931f33e3e01bb088aceedfbc946efc80b61e85a8a998229b1d8c34635ee6f47
  let binder := word 0x813defedf7905a76e3b3411b245a3c97fa527a0437e4a87aafa403f74ac7c180
  let derivedSecret := word 0x9bb578ea134280bbf976e22dd52e9bbe5f177db72c202b8e2a2166f84acd8ecb
  let handshakeSecret := word 0xb32348e5437befea531110eec5c171035e1e688b9137a892b715c627a5ab5074
  let clientHandshakeSecret := word 0x2b5c0a804ba8d345a930d4ed8b046805e946a3b4df27224e02c5f95f9cb38ff1
  let serverHandshakeSecret := word 0x1be0436e538e50acbb17a647b1fe91b3e3d773f466b2e68b73aa0db9207ee06e
  let clientHandshakeKey := word 0xba741203e7ba96abc23340017d34a12ce964259c80a8fa06a242080e2ec13ff2
  let clientHandshakeIv := word 0x8c73ae4df75f77c7043a5f3655fc89bf37d7271443d1aa9a6ef08b33756cc5ab
  let serverHandshakeKey := word 0x95451438400a10aae70e54659c6d74eb454ed5f34a9ca3f73638ddd495b867a3
  let serverHandshakeIv := word 0x14734e9f7b5d1ee7330affdd07397ad665ec59943365614dc29cdcc110da0e7d
  let derivedSecret₂ := word 0xa64a2430408e159f843023616f25c4ecf9ec1e67321497ac739eb6a1d824ad4e
  let masterSecret := word 0x74d25cbf190f0031b916f40f5389155d8003f438a1128e9e753106dbc9d33699
  let serverFinishedKey := word 0xc71b3f77d23897501a8da74ea9d0e034b23e88178a37f3964511c2b3594f17e5
  let clientApplicationSecret := word 0xdce2dd20f862300235094b6d88dd65fb675329a48a3c926374898bf8a4a2a7f1
  let serverApplicationSecret := word 0x8bfffb9fdd2557bcf428a627d58f19fc92ac35c3f6a71a85f307a8b4291fc8f3
  let exporterMaster := word 0x4153a8150dd2506881c75426ce3af8fda8d749c717ce3a91f616cabafac5a205
  let clientApplicationKey := word 0x43f62f5f5c2cb122a33c439b3a32ea8fe0a8dc20b91f4091596b6f9a5d82878b
  let clientApplicationIv := word 0xbe72e583ea419500592880c5954c8b1639d9b8ffec3e839a2376134088fbd64a
  let serverApplicationKey := word 0xd708f36ff370cc3fc292dafde38e8aa93e5f5a7fc04d26b83044ac4e937ba226
  let serverApplicationIv := word 0xa5a026e28cd14ee15abd6b98636f2b35f7d19b5dd66f2fa602215c43111150af
  let clientFinishedKey := word 0x45323f550296aa27759f44f8f643779de21ef6da59c2540dec92e53e22a1aa20
  let resumptionMaster := word 0x2e49dbfd6c4aa341183d6665eb71a3706ab2e874e246baa895224830e1972742
  let zeros := List.replicate 32 0
  let hash := fun (i : Nat) => word (hashes.getD i ([], 0)).2
  [(zeros, psk, earlySecret),
    (earlySecret, info "res binder" (word emptyHash) 32, binderKey),
    (binderFinishedKey, hash 0, binder),
    (earlySecret, info "derived" (word emptyHash) 32, derivedSecret),
    (derivedSecret, sharedSecret, handshakeSecret),
    (handshakeSecret, info "c hs traffic" (hash 2) 32, clientHandshakeSecret),
    (handshakeSecret, info "s hs traffic" (hash 2) 32, serverHandshakeSecret),
    (handshakeSecret, info "derived" (word emptyHash) 32, derivedSecret₂),
    (derivedSecret₂, zeros, masterSecret),
    (serverFinishedKey, hash 3, serverVerifyData),
    (masterSecret, info "c ap traffic" (hash 4) 32, clientApplicationSecret),
    (masterSecret, info "s ap traffic" (hash 4) 32, serverApplicationSecret),
    (masterSecret, info "exp master" (hash 4) 32, exporterMaster),
    (clientFinishedKey, hash 4, clientVerifyData),
    (masterSecret, info "res master" (hash 5) 32, resumptionMaster)] ++
  [(binderKey, binderTrafficKey, binderTrafficIv, binderFinishedKey),
    (clientHandshakeSecret, clientHandshakeKey, clientHandshakeIv, clientFinishedKey),
    (serverHandshakeSecret, serverHandshakeKey, serverHandshakeIv, serverFinishedKey),
    (clientApplicationSecret, clientApplicationKey, clientApplicationIv, []),
    (serverApplicationSecret, serverApplicationKey, serverApplicationIv, [])].flatMap fun k =>
      [(k.1, info "key" [] 16, k.2.1), (k.1, info "iv" [] 12, k.2.2.1),
        (k.1, info "finished" [] 32, k.2.2.2)]

/-- The server's encrypted flight, one record of it, and the client's Finished. -/
def sealedFlight : Bytes :=
  bigEndian 44 0x20efa36fde7898ce18cef1428fe991be14e0dc8e39968c1de9dd1e03ae2f638b254f7dee06d66e7571373d44 ++
  bigEndian 33 0x83f7452acc753c338c3de9cbd9bcc2879694ec215ae18b574d0a8c5ff59713cd7a

def sealedFinished : Bytes :=
  bigEndian 44 0xad91b82a16eecee9d3fe36a02d97a9a54061783fff7985288ceaea9cf69d7f336f87c93579c05b099648ecc2 ++
  bigEndian 9 0xe6ef3531cc659d530e

@[reducible] def crates : Crates where
  sha256 data := sized 32 ((digests.find? fun e => e.1 = data).elim 0 Prod.snd)
  sha384 _ := sized 48 0
  hmacSha256 key data := sized 32 <|
    (hmacs.find? fun e => e.1 = key ∧ e.2.1 = data).elim 0 fun e => ofBigEndian e.2.2
  hmacSha384 _ _ := sized 48 0
  encrypt _ key nonce aad msg :=
    if h : (key = bigEndian 16 0xba741203e7ba96abc23340017d34a12c ∧
        nonce = bigEndian 12 0x8c73ae4df75f77c7043a5f36 ∧ aad = [23, 3, 3, 0, 53]) ∧
        msg = clientFinished ++ [22] then
      some ⟨sealedFinished, by rw [h.2]; rfl⟩
    else none
  decrypt _ key nonce aad msg :=
    if h : (key = bigEndian 16 0x95451438400a10aae70e54659c6d74eb ∧
        nonce = bigEndian 12 0x14734e9f7b5d1ee7330affdd ∧ aad = [23, 3, 3, 0, 77]) ∧
        msg = sealedFlight then
      some ⟨encryptedExtensions ++ newSessionTicket ++ serverFinished ++ [22], by rw [h.2]; rfl⟩
    else none

@[reducible] def curves : Curves where
  x25519Public _ := sized 32 0xdeb9d5d8b7accefe1fecc358006e3268cc97964bc1dfcc6c198a455d32e69515
  x25519Shared _ _ := ⟨sharedSecret, rfl⟩
  p256Scalar _ := false
  p256Public _ := []
  p256Point _ := .error ""
  p256Key _ := .error ""
  p256Shared _ _ := sized 32 0

@[reducible] def signatures : Signatures where
  certificate _ := .error ""
  rsaPkcs1 _ := .error ""
  rsaSpki _ := .error ""
  p256Sec1 _ := .error ""
  ed25519Key _ := .error ""
  pssSignature _ := .error ""
  pssVerify _ _ _ _ := .error ""
  pkcs1Signature _ := .error ""
  pkcs1Verify _ _ _ := .error ""
  ecdsaSignature _ := .error ""
  ecdsaVerify _ _ _ := .error ""
  ed25519Verify _ _ _ := .error ""
  p256Pem _ := .error ""
  p256Sign _ _ := []

/-- A client whose server sends its ServerHello and its flight in one piece. -/
def client : Client :=
  .over (.new [.ok ([22, 3, 3, 0, 96] ++ serverHello ++ [23, 3, 3, 0, 77] ++ sealedFlight)] []) config

end Resumed

namespace Resumed

/-- The first flight. -/
def greet : Action Client TlsError Unit := do
  @Client.sendClientHello crates curves
  Client.maybeSendCcs

def ticketsParse (ms : List HandshakeMessage) : Bool :=
  ms.all fun m => m.msgType ≠ .newSessionTicket || (NewSessionTicket.parse m.body).toOption.isSome

theorem ticketsParse_sound {ms : List HandshakeMessage} (h : ticketsParse ms = true) : TicketsParse ms := by
  intro m hm htype
  have hparse := List.all_eq_true.mp h m hm
  cases hp : NewSessionTicket.parse m.body with
  | ok ticket => exact ⟨ticket, rfl⟩
  | error e =>
    rw [htype, hp] at hparse
    cases hparse

theorem flight_run : ∃ c₀ c c', greet client = some (.ok (), c₀) ∧ c₀.certificate = none ∧
    @Client.readServerHello crates curves c₀ = some (.ok (), c) ∧
    TicketsParse (@received crates c.conn) ∧
    (@received crates c.conn).map HandshakeMessage.msgType =
      [.encryptedExtensions, .newSessionTicket, .finished] ∧
    c.resumed = true ∧ @Client.readServerFlight crates signatures c = some (.ok (), c') := by
  have hrun : Action.finishes greet (fun c₀ =>
      c₀.certificate.isNone && Action.finishes (@Client.readServerHello crates curves) (fun c =>
        ticketsParse (@received crates c.conn) &&
        (decide ((@received crates c.conn).map HandshakeMessage.msgType =
          [.encryptedExtensions, .newSessionTicket, .finished]) &&
        (c.resumed && Action.finishes (@Client.readServerFlight crates signatures) (fun _ => true) c)))
        c₀) client = true := by
    decide +kernel
  obtain ⟨_, c₀, hgreet, hrun⟩ := finishes_iff.mp hrun
  obtain ⟨hfresh, hrun⟩ := Bool.and_eq_true_iff.mp hrun
  obtain ⟨_, c, hhello, hrun⟩ := finishes_iff.mp hrun
  obtain ⟨hparse, hrun⟩ := Bool.and_eq_true_iff.mp hrun
  obtain ⟨htypes, hrun⟩ := Bool.and_eq_true_iff.mp hrun
  obtain ⟨hresumed, hrun⟩ := Bool.and_eq_true_iff.mp hrun
  obtain ⟨_, c', hflight, -⟩ := finishes_iff.mp hrun
  exact ⟨c₀, c, c', hgreet, Option.isNone_iff_eq_none.mp hfresh, hhello, ticketsParse_sound hparse,
    of_decide_eq_true htypes, hresumed, hflight⟩

end Resumed

/-- **A ticket before the Finished is not refused.** -/
theorem ticket_accepted : ∃ c₀ c, Resumed.greet Resumed.client = some (.ok (), c₀) ∧
    @Client.readServerHello Resumed.crates Resumed.curves c₀ = some (.ok (), c) ∧
    TicketsParse (@received Resumed.crates c.conn) ∧
    @ContentsPass Resumed.crates Resumed.signatures c ∧
    ¬((∃ c', @Client.readServerFlight Resumed.crates Resumed.signatures c = some (.ok (), c')) ↔
      InOrder c.resumed ((@received Resumed.crates c.conn).map HandshakeMessage.msgType)) := by
  obtain ⟨c₀, c, c', hgreet, hfresh, hhello, hparse, htypes, hresumed, hflight⟩ := Resumed.flight_run
  refine ⟨c₀, c, hgreet, hhello, hparse,
    @contentsPass_of_flight Resumed.crates _ _ _ Resumed.signatures Resumed.curves _ hfresh hhello hparse
      hflight, fun h => ?_⟩
  have horder := h.mp ⟨c', hflight⟩
  rw [htypes, hresumed] at horder
  simp [InOrder] at horder

theorem in_order_iff_ticket : ∃ c₀ c, Resumed.greet Resumed.client = some (.ok (), c₀) ∧
    @Client.readServerHello Resumed.crates Resumed.curves c₀ = some (.ok (), c) ∧
    (((∃ c', @Client.readServerFlight Resumed.crates Resumed.signatures c = some (.ok (), c')) ↔
      InOrder c.resumed ((@received Resumed.crates c.conn).map HandshakeMessage.msgType)) ↔
    ¬(InOrder c.resumed
        ((ticketless (@received Resumed.crates c.conn)).map HandshakeMessage.msgType) ∧
      HandshakeType.newSessionTicket ∈
        (@received Resumed.crates c.conn).map HandshakeMessage.msgType)) := by
  obtain ⟨c₀, c, c', hgreet, hfresh, hhello, hparse, -, -, hflight⟩ := Resumed.flight_run
  exact ⟨c₀, c, hgreet, hhello,
    @in_order_iff Resumed.crates _ _ Resumed.signatures Resumed.curves _ hfresh hhello hparse
      (@contentsPass_of_flight Resumed.crates _ _ _ Resumed.signatures Resumed.curves _ hfresh hhello
        hparse hflight)⟩

end BuildYourOwn.Tls
