import BuildYourOwn.Lib.Action
import BuildYourOwn.Tls.Codes

/-!
# TLS: hashes, HKDF, AEADs, traffic keys, the transcript and the key schedule

Model of `tlstest/src/tls/crypto.rs`.

* `Crates` is what it calls outside the repository: the digests and HMACs of `sha2` and `hmac`, and the
  AEADs of `aes-gcm` and `chacha20poly1305`. The lengths these document are in the types: a digest has the
  length of its hash, and a ciphertext is its plaintext with a tag of 16 bytes.
* A call that panics is `none`: an index past the end of an IV, or a nonce that is not 12 bytes.
* The labels of a checkpoint and of a key-schedule step are printed and never read back; the hashes that
  stand with them are left out too.
-/

namespace BuildYourOwn.Tls

open Lib

inductive HashAlg where
  | sha256
  | sha384
deriving DecidableEq

inductive AeadAlg where
  | aes128Gcm
  | aes256Gcm
  | chaCha20Poly1305
deriving DecidableEq

class Crates where
  sha256 : Bytes → Sized 32
  sha384 : Bytes → Sized 48
  hmacSha256 (key data : Bytes) : Sized 32
  hmacSha384 (key data : Bytes) : Sized 48
  encrypt (alg : AeadAlg) (key nonce aad msg : Bytes) : Option (Sized (msg.length + 16))
  decrypt (alg : AeadAlg) (key nonce aad msg : Bytes) : Option {p : Bytes // p.length + 16 = msg.length}

namespace HashAlg

def len : HashAlg → Nat
  | sha256 => 32
  | sha384 => 48

variable [Crates]

def digest (data : Bytes) : HashAlg → Bytes
  | sha256 => (Crates.sha256 data).val
  | sha384 => (Crates.sha384 data).val

def hmac (key data : Bytes) : HashAlg → Bytes
  | sha256 => (Crates.hmacSha256 key data).val
  | sha384 => (Crates.hmacSha384 key data).val

def emptyHash (alg : HashAlg) : Bytes := alg.digest []

omit [Crates] in
def zeros (alg : HashAlg) : Bytes := List.replicate alg.len 0

end HashAlg

/-! ## HKDF -/

section variable [Crates]

def hkdfExtract (alg : HashAlg) (salt ikm : Bytes) : Bytes := alg.hmac salt ikm

/-- The loop of `hkdf_expand`: the blocks from `counter` on, `n` of them. -/
def hkdfBlocks (alg : HashAlg) (prk info previous : Bytes) (counter : Nat) : Nat → Bytes
  | 0 => []
  | n + 1 =>
    let previous := alg.hmac prk (previous ++ info ++ [UInt8.ofNat counter])
    previous ++ hkdfBlocks alg prk info previous (counter + 1) n

def hkdfExpand (alg : HashAlg) (prk info : Bytes) (length : Nat) : Except TlsError Bytes :=
  let n := (length + alg.len - 1) / alg.len
  if 255 < n then
    .error (.crypto s!"HKDF-Expand asked for {length} bytes, more than 255 * {alg.len}")
  else .ok ((hkdfBlocks alg prk info [] 1 n).take length)

omit [Crates] in
/-- `HkdfLabel`, its lengths cut to their two and one bytes. -/
def hkdfLabel (label : String) (context : Bytes) (length : Nat) : Bytes :=
  let full := asBytes "tls13 " ++ asBytes label
  bigEndian 2 length ++ UInt8.ofNat full.length :: full ++ UInt8.ofNat context.length :: context

def hkdfExpandLabel (alg : HashAlg) (secret : Bytes) (label : String) (context : Bytes)
    (length : Nat) : Except TlsError Bytes :=
  hkdfExpand alg secret (hkdfLabel label context length) length

def deriveSecret (alg : HashAlg) (secret : Bytes) (label : String) (transcriptHash : Bytes) :
    Except TlsError Bytes :=
  hkdfExpandLabel alg secret label transcriptHash alg.len

end

/-! ## AEAD -/

namespace AeadAlg

def keyLen : AeadAlg → Nat
  | aes128Gcm => 16
  | aes256Gcm => 32
  | chaCha20Poly1305 => 32

def ivLen (_ : AeadAlg) : Nat := 12

def tagLen (_ : AeadAlg) : Nat := 16

def name : AeadAlg → String
  | aes128Gcm => "AES-128-GCM"
  | aes256Gcm => "AES-256-GCM"
  | chaCha20Poly1305 => "ChaCha20-Poly1305"

end AeadAlg

section variable [Crates]

/-- What `new_from_slice` says of a key, and `nonce.into()` of a nonce: a call that is not stopped by
either goes on to `x`. -/
def AeadAlg.keyed {α : Type} (alg : AeadAlg) (key nonce : Bytes) (x : Except TlsError α) :
    Option (Except TlsError α) :=
  if key.length ≠ alg.keyLen then
    some (.error (.crypto s!"{alg.name} needs a {alg.keyLen}-byte key"))
  else if nonce.length ≠ 12 then none
  else some x

/-- `AeadAlg::seal`; `none` is a panic. -/
def AeadAlg.seal (alg : AeadAlg) (key nonce aad plaintext : Bytes) : Option (Except TlsError Bytes) :=
  alg.keyed key nonce
    (match Crates.encrypt alg key nonce aad plaintext with
    | some out => .ok out.val
    | none => .error (.crypto s!"{alg.name} sealing failed"))

/-- `AeadAlg::open`; `none` is a panic. -/
def AeadAlg.open (alg : AeadAlg) (key nonce aad ciphertext : Bytes) : Option (Except TlsError Bytes) :=
  alg.keyed key nonce
    (match Crates.decrypt alg key nonce aad ciphertext with
    | some out => .ok out.val
    | none => .error (.crypto s!"{alg.name} could not authenticate the record (bad tag)"))

end


/-! ## Suites and traffic keys -/

structure Suite where
  code : UInt16
  hash : HashAlg
  aead : AeadAlg
deriving DecidableEq

def Suite.fromCode (code : UInt16) : Option Suite :=
  if code = tlsAes128GcmSha256 then some ⟨code, .sha256, .aes128Gcm⟩
  else if code = tlsAes256GcmSha384 then some ⟨code, .sha384, .aes256Gcm⟩
  else if code = tlsChacha20Poly1305Sha256 then some ⟨code, .sha256, .chaCha20Poly1305⟩
  else none

structure TrafficKeys where
  secret : Bytes
  key : Bytes
  iv : Bytes
  aead : AeadAlg
  hash : HashAlg
deriving DecidableEq

/-- `TrafficKeys::nonce`: the sequence number XORed into the last eight bytes of the IV. -/
def TrafficKeys.nonce (keys : TrafficKeys) (sequence : UInt64) : Option Bytes :=
  let start := keys.iv.length - 8
  if keys.iv.length < 8 then none
  else some (keys.iv.take start ++
    List.zipWith (· ^^^ ·) (keys.iv.drop start) (bigEndian 8 sequence.toNat))

section variable [Crates]

def TrafficKeys.derive (suite : Suite) (secret : Bytes) : Except TlsError TrafficKeys := do
  let key ← hkdfExpandLabel suite.hash secret "key" [] suite.aead.keyLen
  let iv ← hkdfExpandLabel suite.hash secret "iv" [] suite.aead.ivLen
  pure ⟨secret, key, iv, suite.aead, suite.hash⟩

def TrafficKeys.finishedKey (keys : TrafficKeys) : Except TlsError Bytes :=
  hkdfExpandLabel keys.hash keys.secret "finished" [] keys.hash.len

/-- `TrafficKeys::updated`: the next generation. -/
def TrafficKeys.updated (keys : TrafficKeys) : Except TlsError TrafficKeys := do
  let next ← hkdfExpandLabel keys.hash keys.secret "traffic upd" [] keys.hash.len
  TrafficKeys.derive ⟨0, keys.hash, keys.aead⟩ next

end

/-! ## The transcript -/

/-- `Transcript`: the handshake messages so far, and the hash they are taken under. -/
structure Transcript where
  hash : HashAlg
  bytes : Bytes
deriving DecidableEq

namespace Transcript

def new (hash : HashAlg) : Transcript := ⟨hash, []⟩

def rehash (t : Transcript) (hash : HashAlg) : Transcript := { t with hash := hash }

def hashAlg (t : Transcript) : HashAlg := t.hash

def push (t : Transcript) (message : Bytes) : Transcript := { t with bytes := t.bytes ++ message }

def raw (t : Transcript) : Bytes := t.bytes

variable [Crates]

def current (t : Transcript) : Bytes := t.hash.digest t.bytes

def replaceWithMessageHash (t : Transcript) : Transcript :=
  { t with bytes := [254, 0, 0, UInt8.ofNat t.hash.len] ++ t.hash.digest t.bytes }

end Transcript

/-! ## The key schedule -/

structure KeySchedule where
  suite : Suite
  earlySecret : Bytes
  handshakeSecret : Bytes
  masterSecret : Bytes
  clientHandshake : Option TrafficKeys
  serverHandshake : Option TrafficKeys
  clientApplication : Option TrafficKeys
  serverApplication : Option TrafficKeys
  resumptionMaster : Option Bytes
  exporterMaster : Option Bytes
  binderKey : Option Bytes

namespace KeySchedule

variable [Crates]

def new (suite : Suite) (psk : Option Bytes) : KeySchedule :=
  let ikm := psk.getD suite.hash.zeros
  ⟨suite, hkdfExtract suite.hash suite.hash.zeros ikm, [], [], none, none, none, none, none, none, none⟩

def deriveBinderKey : Action KeySchedule TlsError Bytes := do
  let k ← Action.get
  let key ← Action.lift (deriveSecret k.suite.hash k.earlySecret "res binder" k.suite.hash.emptyHash)
  Action.modify fun k => { k with binderKey := some key }
  pure key

def enterHandshake (sharedSecret transcriptHash : Bytes) : Action KeySchedule TlsError Unit := do
  let k ← Action.get
  let hash := k.suite.hash
  let derived ← Action.lift (deriveSecret hash k.earlySecret "derived" hash.emptyHash)
  let handshakeSecret := hkdfExtract hash derived sharedSecret
  Action.modify fun k => { k with handshakeSecret := handshakeSecret }
  let c ← Action.lift (deriveSecret hash handshakeSecret "c hs traffic" transcriptHash)
  let s ← Action.lift (deriveSecret hash handshakeSecret "s hs traffic" transcriptHash)
  let client ← Action.lift (TrafficKeys.derive k.suite c)
  Action.modify fun k => { k with clientHandshake := some client }
  let server ← Action.lift (TrafficKeys.derive k.suite s)
  Action.modify fun k => { k with serverHandshake := some server }
  let derived₂ ← Action.lift (deriveSecret hash handshakeSecret "derived" hash.emptyHash)
  Action.modify fun k => { k with masterSecret := hkdfExtract hash derived₂ hash.zeros }

def enterApplication (transcriptHash : Bytes) : Action KeySchedule TlsError Unit := do
  let k ← Action.get
  let hash := k.suite.hash
  let c ← Action.lift (deriveSecret hash k.masterSecret "c ap traffic" transcriptHash)
  let s ← Action.lift (deriveSecret hash k.masterSecret "s ap traffic" transcriptHash)
  let e ← Action.lift (deriveSecret hash k.masterSecret "exp master" transcriptHash)
  let client ← Action.lift (TrafficKeys.derive k.suite c)
  Action.modify fun k => { k with clientApplication := some client }
  let server ← Action.lift (TrafficKeys.derive k.suite s)
  Action.modify fun k => { k with serverApplication := some server }
  Action.modify fun k => { k with exporterMaster := some e }

def deriveResumptionMaster (transcriptHash : Bytes) : Action KeySchedule TlsError Bytes := do
  let k ← Action.get
  let r ← Action.lift (deriveSecret k.suite.hash k.masterSecret "res master" transcriptHash)
  Action.modify fun k => { k with resumptionMaster := some r }
  pure r

def verifyData (k : KeySchedule) (keys : TrafficKeys) (transcriptHash : Bytes) :
    Except TlsError Bytes := do
  let fk ← keys.finishedKey
  pure (k.suite.hash.hmac fk transcriptHash)

end KeySchedule

end BuildYourOwn.Tls
