import BuildYourOwn.Lib.Encoding
import BuildYourOwn.Lib.Utf8

/-!
# TLS: type bytes, code points, errors

Model of `tlstest/src/tls/mod.rs`: `ContentType`, `HandshakeType`, the alert bytes, the code points with
the names the error texts print, and `TlsError`.
-/

namespace BuildYourOwn.Tls

open Lib

abbrev Bytes := List UInt8

/-- A byte string of a fixed length, a Rust array. -/
abbrev Sized (n : Nat) := {b : Bytes // b.length = n}

/-- `u16::to_be_bytes`. -/
def u16Bytes (v : UInt16) : Bytes := bigEndian 2 v.toNat

@[simp] theorem length_u16Bytes (v : UInt16) : (u16Bytes v).length = 2 := length_bigEndian 2 _

theorem ofBigEndian_u16Bytes (v : UInt16) : ofBigEndian (u16Bytes v) = v.toNat := by
  unfold u16Bytes
  rw [ofBigEndian_bigEndian]
  exact Nat.mod_eq_of_lt (show v.toNat < 256 ^ 2 from v.toNat_lt)

/-- `{:0w$x}`: at least `w` hexadecimal digits. -/
def hexDigits (w n : Nat) : String := String.ofList (List.leftpad w '0' (Nat.toDigits 16 n))

def hex (bytes : Bytes) : String := bytes.foldl (fun s b => s ++ hexDigits 2 b.toNat) ""

/-! ## Record and handshake types -/

inductive ContentType where
  | changeCipherSpec
  | alert
  | handshake
  | applicationData
  | other (b : UInt8)
deriving DecidableEq

def ContentType.asU8 : ContentType → UInt8
  | .changeCipherSpec => 20
  | .alert => 21
  | .handshake => 22
  | .applicationData => 23
  | .other b => b

def ContentType.fromU8 (b : UInt8) : ContentType :=
  if b = 20 then .changeCipherSpec
  else if b = 21 then .alert
  else if b = 22 then .handshake
  else if b = 23 then .applicationData
  else .other b

def ContentType.name : ContentType → String
  | .changeCipherSpec => "change_cipher_spec(20)"
  | .alert => "alert(21)"
  | .handshake => "handshake(22)"
  | .applicationData => "application_data(23)"
  | .other b => s!"unknown({b})"

theorem asU8_fromU8 (b : UInt8) : (ContentType.fromU8 b).asU8 = b := by
  unfold ContentType.fromU8
  split
  · rename_i h
    exact h.symm
  · split
    · rename_i h
      exact h.symm
    · split
      · rename_i h
        exact h.symm
      · split
        · rename_i h
          exact h.symm
        · rfl

/-- `HandshakeType(pub u8)`. -/
structure HandshakeType where
  code : UInt8
deriving DecidableEq

namespace HandshakeType

@[match_pattern] def clientHello : HandshakeType := ⟨1⟩
@[match_pattern] def serverHello : HandshakeType := ⟨2⟩
@[match_pattern] def newSessionTicket : HandshakeType := ⟨4⟩
@[match_pattern] def encryptedExtensions : HandshakeType := ⟨8⟩
@[match_pattern] def certificate : HandshakeType := ⟨11⟩
@[match_pattern] def certificateRequest : HandshakeType := ⟨13⟩
@[match_pattern] def certificateVerify : HandshakeType := ⟨15⟩
@[match_pattern] def finished : HandshakeType := ⟨20⟩
@[match_pattern] def keyUpdate : HandshakeType := ⟨24⟩

def name (t : HandshakeType) : String :=
  match t.code with
  | 0 => "hello_request_RESERVED(0)"
  | 1 => "client_hello(1)"
  | 2 => "server_hello(2)"
  | 4 => "new_session_ticket(4)"
  | 5 => "end_of_early_data(5)"
  | 8 => "encrypted_extensions(8)"
  | 11 => "certificate(11)"
  | 13 => "certificate_request(13)"
  | 15 => "certificate_verify(15)"
  | 20 => "finished(20)"
  | 24 => "key_update(24)"
  | 254 => "message_hash(254)"
  | b => s!"unknown({b})"

end HandshakeType

/-! ## Alerts and errors -/

inductive AlertLevel where
  | warning
  | fatal
  | other (b : UInt8)
deriving DecidableEq

def AlertLevel.fromU8 (b : UInt8) : AlertLevel :=
  if b = 1 then .warning else if b = 2 then .fatal else .other b

/-- `AlertDescription(pub u8)`. -/
structure AlertDescription where
  code : UInt8
deriving DecidableEq

inductive TlsError where
  | closed
  | timeout (what : String)
  | io (text : String)
  | record (text : String)
  | decode (text : String)
  | crypto (text : String)
  | alert (level : AlertLevel) (description : AlertDescription)
  | protocol (text : String)
deriving DecidableEq

/-! ## Code points -/

def tlsAes128GcmSha256 : UInt16 := 0x1301
def tlsAes256GcmSha384 : UInt16 := 0x1302
def tlsChacha20Poly1305Sha256 : UInt16 := 0x1303

def groupX25519 : UInt16 := 0x001d
def groupSecp256r1 : UInt16 := 0x0017

def sigRsaPkcs1Sha256 : UInt16 := 0x0401
def sigEcdsaSecp256r1Sha256 : UInt16 := 0x0403

def extServerName : UInt16 := 0
def extSupportedGroups : UInt16 := 10
def extSignatureAlgorithms : UInt16 := 13
def extAlpn : UInt16 := 16
def extPreSharedKey : UInt16 := 41
def extEarlyData : UInt16 := 42
def extSupportedVersions : UInt16 := 43
def extCookie : UInt16 := 44
def extPskKeyExchangeModes : UInt16 := 45
def extKeyShare : UInt16 := 51

def legacyVersionTls12 : UInt16 := 0x0303

def maxPlaintext : Nat := 16384
def maxCiphertext : Nat := 16384 + 256

def isGrease (value : UInt16) : Bool :=
  value &&& 0x0f0f == 0x0a0a && value >>> 12 == (value >>> 4) &&& 0x0f

def suiteName (suite : UInt16) : String :=
  if suite = tlsAes128GcmSha256 then "TLS_AES_128_GCM_SHA256(0x1301)"
  else if suite = tlsAes256GcmSha384 then "TLS_AES_256_GCM_SHA384(0x1302)"
  else if suite = tlsChacha20Poly1305Sha256 then "TLS_CHACHA20_POLY1305_SHA256(0x1303)"
  else if suite = 0x1304 then "TLS_AES_128_CCM_SHA256(0x1304)"
  else if suite = 0x1305 then "TLS_AES_128_CCM_8_SHA256(0x1305)"
  else s!"unknown(0x{hexDigits 4 suite.toNat})"

def groupName (group : UInt16) : String :=
  if group = groupSecp256r1 then "secp256r1(0x0017)"
  else if group = 0x0018 then "secp384r1(0x0018)"
  else if group = 0x0019 then "secp521r1(0x0019)"
  else if group = groupX25519 then "x25519(0x001d)"
  else if group = 0x001e then "x448(0x001e)"
  else if group = 0x0100 then "ffdhe2048(0x0100)"
  else if group = 0x11ec then "X25519MLKEM768(0x11ec)"
  else if isGrease group then s!"GREASE(0x{hexDigits 4 group.toNat})"
  else s!"unknown(0x{hexDigits 4 group.toNat})"

def sigName (scheme : UInt16) : String :=
  if scheme = 0x0201 then "rsa_pkcs1_sha1(0x0201)"
  else if scheme = sigRsaPkcs1Sha256 then "rsa_pkcs1_sha256(0x0401)"
  else if scheme = 0x0501 then "rsa_pkcs1_sha384(0x0501)"
  else if scheme = 0x0601 then "rsa_pkcs1_sha512(0x0601)"
  else if scheme = sigEcdsaSecp256r1Sha256 then "ecdsa_secp256r1_sha256(0x0403)"
  else if scheme = 0x0503 then "ecdsa_secp384r1_sha384(0x0503)"
  else if scheme = 0x0603 then "ecdsa_secp521r1_sha512(0x0603)"
  else if scheme = 0x0804 then "rsa_pss_rsae_sha256(0x0804)"
  else if scheme = 0x0805 then "rsa_pss_rsae_sha384(0x0805)"
  else if scheme = 0x0806 then "rsa_pss_rsae_sha512(0x0806)"
  else if scheme = 0x0807 then "ed25519(0x0807)"
  else if scheme = 0x0809 then "rsa_pss_pss_sha256(0x0809)"
  else if isGrease scheme then s!"GREASE(0x{hexDigits 4 scheme.toNat})"
  else s!"unknown(0x{hexDigits 4 scheme.toNat})"

end BuildYourOwn.Tls
