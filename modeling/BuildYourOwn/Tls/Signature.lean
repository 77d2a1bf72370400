import BuildYourOwn.Tls.Crypto

/-!
# TLS: certificates and signatures

Model of `tlstest/src/tls/sig.rs`. `Signatures` is what it calls in `x509-parser`, `rsa`, `p256` and
`ed25519-dalek`; a key is the bytes it is read from, and an error is what it prints.
-/

namespace BuildYourOwn.Tls

open Lib

def sigRsaPssRsaeSha256 : UInt16 := 0x0804
def sigRsaPssRsaeSha384 : UInt16 := 0x0805
def sigRsaPssRsaeSha512 : UInt16 := 0x0806
def sigEd25519 : UInt16 := 0x0807

def serverCvContext : String := "TLS 1.3, server CertificateVerify"
def clientCvContext : String := "TLS 1.3, client CertificateVerify"

inductive PssDigest where
  | sha256
  | sha384
  | sha512
deriving DecidableEq

structure SubjectKey where
  oid : String
  bits : Bytes
  spki : Bytes

class Signatures where
  /-- `X509Certificate::from_der` and `public_key`. -/
  certificate (der : Bytes) : Except String SubjectKey
  /-- `RsaPublicKey::from_pkcs1_der`. -/
  rsaPkcs1 (bytes : Bytes) : Except String Bytes
  /-- `RsaPublicKey::from_public_key_der`. -/
  rsaSpki (bytes : Bytes) : Except String Bytes
  /-- `p256::ecdsa::VerifyingKey::from_sec1_bytes`. -/
  p256Sec1 (bytes : Bytes) : Except String Bytes
  /-- `ed25519_dalek::VerifyingKey::from_bytes`. -/
  ed25519Key (bytes : Sized 32) : Except String Bytes
  /-- `rsa::pss::Signature::try_from`, then `verify`. -/
  pssSignature (bytes : Bytes) : Except String Bytes
  pssVerify (digest : PssDigest) (key content signature : Bytes) : Except String Unit
  /-- `rsa::pkcs1v15::Signature::try_from`, then `verify`. -/
  pkcs1Signature (bytes : Bytes) : Except String Bytes
  pkcs1Verify (key content signature : Bytes) : Except String Unit
  /-- `p256::ecdsa::DerSignature::try_from`, then `verify`. -/
  ecdsaSignature (bytes : Bytes) : Except String Bytes
  ecdsaVerify (key content signature : Bytes) : Except String Unit
  ed25519Verify (key content : Bytes) (signature : Sized 64) : Except String Unit
  /-- `SigningKey::from_pkcs8_pem`, then `sign` and `to_der`. -/
  p256Pem (pem : String) : Except String Bytes
  p256Sign (key content : Bytes) : Bytes

def signedContent (context : String) (transcriptHash : Bytes) : Bytes :=
  List.replicate 64 0x20 ++ asBytes context ++ 0 :: transcriptHash

def serverSignedContent (transcriptHash : Bytes) : Bytes := signedContent serverCvContext transcriptHash

def clientSignedContent (transcriptHash : Bytes) : Bytes := signedContent clientCvContext transcriptHash

def signPem [Signatures] (pem : String) (scheme : UInt16) (content : Bytes) : Except TlsError Bytes :=
  if scheme = sigEcdsaSecp256r1Sha256 then
    match Signatures.p256Pem pem with
    | .error e => .error (.crypto s!"cannot read the P-256 client key: {e}")
    | .ok key => .ok (Signatures.p256Sign key content)
  else .error (.crypto s!"the suite cannot sign with scheme 0x{hexDigits 4 scheme.toNat}")

inductive PublicKey where
  | rsa (key : Bytes)
  | ecdsaP256 (key : Bytes)
  | ed25519 (key : Bytes)
deriving DecidableEq

namespace PublicKey

def algorithm : PublicKey → String
  | rsa _ => "RSA"
  | ecdsaP256 _ => "ECDSA P-256"
  | ed25519 _ => "Ed25519"

def fromCertificate [Signatures] (der : Bytes) : Except TlsError PublicKey :=
  match Signatures.certificate der with
  | .error e => .error (.decode s!"certificate[0].cert_data is not X.509: {e}")
  | .ok key =>
    if key.oid = "1.2.840.113549.1.1.1" then
      match (Signatures.rsaPkcs1 key.bits).tryCatch fun _ => Signatures.rsaSpki key.spki with
      | .error e => .error (.decode s!"the RSA public key does not parse: {e}")
      | .ok k => .ok (rsa k)
    else if key.oid = "1.2.840.10045.2.1" then
      match Signatures.p256Sec1 key.bits with
      | .error e =>
        .error (.decode ("the EC public key is not a secp256r1 point (this client only implements " ++
          s!"P-256): {e}"))
      | .ok k => .ok (ecdsaP256 k)
    else if key.oid = "1.3.101.112" then
      if h : key.bits.length = 32 then
        match Signatures.ed25519Key ⟨key.bits, h⟩ with
        | .error e => .error (.decode s!"the Ed25519 public key: {e}")
        | .ok k => .ok (ed25519 k)
      else
        .error (.decode s!"an Ed25519 public key is 32 bytes, this one is {key.bits.length}")
    else
      .error (.decode
        s!"the certificate's public key algorithm {key.oid} is not one this client verifies")

def accepts (k : PublicKey) (scheme : UInt16) : Bool :=
  match k with
  | rsa _ =>
    scheme = sigRsaPssRsaeSha256 || scheme = sigRsaPssRsaeSha384 || scheme = sigRsaPssRsaeSha512 ||
      scheme = sigRsaPkcs1Sha256
  | ecdsaP256 _ => scheme = sigEcdsaSecp256r1Sha256
  | ed25519 _ => scheme = sigEd25519

end PublicKey

section variable [Signatures]

/-- `verify_pss!`. -/
def verifyPss (digest : PssDigest) (key signature content : Bytes) : Except TlsError Unit :=
  match Signatures.pssSignature signature with
  | .error e => .error (.crypto s!"certificate_verify.signature is not an RSA-PSS signature: {e}")
  | .ok sig =>
    (Signatures.pssVerify digest key content sig).mapError fun e =>
      .crypto s!"the RSA-PSS signature does not verify against the presented key: {e}"

def verifyContent (key : PublicKey) (scheme : UInt16) (signature content : Bytes) :
    Except TlsError Unit :=
  if ¬key.accepts scheme then
    .error (.crypto (s!"certificate_verify.algorithm is {sigName scheme} but the certificate carries " ++
      s!"a {key.algorithm} key"))
  else
    match key with
    | .rsa k =>
      if scheme = sigRsaPssRsaeSha256 then verifyPss .sha256 k signature content
      else if scheme = sigRsaPssRsaeSha384 then verifyPss .sha384 k signature content
      else if scheme = sigRsaPssRsaeSha512 then verifyPss .sha512 k signature content
      else
        match Signatures.pkcs1Signature signature with
        | .error e => .error (.crypto s!"certificate_verify.signature is not an RSA signature: {e}")
        | .ok sig =>
          (Signatures.pkcs1Verify k content sig).mapError fun e =>
            .crypto s!"the RSA PKCS#1 v1.5 signature does not verify against the presented key: {e}"
    | .ecdsaP256 k =>
      match Signatures.ecdsaSignature signature with
      | .error e =>
        .error (.crypto s!"certificate_verify.signature is not a DER-encoded ECDSA signature: {e}")
      | .ok sig =>
        (Signatures.ecdsaVerify k content sig).mapError fun e =>
          .crypto s!"the ECDSA P-256 signature does not verify against the presented key: {e}"
    | .ed25519 k =>
      if h : signature.length = 64 then
        (Signatures.ed25519Verify k content ⟨signature, h⟩).mapError fun e =>
          .crypto s!"the Ed25519 signature does not verify against the presented key: {e}"
      else
        .error (.crypto s!"an Ed25519 signature is 64 bytes, this one is {signature.length}")

def verify (key : PublicKey) (scheme : UInt16) (signature transcriptHash : Bytes) :
    Except TlsError Unit :=
  verifyContent key scheme signature (serverSignedContent transcriptHash)

end

end BuildYourOwn.Tls
