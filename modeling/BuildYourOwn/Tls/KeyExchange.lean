import BuildYourOwn.Tls.Crypto

/-!
# TLS: the key exchange

Model of `KeyExchange` in `tlstest/src/tls/msg.rs`. `Curves` is what it calls in `x25519-dalek` and `p256`;
a value of a type of these crates is the bytes it is made from, and an error is what it prints.
-/

namespace BuildYourOwn.Tls

open Lib

class Curves where
  /-- `x25519_dalek::PublicKey::from` a secret. -/
  x25519Public (secret : Sized 32) : Sized 32
  /-- `StaticSecret::diffie_hellman`. -/
  x25519Shared (secret peer : Sized 32) : Sized 32
  /-- `p256::SecretKey::from_slice`, as far as it says whether these bytes are a scalar. -/
  p256Scalar (bytes : Sized 32) : Bool
  /-- `public_key().to_encoded_point(false)`. -/
  p256Public (secret : Sized 32) : Bytes
  /-- `p256::EncodedPoint::from_bytes`. -/
  p256Point (bytes : Bytes) : Except String Bytes
  /-- `p256::PublicKey::from_sec1_bytes`. -/
  p256Key (point : Bytes) : Except String Bytes
  /-- `p256::ecdh::diffie_hellman`. -/
  p256Shared (secret : Sized 32) (key : Bytes) : Sized 32

inductive KeyExchange where
  | x25519 (secret : Sized 32) (publicKey : Bytes)
  | p256 (secret : Sized 32) (publicKey : Bytes)
deriving DecidableEq

namespace KeyExchange

section variable [Crates] [Curves]

/-- The loop of `from_entropy` over the rounds from `round` on, `n` of them. -/
def p256Rounds (entropy bytes : Sized 32) (round : Nat) : Nat → Except TlsError KeyExchange
  | 0 => .error (.crypto "could not derive a secp256r1 scalar from the seed")
  | n + 1 =>
    if Curves.p256Scalar bytes then .ok (.p256 bytes (Curves.p256Public bytes))
    else
      p256Rounds entropy (Crates.sha256 (entropy.val ++ [UInt8.ofNat round])) (round + 1) n

def fromEntropy (group : UInt16) (entropy : Sized 32) : Except TlsError KeyExchange :=
  if group = groupX25519 then .ok (.x25519 entropy (Curves.x25519Public entropy).val)
  else if group = groupSecp256r1 then p256Rounds entropy entropy 0 8
  else .error (.crypto s!"this client cannot do the maths for {groupName group}")

end

def group : KeyExchange → UInt16
  | x25519 _ _ => groupX25519
  | p256 _ _ => groupSecp256r1

/-- `KeyExchange::public`. -/
def publicBytes : KeyExchange → Bytes
  | x25519 _ publicKey => publicKey
  | p256 _ publicKey => publicKey

section variable [Curves]

/-- `KeyExchange::complete`. `was_contributory` is that the shared secret is not all zeros. -/
def complete (k : KeyExchange) (peer : Bytes) : Except TlsError Bytes :=
  match k with
  | x25519 secret _ =>
    if h : peer.length = 32 then
      let shared := (Curves.x25519Shared secret ⟨peer, h⟩).val
      if shared = List.replicate 32 0 then
        .error (.crypto ("the x25519 shared secret is all zeros: the server sent a small-order " ++
          "point (RFC 8446 section 7.4.2 says abort with illegal_parameter)"))
      else .ok shared
    else
      .error (.crypto
        s!"server_hello.key_share.key_exchange for x25519 must be 32 bytes, got {peer.length}")
  | p256 secret _ =>
    match Curves.p256Point peer with
    | .error e =>
      .error (.crypto s!"server_hello.key_share.key_exchange is not a secp256r1 point: {e}")
    | .ok point =>
      match Curves.p256Key point with
      | .error e => .error (.crypto s!"server_hello.key_share.key_exchange: {e}")
      | .ok key => .ok (Curves.p256Shared secret key).val

end

end KeyExchange

end BuildYourOwn.Tls
