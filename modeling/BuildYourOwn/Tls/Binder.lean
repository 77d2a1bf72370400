import BuildYourOwn.Tls.Codecs
import BuildYourOwn.Tls.Flight

/-!
# The PSK binder

`attach_psk_binder` encodes the ClientHello with a binder of zeros, hashes what stands before the binder list, and
writes the binder over the zeros.

* The encoding depends on the binder only where the binder stands (`offering_encode`): every length in front of it is
  that of the message that is sent.
-/

namespace BuildYourOwn.Tls

open Lib Lib.Reader

/-! ## The extension -/

/-- `pre_shared_key` with the identity and age of the offer, and one binder. -/
def PskOffer.extension (offer : PskOffer) (binder : Bytes) : Extension :=
  ⟨extPreSharedKey, vec16 (vec16 offer.identity ++ u32Bytes offer.obfuscatedTicketAge) ++ vec16 (vec8 binder)⟩

def ClientHello.offering (hello : ClientHello) (offer : PskOffer) (binder : Bytes) : ClientHello :=
  { hello with extensions := hello.extensions ++ [offer.extension binder] }

/-- A `pre_shared_key` extension of a ClientHello: the identities with their ages, and the binders. -/
def readOfferedPsks : Read (List (Bytes × UInt32) × List Bytes) := do
  let list ← Read.vec16 "pre_shared_key" "identities"
  let identities ← lift (run (untilDone (fun i => do
    let identity ← Read.vec16 "pre_shared_key" s!"identities[{i}].identity"
    let age ← Read.u32 "pre_shared_key" s!"identities[{i}].obfuscated_ticket_age"
    pure (identity, age)) 0) list)
  let list ← Read.vec16 "pre_shared_key" "binders"
  let binders ← lift (run (untilDone (fun i => Read.vec8 "pre_shared_key" s!"binders[{i}]") 0) list)
  pure (identities, binders)

/-- The finished key of the offer's `binder_key`. -/
def PskOffer.finishedKey [Crates] (offer : PskOffer) : Except TlsError Bytes := do
  let hash := offer.suite.hash
  let earlySecret := hkdfExtract hash hash.zeros offer.psk
  let binderKey ← deriveSecret hash earlySecret "res binder" hash.emptyHash
  hkdfExpandLabel hash binderKey "finished" [] hash.len

def PskOffer.FitsIn (offer : PskOffer) (hello : ClientHello) : Prop :=
  (hello.extensions.flatMap Extension.encode).length + (offer.identity.length + offer.suite.hash.len + 15) < 65536

/-! ## The message around the binder -/

variable {hello : ClientHello} {offer : PskOffer} {binder : Bytes}

/-- The message up to the binder list, for a binder of `n` bytes. -/
def beforeBinders (hello : ClientHello) (offer : PskOffer) (n : Nat) : Bytes :=
  let head := u16Bytes hello.legacyVersion ++ hello.random.val ++ vec8 hello.legacySessionId ++
    vec16 (hello.cipherSuites.flatMap u16Bytes) ++ vec8 hello.legacyCompressionMethods
  let block := hello.extensions.flatMap Extension.encode
  let identities := vec16 (vec16 offer.identity ++ u32Bytes offer.obfuscatedTicketAge)
  let dataLength := identities.length + (n + 3)
  let blockLength := block.length + (dataLength + 4)
  HandshakeType.clientHello.code :: u24Bytes (head.length + (blockLength + 2)) ++ head ++ bigEndian 2 blockLength ++ block ++
    u16Bytes extPreSharedKey ++ bigEndian 2 dataLength ++ identities

theorem length_vec8 (b : Bytes) : (vec8 b).length = b.length + 1 := List.length_cons

theorem length_vec16 (b : Bytes) : (vec16 b).length = b.length + 2 := by
  rw [vec16, List.length_append, length_bigEndian, Nat.add_comm]

theorem length_data (offer : PskOffer) (binder : Bytes) : (offer.extension binder).data.length =
      (vec16 (vec16 offer.identity ++ u32Bytes offer.obfuscatedTicketAge)).length + (binder.length + 3) := by
  unfold PskOffer.extension
  rw [List.length_append, length_vec16 (vec8 binder), length_vec8]

/-- **The binder stands at the end**, and of what stands before it only the lengths depend on its own. -/
theorem offering_encode (hello : ClientHello) (offer : PskOffer) (binder : Bytes) :
    (hello.offering offer binder).encode = beforeBinders hello offer binder.length ++ vec16 (vec8 binder) := by
  have hblock : encodeExtensions (hello.offering offer binder).extensions =
      bigEndian 2 ((hello.extensions.flatMap Extension.encode).length + ((offer.extension binder).data.length + 4)) ++
        hello.extensions.flatMap Extension.encode ++ (offer.extension binder).encode := by
    have hlength : (offer.extension binder).encode.length = (offer.extension binder).data.length + 4 := by
      rw [Extension.encode, List.length_append, length_u16Bytes, length_vec16]
      omega
    rw [encodeExtensions, ClientHello.offering, List.flatMap_append, List.flatMap_singleton, vec16, List.length_append,
      hlength, List.append_assoc]
  have hext : (offer.extension binder).encode = u16Bytes extPreSharedKey ++
      bigEndian 2 (offer.extension binder).data.length ++
        vec16 (vec16 offer.identity ++ u32Bytes offer.obfuscatedTicketAge) ++ vec16 (vec8 binder) := by
    rw [Extension.encode, vec16]
    simp only [PskOffer.extension, List.append_assoc]
  have hbody : (hello.offering offer binder).encodeBody =
      u16Bytes hello.legacyVersion ++ hello.random.val ++ vec8 hello.legacySessionId ++
        vec16 (hello.cipherSuites.flatMap u16Bytes) ++ vec8 hello.legacyCompressionMethods ++
        encodeExtensions (hello.offering offer binder).extensions := rfl
  have hlen : (encodeExtensions (hello.offering offer binder).extensions).length =
      (hello.extensions.flatMap Extension.encode).length + ((offer.extension binder).data.length + 4) + 2 := by
    rw [hblock, List.length_append, List.length_append, length_bigEndian, Extension.encode, List.length_append,
      length_u16Bytes, length_vec16]
    omega
  unfold ClientHello.encode encodeHandshake beforeBinders
  rw [hbody]
  generalize u16Bytes hello.legacyVersion ++ hello.random.val ++ vec8 hello.legacySessionId ++
    vec16 (hello.cipherSuites.flatMap u16Bytes) ++ vec8 hello.legacyCompressionMethods = head
  rw [List.length_append, hlen, hblock, hext, length_data]
  simp only [List.append_assoc, List.cons_append, Nat.add_assoc]

theorem offering_fits (hfits : hello.Fits) (hin : offer.FitsIn hello) (hlen : binder.length = offer.suite.hash.len) :
    (hello.offering offer binder).Fits := by
  have hdata : (offer.extension binder).data.length = offer.identity.length + offer.suite.hash.len + 11 := by
    rw [length_data, length_vec16, List.length_append, length_vec16, u32Bytes, length_bigEndian, hlen]
    omega
  have hencode : (offer.extension binder).encode.length = (offer.extension binder).data.length + 4 := by
    rw [Extension.encode, List.length_append, length_u16Bytes, length_vec16]
    omega
  unfold PskOffer.FitsIn at hin
  refine ⟨hfits.sessionId, hfits.suites, hfits.compression, ?_, fun e he => ?_⟩
  · rw [ClientHello.offering, List.flatMap_append, List.flatMap_singleton, List.length_append, hencode]
    omega
  · rcases List.mem_append.mp he with he | he
    · exact hfits.extensions.data e he
    · rw [List.mem_singleton.mp he]
      omega

theorem offering_body_lt (hfits : (hello.offering offer binder).Fits) :
    (hello.offering offer binder).encodeBody.length < 16777216 := by
  have hsession := hfits.sessionId
  have hsuites := hfits.suites
  have hcompression := hfits.compression
  have hblock := hfits.extensions.block
  have hrandom := (hello.offering offer binder).random.property
  unfold ClientHello.encodeBody encodeExtensions
  simp only [List.length_append, length_vec8, length_vec16, length_u16Bytes, hrandom]
  omega

theorem u32_reads (path field : String) (v : UInt32) : Reads (Read.u32 path field) (u32Bytes v) v := by
  have hread := (@number_reads path field 4 _ v.toNat_lt).map UInt32.ofNat
  rw [UInt32.ofNat_toNat] at hread
  exact hread

theorem offered_reads (hin : offer.FitsIn hello) (hlen : binder.length = offer.suite.hash.len) :
    run readOfferedPsks (offer.extension binder).data = .ok ([(offer.identity, offer.obfuscatedTicketAge)], [binder]) := by
  have hhash : offer.suite.hash.len ≤ 48 := by cases offer.suite.hash <;> decide
  unfold PskOffer.FitsIn at hin
  have hage : (u32Bytes offer.obfuscatedTicketAge).length = 4 := length_bigEndian 4 _
  refine ReadsAt.run ?_
  unfold PskOffer.extension
  rw [← List.append_nil (_ ++ vec16 (vec8 binder))]
  simp only [List.append_assoc]
  refine (vec16_reads ?_).andThen ?_
  · rw [List.length_append, length_vec16, hage]
    omega
  refine ReadsAt.lift (a := [(offer.identity, offer.obfuscatedTicketAge)]) ?_ ?_
  · have hitem : ∀ j : Nat, ∀ p ∈ [(offer.identity, offer.obfuscatedTicketAge)], Reads (do
        let identity ← Read.vec16 "pre_shared_key" s!"identities[{j}].identity"
        let age ← Read.u32 "pre_shared_key" s!"identities[{j}].obfuscated_ticket_age"
        pure (identity, age)) (vec16 p.1 ++ u32Bytes p.2) p := by
      intro j p hp
      rw [List.mem_singleton.mp hp]
      exact (vec16_reads (by dsimp only; omega)).bind ((u32_reads _ _ _).map _)
    have hread := ReadsAt.run (ReadsAt.untilDone _ 0 [] hitem fun p _ h => by
      have hlength := congrArg List.length h
      rw [List.length_append, length_vec16] at hlength
      exact absurd hlength (by simp))
    rwa [List.flatMap_singleton] at hread
  refine (vec16_reads ?_).andThen ?_
  · rw [length_vec8]
    omega
  refine ReadsAt.lift (a := [binder]) ?_ (Reads.pure _ _ [])
  have hitem : ∀ j : Nat, ∀ b ∈ [binder], Reads (Read.vec8 "pre_shared_key" s!"binders[{j}]") (vec8 b) b := by
    intro j b hb
    rw [List.mem_singleton.mp hb]
    exact vec8_reads (by omega)
  have hread := ReadsAt.run (ReadsAt.untilDone _ 0 [] hitem fun b _ => List.cons_ne_nil _ _)
  rwa [List.flatMap_singleton] at hread

/-- **The zeros are written over** by the binder. -/
theorem patch_binder (hello : ClientHello) (offer : PskOffer) {n : Nat} (hlen : binder.length = n) :
    let full := (hello.offering offer (List.replicate n 0)).encode
    let start := full.length - (vec16 (vec8 (List.replicate n 0))).length + 3
    full.take start ++ binder ++ full.drop (start + n) = (hello.offering offer binder).encode := by
  have hzeros : (List.replicate n (0 : UInt8)).length = n := List.length_replicate
  dsimp only
  rw [offering_encode, offering_encode, hzeros, hlen, List.length_append, Nat.add_sub_cancel, List.take_length_add_append,
    Nat.add_assoc, List.drop_length_add_append]
  have hlist : ∀ b : Bytes, b.length = n → vec16 (vec8 b) = bigEndian 2 (n + 1) ++ [UInt8.ofNat n] ++ b := by
    intro b hb
    rw [vec16, length_vec8, vec8, hb, List.append_assoc]
    rfl
  have hthree : (bigEndian 2 (n + 1) ++ [UInt8.ofNat n]).length = 3 := by
    rw [List.length_append, length_bigEndian]
    rfl
  have hall : (bigEndian 2 (n + 1) ++ [UInt8.ofNat n] ++ List.replicate n 0).length = 3 + n := by
    rw [List.length_append, hthree, hzeros]
  rw [hlist _ hzeros, hlist _ hlen, ← hall, List.drop_length, ← hthree, List.take_left, List.append_nil, List.append_assoc]

/-! ## The result -/

section variable [Crates]

theorem length_hmac (hash : HashAlg) (key data : Bytes) : (hash.hmac key data).length = hash.len := by
  cases hash with
  | sha256 => exact (Crates.hmacSha256 key data).property
  | sha384 => exact (Crates.hmacSha384 key data).property

theorem finishedKey_runs (offer : PskOffer) :
    ∃ binderKey keys key, deriveSecret offer.suite.hash (hkdfExtract offer.suite.hash offer.suite.hash.zeros offer.psk)
        "res binder" offer.suite.hash.emptyHash = .ok binderKey ∧
      TrafficKeys.derive offer.suite binderKey = .ok keys ∧ keys.finishedKey = .ok key ∧
      offer.finishedKey = .ok key := by
  obtain ⟨binderKey, hbinderKey⟩ := deriveSecret_runs offer.suite.hash
    (hkdfExtract offer.suite.hash offer.suite.hash.zeros offer.psk) "res binder" offer.suite.hash.emptyHash
  obtain ⟨keys, hkeys⟩ := TrafficKeys.derive_runs offer.suite binderKey
  have hlen : offer.suite.hash.len ≤ 48 := by cases offer.suite.hash <;> decide
  obtain ⟨key, hkey⟩ := hkdfExpandLabel_runs offer.suite.hash binderKey "finished" [] hlen
  have hsame : keys.secret = binderKey ∧ keys.hash = offer.suite.hash := by
    obtain ⟨k, -, hrest⟩ := except_bind_ok.mp hkeys
    obtain ⟨iv, -, hrest⟩ := except_bind_ok.mp hrest
    cases hrest
    exact ⟨rfl, rfl⟩
  refine ⟨binderKey, keys, key, hbinderKey, hkeys, ?_, except_bind_ok.mpr ⟨binderKey, hbinderKey, hkey⟩⟩
  rw [TrafficKeys.finishedKey, hsame.1, hsame.2]
  exact hkey

theorem deriveBinderKey_runs {k : KeySchedule} {key : Bytes}
    (h : deriveSecret k.suite.hash k.earlySecret "res binder" k.suite.hash.emptyHash = .ok key) :
    KeySchedule.deriveBinderKey k = some (.ok key, { k with binderKey := some key }) := by
  unfold KeySchedule.deriveBinderKey
  rw [Action.bind_of_ok (Action.get_ok.mpr ⟨rfl, rfl⟩), Action.bind_of_ok (Action.lift_ok.mpr ⟨h, rfl⟩)]
  rfl

/-- **The PSK binder** is taken over the message that is returned, up to its binder list. -/
theorem attachPskBinder_covers (c : Client) (hello : ClientHello) (offer : PskOffer)
    (hclean : c.config.corruptPskBinder = false) (hfits : hello.Fits) (hin : offer.FitsIn hello) :
    ∃ bytes before binder key c', Client.attachPskBinder hello offer c = some (.ok bytes, c') ∧
      HandshakeMessage.parse bytes =
        .ok (⟨.clientHello, (hello.offering offer binder).encodeBody, bytes⟩, bytes.length) ∧
      ClientHello.parseBody (hello.offering offer binder).encodeBody = .ok (hello.offering offer binder) ∧
      run readOfferedPsks (offer.extension binder).data =
        .ok ([(offer.identity, offer.obfuscatedTicketAge)], [binder]) ∧
      binder.length = offer.suite.hash.len ∧
      bytes = before ++ vec16 (vec8 binder) ∧
      offer.finishedKey = .ok key ∧
      binder = offer.suite.hash.hmac key (offer.suite.hash.digest before) := by
  obtain ⟨binderKey, keys, key, hbinderKey, hkeys, hkey, hfinished⟩ := finishedKey_runs offer
  have hzeros : (List.replicate offer.suite.hash.len (0 : UInt8)).length = offer.suite.hash.len := List.length_replicate
  obtain ⟨before, hbefore⟩ : ∃ before, before = beforeBinders hello offer offer.suite.hash.len := ⟨_, rfl⟩
  obtain ⟨binder, hbinder⟩ : ∃ binder, binder = offer.suite.hash.hmac key (offer.suite.hash.digest before) := ⟨_, rfl⟩
  have hlen : binder.length = offer.suite.hash.len := hbinder ▸ length_hmac _ _ _
  have hfits' := offering_fits hfits hin hlen
  have hbody := offering_body_lt hfits'
  have hparse := handshake_parse .clientHello hbody []
  have hlength : (hello.offering offer binder).encode.length = 4 + (hello.offering offer binder).encodeBody.length := by
    unfold ClientHello.encode encodeHandshake u24Bytes
    simp only [List.length_append, List.length_cons, length_bigEndian]
  have hencode := offering_encode hello offer binder
  rw [hlen, ← hbefore] at hencode
  rw [List.append_nil, ← hlength] at hparse
  refine ⟨(hello.offering offer binder).encode, before, binder, key, ?_⟩
  have hrun : ∃ c', Client.attachPskBinder hello offer c = some (.ok (hello.offering offer binder).encode, c') := by
    have hlocal := Action.onLocal_ok.mpr ⟨deriveBinderKey_runs (k := KeySchedule.new offer.suite (some offer.psk)) hbinderKey,
      (rfl : c = c)⟩
    have htake : (hello.offering offer (List.replicate offer.suite.hash.len 0)).encode.take
        ((hello.offering offer (List.replicate offer.suite.hash.len 0)).encode.length -
          (vec16 (vec8 (List.replicate offer.suite.hash.len 0))).length) = before := by
      rw [offering_encode, hzeros, List.length_append, Nat.add_sub_cancel, List.take_left, hbefore]
    have hpatch := patch_binder hello offer hlen
    unfold Client.attachPskBinder
    rw [Action.bind_of_ok hlocal]
    dsimp only
    rw [Action.bind_of_ok (Action.lift_ok.mpr ⟨hkeys, rfl⟩), Action.bind_of_ok (Action.lift_ok.mpr ⟨hkey, rfl⟩),
      Action.bind_of_ok (Action.get_ok.mpr ⟨rfl, rfl⟩), hclean, Action.bind_of_ok (Action.modify_ok (u := ()) |>.mpr rfl)]
    refine ⟨_, Action.pure_ok.mpr ⟨(if_neg Bool.false_ne_true).trans ?_, rfl⟩⟩
    refine Eq.trans ?_ hpatch
    rw [hbinder, ← htake]
    rfl
  obtain ⟨c', hrun⟩ := hrun
  exact ⟨c', hrun, hparse, clientHello_reads hfits', offered_reads hin hlen, hlen, hencode, hfinished, hbinder⟩

end

theorem attachPskBinder_covers_resumed : ∃ (hello : ClientHello) (offer : PskOffer) (before binder key : Bytes)
    (c' : Client), Resumed.config.psk = some offer ∧ hello.extensions.length = 5 ∧ binder.length = 32 ∧
    @Client.attachPskBinder Resumed.crates hello offer Resumed.client = some (.ok Resumed.clientHello, c') ∧
    Resumed.clientHello = before ++ vec16 (vec8 binder) ∧ @PskOffer.finishedKey Resumed.crates offer = .ok key ∧
    binder = @HashAlg.hmac Resumed.crates key (@HashAlg.digest Resumed.crates before .sha256) .sha256 := by
  have hrun : ((@buildHello Resumed.crates Resumed.curves Resumed.config).toOption.bind fun h =>
      (@Client.attachPskBinder Resumed.crates h.1 ⟨[1], 0, Resumed.psk, ⟨tlsAes128GcmSha256, .sha256, .aes128Gcm⟩⟩
        Resumed.client).bind fun r => r.1.toOption.map fun bytes =>
          (bytes, h.1.extensions.map fun e => (e.encode.length, e.data.length), h.1.legacySessionId.length,
            h.1.cipherSuites.length, h.1.legacyCompressionMethods.length)) =
      some (Resumed.clientHello, [(7, 3), (8, 4), (8, 4), (42, 38), (6, 2)], 0, 1, 1) := by decide +kernel
  obtain ⟨⟨hello, shares⟩, -, hrun⟩ := Option.bind_eq_some_iff.mp hrun
  obtain ⟨⟨result, c₀⟩, hattach, hrun⟩ := Option.bind_eq_some_iff.mp hrun
  obtain ⟨sent, hsent, hrun⟩ := Option.map_eq_some_iff.mp hrun
  simp only [Prod.mk.injEq] at hrun
  obtain ⟨rfl, hextensions, hsession, hsuites, hcompression⟩ := hrun
  have hcount : hello.extensions.length = 5 := by
    have := congrArg List.length hextensions
    rwa [List.length_map] at this
  have hblock : (hello.extensions.flatMap Extension.encode).length = 71 := by
    have hsum := congrArg (fun l => (l.map Prod.fst).sum) hextensions
    rw [List.map_map] at hsum
    rw [List.length_flatMap]
    exact hsum
  have hdata : ∀ e ∈ hello.extensions, e.data.length < 65536 := by
    intro e he
    have hmem := List.mem_map_of_mem (f := fun e : Extension => (e.encode.length, e.data.length)) he
    rw [hextensions] at hmem
    simp only [List.mem_cons, Prod.mk.injEq, List.not_mem_nil, or_false] at hmem
    omega
  have hfits : hello.Fits := by
    refine ⟨by omega, ?_, by omega, ⟨by omega, hdata⟩⟩
    obtain ⟨suite, hsuite⟩ := List.length_eq_one_iff.mp hsuites
    rw [hsuite, List.flatMap_singleton, length_u16Bytes]
    decide
  obtain ⟨bytes, before, binder, key, c', hbytes, -, -, -, hlen, hbefore, hkey, hbinder⟩ :=
    @attachPskBinder_covers Resumed.crates Resumed.client hello
      ⟨[1], 0, Resumed.psk, ⟨tlsAes128GcmSha256, .sha256, .aes128Gcm⟩⟩ rfl hfits (by
        unfold PskOffer.FitsIn
        rw [hblock]
        decide)
  rw [hattach, Option.some.injEq, Prod.mk.injEq] at hbytes
  obtain rfl : Resumed.clientHello = bytes := by
    rw [hbytes.1] at hsent
    exact (Option.some.inj hsent).symm
  exact ⟨hello, _, before, binder, key, c₀, rfl, hcount, hlen, by rw [hattach, hbytes.1], hbefore, hkey, hbinder⟩

end BuildYourOwn.Tls
