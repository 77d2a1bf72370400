import BuildYourOwn.Tls.Messages

/-!
# The TLS message codecs are canonical

`ClientHello`, `CertificateMsg`, `CertificateVerifyMsg` and `KeyUpdate` against their encoders, both ways.

* A value `Fits` when each of its vectors, the nested ones too, is as short as the length in front of it can
  say. What fits is read back (`clientHello_reads`, `certificate_reads`, `certificateVerify_reads`).
* Whatever a parser accepts is the encoding of what it returns (`clientHello_takes`, …): each vector is read
  to its end, and so is the body.

Results: `codecs_canonical`.
-/

namespace BuildYourOwn.Tls

open Lib Lib.Reader

/-! ## What fits -/

structure FitsBlock (extensions : List Extension) : Prop where
  block : (extensions.flatMap Extension.encode).length < 65536
  data : ∀ e ∈ extensions, e.data.length < 65536

structure ClientHello.Fits (h : ClientHello) : Prop where
  sessionId : h.legacySessionId.length < 256
  suites : (h.cipherSuites.flatMap u16Bytes).length < 65536
  compression : h.legacyCompressionMethods.length < 256
  extensions : FitsBlock h.extensions

structure CertificateMsg.Fits (m : CertificateMsg) : Prop where
  context : m.requestContext.length < 256
  list : (m.entries.flatMap CertificateMsg.encodeEntry).length < 16777216
  certData : ∀ e ∈ m.entries, e.1.length < 16777216
  extensions : ∀ e ∈ m.entries, FitsBlock e.2

/-! ## Extension blocks and suites -/

theorem encode_ne_nil (e : Extension) : e.encode ≠ [] := by
  intro h
  have hlen := congrArg List.length h
  unfold Extension.encode at hlen
  rw [List.length_append, length_u16Bytes] at hlen
  cases hlen

theorem u16Bytes_ne_nil (v : UInt16) : u16Bytes v ≠ [] := by
  intro h
  have hlen := congrArg List.length h
  rw [length_u16Bytes] at hlen
  cases hlen

theorem extension_reads {e : Extension} (h : e.data.length < 65536) (path : String) (i : Nat) :
    Reads (readExtension path i) e.encode e := (u16_reads e.extType).bind ((vec16_reads h).map _)

theorem extension_undoes (path : String) (i : Nat) : Undoes (readExtension path i) Extension.encode := by
  refine u16_undoes.andThen fun t => vec16_undoes.andThen fun d => Takes.pure fun rest => ?_
  rw [List.append_nil]
  rfl

theorem parseExtensions_encode {extensions : List Extension} (h : FitsBlock extensions) (path : String) :
    parseExtensions (extensions.flatMap Extension.encode) path = .ok extensions :=
  ReadsAt.run (ReadsAt.untilDone extensions 0 [] (fun i e he => extension_reads (h.data e he) path i)
    fun e _ => encode_ne_nil e)

theorem parseExtensions_ok {bytes : Bytes} {path : String} {extensions : List Extension}
    (h : parseExtensions bytes path = .ok extensions) : bytes = extensions.flatMap Extension.encode := by
  obtain ⟨taken, rest, rfl, rfl, rfl⟩ :=
    (Takes.untilDone (extension_undoes path) encode_ne_nil 0).run h
  exact List.append_nil _

theorem suites_reads (suites : List UInt16) (path field : String) :
    run (untilDone (fun _ => Read.u16 path field) 0) (suites.flatMap u16Bytes) = .ok suites :=
  ReadsAt.run (ReadsAt.untilDone suites 0 [] (fun _ s _ => u16_reads s) fun s _ => u16Bytes_ne_nil s)

theorem suites_ok {bytes : Bytes} {path field : String} {suites : List UInt16}
    (h : run (untilDone (fun _ => Read.u16 path field) 0) bytes = .ok suites) : bytes = suites.flatMap u16Bytes := by
  obtain ⟨taken, rest, rfl, rfl, rfl⟩ :=
    (Takes.untilDone (fun _ => @u16_undoes path field) u16Bytes_ne_nil 0).run h
  exact List.append_nil _

theorem intoRandom_ok {b : Bytes} {e : TlsError} {r : Sized 32} (h : intoRandom b e = .ok r) : b = r.val := by
  unfold intoRandom at h
  split at h
  · cases h
    rfl
  · cases h

/-! ## ClientHello -/

theorem clientHello_reads {h : ClientHello} (hfits : h.Fits) : ClientHello.parseBody h.encodeBody = .ok h := by
  have hrandom : intoRandom h.random.val (.decode "client_hello.random must be 32 bytes") =
      .ok h.random := dif_pos h.random.property
  refine ReadsAt.run ?_
  unfold ClientHello.encodeBody
  rw [← List.append_nil (_ ++ encodeExtensions _)]
  simp only [List.append_assoc]
  refine (u16_reads _).andThen ?_
  refine (take_reads h.random.property).andThen ?_
  refine ReadsAt.lift hrandom ?_
  refine (vec8_reads hfits.sessionId).andThen ?_
  refine (vec16_reads hfits.suites).andThen ?_
  refine ReadsAt.lift (suites_reads _ _ _) ?_
  refine (vec8_reads hfits.compression).andThen ?_
  refine (vec16_reads hfits.extensions.block).andThen ?_
  refine ReadsAt.lift (parseExtensions_encode hfits.extensions _) ?_
  exact expectDone_reads (Reads.pure h _ [])

variable {body : Bytes}

theorem clientHello_ok {h : ClientHello} (hparse : ClientHello.parseBody body = .ok h) : h.encodeBody = body := by
  have htakes : ∃ taken rest, body = taken ++ rest ∧ taken = h.encodeBody ∧ rest = [] := by
    refine Takes.run (Q := fun (h : ClientHello) taken rest => taken = h.encodeBody ∧ rest = []) ?_ hparse
    refine u16_undoes.andThen fun version => take_undoes.andThen fun bytes => ?_
    refine Takes.lift fun random hrandom => ?_
    refine vec8_undoes.andThen fun sessionId => vec16_undoes.andThen fun suites => ?_
    refine Takes.lift fun cipherSuites hsuites => ?_
    refine vec8_undoes.andThen fun compression => vec16_undoes.andThen fun extBytes => ?_
    refine Takes.lift fun extensions hext => ?_
    refine expectDone_takes (Takes.pure fun rest _ _ => ⟨?_, rfl⟩)
    rw [intoRandom_ok hrandom, suites_ok hsuites, parseExtensions_ok hext]
    unfold ClientHello.encodeBody encodeExtensions
    simp only [List.append_assoc, List.append_nil]
  obtain ⟨taken, rest, rfl, rfl, rfl⟩ := htakes
  exact (List.append_nil _).symm

/-! ## Certificate -/

theorem entry_reads {e : Bytes × List Extension} (hcert : e.1.length < 16777216) (hext : FitsBlock e.2)
    (i : Nat) : Reads (CertificateMsg.readEntry i) (CertificateMsg.encodeEntry e) e := by
  have htail : Reads (do
      let extensions ← lift (parseExtensions (e.2.flatMap Extension.encode)
        s!"certificate.certificate_list[{i}]")
      pure (e.1, extensions) : Read (Bytes × List Extension)) [] e :=
    fun before rest => ReadsAt.lift (parseExtensions_encode hext _) (Reads.pure e before rest)
  unfold CertificateMsg.encodeEntry
  rw [← List.append_nil (encodeExtensions e.2)]
  exact (vec24_reads hcert).bind ((vec16_reads hext.block).bind htail)

theorem entry_undoes (i : Nat) : Undoes (CertificateMsg.readEntry i) CertificateMsg.encodeEntry := by
  refine vec24_undoes.andThen fun certData => vec16_undoes.andThen fun extBytes => ?_
  refine Takes.lift fun extensions hext => Takes.pure fun rest => ?_
  rw [parseExtensions_ok hext, List.append_nil]
  rfl

theorem encodeEntry_ne_nil (e : Bytes × List Extension) : CertificateMsg.encodeEntry e ≠ [] := by
  intro h
  have hlen := congrArg List.length h
  unfold CertificateMsg.encodeEntry vec24 at hlen
  rw [List.length_append, List.length_append, length_bigEndian] at hlen
  cases hlen

theorem certificate_reads {m : CertificateMsg} (hfits : m.Fits) : CertificateMsg.parse m.encodeBody = .ok m := by
  have hentries : run (untilDone CertificateMsg.readEntry 0)
      (m.entries.flatMap CertificateMsg.encodeEntry) = .ok m.entries :=
    ReadsAt.run (ReadsAt.untilDone m.entries 0 []
      (fun i e he => entry_reads (hfits.certData e he) (hfits.extensions e he) i)
      fun e _ => encodeEntry_ne_nil e)
  refine ReadsAt.run ?_
  unfold CertificateMsg.encodeBody
  rw [← List.append_nil (_ ++ vec24 _), List.append_assoc]
  refine (vec8_reads hfits.context).andThen ?_
  refine (vec24_reads hfits.list).andThen ?_
  exact expectDone_reads (ReadsAt.lift hentries (Reads.pure m _ []))

theorem certificate_ok {m : CertificateMsg} (hparse : CertificateMsg.parse body = .ok m) : m.encodeBody = body := by
  have htakes : ∃ taken rest, body = taken ++ rest ∧ taken = m.encodeBody ∧ rest = [] := by
    refine Takes.run (Q := fun (m : CertificateMsg) taken rest => taken = m.encodeBody ∧ rest = []) ?_
      hparse
    refine vec8_undoes.andThen fun context => vec24_undoes.andThen fun list => ?_
    refine expectDone_takes (Takes.lift fun entries hentries => Takes.pure fun rest _ _ => ⟨?_, rfl⟩)
    obtain ⟨taken, rest', hlist, rfl, rfl⟩ :=
      (Takes.untilDone entry_undoes encodeEntry_ne_nil 0).run hentries
    rw [hlist, List.append_nil, List.append_nil]
    rfl
  obtain ⟨taken, rest, rfl, rfl, rfl⟩ := htakes
  exact (List.append_nil _).symm

/-! ## CertificateVerify and KeyUpdate -/

theorem certificateVerify_reads {m : CertificateVerifyMsg} (hfits : m.signature.length < 65536) :
    CertificateVerifyMsg.parse m.encodeBody = .ok m := by
  refine ReadsAt.run ?_
  unfold CertificateVerifyMsg.encodeBody
  rw [← List.append_nil (_ ++ vec16 _), List.append_assoc]
  refine (u16_reads _).andThen ((vec16_reads hfits).andThen ?_)
  exact expectDone_reads (Reads.pure m _ [])

theorem certificateVerify_ok {m : CertificateVerifyMsg}
    (hparse : CertificateVerifyMsg.parse body = .ok m) : m.encodeBody = body := by
  have htakes : ∃ taken rest, body = taken ++ rest ∧ taken = m.encodeBody ∧ rest = [] := by
    refine Takes.run
      (Q := fun (m : CertificateVerifyMsg) taken rest => taken = m.encodeBody ∧ rest = []) ?_ hparse
    refine u16_undoes.andThen fun algorithm => vec16_undoes.andThen fun signature => ?_
    refine expectDone_takes (Takes.pure fun rest _ _ => ⟨?_, rfl⟩)
    rw [List.append_nil]
    rfl
  obtain ⟨taken, rest, rfl, rfl, rfl⟩ := htakes
  exact (List.append_nil _).symm

theorem keyUpdate_reads (u : KeyUpdate) : KeyUpdate.parse u.body = .ok u := by
  refine ReadsAt.run ?_
  rw [← List.append_nil u.body]
  exact (u8_reads u.requestUpdate).andThen (expectDone_reads (Reads.pure u _ []))

theorem keyUpdate_ok {u : KeyUpdate} (hparse : KeyUpdate.parse body = .ok u) : u.body = body := by
  have htakes : ∃ taken rest, body = taken ++ rest ∧ taken = u.body ∧ rest = [] := by
    refine Takes.run (Q := fun (u : KeyUpdate) taken rest => taken = u.body ∧ rest = []) ?_ hparse
    refine u8_undoes.andThen fun b => expectDone_takes (Takes.pure fun rest _ _ => ⟨rfl, rfl⟩)
  obtain ⟨taken, rest, rfl, rfl, rfl⟩ := htakes
  exact (List.append_nil _).symm

/-! ## The framing -/

theorem handshake_parse (t : HandshakeType) (h : body.length < 16777216) (rest : Bytes) :
    HandshakeMessage.parse (encodeHandshake t body ++ rest) =
      .ok (⟨t, body, encodeHandshake t body⟩, 4 + body.length) := by
  have hlength : ofBigEndian [UInt8.ofNat (body.length / 256 / 256), UInt8.ofNat (body.length / 256),
      UInt8.ofNat body.length] = body.length :=
    (ofBigEndian_bigEndian 3 body.length).trans (Nat.mod_eq_of_lt h)
  have hlen : (encodeHandshake t body).length = 4 + body.length := by
    unfold encodeHandshake u24Bytes
    simp only [List.length_append, List.length_cons, length_bigEndian]
  have hraw : (encodeHandshake t body ++ rest).take (4 + body.length) = encodeHandshake t body := by
    rw [← hlen, List.take_left]
  have hbytes : encodeHandshake t body ++ rest =
      t.code :: UInt8.ofNat (body.length / 256 / 256) :: UInt8.ofNat (body.length / 256) ::
        UInt8.ofNat body.length :: (body ++ rest) := rfl
  rw [hbytes] at hraw ⊢
  unfold HandshakeMessage.parse
  dsimp only
  rw [hlength, if_neg (by rw [List.length_append]; omega), List.take_left, hraw]

/-! ## The result -/

theorem codecs_canonical :
    (∀ h : ClientHello, h.Fits → ClientHello.parseBody h.encodeBody = .ok h) ∧
    (∀ m : CertificateMsg, m.Fits → CertificateMsg.parse m.encodeBody = .ok m) ∧
    (∀ m : CertificateVerifyMsg, m.signature.length < 65536 →
      CertificateVerifyMsg.parse m.encodeBody = .ok m) ∧
    (∀ u : KeyUpdate, KeyUpdate.parse u.body = .ok u) ∧
    (∀ body h, ClientHello.parseBody body = .ok h → h.encodeBody = body) ∧
    (∀ body m, CertificateMsg.parse body = .ok m → m.encodeBody = body) ∧
    (∀ body m, CertificateVerifyMsg.parse body = .ok m → m.encodeBody = body) ∧
    (∀ body u, KeyUpdate.parse body = .ok u → u.body = body) ∧
    ∀ (t : HandshakeType) (body rest : Bytes), body.length < 2 ^ 24 →
      HandshakeMessage.parse (encodeHandshake t body ++ rest) =
        .ok (⟨t, body, encodeHandshake t body⟩, 4 + body.length) :=
  ⟨fun _ => clientHello_reads, fun _ => certificate_reads, fun _ => certificateVerify_reads,
    keyUpdate_reads, fun _ _ => clientHello_ok, fun _ _ => certificate_ok,
    fun _ _ => certificateVerify_ok, fun _ _ => keyUpdate_ok,
    fun t _ rest h => handshake_parse t h rest⟩

theorem codecs_canonical_sample :
    ∃ (h : ClientHello) (m : CertificateMsg), h.cipherSuites = [0x1301] ∧
      h.extensions = [⟨43, [2, 3, 4]⟩] ∧ m.entries = [([48, 0], [⟨5, [1]⟩])] ∧
      ClientHello.parseBody h.encodeBody = .ok h ∧ CertificateMsg.parse m.encodeBody = .ok m ∧
      HandshakeMessage.parse (encodeHandshake .finished [1, 2] ++ [9]) =
        .ok (⟨.finished, [1, 2], [20, 0, 0, 2, 1, 2]⟩, 6) := by
  obtain ⟨hhello, hcert, -, -, -, -, -, -, hframe⟩ := codecs_canonical
  refine ⟨⟨0x0303, ⟨List.replicate 32 7, rfl⟩, [], [0x1301], [0], [⟨43, [2, 3, 4]⟩]⟩,
    ⟨[], [([48, 0], [⟨5, [1]⟩])]⟩, rfl, rfl, rfl, hhello _ ⟨by decide, by decide, by decide, ?_⟩,
    hcert _ ⟨by decide, by decide, by decide, ?_⟩, hframe _ _ _ (by decide)⟩
  · exact ⟨by decide, by decide⟩
  · intro e he
    obtain rfl := List.mem_singleton.mp he
    exact ⟨by decide, by decide⟩

end BuildYourOwn.Tls
