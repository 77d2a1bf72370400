import BuildYourOwn.Tls.Following

/-!
# Records and messages out of chunks

The socket gives the stream in chunks, cut anywhere. A record is read when all of it is there, a handshake message when
the records have brought all of it, so two buffers stand between the chunks and what `next_message` returns.

* `Holds`: what the two buffers and the socket hold together, of messages and ChangeCipherSpec records to come.
-/

namespace BuildYourOwn.Tls

open Lib

/-! ## A record -/

def Chunks (arrivals : List (Except TlsError Bytes)) : Prop := ∀ a ∈ arrivals, ∃ chunk, a = .ok chunk ∧ chunk ≠ []

theorem record_there {bytes : Bytes} {r : Record} {used : Nat} (h : Record.parse bytes = .ok (r, used)) :
    5 ≤ bytes.length ∧ 5 + ofBigEndian [bytes.getD 3 0, bytes.getD 4 0] ≤ bytes.length := by
  unfold Record.parse at h
  split at h
  · dsimp only at h
    split at h
    · cases h
    · rename_i hlength
      simp only [List.length_cons, List.getD_cons_succ, List.getD_cons_zero]
      omega
  · cases h

theorem fill_chunks {t : TlsConn} (hchunks : Chunks t.arrivals) (hne : t.arrivals ≠ []) (what : String) :
    ∃ t', TlsConn.fill what t = some (.ok true, t') ∧ TlsConn.SameButSocket t t' ∧ t'.unread = t.unread ∧
      Chunks t'.arrivals ∧ t'.arrivals.length < t.arrivals.length := by
  obtain ⟨harrivals, -⟩ | ⟨e, rest, harrivals, -⟩ | ⟨rest, harrivals, -⟩ | ⟨b, bytes, rest, harrivals, hfill⟩ :=
    TlsConn.fill_cases what t
  · exact absurd harrivals hne
  · obtain ⟨chunk, he, -⟩ := hchunks _ (harrivals ▸ List.mem_cons_self)
    cases he
  · obtain ⟨chunk, hnil, hchunk⟩ := hchunks _ (harrivals ▸ List.mem_cons_self)
    cases hnil
    exact absurd rfl hchunk
  · refine ⟨_, hfill, rfl, ?_, fun a ha => hchunks a (harrivals ▸ List.mem_cons_of_mem _ ha), ?_⟩
    · unfold TlsConn.unread
      rw [harrivals]
      exact List.append_assoc _ _ _
    · rw [harrivals]
      exact Nat.lt_succ_self _

theorem readRecord_delivers {conn : TlsConn} {r : Record} {used : Nat} (hchunks : Chunks conn.arrivals)
    (hparse : Record.parse conn.unread = .ok (r, used)) :
    ∃ conn', TlsConn.readRecord conn = some (.ok r, conn') ∧ TlsConn.SameButSocket conn conn' ∧
      conn'.unread = conn.unread.drop used ∧ Chunks conn'.arrivals := by
  have hends : Action.Ends False (fun o t => o = .ok r ∧ TlsConn.SameButSocket conn t ∧
      t.unread = conn.unread.drop used ∧ Chunks t.arrivals) (TlsConn.readRecord conn) := by
    refine Action.ends_forever
      (I := fun _ t => TlsConn.SameButSocket conn t ∧ t.unread = conn.unread ∧ Chunks t.arrivals)
      ⟨.refl conn, rfl, hchunks⟩ fun _ t ht => ?_
    obtain ⟨hsame, hunread, hchunks⟩ := ht
    unfold TlsConn.readRecordRound
    refine Action.ends_bind.mpr (Action.ends_get.mpr ?_)
    show Action.Ends False _ ((if _ then _ else _ : Action TlsConn TlsError (Unit ⊕ Record)) t)
    split
    · rename_i hthere
      obtain ⟨r', used', hparse'⟩ := record_parse_full hthere.1 hthere.2
      obtain ⟨-, hle⟩ := record_ok hparse'
      have hfirst := record_parse_append hparse' (t.arrivals.flatMap chunkOf)
      rw [show t.inbuf ++ t.arrivals.flatMap chunkOf = conn.unread from hunread, hparse] at hfirst
      cases hfirst
      rw [hparse']
      refine ⟨rfl, hsame.trans rfl, ?_, hchunks⟩
      rw [← hunread]
      exact (List.drop_append_of_le_length hle).symm
    · rename_i hnot
      have hne : t.arrivals ≠ [] := by
        -- otherwise the buffer is all of the stream, and the record is in it
        intro hnil
        refine hnot (@record_there _ r used ?_)
        rw [← hparse, ← hunread]
        unfold TlsConn.unread
        rw [hnil, List.flatMap_nil, List.append_nil]
      obtain ⟨t', hfill, hsame', hunread', hchunks', hless⟩ :=
        fill_chunks hchunks hne "a record from the server"
      refine Action.ends_bind.mpr (Action.ends_of_some hfill ?_)
      exact ⟨⟨hsame.trans hsame', hunread'.trans hunread, hchunks'⟩, hless⟩
  obtain ⟨o, conn', hread, rfl, hsame, hunread, hchunks'⟩ := hends.comes
  exact ⟨conn', hread, hsame, hunread, hchunks'⟩

theorem readRecord_dry {conn : TlsConn} (hchunks : Chunks conn.arrivals) (hunread : conn.unread = []) :
    TlsConn.readRecord conn = some (.error (.timeout "a record from the server"), conn) := by
  obtain ⟨hinbuf, hrest⟩ := List.append_eq_nil_iff.mp hunread
  have harrivals : conn.arrivals = [] := by
    cases ha : conn.arrivals with
    | nil => rfl
    | cons arrival rest =>
      obtain ⟨chunk, harrival, hchunk⟩ := hchunks arrival (ha ▸ List.mem_cons_self)
      rw [ha, List.flatMap_cons, harrival] at hrest
      exact absurd (List.append_eq_nil_iff.mp hrest).1 hchunk
  obtain ⟨layer, inbuf, hsBuf, appBuf, arrivals, refusals, written, messages, handshakeIn⟩ := conn
  obtain rfl : inbuf = [] := hinbuf
  obtain rfl : arrivals = [] := harrivals
  rfl

/-! ## What is to come -/

inductive Frame where
  | handshake (version : UInt16) (fragment : Bytes)
  | changeCipherSpec (version : UInt16) (fragment : Bytes)

namespace Frame

def record : Frame → Record
  | .handshake version fragment => .built ContentType.handshake.asU8 version fragment
  | .changeCipherSpec version fragment => .built ContentType.changeCipherSpec.asU8 version fragment

/-- What it has of the messages. -/
def fragment : Frame → Bytes
  | .handshake _ fragment => fragment
  | .changeCipherSpec _ _ => []

def ccs : Frame → Option Record
  | .handshake _ _ => none
  | f => some f.record

end Frame

def wireOf (frames : List Frame) : Bytes := frames.flatMap fun f => f.record.raw

structure Holds (conn : TlsConn) (ms : List HandshakeMessage) (frames : List Frame) : Prop where
  clear : conn.layer.read = none
  app : conn.appBuf = []
  chunks : Chunks conn.arrivals
  stream : conn.unread = wireOf frames
  small : ∀ f ∈ frames, f.record.fragment.length < 65536
  whole : ∀ m ∈ ms, Whole m
  messages : conn.hsBuf ++ frames.flatMap Frame.fragment = ms.flatMap HandshakeMessage.raw

variable {conn : TlsConn} {ms : List HandshakeMessage} {frames : List Frame}

theorem Frame.parses (f : Frame) (h : f.record.fragment.length < 65536) (rest : Bytes) :
    Record.parse (f.record.raw ++ rest) = .ok (f.record, f.record.raw.length) := by
  cases f <;> exact parse_build _ _ h rest

theorem Holds.first (h : Holds conn ms frames) {m : HandshakeMessage} {used : Nat}
    (hparse : HandshakeMessage.parse conn.hsBuf = .ok (m, used)) :
    ∃ ms', ms = m :: ms' ∧ conn.hsBuf.drop used ++ frames.flatMap Frame.fragment = ms'.flatMap HandshakeMessage.raw := by
  obtain ⟨hm, hused⟩ := whole_of_parse hparse
  obtain ⟨-, hbuf, -, -⟩ := handshake_ok hparse
  have hmessages := h.messages
  rw [← hbuf, List.append_assoc] at hmessages
  cases ms with
  | nil => exact absurd (List.append_eq_nil_iff.mp hmessages).1 hm.ne_nil
  | cons m' ms' =>
    have hfirst := hm (conn.hsBuf.drop used ++ frames.flatMap Frame.fragment)
    rw [hmessages, List.flatMap_cons, h.whole m' List.mem_cons_self] at hfirst
    cases hfirst
    rw [List.flatMap_cons] at hmessages
    exact ⟨ms', rfl, List.append_cancel_left hmessages⟩

theorem Holds.last (h : Holds conn ms []) {e : TlsError} (hparse : HandshakeMessage.parse conn.hsBuf = .error e) :
    ms = [] := by
  have hmessages := h.messages
  rw [List.flatMap_nil, List.append_nil] at hmessages
  cases ms with
  | nil => rfl
  | cons m ms' =>
    rw [hmessages, List.flatMap_cons, h.whole m List.mem_cons_self] at hparse
    cases hparse

section variable [Crates]

/-- What a call gives, of what was to come. -/
def Given (ms : List HandshakeMessage) (frames : List Frame) : Except TlsError Incoming → TlsConn → Prop
  | .ok (.handshake m), conn => ∃ ms' frames', ms = m :: ms' ∧ frames'.filterMap Frame.ccs = frames.filterMap Frame.ccs ∧
      Holds conn ms' frames'
  | .ok (.changeCipherSpec r), conn => ∃ frames', frames.filterMap Frame.ccs = r :: frames'.filterMap Frame.ccs ∧
      Holds conn ms frames'
  | .ok _, _ => False
  | .error _, conn => ms = [] ∧ frames.filterMap Frame.ccs = [] ∧ conn.hsBuf = []

theorem nextMessageRound_reads (u : Unit) (hpop : TlsConn.popHandshake conn = some (.ok none, conn))
    (happ : conn.appBuf = []) : TlsConn.nextMessageRound u conn = (TlsConn.readRecord >>= TlsConn.takeRecord) conn := by
  unfold TlsConn.nextMessageRound
  rw [Action.bind_of_ok hpop]
  refine (Action.bind_of_ok (x := Action.get) (t := conn) rfl).trans ?_
  rw [happ]

theorem takeRecord_handshake {r : Record} (hclear : conn.layer.read = none) (hr : r.contentType = .handshake) :
    TlsConn.takeRecord r conn = some (.ok (.inl ()),
      { conn with hsBuf := conn.hsBuf ++ r.fragment, handshakeIn := conn.handshakeIn ++ r.fragment }) := by
  have hreading : conn.layer.readingEncrypted = false := by
    unfold RecordLayer.readingEncrypted
    rw [hclear]
    rfl
  unfold TlsConn.takeRecord
  rw [Action.bind_of_ok (x := Action.get) rfl, hr, hreading]
  rfl

theorem takeRecord_ccs (conn : TlsConn) {r : Record} (hr : r.contentType = .changeCipherSpec) :
    TlsConn.takeRecord r conn = some (.ok (.inr (.changeCipherSpec r)), conn) := by
  unfold TlsConn.takeRecord
  rw [Action.bind_of_ok (x := Action.get) rfl, hr]
  rfl

/-- **The next call** gives the next message or ChangeCipherSpec, and fails only when nothing is left. -/
theorem nextMessage_holds (h : Holds conn ms frames) :
    ∃ r conn', TlsConn.nextMessage conn = some (r, conn') ∧ Given ms frames r conn' := by
  refine Action.Ends.comes (Action.ends_forever
    (I := fun _ t => ∃ frames', Holds t ms frames' ∧ frames'.filterMap Frame.ccs = frames.filterMap Frame.ccs)
    ⟨frames, h, rfl⟩ fun _ t ht => ?_)
  obtain ⟨frames', h, hccs⟩ := ht
  have hpop := popHandshake_eq t
  cases hparse : HandshakeMessage.parse t.hsBuf with
  | ok popped =>
    obtain ⟨m, used⟩ := popped
    rw [hparse] at hpop
    obtain ⟨ms', rfl, hrest⟩ := h.first hparse
    unfold TlsConn.nextMessageRound
    refine Action.ends_bind.mpr (Action.ends_of_some hpop ?_)
    exact ⟨ms', frames', rfl, hccs, ⟨h.clear, h.app, h.chunks, h.stream, h.small,
      fun m' hm' => h.whole m' (List.mem_cons_of_mem m hm'), hrest⟩⟩
  | error e =>
    rw [hparse] at hpop
    rw [nextMessageRound_reads _ hpop h.app]
    cases frames' with
    | nil =>
      refine Action.ends_bind.mpr (Action.ends_of_some (readRecord_dry h.chunks h.stream) ?_)
      obtain rfl := h.last hparse
      exact ⟨rfl, hccs.symm, (List.append_eq_nil_iff.mp h.messages).1⟩
    | cons f frames' =>
      obtain ⟨hsmall, hsmalls⟩ := List.forall_mem_cons.mp h.small
      have hstream : t.unread = f.record.raw ++ wireOf frames' := h.stream.trans List.flatMap_cons
      have hfirst := f.parses hsmall (wireOf frames')
      rw [← hstream] at hfirst
      obtain ⟨t₁, hread, hsame, hunread, hchunks⟩ := readRecord_delivers h.chunks hfirst
      rw [hstream, List.drop_left] at hunread
      have hless : t₁.unframed < t.unframed := by
        have hrecord := (TlsConn.readRecord_ok hread).2
        omega
      refine Action.ends_bind.mpr (Action.ends_of_some hread ?_)
      show Action.Ends False (Action.Round _ TlsConn.unframed (Given ms frames) t.unframed)
        (TlsConn.takeRecord f.record t₁)
      unfold TlsConn.SameButSocket at hsame
      have hclear : t₁.layer.read = none := by rw [hsame, h.clear]
      have happ : t₁.appBuf = [] := by rw [hsame, h.app]
      have hbuf : t₁.hsBuf = t.hsBuf := by rw [hsame]
      have hmessages := h.messages
      rw [← hbuf, List.flatMap_cons, ← List.append_assoc] at hmessages
      cases f with
      | handshake version fragment =>
        refine Action.ends_of_some (takeRecord_handshake hclear rfl) ⟨⟨frames', ?_, hccs⟩, hless⟩
        exact ⟨hclear, happ, hchunks, hunread, hsmalls, h.whole, hmessages⟩
      | changeCipherSpec version fragment =>
        have htake := takeRecord_ccs t₁ (r := (Frame.changeCipherSpec version fragment).record) rfl
        refine Action.ends_of_some htake ?_
        show ∃ rest, frames.filterMap Frame.ccs = _ :: rest.filterMap Frame.ccs ∧ Holds t₁ ms rest
        refine ⟨frames', hccs.symm, ?_⟩
        rw [Frame.fragment, List.append_nil] at hmessages
        exact ⟨hclear, happ, hchunks, hunread, hsmalls, h.whole, hmessages⟩

/-! ## Repeated calls -/

/-- So many calls of `next_message`. -/
def nextMessages : Nat → Action TlsConn TlsError (List Incoming)
  | 0 => pure []
  | n + 1 => do
    let item ← TlsConn.nextMessage
    let rest ← nextMessages n
    pure (item :: rest)

def Incoming.message? : Incoming → Option HandshakeMessage
  | .handshake m => some m
  | _ => none

def Incoming.ccs? : Incoming → Option Record
  | .changeCipherSpec r => some r
  | _ => none

theorem nextMessages_holds {n : Nat} (h : Holds conn ms frames)
    (hn : n = ms.length + (frames.filterMap Frame.ccs).length) :
    ∃ items conn', nextMessages n conn = some (.ok items, conn') ∧ items.length = n ∧
      items.filterMap Incoming.message? = ms ∧ items.filterMap Incoming.ccs? = frames.filterMap Frame.ccs ∧
      ∃ rest, rest.filterMap Frame.ccs = [] ∧ Holds conn' [] rest := by
  induction n generalizing conn ms frames with
  | zero =>
    obtain rfl := List.eq_nil_of_length_eq_zero (l := ms) (by omega)
    have hccs := List.eq_nil_of_length_eq_zero (l := frames.filterMap Frame.ccs) (by omega)
    exact ⟨[], conn, rfl, rfl, rfl, hccs.symm, frames, hccs, h⟩
  | succ n ih =>
    obtain ⟨r, conn₁, hnext, hgiven⟩ := nextMessage_holds h
    have hrun {item : Incoming} {items : List Incoming} {conn' : TlsConn}
        (hnext : TlsConn.nextMessage conn = some (.ok item, conn₁))
        (hrest : nextMessages n conn₁ = some (.ok items, conn')) :
        nextMessages (n + 1) conn = some (.ok (item :: items), conn') :=
      Action.bind_ok.mpr ⟨_, _, hnext, Action.bind_ok.mpr ⟨_, _, hrest, rfl⟩⟩
    match r with
    | .ok (.handshake m) =>
      obtain ⟨ms', frames', rfl, hccs, h⟩ := hgiven
      obtain ⟨items, conn', hitems, hlength, hms, hrecords, hrest⟩ := ih h (by
        rw [List.length_cons] at hn
        rw [hccs]
        omega)
      refine ⟨_, conn', hrun hnext hitems, congrArg (· + 1) hlength, ?_, hrecords.trans hccs, hrest⟩
      exact congrArg (m :: ·) hms
    | .ok (.changeCipherSpec record) =>
      obtain ⟨frames', hccs, h⟩ := hgiven
      obtain ⟨items, conn', hitems, hlength, hms, hrecords, hrest⟩ := ih h (by
        rw [hccs, List.length_cons] at hn
        omega)
      refine ⟨_, conn', hrun hnext hitems, congrArg (· + 1) hlength, hms, ?_, hrest⟩
      exact (congrArg (record :: ·) hrecords).trans hccs.symm
    | .ok (.alert _) => exact hgiven.elim
    | .ok (.appData _) => exact hgiven.elim
    | .ok (.unexpected _) => exact hgiven.elim
    | .error e =>
      obtain ⟨rfl, hccs, -⟩ := hgiven
      rw [hccs] at hn
      simp at hn

def framed (m : HandshakeType × Bytes) : HandshakeMessage := ⟨m.1, m.2, encodeHandshake m.1 m.2⟩

/-- **Reassembly does not depend on framing**: messages that are cut into fragments, with ChangeCipherSpec records
between them, and come in chunks that are cut anywhere, are returned in order, each with its bytes, and with
one item for every ChangeCipherSpec. Nothing of a message is left, and nothing else is returned. -/
theorem reassembly {ms : List (HandshakeType × Bytes)} (hms : ∀ m ∈ ms, m.2.length < 16777216)
    {frames : List Frame} (hframes : ∀ f ∈ frames, f.record.fragment.length ≤ 65535)
    (hsplit : frames.flatMap Frame.fragment = ms.flatMap fun m => (framed m).raw)
    {chunks : List Bytes} (hne : ∀ chunk ∈ chunks, chunk ≠ []) (hchunks : chunks.flatten = wireOf frames)
    (refusals : List (Option String)) :
    ∃ items conn,
      nextMessages (ms.length + (frames.filterMap Frame.ccs).length) (.new (chunks.map .ok) refusals) =
        some (.ok items, conn) ∧
      items.length = ms.length + (frames.filterMap Frame.ccs).length ∧
      items.filterMap Incoming.message? = ms.map framed ∧
      items.filterMap Incoming.ccs? = frames.filterMap Frame.ccs ∧ conn.hsBuf = [] ∧
      ∃ e conn', TlsConn.nextMessage conn = some (.error e, conn') ∧ conn'.hsBuf = [] := by
  have hstart : Holds (.new (chunks.map .ok) refusals) (ms.map framed) frames := by
    refine ⟨rfl, rfl, ?_, ?_, fun f hf => Nat.lt_succ_of_le (hframes f hf), ?_, ?_⟩
    · intro a ha
      obtain ⟨chunk, hchunk, rfl⟩ := List.mem_map.mp ha
      exact ⟨chunk, rfl, hne chunk hchunk⟩
    · rw [← hchunks]
      show (chunks.map Except.ok).flatMap chunkOf = _
      rw [List.flatMap_map, ← List.flatMap_id]
      rfl
    · intro m hm
      obtain ⟨m, hmem, rfl⟩ := List.mem_map.mp hm
      exact whole_encoded m.1 (hms m hmem)
    · rw [List.flatMap_map]
      exact hsplit
  obtain ⟨items, conn, hitems, hlength, hmessages, hrecords, rest, hccs, hend⟩ :=
    nextMessages_holds hstart (n := ms.length + (frames.filterMap Frame.ccs).length) (by rw [List.length_map])
  have hempty : conn.hsBuf = [] := (List.append_eq_nil_iff.mp hend.messages).1
  refine ⟨items, conn, hitems, hlength, hmessages, hrecords, hempty, ?_⟩
  obtain ⟨r, conn', hnext, hgiven⟩ := nextMessage_holds hend
  match r with
  | .ok (.handshake m) =>
    obtain ⟨ms', frames', hnil, -⟩ := hgiven
    cases hnil
  | .ok (.changeCipherSpec record) =>
    obtain ⟨frames', hnil, -⟩ := hgiven
    rw [hccs] at hnil
    cases hnil
  | .ok (.alert _) => exact hgiven.elim
  | .ok (.appData _) => exact hgiven.elim
  | .ok (.unexpected _) => exact hgiven.elim
  | .error e => exact ⟨e, conn', hnext, hgiven.2.2⟩

end

/-! Two messages in three fragments, the second of them empty, with a ChangeCipherSpec in the first message. -/

def twoMessages : List (HandshakeType × Bytes) := [(.serverHello, [1, 2, 3]), (.finished, [])]

def fourFrames : List Frame :=
  [.handshake 0x0303 [2, 0, 0], .changeCipherSpec 0x0303 [1], .handshake 0x0303 [],
    .handshake 0x0303 [3, 1, 2, 3, 20, 0, 0, 0]]

/-- The stream, cut in a header and in a fragment. -/
def threeChunks : List Bytes :=
  [[22, 3, 3], [0, 3, 2, 0, 0, 20, 3, 3, 0, 1, 1, 22, 3, 3, 0, 0, 22, 3, 3, 0, 8, 3, 1], [2, 3, 20, 0, 0, 0]]

theorem reassembly_two_messages : ∃ items conn,
    @nextMessages sampleCrates 3 (.new (threeChunks.map .ok) []) = some (.ok items, conn) ∧
    items.length = 3 ∧
    items.filterMap Incoming.message? = twoMessages.map framed ∧
    items.filterMap Incoming.ccs? = fourFrames.filterMap Frame.ccs ∧ conn.hsBuf = [] ∧
    ∃ e conn', @TlsConn.nextMessage sampleCrates conn = some (.error e, conn') ∧ conn'.hsBuf = [] :=
  @reassembly sampleCrates twoMessages (by decide) fourFrames (by decide) (by decide) threeChunks (by decide)
    (by decide) []

end BuildYourOwn.Tls
