import BuildYourOwn.Tls.Messages
import BuildYourOwn.Tls.Record

/-!
# One TLS connection

Model of `tlstest/src/tls/conn.rs`: records out of TCP bytes, and handshake messages out of records.

* The socket is what is still to come of it: `arrivals` is what each further read gives, an empty chunk
  where the peer has closed, and `refusals` says of each further write whether it fails. Time is not
  modelled: a deadline that passes is a read that fails, and when nothing more arrives it has passed.
* `messages` and `handshakeIn` are history: the handshake messages that crossed the connection, in
  order, and the handshake bytes that came out of records. The source has a `trace` for this, for its
  reports; with `records_in`, `last_alert` and `server_closed` it is left out.

Results: what a record, a message and a write change (`readRecord_ok`, `nextMessage_ok`,
`writeHandshake_ok`), and the framing of what is received (`Framed`): the messages taken out so far are, one
after the other, the handshake bytes that came in, but for those that are still in `hsBuf`.
-/

namespace BuildYourOwn.Tls

open Lib
open Lib.Action (bind_get_ok bind_lift_ok bind_modify_ok bind_ok modify_ok pure_ok)

inductive Direction where
  | sent
  | received
deriving DecidableEq

/-- What came off the connection next. -/
inductive Incoming where
  | handshake (message : HandshakeMessage)
  | alert (a : Alert)
  | appData (data : Bytes)
  | changeCipherSpec (record : Record)
  | unexpected (record : Record)
deriving DecidableEq

structure TlsConn where
  layer : RecordLayer
  inbuf : Bytes
  hsBuf : Bytes
  appBuf : List Bytes
  arrivals : List (Except TlsError Bytes)
  refusals : List (Option String)
  written : Bytes
  messages : List (Direction × Bytes)
  handshakeIn : Bytes

namespace TlsConn

/-- `TlsConn::connect`, over a socket with this to come. -/
def new (arrivals : List (Except TlsError Bytes)) (refusals : List (Option String)) : TlsConn :=
  ⟨.new, [], [], [], arrivals, refusals, [], [], []⟩

/-- `write_all` and `flush`. -/
def writeAll (bytes : Bytes) : Action TlsConn TlsError Unit := do
  let c ← Action.get
  Action.modify fun c => { c with refusals := c.refusals.tail }
  match c.refusals.head?.join with
  | some text => Action.fail (.io text)
  | none => Action.modify fun c => { c with written := c.written ++ bytes }

def onLayer {α : Type} (x : Action RecordLayer TlsError α) : Action TlsConn TlsError α :=
  Action.onPart layer (fun layer c => { c with layer := layer }) x

def writeChangeCipherSpec : Action TlsConn TlsError Unit :=
  writeAll (Record.build ContentType.changeCipherSpec.asU8 legacyVersionTls12 [1])

def fill (what : String) : Action TlsConn TlsError Bool := do
  let c ← Action.get
  Action.modify fun c => { c with arrivals := c.arrivals.tail }
  match c.arrivals.head? with
  | none => Action.fail (.timeout what)
  | some (.error e) => Action.fail e
  | some (.ok []) => pure false
  | some (.ok chunk) => do
    Action.modify fun c => { c with inbuf := c.inbuf ++ chunk }
    pure true

/-- The bytes that have arrived or will, and that are in no record yet. -/
def unframed (c : TlsConn) : Nat :=
  c.inbuf.length + (c.arrivals.map fun | .ok chunk => chunk.length | .error _ => 0).sum

/-- The loop body of `read_record_within`. -/
def readRecordRound (_ : Unit) : Action TlsConn TlsError (Unit ⊕ Record) := do
  let c ← Action.get
  if 5 ≤ c.inbuf.length ∧
      5 + ofBigEndian [c.inbuf.getD 3 0, c.inbuf.getD 4 0] ≤ c.inbuf.length then do
    let (record, used) ← Action.lift (Record.parse c.inbuf)
    Action.modify fun c => { c with inbuf := c.inbuf.drop used }
    pure (.inr record)
  else do
    let more ← fill "a record from the server"
    Action.require more .closed
    pure (.inl ())

def readRecord : Action TlsConn TlsError Record :=
  Action.forever (fun c => c.arrivals.length) readRecordRound ()

def popHandshake : Action TlsConn TlsError (Option HandshakeMessage) := do
  let c ← Action.get
  if c.hsBuf.length < 4 then pure none
  else if c.hsBuf.length <
      4 + ofBigEndian [c.hsBuf.getD 1 0, c.hsBuf.getD 2 0, c.hsBuf.getD 3 0] then pure none
  else do
    let (message, used) ← Action.lift (HandshakeMessage.parse c.hsBuf)
    Action.modify fun c =>
      { c with hsBuf := c.hsBuf.drop used, messages := c.messages ++ [(.received, message.raw)] }
    pure (some message)

def receive (content : Bytes) : Action TlsConn TlsError Unit :=
  Action.modify fun c =>
    { c with hsBuf := c.hsBuf ++ content, handshakeIn := c.handshakeIn ++ content }

section variable [Crates]

def writeHandshake (message : Bytes) : Action TlsConn TlsError Unit := do
  let bytes ← onLayer (RecordLayer.seal .handshake message 0)
  writeAll bytes
  Action.modify fun c => { c with messages := c.messages ++ [(.sent, message)] }

/-- What `next_message_within` does with a record of type `ApplicationData`, when keys are in force. -/
def takeProtected (record : Record) : Action TlsConn TlsError (Unit ⊕ Incoming) := do
  let inner ← onLayer (RecordLayer.open record)
  match inner.contentType with
  | .handshake => do
    receive inner.content
    pure (.inl ())
  | .alert => do
    let alert ← Action.lift (Alert.parse inner.content)
    pure (.inr (.alert alert))
  | .applicationData => do
    Action.modify fun c => { c with appBuf := c.appBuf ++ [inner.content] }
    pure (.inl ())
  | _ => pure (.inr (.unexpected record))

/-- What `next_message_within` does with a record. -/
def takeRecord (record : Record) : Action TlsConn TlsError (Unit ⊕ Incoming) := do
  let c ← Action.get
  match record.contentType, c.layer.readingEncrypted with
  | .changeCipherSpec, _ => pure (.inr (.changeCipherSpec record))
  | .applicationData, true => takeProtected record
  | .handshake, false => do
    receive record.fragment
    pure (.inl ())
  | .alert, _ =>
    if record.fragment.length = 2 then do
      let alert ← Action.lift (Alert.parse record.fragment)
      pure (.inr (.alert alert))
    else pure (.inr (.unexpected record))
  | _, _ => pure (.inr (.unexpected record))

/-- The loop body of `next_message_within`. -/
def nextMessageRound (_ : Unit) : Action TlsConn TlsError (Unit ⊕ Incoming) := do
  match ← popHandshake with
  | some message => pure (.inr (.handshake message))
  | none => do
    let c ← Action.get
    match c.appBuf with
    | data :: rest => do
      Action.modify fun c => { c with appBuf := rest }
      pure (.inr (.appData data))
    | [] => do
      let record ← readRecord
      takeRecord record

def nextMessage : Action TlsConn TlsError Incoming := Action.forever unframed nextMessageRound ()

end

end TlsConn

/-! ## What is framed -/

theorem handshake_ok {bytes : Bytes} {m : HandshakeMessage} {used : Nat}
    (h : HandshakeMessage.parse bytes = .ok (m, used)) :
    m.raw = encodeHandshake m.msgType m.body ∧ m.raw ++ bytes.drop used = bytes ∧ 4 ≤ used ∧ used ≤ bytes.length := by
  unfold HandshakeMessage.parse at h
  split at h
  · rename_i t l₂ l₁ l₀ rest
    dsimp only at h
    split at h
    · cases h
    · rename_i hlength
      cases h
      have htaken : (rest.take (ofBigEndian [l₂, l₁, l₀])).length = ofBigEndian [l₂, l₁, l₀] :=
        List.length_take_of_le (Nat.not_lt.mp hlength)
      refine ⟨?_, ?_, by omega, ?_⟩
      · show (t :: l₂ :: l₁ :: l₀ :: rest).take (4 + _) = _
        unfold encodeHandshake u24Bytes
        rw [htaken, show (3 : Nat) = [l₂, l₁, l₀].length from rfl, bigEndian_ofBigEndian,
          Nat.add_comm 4]
        rfl
      · exact List.take_append_drop _ _
      · simp only [List.length_cons]
        omega
  · cases h

theorem record_ok {bytes : Bytes} {r : Record} {used : Nat}
    (h : Record.parse bytes = .ok (r, used)) : used = 5 + r.fragment.length ∧ used ≤ bytes.length := by
  unfold Record.parse at h
  split at h
  · dsimp only at h
    split at h
    · cases h
    · rename_i hlength
      cases h
      simp only [List.length_take, List.length_cons]
      omega
  · cases h

def receivedBytes (messages : List (Direction × Bytes)) : Bytes :=
  messages.flatMap fun m => match m with
    | (.received, bytes) => bytes
    | (.sent, _) => []

/-- What an item is, of the messages that cross. -/
def Incoming.crossed : Incoming → List (Direction × Bytes)
  | .handshake m => [(.received, m.raw)]
  | _ => []

theorem receivedBytes_append (a b : List (Direction × Bytes)) :
    receivedBytes (a ++ b) = receivedBytes a ++ receivedBytes b := List.flatMap_append

namespace TlsConn

/-- The messages received are the handshake bytes that came in, but for those in the buffer. -/
def Framed (c : TlsConn) : Prop := receivedBytes c.messages ++ c.hsBuf = c.handshakeIn

theorem framed_new (arrivals : List (Except TlsError Bytes)) (refusals : List (Option String)) :
    (new arrivals refusals).Framed := rfl

/-- What is still to be read: bytes in no record, handshake bytes in no message, application data. -/
def pending (c : TlsConn) : Nat := c.unframed + c.hsBuf.length + c.appBuf.length

/-! ## Reading records -/

variable {c c' : TlsConn}

def SameButSocket (c c' : TlsConn) : Prop :=
  c' = { c with inbuf := c'.inbuf, arrivals := c'.arrivals }

theorem SameButSocket.refl (c : TlsConn) : SameButSocket c c := rfl

theorem SameButSocket.trans {c₁ c₂ c₃ : TlsConn} (h : SameButSocket c₁ c₂) (h' : SameButSocket c₂ c₃) :
    SameButSocket c₁ c₃ := by
  unfold SameButSocket at *
  rw [h', h]

/-- **A read** of the socket: it fails, the peer has closed, or there is more in the buffer. -/
theorem fill_cases (what : String) (c : TlsConn) :
    (c.arrivals = [] ∧ fill what c = some (.error (.timeout what), { c with arrivals := [] })) ∨
    (∃ e rest, c.arrivals = .error e :: rest ∧ fill what c = some (.error e, { c with arrivals := rest })) ∨
    (∃ rest, c.arrivals = .ok [] :: rest ∧ fill what c = some (.ok false, { c with arrivals := rest })) ∨
    ∃ b chunk rest, c.arrivals = .ok (b :: chunk) :: rest ∧
      fill what c = some (.ok true, { c with inbuf := c.inbuf ++ (b :: chunk), arrivals := rest }) := by
  obtain ⟨layer, inbuf, hsBuf, appBuf, arrivals, refusals, written, messages, handshakeIn⟩ := c
  match arrivals with
  | [] => exact .inl ⟨rfl, rfl⟩
  | .error e :: rest => exact .inr (.inl ⟨e, rest, rfl, rfl⟩)
  | .ok [] :: rest => exact .inr (.inr (.inl ⟨rest, rfl, rfl⟩))
  | .ok (b :: chunk) :: rest => exact .inr (.inr (.inr ⟨b, chunk, rest, rfl, rfl⟩))

theorem fill_ok {what : String} (h : fill what c = some (.ok true, c')) :
    SameButSocket c c' ∧ c'.unframed = c.unframed ∧ c'.arrivals.length < c.arrivals.length := by
  obtain ⟨-, hfill⟩ | ⟨e, rest, -, hfill⟩ | ⟨rest, -, hfill⟩ | ⟨b, chunk, rest, harrivals, hfill⟩ := fill_cases what c
  · cases hfill.symm.trans h
  · cases hfill.symm.trans h
  · cases hfill.symm.trans h
  · cases hfill.symm.trans h
    refine ⟨rfl, ?_, ?_⟩
    · unfold unframed
      simp only [harrivals, List.map_cons, List.sum_cons, List.length_append]
      omega
    · simp only [harrivals, List.length_cons]
      omega

theorem readRecordRound_again {u v : Unit} (h : readRecordRound u c = some (.ok (.inl v), c')) :
    SameButSocket c c' ∧ c'.unframed = c.unframed ∧ c'.arrivals.length < c.arrivals.length := by
  unfold readRecordRound at h
  replace h := bind_get_ok.mp h
  split at h
  · obtain ⟨_, _, -, h⟩ := bind_ok.mp h
    obtain ⟨_, _, -, h⟩ := bind_ok.mp h
    exact absurd (pure_ok.mp h).1 (by intro h; cases h)
  · obtain ⟨more, _, hfill, h⟩ := bind_ok.mp h
    obtain ⟨hmore, h⟩ := Action.bind_require_ok.mp h
    obtain ⟨-, rfl⟩ := pure_ok.mp h
    cases more with
    | false => cases hmore
    | true => exact fill_ok hfill

variable {r : Record}

theorem readRecordRound_done {u : Unit} (h : readRecordRound u c = some (.ok (.inr r), c')) :
    SameButSocket c c' ∧ c'.unframed + (5 + r.fragment.length) = c.unframed := by
  unfold readRecordRound at h
  replace h := bind_get_ok.mp h
  split at h
  · obtain ⟨⟨record, used⟩, hparse, h⟩ := bind_lift_ok.mp h
    replace h := bind_modify_ok.mp h
    obtain ⟨hr, rfl⟩ := pure_ok.mp h
    cases hr
    obtain ⟨rfl, hle⟩ := record_ok hparse
    refine ⟨rfl, ?_⟩
    unfold unframed
    simp only [List.length_drop]
    omega
  · obtain ⟨_, _, -, h⟩ := bind_ok.mp h
    obtain ⟨_, _, -, h⟩ := bind_ok.mp h
    exact absurd (pure_ok.mp h).1 (by intro h; cases h)

theorem readRecord_runs {r : Except TlsError Record} :
    readRecord c = some (r, c') ↔ Action.Repeats readRecordRound () c r c' :=
  Action.forever_some fun _ _ _ _ hround => (readRecordRound_again hround).2.2

/-- **A record** is taken out of the bytes that arrive, and nothing else is touched. -/
theorem readRecord_ok (h : readRecord c = some (.ok r, c')) :
    SameButSocket c c' ∧ c'.unframed + (5 + r.fragment.length) = c.unframed := by
  obtain ⟨_, t, ⟨hsame, hunframed⟩, hlast⟩ :=
    (readRecord_runs.mp h).invariant (fun _ t => SameButSocket c t ∧ t.unframed = c.unframed)
      (fun _ t _ t' ht hround => by
        obtain ⟨hsame, hunframed, -⟩ := readRecordRound_again hround
        exact ⟨ht.1.trans hsame, hunframed.trans ht.2⟩) ⟨.refl c, rfl⟩
  obtain ⟨hsame', hless⟩ := readRecordRound_done hlast
  exact ⟨hsame.trans hsame', hless.trans hunframed⟩

/-! ## Reading messages -/

theorem popHandshake_ok {o : Option HandshakeMessage} (h : popHandshake c = some (.ok o, c')) :
    match o with
    | none => c' = c
    | some m => m.raw = encodeHandshake m.msgType m.body ∧ m.raw ++ c'.hsBuf = c.hsBuf ∧
        c'.hsBuf.length < c.hsBuf.length ∧
        c' = { c with hsBuf := c'.hsBuf, messages := c.messages ++ [(.received, m.raw)] } := by
  unfold popHandshake at h
  replace h := bind_get_ok.mp h
  split at h
  · obtain ⟨rfl, rfl⟩ := pure_ok.mp h
    rfl
  · split at h
    · obtain ⟨rfl, rfl⟩ := pure_ok.mp h
      rfl
    · obtain ⟨⟨m, used⟩, hparse, h⟩ := bind_lift_ok.mp h
      replace h := bind_modify_ok.mp h
      obtain ⟨rfl, rfl⟩ := pure_ok.mp h
      obtain ⟨hraw, hbytes, hused, hle⟩ := handshake_ok hparse
      refine ⟨hraw, hbytes, ?_, rfl⟩
      simp only [List.length_drop]
      omega

structure Kept (r : Record) (c c' : TlsConn) : Prop where
  messages : c'.messages = c.messages
  unframed : c'.unframed = c.unframed
  held : c'.hsBuf.length + c'.appBuf.length < c.hsBuf.length + c.appBuf.length + (5 + r.fragment.length)
  framed : c.Framed → c'.Framed

theorem kept_receive {content : Bytes} {layer : RecordLayer} (h : content.length ≤ r.fragment.length) :
    Kept r c { c with layer := layer, hsBuf := c.hsBuf ++ content,
                      handshakeIn := c.handshakeIn ++ content } where
  messages := rfl
  unframed := rfl
  held := by
    simp only [List.length_append]
    omega
  framed hframed := by
    unfold Framed at *
    rw [← hframed, List.append_assoc]

theorem kept_layer {layer : RecordLayer} : Kept r c { c with layer := layer } where
  messages := rfl
  unframed := rfl
  held := by
    show c.hsBuf.length + c.appBuf.length < _
    omega
  framed hframed := hframed

section variable [Crates]

variable {r : Record}

theorem open_shorter {l l' : RecordLayer} {inner : InnerPlaintext} (h : RecordLayer.open r l = some (.ok inner, l')) :
    inner.content.length + 16 ≤ r.fragment.length := by
  obtain ⟨keys, nonce, plain, -, -, -, hopen, -, hparse, -⟩ := open_ok.mp h
  have hplain : plain.length + 16 = r.fragment.length := by
    unfold AeadAlg.open AeadAlg.keyed at hopen
    split at hopen
    · cases hopen
    · split at hopen
      · cases hopen
      · split at hopen
        · rename_i out _
          cases hopen
          exact out.property
        · cases hopen
  unfold InnerPlaintext.parse at hparse
  split at hparse
  · cases hparse
  · cases hparse
    simp only [List.length_take]
    omega

variable {o : Unit ⊕ Incoming}

theorem takeProtected_ok (h : takeProtected r c = some (.ok o, c')) : Kept r c c' ∧ ∀ m, o ≠ .inr (.handshake m) := by
  unfold takeProtected onLayer at h
  obtain ⟨inner, _, hpart, h⟩ := bind_ok.mp h
  obtain ⟨layer, hopen, rfl⟩ := Action.onPart_ok.mp hpart
  have hshort := open_shorter hopen
  cases htype : inner.contentType with
  | handshake =>
    rw [htype] at h
    replace h := bind_modify_ok.mp h
    obtain ⟨rfl, rfl⟩ := pure_ok.mp h
    exact ⟨kept_receive (by omega), fun m h => by cases h⟩
  | alert =>
    rw [htype] at h
    obtain ⟨a, -, h⟩ := bind_lift_ok.mp h
    obtain ⟨rfl, rfl⟩ := pure_ok.mp h
    exact ⟨kept_layer, fun m h => by cases h⟩
  | applicationData =>
    rw [htype] at h
    replace h := bind_modify_ok.mp h
    obtain ⟨rfl, rfl⟩ := pure_ok.mp h
    refine ⟨⟨rfl, rfl, ?_, fun hframed => hframed⟩, fun m h => by cases h⟩
    simp only [List.length_append, List.length_singleton]
    omega
  | changeCipherSpec =>
    rw [htype] at h
    obtain ⟨rfl, rfl⟩ := pure_ok.mp h
    exact ⟨kept_layer, fun m h => by cases h⟩
  | other b =>
    rw [htype] at h
    obtain ⟨rfl, rfl⟩ := pure_ok.mp h
    exact ⟨kept_layer, fun m h => by cases h⟩

/-- **A record** gives an item that is no handshake message, or its content is held back. -/
theorem takeRecord_ok (h : takeRecord r c = some (.ok o, c')) : Kept r c c' ∧ ∀ m, o ≠ .inr (.handshake m) := by
  unfold takeRecord at h
  replace h := bind_get_ok.mp h
  have hitem {i : Incoming} (hi : ∀ m, i ≠ .handshake m)
      (h : (pure (.inr i) : Action TlsConn TlsError (Unit ⊕ Incoming)) c = some (.ok o, c')) :
      Kept r c c' ∧ ∀ m, o ≠ .inr (.handshake m) := by
    obtain ⟨rfl, rfl⟩ := pure_ok.mp h
    exact ⟨kept_layer, fun m h => hi m (Sum.inr.inj h)⟩
  cases htype : r.contentType with
  | changeCipherSpec =>
    rw [htype] at h
    exact hitem (fun m h => by cases h) h
  | applicationData =>
    cases hreading : c.layer.readingEncrypted with
    | true =>
      rw [htype, hreading] at h
      exact takeProtected_ok h
    | false =>
      rw [htype, hreading] at h
      exact hitem (fun m h => by cases h) h
  | handshake =>
    cases hreading : c.layer.readingEncrypted with
    | true =>
      rw [htype, hreading] at h
      exact hitem (fun m h => by cases h) h
    | false =>
      rw [htype, hreading] at h
      replace h := bind_modify_ok.mp h
      obtain ⟨rfl, rfl⟩ := pure_ok.mp h
      exact ⟨kept_receive (Nat.le_refl _), fun m h => by cases h⟩
  | alert =>
    rw [htype] at h
    dsimp only at h
    split at h
    · obtain ⟨a, -, h⟩ := bind_lift_ok.mp h
      exact hitem (fun m h => by cases h) h
    · exact hitem (fun m h => by cases h) h
  | other b =>
    rw [htype] at h
    exact hitem (fun m h => by cases h) h

/-- What the next item changes. -/
structure Took (c : TlsConn) (i : Incoming) (c' : TlsConn) : Prop where
  messages : c'.messages = c.messages ++ i.crossed
  fewer : c'.pending < c.pending
  framed : c.Framed → c'.Framed
  whole : ∀ m, i = .handshake m → m.raw = encodeHandshake m.msgType m.body

variable {u : Unit}

/-- What a round of `next_message_within` can be. -/
theorem nextMessageRound_cases (hround : nextMessageRound u c = some (.ok o, c')) :
    (∃ m, popHandshake c = some (.ok (some m), c') ∧ o = .inr (.handshake m)) ∨
    (∃ data rest, c.appBuf = data :: rest ∧ c' = { c with appBuf := rest } ∧ o = .inr (.appData data)) ∨
    ∃ r c₁, readRecord c = some (.ok r, c₁) ∧ takeRecord r c₁ = some (.ok o, c') := by
  unfold nextMessageRound at hround
  obtain ⟨popped, t, hpop, hrest⟩ := bind_ok.mp hround
  match popped with
  | some m =>
    obtain ⟨rfl, rfl⟩ := pure_ok.mp hrest
    exact .inl ⟨m, hpop, rfl⟩
  | none =>
    obtain rfl : t = c := popHandshake_ok hpop
    have happ := bind_get_ok.mp hrest
    cases hbuf : t.appBuf with
    | cons data rest =>
      rw [hbuf] at happ
      have hpure := bind_modify_ok.mp happ
      obtain ⟨rfl, rfl⟩ := pure_ok.mp hpure
      exact .inr (.inl ⟨data, rest, rfl, rfl, rfl⟩)
    | nil =>
      rw [hbuf] at happ
      obtain ⟨r, c₁, hread, hrecord⟩ := bind_ok.mp happ
      exact .inr (.inr ⟨r, c₁, hread, hrecord⟩)

theorem record_kept {c₁ : TlsConn}
    (hread : readRecord c = some (.ok r, c₁)) (hrecord : takeRecord r c₁ = some (.ok o, c')) :
    c'.messages = c.messages ∧ c'.unframed < c.unframed ∧ c'.pending < c.pending ∧ (c.Framed → c'.Framed) := by
  obtain ⟨hsame, hless⟩ := readRecord_ok hread
  obtain ⟨hkept, -⟩ := takeRecord_ok hrecord
  have hheld := hkept.held
  have hunframed := hkept.unframed
  have hmessages := hkept.messages
  have hframed := hkept.framed
  unfold SameButSocket at hsame
  rw [hsame] at hheld hmessages hframed
  refine ⟨hmessages, by omega, ?_, hframed⟩
  unfold pending
  dsimp only at hheld
  omega

theorem nextMessageRound_again {u v : Unit} (hround : nextMessageRound u c = some (.ok (.inl v), c')) :
    c'.messages = c.messages ∧ c'.unframed < c.unframed ∧ c'.pending < c.pending ∧ (c.Framed → c'.Framed) := by
  obtain ⟨m, -, ho⟩ | ⟨_, _, -, -, ho⟩ | ⟨r, c₁, hread, hrecord⟩ := nextMessageRound_cases hround
  · cases ho
  · cases ho
  · exact record_kept hread hrecord

theorem nextMessageRound_done {i : Incoming}
    (hround : nextMessageRound u c = some (.ok (.inr i), c')) : Took c i c' := by
  obtain ⟨m, hpop, ho⟩ | ⟨data, rest, hbuf, rfl, ho⟩ | ⟨r, c₁, hread, hrecord⟩ :=
    nextMessageRound_cases hround
  · cases ho
    obtain ⟨hraw, hbytes, hless, hc'⟩ := popHandshake_ok hpop
    have hmessages := congrArg TlsConn.messages hc'
    refine ⟨hmessages, ?_, fun hframed => ?_, fun m' h => ?_⟩
    · rw [hc']
      show c.unframed + c'.hsBuf.length + c.appBuf.length < c.unframed + c.hsBuf.length + c.appBuf.length
      omega
    · have hin : c'.handshakeIn = c.handshakeIn := by rw [hc']
      unfold Framed at *
      rw [hin, ← hframed, ← hbytes, hmessages, receivedBytes_append]
      simp only [receivedBytes, List.flatMap_cons, List.flatMap_nil, List.append_nil, List.append_assoc]
    · cases h
      exact hraw
  · cases ho
    refine ⟨(List.append_nil _).symm, ?_, fun hframed => hframed, fun m h => by cases h⟩
    unfold pending
    simp only [hbuf, List.length_cons]
    show c.unframed + _ + _ < _
    omega
  · obtain ⟨hmessages, -, hfewer, hframed⟩ := record_kept hread hrecord
    obtain ⟨-, hitem⟩ := takeRecord_ok hrecord
    have hcrossed : i.crossed = [] := by
      cases i with
      | handshake m => exact absurd rfl (hitem m)
      | _ => rfl
    refine ⟨?_, hfewer, hframed, fun m h => absurd (congrArg Sum.inr h) (hitem m)⟩
    rw [hcrossed, hmessages, List.append_nil]

theorem nextMessage_runs {r : Except TlsError Incoming} :
    nextMessage c = some (r, c') ↔ Action.Repeats nextMessageRound () c r c' :=
  Action.forever_some fun _ _ _ _ hround => (nextMessageRound_again hround).2.1

/-- **The next item**: a message that is framed as it came in, or something that is no handshake message;
either way there is less to be read. -/
theorem nextMessage_ok {i : Incoming} (h : nextMessage c = some (.ok i, c')) : Took c i c' := by
  obtain ⟨_, t, ⟨hmessages, hpending, hframed⟩, hlast⟩ :=
    (nextMessage_runs.mp h).invariant
      (fun _ t => t.messages = c.messages ∧ t.pending ≤ c.pending ∧ (c.Framed → t.Framed))
      (fun _ t _ t' ht hround => by
        obtain ⟨hm, -, hp, hf⟩ := nextMessageRound_again hround
        exact ⟨hm.trans ht.1, by omega, fun h => hf (ht.2.2 h)⟩) ⟨rfl, Nat.le_refl _, id⟩
  have htook := nextMessageRound_done hlast
  exact ⟨by rw [htook.messages, hmessages], Nat.lt_of_lt_of_le htook.fewer hpending,
    fun h => htook.framed (hframed h), htook.whole⟩

/-! ## Writing -/

omit [Crates] in
theorem writeAll_ok {bytes : Bytes} (h : writeAll bytes c = some (.ok u, c')) :
    c' = { c with refusals := c'.refusals, written := c.written ++ bytes } := by
  unfold writeAll at h
  replace h := bind_get_ok.mp h
  replace h := bind_modify_ok.mp h
  cases hrefused : c.refusals.head?.join with
  | some text =>
    rw [hrefused] at h
    exact (Action.fail_ok.mp h).elim
  | none =>
    rw [hrefused] at h
    obtain rfl := modify_ok.mp h
    rfl

theorem writeHandshake_ok {message : Bytes} (h : writeHandshake message c = some (.ok u, c')) :
    c'.messages = c.messages ++ [(.sent, message)] ∧ (c.Framed → c'.Framed) := by
  unfold writeHandshake onLayer at h
  obtain ⟨bytes, _, hseal, h⟩ := bind_ok.mp h
  obtain ⟨layer, -, rfl⟩ := Action.onPart_ok.mp hseal
  obtain ⟨_, t, hwrite, h⟩ := bind_ok.mp h
  obtain rfl := modify_ok.mp h
  have ht := writeAll_ok hwrite
  have hmessages : t.messages = c.messages := by rw [ht]
  have hbuf : t.hsBuf = c.hsBuf := by rw [ht]
  have hin : t.handshakeIn = c.handshakeIn := by rw [ht]
  refine ⟨congrArg (· ++ _) hmessages, fun hframed => ?_⟩
  unfold Framed at *
  rw [receivedBytes_append, hmessages, hbuf, hin]
  exact (congrArg (· ++ c.hsBuf) (List.append_nil _)).trans hframed

omit [Crates] in
theorem writeChangeCipherSpec_ok (h : writeChangeCipherSpec c = some (.ok u, c')) :
    c'.messages = c.messages ∧ (c.Framed → c'.Framed) := by
  have hc' := writeAll_ok h
  refine ⟨by rw [hc'], fun hframed => ?_⟩
  rw [hc']
  exact hframed

end

end TlsConn

end BuildYourOwn.Tls
