import BuildYourOwn.Lib.Contract
import BuildYourOwn.Tls.Codecs
import BuildYourOwn.Tls.PostHandshake
import BuildYourOwn.Tls.Sealing

/-!
# A connection behind the server

What a connection has taken of what the server said is what the server had said at some earlier time. `Sends` is
the stream from then to now, and `Said` the messages that have come and are still in the buffer: they are between
the epoch the connection reads in and the one the server wrote in then.
-/

namespace BuildYourOwn.Tls

open Lib
open Lib.Action (bind_get_ok bind_lift_ok bind_ok ends_bind ends_of_some keeps_bind keeps_get
  keeps_lift keeps_modify keeps_orStop keeps_pure modify_ok pure_ok)

/-! ## Messages in a buffer -/

/-- The message parses off the front, whatever is behind it. -/
def Whole (m : HandshakeMessage) : Prop :=
  ∀ rest, HandshakeMessage.parse (m.raw ++ rest) = .ok (m, m.raw.length)

/-- There is no whole message at the front. -/
def Begun (bytes : Bytes) : Prop := ∀ m used, HandshakeMessage.parse bytes ≠ .ok (m, used)

theorem begun_nil : Begun [] := fun _ _ h => by cases h

theorem length_encodeHandshake (t : HandshakeType) (body : Bytes) :
    (encodeHandshake t body).length = 4 + body.length := by
  unfold encodeHandshake u24Bytes
  simp only [List.length_append, List.length_cons, length_bigEndian]

theorem whole_encoded (t : HandshakeType) {body : Bytes} (h : body.length < 16777216) :
    Whole ⟨t, body, encodeHandshake t body⟩ := by
  intro rest
  rw [length_encodeHandshake]
  exact handshake_parse t h rest

variable {m : HandshakeMessage}

theorem whole_of_parse {bytes : Bytes} {used : Nat}
    (h : HandshakeMessage.parse bytes = .ok (m, used)) : Whole m ∧ used = m.raw.length := by
  obtain ⟨hraw, -, -, -⟩ := handshake_ok h
  obtain ⟨hbody, hused⟩ : m.body.length < 16777216 ∧ used = 4 + m.body.length := by
    unfold HandshakeMessage.parse at h
    split at h
    · rename_i t l₂ l₁ l₀ rest
      dsimp only at h
      split at h
      · cases h
      · rename_i hlength
        cases h
        have hsmall := ofBigEndian_lt [l₂, l₁, l₀]
        simp only [List.length_cons, List.length_nil] at hsmall
        rw [List.length_take_of_le (Nat.not_lt.mp hlength)]
        exact ⟨hsmall, rfl⟩
    · cases h
  obtain ⟨t, body, raw⟩ := m
  obtain rfl : raw = encodeHandshake t body := hraw
  exact ⟨whole_encoded t hbody, hused.trans (length_encodeHandshake t body).symm⟩

theorem messagesIn_spec (bytes : Bytes) :
    (messagesIn bytes).1.flatMap HandshakeMessage.raw ++ (messagesIn bytes).2 = bytes ∧
      (∀ m ∈ (messagesIn bytes).1, Whole m) ∧ Begun (messagesIn bytes).2 := by
  have hspec (n : Nat) : ∀ bytes : Bytes, bytes.length ≤ n →
      (takeMessages n bytes).1.flatMap HandshakeMessage.raw ++ (takeMessages n bytes).2 = bytes ∧
        (∀ m ∈ (takeMessages n bytes).1, Whole m) ∧ Begun (takeMessages n bytes).2 := by
    induction n with
    | zero =>
      intro bytes hn
      obtain rfl := List.eq_nil_of_length_eq_zero (Nat.le_zero.mp hn)
      exact ⟨rfl, List.forall_mem_nil _, begun_nil⟩
    | succ n ih =>
      intro bytes hn
      unfold takeMessages
      cases hparse : HandshakeMessage.parse bytes with
      | error e =>
        refine ⟨rfl, List.forall_mem_nil _, fun m used h => ?_⟩
        rw [hparse] at h
        cases h
      | ok r =>
        obtain ⟨m, used⟩ := r
        obtain ⟨-, hbytes, hused, -⟩ := handshake_ok hparse
        obtain ⟨hsplit, hwhole, hbegun⟩ := ih (bytes.drop used) (by rw [List.length_drop]; omega)
        refine ⟨?_, ?_, hbegun⟩
        · simp only [List.flatMap_cons, List.append_assoc]
          rw [hsplit]
          exact hbytes
        · intro m' hm'
          obtain rfl | hm' := List.mem_cons.mp hm'
          · exact (whole_of_parse hparse).1
          · exact hwhole m' hm'
  exact hspec _ bytes (Nat.le_refl _)

theorem Whole.ne_nil (hm : Whole m) : m.raw ≠ [] := by
  intro hnil
  have hparse := hm []
  rw [hnil] at hparse
  cases hparse

theorem messagesIn_first (hm : Whole m) (rest : Bytes) :
    messagesIn (m.raw ++ rest) = (m :: (takeMessages (m.raw.length - 1 + rest.length) rest).1,
      (takeMessages (m.raw.length - 1 + rest.length) rest).2) := by
  obtain ⟨b, bytes, hraw⟩ := List.exists_cons_of_ne_nil hm.ne_nil
  have hlength : (m.raw ++ rest).length = m.raw.length - 1 + rest.length + 1 := by
    rw [hraw]
    simp only [List.cons_append, List.length_cons, List.length_append]
    omega
  have hfirst (n : Nat) : takeMessages (n + 1) (m.raw ++ rest) =
      (m :: (takeMessages n rest).1, (takeMessages n rest).2) := by
    rw [takeMessages, hm rest]
    dsimp only
    rw [List.drop_left]
  exact (congrArg (takeMessages · (m.raw ++ rest)) hlength).trans (hfirst _)

theorem messagesIn_whole (hm : Whole m) : messagesIn m.raw = ([m], []) := by
  have hnil (n : Nat) : takeMessages n [] = ([], []) := by
    cases n <;> rfl
  have hfirst := messagesIn_first hm []
  rw [List.append_nil, hnil] at hfirst
  exact hfirst

/-! ## Messages that were said -/

/-- A generation of keys in use, and how many records there were under it. -/
structure Epoch where
  keys : TrafficKeys
  seq : UInt64

section variable [Crates]

inductive Said : List HandshakeMessage → Epoch → List NewSessionTicket → Epoch → List NewSessionTicket → Prop
  | nil {g : Epoch} {ts : List NewSessionTicket} : Said [] g ts g ts
  | ticket {m : HandshakeMessage} {ms : List HandshakeMessage} {g g' : Epoch} {ts ts' : List NewSessionTicket}
      {t : NewSessionTicket} (htype : m.msgType = .newSessionTicket)
      (hparse : NewSessionTicket.parse m.body = .ok t) (hrest : Said ms g (ts ++ [t]) g' ts') :
      Said (m :: ms) g ts g' ts'
  | update {m : HandshakeMessage} {ms : List HandshakeMessage} {g g' : Epoch} {ts ts' : List NewSessionTicket}
      {u : KeyUpdate} {keys : TrafficKeys} (htype : m.msgType = .keyUpdate)
      (hparse : KeyUpdate.parse m.body = .ok u) (hkeys : g.keys.updated = .ok keys)
      (hrest : Said ms ⟨keys, 0⟩ ts g' ts') : Said (m :: ms) g ts g' ts'

def Server.WritesIn (s : Server) (g : Epoch) : Prop :=
  s.layer.write = some g.keys ∧ s.layer.writeSeq = g.seq

variable {s s' : Server}

theorem rekeyWrite_ok {u : Unit} (h : s.rekeyWrite = some (.ok u, s')) :
    ∃ current keys, s.layer.write = some current ∧ current.updated = .ok keys ∧
      s' = { s with layer := s.layer.setWrite keys } := by
  unfold Server.rekeyWrite at h
  replace h := bind_get_ok.mp h
  obtain ⟨current, hcurrent, h⟩ := Action.bind_demand_ok.mp h
  obtain ⟨keys, hkeys, h⟩ := bind_lift_ok.mp h
  obtain rfl := modify_ok.mp h
  exact ⟨current, keys, hcurrent, hkeys, rfl⟩

variable {ms : List HandshakeMessage}

theorem saidAll_ok {u : Unit} {g : Epoch} (hg : s.WritesIn g) (h : Server.saidAll ms s = some (.ok u, s')) :
    ∃ g', s'.WritesIn g' ∧ Said ms g s.sentTickets g' s'.sentTickets ∧ s'.begun = s.begun ∧ s'.sentApp = s.sentApp := by
  induction ms generalizing s g with
  | nil =>
    obtain ⟨-, rfl⟩ := pure_ok.mp h
    exact ⟨g, hg, .nil, rfl, rfl⟩
  | cons m ms ih =>
    obtain ⟨_, s₁, hsaid, h⟩ := bind_ok.mp h
    unfold Server.said at hsaid
    split at hsaid
    · rename_i htype
      obtain ⟨t, hparse, hsaid⟩ := bind_lift_ok.mp hsaid
      obtain rfl := modify_ok.mp hsaid
      obtain ⟨g', hg', hrest, hbegun, happ⟩ :=
        ih (s := { s with sentTickets := s.sentTickets ++ [t] }) hg h
      exact ⟨g', hg', .ticket htype hparse hrest, hbegun, happ⟩
    · split at hsaid
      · rename_i htype
        obtain ⟨update, hparse, hsaid⟩ := bind_lift_ok.mp hsaid
        obtain ⟨current, keys, hcurrent, hkeys, rfl⟩ := rekeyWrite_ok hsaid
        obtain rfl : g.keys = current := Option.mem_unique hg.1 hcurrent
        obtain ⟨g', hg', hrest, hbegun, happ⟩ := ih (g := ⟨keys, 0⟩) ⟨rfl, rfl⟩ h
        exact ⟨g', hg', .update htype hparse hkeys hrest, hbegun, happ⟩
      · exact (Action.fail_ok.mp hsaid).elim

/-! ## One record -/

inductive SealError : TlsError → Prop
  | long (n : Nat) : SealError (.record
      s!"a protected record would be {n} bytes, more than the {maxCiphertext} limit")
  | key (alg : AeadAlg) : SealError (.crypto s!"{alg.name} needs a {alg.keyLen}-byte key")
  | failed (alg : AeadAlg) : SealError (.crypto s!"{alg.name} sealing failed")

theorem seal_failsAs (t : ContentType) (content : Bytes) (padding : Nat) :
    Action.FailsAs SealError (RecordLayer.seal t content padding) := by
  refine Action.failsAs_bind Action.failsAs_get fun l _ _ _ => ?_
  cases l.write with
  | none => exact Action.failsAs_pure
  | some keys =>
    refine Action.failsAs_bind (Action.failsAs_require (.long _)) fun _ _ _ _ => ?_
    refine Action.failsAs_bind Action.failsAs_orStop fun nonce _ _ _ => ?_
    refine Action.failsAs_bind Action.failsAs_orStop fun outcome _ _ houtcome => ?_
    refine Action.failsAs_bind (Action.failsAs_lift ?_) fun _ _ _ _ =>
      Action.failsAs_bind Action.failsAs_orStop fun _ _ _ _ =>
        Action.failsAs_bind Action.failsAs_modify fun _ _ _ _ => Action.failsAs_pure
    have hseal := (Action.orStop_ok.mp houtcome).1
    unfold AeadAlg.seal AeadAlg.keyed at hseal
    split at hseal
    · rintro e rfl
      cases hseal
      exact .key _
    · split at hseal
      · cases hseal
      · rintro e rfl
        split at hseal
        · cases hseal
        · cases hseal
          exact .failed _

inductive OpenError : TlsError → Prop
  | keys : OpenError (.record "cannot open a record: no read keys are in force yet")
  | aead (m : String) (seq : UInt64) (nonce : Bytes) : OpenError (sayWhere seq nonce (.crypto m))
  | inner : OpenError (.record ("the decrypted record is all zeros: TLSInnerPlaintext has no content type byte " ++
      "(RFC 8446 section 5.4)"))

theorem open_failsAs (record : Record) : Action.FailsAs OpenError (RecordLayer.open record) := by
  refine Action.failsAs_bind Action.failsAs_get fun l _ _ _ => ?_
  refine Action.failsAs_bind (Action.failsAs_demand .keys) fun keys _ _ _ => ?_
  refine Action.failsAs_bind Action.failsAs_orStop fun nonce _ _ _ => ?_
  refine Action.failsAs_bind Action.failsAs_orStop fun outcome _ _ houtcome => ?_
  refine Action.failsAs_bind (Action.failsAs_lift ?_) fun plain _ _ _ =>
    Action.failsAs_bind Action.failsAs_orStop fun _ _ _ _ =>
      Action.failsAs_bind Action.failsAs_modify fun _ _ _ _ => Action.failsAs_lift ?_
  · have hopen := (Action.orStop_ok.mp houtcome).1
    unfold AeadAlg.open AeadAlg.keyed at hopen
    intro e he
    split at hopen
    · cases hopen
      cases he
      exact .aead _ _ _
    · split at hopen
      · cases hopen
      · split at hopen
        · cases hopen
          cases he
        · cases hopen
          cases he
          exact .aead _ _ _
  · intro e he
    unfold InnerPlaintext.parse at he
    split at he
    · cases he
      exact .inner
    · cases he

omit [Crates] in
theorem SealError.not_open {e : TlsError} (h : SealError e) : ¬OpenError e := by
  intro h'
  -- an AEAD that refuses a record says where in the stream that was
  have hsaid (m : String) (seq : UInt64) (nonce : Bytes) :
      '—' ∈ (s!"{m} — read sequence number {seq}, nonce {hex nonce}").toList := by
    simp [String.toList_append, toString]
  have htext {m text : String} {seq : UInt64} {nonce : Bytes} (ht : '—' ∉ text.toList) :
    TlsError.crypto text ≠ sayWhere seq nonce (.crypto m) := by
    intro heq
    injection heq with heq
    exact ht (heq ▸ hsaid m seq nonce)
  cases h with
  | long n =>
    generalize hlong : TlsError.record
      s!"a protected record would be {n} bytes, more than the {maxCiphertext} limit" = e at h'
    have hfirst : ∀ text, e = .record text → text.toList.head? = some 'a' := by
      rintro text rfl
      injection hlong with hlong
      subst hlong
      simp [String.toList_append, toString]
    cases h' with
    | keys => cases hfirst _ rfl
    | aead m seq nonce => cases hlong
    | inner => cases hfirst _ rfl
  | key alg =>
    generalize hkey : TlsError.crypto _ = e at h'
    cases h' with
    | keys => cases hkey
    | aead m seq nonce => exact htext (by cases alg <;> decide) hkey
    | inner => cases hkey
  | failed alg =>
    generalize hfailed : TlsError.crypto _ = e at h'
    cases h' with
    | keys => cases hfailed
    | aead m seq nonce => exact htext (by cases alg <;> decide) hfailed
    | inner => cases hfailed

variable {padding : Nat}

theorem sealed_record (hopens : OpensSealed) {w w' r : RecordLayer} {t : ContentType} {content bytes : Bytes} {keys : TrafficKeys} (hin : InStep w r) (hkeys : w.write = some keys) (ht : t.asU8 ≠ 0)
    (h : RecordLayer.seal t content padding w = some (.ok bytes, w')) : ∃ rec seq, w' = { w with writeSeq := seq } ∧
      (∀ rest, Record.parse (bytes ++ rest) = .ok (rec, bytes.length)) ∧
      rec.contentType = .applicationData ∧
      RecordLayer.open rec r = some (.ok ⟨.fromU8 t.asU8, content, padding⟩, { r with readSeq := seq }) := by
  rcases seal_cases h with ⟨hnone, -, -⟩ | ⟨keys', nonce, sealed, seq, hsealed, rfl, rfl⟩
  · rw [hkeys] at hnone
    cases hnone
  · exact ⟨_, seq, rfl, parse_build _ _ (Nat.lt_of_le_of_lt hsealed.hsmall (by decide)), rfl,
      hsealed.opens hopens hin ht⟩

variable {bytes : Bytes}

omit [Crates] in
theorem record_parse_append {r : Record} {used : Nat} (h : Record.parse bytes = .ok (r, used))
    (rest : Bytes) : Record.parse (bytes ++ rest) = .ok (r, used) := by
  unfold Record.parse at h
  split at h
  · rename_i t v₁ v₀ l₁ l₀ body
    dsimp only at h
    split at h
    · cases h
    · rename_i hlength
      cases h
      have hle := Nat.not_lt.mp hlength
      simp only [Record.parse, List.cons_append, List.length_append]
      rw [if_neg (by omega), List.take_append_of_le_length hle, Nat.add_comm 5]
      simp only [List.take_succ_cons, List.take_append_of_le_length hle]
  · cases h

/-! ## The stream from the server -/

structure Server.SaysLike (s s' : Server) : Prop where
  write : s'.layer.write = s.layer.write
  seq : s'.layer.writeSeq = s.layer.writeSeq
  begun : s'.begun = s.begun
  app : s'.sentApp = s.sentApp
  tickets : s'.sentTickets = s.sentTickets

inductive Sends : Server → Bytes → Server → Prop
  | nil {s : Server} : Sends s [] s
  | heard {s s₁ s' : Server} {bytes : Bytes} (hsame : s.SaysLike s₁) (hrest : Sends s₁ bytes s') :
      Sends s bytes s'
  | say {s s₁ s' : Server} {padding : Nat} {saying : Saying} {bytes rest : Bytes}
      (hsay : s.say padding saying = some (.ok bytes, s₁)) (hrest : Sends s₁ rest s') :
      Sends s (bytes ++ rest) s'

theorem Sends.trans {s s₁ s' : Server} {bytes bytes' : Bytes} (h : Sends s bytes s₁)
    (h' : Sends s₁ bytes' s') : Sends s (bytes ++ bytes') s' := by
  induction h with
  | nil => exact h'
  | heard hsame _ ih => exact .heard hsame (ih h')
  | say hsay _ ih =>
    rw [List.append_assoc]
    exact .say hsay (ih h')

/-- **The first record** of a stream that is not empty. -/
theorem Sends.first {stream : Bytes} (h : Sends s stream s') (hne : stream ≠ []) :
    ∃ s₀ padding saying bytes s₁ rest, s.SaysLike s₀ ∧ s₀.say padding saying = some (.ok bytes, s₁) ∧
      Sends s₁ rest s' ∧ stream = bytes ++ rest := by
  induction h with
  | nil => exact absurd rfl hne
  | heard hsame _ ih =>
    obtain ⟨s₀, padding, saying, bytes, s₁, rest, hlike, hsay, hrest, hstream⟩ := ih hne
    exact ⟨s₀, padding, saying, bytes, s₁, rest,
      ⟨hlike.write.trans hsame.write, hlike.seq.trans hsame.seq, hlike.begun.trans hsame.begun,
        hlike.app.trans hsame.app, hlike.tickets.trans hsame.tickets⟩, hsay, hrest, hstream⟩
  | say hsay hrest _ => exact ⟨_, _, _, _, _, _, ⟨rfl, rfl, rfl, rfl, rfl⟩, hsay, hrest, rfl⟩

def Saying.contentType : Saying → ContentType
  | .appData _ => .applicationData
  | .handshake _ => .handshake

def Saying.content : Saying → Bytes
  | .appData data => data
  | .handshake fragment => fragment

def Server.SaidBy (s : Server) (layer : RecordLayer) (s' : Server) : Saying → Prop
  | .appData data => s' = { s with layer := layer, sentApp := s.sentApp ++ data }
  | .handshake fragment =>
    Server.saidAll (messagesIn (s.begun ++ fragment)).1
      { s with layer := layer, begun := (messagesIn (s.begun ++ fragment)).2 } = some (.ok (), s')

theorem say_ok {saying : Saying} (h : s.say padding saying = some (.ok bytes, s')) :
    ∃ layer, RecordLayer.seal saying.contentType saying.content padding s.layer = some (.ok bytes, layer) ∧
      s.SaidBy layer s' saying := by
  cases saying with
  | appData data =>
    obtain ⟨bytes', _, hpart, h⟩ := bind_ok.mp h
    obtain ⟨layer, hseal, rfl⟩ := Action.onPart_ok.mp hpart
    replace h := Action.bind_modify_ok.mp h
    obtain ⟨rfl, rfl⟩ := pure_ok.mp h
    exact ⟨layer, hseal, rfl⟩
  | handshake fragment =>
    obtain ⟨bytes', _, hpart, h⟩ := bind_ok.mp h
    obtain ⟨layer, hseal, rfl⟩ := Action.onPart_ok.mp hpart
    replace h := bind_get_ok.mp h
    replace h := Action.bind_modify_ok.mp h
    obtain ⟨_, _, hsaid, h⟩ := bind_ok.mp h
    obtain ⟨rfl, rfl⟩ := pure_ok.mp h
    exact ⟨layer, hseal, hsaid⟩

/-! ## A connection behind the server -/

inductive SocketError : TlsError → Prop
  | timeout (what : String) : SocketError (.timeout what)
  | io (text : String) : SocketError (.io text)

inductive Excused : TlsError → Prop
  | socket {e : TlsError} (h : SocketError e) : Excused e
  | closed : Excused .closed
  | unsealed {e : TlsError} (h : SealError e) : Excused e

omit [Crates] in
theorem Excused.not_open {e : TlsError} (h : Excused e) : ¬OpenError e := by
  cases h with
  | socket h =>
    cases h with
    | timeout what => exact fun h => by cases h
    | io text => exact fun h => by cases h
  | closed => exact fun h => by cases h
  | unsealed h => exact h.not_open

def chunkOf : Except TlsError Bytes → Bytes
  | .ok chunk => chunk
  | .error _ => []

/-- What has come and will come of the stream, and is in no record yet. -/
def TlsConn.unread (conn : TlsConn) : Bytes := conn.inbuf ++ conn.arrivals.flatMap chunkOf

structure SameWriter (conn conn' : TlsConn) : Prop where
  read : conn'.layer.read = conn.layer.read
  write : conn'.layer.write = conn.layer.write
  seq : conn'.layer.writeSeq = conn.layer.writeSeq
  version : conn'.layer.writeVersion = conn.layer.writeVersion
  written : conn'.written = conn.written
  refusals : conn'.refusals = conn.refusals

/-- What handing out leaves alone: the keys to write with, the buffer of the socket and the socket. -/
def TlsConn.apart (conn : TlsConn) : Option TrafficKeys × Bytes × List (Except TlsError Bytes) :=
  (conn.layer.write, conn.inbuf, conn.arrivals)

omit [Crates] in
theorem keeps_popHandshake : Action.Keeps TlsConn.apart TlsConn.popHandshake := by
  refine keeps_bind keeps_get fun c => ?_
  split
  · exact keeps_pure
  · split
    · exact keeps_pure
    · refine keeps_bind keeps_lift fun r => ?_
      exact keeps_bind (keeps_modify fun _ => rfl) fun _ => keeps_pure

omit [Crates] in
theorem keeps_buffered : Action.Keeps TlsConn.apart TlsConn.buffered := by
  refine keeps_bind keeps_popHandshake fun popped => ?_
  cases popped with
  | some m => exact keeps_pure
  | none =>
    refine keeps_bind keeps_get fun c => ?_
    split
    · exact keeps_bind (keeps_modify fun _ => rfl) fun _ => keeps_pure
    · exact keeps_pure

theorem keeps_open (r : Record) : Action.Keeps RecordLayer.write (RecordLayer.open r) := by
  unfold RecordLayer.open
  refine keeps_bind keeps_get fun l => keeps_bind Action.keeps_demand fun keys => ?_
  refine keeps_bind keeps_orStop fun nonce => keeps_bind keeps_orStop fun opened => ?_
  refine keeps_bind keeps_lift fun plain => keeps_bind keeps_orStop fun next => ?_
  exact keeps_bind (keeps_modify fun _ => rfl) fun _ => keeps_lift

theorem keeps_takeRecord (r : Record) : Action.Keeps TlsConn.apart (TlsConn.takeRecord r) := by
  have hreceive (content : Bytes) : Action.Keeps TlsConn.apart (TlsConn.receive content) :=
    keeps_modify fun _ => rfl
  have hprotected : Action.Keeps TlsConn.apart (TlsConn.takeProtected r) := by
    refine keeps_bind ?_ fun inner => ?_
    · exact Action.keeps_onPart (g := RecordLayer.write) (keeps_open r) fun c _ h => congrArg (·, c.inbuf, c.arrivals) h
    · split
      · exact keeps_bind (hreceive _) fun _ => keeps_pure
      · exact keeps_bind keeps_lift fun _ => keeps_pure
      · exact keeps_bind (keeps_modify fun _ => rfl) fun _ => keeps_pure
      · exact keeps_pure
  refine keeps_bind keeps_get fun c => ?_
  split
  · exact keeps_pure
  · exact hprotected
  · exact keeps_bind (hreceive _) fun _ => keeps_pure
  · split
    · exact keeps_bind keeps_lift fun _ => keeps_pure
    · exact keeps_pure
  · exact keeps_pure

/-- The connection has taken what the server had said when it was `p`; `ms` are still to be handed out.
`tickets` and `app` have been. -/
structure Behind (p : Server) (ms : List HandshakeMessage) (conn : TlsConn)
    (tickets : List NewSessionTicket) (app : Bytes) : Prop where
  buffer : conn.hsBuf = ms.flatMap HandshakeMessage.raw ++ p.begun
  whole : ∀ m ∈ ms, Whole m
  begun : Begun p.begun
  app : app ++ conn.appBuf.flatten = p.sentApp
  epochs : ∃ g g' : Epoch, conn.layer.read = some g.keys ∧ conn.layer.readSeq = g.seq ∧ p.WritesIn g' ∧
    Said ms g tickets g' p.sentTickets
  socket : ∀ e, .error e ∈ conn.arrivals → SocketError e

/-- And what it has not taken is on its way. -/
def Follows (s : Server) (down : Bytes) (conn : TlsConn) (tickets : List NewSessionTicket) (app : Bytes) :
    Prop :=
  ∃ p ms, Sends p (conn.unread ++ down) s ∧ Behind p ms conn tickets app

/-! ## Reading -/

omit [Crates] in
theorem record_parse_full (h : 5 ≤ bytes.length)
    (hlength : 5 + ofBigEndian [bytes.getD 3 0, bytes.getD 4 0] ≤ bytes.length) :
    ∃ r used, Record.parse bytes = .ok (r, used) := by
  rcases bytes with _ | ⟨t, _ | ⟨v₁, _ | ⟨v₀, _ | ⟨l₁, _ | ⟨l₀, rest⟩⟩⟩⟩⟩
  iterate 5
    · simp at h
  have hnot : ¬rest.length < ofBigEndian [l₁, l₀] := by
    simp only [List.getD_cons_succ, List.getD_cons_zero, List.length_cons] at hlength
    omega
  simp only [Record.parse]
  rw [if_neg hnot]
  exact ⟨_, _, rfl⟩

structure ReadingRecord (conn conn' : TlsConn) : Prop where
  same : TlsConn.SameButSocket conn conn'
  socket : ∀ e, .error e ∈ conn'.arrivals → SocketError e
  unread : conn'.unread = conn.unread

def RecordRead (conn : TlsConn) : Except TlsError Record → TlsConn → Prop
  | .ok record, conn' => TlsConn.SameButSocket conn conn' ∧ (∀ e, .error e ∈ conn'.arrivals → SocketError e) ∧
      ∃ used, Record.parse conn.unread = .ok (record, used) ∧ conn'.unread = conn.unread.drop used ∧
        used ≤ conn.unread.length
  | .error e, conn' => ReadingRecord conn conn' ∧ Excused e

def Filled (conn : TlsConn) : Except TlsError Bool → TlsConn → Prop
  | .ok more, t => ReadingRecord conn t ∧ (more = true → t.arrivals.length < conn.arrivals.length)
  | .error e, t => ReadingRecord conn t ∧ SocketError e

variable {N : Prop}

omit [Crates] in
theorem fill_ends {t : TlsConn} (hsocket : ∀ e, .error e ∈ t.arrivals → SocketError e)
    (what : String) : Action.Ends N (Filled t) (TlsConn.fill what t) := by
  have hrest {arrival : Except TlsError Bytes} {rest : List (Except TlsError Bytes)}
      (harrivals : t.arrivals = arrival :: rest) : ∀ e, .error e ∈ rest → SocketError e := fun e he =>
    hsocket e (harrivals ▸ List.mem_cons_of_mem _ he)
  obtain ⟨harrivals, hfill⟩ | ⟨e, rest, harrivals, hfill⟩ | ⟨rest, harrivals, hfill⟩ |
    ⟨b, chunk, rest, harrivals, hfill⟩ := TlsConn.fill_cases what t
  · refine ends_of_some hfill ⟨⟨rfl, fun e he => absurd he List.not_mem_nil, ?_⟩, .timeout what⟩
    unfold TlsConn.unread
    rw [harrivals]
  · refine ends_of_some hfill ⟨⟨rfl, hrest harrivals, ?_⟩, hsocket e (harrivals ▸ List.mem_cons_self)⟩
    unfold TlsConn.unread
    rw [harrivals]
    rfl
  · refine ends_of_some hfill ⟨⟨rfl, hrest harrivals, ?_⟩, fun h => by cases h⟩
    unfold TlsConn.unread
    rw [harrivals]
    rfl
  · refine ends_of_some hfill ⟨⟨rfl, hrest harrivals, ?_⟩, fun _ => ?_⟩
    · unfold TlsConn.unread
      rw [harrivals]
      exact List.append_assoc _ _ _
    · rw [harrivals]
      exact Nat.lt_succ_self _

omit [Crates] in
theorem readRecordRound_ends {conn t : TlsConn} (h : ReadingRecord conn t) :
    Action.Ends N (Action.Round (fun _ => ReadingRecord conn) (fun c => c.arrivals.length) (RecordRead conn)
      t.arrivals.length) (TlsConn.readRecordRound () t) := by
  obtain ⟨hsame, hsocket, hunread⟩ := h
  unfold TlsConn.readRecordRound
  refine ends_bind.mpr (Action.ends_get.mpr ?_)
  show Action.Ends N _ ((if _ then _ else _ : Action TlsConn TlsError (Unit ⊕ Record)) t)
  split
  · rename_i hthere
    obtain ⟨record, used, hparse⟩ := record_parse_full hthere.1 hthere.2
    obtain ⟨-, hle⟩ := record_ok hparse
    rw [hparse]
    refine ⟨hsame.trans rfl, hsocket, used, ?_, ?_, ?_⟩
    · rw [← hunread]
      exact record_parse_append hparse _
    · rw [← hunread]
      exact (List.drop_append_of_le_length hle).symm
    · rw [← hunread]
      show used ≤ (t.inbuf ++ _).length
      rw [List.length_append]
      omega
  · refine ends_bind.mpr ((fill_ends hsocket _).mono fun r t' hr => ?_)
    cases r with
    | error e =>
      exact ⟨⟨hsame.trans hr.1.same, hr.1.socket, hr.1.unread.trans hunread⟩, .socket hr.2⟩
    | ok more =>
      obtain ⟨hfilled, hless⟩ := hr
      have hreading : ReadingRecord conn t' :=
        ⟨hsame.trans hfilled.same, hfilled.socket, hfilled.unread.trans hunread⟩
      cases more with
      | true => exact ⟨hreading, hless rfl⟩
      | false => exact ⟨hreading, .closed⟩

variable {conn : TlsConn}

omit [Crates] in
/-- **A record** is the next one of the stream, or a read failed and nothing is lost. -/
theorem readRecord_ends (hsocket : ∀ e, .error e ∈ conn.arrivals → SocketError e) :
    Action.Ends N (RecordRead conn) (TlsConn.readRecord conn) :=
  Action.ends_forever ⟨.refl conn, hsocket, rfl⟩ fun _ _ h => readRecordRound_ends h

omit [Crates] in
/-- What `pop_handshake` looks at before it parses is when it parses. -/
theorem handshake_parse_full (bytes : Bytes) : (∃ e, HandshakeMessage.parse bytes = .error e) ↔ bytes.length < 4 ∨
      bytes.length < 4 + ofBigEndian [bytes.getD 1 0, bytes.getD 2 0, bytes.getD 3 0] := by
  rcases bytes with _ | ⟨t, _ | ⟨l₂, _ | ⟨l₁, _ | ⟨l₀, rest⟩⟩⟩⟩
  iterate 4
    · exact iff_of_true ⟨_, rfl⟩ (.inl (by simp))
  simp only [HandshakeMessage.parse, List.getD_cons_succ, List.getD_cons_zero, List.length_cons]
  split
  · rename_i hshort
    exact iff_of_true ⟨_, rfl⟩ (.inr (by omega))
  · rename_i hlong
    exact iff_of_false (fun h => by cases h.choose_spec) (by omega)

omit [Crates] in
/-- **A message** is taken out of a buffer that begins with one, and nothing out of any other. -/
theorem popHandshake_eq (conn : TlsConn) :
    TlsConn.popHandshake conn = match HandshakeMessage.parse conn.hsBuf with
      | .ok (m, used) => some (.ok (some m),
          { conn with hsBuf := conn.hsBuf.drop used, messages := conn.messages ++ [(.received, m.raw)] })
      | .error _ => some (.ok none, conn) := by
  have hfull := handshake_parse_full conn.hsBuf
  show (if _ then _ else _ : Action TlsConn TlsError (Option HandshakeMessage)) conn = _
  split
  · rename_i hshort
    obtain ⟨e, he⟩ := hfull.mpr (.inl hshort)
    rw [he]
    rfl
  · rename_i hlong
    split
    · rename_i hshort
      obtain ⟨e, he⟩ := hfull.mpr (.inr hshort)
      rw [he]
      rfl
    · rename_i hlong'
      cases hparse : HandshakeMessage.parse conn.hsBuf with
      | error e => exact absurd (hfull.mp ⟨e, hparse⟩) (not_or.mpr ⟨hlong, hlong'⟩)
      | ok r =>
        rfl

inductive LookedAt (p : Server) (conn : TlsConn) (tickets : List NewSessionTicket) (app : Bytes) :
    List HandshakeMessage → Option Incoming → TlsConn → Prop
  | message {m : HandshakeMessage} {ms : List HandshakeMessage} {messages : List (Direction × Bytes)} :
      LookedAt p conn tickets app (m :: ms) (some (.handshake m))
        { conn with hsBuf := ms.flatMap HandshakeMessage.raw ++ p.begun, messages := messages }
  | data {d : Bytes} {rest : List Bytes} (hbuf : conn.appBuf = d :: rest) :
      LookedAt p conn tickets app [] (some (.appData d)) { conn with appBuf := rest }
  | nothing (hbuf : conn.appBuf = []) : LookedAt p conn tickets app [] none conn

variable {p : Server}

theorem buffered_behind {tickets : List NewSessionTicket} {app : Bytes} (h : Behind p ms conn tickets app) :
    ∃ o conn', TlsConn.buffered conn = some (.ok o, conn') ∧ LookedAt p conn tickets app ms o conn' := by
  unfold TlsConn.buffered
  cases ms with
  | cons m ms =>
    have hparse := (h.whole m List.mem_cons_self) (ms.flatMap HandshakeMessage.raw ++ p.begun)
    have hbuf : conn.hsBuf = m.raw ++ (ms.flatMap HandshakeMessage.raw ++ p.begun) := by
      rw [h.buffer, List.flatMap_cons, List.append_assoc]
    have hpop := popHandshake_eq conn
    rw [hbuf, hparse] at hpop
    simp only [List.drop_left] at hpop
    exact ⟨_, _, bind_ok.mpr ⟨_, _, hpop, rfl⟩, .message⟩
  | nil =>
    have hbuf : conn.hsBuf = p.begun := h.buffer
    have hpop := popHandshake_eq conn
    cases hparse : HandshakeMessage.parse conn.hsBuf with
    | ok r =>
      rw [hbuf] at hparse
      exact absurd hparse (h.begun r.1 r.2)
    | error e =>
      rw [hparse] at hpop
      cases happ : conn.appBuf with
      | nil =>
        refine ⟨none, conn, bind_ok.mpr ⟨_, _, hpop, ?_⟩, .nothing happ⟩
        refine bind_get_ok.mpr ?_
        rw [happ]
        rfl
      | cons d rest =>
        refine ⟨_, _, bind_ok.mpr ⟨_, _, hpop, ?_⟩, .data happ⟩
        refine bind_get_ok.mpr ?_
        rw [happ]
        rfl

/-- **A record** that is taken is the next thing the server said. -/
theorem takeRecord_follows (hopens : OpensSealed) {p p₀ p₁ : Server}
    {saying : Saying} {tickets : List NewSessionTicket} {app : Bytes}
    (h : Behind p [] conn tickets app) (hlike : p.SaysLike p₀) (hsay : p₀.say padding saying = some (.ok bytes, p₁)) :
    ∃ record, (∀ rest, Record.parse (bytes ++ rest) = .ok (record, bytes.length)) ∧
      (∃ inner layer, RecordLayer.open record conn.layer = some (.ok inner, layer)) ∧
      ∃ conn' ms, TlsConn.takeRecord record conn = some (.ok (.inl ()), conn') ∧
        Behind p₁ ms conn' tickets app ∧ SameWriter conn conn' ∧ conn'.unread = conn.unread := by
  obtain ⟨g, g', hread, hseq, hwrites, hsaid⟩ := h.epochs
  obtain ⟨rfl, htickets⟩ : g = g' ∧ tickets = p₀.sentTickets := by
    rw [hlike.tickets]
    cases hsaid
    exact ⟨rfl, rfl⟩
  obtain ⟨layer, hseal, hby⟩ := say_ok hsay
  have hwrite : p₀.layer.write = some g.keys := hlike.write.trans hwrites.1
  have hin : InStep p₀.layer conn.layer :=
    ⟨hread.trans hwrite.symm, hseq.trans (hwrites.2.symm.trans hlike.seq.symm)⟩
  have ht : saying.contentType.asU8 ≠ 0 := by
    cases saying with
    | appData data => exact (by decide : ContentType.applicationData.asU8 ≠ 0)
    | handshake fragment => exact (by decide : ContentType.handshake.asU8 ≠ 0)
  obtain ⟨record, seq, rfl, hparse, htype, hopen⟩ := sealed_record hopens hin hwrite ht hseal
  have hreading : conn.layer.readingEncrypted = true := by
    unfold RecordLayer.readingEncrypted
    rw [hread]
    rfl
  have hpart : TlsConn.onLayer (RecordLayer.open record) conn =
      some (.ok ⟨.fromU8 saying.contentType.asU8, saying.content, padding⟩,
        { conn with layer := { conn.layer with readSeq := seq } }) :=
    Action.onPart_ok.mpr ⟨_, hopen, rfl⟩
  have hprotected : ∃ conn' ms, TlsConn.takeProtected record conn = some (.ok (.inl ()), conn') ∧
      Behind p₁ ms conn' tickets app ∧ SameWriter conn conn' ∧ conn'.unread = conn.unread := by
    cases saying with
    | appData data =>
      obtain rfl := hby
      refine ⟨_, [], bind_ok.mpr ⟨_, _, hpart, rfl⟩, ⟨?_, h.whole, ?_, ?_, ?_, h.socket⟩,
        ⟨rfl, rfl, rfl, rfl, rfl, rfl⟩, rfl⟩
      · exact h.buffer.trans hlike.begun.symm
      · exact hlike.begun.symm ▸ h.begun
      · show app ++ (conn.appBuf ++ [data]).flatten = p₀.sentApp ++ data
        rw [List.flatten_append, ← List.append_assoc, h.app, hlike.app]
        simp
      · exact ⟨⟨g.keys, seq⟩, ⟨g.keys, seq⟩, hread, rfl, ⟨hwrite, rfl⟩, htickets ▸ .nil⟩
    | handshake fragment =>
      obtain ⟨hsplit, hwhole, hbegun⟩ := messagesIn_spec (p₀.begun ++ fragment)
      obtain ⟨g', hg', hsaid', hbegun', happ⟩ := saidAll_ok (g := ⟨g.keys, seq⟩)
        (by exact ⟨hwrite, rfl⟩) hby
      refine ⟨_, (messagesIn (p₀.begun ++ fragment)).1, bind_ok.mpr ⟨_, _, hpart, rfl⟩,
        ⟨?_, hwhole, ?_, ?_, ?_, h.socket⟩, ⟨rfl, rfl, rfl, rfl, rfl, rfl⟩, rfl⟩
      · rw [hbegun']
        refine Eq.trans ?_ hsplit.symm
        show conn.hsBuf ++ fragment = p₀.begun ++ fragment
        rw [h.buffer, hlike.begun]
        rfl
      · rw [hbegun']
        exact hbegun
      · rw [happ]
        exact h.app.trans hlike.app.symm
      · exact ⟨⟨g.keys, seq⟩, g', hread, rfl, hg', htickets ▸ hsaid'⟩
  obtain ⟨conn', ms, htake, hbehind⟩ := hprotected
  refine ⟨record, hparse, ⟨_, _, hopen⟩, conn', ms,
    bind_ok.mpr ⟨_, _, Action.get_ok.mpr ⟨rfl, rfl⟩, ?_⟩, hbehind⟩
  rw [htype, hreading]
  exact htake

/-! ## The next message -/

inductive Hands (s : Server) (down : Bytes) (conn : TlsConn) (tickets : List NewSessionTicket) (app : Bytes)
    (m : HandshakeMessage) : Prop
  | ticket {t : NewSessionTicket} (htype : m.msgType = .newSessionTicket)
      (hparse : NewSessionTicket.parse m.body = .ok t) (h : Follows s down conn (tickets ++ [t]) app)
  | update {u : KeyUpdate} {current keys : TrafficKeys} (htype : m.msgType = .keyUpdate)
      (hparse : KeyUpdate.parse m.body = .ok u) (hread : conn.layer.read = some current)
      (hkeys : current.updated = .ok keys)
      (h : Follows s down { conn with layer := conn.layer.setRead keys } tickets app)

def NextIs (s : Server) (down : Bytes) (conn : TlsConn) (tickets : List NewSessionTicket) (app : Bytes) :
    Except TlsError Incoming → TlsConn → Prop
  | .ok (.handshake m), conn' => SameWriter conn conn' ∧ Hands s down conn' tickets app m
  | .ok (.appData d), conn' => SameWriter conn conn' ∧ Follows s down conn' tickets (app ++ d)
  | .ok _, _ => False
  | .error e, conn' => SameWriter conn conn' ∧ Follows s down conn' tickets app ∧ Excused e

variable {s : Server} {down : Bytes} {conn : TlsConn} {tickets : List NewSessionTicket} {app : Bytes}

theorem LookedAt.next {i : Incoming} {conn' : TlsConn}
    (h : LookedAt p conn tickets app ms (some i) conn') (hsends : Sends p (conn.unread ++ down) s)
    (hbehind : Behind p ms conn tickets app) : NextIs s down conn tickets app (.ok i) conn' := by
  obtain ⟨g, g', hread, hseq, hwrites, hsaid⟩ := hbehind.epochs
  cases h with
  | data hbuf =>
    refine ⟨⟨rfl, rfl, rfl, rfl, rfl, rfl⟩, p, [], hsends, hbehind.buffer, hbehind.whole, hbehind.begun, ?_,
      hbehind.epochs, hbehind.socket⟩
    rw [← hbehind.app, hbuf]
    exact List.append_assoc _ _ _
  | @message m ms messages =>
    have hwhole : ∀ m ∈ ms, Whole m := fun m hm => hbehind.whole m (List.mem_cons_of_mem _ hm)
    refine ⟨⟨rfl, rfl, rfl, rfl, rfl, rfl⟩, ?_⟩
    cases hsaid with
    | ticket htype hparse hrest =>
      exact .ticket htype hparse ⟨p, ms, hsends, rfl, hwhole, hbehind.begun, hbehind.app,
        ⟨g, g', hread, hseq, hwrites, hrest⟩, hbehind.socket⟩
    | @update _ _ _ _ _ _ u keys htype hparse hkeys hrest =>
      exact .update htype hparse hread hkeys ⟨p, ms, hsends, rfl, hwhole, hbehind.begun, hbehind.app,
        ⟨⟨keys, 0⟩, g', rfl, rfl, hwrites, hrest⟩, hbehind.socket⟩

omit [Crates] in
theorem SameWriter.refl (conn : TlsConn) : SameWriter conn conn := ⟨rfl, rfl, rfl, rfl, rfl, rfl⟩

omit [Crates] in
theorem SameWriter.trans {conn₁ conn₂ : TlsConn} (h : SameWriter conn conn₁) (h' : SameWriter conn₁ conn₂) :
    SameWriter conn conn₂ :=
  ⟨h'.read.trans h.read, h'.write.trans h.write, h'.seq.trans h.seq, h'.version.trans h.version,
    h'.written.trans h.written, h'.refusals.trans h.refusals⟩

omit [Crates] in
theorem SameWriter.of_socket {conn₁ : TlsConn} (h : TlsConn.SameButSocket conn conn₁) : SameWriter conn conn₁ := by
  rw [h]
  exact ⟨rfl, rfl, rfl, rfl, rfl, rfl⟩

theorem NextIs.after {conn₁ conn' : TlsConn} {r : Except TlsError Incoming} (hsame : SameWriter conn conn₁)
    (h : NextIs s down conn₁ tickets app r conn') : NextIs s down conn tickets app r conn' := by
  match r with
  | .ok (.handshake m) => exact ⟨hsame.trans h.1, h.2⟩
  | .ok (.appData d) => exact ⟨hsame.trans h.1, h.2⟩
  | .ok (.alert _) => exact h
  | .ok (.changeCipherSpec _) => exact h
  | .ok (.unexpected _) => exact h
  | .error e => exact ⟨hsame.trans h.1, h.2⟩

theorem Behind.of_socket {conn₁ : TlsConn} (h : Behind p ms conn tickets app) (hsame : TlsConn.SameButSocket conn conn₁)
    (hsocket : ∀ e, .error e ∈ conn₁.arrivals → SocketError e) : Behind p ms conn₁ tickets app := by
  rw [hsame]
  exact ⟨h.buffer, h.whole, h.begun, h.app, h.epochs, hsocket⟩

def RecordFollows (s : Server) (down : Bytes) (conn : TlsConn) (tickets : List NewSessionTicket)
    (app : Bytes) : Except TlsError Record → TlsConn → Prop
  | .ok record, conn₁ => (∃ inner layer, RecordLayer.open record conn₁.layer = some (.ok inner, layer)) ∧
      ∃ conn₂, TlsConn.takeRecord record conn₁ = some (.ok (.inl ()), conn₂) ∧ SameWriter conn conn₂ ∧
        Follows s down conn₂ tickets app
  | .error e, conn₁ => SameWriter conn conn₁ ∧ Follows s down conn₁ tickets app ∧ Excused e

theorem readRecord_follows (hopens : OpensSealed)
    (hsends : Sends p (conn.unread ++ down) s) (hbehind : Behind p [] conn tickets app) :
    Action.Ends N (RecordFollows s down conn tickets app) (TlsConn.readRecord conn) := by
  refine (readRecord_ends hbehind.socket).mono fun r conn₁ hread => ?_
  cases r with
  | error e =>
    obtain ⟨⟨hsame, hsocket, hunread⟩, he⟩ := hread
    exact ⟨.of_socket hsame, ⟨p, [], by rwa [hunread], hbehind.of_socket hsame hsocket⟩, he⟩
  | ok record =>
    obtain ⟨hsame, hsocket, used, hparse, hunread, hused⟩ := hread
    have hne : conn.unread ++ down ≠ [] := by
      intro hnil
      rw [(List.append_eq_nil_iff.mp hnil).1] at hparse
      cases hparse
    obtain ⟨p₀, padding, saying, bytes, p₁, rest, hlike, hsay, hrest, hstream⟩ := hsends.first hne
    obtain ⟨record', hparse', hopen, conn₂, ms, htake, hbehind₂, hsame₂, hunread₂⟩ :=
      takeRecord_follows hopens (hbehind.of_socket hsame hsocket) hlike hsay
    have hfirst := record_parse_append hparse down
    rw [hstream, hparse'] at hfirst
    obtain ⟨rfl, rfl⟩ : record' = record ∧ bytes.length = used := by
      have hpair := Except.ok.inj hfirst
      exact ⟨congrArg Prod.fst hpair, congrArg Prod.snd hpair⟩
    have hleft : conn₂.unread ++ down = rest := by
      rw [hunread₂, hunread, ← List.drop_append_of_le_length hused, hstream, List.drop_left]
    exact ⟨hopen, conn₂, htake, (SameWriter.of_socket hsame).trans hsame₂, p₁, ms, hleft.symm ▸ hrest, hbehind₂⟩

/-- **The next message**, whenever the deadline passes: what the connection hands out is the next of what the
server said, and it is behind the server still. -/
theorem nextMessageWithin_follows (hopens : OpensSealed) (left : Nat) (h : Follows s down conn tickets app) :
    Action.Ends N (NextIs s down conn tickets app) (TlsConn.nextMessageWithin left conn) := by
  induction left generalizing conn with
  | zero =>
    obtain ⟨p, ms, hsends, hbehind⟩ := h
    obtain ⟨o, conn', hbuffered, hlooked⟩ := buffered_behind hbehind
    unfold TlsConn.nextMessageWithin
    refine ends_bind.mpr (ends_of_some hbuffered ?_)
    cases o with
    | some i => exact hlooked.next hsends hbehind
    | none =>
      cases hlooked
      exact ⟨.refl conn, ⟨p, [], hsends, hbehind⟩, .socket (.timeout _)⟩
  | succ left ih =>
    obtain ⟨p, ms, hsends, hbehind⟩ := h
    obtain ⟨o, conn', hbuffered, hlooked⟩ := buffered_behind hbehind
    unfold TlsConn.nextMessageWithin
    refine ends_bind.mpr (ends_of_some hbuffered ?_)
    cases o with
    | some i => exact hlooked.next hsends hbehind
    | none =>
      cases hlooked
      refine ends_bind.mpr ((readRecord_follows hopens hsends hbehind).mono fun r conn₁ hread => ?_)
      cases r with
      | error e => exact hread
      | ok record =>
        obtain ⟨-, conn₂, htake, hsame, hfollows⟩ := hread
        refine ends_bind.mpr (ends_of_some htake ?_)
        exact (ih hfollows).mono fun r conn' hr => hr.after hsame

end

end BuildYourOwn.Tls
