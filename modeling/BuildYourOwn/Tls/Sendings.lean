import BuildYourOwn.Lib.Numbering
import BuildYourOwn.Tls.Calls
import BuildYourOwn.Tls.Transcripts

/-!
# What a client seals

The calls of `tlstest/src/tls/client.rs` that send something after the server's flight (`Sending`), with
`send_ccs_and_finished_together`. Each call is given once more with notes (`Sending.noted`): the keys and the number of
every record that is sealed are kept beside the client. `noted_logs`: without the notes it is the call.

**`sent_effect`**: what a call does to the numbers. It seals one record or none, the first of the calls that need
handshake keys under these, and a Finished or a KeyUpdate then puts application keys in force.
-/

namespace BuildYourOwn.Tls

open Lib
open Lib.Action (bind_assoc bind_ok ends_bind ends_demand ends_get ends_lift ends_modify
  ends_of_some ends_onPart ends_unlogged keeps_bind keeps_modify logs_bind logs_get logs_lift logs_unlogged
  unlogged)

section variable [Crates]

namespace Client

def sendCcsAndFinishedTogether : Action Client TlsError Unit := do
  ensureClientHandshakeKeys
  let c ← Action.get
  let verifyData ← Action.lift c.clientVerifyData
  let message := encodeHandshake .finished verifyData
  let ccs := Record.build ContentType.changeCipherSpec.asU8 legacyVersionTls12 [1]
  let protected_ ← onConn (TlsConn.onLayer (RecordLayer.seal .handshake message 0))
  let written ← Action.attempt (onConn (TlsConn.writeAll (ccs ++ protected_)))
  clientFinishedSent message
  Action.lift written

end Client

/-- The calls that seal something. -/
inductive Sending where
  | certificateBytes (message : Bytes)
  | certificateVerifyBytes (message : Bytes)
  | finished
  | finishedBytes (message : Bytes)
  | ccsAndFinishedTogether
  | appData (data : Bytes)
  | keyUpdate (update : KeyUpdate)

def Sending.run : Sending → Action Client TlsError Unit
  | certificateBytes message => Client.sendClientCertificateBytes message
  | certificateVerifyBytes message => Client.sendClientCertificateVerifyBytes message
  | finished => Client.sendClientFinished
  | finishedBytes message => Client.sendClientFinishedBytes message
  | ccsAndFinishedTogether => Client.sendCcsAndFinishedTogether
  | appData data => Client.writeAppData data
  | keyUpdate update => Client.sendKeyUpdate update

/-! ## The calls with notes -/

structure SealedUnder where
  keys : TrafficKeys
  seq : UInt64
deriving DecidableEq

/-- The key and the nonce. -/
def SealedUnder.pair (x : SealedUnder) : Bytes × Option Bytes := (x.keys.key, x.keys.nonce x.seq)

def RecordLayer.sealsUnder (l : RecordLayer) : List SealedUnder := l.write.toList.map fun keys => ⟨keys, l.writeSeq⟩

abbrev Noting (α : Type) := Action (Logged Client SealedUnder) TlsError α

namespace Noted

/-- `seal`, noted. -/
def «seal» (contentType : ContentType) (content : Bytes) : Noting Bytes := do
  let before ← Action.get
  let bytes ← unlogged (Client.onConn (TlsConn.onLayer (RecordLayer.seal contentType content 0)))
  Action.note before.state.conn.layer.sealsUnder
  pure bytes

def writeHandshake (message : Bytes) : Noting Unit := do
  let bytes ← Noted.seal .handshake message
  unlogged (Client.onConn do
    TlsConn.writeAll bytes
    Action.modify fun conn => { conn with messages := conn.messages ++ [(.sent, message)] })

def sendClientCertificateBytes (message : Bytes) : Noting Unit := do
  unlogged Client.ensureClientHandshakeKeys
  writeHandshake message
  unlogged do
    Action.modify fun c => { c with clientCertificateBytes := message }
    let transcript ← Client.theTranscript "no transcript"
    Action.modify fun c => { c with transcript := some (transcript.push message) }

def sendClientCertificateVerifyBytes (message : Bytes) : Noting Unit := do
  unlogged Client.ensureClientHandshakeKeys
  writeHandshake message
  unlogged do
    Action.modify fun c => { c with clientCertificateVerifyBytes := message }
    let transcript ← Client.theTranscript "no transcript"
    Action.modify fun c => { c with transcript := some (transcript.push message) }

def sendClientFinishedBytes (message : Bytes) : Noting Unit := do
  unlogged Client.ensureClientHandshakeKeys
  let written ← Action.attempt (writeHandshake message)
  unlogged (Client.clientFinishedSent message)
  Action.lift written

def sendClientFinished : Noting Unit := do
  let w ← Action.get
  let verifyData ← Action.lift w.state.clientVerifyData
  sendClientFinishedBytes (encodeHandshake .finished verifyData)

def sendCcsAndFinishedTogether : Noting Unit := do
  unlogged Client.ensureClientHandshakeKeys
  let w ← Action.get
  let verifyData ← Action.lift w.state.clientVerifyData
  let message := encodeHandshake .finished verifyData
  let ccs := Record.build ContentType.changeCipherSpec.asU8 legacyVersionTls12 [1]
  let protected_ ← Noted.seal .handshake message
  let written ← Action.attempt (unlogged (Client.onConn (TlsConn.writeAll (ccs ++ protected_))))
  unlogged (Client.clientFinishedSent message)
  Action.lift written

def writeAppData (data : Bytes) : Noting Unit := do
  let bytes ← Noted.seal .applicationData data
  unlogged (Client.onConn (TlsConn.writeAll bytes))

def sendKeyUpdate (update : KeyUpdate) : Noting Unit := do
  writeHandshake update.encode
  unlogged Client.rekeyWrite

end Noted

def Sending.noted : Sending → Noting Unit
  | certificateBytes message => Noted.sendClientCertificateBytes message
  | certificateVerifyBytes message => Noted.sendClientCertificateVerifyBytes message
  | finished => Noted.sendClientFinished
  | finishedBytes message => Noted.sendClientFinishedBytes message
  | ccsAndFinishedTogether => Noted.sendCcsAndFinishedTogether
  | appData data => Noted.writeAppData data
  | keyUpdate update => Noted.sendKeyUpdate update

/-! ## Without the notes -/

theorem logs_seal (contentType : ContentType) (content : Bytes) : Action.Logs (Noted.seal contentType content)
      (Client.onConn (TlsConn.onLayer (RecordLayer.seal contentType content 0))) := by
  refine (Action.logs_look fun w => ?_).congr fun c => Action.bind_pure_eq _ c
  refine logs_bind (logs_unlogged _) fun bytes => ?_
  exact Action.logs_note (Action.logs_pure bytes) _

omit [Crates] in
omit [Crates] in
theorem onConn_bind {α β : Type} {x : Action TlsConn TlsError α} {f : α → Action TlsConn TlsError β} (c : Client) :
    (Client.onConn x >>= fun a => Client.onConn (f a)) c = Client.onConn (x >>= f) c := by
  refine (Action.onPart_bind ?_ ?_).symm
  · exact fun _ _ => rfl
  · exact fun _ _ _ => rfl

theorem logs_writeHandshake (message : Bytes) :
    Action.Logs (Noted.writeHandshake message) (Client.onConn (TlsConn.writeHandshake message)) :=
  (logs_bind (logs_seal _ _) fun _ => logs_unlogged _).congr onConn_bind

theorem logs_finishedBytes (message : Bytes) :
    Action.Logs (Noted.sendClientFinishedBytes message) (Client.sendClientFinishedBytes message) := by
  refine logs_bind (logs_unlogged _) fun _ => ?_
  refine logs_bind (Action.logs_attempt (logs_writeHandshake message)) fun written => ?_
  exact logs_bind (logs_unlogged _) fun _ => logs_lift _

/-- **Without its notes** a call is the call. -/
theorem noted_logs (s : Sending) : Action.Logs s.noted s.run := by
  cases s with
  | certificateBytes message =>
    refine (logs_bind (logs_unlogged _) fun _ =>
      logs_bind (logs_writeHandshake message) fun _ => logs_unlogged _).congr fun c => ?_
    exact bind_assoc.symm
  | certificateVerifyBytes message =>
    refine (logs_bind (logs_unlogged _) fun _ =>
      logs_bind (logs_writeHandshake message) fun _ => logs_unlogged _).congr fun c => ?_
    exact bind_assoc.symm
  | finished =>
    refine logs_get fun w => ?_
    exact logs_bind (logs_lift _) fun verifyData => logs_finishedBytes _
  | finishedBytes message => exact logs_finishedBytes message
  | ccsAndFinishedTogether =>
    refine logs_bind (logs_unlogged _) fun _ => logs_get fun w => ?_
    refine logs_bind (logs_lift _) fun verifyData => ?_
    refine logs_bind (logs_seal _ _) fun bytes => ?_
    refine logs_bind (Action.logs_attempt (logs_unlogged _)) fun written => ?_
    exact logs_bind (logs_unlogged _) fun _ => logs_lift _
  | appData data =>
    exact (logs_bind (logs_seal _ _) fun _ => logs_unlogged _).congr onConn_bind
  | keyUpdate update =>
    exact logs_bind (logs_writeHandshake update.encode) fun _ => logs_unlogged _

/-! ## The parts of a call -/

def numbering (w : Logged Client SealedUnder) : Numbering TrafficKeys where
  inForce := w.state.conn.layer.write
  next := w.state.conn.layer.writeSeq.toNat
  used := w.log.map fun x => (x.keys, x.seq.toNat)

/-- A client that has all keys for its own flight: these of the handshake, and these of the application. Its numbers
are `n`, and whether its handshake keys are installed is `i`. -/
structure At (hs app : TrafficKeys) (n : Numbering TrafficKeys) (i : Bool) (w : Logged Client SealedUnder) : Prop where
  transcript : w.state.transcript.isSome
  schedule : ∃ k, w.state.schedule = some k ∧ k.clientHandshake = some hs ∧ k.clientApplication = some app
  numbers : numbering w = n
  installed : w.state.clientHandshakeKeysInstalled = i

def Client.sending (c : Client) : Option TrafficKeys × UInt64 × Bool × Option KeySchedule :=
  (c.conn.layer.write, c.conn.layer.writeSeq, c.clientHandshakeKeysInstalled, c.schedule)

variable {hs app : TrafficKeys} {n : Numbering TrafficKeys} {i : Bool} {w w' : Logged Client SealedUnder}

omit [Crates] in
theorem At.same (h : At hs app n i w) {c : Client} (hc : c.sending = w.state.sending) (ht : c.transcript.isSome) :
    At hs app n i ⟨c, w.log⟩ := by
  obtain ⟨-, hschedule, rfl, hinstalled⟩ := h
  obtain ⟨hwrite, hseq, hflag, hkeys⟩ : c.conn.layer.write = w.state.conn.layer.write ∧
      c.conn.layer.writeSeq = w.state.conn.layer.writeSeq ∧
      c.clientHandshakeKeysInstalled = w.state.clientHandshakeKeysInstalled ∧ c.schedule = w.state.schedule := by
    simpa [Client.sending] using hc
  refine ⟨ht, ?_, ?_, hflag.trans hinstalled⟩
  · rw [hkeys]
    exact hschedule
  · simp only [numbering, hwrite, hseq]

omit [Crates] in
theorem ends_ensure (h : At hs app n i w) :
    Action.Ends False (fun r w' => r = .ok () ∧ w'.log = w.log ∧ At hs app (if i then n else n.install hs) true w')
      (unlogged Client.ensureClientHandshakeKeys w) := by
  obtain ⟨ht, ⟨k, hk, hhs, happ⟩, rfl, rfl⟩ := h
  rw [ends_unlogged]
  unfold Client.ensureClientHandshakeKeys
  refine ends_bind.mpr (ends_get.mpr ?_)
  dsimp only [Action.Gives]
  by_cases hi : w.state.clientHandshakeKeysInstalled = true
  · rw [if_pos hi, if_pos hi]
    exact ⟨rfl, rfl, ht, ⟨k, hk, hhs, happ⟩, rfl, hi⟩
  · rw [if_neg hi, if_neg hi, hk]
    refine ends_bind.mpr (ends_demand.mpr ?_)
    dsimp only [Option.elim, Action.Gives]
    rw [hhs]
    exact ⟨rfl, rfl, ht, ⟨k, hk, hhs, happ⟩, rfl, rfl⟩

/-- **A record** takes the next number, if there are keys; one that is not sealed changes nothing. -/
theorem ends_seal (h : At hs app n i w) (t : ContentType) (content : Bytes) :
    Action.Ends True (Action.Gives (fun _ w' => At hs app n.use i w') fun _ w' => w' = w) (Noted.seal t content w) := by
  obtain ⟨ht, hschedule, rfl, hi⟩ := h
  unfold Noted.seal
  refine ends_bind.mpr (ends_get.mpr (ends_bind.mpr ?_))
  rw [ends_unlogged]
  unfold Client.onConn TlsConn.onLayer
  rw [ends_onPart, ends_onPart]
  cases hseal : RecordLayer.seal t content 0 w.state.conn.layer with
  | none => exact trivial
  | some r =>
    obtain ⟨r, layer⟩ := r
    cases r with
    | error e =>
      obtain rfl := seal_error hseal
      rfl
    | ok bytes =>
      refine ⟨ht, hschedule, ?_, hi⟩
      rcases seal_cases hseal with ⟨hwrite, rfl, -⟩ | ⟨keys, nonce, out, seq, hsealed, rfl, -⟩
      · rw [Numbering.use_none (show (numbering w).inForce = none from hwrite)]
        simp [numbering, RecordLayer.sealsUnder, hwrite]
      · rw [Numbering.use_some (show (numbering w).inForce = some keys from hsealed.hwrite)]
        simp [numbering, RecordLayer.sealsUnder, hsealed.hwrite, nextSeq_toNat hsealed.hseq]

omit [Crates] in
theorem ends_quiet {α : Type} {x : Action Client TlsError α}
    (hx : Action.Keeps (fun c => (c.sending, c.transcript)) x) (h : At hs app n i w) :
    Action.Ends True (fun _ w' => At hs app n i w') (unlogged x w) := by
  rw [ends_unlogged]
  cases hxs : x w.state with
  | none => exact trivial
  | some r =>
    obtain ⟨hsending, htranscript⟩ := Prod.mk.inj (hx _ _ _ hxs)
    exact h.same hsending (htranscript ▸ h.transcript)

omit [Crates] in
theorem keeps_onConn {α : Type} {x : Action TlsConn TlsError α} (hx : Action.Keeps TlsConn.layer x) :
    Action.Keeps (fun c : Client => (c.sending, c.transcript)) (Client.onConn x) := by
  refine Action.keeps_onPart (g := TlsConn.layer) hx fun c conn hlayer => ?_
  simp [Client.sending, hlayer]

omit [Crates] in
theorem keeps_writeAll (bytes : Bytes) : Action.Keeps TlsConn.layer (TlsConn.writeAll bytes) := by
  unfold TlsConn.writeAll
  refine keeps_bind Action.keeps_get fun c => keeps_bind (keeps_modify fun _ => rfl) fun _ => ?_
  split
  · exact Action.keeps_fail
  · exact keeps_modify fun _ => rfl

omit [Crates] in
theorem ends_push (h : At hs app n i w) {f : Client → Client} (hf : ∀ c, (f c).sending = c.sending)
    (ht : ∀ c, (f c).transcript = c.transcript) (message : Bytes) :
    Action.Ends True (fun _ w' => At hs app n i w') (unlogged (do
      Action.modify f
      let transcript ← Client.theTranscript "no transcript"
      Action.modify fun c => { c with transcript := some (transcript.push message) }) w) := by
  rw [ends_unlogged]
  refine ends_bind.mpr (ends_modify.mpr ?_)
  unfold Client.theTranscript
  refine ends_bind.mpr (ends_bind.mpr (ends_get.mpr (ends_demand.mpr ?_)))
  obtain ⟨t, htranscript⟩ := Option.isSome_iff_exists.mp h.transcript
  rw [ht, htranscript]
  exact h.same (c := { f w.state with transcript := some (t.push message) }) (hf w.state) rfl

theorem ends_writeHandshake (h : At hs app n i w) (message : Bytes) :
    Action.Ends True (fun r w' => At hs app n.use i w' ∨ At hs app n i w' ∧ ∃ e, r = .error e)
      (Noted.writeHandshake message w) := by
  refine ends_bind.mpr ((ends_seal h .handshake message).mono fun r w' hr => ?_)
  cases r with
  | error e =>
    obtain rfl := hr
    exact .inr ⟨h, e, rfl⟩
  | ok bytes =>
    refine (ends_quiet (keeps_onConn ?_) hr).mono fun _ _ hat => .inl hat
    exact keeps_bind (keeps_writeAll bytes) fun _ => keeps_modify fun _ => rfl

theorem verifyData_runs (h : At hs app n i w) : ∃ data, w.state.clientVerifyData = .ok data := by
  obtain ⟨k, hk, hhs, -⟩ := h.schedule
  obtain ⟨t, ht⟩ := Option.isSome_iff_exists.mp h.transcript
  obtain ⟨key, hkey⟩ : ∃ key, hs.finishedKey = .ok key :=
    hkdfExpandLabel_runs hs.hash hs.secret "finished" [] (by cases hs.hash <;> decide)
  unfold Client.clientVerifyData
  rw [hk, ht]
  by_cases hempty : w.state.clientCertificateBytes.isEmpty = true
  · refine ⟨k.suite.hash.hmac key w.state.hashAfterServerFinished, except_bind_ok.mpr ⟨k, rfl, ?_⟩⟩
    refine except_bind_ok.mpr ⟨hs, by rw [hhs]; rfl, ?_⟩
    rw [if_pos hempty]
    exact except_bind_ok.mpr ⟨_, rfl, except_bind_ok.mpr ⟨key, hkey, rfl⟩⟩
  · refine ⟨k.suite.hash.hmac key t.current, except_bind_ok.mpr ⟨k, rfl, ?_⟩⟩
    refine except_bind_ok.mpr ⟨hs, by rw [hhs]; rfl, ?_⟩
    rw [if_neg hempty]
    exact except_bind_ok.mpr ⟨t, rfl, except_bind_ok.mpr ⟨_, rfl, except_bind_ok.mpr ⟨key, hkey, rfl⟩⟩⟩

theorem deriveResumptionMaster_runs (hash : Bytes) (k : KeySchedule) :
    ∃ secret, KeySchedule.deriveResumptionMaster hash k = some (.ok secret, { k with resumptionMaster := some secret }) := by
  obtain ⟨secret, hsecret⟩ := deriveSecret_runs k.suite.hash k.masterSecret "res master" hash
  refine ⟨secret, bind_ok.mpr ⟨k, k, rfl, bind_ok.mpr ⟨secret, k, ?_, rfl⟩⟩⟩
  rw [hsecret]
  rfl

/-- **After a Finished** the application keys are in force. -/
theorem ends_finishedSent (h : At hs app n i w) (message : Bytes) :
    Action.Ends False (fun r w' => r = .ok () ∧ w'.log = w.log ∧ At hs app (n.install app) i w')
      (unlogged (Client.clientFinishedSent message) w) := by
  obtain ⟨ht, ⟨k, hk, hhs, happ⟩, rfl, rfl⟩ := h
  obtain ⟨t, ht⟩ := Option.isSome_iff_exists.mp ht
  rw [ends_unlogged]
  unfold Client.clientFinishedSent Client.theTranscript Client.onSchedule
  refine ends_bind.mpr (ends_modify.mpr ?_)
  refine ends_bind.mpr (ends_bind.mpr (ends_get.mpr (ends_demand.mpr ?_)))
  dsimp only [Action.Gives]
  rw [ht]
  refine ends_bind.mpr (ends_modify.mpr ?_)
  refine ends_bind.mpr (ends_bind.mpr (ends_get.mpr ?_))
  refine ends_bind.mpr (ends_demand.mpr ?_)
  rw [hk]
  obtain ⟨secret, hderive⟩ := deriveResumptionMaster_runs (t.push message).current k
  refine ends_onPart.mpr (ends_of_some hderive ?_)
  refine ⟨rfl, rfl, rfl, ⟨_, rfl, hhs, happ⟩, ?_, rfl⟩
  cases hserver : k.serverApplication <;>
    simp [numbering, happ, Numbering.install, RecordLayer.setWrite, RecordLayer.setRead]

theorem ends_rekeyWrite (h : At hs app n i w) :
    Action.Ends False (fun r w' => r = .ok () ∧ ∃ next, app.updated = .ok next ∧ At hs next (n.install next) i w')
      (unlogged Client.rekeyWrite w) := by
  obtain ⟨ht, ⟨k, hk, hhs, happ⟩, rfl, rfl⟩ := h
  obtain ⟨next, hnext⟩ := updated_runs app
  rw [ends_unlogged]
  unfold Client.rekeyWrite
  refine ends_bind.mpr (ends_get.mpr (ends_bind.mpr (ends_demand.mpr ?_)))
  dsimp only [Action.Gives]
  rw [hk]
  refine ends_bind.mpr (ends_demand.mpr ?_)
  dsimp only [Option.elim]
  rw [happ]
  refine ends_bind.mpr (ends_lift.mpr ?_)
  rw [hnext]
  exact ⟨rfl, next, rfl, ht, ⟨_, rfl, hhs, rfl⟩, rfl, rfl⟩

/-! ## The calls -/

def sendStep (w : Logged Client SealedUnder) (s : Sending) :
    Option (Logged Client SealedUnder × Except TlsError Unit) := (s.noted w).map Prod.swap

abbrev Sent := Event (Logged Client SealedUnder) Sending (Except TlsError Unit)

def Sending.ensures : Sending → Bool
  | appData _ => false
  | keyUpdate _ => false
  | _ => true

def Sending.updates : Sending → Bool
  | keyUpdate _ => true
  | _ => false

/-- The call gets as far as `client_finished_sent`: with the ChangeCipherSpec a Finished has to be sealed first. -/
def Sent.finishes (e : Sent) : Prop :=
  match e.input with
  | .finished => True
  | .finishedBytes _ => True
  | .ccsAndFinishedTogether => e.after.log ≠ e.before.log
  | _ => False

inductive Ending (e : Sent) (app : TrafficKeys) (n : Numbering TrafficKeys) : Numbering TrafficKeys → TrafficKeys → Prop
  | nothing (h : ¬e.finishes) : Ending e app n n app
  | finished (h : e.finishes) : Ending e app n (n.install app) app
  | updated {next : TrafficKeys} (h : ¬e.finishes) (hkey : e.input.updates = true) (hnext : app.updated = .ok next) :
      Ending e app n (n.install next) next

def Sending.base (hs : TrafficKeys) (i : Bool) (n : Numbering TrafficKeys) (s : Sending) : Numbering TrafficKeys :=
  if s.ensures && !i then n.install hs else n

/-- What a call does. -/
def Effect (hs app : TrafficKeys) (i : Bool) (n : Numbering TrafficKeys) (e : Sent) : Prop :=
  ∃ m n' app', (m = e.input.base hs i n ∨ m = (e.input.base hs i n).use) ∧ Ending e app m n' app' ∧
    At hs app' n' (i || e.input.ensures) e.after

variable {e : Sent}

theorem ends_certificate (h : At hs app n i w) (message : Bytes) {f : Client → Client}
    (hf : ∀ c, (f c).sending = c.sending) (ht : ∀ c, (f c).transcript = c.transcript) :
    Action.Ends True (fun _ w' => ∃ m, (m = (if i then n else n.install hs) ∨
        m = (if i then n else n.install hs).use) ∧ At hs app m true w')
      ((do
        unlogged Client.ensureClientHandshakeKeys
        Noted.writeHandshake message
        unlogged do
          Action.modify f
          let transcript ← Client.theTranscript "no transcript"
          Action.modify fun c => { c with transcript := some (transcript.push message) } : Noting Unit) w) := by
  refine ends_bind.mpr ?_
  obtain ⟨r, w₁, hensure, rfl, -, hat⟩ := (ends_ensure h).comes
  refine ends_of_some hensure (ends_bind.mpr ((ends_writeHandshake hat message).mono fun r w₂ hr => ?_))
  rcases hr with hat | ⟨hat, e, rfl⟩
  · cases r with
    | ok u => exact (ends_push hat hf ht message).mono fun _ _ hat => ⟨_, .inr rfl, hat⟩
    | error e => exact ⟨_, .inr rfl, hat⟩
  · exact ⟨_, .inl rfl, hat⟩

theorem ends_finishedBytes (h : At hs app n i w) (message : Bytes) :
    Action.Ends True (fun _ w' => ∃ m, (m = (if i then n else n.install hs) ∨
        m = (if i then n else n.install hs).use) ∧ At hs app (m.install app) true w')
      (Noted.sendClientFinishedBytes message w) := by
  refine ends_bind.mpr ?_
  obtain ⟨r, w₁, hensure, rfl, -, hat⟩ := (ends_ensure h).comes
  refine ends_of_some hensure (ends_bind.mpr (Action.ends_attempt.mpr ?_))
  refine (ends_writeHandshake hat message).mono fun written w₂ hr => ?_
  have hlast {m : Numbering TrafficKeys} (hat : At hs app m true w₂) :
      Action.Ends True (fun _ w' => At hs app (m.install app) true w')
        ((unlogged (Client.clientFinishedSent message) >>= fun _ => Action.lift written : Noting Unit) w₂) := by
    obtain ⟨r, w₃, hsent, rfl, -, hat⟩ := (ends_finishedSent hat message).comes
    exact ends_bind.mpr (ends_of_some hsent (ends_lift.mpr hat))
  rcases hr with hat | ⟨hat, -⟩
  · exact (hlast hat).mono fun _ _ hat => ⟨_, .inr rfl, hat⟩
  · exact (hlast hat).mono fun _ _ hat => ⟨_, .inl rfl, hat⟩

theorem ends_finished (h : At hs app n i w) : Action.Ends True (fun _ w' => ∃ m, (m = (if i then n else n.install hs) ∨
        m = (if i then n else n.install hs).use) ∧ At hs app (m.install app) true w')
      (Noted.sendClientFinished w) := by
  obtain ⟨data, hdata⟩ := verifyData_runs h
  refine ends_bind.mpr (ends_get.mpr (ends_bind.mpr (ends_lift.mpr ?_)))
  rw [hdata]
  exact ends_finishedBytes h _

theorem ends_together (h : At hs app n i w) :
    Action.Ends True (fun _ w' => w'.log = w.log ∧ At hs app (if i then n else n.install hs) true w' ∨
        At hs app ((if i then n else n.install hs).use.install app) true w')
      (Noted.sendCcsAndFinishedTogether w) := by
  refine ends_bind.mpr ?_
  obtain ⟨r, w₁, hensure, rfl, hlog, hat⟩ := (ends_ensure h).comes
  refine ends_of_some hensure (ends_bind.mpr (ends_get.mpr ?_))
  obtain ⟨data, hdata⟩ := verifyData_runs hat
  refine ends_bind.mpr (ends_lift.mpr ?_)
  rw [hdata]
  refine ends_bind.mpr ((ends_seal hat .handshake _).mono fun r w₂ hr => ?_)
  cases r with
  | error e =>
    obtain rfl := hr
    exact .inl ⟨hlog, hat⟩
  | ok bytes =>
    refine ends_bind.mpr (Action.ends_attempt.mpr ?_)
    refine (ends_quiet (keeps_onConn (keeps_writeAll _)) hr).mono fun written w₃ hat => ?_
    obtain ⟨r, w₄, hsent, rfl, -, hat⟩ := (ends_finishedSent hat _).comes
    exact ends_bind.mpr (ends_of_some hsent (ends_lift.mpr (.inr hat)))

theorem ends_appData (h : At hs app n i w) (data : Bytes) :
    Action.Ends True (fun _ w' => ∃ m, (m = n ∨ m = n.use) ∧ At hs app m i w') (Noted.writeAppData data w) := by
  refine ends_bind.mpr ((ends_seal h .applicationData data).mono fun r w' hr => ?_)
  cases r with
  | error e =>
    obtain rfl := hr
    exact ⟨n, .inl rfl, h⟩
  | ok bytes => exact (ends_quiet (keeps_onConn (keeps_writeAll bytes)) hr).mono fun _ _ hat => ⟨_, .inr rfl, hat⟩

theorem ends_keyUpdate (h : At hs app n i w) (update : KeyUpdate) :
    Action.Ends True (fun _ w' => ∃ m, (m = n ∨ m = n.use) ∧ (At hs app m i w' ∨
        ∃ next, app.updated = .ok next ∧ At hs next (m.install next) i w')) (Noted.sendKeyUpdate update w) := by
  refine ends_bind.mpr ((ends_writeHandshake h update.encode).mono fun r w' hr => ?_)
  rcases hr with hat | ⟨hat, e, rfl⟩
  · cases r with
    | error e => exact ⟨_, .inr rfl, .inl hat⟩
    | ok u =>
      obtain ⟨r, w₂, hrekey, rfl, next, hnext, hat⟩ := (ends_rekeyWrite hat).comes
      exact ends_of_some hrekey ⟨_, .inr rfl, .inr ⟨next, hnext, hat⟩⟩
  · exact ⟨_, .inl rfl, .inl hat⟩

omit [Crates] in
theorem log_ne {m : Numbering TrafficKeys} {j : Bool} (h : At hs app n i w) (hat : At hs app m j w')
    (hused : m.used ≠ n.used) : w'.log ≠ w.log := by
  obtain ⟨-, -, rfl, -⟩ := h
  obtain ⟨-, -, rfl, -⟩ := hat
  exact fun hlog => hused (congrArg (List.map _) hlog)

/-- **What a call does** to the numbers. -/
theorem sent_effect (h : At hs app n i e.before) (hforce : i = true → n.inForce.isSome)
    (hstep : sendStep e.before e.input = some (e.after, e.output)) : Effect hs app i n e := by
  obtain ⟨w, s, o, w'⟩ := e
  obtain ⟨⟨r, w₁⟩, hrun, hswap⟩ := Option.map_eq_some_iff.mp hstep
  cases hswap
  change At hs app n i w at h
  have hbase : (if true && !i then n.install hs else n) = if i then n else n.install hs := by cases i <;> rfl
  -- the calls of the flight, and the others
  have hflight {m : Numbering TrafficKeys} (hm : m = (if i then n else n.install hs) ∨
      m = (if i then n else n.install hs).use) : m = (if true && !i then n.install hs else n) ∨
      m = (if true && !i then n.install hs else n).use := by rwa [hbase]
  have hdone {m : Numbering TrafficKeys} {app' : TrafficKeys} (hat : At hs app' m true w') :
      At hs app' m (i || true) w' := by rwa [Bool.or_true]
  have hother {m : Numbering TrafficKeys} {app' : TrafficKeys} (hat : At hs app' m i w') :
      At hs app' m (i || false) w' := by rwa [Bool.or_false]
  cases s with
  | certificateBytes message =>
    obtain ⟨m, hm, hat⟩ := (ends_certificate h message
      (f := fun c => { c with clientCertificateBytes := message }) (fun _ => rfl) fun _ => rfl).some hrun
    exact ⟨m, m, app, hflight hm, .nothing id, hdone hat⟩
  | certificateVerifyBytes message =>
    obtain ⟨m, hm, hat⟩ := (ends_certificate h message
      (f := fun c => { c with clientCertificateVerifyBytes := message }) (fun _ => rfl) fun _ => rfl).some hrun
    exact ⟨m, m, app, hflight hm, .nothing id, hdone hat⟩
  | finished =>
    obtain ⟨m, hm, hat⟩ := (ends_finished h).some hrun
    exact ⟨m, _, app, hflight hm, .finished trivial, hdone hat⟩
  | finishedBytes message =>
    obtain ⟨m, hm, hat⟩ := (ends_finishedBytes h message).some hrun
    exact ⟨m, _, app, hflight hm, .finished trivial, hdone hat⟩
  | ccsAndFinishedTogether =>
    obtain ⟨hlog, hat⟩ | hat := (ends_together h).some hrun
    · exact ⟨_, _, app, hflight (.inl rfl), .nothing fun hne => hne hlog, hdone hat⟩
    · refine ⟨_, _, app, hflight (.inr rfl), .finished (log_ne h hat ?_), hdone hat⟩
      obtain ⟨k, hk, hused⟩ : ∃ k, (if i then n else n.install hs).inForce = some k ∧
          (if i then n else n.install hs).used = n.used := by
        cases i with
        | false => exact ⟨hs, rfl, rfl⟩
        | true => exact ⟨_, (Option.eq_some_of_isSome (hforce rfl)), rfl⟩
      rw [Numbering.install_used, Numbering.use_some hk, hused]
      simp
  | appData data =>
    obtain ⟨m, hm, hat⟩ := (ends_appData h data).some hrun
    exact ⟨m, m, app, hm, .nothing id, hother hat⟩
  | keyUpdate update =>
    obtain ⟨m, hm, hat | ⟨next, hnext, hat⟩⟩ := (ends_keyUpdate h update).some hrun
    · exact ⟨m, m, app, hm, .nothing id, hother hat⟩
    · exact ⟨m, _, next, hm, .updated id rfl hnext, hother hat⟩

end

end BuildYourOwn.Tls
