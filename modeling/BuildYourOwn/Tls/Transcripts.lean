import BuildYourOwn.Tls.Flight

/-!
# The transcript of a handshake

The transcript of `tlstest/src/tls/client.rs` is pushed to at ten places, changes its hash in the middle,
is rewritten by a HelloRetryRequest, and its hash is taken at six. `Carries` is what holds at all of them:
it has the messages that crossed the connection so far, tickets left out (`crossed`), under the hash of
the suite.

* `Client.settled` is what no message after the ServerHello changes, and `Negotiated` what it says.
* Each function of the flights gives a lemma that says what it leaves (`writeClientHandshake_ok` …
  `clientFinishedSent_ok`), and the flight an invariant of its loop (`readServerFlight_ends`).
-/

namespace BuildYourOwn.Tls

open Lib
open Lib.Action (bind_demand_ok bind_get_ok bind_lift_ok bind_modify_ok bind_ok modify_ok)

section variable [Crates]

variable {c c' : Client} {u : Unit} {suite : Suite} {hellos messages : List (Direction × Bytes)}

/-! ## What the ServerHello settles -/

def Client.settled (c : Client) : ClientConfig × Bytes × Option ServerHello × Option ServerHello × Bytes ×
    Option Suite × Bytes × Bytes × Bytes :=
  (c.config, c.clientHelloBytes, c.helloRetryRequest, c.serverHello, c.serverHelloBytes, c.suite,
    c.sharedSecret, c.hashAfterClientHello, c.hashAfterServerHello)

omit [Crates] in
theorem settled_read {c₁ : Client} (h : c.SameButRead c₁) : c₁.settled = c.settled := by
  rw [h]
  rfl

theorem Negotiated.of_settled (h : Negotiated c hellos suite) (hsame : c'.settled = c.settled) :
    Negotiated c' hellos suite := by
  simp only [Client.settled, Prod.mk.injEq] at hsame
  obtain ⟨-, hhello, hretry, hserver, hraw, hsuite, -, hafter, hafter'⟩ := hsame
  obtain ⟨hshape, hchosen, hmessage, hclient, hserver'⟩ := h
  refine ⟨hshape.of_same hretry hhello, hsuite.trans hchosen, ?_, ?_, ?_⟩
  · rw [hserver, hraw]
    exact hmessage
  · rw [hafter, hretry]
    exact hclient
  · rw [hafter', hretry, hraw]
    exact hserver'

theorem Scheduled.of_settled {k : KeySchedule} (h : Scheduled c suite k) (hsame : c'.settled = c.settled) :
    Scheduled c' suite k := by
  simp only [Client.settled, Prod.mk.injEq] at hsame
  obtain ⟨hconfig, -, -, hserver, -, -, hshared, -, hafter⟩ := hsame
  unfold Scheduled at *
  rw [hconfig, hserver, hshared, hafter]
  exact h

omit [Crates] in
/-! ## The transcript carries what crossed -/

variable {t : Transcript}

theorem Carries.take {c₁ : Client} {what : String} {m : HandshakeMessage}
    (hc : Carries c suite messages) (hne : messages ≠ [])
    (hnext : Client.nextHandshake what c = some (.ok m, c₁)) (ht : c₁.transcript = some t)
    (hconn : c'.conn = c₁.conn) (ht' : c'.transcript = some (t.push m.raw))
    (hretry : c'.helloRetryRequest = c₁.helloRetryRequest) : Carries c' suite (messages ++ [(.received, m.raw)]) := by
  obtain ⟨hsame, -, -, hcrossed, hframed, -⟩ := nextHandshake_ok hnext
  have hold : c₁.transcript = c.transcript := by rw [hsame]
  have hretried : c₁.helloRetryRequest = c.helloRetryRequest := by rw [hsame]
  obtain rfl := Option.some.inj ((ht.symm.trans hold).trans hc.transcript)
  refine ⟨?_, hconn ▸ hframed hc.framed, ?_⟩
  · rw [hconn, hcrossed, hc.crossed]
  · rw [ht', hretry, hretried, transcribed_append hne]
    exact congrArg (fun b => some (Transcript.mk suite.hash (_ ++ b))) (List.append_nil m.raw).symm

variable {bytes : Bytes}

theorem Carries.send (hc : Carries c suite messages) (hne : messages ≠ [])
    (hmessages : c'.conn.messages = c.conn.messages ++ [(.sent, bytes)])
    (hframed : c.conn.Framed → c'.conn.Framed) (ht : c.transcript = some t)
    (ht' : c'.transcript = some (t.push bytes)) (hretry : c'.helloRetryRequest = c.helloRetryRequest) :
    Carries c' suite (messages ++ [(.sent, bytes)]) := by
  obtain rfl := Option.mem_unique ht hc.transcript
  refine ⟨?_, hframed hc.framed, ?_⟩
  · rw [crossed_sent hmessages, hc.crossed]
  · rw [ht', hretry, transcribed_append hne]
    exact congrArg (fun b => some (Transcript.mk suite.hash (_ ++ b))) (List.append_nil bytes).symm

theorem Carries.current (hc : Carries c suite messages) (ht : c.transcript = some t) :
    t.current = suite.hash.digest (transcribed suite.hash c.helloRetryRequest.isSome messages) := by
  obtain rfl := Option.mem_unique ht hc.transcript
  rfl

/-! ## The flight -/

def hashOf (c : Client) (suite : Suite) (messages : List (Direction × Bytes)) : Bytes :=
  suite.hash.digest (transcribed suite.hash c.helloRetryRequest.isSome messages)

/-- What the server's Finished leaves, after these messages: it moves the schedule from `k` to `k'`. -/
structure ServerFinished (c : Client) (suite : Suite) (messages : List (Direction × Bytes))
    (k k' : KeySchedule) : Prop where
  finished : c.serverFinishedBytes = encodeHandshake .finished c.serverVerifyData
  before : c.hashBeforeServerFinished = hashOf c suite messages
  verified : ∃ keys, k.serverHandshake = some keys ∧
    k.verifyData keys c.hashBeforeServerFinished = .ok c.serverVerifyData
  after : c.hashAfterServerFinished =
    hashOf c suite (messages ++ [(.received, c.serverFinishedBytes)])
  entered : KeySchedule.enterApplication c.hashAfterServerFinished k = some (.ok (), k')

inductive Answer (c : Client) : List (Direction × Bytes) → Prop
  | nothing (h : c.clientCertificateBytes = []) : Answer c []
  | certificate (h : c.clientCertificateBytes ≠ []) : Answer c [(.sent, c.clientCertificateBytes)]
  | verified (h : c.clientCertificateBytes ≠ []) :
      Answer c [(.sent, c.clientCertificateBytes), (.sent, c.clientCertificateVerifyBytes)]

structure Replied (c : Client) (suite : Suite) (messages answer : List (Direction × Bytes))
    (k k' : KeySchedule) : Prop where
  finished : ServerFinished c suite messages k k'
  shape : Answer c answer
  carries : Carries c suite (messages ++ [(.received, c.serverFinishedBytes)] ++ answer)
  schedule : c.schedule = some k'

section variable [Signatures]

structure Flying (c₀ : Client) (suite : Suite) (messages : List (Direction × Bytes)) (c : Client) :
    Prop where
  settled : c.settled = c₀.settled
  carries : ∃ flight, (∀ m ∈ flight, m.1 = .received) ∧ Carries c suite (messages ++ flight)
  schedule : c.schedule = c₀.schedule
  unanswered : c.clientCertificateBytes = []

variable {c₀ : Client} {resumed : Bool} {i j : Bool × Option HandshakeType}

theorem flightRound_flying (hne : messages ≠ []) (hc : Flying c₀ suite messages c)
    (h : Client.flightRound resumed i c = some (.ok (.inl j), c')) : Flying c₀ suite messages c' := by
  obtain ⟨m, c₁, t, hnext, -, ht, htakes⟩ := flightRound_ok.mp h
  have hsame := (nextHandshake_ok hnext).1
  have hsettled : c₁.settled = c₀.settled := (settled_read hsame).trans hc.settled
  have hschedule : c₁.schedule = c₀.schedule := by rw [hsame]; exact hc.schedule
  have hun : c₁.clientCertificateBytes = [] := by rw [hsame]; exact hc.unanswered
  obtain ⟨flight, hin, hcarries⟩ := hc.carries
  have hpush (hconn : c'.conn = c₁.conn) (ht' : c'.transcript = some (t.push m.raw))
      (hretry : c'.helloRetryRequest = c₁.helloRetryRequest) :
      ∃ flight, (∀ m ∈ flight, m.1 = .received) ∧ Carries c' suite (messages ++ flight) := by
    refine ⟨flight ++ [(.received, m.raw)], ?_, ?_⟩
    · intro m' hm'
      obtain hm' | hm' := List.mem_append.mp hm'
      · exact hin m' hm'
      · rw [List.mem_singleton.mp hm']
    · rw [← List.append_assoc]
      exact hcarries.take (by simp [hne]) hnext ht hconn ht' hretry
  cases htakes with
  | extensions _ _ htake =>
    obtain ⟨_, _, rfl⟩ := takeEncryptedExtensions_ok.mp htake
    exact ⟨hsettled, hpush rfl rfl rfl, hschedule, hun⟩
  | request _ htake =>
    obtain ⟨_, _, rfl⟩ := takeCertificateRequest_ok.mp htake
    exact ⟨hsettled, hpush rfl rfl rfl, hschedule, hun⟩
  | certificate _ htake =>
    obtain ⟨_, _, _, rfl⟩ := takeCertificate_ok.mp htake
    exact ⟨hsettled, hpush rfl rfl rfl, hschedule, hun⟩
  | verify _ htake =>
    obtain ⟨_, _, _, _, rfl⟩ := takeCertificateVerify_ok.mp htake
    exact ⟨hsettled, hpush rfl rfl rfl, hschedule, hun⟩

theorem flightRound_finished {v : Unit} {k : KeySchedule} (hne : messages ≠ [])
    (hk : c₀.schedule = some k) (hc : Flying c₀ suite messages c)
    (h : Client.flightRound resumed i c = some (.ok (.inr v), c')) :
    ∃ flight k', (∀ m ∈ flight, m.1 = .received) ∧ c'.settled = c₀.settled ∧
      Replied c' suite (messages ++ flight) [] k k' := by
  obtain ⟨m, c₁, t, hnext, -, ht, htakes⟩ := flightRound_ok.mp h
  obtain ⟨hsame, -, hraw, -⟩ := nextHandshake_ok hnext
  have hsettled : c₁.settled = c₀.settled := (settled_read hsame).trans hc.settled
  have hschedule : c₁.schedule = some k := by rw [hsame]; exact hc.schedule.trans hk
  have hun : c₁.clientCertificateBytes = [] := by rw [hsame]; exact hc.unanswered
  have hretry : c₁.helloRetryRequest = c.helloRetryRequest := by rw [hsame]
  have hold : c.transcript = some t := by rw [← ht, hsame]
  obtain ⟨flight, hin, hcarries⟩ := hc.carries
  cases htakes with
  | finished htype htake =>
    obtain ⟨k₁, keys, k', hk₁, hkeys, hverify, henter, rfl⟩ := takeServerFinished_ok.mp htake
    obtain rfl : k = k₁ := Option.mem_unique hschedule hk₁
    have htaken : Carries { c₁ with
        hashBeforeServerFinished := t.current
        serverVerifyData := m.body
        serverFinishedBytes := m.raw
        transcript := some (t.push m.raw)
        hashAfterServerFinished := (t.push m.raw).current
        schedule := some k' } suite (messages ++ flight ++ [(.received, m.raw)]) :=
      hcarries.take (by simp [hne]) hnext ht rfl rfl rfl
    refine ⟨flight, k', hin, hsettled, ⟨?_, ?_, ⟨keys, hkeys, hverify⟩, htaken.current rfl, henter⟩,
      .nothing hun, ?_, rfl⟩
    · rw [← htype]
      exact hraw
    · exact (hcarries.current hold).trans (by unfold hashOf; rw [hretry])
    · rw [List.append_nil]
      exact htaken

theorem readServerFlight_ends {k : KeySchedule} (hne : messages ≠ []) (hc : Carries c suite messages)
    (hk : c.schedule = some k) (hun : c.clientCertificateBytes = [])
    (h : Client.readServerFlight c = some (.ok u, c')) :
    ∃ flight k', (∀ m ∈ flight, m.1 = .received) ∧ c'.settled = c.settled ∧
      Replied c' suite (messages ++ flight) [] k k' := by
  obtain ⟨_, t, hflying, hlast⟩ := (readServerFlight_runs.mp h).invariant
    (fun _ t => Flying c suite messages t)
    (fun _ _ _ _ ht hround => flightRound_flying hne ht hround)
    ⟨rfl, ⟨[], by simp, by rwa [List.append_nil]⟩, rfl, hun⟩
  exact flightRound_finished hne hk hflying hlast

end

/-! ## The answer -/

omit [Crates] in
theorem ensureClientHandshakeKeys_ok (h : Client.ensureClientHandshakeKeys c = some (.ok u, c')) :
    ∃ conn installed, conn.messages = c.conn.messages ∧ (c.conn.Framed → conn.Framed) ∧
      c' = { c with conn := conn, clientHandshakeKeysInstalled := installed } := by
  unfold Client.ensureClientHandshakeKeys at h
  replace h := bind_get_ok.mp h
  split at h
  · obtain ⟨-, rfl⟩ := Action.pure_ok.mp h
    exact ⟨c.conn, c.clientHandshakeKeysInstalled, rfl, id, rfl⟩
  · obtain ⟨schedule, -, h⟩ := bind_demand_ok.mp h
    obtain ⟨keys, -, h⟩ := bind_demand_ok.mp h
    obtain rfl := modify_ok.mp h
    exact ⟨{ c.conn with layer := c.conn.layer.setWrite keys }, true, rfl, id, rfl⟩

theorem writeClientHandshake_ok (h : Client.writeClientHandshake bytes c = some (.ok u, c')) :
    ∃ conn installed, conn.messages = c.conn.messages ++ [(.sent, bytes)] ∧
      (c.conn.Framed → conn.Framed) ∧ c' = { c with conn := conn, clientHandshakeKeysInstalled := installed } := by
  unfold Client.writeClientHandshake at h
  obtain ⟨_, _, hensure, h⟩ := bind_ok.mp h
  obtain ⟨conn, installed, hmessages, hframed, rfl⟩ := ensureClientHandshakeKeys_ok hensure
  obtain ⟨conn', rfl, hmessages', hframed'⟩ := onConn_writeHandshake h
  exact ⟨conn', installed, hmessages'.trans (congrArg (· ++ _) hmessages), fun hf => hframed' (hframed hf),
    rfl⟩

theorem sendClientCertificateBytes_ok (h : Client.sendClientCertificateBytes bytes c = some (.ok u, c')) :
    ∃ conn installed t, conn.messages = c.conn.messages ++ [(.sent, bytes)] ∧
      (c.conn.Framed → conn.Framed) ∧ c.transcript = some t ∧
      c' = { c with
        conn := conn
        clientHandshakeKeysInstalled := installed
        clientCertificateBytes := bytes
        transcript := some (t.push bytes) } := by
  unfold Client.sendClientCertificateBytes at h
  obtain ⟨_, _, hwrite, h⟩ := bind_ok.mp h
  obtain ⟨conn, installed, hmessages, hframed, rfl⟩ := writeClientHandshake_ok hwrite
  replace h := bind_modify_ok.mp h
  obtain ⟨t, _, htranscript, h⟩ := bind_ok.mp h
  obtain ⟨ht, rfl⟩ := theTranscript_ok.mp htranscript
  obtain rfl := modify_ok.mp h
  exact ⟨conn, installed, t, hmessages, hframed, ht, rfl⟩

theorem sendClientCertificateVerifyBytes_ok (h : Client.sendClientCertificateVerifyBytes bytes c = some (.ok u, c')) :
    ∃ conn installed t, conn.messages = c.conn.messages ++ [(.sent, bytes)] ∧
      (c.conn.Framed → conn.Framed) ∧ c.transcript = some t ∧
      c' = { c with
        conn := conn
        clientHandshakeKeysInstalled := installed
        clientCertificateVerifyBytes := bytes
        transcript := some (t.push bytes) } := by
  unfold Client.sendClientCertificateVerifyBytes at h
  obtain ⟨_, _, hwrite, h⟩ := bind_ok.mp h
  obtain ⟨conn, installed, hmessages, hframed, rfl⟩ := writeClientHandshake_ok hwrite
  replace h := bind_modify_ok.mp h
  obtain ⟨t, _, htranscript, h⟩ := bind_ok.mp h
  obtain ⟨ht, rfl⟩ := theTranscript_ok.mp htranscript
  obtain rfl := modify_ok.mp h
  exact ⟨conn, installed, t, hmessages, hframed, ht, rfl⟩

variable {k k' : KeySchedule} {answer : List (Direction × Bytes)}

theorem sendClientCertificateBytes_replied (hbytes : bytes ≠ []) (hc : Replied c suite messages [] k k')
    (h : Client.sendClientCertificateBytes bytes c = some (.ok u, c')) :
    c'.settled = c.settled ∧ c'.clientCertificateBytes = bytes ∧ Replied c' suite messages [(.sent, bytes)] k k' := by
  obtain ⟨conn, installed, t, hmessages, hframed, ht, rfl⟩ := sendClientCertificateBytes_ok h
  obtain ⟨⟨hfinished, hbefore, hverified, hafter, hentered⟩, -, hcarries, hschedule⟩ := hc
  rw [List.append_nil] at hcarries
  refine ⟨rfl, rfl, ⟨hfinished, hbefore, hverified, hafter, hentered⟩, .certificate hbytes, ?_, hschedule⟩
  exact hcarries.send (by simp) hmessages hframed ht rfl rfl

theorem sendClientCertificateVerifyBytes_replied {cert bytes : Bytes}
    (hcert : c.clientCertificateBytes = cert) (hne : cert ≠ []) (hc : Replied c suite messages [(.sent, cert)] k k')
    (h : Client.sendClientCertificateVerifyBytes bytes c = some (.ok u, c')) :
    c'.settled = c.settled ∧ Replied c' suite messages [(.sent, cert), (.sent, bytes)] k k' := by
  obtain ⟨conn, installed, t, hmessages, hframed, ht, rfl⟩ := sendClientCertificateVerifyBytes_ok h
  obtain ⟨⟨hfinished, hbefore, hverified, hafter, hentered⟩, -, hcarries, hschedule⟩ := hc
  subst hcert
  refine ⟨rfl, ⟨hfinished, hbefore, hverified, hafter, hentered⟩, .verified hne, ?_, hschedule⟩
  rw [show [(.sent, c.clientCertificateBytes), (.sent, bytes)] =
    [((.sent, c.clientCertificateBytes) : Direction × Bytes)] ++ [(.sent, bytes)] from rfl,
    ← List.append_assoc]
  exact hcarries.send (by simp) hmessages hframed ht rfl rfl

theorem sendEmptyClientCertificate_replied (hc : Replied c suite messages [] k k')
    (h : Client.sendEmptyClientCertificate c = some (.ok u, c')) :
    c'.settled = c.settled ∧ ∃ answer, answer.length = 1 ∧ Replied c' suite messages answer k k' := by
  unfold Client.sendEmptyClientCertificate at h
  replace h := bind_get_ok.mp h
  obtain ⟨hsettled, -, hanswered⟩ :=
    sendClientCertificateBytes_replied (List.cons_ne_nil _ _) hc h
  exact ⟨hsettled, _, rfl, hanswered⟩

theorem sendClientAuth_replied [Signatures] {auth : ClientAuth} (hc : Replied c suite messages [] k k')
    (h : Client.sendClientAuth auth c = some (.ok u, c')) :
    c'.settled = c.settled ∧ ∃ answer, answer.length = 2 ∧ Replied c' suite messages answer k k' := by
  unfold Client.sendClientAuth at h
  replace h := bind_get_ok.mp h
  obtain ⟨request, -, h⟩ := bind_demand_ok.mp h
  obtain ⟨accepted, -, h⟩ := bind_lift_ok.mp h
  obtain ⟨-, h⟩ := Action.bind_require_ok.mp h
  obtain ⟨_, c₁, hcert, h⟩ := bind_ok.mp h
  obtain ⟨hsettled, hbytes, hanswered⟩ :=
    sendClientCertificateBytes_replied (List.cons_ne_nil _ _) hc hcert
  obtain ⟨t, _, htranscript, h⟩ := bind_ok.mp h
  obtain ⟨-, rfl⟩ := theTranscript_ok.mp htranscript
  obtain ⟨signature, -, h⟩ := bind_lift_ok.mp h
  obtain ⟨hsettled', hverified⟩ :=
    sendClientCertificateVerifyBytes_replied hbytes (List.cons_ne_nil _ _) hanswered h
  exact ⟨hsettled'.trans hsettled, _, rfl, hverified⟩

/-! ## The client's Finished -/

theorem clientVerifyData_ok {data : Bytes} (hc : Replied c suite messages answer k k')
    (h : c.clientVerifyData = .ok data) : ∃ keys, k'.clientHandshake = some keys ∧
      k'.verifyData keys (hashOf c suite (messages ++ [(.received, c.serverFinishedBytes)] ++ answer)) = .ok data := by
  unfold Client.clientVerifyData at h
  rw [hc.schedule] at h
  obtain ⟨schedule, hschedule, h⟩ := except_bind_ok.mp h
  obtain rfl : k' = schedule := Except.ok.inj hschedule
  obtain ⟨keys, hkeys, h⟩ := except_bind_ok.mp h
  have hsome : k'.clientHandshake = some keys := by
    cases hcases : k'.clientHandshake with
    | none =>
      rw [hcases] at hkeys
      cases hkeys
    | some keys' =>
      rw [hcases] at hkeys
      cases hkeys
      rfl
  refine ⟨keys, hsome, ?_⟩
  -- with an answer the hash is the one of the transcript as it stands
  have hstands (hne : c.clientCertificateBytes ≠ []) : k'.verifyData keys
      (hashOf c suite (messages ++ [(.received, c.serverFinishedBytes)] ++ answer)) = .ok data := by
    rw [if_neg (by simpa using hne), hc.carries.transcript] at h
    exact h
  cases hc.shape with
  | nothing hnone =>
    rw [if_pos (by simp [hnone]), hc.finished.after] at h
    rw [List.append_nil]
    exact h
  | certificate hne => exact hstands hne
  | verified hne => exact hstands hne

theorem clientFinishedSent_ok (h : Client.clientFinishedSent bytes c = some (.ok u, c')) :
    ∃ t k k' secret layer, c.transcript = some t ∧ c.schedule = some k ∧
      KeySchedule.deriveResumptionMaster (t.push bytes).current k = some (.ok secret, k') ∧
      (∀ client server, k'.clientApplication = some client → k'.serverApplication = some server →
        layer = (c.conn.layer.setWrite client).setRead server) ∧
      c' = { c with
        clientFinishedBytes := bytes
        transcript := some (t.push bytes)
        hashAfterClientFinished := (t.push bytes).current
        schedule := some k'
        conn := { c.conn with layer := layer }
        finished := true } := by
  unfold Client.clientFinishedSent Client.onSchedule at h
  replace h := bind_modify_ok.mp h
  obtain ⟨t, _, htranscript, h⟩ := bind_ok.mp h
  obtain ⟨ht, rfl⟩ := theTranscript_ok.mp htranscript
  replace h := bind_modify_ok.mp h
  obtain ⟨secret, _, hschedule, h⟩ := bind_ok.mp h
  replace hschedule := bind_get_ok.mp hschedule
  obtain ⟨k, hk, hschedule⟩ := bind_demand_ok.mp hschedule
  obtain ⟨k', hderive, rfl⟩ := Action.onPart_ok.mp hschedule
  obtain rfl := modify_ok.mp h
  refine ⟨t, k, k', secret, _, ht, hk, hderive, fun client server hclient hserver => ?_, rfl⟩
  rw [Option.bind_some, Option.bind_some, hclient, hserver]
  rfl

/-- What the client's Finished leaves, after these messages: it moves the schedule from `k` to `k'`. -/
structure ClientFinished (c : Client) (suite : Suite) (messages : List (Direction × Bytes))
    (k k' : KeySchedule) : Prop where
  carries : Carries c suite (messages ++ [(.sent, c.clientFinishedBytes)])
  verified : ∃ keys data, k.clientHandshake = some keys ∧
    k.verifyData keys (hashOf c suite messages) = .ok data ∧
    c.clientFinishedBytes = encodeHandshake .finished data
  after : c.hashAfterClientFinished = hashOf c suite (messages ++ [(.sent, c.clientFinishedBytes)])
  resumed : ∃ secret, KeySchedule.deriveResumptionMaster c.hashAfterClientFinished k =
    some (.ok secret, k')
  schedule : c.schedule = some k'

theorem sendClientFinished_ends (hc : Replied c suite messages answer k k')
    (h : Client.sendClientFinished c = some (.ok u, c')) :
    ∃ k'', c'.settled = c.settled ∧ ServerFinished c' suite messages k k' ∧ Answer c' answer ∧
      c'.serverFinishedBytes = c.serverFinishedBytes ∧
      ClientFinished c' suite (messages ++ [(.received, c.serverFinishedBytes)] ++ answer) k' k'' := by
  unfold Client.sendClientFinished Client.sendClientFinishedBytes at h
  replace h := bind_get_ok.mp h
  obtain ⟨data, hdata, h⟩ := bind_lift_ok.mp h
  obtain ⟨keys, hkeys, hverify⟩ := clientVerifyData_ok hc hdata
  obtain ⟨_, c₁, hensure, h⟩ := bind_ok.mp h
  obtain ⟨conn, installed, hmessages, hframed, rfl⟩ := ensureClientHandshakeKeys_ok hensure
  obtain ⟨written, c₂, hattempt, h⟩ := bind_ok.mp h
  obtain ⟨_, c₃, hsent, h⟩ := bind_ok.mp h
  obtain ⟨rfl, rfl⟩ := Action.lift_ok.mp h
  obtain ⟨conn', rfl, hmessages', hframed'⟩ := onConn_writeHandshake (Action.attempt_ok.mp hattempt)
  obtain ⟨t, k₁, k'', secret, layer, ht, hk₁, hderive, -, rfl⟩ := clientFinishedSent_ok hsent
  obtain ⟨⟨hfinished, hbefore, hverified, hafter, hentered⟩, hshape, hcarries, hschedule⟩ := hc
  obtain rfl : k' = k₁ := Option.mem_unique hschedule hk₁
  have hcarried : Carries { c with
      conn := { conn' with layer := layer }
      clientHandshakeKeysInstalled := installed
      clientFinishedBytes := encodeHandshake .finished data
      transcript := some (t.push (encodeHandshake .finished data))
      hashAfterClientFinished := (t.push (encodeHandshake .finished data)).current
      schedule := some k''
      finished := true } suite (messages ++ [(.received, c.serverFinishedBytes)] ++ answer ++
        [(.sent, encodeHandshake .finished data)]) :=
    hcarries.send (by simp) (hmessages'.trans (congrArg (· ++ _) hmessages))
      (fun hf => hframed' (hframed hf)) ht rfl rfl
  refine ⟨k'', rfl, ⟨hfinished, hbefore, hverified, hafter, hentered⟩, ?_, rfl, hcarried,
    ⟨keys, data, hkeys, hverify, rfl⟩, hcarried.current rfl, ⟨secret, hderive⟩, rfl⟩
  cases hshape with
  | nothing h => exact .nothing h
  | certificate h => exact .certificate h
  | verified h => exact .verified h

/-! ## Whole handshakes -/

variable [Curves] [Signatures]

/-- The three handshakes, and how many messages each answers the server's flight with. -/
inductive Handshake : Action Client TlsError Unit → Nat → Prop
  | plain : Handshake Client.handshake 0
  | authenticating (auth : ClientAuth) : Handshake (Client.handshakeWithClientAuth auth) 2
  | declining : Handshake Client.handshakeDecliningClientAuth 1

omit [Curves] [Signatures] in
/-- What is left of a whole handshake: its messages, what the hashes are taken over, and the three
schedules. -/
structure Transcribed (c : Client) (suite : Suite) (hellos flight answer : List (Direction × Bytes))
    (k₁ k₂ k₃ : KeySchedule) : Prop where
  negotiated : Negotiated c hellos suite
  scheduled : Scheduled c suite k₁
  incoming : ∀ m ∈ flight, m.1 = .received
  server : ServerFinished c suite (hellos ++ [(.received, c.serverHelloBytes)] ++ flight) k₁ k₂
  answered : Answer c answer
  client : ClientFinished c suite (hellos ++ [(.received, c.serverHelloBytes)] ++ flight ++
    [(.received, c.serverFinishedBytes)] ++ answer) k₂ k₃

theorem handshakeThroughServerFlight_replied {arrivals : List (Except TlsError Bytes)}
    {refusals : List (Option String)} {config : ClientConfig}
    (h : Client.handshakeThroughServerFlight (.over (.new arrivals refusals) config) = some (.ok u, c)) :
    ∃ suite hellos flight k k', Negotiated c hellos suite ∧ Scheduled c suite k ∧
      (∀ m ∈ flight, m.1 = .received) ∧
      Replied c suite (hellos ++ [(.received, c.serverHelloBytes)] ++ flight) [] k k' := by
  unfold Client.handshakeThroughServerFlight at h
  obtain ⟨_, c₁, hhello, h⟩ := bind_ok.mp h
  obtain ⟨_, c₂, hccs, h⟩ := bind_ok.mp h
  obtain ⟨_, c₃, hserver, h⟩ := bind_ok.mp h
  have hgreeted := maybeSendCcs_greeted (sendClientHello_greeted hhello) hccs
  obtain ⟨hellos, suite, k, hnegotiated, hcarries, hscheduled, hk, -, hun⟩ :=
    readServerHello_negotiated hgreeted hserver
  obtain ⟨flight, k', hin, hsettled, hanswered⟩ := readServerFlight_ends (by simp) hcarries hk hun h
  have hraw : c.serverHelloBytes = c₃.serverHelloBytes := congrArg (fun s => s.2.2.2.2.1) hsettled
  exact ⟨suite, hellos, flight, k, k', hnegotiated.of_settled hsettled, hscheduled.of_settled hsettled, hin,
    hraw ▸ hanswered⟩

/-- **The transcript is what crossed the wire**, whatever the server does. -/
theorem transcript_exact {arrivals : List (Except TlsError Bytes)} {refusals : List (Option String)}
    {config : ClientConfig} {run : Action Client TlsError Unit} {n : Nat} (hrun : Handshake run n)
    (h : run (.over (.new arrivals refusals) config) = some (.ok (), c)) :
    ∃ suite hellos flight answer k₁ k₂ k₃, answer.length = n ∧
      Transcribed c suite hellos flight answer k₁ k₂ k₃ := by
  -- each form goes through the flight and ends with the Finished
  have hends {c₁ c₂ : Client} {suite : Suite} {hellos flight answer : List (Direction × Bytes)}
      {k k' : KeySchedule} (hnegotiated : Negotiated c₁ hellos suite) (hscheduled : Scheduled c₁ suite k)
      (hin : ∀ m ∈ flight, m.1 = .received) (hsettled : c₂.settled = c₁.settled)
      (hanswered : Replied c₂ suite (hellos ++ [(.received, c₁.serverHelloBytes)] ++ flight) answer k k')
      (hlast : Client.sendClientFinished c₂ = some (.ok (), c)) :
      ∃ k'', Transcribed c suite hellos flight answer k k' k'' := by
    obtain ⟨k'', hsettled', hserver, hanswer, hraw, hclient⟩ := sendClientFinished_ends hanswered hlast
    have hkept := hsettled'.trans hsettled
    have hhello : c.serverHelloBytes = c₁.serverHelloBytes := congrArg (fun s => s.2.2.2.2.1) hkept
    refine ⟨k'', hnegotiated.of_settled hkept, hscheduled.of_settled hkept, hin, ?_, hanswer, ?_⟩
    · rw [hhello]
      exact hserver
    · rw [hhello, hraw]
      exact hclient
  cases hrun with
  | plain =>
    obtain ⟨_, c₁, hflight, hlast⟩ := bind_ok.mp h
    obtain ⟨suite, hellos, flight, k, k', hnegotiated, hscheduled, hin, hanswered⟩ :=
      handshakeThroughServerFlight_replied hflight
    obtain ⟨k'', htranscribed⟩ := hends hnegotiated hscheduled hin rfl hanswered hlast
    exact ⟨suite, hellos, flight, [], k, k', k'', rfl, htranscribed⟩
  | authenticating auth =>
    obtain ⟨_, c₁, hflight, h⟩ := bind_ok.mp h
    obtain ⟨_, c₂, hauth, hlast⟩ := bind_ok.mp h
    obtain ⟨suite, hellos, flight, k, k', hnegotiated, hscheduled, hin, hanswered⟩ :=
      handshakeThroughServerFlight_replied hflight
    obtain ⟨hsettled, answer, hlength, hanswered'⟩ := sendClientAuth_replied hanswered hauth
    obtain ⟨k'', htranscribed⟩ := hends hnegotiated hscheduled hin hsettled hanswered' hlast
    exact ⟨suite, hellos, flight, answer, k, k', k'', hlength, htranscribed⟩
  | declining =>
    obtain ⟨_, c₁, hflight, h⟩ := bind_ok.mp h
    obtain ⟨_, c₂, hempty, hlast⟩ := bind_ok.mp h
    obtain ⟨suite, hellos, flight, k, k', hnegotiated, hscheduled, hin, hanswered⟩ :=
      handshakeThroughServerFlight_replied hflight
    obtain ⟨hsettled, answer, hlength, hanswered'⟩ := sendEmptyClientCertificate_replied hanswered hempty
    obtain ⟨k'', htranscribed⟩ := hends hnegotiated hscheduled hin hsettled hanswered' hlast
    exact ⟨suite, hellos, flight, answer, k, k', k'', hlength, htranscribed⟩

end

/-- The run under a PSK, with its ticket. -/
theorem transcript_exact_resumed : ∃ c,
    @Client.handshake Resumed.crates Resumed.curves Resumed.signatures Resumed.client =
      some (.ok (), c) ∧
    ∃ suite hellos flight answer k₁ k₂ k₃, answer.length = 0 ∧
      @Transcribed Resumed.crates c suite hellos flight answer k₁ k₂ k₃ := by
  have hrun : Action.finishes (@Client.handshake Resumed.crates Resumed.curves Resumed.signatures)
      (fun _ => true) Resumed.client = true := by
    decide +kernel
  obtain ⟨_, c, hrun, -⟩ := Action.finishes_iff.mp hrun
  exact ⟨c, hrun, @transcript_exact Resumed.crates _ Resumed.curves Resumed.signatures _ _ _ _ _
    (@Handshake.plain Resumed.crates Resumed.curves Resumed.signatures) hrun⟩

end BuildYourOwn.Tls
