import BuildYourOwn.Tls.Reading

/-!
# The hellos, step by step

What the first half of `tlstest/src/tls/client.rs` does when it succeeds, one lemma a function: the
ClientHello (`sendBuiltClientHello_ok`), the answer to a HelloRetryRequest (`handleHelloRetry_ok`), the
ServerHello (`takeServerHello_ok`).

What a client has to show before the ServerHello is `Greeted`, which every round of the loop keeps,
and after it `Negotiated`. `hellosBytes` is what its transcript holds of the messages so far: these
messages, or, after a HelloRetryRequest, a `message_hash` of the first one and the others.
-/

namespace BuildYourOwn.Tls

open Lib
open Lib.Action (bind_demand_ok bind_get_ok bind_lift_ok bind_modify_ok bind_ok bind_require_ok
  demand_ok get_ok modify_ok pure_ok)

/-! ## What the transcript holds -/

def flat (messages : List (Direction × Bytes)) : Bytes := messages.flatMap Prod.snd

theorem flat_append (a b : List (Direction × Bytes)) : flat (a ++ b) = flat a ++ flat b :=
  List.flatMap_append

section variable [Crates]

/-- The `message_hash` that stands for a first ClientHello. -/
def messageHash (hash : HashAlg) (message : Bytes) : Bytes :=
  [254, 0, 0, UInt8.ofNat hash.len] ++ hash.digest message

def transcribed (hash : HashAlg) (retried : Bool) (messages : List (Direction × Bytes)) : Bytes :=
  match retried, messages with
  | true, (_, first) :: rest => messageHash hash first ++ flat rest
  | _, messages => flat messages

theorem transcribed_append {hash : HashAlg} {retried : Bool} {a : List (Direction × Bytes)}
    (ha : a ≠ []) (b : List (Direction × Bytes)) :
    transcribed hash retried (a ++ b) = transcribed hash retried a ++ flat b := by
  cases retried with
  | false => exact flat_append a b
  | true =>
    cases a with
    | nil => exact absurd rfl ha
    | cons first rest =>
      change messageHash hash first.2 ++ flat (rest ++ b) = messageHash hash first.2 ++ flat rest ++ flat b
      rw [flat_append, List.append_assoc]

omit [Crates] in
theorem rehashed (t : Transcript) (hash : HashAlg) :
    (if t.hashAlg ≠ hash then t.rehash hash else t) = ⟨hash, t.bytes⟩ := by
  split
  · rfl
  · rename_i h
    have hsame : t.hash = hash := Decidable.not_not.mp h
    rw [← hsame]

/-! ## Small steps -/

variable {c c' : Client} {u : Unit}

omit [Crates] in
theorem theTranscript_ok {missing : String} {t : Transcript} :
    Client.theTranscript missing c = some (.ok t, c') ↔ c.transcript = some t ∧ c = c' := by
  unfold Client.theTranscript
  rw [bind_ok]
  constructor
  · rintro ⟨_, _, hget, h⟩
    obtain ⟨rfl, rfl⟩ := get_ok.mp hget
    exact demand_ok.mp h
  · rintro ⟨ht, rfl⟩
    exact ⟨c, c, get_ok.mpr ⟨rfl, rfl⟩, demand_ok.mpr ⟨ht, rfl⟩⟩

omit [Crates] in
theorem onConn_ok {α : Type} {x : Action TlsConn TlsError α} {a : α} : Client.onConn x c = some (.ok a, c') ↔
      ∃ conn, x c.conn = some (.ok a, conn) ∧ c' = { c with conn := conn } := Action.onPart_ok

omit [Crates] in
theorem maybeSendCcs_ok (h : Client.maybeSendCcs c = some (.ok u, c')) :
    ∃ conn, c' = { c with conn := conn } ∧ conn.messages = c.conn.messages ∧
      (c.conn.Framed → conn.Framed) := by
  unfold Client.maybeSendCcs at h
  replace h := bind_get_ok.mp h
  split at h
  · obtain ⟨conn, hwrite, hc'⟩ := onConn_ok.mp h
    obtain ⟨hmessages, hframed⟩ := TlsConn.writeChangeCipherSpec_ok hwrite
    exact ⟨conn, hc', hmessages, hframed⟩
  · obtain ⟨-, rfl⟩ := pure_ok.mp h
    exact ⟨c.conn, rfl, rfl, id⟩

theorem onConn_writeHandshake {bytes : Bytes} (h : Client.onConn (TlsConn.writeHandshake bytes) c = some (.ok u, c')) :
    ∃ conn, c' = { c with conn := conn } ∧ conn.messages = c.conn.messages ++ [(.sent, bytes)] ∧
      (c.conn.Framed → conn.Framed) := by
  obtain ⟨conn, hwrite, hc'⟩ := onConn_ok.mp h
  obtain ⟨hmessages, hframed⟩ := TlsConn.writeHandshake_ok hwrite
  exact ⟨conn, hc', hmessages, hframed⟩

/-! ## Flight 1 -/

theorem attachPskBinder_ok {hello : ClientHello} {offer : PskOffer} {bytes : Bytes}
    (h : Client.attachPskBinder hello offer c = some (.ok bytes, c')) : c' = { c with schedule := c'.schedule } := by
  unfold Client.attachPskBinder at h
  obtain ⟨⟨binderKey, schedule⟩, _, hlocal, h⟩ := bind_ok.mp h
  obtain ⟨-, rfl⟩ := Action.onLocal_ok.mp hlocal
  obtain ⟨_, -, h⟩ := bind_lift_ok.mp h
  obtain ⟨_, -, h⟩ := bind_lift_ok.mp h
  replace h := bind_get_ok.mp h
  replace h := bind_modify_ok.mp h
  obtain ⟨-, rfl⟩ := pure_ok.mp h
  rfl

theorem sendBuiltClientHello_ok {hello : ClientHello} (h : Client.sendBuiltClientHello hello c = some (.ok u, c')) :
    ∃ conn schedule hash bytes, conn.messages = c.conn.messages ++ [(.sent, bytes)] ∧
      (c.conn.Framed → conn.Framed) ∧
      c' = { c with
        conn := conn
        schedule := schedule
        hashAfterClientHello := hash.digest bytes
        transcript := some ⟨hash, bytes⟩
        clientHelloBytes := bytes
        clientHello := some hello } := by
  unfold Client.sendBuiltClientHello at h
  replace h := bind_get_ok.mp h
  -- what follows the binder, from a client that differs in the schedule only
  have hsend {t : Client} {bytes : Bytes} (ht : t = { c with schedule := t.schedule })
      (hrest : (do
        Client.onConn (TlsConn.writeHandshake bytes)
        Client.noteClientHello hello bytes) t = some (.ok u, c')) :
      ∃ conn schedule hash bytes, conn.messages = c.conn.messages ++ [(.sent, bytes)] ∧
        (c.conn.Framed → conn.Framed) ∧
        c' = { c with
          conn := conn
          schedule := schedule
          hashAfterClientHello := hash.digest bytes
          transcript := some ⟨hash, bytes⟩
          clientHelloBytes := bytes
          clientHello := some hello } := by
    obtain ⟨_, t', hwrite, hnote⟩ := bind_ok.mp hrest
    obtain ⟨conn, rfl, hmessages, hframed⟩ := onConn_writeHandshake hwrite
    obtain rfl := modify_ok.mp hnote
    rw [ht] at hmessages hframed ⊢
    exact ⟨conn, t.schedule, _, bytes, hmessages, hframed, rfl⟩
  cases hpsk : c.config.psk with
  | some offer =>
    rw [hpsk] at h
    obtain ⟨bytes, t, hbinder, hrest⟩ := bind_ok.mp h
    exact hsend (attachPskBinder_ok hbinder) hrest
  | none =>
    rw [hpsk] at h
    obtain ⟨bytes, t, hpure, hrest⟩ := bind_ok.mp h
    obtain ⟨rfl, rfl⟩ := pure_ok.mp hpure
    exact hsend rfl hrest

section variable [Curves]

theorem buildClientHello_ok {hello : ClientHello} (h : Client.buildClientHello c = some (.ok hello, c')) :
    c' = { c with keyShares := c'.keyShares } := by
  unfold Client.buildClientHello at h
  replace h := bind_get_ok.mp h
  obtain ⟨⟨_, _⟩, -, h⟩ := bind_lift_ok.mp h
  replace h := bind_modify_ok.mp h
  obtain ⟨-, rfl⟩ := pure_ok.mp h
  rfl

/-! ## HelloRetryRequest -/

theorem handleHelloRetry_ok {retry : ServerHello} {retryBytes : Bytes}
    (h : Client.handleHelloRetry retry retryBytes c = some (.ok u, c')) :
    ∃ suite t group keyShares conn hello, Suite.fromCode retry.cipherSuite = some suite ∧
      c.transcript = some t ∧
      conn.messages = c.conn.messages ++ [(.sent, hello.encode)] ∧
      (c.conn.Framed → conn.Framed) ∧
      c' = { c with
        keyShares := keyShares
        config := { c.config with shareGroups := [group] }
        conn := conn
        transcript := some ⟨suite.hash, messageHash suite.hash t.bytes ++ retryBytes ++ hello.encode⟩
        hashAfterClientHello :=
          suite.hash.digest (messageHash suite.hash t.bytes ++ retryBytes ++ hello.encode)
        clientHelloBytes := hello.encode
        clientHello := some hello } := by
  unfold Client.handleHelloRetry at h
  obtain ⟨suite, hsuite, h⟩ := bind_demand_ok.mp h
  obtain ⟨named, -, h⟩ := bind_lift_ok.mp h
  obtain ⟨group, -, h⟩ := bind_demand_ok.mp h
  obtain ⟨t, _, htranscript, h⟩ := bind_ok.mp h
  obtain ⟨ht, rfl⟩ := theTranscript_ok.mp htranscript
  rw [rehashed] at h
  replace h := bind_modify_ok.mp h
  replace h := bind_get_ok.mp h
  obtain ⟨-, h⟩ := bind_require_ok.mp h
  replace h := bind_modify_ok.mp h
  obtain ⟨hello, c₁, hbuild, h⟩ := bind_ok.mp h
  have hc₁ := buildClientHello_ok hbuild
  obtain ⟨cookie, -, h⟩ := bind_lift_ok.mp h
  obtain ⟨_, _, hwrite, h⟩ := bind_ok.mp h
  obtain ⟨conn, rfl, hmessages, hframed⟩ := onConn_writeHandshake hwrite
  obtain ⟨t', _, htranscript', h⟩ := bind_ok.mp h
  obtain ⟨ht', rfl⟩ := theTranscript_ok.mp htranscript'
  replace h := bind_modify_ok.mp h
  obtain ⟨conn', rfl, hmessages', hframed'⟩ := maybeSendCcs_ok h
  rw [hc₁] at ht' hmessages hframed
  cases ht'
  refine ⟨suite, t, group, c₁.keyShares, conn', _, hsuite, ht, hmessages'.trans hmessages,
    fun hf => hframed' (hframed hf), ?_⟩
  rw [hc₁]
  rfl

/-! ## ServerHello -/

theorem takeServerHello_ok {hello : ServerHello} {raw : Bytes}
    (h : Client.takeServerHello hello raw c = some (.ok u, c')) :
    ∃ suite t group shared accepted schedule keys, Suite.fromCode hello.cipherSuite = some suite ∧
      (∀ retry ∈ c.helloRetryRequest, retry.cipherSuite = hello.cipherSuite) ∧
      c.transcript = some t ∧
      Client.pskAccepted hello (c.config.psk.map fun p => p.psk) = .ok accepted ∧
      KeySchedule.enterHandshake shared (suite.hash.digest (t.bytes ++ raw))
        (KeySchedule.new suite (if accepted then c.config.psk.map fun p => p.psk else none)) =
          some (.ok (), schedule) ∧
      schedule.serverHandshake = some keys ∧
      c' = { c with
        serverHelloBytes := raw
        suite := some suite
        hashAfterClientHello := suite.hash.digest t.bytes
        transcript := some ⟨suite.hash, t.bytes ++ raw⟩
        hashAfterServerHello := suite.hash.digest (t.bytes ++ raw)
        selectedGroup := some group
        sharedSecret := shared
        serverHello := some hello
        conn := { c.conn with layer := c.conn.layer.setRead keys }
        schedule := some schedule } := by
  unfold Client.takeServerHello at h
  replace h := bind_modify_ok.mp h
  obtain ⟨suite, hsuite, h⟩ := bind_demand_ok.mp h
  replace h := bind_get_ok.mp h
  obtain ⟨-, h⟩ := bind_require_ok.mp h
  obtain ⟨hretry, h⟩ := bind_require_ok.mp h
  replace h := bind_modify_ok.mp h
  obtain ⟨_, _, hhash, h⟩ := bind_ok.mp h
  unfold Client.hashServerHello at hhash
  obtain ⟨t, _, htranscript, hhash⟩ := bind_ok.mp hhash
  obtain ⟨ht, rfl⟩ := theTranscript_ok.mp htranscript
  rw [rehashed] at hhash
  obtain rfl := modify_ok.mp hhash
  obtain ⟨keyShare, -, h⟩ := bind_lift_ok.mp h
  obtain ⟨⟨group, peerShare⟩, -, h⟩ := bind_demand_ok.mp h
  obtain ⟨kx, -, h⟩ := bind_demand_ok.mp h
  replace h := bind_modify_ok.mp h
  obtain ⟨shared, -, h⟩ := bind_lift_ok.mp h
  replace h := bind_modify_ok.mp h
  obtain ⟨accepted, haccepted, h⟩ := bind_lift_ok.mp h
  replace h := bind_get_ok.mp h
  obtain ⟨⟨_, schedule⟩, _, hlocal, h⟩ := bind_ok.mp h
  obtain ⟨henter, rfl⟩ := Action.onLocal_ok.mp hlocal
  obtain ⟨keys, hkeys, h⟩ := bind_demand_ok.mp h
  obtain rfl := modify_ok.mp h
  exact ⟨suite, t, group, shared, accepted, schedule, keys, hsuite, hretry, ht, haccepted, henter,
    hkeys, rfl⟩

/-! ## Before the ServerHello -/

inductive Greetings (c : Client) : List (Direction × Bytes) → Prop
  | plain (h : c.helloRetryRequest = none) : Greetings c [(.sent, c.clientHelloBytes)]
  | retried {first body : Bytes} {retry : ServerHello} (h : c.helloRetryRequest = some retry)
      (hparse : ServerHello.parse body = .ok retry) (hretry : retry.isHelloRetryRequest = true) :
      Greetings c [(.sent, first), (.received, encodeHandshake .serverHello body),
        (.sent, c.clientHelloBytes)]

variable {hellos : List (Direction × Bytes)}

omit [Crates] [Curves] in
theorem Greetings.ne_nil (h : Greetings c hellos) : hellos ≠ [] := by
  cases h <;> simp

omit [Crates] [Curves] in
theorem Greetings.of_same (h : Greetings c hellos) (hretry : c'.helloRetryRequest = c.helloRetryRequest)
    (hbytes : c'.clientHelloBytes = c.clientHelloBytes) : Greetings c' hellos := by
  cases h with
  | plain h =>
    rw [← hbytes]
    exact .plain (hretry.trans h)
  | retried h hparse hagain =>
    rw [← hbytes]
    exact .retried (hretry.trans h) hparse hagain

structure Greeted (c : Client) (hellos : List (Direction × Bytes)) : Prop where
  shape : Greetings c hellos
  crossed : crossed c.conn.messages = hellos
  framed : c.conn.Framed
  transcript : ∃ t, c.transcript = some t ∧
    t.bytes = transcribed t.hash c.helloRetryRequest.isSome hellos ∧
    ∀ retry ∈ c.helloRetryRequest, (Suite.fromCode retry.cipherSuite).map Suite.hash = some t.hash
  unanswered : c.clientCertificateBytes = []

omit [Crates] [Curves] in
theorem crossed_sent {messages messages' : List (Direction × Bytes)} {bytes : Bytes}
    (h : messages' = messages ++ [(.sent, bytes)]) :
    Tls.crossed messages' = Tls.crossed messages ++ [(.sent, bytes)] := by
  rw [h, crossed_append]
  rfl

theorem sendClientHello_greeted {arrivals : List (Except TlsError Bytes)}
    {refusals : List (Option String)} {config : ClientConfig}
    (h : Client.sendClientHello (Client.over (.new arrivals refusals) config) = some (.ok u, c)) :
    Greeted c [(.sent, c.clientHelloBytes)] := by
  unfold Client.sendClientHello at h
  obtain ⟨hello, c₁, hbuild, h⟩ := bind_ok.mp h
  have hc₁ := buildClientHello_ok hbuild
  obtain ⟨conn, schedule, hash, bytes, hmessages, hframed, rfl⟩ := sendBuiltClientHello_ok h
  rw [hc₁] at hmessages hframed ⊢
  refine ⟨.plain rfl, crossed_sent hmessages, hframed (TlsConn.framed_new arrivals refusals),
    ⟨_, rfl, ?_, fun retry hretry => absurd hretry (by simp [Client.over])⟩, rfl⟩
  exact (List.append_nil bytes).symm

omit [Curves] in
theorem maybeSendCcs_greeted (hc : Greeted c hellos)
    (h : Client.maybeSendCcs c = some (.ok u, c')) : Greeted c' hellos := by
  obtain ⟨conn, rfl, hmessages, hframed⟩ := maybeSendCcs_ok h
  obtain ⟨hshape, hcrossed, hfr, htranscript, hunanswered⟩ := hc
  refine ⟨hshape.of_same rfl rfl, ?_, hframed hfr, htranscript, hunanswered⟩
  rw [hmessages]
  exact hcrossed

theorem readServerHelloRound_again {v : Unit} (hc : Greeted c hellos)
    (h : Client.readServerHelloRound u c = some (.ok (.inl v), c')) : ∃ hellos', Greeted c' hellos' := by
  unfold Client.readServerHelloRound at h
  obtain ⟨m, c₁, hnext, h⟩ := bind_ok.mp h
  obtain ⟨hsame, -, hraw, hcrossed, hframed, -⟩ := nextHandshake_ok hnext
  obtain ⟨htype, h⟩ := bind_require_ok.mp h
  obtain ⟨hello, hparse, h⟩ := bind_lift_ok.mp h
  split at h
  · rename_i hretry
    replace h := bind_get_ok.mp h
    obtain ⟨hfirst, h⟩ := bind_require_ok.mp h
    replace h := bind_modify_ok.mp h
    obtain ⟨-, h⟩ := bind_require_ok.mp h
    obtain ⟨_, _, hhandle, h⟩ := bind_ok.mp h
    obtain ⟨suite, t, group, keyShares, conn, second, hsuite, ht, hmessages, hfr, rfl⟩ :=
      handleHelloRetry_ok hhandle
    obtain ⟨-, rfl⟩ := pure_ok.mp h
    rw [hsame] at hfirst ht
    have hnone : c.helloRetryRequest = none := Option.isNone_iff_eq_none.mp hfirst
    obtain ⟨hshape, hold, hframed', ⟨t', ht', hbytes, -⟩, hunanswered⟩ := hc
    obtain rfl := Option.mem_unique ht ht'
    cases hshape with
    | retried h' => cases hnone.symm.trans h'
    | plain _ =>
      refine ⟨[(.sent, c.clientHelloBytes), (.received, encodeHandshake .serverHello m.body),
        (.sent, second.encode)], .retried rfl hparse hretry, ?_, hfr (hframed hframed'),
        ⟨_, rfl, ?_, fun retry hr => ?_⟩, ?_⟩
      · rw [crossed_sent hmessages]
        change crossed c₁.conn.messages ++ _ = _
        rw [hcrossed, hold, hraw, htype]
        rfl
      · rw [hnone] at hbytes
        have hplain : t.bytes = c.clientHelloBytes := hbytes.trans (List.append_nil _)
        rw [hplain, hraw, htype]
        change _ = messageHash suite.hash c.clientHelloBytes ++
          (encodeHandshake .serverHello m.body ++ (second.encode ++ []))
        rw [List.append_nil, List.append_assoc]
      · obtain rfl : hello = retry := by simpa using hr
        rw [hsuite]
        rfl
      · rw [hsame]
        exact hunanswered
  · obtain ⟨_, _, -, h⟩ := bind_ok.mp h
    exact absurd (pure_ok.mp h).1 (by simp)

/-! ## After it -/

structure Negotiated (c : Client) (hellos : List (Direction × Bytes)) (suite : Suite) : Prop where
  shape : Greetings c hellos
  chosen : c.suite = some suite
  serverHello : ∃ body hello, c.serverHelloBytes = encodeHandshake .serverHello body ∧
    ServerHello.parse body = .ok hello ∧ hello.isHelloRetryRequest = false ∧
    c.serverHello = some hello ∧ Suite.fromCode hello.cipherSuite = some suite
  afterClientHello : c.hashAfterClientHello =
    suite.hash.digest (transcribed suite.hash c.helloRetryRequest.isSome hellos)
  afterServerHello : c.hashAfterServerHello = suite.hash.digest
    (transcribed suite.hash c.helloRetryRequest.isSome (hellos ++ [(.received, c.serverHelloBytes)]))

structure Carries (c : Client) (suite : Suite) (messages : List (Direction × Bytes)) : Prop where
  crossed : crossed c.conn.messages = messages
  framed : c.conn.Framed
  transcript : c.transcript =
    some ⟨suite.hash, transcribed suite.hash c.helloRetryRequest.isSome messages⟩

def Scheduled (c : Client) (suite : Suite) (schedule : KeySchedule) : Prop :=
  ∃ hello accepted, c.serverHello = some hello ∧
    Client.pskAccepted hello (c.config.psk.map fun p => p.psk) = .ok accepted ∧
    KeySchedule.enterHandshake c.sharedSecret c.hashAfterServerHello
      (KeySchedule.new suite (if accepted then c.config.psk.map fun p => p.psk else none)) =
        some (.ok (), schedule)

theorem readServerHelloRound_done {v : Unit} (hc : Greeted c hellos)
    (h : Client.readServerHelloRound u c = some (.ok (.inr v), c')) : ∃ suite schedule, Negotiated c' hellos suite ∧
      Carries c' suite (hellos ++ [(.received, c'.serverHelloBytes)]) ∧
      Scheduled c' suite schedule ∧ c'.schedule = some schedule ∧
      schedule.serverHandshake.isSome ∧ c'.clientCertificateBytes = [] := by
  unfold Client.readServerHelloRound at h
  obtain ⟨m, c₁, hnext, h⟩ := bind_ok.mp h
  obtain ⟨hsame, -, hraw, hcrossed, hframed, -⟩ := nextHandshake_ok hnext
  obtain ⟨htype, h⟩ := bind_require_ok.mp h
  obtain ⟨hello, hparse, h⟩ := bind_lift_ok.mp h
  split at h
  · obtain ⟨_, _, -, h⟩ := bind_ok.mp h
    obtain ⟨_, _, -, h⟩ := bind_ok.mp h
    obtain ⟨_, _, -, h⟩ := bind_ok.mp h
    obtain ⟨_, _, -, h⟩ := bind_ok.mp h
    obtain ⟨_, _, -, h⟩ := bind_ok.mp h
    exact absurd (pure_ok.mp h).1 (by simp)
  · rename_i hretry
    obtain ⟨_, _, htake, h⟩ := bind_ok.mp h
    obtain ⟨suite, t, group, shared, accepted, schedule, keys, hsuite, hchosen, ht, haccepted, henter,
      hkeys, rfl⟩ := takeServerHello_ok htake
    obtain ⟨-, rfl⟩ := pure_ok.mp h
    rw [hsame] at hchosen ht
    obtain ⟨hshape, hold, hframed', ⟨t', ht', hbytes, hhash⟩, hunanswered⟩ := hc
    obtain rfl := Option.mem_unique ht ht'
    -- after a retry the suite is the one that was asked for
    have hnegotiated : t.bytes = transcribed suite.hash c.helloRetryRequest.isSome hellos := by
      cases hr : c.helloRetryRequest with
      | none =>
        rw [hr] at hbytes
        exact hbytes
      | some retry =>
        rw [hr] at hbytes
        have hsame' := hhash retry hr
        rw [hchosen retry hr, hsuite] at hsame'
        rw [Option.some.inj hsame']
        exact hbytes
    have hnext' : transcribed suite.hash c.helloRetryRequest.isSome (hellos ++ [(.received, m.raw)]) =
        t.bytes ++ m.raw := by
      rw [transcribed_append hshape.ne_nil, ← hnegotiated]
      exact congrArg (t.bytes ++ ·) (List.append_nil _)
    have hretried : c₁.helloRetryRequest = c.helloRetryRequest := by rw [hsame]
    refine ⟨suite, schedule, ⟨?_, rfl, ⟨m.body, hello, ?_, hparse, by simpa using hretry, rfl, hsuite⟩,
      ?_, ?_⟩, ⟨?_, hframed hframed', ?_⟩, ⟨hello, accepted, rfl, haccepted, henter⟩, rfl, ?_, ?_⟩
    · rw [hsame]
      exact hshape.of_same rfl rfl
    · exact hraw.trans (by rw [htype])
    · change suite.hash.digest t.bytes = _
      rw [hretried, hnegotiated]
    · change suite.hash.digest (t.bytes ++ m.raw) = suite.hash.digest (transcribed suite.hash
        c₁.helloRetryRequest.isSome (hellos ++ [(.received, m.raw)]))
      rw [hretried, hnext']
    · change crossed c₁.conn.messages = _
      rw [hcrossed, hold]
    · change some (Transcript.mk suite.hash (t.bytes ++ m.raw)) = some ⟨suite.hash, transcribed suite.hash
        c₁.helloRetryRequest.isSome (hellos ++ [(.received, m.raw)])⟩
      rw [hretried, hnext']
    · rw [hkeys]
      rfl
    · change c₁.clientCertificateBytes = []
      rw [hsame]
      exact hunanswered

theorem readServerHello_negotiated (hc : Greeted c hellos) (h : Client.readServerHello c = some (.ok u, c')) :
    ∃ hellos suite schedule, Negotiated c' hellos suite ∧
      Carries c' suite (hellos ++ [(.received, c'.serverHelloBytes)]) ∧
      Scheduled c' suite schedule ∧ c'.schedule = some schedule ∧
      schedule.serverHandshake.isSome ∧ c'.clientCertificateBytes = [] := by
  obtain ⟨_, t, ⟨hellos', ht⟩, hlast⟩ := (Action.rounds_repeats h).invariant
    (fun _ t => ∃ hellos, Greeted t hellos)
    (fun _ _ _ _ ⟨_, ht⟩ hround => readServerHelloRound_again ht hround) ⟨hellos, hc⟩
  obtain ⟨suite, schedule, hneg⟩ := readServerHelloRound_done ht hlast
  exact ⟨hellos', suite, schedule, hneg⟩

end

end

end BuildYourOwn.Tls
