import Mathlib.Data.List.Infix
import BuildYourOwn.Tls.KeyUpdates
import BuildYourOwn.Tls.Sendings

/-!
# No nonce twice

The client's keys come from HKDF, one generation from the one before (`generation`), and it counts the records under
each. Keys of the handshake are put in force once, and a KeyUpdate goes on to a generation that was not there before;
but every Finished puts the application keys in force that the schedule has, and counts from zero.

* `afterFlight`: what a client has when it has read the server's flight.
-/

namespace BuildYourOwn.Tls

open Lib
open Lib.Action (bind_ok bind_require_ok finishes_iff get_ok keeps_bind keeps_demand keeps_fail
  keeps_forever keeps_get keeps_lift keeps_modify keeps_pure lift_ok modify_ok pure_ok)

/-! ## Before the client's own flight -/

def Client.writing (c : Client) : Option TrafficKeys × Bool := (c.conn.layer.write, c.clientHandshakeKeysInstalled)

def TlsConn.writes (conn : TlsConn) : Option TrafficKeys := conn.layer.write

theorem keeps_writing {α : Type} {x : Action TlsConn TlsError α} (hx : Action.Keeps TlsConn.writes x) :
    Action.Keeps Client.writing (Client.onConn x) := by
  refine Action.keeps_onPart (g := TlsConn.writes) hx fun c conn hwrite => ?_
  exact congrArg (·, c.clientHandshakeKeysInstalled) hwrite

theorem keeps_theTranscript (missing : String) : Action.Keeps Client.writing (Client.theTranscript missing) :=
  keeps_bind keeps_get fun _ => keeps_demand

theorem keeps_fill (what : String) : Action.Keeps TlsConn.writes (TlsConn.fill what) := by
  unfold TlsConn.fill
  refine keeps_bind keeps_get fun c => keeps_bind (keeps_modify fun _ => rfl) fun _ => ?_
  split
  · exact keeps_fail
  · exact keeps_fail
  · exact keeps_pure
  · exact keeps_bind (keeps_modify fun _ => rfl) fun _ => keeps_pure

theorem keeps_readRecord : Action.Keeps TlsConn.writes TlsConn.readRecord := by
  refine keeps_forever (fun _ => ?_) ()
  refine keeps_bind keeps_get fun c => ?_
  split
  · refine keeps_bind keeps_lift fun r => ?_
    exact keeps_bind (keeps_modify fun _ => rfl) fun _ => keeps_pure
  · refine keeps_bind (keeps_fill _) fun more => ?_
    exact keeps_bind Action.keeps_require fun _ => keeps_pure

section variable [Crates]

theorem keeps_nextMessage : Action.Keeps TlsConn.writes TlsConn.nextMessage := by
  refine keeps_forever (fun _ => ?_) ()
  refine keeps_bind (keeps_popHandshake.comp Prod.fst) fun popped => ?_
  cases popped with
  | some m => exact keeps_pure
  | none =>
    refine keeps_bind keeps_get fun c => ?_
    split
    · exact keeps_bind (keeps_modify fun _ => rfl) fun _ => keeps_pure
    · exact keeps_bind keeps_readRecord fun r => (keeps_takeRecord r).comp Prod.fst

theorem keeps_nextHandshake (what : String) : Action.Keeps Client.writing (Client.nextHandshake what) := by
  refine keeps_forever (fun _ => ?_) ()
  refine keeps_bind (keeps_writing keeps_nextMessage) fun item => ?_
  split
  · split
    · refine keeps_bind keeps_lift fun _ => ?_
      exact keeps_bind (keeps_modify fun _ => rfl) fun _ => keeps_pure
    · exact keeps_pure
  · exact keeps_bind (keeps_modify fun _ => rfl) fun _ => keeps_pure
  · exact keeps_fail
  · exact keeps_bind (keeps_modify fun _ => rfl) fun _ => keeps_pure
  · exact keeps_fail

theorem keeps_seal (t : ContentType) (content : Bytes) (padding : Nat) :
    Action.Keeps RecordLayer.write (RecordLayer.seal t content padding) := by
  intro l r l' h
  cases r with
  | error e => rw [seal_error h]
  | ok bytes =>
    rcases seal_cases h with ⟨-, rfl, -⟩ | ⟨-, -, -, seq, -, rfl, -⟩
    · rfl
    · rfl

theorem keeps_writeHandshake (message : Bytes) : Action.Keeps TlsConn.writes (TlsConn.writeHandshake message) := by
  refine keeps_bind ?_ fun bytes => ?_
  · exact Action.keeps_onPart (g := RecordLayer.write) (keeps_seal _ _ _) fun _ _ h => h
  · refine keeps_bind (fun s r s' h => ?_) fun _ => keeps_modify fun _ => rfl
    exact congrArg RecordLayer.write (keeps_writeAll bytes s r s' h)

omit [Crates] in
theorem keeps_maybeSendCcs : Action.Keeps Client.writing Client.maybeSendCcs := by
  refine keeps_bind keeps_get fun c => ?_
  split
  · refine keeps_writing fun s r s' h => ?_
    exact congrArg RecordLayer.write (keeps_writeAll _ s r s' h)
  · exact keeps_pure

variable [Curves]

theorem keeps_handleHelloRetry (retry : ServerHello) (raw : Bytes) :
    Action.Keeps Client.writing (Client.handleHelloRetry retry raw) := by
  refine keeps_bind keeps_demand fun suite => keeps_bind keeps_lift fun named => ?_
  refine keeps_bind keeps_demand fun group => keeps_bind (keeps_theTranscript _) fun t => ?_
  refine keeps_bind (keeps_modify fun _ => rfl) fun _ => keeps_bind keeps_get fun c => ?_
  refine keeps_bind Action.keeps_require fun _ => keeps_bind (keeps_modify fun _ => rfl) fun _ => ?_
  refine keeps_bind ?_ fun hello => keeps_bind keeps_lift fun cookie => ?_
  · refine keeps_bind keeps_get fun c => keeps_bind keeps_lift fun built => ?_
    exact keeps_bind (keeps_modify fun _ => rfl) fun _ => keeps_pure
  · refine keeps_bind (keeps_writing (keeps_writeHandshake _)) fun _ => ?_
    refine keeps_bind (keeps_theTranscript _) fun t => ?_
    exact keeps_bind (keeps_modify fun _ => rfl) fun _ => keeps_maybeSendCcs

/-! ## The keys of the flight -/

structure FlightRead (hs app : TrafficKeys) (k : KeySchedule) (c : Client) : Prop where
  schedule : c.schedule = some k
  handshake : k.clientHandshake = some hs
  application : k.clientApplication = some app
  transcript : c.transcript.isSome
  clear : c.conn.layer.write = none
  notYet : c.clientHandshakeKeysInstalled = false
  hsSecret : ∃ secret, deriveSecret k.suite.hash k.handshakeSecret "c hs traffic" c.hashAfterServerHello =
    .ok secret ∧ TrafficKeys.derive k.suite secret = .ok hs
  appSecret : ∃ secret, deriveSecret k.suite.hash k.masterSecret "c ap traffic" c.hashAfterServerFinished =
    .ok secret ∧ TrafficKeys.derive k.suite secret = .ok app

def Entered (hash : Bytes) (k : KeySchedule) : Prop :=
  ∃ secret hs, deriveSecret k.suite.hash k.handshakeSecret "c hs traffic" hash = .ok secret ∧
    TrafficKeys.derive k.suite secret = .ok hs ∧ k.clientHandshake = some hs

variable {u : Unit}

omit [Curves] in
theorem enterHandshake_entered {shared hash : Bytes} {k k' : KeySchedule}
    (h : KeySchedule.enterHandshake shared hash k = some (.ok u, k')) : Entered hash k' := by
  unfold KeySchedule.enterHandshake at h
  simp only [bind_ok, get_ok, lift_ok, modify_ok] at h
  obtain ⟨_, _, ⟨rfl, rfl⟩, _, _, ⟨-, rfl⟩, _, _, rfl, secret, _, ⟨hsecret, rfl⟩, _, _, ⟨-, rfl⟩, client, _,
    ⟨hclient, rfl⟩, _, _, rfl, _, _, ⟨-, rfl⟩, _, _, rfl, _, _, ⟨-, rfl⟩, rfl⟩ := h
  exact ⟨secret, client, hsecret, hclient, rfl⟩

omit [Curves] in
theorem enterApplication_entered {hash : Bytes} {k k' : KeySchedule}
    (h : KeySchedule.enterApplication hash k = some (.ok u, k')) :
    (∃ secret app, deriveSecret k'.suite.hash k'.masterSecret "c ap traffic" hash = .ok secret ∧
      TrafficKeys.derive k'.suite secret = .ok app ∧ k'.clientApplication = some app) ∧
    ∀ hash, Entered hash k → Entered hash k' := by
  unfold KeySchedule.enterApplication at h
  simp only [bind_ok, get_ok, lift_ok, modify_ok] at h
  obtain ⟨_, _, ⟨rfl, rfl⟩, secret, _, ⟨hsecret, rfl⟩, _, _, ⟨-, rfl⟩, _, _, ⟨-, rfl⟩, client, _, ⟨hclient, rfl⟩, _,
    _, rfl, server, _, ⟨-, rfl⟩, _, _, rfl, rfl⟩ := h
  exact ⟨⟨secret, client, hsecret, hclient, rfl⟩, fun _ h => h⟩

theorem readServerHello_entered {c c' : Client} (h : Client.readServerHello c = some (.ok u, c')) :
    c'.writing = c.writing ∧ ∃ k, c'.schedule = some k ∧ Entered c'.hashAfterServerHello k := by
  have hround (t : Client) {o : Unit ⊕ Unit} {t' : Client}
      (hround : Client.readServerHelloRound () t = some (.ok o, t')) :
      t'.writing = t.writing ∧ (o = .inr () → ∃ k, t'.schedule = some k ∧ Entered t'.hashAfterServerHello k) := by
    obtain ⟨m, t₁, hnext, hround⟩ := bind_ok.mp hround
    have hread := keeps_nextHandshake _ _ _ _ hnext
    obtain ⟨-, hround⟩ := bind_require_ok.mp hround
    obtain ⟨hello, -, hround⟩ := Action.bind_lift_ok.mp hround
    split at hround
    · replace hround := Action.bind_get_ok.mp hround
      obtain ⟨-, hround⟩ := bind_require_ok.mp hround
      replace hround := Action.bind_modify_ok.mp hround
      obtain ⟨-, hround⟩ := bind_require_ok.mp hround
      obtain ⟨_, _, hhandle, hround⟩ := bind_ok.mp hround
      obtain ⟨rfl, rfl⟩ := pure_ok.mp hround
      exact ⟨(keeps_handleHelloRetry _ _ _ _ _ hhandle).trans hread, fun ho => by cases ho⟩
    · obtain ⟨_, _, htake, hround⟩ := bind_ok.mp hround
      obtain ⟨suite, t', group, shared, accepted, k, keys, -, -, -, -, henter, -, rfl⟩ := takeServerHello_ok htake
      obtain ⟨rfl, rfl⟩ := pure_ok.mp hround
      exact ⟨hread, fun _ => ⟨k, rfl, enterHandshake_entered henter⟩⟩
  obtain ⟨_, t, ht, hlast⟩ := (Action.rounds_repeats h).invariant (fun _ t => t.writing = c.writing)
    (fun _ t _ t' ht hagain => (hround t hagain).1.trans ht) rfl
  obtain ⟨hwriting, hdone⟩ := hround t hlast
  exact ⟨hwriting.trans ht, hdone rfl⟩

omit [Curves] in
theorem readServerFlight_read [Signatures] {c c' : Client} {k : KeySchedule} (hk : c.schedule = some k)
    (hentered : Entered c.hashAfterServerHello k) (hclear : c.writing = (none, false))
    (h : Client.readServerFlight c = some (.ok u, c')) : ∃ hs app k', FlightRead hs app k' c' := by
  obtain ⟨_, t, ⟨hwriting, hschedule, hhash⟩, hlast⟩ := (readServerFlight_runs.mp h).invariant
    (fun _ t => t.writing = (none, false) ∧ t.schedule = some k ∧ t.hashAfterServerHello = c.hashAfterServerHello)
    (fun _ t _ t' ht hround => by
      obtain ⟨m, t₁, _, hnext, -, -, htakes⟩ := flightRound_ok.mp hround
      obtain ⟨hsame, -⟩ := nextHandshake_ok hnext
      have hread := keeps_nextHandshake _ _ _ _ hnext
      have hrest : t₁.schedule = some k ∧ t₁.hashAfterServerHello = c.hashAfterServerHello := by
        rw [hsame]
        exact ht.2
      cases htakes with
      | extensions _ _ htake =>
        obtain ⟨_, _, rfl⟩ := takeEncryptedExtensions_ok.mp htake
        exact ⟨hread.trans ht.1, hrest⟩
      | request _ htake =>
        obtain ⟨_, _, rfl⟩ := takeCertificateRequest_ok.mp htake
        exact ⟨hread.trans ht.1, hrest⟩
      | certificate _ htake =>
        obtain ⟨_, _, _, rfl⟩ := takeCertificate_ok.mp htake
        exact ⟨hread.trans ht.1, hrest⟩
      | verify _ htake =>
        obtain ⟨_, _, _, _, rfl⟩ := takeCertificateVerify_ok.mp htake
        exact ⟨hread.trans ht.1, hrest⟩) ⟨hclear, hk, rfl⟩
  obtain ⟨m, t₁, transcript, hnext, -, -, htakes⟩ := flightRound_ok.mp hlast
  obtain ⟨hsame, -⟩ := nextHandshake_ok hnext
  have hread := (keeps_nextHandshake _ _ _ _ hnext).trans hwriting
  have hschedule₁ : t₁.schedule = some k := by rw [hsame]; exact hschedule
  have hhash₁ : t₁.hashAfterServerHello = c.hashAfterServerHello := by rw [hsame]; exact hhash
  cases htakes with
  | finished _ htake =>
    obtain ⟨k₁, _, k', hk₁, -, -, henter, rfl⟩ := takeServerFinished_ok.mp htake
    obtain rfl : k = k₁ := Option.mem_unique hschedule₁ hk₁
    obtain ⟨⟨secret, app, happSecret, happ, hkapp⟩, hkeep⟩ := enterApplication_entered henter
    obtain ⟨hsSecret, hs, hsecret, hhs, hkhs⟩ := hkeep _ hentered
    rw [← hhash₁] at hsecret
    obtain ⟨hwrite, hflag⟩ := Prod.mk.inj hread
    exact ⟨hs, app, k', rfl, hkhs, hkapp, rfl, hwrite, hflag, ⟨hsSecret, hsecret, hhs⟩, ⟨secret, happSecret, happ⟩⟩

end

/-! ## Different inputs, different outputs -/

/-- What `hkdf_expand_label` is called with. -/
structure Expansion where
  alg : HashAlg
  secret : Bytes
  label : String
  context : Bytes
  length : Nat
deriving DecidableEq

def TrafficKeys.keyFrom (keys : TrafficKeys) : Expansion := ⟨keys.hash, keys.secret, "key", [], keys.aead.keyLen⟩

def TrafficKeys.nextFrom (keys : TrafficKeys) : Expansion := ⟨keys.hash, keys.secret, "traffic upd", [], keys.hash.len⟩

section variable [Crates]

def Expansion.out (e : Expansion) : Except TlsError Bytes :=
  hkdfExpandLabel e.alg e.secret e.label e.context e.length

def Differ (inputs : List Expansion) : Prop := ∀ a ∈ inputs, ∀ b ∈ inputs, a.out = b.out → a = b

def generation (keys : TrafficKeys) : Nat → Option TrafficKeys
  | 0 => some keys
  | n + 1 => (generation keys n).bind fun keys => keys.updated.toOption

/-- What the client's write keys are made of, up to the `n`-th KeyUpdate. -/
def Client.expansions (c : Client) (n : Nat) : List Expansion :=
  match c.schedule with
  | none => []
  | some k =>
    let hash := k.suite.hash
    let app := fun g => k.clientApplication.bind fun keys => generation keys g
    [⟨hash, k.handshakeSecret, "c hs traffic", c.hashAfterServerHello, hash.len⟩,
      ⟨hash, k.masterSecret, "c ap traffic", c.hashAfterServerFinished, hash.len⟩] ++
    k.clientHandshake.toList.map TrafficKeys.keyFrom ++
    (List.range (n + 1)).filterMap (fun g => (app g).map TrafficKeys.keyFrom) ++
    (List.range n).filterMap (fun g => (app g).map TrafficKeys.nextFrom)

variable {hs app keys keys' : TrafficKeys} {k : KeySchedule} {c : Client} {n g : Nat}

theorem derive_out {suite : Suite} {secret : Bytes} (h : TrafficKeys.derive suite secret = .ok keys) :
    keys.secret = secret ∧ keys.keyFrom.out = .ok keys.key := by
  obtain ⟨key, hkey, h⟩ := except_bind_ok.mp h
  obtain ⟨iv, -, h⟩ := except_bind_ok.mp h
  cases h
  exact ⟨rfl, hkey⟩

theorem updated_out (h : keys.updated = .ok keys') :
    keys.nextFrom.out = .ok keys'.secret ∧ keys'.keyFrom.out = .ok keys'.key := by
  obtain ⟨next, hnext, h⟩ := except_bind_ok.mp h
  obtain ⟨rfl, hkey⟩ := derive_out h
  exact ⟨hnext, hkey⟩

theorem generation_succ : generation keys (g + 1) = some keys' ↔
    ∃ before, generation keys g = some before ∧ before.updated = .ok keys' := by
  show (generation keys g).bind _ = _ ↔ _
  rw [Option.bind_eq_some_iff]
  refine exists_congr fun before => and_congr_right fun _ => ?_
  cases before.updated <;> simp [Except.toOption]

/-- The client's keys so far: these of the handshake, and the generations up to the `g`-th. -/
def Known (hs app : TrafficKeys) (g : Nat) (keys : TrafficKeys) : Prop :=
  keys = hs ∨ ∃ j ≤ g, generation app j = some keys

theorem Known.mono {g' : Nat} (h : Known hs app g keys) (hg : g ≤ g') : Known hs app g' keys :=
  h.imp id fun ⟨j, hj, hkeys⟩ => ⟨j, Nat.le_trans hj hg, hkeys⟩

section

variable (hc : FlightRead hs app k c) (hdiffer : Differ (c.expansions n))

include hc

theorem mem_expansions {x : Expansion} : x ∈ c.expansions n ↔
    (x = ⟨k.suite.hash, k.handshakeSecret, "c hs traffic", c.hashAfterServerHello, k.suite.hash.len⟩ ∨
      x = ⟨k.suite.hash, k.masterSecret, "c ap traffic", c.hashAfterServerFinished, k.suite.hash.len⟩) ∨
    (∃ keys, Known hs app n keys ∧ x = keys.keyFrom) ∨
    ∃ j < n, ∃ keys, generation app j = some keys ∧ x = keys.nextFrom := by
  unfold Client.expansions Known
  rw [hc.schedule]
  simp only [hc.handshake, hc.application, Option.toList_some, List.map_cons, List.map_nil, Option.bind_some,
    List.cons_append, List.nil_append, List.mem_cons, List.mem_append, List.mem_filterMap, List.mem_range,
    Option.map_eq_some_iff, Nat.lt_succ_iff]
  constructor
  · rintro (rfl | rfl | rfl | ⟨j, hj, keys, hkeys, rfl⟩ | ⟨j, hj, keys, hkeys, rfl⟩)
    · exact .inl (.inl rfl)
    · exact .inl (.inr rfl)
    · exact .inr (.inl ⟨hs, .inl rfl, rfl⟩)
    · exact .inr (.inl ⟨keys, .inr ⟨j, hj, hkeys⟩, rfl⟩)
    · exact .inr (.inr ⟨j, hj, keys, hkeys, rfl⟩)
  · rintro ((rfl | rfl) | ⟨keys, rfl | ⟨j, hj, hkeys⟩, rfl⟩ | ⟨j, hj, keys, hkeys, rfl⟩)
    · exact .inl rfl
    · exact .inr (.inl rfl)
    · exact .inr (.inr (.inl rfl))
    · exact .inr (.inr (.inr (.inl ⟨j, hj, keys, hkeys, rfl⟩)))
    · exact .inr (.inr (.inr (.inr ⟨j, hj, keys, hkeys, rfl⟩)))

theorem generation_from {j : Nat} (hj : j ≤ n) (h : generation app j = some keys) :
    ∃ x ∈ c.expansions n, x.out = .ok keys.secret ∧ (j = 0 → x.label = "c ap traffic") ∧
      ∀ i, j = i + 1 → ∃ before, generation app i = some before ∧ x = before.nextFrom := by
  cases j with
  | zero =>
    cases h
    obtain ⟨secret, hsecret, happ⟩ := hc.appSecret
    obtain ⟨rfl, -⟩ := derive_out happ
    exact ⟨_, (mem_expansions hc).mpr (.inl (.inr rfl)), hsecret, fun _ => rfl, fun i hi => by cases hi⟩
  | succ j =>
    obtain ⟨before, hbefore, hup⟩ := generation_succ.mp h
    refine ⟨before.nextFrom, (mem_expansions hc).mpr (.inr (.inr ⟨j, hj, before, hbefore, rfl⟩)),
      (updated_out hup).1, fun h => absurd h (Nat.succ_ne_zero j), fun i hi => ?_⟩
    obtain rfl := Nat.succ.inj hi
    exact ⟨before, hbefore, rfl⟩

include hdiffer

theorem generation_injective {i j : Nat} (hi : i ≤ n) (hj : j ≤ n) (hx : generation app i = some keys)
    (hy : generation app j = some keys') (h : keys.secret = keys'.secret) : i = j := by
  induction i generalizing j keys keys' with
  | zero =>
    obtain ⟨x, hxmem, hxout, hxlabel, -⟩ := generation_from hc hi hx
    obtain ⟨y, hymem, hyout, -, hyfrom⟩ := generation_from hc hj hy
    obtain rfl := hdiffer x hxmem y hymem (by rw [hxout, hyout, h])
    cases j with
    | zero => rfl
    | succ j =>
      obtain ⟨before, -, rfl⟩ := hyfrom j rfl
      exact absurd (hxlabel rfl) (show ("traffic upd" : String) ≠ "c ap traffic" by decide)
  | succ i ih =>
    obtain ⟨x, hxmem, hxout, -, hxfrom⟩ := generation_from hc hi hx
    obtain ⟨y, hymem, hyout, hylabel, hyfrom⟩ := generation_from hc hj hy
    obtain rfl := hdiffer x hxmem y hymem (by rw [hxout, hyout, h])
    obtain ⟨before, hbefore, rfl⟩ := hxfrom i rfl
    cases j with
    | zero => exact absurd (hylabel rfl) (show ("traffic upd" : String) ≠ "c ap traffic" by decide)
    | succ j =>
      obtain ⟨before', hbefore', heq⟩ := hyfrom j rfl
      rw [ih (Nat.le_of_succ_le hi) (Nat.le_of_succ_le hj) hbefore hbefore' (congrArg Expansion.secret heq)]

theorem hs_secret_ne {j : Nat} (hj : j ≤ n) (h : generation app j = some keys) : hs.secret ≠ keys.secret := by
  intro hsame
  obtain ⟨secret, hsecret, hhs⟩ := hc.hsSecret
  obtain ⟨rfl, -⟩ := derive_out hhs
  obtain ⟨x, hxmem, hxout, hxlabel, hxfrom⟩ := generation_from hc hj h
  obtain rfl := hdiffer _ ((mem_expansions hc).mpr (.inl (.inl rfl))) x hxmem
    (show Expansion.out _ = _ by rw [hxout, ← hsame]; exact hsecret)
  cases j with
  | zero => exact absurd (hxlabel rfl) (show ("c hs traffic" : String) ≠ "c ap traffic" by decide)
  | succ j =>
    obtain ⟨before, -, heq⟩ := hxfrom j rfl
    exact absurd (congrArg Expansion.label heq) (show ("c hs traffic" : String) ≠ "traffic upd" by decide)

omit hdiffer in
theorem Known.key_out (h : Known hs app n keys) :
    keys.keyFrom ∈ c.expansions n ∧ keys.keyFrom.out = .ok keys.key ∧ keys.iv.length = 12 := by
  refine ⟨(mem_expansions hc).mpr (.inr (.inl ⟨keys, h, rfl⟩)), ?_⟩
  rcases h with rfl | ⟨j, -, hj⟩
  · obtain ⟨secret, -, hhs⟩ := hc.hsSecret
    exact ⟨(derive_out hhs).2, derive_iv hhs⟩
  · cases j with
    | zero =>
      cases hj
      obtain ⟨secret, -, happ⟩ := hc.appSecret
      exact ⟨(derive_out happ).2, derive_iv happ⟩
    | succ j =>
      obtain ⟨before, -, hup⟩ := generation_succ.mp hj
      exact ⟨(updated_out hup).2, updated_iv hup⟩

/-- **Different keys** of the client differ in their key. -/
theorem Known.key_injective (hx : Known hs app n keys) (hy : Known hs app n keys') (h : keys.key = keys'.key) :
    keys = keys' := by
  obtain ⟨hxmem, hxout, -⟩ := hx.key_out hc
  obtain ⟨hymem, hyout, -⟩ := hy.key_out hc
  have hsecret : keys.secret = keys'.secret :=
    congrArg Expansion.secret (hdiffer _ hxmem _ hymem (by rw [hxout, hyout, h]))
  rcases hx with rfl | ⟨i, hi, hx⟩ <;> rcases hy with rfl | ⟨j, hj, hy⟩
  · rfl
  · exact absurd hsecret (hs_secret_ne hc hdiffer hj hy)
  · exact absurd hsecret.symm (hs_secret_ne hc hdiffer hi hx)
  · obtain rfl := generation_injective hc hdiffer hi hj hx hy hsecret
    exact Option.mem_unique hx hy

end

/-! ## Runs -/

/-- A Finished puts application keys in force under which a record was sealed, its own counted too. -/
def Sent.Reinstalls (e : Sent) (keys : TrafficKeys) : Prop :=
  e.finishes ∧ e.before.state.schedule.bind KeySchedule.clientApplication = some keys ∧ ∃ x ∈ e.after.log, x.keys = keys

/-- How many KeyUpdates were called for. -/
def updatesOf (es : List Sent) : Nat := (es.filter fun e => e.input.updates).length

/-- The numbers of a client at the `g`-th generation. -/
structure Numbers (hs app : TrafficKeys) (g : Nat) (i : Bool) (m : Numbering TrafficKeys) : Prop where
  known : ∀ keys, m.Spent keys ∨ m.inForce = some keys → Known hs app g keys ∧ (i = false → keys ≠ hs)
  force : i = true → m.inForce.isSome

variable {m : Numbering TrafficKeys} {i : Bool} {s : Sending} {cur : TrafficKeys} {e : Sent} {es : List Sent}
  {w w' : Logged Client SealedUnder} {S S' : TrafficKeys → Prop}

omit [Crates] in
theorem base_cases (hs : TrafficKeys) (i : Bool) (m : Numbering TrafficKeys) (s : Sending) :
    (i || s.ensures) = i ∧ s.base hs i m = m ∨ i = false ∧ (i || s.ensures) = true ∧ s.base hs i m = m.install hs := by
  unfold Sending.base
  cases i <;> cases s.ensures <;> simp

omit [Crates] in
theorem base_used (hs : TrafficKeys) (i : Bool) (m : Numbering TrafficKeys) (s : Sending) :
    (s.base hs i m).used = m.used := by
  rcases base_cases hs i m s with ⟨-, h⟩ | ⟨-, -, h⟩ <;> rw [h]
  rfl

theorem Numbers.base (h : Numbers hs app g i m) (s : Sending) : Numbers hs app g (i || s.ensures) (s.base hs i m) := by
  rcases base_cases hs i m s with ⟨hi, hbase⟩ | ⟨-, hi, hbase⟩ <;> rw [hi, hbase]
  · exact h
  · refine ⟨fun keys hkeys => ⟨?_, fun h => by cases h⟩, fun _ => rfl⟩
    rcases hkeys with hspent | hforce
    · exact (h.known keys (.inl hspent)).1
    · exact .inl (Option.some.inj hforce).symm

theorem Numbers.use (h : Numbers hs app g i m) : Numbers hs app g i m.use where
  known keys hkeys := by
    rw [Numbering.spent_use, Numbering.use_inForce, or_assoc, or_self] at hkeys
    exact h.known keys hkeys
  force hi := by
    rw [Numbering.use_inForce]
    exact h.force hi

theorem Numbers.install {g' : Nat} (h : Numbers hs app g i m) (hg : g ≤ g') (hkeys : generation app g' = some keys)
    (hne : i = false → keys ≠ hs) : Numbers hs app g' i (m.install keys) where
  known keys' hkeys' := by
    rcases hkeys' with hspent | hforce
    · obtain ⟨hknown, hnot⟩ := h.known keys' (.inl hspent)
      exact ⟨hknown.mono hg, hnot⟩
    · cases hforce
      exact ⟨.inr ⟨g', Nat.le_refl _, hkeys⟩, hne⟩
  force _ := rfl

variable {app' : TrafficKeys}

theorem Ending.cases {m' : Numbering TrafficKeys} (h : Ending e cur m m' app') :
    m' = m ∧ app' = cur ∧ ¬e.finishes ∨ m' = m.install cur ∧ app' = cur ∧ e.finishes ∨
      m' = m.install app' ∧ ¬e.finishes ∧ e.input.updates = true ∧ cur.updated = .ok app' := by
  cases h with
  | nothing h => exact .inl ⟨rfl, rfl, h⟩
  | finished h => exact .inr (.inl ⟨rfl, rfl, h⟩)
  | updated h hkey hnext => exact .inr (.inr ⟨rfl, h, hkey, hnext⟩)

omit [Crates] in
theorem finishes_ensures (h : e.finishes) : e.input.ensures = true := by
  unfold Sent.finishes at h
  split at h
  · rename_i hinput; rw [hinput]; rfl
  · rename_i hinput; rw [hinput]; rfl
  · rename_i hinput; rw [hinput]; rfl
  · exact h.elim

/-- No record is sealed any more under keys that came back. -/
def Unspoilt (es : List Sent) (m : Numbering TrafficKeys) : Prop :=
  ∀ e ∈ es, ∀ keys, e.Reinstalls keys → ∀ j, (keys, j) ∉ m.used.drop e.after.log.length

structure Along (hs app : TrafficKeys) (es : List Sent) (w : Logged Client SealedUnder) (g : Nat) (cur : TrafficKeys)
    (i : Bool) (m : Numbering TrafficKeys) : Prop where
  has : At hs cur m i w
  current : generation app g = some cur
  count : g ≤ updatesOf es
  numbers : Numbers hs app g i m
  grown : ∀ e ∈ es, (numbering e.after).used <+: m.used
  zero : Numbering.FromZero 0 m
  past : ∀ e ∈ es, Numbering.FromZero 0 (numbering e.after) ∧
    (e.finishes → Numbering.FromZero e.after.log.length m)
  fresh : Unspoilt es m → Numbering.Fresh (fun keys => ∃ e ∈ es, e.Reinstalls keys) m

omit [Crates] in
theorem updatesOf_snoc (es : List Sent) (e : Sent) :
    updatesOf (es ++ [e]) = updatesOf es + if e.input.updates then 1 else 0 := by
  unfold updatesOf
  rw [List.filter_append, List.length_append]
  cases h : e.input.updates <;> simp [h]

omit [Crates] in
theorem used_length (h : At hs cur m i w) : m.used.length = w.log.length := by
  rw [← h.numbers]
  exact List.length_map _

theorem ending_used {m' : Numbering TrafficKeys} (h : Ending e cur m m' app') : m'.used = m.used := by
  cases h <;> rfl

theorem fromZero_effect {L : Nat} {m₁ m' : Numbering TrafficKeys}
    (h : Numbering.FromZero L m) (hm₁ : m₁ = s.base hs i m ∨ m₁ = (s.base hs i m).use)
    (hend : Ending e cur m₁ m' app') : Numbering.FromZero L m' := by
  have hbase : Numbering.FromZero L (s.base hs i m) := by
    rcases base_cases hs i m s with ⟨-, hbase⟩ | ⟨-, -, hbase⟩ <;> rw [hbase]
    · exact h
    · exact h.install hs
  have hm₁ : Numbering.FromZero L m₁ := by
    rcases hm₁ with rfl | rfl
    · exact hbase
    · exact hbase.use
  cases hend with
  | nothing => exact hm₁
  | finished => exact hm₁.install _
  | updated => exact hm₁.install _

/-- **What stays fresh** in a call. -/
theorem fresh_step (h : Along hs app es w g cur i m) {o : Except TlsError Unit} {m₁ m' : Numbering TrafficKeys} (hm₁ : m₁ = s.base hs i m ∨ m₁ = (s.base hs i m).use)
    (hend : Ending ⟨w, s, o, w'⟩ cur m₁ m' app') (hat : At hs app' m' (i || s.ensures) w') (hadds : m.used <+: m'.used)
    (hnew : ∀ next, s.updates = true → cur.updated = .ok next → ¬m₁.Spent next)
    (hun : Unspoilt (es ++ [⟨w, s, o, w'⟩]) m') :
    Numbering.Fresh (fun keys => ∃ e ∈ es ++ [⟨w, s, o, w'⟩], e.Reinstalls keys) m' := by
  have hold : Unspoilt es m := fun e he keys hre j hj =>
    hun e (List.mem_append_left _ he) keys hre j ((List.IsPrefix.drop hadds _).subset hj)
  have hbase : Numbering.Fresh (fun keys => ∃ e ∈ es, e.Reinstalls keys) (s.base hs i m) := by
    rcases base_cases hs i m s with ⟨-, hbase⟩ | ⟨hi, -, hbase⟩ <;> rw [hbase]
    · exact h.fresh hold
    · exact (h.fresh hold).install fun hspent => absurd rfl ((h.numbers.known hs (.inl hspent)).2 hi)
  have hm₁fresh : Numbering.Fresh (fun keys => ∃ e ∈ es, e.Reinstalls keys) m₁ := by
    rcases hm₁ with rfl | rfl
    · exact hbase
    · refine hbase.use fun keys hforce hspoilt => ?_
      -- the record that is sealed now would be one too many
      obtain ⟨e, he, hre⟩ := hspoilt
      refine hun e (List.mem_append_left _ he) keys hre (s.base hs i m).next ?_
      have hlength : e.after.log.length ≤ (s.base hs i m).used.length := by
        rw [base_used, ← List.length_map ]
        exact (h.grown e he).length_le
      rw [ending_used hend, Numbering.use_some hforce, List.drop_append_of_le_length hlength]
      exact List.mem_concat_self
  have hmono : Numbering.Fresh (fun keys => ∃ e ∈ es ++ [⟨w, s, o, w'⟩], e.Reinstalls keys) m₁ :=
    hm₁fresh.mono fun keys ⟨e, he, hre⟩ => ⟨e, List.mem_append_left _ he, hre⟩
  rcases hend.cases with ⟨rfl, rfl, -⟩ | ⟨rfl, rfl, hfinishes⟩ | ⟨rfl, -, hkey, hnext⟩
  · exact hmono
  · refine hmono.install fun ⟨j, hj⟩ => ⟨_, List.mem_concat_self, hfinishes, ?_, ?_⟩
    · obtain ⟨k, hk, -, happ⟩ := h.has.schedule
      exact (congrArg (Option.bind · KeySchedule.clientApplication) hk).trans happ
    · have hused : (app', j) ∈ (numbering w').used := by
        rw [hat.numbers]
        exact hj
      obtain ⟨x, hx, heq⟩ := List.mem_map.mp hused
      exact ⟨x, hx, congrArg Prod.fst heq⟩
  · exact hmono.install fun hspent => absurd hspent (hnew app' hkey hnext)

section

variable (hc : FlightRead hs app k c) (hdiffer : Differ (c.expansions n))

include hc hdiffer

theorem next_new {next : TrafficKeys} (hg : g + 1 ≤ n) (hcur : generation app g = some cur)
    (hnext : cur.updated = .ok next) : generation app (g + 1) = some next ∧ ¬Known hs app g next := by
  have hgen := generation_succ.mpr ⟨cur, hcur, hnext⟩
  refine ⟨hgen, ?_⟩
  rintro (rfl | ⟨j, hj, hsame⟩)
  · exact hs_secret_ne hc hdiffer hg hgen rfl
  · have := generation_injective hc hdiffer (by omega) hg hsame hgen rfl
    omega

theorem along_step (h : Along hs app es w g cur i m) {o : Except TlsError Unit}
    (hstep : sendStep w s = some (w', o)) (hn : updatesOf (es ++ [⟨w, s, o, w'⟩]) ≤ n) :
    ∃ g cur i m, Along hs app (es ++ [⟨w, s, o, w'⟩]) w' g cur i m := by
  obtain ⟨m₁, m', app', hm₁, hend, hat⟩ := sent_effect (e := ⟨w, s, o, w'⟩) h.has h.numbers.force hstep
  change m₁ = s.base hs i m ∨ m₁ = (s.base hs i m).use at hm₁
  change At hs app' m' (i || s.ensures) w' at hat
  have hbase := h.numbers.base s
  have hnumbers : Numbers hs app g (i || s.ensures) m₁ := by
    rcases hm₁ with rfl | rfl
    · exact hbase
    · exact hbase.use
  have hadds : m.used <+: m'.used := by
    rw [ending_used hend, ← base_used hs i m s]
    rcases hm₁ with rfl | rfl
    · exact List.prefix_rfl
    · exact Numbering.used_prefix_use _
  have hgrown : ∀ e ∈ es ++ [⟨w, s, o, w'⟩], (numbering e.after).used <+: m'.used := by
    refine forall_mem_snoc (fun e he => (h.grown e he).trans hadds) ?_
    rw [hat.numbers]
  have hcount := h.count
  rw [updatesOf_snoc] at hn
  have hnew (next : TrafficKeys) (hkey : s.updates = true) (hnext : cur.updated = .ok next) :
      generation app (g + 1) = some next ∧ ¬Known hs app g next := by
    simp only [hkey, if_true] at hn
    exact next_new hc hdiffer (by omega) h.current hnext
  have hfresh (hun : Unspoilt (es ++ [⟨w, s, o, w'⟩]) m') :=
    fresh_step h hm₁ hend hat hadds (fun next hkey hnext hspent =>
      (hnew next hkey hnext).2 (hnumbers.known next (.inl hspent)).1) hun
  have hzero := fromZero_effect h.zero hm₁ hend
  have hpast : ∀ e ∈ es ++ [⟨w, s, o, w'⟩], Numbering.FromZero 0 (numbering e.after) ∧
      (e.finishes → Numbering.FromZero e.after.log.length m') := by
    refine forall_mem_snoc (fun e he => ⟨(h.past e he).1, fun hfinishes => ?_⟩) ⟨?_, fun hfinishes => ?_⟩
    · exact fromZero_effect ((h.past e he).2 hfinishes) hm₁ hend
    · rw [hat.numbers]
      exact hzero
    · rw [← used_length hat]
      cases hend with
      | nothing hnot => exact absurd hfinishes hnot
      | finished => exact Numbering.fromZero_start fun _ _ => rfl
      | updated hnot => exact absurd hfinishes hnot
  rcases hend.cases with ⟨rfl, rfl, -⟩ | ⟨rfl, rfl, hfinishes⟩ | ⟨rfl, -, hkey, hnext⟩
  · exact ⟨g, _, _, _, hat, h.current, by rw [updatesOf_snoc]; omega, hnumbers, hgrown, hzero, hpast, hfresh⟩
  · refine ⟨g, _, _, _, hat, h.current, by rw [updatesOf_snoc]; omega,
      hnumbers.install (Nat.le_refl _) h.current fun hi => ?_, hgrown, hzero, hpast, hfresh⟩
    rw [show s.ensures = true from finishes_ensures hfinishes, Bool.or_true] at hi
    cases hi
  · obtain ⟨hgen, hnot⟩ := hnew app' hkey hnext
    change s.updates = true at hkey
    refine ⟨g + 1, _, _, _, hat, hgen, by rw [updatesOf_snoc, hkey, if_pos rfl]; omega,
      hnumbers.install (Nat.le_succ _) hgen fun _ h => hnot (.inl h), hgrown, hzero, hpast, hfresh⟩

theorem along_run (h : Run sendStep ⟨c, []⟩ es w) (hn : updatesOf es ≤ n) :
    ∃ g cur i m, Along hs app es w g cur i m := by
  induction h with
  | nil =>
    have hnone : (numbering ⟨c, []⟩).inForce = none := hc.clear
    refine ⟨0, app, false, _, ⟨hc.transcript, ⟨k, hc.schedule, hc.handshake, hc.application⟩, rfl, hc.notYet⟩, rfl,
      Nat.le_refl _, ⟨fun keys hkeys => ?_, fun h => absurd h (by decide)⟩, List.forall_mem_nil _, ?_,
      List.forall_mem_nil _, fun _ => ?_⟩
    · rcases hkeys with ⟨_, hmem⟩ | hforce
      · cases hmem
      · rw [hnone] at hforce
        cases hforce
    · exact Numbering.fromZero_start fun keys hforce => by rw [hnone] at hforce; cases hforce
    · exact ⟨List.nodup_nil, fun keys hforce => by rw [hnone] at hforce; cases hforce⟩
  | snoc _ hstep ih =>
    have hle := hn
    rw [updatesOf_snoc] at hle
    obtain ⟨g, cur, i, m, halong⟩ := ih (by omega)
    exact along_step hc hdiffer halong hstep hn

omit hc hdiffer in
/-- **Numbers come twice** exactly when keys came back that are used on both sides. -/
theorem nodup_iff_unspoilt (h : Along hs app es w g cur i m) : m.used.Nodup ↔ Unspoilt es m := by
  constructor
  · intro hnodup e he keys hre j hj
    obtain ⟨hfirst, hlast⟩ := h.past e he
    have htake : m.used.take e.after.log.length = (numbering e.after).used := by
      rw [← List.length_map ]
      exact (List.prefix_iff_eq_take.mp (h.grown e he)).symm
    obtain ⟨hfinishes, -, x, hx, rfl⟩ := hre
    refine Numbering.not_nodup_of_spent (fun k n hn => ?_) (hlast hfinishes) (i := x.seq.toNat) ?_ hj hnodup
    · rw [htake] at hn ⊢
      exact hfirst.began k n hn
    · rw [htake]
      exact List.mem_map_of_mem (f := fun x : SealedUnder => (x.keys, x.seq.toNat)) hx
  · exact fun hun => (h.fresh hun).nodup

theorem pair_injective (h : Along hs app es w g cur i m) (hg : g ≤ n) {x y : SealedUnder} (hx : x ∈ w.log)
    (hy : y ∈ w.log) (hpair : x.pair = y.pair) : x = y := by
  have hknown {z : SealedUnder} (hz : z ∈ w.log) : Known hs app n z.keys := by
    refine (h.numbers.known z.keys (.inl ⟨z.seq.toNat, ?_⟩)).1.mono hg
    rw [← h.has.numbers]
    exact List.mem_map_of_mem (f := fun x : SealedUnder => (x.keys, x.seq.toNat)) hz
  obtain ⟨keys, seq⟩ := x
  obtain ⟨keys', seq'⟩ := y
  obtain ⟨hkey, hnonce⟩ := Prod.mk.inj hpair
  obtain rfl := (hknown hx).key_injective hc hdiffer (hknown hy) hkey
  obtain ⟨nonce, hsome, -⟩ := nonce_length ((hknown hx).key_out hc).2.2 seq
  obtain rfl := nonce_injective hsome (hnonce.symm.trans hsome)
  rfl

end

/-- **When no nonce is used twice**: after the server's flight the client calls for anything in any order. No two
records are sealed under the same key and nonce exactly when no Finished puts application keys in force under which
a record was sealed before, its own counted too, and another is sealed later. -/
theorem nonces_differ_iff [Curves] [Signatures] {c₀ c₁ : Client} (hclear : c₀.conn.layer.write = none)
    (hnotYet : c₀.clientHandshakeKeysInstalled = false) (hhello : Client.readServerHello c₀ = some (.ok (), c₁))
    (hflight : Client.readServerFlight c₁ = some (.ok (), c)) (h : Run sendStep ⟨c, []⟩ es w)
    (hdiffer : Differ (c.expansions (updatesOf es))) :
    (w.log.map SealedUnder.pair).Nodup ↔
      ∀ e ∈ es, ∀ keys, e.Reinstalls keys → ∀ x ∈ w.log.drop e.after.log.length, x.keys ≠ keys := by
  obtain ⟨hwriting, k₁, hk₁, hentered⟩ := readServerHello_entered hhello
  have hnone : c₁.writing = (none, false) := hwriting.trans (Prod.ext hclear hnotYet)
  obtain ⟨hs, app, k, hc⟩ := readServerFlight_read hk₁ hentered hnone hflight
  obtain ⟨g, cur, i, m, halong⟩ := along_run hc hdiffer h (Nat.le_refl _)
  have hused : m.used = w.log.map fun x => (x.keys, x.seq.toNat) := by rw [← halong.has.numbers]; rfl
  -- the notes are all different when the numbers are, and then the pairs
  have hpairs : (w.log.map SealedUnder.pair).Nodup ↔ m.used.Nodup := by
    rw [hused]
    constructor
    · refine fun hnodup => (List.Nodup.of_map _ hnodup).map fun x y hxy => ?_
      obtain ⟨keys, seq⟩ := x
      obtain ⟨keys', seq'⟩ := y
      obtain ⟨hkeys, hseq⟩ := Prod.mk.inj hxy
      rw [SealedUnder.mk.injEq]
      exact ⟨hkeys, UInt64.toNat_inj.mp hseq⟩
    · exact fun hnodup => (List.Nodup.of_map _ hnodup).map_on fun x hx y hy =>
        pair_injective hc hdiffer halong halong.count hx hy
  rw [hpairs, nodup_iff_unspoilt halong]
  refine forall_congr' fun e => forall_congr' fun he => forall_congr' fun keys => forall_congr' fun hre => ?_
  rw [hused, ← List.map_drop]
  constructor
  · rintro hnone x hx rfl
    exact hnone x.seq.toNat (List.mem_map_of_mem (f := fun x : SealedUnder => (x.keys, x.seq.toNat)) hx)
  · intro hnone j hj
    obtain ⟨x, hx, hpair⟩ := List.mem_map.mp hj
    exact hnone x hx (congrArg Prod.fst hpair)

end

/-! ## Two runs -/

namespace Again

open Resumed (sized info word)

/-- A second Finished and application data, each the first record under the client's application keys. -/
def records : List Updated.SealedRecord :=
  Updated.records ++
  [⟨bigEndian 16 0x43f62f5f5c2cb122a33c439b3a32ea8f, bigEndian 12 0xbe72e583ea419500592880c5,
      Resumed.clientFinished ++ [22],
      bigEndian 44 0x3a66c531624bead804b24016aec3d5a1ca28dc232cd23bd8016a16b381aaf21c0248b3b0ebcfb594ebdbd1e7 ++
        bigEndian 9 0x9018f626c6fee19125⟩,
    ⟨bigEndian 16 0x43f62f5f5c2cb122a33c439b3a32ea8f, bigEndian 12 0xbe72e583ea419500592880c5, [104, 105, 23],
      bigEndian 19 0x460fd2b49b1471219821b212aeaf291c58409d⟩]

def digests : List (Bytes × Nat) :=
  Resumed.digests ++
  [(Resumed.clientHello ++ Resumed.serverHello ++ Resumed.encryptedExtensions ++ Resumed.serverFinished ++
      Resumed.clientFinished ++ Resumed.clientFinished,
    0x3ac05f4c42875e3fe45a18fc7aa2e4f6868518f272ee1501c8d7a5971b06ed55)]

def hmacs : List (Bytes × Bytes × Bytes) :=
  Updated.hmacs ++
  [(word 0x74d25cbf190f0031b916f40f5389155d8003f438a1128e9e753106dbc9d33699,
    info "res master" (word 0x3ac05f4c42875e3fe45a18fc7aa2e4f6868518f272ee1501c8d7a5971b06ed55) 32,
    word 0xad56c54e1bb7ab8cd85ed0adb411e70aabb76f4b5c02ac23dfc324e2ab65d527)]

@[reducible] def crates : Crates where
  sha256 data := sized 32 ((digests.find? fun e => e.1 = data).elim 0 Prod.snd)
  sha384 _ := sized 48 0
  hmacSha256 key data := sized 32 <|
    (hmacs.find? fun e => e.1 = key ∧ e.2.1 = data).elim 0 fun e => ofBigEndian e.2.2
  hmacSha384 _ _ := sized 48 0
  encrypt _ key nonce aad msg :=
    (records.find? fun r => r.key = key ∧ r.nonce = nonce ∧ r.aad = aad ∧ r.inner = msg).bind fun r =>
      if h : r.sealed.length = msg.length + 16 then some ⟨r.sealed, h⟩ else none
  decrypt _ key nonce aad msg :=
    (records.find? fun r => r.key = key ∧ r.nonce = nonce ∧ r.aad = aad ∧ r.sealed = msg).bind fun r =>
      if h : r.inner.length + 16 = msg.length then some ⟨r.inner, h⟩ else none

instance (inputs : List Expansion) : Decidable (@Differ crates inputs) :=
  inferInstanceAs (Decidable (∀ a ∈ inputs, ∀ b ∈ inputs, @Expansion.out crates a = @Expansion.out crates b → a = b))

def ends (calls : List Sending) (check : Client → Logged Client SealedUnder → List Sent → Bool) : Bool :=
  Action.finishes Resumed.greet (fun c₀ =>
    decide (c₀.writing = (none, false)) &&
    Action.finishes (@Client.readServerHello crates Resumed.curves) (fun c₁ =>
      Action.finishes (@Client.readServerFlight crates Resumed.signatures) (fun c =>
        (exec (@sendStep crates) ⟨c, []⟩ calls []).elim false fun r => check c r.2 r.1) c₁) c₀) Resumed.client

theorem ends_sound {calls : List Sending} {check : Client → Logged Client SealedUnder → List Sent → Bool}
    (h : ends calls check = true) : ∃ c₀ c₁ c es w, c₀.conn.layer.write = none ∧
      c₀.clientHandshakeKeysInstalled = false ∧
      @Client.readServerHello crates Resumed.curves c₀ = some (.ok (), c₁) ∧
      @Client.readServerFlight crates Resumed.signatures c₁ = some (.ok (), c) ∧
      Run (@sendStep crates) ⟨c, []⟩ es w ∧ check c w es = true := by
  obtain ⟨_, c₀, -, h⟩ := finishes_iff.mp h
  obtain ⟨hclear, h⟩ := Bool.and_eq_true_iff.mp h
  obtain ⟨hwrite, hflag⟩ := Prod.mk.inj (of_decide_eq_true hclear)
  obtain ⟨_, c₁, hhello, h⟩ := finishes_iff.mp h
  obtain ⟨_, c, hflight, h⟩ := finishes_iff.mp h
  cases hexec : exec (@sendStep crates) ⟨c, []⟩ calls [] with
  | none =>
    rw [hexec] at h
    cases h
  | some r =>
    obtain ⟨es, w⟩ := r
    rw [hexec] at h
    exact ⟨c₀, c₁, c, es, w, hwrite, hflag, hhello, hflight, run_of_exec calls hexec, h⟩

end Again

theorem nonce_used_twice : ∃ c₀ c₁ c es w, c₀.conn.layer.write = none ∧ c₀.clientHandshakeKeysInstalled = false ∧
    @Client.readServerHello Again.crates Resumed.curves c₀ = some (.ok (), c₁) ∧
    @Client.readServerFlight Again.crates Resumed.signatures c₁ = some (.ok (), c) ∧
    Run (@sendStep Again.crates) ⟨c, []⟩ es w ∧ @Differ Again.crates (@Client.expansions Again.crates c (updatesOf es)) ∧
    (es.map fun e => e.output) = [.ok (), .ok (), .ok ()] ∧ ¬(w.log.map SealedUnder.pair).Nodup := by
  have h : Again.ends [.finished, .finished, .appData [104, 105]] (fun c w es =>
      decide (@Differ Again.crates (@Client.expansions Again.crates c (updatesOf es))) &&
      (decide ((es.map fun e => e.output) = [.ok (), .ok (), .ok ()]) &&
        decide (¬(w.log.map SealedUnder.pair).Nodup))) = true := by
    decide +kernel
  obtain ⟨c₀, c₁, c, es, w, hwrite, hflag, hhello, hflight, hrun, h⟩ := Again.ends_sound h
  simp only [Bool.and_eq_true, decide_eq_true_eq] at h
  exact ⟨c₀, c₁, c, es, w, hwrite, hflag, hhello, hflight, hrun, h.1, h.2.1, h.2.2⟩

theorem nonces_differ_iff_updates : ∃ (es : List Sent) (w : Logged Client SealedUnder),
    es.map (fun e => e.output) = [.ok (), .ok (), .ok ()] ∧ updatesOf es = 2 ∧ w.log.length = 3 ∧
    ((w.log.map SealedUnder.pair).Nodup ↔
      ∀ e ∈ es, ∀ keys, e.Reinstalls keys → ∀ x ∈ w.log.drop e.after.log.length, x.keys ≠ keys) := by
  have h : Again.ends [.finished, .keyUpdate .notRequested, .keyUpdate .notRequested] (fun c w es =>
      decide (@Differ Again.crates (@Client.expansions Again.crates c (updatesOf es))) &&
      (decide ((es.map fun e => e.output) = [.ok (), .ok (), .ok ()]) &&
        decide (updatesOf es = 2 ∧ w.log.length = 3))) = true := by
    decide +kernel
  obtain ⟨c₀, c₁, c, es, w, hwrite, hflag, hhello, hflight, hrun, h⟩ := Again.ends_sound h
  simp only [Bool.and_eq_true, decide_eq_true_eq] at h
  obtain ⟨hdiffer, houtputs, hupdates, hlength⟩ := h
  exact ⟨es, w, houtputs, hupdates, hlength, @nonces_differ_iff Again.crates c es w Resumed.curves Resumed.signatures c₀ c₁
    hwrite hflag hhello hflight hrun hdiffer⟩

end BuildYourOwn.Tls
