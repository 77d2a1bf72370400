import BuildYourOwn.Tls.Flight
import BuildYourOwn.Tls.Following

/-!
# A call of the client, and what the server hears of it

In a call the client stays behind the server (`Follows`), its key schedule and its record layer agree (`Keyed`),
and what it writes is a stream from the epoch in which the call began to the one in which it writes now (`Wrote`).
-/

namespace BuildYourOwn.Tls

open Lib
open Lib.Action (bind_demand_ok bind_get_ok bind_lift_ok bind_ok ends_bind ends_get ends_lift
  ends_onPart ends_orStop modify_ok)

section variable [Crates]

/-! ## Keys -/

variable {keys : TrafficKeys}

omit [Crates] in
theorem nonce_length (hiv : keys.iv.length = 12) (seq : UInt64) :
    ∃ nonce, keys.nonce seq = some nonce ∧ nonce.length = 12 := by
  unfold TrafficKeys.nonce
  rw [hiv, if_neg (by decide)]
  refine ⟨_, rfl, ?_⟩
  simp only [List.length_append, List.length_take, List.length_zipWith, List.length_drop, hiv,
    length_bigEndian]
  decide

theorem length_hkdfBlocks (alg : HashAlg) (prk info previous : Bytes) (counter n : Nat) :
    (hkdfBlocks alg prk info previous counter n).length = n * alg.len := by
  have hlen (key data : Bytes) : (alg.hmac key data).length = alg.len := by
    cases alg with
    | sha256 => exact (Crates.hmacSha256 key data).property
    | sha384 => exact (Crates.hmacSha384 key data).property
  induction n generalizing previous counter with
  | zero => exact (Nat.zero_mul _).symm
  | succ n ih =>
    show (alg.hmac _ _ ++ hkdfBlocks _ _ _ _ _ n).length = _
    rw [List.length_append, hlen, ih, Nat.succ_mul, Nat.add_comm]

theorem length_hkdfExpandLabel {alg : HashAlg} {secret context out : Bytes} {label : String} {length : Nat}
    (h : hkdfExpandLabel alg secret label context length = .ok out) : out.length = length := by
  unfold hkdfExpandLabel hkdfExpand at h
  dsimp only at h
  split at h
  · cases h
  · cases h
    rw [List.length_take, length_hkdfBlocks, Nat.min_eq_left]
    have hpos : 0 < alg.len := by cases alg <;> decide
    have hdiv := Nat.div_add_mod (length + alg.len - 1) alg.len
    have hmod := Nat.mod_lt (length + alg.len - 1) hpos
    rw [Nat.mul_comm]
    omega

theorem derive_iv {suite : Suite} {secret : Bytes}
    (h : TrafficKeys.derive suite secret = .ok keys) : keys.iv.length = 12 := by
  obtain ⟨key, -, h⟩ := except_bind_ok.mp h
  obtain ⟨iv, hiv, h⟩ := except_bind_ok.mp h
  cases h
  exact length_hkdfExpandLabel hiv

theorem updated_iv {keys keys' : TrafficKeys} (h : keys.updated = .ok keys') : keys'.iv.length = 12 := by
  obtain ⟨next, -, h⟩ := except_bind_ok.mp h
  exact derive_iv h

/-- **The next generation** can always be derived. -/
theorem updated_runs (keys : TrafficKeys) : ∃ keys', keys.updated = .ok keys' := by
  have hlen : keys.hash.len ≤ 48 := by cases keys.hash <;> decide
  obtain ⟨next, hnext⟩ := hkdfExpandLabel_runs keys.hash keys.secret "traffic upd" [] hlen
  obtain ⟨keys', hkeys⟩ := TrafficKeys.derive_runs ⟨0, keys.hash, keys.aead⟩ next
  exact ⟨keys', except_bind_ok.mpr ⟨next, hnext, hkeys⟩⟩

theorem aeadSeal_runs {alg : AeadAlg} {key nonce aad msg : Bytes} (h : nonce.length = 12) :
    ∃ outcome, alg.seal key nonce aad msg = some outcome := by
  unfold AeadAlg.seal AeadAlg.keyed
  split
  · exact ⟨_, rfl⟩
  · rw [if_neg (not_not.mpr h)]
    exact ⟨_, rfl⟩

/-- **Sealing** stops only at the last sequence number. -/
theorem seal_stops {l : RecordLayer} {t : ContentType} {content : Bytes} {padding : Nat}
    (hwrite : l.write = some keys) (hiv : keys.iv.length = 12)
    (h : RecordLayer.seal t content padding l = none) : l.writeSeq + 1 = 0 := by
  have hends : Action.Ends (l.writeSeq + 1 = 0) (fun _ _ => True) (RecordLayer.seal t content padding l) := by
    unfold RecordLayer.seal
    refine ends_bind.mpr (ends_get.mpr ?_)
    dsimp only [Action.Gives]
    rw [hwrite]
    refine ends_bind.mpr (Action.ends_require.mpr ?_)
    split
    · obtain ⟨nonce, hnonce, hlength⟩ := nonce_length hiv l.writeSeq
      obtain ⟨outcome, houtcome⟩ := aeadSeal_runs hlength
      refine ends_bind.mpr (ends_orStop.mpr ?_)
      rw [hnonce]
      refine ends_bind.mpr (ends_orStop.mpr ?_)
      rw [houtcome]
      refine ends_bind.mpr (ends_lift.mpr ?_)
      cases outcome with
      | error e => exact trivial
      | ok sealed =>
        refine ends_bind.mpr (ends_orStop.mpr ?_)
        unfold nextSeq
        split
        · assumption
        · exact trivial
    · exact trivial
  exact hends.none h

/-! ## The stream from the client -/

inductive Wrote : Epoch → Bytes → Epoch → Prop
  | nil {g : Epoch} : Wrote g [] g
  | data {g g' : Epoch} {l l' : RecordLayer} {data bytes rest : Bytes} (hwrite : l.write = some g.keys)
      (hseq : l.writeSeq = g.seq) (hseal : RecordLayer.seal .applicationData data 0 l = some (.ok bytes, l'))
      (hrest : Wrote ⟨g.keys, l'.writeSeq⟩ rest g') : Wrote g (bytes ++ rest) g'
  | update {g g' : Epoch} {l l' : RecordLayer} {u : KeyUpdate} {keys : TrafficKeys} {bytes rest : Bytes}
      (hwrite : l.write = some g.keys) (hseq : l.writeSeq = g.seq)
      (hseal : RecordLayer.seal .handshake u.encode 0 l = some (.ok bytes, l'))
      (hkeys : g.keys.updated = .ok keys) (hrest : Wrote ⟨keys, 0⟩ rest g') : Wrote g (bytes ++ rest) g'

theorem Wrote.trans {g g₁ g' : Epoch} {bytes bytes' : Bytes} (h : Wrote g bytes g₁) (h' : Wrote g₁ bytes' g') :
    Wrote g (bytes ++ bytes') g' := by
  induction h with
  | nil => exact h'
  | data hwrite hseq hseal _ ih =>
    rw [List.append_assoc]
    exact .data hwrite hseq hseal (ih h')
  | update hwrite hseq hseal hkeys _ ih =>
    rw [List.append_assoc]
    exact .update hwrite hseq hseal hkeys (ih h')

/-! ## Writing a record -/

def RecordWritten (conn : TlsConn) (t : ContentType) (content : Bytes) : Except TlsError Unit → TlsConn → Prop
  | .ok (), conn' => ∃ bytes seq refusals used messages,
      RecordLayer.seal t content 0 conn.layer = some (.ok bytes, { conn.layer with writeSeq := seq }) ∧
      conn' = { conn with layer := { conn.layer with writeSeq := seq }, written := conn.written ++ bytes,
                          refusals := refusals, messages := messages } ∧
      conn.refusals = used ++ refusals ∧ used.any Option.isSome = false
  | .error e, conn' => Excused e ∧ ∃ seq refusals used,
      conn' = { conn with layer := { conn.layer with writeSeq := seq }, refusals := refusals } ∧
      conn.refusals = used ++ refusals ∧ (used.any Option.isSome = false → seq = conn.layer.writeSeq)

theorem writeRecord_ends {conn : TlsConn} {N : Prop} (hwrite : conn.layer.write = some keys)
    (hiv : keys.iv.length = 12) (hroom : conn.layer.writeSeq + 1 = 0 → N) (t : ContentType) (content : Bytes) :
    Action.Ends N (RecordWritten conn t content) (TlsConn.writeRecord t content conn) := by
  unfold TlsConn.writeRecord TlsConn.onLayer
  refine ends_bind.mpr (ends_onPart.mpr ?_)
  cases hseal : RecordLayer.seal t content 0 conn.layer with
  | none => exact hroom (seal_stops hwrite hiv hseal)
  | some r =>
    obtain ⟨r, layer⟩ := r
    cases r with
    | error e =>
      obtain rfl := seal_error hseal
      exact ⟨.unsealed (seal_failsAs _ _ _ _ _ _ hseal), _, _, [], rfl, rfl, fun _ => rfl⟩
    | ok bytes =>
      obtain ⟨seq, rfl⟩ : ∃ seq, layer = { conn.layer with writeSeq := seq } := by
        rcases seal_cases hseal with ⟨-, rfl, -⟩ | ⟨-, -, -, seq, -, rfl, -⟩
        · exact ⟨_, rfl⟩
        · exact ⟨seq, rfl⟩
      unfold TlsConn.writeAll
      refine ends_bind.mpr (ends_get.mpr (ends_bind.mpr (Action.ends_modify.mpr ?_)))
      cases hrefusals : conn.refusals with
      | nil => exact ⟨bytes, seq, [], [], _, hseal, rfl, hrefusals, rfl⟩
      | cons refusal rest =>
        cases refusal with
        | none => exact ⟨bytes, seq, rest, [none], _, hseal, rfl, hrefusals, rfl⟩
        | some text =>
          exact ⟨.socket (.io text), seq, rest, [some text], rfl, hrefusals,
            nofun⟩

theorem writeHandshake_ends {conn : TlsConn} {N : Prop}
    (hwrite : conn.layer.write = some keys) (hiv : keys.iv.length = 12)
    (hroom : conn.layer.writeSeq + 1 = 0 → N) (message : Bytes) :
    Action.Ends N (RecordWritten conn .handshake message) (TlsConn.writeHandshake message conn) := by
  have hassoc : TlsConn.writeHandshake message conn =
      (TlsConn.writeRecord .handshake message >>= fun _ =>
        Action.modify fun c => { c with messages := c.messages ++ [(.sent, message)] }) conn :=
    Action.bind_assoc.symm
  rw [hassoc]
  refine ends_bind.mpr ((writeRecord_ends hwrite hiv hroom _ _).mono fun r conn' hr => ?_)
  cases r with
  | error e => exact hr
  | ok u =>
    obtain ⟨bytes, seq, refusals, used, messages, hseal, rfl, hused, hnone⟩ := hr
    exact ⟨bytes, seq, refusals, used, _, hseal, rfl, hused, hnone⟩

/-! ## The client in a call -/

structure Keyed (c : Client) : Prop where
  keyed : ∃ k keys, c.schedule = some k ∧ k.serverApplication = c.conn.layer.read ∧
    k.clientApplication = some keys ∧ c.conn.layer.write = some keys ∧ keys.iv.length = 12

def Client.WritesIn (c : Client) (g : Epoch) : Prop :=
  c.conn.layer.write = some g.keys ∧ c.conn.layer.writeSeq = g.seq

/-- What a call has written since it began at `c₀`, in the epoch `g₀`; no write has failed. -/
def StillWriting (c₀ : Client) (g₀ : Epoch) (c : Client) : Prop :=
  ∃ bytes used g, c.conn.written = c₀.conn.written ++ bytes ∧ c₀.conn.refusals = used ++ c.conn.refusals ∧
    used.any Option.isSome = false ∧ Wrote g₀ bytes g ∧ c.WritesIn g

def HasWritten (c₀ : Client) (g₀ : Epoch) (c : Client) : Prop :=
  ∃ bytes used g, c.conn.written = c₀.conn.written ++ bytes ∧ c₀.conn.refusals = used ++ c.conn.refusals ∧
    Wrote g₀ bytes g ∧ (used.any Option.isSome = false → c.WritesIn g)

/-- In a call: `app` is the application data that was returned before it, and `N` says that it may stop, since
the client writes with its last sequence number. -/
structure InCall (s : Server) (down app : Bytes) (c₀ : Client) (g₀ : Epoch) (N : Prop) (c : Client) : Prop where
  keyed : Keyed c
  follows : Follows s down c.conn c.tickets (app ++ c.pendingApp)
  writing : StillWriting c₀ g₀ c
  room : c.conn.layer.writeSeq + 1 = 0 → N

structure AfterCall (s : Server) (down app : Bytes) (c₀ : Client) (g₀ : Epoch) (c : Client) : Prop where
  keyed : Keyed c
  follows : Follows s down c.conn c.tickets (app ++ c.pendingApp)
  written : HasWritten c₀ g₀ c

variable {s : Server} {down app : Bytes} {c₀ c : Client} {g₀ : Epoch} {N : Prop}

theorem InCall.after (h : InCall s down app c₀ g₀ N c) : AfterCall s down app c₀ g₀ c := by
  obtain ⟨bytes, used, g, hwritten, hused, -, hwrote, hg⟩ := h.writing
  exact ⟨h.keyed, h.follows, bytes, used, g, hwritten, hused, hwrote, fun _ => hg⟩

def Steps {α : Type} (s : Server) (down app : Bytes) (c₀ : Client) (g₀ : Epoch) (N : Prop) (c : Client) :
    Except TlsError α → Client → Prop
  | .ok _, c' => InCall s down app c₀ g₀ N c' ∧ c'.pendingApp = c.pendingApp
  | .error e, c' => AfterCall s down app c₀ g₀ c' ∧ Excused e

/-! ## The steps of a call -/

variable {current keys : TrafficKeys}

theorem rekeyRead_eq {k : KeySchedule} (hk : c.schedule = some k)
    (hcurrent : k.serverApplication = some current) (hkeys : current.updated = .ok keys) :
    Client.rekeyRead c = some (.ok (),
      { c with schedule := some { k with serverApplication := some keys }
               conn := { c.conn with layer := c.conn.layer.setRead keys } }) := by
  unfold Client.rekeyRead
  refine bind_get_ok.mpr ?_
  refine bind_demand_ok.mpr ⟨k, hk, ?_⟩
  refine bind_demand_ok.mpr ⟨current, hcurrent, ?_⟩
  refine bind_lift_ok.mpr ⟨keys, hkeys, ?_⟩
  exact modify_ok.mpr rfl

theorem rekeyWrite_eq {k : KeySchedule} (hk : c.schedule = some k)
    (hcurrent : k.clientApplication = some current) (hkeys : current.updated = .ok keys) :
    Client.rekeyWrite c = some (.ok (),
      { c with schedule := some { k with clientApplication := some keys }
               conn := { c.conn with layer := c.conn.layer.setWrite keys } }) := by
  unfold Client.rekeyWrite
  refine bind_get_ok.mpr ?_
  refine bind_demand_ok.mpr ⟨k, hk, ?_⟩
  refine bind_demand_ok.mpr ⟨current, hcurrent, ?_⟩
  refine bind_lift_ok.mpr ⟨keys, hkeys, ?_⟩
  exact modify_ok.mpr rfl

variable {conn' : TlsConn}

theorem AfterCall.of_failed {t : ContentType} {content : Bytes} {e : TlsError}
    (h : InCall s down app c₀ g₀ N c) (hfailed : RecordWritten c.conn t content (.error e) conn') :
    AfterCall s down app c₀ g₀ { c with conn := conn' } ∧ Excused e := by
  obtain ⟨hexcused, seq, refusals, used, rfl, hrefusals, hseq⟩ := hfailed
  obtain ⟨bytes, used₀, g, hwritten, hused, hnone, hwrote, hg⟩ := h.writing
  obtain ⟨p, ms, hsends, hbehind⟩ := h.follows
  refine ⟨⟨⟨h.keyed.keyed⟩, ⟨p, ms, hsends, hbehind.buffer, hbehind.whole, hbehind.begun, hbehind.app,
    hbehind.epochs, hbehind.socket⟩, bytes, used₀ ++ used, g, hwritten, ?_, hwrote, fun hall => ?_⟩, hexcused⟩
  · rw [hused, hrefusals, List.append_assoc]
  · rw [List.any_append, Bool.or_eq_false_iff] at hall
    exact ⟨hg.1, (hseq hall.2).trans hg.2⟩

/-- **A KeyUpdate** of the client: the record goes out in one epoch and the client writes in the next. -/
theorem sendKeyUpdate_steps (u : KeyUpdate) (h : InCall s down app c₀ g₀ N c) :
    Action.Ends N (Steps s down app c₀ g₀ N c) (Client.sendKeyUpdate u c) := by
  obtain ⟨k, keys, hk, hserver, hclient, hwrite, hiv⟩ := h.keyed.keyed
  obtain ⟨keys', hkeys'⟩ := updated_runs keys
  unfold Client.sendKeyUpdate
  refine ends_bind.mpr (ends_onPart.mpr ?_)
  refine (writeHandshake_ends hwrite hiv h.room u.encode).mono fun r conn' hr => ?_
  cases r with
  | error e => exact AfterCall.of_failed h hr
  | ok v =>
    obtain ⟨bytes, seq, refusals, used, messages, hseal, rfl, hrefusals, hnone⟩ := hr
    obtain ⟨bytes₀, used₀, g, hwritten, hused, hnone₀, hwrote, hg⟩ := h.writing
    obtain ⟨p, ms, hsends, hbehind⟩ := h.follows
    obtain rfl : g.keys = keys := Option.mem_unique hg.1 hwrite
    refine Action.ends_of_some (rekeyWrite_eq hk hclient hkeys') ⟨⟨⟨_, keys', rfl, hserver, rfl, rfl,
      updated_iv hkeys'⟩, ⟨p, ms, hsends, hbehind.buffer, hbehind.whole, hbehind.begun, hbehind.app,
      hbehind.epochs, hbehind.socket⟩, ⟨bytes₀ ++ bytes, used₀ ++ used, ⟨keys', 0⟩, ?_, ?_, ?_, ?_, rfl, rfl⟩,
      fun h => absurd h (by decide : (0 : UInt64) + 1 ≠ 0)⟩, rfl⟩
    · rw [← List.append_assoc, ← hwritten]
    · rw [hused, hrefusals, List.append_assoc]
    · rw [List.any_append, hnone₀, hnone]
      rfl
    · have hlast := Wrote.update hg.1 hg.2 hseal hkeys' .nil
      rw [List.append_nil] at hlast
      exact hwrote.trans hlast

theorem InCall.read {tickets : List NewSessionTicket} {app' pendingApp : Bytes}
    (h : InCall s down app c₀ g₀ N c) (hsame : SameWriter c.conn conn')
    (hfollows : Follows s down conn' tickets (app' ++ pendingApp)) (records : Nat) :
    InCall s down app' c₀ g₀ N { c with
      conn := conn', tickets := tickets, pendingApp := pendingApp, serverCcsRecords := records } := by
  obtain ⟨k, keys, hk, hserver, hclient, hwrite, hiv⟩ := h.keyed.keyed
  obtain ⟨bytes, used, g, hwritten, hused, hnone, hwrote, hg⟩ := h.writing
  refine ⟨⟨k, keys, hk, hserver.trans hsame.read.symm, hclient, hsame.write.trans hwrite, hiv⟩, hfollows,
    ⟨bytes, used, g, hsame.written.trans hwritten, ?_, hnone, hwrote, hsame.write.trans hg.1,
      hsame.seq.trans hg.2⟩, fun hlast => h.room ?_⟩
  · rw [hused]
    exact congrArg (used ++ ·) hsame.refusals.symm
  · rw [← hsame.seq]
    exact hlast

/-- **A message after the handshake** is recorded, or moves the reading side on and is answered. -/
theorem postHandshake_steps {m : HandshakeMessage} (h : InCall s down app c₀ g₀ N c)
    (hsame : SameWriter c.conn conn') (hhands : Hands s down conn' c.tickets (app ++ c.pendingApp) m) :
    Action.Ends N (Steps s down app c₀ g₀ N c) (Client.postHandshake m { c with conn := conn' }) := by
  unfold Client.postHandshake
  cases hhands with
  | @ticket t htype hparse hfollows =>
    rw [if_pos htype, hparse]
    exact ⟨h.read hsame hfollows c.serverCcsRecords, rfl⟩
  | @update u current keys htype hparse hread hkeys hfollows =>
    have hnot : m.msgType ≠ .newSessionTicket := by
      rw [htype]
      decide
    obtain ⟨k, kw, hk, hserver, hclient, hwrite, hiv⟩ := h.keyed.keyed
    have hcurrent : k.serverApplication = some current := hserver.trans (hsame.read.symm.trans hread)
    have hrekeyed := rekeyRead_eq (c := { c with conn := conn' }) hk hcurrent hkeys
    obtain ⟨bytes, used, g, hwritten, hused, hnone, hwrote, hg⟩ := h.writing
    have hnext : InCall s down app c₀ g₀ N { c with
        schedule := some { k with serverApplication := some keys }
        conn := { conn' with layer := conn'.layer.setRead keys } } := by
      refine ⟨⟨_, kw, rfl, rfl, hclient, hsame.write.trans hwrite, hiv⟩, hfollows,
        ⟨bytes, used, g, hsame.written.trans hwritten, ?_, hnone, hwrote, hsame.write.trans hg.1,
          hsame.seq.trans hg.2⟩, fun hlast => h.room ?_⟩
      · rw [hused]
        exact congrArg (used ++ ·) hsame.refusals.symm
      · rw [← hsame.seq]
        exact hlast
    rw [if_neg hnot, if_pos htype, hparse]
    refine ends_bind.mpr (ends_lift.mpr ?_)
    refine ends_bind.mpr (Action.ends_of_some hrekeyed ?_)
    show Action.Ends N _ ((if _ then _ else _ : Action Client TlsError Unit) _)
    split
    · exact (sendKeyUpdate_steps .notRequested hnext).mono fun r t hr => by
        cases r with
        | ok v => exact hr
        | error e => exact hr
    · exact ⟨hnext, rfl⟩

/-! ## Whole calls -/

/-- How a call ends that returns application data. -/
def Over (s : Server) (down app : Bytes) (c₀ : Client) (g₀ : Epoch) : Except TlsError Bytes → Client → Prop
  | .ok d, c' => AfterCall s down (app ++ d) c₀ g₀ c'
  | .error e, c' => AfterCall s down app c₀ g₀ c' ∧ Excused e

theorem readAppDataLoop_over (hopens : OpensSealed) (lefts : List Nat) (h : InCall s down app c₀ g₀ N c)
    (hempty : c.pendingApp = []) : Action.Ends N (Over s down app c₀ g₀) (Client.readAppDataLoop lefts c) := by
  induction lefts generalizing c with
  | nil => exact ⟨h.after, .socket (.timeout _)⟩
  | cons left lefts ih =>
    unfold Client.readAppDataLoop
    refine ends_bind.mpr (ends_onPart.mpr ?_)
    refine (nextMessageWithin_follows hopens left h.follows).mono fun r conn' hr => ?_
    match r with
    | .error e =>
      obtain ⟨hsame, hfollows, he⟩ := hr
      exact ⟨(h.read hsame hfollows c.serverCcsRecords).after, he⟩
    | .ok (.handshake m) =>
      refine ends_bind.mpr ((postHandshake_steps h hr.1 hr.2).mono fun r t ht => ?_)
      cases r with
      | ok v => exact ih ht.1 (ht.2.trans hempty)
      | error e => exact ht
    | .ok (.appData d) =>
      obtain ⟨hsame, hfollows⟩ := hr
      show Action.Ends N _ ((if _ then _ else _ : Action Client TlsError Bytes) _)
      split
      · have happ : app ++ c.pendingApp ++ d = app ++ d ++ c.pendingApp := by
          rw [hempty, List.append_nil, List.append_nil]
        exact (h.read hsame (happ ▸ hfollows) c.serverCcsRecords).after
      · rename_i hd
        rw [not_not.mp hd, List.append_nil] at hfollows
        exact ih (h.read hsame hfollows c.serverCcsRecords) hempty

theorem readAppData_over (hopens : OpensSealed) (lefts : List Nat) (h : InCall s down app c₀ g₀ N c) :
    Action.Ends N (Over s down app c₀ g₀) (Client.readAppData lefts c) := by
  unfold Client.readAppData
  refine ends_bind.mpr (ends_get.mpr ?_)
  show Action.Ends N _ ((if _ then _ else _ : Action Client TlsError Bytes) c)
  split
  · have hfollows : Follows s down c.conn c.tickets (app ++ c.pendingApp ++ []) :=
      (List.append_nil (app ++ c.pendingApp)).symm ▸ h.follows
    exact (h.read (.refl c.conn) hfollows c.serverCcsRecords).after
  · rename_i hempty
    exact readAppDataLoop_over hopens lefts h (not_not.mp hempty)

def Ended {α : Type} (s : Server) (down app : Bytes) (c₀ : Client) (g₀ : Epoch) :
    Except TlsError α → Client → Prop
  | .ok _, c' => AfterCall s down app c₀ g₀ c'
  | .error e, c' => AfterCall s down app c₀ g₀ c' ∧ Excused e

theorem collectTicketsLoop_ended (hopens : OpensSealed) (before : Nat) (lefts : List Nat)
    (h : InCall s down app c₀ g₀ N c) :
    Action.Ends N (Ended s down app c₀ g₀) (Client.collectTicketsLoop before lefts c) := by
  induction lefts generalizing c with
  | nil => exact h.after
  | cons left lefts ih =>
    unfold Client.collectTicketsLoop
    refine ends_bind.mpr (Action.ends_attempt.mpr (ends_onPart.mpr ?_))
    refine (nextMessageWithin_follows hopens left h.follows).mono fun r conn' hr => ?_
    match r with
    | .error e =>
      obtain ⟨hsame, hfollows, he⟩ := hr
      have hafter := (h.read hsame hfollows c.serverCcsRecords).after
      cases e with
      | timeout what => exact hafter
      | _ => exact ⟨hafter, he⟩
    | .ok (.handshake m) =>
      refine ends_bind.mpr ((postHandshake_steps h hr.1 hr.2).mono fun r t ht => ?_)
      cases r with
      | ok v => exact ih ht.1
      | error e => exact ht
    | .ok (.appData d) =>
      obtain ⟨hsame, hfollows⟩ := hr
      rw [List.append_assoc] at hfollows
      exact ih (h.read hsame hfollows c.serverCcsRecords)

theorem writeAppData_ended (data : Bytes) (h : InCall s down app c₀ g₀ N c) :
    Action.Ends N (Ended s down app c₀ g₀) (Client.writeAppData data c) := by
  obtain ⟨k, keys, hk, hserver, hclient, hwrite, hiv⟩ := h.keyed.keyed
  unfold Client.writeAppData
  refine ends_onPart.mpr ?_
  refine (writeRecord_ends hwrite hiv h.room .applicationData data).mono fun r conn' hr => ?_
  cases r with
  | error e => exact AfterCall.of_failed h hr
  | ok v =>
    obtain ⟨bytes, seq, refusals, used, messages, hseal, rfl, hrefusals, hnone⟩ := hr
    obtain ⟨bytes₀, used₀, g, hwritten, hused, -, hwrote, hg⟩ := h.writing
    obtain ⟨p, ms, hsends, hbehind⟩ := h.follows
    refine ⟨⟨k, keys, hk, hserver, hclient, hwrite, hiv⟩, ⟨p, ms, hsends, hbehind.buffer, hbehind.whole,
      hbehind.begun, hbehind.app, hbehind.epochs, hbehind.socket⟩, bytes₀ ++ bytes, used₀ ++ used,
      ⟨g.keys, seq⟩, ?_, ?_, ?_, fun _ => ⟨hg.1, rfl⟩⟩
    · rw [← List.append_assoc, ← hwritten]
    · rw [hused, hrefusals, List.append_assoc]
    · have hlast := Wrote.data hg.1 hg.2 hseal .nil
      rw [List.append_nil] at hlast
      exact hwrote.trans hlast

/-- How a call ends, with what it replies. -/
def ReplyOver (s : Server) (down app : Bytes) (c₀ : Client) (g₀ : Epoch) (r : Except TlsError Reply)
    (c' : Client) : Prop :=
  AfterCall s down (app ++ Reply.returned r) c₀ g₀ c' ∧ ∀ e, r = .error e → Excused e

theorem replyOver_error {e : TlsError} (h : AfterCall s down app c₀ g₀ c ∧ Excused e) :
    ReplyOver s down app c₀ g₀ (.error e) c := by
  refine ⟨?_, fun e' he => by cases he; exact h.2⟩
  rw [show Reply.returned (.error e) = [] from rfl, List.append_nil]
  exact h.1

theorem ends_reply {α : Type} {x : Action Client TlsError α} {f : α → Reply}
    (hf : ∀ a, Reply.returned (.ok (f a)) = []) (h : Action.Ends N (Ended s down app c₀ g₀) (x c)) :
    Action.Ends N (ReplyOver s down app c₀ g₀) ((x >>= fun a => pure (f a)) c) := by
  refine ends_bind.mpr (h.mono fun r c' hr => ?_)
  cases r with
  | ok a =>
    refine ⟨?_, fun e he => by cases he⟩
    rw [hf a, List.append_nil]
    exact hr
  | error e => exact replyOver_error hr

/-- **A call** leaves the client behind the server, whatever it is and however it ends. -/
theorem reply_over (hopens : OpensSealed) (call : ClientCall) (h : InCall s down app c₀ g₀ N c) :
    Action.Ends N (ReplyOver s down app c₀ g₀) (Client.reply call c) := by
  cases call with
  | readAppData lefts =>
    refine ends_bind.mpr ((readAppData_over hopens lefts h).mono fun r c' hr => ?_)
    cases r with
    | ok d => exact ⟨hr, fun e he => by cases he⟩
    | error e => exact replyOver_error hr
  | collectTickets lefts =>
    refine ends_reply (fun _ => rfl) ?_
    unfold Client.collectTickets
    exact ends_bind.mpr (ends_get.mpr (collectTicketsLoop_ended hopens _ lefts h))
  | writeAppData data => exact ends_reply (fun _ => rfl) (writeAppData_ended data h)
  | sendKeyUpdate u =>
    refine ends_reply (fun _ => rfl) ((sendKeyUpdate_steps u h).mono fun r c' hr => ?_)
    cases r with
    | ok v => exact hr.1.after
    | error e => exact hr

/-! ## The server -/

def Server.ReadsIn (s : Server) (g : Epoch) : Prop :=
  s.layer.read = some g.keys ∧ s.layer.readSeq = g.seq

/-- What saying something leaves alone. -/
structure Server.HearsLike (s s' : Server) : Prop where
  read : s'.layer.read = s.layer.read
  seq : s'.layer.readSeq = s.layer.readSeq
  heard : s'.heard = s.heard

theorem saidAll_hearsLike {ms : List HandshakeMessage} {s s' : Server} {u : Unit}
    (h : Server.saidAll ms s = some (.ok u, s')) : s.HearsLike s' := by
  induction ms generalizing s with
  | nil =>
    obtain ⟨-, rfl⟩ := Action.pure_ok.mp h
    exact ⟨rfl, rfl, rfl⟩
  | cons m ms ih =>
    obtain ⟨_, s₁, hsaid, h⟩ := bind_ok.mp h
    have hfirst : s.HearsLike s₁ := by
      unfold Server.said at hsaid
      split at hsaid
      · obtain ⟨t, -, hsaid⟩ := bind_lift_ok.mp hsaid
        obtain rfl := modify_ok.mp hsaid
        exact ⟨rfl, rfl, rfl⟩
      · split at hsaid
        · obtain ⟨update, -, hsaid⟩ := bind_lift_ok.mp hsaid
          obtain ⟨-, -, -, -, rfl⟩ := rekeyWrite_ok hsaid
          exact ⟨rfl, rfl, rfl⟩
        · exact (Action.fail_ok.mp hsaid).elim
    have hrest := ih h
    exact ⟨hrest.read.trans hfirst.read, hrest.seq.trans hfirst.seq, hrest.heard.trans hfirst.heard⟩

theorem say_hearsLike {s s' : Server} {padding : Nat} {saying : Saying} {bytes : Bytes}
    (h : s.say padding saying = some (.ok bytes, s')) : s.HearsLike s' := by
  obtain ⟨layer, hseal, hby⟩ := say_ok h
  obtain ⟨seq, rfl⟩ : ∃ seq, layer = { s.layer with writeSeq := seq } := by
    rcases seal_cases hseal with ⟨-, rfl, -⟩ | ⟨-, -, -, seq, -, rfl, -⟩
    · exact ⟨_, rfl⟩
    · exact ⟨seq, rfl⟩
  cases saying with
  | appData data =>
    obtain rfl := hby
    exact ⟨rfl, rfl, rfl⟩
  | handshake fragment =>
    have hrest := saidAll_hearsLike hby
    exact ⟨hrest.read, hrest.seq, hrest.heard⟩

theorem Server.rekeyRead_eq {s : Server} (hcurrent : s.layer.read = some current) (hkeys : current.updated = .ok keys) :
    s.rekeyRead = some (.ok (), { s with layer := s.layer.setRead keys }) := by
  unfold Server.rekeyRead
  refine bind_get_ok.mpr ?_
  refine bind_demand_ok.mpr ⟨current, hcurrent, ?_⟩
  refine bind_lift_ok.mpr ⟨keys, hkeys, ?_⟩
  exact modify_ok.mpr rfl

theorem hear_wrote (hopens : OpensSealed) {s : Server} {g g' : Epoch} {up : Bytes} (hg : s.ReadsIn g)
    (hheard : s.heard = []) (h : Wrote g up g') (hne : up ≠ []) :
    ∃ record used s' g₁, Record.parse up = .ok (record, used) ∧ Server.hear record s = some (.ok (), s') ∧
      s'.ReadsIn g₁ ∧ s'.heard = [] ∧ Wrote g₁ (up.drop used) g' ∧ s.SaysLike s' := by
  cases h with
  | nil => exact absurd rfl hne
  | @data _ _ l l' data bytes rest hwrite hseq hseal hrest =>
    obtain ⟨record, seq, rfl, hparse, -, hopen⟩ := sealed_record hopens
      ⟨hg.1.trans hwrite.symm, hg.2.trans hseq.symm⟩ hwrite (by decide) hseal
    refine ⟨record, bytes.length, _, ⟨g.keys, seq⟩, hparse rest,
      bind_ok.mpr ⟨_, _, Action.onPart_ok.mpr ⟨_, hopen, rfl⟩, rfl⟩, ⟨hg.1, rfl⟩, hheard, ?_,
      ⟨rfl, rfl, rfl, rfl, rfl⟩⟩
    rw [List.drop_left]
    exact hrest
  | @update _ _ l l' u keys bytes rest hwrite hseq hseal hkeys hrest =>
    obtain ⟨record, seq, rfl, hparse, -, hopen⟩ := sealed_record hopens
      ⟨hg.1.trans hwrite.symm, hg.2.trans hseq.symm⟩ hwrite (by decide) hseal
    have hmessages : messagesIn (s.heard ++ u.encode) = ([⟨.keyUpdate, u.body, u.encode⟩], []) := by
      rw [hheard]
      exact messagesIn_whole (@whole_encoded .keyUpdate u.body (by show 1 < 16777216; decide))
    refine ⟨record, bytes.length,
      { s with layer := RecordLayer.setRead { s.layer with readSeq := seq } keys, heard := [] }, ⟨keys, 0⟩,
      hparse rest, ?_, ⟨rfl, rfl⟩, rfl, ?_, ⟨rfl, rfl, rfl, rfl, rfl⟩⟩
    · refine bind_ok.mpr ⟨_, _, Action.onPart_ok.mpr ⟨_, hopen, rfl⟩, ?_⟩
      refine bind_get_ok.mpr ?_
      rw [hmessages]
      refine Action.bind_modify_ok.mpr ?_
      refine Action.bind_require_ok.mpr ⟨rfl, ?_⟩
      refine bind_lift_ok.mpr ⟨u, keyUpdate_reads u, ?_⟩
      exact bind_ok.mpr ⟨(), _, Server.rekeyRead_eq hg.1 hkeys, rfl⟩
    · rw [List.drop_left]
      exact hrest

end

end BuildYourOwn.Tls
