import BuildYourOwn.Tls.Calls
import BuildYourOwn.Tls.Transcripts

/-!
# Key updates

A client that has finished its handshake and a server stay in step, whatever each of them does and whatever the
network does in between: `Synced` is the invariant of a run.
-/

namespace BuildYourOwn.Tls

open Lib
open Lib.Action (bind_ok get_ok lift_ok modify_ok pure_ok)

section variable [Crates]

/-! ## The end of a handshake -/

variable {c c' : Client} {k k' : KeySchedule} {u : Unit}

structure JustKeyed (c : Client) : Prop where
  keys : ∃ k client server layer, c.schedule = some k ∧ k.clientApplication = some client ∧
    k.serverApplication = some server ∧ client.iv.length = 12 ∧
    c.conn.layer = (RecordLayer.setWrite layer client).setRead server

theorem enterApplication_keys {hash : Bytes} (h : KeySchedule.enterApplication hash k = some (.ok u, k')) :
    ∃ client server, k'.clientApplication = some client ∧ k'.serverApplication = some server ∧
      client.iv.length = 12 := by
  unfold KeySchedule.enterApplication at h
  simp only [bind_ok, get_ok, lift_ok, modify_ok] at h
  obtain ⟨_, _, ⟨rfl, rfl⟩, _, _, ⟨-, rfl⟩, _, _, ⟨-, rfl⟩, _, _, ⟨-, rfl⟩, client, _, ⟨hclient, rfl⟩, _, _,
    rfl, server, _, ⟨-, rfl⟩, _, _, rfl, rfl⟩ := h
  exact ⟨client, server, rfl, rfl, derive_iv hclient⟩

theorem deriveResumptionMaster_keeps {hash secret : Bytes}
    (h : KeySchedule.deriveResumptionMaster hash k = some (.ok secret, k')) :
    k'.clientApplication = k.clientApplication ∧ k'.serverApplication = k.serverApplication := by
  unfold KeySchedule.deriveResumptionMaster at h
  simp only [bind_ok, get_ok, lift_ok, modify_ok, pure_ok] at h
  obtain ⟨_, _, ⟨rfl, rfl⟩, _, _, ⟨-, rfl⟩, _, _, rfl, -, rfl⟩ := h
  exact ⟨rfl, rfl⟩

theorem sendClientFinished_keyed {client server : TrafficKeys} (hk : c.schedule = some k)
    (hclient : k.clientApplication = some client) (hserver : k.serverApplication = some server)
    (hiv : client.iv.length = 12) (h : Client.sendClientFinished c = some (.ok u, c')) : JustKeyed c' := by
  unfold Client.sendClientFinished Client.sendClientFinishedBytes at h
  replace h := Action.bind_get_ok.mp h
  obtain ⟨data, -, h⟩ := Action.bind_lift_ok.mp h
  obtain ⟨_, c₁, hensure, h⟩ := bind_ok.mp h
  obtain ⟨conn, installed, -, -, rfl⟩ := ensureClientHandshakeKeys_ok hensure
  obtain ⟨written, c₂, hattempt, h⟩ := bind_ok.mp h
  obtain ⟨_, c₃, hsent, h⟩ := bind_ok.mp h
  obtain ⟨rfl, rfl⟩ := lift_ok.mp h
  obtain ⟨conn', rfl, -⟩ := onConn_writeHandshake (Action.attempt_ok.mp hattempt)
  obtain ⟨t, k₁, k₂, secret, layer, -, hk₁, hderive, hlayer, rfl⟩ := clientFinishedSent_ok hsent
  obtain rfl : k = k₁ := Option.mem_unique hk hk₁
  obtain ⟨hclient', hserver'⟩ := deriveResumptionMaster_keeps hderive
  exact ⟨k₂, client, server, _, rfl, hclient'.trans hclient, hserver'.trans hserver, hiv,
    hlayer client server (hclient'.trans hclient) (hserver'.trans hserver)⟩

theorem handshake_keyed [Curves] [Signatures] {arrivals : List (Except TlsError Bytes)} {refusals : List (Option String)}
    {config : ClientConfig} {run : Action Client TlsError Unit} {n : Nat} (hrun : Handshake run n)
    (h : run (.over (.new arrivals refusals) config) = some (.ok (), c)) : JustKeyed c := by
  have hends {c₁ : Client} {suite : Suite} {messages answer : List (Direction × Bytes)} {k k' : KeySchedule}
      (hreplied : Replied c₁ suite messages answer k k')
      (hlast : Client.sendClientFinished c₁ = some (.ok (), c)) : JustKeyed c := by
    obtain ⟨client, server, hclient, hserver, hiv⟩ := enterApplication_keys hreplied.finished.entered
    exact sendClientFinished_keyed hreplied.schedule hclient hserver hiv hlast
  cases hrun with
  | plain =>
    obtain ⟨_, c₁, hflight, hlast⟩ := bind_ok.mp h
    obtain ⟨_, _, _, _, _, -, -, -, hreplied⟩ := handshakeThroughServerFlight_replied hflight
    exact hends hreplied hlast
  | authenticating auth =>
    obtain ⟨_, c₁, hflight, h⟩ := bind_ok.mp h
    obtain ⟨_, c₂, hauth, hlast⟩ := bind_ok.mp h
    obtain ⟨_, _, _, _, _, -, -, -, hreplied⟩ := handshakeThroughServerFlight_replied hflight
    obtain ⟨-, _, -, hreplied'⟩ := sendClientAuth_replied hreplied hauth
    exact hends hreplied' hlast
  | declining =>
    obtain ⟨_, c₁, hflight, h⟩ := bind_ok.mp h
    obtain ⟨_, c₂, hempty, hlast⟩ := bind_ok.mp h
    obtain ⟨_, _, _, _, _, -, -, -, hreplied⟩ := handshakeThroughServerFlight_replied hflight
    obtain ⟨-, _, -, hreplied'⟩ := sendEmptyClientCertificate_replied hreplied hempty
    exact hends hreplied' hlast

/-! ## What is on its way -/

theorem Said.prefix {ms : List HandshakeMessage} {g g' : Epoch} {ts ts' : List NewSessionTicket}
    (h : Said ms g ts g' ts') : ts <+: ts' := by
  induction h with
  | nil => exact List.prefix_rfl
  | ticket _ _ _ ih => exact (List.prefix_append _ _).trans ih
  | update _ _ _ _ ih => exact ih

theorem Said.nothing {g g' : Epoch} {ts ts' : List NewSessionTicket} (h : Said [] g ts g' ts') : g = g' ∧ ts = ts' := by
  cases h
  exact ⟨rfl, rfl⟩

variable {padding : Nat}

theorem seal_layer {t : ContentType} {content bytes : Bytes} {l l' : RecordLayer}
    (h : RecordLayer.seal t content padding l = some (.ok bytes, l')) :
    (∃ seq, l' = { l with writeSeq := seq }) ∧ bytes ≠ [] := by
  rcases seal_cases h with ⟨-, rfl, rfl⟩ | ⟨-, -, -, seq, -, rfl, rfl⟩
  · exact ⟨⟨_, rfl⟩, List.cons_ne_nil _ _⟩
  · exact ⟨⟨seq, rfl⟩, List.cons_ne_nil _ _⟩

variable {bytes : Bytes}

theorem say_adds {s s' : Server} {saying : Saying} {g : Epoch}
    (hg : s.WritesIn g) (h : s.say padding saying = some (.ok bytes, s')) :
    (∃ g', s'.WritesIn g') ∧ s.sentApp <+: s'.sentApp ∧ s.sentTickets <+: s'.sentTickets := by
  obtain ⟨layer, hseal, hby⟩ := say_ok h
  obtain ⟨⟨seq, rfl⟩, -⟩ := seal_layer hseal
  cases saying with
  | appData data =>
    obtain rfl := hby
    exact ⟨⟨⟨g.keys, seq⟩, hg.1, rfl⟩, List.prefix_append _ _, List.prefix_rfl⟩
  | handshake fragment =>
    obtain ⟨g', hg', hsaid, -, happ⟩ := saidAll_ok (g := ⟨g.keys, seq⟩) (by exact ⟨hg.1, rfl⟩) hby
    exact ⟨⟨g', hg'⟩, happ ▸ List.prefix_rfl, hsaid.prefix⟩

variable {p s : Server}

theorem Sends.adds (h : Sends p bytes s) {g : Epoch} (hg : p.WritesIn g) :
    p.sentApp <+: s.sentApp ∧ p.sentTickets <+: s.sentTickets := by
  induction h generalizing g with
  | nil => exact ⟨List.prefix_rfl, List.prefix_rfl⟩
  | heard hsame _ ih =>
    have hrest := ih (g := g) ⟨hsame.write.trans hg.1, hsame.seq.trans hg.2⟩
    rwa [hsame.app, hsame.tickets] at hrest
  | say hsay _ ih =>
    obtain ⟨⟨g', hg'⟩, happ, htickets⟩ := say_adds hg hsay
    obtain ⟨happ', htickets'⟩ := ih hg'
    exact ⟨happ.trans happ', htickets.trans htickets'⟩

theorem Sends.nothing (h : Sends p bytes s) (hnil : bytes = []) : p.SaysLike s := by
  induction h with
  | nil => exact ⟨rfl, rfl, rfl, rfl, rfl⟩
  | heard hsame _ ih =>
    have hrest := ih hnil
    exact ⟨hrest.write.trans hsame.write, hrest.seq.trans hsame.seq, hrest.begun.trans hsame.begun,
      hrest.app.trans hsame.app, hrest.tickets.trans hsame.tickets⟩
  | say hsay _ _ =>
    obtain ⟨layer, hseal, -⟩ := say_ok hsay
    exact absurd (List.append_eq_nil_iff.mp hnil).1 (seal_layer hseal).2

variable {early : List (Nat × Saying)}

theorem sends_sayAll (h : Server.sayAll early p = some (.ok bytes, s)) : Sends p bytes s := by
  induction early generalizing p bytes with
  | nil =>
    obtain ⟨rfl, rfl⟩ := pure_ok.mp h
    exact .nil
  | cons saying rest ih =>
    obtain ⟨first, p₁, hsay, h⟩ := bind_ok.mp h
    obtain ⟨more, p₂, hmore, h⟩ := bind_ok.mp h
    obtain ⟨rfl, rfl⟩ := pure_ok.mp h
    exact .say hsay (ih hmore)

theorem sayAll_hearsLike (h : Server.sayAll early p = some (.ok bytes, s)) : p.HearsLike s := by
  induction early generalizing p bytes with
  | nil =>
    obtain ⟨-, rfl⟩ := pure_ok.mp h
    exact ⟨rfl, rfl, rfl⟩
  | cons saying rest ih =>
    obtain ⟨first, p₁, hsay, h⟩ := bind_ok.mp h
    obtain ⟨more, p₂, hmore, h⟩ := bind_ok.mp h
    obtain ⟨-, rfl⟩ := pure_ok.mp h
    have hfirst := say_hearsLike hsay
    have hrest := ih hmore
    exact ⟨hrest.read.trans hfirst.read, hrest.seq.trans hfirst.seq, hrest.heard.trans hfirst.heard⟩

/-! ## The two of them in step -/

structure Synced (t : System) : Prop where
  keyed : Keyed t.client
  follows : Follows t.server t.down t.client.conn t.client.tickets (t.returned ++ t.client.pendingApp)
  heard : t.server.heard = []
  up : ∃ g g', t.server.ReadsIn g ∧ Wrote g t.up g' ∧ (t.broken = false → t.client.WritesIn g')

theorem Follows.arrive {s : Server} {down rest : Bytes} {conn : TlsConn} {tickets : List NewSessionTicket}
    {app : Bytes} {arrival : Except TlsError Bytes} (h : Follows s down conn tickets app)
    (herror : ∀ e, arrival = .error e → SocketError e) (hdown : down = chunkOf arrival ++ rest) :
    Follows s rest { conn with arrivals := conn.arrivals ++ [arrival] } tickets app := by
  obtain ⟨p, ms, hsends, hbehind⟩ := h
  refine ⟨p, ms, ?_, hbehind.buffer, hbehind.whole, hbehind.begun, hbehind.app, hbehind.epochs, fun e he => ?_⟩
  · have hunread : ({ conn with arrivals := conn.arrivals ++ [arrival] } : TlsConn).unread ++ rest =
        conn.unread ++ down := by
      unfold TlsConn.unread
      rw [hdown, List.flatMap_append, List.flatMap_singleton]
      simp only [List.append_assoc]
    rw [hunread]
    exact hsends
  · rcases List.mem_append.mp he with he | he
    · exact hbehind.socket e he
    · exact herror e (List.mem_singleton.mp he).symm

structure StepsInSync (i : Move) (o : Except TlsError Reply) (t' : System) : Prop where
  synced : Synced t'
  heard : i = .hear → o = .ok .done
  error : ∀ e, o = .error e → Excused e

variable {t : System}

theorem say_synced {saying : Saying} {server : Server}
    (h : Synced t) (hsay : t.server.say padding saying = some (.ok bytes, server)) :
    Synced { t with server := server, down := t.down ++ bytes } := by
  obtain ⟨p, ms, hsends, hbehind⟩ := h.follows
  obtain ⟨g, g', hreads, hwrote, hwrites⟩ := h.up
  have hlike := say_hearsLike hsay
  refine ⟨h.keyed, ⟨p, ms, ?_, hbehind⟩, hlike.heard.trans h.heard,
    g, g', ⟨hlike.read.trans hreads.1, hlike.seq.trans hreads.2⟩, hwrote, hwrites⟩
  have hlast := hsends.trans (.say hsay .nil)
  rwa [List.append_nil, List.append_assoc] at hlast

/-- **What the server hears** opens, and moves its reading side on with the client. -/
theorem hear_synced (hopens : OpensSealed) (h : Synced t) (hup : t.up ≠ []) :
    ∃ t', t.step .hear = some (t', .ok .done) ∧ Synced t' := by
  obtain ⟨p, ms, hsends, hbehind⟩ := h.follows
  obtain ⟨g, g', hreads, hwrote, hwrites⟩ := h.up
  obtain ⟨record, used, server, g₁, hparse, hhear, hreads₁, hheard₁, hwrote₁, hlike⟩ :=
    hear_wrote hopens hreads h.heard hwrote hup
  refine ⟨{ t with server := server, up := t.up.drop used }, ?_, h.keyed, ⟨p, ms, ?_, hbehind⟩, hheard₁, g₁, g',
    hreads₁, hwrote₁, hwrites⟩
  · unfold System.step
    rw [hparse]
    dsimp only
    rw [hhear]
    rfl
  · have hlast := hsends.trans (.heard hlike .nil)
    rwa [List.append_nil] at hlast

theorem Synced.inCall (h : Synced t) : ∃ g₀,
    InCall t.server t.down t.returned t.client g₀ (t.client.conn.layer.writeSeq + 1 = 0) t.client ∧
      ∃ g, t.server.ReadsIn g ∧ (∃ g', Wrote g t.up g') ∧ (t.broken = false → Wrote g t.up g₀) := by
  obtain ⟨k, keys, -, -, -, hwrite, -⟩ := h.keyed.keyed
  obtain ⟨g, g', hreads, hwrote, hwrites⟩ := h.up
  have hin : t.client.WritesIn ⟨keys, t.client.conn.layer.writeSeq⟩ := ⟨hwrite, rfl⟩
  refine ⟨⟨keys, t.client.conn.layer.writeSeq⟩, ⟨h.keyed, h.follows, ?_, id⟩, g, hreads, ⟨g', hwrote⟩,
    fun hbroken => ?_⟩
  · exact ⟨[], [], _, (List.append_nil _).symm, rfl, rfl, .nil, hin⟩
  · obtain ⟨hkeys, hseq⟩ := hwrites hbroken
    obtain ⟨keys', seq'⟩ := g'
    obtain rfl : keys = keys' := Option.mem_unique hwrite hkeys
    obtain rfl : t.client.conn.layer.writeSeq = seq' := hseq
    exact hwrote

theorem call_synced {g₀ g : Epoch} {c' : Client} {r : Except TlsError Reply} (h : Synced t)
    (hreads : t.server.ReadsIn g) (hup : ∃ g', Wrote g t.up g') (hwrote : t.broken = false → Wrote g t.up g₀)
    (hafter : AfterCall t.server t.down (t.returned ++ Reply.returned r) t.client g₀ c') :
    Synced { t with
      client := c'
      up := if t.broken then t.up else t.up ++ c'.conn.written.drop t.client.conn.written.length
      broken := t.broken || System.refused t.client.conn c'.conn
      returned := t.returned ++ Reply.returned r } := by
  obtain ⟨bytes, used, g₁, hwritten, hused, hcall, hg₁⟩ := hafter.written
  refine ⟨hafter.keyed, hafter.follows, h.heard, ?_⟩
  cases hbroken : t.broken with
  | true =>
    obtain ⟨g', hwrote'⟩ := hup
    exact ⟨g, g', hreads, hwrote', nofun⟩
  | false =>
    refine ⟨g, g₁, hreads, ?_, fun hrefused => hg₁ ?_⟩
    · show Wrote g (t.up ++ c'.conn.written.drop t.client.conn.written.length) g₁
      rw [hwritten, List.drop_left]
      exact (hwrote hbroken).trans hcall
    · have htake : System.refused t.client.conn c'.conn = used.any Option.isSome := by
        unfold System.refused
        rw [hused, List.length_append, Nat.add_sub_cancel, List.take_left]
      rw [← htake]
      exact hrefused

/-- **One step** keeps the two of them in step, whichever it is. -/
theorem step_synced (hopens : OpensSealed) {t t' : System} {i : Move} {o : Except TlsError Reply} (h : Synced t)
    (hstep : t.step i = some (t', o)) : StepsInSync i o t' := by
  cases i with
  | say padding saying =>
    simp only [System.step] at hstep
    split at hstep
    · rename_i bytes server hsay
      cases hstep
      exact ⟨say_synced h hsay, nofun, nofun⟩
    · cases hstep
  | hear =>
    have hup : t.up ≠ [] := by
      intro hnil
      simp only [System.step, hnil] at hstep
      cases hstep
    obtain ⟨t₁, hstep₁, hsynced⟩ := hear_synced hopens h hup
    rw [hstep₁] at hstep
    cases hstep
    exact ⟨hsynced, fun _ => rfl, nofun⟩
  | deliver n =>
    cases hstep
    refine ⟨⟨⟨h.keyed.keyed⟩, h.follows.arrive nofun ?_, h.heard, h.up⟩, nofun, nofun⟩
    exact (List.take_append_drop n t.down).symm
  | late =>
    cases hstep
    refine ⟨⟨⟨h.keyed.keyed⟩, h.follows.arrive (fun e he => ?_) rfl, h.heard, h.up⟩, nofun, nofun⟩
    cases he
    exact .timeout _
  | fault text =>
    cases hstep
    refine ⟨⟨⟨h.keyed.keyed⟩, h.follows.arrive (fun e he => ?_) rfl, h.heard, h.up⟩, nofun, nofun⟩
    cases he
    exact .io _
  | call call =>
    obtain ⟨g₀, hin, g, hreads, hup, hwrote⟩ := h.inCall
    obtain ⟨⟨r, c'⟩, hreply, hstep⟩ := Option.map_eq_some_iff.mp hstep
    cases hstep
    obtain ⟨hafter, herror⟩ := (reply_over hopens call hin).some hreply
    exact ⟨call_synced h hreads hup hwrote hafter, nofun, herror⟩

theorem run_synced (hopens : OpensSealed) {t₀ t : System} {es : List (Event System Move (Except TlsError Reply))}
    (h₀ : Synced t₀) (hes : Run System.step t₀ es t) :
    Synced t ∧ ∀ ev ∈ es, StepsInSync ev.input ev.output ev.after := by
  refine hes.history_invariant (G := fun _ => True)
    (P := fun es t => Synced t ∧ ∀ ev ∈ es, StepsInSync ev.input ev.output ev.after)
    ⟨h₀, List.forall_mem_nil _⟩ ?_ fun _ _ => trivial
  rintro es t i t' o ⟨hsynced, hevents⟩ - hstep
  have hlast := step_synced hopens hsynced hstep
  refine ⟨hlast.synced, fun ev hev => ?_⟩
  rcases List.mem_append.mp hev with hev | hev
  · exact hevents ev hev
  · obtain rfl := List.mem_singleton.mp hev
    exact hlast

/-! ## What is in step -/

structure System.CaughtUp (t : System) : Prop where
  down : t.down = []
  unread : t.client.conn.unread = []
  messages : (messagesIn t.client.conn.hsBuf).1 = []
  data : t.client.conn.appBuf = []

/-- What holds between the two at any time. -/
structure System.InSync (t : System) : Prop where
  data : t.returned ++ t.client.pendingApp <+: t.server.sentApp
  tickets : t.client.tickets <+: t.server.sentTickets
  caughtUp : t.CaughtUp → t.returned ++ t.client.pendingApp = t.server.sentApp ∧
    t.client.tickets = t.server.sentTickets ∧ InStep t.server.layer t.client.conn.layer
  opens : ∀ record conn, TlsConn.buffered t.client.conn = some (.ok none, t.client.conn) →
    TlsConn.readRecord t.client.conn = some (.ok record, conn) →
      ∃ inner layer, RecordLayer.open record conn.layer = some (.ok inner, layer)
  hears : t.up ≠ [] → ∃ t', t.step .hear = some (t', .ok .done)
  heard : t.up = [] → t.broken = false → InStep t.client.conn.layer t.server.layer
  returns : ∀ call, t.step (.call call) = none → t.client.conn.layer.writeSeq + 1 = 0

theorem Wrote.nothing {g g' : Epoch} (h : Wrote g bytes g') (hnil : bytes = []) : g = g' := by
  cases h with
  | nil => rfl
  | data _ _ hseal _ => exact absurd (List.append_eq_nil_iff.mp hnil).1 (seal_layer hseal).2
  | update _ _ hseal _ _ => exact absurd (List.append_eq_nil_iff.mp hnil).1 (seal_layer hseal).2

theorem Behind.nothing {p : Server} {ms : List HandshakeMessage} {conn : TlsConn}
    {tickets : List NewSessionTicket} {app : Bytes} (h : Behind p ms conn tickets app)
    (hnone : (messagesIn conn.hsBuf).1 = []) : ms = [] := by
  cases ms with
  | nil => rfl
  | cons m ms =>
    rw [h.buffer, List.flatMap_cons, List.append_assoc, messagesIn_first (h.whole m List.mem_cons_self)] at hnone
    cases hnone

theorem Synced.caughtUp (h : Synced t) (hcaught : t.CaughtUp) :
    t.returned ++ t.client.pendingApp = t.server.sentApp ∧ t.client.tickets = t.server.sentTickets ∧
      InStep t.server.layer t.client.conn.layer := by
  obtain ⟨p, ms, hsends, hbehind⟩ := h.follows
  obtain ⟨g, g', hread, hseq, hwrites, hsaid⟩ := hbehind.epochs
  have hlike := hsends.nothing (by rw [hcaught.unread, hcaught.down]; rfl)
  obtain rfl := hbehind.nothing hcaught.messages
  have happ := hbehind.app
  rw [hcaught.data, List.flatten_nil, List.append_nil] at happ
  obtain ⟨rfl, htickets⟩ := hsaid.nothing
  exact ⟨happ.trans hlike.app.symm, htickets.trans hlike.tickets.symm,
    hread.trans (hwrites.1.symm.trans hlike.write.symm), hseq.trans (hwrites.2.symm.trans hlike.seq.symm)⟩

theorem Synced.inSync (hopens : OpensSealed) (h : Synced t) : t.InSync := by
  obtain ⟨p, ms, hsends, hbehind⟩ := h.follows
  obtain ⟨g, g', hread, hseq, hwrites, hsaid⟩ := hbehind.epochs
  obtain ⟨happ, htickets⟩ := hsends.adds hwrites
  refine ⟨?_, hsaid.prefix.trans htickets, h.caughtUp, ?_, ?_, ?_, ?_⟩
  · rw [← hbehind.app] at happ
    exact (List.prefix_append _ _).trans happ
  · intro record conn hbuffered hrecord
    obtain ⟨o, conn', hbuffered', hlooked⟩ := buffered_behind hbehind
    rw [hbuffered] at hbuffered'
    cases hbuffered'
    cases hlooked
    exact ((readRecord_follows (N := True) hopens hsends hbehind).some hrecord).1
  · intro hup
    obtain ⟨t', hstep, -⟩ := hear_synced hopens h hup
    exact ⟨t', hstep⟩
  · intro hup hbroken
    obtain ⟨g₁, g₂, hreads, hwrote, hclient⟩ := h.up
    obtain rfl := hwrote.nothing hup
    obtain ⟨hkeys, hseq'⟩ := hclient hbroken
    exact ⟨hreads.1.trans hkeys.symm, hreads.2.trans hseq'.symm⟩
  · intro call hstop
    obtain ⟨g₀, hin, -⟩ := h.inCall
    exact (reply_over hopens call hin).none (Option.map_eq_none_iff.mp hstop)

/-! ## From a handshake on -/

structure Server.Meets (s : Server) (c : Client) : Prop where
  write : s.layer.write = c.schedule.bind KeySchedule.serverApplication
  writeSeq : s.layer.writeSeq = 0
  read : s.layer.read = c.schedule.bind KeySchedule.clientApplication
  readSeq : s.layer.readSeq = 0
  ended : c.conn.hsBuf = []
  begun : s.begun = []
  heard : s.heard = []
  app : s.sentApp = c.pendingApp ++ c.conn.appBuf.flatten
  tickets : s.sentTickets = c.tickets

theorem start_synced {c : Client} {s₀ s : Server} {down : Bytes}
    (hc : JustKeyed c) (hsocket : ∀ e, .error e ∈ c.conn.arrivals → SocketError e) (hmeets : s₀.Meets c)
    (hearly : Server.sayAll early s₀ = some (.ok (c.conn.unread ++ down), s)) : Synced (.start c s down) := by
  obtain ⟨k, client, server, layer, hk, hclient, hserver, hiv, hlayer⟩ := hc.keys
  have hlike := sayAll_hearsLike hearly
  have hread : c.conn.layer.read = some server := by rw [hlayer]; rfl
  have hreadSeq : c.conn.layer.readSeq = 0 := by rw [hlayer]; rfl
  have hwrite : c.conn.layer.write = some client := by rw [hlayer]; rfl
  have hwriteSeq : c.conn.layer.writeSeq = 0 := by rw [hlayer]; rfl
  have hserves : s₀.layer.write = some server := by
    rw [hmeets.write, hk]
    exact hserver
  have hreads : s₀.layer.read = some client := by
    rw [hmeets.read, hk]
    exact hclient
  refine ⟨⟨k, client, hk, hserver.trans hread.symm, hclient, hwrite, hiv⟩,
    ⟨s₀, [], sends_sayAll hearly, ?_, nofun, hmeets.begun.symm ▸ begun_nil, ?_,
      ⟨⟨server, 0⟩, ⟨server, 0⟩, hread, hreadSeq, ⟨hserves, hmeets.writeSeq⟩, ?_⟩, hsocket⟩,
    hlike.heard.trans hmeets.heard,
    ⟨client, 0⟩, ⟨client, 0⟩, ⟨hlike.read.trans hreads, hlike.seq.trans hmeets.readSeq⟩, .nil,
    fun _ => ⟨hwrite, hwriteSeq⟩⟩
  · rw [hmeets.begun]
    exact hmeets.ended
  · rw [hmeets.app]
    rfl
  · rw [hmeets.tickets]
    exact .nil

variable [Curves] [Signatures]

/-- **Key updates keep both directions in step and lose nothing**, in every run of the two that follows a
handshake: what the server hears opens, and what a call fails with is no failure to open a record. -/
theorem updates_in_step (hopens : OpensSealed) {arrivals : List (Except TlsError Bytes)}
    {refusals : List (Option String)} {config : ClientConfig} {run : Action Client TlsError Unit} {n : Nat}
    {c : Client} {s₀ s : Server} {early : List (Nat × Saying)} {down : Bytes} {t : System}
    {es : List (Event System Move (Except TlsError Reply))} (hrun : Handshake run n)
    (h : run (.over (.new arrivals refusals) config) = some (.ok (), c))
    (hsocket : ∀ e, .error e ∈ c.conn.arrivals → SocketError e) (hmeets : s₀.Meets c)
    (hearly : Server.sayAll early s₀ = some (.ok (c.conn.unread ++ down), s))
    (hes : Run System.step (.start c s down) es t) :
    t.InSync ∧ ∀ ev ∈ es, (ev.input = .hear → ev.output = .ok .done) ∧
      ∀ e, ev.output = .error e → Excused e ∧ ∀ record l l', RecordLayer.open record l ≠ some (.error e, l') := by
  obtain ⟨hsynced, hevents⟩ := run_synced hopens (start_synced (handshake_keyed hrun h) hsocket hmeets hearly) hes
  refine ⟨hsynced.inSync hopens, fun ev hev => ⟨(hevents ev hev).heard, fun e he => ?_⟩⟩
  have hexcused := (hevents ev hev).error e he
  exact ⟨hexcused, fun record l l' hopen => hexcused.not_open (open_failsAs record l e l' hopen)⟩

end

/-! ## A run -/

namespace Updated

open Resumed (word sized info)

structure SealedRecord where
  key : Bytes
  nonce : Bytes
  inner : Bytes
  sealed : Bytes

/-- Of the header in front only the length differs. -/
def SealedRecord.aad (r : SealedRecord) : Bytes := [23, 3, 3, 0, UInt8.ofNat r.sealed.length]

/-- The flight and the client's Finished; a ticket and a KeyUpdate of the server in two records, and its data
under the next keys; two KeyUpdates of the client. -/
def records : List SealedRecord :=
  [⟨bigEndian 16 0x95451438400a10aae70e54659c6d74eb, bigEndian 12 0x14734e9f7b5d1ee7330affdd,
      Resumed.encryptedExtensions ++ Resumed.newSessionTicket ++ Resumed.serverFinished ++ [22],
      Resumed.sealedFlight⟩,
    ⟨bigEndian 16 0xba741203e7ba96abc23340017d34a12c, bigEndian 12 0x8c73ae4df75f77c7043a5f36,
      Resumed.clientFinished ++ [22], Resumed.sealedFinished⟩,
    ⟨bigEndian 16 0xd708f36ff370cc3fc292dafde38e8aa9, bigEndian 12 0xa5a026e28cd14ee15abd6b98,
      Resumed.newSessionTicket ++ [24, 0, 22],
      bigEndian 37 0xdb1393b7bc6697f9ce43bf2de8606ae16b23a56c96d2b06b7e6a5ac227e522272006a88b51⟩,
    ⟨bigEndian 16 0xd708f36ff370cc3fc292dafde38e8aa9, bigEndian 12 0xa5a026e28cd14ee15abd6b99, [0, 1, 1, 22],
      bigEndian 20 0xd188268e2926d0cad80a45d6f219cac455281467⟩,
    ⟨bigEndian 16 0xfbb69bd7af61a3cfe0e0fb122ab23bb6, bigEndian 12 0x5c3defadb62cbcf71922c808, [104, 105, 23],
      bigEndian 19 0x20bdcbc819617ad1da51756c8d0fc710fd1aac⟩,
    ⟨bigEndian 16 0x43f62f5f5c2cb122a33c439b3a32ea8f, bigEndian 12 0xbe72e583ea419500592880c5, [24, 0, 0, 1, 0, 22],
      bigEndian 22 0x3666c5107aac1160e249ed5bdee7f41bff72f97420ad⟩,
    ⟨bigEndian 16 0x09da291aa6d857d00f44df2162d94f72, bigEndian 12 0xddded0eb45e94c0d8b34c054, [24, 0, 0, 1, 0, 22],
      bigEndian 22 0xa9a01a2a85f6540ee0da5930ce73621044e300d0df93⟩]

/-- The next generations: a secret, the one after it, and what its key and its IV are cut from. -/
def hmacs : List (Bytes × Bytes × Bytes) :=
  Resumed.hmacs ++
  [(word 0xdce2dd20f862300235094b6d88dd65fb675329a48a3c926374898bf8a4a2a7f1,
      word 0x0eb127130ba985dc277c8048168857b6f746a2cbf3d5d3e38fefd292b9c4a8a0,
      word 0x09da291aa6d857d00f44df2162d94f721d34929a2c42881b09de53c2221b16c1,
      word 0xddded0eb45e94c0d8b34c05406fb9d7c737264a87e6ef32ec73c794e1ed2b8f3),
    (word 0x0eb127130ba985dc277c8048168857b6f746a2cbf3d5d3e38fefd292b9c4a8a0,
      word 0x51a2c617eb2acf999cc7ff6b3dd31f3c8886a11ee3642fa1219142aa63458d5a,
      word 0x878c6946b2d3efa2c7bea868517e3446093addb3b38c1c2100be5c56d6a6d9e7,
      word 0xec5936392bdaca1326ee8786cc3ae54e2eefd7d8516408dc2f8db462c33bf340),
    (word 0x8bfffb9fdd2557bcf428a627d58f19fc92ac35c3f6a71a85f307a8b4291fc8f3,
      word 0xa96ae16c4e44c201ea5495751d0fc540eb02313569f228a617939ee79220f54f,
      word 0xfbb69bd7af61a3cfe0e0fb122ab23bb66ecbc849fa116842a2103b4a13c96ac2,
      word 0x5c3defadb62cbcf71922c80836b1837cdf35ad4dfed4d064de9a6ffc9a08b4a6)].flatMap fun k =>
    [(k.1, info "traffic upd" [] 32, k.2.1), (k.2.1, info "key" [] 16, k.2.2.1),
      (k.2.1, info "iv" [] 12, k.2.2.2)]

@[reducible] def crates : Crates where
  sha256 data := sized 32 ((Resumed.digests.find? fun e => e.1 = data).elim 0 Prod.snd)
  sha384 _ := sized 48 0
  hmacSha256 key data := sized 32 <|
    (hmacs.find? fun e => e.1 = key ∧ e.2.1 = data).elim 0 fun e => ofBigEndian e.2.2
  hmacSha384 _ _ := sized 48 0
  encrypt _ key nonce aad msg :=
    (records.find? fun r => r.key = key ∧ r.nonce = nonce ∧ r.aad = aad ∧ r.inner = msg).bind fun r =>
      if h : r.sealed.length = msg.length + 16 then some ⟨r.sealed, h⟩ else none
  decrypt _ key nonce aad msg :=
    (records.find? fun r => r.key = key ∧ r.nonce = nonce ∧ r.aad = aad ∧ r.sealed = msg).bind fun r =>
      if h : r.inner.length + 16 = msg.length then some ⟨r.inner, h⟩ else none

theorem opens_sealed : @OpensSealed crates := by
  intro alg key nonce aad msg out h
  obtain ⟨r, hr, h⟩ := Option.bind_eq_some_iff.mp h
  split at h
  · rename_i hlength
    cases h
    have hmem := List.mem_of_find?_eq_some hr
    have hfound := List.find?_some hr
    obtain ⟨rfl, rfl, rfl, rfl⟩ := of_decide_eq_true hfound
    have hopen : ∀ r ∈ records,
        (@Crates.decrypt crates .aes128Gcm r.key r.nonce r.aad r.sealed).map Subtype.val = some r.inner := by
      decide +kernel
    obtain ⟨p, hp, hinner⟩ := Option.map_eq_some_iff.mp (hopen r hmem)
    exact ⟨p, hp, hinner⟩
  · cases h

def server (c : Client) : Server where
  layer := ⟨c.schedule.bind KeySchedule.serverApplication, 0, c.schedule.bind KeySchedule.clientApplication, 0,
    legacyVersionTls12⟩
  begun := []
  heard := []
  sentApp := c.pendingApp ++ c.conn.appBuf.flatten
  sentTickets := c.tickets

/-- The client updates its keys while a KeyUpdate that asks for one is on its way to it. -/
def moves : List Move :=
  [.say 0 (.handshake (Resumed.newSessionTicket ++ [24, 0])), .say 0 (.handshake [0, 1, 1]),
    .call (.sendKeyUpdate .notRequested), .say 0 (.appData [104, 105]), .deliver 60, .deliver 60,
    .call (.readAppData [4, 4, 4]), .hear, .hear]

def runs (c : Client) : Bool :=
  c.conn.hsBuf.isEmpty && c.conn.inbuf.isEmpty && c.conn.arrivals.isEmpty &&
    (exec (@System.step crates) (.start c (server c) []) moves []).elim false fun r =>
      decide (r.2.returned = [104, 105] ∧ r.2.client.tickets.length = 2 ∧ r.2.up = [])

end Updated

theorem updates_in_step_resumed : ∃ c t es,
    @Client.handshake Updated.crates Resumed.curves Resumed.signatures Resumed.client = some (.ok (), c) ∧
    Run (@System.step Updated.crates) (.start c (Updated.server c) []) es t ∧
    t.returned = [104, 105] ∧ t.client.tickets.length = 2 ∧ t.up = [] ∧
    (@System.InSync Updated.crates t ∧ ∀ ev ∈ es, (ev.input = .hear → ev.output = .ok .done) ∧
      ∀ e, ev.output = .error e → Excused e ∧
        ∀ record l l', @RecordLayer.open Updated.crates record l ≠ some (.error e, l')) := by
  have hruns : Action.finishes (@Client.handshake Updated.crates Resumed.curves Resumed.signatures)
      Updated.runs Resumed.client = true := by
    decide +kernel
  obtain ⟨_, c, hrun, hruns⟩ := Action.finishes_iff.mp hruns
  simp only [Updated.runs, Bool.and_eq_true, List.isEmpty_iff] at hruns
  obtain ⟨⟨⟨hbuffer, hin⟩, harrivals⟩, hexec⟩ := hruns
  cases hes : exec (@System.step Updated.crates) (.start c (Updated.server c) []) Updated.moves [] with
  | none =>
    rw [hes] at hexec
    cases hexec
  | some r =>
    obtain ⟨es, t⟩ := r
    rw [hes] at hexec
    obtain ⟨hreturned, htickets, hup⟩ := of_decide_eq_true hexec
    have hsteps := run_of_exec _ hes
    have hsocket : ∀ e, .error e ∈ c.conn.arrivals → SocketError e := by
      rw [harrivals]
      exact fun e he => absurd he List.not_mem_nil
    have hunread : c.conn.unread = [] := by
      unfold TlsConn.unread
      rw [hin, harrivals]
      rfl
    have hearly : @Server.sayAll Updated.crates [] (Updated.server c) =
        some (.ok (c.conn.unread ++ []), Updated.server c) := by
      rw [hunread]
      rfl
    exact ⟨c, t, es, hrun, hsteps, hreturned, htickets, hup,
      @updates_in_step Updated.crates Resumed.curves Resumed.signatures Updated.opens_sealed _ _ _ _ _ _ _ _ _ _ _ _
        (@Handshake.plain Updated.crates Resumed.curves Resumed.signatures) hrun hsocket
        ⟨rfl, rfl, rfl, rfl, hbuffer, rfl, rfl, rfl, rfl⟩ hearly hsteps⟩

end BuildYourOwn.Tls
