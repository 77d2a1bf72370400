import BuildYourOwn.Tls.Client

/-!
# What a client reads

`next_handshake` of `tlstest/src/tls/client.rs` takes the handshake messages that come in one after the
other, and keeps what is no message, or a NewSessionTicket, to itself.
-/

namespace BuildYourOwn.Tls

open Lib
open Lib.Action (bind_modify_ok bind_ok fail_ok modify_ok pure_ok)

section variable [Crates]

variable {c c' : Client} {conn conn' : TlsConn} {what : String}

/-! ## One message -/

def Client.SameButRead (c c' : Client) : Prop :=
  c' = { c with
    conn := c'.conn
    tickets := c'.tickets
    serverCcsRecords := c'.serverCcsRecords
    serverCcsBeforeEncrypted := c'.serverCcsBeforeEncrypted
    pendingApp := c'.pendingApp }

omit [Crates] in
theorem Client.SameButRead.refl (c : Client) : c.SameButRead c := rfl

omit [Crates] in
theorem Client.SameButRead.trans {c₁ c₂ c₃ : Client} (h : c₁.SameButRead c₂) (h' : c₂.SameButRead c₃) :
    c₁.SameButRead c₃ := by
  unfold SameButRead at *
  rw [h', h]

/-- The items that are passed over. -/
def Incoming.skipped : Incoming → Bool
  | .changeCipherSpec _ => true
  | .appData _ => true
  | _ => false

/-- What one round of `next_handshake` makes of the next item. -/
theorem nextHandshakeRound_cases {u : Unit} {o : Unit ⊕ HandshakeMessage}
    (h : Client.nextHandshakeRound what u c = some (.ok o, c')) :
    ∃ i conn', TlsConn.nextMessage c.conn = some (.ok i, conn') ∧ c.SameButRead c' ∧ c'.conn = conn' ∧
      ((i.skipped = true ∧ o = .inl ()) ∨
        ∃ m, i = .handshake m ∧
          ((m.msgType = .newSessionTicket ∧ o = .inl ()) ∨ (m.msgType ≠ .newSessionTicket ∧ o = .inr m))) := by
  unfold Client.nextHandshakeRound at h
  obtain ⟨i, t, hpart, h⟩ := bind_ok.mp h
  obtain ⟨conn', hnext, rfl⟩ := Action.onPart_ok.mp hpart
  refine ⟨i, conn', hnext, ?_⟩
  cases i with
  | handshake m =>
    dsimp only at h
    split at h
    · rename_i hticket
      obtain ⟨ticket, -, h⟩ := Action.bind_lift_ok.mp h
      replace h := bind_modify_ok.mp h
      obtain ⟨rfl, rfl⟩ := pure_ok.mp h
      exact ⟨rfl, rfl, Or.inr ⟨m, rfl, Or.inl ⟨hticket, rfl⟩⟩⟩
    · rename_i hticket
      obtain ⟨rfl, rfl⟩ := pure_ok.mp h
      exact ⟨rfl, rfl, Or.inr ⟨m, rfl, Or.inr ⟨hticket, rfl⟩⟩⟩
  | changeCipherSpec r =>
    replace h := bind_modify_ok.mp h
    obtain ⟨rfl, rfl⟩ := pure_ok.mp h
    exact ⟨rfl, rfl, Or.inl ⟨rfl, rfl⟩⟩
  | appData d =>
    replace h := bind_modify_ok.mp h
    obtain ⟨rfl, rfl⟩ := pure_ok.mp h
    exact ⟨rfl, rfl, Or.inl ⟨rfl, rfl⟩⟩
  | alert a => exact (fail_ok.mp h).elim
  | unexpected r => exact (fail_ok.mp h).elim

theorem nextHandshake_runs {r : Except TlsError HandshakeMessage} :
    Client.nextHandshake what c = some (r, c') ↔ Action.Repeats (Client.nextHandshakeRound what) () c r c' :=
  Action.forever_some fun _ t _ t' hround => by
    obtain ⟨i, conn', hnext, -, hconn, -⟩ := nextHandshakeRound_cases hround
    rw [hconn]
    exact (TlsConn.nextMessage_ok hnext).fewer

/-! ## The messages that crossed, without the tickets -/

def isTicket (m : Direction × Bytes) : Bool :=
  m.1 = .received && m.2.head? = some HandshakeType.newSessionTicket.code

def crossed (messages : List (Direction × Bytes)) : List (Direction × Bytes) :=
  messages.filter fun m => !isTicket m

omit [Crates] in
theorem crossed_append (a b : List (Direction × Bytes)) :
    crossed (a ++ b) = crossed a ++ crossed b := List.filter_append ..

variable {m : HandshakeMessage}

omit [Crates] in
theorem isTicket_raw (hraw : m.raw = encodeHandshake m.msgType m.body) :
    isTicket (.received, m.raw) = decide (m.msgType = .newSessionTicket) := by
  unfold isTicket
  rw [hraw]
  obtain ⟨code⟩ := m.msgType
  simp [encodeHandshake, HandshakeType.newSessionTicket]

omit [Crates] in
theorem crossed_of_took {i : Incoming} (h : TlsConn.Took conn i conn')
    (hi : i.skipped = true ∨ ∃ m, i = .handshake m ∧ m.msgType = .newSessionTicket) :
    crossed conn'.messages = crossed conn.messages := by
  rw [h.messages, crossed_append]
  obtain hskip | ⟨m, rfl, hticket⟩ := hi
  · cases i with
    | changeCipherSpec r => exact List.append_nil _
    | appData d => exact List.append_nil _
    | _ => cases hskip
  · have hout : isTicket (.received, m.raw) = true := by
      rw [isTicket_raw (h.whole m rfl)]
      exact decide_eq_true hticket
    unfold Incoming.crossed crossed
    rw [List.filter_cons, hout, List.filter_nil]
    exact List.append_nil _

theorem nextHandshake_ok (h : Client.nextHandshake what c = some (.ok m, c')) :
    c.SameButRead c' ∧ m.msgType ≠ .newSessionTicket ∧ m.raw = encodeHandshake m.msgType m.body ∧
      crossed c'.conn.messages = crossed c.conn.messages ++ [(.received, m.raw)] ∧
      (c.conn.Framed → c'.conn.Framed) ∧ c'.conn.pending < c.conn.pending := by
  obtain ⟨_, t, ⟨hsame, hcrossed, hframed, hpending⟩, hlast⟩ :=
    (nextHandshake_runs.mp h).invariant
      (fun _ t => c.SameButRead t ∧ crossed t.conn.messages = crossed c.conn.messages ∧
        (c.conn.Framed → t.conn.Framed) ∧ t.conn.pending ≤ c.conn.pending)
      (fun _ t _ t' ht hround => by
        obtain ⟨i, conn', hnext, hsame, rfl, hcase⟩ := nextHandshakeRound_cases hround
        have htook := TlsConn.nextMessage_ok hnext
        have hfewer := htook.fewer
        refine ⟨ht.1.trans hsame, (crossed_of_took htook ?_).trans ht.2.1,
          fun hf => htook.framed (ht.2.2.1 hf), by omega⟩
        rcases hcase with ⟨hskip, -⟩ | ⟨m', rfl, ⟨hticket, -⟩ | ⟨-, ho⟩⟩
        · exact Or.inl hskip
        · exact Or.inr ⟨m', rfl, hticket⟩
        · cases ho) ⟨.refl c, rfl, id, Nat.le_refl _⟩
  obtain ⟨i, conn', hnext, hsame', rfl, hcase⟩ := nextHandshakeRound_cases hlast
  have htook := TlsConn.nextMessage_ok hnext
  have hfewer := htook.fewer
  rcases hcase with ⟨-, ho⟩ | ⟨m', rfl, ⟨-, ho⟩ | ⟨hno, ho⟩⟩
  · cases ho
  · cases ho
  · cases ho
    refine ⟨hsame.trans hsame', hno, htook.whole m rfl, ?_, fun hf => htook.framed (hframed hf),
      by omega⟩
    have hin : isTicket (.received, m.raw) = false := by
      rw [isTicket_raw (htook.whole m rfl)]
      exact decide_eq_false hno
    rw [htook.messages, crossed_append, hcrossed]
    unfold Incoming.crossed crossed
    rw [List.filter_cons, hin, List.filter_nil]
    rfl

/-! ## All messages that come in -/

/-- The next item and what follows it, up to the first Finished. -/
def receivedStep (rest : TlsConn → List HandshakeMessage) (conn : TlsConn) : List HandshakeMessage :=
  match TlsConn.nextMessage conn with
  | some (.ok (.handshake m), conn') => if m.msgType = .finished then [m] else m :: rest conn'
  | some (.ok (.changeCipherSpec _), conn') => rest conn'
  | some (.ok (.appData _), conn') => rest conn'
  | _ => []

def receivedFrom : Nat → TlsConn → List HandshakeMessage
  | 0, _ => []
  | n + 1, conn => receivedStep (receivedFrom n) conn

def received (conn : TlsConn) : List HandshakeMessage := receivedFrom (conn.pending + 1) conn

theorem receivedStep_congr {f g : TlsConn → List HandshakeMessage}
    (h : ∀ conn', conn'.pending < conn.pending → f conn' = g conn') : receivedStep f conn = receivedStep g conn := by
  unfold receivedStep
  cases hnext : TlsConn.nextMessage conn with
  | none => rfl
  | some r =>
    obtain ⟨r, conn'⟩ := r
    cases r with
    | error e => rfl
    | ok i =>
      have hsame := h conn' (TlsConn.nextMessage_ok hnext).fewer
      cases i with
      | handshake m => simp only [hsame]
      | changeCipherSpec r => exact hsame
      | appData d => exact hsame
      | alert a => rfl
      | unexpected r => rfl

theorem receivedFrom_eq {n m : Nat} (hn : conn.pending < n) (hm : conn.pending < m) :
    receivedFrom n conn = receivedFrom m conn := by
  induction n generalizing m conn with
  | zero => exact absurd hn (Nat.not_lt_zero _)
  | succ n ih =>
    obtain ⟨m, rfl⟩ : ∃ k, m = k + 1 := ⟨m - 1, by omega⟩
    exact receivedStep_congr fun conn' hless => ih (by omega) (by omega)

/-- **The messages, one item at a time.** -/
theorem received_eq (conn : TlsConn) : received conn = receivedStep received conn :=
  receivedStep_congr fun _ hless => receivedFrom_eq hless (Nat.lt_succ_self _)

def ticketless (ms : List HandshakeMessage) : List HandshakeMessage :=
  ms.filter fun m => m.msgType ≠ .newSessionTicket

def TicketsParse (ms : List HandshakeMessage) : Prop :=
  ∀ m ∈ ms, m.msgType = .newSessionTicket → ∃ ticket, NewSessionTicket.parse m.body = .ok ticket

theorem nextHandshakeRound_skip {i : Incoming} (hnext : TlsConn.nextMessage c.conn = some (.ok i, conn'))
    (hskip : i.skipped = true) :
    ∃ c', Client.nextHandshakeRound what () c = some (.ok (.inl ()), c') ∧ c'.conn = conn' := by
  have hpart : Client.onConn TlsConn.nextMessage c = some (.ok i, { c with conn := conn' }) :=
    Action.onPart_ok.mpr ⟨conn', hnext, rfl⟩
  unfold Client.nextHandshakeRound
  cases i with
  | changeCipherSpec r =>
    exact ⟨_, bind_ok.mpr ⟨_, _, hpart, bind_ok.mpr
      ⟨(), _, modify_ok.mpr rfl, pure_ok.mpr ⟨rfl, rfl⟩⟩⟩, rfl⟩
  | appData d =>
    exact ⟨_, bind_ok.mpr ⟨_, _, hpart, bind_ok.mpr
      ⟨(), _, modify_ok.mpr rfl, pure_ok.mpr ⟨rfl, rfl⟩⟩⟩, rfl⟩
  | _ => cases hskip

theorem nextHandshakeRound_ticket {ticket : NewSessionTicket}
    (hnext : TlsConn.nextMessage c.conn = some (.ok (.handshake m), conn'))
    (hm : m.msgType = .newSessionTicket) (hparse : NewSessionTicket.parse m.body = .ok ticket) :
    ∃ c', Client.nextHandshakeRound what () c = some (.ok (.inl ()), c') ∧ c'.conn = conn' := by
  have hpart : Client.onConn TlsConn.nextMessage c =
      some (.ok (.handshake m), { c with conn := conn' }) := Action.onPart_ok.mpr ⟨conn', hnext, rfl⟩
  refine ⟨{ c with conn := conn', tickets := c.tickets ++ [ticket] },
    bind_ok.mpr ⟨_, _, hpart, ?_⟩, rfl⟩
  dsimp only
  rw [if_pos hm]
  exact bind_ok.mpr ⟨ticket, _, Action.lift_ok.mpr ⟨hparse, rfl⟩, bind_ok.mpr
    ⟨(), _, modify_ok.mpr rfl, pure_ok.mpr ⟨rfl, rfl⟩⟩⟩

theorem nextHandshakeRound_message (what : String)
    (hnext : TlsConn.nextMessage c.conn = some (.ok (.handshake m), conn')) (hm : m.msgType ≠ .newSessionTicket) :
    ∃ c', Client.nextHandshakeRound what () c = some (.ok (.inr m), c') ∧ c'.conn = conn' := by
  have hpart : Client.onConn TlsConn.nextMessage c =
      some (.ok (.handshake m), { c with conn := conn' }) := Action.onPart_ok.mpr ⟨conn', hnext, rfl⟩
  refine ⟨{ c with conn := conn' }, bind_ok.mpr ⟨_, _, hpart, ?_⟩, rfl⟩
  dsimp only
  rw [if_neg hm]
  exact pure_ok.mpr ⟨rfl, rfl⟩

def TakesFirst (what : String) (c : Client) : List HandshakeMessage → Prop
  | [] => ∀ m c', Client.nextHandshake what c ≠ some (.ok m, c')
  | m :: ms => ∃ c', Client.nextHandshake what c = some (.ok m, c') ∧
      (m.msgType = .finished → ms = []) ∧
      (m.msgType ≠ .finished → ticketless (received c'.conn) = ms ∧
        ∀ m' ∈ received c'.conn, m' ∈ received c.conn)

theorem TakesFirst.again {t : Client} {ms : List HandshakeMessage}
    (hround : Client.nextHandshakeRound what () c = some (.ok (.inl ()), t))
    (hsub : ∀ m ∈ received t.conn, m ∈ received c.conn) (h : TakesFirst what t ms) : TakesFirst what c ms := by
  have hruns : ∀ r c', Client.nextHandshake what c = some (r, c') ↔
      Client.nextHandshake what t = some (r, c') := by
    intro r c'
    rw [nextHandshake_runs, nextHandshake_runs]
    refine ⟨fun hrep => ?_, fun hrep => .again hround hrep⟩
    cases hrep with
    | done hbody => exact absurd (hbody.symm.trans hround) (by simp)
    | failed hbody => exact absurd (hbody.symm.trans hround) (by simp)
    | again hbody hrest =>
      obtain rfl : _ = t := by simpa using hbody.symm.trans hround
      exact hrest
  cases ms with
  | nil => exact fun m c' hm => h m c' ((hruns _ _).mp hm)
  | cons m ms =>
    obtain ⟨c', hnext, hlast, hrest⟩ := h
    refine ⟨c', (hruns _ _).mpr hnext, hlast, fun hm => ?_⟩
    exact ⟨(hrest hm).1, fun m' hm' => hsub m' ((hrest hm).2 m' hm')⟩

/-- **Reading a message is taking the first of those that come in**, tickets left out. -/
theorem nextHandshake_received (what : String) (c : Client) (hparse : TicketsParse (received c.conn)) :
    TakesFirst what c (ticketless (received c.conn)) := by
  induction hn : c.conn.pending using Nat.strongRecOn generalizing c with
  | ind n ih =>
    have hnone (hno : ∀ i conn', TlsConn.nextMessage c.conn = some (.ok i, conn') →
        i.skipped = false ∧ ∀ m, i ≠ .handshake m) : TakesFirst what c [] := by
      intro m c' hm
      have hbad : ∀ o t, Client.nextHandshakeRound what () c ≠ some (.ok o, t) := by
        intro o t hround
        obtain ⟨i, conn', hnext, -, -, ⟨hskip, -⟩ | ⟨m', rfl, -⟩⟩ := nextHandshakeRound_cases hround
        · exact absurd ((hno i conn' hnext).1.symm.trans hskip) (by simp)
        · exact (hno _ conn' hnext).2 m' rfl
      cases nextHandshake_runs.mp hm with
      | done hbody => exact hbad _ _ hbody
      | again hbody _ => exact hbad _ _ hbody
    have hreceived := received_eq c.conn
    unfold receivedStep at hreceived
    cases hnext : TlsConn.nextMessage c.conn with
    | none =>
      rw [hnext] at hreceived
      rw [hreceived]
      exact hnone fun i conn' h => absurd (hnext.symm.trans h) (by simp)
    | some r =>
      obtain ⟨r, conn'⟩ := r
      cases r with
      | error e =>
        rw [hnext] at hreceived
        rw [hreceived]
        exact hnone fun i conn'' h => absurd (hnext.symm.trans h) (by simp)
      | ok i =>
        have hfewer := (TlsConn.nextMessage_ok hnext).fewer
        rw [hnext] at hreceived
        -- an item that is passed over, or a ticket
        have hagain (ms : List HandshakeMessage) (hms : received c.conn = ms ++ received conn')
            (htickets : ticketless ms = [])
            (hround : ∃ t, Client.nextHandshakeRound what () c = some (.ok (.inl ()), t) ∧
              t.conn = conn') : TakesFirst what c (ticketless (received c.conn)) := by
          obtain ⟨t, hround, rfl⟩ := hround
          have hsub : ∀ m ∈ received t.conn, m ∈ received c.conn := fun m hm =>
            hms ▸ List.mem_append_right ms hm
          have hrest := ih _ (hn ▸ hfewer) t (fun m hm => hparse m (hsub m hm)) rfl
          have hsplit : ticketless (received c.conn) = ticketless (received t.conn) := by
            rw [hms]
            unfold ticketless at *
            rw [List.filter_append, htickets, List.nil_append]
          rw [hsplit]
          exact hrest.again hround hsub
        cases i with
        | changeCipherSpec r =>
          exact hagain [] hreceived rfl (nextHandshakeRound_skip hnext rfl)
        | appData d => exact hagain [] hreceived rfl (nextHandshakeRound_skip hnext rfl)
        | alert a =>
          rw [hreceived]
          refine hnone fun i' t h => ?_
          obtain ⟨rfl, -⟩ : _ = i' ∧ _ := by simpa using hnext.symm.trans h
          exact ⟨rfl, fun m hm => by cases hm⟩
        | unexpected r =>
          rw [hreceived]
          refine hnone fun i' t h => ?_
          obtain ⟨rfl, -⟩ : _ = i' ∧ _ := by simpa using hnext.symm.trans h
          exact ⟨rfl, fun m hm => by cases hm⟩
        | handshake m =>
          dsimp only at hreceived
          by_cases hticket : m.msgType = .newSessionTicket
          · have hnot : m.msgType ≠ .finished := by rw [hticket]; decide
            rw [if_neg hnot] at hreceived
            obtain ⟨ticket, hticketed⟩ := hparse m (hreceived ▸ List.mem_cons_self) hticket
            refine hagain [m] hreceived ?_ (nextHandshakeRound_ticket hnext hticket hticketed)
            unfold ticketless
            simp [hticket]
          · obtain ⟨t, hround, rfl⟩ := nextHandshakeRound_message what hnext hticket
            have hgives := nextHandshake_runs.mpr (.done hround)
            by_cases hlast : m.msgType = .finished
            · rw [if_pos hlast] at hreceived
              rw [hreceived]
              unfold ticketless
              rw [List.filter_cons_of_pos (by simpa using hticket), List.filter_nil]
              exact ⟨t, hgives, fun _ => rfl, fun h => absurd hlast h⟩
            · rw [if_neg hlast] at hreceived
              rw [hreceived]
              unfold ticketless
              rw [List.filter_cons_of_pos (by simpa using hticket)]
              refine ⟨t, hgives, fun h => absurd h hlast, fun _ => ⟨rfl, fun m' hm' => ?_⟩⟩
              rw [hreceived]
              exact List.mem_cons_of_mem m hm'

end

end BuildYourOwn.Tls
