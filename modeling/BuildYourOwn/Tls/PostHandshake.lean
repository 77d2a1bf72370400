import BuildYourOwn.Lib.Run
import BuildYourOwn.Tls.Client

/-!
# The TLS client: after the handshake

Model of what follows the handshake in `tlstest/src/tls/client.rs`, tickets, KeyUpdates and application data,
with `next_message_within` of `conn.rs`, which has a deadline.

Of the clock only this is kept. A wait for the next message has a `left`: how many records it reads until its
deadline has passed; a read that the deadline cuts short is an arrival that is an error, as in the handshake. A
loop over messages has a list of them, one a round, and after the last its own deadline has passed.
-/

namespace BuildYourOwn.Tls

open Lib

def KeyUpdate.notRequested : KeyUpdate := ⟨0⟩

namespace TlsConn

/-- What `next_message_within` has before it reads: a message that is whole, or application data. -/
def buffered : Action TlsConn TlsError (Option Incoming) := do
  match ← popHandshake with
  | some message => pure (some (.handshake message))
  | none => do
    let c ← Action.get
    match c.appBuf with
    | data :: rest => do
      Action.modify fun c => { c with appBuf := rest }
      pure (some (.appData data))
    | [] => pure none

section variable [Crates]

def nextMessageWithin : Nat → Action TlsConn TlsError Incoming
  | 0 => do
    match ← buffered with
    | some item => pure item
    | none => Action.fail (.timeout "the next TLS message")
  | left + 1 => do
    match ← buffered with
    | some item => pure item
    | none => do
      let record ← readRecord
      match ← takeRecord record with
      | .inl () => nextMessageWithin left
      | .inr item => pure item

def writeRecord (contentType : ContentType) (content : Bytes) : Action TlsConn TlsError Unit := do
  let bytes ← onLayer (RecordLayer.seal contentType content 0)
  writeAll bytes

def writeAppData (data : Bytes) : Action TlsConn TlsError Unit := writeRecord .applicationData data

end

end TlsConn

namespace Client

section variable [Crates]

def writeAppData (data : Bytes) : Action Client TlsError Unit := onConn (TlsConn.writeAppData data)

/-- `rekey_read`: the server's next generation. -/
def rekeyRead : Action Client TlsError Unit := do
  let c ← Action.get
  let schedule ← Action.demand c.schedule (.crypto "no key schedule")
  let current ← Action.demand schedule.serverApplication (.crypto "no server application keys")
  let keys ← Action.lift current.updated
  Action.modify fun c =>
    { c with schedule := some { schedule with serverApplication := some keys }
             conn := { c.conn with layer := c.conn.layer.setRead keys } }

/-- `rekey_write`: the client's next generation. -/
def rekeyWrite : Action Client TlsError Unit := do
  let c ← Action.get
  let schedule ← Action.demand c.schedule (.crypto "no key schedule")
  let current ← Action.demand schedule.clientApplication (.crypto "no client application keys")
  let keys ← Action.lift current.updated
  Action.modify fun c =>
    { c with schedule := some { schedule with clientApplication := some keys }
             conn := { c.conn with layer := c.conn.layer.setWrite keys } }

def sendKeyUpdate (update : KeyUpdate) : Action Client TlsError Unit := do
  onConn (TlsConn.writeHandshake update.encode)
  rekeyWrite

/-- `post_handshake`: a ticket, or a KeyUpdate that may have to be answered. -/
def postHandshake (m : HandshakeMessage) : Action Client TlsError Unit :=
  if m.msgType = .newSessionTicket then do
    let ticket ← Action.lift (NewSessionTicket.parse m.body)
    Action.modify fun c => { c with tickets := c.tickets ++ [ticket] }
  else if m.msgType = .keyUpdate then do
    let update ← Action.lift (KeyUpdate.parse m.body)
    rekeyRead
    if update.requestUpdate = 1 then sendKeyUpdate .notRequested else pure ()
  else Action.fail
    (.protocol s!"{m.msgType.name} is not a post-handshake message a TLS 1.3 server may send")

/-- The loop of `read_app_data`. -/
def readAppDataLoop : List Nat → Action Client TlsError Bytes
  | [] => Action.fail (.timeout "application data from the server")
  | left :: lefts => do
    match ← onConn (TlsConn.nextMessageWithin left) with
    | .appData d => if d ≠ [] then pure d else readAppDataLoop lefts
    | .handshake m => do
      postHandshake m
      readAppDataLoop lefts
    | .changeCipherSpec _ => do
      Action.modify fun c => { c with serverCcsRecords := c.serverCcsRecords + 1 }
      readAppDataLoop lefts
    | .alert a => Action.fail (.alert a.level a.description)
    | .unexpected r =>
      Action.fail (.protocol
        s!"a {r.contentType.name} record arrived where application data was expected")

def readAppData (lefts : List Nat) : Action Client TlsError Bytes := do
  let c ← Action.get
  if c.pendingApp ≠ [] then do
    Action.modify fun c => { c with pendingApp := [] }
    pure c.pendingApp
  else readAppDataLoop lefts

/-- The loop of `collect_tickets`, which had so many tickets before. -/
def collectTicketsLoop (before : Nat) : List Nat → Action Client TlsError Nat
  | [] => do
    let c ← Action.get
    pure (c.tickets.length - before)
  | left :: lefts => do
    match ← Action.attempt (onConn (TlsConn.nextMessageWithin left)) with
    | .ok (.handshake m) => do
      postHandshake m
      collectTicketsLoop before lefts
    | .ok (.changeCipherSpec _) => do
      Action.modify fun c => { c with serverCcsRecords := c.serverCcsRecords + 1 }
      collectTicketsLoop before lefts
    | .ok (.appData d) => do
      Action.modify fun c => { c with pendingApp := c.pendingApp ++ d }
      collectTicketsLoop before lefts
    | .ok (.alert a) => Action.fail (.alert a.level a.description)
    | .ok (.unexpected _) => collectTicketsLoop before lefts
    | .error (.timeout _) => do
      let c ← Action.get
      pure (c.tickets.length - before)
    | .error e => Action.fail e

def collectTickets (lefts : List Nat) : Action Client TlsError Nat := do
  let c ← Action.get
  collectTicketsLoop c.tickets.length lefts

end

end Client

end BuildYourOwn.Tls

/-!
## A client and a server after the handshake

A server with a `RecordLayer` of its own, the client of `PostHandshake`, and the bytes between them.

* The server says application data and handshake bytes, a record at a time. A record may hold several messages
  or a part of one. The messages are tickets and KeyUpdates; after the record in which a KeyUpdate ends its write
  side is rekeyed. Of what it hears a KeyUpdate rekeys its read side.
* The network delivers the bytes to the client's socket in any pieces, and a read of the socket may fail. What a
  call of the client will read has been delivered before it: the two sides of the server's layer have nothing to
  do with each other, so it does not matter whether the server hears an answer before or after it goes on.
* Once a write of the client has failed, nothing that it writes arrives.
-/

namespace BuildYourOwn.Tls

open Lib

/-- The messages at the front, at most so many, and what is behind them. -/
def takeMessages : Nat → Bytes → List HandshakeMessage × Bytes
  | 0, bytes => ([], bytes)
  | n + 1, bytes =>
    match HandshakeMessage.parse bytes with
    | .error _ => ([], bytes)
    | .ok (m, used) =>
      let (ms, rest) := takeMessages n (bytes.drop used)
      (m :: ms, rest)

def messagesIn (bytes : Bytes) : List HandshakeMessage × Bytes := takeMessages bytes.length bytes

/-! ## The server -/

inductive Saying where
  | appData (data : Bytes)
  | handshake (fragment : Bytes)

/-- `begun` and `heard` are the bytes of handshake messages that are not whole yet, sent and received. -/
structure Server where
  layer : RecordLayer
  begun : Bytes
  heard : Bytes
  sentApp : Bytes
  sentTickets : List NewSessionTicket

namespace Server

def onLayer {α : Type} (x : Action RecordLayer TlsError α) : Action Server TlsError α :=
  Action.onPart layer (fun layer s => { s with layer := layer }) x

section variable [Crates]

def rekeyWrite : Action Server TlsError Unit := do
  let s ← Action.get
  let current ← Action.demand s.layer.write (.crypto "no write keys")
  let keys ← Action.lift current.updated
  Action.modify fun s => { s with layer := s.layer.setWrite keys }

def rekeyRead : Action Server TlsError Unit := do
  let s ← Action.get
  let current ← Action.demand s.layer.read (.crypto "no read keys")
  let keys ← Action.lift current.updated
  Action.modify fun s => { s with layer := s.layer.setRead keys }

def said (m : HandshakeMessage) : Action Server TlsError Unit :=
  if m.msgType = .newSessionTicket then do
    let ticket ← Action.lift (NewSessionTicket.parse m.body)
    Action.modify fun s => { s with sentTickets := s.sentTickets ++ [ticket] }
  else if m.msgType = .keyUpdate then do
    let _ ← Action.lift (KeyUpdate.parse m.body)
    rekeyWrite
  else Action.fail (.protocol "not a post-handshake message")

def saidAll : List HandshakeMessage → Action Server TlsError Unit
  | [] => pure ()
  | m :: ms => do
    said m
    saidAll ms

def say (padding : Nat) : Saying → Action Server TlsError Bytes
  | .appData data => do
    let bytes ← onLayer (RecordLayer.seal .applicationData data padding)
    Action.modify fun s => { s with sentApp := s.sentApp ++ data }
    pure bytes
  | .handshake fragment => do
    let bytes ← onLayer (RecordLayer.seal .handshake fragment padding)
    let s ← Action.get
    let (ms, begun) := messagesIn (s.begun ++ fragment)
    Action.modify fun s => { s with begun := begun }
    saidAll ms
    pure bytes

def sayAll : List (Nat × Saying) → Action Server TlsError Bytes
  | [] => pure []
  | (padding, saying) :: rest => do
    let bytes ← say padding saying
    let more ← sayAll rest
    pure (bytes ++ more)

def heardAll : List HandshakeMessage → Action Server TlsError Unit
  | [] => pure ()
  | m :: ms => do
    Action.require (m.msgType = .keyUpdate) (.protocol "not a message of a client")
    let _ ← Action.lift (KeyUpdate.parse m.body)
    rekeyRead
    heardAll ms

def hear (record : Record) : Action Server TlsError Unit := do
  let inner ← onLayer (RecordLayer.open record)
  match inner.contentType with
  | .applicationData => pure ()
  | .handshake => do
    let s ← Action.get
    let (ms, heard) := messagesIn (s.heard ++ inner.content)
    Action.modify fun s => { s with heard := heard }
    heardAll ms
  | _ => Action.fail (.protocol "not a record of a client")

end

end Server

/-! ## The client's calls -/

inductive ClientCall where
  | readAppData (lefts : List Nat)
  | collectTickets (lefts : List Nat)
  | writeAppData (data : Bytes)
  | sendKeyUpdate (update : KeyUpdate)

inductive Reply where
  | data (d : Bytes)
  | count (n : Nat)
  | done

def Reply.returned : Except TlsError Reply → Bytes
  | .ok (.data d) => d
  | _ => []

def Client.reply [Crates] : ClientCall → Action Client TlsError Reply
  | .readAppData lefts => do pure (.data (← Client.readAppData lefts))
  | .collectTickets lefts => do pure (.count (← Client.collectTickets lefts))
  | .writeAppData data => do
    Client.writeAppData data
    pure .done
  | .sendKeyUpdate update => do
    Client.sendKeyUpdate update
    pure .done

/-! ## The two of them -/

/-- `down` is on its way to the client's socket and `up` to the server; `returned` is the application data that
calls of the client gave back. -/
structure System where
  client : Client
  server : Server
  down : Bytes
  up : Bytes
  broken : Bool
  returned : Bytes

inductive Move where
  | say (padding : Nat) (saying : Saying)
  | hear
  | deliver (n : Nat)
  | late
  | fault (text : String)
  | call (c : ClientCall)

namespace System

/-- `c` finished its handshake, and `down` is on its way to it then. -/
def start (c : Client) (s : Server) (down : Bytes) : System := ⟨c, s, down, [], false, []⟩

/-- Whether a write failed in between. -/
def refused (c c' : TlsConn) : Bool :=
  (c.refusals.take (c.refusals.length - c'.refusals.length)).any Option.isSome

def arrive (t : System) (arrival : Except TlsError Bytes) (rest : Bytes) : System :=
  { t with down := rest
           client := { t.client with conn := { t.client.conn with
             arrivals := t.client.conn.arrivals ++ [arrival] } } }

variable [Crates]

def step (t : System) : Move → Option (System × Except TlsError Reply)
  | .say padding saying =>
    match t.server.say padding saying with
    | some (.ok bytes, server) => some ({ t with server := server, down := t.down ++ bytes }, .ok .done)
    | _ => none
  | .hear =>
    match Record.parse t.up with
    | .error _ => none
    | .ok (record, used) =>
      (Server.hear record t.server).map fun r =>
        ({ t with server := r.2, up := t.up.drop used }, r.1.map fun _ => .done)
  | .deliver n => some (t.arrive (.ok (t.down.take n)) (t.down.drop n), .ok .done)
  | .late => some (t.arrive (.error (.timeout "a record from the server")) t.down, .ok .done)
  | .fault text => some (t.arrive (.error (.io text)) t.down, .ok .done)
  | .call call =>
    (Client.reply call t.client).map fun r =>
      let conn := r.2.conn
      ({ t with client := r.2
                up := if t.broken then t.up else t.up ++ conn.written.drop t.client.conn.written.length
                broken := t.broken || refused t.client.conn conn
                returned := t.returned ++ Reply.returned r.1 }, r.1)

end System

end BuildYourOwn.Tls
