import Mathlib.Data.List.Infix
import BuildYourOwn.Tls.Framing

/-!
# What was received

Model of the other two reads of `tlstest/src/tls/conn.rs`, `read_silence` and `expect_closed`, and of any calls of
these, `read_record` and `next_message`, one after the other. Every byte that the socket gave is then in a record, was
returned by `expect_closed` or is in `inbuf`, unless `expect_closed` fails with bytes in hand.

* A wait of `expect_closed` has a `left`, as that of `next_message_within` has: how many reads it starts until its
  deadline has passed. A read that the deadline cuts short is one that fails.
* A history is kept beside the connection (`Delivery`): the records, which are the source's `records_in`, and what
  `expect_closed` returned. Without it the calls are those of the source (`ReadCall.logs_run`).

Results: `ReadCall.run_effect`, what one call does with the bytes, and **`nothing_dropped_iff`**, what a run of calls
does, whatever the socket gives.
-/

namespace BuildYourOwn.Tls

open Lib
open Lib.Action (attempt_ok ends_bind ends_get ends_of_some ends_unlogged logs_bind logs_note
  logs_pure logs_unlogged unlogged)

namespace TlsConn

/-- The loop of `expect_closed`; `seen` is what came until now. -/
def expectClosedFrom : Nat → Bytes → Action TlsConn TlsError Bytes
  | 0, seen => do
    Action.modify fun c => { c with inbuf := seen }
    Action.fail (.timeout "the server to close the connection")
  | left + 1, seen => do
    let before ← Action.get
    -- where this fails, the error goes out and `seen` with it
    let more ← fill "the server to close the connection"
    let c ← Action.get
    if more then do
      Action.modify fun c => { c with inbuf := c.inbuf.take before.inbuf.length }
      expectClosedFrom left (seen ++ c.inbuf.drop before.inbuf.length)
    else do
      Action.modify fun c => { c with inbuf := [] }
      pure (seen ++ c.inbuf)

def expectClosed (left : Nat) : Action TlsConn TlsError Bytes := do
  let c ← Action.get
  Action.modify fun c => { c with inbuf := [] }
  expectClosedFrom left c.inbuf

def readSilence : Action TlsConn TlsError Bytes := do
  let c ← Action.get
  Action.modify fun c => { c with arrivals := c.arrivals.tail }
  match c.arrivals.head? with
  | none => pure []
  | some (.error (.timeout _)) => pure []
  | some (.error e) => Action.fail e
  | some (.ok []) => Action.fail .closed
  | some (.ok chunk) => do
    Action.modify fun c => { c with inbuf := c.inbuf ++ chunk }
    pure chunk

end TlsConn

/-! ## Calls, and what they give out -/

inductive Delivery where
  | record (r : Record)
  | closed (seen : Bytes)
deriving DecidableEq

def recordBytes (log : List Delivery) : Bytes :=
  log.flatMap fun
    | .record r => r.raw
    | .closed _ => []

/-- The bytes that `expect_closed` returned. -/
def closedBytes (log : List Delivery) : Bytes :=
  log.flatMap fun
    | .record _ => []
    | .closed seen => seen

/-- An action on a connection that notes what is given out. -/
abbrev Delivering (α : Type) : Type := Action (Logged TlsConn Delivery) TlsError α

namespace Delivering

/-- `read_record`, which pushes the record on `records_in`. -/
def readRecord : Delivering Record := do
  let r ← unlogged TlsConn.readRecord
  Action.note [.record r]
  pure r

def expectClosed (left : Nat) : Delivering Bytes := do
  let seen ← unlogged (TlsConn.expectClosed left)
  Action.note [.closed seen]
  pure seen

def nextMessageWithin [Crates] : Nat → Delivering Incoming
  | 0 => do
    match ← unlogged TlsConn.buffered with
    | some item => pure item
    | none => Action.fail (.timeout "the next TLS message")
  | left + 1 => do
    match ← unlogged TlsConn.buffered with
    | some item => pure item
    | none => do
      let r ← readRecord
      match ← unlogged (TlsConn.takeRecord r) with
      | .inl () => nextMessageWithin left
      | .inr item => pure item

theorem logs_readRecord : Action.Logs readRecord TlsConn.readRecord := by
  refine Action.Logs.congr (logs_bind (logs_unlogged _) fun r => ?_) (Action.bind_pure_eq _)
  exact logs_note (logs_pure r) _

theorem logs_expectClosed (left : Nat) : Action.Logs (expectClosed left) (TlsConn.expectClosed left) := by
  refine Action.Logs.congr (logs_bind (logs_unlogged _) fun seen => ?_) (Action.bind_pure_eq _)
  exact logs_note (logs_pure seen) _

theorem logs_nextMessageWithin [Crates] (left : Nat) :
    Action.Logs (nextMessageWithin left) (TlsConn.nextMessageWithin left) := by
  induction left with
  | zero =>
    refine logs_bind (logs_unlogged _) fun item => ?_
    cases item with
    | some item => exact logs_pure item
    | none => exact Action.logs_lift (.error _)
  | succ left ih =>
    refine logs_bind (logs_unlogged _) fun item => ?_
    cases item with
    | some item => exact logs_pure item
    | none =>
      refine logs_bind logs_readRecord fun r => logs_bind (logs_unlogged _) fun o => ?_
      cases o with
      | inl u => exact ih
      | inr item => exact logs_pure item

end Delivering

inductive ReadCall where
  | readRecord
  | nextMessage (left : Nat)
  | readSilence
  | expectClosed (left : Nat)
deriving DecidableEq

section variable [Crates]

def ReadCall.run : ReadCall → Delivering Unit
  | .readRecord => do
    let _ ← Delivering.readRecord
    pure ()
  | .nextMessage left => do
    let _ ← Delivering.nextMessageWithin left
    pure ()
  | .readSilence => do
    let _ ← unlogged TlsConn.readSilence
    pure ()
  | .expectClosed left => do
    let _ ← Delivering.expectClosed left
    pure ()

def ReadCall.unnoted : ReadCall → Action TlsConn TlsError Unit
  | .readRecord => TlsConn.readRecord >>= fun _ => pure ()
  | .nextMessage left => TlsConn.nextMessageWithin left >>= fun _ => pure ()
  | .readSilence => TlsConn.readSilence >>= fun _ => pure ()
  | .expectClosed left => TlsConn.expectClosed left >>= fun _ => pure ()

theorem ReadCall.logs_run (call : ReadCall) : Action.Logs call.run call.unnoted := by
  cases call with
  | readRecord => exact logs_bind Delivering.logs_readRecord fun _ => logs_pure ()
  | nextMessage left => exact logs_bind (Delivering.logs_nextMessageWithin left) fun _ => logs_pure ()
  | readSilence => exact logs_bind (logs_unlogged _) fun _ => logs_pure ()
  | expectClosed left => exact logs_bind (Delivering.logs_expectClosed left) fun _ => logs_pure ()

def callAll : List ReadCall → Delivering Unit
  | [] => pure ()
  | call :: calls => do
    let _ ← Action.attempt call.run
    callAll calls

end

/-! ## The socket -/

abbrev StaysClosed (reads : List (Except TlsError Bytes)) : Prop :=
  reads.Pairwise fun a b => a = .ok [] → chunkOf b = []

structure Socket where
  reads : List (Except TlsError Bytes)
  closed : StaysClosed reads

def TlsConn.over (conn : TlsConn) (socket : Socket) : TlsConn := { conn with arrivals := socket.reads }

/-- The bytes that were received on the way from `conn` to `conn'`. -/
def bytesReceived (conn conn' : TlsConn) : Bytes :=
  (conn.arrivals.take (conn.arrivals.length - conn'.arrivals.length)).flatMap chunkOf

/-- What the records were, what `expect_closed` returned and what is in the buffer is, in this order, what was there and
what was received. -/
def NothingDropped (conn : TlsConn) (w : Logged TlsConn Delivery) : Prop :=
  recordBytes w.log ++ closedBytes w.log ++ w.state.inbuf = conn.inbuf ++ bytesReceived conn w.state

/-- Before its deadline, and before the peer closes, a read of `expect_closed` fails, and by then there are bytes. -/
def FailsWithBytes (seen : Bytes) (arrivals : List (Except TlsError Bytes)) (left : Nat) : Prop :=
  ∃ n, n < left ∧ Chunks (arrivals.take n) ∧ (∀ chunk, arrivals[n]? ≠ some (.ok chunk)) ∧
    seen ++ (arrivals.take n).flatMap chunkOf ≠ []

def ReadCall.Loses (conn : TlsConn) : ReadCall → Prop
  | .expectClosed left => FailsWithBytes conn.inbuf conn.arrivals left
  | _ => False

/-! ## When a call fails with bytes -/

section fails

variable {seen : Bytes} {rest : List (Except TlsError Bytes)} {left : Nat}

theorem not_fails_zero {arrivals : List (Except TlsError Bytes)} : ¬FailsWithBytes seen arrivals 0 := by
  rintro ⟨n, hn, -⟩
  exact Nat.not_lt_zero n hn

theorem fails_nil : FailsWithBytes seen [] (left + 1) ↔ seen ≠ [] := by
  constructor
  · rintro ⟨n, -, -, -, hseen⟩
    rwa [List.take_nil, List.flatMap_nil, List.append_nil] at hseen
  · intro hseen
    refine ⟨0, Nat.succ_pos left, List.forall_mem_nil _, (fun chunk h => by cases h), ?_⟩
    rwa [List.take_nil, List.flatMap_nil, List.append_nil]

theorem fails_error {e : TlsError} : FailsWithBytes seen (.error e :: rest) (left + 1) ↔ seen ≠ [] := by
  constructor
  · rintro ⟨n, -, hchunks, -, hseen⟩
    cases n with
    | zero => rwa [List.take_zero, List.flatMap_nil, List.append_nil] at hseen
    | succ n =>
      obtain ⟨chunk, he, -⟩ := hchunks (.error e) List.mem_cons_self
      cases he
  · intro hseen
    refine ⟨0, Nat.succ_pos left, List.forall_mem_nil _, (fun chunk h => by cases h), ?_⟩
    rwa [List.take_zero, List.flatMap_nil, List.append_nil]

theorem not_fails_close : ¬FailsWithBytes seen (.ok [] :: rest) left := by
  rintro ⟨n, -, hchunks, hfails, -⟩
  cases n with
  | zero => exact hfails [] rfl
  | succ n =>
    obtain ⟨chunk, hnil, hchunk⟩ := hchunks (.ok []) List.mem_cons_self
    cases hnil
    exact hchunk rfl

theorem fails_chunk {b : UInt8} {chunk : Bytes} :
    FailsWithBytes seen (.ok (b :: chunk) :: rest) (left + 1) ↔ FailsWithBytes (seen ++ (b :: chunk)) rest left := by
  have hhand (n : Nat) : seen ++ ((.ok (b :: chunk) :: rest).take (n + 1)).flatMap chunkOf =
      seen ++ (b :: chunk) ++ (rest.take n).flatMap chunkOf := (List.append_assoc _ _ _).symm
  constructor
  · rintro ⟨n, hn, hchunks, hfails, hseen⟩
    cases n with
    | zero => exact absurd rfl (hfails (b :: chunk))
    | succ n =>
      refine ⟨n, Nat.lt_of_succ_lt_succ hn, fun a ha => hchunks a (List.mem_cons_of_mem _ ha), hfails, ?_⟩
      rwa [hhand n] at hseen
  · rintro ⟨n, hn, hchunks, hfails, hseen⟩
    refine ⟨n + 1, Nat.succ_lt_succ hn, ?_, hfails, ?_⟩
    · exact List.forall_mem_cons.mpr ⟨⟨b :: chunk, rfl, List.cons_ne_nil _ _⟩, hchunks⟩
    · rwa [hhand n]

end fails

/-! ## One call -/

structure Passed (w w' : Logged TlsConn Delivery) : Prop where
  reads : w'.state.arrivals <:+ w.state.arrivals
  given : ∃ r s, recordBytes w'.log = recordBytes w.log ++ r ∧ closedBytes w'.log = closedBytes w.log ++ s ∧
    r ++ s ++ w'.state.unread = w.state.unread ∧ (s = [] ∨ w'.state.unread = [])

variable {w w' : Logged TlsConn Delivery} {conn : TlsConn}

theorem Passed.refl (w : Logged TlsConn Delivery) : Passed w w where
  reads := List.suffix_rfl
  given := ⟨[], [], (List.append_nil _).symm, (List.append_nil _).symm, rfl, .inl rfl⟩

theorem Passed.trans {w₁ w₂ w₃ : Logged TlsConn Delivery} (h : Passed w₁ w₂) (h' : Passed w₂ w₃) : Passed w₁ w₃ := by
  obtain ⟨r, s, hr, hs, hunread, hlast⟩ := h.given
  obtain ⟨r', s', hr', hs', hunread', hlast'⟩ := h'.given
  refine ⟨h'.reads.trans h.reads, r ++ r', s ++ s', ?_, ?_, ?_⟩
  · rw [hr', hr, List.append_assoc]
  · rw [hs', hs, List.append_assoc]
  · rcases hlast with rfl | hnone
    · refine ⟨?_, hlast'⟩
      rw [← hunread, ← hunread']
      simp only [List.append_nil, List.nil_append, List.append_assoc]
    · -- nothing is left, so nothing comes after
      rw [hnone] at hunread'
      obtain ⟨hgiven, hnone'⟩ := List.append_eq_nil_iff.mp hunread'
      obtain ⟨rfl, rfl⟩ := List.append_eq_nil_iff.mp hgiven
      refine ⟨?_, .inr hnone'⟩
      rw [← hunread, hnone, hnone']
      simp only [List.append_nil]

variable {conn' : TlsConn}

theorem passed_of_apart (h : conn'.apart = w.state.apart) : Passed w ⟨conn', w.log⟩ := by
  obtain ⟨-, hsocket⟩ := Prod.mk.inj h
  obtain ⟨hinbuf, harrivals⟩ := Prod.mk.inj hsocket
  refine ⟨harrivals ▸ List.suffix_rfl, [], [], (List.append_nil _).symm, (List.append_nil _).symm, ?_, .inl rfl⟩
  unfold TlsConn.unread
  rw [hinbuf, harrivals]
  rfl

variable {N : Prop}

/-- What `fill` takes from the socket is in the buffer. -/
theorem fill_keeps (what : String) (conn : TlsConn) :
    Action.Ends N (fun o t => t.arrivals <:+ conn.arrivals ∧ t.unread = conn.unread ∧
      (o = .ok true → t.arrivals.length < conn.arrivals.length)) (TlsConn.fill what conn) := by
  obtain ⟨harrivals, hfill⟩ | ⟨e, rest, harrivals, hfill⟩ | ⟨rest, harrivals, hfill⟩ |
    ⟨b, chunk, rest, harrivals, hfill⟩ := TlsConn.fill_cases what conn
  · refine ends_of_some hfill ⟨List.nil_suffix, ?_, fun h => by cases h⟩
    unfold TlsConn.unread
    rw [harrivals]
  · refine ends_of_some hfill ⟨harrivals ▸ List.suffix_cons _ _, ?_, fun h => by cases h⟩
    unfold TlsConn.unread
    rw [harrivals]
    rfl
  · refine ends_of_some hfill ⟨harrivals ▸ List.suffix_cons _ _, ?_, fun h => by cases h⟩
    unfold TlsConn.unread
    rw [harrivals]
    rfl
  · refine ends_of_some hfill ⟨harrivals ▸ List.suffix_cons _ _, ?_, fun _ => ?_⟩
    · unfold TlsConn.unread
      rw [harrivals]
      exact List.append_assoc _ _ _
    · rw [harrivals]
      exact Nat.lt_succ_self _

def RawRead (conn : TlsConn) : Except TlsError Record → TlsConn → Prop
  | .ok r, conn' => conn'.arrivals <:+ conn.arrivals ∧ r.raw ++ conn'.unread = conn.unread
  | .error _, conn' => conn'.arrivals <:+ conn.arrivals ∧ conn'.unread = conn.unread

theorem record_raw {bytes : Bytes} {r : Record} {used : Nat} (h : Record.parse bytes = .ok (r, used)) :
    r.raw = bytes.take used := by
  unfold Record.parse at h
  split at h
  · dsimp only at h
    split at h
    · cases h
    · cases h
      rfl
  · cases h

theorem readRecord_raw (conn : TlsConn) : Action.Ends N (RawRead conn) (TlsConn.readRecord conn) := by
  refine Action.ends_forever (I := fun _ t => t.arrivals <:+ conn.arrivals ∧ t.unread = conn.unread)
    ⟨List.suffix_rfl, rfl⟩ fun _ t ht => ?_
  obtain ⟨hreads, hunread⟩ := ht
  unfold TlsConn.readRecordRound
  refine ends_bind.mpr (ends_get.mpr ?_)
  show Action.Ends N _ ((if _ then _ else _ : Action TlsConn TlsError (Unit ⊕ Record)) t)
  split
  · refine ends_bind.mpr (Action.ends_lift.mpr ?_)
    cases hparse : Record.parse t.inbuf with
    | error e => exact ⟨hreads, hunread⟩
    | ok parsed =>
      obtain ⟨r, used⟩ := parsed
      refine ⟨hreads, ?_⟩
      rw [← hunread, record_raw hparse]
      unfold TlsConn.unread
      rw [← List.append_assoc]
      exact congrArg (· ++ _) (List.take_append_drop used t.inbuf)
  · refine ends_bind.mpr ((fill_keeps _ t).mono fun o t' ho => ?_)
    obtain ⟨hreads', hunread', hless⟩ := ho
    cases o with
    | error e => exact ⟨hreads'.trans hreads, hunread'.trans hunread⟩
    | ok more =>
      cases more with
      | true => exact ⟨⟨hreads'.trans hreads, hunread'.trans hunread⟩, hless rfl⟩
      | false => exact ⟨hreads'.trans hreads, hunread'.trans hunread⟩

theorem readRecord_passes (w : Logged TlsConn Delivery) :
    Action.Ends N (fun _ w' => Passed w w') (Delivering.readRecord w) := by
  refine ends_bind.mpr (ends_unlogged.mpr ((readRecord_raw w.state).mono fun o conn' ho => ?_))
  cases o with
  | error e => exact ⟨ho.1, [], [], (List.append_nil _).symm, (List.append_nil _).symm, ho.2, .inl rfl⟩
  | ok r =>
    refine ⟨ho.1, r.raw, [], ?_, ?_, ?_, .inl rfl⟩
    · simp only [recordBytes, List.flatMap_append, List.flatMap_cons, List.flatMap_nil, List.append_nil]
    · simp only [closedBytes, List.flatMap_append, List.flatMap_cons, List.flatMap_nil, List.append_nil]
    · rw [List.append_nil]
      exact ho.2

theorem nextMessageWithin_passes [Crates] (left : Nat) (w : Logged TlsConn Delivery) :
    Action.Ends True (fun _ w' => Passed w w') (Delivering.nextMessageWithin left w) := by
  induction left generalizing w with
  | zero =>
    refine ends_bind.mpr (ends_unlogged.mpr ((keeps_buffered.ends w.state).mono fun o conn' hapart => ?_))
    match o with
    | .error e => exact passed_of_apart hapart
    | .ok none => exact passed_of_apart hapart
    | .ok (some item) => exact passed_of_apart hapart
  | succ left ih =>
    refine ends_bind.mpr (ends_unlogged.mpr ((keeps_buffered.ends w.state).mono fun o conn' hapart => ?_))
    have hbuffered := passed_of_apart hapart
    match o with
    | .error e => exact hbuffered
    | .ok (some item) => exact hbuffered
    | .ok none =>
      refine ends_bind.mpr ((readRecord_passes ⟨conn', w.log⟩).mono fun o w₁ hread => ?_)
      have hread := hbuffered.trans hread
      cases o with
      | error e => exact hread
      | ok r =>
        refine ends_bind.mpr (ends_unlogged.mpr (((keeps_takeRecord r).ends w₁.state).mono ?_))
        intro o conn₂ hapart
        have htaken := hread.trans (passed_of_apart hapart)
        match o with
        | .error e => exact htaken
        | .ok (.inr item) => exact htaken
        | .ok (.inl ()) => exact (ih _).mono fun _ _ hrest => htaken.trans hrest

theorem readSilence_passes (w : Logged TlsConn Delivery) :
    Action.Ends N (fun _ w' => Passed w w') (unlogged TlsConn.readSilence w) := by
  have hgiven {conn' : TlsConn} (hreads : conn'.arrivals <:+ w.state.arrivals)
      (hunread : conn'.unread = w.state.unread) : Passed w ⟨conn', w.log⟩ :=
    ⟨hreads, [], [], (List.append_nil _).symm, (List.append_nil _).symm, hunread, .inl rfl⟩
  refine ends_unlogged.mpr ?_
  generalize w.state = conn at hgiven
  obtain ⟨layer, inbuf, hsBuf, appBuf, arrivals, refusals, written, messages, handshakeIn⟩ := conn
  match arrivals with
  | [] => exact hgiven List.suffix_rfl rfl
  | .error e :: rest =>
    cases e <;> exact hgiven (List.suffix_cons _ _) rfl
  | .ok [] :: rest => exact hgiven (List.suffix_cons _ _) rfl
  | .ok (b :: chunk) :: rest => exact hgiven (List.suffix_cons _ _) (List.append_assoc _ _ _)

/-- How `expect_closed` ends, that had `seen` in hand before these arrivals. -/
def Closing (seen : Bytes) (arrivals : List (Except TlsError Bytes)) (lost : Prop) :
    Except TlsError Bytes → TlsConn → Prop
  | .ok out, conn' => ¬lost ∧ conn'.inbuf = [] ∧ (∃ before, arrivals = before ++ .ok [] :: conn'.arrivals) ∧
      out ++ conn'.arrivals.flatMap chunkOf = seen ++ arrivals.flatMap chunkOf
  | .error _, conn' => conn'.arrivals <:+ arrivals ∧ (¬lost → conn'.unread = seen ++ arrivals.flatMap chunkOf) ∧
      (lost → conn'.unread.length < (seen ++ arrivals.flatMap chunkOf).length)

theorem closing_failed {seen : Bytes} {arrivals : List (Except TlsError Bytes)} {lost : Prop} (e : TlsError) (hreads : conn'.arrivals <:+ arrivals) (hunread : conn'.unread = arrivals.flatMap chunkOf)
    (hlost : lost ↔ seen ≠ []) : Closing seen arrivals lost (.error e) conn' := by
  refine ⟨hreads, fun hnot => ?_, fun hlost' => ?_⟩
  · rw [hunread, Decidable.not_not.mp fun hne => hnot (hlost.mpr hne), List.nil_append]
  · have hpos := List.length_pos_iff.mpr (hlost.mp hlost')
    rw [hunread, List.length_append]
    omega

theorem Closing.chunk {seen : Bytes} {rest : List (Except TlsError Bytes)} {b : UInt8} {chunk : Bytes} {left : Nat}
    {o : Except TlsError Bytes}
    (h : Closing (seen ++ (b :: chunk)) rest (FailsWithBytes (seen ++ (b :: chunk)) rest left) o conn') :
    Closing seen (.ok (b :: chunk) :: rest) (FailsWithBytes seen (.ok (b :: chunk) :: rest) (left + 1)) o conn' := by
  have hall : seen ++ (.ok (b :: chunk) :: rest).flatMap chunkOf = seen ++ (b :: chunk) ++ rest.flatMap chunkOf :=
    (List.append_assoc _ _ _).symm
  cases o with
  | error e =>
    obtain ⟨hreads, hkept, hlost⟩ := h
    refine ⟨hreads.trans (List.suffix_cons _ _), fun hnot => ?_, fun hlost' => ?_⟩
    · rw [hall]
      exact hkept fun hfails => hnot (fails_chunk.mpr hfails)
    · rw [hall]
      exact hlost (fails_chunk.mp hlost')
  | ok out =>
    obtain ⟨hnot, hinbuf, ⟨before, hbefore⟩, hout⟩ := h
    refine ⟨fun hfails => hnot (fails_chunk.mp hfails), hinbuf, ⟨.ok (b :: chunk) :: before, ?_⟩, ?_⟩
    · rw [hbefore, List.cons_append]
    · rw [hall]
      exact hout

theorem expectClosedFrom_closing (conn : TlsConn) (left : Nat) {seen : Bytes} (hinbuf : conn.inbuf = []) :
    Action.Ends N (Closing seen conn.arrivals (FailsWithBytes seen conn.arrivals left))
      (TlsConn.expectClosedFrom left seen conn) := by
  induction left generalizing seen conn with
  | zero => exact ⟨List.suffix_rfl, fun _ => rfl, fun hlost => absurd hlost not_fails_zero⟩
  | succ left ih =>
    unfold TlsConn.expectClosedFrom
    refine ends_bind.mpr (ends_get.mpr (ends_bind.mpr ?_))
    obtain ⟨harrivals, hfill⟩ | ⟨e, rest, harrivals, hfill⟩ | ⟨rest, harrivals, hfill⟩ |
      ⟨b, chunk, rest, harrivals, hfill⟩ := TlsConn.fill_cases "the server to close the connection" conn
    · refine ends_of_some hfill
        (closing_failed (.timeout "the server to close the connection") List.nil_suffix ?_ ?_)
      · unfold TlsConn.unread
        rw [hinbuf, harrivals]
        rfl
      · rw [harrivals]
        exact fails_nil
    · refine ends_of_some hfill (closing_failed e (harrivals ▸ List.suffix_cons _ _) ?_ ?_)
      · unfold TlsConn.unread
        rw [hinbuf, harrivals]
        rfl
      · rw [harrivals]
        exact fails_error
    · refine ends_of_some hfill ?_
      rw [harrivals]
      refine ⟨not_fails_close, rfl, ⟨[], rfl⟩, ?_⟩
      rw [hinbuf, List.append_nil]
      rfl
    · -- the chunk goes from the buffer to what is in hand, and the loop is where it was
      refine ends_of_some hfill ?_
      have hnext : Action.Ends N (Closing (seen ++ (b :: chunk)) rest (FailsWithBytes (seen ++ (b :: chunk)) rest left))
          (TlsConn.expectClosedFrom left (seen ++ (b :: chunk)) { conn with inbuf := [], arrivals := rest }) := ih _ rfl
      rw [hinbuf, harrivals]
      exact hnext.mono fun _ _ hclosing => hclosing.chunk

/-- Bytes are gone. -/
structure Dropped (w w' : Logged TlsConn Delivery) : Prop where
  reads : w'.state.arrivals <:+ w.state.arrivals
  log : w'.log = w.log
  fewer : w'.state.unread.length < w.state.unread.length

/-- **What a call does** with the bytes. -/
def ReadCall.Effect (call : ReadCall) (w w' : Logged TlsConn Delivery) : Prop :=
  (¬call.Loses w.state ∧ Passed w w') ∨ (call.Loses w.state ∧ Dropped w w')

theorem expectClosed_effect (left : Nat) (hclosed : StaysClosed w.state.arrivals) :
    Action.Ends N (fun _ w' => (ReadCall.expectClosed left).Effect w w') (Delivering.expectClosed left w) := by
  have hclosing : Action.Ends N (Closing w.state.inbuf w.state.arrivals ((ReadCall.expectClosed left).Loses w.state))
      (TlsConn.expectClosed left w.state) :=
    expectClosedFrom_closing { w.state with inbuf := [] } left rfl
  refine ends_bind.mpr (ends_unlogged.mpr (hclosing.mono fun o conn' ho => ?_))
  cases o with
  | error e =>
    obtain ⟨hreads, hkept, hlost⟩ := ho
    by_cases h : (ReadCall.expectClosed left).Loses w.state
    · exact .inr ⟨h, hreads, rfl, hlost h⟩
    · exact .inl ⟨h, hreads, [], [], (List.append_nil _).symm, (List.append_nil _).symm, hkept h, .inl rfl⟩
  | ok out =>
    obtain ⟨hnot, hinbuf, ⟨before, hbefore⟩, hout⟩ := ho
    have hafter : conn'.arrivals.flatMap chunkOf = [] := by
      rw [hbefore] at hclosed
      obtain ⟨-, hclose, -⟩ := List.pairwise_append.mp hclosed
      exact List.flatMap_eq_nil_iff.mpr fun a ha => (List.pairwise_cons.mp hclose).1 a ha rfl
    have hnone : conn'.unread = [] := by
      unfold TlsConn.unread
      rw [hinbuf, hafter]
      rfl
    refine .inl ⟨hnot, ⟨before ++ [.ok []], ?_⟩, [], out, ?_, ?_, ?_, .inr hnone⟩
    · rw [hbefore]
      exact List.append_assoc _ _ _
    · simp only [recordBytes, List.flatMap_append, List.flatMap_cons, List.flatMap_nil, List.append_nil]
    · simp only [closedBytes, List.flatMap_append, List.flatMap_cons, List.flatMap_nil, List.append_nil]
    · rw [hafter, List.append_nil] at hout
      show [] ++ out ++ conn'.unread = _
      rw [hnone, hout, List.nil_append, List.append_nil]
      rfl

section variable [Crates]

theorem ReadCall.run_effect (call : ReadCall) (hclosed : StaysClosed w.state.arrivals) :
    Action.Ends True (fun _ w' => call.Effect w w') (call.run w) := by
  cases call with
  | readRecord =>
    refine ends_bind.mpr ((readRecord_passes w).mono fun o w' hpassed => ?_)
    cases o <;> exact .inl ⟨id, hpassed⟩
  | nextMessage left =>
    refine ends_bind.mpr ((nextMessageWithin_passes left w).mono fun o w' hpassed => ?_)
    cases o <;> exact .inl ⟨id, hpassed⟩
  | readSilence =>
    refine ends_bind.mpr ((readSilence_passes w).mono fun o w' hpassed => ?_)
    cases o <;> exact .inl ⟨id, hpassed⟩
  | expectClosed left =>
    refine ends_bind.mpr ((expectClosed_effect left hclosed).mono fun o w' heffect => ?_)
    cases o <;> exact heffect

/-! ## Runs of calls -/

def NoneLoses (calls : List ReadCall) (w : Logged TlsConn Delivery) : Prop :=
  ∀ before call after, calls = before ++ call :: after →
    ∀ v, callAll before w = some (.ok (), v) → ¬call.Loses v.state

theorem noneLoses_cons {call : ReadCall} {calls : List ReadCall} {o : Except TlsError Unit}
    (h : call.run w = some (o, w')) : NoneLoses (call :: calls) w ↔ ¬call.Loses w.state ∧ NoneLoses calls w' := by
  have hrun (before : List ReadCall) : callAll (call :: before) w = callAll before w' :=
    Action.bind_of_ok (attempt_ok.mpr h)
  constructor
  · intro hnone
    refine ⟨hnone [] call calls rfl w rfl, fun before next after hcalls v hv => ?_⟩
    exact hnone (call :: before) next after (congrArg (call :: ·) hcalls) v ((hrun before).trans hv)
  · rintro ⟨hfirst, hnone⟩ before next after hcalls v hv
    cases before with
    | nil =>
      cases hcalls
      cases hv
      exact hfirst
    | cons first before =>
      obtain ⟨rfl, hrest⟩ := List.cons.inj hcalls
      exact hnone before next after hrest v ((hrun before).symm.trans hv)

def accounted (w : Logged TlsConn Delivery) : Nat :=
  (recordBytes w.log).length + (closedBytes w.log).length + w.state.unread.length

omit [Crates] in
theorem Passed.accounted (h : Passed w w') : accounted w' = accounted w := by
  obtain ⟨r, s, hr, hs, hunread, -⟩ := h.given
  unfold Tls.accounted
  rw [hr, hs, ← hunread]
  simp only [List.length_append]
  omega

omit [Crates] in
theorem Dropped.accounted (h : Dropped w w') : accounted w' < accounted w := by
  have hfewer := h.fewer
  unfold Tls.accounted
  rw [h.log]
  omega

/-- **A run of calls**: all is passed on, or bytes are gone. -/
theorem callAll_effect {calls : List ReadCall} (hclosed : StaysClosed w.state.arrivals)
    (h : callAll calls w = some (.ok (), w')) :
    w'.state.arrivals <:+ w.state.arrivals ∧ (NoneLoses calls w → Passed w w') ∧
      (¬NoneLoses calls w → accounted w' < accounted w) ∧ accounted w' ≤ accounted w := by
  induction calls generalizing w with
  | nil =>
    cases h
    have hnone : NoneLoses [] w' := fun before call after hcalls =>
      absurd hcalls.symm (List.append_ne_nil_of_right_ne_nil _ (List.cons_ne_nil _ _))
    exact ⟨List.suffix_rfl, fun _ => .refl _, fun hnot => absurd hnone hnot, Nat.le_refl _⟩
  | cons call calls ih =>
    obtain ⟨o, w₁, hcall, hrest⟩ := Action.bind_ok.mp h
    have hrun := attempt_ok.mp hcall
    rw [noneLoses_cons hrun]
    obtain ⟨hnot, hpassed⟩ | ⟨hloses, hdropped⟩ := (call.run_effect hclosed).some hrun
    · obtain ⟨hreads, hall, hfewer, hle⟩ := ih (hclosed.sublist hpassed.reads.sublist) hrest
      have hsame := hpassed.accounted
      refine ⟨hreads.trans hpassed.reads, fun hnone => hpassed.trans (hall hnone.2), fun hnone => ?_, hsame ▸ hle⟩
      exact hsame ▸ hfewer fun hrest => hnone ⟨hnot, hrest⟩
    · obtain ⟨hreads, -, -, hle⟩ := ih (hclosed.sublist hdropped.reads.sublist) hrest
      have hless := Nat.lt_of_le_of_lt hle hdropped.accounted
      exact ⟨hreads.trans hdropped.reads, fun hnone => absurd hloses hnone.1, fun _ => hless, Nat.le_of_lt hless⟩

omit [Crates] in
theorem bytesReceived_append {conn' : TlsConn} (h : conn'.arrivals <:+ conn.arrivals) :
    bytesReceived conn conn' ++ conn'.arrivals.flatMap chunkOf = conn.arrivals.flatMap chunkOf := by
  obtain ⟨taken, htaken⟩ := h
  unfold bytesReceived
  rw [← htaken, List.length_append, Nat.add_sub_cancel, List.take_left, List.flatMap_append]

omit [Crates] in
theorem nothingDropped_iff_unread (h : w.state.arrivals <:+ conn.arrivals) :
    NothingDropped conn w ↔ recordBytes w.log ++ closedBytes w.log ++ w.state.unread = conn.unread := by
  unfold NothingDropped TlsConn.unread
  rw [← bytesReceived_append h, ← List.append_assoc, ← List.append_assoc]
  exact List.append_left_inj _ |>.symm

/-- **Nothing is dropped**, whatever the socket does in a run of calls, exactly when no `expect_closed` of the run fails
at a read with bytes in hand. -/
theorem nothing_dropped_iff (conn : TlsConn) (socket : Socket) {calls : List ReadCall}
    (h : callAll calls ⟨conn.over socket, []⟩ = some (.ok (), w)) :
    NothingDropped (conn.over socket) w ↔ NoneLoses calls ⟨conn.over socket, []⟩ := by
  obtain ⟨hreads, hall, hfewer, -⟩ := callAll_effect (w := ⟨conn.over socket, []⟩) socket.closed h
  rw [nothingDropped_iff_unread hreads]
  constructor
  · intro hdropped
    by_contra hnot
    have hless := hfewer hnot
    unfold accounted at hless
    rw [← hdropped] at hless
    simp only [List.length_append] at hless
    simp [recordBytes, closedBytes] at hless
  · intro hnone
    obtain ⟨r, s, hr, hs, hunread, -⟩ := (hall hnone).given
    rw [hr, hs]
    exact hunread

end

namespace Stalled

/-- Three bytes of a record, and then nothing. -/
def socket : Socket where
  reads := [.ok [22, 3, 3], .error (.timeout "a record from the server"),
    .error (.timeout "the server to close the connection")]
  closed := by decide

/-- An alert and the first byte of the next record, silence, and a close. -/
def closing : Socket where
  reads := [.ok [21, 3, 3, 0, 2, 1, 0, 22], .error (.timeout ""), .ok []]
  closed := by decide

end Stalled

/-- `read_record` times out on part of a record, and `expect_closed` after it. -/
theorem part_of_record_dropped : ∃ (conn : TlsConn) (socket : Socket) (calls : List ReadCall)
    (w : Logged TlsConn Delivery), @callAll sampleCrates calls ⟨conn.over socket, []⟩ = some (.ok (), w) ∧
      ¬NothingDropped (conn.over socket) w := by
  refine ⟨.new [] [], Stalled.socket, [.readRecord, .expectClosed 5], _, rfl, ?_⟩
  unfold NothingDropped
  decide

theorem nothing_dropped_iff_closed : ∃ w, @callAll sampleCrates [.readRecord, .readSilence, .expectClosed 5]
      ⟨(TlsConn.new [] []).over Stalled.closing, []⟩ = some (.ok (), w) ∧
    w.log = [.record ⟨.alert, 0x0303, [1, 0], [21, 3, 3, 0, 2, 1, 0]⟩, .closed [22]] ∧
    (NothingDropped ((TlsConn.new [] []).over Stalled.closing) w ↔
      @NoneLoses sampleCrates [.readRecord, .readSilence, .expectClosed 5]
        ⟨(TlsConn.new [] []).over Stalled.closing, []⟩) :=
  let _ := sampleCrates
  ⟨_, rfl, rfl, nothing_dropped_iff _ _ rfl⟩

end BuildYourOwn.Tls
