import BuildYourOwn.Tls.Flight
import BuildYourOwn.Tls.Framing
import BuildYourOwn.Topic.Command

/-!
# Reading a line

Model of `read_line` of `tlstest/src/tls/client.rs`. A round of its loop looks for a newline in what is pending and
otherwise asks `read_app_data` for more; as in `read_app_data`, it has so many rounds until its deadline has passed.

`read_app_data` hands out what is pending before it reads a record. The beginning of a line goes round between the
two, and no record is read any more (`readLine_stuck`).

**`readLine_iff`**: the line is returned, and what is behind it left, exactly when a newline is pending, or nothing
is and the first record with data in it brings one.
-/

namespace BuildYourOwn.Tls

open Lib Topic
open Lib.Action (bind_get_ok bind_of_ok bind_ok)

def newline : UInt8 := 10

namespace Client

/-- What the loop of `read_line` does first: the line that is pending is taken, with its newline. -/
def takeLine : Action Client TlsError (Option String) := do
  let c ← Action.get
  match c.pendingApp.findIdx? (· == newline) with
  | some i => do
    Action.modify fun c => { c with pendingApp := c.pendingApp.drop (i + 1) }
    pure (some (fromUtf8Lossy (c.pendingApp.take i)))
  | none => pure none

def readLine [Host] [Crates] : List (List Nat) → Action Client TlsError String
  | [] => do
    match ← takeLine with
    | some line => pure line
    | none => do
      let c ← Action.get
      Action.fail (.timeout ("a newline-terminated answer (got " ++ toString c.pendingApp.length ++
        " byte(s) so far: " ++ debugStr (fromUtf8Lossy c.pendingApp) ++ ")"))
  | lefts :: rounds => do
    match ← takeLine with
    | some line => pure line
    | none => do
      let more ← readAppData lefts
      Action.modify fun c => { c with pendingApp := c.pendingApp ++ more }
      readLine rounds

end Client

section variable [Crates]

/-! ## Application data to come -/

inductive SealsData : RecordLayer → List Bytes → Bytes → Prop
  | nil {w : RecordLayer} : SealsData w [] []
  | cons {w w' : RecordLayer} {d bytes stream : Bytes} {ds : List Bytes} {padding : Nat} :
      RecordLayer.seal .applicationData d padding w = some (.ok bytes, w') → SealsData w' ds stream →
      SealsData w (d :: ds) (bytes ++ stream)

/-- The connection has these contents of records to hand out, and what is behind them in the stream is `rest`. -/
structure Delivers (conn : TlsConn) (ds : List Bytes) (rest : Bytes) : Prop where
  chunks : Chunks conn.arrivals
  begun : Begun conn.hsBuf
  stream : ∃ w keys sealed stream, InStep w conn.layer ∧ w.write = some keys ∧ SealsData w sealed stream ∧
    ds = conn.appBuf ++ sealed ∧ conn.unread = stream ++ rest

variable {conn : TlsConn} {d rest : Bytes} {ds : List Bytes}

omit [Crates] in
theorem popHandshake_begun (h : Begun conn.hsBuf) : TlsConn.popHandshake conn = some (.ok none, conn) := by
  rw [popHandshake_eq]
  cases hparse : HandshakeMessage.parse conn.hsBuf with
  | error e => rfl
  | ok r => exact absurd hparse (h r.1 r.2)

omit [Crates] in
theorem buffered_begun (h : Begun conn.hsBuf) : TlsConn.buffered conn = match conn.appBuf with
    | data :: app => some (.ok (some (.appData data)), { conn with appBuf := app })
    | [] => some (.ok none, conn) := by
  cases happ : conn.appBuf with
  | nil =>
    refine bind_ok.mpr ⟨_, _, popHandshake_begun h, ?_⟩
    refine bind_get_ok.mpr ?_
    rw [happ]
    rfl
  | cons data app =>
    refine bind_ok.mpr ⟨_, _, popHandshake_begun h, ?_⟩
    refine bind_get_ok.mpr ?_
    rw [happ]
    rfl

theorem nextMessageWithin_data (conn : TlsConn) (hbegun : Begun conn.hsBuf) {app : List Bytes} (happ : conn.appBuf = d :: app)
    (left : Nat) : TlsConn.nextMessageWithin left conn = some (.ok (.appData d), { conn with appBuf := app }) := by
  have hbuffered := buffered_begun hbegun
  rw [happ] at hbuffered
  cases left <;> exact bind_ok.mpr ⟨_, _, hbuffered, rfl⟩

theorem takeRecord_data {r : Record} {layer : RecordLayer} {padding : Nat} (hr : r.contentType = .applicationData)
    (hopen : RecordLayer.open r conn.layer = some (.ok ⟨.applicationData, d, padding⟩, layer)) :
    TlsConn.takeRecord r conn = some (.ok (.inl ()), { conn with layer := layer, appBuf := conn.appBuf ++ [d] }) := by
  have hreading : conn.layer.readingEncrypted = true := by
    obtain ⟨keys, -, -, -, hread, -⟩ := open_ok.mp hopen
    unfold RecordLayer.readingEncrypted
    rw [hread]
    rfl
  have hpart : TlsConn.onLayer (RecordLayer.open r) conn =
      some (.ok ⟨.applicationData, d, padding⟩, { conn with layer := layer }) :=
    Action.onPart_ok.mpr ⟨_, hopen, rfl⟩
  have hprotected : TlsConn.takeProtected r conn =
      some (.ok (.inl ()), { conn with layer := layer, appBuf := conn.appBuf ++ [d] }) := by
    unfold TlsConn.takeProtected
    rw [bind_of_ok hpart]
    rfl
  unfold TlsConn.takeRecord
  rw [bind_of_ok (x := Action.get) rfl, hr, hreading]
  exact hprotected

/-- **The next wait** hands out the next contents. -/
theorem nextMessageWithin_delivers (hopens : OpensSealed) (h : Delivers conn (d :: ds) rest) {left : Nat}
    (hleft : 0 < left) :
    ∃ conn', TlsConn.nextMessageWithin left conn = some (.ok (.appData d), conn') ∧ Delivers conn' ds rest := by
  obtain ⟨w, keys, sealed, stream, hin, hkeys, hseals, hds, hunread⟩ := h.stream
  cases happ : conn.appBuf with
  | cons d' app =>
    rw [happ] at hds
    obtain ⟨rfl, rfl⟩ := List.cons.inj hds
    exact ⟨_, nextMessageWithin_data conn h.begun happ left, h.chunks, h.begun, w, keys, sealed, stream, hin, hkeys, hseals, rfl,
      hunread⟩
  | nil =>
    rw [happ] at hds
    obtain rfl : sealed = d :: ds := hds.symm
    cases hseals with
    | @cons _ w' _ bytes stream _ padding hseal hseals =>
      obtain ⟨r, seq, rfl, hparse, htype, hopen⟩ :=
        sealed_record hopens hin hkeys (by decide : ContentType.applicationData.asU8 ≠ 0) hseal
      have hfirst := hparse (stream ++ rest)
      rw [← List.append_assoc, ← hunread] at hfirst
      obtain ⟨conn₁, hread, hsame, hunread₁, hchunks⟩ := readRecord_delivers h.chunks hfirst
      unfold TlsConn.SameButSocket at hsame
      have hlayer : conn₁.layer = conn.layer := by rw [hsame]
      have hbegun : Begun conn₁.hsBuf := by
        rw [hsame]
        exact h.begun
      have happ₁ : conn₁.appBuf = [] := by rw [hsame, happ]
      rw [← hlayer] at hopen
      have htake := takeRecord_data htype hopen
      rw [happ₁] at htake
      obtain ⟨left, rfl⟩ : ∃ n, left = n + 1 := ⟨left - 1, by omega⟩
      have hdry := buffered_begun h.begun
      rw [happ] at hdry
      refine ⟨{ conn₁ with layer := { conn₁.layer with readSeq := seq }, appBuf := [] }, ?_, hchunks, hbegun,
        { w with writeSeq := seq }, keys, ds, stream, ⟨?_, rfl⟩, hkeys, hseals, rfl, ?_⟩
      · refine bind_ok.mpr ⟨_, _, hdry, bind_ok.mpr ⟨_, _, hread, bind_ok.mpr ⟨_, _, htake, ?_⟩⟩⟩
        refine nextMessageWithin_data _ ?_ rfl left
        exact hbegun
      · exact (congrArg RecordLayer.read hlayer).trans hin.keys
      · show conn₁.unread = stream ++ rest
        rw [hunread₁, hunread, List.append_assoc, List.drop_left]

/-! ## Reading application data -/

variable {c : Client}

def Timely (n : Nat) (rounds : List (List Nat)) : Prop :=
  n ≤ rounds.length ∧ ∀ lefts ∈ rounds, n ≤ lefts.length ∧ ∀ left ∈ lefts, 0 < left

variable {empty : List Bytes} {lefts : List Nat}

theorem readAppDataLoop_delivers (hopens : OpensSealed) (hempty : ∀ e ∈ empty, e = [])
    (hd : d ≠ []) (h : Delivers c.conn (empty ++ d :: ds) rest)
    (hlength : empty.length < lefts.length) (hlefts : ∀ left ∈ lefts, 0 < left) :
    ∃ conn', Client.readAppDataLoop lefts c = some (.ok d, { c with conn := conn' }) ∧ Delivers conn' ds rest := by
  induction empty generalizing c lefts with
  | nil =>
    obtain ⟨left, lefts, rfl⟩ := List.exists_cons_of_length_pos hlength
    obtain ⟨conn', hnext, hdelivers⟩ := nextMessageWithin_delivers hopens h (hlefts left List.mem_cons_self)
    refine ⟨conn', bind_ok.mpr ⟨_, _, Action.onPart_ok.mpr ⟨_, hnext, rfl⟩, ?_⟩, hdelivers⟩
    exact congrFun (if_pos hd) _
  | cons e empty ih =>
    obtain ⟨left, lefts, rfl⟩ := List.exists_cons_of_length_pos (Nat.zero_lt_of_lt hlength)
    obtain ⟨rfl, hrest⟩ := List.forall_mem_cons.mp hempty
    obtain ⟨hleft, hlefts⟩ := List.forall_mem_cons.mp hlefts
    obtain ⟨conn₁, hnext, hdelivers⟩ := nextMessageWithin_delivers hopens h hleft
    obtain ⟨conn', hloop, hdelivers⟩ :=
      ih (c := { c with conn := conn₁ }) hrest hdelivers (Nat.lt_of_succ_lt_succ hlength) hlefts
    refine ⟨conn', bind_ok.mpr ⟨_, _, Action.onPart_ok.mpr ⟨_, hnext, rfl⟩, ?_⟩, hdelivers⟩
    exact (congrFun (if_neg (not_not.mpr rfl)) _).trans hloop

theorem readAppData_delivers (hopens : OpensSealed) (hempty : ∀ e ∈ empty, e = [])
    (hd : d ≠ []) (hpending : c.pendingApp = []) (h : Delivers c.conn (empty ++ d :: ds) rest)
    (hlength : empty.length < lefts.length) (hlefts : ∀ left ∈ lefts, 0 < left) :
    ∃ conn', Client.readAppData lefts c = some (.ok d, { c with conn := conn' }) ∧ Delivers conn' ds rest := by
  obtain ⟨conn', hloop, hdelivers⟩ := readAppDataLoop_delivers hopens hempty hd h hlength hlefts
  refine ⟨conn', bind_ok.mpr ⟨_, _, Action.get_ok.mpr ⟨rfl, rfl⟩, ?_⟩, hdelivers⟩
  exact (congrFun (if_neg (not_not.mpr hpending)) _).trans hloop

theorem readAppData_pending (hpending : c.pendingApp ≠ []) (lefts : List Nat) :
    Client.readAppData lefts c = some (.ok c.pendingApp, { c with pendingApp := [] }) := by
  refine bind_get_ok.mpr ?_
  exact (congrFun (if_pos hpending) _).trans rfl

/-! ## Reading a line -/

omit [Crates] in
theorem takeLine_eq (c : Client) : Client.takeLine c =
    match c.pendingApp.findIdx? (· == newline) with
    | some i =>
      some (.ok (some (fromUtf8Lossy (c.pendingApp.take i))), { c with pendingApp := c.pendingApp.drop (i + 1) })
    | none => some (.ok none, c) := by
  show (match c.pendingApp.findIdx? (· == newline) with
    | some i => do
      Action.modify fun c => { c with pendingApp := c.pendingApp.drop (i + 1) }
      pure (some (fromUtf8Lossy (c.pendingApp.take i)))
    | none => pure none : Action Client TlsError (Option String)) c = _
  cases c.pendingApp.findIdx? (· == newline) <;> rfl

omit [Crates] in
theorem takeLine_there {front back : Bytes} (hpending : c.pendingApp = front ++ newline :: back)
    (hfront : newline ∉ front) :
    Client.takeLine c = some (.ok (some (fromUtf8Lossy front)), { c with pendingApp := back }) := by
  have hat : c.pendingApp.findIdx? (· == newline) = some front.length := by
    have hnone : front.findIdx? (· == newline) = none := by
      refine List.findIdx?_eq_none_iff.mpr fun b hb => ?_
      exact beq_eq_false_iff_ne.mpr fun h => hfront (h ▸ hb)
    simp [hpending, List.findIdx?_append, hnone, List.findIdx?_cons]
  have htake : c.pendingApp.take front.length = front := by rw [hpending, List.take_left]
  have hdrop : c.pendingApp.drop (front.length + 1) = back := by
    rw [hpending, List.append_cons, List.drop_left' (by simp)]
  rw [takeLine_eq, hat]
  dsimp only
  rw [htake, hdrop]

omit [Crates] in
theorem takeLine_none (hpending : newline ∉ c.pendingApp) : Client.takeLine c = some (.ok none, c) := by
  have hat : c.pendingApp.findIdx? (· == newline) = none := by
    refine List.findIdx?_eq_none_iff.mpr fun b hb => ?_
    exact beq_eq_false_iff_ne.mpr fun h => hpending (h ▸ hb)
  rw [takeLine_eq, hat]

variable [Host]

theorem readLine_there {front back : Bytes} (hpending : c.pendingApp = front ++ newline :: back)
    (hfront : newline ∉ front) (rounds : List (List Nat)) :
    Client.readLine rounds c = some (.ok (fromUtf8Lossy front), { c with pendingApp := back }) := by
  have htake := takeLine_there hpending hfront
  cases rounds <;> exact bind_ok.mpr ⟨_, _, htake, rfl⟩

/-- **The beginning of a line** that is pending goes round, until the deadline has passed. -/
theorem readLine_stuck (hpending : c.pendingApp ≠ []) (hnone : newline ∉ c.pendingApp) (rounds : List (List Nat)) :
    ∃ text, Client.readLine rounds c = some (.error (.timeout text), c) := by
  have htake := takeLine_none hnone
  induction rounds with
  | nil => exact ⟨_, (bind_of_ok htake).trans rfl⟩
  | cons lefts rounds ih =>
    obtain ⟨text, hrest⟩ := ih
    have hround := bind_of_ok (f := fun more => do
      Action.modify fun c => { c with pendingApp := c.pendingApp ++ more }
      Client.readLine rounds) (readAppData_pending hpending lefts)
    exact ⟨text, (bind_of_ok htake).trans (hround.trans hrest)⟩

theorem readLine_reads (hopens : OpensSealed) (hempty : ∀ e ∈ empty, e = [])
    (hd : d ≠ []) (hpending : c.pendingApp = []) (h : Delivers c.conn (empty ++ d :: ds) rest)
    (hlength : empty.length < lefts.length) (hlefts : ∀ left ∈ lefts, 0 < left) (rounds : List (List Nat)) :
    ∃ conn', Client.readLine (lefts :: rounds) c =
        Client.readLine rounds { c with pendingApp := d, conn := conn' } ∧ Delivers conn' ds rest := by
  have htake : Client.takeLine c = some (.ok none, c) := takeLine_none (by
    rw [hpending]
    exact List.not_mem_nil)
  obtain ⟨conn', hread, hdelivers⟩ := readAppData_delivers hopens hempty hd hpending h hlength hlefts
  refine ⟨conn', ?_, hdelivers⟩
  refine (bind_of_ok htake).trans ((bind_of_ok hread).trans ?_)
  show Client.readLine rounds { c with pendingApp := c.pendingApp ++ d, conn := conn' } = _
  rw [hpending, List.nil_append]

/-- A reader of lines gives the bytes up to the first newline of what is pending and of these contents, leaves what
is behind it, and reads no record after the newline came. -/
def ReadsLine (rounds : List (List Nat)) (c : Client) (ds : List Bytes) (rest : Bytes) : Prop :=
  ∃ front back k pending conn', c.pendingApp ++ ds.flatten = front ++ newline :: back ∧ newline ∉ front ∧
    Client.readLine rounds c =
      some (.ok (fromUtf8Lossy front), { c with pendingApp := pending, conn := conn' }) ∧
    pending ++ (ds.drop k).flatten = back ∧ Delivers conn' (ds.drop k) rest ∧
    ∀ j < k, newline ∉ c.pendingApp ++ (ds.take j).flatten

/-- A newline is pending, or nothing is and the first record with data in it brings one. -/
def AtOnce (c : Client) (ds : List Bytes) : Prop :=
  newline ∈ c.pendingApp ∨ c.pendingApp = [] ∧ ∃ d, ds.find? (fun d => d ≠ []) = some d ∧ newline ∈ d

omit [Crates] [Host] in
theorem first_data (h : ds.find? (fun d => d ≠ []) = some d) :
    ∃ empty after, ds = empty ++ d :: after ∧ d ≠ [] ∧ ∀ e ∈ empty, e = [] := by
  obtain ⟨hd, empty, after, rfl, hempty⟩ := List.find?_eq_some_iff_append.mp h
  exact ⟨empty, after, rfl, by simpa using hd, fun e he => by simpa using hempty e he⟩

omit [Crates] [Host] in
theorem flatten_empty (h : ∀ e ∈ empty, e = []) : empty.flatten = [] :=
  List.flatten_eq_nil_iff.mpr h

/-- **When a line is read**: where the records that come bring a newline in time, the line is returned and nothing
is lost exactly when a newline is pending, or nothing is and the first record with data in it brings one. -/
theorem readLine_iff (hopens : OpensSealed) {rounds : List (List Nat)} (htimely : Timely ds.length rounds)
    (hdelivers : Delivers c.conn ds rest) (hnewline : newline ∈ c.pendingApp ++ ds.flatten) :
    ReadsLine rounds c ds rest ↔ AtOnce c ds := by
  by_cases hpending : newline ∈ c.pendingApp
  · refine iff_of_true ?_ (.inl hpending)
    obtain ⟨front, back, hsplit, hfront⟩ := List.eq_append_cons_of_mem hpending
    refine ⟨front, back ++ ds.flatten, 0, back, c.conn, ?_, hfront, readLine_there hsplit hfront rounds, rfl, hdelivers,
      fun j hj => absurd hj (Nat.not_lt_zero j)⟩
    rw [hsplit, List.append_assoc, List.cons_append]
  by_cases hnil : c.pendingApp = []
  · -- the newline is in a record, so one of them has data
    rw [hnil, List.nil_append] at hnewline
    obtain ⟨d₀, hd₀, hnewline₀⟩ := List.mem_flatten.mp hnewline
    obtain ⟨d, hfind⟩ : ∃ d, ds.find? (fun d => d ≠ []) = some d :=
      Option.isSome_iff_exists.mp (List.find?_isSome.mpr ⟨d₀, hd₀, by simpa using List.ne_nil_of_mem hnewline₀⟩)
    obtain ⟨empty, after, rfl, hd, hempty⟩ := first_data hfind
    have hlength : empty.length < (empty ++ d :: after).length := by
      rw [List.length_append, List.length_cons]
      omega
    obtain ⟨hcount, hrounds⟩ := htimely
    obtain ⟨lefts, rounds, rfl⟩ := List.exists_cons_of_length_pos (Nat.zero_lt_of_lt (Nat.lt_of_lt_of_le hlength hcount))
    obtain ⟨⟨hwaits, hlefts⟩, -⟩ := List.forall_mem_cons.mp hrounds
    obtain ⟨conn', hread, hrest⟩ :=
      readLine_reads hopens hempty hd hnil hdelivers (Nat.lt_of_lt_of_le hlength hwaits) hlefts rounds
    by_cases hline : newline ∈ d
    · refine iff_of_true ?_ (.inr ⟨hnil, d, hfind, hline⟩)
      obtain ⟨front, back, rfl, hfront⟩ := List.eq_append_cons_of_mem hline
      refine ⟨front, back ++ after.flatten, empty.length + 1, back, conn', ?_, hfront,
        hread.trans (readLine_there rfl hfront rounds), ?_, ?_, fun j hj => ?_⟩
      · simp [hnil, flatten_empty hempty]
      · rw [List.append_cons, List.drop_left' (by simp)]
      · rw [List.append_cons, List.drop_left' (by simp)]
        exact hrest
      · rw [hnil, List.nil_append, List.take_append_of_le_length (Nat.lt_succ_iff.mp hj),
          flatten_empty fun e he => hempty e (List.mem_of_mem_take he)]
        exact List.not_mem_nil
    · refine iff_of_false ?_ ?_
      · rintro ⟨front, back, k, pending, conn₁, -, -, hgives, -⟩
        obtain ⟨text, hstuck⟩ := readLine_stuck (c := { c with pendingApp := d, conn := conn' }) hd hline rounds
        rw [hread, hstuck] at hgives
        cases hgives
      · rintro (h | ⟨-, d', hfind', hline'⟩)
        · exact hpending h
        · obtain rfl := Option.mem_unique hfind hfind'
          exact hline hline'
  · refine iff_of_false ?_ ?_
    · rintro ⟨front, back, k, pending, conn₁, -, -, hgives, -⟩
      obtain ⟨text, hstuck⟩ := readLine_stuck hnil hpending rounds
      rw [hstuck] at hgives
      cases hgives
    · rintro (h | ⟨h, -⟩)
      · exact hpending h
      · exact hnil h

end

/-! ### The end of a line in one record -/

namespace OneLine

def inner : Bytes := [98, 10, 23]

/-- `inner` under `sampleKeys`, with sequence number 0. -/
def sealed : Bytes :=
  [228, 72, 197, 248, 50, 129, 90, 192, 3, 205, 89, 153, 86, 221, 105, 186, 42, 53, 162]

/-- The AEAD on this record. -/
@[reducible] def crates : Crates :=
  { sampleCrates with
    encrypt := fun alg key nonce aad msg =>
      if h : (alg = .aes128Gcm ∧ key = sampleKeys.key ∧ nonce = sampleKeys.iv ∧ aad = [23, 3, 3, 0, 19]) ∧
          msg = inner then
        some ⟨sealed, by rw [h.2]; rfl⟩
      else none
    decrypt := fun alg key nonce aad msg =>
      if h : (alg = .aes128Gcm ∧ key = sampleKeys.key ∧ nonce = sampleKeys.iv ∧ aad = [23, 3, 3, 0, 19]) ∧
          msg = sealed then
        some ⟨inner, by rw [h.2]; rfl⟩
      else none }

theorem opens_sealed : @OpensSealed crates := by
  intro alg key nonce aad msg out hout
  have hcond : (alg = .aes128Gcm ∧ key = sampleKeys.key ∧ nonce = sampleKeys.iv ∧ aad = [23, 3, 3, 0, 19]) ∧
      msg = inner := by
    by_contra hne
    rw [show @Crates.encrypt crates alg key nonce aad msg = none from dif_neg hne] at hout
    cases hout
  obtain ⟨hfirst, rfl⟩ := hcond
  have hsealed : out.val = sealed := by
    rw [show @Crates.encrypt crates alg key nonce aad inner = some ⟨sealed, rfl⟩ from dif_pos ⟨hfirst, rfl⟩] at hout
    cases hout
    rfl
  exact ⟨⟨inner, by rw [hsealed]; rfl⟩, dif_pos ⟨hfirst, hsealed⟩, rfl⟩

def server : RecordLayer := RecordLayer.new.setWrite sampleKeys

/-- The connection of the client, the record and two bytes of the next one before it. -/
def conn : TlsConn :=
  { TlsConn.new [.ok ([23, 3, 3, 0, 19] ++ sealed ++ [23, 3])] [] with layer := RecordLayer.new.setRead sampleKeys }

def client (pending : Bytes) : Client := { Resumed.client with conn := conn, pendingApp := pending }

theorem delivers : @Delivers crates conn [[98, 10]] [23, 3] := by
  let _ := crates
  have hchunks : Chunks conn.arrivals := fun a ha => ⟨_, List.mem_singleton.mp ha, by decide⟩
  have hseals : SealsData server [[98, 10]] ([23, 3, 3, 0, 19] ++ sealed) :=
    @SealsData.cons crates server _ [98, 10] ([23, 3, 3, 0, 19] ++ sealed) [] [] 0 rfl .nil
  exact ⟨hchunks, begun_nil, server, sampleKeys, _, _, ⟨rfl, rfl⟩, rfl, hseals, rfl, rfl⟩

theorem timely : Timely 1 [[1]] := by
  unfold Timely
  decide

end OneLine

theorem line_in_pieces_not_read : ∃ (rounds : List (List Nat)) (c : Client) (ds : List Bytes) (rest : Bytes),
    @OpensSealed OneLine.crates ∧ Timely ds.length rounds ∧ @Delivers OneLine.crates c.conn ds rest ∧
    c.pendingApp ++ ds.flatten = [97, 98, newline] ∧ ¬ @ReadsLine OneLine.crates (hostOf []) rounds c ds rest := by
  let _ := OneLine.crates
  let _ := hostOf []
  refine ⟨[[1]], OneLine.client [97], [[98, 10]], [23, 3], OneLine.opens_sealed, OneLine.timely, OneLine.delivers,
    rfl, ?_⟩
  rintro ⟨front, back, k, pending, conn, -, -, hgives, -⟩
  obtain ⟨text, hstuck⟩ := readLine_stuck (c := OneLine.client [97]) (by decide) (by decide) [[1]]
  rw [hstuck] at hgives
  cases hgives

theorem readLine_iff_one_record :
    @ReadsLine OneLine.crates (hostOf []) [[1]] (OneLine.client []) [[98, 10]] [23, 3] ↔
      AtOnce (OneLine.client []) [[98, 10]] :=
  let _ := OneLine.crates
  let _ := hostOf []
  readLine_iff OneLine.opens_sealed OneLine.timely OneLine.delivers (by decide)

end BuildYourOwn.Tls
