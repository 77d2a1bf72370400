import BuildYourOwn.Topic.Command

/-!
# `ordering`: FIFO, causal and total order on top of a broadcast

Model of `Ordered` and `Ordering` in `disttest/examples/alg/broadcast.rs`. A sent message stays in the
queue; the network offers it to one process after another, and each delivers it when the order in
force allows (`deliverable`).

* The order in force is a string in the source, and only ever one of three.
* `send` panics when a counter leaves `i64`.
-/

namespace BuildYourOwn.Group

open Topic

inductive Order
  | fifo
  | causal
  | total
  deriving DecidableEq

def Order.text : Order → String
  | fifo => "fifo"
  | causal => "causal"
  | total => "total"

/-- `Ordered`: a message with its sender's sequence number, the sender's clock at send time and its
slot. -/
structure Ordered where
  id : Int
  sender : Nat
  seq : Int
  clock : List Int
  slot : Int

structure Ordering where
  n : Nat
  order : Order
  deliveredFrom : List (List Int)
  log : List (List Int)
  sent : List Int
  queue : List Ordered
  nextId : Int
  nextSlot : Int

namespace Ordering

/-- `delivered_from[p][k]`: how many messages of `k` process `p` has delivered. -/
def count (s : Ordering) (p k : Nat) : Int := (s.deliveredFrom.getD p []).getD k 0

/-- `log[p]`. -/
def logAt (s : Ordering) (p : Nat) : List Int := s.log.getD p []

/-- `sent[k]`. -/
def sentBy (s : Ordering) (k : Nat) : Int := s.sent.getD k 0

/-- `deliverable`: may `dest` deliver `m` now? -/
def deliverable (s : Ordering) (m : Ordered) (dest : Nat) : Bool :=
  match s.order with
  | .fifo => decide (s.count dest m.sender + 1 = m.seq)
  | .causal =>
    if s.count dest m.sender + 1 ≠ m.seq then false
    else (List.range s.n).all fun k => k == m.sender || decide (m.clock.getD k 0 ≤ s.count dest k)
  | .total => decide ((s.logAt dest).length + 1 = m.slot)

/-- The state `init` leaves under an order. -/
def start (n : Nat) (order : Order) : Ordering where
  n := n
  order := order
  deliveredFrom := List.replicate n (List.replicate n 0)
  log := List.replicate n []
  sent := List.replicate n 0
  queue := []
  nextId := 1
  nextSlot := 1

def noProcess (i : Nat) : Value := err ("no process " ++ toString i)

/-- `send`: one message, tagged with what the sender has seen. -/
def send (s : Ordering) (sender : Nat) : Handled Ordering :=
  if s.n ≤ sender then some (s, noProcess sender)
  else
    (addI64 (s.sentBy sender) 1).bind fun seq =>
    (addI64 s.nextId 1).bind fun nextId =>
    (addI64 s.nextSlot 1).map fun nextSlot =>
      ({ s with
          sent := s.sent.set sender seq
          nextId := nextId
          nextSlot := nextSlot
          queue := s.queue ++ [⟨s.nextId, sender, seq, s.deliveredFrom.getD sender [], s.nextSlot⟩] },
        .obj [("ok", .bool true), ("id", .num s.nextId), ("seq", .num seq), ("slot", .num s.nextSlot)])

/-- A message delivered to `dest`. -/
def deliver (s : Ordering) (m : Ordered) (dest : Nat) : Ordering :=
  { s with
    deliveredFrom := s.deliveredFrom.modify dest fun row => row.set m.sender m.seq
    log := s.log.modify dest fun l => l ++ [m.id] }

/-- An offer that does not deliver. -/
def refused (reason : String) (rest : List (String × Value)) : Value :=
  .obj ([("ok", .bool true), ("delivered", .bool false), ("reason", .str reason)] ++ rest)

/-- `offer`: the network offers one message to one process. -/
def offer (s : Ordering) (id : Int) (dest : Nat) : Ordering × Value :=
  if s.n ≤ dest then (s, noProcess dest)
  else
    match s.queue.find? fun m => m.id == id with
    | none => (s, err ("no message " ++ toString id))
    | some m =>
      if id ∈ s.logAt dest then (s, refused "already delivered" [])
      else if s.deliverable m dest = false then
        (s, refused "held back" [("order", .str s.order.text)])
      else
        (s.deliver m dest,
          .obj [("ok", .bool true), ("delivered", .bool true), ("id", .num id), ("to", .num dest)])

def logValue (l : List Int) : Value := .arr (l.map .num)

/-- `log`. -/
def logOf (s : Ordering) (i : Nat) : Value :=
  if s.n ≤ i then noProcess i
  else .obj [("ok", .bool true), ("process", .num i), ("log", logValue (s.logAt i))]

def state (s : Ordering) : Value :=
  .obj [("ok", .bool true), ("order", .str s.order.text), ("logs", .arr (s.log.map logValue)),
    ("queued", .num s.queue.length)]

/-- `order`. -/
def setOrder [Host] (s : Ordering) (w : String) : Ordering × Value :=
  let set (order : Order) : Ordering × Value :=
    ({ s with order := order }, .obj [("ok", .bool true), ("order", .str order.text)])
  match w with
  | "fifo" => set .fifo
  | "causal" => set .causal
  | "total" => set .total
  | other => (s, err ("unknown order " ++ debugStr other))

def step [Host] (s : Ordering) (command : String) (args : List String) : Handled Ordering :=
  match command with
  | "init" => arg s (uint args 0) fun n =>
    if n = 0 then some (s, err "a group needs at least one process")
    else some (start n s.order, .obj [("ok", .bool true), ("processes", .num n),
      ("order", .str s.order.text)])
  | "order" => arg s (word args 0) fun w => some (s.setOrder w)
  | "send" => arg s (uint args 0) fun sender => s.send sender
  | "offer" => arg s (int args 0) fun id => arg s (uint args 1) fun dest => some (s.offer id dest)
  | "log" => arg s (uint args 0) fun i => some (s, s.logOf i)
  | "state" => some (s, s.state)
  | other => some (s, err ("unknown command " ++ debugStr other))

end Ordering

end BuildYourOwn.Group

/-!
## What each order guarantees

`deliverable` compares counters; what it guarantees is about messages and about who had sent or
delivered what before. The two are tied by the messages of one sender in the order it sent them
(`own`): their sequence numbers are their positions (`Base.seqs`), and under FIFO and causal order what
a process has delivered of a sender is the first `count` of them (`Taken`).

* A message that its sender had sent or delivered before is one that the sequence number or the clock
  of the later one covers (`Covers`).
* Under causal order nothing is delivered before what it covers (`Ahead`): what a deliverable message
  covers has been delivered (**`covered_delivered`**).
* Under total order a log is the first messages of the queue (`InSlots`).
-/

namespace BuildYourOwn.Group.Ordering

open Lib Topic

variable {s : Ordering} {m m₁ m₂ : Ordered} {dest p k : Nat}

/-! ## Happened before -/

/-- Message `b` was sent by a process that had sent or delivered message `a` before. -/
def Precedes (es : List (Event Ordering Line Value)) (a b : Int) : Prop :=
  ∃ e ∈ es, e.input.command = "send" ∧ e.output.numAt "id" = some b ∧
    ∃ p, uint e.input.args 0 = .ok p ∧
      ((∃ m ∈ e.before.queue, m.id = a ∧ m.sender = p) ∨ a ∈ e.before.logAt p)

/-- No process has a message in its log without what happened before it earlier in the log. -/
def Causal (es : List (Event Ordering Line Value)) (s : Ordering) : Prop :=
  ∀ a b, Relation.TransGen (Precedes es) a b →
    ∀ p l₁ l₂, s.logAt p = l₁ ++ b :: l₂ → a ∈ l₁

def own (s : Ordering) (k : Nat) : List Ordered := s.queue.filter fun m => m.sender == k

def idsOf (s : Ordering) (k : Nat) : List Int := (s.own k).map (·.id)

def Fifo (s : Ordering) : Prop :=
  ∀ p k, (s.logAt p).filter (fun id => decide (id ∈ s.idsOf k)) <+: s.idsOf k

theorem causal_of_precedes {es : List (Event Ordering Line Value)}
    (h : ∀ a b, Precedes es a b → ∀ p l₁ l₂, s.logAt p = l₁ ++ b :: l₂ → a ∈ l₁) : Causal es s := by
  intro a b hab
  induction hab with
  | single hab => exact h _ _ hab
  | tail _ hcb ih =>
    intro p l₁ l₂ hlog
    obtain ⟨l₃, l₄, rfl⟩ := List.append_of_mem (h _ _ hcb p l₁ l₂ hlog)
    rw [List.append_assoc, List.cons_append] at hlog
    exact List.mem_append_left _ (ih p l₃ _ hlog)

/-! ## The invariant of every order -/

structure Base (s : Ordering) : Prop where
  rows : s.deliveredFrom.length = s.n
  row : ∀ r ∈ s.deliveredFrom, r.length = s.n
  logs : s.log.length = s.n
  sents : s.sent.length = s.n
  senders : ∀ m ∈ s.queue, m.sender < s.n
  ids : ∀ (j : Nat) m, s.queue[j]? = some m → m.id = j + 1 ∧ m.slot = j + 1
  next : s.nextId = s.queue.length + 1 ∧ s.nextSlot = s.queue.length + 1
  seqs : ∀ (k j : Nat) m, (s.own k)[j]? = some m → m.seq = j + 1
  sent : ∀ k < s.n, s.sentBy k = (s.own k).length
  logged : ∀ p, ∀ id ∈ s.logAt p, ∃ m ∈ s.queue, m.id = id
  counts : ∀ p k, 0 ≤ s.count p k ∧ s.count p k ≤ (s.own k).length
  clocks : ∀ m ∈ s.queue, ∀ k, m.clock.getD k 0 ≤ (s.own k).length
  ownClock : ∀ m ∈ s.queue, m.clock.getD m.sender 0 < m.seq

theorem mem_own : m ∈ s.own k ↔ m ∈ s.queue ∧ m.sender = k := by
  unfold own
  rw [List.mem_filter, beq_iff_eq]

theorem Base.eq_of_id (h : Base s) (h₁ : m₁ ∈ s.queue) (h₂ : m₂ ∈ s.queue) (hid : m₁.id = m₂.id) : m₁ = m₂ := by
  obtain ⟨j₁, hj₁⟩ := List.mem_iff_getElem?.mp h₁
  obtain ⟨j₂, hj₂⟩ := List.mem_iff_getElem?.mp h₂
  have hj : j₁ = j₂ := by
    have h1 := (h.ids j₁ m₁ hj₁).1
    have h2 := (h.ids j₂ m₂ hj₂).1
    omega
  rw [hj] at hj₁
  exact Option.mem_unique hj₁ hj₂

theorem Base.mem_idsOf (h : Base s) (hm : m ∈ s.queue) : m.id ∈ s.idsOf k ↔ m.sender = k := by
  unfold idsOf
  rw [List.mem_map]
  constructor
  · rintro ⟨m', hm', hid⟩
    obtain ⟨hq, hs⟩ := mem_own.mp hm'
    rw [← h.eq_of_id hq hm hid]
    exact hs
  · intro hs
    exact ⟨m, mem_own.mpr ⟨hm, hs⟩, rfl⟩

theorem Base.own_get (h : Base s) (hm : m ∈ s.queue) : ∃ j : Nat, (s.own m.sender)[j]? = some m ∧ m.seq = j + 1 := by
  obtain ⟨j, hj⟩ := List.mem_iff_getElem?.mp (mem_own.mpr ⟨hm, rfl⟩)
  exact ⟨j, hj, h.seqs m.sender j m hj⟩

theorem Base.seq_le (h : Base s) (hm : m ∈ s.queue) : 1 ≤ m.seq ∧ m.seq ≤ (s.own m.sender).length := by
  obtain ⟨j, hj, hseq⟩ := h.own_get hm
  have hlt := (List.getElem?_eq_some_iff.mp hj).1
  omega

/-! ## FIFO -/

/-- What a process has delivered of a sender is the first of its messages, as many as it counts. -/
def Taken (s : Ordering) : Prop :=
  ∀ p k, (s.logAt p).filter (fun id => decide (id ∈ s.idsOf k)) =
    (s.idsOf k).take (s.count p k).toNat

theorem Taken.fifo (h : Taken s) : Fifo s := by
  intro p k
  rw [h p k]
  exact List.take_prefix ..

/-- **Counters and logs agree**: a message is in a log when its sequence number is not above the
count. -/
theorem Taken.mem_log (h : Taken s) (hb : Base s) (hm : m ∈ s.queue) :
    m.id ∈ s.logAt p ↔ m.seq ≤ s.count p m.sender := by
  obtain ⟨j, hj, hseq⟩ := hb.own_get hm
  have hpos := (hb.counts p m.sender).1
  have hmem : m.id ∈ s.logAt p ↔ m.id ∈ (s.idsOf m.sender).take (s.count p m.sender).toNat := by
    rw [← h p m.sender, List.mem_filter, decide_eq_true_eq]
    exact ⟨fun hin => ⟨hin, (hb.mem_idsOf hm).mpr rfl⟩, And.left⟩
  rw [hmem]
  unfold idsOf
  rw [← List.map_take, List.mem_map]
  constructor
  · rintro ⟨m', hm', hid⟩
    obtain ⟨j', hj'⟩ := List.mem_iff_getElem?.mp hm'
    rw [List.getElem?_take] at hj'
    split at hj'
    · rename_i hlt
      have hown := mem_own.mp (List.mem_of_getElem? hj')
      obtain rfl := hb.eq_of_id hown.1 hm hid
      have hseq' := hb.seqs _ j' m' hj'
      omega
    · cases hj'
  · intro hle
    refine ⟨m, List.mem_of_getElem? (i := j) ?_, rfl⟩
    rw [List.getElem?_take_of_lt (by omega)]
    exact hj

/-! ## Sending -/

/-- The message that a process sends next. -/
def newMsg (s : Ordering) (sender : Nat) : Ordered :=
  ⟨s.nextId, sender, s.sentBy sender + 1, s.deliveredFrom.getD sender [], s.nextSlot⟩

def sendState (s : Ordering) (sender : Nat) : Ordering :=
  { s with
    sent := s.sent.set sender (s.sentBy sender + 1)
    nextId := s.nextId + 1
    nextSlot := s.nextSlot + 1
    queue := s.queue ++ [s.newMsg sender] }

theorem own_sendState (s : Ordering) (sender k : Nat) :
    (s.sendState sender).own k = s.own k ++ if sender = k then [s.newMsg sender] else [] := by
  unfold own sendState
  rw [List.filter_append]
  by_cases hk : sender = k
  · rw [if_pos hk, List.filter_cons_of_pos (by simpa [newMsg] using hk), List.filter_nil]
  · rw [if_neg hk, List.filter_cons_of_neg (by simpa [newMsg] using hk), List.filter_nil]

theorem length_own_sendState (s : Ordering) (sender k : Nat) :
    (s.own k).length ≤ ((s.sendState sender).own k).length := by
  rw [own_sendState, List.length_append]
  exact Nat.le_add_right ..

/-- **A send** keeps the counters right. -/
theorem Base.sendState (h : Base s) {sender : Nat} (hs : sender < s.n) : Base (s.sendState sender) where
  rows := h.rows
  row := h.row
  logs := h.logs
  sents := (List.length_set ..).trans h.sents
  senders m hm := by
    rcases List.mem_append.mp hm with hm | hm
    · exact h.senders m hm
    · rw [List.mem_singleton.mp hm]
      exact hs
  ids j m hj := by
    rw [show (s.sendState sender).queue = s.queue ++ [s.newMsg sender] from rfl,
      List.getElem?_append] at hj
    split at hj
    · exact h.ids j m hj
    · rename_i hge
      rw [List.getElem?_singleton] at hj
      split at hj
      · cases hj
        have hnext := h.next
        unfold newMsg
        dsimp only
        omega
      · cases hj
  next := by
    have hnext := h.next
    unfold Ordering.sendState
    dsimp only
    rw [List.length_append, List.length_singleton]
    omega
  seqs k j m hj := by
    rw [own_sendState, List.getElem?_append] at hj
    split at hj
    · exact h.seqs k j m hj
    · rename_i hge
      split at hj
      · rename_i hk
        rw [List.getElem?_singleton] at hj
        split at hj
        · cases hj
          have hsent := h.sent sender hs
          subst hk
          unfold newMsg
          dsimp only
          omega
        · cases hj
      · cases hj
  sent k hk := by
    have hsent := h.sent k hk
    have hlen : sender < s.sent.length := h.sents ▸ hs
    rw [own_sendState, List.length_append]
    unfold sentBy Ordering.sendState
    rw [List.getD_eq_getElem?_getD]
    by_cases heq : sender = k
    · subst heq
      rw [List.getElem?_set_self hlen, if_pos rfl, List.length_singleton]
      show s.sentBy sender + 1 = _
      omega
    · rw [List.getElem?_set_ne heq, if_neg heq, ← List.getD_eq_getElem?_getD]
      exact hsent
  logged p id hid := by
    obtain ⟨m, hm, hmid⟩ := h.logged p id hid
    exact ⟨m, List.mem_append_left _ hm, hmid⟩
  counts p k := by
    obtain ⟨hpos, hle⟩ := h.counts p k
    have hmono := length_own_sendState s sender k
    refine ⟨hpos, ?_⟩
    show s.count p k ≤ _
    omega
  clocks m hm k := by
    have hmono := length_own_sendState s sender k
    rcases List.mem_append.mp hm with hm | hm
    · have hle := h.clocks m hm k
      omega
    · rw [List.mem_singleton.mp hm]
      have hle : s.count sender k ≤ _ := (h.counts sender k).2
      show s.count sender k ≤ _
      omega
  ownClock m hm := by
    rcases List.mem_append.mp hm with hm | hm
    · exact h.ownClock m hm
    · rw [List.mem_singleton.mp hm]
      have hle := (h.counts sender sender).2
      have hsent := h.sent sender hs
      show s.count sender sender < s.sentBy sender + 1
      omega

theorem idsOf_sendState (s : Ordering) (sender k : Nat) :
    (s.sendState sender).idsOf k = s.idsOf k ++ if sender = k then [s.nextId] else [] := by
  unfold idsOf
  rw [own_sendState, List.map_append]
  split
  · rfl
  · rfl

theorem Base.nextId_not_logged (h : Base s) (p : Nat) : s.nextId ∉ s.logAt p := by
  intro hin
  obtain ⟨m, hm, hid⟩ := h.logged p s.nextId hin
  obtain ⟨j, hj⟩ := List.mem_iff_getElem?.mp hm
  have hlt := (List.getElem?_eq_some_iff.mp hj).1
  have hid' := (h.ids j m hj).1
  have hnext := h.next.1
  omega

theorem Taken.sendState (h : Taken s) (hb : Base s) (sender : Nat) : Taken (s.sendState sender) := by
  intro p k
  have hle := (hb.counts p k).2
  have hpos := (hb.counts p k).1
  have hlen : (s.idsOf k).length = (s.own k).length := List.length_map _
  have hfilter : ∀ id ∈ s.logAt p, decide (id ∈ (s.sendState sender).idsOf k) =
      decide (id ∈ s.idsOf k) := by
    intro id hid
    have hne : id ≠ s.nextId := fun e => hb.nextId_not_logged p (e ▸ hid)
    rw [idsOf_sendState]
    split
    · simp [hne]
    · simp
  show (s.logAt p).filter _ = ((s.sendState sender).idsOf k).take (s.count p k).toNat
  rw [List.filter_congr hfilter, h p k, idsOf_sendState, List.take_append_of_le_length (by omega)]

/-! ## Delivering -/

theorem logAt_deliver (h : Base s) (hd : dest < s.n) (m : Ordered) (p : Nat) :
    (s.deliver m dest).logAt p = if p = dest then s.logAt p ++ [m.id] else s.logAt p := by
  unfold logAt deliver
  rw [List.getD_eq_getElem?_getD, List.getD_eq_getElem?_getD, List.getElem?_modify]
  by_cases hp : p = dest
  · subst hp
    rw [if_pos rfl, List.getElem?_eq_getElem (h.logs ▸ hd)]
    simp
  · have hp' : dest ≠ p := Ne.symm hp
    rw [if_neg hp]
    cases s.log[p]? with
    | none => rfl
    | some l => simp [hp']

theorem count_deliver (h : Base s) (hd : dest < s.n) (hm : m.sender < s.n) (p k : Nat) :
    (s.deliver m dest).count p k = if p = dest ∧ k = m.sender then m.seq else s.count p k := by
  unfold count deliver
  rw [List.getD_eq_getElem?_getD (l := List.modify ..), List.getD_eq_getElem?_getD (a := []),
    List.getElem?_modify]
  by_cases hp : p = dest
  · subst hp
    obtain ⟨row, hget⟩ : ∃ row, s.deliveredFrom[p]? = some row :=
      ⟨_, List.getElem?_eq_getElem (h.rows ▸ hd)⟩
    have hrow := h.row row (List.mem_of_getElem? hget)
    have hself : (fun r : List Int => if p = p then r.set m.sender m.seq else r) =
        fun r => r.set m.sender m.seq := by
      funext r
      rw [if_pos rfl]
    rw [hget, hself]
    show (row.set m.sender m.seq).getD k 0 =
      if p = p ∧ k = m.sender then m.seq else row.getD k 0
    rw [List.getD_eq_getElem?_getD]
    by_cases hk : k = m.sender
    · rw [if_pos ⟨rfl, hk⟩, hk, List.getElem?_set_self (by omega)]
      rfl
    · rw [if_neg fun hpk => hk hpk.2, List.getElem?_set_ne (Ne.symm hk),
        ← List.getD_eq_getElem?_getD]
  · have hp' : dest ≠ p := Ne.symm hp
    rw [if_neg fun hpk => hp hpk.1]
    cases s.deliveredFrom[p]? with
    | none => rfl
    | some r => simp [hp']

/-- **A delivery** keeps the counters right. -/
theorem Base.deliver (h : Base s) (hd : dest < s.n) (hm : m ∈ s.queue) : Base (s.deliver m dest) where
  rows := (List.length_modify ..).trans h.rows
  row r hr := by
    obtain ⟨j, hj⟩ := List.mem_iff_getElem?.mp hr
    rw [show (s.deliver m dest).deliveredFrom = s.deliveredFrom.modify dest _ from rfl,
      List.getElem?_modify] at hj
    obtain ⟨r', hr', rfl⟩ := Option.map_eq_some_iff.mp hj
    have hlen := h.row r' (List.mem_of_getElem? hr')
    split
    · rw [List.length_set]
      exact hlen
    · exact hlen
  logs := (List.length_modify ..).trans h.logs
  sents := h.sents
  senders := h.senders
  ids := h.ids
  next := h.next
  seqs := h.seqs
  sent := h.sent
  logged p id hid := by
    rw [logAt_deliver h hd] at hid
    split at hid
    · rcases List.mem_append.mp hid with hid | hid
      · exact h.logged p id hid
      · exact ⟨m, hm, (List.mem_singleton.mp hid).symm⟩
    · exact h.logged p id hid
  counts p k := by
    rw [count_deliver h hd (h.senders m hm)]
    split
    · rename_i hpk
      obtain ⟨hpos, hle⟩ := h.seq_le hm
      rw [hpk.2]
      exact ⟨by omega, hle⟩
    · exact h.counts p k
  clocks := h.clocks
  ownClock := h.ownClock

theorem Taken.deliver (h : Taken s) (hb : Base s) (hd : dest < s.n) (hm : m ∈ s.queue)
    (hseq : s.count dest m.sender + 1 = m.seq) : Taken (s.deliver m dest) := by
  intro p k
  show ((s.deliver m dest).logAt p).filter (fun id => decide (id ∈ s.idsOf k)) =
    (s.idsOf k).take ((s.deliver m dest).count p k).toNat
  rw [logAt_deliver hb hd, count_deliver hb hd (hb.senders m hm)]
  by_cases hp : p = dest
  · subst hp
    rw [if_pos rfl, List.filter_append, h p k]
    by_cases hk : k = m.sender
    · subst hk
      obtain ⟨j, hj, hjseq⟩ := hb.own_get hm
      have hcount : (s.count p m.sender).toNat = j := by omega
      have hnext : (s.idsOf m.sender)[j]? = some m.id := by
        unfold idsOf
        rw [List.getElem?_map, hj]
        rfl
      rw [if_pos ⟨rfl, rfl⟩, List.filter_cons_of_pos (by simpa using (hb.mem_idsOf hm).mpr rfl),
        List.filter_nil, hcount, show m.seq.toNat = j + 1 by omega, List.take_add_one, hnext]
      rfl
    · have hnot : m.id ∉ s.idsOf k := fun hin => hk ((hb.mem_idsOf hm).mp hin).symm
      rw [if_neg fun hpk => hk hpk.2, List.filter_cons_of_neg (by simpa using hnot), List.filter_nil,
        List.append_nil]
  · rw [if_neg hp, if_neg fun hpk => hp hpk.1]
    exact h p k

/-! ## Causal order -/

def Covers (m₁ m₂ : Ordered) : Prop :=
  m₁.sender = m₂.sender ∧ m₁.seq < m₂.seq ∨ m₁.seq ≤ m₂.clock.getD m₁.sender 0

/-- No message is in a log without what it covers earlier in the log. -/
def Ahead (s : Ordering) : Prop :=
  ∀ p l₁ l₂, ∀ m₂ ∈ s.queue, s.logAt p = l₁ ++ m₂.id :: l₂ →
    ∀ m₁ ∈ s.queue, Covers m₁ m₂ → m₁.id ∈ l₁

theorem Base.not_covers_new (hb : Base s) {sender : Nat} (hs : sender < s.n) (hm : m ∈ s.queue) :
    ¬ Covers (s.newMsg sender) m := by
  have hsent := hb.sent sender hs
  rintro (⟨hsender, hlt⟩ | hle)
  · have hseq := (hb.seq_le hm).2
    rw [← hsender] at hseq
    have hlt : s.sentBy sender + 1 < m.seq := hlt
    have hseq : m.seq ≤ (s.own sender).length := hseq
    omega
  · have hclock := hb.clocks m hm sender
    have hle : s.sentBy sender + 1 ≤ m.clock.getD sender 0 := hle
    omega

theorem Ahead.sendState (h : Ahead s) (hb : Base s) {sender : Nat} (hs : sender < s.n) :
    Ahead (s.sendState sender) := by
  intro p l₁ l₂ m₂ hm₂ hlog m₁ hm₁ hcovers
  have hlog : s.logAt p = l₁ ++ m₂.id :: l₂ := hlog
  have hold : m₂ ∈ s.queue := by
    rcases List.mem_append.mp hm₂ with hm₂ | hm₂
    · exact hm₂
    · rw [List.mem_singleton.mp hm₂] at hlog
      exact absurd (hlog ▸ List.mem_append_right l₁ List.mem_cons_self)
        (hb.nextId_not_logged p)
  rcases List.mem_append.mp hm₁ with hm₁ | hm₁
  · exact h p l₁ l₂ m₂ hold hlog m₁ hm₁ hcovers
  · rw [List.mem_singleton.mp hm₁] at hcovers
    exact absurd hcovers (hb.not_covers_new hs hold)

theorem covered_delivered (hb : Base s) (ht : Taken s) (hm₁ : m₁ ∈ s.queue) (hm₂ : m₂ ∈ s.queue)
    (hseq : s.count dest m₂.sender + 1 = m₂.seq)
    (hclock : ∀ k < s.n, k ≠ m₂.sender → m₂.clock.getD k 0 ≤ s.count dest k)
    (hcovers : Covers m₁ m₂) : m₁.id ∈ s.logAt dest := by
  rw [ht.mem_log hb hm₁]
  have hown := hb.ownClock m₂ hm₂
  rcases hcovers with ⟨hsender, hlt⟩ | hle
  · rw [hsender]
    omega
  · by_cases hsender : m₁.sender = m₂.sender
    · rw [hsender] at hle ⊢
      omega
    · have hk := hclock m₁.sender (hb.senders m₁ hm₁) hsender
      omega

theorem Ahead.deliver (h : Ahead s) (hb : Base s) (ht : Taken s) (hd : dest < s.n)
    (hm : m ∈ s.queue) (hseq : s.count dest m.sender + 1 = m.seq)
    (hclock : ∀ k < s.n, k ≠ m.sender → m.clock.getD k 0 ≤ s.count dest k) : Ahead (s.deliver m dest) := by
  intro p l₁ l₂ m₂ hm₂ hlog m₁ hm₁ hcovers
  rw [logAt_deliver hb hd] at hlog
  by_cases hp : p = dest
  · rw [if_pos hp] at hlog
    rcases List.eq_nil_or_concat l₂ with rfl | ⟨l₃, x, rfl⟩
    · -- the message just delivered
      obtain ⟨hl₁, hid⟩ := List.append_inj' hlog rfl
      obtain rfl := hb.eq_of_id hm hm₂ (List.singleton_inj.mp hid)
      rw [← hl₁, hp]
      exact covered_delivered hb ht hm₁ hm hseq hclock hcovers
    · rw [List.concat_eq_append, ← List.cons_append, ← List.append_assoc] at hlog
      exact h p l₁ l₃ m₂ hm₂ (List.append_inj' hlog rfl).1 m₁ hm₁ hcovers
  · rw [if_neg hp] at hlog
    exact h p l₁ l₂ m₂ hm₂ hlog m₁ hm₁ hcovers

/-! ## Total order -/

/-- A log is the first messages of the queue. -/
def InSlots (s : Ordering) : Prop :=
  ∀ p, s.logAt p = (s.queue.map (·.id)).take (s.logAt p).length

theorem InSlots.sendState (h : InSlots s) (sender : Nat) : InSlots (s.sendState sender) := by
  intro p
  have hp := h p
  have hlen : (s.logAt p).length ≤ (s.queue.map (·.id)).length := by
    rw [hp, List.length_take]
    exact Nat.min_le_right ..
  show s.logAt p = ((s.queue ++ [s.newMsg sender]).map (·.id)).take (s.logAt p).length
  rw [List.map_append, List.take_append_of_le_length hlen]
  exact hp

theorem InSlots.deliver (h : InSlots s) (hb : Base s) (hd : dest < s.n) (hm : m ∈ s.queue)
    (hslot : (s.logAt dest).length + 1 = m.slot) : InSlots (s.deliver m dest) := by
  intro p
  show (s.deliver m dest).logAt p = (s.queue.map (·.id)).take ((s.deliver m dest).logAt p).length
  rw [logAt_deliver hb hd]
  by_cases hp : p = dest
  · subst hp
    obtain ⟨j, hj⟩ := List.mem_iff_getElem?.mp hm
    have hjslot := (hb.ids j m hj).2
    have hlen : (s.logAt p).length = j := by omega
    have hnext : (s.queue.map (·.id))[j]? = some m.id := by
      rw [List.getElem?_map, hj]
      rfl
    have hlog := h p
    rw [hlen] at hlog
    rw [if_pos rfl, List.length_append, List.length_singleton, hlen, List.take_add_one, hnext, ← hlog]
    rfl
  · rw [if_neg hp]
    exact h p

end BuildYourOwn.Group.Ordering
