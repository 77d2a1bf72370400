import Mathlib.Data.List.Induction
import BuildYourOwn.Lib.MarkedChannel
import BuildYourOwn.Topic.Command
import BuildYourOwn.Topic.Map

/-!
# `snapshot`: Chandy and Lamport's snapshot

Model of `Item`, `Link` and `Snapshot` in `disttest/examples/prim/protocols.rs`: processes with
balances, a FIFO queue a channel, and one snapshot in progress.

* `record` runs the first time a process sees a marker, or when it starts a snapshot.
* What is under way on a channel counts between its receiver's recording and its own marker.
* A balance, an amount on a channel or a total that leaves `i64` panics. `in_flight` is counted
  without a bound.
-/

namespace BuildYourOwn.Protocols

open Topic

/-- `Item`: what travels down a channel. -/
inductive Item
  | money (amount : Int)
  | marker
  deriving DecidableEq

/-- `Link`: a directed channel, named by its two ends. -/
abbrev Link := String × String

/-- `a - b` on `i64`: `none` is the overflow panic. -/
def subI64 (a b : Int) : Option Int := if inI64 (a - b) then some (a - b) else none

/-- `Iterator::sum::<i64>`. -/
def sumI64 (l : List Int) : Option Int := l.foldlM addI64 0

structure Snapshot where
  balances : StringMap Int
  channels : PairMap (List Item)
  started : Bool
  balanceAt : StringMap Int
  inChannel : PairMap Int
  closed : PairSet

namespace Snapshot

/-- `Snapshot::default()`. -/
def default : Snapshot := ⟨∅, ∅, false, ∅, ∅, ∅⟩

/-- A marker at the end of every queue that leaves `p`. -/
def sendMarkers (channels : PairMap (List Item)) (p : String) : PairMap (List Item) :=
  channels.map fun link queue => if link.1 = p then queue ++ [.marker] else queue

/-- `in_channel.entry(link).or_insert(0)`, for a channel that is not closed. -/
def openLink (closed : PairSet) (inChannel : PairMap Int) (link : Link) : PairMap Int :=
  if link ∈ closed then inChannel else inChannel.insert link (inChannel.getD link 0)

/-- `record`: the first time only. -/
def record (s : Snapshot) (p : String) : Snapshot :=
  if p ∈ s.balanceAt then s
  else
    { s with
      balanceAt := s.balanceAt.insert p (s.balances.getD p 0)
      channels := sendMarkers s.channels p
      inChannel := (s.channels.keys.filter fun link => link.2 == p).foldl (openLink s.closed)
        s.inChannel }

def isMoney : Item → Bool
  | .money _ => true
  | .marker => false

def inFlight (s : Snapshot) : Nat := ((s.channels.toList.flatMap Prod.snd).filter isMoney).length

/-- `send`, along a channel that is created on first use. -/
def send (s : Snapshot) (link : Link) (amount : Int) : Handled Snapshot :=
  match s.balances[link.1]? with
  | none => some (s, err ("no process " ++ link.1))
  | some balance =>
    (subI64 balance amount).map fun left =>
      let s := { s with
        channels := s.channels.insert link (s.channels.getD link [] ++ [.money amount])
        balances := s.balances.insert link.1 left }
      (s, .obj [("in_flight", .num s.inFlight)])

/-- A marker that arrives, with `rest` behind it. -/
def takeMarker (s : Snapshot) (link : Link) (rest : List Item) : Snapshot :=
  let s := { s with channels := s.channels.insert link rest }.record link.2
  { s with
    inChannel := s.inChannel.insert link (s.inChannel.getD link 0)
    closed := s.closed.insert link }

def recording (s : Snapshot) (link : Link) : Bool :=
  s.started && decide (link.2 ∈ s.balanceAt) && decide (link ∉ s.closed)

/-- Money that arrives, with `rest` behind it. -/
def takeMoney (s : Snapshot) (link : Link) (amount : Int) (rest : List Item) : Option Snapshot :=
  (addI64 (s.balances.getD link.2 0) amount).bind fun balance =>
    let s := { s with
      channels := s.channels.insert link rest
      balances := s.balances.insert link.2 balance }
    if s.recording link then
      (addI64 (s.inChannel.getD link 0) amount).map fun found =>
        { s with inChannel := s.inChannel.insert link found }
    else some s

/-- A channel as the messages name it. -/
def linkText (link : Link) : String := link.1 ++ "->" ++ link.2

def deliver (s : Snapshot) (link : Link) : Handled Snapshot :=
  match s.channels[link]? with
  | none => some (s, err ("no channel " ++ linkText link))
  | some [] => some (s, err ("channel " ++ linkText link ++ " is empty"))
  | some (item :: rest) =>
    let taken := match item with
      | .marker => some (s.takeMarker link rest)
      | .money amount => s.takeMoney link amount rest
    taken.map fun s => (s, .obj [("balance", .num (s.balances.getD link.2 0))])

def cleared (s : Snapshot) : Snapshot :=
  { s with
    channels := s.channels.map fun _ (queue : List Item) => queue.filter isMoney
    balanceAt := ∅
    inChannel := ∅
    closed := ∅
    started := true }

/-- `snapshot`: a new one supersedes whatever the last one left behind. -/
def snapshot (s : Snapshot) (p : String) : Snapshot × Value :=
  if p ∈ s.balances then (s.cleared.record p, .obj [("started", .bool true)])
  else (s, err ("no process " ++ p))

def complete (s : Snapshot) : Bool :=
  s.started && s.balances.keys.all (fun p => decide (p ∈ s.balanceAt)) &&
    s.channels.keys.all fun link => decide (link ∈ s.closed)

def total (s : Snapshot) : Option Int :=
  (sumI64 (s.balanceAt.toList.map Prod.snd)).bind fun balances =>
  (sumI64 (s.inChannel.toList.map Prod.snd)).bind fun inChannel => addI64 balances inChannel

def channelTexts (s : Snapshot) : StringMap Int :=
  s.inChannel.toList.foldl (fun m e => m.insert (linkText e.1) e.2) ∅

def result (s : Snapshot) : Option Value :=
  s.total.map fun total => .obj [("complete", .bool s.complete), ("total", .num total),
    ("balances", .obj (s.balanceAt.toList.map fun e => (e.1, .num e.2))),
    ("channels", .obj (s.channelTexts.toList.map fun e => (e.1, .num e.2)))]

/-- `Snapshot::run`. -/
def step [Host] (s : Snapshot) (command : String) (args : List String) : Handled Snapshot :=
  match command with
  | "init" => arg s (word args 0) fun p => arg s (int args 1) fun balance =>
    let s := { s with balances := s.balances.insert p balance }
    some (s, .obj [("processes", .num s.balances.size)])
  | "channel" => arg s (word args 0) fun source => arg s (word args 1) fun dest =>
    let s := { s with
      channels := s.channels.insert (source, dest) (s.channels.getD (source, dest) []) }
    some (s, .obj [("channels", .num s.channels.size)])
  | "send" => arg s (word args 0) fun source => arg s (word args 1) fun dest =>
    arg s (int args 2) fun amount => s.send (source, dest) amount
  | "deliver" => arg s (word args 0) fun source => arg s (word args 1) fun dest =>
    s.deliver (source, dest)
  | "snapshot" => arg s (word args 0) fun p => some (s.snapshot p)
  | "result" => s.result.map fun v => (s, v)
  | other => some (s, err ("unknown command " ++ debugStr other))

end Snapshot

end BuildYourOwn.Protocols

/-!
## What a line does to the processes and to one channel

`moveOf` reads off a line and the state what the line will do (`step_moves`). From the moves of a run
come what was sent and delivered on a channel, and when a process recorded (`recordedAfter`): together
with the state they make each channel a `Channel` (`channelOf`), which a move changes by the
operations of the library.
-/

namespace BuildYourOwn.Protocols.Snapshot

open Lib Topic

/-! ## Moves -/

/-- What an accepted line does. -/
inductive Move
  | sent (link : Link) (amount : Int)
  | took (link : Link) (amount : Int)
  | marked (link : Link)
  | began (p : String)
  | quiet

def arrival (s : Snapshot) (link : Link) : Move :=
  match s.channels.getD link [] with
  | .money amount :: _ => .took link amount
  | .marker :: _ => .marked link
  | [] => .quiet

/-- What `send` does. -/
def sending (s : Snapshot) (args : List String) : Move :=
  match word args 0, word args 1, int args 2 with
  | .ok source, .ok dest, .ok amount =>
    if source ∈ s.balances then .sent (source, dest) amount else .quiet
  | _, _, _ => .quiet

/-- What `deliver` does. -/
def delivering (s : Snapshot) (args : List String) : Move :=
  match word args 0, word args 1 with
  | .ok source, .ok dest => s.arrival (source, dest)
  | _, _ => .quiet

/-- What `snapshot` does. -/
def beginning (s : Snapshot) (args : List String) : Move :=
  match word args 0 with
  | .ok p => if p ∈ s.balances then .began p else .quiet
  | .error _ => .quiet

def moveOf (s : Snapshot) (l : Line) : Move :=
  match l.command with
  | "send" => s.sending l.args
  | "deliver" => s.delivering l.args
  | "snapshot" => s.beginning l.args
  | _ => .quiet

def Moved (s : Snapshot) : Move → Snapshot → Prop
  | .sent link amount, s' =>
    s' = { s with
      channels := s.channels.insert link (s.channels.getD link [] ++ [.money amount])
      balances := s.balances.insert link.1 (s.balances.getD link.1 0 - amount) }
  | .took link amount, s' => ∃ rest, s.channels[link]? = some (.money amount :: rest) ∧
    s' = { s with
      channels := s.channels.insert link rest
      balances := s.balances.insert link.2 (s.balances.getD link.2 0 + amount)
      inChannel := if s.recording link then
        s.inChannel.insert link (s.inChannel.getD link 0 + amount) else s.inChannel }
  | .marked link, s' => ∃ rest, s.channels[link]? = some (.marker :: rest) ∧
    s' = s.takeMarker link rest
  | .began p, s' => s' = (s.snapshot p).1 ∧ p ∈ s.balances
  | .quiet, s' => s' = s

variable {s s' : Snapshot} {l : Line} {v : Value} {link : Link} {amount : Int} {p : String}

theorem subI64_eq_some {a b c : Int} (h : subI64 a b = some c) : c = a - b := by
  unfold subI64 at h
  split at h
  · exact (Option.some.inj h).symm
  · cases h

theorem moved_send (h : s.send link amount = some (s', v)) :
    Moved s (if link.1 ∈ s.balances then .sent link amount else .quiet) s' := by
  unfold send at h
  split at h
  · rename_i hnone
    rw [Option.some.injEq, Prod.mk.injEq] at h
    rw [if_neg fun hmem => by
      rw [Std.ExtTreeMap.mem_iff_isSome_getElem?, hnone] at hmem
      exact absurd hmem (by simp)]
    exact h.1.symm
  · rename_i balance hsome
    obtain ⟨left, hleft, heq⟩ := Option.map_eq_some_iff.mp h
    rw [Prod.mk.injEq] at heq
    rw [if_pos (Std.ExtTreeMap.mem_iff_isSome_getElem?.mpr (by rw [hsome]; rfl))]
    have hbalance : s.balances.getD link.1 0 = balance := by
      rw [Std.ExtTreeMap.getD_eq_getD_getElem?, hsome, Option.getD_some]
    show s' = _
    rw [← heq.1, subI64_eq_some hleft, hbalance]

theorem moved_deliver (h : s.deliver link = some (s', v)) : Moved s (s.arrival link) s' := by
  unfold arrival
  rw [Std.ExtTreeMap.getD_eq_getD_getElem?]
  unfold deliver at h
  split at h
  · rename_i hnone
    rw [Option.some.injEq, Prod.mk.injEq] at h
    rw [hnone]
    exact h.1.symm
  · rename_i hnil
    rw [Option.some.injEq, Prod.mk.injEq] at h
    rw [hnil]
    exact h.1.symm
  · rename_i item rest hcons
    obtain ⟨s₁, hs₁, heq⟩ := Option.map_eq_some_iff.mp h
    rw [Prod.mk.injEq] at heq
    rw [hcons]
    cases item with
    | marker => exact ⟨rest, hcons, heq.1.symm.trans (Option.some.inj hs₁).symm⟩
    | money amount =>
      refine ⟨rest, hcons, heq.1.symm.trans ?_⟩
      unfold takeMoney at hs₁
      obtain ⟨balance, hbalance, hs₁⟩ := Option.bind_eq_some_iff.mp hs₁
      rw [(addI64_eq_some.mp hbalance).2] at hs₁
      dsimp only at hs₁
      split at hs₁
      · rename_i hrec
        replace hrec : s.recording link = true := hrec
        obtain ⟨found, hfound, rfl⟩ := Option.map_eq_some_iff.mp hs₁
        rw [(addI64_eq_some.mp hfound).2, if_pos hrec]
      · rename_i hrec
        replace hrec : ¬ s.recording link = true := hrec
        rw [if_neg hrec]
        exact (Option.some.inj hs₁).symm

/-- **What a line does**, once the processes and channels are set up. -/
theorem step_moves [Host] (h : onLine step s l = some (s', v)) (hinit : l.command ≠ "init")
    (hchannel : l.command ≠ "channel") : Moved s (moveOf s l) s' := by
  obtain ⟨command, args⟩ := l
  unfold onLine step at h
  dsimp only at h
  split at h
  · exact absurd rfl hinit
  · exact absurd rfl hchannel
  · show Moved s (s.sending args) s'
    unfold sending
    rcases arg_eq_some.mp h with ⟨hsource, rfl⟩ | ⟨source, hsource, h⟩
    · rw [hsource]
      rfl
    rcases arg_eq_some.mp h with ⟨hdest, rfl⟩ | ⟨dest, hdest, h⟩
    · rw [hsource, hdest]
      rfl
    rcases arg_eq_some.mp h with ⟨hamount, rfl⟩ | ⟨amount, hamount, h⟩
    · rw [hsource, hdest, hamount]
      rfl
    rw [hsource, hdest, hamount]
    exact moved_send h
  · show Moved s (s.delivering args) s'
    unfold delivering
    rcases arg_eq_some.mp h with ⟨hsource, rfl⟩ | ⟨source, hsource, h⟩
    · rw [hsource]
      rfl
    rcases arg_eq_some.mp h with ⟨hdest, rfl⟩ | ⟨dest, hdest, h⟩
    · rw [hsource, hdest]
      rfl
    rw [hsource, hdest]
    exact moved_deliver h
  · show Moved s (s.beginning args) s'
    unfold beginning
    rcases arg_eq_some.mp h with ⟨hp, rfl⟩ | ⟨p, hp, h⟩
    · rw [hp]
      rfl
    rw [hp]
    rw [Option.some.injEq] at h
    dsimp only
    split_ifs with hmem
    · exact ⟨(congrArg Prod.fst h).symm, hmem⟩
    · rw [snapshot, if_neg hmem, Prod.mk.injEq] at h
      exact h.1.symm
  · obtain ⟨w, -, heq⟩ := Option.map_eq_some_iff.mp h
    rw [Prod.mk.injEq] at heq
    exact heq.1.symm
  · rename_i hsend hdeliver hsnapshot _
    rw [Option.some.injEq, Prod.mk.injEq] at h
    have hquiet : moveOf s ⟨command, args⟩ = .quiet := by
      unfold moveOf
      dsimp only
      split
      · exact absurd rfl hsend
      · exact absurd rfl hdeliver
      · exact absurd rfl hsnapshot
      · rfl
    rw [hquiet]
    exact h.1.symm

/-! ## Recording -/

theorem openLink_get (closed : PairSet) (m : PairMap Int) (k : Link) : (openLink closed m k)[link]? =
    if k = link ∧ link ∉ closed then some (m.getD link 0) else m[link]? := by
  unfold openLink
  by_cases hk : k = link
  · subst hk
    by_cases hc : k ∈ closed
    · rw [if_pos hc, if_neg fun h => h.2 hc]
    · rw [if_neg hc, if_pos ⟨rfl, hc⟩, PairMap.get_insert, if_pos rfl]
  · rw [if_neg fun h : k = link ∧ link ∉ closed => hk h.1]
    split_ifs
    · rfl
    · rw [PairMap.get_insert, if_neg hk]

theorem openLink_foldl (closed : PairSet) (ks : List Link) (m : PairMap Int) : (ks.foldl (openLink closed) m)[link]? =
      if link ∈ ks ∧ link ∉ closed then some (m.getD link 0) else m[link]? := by
  induction ks generalizing m with
  | nil => simp
  | cons k ks ih =>
    have hgetD : (openLink closed m k).getD link 0 = m.getD link 0 := by
      rw [Std.ExtTreeMap.getD_eq_getD_getElem?, openLink_get]
      split_ifs
      · rfl
      · rw [Std.ExtTreeMap.getD_eq_getD_getElem?]
    rw [List.foldl_cons, ih, openLink_get, hgetD]
    by_cases hc : link ∈ closed
    · simp [hc]
    · by_cases hk : k = link
      · simp [hk, hc]
      · simp [hk, Ne.symm hk]

variable (s p)

@[simp] theorem record_balances : (s.record p).balances = s.balances := by
  unfold record
  split_ifs <;> rfl

@[simp] theorem record_started : (s.record p).started = s.started := by
  unfold record
  split_ifs <;> rfl

@[simp] theorem record_closed : (s.record p).closed = s.closed := by
  unfold record
  split_ifs <;> rfl

theorem record_balanceAt (q : String) : (s.record p).balanceAt[q]? =
    if p = q ∧ p ∉ s.balanceAt then some (s.balances.getD p 0) else s.balanceAt[q]? := by
  unfold record
  by_cases hp : p ∈ s.balanceAt
  · rw [if_pos hp, if_neg fun h => h.2 hp]
  · rw [if_neg hp]
    by_cases hq : p = q
    · rw [if_pos ⟨hq, hp⟩, StringMap.get_insert, if_pos hq]
    · rw [if_neg fun h => hq h.1, StringMap.get_insert, if_neg hq]

theorem record_channels (link : Link) : (s.record p).channels[link]? =
    if p ∉ s.balanceAt ∧ link.1 = p then s.channels[link]?.map (· ++ [.marker])
    else s.channels[link]? := by
  unfold record
  by_cases hp : p ∈ s.balanceAt
  · rw [if_pos hp, if_neg fun h => h.1 hp]
  · rw [if_neg hp]
    dsimp only [sendMarkers]
    rw [Std.ExtTreeMap.getElem?_map]
    by_cases hl : link.1 = p
    · simp only [hp, hl, not_false_eq_true, and_self, if_true]
    · simp only [hl, and_false, if_false]
      exact Option.map_id'

theorem record_inChannel (link : Link) : (s.record p).inChannel[link]? =
    if p ∉ s.balanceAt ∧ link ∈ s.channels ∧ link.2 = p ∧ link ∉ s.closed then
      some (s.inChannel.getD link 0)
    else s.inChannel[link]? := by
  unfold record
  by_cases hp : p ∈ s.balanceAt
  · rw [if_pos hp, if_neg fun h => h.1 hp]
  · rw [if_neg hp]
    rw [openLink_foldl]
    have hmem : link ∈ s.channels.keys.filter (fun link => link.2 == p) ↔
        link ∈ s.channels ∧ link.2 = p := by
      rw [List.mem_filter, Std.ExtTreeMap.mem_keys, beq_iff_eq]
    simp only [hmem, hp, not_false_eq_true, true_and, and_assoc]

/-! ## The history of a channel and of a process -/

def Move.sentOn (link : Link) : Move → List Int
  | .sent l amount => if l = link then [amount] else []
  | _ => []

def Move.deliveredOn (link : Link) : Move → List Int
  | .took l amount => if l = link then [amount] else []
  | _ => []

variable {link₀ : Link}

theorem sentOn_sent : (Move.sent link₀ amount).sentOn link = if link₀ = link then [amount] else [] := rfl

theorem deliveredOn_sent : (Move.sent link₀ amount).deliveredOn link = [] := rfl

theorem sentOn_took : (Move.took link₀ amount).sentOn link = [] := rfl

theorem deliveredOn_took : (Move.took link₀ amount).deliveredOn link = if link₀ = link then [amount] else [] := rfl

def moveAt (e : Event Snapshot Line Value) : Move := moveOf e.before e.input

def sentOn (es : List (Event Snapshot Line Value)) (link : Link) : List Int :=
  es.flatMap fun e => (moveAt e).sentOn link

def deliveredOn (es : List (Event Snapshot Line Value)) (link : Link) : List Int :=
  es.flatMap fun e => (moveAt e).deliveredOn link

def begins (e : Event Snapshot Line Value) : Bool :=
  match moveAt e with
  | .began _ => true
  | _ => false

/-- `p` records its balance at the event: it begins a snapshot, or a marker arrives and it has not
recorded yet. -/
def recordsAt (p : String) (e : Event Snapshot Line Value) : Bool :=
  match moveAt e with
  | .began q => q == p
  | .marked link => link.2 == p && decide (p ∉ e.before.balanceAt)
  | _ => false

/-- One event of `recordedAfter`, with the history so far. -/
def recordedStep (p : String)
    (r : List (Event Snapshot Line Value) × Option (List (Event Snapshot Line Value)))
    (e : Event Snapshot Line Value) :
    List (Event Snapshot Line Value) × Option (List (Event Snapshot Line Value)) :=
  (r.1 ++ [e], if recordsAt p e then some r.1 else if begins e then none else r.2)

/-- The history before `p` recorded in the snapshot in progress, when it has. -/
def recordedAfter (es : List (Event Snapshot Line Value)) (p : String) :
    Option (List (Event Snapshot Line Value)) :=
  (es.foldl (recordedStep p) ([], none)).2

/-- What travels down a channel, for the library. -/
def amountOf : Item → Option Int
  | .money amount => some amount
  | .marker => none

def channelOf (es : List (Event Snapshot Line Value)) (s : Snapshot) (link : Link) : Channel Int where
  queue := (s.channels.getD link []).map amountOf
  sent := sentOn es link
  delivered := deliveredOn es link
  cutSent := (recordedAfter es link.1).map fun pre => sentOn pre link
  cutDelivered := (recordedAfter es link.2).map fun pre => deliveredOn pre link
  closed := decide (link ∈ s.closed)
  found := s.inChannel.getD link 0

variable {s p} {es pre : List (Event Snapshot Line Value)} {e : Event Snapshot Line Value}

theorem sentOn_snoc : sentOn (es ++ [e]) link = sentOn es link ++ (moveAt e).sentOn link := by
  rw [sentOn, List.flatMap_append, List.flatMap_singleton]
  rfl

theorem deliveredOn_snoc : deliveredOn (es ++ [e]) link = deliveredOn es link ++ (moveAt e).deliveredOn link := by
  rw [deliveredOn, List.flatMap_append, List.flatMap_singleton]
  rfl

theorem recordedStep_fst : (es.foldl (recordedStep p) ([], none)).1 = es := by
  induction es using List.reverseRecOn with
  | nil => rfl
  | append_singleton es e ih =>
    rw [List.foldl_append]
    exact congrArg (· ++ [e]) ih

theorem recordedAfter_snoc : recordedAfter (es ++ [e]) p =
    if recordsAt p e then some es else if begins e then none else recordedAfter es p := by
  rw [recordedAfter, List.foldl_append]
  show (if _ then some (es.foldl (recordedStep p) ([], none)).1 else _) = _
  rw [recordedStep_fst]
  rfl

/-- What `recordedAfter` finds: `p` recorded at the next event, and no snapshot has begun since. -/
theorem recordedAfter_spec (h : recordedAfter es p = some pre) :
    ∃ e rest, es = pre ++ e :: rest ∧ recordsAt p e = true ∧ ∀ f ∈ rest, begins f = false := by
  induction es using List.reverseRecOn with
  | nil => simp [recordedAfter] at h
  | append_singleton es e ih =>
    rw [recordedAfter_snoc] at h
    split_ifs at h with hrec hbegin
    · cases h
      exact ⟨e, [], rfl, hrec, List.forall_mem_nil _⟩
    · obtain ⟨e', rest, rfl, hrec', hrest⟩ := ih h
      refine ⟨e', rest ++ [e], by simp, hrec', fun f hf => ?_⟩
      rcases List.mem_append.mp hf with hf | hf
      · exact hrest f hf
      · rw [List.mem_singleton.mp hf]
        exact Bool.eq_false_iff.mpr hbegin

end BuildYourOwn.Protocols.Snapshot
