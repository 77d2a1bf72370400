import Mathlib.Tactic.Ring
import BuildYourOwn.Protocols.Snapshot

/-!
# The cut is consistent

A snapshot that is complete accounts for all the money: what each process recorded, and for each
channel what was sent before its sender recorded and delivered after its receiver did.

* Each move changes a channel, with its history, by the operations of `Channel` (`channel_moved`).
* What a process recorded is what it held at that moment (`Kept.recorded`).
* Adding up, what was sent on a channel before the one recording and delivered before the other
  cancels between the processes and the channel (`Kept.total`).
-/

namespace BuildYourOwn.Protocols.Snapshot

open Lib Topic

variable {s s' s₀ : Snapshot} {l : Line} {v : Value} {link link₀ : Link} {amount : Int} {p q : String}
  {es pre : List (Event Snapshot Line Value)} {e : Event Snapshot Line Value} {rest : List Item}

/-! ## A move on one channel -/

theorem recordedAfter_still (hrec : recordsAt q e = false) (hbegin : begins e = false) :
    recordedAfter (es ++ [e]) q = recordedAfter es q := by
  rw [recordedAfter_snoc, hrec, hbegin]
  rfl

theorem queue_eq {queue : List Item} (h : s.channels[link]? = some queue) : s.channels.getD link [] = queue := by
  rw [Std.ExtTreeMap.getD_eq_getD_getElem?, h, Option.getD_some]

theorem record_queue (s : Snapshot) (p : String) (link : Link) : (s.record p).channels.getD link [] =
    if p ∉ s.balanceAt ∧ link.1 = p ∧ link ∈ s.channels then s.channels.getD link [] ++ [.marker]
    else s.channels.getD link [] := by
  rw [Std.ExtTreeMap.getD_eq_getD_getElem?, record_channels, Std.ExtTreeMap.getD_eq_getD_getElem?]
  cases h : s.channels[link]? with
  | none =>
    have hmem : link ∉ s.channels := by
      rw [Std.ExtTreeMap.mem_iff_isSome_getElem?, h]
      simp
    rw [if_neg (c := p ∉ s.balanceAt ∧ link.1 = p ∧ link ∈ s.channels) fun h => hmem h.2.2]
    split_ifs <;> rfl
  | some queue =>
    have hmem : link ∈ s.channels := by
      rw [Std.ExtTreeMap.mem_iff_isSome_getElem?, h]
      rfl
    by_cases hp : p ∉ s.balanceAt ∧ link.1 = p
    · rw [if_pos hp, if_pos ⟨hp.1, hp.2, hmem⟩]
      rfl
    · rw [if_neg hp, if_neg fun h => hp ⟨h.1, h.2.1⟩]

theorem record_found (s : Snapshot) (p : String) (link : Link) :
    (s.record p).inChannel.getD link 0 = s.inChannel.getD link 0 := by
  rw [Std.ExtTreeMap.getD_eq_getD_getElem?, record_inChannel]
  split_ifs
  · rfl
  · rw [Std.ExtTreeMap.getD_eq_getD_getElem?]

/-- A channel after `amount` is sent on `link₀`. -/
theorem channel_sent (hm : moveAt ⟨s, l, v, s'⟩ = .sent link₀ amount)
    (hmoved : Moved s (.sent link₀ amount) s') : channelOf (es ++ [⟨s, l, v, s'⟩]) s' link =
      if link₀ = link then (channelOf es s link).send amount else channelOf es s link := by
  have hstill : ∀ q, recordedAfter (es ++ [⟨s, l, v, s'⟩]) q = recordedAfter es q := fun q =>
    recordedAfter_still (by rw [recordsAt, hm]) (by rw [begins, hm])
  have hqueue : s'.channels.getD link [] =
      if link₀ = link then s.channels.getD link₀ [] ++ [.money amount] else s.channels.getD link [] := by
    rw [hmoved]
    exact PairMap.getD_insert _ _ _ _ _
  obtain rfl := hmoved
  unfold channelOf
  rw [hstill, hstill, hqueue, sentOn_snoc, deliveredOn_snoc, hm]
  by_cases hl : link₀ = link
  · subst hl
    rw [if_pos rfl, if_pos rfl, sentOn_sent, if_pos rfl, deliveredOn_sent, List.map_append,
      List.append_nil]
    rfl
  · rw [if_neg hl, if_neg hl, sentOn_sent, if_neg hl, deliveredOn_sent, List.append_nil,
      List.append_nil]

/-- A channel after `amount` is delivered on `link₀`. -/
theorem channel_took (hm : moveAt ⟨s, l, v, s'⟩ = .took link₀ amount)
    (hs' : s' = { s with
      channels := s.channels.insert link₀ rest
      balances := s.balances.insert link₀.2 (s.balances.getD link₀.2 0 + amount)
      inChannel := if s.recording link₀ then
        s.inChannel.insert link₀ (s.inChannel.getD link₀ 0 + amount) else s.inChannel })
    (hrec : s.recording link₀ = ((recordedAfter es link₀.2).isSome && !decide (link₀ ∈ s.closed))) :
    channelOf (es ++ [⟨s, l, v, s'⟩]) s' link =
      if link₀ = link then (channelOf es s link).take amount (rest.map amountOf)
      else channelOf es s link := by
  have hstill : ∀ q, recordedAfter (es ++ [⟨s, l, v, s'⟩]) q = recordedAfter es q := fun q =>
    recordedAfter_still (by rw [recordsAt, hm]) (by rw [begins, hm])
  have hqueue : s'.channels.getD link [] = if link₀ = link then rest else s.channels.getD link [] := by
    rw [hs']
    exact PairMap.getD_insert _ _ _ _ _
  have hfound : s'.inChannel.getD link 0 = if link₀ = link ∧ s.recording link₀ = true then
      s.inChannel.getD link 0 + amount else s.inChannel.getD link 0 := by
    rw [hs']
    by_cases hr : s.recording link₀ = true
    · rw [if_pos hr, PairMap.getD_insert]
      by_cases hl : link₀ = link
      · rw [if_pos hl, if_pos ⟨hl, hr⟩, hl]
      · rw [if_neg hl, if_neg fun h => hl h.1]
    · rw [if_neg hr, if_neg fun h => hr h.2]
  have hclosed : s'.closed = s.closed := by rw [hs']
  unfold channelOf
  rw [hstill, hstill, hqueue, hfound, hclosed, sentOn_snoc, deliveredOn_snoc, hm]
  by_cases hl : link₀ = link
  · subst hl
    rw [if_pos rfl, if_pos rfl, deliveredOn_took, if_pos rfl, sentOn_took, List.append_nil, hrec]
    refine Channel.ext rfl rfl rfl rfl rfl rfl ?_
    simp only [Channel.take, Option.isSome_map, true_and]
  · rw [if_neg hl, if_neg hl, deliveredOn_took, if_neg hl, List.append_nil, sentOn_took,
      List.append_nil, if_neg fun h => hl h.1]

theorem recordedAfter_marked (hm : moveAt ⟨s, l, v, s'⟩ = .marked link₀) (q : String) :
    recordedAfter (es ++ [⟨s, l, v, s'⟩]) q =
      if link₀.2 = q ∧ q ∉ s.balanceAt then some es else recordedAfter es q := by
  have hbegin : begins ⟨s, l, v, s'⟩ = false := by rw [begins, hm]
  have hrec : recordsAt q ⟨s, l, v, s'⟩ = (link₀.2 == q && decide (q ∉ s.balanceAt)) := by
    rw [recordsAt, hm]
  rw [recordedAfter_snoc, hbegin, hrec]
  simp only [Bool.and_eq_true, beq_iff_eq, decide_eq_true_eq, Bool.false_eq_true, if_false]

theorem recordedAfter_began (hm : moveAt ⟨s, l, v, s'⟩ = .began p) (q : String) :
    recordedAfter (es ++ [⟨s, l, v, s'⟩]) q = if p = q then some es else none := by
  have hbegin : begins ⟨s, l, v, s'⟩ = true := by rw [begins, hm]
  have hrec : recordsAt q ⟨s, l, v, s'⟩ = (p == q) := by rw [recordsAt, hm]
  rw [recordedAfter_snoc, hbegin, hrec]
  simp only [beq_iff_eq, if_true]

theorem channel_closed (hm : moveAt ⟨s, l, v, s'⟩ = .marked link₀) (hs' : s' = s.takeMarker link₀ rest)
    (hsender : link₀.1 ∈ s.balanceAt) (hreceiver : link₀.2 ∈ s.balanceAt ↔ (recordedAfter es link₀.2).isSome = true) :
    channelOf (es ++ [⟨s, l, v, s'⟩]) s' link₀ = (channelOf es s link₀).close (rest.map amountOf) := by
  have hqueue : s'.channels.getD link₀ [] = rest := by
    rw [hs']
    show (record _ _).channels.getD link₀ [] = rest
    rw [record_queue, if_neg fun h => h.1 (h.2.1 ▸ hsender), PairMap.getD_insert, if_pos rfl]
  have hfound : s'.inChannel.getD link₀ 0 = s.inChannel.getD link₀ 0 := by
    rw [hs']
    show (Std.ExtTreeMap.insert _ link₀ _).getD link₀ 0 = _
    rw [PairMap.getD_insert, if_pos rfl, record_found]
  have hclosed : decide (link₀ ∈ s'.closed) = true := by
    rw [hs', decide_eq_true_eq]
    exact PairSet.mem_insert.mpr (.inl rfl)
  have hcutSent : recordedAfter (es ++ [⟨s, l, v, s'⟩]) link₀.1 = recordedAfter es link₀.1 := by
    rw [recordedAfter_marked hm, if_neg fun h => h.2 hsender]
  unfold channelOf
  rw [hqueue, hfound, hclosed, hcutSent, sentOn_snoc, deliveredOn_snoc, hm, recordedAfter_marked hm]
  refine Channel.ext rfl (List.append_nil _) (List.append_nil _) rfl ?_ rfl rfl
  show _ = some _
  cases hrec : recordedAfter es link₀.2 with
  | none =>
    rw [if_pos ⟨rfl, fun hmem => by
      rw [hreceiver, hrec] at hmem
      exact absurd hmem (by simp)⟩]
    rfl
  | some pre =>
    rw [if_neg fun h => h.2 (hreceiver.mpr (by rw [hrec]; rfl))]
    rfl

theorem recorded_ends (isSender isReceiver there : Prop) [Decidable isSender] [Decidable isReceiver]
    [Decidable there] (queue : List Item) (closed : Bool) (found : Int)
    (cutSent cutDelivered : Option (List (Event Snapshot Line Value))) :
    (⟨(if isSender ∧ there then queue ++ [.marker] else queue).map amountOf,
        sentOn es link ++ [], deliveredOn es link ++ [],
        (if isSender then some es else cutSent).map fun pre => sentOn pre link,
        (if isReceiver then some es else cutDelivered).map fun pre => deliveredOn pre link,
        closed, found⟩ : Channel Int) =
      Channel.record ⟨queue.map amountOf, sentOn es link, deliveredOn es link,
        cutSent.map fun pre => sentOn pre link, cutDelivered.map fun pre => deliveredOn pre link,
        closed, found⟩ (decide isSender) (decide isReceiver) (decide there) := by
  rw [List.append_nil, List.append_nil]
  by_cases hs : isSender <;> by_cases hr : isReceiver <;> by_cases he : there <;>
    simp [hs, hr, he, Channel.record, Channel.cutSender, Channel.cutReceiver, amountOf]

/-- Any other channel, when a marker arrives on `link₀`. -/
theorem channel_marked (hm : moveAt ⟨s, l, v, s'⟩ = .marked link₀) (hs' : s' = s.takeMarker link₀ rest)
    (hne : link₀ ≠ link) : channelOf (es ++ [⟨s, l, v, s'⟩]) s' link = (channelOf es s link).record
      (decide (link₀.2 = link.1 ∧ link.1 ∉ s.balanceAt))
      (decide (link₀.2 = link.2 ∧ link.2 ∉ s.balanceAt)) (decide (link ∈ s.channels)) := by
  have hmem : link ∈ s.channels.insert link₀ rest ↔ link ∈ s.channels := by
    rw [Std.ExtTreeMap.mem_insert, Std.LawfulEqCmp.compare_eq_iff_eq]
    exact ⟨fun h => h.resolve_left hne, .inr⟩
  have hqueue : s'.channels.getD link [] =
      if (link₀.2 = link.1 ∧ link.1 ∉ s.balanceAt) ∧ link ∈ s.channels then
        s.channels.getD link [] ++ [.marker] else s.channels.getD link [] := by
    rw [hs']
    show (record _ _).channels.getD link [] = _
    rw [record_queue, PairMap.getD_insert, if_neg hne]
    simp only [hmem]
    refine if_congr ⟨?_, ?_⟩ rfl rfl
    · exact fun ⟨hfresh, hl, hc⟩ => ⟨⟨hl.symm, hl ▸ hfresh⟩, hc⟩
    · exact fun ⟨⟨hl, hfresh⟩, hc⟩ => ⟨hl ▸ hfresh, hl.symm, hc⟩
  have hfound : s'.inChannel.getD link 0 = s.inChannel.getD link 0 := by
    rw [hs']
    show (Std.ExtTreeMap.insert _ link₀ _).getD link 0 = _
    rw [PairMap.getD_insert, if_neg hne, record_found]
  have hclosed : link ∈ s'.closed ↔ link ∈ s.closed := by
    rw [hs']
    show link ∈ (record _ _).closed.insert link₀ ↔ _
    rw [PairSet.mem_insert, record_closed]
    exact ⟨fun h => h.resolve_left (Ne.symm hne), .inr⟩
  unfold channelOf
  rw [hqueue, hfound, sentOn_snoc, deliveredOn_snoc, hm, recordedAfter_marked hm,
    recordedAfter_marked hm]
  simp only [hclosed]
  exact recorded_ends _ _ _ _ _ _ _ _

theorem cleared_queue (s : Snapshot) (link : Link) :
    s.cleared.channels.getD link [] = (s.channels.getD link []).filter isMoney := by
  unfold cleared
  rw [Std.ExtTreeMap.getD_map, Std.ExtTreeMap.getD_eq_getD_getElem?]
  cases s.channels[link]? <;> rfl

theorem filter_amounts (queue : List Item) :
    (queue.filter isMoney).map amountOf = (queue.map amountOf).filter Option.isSome := by
  rw [List.filter_map]
  congr 1
  refine List.filter_congr fun item _ => ?_
  cases item <;> rfl

/-- A channel when `p` begins a new snapshot. -/
theorem channel_began (hm : moveAt ⟨s, l, v, s'⟩ = .began p) (hs' : s' = s.cleared.record p) :
    channelOf (es ++ [⟨s, l, v, s'⟩]) s' link =
      (channelOf es s link).restart.record (decide (p = link.1)) (decide (p = link.2))
        (decide (link ∈ s.channels)) := by
  have hmem : link ∈ s.cleared.channels ↔ link ∈ s.channels := Std.ExtTreeMap.mem_map
  have hqueue : s'.channels.getD link [] = if p = link.1 ∧ link ∈ s.channels then
      (s.channels.getD link []).filter isMoney ++ [.marker]
      else (s.channels.getD link []).filter isMoney := by
    rw [hs', record_queue, cleared_queue]
    refine if_congr ⟨?_, ?_⟩ rfl rfl
    · exact fun ⟨_, hl, hc⟩ => ⟨hl.symm, hmem.mp hc⟩
    · exact fun ⟨hl, hc⟩ => ⟨Std.ExtTreeMap.not_mem_empty, hl.symm, hmem.mpr hc⟩
  have hfound : s'.inChannel.getD link 0 = 0 := by
    rw [hs', record_found]
    exact Std.ExtTreeMap.getD_empty
  have hclosed : decide (link ∈ s'.closed) = false := by
    rw [hs', record_closed, decide_eq_false_iff_not]
    exact Std.ExtTreeSet.not_mem_empty
  unfold channelOf
  rw [hqueue, hfound, hclosed, sentOn_snoc, deliveredOn_snoc, hm, recordedAfter_began hm,
    recordedAfter_began hm]
  refine (recorded_ends _ _ _ _ _ _ none none).trans ?_
  rw [filter_amounts]
  rfl

theorem channel_quiet (hm : moveAt ⟨s, l, v, s'⟩ = .quiet) :
    channelOf (es ++ [⟨s, l, v, s'⟩]) s link = channelOf es s link := by
  have hstill : ∀ q, recordedAfter (es ++ [⟨s, l, v, s'⟩]) q = recordedAfter es q := fun q =>
    recordedAfter_still (by rw [recordsAt, hm]) (by rw [begins, hm])
  unfold channelOf
  rw [hstill, hstill, sentOn_snoc, deliveredOn_snoc, hm]
  exact Channel.ext rfl (List.append_nil _) (List.append_nil _) rfl rfl rfl rfl

/-- **What a move does to a channel keeps it `Ok`.** -/
theorem channel_moved (hok : ∀ link, (channelOf es s link).Ok)
    (hcuts : ∀ p, p ∈ s.balanceAt ↔ (recordedAfter es p).isSome = true) (hstarted : ∀ p ∈ s.balanceAt, s.started = true)
    (hmoved : Moved s (moveAt ⟨s, l, v, s'⟩) s') (link : Link) : (channelOf (es ++ [⟨s, l, v, s'⟩]) s' link).Ok := by
  cases hm : moveAt ⟨s, l, v, s'⟩ with
  | sent link₀ amount =>
    rw [hm] at hmoved
    rw [channel_sent hm hmoved]
    split_ifs
    · exact (hok link).send amount
    · exact hok link
  | took link₀ amount =>
    rw [hm] at hmoved
    obtain ⟨rest, hmem, hs'⟩ := hmoved
    have hrec : s.recording link₀ =
        ((recordedAfter es link₀.2).isSome && !decide (link₀ ∈ s.closed)) := by
      rw [recording, Bool.eq_iff_iff]
      simp only [Bool.and_eq_true, decide_eq_true_eq, Bool.not_eq_true', decide_eq_false_iff_not,
        ← hcuts]
      exact ⟨fun h => ⟨h.1.2, h.2⟩, fun h => ⟨⟨hstarted _ h.1, h.1⟩, h.2⟩⟩
    rw [channel_took hm hs' hrec]
    split_ifs with hl
    · subst hl
      refine (hok link₀).take ?_
      show (s.channels.getD link₀ []).map amountOf = _
      rw [queue_eq hmem]
      rfl
    · exact hok link
  | marked link₀ =>
    rw [hm] at hmoved
    obtain ⟨rest, hmem, hs'⟩ := hmoved
    have hqueue : (channelOf es s link₀).queue = none :: rest.map amountOf := by
      show (s.channels.getD link₀ []).map amountOf = _
      rw [queue_eq hmem]
      rfl
    by_cases hl : link₀ = link
    · subst hl
      have hsender : link₀.1 ∈ s.balanceAt := by
        rw [hcuts]
        by_contra hnone
        rw [Option.not_isSome_iff_eq_none] at hnone
        have hcut : (channelOf es s link₀).cutSent = none := by
          show (recordedAfter es link₀.1).map _ = none
          rw [hnone]
          rfl
        exact ((hok link₀).idle hcut).1 (hqueue ▸ List.mem_cons_self)
      rw [channel_closed hm hs' hsender (hcuts link₀.2)]
      exact (hok link₀).close hqueue
    · rw [channel_marked hm hs' hl]
      refine (hok link).record (fun h => ?_) (fun h => ?_) _
      all_goals
        have hnot := (of_decide_eq_true h).2
        rw [hcuts, Option.not_isSome_iff_eq_none] at hnot
        show (recordedAfter es _).map _ = none
        rw [hnot]
        rfl
  | began p =>
    rw [hm] at hmoved
    rw [channel_began hm (hmoved.1.trans (by rw [snapshot, if_pos hmoved.2]))]
    exact (hok link).restart.record (fun _ => rfl) (fun _ => rfl) _
  | quiet =>
    rw [hm] at hmoved
    obtain rfl := hmoved
    rw [channel_quiet hm]
    exact hok link

/-! ## What the processes hold -/

def Move.spent (p : String) : Move → Int
  | .sent l amount => if l.1 = p then amount else 0
  | _ => 0

def Move.got (p : String) : Move → Int
  | .took l amount => if l.2 = p then amount else 0
  | _ => 0

/-- What a process holds after some events, by what it has sent and what has arrived. -/
def heldAfter (s₀ : Snapshot) (es : List (Event Snapshot Line Value)) (p : String) : Int :=
  s₀.balances.getD p 0 - (es.map fun e => (moveAt e).spent p).sum +
    (es.map fun e => (moveAt e).got p).sum

theorem heldAfter_snoc (p : String) : heldAfter s₀ (es ++ [e]) p =
    heldAfter s₀ es p - (moveAt e).spent p + (moveAt e).got p := by
  unfold heldAfter
  rw [List.map_append, List.map_append, List.sum_append, List.sum_append, List.map_singleton,
    List.map_singleton, List.sum_singleton, List.sum_singleton]
  ring

/-- What a run keeps. -/
structure Kept (s₀ : Snapshot) (es : List (Event Snapshot Line Value)) (s : Snapshot) : Prop where
  links : ∀ link, (channelOf es s link).Ok
  started : ∀ p ∈ s.balanceAt, s.started = true
  balance : ∀ p, s.balances.getD p 0 = heldAfter s₀ es p
  recorded : ∀ p, s.balanceAt[p]? = (recordedAfter es p).map fun pre => heldAfter s₀ pre p
  used : ∀ e ∈ es, ∀ link amount,
    moveAt e = .sent link amount ∨ moveAt e = .took link amount → link ∈ s.channels
  opened : ∀ link ∈ s.inChannel, link ∈ s.channels
  found : ∀ link ∈ s.closed, link ∈ s.inChannel

theorem Kept.cuts (h : Kept s₀ es s) (p : String) : p ∈ s.balanceAt ↔ (recordedAfter es p).isSome = true := by
  rw [Std.ExtTreeMap.mem_iff_isSome_getElem?, h.recorded, Option.isSome_map]

theorem balance_moved (hbalance : ∀ p, s.balances.getD p 0 = heldAfter s₀ es p)
    (hmoved : Moved s (moveAt ⟨s, l, v, s'⟩) s') (p : String) :
    s'.balances.getD p 0 = heldAfter s₀ (es ++ [⟨s, l, v, s'⟩]) p := by
  rw [heldAfter_snoc, ← hbalance]
  cases hm : moveAt ⟨s, l, v, s'⟩ with
  | sent link₀ amount =>
    rw [hm] at hmoved
    have hget : s'.balances.getD p 0 = if link₀.1 = p then s.balances.getD link₀.1 0 - amount else
        s.balances.getD p 0 := by
      rw [hmoved]
      exact StringMap.getD_insert _ _ _ _ _
    rw [hget, Move.spent, show (Move.sent link₀ amount).got p = 0 from rfl]
    split_ifs with hp
    · rw [hp]
      omega
    · omega
  | took link₀ amount =>
    rw [hm] at hmoved
    obtain ⟨rest, -, hs'⟩ := hmoved
    have hget : s'.balances.getD p 0 = if link₀.2 = p then s.balances.getD link₀.2 0 + amount else
        s.balances.getD p 0 := by
      rw [hs']
      exact StringMap.getD_insert _ _ _ _ _
    rw [hget, Move.got, show (Move.took link₀ amount).spent p = 0 from rfl]
    split_ifs with hp
    · rw [hp]
      omega
    · omega
  | marked link₀ =>
    rw [hm] at hmoved
    obtain ⟨rest, -, rfl⟩ := hmoved
    have hget : (s.takeMarker link₀ rest).balances = s.balances := record_balances _ _
    rw [hget]
    simp [Move.spent, Move.got]
  | began q =>
    rw [hm] at hmoved
    obtain ⟨rfl, hq⟩ := hmoved
    have hget : (s.snapshot q).1.balances = s.balances := by
      rw [snapshot, if_pos hq]
      exact record_balances _ _
    rw [hget]
    simp [Move.spent, Move.got]
  | quiet =>
    rw [hm] at hmoved
    obtain rfl := hmoved
    simp [Move.spent, Move.got]

theorem recorded_moved (h : Kept s₀ es s) (hmoved : Moved s (moveAt ⟨s, l, v, s'⟩) s') (p : String) :
    s'.balanceAt[p]? = (recordedAfter (es ++ [⟨s, l, v, s'⟩]) p).map fun pre => heldAfter s₀ pre p := by
  have hstill : s'.balanceAt = s.balanceAt → recordsAt p ⟨s, l, v, s'⟩ = false →
      begins ⟨s, l, v, s'⟩ = false → s'.balanceAt[p]? =
        (recordedAfter (es ++ [⟨s, l, v, s'⟩]) p).map fun pre => heldAfter s₀ pre p := by
    intro hat hrec hbegin
    rw [hat, recordedAfter_still hrec hbegin, h.recorded]
  cases hm : moveAt ⟨s, l, v, s'⟩ with
  | sent link₀ amount =>
    rw [hm] at hmoved
    exact hstill (by rw [hmoved]) (by rw [recordsAt, hm]) (by rw [begins, hm])
  | took link₀ amount =>
    rw [hm] at hmoved
    obtain ⟨rest, -, hs'⟩ := hmoved
    exact hstill (by rw [hs']) (by rw [recordsAt, hm]) (by rw [begins, hm])
  | marked link₀ =>
    rw [hm] at hmoved
    obtain ⟨rest, -, hs'⟩ := hmoved
    rw [recordedAfter_marked hm, hs']
    show (record _ _).balanceAt[p]? = _
    rw [record_balanceAt]
    by_cases hp : link₀.2 = p
    · subst hp
      by_cases hmem : link₀.2 ∈ s.balanceAt
      · rw [if_neg fun h => h.2 hmem, if_neg fun h => h.2 hmem]
        exact h.recorded link₀.2
      · rw [if_pos ⟨rfl, hmem⟩, if_pos ⟨rfl, hmem⟩]
        exact congrArg some (h.balance link₀.2)
    · rw [if_neg fun h => hp h.1, if_neg fun h => hp h.1]
      exact h.recorded p
  | began q =>
    rw [hm] at hmoved
    obtain ⟨hs', hq⟩ := hmoved
    rw [snapshot, if_pos hq] at hs'
    rw [recordedAfter_began hm, hs', record_balanceAt]
    by_cases hp : q = p
    · subst hp
      rw [if_pos ⟨rfl, Std.ExtTreeMap.not_mem_empty⟩, if_pos rfl]
      exact congrArg some (h.balance q)
    · rw [if_neg fun h => hp h.1, if_neg hp]
      exact Std.ExtTreeMap.getElem?_empty
  | quiet =>
    rw [hm] at hmoved
    exact hstill (by rw [hmoved]) (by rw [recordsAt, hm]) (by rw [begins, hm])

structure Grown (s s' : Snapshot) : Prop where
  channels : ∀ link ∈ s.channels, link ∈ s'.channels
  started : (∀ p ∈ s.balanceAt, s.started = true) → ∀ p ∈ s'.balanceAt, s'.started = true
  opened : (∀ link ∈ s.inChannel, link ∈ s.channels) → ∀ link ∈ s'.inChannel, link ∈ s'.channels
  found : (∀ link ∈ s.closed, link ∈ s.inChannel) → ∀ link ∈ s'.closed, link ∈ s'.inChannel

theorem Grown.trans {s₁ s₂ s₃ : Snapshot} (h₁ : Grown s₁ s₂) (h₂ : Grown s₂ s₃) : Grown s₁ s₃ :=
  ⟨fun link h => h₂.channels link (h₁.channels link h), fun h => h₂.started (h₁.started h),
    fun h => h₂.opened (h₁.opened h), fun h => h₂.found (h₁.found h)⟩

theorem grown_queue (queue : List Item) (balances : StringMap Int) :
    Grown s { s with channels := s.channels.insert link queue, balances := balances } := by
  have hmem : ∀ link' ∈ s.channels, link' ∈ s.channels.insert link queue := fun link' h =>
    Std.ExtTreeMap.mem_insert.mpr (.inr h)
  exact ⟨hmem, id, fun h link' hl => hmem link' (h link' hl), id⟩

theorem mem_record_channels (s : Snapshot) (p : String) (link : Link) :
    link ∈ (s.record p).channels ↔ link ∈ s.channels := by
  have hmem : link ∈ s.channels ↔ s.channels[link]?.isSome = true :=
    Std.ExtTreeMap.mem_iff_isSome_getElem?
  rw [Std.ExtTreeMap.mem_iff_isSome_getElem?, record_channels, hmem]
  split_ifs
  · rw [Option.isSome_map]
  · rfl

theorem grown_record (s : Snapshot) (p : String) (hstarted : s.started = true) : Grown s (s.record p) := by
  refine ⟨fun link h => (mem_record_channels s p link).mpr h, fun _ _ _ => ?_, fun h link hl => ?_,
    fun h link hl => ?_⟩
  · rw [record_started]
    exact hstarted
  · rw [mem_record_channels]
    rw [Std.ExtTreeMap.mem_iff_isSome_getElem?, record_inChannel] at hl
    split_ifs at hl with hnew
    · exact hnew.2.1
    · exact h link (Std.ExtTreeMap.mem_iff_isSome_getElem?.mpr hl)
  · rw [record_closed] at hl
    rw [Std.ExtTreeMap.mem_iff_isSome_getElem?, record_inChannel]
    split_ifs
    · rfl
    · exact Std.ExtTreeMap.mem_iff_isSome_getElem?.mp (h link hl)

theorem grown_cleared (s : Snapshot) : Grown s s.cleared :=
  ⟨fun _ h => Std.ExtTreeMap.mem_map.mpr h, fun _ _ _ => rfl,
    fun _ _ h => absurd h Std.ExtTreeMap.not_mem_empty,
    fun _ _ h => absurd h Std.ExtTreeSet.not_mem_empty⟩

theorem mem_insert_pair {β : Type} {m : PairMap β} {x : β} : link ∈ m.insert link₀ x ↔ link₀ = link ∨ link ∈ m := by
  rw [Std.ExtTreeMap.mem_insert, Std.LawfulEqCmp.compare_eq_iff_eq]

theorem grown_moved (hstarted : ∀ (link : Link) rest, s.channels[link]? = some (.marker :: rest) → s.started = true)
    {m : Move} (hmoved : Moved s m s') : Grown s s' := by
  cases m with
  | sent link₀ amount =>
    rw [hmoved]
    exact grown_queue _ _
  | took link₀ amount =>
    obtain ⟨rest, hmem, rfl⟩ := hmoved
    refine (grown_queue rest (s.balances.insert link₀.2 (s.balances.getD link₀.2 0 + amount))).trans
      ⟨fun _ h => h, id, fun h link hl => ?_, fun h link hl => ?_⟩
    · dsimp only at hl
      split_ifs at hl
      · rcases mem_insert_pair.mp hl with rfl | hl
        · exact mem_insert_pair.mpr (.inl rfl)
        · exact h link hl
      · exact h link hl
    · dsimp only
      split_ifs
      · exact mem_insert_pair.mpr (.inr (h link hl))
      · exact h link hl
  | marked link₀ =>
    obtain ⟨rest, hmem, rfl⟩ := hmoved
    have hqueue : Grown s { s with channels := s.channels.insert link₀ rest } :=
      grown_queue rest s.balances
    have hrecord : Grown _ (record { s with channels := s.channels.insert link₀ rest } link₀.2) :=
      grown_record _ link₀.2 (hstarted link₀ rest hmem)
    refine (hqueue.trans hrecord).trans ⟨fun _ h => h, id, fun h link hl => ?_, fun h link hl => ?_⟩
    · rcases mem_insert_pair.mp hl with rfl | hl
      · exact (mem_record_channels _ _ _).mpr (mem_insert_pair.mpr (.inl rfl))
      · exact h link hl
    · rcases PairSet.mem_insert.mp hl with rfl | hl
      · exact mem_insert_pair.mpr (.inl rfl)
      · exact mem_insert_pair.mpr (.inr (h link hl))
  | began p =>
    obtain ⟨rfl, hp⟩ := hmoved
    rw [snapshot, if_pos hp]
    exact (grown_cleared s).trans (grown_record s.cleared p rfl)
  | quiet =>
    rw [hmoved]
    exact ⟨fun _ h => h, id, id, id⟩

/-! ## A run -/

theorem Kept.marker_started (h : Kept s₀ es s) (hmem : s.channels[link]? = some (.marker :: rest)) :
    s.started = true := by
  refine h.started link.1 ((h.cuts link.1).mpr ?_)
  by_contra hnone
  rw [Option.not_isSome_iff_eq_none] at hnone
  have hcut : (channelOf es s link).cutSent = none := by
    show (recordedAfter es link.1).map _ = none
    rw [hnone]
    rfl
  refine ((h.links link).idle hcut).1 ?_
  show none ∈ (s.channels.getD link []).map amountOf
  rw [queue_eq hmem]
  exact List.mem_cons_self

theorem used_moved (hmoved : Moved s (moveAt e) s')
    (hm : moveAt e = .sent link amount ∨ moveAt e = .took link amount) : link ∈ s'.channels := by
  rcases hm with hm | hm <;> rw [hm] at hmoved
  · rw [hmoved]
    exact mem_insert_pair.mpr (.inl rfl)
  · obtain ⟨rest, -, rfl⟩ := hmoved
    exact mem_insert_pair.mpr (.inl rfl)

theorem kept_step (h : Kept s₀ es s) (hmoved : Moved s (moveAt ⟨s, l, v, s'⟩) s') :
    Kept s₀ (es ++ [⟨s, l, v, s'⟩]) s' := by
  have hgrown := grown_moved (fun _ _ => h.marker_started) hmoved
  refine ⟨channel_moved h.links h.cuts h.started hmoved, hgrown.started h.started,
    balance_moved h.balance hmoved, recorded_moved h hmoved, fun e he link amount hm => ?_,
    hgrown.opened h.opened, hgrown.found h.found⟩
  rcases List.mem_append.mp he with he | he
  · exact hgrown.channels link (h.used e he link amount hm)
  · obtain rfl := List.mem_singleton.mp he
    exact used_moved hmoved hm

/-- What the setup leaves: no money under way and no snapshot. -/
structure Fresh (s : Snapshot) : Prop where
  queues : ∀ link, s.channels.getD link [] = []
  started : s.started = false
  balanceAt : s.balanceAt = ∅
  inChannel : s.inChannel = ∅
  closed : s.closed = ∅

theorem Fresh.kept (h : Fresh s) : Kept s [] s := by
  refine ⟨fun link => ?_, fun p hp => ?_, fun p => ?_, fun p => ?_, fun e he => ?_, fun link hl => ?_,
    fun link hl => ?_⟩
  · have hchannel : channelOf [] s link = ⟨[], [], [], none, none, false, 0⟩ := by
      refine Channel.ext ?_ rfl rfl rfl rfl ?_ ?_
      · show (s.channels.getD link []).map amountOf = []
        rw [h.queues]
        rfl
      · show decide (link ∈ s.closed) = false
        rw [h.closed, decide_eq_false_iff_not]
        exact Std.ExtTreeSet.not_mem_empty
      · show s.inChannel.getD link 0 = 0
        rw [h.inChannel]
        exact Std.ExtTreeMap.getD_empty
    rw [hchannel]
    exact ⟨rfl, fun _ => ⟨List.not_mem_nil, rfl⟩, nofun, fun _ => rfl,
      nofun, fun hc => absurd hc (by simp)⟩
  · rw [h.balanceAt] at hp
    exact absurd hp Std.ExtTreeMap.not_mem_empty
  · show _ = _ - 0 + 0
    omega
  · rw [h.balanceAt]
    exact Std.ExtTreeMap.getElem?_empty
  · cases he
  · rw [h.inChannel] at hl
    exact absurd hl Std.ExtTreeMap.not_mem_empty
  · rw [h.closed] at hl
    exact absurd hl Std.ExtTreeSet.not_mem_empty

variable [Host]

theorem fresh_of_setup (hrun : Run (onLine step) default es s)
    (hsetup : ∀ e ∈ es, e.input.command = "init" ∨ e.input.command = "channel") : Fresh s := by
  refine hrun.invariant (P := Fresh) (G := fun _ l => l.command = "init" ∨ l.command = "channel")
    ⟨fun _ => Std.ExtTreeMap.getD_empty, rfl, rfl, rfl, rfl⟩ ?_ hsetup
  rintro s ⟨command, args⟩ s' v h hcmd hs
  rcases hcmd with rfl | rfl
  · replace hs : step s "init" args = some (s', v) := hs
    unfold step at hs
    refine arg_keeps h hs fun p _ hs => ?_
    refine arg_keeps h hs fun balance _ hs => ?_
    rw [Option.some.injEq, Prod.mk.injEq] at hs
    obtain ⟨rfl, -⟩ := hs
    exact ⟨h.queues, h.started, h.balanceAt, h.inChannel, h.closed⟩
  · replace hs : step s "channel" args = some (s', v) := hs
    unfold step at hs
    refine arg_keeps h hs fun source _ hs => ?_
    refine arg_keeps h hs fun dest _ hs => ?_
    rw [Option.some.injEq, Prod.mk.injEq] at hs
    obtain ⟨rfl, -⟩ := hs
    refine ⟨fun link => ?_, h.started, h.balanceAt, h.inChannel, h.closed⟩
    show (Std.ExtTreeMap.insert _ _ _).getD link [] = []
    rw [PairMap.getD_insert]
    split_ifs
    · exact h.queues _
    · exact h.queues link

theorem kept (hfresh : Fresh s₀) (hrun : Run (onLine step) s₀ es s)
    (hkept : ∀ e ∈ es, e.input.command ≠ "init" ∧ e.input.command ≠ "channel") : Kept s₀ es s :=
  hrun.history_invariant (P := Kept s₀)
    (G := fun e => e.input.command ≠ "init" ∧ e.input.command ≠ "channel") hfresh.kept
    (fun _ _ _ _ _ h hg hs => kept_step h (step_moves hs hg.1 hg.2)) hkept

end BuildYourOwn.Protocols.Snapshot
