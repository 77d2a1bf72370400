import Mathlib.Algebra.BigOperators.Group.List.Basic

/-!
# One FIFO channel of a marker snapshot

A channel carries amounts and, while a snapshot is taken, at most one marker that counts: the sender
puts it behind what it has sent when it records its state. The receiver adds up what arrives between
its own recording and the marker.

`Channel` keeps, beside the queue, all that was sent and delivered and how much of each there was when
the two ends recorded. `Channel.Ok` is what every operation keeps, and **`Ok.caught`** what it gives: when
the marker has arrived, what was added up is what was sent before the one recording and delivered
after the other.
-/

namespace BuildYourOwn.Lib

/-- A channel during a snapshot. In the queue `none` is the marker. -/
@[ext]
structure Channel (α : Type) where
  queue : List (Option α)
  sent : List α
  delivered : List α
  cutSent : Option (List α)
  cutDelivered : Option (List α)
  closed : Bool
  found : α

namespace Channel

def amounts {α : Type} (queue : List (Option α)) : List α := queue.filterMap id

variable {α : Type} [AddMonoid α] {c : Channel α} {a : α} {queue rest : List (Option α)}

omit [AddMonoid α] in
theorem amounts_append (q₁ q₂ : List (Option α)) : amounts (q₁ ++ q₂) = amounts q₁ ++ amounts q₂ :=
  List.filterMap_append

omit [AddMonoid α] in
theorem amounts_marker (q : List (Option α)) : amounts (q ++ [none]) = amounts q := by
  rw [amounts_append]
  exact List.append_nil _

omit [AddMonoid α] in
theorem amounts_cons (q : List (Option α)) : amounts (some a :: q) = a :: amounts q := rfl

omit [AddMonoid α] in
theorem amounts_isSome (q : List (Option α)) : amounts (q.filter Option.isSome) = amounts q := by
  induction q with
  | nil => rfl
  | cons x q ih =>
    cases x with
    | none => exact ih
    | some a => exact congrArg (a :: ·) ih

structure Ok (c : Channel α) : Prop where
  fifo : c.sent = c.delivered ++ amounts c.queue
  idle : c.cutSent = none → none ∉ c.queue ∧ c.closed = false
  ahead : ∀ cut, c.cutSent = some cut → c.closed = false → none ∈ c.queue →
    ∃ q₁ q₂, c.queue = q₁ ++ none :: q₂ ∧ none ∉ q₁ ∧ c.delivered ++ amounts q₁ = cut
  fresh : c.cutDelivered = none → c.found = 0
  counting : ∀ cut, c.cutDelivered = some cut → c.closed = false →
    ∃ d, c.delivered = cut ++ d ∧ c.found = d.sum
  done : c.closed = true → ∃ cut cut' d later, c.cutSent = some cut ∧
    c.cutDelivered = some cut' ∧ cut = cut' ++ d ∧ c.delivered = cut ++ later ∧ c.found = d.sum

/-! ## The operations -/

/-- An amount is sent. -/
def send (c : Channel α) (a : α) : Channel α :=
  { c with queue := c.queue ++ [some a], sent := c.sent ++ [a] }

/-- An amount arrives, with `rest` behind it. -/
def take (c : Channel α) (a : α) (rest : List (Option α)) : Channel α :=
  { c with
    queue := rest
    delivered := c.delivered ++ [a]
    found := if c.cutDelivered.isSome && !c.closed then c.found + a else c.found }

def cutSender (c : Channel α) (marks : Bool) : Channel α :=
  { c with
    queue := if marks then c.queue ++ [none] else c.queue
    cutSent := some c.sent }

def cutReceiver (c : Channel α) : Channel α := { c with cutDelivered := some c.delivered }

def record (c : Channel α) (isSender isReceiver marks : Bool) : Channel α :=
  let c := if isSender then c.cutSender marks else c
  if isReceiver then c.cutReceiver else c

/-- The marker arrives, with `rest` behind it, at a receiver that has recorded by now. -/
def close (c : Channel α) (rest : List (Option α)) : Channel α :=
  { c with
    queue := rest
    cutDelivered := some (c.cutDelivered.getD c.delivered)
    closed := true }

/-- A new snapshot: markers and records of the old one go. -/
def restart (c : Channel α) : Channel α :=
  { c with
    queue := c.queue.filter Option.isSome
    cutSent := none
    cutDelivered := none
    closed := false
    found := 0 }

theorem Ok.send (h : c.Ok) (a : α) : (c.send a).Ok := by
  have hnone : none ∈ c.queue ++ [some a] ↔ none ∈ c.queue := by simp
  refine ⟨?_, fun hcut => ?_, fun cut hcut hopen hmem => ?_, h.fresh, h.counting, h.done⟩
  · show c.sent ++ [a] = c.delivered ++ amounts (c.queue ++ [some a])
    rw [amounts_append, ← List.append_assoc, h.fifo]
    rfl
  · exact ⟨fun hmem => (h.idle hcut).1 (hnone.mp hmem), (h.idle hcut).2⟩
  · obtain ⟨q₁, q₂, hqueue, hq₁, hcut'⟩ := h.ahead cut hcut hopen (hnone.mp hmem)
    refine ⟨q₁, q₂ ++ [some a], ?_, hq₁, hcut'⟩
    show c.queue ++ [some a] = _
    rw [hqueue, List.append_assoc, List.cons_append]

theorem Ok.take (h : c.Ok) (hqueue : c.queue = some a :: rest) : (c.take a rest).Ok := by
  have hnone : none ∈ c.queue ↔ none ∈ rest := by rw [hqueue]; simp
  refine ⟨?_, fun hcut => ?_, fun cut hcut hopen hmem => ?_, fun hcut => ?_,
    fun cut hcut hopen => ?_, fun hclosed => ?_⟩
  · show c.sent = c.delivered ++ [a] ++ amounts rest
    rw [h.fifo, hqueue, amounts_cons, List.append_assoc]
    rfl
  · exact ⟨fun hmem => (h.idle hcut).1 (hnone.mpr hmem), (h.idle hcut).2⟩
  · obtain ⟨q₁, q₂, hq, hq₁, hcut'⟩ := h.ahead cut hcut hopen (hnone.mpr hmem)
    cases q₁ with
    | nil => cases hqueue.symm.trans hq
    | cons x q₁ =>
      rw [hqueue, List.cons_append, List.cons.injEq] at hq
      obtain ⟨rfl, rfl⟩ := hq
      refine ⟨q₁, q₂, rfl, fun hmem => hq₁ (List.mem_cons_of_mem _ hmem), ?_⟩
      show c.delivered ++ [a] ++ amounts q₁ = cut
      rw [← hcut', amounts_cons, List.append_assoc]
      rfl
  · show (if c.cutDelivered.isSome && !c.closed then c.found + a else c.found) = 0
    rw [show c.cutDelivered = none from hcut]
    exact h.fresh hcut
  · obtain ⟨d, hd, hfound⟩ := h.counting cut hcut hopen
    refine ⟨d ++ [a], ?_, ?_⟩
    · show c.delivered ++ [a] = _
      rw [hd, List.append_assoc]
    · show (if c.cutDelivered.isSome && !c.closed then c.found + a else c.found) = _
      rw [show c.cutDelivered = some cut from hcut, show c.closed = false from hopen, hfound,
        List.sum_append, List.sum_singleton]
      rfl
  · obtain ⟨cut, cut', d, later, hcut, hcut', hd, hlater, hfound⟩ := h.done hclosed
    refine ⟨cut, cut', d, later ++ [a], hcut, hcut', hd, ?_, ?_⟩
    · show c.delivered ++ [a] = _
      rw [hlater, List.append_assoc]
    · show (if c.cutDelivered.isSome && !c.closed then c.found + a else c.found) = _
      rw [show c.closed = true from hclosed, Bool.not_true, Bool.and_false]
      exact hfound

theorem Ok.cutSender (h : c.Ok) (hcut : c.cutSent = none) (marks : Bool) : (c.cutSender marks).Ok := by
  obtain ⟨hnone, hclosed⟩ := h.idle hcut
  have hamounts : amounts (c.cutSender marks).queue = amounts c.queue := by
    unfold Channel.cutSender
    cases marks with
    | true => exact amounts_marker c.queue
    | false => rfl
  refine ⟨?_, fun hcut => absurd hcut (by simp [Channel.cutSender]), fun cut hcut' _ hmem => ?_,
    h.fresh, h.counting, fun hc => absurd (hclosed.symm.trans hc) (by decide)⟩
  · rw [hamounts]
    exact h.fifo
  · cases marks with
    | false => exact absurd hmem hnone
    | true =>
      refine ⟨c.queue, [], rfl, hnone, ?_⟩
      exact h.fifo.symm.trans (Option.some.inj hcut')

theorem Ok.cutReceiver (h : c.Ok) (hcut : c.cutDelivered = none) : c.cutReceiver.Ok := by
  refine ⟨h.fifo, h.idle, h.ahead, fun hcut => absurd hcut (by simp [Channel.cutReceiver]),
    fun cut hcut' _ => ?_, fun hclosed => ?_⟩
  · refine ⟨[], ?_, h.fresh hcut⟩
    rw [List.append_nil]
    exact Option.some.inj hcut'
  · obtain ⟨_, _, _, _, -, hsome, -⟩ := h.done hclosed
    cases hcut.symm.trans hsome

theorem Ok.record (h : c.Ok) {isSender isReceiver : Bool} (hs : isSender = true → c.cutSent = none)
    (hr : isReceiver = true → c.cutDelivered = none) (marks : Bool) : (c.record isSender isReceiver marks).Ok := by
  cases isSender with
  | false =>
    cases isReceiver with
    | false => exact h
    | true => exact h.cutReceiver (hr rfl)
  | true =>
    cases isReceiver with
    | false => exact h.cutSender (hs rfl) marks
    | true => exact (h.cutSender (hs rfl) marks).cutReceiver (hr rfl)

theorem Ok.close (h : c.Ok) (hqueue : c.queue = none :: rest) : (c.close rest).Ok := by
  have hmem : none ∈ c.queue := hqueue ▸ List.mem_cons_self
  have hfifo : c.sent = c.delivered ++ amounts rest := by
    rw [h.fifo, hqueue]
    rfl
  refine ⟨hfifo, fun hcut => absurd hmem (h.idle hcut).1, fun _ _ hopen => absurd hopen (by simp [Channel.close]),
    fun hcut => absurd hcut (by simp [Channel.close]),
    fun _ _ hopen => absurd hopen (by simp [Channel.close]), fun _ => ?_⟩
  cases hclosed : c.closed with
  | true =>
    obtain ⟨cut, cut', d, later, hcut, hcut', hrest⟩ := h.done hclosed
    refine ⟨cut, cut', d, later, hcut, ?_, hrest⟩
    show some (c.cutDelivered.getD c.delivered) = some cut'
    rw [hcut', Option.getD_some]
  | false =>
    cases hcut : c.cutSent with
    | none => exact absurd hmem (h.idle hcut).1
    | some cut =>
      obtain ⟨q₁, q₂, hq, hq₁, hdel⟩ := h.ahead cut hcut hclosed hmem
      -- the marker is first, so all that was sent before it has been delivered
      have hnil : q₁ = [] := by
        cases q₁ with
        | nil => rfl
        | cons x q₁ =>
          rw [hqueue, List.cons_append, List.cons.injEq] at hq
          exact absurd (hq.1 ▸ List.mem_cons_self) hq₁
      rw [hnil] at hdel
      replace hdel : c.delivered = cut := (List.append_nil _).symm.trans hdel
      cases hcut' : c.cutDelivered with
      | none =>
        refine ⟨cut, cut, [], [], hcut, ?_, (List.append_nil _).symm, ?_, h.fresh hcut'⟩
        · show some (c.cutDelivered.getD c.delivered) = some cut
          rw [hcut', Option.getD_none, hdel]
        · rw [List.append_nil]
          exact hdel
      | some cut' =>
        obtain ⟨d, hd, hfound⟩ := h.counting cut' hcut' hclosed
        refine ⟨cut, cut', d, [], hcut, ?_, hdel ▸ hd, ?_, hfound⟩
        · show some (c.cutDelivered.getD c.delivered) = some cut'
          rw [hcut', Option.getD_some]
        · rw [List.append_nil]
          exact hdel

theorem Ok.restart (h : c.Ok) : c.restart.Ok := by
  refine ⟨?_, fun _ => ⟨fun hmem => ?_, rfl⟩, fun _ hcut => absurd hcut (by simp [Channel.restart]),
    fun _ => rfl, fun _ hcut => absurd hcut (by simp [Channel.restart]),
    fun hclosed => absurd hclosed (by simp [Channel.restart])⟩
  · show c.sent = c.delivered ++ amounts (c.queue.filter Option.isSome)
    rw [amounts_isSome]
    exact h.fifo
  · exact absurd (List.mem_filter.mp hmem).2 (by simp)

/-- **What the receiver caught**: the amounts sent before the sender recorded and delivered after the
receiver did. -/
theorem Ok.caught (h : c.Ok) (hclosed : c.closed = true) : ∃ cut cut', c.cutSent = some cut ∧
    c.cutDelivered = some cut' ∧ c.found = ((c.delivered.take cut.length).drop cut'.length).sum ∧
    cut = cut' ++ (c.delivered.take cut.length).drop cut'.length := by
  obtain ⟨cut, cut', d, later, hcut, hcut', hd, hlater, hfound⟩ := h.done hclosed
  have hdrop : (c.delivered.take cut.length).drop cut'.length = d := by
    rw [hlater, List.take_left, hd, List.drop_left]
  exact ⟨cut, cut', hcut, hcut', hdrop.symm ▸ hfound, hdrop.symm ▸ hd⟩

end Channel

end BuildYourOwn.Lib
