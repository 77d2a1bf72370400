import Mathlib.Data.List.Nodup
import BuildYourOwn.Group.Broadcast

/-!
# Agreement of reliable and uniform broadcast

Under the stronger modes a message is in one of two conditions (`Covered`): every process has it in
hand or has delivered it, or it went with its sender and nothing is held any more, which happens only
when no live process has delivered it, and in uniform mode only when nobody has. A delivery moves one
process from the first set to the second, and a crash can only turn the first condition into the
second.

* `settle_done`: one round delivers everything that is held for a live process and holds nothing new,
  so the second round finds nothing, whatever the bound on the rounds.

**`broadcast_agreement`**: after a `settle`, a message that some live process has delivered has been
delivered by every live process; in uniform mode so has a message that any process has delivered; and
nothing is held for a live process.
-/

namespace BuildYourOwn.Group.Broadcast

open Lib Topic

variable {s s' : Broadcast} {m m' : Msg} {id : Int} {dest p : Nat} {mode : Mode} {n : Nat}

/-! ## Conditions of a message -/

/-- Every process of the group has the message in hand or has delivered it. -/
def Full (n : Nat) (m : Msg) : Prop := ∀ p < n, p ∈ m.held ∨ p ∈ m.delivered

structure Gone (s : Broadcast) (m : Msg) : Prop where
  held : ∀ p, p ∉ m.held
  nobody : ∀ p ∈ m.delivered, s.isAlive p = false
  uniform : s.mode = .uniform → ∀ p, p ∉ m.delivered

/-- What holds of every message. -/
structure Covered (s : Broadcast) (m : Msg) : Prop where
  member : ∀ p ∈ m.held, p < s.n
  disjoint : ∀ p ∈ m.held, p ∉ m.delivered
  full : Full s.n m ∨ Gone s m

/-- What holds of every state under the stronger modes. -/
structure Sound (s : Broadcast) : Prop where
  strong : s.mode ≠ .bestEffort
  group : ∀ p, s.isAlive p = true → p < s.n
  ids : s.msgs.Pairwise (·.id ≠ ·.id)
  older : ∀ m ∈ s.msgs, m.id < s.nextId
  covered : ∀ m ∈ s.msgs, Covered s m

/-! ## One delivery -/

theorem relayTo_delivered (m : Msg) (o : Nat) : (relayTo m o).delivered = m.delivered := by
  unfold relayTo
  split
  · rfl
  · rfl

theorem mem_relayTo_held (m : Msg) (o : Nat) : p ∈ (relayTo m o).held ↔ p ∈ m.held ∨ p = o ∧ p ∉ m.delivered := by
  unfold relayTo
  by_cases ho : o ∈ m.delivered
  · rw [if_pos ho]
    constructor
    · exact .inl
    · rintro (h | ⟨rfl, h⟩)
      · exact h
      · exact absurd ho h
  · rw [if_neg ho, IndexSet.mem_insert, or_comm]
    refine or_congr_right ⟨fun h => ⟨h, h ▸ ho⟩, And.left⟩

theorem foldl_relayTo (os : List Nat) : ∀ m : Msg,
    (os.foldl relayTo m).id = m.id ∧ (os.foldl relayTo m).sender = m.sender ∧
    (os.foldl relayTo m).delivered = m.delivered ∧
    ∀ p, p ∈ (os.foldl relayTo m).held ↔ p ∈ m.held ∨ p ∈ os ∧ p ∉ m.delivered := by
  induction os with
  | nil =>
    intro m
    refine ⟨rfl, rfl, rfl, fun p => ?_⟩
    constructor
    · exact .inl
    · rintro (h | ⟨h, -⟩)
      · exact h
      · cases h
  | cons o os ih =>
    intro m
    obtain ⟨hid, hsender, hdelivered, hheld⟩ := ih (relayTo m o)
    have hsame : (relayTo m o).id = m.id ∧ (relayTo m o).sender = m.sender := by
      unfold relayTo
      split
      · exact ⟨rfl, rfl⟩
      · exact ⟨rfl, rfl⟩
    rw [relayTo_delivered] at hdelivered
    refine ⟨hid.trans hsame.1, hsender.trans hsame.2, hdelivered, fun p => ?_⟩
    rw [List.foldl_cons, hheld p, mem_relayTo_held, relayTo_delivered, List.mem_cons]
    constructor
    · rintro ((h | ⟨rfl, h⟩) | ⟨ho, h⟩)
      · exact .inl h
      · exact .inr ⟨.inl rfl, h⟩
      · exact .inr ⟨.inr ho, h⟩
    · rintro (h | ⟨rfl | ho, h⟩)
      · exact .inl (.inl h)
      · exact .inl (.inr ⟨rfl, h⟩)
      · exact .inr ⟨ho, h⟩

/-- What a delivery to `dest` makes of a message that all others have: `dest` moves from those that
have it in hand to those that have delivered it. -/
structure Delivered (m : Msg) (dest : Nat) (m' : Msg) : Prop where
  id : m'.id = m.id
  sender : m'.sender = m.sender
  delivered : ∀ p, p ∈ m'.delivered ↔ p = dest ∨ p ∈ m.delivered
  held : ∀ p, p ∈ m'.held ↔ p ≠ dest ∧ p ∈ m.held

theorem delivered_deliverTo (hmode : mode ≠ .bestEffort) (hothers : ∀ p < n, p ≠ dest → p ∈ m.held ∨ p ∈ m.delivered) :
    Delivered m dest (deliverTo mode n dest m) := by
  unfold deliverTo
  rw [if_neg hmode]
  obtain ⟨hid, hsender, hdelivered, hheld⟩ := foldl_relayTo ((List.range n).filter (· ≠ dest))
    { m with delivered := m.delivered.insert dest, held := m.held.erase dest }
  refine ⟨hid, hsender, fun p => ?_, fun p => ?_⟩
  · rw [hdelivered]
    exact IndexSet.mem_insert
  · rw [hheld p]
    rw [IndexSet.mem_erase, IndexSet.mem_insert, List.mem_filter, List.mem_range]
    constructor
    · rintro (h | ⟨⟨hlt, hne⟩, hnot⟩)
      · exact h
      · have hother : p ∉ m.delivered := fun h => hnot (.inr h)
        have hne : p ≠ dest := by simpa using hne
        exact ⟨hne, (hothers p hlt hne).resolve_right hother⟩
    · exact .inl

/-! ## A delivery in the group -/

theorem onMsg_eq_map (f : Msg → Msg) {ms : List Msg} (h : ms.Pairwise (·.id ≠ ·.id)) :
    onMsg id f ms = ms.map fun m => if m.id = id then f m else m := by
  induction ms with
  | nil => rfl
  | cons m ms ih =>
    obtain ⟨hne, hms⟩ := List.pairwise_cons.mp h
    rw [onMsg, List.map_cons]
    by_cases hm : m.id = id
    · have hrest : ms.map (fun m => if m.id = id then f m else m) = ms := by
        conv_rhs => rw [← List.map_id ms]
        refine List.map_congr_left fun m' hm' => ?_
        exact if_neg fun e => hne m' hm' (hm.trans e.symm)
      rw [if_pos hm, if_pos hm, hrest]
    · rw [if_neg hm, if_neg hm, ih hms]

structure Moved (m m' : Msg) : Prop where
  id : m'.id = m.id
  held : ∀ p ∈ m'.held, p ∈ m.held
  kept : ∀ p ∈ m.held, p ∈ m'.held ∨ p ∈ m'.delivered
  delivered : ∀ p ∈ m.delivered, p ∈ m'.delivered

theorem Moved.refl (m : Msg) : Moved m m := ⟨rfl, fun _ h => h, fun _ h => .inl h, fun _ h => h⟩

theorem Moved.trans {m'' : Msg} (h : Moved m m') (h' : Moved m' m'') : Moved m m'' where
  id := h'.id.trans h.id
  held p hp := h.held p (h'.held p hp)
  kept p hp := by
    rcases h.kept p hp with hp | hp
    · exact h'.kept p hp
    · exact .inr (h'.delivered p hp)
  delivered p hp := h'.delivered p (h.delivered p hp)

structure Grows (s s' : Broadcast) : Prop where
  n : s'.n = s.n
  alive : s'.alive = s.alive
  mode : s'.mode = s.mode
  msgs : ∀ m' ∈ s'.msgs, ∃ m ∈ s.msgs, Moved m m'

theorem Grows.refl (s : Broadcast) : Grows s s := ⟨rfl, rfl, rfl, fun m hm => ⟨m, hm, Moved.refl m⟩⟩

theorem Grows.trans {s'' : Broadcast} (h : Grows s s') (h' : Grows s' s'') : Grows s s'' where
  n := h'.n.trans h.n
  alive := h'.alive.trans h.alive
  mode := h'.mode.trans h.mode
  msgs m'' hm'' := by
    obtain ⟨m', hm', hmoved'⟩ := h'.msgs m'' hm''
    obtain ⟨m, hm, hmoved⟩ := h.msgs m' hm'
    exact ⟨m, hm, hmoved.trans hmoved'⟩

theorem Grows.isAlive (h : Grows s s') (p : Nat) : s'.isAlive p = s.isAlive p := by
  unfold Broadcast.isAlive
  rw [h.alive]

theorem Covered.congr (h : Covered s m) (hn : s'.n = s.n)
    (ha : ∀ p, s.isAlive p = false → s'.isAlive p = false) (hmode : s'.mode = s.mode) : Covered s' m := by
  refine ⟨fun p hp => hn ▸ h.member p hp, h.disjoint, ?_⟩
  rcases h.full with hfull | hgone
  · exact .inl (hn ▸ hfull)
  · refine .inr ⟨hgone.held, fun p hp => ha p (hgone.nobody p hp), fun hu => ?_⟩
    exact hgone.uniform (hmode ▸ hu)

theorem Sound.mapped {f : Msg → Msg} (h : Sound s) (hmode : s'.mode ≠ .bestEffort)
    (hgroup : ∀ p, s'.isAlive p = true → p < s'.n) (hmsgs : s'.msgs = s.msgs.map f)
    (hnext : s'.nextId = s.nextId) (hf : ∀ m ∈ s.msgs, Covered s' (f m) ∧ (f m).id = m.id) : Sound s' where
  strong := hmode
  group := hgroup
  ids := by
    rw [hmsgs, List.pairwise_map]
    refine h.ids.imp_of_mem fun {a b} ha hb hab => ?_
    rw [(hf a ha).2, (hf b hb).2]
    exact hab
  older m' hm' := by
    rw [hmsgs] at hm'
    obtain ⟨m, hm, rfl⟩ := List.mem_map.mp hm'
    rw [(hf m hm).2, hnext]
    exact h.older m hm
  covered m' hm' := by
    rw [hmsgs] at hm'
    obtain ⟨m, hm, rfl⟩ := List.mem_map.mp hm'
    exact (hf m hm).1

/-- A message that has `dest` among those that have it in hand or have delivered it. -/
def Due (m : Msg) (dest : Nat) : Prop := dest ∈ m.held ∨ dest ∈ m.delivered

theorem Due.moved (h : Due m dest) (hm : Moved m m') : Due m' dest := by
  rcases h with h | h
  · exact hm.kept dest h
  · exact .inr (hm.delivered dest h)

theorem Covered.deliverMsg (h : Covered s m) (hmode : s.mode ≠ .bestEffort)
    (halive : s.isAlive dest = true) (hdue : Due m dest) :
    Covered s (s.deliverMsg dest m) ∧ Moved m (s.deliverMsg dest m) ∧ dest ∈ (s.deliverMsg dest m).delivered := by
  unfold Broadcast.deliverMsg
  by_cases hnot : dest ∈ m.delivered
  · rw [if_pos (.inl hnot)]
    exact ⟨h, Moved.refl m, hnot⟩
  rw [if_neg (by rw [halive]; simpa using hnot)]
  have hheld : dest ∈ m.held := hdue.resolve_right hnot
  have hfull : Full s.n m := h.full.resolve_right fun hgone => hgone.held dest hheld
  have hd : Delivered m dest (deliverTo s.mode s.n dest m) :=
    delivered_deliverTo hmode fun p hp _ => hfull p hp
  refine ⟨⟨fun p hp => h.member p ((hd.held p).mp hp).2, fun p hp => ?_, .inl fun p hp => ?_⟩,
    ⟨hd.id, fun p hp => ((hd.held p).mp hp).2, fun p hp => ?_,
      fun p hp => (hd.delivered p).mpr (.inr hp)⟩, (hd.delivered dest).mpr (.inl rfl)⟩
  · obtain ⟨hne, hp⟩ := (hd.held p).mp hp
    intro hp'
    rcases (hd.delivered p).mp hp' with heq | hp'
    · exact hne heq
    · exact h.disjoint p hp hp'
  · rw [hd.held, hd.delivered]
    rcases hfull p hp with hp | hp
    · by_cases heq : p = dest
      · exact .inr (.inl heq)
      · exact .inl ⟨heq, hp⟩
    · exact .inr (.inr hp)
  · rw [hd.held, hd.delivered]
    by_cases heq : p = dest
    · exact .inr (.inl heq)
    · exact .inl ⟨heq, hp⟩

theorem Sound.deliver (h : Sound s) (halive : s.isAlive dest = true) (hdue : ∀ m ∈ s.msgs, m.id = id → Due m dest) :
    Sound (s.deliver id dest) ∧ Grows s (s.deliver id dest) ∧
      ∀ m' ∈ (s.deliver id dest).msgs, m'.id = id → dest ∈ m'.delivered := by
  have hmsgs : (s.deliver id dest).msgs =
      s.msgs.map fun m => if m.id = id then s.deliverMsg dest m else m := onMsg_eq_map _ h.ids
  have hone : ∀ m ∈ s.msgs, ∀ m', m' = (if m.id = id then s.deliverMsg dest m else m) →
      Covered s m' ∧ Moved m m' ∧ (m'.id = id → dest ∈ m'.delivered) := by
    rintro m hm m' rfl
    by_cases hid : m.id = id
    · rw [if_pos hid]
      obtain ⟨hc, hmoved, hin⟩ := (h.covered m hm).deliverMsg h.strong halive (hdue m hm hid)
      exact ⟨hc, hmoved, fun _ => hin⟩
    · rw [if_neg hid]
      exact ⟨h.covered m hm, Moved.refl m, fun e => absurd e hid⟩
  have hsound : Sound (s.deliver id dest) := by
    refine h.mapped h.strong h.group hmsgs rfl fun m hm => ?_
    obtain ⟨hc, hmoved, -⟩ := hone m hm _ rfl
    exact ⟨hc.congr rfl (fun _ hp => hp) rfl, hmoved.id⟩
  refine ⟨hsound, ⟨rfl, rfl, rfl, fun m' hm' => ?_⟩, fun m' hm' => ?_⟩
  · rw [hmsgs] at hm'
    obtain ⟨m, hm, heq⟩ := List.mem_map.mp hm'
    exact ⟨m, hm, (hone m hm m' heq.symm).2.1⟩
  · rw [hmsgs] at hm'
    obtain ⟨m, hm, heq⟩ := List.mem_map.mp hm'
    exact (hone m hm m' heq.symm).2.2

/-! ## Settling -/

theorem Sound.deliverAll {ps : List (Int × Nat)} (h : Sound s)
    (hps : ∀ q ∈ ps, s.isAlive q.2 = true ∧ ∀ m ∈ s.msgs, m.id = q.1 → Due m q.2) :
    Sound (s.deliverAll ps) ∧ Grows s (s.deliverAll ps) ∧
      ∀ q ∈ ps, ∀ m' ∈ (s.deliverAll ps).msgs, m'.id = q.1 → q.2 ∈ m'.delivered := by
  induction ps generalizing s with
  | nil => exact ⟨h, Grows.refl s, List.forall_mem_nil _⟩
  | cons q ps ih =>
    obtain ⟨halive, hdue⟩ := hps q List.mem_cons_self
    obtain ⟨hsound, hgrows, hin⟩ := h.deliver halive hdue
    obtain ⟨hsound', hgrows', hin'⟩ := ih hsound fun q' hq' => by
      obtain ⟨halive', hdue'⟩ := hps q' (List.mem_cons_of_mem q hq')
      refine ⟨(hgrows.isAlive q'.2).trans halive', fun m' hm' hid => ?_⟩
      obtain ⟨m, hm, hmoved⟩ := hgrows.msgs m' hm'
      exact (hdue' m hm (hmoved.id ▸ hid)).moved hmoved
    refine ⟨hsound', hgrows.trans hgrows', fun q' hq' m'' hm'' hid => ?_⟩
    rcases List.mem_cons.mp hq' with rfl | hq'
    · obtain ⟨m', hm', hmoved⟩ := hgrows'.msgs m'' hm''
      exact hmoved.delivered _ (hin m' hm' (hmoved.id ▸ hid))
    · exact hin' q' hq' m'' hm'' hid

theorem mem_pending {q : Int × Nat} :
    q ∈ s.pending ↔ ∃ m ∈ s.msgs, m.id = q.1 ∧ q.2 ∈ m.held ∧ s.isAlive q.2 = true := by
  unfold pending
  rw [List.mem_flatMap]
  constructor
  · rintro ⟨m, hm, hq⟩
    obtain ⟨dest, hdest, rfl⟩ := List.mem_map.mp hq
    obtain ⟨hheld, halive⟩ := List.mem_filter.mp hdest
    exact ⟨m, hm, rfl, IndexSet.mem_toList.mp hheld, halive⟩
  · rintro ⟨m, hm, hid, hheld, halive⟩
    refine ⟨m, hm, List.mem_map.mpr ⟨q.2, ?_, Prod.ext hid rfl⟩⟩
    exact List.mem_filter.mpr ⟨IndexSet.mem_toList.mpr hheld, halive⟩

theorem Sound.eq_of_id (h : Sound s) {a b : Msg} (ha : a ∈ s.msgs) (hb : b ∈ s.msgs) (hid : a.id = b.id) : a = b :=
  List.inj_on_of_nodup_map (List.pairwise_map.mpr h.ids) ha hb hid

/-- **One round of `settle`** leaves nothing to hand to a live process. -/
theorem Sound.round (h : Sound s) : Sound (s.deliverAll s.pending) ∧
    Grows s (s.deliverAll s.pending) ∧ (s.deliverAll s.pending).pending = [] := by
  have hdue : ∀ q ∈ s.pending, s.isAlive q.2 = true ∧ ∀ m ∈ s.msgs, m.id = q.1 → Due m q.2 := by
    intro q hq
    obtain ⟨m, hm, hid, hheld, halive⟩ := mem_pending.mp hq
    refine ⟨halive, fun m' hm' hid' => ?_⟩
    rw [h.eq_of_id hm' hm (hid'.trans hid.symm)]
    exact .inl hheld
  obtain ⟨hsound, hgrows, hin⟩ := h.deliverAll hdue
  refine ⟨hsound, hgrows, List.eq_nil_iff_forall_not_mem.mpr fun q hq => ?_⟩
  obtain ⟨m', hm', hid, hheld, halive⟩ := mem_pending.mp hq
  obtain ⟨m, hm, hmoved⟩ := hgrows.msgs m' hm'
  -- it was pending before the round, so the round has delivered it
  have hbefore : q ∈ s.pending := mem_pending.mpr
    ⟨m, hm, hmoved.id.symm.trans hid, hmoved.held q.2 hheld, (hgrows.isAlive q.2).symm.trans halive⟩
  exact (hsound.covered m' hm').disjoint q.2 hheld (hin q hbefore m' hm' hid)

theorem settleRounds_of_nil (left : Nat) (h : s.pending = []) : settleRounds left s = (s, 0) := by
  cases left with
  | zero => rfl
  | succ left =>
    rw [settleRounds, h]
    rfl

/-- **`settle` stops with nothing left to hand to a live process**, after at most one round. -/
theorem Sound.settle (h : Sound s) : Sound s.settle.1 ∧ s.settle.1.pending = [] := by
  have hsettle : s.settle.1 = (settleRounds (s.n * 4 + 1) s).1 := rfl
  rw [hsettle, settleRounds]
  by_cases hnil : s.pending = []
  · rw [hnil]
    exact ⟨h, hnil⟩
  · obtain ⟨hsound, -, hdone⟩ := h.round
    rw [if_neg (by simpa using hnil)]
    rw [settleRounds_of_nil _ hdone]
    exact ⟨hsound, hdone⟩

/-! ## The other commands -/

theorem deliver_dead (h : Sound s) (hdead : s.isAlive dest = false) : s.deliver id dest = s := by
  unfold Broadcast.deliver
  rw [onMsg_eq_map _ h.ids]
  have hsame : s.msgs.map (fun m => if m.id = id then s.deliverMsg dest m else m) = s.msgs := by
    conv_rhs => rw [← List.map_id s.msgs]
    refine List.map_congr_left fun m _ => ?_
    rw [Broadcast.deliverMsg, if_pos (Or.inr hdead)]
    split
    · rfl
    · rfl
  rw [hsame]

theorem Sound.hand (h : Sound s) (id : Int) (dest : Nat) : Sound (s.hand id dest).1 := by
  unfold Broadcast.hand
  split
  · exact h
  · split
    · rename_i hheld
      obtain ⟨m, hfind, hin⟩ := (Option.any_eq_true _ _).mp hheld
      have hmem : m ∈ s.msgs := List.mem_of_find?_eq_some hfind
      have hid : m.id = id := by simpa using List.find?_some hfind
      cases halive : s.isAlive dest with
      | false =>
        show Sound (s.deliver id dest)
        rwa [deliver_dead h halive]
      | true =>
        refine (h.deliver halive fun m' hm' hid' => ?_).1
        rw [h.eq_of_id hm' hmem (hid'.trans hid.symm)]
        exact .inl (by simpa using hin)
    · exact h

theorem onMsg_append (f : Msg → Msg) (m : Msg) (hm : m.id = id) {ms : List Msg}
    (h : ∀ m' ∈ ms, m'.id ≠ id) : onMsg id f (ms ++ [m]) = ms ++ [f m] := by
  induction ms with
  | nil => exact if_pos hm
  | cons a ms ih =>
    rw [List.cons_append, onMsg, if_neg (h a List.mem_cons_self),
      ih fun m' hm' => h m' (List.mem_cons_of_mem a hm'), List.cons_append]

theorem delivered_newMsg (hmode : s.mode ≠ .bestEffort) (id : Int) (sender : Nat) :
    Covered s (deliverTo s.mode s.n sender (newMsg s.n id sender)) ∧
      (deliverTo s.mode s.n sender (newMsg s.n id sender)).id = id := by
  have hmem : ∀ p, p ∈ (newMsg s.n id sender).held ↔ p < s.n ∧ p ≠ sender := fun p => by
    rw [newMsg, IndexSet.mem_ofList, List.mem_filter, List.mem_range, decide_eq_true_eq]
  have hd : Delivered (newMsg s.n id sender) sender
      (deliverTo s.mode s.n sender (newMsg s.n id sender)) :=
    delivered_deliverTo hmode fun p hp hne => .inl ((hmem p).mpr ⟨hp, hne⟩)
  refine ⟨⟨fun p hp => ((hmem p).mp ((hd.held p).mp hp).2).1, fun p hp hp' => ?_,
    .inl fun p hp => ?_⟩, hd.id⟩
  · rcases (hd.delivered p).mp hp' with heq | hempty
    · exact ((hd.held p).mp hp).1 heq
    · exact IndexSet.not_mem_empty hempty
  · rw [hd.held, hd.delivered]
    by_cases heq : p = sender
    · exact .inr (.inl heq)
    · exact .inl ⟨heq, (hmem p).mpr ⟨hp, heq⟩⟩

theorem Sound.push (h : Sound s) (hc : Covered s m) (hid : m.id = s.nextId) :
    Sound { s with nextId := s.nextId + 1, msgs := s.msgs ++ [m] } where
  strong := h.strong
  group := h.group
  ids := by
    rw [List.pairwise_append]
    refine ⟨h.ids, List.pairwise_singleton .., fun a ha b hb => ?_⟩
    rw [List.mem_singleton.mp hb, hid]
    exact Int.ne_of_lt (h.older a ha)
  older a ha := by
    rcases List.mem_append.mp ha with ha | ha
    · exact Int.lt_add_one_of_le (Int.le_of_lt (h.older a ha))
    · rw [List.mem_singleton.mp ha, hid]
      exact Int.lt_add_one_of_le (Int.le_refl _)
  covered a ha := by
    rcases List.mem_append.mp ha with ha | ha
    · exact (h.covered a ha).congr rfl (fun _ hp => hp) rfl
    · rw [List.mem_singleton.mp ha]
      exact hc.congr rfl (fun _ hp => hp) rfl

theorem Sound.broadcast (h : Sound s) {sender : Nat} {v : Value}
    (hs : s.broadcast sender = some (s', v)) : Sound s' := by
  unfold Broadcast.broadcast at hs
  split at hs
  · cases hs
    exact h
  split at hs
  · cases hs
    exact h
  · rename_i halive
    obtain ⟨next, hnext, heq⟩ := Option.map_eq_some_iff.mp hs
    obtain ⟨-, rfl⟩ := addI64_eq_some.mp hnext
    cases heq
    have hold : ∀ m ∈ s.msgs, m.id ≠ s.nextId := fun m hm => Int.ne_of_lt (h.older m hm)
    obtain ⟨hc, hid⟩ := delivered_newMsg h.strong s.nextId sender
    have hnot : ¬ (sender ∈ (newMsg s.n s.nextId sender).delivered ∨ s.isAlive sender = false) := by
      rintro (hempty | hdead)
      · exact IndexSet.not_mem_empty hempty
      · exact halive hdead
    have hnew : s.deliverMsg sender (newMsg s.n s.nextId sender) =
        deliverTo s.mode s.n sender (newMsg s.n s.nextId sender) := if_neg hnot
    have hmsgs : onMsg s.nextId (s.deliverMsg sender) (s.msgs ++ [newMsg s.n s.nextId sender]) =
        s.msgs ++ [deliverTo s.mode s.n sender (newMsg s.n s.nextId sender)] := by
      have hmid : (newMsg s.n s.nextId sender).id = s.nextId := rfl
      rw [onMsg_append _ _ hmid hold, hnew]
    have hpush := h.push hc hid
    rw [← hmsgs] at hpush
    exact hpush

theorem isAlive_set (s : Broadcast) (i p : Nat) : Broadcast.isAlive { s with alive := s.alive.set i false } p =
      if p = i then false else s.isAlive p := by
  unfold Broadcast.isAlive
  rw [List.getD_eq_getElem?_getD, List.getD_eq_getElem?_getD]
  by_cases hp : p = i
  · rw [if_pos hp, hp, List.getElem?_set]
    split
    · split
      · rfl
      · rfl
    · exact absurd rfl ‹_›
  · rw [if_neg hp, List.getElem?_set_ne (Ne.symm hp)]

theorem gone_of_not_survives {i : Nat} (hmode : s.mode ≠ .bestEffort) (hdead : s.isAlive i = false)
    (hm : s.survives i m = false) : Gone s { m with held := ∅ } := by
  unfold survives at hm
  cases hs : s.mode with
  | bestEffort => exact absurd hs hmode
  | reliable =>
    rw [hs] at hm
    refine ⟨fun _ => IndexSet.not_mem_empty, fun p hp => ?_, fun h => nomatch hs.symm.trans h⟩
    have hp := List.any_eq_false.mp hm p (IndexSet.mem_toList.mpr hp)
    by_cases hpi : p = i
    · rwa [hpi]
    · simpa [hpi] using hp
  | uniform =>
    rw [hs] at hm
    have hempty : m.delivered = ∅ := by
      rw [← Std.ExtTreeSet.isEmpty_iff]
      simpa using hm
    have hnobody : ∀ p, p ∉ m.delivered := fun p hp => by
      rw [hempty] at hp
      exact IndexSet.not_mem_empty hp
    exact ⟨fun _ => IndexSet.not_mem_empty, fun p hp => absurd hp (hnobody p), fun _ => hnobody⟩

/-- **A crash** either leaves a message as it was or takes what is held of it. -/
theorem Sound.crash (h : Sound s) (i : Nat) : Sound (s.crash i).1 := by
  unfold Broadcast.crash
  split
  · exact h
  generalize hs₁ : ({ s with alive := s.alive.set i false } : Broadcast) = s₁
  have hn : s₁.n = s.n := by rw [← hs₁]
  have hmode : s₁.mode = s.mode := by rw [← hs₁]
  have halive : ∀ p, s₁.isAlive p = if p = i then false else s.isAlive p := hs₁ ▸ isAlive_set s i
  have hstrong : s₁.mode ≠ .bestEffort := by
    rw [hmode]
    exact h.strong
  have hgroup : ∀ p, s₁.isAlive p = true → p < s₁.n := by
    intro p hp
    rw [halive] at hp
    split at hp
    · cases hp
    · exact hn ▸ h.group p hp
  subst hs₁
  refine h.mapped hstrong hgroup rfl rfl fun m hm => ?_
  split
  · rename_i hcrash
    have hgone := gone_of_not_survives hstrong (by rw [halive, if_pos rfl]) hcrash.2
    exact ⟨⟨fun p hp => absurd hp (hgone.held p), fun p hp => absurd hp (hgone.held p),
      .inr ⟨hgone.held, hgone.nobody, hgone.uniform⟩⟩, rfl⟩
  · refine ⟨(h.covered m hm).congr hn (fun p hp => ?_) hmode, rfl⟩
    have hp' : (if p = i then false else s.isAlive p) = false := by
      rw [hp]
      split
      · rfl
      · rfl
    exact (halive p).trans hp'

/-! ## Runs -/

def start (n : Nat) (mode : Mode) : Broadcast := { init n with mode := mode }

/-- The lines of the runs: one `init`, one mode, and the network loses nothing. -/
structure Kept (l : Line) : Prop where
  init : l.command ≠ "init"
  mode : l.command ≠ "mode"
  drop : l.command ≠ "drop"

/-- What holds after a `settle`. -/
structure Settled (s : Broadcast) : Prop where
  agreement : ∀ m ∈ s.msgs, (∃ p ∈ m.delivered, s.isAlive p = true) →
    ∀ q, s.isAlive q = true → q ∈ m.delivered
  uniform : s.mode = .uniform → ∀ m ∈ s.msgs, (∃ p, p ∈ m.delivered) →
    ∀ q, s.isAlive q = true → q ∈ m.delivered
  done : ∀ m ∈ s.msgs, ∀ q ∈ m.held, s.isAlive q = false

/-- **Nothing pending means agreement.** -/
theorem Sound.settled (h : Sound s) (hdone : s.pending = []) : Settled s := by
  have hheld : ∀ m ∈ s.msgs, ∀ q ∈ m.held, s.isAlive q = false := by
    intro m hm q hq
    cases halive : s.isAlive q with
    | false => rfl
    | true =>
      have hmem : (m.id, q) ∈ s.pending := mem_pending.mpr ⟨m, hm, rfl, hq, halive⟩
      rw [hdone] at hmem
      cases hmem
  have hall : ∀ m ∈ s.msgs, Full s.n m → ∀ q, s.isAlive q = true → q ∈ m.delivered := by
    intro m hm hfull q hq
    rcases hfull q (h.group q hq) with hin | hin
    · rw [hheld m hm q hin] at hq
      cases hq
    · exact hin
  refine ⟨fun m hm hp q hq => ?_, fun hmode m hm hp q hq => ?_, hheld⟩
  · rcases (h.covered m hm).full with hfull | hgone
    · exact hall m hm hfull q hq
    · obtain ⟨p, hp, halive⟩ := hp
      rw [hgone.nobody p hp] at halive
      cases halive
  · rcases (h.covered m hm).full with hfull | hgone
    · exact hall m hm hfull q hq
    · obtain ⟨p, hp⟩ := hp
      exact absurd hp (hgone.uniform hmode p)

theorem sound_start (n : Nat) (hmode : mode ≠ .bestEffort) : Sound (start n mode) where
  strong := hmode
  group p hp := by
    have halive : (List.replicate n true).getD p false = true := hp
    rw [List.getD_eq_getElem?_getD, List.getElem?_replicate] at halive
    split at halive
    · assumption
    · cases halive
  ids := List.Pairwise.nil
  older m hm := absurd hm List.not_mem_nil
  covered m hm := absurd hm List.not_mem_nil

section

variable [Host] {l : Line} {v : Value} {es : List (Event Broadcast Line Value)}

omit [Host] in
theorem sound_of_some {r : Broadcast × Value} (h : some r = some (s', v)) (hr : Sound r.1) : Sound s' := by
  cases h
  exact hr

theorem sound_step (h : Sound s) (hl : Kept l) (hs : onLine step s l = some (s', v)) : Sound s' := by
  obtain ⟨command, args⟩ := l
  unfold onLine step at hs
  dsimp only at hs
  split at hs
  case h_1 => exact absurd rfl hl.init
  case h_2 => exact absurd rfl hl.mode
  case h_3 =>
    refine arg_keeps h hs fun sender _ hs => ?_
    · exact h.broadcast hs
  case h_4 =>
    refine arg_keeps h hs fun id _ hs => ?_
    refine arg_keeps h hs fun dest _ hs => ?_
    · exact sound_of_some hs (h.hand id dest)
  case h_5 => exact absurd rfl hl.drop
  case h_6 =>
    refine arg_keeps h hs fun i _ hs => ?_
    · exact sound_of_some hs (h.crash i)
  case h_7 => exact sound_of_some hs h.settle.1
  case h_8 =>
    refine arg_keeps h hs fun id _ hs => ?_
    · exact sound_of_some hs h
  case h_9 => exact sound_of_some hs h
  case h_10 => exact sound_of_some hs h

/-- **Agreement of reliable and uniform broadcast**: whenever a `settle` has run, what a live process
has delivered every live process has, in uniform mode what anybody has delivered, and nothing is held
for a live process. -/
theorem broadcast_agreement {n : Nat} (hmode : mode ≠ .bestEffort)
    (hrun : Run (onLine step) (start n mode) es s) (hes : ∀ e ∈ es, Kept e.input) :
    ∀ e ∈ es, e.input.command = "settle" → Settled e.after := by
  intro e he hsettle
  obtain ⟨es₁, es₂, hsplit⟩ := List.append_of_mem he
  have hsound := (hrun.split hsplit).invariant (G := fun _ l => Kept l) (sound_start n hmode)
    (fun _ _ _ _ h hl hs => sound_step h hl hs)
    fun e he => hes e (hsplit ▸ List.mem_append_left _ he)
  have hstep := hrun.step_of_mem he
  obtain ⟨before, ⟨command, args⟩, output, after⟩ := e
  obtain rfl : command = "settle" := hsettle
  have hafter : before.settle.1 = after := congrArg Prod.fst (Option.some.inj hstep)
  have hsettled := Sound.settle hsound
  dsimp only at hsettled ⊢
  rw [hafter] at hsettled
  exact hsettled.1.settled hsettled.2

end

/-! Three processes, reliable: the sender crashes after one process has delivered, and that one
crashes too. -/

@[reducible] def noJson : Host := hostOf []

def twoCrashes : List Line :=
  [⟨"broadcast", ["0"]⟩, ⟨"hand", ["1", "1"]⟩, ⟨"crash", ["0"]⟩, ⟨"crash", ["1"]⟩, ⟨"settle", []⟩]

def keptLine (e : Event Broadcast Line Value) : Bool :=
  e.input.command != "init" && e.input.command != "mode" && e.input.command != "drop"

theorem kept_of_line {e : Event Broadcast Line Value} (h : keptLine e = true) : Kept e.input := by
  simp only [keptLine, Bool.and_eq_true, bne_iff_ne, ne_eq] at h
  exact ⟨h.1.1, h.1.2, h.2⟩

theorem broadcast_agreement_crashes : ∃ es e s,
    Run (onLine (@step noJson)) (start 3 .reliable) (es ++ [e]) s ∧
    (es ++ [e]).map Event.input = twoCrashes ∧ e.after.live = [2] ∧ Settled e.after := by
  let _ : Host := noJson
  obtain ⟨es, e, s, hrun, hinputs, hlive, hsettle, hall⟩ : ∃ es e s,
      Run (onLine step) (start 3 .reliable) (es ++ [e]) s ∧
      (es ++ [e]).map Event.input = twoCrashes ∧ e.after.live = [2] ∧
      e.input.command = "settle" ∧ (es ++ [e]).all keptLine = true :=
    ⟨[_, _, _, _], _, _, run_of_exec twoCrashes rfl, rfl, rfl, rfl, rfl⟩
  exact ⟨es, e, s, hrun, hinputs, hlive, broadcast_agreement (by decide) hrun
    (fun e he => kept_of_line (List.all_eq_true.mp hall e he)) e (by simp) hsettle⟩

end BuildYourOwn.Group.Broadcast
