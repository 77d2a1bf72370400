import BuildYourOwn.Group.Ordering

/-!
# Runs of the ordered broadcast

A command that keeps the order in force does one of three things (`Moves`): nothing, a send, or a
delivery that `deliverable` allowed. Along a run the counters stay right, what each order keeps is
kept, and every message that directly precedes another one has the smaller id and, where counters
decide, is covered by it (`Told`).

**`ordered_broadcast`**: FIFO delivers each sender's messages in sending order without gaps, causal
order never delivers a message before one that happened before it, and total order gives every two
processes logs of which one is a prefix of the other, and is causal too.
-/

namespace BuildYourOwn.Group.Ordering

open Lib Topic

variable {s s' : Ordering} {m m₁ m₂ : Ordered} {dest p k : Nat} {l : Line} {v : Value}
  {es : List (Event Ordering Line Value)} {o : Order} {n : Nat}

/-- The group and the order in force stay. -/
def Kept (l : Line) : Prop := l.command ≠ "init" ∧ l.command ≠ "order"

/-! ## What a command does -/

/-- **What a step can do.** -/
inductive Moves (s : Ordering) (l : Line) (s' : Ordering) (v : Value) : Prop
  | quiet (h : s' = s) (hv : l.command = "send" → v.numAt "id" = none)
  | send (sender : Nat) (hl : uint l.args 0 = .ok sender) (hs : sender < s.n)
      (h : s' = s.sendState sender) (hv : v.numAt "id" = some s.nextId)
  | offer (hl : l.command ≠ "send") (m : Ordered) (dest : Nat) (hm : m ∈ s.queue) (hd : dest < s.n)
      (hok : s.deliverable m dest = true) (h : s' = s.deliver m dest)

theorem numAt_err (message : String) : (err message).numAt "id" = none := rfl

theorem send_moves {sender : Nat} (hl : uint l.args 0 = .ok sender)
    (h : s.send sender = some (s', v)) : Moves s l s' v := by
  unfold send at h
  split at h
  · cases h
    exact Moves.quiet rfl fun _ => numAt_err _
  · rename_i hs
    obtain ⟨seq, hseq, h⟩ := Option.bind_eq_some_iff.mp h
    obtain ⟨nextId, hid, h⟩ := Option.bind_eq_some_iff.mp h
    obtain ⟨nextSlot, hslot, h⟩ := Option.map_eq_some_iff.mp h
    obtain ⟨-, rfl⟩ := addI64_eq_some.mp hseq
    obtain ⟨-, rfl⟩ := addI64_eq_some.mp hid
    obtain ⟨-, rfl⟩ := addI64_eq_some.mp hslot
    cases h
    exact Moves.send sender hl (Nat.lt_of_not_le hs) rfl rfl

theorem offer_moves {id : Int} (hl : l.command ≠ "send") (h : s.offer id dest = (s', v)) : Moves s l s' v := by
  have hquiet : s' = s → Moves s l s' v := fun h => Moves.quiet h fun hsend => absurd hsend hl
  unfold offer at h
  split at h
  · exact hquiet (Prod.mk.inj h).1.symm
  · rename_i hd
    split at h
    · exact hquiet (Prod.mk.inj h).1.symm
    · rename_i m hfind
      split at h
      · exact hquiet (Prod.mk.inj h).1.symm
      · split at h
        · exact hquiet (Prod.mk.inj h).1.symm
        · rename_i hok
          exact Moves.offer hl m dest (List.mem_of_find?_eq_some hfind) (Nat.lt_of_not_le hd)
            (Bool.not_eq_false _ ▸ hok) (Prod.mk.inj h).1.symm

/-- **Every command that keeps the order** does one of these. -/
theorem step_moves [Host] (hl : Kept l) (hs : onLine step s l = some (s', v)) : Moves s l s' v := by
  obtain ⟨command, args⟩ := l
  unfold onLine step at hs
  dsimp only at hs
  split at hs
  case h_1 => exact absurd rfl hl.1
  case h_2 => exact absurd rfl hl.2
  case h_3 =>
    rcases arg_eq_some.mp hs with ⟨hbad, rfl⟩ | ⟨sender, hsender, hs⟩
    · obtain ⟨message, rfl⟩ := uint_error hbad
      exact Moves.quiet rfl fun _ => numAt_err message
    · exact send_moves hsender hs
  case h_4 =>
    have hoffer : (⟨"offer", args⟩ : Line).command ≠ "send" := by simp
    rcases arg_eq_some.mp hs with ⟨-, rfl⟩ | ⟨id, -, hs⟩
    · exact Moves.quiet rfl fun h => absurd h hoffer
    · rcases arg_eq_some.mp hs with ⟨-, rfl⟩ | ⟨dest, -, hs⟩
      · exact Moves.quiet rfl fun h => absurd h hoffer
      · exact offer_moves hoffer (Option.some.inj hs)
  case h_5 =>
    rcases arg_eq_some.mp hs with ⟨-, rfl⟩ | ⟨i, -, hs⟩
    · exact Moves.quiet rfl fun h => absurd h (by simp)
    · exact Moves.quiet (state_eq hs) fun h => absurd h (by simp)
  case h_6 => exact Moves.quiet (state_eq hs) fun h => absurd h (by simp)
  case h_7 =>
    cases hs
    exact Moves.quiet rfl fun _ => numAt_err _

/-! ## What each order asks of a delivery -/

theorem next_of_deliverable (ho : s.order ≠ .total) (h : s.deliverable m dest = true) :
    s.count dest m.sender + 1 = m.seq := by
  unfold deliverable at h
  split at h
  · exact of_decide_eq_true h
  · split at h
    · cases h
    · rename_i hseq
      exact not_not.mp hseq
  · rename_i htotal
    exact absurd htotal ho

theorem clock_of_deliverable (ho : s.order = .causal) (h : s.deliverable m dest = true) :
    ∀ k < s.n, k ≠ m.sender → m.clock.getD k 0 ≤ s.count dest k := by
  intro k hk hne
  unfold deliverable at h
  rw [ho] at h
  dsimp only at h
  split at h
  · cases h
  · have hall := List.all_eq_true.mp h k (List.mem_range.mpr hk)
    rcases (Bool.or_eq_true _ _).mp hall with heq | hle
    · exact absurd (beq_iff_eq.mp heq) hne
    · exact of_decide_eq_true hle

theorem slot_of_deliverable (ho : s.order = .total) (h : s.deliverable m dest = true) :
    ((s.logAt dest).length : Int) + 1 = m.slot := by
  unfold deliverable at h
  rw [ho] at h
  exact of_decide_eq_true h

/-! ## The invariant -/

/-- What holds along a run under the order `o`. -/
structure Told (o : Order) (es : List (Event Ordering Line Value)) (s : Ordering) : Prop where
  order : s.order = o
  base : Base s
  taken : o ≠ .total → Taken s
  ahead : o = .causal → Ahead s
  slots : o = .total → InSlots s
  precedes : ∀ a b, Precedes es a b → ∃ m₁ ∈ s.queue, ∃ m₂ ∈ s.queue, m₁.id = a ∧ m₂.id = b ∧
    a < b ∧ (o ≠ .total → Covers m₁ m₂)

theorem precedes_snoc {e : Event Ordering Line Value} {a b : Int} (h : Precedes (es ++ [e]) a b) :
    Precedes es a b ∨ e.input.command = "send" ∧ e.output.numAt "id" = some b ∧
      ∃ p, uint e.input.args 0 = .ok p ∧ ((∃ m ∈ e.before.queue, m.id = a ∧ m.sender = p) ∨ a ∈ e.before.logAt p) := by
  obtain ⟨e', he', h⟩ := h
  rcases List.mem_append.mp he' with he' | he'
  · exact .inl ⟨e', he', h⟩
  · rw [List.mem_singleton.mp he'] at h
    exact .inr h

theorem told_start (n : Nat) (o : Order) : Told o [] (start n o) := by
  have hlog : ∀ p, (start n o).logAt p = [] := fun p => by
    unfold logAt start
    rw [List.getD_eq_getElem?_getD, List.getElem?_replicate]
    split
    · rfl
    · rfl
  have hcount : ∀ p k, (start n o).count p k = 0 := fun p k => by
    unfold count start
    rw [List.getD_eq_getElem?_getD, List.getD_eq_getElem?_getD, List.getElem?_replicate]
    split
    · rw [Option.getD_some, List.getElem?_replicate]
      split
      · rfl
      · rfl
    · rfl
  have hsent : ∀ k, (start n o).sentBy k = 0 := fun k => by
    unfold sentBy start
    rw [List.getD_eq_getElem?_getD, List.getElem?_replicate]
    split
    · rfl
    · rfl
  refine ⟨rfl, ?_, fun _ p k => ?_, fun _ p l₁ l₂ m₂ hm₂ => absurd hm₂ List.not_mem_nil,
    fun _ p => ?_, fun a b h => ?_⟩
  · exact {
      rows := List.length_replicate
      row := fun r hr => by
        rw [(List.mem_replicate.mp hr).2]
        exact List.length_replicate
      logs := List.length_replicate
      sents := List.length_replicate
      senders := List.forall_mem_nil _
      ids := fun j m hj => absurd hj (by simp [start])
      next := ⟨rfl, rfl⟩
      seqs := fun k j m hj => absurd hj (by simp [start, own])
      sent := fun k _ => hsent k
      logged := fun p id hid => absurd (hlog p ▸ hid) List.not_mem_nil
      counts := fun p k => by
        rw [hcount p k]
        exact ⟨Int.le_refl 0, Int.natCast_nonneg _⟩
      clocks := List.forall_mem_nil _
      ownClock := fun m hm => absurd hm List.not_mem_nil }
  · rw [hlog p, hcount p k]
    rfl
  · rw [hlog p]
    rfl
  · obtain ⟨e, he, -⟩ := h
    cases he

theorem Told.send (h : Told o es s) {sender : Nat} (hl : uint l.args 0 = .ok sender)
    (hs : sender < s.n) (hv : v.numAt "id" = some s.nextId) :
    Told o (es ++ [⟨s, l, v, s.sendState sender⟩]) (s.sendState sender) where
  order := h.order
  base := h.base.sendState hs
  taken ho := (h.taken ho).sendState h.base sender
  ahead ho := (h.ahead ho).sendState h.base hs
  slots ho := (h.slots ho).sendState sender
  precedes a b hab := by
    have hold : ∀ m ∈ s.queue, m ∈ (s.sendState sender).queue :=
      fun m hm => List.mem_append_left _ hm
    rcases precedes_snoc hab with hab | ⟨-, hb, p, hp, ha⟩
    · obtain ⟨m₁, hm₁, m₂, hm₂, h⟩ := h.precedes a b hab
      exact ⟨m₁, hold m₁ hm₁, m₂, hold m₂ hm₂, h⟩
    · obtain rfl : sender = p := Except.ok.inj (hl.symm.trans hp)
      obtain rfl : s.nextId = b := Option.mem_unique hv hb
      have hold_id : ∀ m ∈ s.queue, m.id < s.nextId := fun m hm => by
        obtain ⟨j, hj⟩ := List.mem_iff_getElem?.mp hm
        have hlt := (List.getElem?_eq_some_iff.mp hj).1
        have hid := (h.base.ids j m hj).1
        have hnext := h.base.next.1
        omega
      have hnew : s.newMsg sender ∈ (s.sendState sender).queue :=
        List.mem_concat_self
      rcases ha with ⟨m, hm, rfl, hsender⟩ | ha
      · -- the sender had sent `m`
        refine ⟨m, hold m hm, _, hnew, rfl, rfl, hold_id m hm, fun _ => .inl ⟨hsender, ?_⟩⟩
        have hseq := (h.base.seq_le hm).2
        have hsent := h.base.sent sender hs
        rw [hsender] at hseq
        show m.seq < s.sentBy sender + 1
        omega
      · -- the sender had delivered it
        obtain ⟨m, hm, rfl⟩ := h.base.logged sender a ha
        refine ⟨m, hold m hm, _, hnew, rfl, rfl, hold_id m hm, fun ho => .inr ?_⟩
        exact ((h.taken ho).mem_log h.base hm).mp ha

theorem Told.offer (h : Told o es s) (hl : l.command ≠ "send") (hm : m ∈ s.queue) (hd : dest < s.n)
    (hok : s.deliverable m dest = true) : Told o (es ++ [⟨s, l, v, s.deliver m dest⟩]) (s.deliver m dest) where
  order := h.order
  base := h.base.deliver hd hm
  taken ho := (h.taken ho).deliver h.base hd hm (next_of_deliverable (h.order ▸ ho) hok)
  ahead ho := by
    have hne : o ≠ .total := fun e => nomatch ho.symm.trans e
    exact (h.ahead ho).deliver h.base (h.taken hne) hd hm (next_of_deliverable (h.order ▸ hne) hok)
      (clock_of_deliverable (h.order.trans ho) hok)
  slots ho := (h.slots ho).deliver h.base hd hm (slot_of_deliverable (h.order.trans ho) hok)
  precedes a b hab := by
    rcases precedes_snoc hab with hab | ⟨hsend, -⟩
    · exact h.precedes a b hab
    · exact absurd hsend hl

theorem told [Host] (hrun : Run (onLine step) (start n o) es s) (hkept : ∀ e ∈ es, Kept e.input) : Told o es s := by
  refine hrun.history_invariant (P := Told o) (G := fun e => Kept e.input) (told_start n o) ?_ hkept
  intro es s l s' v h hl hs
  rcases step_moves hl hs with ⟨rfl, hv⟩ | ⟨sender, hsender, hlt, rfl, hv⟩ |
    ⟨hsend, m, dest, hm, hd, hok, rfl⟩
  · refine ⟨h.order, h.base, h.taken, h.ahead, h.slots, fun a b hab => ?_⟩
    rcases precedes_snoc hab with hab | ⟨hsend, hb, -⟩
    · exact h.precedes a b hab
    · cases (hv hsend).symm.trans hb
  · exact h.send hsender hlt hv
  · exact h.offer hsend hm hd hok

/-! ## The theorem -/

theorem Told.causal (h : Told o es s) (ho : o = .causal) : Causal es s := by
  refine causal_of_precedes fun a b hab p l₁ l₂ hlog => ?_
  obtain ⟨m₁, hm₁, m₂, hm₂, rfl, rfl, -, hcovers⟩ := h.precedes a b hab
  exact h.ahead ho p l₁ l₂ m₂ hm₂ hlog m₁ hm₁ (hcovers fun e => nomatch ho.symm.trans e)

theorem Told.causal_of_slots (h : Told o es s) (ho : o = .total) : Causal es s := by
  refine causal_of_precedes fun a b hab p l₁ l₂ hlog => ?_
  obtain ⟨m₁, hm₁, m₂, hm₂, rfl, rfl, hlt, -⟩ := h.precedes a b hab
  obtain ⟨j₁, hj₁⟩ := List.mem_iff_getElem?.mp hm₁
  have hid₁ := (h.base.ids j₁ m₁ hj₁).1
  have hslots := h.slots ho p
  rw [hlog] at hslots
  have hat : ∀ j : Nat, j < (l₁ ++ m₂.id :: l₂).length →
      (l₁ ++ m₂.id :: l₂)[j]? = (s.queue[j]?).map (·.id) := fun j hj => by
    conv_lhs => rw [hslots]
    rw [List.getElem?_take_of_lt hj, List.getElem?_map]
  have hlen : l₁.length < (l₁ ++ m₂.id :: l₂).length := by simp
  -- the position of the later message gives its id
  have hb := hat l₁.length hlen
  rw [List.getElem?_append_right (Nat.le_refl _), Nat.sub_self, List.getElem?_cons_zero] at hb
  obtain ⟨m, hm, hmid⟩ := Option.map_eq_some_iff.mp hb.symm
  have hid₂ := (h.base.ids l₁.length m hm).1
  have hj : j₁ < l₁.length := by omega
  have ha := hat j₁ (by omega)
  rw [List.getElem?_append_left hj, hj₁] at ha
  exact List.mem_of_getElem? ha

/-- **What each order guarantees**, after every run. -/
theorem ordered_broadcast [Host] (hrun : Run (onLine step) (start n o) es s)
    (hkept : ∀ e ∈ es, Kept e.input) :
    (o = .causal → Causal es s) ∧
    (o = .total → (∀ p q, s.logAt p <+: s.logAt q ∨ s.logAt q <+: s.logAt p) ∧ Causal es s) ∧
    (o = .fifo → Fifo s) := by
  have h := told hrun hkept
  refine ⟨h.causal, fun ho => ⟨fun p q => ?_, h.causal_of_slots ho⟩, fun ho => ?_⟩
  · rw [h.slots ho p, h.slots ho q]
    rcases Nat.le_total (s.logAt p).length (s.logAt q).length with hle | hle
    · exact .inl (List.take_prefix_take_left hle)
    · exact .inr (List.take_prefix_take_left hle)
  · exact (h.taken fun e => nomatch ho.symm.trans e).fifo

/-! A reply: process 1 answers a message of process 0, and process 2 is offered the answer first. -/

@[reducible] def noJson : Host := hostOf []

def reply : List Line :=
  [⟨"send", ["0"]⟩, ⟨"offer", ["1", "1"]⟩, ⟨"send", ["1"]⟩, ⟨"offer", ["2", "2"]⟩,
    ⟨"offer", ["1", "2"]⟩, ⟨"offer", ["2", "2"]⟩]

def keptLine (e : Event Ordering Line Value) : Bool :=
  e.input.command != "init" && e.input.command != "order"

theorem kept_of_line {e : Event Ordering Line Value} (h : keptLine e = true) : Kept e.input := by
  unfold keptLine at h
  rw [Bool.and_eq_true] at h
  exact ⟨bne_iff_ne.mp h.1, bne_iff_ne.mp h.2⟩

theorem ordered_broadcast_reply : ∃ es s, Run (onLine (@step noJson)) (start 3 .causal) es s ∧
    es.map Event.input = reply ∧ s.log = [[], [1], [1, 2]] ∧ Causal es s := by
  let _ : Host := noJson
  obtain ⟨es, s, hrun, hinputs, hlog, hall⟩ : ∃ es s, Run (onLine step) (start 3 .causal) es s ∧
      es.map Event.input = reply ∧ s.log = [[], [1], [1, 2]] ∧ es.all keptLine = true :=
    ⟨_, _, run_of_exec reply rfl, rfl, rfl, rfl⟩
  exact ⟨es, s, hrun, hinputs, hlog,
    (ordered_broadcast hrun fun e he => kept_of_line (List.all_eq_true.mp hall e he)).1 rfl⟩

end BuildYourOwn.Group.Ordering
