import Mathlib.Data.List.Induction
import BuildYourOwn.Protocols.Delivery

/-!
# Causal broadcast delivers everything exactly once

Deliveries are in causal order and no message is delivered twice, in every run that receives only what was
broadcast. Every message is delivered in the end when it once enters the buffer, which it does not when
the buffer holds another message of the same sender with the same text: such a message passes for a
duplicate of the one that waits.
-/

namespace BuildYourOwn.Protocols.CausalBroadcast

open Clocks Lib Topic View

variable [Host] {s s' : CausalBroadcast} {l : Line} {v : Value} {p q : String} {a b m : Message}
  {es es₁ es₂ : List (Event CausalBroadcast Line Value)} {e : Event CausalBroadcast Line Value}

/-! ## Causal order -/

/-- The sender of `b` had broadcast or delivered `a` when it broadcast `b`. -/
def Precedes (es : List (Event CausalBroadcast Line Value)) (a b : Message) : Prop :=
  ∃ es₁ e es₂, es = es₁ ++ e :: es₂ ∧ sentAt e = some b ∧ a ∈ deliveries es₁ b.sender

theorem count_of_precedes (hrun : Run (onLine step) ∅ es s) (hgenuine : Genuine es) (h : Precedes es a b) :
    a.number ≤ b.vc.count a.sender ∧ (a.sender = b.sender → a.number < b.number) ∧ a ∈ broadcasts es := by
  obtain ⟨es₁, e, es₂, rfl, hsent, ha⟩ := h
  have hrun₁ := hrun.split rfl
  have hstep := hrun.step_of_mem (List.mem_append_right es₁ List.mem_cons_self)
  have hkept := kept hrun₁ fun es₀ e₀ es₃ hes =>
    hgenuine es₀ e₀ (es₃ ++ e :: es₂) (by rw [hes, List.append_assoc]; rfl)
  have hall : a ∈ broadcasts es₁ := (hkept.views b.sender).taken.subset ha
  have hnum : a.number ≤ counted (deliveries es₁ b.sender) a.sender :=
    ((hkept.views b.sender).taken.mem_iff hkept.numbered hall).mp ha
  have hbump : (e.before.view b.sender).seen.bump b.sender = some b.vc := by
    rcases step_effect hstep with ⟨m, hm, hbump, -, -⟩ | ⟨_, _, _, hnone, -⟩ | ⟨hnone, -⟩
    · obtain rfl := Option.mem_unique hm hsent
      exact hbump
    · cases hnone.symm.trans hsent
    · cases hnone.symm.trans hsent
  have hclock := hkept.clock hbump
  refine ⟨?_, fun hs => ?_, ?_⟩
  · rw [hclock]
    split_ifs <;> omega
  · have hnext : b.number = counted (deliveries es₁ b.sender) b.sender + 1 := by
      rw [Message.number, hclock, if_pos rfl]
    rw [hs] at hnum
    omega
  · rw [broadcasts, List.filterMap_append]
    exact List.mem_append_left _ hall

theorem Kept.causal (h : Kept es s) (hrun : Run (onLine step) ∅ es s) (hgenuine : Genuine es)
    (hab : Relation.TransGen (Precedes es) a b) : ∀ l₁ l₂, deliveries es p = l₁ ++ b :: l₂ → a ∈ l₁ := by
  have hdirect : ∀ a b, Precedes es a b → ∀ l₁ l₂, deliveries es p = l₁ ++ b :: l₂ → a ∈ l₁ := by
    intro a b hab l₁ l₂ heq
    obtain ⟨hcount, hown, hall⟩ := count_of_precedes hrun hgenuine hab
    have htaken := (h.views p).taken
    have hleft : Taken Message.sender (broadcasts es) l₁ := (heq ▸ htaken).left
    refine (hleft.mem_iff h.numbered hall).mpr ?_
    by_cases hs : a.sender = b.sender
    · have hnumber := (htaken.numbered h.numbered).split heq
      have hlt := hown hs
      rw [hs]
      omega
    · exact hcount.trans ((h.views p).ahead l₁ b l₂ heq a.sender hs)
  induction hab with
  | single hab => exact hdirect _ _ hab
  | tail _ hcb ih =>
    intro l₁ l₂ heq
    obtain ⟨l₃, l₄, rfl⟩ := List.append_of_mem (hdirect _ _ hcb l₁ l₂ heq)
    rw [List.append_assoc, List.cons_append] at heq
    exact List.mem_append_left _ (ih l₃ _ heq)

/-! ## Everything is delivered -/

/-- `p` has received `m` at a moment when its buffer held no other message of its sender and its text. -/
def ClearReceipt (es : List (Event CausalBroadcast Line Value)) (p : String) (m : Message) : Prop :=
  ∃ e ∈ es, receivedAt e = some (p, m) ∧
    ∀ b ∈ (e.before.view p).buffer, b.sender = m.sender → b.text = m.text → b = m

omit [Host] in
theorem mem_accept {w : View} (b m : Message) (hb : b ∈ (w.accept m).buffer) :
    b ∈ w.buffer ∨ b = m ∧ ∀ b' ∈ w.buffer, b'.sender = m.sender → b'.text ≠ m.text := by
  unfold View.accept at hb
  dsimp only at hb
  split_ifs at hb with hnew
  · rcases List.mem_append.mp hb with hb | hb
    · exact .inl hb
    · refine .inr ⟨List.mem_singleton.mp hb, fun b' hb' hs ht => ?_⟩
      have hnone := List.any_eq_false.mp hnew.2 b' hb'
      simp [hs, ht] at hnone
  · exact .inl hb

omit [Host] in
theorem buffer_sub_accept {w : View} (m : Message) (hb : b ∈ w.buffer) : b ∈ (w.accept m).buffer := by
  unfold View.accept
  dsimp only
  split_ifs
  · exact List.mem_append_left _ hb
  · exact hb

theorem Kept.accepted (h : Kept es s) (hm : m ∈ broadcasts es)
    (hclear : ∀ b ∈ (s.view p).buffer, b.sender = m.sender → b.text = m.text → b = m) :
    m ∈ deliveries es p ∨ m ∈ ((s.view p).accept m).buffer := by
  by_cases hlt : (s.view p).seen.count m.sender < m.vc.count m.sender
  · refine .inr ?_
    unfold View.accept
    dsimp only
    split_ifs with hnew
    · exact List.mem_concat_self
    · have hany : ((s.view p).buffer.any fun b => b.sender == m.sender && b.text == m.text) = true := by
        rw [← Bool.not_eq_false]
        exact fun hfalse => hnew ⟨hlt, hfalse⟩
      obtain ⟨b, hb, hlike⟩ := List.any_eq_true.mp hany
      rw [Bool.and_eq_true, beq_iff_eq, beq_iff_eq] at hlike
      exact hclear b hb hlike.1 hlike.2 ▸ hb
  · refine .inl (((h.views p).taken.mem_iff h.numbered hm).mpr ?_)
    rw [(h.views p).count] at hlt
    exact Int.not_lt.mp hlt

/-- A process has delivered a message of another, or holds it, exactly when it has once received it clear. -/
def Received (es : List (Event CausalBroadcast Line Value)) (s : CausalBroadcast) : Prop :=
  ∀ p, ∀ m ∈ broadcasts es, m.sender ≠ p →
    ((m ∈ deliveries es p ∨ m ∈ (s.view p).buffer) ↔ ClearReceipt es p m)

theorem clearReceipt_snoc : ClearReceipt (es ++ [e]) p m ↔ ClearReceipt es p m ∨
    receivedAt e = some (p, m) ∧ ∀ b ∈ (e.before.view p).buffer, b.sender = m.sender → b.text = m.text → b = m := by
  constructor
  · rintro ⟨e', he', h⟩
    rcases List.mem_append.mp he' with he' | he'
    · exact .inl ⟨e', he', h⟩
    · obtain rfl := List.mem_singleton.mp he'
      exact .inr h
  · rintro (⟨e', he', h⟩ | h)
    · exact ⟨e', List.mem_append_left _ he', h⟩
    · exact ⟨e, List.mem_concat_self, h⟩

theorem ClearReceipt.mem_broadcasts (h : ClearReceipt es p m) (hgenuine : Genuine es) : m ∈ broadcasts es := by
  obtain ⟨e, he, hrecv, -⟩ := h
  obtain ⟨es₁, es₂, rfl⟩ := List.append_of_mem he
  rw [broadcasts, List.filterMap_append]
  exact List.mem_append_left _ (hgenuine es₁ e es₂ rfl p m hrecv)

theorem receivedAt_of_sentAt (h : sentAt e = some m) : receivedAt e = none := by
  unfold sentAt at h
  split at h
  · rename_i hcommand
    rw [receivedAt, hcommand]
    rfl
  · cases h

theorem received_sent (hkept : Kept es s) (hgenuine : Genuine es) (h : Received es s)
    (hsent : sentAt ⟨s, l, v, s'⟩ = some b) (hrecv : receivedAt ⟨s, l, v, s'⟩ = none)
    (hbump : (s.view b.sender).seen.bump b.sender = some b.vc)
    (hview : ∀ p, (s'.view p).buffer = (s.view p).buffer) : Received (es ++ [⟨s, l, v, s'⟩]) s' := by
  intro p m hm hne
  have hnew : m ∉ deliveredAt p ⟨s, l, v, s'⟩ := by
    rw [deliveredAt, hsent]
    dsimp only
    split_ifs with hp
    · intro hmem
      rw [List.mem_singleton.mp hmem] at hne
      exact hne hp
    · exact List.not_mem_nil
  have hnone : ¬ (receivedAt ⟨s, l, v, s'⟩ = some (p, m) ∧
      ∀ b ∈ (s.view p).buffer, b.sender = m.sender → b.text = m.text → b = m) := by
    rw [hrecv]
    exact fun h => absurd h.1 (by simp)
  rw [clearReceipt_snoc, or_iff_left hnone, deliveries_snoc, List.mem_append, or_iff_left hnew, hview]
  rw [broadcasts_snoc, hsent] at hm
  rcases List.mem_append.mp hm with hm | hm
  · exact h p m hm hne
  · obtain rfl := List.mem_singleton.mp hm
    -- its number is beyond those of all messages so far
    have hfresh : m ∉ broadcasts es := fun hall => by
      have hle := hkept.number_le hall
      have hnext := hkept.number_new hbump
      omega
    constructor
    · rintro (hdel | hbuf)
      · exact absurd ((hkept.views p).taken.subset hdel) hfresh
      · exact absurd ((hkept.views p).pending m hbuf).1 hfresh
    · exact fun hclear => absurd (hclear.mem_broadcasts hgenuine) hfresh

theorem received_handed (hkept : Kept es s) (h : Received es s)
    (hsent : sentAt ⟨s, l, v, s'⟩ = none) (hrecv : receivedAt ⟨s, l, v, s'⟩ = some (q, b))
    {r : View × List Message} (hr : ((s.view q).accept b).drain = some r) (hs' : s' = s.insert q r.1)
    (hb : b ∈ broadcasts es) : Received (es ++ [⟨s, l, v, s'⟩]) s' := by
  intro p m hm hne
  rw [broadcasts_snoc, hsent, Option.toList_none, List.append_nil] at hm
  have hold := h p m hm hne
  rw [clearReceipt_snoc, deliveries_snoc, deliveredAt, hsent, hrecv, hs', view_insert, List.mem_append]
  dsimp only
  by_cases hq : q = p
  · subst hq
    obtain ⟨-, -, hsplit⟩ := ((hkept.views q).accept hkept.numbered hb).drains hkept.numbered
      (drains_of_loop hr (Nat.le_refl _))
    rw [if_pos rfl, if_pos rfl, releasedBy, hr, or_assoc, ← hsplit m]
    constructor
    · rintro (hdel | hmem)
      · exact .inl (hold.mp (.inl hdel))
      · rcases mem_accept m b hmem with hbuf | ⟨rfl, hother⟩
        · exact .inl (hold.mp (.inr hbuf))
        · exact .inr ⟨rfl, fun b' hb' hs ht => absurd ht (hother b' hb' hs)⟩
    · rintro (hclear | ⟨heq, hclear⟩)
      · exact (hold.mpr hclear).imp id (buffer_sub_accept b)
      · obtain rfl := (Prod.mk.inj (Option.some.inj heq)).2
        exact hkept.accepted hm hclear
  · have hnone : ¬ (some (q, b) = some (p, m) ∧
        ∀ b' ∈ (s.view p).buffer, b'.sender = m.sender → b'.text = m.text → b' = m) := fun heq =>
      hq (Prod.mk.inj (Option.some.inj heq.1)).1
    rw [if_neg hq, if_neg hq, or_iff_left hnone, or_iff_left List.not_mem_nil]
    exact hold

/-- **What arrives clear is delivered or waits**, and nothing else is. -/
theorem received (hrun : Run (onLine step) ∅ es s) (hgenuine : Genuine es) : Received es s := by
  induction hrun with
  | nil => exact fun p m hm => absurd hm List.not_mem_nil
  | @snoc es s s' l v hrun hs ih =>
    obtain ⟨hbefore, hlast⟩ := genuine_snoc.mp hgenuine
    have hkept := kept hrun hbefore
    specialize ih hbefore
    rcases step_effect hs with ⟨b, hsent, hbump, -, hs'⟩ | ⟨q, b, r, hsent, hrecv, hr, hs'⟩ |
      ⟨hsent, hrecv, hview⟩
    · refine received_sent hkept hbefore ih hsent (receivedAt_of_sentAt hsent) hbump fun p => ?_
      have hview := view_insert s b.sender p
        { s.view b.sender with seen := b.vc, log := (s.view b.sender).log ++ [b.text] }
      rw [show s' = s.insert b.sender _ from hs', hview]
      split_ifs with hp
      · rw [hp]
      · rfl
    · exact received_handed hkept ih hsent hrecv hr hs' (hlast q b hrecv)
    · intro p m hm hne
      rw [broadcasts_snoc, hsent, Option.toList_none, List.append_nil] at hm
      have hnone : ¬ (receivedAt ⟨s, l, v, s'⟩ = some (p, m) ∧
          ∀ b ∈ (s.view p).buffer, b.sender = m.sender → b.text = m.text → b = m) := by
        rw [hrecv]
        exact fun h => absurd h.1 (by simp)
      rw [clearReceipt_snoc, or_iff_left hnone, deliveries_snoc, deliveredAt, hsent, hrecv,
        List.append_nil, hview]
      exact ih p m hm hne

/-- **Nothing waits for ever**: the messages that entered the buffer are all delivered. -/
theorem Kept.all_delivered (h : Kept es s) (hin : ∀ m ∈ broadcasts es, m ∈ deliveries es p ∨ m ∈ (s.view p).buffer) :
    ∀ m ∈ broadcasts es, m ∈ deliveries es p := by
  suffices hprefix : ∀ l₁ l₂, broadcasts es = l₁ ++ l₂ → ∀ m ∈ l₁, m ∈ deliveries es p from
    hprefix _ [] (List.append_nil _).symm
  intro l₁
  induction l₁ using List.reverseRecOn with
  | nil => exact fun _ _ m hm => absurd hm List.not_mem_nil
  | append_singleton l₁ m ih =>
    intro l₂ heq b hb
    rw [List.append_assoc] at heq
    have hearlier := ih _ heq
    rcases List.mem_append.mp hb with hb | hb
    · exact hearlier b hb
    obtain rfl := List.mem_singleton.mp hb
    have hall : b ∈ broadcasts es := by
      rw [heq]
      exact List.mem_append_right _ List.mem_cons_self
    refine (hin b hall).resolve_right fun hbuf => h.idle p b hbuf ?_
    -- all that was broadcast before it is delivered, so it is ready
    have hnot := ((h.views p).pending b hbuf).2
    have hcover : ∀ r, counted l₁ r ≤ (s.view p).seen.count r := fun r => by
      rw [(h.views p).count]
      refine Int.ofNat_le.mpr (length_le_of_subset ?_ fun b' hb' _ => hearlier b' hb')
      have hnodup := h.numbered.nodup_ofSender r
      rw [heq, ofSender_append] at hnodup
      exact (List.nodup_append.mp hnodup).1
    refine ⟨?_, fun r hr => (h.past l₁ b l₂ heq r hr).trans (hcover r)⟩
    have hnumber := h.numbered.split heq
    have hle := hcover b.sender
    have hlt : ¬ b.number ≤ counted (deliveries es p) b.sender := fun hle =>
      hnot (((h.views p).taken.mem_iff h.numbered hall).mpr hle)
    rw [(h.views p).count] at hle ⊢
    unfold Message.number counted at *
    omega

structure AllDelivered (es : List (Event CausalBroadcast Line Value)) (s : CausalBroadcast)
    (p : String) : Prop where
  log : (s.view p).log = (deliveries es p).map Message.text
  once : (deliveries es p).Perm (broadcasts es)
  order : ∀ a b, Relation.TransGen (Precedes es) a b →
    ∀ l₁ l₂, deliveries es p = l₁ ++ b :: l₂ → a ∈ l₁
  empty : (s.view p).buffer = []

def ReceivedAll (es : List (Event CausalBroadcast Line Value)) (s : CausalBroadcast) : Prop :=
  ∀ p ∈ s, ∀ m ∈ broadcasts es, m.sender ≠ p → ∃ e ∈ es, receivedAt e = some (p, m)

/-- **A process delivers every message exactly once and in causal order** exactly when it receives each message
of the others once while its buffer holds no other message of that sender with that text. -/
theorem delivered_iff (hrun : Run (onLine step) ∅ es s) (hgenuine : Genuine es) :
    (∀ p ∈ s, AllDelivered es s p) ↔
      ∀ p ∈ s, ∀ m ∈ broadcasts es, m.sender ≠ p → ClearReceipt es p m := by
  have hkept := kept hrun hgenuine
  have hreceived := received hrun hgenuine
  refine forall₂_congr fun p _ => ⟨fun h m hm hne => ?_, fun h => ?_⟩
  · exact (hreceived p m hm hne).mp (.inl (h.once.mem_iff.mpr hm))
  · have hview := hkept.views p
    have hall : ∀ m ∈ broadcasts es, m ∈ deliveries es p := by
      refine hkept.all_delivered fun m hm => ?_
      by_cases hp : m.sender = p
      · have hown : m ∈ ofSender Message.sender p (broadcasts es) := mem_ofSender.mpr ⟨hm, hp⟩
        rw [← hkept.own p] at hown
        exact .inl (mem_ofSender.mp hown).1
      · exact (hreceived p m hm hp).mpr (h m hm hp)
    refine ⟨hview.log, ?_, fun a b hab => hkept.causal hrun hgenuine hab, ?_⟩
    · refine (List.perm_ext_iff_of_nodup (hview.taken.nodup hkept.numbered) hkept.numbered.nodup).mpr
        fun m => ⟨hview.taken.subset, hall m⟩
    · refine List.eq_nil_iff_forall_not_mem.mpr fun m hm => ?_
      obtain ⟨hmem, hnot⟩ := hview.pending m hm
      exact hnot (hall m hmem)

/-! The second message of a sender arrives first, and the first one has the same text. -/

@[reducible] def twoClocks : Host :=
  hostOf [("\x7b\"p\":1\x7d", .obj [("p", .num 1)]), ("\x7b\"p\":2\x7d", .obj [("p", .num 2)])]

/-- The clock that counts `n` for `p` and nothing else. -/
def countP (n : Int) : Clock := Std.ExtTreeMap.insert ∅ "p" n

def sameText : List Line :=
  [⟨"bcast", ["p", "x"]⟩, ⟨"bcast", ["p", "x"]⟩, ⟨"recv", ["q", "p", "x", "\x7b\"p\":2\x7d"]⟩,
    ⟨"recv", ["q", "p", "x", "\x7b\"p\":1\x7d"]⟩]

omit [Host] in
theorem same_text_lost : ∃ es s, Run (onLine (@step twoClocks)) ∅ es s ∧
    es.map Event.input = sameText ∧ @Genuine twoClocks es ∧ @ReceivedAll twoClocks es s ∧
    (s.view "q").log = [] ∧ ¬ ∀ p ∈ s, @AllDelivered twoClocks es s p := by
  let _ : Host := twoClocks
  obtain ⟨e₁, e₂, e₃, e₄, s, hrun, hinputs, hsent, hrecv, hlog, hkeys⟩ : ∃ e₁ e₂ e₃ e₄ s,
      Run (onLine step) ∅ [e₁, e₂, e₃, e₄] s ∧ [e₁, e₂, e₃, e₄].map Event.input = sameText ∧
      [e₁, e₂, e₃, e₄].map sentAt =
        [some ⟨"p", "x", countP 1⟩, some ⟨"p", "x", countP 2⟩, none, none] ∧
      [e₁, e₂, e₃, e₄].map receivedAt =
        [none, none, some ("q", ⟨"p", "x", countP 2⟩), some ("q", ⟨"p", "x", countP 1⟩)] ∧
      (s.view "q").log = [] ∧ s.keys = ["p", "q"] :=
    ⟨_, _, _, _, _, run_of_exec sameText rfl, rfl, rfl, rfl, rfl, rfl⟩
  simp only [List.map_cons, List.map_nil, List.cons.injEq, and_true] at hsent hrecv
  obtain ⟨hs₁, hs₂, hs₃, hs₄⟩ := hsent
  obtain ⟨hr₁, hr₂, hr₃, hr₄⟩ := hrecv
  have hfirst : broadcasts [e₁, e₂] = [⟨"p", "x", countP 1⟩, ⟨"p", "x", countP 2⟩] := by
    simp [broadcasts, hs₁, hs₂]
  have hthree : broadcasts [e₁, e₂, e₃] = broadcasts [e₁, e₂] := by
    simp [broadcasts, hs₁, hs₂, hs₃]
  have hall : broadcasts [e₁, e₂, e₃, e₄] = broadcasts [e₁, e₂] := by
    simp [broadcasts, hs₁, hs₂, hs₃, hs₄]
  refine ⟨_, s, hrun, hinputs, ?_, ?_, hlog, fun h => ?_⟩
  · intro es₁ e es₂ hes p m hr
    rcases es₁ with _ | ⟨a, _ | ⟨b, _ | ⟨c, _ | ⟨d, es₁⟩⟩⟩⟩ <;>
      simp only [List.cons_append, List.nil_append, List.cons.injEq] at hes
    · cases hr₁.symm.trans (hes.1 ▸ hr)
    · cases hr₂.symm.trans (hes.2.1 ▸ hr)
    · obtain ⟨rfl, rfl, rfl, rfl⟩ := hes
      obtain ⟨-, rfl⟩ := Prod.mk.inj (Option.mem_unique hr₃ hr)
      simp [hfirst]
    · obtain ⟨rfl, rfl, rfl, rfl, -⟩ := hes
      obtain ⟨-, rfl⟩ := Prod.mk.inj (Option.mem_unique hr₄ hr)
      simp [hthree, hfirst]
    · exact absurd hes.2.2.2.2 (by simp)
  · intro p hp m hm hne
    rw [← Std.ExtTreeMap.mem_keys, hkeys] at hp
    rw [hall, hfirst] at hm
    simp only [List.mem_cons, List.not_mem_nil, or_false] at hp hm
    rcases hm with rfl | rfl
    · exact ⟨e₄, by simp, by rw [hr₄, hp.resolve_left (Ne.symm hne)]⟩
    · exact ⟨e₃, by simp, by rw [hr₃, hp.resolve_left (Ne.symm hne)]⟩
  · have hq : "q" ∈ s := by
      rw [← Std.ExtTreeMap.mem_keys, hkeys]
      simp
    have hview := h "q" hq
    have hnone : deliveries [e₁, e₂, e₃, e₄] "q" = [] :=
      List.map_eq_nil_iff.mp (hview.log.symm.trans hlog)
    have hlength := hview.once.length_eq
    rw [hnone, hall, hfirst] at hlength
    cases hlength

def oneMessage : List Line := [⟨"bcast", ["p", "x"]⟩, ⟨"recv", ["q", "p", "x", "\x7b\"p\":1\x7d"]⟩]

omit [Host] in
theorem delivered_iff_one_message : ∃ es s, Run (onLine (@step twoClocks)) ∅ es s ∧
    es.map Event.input = oneMessage ∧ ∀ p ∈ s, @AllDelivered twoClocks es s p := by
  let _ : Host := twoClocks
  obtain ⟨e₁, e₂, s, hrun, hinputs, hsent, hrecv, hbuffer, hkeys⟩ : ∃ e₁ e₂ s,
      Run (onLine step) ∅ [e₁, e₂] s ∧ [e₁, e₂].map Event.input = oneMessage ∧
      [e₁, e₂].map sentAt = [some ⟨"p", "x", countP 1⟩, none] ∧
      [e₁, e₂].map receivedAt = [none, some ("q", ⟨"p", "x", countP 1⟩)] ∧
      (e₂.before.view "q").buffer = [] ∧ s.keys = ["p", "q"] :=
    ⟨_, _, _, run_of_exec oneMessage rfl, rfl, rfl, rfl, rfl, rfl⟩
  simp only [List.map_cons, List.map_nil, List.cons.injEq, and_true] at hsent hrecv
  have hgenuine : Genuine [e₁, e₂] := by
    intro es₁ e es₂ hes p m hr
    rcases es₁ with _ | ⟨a, _ | ⟨b, es₁⟩⟩ <;>
      simp only [List.cons_append, List.nil_append, List.cons.injEq] at hes
    · cases hrecv.1.symm.trans (hes.1 ▸ hr)
    · obtain ⟨rfl, rfl, -⟩ := hes
      obtain ⟨-, rfl⟩ := Prod.mk.inj (Option.mem_unique hrecv.2 hr)
      simp [broadcasts, hsent.1]
    · exact absurd hes.2.2 (by simp)
  refine ⟨_, s, hrun, hinputs, (delivered_iff hrun hgenuine).mpr fun p hp m hm hne => ?_⟩
  rw [← Std.ExtTreeMap.mem_keys, hkeys] at hp
  simp only [broadcasts, hsent, List.filterMap_cons, List.filterMap_nil, List.mem_cons,
    List.not_mem_nil, or_false] at hp hm
  subst hm
  refine ⟨e₂, by simp, by rw [hrecv.2, hp.resolve_left (Ne.symm hne)], ?_⟩
  rw [hp.resolve_left (Ne.symm hne), hbuffer]
  exact List.forall_mem_nil _

end BuildYourOwn.Protocols.CausalBroadcast
