import BuildYourOwn.Lib.Streams
import BuildYourOwn.Protocols.CausalBroadcast

/-!
# What a process has delivered

A message is the next one of its sender for a receiver that has counted up to it, and its clock covers
everything it depends on. So a receiver's deliveries are the first messages of each sender, none of
them before what its clock counts.

* A view with its deliveries: `ViewOk`, kept by `accept` and `drain`.
-/

namespace BuildYourOwn.Protocols

open Clocks Lib Topic

def Message.number (m : Message) : Int := m.vc.count m.sender

def counted (l : List Message) (r : String) : Int := (ofSender Message.sender r l).length

def Ready (seen : Clock) (m : Message) : Prop :=
  m.vc.count m.sender = seen.count m.sender + 1 ∧ ∀ r ≠ m.sender, m.vc.count r ≤ seen.count r

variable {seen : Clock} {m b : Message} {v v' : View} {all l l' : List Message}

theorem deliverable_iff (hseen : ∀ r, 0 ≤ seen.count r) {ready : Bool}
    (h : deliverable seen m = some ready) : ready = true ↔ Ready seen m := by
  unfold deliverable at h
  obtain ⟨next, hnext, rfl⟩ := Option.map_eq_some_iff.mp h
  rw [(addI64_eq_some.mp hnext).2, Bool.and_eq_true, beq_iff_eq, List.all_eq_true]
  refine and_congr_right fun _ => ⟨fun hall r hr => ?_, fun hall e he => ?_⟩
  · rw [Clock.count_eq (a := m.vc)]
    cases hget : m.vc[r]? with
    | none => exact hseen r
    | some n =>
      refine of_decide_eq_true (hall (r, n) (List.mem_filter.mpr ⟨StringMap.mem_toList.mpr hget, ?_⟩))
      exact bne_iff_ne.mpr hr
  · obtain ⟨hmem, hne⟩ := List.mem_filter.mp he
    have hcount : m.vc.count e.1 = e.2 := by
      rw [Clock.count_eq, StringMap.mem_toList.mp hmem, Option.getD_some]
    exact decide_eq_true (hcount ▸ hall e.1 (bne_iff_ne.mp hne))

namespace View

/-! ## Draining a buffer -/

theorem nextIn_none {buffer : List Message} (h : nextIn seen buffer = some none) :
    ∀ m ∈ buffer, deliverable seen m = some false := by
  induction buffer with
  | nil => exact List.forall_mem_nil _
  | cons b buffer ih =>
    obtain ⟨ready, hready, h⟩ := Option.bind_eq_some_iff.mp h
    cases ready with
    | true => cases h
    | false =>
      obtain ⟨i, hi, hmap⟩ := Option.map_eq_some_iff.mp h
      intro m hm
      rcases List.mem_cons.mp hm with rfl | hm
      · exact hready
      · exact ih (by rw [hi, Option.map_eq_none_iff.mp hmap]) m hm

theorem nextIn_some {buffer : List Message} {i : Nat} (h : nextIn seen buffer = some (some i)) :
    ∃ m, buffer[i]? = some m ∧ deliverable seen m = some true := by
  induction buffer generalizing i with
  | nil => simp [nextIn] at h
  | cons b buffer ih =>
    obtain ⟨ready, hready, h⟩ := Option.bind_eq_some_iff.mp h
    cases ready with
    | true =>
      obtain rfl := Option.some.inj (Option.some.inj h)
      exact ⟨b, rfl, hready⟩
    | false =>
      obtain ⟨j, hj, hmap⟩ := Option.map_eq_some_iff.mp h
      obtain ⟨k, rfl, rfl⟩ := Option.map_eq_some_iff.mp hmap
      exact ih hj

inductive Drains : View → List Message → View → Prop
  | done {v : View} (h : ∀ m ∈ v.buffer, deliverable v.seen m = some false) : Drains v [] v
  | next {v v₁ v' : View} {i : Nat} {m : Message} {l : List Message} (hm : v.buffer[i]? = some m)
      (hready : deliverable v.seen m = some true) (hrelease : v.release i m = some v₁)
      (h : Drains v₁ l v') : Drains v (m :: l) v'

theorem length_release {i : Nat} (h : v.release i m = some v') (hi : i < v.buffer.length) :
    v'.buffer.length + 1 = v.buffer.length := by
  unfold release at h
  obtain ⟨seen, -, rfl⟩ := Option.map_eq_some_iff.mp h
  rw [List.length_eraseIdx_of_lt hi]
  omega

theorem drains_of_loop {left : Nat} (h : drainLoop left v = some (v', l))
    (hleft : v.buffer.length ≤ left) : Drains v l v' := by
  induction left generalizing v l with
  | zero =>
    cases h
    refine Drains.done fun m hm => ?_
    rw [List.length_eq_zero_iff.mp (Nat.le_zero.mp hleft)] at hm
    cases hm
  | succ left ih =>
    obtain ⟨next, hnext, h⟩ := Option.bind_eq_some_iff.mp h
    cases next with
    | none =>
      cases h
      exact Drains.done (nextIn_none hnext)
    | some i =>
      obtain ⟨m, hm, hready⟩ := nextIn_some hnext
      have hi := (List.getElem?_eq_some_iff.mp hm).1
      rw [Option.bind_some, hm, Option.map_some] at h
      obtain ⟨v₁, hrelease, h⟩ := Option.bind_eq_some_iff.mp h
      obtain ⟨r, hr, heq⟩ := Option.map_eq_some_iff.mp h
      cases heq
      have hlength := length_release hrelease hi
      exact Drains.next hm hready hrelease (ih hr (by omega))

/-! ## A view with its deliveries -/

/-- What holds of a view after it has delivered the messages of `l`, when those of `all` have been
broadcast. -/
structure ViewOk (all l : List Message) (v : View) : Prop where
  taken : Taken Message.sender all l
  count : ∀ r, v.seen.count r = counted l r
  log : v.log = l.map Message.text
  pending : ∀ m ∈ v.buffer, m ∈ all ∧ m ∉ l
  nodup : v.buffer.Nodup
  ahead : ∀ l₁ b l₂, l = l₁ ++ b :: l₂ → ∀ r ≠ b.sender, b.vc.count r ≤ counted l₁ r

theorem ViewOk.nonneg (h : ViewOk all l v) (r : String) : 0 ≤ v.seen.count r := by
  rw [h.count]
  exact Int.natCast_nonneg _

theorem counted_snoc (r : String) (l : List Message) (m : Message) :
    counted (l ++ [m]) r = if r = m.sender then counted l r + 1 else counted l r := by
  unfold counted
  rw [ofSender_append, ofSender_singleton, List.length_append]
  by_cases hr : m.sender = r
  · rw [if_pos hr, if_pos hr.symm]
    rfl
  · rw [if_neg hr, if_neg (Ne.symm hr)]
    rfl

theorem release_seen {i : Nat} (h : v.release i m = some v') (hseen : ∀ r, 0 ≤ v.seen.count r)
    (hready : Ready v.seen m) (r : String) :
    v'.seen.count r = if r = m.sender then v.seen.count r + 1 else v.seen.count r := by
  unfold release at h
  obtain ⟨seen, hbump, rfl⟩ := Option.map_eq_some_iff.mp h
  have hcount := @Clock.count_bump _ _ r _ hbump
  have hnonneg : 0 ≤ seen.count r := by
    have := hseen r
    rw [hcount]
    split_ifs <;> omega
  show (Clock.mergeInto seen m.vc).count r = _
  rw [Clock.count_merge hnonneg, hcount]
  split_ifs with hr
  · rw [hr, hready.1, max_self]
  · exact max_eq_left (hready.2 r hr)

theorem ahead_snoc (h : ∀ l₁ b l₂, l = l₁ ++ b :: l₂ → ∀ r ≠ b.sender, b.vc.count r ≤ counted l₁ r)
    (hm : ∀ r ≠ m.sender, m.vc.count r ≤ counted l r) :
    ∀ l₁ b l₂, l ++ [m] = l₁ ++ b :: l₂ → ∀ r ≠ b.sender, b.vc.count r ≤ counted l₁ r := by
  intro l₁ b l₂ heq
  rcases List.eq_nil_or_concat l₂ with rfl | ⟨l₂, b', rfl⟩
  · obtain ⟨rfl, hb⟩ := List.append_inj' heq rfl
    obtain rfl := List.singleton_inj.mp hb
    exact hm
  · rw [List.concat_eq_append, ← List.cons_append, ← List.append_assoc] at heq
    exact h l₁ b l₂ (List.append_inj' heq rfl).1

theorem ViewOk.release (h : ViewOk all l v) (hn : Numbered Message.sender Message.number all) {i : Nat}
    (hm : v.buffer[i]? = some m) (hready : Ready v.seen m) (hv : v.release i m = some v') :
    ViewOk all (l ++ [m]) v' := by
  have hmem := List.mem_of_getElem? hm
  have hseen := release_seen hv h.nonneg hready
  have hlog : v'.log = v.log ++ [m.text] ∧ v'.buffer = v.buffer.eraseIdx i := by
    unfold View.release at hv
    obtain ⟨seen, -, rfl⟩ := Option.map_eq_some_iff.mp hv
    exact ⟨rfl, rfl⟩
  refine ⟨?_, fun r => ?_, ?_, fun b hb => ?_, ?_, ?_⟩
  · exact h.taken.snoc hn (h.pending m hmem).1 (hready.1.trans (by rw [h.count]; rfl))
  · rw [hseen, counted_snoc, h.count]
  · rw [hlog.1, h.log, List.map_append]
    rfl
  · rw [hlog.2] at hb
    obtain ⟨j, hj, hget⟩ := List.mem_eraseIdx_iff_getElem?.mp hb
    obtain ⟨hball, hbl⟩ := h.pending b (List.mem_of_getElem? hget)
    refine ⟨hball, fun hin => ?_⟩
    rcases List.mem_append.mp hin with hin | hin
    · exact hbl hin
    · -- the buffer has the message once
      obtain rfl := List.mem_singleton.mp hin
      exact hj ((List.getElem?_inj (List.getElem?_eq_some_iff.mp hget).1 h.nodup).mp
        (hget.trans hm.symm))
  · rw [hlog.2]
    exact h.nodup.eraseIdx i
  · exact ahead_snoc h.ahead fun r hr => (hready.2 r hr).trans (by rw [h.count])

/-- **A drain** delivers what it releases, and leaves nothing that is ready. -/
theorem ViewOk.drains (h : ViewOk all l v) (hn : Numbered Message.sender Message.number all)
    (hd : Drains v l' v') : ViewOk all (l ++ l') v' ∧ (∀ m ∈ v'.buffer, ¬ Ready v'.seen m) ∧
      ∀ m, m ∈ v.buffer ↔ m ∈ l' ∨ m ∈ v'.buffer := by
  induction hd generalizing l with
  | done hnone =>
    rw [List.append_nil]
    refine ⟨h, fun m hm hready => ?_, fun m => ?_⟩
    · exact absurd ((deliverable_iff h.nonneg (hnone m hm)).mpr hready) (by decide)
    · exact ⟨.inr, fun hm => hm.resolve_left List.not_mem_nil⟩
  | @next v v₁ v' i m l' hm hready hrelease _ ih =>
    have hnext := h.release hn hm ((deliverable_iff h.nonneg hready).mp rfl) hrelease
    obtain ⟨hok, hidle, hsplit⟩ := ih hnext
    have hbuffer : v₁.buffer = v.buffer.eraseIdx i := by
      unfold View.release at hrelease
      obtain ⟨seen, -, rfl⟩ := Option.map_eq_some_iff.mp hrelease
      rfl
    rw [List.append_assoc] at hok
    refine ⟨hok, hidle, fun b => ?_⟩
    rw [List.mem_cons, or_assoc, ← hsplit b, hbuffer, List.mem_eraseIdx_iff_getElem?]
    constructor
    · intro hb
      obtain ⟨j, hj⟩ := List.getElem?_of_mem hb
      by_cases hij : j = i
      · subst hij
        exact .inl (Option.mem_unique hj hm)
      · exact .inr ⟨j, hij, hj⟩
    · rintro (rfl | ⟨j, -, hj⟩)
      · exact List.mem_of_getElem? hm
      · exact List.mem_of_getElem? hj

/-- **A message that arrives** is taken into the buffer, unless the view has counted it or holds one that
passes for the same. -/
theorem ViewOk.accept (h : ViewOk all l v) (hn : Numbered Message.sender Message.number all)
    (hm : m ∈ all) : ViewOk all l (v.accept m) := by
  unfold View.accept
  dsimp only
  split_ifs with hnew
  · refine ⟨h.taken, h.count, h.log, fun b hb => ?_, ?_, h.ahead⟩
    · rcases List.mem_append.mp hb with hb | hb
      · exact h.pending b hb
      · obtain rfl := List.mem_singleton.mp hb
        refine ⟨hm, fun hin => ?_⟩
        have hle := (h.taken.mem_iff hn hm).mp hin
        have hlt := hnew.1
        rw [h.count] at hlt
        exact absurd hle (Int.not_le.mpr hlt)
    · refine List.nodup_append.mpr ⟨h.nodup, List.nodup_singleton m, ?_⟩
      rintro a ha b hb rfl
      obtain rfl := List.mem_singleton.mp hb
      have hnone := List.any_eq_false.mp hnew.2 a ha
      simp at hnone
  · exact h

end View

namespace CausalBroadcast

open View

/-! ## The history -/

/-- The message of a `bcast` line, with the clock that its sender has afterwards. -/
def sentBy (after : CausalBroadcast) (args : List String) : Option Message :=
  match word args 0, word args 1 with
  | .ok p, .ok text => some ⟨p, text, (after.view p).seen⟩
  | _, _ => none

/-- The message of a `recv` line, and who it is for. -/
def receivedBy [Host] (args : List String) : Option (String × Message) :=
  match word args 0, word args 1, word args 2, clockFrom args 3 with
  | .ok p, .ok sender, .ok text, .ok vc => some (p, ⟨sender, text, vc⟩)
  | _, _, _, _ => none

def sentAt (e : Event CausalBroadcast Line Value) : Option Message :=
  match e.input.command with
  | "bcast" => sentBy e.after e.input.args
  | _ => none

def receivedAt [Host] (e : Event CausalBroadcast Line Value) : Option (String × Message) :=
  match e.input.command with
  | "recv" => receivedBy e.input.args
  | _ => none

def releasedBy (v : View) (m : Message) : List Message :=
  match (v.accept m).drain with
  | some r => r.2
  | none => []

/-- What `p` delivers at an event: its own broadcast, or what a message releases. -/
def deliveredAt [Host] (p : String) (e : Event CausalBroadcast Line Value) : List Message :=
  match sentAt e, receivedAt e with
  | some m, _ => if m.sender = p then [m] else []
  | none, some (q, m) => if q = p then releasedBy (e.before.view p) m else []
  | none, none => []

def broadcasts (es : List (Event CausalBroadcast Line Value)) : List Message := es.filterMap sentAt

def deliveries [Host] (es : List (Event CausalBroadcast Line Value)) (p : String) : List Message :=
  es.flatMap (deliveredAt p)

/-- Only messages that were broadcast before, with the clocks they were answered, are received. -/
def Genuine [Host] (es : List (Event CausalBroadcast Line Value)) : Prop :=
  ∀ es₁ e es₂, es = es₁ ++ e :: es₂ → ∀ p m, receivedAt e = some (p, m) → m ∈ broadcasts es₁

variable [Host] {s s' : CausalBroadcast} {l : Line} {v : Value} {p q : String} {m b : Message}
  {es es₁ es₂ : List (Event CausalBroadcast Line Value)} {e : Event CausalBroadcast Line Value}

theorem genuine_snoc : Genuine (es ++ [e]) ↔ Genuine es ∧ ∀ p m, receivedAt e = some (p, m) → m ∈ broadcasts es := by
  constructor
  · intro h
    refine ⟨fun es₁ e' es₂ hes => h es₁ e' (es₂ ++ [e]) ?_, h es e [] rfl⟩
    rw [hes, List.append_assoc]
    rfl
  · rintro ⟨h, hlast⟩ es₁ e' es₂ hes
    rcases List.eq_nil_or_concat es₂ with rfl | ⟨es₂, e'', rfl⟩
    · obtain ⟨rfl, he⟩ := List.append_inj' hes rfl
      obtain rfl := List.singleton_inj.mp he
      exact hlast
    · rw [List.concat_eq_append, ← List.cons_append, ← List.append_assoc] at hes
      exact h es₁ e' es₂ (List.append_inj' hes rfl).1

omit [Host] in
theorem view_insert (s : CausalBroadcast) (p q : String) (w : View) :
    view (s.insert p w) q = if p = q then w else s.view q :=
  StringMap.getD_insert _ _ _ _ _

def Effect (e : Event CausalBroadcast Line Value) : Prop :=
  (∃ m, sentAt e = some m ∧ (e.before.view m.sender).seen.bump m.sender = some m.vc ∧
    e.output = .obj [("vc", clockJson m.vc)] ∧ e.after = e.before.insert m.sender
      { e.before.view m.sender with
        seen := m.vc
        log := (e.before.view m.sender).log ++ [m.text] }) ∨
  (∃ p m r, sentAt e = none ∧ receivedAt e = some (p, m) ∧
    ((e.before.view p).accept m).drain = some r ∧ e.after = e.before.insert p r.1) ∨
  (sentAt e = none ∧ receivedAt e = none ∧ ∀ p, e.after.view p = e.before.view p)

omit [Host] in
theorem view_addViews (ws : List String) (s : CausalBroadcast) (p : String) :
    view (ws.foldl addView s) p = s.view p := by
  induction ws generalizing s with
  | nil => rfl
  | cons w ws ih =>
    rw [List.foldl_cons, ih, addView, view_insert]
    split_ifs with hw
    · rw [hw]
    · rfl

theorem step_effect (h : onLine step s l = some (s', v)) : Effect ⟨s, l, v, s'⟩ := by
  obtain ⟨command, args⟩ := l
  unfold onLine step at h
  dsimp only at h
  split at h
  · refine .inr (.inr ⟨rfl, rfl, fun p => ?_⟩)
    rcases arg_eq_some.mp h with ⟨-, rfl⟩ | ⟨w, -, h⟩
    · rfl
    · rw [Option.some.injEq, Prod.mk.injEq] at h
      obtain ⟨rfl, -⟩ := h
      exact view_addViews _ _ _
  · have hquiet : sentBy s args = none → Effect ⟨s, ⟨"bcast", args⟩, v, s⟩ := fun hnone =>
      .inr (.inr ⟨hnone, rfl, fun _ => rfl⟩)
    rcases arg_eq_some.mp h with ⟨hp, rfl⟩ | ⟨p, hp, h⟩
    · exact hquiet (by rw [sentBy, hp])
    rcases arg_eq_some.mp h with ⟨htext, rfl⟩ | ⟨text, htext, h⟩
    · exact hquiet (by rw [sentBy, hp, htext])
    unfold bcast at h
    obtain ⟨seen, hbump, heq⟩ := Option.map_eq_some_iff.mp h
    cases heq
    refine .inl ⟨⟨p, text, seen⟩, ?_, hbump, rfl, rfl⟩
    show sentBy _ args = _
    rw [sentBy, hp, htext]
    dsimp only
    rw [view_insert, if_pos rfl]
  · have hquiet : receivedBy args = none → Effect ⟨s, ⟨"recv", args⟩, v, s⟩ := fun hnone =>
      .inr (.inr ⟨rfl, hnone, fun _ => rfl⟩)
    rcases arg_eq_some.mp h with ⟨hp, rfl⟩ | ⟨p, hp, h⟩
    · exact hquiet (by rw [receivedBy, hp])
    rcases arg_eq_some.mp h with ⟨hsender, rfl⟩ | ⟨sender, hsender, h⟩
    · exact hquiet (by rw [receivedBy, hp, hsender])
    rcases arg_eq_some.mp h with ⟨htext, rfl⟩ | ⟨text, htext, h⟩
    · exact hquiet (by rw [receivedBy, hp, hsender, htext])
    rcases arg_eq_some.mp h with ⟨hvc, rfl⟩ | ⟨vc, hvc, h⟩
    · exact hquiet (by rw [receivedBy, hp, hsender, htext, hvc])
    unfold recv at h
    obtain ⟨r, hr, heq⟩ := Option.map_eq_some_iff.mp h
    cases heq
    refine .inr (.inl ⟨p, ⟨sender, text, vc⟩, r, rfl, ?_, hr, rfl⟩)
    show receivedBy args = _
    rw [receivedBy, hp, hsender, htext, hvc]
  · refine .inr (Or.inr ⟨rfl, rfl, fun p => ?_⟩)
    rcases arg_eq_some.mp h with ⟨-, rfl⟩ | ⟨w, -, h⟩
    · rfl
    · rw [Option.some.injEq, Prod.mk.injEq] at h
      obtain ⟨rfl, -⟩ := h
      exact view_addViews [w] s p
  · rename_i hbcast hrecv _
    rw [Option.some.injEq, Prod.mk.injEq] at h
    obtain ⟨rfl, -⟩ := h
    refine Or.inr (Or.inr ⟨?_, ?_, fun _ => rfl⟩)
    · unfold sentAt
      dsimp only
      split
      · exact absurd rfl hbcast
      · rfl
    · unfold receivedAt
      dsimp only
      split
      · exact absurd rfl hrecv
      · rfl

/-! ## A run -/

structure Kept (es : List (Event CausalBroadcast Line Value)) (s : CausalBroadcast) : Prop where
  numbered : Numbered Message.sender Message.number (broadcasts es)
  known : ∀ m ∈ broadcasts es, ∀ r, m.vc.count r ≤ counted (broadcasts es) r
  past : ∀ l₁ b l₂, broadcasts es = l₁ ++ b :: l₂ → ∀ r ≠ b.sender, b.vc.count r ≤ counted l₁ r
  views : ∀ p, ViewOk (broadcasts es) (deliveries es p) (s.view p)
  own : ∀ p, ofSender Message.sender p (deliveries es p) =
    ofSender Message.sender p (broadcasts es)
  idle : ∀ p, ∀ m ∈ (s.view p).buffer, ¬ Ready (s.view p).seen m

omit [Host] in
theorem broadcasts_snoc : broadcasts (es ++ [e]) = broadcasts es ++ (sentAt e).toList := by
  rw [broadcasts, List.filterMap_append]
  cases h : sentAt e <;> simp [broadcasts, h]

theorem deliveries_snoc : deliveries (es ++ [e]) p = deliveries es p ++ deliveredAt p e := by
  rw [deliveries, List.flatMap_append, List.flatMap_singleton]
  rfl

omit [Host] in
theorem ViewOk.grow {all l : List Message} {w : View} (h : ViewOk all l w) (l' : List Message) :
    ViewOk (all ++ l') l w :=
  ⟨h.taken.grow l', h.count, h.log,
    fun m hm => ⟨List.mem_append_left _ (h.pending m hm).1, (h.pending m hm).2⟩, h.nodup, h.ahead⟩

omit [Host] in
theorem counted_le_append (l l' : List Message) (r : String) : counted l r ≤ counted (l ++ l') r := by
  unfold counted
  rw [ofSender_append, List.length_append]
  omega

theorem Kept.own_counted (h : Kept es s) (p : String) : counted (deliveries es p) p = counted (broadcasts es) p :=
  congrArg (fun l : List Message => (l.length : Int)) (h.own p)

theorem Kept.counted_le (h : Kept es s) (p r : String) : counted (deliveries es p) r ≤ counted (broadcasts es) r :=
  Int.ofNat_le.mpr ((h.views p).taken r).length_le

theorem Kept.sender_ne (h : Kept es s) (hb : b ∈ (s.view p).buffer) : b.sender ≠ p := by
  rintro rfl
  obtain ⟨hall, hnot⟩ := (h.views b.sender).pending b hb
  have hown : b ∈ ofSender Message.sender b.sender (broadcasts es) := mem_ofSender.mpr ⟨hall, rfl⟩
  rw [← h.own b.sender] at hown
  exact hnot (mem_ofSender.mp hown).1

theorem Kept.clock (h : Kept es s) (hbump : (s.view m.sender).seen.bump m.sender = some m.vc)
    (r : String) : m.vc.count r = if r = m.sender then counted (deliveries es m.sender) r + 1
      else counted (deliveries es m.sender) r := by
  rw [@Clock.count_bump _ _ r _ hbump, (h.views m.sender).count]

theorem Kept.number_new (h : Kept es s) (hbump : (s.view m.sender).seen.bump m.sender = some m.vc) :
    m.number = counted (broadcasts es) m.sender + 1 := by
  rw [Message.number, h.clock hbump, if_pos rfl, h.own_counted]

theorem Kept.number_le (h : Kept es s) (hm : m ∈ broadcasts es) : m.number ≤ counted (broadcasts es) m.sender := by
  obtain ⟨i, hi, hnum⟩ := h.numbered.get hm
  have hlt := (List.getElem?_eq_some_iff.mp hi).1
  unfold counted
  omega

theorem Kept.sender_view (h : Kept es s)
    (hbump : (s.view m.sender).seen.bump m.sender = some m.vc) :
    ViewOk (broadcasts es ++ [m]) (deliveries es m.sender ++ [m])
      { s.view m.sender with
        seen := m.vc
        log := (s.view m.sender).log ++ [m.text] } := by
  have hview := h.views m.sender
  have hnext := h.number_new hbump
  have hnumbered : Numbered Message.sender Message.number (broadcasts es ++ [m]) :=
    h.numbered.snoc hnext
  refine ⟨?_, fun r => ?_, ?_, fun b hb => ?_, hview.nodup, ?_⟩
  · refine (hview.taken.grow [m]).snoc hnumbered List.mem_concat_self ?_
    exact hnext.trans (by rw [← h.own_counted]; rfl)
  · exact (h.clock hbump r).trans (counted_snoc r _ m).symm
  · rw [List.map_append, ← hview.log]
    rfl
  · obtain ⟨hall, hnot⟩ := hview.pending b hb
    refine ⟨List.mem_append_left _ hall, fun hin => ?_⟩
    rcases List.mem_append.mp hin with hin | hin
    · exact hnot hin
    · obtain rfl := List.mem_singleton.mp hin
      have hle := h.number_le hall
      omega
  · exact ahead_snoc hview.ahead fun r hr => Int.le_of_eq (by rw [h.clock hbump, if_neg hr])

theorem Kept.sender_idle (h : Kept es s) (hbump : (s.view m.sender).seen.bump m.sender = some m.vc) :
    ∀ b ∈ (s.view m.sender).buffer, ¬ Ready m.vc b := by
  intro b hb ⟨hnext, hcovered⟩
  have hne := h.sender_ne hb
  have hcount := fun r => @Clock.count_bump _ _ r _ hbump
  refine h.idle m.sender b hb ⟨?_, fun r hr => ?_⟩
  · rw [hnext, hcount, if_neg hne]
  · by_cases hrm : r = m.sender
    · rw [(h.views m.sender).count, hrm, h.own_counted]
      exact h.known b ((h.views m.sender).pending b hb).1 m.sender
    · have hle := hcovered r hr
      rwa [hcount, if_neg hrm] at hle

theorem kept_sent (h : Kept es s) (hm : sentAt ⟨s, l, v, s'⟩ = some m)
    (hbump : (s.view m.sender).seen.bump m.sender = some m.vc)
    (hs' : s' = s.insert m.sender { s.view m.sender with
      seen := m.vc
      log := (s.view m.sender).log ++ [m.text] }) : Kept (es ++ [⟨s, l, v, s'⟩]) s' := by
  have hall : broadcasts (es ++ [⟨s, l, v, s'⟩]) = broadcasts es ++ [m] := by
    rw [broadcasts_snoc, hm, Option.toList_some]
  have hdel : ∀ p, deliveries (es ++ [⟨s, l, v, s'⟩]) p =
      deliveries es p ++ if m.sender = p then [m] else [] := by
    intro p
    rw [deliveries_snoc, deliveredAt, hm]
  have hview : ∀ p, s'.view p = if m.sender = p then
      { s.view m.sender with seen := m.vc, log := (s.view m.sender).log ++ [m.text] }
      else s.view p := fun p => by rw [hs', view_insert]
  refine ⟨?_, ?_, ?_, fun p => ?_, fun p => ?_, fun p => ?_⟩
  · rw [hall]
    exact h.numbered.snoc (h.number_new hbump)
  · rw [hall]
    intro b hb r
    rcases List.mem_append.mp hb with hb | hb
    · exact (h.known b hb r).trans (counted_le_append _ _ r)
    · obtain rfl := List.mem_singleton.mp hb
      rw [h.clock hbump, counted_snoc]
      have := h.counted_le b.sender r
      split_ifs <;> omega
  · rw [hall]
    refine ahead_snoc h.past fun r hr => ?_
    rw [h.clock hbump, if_neg hr]
    exact h.counted_le m.sender r
  · rw [hall, hdel, hview]
    split_ifs with hp
    · subst hp
      exact h.sender_view hbump
    · rw [List.append_nil]
      exact ViewOk.grow (h.views p) [m]
  · rw [hall, hdel, ofSender_append, ofSender_append, h.own, ofSender_singleton]
    split_ifs with hp
    · rw [ofSender_singleton, if_pos hp]
    · rfl
  · rw [hview]
    split_ifs with hp
    · exact h.sender_idle hbump
    · exact h.idle p

theorem kept_received (h : Kept es s) (hsent : sentAt ⟨s, l, v, s'⟩ = none)
    (hrecv : receivedAt ⟨s, l, v, s'⟩ = some (p, m)) {r : View × List Message}
    (hr : ((s.view p).accept m).drain = some r) (hs' : s' = s.insert p r.1)
    (hm : m ∈ broadcasts es) : Kept (es ++ [⟨s, l, v, s'⟩]) s' := by
  have hall : broadcasts (es ++ [⟨s, l, v, s'⟩]) = broadcasts es := by
    rw [broadcasts_snoc, hsent, Option.toList_none, List.append_nil]
  have hdel : ∀ q, deliveries (es ++ [⟨s, l, v, s'⟩]) q =
      deliveries es q ++ if p = q then r.2 else [] := by
    intro q
    rw [deliveries_snoc, deliveredAt, hsent, hrecv]
    dsimp only
    split_ifs with hq
    · rw [releasedBy, ← hq, hr]
    · rfl
  have hview : ∀ q, s'.view q = if p = q then r.1 else s.view q := fun q => by
    rw [hs', view_insert]
  obtain ⟨hok, hidle, -⟩ := ((h.views p).accept h.numbered hm).drains h.numbered
    (drains_of_loop hr (Nat.le_refl _))
  refine ⟨hall ▸ h.numbered, hall ▸ h.known, hall ▸ h.past, fun q => ?_, fun q => ?_, fun q => ?_⟩
  · rw [hall, hdel, hview]
    split_ifs with hq
    · exact hq ▸ hok
    · rw [List.append_nil]
      exact h.views q
  · rw [hall, hdel]
    split_ifs with hq
    · subst hq
      -- its own messages were all delivered, so the drain released none of them
      have hprefix := hok.taken p
      rw [ofSender_append, ← h.own p] at hprefix
      have hnil : ofSender Message.sender p r.2 = [] := by
        have hlen := hprefix.length_le
        rw [List.length_append] at hlen
        exact List.length_eq_zero_iff.mp (by omega)
      rw [ofSender_append, hnil, List.append_nil, h.own]
    · rw [List.append_nil, h.own]
  · rw [hview]
    split_ifs with hq
    · exact hidle
    · exact h.idle q

theorem kept_quiet (h : Kept es s) (hsent : sentAt ⟨s, l, v, s'⟩ = none)
    (hrecv : receivedAt ⟨s, l, v, s'⟩ = none) (hview : ∀ p, s'.view p = s.view p) :
    Kept (es ++ [⟨s, l, v, s'⟩]) s' := by
  have hall : broadcasts (es ++ [⟨s, l, v, s'⟩]) = broadcasts es := by
    rw [broadcasts_snoc, hsent, Option.toList_none, List.append_nil]
  have hdel : ∀ q, deliveries (es ++ [⟨s, l, v, s'⟩]) q = deliveries es q := by
    intro q
    rw [deliveries_snoc, deliveredAt, hsent, hrecv, List.append_nil]
  refine ⟨hall ▸ h.numbered, hall ▸ h.known, hall ▸ h.past, fun q => ?_, fun q => ?_, fun q => ?_⟩
  · rw [hall, hdel, hview]
    exact h.views q
  · rw [hall, hdel]
    exact h.own q
  · rw [hview]
    exact h.idle q

theorem kept_init : Kept [] ∅ := by
  have hview : ∀ p, view ∅ p = View.default := fun p => Std.ExtTreeMap.getD_empty
  refine ⟨fun p i m hi => absurd hi (by simp [broadcasts, ofSender]), List.forall_mem_nil _,
    fun l₁ b l₂ heq => absurd heq (by simp [broadcasts]), fun p => ?_, fun p => rfl, fun p m hm => ?_⟩
  · rw [hview]
    exact ⟨fun r => List.prefix_refl _, fun r => Clock.count_empty, rfl,
      List.forall_mem_nil _, List.nodup_nil,
      fun l₁ b l₂ heq => absurd heq (by simp [deliveries])⟩
  · rw [hview] at hm
    cases hm

theorem kept (hrun : Run (onLine step) ∅ es s) (hgenuine : Genuine es) : Kept es s := by
  induction hrun with
  | nil => exact kept_init
  | @snoc es s s' l v hrun hs ih =>
    obtain ⟨hbefore, hlast⟩ := genuine_snoc.mp hgenuine
    have hkept := ih hbefore
    rcases step_effect hs with ⟨m, hm, hbump, -, hs'⟩ | ⟨p, m, r, hsent, hrecv, hr, hs'⟩ |
      ⟨hsent, hrecv, hview⟩
    · exact kept_sent hkept hm hbump hs'
    · exact kept_received hkept hsent hrecv hr hs' (hlast p m hrecv)
    · exact kept_quiet hkept hsent hrecv hview

end CausalBroadcast

end BuildYourOwn.Protocols
