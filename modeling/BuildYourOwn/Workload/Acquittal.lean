import BuildYourOwn.Lin.Locality
import BuildYourOwn.Workload.Delivery

/-!
# A correct store is not convicted

The history that the workload records of a store that applies every request it receives, once and
atomically, is linearizable, however its connections behave, as long as the run is `Harmless`: the
order of the applications is an order of the recorded operations.

An operation without an answer may be in that order or not; a read may be applied twice, and only
the application that was recorded counts. `exists_log` builds the order, from the last application
backwards.
-/

namespace BuildYourOwn.Workload

open Lib Lin

variable {w : World} {n : Nat}

/-! ## What was recorded -/

variable {p : Nat × Entry}

theorem EntryOk.fields (h : w.EntryOk p) :
    ∃ o, w.operations[p.1]? = some o ∧ p.2.key = o.key ∧ p.2.op = o.op ∧ p.2.callNs = o.call ∧
      (p.2.outcome = .unknown → p.2.retNs = u64Max) ∧
      (p.2.outcome ≠ .unknown → p.2.retNs ≤ w.now ∧ w.Gave p.1 p.2.outcome p.2.retNs) := by
  obtain ⟨o, outcome, ret, note, ho, he, hret, hgave⟩ := h
  rw [he]
  refine ⟨o, ho, rfl, rfl, rfl, fun hout => if_pos hout, fun hout => ?_⟩
  have hret' : (Recorder.entry o.client o.key o.op outcome o.call ret note).retNs = ret :=
    if_neg hout
  rw [hret']
  exact ⟨hret, hgave hout⟩

variable {o : Operation}

theorem Ledger.unique (h : Ledger w) {a b : Applied} (ha : a ∈ w.applied)
    (hb : b ∈ w.applied) (hsame : a.number = b.number) (ho : w.operations[a.number]? = some o)
    (hop : o.op ≠ .read) : a = b := by
  obtain ⟨i, hi, rfl⟩ := List.mem_iff_getElem.mp ha
  obtain ⟨j, hj, rfl⟩ := List.mem_iff_getElem.mp hb
  have hpair := List.pairwise_iff_getElem.mp h.once
  rcases Nat.lt_trichotomy i j with hlt | rfl | hgt
  · exact absurd (hpair i j hi hj hlt hsame o ho) hop
  · rfl
  · exact absurd (hpair j i hj hi hgt hsame.symm o (hsame ▸ ho)) hop

/-! ## The order of the applications -/

def Tells (w : World) (a : Applied) (p : Nat × Entry) : Prop :=
  a.number = p.1 ∧ (p.2.outcome = .unknown ∨
    ∃ o, w.operations[p.1]? = some o ∧ outcomeOf o.op (.ok a.answer) = p.2.outcome) ∧
    a.time ≤ p.2.retNs

variable {σ : String → State} {a : Applied}

theorem step_of_tells (h : Sound w) {value : State} (hp : p ∈ w.recorded) (ho : w.operations[a.number]? = some o)
    (htells : Tells w a p) (hserve : serve (σ o.key) (request o.op) = (value, a.answer)) :
    store.step σ p.2 = some (Function.update σ o.key value) := by
  obtain ⟨o', ho', hkey, hop, -, -, -⟩ := EntryOk.fields (h.booking.entries p hp)
  obtain ⟨hnum, hout, -⟩ := htells
  obtain rfl : o' = o := Option.some.inj (ho'.symm.trans (hnum ▸ ho))
  obtain ⟨hvalue, hanswer⟩ := serve_request (σ o'.key) o'.op
  rw [hserve] at hvalue hanswer
  change (if p.2.outcome = .unknown ∨ p.2.outcome = (p.2.op.apply (σ p.2.key)).2
    then some (Function.update σ p.2.key (p.2.op.apply (σ p.2.key)).1) else none) = _
  rw [hkey, hop, ← hvalue, ← hanswer, if_pos]
  refine hout.imp id fun ⟨o'', ho'', hsame⟩ => ?_
  obtain rfl : o' = o'' := Option.mem_unique ho' ho''
  exact hsame.symm

theorem tells_of_write (h : Sound w) (ha : a ∈ w.applied) (hp : p ∈ w.recorded) (hnum : p.1 = a.number)
    (ho : w.operations[a.number]? = some o) (hop : o.op ≠ .read) : Tells w a p := by
  obtain ⟨-, -, -, -, -, hunknown, hknown⟩ := EntryOk.fields (h.booking.entries p hp)
  refine ⟨hnum.symm, ?_⟩
  by_cases hout : p.2.outcome = .unknown
  · refine ⟨.inl hout, ?_⟩
    rw [hunknown hout]
    exact le_u64Max _
  · obtain ⟨-, b, hb, o', hbnum, ho', hsame, htime⟩ := hknown hout
    obtain rfl := h.ledger.unique ha hb (hnum.symm.trans hbnum.symm) ho hop
    exact ⟨.inr ⟨o', ho', hsame⟩, htime⟩

theorem call_le_of_tells (h : Sound w) (ha : a ∈ w.applied)
    (hp : p ∈ w.recorded) (htells : Tells w a p) : p.2.callNs ≤ a.time := by
  obtain ⟨o, ho, -, -, hcall, -⟩ := EntryOk.fields (h.booking.entries p hp)
  obtain ⟨o', ho', hle, -⟩ := h.ledger.timed a ha
  obtain rfl : o = o' := Option.some.inj (ho.symm.trans (htells.1 ▸ ho'))
  rw [hcall]
  exact hle

theorem eq_of_number (h : Sound w) {p q : Nat × Entry} (hp : p ∈ w.recorded) (hq : q ∈ w.recorded)
    (hsame : p.1 = q.1) : p = q :=
  List.inj_on_of_nodup_map h.booking.nodup hp hq hsame

theorem update_of_read {value : State}
    (hop : o.op = .read) (hserve : serve (σ o.key) (request o.op) = (value, a.answer)) :
    Function.update σ o.key value = σ := by
  rw [hop] at hserve
  obtain ⟨rfl, -⟩ := Prod.mk.inj hserve
  exact Function.update_eq_self ..

/-- **The applications are an order of the recorded operations**: of each operation, other than
those in `done`, the last application it tells of. -/
theorem exists_log (h : Sound w) {applied : List Applied} (done : List Nat)
    (hserved : Served w.operations applied σ) (hsub : ∀ a ∈ applied, a ∈ w.applied)
    (hordered : applied.Pairwise fun a b => a.time ≤ b.time) (honce : applied.Pairwise fun a b =>
      a.number = b.number → ∀ o, w.operations[a.number]? = some o → o.op = .read)
    (hwrites : ∀ a ∈ applied, ∀ o, w.operations[a.number]? = some o → o.op ≠ .read →
      a.number ∉ done ∧ ∃ p ∈ w.recorded, p.1 = a.number) : ∃ log : List (Nat × Entry), (log.map (·.1)).Nodup ∧
      (∀ p ∈ log, p ∈ w.recorded ∧ p.1 ∉ done ∧ ∃ a ∈ applied, Tells w a p) ∧
      (∀ p ∈ w.recorded, p.1 ∉ done → p.2.outcome ≠ .unknown →
        (∃ a ∈ applied, Tells w a p) → p ∈ log) ∧
      store.Respects (log.map (·.2)) ∧ store.replay (fun _ => none) (log.map (·.2)) = some σ := by
  induction hserved generalizing done with
  | nil =>
    exact ⟨[], List.nodup_nil, List.forall_mem_nil _,
      fun p _ _ _ ⟨a, ha, _⟩ => absurd ha List.not_mem_nil, List.Pairwise.nil, rfl⟩
  | @snoc applied σ a o value _ ho hserve ih =>
    obtain ⟨hordered', -, hlast⟩ := List.pairwise_append.mp hordered
    obtain ⟨honce', -, hnew⟩ := List.pairwise_append.mp honce
    have hsub' : ∀ b ∈ applied, b ∈ w.applied := fun b hb => hsub b (List.mem_append_left _ hb)
    have ha : a ∈ w.applied := hsub a (List.mem_append_right _ List.mem_cons_self)
    by_cases hpick : ∃ p ∈ w.recorded, p.1 ∉ done ∧ Tells w a p ∧
        (o.op = .read → p.2.outcome ≠ .unknown)
    · obtain ⟨p, hp, hdone, htells, -⟩ := hpick
      obtain ⟨log, hnodup, hmem, hall, hresp, hreplay⟩ := ih (a.number :: done) hsub' hordered' honce'
        fun b hb ob hob hop => by
          obtain ⟨hbdone, hbrec⟩ := hwrites b (List.mem_append_left _ hb) ob hob hop
          refine ⟨fun hin => ?_, hbrec⟩
          rcases List.mem_cons.mp hin with hsame | hin
          · exact hop (hnew b hb a List.mem_cons_self hsame ob hob)
          · exact hbdone hin
      refine ⟨log ++ [p], ?_, fun q hq => ?_, fun q hq hqdone hout ⟨b, hb, hbtells⟩ => ?_, ?_, ?_⟩
      · rw [List.map_append]
        refine List.nodup_append.mpr ⟨hnodup, List.nodup_singleton _, fun k hk k' hk' hkk => ?_⟩
        obtain ⟨q, hq, rfl⟩ := List.mem_map.mp hk
        obtain rfl : k' = p.1 := List.mem_singleton.mp hk'
        refine (hmem q hq).2.1 ?_
        rw [hkk, ← htells.1]
        exact List.mem_cons_self
      · rcases List.mem_append.mp hq with hq | hq
        · obtain ⟨hrec, hnot, b, hb, hbtells⟩ := hmem q hq
          exact ⟨hrec, fun hin => hnot (List.mem_cons_of_mem _ hin), b,
            List.mem_append_left _ hb, hbtells⟩
        · obtain rfl := List.mem_singleton.mp hq
          exact ⟨hp, hdone, a, List.mem_append_right _ List.mem_cons_self, htells⟩
      · by_cases hsame : q.1 = a.number
        · obtain rfl := eq_of_number h hq hp (hsame.trans htells.1)
          exact List.mem_append_right _ List.mem_cons_self
        · refine List.mem_append_left _ (hall q hq (fun hin => ?_) hout ⟨b, ?_, hbtells⟩)
          · exact (List.mem_cons.mp hin).elim hsame hqdone
          · rcases List.mem_append.mp hb with hb | hb
            · exact hb
            · obtain rfl := List.mem_singleton.mp hb
              exact absurd hbtells.1.symm hsame
      · rw [List.map_append]
        refine List.pairwise_append.mpr ⟨hresp, List.pairwise_singleton .., fun x hx y hy => ?_⟩
        obtain ⟨q, hq, rfl⟩ := List.mem_map.mp hx
        obtain rfl : y = p.2 := List.mem_singleton.mp hy
        obtain ⟨hrec, -, b, hb, hbtells⟩ := hmem q hq
        have hle : q.2.callNs ≤ p.2.retNs :=
          UInt64.le_trans (call_le_of_tells h (hsub' b hb) hrec hbtells)
            (UInt64.le_trans (hlast b hb a List.mem_cons_self) htells.2.2)
        exact Nat.not_lt.mpr (UInt64.le_iff_toNat_le.mp hle)
      · rw [List.map_append, Object.replay_append, hreplay]
        change (store.step σ p.2).bind some = _
        rw [step_of_tells h hp ho htells hserve]
        rfl
    · -- only a read is passed over
      have hread : o.op = .read := by
        by_contra hop
        obtain ⟨hdone, p, hp, hnum⟩ :=
          hwrites a (List.mem_append_right _ List.mem_cons_self) o ho hop
        exact hpick ⟨p, hp, hnum ▸ hdone, tells_of_write h ha hp hnum ho hop,
          fun hr => absurd hr hop⟩
      obtain ⟨log, hnodup, hmem, hall, hresp, hreplay⟩ := ih done hsub' hordered' honce'
        fun b hb => hwrites b (List.mem_append_left _ hb)
      refine ⟨log, hnodup, fun q hq => ?_, fun q hq hqdone hout ⟨b, hb, hbtells⟩ => ?_, hresp, ?_⟩
      · obtain ⟨hrec, hnot, b, hb, hbtells⟩ := hmem q hq
        exact ⟨hrec, hnot, b, List.mem_append_left _ hb, hbtells⟩
      · rcases List.mem_append.mp hb with hb | hb
        · exact hall q hq hqdone hout ⟨b, hb, hbtells⟩
        · obtain rfl := List.mem_singleton.mp hb
          exact absurd ⟨q, hq, hqdone, hbtells, fun _ => hout⟩ hpick
      · rw [update_of_read hread hserve]
        exact hreplay

/-! ## The history -/

def unnumbered (e : Entry) : Entry := { e with id := 0 }

theorem foldl_push (entries : List Entry) (h : History) :
    (entries.foldl History.push h).entries.map unnumbered = (h.entries ++ entries).map unnumbered := by
  induction entries generalizing h with
  | nil =>
    rw [List.append_nil]
    rfl
  | cons e entries ih =>
    rw [List.foldl_cons, ih, History.push, List.append_assoc, List.map_append, List.map_append,
      List.map_append]
    rfl

theorem Sound.history (h : Sound w) : (w.history.entries.map unnumbered).Perm (w.recorded.map Prod.snd) := by
  unfold World.history
  rw [foldl_push, List.nil_append]
  have hfresh : ∀ e ∈ w.recorded.map Prod.snd, unnumbered e = e := by
    intro e he
    obtain ⟨p, hp, rfl⟩ := List.mem_map.mp he
    obtain ⟨o, outcome, ret, note, -, hentry, -⟩ := h.booking.entries p hp
    rw [hentry]
    rfl
  refine ((List.perm_insertionSort _ _).map _).trans ?_
  exact List.Perm.of_eq ((List.map_congr_left hfresh).trans (List.map_id' _))

theorem Sound.linearizable_history (h : Sound w) (hlin : store.Linearizable (fun _ => none) (w.recorded.map Prod.snd)) :
    store.Linearizable (fun _ => none) w.history.entries :=
  Object.Linearizable.of_map (f := unnumbered) (fun _ => rfl) (fun _ => rfl) (fun _ => id)
    (fun _ _ => rfl) (hlin.perm h.history.symm)

theorem Sound.wellTimed_history (h : Sound w) (hnow : w.now < u64Max) : w.history.WellTimed := by
  intro e he
  obtain ⟨p, hp, hsame⟩ := List.mem_map.mp (h.history.subset (List.mem_map_of_mem he))
  obtain ⟨o, outcome, ret, note, ho, hentry, hret, hgave⟩ := h.booking.entries p hp
  have hcall := h.ledger.called o (List.mem_of_getElem? ho)
  have hwell : (unnumbered e).WellTimed := by
    rw [← hsame, hentry]
    by_cases hout : outcome = .unknown
    · subst hout
      have hsingle : (Recorder.entry o.client o.key o.op .unknown o.call o.call note).WellTimed :=
        Recorder.entry_wellTimed (UInt64.le_refl _) (UInt64.lt_of_le_of_lt hcall hnow)
      exact hsingle
    · obtain ⟨a, ha, o', hnum, ho', -, htime⟩ := hgave hout
      obtain ⟨o'', ho'', hle, -⟩ := h.ledger.timed a ha
      obtain rfl : o = o'' := Option.some.inj (ho.symm.trans (hnum ▸ ho''))
      exact Recorder.entry_wellTimed (UInt64.le_trans hle htime)
        (UInt64.lt_of_le_of_lt hret hnow)
  exact ⟨hwell.window, hwell.never⟩

theorem Sound.tells (h : Sound w) (hp : p ∈ w.recorded)
    (hout : p.2.outcome ≠ .unknown) : ∃ a ∈ w.applied, Tells w a p := by
  obtain ⟨-, -, -, -, -, -, hknown⟩ := EntryOk.fields (h.booking.entries p hp)
  obtain ⟨-, a, ha, o, hnum, ho, hsame, htime⟩ := hknown hout
  exact ⟨a, ha, hnum, .inr ⟨o, ho, hsame⟩, htime⟩

theorem Sound.linearizable (h : Sound w) (hidle : ∀ client, w.stage client = .idle) :
    store.Linearizable (fun _ => none) w.history.entries := by
  refine h.linearizable_history ?_
  obtain ⟨log, hnodup, hmem, hall, hresp, hreplay⟩ := exists_log h [] h.ledger.served
    (fun _ => id) h.ledger.ordered h.ledger.once fun a ha o ho _ => by
      refine ⟨List.not_mem_nil, ?_⟩
      rcases h.booking.every a.number (List.getElem?_eq_some_iff.mp ho).1 with hrec | ⟨client, hcur⟩
      · obtain ⟨p, hp, hnum⟩ := List.mem_map.mp hrec
        exact ⟨p, hp, hnum⟩
      · rw [hidle client] at hcur
        simp [Stage.number] at hcur
  refine Object.linearizable_of_log Prod.snd h.booking.nodup.of_map hnodup.of_map
    (fun p hp => (hmem p hp).1) (fun p hp hnot => ?_) hresp (Option.isSome_of_mem hreplay)
  by_contra hout
  exact hnot (hall p hp List.not_mem_nil hout (h.tells hp hout))

theorem Ledger.length_le_one (h : Ledger w) (ho : w.operations[n]? = some o)
    (hop : o.op ≠ .read) : (w.applied.filter fun a => a.number = n).length ≤ 1 := by
  have hnone : (w.applied.filter fun a => a.number = n).Pairwise fun _ _ => False := by
    refine (h.once.filter _).imp_of_mem fun {a b} ha hb hread => ?_
    have hna : a.number = n := by simpa using (List.mem_filter.mp ha).2
    have hnb : b.number = n := by simpa using (List.mem_filter.mp hb).2
    exact hop (hread (hna.trans hnb.symm) o (hna ▸ ho))
  cases hf : w.applied.filter fun a => a.number = n with
  | nil => exact Nat.zero_le _
  | cons a rest =>
    cases rest with
    | nil => exact Nat.le_refl _
    | cons b rest =>
      rw [hf] at hnone
      exact absurd ((List.pairwise_cons.mp hnone).1 b List.mem_cons_self) id

/-- **A correct store is not convicted.** In a run without a write that is both received and
repeated, a write is applied at most once, what was recorded with an answer was applied with that
answer between its call and its return, and once every client has returned the history is
linearizable and no budget makes the checker say otherwise. -/
theorem acquitted_of_harmless {es : List (Lib.Event World Event Unit)}
    (hrun : Run step World.start es w) (hharmless : ∀ e ∈ es, Harmless e.before e.input) :
    (∀ (n : Nat) o, w.operations[n]? = some o → o.op ≠ .read →
      (w.applied.filter fun a => a.number = n).length ≤ 1) ∧
    (∀ p ∈ w.recorded, p.2.outcome ≠ .unknown → ∃ a ∈ w.applied, a.number = p.1 ∧
      outcomeOf p.2.op (.ok a.answer) = p.2.outcome ∧ p.2.callNs ≤ a.time ∧ a.time ≤ p.2.retNs) ∧
    ((∀ client, w.stage client = .idle) →
      store.Linearizable (fun _ => none) w.history.entries ∧
      (w.now < u64Max → ∀ budget v,
        checkWithBudget w.history budget ≠ some (.notLinearizable v))) := by
  have h := sound_of_run hrun hharmless
  refine ⟨fun n o ho hop => h.ledger.length_le_one ho hop, fun p hp hout => ?_, fun hidle => ?_⟩
  · obtain ⟨a, ha, htells⟩ := h.tells hp hout
    obtain ⟨o, ho, -, hop, -⟩ := EntryOk.fields (h.booking.entries p hp)
    obtain ⟨o', ho', hsame⟩ := htells.2.1.resolve_left hout
    obtain rfl : o = o' := Option.mem_unique ho ho'
    exact ⟨a, ha, htells.1, hop ▸ hsame, call_le_of_tells h ha hp htells, htells.2.2⟩
  · refine ⟨h.linearizable hidle, fun hnow budget v hv => ?_⟩
    obtain ⟨verdict, hcheck, -, hrejects, -⟩ :=
      check_exact w.history budget (h.wellTimed_history hnow)
    exact hrejects v (Option.mem_unique hcheck hv) (h.linearizable hidle)

instance (w : World) (stage : Stage) : Decidable (w.Unreceived stage) :=
  match stage with
  | .awaiting n attempt _ pooled x => inferInstanceAs (Decidable (∀ ex ∈ w.exchanges[x]?,
      ∀ o ∈ w.operations[n]?, ex.begun = false →
        repeats attempt pooled (path o.op) .io true = true → ex.received = true → o.op = .read))
  | .idle | .checkout .. | .writing .. | .reading .. | .returned .. => isTrue trivial

instance (w : World) (event : Event) : Decidable (Harmless w event) :=
  match event with
  | .receive x => inferInstanceAs (Decidable (∀ ex ∈ w.exchanges[x]?,
      ∀ o ∈ w.operations[ex.number]?, ex.repeated = true → o.op = .read))
  | .await client => inferInstanceAs (Decidable (w.Unreceived (w.stage client)))
  | .tick .. | .call .. | .checkout .. | .write .. | .apply .. | .reply .. | .lose .. | .read ..
  | .late .. | .timeout .. | .record .. => isTrue trivial

/-- A write is answered; a read is applied, loses the connection and is applied again, after a write
of another client that gives up on its answer; a compare-and-swap finds its connection lost before
it is sent. -/
def lossy : List Event :=
  [.call 0 0 "k" (.write [1]), .checkout 0 true, .write 0 true, .receive 0, .tick 5, .apply 0,
    .reply 0, .await 0, .read 0 (.whole false), .tick 6, .record 0,
    .call 0 0 "k" .read, .checkout 0 true, .write 0 true, .receive 1, .apply 1, .lose 0, .await 0,
    .call 1 0 "k" (.write [2]), .checkout 1 true, .write 1 true, .receive 2, .tick 7, .apply 2,
    .checkout 0 true, .write 0 true, .receive 3, .tick 8, .apply 3, .reply 3, .await 0,
    .read 0 (.whole false), .record 0, .timeout 1, .record 1,
    .call 0 0 "k" (.cas (some [2]) [3]), .checkout 0 true, .write 0 false, .checkout 0 true,
    .write 0 true, .receive 4, .apply 4, .reply 4, .tick 9, .await 0, .read 0 (.whole true),
    .record 0]

theorem acquitted_of_harmless_lossy : ∃ es w, Run step World.start es w ∧
    (w.applied.filter fun a => a.number = 1).length = 2 ∧
    w.recorded.map (fun p => (p.1, p.2.outcome)) = [(0, .ok), (1, .value (some [2])),
      (2, .unknown), (3, .swapped true)] ∧
    store.Linearizable (fun _ => none) w.history.entries := by
  have hharmless : ∀ es w, exec step World.start lossy [] = some (es, w) →
      ∀ e ∈ es, Harmless e.before e.input := by
    intro es w hexec e he
    have hall : ((exec step World.start lossy []).map fun r =>
        r.1.all fun e => decide (Harmless e.before e.input)) = some true := rfl
    rw [hexec] at hall
    exact of_decide_eq_true (List.all_eq_true.mp (Option.some.inj hall) e he)
  refine ⟨_, _, run_of_exec lossy rfl, rfl, rfl, ?_⟩
  refine ((acquitted_of_harmless (run_of_exec lossy rfl) (hharmless _ _ rfl)).2.2 ?_).1
  rintro (_ | _ | client) <;> rfl

/-! ## A write repeated after it was received -/

/-- A read warms the pool; the compare-and-swap that follows is applied and its connection lost
before a byte of answer, so it is sent and applied once more. -/
def repeated : List Event :=
  [.call 0 0 "k" .read, .checkout 0 true, .write 0 true, .receive 0, .tick 5, .apply 0, .reply 0,
    .await 0, .read 0 (.whole false), .tick 6, .record 0,
    .tick 7, .call 0 0 "k" (.cas none [1]), .checkout 0 true, .write 0 true, .receive 1, .apply 1,
    .lose 0, .await 0, .checkout 0 true, .write 0 true, .receive 2, .tick 8, .apply 2, .reply 2,
    .await 0, .read 0 (.whole false), .tick 9, .record 0]

theorem convicted_of_repeated : ∃ es w, Run step World.start es w ∧
    (∀ client, w.stage client = .idle) ∧
    w.applied.map (fun a => (a.number, a.answer)) = [(0, .range none), (1, .txn true),
      (1, .txn false)] ∧
    w.recorded.map (fun p => (p.1, p.2.outcome)) = [(0, .value none), (1, .swapped false)] ∧
    (∃ v, check w.history = some (.notLinearizable v)) ∧
    ¬ store.Linearizable (fun _ => none) w.history.entries := by
  have hconvicted : ∀ h : History, h.WellTimed → (∃ v, check h = some (.notLinearizable v)) →
      ¬ store.Linearizable (fun _ => none) h.entries := by
    rintro h hw ⟨v, hv⟩
    obtain ⟨verdict, hcheck, -, hrejects, -⟩ := check_exact h defaultBudget hw
    exact hrejects v (Option.mem_unique hcheck hv)
  refine ⟨_, _, run_of_exec repeated rfl, ?_, rfl, rfl, ⟨_, rfl⟩, hconvicted _ ?_ ⟨_, rfl⟩⟩
  · rintro (_ | client) <;> rfl
  · exact of_decide_eq_true rfl

end BuildYourOwn.Workload
