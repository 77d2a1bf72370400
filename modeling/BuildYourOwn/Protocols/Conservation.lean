import Mathlib.Algebra.BigOperators.Group.Finset.Piecewise
import Mathlib.Algebra.BigOperators.Group.Finset.Sigma
import BuildYourOwn.Lib.Folds
import BuildYourOwn.Lib.MapSum
import BuildYourOwn.Protocols.Cut

/-!
# What a complete snapshot adds up to

Every process's balance is counted at the moment it recorded (`momentOf`), or at the end when it is not
known to the snapshot and holds nothing. What was sent on a channel before its sender's moment leaves
the one balance, what was delivered before its receiver's moment enters the other, and the difference
is what was found on the channel; so the total is what there was at the start
(**`consistent_cut`**).
-/

namespace BuildYourOwn.Protocols.Snapshot

open Lib Topic

variable {s s' s₀ : Snapshot} {l : Line} {v : Value} {link : Link} {p : String}
  {es₀ es pre : List (Event Snapshot Line Value)} {names : Finset String}

/-! ## Adding up the history -/

theorem spent_eq (h : ∀ e ∈ es, ∀ link amount, moveAt e = .sent link amount → link.2 ∈ names) :
    (es.map fun e => (moveAt e).spent p).sum = ∑ q ∈ names, (sentOn es (p, q)).sum := by
  induction es with
  | nil => simp [sentOn]
  | cons e es ih =>
    have hone : (moveAt e).spent p = ∑ q ∈ names, ((moveAt e).sentOn (p, q)).sum := by
      cases hm : moveAt e with
      | sent l amount =>
        have hmem := h e List.mem_cons_self l amount hm
        obtain ⟨source, dest⟩ := l
        have hsum : ∀ q, ((Move.sent (source, dest) amount).sentOn (p, q)).sum =
            if dest = q then (if source = p then amount else 0) else 0 := by
          intro q
          by_cases hs : source = p <;> by_cases hd : dest = q <;> simp [sentOn_sent, hs, hd]
        simp only [hsum, Finset.sum_ite_eq, if_pos hmem]
        rfl
      | _ => exact (Finset.sum_eq_zero fun q _ => rfl).symm
    have hcons : ∀ q, (sentOn (e :: es) (p, q)).sum =
        ((moveAt e).sentOn (p, q)).sum + (sentOn es (p, q)).sum := fun q => List.sum_append
    rw [List.map_cons, List.sum_cons, hone, ih fun f hf => h f (List.mem_cons_of_mem e hf)]
    simp only [hcons, Finset.sum_add_distrib]

theorem got_eq (h : ∀ e ∈ es, ∀ link amount, moveAt e = .took link amount → link.1 ∈ names) :
    (es.map fun e => (moveAt e).got p).sum = ∑ q ∈ names, (deliveredOn es (q, p)).sum := by
  induction es with
  | nil => simp [deliveredOn]
  | cons e es ih =>
    have hone : (moveAt e).got p = ∑ q ∈ names, ((moveAt e).deliveredOn (q, p)).sum := by
      cases hm : moveAt e with
      | took l amount =>
        have hmem := h e List.mem_cons_self l amount hm
        obtain ⟨source, dest⟩ := l
        have hsum : ∀ q, ((Move.took (source, dest) amount).deliveredOn (q, p)).sum =
            if source = q then (if dest = p then amount else 0) else 0 := by
          intro q
          by_cases hs : source = q <;> by_cases hd : dest = p <;> simp [deliveredOn_took, hs, hd]
        simp only [hsum, Finset.sum_ite_eq, if_pos hmem]
        rfl
      | _ => exact (Finset.sum_eq_zero fun q _ => rfl).symm
    have hcons : ∀ q, (deliveredOn (e :: es) (q, p)).sum =
        ((moveAt e).deliveredOn (q, p)).sum + (deliveredOn es (q, p)).sum := fun q => List.sum_append
    rw [List.map_cons, List.sum_cons, hone, ih fun f hf => h f (List.mem_cons_of_mem e hf)]
    simp only [hcons, Finset.sum_add_distrib]

/-! ## The moments of recording -/

/-- The history before a process recorded, or all of it when it has not. -/
def momentOf (es : List (Event Snapshot Line Value)) (p : String) : List (Event Snapshot Line Value) :=
  (recordedAfter es p).getD es

theorem momentOf_take (es : List (Event Snapshot Line Value)) (p : String) : momentOf es p <+: es := by
  unfold momentOf
  cases h : recordedAfter es p with
  | none => exact List.prefix_refl es
  | some pre =>
    obtain ⟨e, rest, rfl, -⟩ := recordedAfter_spec h
    exact List.prefix_append pre (e :: rest)

structure Complete (s : Snapshot) : Prop where
  balances : ∀ p ∈ s.balances, p ∈ s.balanceAt
  channels : ∀ link ∈ s.channels, link ∈ s.closed

theorem complete_spec (h : s.complete = true) : Complete s := by
  unfold complete at h
  simp only [Bool.and_eq_true, List.all_eq_true, decide_eq_true_eq, Std.ExtTreeMap.mem_keys] at h
  exact ⟨h.1.2, h.2⟩

theorem Kept.counted (h : Kept s₀ es s) (hc : Complete s) (p : String) :
    s.balanceAt.getD p 0 = heldAfter s₀ (momentOf es p) p := by
  rw [Std.ExtTreeMap.getD_eq_getD_getElem?, h.recorded, momentOf]
  cases hrec : recordedAfter es p with
  | some pre => rfl
  | none =>
    have hnot : p ∉ s.balances := fun hmem => by
      have hsome := (h.cuts p).mp (hc.balances p hmem)
      rw [hrec] at hsome
      cases hsome
    show 0 = heldAfter s₀ es p
    rw [← h.balance, Std.ExtTreeMap.getD_eq_fallback hnot]

theorem Kept.unused (h : Kept s₀ es s) (hnot : link ∉ s.channels) (hpre : pre <+: es) :
    sentOn pre link = [] ∧ deliveredOn pre link = [] := by
  constructor
  · refine List.flatMap_eq_nil_iff.mpr fun e he => ?_
    cases hm : moveAt e with
    | sent l amount =>
      rw [sentOn_sent, if_neg]
      rintro rfl
      exact hnot (h.used e (hpre.subset he) l amount (.inl hm))
    | _ => rfl
  · refine List.flatMap_eq_nil_iff.mpr fun e he => ?_
    cases hm : moveAt e with
    | took l amount =>
      rw [deliveredOn_took, if_neg]
      rintro rfl
      exact hnot (h.used e (hpre.subset he) l amount (.inr hm))
    | _ => rfl

theorem Kept.caught (h : Kept s₀ es s) (hc : Complete s) (hmem : link ∈ s.channels) :
    ∃ pre pre', recordedAfter es link.1 = some pre ∧ recordedAfter es link.2 = some pre' ∧
      s.inChannel[link]? = some (((deliveredOn es link).take (sentOn pre link).length).drop
        (deliveredOn pre' link).length).sum ∧
      sentOn pre link = deliveredOn pre' link ++
        ((deliveredOn es link).take (sentOn pre link).length).drop (deliveredOn pre' link).length := by
  have hclosed := hc.channels link hmem
  obtain ⟨cut, cut', hcut, hcut', hfound, hsplit⟩ := (h.links link).caught (decide_eq_true hclosed)
  obtain ⟨pre, hpre, rfl⟩ := Option.map_eq_some_iff.mp hcut
  obtain ⟨pre', hpre', rfl⟩ := Option.map_eq_some_iff.mp hcut'
  refine ⟨pre, pre', hpre, hpre', ?_, hsplit⟩
  obtain ⟨x, hx⟩ := Option.isSome_iff_exists.mp
    (Std.ExtTreeMap.mem_iff_isSome_getElem?.mp (h.found link hclosed))
  rw [hx]
  have hget : s.inChannel.getD link 0 = x := by
    rw [Std.ExtTreeMap.getD_eq_getD_getElem?, hx, Option.getD_some]
  exact congrArg some (hget.symm.trans hfound)

theorem Kept.difference (h : Kept s₀ es s) (hc : Complete s) (link : Link) :
    s.inChannel.getD link 0 = (sentOn (momentOf es link.1) link).sum - (deliveredOn (momentOf es link.2) link).sum := by
  by_cases hmem : link ∈ s.channels
  · obtain ⟨pre, pre', hpre, hpre', hfound, hsplit⟩ := h.caught hc hmem
    have hsum := congrArg List.sum hsplit
    rw [List.sum_append] at hsum
    rw [Std.ExtTreeMap.getD_eq_getD_getElem?, hfound, momentOf, momentOf, hpre, hpre']
    simp only [Option.getD_some]
    omega
  · have hnone : s.inChannel.getD link 0 = 0 :=
      Std.ExtTreeMap.getD_eq_fallback fun hin => hmem (h.opened link hin)
    rw [hnone, (h.unused hmem (momentOf_take es link.1)).1,
      (h.unused hmem (momentOf_take es link.2)).2]
    rfl

/-! ## The total -/

structure Named (s₀ s : Snapshot) (names : Finset String) : Prop where
  start : ∀ p ∈ s₀.balances, p ∈ names
  recorded : ∀ p ∈ s.balanceAt, p ∈ names
  source : ∀ link ∈ s.channels, link.1 ∈ names
  dest : ∀ link ∈ s.channels, link.2 ∈ names

theorem exists_names (s₀ s : Snapshot) : ∃ names, Named s₀ s names := by
  refine ⟨(s₀.balances.keys ++ s.balanceAt.keys ++ s.channels.keys.map Prod.fst ++
    s.channels.keys.map Prod.snd).toFinset, ?_, ?_, ?_, ?_⟩
  all_goals
    intro x hx
    simp only [List.mem_toFinset, List.mem_append, Std.ExtTreeMap.mem_keys, List.mem_map]
  · exact .inl (.inl (.inl hx))
  · exact .inl (.inl (.inr hx))
  · exact .inl (.inr ⟨x, hx, rfl⟩)
  · exact .inr ⟨x, hx, rfl⟩

theorem Kept.held_eq (h : Kept s₀ es s) (hnamed : Named s₀ s names) (hpre : pre <+: es) (p : String) :
    heldAfter s₀ pre p = s₀.balances.getD p 0 - ∑ q ∈ names, (sentOn pre (p, q)).sum +
      ∑ q ∈ names, (deliveredOn pre (q, p)).sum := by
  rw [heldAfter, spent_eq fun e he link amount hm =>
      hnamed.dest link (h.used e (hpre.subset he) link amount (.inl hm)),
    got_eq fun e he link amount hm =>
      hnamed.source link (h.used e (hpre.subset he) link amount (.inr hm))]

/-- **A complete snapshot adds up to what there was.** -/
theorem Kept.total (h : Kept s₀ es s) (hc : Complete s) :
    (s.balanceAt.toList.map Prod.snd).sum + (s.inChannel.toList.map Prod.snd).sum =
      (s₀.balances.toList.map Prod.snd).sum := by
  obtain ⟨names, hnamed⟩ := exists_names s₀ s
  rw [sum_values s.balanceAt names hnamed.recorded, sum_values s₀.balances names hnamed.start,
    sum_values s.inChannel (names ×ˢ names) fun link hl => Finset.mem_product.mpr
      ⟨hnamed.source link (h.opened link hl), hnamed.dest link (h.opened link hl)⟩,
    Finset.sum_product]
  have hprocess : ∀ p, s.balanceAt.getD p 0 = s₀.balances.getD p 0 -
      ∑ q ∈ names, (sentOn (momentOf es p) (p, q)).sum +
      ∑ q ∈ names, (deliveredOn (momentOf es p) (q, p)).sum := fun p =>
    (h.counted hc p).trans (h.held_eq hnamed (momentOf_take es p) p)
  -- what came to each process, summed by the receiver, is summed by the channel
  have hcomm : ∑ p ∈ names, ∑ q ∈ names, (deliveredOn (momentOf es p) (q, p)).sum =
      ∑ p ∈ names, ∑ q ∈ names, (deliveredOn (momentOf es q) (p, q)).sum := Finset.sum_comm
  simp only [hprocess, h.difference hc, Finset.sum_add_distrib, Finset.sum_sub_distrib, hcomm]
  ring

theorem sumI64_foldlM {l : List Int} {a total : Int} (h : l.foldlM addI64 a = some total) : total = a + l.sum :=
  foldlM_eq_add_sum (fun _ _ _ hb => (addI64_eq_some.mp hb).2) h

theorem total_eq {total : Int} (h : s.total = some total) :
    total = (s.balanceAt.toList.map Prod.snd).sum + (s.inChannel.toList.map Prod.snd).sum := by
  unfold Snapshot.total at h
  obtain ⟨balances, hbalances, h⟩ := Option.bind_eq_some_iff.mp h
  obtain ⟨inChannel, hinChannel, h⟩ := Option.bind_eq_some_iff.mp h
  rw [(addI64_eq_some.mp h).2, sumI64_foldlM hbalances, sumI64_foldlM hinChannel, Int.zero_add,
    Int.zero_add]

/-- **Chandy and Lamport's snapshot records a consistent cut**: after processes and channels are set up
and money has been sent and delivered and snapshots begun in any order, a result that is complete adds up
to the initial balances. What is recorded for a channel is what was sent on it before its sender
recorded and delivered after its receiver did. -/
theorem consistent_cut [Host] (hsetup : Run (onLine step) default es₀ s₀)
    (hset : ∀ e ∈ es₀, e.input.command = "init" ∨ e.input.command = "channel")
    (hrun : Run (onLine step) s₀ es s)
    (hkept : ∀ e ∈ es, e.input.command ≠ "init" ∧ e.input.command ≠ "channel")
    {args : List String} (hresult : step s "result" args = some (s', v))
    (hcomplete : v.flagAt "complete" = some true) :
    v.numAt "total" = some (s₀.balances.toList.map Prod.snd).sum ∧
    ∀ link ∈ s.channels, deliveredOn es link <+: sentOn es link ∧
      ∃ pre pre', recordedAfter es link.1 = some pre ∧ recordedAfter es link.2 = some pre' ∧
        s.inChannel[link]? = some (((deliveredOn es link).take (sentOn pre link).length).drop
          (deliveredOn pre' link).length).sum := by
  have h := kept (fresh_of_setup hsetup hset) hrun hkept
  obtain ⟨w, hw, heq⟩ := Option.map_eq_some_iff.mp hresult
  rw [Prod.mk.injEq] at heq
  obtain ⟨total, htotal, rfl⟩ := Option.map_eq_some_iff.mp (show s.result = some w from hw)
  obtain ⟨-, rfl⟩ := heq
  have hc : Complete s := complete_spec (Option.some.inj hcomplete)
  refine ⟨congrArg some ((total_eq htotal).trans (h.total hc)), fun link hl => ⟨?_, ?_⟩⟩
  · exact ⟨_, (h.links link).fifo.symm⟩
  · obtain ⟨pre, pre', hpre, hpre', hfound, -⟩ := h.caught hc hl
    exact ⟨pre, pre', hpre, hpre', hfound⟩

/-! Two processes and a channel each way: `b`'s money is under way when `a` begins. -/

@[reducible] def noJson : Host := hostOf []

def twoProcesses : List Line :=
  [⟨"init", ["a", "10"]⟩, ⟨"init", ["b", "20"]⟩, ⟨"channel", ["a", "b"]⟩, ⟨"channel", ["b", "a"]⟩]

def underWay : List Line :=
  [⟨"send", ["b", "a", "5"]⟩, ⟨"snapshot", ["a"]⟩, ⟨"deliver", ["b", "a"]⟩, ⟨"deliver", ["a", "b"]⟩,
    ⟨"deliver", ["b", "a"]⟩]

def setsUp (e : Event Snapshot Line Value) : Bool :=
  e.input.command == "init" || e.input.command == "channel"

theorem consistent_cut_under_way : ∃ es₀ s₀ es s s' v, Run (onLine (@step noJson)) default es₀ s₀ ∧
    es₀.map Event.input = twoProcesses ∧ Run (onLine (@step noJson)) s₀ es s ∧
    es.map Event.input = underWay ∧ @step noJson s "result" [] = some (s', v) ∧
    v.flagAt "complete" = some true ∧ v.numAt "total" = some 30 ∧
    s.inChannel[("b", "a")]? = some 5 := by
  let _ : Host := noJson
  obtain ⟨es₀, s₀, es, s, s', v, hsetup, hset, hrun, hinputs, hresult, hcomplete, hup, hkeep, hsum,
      hfound⟩ : ∃ es₀ s₀ es s s' v, Run (onLine step) default es₀ s₀ ∧
      es₀.map Event.input = twoProcesses ∧ Run (onLine step) s₀ es s ∧
      es.map Event.input = underWay ∧ step s "result" [] = some (s', v) ∧
      v.flagAt "complete" = some true ∧ es₀.all setsUp = true ∧
      (es.all fun e => !setsUp e) = true ∧ (s₀.balances.toList.map Prod.snd).sum = 30 ∧
      s.inChannel[("b", "a")]? = some 5 :=
    ⟨_, _, _, _, _, _, run_of_exec twoProcesses rfl, rfl, run_of_exec underWay rfl, rfl, rfl, rfl, rfl,
      rfl, rfl, rfl⟩
  refine ⟨es₀, s₀, es, s, s', v, hsetup, hset, hrun, hinputs, hresult, hcomplete, ?_, hfound⟩
  rw [← hsum]
  refine (consistent_cut hsetup (fun e he => ?_) hrun (fun e he => ?_) hresult hcomplete).1
  · have hline := List.all_eq_true.mp hup e he
    rw [setsUp, Bool.or_eq_true, beq_iff_eq, beq_iff_eq] at hline
    exact hline
  · have hline := List.all_eq_true.mp hkeep e he
    rw [setsUp, Bool.not_eq_true', Bool.or_eq_false_iff, beq_eq_false_iff_ne, beq_eq_false_iff_ne]
      at hline
    exact hline

end BuildYourOwn.Protocols.Snapshot
