import BuildYourOwn.Lin.Locality
import BuildYourOwn.Lin.Prefix

/-!
# The furthest attempt

A `Violation` (`disttest/src/lin/mod.rs`) shows the longest start of a linearization that the search
built, and the value it left the key with. An `Attempt` is such a start: different operations, each
called before any that still waited had returned, accepted from the absent key.

The search keeps the longest of the attempts it visits, and only visits a (set, state) pair once.
That loses nothing, as a search that failed is closed.

**`attempt_furthest`**: what the report shows is an attempt, and none is longer.
-/

namespace BuildYourOwn.Lin

open Lib

variable {entries : List Entry} {budget : Nat} {ops : List Entry} {state next : State} {e : Entry}
  {s s' : Search} {ok : Bool} {job : Job}

structure Attempt (entries ops : List Entry) (state : State) : Prop where
  distinct : ops.Nodup
  mem : ∀ e ∈ ops, e ∈ entries
  candidates : ∀ before e after, ops = before ++ e :: after →
    ∀ x ∈ entries, x ∉ before → e.callNs ≤ x.retNs
  accepted : register.replay none ops = some state

namespace Attempt

theorem nil (entries : List Entry) : Attempt entries [] none where
  distinct := List.nodup_nil
  mem := List.forall_mem_nil _
  candidates := fun before e after h => by simp at h
  accepted := rfl

theorem respects (h : Attempt entries ops state) : register.Respects ops := by
  refine List.pairwise_iff_getElem.mpr fun i j hi hj hij => ?_
  have hnew : ops[j] ∉ ops.take i := by
    intro hmem
    obtain ⟨k, hk, hsame⟩ := List.mem_iff_getElem.mp hmem
    rw [List.getElem_take] at hsame
    have hkj := (List.Nodup.getElem_inj_iff h.distinct).mp hsame
    rw [List.length_take] at hk
    omega
  have hcall := h.candidates (ops.take i) ops[i] (ops.drop (i + 1))
    (by rw [List.getElem_cons_drop, List.take_append_drop]) ops[j]
    (h.mem _ (List.getElem_mem hj)) hnew
  exact Nat.not_lt.mpr (UInt64.le_iff_toNat_le.mp hcall)

theorem concat (h : Attempt entries ops state) (he : e ∈ entries) (hnew : e ∉ ops)
    (hcall : ∀ x ∈ entries, x ∉ ops → e.callNs ≤ x.retNs) (hstep : step state e = some next) :
    Attempt entries (ops ++ [e]) next where
  distinct := List.nodup_append.mpr ⟨h.distinct, List.nodup_singleton e, fun a ha b hb hab =>
    hnew (List.mem_singleton.mp hb ▸ hab ▸ ha)⟩
  mem := fun x hx => (List.mem_append.mp hx).elim (h.mem x) fun hx => List.mem_singleton.mp hx ▸ he
  candidates := by
    intro before x after hsplit
    rcases List.eq_nil_or_concat after with rfl | ⟨after, y, rfl⟩
    · obtain ⟨rfl, hx⟩ := List.append_inj' hsplit rfl
      obtain rfl : e = x := by simpa using hx
      exact hcall
    · rw [List.concat_eq_append, ← List.cons_append, ← List.append_assoc] at hsplit
      exact h.candidates before x after (List.append_inj' hsplit rfl).1
  accepted := by
    rw [Object.replay_append, h.accepted]
    change (step state e).bind some = some next
    rw [hstep]
    rfl

theorem of_concat (h : Attempt entries (ops ++ [e]) next) : ∃ state, Attempt entries ops state ∧ e ∈ entries ∧ e ∉ ops ∧
      (∀ x ∈ entries, x ∉ ops → e.callNs ≤ x.retNs) ∧ step state e = some next := by
  obtain ⟨hdistinct, -, hdisjoint⟩ := List.nodup_append.mp h.distinct
  have haccepted := h.accepted
  rw [Object.replay_append] at haccepted
  obtain ⟨state, hstate, hlast⟩ := Option.bind_eq_some_iff.mp haccepted
  obtain ⟨last, hstep, hnext⟩ := Option.bind_eq_some_iff.mp hlast
  obtain rfl : last = next := Option.some.inj hnext
  refine ⟨state, ⟨hdistinct, fun x hx => h.mem x (List.mem_append_left _ hx),
    fun before x after hsplit => ?_, hstate⟩, h.mem e (by simp),
    fun hmem => hdisjoint e hmem e List.mem_cons_self rfl, h.candidates ops e [] rfl, hstep⟩
  refine h.candidates before x (after ++ [e]) ?_
  rw [hsplit, List.append_assoc]
  rfl

end Attempt

/-! ## What waits after an attempt -/

/-- `true` for the entries that are not among `ops`. -/
def waitingAfter (entries ops : List Entry) : List Bool := entries.map fun e => decide (e ∉ ops)

theorem waitingAfter_getElem? {i : Nat} {b : Bool} :
    (waitingAfter entries ops)[i]? = some b ↔ ∃ e, entries[i]? = some e ∧ decide (e ∉ ops) = b := by
  unfold waitingAfter
  rw [List.getElem?_map, Option.map_eq_some_iff]

theorem mem_waiting_waitingAfter : e ∈ waiting entries (waitingAfter entries ops) ↔ e ∈ entries ∧ e ∉ ops := by
  rw [mem_waiting]
  constructor
  · rintro ⟨i, hi, hleft⟩
    obtain ⟨e', he', hout⟩ := waitingAfter_getElem?.mp hleft
    obtain rfl := Option.mem_unique hi he'
    exact ⟨List.mem_of_getElem? hi, by simpa using hout⟩
  · rintro ⟨he, hout⟩
    obtain ⟨i, hi⟩ := List.mem_iff_getElem?.mp he
    exact ⟨i, hi, waitingAfter_getElem?.mpr ⟨e, hi, by simpa using hout⟩⟩

theorem waitingAfter_concat (hnd : entries.Nodup) {i : Nat} (hi : entries[i]? = some e) :
    waitingAfter entries (ops ++ [e]) = (waitingAfter entries ops).set i false := by
  refine List.ext_getElem? fun k => ?_
  unfold waitingAfter
  rw [List.getElem?_set, List.getElem?_map, List.getElem?_map, List.length_map]
  have hlt : i < entries.length := (List.getElem?_eq_some_iff.mp hi).1
  by_cases hik : i = k
  · subst hik
    rw [hi, if_pos rfl, if_pos hlt]
    simp
  · rw [if_neg hik]
    refine Option.map_congr fun x hx => ?_
    have hne : x ≠ e := by
      rintro rfl
      exact hik ((List.getElem?_inj hlt hnd).mp (hi.trans hx.symm))
    simp [hne]

theorem count_waitingAfter (hnd : entries.Nodup) (h : Attempt entries ops state) :
    (waitingAfter entries ops).count false = ops.length := by
  have hperm : (entries.filter fun e => decide (e ∈ ops)).Perm ops := by
    refine (List.perm_ext_iff_of_nodup (hnd.filter _) h.distinct).mpr fun x => ?_
    simpa using h.mem x
  rw [← hperm.length_eq]
  unfold waitingAfter
  rw [List.count_eq_countP, List.countP_map, List.countP_eq_length_filter]
  congr 1
  refine List.filter_congr fun x _ => ?_
  by_cases hx : x ∈ ops <;> simp [hx]

theorem le_minRet_waitingAfter {t : UInt64} :
    t ≤ minRet entries (waitingAfter entries ops) ↔ ∀ x ∈ entries, x ∉ ops → t ≤ x.retNs := by
  rw [le_minRet_iff]
  exact ⟨fun h x hx hout => h x (mem_waiting_waitingAfter.mpr ⟨hx, hout⟩),
    fun h x hx => h x (mem_waiting_waitingAfter.mp hx).1 (mem_waiting_waitingAfter.mp hx).2⟩

/-! ## The order in step -/

/-- What is placed at a node is the attempt `ops`, which led to `state`. -/
structure Search.InStep (entries : List Entry) (s : Search) (state : State) (ops : List Entry) :
    Prop where
  remaining : s.remaining = waitingAfter entries ops
  order : s.order = ops.map (·.id)
  attempt : Attempt entries ops state

structure Search.Records (entries : List Entry) (s : Search) : Prop where
  kept : ∃ ops, s.bestAttempt = ops.map (·.id) ∧ Attempt entries ops s.bestState.join
  longest : ∀ x ∈ s.seen, ∀ remaining, remaining.length = entries.length →
    Encodes x.1 remaining → remaining.count false ≤ s.bestAttempt.length

theorem Search.unplace_order {s₁ : Search} {i : Nat} (h : s₁.order = (s.place i e).order) :
    (s₁.unplace i e).order = s.order := by
  change s₁.order.dropLast = s.order
  rw [h]
  exact List.dropLast_concat

theorem Search.InStep.start (entries : List Entry) : (Search.new entries).InStep entries none [] where
  remaining := by
    unfold waitingAfter Search.new
    simp
  order := rfl
  attempt := Attempt.nil entries

theorem Search.InStep.visit (h : s.InStep entries state ops) :
    ({ s with states := s.states + 1 }.visit state).InStep entries state ops where
  remaining := (Search.visit_remaining _ _).trans h.remaining
  order := (Search.visit_order _ _).trans h.order
  attempt := h.attempt

theorem Search.InStep.records (hnd : entries.Nodup) (ht : s.Tidy entries)
    (h : s.InStep entries state ops) (hrec : s.Records entries) :
    ({ s with states := s.states + 1 }.visit state).Records entries := by
  have hcount : ∀ remaining, remaining.length = entries.length → Encodes s.mask remaining →
      remaining.count false = s.order.length := by
    intro remaining hlen henc
    rw [henc.unique ht.encodes (hlen.trans ht.length.symm), h.remaining, h.order, List.length_map]
    exact count_waitingAfter hnd h.attempt
  unfold Search.visit
  dsimp only
  split
  · refine ⟨⟨ops, h.order, h.attempt⟩, fun x hx remaining hlen henc => ?_⟩
    rename_i hlonger
    rcases List.mem_cons.mp hx with rfl | hx
    · exact Nat.le_of_eq (hcount remaining hlen henc)
    · exact Nat.le_trans (hrec.longest x hx remaining hlen henc) (Nat.le_of_lt hlonger)
  · refine ⟨hrec.kept, fun x hx remaining hlen henc => ?_⟩
    rename_i hshorter
    rcases List.mem_cons.mp hx with rfl | hx
    · exact Nat.le_trans (Nat.le_of_eq (hcount remaining hlen henc)) (Nat.not_lt.mp hshorter)
    · exact hrec.longest x hx remaining hlen henc

theorem Search.InStep.place (hnd : entries.Nodup) (h : s.InStep entries state ops) {i : Nat}
    (hi : entries[i]? = some e) (hleft : s.remaining[i]? = some true)
    (hcall : e.callNs ≤ minRet entries s.remaining) (hstep : step state e = some next) :
    (s.place i e).InStep entries next (ops ++ [e]) := by
  rw [h.remaining] at hcall hleft
  obtain ⟨e', he', hout⟩ := waitingAfter_getElem?.mp hleft
  obtain rfl := Option.mem_unique hi he'
  refine ⟨?_, ?_, h.attempt.concat (List.mem_of_getElem? hi) (by simpa using hout)
    (le_minRet_waitingAfter.mp hcall) hstep⟩
  · rw [Search.place_remaining, h.remaining, waitingAfter_concat hnd hi]
  · rw [List.map_append, ← h.order]
    rfl

/-- **A failed branch leaves the order as it was**, and what it keeps is an attempt. -/
theorem Explores.records (h : Explores entries budget job s state s' ok) (hnd : entries.Nodup)
    (ht : s.Tidy entries) (hfit : job.Fits entries) (hlim : job.Limited entries s.remaining)
    (hin : s.InStep entries state ops) (hrec : s.Records entries) (hok : ok = false) :
    s'.order = s.order ∧ s'.Records entries := by
  induction h generalizing ops with
  | settled => cases hok
  | starved => exact ⟨rfl, hrec.kept, hrec.longest⟩
  | seenBefore => exact ⟨rfl, hrec.kept, hrec.longest⟩
  | @opened s s' state ok _ _ _ _ ih =>
    obtain ⟨horder, hrec'⟩ := ih ht.visit fits_zipIdx
      (congrArg _ (Search.visit_remaining { s with states := s.states + 1 } state).symm) hin.visit
      (hin.records hnd ht hrec) hok
    exact ⟨horder.trans (Search.visit_order _ _), hrec'⟩
  | tried => exact ⟨rfl, hrec⟩
  | skipped _ _ ih => exact ih ht hfit.tail hlim hin hrec hok
  | found => cases hok
  | @gaveUp limit e i rest s s₁ state next hleft hcall hstep h₁ _ ih =>
    obtain rfl : limit = minRet entries s.remaining := hlim
    have hleft' := getD_eq_true.mp hleft
    obtain ⟨horder, hrec'⟩ := ih (ht.place hfit.head hleft') trivial trivial
      (hin.place hnd hfit.head hleft' hcall hstep) ⟨hrec.kept, hrec.longest⟩ rfl
    exact ⟨Search.unplace_order horder, hrec'.kept, hrec'.longest⟩
  | @failed limit e i rest s s₁ s' state next ok hleft hcall hstep h₁ _ _ ih ihrest =>
    obtain rfl : limit = minRet entries s.remaining := hlim
    have hleft' := getD_eq_true.mp hleft
    obtain ⟨ht₁, hsame⟩ := h₁.restores (ht.place hfit.head hleft') trivial rfl
    obtain ⟨htu, hback⟩ := ht₁.undo hfit.head hleft' hsame
    obtain ⟨horder₁, hrec₁⟩ := ih (ht.place hfit.head hleft') trivial trivial
      (hin.place hnd hfit.head hleft' hcall hstep) ⟨hrec.kept, hrec.longest⟩ rfl
    have horderu := Search.unplace_order horder₁
    obtain ⟨horder', hrec'⟩ := ihrest htu hfit.tail (congrArg _ hback.symm)
      ⟨hback.trans hin.remaining, horderu.trans hin.order, hin.attempt⟩
      ⟨hrec₁.kept, hrec₁.longest⟩ hok
    exact ⟨horder'.trans horderu, hrec'⟩

/-! ## Every branch was tried -/

/-- A remembered pair, by the operations that wait at it. -/
def Visited (seen : List (List UInt64 × State)) (remaining : List Bool) (state : State) : Prop :=
  ∃ mask, Encodes mask remaining ∧ (mask, state) ∈ seen

def Job.Tried (seen : List (List UInt64 × State)) (remaining : List Bool) (state : State) :
    Job → Prop
  | .node => Visited seen remaining state
  | .loop limit todo => ∀ p ∈ todo, remaining[p.2]? = some true → p.1.callNs ≤ limit →
      ∀ next, step state p.1 = some next → Visited seen (remaining.set p.2 false) next

/-- Every branch of a remembered pair was visited. -/
def Closed (entries : List Entry) (seen : List (List UInt64 × State)) (x : List UInt64 × State) :
    Prop :=
  ∀ remaining, remaining.length = entries.length → Encodes x.1 remaining →
    (Job.loop (minRet entries remaining) entries.zipIdx).Tried seen remaining x.2

theorem Visited.mono {seen seen' : List (List UInt64 × State)} {remaining : List Bool}
    (h : Visited seen remaining state) (hsub : ∀ x ∈ seen, x ∈ seen') : Visited seen' remaining state := by
  obtain ⟨mask, henc, hmem⟩ := h
  exact ⟨mask, henc, hsub _ hmem⟩

theorem Closed.mono {seen seen' : List (List UInt64 × State)} {x : List UInt64 × State}
    (h : Closed entries seen x) (hsub : ∀ x ∈ seen, x ∈ seen') : Closed entries seen' x :=
  fun remaining hlen henc p hp hleft hcall next hstep =>
    (h remaining hlen henc p hp hleft hcall next hstep).mono hsub

/-- **What a failed search remembers is closed**, once the loops around it have ended. -/
theorem Explores.closes (h : Explores entries budget job s state s' ok) (ht : s.Tidy entries)
    (hfit : job.Fits entries) (hok : ok = false) (hexh : s'.exhaustedBudget = false) :
    (∀ x ∈ s.seen, x ∈ s'.seen) ∧ (∀ x ∈ s'.seen, x ∈ s.seen ∨ Closed entries s'.seen x) ∧
      job.Tried s'.seen s.remaining state := by
  induction h with
  | settled => cases hok
  | starved => cases hexh
  | @seenBefore s state _ _ hseen =>
    exact ⟨fun x hx => hx, fun x hx => .inl hx, s.mask, ht.encodes, hseen⟩
  | @opened s s' state ok _ _ _ _ ih =>
    have hsame : ({ s with states := s.states + 1 }.visit state).remaining = s.remaining :=
      Search.visit_remaining _ _
    have hseen : ({ s with states := s.states + 1 }.visit state).seen = (s.mask, state) :: s.seen :=
      Search.visit_seen _ _
    rw [hsame, hseen] at ih
    obtain ⟨hsub, hclosed, htried⟩ := ih ht.visit fits_zipIdx hok hexh
    refine ⟨fun x hx => hsub x (List.mem_cons_of_mem _ hx), fun x hx => ?_,
      s.mask, ht.encodes, hsub _ List.mem_cons_self⟩
    rcases hclosed x hx with hx | hx
    · rcases List.mem_cons.mp hx with rfl | hx
      · refine .inr fun remaining hlen henc => ?_
        rw [henc.unique ht.encodes (hlen.trans ht.length.symm)]
        exact htried
      · exact .inl hx
    · exact .inr hx
  | tried => exact ⟨fun x hx => hx, fun x hx => .inl hx, List.forall_mem_nil _⟩
  | skipped hskip _ ih =>
    obtain ⟨hsub, hclosed, htried⟩ := ih ht hfit.tail hok hexh
    refine ⟨hsub, hclosed, fun p hp hleft hcall next hstep => ?_⟩
    rcases List.mem_cons.mp hp with rfl | hp
    · rw [hskip (getD_eq_true.mpr hleft) hcall] at hstep
      cases hstep
    · exact htried p hp hleft hcall next hstep
  | found => cases hok
  | gaveUp _ _ _ _ hexh₁ _ =>
    rw [Search.unplace_exhaustedBudget, hexh₁] at hexh
    cases hexh
  | @failed limit e i rest s s₁ s' state next ok hleft _ hstep h₁ hexh₁ _ ih ihrest =>
    have hleft' := getD_eq_true.mp hleft
    obtain ⟨ht₁, hsame⟩ := h₁.restores (ht.place hfit.head hleft') trivial rfl
    obtain ⟨htu, hback⟩ := ht₁.undo hfit.head hleft' hsame
    obtain ⟨hsub₁, hclosed₁, htried₁⟩ := ih (ht.place hfit.head hleft') trivial rfl hexh₁
    rw [hback] at ihrest
    obtain ⟨hsub, hclosed, htried⟩ := ihrest htu hfit.tail hok hexh
    refine ⟨fun x hx => hsub x (hsub₁ x hx), fun x hx => ?_, fun p hp hleftp hcall next' hstep' => ?_⟩
    · rcases hclosed x hx with hx | hx
      · exact (hclosed₁ x hx).imp id fun hx => hx.mono hsub
      · exact .inr hx
    · rcases List.mem_cons.mp hp with rfl | hp
      · obtain rfl : next = next' := Option.mem_unique hstep hstep'
        exact htried₁.mono hsub
      · exact htried p hp hleftp hcall next' hstep'

/-! ## The report -/

theorem visited_of_attempt {seen : List (List UInt64 × State)} (hnd : entries.Nodup)
    (hstart : Visited seen (waitingAfter entries []) none)
    (hclosed : ∀ x ∈ seen, Closed entries seen x) (h : Attempt entries ops state) :
    Visited seen (waitingAfter entries ops) state := by
  induction ops using List.reverseRecOn generalizing state with
  | nil =>
    obtain rfl : none = state := Option.some.inj h.accepted
    exact hstart
  | append_singleton ops e ih =>
    obtain ⟨before, hbefore, he, hnew, hcall, hstep⟩ := h.of_concat
    obtain ⟨mask, henc, hmem⟩ := ih hbefore
    obtain ⟨i, hi⟩ := List.mem_iff_getElem?.mp he
    rw [waitingAfter_concat hnd hi]
    exact hclosed (mask, before) hmem _ (List.length_map _) henc (e, i)
      (List.mem_zipIdx_iff_getElem?.mpr hi)
      (waitingAfter_getElem?.mpr ⟨e, hi, by simpa using hnew⟩)
      (le_minRet_waitingAfter.mpr hcall) _ hstep

/-- **A search that failed kept a longest attempt.** -/
theorem Fails.furthest (h : Fails entries budget s) (hnd : entries.Nodup) :
    ∃ ops, ops.map (·.id) = s.bestAttempt ∧ Attempt entries ops s.bestState.join ∧
      ∀ ops' state', Attempt entries ops' state' → ops'.length ≤ s.bestAttempt.length := by
  have hne : entries ≠ [] := fun hnil => by simpa [run, hnil] using h.1
  have hexplored := explores_of_run h.1 hne
  have hnone : (Search.new entries).Records entries :=
    ⟨⟨[], rfl, Attempt.nil entries⟩, List.forall_mem_nil _⟩
  obtain ⟨-, ⟨ops, hops, hattempt⟩, hlongest⟩ := hexplored.records hnd Search.tidy_new trivial
    trivial (Search.InStep.start entries) hnone rfl
  obtain ⟨-, hclosed, hstart⟩ := hexplored.closes Search.tidy_new trivial rfl h.2
  refine ⟨ops, hops.symm, hattempt, fun ops' state' h' => ?_⟩
  obtain ⟨mask, henc, hmem⟩ := visited_of_attempt hnd
    ((Search.InStep.start entries).remaining ▸ hstart)
    (fun x hx => (hclosed x hx).resolve_left List.not_mem_nil) h'
  rw [← count_waitingAfter hnd h']
  exact hlongest _ hmem _ (List.length_map _) henc

theorem nodup_prefixAt (hid : (entries.map (·.id)).Nodup) (t : UInt64) : (prefixAt entries t).2.Nodup := by
  have hsame : (prefixAt entries t).2.map (·.id) = (prefixAt entries t).1.map (·.id) := by
    unfold prefixAt
    rw [List.map_map]
    refine List.map_congr_left fun e _ => ?_
    rcases Entry.at_cases t e with h | h
    · exact congrArg Entry.id h
    · exact (congrArg Entry.id h).trans rfl
  refine List.Nodup.of_map (·.id) ?_
  rw [hsame]
  exact hid.sublist (List.filter_sublist.map _)

/-- **The furthest attempt.** -/
theorem attempt_furthest {key : String} {v : Violation} (hid : (entries.map (·.id)).Nodup)
    (h : checkOneKey key entries budget = some (.notLinearizable v)) :
    ∃ searched ops, ((v.entries, searched) = prefixAt entries v.culprit.retNs ∨
        (v.entries, searched) = (entries.insertionSort entryLe, entries)) ∧
      ops.map (·.id) = v.bestAttempt ∧ Attempt searched ops v.bestState ∧
      register.Respects ops ∧
      ∀ ops' state', Attempt searched ops' state' → ops'.length ≤ v.bestAttempt.length := by
  obtain ⟨s, hfails⟩ := fails_of_rejected h
  obtain ⟨best, v', hbisect, hv', hsome, hnone⟩ := checkOneKey_report key hfails
  obtain rfl : v' = v := by simpa using hv'.symm.trans h
  obtain ⟨best', hbisect', hreported⟩ := bisect_isSome entries budget
  obtain rfl := Option.mem_unique hbisect hbisect'
  cases hbest : best with
  | some b =>
    obtain ⟨hculprit, hentries, hattempt, hstate⟩ := hsome b hbest
    obtain ⟨t, s', hmem, hfails', hb⟩ := hreported b hbest
    obtain ⟨e, he, -, rfl⟩ := mem_returns.mp hmem
    obtain rfl : e = v'.culprit := Option.mem_unique he hculprit
    obtain ⟨ops, hops, hat, hmax⟩ := hfails'.furthest (nodup_prefixAt hid _)
    rw [hb] at hentries hattempt hstate
    refine ⟨(prefixAt entries v'.culprit.retNs).2, ops, .inl (Prod.ext hentries rfl),
      hops.trans hattempt.symm, ?_, hat.respects, fun ops' state' h' => ?_⟩
    · rw [hstate]
      exact hat
    · rw [hattempt]
      exact hmax ops' state' h'
  | none =>
    obtain ⟨hentries, hattempt, hstate⟩ := hnone hbest
    obtain ⟨ops, hops, hat, hmax⟩ := hfails.furthest (hid.of_map _)
    refine ⟨entries, ops, .inr (Prod.ext hentries rfl), hops.trans hattempt.symm, ?_,
      hat.respects, fun ops' state' h' => ?_⟩
    · rw [hstate]
      exact hat
    · rw [hattempt]
      exact hmax ops' state' h'

/-- A write that another overtook, a read of it, and a read that sees the first again. -/
def overtaken : History :=
  ((((⟨[]⟩ : History).push (Recorder.entry 0 "k" (.write [97]) .ok 0 10 "")).push
    (Recorder.entry 1 "k" (.write [98]) .ok 20 60 "")).push
    (Recorder.entry 2 "k" .read (.value (some [98])) 30 40 "")).push
    (Recorder.entry 2 "k" .read (.value (some [97])) 50 70 "")

/-- Three of the four can be placed, and the key then holds the second value. -/
theorem attempt_furthest_overtaken :
    ∃ v searched, checkOneKey "k" overtaken.entries 400000 = some (.notLinearizable v) ∧
      v.bestAttempt = [0, 1, 2] ∧ v.bestState = some [98] ∧
      ∀ ops' state', Attempt searched ops' state' → ops'.length ≤ 3 := by
  obtain ⟨v, hv, hbest, hstate⟩ : ∃ v, checkOneKey "k" overtaken.entries 400000 =
      some (.notLinearizable v) ∧ v.bestAttempt = [0, 1, 2] ∧ v.bestState = some [98] :=
    ⟨_, rfl, rfl, rfl⟩
  obtain ⟨searched, ops, -, -, -, -, hmax⟩ := attempt_furthest (by decide) hv
  rw [hbest] at hmax
  exact ⟨v, searched, hv, hbest, hstate, hmax⟩

end BuildYourOwn.Lin
