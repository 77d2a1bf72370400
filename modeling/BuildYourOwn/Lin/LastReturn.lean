import BuildYourOwn.Lin.Locality
import BuildYourOwn.Lin.Prefix

/-!
# The prefix at the last return

When the search of a whole history fails with budget to spare, `check_one_key` (`disttest/src/lin/mod.rs`) finds an
operation to blame. The prefix at the last return lacks only operations called later and never answered. As long as
an answer is missing the candidate rule keeps those out of the search, so both searches take the same steps, state by
state (`Explores.mirrored`): `Twin` puts the indices, the masks and the remembered pairs of the one in step with those
of the other.

**`culprit_answered`**: the bisection finds a failing prefix, and the culprit of every rejected key has an answer.
-/

namespace BuildYourOwn.Lin

open Lib

variable {entries : List Entry} {budget : Nat} {T : UInt64}

theorem testBit_ext {ws ws' : List UInt64} (hlen : ws.length = ws'.length)
    (h : ∀ i, testBit ws i = testBit ws' i) : ws = ws' := by
  refine List.ext_getElem hlen fun k hk hk' => UInt64.eq_of_toBitVec_eq (BitVec.eq_of_getLsbD_eq fun j hj => ?_)
  have hbit := h (64 * k + j)
  have hword : (64 * k + j) / 64 = k := by omega
  have hrest : (64 * k + j) % 64 = j := by omega
  simpa [testBit, hword, hrest, hk, hk'] using hbit

/-! ## Indices -/

/-- What is called by `T`. -/
def early (T : UInt64) (entries : List Entry) : List Entry := entries.filter fun e => e.callNs ≤ T

/-- The entry number `i` is called by `T`, and is number `i'` of those that are. -/
def Moves (T : UInt64) (entries : List Entry) (i i' : Nat) : Prop :=
  ∃ e, entries[i]? = some e ∧ e.callNs ≤ T ∧ (early T (entries.take i)).length = i'

variable {i i' j j' : Nat} {e : Entry}

theorem exists_moves : ∀ {entries : List Entry} {i' : Nat}, (early T entries)[i']? = some e →
    ∃ i, entries[i]? = some e ∧ Moves T entries i i'
  | x :: xs, i', h => by
    by_cases hx : x.callNs ≤ T
    · cases i' with
      | zero => exact ⟨0, by simpa [early, hx] using h, x, rfl, hx, rfl⟩
      | succ i' =>
        obtain ⟨i, hi, y, hy, hcall, hlen⟩ := exists_moves (by simpa [early, hx] using h)
        exact ⟨i + 1, hi, y, hy, hcall, by simpa [early, hx] using hlen⟩
    · obtain ⟨i, hi, y, hy, hcall, hlen⟩ := exists_moves (by simpa [early, hx] using h)
      exact ⟨i + 1, hi, y, hy, hcall, by simpa [early, hx] using hlen⟩

theorem Moves.get (h : Moves T entries i i') : (early T entries)[i']? = entries[i]? := by
  obtain ⟨e, he, hcall, rfl⟩ := h
  obtain ⟨hi, rfl⟩ := List.getElem?_eq_some_iff.mp he
  have hsplit : early T entries = early T (entries.take i) ++ entries[i] :: early T (entries.drop (i + 1)) := by
    unfold early
    conv_lhs => rw [← List.take_append_drop i entries, List.drop_eq_getElem_cons hi, List.filter_append]
    rw [List.filter_cons, if_pos (by simpa using hcall)]
  rw [he, hsplit, List.getElem?_append_right (Nat.le_refl _), Nat.sub_self]
  rfl

theorem early_take_succ (he : entries[i]? = some e) (hcall : e.callNs ≤ T) :
    early T (entries.take (i + 1)) = early T (entries.take i) ++ [e] := by
  obtain ⟨hi, rfl⟩ := List.getElem?_eq_some_iff.mp he
  unfold early
  rw [List.take_succ_eq_append_getElem hi, List.filter_append, List.filter_cons, if_pos (by simpa using hcall)]
  rfl

theorem Moves.lt (h : Moves T entries i i') (h' : Moves T entries j j') (hlt : i < j) : i' < j' := by
  obtain ⟨e, he, hcall, rfl⟩ := h
  obtain ⟨-, -, -, rfl⟩ := h'
  have hsub : (early T (entries.take (i + 1))).length ≤ (early T (entries.take j)).length :=
    ((List.take_prefix_take_left hlt).sublist.filter _).length_le
  rw [early_take_succ he hcall, List.length_append] at hsub
  exact hsub

theorem Moves.eq_iff (h : Moves T entries i i') (h' : Moves T entries j j') : i = j ↔ i' = j' := by
  rcases Nat.lt_trichotomy i j with hlt | rfl | hgt
  · have := h.lt h' hlt
    omega
  · obtain ⟨-, -, -, rfl⟩ := h
    obtain ⟨-, -, -, rfl⟩ := h'
    simp
  · have := h'.lt h hgt
    omega

/-! ## Searches in step -/

/-- Two bitmaps of the same operations. -/
structure SameBits (T : UInt64) (entries : List Entry) (m m' : List UInt64) : Prop where
  length : m.length = max ((entries.length + 63) / 64) 1
  length' : m'.length = max (((early T entries).length + 63) / 64) 1
  bits : ∀ i i', Moves T entries i i' → testBit m' i' = testBit m i
  clear : ∀ i, (∀ i', ¬ Moves T entries i i') → testBit m i = false
  clear' : ∀ i', (∀ i, ¬ Moves T entries i i') → testBit m' i' = false

variable {m m' n n' : List UInt64}

theorem SameBits.eq_iff (h : SameBits T entries m m') (hn : SameBits T entries n n') : m = n ↔ m' = n' := by
  constructor
  · rintro rfl
    refine testBit_ext (h.length'.trans hn.length'.symm) fun i' => ?_
    by_cases hi : ∃ i, Moves T entries i i'
    · obtain ⟨i, hi⟩ := hi
      rw [h.bits i i' hi, hn.bits i i' hi]
    · rw [h.clear' i' (not_exists.mp hi), hn.clear' i' (not_exists.mp hi)]
  · rintro rfl
    refine testBit_ext (h.length.trans hn.length.symm) fun i => ?_
    by_cases hi : ∃ i', Moves T entries i i'
    · obtain ⟨i', hi⟩ := hi
      rw [← h.bits i i' hi, ← hn.bits i i' hi]
    · rw [h.clear i (not_exists.mp hi), hn.clear i (not_exists.mp hi)]

theorem SameBits.setBit (h : SameBits T entries m m') (hi : Moves T entries i i') (b : Bool) :
    SameBits T entries (setBit m i b) (setBit m' i' b) := by
  have hlt : i < entries.length := by
    obtain ⟨e, he, -⟩ := hi
    exact (List.getElem?_eq_some_iff.mp he).1
  have hlt' : i' < (early T entries).length := by
    obtain ⟨e, he, -⟩ := id hi
    exact (List.getElem?_eq_some_iff.mp (hi.get.trans he)).1
  have hword : i / 64 < m.length := by
    have := h.length
    omega
  have hword' : i' / 64 < m'.length := by
    have := h.length'
    omega
  refine ⟨by simpa using h.length, by simpa using h.length', fun j j' hj => ?_, fun j hj => ?_, fun j' hj => ?_⟩
  · simp only [testBit_setBit hword, testBit_setBit hword', hj.eq_iff hi, h.bits j j' hj]
  · rw [testBit_setBit hword, if_neg fun hji : j = i => hj i' (hji ▸ hi), h.clear j hj]
  · rw [testBit_setBit hword', if_neg fun hji : j' = i' => hj i (hji ▸ hi), h.clear' j' hj]

structure Twin (T : UInt64) (entries : List Entry) (s t : Search) : Prop where
  waits : ∀ i i', Moves T entries i i' → t.remaining[i']? = s.remaining[i]?
  mask : SameBits T entries s.mask t.mask
  seen : List.Forall₂ (fun x y => SameBits T entries x.1 y.1 ∧ x.2 = y.2) s.seen t.seen
  states : t.states = s.states
  exhausted : t.exhaustedBudget = s.exhaustedBudget
  known : t.knownLeft = s.knownLeft

variable {s t s' : Search} {state : State}

theorem Twin.mem_seen (h : Twin T entries s t) : (s.mask, state) ∈ s.seen ↔ (t.mask, state) ∈ t.seen := by
  have hmask := h.mask
  have hseen := h.seen
  generalize s.seen = xs, t.seen = ys at hseen ⊢
  induction hseen with
  | nil => simp
  | cons hxy _ ih =>
    rw [List.mem_cons, List.mem_cons]
    refine or_congr ?_ ih
    rw [Prod.ext_iff, Prod.ext_iff, hmask.eq_iff hxy.1, hxy.2]

theorem Twin.visit (h : Twin T entries s t) :
    Twin T entries ({ s with states := s.states + 1 }.visit state) ({ t with states := t.states + 1 }.visit state) where
  waits i i' hi := by simpa using h.waits i i' hi
  mask := by simpa using h.mask
  seen := by simpa using ⟨h.mask, h.seen⟩
  states := by simp [h.states]
  exhausted := by simpa using h.exhausted
  known := by simpa using h.known

theorem Twin.getD (h : Twin T entries s t) (hi : Moves T entries i i') :
    t.remaining.getD i' false = s.remaining.getD i false := by
  rw [List.getD_eq_getElem?_getD, List.getD_eq_getElem?_getD, h.waits i i' hi]

theorem Twin.set (h : Twin T entries s t) (hi : Moves T entries i i') (b : Bool) (j j' : Nat)
    (hj : Moves T entries j j') : (t.remaining.set i' b)[j']? = (s.remaining.set i b)[j]? := by
  by_cases hij : i = j
  · obtain rfl := hij
    obtain rfl := (hi.eq_iff hj).mp rfl
    have hsame := h.waits i i' hi
    by_cases hlt : i < s.remaining.length
    · rw [List.getElem?_eq_getElem hlt] at hsame
      rw [List.getElem?_set_self hlt, List.getElem?_set_self (List.getElem?_eq_some_iff.mp hsame).1]
    · rw [List.getElem?_eq_none (Nat.not_lt.mp hlt), List.getElem?_eq_none_iff] at hsame
      rw [List.set_eq_of_length_le hsame, List.set_eq_of_length_le (Nat.not_lt.mp hlt), h.waits i i' hi]
  · rw [List.getElem?_set_ne hij, List.getElem?_set_ne (mt (hi.eq_iff hj).mpr hij), h.waits j j' hj]

theorem Twin.place (h : Twin T entries s t) (hi : Moves T entries i i') :
    Twin T entries (s.place i e) (t.place i' e) where
  waits := h.set hi false
  mask := h.mask.setBit hi true
  seen := h.seen
  states := h.states
  exhausted := h.exhausted
  known := by simp [h.known]

theorem Twin.unplace (h : Twin T entries s t) (hi : Moves T entries i i') :
    Twin T entries (s.unplace i e) (t.unplace i' e) where
  waits := h.set hi true
  mask := h.mask.setBit hi false
  seen := h.seen
  states := h.states
  exhausted := h.exhausted
  known := by simp [h.known]

/-! ## The same steps -/

/-- Answers come by `T`. -/
def AnsweredBy (T : UInt64) (entries : List Entry) : Prop := ∀ e ∈ entries, e.isUnknown = false → e.retNs ≤ T

theorem Twin.minRet (h : Twin T entries s t) (hw : ∀ e ∈ entries, e.WellTimed) (hall : AnsweredBy T entries) :
    minRet (early T entries) t.remaining = minRet entries s.remaining := by
  refine UInt64.le_antisymm (le_minRet_iff.mpr fun x hx => ?_) (le_minRet_iff.mpr fun x hx => ?_)
  · obtain ⟨i, hi, hleft⟩ := mem_waiting.mp hx
    have hmem := List.mem_of_getElem? hi
    by_cases hcall : x.callNs ≤ T
    · have hmoves : Moves T entries i _ := ⟨x, hi, hcall, rfl⟩
      refine le_minRet_iff.mp (UInt64.le_refl _) x (mem_waiting.mpr ⟨_, hmoves.get.trans hi, ?_⟩)
      rw [h.waits i _ hmoves, hleft]
    · have hout : x.outcome = .unknown := by
        by_contra hknown
        have hret := hall x hmem (by simpa [Entry.isUnknown] using hknown)
        exact hcall (UInt64.le_trans (hw x hmem).window hret)
      rw [(hw x hmem).never.mpr hout]
      exact le_u64Max _
  · obtain ⟨i', hi', hleft⟩ := mem_waiting.mp hx
    obtain ⟨i, hi, hmoves⟩ := exists_moves hi'
    exact le_minRet_iff.mp (UInt64.le_refl _) x (mem_waiting.mpr ⟨i, hi, (h.waits i i' hmoves).symm.trans hleft⟩)

/-- As long as an answer is missing only what was called by `T` may go next. -/
theorem Search.Tidy.limit_le (ht : s.Tidy entries) (hknown : s.knownLeft ≠ 0) (hall : AnsweredBy T entries) :
    minRet entries s.remaining ≤ T := by
  rw [ht.known, Ne, List.length_eq_zero_iff] at hknown
  obtain ⟨e, he⟩ := List.exists_mem_of_ne_nil _ hknown
  obtain ⟨hwaits, hout⟩ := List.mem_filter.mp he
  have hret := hall e (mem_of_mem_waiting hwaits) (by simpa using hout)
  exact UInt64.le_trans (le_minRet_iff.mp (UInt64.le_refl _) e hwaits) hret

theorem early_cons {es : List Entry} (hcall : e.callNs ≤ T) : early T (e :: es) = e :: early T es := by
  simp [early, hcall]

variable {pre es : List Entry}

theorem length_early_concat (hcall : e.callNs ≤ T) : (early T (pre ++ [e])).length = (early T pre).length + 1 := by
  simp [early, hcall]

theorem moves_split (hsplit : entries = pre ++ e :: es) (hcall : e.callNs ≤ T) :
    Moves T entries pre.length (early T pre).length := by
  subst hsplit
  exact ⟨e, by simp, hcall, by simp⟩

theorem of_cons_eq_zipIdx {rest : List (Entry × Nat)} {n : Nat} (h : (e, i) :: rest = es.zipIdx n) :
    ∃ es', es = e :: es' ∧ i = n ∧ rest = es'.zipIdx (n + 1) := by
  cases es with
  | nil => cases h
  | cons x es =>
    rw [List.zipIdx_cons] at h
    cases h
    exact ⟨es, rfl, rfl, rfl⟩

def Job.Mirrored (T : UInt64) (entries : List Entry) (budget : Nat) (s : Search) (state : State) (s' : Search) :
    Job → Prop
  | .node => ∀ t, Twin T entries s t → ∀ fuel r, recurse (early T entries) budget fuel t state = some r →
      r.2 = false ∧ Twin T entries s' r.1
  | .loop limit todo => ∀ pre es t, entries = pre ++ es → todo = es.zipIdx pre.length → limit ≤ T →
      Twin T entries s t → ∀ fuel r, tryEach (recurse (early T entries) budget fuel) state limit
        ((early T es).zipIdx (early T pre).length) t = some r → r.2 = false ∧ Twin T entries s' r.1

theorem Explores.mirrored {job : Job} {ok : Bool} (h : Explores entries budget job s state s' ok)
    (hw : ∀ e ∈ entries, e.WellTimed) (hall : AnsweredBy T entries) (ht : s.Tidy entries)
    (hfit : job.Fits entries) (hok : ok = false) (hexh : s'.exhaustedBudget = false) :
    job.Mirrored T entries budget s state s' := by
  induction h with
  | settled => cases hok
  | starved => cases hexh
  | seenBefore hknown hbudget hseen =>
    intro t htwin fuel r hr
    cases fuel with
    | zero => cases hr
    | succ fuel =>
      rw [recurse, if_neg (htwin.known ▸ hknown), if_neg (htwin.states ▸ hbudget)] at hr
      dsimp only at hr
      rw [if_pos (htwin.mem_seen.mp hseen)] at hr
      cases hr
      exact ⟨rfl, htwin.waits, htwin.mask, htwin.seen, congrArg (· + 1) htwin.states, htwin.exhausted, htwin.known⟩
  | opened hknown hbudget hseen _ ih =>
    intro t htwin fuel r hr
    cases fuel with
    | zero => cases hr
    | succ fuel =>
      rw [recurse, if_neg (htwin.known ▸ hknown), if_neg (htwin.states ▸ hbudget)] at hr
      dsimp only at hr
      rw [if_neg (mt htwin.mem_seen.mpr hseen), htwin.minRet hw hall] at hr
      exact ih ht.visit fits_zipIdx hok hexh [] entries _ rfl rfl (ht.limit_le hknown hall) htwin.visit fuel r hr
  | tried =>
    intro pre es t _ htodo _ htwin fuel r hr
    obtain rfl : es = [] := by simpa using htodo.symm
    cases hr
    exact ⟨rfl, htwin⟩
  | found => cases hok
  | gaveUp _ _ _ _ hexh₁ _ => cases hexh₁.symm.trans hexh
  | @skipped limit e i rest s s' state ok hskip _ ih =>
    intro pre es t hsplit htodo hlimit htwin fuel r hr
    obtain ⟨es, rfl, rfl, rfl⟩ := of_cons_eq_zipIdx htodo
    have hrest := ih ht hfit.tail hok hexh (pre ++ [e]) es t (by simpa using hsplit) (by simp) hlimit htwin fuel r
    by_cases hcall : e.callNs ≤ T
    · have hmoves := moves_split hsplit hcall
      rw [early_cons hcall, List.zipIdx_cons, tryEach, htwin.getD hmoves] at hr
      rw [length_early_concat hcall] at hrest
      split at hr
      · exact hrest hr
      rename_i hleft
      split at hr
      · exact hrest hr
      rename_i hlate
      rw [hskip (by simpa using hleft) (UInt64.not_lt.mp hlate)] at hr
      exact hrest hr
    · simp only [early, List.filter_append, List.filter_cons, hcall] at hr hrest
      exact hrest (by simpa using hr)
  | @failed limit e i rest s s₁ s' state next ok hleft hlate hstep h₁ hexh₁ _ ih ihrest =>
    intro pre es t hsplit htodo hlimit htwin fuel r hr
    obtain ⟨es, rfl, rfl, rfl⟩ := of_cons_eq_zipIdx htodo
    have hcall := UInt64.le_trans hlate hlimit
    have hmoves := moves_split hsplit hcall
    have hplace := ht.place hfit.head (getD_eq_true.mp hleft)
    obtain ⟨ht₁, hsame⟩ := h₁.restores hplace trivial rfl
    obtain ⟨htu, -⟩ := ht₁.undo hfit.head (getD_eq_true.mp hleft) hsame
    rw [early_cons hcall, List.zipIdx_cons, tryEach, htwin.getD hmoves, hleft, if_neg (by simp),
      if_neg (UInt64.not_lt.mpr hlate), hstep] at hr
    obtain ⟨⟨t₁, ok₁⟩, hnode, hr⟩ := Option.bind_eq_some_iff.mp hr
    obtain ⟨rfl, htwin₁⟩ := ih hplace trivial rfl hexh₁ _ (htwin.place hmoves) fuel _ hnode
    have htwinu := htwin₁.unplace hmoves (e := e)
    have hgoes : t₁.exhaustedBudget = false := htwin₁.exhausted.trans hexh₁
    have hrest := ihrest htu hfit.tail hok hexh (pre ++ [e]) es _ (by simpa using hsplit) (by simp) hlimit htwinu fuel r
    rw [length_early_concat hcall] at hrest
    exact hrest (by simpa [hgoes] using hr)

theorem Twin.start (hall : AnsweredBy T entries) (hw : ∀ e ∈ entries, e.WellTimed) :
    Twin T entries (Search.new entries) (Search.new (early T entries)) where
  waits i i' hi := by
    obtain ⟨e, he, -⟩ := id hi
    have hlt := (List.getElem?_eq_some_iff.mp he).1
    have hlt' := (List.getElem?_eq_some_iff.mp (hi.get.trans he)).1
    simp [Search.new, hlt, hlt']
  mask := by
    have hzero : ∀ n i, testBit (List.replicate n 0) i = false := fun n i => by
      unfold testBit
      rw [List.getD_eq_getElem?_getD, List.getElem?_replicate]
      split <;> simp
    exact ⟨List.length_replicate, List.length_replicate, fun _ _ _ => (hzero _ _).trans (hzero _ _).symm,
      fun _ _ => hzero _ _, fun _ _ => hzero _ _⟩
  seen := .nil
  states := rfl
  exhausted := rfl
  known := by
    refine congrArg List.length ((List.filter_filter ..).trans (List.filter_congr fun e he => ?_))
    cases hout : e.isUnknown with
    | true => simp
    | false => simpa using UInt64.le_trans (hw e he).window (hall e he hout)

theorem prefixAt_of_answered (hw : ∀ e ∈ entries, e.WellTimed) (hall : AnsweredBy T entries) :
    (prefixAt entries T).2 = early T entries := by
  have hsame : ∀ e ∈ entries, e.at T = e := by
    intro e he
    cases hunknown : e.isUnknown with
    | true => exact (hw e he).at_unknown (Entry.isUnknown_iff.mp hunknown)
    | false => exact Entry.at_of_le (hall e he hunknown)
  rw [prefixAt_eq, List.map_congr_left hsame, List.map_id']
  rfl

theorem Fails.at_last (h : Fails entries budget s) (hw : ∀ e ∈ entries, e.WellTimed) (hall : AnsweredBy T entries) :
    ∃ t, Fails (prefixAt entries T).2 budget t := by
  have hne : entries ≠ [] := fun hnil => by simpa [run, hnil] using h.1
  have hexplored := explores_of_run h.1 hne
  have hnot := run_complete hw h.1 h.2
  rw [prefixAt_of_answered hw hall]
  obtain ⟨t, ok, hrun⟩ := run_isSome (early T entries) budget
  have hne' : early T entries ≠ [] := fun hnil => by
    refine impossible_of_answered hw hall hnot ?_
    rw [prefixAt_of_answered hw hall, hnil]
    exact Object.linearizable_of_optional fun e he => absurd he List.not_mem_nil
  have hrecurse := hrun
  rw [run, if_neg hne'] at hrecurse
  obtain ⟨rfl, htwin⟩ := hexplored.mirrored hw hall Search.tidy_new trivial rfl h.2 _ (Twin.start hall hw) _ _ hrecurse
  exact ⟨t, hrun, htwin.exhausted.trans h.2⟩

theorem bisect_finds (h : Fails entries budget s) (hw : ∀ e ∈ entries, e.WellTimed) :
    ∃ b, bisect entries budget (returns entries) ((returns entries).length + 1) 0 (returns entries).length none =
        some (some b) ∧ ∃ t s', (t, b.culprit) ∈ returns entries ∧ Fails (prefixAt entries t).2 budget s' := by
  have hpos : 0 < (returns entries).length := by
    refine List.length_pos_iff.mpr fun hnil => h.not_linearizable hw ?_
    refine Object.linearizable_of_optional fun e he => ?_
    by_contra hout
    have hout : e.outcome ≠ .unknown := hout
    obtain ⟨i, hi⟩ := List.mem_iff_getElem?.mp he
    have hmem : (e.retNs, i) ∈ returns entries :=
      mem_returns.mpr ⟨e, hi, by simpa [Entry.isUnknown] using hout, rfl⟩
    simp [hnil] at hmem
  obtain ⟨best, _, lo, hi, hbisect, hend, hbest⟩ :=
    @bisect_rule entries budget (returns entries)
      (fun _ lo hi best => best = none → hi = (returns entries).length ∧ lo < hi)
      (fun _ _ _ _ _ _ h => absurd h (by simp))
      (fun {_ lo hi _ mid T culprit t ok} hlt hhi hmid hget hrun hpass ih hnone => by
        obtain ⟨rfl, -⟩ := ih hnone
        refine ⟨rfl, Nat.lt_of_le_of_ne (by omega) fun hlast => ?_⟩
        -- the last return was tested, and its prefix fails
        have hall : AnsweredBy T entries := by
          intro e he hout
          obtain ⟨i, hi⟩ := List.mem_iff_getElem?.mp he
          obtain ⟨k, hk, hk'⟩ := List.mem_iff_getElem.mp (mem_returns.mpr ⟨e, hi, hout, rfl⟩)
          rcases Nat.lt_or_ge k mid with hlt | hge
          · rcases returns_sorted hlt (List.getElem?_eq_some_iff.mpr ⟨hk, hk'⟩) hget with hlt | ⟨heq, -⟩
            · exact UInt64.le_of_lt hlt
            · exact UInt64.le_of_eq heq
          · obtain rfl : k = mid := by omega
            rw [List.getElem?_eq_getElem hk, hk'] at hget
            cases hget
            exact UInt64.le_refl _
        obtain ⟨t', hfails⟩ := h.at_last hw hall
        cases hrun.symm.trans hfails.1
        exact absurd (hpass rfl) (by simp [hfails.2]))
      _ _ _ none (Nat.lt_succ_self _) (Nat.le_refl _) fun _ => ⟨rfl, hpos⟩
  obtain ⟨best', hbisect', hreported⟩ := bisect_isSome entries budget
  obtain rfl := Option.mem_unique hbisect hbisect'
  cases best with
  | none =>
    have := hbest rfl
    omega
  | some b =>
    obtain ⟨t, s', hmem, hfails, -⟩ := hreported b rfl
    exact ⟨b, hbisect, t, s', hmem, hfails⟩

theorem culprit_answered (key : String) (entries : List Entry) (budget : Nat) (hw : ∀ e ∈ entries, e.WellTimed) :
    (∀ s, Fails entries budget s → ∃ b, bisect entries budget (returns entries) ((returns entries).length + 1) 0
        (returns entries).length none = some (some b) ∧
      ∃ t s', (t, b.culprit) ∈ returns entries ∧ Fails (prefixAt entries t).2 budget s') ∧
    ∀ v, checkOneKey key entries budget = some (.notLinearizable v) →
      v.culprit ∈ entries ∧ v.culprit.outcome ≠ .unknown := by
  refine ⟨fun s hs => bisect_finds hs hw, fun v hv => ?_⟩
  obtain ⟨s, hs⟩ := fails_of_rejected hv
  obtain ⟨b, hb, t, -, hmem, -⟩ := bisect_finds hs hw
  obtain ⟨best, v', hbisect, hv', hsome, -⟩ := checkOneKey_report key hs
  cases hb.symm.trans hbisect
  cases hv.symm.trans hv'
  obtain ⟨hculprit, -⟩ := hsome b rfl
  obtain ⟨e, he, hout, -⟩ := mem_returns.mp hmem
  obtain rfl := Option.mem_unique he hculprit
  exact ⟨List.mem_of_getElem? he, by simpa [Entry.isUnknown] using hout⟩

def pendingWrite : List Entry :=
  [Recorder.entry 0 "k" (.write [97]) .ok 0 10 "", Recorder.entry 0 "k" .read (.value none) 20 30 "",
    Recorder.entry 1 "k" (.write [98]) .unknown 40 50 ""]

theorem culprit_answered_pendingWrite : ∃ v, checkOneKey "k" pendingWrite 2 = some (.notLinearizable v) ∧
    v.culprit.outcome ≠ .unknown := by
  have hw : ∀ e ∈ pendingWrite, e.WellTimed := by decide
  obtain ⟨v, hv⟩ : ∃ v, checkOneKey "k" pendingWrite 2 = some (.notLinearizable v) := ⟨_, rfl⟩
  exact ⟨v, hv, ((culprit_answered "k" pendingWrite 2 hw).2 v hv).2⟩

end BuildYourOwn.Lin
