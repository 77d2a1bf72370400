import BuildYourOwn.Lin.Search

/-!
# The search decides linearizability

What `Search::run` (`disttest/src/lin/mod.rs`) answers is so, for every history of one key and
every budget, unless the budget ran out. The three shortcuts of `recurse` are what has to be shown
harmless:

* the candidate rule, by `Object.linearizable_iff_candidate`: the branches it leaves out start with
  an operation that another has to precede;
* stopping when only unanswered operations are left, since they may all be left out;
* the memo. `DeadBelow` is its invariant: a remembered pair with fewer operations waiting than here
  has no linearization. The nodes still open above have more waiting, so they never match.

`Search.Tidy` ties the mutable state to the set of waiting operations, and `Explores.restores` says
that a failed branch puts it back. Both directions are inductions over `Explores`.

**`search_exact`**: the search returns; `true` means that a linearization exists, and `false` with
budget left that none does.
-/

namespace BuildYourOwn.Lin

open Lib

variable {entries : List Entry} {budget : Nat}

/-! ## The waiting entries -/

variable {flags : List Bool}

theorem getD_eq_true {i : Nat} : flags.getD i false = true ↔ flags[i]? = some true := by
  rw [List.getD_eq_getElem?_getD]
  cases flags[i]? with
  | none => simp
  | some b => simp

theorem set_of_getElem? {i : Nat} {b : Bool} (h : flags[i]? = some b) : flags.set i b = flags := by
  obtain ⟨hi, rfl⟩ := List.getElem?_eq_some_iff.mp h
  exact List.set_getElem_self hi

variable {remaining : List Bool}

theorem mem_waiting {e : Entry} :
    e ∈ waiting entries remaining ↔ ∃ i : Nat, entries[i]? = some e ∧ remaining[i]? = some true := by
  unfold waiting
  constructor
  · intro he
    obtain ⟨⟨e', b⟩, hp, rfl⟩ := List.mem_map.mp he
    obtain ⟨hp, hb⟩ := List.mem_filter.mp hp
    obtain rfl : b = true := hb
    obtain ⟨i, hi⟩ := List.mem_iff_getElem?.mp hp
    exact ⟨i, List.getElem?_zip_eq_some.mp hi⟩
  · rintro ⟨i, hi⟩
    have hp : (e, true) ∈ entries.zip remaining :=
      List.mem_iff_getElem?.mpr ⟨i, List.getElem?_zip_eq_some.mpr hi⟩
    exact List.mem_map.mpr ⟨(e, true), List.mem_filter.mpr ⟨hp, rfl⟩, rfl⟩

theorem mem_of_mem_waiting {e : Entry} (h : e ∈ waiting entries remaining) : e ∈ entries := by
  obtain ⟨i, hi, -⟩ := mem_waiting.mp h
  exact List.mem_of_getElem? hi

theorem waiting_replicate (entries : List Entry) : waiting entries (List.replicate entries.length true) = entries := by
  induction entries with
  | nil => rfl
  | cons e es ih => exact congrArg (e :: ·) ih

theorem waiting_perm {i : Nat} {e : Entry} (hi : entries[i]? = some e) (hleft : remaining[i]? = some true) :
    (waiting entries remaining).Perm (e :: waiting entries (remaining.set i false)) := by
  induction entries generalizing remaining i with
  | nil => cases hi
  | cons x xs ih =>
    cases remaining with
    | nil => cases hleft
    | cons r rs =>
      cases i with
      | zero =>
        obtain rfl : x = e := by simpa using hi
        obtain rfl : r = true := by simpa using hleft
        exact List.Perm.refl _
      | succ i =>
        have htail := ih (by simpa using hi) (by simpa using hleft)
        cases r with
        | true => exact (htail.cons x).trans (List.Perm.swap ..)
        | false => exact htail

theorem le_minRet_iff {t : UInt64} : t ≤ minRet entries remaining ↔ ∀ x ∈ waiting entries remaining, t ≤ x.retNs := by
  unfold minRet
  cases hmin : ((waiting entries remaining).map (·.retNs)).min? with
  | none =>
    have hnil : waiting entries remaining = [] := by simpa using hmin
    rw [hnil]
    exact iff_of_true (le_u64Max t) fun x hx => absurd hx List.not_mem_nil
  | some m =>
    obtain ⟨hm, hle⟩ := List.min?_eq_some_iff.mp hmin
    constructor
    · exact fun h x hx => UInt64.le_trans h (hle _ (List.mem_map_of_mem hx))
    · intro h
      obtain ⟨x, hx, rfl⟩ := List.mem_map.mp hm
      exact h x hx

/-! ## The mutable state in step -/

/-- The bitmap holds the operations that no longer wait. -/
def Encodes (mask : List UInt64) (remaining : List Bool) : Prop :=
  ∀ (i : Nat) (b : Bool), remaining[i]? = some b → testBit mask i = !b

theorem Encodes.unique {mask : List UInt64} {flags flags' : List Bool} (h : Encodes mask flags)
    (h' : Encodes mask flags') (hlen : flags.length = flags'.length) : flags = flags' := by
  refine List.ext_getElem hlen fun i hi hi' => ?_
  have hbit := h i _ (List.getElem?_eq_getElem hi)
  have hbit' := h' i _ (List.getElem?_eq_getElem hi')
  exact Bool.not_inj (hbit.symm.trans hbit')

theorem Encodes.setBit {mask : List UInt64} (h : Encodes mask flags) {i : Nat} (hi : i / 64 < mask.length) (b : Bool) :
    Encodes (setBit mask i b) (flags.set i (!b)) := by
  intro j b' hj
  rw [testBit_setBit hi]
  rw [List.getElem?_set] at hj
  by_cases hji : i = j
  · subst hji
    rw [if_pos rfl] at hj ⊢
    split at hj
    · obtain rfl : (!b) = b' := by simpa using hj
      exact (Bool.not_not b).symm
    · cases hj
  · rw [if_neg hji] at hj
    rw [if_neg (Ne.symm hji)]
    exact h j b' hj

/-- `remaining`, `mask` and `known_left` say the same. -/
structure Search.Tidy (entries : List Entry) (s : Search) : Prop where
  length : s.remaining.length = entries.length
  words : entries.length ≤ 64 * s.mask.length
  encodes : Encodes s.mask s.remaining
  known : s.knownLeft = ((waiting entries s.remaining).filter fun e => !e.isUnknown).length

variable {s s' : Search} {i : Nat} {e : Entry}

theorem Search.tidy_new : (Search.new entries).Tidy entries := by
  refine ⟨List.length_replicate, ?_, fun i b hi => ?_, ?_⟩
  · change entries.length ≤ 64 * (List.replicate (max ((entries.length + 63) / 64) 1) _).length
    rw [List.length_replicate]
    omega
  · have hb : b = true := (List.mem_replicate.mp (List.mem_of_getElem? hi)).2
    subst hb
    unfold testBit Search.new
    rw [List.getD_eq_getElem?_getD, List.getElem?_replicate]
    split <;> simp
  · exact (congrArg (fun es : List Entry => (es.filter fun e => !e.isUnknown).length)
      (waiting_replicate entries)).symm

theorem known_place (hi : entries[i]? = some e) (hleft : remaining[i]? = some true) :
    ((waiting entries remaining).filter fun e => !e.isUnknown).length =
      ((waiting entries (remaining.set i false)).filter fun e => !e.isUnknown).length +
        if e.isUnknown then 0 else 1 := by
  rw [((waiting_perm hi hleft).filter _).length_eq, List.filter_cons]
  cases he : e.isUnknown <;> simp

theorem Search.Tidy.word_lt (h : s.Tidy entries) (hi : entries[i]? = some e) : i / 64 < s.mask.length := by
  have hlt : i < entries.length := (List.getElem?_eq_some_iff.mp hi).1
  have := h.words
  omega

theorem Search.Tidy.place (h : s.Tidy entries) (hi : entries[i]? = some e)
    (hleft : s.remaining[i]? = some true) : (s.place i e).Tidy entries := by
  refine ⟨?_, ?_, h.encodes.setBit (h.word_lt hi) true, ?_⟩
  · rw [place_remaining, List.length_set]
    exact h.length
  · rw [place_mask, length_setBit]
    exact h.words
  · rw [place_knownLeft, place_remaining, h.known, known_place hi hleft]
    cases he : e.isUnknown <;> simp

variable {state : State}

theorem Search.Tidy.visit (h : s.Tidy entries) : ({ s with states := s.states + 1 }.visit state).Tidy entries := by
  refine ⟨?_, ?_, ?_, ?_⟩
  · rw [visit_remaining]
    exact h.length
  · rw [visit_mask]
    exact h.words
  · rw [visit_mask, visit_remaining]
    exact h.encodes
  · rw [visit_knownLeft, visit_remaining]
    exact h.known

theorem Search.Tidy.unplace (h : s.Tidy entries) (hi : entries[i]? = some e)
    (hleft : s.remaining[i]? = some false) : (s.unplace i e).Tidy entries := by
  have hlt : i < s.remaining.length := (List.getElem?_eq_some_iff.mp hleft).1
  have hback : (s.remaining.set i true).set i false = s.remaining := by
    rw [List.set_set]
    exact set_of_getElem? hleft
  refine ⟨?_, ?_, h.encodes.setBit (h.word_lt hi) false, ?_⟩
  · rw [unplace_remaining, List.length_set]
    exact h.length
  · rw [unplace_mask, length_setBit]
    exact h.words
  · rw [unplace_knownLeft, unplace_remaining, known_place hi (List.getElem?_set_self hlt), hback,
      h.known]
    cases he : e.isUnknown <;> simp

def Job.Fits (entries : List Entry) : Job → Prop
  | .node => True
  | .loop _ todo => ∀ p ∈ todo, entries[p.2]? = some p.1

variable {limit : UInt64}

theorem fits_zipIdx : (Job.loop limit entries.zipIdx).Fits entries :=
  fun _ hp => List.mem_zipIdx_iff_getElem?.mp hp

theorem Job.Fits.head {rest : List (Entry × Nat)}
    (h : (Job.loop limit ((e, i) :: rest)).Fits entries) : entries[i]? = some e :=
  h _ List.mem_cons_self

theorem Job.Fits.tail {p : Entry × Nat} {rest : List (Entry × Nat)}
    (h : (Job.loop limit (p :: rest)).Fits entries) : (Job.loop limit rest).Fits entries :=
  fun q hq => h q (List.mem_cons_of_mem _ hq)

theorem Search.Tidy.undo {s₁ : Search} (h₁ : s₁.Tidy entries) (hi : entries[i]? = some e)
    (hleft : s.remaining[i]? = some true) (hsame : s₁.remaining = (s.place i e).remaining) :
    (s₁.unplace i e).Tidy entries ∧ (s₁.unplace i e).remaining = s.remaining := by
  have hlt : i < s.remaining.length := (List.getElem?_eq_some_iff.mp hleft).1
  rw [place_remaining] at hsame
  refine ⟨h₁.unplace hi ?_, ?_⟩
  · rw [hsame]
    exact List.getElem?_set_self hlt
  · rw [unplace_remaining, hsame, List.set_set]
    exact set_of_getElem? hleft

variable {ok : Bool}

/-- **A branch that failed leaves what waits as it was.** -/
theorem Explores.restores {job : Job}
    (h : Explores entries budget job s state s' ok) (ht : s.Tidy entries) (hfit : job.Fits entries)
    (hok : ok = false) : s'.Tidy entries ∧ s'.remaining = s.remaining := by
  induction h with
  | settled => cases hok
  | starved => exact ⟨⟨ht.length, ht.words, ht.encodes, ht.known⟩, rfl⟩
  | seenBefore => exact ⟨⟨ht.length, ht.words, ht.encodes, ht.known⟩, rfl⟩
  | opened _ _ _ _ ih =>
    obtain ⟨ht', hsame⟩ := ih ht.visit fits_zipIdx hok
    exact ⟨ht', hsame.trans (Search.visit_remaining _ _)⟩
  | tried => exact ⟨ht, rfl⟩
  | skipped _ _ ih => exact ih ht hfit.tail hok
  | found => cases hok
  | gaveUp hleft _ _ _ _ ih =>
    obtain ⟨ht₁, hsame⟩ := ih (ht.place hfit.head (getD_eq_true.mp hleft)) trivial rfl
    exact ht₁.undo hfit.head (getD_eq_true.mp hleft) hsame
  | failed hleft _ _ _ _ _ ih ihrest =>
    obtain ⟨ht₁, hsame⟩ := ih (ht.place hfit.head (getD_eq_true.mp hleft)) trivial rfl
    obtain ⟨htu, hback⟩ := ht₁.undo hfit.head (getD_eq_true.mp hleft) hsame
    obtain ⟨ht', hsame'⟩ := ihrest htu hfit.tail hok
    exact ⟨ht', hsame'.trans hback⟩

/-! ## What is lost and what is found -/

def Job.Fails (entries : List Entry) (remaining : List Bool) (state : State) : Job → Prop
  | .node => ¬ register.Linearizable state (waiting entries remaining)
  | .loop limit todo => ∀ p ∈ todo, remaining[p.2]? = some true → p.1.callNs ≤ limit →
      ∀ next, step state p.1 = some next →
        ¬ register.Linearizable next (waiting entries (remaining.set p.2 false))

/-- The candidate rule of `recurse`, in both directions: with an answered operation left, a node has
a linearization iff one of the branches of its loop has. -/
theorem linearizable_iff_branch (hw : ∀ e ∈ entries, e.WellTimed) (ht : s.Tidy entries) (hknown : s.knownLeft ≠ 0) :
    register.Linearizable state (waiting entries s.remaining) ↔
      ¬ (Job.loop (minRet entries s.remaining) entries.zipIdx).Fails entries s.remaining state := by
  have hwt : register.WellTimed (waiting entries s.remaining) :=
    wellTimed_register fun e he => hw e (mem_of_mem_waiting he)
  rw [Object.linearizable_iff_candidate hwt]
  constructor
  · rintro (hopt | ⟨e, rest, next, hperm, hfirst, hstep, hlin⟩) hfails
    · refine hknown (ht.known.trans ?_)
      rw [List.filter_eq_nil_iff.mpr fun e he => ?_, List.length_nil]
      have hout : e.outcome = .unknown := hopt e he
      simp [Entry.isUnknown, hout]
    · have hmem : e ∈ waiting entries s.remaining := hperm.symm.subset List.mem_cons_self
      obtain ⟨i, hi, hleft⟩ := mem_waiting.mp hmem
      have hcall : e.callNs ≤ minRet entries s.remaining := by
        refine le_minRet_iff.mpr fun x hx => ?_
        rcases List.mem_cons.mp (hperm.subset hx) with rfl | hx
        · exact (hw _ (mem_of_mem_waiting hmem)).window
        · exact UInt64.le_iff_toNat_le.mpr (hfirst x hx)
      have hrest : rest.Perm (waiting entries (s.remaining.set i false)) :=
        List.Perm.cons_inv (hperm.symm.trans (waiting_perm hi hleft))
      exact hfails (e, i) (List.mem_zipIdx_iff_getElem?.mpr hi) hleft hcall next hstep
        (hlin.perm hrest)
  · intro hbranch
    obtain ⟨⟨e, i⟩, hi, hleft, hcall, next, hstep, hlin⟩ :
        ∃ p ∈ entries.zipIdx, s.remaining[p.2]? = some true ∧
          p.1.callNs ≤ minRet entries s.remaining ∧ ∃ next, step state p.1 = some next ∧
            register.Linearizable next (waiting entries (s.remaining.set p.2 false)) := by
      by_contra hnone
      refine hbranch fun p hp hleft hcall next hstep hlin => hnone ?_
      exact ⟨p, hp, hleft, hcall, next, hstep, hlin⟩
    have hperm := waiting_perm (List.mem_zipIdx_iff_getElem?.mp hi) hleft
    refine .inr ⟨e, _, next, hperm, fun x hx => ?_, hstep, hlin⟩
    exact UInt64.le_iff_toNat_le.mp
      (le_minRet_iff.mp hcall x (hperm.symm.subset (List.mem_cons_of_mem _ hx)))

def Job.Limited (entries : List Entry) (remaining : List Bool) : Job → Prop
  | .node => True
  | .loop limit _ => limit = minRet entries remaining

/-- **Nothing is invented.** -/
theorem Explores.sound {job : Job} (h : Explores entries budget job s state s' ok) (ht : s.Tidy entries)
    (hfit : job.Fits entries) (hlim : job.Limited entries s.remaining)
    (hok : ok = true) : register.Linearizable state (waiting entries s.remaining) := by
  induction h with
  | @settled s state hknown =>
    refine Object.linearizable_of_optional fun e he => ?_
    have hnone := List.length_eq_zero_iff.mp (ht.known.symm.trans hknown)
    have hout : e.outcome = .unknown := by
      simpa [Entry.isUnknown] using List.filter_eq_nil_iff.mp hnone e he
    exact hout
  | starved => cases hok
  | seenBefore => cases hok
  | @opened s s' state ok _ _ _ _ ih =>
    have hsame : ({ s with states := s.states + 1 }.visit state).remaining = s.remaining :=
      Search.visit_remaining _ _
    rw [← hsame]
    exact ih ht.visit fits_zipIdx (congrArg _ hsame.symm) hok
  | tried => cases hok
  | skipped _ _ ih => exact ih ht hfit.tail hlim hok
  | @found limit e i rest s s' state next hleft hcall hstep _ ih =>
    have hleft' := getD_eq_true.mp hleft
    have hperm := waiting_perm hfit.head hleft'
    have hlin := ih (ht.place hfit.head hleft') trivial trivial rfl
    obtain rfl : limit = minRet entries s.remaining := hlim
    refine (hlin.cons (fun x hx => ?_) hstep).perm hperm.symm
    exact UInt64.le_iff_toNat_le.mp
      (le_minRet_iff.mp hcall x (hperm.symm.subset (List.mem_cons_of_mem _ hx)))
  | gaveUp => cases hok
  | @failed limit e i rest s s₁ s' state next ok hleft _ _ h₁ _ _ _ ihrest =>
    have hleft' := getD_eq_true.mp hleft
    obtain ⟨ht₁, hsame⟩ := h₁.restores (ht.place hfit.head hleft') trivial rfl
    obtain ⟨htu, hback⟩ := ht₁.undo hfit.head hleft' hsame
    rw [← hback]
    exact ihrest htu hfit.tail (hlim.trans (congrArg _ hback.symm)) hok

/-- A remembered pair with no linearization. -/
def Dead (entries : List Entry) (x : List UInt64 × State) : Prop :=
  ∀ remaining, remaining.length = entries.length → Encodes x.1 remaining →
    ¬ register.Linearizable x.2 (waiting entries remaining)

/-- Every remembered pair with fewer than `n` operations waiting is dead. -/
def DeadBelow (entries : List Entry) (n : Nat) (seen : List (List UInt64 × State)) : Prop :=
  ∀ x ∈ seen, ∀ remaining, remaining.length = entries.length → Encodes x.1 remaining →
    (waiting entries remaining).length < n →
    ¬ register.Linearizable x.2 (waiting entries remaining)

theorem DeadBelow.mono {m n : Nat} {seen : List (List UInt64 × State)}
    (h : DeadBelow entries n seen) (hle : m ≤ n) : DeadBelow entries m seen :=
  fun x hx remaining hlen henc hlt => h x hx remaining hlen henc (Nat.lt_of_lt_of_le hlt hle)

theorem DeadBelow.grow {n : Nat} {seen seen' : List (List UInt64 × State)}
    (h : DeadBelow entries n seen) (hnew : ∀ x ∈ seen', x ∈ seen ∨ Dead entries x) : DeadBelow entries n seen' := by
  intro x hx remaining hlen henc hlt
  rcases hnew x hx with hold | hdead
  · exact h x hold remaining hlen henc hlt
  · exact hdead remaining hlen henc

theorem DeadBelow.visit (ht : s.Tidy entries)
    (h : DeadBelow entries ((waiting entries s.remaining).length + 1) s.seen) :
    DeadBelow entries (waiting entries s.remaining).length ((s.mask, state) :: s.seen) := by
  intro x hx remaining hlen henc hlt
  rcases List.mem_cons.mp hx with rfl | hx
  · have hsame := henc.unique ht.encodes (hlen.trans ht.length.symm)
    rw [hsame] at hlt
    exact absurd hlt (Nat.lt_irrefl _)
  · exact h x hx remaining hlen henc (Nat.lt_succ_of_lt hlt)

/-- How many operations may wait at a remembered pair that `job` relies on, and one more. -/
def Job.depth (n : Nat) : Job → Nat
  | .node => n + 1
  | .loop _ _ => n

/-- **Nothing is lost.** What a search with budget left remembers beyond what it knew is dead. -/
theorem Explores.complete {job : Job} (h : Explores entries budget job s state s' ok) (hw : ∀ e ∈ entries, e.WellTimed)
    (ht : s.Tidy entries) (hfit : job.Fits entries)
    (hdead : DeadBelow entries (job.depth (waiting entries s.remaining).length) s.seen)
    (hok : ok = false) (hexh : s'.exhaustedBudget = false) :
    (∀ x ∈ s'.seen, x ∈ s.seen ∨ Dead entries x) ∧ job.Fails entries s.remaining state := by
  induction h with
  | settled => cases hok
  | starved => cases hexh
  | @seenBefore s state _ _ hseen =>
    exact ⟨fun x hx => .inl hx,
      hdead _ hseen s.remaining ht.length ht.encodes (Nat.lt_succ_self _)⟩
  | @opened s s' state ok hknown _ _ _ ih =>
    have hsame : ({ s with states := s.states + 1 }.visit state).remaining = s.remaining :=
      Search.visit_remaining _ _
    have hseen : ({ s with states := s.states + 1 }.visit state).seen = (s.mask, state) :: s.seen :=
      Search.visit_seen _ _
    rw [hsame, hseen] at ih
    obtain ⟨hnew, hfails⟩ := ih ht.visit fits_zipIdx (hdead.visit ht) hok hexh
    have hnode : ¬ register.Linearizable state (waiting entries s.remaining) := fun hlin =>
      (linearizable_iff_branch hw ht hknown).mp hlin hfails
    refine ⟨fun x hx => ?_, hnode⟩
    rcases hnew x hx with hx | hx
    · rcases List.mem_cons.mp hx with rfl | hx
      · refine .inr fun remaining hlen henc => ?_
        rw [henc.unique ht.encodes (hlen.trans ht.length.symm)]
        exact hnode
      · exact .inl hx
    · exact .inr hx
  | tried => exact ⟨fun x hx => .inl hx, List.forall_mem_nil _⟩
  | skipped hskip _ ih =>
    obtain ⟨hnew, hfails⟩ := ih ht hfit.tail hdead hok hexh
    refine ⟨hnew, fun p hp hleft hcall next hstep => ?_⟩
    rcases List.mem_cons.mp hp with rfl | hp
    · rw [hskip (getD_eq_true.mpr hleft) hcall] at hstep
      cases hstep
    · exact hfails p hp hleft hcall next hstep
  | found => cases hok
  | gaveUp _ _ _ _ hexh₁ _ =>
    rw [Search.unplace_exhaustedBudget, hexh₁] at hexh
    cases hexh
  | @failed limit e i rest s s₁ s' state next ok hleft _ hstep h₁ hexh₁ _ ih ihrest =>
    have hleft' := getD_eq_true.mp hleft
    obtain ⟨ht₁, hsame⟩ := h₁.restores (ht.place hfit.head hleft') trivial rfl
    obtain ⟨htu, hback⟩ := ht₁.undo hfit.head hleft' hsame
    -- the branch has one operation less to place
    have hlen : (waiting entries s.remaining).length =
        (waiting entries (s.remaining.set i false)).length + 1 :=
      (waiting_perm hfit.head hleft').length_eq
    obtain ⟨hnew₁, hfails₁⟩ := ih (ht.place hfit.head hleft') trivial
      (hdead.mono (Nat.le_of_eq hlen.symm)) rfl hexh₁
    rw [hback] at ihrest
    obtain ⟨hnew, hfails⟩ := ihrest htu hfit.tail (hdead.grow hnew₁) hok hexh
    refine ⟨fun x hx => ?_, fun p hp hleftp hcall next' hstep' => ?_⟩
    · rcases hnew x hx with hx | hx
      · exact hnew₁ x hx
      · exact .inr hx
    · rcases List.mem_cons.mp hp with rfl | hp
      · obtain rfl : next = next' := Option.mem_unique hstep hstep'
        exact hfails₁
      · exact hfails p hp hleftp hcall next' hstep'

/-! ## The search returns -/

theorem tryEach_isSome {rec : Search → State → Option (Search × Bool)} {fuel : Nat}
    (hrec : ∀ (s : Search) (state : State), s.Tidy entries →
      (waiting entries s.remaining).length < fuel → ∃ r, rec s state = some r)
    (hexp : ∀ s state s' ok, rec s state = some (s', ok) →
      Explores entries budget .node s state s' ok) {todo : List (Entry × Nat)}
    (hfit : (Job.loop limit todo).Fits entries) (ht : s.Tidy entries)
    (hfuel : (waiting entries s.remaining).length ≤ fuel) : ∃ r, tryEach rec state limit todo s = some r := by
  induction todo generalizing s with
  | nil => exact ⟨_, rfl⟩
  | cons p rest ih =>
    obtain ⟨e, i⟩ := p
    unfold tryEach
    split
    · exact ih hfit.tail ht hfuel
    rename_i hleft
    have hleft' : s.remaining[i]? = some true := getD_eq_true.mp (by simpa using hleft)
    split
    · exact ih hfit.tail ht hfuel
    split
    · exact ih hfit.tail ht hfuel
    rename_i next _
    have hplace := ht.place hfit.head hleft'
    obtain ⟨⟨s₁, ok⟩, hnode⟩ := hrec (s.place i e) next hplace (by
      have hlen := (waiting_perm hfit.head hleft').length_eq
      rw [List.length_cons] at hlen
      rw [Search.place_remaining]
      omega)
    rw [hnode, Option.bind_eq_bind, Option.bind_some]
    dsimp only
    cases ok with
    | true => exact ⟨_, rfl⟩
    | false =>
      obtain ⟨ht₁, hsame⟩ := (hexp _ _ _ _ hnode).restores hplace trivial rfl
      obtain ⟨htu, hback⟩ := ht₁.undo hfit.head hleft' hsame
      rw [if_neg Bool.false_ne_true]
      split
      · exact ⟨_, rfl⟩
      · exact ih hfit.tail htu (hback ▸ hfuel)

/-- **The depth is bounded by the operations that wait.** -/
theorem recurse_isSome {fuel : Nat} (ht : s.Tidy entries) (hfuel : (waiting entries s.remaining).length < fuel) :
    ∃ r, recurse entries budget fuel s state = some r := by
  induction fuel generalizing s state with
  | zero => exact absurd hfuel (Nat.not_lt_zero _)
  | succ fuel ih =>
    unfold recurse
    split
    · exact ⟨_, rfl⟩
    split
    · exact ⟨_, rfl⟩
    dsimp only
    split
    · exact ⟨_, rfl⟩
    · refine tryEach_isSome (fun s state ht hlt => ih ht hlt)
        (fun _ _ _ _ hnode => explores_of_recurse hnode) fits_zipIdx ht.visit ?_
      rw [Search.visit_remaining]
      exact Nat.le_of_lt_succ hfuel

theorem run_isSome (entries : List Entry) (budget : Nat) : ∃ s ok, run entries budget = some (s, ok) := by
  unfold run
  split
  · exact ⟨_, _, rfl⟩
  · have hlen : (waiting entries (Search.new entries).remaining).length < entries.length + 1 :=
      Nat.lt_succ_of_le (Nat.le_of_eq (congrArg List.length (waiting_replicate entries)))
    obtain ⟨⟨s, ok⟩, h⟩ :
        ∃ r, recurse entries budget (entries.length + 1) (Search.new entries) none = some r :=
      recurse_isSome Search.tidy_new hlen
    exact ⟨s, ok, h⟩

theorem explores_of_run (h : run entries budget = some (s, ok)) (hne : entries ≠ []) :
    Explores entries budget .node (Search.new entries) none s ok := by
  unfold run at h
  rw [if_neg hne] at h
  exact explores_of_recurse h

/-! ## The answer -/

theorem run_sound (h : run entries budget = some (s, true)) : register.Linearizable none entries := by
  by_cases hne : entries = []
  · subst hne
    exact Object.linearizable_of_optional fun e he => absurd he List.not_mem_nil
  · have hlin := (explores_of_run h hne).sound Search.tidy_new trivial trivial rfl
    exact waiting_replicate entries ▸ hlin

theorem run_complete (hw : ∀ e ∈ entries, e.WellTimed) (h : run entries budget = some (s, false))
    (hexh : s.exhaustedBudget = false) : ¬ register.Linearizable none entries := by
  have hne : entries ≠ [] := fun hnil => by simp [run, hnil] at h
  have hdead : DeadBelow entries
      (Job.node.depth (waiting entries (Search.new entries).remaining).length)
      (Search.new entries).seen := List.forall_mem_nil _
  obtain ⟨-, hfails⟩ := (explores_of_run h hne).complete hw Search.tidy_new trivial hdead rfl hexh
  intro hlin
  exact hfails ((waiting_replicate entries).symm ▸ hlin)

/-- **The search decides linearizability, or runs out of budget.** -/
theorem search_exact (entries : List Entry) (budget : Nat) (hw : ∀ e ∈ entries, e.WellTimed) :
    ∃ s ok, run entries budget = some (s, ok) ∧
      (ok = true → register.Linearizable none entries) ∧
      (ok = false → s.exhaustedBudget = false → ¬ register.Linearizable none entries) := by
  obtain ⟨s, ok, hrun⟩ := run_isSome entries budget
  refine ⟨s, ok, hrun, ?_, ?_⟩
  · rintro rfl
    exact run_sound hrun
  · rintro rfl hexh
    exact run_complete hw hrun hexh

def staleRead : List Entry :=
  [Recorder.entry 0 "k" (.write [97]) .ok 0 10 "", Recorder.entry 1 "k" .read (.value none) 20 30 ""]

theorem search_exact_staleRead :
    (run staleRead 400000).map (fun r => (r.2, r.1.exhaustedBudget)) = some (false, false) ∧
      ¬ register.Linearizable none staleRead := by
  have hanswer : (run staleRead 400000).map (fun r => (r.2, r.1.exhaustedBudget)) =
      some (false, false) := rfl
  refine ⟨hanswer, ?_⟩
  obtain ⟨s, ok, hrun, -, hno⟩ := search_exact staleRead 400000 (by decide)
  rw [hrun] at hanswer
  obtain ⟨rfl, hexh⟩ : ok = false ∧ s.exhaustedBudget = false := by simpa using hanswer
  exact hno rfl hexh

end BuildYourOwn.Lin
