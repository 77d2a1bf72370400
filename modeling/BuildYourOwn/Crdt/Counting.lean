import BuildYourOwn.Crdt.Counter
import BuildYourOwn.Lib.Folds

/-!
# What the counters count

The entry for a replica name is the sum of the absorbed updates that carry the name, as one process makes them all:
of two replicas one has absorbed all that the other has, and the maximum is the larger sum.

* `merge_max` on the entries of a replica: `get_joinMax`.
* What the commands do: `counter_replicated`.
* **`counter_joins`**: the value is the sum of the absorbed increments less the absorbed decrements, and merging is
  commutative, associative and idempotent.
-/

namespace BuildYourOwn.Crdt

open Lib Topic

/-! ## Merging counts -/

/-- Counts are not negative and fit in an `i64`. -/
def Counts (m : StringMap Int) : Prop := ∀ (a : String) c, m[a]? = some c → 0 ≤ c ∧ inI64 c = true

/-- The map after `merge_max` of another. -/
def joinMax (a b : StringMap Int) : StringMap Int :=
  b.toList.foldl (fun dst e => dst.insert e.1 (max (dst.getD e.1 0) e.2)) a

def joinCount (held : Option Int) : Option Int → Option Int
  | some c => some (max (held.getD 0) c)
  | none => held

variable {a b c : StringMap Int} {name : String}

theorem get_joinMax (a b : StringMap Int) (name : String) : (joinMax a b)[name]? = joinCount a[name]? b[name]? := by
  unfold joinMax
  rw [StringMap.get_foldl_toList (h := fun held c => max (held.getD 0) c)]
  · cases b[name]? <;> rfl
  · intro m e a
    rw [StringMap.get_insert]
    split_ifs with h
    · rw [h, Std.ExtTreeMap.getD_eq_getD_getElem?]
    · rfl

theorem Counts.empty : Counts ∅ := nofun

theorem Counts.getD_nonneg (h : Counts a) (name : String) : 0 ≤ a.getD name 0 := by
  rw [Std.ExtTreeMap.getD_eq_getD_getElem?]
  cases hname : a[name]? with
  | none => exact Int.le_refl 0
  | some c => exact (h name c hname).1

theorem Counts.insert (h : Counts a) {n : Int} (hn : 0 ≤ n) (hrange : inI64 n = true) : Counts (a.insert name n) := by
  intro name' c hc
  rw [StringMap.get_insert] at hc
  split_ifs at hc
  · cases hc
    exact ⟨hn, hrange⟩
  · exact h name' c hc

theorem joinMax_getD (ha : Counts a) (name : String) :
    (joinMax a b).getD name 0 = max (a.getD name 0) (b.getD name 0) := by
  have hnonneg := ha.getD_nonneg name
  simp only [Std.ExtTreeMap.getD_eq_getD_getElem?, get_joinMax] at *
  cases b[name]? with
  | none => exact (max_eq_left hnonneg).symm
  | some c => rfl

theorem Counts.join (ha : Counts a) (hb : Counts b) : Counts (joinMax a b) := by
  intro name c hc
  rw [get_joinMax] at hc
  cases hy : b[name]? with
  | none => rw [hy] at hc; exact ha name c hc
  | some y =>
    rw [hy] at hc
    cases hc
    obtain ⟨hy₀, hyr⟩ := hb name y hy
    cases hx : a[name]? with
    | none => exact ⟨le_max_left _ _, by rw [Option.getD_none, max_eq_right hy₀]; exact hyr⟩
    | some x =>
      obtain ⟨hx₀, hxr⟩ := ha name x hx
      refine ⟨hx₀.trans (le_max_left _ _), ?_⟩
      rcases max_choice x y with h | h <;> rw [Option.getD_some, h]
      · exact hxr
      · exact hyr

theorem joinMax_comm (ha : Counts a) (hb : Counts b) : joinMax a b = joinMax b a := by
  refine Std.ExtTreeMap.ext_getElem? fun name => ?_
  rw [get_joinMax, get_joinMax]
  cases hx : a[name]? with
  | none =>
    cases hy : b[name]? with
    | none => rfl
    | some y => exact congrArg some (max_eq_right (hb name y hy).1)
  | some x =>
    cases hy : b[name]? with
    | none => exact congrArg some (max_eq_right (ha name x hx).1).symm
    | some y => exact congrArg some (max_comm x y)

theorem joinMax_assoc {d : StringMap Int} (hd : Counts d) : joinMax (joinMax a b) d = joinMax a (joinMax b d) := by
  refine Std.ExtTreeMap.ext_getElem? fun name => ?_
  rw [get_joinMax, get_joinMax, get_joinMax, get_joinMax]
  cases hz : d[name]? with
  | none => cases b[name]? <;> rfl
  | some z =>
    cases b[name]? with
    | none =>
      have hmax : max 0 z = z := max_eq_right (hd name z hz).1
      exact congrArg some (congrArg (max _) hmax.symm)
    | some y => exact congrArg some (max_assoc _ y z)

theorem joinMax_self (a : StringMap Int) : joinMax a a = a := by
  refine Std.ExtTreeMap.ext_getElem? fun name => ?_
  rw [get_joinMax]
  cases a[name]? with
  | none => rfl
  | some x => exact congrArg some (max_self x)

variable [Host]

/-- **`merge_max` of a state** meets no error. -/
theorem mergeMax_counts (hb : Counts b) (a : StringMap Int) :
    mergeMax a (some (countsToJson b)) = (joinMax a b, none) := by
  have hall : ∀ e ∈ b.toList, inI64 e.2 = true := fun e he => (hb e.1 e.2 (StringMap.mem_toList.mp he)).2
  unfold mergeMax countsToJson joinMax
  dsimp only
  generalize b.toList = l at hall
  induction l generalizing a with
  | nil => rfl
  | cons e l ih =>
    have hread : asI64 (.num e.2) = some e.2 := if_pos (hall e List.mem_cons_self)
    rw [List.map_cons, mergeEntries, hread]
    exact ih _ fun e' he' => hall e' (List.mem_cons_of_mem e he')

namespace Counter

/-! ## Commands -/

structure Count where
  up : Bool
  replica : String
  amount : Int

def half (s : Counter) (up : Bool) : StringMap Int := if up then s.p else s.n

/-- The update of the arguments of `inc` or `dec`. -/
def countBy (up : Bool) (args : List String) : Option Count :=
  match word args 0, int args 1 with
  | .ok replica, .ok amount => if amount < 0 then none else some ⟨up, replica, amount⟩
  | _, _ => none

def update (s : Counter) (l : Line) : Option Count :=
  match l.command with
  | "inc" => countBy true l.args
  | "dec" => if s.signed then countBy false l.args else none
  | _ => none

structure Makes (s : Counter) (u : Count) (s' : Counter) : Prop where
  signed : s'.signed = s.signed
  kind : u.up = false → s.signed = true
  amount : 0 ≤ u.amount
  half : ∃ count, addI64 ((s.half u.up).getD u.replica 0) u.amount = some count ∧
    s'.half u.up = (s.half u.up).insert u.replica count ∧ s'.half (!u.up) = s.half (!u.up)
  value : s'.value ≠ none

def Takes (s : Counter) (incoming : Value) (s' : Counter) : Prop :=
  s' = (s.absorb incoming).1 ∧ ((s.absorb incoming).2 = none → s'.value ≠ none)

variable {s s' t : Counter} {up : Bool} {args : List String} {o : Value}

omit [Host] in
theorem eq_of_answer (h : s.answer = some (s', o)) : s' = s ∧ s.value ≠ none := by
  obtain ⟨value, hvalue, heq⟩ := Option.map_eq_some_iff.mp h
  exact ⟨(Prod.mk.inj heq).1.symm, by rw [hvalue]; exact Option.some_ne_none _⟩

omit [Host] in
theorem makes_of_add {replica : String} {amount : Int} (hkind : up = false → s.signed = true)
    (hamount : ¬ amount < 0) (h : s.add up replica amount = some (s', o)) : Makes s ⟨up, replica, amount⟩ s' := by
  unfold add at h
  rw [if_neg hamount] at h
  cases up with
  | true =>
    obtain ⟨count, hcount, h⟩ := Option.bind_eq_some_iff.mp h
    obtain ⟨rfl, hvalue⟩ := eq_of_answer h
    exact ⟨rfl, hkind, Int.not_lt.mp hamount, ⟨count, hcount, rfl, rfl⟩, hvalue⟩
  | false =>
    obtain ⟨count, hcount, h⟩ := Option.bind_eq_some_iff.mp h
    obtain ⟨rfl, hvalue⟩ := eq_of_answer h
    exact ⟨rfl, hkind, Int.not_lt.mp hamount, ⟨count, hcount, rfl, rfl⟩, hvalue⟩

omit [Host] in
/-- An `inc` or a `dec` is an update, or it changes nothing. -/
theorem add_cases (hkind : up = false → s.signed = true) (h : (arg s (word args 0) fun replica => arg s (int args 1) fun amount =>
    s.add up replica amount) = some (s', o)) :
    (countBy up args = none ∧ s' = s) ∨ ∃ u, countBy up args = some u ∧ Makes s u s' := by
  rcases arg_eq_some.mp h with ⟨hword, rfl⟩ | ⟨replica, hword, h⟩
  · exact .inl ⟨by rw [countBy, hword], rfl⟩
  rcases arg_eq_some.mp h with ⟨hint, rfl⟩ | ⟨amount, hint, h⟩
  · exact .inl ⟨by rw [countBy, hword, hint], rfl⟩
  by_cases hamount : amount < 0
  · rw [add, if_pos hamount] at h
    refine .inl ⟨?_, (state_eq h)⟩
    rw [countBy, hword, hint]
    exact if_pos hamount
  · refine .inr ⟨_, ?_, makes_of_add hkind hamount h⟩
    rw [countBy, hword, hint]
    exact if_neg hamount

theorem counter_replicated : Replicated step state update Makes Takes := by
  refine ⟨fun _ _ => rfl, fun s l s' o h => ?_⟩
  obtain ⟨command, args⟩ := l
  have hquiet : update s ⟨command, args⟩ = none → mergedIn ⟨command, args⟩ = none → s' = s →
      Case update Makes Takes s ⟨command, args⟩ s' := fun hu hv hs' => .inr (.inr ⟨hu, hv, hs'⟩)
  unfold onLine step at h
  dsimp only at h
  split at h
  · rcases add_cases (fun hup => absurd hup (by decide)) h with ⟨hnone, hs'⟩ | hsome
    · exact hquiet hnone rfl hs'
    · exact .inl hsome
  · split_ifs at h with hsigned
    · have hupdate : update s ⟨"dec", args⟩ = countBy false args := if_pos hsigned
      rcases add_cases (fun _ => hsigned) h with ⟨hnone, hs'⟩ | hsome
      · exact hquiet (hupdate.trans hnone) rfl hs'
      · exact .inl (hupdate ▸ hsome)
    · exact hquiet (if_neg hsigned) rfl (state_eq h)
  · rcases arg_eq_some.mp h with ⟨-, rfl⟩ | ⟨_, -, h⟩
    · exact hquiet rfl rfl rfl
    · exact hquiet rfl rfl (eq_of_answer h).1
  · rcases arg_eq_some.mp h with ⟨-, rfl⟩ | ⟨_, -, h⟩
    · exact hquiet rfl rfl rfl
    · exact hquiet rfl rfl (state_eq h)
  · rcases merge_cases h with ⟨hmerged, hs'⟩ | ⟨incoming, hmerged, h⟩
    · exact hquiet rfl hmerged hs'
    refine .inr (.inl ⟨rfl, incoming, hmerged, ?_⟩)
    unfold merge at h
    split at h
    · rename_i heq
      cases h
      exact ⟨by rw [heq], fun hnone => nomatch heq ▸ hnone⟩
    · rename_i heq
      obtain ⟨rfl, hvalue⟩ := eq_of_answer h
      exact ⟨by rw [heq], fun _ => hvalue⟩
  · rename_i hinc hdec _ _ hmerge
    refine hquiet ?_ ?_ (state_eq h)
    · unfold update
      dsimp only
      split
      · exact absurd rfl hinc
      · exact absurd rfl hdec
      · rfl
    · unfold mergedIn
      dsimp only
      split
      · exact absurd rfl hmerge
      · rfl

/-! ## States of a run -/

structure Valid (signed : Bool) (s : Counter) : Prop where
  kind : s.signed = signed
  up : Counts s.p
  down : Counts s.n
  grow : signed = false → s.n = ∅

variable {signed : Bool}

theorem absorb_state (hs : Valid signed s) (ht : Valid signed t) :
    s.absorb t.state = ({ s with p := joinMax s.p t.p, n := joinMax s.n t.n }, none) := by
  unfold absorb state
  cases hsigned : t.signed with
  | true =>
    have hp : (Value.obj [("n", countsToJson t.n), ("p", countsToJson t.p)]).get "p" =
        some (countsToJson t.p) := rfl
    have hn : (Value.obj [("n", countsToJson t.n), ("p", countsToJson t.p)]).get "n" =
        some (countsToJson t.n) := rfl
    rw [if_pos rfl, hp, hn, mergeMax_counts ht.up, mergeMax_counts ht.down]
  | false =>
    have hp : (Value.obj [("p", countsToJson t.p)]).get "p" = some (countsToJson t.p) := rfl
    have hn : (Value.obj [("p", countsToJson t.p)]).get "n" = none := rfl
    have hempty := hs.grow (ht.kind.symm.trans hsigned)
    have hempty' := ht.grow (ht.kind.symm.trans hsigned)
    rw [if_neg Bool.false_ne_true, hp, hn, mergeMax_counts ht.up, hempty, hempty', joinMax_self]
    rfl

omit [Host] in
theorem Valid.join (hs : Valid signed s) (ht : Valid signed t) :
    Valid signed { s with p := joinMax s.p t.p, n := joinMax s.n t.n } := by
  refine ⟨hs.kind, hs.up.join ht.up, hs.down.join ht.down, fun hsigned => ?_⟩
  show joinMax s.n t.n = ∅
  rw [hs.grow hsigned, ht.grow hsigned, joinMax_self]

omit [Host] in
theorem addI64_counts {a b c : Int} (ha : 0 ≤ a) (hb : 0 ≤ b) (h : addI64 a b = some c) : 0 ≤ c ∧ inI64 c = true := by
  obtain ⟨hrange, rfl⟩ := addI64_eq_some.mp h
  exact ⟨by omega, hrange⟩

omit [Host] in
theorem Valid.makes {u : Count} (hs : Valid signed s) (h : Makes s u s') : Valid signed s' := by
  obtain ⟨hsigned, hkind, hamount, ⟨count, hcount, hhalf, hother⟩, -⟩ := h
  cases hup : u.up with
  | true =>
    rw [hup] at hcount hhalf hother
    have hnew := addI64_counts (hs.up.getD_nonneg u.replica) hamount hcount
    refine ⟨hsigned.trans hs.kind, ?_, ?_, fun hgrow => ?_⟩
    · rw [show s'.p = _ from hhalf]
      exact hs.up.insert hnew.1 hnew.2
    · rw [show s'.n = _ from hother]
      exact hs.down
    · rw [show s'.n = _ from hother]
      exact hs.grow hgrow
  | false =>
    rw [hup] at hcount hhalf hother
    have hnew := addI64_counts (hs.down.getD_nonneg u.replica) hamount hcount
    refine ⟨hsigned.trans hs.kind, ?_, ?_, fun hgrow => ?_⟩
    · rw [show s'.p = _ from hother]
      exact hs.up
    · rw [show s'.n = _ from hhalf]
      exact hs.down.insert hnew.1 hnew.2
    · exact absurd (hs.kind.symm.trans (hkind hup)) (by simp [hgrow])

/-! ## The sums -/

omit [Host] in
theorem sumI64_eq {l : List Int} {v : Int} (h : sumI64 l = some v) : v = l.sum := by
  have hfrom : v = 0 + l.sum := foldlM_eq_add_sum (fun _ _ _ hb => (addI64_eq_some.mp hb).2) h
  rw [hfrom, Int.zero_add]

omit [Host] in
theorem value_eq {v : Int} (h : s.value = some v) : v = s.p.vals.sum - s.n.vals.sum := by
  obtain ⟨up, hup, h⟩ := Option.bind_eq_some_iff.mp h
  obtain ⟨down, hdown, h⟩ := Option.bind_eq_some_iff.mp h
  unfold subI64 at h
  split_ifs at h
  cases h
  rw [sumI64_eq hup, sumI64_eq hdown]

omit [Host] in
theorem value_new (signed : Bool) : (new signed).value = some 0 := by
  have hvals : StringMap.vals (∅ : StringMap Int) = [] := by simp [StringMap.vals]
  rw [value, new, hvals]
  rfl

theorem merge_state (hs : Valid signed s) (ht : Valid signed t) :
    s.merge t.state = answer { s with p := joinMax s.p t.p, n := joinMax s.n t.n } := by
  rw [merge, absorb_state hs ht]

section Run

variable {P : Type} [DecidableEq P] {es : History P Counter} {sys : P → Counter} {origin : Nat → Nat}
  {signed : Bool} {name : P → String} {n m k : Nat} {p q r : P}

/-- The replica name of an update. -/
def keyOf (es : History P Counter) (i : Nat) : String :=
  match updateOf update es i with
  | some c => c.replica
  | none => ""

/-- How much an update adds to a half. -/
def weight (es : History P Counter) (up : Bool) (i : Nat) : Int :=
  match updateOf update es i with
  | some c => if c.up = up then c.amount else 0
  | none => 0

/-- How much an update adds to the value. -/
def amountOf (es : History P Counter) (i : Nat) : Int :=
  match updateOf update es i with
  | some c => if c.up then c.amount else -c.amount
  | none => 0

omit [Host] in
theorem amount_nonneg {u : Count} {l : Line} (h : update s l = some u) : 0 ≤ u.amount := by
  have hcount : ∀ up, countBy up l.args = some u → 0 ≤ u.amount := by
    intro up hcount
    unfold countBy at hcount
    split at hcount
    · split_ifs at hcount with hneg
      cases hcount
      exact Int.not_lt.mp hneg
    · cases hcount
  unfold update at h
  split at h
  · exact hcount true h
  · split_ifs at h
    exact hcount false h
  · cases h

omit [Host] [DecidableEq P] in
theorem weight_nonneg (es : History P Counter) (up : Bool) (i : Nat) : 0 ≤ weight es up i := by
  unfold weight
  split
  · rename_i u hu
    obtain ⟨e, -, hu⟩ := Option.bind_eq_some_iff.mp hu
    have hnonneg := amount_nonneg hu
    split_ifs <;> omega
  · exact Int.le_refl 0

omit [DecidableEq P] in
theorem oneMaker (hown : OwnNames update (fun u => some u.replica) name es) :
    OneMaker (actAt update origin es) (keyOf es) := by
  have hname : ∀ i r, actAt update origin es i = some (.update r) → keyOf es i = name r := by
    intro i r hact
    obtain ⟨e, u, he, rfl, hu⟩ := of_act_update hact
    rw [keyOf, updateOf, he, Option.bind_some, hu]
    exact hown.2 i e u u.replica he hu rfl
  intro i j r r' hi hj hkey
  rw [hname i r hi, hname j r' hj] at hkey
  exact hown.1 hkey

structure Counted (es : History P Counter) (signed : Bool) (A : Finset Nat) (s : Counter) : Prop where
  valid : Valid signed s
  value : s.value ≠ none
  entry : ∀ up name, (s.half up).getD name 0 = keySum (keyOf es) (weight es up) A name

theorem counted (hrun : Run (each (onLine step)) (fun _ => new signed) es sys)
    (hgenuine : Genuine origin es) (hown : OwnNames update (fun u => some u.replica) name es) (n : Nat)
    (p : P) : Counted es signed (absorbed (actAt update origin es) n p) (replica (new signed) es n p) := by
  have hmaker : OneMaker (actAt update origin es) (keyOf es) := oneMaker hown
  have hearlier : Earlier (actAt update origin es) := hgenuine.acts_earlier
  refine counter_replicated.rule hrun hgenuine ?_ ?_ ?_ n p
  · refine ⟨⟨rfl, Counts.empty, Counts.empty, fun _ => rfl⟩, by rw [value_new]; exact Option.some_ne_none 0,
      fun up name => ?_⟩
    have hhalf : (new signed).half up = ∅ := by cases up <;> rfl
    rw [hhalf, Std.ExtTreeMap.getD_empty]
    rfl
  · intro n p u hact hu hmakes ih
    refine ⟨ih.valid.makes hmakes, hmakes.value, fun up name => ?_⟩
    obtain ⟨count, hcount, hhalf, hother⟩ := hmakes.half
    have hkey : keyOf es n = u.replica := by rw [keyOf, hu]
    have hweight : weight es up n = if u.up = up then u.amount else 0 := by rw [weight, hu]
    rw [keySum_insert (notMem_absorbed hearlier (Nat.le_refl n)), ← ih.entry, hkey, hweight]
    by_cases hup : u.up = up
    · subst hup
      rw [hhalf, StringMap.getD_insert, if_pos rfl]
      split_ifs with hname
      · rw [(addI64_eq_some.mp hcount).2, hname]
      · rw [Int.add_zero]
    · obtain rfl : up = !u.up := by cases up <;> cases hu' : u.up <;> simp_all
      rw [hother, if_neg hup, ite_self, Int.add_zero]
  · intro n m p q s' htakes ih ih'
    rw [Takes, absorb_state ih.valid ih'.valid] at htakes
    obtain ⟨rfl, hvalue⟩ := htakes
    refine ⟨ih.valid.join ih'.valid, hvalue rfl, fun up name => ?_⟩
    rw [keySum_union (weight_nonneg es up) hearlier hmaker, ← ih.entry, ← ih'.entry]
    cases up with
    | true => exact joinMax_getD ih.valid.up name
    | false => exact joinMax_getD ih.valid.down name

omit [Host] [DecidableEq P] in
theorem Counted.sum_half {A : Finset Nat} (h : Counted es signed A s) (up : Bool) :
    (s.half up).vals.sum = ∑ i ∈ A, weight es up i := by
  have hsum := sum_values (s.half up) ((s.half up).keys.toFinset ∪ A.image (keyOf es)) fun a ha =>
    Finset.mem_union_left _ (List.mem_toFinset.mpr (Std.ExtTreeMap.mem_keys.mpr ha))
  unfold StringMap.vals
  rw [hsum, Finset.sum_congr rfl fun a _ => h.entry up a]
  exact sum_keySum fun i hi => Finset.mem_union_right _ (Finset.mem_image_of_mem _ hi)

omit [Host] [DecidableEq P] in
/-- **The value is the sum of what was absorbed.** -/
theorem Counted.value_eq {A : Finset Nat} (h : Counted es signed A s) : s.value = some (∑ i ∈ A, amountOf es i) := by
  obtain ⟨v, hv⟩ := Option.ne_none_iff_exists'.mp h.value
  have hup := h.sum_half true
  have hdown := h.sum_half false
  rw [hv, Counter.value_eq hv, show s.p.vals.sum = _ from hup, show s.n.vals.sum = _ from hdown,
    ← Finset.sum_sub_distrib]
  refine congrArg some (Finset.sum_congr rfl fun i _ => ?_)
  unfold weight amountOf
  split
  · rename_i c _
    cases c.up <;> simp
  · rfl

/-- **Counters are joins**: the value is the sum of the absorbed increments less the absorbed decrements, and merging
is commutative, associative and idempotent. -/
structure Joins (origin : Nat → Nat) (es : History P Counter) (signed : Bool) : Prop where
  same : ∀ n m p q, absorbed (actAt update origin es) n p = absorbed (actAt update origin es) m q →
    (replica (new signed) es n p).value = (replica (new signed) es m q).value
  laws : MergeLaws merge state (new signed) es
  value : ∀ n p, (replica (new signed) es n p).value =
    some (∑ i ∈ absorbed (actAt update origin es) n p, amountOf es i)

theorem joins (hrun : Run (each (onLine step)) (fun _ => new signed) es sys)
    (hgenuine : Genuine origin es) (hown : OwnNames update (fun u => some u.replica) name es) :
    Joins origin es signed := by
  have hcounted := counted hrun hgenuine hown
  refine ⟨fun n m p q hsame => ?_, ⟨?_, ?_, ?_⟩, fun n p => (hcounted n p).value_eq⟩
  · rw [(hcounted n p).value_eq, (hcounted m q).value_eq, hsame]
  · intro n m p q
    have hs := (hcounted n p).valid
    have ht := (hcounted m q).valid
    rw [merge_state hs ht, merge_state ht hs, joinMax_comm hs.up ht.up, joinMax_comm hs.down ht.down,
      hs.kind, ht.kind]
  · intro n m k p q r st v tu w hst htu
    have hs := (hcounted n p).valid
    have ht := (hcounted m q).valid
    have hu := (hcounted k r).valid
    rw [merge_state hs ht] at hst
    rw [merge_state ht hu] at htu
    rw [(eq_of_answer hst).1, (eq_of_answer htu).1, merge_state (hs.join ht) hu,
      merge_state hs (ht.join hu), joinMax_assoc hu.up, joinMax_assoc hu.down]
  · intro n p
    rw [merge_state (hcounted n p).valid (hcounted n p).valid, joinMax_self, joinMax_self, answer,
      (hcounted n p).value_eq]
    exact ⟨_, _, rfl, rfl⟩

end Run

end Counter

end BuildYourOwn.Crdt
