import BuildYourOwn.Crdt.Sequence

/-!
# The replicated sequence converges

Any number of replicas that exchange their states, with ids that are unique. An id has one character and one place, and
what it stands under was there before it. So every replica's elements are a part of one tree, of all
elements that are ever inserted.

* What a command does to a replica: `step_effect`.
* What two states make when one is merged into the other: `get_join`.
-/

namespace BuildYourOwn.Crdt.Rga

open Lib Topic

variable {s s' t u : Rga} {id : String} {x y : Elem}

/-! ## Merging a state -/

/-- The state after the state of `t` is merged. -/
def join (s t : Rga) : Rga := takeAll (t.toList.map fun e => (e.1, elemJson e.2)) s

theorem merge_state (s t : Rga) : s.merge t.state = answer (s.join t) := rfl

def joined (held : Option Elem) (e : Elem) : Elem :=
  match held with
  | some existing => { existing with deleted := existing.deleted || e.deleted }
  | none => e

/-- What a merge makes of an id. -/
def joinAt (held : Option Elem) : Option Elem → Option Elem
  | some e => some (joined held e)
  | none => held

theorem get_take (s : Rga) (k id : String) (e : Elem) :
    (s.take k e)[id]? = if k = id then some (joined s[id]? e) else s[id]? := by
  have hget : s.take k e = s.insert k (joined s[k]? e) := by
    unfold take joined
    cases s[k]? <;> rfl
  rw [hget, StringMap.get_insert]
  split_ifs with hk
  · rw [hk]
  · rfl

theorem join_eq_foldl (s t : Rga) : s.join t = t.toList.foldl (fun s e => s.take e.1 e.2) s := by
  unfold join
  generalize t.toList = l
  induction l generalizing s with
  | nil => rfl
  | cons e l ih => exact ih (s.take e.1 e.2)

/-- **A merge, one id at a time.** -/
theorem get_join (s t : Rga) (id : String) : (s.join t)[id]? = joinAt s[id]? t[id]? := by
  rw [join_eq_foldl, StringMap.get_foldl_toList fun s e id => get_take s e.1 id e.2]
  cases t[id]? <;> rfl

theorem joinAt_assoc (a b c : Option Elem) : joinAt (joinAt a b) c = joinAt a (joinAt b c) := by
  cases a <;> cases b <;> cases c <;> simp [joinAt, joined, Bool.or_assoc]

theorem join_assoc (s t u : Rga) : (s.join t).join u = s.join (t.join u) := by
  refine Std.ExtTreeMap.ext_getElem? fun id => ?_
  rw [get_join, get_join, get_join, get_join, joinAt_assoc]

theorem join_self (s : Rga) : s.join s = s := by
  refine Std.ExtTreeMap.ext_getElem? fun id => ?_
  rw [get_join]
  cases s[id]? <;> simp [joinAt, joined]

theorem join_comm (h : ∀ (id : String) x y, s[id]? = some x → t[id]? = some y →
    x.ch = y.ch ∧ x.after = y.after) : s.join t = t.join s := by
  refine Std.ExtTreeMap.ext_getElem? fun id => ?_
  rw [get_join, get_join]
  cases hx : s[id]? with
  | none => cases t[id]? <;> rfl
  | some x =>
    cases hy : t[id]? with
    | none => rfl
    | some y =>
      obtain ⟨hch, hafter⟩ := h id x y hx hy
      simp [joinAt, joined, hch, hafter, Bool.or_comm]

theorem of_join (h : (s.join t)[id]? = some x) :
    ∃ y, (s[id]? = some y ∨ t[id]? = some y) ∧ y.ch = x.ch ∧ y.after = x.after := by
  rw [get_join] at h
  cases hs : s[id]? with
  | none =>
    rw [hs] at h
    cases ht : t[id]? with
    | none => rw [ht] at h; simp [joinAt] at h
    | some y =>
      rw [ht] at h
      cases h
      exact ⟨_, .inr rfl, rfl, rfl⟩
  | some y =>
    refine ⟨y, .inl rfl, ?_⟩
    rw [hs] at h
    cases ht : t[id]? with
    | none => rw [ht] at h; cases h; exact ⟨rfl, rfl⟩
    | some z => rw [ht] at h; cases h; exact ⟨rfl, rfl⟩

theorem mem_join : id ∈ s.join t ↔ id ∈ s ∨ id ∈ t := by
  rw [← Std.ExtTreeMap.isSome_getElem?_iff_mem, ← Std.ExtTreeMap.isSome_getElem?_iff_mem,
    ← Std.ExtTreeMap.isSome_getElem?_iff_mem, get_join]
  cases s[id]? <;> cases t[id]? <;> simp [joinAt]

/-! ## Commands -/

/-- The element of an `insert` that was accepted. -/
def bornBy (before after : Rga) (args : List String) : Option (String × Elem) :=
  match word args 2 with
  | .ok id => if id ∈ before then none else after[id]?.map fun x => (id, x)
  | .error _ => none

theorem of_bornBy {args : List String} (h : bornBy s s' args = some (id, x)) : id ∉ s ∧ s'[id]? = some x := by
  unfold bornBy at h
  split at h
  · split_ifs at h with hmem
    obtain ⟨y, hy, heq⟩ := Option.map_eq_some_iff.mp h
    cases heq
    exact ⟨hmem, hy⟩
  · cases h

section Commands

variable [Host] {l : Line} {o : Value}

/-- What a command may do to a replica: insert an element, delete one, merge a state, or nothing. -/
def Effect (s s' : Rga) (l : Line) : Prop :=
  (∃ id x, l.command = "insert" ∧ bornBy s s' l.args = some (id, x) ∧ id ≠ "root" ∧ id ∉ s ∧
    (x.after = "root" ∨ x.after ∈ s) ∧ s' = s.insert id x) ∨
  (∃ (id : String) (x : Elem), s[id]? = some x ∧ s' = s.insert id { x with deleted := true }) ∨
  (∃ incoming elems, l.command = "merge" ∧ mergedBy l.args = some incoming ∧
    elemsOf incoming = some elems ∧ s' = takeAll elems s) ∨
  s' = s

omit [Host] in
theorem eq_of_answer (h : s.answer = some (s', o)) : s' = s := by
  obtain ⟨text, -, heq⟩ := Option.map_eq_some_iff.mp h
  exact (Prod.mk.inj heq).1.symm

theorem insert_effect {after ch : String} {args : List String}
    (h : s.insertElem after id ch = some (s', o)) (hid : word args 2 = .ok id) : Effect s s' ⟨"insert", args⟩ := by
  unfold insertElem at h
  split_ifs at h with hroot hmem hafter
  · exact .inr (.inr (.inr (state_eq h)))
  · exact .inr (.inr (.inr (state_eq h)))
  · exact .inr (.inr (.inr (state_eq h)))
  · obtain rfl := eq_of_answer h
    refine .inl ⟨id, ⟨ch, after, false⟩, rfl, ?_, hroot, hmem, ?_, rfl⟩
    · rw [bornBy, hid]
      dsimp only
      rw [if_neg hmem, StringMap.get_insert_self]
      rfl
    · rw [not_and_or, not_not, not_not] at hafter
      exact hafter

/-- **What a command does to a replica.** -/
theorem step_effect (h : onLine step s l = some (s', o)) : Effect s s' l := by
  obtain ⟨command, args⟩ := l
  have hquiet : s' = s → Effect s s' ⟨command, args⟩ := fun heq => .inr (.inr (.inr heq))
  unfold onLine step at h
  dsimp only at h
  split at h
  · rcases arg_eq_some.mp h with ⟨-, rfl⟩ | ⟨_, -, h⟩
    · exact hquiet rfl
    rcases arg_eq_some.mp h with ⟨-, rfl⟩ | ⟨after, -, h⟩
    · exact hquiet rfl
    rcases arg_eq_some.mp h with ⟨-, rfl⟩ | ⟨id, hid, h⟩
    · exact hquiet rfl
    rcases arg_eq_some.mp h with ⟨-, rfl⟩ | ⟨ch, -, h⟩
    · exact hquiet rfl
    exact insert_effect h hid
  · rcases arg_eq_some.mp h with ⟨-, rfl⟩ | ⟨_, -, h⟩
    · exact hquiet rfl
    rcases arg_eq_some.mp h with ⟨-, rfl⟩ | ⟨id, -, h⟩
    · exact hquiet rfl
    unfold delete at h
    split at h
    · rename_i x hx
      obtain rfl := eq_of_answer h
      exact .inr (.inl ⟨id, x, hx, rfl⟩)
    · exact hquiet (state_eq h)
  · rcases arg_eq_some.mp h with ⟨-, rfl⟩ | ⟨_, -, h⟩
    · exact hquiet rfl
    · exact hquiet (eq_of_answer h)
  · rcases arg_eq_some.mp h with ⟨-, rfl⟩ | ⟨_, -, h⟩
    · exact hquiet rfl
    · exact hquiet (state_eq h)
  · rcases merge_cases h with ⟨-, hs'⟩ | ⟨incoming, hmerged, h⟩
    · exact hquiet hs'
    unfold merge at h
    split at h
    · rename_i elems helems
      obtain rfl := eq_of_answer h
      exact .inr (.inr (.inl ⟨incoming, elems, rfl, hmerged, helems, rfl⟩))
    · exact hquiet (state_eq h)
  · exact hquiet (state_eq h)

end Commands

/-! ## A history -/

variable {P : Type} {es : History P Rga} {sys : P → Rga} {origin : Nat → Nat} {n m i j : Nat}
  {p q : P} {e : Event (P → Rga) (P × Line) Value}

def bornAt (e : Event (P → Rga) (P × Line) Value) : Option (String × Elem) :=
  match e.input.2.command with
  | "insert" => bornBy (e.before e.input.1) (e.after e.input.1) e.input.2.args
  | _ => none

def UniqueIds (es : History P Rga) : Prop :=
  ∀ (i j : Nat) e f id x y, es[i]? = some e → es[j]? = some f →
    bornAt e = some (id, x) → bornAt f = some (id, y) → i = j

/-- The event at `i` inserted `x` as `id`. -/
def Born (es : History P Rga) (i : Nat) (id : String) (x : Elem) : Prop :=
  ∃ e, es[i]? = some e ∧ bornAt e = some (id, x)

/-- What holds of the elements of a replica: each was inserted, and so was what it stands under. -/
structure Kept (es : History P Rga) (n : Nat) (s : Rga) : Prop where
  named : ∀ (id : String) x, s[id]? = some x → id ≠ "root"
  born : ∀ (id : String) x, s[id]? = some x →
    ∃ i < n, ∃ y, Born es i id y ∧ y.ch = x.ch ∧ y.after = x.after
  parent : ∀ (id : String) x, s[id]? = some x → x.after = "root" ∨ x.after ∈ s

theorem Kept.mono (h : Kept es n s) (hnm : n ≤ m) : Kept es m s :=
  ⟨h.named, fun id x hx =>
    let ⟨i, hi, hborn⟩ := h.born id x hx
    ⟨i, Nat.lt_of_lt_of_le hi hnm, hborn⟩, h.parent⟩

theorem Kept.join (hs : Kept es n s) (ht : Kept es n t) : Kept es n (s.join t) := by
  refine ⟨fun id x hx => ?_, fun id x hx => ?_, fun id x hx => ?_⟩ <;>
    obtain ⟨y, hy, hch, hafter⟩ := of_join hx
  · exact hy.elim (hs.named id y) (ht.named id y)
  · rw [← hch, ← hafter]
    exact hy.elim (hs.born id y) (ht.born id y)
  · rw [← hafter, mem_join]
    rcases hy with hy | hy
    · exact (hs.parent id y hy).imp_right .inl
    · exact (ht.parent id y hy).imp_right .inr

theorem Kept.insert (h : Kept es n s) (hroot : id ≠ "root")
    (hborn : ∃ i < n, ∃ y, Born es i id y ∧ y.ch = x.ch ∧ y.after = x.after)
    (hparent : x.after = "root" ∨ x.after ∈ s) : Kept es n (s.insert id x) := by
  have hmem : ∀ a, a ∈ s → a ∈ s.insert id x := fun a ha => by
    rw [Std.ExtTreeMap.mem_insert]
    exact .inr ha
  refine ⟨fun a y hy => ?_, fun a y hy => ?_, fun a y hy => ?_⟩ <;> rw [StringMap.get_insert] at hy <;>
    split_ifs at hy with ha
  · exact ha ▸ hroot
  · exact h.named a y hy
  · cases hy
    exact ha ▸ hborn
  · exact h.born a y hy
  · cases hy
    exact hparent.imp_right (hmem _)
  · exact (h.parent a y hy).imp_right (hmem _)

theorem Born.unique (hids : UniqueIds es) (hi : Born es i id x) (hj : Born es j id y) : i = j ∧ x = y := by
  obtain ⟨e, he, hx⟩ := hi
  obtain ⟨f, hf, hy⟩ := hj
  obtain rfl := hids i j e f id x y he hf hx hy
  obtain rfl := Option.mem_unique he hf
  exact ⟨rfl, (Prod.mk.inj (Option.mem_unique hx hy)).2⟩

variable [Host] [DecidableEq P]

theorem next_cases (hrun : Run (each (onLine step)) (fun _ => ∅) es sys) (hgenuine : Genuine origin es)
    (n : Nat) (p : P) :
    (∃ id x, Born es n id x ∧ id ≠ "root" ∧ id ∉ replica ∅ es n p ∧ (x.after = "root" ∨ x.after ∈ replica ∅ es n p) ∧
      replica ∅ es (n + 1) p = (replica ∅ es n p).insert id x) ∨
    (∃ (id : String) (x : Elem), (replica ∅ es n p)[id]? = some x ∧
      replica ∅ es (n + 1) p = (replica ∅ es n p).insert id { x with deleted := true }) ∨
    (∃ k q, k < n ∧ replica ∅ es (n + 1) p = (replica ∅ es n p).join (replica ∅ es k q)) ∨
    replica ∅ es (n + 1) p = replica ∅ es n p := by
  rcases hrun.each_cases n p with ⟨hstays, -⟩ | ⟨e, he, rfl, hstep⟩
  · exact .inr (.inr (.inr hstays))
  rcases step_effect hstep with ⟨id, x, hcommand, hborn, hroot, hnew, hafter, hs'⟩ | hdel |
    ⟨incoming, elems, hcommand, hmerged, helems, hs'⟩ | hs'
  · refine .inl ⟨id, x, ⟨e, he, ?_⟩, hroot, hnew, hafter, hs'⟩
    rw [bornAt, hcommand, hrun.before_eq he, ← stateAt_succ he]
    exact hborn
  · exact .inr (.inl hdel)
  · have hat : mergedIn e.input.2 = some incoming := by
      rw [mergedIn, hcommand]
      exact hmerged
    obtain ⟨hlt, e', -, rfl⟩ := hgenuine.earlier hrun (fun _ _ => rfl) he hat
    cases helems
    exact .inr (.inr (.inl ⟨_, _, hlt, hs'⟩))
  · exact .inr (.inr (.inr hs'))

/-- **What holds of every replica at every moment.** -/
theorem kept (hrun : Run (each (onLine step)) (fun _ => ∅) es sys) (hgenuine : Genuine origin es)
    (n : Nat) : ∀ p, Kept es n (replica ∅ es n p) := by
  -- a merged state is an earlier one, so the induction looks at every moment before
  induction n using Nat.strong_induction_on with
  | _ n ih =>
    intro p
    cases n with
    | zero =>
      have hempty : ∀ id : String, (replica ∅ es 0 p)[id]? = none := fun id => Std.ExtTreeMap.getElem?_empty
      refine ⟨fun id x hx => ?_, fun id x hx => ?_, fun id x hx => ?_⟩ <;>
        cases (hempty id).symm.trans hx
    | succ n =>
      have hnow := (ih n (Nat.lt_succ_self n) p).mono (Nat.le_succ n)
      rcases next_cases hrun hgenuine n p with ⟨id, x, hborn, hroot, -, hafter, hnext⟩ |
        ⟨id, x, hx, hnext⟩ | ⟨k, q, hk, hnext⟩ | hnext
      · rw [hnext]
        exact hnow.insert hroot ⟨n, Nat.lt_succ_self n, x, hborn, rfl, rfl⟩ hafter
      · rw [hnext]
        exact hnow.insert (hnow.named id x hx) (hnow.born id x hx) (hnow.parent id x hx)
      · rw [hnext]
        exact hnow.join ((ih k (Nat.lt_succ_of_lt hk) q).mono (by omega))
      · rw [hnext]
        exact hnow

theorem Born.spec (h : Born es i id x) (hrun : Run (each (onLine step)) (fun _ => ∅) es sys) :
    ∃ p, id ≠ "root" ∧ (x.after = "root" ∨ x.after ∈ replica ∅ es i p) ∧ id ∈ replica ∅ es (i + 1) p := by
  obtain ⟨e, he, hat⟩ := h
  obtain ⟨hstep, -⟩ := each_eq_some.mp (hrun.step_at he)
  unfold bornAt at hat
  split at hat
  · rename_i hinsert
    rw [hrun.before_eq he, ← stateAt_succ he] at hat
    obtain ⟨hnot, hget⟩ := of_bornBy hat
    have hmem := StringMap.mem_iff.mpr ⟨_, hget⟩
    rcases step_effect hstep with ⟨id', x', -, hborn, hroot, -, hafter, -⟩ | ⟨id', y, hy, hs'⟩ |
      ⟨_, _, hmerge, -⟩ | hs'
    · obtain ⟨rfl, rfl⟩ := Prod.mk.inj (Option.mem_unique hborn hat)
      exact ⟨_, hroot, hafter, hmem⟩
    · rw [hs', StringMap.get_insert] at hget
      split_ifs at hget with hid
      · rw [hid] at hy
        exact absurd (StringMap.mem_iff.mpr ⟨_, hy⟩) hnot
      · exact absurd (StringMap.mem_iff.mpr ⟨_, hget⟩) hnot
    · exact absurd (hinsert.symm.trans hmerge) (by decide)
    · rw [hs'] at hmem
      exact absurd hmem hnot
  · cases hat

/-- **An element stands under one that was inserted before.** -/
theorem Born.under (h : Born es i id x) (hrun : Run (each (onLine step)) (fun _ => ∅) es sys)
    (hgenuine : Genuine origin es) : id ≠ "root" ∧ (x.after = "root" ∨ ∃ j < i, ∃ y, Born es j x.after y) := by
  obtain ⟨p, hroot, hafter, -⟩ := h.spec hrun
  refine ⟨hroot, hafter.imp_right fun hmem => ?_⟩
  obtain ⟨y, hy⟩ := StringMap.mem_iff.mp hmem
  obtain ⟨j, hj, z, hz, -⟩ := (kept hrun hgenuine i p).born _ y hy
  exact ⟨j, hj, z, hz⟩

/-! ## One tree -/

def birth (es : History P Rga) (id : String) : Nat :=
  es.findIdx fun e => (bornAt e).any fun b => b.1 == id

/-- All elements that are ever inserted. -/
def everything (es : History P Rga) : Rga := Std.ExtTreeMap.ofList (es.filterMap bornAt)

omit [Host] [DecidableEq P] in
theorem Born.birth_eq (h : Born es i id x) (hids : UniqueIds es) : birth es id = i := by
  obtain ⟨e, he, hat⟩ := h
  have hexists : ∃ e ∈ es, ((bornAt e).any fun b => b.1 == id) = true :=
    ⟨e, List.mem_of_getElem? he, by rw [hat]; exact beq_self_eq_true id⟩
  have hlt := List.findIdx_lt_length_of_exists hexists
  have hfound := @List.findIdx_getElem _ _ es hlt
  obtain ⟨⟨id', y⟩, hy, hid⟩ := (Option.any_eq_true _ _).mp hfound
  obtain rfl := beq_iff_eq.mp hid
  exact hids _ _ _ _ _ _ _ (List.getElem?_eq_getElem hlt) he hy hat

omit [Host] [DecidableEq P] in
theorem get_everything (hids : UniqueIds es) : (everything es)[id]? = some x ↔ ∃ i, Born es i id x := by
  have hdistinct : (es.filterMap bornAt).Pairwise fun a b => ¬ compare a.1 b.1 = .eq := by
    rw [List.pairwise_filterMap, List.pairwise_iff_getElem]
    intro i j hi hj hij b hb c hc heq
    have hsame := hids i j _ _ b.1 b.2 c.2 (List.getElem?_eq_getElem hi) (List.getElem?_eq_getElem hj)
      hb (by rw [Std.LawfulEqCmp.eq_of_compare heq]; exact hc)
    omega
  have hmem : ∀ y, (id, y) ∈ es.filterMap bornAt → (everything es)[id]? = some y := fun y hy =>
    Std.ExtTreeMap.getElem?_ofList_of_mem Std.ReflCmp.compare_self hdistinct hy
  have hborn : ∀ y, (id, y) ∈ es.filterMap bornAt ↔ ∃ i, Born es i id y := fun y => by
    rw [List.mem_filterMap]
    constructor
    · rintro ⟨e, he, hat⟩
      obtain ⟨i, hi⟩ := List.getElem?_of_mem he
      exact ⟨i, e, hi, hat⟩
    · rintro ⟨i, e, he, hat⟩
      exact ⟨e, List.mem_of_getElem? he, hat⟩
  constructor
  · intro hget
    by_cases hkey : ((es.filterMap bornAt).map Prod.fst).contains id = true
    · obtain ⟨⟨id', y⟩, hy, rfl⟩ := List.mem_map.mp (List.contains_iff_mem.mp hkey)
      obtain rfl := Option.some.inj (hget.symm.trans (hmem y hy))
      exact (hborn x).mp hy
    · rw [everything, Std.ExtTreeMap.getElem?_ofList_of_contains_eq_false
        (Bool.eq_false_of_not_eq_true hkey)] at hget
      cases hget
  · exact fun hi => hmem x ((hborn x).mpr hi)

theorem everything_grown (hrun : Run (each (onLine step)) (fun _ => ∅) es sys)
    (hgenuine : Genuine origin es) (hids : UniqueIds es) : Grown (birth es) (everything es) := by
  refine ⟨fun id x hx => ?_, fun id x hx => ?_⟩ <;> obtain ⟨i, hborn⟩ := (get_everything hids).mp hx
  · exact (hborn.under hrun hgenuine).1
  · refine (hborn.under hrun hgenuine).2.imp_right fun ⟨j, hj, y, hy⟩ => ⟨?_, ?_⟩
    · have hget := (get_everything hids).mpr ⟨j, hy⟩
      exact StringMap.mem_iff.mpr ⟨_, hget⟩
    · rw [hy.birth_eq hids, hborn.birth_eq hids]
      exact hj

theorem Kept.grown (h : Kept es n s) (hrun : Run (each (onLine step)) (fun _ => ∅) es sys)
    (hgenuine : Genuine origin es) (hids : UniqueIds es) : Grown (birth es) s := by
  refine ⟨h.named, fun id x hx => ?_⟩
  obtain ⟨i, -, y, hborn, -, hafter⟩ := h.born id x hx
  rcases h.parent id x hx with hparent | hparent
  · exact .inl hparent
  · refine ((hborn.under hrun hgenuine).2.imp (hafter ▸ ·) ?_)
    rintro ⟨j, hj, z, hz⟩
    rw [hafter] at hz
    exact ⟨hparent, by rw [hz.birth_eq hids, hborn.birth_eq hids]; exact hj⟩

/-- **A replica shows its elements in the order of all elements.** -/
theorem Kept.text_eq (h : Kept es n s) (hrun : Run (each (onLine step)) (fun _ => ∅) es sys)
    (hgenuine : Genuine origin es) (hids : UniqueIds es) : s.text = some (s.render (everything es).order) := by
  refine text_of_part (h.grown hrun hgenuine hids) (everything_grown hrun hgenuine hids) fun id x hx => ?_
  obtain ⟨i, -, y, hborn, -, hafter⟩ := h.born id x hx
  exact ⟨y, (get_everything hids).mpr ⟨i, hborn⟩, hafter⟩

omit [Host] [DecidableEq P] in
theorem Kept.agree (hs : Kept es n s) (ht : Kept es n t) (hids : UniqueIds es)
    (hx : s[id]? = some x) (hy : t[id]? = some y) : x.ch = y.ch ∧ x.after = y.after := by
  obtain ⟨i, -, x', hborn, hch, hafter⟩ := hs.born id x hx
  obtain ⟨j, -, y', hborn', hch', hafter'⟩ := ht.born id y hy
  obtain ⟨-, rfl⟩ := hborn.unique hids hborn'
  exact ⟨hch.symm.trans hch', hafter.symm.trans hafter'⟩

/-- Two states with the same elements, of which the same are deleted. -/
def Alike (s t : Rga) : Prop :=
  ∀ id : String, s[id]?.map Elem.deleted = t[id]?.map Elem.deleted

/-- Is the element there as a tombstone? -/
def Deleted (s : Rga) (id : String) : Prop := ∃ x, s[id]? = some x ∧ x.deleted = true

/-- **The replicated sequence converges on one order.** -/
structure Converges (es : History P Rga) : Prop where
  same : ∀ n m p q, Alike (replica ∅ es n p) (replica ∅ es m q) → (replica ∅ es n p).text = (replica ∅ es m q).text
  merges : ∀ n m p q, ∃ s v, (replica ∅ es n p).merge (replica ∅ es m q).state = some (s, v)
  comm : ∀ n m p q,
    (replica ∅ es n p).merge (replica ∅ es m q).state = (replica ∅ es m q).merge (replica ∅ es n p).state
  assoc : ∀ n m k p q r st v tu w, (replica ∅ es n p).merge (replica ∅ es m q).state = some (st, v) →
    (replica ∅ es m q).merge (replica ∅ es k r).state = some (tu, w) →
    st.merge (replica ∅ es k r).state = (replica ∅ es n p).merge tu.state
  idem : ∀ n p, ∃ v, (replica ∅ es n p).merge (replica ∅ es n p).state = some (replica ∅ es n p, v)
  deleted : ∀ n m p id, n ≤ m → Deleted (replica ∅ es n p) id → Deleted (replica ∅ es m p) id
  order : ∃ order : List String, order.Nodup ∧ (∀ id, id ∈ order ↔ ∃ n p, id ∈ replica ∅ es n p) ∧
    ∀ n p, (replica ∅ es n p).text =
      some (String.join ((order.filter (replica ∅ es n p).live).map (replica ∅ es n p).chAt))

theorem deleted_mono (hrun : Run (each (onLine step)) (fun _ => ∅) es sys)
    (hgenuine : Genuine origin es) (hnm : n ≤ m) (h : Deleted (replica ∅ es n p) id) :
    Deleted (replica ∅ es m p) id := by
  induction hnm with
  | refl => exact h
  | @step m _ ih =>
    obtain ⟨x, hx, hdel⟩ := ih
    rcases next_cases hrun hgenuine m p with ⟨id', y, -, -, hnew, -, hnext⟩ | ⟨id', y, hy, hnext⟩ |
      ⟨k, q, -, hnext⟩ | hnext
    · rw [Deleted, hnext, StringMap.get_insert]
      split_ifs with hid
      · exact absurd (StringMap.mem_iff.mpr ⟨_, hid ▸ hx⟩) hnew
      · exact ⟨x, hx, hdel⟩
    · rw [Deleted, hnext, StringMap.get_insert]
      split_ifs with hid
      · exact ⟨_, rfl, rfl⟩
      · exact ⟨x, hx, hdel⟩
    · rw [Deleted, hnext, get_join, hx]
      cases (replica ∅ es k q)[id]? with
      | none => exact ⟨x, rfl, hdel⟩
      | some y => exact ⟨_, rfl, Bool.or_eq_true_iff.mpr (.inl hdel)⟩
    · rw [hnext]
      exact ⟨x, hx, hdel⟩

omit [Host] [DecidableEq P] in
theorem Alike.render_eq (h : Alike s t) (hs : Kept es n s) (ht : Kept es m t) (hids : UniqueIds es)
    (l : List String) : s.render l = t.render l := by
  have hlive : ∀ id, s.live id = t.live id := fun id => by
    have hid := h id
    unfold live
    cases hx : s[id]? <;> cases hy : t[id]? <;> rw [hx, hy] at hid <;> simp_all
  unfold render
  rw [List.filter_congr fun id _ => hlive id]
  refine congrArg String.join (List.map_congr_left fun id hid => ?_)
  have htlive := (List.mem_filter.mp hid).2
  have hslive := (hlive id).trans htlive
  unfold live at hslive htlive
  unfold chAt
  cases hx : s[id]? with
  | none => rw [hx] at hslive; cases hslive
  | some x =>
    cases hy : t[id]? with
    | none => rw [hy] at htlive; cases htlive
    | some y =>
      have hle := hs.mono (Nat.le_max_left n m)
      exact (hle.agree (ht.mono (Nat.le_max_right n m)) hids hx hy).1

/-- **Replicas that exchange their states converge on one order.** -/
theorem converges (hrun : Run (each (onLine step)) (fun _ => ∅) es sys)
    (hgenuine : Genuine origin es) (hids : UniqueIds es) : Converges es := by
  have hkept := kept hrun hgenuine
  have htext : ∀ n p, (replica ∅ es n p).text = some ((replica ∅ es n p).render (everything es).order) :=
    fun n p => (hkept n p).text_eq hrun hgenuine hids
  have hjoin : ∀ n m p q, Kept es (max n m) ((replica ∅ es n p).join (replica ∅ es m q)) := fun n m p q =>
    ((hkept n p).mono (Nat.le_max_left n m)).join ((hkept m q).mono (Nat.le_max_right n m))
  have hmerge : ∀ n m p q, ∃ v, (replica ∅ es n p).merge (replica ∅ es m q).state =
      some ((replica ∅ es n p).join (replica ∅ es m q), v) := fun n m p q => by
    rw [merge_state, answer, (hjoin n m p q).text_eq hrun hgenuine hids]
    exact ⟨_, rfl⟩
  refine ⟨fun n m p q halike => ?_, fun n m p q => ⟨_, hmerge n m p q⟩, fun n m p q => ?_, ?_,
    fun n p => ?_, fun n m p id => deleted_mono hrun hgenuine, ?_⟩
  · rw [htext, htext, halike.render_eq (hkept n p) (hkept m q) hids]
  · rw [merge_state, merge_state]
    refine congrArg answer (join_comm fun id x y hx hy => ?_)
    have hle := (hkept n p).mono (Nat.le_max_left n m)
    exact hle.agree ((hkept m q).mono (Nat.le_max_right n m)) hids hx hy
  · intro n m k p q r st v tu w hst htu
    rw [merge_state] at hst htu
    rw [eq_of_answer hst, eq_of_answer htu, merge_state, merge_state, join_assoc]
  · obtain ⟨v, hv⟩ := hmerge n n p p
    rw [join_self] at hv
    exact ⟨v, hv⟩
  · have hgrown := everything_grown hrun hgenuine hids
    refine ⟨(everything es).order, hgrown.nodup_order, fun id => ?_, htext⟩
    rw [hgrown.mem_order]
    constructor
    · intro hmem
      obtain ⟨x, hx⟩ := StringMap.mem_iff.mp hmem
      obtain ⟨i, hborn⟩ := (get_everything hids).mp hx
      obtain ⟨p, -, -, hin⟩ := hborn.spec hrun
      exact ⟨i + 1, p, hin⟩
    · rintro ⟨n, p, hmem⟩
      obtain ⟨x, hx⟩ := StringMap.mem_iff.mp hmem
      obtain ⟨i, -, y, hborn, -⟩ := (hkept n p).born id x hx
      have hget := (get_everything hids).mpr ⟨i, hborn⟩
      exact StringMap.mem_iff.mpr ⟨_, hget⟩

/-! One process inserts an element, another one takes it over and deletes it. -/

/-- The state after the insertion. -/
def oneElement : Value :=
  .obj [("e", .obj [("a", .obj [("a", .str "root"), ("c", .str "A"), ("d", .bool false)])])]

@[reducible] def stateText : Host :=
  hostOf [("\x7b\"e\":\x7b\"a\":\x7b\"a\":\"root\",\"c\":\"A\",\"d\":false\x7d\x7d\x7d", oneElement)]

def takenOver : List (Bool × Line) :=
  [(false, ⟨"insert", ["r", "root", "a", "A"]⟩), (false, ⟨"state", ["r"]⟩),
    (true, ⟨"merge", ["r", "\x7b\"e\":\x7b\"a\":\x7b\"a\":\"root\",\"c\":\"A\",\"d\":false\x7d\x7d\x7d"]⟩),
    (true, ⟨"delete", ["r", "a"]⟩)]

omit [Host] [DecidableEq P] in
theorem converges_taken_over : ∃ (es : History Bool Rga) (sys : Bool → Rga),
    Run (each (onLine (@step stateText))) (fun _ => ∅) es sys ∧ es.map Event.input = takenOver ∧
    (replica ∅ es 3 true).text = some "A" ∧ (replica ∅ es 4 true).text = some "" ∧ Converges es := by
  let _ : Host := stateText
  obtain ⟨e₁, e₂, e₃, e₄, sys, hrun, hinputs, htext, htext', hmerged, hshared, hborn⟩ :
      ∃ (e₁ e₂ e₃ e₄ : Event (Bool → Rga) (Bool × Line) Value) (sys : Bool → Rga),
      Run (each (onLine step)) (fun _ => ∅) [e₁, e₂, e₃, e₄] sys ∧
      [e₁, e₂, e₃, e₄].map Event.input = takenOver ∧
      (replica ∅ [e₁, e₂, e₃, e₄] 3 true).text = some "A" ∧
      (replica ∅ [e₁, e₂, e₃, e₄] 4 true).text = some "" ∧
      [e₁, e₂, e₃, e₄].map (fun e => mergedIn e.input.2) = [none, none, some oneElement, none] ∧
      sharedAt e₂ = some oneElement ∧
      [e₁, e₂, e₃, e₄].map bornAt = [some ("a", ⟨"A", "root", false⟩), none, none, none] :=
    ⟨_, _, _, _, _, run_of_exec takenOver rfl, rfl, rfl, rfl, rfl, rfl, rfl⟩
  simp only [List.map_cons, List.map_nil, List.cons.injEq, and_true] at hmerged hborn
  have hgenuine : Genuine (fun _ => 1) [e₁, e₂, e₃, e₄] := by
    intro n e v he hv
    rcases n with _ | _ | _ | _ | n <;> simp at he <;> subst he <;> simp [hmerged] at hv
    subst hv
    exact ⟨by decide, e₂, rfl, hshared⟩
  have hids : UniqueIds [e₁, e₂, e₃, e₄] := by
    have hfirst : ∀ (i : Nat) e id x, [e₁, e₂, e₃, e₄][i]? = some e → bornAt e = some (id, x) →
        i = 0 := by
      intro i e id x he hx
      rcases i with _ | _ | _ | _ | i <;> simp at he <;> subst he <;> simp [hborn] at hx
      rfl
    exact fun i j e f id x y he hf hx hy => (hfirst i e id x he hx).trans (hfirst j f id y hf hy).symm
  exact ⟨_, sys, hrun, hinputs, htext, htext', converges hrun hgenuine hids⟩

end BuildYourOwn.Crdt.Rga
