import BuildYourOwn.Crdt.Counter
import Mathlib.Data.Prod.Lex
import Mathlib.Data.String.Basic

/-!
# Which write a register holds

A register holds the first of the greatest writes it has absorbed, unless none is greater than what a new
register holds: a write with a negative timestamp loses against the register's own start.

* What the commands do: `lww_replicated`.
-/

namespace BuildYourOwn.Crdt.Lww

open Lib Topic

/-- An update of a register. -/
structure Write where
  replica : String
  value : String
  ts : Int

/-- What writes are compared by. -/
def Write.key (w : Write) : Int ×ₗ String := toLex (w.ts, w.replica)

/-- What a register compares incoming writes with. -/
def key (s : Lww) : Int ×ₗ String := toLex (s.ts, s.replica)

def Write.held (w : Write) : Lww := ⟨.str w.value, w.ts, w.replica⟩

/-- The state that is taken when it beats the one held. -/
def join (s t : Lww) : Lww := if s.key < t.key then t else s

variable {s s' t u : Lww} {w : Write} {args : List String} {l : Line} {o : Value}

theorem beats_iff {ts : Int} {replica : String} : beats ts replica s = true ↔ s.key < toLex (ts, replica) := by
  unfold beats key
  rw [Prod.Lex.toLex_lt_toLex, Bool.or_eq_true, Bool.and_eq_true, decide_eq_true_iff,
    decide_eq_true_iff, decide_eq_true_iff]

theorem take_eq (s t : Lww) : s.take t.value t.ts t.replica = join s t := by
  unfold take join
  exact if_congr beats_iff rfl rfl

theorem key_join (s t : Lww) : (join s t).key = max s.key t.key := by
  unfold join
  split_ifs with h
  · exact (max_eq_right h.le).symm
  · exact (max_eq_left (not_lt.mp h)).symm

theorem join_of_lt (h : s.key < t.key) : join s t = t := if_pos h

theorem join_of_le (h : t.key ≤ s.key) : join s t = s := if_neg (not_lt.mpr h)

theorem join_assoc (s t u : Lww) : join (join s t) u = join s (join t u) := by
  rcases lt_or_ge s.key t.key with hst | hst <;> rcases lt_or_ge t.key u.key with htu | htu
  · rw [join_of_lt hst, join_of_lt htu, join_of_lt (hst.trans htu)]
  · rw [join_of_lt hst, join_of_le htu, join_of_lt hst]
  · rw [join_of_le hst, join_of_lt htu]
  · rw [join_of_le hst, join_of_le htu, join_of_le hst, join_of_le (htu.trans hst)]

theorem join_self (s : Lww) : join s s = s := join_of_le (le_refl _)

/-! ## Commands -/

/-- The write of the arguments of `set`. -/
def setBy (args : List String) : Option Write :=
  match word args 0, word args 1, int args 2 with
  | .ok replica, .ok value, .ok ts => some ⟨replica, value, ts⟩
  | _, _, _ => none

def update (_ : Lww) (l : Line) : Option Write :=
  match l.command with
  | "set" => setBy l.args
  | _ => none

def Makes (s : Lww) (w : Write) (s' : Lww) : Prop := s' = join s w.held ∧ inI64 w.ts = true

/-- What a merge makes of a register. -/
def Takes (s : Lww) (incoming : Value) (s' : Lww) : Prop := s' = s.absorb incoming

theorem int_range {i : Nat} {n : Int} (h : int args i = .ok n) : inI64 n = true := by
  unfold int at h
  split at h
  · cases h
  · split at h
    · rename_i hparse
      cases h
      exact (Option.filter_eq_some_iff.mp hparse).2
    · cases h

variable [Host]

/-- **What the commands do to a register.** -/
theorem lww_replicated : Replicated step state update Makes Takes := by
  refine ⟨fun _ _ => rfl, fun s l s' o h => ?_⟩
  obtain ⟨command, args⟩ := l
  have hquiet : update s ⟨command, args⟩ = none → mergedIn ⟨command, args⟩ = none → s' = s →
      Case update Makes Takes s ⟨command, args⟩ s' := fun hu hv hs' => .inr (.inr ⟨hu, hv, hs'⟩)
  unfold onLine step at h
  dsimp only at h
  split at h
  · have hnone : setBy args = none → s' = s → Case update Makes Takes s ⟨"set", args⟩ s' :=
      fun hu => hquiet hu rfl
    rcases arg_eq_some.mp h with ⟨hword, rfl⟩ | ⟨replica, hword, h⟩
    · exact hnone (by rw [setBy, hword]) rfl
    rcases arg_eq_some.mp h with ⟨hvalue, rfl⟩ | ⟨value, hvalue, h⟩
    · exact hnone (by rw [setBy, hword, hvalue]) rfl
    rcases arg_eq_some.mp h with ⟨hts, rfl⟩ | ⟨ts, hts, h⟩
    · exact hnone (by rw [setBy, hword, hvalue, hts]) rfl
    refine .inl ⟨⟨replica, value, ts⟩, ?_, ?_, int_range hts⟩
    · show setBy args = _
      rw [setBy, hword, hvalue, hts]
    · rw [← take_eq]
      exact (state_eq h)
  · rcases arg_eq_some.mp h with ⟨-, rfl⟩ | ⟨_, -, h⟩
    · exact hquiet rfl rfl rfl
    · exact hquiet rfl rfl (state_eq h)
  · rcases arg_eq_some.mp h with ⟨-, rfl⟩ | ⟨_, -, h⟩
    · exact hquiet rfl rfl rfl
    · exact hquiet rfl rfl (state_eq h)
  · rcases merge_cases h with ⟨hmerged, hs'⟩ | ⟨incoming, hmerged, h⟩
    · exact hquiet rfl hmerged hs'
    · exact .inr (.inl ⟨rfl, incoming, hmerged, (state_eq h)⟩)
  · rename_i hset _ _ hmerge
    refine hquiet ?_ ?_ (state_eq h)
    · unfold update
      dsimp only
      split
      · exact absurd rfl hset
      · rfl
    · unfold mergedIn
      dsimp only
      split
      · exact absurd rfl hmerge
      · rfl

omit [Host] in
theorem absorb_state (ht : inI64 t.ts = true) (s : Lww) : s.absorb t.state = join s t := by
  have hread : asI64 (.num t.ts) = some t.ts := if_pos ht
  have hts : ((t.state.get "ts").bind asI64).getD 0 = t.ts := by
    show (asI64 (.num t.ts)).getD 0 = t.ts
    rw [hread, Option.getD_some]
  unfold absorb
  rw [hts]
  exact take_eq s t

omit [Host] in
theorem merge_state (ht : inI64 t.ts = true) (s : Lww) :
    s.merge t.state = some (join s t, .obj [("value", (join s t).value)]) := by
  rw [merge, absorb_state ht]

/-! ## A history -/

section Run

variable {P : Type} {es : History P Lww} {sys : P → Lww} {origin : Nat → Nat}
  {name : P → String} {n m k i j : Nat} {p q r : P} {A : Finset Nat}

abbrev register (es : History P Lww) (n : Nat) (p : P) : Lww := Crdt.replica default es n p

abbrev writeOf (es : History P Lww) (i : Nat) : Option Write := updateOf update es i

/-- What the write at a position is compared by. -/
def keyOf (es : History P Lww) (i : Nat) : Option (Int ×ₗ String) := (writeOf es i).map Write.key

/-- The updates a register has absorbed. -/
noncomputable abbrev known (origin : Nat → Nat) (es : History P Lww) (n : Nat) (p : P) : Finset Nat :=
  absorbed (actAt update origin es) n p

/-- What a register holds of the writes it has absorbed: the first of the greatest, or its start when none is greater
than that. -/
structure Held (es : History P Lww) (A : Finset Nat) (s : Lww) : Prop where
  range : inI64 s.ts = true
  start : default.key ≤ s.key
  above : ∀ i ∈ A, ∀ w, writeOf es i = some w → w.key ≤ s.key
  held : s = default ∨ default.key < s.key ∧ ∃ i ∈ A, ∃ w, writeOf es i = some w ∧ s = w.held ∧
    ∀ j ∈ A, ∀ w', writeOf es j = some w' → w'.key = w.key → i ≤ j

theorem oneMaker (hown : OwnNames update (fun w => some w.replica) name es) :
    OneMaker (actAt update origin es) (keyOf es) := by
  intro i j r r' hi hj hkey
  obtain ⟨e, w, he, rfl, hw⟩ := of_act_update hi
  obtain ⟨e', w', he', rfl, hw'⟩ := of_act_update hj
  have hwrite : writeOf es i = some w := by rw [writeOf, updateOf, he]; exact hw
  have hwrite' : writeOf es j = some w' := by rw [writeOf, updateOf, he']; exact hw'
  rw [keyOf, keyOf, hwrite, hwrite'] at hkey
  have hname : w.replica = w'.replica := congrArg (fun k => (ofLex k).2) (Option.some.inj hkey)
  refine hown.1 ?_
  rw [← hown.2 i e w w.replica he hw rfl, ← hown.2 j e' w' w'.replica he' hw' rfl, hname]

theorem first_le (hgenuine : Genuine origin es)
    (hown : OwnNames update (fun w => some w.replica) name es) {w w' : Write}
    (hi : i ∈ known origin es n p) (hw : writeOf es i = some w)
    (hfirst : ∀ j ∈ known origin es n p, ∀ w', writeOf es j = some w' → w'.key = w.key → i ≤ j)
    (hj : j ∈ known origin es m q) (hw' : writeOf es j = some w') (hkey : w'.key = w.key) : i ≤ j := by
  rcases Nat.le_total i j with hle | hle
  · exact hle
  · have hsame : keyOf es j = keyOf es i := by
      rw [keyOf, keyOf, hw, hw']
      exact congrArg some hkey
    exact hfirst j (mem_absorbed_of_le hgenuine.acts_earlier (oneMaker hown) hj hi hsame hle) w' hw' hkey

/-- **Registers that hold writes with the same key hold the same write.** -/
theorem Held.eq_of_key (hgenuine : Genuine origin es) (hown : OwnNames update (fun w => some w.replica) name es)
    (hs : Held es (known origin es n p) s) (ht : Held es (known origin es m q) t) (hkey : s.key = t.key) : s = t := by
  rcases hs.held with rfl | ⟨habove, i, hi, w, hw, rfl, hfirst⟩ <;>
    rcases ht.held with rfl | ⟨habove', j, hj, w', hw', rfl, hfirst'⟩
  · rfl
  · exact absurd (hkey ▸ habove') (lt_irrefl _)
  · exact absurd (hkey ▸ habove) (lt_irrefl _)
  · have hij := first_le hgenuine hown hi hw hfirst hj hw' hkey.symm
    have hji := first_le hgenuine hown hj hw' hfirst' hi hw hkey
    obtain rfl := Nat.le_antisymm hij hji
    rw [Option.mem_unique hw hw']

omit [Host] in
theorem Held.write (hs : Held es A s) (hn : ∀ i ∈ A, i < n) (hw : writeOf es n = some w)
    (hrange : inI64 w.ts = true) : Held es (insert n A) (join s w.held) := by
  have hkey : (join s w.held).key = max s.key w.key := key_join s w.held
  refine ⟨?_, ?_, fun i hi w' hw' => ?_, ?_⟩
  · unfold join
    split_ifs
    · exact hrange
    · exact hs.range
  · rw [hkey]
    exact hs.start.trans (le_max_left _ _)
  · rw [hkey]
    rcases Finset.mem_insert.mp hi with rfl | hi
    · obtain rfl := Option.mem_unique hw hw'
      exact le_max_right _ _
    · exact (hs.above i hi w' hw').trans (le_max_left _ _)
  · rcases lt_or_ge s.key w.key with hlt | hle
    · rw [join_of_lt hlt]
      refine .inr ⟨hs.start.trans_lt hlt, n, Finset.mem_insert_self _ _, w, hw, rfl, ?_⟩
      intro j hj w' hw' heq
      rcases Finset.mem_insert.mp hj with rfl | hj
      · exact Nat.le_refl _
      · exact absurd (hs.above j hj w' hw') (by rw [heq]; exact not_le.mpr hlt)
    · rw [join_of_le (show w.held.key ≤ s.key from hle)]
      refine hs.held.imp_right fun ⟨habove, i, hi, w', hw', heq, hfirst⟩ => ?_
      refine ⟨habove, i, Finset.mem_insert_of_mem hi, w', hw', heq, fun j hj w'' hw'' hkey' => ?_⟩
      rcases Finset.mem_insert.mp hj with rfl | hj
      · exact Nat.le_of_lt (hn i hi)
      · exact hfirst j hj w'' hw'' hkey'

theorem Held.join (hgenuine : Genuine origin es) (hown : OwnNames update (fun w => some w.replica) name es)
    (hs : Held es (known origin es n p) s) (ht : Held es (known origin es m q) t) :
    Held es (known origin es n p ∪ known origin es m q) (join s t) := by
  have hkey := key_join s t
  refine ⟨?_, ?_, fun i hi w' hw' => ?_, ?_⟩
  · unfold Lww.join
    split_ifs
    · exact ht.range
    · exact hs.range
  · rw [hkey]
    exact hs.start.trans (le_max_left _ _)
  · rw [hkey]
    rcases Finset.mem_union.mp hi with hi | hi
    · exact (hs.above i hi w' hw').trans (le_max_left _ _)
    · exact (ht.above i hi w' hw').trans (le_max_right _ _)
  · rcases lt_or_ge s.key t.key with hlt | hle
    · rw [join_of_lt hlt]
      refine ht.held.imp_right fun ⟨habove, i, hi, w, hw, heq, hfirst⟩ => ?_
      refine ⟨habove, i, Finset.mem_union_right _ hi, w, hw, heq, fun j hj w' hw' hkey' => ?_⟩
      rcases Finset.mem_union.mp hj with hj | hj
      · exact first_le hgenuine hown hi hw hfirst hj hw' hkey'
      · exact hfirst j hj w' hw' hkey'
    · rw [join_of_le hle]
      refine hs.held.imp_right fun ⟨habove, i, hi, w, hw, heq, hfirst⟩ => ?_
      refine ⟨habove, i, Finset.mem_union_left _ hi, w, hw, heq, fun j hj w' hw' hkey' => ?_⟩
      rcases Finset.mem_union.mp hj with hj | hj
      · exact hfirst j hj w' hw' hkey'
      · exact first_le hgenuine hown hi hw hfirst hj hw' hkey'

/-- **What every register holds at every moment.** -/
theorem held [DecidableEq P] (hrun : Run (each (onLine step)) (fun _ => default) es sys) (hgenuine : Genuine origin es)
    (hown : OwnNames update (fun w => some w.replica) name es) (n : Nat) (p : P) :
    Held es (known origin es n p) (register es n p) := by
  have hearlier : Earlier (actAt update origin es) := hgenuine.acts_earlier
  refine lww_replicated.rule hrun hgenuine ?_ ?_ ?_ n p
  · exact ⟨rfl, le_refl _, fun i hi => absurd hi (Finset.notMem_empty i), .inl rfl⟩
  · intro n p w hact hw hmakes ih
    rw [hmakes.1]
    exact ih.write (fun i hi => ((mem_absorbed hearlier).mp hi).lt hearlier) hw hmakes.2
  · intro n m p q s' htakes ih ih'
    rw [Takes, absorb_state ih'.range] at htakes
    rw [htakes]
    exact ih.join hgenuine hown ih'

def Greater (es : History P Lww) (i : Nat) : Prop := ∃ w, writeOf es i = some w ∧ default.key < w.key

/-- Every write is greater than the start of a register, or is made where such a write is known. -/
def AllGreater (origin : Nat → Nat) (es : History P Lww) : Prop :=
  ∀ n p, actAt update origin es n = some (.update p) →
    Greater es n ∨ ∃ i ∈ known origin es n p, Greater es i

def HoldsGreatest (es : History P Lww) (A : Finset Nat) (s : Lww) : Prop :=
  ∃ i ∈ A, ∃ w, writeOf es i = some w ∧ s = w.held ∧ ∀ j ∈ A, ∀ w', writeOf es j = some w' → w'.key ≤ w.key

/-- **Registers are joins**: one holds the greatest write it has absorbed, and merging is commutative, associative and
idempotent. -/
structure Joins (origin : Nat → Nat) (es : History P Lww) : Prop where
  same : ∀ n m p q, known origin es n p = known origin es m q → register es n p = register es m q
  laws : MergeLaws merge state default es
  greatest : ∀ n p, (known origin es n p).Nonempty → HoldsGreatest es (known origin es n p) (register es n p)

omit [Host] in
theorem Held.key_eq (hs : Held es A s) (ht : Held es A t) : s.key = t.key := by
  have hle : ∀ s t, Held es A s → Held es A t → s.key ≤ t.key := by
    intro s t hs ht
    rcases hs.held with rfl | ⟨-, i, hi, w, hw, rfl, -⟩
    · exact ht.start
    · exact ht.above i hi w hw
  exact le_antisymm (hle s t hs ht) (hle t s ht hs)

theorem laws [DecidableEq P] (hrun : Run (each (onLine step)) (fun _ => default) es sys) (hgenuine : Genuine origin es)
    (hown : OwnNames update (fun w => some w.replica) name es) : MergeLaws merge state default es := by
  have hheld := held hrun hgenuine hown
  refine ⟨fun n m p q => ?_, ?_, fun n p => ?_⟩
  · rw [merge_state (hheld m q).range, merge_state (hheld n p).range]
    have hjoin : join (register es n p) (register es m q) = join (register es m q) (register es n p) := by
      rcases lt_trichotomy (register es n p).key (register es m q).key with h | h | h
      · rw [join_of_lt h, join_of_le h.le]
      · rw [(hheld n p).eq_of_key hgenuine hown (hheld m q) h]
      · rw [join_of_le h.le, join_of_lt h]
    rw [hjoin]
  · intro n m k p q r st v tu w hst htu
    rw [merge_state (hheld m q).range] at hst
    rw [merge_state (hheld k r).range] at htu
    cases hst
    cases htu
    have hrange : inI64 (join (register es m q) (register es k r)).ts = true :=
      ((hheld m q).join hgenuine hown (hheld k r)).range
    rw [merge_state (hheld k r).range, merge_state hrange, join_assoc]
  · rw [merge_state (hheld n p).range, join_self]
    exact ⟨_, _, rfl, rfl⟩

/-- **A register holds the greatest write it has absorbed** exactly when no write loses against its start. -/
theorem joins_iff [DecidableEq P] (hrun : Run (each (onLine step)) (fun _ => default) es sys)
    (hgenuine : Genuine origin es) (hown : OwnNames update (fun w => some w.replica) name es) :
    Joins origin es ↔ AllGreater origin es := by
  have hheld := held hrun hgenuine hown
  have hearlier : Earlier (actAt update origin es) := hgenuine.acts_earlier
  constructor
  · intro h n p hact
    by_contra hnot
    obtain ⟨hn, hknown⟩ := not_or.mp hnot
    have hinsert := absorbed_update hearlier hact
    obtain ⟨i, hi, w, hw, heq, -⟩ := h.greatest (n + 1) p ⟨n, by
      rw [known, hinsert]
      exact Finset.mem_insert_self n _⟩
    -- no absorbed write is greater than the start, which is still there
    rcases (hheld (n + 1) p).held with hstart | ⟨habove, j, hj, w', hw', heq', -⟩
    · rw [hstart] at heq
      exact absurd (congrArg Lww.value heq) (by simp [default, Write.held])
    · rw [heq'] at habove
      have hgreater : Greater es j := ⟨w', hw', habove⟩
      rw [known, hinsert] at hj
      rcases Finset.mem_insert.mp hj with rfl | hj
      · exact hn hgreater
      · exact hknown ⟨j, hj, hgreater⟩
  · intro h
    have hexists : ∀ n p, (known origin es n p).Nonempty → ∃ i ∈ known origin es n p, Greater es i := by
      refine @absorbed_rule P (actAt update origin es) Unit (fun _ _ => ())
        (fun A _ => A.Nonempty → ∃ i ∈ A, Greater es i) hearlier ?_ ?_ ?_ ?_
      · exact fun p hne => absurd hne Finset.not_nonempty_empty
      · intro n p hact _ _
        rcases h n p hact with hgreater | ⟨i, hi, hgreater⟩
        · exact ⟨n, Finset.mem_insert_self n _, hgreater⟩
        · exact ⟨i, Finset.mem_insert_of_mem hi, hgreater⟩
      · intro n p q k hact ih ih' hne
        rcases Finset.union_nonempty.mp hne with hne | hne
        · obtain ⟨i, hi, hgreater⟩ := ih hne
          exact ⟨i, Finset.mem_union_left _ hi, hgreater⟩
        · obtain ⟨i, hi, hgreater⟩ := ih' hne
          exact ⟨i, Finset.mem_union_right _ hi, hgreater⟩
      · exact fun _ _ _ _ ih => ih
    refine ⟨fun n m p q hsame => ?_, laws hrun hgenuine hown, fun n p hne => ?_⟩
    · refine (hheld n p).eq_of_key hgenuine hown (hheld m q) ((hheld n p).key_eq ?_)
      rw [hsame]
      exact hheld m q
    · obtain ⟨i, hi, w, hw, hgreater⟩ := hexists n p hne
      rcases (hheld n p).held with hstart | ⟨-, j, hj, w', hw', heq, -⟩
      · have hle := (hheld n p).above i hi w hw
        rw [hstart] at hle
        exact absurd hle (not_le.mpr hgreater)
      · refine ⟨j, hj, w', hw', heq, fun j' hj' w'' hw'' => ?_⟩
        have hle := (hheld n p).above j' hj' w'' hw''
        rw [heq] at hle
        exact hle

end Run

end BuildYourOwn.Crdt.Lww
