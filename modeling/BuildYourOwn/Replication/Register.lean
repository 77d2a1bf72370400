import BuildYourOwn.Lib.Majority
import BuildYourOwn.Replication.Abd

/-!
# The `abd` register is linearizable

A tag that a client has seen is held by a majority (`Held`), because both a write and a read leave
it on the quorum they used, and no replica's tag ever goes down. The quorum of the next operation
meets that majority, whichever replicas are up by then.

**`abd_register`**: along every run with write-back on and pokes that only raise tags, a served read
returns a tag at least that of every earlier served read and committed write, and without pokes it
returns the value of the latest committed write.
-/

namespace BuildYourOwn.Replication.Abd

open Lib Topic

variable {s s' : Abd} {τ : Int ×ₗ Int} {t r : Tagged} {is : List Nat} {replicas : List Tagged}

/-! ## What the clients see -/

/-- A read that was served with `t`. -/
def ServedRead (e : Event Abd Line Value) (t : Tagged) : Prop :=
  e.input.command = "read" ∧ e.output.flagAt "served" = some true ∧
    e.output.numAt "value" = some t.value ∧ e.output.numAt "ts" = some t.ts ∧
    e.output.numAt "writer" = some t.writer

/-- A write that was committed as `t`. -/
def CommittedWrite (e : Event Abd Line Value) (t : Tagged) : Prop :=
  e.input.command = "write" ∧ e.output.flagAt "committed" = some true ∧
    int e.input.args 1 = .ok t.value ∧ e.output.numAt "ts" = some t.ts ∧
    e.output.numAt "writer" = some t.writer

def committedValue (e : Event Abd Line Value) : Option Int :=
  if e.input.command = "write" ∧ e.output.flagAt "committed" = some true then
    (int e.input.args 1).toOption
  else none

def lastCommitted (es : List (Event Abd Line Value)) : Int :=
  es.foldl (fun v e => (committedValue e).getD v) 0

/-- The lines of the runs: no second `init`, write-back stays on, and a poke only raises the tag of
the replica it touches. -/
structure Allowed (s : Abd) (l : Line) : Prop where
  started : l.command ≠ "init"
  writeback : l.command ≠ "writeback"
  raises : l.command = "poke" → ∀ i r ts writer, uint l.args 0 = .ok i → s.replicas[i]? = some r →
    int l.args 1 = .ok ts → int l.args 2 = .ok writer → r.tag ≤ toLex (ts, writer)

/-! ## Tags -/

theorem le_higher_left (b r : Tagged) : b.tag ≤ (higher b r).tag := by
  unfold higher
  split
  · rename_i h
    exact le_of_lt h
  · exact le_refl _

theorem le_higher_right (b r : Tagged) : r.tag ≤ (higher b r).tag := by
  unfold higher
  split
  · exact le_refl _
  · rename_i h
    exact not_lt.mp h

theorem higher_cases (b r : Tagged) : higher b r = b ∨ higher b r = r := by
  unfold higher
  split
  · exact .inr rfl
  · exact .inl rfl

theorem higher_higher (b r : Tagged) : higher (higher b r) r = higher b r := by
  have h : ¬ (higher b r).tag < r.tag := not_lt.mpr (le_higher_right b r)
  exact if_neg h

theorem le_ask (replicas : List Tagged) (b : Tagged) (i : Nat) : b.tag ≤ (ask replicas b i).tag := by
  unfold ask
  cases replicas[i]? with
  | none => exact le_refl _
  | some r => exact le_higher_left b r

/-- The loop of `read_quorum` from `b` on: no lower than `b` or than any replica it asks. -/
theorem le_foldl_ask (is : List Nat) (b : Tagged) : b.tag ≤ (is.foldl (ask replicas) b).tag ∧
    ∀ i ∈ is, ∀ r, replicas[i]? = some r → r.tag ≤ (is.foldl (ask replicas) b).tag := by
  induction is generalizing b with
  | nil => exact ⟨le_refl _, List.forall_mem_nil _⟩
  | cons i is ih =>
    obtain ⟨hb, his⟩ := ih (ask replicas b i)
    refine ⟨le_trans (le_ask replicas b i) hb, fun j hj r hr => ?_⟩
    rcases List.mem_cons.mp hj with rfl | hj
    · have hask : ask replicas b j = higher b r := by rw [ask, hr]
      exact le_trans (hask ▸ le_higher_right b r) hb
    · exact his j hj r hr

theorem le_best {i : Nat} (hi : i ∈ is) (hr : replicas[i]? = some r) : r.tag ≤ (best replicas is).tag :=
  (le_foldl_ask is Tagged.default).2 i hi r hr

theorem foldl_ask_mem (is : List Nat) (b : Tagged) :
    is.foldl (ask replicas) b = b ∨ is.foldl (ask replicas) b ∈ replicas := by
  induction is generalizing b with
  | nil => exact .inl rfl
  | cons i is ih =>
    have hask : ask replicas b i = b ∨ ask replicas b i ∈ replicas := by
      unfold ask
      cases hr : replicas[i]? with
      | none => exact .inl rfl
      | some r =>
        rcases higher_cases b r with h | h
        · exact .inl h
        · dsimp only
          rw [h]
          exact .inr (List.mem_of_getElem? hr)
    rcases ih (ask replicas b i) with h | h
    · rw [List.foldl_cons, h]
      exact hask
    · exact .inr h

theorem best_mem (replicas : List Tagged) (is : List Nat) :
    best replicas is = Tagged.default ∨ best replicas is ∈ replicas :=
  foldl_ask_mem is Tagged.default

theorem putOn_get (t : Tagged) (j : Nat) (is : List Nat) (replicas : List Tagged) :
    (putOn t replicas is)[j]? = replicas[j]?.map fun r => if j ∈ is then higher r t else r := by
  induction is generalizing replicas with
  | nil => simp [putOn]
  | cons i is ih =>
    have ih := ih (replicas.modify i fun r => higher r t)
    unfold putOn at ih ⊢
    rw [List.foldl_cons, ih, List.getElem?_modify]
    cases replicas[j]? with
    | none => rfl
    | some r =>
      by_cases hij : i = j
      · by_cases hj : j ∈ is
        · simp [hij, hj, higher_higher]
        · simp [hij, hj]
      · by_cases hj : j ∈ is
        · simp [hij, hj]
        · simp [hij, hj, Ne.symm hij]

/-! ## Quorums -/

theorem reachable_spec (h : s.reachable = some is) :
    is.Nodup ∧ is.length = s.quorum ∧ ∀ i ∈ is, i < s.replicas.length := by
  unfold reachable at h
  split at h
  · rename_i hquorum
    cases h
    have hlive : s.live.Nodup := List.Nodup.filter _ List.nodup_range
    refine ⟨hlive.sublist (List.take_sublist ..), ?_, fun i hi => ?_⟩
    · rw [List.length_take]
      exact min_eq_left hquorum
    · exact List.mem_range.mp (List.mem_filter.mp (List.mem_of_mem_take hi)).1
  · cases h

/-- A majority of the replicas holds at least the tag `τ`. -/
def Held (replicas : List Tagged) (τ : Int ×ₗ Int) : Prop :=
  ∃ q ⊆ Finset.range replicas.length, replicas.length / 2 + 1 ≤ q.card ∧
    ∀ i ∈ q, ∃ r, replicas[i]? = some r ∧ τ ≤ r.tag

def Rises (replicas replicas' : List Tagged) : Prop :=
  replicas'.length = replicas.length ∧
    ∀ (i : Nat) r, replicas[i]? = some r → ∃ r', replicas'[i]? = some r' ∧ r.tag ≤ r'.tag

theorem Held.rises {replicas' : List Tagged} (h : Held replicas τ) (hr : Rises replicas replicas') :
    Held replicas' τ := by
  obtain ⟨q, hsub, hcard, hall⟩ := h
  refine ⟨q, by rwa [hr.1], by rwa [hr.1], fun i hi => ?_⟩
  obtain ⟨r, hget, hle⟩ := hall i hi
  obtain ⟨r', hget', hle'⟩ := hr.2 i r hget
  exact ⟨r', hget', le_trans hle hle'⟩

/-- **A read finds at least what a majority holds.** -/
theorem held_best (h : Held s.replicas τ) (hreach : s.reachable = some is) : τ ≤ (best s.replicas is).tag := by
  obtain ⟨q, hsub, hcard, hall⟩ := h
  obtain ⟨hnodup, hlength, hrange⟩ := reachable_spec hreach
  have hquorum : is.toFinset ⊆ Finset.range s.replicas.length := fun i hi =>
    Finset.mem_range.mpr (hrange i (List.mem_toFinset.mp hi))
  have hcards : (Finset.range s.replicas.length).card = s.replicas.length := Finset.card_range _
  obtain ⟨i, hiq, his⟩ := majorities_meet hsub hquorum (by rw [hcards]; exact hcard) (by
    rw [hcards, List.toFinset_card_of_nodup hnodup, hlength]
    exact le_refl _)
  obtain ⟨r, hget, hle⟩ := hall i hiq
  exact le_trans hle (le_best (List.mem_toFinset.mp his) hget)

theorem length_putOn (t : Tagged) (is : List Nat) (replicas : List Tagged) :
    (putOn t replicas is).length = replicas.length := by
  induction is generalizing replicas with
  | nil => rfl
  | cons i is ih => exact (ih _).trans (List.length_modify ..)

theorem rises_putOn (t : Tagged) (replicas : List Tagged) (is : List Nat) : Rises replicas (putOn t replicas is) := by
  refine ⟨length_putOn t is replicas, fun i r hr => ?_⟩
  refine ⟨if i ∈ is then higher r t else r, by rw [putOn_get, hr]; rfl, ?_⟩
  split
  · exact le_higher_left r t
  · exact le_refl _

theorem held_putOn (hreach : s.reachable = some is) : Held (putOn t s.replicas is) t.tag := by
  obtain ⟨hnodup, hlength, hrange⟩ := reachable_spec hreach
  refine ⟨is.toFinset, fun i hi => ?_, ?_, fun i hi => ?_⟩
  · rw [length_putOn]
    exact Finset.mem_range.mpr (hrange i (List.mem_toFinset.mp hi))
  · rw [length_putOn, List.toFinset_card_of_nodup hnodup, hlength]
    exact le_refl _
  · have hmem := List.mem_toFinset.mp hi
    have hget := List.getElem?_eq_getElem (hrange i hmem)
    exact ⟨_, by rw [putOn_get, hget, Option.map_some, if_pos hmem], le_higher_right _ t⟩

/-! ## What one line does -/

inductive Moves (s : Abd) (l : Line) (s' : Abd) (v : Value) : Prop
  | quiet (hsame : s'.replicas = s.replicas)
      (hread : l.command = "read" → v.flagAt "served" ≠ some true)
      (hwrite : l.command = "write" → v.flagAt "committed" ≠ some true)
  | poke (i : Nat) (r t : Tagged) (hcommand : l.command = "poke") (hr : s.replicas[i]? = some r)
      (hle : r.tag ≤ t.tag) (hset : s'.replicas = s.replicas.set i t)
  | read (is : List Nat) (hcommand : l.command = "read") (hreach : s.reachable = some is)
      (hput : s'.replicas = putOn (best s.replicas is) s.replicas is)
      (hv : v = served (best s.replicas is) true)
  | write (is : List Nat) (t : Tagged) (hcommand : l.command = "write")
      (hreach : s.reachable = some is) (hts : t.ts = (best s.replicas is).ts + 1)
      (hvalue : int l.args 1 = .ok t.value) (hput : s'.replicas = putOn t s.replicas is)
      (hv : v.flagAt "committed" = some true ∧ v.numAt "ts" = some t.ts ∧
        v.numAt "writer" = some t.writer)

theorem moves_read (hback : s.writeback = true) {l : Line} (hl : l.command = "read") :
    Moves s l s.read.1 s.read.2 ∧ s.read.1.writeback = true := by
  unfold Abd.read readQuorum
  cases hreach : s.reachable with
  | none =>
    refine ⟨.quiet rfl (fun _ => ?_) (fun hw => ?_), hback⟩
    · exact fun h => nomatch Option.some.inj h
    · exact absurd (hl.symm.trans hw) (by decide)
  | some is =>
    have hagain : writeQuorum { s with messages := s.messages + is.length } (best s.replicas is) =
        some ({ s with
          replicas := putOn (best s.replicas is) s.replicas is
          messages := s.messages + is.length + is.length }, is.length) := by
      unfold writeQuorum
      rw [show reachable { s with messages := s.messages + is.length } = some is from hreach]
      rfl
    simp only [Option.map_some]
    rw [if_pos hback, hagain]
    exact ⟨.read is hl hreach rfl rfl, hback⟩

theorem moves_write {l : Line} {v : Value} {writer value : Int} (hl : l.command = "write")
    (hvalue : int l.args 1 = .ok value) (hs : s.write writer value = some (s', v)) :
    Moves s l s' v ∧ s'.writeback = s.writeback := by
  unfold Abd.write readQuorum at hs
  cases hreach : s.reachable with
  | none =>
    simp only [hreach, Option.map_none, Option.some.injEq, Prod.mk.injEq] at hs
    obtain ⟨rfl, rfl⟩ := hs
    refine ⟨.quiet rfl (fun hr => ?_) (fun _ h => ?_), rfl⟩
    · exact absurd (hl.symm.trans hr) (by decide)
    · cases Option.some.inj h
  | some is =>
    simp only [hreach, Option.map_some] at hs
    obtain ⟨ts, hts, hs⟩ := Option.bind_eq_some_iff.mp hs
    obtain ⟨-, rfl⟩ := addI64_eq_some.mp hts
    unfold writeQuorum at hs
    rw [show reachable { s with messages := s.messages + is.length } = some is from hreach] at hs
    simp only [Option.map_some, Option.some.injEq, Prod.mk.injEq] at hs
    obtain ⟨rfl, rfl⟩ := hs
    exact ⟨.write is ⟨_, writer, value⟩ hl hreach rfl hvalue rfl ⟨rfl, rfl, rfl⟩, rfl⟩

section

variable [Host] {l : Line} {v : Value}

omit [Host] in
theorem moves_other {command : String} {args : List String} (hread : command ≠ "read")
    (hwrite : command ≠ "write") (hsame : s'.replicas = s.replicas) : Moves s ⟨command, args⟩ s' v :=
  .quiet hsame (fun h => absurd h hread) (fun h => absurd h hwrite)

omit [Host] in
theorem about_eq_some {args : List String} {k : Nat → Handled Abd} (hs : about s args k = some (s', v)) :
    s' = s ∨ ∃ i, uint args 0 = .ok i ∧ i < s.replicas.length ∧ k i = some (s', v) := by
  unfold about at hs
  rcases arg_eq_some.mp hs with ⟨-, rfl⟩ | ⟨i, hi, hs⟩
  · exact .inl rfl
  · split at hs
    · cases hs
      exact .inl rfl
    · rename_i hlt
      exact .inr ⟨i, hi, Nat.not_le.mp hlt, hs⟩

theorem step_moves (hback : s.writeback = true) (hl : Allowed s l)
    (hs : onLine step s l = some (s', v)) : Moves s l s' v ∧ s'.writeback = true := by
  obtain ⟨command, args⟩ := l
  unfold onLine step at hs
  dsimp only at hs
  split at hs
  case h_1 => exact absurd rfl hl.started
  case h_2 => exact absurd rfl hl.writeback
  case h_3 =>
    rcases about_eq_some hs with rfl | ⟨i, -, -, hs⟩
    · exact ⟨moves_other (by decide) (by decide) rfl, hback⟩
    · obtain ⟨rfl, -⟩ := Prod.mk.inj (Option.some.inj hs)
      exact ⟨moves_other (by decide) (by decide) rfl, hback⟩
  case h_4 =>
    rcases about_eq_some hs with rfl | ⟨i, -, -, hs⟩
    · exact ⟨moves_other (by decide) (by decide) rfl, hback⟩
    · obtain ⟨rfl, -⟩ := Prod.mk.inj (Option.some.inj hs)
      exact ⟨moves_other (by decide) (by decide) rfl, hback⟩
  case h_5 =>
    have no_flag : ∀ {i : Nat}, int args i = .error v → v.flagAt "committed" ≠ some true := by
      intro i hbad
      obtain ⟨message, rfl⟩ := int_error hbad
      exact flagAt_err message "committed"
    rcases arg_eq_some.mp hs with ⟨hbad, rfl⟩ | ⟨writer, -, hs⟩
    · exact ⟨.quiet rfl (fun h => absurd h (by decide : "write" ≠ "read"))
        (fun _ => no_flag hbad), hback⟩
    · rcases arg_eq_some.mp hs with ⟨hbad, rfl⟩ | ⟨value, hvalue, hs⟩
      · exact ⟨.quiet rfl (fun h => absurd h (by decide : "write" ≠ "read"))
          (fun _ => no_flag hbad), hback⟩
      · obtain ⟨hmoves, hsame⟩ := moves_write (l := ⟨"write", args⟩) rfl hvalue hs
        exact ⟨hmoves, hsame.trans hback⟩
  case h_6 =>
    obtain ⟨rfl, rfl⟩ := Prod.mk.inj (Option.some.inj hs)
    exact moves_read hback rfl
  case h_7 =>
    rcases about_eq_some hs with rfl | ⟨i, hi, hlt, hs⟩
    · exact ⟨moves_other (by decide) (by decide) rfl, hback⟩
    rcases arg_eq_some.mp hs with ⟨-, rfl⟩ | ⟨ts, hts, hs⟩
    · exact ⟨moves_other (by decide) (by decide) rfl, hback⟩
    rcases arg_eq_some.mp hs with ⟨-, rfl⟩ | ⟨writer, hwriter, hs⟩
    · exact ⟨moves_other (by decide) (by decide) rfl, hback⟩
    rcases arg_eq_some.mp hs with ⟨-, rfl⟩ | ⟨value, -, hs⟩
    · exact ⟨moves_other (by decide) (by decide) rfl, hback⟩
    obtain ⟨rfl, -⟩ := Prod.mk.inj (Option.some.inj hs)
    have hget := List.getElem?_eq_getElem hlt
    exact ⟨.poke i _ ⟨ts, writer, value⟩ rfl hget (hl.raises rfl i _ ts writer hi hget hts hwriter) rfl,
      hback⟩
  case h_8 =>
    obtain ⟨rfl, -⟩ := Prod.mk.inj (Option.some.inj hs)
    exact ⟨moves_other (by decide) (by decide) rfl, hback⟩
  case h_9 _ _ _ _ hwrite hread _ _ =>
    obtain ⟨rfl, -⟩ := Prod.mk.inj (Option.some.inj hs)
    exact ⟨moves_other hread hwrite rfl, hback⟩

end

/-! ## Observed tags -/

variable {l : Line} {v : Value}

theorem Moves.rises (h : Moves s l s' v) : Rises s.replicas s'.replicas := by
  cases h with
  | quiet hsame _ _ =>
    rw [hsame]
    exact ⟨rfl, fun i r hr => ⟨r, hr, le_refl _⟩⟩
  | poke i r t _ hr hle hset =>
    rw [hset]
    refine ⟨List.length_set .., fun j r' hr' => ?_⟩
    by_cases hij : i = j
    · subst hij
      obtain rfl := Option.mem_unique hr hr'
      exact ⟨t, List.getElem?_set_self (List.getElem?_eq_some_iff.mp hr).1, hle⟩
    · exact ⟨r', by rw [List.getElem?_set_ne hij, hr'], le_refl _⟩
  | read is _ _ hput _ =>
    rw [hput]
    exact rises_putOn ..
  | write is t _ _ _ _ hput _ =>
    rw [hput]
    exact rises_putOn ..

theorem ServedRead.eq_of_served {e : Event Abd Line Value} {found : Tagged} {b : Bool}
    (h : ServedRead e t) (he : e.output = served found b) : t = found := by
  obtain ⟨-, -, hvalue, hts, hwriter⟩ := h
  rw [he] at hvalue hts hwriter
  obtain ⟨ts, writer, value⟩ := t
  obtain rfl : found.value = value := Option.some.inj hvalue
  obtain rfl : found.ts = ts := Option.some.inj hts
  obtain rfl : found.writer = writer := Option.some.inj hwriter
  rfl

theorem Moves.of_servedRead (h : Moves s l s' v) (hread : ServedRead ⟨s, l, v, s'⟩ t) :
    ∃ is, s.reachable = some is ∧ t = best s.replicas is ∧ s'.replicas = putOn t s.replicas is := by
  have hcommand : l.command = "read" := hread.1
  cases h with
  | quiet _ hr _ => exact absurd hread.2.1 (hr hcommand)
  | poke _ _ _ hc _ _ _ => exact absurd (hc.symm.trans hcommand) (by decide)
  | write _ _ hc _ _ _ _ _ => exact absurd (hc.symm.trans hcommand) (by decide)
  | read is _ hreach hput hv =>
    obtain rfl := hread.eq_of_served hv
    exact ⟨is, hreach, rfl, hput⟩

theorem Moves.of_committedWrite (h : Moves s l s' v) (hwrite : CommittedWrite ⟨s, l, v, s'⟩ t) :
    ∃ is, s.reachable = some is ∧ t.ts = (best s.replicas is).ts + 1 ∧ s'.replicas = putOn t s.replicas is := by
  have hcommand : l.command = "write" := hwrite.1
  cases h with
  | quiet _ _ hw => exact absurd hwrite.2.1 (hw hcommand)
  | poke _ _ _ hc _ _ _ => exact absurd (hc.symm.trans hcommand) (by decide)
  | read _ hc _ _ _ => exact absurd (hc.symm.trans hcommand) (by decide)
  | write is t' _ hreach hts hvalue hput hv =>
    obtain ⟨-, -, hvalue', hts', hwriter'⟩ := hwrite
    have heq : t = t' := by
      obtain ⟨ts, writer, value⟩ := t
      obtain ⟨ts', writer', value'⟩ := t'
      obtain rfl : value' = value := Except.ok.inj (hvalue.symm.trans hvalue')
      obtain rfl : ts' = ts := Option.mem_unique hv.2.1 hts'
      obtain rfl : writer' = writer := Option.mem_unique hv.2.2 hwriter'
      rfl
    exact ⟨is, hreach, heq ▸ hts, heq ▸ hput⟩

/-- Every tag that a client has seen is held by a majority. -/
def Seen (es : List (Event Abd Line Value)) (s : Abd) : Prop :=
  ∀ e ∈ es, ∀ t, ServedRead e t ∨ CommittedWrite e t → Held s.replicas t.tag

theorem Seen.step {es : List (Event Abd Line Value)} (h : Seen es s) (hm : Moves s l s' v) :
    Seen (es ++ [⟨s, l, v, s'⟩]) s' := by
  intro e he t ht
  rcases List.mem_append.mp he with he | he
  · exact (h e he t ht).rises hm.rises
  · obtain rfl := List.mem_singleton.mp he
    rcases ht with hread | hwrite
    · obtain ⟨is, hreach, -, hput⟩ := hm.of_servedRead hread
      rw [hput]
      exact held_putOn hreach
    · obtain ⟨is, hreach, -, hput⟩ := hm.of_committedWrite hwrite
      rw [hput]
      exact held_putOn hreach

/-! ## Values, without pokes -/

/-- `r` is older than `t`, or is `t`. -/
def Below (t r : Tagged) : Prop := r.tag ≤ t.tag ∧ (r.tag = t.tag → r = t)

/-- A majority holds `t`, and nothing newer was ever written. -/
structure Latest (replicas : List Tagged) (t : Tagged) : Prop where
  held : replicas ≠ [] → Held replicas t.tag
  start : Below t Tagged.default
  below : ∀ r ∈ replicas, Below t r

theorem below_self (t : Tagged) : Below t t := ⟨le_refl _, fun _ => rfl⟩

theorem Below.trans_lt {t' : Tagged} (h : Below t r) (hlt : t.tag < t'.tag) : Below t' r :=
  ⟨le_of_lt (lt_of_le_of_lt h.1 hlt), fun he => absurd (he ▸ h.1) (not_le_of_gt hlt)⟩

theorem mem_putOn (h : r ∈ putOn t replicas is) : r = t ∨ r ∈ replicas := by
  obtain ⟨j, hj⟩ := List.mem_iff_getElem?.mp h
  rw [putOn_get] at hj
  obtain ⟨r', hr', rfl⟩ := Option.map_eq_some_iff.mp hj
  have hmem := List.mem_of_getElem? hr'
  split
  · rcases higher_cases r' t with h | h
    · rw [h]
      exact .inr hmem
    · exact .inl h
  · exact .inr hmem

theorem Latest.best (h : Latest s.replicas t) (hreach : s.reachable = some is) : best s.replicas is = t := by
  have hbelow : Below t (Abd.best s.replicas is) := by
    rcases best_mem s.replicas is with hb | hb
    · exact hb ▸ h.start
    · exact h.below _ hb
  have hne : s.replicas ≠ [] := fun hnil => by
    obtain ⟨-, hlength, hrange⟩ := reachable_spec hreach
    obtain ⟨i, hi⟩ := List.exists_mem_of_length_pos (l := is) (by rw [hlength]; exact Nat.succ_pos _)
    exact absurd (hrange i hi) (by rw [hnil]; exact Nat.not_lt_zero i)
  exact hbelow.2 (le_antisymm hbelow.1 (held_best (h.held hne) hreach))

theorem Latest.putOn {t' : Tagged} (h : Latest s.replicas t) (hreach : s.reachable = some is)
    (ht : t' = t ∨ t.tag < t'.tag) : Latest (putOn t' s.replicas is) t' := by
  have hbelow : ∀ r, Below t r → Below t' r := by
    intro r hr
    rcases ht with rfl | hlt
    · exact hr
    · exact hr.trans_lt hlt
  refine ⟨fun _ => held_putOn hreach, hbelow _ h.start, fun r hr => ?_⟩
  rcases mem_putOn hr with rfl | hr
  · exact below_self r
  · exact hbelow r (h.below r hr)

theorem Latest.step (h : Latest s.replicas t) (hm : Moves s l s' v) (hl : l.command ≠ "poke") :
    ∃ t', t'.value = (committedValue ⟨s, l, v, s'⟩).getD t.value ∧ Latest s'.replicas t' := by
  unfold committedValue
  cases hm with
  | poke _ _ _ hc _ _ _ => exact absurd hc hl
  | quiet hsame _ hwrite =>
    rw [if_neg fun hw => hwrite hw.1 hw.2]
    exact ⟨t, rfl, hsame ▸ h⟩
  | read is hc hreach hput _ =>
    rw [if_neg fun hw => absurd (hc.symm.trans hw.1) (by decide)]
    rw [h.best hreach] at hput
    exact ⟨t, rfl, hput ▸ h.putOn hreach (.inl rfl)⟩
  | write is t' hc hreach hts hvalue hput hv =>
    rw [if_pos ⟨hc, hv.1⟩, hvalue]
    rw [h.best hreach] at hts
    have hlt : t.tag < t'.tag := by
      refine Prod.Lex.toLex_lt_toLex.mpr (.inl ?_)
      rw [hts]
      exact Int.lt_succ _
    exact ⟨t', rfl, hput ▸ h.putOn hreach (.inr hlt)⟩

theorem lastCommitted_append (es : List (Event Abd Line Value)) (e : Event Abd Line Value) :
    lastCommitted (es ++ [e]) = (committedValue e).getD (lastCommitted es) := by
  unfold lastCommitted
  rw [List.foldl_append]
  rfl

theorem latest_init (n : Nat) : Latest (init n).replicas Tagged.default := by
  have hlength : (init n).replicas.length = n := List.length_replicate
  refine ⟨fun hne => ⟨Finset.range n, ?_, ?_, fun i hi => ?_⟩, below_self _, fun r hr => ?_⟩
  · intro i hi
    rwa [hlength]
  · have hpos := List.length_pos_iff.mpr hne
    rw [Finset.card_range]
    omega
  · exact ⟨_, List.getElem?_replicate_of_lt (Finset.mem_range.mp hi), le_refl _⟩
  · rw [List.eq_of_mem_replicate hr]
    exact below_self _

/-! ## Runs -/

section

variable [Host] {es : List (Event Abd Line Value)} {n : Nat}

theorem seen_run (hrun : Run (onLine step) (init n) es s)
    (hes : ∀ e ∈ es, Allowed e.before e.input) : s.writeback = true ∧ Seen es s :=
  hrun.history_invariant (P := fun es s => s.writeback = true ∧ Seen es s)
    (G := fun e => Allowed e.before e.input) ⟨rfl, List.forall_mem_nil _⟩
    (fun _ _ _ _ _ h hl hs => by
      obtain ⟨hm, hback⟩ := step_moves h.1 hl hs
      exact ⟨hback, h.2.step hm⟩) hes

theorem latest_run (hrun : Run (onLine step) (init n) es s)
    (hes : ∀ e ∈ es, Allowed e.before e.input ∧ e.input.command ≠ "poke") :
    s.writeback = true ∧ ∃ t, t.value = lastCommitted es ∧ Latest s.replicas t :=
  hrun.history_invariant
    (P := fun es s => s.writeback = true ∧ ∃ t, t.value = lastCommitted es ∧ Latest s.replicas t)
    (G := fun e => Allowed e.before e.input ∧ e.input.command ≠ "poke")
    ⟨rfl, Tagged.default, rfl, latest_init n⟩
    (fun _ _ _ _ _ h hl hs => by
      obtain ⟨hback, t, hvalue, hlatest⟩ := h
      obtain ⟨hm, hback'⟩ := step_moves hback hl.1 hs
      obtain ⟨t', hvalue', hlatest'⟩ := hlatest.step hm hl.2
      rw [hvalue, ← lastCommitted_append] at hvalue'
      exact ⟨hback', t', hvalue', hlatest'⟩) hes

/-- **The `abd` register**: no served read returns a tag lower than one that an earlier read
returned or an earlier write committed, and without pokes it returns the latest committed value. -/
theorem abd_register (hrun : Run (onLine step) (init n) es s)
    (hes : ∀ e ∈ es, Allowed e.before e.input) :
    (∀ es₁ e₁ es₂ e₂ es₃ t₁ t₂, es = es₁ ++ e₁ :: es₂ ++ e₂ :: es₃ →
      ServedRead e₁ t₁ ∨ CommittedWrite e₁ t₁ → ServedRead e₂ t₂ → t₁.tag ≤ t₂.tag) ∧
    ((∀ e ∈ es, e.input.command ≠ "poke") → ∀ es₁ e es₂ t, es = es₁ ++ e :: es₂ →
      ServedRead e t → t.value = lastCommitted es₁) := by
  constructor
  · intro es₁ e₁ es₂ e₂ es₃ t₁ t₂ hsplit hseen hread
    have hbefore := hrun.split hsplit
    have hmem : ∀ e ∈ es₁ ++ e₁ :: es₂, e ∈ es := fun e he => hsplit ▸ List.mem_append_left _ he
    obtain ⟨hback, hheld⟩ := seen_run hbefore fun e he => hes e (hmem e he)
    have he₂ : e₂ ∈ es := hsplit ▸ List.mem_append_right _ List.mem_cons_self
    obtain ⟨hm, -⟩ := step_moves hback (hes e₂ he₂) (hrun.step_of_mem he₂)
    obtain ⟨is, hreach, rfl, -⟩ := hm.of_servedRead hread
    exact held_best (hheld e₁ (by simp) t₁ hseen) hreach
  · intro hnopoke es₁ e es₂ t hsplit hread
    have hmem : ∀ e ∈ es₁, e ∈ es := fun e he => hsplit ▸ List.mem_append_left _ he
    obtain ⟨hback, t', hvalue, hlatest⟩ := latest_run (hrun.split hsplit) fun e he =>
      ⟨hes e (hmem e he), hnopoke e (hmem e he)⟩
    have he : e ∈ es := hsplit ▸ List.mem_append_right _ List.mem_cons_self
    obtain ⟨hm, -⟩ := step_moves hback (hes e he) (hrun.step_of_mem he)
    obtain ⟨is, hreach, rfl, -⟩ := hm.of_servedRead hread
    rw [hlatest.best hreach, hvalue]

end

/-! Three replicas: a poke leaves a later tag on the last one, the first write does not see it, and
the second read is the first one that does. -/

@[reducible] def noJson : Host := hostOf []

def pokeThenRead : List Line :=
  [⟨"poke", ["2", "4", "7", "9"]⟩, ⟨"write", ["1", "5"]⟩, ⟨"read", []⟩, ⟨"down", ["0"]⟩,
    ⟨"read", []⟩]

def allowedLine (e : Event Abd Line Value) : Bool :=
  e.input.command != "init" && e.input.command != "writeback" &&
    match uint e.input.args 0, int e.input.args 1, int e.input.args 2 with
    | .ok i, .ok ts, .ok writer =>
      (e.before.replicas[i]?).all fun r => decide (r.tag ≤ toLex (ts, writer))
    | _, _, _ => true

theorem allowed_of_line {e : Event Abd Line Value} (h : allowedLine e = true) : Allowed e.before e.input := by
  unfold allowedLine at h
  simp only [Bool.and_eq_true, bne_iff_ne, ne_eq] at h
  obtain ⟨⟨hinit, hback⟩, hraise⟩ := h
  refine ⟨hinit, hback, fun _ i r ts writer hi hr hts hwriter => ?_⟩
  simp only [hi, hts, hwriter, hr, Option.all_some, decide_eq_true_eq] at hraise
  exact hraise

theorem abd_register_poke : ∃ es₁ e₁ es₂ e₂ s, Run (onLine (@step noJson)) (init 3)
    (es₁ ++ e₁ :: es₂ ++ [e₂]) s ∧ (es₁ ++ e₁ :: es₂ ++ [e₂]).map Event.input = pokeThenRead ∧
    ServedRead e₁ ⟨1, 1, 5⟩ ∧ ServedRead e₂ ⟨4, 7, 9⟩ ∧
    Tagged.tag ⟨1, 1, 5⟩ ≤ Tagged.tag ⟨4, 7, 9⟩ := by
  let _ : Host := noJson
  obtain ⟨es₁, e₁, es₂, e₂, s, hrun, hinputs, hall, h₁, h₂⟩ : ∃ es₁ e₁ es₂ e₂ s,
      Run (onLine step) (init 3) (es₁ ++ e₁ :: es₂ ++ [e₂]) s ∧
      (es₁ ++ e₁ :: es₂ ++ [e₂]).map Event.input = pokeThenRead ∧
      (es₁ ++ e₁ :: es₂ ++ [e₂]).all allowedLine = true ∧
      ServedRead e₁ ⟨1, 1, 5⟩ ∧ ServedRead e₂ ⟨4, 7, 9⟩ :=
    ⟨[_, _], _, [_], _, _, run_of_exec pokeThenRead rfl, rfl, rfl, ⟨rfl, rfl, rfl, rfl, rfl⟩,
      ⟨rfl, rfl, rfl, rfl, rfl⟩⟩
  have hes : ∀ e ∈ es₁ ++ e₁ :: es₂ ++ [e₂], Allowed e.before e.input := fun e he =>
    allowed_of_line (List.all_eq_true.mp hall e he)
  exact ⟨es₁, e₁, es₂, e₂, s, hrun, hinputs, h₁, h₂,
    (abd_register hrun hes).1 es₁ e₁ es₂ e₂ [] _ _ rfl (.inl h₁) h₂⟩

end BuildYourOwn.Replication.Abd
