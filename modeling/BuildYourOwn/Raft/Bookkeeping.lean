import BuildYourOwn.Raft.Commitment

/-!
# What a leader knows of its followers

Runs of the `Commitment` machine from any `init`: `append`, and `ack` and `reject` of any peer in any order,
between queries.
-/

namespace BuildYourOwn.Raft.Commitment

open Lib Topic

variable {s s' : Commitment} {l : Line} {v : Value}

/-! ## What one command does -/

/-- What a peer is known to hold once it has acknowledged `index`. -/
def matched (s : Commitment) (peer : String) (index : Int) : Int := max (s.matchIndex.getD peer 0) index

/-- The two maps after an `ack`. -/
def acked (s : Commitment) (peer : String) (index : Int) : Commitment :=
  { s with
    matchIndex := s.matchIndex.insert peer (s.matched peer index)
    nextIndex := s.nextIndex.insert peer (max (s.nextIndex.getD peer 1) (s.matched peer index + 1)) }

/-- The maps after a `reject`. -/
def rejected (s : Commitment) (peer : String) (conflict : Int) : Commitment :=
  { s with nextIndex := s.nextIndex.insert peer (max conflict 1) }

variable {peer : String} {index : Int}

theorem ack_cases (h : s.ack peer index = some (s', v)) :
    s' = s ∨ s.matchIndex.contains peer = true ∧ s' = (s.acked peer index).advanceCommit := by
  unfold ack at h
  split at h
  · rename_i hpeer
    dsimp only at h
    split at h
    · cases h
    · rename_i above habove
      obtain ⟨-, rfl⟩ := addI64_eq_some.mp habove
      cases h
      exact .inr ⟨hpeer, rfl⟩
  · cases h
    exact .inl rfl

theorem reject_cases {conflict : Int} (h : s.reject peer conflict = (s', v)) :
    s' = s ∨ s' = s.rejected peer conflict := by
  unfold reject at h
  split at h
  · exact .inr (Prod.mk.inj h).1.symm
  · exact .inl (Prod.mk.inj h).1.symm

/-- What a command other than `init` and `append` leaves. -/
inductive Moves (s : Commitment) (l : Line) : Commitment → Prop
  | still : Moves s l s
  | ack {peer : String} {index : Int} (hl : l.command = "ack") (hindex : int l.args 1 = .ok index)
      (hpeer : s.matchIndex.contains peer = true) : Moves s l (s.acked peer index).advanceCommit
  | reject {peer : String} {conflict : Int} (hl : l.command = "reject") (hpeer : word l.args 0 = .ok peer)
      (hconflict : int l.args 1 = .ok conflict) : Moves s l (s.rejected peer conflict)

theorem step_moves [Host] (hl : l.command ≠ "init") (h : onLine step s l = some (s', v)) :
    (l.command = "append" ∧ s' = { s with log := s.log ++ [s.term] }) ∨
      (l.command ≠ "append" ∧ Moves s l s') := by
  by_cases happend : l.command = "append"
  · unfold onLine at h
    rw [happend] at h
    exact .inl ⟨happend, (state_eq h)⟩
  refine .inr ⟨happend, ?_⟩
  unfold onLine step at h
  split at h
  case h_1 hcommand => exact absurd hcommand hl
  case h_2 hcommand => exact absurd hcommand happend
  case h_3 hcommand =>
    rcases arg_eq_some.mp h with ⟨-, rfl⟩ | ⟨peer, -, h⟩
    · exact .still
    rcases arg_eq_some.mp h with ⟨-, rfl⟩ | ⟨index, hindex, h⟩
    · exact .still
    rcases ack_cases h with rfl | ⟨hpeer, rfl⟩
    · exact .still
    · exact .ack hcommand hindex hpeer
  case h_4 hcommand =>
    rcases arg_eq_some.mp h with ⟨-, rfl⟩ | ⟨peer, hpeer, h⟩
    · exact .still
    rcases arg_eq_some.mp h with ⟨-, rfl⟩ | ⟨conflict, hconflict, h⟩
    · exact .still
    rcases reject_cases (Option.some.inj h) with rfl | rfl
    · exact .still
    · exact .reject hcommand hpeer hconflict
  case h_5 =>
    rcases arg_eq_some.mp h with ⟨-, rfl⟩ | ⟨index, -, h⟩
    · exact .still
    · cases h
      exact .still
  case h_6 =>
    rcases arg_eq_some.mp h with ⟨-, rfl⟩ | ⟨index, -, h⟩
    · exact .still
    split at h <;> obtain ⟨rfl, -⟩ := Prod.mk.inj (Option.some.inj h) <;> exact .still
  case h_7 =>
    cases h
    exact .still
  case h_8 =>
    cases h
    exact .still

/-! ## The scan -/

/-- A majority holds the entry, and it is of the leader's term. -/
def Committable (s : Commitment) (index : Int) : Prop :=
  s.majority ≤ s.replicas index ∧ s.termAt index = some s.term

def Settled (s : Commitment) : Prop :=
  ∀ index, s.commitIndex < index → index ≤ s.lastIndex → ¬ s.Committable index

/-- `commit-safe` says yes for exactly what is committed. -/
def Agrees (s : Commitment) : Prop :=
  ∀ index, (s.commitSafe index).flagAt "safe" = some true ↔ 1 ≤ index ∧ index ≤ s.commitIndex

theorem commitSafe_iff : (s.commitSafe index).flagAt "safe" = some true ↔
    1 ≤ index ∧ index ≤ s.lastIndex ∧ (index ≤ s.commitIndex ∨ s.Committable index) := by
  have hflag (b : Bool) (n : Nat) (reason : String) :
      (safety b n reason).flagAt "safe" = some true ↔ b = true := by
    rw [show (safety b n reason).flagAt "safe" = some b from rfl, Option.some.injEq]
  unfold commitSafe Committable
  dsimp only
  split
  · rw [hflag]
    exact ⟨fun h => absurd h (by decide), fun h => by omega⟩
  split
  · rw [hflag]
    exact ⟨fun _ => ⟨by omega, by omega, .inl ‹_›⟩, fun _ => rfl⟩
  split
  · rw [hflag]
    exact ⟨fun h => absurd h (by decide), fun h => by omega⟩
  split
  · rename_i hterm
    rw [hflag]
    refine ⟨fun h => absurd h (by decide), fun ⟨_, _, h⟩ => ?_⟩
    rcases h with h | h
    · omega
    · exact absurd h.2 hterm
  · rename_i hterm
    rw [hflag]
    exact ⟨fun _ => ⟨by omega, by omega, .inr ⟨by omega, not_not.mp hterm⟩⟩, fun _ => rfl⟩

theorem agrees_iff (h0 : 0 ≤ s.commitIndex) (hlast : s.commitIndex ≤ s.lastIndex) : s.Agrees ↔ s.Settled := by
  unfold Agrees Settled
  simp only [commitSafe_iff]
  constructor
  · intro h index hlt hle hcommit
    have := ((h index).mp ⟨by omega, hle, .inr hcommit⟩).2
    omega
  · intro h index
    constructor
    · rintro ⟨h1, hle, hin | hcommit⟩
      · exact ⟨h1, hin⟩
      · exact ⟨h1, by by_contra hlt; exact h index (by omega) hle hcommit⟩
    · rintro ⟨h1, hin⟩
      exact ⟨h1, by omega, .inl hin⟩

theorem Committable.pos (h : s.Committable index) : 1 ≤ index := by
  by_contra hlt
  have hterm := h.2
  unfold termAt at hterm
  rw [if_neg (by omega)] at hterm
  cases hterm

theorem advanceFrom_spec (n : Nat) : ∃ c, s.advanceFrom n = { s with commitIndex := c } ∧
    s.commitIndex ≤ c ∧ c ≤ max s.commitIndex n ∧
    ∀ index : Int, c < index → index ≤ n → ¬ s.Committable index := by
  induction n with
  | zero =>
    refine ⟨s.commitIndex, rfl, Int.le_refl _, Int.le_max_left _ _, fun index _ hle hcommit => ?_⟩
    have := hcommit.pos
    omega
  | succ n ih =>
    rw [advanceFrom]
    split
    · rename_i hlt
      split
      · exact ⟨n + 1, rfl, Int.le_of_lt hlt, by push_cast; omega, fun index hgt hle => by omega⟩
      · rename_i hno
        obtain ⟨c, hc, hup, hmax, hnone⟩ := ih
        refine ⟨c, hc, hup, by omega, fun index hgt hle => ?_⟩
        rcases Int.lt_or_eq_of_le hle with hlt' | rfl
        · exact hnone index hgt (by omega)
        · exact hno
    · exact ⟨s.commitIndex, rfl, Int.le_refl _, Int.le_max_left _ _, fun index hgt hle => by omega⟩

/-- **After the scan** nothing is left to commit. -/
theorem advanceCommit_spec : ∃ c, s.advanceCommit = { s with commitIndex := c } ∧ s.commitIndex ≤ c ∧
    c ≤ max s.commitIndex s.lastIndex ∧ Settled { s with commitIndex := c } :=
  advanceFrom_spec s.log.length

/-! ## Two members or more -/

structure Within (s : Commitment) : Prop where
  nonneg : 0 ≤ s.commitIndex
  commit : s.commitIndex ≤ s.lastIndex
  peers : ∀ (peer : String) m, s.matchIndex[peer]? = some m → m ≤ s.lastIndex

theorem replicas_past (h : ∀ (peer : String) m, s.matchIndex[peer]? = some m → m < index) : s.replicas index = 1 := by
  unfold replicas
  rw [List.filter_eq_nil_iff.mpr, List.length_nil]
  intro m hm
  obtain ⟨peer, hpeer⟩ := StringMap.mem_vals.mp hm
  have := h peer m hpeer
  rw [decide_eq_true_eq]
  omega

theorem not_committable (hmembers : 2 ≤ s.members)
    (h : ∀ (peer : String) m, s.matchIndex[peer]? = some m → m < index) : ¬ s.Committable index := by
  intro hcommit
  have hmajority := hcommit.1
  rw [replicas_past h] at hmajority
  unfold majority at hmajority
  omega

/-- An `append` leaves the entries that were there as they were. -/
theorem committable_append (hle : index ≤ s.lastIndex)
    (h : Committable { s with log := s.log ++ [s.term] } index) : s.Committable index := by
  refine ⟨h.1, ?_⟩
  have hterm := h.2
  obtain ⟨i, rfl⟩ : ∃ i : Nat, index = i + 1 := ⟨(index - 1).toNat, by have := h.pos; omega⟩
  rw [termAt_succ] at hterm ⊢
  unfold lastIndex at hle
  rwa [List.getElem?_append_left (by omega)] at hterm

structure Ruled (s : Commitment) : Prop extends Within s where
  settled : s.Settled

theorem lastIndex_append : lastIndex { s with log := s.log ++ [s.term] } = s.lastIndex + 1 := by
  unfold lastIndex
  rw [List.length_append, List.length_singleton]
  push_cast
  rfl

theorem Ruled.append (h : s.Ruled) (hmembers : 2 ≤ s.members) : Ruled { s with log := s.log ++ [s.term] } := by
  have hlast : lastIndex { s with log := s.log ++ [s.term] } = s.lastIndex + 1 := lastIndex_append
  have hcommit := h.commit
  refine ⟨⟨h.nonneg, ?_, fun peer m hm => ?_⟩, fun index hgt hle => ?_⟩
  · rw [hlast]
    exact Int.le_trans hcommit (by omega)
  · have := h.peers peer m hm
    omega
  · rw [hlast] at hle
    rcases Int.lt_or_eq_of_le hle with hlt | rfl
    · exact fun hnew => h.settled index hgt (by omega) (committable_append (by omega) hnew)
    · refine not_committable hmembers fun peer m hm => ?_
      have := h.peers peer m hm
      omega

theorem Ruled.ack (h : s.Ruled) (hindex : index ≤ s.lastIndex) :
    Ruled (s.acked peer index).advanceCommit ∧ s.commitIndex ≤ (s.acked peer index).advanceCommit.commitIndex := by
  obtain ⟨c, hc, hup, hmax, hsettled⟩ := (s.acked peer index).advanceCommit_spec
  rw [hc]
  have hcommit := h.commit
  have hnonneg := h.nonneg
  have hlast : (s.acked peer index).lastIndex = s.lastIndex := rfl
  have hsame : (s.acked peer index).commitIndex = s.commitIndex := rfl
  refine ⟨⟨⟨?_, ?_, fun peer' m hm => ?_⟩, hsettled⟩, hup⟩
  · change 0 ≤ c
    omega
  · change c ≤ s.lastIndex
    omega
  · change (s.matchIndex.insert peer (s.matched peer index))[peer']? = some m at hm
    change m ≤ s.lastIndex
    rw [StringMap.get_insert] at hm
    split at hm
    · cases hm
      refine Int.max_le.mpr ⟨?_, hindex⟩
      rw [Std.ExtTreeMap.getD_eq_getD_getElem?]
      cases hold : s.matchIndex[peer]? with
      | none => exact Int.le_trans hnonneg hcommit
      | some m => exact h.peers peer m hold
    · exact h.peers peer' m hm

theorem get_init {n : Nat} {term m : Int} {terms : List Int}
    (h : (init n term terms).matchIndex[peer]? = some m) : peer ∈ peers n ∧ m = 0 := by
  have hget := StringMap.get_foldl_insert peer (fun _ => (0 : Int)) (peers n) ∅
  rw [show (init n term terms).matchIndex[peer]? = _ from hget] at h
  split at h
  · exact ⟨‹_›, (Option.some.inj h).symm⟩
  · cases h

theorem ruled_init {n : Nat} (hn : 2 ≤ n) (term : Int) (terms : List Int) : Ruled (init n term terms) where
  nonneg := Int.le_refl 0
  commit := Int.natCast_nonneg _
  peers peer m hm := by
    rw [(get_init hm).2]
    exact Int.natCast_nonneg _
  settled index hgt _ := by
    refine not_committable hn fun peer m hm => ?_
    rw [(get_init hm).2]
    exact hgt

theorem Ruled.agrees (h : s.Ruled) : s.Agrees := (agrees_iff h.nonneg h.commit).mpr h.settled

/-! ## A cluster of one -/

/-- There is nobody to acknowledge anything. -/
structure Alone (s : Commitment) : Prop where
  members : s.members = 1
  peers : ∀ peer : String, s.matchIndex[peer]? = none
  commit : s.commitIndex = 0

theorem alone_init (term : Int) (terms : List Int) : Alone (init 1 term terms) where
  members := rfl
  peers peer := by
    cases h : (init 1 term terms).matchIndex[peer]? with
    | none => rfl
    | some m => exact absurd (get_init h).1 List.not_mem_nil
  commit := rfl

theorem Alone.moves (h : s.Alone) (hmoves : Moves s l s') : s'.Alone ∧ s'.log = s.log ∧ s'.term = s.term := by
  cases hmoves with
  | still => exact ⟨h, rfl, rfl⟩
  | ack _ _ hpeer =>
    rw [Std.ExtTreeMap.contains_eq_isSome_getElem?, h.peers] at hpeer
    cases hpeer
  | reject => exact ⟨⟨h.members, h.peers, h.commit⟩, rfl, rfl⟩

theorem Alone.agrees_iff (h : s.Alone) : s.Agrees ↔ s.term ∉ s.log := by
  have hlast : (0 : Int) ≤ s.lastIndex := Int.natCast_nonneg _
  rw [Commitment.agrees_iff (Int.le_of_eq h.commit.symm) (by rw [h.commit]; exact hlast)]
  have hreplicas (index : Int) : s.majority ≤ s.replicas index := by
    unfold majority replicas
    rw [h.members]
    omega
  unfold Settled
  rw [h.commit]
  constructor
  · intro hnone hmem
    obtain ⟨i, hi⟩ := List.mem_iff_getElem?.mp hmem
    have hlt := (List.getElem?_eq_some_iff.mp hi).1
    refine hnone (i + 1) (by omega) (by unfold lastIndex; omega) ⟨hreplicas _, ?_⟩
    rw [termAt_succ, hi]
  · intro hnot index _ _ hcommit
    obtain ⟨i, rfl⟩ : ∃ i : Nat, index = i + 1 := ⟨(index - 1).toNat, by have := hcommit.pos; omega⟩
    have hterm := hcommit.2
    rw [termAt_succ] at hterm
    exact hnot (List.mem_of_getElem? hterm)

/-! ## Runs -/

/-- Not a new cluster, and no acknowledgement of an entry that the leader does not have. -/
structure Ordinary (e : Event Commitment Line Value) : Prop where
  goesOn : e.input.command ≠ "init"
  held : e.input.command = "ack" → ∀ index, int e.input.args 1 = .ok index → index ≤ e.before.lastIndex

/-- The commit index does not go back, is inside the log, and `commit-safe` agrees with it. -/
structure Ratchet (e : Event Commitment Line Value) : Prop where
  up : e.before.commitIndex ≤ e.after.commitIndex
  within : e.after.commitIndex ≤ e.after.lastIndex
  agrees : e.after.Agrees

section

variable [Host] {n : Nat} {term : Int} {terms : List Int} {es : List (Event Commitment Line Value)}

theorem Ruled.step (h : s.Ruled) (hmembers : 2 ≤ s.members) (hl : Ordinary ⟨s, l, v, s'⟩)
    (hs : onLine step s l = some (s', v)) : s'.Ruled ∧ s'.members = s.members ∧ s.commitIndex ≤ s'.commitIndex := by
  rcases step_moves hl.goesOn hs with ⟨-, rfl⟩ | ⟨-, hmoves⟩
  · exact ⟨h.append hmembers, rfl, Int.le_refl _⟩
  cases hmoves with
  | still => exact ⟨h, rfl, Int.le_refl _⟩
  | ack hack hindex hpeer =>
    obtain ⟨hruled, hup⟩ := h.ack (hl.held hack _ hindex)
    refine ⟨hruled, ?_, hup⟩
    obtain ⟨c, hc, -⟩ := (s.acked _ _).advanceCommit_spec
    rw [hc]
    rfl
  | reject => exact ⟨⟨⟨h.nonneg, h.commit, h.peers⟩, h.settled⟩, rfl, Int.le_refl _⟩

theorem ratchet_of_two (hn : 2 ≤ n) (hrun : Run (onLine step) (init n term terms) es s)
    (hes : ∀ e ∈ es, Ordinary e) : ∀ e ∈ es, Ratchet e := by
  have hinv := hrun.history_invariant
    (P := fun es s => (s.Ruled ∧ s.members = n) ∧ ∀ e ∈ es, Ratchet e) (G := Ordinary)
    ⟨⟨ruled_init hn term terms, rfl⟩, List.forall_mem_nil _⟩ ?_ hes
  · exact hinv.2
  intro es s l s' v h hl hs
  obtain ⟨hruled, hmembers, hup⟩ := h.1.1.step (by rw [h.1.2]; exact hn) hl hs
  refine ⟨⟨hruled, hmembers.trans h.1.2⟩, fun e he => ?_⟩
  rcases List.mem_append.mp he with he | he
  · exact h.2 e he
  · rw [List.mem_singleton.mp he]
    exact ⟨hup, hruled.commit, hruled.agrees⟩

/-- What a lone leader's commands do: nothing but `append` changes the log. -/
theorem alone_run (hrun : Run (onLine step) (init 1 term terms) es s) (hes : ∀ e ∈ es, Ordinary e) :
    ∀ e ∈ es, e.before.Alone ∧ e.after.Alone ∧ e.after.term = term ∧
      (e.input.command = "append" → term ∈ e.after.log) ∧
      ((∀ e ∈ es, e.input.command ≠ "append") → e.after.log = terms) := by
  have hinv := hrun.history_invariant
    (P := fun es s => (s.Alone ∧ s.term = term ∧ ((∀ e ∈ es, e.input.command ≠ "append") → s.log = terms)) ∧
      ∀ e ∈ es, e.before.Alone ∧ e.after.Alone ∧ e.after.term = term ∧
        (e.input.command = "append" → term ∈ e.after.log) ∧
        ((∀ e ∈ es, e.input.command ≠ "append") → e.after.log = terms)) (G := Ordinary)
    ⟨⟨alone_init term terms, rfl, fun _ => rfl⟩, List.forall_mem_nil _⟩ ?_ hes
  · exact hinv.2
  intro es s l s' v ⟨⟨halone, hterm, hlog⟩, hbefore⟩ hl hs
  have hleft : (∀ e ∈ es ++ [⟨s, l, v, s'⟩], e.input.command ≠ "append") →
      ∀ e ∈ es, e.input.command ≠ "append" := fun h e he => h e (List.mem_append_left _ he)
  have hnew : s'.Alone ∧ s'.term = term ∧ (l.command = "append" → term ∈ s'.log) ∧
      (l.command ≠ "append" → s'.log = s.log) := by
    rcases step_moves hl.goesOn hs with ⟨happend, rfl⟩ | ⟨hother, hmoves⟩
    · refine ⟨⟨halone.members, halone.peers, halone.commit⟩, hterm, fun _ => ?_, fun h => absurd happend h⟩
      rw [← hterm]
      exact List.mem_concat_self
    · obtain ⟨halone', hlog', hterm'⟩ := halone.moves hmoves
      exact ⟨halone', hterm'.trans hterm, fun h => absurd h hother, fun _ => hlog'⟩
  obtain ⟨halone', hterm', hmem, hsame⟩ := hnew
  have hlog' : (∀ e ∈ es ++ [⟨s, l, v, s'⟩], e.input.command ≠ "append") → s'.log = terms := fun h =>
    (hsame (h _ List.mem_concat_self)).trans (hlog (hleft h))
  refine ⟨⟨halone', hterm', hlog'⟩, fun e he => ?_⟩
  rcases List.mem_append.mp he with he | he
  · obtain ⟨h₁, h₂, h₃, h₄, h₅⟩ := hbefore e he
    exact ⟨h₁, h₂, h₃, h₄, fun h => h₅ (hleft h)⟩
  · rw [List.mem_singleton.mp he]
    exact ⟨halone, halone', hterm', hmem, hlog'⟩

/-- **The commit rule and the query agree** after every command, with a commit index that does not go back,
exactly in a cluster of two or more, or where the leader of a cluster of one has no entry of its own
term. -/
theorem commit_rule (hn : 1 ≤ n) (hrun : Run (onLine step) (init n term terms) es s)
    (hes : ∀ e ∈ es, Ordinary e) : (Agrees (init n term terms) ∧ ∀ e ∈ es, Ratchet e) ↔
      2 ≤ n ∨ (term ∉ terms ∧ ∀ e ∈ es, e.input.command ≠ "append") := by
  rcases Nat.lt_or_ge 1 n with htwo | hone
  · exact ⟨fun _ => .inl htwo, fun _ => ⟨(ruled_init htwo term terms).agrees,
      ratchet_of_two htwo hrun hes⟩⟩
  obtain rfl : n = 1 := Nat.le_antisymm hone hn
  have hall := alone_run hrun hes
  constructor
  · rintro ⟨hfirst, hratchet⟩
    refine .inr ⟨(alone_init term terms).agrees_iff.mp hfirst, fun e he happend => ?_⟩
    obtain ⟨-, halone, hterm, hmem, -⟩ := hall e he
    have hnot := halone.agrees_iff.mp (hratchet e he).agrees
    rw [hterm] at hnot
    exact hnot (hmem happend)
  · rintro (h | ⟨hterms, hno⟩)
    · exact absurd h (by decide)
    refine ⟨(alone_init term terms).agrees_iff.mpr hterms, fun e he => ?_⟩
    obtain ⟨hbefore, halone, hterm, -, hlog⟩ := hall e he
    refine ⟨Int.le_of_eq (hbefore.commit.trans halone.commit.symm), ?_, halone.agrees_iff.mpr ?_⟩
    · rw [halone.commit]
      exact Int.natCast_nonneg _
    · rw [hterm, hlog hno]
      exact hterms

end

/-! Three members, where an acknowledgement commits twice; and one, whose leader appends. -/

@[reducible] def noWords : Host := hostOf []

def acksAndAppend : List Line :=
  [⟨"ack", ["s2", "3"]⟩, ⟨"append", []⟩, ⟨"reject", ["s2", "1"]⟩, ⟨"ack", ["s3", "4"]⟩, ⟨"ack", ["s2", "1"]⟩]

/-- `Ordinary`, as a check. -/
def ordinary (e : Event Commitment Line Value) : Bool :=
  e.input.command != "init" &&
    (e.input.command != "ack" ||
      match int e.input.args 1 with
      | .ok index => decide (index ≤ e.before.lastIndex)
      | .error _ => true)

theorem ordinary_of_check {e : Event Commitment Line Value} (h : ordinary e = true) : Ordinary e := by
  unfold ordinary at h
  rw [Bool.and_eq_true, Bool.or_eq_true] at h
  refine ⟨bne_iff_ne.mp h.1, fun hack index hindex => ?_⟩
  rcases h.2 with hother | hle
  · exact absurd hack (bne_iff_ne.mp hother)
  · rw [hindex] at hle
    exact of_decide_eq_true hle

theorem commit_rule_three : ∃ es s, Run (onLine (@step noWords)) (init 3 4 [1, 2, 4]) es s ∧
    es.map Event.input = acksAndAppend ∧ s.commitIndex = 4 ∧
    Agrees (init 3 4 [1, 2, 4]) ∧ ∀ e ∈ es, Ratchet e := by
  let _ : Host := noWords
  obtain ⟨es, s, hrun, hinputs, hcommit, hall⟩ : ∃ es s,
      Run (onLine step) (init 3 4 [1, 2, 4]) es s ∧ es.map Event.input = acksAndAppend ∧
      s.commitIndex = 4 ∧ es.all ordinary = true :=
    ⟨_, _, run_of_exec acksAndAppend rfl, rfl, rfl, rfl⟩
  exact ⟨es, s, hrun, hinputs, hcommit, (commit_rule (by decide) hrun fun e he =>
    ordinary_of_check (List.all_eq_true.mp hall e he)).mpr (.inl (by decide))⟩

/-- The leader of a cluster of one has appended an entry: `commit-safe` says yes, and nothing is committed. -/
theorem alone_not_committed : ∃ es s, Run (onLine (@step noWords)) (init 1 1 []) es s ∧
    es.map Event.input = [⟨"append", []⟩] ∧ (∀ e ∈ es, Ordinary e) ∧
    (s.commitSafe 1).flagAt "safe" = some true ∧ s.commitIndex = 0 := by
  let _ : Host := noWords
  obtain ⟨es, s, hrun, hinputs, hall, hsafe, hcommit⟩ : ∃ es s,
      Run (onLine step) (init 1 1 []) es s ∧ es.map Event.input = [⟨"append", []⟩] ∧
      es.all ordinary = true ∧ (s.commitSafe 1).flagAt "safe" = some true ∧ s.commitIndex = 0 :=
    ⟨_, _, run_of_exec [⟨"append", []⟩] rfl, rfl, rfl, rfl, rfl⟩
  exact ⟨es, s, hrun, hinputs, fun e he => ordinary_of_check (List.all_eq_true.mp hall e he), hsafe, hcommit⟩

/-! ## Where the leader sends from -/

/-- Every peer's `nextIndex` is past what it is known to hold. -/
def Above (s : Commitment) : Prop :=
  ∀ (peer : String) m, s.matchIndex[peer]? = some m → ∃ next, s.nextIndex[peer]? = some next ∧ m + 1 ≤ next

/-- Every peer has a `nextIndex`. -/
def Paired (s : Commitment) : Prop :=
  ∀ (peer : String) m, s.matchIndex[peer]? = some m → ∃ next, s.nextIndex[peer]? = some next

/-- A `reject` that goes back to an entry the peer has acknowledged since. -/
def Overtaken (e : Event Commitment Line Value) : Prop :=
  e.input.command = "reject" ∧ ∃ peer conflict m, word e.input.args 0 = .ok peer ∧
    int e.input.args 1 = .ok conflict ∧ e.before.matchIndex[peer]? = some m ∧ max conflict 1 ≤ m

theorem above_init (n : Nat) (term : Int) (terms : List Int) : Above (init n term terms) := by
  intro peer m hm
  obtain ⟨hpeer, rfl⟩ := get_init hm
  have hget := StringMap.get_foldl_insert peer (fun _ => (terms.length : Int) + 1) (peers n) ∅
  rw [if_pos hpeer] at hget
  exact ⟨_, hget, by omega⟩

theorem advanceCommit_maps : s.advanceCommit.matchIndex = s.matchIndex ∧ s.advanceCommit.nextIndex = s.nextIndex := by
  obtain ⟨c, hc, -⟩ := s.advanceCommit_spec
  rw [hc]
  exact ⟨rfl, rfl⟩

/-- An `ack` leaves the peer's `nextIndex` above its `matchIndex`, wherever it was. -/
theorem get_acked {peer peer' : String} {index m : Int} (hm : (s.acked peer index).matchIndex[peer']? = some m) :
    (∃ next, (s.acked peer index).nextIndex[peer']? = some next ∧ m + 1 ≤ next) ∨
      s.matchIndex[peer']? = some m ∧ (s.acked peer index).nextIndex[peer']? = s.nextIndex[peer']? := by
  unfold acked at hm ⊢
  rw [StringMap.get_insert] at hm
  rw [StringMap.get_insert]
  split at hm
  · cases hm
    rw [if_pos ‹_›]
    exact .inl ⟨_, rfl, Int.le_max_right _ _⟩
  · rw [if_neg ‹_›]
    exact .inr ⟨hm, rfl⟩

theorem Above.moves (h : s.Above) (hmoves : Moves s l s') (hkept : ¬ Overtaken ⟨s, l, v, s'⟩) : s'.Above := by
  intro peer' m hm
  cases hmoves with
  | still => exact h peer' m hm
  | ack =>
    rw [advanceCommit_maps.1] at hm
    rw [advanceCommit_maps.2]
    rcases get_acked hm with hnew | ⟨hold, hsame⟩
    · exact hnew
    · rw [hsame]
      exact h peer' m hold
  | @reject peer conflict hl hpeer hconflict =>
    change s.matchIndex[peer']? = some m at hm
    unfold rejected
    rw [StringMap.get_insert]
    split
    · rename_i heq
      subst heq
      refine ⟨_, rfl, ?_⟩
      by_contra hlt
      exact hkept ⟨hl, peer, conflict, m, hpeer, hconflict, hm, by omega⟩
    · exact h peer' m hm

theorem Paired.moves (h : s.Paired) (hmoves : Moves s l s') : s'.Paired := by
  intro peer' m hm
  cases hmoves with
  | still => exact h peer' m hm
  | ack =>
    rw [advanceCommit_maps.1] at hm
    rw [advanceCommit_maps.2]
    rcases get_acked hm with ⟨next, hnext, -⟩ | ⟨hold, hsame⟩
    · exact ⟨next, hnext⟩
    · rw [hsame]
      exact h peer' m hold
  | reject =>
    unfold rejected
    rw [StringMap.get_insert]
    split
    · exact ⟨_, rfl⟩
    · exact h peer' m hm

/-- After a `reject` that was overtaken the leader sends again what the peer has acknowledged. -/
theorem Overtaken.not_above [Host] (hpaired : s.Paired) (hs : onLine step s l = some (s', v))
    (h : Overtaken ⟨s, l, v, s'⟩) : ¬ s'.Above := by
  obtain ⟨hl, peer, conflict, m, hpeer, hconflict, hm, hle⟩ := h
  obtain ⟨next, hnext⟩ := hpaired peer m hm
  unfold onLine at hs
  rw [hl, step_reject hpeer hconflict] at hs
  have hafter : (s.reject peer conflict).1 = { s with nextIndex := s.nextIndex.insert peer (max conflict 1) } :=
    reject_of_mem hnext
  rw [Option.some.inj hs] at hafter
  intro habove
  dsimp only at hafter
  rw [hafter] at habove
  obtain ⟨next', hnext', hlt⟩ := habove peer m hm
  rw [StringMap.get_insert_self, Option.some.injEq] at hnext'
  omega

section

variable [Host] {n : Nat} {term : Int} {terms : List Int} {es : List (Event Commitment Line Value)}

theorem paired_run (hrun : Run (onLine step) (init n term terms) es s)
    (hes : ∀ e ∈ es, e.input.command ≠ "init") : s.Paired ∧ ∀ e ∈ es, e.before.Paired := by
  refine hrun.history_invariant (P := fun es s => s.Paired ∧ ∀ e ∈ es, e.before.Paired)
    (G := fun e => e.input.command ≠ "init") ⟨fun peer m hm => ?_, fun e he => absurd he List.not_mem_nil⟩
    ?_ hes
  · obtain ⟨next, hnext, -⟩ := above_init n term terms peer m hm
    exact ⟨next, hnext⟩
  intro es s l s' v h hl hs
  refine ⟨?_, fun e he => ?_⟩
  · rcases step_moves hl hs with ⟨-, rfl⟩ | ⟨-, hmoves⟩
    · exact h.1
    · exact h.1.moves hmoves
  · rcases List.mem_append.mp he with he | he
    · exact h.2 e he
    · rw [List.mem_singleton.mp he]
      exact h.1

/-- **`nextIndex` stays above `matchIndex`** through a run exactly when no `reject` in it goes back to an entry
that its peer has acknowledged. -/
theorem next_above (hrun : Run (onLine step) (init n term terms) es s)
    (hes : ∀ e ∈ es, e.input.command ≠ "init") :
    (∀ e ∈ es, e.after.Above) ↔ ∀ e ∈ es, ¬ Overtaken e := by
  constructor
  · intro habove e he hover
    exact hover.not_above ((paired_run hrun hes).2 e he) (hrun.step_of_mem he) (habove e he)
  · intro hkept
    have hinv := hrun.history_invariant (P := fun es s => s.Above ∧ ∀ e ∈ es, e.after.Above)
      (G := fun e => e.input.command ≠ "init" ∧ ¬ Overtaken e)
      ⟨above_init n term terms, fun e he => absurd he List.not_mem_nil⟩ ?_ fun e he => ⟨hes e he, hkept e he⟩
    · exact hinv.2
    intro es s l s' v h hl hs
    have hnext : s'.Above := by
      rcases step_moves hl.1 hs with ⟨-, rfl⟩ | ⟨-, hmoves⟩
      · exact h.1
      · exact h.1.moves hmoves hl.2
    refine ⟨hnext, fun e he => ?_⟩
    rcases List.mem_append.mp he with he | he
    · exact h.2 e he
    · rw [List.mem_singleton.mp he]
      exact hnext

end

/-! A rejection that the follower sent before it acknowledged everything, before and after that
acknowledgement. -/

def rejectedFirst : List Line := [⟨"reject", ["s2", "2"]⟩, ⟨"ack", ["s2", "3"]⟩]

def rejectedLast : List Line := [⟨"ack", ["s2", "3"]⟩, ⟨"reject", ["s2", "2"]⟩]

theorem next_above_rejected_first : ∃ es s, Run (onLine (@step noWords)) (init 3 1 [1, 1, 1]) es s ∧
    es.map Event.input = rejectedFirst ∧ ∀ e ∈ es, e.after.Above := by
  let _ : Host := noWords
  obtain ⟨es, s, hrun, hinputs, hall⟩ : ∃ es s, Run (onLine step) (init 3 1 [1, 1, 1]) es s ∧
      es.map Event.input = rejectedFirst ∧
      es.map (fun e => (e.input, e.before.matchIndex["s2"]?)) = rejectedFirst.map (·, some 0) :=
    ⟨_, _, run_of_exec rejectedFirst rfl, rfl, rfl⟩
  have hin : ∀ e ∈ es, (e.input, e.before.matchIndex["s2"]?) ∈ rejectedFirst.map (·, some (0 : Int)) :=
    fun e he => hall ▸ List.mem_map_of_mem he
  simp only [rejectedFirst, List.map_cons, List.map_nil, List.mem_cons, Prod.mk.injEq, List.not_mem_nil,
    or_false] at hin
  refine ⟨es, s, hrun, hinputs, (next_above hrun fun e he => ?_).mpr fun e he hover => ?_⟩
  · rcases hin e he with ⟨hi, -⟩ | ⟨hi, -⟩ <;> rw [hi] <;> decide
  · obtain ⟨hl, peer, conflict, m, hpeer, hconflict, hm, hle⟩ := hover
    rcases hin e he with ⟨hi, hzero⟩ | ⟨hi, -⟩
    · rw [hi] at hpeer hconflict
      cases hpeer
      cases hconflict
      obtain rfl := Option.mem_unique hzero hm
      exact absurd hle (by decide)
    · rw [hi] at hl
      exact absurd hl (by decide)

theorem rejected_last : ∃ es s, Run (onLine (@step noWords)) (init 3 1 [1, 1, 1]) es s ∧
    es.map Event.input = rejectedLast ∧ s.matchIndex["s2"]? = some 3 ∧ s.nextIndex["s2"]? = some 2 := by
  let _ : Host := noWords
  exact ⟨_, _, run_of_exec rejectedLast rfl, rfl, rfl, rfl⟩

end BuildYourOwn.Raft.Commitment
