import BuildYourOwn.Commit.Recovery

/-!
# What the log brings back

Runs of `commit-recovery` in which every transaction begins once, votes at most once, and then hears one decision
that no vote of its own contradicts (`Disciplined`), all while the participant is up. The log is then the list of
what was done (`Deed`), and the state that the log gives a transaction is the state it has, with one exception: a
transaction that has only begun is working, or was taken to be aborted by an earlier `recover`.

**`recovery_rebuilds`**: a crash and a `recover` leave every transaction its state, the ones that had only begun
aborted; what is to be redone are the committed ones whose effect was not applied, and the coordinator is asked
about the prepared ones; and any number of further crashes and recoveries change neither the answer nor the log.
-/

namespace BuildYourOwn.Commit.Recovery

open Lib Topic

/-! ## Records -/

section

variable {kind kind' tx tx' : String}

theorem splitOnce_entry (h : ':' ∉ kind.toList) : splitOnce ':' (entry kind tx) = some (kind, tx) := by
  have hlist : (entry kind tx).toList = kind.toList ++ ':' :: tx.toList := by
    unfold entry
    rw [String.toList_append, String.toList_append, List.append_assoc]
    rfl
  have hall : ∀ c ∈ kind.toList, Decidable.decide (c ≠ ':') = true := fun c hc =>
    decide_eq_true fun heq => h (heq ▸ hc)
  unfold splitOnce
  rw [hlist, List.dropWhile_append_of_pos hall, List.takeWhile_append_of_pos hall,
    List.dropWhile_cons_of_neg (by simp), List.takeWhile_cons_of_neg (by simp)]
  simp only [List.append_nil, String.ofList_toList]

/-- **A record says what it was forced for.** -/
theorem entry_inj (h : ':' ∉ kind.toList) (h' : ':' ∉ kind'.toList) (heq : entry kind tx = entry kind' tx') :
    kind = kind' ∧ tx = tx' := by
  have hsplit : splitOnce ':' (entry kind tx) = some (kind, tx) := splitOnce_entry h
  rw [heq, splitOnce_entry h'] at hsplit
  cases hsplit
  exact ⟨rfl, rfl⟩

end

/-- What a transaction can see while the participant is up. -/
inductive Deed
  | begin (tx : String)
  | prepare (tx : String) (yes : Bool)
  | decide (tx : String) (commit : Bool)
  deriving DecidableEq

namespace Deed

/-- The transaction that it is about. -/
def tx : Deed → String
  | begin tx => tx
  | prepare tx _ => tx
  | decide tx _ => tx

def kind : Deed → String
  | begin _ => "begin"
  | prepare _ yes => if yes then "prepared" else "abort"
  | decide _ commit => (decided commit).1

def state : Deed → String
  | begin _ => "working"
  | prepare _ yes => if yes then "prepared" else "aborted"
  | decide _ commit => (decided commit).2

def record (d : Deed) : String := entry d.kind d.tx

theorem kind_colon (d : Deed) : ':' ∉ d.kind.toList := by
  cases d with
  | begin _ => exact (by decide : ':' ∉ "begin".toList)
  | prepare _ yes =>
    cases yes with
    | true => exact (by decide : ':' ∉ "prepared".toList)
    | false => exact (by decide : ':' ∉ "abort".toList)
  | decide _ commit =>
    cases commit with
    | true => exact (by decide : ':' ∉ "commit".toList)
    | false => exact (by decide : ':' ∉ "abort".toList)

end Deed

variable {s s' : Recovery} {ds : List Deed} {d : Deed} {tx kind : String} {l : Line} {v : Value}

/-- The transaction has been mentioned. -/
def Known (ds : List Deed) (tx : String) : Prop := ∃ d ∈ ds, d.tx = tx

/-- The transaction has voted, or heard a decision. -/
def Acted (ds : List Deed) (tx : String) : Prop := ∃ d ∈ ds, d.tx = tx ∧ d ≠ .begin tx

/-- The transaction has begun and neither voted nor heard a decision. -/
def Undecided (ds : List Deed) (tx : String) : Prop := Known ds tx ∧ ¬ Acted ds tx

/-! ## What the log says -/

theorem logged_iff (hlog : s.log = ds.map Deed.record) (hkind : ':' ∉ kind.toList) :
    s.logged kind tx = true ↔ ∃ d ∈ ds, d.tx = tx ∧ d.kind = kind := by
  unfold logged
  rw [List.contains_iff_mem, hlog, List.mem_map]
  constructor
  · rintro ⟨d, hd, heq⟩
    obtain ⟨hk, ht⟩ := entry_inj d.kind_colon hkind heq
    exact ⟨d, hd, ht, hk⟩
  · rintro ⟨d, hd, rfl, rfl⟩
    exact ⟨d, hd, rfl⟩

theorem committed_iff (hlog : s.log = ds.map Deed.record) : s.logged "commit" tx = true ↔ .decide tx true ∈ ds := by
  rw [logged_iff hlog (by decide)]
  constructor
  · rintro ⟨d, hd, rfl, hkind⟩
    cases d with
    | begin _ => exact absurd hkind (of_decide_eq_true rfl)
    | prepare _ yes => cases yes <;> exact absurd hkind (of_decide_eq_true rfl)
    | decide _ commit =>
      cases commit with
      | true => exact hd
      | false => exact absurd hkind (of_decide_eq_true rfl)
  · exact fun h => ⟨_, h, rfl, rfl⟩

theorem aborted_iff (hlog : s.log = ds.map Deed.record) :
    s.logged "abort" tx = true ↔ .prepare tx false ∈ ds ∨ .decide tx false ∈ ds := by
  rw [logged_iff hlog (by decide)]
  constructor
  · rintro ⟨d, hd, rfl, hkind⟩
    cases d with
    | begin _ => exact absurd hkind (of_decide_eq_true rfl)
    | prepare _ yes =>
      cases yes with
      | true => exact absurd hkind (of_decide_eq_true rfl)
      | false => exact .inl hd
    | decide _ commit =>
      cases commit with
      | true => exact absurd hkind (of_decide_eq_true rfl)
      | false => exact .inr hd
  · rintro (h | h)
    · exact ⟨_, h, rfl, rfl⟩
    · exact ⟨_, h, rfl, rfl⟩

theorem prepared_iff (hlog : s.log = ds.map Deed.record) : s.logged "prepared" tx = true ↔ .prepare tx true ∈ ds := by
  rw [logged_iff hlog (by decide)]
  constructor
  · rintro ⟨d, hd, rfl, hkind⟩
    cases d with
    | begin _ => exact absurd hkind (of_decide_eq_true rfl)
    | prepare _ yes =>
      cases yes with
      | true => exact hd
      | false => exact absurd hkind (of_decide_eq_true rfl)
    | decide _ commit => cases commit <;> exact absurd hkind (of_decide_eq_true rfl)
  · exact fun h => ⟨_, h, rfl, rfl⟩

/-- The loop of `transactions` collects the transactions of the records. -/
theorem mem_foldl_mention (out : List String) :
    tx ∈ (ds.map Deed.record).foldl mention out ↔ tx ∈ out ∨ Known ds tx := by
  induction ds generalizing out with
  | nil => exact (or_iff_left fun ⟨_, hd, _⟩ => absurd hd List.not_mem_nil).symm
  | cons d ds ih =>
    have hmention : tx ∈ mention out d.record ↔ tx ∈ out ∨ d.tx = tx := by
      unfold mention Deed.record
      rw [splitOnce_entry d.kind_colon]
      dsimp only
      split
      · rename_i hold
        refine (or_iff_left_of_imp ?_).symm
        rintro rfl
        exact List.contains_iff_mem.mp hold
      · rw [List.mem_append, List.mem_singleton, eq_comm]
    rw [List.map_cons, List.foldl_cons, ih, hmention, or_assoc]
    unfold Known
    simp only [List.mem_cons, exists_eq_or_imp]

theorem mem_transactions (hlog : s.log = ds.map Deed.record) : tx ∈ s.transactions ↔ Known ds tx := by
  unfold transactions
  rw [hlog, mem_foldl_mention]
  exact or_iff_right List.not_mem_nil

theorem stateFromLog_of_not_acted (hlog : s.log = ds.map Deed.record) (h : ¬ Acted ds tx) :
    s.stateFromLog tx = ("aborted", "abort") := by
  unfold stateFromLog
  rw [if_neg fun hcommit => h ⟨_, (committed_iff hlog).mp hcommit, rfl, by simp⟩, if_neg fun habort => ?_,
    if_neg fun hprepared => h ⟨_, (prepared_iff hlog).mp hprepared, rfl, by simp⟩]
  rcases (aborted_iff hlog).mp habort with hno | hdecided
  · exact h ⟨_, hno, rfl, by simp⟩
  · exact h ⟨_, hdecided, rfl, by simp⟩

theorem redo_iff : (s.stateFromLog tx).2 = "redo" ↔ (s.stateFromLog tx).1 = "committed" ∧ tx ∉ s.applied := by
  unfold stateFromLog
  split
  · split
    · rename_i happlied
      exact iff_of_false (by simp) fun h => h.2 happlied
    · rename_i happlied
      exact iff_of_true rfl ⟨rfl, happlied⟩
  split
  · exact iff_of_false (by simp) fun h => absurd h.1 (by simp)
  split
  · exact iff_of_false (by simp) fun h => absurd h.1 (by simp)
  · exact iff_of_false (by simp) fun h => absurd h.1 (by simp)

theorem ask_iff : (s.stateFromLog tx).2 = "ask-coordinator" ↔ (s.stateFromLog tx).1 = "prepared" := by
  unfold stateFromLog
  split
  · split <;> exact iff_of_false (by simp) (by simp)
  split
  · exact iff_of_false (by simp) (by simp)
  split
  · exact iff_of_true rfl rfl
  · exact iff_of_false (by simp) (by simp)

/-! ## The discipline -/

/-- What a transaction may see next: it begins once, votes before it hears a decision and at most once, and
hears no decision that another one or its own no contradicts. -/
def Follows (ds : List Deed) : Deed → Prop
  | .begin tx => ¬ Known ds tx
  | .prepare tx _ => .begin tx ∈ ds ∧ ¬ Acted ds tx
  | .decide tx true => .begin tx ∈ ds ∧ .decide tx false ∉ ds ∧ .prepare tx false ∉ ds
  | .decide tx false => .begin tx ∈ ds ∧ .decide tx true ∉ ds

instance : Decidable (Known ds tx) := inferInstanceAs (Decidable (∃ d ∈ ds, d.tx = tx))

instance : Decidable (Acted ds tx) := inferInstanceAs (Decidable (∃ d ∈ ds, d.tx = tx ∧ d ≠ .begin tx))

instance decidableFollows : (d : Deed) → Decidable (Follows ds d)
  | .begin tx => inferInstanceAs (Decidable (¬ Known ds tx))
  | .prepare tx _ => inferInstanceAs (Decidable (.begin tx ∈ ds ∧ ¬ Acted ds tx))
  | .decide tx true => inferInstanceAs (Decidable (.begin tx ∈ ds ∧ .decide tx false ∉ ds ∧ .prepare tx false ∉ ds))
  | .decide tx false => inferInstanceAs (Decidable (.begin tx ∈ ds ∧ .decide tx true ∉ ds))

structure Logged (ds : List Deed) (s : Recovery) : Prop where
  log : s.log = ds.map Deed.record
  unknown : s.crashed = false → ∀ tx, ¬ Known ds tx → s.states[tx]? = none
  undecided : s.crashed = false → ∀ tx, Undecided ds tx →
    s.states[tx]? = some "working" ∨ s.states[tx]? = some "aborted"
  acted : s.crashed = false → ∀ tx, Acted ds tx → s.states[tx]? = some (s.stateFromLog tx).1

theorem known_snoc : Known (ds ++ [d]) tx ↔ Known ds tx ∨ d.tx = tx := by
  unfold Known
  simp only [List.mem_append, List.mem_singleton, or_and_right, exists_or, exists_eq_left]

theorem acted_snoc : Acted (ds ++ [d]) tx ↔ Acted ds tx ∨ (d.tx = tx ∧ d ≠ .begin tx) := by
  unfold Acted
  simp only [List.mem_append, List.mem_singleton, or_and_right, exists_or, exists_eq_left]

theorem stateFromLog_last (hlog : s.log = (ds ++ [d]).map Deed.record) (hfollows : Follows ds d)
    (hacts : d ≠ .begin d.tx) : (s.stateFromLog d.tx).1 = d.state := by
  have hmem {d' : Deed} : d' ∈ ds ++ [d] ↔ d' ∈ ds ∨ d' = d := by rw [List.mem_append, List.mem_singleton]
  have hfresh {d' : Deed} (hno : ¬ Acted ds d.tx) (htx : d'.tx = d.tx) (hd' : d' ≠ .begin d.tx) : d' ∉ ds :=
    fun hin => hno ⟨d', hin, htx, hd'⟩
  unfold stateFromLog
  cases d with
  | begin tx => exact absurd rfl hacts
  | prepare tx yes =>
    have hcommit : ¬ s.logged "commit" tx = true := by
      rw [committed_iff hlog, hmem]
      exact not_or.mpr ⟨hfresh hfollows.2 rfl (by simp), by simp⟩
    rw [Deed.tx, if_neg hcommit]
    cases yes with
    | false => rw [if_pos ((aborted_iff hlog).mpr (.inl (hmem.mpr (.inr rfl))))]; rfl
    | true =>
      have habort : ¬ s.logged "abort" tx = true := by
        rw [aborted_iff hlog, hmem, hmem]
        refine not_or.mpr ⟨not_or.mpr ⟨hfresh hfollows.2 rfl (by simp), by simp⟩, ?_⟩
        exact not_or.mpr ⟨hfresh hfollows.2 rfl (by simp), by simp⟩
      rw [if_neg habort, if_pos ((prepared_iff hlog).mpr (hmem.mpr (.inr rfl)))]
      rfl
  | decide tx commit =>
    cases commit with
    | true =>
      rw [Deed.tx, if_pos ((committed_iff hlog).mpr (hmem.mpr (.inr rfl)))]
      split <;> rfl
    | false =>
      have hcommit : ¬ s.logged "commit" tx = true := by
        rw [committed_iff hlog, hmem]
        exact not_or.mpr ⟨hfollows.2, by simp⟩
      rw [Deed.tx, if_neg hcommit, if_pos ((aborted_iff hlog).mpr (.inr (hmem.mpr (.inr rfl))))]
      rfl

theorem stateFromLog_other (hlog : s.log = ds.map Deed.record) (hlog' : s'.log = (ds ++ [d]).map Deed.record)
    (hne : d.tx ≠ tx) : (s'.stateFromLog tx).1 = (s.stateFromLog tx).1 := by
  have hmem {d' : Deed} (htx : d'.tx = tx) : d' ∈ ds ++ [d] ↔ d' ∈ ds := by
    rw [List.mem_append, List.mem_singleton]
    exact or_iff_left fun heq => hne (heq ▸ htx)
  have hcommit : s'.logged "commit" tx = s.logged "commit" tx := by
    rw [Bool.eq_iff_iff, committed_iff hlog', committed_iff hlog, hmem rfl]
  have habort : s'.logged "abort" tx = s.logged "abort" tx := by
    rw [Bool.eq_iff_iff, aborted_iff hlog', aborted_iff hlog, hmem rfl, hmem rfl]
  have hprepared : s'.logged "prepared" tx = s.logged "prepared" tx := by
    rw [Bool.eq_iff_iff, prepared_iff hlog', prepared_iff hlog, hmem rfl]
  unfold stateFromLog
  rw [hcommit, habort, hprepared]
  split
  · split <;> split <;> rfl
  split
  · rfl
  split <;> rfl

theorem stateFromLog_congr (h : s'.log = s.log) : (s'.stateFromLog tx).1 = (s.stateFromLog tx).1 := by
  unfold stateFromLog logged
  rw [h]
  split
  · split <;> split <;> rfl
  split
  · rfl
  split <;> rfl

theorem states_recover (hlog : s.log = ds.map Deed.record) :
    (Known ds tx → s.recover.1.states[tx]? = some (s.stateFromLog tx).1) ∧
      (¬ Known ds tx → s.recover.1.states[tx]? = none) := by
  have hget : s.recover.1.states[tx]? = if tx ∈ s.transactions then some (s.stateFromLog tx).1 else none :=
    (StringMap.get_foldl_insert tx (fun tx => (s.stateFromLog tx).1) s.transactions ∅).trans (by simp)
  rw [hget, ← mem_transactions hlog]
  exact ⟨fun h => if_pos h, fun h => if_neg h⟩

/-! ## What a line does -/

section

variable [Host]

def deed (l : Line) : Option Deed :=
  match word l.args 0 with
  | .error _ => none
  | .ok tx =>
    match l.command with
    | "begin" => some (.begin tx)
    | "prepare" =>
      match flag l.args 1 "yes" "no" with
      | .ok yes => some (.prepare tx yes)
      | .error _ => none
    | "decide" | "coordinator-says" =>
      match flag l.args 1 "commit" "abort" with
      | .ok commit => some (.decide tx commit)
      | .error _ => none
    | _ => none

inductive Moves (s : Recovery) (l : Line) : Recovery → Prop
  | acts {d : Deed} (hd : deed l = some d) (applied : StringSet) :
      Moves s l { s.force d.kind d.tx d.state with applied := applied }
  | applies (hno : deed l = none) (applied : StringSet) : Moves s l { s with applied := applied }
  | crashes (hno : deed l = none) : Moves s l s.crash.1
  | recovers (hno : deed l = none) : Moves s l s.recover.1

theorem Moves.quiet (hno : deed l = none) : Moves s l s := .applies hno s.applied

theorem Moves.forced (hd : deed l = some d) : Moves s l (s.force d.kind d.tx d.state) :=
  .acts hd (s.force d.kind d.tx d.state).applied

theorem deed_of_other (hbegin : l.command ≠ "begin") (hprepare : l.command ≠ "prepare")
    (hdecide : l.command ≠ "decide") (hcoordinator : l.command ≠ "coordinator-says") : deed l = none := by
  unfold deed
  split
  · rfl
  split
  · exact absurd ‹_› hbegin
  · exact absurd ‹_› hprepare
  · exact absurd ‹_› hdecide
  · exact absurd ‹_› hcoordinator
  · rfl

omit [Host] in
theorem prepare_eq (s : Recovery) (tx : String) (yes : Bool) : (s.prepare tx yes).1 =
    s.force (Deed.prepare tx yes).kind (Deed.prepare tx yes).tx (Deed.prepare tx yes).state := by
  cases yes <;> rfl

omit [Host] in
theorem coordinatorSays_eq (s : Recovery) (tx : String) (commit : Bool) : ∃ applied,
    (s.coordinatorSays tx commit).1 =
      { s.force (Deed.decide tx commit).kind (Deed.decide tx commit).tx (Deed.decide tx commit).state with
        applied := applied } := by
  cases commit with
  | true => exact ⟨s.applied.insert tx, rfl⟩
  | false => exact ⟨s.applied, rfl⟩

theorem step_moves (hinit : l.command ≠ "init") (hs : onLine step s l = some (s', v)) : Moves s l s' := by
  have hword {e : Value} (hw : word l.args 0 = .error e) : deed l = none := by
    unfold deed
    rw [hw]
  have hother (hl : l.command ∉ ["begin", "prepare", "decide", "coordinator-says"]) : deed l = none := by
    simp only [List.mem_cons, List.not_mem_nil, or_false, not_or] at hl
    exact deed_of_other hl.1 hl.2.1 hl.2.2.1 hl.2.2.2
  unfold onLine step at hs
  split at hs
  case h_1 hl => exact absurd hl hinit
  case h_2 hl =>
    rcases arg_eq_some.mp hs with ⟨hw, rfl⟩ | ⟨tx, hw, hs⟩
    · exact .quiet (hword hw)
    cases hs
    exact .forced (d := .begin tx) (by unfold deed; rw [hw, hl]; rfl)
  case h_3 hl =>
    rcases arg_eq_some.mp hs with ⟨hw, rfl⟩ | ⟨tx, hw, hs⟩
    · exact .quiet (hword hw)
    rcases arg_eq_some.mp hs with ⟨hyes, rfl⟩ | ⟨yes, hyes, hs⟩
    · exact .quiet (by unfold deed; rw [hw, hl, hyes]; rfl)
    have hd : deed l = some (.prepare tx yes) := by unfold deed; rw [hw, hl, hyes]; rfl
    obtain rfl : (s.prepare tx yes).1 = s' := congrArg Prod.fst (Option.some.inj hs)
    rw [prepare_eq]
    exact .forced hd
  case h_4 hl =>
    have hno : deed l = none := hother (by rw [hl]; simp)
    rcases arg_eq_some.mp hs with ⟨-, rfl⟩ | ⟨tx, -, hs⟩
    · exact .quiet hno
    · cases hs
      exact .quiet hno
  case h_5 hl =>
    rcases arg_eq_some.mp hs with ⟨hw, rfl⟩ | ⟨tx, hw, hs⟩
    · exact .quiet (hword hw)
    rcases arg_eq_some.mp hs with ⟨hc, rfl⟩ | ⟨commit, hc, hs⟩
    · exact .quiet (by unfold deed; rw [hw, hl, hc]; rfl)
    cases hs
    exact .forced (d := .decide tx commit) (by unfold deed; rw [hw, hl, hc]; rfl)
  case h_6 hl =>
    have hno : deed l = none := hother (by rw [hl]; simp)
    rcases arg_eq_some.mp hs with ⟨-, rfl⟩ | ⟨tx, -, hs⟩
    · exact .quiet hno
    · cases hs
      exact .applies hno _
  case h_7 hl =>
    cases hs
    exact .crashes (hother (by rw [hl]; simp))
  case h_8 hl =>
    cases hs
    exact .recovers (hother (by rw [hl]; simp))
  case h_9 hl =>
    have hno : deed l = none := hother (by rw [hl]; simp)
    rcases arg_eq_some.mp hs with ⟨-, rfl⟩ | ⟨tx, -, hs⟩
    · exact .quiet hno
    · cases hs
      exact .quiet hno
  case h_10 hl =>
    rcases arg_eq_some.mp hs with ⟨hw, rfl⟩ | ⟨tx, hw, hs⟩
    · exact .quiet (hword hw)
    rcases arg_eq_some.mp hs with ⟨hc, rfl⟩ | ⟨commit, hc, hs⟩
    · exact .quiet (by unfold deed; rw [hw, hl, hc]; rfl)
    have hd : deed l = some (.decide tx commit) := by unfold deed; rw [hw, hl, hc]; rfl
    obtain ⟨applied, happlied⟩ := coordinatorSays_eq s tx commit
    obtain rfl : (s.coordinatorSays tx commit).1 = s' := congrArg Prod.fst (Option.some.inj hs)
    rw [happlied]
    exact .acts hd applied
  case h_11 hl =>
    cases hs
    exact .quiet (hother (by rw [hl]; simp))
  case h_12 hbegin hprepare _ hdecide _ _ _ _ hcoordinator _ =>
    cases hs
    exact .quiet (deed_of_other hbegin hprepare hdecide hcoordinator)

omit [Host] in
theorem Logged.acts (h : Logged ds s) (hup : s.crashed = false) (hfollows : Follows ds d) (applied : StringSet) :
    Logged (ds ++ [d]) { s.force d.kind d.tx d.state with applied := applied } := by
  have hlog : (s.log ++ [entry d.kind d.tx]) = (ds ++ [d]).map Deed.record := by
    rw [List.map_append, h.log]
    rfl
  have hget (tx : String) : (s.states.insert d.tx d.state)[tx]? = if d.tx = tx then some d.state else s.states[tx]? :=
    StringMap.get_insert ..
  constructor
  case log => exact hlog
  case unknown =>
    intro _ tx hunknown
    obtain ⟨hunknown, hne⟩ := not_or.mp (mt known_snoc.mpr hunknown)
    exact (hget tx).trans ((if_neg hne).trans (h.unknown hup tx hunknown))
  case undecided =>
    rintro _ tx ⟨hknown, hacted⟩
    obtain ⟨hacted, hbegin⟩ := not_or.mp (mt acted_snoc.mpr hacted)
    show (s.states.insert d.tx d.state)[tx]? = _ ∨ (s.states.insert d.tx d.state)[tx]? = _
    rw [hget]
    by_cases htx : d.tx = tx
    · -- the transaction begins
      have hd : d = .begin tx := Classical.byContradiction fun hne => hbegin ⟨htx, hne⟩
      rw [if_pos htx, hd]
      exact .inl rfl
    · rw [if_neg htx]
      exact h.undecided hup tx ⟨(known_snoc.mp hknown).resolve_right htx, hacted⟩
  case acted =>
    intro _ tx hacted
    refine (hget tx).trans ?_
    by_cases htx : d.tx = tx
    · subst htx
      rw [if_pos rfl]
      have hacts : d ≠ .begin d.tx := by
        intro hbegin
        rcases acted_snoc.mp hacted with ⟨d', hd', htx, -⟩ | ⟨-, hne⟩
        · rw [hbegin] at hfollows
          exact hfollows ⟨d', hd', htx⟩
        · exact hne hbegin
      exact congrArg some (stateFromLog_last hlog hfollows hacts).symm
    · rw [if_neg htx, h.acted hup tx ((acted_snoc.mp hacted).resolve_right fun hd => htx hd.1)]
      exact congrArg some (stateFromLog_other h.log hlog htx).symm

omit [Host] in
theorem Logged.recovers (h : Logged ds s) : Logged ds s.recover.1 where
  log := h.log
  unknown _ tx hunknown := (states_recover h.log).2 hunknown
  undecided _ tx hundecided := by
    rw [(states_recover h.log).1 hundecided.1, stateFromLog_of_not_acted h.log hundecided.2]
    exact .inr rfl
  acted _ tx hacted := by
    obtain ⟨d, hd, htx, -⟩ := hacted
    rw [(states_recover h.log).1 ⟨d, hd, htx⟩]
    exact congrArg some (stateFromLog_congr rfl)

variable {es es₁ es₂ : List (Event Recovery Line Value)} {participant : String}

/-- What the transactions have seen. -/
def deeds (es : List (Event Recovery Line Value)) : List Deed := es.filterMap fun e => deed e.input

/-- Every transaction sees, while the participant is up, what may follow. -/
def Disciplined (es : List (Event Recovery Line Value)) : Prop := ∀ es₁ e es₂, es = es₁ ++ e :: es₂ →
  ∀ d, deed e.input = some d → e.before.crashed = false ∧ Follows (deeds es₁) d

theorem Disciplined.init (h : Disciplined (es ++ es₂)) : Disciplined es := by
  rintro es₁ e es₃ rfl
  exact h es₁ e (es₃ ++ es₂) (by simp)

theorem Logged.step (h : Logged ds s) (hm : Moves s l s')
    (hd : ∀ d, deed l = some d → s.crashed = false ∧ Follows ds d) : Logged (ds ++ (deed l).toList) s' := by
  cases hm with
  | @acts d hdeed applied =>
    obtain ⟨hup, hfollows⟩ := hd d hdeed
    rw [hdeed]
    exact h.acts hup hfollows applied
  | applies hno applied =>
    rw [hno, Option.toList_none, List.append_nil]
    refine ⟨h.log, h.unknown, h.undecided, fun hup tx hacted => (h.acted hup tx hacted).trans ?_⟩
    have hsame : ({ s with applied := applied }.stateFromLog tx).1 = (s.stateFromLog tx).1 := stateFromLog_congr rfl
    rw [hsame]
  | crashes hno =>
    rw [hno, Option.toList_none, List.append_nil]
    exact ⟨h.log, fun hup => Bool.noConfusion hup, fun hup => Bool.noConfusion hup, fun hup => Bool.noConfusion hup⟩
  | recovers hno =>
    rw [hno, Option.toList_none, List.append_nil]
    exact h.recovers

theorem logged_run (hrun : Run (onLine step) (init participant) es s)
    (hlines : ∀ e ∈ es, e.input.command ≠ "init") (hdisciplined : Disciplined es) : Logged (deeds es) s := by
  refine hrun.history_invariant (P := fun es s => Disciplined es → Logged (deeds es) s)
    (G := fun e => e.input.command ≠ "init") (fun _ => ?_) (fun es s l s' v ih hinit hs hd => ?_) hlines hdisciplined
  · refine ⟨rfl, fun _ tx _ => by simp [init], fun _ tx h => ?_, fun _ tx h => ?_⟩
    · obtain ⟨⟨d, hd, -⟩, -⟩ := h
      cases hd
    · obtain ⟨d, hd, -⟩ := h
      cases hd
  · have hdeeds : deeds (es ++ [⟨s, l, v, s'⟩]) = deeds es ++ (deed l).toList := by
      unfold deeds
      rw [List.filterMap_append]
      cases hd : deed l <;> simp [hd]
    rw [hdeeds]
    exact (ih hd.init).step (step_moves hinit hs) (hd es _ [] rfl)

/-! ## What a crash and a recovery leave -/

def actionOf (v : Value) (tx : String) : Option String := (v.get "actions").bind fun actions => actions.textAt tx

omit [Host] in
theorem lookup_map (f : String → Value) (txs : List String) :
    (txs.map fun tx => (tx, f tx)).lookup tx = if tx ∈ txs then some (f tx) else none := by
  induction txs with
  | nil => rfl
  | cons a txs ih =>
    rw [List.map_cons, List.lookup_cons, ih]
    by_cases ha : tx = a
    · subst ha
      rw [beq_self_eq_true, if_pos List.mem_cons_self]
    · rw [beq_eq_false_iff_ne.mpr ha]
      by_cases htx : tx ∈ txs
      · rw [if_pos htx, if_pos (List.mem_cons_of_mem _ htx)]
      · rw [if_neg htx, if_neg fun h => htx ((List.mem_cons.mp h).resolve_left ha)]

omit [Host] in
theorem actionOf_recover (hlog : s.log = ds.map Deed.record) {action : String} :
    actionOf s.recover.2 tx = some action ↔ Known ds tx ∧ (s.stateFromLog tx).2 = action := by
  have hlookup : actionOf s.recover.2 tx =
      ((s.transactions.map fun tx => (tx, Value.str (s.stateFromLog tx).2)).lookup tx).bind Value.asStr := rfl
  rw [hlookup, lookup_map (fun tx => Value.str (s.stateFromLog tx).2), ← mem_transactions hlog]
  split
  · rename_i hin
    exact ⟨fun h => ⟨hin, Option.some.inj h⟩, fun h => congrArg some h.2⟩
  · rename_i hout
    exact iff_of_false (by simp) fun h => hout h.1

/-- What a `recover` brings back of `s`, the state before the crash, and says about it. -/
structure Rebuilds (ds : List Deed) (s s' : Recovery) (answer : Value) : Prop where
  kept : ∀ tx, ¬ Undecided ds tx → s'.states[tx]? = s.states[tx]?
  presumed : ∀ tx, Undecided ds tx → s'.states[tx]? = some "aborted"
  redo : ∀ tx, actionOf answer tx = some "redo" ↔ s.states[tx]? = some "committed" ∧ tx ∉ s.applied
  ask : ∀ tx, actionOf answer tx = some "ask-coordinator" ↔ s.states[tx]? = some "prepared"

omit [Host] in
theorem Logged.state_iff (h : Logged ds s) (hup : s.crashed = false) {state : String} (hworking : state ≠ "working")
    (haborted : state ≠ "aborted") : s.states[tx]? = some state ↔ Known ds tx ∧ (s.stateFromLog tx).1 = state := by
  by_cases hacted : Acted ds tx
  · rw [h.acted hup tx hacted, Option.some_inj]
    obtain ⟨d, hd, htx, -⟩ := hacted
    exact (and_iff_right ⟨d, hd, htx⟩).symm
  · refine iff_of_false (fun hstate => ?_) fun hlogged => ?_
    · by_cases hknown : Known ds tx
      · rcases h.undecided hup tx ⟨hknown, hacted⟩ with hs | hs
        · exact hworking (Option.mem_unique hstate hs)
        · exact haborted (Option.mem_unique hstate hs)
      · cases hstate.symm.trans (h.unknown hup tx hknown)
    · rw [stateFromLog_of_not_acted h.log hacted] at hlogged
      exact haborted hlogged.2.symm

omit [Host] in
theorem Logged.rebuilds (h : Logged ds s) (hup : s.crashed = false) :
    Rebuilds ds s s.crash.1.recover.1 s.crash.1.recover.2 where
  kept tx hdone := by
    by_cases hacted : Acted ds tx
    · obtain ⟨d, hd, htx, hne⟩ := hacted
      rw [(states_recover (s := s.crash.1) h.log).1 ⟨d, hd, htx⟩, h.acted hup tx ⟨d, hd, htx, hne⟩]
      exact congrArg some (stateFromLog_congr rfl)
    · have hunknown : ¬ Known ds tx := fun hknown => hdone ⟨hknown, hacted⟩
      rw [(states_recover (s := s.crash.1) h.log).2 hunknown, h.unknown hup tx hunknown]
  presumed tx hundecided := by
    rw [(states_recover (s := s.crash.1) h.log).1 hundecided.1,
      stateFromLog_of_not_acted (s := s.crash.1) h.log hundecided.2]
  redo tx := by
    rw [actionOf_recover (s := s.crash.1) h.log, redo_iff, h.state_iff hup (by simp) (by simp), and_assoc]
    exact Iff.rfl
  ask tx := by
    rw [actionOf_recover (s := s.crash.1) h.log, ask_iff, h.state_iff hup (by simp) (by simp)]
    exact Iff.rfl

omit [Host] in
/-- What `recover` answers and leaves depends on what is durable alone. -/
theorem recover_congr (hlog : s'.log = s.log) (happlied : s'.applied = s.applied) :
    s'.recover.2 = s.recover.2 ∧ s'.recover.1.states = s.recover.1.states := by
  have hstate : s'.stateFromLog = s.stateFromLog := by
    funext tx
    unfold stateFromLog logged
    rw [hlog, happlied]
  have htxs : s'.transactions = s.transactions := by
    unfold transactions
    rw [hlog]
  unfold recover
  rw [hstate, htxs]
  exact ⟨rfl, rfl⟩

def Restarts (l : Line) : Prop := l.command = "crash" ∨ l.command = "recover"

theorem step_crash (hl : l.command = "crash") (hs : onLine step s l = some (s', v)) : s' = s.crash.1 := by
  unfold onLine at hs
  rw [hl] at hs
  exact (state_eq hs)

theorem step_recover (hl : l.command = "recover") (hs : onLine step s l = some (s', v)) :
    s' = s.recover.1 ∧ v = s.recover.2 := by
  unfold onLine at hs
  rw [hl] at hs
  obtain ⟨hstate, hanswer⟩ := Prod.mk.inj (Option.some.inj hs)
  exact ⟨hstate.symm, hanswer.symm⟩

theorem durable_of_restarts {m : Recovery} (hrun : Run (onLine step) m es s)
    (hlines : ∀ e ∈ es, Restarts e.input) : s.log = m.log ∧ s.applied = m.applied := by
  refine hrun.invariant (P := fun s => s.log = m.log ∧ s.applied = m.applied) (G := fun _ l => Restarts l) ⟨rfl, rfl⟩
    (fun s l s' v h hl hs => ?_) hlines
  rcases hl with hl | hl
  · rw [step_crash hl hs]
    exact h
  · rw [(step_recover hl hs).1]
    exact h

variable {c r : Event Recovery Line Value}

structure CrashesAndRecovers (c r : Event Recovery Line Value) : Prop where
  crash : c.input.command = "crash"
  recover : r.input.command = "recover"
  up : c.before.crashed = false

/-- **The log brings back the outcome**: after a crash and a recovery every transaction has the state it had, or is
aborted if it had only begun; what is done about each is as its state and what was applied ask for; and however
often the participant crashes and recovers then, each recovery gives the same answer, leaves the same states, and
leaves the log as it was at the crash. -/
theorem recovery_rebuilds (hrun : Run (onLine step) (init participant) es s)
    (hlines : ∀ e ∈ es, e.input.command ≠ "init") (hdisciplined : Disciplined es) :
    (∀ es₁ c r es₂, es = es₁ ++ c :: r :: es₂ → CrashesAndRecovers c r →
      Rebuilds (deeds es₁) c.before r.after r.output ∧ r.after.log = c.before.log) ∧
    (∀ es₁ c r es₂ r' es₃, es = es₁ ++ c :: r :: es₂ ++ r' :: es₃ → CrashesAndRecovers c r →
      (∀ e ∈ es₂, Restarts e.input) → r'.input.command = "recover" →
        r'.output = r.output ∧ r'.after.states = r.after.states ∧ r'.after.log = c.before.log) := by
  -- the state that the recovery finds is the one that the crash has left
  have hfirst {es₁ es₂ : List (Event Recovery Line Value)} {c r : Event Recovery Line Value}
      (hes : es = es₁ ++ c :: r :: es₂) (hpair : CrashesAndRecovers c r) :
      r.after = c.before.crash.1.recover.1 ∧ r.output = c.before.crash.1.recover.2 := by
    have hc := hrun.step_of_mem (e := c) (by simp [hes])
    have hr := hrun.step_of_mem (e := r) (by simp [hes])
    have hbefore : r.before = c.after := (hrun.split (by rw [hes, List.append_cons])).eq_after
    obtain ⟨hafter, houtput⟩ := step_recover hpair.recover hr
    rw [hafter, houtput, hbefore, step_crash hpair.crash hc]
    exact ⟨rfl, rfl⟩
  constructor
  · rintro es₁ c r es₂ rfl hpair
    obtain ⟨hafter, houtput⟩ := hfirst rfl hpair
    have hlogged := logged_run (hrun.split rfl) (fun e he => hlines e (List.mem_append_left _ he)) hdisciplined.init
    rw [hafter, houtput]
    exact ⟨hlogged.rebuilds hpair.up, rfl⟩
  · rintro es₁ c r es₂ r' es₃ rfl hpair hbetween hrecover
    have hshape : es₁ ++ c :: r :: es₂ ++ r' :: es₃ = es₁ ++ c :: r :: (es₂ ++ r' :: es₃) := by simp
    obtain ⟨hafter, houtput⟩ := hfirst hshape hpair
    obtain ⟨hafter', houtput'⟩ := step_recover hrecover (hrun.step_of_mem (e := r') (by simp))
    have hto : Run (onLine step) (init participant) (es₁ ++ c :: r :: es₂) r'.before := hrun.split rfl
    rw [List.append_cons, List.append_cons] at hto
    obtain ⟨m, hm, hrest⟩ := hto.append_inv
    obtain rfl := hm.eq_after
    obtain ⟨hlog, happlied⟩ := durable_of_restarts hrest hbetween
    rw [hafter] at hlog happlied
    have hlog' : r'.before.log = c.before.crash.1.log := hlog
    obtain ⟨hanswer, hstates⟩ := recover_congr hlog' happlied
    rw [hafter', houtput', hafter, houtput]
    exact ⟨hanswer, hstates, hlog'⟩

def orderly : List Deed → List (Event Recovery Line Value) → Bool
  | _, [] => true
  | ds, e :: es =>
    match deed e.input with
    | none => orderly ds es
    | some d => !e.before.crashed && Decidable.decide (Follows ds d) && orderly (ds ++ [d]) es

theorem follows_of_orderly (h : orderly ds es = true) {e : Event Recovery Line Value} (hes : es = es₁ ++ e :: es₂)
    {d : Deed} (hd : deed e.input = some d) : e.before.crashed = false ∧ Follows (ds ++ deeds es₁) d := by
  induction es₁ generalizing ds es with
  | nil =>
    subst hes
    rw [List.nil_append, orderly, hd] at h
    obtain ⟨hfirst, -⟩ := Bool.and_eq_true_iff.mp h
    obtain ⟨hup, hfollows⟩ := Bool.and_eq_true_iff.mp hfirst
    rw [deeds, List.filterMap_nil, List.append_nil]
    exact ⟨Bool.not_eq_true' _ ▸ hup, of_decide_eq_true hfollows⟩
  | cons e' es₁ ih =>
    subst hes
    rw [List.cons_append, orderly] at h
    unfold deeds
    rw [List.filterMap_cons]
    cases hd' : deed e'.input with
    | none =>
      rw [hd'] at h
      exact ih h rfl
    | some d' =>
      rw [hd'] at h
      rw [List.append_cons]
      exact ih (Bool.and_eq_true_iff.mp h).2 rfl

end

/-! One transaction has only begun, one is prepared, one committed and one aborted. -/

@[reducible] def oneHost : Host := hostOf []

def fourTransactions : List Line :=
  [⟨"begin", ["t1"]⟩, ⟨"begin", ["t2"]⟩, ⟨"begin", ["t3"]⟩, ⟨"prepare", ["t2", "yes"]⟩, ⟨"begin", ["t4"]⟩,
    ⟨"prepare", ["t3", "yes"]⟩, ⟨"decide", ["t3", "commit"]⟩, ⟨"prepare", ["t4", "no"]⟩, ⟨"crash", []⟩,
    ⟨"recover", []⟩, ⟨"crash", []⟩, ⟨"recover", []⟩]

theorem recovery_rebuilds_four : ∃ es₁ c r c' r' s, Run (onLine (@step oneHost)) (init "p1")
    (es₁ ++ [c, r, c', r']) s ∧ (es₁ ++ [c, r, c', r']).map Event.input = fourTransactions ∧
    ["t1", "t2", "t3", "t4"].map (actionOf r.output) =
      [some "abort", some "ask-coordinator", some "redo", some "none"] ∧
    Rebuilds (@deeds oneHost es₁) c.before r.after r.output ∧ r'.output = r.output ∧
    r'.after.log = c.before.log := by
  let _ : Host := oneHost
  obtain ⟨es, s, c, r, c', r', hrun, hinputs, horderly, hlast, hc, hr, hc', hr', hup, hactions⟩ :
      ∃ es s c r c' r', Run (onLine step) (init "p1") es s ∧ es.map Event.input = fourTransactions ∧
        orderly [] es = true ∧ es.drop 8 = [c, r, c', r'] ∧ c.input.command = "crash" ∧
        r.input.command = "recover" ∧ c'.input.command = "crash" ∧ r'.input.command = "recover" ∧
        c.before.crashed = false ∧ ["t1", "t2", "t3", "t4"].map (actionOf r.output) =
          [some "abort", some "ask-coordinator", some "redo", some "none"] :=
    ⟨_, _, _, _, _, _, run_of_exec fourTransactions rfl, rfl, rfl, rfl, rfl, rfl, rfl, rfl, rfl, rfl⟩
  have hsplit : es = es.take 8 ++ [c, r, c', r'] := by rw [← hlast, List.take_append_drop]
  have hlines : ∀ e ∈ es, e.input.command ≠ "init" := by
    intro e he
    have hall : ∀ l ∈ fourTransactions, l.command ≠ "init" := by decide
    exact hall _ (hinputs ▸ List.mem_map_of_mem he)
  have hdisciplined : Disciplined es := fun es₁ e es₂ hes d hd => follows_of_orderly horderly hes hd
  obtain ⟨hfirst, hfurther⟩ := recovery_rebuilds hrun hlines hdisciplined
  obtain ⟨hrebuilds, -⟩ := hfirst _ c r [c', r'] hsplit ⟨hc, hr, hup⟩
  have hshape : es = es.take 8 ++ c :: r :: [c'] ++ r' :: [] := by
    rw [List.append_assoc]
    exact hsplit
  obtain ⟨hanswer, -, hlog⟩ := hfurther _ c r [c'] r' [] hshape ⟨hc, hr, hup⟩
    (fun e he => .inl (List.mem_singleton.mp he ▸ hc')) hr'
  refine ⟨es.take 8, c, r, c', r', s, ?_, ?_, hactions, hrebuilds, hanswer, hlog⟩
  · rwa [← hsplit]
  · rwa [← hsplit]

end BuildYourOwn.Commit.Recovery
