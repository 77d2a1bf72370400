import Mathlib.Data.List.Induction
import BuildYourOwn.Lib.Orders
import BuildYourOwn.Topic.Command
import BuildYourOwn.Topic.Map

/-!
# `consistency`: classify a recorded history

Model of `Op`, `register_legal`, `exists_legal_order` and `Consistency` in
`disttest/examples/alg/consistency.rs`. `check` asks for an order of the recorded operations that respects a
precedence and reads like a register, and backtracks over which operation goes next.

The flags and the order are mutable locals of the source, here the state (`Search`) that the search passes on.
The recursion is given as many levels as there are operations, which it never uses up.
-/

namespace BuildYourOwn.Consistency

open Topic

/-- `Op`: one recorded operation on a single register. -/
structure Op where
  client : String
  write : Bool
  value : Int
  start : Int
  fin : Int
  deriving DecidableEq

/-- The loop of `register_legal`, with the value written last. -/
def readsFrom : Int → List Op → Bool
  | _, [] => true
  | current, op :: order =>
    if op.write then readsFrom op.value order else op.value == current && readsFrom current order

/-- `register_legal`: does this order read like a register that starts at zero? -/
def registerLegal (order : List Op) : Bool := readsFrom 0 order

structure Search where
  placed : List Bool
  order : List Op

namespace Search

/-- An operation goes next. -/
def place (s : Search) (i : Nat) (op : Op) : Search := ⟨s.placed.set i true, s.order ++ [op]⟩

/-- And is taken back. -/
def unplace (s : Search) (i : Nat) : Search := ⟨s.placed.set i false, s.order.dropLast⟩

end Search

section

variable (ops : List Op) (precedes : Op → Op → Bool)

/-- Anything that must come before `ops[i]` and is not placed yet blocks it. -/
def blocked (placed : List Bool) (i : Nat) (op : Op) : Bool :=
  (List.range ops.length).any fun j =>
    placed[j]? == some false && j != i && (ops[j]?).any fun other => precedes other op

/-- The loop of `go` over the operations, given `go` for the branches. -/
def tryEach (go : Search → Search × Bool) : List Nat → Search → Search × Bool
  | [], s => (s, false)
  | i :: rest, s =>
    match ops[i]? with
    | none => tryEach go rest s
    | some op =>
      if s.placed[i]? = some true ∨ blocked ops precedes s.placed i op = true then tryEach go rest s
      else if registerLegal (s.place i op).order then
        let (s, found) := go (s.place i op)
        if found then (s, true) else tryEach go rest (s.unplace i)
      else tryEach go rest ((s.place i op).unplace i)

/-- `go`, with the levels it may still descend. -/
def go (levels : Nat) (s : Search) : Search × Bool :=
  if s.order.length = ops.length then (s, registerLegal s.order)
  else
    match levels with
    | 0 => (s, false)
    | levels + 1 => tryEach ops precedes (go levels) (List.range ops.length) s

def existsLegalOrder : Bool :=
  (go ops precedes ops.length ⟨List.replicate ops.length false, []⟩).2

end

/-- `Consistency`: a history of operations on one register. -/
structure History where
  ops : List Op

namespace History

/-- Real time: `a` had finished when `b` started. -/
def realTime (a b : Op) : Bool := decide (a.fin < b.start)

/-- The same, within one client. -/
def programOrder (a b : Op) : Bool := a.client == b.client && decide (a.fin < b.start)

def state (s : History) : Value :=
  .obj [("ok", .bool true), ("ops", .num s.ops.length),
    ("clients", .num ((∅ : StringSet).extend (s.ops.map Op.client)).size)]

def parseKind [Host] (kind : String) : Except Value Bool :=
  if kind = "write" ∨ kind = "w" then .ok true
  else if kind = "read" ∨ kind = "r" then .ok false
  else .error (err ("kind must be read or write, got " ++ debugStr kind))

/-- `op`, with its arguments read. -/
def record (s : History) (op : Op) : History × Value :=
  if op.fin < op.start then (s, err "an operation cannot end before it starts")
  else
    let s : History := ⟨s.ops ++ [op]⟩
    (s, .obj [("ok", .bool true), ("ops", .num s.ops.length)])

def check [Host] (s : History) (model : String) : Value :=
  let answer (precedes : Op → Op → Bool) : Value :=
    .obj [("ok", .bool true), ("model", .str model), ("holds", .bool (existsLegalOrder s.ops precedes))]
  match model with
  | "linearizable" => answer realTime
  | "sequential" => answer programOrder
  | other => err ("unknown model " ++ debugStr other)

def step [Host] (s : History) (command : String) (args : List String) : Handled History :=
  match command with
  | "init" => some (⟨[]⟩, .obj [("ok", .bool true), ("ops", .num 0)])
  | "op" =>
    arg s (word args 0) fun client =>
    arg s (word args 1) fun kind =>
    arg s (parseKind kind) fun write =>
    arg s (int args 2) fun value =>
    arg s (int args 3) fun start =>
    arg s (int args 4) fun fin => some (s.record ⟨client, write, value, start, fin⟩)
  | "check" => arg s (word args 0) fun model => some (s, s.check model)
  | "state" => some (s, s.state)
  | other => some (s, err ("unknown command " ++ debugStr other))

end History

end BuildYourOwn.Consistency

/-!
## `check` finds an order exactly when there is one

The search of `exists_legal_order` follows the rule of `Lib.Orders`: it places an operation that no unplaced one
must precede, gives up on a prefix that does not read like a register, and takes the operation back when the
branch fails, so that the next one is tried in the same place (`Exact`). No prefix of a legal order is illegal,
so nothing that could be completed is given up.

**`check_iff`**: `check linearizable` and `check sequential` answer `holds` exactly when some order of all the
operations respects the precedence and reads like a register, whatever has been recorded; and since what must
precede within a client must precede in real time, linearizable implies sequential.
-/

namespace BuildYourOwn.Consistency

open Lib Topic

/-! ## Reading like a register -/

/-- The value of the last write, and `current` when there has been none. -/
def lastFrom (current : Int) (order : List Op) : Int :=
  (((order.filter Op.write).getLast?).map Op.value).getD current

/-- The value of the last write, and zero when there has been none. -/
def lastWritten (order : List Op) : Int := lastFrom 0 order

/-- Every read returns the value of the most recent write before it. -/
def ReadsLikeRegister (order : List Op) : Prop := ∀ before op after, order = before ++ op :: after →
  op.write = false → op.value = lastWritten before

theorem ReadsLikeRegister.init {order tail : List Op} (h : ReadsLikeRegister (order ++ tail)) :
    ReadsLikeRegister order := by
  rintro before op after rfl hread
  exact h before op (after ++ tail) (by simp) hread

theorem readsLikeRegister_snoc {order : List Op} {op : Op} : ReadsLikeRegister (order ++ [op]) ↔
    ReadsLikeRegister order ∧ (op.write = false → op.value = lastWritten order) := by
  constructor
  · exact fun h => ⟨h.init, h order op [] rfl⟩
  · rintro ⟨h, hlast⟩ before op' after heq hread
    rcases List.eq_nil_or_concat after with rfl | ⟨after, last, rfl⟩
    · obtain ⟨rfl, hop⟩ := List.append_inj' heq rfl
      obtain rfl := List.singleton_inj.mp hop
      exact hlast hread
    · rw [List.concat_eq_append, ← List.cons_append, ← List.append_assoc] at heq
      obtain ⟨rfl, -⟩ := List.append_inj' heq rfl
      exact h before op' after rfl hread

theorem lastFrom_cons (current : Int) (op : Op) (order : List Op) : lastFrom current (op :: order) =
    if op.write = true then lastFrom op.value order else lastFrom current order := by
  unfold lastFrom
  rw [List.filter_cons]
  split
  · rw [List.getLast?_cons, Option.map_some, Option.getD_some]
    cases (order.filter Op.write).getLast? <;> rfl
  · rfl

theorem readsFrom_snoc (current : Int) (order : List Op) (op : Op) : readsFrom current (order ++ [op]) =
    (readsFrom current order && (op.write || op.value == lastFrom current order)) := by
  induction order generalizing current with
  | nil =>
    rw [List.nil_append, readsFrom, readsFrom, readsFrom, readsFrom]
    cases op.write with
    | true => rfl
    | false => exact Bool.and_true _
  | cons first order ih =>
    rw [List.cons_append, lastFrom_cons]
    rw [readsFrom, readsFrom, ih, ih]
    cases first.write with
    | true => rfl
    | false => exact (Bool.and_assoc ..).symm

/-- **`register_legal` decides that an order reads like a register.** -/
theorem registerLegal_iff {order : List Op} : registerLegal order = true ↔ ReadsLikeRegister order := by
  induction order using List.reverseRecOn with
  | nil => exact iff_of_true rfl fun before op after heq => absurd heq (by simp)
  | append_singleton order op ih =>
    have hsnoc := readsFrom_snoc 0 order op
    unfold registerLegal at ih ⊢
    rw [hsnoc, Bool.and_eq_true, ih, readsLikeRegister_snoc]
    refine and_congr_right fun _ => ?_
    unfold lastWritten
    cases op.write with
    | true => simp
    | false => simp

theorem registerLegal_init (order tail : List Op) (h : registerLegal (order ++ tail) = true) :
    registerLegal order = true :=
  registerLegal_iff.mpr (registerLegal_iff.mp h).init

/-! ## The search -/

section

variable {ops : List Op} {precedes : Op → Op → Bool} {s : Search} {i : Nat} {op : Op}

/-- What can follow what is placed. -/
def Open (ops : List Op) (precedes : Op → Op → Bool) (s : Search) : Prop :=
  Completable (fun a b => precedes a b = true) (fun order => registerLegal order = true) s.order
    (unplaced s.placed ops)

structure Fits (ops : List Op) (s : Search) : Prop where
  flags : s.placed.length = ops.length
  whole : s.order.length + (unplaced s.placed ops).length = ops.length

structure Exact (ops : List Op) (precedes : Op → Op → Bool) (s : Search) (answer : Search × Bool) : Prop where
  found : answer.2 = true ↔ Open ops precedes s
  undo : answer.2 = false → answer.1 = s

structure Next (ops : List Op) (precedes : Op → Op → Bool) (s : Search) (i : Nat) (op : Op) : Prop where
  there : ops[i]? = some op
  free : s.placed[i]? = some false
  first : ∀ y ∈ unplaced (s.placed.set i true) ops, ¬ precedes y op = true
  legal : registerLegal (s.place i op).order = true
  opens : Open ops precedes (s.place i op)

theorem blocked_iff : blocked ops precedes s.placed i op = true ↔
    ∃ y ∈ unplaced (s.placed.set i true) ops, precedes y op = true := by
  unfold blocked
  rw [List.any_eq_true]
  constructor
  · rintro ⟨j, hj, hb⟩
    simp only [Bool.and_eq_true, beq_iff_eq, bne_iff_ne] at hb
    obtain ⟨⟨hfree, hne⟩, hany⟩ := hb
    obtain ⟨y, hy, hbefore⟩ := (Option.any_eq_true _ _).mp hany
    exact ⟨y, mem_unplaced_set.mpr ⟨j, hne, hy, hfree⟩, hbefore⟩
  · rintro ⟨y, hy, hbefore⟩
    obtain ⟨j, hne, hj, hfree⟩ := mem_unplaced_set.mp hy
    refine ⟨j, List.mem_range.mpr (List.getElem?_eq_some_iff.mp hj).1, ?_⟩
    simp only [Bool.and_eq_true, beq_iff_eq, bne_iff_ne]
    exact ⟨⟨hfree, hne⟩, (Option.any_eq_true _ _).mpr ⟨y, hj, hbefore⟩⟩

/-- **What is placed can be completed** iff some operation can go next. -/
theorem open_iff_next (hleft : unplaced s.placed ops ≠ []) :
    Open ops precedes s ↔ ∃ i op, Next ops precedes s i op := by
  unfold Open
  rw [completable_iff_next hleft registerLegal_init]
  constructor
  · rintro ⟨op, rest, hperm, hfirst, hlegal, hopen⟩
    obtain ⟨i, hi, hfree⟩ := mem_unplaced.mp (hperm.symm.subset List.mem_cons_self)
    have hrest : rest.Perm (unplaced (s.placed.set i true) ops) :=
      List.Perm.cons_inv (hperm.symm.trans (unplaced_perm hi hfree))
    exact ⟨i, op, hi, hfree, fun y hy => hfirst y (hrest.symm.subset hy), hlegal, hopen.perm hrest⟩
  · rintro ⟨i, op, hi, hfree, hfirst, hlegal, hopen⟩
    exact ⟨op, _, unplaced_perm hi hfree, hfirst, hlegal, hopen⟩

theorem unplace_place (hfree : s.placed[i]? = some false) : (s.place i op).unplace i = s := by
  obtain ⟨hi, hfalse⟩ := List.getElem?_eq_some_iff.mp hfree
  unfold Search.place Search.unplace
  rw [List.set_set, List.dropLast_concat, ← hfalse, List.set_getElem_self]

theorem Fits.place (h : Fits ops s) (hi : ops[i]? = some op) (hfree : s.placed[i]? = some false) :
    Fits ops (s.place i op) := by
  have hlength := (unplaced_perm hi hfree).length_eq
  have hwhole := h.whole
  refine ⟨(List.length_set).trans h.flags, ?_⟩
  show (s.order ++ [op]).length + (unplaced (s.placed.set i true) ops).length = ops.length
  rw [List.length_append, List.length_singleton]
  rw [List.length_cons] at hlength
  omega

theorem Fits.free (h : Fits ops s) (hi : ops[i]? = some op) (htaken : ¬ s.placed[i]? = some true) :
    s.placed[i]? = some false := by
  have hlt : i < s.placed.length := h.flags ▸ (List.getElem?_eq_some_iff.mp hi).1
  rw [List.getElem?_eq_getElem hlt] at htaken ⊢
  cases hb : s.placed[i] with
  | true => exact absurd (congrArg some hb) htaken
  | false => rfl

theorem next_iff (h : Fits ops s) (hi : ops[i]? = some op) : Next ops precedes s i op ↔
    ¬ (s.placed[i]? = some true ∨ blocked ops precedes s.placed i op = true) ∧
      registerLegal (s.place i op).order = true ∧ Open ops precedes (s.place i op) := by
  rw [not_or, blocked_iff]
  constructor
  · rintro ⟨-, hfree, hfirst, hlegal, hopens⟩
    refine ⟨⟨by rw [hfree]; simp, ?_⟩, hlegal, hopens⟩
    rintro ⟨y, hy, hbefore⟩
    exact hfirst y hy hbefore
  · rintro ⟨⟨htaken, hnot⟩, hlegal, hopens⟩
    exact ⟨hi, h.free hi htaken, fun y hy hbefore => hnot ⟨y, hy, hbefore⟩, hlegal, hopens⟩

theorem tryEach_cons {go : Search → Search × Bool} {is : List Nat} (hi : ops[i]? = some op) :
    tryEach ops precedes go (i :: is) s =
      if s.placed[i]? = some true ∨ blocked ops precedes s.placed i op = true then tryEach ops precedes go is s
      else if registerLegal (s.place i op).order = true then
        if (go (s.place i op)).2 = true then ((go (s.place i op)).1, true)
        else tryEach ops precedes go is ((go (s.place i op)).1.unplace i)
      else tryEach ops precedes go is ((s.place i op).unplace i) := by
  rw [tryEach, hi]

/-- **The loop** finds whether one of the operations that it goes through can go next, and undoes what it has
tried. -/
theorem tryEach_exact {go : Search → Search × Bool} (h : Fits ops s)
    (hgo : ∀ i op, Fits ops (s.place i op) → ops[i]? = some op → Exact ops precedes (s.place i op) (go (s.place i op)))
    (is : List Nat) : ((tryEach ops precedes go is s).2 = true ↔ ∃ i ∈ is, ∃ op, Next ops precedes s i op) ∧
      ((tryEach ops precedes go is s).2 = false → (tryEach ops precedes go is s).1 = s) := by
  induction is with
  | nil => exact ⟨iff_of_false (by simp [tryEach]) (by simp), fun _ => rfl⟩
  | cons i is ih =>
    -- when `i` cannot go next, the loop goes on from the same state
    have hskip (hno : ∀ op, ¬ Next ops precedes s i op)
        (heq : tryEach ops precedes go (i :: is) s = tryEach ops precedes go is s) :
        ((tryEach ops precedes go (i :: is) s).2 = true ↔ ∃ i' ∈ i :: is, ∃ op, Next ops precedes s i' op) ∧
          ((tryEach ops precedes go (i :: is) s).2 = false → (tryEach ops precedes go (i :: is) s).1 = s) := by
      rw [heq, ih.1]
      refine ⟨?_, ih.2⟩
      simp only [List.mem_cons, exists_eq_or_imp]
      exact (or_iff_right fun ⟨op, hnext⟩ => hno op hnext).symm
    cases hi : ops[i]? with
    | none =>
      refine hskip (fun op hnext => nomatch hi.symm.trans hnext.there) ?_
      rw [tryEach, hi]
    | some op =>
      have hlooks {op' : Op} (hnext : Next ops precedes s i op') := by
        obtain rfl : op = op' := Option.mem_unique hi hnext.there
        exact (next_iff h hi).mp hnext
      by_cases hblocked : s.placed[i]? = some true ∨ blocked ops precedes s.placed i op = true
      · exact hskip (fun op' hnext => (hlooks hnext).1 hblocked) (by rw [tryEach_cons hi, if_pos hblocked])
      have hfree := h.free hi (not_or.mp hblocked).1
      by_cases hlegal : registerLegal (s.place i op).order = true
      · obtain ⟨hfound, hundo⟩ := hgo i op (h.place hi hfree) hi
        cases hanswer : (go (s.place i op)).2 with
        | true =>
          have hnext : Next ops precedes s i op := (next_iff h hi).mpr ⟨hblocked, hlegal, hfound.mp hanswer⟩
          rw [tryEach_cons hi, if_neg hblocked, if_pos hlegal, if_pos hanswer]
          exact ⟨iff_of_true rfl ⟨i, List.mem_cons_self, op, hnext⟩, nofun⟩
        | false =>
          have hno : ¬ (go (s.place i op)).2 = true := by
            rw [hanswer]
            decide
          refine hskip (fun op' hnext => hno (hfound.mpr (hlooks hnext).2.2)) ?_
          rw [tryEach_cons hi, if_neg hblocked, if_pos hlegal, if_neg hno, hundo hanswer, unplace_place hfree]
      · refine hskip (fun op' hnext => hlegal (hlooks hnext).2.1) ?_
        rw [tryEach_cons hi, if_neg hblocked, if_neg hlegal, unplace_place hfree]

theorem go_all (h : Fits ops s) (hnone : unplaced s.placed ops = []) (levels : Nat) :
    Exact ops precedes s (go ops precedes levels s) := by
  have hlength : s.order.length = ops.length := by
    have hwhole := h.whole
    rwa [hnone, List.length_nil, Nat.add_zero] at hwhole
  unfold go
  rw [if_pos hlength]
  refine ⟨?_, fun _ => rfl⟩
  unfold Open
  rw [hnone, completable_nil]

/-- **The search is exact**, given a level for each operation that is left. -/
theorem go_exact {levels : Nat} (h : Fits ops s) (hlevels : (unplaced s.placed ops).length ≤ levels) :
    Exact ops precedes s (go ops precedes levels s) := by
  induction levels generalizing s with
  | zero =>
    have hnone : unplaced s.placed ops = [] := List.length_eq_zero_iff.mp (Nat.le_zero.mp hlevels)
    exact go_all h hnone 0
  | succ levels ih =>
    by_cases hnone : unplaced s.placed ops = []
    · exact go_all h hnone _
    have hlength : s.order.length ≠ ops.length := by
      have hpos := List.length_pos_iff.mpr hnone
      have hwhole := h.whole
      omega
    have hgo (i : Nat) (op : Op) (hfits : Fits ops (s.place i op)) :
        Exact ops precedes (s.place i op) (go ops precedes levels (s.place i op)) := by
      refine ih hfits ?_
      have hwhole := h.whole
      have hwhole' : (s.order ++ [op]).length + (unplaced (s.place i op).placed ops).length = ops.length :=
        hfits.whole
      rw [List.length_append, List.length_singleton] at hwhole'
      omega
    obtain ⟨hfound, hundo⟩ := tryEach_exact h (fun i op hfits _ => hgo i op hfits) (List.range ops.length)
    unfold go
    rw [if_neg hlength]
    refine ⟨?_, hundo⟩
    rw [hfound, open_iff_next hnone]
    constructor
    · rintro ⟨i, -, op, hnext⟩
      exact ⟨i, op, hnext⟩
    · rintro ⟨i, op, hnext⟩
      exact ⟨i, List.mem_range.mpr (List.getElem?_eq_some_iff.mp hnext.there).1, op, hnext⟩

end

/-! ## The two models -/

structure Explains (precedes : Op → Op → Bool) (ops order : List Op) : Prop where
  whole : order.Perm ops
  respects : order.Pairwise fun a b => ¬ precedes b a = true
  register : ReadsLikeRegister order

/-- **`exists_legal_order`**, for any operations and any precedence. -/
theorem existsLegalOrder_iff {ops : List Op} {precedes : Op → Op → Bool} :
    existsLegalOrder ops precedes = true ↔ ∃ order, Explains precedes ops order := by
  have hfits : Fits ops ⟨List.replicate ops.length false, []⟩ := by
    refine ⟨List.length_replicate, ?_⟩
    rw [unplaced_replicate, List.length_nil, Nat.zero_add]
  have hlevels : (unplaced (List.replicate ops.length false) ops).length ≤ ops.length :=
    Nat.le_of_eq (by rw [unplaced_replicate])
  unfold existsLegalOrder
  rw [(go_exact hfits hlevels).found]
  unfold Open
  rw [unplaced_replicate]
  refine exists_congr fun order => ⟨?_, ?_⟩
  · rintro ⟨hwhole, hrespects, hlegal⟩
    exact ⟨hwhole, hrespects, registerLegal_iff.mp hlegal⟩
  · rintro ⟨hwhole, hrespects, hregister⟩
    exact ⟨hwhole, hrespects, registerLegal_iff.mpr hregister⟩

namespace History

variable [Host]

/-- The history is checked against the model, and `holds`. -/
def Answers (s : History) (model : String) (holds : Bool) : Prop := ∀ rest, ∃ v,
  onLine step s ⟨"check", model :: rest⟩ = some (s, v) ∧ v.flagAt "holds" = some holds

theorem answers_linearizable (s : History) :
    s.Answers "linearizable" (existsLegalOrder s.ops realTime) := fun _ => ⟨_, rfl, rfl⟩

theorem answers_sequential (s : History) :
    s.Answers "sequential" (existsLegalOrder s.ops programOrder) := fun _ => ⟨_, rfl, rfl⟩

theorem Answers.unique {s : History} {model : String} {holds holds' : Bool} (h : s.Answers model holds)
    (h' : s.Answers model holds') : holds = holds' := by
  obtain ⟨v, hs, hflag⟩ := h []
  obtain ⟨v', hs', hflag'⟩ := h' []
  obtain rfl : v = v' := (Prod.mk.inj (Option.mem_unique hs hs')).2
  exact Option.mem_unique hflag hflag'

/-- **`check`** answers `holds` exactly when there is an order of all the operations that respects the precedence
and reads like a register; so what is linearizable is sequential. -/
theorem check_iff (s : History) :
    (s.Answers "linearizable" true ↔ ∃ order, Explains realTime s.ops order) ∧
      (s.Answers "sequential" true ↔ ∃ order, Explains programOrder s.ops order) ∧
      (s.Answers "linearizable" true → s.Answers "sequential" true) := by
  have hlinearizable : s.Answers "linearizable" true ↔ ∃ order, Explains realTime s.ops order := by
    rw [← existsLegalOrder_iff]
    exact ⟨(answers_linearizable s).unique, fun h => h ▸ answers_linearizable s⟩
  have hsequential : s.Answers "sequential" true ↔ ∃ order, Explains programOrder s.ops order := by
    rw [← existsLegalOrder_iff]
    exact ⟨(answers_sequential s).unique, fun h => h ▸ answers_sequential s⟩
  refine ⟨hlinearizable, hsequential, ?_⟩
  rw [hlinearizable, hsequential]
  rintro ⟨order, hwhole, hrespects, hregister⟩
  refine ⟨order, hwhole, hrespects.imp fun hnot hbefore => hnot ?_, hregister⟩
  unfold programOrder at hbefore
  exact (Bool.and_eq_true_iff.mp hbefore).2

end History

/-- A stale read of another client is sequential and not linearizable. -/
example : existsLegalOrder [⟨"a", true, 1, 0, 1⟩, ⟨"b", false, 0, 2, 3⟩] History.realTime = false ∧
    existsLegalOrder [⟨"a", true, 1, 0, 1⟩, ⟨"b", false, 0, 2, 3⟩] History.programOrder = true := by decide

end BuildYourOwn.Consistency
