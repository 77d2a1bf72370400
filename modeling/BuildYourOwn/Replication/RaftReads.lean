import Mathlib.Data.Fintype.Card
import BuildYourOwn.Topic.Command

/-!
# `raft-reads`: pre-vote, ReadIndex and leadership transfer

Model of `RaftReads` in `disttest/examples/alg/replication.rs`: a leader, the nodes that cannot hear it, and
how far the log is committed and applied. An answer that needs a majority counts the nodes that are not
partitioned (`reachable`).

* `init` makes a vector of as many flags as there are nodes and every other command checks a node against that
  number, so a node is a `Fin nodes`.
* `append`, `campaign` and `transfer` panic when an index or a term leaves `i64`.
-/

namespace BuildYourOwn.Replication

open Topic

/-- `RaftReads`: `partitioned` are the nodes that cannot hear the leader. -/
structure RaftReads where
  nodes : Nat
  term : Int
  leader : Option (Fin nodes)
  commitIndex : Int
  applied : Int
  partitioned : Vector Bool nodes
  prevote : Bool

namespace RaftReads

/-- `RaftReads::default`, the state a topic starts in. -/
def default : RaftReads where
  nodes := 0
  term := 0
  leader := none
  commitIndex := 0
  applied := 0
  partitioned := .replicate 0 false
  prevote := false

def quorum (s : RaftReads) : Nat := s.nodes / 2 + 1

/-- `reachable`: how many nodes are not partitioned. -/
def reachable (s : RaftReads) : Nat :=
  ((List.finRange s.nodes).filter fun i => !s.partitioned[i]).length

/-- The node is partitioned. -/
def away (s : RaftReads) (i : Fin s.nodes) : Bool := s.partitioned[i]

/-- A leader as JSON, or `null`. -/
def leaderOr (s : RaftReads) : Value := Value.ofOption (fun i : Fin s.nodes => .num i.val) s.leader

/-! ## The commands -/

def init (s : RaftReads) (n : Nat) : RaftReads × Value :=
  if h : n = 0 then (s, err "a cluster needs at least one node")
  else
    let s : RaftReads :=
      { nodes := n, term := 1, leader := some ⟨0, Nat.pos_of_ne_zero h⟩, commitIndex := 0, applied := 0,
        partitioned := .replicate n false, prevote := true }
    (s, .obj [("ok", .bool true), ("nodes", .num n), ("term", .num s.term), ("leader", s.leaderOr)])

/-- `prevote`. -/
def setPrevote [Host] (s : RaftReads) (w : String) : RaftReads × Value :=
  if w = "on" then ({ s with prevote := true }, .obj [("ok", .bool true), ("prevote", .bool true)])
  else if w = "off" then ({ s with prevote := false }, .obj [("ok", .bool true), ("prevote", .bool false)])
  else (s, err ("expected on or off, got " ++ debugStr w))

/-- A command on the node `i`, which has to exist. -/
def onNode (s : RaftReads) (i : Nat) (k : Fin s.nodes → Handled RaftReads) : Handled RaftReads :=
  if h : i < s.nodes then k ⟨i, h⟩ else some (s, err ("no node " ++ toString i))

/-- `partition` and `heal`. -/
def setPartitioned (s : RaftReads) (i : Fin s.nodes) (away : Bool) : RaftReads × Value :=
  ({ s with partitioned := s.partitioned.set i away },
    .obj [("ok", .bool true), ("node", .num i.val), ("partitioned", .bool away)])

/-- `append`: the leader commits one entry, if it still has a quorum. -/
def append (s : RaftReads) : Handled RaftReads :=
  if s.leader.isNone = true ∨ s.reachable < s.quorum then
    some (s, .obj [("ok", .bool true), ("committed", .bool false), ("reason", .str "no quorum")])
  else
    (addI64 s.commitIndex 1).map fun index =>
      ({ s with commitIndex := index },
        .obj [("ok", .bool true), ("committed", .bool true), ("index", .num index)])

def apply (s : RaftReads) : RaftReads × Value :=
  ({ s with applied := s.commitIndex }, .obj [("ok", .bool true), ("applied", .num s.commitIndex)])

/-- `campaign`: a partitioned candidate can reach only itself, and with pre-vote on it asks before it
raises the term. -/
def campaign (s : RaftReads) (i : Fin s.nodes) : Handled RaftReads :=
  let votes := if s.partitioned[i] then 1 else s.reachable
  if s.prevote = true ∧ votes < s.quorum then
    some (s, .obj [("ok", .bool true), ("became_leader", .bool false), ("term", .num s.term),
      ("term_raised", .bool false), ("reason", .str "pre-vote failed")])
  else
    (addI64 s.term 1).map fun term =>
      let won := decide (s.quorum ≤ votes)
      ({ s with term := term, leader := if won then some i else s.leader },
        .obj [("ok", .bool true), ("became_leader", .bool won), ("term", .num term),
          ("term_raised", .bool true), ("reason", .str (if won then "elected" else "no majority"))])

/-- `read-index`: the leader must still hear a quorum, and it must have applied everything it has
committed. -/
def readIndex (s : RaftReads) : Value :=
  if s.leader.isNone then
    .obj [("ok", .bool true), ("served", .bool false), ("reason", .str "no leader")]
  else if s.reachable < s.quorum then
    .obj [("ok", .bool true), ("served", .bool false), ("reason", .str "lost quorum"),
      ("read_index", .num s.commitIndex)]
  else if s.applied < s.commitIndex then
    .obj [("ok", .bool true), ("served", .bool false), ("reason", .str "state machine is behind"),
      ("read_index", .num s.commitIndex), ("applied", .num s.applied)]
  else
    .obj [("ok", .bool true), ("served", .bool true), ("read_index", .num s.commitIndex),
      ("applied", .num s.applied)]

/-- `transfer`: leadership moves without an election. -/
def transfer (s : RaftReads) (i : Fin s.nodes) : Handled RaftReads :=
  if s.leader.isNone then
    some (s, .obj [("ok", .bool true), ("transferred", .bool false), ("reason", .str "no leader")])
  else if s.partitioned[i] then
    some (s, .obj [("ok", .bool true), ("transferred", .bool false),
      ("reason", .str "target is unreachable")])
  else
    (addI64 s.term 1).map fun term =>
      ({ s with term := term, leader := some i },
        .obj [("ok", .bool true), ("transferred", .bool true), ("leader", .num i.val), ("term", .num term)])

def state (s : RaftReads) : Value :=
  .obj [("ok", .bool true), ("term", .num s.term), ("leader", s.leaderOr),
    ("commit_index", .num s.commitIndex), ("applied", .num s.applied), ("quorum", .num s.quorum),
    ("reachable", .num s.reachable), ("prevote", .bool s.prevote)]

def step [Host] (s : RaftReads) (command : String) (args : List String) : Handled RaftReads :=
  match command with
  | "init" => arg s (uint args 0) fun n => some (s.init n)
  | "prevote" => arg s (word args 0) fun w => some (s.setPrevote w)
  | "partition" => arg s (uint args 0) fun i => s.onNode i fun i => some (s.setPartitioned i true)
  | "heal" => arg s (uint args 0) fun i => s.onNode i fun i => some (s.setPartitioned i false)
  | "append" => s.append
  | "apply" => some s.apply
  | "campaign" => arg s (uint args 0) fun i => s.onNode i fun i => s.campaign i
  | "read-index" => some (s, s.readIndex)
  | "transfer" => arg s (uint args 0) fun i => s.onNode i fun i => s.transfer i
  | "state" => some (s, s.state)
  | other => some (s, err ("unknown command " ++ debugStr other))

end RaftReads

end BuildYourOwn.Replication

/-!
## Who a leader that serves a read can hear

`read-index` serves and `append` commits when as many nodes as a majority are not partitioned. `reachable` is
to count the nodes that the leader can hear, itself included, but it never looks at the leader: when the leader
is the one that is cut off, the majority that is counted is the rest of the cluster (`Cut`).

**`read_index_hears_majority`**: in every run that has no `append` or `read-index` of that kind, and in no
other, each of these answers comes from a leader inside an unpartitioned majority, and a served read has
everything applied that was committed.
-/

namespace BuildYourOwn.Replication.RaftReads

open Lib Topic

variable {s s' : RaftReads} {l : Line} {v : Value}

/-! ## The majority of the leader -/

structure Hears (s : RaftReads) (i : Fin s.nodes) : Prop where
  leader : s.away i = false ∨ s.quorum = 1
  majority : ∃ ns : Finset (Fin s.nodes), i ∈ ns ∧ (∀ n ∈ ns, s.away n = false) ∧ s.quorum ≤ ns.card

def heard (s : RaftReads) : Finset (Fin s.nodes) := Finset.univ.filter fun i => s.away i = false

variable {i : Fin s.nodes}

theorem mem_heard : i ∈ s.heard ↔ s.away i = false := by
  unfold heard
  rw [Finset.mem_filter]
  exact and_iff_right (Finset.mem_univ i)

theorem card_heard : s.heard.card = s.reachable := by
  have hnodup : ((List.finRange s.nodes).filter fun i => !s.partitioned[i]).Nodup :=
    (List.nodup_finRange s.nodes).filter _
  unfold reachable
  rw [← List.toFinset_card_of_nodup hnodup]
  congr 1
  ext i
  rw [mem_heard, List.mem_toFinset, List.mem_filter, Bool.not_eq_true']
  exact (and_iff_right (List.mem_finRange i)).symm

theorem hears_iff (hquorum : s.quorum ≤ s.reachable) : s.Hears i ↔ s.away i = false := by
  constructor
  · rintro ⟨-, ns, hi, hns, -⟩
    exact hns i hi
  · intro hi
    exact ⟨.inl hi, s.heard, mem_heard.mpr hi, fun n hn => mem_heard.mp hn, card_heard ▸ hquorum⟩

/-! ## Which lines are answered with a read or a commit -/

def Asks (s : RaftReads) (l : Line) : Prop :=
  l.command = "append" ∨ l.command = "read-index" ∧ s.commitIndex ≤ s.applied

/-- The answer serves a read or commits an entry. -/
def grants (v : Value) : Bool := v.flagAt "served" == some true || v.flagAt "committed" == some true

theorem grants_err (message : String) : grants (err message) = false :=
  Bool.or_eq_false_iff.mpr ⟨beq_eq_false_iff_ne.mpr (flagAt_err _ _), beq_eq_false_iff_ne.mpr (flagAt_err _ _)⟩

theorem append_grants (h : s.append = some (s', v)) :
    grants v = true ↔ s.leader.isSome = true ∧ s.quorum ≤ s.reachable := by
  unfold append at h
  split at h
  · rename_i hno
    cases h
    refine iff_of_false (show ¬ false = true from Bool.false_ne_true) ?_
    rintro ⟨hsome, hquorum⟩
    rcases hno with hnone | hlt
    · rw [Option.isNone_iff_eq_none.mp hnone, Option.isSome_none] at hsome
      exact Bool.false_ne_true hsome
    · omega
  · rename_i hyes
    obtain ⟨hsome, hquorum⟩ := not_or.mp hyes
    obtain ⟨index, -, heq⟩ := Option.map_eq_some_iff.mp h
    cases heq
    exact iff_of_true rfl ⟨Option.isSome_iff_ne_none.mpr (by simpa using hsome), by omega⟩

/-- `append` says nothing about a read. -/
theorem append_not_served (h : s.append = some (s', v)) : v.flagAt "served" = none := by
  unfold append at h
  split at h
  · cases h
    rfl
  · obtain ⟨index, -, heq⟩ := Option.map_eq_some_iff.mp h
    cases heq
    rfl

theorem readIndex_grants : grants s.readIndex = true ↔
    s.commitIndex ≤ s.applied ∧ s.leader.isSome = true ∧ s.quorum ≤ s.reachable := by
  have hno : ¬ false = true := Bool.false_ne_true
  unfold readIndex
  split
  · rename_i hnone
    refine iff_of_false hno ?_
    rintro ⟨-, hsome, -⟩
    rw [Option.isNone_iff_eq_none.mp hnone, Option.isSome_none] at hsome
    exact hno hsome
  rename_i hsome
  split
  · exact iff_of_false hno fun h => by omega
  split
  · exact iff_of_false hno fun h => by omega
  · exact iff_of_true rfl ⟨by omega, Option.isSome_iff_ne_none.mpr (by simpa using hsome), by omega⟩

/-! ## What the other lines leave -/

/-- The state machine is not ahead of the log. -/
def Behind (s : RaftReads) : Prop := s.applied ≤ s.commitIndex

structure Quiet (s s' : RaftReads) (v : Value) : Prop where
  answer : grants v = false
  behind : s.Behind → s'.Behind

theorem Quiet.same (h : grants v = false) : Quiet s s v := ⟨h, id⟩

theorem Quiet.error (message : String) : Quiet s s (err message) := .same (grants_err message)

theorem init_quiet (n : Nat) : Quiet s (s.init n).1 (s.init n).2 := by
  unfold init
  split
  · exact .error _
  · exact ⟨rfl, fun _ => Int.le_refl 0⟩

theorem apply_quiet : Quiet s s.apply.1 s.apply.2 := ⟨rfl, fun _ => Int.le_refl s.commitIndex⟩

theorem campaign_quiet (h : s.campaign i = some (s', v)) : Quiet s s' v := by
  unfold campaign at h
  dsimp only at h
  generalize (if s.partitioned[i] = true then 1 else s.reachable) = votes at h
  split at h
  · cases h
    exact .same rfl
  · obtain ⟨term, -, heq⟩ := Option.map_eq_some_iff.mp h
    cases heq
    exact ⟨rfl, id⟩

theorem transfer_quiet (h : s.transfer i = some (s', v)) : Quiet s s' v := by
  unfold transfer at h
  split at h
  · cases h
    exact .same rfl
  split at h
  · cases h
    exact .same rfl
  · obtain ⟨term, -, heq⟩ := Option.map_eq_some_iff.mp h
    cases heq
    exact ⟨rfl, id⟩

theorem onNode_quiet {i : Nat} {k : Fin s.nodes → Handled RaftReads}
    (hk : ∀ i, k i = some (s', v) → Quiet s s' v) (h : s.onNode i k = some (s', v)) : Quiet s s' v := by
  unfold onNode at h
  split at h
  · exact hk _ h
  · cases h
    exact .error _

section

variable [Host]

theorem setPrevote_quiet (w : String) : Quiet s (s.setPrevote w).1 (s.setPrevote w).2 := by
  unfold setPrevote
  split
  · exact ⟨rfl, id⟩
  split
  · exact ⟨rfl, id⟩
  · exact .error _

omit [Host] in
theorem uint_quiet {args : List String} {k : Nat → Handled RaftReads}
    (hk : ∀ n, k n = some (s', v) → Quiet s s' v) (h : arg s (uint args 0) k = some (s', v)) : Quiet s s' v := by
  rcases arg_eq_some.mp h with ⟨hn, rfl⟩ | ⟨n, -, h⟩
  · obtain ⟨message, rfl⟩ := uint_error hn
    exact .error message
  · exact hk n h

omit [Host] in
theorem quiet_of_eq {r : RaftReads × Value} (hr : Quiet s r.1 r.2) (h : some r = some (s', v)) : Quiet s s' v := by
  cases h
  exact hr

/-- **What a line leaves**: only `append` and `read-index` grant anything. -/
theorem step_cases (hs : onLine step s l = some (s', v)) : Quiet s s' v ∨
    (l.command = "append" ∧ s.append = some (s', v)) ∨ (l.command = "read-index" ∧ s' = s ∧ v = s.readIndex) := by
  obtain ⟨command, args⟩ := l
  unfold onLine step at hs
  dsimp only at hs ⊢
  split at hs
  case h_1 => exact .inl (uint_quiet (fun n => quiet_of_eq (init_quiet n)) hs)
  case h_2 =>
    refine .inl ?_
    rcases arg_eq_some.mp hs with ⟨hw, rfl⟩ | ⟨w, -, hs⟩
    · obtain ⟨message, rfl⟩ := word_error hw
      exact .error message
    · exact quiet_of_eq (setPrevote_quiet w) hs
  case h_3 =>
    exact .inl (uint_quiet (fun n => onNode_quiet fun i => quiet_of_eq ⟨rfl, id⟩) hs)
  case h_4 =>
    exact .inl (uint_quiet (fun n => onNode_quiet fun i => quiet_of_eq ⟨rfl, id⟩) hs)
  case h_5 => exact .inr (.inl ⟨rfl, hs⟩)
  case h_6 => exact .inl (quiet_of_eq apply_quiet hs)
  case h_7 => exact .inl (uint_quiet (fun n => onNode_quiet fun i => campaign_quiet) hs)
  case h_8 =>
    cases hs
    exact .inr (.inr ⟨rfl, rfl, rfl⟩)
  case h_9 => exact .inl (uint_quiet (fun n => onNode_quiet fun i => transfer_quiet) hs)
  case h_10 => exact .inl (quiet_of_eq (.same rfl) hs)
  case h_11 => exact .inl (quiet_of_eq (.error _) hs)

/-- **What is granted**: exactly what is asked of a leader while a majority is not partitioned. -/
theorem grants_iff (hs : onLine step s l = some (s', v)) :
    grants v = true ↔ s.Asks l ∧ s.leader.isSome = true ∧ s.quorum ≤ s.reachable := by
  unfold Asks
  constructor
  · intro hgrants
    rcases step_cases hs with hquiet | ⟨hl, happend⟩ | ⟨hl, -, rfl⟩
    · exact absurd (hgrants.symm.trans hquiet.answer) (by decide)
    · exact ⟨.inl hl, (append_grants happend).mp hgrants⟩
    · obtain ⟨hall, hhears⟩ := readIndex_grants.mp hgrants
      exact ⟨.inr ⟨hl, hall⟩, hhears⟩
  · unfold onLine at hs
    rintro ⟨hl | ⟨hl, hall⟩, hhears⟩
    · rw [hl] at hs
      exact (append_grants hs).mpr hhears
    · rw [hl] at hs
      cases hs
      exact readIndex_grants.mpr ⟨hall, hhears⟩

theorem Behind.step (h : s.Behind) (hs : onLine step s l = some (s', v)) : s'.Behind := by
  rcases step_cases hs with hquiet | ⟨-, happend⟩ | ⟨-, rfl, -⟩
  · exact hquiet.behind h
  · unfold append at happend
    split at happend
    · cases happend
      exact h
    · obtain ⟨index, hindex, heq⟩ := Option.map_eq_some_iff.mp happend
      cases heq
      obtain ⟨-, rfl⟩ := addI64_eq_some.mp hindex
      exact Int.le_trans h (Int.le_add_one (Int.le_refl _))
  · exact h

/-! ## Runs -/

variable {es : List (Event RaftReads Line Value)}

def Cut (s : RaftReads) (l : Line) : Prop :=
  s.Asks l ∧ s.quorum ≤ s.reachable ∧ ∃ i, s.leader = some i ∧ s.away i = true

structure Current (e : Event RaftReads Line Value) : Prop where
  heard : grants e.output = true → ∃ i, e.before.leader = some i ∧ e.before.Hears i
  applied : e.output.flagAt "served" = some true → e.before.applied = e.before.commitIndex

theorem current_iff {e : Event RaftReads Line Value} (hbehind : e.before.Behind)
    (hs : onLine step e.before e.input = some (e.after, e.output)) : Current e ↔ ¬ Cut e.before e.input := by
  constructor
  · rintro ⟨hheard, -⟩ ⟨hasks, hquorum, i, hi, haway⟩
    have hsome : e.before.leader.isSome = true := by rw [hi]; rfl
    obtain ⟨i', hi', hhears⟩ := hheard ((grants_iff hs).mpr ⟨hasks, hsome, hquorum⟩)
    obtain rfl := Option.mem_unique hi hi'
    rw [(hears_iff hquorum).mp hhears] at haway
    exact Bool.false_ne_true haway
  · intro hkept
    refine ⟨fun hgrants => ?_, fun hserved => ?_⟩
    · obtain ⟨hasks, hsome, hquorum⟩ := (grants_iff hs).mp hgrants
      obtain ⟨i, hi⟩ := Option.isSome_iff_exists.mp hsome
      refine ⟨i, hi, (hears_iff hquorum).mpr ?_⟩
      exact Bool.eq_false_iff.mpr fun haway => hkept ⟨hasks, hquorum, i, hi, haway⟩
    · have hgrants : grants e.output = true := by
        unfold grants
        rw [hserved]
        rfl
      rcases step_cases hs with hquiet | ⟨-, happend⟩ | ⟨-, -, hread⟩
      · exact absurd (hgrants.symm.trans hquiet.answer) (by decide)
      · cases hserved.symm.trans (append_not_served happend)
      · rw [hread] at hgrants
        exact Int.le_antisymm hbehind (readIndex_grants.mp hgrants).1

/-- **A granted answer hears a majority**, in every run in which no leader is asked that is cut off while the
others have a majority, and in no other run. -/
theorem read_index_hears_majority (hrun : Run (onLine step) default es s) :
    (∀ e ∈ es, Current e) ↔ ∀ e ∈ es, ¬ Cut e.before e.input := by
  have hbehind {e : Event RaftReads Line Value} (he : e ∈ es) : e.before.Behind := by
    obtain ⟨es₁, es₂, hsplit⟩ := List.append_of_mem he
    exact (hrun.split hsplit).invariant (G := fun _ _ => True) (Int.le_refl 0)
      (fun _ _ _ _ h _ hs => h.step hs) fun _ _ => trivial
  exact forall₂_congr fun e he => current_iff (hbehind he) (hrun.step_of_mem he)

/-- The leader is not cut off. -/
def connected (s : RaftReads) : Bool := s.leader.all fun i => !s.away i

omit [Host] in
theorem not_cut (h : s.connected = true) : ¬ Cut s l := by
  rintro ⟨-, -, i, hi, haway⟩
  unfold connected at h
  rw [hi, Option.all_some, haway] at h
  exact Bool.false_ne_true h

end

/-! Of three nodes, one that follows is cut off, and then the one that leads. -/

@[reducible] def plain : Host := hostOf []

def followerAway : List Line :=
  [⟨"init", ["3"]⟩, ⟨"partition", ["2"]⟩, ⟨"append", []⟩, ⟨"read-index", []⟩, ⟨"apply", []⟩, ⟨"read-index", []⟩]

def leaderAway : List Line := [⟨"init", ["3"]⟩, ⟨"partition", ["0"]⟩, ⟨"append", []⟩, ⟨"apply", []⟩, ⟨"read-index", []⟩]

theorem read_index_hears_majority_follower : ∃ es s, Run (onLine (@step plain)) default es s ∧
    es.map Event.input = followerAway ∧
    es.map (fun e => grants e.output) = [false, false, true, false, false, true] ∧ ∀ e ∈ es, Current e := by
  let _ : Host := plain
  obtain ⟨es, s, hrun, hinputs, hgrants, hconnected⟩ : ∃ es s, Run (onLine step) default es s ∧
      es.map Event.input = followerAway ∧
      es.map (fun e => grants e.output) = [false, false, true, false, false, true] ∧
      es.all (fun e => e.before.connected) = true :=
    ⟨_, _, run_of_exec followerAway rfl, rfl, rfl, rfl⟩
  refine ⟨es, s, hrun, hinputs, hgrants, (read_index_hears_majority hrun).mpr fun e he => ?_⟩
  exact not_cut (List.all_eq_true.mp hconnected e he)

theorem cut_leader_serves : ∃ es s e e', Run (onLine (@step plain)) default es s ∧
    es.map Event.input = leaderAway ∧ es[2]? = some e ∧ e.output.flagAt "committed" = some true ∧
    es[4]? = some e' ∧ e'.output.flagAt "served" = some true ∧ ¬ Current e ∧ ¬ Current e' := by
  obtain ⟨es, s, e, e', hrun, hinputs, he, hcommitted, he', hserved, haway, haway'⟩ :
      ∃ es s e e', Run (onLine (@step plain)) default es s ∧ es.map Event.input = leaderAway ∧
        es[2]? = some e ∧ e.output.flagAt "committed" = some true ∧ es[4]? = some e' ∧
        e'.output.flagAt "served" = some true ∧
        (e.before.connected = false ∧ e.before.quorum ≤ e.before.reachable) ∧
        e'.before.connected = false ∧ e'.before.quorum ≤ e'.before.reachable :=
    ⟨_, _, _, _, run_of_exec leaderAway rfl, rfl, rfl, rfl, rfl, rfl, ⟨rfl, by decide⟩, rfl, by decide⟩
  have hno {e : Event RaftReads Line Value} (hgrants : grants e.output = true)
      (haway : e.before.connected = false ∧ e.before.quorum ≤ e.before.reachable) : ¬ Current e := by
    rintro ⟨hheard, -⟩
    obtain ⟨i, hi, hhears⟩ := hheard hgrants
    have hnone := haway.1
    unfold connected at hnone
    rw [hi, Option.all_some, (hears_iff haway.2).mp hhears] at hnone
    cases hnone
  refine ⟨es, s, e, e', hrun, hinputs, he, hcommitted, he', hserved, hno ?_ haway, hno ?_ haway'⟩
  · unfold grants
    rw [hcommitted]
    exact Bool.or_true _
  · unfold grants
    rw [hserved]
    rfl

end BuildYourOwn.Replication.RaftReads
