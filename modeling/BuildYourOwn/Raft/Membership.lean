import Mathlib.Data.List.Sort
import BuildYourOwn.Lib.Majority
import BuildYourOwn.Topic.Command

/-!
# `raft-membership`: joint consensus and single-server changes

Model of `Membership` in `disttest/examples/alg/raft.rs`. A change goes through its phases one
command at a time; `agree` asks whether a set of voters carries a decision in the phase the machine
is in: a majority of the members, and in the joint phase a majority of each side.
-/

namespace BuildYourOwn.Raft

open Lib Topic

/-- `phase`; `unset` is the empty string of a machine before its `init`. -/
inductive Phase
  | unset
  | stable
  | joint
  | new
  | pending
  deriving DecidableEq

def Phase.text : Phase → String
  | unset => ""
  | stable => "stable"
  | joint => "joint"
  | new => "new"
  | pending => "pending"

/-- `Membership`: the configuration of a cluster, and whatever change is in flight over it. -/
structure Membership where
  phase : Phase
  members : List String
  old : List String
  new : List String

/-- `quorum_of`: a majority of a set of voters. -/
def quorumOf (members : List String) : Nat := members.length / 2 + 1

/-- `carries`: is `voters` a majority of `config`? -/
def carries (voters : Finset String) (config : List String) : Bool :=
  decide (quorumOf config ≤ (config.filter fun m => decide (m ∈ voters)).length)

namespace Membership

/-- `sort` on a vector of names. -/
def sorted (names : List String) : List String := names.insertionSort (· ≤ ·)

/-- `voters`: in the joint phase, both configurations. -/
def voters (s : Membership) : List String :=
  if s.phase = .joint then sorted (s.old ++ s.new).dedup else s.members

def quorum (s : Membership) : Nat :=
  if s.phase = .joint then max (quorumOf s.old) (quorumOf s.new) else quorumOf s.members

def names (l : List String) : Value := .arr (l.map .str)

def state (s : Membership) : Value :=
  .obj [("phase", .str s.phase.text), ("members", names s.voters), ("quorum", .num s.quorum)]

def refuse (s : Membership) (error : String) : Value :=
  (s.state.insert "ok" (.bool false)).insert "error" (.str error)

def accept (s : Membership) : Value := s.state.insert "ok" (.bool true)

/-! ## The commands -/

/-- The state `init` leaves. -/
def init (members : List String) : Membership where
  phase := .stable
  members := members
  old := []
  new := []

/-- A change that only `phase` allows: `next` in that phase, a refusal in any other. -/
def during (s : Membership) (phase : Phase) (error : String) (next : Membership × Value) :
    Membership × Value :=
  if s.phase ≠ phase then (s, s.refuse error) else next

/-- `joint`, with its list read. -/
def joint (s : Membership) (new : List String) : Membership × Value :=
  if new = [] then (s, err "the new configuration needs at least one member")
  else
    s.during .stable "a configuration change is already in flight"
      ({ s with old := s.members, new := new, phase := .joint },
        .obj [("ok", .bool true), ("phase", .str "joint"), ("old", names s.members),
          ("new", names new), ("quorum_old", .num (quorumOf s.members)),
          ("quorum_new", .num (quorumOf new))])

/-- `commit-joint`. -/
def commitJoint (s : Membership) : Membership × Value :=
  s.during .joint "there is no joint configuration to commit" <|
    let s := { s with members := s.new, phase := .new }
    (s, s.accept)

/-- `commit-new`. -/
def commitNew (s : Membership) : Membership × Value :=
  s.during .new "there is no new configuration to commit" <|
    let s := { s with old := [], new := [], phase := .stable }
    (s, s.accept)

/-- `agree`, with its voters read: both halves of a joint configuration, or neither. -/
def agree (s : Membership) (voters : Finset String) : Value :=
  if s.phase = .joint then
    let old := carries voters s.old
    let new := carries voters s.new
    let reason := match old, new with
      | true, true => "old and new"
      | true, false => "old only"
      | false, true => "new only"
      | false, false => "neither"
    .obj [("ok", .bool (old && new)), ("reason", .str reason)]
  else
    let ok := carries voters s.members
    .obj [("ok", .bool ok), ("reason", .str (if ok then "majority" else "no majority"))]

def add (s : Membership) (who : String) : Membership × Value :=
  s.during .stable "a configuration change is already in flight" <|
    if who ∈ s.members then (s, s.refuse (who ++ " is already a member"))
    else
      let s := { s with members := sorted (s.members ++ [who]), phase := .pending }
      (s, s.accept)

/-- `remove`: the last member goes out and comes back in before the refusal. -/
def remove (s : Membership) (who : String) : Membership × Value :=
  s.during .stable "a configuration change is already in flight" <|
    if who ∉ s.members then (s, s.refuse (who ++ " is not a member"))
    else
      let members := s.members.filter (· ≠ who)
      if members = [] then
        let s := { s with members := [who] }
        (s, s.refuse "the last member cannot be removed")
      else
        let s := { s with members := members, phase := .pending }
        (s, s.accept)

/-- `commit-change`. -/
def commitChange (s : Membership) : Membership × Value :=
  s.during .pending "there is no single-server change to commit" <|
    let s := { s with phase := .stable }
    (s, s.accept)

def step [Host] (s : Membership) (command : String) (args : List String) : Handled Membership :=
  match command with
  | "init" => arg s (wordList args 0) fun members =>
    if members = [] then some (s, err "a cluster needs at least one member")
    else some (init members, (init members).state)
  | "joint" => arg s (wordList args 0) fun new => some (s.joint new)
  | "commit-joint" => some s.commitJoint
  | "commit-new" => some s.commitNew
  | "agree" => arg s (wordList args 0) fun voters => some (s, s.agree voters.toFinset)
  | "add" => arg s (word args 0) fun who => some (s.add who)
  | "remove" => arg s (word args 0) fun who => some (s.remove who)
  | "commit-change" => some s.commitChange
  | "state" => some (s, s.state)
  | other => some (s, err ("unknown command " ++ debugStr other))

/-! ## What one change can do -/

structure Distinct (s : Membership) : Prop where
  members : s.members.Nodup
  old : s.old.Nodup
  new : s.new.Nodup

/-- What a change command can do to a configuration, given names that are distinct. -/
inductive Moves (s : Membership) : Membership → Prop
  | stays : Moves s s
  | joint (new : List String) (hnew : new.Nodup) (hphase : s.phase = .stable) :
      Moves s { s with old := s.members, new := new, phase := .joint }
  | commitJoint (hphase : s.phase = .joint) : Moves s { s with members := s.new, phase := .new }
  | commitNew (hphase : s.phase = .new) : Moves s { s with old := [], new := [], phase := .stable }
  | add (who : String) (hphase : s.phase = .stable) (hnew : who ∉ s.members) :
      Moves s { s with members := sorted (s.members ++ [who]), phase := .pending }
  | remove (who : String) (hphase : s.phase = .stable) (hmem : who ∈ s.members) :
      Moves s { s with members := s.members.filter (· ≠ who), phase := .pending }
  | commitChange (hphase : s.phase = .pending) : Moves s { s with phase := .stable }

variable {s s' : Membership} {v : Value}

theorem during_moves {phase : Phase} {error : String} {next : Membership × Value}
    (h : s.phase = phase → Moves s next.1) : Moves s (s.during phase error next).1 := by
  unfold during
  by_cases hphase : s.phase = phase
  · rw [if_neg (not_not.mpr hphase)]
    exact h hphase
  · rw [if_pos hphase]
    exact .stays

theorem joint_moves {new : List String} (hnew : new.Nodup) : Moves s (s.joint new).1 := by
  unfold joint
  by_cases hnil : new = []
  · rw [if_pos hnil]
    exact .stays
  · rw [if_neg hnil]
    exact during_moves fun hphase => .joint new hnew hphase

theorem add_moves {who : String} : Moves s (s.add who).1 := by
  refine during_moves fun hphase => ?_
  by_cases hmem : who ∈ s.members
  · rw [if_pos hmem]
    exact .stays
  · rw [if_neg hmem]
    exact .add who hphase hmem

/-- A list that names only `who`, and each name once, is `[who]`. -/
theorem eq_singleton {l : List String} {who : String} (hl : l.Nodup) (hmem : who ∈ l)
    (honly : l.filter (· ≠ who) = []) : l = [who] := by
  have hall : ∀ x ∈ l, x = who := by simpa using honly
  have hlen := List.eq_replicate_iff.mpr ⟨rfl, hall⟩
  have hle := List.nodup_replicate.mp (hlen ▸ hl)
  have hpos := List.length_pos_of_mem hmem
  rwa [show l.length = 1 by omega] at hlen

theorem remove_moves {who : String} (hs : s.members.Nodup) : Moves s (s.remove who).1 := by
  refine during_moves fun hphase => ?_
  by_cases hmem : who ∈ s.members
  · rw [if_neg (not_not.mpr hmem)]
    by_cases hlast : s.members.filter (· ≠ who) = []
    · simp only [if_pos hlast]
      rw [← eq_singleton hs hmem hlast]
      exact .stays
    · simp only [if_neg hlast]
      exact .remove who hphase hmem
  · rw [if_pos hmem]
    exact .stays

theorem Moves.distinct (h : Moves s s') (hs : s.Distinct) : s'.Distinct := by
  cases h with
  | stays => exact hs
  | joint new hnew hphase => exact ⟨hs.members, hs.members, hnew⟩
  | commitJoint hphase => exact ⟨hs.new, hs.old, hs.new⟩
  | commitNew hphase => exact ⟨hs.members, List.nodup_nil, List.nodup_nil⟩
  | add who hphase hmem =>
    refine ⟨?_, hs.old, hs.new⟩
    have hnodup : (s.members ++ [who]).Nodup :=
      List.nodup_append_comm.mp (List.nodup_cons.mpr ⟨hmem, hs.members⟩)
    exact (List.perm_insertionSort _ _).nodup_iff.mpr hnodup
  | remove who hphase hmem => exact ⟨hs.members.filter _, hs.old, hs.new⟩
  | commitChange hphase => exact ⟨hs.members, hs.old, hs.new⟩

end Membership

end BuildYourOwn.Raft

/-!
## Majorities across a membership change

No change of configuration ever lets two disjoint sets of voters decide. A move leads from one
configuration to the next (`Moves`), and each pair of neighbours shares voters for one of three
reasons: the configuration that counts is the same one (`carries_meet`), one side of a joint
configuration is, or the two differ by a single member (`carries_meet_insert`).

**`agreements_meet`**: in every run of change commands from an `init`, the voters `agree` answers ok
for in the state reached and those it answers ok for in that state or after one more change have a
common voter.
-/

namespace BuildYourOwn.Raft

open Lib Topic

variable {a b : Finset String} {config config' : List String}

/-- The members of `config` among the voters. -/
def held (voters : Finset String) (config : List String) : Finset String :=
  config.toFinset.filter (· ∈ voters)

theorem mem_voters {x : String} (h : x ∈ held a config) : x ∈ a := (Finset.mem_filter.mp h).2

theorem held_subset : held a config ⊆ config.toFinset := Finset.filter_subset _ _

/-- `carries` counts the members among the voters, when each is named once. -/
theorem carries_eq_true (hd : config.Nodup) (h : carries a config = true) :
    config.toFinset.card / 2 + 1 ≤ (held a config).card := by
  have hcount : quorumOf config ≤ (config.filter fun m => decide (m ∈ a)).length :=
    of_decide_eq_true h
  have hheld : held a config = (config.filter fun m => decide (m ∈ a)).toFinset := by
    ext x
    simp [held]
  rw [hheld, List.toFinset_card_of_nodup (hd.filter _), List.toFinset_card_of_nodup hd]
  exact hcount

theorem carries_meet (hd : config.Nodup) (ha : carries a config = true)
    (hb : carries b config = true) : ∃ x, x ∈ a ∧ x ∈ b := by
  obtain ⟨x, hxa, hxb⟩ := majorities_meet held_subset held_subset (carries_eq_true hd ha)
    (carries_eq_true hd hb)
  exact ⟨x, mem_voters hxa, mem_voters hxb⟩

theorem carries_meet_insert {who : String} (hwho : who ∉ config) (hd : config.Nodup)
    (hd' : config'.Nodup) (hmem : ∀ x, x ∈ config' ↔ x = who ∨ x ∈ config)
    (ha : carries a config = true) (hb : carries b config' = true) : ∃ x, x ∈ a ∧ x ∈ b := by
  have hset : config'.toFinset = insert who config.toFinset := by
    ext x
    simp [hmem]
  have hb' := carries_eq_true hd' hb
  have hsub : held b config' ⊆ config'.toFinset := held_subset
  rw [hset] at hb' hsub
  obtain ⟨x, hxa, hxb⟩ := majorities_meet_insert (by simpa using hwho) held_subset hsub
    (carries_eq_true hd ha) hb'
  exact ⟨x, mem_voters hxa, mem_voters hxb⟩

namespace Membership

variable {s s' : Membership} {v : Value}

def Agrees (s : Membership) (voters : Finset String) : Prop :=
  if s.phase = .joint then carries voters s.old = true ∧ carries voters s.new = true
  else carries voters s.members = true

theorem agree_eq_true : (s.agree a).flagAt "ok" = some true ↔ s.Agrees a := by
  unfold agree Agrees
  by_cases hphase : s.phase = .joint
  · rw [if_pos hphase, if_pos hphase, ← Bool.and_eq_true]
    exact Option.some_inj
  · rw [if_neg hphase, if_neg hphase]
    exact Option.some_inj

theorem agrees_joint (hphase : s.phase = .joint) (h : s.Agrees a) :
    carries a s.old = true ∧ carries a s.new = true := by
  rwa [Agrees, if_pos hphase] at h

theorem agrees_single (hphase : s.phase ≠ .joint) (h : s.Agrees a) : carries a s.members = true := by
  rwa [Agrees, if_neg hphase] at h

/-- **Neighbouring configurations never decide apart.** -/
theorem Moves.agrees_meet (h : Moves s s') (hs : s.Distinct) (hs' : s'.Distinct)
    (ha : s.Agrees a) (hb : s'.Agrees b) : ∃ x, x ∈ a ∧ x ∈ b := by
  cases h with
  | stays =>
    by_cases hphase : s.phase = .joint
    · exact carries_meet hs.old (agrees_joint hphase ha).1 (agrees_joint hphase hb).1
    · exact carries_meet hs.members (agrees_single hphase ha) (agrees_single hphase hb)
  | joint new hnew hphase =>
    -- the old side of the joint configuration is the one that decided before
    have ha := agrees_single (by simp [hphase]) ha
    exact carries_meet hs.members ha (agrees_joint rfl hb).1
  | commitJoint hphase =>
    -- the new side of the joint configuration is the one that decides after
    exact carries_meet hs.new (agrees_joint hphase ha).2 (agrees_single (by simp) hb)
  | commitNew hphase =>
    have ha := agrees_single (by simp [hphase]) ha
    have hb := agrees_single (by simp) hb
    exact carries_meet hs.members ha hb
  | add who hphase hwho =>
    have ha := agrees_single (by simp [hphase]) ha
    refine carries_meet_insert hwho hs.members hs'.members (fun x => ?_) ha
      (agrees_single (by simp) hb)
    rw [sorted, List.mem_insertionSort, List.mem_append, List.mem_singleton, or_comm]
  | remove who hphase hwho =>
    have ha := agrees_single (by simp [hphase]) ha
    have hb := agrees_single (by simp) hb
    have hmem : ∀ x, x ∈ s.members ↔ x = who ∨ x ∈ s.members.filter (· ≠ who) := by
      intro x
      by_cases hx : x = who
      · simp [hx, hwho]
      · simp [hx]
    -- the configuration after is the smaller one
    obtain ⟨x, hxb, hxa⟩ := carries_meet_insert (by simp) hs'.members hs.members hmem hb ha
    exact ⟨x, hxa, hxb⟩
  | commitChange hphase =>
    have ha := agrees_single (by simp [hphase]) ha
    have hb := agrees_single (by simp) hb
    exact carries_meet hs.members ha hb

/-! ## Runs -/

/-- A change command, whose member list, if it has one, names each member once. -/
def IsChange [Host] (l : Line) : Prop :=
  l.command ∈ ["joint", "commit-joint", "commit-new", "add", "remove", "commit-change"] ∧
    (l.command = "joint" → ∀ new, wordList l.args 0 = .ok new → new.Nodup)

variable [Host]

/-- **A change command is one move.** -/
theorem step_moves {l : Line} (hl : IsChange l) (hs : s.Distinct)
    (h : onLine step s l = some (s', v)) : Moves s s' := by
  obtain ⟨command, args⟩ := l
  obtain ⟨hcommand, hlist⟩ := hl
  simp only [List.mem_cons, List.not_mem_nil, or_false] at hcommand
  rcases hcommand with rfl | rfl | rfl | rfl | rfl | rfl <;>
    simp only [onLine, step, arg_eq_some, Option.some.injEq, Prod.ext_iff] at h
  case inl =>
    rcases h with ⟨-, rfl⟩ | ⟨new, hnew, rfl, -⟩
    · exact .stays
    · exact joint_moves (hlist rfl new hnew)
  case inr.inl =>
    rw [← h.1]
    exact during_moves .commitJoint
  case inr.inr.inl =>
    rw [← h.1]
    exact during_moves .commitNew
  case inr.inr.inr.inl =>
    rcases h with ⟨-, rfl⟩ | ⟨who, -, rfl, -⟩
    · exact .stays
    · exact add_moves
  case inr.inr.inr.inr.inl =>
    rcases h with ⟨-, rfl⟩ | ⟨who, -, rfl, -⟩
    · exact .stays
    · exact remove_moves hs.members
  case inr.inr.inr.inr.inr =>
    rw [← h.1]
    exact during_moves .commitChange

/-- What `agree` answers is what the configuration says of its voters. -/
theorem step_agree {args : List String} {names : List String} (hargs : wordList args 0 = .ok names)
    (h : s.step "agree" args = some (s', v)) (hv : v.flagAt "ok" = some true) : s.Agrees names.toFinset := by
  simp only [step, hargs, arg_ok, Option.some.injEq, Prod.mk.injEq] at h
  rw [← h.2] at hv
  exact agree_eq_true.mp hv

omit [Host] in
theorem init_distinct {members : List String} (h : members.Nodup) : (init members).Distinct :=
  ⟨h, List.nodup_nil, List.nodup_nil⟩

/-- **Membership changes never allow disjoint majorities.** After any run of change commands from an
`init`, and in the state `s'` that is the one reached or follows it by one change command: the
voters that `agree` answers ok for in `s` and those it answers ok for in `s'` share one. -/
theorem agreements_meet {members : List String} (hmembers : members.Nodup)
    {es : List (Event Membership Line Value)} (hrun : Run (onLine step) (init members) es s)
    (hes : ∀ e ∈ es, IsChange e.input)
    (hs' : s' = s ∨ ∃ l, IsChange l ∧ ∃ v, onLine step s l = some (s', v))
    {args args' names names' : List String} (hargs : wordList args 0 = .ok names)
    (hargs' : wordList args' 0 = .ok names') {t t' : Membership} {u u' : Value}
    (h : s.step "agree" args = some (t, u)) (hu : u.flagAt "ok" = some true)
    (h' : s'.step "agree" args' = some (t', u')) (hu' : u'.flagAt "ok" = some true) :
    ∃ x, x ∈ names ∧ x ∈ names' := by
  have hs : s.Distinct :=
    hrun.invariant (G := fun _ l => IsChange l) (init_distinct hmembers)
      (fun _ _ _ _ hs hl hstep => (step_moves hl hs hstep).distinct hs) hes
  have hmoves : Moves s s' := by
    rcases hs' with rfl | ⟨l, hl, v, hstep⟩
    · exact .stays
    · exact step_moves hl hs hstep
  obtain ⟨x, hx, hx'⟩ := hmoves.agrees_meet hs (hmoves.distinct hs) (step_agree hargs h hu)
    (step_agree hargs' h' hu')
  exact ⟨x, List.mem_toFinset.mp hx, List.mem_toFinset.mp hx'⟩

/-! Two members and a third being added: both members decide before it, any two of the three after
it. -/

@[reducible] def ballots : Host :=
  hostOf [("ab", .arr [.str "a", .str "b"]), ("bc", .arr [.str "b", .str "c"])]

/-- The state that `add c` leaves. -/
def adding : Membership := { init ["a", "b"] with members := ["a", "b", "c"], phase := .pending }

omit [Host] in
theorem agreements_meet_add :
    (∃ v, @onLine Membership (@step ballots) (init ["a", "b"]) ⟨"add", ["c"]⟩ = some (adding, v)) ∧
    (∃ v, @step ballots (init ["a", "b"]) "agree" ["ab"] = some (init ["a", "b"], v) ∧
      v.flagAt "ok" = some true) ∧
    (∃ v, @step ballots adding "agree" ["bc"] = some (adding, v) ∧ v.flagAt "ok" = some true) ∧
    ∃ x, x ∈ ["a", "b"] ∧ x ∈ ["b", "c"] := by
  let _ : Host := ballots
  have hadd : ∃ v, onLine step (init ["a", "b"]) ⟨"add", ["c"]⟩ = some (adding, v) := ⟨_, rfl⟩
  have hbefore : ∃ v, step (init ["a", "b"]) "agree" ["ab"] = some (init ["a", "b"], v) ∧
      v.flagAt "ok" = some true := ⟨_, rfl, rfl⟩
  have hafter : ∃ v, step adding "agree" ["bc"] = some (adding, v) ∧
      v.flagAt "ok" = some true := ⟨_, rfl, rfl⟩
  refine ⟨hadd, hbefore, hafter, ?_⟩
  obtain ⟨u, hu, hok⟩ := hbefore
  obtain ⟨u', hu', hok'⟩ := hafter
  exact agreements_meet (by decide) .nil (by simp)
    (.inr ⟨⟨"add", ["c"]⟩, ⟨by decide, fun h => absurd h (by decide)⟩, hadd⟩) rfl rfl hu hok
    hu' hok'

end Membership

end BuildYourOwn.Raft
