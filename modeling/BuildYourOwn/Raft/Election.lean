import Mathlib.Data.Finset.Card
import BuildYourOwn.Topic.Command

/-!
# `raft-election`: one node's election state machine

Model of `Role` and `Election` in `disttest/examples/alg/raft.rs`. Each command of `Election::step`
is a function of its parsed arguments under the command's name (`timeout`, `requestVote`,
`voteResponse`, `appendEntries`, `logAppend`), and `step` reads the arguments and calls it.

* `granters` is a `Finset`: the Rust reads only the size of its `BTreeSet`.
* Terms and indices are `Int` within the range of `i64`; the one addition that can leave it,
  `self.term += 1`, is `addI64`, whose overflow is a panic.
-/

namespace BuildYourOwn.Raft

open Topic

inductive Role
  | follower
  | candidate
  | leader
  deriving DecidableEq

def Role.asStr : Role → String
  | follower => "follower"
  | candidate => "candidate"
  | leader => "leader"

/-- `Election`: one node of a cluster of `members`. -/
structure Election where
  members : Nat
  term : Int
  role : Role
  votedFor : Option String
  leader : Option String
  granters : Finset String
  log : List Int

namespace Election

/-- `Election::default()`. -/
def default : Election :=
  { members := 0, term := 0, role := .follower, votedFor := none, leader := none,
    granters := ∅, log := [] }

/-- The state `init n` leaves. -/
def init (n : Nat) : Election := { default with members := n }

def majority (s : Election) : Nat := s.members / 2 + 1

def lastIndex (s : Election) : Int := s.log.length

def lastTerm (s : Election) : Int := s.log.getLast?.getD 0

/-- `step_down`: into a new, higher term. -/
def stepDown (s : Election) (term : Int) : Election :=
  { s with term := term, role := .follower, votedFor := none, leader := none, granters := ∅ }

/-- `up_to_date`: is a candidate's log at least as up to date as ours? -/
def upToDate (s : Election) (lastIndex lastTerm : Int) : Bool :=
  match compare lastTerm s.lastTerm with
  | .gt => true
  | .lt => false
  | .eq => decide (s.lastIndex ≤ lastIndex)

def state (s : Election) : Value :=
  .obj [("state", .str s.role.asStr), ("term", .num s.term),
    ("voted_for", .ofOption .str s.votedFor), ("votes", .num s.granters.card),
    ("leader", .ofOption .str s.leader), ("last_index", .num s.lastIndex),
    ("last_term", .num s.lastTerm)]

/-! ## The commands -/

/-- `log-append`. -/
def logAppend (s : Election) (term : Int) : Handled Election :=
  let s := { s with log := s.log ++ [term] }
  some (s, .obj [("last_index", .num s.lastIndex), ("last_term", .num s.lastTerm)])

/-- `timeout`: a leader has none; anyone else starts an election with its own vote. -/
def timeout (s : Election) : Handled Election :=
  if s.role = .leader then some (s, s.state)
  else
    match addI64 s.term 1 with
    | none => none
    | some term =>
      let s := { s with
        term := term, role := .candidate, votedFor := some "self", leader := none,
        granters := {"self"} }
      some (s, s.state)

def vote (s : Election) (granted : Bool) : Value :=
  .obj [("term", .num s.term), ("granted", .bool granted), ("state", .str s.role.asStr)]

/-- `free` in `request-vote`: the vote of this term is not given to anyone else. -/
def free (s : Election) (candidate : String) : Bool :=
  match s.votedFor with
  | none => true
  | some who => who == candidate

/-- `request-vote`. -/
def requestVote (s : Election) (term : Int) (candidate : String) (lastIndex lastTerm : Int) :
    Handled Election :=
  if term < s.term then some (s, s.vote false)
  else
    let s := if s.term < term then s.stepDown term else s
    let granted := s.free candidate && s.upToDate lastIndex lastTerm
    let s := if granted then { s with votedFor := some candidate } else s
    some (s, s.vote granted)

/-- `vote-response`. -/
def voteResponse (s : Election) (term : Int) (voter : String) (granted : Bool) :
    Handled Election :=
  if s.term < term then
    let s := s.stepDown term
    some (s, s.state)
  else if term = s.term ∧ s.role = .candidate ∧ granted = true then
    let s := { s with granters := insert voter s.granters }
    let s := if s.majority ≤ s.granters.card then
        { s with role := .leader, leader := some "self" }
      else s
    some (s, s.state)
  else some (s, s.state)

/-- `append-entries`. -/
def appendEntries (s : Election) (term : Int) (leader : String) : Handled Election :=
  if term < s.term then
    some (s, .obj [("term", .num s.term), ("success", .bool false), ("state", .str s.role.asStr)])
  else
    let s := if s.term < term then s.stepDown term else { s with role := .follower }
    let s := { s with leader := some leader }
    some (s, .obj [("term", .num s.term), ("success", .bool true), ("state", .str "follower")])

def step [Host] (s : Election) (command : String) (args : List String) : Handled Election :=
  match command with
  | "init" => arg s (uint args 0) fun n =>
    if 1 ≤ n then
      let s := init n
      some (s, .obj [("ok", .bool true), ("members", .num n), ("majority", .num s.majority)])
    else some (s, err "a cluster needs at least one member")
  | "state" => some (s, s.state)
  | "log-append" => arg s (int args 0) s.logAppend
  | "timeout" => s.timeout
  | "request-vote" =>
    arg s (int args 0) fun term =>
    arg s (word args 1) fun candidate =>
    arg s (int args 2) fun lastIndex =>
    arg s (int args 3) fun lastTerm => s.requestVote term candidate lastIndex lastTerm
  | "vote-response" =>
    arg s (int args 0) fun term =>
    arg s (word args 1) fun voter =>
    arg s (flag args 2 "true" "false") fun granted => s.voteResponse term voter granted
  | "append-entries" =>
    arg s (int args 0) fun term =>
    arg s (word args 1) fun leader => s.appendEntries term leader
  | other => some (s, err ("unknown command " ++ debugStr other))

/-! ## What each command can do -/

variable {s s' : Election} {v : Value} {args : List String}

theorem step_timeout [Host] : s.step "timeout" args = s.timeout := rfl

variable {term : Int}

theorem step_logAppend [Host] (h : int args 0 = .ok term) : s.step "log-append" args = s.logAppend term := by
  simp only [step, h, arg_ok]

variable {candidate : String}

theorem step_requestVote [Host] {term lastIndex lastTerm : Int}
    (h₀ : int args 0 = .ok term) (h₁ : word args 1 = .ok candidate)
    (h₂ : int args 2 = .ok lastIndex) (h₃ : int args 3 = .ok lastTerm) :
    s.step "request-vote" args = s.requestVote term candidate lastIndex lastTerm := by
  simp only [step, h₀, h₁, h₂, h₃, arg_ok]

theorem step_voteResponse [Host] {voter : String} {granted : Bool}
    (h₀ : int args 0 = .ok term) (h₁ : word args 1 = .ok voter) (h₂ : flag args 2 "true" "false" = .ok granted) :
    s.step "vote-response" args = s.voteResponse term voter granted := by
  simp only [step, h₀, h₁, h₂, arg_ok]

theorem step_appendEntries [Host] {leader : String} (h₀ : int args 0 = .ok term) (h₁ : word args 1 = .ok leader) :
    s.step "append-entries" args = s.appendEntries term leader := by
  simp only [step, h₀, h₁, arg_ok]

theorem timeout_cases (h : s.timeout = some (s', v)) :
    s' = s ∨ s' = { s with
      term := s.term + 1, role := .candidate, votedFor := some "self", leader := none,
      granters := {"self"} } := by
  unfold timeout at h
  split at h
  · cases h
    exact .inl rfl
  · split at h
    · cases h
    · rename_i term hterm
      obtain ⟨-, rfl⟩ := addI64_eq_some.mp hterm
      cases h
      exact .inr rfl

theorem free_iff : s.free candidate = true ↔ s.votedFor = none ∨ s.votedFor = some candidate := by
  unfold free
  cases s.votedFor <;> simp

/-- A vote request is refused for its term, or answered in its term `r.term`, with the vote given
to `candidate` when it is granted. -/
theorem requestVote_cases {term lastIndex lastTerm : Int}
    (h : s.requestVote term candidate lastIndex lastTerm = some (s', v)) : (term < s.term ∧ s' = s ∧ v = s.vote false) ∨
    ∃ r, (s.term < term ∧ r = s.stepDown term ∨ s.term = term ∧ r = s) ∧
      ((s' = r ∧ v = r.vote false) ∨
        ((r.votedFor = none ∨ r.votedFor = some candidate) ∧
          s' = { r with votedFor := some candidate } ∧ v = s'.vote true)) := by
  unfold requestVote at h
  by_cases hlt : term < s.term
  · rw [if_pos hlt] at h
    cases h
    exact .inl ⟨hlt, rfl, rfl⟩
  · rw [if_neg hlt] at h
    right
    refine ⟨if s.term < term then s.stepDown term else s, ?_, ?_⟩
    · split
      · exact .inl ⟨by assumption, rfl⟩
      · exact .inr ⟨by omega, rfl⟩
    · generalize (if s.term < term then s.stepDown term else s) = r at h ⊢
      simp only at h
      cases hg : r.free candidate && r.upToDate lastIndex lastTerm
      · rw [hg] at h
        cases h
        exact .inl ⟨rfl, rfl⟩
      · rw [hg] at h
        cases h
        rw [Bool.and_eq_true] at hg
        exact .inr ⟨free_iff.mp hg.1, rfl, rfl⟩

theorem voteResponse_cases {voter : String} {granted : Bool} (h : s.voteResponse term voter granted = some (s', v)) :
    (s.term < term ∧ s' = s.stepDown term) ∨
    (term = s.term ∧ s.role = .candidate ∧ granted = true ∧
      ((s.majority ≤ (insert voter s.granters).card ∧
          s' = { s with granters := insert voter s.granters, role := .leader,
                        leader := some "self" }) ∨
        s' = { s with granters := insert voter s.granters })) ∨ s' = s := by
  unfold voteResponse at h
  split at h
  · cases h
    exact .inl ⟨by assumption, rfl⟩
  · split at h
    · rename_i hc
      cases h
      refine .inr (.inl ⟨hc.1, hc.2.1, hc.2.2, ?_⟩)
      split
      · rename_i hm
        exact .inl ⟨hm, rfl⟩
      · exact .inr rfl
    · cases h
      exact .inr (.inr rfl)

theorem appendEntries_cases {leader : String} (h : s.appendEntries term leader = some (s', v)) :
    s' = s ∨ (s.term < term ∧ s' = { s.stepDown term with leader := some leader }) ∨
      (s.term = term ∧ s' = { s with role := .follower, leader := some leader }) := by
  unfold appendEntries at h
  split at h
  · cases h
    exact .inl rfl
  · rename_i hlt
    cases h
    right
    split
    · exact .inl ⟨by assumption, rfl⟩
    · exact .inr ⟨by omega, rfl⟩

end Election

end BuildYourOwn.Raft
