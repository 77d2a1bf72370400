import BuildYourOwn.Lib.Log
import BuildYourOwn.Topic.Command

/-!
# `raft-log`: the follower half of AppendEntries

Model of `LogReplication` in `disttest/examples/alg/raft.rs`. Indices are 1-based, as on the wire,
so the entry at `index` is position `index - 1` of `log`; an index the code computes is at most the
log's length plus the number of entries in a message, far inside `i64`.

`append` is the whole `append` branch of `step` over its parsed arguments. Its entries loop
(`writeFrom`) is `Lib.graft` (`writeFrom_log`), so `append_cases` says in closed form what an
accepted message leaves.
-/

namespace BuildYourOwn.Raft

open Lib Topic

/-- `LogReplication`: a follower's log, one term per entry. -/
structure LogReplication where
  term : Int
  log : List Int
  commitIndex : Int

namespace LogReplication

def lastIndex (s : LogReplication) : Int := s.log.length

def lastTerm (s : LogReplication) : Int := s.log.getLast?.getD 0

def termAt (s : LogReplication) (index : Int) : Option Int :=
  if 1 ≤ index ∧ index ≤ s.lastIndex then s.log[(index - 1).toNat]? else none

/-- The loop of `run_start`: back while the entry before `first` still has term `t`. -/
def runBack (s : LogReplication) (t : Int) : Nat → Nat
  | 0 => 0
  | k + 1 => if 1 < k + 1 ∧ s.termAt k = some t then s.runBack t k else k + 1

/-- `run_start`: the first index of the run of entries that share the term held at `index`. -/
def runStart (s : LogReplication) (index : Int) : Int :=
  match s.termAt index with
  | none => index
  | some t => s.runBack t index.toNat

def answer (s : LogReplication) (success : Bool) (conflictIndex : Int) : Value :=
  .obj [("term", .num s.term), ("success", .bool success), ("last_index", .num s.lastIndex),
    ("last_term", .num s.lastTerm), ("commit_index", .num s.commitIndex),
    ("conflict_index", .num conflictIndex)]

/-- One round of the entries loop of `append`: an entry that matches stays where it is, one that
conflicts cuts the log, and one past the end is pushed. -/
def writeEntry (s : LogReplication) (idx entry : Int) : LogReplication :=
  match s.termAt idx with
  | some existing =>
    if existing = entry then s
    else { s with log := s.log.take (idx - 1).toNat ++ [entry] }
  | none => { s with log := s.log ++ [entry] }

/-- The entries loop of `append`. -/
def writeFrom (s : LogReplication) (idx : Int) : List Int → LogReplication
  | [] => s
  | entry :: entries => (s.writeEntry idx entry).writeFrom (idx + 1) entries

/-- The `append` branch of `step`. -/
def append (s : LogReplication) (term prevIndex prevTerm leaderCommit : Int)
    (entries : List Int) : LogReplication × Value :=
  if prevIndex < 0 then (s, err "prev_index must not be negative")
  else if term < s.term then (s, s.answer false 0)
  else
    let s := { s with term := term }
    if s.lastIndex < prevIndex then (s, s.answer false (s.lastIndex + 1))
    else if 1 ≤ prevIndex ∧ s.termAt prevIndex ≠ some prevTerm then
      (s, s.answer false (s.runStart prevIndex))
    else
      let s := s.writeFrom (prevIndex + 1) entries
      let lastNew := prevIndex + entries.length
      let s := if s.commitIndex < leaderCommit then
          { s with commitIndex := max s.commitIndex (min leaderCommit lastNew) }
        else s
      (s, s.answer true 0)

/-- The state `init` leaves. -/
def init (terms : List Int) : LogReplication where
  term := terms.getLast?.getD 0
  log := terms
  commitIndex := 0

def step [Host] (s : LogReplication) (command : String) (args : List String) :
    Handled LogReplication :=
  match command with
  | "init" => arg s (intList args 0) fun terms =>
    let s := init terms
    some (s, .obj [("term", .num s.term), ("last_index", .num s.lastIndex),
      ("last_term", .num s.lastTerm), ("commit_index", .num s.commitIndex)])
  | "term" => arg s (int args 0) fun t => some ({ s with term := t }, .obj [("term", .num t)])
  | "append" =>
    arg s (int args 0) fun term =>
    arg s (int args 1) fun prevIndex =>
    arg s (int args 2) fun prevTerm =>
    arg s (int args 3) fun leaderCommit =>
    arg s (intList args 4) fun entries =>
      some (s.append term prevIndex prevTerm leaderCommit entries)
  | "log" => some (s, .obj [("term", .num s.term), ("terms", .arr (s.log.map .num)),
      ("last_index", .num s.lastIndex), ("last_term", .num s.lastTerm),
      ("commit_index", .num s.commitIndex)])
  | other => some (s, err ("unknown command " ++ debugStr other))

/-! ## The log as positions -/

variable {s s' : LogReplication} {v : Value}

/-- `term_at` is the position before the index. -/
theorem termAt_succ (s : LogReplication) (i : Nat) : s.termAt (i + 1) = s.log[i]? := by
  unfold termAt lastIndex
  split
  · congr 1
    omega
  · rw [List.getElem?_eq_none_iff.mpr (by omega)]

theorem termAt_eq_some {index t : Int} : s.termAt index = some t ↔ 1 ≤ index ∧ s.log[(index - 1).toNat]? = some t := by
  unfold termAt lastIndex
  constructor
  · intro h
    split at h
    · exact ⟨by omega, h⟩
    · cases h
  · rintro ⟨h1, h⟩
    have hlt := (List.getElem?_eq_some_iff.mp h).1
    rw [if_pos ⟨h1, by omega⟩, h]

theorem writeEntry_eq (s : LogReplication) (i : Nat) (entry : Int) :
    s.writeEntry (i + 1) entry = { s with log := put s.log i entry } := by
  unfold writeEntry put
  rw [termAt_succ]
  cases s.log[i]? with
  | none => rfl
  | some x => by_cases hx : x = entry <;> simp [hx]

/-- **The entries loop is `graft`**, and touches nothing but the log. -/
theorem writeFrom_eq : ∀ (entries : List Int) (s : LogReplication) (i : Nat),
    s.writeFrom (i + 1) entries = { s with log := graft s.log i entries }
  | [], s, i => rfl
  | entry :: entries, s, i => by
    have hnext : ((i : Int) + 1 + 1) = ((i + 1 : Nat) : Int) + 1 := by push_cast; rfl
    rw [writeFrom, graft, writeEntry_eq, hnext, writeFrom_eq entries _ (i + 1)]

theorem writeFrom_commit (idx : Int) (entries : List Int) (s : LogReplication) :
    (s.writeFrom idx entries).commitIndex = s.commitIndex := by
  induction entries generalizing idx s with
  | nil => rfl
  | cons entry entries ih =>
    rw [writeFrom, ih]
    unfold writeEntry
    split
    · split <;> rfl
    · rfl

@[simp] theorem flagAt_answer (s : LogReplication) (b : Bool) (c : Int) :
    (s.answer b c).flagAt "success" = some b := rfl

@[simp] theorem numAt_answer (s : LogReplication) (b : Bool) (c : Int) :
    (s.answer b c).numAt "conflict_index" = some c := rfl

variable {term prevIndex prevTerm leaderCommit : Int} {entries : List Int}

/-- What an `append` leaves: refused with nothing but the term moved, or accepted with the entries
grafted in after `prevIndex`. -/
theorem append_cases (h : s.append term prevIndex prevTerm leaderCommit entries = (s', v)) :
    (v.flagAt "success" ≠ some true ∧ s'.log = s.log ∧ s'.commitIndex = s.commitIndex) ∨
    (v.flagAt "success" = some true ∧ 0 ≤ prevIndex ∧ prevIndex ≤ s.lastIndex ∧
      (1 ≤ prevIndex → s.termAt prevIndex = some prevTerm) ∧ s.term ≤ term ∧ s'.term = term ∧
      s'.log = graft s.log prevIndex.toNat entries) := by
  unfold append at h
  split at h
  · cases h
    exact .inl ⟨by simp [err, Value.flagAt, Value.get, List.lookup_cons], rfl, rfl⟩
  · rename_i hneg
    split at h
    · cases h
      exact .inl ⟨by simp, rfl, rfl⟩
    · rename_i hterm
      simp only at h
      split at h
      · cases h
        exact .inl ⟨by simp, rfl, rfl⟩
      · rename_i hlast
        split at h
        · cases h
          exact .inl ⟨by simp, rfl, rfl⟩
        · rename_i hprev
          have hp : prevIndex = (prevIndex.toNat : Int) := by omega
          have hwrite := writeFrom_eq entries { s with term := term } prevIndex.toNat
          rw [← hp] at hwrite
          rw [hwrite] at h
          cases h
          refine .inr ⟨by simp, by omega, Int.not_lt.mp hlast, fun h1 => ?_, by omega, ?_, ?_⟩
          · by_contra hne
            exact hprev ⟨h1, hne⟩
          · split <;> rfl
          · split <;> rfl

theorem append_commit (h : s.append term prevIndex prevTerm leaderCommit entries = (s', v)) :
    s.commitIndex ≤ s'.commitIndex ∧ (s'.commitIndex = s.commitIndex ∨
      v.flagAt "success" = some true ∧ s'.commitIndex ≤ prevIndex + entries.length) := by
  unfold append at h
  split at h
  · cases h
    exact ⟨Int.le_refl _, .inl rfl⟩
  split at h
  · cases h
    exact ⟨Int.le_refl _, .inl rfl⟩
  dsimp only at h
  split at h
  · cases h
    exact ⟨Int.le_refl _, .inl rfl⟩
  split at h
  · cases h
    exact ⟨Int.le_refl _, .inl rfl⟩
  have hsame := writeFrom_commit (prevIndex + 1) entries { s with term := term }
  split at h
  · cases h
    rw [hsame]
    have hlast := Int.min_le_right leaderCommit (prevIndex + entries.length)
    refine ⟨Int.le_max_left _ _, ?_⟩
    rcases Int.le_total (min leaderCommit (prevIndex + entries.length)) s.commitIndex with hc | hc
    · exact .inl (Int.max_eq_left hc)
    · exact .inr ⟨flagAt_answer .., by rwa [Int.max_eq_right hc]⟩
  · cases h
    exact ⟨Int.le_of_eq hsame.symm, .inl hsame⟩

/-! ## Refusals -/

/-- `run_start` of an entry is the start of a run, at or before it. -/
theorem runBack_spec {t : Int} : ∀ {k : Nat}, s.termAt k = some t →
    1 ≤ s.runBack t k ∧ s.runBack t k ≤ k ∧ startsRun s.log (s.runBack t k - 1) = true
  | 0, h => absurd (termAt_eq_some.mp h).1 (by omega)
  | k + 1, h => by
    unfold runBack
    split
    · rename_i hk
      obtain ⟨h1, h2, h3⟩ := runBack_spec hk.2
      exact ⟨h1, by omega, h3⟩
    · rename_i hk
      refine ⟨by omega, le_refl _, ?_⟩
      unfold startsRun
      rw [Nat.add_sub_cancel, Bool.or_eq_true, beq_iff_eq, bne_iff_ne]
      cases k with
      | zero => exact .inl rfl
      | succ j =>
        right
        intro heq
        rw [Nat.add_sub_cancel] at heq
        have hj : s.termAt ((j + 1 : Nat) : Int) = s.log[j]? := termAt_succ s j
        have hk' : s.termAt ((j + 1 + 1 : Nat) : Int) = s.log[j + 1]? := termAt_succ s (j + 1)
        exact hk ⟨by omega, by rw [hj, heq, ← hk', h]⟩

theorem runStart_spec {index : Int} (h1 : 1 ≤ index) (hle : index ≤ s.lastIndex) :
    1 ≤ s.runStart index ∧ s.runStart index ≤ index ∧ startsRun s.log (s.runStart index - 1).toNat = true := by
  obtain ⟨k, rfl⟩ : ∃ k : Nat, index = k := ⟨index.toNat, by omega⟩
  have hlt : ((k : Int) - 1).toNat < s.log.length := by
    unfold lastIndex at hle
    omega
  have hterm := termAt_eq_some.mpr ⟨h1, List.getElem?_eq_getElem hlt⟩
  obtain ⟨hge, hle', hstart⟩ := runBack_spec hterm
  unfold runStart
  rw [hterm]
  simp only [Int.toNat_natCast]
  refine ⟨by omega, by omega, ?_⟩
  rw [show ∀ n : Nat, ((n : Int) - 1).toNat = n - 1 from fun n => by omega]
  exact hstart

/-- **Why an `append` of a current leader is refused**, and the conflict index it is answered
with: one past a log that is too short, or the start of the run it conflicts with. -/
theorem append_refused
    (h0 : 0 ≤ prevIndex) (ht : s.term ≤ term) (h : s.append term prevIndex prevTerm leaderCommit entries = (s', v))
    (hv : v.flagAt "success" ≠ some true) :
    ∃ conflict, v.numAt "conflict_index" = some conflict ∧ s' = { s with term := term } ∧
      ((s.lastIndex < prevIndex ∧ conflict = s.lastIndex + 1) ∨
        (prevIndex ≤ s.lastIndex ∧ 1 ≤ conflict ∧ conflict ≤ prevIndex ∧
          startsRun s.log (conflict - 1).toNat = true)) := by
  unfold append at h
  rw [if_neg (by omega), if_neg (by omega)] at h
  simp only at h
  split at h
  · rename_i hlast
    cases h
    exact ⟨_, numAt_answer .., rfl, .inl ⟨hlast, rfl⟩⟩
  · rename_i hlast
    have hle : prevIndex ≤ s.lastIndex := Int.not_lt.mp hlast
    split at h
    · rename_i hprev
      cases h
      exact ⟨_, numAt_answer .., rfl, .inr ⟨hle, runStart_spec hprev.1 hle⟩⟩
    · cases h
      exact absurd (flagAt_answer _ _ _) hv

/-- An `append` line has a bad argument and moves nothing, or spells the message that `append`
handles. -/
theorem step_append_cases [Host] {args : List String} (h : s.step "append" args = some (s', v)) :
    s' = s ∨ ∃ term prevIndex prevTerm leaderCommit entries,
      int args 1 = .ok prevIndex ∧ int args 2 = .ok prevTerm ∧ intList args 4 = .ok entries ∧
      s.append term prevIndex prevTerm leaderCommit entries = (s', v) := by
  simp only [step] at h
  rcases arg_eq_some.mp h with ⟨-, rfl⟩ | ⟨term, -, h⟩
  · exact .inl rfl
  rcases arg_eq_some.mp h with ⟨-, rfl⟩ | ⟨prevIndex, h₁, h⟩
  · exact .inl rfl
  rcases arg_eq_some.mp h with ⟨-, rfl⟩ | ⟨prevTerm, h₂, h⟩
  · exact .inl rfl
  rcases arg_eq_some.mp h with ⟨-, rfl⟩ | ⟨leaderCommit, -, h⟩
  · exact .inl rfl
  rcases arg_eq_some.mp h with ⟨-, rfl⟩ | ⟨entries, h₄, h⟩
  · exact .inl rfl
  exact .inr ⟨term, prevIndex, prevTerm, leaderCommit, entries, h₁, h₂, h₄, Option.some.inj h⟩

end LogReplication

end BuildYourOwn.Raft
