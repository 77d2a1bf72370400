import BuildYourOwn.Lib.Log
import BuildYourOwn.Topic.Command

/-!
# `raft-snapshot`: compaction and InstallSnapshot

Model of `Snapshots` in `disttest/examples/alg/raft.rs`: a log whose first `snapshotIndex` entries
have been replaced by the term of the last of them. Indices are 1-based and count the entries that
are gone; position `i` of `log` is index `snapshotIndex + 1 + i` (`termAt_succ`).

Every index the code computes lies between `snapshotIndex` and one past the last index, and every
command answers with the indices it leaves, so a command panics exactly when these are no `i64`
(`answered`). Only an `install` can bring the log there.
-/

namespace BuildYourOwn.Raft

open Lib Topic

/-- `Snapshots`: a log with a prefix replaced by a snapshot. -/
structure Snapshots where
  log : List Int
  snapshotIndex : Int
  snapshotTerm : Int
  commitIndex : Int

namespace Snapshots

def firstIndex (s : Snapshots) : Int := s.snapshotIndex + 1

def lastIndex (s : Snapshots) : Int := s.snapshotIndex + s.log.length

/-- `term_at`, snapshot boundary included. -/
def termAt (s : Snapshots) (index : Int) : Option Int :=
  if index = s.snapshotIndex then some s.snapshotTerm
  else if s.firstIndex ≤ index ∧ index ≤ s.lastIndex then s.log[(index - s.firstIndex).toNat]?
  else none

def shape (s : Snapshots) : Value :=
  .obj [("first_index", .num s.firstIndex), ("last_index", .num s.lastIndex),
    ("commit_index", .num s.commitIndex), ("snapshot_index", .num s.snapshotIndex),
    ("snapshot_term", .num s.snapshotTerm)]

def answered (r : Snapshots × Value) : Handled Snapshots :=
  if inI64 r.1.firstIndex && inI64 r.1.lastIndex then some r else none

/-! ## The commands -/

/-- The state `init` leaves. -/
def init (terms : List Int) : Snapshots where
  log := terms
  snapshotIndex := 0
  snapshotTerm := 0
  commitIndex := 0

def commit (s : Snapshots) (index : Int) : Snapshots × Value :=
  let wanted := min index s.lastIndex
  let s := if s.commitIndex < wanted then { s with commitIndex := wanted } else s
  (s, .obj [("commit_index", .num s.commitIndex)])

/-- The fields both answers of `snapshot` share. -/
def compacted (s : Snapshots) (ok : Bool) : Value :=
  .obj [("ok", .bool ok), ("snapshot_index", .num s.snapshotIndex),
    ("snapshot_term", .num s.snapshotTerm), ("first_index", .num s.firstIndex),
    ("log_len", .num s.log.length)]

/-- `snapshot`: nothing past the commit index is compacted. -/
def snapshot (s : Snapshots) (index : Int) : Snapshots × Value :=
  if s.commitIndex < index then
    (s, (s.compacted false).insert "error" (.str "cannot snapshot past the commit index"))
  else
    let s := if s.snapshotIndex < index then
        let term := (s.termAt index).getD s.snapshotTerm
        { s with
          log := s.log.drop (index - s.snapshotIndex).toNat
          snapshotIndex := index
          snapshotTerm := term }
      else s
    (s, s.compacted true)

/-- `install`: a follower that holds the last included entry keeps what is after it. -/
def install (s : Snapshots) (lastIncludedIndex lastIncludedTerm : Int) : Snapshots × Value :=
  if lastIncludedIndex ≤ s.commitIndex then
    (s, (s.shape.insert "ok" (.bool false)).insert "action" (.str "stale"))
  else
    let isMatch := s.termAt lastIncludedIndex = some lastIncludedTerm ∧
      s.firstIndex ≤ lastIncludedIndex
    let s := { s with
      log := if isMatch then s.log.drop (lastIncludedIndex - s.snapshotIndex).toNat else []
      snapshotIndex := lastIncludedIndex
      snapshotTerm := lastIncludedTerm
      commitIndex := max s.commitIndex lastIncludedIndex }
    (s, (s.shape.insert "ok" (.bool true)).insert "action"
      (.str (if isMatch then "retained" else "discarded")))

/-- The answers of `append`. -/
def answer (s : Snapshots) (success : Bool) (reason : String) : Value :=
  .obj [("success", .bool success), ("reason", .str reason), ("last_index", .num s.lastIndex)]

/-- One round of the entries loop of `append`. -/
def writeEntry (s : Snapshots) (idx entry : Int) : Snapshots :=
  match s.termAt idx with
  | some existing =>
    if existing = entry then s
    else { s with log := s.log.take (idx - s.firstIndex).toNat ++ [entry] }
  | none => { s with log := s.log ++ [entry] }

/-- The entries loop of `append`. -/
def writeFrom (s : Snapshots) (idx : Int) : List Int → Snapshots
  | [] => s
  | entry :: entries => (s.writeEntry idx entry).writeFrom (idx + 1) entries

/-- `append`: an entry that was compacted away can no longer be checked. -/
def append (s : Snapshots) (prevIndex prevTerm : Int) (entries : List Int) : Snapshots × Value :=
  if prevIndex < s.snapshotIndex then (s, s.answer false "compacted")
  else if s.lastIndex < prevIndex then (s, s.answer false "missing")
  else if s.termAt prevIndex ≠ some prevTerm then (s, s.answer false "term mismatch")
  else
    let s := s.writeFrom (prevIndex + 1) entries
    (s, s.answer true "ok")

def step [Host] (s : Snapshots) (command : String) (args : List String) : Handled Snapshots :=
  match command with
  | "init" => arg s (intList args 0) fun terms => answered (init terms, (init terms).shape)
  | "commit" => arg s (int args 0) fun index => answered (s.commit index)
  | "snapshot" => arg s (int args 0) fun index => answered (s.snapshot index)
  | "install" =>
    arg s (int args 0) fun _ =>
    arg s (int args 1) fun lastIncludedIndex =>
    arg s (int args 2) fun lastIncludedTerm =>
      answered (s.install lastIncludedIndex lastIncludedTerm)
  | "append" =>
    arg s (int args 0) fun _ =>
    arg s (int args 1) fun prevIndex =>
    arg s (int args 2) fun prevTerm =>
    arg s (intList args 3) fun entries => answered (s.append prevIndex prevTerm entries)
  | "log" => answered (s, s.shape.insert "terms" (.arr (s.log.map .num)))
  | other => some (s, err ("unknown command " ++ debugStr other))

/-! ## The log as positions -/

variable {s s' : Snapshots} {v : Value}

theorem answered_eq_some {r : Snapshots × Value} :
    answered r = some (s', v) ↔ r = (s', v) ∧ inI64 s'.firstIndex = true ∧ inI64 s'.lastIndex = true := by
  unfold answered
  split
  · rename_i h
    rw [Bool.and_eq_true] at h
    rw [Option.some.injEq]
    constructor
    · rintro rfl
      exact ⟨rfl, h⟩
    · exact And.left
  · rename_i h
    rw [Bool.and_eq_true] at h
    constructor
    · intro hn
      cases hn
    · rintro ⟨rfl, hr⟩
      exact absurd hr h

/-- Past the boundary, `term_at` is the position after it. -/
theorem termAt_succ (s : Snapshots) (i : Nat) : s.termAt (s.snapshotIndex + 1 + i) = s.log[i]? := by
  unfold termAt firstIndex lastIndex
  rw [if_neg (by omega)]
  split
  · congr 1
    omega
  · rw [List.getElem?_eq_none_iff.mpr (by omega)]

@[simp] theorem termAt_boundary (s : Snapshots) : s.termAt s.snapshotIndex = some s.snapshotTerm := by
  unfold termAt
  rw [if_pos rfl]

theorem writeEntry_eq (s : Snapshots) (i : Nat) (entry : Int) :
    s.writeEntry (s.snapshotIndex + 1 + i) entry = { s with log := put s.log i entry } := by
  unfold writeEntry put
  rw [termAt_succ]
  cases s.log[i]? with
  | none => rfl
  | some x =>
    have hpos : (s.snapshotIndex + 1 + i - s.firstIndex).toNat = i := by
      unfold firstIndex
      omega
    by_cases hx : x = entry
    · simp [hx]
    · simp [hx, hpos]

/-- **The entries loop is `graft`**, and touches nothing but the log. -/
theorem writeFrom_eq : ∀ (entries : List Int) (s : Snapshots) (i : Nat),
    s.writeFrom (s.snapshotIndex + 1 + i) entries = { s with log := graft s.log i entries }
  | [], s, i => rfl
  | entry :: entries, s, i => by
    have hnext := writeFrom_eq entries { s with log := put s.log i entry } (i + 1)
    have hidx : s.snapshotIndex + 1 + (i : Int) + 1 = s.snapshotIndex + 1 + ((i + 1 : Nat) : Int) := by
      omega
    rw [writeFrom, graft, writeEntry_eq, hidx]
    exact hnext

end Snapshots

end BuildYourOwn.Raft

/-!
## Compaction is invisible

A `Snapshots` machine next to one that is given the same lines but never a `snapshot`, nor the
appends the first can no longer check. `Compacts s full` relates the two: `full` is the log with
nothing compacted away, and `s` holds what is after its first `snapshotIndex` entries.

* Past the boundary both machines read the same terms (`Compacts.termAt`), so an `append` that is
  not refused as compacted goes the same way in both (`Compacts.append`).
* An accepted one keeps the relation as long as it does not conflict with a committed entry
  (`Compacts.grafted`).

**`compaction_invisible`**: along every run of `append`, `commit` and `snapshot` lines whose accepted
appends leave the committed entries alone, the second machine gives the same answers, and it would
to any further `append` that is not refused as compacted.
-/

namespace BuildYourOwn.Raft.Snapshots

open Lib Topic

/-- The machine that holds `full` and never compacted any of it. -/
def uncompacted (s : Snapshots) (full : List Int) : Snapshots where
  log := full
  snapshotIndex := 0
  snapshotTerm := 0
  commitIndex := s.commitIndex

/-- `s` is `full` without its first `snapshotIndex` entries, all of them committed. -/
structure Compacts (s : Snapshots) (full : List Int) : Prop where
  log : s.log = full.drop s.snapshotIndex.toNat
  term : s.snapshotIndex = 0 ∧ s.snapshotTerm = 0 ∨
    1 ≤ s.snapshotIndex ∧ full[(s.snapshotIndex - 1).toNat]? = some s.snapshotTerm
  committed : s.snapshotIndex ≤ s.commitIndex
  held : s.commitIndex ≤ s.lastIndex

variable {s s' : Snapshots} {v : Value} {full : List Int}

theorem Compacts.nonneg (h : Compacts s full) : 0 ≤ s.snapshotIndex := by
  rcases h.term with ⟨h0, -⟩ | ⟨h1, -⟩ <;> omega

theorem Compacts.boundary_le (h : Compacts s full) : s.snapshotIndex ≤ full.length := by
  rcases h.term with ⟨h0, -⟩ | ⟨h1, hterm⟩
  · omega
  · have := (List.getElem?_eq_some_iff.mp hterm).1
    omega

theorem Compacts.length (h : Compacts s full) : (full.length : Int) = s.lastIndex := by
  have hindex := h.nonneg
  have hle := h.boundary_le
  unfold lastIndex
  rw [h.log, List.length_drop]
  omega

theorem Compacts.lastIndex (h : Compacts s full) : (s.uncompacted full).lastIndex = s.lastIndex := by
  rw [← h.length]
  exact Int.zero_add _

theorem uncompacted_termAt_succ (i : Nat) : (s.uncompacted full).termAt (i + 1) = full[i]? := by
  have h := termAt_succ (s.uncompacted full) i
  rwa [show (s.uncompacted full).snapshotIndex + 1 + (i : Int) = i + 1 from
    by simp only [uncompacted]; omega] at h

/-- **From the boundary on, both machines read the same terms.** -/
theorem Compacts.termAt (h : Compacts s full) {index : Int} (hle : s.snapshotIndex ≤ index) :
    (s.uncompacted full).termAt index = s.termAt index := by
  by_cases heq : index = s.snapshotIndex
  · rw [heq, termAt_boundary]
    rcases h.term with ⟨h0, hterm⟩ | ⟨h1, hterm⟩
    · rw [h0, hterm]
      exact termAt_boundary (s.uncompacted full)
    · rw [← hterm, ← uncompacted_termAt_succ (s := s)]
      congr 1
      omega
  · have hindex := h.nonneg
    obtain ⟨i, rfl⟩ : ∃ i : Nat, index = s.snapshotIndex + 1 + i :=
      ⟨(index - s.snapshotIndex - 1).toNat, by omega⟩
    rw [termAt_succ, h.log, List.getElem?_drop, ← uncompacted_termAt_succ (s := s)]
    congr 1
    omega

/-! ## One command on both machines -/

theorem Compacts.commit (h : Compacts s full) (index : Int) :
    (s.uncompacted full).commit index = ((s.commit index).1.uncompacted full, (s.commit index).2) ∧
      Compacts (s.commit index).1 full := by
  have hlast := h.lastIndex
  have hheld := h.held
  unfold Snapshots.commit
  rw [hlast]
  by_cases hw : s.commitIndex < min index s.lastIndex
  · have hw' : (s.uncompacted full).commitIndex < min index s.lastIndex := hw
    simp only [if_pos hw, if_pos hw']
    have hcommitted : s.snapshotIndex ≤ min index s.lastIndex :=
      Int.le_trans h.committed (Int.le_of_lt hw)
    exact ⟨rfl, h.log, h.term, hcommitted, Int.min_le_right index s.lastIndex⟩
  · have hw' : ¬ (s.uncompacted full).commitIndex < min index s.lastIndex := hw
    simp only [if_neg hw, if_neg hw']
    exact ⟨rfl, h⟩

/-- A `snapshot` moves the boundary only, and not past the committed entries. -/
theorem Compacts.snapshot (h : Compacts s full) (index : Int) :
    Compacts (s.snapshot index).1 full ∧ (s.snapshot index).1.commitIndex = s.commitIndex := by
  unfold Snapshots.snapshot
  by_cases hpast : s.commitIndex < index
  · rw [if_pos hpast]
    exact ⟨h, rfl⟩
  rw [if_neg hpast]
  by_cases hnew : s.snapshotIndex < index
  · simp only [if_pos hnew]
    have hindex := h.nonneg
    have hheld := h.held
    have hlen := h.length
    have hdrop : s.log.drop (index - s.snapshotIndex).toNat = full.drop index.toNat := by
      rw [h.log, List.drop_drop]
      congr 1
      omega
    -- the entry at the new boundary is still there to read its term from
    have hlt : (index - 1).toNat < full.length := by omega
    have hterm : s.termAt index = some full[(index - 1).toNat] := by
      rw [← h.termAt (Int.le_of_lt hnew), ← List.getElem?_eq_getElem hlt,
        ← uncompacted_termAt_succ (s := s)]
      congr 1
      omega
    have hfull : full[(index - 1).toNat]? = some ((s.termAt index).getD s.snapshotTerm) := by
      rw [hterm, Option.getD_some]
      exact List.getElem?_eq_getElem hlt
    have hlast : s.commitIndex ≤ index + (s.log.drop (index - s.snapshotIndex).toNat).length := by
      rw [hdrop, List.length_drop]
      omega
    have h1 : 1 ≤ index := by omega
    exact ⟨⟨hdrop, .inr ⟨h1, hfull⟩, Int.not_lt.mp hpast, hlast⟩, trivial⟩
  · rw [if_neg hnew]
    exact ⟨h, rfl⟩

variable {prevIndex : Int}

theorem Compacts.graft_log (h : Compacts s full)
    (hprev : s.snapshotIndex ≤ prevIndex) (hlast : prevIndex ≤ s.lastIndex) (entries : List Int) :
    graft s.log (prevIndex - s.snapshotIndex).toNat entries =
        (graft full prevIndex.toNat entries).drop s.snapshotIndex.toNat ∧
      s.snapshotIndex + (graft s.log (prevIndex - s.snapshotIndex).toNat entries).length =
        (graft full prevIndex.toNat entries).length := by
  have hindex := h.nonneg
  have hlen := h.length
  have hle : prevIndex.toNat ≤ full.length := by omega
  have hpos : (prevIndex - s.snapshotIndex).toNat = prevIndex.toNat - s.snapshotIndex.toNat := by
    omega
  have hgraft := graft_length_le hle entries
  have hlog := graft_drop (show s.snapshotIndex.toNat ≤ prevIndex.toNat by omega) hle entries
  rw [hpos, h.log, hlog, List.length_drop]
  exact ⟨rfl, by omega⟩

theorem Compacts.grafted_lastIndex (h : Compacts s full)
    (hprev : s.snapshotIndex ≤ prevIndex) (hlast : prevIndex ≤ s.lastIndex) (entries : List Int) :
    (s.uncompacted (graft full prevIndex.toNat entries)).lastIndex =
      Snapshots.lastIndex { s with log := graft s.log (prevIndex - s.snapshotIndex).toNat entries } := by
  have hsum := (h.graft_log hprev hlast entries).2
  simp only [Snapshots.lastIndex, uncompacted]
  omega

/-- What an `append` that is not refused as compacted does, to both machines: they refuse it with
one answer, or graft the same entries into both logs. -/
theorem Compacts.append (h : Compacts s full) {prevIndex prevTerm : Int} {entries : List Int}
    (happ : s.append prevIndex prevTerm entries = (s', v)) (hv : v.textAt "reason" ≠ some "compacted") :
    (v.flagAt "success" = some false ∧ s' = s ∧
      (s.uncompacted full).append prevIndex prevTerm entries = (s.uncompacted full, v)) ∨
    (v.flagAt "success" = some true ∧ s.snapshotIndex ≤ prevIndex ∧ prevIndex ≤ s.lastIndex ∧
      s' = { s with log := graft s.log (prevIndex - s.snapshotIndex).toNat entries } ∧
      (s.uncompacted full).append prevIndex prevTerm entries =
        (s.uncompacted (graft full prevIndex.toNat entries), v)) := by
  unfold Snapshots.append at happ ⊢
  have hindex := h.nonneg
  by_cases hcompact : prevIndex < s.snapshotIndex
  · rw [if_pos hcompact] at happ
    cases happ
    exact absurd rfl hv
  have hprev : s.snapshotIndex ≤ prevIndex := Int.not_lt.mp hcompact
  have h0 : ¬ prevIndex < (s.uncompacted full).snapshotIndex :=
    Int.not_lt.mpr (Int.le_trans hindex hprev)
  rw [if_neg hcompact] at happ
  rw [if_neg h0, h.lastIndex, h.termAt hprev]
  by_cases hmissing : s.lastIndex < prevIndex
  · rw [if_pos hmissing] at happ ⊢
    cases happ
    refine .inl ⟨rfl, rfl, ?_⟩
    rw [answer, h.lastIndex]
    rfl
  rw [if_neg hmissing] at happ ⊢
  by_cases hterm : s.termAt prevIndex ≠ some prevTerm
  · rw [if_pos hterm] at happ ⊢
    cases happ
    refine .inl ⟨rfl, rfl, ?_⟩
    rw [answer, h.lastIndex]
    rfl
  rw [if_neg hterm] at happ ⊢
  have hlast : prevIndex ≤ s.lastIndex := Int.not_lt.mp hmissing
  have hlen := h.length
  -- the same entries are written at the same index of both logs
  have hwrite : s.writeFrom (prevIndex + 1) entries =
      { s with log := graft s.log (prevIndex - s.snapshotIndex).toNat entries } := by
    rw [← writeFrom_eq]
    congr 1
    omega
  have hwrite' : (s.uncompacted full).writeFrom (prevIndex + 1) entries =
      s.uncompacted (graft full prevIndex.toNat entries) := by
    have heq := writeFrom_eq entries (s.uncompacted full) prevIndex.toNat
    rwa [show (s.uncompacted full).snapshotIndex + 1 + (prevIndex.toNat : Int) = prevIndex + 1 from
      by simp only [uncompacted]; omega] at heq
  simp only [hwrite, hwrite'] at happ ⊢
  cases happ
  refine .inr ⟨rfl, hprev, hlast, rfl, ?_⟩
  rw [answer, h.grafted_lastIndex hprev hlast]
  rfl

theorem Compacts.grafted (h : Compacts s full)
    (hprev : s.snapshotIndex ≤ prevIndex) (hlast : prevIndex ≤ s.lastIndex) {entries : List Int}
    (hsafe : ∀ (k : Nat) x y, entries[k]? = some x → prevIndex + 1 + k ≤ s.commitIndex →
      s.termAt (prevIndex + 1 + k) = some y → y = x) :
    Compacts { s with log := graft s.log (prevIndex - s.snapshotIndex).toNat entries }
      (graft full prevIndex.toNat entries) := by
  have hindex := h.nonneg
  have hlen := h.length
  have hheld := h.held
  have hcommitted := h.committed
  have hle : prevIndex.toNat ≤ full.length := by omega
  obtain ⟨hlog, hsum⟩ := h.graft_log hprev hlast entries
  refine ⟨hlog, ?_, h.committed, ?_⟩
  · rcases h.term with h0 | ⟨h1, hterm⟩
    · exact .inl h0
    · refine .inr ⟨h1, ?_⟩
      -- the boundary is below what was written
      obtain ⟨rest, hrest⟩ := graft_initial hle entries
      have hlt : (s.snapshotIndex - 1).toNat < prevIndex.toNat := by omega
      have htake : (full.take prevIndex.toNat).length = prevIndex.toNat :=
        List.length_take_of_le hle
      rw [← hrest, List.append_assoc, List.getElem?_append_left (by rw [htake]; exact hlt),
        List.getElem?_take_of_lt hlt, hterm]
  · show s.commitIndex ≤ s.snapshotIndex + _
    rw [hsum]
    by_cases hshort : s.commitIndex ≤ prevIndex + entries.length
    · have := graft_length_le hle entries
      omega
    · -- the entries end before the commit index, so all of them were there
      have hpre : entries <+: full.drop prevIndex.toNat := by
        rw [List.prefix_iff_getElem?]
        intro k hk
        have hidx : prevIndex.toNat + k < full.length := by omega
        have hread : s.termAt (prevIndex + 1 + k) = some full[prevIndex.toNat + k] := by
          rw [← h.termAt (by omega), ← List.getElem?_eq_getElem hidx,
            ← uncompacted_termAt_succ (s := s)]
          congr 1
          omega
        have hsame := hsafe k _ _ (List.getElem?_eq_getElem hk) (by omega) hread
        rw [List.getElem?_drop, List.getElem?_eq_getElem hidx, hsame]
      rw [graft_eq entries full _ hle, if_pos hpre]
      omega

/-! ## Runs -/

/-- The lines of a run. -/
def IsLogLine (l : Line) : Prop := l.command ∈ ["append", "commit", "snapshot"]

/-- An accepted `append` that does not conflict with an entry at or below the commit index. -/
def SparesCommitted [Host] (e : Event Snapshots Line Value) : Prop :=
  e.input.command = "append" → e.output.flagAt "success" = some true →
    ∀ prevIndex entries, int e.input.args 1 = .ok prevIndex →
      intList e.input.args 3 = .ok entries →
      ∀ (k : Nat) x y, entries[k]? = some x → prevIndex + 1 + k ≤ e.before.commitIndex →
        e.before.termAt (prevIndex + 1 + k) = some y → y = x

/-- The lines the uncompacted machine is given too: no `snapshot`, and no `append` that was refused
as compacted. -/
def isShared (e : Event Snapshots Line Value) : Bool :=
  match e.input.command with
  | "snapshot" => false
  | "append" => e.output.textAt "reason" != some "compacted"
  | _ => true

def exchange (e : Event Snapshots Line Value) : Line × Value := (e.input, e.output)

variable [Host]

variable {args : List String}

/-- An `append` line has a bad argument, which any machine answers alike, or spells the message that
`append` handles. -/
theorem step_append_cases (h : s.step "append" args = some (s', v)) :
    (s' = s ∧ ∀ t : Snapshots, t.step "append" args = some (t, v)) ∨
    ∃ prevIndex prevTerm entries, int args 1 = .ok prevIndex ∧ intList args 3 = .ok entries ∧
      answered (s.append prevIndex prevTerm entries) = some (s', v) ∧
      ∀ t : Snapshots, t.step "append" args = answered (t.append prevIndex prevTerm entries) := by
  simp only [step] at h
  rcases arg_eq_some.mp h with ⟨he, rfl⟩ | ⟨term, h₀, h⟩
  · exact .inl ⟨rfl, fun t => by simp only [step, he, arg_error]⟩
  rcases arg_eq_some.mp h with ⟨he, rfl⟩ | ⟨prevIndex, h₁, h⟩
  · exact .inl ⟨rfl, fun t => by simp only [step, h₀, he, arg_ok, arg_error]⟩
  rcases arg_eq_some.mp h with ⟨he, rfl⟩ | ⟨prevTerm, h₂, h⟩
  · exact .inl ⟨rfl, fun t => by simp only [step, h₀, h₁, he, arg_ok, arg_error]⟩
  rcases arg_eq_some.mp h with ⟨he, rfl⟩ | ⟨entries, h₃, h⟩
  · exact .inl ⟨rfl, fun t => by simp only [step, h₀, h₁, h₂, he, arg_ok, arg_error]⟩
  exact .inr ⟨prevIndex, prevTerm, entries, h₁, h₃, h,
    fun t => by simp only [step, h₀, h₁, h₂, h₃, arg_ok]⟩

omit [Host] in
theorem answered_uncompacted (hlast : inI64 (s.uncompacted full).lastIndex = true) :
    answered (s.uncompacted full, v) = some (s.uncompacted full, v) :=
  answered_eq_some.mpr ⟨rfl, rfl, hlast⟩

/-- An `append` refused as compacted moves nothing. -/
theorem step_compacted (h : s.step "append" args = some (s', v))
    (hv : v.textAt "reason" = some "compacted") : s' = s := by
  rcases step_append_cases h with ⟨hs, -⟩ | ⟨prevIndex, prevTerm, entries, -, -, ha, -⟩
  · exact hs
  have happ := (answered_eq_some.mp ha).1
  unfold append at happ
  split at happ
  · exact (congrArg Prod.fst happ).symm
  split at happ
  · exact (congrArg Prod.fst happ).symm
  split at happ
  · exact (congrArg Prod.fst happ).symm
  · cases happ
    exact absurd (Option.some.inj hv) (by decide)

/-- **An `append` line on both machines.** -/
theorem Compacts.step_append (h : Compacts s full)
    (hs : s.step "append" args = some (s', v)) (hv : v.textAt "reason" ≠ some "compacted") :
    ∃ full', (s.uncompacted full).step "append" args = some (s'.uncompacted full', v) ∧
      s'.log = full'.drop s'.snapshotIndex.toNat ∧
      (SparesCommitted ⟨s, ⟨"append", args⟩, v, s'⟩ → Compacts s' full') := by
  rcases step_append_cases hs with ⟨rfl, hall⟩ | ⟨prevIndex, prevTerm, entries, h₁, h₃, ha, hall⟩
  · exact ⟨full, hall _, h.log, fun _ => h⟩
  obtain ⟨happ, hfirst, hlast⟩ := answered_eq_some.mp ha
  rcases h.append happ hv with ⟨-, rfl, hun⟩ | ⟨hok, hprev, hle, rfl, hun⟩
  · refine ⟨full, ?_, h.log, fun _ => h⟩
    rw [hall, hun]
    exact answered_uncompacted (by rwa [h.lastIndex])
  · refine ⟨Lib.graft full prevIndex.toNat entries, ?_, (h.graft_log hprev hle entries).1,
      fun hsafe => h.grafted hprev hle (hsafe rfl hok prevIndex entries h₁ h₃)⟩
    rw [hall, hun]
    exact answered_uncompacted (by rwa [h.grafted_lastIndex hprev hle])

/-- A `commit` line on both machines. -/
theorem Compacts.step_commit (h : Compacts s full) (hs : s.step "commit" args = some (s', v)) :
    (s.uncompacted full).step "commit" args = some (s'.uncompacted full, v) ∧ Compacts s' full := by
  simp only [step] at hs ⊢
  rcases arg_eq_some.mp hs with ⟨he, rfl⟩ | ⟨index, hi, hs⟩
  · rw [he]
    exact ⟨rfl, h⟩
  · obtain ⟨hcommit, hfirst, hlast⟩ := answered_eq_some.mp hs
    obtain ⟨hun, hc⟩ := h.commit index
    rw [hcommit] at hun hc
    rw [hi, arg_ok, hun]
    exact ⟨answered_uncompacted (by rwa [hc.lastIndex]), hc⟩

/-- A `snapshot` line moves only the machine that compacts. -/
theorem Compacts.step_snapshot (h : Compacts s full) (hs : s.step "snapshot" args = some (s', v)) :
    s'.uncompacted full = s.uncompacted full ∧ Compacts s' full := by
  simp only [step] at hs
  rcases arg_eq_some.mp hs with ⟨-, rfl⟩ | ⟨index, -, hs⟩
  · exact ⟨rfl, h⟩
  · have hsnap := h.snapshot index
    rw [(answered_eq_some.mp hs).1] at hsnap
    have hcommit : s'.commitIndex = s.commitIndex := hsnap.2
    exact ⟨by unfold uncompacted; rw [hcommit], hsnap.1⟩

/-- A run of the uncompacted machine next to a history of the compacting one. -/
def RunsBeside (terms : List Int) (es : List (Event Snapshots Line Value)) (s : Snapshots)
    (full : List Int) : Prop :=
  ∃ fs, Run (onLine step) (init terms) fs (s.uncompacted full) ∧
    fs.map exchange = (es.filter isShared).map exchange

variable {es : List (Event Snapshots Line Value)}

theorem RunsBeside.snoc {terms full' : List Int} {l : Line}
    (h : RunsBeside terms es s full) (hshared : isShared ⟨s, l, v, s'⟩ = true)
    (hstep : onLine step (s.uncompacted full) l = some (s'.uncompacted full', v)) :
    RunsBeside terms (es ++ [⟨s, l, v, s'⟩]) s' full' := by
  obtain ⟨fs, hfs, hmap⟩ := h
  refine ⟨_, hfs.snoc hstep, ?_⟩
  rw [List.map_append, hmap, List.filter_append, List.map_append, List.filter_cons_of_pos hshared]
  rfl

variable {terms : List Int}

theorem RunsBeside.skip {l : Line} (h : RunsBeside terms es s full) (hshared : isShared ⟨s, l, v, s'⟩ = false)
    (hsame : s'.uncompacted full = s.uncompacted full) : RunsBeside terms (es ++ [⟨s, l, v, s'⟩]) s' full := by
  obtain ⟨fs, hfs, hmap⟩ := h
  refine ⟨fs, hsame ▸ hfs, ?_⟩
  rw [hmap, List.filter_append, List.filter_cons_of_neg (by simp [hshared]), List.filter_nil,
    List.append_nil]

omit [Host] in
theorem compacts_init (terms : List Int) : Compacts (init terms) terms :=
  ⟨rfl, .inl ⟨rfl, rfl⟩, Int.le_refl 0, Int.add_nonneg (Int.le_refl 0) (Int.natCast_nonneg _)⟩

theorem Compacts.step {l : Line} (h : Compacts s full) (hbeside : RunsBeside terms es s full) (hl : IsLogLine l)
    (hs : onLine Snapshots.step s l = some (s', v)) (hsafe : SparesCommitted ⟨s, l, v, s'⟩) :
    ∃ full', RunsBeside terms (es ++ [⟨s, l, v, s'⟩]) s' full' ∧ Compacts s' full' := by
  obtain ⟨command, args⟩ := l
  unfold IsLogLine at hl
  simp only [List.mem_cons, List.not_mem_nil, or_false] at hl
  rcases hl with rfl | rfl | rfl
  · by_cases hv : v.textAt "reason" = some "compacted"
    · have hsame : s' = s := step_compacted hs hv
      rw [hsame]
      exact ⟨full, hbeside.skip (by simp [isShared, hv]) rfl, h⟩
    · obtain ⟨full', hstep, -, hc⟩ := h.step_append hs hv
      exact ⟨full', hbeside.snoc (by simp [isShared, hv]) hstep, hc hsafe⟩
  · obtain ⟨hstep, hc⟩ := h.step_commit hs
    exact ⟨full, hbeside.snoc rfl hstep, hc⟩
  · obtain ⟨hsame, hc⟩ := h.step_snapshot hs
    exact ⟨full, hbeside.skip rfl hsame, hc⟩

theorem exists_uncompacted_run (hrun : Run (onLine step) (init terms) es s) (hes : ∀ e ∈ es, IsLogLine e.input)
    (hsafe : ∀ e ∈ es, SparesCommitted e) : ∃ full, RunsBeside terms es s full ∧ Compacts s full := by
  refine hrun.history_invariant (P := fun es s => ∃ full, RunsBeside terms es s full ∧ Compacts s full)
    (G := fun e => IsLogLine e.input ∧ SparesCommitted e)
    ⟨terms, ⟨[], .nil, rfl⟩, compacts_init terms⟩ ?_ fun e he => ⟨hes e he, hsafe e he⟩
  rintro es s l s' v ⟨full, hbeside, hc⟩ ⟨hl, hspares⟩ hs
  exact hc.step hbeside hl hs hspares

/-- **Compaction is invisible.** After any run of `append`, `commit` and `snapshot` lines in which no
accepted `append` conflicts with an entry at or below the commit index, there is a run of the same
machine on the same lines without the `snapshot`s and without the appends refused as compacted. It
gives the same answers and reaches the uncompacted log `full`: the log is `full` without its first
`snapshotIndex` entries, and `snapshotTerm`, the indices and the next `append` that is not refused as
compacted agree with it. -/
theorem compaction_invisible {terms : List Int} {es : List (Event Snapshots Line Value)}
    (hrun : Run (onLine step) (init terms) es s) (hes : ∀ e ∈ es, IsLogLine e.input)
    (hsafe : ∀ e ∈ es, SparesCommitted e) :
    ∃ fs full, Run (onLine step) (init terms) fs (s.uncompacted full) ∧
      fs.map exchange = (es.filter isShared).map exchange ∧
      s.log = full.drop s.snapshotIndex.toNat ∧
      (s.snapshotIndex = 0 ∧ s.snapshotTerm = 0 ∨
        1 ≤ s.snapshotIndex ∧ full[(s.snapshotIndex - 1).toNat]? = some s.snapshotTerm) ∧
      s.snapshotIndex ≤ s.commitIndex ∧ s.commitIndex ≤ s.lastIndex ∧
      s.lastIndex = full.length ∧
      ∀ args s' v, s.step "append" args = some (s', v) → v.textAt "reason" ≠ some "compacted" →
        ∃ full', (s.uncompacted full).step "append" args = some (s'.uncompacted full', v) ∧
          s'.log = full'.drop s'.snapshotIndex.toNat := by
  obtain ⟨full, ⟨fs, hfs, hmap⟩, hc⟩ := exists_uncompacted_run hrun hes hsafe
  refine ⟨fs, full, hfs, hmap, hc.log, hc.term, hc.committed, hc.held, hc.length.symm, ?_⟩
  intro args s' v hs hv
  obtain ⟨full', hstep, hlog, -⟩ := hc.step_append hs hv
  exact ⟨full', hstep, hlog⟩

/-! A log of three, compacted at its second entry, then extended from the third. -/

@[reducible] def four : Host := hostOf [("[4]", .arr [.num 4])]

def compactAndExtend : List Line :=
  [⟨"commit", ["2"]⟩, ⟨"snapshot", ["2"]⟩, ⟨"append", ["4", "3", "3", "[4]"]⟩]

omit [Host] in
theorem compaction_invisible_extend : ∃ es s, ∃ full : List Int,
    Run (onLine (@step four)) (init [1, 1, 3]) es s ∧ es.map Event.input = compactAndExtend ∧
      s.log = full.drop s.snapshotIndex.toNat ∧ s.log = [3, 4] := by
  let _ : Host := four
  obtain ⟨es, s, hrun, hinputs, hbefore, hlog⟩ : ∃ es s,
      Run (onLine step) (init [1, 1, 3]) es s ∧ es.map Event.input = compactAndExtend ∧
        es.map (fun e => e.before.commitIndex) = [0, 2, 2] ∧ s.log = [3, 4] :=
    ⟨_, _, run_of_exec compactAndExtend rfl, rfl, rfl, rfl⟩
  have hin : ∀ e ∈ es, e.input ∈ compactAndExtend := fun e he =>
    hinputs ▸ List.mem_map_of_mem he
  have hlines : ∀ e ∈ es, IsLogLine e.input := by
    intro e he
    have hall : ∀ l ∈ compactAndExtend, l.command ∈ ["append", "commit", "snapshot"] := by decide
    exact hall _ (hin e he)
  have hsafe : ∀ e ∈ es, SparesCommitted e := by
    intro e he happend _ prevIndex entries h₁ h₃ k x y hk hle
    -- the append writes index 4, past the commit index of any state of the run
    have hcommit : e.before.commitIndex ∈ [0, 2, 2] := hbefore ▸ List.mem_map_of_mem he
    have hargs : e.input.args = ["4", "3", "3", "[4]"] := by
      have := hin e he
      simp only [compactAndExtend, List.mem_cons, List.not_mem_nil, or_false] at this
      rcases this with h | h | h <;> simp_all
    have hprev : prevIndex = 3 := Except.ok.inj (h₁.symm.trans (by rw [hargs]; rfl))
    simp only [List.mem_cons, List.not_mem_nil, or_false] at hcommit
    omega
  obtain ⟨-, full, -, -, hfull, -⟩ := compaction_invisible hrun hlines hsafe
  exact ⟨es, s, full, hrun, hinputs, hfull, hlog⟩

end BuildYourOwn.Raft.Snapshots
