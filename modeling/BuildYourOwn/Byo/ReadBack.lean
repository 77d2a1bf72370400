import Mathlib.Data.List.Chain
import BuildYourOwn.Byo.History

/-!
# Runs are read back

The rows of a run are those of its report in order (`ingest_rows`), no later call touches them (`Recorded.step`), and
regrouping them gives the stages back (`regroup_cells`), so a run reads back as its report in all but one field:
`run_report` says of every run that it was no `--validate` run.

Headline: `reads_back_iff`.
-/

namespace BuildYourOwn.Byo

open Lib Lib.Action
open Topic (Host Value)

/-! ## Reports that can be told from their rows -/

def Stage.count (st : Stage) (status : String) : Int := (st.tests.countP fun t => t.status = status : Nat)

structure Stage.Agrees (st : Stage) : Prop where
  tested : st.tests ≠ []
  status : ∀ t ∈ st.tests, t.status = "pass" ∨ t.status = "fail" ∨ t.status = "skip"
  passed : st.passed = st.count "pass"
  failed : st.failed = st.count "fail"
  skipped : st.skipped = st.count "skip"

structure Report.Consistent (report : Report) : Prop where
  agrees : ∀ st ∈ report.stages, st.Agrees
  neighbours : report.stages.IsChain fun a b => a.stage ≠ b.stage

/-- `serde_json` reads back what it prints of a test. -/
def Test.Prints [Host] (t : Test) : Prop :=
  Host.fromStr (Host.display (ofLines t.failures)) = .ok (ofLines t.failures) ∧
    Host.fromStr (Host.display (ofLabels t.actual)) = .ok (ofLabels t.actual)

/-! ## Regrouping -/

/-- What a row is read as. -/
def cell (st : Stage) (t : Test) : UInt32 × String × String × Test := (st.stage, st.name, st.file, t)

section
variable {st : Stage} {t : Test} {acc stages : List Stage} {tests : List Test}

@[simp] theorem push_stage : (st.push t).stage = st.stage := by
  unfold Stage.push
  split
  · rfl
  · split <;> rfl

theorem regroup_same (acc : List Stage) {s : Stage} (hs : s.stage = st.stage) (tests : List Test) :
    (tests.map (cell st)).foldl regroup (acc ++ [s]) = acc ++ [tests.foldl Stage.push s] := by
  induction tests generalizing s with
  | nil => rfl
  | cons t tests ih =>
    rw [List.map_cons, List.foldl_cons, List.foldl_cons]
    have hstep : regroup (acc ++ [s]) (cell st t) = acc ++ [s.push t] := by
      simp [regroup, cell, hs]
    rw [hstep, ih (push_stage.trans hs)]

theorem push_all (s : Stage) (hstatus : ∀ t ∈ tests, t.status = "pass" ∨ t.status = "fail" ∨ t.status = "skip") :
    tests.foldl Stage.push s = { s with
      passed := s.passed + (tests.countP fun t => t.status = "pass" : Nat)
      failed := s.failed + (tests.countP fun t => t.status = "fail" : Nat)
      skipped := s.skipped + (tests.countP fun t => t.status = "skip" : Nat)
      tests := s.tests ++ tests } := by
  induction tests generalizing s with
  | nil => simp
  | cons t tests ih =>
    rw [List.foldl_cons, ih _ fun t' ht' => hstatus t' (List.mem_cons_of_mem t ht')]
    rcases hstatus t List.mem_cons_self with ht | ht | ht
    all_goals
      simp only [Stage.push, ht, List.countP_cons, Stage.mk.injEq]
      simp
      omega

def cells (stages : List Stage) : List (UInt32 × String × String × Test) :=
  stages.flatMap fun st => st.tests.map (cell st)

def Stage.bare (st : Stage) : Stage := { st with passed := 0, failed := 0, skipped := 0, tests := [] }

theorem Stage.Agrees.rebuilt (h : st.Agrees) : st.tests.foldl Stage.push st.bare = st := by
  rw [push_all _ h.status]
  obtain ⟨stage, name, file, passed, failed, skipped, tests⟩ := st
  simp only [Stage.bare, Int.zero_add, List.nil_append, Stage.mk.injEq, true_and, and_true]
  exact ⟨h.passed.symm, h.failed.symm, h.skipped.symm⟩

theorem regroup_other (h : ∀ s ∈ acc.getLast?, s.stage ≠ st.stage) :
    regroup acc (cell st t) = acc ++ [st.bare.push t] := by
  unfold regroup cell
  cases hlast : acc.getLast? with
  | some s =>
    dsimp only
    rw [if_neg (h s (by rw [hlast]; rfl))]
    rfl
  | none =>
    rw [List.getLast?_eq_none_iff.mp hlast]
    rfl

/-- **The rows of a consistent report** give its stages back. -/
theorem regroup_cells (hagrees : ∀ st ∈ stages, st.Agrees) (hchain : stages.IsChain fun a b => a.stage ≠ b.stage)
    (hfirst : ∀ s ∈ acc.getLast?, ∀ st ∈ stages.head?, s.stage ≠ st.stage) :
    (cells stages).foldl regroup acc = acc ++ stages := by
  induction stages generalizing acc with
  | nil => exact (List.append_nil acc).symm
  | cons st stages ih =>
    have hst := hagrees st List.mem_cons_self
    obtain ⟨t, tests, htests⟩ := List.exists_cons_of_ne_nil hst.tested
    have hnext : ∀ s ∈ (acc ++ [st]).getLast?, ∀ st' ∈ stages.head?, s.stage ≠ st'.stage := by
      rw [List.getLast?_concat]
      rintro _ ⟨⟩ st' hst'
      exact (List.isChain_cons.mp hchain).1 st' hst'
    have hrest := ih (fun st' hst' => hagrees st' (List.mem_cons_of_mem st hst')) (List.isChain_cons.mp hchain).2 hnext
    have hone : (st.tests.map (cell st)).foldl regroup acc = acc ++ [st] := by
      have hrebuilt := hst.rebuilt
      rw [htests, List.foldl_cons] at hrebuilt
      have hsame : (st.bare.push t).stage = st.stage := push_stage
      rw [htests, List.map_cons, List.foldl_cons, regroup_other fun s hs => hfirst s hs st rfl,
        regroup_same acc hsame, hrebuilt]
    rw [cells, List.flatMap_cons, List.foldl_append, hone]
    exact hrest.trans (List.append_assoc acc [st] stages)

end

/-! ## The rows of a run -/

def stageRows [Host] (runId : Int) (st : Stage) (seq : Int) : List Test → List TestRow
  | [] => []
  | t :: tests => testRow runId seq st t :: stageRows runId st (seq + 1) tests

def runRows [Host] (runId : Int) (seq : Int) : List Stage → List TestRow
  | [] => []
  | st :: stages => stageRows runId st seq st.tests ++ runRows runId (seq + st.tests.length) stages

section
variable [Host] {c c' : Conn} {runId seq next : Int} {st : Stage} {tests : List Test}

theorem insertTests_ok (h : insertTests runId st seq tests c = some (.ok next, c')) :
    next = seq + tests.length ∧ c'.db = { c.db with runTests := c.db.runTests ++ stageRows runId st seq tests } := by
  induction tests generalizing c seq with
  | nil =>
    cases h
    refine ⟨by simp, ?_⟩
    rw [stageRows, List.append_nil]
  | cons t tests ih =>
    obtain ⟨_, c₁, hone, h⟩ := bind_ok.mp h
    obtain ⟨db, hdb, rfl⟩ := statement_ok (context_ok.mp hone)
    split at hdb
    · cases hdb
    · cases hdb
      obtain ⟨hnext, hrows⟩ := ih h
      refine ⟨by rw [hnext, List.length_cons]; omega, ?_⟩
      simp only [hrows, stageRows, List.append_assoc, List.singleton_append]

theorem insertStages_rows {track : Track} {validate : Bool} {startedAt : String} {stages : List Stage} {u : Unit}
    (h : insertStages track runId validate startedAt seq stages c = some (.ok u, c')) :
    c'.db.runs = c.db.runs ∧ c'.db.runSeq = c.db.runSeq ∧
      c'.db.runTests = c.db.runTests ++ runRows runId seq stages := by
  induction stages generalizing c seq with
  | nil =>
    cases h
    exact ⟨rfl, rfl, (List.append_nil _).symm⟩
  | cons st stages ih =>
    obtain ⟨next, c₁, htests, h⟩ := bind_ok.mp h
    obtain ⟨rfl, hone⟩ := insertTests_ok htests
    have hkept : ∃ c₂ : Conn, (c₂.db.runs = c₁.db.runs ∧ c₂.db.runSeq = c₁.db.runSeq ∧
        c₂.db.runTests = c₁.db.runTests) ∧
        insertStages track runId validate startedAt (seq + st.tests.length) stages c₂ = some (.ok u, c') := by
      cases validate with
      | true => exact ⟨c₁, ⟨rfl, rfl, rfl⟩, h⟩
      | false =>
        obtain ⟨o, c₂, hout, h⟩ := bind_ok.mp h
        obtain ⟨ran, d, hran, hpure⟩ := bind_ok.mp hout
        obtain ⟨-, rfl⟩ := demand_ok.mp hran
        obtain ⟨rfl, rfl⟩ := pure_ok.mp hpure
        by_cases hzero : ran = 0
        · rw [if_pos hzero] at h
          exact ⟨_, ⟨rfl, rfl, rfl⟩, h⟩
        · rw [if_neg hzero] at h
          obtain ⟨_, c₃, hexec, h⟩ := bind_ok.mp h
          have hdb := execute_ok (context_ok.mp hexec)
          exact ⟨c₃, by rw [hdb]; exact ⟨rfl, rfl, rfl⟩, h⟩
    obtain ⟨c₂, ⟨hruns, hseq, hrows⟩, h⟩ := hkept
    obtain ⟨hruns', hseq', hrows'⟩ := ih h
    rw [hone] at hruns hseq hrows
    refine ⟨hruns'.trans hruns, hseq'.trans hseq, ?_⟩
    rw [hrows', hrows, runRows, List.append_assoc]

def Report.row (report : Report) (runId : Int) (track : Track) (projectId : Option Int) (args : String)
    (jsonPath : Option String) (startedAt : String) : RunRow :=
  { id := runId, projectId, track := track.asStr, target := report.target, startedAt, elapsedMs := report.elapsedMs,
    passed := report.passed, failed := report.failed, skipped := report.skipped, args, jsonPath }

variable {track : Track} {projectId : Option Int} {report : Report} {args startedAt : String} {jsonPath : Option String}

theorem ingest_rows (h : ingest track projectId report args jsonPath startedAt c = some (.ok runId, c')) :
    runId = c.db.nextRun ∧ c'.db.runs = c.db.runs ++ [report.row runId track projectId args jsonPath startedAt] ∧
      c'.db.runSeq = runId ∧ c'.db.runTests = c.db.runTests ++ runRows runId 0 report.stages := by
  obtain ⟨c₁, c₂, hstart, hbody, hcommit⟩ := transaction_ok h
  obtain ⟨id, c₃, hrun, hbody⟩ := bind_ok.mp hbody
  obtain ⟨_, c₄, hstages, hpure⟩ := bind_ok.mp hbody
  obtain ⟨rfl, rfl⟩ := pure_ok.mp hpure
  obtain ⟨hruns, hseq, hrows⟩ := insertStages_rows hstages
  obtain ⟨db, hdb, rfl⟩ := statement_ok (context_ok.mp hrun)
  have hbegin := mark_ok (context_ok.mp hstart)
  rw [mark_ok (context_ok.mp hcommit), hruns, hseq, hrows]
  split at hdb
  · cases hdb
    rw [hbegin]
    exact ⟨rfl, rfl, rfl, rfl⟩
  · cases hdb

end

/-! ## What later calls leave -/

/-- Every number that was given is at most the one remembered. -/
structure Tidy (db : Db) : Prop where
  runs : ∀ r ∈ db.runs, r.id ≤ db.runSeq
  tests : ∀ t ∈ db.runTests, t.runId ≤ db.runSeq

/-- What a call other than `reset` does to the runs: nothing, or one more under the next number. -/
def Grows (db db' : Db) : Prop :=
  (db'.runs = db.runs ∧ db'.runSeq = db.runSeq ∧ db'.runTests = db.runTests) ∨
    ∃ row rows, row.id = db.nextRun ∧ (∀ t ∈ rows, t.runId = db.nextRun) ∧ db'.runs = db.runs ++ [row] ∧
      db'.runSeq = db.nextRun ∧ db'.runTests = db.runTests ++ rows

structure Recorded (db : Db) (run : RunRow) (rows : List TestRow) : Prop where
  found : db.runs.find? (fun r => r.id = run.id) = some run
  tests : db.runTests.filter (fun t => t.runId = run.id) = rows

section
variable {db db' : Db} {run : RunRow} {rows : List TestRow}

theorem Tidy.nextRun (h : Tidy db) : db.nextRun = db.runSeq + 1 := by
  have hmax : ∀ (l : List RunRow) (n : Int), (∀ r ∈ l, r.id ≤ n) → l.foldl (fun n r => max n r.id) n = n := by
    intro l n hl
    induction l with
    | nil => rfl
    | cons r l ih =>
      rw [List.foldl_cons, Int.max_eq_left (hl r List.mem_cons_self)]
      exact ih fun r' hr' => hl r' (List.mem_cons_of_mem r hr')
  unfold Db.nextRun
  rw [hmax _ _ h.runs]

theorem Tidy.grows (h : Tidy db) (hg : Grows db db') : Tidy db' := by
  have hnext := h.nextRun
  rcases hg with ⟨hruns, hseq, htests⟩ | ⟨row, rows, hid, hrows, hruns, hseq, htests⟩
  · exact ⟨by rw [hruns, hseq]; exact h.runs, by rw [htests, hseq]; exact h.tests⟩
  · constructor
    · intro r hr
      rw [hruns] at hr
      rcases List.mem_append.mp hr with hr | hr
      · have := h.runs r hr
        omega
      · obtain rfl := List.mem_singleton.mp hr
        omega
    · intro t ht
      rw [htests] at ht
      rcases List.mem_append.mp ht with ht | ht
      · have := h.tests t ht
        omega
      · have := hrows t ht
        omega

/-- **A later call** leaves a run that is there. -/
theorem Recorded.grows (h : Recorded db run rows) (htidy : Tidy db) (hg : Grows db db') : Recorded db' run rows := by
  have hrun := htidy.runs run (List.mem_of_find?_eq_some h.found)
  have hnext := htidy.nextRun
  rcases hg with ⟨hruns, -, htests⟩ | ⟨row, new, hid, hnew, hruns, -, htests⟩
  · exact ⟨by rw [hruns]; exact h.found, by rw [htests]; exact h.tests⟩
  · constructor
    · rw [hruns, List.find?_append, h.found]
      rfl
    · have hnone : new.filter (fun t => t.runId = run.id) = [] := by
        refine List.filter_eq_nil_iff.mpr fun t ht hid => ?_
        have := hnew t ht
        have := of_decide_eq_true hid
        omega
      rw [htests, List.filter_append, h.tests, hnone, List.append_nil]

variable [Host] {c c' : Conn} {call : Call} {answer : Answer}

theorem stageRows_runId {runId seq : Int} {st : Stage} {tests : List Test} :
    ∀ t ∈ stageRows runId st seq tests, t.runId = runId := by
  induction tests generalizing seq with
  | nil => exact fun _ h => nomatch h
  | cons t tests ih => exact List.forall_mem_cons.mpr ⟨rfl, ih⟩

theorem runRows_runId {runId seq : Int} {stages : List Stage} : ∀ t ∈ runRows runId seq stages, t.runId = runId := by
  induction stages generalizing seq with
  | nil => exact fun _ h => nomatch h
  | cons st stages ih => exact fun t ht => (List.mem_append.mp ht).elim (stageRows_runId t) (ih t)

theorem step_grows (hreset : call ≠ .reset) (h : step c call = some (c', answer)) : Grows c.db c'.db := by
  cases call with
  | ingest track projectId report args jsonPath startedAt faults =>
    obtain ⟨⟨r, d⟩, hingest, hr⟩ := Option.map_eq_some_iff.mp h
    cases hr
    cases r with
    | ok runId =>
      obtain ⟨rfl, hruns, hseq, htests⟩ := ingest_rows hingest
      exact .inr ⟨_, _, rfl, runRows_runId, hruns, hseq, htests⟩
    | error e =>
      have hdb := transaction_error hingest
      exact .inl (by rw [hdb]; exact ⟨rfl, rfl, rfl⟩)
  | setState track n done =>
    obtain ⟨⟨r, d⟩, hset, hr⟩ := Option.map_eq_some_iff.mp h
    cases hr
    have hdb := setState_db rfl hset
    exact .inl (by rw [hdb]; exact ⟨rfl, rfl, rfl⟩)
  | setNote track n note =>
    obtain ⟨⟨r, d⟩, hset, hr⟩ := Option.map_eq_some_iff.mp h
    cases hr
    have hdb := setNote_db rfl hset
    exact .inl (by rw [hdb]; exact ⟨rfl, rfl, rfl⟩)
  | reset => exact absurd rfl hreset

theorem step_tidy (htidy : Tidy c.db) (h : step c call = some (c', answer)) : Tidy c'.db := by
  by_cases hreset : call = .reset
  · subst hreset
    rw [step] at h
    obtain ⟨⟨r, d⟩, hrun, hr⟩ := Option.map_eq_some_iff.mp h
    cases hr
    have hdb := reset_db rfl hrun
    rw [hdb]
    exact ⟨List.forall_mem_nil _, List.forall_mem_nil _⟩
  · exact htidy.grows (step_grows hreset h)

variable {c₀ : Conn} {es : List (Event Conn Call Answer)}

theorem tidy_history (h : Run step c₀ es c) (h₀ : c₀.db = Db.empty) : Tidy c.db := by
  refine h.invariant (P := fun c => Tidy c.db) (G := fun _ _ => True) ?_
    (fun c call c' answer hc _ hs => step_tidy hc hs)
    fun _ _ => trivial
  rw [h₀]
  exact ⟨List.forall_mem_nil _, List.forall_mem_nil _⟩

theorem recorded_history (h : Run step c₀ es c) (htidy : Tidy c₀.db) (hrec : Recorded c₀.db run rows)
    (hes : ∀ e ∈ es, e.input ≠ .reset) : Recorded c.db run rows :=
  (h.invariant (P := fun c => Tidy c.db ∧ Recorded c.db run rows) (G := fun _ call => call ≠ .reset) ⟨htidy, hrec⟩
    (fun _ _ _ _ hc hcall hs => ⟨step_tidy hc.1 hs, hc.2.grows hc.1 (step_grows hcall hs)⟩) hes).2

end

/-! ## Reading -/

section
variable [Host] {runId seq : Int} {st : Stage} {stages : List Stage} {tests : List Test}

theorem readLines_display {lines : List String}
    (h : Host.fromStr (Host.display (ofLines lines)) = .ok (ofLines lines)) :
    readLines (Host.display (ofLines lines)) = lines := by
  have hitems : ∀ l : List String, (l.map Value.str).mapM Value.asStr = some l := by
    intro l
    induction l with
    | nil => rfl
    | cons s l ih => simp [Value.asStr, ih]
  unfold readLines
  rw [h]
  unfold ofLines
  dsimp only
  rw [hitems, Option.getD_some]

theorem readLabels_display {labels : List (String × String)}
    (h : Host.fromStr (Host.display (ofLabels labels)) = .ok (ofLabels labels)) :
    readLabels (Host.display (ofLabels labels)) = labels := by
  have hitems : ∀ l : List (String × String),
      (l.map fun p => Value.arr [.str p.1, .str p.2]).mapM toLabel = some l := by
    intro l
    induction l with
    | nil => rfl
    | cons p l ih => simp [toLabel, ih]
  unfold readLabels
  rw [h]
  unfold ofLabels
  dsimp only
  rw [hitems, Option.getD_some]

theorem read_testRow {t : Test} (h : t.Prints) : (testRow runId seq st t).read = .ok (cell st t) := by
  have hstage : getU32 (st.stage.toNat : Int) = .ok st.stage := by
    have hlt := st.stage.toNat_lt
    rw [getU32, if_pos (by omega), Int.toNat_natCast, UInt32.ofNat_toNat]
  unfold TestRow.read testRow
  rw [hstage, readLines_display h.1, readLabels_display h.2]
  obtain ⟨name, status, ext, durationMs, failures, skipReason, actual, failureKind⟩ := t
  cases ext <;> rfl

theorem read_stageRows (h : ∀ t ∈ tests, t.Prints) :
    (stageRows runId st seq tests).mapM TestRow.read = .ok (tests.map (cell st)) := by
  induction tests generalizing seq with
  | nil => rfl
  | cons t tests ih =>
    rw [stageRows, List.mapM_cons, read_testRow (h t List.mem_cons_self),
      ih fun t' ht' => h t' (List.mem_cons_of_mem t ht')]
    rfl

theorem read_runRows (h : ∀ st ∈ stages, ∀ t ∈ st.tests, t.Prints) :
    (runRows runId seq stages).mapM TestRow.read = .ok (cells stages) := by
  induction stages generalizing seq with
  | nil => rfl
  | cons st stages ih =>
    rw [runRows, List.mapM_append, read_stageRows (h st List.mem_cons_self),
      ih fun st' hst' => h st' (List.mem_cons_of_mem st hst')]
    rfl

theorem stageRows_seq : ∀ t ∈ stageRows runId st seq tests, seq ≤ t.seq ∧ t.seq < seq + tests.length := by
  induction tests generalizing seq with
  | nil => exact fun _ h => nomatch h
  | cons t tests ih =>
    refine List.forall_mem_cons.mpr ⟨⟨Int.le_refl seq, ?_⟩, fun t' ht' => ?_⟩
    · show seq < _
      rw [List.length_cons]
      omega
    · have := ih t' ht'
      rw [List.length_cons]
      omega

theorem stageRows_sorted : (stageRows runId st seq tests).Pairwise fun a b => a.seq ≤ b.seq := by
  induction tests generalizing seq with
  | nil => exact .nil
  | cons t tests ih =>
    refine List.pairwise_cons.mpr ⟨fun t' ht' => ?_, ih⟩
    have := (stageRows_seq t' ht').1
    show seq ≤ _
    omega

theorem runRows_seq : ∀ t ∈ runRows runId seq stages, seq ≤ t.seq := by
  induction stages generalizing seq with
  | nil => exact fun _ h => nomatch h
  | cons st stages ih =>
    intro t ht
    rcases List.mem_append.mp ht with ht | ht
    · exact (stageRows_seq t ht).1
    · have := ih t ht
      omega

theorem runRows_sorted : (runRows runId seq stages).Pairwise fun a b => a.seq ≤ b.seq := by
  induction stages generalizing seq with
  | nil => exact .nil
  | cons st stages ih =>
    refine List.pairwise_append.mpr ⟨stageRows_sorted, ih, fun a ha b hb => ?_⟩
    have := (stageRows_seq a ha).2
    have := runRows_seq b hb
    omega

variable {c : Conn} {report : Report} {track : Track} {projectId : Option Int} {args startedAt : String}
  {jsonPath : Option String}

/-- A run that is there reads back as its report, but for `validate`. -/
theorem runReport_recorded (hfaults : c.faults = []) (hcons : report.Consistent)
    (hprints : ∀ st ∈ report.stages, ∀ t ∈ st.tests, t.Prints)
    (h : Recorded c.db (report.row runId track projectId args jsonPath startedAt) (runRows runId 0 report.stages)) :
    runReport runId c = some (.ok (some { report with validate := false }), c) := by
  obtain ⟨db, faults, clock, ticks⟩ := c
  cases hfaults
  have hsorted : (runRows runId 0 report.stages).mergeSort (fun a b => a.seq ≤ b.seq) = runRows runId 0 report.stages :=
    List.mergeSort_of_pairwise (runRows_sorted.imp fun h => decide_eq_true h)
  have hfound : query (fun db => .ok (db.runs.find? fun r => r.id = runId)) ⟨db, [], clock, ticks⟩ =
      some (.ok (some (report.row runId track projectId args jsonPath startedAt)), ⟨db, [], clock, ticks⟩) := by
    have hrun := congrArg (fun run => some (Except.ok (ε := String) run, Conn.mk db [] clock ticks)) h.found
    exact hrun
  have hread : ((db.runTests.filter fun r => r.runId = runId).mergeSort fun a b => a.seq ≤ b.seq).mapM TestRow.read =
      .ok (cells report.stages) := by
    refine Eq.trans ?_ (@read_runRows _ runId 0 _ hprints)
    rw [← hsorted]
    exact congrArg (fun rows : List TestRow => (rows.mergeSort fun a b => a.seq ≤ b.seq).mapM TestRow.read) h.tests
  have hrows : query (fun db => ((db.runTests.filter fun r => r.runId = runId).mergeSort fun a b => a.seq ≤ b.seq).mapM
      TestRow.read) ⟨db, [], clock, ticks⟩ = some (.ok (cells report.stages), ⟨db, [], clock, ticks⟩) := by
    unfold query statement
    dsimp only
    rw [hread]
    rfl
  unfold runReport
  rw [bind_of_ok hfound]
  dsimp only
  rw [bind_of_ok hrows, regroup_cells hcons.agrees hcons.neighbours (by simp)]
  rfl

end

/-- **A recorded run reads back as the report that was ingested**, whatever came before and comes after it but a reset,
exactly when it was no `--validate` run. -/
theorem reads_back_iff [Host] {c₀ c₁ c₂ c₃ : Conn} {es es' : List (Event Conn Call Answer)} {track : Track}
    {projectId : Option Int} {report : Report} {args startedAt : String} {jsonPath : Option String}
    {faults : List (Option String)} {runId : Int} (before : Run step c₀ es c₁) (h₀ : c₀.db = Db.empty)
    (h : step c₁ (.ingest track projectId report args jsonPath startedAt faults) = some (c₂, .ok (some runId)))
    (after : Run step c₂ es' c₃) (hkept : ∀ e ∈ es', e.input ≠ .reset) (hcons : report.Consistent)
    (hprints : ∀ st ∈ report.stages, ∀ t ∈ st.tests, t.Prints) :
    (∃ c, runReport runId { c₃ with faults := [] } = some (.ok (some report), c)) ↔ report.validate = false := by
  have htidy := tidy_history before h₀
  have hnext := htidy.nextRun
  obtain ⟨⟨r, d⟩, hingest, hr⟩ := Option.map_eq_some_iff.mp h
  have hrec : Recorded c₂.db (report.row runId track projectId args jsonPath startedAt)
      (runRows runId 0 report.stages) := by
    cases r with
    | error e => cases hr
    | ok id =>
      cases hr
      obtain ⟨hid, hruns, -, htests⟩ := ingest_rows hingest
      replace hid : runId = c₁.db.nextRun := hid
      constructor
      · have hnone : c₁.db.runs.find? (fun r => r.id = runId) = none := by
          refine List.find?_eq_none.mpr fun r hr hid' => ?_
          have := htidy.runs r hr
          have := of_decide_eq_true hid'
          omega
        rw [hruns, List.find?_append]
        refine (congrArg (fun o : Option RunRow => o.or _) hnone).trans ?_
        simp [Report.row]
      · have hnone : c₁.db.runTests.filter (fun t => t.runId = runId) = [] := by
          refine List.filter_eq_nil_iff.mpr fun t ht hid' => ?_
          have := htidy.tests t ht
          have := of_decide_eq_true hid'
          omega
        rw [htests, List.filter_append]
        refine (congrArg (· ++ _) hnone).trans ?_
        exact List.filter_eq_self.mpr fun t ht => decide_eq_true (runRows_runId t ht)
  have hlater := recorded_history after (step_tidy htidy h) hrec hkept
  have hread := runReport_recorded (c := { c₃ with faults := [] }) rfl hcons hprints hlater
  constructor
  · rintro ⟨c, hc⟩
    rw [hread] at hc
    have hreport : { report with validate := false } = report := by
      injection hc with hc
      injection hc with hc
      injection hc with hc
      injection hc
    exact (congrArg Report.validate hreport).symm
  · intro hvalidate
    have hreport : { report with validate := false } = report := by rw [← hvalidate]
    refine ⟨{ c₃ with faults := [] }, hread.trans ?_⟩
    rw [hreport]

/-! ## One run -/

/-- `serde_json`, of empty lists. -/
@[reducible] def emptyLists : Host where
  fromStr raw := if raw = "[]" then .ok (.arr []) else .error "expected value at line 1 column 1"
  display _ := "[]"
  escapes _ := false

def onePass (validate : Bool) : Report :=
  ⟨"bash", validate,
    [⟨1, "Prompt", "01_prompt.yaml", 1, 0, 0, [⟨"shows a prompt", "pass", false, 3, [], none, [], none⟩]⟩], 1, 0, 0, 7⟩

def ingestOnePass (validate : Bool) : Call :=
  .ingest .shell none (onePass validate) "" none "2026-09-13T10:00:00Z" []

theorem onePass_consistent (validate : Bool) : (onePass validate).Consistent where
  agrees := List.forall_mem_singleton.mpr
    { tested := List.cons_ne_nil _ _
      status := List.forall_mem_singleton.mpr (.inl rfl)
      passed := rfl
      failed := rfl
      skipped := rfl }
  neighbours := List.isChain_singleton _

theorem onePass_prints (validate : Bool) :
    ∀ st ∈ (onePass validate).stages, ∀ t ∈ st.tests, @Test.Prints emptyLists t :=
  List.forall_mem_singleton.mpr (List.forall_mem_singleton.mpr ⟨rfl, rfl⟩)

theorem validated_not_back : ∃ c, @step emptyLists fresh (ingestOnePass true) = some (c, .ok (some 1)) ∧
    (onePass true).Consistent ∧
    ¬ ∃ c', @runReport emptyLists 1 { c with faults := [] } = some (.ok (some (onePass true)), c') := by
  refine ⟨_, rfl, onePass_consistent true, ?_⟩
  rintro ⟨c', h⟩
  rw [@runReport_recorded emptyLists _ _ _ .shell none "" "2026-09-13T10:00:00Z" none rfl (onePass_consistent true)
    (onePass_prints true) ⟨rfl, rfl⟩] at h
  cases h

theorem run_back : ∃ c, @step emptyLists fresh (ingestOnePass false) = some (c, .ok (some 1)) ∧
    ∃ c', @runReport emptyLists 1 { c with faults := [] } = some (.ok (some (onePass false)), c') :=
  ⟨_, rfl, (@reads_back_iff emptyLists fresh fresh _ _ [] [] .shell none (onePass false) "" "2026-09-13T10:00:00Z" none
    [] 1 .nil rfl rfl .nil (List.forall_mem_nil _) (onePass_consistent false) (onePass_prints false)).mpr rfl⟩

end BuildYourOwn.Byo
