import Mathlib.Algebra.Group.Int.Defs
import BuildYourOwn.Lib.Contract
import BuildYourOwn.Topic.Command

/-!
# The progress database

Model of `byo/src/db.rs` (`ingest`, `set_state`, `set_note`, `stages`, `stage`, `runs`, `latest_run_id`, `run_report`,
`score`, `reset` and the statements they execute), of `byo/src/report.rs` and of the track registry.

* A connection has the tables, what becomes of its next statements (`faults`: an error, or the statement is executed;
  all are executed when the list is over) and a clock.
* A statement that fails changes nothing. A transaction that fails leaves the tables it began with; a panic unwinds
  past the transaction, so it is a failure like any other.
* An `i64` is an integer: what is added up is checked.
* `serde_json` is the `Host` of the topics; dates are read by `Calendar`.
-/

namespace BuildYourOwn.Byo

open Lib Lib.Action
open Topic (Host Value addI64)

/-! ## Tracks -/

/-- A handle into the registry. -/
inductive Track where
  | shell
  | kafka
  | wasm
  | tls
  | link
  | dist
deriving DecidableEq

namespace Track

def all : List Track := [shell, kafka, wasm, tls, link, dist]

def asStr : Track → String
  | shell => "shell"
  | kafka => "kafka"
  | wasm => "wasm"
  | tls => "tls"
  | link => "link"
  | dist => "dist"

def names : String := ", ".intercalate (all.map asStr)

def find (s : String) : Option Track := all.find? fun t => t.asStr = s

def parse (s : String) : Except String Track :=
  match find s with
  | some t => .ok t
  | none => .error s!"unknown track '{s}' (expected one of: {names})"

end Track

/-! ## Reports -/

structure Test where
  name : String
  status : String
  ext : Bool
  durationMs : Int
  failures : List String
  skipReason : Option String
  actual : List (String × String)
  failureKind : Option String
deriving DecidableEq

structure Stage where
  stage : UInt32
  name : String
  file : String
  passed : Int
  failed : Int
  skipped : Int
  tests : List Test
deriving DecidableEq

structure Report where
  target : String
  validate : Bool
  stages : List Stage
  passed : Int
  failed : Int
  skipped : Int
  elapsedMs : Int
deriving DecidableEq

/-- A list of lines, as `serde_json` writes it. -/
def ofLines (lines : List String) : Value := .arr (lines.map .str)

def ofLabels (labels : List (String × String)) : Value := .arr (labels.map fun l => .arr [.str l.1, .str l.2])

def toLabel : Value → Option (String × String)
  | .arr [.str a, .str b] => some (a, b)
  | _ => none

/-- `from_str(..).unwrap_or_default()` on a list of lines. -/
def readLines [Host] (text : String) : List String :=
  match Host.fromStr text with
  | .ok (.arr items) => (items.mapM Value.asStr).getD []
  | _ => []

def readLabels [Host] (text : String) : List (String × String) :=
  match Host.fromStr text with
  | .ok (.arr items) => (items.mapM toLabel).getD []
  | _ => []

/-! ## Tables -/

structure ProjectRow where
  id : Int
  track : String
  path : String
  command : String
  targetKind : String
  createdAt : String
deriving DecidableEq

structure RunRow where
  id : Int
  projectId : Option Int
  track : String
  target : String
  startedAt : String
  elapsedMs : Int
  passed : Int
  failed : Int
  skipped : Int
  args : String
  jsonPath : Option String
deriving DecidableEq

structure TestRow where
  runId : Int
  seq : Int
  stage : Int
  stageName : String
  stageFile : String
  testName : String
  status : String
  ext : Int
  durationMs : Int
  failuresJson : String
  actualJson : String
  skipReason : Option String
  failureKind : Option String
deriving DecidableEq

/-- A row of `stage_progress`. -/
structure ProgressRow where
  track : String
  stage : Int
  state : String
  doneAt : Option String
  lastRunId : Option Int
  note : Option String
  updatedAt : String
deriving DecidableEq

structure Db where
  metaRows : List (String × String)
  projects : List ProjectRow
  runs : List RunRow
  runTests : List TestRow
  progress : List ProgressRow
  /-- What `sqlite_sequence` has of `runs`. -/
  runSeq : Int
deriving DecidableEq

/-- A database nobody has used. -/
def Db.empty : Db := ⟨[("schema_version", "1")], [], [], [], [], 0⟩

structure Conn where
  db : Db
  faults : List (Option String)
  clock : Nat → String
  ticks : Nat

abbrev Sql := Action Conn String

/-! ## Statements -/

def statement {α : Type} (f : Db → Except String (α × Db)) : Sql α := fun c =>
  match c.faults with
  | some e :: faults => some (.error e, { c with faults })
  | faults =>
    match f c.db with
    | .ok (a, db) => some (.ok a, { c with db, faults := faults.tail })
    | .error e => some (.error e, { c with faults := faults.tail })

/-- A statement that only reads. -/
def query {α : Type} (f : Db → Except String α) : Sql α := statement fun db => (f db).map fun a => (a, db)

/-- A statement that writes. -/
def execute (f : Db → Db) : Sql Unit := statement fun db => .ok ((), f db)

/-- `.context(text)`, as `{e:#}` prints it. -/
def context {α : Type} (text : String) (x : Sql α) : Sql α := fun c =>
  (x c).map fun r => (r.1.mapError fun e => s!"{text}: {e}", r.2)

def now : Sql String := fun c => some (.ok (c.clock c.ticks), { c with ticks := c.ticks + 1 })

def transaction {α : Type} (start commit : Sql Unit) (body : Sql α) : Sql α := fun c =>
  let whole : Sql α := do
    start
    let a ← body
    commit
    pure a
  (whole c).map fun r =>
    match r.1 with
    | .ok a => (.ok a, r.2)
    | .error e => (.error e, { r.2 with db := c.db })

/-- `BEGIN` and `COMMIT`: what they may do is fail. -/
def mark : Sql Unit := execute id

/-- `INSERT .. ON CONFLICT(track, stage) DO UPDATE`. -/
def upsert (new : ProgressRow) (update : ProgressRow → ProgressRow) : List ProgressRow → List ProgressRow
  | [] => [new]
  | row :: rows =>
    if row.track = new.track ∧ row.stage = new.stage then update row :: rows else row :: upsert new update rows

/-- `CASE WHEN done THEN at ELSE NULL END`. -/
def doneTime (done : Bool) (time : String) : Option String := if done then some time else none

namespace Db

variable (db : Db)

/-- What `AUTOINCREMENT` gives the next run. -/
def nextRun : Int := db.runs.foldl (fun n r => max n r.id) db.runSeq + 1

/-- The statement of `ingest` that records a stage's progress. -/
def recordStage (track : Track) (stage : UInt32) (state startedAt : String) (runId : Int) : Db :=
  let done := state = "done"
  { db with
    progress := upsert ⟨track.asStr, stage.toNat, state, doneTime done startedAt, some runId, none, startedAt⟩
      (fun row => { row with
        state
        doneAt := if done then some (row.doneAt.getD startedAt) else none
        lastRunId := some runId
        updatedAt := startedAt })
      db.progress }

/-- The statement of `set_state`. -/
def setState (track : Track) (stage : UInt32) (done : Bool) (time : String) : Db :=
  let state := if done then "done" else "todo"
  { db with
    progress := upsert ⟨track.asStr, stage.toNat, state, doneTime done time, none, none, time⟩
      (fun row => { row with
        state
        doneAt := if done then some (row.doneAt.getD time) else none
        updatedAt := time })
      db.progress }

/-- The statement of `set_note`. -/
def setNote (track : Track) (stage : UInt32) (note : Option String) (time : String) : Db :=
  { db with
    progress := upsert ⟨track.asStr, stage.toNat, "todo", none, none, note, time⟩
      (fun row => { row with note, updatedAt := time }) db.progress }

/-- The statements of `reset`. -/
def reset : Db := { db with projects := [], runs := [], runTests := [], progress := [], runSeq := 0 }

end Db

/-! ## Ingesting -/

def insertRun (track : Track) (projectId : Option Int) (report : Report) (args : String) (jsonPath : Option String)
    (startedAt : String) : Sql Int := statement fun db =>
  let row : RunRow :=
    { id := db.nextRun, projectId, track := track.asStr, target := report.target, startedAt,
      elapsedMs := report.elapsedMs, passed := report.passed, failed := report.failed,
      skipped := report.skipped, args, jsonPath }
  if ∀ p ∈ projectId, p ∈ db.projects.map ProjectRow.id then
    .ok (row.id, { db with runs := db.runs ++ [row], runSeq := row.id })
  else .error "FOREIGN KEY constraint failed"

def testRow [Host] (runId seq : Int) (st : Stage) (t : Test) : TestRow :=
  { runId, seq, stage := st.stage.toNat, stageName := st.name, stageFile := st.file, testName := t.name,
    status := t.status, ext := if t.ext then 1 else 0, durationMs := t.durationMs,
    failuresJson := Host.display (ofLines t.failures), actualJson := Host.display (ofLabels t.actual),
    skipReason := t.skipReason, failureKind := t.failureKind }

def insertTest (row : TestRow) : Sql Unit := statement fun db =>
  if (row.runId, row.seq) ∈ db.runTests.map fun r => (r.runId, r.seq) then
    .error "UNIQUE constraint failed: run_tests.run_id, run_tests.seq"
  else .ok ((), { db with runTests := db.runTests ++ [row] })

def insertTests [Host] (runId : Int) (st : Stage) (seq : Int) : List Test → Sql Int
  | [] => pure seq
  | t :: tests => do
    context "cannot record a test result" (insertTest (testRow runId seq st t))
    insertTests runId st (seq + 1) tests

/-- The state a run leaves a stage in, when one of its tests ran. -/
def Stage.result (st : Stage) : String :=
  if st.failed = 0 then "done" else if 0 < st.passed then "in_progress" else "failed"

def Stage.outcome (st : Stage) : Sql (Option String) := do
  let ran ← demand (addI64 st.passed st.failed) "attempt to add with overflow"
  pure (if ran = 0 then none else some st.result)

def insertStages [Host] (track : Track) (runId : Int) (validate : Bool) (startedAt : String) (seq : Int) :
    List Stage → Sql Unit
  | [] => pure ()
  | st :: stages => do
    let seq ← insertTests runId st seq st.tests
    if validate then insertStages track runId validate startedAt seq stages
    else do
      match ← st.outcome with
      | none => pure ()
      | some state =>
        context "cannot update stage progress" (execute fun db => db.recordStage track st.stage state startedAt runId)
      insertStages track runId validate startedAt seq stages

def ingest [Host] (track : Track) (projectId : Option Int) (report : Report) (args : String) (jsonPath : Option String)
    (startedAt : String) : Sql Int :=
  transaction (context "cannot start the ingest transaction" mark)
      (context "cannot commit the ingest transaction" mark) do
    let runId ← context "cannot record the run" (insertRun track projectId report args jsonPath startedAt)
    insertStages track runId report.validate startedAt 0 report.stages
    pure runId

/-! ## Stages -/

structure StageRow where
  stage : UInt32
  state : String
  doneAt : Option String
  note : Option String
  lastRunId : Option Int
  updatedAt : String
deriving DecidableEq

/-- `r.get::<u32>`. -/
def getU32 (n : Int) : Except String UInt32 :=
  if 0 ≤ n ∧ n < 2 ^ 32 then .ok (UInt32.ofNat n.toNat) else .error s!"Integer {n} out of range at index 0"

def ProgressRow.read (row : ProgressRow) : Except String StageRow := do
  let stage ← getU32 row.stage
  pure ⟨stage, row.state, row.doneAt, row.note, row.lastRunId, row.updatedAt⟩

def stages (track : Track) : Sql (List StageRow) := query fun db =>
  ((db.progress.filter fun row => row.track = track.asStr).mergeSort fun a b => a.stage ≤ b.stage).mapM ProgressRow.read

def stage (track : Track) (n : UInt32) : Sql (Option StageRow) := do
  let rows ← stages track
  pure (rows.find? fun s => s.stage = n)

def stageOrDefault (track : Track) (n : UInt32) : Sql StageRow := do
  match ← stage track n with
  | some row => pure row
  | none => do
    let time ← now
    pure ⟨n, "todo", none, none, none, time⟩

def setState (track : Track) (n : UInt32) (done : Bool) : Sql StageRow := do
  let time ← now
  context "cannot update the stage" (execute fun db => db.setState track n done time)
  stageOrDefault track n

def setNote (track : Track) (n : UInt32) (note : Option String) : Sql StageRow := do
  let time ← now
  context "cannot write the note" (execute fun db => db.setNote track n note time)
  stageOrDefault track n

def reset : Sql Unit := transaction mark mark (context "cannot clear the database" (execute Db.reset))

/-! ## Runs -/

def newest (rows : List RunRow) : List RunRow := rows.mergeSort fun a b => b.id ≤ a.id

def runs (track : Option Track) (limit : Nat) : Sql (List RunRow) := query fun db =>
  .ok ((newest (match track with
    | some t => db.runs.filter fun r => r.track = t.asStr
    | none => db.runs)).take limit)

def latestRunId (track : Track) : Sql (Option Int) := query fun db =>
  .ok ((newest (db.runs.filter fun r => r.track = track.asStr)).head?.map RunRow.id)

/-- A row of `run_tests`: its stage, with the stage's name and file, and the test. -/
def TestRow.read [Host] (row : TestRow) : Except String (UInt32 × String × String × Test) := do
  let n ← getU32 row.stage
  pure (n, row.stageName, row.stageFile,
    { name := row.testName, status := row.status, ext := row.ext ≠ 0, durationMs := row.durationMs,
      failures := readLines row.failuresJson, skipReason := row.skipReason, actual := readLabels row.actualJson,
      failureKind := row.failureKind })

def Stage.push (st : Stage) (t : Test) : Stage :=
  let st := { st with tests := st.tests ++ [t] }
  if t.status = "pass" then { st with passed := st.passed + 1 }
  else if t.status = "fail" then { st with failed := st.failed + 1 }
  else { st with skipped := st.skipped + 1 }

/-- One row of the loop of `run_report`, on the stages so far. -/
def regroup (stages : List Stage) (row : UInt32 × String × String × Test) : List Stage :=
  let (n, name, file, t) := row
  match stages.getLast? with
  | some st =>
    if st.stage = n then stages.dropLast ++ [st.push t]
    else stages ++ [(⟨n, name, file, 0, 0, 0, []⟩ : Stage).push t]
  | none => [(⟨n, name, file, 0, 0, 0, []⟩ : Stage).push t]

def runReport [Host] (runId : Int) : Sql (Option Report) := do
  match ← query fun db => .ok (db.runs.find? fun r => r.id = runId) with
  | none => pure none
  | some run => do
    let rows ← query fun db =>
      ((db.runTests.filter fun r => r.runId = runId).mergeSort fun a b => a.seq ≤ b.seq).mapM TestRow.read
    pure (some
      { target := run.target, validate := false, stages := rows.foldl regroup [], passed := run.passed,
        failed := run.failed, skipped := run.skipped, elapsedMs := run.elapsedMs })

/-! ## The score -/

/-- `NaiveDate::parse_from_str(.., "%Y-%m-%d")`, as a number of days. -/
class Calendar where
  day : String → Option Int

structure Score where
  xp : Int
  level : Int
  streak : Int

def worth (s : StageRow) : Int :=
  if s.state = "done" then 100 else if s.state = "in_progress" ∨ s.state = "failed" then 20 else 0

/-- The loop of `streak_from_days`. -/
def streakFrom (prev : Int) : List Int → Int
  | [] => 0
  | d :: days => if prev - d = 1 then streakFrom d days + 1 else 0

def streakFromDays [Calendar] (daysDesc : List String) (today : String) : Int :=
  match Calendar.day today with
  | none => 0
  | some today =>
    match ((daysDesc.filterMap Calendar.day).mergeSort fun a b => b ≤ a).dedup with
    | [] => 0
    | first :: days => if 0 ≤ today - first ∧ today - first ≤ 1 then streakFrom first days + 1 else 0

/-- The loop of `score` over the tracks. -/
def xp : List Track → Sql Int
  | [] => pure 0
  | t :: tracks => do
    let rows ← stages t
    let rest ← xp tracks
    pure ((rows.map worth).sum + rest)

/-- `SELECT DISTINCT substr(done_at, 1, 10) .. ORDER BY 1 DESC`. -/
def doneDays : Sql (List String) := query fun db =>
  .ok (((db.progress.filterMap ProgressRow.doneAt).map fun d => String.ofList (d.toList.take 10)).dedup.mergeSort
    fun a b => b ≤ a)

/-- The first ten characters of the time are the day. -/
def today : Sql String := do
  let time ← now
  pure (String.ofList (time.toList.take 10))

def score [Calendar] : Sql Score := do
  let xp ← xp Track.all
  let days ← doneDays
  let today ← today
  pure ⟨xp, xp / 500 + 1, streakFromDays days today⟩

def schemaVersion : Sql Int := query fun db =>
  .ok (((db.metaRows.lookup "schema_version").bind Topic.parseI64).getD 0)

def latestProject (track : Track) : Sql (Option ProjectRow) := query fun db =>
  .ok ((db.projects.filter fun p => p.track = track.asStr).mergeSort fun a b => b.id ≤ a.id).head?

/-! ## What statements do -/

section
variable {α : Type} {f : Db → Except String (α × Db)} {g : Db → Db} {x : Sql α} {c c' : Conn} {a : α} {e text : String}

theorem statement_ok (h : statement f c = some (.ok a, c')) :
    ∃ db, f c.db = .ok (a, db) ∧ c' = { c with db, faults := c.faults.tail } := by
  unfold statement at h
  split at h
  · cases h
  · split at h
    · next db hf =>
      cases h
      exact ⟨db, hf, rfl⟩
    · cases h

theorem statement_error (h : statement f c = some (.error e, c')) : c'.db = c.db := by
  unfold statement at h
  split at h
  · cases h
    rfl
  · split at h
    · cases h
    · cases h
      rfl

theorem execute_ok {u : Unit} (h : execute g c = some (.ok u, c')) :
    c' = { c with db := g c.db, faults := c.faults.tail } := by
  obtain ⟨db, hdb, hc⟩ := statement_ok h
  cases hdb
  exact hc

theorem execute_sound (hfaults : c.faults = []) : execute g c = some (.ok (), { c with db := g c.db }) := by
  unfold execute statement
  rw [hfaults]
  rfl

theorem keeps_query {f : Db → Except String α} : Keeps Conn.db (query f) := by
  intro c r c' h
  cases r with
  | ok a =>
    obtain ⟨db, hdb, rfl⟩ := statement_ok h
    obtain ⟨b, -, hb⟩ := except_bind_ok.mp (show (f c.db >>= fun a => .ok (a, c.db)) = .ok (a, db) from hdb)
    cases hb
    rfl
  | error e => exact statement_error h

theorem keeps_now : Keeps Conn.db now := by
  rintro c r c' ⟨⟩
  rfl

theorem context_ok : context text x c = some (.ok a, c') ↔ x c = some (.ok a, c') := by
  unfold context
  constructor
  · intro h
    obtain ⟨⟨r, d⟩, hx, hr⟩ := Option.map_eq_some_iff.mp h
    cases r with
    | ok b =>
      cases hr
      exact hx
    | error e => cases hr
  · intro h
    rw [h]
    rfl

theorem keeps_context {γ : Type} {p : Conn → γ} (hx : Keeps p x) : Keeps p (context text x) := by
  intro c r c' h
  obtain ⟨⟨r', d⟩, hd, hr⟩ := Option.map_eq_some_iff.mp h
  cases hr
  exact hx _ _ _ hd

variable {start commit : Sql Unit}

theorem transaction_error (h : transaction start commit x c = some (.error e, c')) : c'.db = c.db := by
  obtain ⟨⟨r, d⟩, -, hr⟩ := Option.map_eq_some_iff.mp h
  cases r with
  | ok b => cases hr
  | error e =>
    cases hr
    rfl

theorem transaction_ok (h : transaction start commit x c = some (.ok a, c')) :
    ∃ c₁ c₂, start c = some (.ok (), c₁) ∧ x c₁ = some (.ok a, c₂) ∧ commit c₂ = some (.ok (), c') := by
  obtain ⟨⟨r, d⟩, hwhole, hr⟩ := Option.map_eq_some_iff.mp h
  cases r with
  | error e => cases hr
  | ok b =>
    cases hr
    obtain ⟨_, c₁, hstart, hwhole⟩ := bind_ok.mp hwhole
    obtain ⟨b, c₂, hx, hwhole⟩ := bind_ok.mp hwhole
    obtain ⟨_, c₃, hcommit, hpure⟩ := bind_ok.mp hwhole
    obtain ⟨rfl, rfl⟩ := pure_ok.mp hpure
    exact ⟨c₁, c₂, hstart, hx, hcommit⟩

theorem mark_ok {u : Unit} (h : mark c = some (.ok u, c')) : c'.db = c.db := by
  rw [execute_ok h]
  rfl

end

/-! ## What is only read -/

theorem keeps_stage (track : Track) (n : UInt32) : Keeps Conn.db (stage track n) :=
  keeps_bind keeps_query fun _ => keeps_pure

theorem keeps_stageOrDefault (track : Track) (n : UInt32) : Keeps Conn.db (stageOrDefault track n) := by
  refine keeps_bind (keeps_stage track n) fun row => ?_
  cases row with
  | some row => exact keeps_pure
  | none => exact keeps_bind keeps_now fun _ => keeps_pure

end BuildYourOwn.Byo
