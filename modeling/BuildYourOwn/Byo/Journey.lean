import Mathlib.Logic.Function.Basic
import BuildYourOwn.Byo.Database

/-!
# The site's copy of the progress

Model of `site/src/lib/stores/journey.svelte.ts` (`JourneyStore`: `refresh`, `setStage`), of what it takes from
`site/src/lib/api/client.ts` and of `setNotes` of `site/src/lib/stores/progress.svelte.ts`.

* What the requests of a refresh are answered is a parameter, `Network`: when each request is made, whether it fails,
  and what the server would say at that time. The answers are those `ByoApi` makes of them: `latest` is null for a
  404, `health` and `tracks` are null where they fail.
* A call of `refresh` while another is in flight returns at once, so refreshes come one after another.
* A record over tracks or stages is a function.
-/

namespace BuildYourOwn.Byo

open Lib Lib.Action

/-! ## What the API sends -/

structure ApiStageRow where
  state : String
  doneAt : Option String
  note : Option String
  lastRunId : Option Int
  updatedAt : Option String
deriving DecidableEq

structure ApiProgress where
  latestRunId : Track → Option Int
  stages : Track → UInt32 → Option ApiStageRow
  streak : Int
  xp : Int
  level : Int

structure ApiRunSummary where
  id : Int
  track : Track
  target : String
  startedAt : String
  elapsedMs : Int
  passed : Int
  failed : Int
  skipped : Int
  args : String

structure ApiHealth where
  project : Track → Option ProjectRow

structure ApiTrack where
  id : Track
  title : String
  blurb : String
  accent : String
  installed : Bool
  testerVersion : Option String

/-- An unknown state degrades to `todo`, an empty note to none. -/
def normalizeStageRow (row : StageRow) : ApiStageRow :=
  { state := if row.state ∈ ["todo", "in_progress", "failed", "done"] then row.state else "todo"
    doneAt := row.doneAt
    note := row.note.filter fun text => text ≠ ""
    lastRunId := row.lastRunId
    updatedAt := some row.updatedAt }

/-! ## The store -/

inductive ConnectionStatus where
  | probing
  | connected
  | reconnecting
  | offline
deriving DecidableEq

structure JourneyStore where
  status : ConnectionStatus
  health : Option ApiHealth
  data : ApiProgress
  runs : List ApiRunSummary
  latest : Track → Option Report
  serverTracks : Option (List ApiTrack)
  lastSyncAt : Option String
  revision : Nat
  latestIds : Track → Option Int
  runsSignature : String

def emptyProgress : ApiProgress := ⟨fun _ => none, fun _ _ => none, 0, 0, 1⟩

def JourneyStore.new : JourneyStore :=
  ⟨.probing, none, emptyProgress, [], fun _ => none, none, none, 0, fun _ => none, ""⟩

/-! ## Polling -/

/-- A request of a refresh. -/
inductive Fetch where
  | health
  | tracks
  | progress
  | latest (track : Track)
  | runs
deriving DecidableEq

/-- What the server would say. -/
structure World where
  health : Option ApiHealth
  tracks : Option (List ApiTrack)
  progress : ApiProgress
  latest : Track → Option Report
  /-- Newest first. -/
  runs : List ApiRunSummary

/-- The server over time, when the requests are made, and which of them fail. -/
structure Network where
  world : Nat → World
  time : Nat → Nat
  down : Nat → Bool
  iso : Nat → String

/-- A request that was made. -/
structure Exchange where
  fetch : Fetch
  time : Nat
  ok : Bool
deriving DecidableEq

structure Session where
  store : JourneyStore
  asked : Nat
  log : List Exchange

abbrev Poll := Action Session Unit

def Session.new : Session := ⟨.new, 0, []⟩

def update (f : JourneyStore → JourneyStore) : Poll Unit := modify fun s => { s with store := f s.store }

/-- `runs.map(..).join(',')`. -/
def signature (runs : List ApiRunSummary) : String :=
  ",".intercalate (runs.map fun r => s!"{r.id}:{r.passed}/{r.failed}")

section
variable (net : Network)

/-- The next request. -/
def ask {α : Type} (fetch : Fetch) (answer : World → α) : Poll α := fun s =>
  let time := net.time s.asked
  if net.down s.asked then some (.error (), { s with asked := s.asked + 1, log := ⟨fetch, time, false⟩ :: s.log })
  else some (.ok (answer (net.world time)), { s with asked := s.asked + 1, log := ⟨fetch, time, true⟩ :: s.log })

/-- `health()` and `tracks()` never throw. -/
def askOrNull {α : Type} (fetch : Fetch) (answer : World → Option α) : Poll (Option α) := do
  match ← attempt (ask net fetch answer) with
  | .ok a => pure a
  | .error _ => pure none

/-- Could anything about the health still change? -/
def JourneyStore.stale (store : JourneyStore) : Bool :=
  match store.health with
  | none => true
  | some health =>
    store.status != .connected || (health.project .shell).isNone || (health.project .kafka).isNone

def JourneyStore.lost (store : JourneyStore) : ConnectionStatus :=
  if store.health.isSome then .reconnecting else .offline

def probe : Poll Bool := do
  let s ← get
  if s.store.stale then do
    match ← askOrNull net .health World.health with
    | none => do
      update fun store => { store with status := store.lost }
      pure false
    | some health => do
      update fun store => { store with health := some health }
      let tracks ← askOrNull net .tracks World.tracks
      update fun store => { store with serverTracks := tracks }
      pure true
  else pure true

def fetchLatest (track : Track) : Option Int → Poll (Option Report)
  | none => pure none
  | some _ => ask net (.latest track) fun w => w.latest track

/-- The loop over the tracks: whether a latest run is another one. -/
def catchUp (progress : ApiProgress) : List Track → Poll Bool
  | [] => pure false
  | track :: tracks => do
    let s ← get
    let id := progress.latestRunId track
    if id = s.store.latestIds track then catchUp progress tracks
    else do
      update fun store => { store with latestIds := Function.update store.latestIds track id }
      let report ← fetchLatest net track id
      update fun store => { store with latest := Function.update store.latest track report }
      let _ ← catchUp progress tracks
      pure true

def refreshRuns : Poll Bool := do
  let runs ← ask net .runs fun w => w.runs.take 25
  let s ← get
  if signature runs = s.store.runsSignature then pure false
  else do
    update fun store => { store with runsSignature := signature runs, runs }
    pure true

/-- The body of `refresh`, which may throw. -/
def poll : Poll Unit := do
  if ← probe net then
    let progress ← ask net .progress World.progress
    let s ← get
    update fun store => { store with data := progress, status := .connected, lastSyncAt := some (net.iso s.asked) }
    let moved ← catchUp net progress Track.all
    let s ← get
    let listed ← if moved ∨ s.store.runs.isEmpty then refreshRuns net else pure false
    if moved ∨ listed then update fun store => { store with revision := store.revision + 1 }
  else pure ()

def refresh (s : Session) : Session :=
  match poll net s with
  | some (.ok (), s) => s
  | some (.error (), s) => { s with store := { s.store with status := s.store.lost } }
  | none => s

def refreshed : Nat → Session
  | 0 => Session.new
  | n + 1 => refresh net (refreshed n)

end

/-! ## Writing a stage -/

/-- The body of `setStage`: done or not, a note. -/
structure StageBody where
  state : Option Bool
  note : Option String

def optimistic (before : Option ApiStageRow) (body : StageBody) (now : String) : ApiStageRow :=
  { state := match body.state with
      | some done => if done then "done" else "todo"
      | none => (before.map ApiStageRow.state).getD "todo"
    doneAt := match body.state with
      | some done => doneTime done now
      | none => before.bind ApiStageRow.doneAt
    note := match body.note with
      | none => before.bind ApiStageRow.note
      | some text => if text = "" then none else some text
    lastRunId := before.bind ApiStageRow.lastRunId
    updatedAt := some now }

/-- The row that `setNotes` shows while the note is typed. -/
def typed (row : Option ApiStageRow) (notes now : String) : ApiStageRow :=
  { state := (row.map ApiStageRow.state).getD "todo"
    doneAt := row.bind ApiStageRow.doneAt
    note := if notes = "" then none else some notes
    lastRunId := row.bind ApiStageRow.lastRunId
    updatedAt := some now }

namespace JourneyStore

variable (store : JourneyStore) (track : Track) (n : UInt32)

def stageRow : Option ApiStageRow := store.data.stages track n

def display (row : Option ApiStageRow) : JourneyStore :=
  { store with
    data := { store.data with
      stages := Function.update store.data.stages track (Function.update (store.data.stages track) n row) } }

/-- Is the database answering, or was it very recently? -/
def connected : Bool := store.status == .connected || store.status == .reconnecting

/-- `setStage` up to its request. -/
def startStage (body : StageBody) (now : String) : JourneyStore :=
  store.display track n (some (optimistic (store.stageRow track n) body now))

/-- `setStage` from the answer on. -/
def endStage (row : ApiStageRow) : JourneyStore := { store.display track n (some row) with status := .connected }

/-- `setStage` from the failure on: what it found is put back. -/
def undoStage (before : Option ApiStageRow) : JourneyStore := { store.display track n before with status := store.lost }

/-- `setNotes`, while connected, but for the timer. -/
def typeNotes (notes now : String) : JourneyStore :=
  store.display track n (some (typed (store.stageRow track n) notes now))

variable {store track n}

@[simp] theorem stageRow_display {row : Option ApiStageRow} : (store.display track n row).stageRow track n = row := by
  unfold stageRow display
  simp

@[simp] theorem stageRow_endStage {row : ApiStageRow} : (store.endStage track n row).stageRow track n = some row :=
  stageRow_display

@[simp] theorem stageRow_undoStage {before : Option ApiStageRow} :
    (store.undoStage track n before).stageRow track n = before :=
  stageRow_display

end JourneyStore

end BuildYourOwn.Byo
