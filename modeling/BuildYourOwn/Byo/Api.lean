import BuildYourOwn.Byo.Database
import BuildYourOwn.Link.Archive

/-!
# The JSON API

Model of `byo/src/api.rs`: `handle`, `dispatch` and the endpoints, over the database.

* A response has a status and a body; `serde_json` prints the body (`Host`).
* What the handlers read outside the database is `Ctx`: the version, paths, which testers are installed and the
  catalogs.
* The rows are printed as `serde` prints them.
-/

namespace BuildYourOwn.Byo

open Lib Lib.Action
open Topic (Host Value parseI64 parseDigits)

/-! ## The registry -/

structure TrackDef where
  title : String
  blurb : String
  tester : String
  targetFlag : String
  targetKey : String
  accent : String

def Track.def : Track → TrackDef
  | .shell =>
    { title := "Build your own shell"
      blurb := "A POSIX shell: parsing, quoting, expansion, pipelines, redirection, job control."
      tester := "shelltest", targetFlag := "--shell", targetKey := "shell", accent := "#a78bfa" }
  | .kafka =>
    { title := "Build your own Kafka broker"
      blurb := "A Kafka broker: the binary wire protocol, the on-disk log, consumer groups."
      tester := "kafkatest", targetFlag := "--broker", targetKey := "broker", accent := "#f9a8d4" }
  | .wasm =>
    { title := "Build your own WebAssembly runtime"
      blurb := "A WebAssembly runtime: binary decoding, validation, execution, WASI preview1."
      tester := "wasmtest", targetFlag := "--runtime", targetKey := "runtime", accent := "#86efac" }
  | .tls =>
    { title := "Build your own TLS 1.3 server"
      blurb := "A TLS 1.3 server: the record layer, the key schedule, certificates, AEAD."
      tester := "tlstest", targetFlag := "--server", targetKey := "server", accent := "#7dd3fc" }
  | .link =>
    { title := "Build your own ELF linker"
      blurb := "A static ELF64 linker for x86-64: sections, symbols, relocations, a binary that runs."
      tester := "linktest", targetFlag := "--linker", targetKey := "linker", accent := "#fcd34d" }
  | .dist =>
    { title := "Build your own distributed system"
      blurb := "A replicated, linearizable key-value store: clocks, quorums, consensus, CRDTs."
      tester := "disttest", targetFlag := "--target", targetKey := "target", accent := "#fdba74" }

/-! ## Requests and responses -/

structure Ctx where
  version : String
  db : String
  dataDir : String
  /-- `tester_version`: none where the tester is not installed. -/
  testerVersion : Track → Option String
  testerInstalled : Track → Bool
  catalogPath : Track → String
  catalogIsFile : Track → Bool
  readCatalog : Track → Option String

structure Request where
  method : String
  path : String
  query : List (String × String)
  body : String

structure Response where
  status : Nat
  body : String
deriving DecidableEq

namespace Response

def json [Host] (value : Value) : Response := ⟨200, Host.display value⟩

def error [Host] (status : Nat) (message : String) : Response := ⟨status, Host.display (.obj [("error", .str message)])⟩

def rawJson (body : String) : Response := ⟨200, body⟩

end Response

/-! ## Rows as values -/

def ofText : Option String → Value := Value.ofOption .str

def ProjectRow.toValue (p : ProjectRow) : Value :=
  .obj [("id", .num p.id), ("track", .str p.track), ("path", .str p.path), ("command", .str p.command),
    ("targetKind", .str p.targetKind), ("createdAt", .str p.createdAt)]

def RunRow.toValue (r : RunRow) : Value :=
  .obj [("id", .num r.id), ("track", .str r.track), ("target", .str r.target), ("startedAt", .str r.startedAt),
    ("elapsedMs", .num r.elapsedMs), ("passed", .num r.passed), ("failed", .num r.failed), ("skipped", .num r.skipped),
    ("args", .str r.args)]

def StageRow.toValue (s : StageRow) : Value :=
  .obj [("stage", .num s.stage.toNat), ("state", .str s.state), ("doneAt", ofText s.doneAt), ("note", ofText s.note),
    ("lastRunId", Value.ofOption .num s.lastRunId), ("updatedAt", .str s.updatedAt)]

/-- A field that is left out when there is nothing. -/
def ifSome (key : String) : Option String → List (String × Value)
  | some s => [(key, .str s)]
  | none => []

def Test.toValue (t : Test) : Value :=
  .obj ([("name", .str t.name), ("status", .str t.status), ("ext", .bool t.ext), ("duration_ms", .num t.durationMs),
    ("failures", ofLines t.failures)] ++ ifSome "skip_reason" t.skipReason ++ [("actual", ofLabels t.actual)] ++
    ifSome "failure_kind" t.failureKind)

def Stage.toValue (st : Stage) : Value :=
  .obj [("stage", .num st.stage.toNat), ("name", .str st.name), ("file", .str st.file), ("passed", .num st.passed),
    ("failed", .num st.failed), ("skipped", .num st.skipped), ("tests", .arr (st.tests.map Test.toValue))]

def Report.toValue (r : Report) : Value :=
  .obj [("target", .str r.target), ("validate", .bool r.validate), ("stages", .arr (r.stages.map Stage.toValue)),
    ("passed", .num r.passed), ("failed", .num r.failed), ("skipped", .num r.skipped), ("elapsed_ms", .num r.elapsedMs)]

def withId (rep : Report) (id : Int) : Value := rep.toValue.insert "id" (.num id)

/-! ## Endpoints that read -/

section
variable [Host] [Calendar] (ctx : Ctx) (req : Request)

/-- The loop of `health`. -/
def healthTracks : List Track → Sql (List (String × Value))
  | [] => pure []
  | t :: ts => do
    let project ← latestProject t
    let rest ← healthTracks ts
    pure ((t.asStr, .obj [("project", Value.ofOption ProjectRow.toValue project),
      ("installed", .bool (ctx.testerInstalled t)), ("catalog", .bool (ctx.catalogIsFile t))]) :: rest)

def health : Sql Response := do
  let tracks ← healthTracks ctx Track.all
  let version ← schemaVersion
  pure (Response.json (.obj [("ok", .bool true), ("version", .str ctx.version), ("db", .str ctx.db),
    ("schemaVersion", .num version), ("dataDir", .str ctx.dataDir), ("tracks", .obj tracks)]))

def tracks : Response :=
  Response.json (.arr (Track.all.map fun t =>
    let d := t.def
    let version := ctx.testerVersion t
    .obj [("id", .str t.asStr), ("title", .str d.title), ("blurb", .str d.blurb), ("accent", .str d.accent),
      ("tester", .str d.tester), ("targetFlag", .str d.targetFlag), ("targetKey", .str d.targetKey),
      ("installed", .bool version.isSome), ("testerVersion", ofText version),
      ("catalog", .bool (ctx.catalogIsFile t))]))

/-- The loop of `progress`. -/
def progressTracks : List Track → Sql (List (String × Value))
  | [] => pure []
  | t :: ts => do
    let rows ← stages t
    let latest ← latestRunId t
    let rest ← progressTracks ts
    let fields := rows.map fun s => (toString s.stage.toNat, .obj [("state", .str s.state), ("doneAt", ofText s.doneAt),
      ("note", ofText s.note), ("lastRunId", Value.ofOption .num s.lastRunId), ("updatedAt", .str s.updatedAt)])
    pure ((t.asStr, .obj [("stages", .obj fields), ("latestRunId", Value.ofOption .num latest)]) :: rest)

def progress : Sql Response := do
  let out ← progressTracks Track.all
  let score ← score
  pure (Response.json
    (.obj (out ++ [("streak", .num score.streak), ("xp", .num score.xp), ("level", .num score.level)])))

def trackParam : Except Response (Option Track) :=
  match req.query.lookup "track" with
  | none => .ok none
  | some t =>
    if t = "" then .ok none
    else match Track.parse t with
      | .ok t => .ok (some t)
      | .error e => .error (Response.error 400 e)

def limitParam : Option Nat :=
  match req.query.lookup "limit" with
  | none => some 20
  | some l =>
    match parseI64 l with
    | some n => if 1 ≤ n ∧ n ≤ 1000 then some n.toNat else none
    | none => none

def listRuns : Sql Response :=
  match trackParam req with
  | .error r => pure r
  | .ok track =>
    match limitParam req with
    | none => pure (Response.error 400 "limit must be an integer between 1 and 1000")
    | some limit => do
      let rows ← runs track limit
      pure (Response.json (.arr (rows.map RunRow.toValue)))

/-- The id of the run that `latest_run` shows. -/
def latestId : Option Track → Sql (Option Int)
  | some t => latestRunId t
  | none => do
    let rows ← runs none 1
    pure (rows.head?.map RunRow.id)

def latestRun : Sql Response :=
  match trackParam req with
  | .error r => pure r
  | .ok track => do
    match ← latestId track with
    | none => pure (Response.error 404 "no runs recorded yet — run `byo test` first")
    | some id =>
      match ← runReport id with
      | some rep => pure (Response.json (withId rep id))
      | none => pure (Response.error 404 s!"run {id} has no recorded tests")

def oneRun (id : String) : Sql Response :=
  match parseI64 id with
  | none => pure (Response.error 400 s!"run id must be a number, got '{id}'")
  | some id => do
    match ← runReport id with
    | some rep => pure (Response.json (withId rep id))
    | none => pure (Response.error 404 s!"no run with id {id}")

def catalog (track : String) : Response :=
  match Track.parse track with
  | .error e => Response.error 404 e
  | .ok track =>
    match ctx.readCatalog track with
    | some text => Response.rawJson text
    | none => Response.error 404 (s!"no catalog for the {track.asStr} track at {ctx.catalogPath track} — " ++
        "reinstall with ./install.sh to copy it")

end

/-! ## The endpoint that writes -/

/-- `str::parse::<u32>`. -/
def parseU32 (w : String) : Option UInt32 :=
  let n := match w.toList with
    | '+' :: ds => parseDigits ds
    | ds => parseDigits ds
  (n.filter (· < 2 ^ 32)).map UInt32.ofNat

inductive Asked (α : Type) where
  | nothing
  | change (value : α)
  | wrong

def askedState : Option Value → Asked Bool
  | none => .nothing
  | some state =>
    match state.asStr with
    | some "done" => .change true
    | some "todo" => .change false
    | _ => .wrong

def askedNote : Option Value → Asked (Option String)
  | none => .nothing
  | some (.str s) => .change (if s = "" then none else some s)
  | some .null => .change none
  | some _ => .wrong

section
variable [Host] (req : Request) (track : Track) (n : UInt32)

/-- The stage and the fields a request is about, or how it is refused. -/
def stageTarget (trackId stage : String) : Except Response (Track × UInt32 × List (String × Value)) := do
  let track ← (Track.parse trackId).mapError (Response.error 404)
  match parseU32 stage with
  | none => .error (Response.error 400 s!"stage must be a number, got '{stage}'")
  | some n => do
    let body ←
      if Link.Archive.trim req.body = "" then .ok (.obj [])
      else (Host.fromStr req.body).mapError fun e => Response.error 400 s!"invalid JSON body: {e}"
    match body with
    | .obj fields => .ok (track, n, fields)
    | _ => .error (Response.error 400 "body must be a JSON object")

/-- The first field: what it is refused with, if it is. -/
def postState : Asked Bool → Sql (Option Response)
  | .nothing => pure none
  | .change done => do
    let _ ← setState track n done
    pure none
  | .wrong => pure (some (Response.error 400 "state must be \"done\" or \"todo\""))

/-- The second. -/
def postNote : Asked (Option String) → Sql (Option Response)
  | .nothing => pure none
  | .change note => do
    let _ ← setNote track n note
    pure none
  | .wrong => pure (some (Response.error 400 "note must be a string or null"))

def postedRow : Sql Response := do
  let row ← match ← stage track n with
    | some row => pure row.toValue
    | none => do
      let time ← now
      pure (.obj [("stage", .num n.toNat), ("state", .str "todo"), ("doneAt", .null), ("note", .null),
        ("lastRunId", .null), ("updatedAt", .str time)])
  pure (Response.json (row.insert "track" (.str track.asStr)))

/-- From the second field on. -/
def postRest (note : Asked (Option String)) : Sql Response := do
  match ← postNote track n note with
  | some refused => pure refused
  | none => postedRow track n

def postFields (fields : List (String × Value)) : Sql Response := do
  match ← postState track n (askedState (fields.lookup "state")) with
  | some refused => pure refused
  | none => postRest track n (askedNote (fields.lookup "note"))

def postStage (trackId stage : String) : Sql Response :=
  match stageTarget req trackId stage with
  | .error refused => pure refused
  | .ok (track, n, fields) => postFields track n fields

end

/-! ## Routing -/

def segments (path : String) : Option (List String) :=
  let prefixed := "/api/".toList
  if prefixed.isPrefixOf path.toList then
    let rest := path.toList.drop prefixed.length
    let rest := if rest.getLast? = some '/' then rest.dropLast else rest
    some ((rest.splitOn '/').map String.ofList)
  else none

section
variable [Host] [Calendar] (ctx : Ctx) (req : Request)

/-- What is answered where there is an endpoint but not for this method, and where there is none. -/
def elsewhere (seg : List String) : Response :=
  if seg.head? ∈ ["health", "tracks", "progress", "runs", "stages", "catalog"].map some then
    Response.error 405 s!"{req.method} is not allowed on {req.path}"
  else Response.error 404 s!"no such endpoint: {req.path}"

def dispatch (seg : List String) : Sql Response :=
  match req.method, seg with
  | "GET", ["health"] => health ctx
  | "GET", ["tracks"] => pure (tracks ctx)
  | "GET", ["progress"] => progress
  | "GET", ["runs"] => listRuns req
  | "GET", ["runs", "latest"] => latestRun req
  | "GET", ["runs", id] => oneRun id
  | "POST", ["stages", track, n] => postStage req track n
  | "GET", ["catalog", track] => pure (catalog ctx track)
  | _, _ => pure (elsewhere req seg)

/-- Route and run one request; nothing where the path is none of the API's. -/
def handle : Sql (Option Response) :=
  match segments req.path with
  | none => pure none
  | some seg => do
    match ← attempt (dispatch ctx req seg) with
    | .ok r => pure (some r)
    | .error e => pure (some (Response.error 500 e))

end

/-! ## What is only read -/

theorem keeps_healthTracks (ctx : Ctx) (ts : List Track) : Keeps Conn.db (healthTracks ctx ts) := by
  induction ts with
  | nil => exact keeps_pure
  | cons t ts ih => exact keeps_bind keeps_query fun _ => keeps_bind ih fun _ => keeps_pure

theorem keeps_progressTracks (ts : List Track) : Keeps Conn.db (progressTracks ts) := by
  induction ts with
  | nil => exact keeps_pure
  | cons t ts ih =>
    exact keeps_bind keeps_query fun _ => keeps_bind keeps_query fun _ => keeps_bind ih fun _ => keeps_pure

theorem keeps_xp (ts : List Track) : Keeps Conn.db (xp ts) := by
  induction ts with
  | nil => exact keeps_pure
  | cons t ts ih => exact keeps_bind keeps_query fun _ => keeps_bind ih fun _ => keeps_pure

theorem keeps_latestId (track : Option Track) : Keeps Conn.db (latestId track) := by
  cases track with
  | some t =>
    show Keeps Conn.db (latestRunId t)
    exact keeps_query
  | none => exact keeps_bind keeps_query fun _ => keeps_pure

theorem keeps_score [Calendar] : Keeps Conn.db score :=
  keeps_bind (keeps_xp _) fun _ => keeps_bind keeps_query fun _ =>
    keeps_bind (keeps_bind keeps_now fun _ => keeps_pure) fun _ => keeps_pure

section
variable [Host] {req : Request}

theorem keeps_listRuns : Keeps Conn.db (listRuns req) := by
  unfold listRuns
  split
  · exact keeps_pure
  · split
    · exact keeps_pure
    · exact keeps_bind keeps_query fun _ => keeps_pure

theorem keeps_runReport (id : Int) : Keeps Conn.db (runReport id) := by
  refine keeps_bind keeps_query fun run => ?_
  cases run with
  | none => exact keeps_pure
  | some run => exact keeps_bind keeps_query fun _ => keeps_pure

theorem keeps_latestRun : Keeps Conn.db (latestRun req) := by
  unfold latestRun
  split
  · exact keeps_pure
  · refine keeps_bind (keeps_latestId _) fun id => ?_
    cases id with
    | none => exact keeps_pure
    | some id =>
      refine keeps_bind (keeps_runReport id) fun rep => ?_
      cases rep <;> exact keeps_pure

theorem keeps_oneRun (id : String) : Keeps Conn.db (oneRun id) := by
  unfold oneRun
  split
  · exact keeps_pure
  · refine keeps_bind (keeps_runReport _) fun rep => ?_
    cases rep <;> exact keeps_pure

theorem keeps_health {ctx : Ctx} : Keeps Conn.db (health ctx) :=
  keeps_bind (keeps_healthTracks _ _) fun _ => keeps_bind keeps_query fun _ => keeps_pure

variable [Calendar] {ctx : Ctx}

theorem keeps_progress : Keeps Conn.db progress :=
  keeps_bind (keeps_progressTracks _) fun _ => keeps_bind keeps_score fun _ => keeps_pure

/-- **All but one endpoint read only.** -/
theorem dispatch_reads (seg : List String) :
    (∃ track n, req.method = "POST" ∧ seg = ["stages", track, n]) ∨ Keeps Conn.db (dispatch ctx req seg) := by
  unfold dispatch
  split
  · exact .inr keeps_health
  · exact .inr keeps_pure
  · exact .inr keeps_progress
  · exact .inr keeps_listRuns
  · exact .inr keeps_latestRun
  · exact .inr (keeps_oneRun _)
  · next hmethod => exact .inl ⟨_, _, hmethod, rfl⟩
  · exact .inr keeps_pure
  · exact .inr keeps_pure

end

end BuildYourOwn.Byo
