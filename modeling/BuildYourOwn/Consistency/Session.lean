import BuildYourOwn.Topic.Command
import BuildYourOwn.Topic.Map

/-!
# `session`: session guarantees over lagging replicas

Model of `Replica`, `SessionState` and `Session` in `disttest/examples/alg/consistency.rs`. A write is
appended to the log and applied at one replica; `replicate` brings one replica up to the log; a read
is served when the replica's version is not below the session's `floor`.

Versions count the log, far inside `i64`, and are plain integers here.
-/

namespace BuildYourOwn.Consistency

open Topic

/-- `Replica`: the version applied per key, and the highest version the replica has seen. -/
structure Replica where
  applied : StringMap Int
  version : Int

/-- `SessionState`: the highest versions a session has written and read. -/
structure SessionState where
  writes : Int
  reads : Int

/-- One entry of the log. -/
structure Logged where
  key : String
  value : Int
  version : Int

structure Session where
  replicas : List Replica
  sessions : StringMap SessionState
  log : List Logged
  guarantees : Bool

namespace Session

def sessionOf (s : Session) (client : String) : SessionState := s.sessions.getD client ⟨0, 0⟩

/-- `floor`: the version a session must not read below. -/
def floor (s : Session) (client : String) : Int :=
  max (s.sessionOf client).writes (s.sessionOf client).reads

def state (s : Session) : Value :=
  .obj [("ok", .bool true),
    ("replicas", .arr (s.replicas.map fun r => .obj [("version", .num r.version)])),
    ("log", .num s.log.length), ("guarantees", .bool s.guarantees)]

/-- The state `init` leaves. -/
def init (n : Nat) : Session := ⟨List.replicate n ⟨∅, 0⟩, ∅, [], true⟩

def apply (r : Replica) (key : String) (version : Int) : Replica :=
  ⟨r.applied.insert key version, max r.version version⟩

def noReplica (i : Nat) : Value := err ("no replica " ++ toString i)

def write (s : Session) (client : String) (i : Nat) (key : String) (value : Int) :
    Session × Value :=
  if s.replicas.length ≤ i then (s, noReplica i)
  else
    let version : Int := s.log.length + 1
    let seen := s.sessionOf client
    ({ s with
        log := s.log ++ [⟨key, value, version⟩]
        replicas := s.replicas.modify i fun r => apply r key version
        sessions := s.sessions.insert client { seen with writes := max seen.writes version } },
      .obj [("ok", .bool true), ("version", .num version), ("replica", .num i)])

/-- `replicate`: everything the log has is applied at one replica. -/
def replicate (s : Session) (i : Nat) : Session × Value :=
  match s.replicas[i]? with
  | none => (s, noReplica i)
  | some r =>
    let r := s.log.foldl (fun r e => apply r e.key e.version) r
    ({ s with replicas := s.replicas.set i r },
      .obj [("ok", .bool true), ("replica", .num i), ("version", .num r.version)])

/-- The answer of a read that the replica is too old for. -/
def behind (version floor : Int) : Value :=
  .obj [("ok", .bool true), ("served", .bool false), ("reason", .str "replica is behind this session"),
    ("replica_version", .num version), ("session_floor", .num floor)]

def readFloor (s : Session) (client : String) : Int := if s.guarantees then s.floor client else 0

def versionAt (r : Replica) (key : String) : Int := r.applied.getD key 0

def valueAt (s : Session) (key : String) (version : Int) : Int :=
  match s.log.find? fun e => e.key == key && e.version == version with
  | some e => e.value
  | none => 0

def read (s : Session) (client : String) (i : Nat) (key : String) : Session × Value :=
  match s.replicas[i]? with
  | none => (s, noReplica i)
  | some r =>
    if r.version < s.readFloor client then (s, behind r.version (s.readFloor client))
    else
      let seen := s.sessionOf client
      ({ s with sessions := s.sessions.insert client { seen with reads := max seen.reads r.version } },
        .obj [("ok", .bool true), ("served", .bool true), ("value", .num (s.valueAt key (versionAt r key))),
          ("version", .num (versionAt r key)), ("replica_version", .num r.version)])

def step [Host] (s : Session) (command : String) (args : List String) : Handled Session :=
  match command with
  | "init" => arg s (uint args 0) fun n =>
    if n = 0 then some (s, err "a store needs at least one replica")
    else some (init n, .obj [("ok", .bool true), ("replicas", .num n)])
  | "guarantees" => arg s (word args 0) fun w =>
    match w with
    | "on" => some ({ s with guarantees := true }, .obj [("ok", .bool true), ("guarantees", .bool true)])
    | "off" =>
      some ({ s with guarantees := false }, .obj [("ok", .bool true), ("guarantees", .bool false)])
    | other => some (s, err ("expected on or off, got " ++ debugStr other))
  | "write" => arg s (word args 0) fun client => arg s (uint args 1) fun i =>
    arg s (word args 2) fun key => arg s (int args 3) fun value => some (s.write client i key value)
  | "replicate" => arg s (uint args 0) fun i => some (s.replicate i)
  | "read" => arg s (word args 0) fun client => arg s (uint args 1) fun i =>
    arg s (word args 2) fun key => some (s.read client i key)
  | "state" => some (s, s.state)
  | other => some (s, err ("unknown command " ++ debugStr other))

end Session

end BuildYourOwn.Consistency

/-!
## Read your writes and monotonic reads

A read is admitted when the replica's version, one number, is not below the session's floor, another
one. That would be enough if a replica held a prefix of the writes, as its comment says. A write lands
on any replica, so a replica can have a high version and still miss an earlier write of the key
(`skipped_write`): the read goes backwards although the test let it through.

What the session has written and read is backed by the log and lies at or below its floor (`Backed`).
So the guarantees hold of every read whose replica misses no write of the key up to the floor
(`Gap`).

**`session_guarantees`**: in a run in which no admitted read meets a gap, a served read of a key returns
a version at least as high as every one its client has written to the key or read of it before.
-/

namespace BuildYourOwn.Consistency.Session

open Lib Topic

/-! ## What a client sees -/

/-- The event is a write of version `v` to the key by the client. -/
def WroteBy (e : Event Session Line Value) (client key : String) (v : Int) : Prop :=
  e.input.command = "write" ∧ word e.input.args 0 = .ok client ∧ word e.input.args 2 = .ok key ∧
    e.output.numAt "version" = some v

/-- The event is a read of the key that the client was served with version `v`. -/
def ReadBy (e : Event Session Line Value) (client key : String) (v : Int) : Prop :=
  e.input.command = "read" ∧ word e.input.args 0 = .ok client ∧ word e.input.args 2 = .ok key ∧
    e.output.flagAt "served" = some true ∧ e.output.numAt "version" = some v

/-- The lines of the runs: one `init`, and the guarantees stay on. -/
def Kept (l : Line) : Prop := l.command ≠ "init" ∧ l.command ≠ "guarantees"

def Gap (s : Session) (l : Line) : Prop :=
  l.command = "read" ∧ ∃ client i key r, word l.args 0 = .ok client ∧ uint l.args 1 = .ok i ∧
    word l.args 2 = .ok key ∧ s.replicas[i]? = some r ∧ s.floor client ≤ r.version ∧
    ∃ e ∈ s.log, e.key = key ∧ e.version ≤ s.floor client ∧ versionAt r key < e.version

/-! ## Invariants -/

/-- Version `v` of the key is in the log. -/
def InLog (log : List Logged) (key : String) (v : Int) : Prop :=
  ∃ e ∈ log, e.key = key ∧ e.version = v

def Holds (log : List Logged) (r : Replica) : Prop :=
  ∀ (key : String) v, r.applied[key]? = some v → InLog log key v ∧ v ≤ r.version

structure Sound (s : Session) : Prop where
  on : s.guarantees = true
  positive : ∀ e ∈ s.log, 0 < e.version
  holds : ∀ r ∈ s.replicas, Holds s.log r

def Backed (s : Session) (client key : String) (v : Int) : Prop :=
  v = 0 ∨ v ≤ s.floor client ∧ InLog s.log key v

structure Grows (s s' : Session) : Prop where
  log : ∀ e ∈ s.log, e ∈ s'.log
  floor : ∀ client, s.floor client ≤ s'.floor client

variable {s s' : Session} {r : Replica} {log : List Logged} {client key : String} {v w : Int}
  {i : Nat}

theorem InLog.mono {log' : List Logged} (h : InLog log key v) (hlog : ∀ e ∈ log, e ∈ log') : InLog log' key v := by
  obtain ⟨e, he, hkey, hv⟩ := h
  exact ⟨e, hlog e he, hkey, hv⟩

theorem Backed.grows (h : Backed s client key v) (hg : Grows s s') : Backed s' client key v :=
  h.imp_right fun h => ⟨Int.le_trans h.1 (hg.floor client), h.2.mono hg.log⟩

theorem Grows.refl (s : Session) : Grows s s := ⟨fun _ he => he, fun _ => Int.le_refl _⟩

theorem Holds.versionAt (h : Holds log r) (key : String) :
    versionAt r key = 0 ∨ InLog log key (versionAt r key) ∧ versionAt r key ≤ r.version := by
  unfold Session.versionAt
  rw [Std.ExtTreeMap.getD_eq_getD_getElem?]
  cases hget : r.applied[key]? with
  | none => exact .inl rfl
  | some v => exact .inr (h key v hget)

theorem Holds.apply (h : Holds log r) (hv : InLog log key v) : Holds log (apply r key v) := by
  intro k x hx
  simp only [Session.apply, StringMap.get_insert] at hx
  split at hx
  · rename_i heq
    cases hx
    exact ⟨heq ▸ hv, Int.le_max_right ..⟩
  · obtain ⟨hlog, hle⟩ := h k x hx
    exact ⟨hlog, Int.le_trans hle (Int.le_max_left ..)⟩

/-- The loop of `replicate`. -/
theorem Holds.foldl_apply {es : List Logged} (h : Holds log r) (hes : ∀ e ∈ es, e ∈ log) :
    Holds log (es.foldl (fun r e => Session.apply r e.key e.version) r) := by
  induction es generalizing r with
  | nil => exact h
  | cons e es ih =>
    have happly := h.apply ⟨e, hes e List.mem_cons_self, rfl, rfl⟩
    exact ih happly fun e' he => hes e' (List.mem_cons_of_mem e he)

/-! ## The commands -/

theorem sessionOf_insert {x : SessionState} (hs : s'.sessions = s.sessions.insert client x)
    (c : String) : s'.sessionOf c = if client = c then x else s.sessionOf c := by
  unfold sessionOf
  rw [hs]
  exact StringMap.getD_insert ..

theorem floor_le_insert {x : SessionState} (hs : s'.sessions = s.sessions.insert client x)
    (hw : (s.sessionOf client).writes ≤ x.writes) (hr : (s.sessionOf client).reads ≤ x.reads)
    (c : String) : s.floor c ≤ s'.floor c := by
  unfold floor
  rw [sessionOf_insert hs]
  split
  · rename_i heq
    subst heq
    omega
  · exact Int.le_refl _

/-- **A write**: the log and the floor take its version in. -/
theorem Sound.write (h : Sound s) (hi : i < s.replicas.length) (client key : String) (value : Int) :
    Sound (s.write client i key value).1 ∧ Grows s (s.write client i key value).1 ∧
      Backed (s.write client i key value).1 client key (s.log.length + 1) := by
  obtain ⟨s', hs', hlog, hreplicas, hsessions, hon⟩ : ∃ s', (s.write client i key value).1 = s' ∧
      s'.log = s.log ++ [⟨key, value, s.log.length + 1⟩] ∧
      s'.replicas = s.replicas.modify i (fun r => apply r key (s.log.length + 1)) ∧
      s'.sessions = s.sessions.insert client { s.sessionOf client with
        writes := max (s.sessionOf client).writes (s.log.length + 1) } ∧
      s'.guarantees = s.guarantees := by
    unfold Session.write
    rw [if_neg (Nat.not_le.mpr hi)]
    exact ⟨_, rfl, rfl, rfl, rfl, rfl⟩
  rw [hs']
  have hsub : ∀ e ∈ s.log, e ∈ s'.log := fun e he => hlog ▸ List.mem_append_left _ he
  have hnew : InLog s'.log key (s.log.length + 1) :=
    ⟨_, hlog ▸ List.mem_concat_self, rfl, rfl⟩
  have hholds : ∀ r ∈ s.replicas, Holds s'.log r :=
    fun r hr k x hx => (h.holds r hr k x hx).imp_left fun hk => hk.mono hsub
  refine ⟨⟨hon.trans h.on, fun e he => ?_, fun r hr => ?_⟩, ⟨hsub, fun c => ?_⟩, .inr ⟨?_, hnew⟩⟩
  · rw [hlog] at he
    rcases List.mem_append.mp he with he | he
    · exact h.positive e he
    · rw [List.mem_singleton.mp he]
      exact Int.lt_add_one_of_le (Int.natCast_nonneg _)
  · rw [hreplicas] at hr
    obtain ⟨j, hj⟩ := List.mem_iff_getElem?.mp hr
    rw [List.getElem?_modify] at hj
    obtain ⟨r', hr', rfl⟩ := Option.map_eq_some_iff.mp hj
    have hmem := hholds r' (List.mem_of_getElem? hr')
    split
    · exact hmem.apply hnew
    · exact hmem
  · exact floor_le_insert hsessions (Int.le_max_left ..) (Int.le_refl _) c
  · unfold floor
    rw [sessionOf_insert hsessions, if_pos rfl]
    exact Int.le_trans (Int.le_max_right ..) (Int.le_max_left ..)

theorem Sound.replicate (h : Sound s) (i : Nat) : Sound (s.replicate i).1 ∧ Grows s (s.replicate i).1 := by
  unfold Session.replicate
  cases hr : s.replicas[i]? with
  | none => exact ⟨h, Grows.refl s⟩
  | some r =>
    refine ⟨⟨h.on, h.positive, fun r' hr' => ?_⟩, ⟨fun _ he => he, fun _ => Int.le_refl _⟩⟩
    rcases List.mem_or_eq_of_mem_set hr' with hr' | rfl
    · exact h.holds r' hr'
    · exact (h.holds r (List.mem_of_getElem? hr)).foldl_apply fun _ he => he

theorem Sound.read (h : Sound s) (hr : s.replicas[i]? = some r) (hle : s.floor client ≤ r.version) (key : String) :
    Sound (s.read client i key).1 ∧ Grows s (s.read client i key).1 ∧
      Backed (s.read client i key).1 client key (versionAt r key) := by
  obtain ⟨s', hs', hlog, hreplicas, hsessions, hon⟩ : ∃ s', (s.read client i key).1 = s' ∧
      s'.log = s.log ∧ s'.replicas = s.replicas ∧
      s'.sessions = s.sessions.insert client { s.sessionOf client with
        reads := max (s.sessionOf client).reads r.version } ∧
      s'.guarantees = s.guarantees := by
    unfold Session.read readFloor
    rw [hr, h.on]
    dsimp only
    rw [if_pos rfl, if_neg (Int.not_lt.mpr hle)]
    exact ⟨_, rfl, rfl, rfl, rfl, h.on.symm ▸ rfl⟩
  rw [hs']
  refine ⟨⟨hon.trans h.on, hlog ▸ h.positive, by rw [hlog, hreplicas]; exact h.holds⟩,
    ⟨fun e he => hlog ▸ he, floor_le_insert hsessions (Int.le_refl _) (Int.le_max_left ..)⟩, ?_⟩
  have hfloor : r.version ≤ s'.floor client := by
    unfold floor
    rw [sessionOf_insert hsessions, if_pos rfl]
    exact Int.le_trans (Int.le_max_right ..) (Int.le_max_right ..)
  rcases (h.holds r (List.mem_of_getElem? hr)).versionAt key with hzero | ⟨hin, hversion⟩
  · exact .inl hzero
  · exact .inr ⟨Int.le_trans hversion hfloor, hlog ▸ hin⟩

/-! ## What one line does -/

def Saw (e : Event Session Line Value) (client key : String) (v : Int) : Prop :=
  WroteBy e client key v ∨ ReadBy e client key v

section

variable [Host] {l : Line} {o : Value}

/-- **What one line does**: nothing, a replication, a write or a served read. -/
inductive Moves (s : Session) (l : Line) (s' : Session) (o : Value) : Prop
  | quiet (hsame : s' = s) (hwrite : l.command = "write" → o.numAt "version" = none)
      (hread : l.command = "read" → o.flagAt "served" ≠ some true)
  | replicate (i : Nat) (hcommand : l.command = "replicate") (hafter : s' = (s.replicate i).1)
  | write (client : String) (i : Nat) (key : String) (value : Int) (hcommand : l.command = "write")
      (hclient : word l.args 0 = .ok client) (hkey : word l.args 2 = .ok key)
      (hi : i < s.replicas.length) (hafter : s' = (s.write client i key value).1)
      (ho : o.numAt "version" = some (s.log.length + 1 : Int))
  | read (client : String) (i : Nat) (key : String) (r : Replica) (hcommand : l.command = "read")
      (hclient : word l.args 0 = .ok client) (hi : uint l.args 1 = .ok i)
      (hkey : word l.args 2 = .ok key) (hr : s.replicas[i]? = some r)
      (hle : s.floor client ≤ r.version) (hafter : s' = (s.read client i key).1)
      (ho : o.numAt "version" = some (versionAt r key))

omit [Host] in
theorem quiet_err (l : Line) (message : String) : Moves s l s (err message) :=
  .quiet rfl (fun _ => rfl) (fun _ => flagAt_err message "served")

omit [Host] in
theorem moves_write (h : l.command = "write") (hclient : word l.args 0 = .ok client)
    (hkey : word l.args 2 = .ok key) (value : Int) :
    Moves s l (s.write client i key value).1 (s.write client i key value).2 := by
  by_cases hi : s.replicas.length ≤ i
  · have hno : s.write client i key value = (s, noReplica i) := if_pos hi
    rw [hno]
    exact quiet_err l _
  · refine .write client i key value h hclient hkey (Nat.not_le.mp hi) rfl ?_
    unfold Session.write
    rw [if_neg hi]
    rfl

omit [Host] in
theorem moves_read (hon : s.guarantees = true) (h : l.command = "read")
    (hclient : word l.args 0 = .ok client) (hi : uint l.args 1 = .ok i) (hkey : word l.args 2 = .ok key) :
    Moves s l (s.read client i key).1 (s.read client i key).2 := by
  cases hr : s.replicas[i]? with
  | none =>
    have hno : s.read client i key = (s, noReplica i) := by
      unfold Session.read
      rw [hr]
    rw [hno]
    exact quiet_err l _
  | some r =>
    by_cases hlt : r.version < s.floor client
    · have hbehind : s.read client i key = (s, behind r.version (s.floor client)) := by
        unfold Session.read readFloor
        rw [hr, hon]
        exact if_pos hlt
      rw [hbehind]
      exact .quiet rfl (fun hw => absurd (h.symm.trans hw) (by decide)) fun _ hf =>
        nomatch Option.some.inj hf
    · refine .read client i key r h hclient hi hkey hr (Int.not_lt.mp hlt) rfl ?_
      unfold Session.read readFloor
      rw [hr, hon]
      dsimp only
      rw [if_pos rfl, if_neg hlt]
      rfl

theorem step_moves (hon : s.guarantees = true) (hl : Kept l) (hs : onLine step s l = some (s', o)) :
    Moves s l s' o := by
  obtain ⟨command, args⟩ := l
  unfold onLine step at hs
  dsimp only at hs
  split at hs
  case h_1 => exact absurd rfl hl.1
  case h_2 => exact absurd rfl hl.2
  case h_3 =>
    rcases arg_eq_some.mp hs with ⟨hbad, rfl⟩ | ⟨client, hclient, hs⟩
    · obtain ⟨message, rfl⟩ := word_error hbad
      exact quiet_err _ message
    rcases arg_eq_some.mp hs with ⟨hbad, rfl⟩ | ⟨i, -, hs⟩
    · obtain ⟨message, rfl⟩ := uint_error hbad
      exact quiet_err _ message
    rcases arg_eq_some.mp hs with ⟨hbad, rfl⟩ | ⟨key, hkey, hs⟩
    · obtain ⟨message, rfl⟩ := word_error hbad
      exact quiet_err _ message
    rcases arg_eq_some.mp hs with ⟨hbad, rfl⟩ | ⟨value, -, hs⟩
    · obtain ⟨message, rfl⟩ := int_error hbad
      exact quiet_err _ message
    obtain ⟨rfl, rfl⟩ := Prod.mk.inj (Option.some.inj hs)
    exact moves_write rfl hclient hkey value
  case h_4 =>
    rcases arg_eq_some.mp hs with ⟨hbad, rfl⟩ | ⟨i, -, hs⟩
    · obtain ⟨message, rfl⟩ := uint_error hbad
      exact quiet_err _ message
    obtain ⟨rfl, -⟩ := Prod.mk.inj (Option.some.inj hs)
    exact .replicate i rfl rfl
  case h_5 =>
    rcases arg_eq_some.mp hs with ⟨hbad, rfl⟩ | ⟨client, hclient, hs⟩
    · obtain ⟨message, rfl⟩ := word_error hbad
      exact quiet_err _ message
    rcases arg_eq_some.mp hs with ⟨hbad, rfl⟩ | ⟨i, hi, hs⟩
    · obtain ⟨message, rfl⟩ := uint_error hbad
      exact quiet_err _ message
    rcases arg_eq_some.mp hs with ⟨hbad, rfl⟩ | ⟨key, hkey, hs⟩
    · obtain ⟨message, rfl⟩ := word_error hbad
      exact quiet_err _ message
    obtain ⟨rfl, rfl⟩ := Prod.mk.inj (Option.some.inj hs)
    exact moves_read hon rfl hclient hi hkey
  case h_6 =>
    obtain ⟨rfl, rfl⟩ := Prod.mk.inj (Option.some.inj hs)
    exact .quiet rfl (fun h => absurd h (by decide : "state" ≠ "write"))
      (fun h => absurd h (by decide : "state" ≠ "read"))
  case h_7 =>
    obtain ⟨rfl, rfl⟩ := Prod.mk.inj (Option.some.inj hs)
    exact quiet_err _ _

end

/-! ## Runs -/

variable {l : Line} {o : Value}

/-- **One line keeps the store sound**, lets log and floors grow, and backs what it shows. -/
theorem Moves.sound (hm : Moves s l s' o) (h : Sound s) : Sound s' ∧ Grows s s' ∧
    ∀ client key v, Saw ⟨s, l, o, s'⟩ client key v → Backed s' client key v := by
  cases hm with
  | quiet hsame hwrite hread =>
    subst hsame
    refine ⟨h, Grows.refl s', fun client key v hsaw => ?_⟩
    rcases hsaw with ⟨hc, -, -, ho⟩ | ⟨hc, -, -, ho, -⟩
    · cases (hwrite hc).symm.trans ho
    · exact absurd ho (hread hc)
  | replicate i hcommand hafter =>
    subst hafter
    obtain ⟨hsound, hgrows⟩ := h.replicate i
    refine ⟨hsound, hgrows, fun client key v hsaw => ?_⟩
    rcases hsaw with ⟨hc, -⟩ | ⟨hc, -⟩
    · exact absurd (hcommand.symm.trans hc) (by decide)
    · exact absurd (hcommand.symm.trans hc) (by decide)
  | write client i key value hcommand hclient hkey hi hafter ho =>
    subst hafter
    obtain ⟨hsound, hgrows, hbacked⟩ := h.write hi client key value
    refine ⟨hsound, hgrows, fun c k v hsaw => ?_⟩
    rcases hsaw with ⟨-, hc, hk, hv⟩ | ⟨hc, -⟩
    · obtain rfl := Except.ok.inj (hclient.symm.trans hc)
      obtain rfl := Except.ok.inj (hkey.symm.trans hk)
      obtain rfl := Option.mem_unique ho hv
      exact hbacked
    · exact absurd (hcommand.symm.trans hc) (by decide)
  | read client i key r hcommand hclient hi hkey hr hle hafter ho =>
    subst hafter
    obtain ⟨hsound, hgrows, hbacked⟩ := h.read hr hle key
    refine ⟨hsound, hgrows, fun c k v hsaw => ?_⟩
    rcases hsaw with ⟨hc, -⟩ | ⟨-, hc, hk, -, hv⟩
    · exact absurd (hcommand.symm.trans hc) (by decide)
    · obtain rfl := Except.ok.inj (hclient.symm.trans hc)
      obtain rfl := Except.ok.inj (hkey.symm.trans hk)
      obtain rfl := Option.mem_unique ho hv
      exact hbacked

/-- **A served read that meets no gap** returns at least what the client has seen. -/
theorem Moves.read_le (hm : Moves s l s' o) (h : Sound s) (hgap : ¬ Gap s l)
    (hbacked : Backed s client key v) (hread : ReadBy ⟨s, l, o, s'⟩ client key w) : v ≤ w := by
  obtain ⟨hc, hcl, hk, hserved, hw⟩ := hread
  cases hm with
  | quiet _ _ hq => exact absurd hserved (hq hc)
  | replicate _ hcommand _ => exact absurd (hcommand.symm.trans hc) (by decide)
  | write _ _ _ _ hcommand _ _ _ _ _ => exact absurd (hcommand.symm.trans hc) (by decide)
  | read c i k r hcommand hclient hi hkey hr hle hafter ho =>
    obtain rfl := Except.ok.inj (hclient.symm.trans hcl)
    obtain rfl := Except.ok.inj (hkey.symm.trans hk)
    obtain rfl := Option.mem_unique ho hw
    rcases hbacked with rfl | ⟨hfloor, e, he, hekey, rfl⟩
    · rcases (h.holds r (List.mem_of_getElem? hr)).versionAt k with hzero | ⟨⟨e, he, -, hv⟩, -⟩
      · exact Int.le_of_eq hzero.symm
      · rw [← hv]
        exact Int.le_of_lt (h.positive e he)
    · refine Int.not_lt.mp fun hlt => hgap ?_
      exact ⟨hc, c, i, k, r, hclient, hi, hkey, hr, hle, e, he, hekey, hfloor, hlt⟩

theorem sound_init (n : Nat) : Sound (init n) where
  on := rfl
  positive e he := absurd he List.not_mem_nil
  holds r hr := by
    rw [List.eq_of_mem_replicate hr]
    intro k v hv
    cases hv

section

variable [Host] {es : List (Event Session Line Value)} {n : Nat}

theorem backed_run (hrun : Run (onLine step) (init n) es s) (hes : ∀ e ∈ es, Kept e.input) :
    Sound s ∧ ∀ e ∈ es, ∀ client key v, Saw e client key v → Backed s client key v := by
  refine hrun.history_invariant (P := fun es s => Sound s ∧ ∀ e ∈ es, ∀ client key v,
    Saw e client key v → Backed s client key v) (G := fun e => Kept e.input)
    ⟨sound_init n, List.forall_mem_nil _⟩ ?_ hes
  rintro es s l s' o ⟨hsound, hsaw⟩ hl hs
  obtain ⟨hsound', hgrows, hnew⟩ := (step_moves hsound.on hl hs).sound hsound
  refine ⟨hsound', fun e he client key v h => ?_⟩
  rcases List.mem_append.mp he with he | he
  · exact (hsaw e he client key v h).grows hgrows
  · obtain rfl := List.mem_singleton.mp he
    exact hnew client key v h

/-- **Read your writes and monotonic reads**, in every run in which no admitted read is at a replica
that misses a write of the key at or below the session's floor. -/
theorem session_guarantees (hrun : Run (onLine step) (init n) es s)
    (hes : ∀ e ∈ es, Kept e.input ∧ ¬ Gap e.before e.input) :
    ∀ es₁ e₁ es₂ e₂ es₃ client key v w, es = es₁ ++ e₁ :: es₂ ++ e₂ :: es₃ →
      WroteBy e₁ client key v ∨ ReadBy e₁ client key v → ReadBy e₂ client key w → v ≤ w := by
  intro es₁ e₁ es₂ e₂ es₃ client key v w hsplit hsaw hread
  have he₂ : e₂ ∈ es := hsplit ▸ List.mem_append_right _ List.mem_cons_self
  obtain ⟨hsound, hbacked⟩ := backed_run (hrun.split hsplit) fun e he =>
    (hes e (hsplit ▸ List.mem_append_left _ he)).1
  have hm := step_moves hsound.on (hes e₂ he₂).1 (hrun.step_of_mem he₂)
  exact hm.read_le hsound (hes e₂ he₂).2 (hbacked e₁ (by simp) client key v hsaw) hread

end

/-! Two replicas: `c` writes to the first one, `d` writes another key to the second one, whose version
is then the higher of the two. -/

@[reducible] def noJson : Host := hostOf []

def readElsewhere : List Line :=
  [⟨"write", ["c", "0", "k", "1"]⟩, ⟨"write", ["d", "1", "j", "2"]⟩, ⟨"read", ["c", "1", "k"]⟩]

theorem skipped_write : ∃ e₁ e₂ e₃ s, Run (onLine (@step noJson)) (init 2) [e₁, e₂, e₃] s ∧
    [e₁, e₂, e₃].map Event.input = readElsewhere ∧ (∀ e ∈ [e₁, e₂, e₃], Kept e.input) ∧
    WroteBy e₁ "c" "k" 1 ∧ ReadBy e₃ "c" "k" 0 ∧
    ¬ ∀ v w, WroteBy e₁ "c" "k" v → ReadBy e₃ "c" "k" w → v ≤ w := by
  let _ : Host := noJson
  refine ⟨_, _, _, _, run_of_exec readElsewhere rfl, rfl, fun e he => ?_, ⟨rfl, rfl, rfl, rfl⟩,
    ⟨rfl, rfl, rfl, rfl, rfl⟩, fun h => ?_⟩
  rotate_left
  · exact absurd (h 1 0 ⟨rfl, rfl, rfl, rfl⟩ ⟨rfl, rfl, rfl, rfl, rfl⟩) (by decide)
  rcases List.mem_cons.mp he with rfl | he
  · exact ⟨by decide, by decide⟩
  · rcases List.mem_cons.mp he with rfl | he
    · exact ⟨by decide, by decide⟩
    · obtain rfl := List.mem_singleton.mp he
      exact ⟨by decide, by decide⟩

/-- The same, once the second replica has been brought up to the log. -/
def readReplicated : List Line :=
  [⟨"write", ["c", "0", "k", "1"]⟩, ⟨"replicate", ["1"]⟩, ⟨"write", ["d", "1", "j", "2"]⟩,
    ⟨"read", ["c", "1", "k"]⟩]

def closed (e : Event Session Line Value) : Bool :=
  e.input.command != "init" && e.input.command != "guarantees" &&
    match word e.input.args 0, uint e.input.args 1, word e.input.args 2 with
    | .ok client, .ok i, .ok key => (e.before.replicas[i]?).all fun r => e.before.log.all fun x =>
        x.key != key || decide (e.before.floor client < x.version) ||
          decide (x.version ≤ versionAt r key)
    | _, _, _ => true

theorem not_gap_of_closed {e : Event Session Line Value} (h : closed e = true) :
    Kept e.input ∧ ¬ Gap e.before e.input := by
  unfold closed at h
  simp only [Bool.and_eq_true, bne_iff_ne, ne_eq] at h
  obtain ⟨hkept, hall⟩ := h
  refine ⟨hkept, ?_⟩
  rintro ⟨-, client, i, key, r, hclient, hi, hkey, hr, -, x, hx, hxkey, hfloor, hlt⟩
  simp only [hclient, hi, hkey, hr, Option.all_some] at hall
  have hx' := List.all_eq_true.mp hall x hx
  simp only [hxkey, bne_self_eq_false, Bool.false_or, Bool.or_eq_true, decide_eq_true_eq] at hx'
  omega

theorem session_guarantees_replicated : ∃ e₁ es₂ e₃ s,
    Run (onLine (@step noJson)) (init 2) ([] ++ e₁ :: es₂ ++ [e₃]) s ∧
    ([] ++ e₁ :: es₂ ++ [e₃]).map Event.input = readReplicated ∧ WroteBy e₁ "c" "k" 1 ∧
    ReadBy e₃ "c" "k" 1 ∧ (1 : Int) ≤ 1 := by
  let _ : Host := noJson
  obtain ⟨e₁, es₂, e₃, s, hrun, hinputs, hall, hw, hr⟩ : ∃ e₁ es₂ e₃ s,
      Run (onLine step) (init 2) ([] ++ e₁ :: es₂ ++ [e₃]) s ∧
      ([] ++ e₁ :: es₂ ++ [e₃]).map Event.input = readReplicated ∧
      ([] ++ e₁ :: es₂ ++ [e₃]).all closed = true ∧ WroteBy e₁ "c" "k" 1 ∧ ReadBy e₃ "c" "k" 1 :=
    ⟨_, [_, _], _, _, run_of_exec readReplicated rfl, rfl, rfl, ⟨rfl, rfl, rfl, rfl⟩,
      ⟨rfl, rfl, rfl, rfl, rfl⟩⟩
  exact ⟨e₁, es₂, e₃, s, hrun, hinputs, hw, hr, session_guarantees hrun
    (fun e he => not_gap_of_closed (List.all_eq_true.mp hall e he)) [] e₁ es₂ e₃ [] _ _ _ _ rfl
    (.inl hw) hr⟩

end BuildYourOwn.Consistency.Session
