import Mathlib.Data.List.Induction
import BuildYourOwn.Byo.Database

/-!
# The progress table and its history

The calls that write to the database are a machine (`step`); what each of them put into the history is its entries
(`happened`). An ingest that fails leaves every table as it was, and whatever is executed moves the row of a stage as
its entry says (`Db.row_apply`), so a row tells the history since the last reset (`Tells`).

Headline: `progress_truthful`.
-/

namespace BuildYourOwn.Byo

open Lib Lib.Action
open Topic (Host)

/-! ## Calls -/

inductive Call where
  | ingest (track : Track) (projectId : Option Int) (report : Report) (args : String) (jsonPath : Option String)
      (startedAt : String) (faults : List (Option String))
  | setState (track : Track) (n : UInt32) (done : Bool)
  | setNote (track : Track) (n : UInt32) (note : Option String)
  | reset

/-- What a call gives: the id of a run, from an ingest. -/
abbrev Answer := Except String (Option Int)

def step [Host] (c : Conn) : Call → Option (Conn × Answer)
  | .ingest track projectId report args jsonPath startedAt faults =>
    (ingest track projectId report args jsonPath startedAt { c with faults }).map fun r => (r.2, r.1.map some)
  | .setState track n done => (setState track n done { c with faults := [] }).map fun r => (r.2, r.1.map fun _ => none)
  | .setNote track n note => (setNote track n note { c with faults := [] }).map fun r => (r.2, r.1.map fun _ => none)
  | .reset => (reset { c with faults := [] }).map fun r => (r.2, r.1.map fun _ => none)

/-! ## What goes into the history -/

inductive Entry where
  | ran (track : Track) (n : UInt32) (state time : String) (runId : Int)
  | state (track : Track) (n : UInt32) (done : Bool) (time : String)
  | note (track : Track) (n : UInt32) (text : Option String) (time : String)
  | reset

def Stage.Ran (st : Stage) : Prop := 0 < st.passed ∨ 0 < st.failed

instance (st : Stage) : Decidable st.Ran := inferInstanceAs (Decidable (0 < st.passed ∨ 0 < st.failed))

def Report.entries (track : Track) (report : Report) (startedAt : String) (runId : Int) : List Entry :=
  if report.validate then []
  else (report.stages.filter fun st => st.Ran).map fun st => .ran track st.stage st.result startedAt runId

def happened (e : Event Conn Call Answer) : List Entry :=
  match e.input, e.output with
  | .ingest track _ report _ _ startedAt _, .ok (some runId) => report.entries track startedAt runId
  | .ingest .., _ => []
  | .setState track n done, _ => [.state track n done (e.before.clock e.before.ticks)]
  | .setNote track n note, _ => [.note track n note (e.before.clock e.before.ticks)]
  | .reset, _ => [.reset]

def history (es : List (Event Conn Call Answer)) : List Entry := es.flatMap happened

def sinceReset (h : List Entry) : List Entry :=
  (h.reverse.takeWhile fun
    | .reset => false
    | _ => true).reverse

section
variable (track : Track) (n : UInt32)

/-- The states a stage was set to, by calls and by runs, with the times. -/
def marks (h : List Entry) : List (String × String) :=
  h.filterMap fun
    | .ran t m state time _ => if t = track ∧ m = n then some (state, time) else none
    | .state t m done time => if t = track ∧ m = n then some (if done then "done" else "todo", time) else none
    | _ => none

def notes (h : List Entry) : List (Option String) :=
  h.filterMap fun
    | .note t m text _ => if t = track ∧ m = n then some text else none
    | _ => none

def ranIn (h : List Entry) : List Int :=
  h.filterMap fun
    | .ran t m _ _ runId => if t = track ∧ m = n then some runId else none
    | _ => none

end

def lastState (ms : List (String × String)) : String := (ms.getLast?.map Prod.fst).getD "todo"

/-- The time of the first mark of the unbroken run of `done` marks at the end. -/
def doneSince (ms : List (String × String)) : Option String :=
  (ms.reverse.takeWhile fun m => m.1 = "done").getLast?.map Prod.snd

def Db.row (db : Db) (track : Track) (n : UInt32) : Option ProgressRow :=
  db.progress.find? fun r => r.track = track.asStr ∧ r.stage = n.toNat

/-- What the table says of a stage. -/
structure Standing where
  state : String
  doneAt : Option String
  note : Option String
  lastRunId : Option Int

def standing : Option ProgressRow → Standing
  | some row => ⟨row.state, row.doneAt, row.note, row.lastRunId⟩
  | none => ⟨"todo", none, none, none⟩

/-- What the history says. -/
def summary (track : Track) (n : UInt32) (h : List Entry) : Standing :=
  ⟨lastState (marks track n h), doneSince (marks track n h), (notes track n h).getLast?.join,
    (ranIn track n h).getLast?⟩

/-! ## Marks -/

section
variable {ms : List (String × String)} {state time : String} {h : List Entry} {e : Entry}

theorem lastState_concat : lastState (ms ++ [(state, time)]) = state := by
  simp [lastState]

theorem doneSince_concat :
    doneSince (ms ++ [(state, time)]) = if state = "done" then some ((doneSince ms).getD time) else none := by
  unfold doneSince
  rw [List.reverse_append, List.reverse_singleton, List.singleton_append]
  by_cases hdone : state = "done"
  · rw [if_pos hdone, List.takeWhile_cons, if_pos (by simpa using hdone)]
    cases ms.reverse.takeWhile fun m => decide (m.1 = "done") with
    | nil => rfl
    | cons m rest => simp [List.getLast?_eq_some_getLast]
  · rw [if_neg hdone, List.takeWhile_cons, if_neg (by simpa using hdone)]
    rfl

/-- The time is known exactly while the last mark is `done`. -/
theorem doneSince_isSome : (doneSince ms).isSome = true ↔ lastState ms = "done" := by
  induction ms using List.reverseRecOn with
  | nil =>
    refine ⟨fun hno => absurd hno (by simp [doneSince]), fun hno => absurd hno (by decide)⟩
  | append_singleton ms m _ =>
    rw [lastState_concat, doneSince_concat]
    by_cases hdone : m.1 = "done"
    · simp [hdone]
    · simp [hdone]

theorem sinceReset_reset : sinceReset (h ++ [.reset]) = [] := by
  simp [sinceReset]

theorem sinceReset_concat (he : e ≠ .reset) : sinceReset (h ++ [e]) = sinceReset h ++ [e] := by
  unfold sinceReset
  cases e with
  | reset => exact absurd rfl he
  | ran | state | note => simp

end

/-! ## Rows -/

theorem Track.asStr_injective {t u : Track} (h : t.asStr = u.asStr) : t = u := by
  cases t <;> cases u <;> first | rfl | exact absurd h (by decide)

section
variable {rows : List ProgressRow} {new : ProgressRow} {update : ProgressRow → ProgressRow} {db : Db}
  {track track' : Track} {n n' : UInt32}

theorem find_upsert (hkey : ∀ r, (update r).track = r.track ∧ (update r).stage = r.stage) (t : String) (m : Int) :
    (upsert new update rows).find? (fun r => r.track = t ∧ r.stage = m) =
      if new.track = t ∧ new.stage = m then
        some ((rows.find? fun r => r.track = t ∧ r.stage = m).elim new update)
      else rows.find? fun r => r.track = t ∧ r.stage = m := by
  induction rows with
  | nil =>
    unfold upsert
    by_cases hnew : new.track = t ∧ new.stage = m <;> simp [hnew]
  | cons r rows ih =>
    unfold upsert
    by_cases hr : r.track = new.track ∧ r.stage = new.stage
    · have hu := hkey r
      rw [if_pos hr, List.find?_cons, List.find?_cons, hu.1, hu.2, hr.1, hr.2]
      by_cases hnew : new.track = t ∧ new.stage = m <;> simp [hnew]
    · rw [if_neg hr, List.find?_cons, List.find?_cons, ih]
      by_cases hkeyed : r.track = t ∧ r.stage = m
      · have hnew : ¬ (new.track = t ∧ new.stage = m) := fun hnew =>
          hr ⟨hkeyed.1.trans hnew.1.symm, hkeyed.2.trans hnew.2.symm⟩
        simp [hkeyed, hnew]
      · simp [hkeyed]

theorem row_upsert {state updatedAt : String} {doneAt note : Option String} {lastRunId : Option Int}
    (hkey : ∀ r, (update r).track = r.track ∧ (update r).stage = r.stage) :
    Db.row { db with
      progress := upsert ⟨track.asStr, n.toNat, state, doneAt, lastRunId, note, updatedAt⟩ update db.progress }
        track' n' =
      if track = track' ∧ n = n' then
        some ((db.row track' n').elim ⟨track.asStr, n.toNat, state, doneAt, lastRunId, note, updatedAt⟩ update)
      else db.row track' n' := by
  refine (find_upsert hkey _ _).trans ?_
  have hiff : (track.asStr = track'.asStr ∧ (n.toNat : Int) = n'.toNat) ↔ (track = track' ∧ n = n') := by
    refine and_congr ⟨Track.asStr_injective, congrArg _⟩ ?_
    rw [Int.natCast_inj, UInt32.toNat_inj]
  by_cases h : track = track' ∧ n = n'
  · rw [if_pos h, if_pos (hiff.mpr h)]
    rfl
  · rw [if_neg h, if_neg (mt hiff.mp h)]
    rfl

end

def Db.apply (db : Db) : Entry → Db
  | .ran track n state time runId => db.recordStage track n state time runId
  | .state track n done time => db.setState track n done time
  | .note track n text time => db.setNote track n text time
  | .reset => db.reset

def Standing.mark (s : Standing) (state time : String) : Standing :=
  { s with state, doneAt := if state = "done" then some (s.doneAt.getD time) else none }

section
variable {db : Db} {h : List Entry} {track t : Track} {n m : UInt32} {state time : String} {runId : Int} {done : Bool}
  {text : Option String}

theorem standing_ran : standing ((db.apply (.ran t m state time runId)).row track n) =
    if t = track ∧ m = n then { (standing (db.row track n)).mark state time with lastRunId := some runId }
    else standing (db.row track n) := by
  refine (congrArg standing (row_upsert ?_)).trans ?_
  · exact fun _ => ⟨rfl, rfl⟩
  by_cases hkey : t = track ∧ m = n
  · rw [if_pos hkey, if_pos hkey]
    cases db.row track n with
    | some row => rfl
    | none => simp [standing, Standing.mark, doneTime]
  · rw [if_neg hkey, if_neg hkey]

theorem standing_state : standing ((db.apply (.state t m done time)).row track n) =
    if t = track ∧ m = n then (standing (db.row track n)).mark (if done then "done" else "todo") time
    else standing (db.row track n) := by
  refine (congrArg standing (row_upsert ?_)).trans ?_
  · exact fun _ => ⟨rfl, rfl⟩
  by_cases hkey : t = track ∧ m = n
  · rw [if_pos hkey, if_pos hkey]
    cases db.row track n <;> cases done <;> rfl
  · rw [if_neg hkey, if_neg hkey]

theorem standing_note : standing ((db.apply (.note t m text time)).row track n) =
    if t = track ∧ m = n then { standing (db.row track n) with note := text } else standing (db.row track n) := by
  refine (congrArg standing (row_upsert ?_)).trans ?_
  · exact fun _ => ⟨rfl, rfl⟩
  by_cases hkey : t = track ∧ m = n
  · rw [if_pos hkey, if_pos hkey]
    cases db.row track n <;> rfl
  · rw [if_neg hkey, if_neg hkey]

/-- **One entry**: the table goes on saying what the history says. -/
theorem standing_apply (e : Entry) (hs : standing (db.row track n) = summary track n (sinceReset h)) :
    standing ((db.apply e).row track n) = summary track n (sinceReset (h ++ [e])) := by
  cases e with
  | reset =>
    rw [sinceReset_reset]
    rfl
  | ran t m state time runId =>
    rw [standing_ran, hs, sinceReset_concat Entry.noConfusion]
    by_cases hkey : t = track ∧ m = n
    · simp [hkey, summary, Standing.mark, marks, notes, ranIn, lastState_concat, doneSince_concat]
    · simp [hkey, summary, marks, notes, ranIn]
  | state t m done time =>
    rw [standing_state, hs, sinceReset_concat Entry.noConfusion]
    by_cases hkey : t = track ∧ m = n
    · simp [hkey, summary, Standing.mark, marks, notes, ranIn, lastState_concat, doneSince_concat]
    · simp [hkey, summary, marks, notes, ranIn]
  | note t m text time =>
    rw [standing_note, hs, sinceReset_concat Entry.noConfusion]
    by_cases hkey : t = track ∧ m = n
    · simp [hkey, summary, marks, notes, ranIn]
    · simp [hkey, summary, marks, notes, ranIn]

end

/-! ## Calls and their entries -/

def Db.applyAll (db : Db) (entries : List Entry) : Db := entries.foldl Db.apply db

section
variable {db db' : Db} {c c' : Conn} {track : Track} {n : UInt32}

theorem progress_apply (h : db.progress = db'.progress) (e : Entry) :
    (db.apply e).progress = (db'.apply e).progress := by
  cases e with
  | reset => rfl
  | ran | state | note =>
    unfold Db.apply
    simp only [Db.recordStage, Db.setState, Db.setNote, h]

theorem progress_applyAll (h : db.progress = db'.progress) (entries : List Entry) :
    (db.applyAll entries).progress = (db'.applyAll entries).progress := by
  unfold Db.applyAll
  induction entries generalizing db db' with
  | nil => exact h
  | cons e entries ih => exact ih (progress_apply h e)

theorem row_congr (h : db.progress = db'.progress) : db.row track n = db'.row track n := by
  unfold Db.row
  rw [h]

theorem standing_applyAll {h : List Entry} (entries : List Entry)
    (hs : standing (db.row track n) = summary track n (sinceReset h)) :
    standing ((db.applyAll entries).row track n) = summary track n (sinceReset (h ++ entries)) := by
  unfold Db.applyAll
  induction entries generalizing db h with
  | nil => rwa [List.append_nil]
  | cons e entries ih =>
    rw [List.append_cons]
    exact ih (standing_apply e hs)

/-! ### An ingest -/

def Report.Counted (report : Report) : Prop := ∀ st ∈ report.stages, 0 ≤ st.passed ∧ 0 ≤ st.failed

theorem keeps_insertTests [Host] (runId : Int) (st : Stage) (seq : Int) (tests : List Test) :
    Keeps (fun c => c.db.progress) (insertTests runId st seq tests) := by
  induction tests generalizing seq with
  | nil => exact keeps_pure
  | cons t tests ih =>
    refine keeps_bind (keeps_context fun c r c' h => ?_) fun _ => ih (seq + 1)
    cases r with
    | error e => rw [statement_error h]
    | ok _ =>
      obtain ⟨db, hdb, rfl⟩ := statement_ok h
      split at hdb
      · cases hdb
      · cases hdb
        rfl

theorem insertRun_progress {track : Track} {projectId : Option Int} {report : Report} {args startedAt : String}
    {jsonPath : Option String} {runId : Int}
    (h : insertRun track projectId report args jsonPath startedAt c = some (.ok runId, c')) :
    c'.db.progress = c.db.progress := by
  obtain ⟨db, hdb, rfl⟩ := statement_ok h
  split at hdb
  · cases hdb
    rfl
  · cases hdb

theorem outcome_ok {st : Stage} {o : Option String} (hst : 0 ≤ st.passed ∧ 0 ≤ st.failed)
    (h : st.outcome c = some (.ok o, c')) : c' = c ∧ o = if st.Ran then some st.result else none := by
  obtain ⟨ran, d, hran, hpure⟩ := bind_ok.mp h
  obtain ⟨hsum, rfl⟩ := demand_ok.mp hran
  obtain ⟨rfl, rfl⟩ := pure_ok.mp hpure
  obtain ⟨-, rfl⟩ := Topic.addI64_eq_some.mp hsum
  refine ⟨rfl, ?_⟩
  by_cases hst' : st.Ran
  · have hne : st.passed + st.failed ≠ 0 := by
      rcases hst' with h | h <;> omega
    rw [if_neg hne, if_pos hst']
  · have hzero : st.passed + st.failed = 0 := by
      unfold Stage.Ran at hst'
      omega
    rw [if_pos hzero, if_neg hst']

/-- **The loop over the stages** executes the entries of the report. -/
theorem insertStages_ok [Host] {runId seq : Int} {validate : Bool} {startedAt : String} {stages : List Stage} {u : Unit}
    (hcounted : ∀ st ∈ stages, 0 ≤ st.passed ∧ 0 ≤ st.failed)
    (h : insertStages track runId validate startedAt seq stages c = some (.ok u, c')) :
    c'.db.progress = (c.db.applyAll (if validate then [] else
      (stages.filter fun st => st.Ran).map fun st => .ran track st.stage st.result startedAt runId)).progress := by
  induction stages generalizing c seq with
  | nil =>
    cases h
    cases validate <;> rfl
  | cons st stages ih =>
    have hrest := fun st' hst' => hcounted st' (List.mem_cons_of_mem st hst')
    obtain ⟨seq', c₁, htests, h⟩ := bind_ok.mp h
    have hkept : c₁.db.progress = c.db.progress := keeps_insertTests _ _ _ _ _ _ _ htests
    cases validate with
    | true => rw [ih hrest h, progress_applyAll hkept]; rfl
    | false =>
      obtain ⟨o, c₂, hout, h⟩ := bind_ok.mp h
      obtain ⟨rfl, rfl⟩ := outcome_ok (hcounted st List.mem_cons_self) hout
      by_cases hran : st.Ran
      · rw [if_pos hran] at h
        obtain ⟨_, c₃, hexec, h⟩ := bind_ok.mp h
        have hdb := execute_ok (context_ok.mp hexec)
        have hstep : c₃.db.progress = (c.db.apply (.ran track st.stage st.result startedAt runId)).progress := by
          rw [hdb]
          exact progress_apply hkept (.ran track st.stage st.result startedAt runId)
        rw [ih hrest h, progress_applyAll hstep, List.filter_cons, if_pos (decide_eq_true hran)]
        rfl
      · rw [if_neg hran] at h
        have hskip : (st :: stages).filter (fun st => st.Ran) = stages.filter fun st => st.Ran := by
          rw [List.filter_cons, if_neg (by simpa using hran)]
        rw [ih hrest h, progress_applyAll hkept, hskip]

theorem ingest_ok [Host] {projectId : Option Int} {report : Report} {args startedAt : String} {jsonPath : Option String}
    {runId : Int} (hcounted : report.Counted)
    (h : ingest track projectId report args jsonPath startedAt c = some (.ok runId, c')) :
    c'.db.progress = (c.db.applyAll (report.entries track startedAt runId)).progress := by
  obtain ⟨c₁, c₂, hstart, hbody, hcommit⟩ := transaction_ok h
  obtain ⟨id, c₃, hrun, hbody⟩ := bind_ok.mp hbody
  obtain ⟨_, c₄, hstages, hpure⟩ := bind_ok.mp hbody
  obtain ⟨rfl, rfl⟩ := pure_ok.mp hpure
  have hbefore : c₃.db.progress = c.db.progress := by
    rw [insertRun_progress (context_ok.mp hrun), mark_ok (context_ok.mp hstart)]
  rw [mark_ok (context_ok.mp hcommit), insertStages_ok hcounted hstages, progress_applyAll hbefore]
  rfl

/-! ### The other calls -/

theorem setState_db {done : Bool} {r : Except String StageRow} (hfaults : c.faults = [])
    (h : setState track n done c = some (r, c')) : c'.db = c.db.apply (.state track n done (c.clock c.ticks)) := by
  let c₁ : Conn := { c with ticks := c.ticks + 1 }
  have hexec := execute_sound (g := fun db => db.setState track n done (c.clock c.ticks)) (c := c₁) hfaults
  unfold setState at h
  rw [bind_of_ok (t := c₁) rfl, bind_of_ok (context_ok.mpr hexec)] at h
  exact keeps_stageOrDefault _ _ _ _ _ h

theorem setNote_db {note : Option String} {r : Except String StageRow} (hfaults : c.faults = [])
    (h : setNote track n note c = some (r, c')) : c'.db = c.db.apply (.note track n note (c.clock c.ticks)) := by
  let c₁ : Conn := { c with ticks := c.ticks + 1 }
  have hexec := execute_sound (g := fun db => db.setNote track n note (c.clock c.ticks)) (c := c₁) hfaults
  unfold setNote at h
  rw [bind_of_ok (t := c₁) rfl, bind_of_ok (context_ok.mpr hexec)] at h
  exact keeps_stageOrDefault _ _ _ _ _ h

theorem reset_db {r : Except String Unit} (hfaults : c.faults = []) (h : reset c = some (r, c')) :
    c'.db = c.db.reset := by
  have hrun : reset c = some (.ok (), { c with db := c.db.reset }) := by
    obtain ⟨db, faults, clock, ticks⟩ := c
    cases hfaults
    rfl
  rw [hrun] at h
  cases h
  rfl

/-- **One call** executes its entries. -/
theorem step_progress [Host] {call : Call} {answer : Answer}
    (hcounted : ∀ t p report a j s f, call = .ingest t p report a j s f → report.Counted)
    (h : step c call = some (c', answer)) :
    c'.db.progress = (c.db.applyAll (happened ⟨c, call, answer, c'⟩)).progress := by
  cases call with
  | ingest track projectId report args jsonPath startedAt faults =>
    obtain ⟨⟨r, d⟩, hingest, hr⟩ := Option.map_eq_some_iff.mp h
    cases hr
    cases r with
    | ok runId =>
      have hdb := ingest_ok (hcounted _ _ _ _ _ _ _ rfl) hingest
      exact hdb
    | error e =>
      have hdb := transaction_error hingest
      exact congrArg Db.progress hdb
  | setState track n done =>
    obtain ⟨⟨r, d⟩, hset, hr⟩ := Option.map_eq_some_iff.mp h
    cases hr
    have hdb := setState_db rfl hset
    exact congrArg Db.progress hdb
  | setNote track n note =>
    obtain ⟨⟨r, d⟩, hset, hr⟩ := Option.map_eq_some_iff.mp h
    cases hr
    have hdb := setNote_db rfl hset
    exact congrArg Db.progress hdb
  | reset =>
    rw [step] at h
    obtain ⟨⟨r, d⟩, hreset, hr⟩ := Option.map_eq_some_iff.mp h
    cases hr
    have hdb := reset_db rfl hreset
    exact congrArg Db.progress hdb

end

/-! ## Histories -/

def Call.Counted : Call → Prop
  | .ingest _ _ report _ _ _ _ => report.Counted
  | _ => True

section
variable [Host] {c₀ c : Conn} {es : List (Event Conn Call Answer)} {track : Track} {n : UInt32}

/-- **The table says what the history says.** -/
theorem standing_history (h : Run step c₀ es c) (h₀ : c₀.db = Db.empty) (hcounted : ∀ e ∈ es, e.input.Counted) :
    standing (c.db.row track n) = summary track n (sinceReset (history es)) := by
  induction h with
  | nil =>
    rw [h₀]
    rfl
  | @snoc es c c' call answer hrun hstep ih =>
    have hbefore := ih fun e he => hcounted e (List.mem_append_left _ he)
    have hcall : call.Counted := hcounted _ (List.mem_append_right _ List.mem_cons_self)
    have hprogress := step_progress (fun t p report a j s f hcall' => by subst hcall'; exact hcall) hstep
    have hhistory : history (es ++ [⟨c, call, answer, c'⟩]) = history es ++ happened ⟨c, call, answer, c'⟩ := by
      simp [history]
    rw [row_congr hprogress, hhistory]
    exact standing_applyAll _ hbefore

/-- **The progress table tells the truth about its history.** The time a stage is done at is known exactly when its
state is `done`, and is that of the first of the unbroken run of `done` marks; the state, the note and the run are those
of the last that set them since the last reset; an ingest that fails leaves every table as it was. -/
theorem progress_truthful (h : Run step c₀ es c) (h₀ : c₀.db = Db.empty) (hcounted : ∀ e ∈ es, e.input.Counted)
    (track : Track) (n : UInt32) :
    let now := sinceReset (history es)
    let row := standing (c.db.row track n)
    (row.doneAt.isSome = true ↔ row.state = "done") ∧ row.doneAt = doneSince (marks track n now) ∧
      row.state = lastState (marks track n now) ∧ row.note = (notes track n now).getLast?.join ∧
      row.lastRunId = (ranIn track n now).getLast? ∧
      ∀ e ∈ es, ∀ t p report a j s f message, e.input = .ingest t p report a j s f → e.output = .error message →
        e.after.db = e.before.db := by
  intro now row
  have hrow : row = summary track n now := standing_history h h₀ hcounted
  refine ⟨?_, by rw [hrow]; rfl, by rw [hrow]; rfl, by rw [hrow]; rfl, by rw [hrow]; rfl, ?_⟩
  · rw [hrow]
    exact doneSince_isSome
  · intro e he t p report a j s f message hinput houtput
    have hstep := h.step_of_mem he
    rw [hinput, houtput] at hstep
    obtain ⟨⟨r, d⟩, hingest, hr⟩ := Option.map_eq_some_iff.mp hstep
    cases r with
    | ok runId => cases hr
    | error text =>
      cases hr
      have hdb := transaction_error hingest
      exact hdb

end

/-- A connection to a database nobody has used. -/
def fresh : Conn := ⟨Db.empty, [], fun _ => "2026-09-13T10:00:00Z", 0⟩

def green : Call :=
  .ingest .shell none ⟨"bash", false, [⟨1, "Prompt", "01_prompt.yaml", 1, 0, 0, []⟩], 1, 0, 0, 7⟩ "" none
    "2026-09-13T10:00:00Z" []

theorem green_done : ∃ es c, @Run _ _ _ (@step (Topic.hostOf [])) fresh es c ∧
    (standing (c.db.row .shell 1)).doneAt = some "2026-09-13T10:00:00Z" := by
  let c : Conn := { fresh with
    db := { Db.empty with
      runs := [⟨1, none, "shell", "bash", "2026-09-13T10:00:00Z", 7, 1, 0, 0, "", none⟩]
      progress := [⟨"shell", 1, "done", some "2026-09-13T10:00:00Z", some 1, none, "2026-09-13T10:00:00Z"⟩]
      runSeq := 1 } }
  have hrun : @Run _ _ _ (@step (Topic.hostOf [])) fresh [⟨fresh, green, .ok (some 1), c⟩] c := .snoc .nil rfl
  refine ⟨_, _, hrun, ?_⟩
  refine (@progress_truthful (Topic.hostOf []) _ _ _ hrun rfl ?_ .shell 1).2.1.trans rfl
  exact List.forall_mem_singleton.mpr (List.forall_mem_singleton.mpr (by decide))

end BuildYourOwn.Byo
