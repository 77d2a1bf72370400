import BuildYourOwn.Byo.Api
import BuildYourOwn.Byo.History

/-!
# Requests that are refused

All endpoints but one read only. `POST /api/stages/..` checks and writes one field after the other, each write being a
statement of its own, so what is refused after a write has changed the tables: a note that is no text behind a good
state, or a statement that fails behind a write. `Spared` says of the tables, the failing statements and the fields
that this does not happen.

Headline: `refused_unchanged_iff`.
-/

namespace BuildYourOwn.Byo

open Lib Lib.Action
open Topic (Host Value)

/-! ## Statements to come -/

/-- The statement after `k` others fails. -/
def Conn.Down (c : Conn) (k : Nat) : Prop := (c.faults[k]?.join).isSome

instance (c : Conn) (k : Nat) : Decidable (c.Down k) := inferInstanceAs (Decidable (_ = true))

/-- The stage numbers of a track are `u32`s. -/
def Db.Readable (db : Db) (track : Track) : Prop :=
  ∀ row ∈ db.progress, row.track = track.asStr → 0 ≤ row.stage ∧ row.stage < 2 ^ 32

instance (db : Db) (track : Track) : Decidable (db.Readable track) :=
  List.decidableBAll (fun row : ProgressRow => row.track = track.asStr → 0 ≤ row.stage ∧ row.stage < 2 ^ 32) db.progress

/-- The statement after `k` others reads the stages of a track. -/
def Conn.Reads (c : Conn) (track : Track) (k : Nat) : Prop := ¬ c.Down k ∧ c.db.Readable track

/-- The connection behind `k` statements. -/
def Conn.behind (c : Conn) (k : Nat) : Conn := { c with faults := c.faults.drop k }

/-- The connection behind `k` statements and a look at the clock, with other tables. -/
def Conn.wrote (c : Conn) (k : Nat) (db : Db) : Conn := ⟨db, c.faults.drop k, c.clock, c.ticks + 1⟩

/-! ## When nothing is left behind -/

section
variable (track : Track) (n : UInt32) (before : Db)

def NoteSpared (c : Conn) : Asked (Option String) → Prop
  | .nothing => c.Reads track 0 ∨ c.db = before
  | .wrong => c.db = before
  | .change note =>
    if c.Down 0 then c.db = before
    else c.Reads track 1 ∧ c.Reads track 2 ∨ c.db.setNote track n note (c.clock c.ticks) = before

/-- From the state on. -/
def FieldsSpared (c : Conn) (note : Asked (Option String)) : Asked Bool → Prop
  | .nothing => NoteSpared track n c.db c note
  | .wrong => True
  | .change done =>
    let written := c.db.setState track n done (c.clock c.ticks)
    if c.Down 0 then True
    else if c.Down 1 ∨ ¬ c.db.Readable track then written = c.db
    else NoteSpared track n c.db (c.wrote 2 written) note

end

/-- No check and no statement of the request fails behind a write that has changed the tables. -/
def Spared [Host] (req : Request) (c : Conn) : Prop :=
  ∀ trackId stage, req.method = "POST" → segments req.path = some ["stages", trackId, stage] →
    ∀ track n fields, stageTarget req trackId stage = .ok (track, n, fields) →
      FieldsSpared track n c (askedNote (fields.lookup "note")) (askedState (fields.lookup "state"))

/-! ## What is read -/

section
variable {track : Track} {n : UInt32} {c : Conn} {db : Db}

theorem statement_down {α : Type} {f : Db → Except String (α × Db)} (h : c.Down 0) :
    ∃ e, statement f c = some (.error e, c.behind 1) := by
  obtain ⟨db, faults, clock, ticks⟩ := c
  rcases faults with _ | ⟨e, faults⟩
  · cases h
  · cases e with
    | none => cases h
    | some e => exact ⟨e, rfl⟩

theorem statement_up {α : Type} {f : Db → Except String (α × Db)} (h : ¬ c.Down 0) :
    statement f c = match f c.db with
      | .ok (a, db) => some (.ok a, { c.behind 1 with db })
      | .error e => some (.error e, c.behind 1) := by
  obtain ⟨db, faults, clock, ticks⟩ := c
  rcases faults with _ | ⟨e, faults⟩
  · rfl
  · cases e with
    | none => rfl
    | some e => exact absurd rfl h

variable {row : ProgressRow}

theorem read_ok (h : 0 ≤ row.stage ∧ row.stage < 2 ^ 32) :
    row.read = .ok ⟨UInt32.ofNat row.stage.toNat, row.state, row.doneAt, row.note, row.lastRunId, row.updatedAt⟩ := by
  unfold ProgressRow.read getU32
  rw [if_pos h]
  rfl

theorem read_error (h : ¬ (0 ≤ row.stage ∧ row.stage < 2 ^ 32)) : ∃ e, row.read = .error e := by
  unfold ProgressRow.read getU32
  rw [if_neg h]
  exact ⟨_, rfl⟩

variable {rows : List ProgressRow}

theorem mapM_read_ok (h : ∀ row ∈ rows, 0 ≤ row.stage ∧ row.stage < 2 ^ 32) :
    ∃ out, rows.mapM ProgressRow.read = .ok out ∧ ∀ row ∈ rows, ∃ s ∈ out, row.read = .ok s := by
  induction rows with
  | nil => exact ⟨[], rfl, List.forall_mem_nil _⟩
  | cons row rows ih =>
    obtain ⟨out, hout, hmem⟩ := ih fun r hr => h r (List.mem_cons_of_mem row hr)
    have hrow := read_ok (h row List.mem_cons_self)
    refine ⟨_ :: out, ?_, List.forall_mem_cons.mpr ⟨⟨_, List.mem_cons_self, hrow⟩, fun r hr => ?_⟩⟩
    · rw [List.mapM_cons, hrow, hout]
      rfl
    · obtain ⟨s, hs, hr⟩ := hmem r hr
      exact ⟨s, List.mem_cons_of_mem _ hs, hr⟩

theorem mapM_read_error (h : ¬ ∀ row ∈ rows, 0 ≤ row.stage ∧ row.stage < 2 ^ 32) :
    ∃ e, rows.mapM ProgressRow.read = .error e := by
  induction rows with
  | nil => exact absurd (List.forall_mem_nil _) h
  | cons row rows ih =>
    rw [List.mapM_cons]
    by_cases hrow : 0 ≤ row.stage ∧ row.stage < 2 ^ 32
    · obtain ⟨e, he⟩ := ih fun hrows => h (List.forall_mem_cons.mpr ⟨hrow, hrows⟩)
      rw [read_ok hrow, he]
      exact ⟨e, rfl⟩
    · obtain ⟨e, he⟩ := read_error hrow
      rw [he]
      exact ⟨e, rfl⟩

/-- The rows that `stages` reads, lowest first. -/
def Db.progressOf (db : Db) (track : Track) : List ProgressRow :=
  (db.progress.filter fun row => row.track = track.asStr).mergeSort fun a b => a.stage ≤ b.stage

theorem mem_progressOf : row ∈ db.progressOf track ↔ row ∈ db.progress ∧ row.track = track.asStr := by
  unfold Db.progressOf
  rw [List.mem_mergeSort, List.mem_filter, decide_eq_true_eq]

theorem readable_iff : db.Readable track ↔ ∀ row ∈ db.progressOf track, 0 ≤ row.stage ∧ row.stage < 2 ^ 32 := by
  simp only [mem_progressOf, and_imp]
  exact Iff.rfl

theorem stages_eq : stages track c =
    statement (fun db => ((db.progressOf track).mapM ProgressRow.read).map fun a => (a, db)) c :=
  rfl

theorem stages_reads (h : c.Reads track 0) : ∃ rows, stages track c = some (.ok rows, c.behind 1) ∧
    ∀ row ∈ c.db.progress, row.track = track.asStr → ∃ s ∈ rows, row.read = .ok s := by
  obtain ⟨rows, hrows, hmem⟩ := mapM_read_ok (readable_iff.mp h.2)
  refine ⟨rows, ?_, fun row hrow ht => hmem row (mem_progressOf.mpr ⟨hrow, ht⟩)⟩
  rw [stages_eq, statement_up h.1, hrows]
  rfl

theorem stages_fails (h : ¬ c.Reads track 0) : ∃ e, stages track c = some (.error e, c.behind 1) := by
  rw [stages_eq]
  by_cases hdown : c.Down 0
  · exact statement_down hdown
  · have hread : ¬ c.db.Readable track := fun hread => h ⟨hdown, hread⟩
    obtain ⟨e, he⟩ := mapM_read_error (mt readable_iff.mpr hread)
    rw [statement_up hdown, he]
    exact ⟨e, rfl⟩

theorem stage_reads (h : c.Reads track 0) : ∃ row, stage track n c = some (.ok row, c.behind 1) ∧
    ((∃ r ∈ c.db.progress, r.track = track.asStr ∧ r.stage = n.toNat) → row.isSome) := by
  obtain ⟨rows, hrows, hmem⟩ := stages_reads h
  refine ⟨_, bind_of_ok hrows, ?_⟩
  rintro ⟨r, hr, ht, hn⟩
  obtain ⟨s, hs, hread⟩ := hmem r hr ht
  rw [read_ok (h.2 r hr ht)] at hread
  cases hread
  refine List.find?_isSome.mpr ⟨_, hs, decide_eq_true ?_⟩
  show UInt32.ofNat r.stage.toNat = n
  rw [hn, Int.toNat_natCast, UInt32.ofNat_toNat]

theorem stage_fails (h : ¬ c.Reads track 0) : ∃ e, stage track n c = some (.error e, c.behind 1) := by
  obtain ⟨e, he⟩ := stages_fails h
  exact ⟨e, bind_of_error he⟩

/-! ## What is written -/

structure WritesRow (f : Db → Db) (track : Track) (n : UInt32) (new : ProgressRow)
    (update : ProgressRow → ProgressRow) : Prop where
  key : new.track = track.asStr ∧ new.stage = n.toNat
  keeps : ∀ r, (update r).track = r.track ∧ (update r).stage = r.stage
  writes : ∀ db, f db = { db with progress := upsert new update db.progress }

theorem writesRow_setState (track : Track) (n : UInt32) (done : Bool) (time : String) :
    ∃ new update, WritesRow (fun db => db.setState track n done time) track n new update := by
  refine ⟨_, _, ?_, ?_, fun _ => rfl⟩
  · exact ⟨rfl, rfl⟩
  · exact fun _ => ⟨rfl, rfl⟩

theorem writesRow_setNote (track : Track) (n : UInt32) (note : Option String) (time : String) :
    ∃ new update, WritesRow (fun db => db.setNote track n note time) track n new update := by
  refine ⟨_, _, ?_, ?_, fun _ => rfl⟩
  · exact ⟨rfl, rfl⟩
  · exact fun _ => ⟨rfl, rfl⟩

theorem key_upsert {new : ProgressRow} {update : ProgressRow → ProgressRow}
    (hkey : ∀ r, (update r).track = r.track ∧ (update r).stage = r.stage) (t : String) (m : Int) :
    (∃ r ∈ upsert new update rows, r.track = t ∧ r.stage = m) ↔
      (new.track = t ∧ new.stage = m) ∨ ∃ r ∈ rows, r.track = t ∧ r.stage = m := by
  have hfind := @find_upsert rows new update hkey t m
  have hsome : ∀ l : List ProgressRow,
      (∃ r ∈ l, r.track = t ∧ r.stage = m) ↔ (l.find? fun r => r.track = t ∧ r.stage = m).isSome := by
    intro l
    simp
  rw [hsome, hsome, hfind]
  by_cases hnew : new.track = t ∧ new.stage = m <;> simp [hnew]

variable {f : Db → Db} {new : ProgressRow} {update : ProgressRow → ProgressRow}

theorem WritesRow.present (h : WritesRow f track n new update) :
    ∃ r ∈ (f db).progress, r.track = track.asStr ∧ r.stage = n.toNat := by
  rw [h.writes]
  exact (key_upsert h.keeps _ _).mpr (.inl h.key)

theorem WritesRow.readable (h : WritesRow f track n new update) : (f db).Readable track ↔ db.Readable track := by
  have hlt := n.toNat_lt
  rw [h.writes]
  constructor
  · intro hread r hr ht
    obtain ⟨r', hr', ht', hstage⟩ := (key_upsert h.keeps track.asStr r.stage).mpr (.inr ⟨r, hr, ht, rfl⟩)
    rw [← hstage]
    exact hread r' hr' ht'
  · intro hread r hr ht
    rcases (key_upsert h.keeps track.asStr r.stage).mp ⟨r, hr, ht, rfl⟩ with hnew | ⟨r', hr', ht', hstage⟩
    · rw [← hnew.2, h.key.2]
      omega
    · rw [← hstage]
      exact hread r' hr' ht'

theorem down_wrote {k m : Nat} : (c.wrote k db).Down m ↔ c.Down (k + m) := by
  unfold Conn.Down Conn.wrote
  rw [List.getElem?_drop]

/-- Write a row, and read it: `set_state` and `set_note`. -/
def put (text : String) (f : String → Db → Db) (track : Track) (n : UInt32) : Sql StageRow := do
  let time ← now
  context text (execute (f time))
  stageOrDefault track n

section
variable (text : String) (g : String → Db → Db)

theorem put_down (track : Track) (n : UInt32) (h : c.Down 0) :
    ∃ e d, put text g track n c = some (.error e, d) ∧ d.db = c.db := by
  have hnow : now c = some (.ok (c.clock c.ticks), { c with ticks := c.ticks + 1 }) := rfl
  obtain ⟨e, he⟩ := statement_down (c := { c with ticks := c.ticks + 1 })
    (f := fun db => .ok ((), g (c.clock c.ticks) db)) h
  have hwrite : context text (execute (g (c.clock c.ticks))) { c with ticks := c.ticks + 1 } =
      some (.error s!"{text}: {e}", Conn.behind { c with ticks := c.ticks + 1 } 1) := by
    unfold context execute
    rw [he]
    rfl
  exact ⟨_, Conn.behind { c with ticks := c.ticks + 1 } 1, (bind_of_ok hnow).trans (bind_of_error hwrite), rfl⟩

theorem put_up (h : ¬ c.Down 0) :
    put text g track n c = stageOrDefault track n (c.wrote 1 (g (c.clock c.ticks) c.db)) := by
  have hnow : now c = some (.ok (c.clock c.ticks), { c with ticks := c.ticks + 1 }) := rfl
  have hwrite : context text (execute (g (c.clock c.ticks))) { c with ticks := c.ticks + 1 } =
      some (.ok (), c.wrote 1 (g (c.clock c.ticks) c.db)) := by
    unfold context execute
    rw [statement_up (c := { c with ticks := c.ticks + 1 }) h]
    rfl
  unfold put
  rw [bind_of_ok hnow, bind_of_ok hwrite]

theorem put_fails (hwrites : WritesRow (g (c.clock c.ticks)) track n new update) (h : ¬ c.Down 0)
    (hread : c.Down 1 ∨ ¬ c.db.Readable track) :
    ∃ e d, put text g track n c = some (.error e, d) ∧ d.db = g (c.clock c.ticks) c.db := by
  have hreads : ¬ (c.wrote 1 (g (c.clock c.ticks) c.db)).Reads track 0 := by
    rintro ⟨hup, hreadable⟩
    rcases hread with hdown | hread
    · exact hup (down_wrote.mpr hdown)
    · exact hread (hwrites.readable.mp hreadable)
  obtain ⟨e, he⟩ := stage_fails (n := n) hreads
  exact ⟨e, _, (put_up text g h).trans (bind_of_error he), rfl⟩

theorem put_ok (hwrites : WritesRow (g (c.clock c.ticks)) track n new update) (h : ¬ c.Down 0)
    (hread : ¬ (c.Down 1 ∨ ¬ c.db.Readable track)) :
    ∃ row, put text g track n c = some (.ok row, c.wrote 2 (g (c.clock c.ticks) c.db)) := by
  obtain ⟨hup, hreadable⟩ := not_or.mp hread
  have hreads : (c.wrote 1 (g (c.clock c.ticks) c.db)).Reads track 0 :=
    ⟨mt down_wrote.mp hup, hwrites.readable.mpr (not_not.mp hreadable)⟩
  obtain ⟨row, hrow, hsome⟩ := stage_reads (n := n) hreads
  obtain ⟨row, rfl⟩ := Option.isSome_iff_exists.mp (hsome hwrites.present)
  have hbehind : (c.wrote 1 (g (c.clock c.ticks) c.db)).behind 1 = c.wrote 2 (g (c.clock c.ticks) c.db) := by
    unfold Conn.behind Conn.wrote
    rw [List.drop_drop]
  rw [hbehind] at hrow
  exact ⟨row, (put_up text g h).trans (bind_of_ok hrow)⟩

end

/-! ## What is refused -/

variable {before : Db} {x : Sql Response}

def Refused : Except String Response → Prop
  | .ok r => 400 ≤ r.status
  | .error _ => True

/-- Where it is refused the tables are those of before. -/
def Leaves (before : Db) (x : Sql Response) (c : Conn) : Prop := ∀ r d, x c = some (r, d) → Refused r → d.db = before

variable {d : Conn}

theorem leaves_iff {r : Except String Response} (h : x c = some (r, d)) :
    Leaves before x c ↔ (Refused r → d.db = before) := by
  constructor
  · intro hx
    exact hx r d h
  · intro hr r' d' h'
    rw [h] at h'
    cases h'
    exact hr

theorem leaves_error {e : String} (h : x c = some (.error e, d)) : Leaves before x c ↔ d.db = before :=
  (leaves_iff h).trans (forall_prop_of_true trivial)

theorem leaves_refused {r : Response} (h : x c = some (.ok r, d)) (hr : 400 ≤ r.status) :
    Leaves before x c ↔ d.db = before :=
  (leaves_iff h).trans (forall_prop_of_true hr)

theorem leaves_of_eq {y : Sql Response} (h : x c = y d) : Leaves before x c ↔ Leaves before y d := by
  unfold Leaves
  rw [h]

theorem leaves_of_keeps (h : Keeps Conn.db x) : Leaves c.db x c := fun r d hx _ => h c r d hx

variable [Host]

theorem leaves_row : Leaves before (postedRow track n) c ↔ c.Reads track 0 ∨ c.db = before := by
  by_cases hreads : c.Reads track 0
  · obtain ⟨row, hrow, -⟩ := stage_reads (n := n) hreads
    refine ⟨fun _ => .inl hreads, fun _ => ?_⟩
    cases row with
    | some row =>
      refine (leaves_iff (bind_of_ok hrow)).mpr fun hr => ?_
      exact absurd hr (by decide : ¬ 400 ≤ 200)
    | none =>
      refine (leaves_iff (bind_of_ok hrow)).mpr fun hr => ?_
      exact absurd hr (by decide : ¬ 400 ≤ 200)
  · obtain ⟨e, he⟩ := stage_fails (n := n) hreads
    exact (leaves_error (bind_of_error he)).trans (or_iff_right hreads).symm

theorem leaves_rest (note : Asked (Option String)) :
    Leaves before (postRest track n note) c ↔ NoteSpared track n before c note := by
  cases note with
  | nothing => exact leaves_row
  | wrong => exact leaves_refused (d := c) rfl (by decide : 400 ≤ 400)
  | change note =>
    obtain ⟨new, update, hwrites⟩ := writesRow_setNote track n note (c.clock c.ticks)
    simp only [NoteSpared]
    by_cases hdown : c.Down 0
    · obtain ⟨e, d, he, hd⟩ := put_down "cannot write the note"
        (fun time db => db.setNote track n note time) track n hdown
      rw [if_pos hdown, ← hd]
      exact leaves_error (bind_of_error (bind_of_error he))
    · rw [if_neg hdown]
      by_cases hread : c.Down 1 ∨ ¬ c.db.Readable track
      · obtain ⟨e, d, he, hd⟩ := put_fails "cannot write the note"
          (fun time db => db.setNote track n note time) hwrites hdown hread
        have hreads : ¬ (c.Reads track 1 ∧ c.Reads track 2) := fun h => hread.elim h.1.1 fun h' => h' h.1.2
        rw [or_iff_right hreads, ← hd]
        exact leaves_error (bind_of_error (bind_of_error he))
      · obtain ⟨row, hrow⟩ := put_ok "cannot write the note"
          (fun time db => db.setNote track n note time) hwrites hdown hread
        obtain ⟨hup, hreadable⟩ := not_or.mp hread
        have hone : c.Reads track 1 := ⟨hup, not_not.mp hreadable⟩
        have htwo : (c.wrote 2 (c.db.setNote track n note (c.clock c.ticks))).Reads track 0 ↔ c.Reads track 2 :=
          and_congr (not_congr down_wrote) hwrites.readable
        rw [and_iff_right hone, ← htwo]
        exact (leaves_of_eq ((bind_of_ok (bind_of_ok hrow)).trans rfl)).trans leaves_row

theorem leaves_fields (fields : List (String × Value)) : Leaves c.db (postFields track n fields) c ↔
    FieldsSpared track n c (askedNote (fields.lookup "note")) (askedState (fields.lookup "state")) := by
  unfold postFields
  cases askedState (fields.lookup "state") with
  | nothing => exact leaves_rest _
  | wrong => exact (leaves_refused (d := c) rfl (by decide : 400 ≤ 400)).trans (iff_true_intro rfl)
  | change done =>
    obtain ⟨new, update, hwrites⟩ := writesRow_setState track n done (c.clock c.ticks)
    simp only [FieldsSpared]
    by_cases hdown : c.Down 0
    · obtain ⟨e, d, he, hd⟩ := put_down "cannot update the stage"
        (fun time db => db.setState track n done time) track n hdown
      rw [if_pos hdown]
      exact (leaves_error (bind_of_error (bind_of_error he))).trans (iff_true_intro hd)
    · rw [if_neg hdown]
      by_cases hread : c.Down 1 ∨ ¬ c.db.Readable track
      · obtain ⟨e, d, he, hd⟩ := put_fails "cannot update the stage"
          (fun time db => db.setState track n done time) hwrites hdown hread
        rw [if_pos hread, ← hd]
        exact leaves_error (bind_of_error (bind_of_error he))
      · obtain ⟨row, hrow⟩ := put_ok "cannot update the stage"
          (fun time db => db.setState track n done time) hwrites hdown hread
        rw [if_neg hread]
        exact (leaves_of_eq ((bind_of_ok (bind_of_ok hrow)).trans rfl)).trans (leaves_rest _)

/-! ## One row -/

/-- The tables without the row of a stage. -/
def Db.others (track : Track) (n : UInt32) (db : Db) : Db :=
  { db with progress := db.progress.filter fun row => ¬ (row.track = track.asStr ∧ row.stage = n.toNat) }

omit [Host] in
theorem WritesRow.others (h : WritesRow f track n new update) : (f db).others track n = db.others track n := by
  rw [h.writes]
  refine congrArg (fun progress => { db with progress }) ?_
  induction db.progress with
  | nil => simp [upsert, h.key]
  | cons row rows ih =>
    unfold upsert
    split
    · rename_i hrow
      rw [h.key.1, h.key.2] at hrow
      simp [h.keeps, hrow]
    · simp only [List.filter_cons, ih]

omit [Host] in
theorem keeps_field {text : String} {g : String → Db → Db}
    (h : ∀ time, ∃ new update, WritesRow (g time) track n new update) (hx : Keeps (Db.others track n ∘ Conn.db) x) :
    Keeps (Db.others track n ∘ Conn.db) (do
      match ← (do let _ ← put text g track n; pure none) with
      | some refused => pure refused
      | none => x) := by
  have hput : Keeps (Db.others track n ∘ Conn.db) (put text g track n) := by
    refine keeps_bind (keeps_now.comp _) fun time => keeps_bind (keeps_context fun c r c' hrun => ?_) fun _ =>
      (keeps_stageOrDefault track n).comp _
    cases r with
    | ok _ =>
      obtain ⟨new, update, hwrites⟩ := h time
      rw [execute_ok hrun]
      exact hwrites.others
    | error e => exact congrArg (Db.others track n) (statement_error hrun)
  refine keeps_bind (keeps_bind hput fun _ => keeps_pure) fun refused => ?_
  cases refused with
  | some r => exact keeps_pure
  | none => exact hx

theorem keeps_postFields (fields : List (String × Value)) :
    Keeps (Db.others track n ∘ Conn.db) (postFields track n fields) := by
  have hrow : Keeps Conn.db (postedRow track n) := by
    refine keeps_bind (keeps_stage track n) fun row => ?_
    cases row with
    | some row => exact keeps_pure
    | none => exact keeps_bind keeps_now fun _ => keeps_pure
  have hrest (note : Asked (Option String)) : Keeps (Db.others track n ∘ Conn.db) (postRest track n note) := by
    cases note with
    | nothing => exact hrow.comp _
    | wrong => exact keeps_pure
    | change text => exact keeps_field (writesRow_setNote track n text) (hrow.comp _)
  unfold postFields
  cases askedState (fields.lookup "state") with
  | nothing => exact hrest _
  | wrong => exact keeps_pure
  | change done => exact keeps_field (writesRow_setState track n done) (hrest _)

variable [Calendar] {ctx : Ctx} {req : Request}

theorem leaves_handle {seg : List String} (hseg : segments req.path = some seg) :
    (∀ r c', handle ctx req c = some (.ok (some r), c') → 400 ≤ r.status → c'.db = c.db) ↔
      Leaves c.db (dispatch ctx req seg) c := by
  have hhandle : handle ctx req c = (attempt (dispatch ctx req seg) >>= fun r => match r with
      | .ok r => pure (some r)
      | .error e => pure (some (Response.error 500 e))) c := by
    unfold handle
    generalize segments req.path = found at hseg
    subst hseg
    rfl
  rw [hhandle]
  constructor
  · intro h r d hrun hr
    have hattempt : attempt (dispatch ctx req seg) c = some (.ok r, d) := by
      unfold attempt
      rw [hrun]
      rfl
    cases r with
    | ok r => exact h r d (bind_of_ok hattempt) hr
    | error e => exact h (Response.error 500 e) d (bind_of_ok hattempt) (by decide : 400 ≤ 500)
  · intro h r c' hrun hr
    obtain ⟨q, d, hattempt, hrest⟩ := bind_ok.mp hrun
    obtain ⟨⟨q', d'⟩, hdispatch, hq⟩ := Option.map_eq_some_iff.mp hattempt
    cases hq
    cases q' with
    | ok q =>
      cases hrest
      exact h _ _ hdispatch hr
    | error e =>
      cases hrest
      exact h _ _ hdispatch trivial

/-- **A refused request changes nothing** exactly when no check and no statement of it fails behind a write that has
changed the tables. -/
theorem refused_unchanged_iff :
    (∀ r c', handle ctx req c = some (.ok (some r), c') → 400 ≤ r.status → c'.db = c.db) ↔ Spared req c := by
  cases hseg : segments req.path with
  | none =>
    refine iff_of_true (fun r c' h => ?_) fun trackId stage _ hpath => ?_
    · unfold handle at h
      rw [hseg] at h
      cases h
    · rw [hseg] at hpath
      cases hpath
  | some seg =>
    rw [leaves_handle hseg]
    by_cases hpost : ∃ trackId stage, req.method = "POST" ∧ seg = ["stages", trackId, stage]
    · obtain ⟨trackId, stage, hmethod, rfl⟩ := hpost
      have hdispatch : dispatch ctx req ["stages", trackId, stage] = postStage req trackId stage := by
        unfold dispatch
        rw [hmethod]
        rfl
      rw [hdispatch]
      unfold postStage
      cases htarget : stageTarget req trackId stage with
      | error refused =>
        refine iff_of_true (leaves_of_keeps keeps_pure) fun trackId' stage' _ hpath track n fields htarget' => ?_
        rw [hseg] at hpath
        cases hpath
        rw [htarget] at htarget'
        cases htarget'
      | ok target =>
        obtain ⟨track, n, fields⟩ := target
        refine (leaves_fields fields).trans
          ⟨fun h trackId' stage' _ hpath track' n' fields' htarget' => ?_, fun h => ?_⟩
        · rw [hseg] at hpath
          cases hpath
          rw [htarget] at htarget'
          cases htarget'
          exact h
        · exact h trackId stage hmethod hseg track n fields htarget
    · have hkeeps : Keeps Conn.db (dispatch ctx req seg) := (dispatch_reads seg).resolve_left hpost
      refine iff_of_true (leaves_of_keeps hkeeps) fun trackId stage hmethod hpath => ?_
      rw [hseg] at hpath
      cases hpath
      exact absurd ⟨trackId, stage, hmethod, rfl⟩ hpost

/-- **One row**: no table but `progress`, and of that no row but the one a well-formed POST names. -/
theorem handle_writes : Keeps Conn.db (handle ctx req) ∨ ∃ trackId stage track n fields, req.method = "POST" ∧
    segments req.path = some ["stages", trackId, stage] ∧ stageTarget req trackId stage = .ok (track, n, fields) ∧
    Keeps (Db.others track n ∘ Conn.db) (handle ctx req) := by
  have hcatch {γ : Type} {f : Conn → γ} {seg : List String} (hseg : segments req.path = some seg)
      (h : Keeps f (dispatch ctx req seg)) : Keeps f (handle ctx req) := by
    unfold handle
    rw [hseg]
    refine keeps_bind (fun c r c' hrun => ?_) fun r => by cases r <;> exact keeps_pure
    obtain ⟨⟨r', d⟩, hr, heq⟩ := Option.map_eq_some_iff.mp hrun
    cases heq
    exact h _ _ _ hr
  cases hseg : segments req.path with
  | none =>
    unfold handle
    rw [hseg]
    exact .inl keeps_pure
  | some seg =>
    rcases dispatch_reads seg with ⟨trackId, stage, hmethod, rfl⟩ | hreads
    · have hpost : dispatch ctx req ["stages", trackId, stage] = postStage req trackId stage := by
        unfold dispatch
        rw [hmethod]
        rfl
      unfold postStage at hpost
      cases htarget : stageTarget req trackId stage with
      | error refused =>
        rw [htarget] at hpost
        exact .inl (hcatch hseg (hpost ▸ keeps_pure))
      | ok target =>
        obtain ⟨track, n, fields⟩ := target
        rw [htarget] at hpost
        exact .inr ⟨_, _, track, n, fields, hmethod, rfl, htarget, hcatch hseg (hpost ▸ keeps_postFields fields)⟩
    · exact .inl (hcatch hseg hreads)

end

/-! ## A good state and a bad note -/

/-- `serde_json`, of one body. -/
@[reducible] def oneBody : Host :=
  Topic.hostOf [("\x7b\"state\":\"done\",\"note\":5\x7d", .obj [("state", .str "done"), ("note", .num 5)])]

/-- A machine with nothing on it. -/
def bareCtx : Ctx := ⟨"0.1.0", "", "", fun _ => none, fun _ => false, fun _ => "", fun _ => false, fun _ => none⟩

@[reducible] def noDays : Calendar := ⟨fun _ => none⟩

def badNote : Request := ⟨"POST", "/api/stages/shell/1", [], "\x7b\"state\":\"done\",\"note\":5\x7d"⟩

theorem badNote_changes : ∃ r c', @handle oneBody noDays bareCtx badNote fresh = some (.ok (some r), c') ∧
    r.status = 400 ∧ c'.db ≠ fresh.db := by
  obtain ⟨new, update, hwrites⟩ := writesRow_setState .shell 1 true "2026-09-13T10:00:00Z"
  obtain ⟨row, hrow⟩ := put_ok (c := fresh) "cannot update the stage"
    (fun time db => db.setState .shell 1 true time) hwrites (by decide) (by decide)
  have hpost : @postFields oneBody .shell 1 [("state", .str "done"), ("note", .num 5)] fresh =
      some (.ok (@Response.error oneBody 400 "note must be a string or null"),
        fresh.wrote 2 (fresh.db.setState .shell 1 true "2026-09-13T10:00:00Z")) :=
    (bind_of_ok (bind_of_ok hrow)).trans rfl
  have hsegments : segments badNote.path = some ["stages", "shell", "1"] := by decide
  have htarget : @stageTarget oneBody badNote "shell" "1" =
      .ok (.shell, 1, [("state", .str "done"), ("note", .num 5)]) := rfl
  have hdispatch : @dispatch oneBody noDays bareCtx badNote ["stages", "shell", "1"] fresh =
      @postFields oneBody .shell 1 [("state", .str "done"), ("note", .num 5)] fresh := by
    show @postStage oneBody badNote "shell" "1" fresh = _
    unfold postStage
    rw [htarget]
  refine ⟨@Response.error oneBody 400 "note must be a string or null",
    fresh.wrote 2 (fresh.db.setState .shell 1 true "2026-09-13T10:00:00Z"), ?_, rfl, ?_⟩
  · have hattempt : attempt (@dispatch oneBody noDays bareCtx badNote ["stages", "shell", "1"]) fresh = some
        (.ok (.ok (@Response.error oneBody 400 "note must be a string or null")),
          fresh.wrote 2 (fresh.db.setState .shell 1 true "2026-09-13T10:00:00Z")) := by
      unfold attempt
      rw [hdispatch, hpost]
      rfl
    unfold handle
    rw [hsegments]
    exact (bind_of_ok hattempt).trans rfl
  · decide

end BuildYourOwn.Byo
