import BuildYourOwn.Byo.Journey
import BuildYourOwn.Byo.Refused

/-!
# Writes that settle

`setStage` shows a guess, asks the server, and puts the answer on display or, where the request failed, what it had
found on display when it was sent. That may be the guess of another call or a note being typed, and an answer may come
after one that is newer. `origins` follows back where the row on display comes from: from the server, behind a number
of requests (`some k`), or from nowhere but this page (`none`).

Headline: `settles`.
-/

namespace BuildYourOwn.Byo

open Lib Lib.Action
open Topic (Host Value)

/-! ## One stage, its row on the server and on display -/

structure Sent where
  body : StageBody
  before : Option ApiStageRow

structure Desk where
  store : JourneyStore
  server : Db
  /-- The note that will be sent after the pause. -/
  draft : Option String
  sent : List Sent
  replies : List (Option ApiStageRow)
  settled : List Nat

/-- What happens at the desk. -/
inductive Act where
  | type (notes now : String)
  | pause (now : String)
  | set (body : StageBody) (now : String)
  /-- The server handles the next request, or the request fails. -/
  | handle (applied : Bool) (time time' : String)
  | arrive (call : Nat)

/-- What `post_stage` makes of the tables. -/
def Db.post (db : Db) (track : Track) (n : UInt32) (body : StageBody) (time time' : String) : Db :=
  let db := match body.state with
    | some done => db.setState track n done time
    | none => db
  match body.note with
  | some text => db.setNote track n (if text = "" then none else some text) time'
  | none => db

def Db.apiRow (db : Db) (track : Track) (n : UInt32) : Option ApiStageRow :=
  (db.row track n).map fun row => normalizeStageRow ⟨n, row.state, row.doneAt, row.note, row.lastRunId, row.updatedAt⟩

namespace Desk

variable (track : Track) (n : UInt32)

/-- What a request is answered; a stage without a row is `todo`. -/
def answer (server : Db) (time : String) : ApiStageRow :=
  (server.apiRow track n).getD ⟨"todo", none, none, none, some time⟩

def send (d : Desk) (body : StageBody) (now : String) : Desk :=
  { d with
    store := d.store.startStage track n body now
    sent := d.sent ++ [⟨body, d.store.stageRow track n⟩] }

def step (d : Desk) : Act → Option (Desk × Unit)
  | .type notes now =>
    if d.store.connected then some ({ d with store := d.store.typeNotes track n notes now, draft := some notes }, ())
    else none
  | .pause now => d.draft.map fun notes => ({ d.send track n ⟨none, some notes⟩ now with draft := none }, ())
  | .set body now => some (d.send track n body now, ())
  | .handle applied time time' =>
    (d.sent[d.replies.length]?).map fun call =>
      if applied then
        let server := d.server.post track n call.body time time'
        ({ d with server, replies := d.replies ++ [some (answer track n server time')] }, ())
      else ({ d with replies := d.replies ++ [none] }, ())
  | .arrive i =>
    if i ∈ d.settled then none
    else match d.sent[i]?, d.replies[i]? with
      | some _, some (some row) =>
        some ({ d with store := d.store.endStage track n row, settled := i :: d.settled }, ())
      | some call, some none =>
        some ({ d with store := d.store.undoStage track n call.before, settled := i :: d.settled }, ())
      | _, _ => none

end Desk

/-! ## Where the row on display comes from -/

/-- From the server behind so many requests, or from this page: the row on display, and what each call had found; and
which requests were applied. -/
structure Origins where
  shown : Option Nat
  found : List (Option Nat)
  applied : List Bool

def Origins.after (o : Origins) : Act → Origins
  | .type .. => { o with shown := none }
  | .pause .. | .set .. => { o with shown := none, found := o.found ++ [o.shown] }
  | .handle applied .. => { o with applied := o.applied ++ [applied] }
  | .arrive i =>
    match o.applied[i]? with
    | some true => { o with shown := some (i + 1) }
    | some false => { o with shown := o.found[i]?.join }
    | none => o

def origins (acts : List Act) : Origins := acts.foldl Origins.after ⟨some 0, [], []⟩

/-- The row as it is read: a stage without one is `todo`. -/
def face (row : Option ApiStageRow) : Standing :=
  ⟨(row.map ApiStageRow.state).getD "todo", row.bind ApiStageRow.doneAt, row.bind ApiStageRow.note,
    row.bind ApiStageRow.lastRunId⟩

abbrev Moment := Event Desk Act Unit

/-- The requests that the server handled. -/
def served (es : List Moment) : List Moment :=
  es.filter fun e => match e.input with
    | .handle .. => true
    | _ => false

section
variable (track : Track) (n : UInt32)

/-- A request left the row on the server alone: it failed, or it wrote what was there. -/
def Idle (e : Moment) : Prop := face (e.after.server.apiRow track n) = face (e.before.server.apiRow track n)

/-- The row on display comes from the server, and no request handled since then has changed it there. -/
def FromServer (es : List Moment) : Prop :=
  ∃ k, (origins (es.map Event.input)).shown = some k ∧ ∀ e ∈ (served es).drop k, Idle track n e

end

/-! ## The faces the server had -/

/-- `faces` are those of the server's row behind 0, 1, .. requests, which were `hs`. -/
structure Traced (track : Track) (n : UInt32) (hs : List Moment) (o : Origins) (d : Desk) (faces : List Standing) :
    Prop where
  length : faces.length = o.applied.length + 1
  last : faces[o.applied.length]? = some (face (d.server.apiRow track n))
  handled : hs.length = o.applied.length
  moves : ∀ (i : Nat) e, hs[i]? = some e → faces[i]? = some (face (e.before.server.apiRow track n)) ∧
    faces[i + 1]? = some (face (e.after.server.apiRow track n))
  replies : d.replies.length = o.applied.length
  row : ∀ (i : Nat) row, d.replies[i]? = some (some row) →
    o.applied[i]? = some true ∧ faces[i + 1]? = some (face (some row))
  failed : ∀ i : Nat, d.replies[i]? = some none → o.applied[i]? = some false
  sent : d.sent.length = o.found.length
  found : ∀ (i k : Nat), o.found[i]? = some (some k) → ∀ call ∈ d.sent[i]?, faces[k]? = some (face call.before)
  shown : ∀ k, o.shown = some k → faces[k]? = some (face (d.store.stageRow track n))

section
variable {track : Track} {n : UInt32} {hs : List Moment} {o : Origins} {d d' : Desk} {faces : List Standing}

theorem getElem?_snoc {α : Type} {l : List α} {a b : α} {i : Nat} :
    (l ++ [a])[i]? = some b ↔ l[i]? = some b ∨ i = l.length ∧ a = b := by
  rcases Nat.lt_trichotomy i l.length with hi | rfl | hi
  · rw [List.getElem?_append_left hi]
    exact ⟨.inl, fun h => h.resolve_right fun h => absurd h.1 (Nat.ne_of_lt hi)⟩
  · rw [List.getElem?_concat_length, List.getElem?_eq_none (Nat.le_refl _)]
    simp
  · rw [List.getElem?_eq_none (by simp; omega), List.getElem?_eq_none (Nat.le_of_lt hi)]
    simp
    omega

theorem Traced.guess (h : Traced track n hs o d faces) (store : JourneyStore) (draft : Option String) :
    Traced track n hs { o with shown := none } { d with store, draft } faces :=
  { h with shown := fun _ hk => nomatch hk }

theorem Traced.send (h : Traced track n hs o d faces) (body : StageBody) (now : String) :
    Traced track n hs { o with shown := none, found := o.found ++ [o.shown] } (d.send track n body now) faces where
  length := h.length
  last := h.last
  handled := h.handled
  moves := h.moves
  replies := h.replies
  row := h.row
  failed := h.failed
  sent := by
    show (d.sent ++ [_]).length = _
    rw [List.length_append, List.length_append, h.sent]
    rfl
  found := fun i k hi call hcall => by
    rcases getElem?_snoc.mp hi with hi | ⟨rfl, hk⟩
    · rcases getElem?_snoc.mp hcall with hcall | ⟨rfl, -⟩
      · exact h.found i k hi call hcall
      · rw [List.getElem?_eq_none (Nat.le_of_eq h.sent.symm)] at hi
        cases hi
    · rcases getElem?_snoc.mp hcall with hcall | ⟨-, rfl⟩
      · rw [List.getElem?_eq_none (Nat.le_of_eq h.sent)] at hcall
        cases hcall
      · exact h.shown k hk
  shown := fun _ hk => nomatch hk

theorem face_answer {server : Db} {time : String} :
    face (some (Desk.answer track n server time)) = face (server.apiRow track n) := by
  unfold Desk.answer
  cases server.apiRow track n <;> rfl

theorem Traced.handle (h : Traced track n hs o d faces) {e : Moment} {applied : Bool} {reply : Option ApiStageRow}
    (hbefore : e.before = d) (hafter : e.after = { d with server := e.after.server, replies := d.replies ++ [reply] })
    (hfailed : applied = false → reply = none)
    (happlied : applied = true → ∃ row, reply = some row ∧ face (some row) = face (e.after.server.apiRow track n)) :
    Traced track n (hs ++ [e]) { o with applied := o.applied ++ [applied] } e.after
      (faces ++ [face (e.after.server.apiRow track n)]) where
  length := by simp [h.length]
  last := by
    have hlength : (o.applied ++ [applied]).length = faces.length := by simp [h.length]
    rw [hlength]
    exact List.getElem?_concat_length
  handled := by simp [h.handled]
  moves := fun i e' hi => by
    rcases getElem?_snoc.mp hi with hi | ⟨rfl, rfl⟩
    · obtain ⟨hfrom, hto⟩ := h.moves i e' hi
      exact ⟨getElem?_snoc.mpr (.inl hfrom), getElem?_snoc.mpr (.inl hto)⟩
    · rw [hbefore, h.handled]
      exact ⟨getElem?_snoc.mpr (.inl h.last), getElem?_snoc.mpr (.inr ⟨h.length.symm, rfl⟩)⟩
  replies := by
    rw [hafter]
    simp [h.replies]
  row := fun i row hi => by
    rw [hafter] at hi
    rcases getElem?_snoc.mp hi with hi | ⟨rfl, hreply⟩
    · obtain ⟨hdone, hface⟩ := h.row i row hi
      exact ⟨getElem?_snoc.mpr (.inl hdone), getElem?_snoc.mpr (.inl hface)⟩
    · cases applied with
      | false => exact nomatch (hfailed rfl).symm.trans hreply
      | true =>
        obtain ⟨row', hrow', hface⟩ := happlied rfl
        cases hrow'.symm.trans hreply
        rw [hface]
        exact ⟨getElem?_snoc.mpr (.inr ⟨h.replies, rfl⟩), getElem?_snoc.mpr (.inr ⟨by rw [h.replies, h.length], rfl⟩)⟩
  failed := fun i hi => by
    rw [hafter] at hi
    rcases getElem?_snoc.mp hi with hi | ⟨rfl, hreply⟩
    · exact getElem?_snoc.mpr (.inl (h.failed i hi))
    · cases applied with
      | false => exact getElem?_snoc.mpr (.inr ⟨h.replies, rfl⟩)
      | true =>
        obtain ⟨row', hrow', -⟩ := happlied rfl
        cases hrow'.symm.trans hreply
  sent := by
    rw [hafter]
    exact h.sent
  found := fun i k hi call hcall => by
    rw [hafter] at hcall
    exact getElem?_snoc.mpr (.inl (h.found i k hi call hcall))
  shown := fun k hk => by
    rw [hafter]
    exact getElem?_snoc.mpr (.inl (h.shown k hk))

theorem Traced.display (h : Traced track n hs o d faces) {store : JourneyStore} {settled : List Nat}
    {shown : Option Nat} (hshown : ∀ k, shown = some k → faces[k]? = some (face (store.stageRow track n))) :
    Traced track n hs { o with shown } { d with store, settled } faces :=
  { h with shown := hshown }

theorem Traced.step (h : Traced track n hs o d faces) {act : Act} (hstep : d.step track n act = some (d', ())) :
    ∃ faces', Traced track n (hs ++ served [⟨d, act, (), d'⟩]) (o.after act) d' faces' := by
  cases act with
  | type notes now =>
    simp only [Desk.step] at hstep
    split at hstep
    · cases hstep
      exact ⟨faces, (List.append_nil hs).symm ▸ h.guess _ _⟩
    · cases hstep
  | pause now =>
    obtain ⟨notes, -, hd⟩ := Option.map_eq_some_iff.mp hstep
    cases hd
    exact ⟨faces, (List.append_nil hs).symm ▸ { h.send ⟨none, some notes⟩ now with }⟩
  | set body now =>
    cases hstep
    exact ⟨faces, (List.append_nil hs).symm ▸ h.send body now⟩
  | handle applied time time' =>
    obtain ⟨call, -, hd⟩ := Option.map_eq_some_iff.mp hstep
    cases applied with
    | false =>
      cases hd
      exact ⟨_, h.handle rfl rfl (fun _ => rfl) fun h => nomatch h⟩
    | true =>
      cases hd
      exact ⟨_, h.handle rfl rfl (fun h => nomatch h) fun _ => ⟨_, rfl, face_answer⟩⟩
  | arrive i =>
    simp only [Desk.step] at hstep
    split at hstep
    · cases hstep
    · split at hstep
      · next call row hsent hreply =>
        cases hstep
        obtain ⟨hdone, hface⟩ := h.row i row hreply
        refine ⟨faces, (List.append_nil hs).symm ▸ ?_⟩
        simp only [Origins.after, hdone]
        refine h.display fun k hk => ?_
        cases hk
        rw [JourneyStore.stageRow_endStage]
        exact hface
      · next call hsent hreply =>
        cases hstep
        refine ⟨faces, (List.append_nil hs).symm ▸ ?_⟩
        simp only [Origins.after, h.failed i hreply]
        refine h.display fun k hk => ?_
        rw [JourneyStore.stageRow_undoStage]
        exact h.found i k (Option.join_eq_some_iff.mp hk) call hsent
      · cases hstep

structure Desk.Fresh (track : Track) (n : UInt32) (d : Desk) : Prop where
  shown : face (d.store.stageRow track n) = face (d.server.apiRow track n)
  sent : d.sent = []
  replies : d.replies = []

theorem traced_fresh (h : d.Fresh track n) : Traced track n [] (origins []) d [face (d.server.apiRow track n)] where
  length := rfl
  last := rfl
  handled := rfl
  moves := fun i e hi => by cases hi
  replies := congrArg List.length h.replies
  row := fun i row hi => by
    rw [h.replies] at hi
    cases hi
  failed := fun i hi => by
    rw [h.replies] at hi
    cases hi
  sent := congrArg List.length h.sent
  found := fun i k hi => by cases hi
  shown := fun k hk => by
    cases hk
    exact congrArg some h.shown.symm

theorem traced_run {d₀ : Desk} {es : List Moment} (h : Run (Desk.step track n) d₀ es d) (h₀ : d₀.Fresh track n) :
    ∃ faces, Traced track n (served es) (origins (es.map Event.input)) d faces := by
  induction h with
  | nil => exact ⟨_, traced_fresh h₀⟩
  | snoc _ hs ih =>
    obtain ⟨faces, htraced⟩ := ih
    obtain ⟨faces', htraced'⟩ := htraced.step hs
    refine ⟨faces', ?_⟩
    unfold origins served
    rw [List.map_append, List.foldl_append, List.filter_append]
    exact htraced'

/-- Nothing has changed the row behind `k` requests. -/
theorem Traced.face_eq (h : Traced track n hs o d faces) {k : Nat} {x : Standing} (hk : faces[k]? = some x)
    (hidle : ∀ e ∈ hs.drop k, Idle track n e) : x = face (d.server.apiRow track n) := by
  have hrest : ∀ m, k + m ≤ hs.length → faces[k + m]? = some x := by
    intro m
    induction m with
    | zero => exact fun _ => hk
    | succ m ih =>
      intro hm
      have he : hs[k + m]? = some hs[k + m] := List.getElem?_eq_getElem hm
      obtain ⟨hfrom, hto⟩ := h.moves (k + m) _ he
      have hmem : hs[k + m] ∈ hs.drop k := List.mem_of_getElem? (List.getElem?_drop.trans he)
      exact hto.trans ((congrArg some (hidle _ hmem)).trans (hfrom.symm.trans (ih (by omega))))
  have hlt := (List.getElem?_eq_some_iff.mp hk).1
  have hlength := h.length
  have hhandled := h.handled
  have hlast := hrest (o.applied.length - k) (by omega)
  rw [show k + (o.applied.length - k) = o.applied.length by omega, h.last] at hlast
  injection hlast with hlast
  exact hlast.symm

/-- **Writes settle** whenever the row on display comes from the server and no request handled since then has changed it
there; in particular once all are answered. -/
theorem settles {d₀ : Desk} {es : List Moment} (h : Run (Desk.step track n) d₀ es d) (h₀ : d₀.Fresh track n)
    (hfrom : FromServer track n es) : face (d.store.stageRow track n) = face (d.server.apiRow track n) := by
  obtain ⟨faces, htraced⟩ := traced_run h h₀
  obtain ⟨k, hk, hidle⟩ := hfrom
  exact htraced.face_eq (htraced.shown k hk) hidle

end

/-! ## The server's side -/

theorem not_down {c : Conn} (hfaults : c.faults = []) (k : Nat) : ¬ c.Down k := by
  unfold Conn.Down
  rw [hfaults]
  simp

section
variable [Host] {track : Track} {n : UInt32} {c : Conn}

theorem row_answered (hfaults : c.faults = []) (hread : c.db.Readable track) :
    ∃ r c', postedRow track n c = some (.ok r, c') ∧ r.status = 200 ∧ c'.db = c.db := by
  obtain ⟨row, hrow, -⟩ := stage_reads (n := n) ⟨not_down hfaults 0, hread⟩
  cases row with
  | some row => exact ⟨_, _, bind_of_ok hrow, rfl, rfl⟩
  | none => exact ⟨_, _, bind_of_ok hrow, rfl, rfl⟩

theorem rest_answered (hfaults : c.faults = []) (hread : c.db.Readable track) (note : Option (Option String)) :
    ∃ r c', postRest track n (note.elim .nothing .change) c = some (.ok r, c') ∧ r.status = 200 ∧
      c'.db = note.elim c.db fun text => c.db.setNote track n text (c.clock c.ticks) := by
  cases note with
  | none => exact row_answered hfaults hread
  | some text =>
    obtain ⟨new, update, hwrites⟩ := writesRow_setNote track n text (c.clock c.ticks)
    obtain ⟨row, hrow⟩ := put_ok "cannot write the note" (fun time db => db.setNote track n text time)
      hwrites (not_down hfaults 0) (not_or.mpr ⟨not_down hfaults 1, not_not.mpr hread⟩)
    have hfaults' : (c.wrote 2 (c.db.setNote track n text (c.clock c.ticks))).faults = [] := by
      show c.faults.drop 2 = []
      rw [hfaults]
      rfl
    obtain ⟨r, c', hanswer, hstatus, hdb⟩ := row_answered (n := n) hfaults' (hwrites.readable.mpr hread)
    refine ⟨r, c', (bind_of_ok (bind_of_ok hrow)).trans ?_, hstatus, hdb⟩
    exact hanswer

/-- **The API writes what the desk's server writes**, while its statements are executed. -/
theorem post_answered (hfaults : c.faults = []) (hread : c.db.Readable track) {fields : List (String × Value)}
    {body : StageBody} (hstate : askedState (fields.lookup "state") = body.state.elim .nothing .change)
    (hnote : askedNote (fields.lookup "note") =
      (body.note.map fun text => if text = "" then none else some text).elim .nothing .change) :
    ∃ r c', postFields track n fields c = some (.ok r, c') ∧ r.status = 200 ∧
      ∃ time time', c'.db = c.db.post track n body time time' := by
  unfold postFields
  rw [hstate, hnote]
  cases hdone : body.state with
  | none =>
    obtain ⟨r, c', hanswer, hstatus, hdb⟩ := rest_answered (n := n) hfaults hread
      (body.note.map fun text => if text = "" then none else some text)
    refine ⟨r, c', hanswer, hstatus, c.clock c.ticks, c.clock c.ticks, hdb.trans ?_⟩
    unfold Db.post
    rw [hdone]
    cases body.note <;> rfl
  | some done =>
    obtain ⟨new, update, hwrites⟩ := writesRow_setState track n done (c.clock c.ticks)
    obtain ⟨row, hrow⟩ := put_ok "cannot update the stage" (fun time db => db.setState track n done time)
      hwrites (not_down hfaults 0) (not_or.mpr ⟨not_down hfaults 1, not_not.mpr hread⟩)
    have hfaults' : (c.wrote 2 (c.db.setState track n done (c.clock c.ticks))).faults = [] := by
      show c.faults.drop 2 = []
      rw [hfaults]
      rfl
    obtain ⟨r, c', hanswer, hstatus, hdb⟩ := rest_answered (n := n) hfaults' (hwrites.readable.mpr hread)
      (body.note.map fun text => if text = "" then none else some text)
    refine ⟨r, c', (bind_of_ok (bind_of_ok hrow)).trans ?_, hstatus, c.clock c.ticks, c.clock (c.ticks + 1),
      hdb.trans ?_⟩
    · exact hanswer
    · unfold Db.post
      rw [hdone]
      cases body.note <;> rfl

end

theorem post_answered_done : ∃ r c', @postFields oneBody .shell 1 [("state", .str "done"), ("note", .str "")] fresh =
    some (.ok r, c') ∧ r.status = 200 ∧ ∃ time time', c'.db = fresh.db.post .shell 1 ⟨some true, some ""⟩ time time' :=
  @post_answered oneBody .shell 1 fresh rfl (by decide) _ ⟨some true, some ""⟩ rfl rfl

/-! ## A note that is lost -/

/-- The page of a connected site, nothing done yet. -/
def freshDesk : Desk :=
  ⟨{ JourneyStore.new with status := .connected, health := some ⟨fun _ => none⟩ }, Db.empty, none, [], [], []⟩

def lostNote : List Act :=
  [.type "see the manual" "10:00", .pause "10:01", .handle false "" "", .arrive 0]

theorem lostNote_shown : ∃ es d, Run (Desk.step .shell 1) freshDesk es d ∧ es.map Event.input = lostNote ∧
    freshDesk.Fresh .shell 1 ∧ d.draft = none ∧ d.settled = [0] ∧ d.sent.length = 1 ∧
    face (d.store.stageRow .shell 1) ≠ face (d.server.apiRow .shell 1) :=
  ⟨_, _, run_of_exec lostNote rfl, rfl, ⟨rfl, rfl, rfl⟩, rfl, rfl, rfl,
    fun h => absurd (congrArg Standing.note h) (by decide)⟩

/-- A stage is marked done while an answer to another call is on its way. -/
def twoWrites : List Act :=
  [.set ⟨some true, none⟩ "10:00", .set ⟨none, some "done at last"⟩ "10:01", .handle true "10:02" "10:02",
    .handle true "10:03" "10:03", .arrive 0, .arrive 1]

theorem twoWrites_settle : ∃ es d, Run (Desk.step .shell 1) freshDesk es d ∧ es.map Event.input = twoWrites ∧
    face (d.store.stageRow .shell 1) = face (d.server.apiRow .shell 1) := by
  have hrun : Run (Desk.step .shell 1) freshDesk _ _ := run_of_exec twoWrites rfl
  exact ⟨_, _, hrun, rfl, settles hrun ⟨rfl, rfl, rfl⟩ ⟨2, rfl, List.forall_mem_nil _⟩⟩

end BuildYourOwn.Byo
