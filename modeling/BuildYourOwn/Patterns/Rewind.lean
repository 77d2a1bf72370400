import BuildYourOwn.Patterns.Outbox

/-!
# What a rewound write leaves behind

The writes that stand are those that no `crash before-commit` has rewound (`books`). Each of them has
its event in the outbox or on the bus, whatever came between, and the rows are the rows of those writes.

A rewind restores the row and takes the last record out of the outbox. As long as nothing is published
after the write, that record is the write's and the bus has not seen its event, so the state is the one
that the same commands lead to without the write (`Without`). A `publish` in between puts the event on
the bus, where the rewind leaves it (`Published`), and an acknowledgement then makes the last record
that of another write.

**`outbox_atomicity`**: the outbox is atomic in exactly the runs where no event is published between a
write and the crash that rewinds it.
-/

namespace BuildYourOwn.Patterns.Outbox

open Lib Topic

/-! ## What a command does -/

/-- What a command asks for. -/
inductive Act
  | nothing
  | write (key value event : String)
  | crash (point : String)
  | recover
  | publish
  | ack (event : String)

def act (l : Line) : Act :=
  match l.command with
  | "write" =>
    match word l.args 0, word l.args 1, word l.args 2 with
    | .ok key, .ok value, .ok event => .write key value event
    | _, _, _ => .nothing
  | "crash" =>
    match word l.args 0 with
    | .ok point => .crash point
    | .error _ => .nothing
  | "recover" => .recover
  | "publish" => .publish
  | "ack" =>
    match word l.args 0 with
    | .ok event => .ack event
    | .error _ => .nothing
  | _ => .nothing

variable {l : Line}

def Act.command : Act → String
  | nothing => ""
  | write _ _ _ => "write"
  | crash _ => "crash"
  | recover => "recover"
  | publish => "publish"
  | ack _ => "ack"

theorem command_of_act (h : act l ≠ .nothing) : l.command = (act l).command := by
  revert h
  unfold act
  split
  · split
    · exact fun _ => by assumption
    · exact fun h => absurd rfl h
  · split
    · exact fun _ => by assumption
    · exact fun h => absurd rfl h
  · exact fun _ => by assumption
  · exact fun _ => by assumption
  · split
    · exact fun _ => by assumption
    · exact fun h => absurd rfl h
  · exact fun h => absurd rfl h

/-- Only `recover` asks for a recovery. -/
theorem command_of_recover (h : act l = .recover) : l.command = "recover" := by
  rw [command_of_act (by simp [h]), h]
  rfl

/-- Only `publish` asks for what it asks. -/
theorem act_publish : act l = .publish ↔ l.command = "publish" := by
  constructor
  · intro h
    rw [command_of_act (by simp [h]), h]
    rfl
  · intro h
    unfold act
    rw [h]
    rfl

variable {s s' t : Outbox} {v : Value} {es es₁ es₂ : List (Event Outbox Line Value)}

section

variable [Host]

/-- The state after it; a process that is down only recovers. -/
def advance (s : Outbox) (a : Act) : Outbox :=
  if s.down = true then
    match a with
    | .recover => s.recover.1
    | _ => s
  else
    match a with
    | .nothing => s
    | .write key value event => (s.write key value event).1
    | .crash point => (s.crash point).1
    | .recover => s.recover.1
    | .publish => s.publish.1
    | .ack event => (s.ack event).1

/-- Nothing starts over, and no write goes round the outbox. -/
def Kept (l : Line) : Prop := l.command ≠ "init" ∧ l.command ≠ "naive-write"

theorem advance_nothing (s : Outbox) : s.advance .nothing = s := by
  unfold advance
  split
  · rfl
  · rfl

theorem advance_recover (s : Outbox) : s.advance .recover = s.recover.1 := by
  unfold advance
  split
  · rfl
  · rfl

theorem advance_down {a : Act} (h : s.down = true) (ha : a ≠ .recover) : s.advance a = s := by
  unfold advance
  rw [if_pos h]
  split
  · exact absurd rfl ha
  · rfl

/-- **Every command** does what it asks for. -/
theorem step_advance (hl : Kept l) (hs : onLine step s l = some (s', v)) : s' = s.advance (act l) := by
  obtain ⟨command, args⟩ := l
  have hfst : ∀ {r : Outbox × Value}, some r = some (s', v) → s' = r.1 := fun h =>
    (congrArg Prod.fst (Option.some.inj h)).symm
  unfold onLine step at hs
  dsimp only at hs
  split at hs
  · rename_i hdown
    rw [advance_down hdown.1 fun h => hdown.2 (Or.inl (command_of_recover h))]
    exact hfst hs
  · rename_i hup
    have hup : command ≠ "recover" → command ≠ "state" → command ≠ "delivered" → ¬ s.down = true :=
      fun h₁ h₂ h₃ hdown => hup ⟨hdown, not_or.mpr ⟨h₁, not_or.mpr ⟨h₂, h₃⟩⟩⟩
    split at hs
    case h_1 => exact absurd rfl hl.1
    case h_2 =>
      have hup := hup (by simp) (by simp) (by simp)
      unfold advance act
      rw [if_neg hup]
      dsimp only
      rcases arg_eq_some.mp hs with ⟨h₀, rfl⟩ | ⟨key, h₀, hs⟩
      · rw [h₀]
        rfl
      · rcases arg_eq_some.mp hs with ⟨h₁, rfl⟩ | ⟨value, h₁, hs⟩
        · rw [h₀, h₁]
          rfl
        · rcases arg_eq_some.mp hs with ⟨h₂, rfl⟩ | ⟨event, h₂, hs⟩
          · rw [h₀, h₁, h₂]
            rfl
          · rw [h₀, h₁, h₂]
            exact hfst hs
    case h_3 => exact absurd rfl hl.2
    case h_4 =>
      have hup := hup (by simp) (by simp) (by simp)
      unfold advance act
      rw [if_neg hup]
      dsimp only
      rcases arg_eq_some.mp hs with ⟨h₀, rfl⟩ | ⟨point, h₀, hs⟩
      · rw [h₀]
        rfl
      · rw [h₀]
        exact hfst hs
    case h_5 =>
      rw [show act ⟨"recover", args⟩ = .recover from rfl, advance_recover]
      exact hfst hs
    case h_6 =>
      have hup := hup (by simp) (by simp) (by simp)
      unfold advance act
      rw [if_neg hup]
      exact hfst hs
    case h_7 =>
      have hup := hup (by simp) (by simp) (by simp)
      unfold advance act
      rw [if_neg hup]
      dsimp only
      rcases arg_eq_some.mp hs with ⟨h₀, rfl⟩ | ⟨event, h₀, hs⟩
      · rw [h₀]
        rfl
      · rw [h₀]
        exact hfst hs
    case h_8 =>
      rw [show act ⟨"delivered", args⟩ = .nothing from rfl, advance_nothing]
      rcases arg_eq_some.mp hs with ⟨-, h⟩ | ⟨event, -, hs⟩
      · exact h
      · exact hfst hs
    case h_9 =>
      rw [show act ⟨"state", args⟩ = .nothing from rfl, advance_nothing]
      exact hfst hs
    case h_10 _ hinit hwrite hnaive hcrash hrecover hpublish hack hdelivered hstate =>
      have hact : act ⟨command, args⟩ = .nothing := by
        unfold act
        split
        · rename_i h
          exact absurd h hwrite
        · rename_i h
          exact absurd h hcrash
        · rename_i h
          exact absurd h hrecover
        · rename_i h
          exact absurd h hpublish
        · rename_i h
          exact absurd h hack
        · rfl
      rw [hact, advance_nothing]
      exact hfst hs

end

/-! ## The writes that stand -/

/-- A write that was accepted. -/
structure Written where
  key : String
  value : String
  event : String

/-- The writes that stand, and whether a crash can still rewind the last of them. -/
structure Books where
  standing : List Written
  pending : Bool

def Books.next (b : Books) : Act → Books
  | .write key value event => ⟨b.standing ++ [⟨key, value, event⟩], true⟩
  | .crash point =>
    ⟨if point = "before-commit" ∧ b.pending = true then b.standing.dropLast else b.standing, false⟩
  | _ => b

def Books.after (b : Books) (e : Event Outbox Line Value) : Books :=
  if e.before.down = true then b else b.next (act e.input)

def books (es : List (Event Outbox Line Value)) : Books := es.foldl Books.after ⟨[], false⟩

def rowsOf (ws : List Written) : StringMap String := ws.foldl (fun m w => m.insert w.key w.value) ∅

def Covered (ws : List Written) (outbox : List Rec) (published : List String) : Prop :=
  ∀ w ∈ ws, (∃ r ∈ outbox, r.event = w.event) ∨ w.event ∈ published

structure Balanced (b : Books) (s : Outbox) : Prop where
  rows : s.rows = rowsOf b.standing
  sent : ∀ r ∈ s.outbox, r.published = true → r.event ∈ s.published
  covered : Covered b.standing s.outbox s.published
  settled : b.pending = false → s.last = none
  pending : b.pending = true → ∃ ws w, b.standing = ws ++ [w] ∧
    s.last = some (.transactional w.key (rowsOf ws)[w.key]?) ∧
    -- nothing published since the write, or all of it
    ((∃ rs, s.outbox = rs ++ [⟨w.event, false⟩] ∧ Covered ws rs s.published) ∨
      ∀ w ∈ ws, w.event ∈ s.published)

theorem rowsOf_append (ws : List Written) (w : Written) : rowsOf (ws ++ [w]) = (rowsOf ws).insert w.key w.value := by
  unfold rowsOf
  rw [List.foldl_append, List.foldl_cons, List.foldl_nil]

theorem restore_insert (m : StringMap String) (key value : String) : restore (m.insert key value) key m[key]? = m := by
  refine Std.ExtTreeMap.ext_getElem? fun a => ?_
  unfold restore
  split
  · rename_i prev hprev
    rw [StringMap.get_insert, StringMap.get_insert]
    split
    · rename_i hkey
      rw [← hkey, hprev]
    · rfl
  · rename_i hnone
    rw [StringMap.get_erase, StringMap.get_insert]
    split
    · rename_i hkey
      rw [← hkey, hnone]
    · rfl

variable {ws : List Written}

theorem Covered.mono {rs rs' : List Rec} {bus bus' : List String}
    (h : Covered ws rs bus) (hrs : ∀ r ∈ rs, (∃ r' ∈ rs', r'.event = r.event) ∨ r.event ∈ bus')
    (hbus : ∀ x ∈ bus, x ∈ bus') : Covered ws rs' bus' := by
  intro w hw
  rcases h w hw with ⟨r, hr, hevent⟩ | hin
  · rw [← hevent]
    exact hrs r hr
  · exact Or.inr (hbus _ hin)

theorem Covered.forget {rs : List Rec} {bus : List String}
    (h : Covered ws rs bus) : Covered ws (rs.map Outbox.forget) bus :=
  h.mono (fun r hr => Or.inl ⟨_, List.mem_map.mpr ⟨r, hr, rfl⟩, rfl⟩) fun _ hx => hx

theorem Covered.eraseP {rs : List Rec} {bus : List String}
    (h : Covered ws rs bus) (hsent : ∀ r ∈ rs, r.published = true → r.event ∈ bus) (event : String) :
    Covered ws (rs.eraseP fun r => r.published && r.event == event) bus := by
  refine h.mono (fun r hr => ?_) fun _ hx => hx
  by_cases hp : (r.published && r.event == event) = true
  · exact Or.inr (hsent r hr ((Bool.and_eq_true _ _).mp hp).1)
  · exact Or.inl ⟨r, (List.mem_eraseP_of_neg (p := fun r : Rec => r.published && r.event == event)
      hp).mpr hr, rfl⟩

variable {b : Books}

theorem Balanced.write (h : Balanced b s) (key value event : String) :
    Balanced (b.next (.write key value event)) (s.write key value event).1 where
  rows := by
    show s.rows.insert key value = rowsOf (b.standing ++ [⟨key, value, event⟩])
    rw [rowsOf_append, h.rows]
  sent r hr hp := by
    rcases List.mem_append.mp hr with hr | hr
    · exact h.sent r hr hp
    · rw [List.mem_singleton.mp hr] at hp
      cases hp
  covered w hw := by
    rcases List.mem_append.mp hw with hw | hw
    · rcases h.covered w hw with ⟨r, hr, hevent⟩ | hin
      · exact Or.inl ⟨r, List.mem_append_left _ hr, hevent⟩
      · exact Or.inr hin
    · rw [List.mem_singleton.mp hw]
      exact Or.inl ⟨⟨event, false⟩, List.mem_concat_self, rfl⟩
  settled hp := absurd hp (by simp [Books.next])
  pending _ := by
    refine ⟨b.standing, ⟨key, value, event⟩, rfl, ?_, Or.inl ⟨s.outbox, rfl, h.covered⟩⟩
    rw [← h.rows]
    rfl

theorem Balanced.recover (h : Balanced b s) : Balanced b s.recover.1 :=
  ⟨h.rows, h.sent, h.covered, h.settled, h.pending⟩

theorem Balanced.publish (h : Balanced b s) : Balanced b s.publish.1 := by
  have hbus : ∀ r ∈ s.outbox, r.event ∈ s.publish.1.published := by
    intro r hr
    by_cases hp : r.published = true
    · exact List.mem_append_left _ (h.sent r hr hp)
    · refine List.mem_append_right _ (List.mem_map.mpr ⟨r, List.mem_filter.mpr ⟨hr, ?_⟩, rfl⟩)
      simpa using hp
  have hold : ∀ x ∈ s.published, x ∈ s.publish.1.published := fun x hx => List.mem_append_left _ hx
  have hall : ∀ w ∈ b.standing, w.event ∈ s.publish.1.published := by
    intro w hw
    rcases h.covered w hw with ⟨r, hr, hevent⟩ | hin
    · rw [← hevent]
      exact hbus r hr
    · exact hold _ hin
  refine ⟨h.rows, fun r hr _ => ?_, fun w hw => Or.inr (hall w hw), h.settled, fun hp => ?_⟩
  · obtain ⟨r', hr', rfl⟩ := List.mem_map.mp hr
    exact hbus r' hr'
  · obtain ⟨ws, w, hws, hlast, -⟩ := h.pending hp
    exact ⟨ws, w, hws, hlast, Or.inr fun w' hw' => hall w' (hws ▸ List.mem_append_left _ hw')⟩

theorem Balanced.ack (h : Balanced b s) (event : String) : Balanced b (s.ack event).1 := by
  refine ⟨h.rows, fun r hr hp => h.sent r (List.mem_of_mem_eraseP hr) hp,
    h.covered.eraseP h.sent event, h.settled, fun hp => ?_⟩
  obtain ⟨ws, w, hws, hlast, hrest⟩ := h.pending hp
  refine ⟨ws, w, hws, hlast, ?_⟩
  rcases hrest with ⟨rs, houtbox, hcovered⟩ | hall
  · -- the write's own record has not been published
    left
    refine ⟨rs.eraseP fun r => r.published && r.event == event, ?_,
      hcovered.eraseP (fun r hr => h.sent r (houtbox ▸ List.mem_append_left _ hr)) event⟩
    show s.outbox.eraseP _ = _
    rw [houtbox, List.eraseP_append]
    split
    · rfl
    · rw [List.eraseP_of_forall_not fun r hr => by simp [List.mem_singleton.mp hr]]
      rename_i hany
      rw [List.eraseP_of_forall_not fun r hr hp => hany (List.any_eq_true.mpr ⟨r, hr, hp⟩)]
  · exact Or.inr hall

/-- **A crash**, wherever it strikes. -/
theorem Balanced.crash [Host] (h : Balanced b s) (point : String) :
    Balanced (b.next (.crash point)) (s.crash point).1 := by
  have hsent : ∀ {rs : List Rec}, ∀ r ∈ rs.map Outbox.forget, r.published = true →
      r.event ∈ s.published := by
    intro rs r hr hp
    obtain ⟨r', -, rfl⟩ := List.mem_map.mp hr
    exact absurd hp (by simp [forget])
  -- a crash that rewinds nothing
  have hplain : ∀ {s'}, point ≠ "before-commit" ∨ b.pending = false →
      s' = { s with outbox := s.outbox.map forget, down := true, last := none } →
      Balanced (b.next (.crash point)) s' := by
    rintro s' hno rfl
    have hstanding : (b.next (.crash point)).standing = b.standing := by
      refine if_neg fun hboth => ?_
      rcases hno with hpoint | hpending
      · exact hpoint hboth.1
      · exact absurd (hpending.symm.trans hboth.2) (by simp)
    exact {
      rows := hstanding ▸ h.rows
      sent := hsent
      covered := hstanding ▸ h.covered.forget
      settled := fun _ => rfl
      pending := fun hp => absurd hp (by simp [Books.next]) }
  cases hpending : b.pending with
  | false =>
    have hlast := h.settled hpending
    refine hplain (Or.inr hpending) ?_
    unfold Outbox.crash
    dsimp only
    rw [hlast]
    split
    · rfl
    · rfl
    · rfl
    · rfl
  | true =>
    obtain ⟨ws, w, hws, hlast, hrest⟩ := h.pending hpending
    unfold Outbox.crash
    dsimp only
    rw [hlast]
    split
    · exact hplain (Or.inl (by simp)) rfl
    · exact hplain (Or.inl (by simp)) rfl
    · have hstanding : (b.next (.crash "before-commit")).standing = ws := by
        refine (if_pos ⟨rfl, hpending⟩).trans ?_
        rw [hws, List.dropLast_concat]
      refine ⟨?_, fun r hr => hsent r (List.dropLast_subset _ hr), ?_, fun _ => rfl,
        fun hp => absurd hp (by simp [Books.next])⟩
      · rw [hstanding]
        dsimp only
        rw [h.rows, hws, rowsOf_append]
        exact restore_insert ..
      · rw [hstanding]
        rcases hrest with ⟨rs, houtbox, hcovered⟩ | hall
        · dsimp only
          rw [houtbox, List.map_append, List.map_singleton, List.dropLast_concat]
          exact hcovered.forget
        · exact fun w hw => Or.inr (hall w hw)
    · rename_i hpoint
      exact hplain (Or.inl hpoint) rfl

/-- **Every command** keeps the books and the state together. -/
theorem Balanced.step [Host] (h : Balanced b s) (hl : Kept l) (hs : onLine step s l = some (s', v)) :
    Balanced (b.after ⟨s, l, v, s'⟩) s' := by
  rw [step_advance hl hs]
  unfold Books.after advance
  dsimp only
  split
  · split
    · exact h.recover
    · exact h
  · cases act l with
    | nothing => exact h
    | write key value event => exact h.write key value event
    | crash point => exact h.crash point
    | recover => exact h.recover
    | publish => exact h.publish
    | ack event => exact h.ack event

theorem balanced [Host] (hrun : Run (onLine step) new es s) (hkept : ∀ e ∈ es, Kept e.input) :
    Balanced (books es) s := by
  refine hrun.history_invariant (P := fun es s => Balanced (books es) s) (G := fun e => Kept e.input)
    ?_ ?_ hkept
  · exact ⟨rfl, List.forall_mem_nil _, List.forall_mem_nil _,
      fun _ => rfl, fun hp => absurd hp (by simp [books])⟩
  · intro es s l s' v h hl hs
    unfold books
    rw [List.foldl_append, List.foldl_cons, List.foldl_nil]
    exact h.step hl hs

/-! ## With a write and without it -/

/-- No write and no crash. -/
def Idle (a : Act) : Prop := (∀ key value event, a ≠ .write key value event) ∧ ∀ point, a ≠ .crash point

/-- `s` is `t` with one more write, of which nothing has been published. -/
structure Without (key value event : String) (s t : Outbox) : Prop where
  rows : s.rows = t.rows.insert key value
  outbox : s.outbox = t.outbox ++ [⟨event, false⟩]
  published : s.published = t.published
  lost : s.lost = t.lost
  up : s.down = false ∧ t.down = false
  last : s.last = some (.transactional key t.rows[key]?)

/-- One more event has been published in `s` than in `t`, and nothing is left to publish. -/
structure Published (s t : Outbox) : Prop where
  one : s.published.length = t.published.length + 1
  all : (∀ r ∈ s.outbox, r.published = true) ∧ ∀ r ∈ t.outbox, r.published = true
  up : s.down = false ∧ t.down = false
  last : ∃ key prev, s.last = some (.transactional key prev)

section

variable [Host] {key value event : String} {a : Act}

theorem advance_up (h : s.down = false) :
    s.advance a = match a with
      | .nothing => s
      | .write key value event => (s.write key value event).1
      | .crash point => (s.crash point).1
      | .recover => s.recover.1
      | .publish => s.publish.1
      | .ack event => (s.ack event).1 := by
  unfold advance
  rw [if_neg (by simp [h])]

theorem Without.advance (h : Without key value event s t) (ha : Idle a) (hp : a ≠ .publish) :
    Without key value event (s.advance a) (t.advance a) := by
  rw [advance_up h.up.1, advance_up h.up.2]
  cases a with
  | nothing => exact h
  | write k v x => exact absurd rfl (ha.1 k v x)
  | crash point => exact absurd rfl (ha.2 point)
  | recover => exact ⟨h.rows, h.outbox, h.published, h.lost, ⟨rfl, rfl⟩, h.last⟩
  | publish => exact absurd rfl hp
  | ack x =>
    refine ⟨h.rows, ?_, h.published, h.lost, h.up, h.last⟩
    show s.outbox.eraseP _ = t.outbox.eraseP _ ++ _
    rw [h.outbox, List.eraseP_append]
    split
    · rfl
    · rename_i hany
      rw [List.eraseP_of_forall_not fun r hr => by simp [List.mem_singleton.mp hr],
        List.eraseP_of_forall_not fun r hr hp => hany (List.any_eq_true.mpr ⟨r, hr, hp⟩)]

omit [Host] in
theorem marked_of_publish : ∀ r ∈ s.publish.1.outbox, r.published = true := by
  intro r hr
  obtain ⟨r', -, rfl⟩ := List.mem_map.mp hr
  rfl

/-- **The first publish after the write** puts its event on the bus. -/
theorem Without.publish (h : Without key value event s t) : Published (s.advance .publish) (t.advance .publish) := by
  rw [advance_up h.up.1, advance_up h.up.2]
  refine ⟨?_, ⟨marked_of_publish, marked_of_publish⟩, h.up, ⟨_, _, h.last⟩⟩
  show (s.published ++ _).length = (t.published ++ _).length + 1
  rw [h.published, h.outbox, List.filter_append, List.map_append]
  simp only [List.length_append]
  rfl

theorem Published.advance (h : Published s t) (ha : Idle a) : Published (s.advance a) (t.advance a) := by
  have hnone : ∀ {s : Outbox}, (∀ r ∈ s.outbox, r.published = true) →
      s.publish.1.published = s.published := by
    intro s hall
    show s.published ++ ((s.outbox.filter fun r => !r.published).map (·.event)) = s.published
    rw [List.filter_eq_nil_iff.mpr fun r hr => by simp [hall r hr]]
    exact List.append_nil _
  rw [advance_up h.up.1, advance_up h.up.2]
  cases a with
  | nothing => exact h
  | write k v x => exact absurd rfl (ha.1 k v x)
  | crash point => exact absurd rfl (ha.2 point)
  | recover => exact ⟨h.one, h.all, ⟨rfl, rfl⟩, h.last⟩
  | publish =>
    refine ⟨?_, ⟨marked_of_publish, marked_of_publish⟩, h.up, h.last⟩
    dsimp only
    rw [hnone h.all.1, hnone h.all.2]
    exact h.one
  | ack x =>
    exact ⟨h.one, ⟨fun r hr => h.all.1 r (List.mem_of_mem_eraseP hr),
      fun r hr => h.all.2 r (List.mem_of_mem_eraseP hr)⟩, h.up, h.last⟩

/-- **The rewind** of a write of which nothing has been published leaves no trace. -/
theorem Without.rewind (h : Without key value event s t) :
    s.advance (.crash "before-commit") = t.advance (.crash "now") := by
  rw [advance_up h.up.1, advance_up h.up.2]
  show (s.crash "before-commit").1 = (t.crash "now").1
  unfold Outbox.crash
  dsimp only
  rw [h.last]
  apply Outbox.ext
  · show restore s.rows key t.rows[key]? = t.rows
    rw [h.rows]
    exact restore_insert ..
  · show (s.outbox.map forget).dropLast = t.outbox.map forget
    rw [h.outbox, List.map_append, List.map_singleton, List.dropLast_concat]
  · exact h.published
  · exact h.lost
  · rfl
  · rfl

theorem Published.rewind (h : Published s t) : s.advance (.crash "before-commit") ≠ t.advance (.crash "now") := by
  obtain ⟨key, prev, hlast⟩ := h.last
  rw [advance_up h.up.1, advance_up h.up.2]
  intro heq
  have hbus : (s.crash "before-commit").1.published = (t.crash "now").1.published :=
    congrArg Outbox.published heq
  have hleft : (s.crash "before-commit").1.published = s.published := by
    unfold Outbox.crash
    dsimp only
    rw [hlast]
    rfl
  have hright : (t.crash "now").1.published = t.published := rfl
  have hlen := congrArg List.length (hleft.symm.trans (hbus.trans hright))
  have hone := h.one
  omega

end

/-! ## Runs -/

structure Rewound (es : List (Event Outbox Line Value)) (w : Event Outbox Line Value)
    (between : List (Event Outbox Line Value)) (c : Event Outbox Line Value) : Prop where
  split : ∃ es₁ es₂, es = es₁ ++ w :: (between ++ c :: es₂)
  write : w.before.down = false ∧ ∃ key value event, act w.input = .write key value event
  idle : ∀ e ∈ between, Idle (act e.input)
  crash : act c.input = .crash "before-commit"

section

variable [Host] {w c : Event Outbox Line Value} {between : List (Event Outbox Line Value)}

/-- The same commands without the write, and then a crash, lead to the same state. -/
def NoTrace (w : Event Outbox Line Value) (between : List (Event Outbox Line Value))
    (c : Event Outbox Line Value) : Prop :=
  ∃ es, Run (onLine step) w.before es c.after ∧
    es.map Event.input = between.map Event.input ++ [⟨"crash", ["now"]⟩]

/-- **The outbox is atomic**: every write that stands has its row and its event, and a write that was
rewound has left no trace. -/
structure Atomic (es : List (Event Outbox Line Value)) (s : Outbox) : Prop where
  rows : s.rows = rowsOf (books es).standing
  events : Covered (books es).standing s.outbox s.published
  noTrace : ∀ w between c, Rewound es w between c → NoTrace w between c

theorem step_total (s : Outbox) (l : Line) : ∃ s' v, onLine step s l = some (s', v) := by
  unfold onLine step
  split
  · exact ⟨_, _, rfl⟩
  · split
    · exact ⟨_, _, rfl⟩
    · exact arg_total (fun _ => arg_total (fun _ => arg_total (fun _ => ⟨_, _, rfl⟩) s) s) s
    · exact arg_total (fun _ => arg_total (fun _ => arg_total (fun _ => ⟨_, _, rfl⟩) s) s) s
    · exact arg_total (fun _ => ⟨_, _, rfl⟩) s
    · exact ⟨_, _, rfl⟩
    · exact ⟨_, _, rfl⟩
    · exact arg_total (fun _ => ⟨_, _, rfl⟩) s
    · exact arg_total (fun _ => ⟨_, _, rfl⟩) s
    · exact ⟨_, _, rfl⟩
    · exact ⟨_, _, rfl⟩

/-- The commands of a history, from a state on. -/
def play (s : Outbox) (ls : List Line) : Outbox := ls.foldl (fun s l => s.advance (act l)) s

theorem run_eq_play {s₀ : Outbox} (hrun : Run (onLine step) s₀ es s)
    (hkept : ∀ l ∈ es.map Event.input, Kept l) : s = play s₀ (es.map Event.input) :=
  hrun.eq_foldl fun _ he hs => step_advance (hkept _ (List.mem_map_of_mem he)) hs

theorem noTrace_iff_play (hkept : ∀ e ∈ between, Kept e.input) :
    NoTrace w between c ↔ c.after = (play w.before (between.map Event.input)).advance (.crash "now") := by
  have hplay : play w.before (between.map Event.input ++ [⟨"crash", ["now"]⟩]) =
      (play w.before (between.map Event.input)).advance (.crash "now") := by
    unfold play
    rw [List.foldl_append]
    rfl
  have hkept' : ∀ l ∈ between.map Event.input ++ [⟨"crash", ["now"]⟩], Kept l := by
    intro l hl
    rcases List.mem_append.mp hl with hl | hl
    · obtain ⟨e, he, rfl⟩ := List.mem_map.mp hl
      exact hkept e he
    · rw [List.mem_singleton.mp hl]
      exact ⟨by simp, by simp⟩
  rw [← hplay]
  constructor
  · rintro ⟨es, hrun, hinputs⟩
    have hend := run_eq_play hrun (hinputs ▸ hkept')
    rw [hinputs] at hend
    exact hend
  · intro hafter
    obtain ⟨es, s, hrun, hinputs⟩ := Run.extend step_total
      (between.map Event.input ++ [⟨"crash", ["now"]⟩]) (Run.nil : Run (onLine step) w.before [] _)
    have hend := run_eq_play hrun (hinputs ▸ hkept')
    rw [List.nil_append, hinputs] at hend
    refine ⟨es, ?_, hinputs⟩
    rw [hafter, ← hend]
    exact hrun

theorem with_and_without {key value event : String} {s₀ : Outbox} (hup : s₀.down = false)
    (hrun : Run (onLine step) (s₀.write key value event).1 es s) (hes : ∀ e ∈ es, Kept e.input ∧ Idle (act e.input)) :
    (∀ e ∈ es, e.input.command ≠ "publish") ∧
      Without key value event s (play s₀ (es.map Event.input)) ∨
    ¬ (∀ e ∈ es, e.input.command ≠ "publish") ∧ Published s (play s₀ (es.map Event.input)) := by
  refine hrun.history_invariant (P := fun es s => (∀ e ∈ es, e.input.command ≠ "publish") ∧
      Without key value event s (play s₀ (es.map Event.input)) ∨
      ¬ (∀ e ∈ es, e.input.command ≠ "publish") ∧ Published s (play s₀ (es.map Event.input)))
    (G := fun e => Kept e.input ∧ Idle (act e.input)) ?_ ?_ hes
  · refine Or.inl ⟨List.forall_mem_nil _, ?_⟩
    exact ⟨rfl, rfl, rfl, rfl, ⟨hup, hup⟩, rfl⟩
  rintro es s l s' v h ⟨hl, hidle⟩ hs
  have hplay : play s₀ ((es ++ [(⟨s, l, v, s'⟩ : Event Outbox Line Value)]).map Event.input) =
      (play s₀ (es.map Event.input)).advance (act l) := by
    unfold play
    rw [List.map_append, List.foldl_append]
    rfl
  have hforall : (∀ e ∈ es ++ [(⟨s, l, v, s'⟩ : Event Outbox Line Value)], e.input.command ≠ "publish") ↔
      (∀ e ∈ es, e.input.command ≠ "publish") ∧ l.command ≠ "publish" := by
    rw [List.forall_mem_append, List.forall_mem_singleton]
  rw [hplay, hforall, step_advance hl hs]
  by_cases hpublish : l.command = "publish"
  · have hact : act l = .publish := act_publish.mpr hpublish
    right
    refine ⟨fun hno => hno.2 hpublish, ?_⟩
    rcases h with ⟨-, h⟩ | ⟨-, h⟩
    · rw [hact]
      exact h.publish
    · exact h.advance hidle
  · have hact : act l ≠ .publish := fun hact => hpublish (act_publish.mp hact)
    rcases h with ⟨hno, h⟩ | ⟨hsome, h⟩
    · exact Or.inl ⟨⟨hno, hpublish⟩, h.advance hidle hact⟩
    · exact Or.inr ⟨fun hno => hsome hno.1, h.advance hidle⟩

/-- **A rewind leaves no trace** exactly when nothing was published since the write. -/
theorem noTrace_iff (hrun : Run (onLine step) new es s) (hkept : ∀ e ∈ es, Kept e.input) (h : Rewound es w between c) :
    NoTrace w between c ↔ ∀ e ∈ between, e.input.command ≠ "publish" := by
  obtain ⟨es₁, es₂, hsplit⟩ := h.split
  obtain ⟨hup, key, value, event, hwrite⟩ := h.write
  have hmem : ∀ e ∈ w :: (between ++ c :: es₂), e ∈ es := fun e he =>
    hsplit ▸ List.mem_append_right _ he
  have hw := hmem w List.mem_cons_self
  have hc := hmem c (List.mem_cons_of_mem _ (List.mem_append_right _ List.mem_cons_self))
  have hbetween : ∀ e ∈ between, Kept e.input := fun e he =>
    hkept e (hmem e (List.mem_cons_of_mem _ (List.mem_append_left _ he)))
  -- the run between the two
  have hmiddle : Run (onLine step) w.after between c.before := by
    rw [List.append_cons, ← List.append_assoc] at hsplit
    obtain ⟨m, hfirst, hrest⟩ := (hrun.split hsplit).append_inv
    rw [hfirst.eq_after] at hrest
    exact hrest
  have hafter := step_advance (hkept w hw) (hrun.step_of_mem hw)
  rw [hwrite, advance_up hup] at hafter
  rw [hafter] at hmiddle
  have hcrash := step_advance (hkept c hc) (hrun.step_of_mem hc)
  rw [h.crash] at hcrash
  rw [noTrace_iff_play hbetween, hcrash]
  rcases with_and_without hup hmiddle fun e he => ⟨hbetween e he, h.idle e he⟩ with
    ⟨hno, hwithout⟩ | ⟨hsome, hpublished⟩
  · exact iff_of_true hwithout.rewind hno
  · exact iff_of_false hpublished.rewind hsome

/-- **Atomicity of the outbox**, in every run: what stands is there, and a rewound write has left no
trace exactly when nothing was published between it and the crash. -/
theorem outbox_atomicity (hrun : Run (onLine step) new es s) (hkept : ∀ e ∈ es, Kept e.input) :
    Atomic es s ↔
      ∀ w between c, Rewound es w between c → ∀ e ∈ between, e.input.command ≠ "publish" := by
  have hbalanced := balanced hrun hkept
  constructor
  · intro h w between c hrewound
    exact (noTrace_iff hrun hkept hrewound).mp (h.noTrace w between c hrewound)
  · intro h
    exact ⟨hbalanced.rows, hbalanced.covered, fun w between c hrewound =>
      (noTrace_iff hrun hkept hrewound).mpr (h w between c hrewound)⟩

end

/-! A publish between a write and the crash that rewinds it: the event stays on the bus. -/

@[reducible] def noJson : Host := hostOf []

def publishThenCrash : List Line :=
  [⟨"write", ["k", "v", "e"]⟩, ⟨"publish", []⟩, ⟨"crash", ["before-commit"]⟩]

def crashThenPublish : List Line :=
  [⟨"write", ["k", "v", "e"]⟩, ⟨"crash", ["before-commit"]⟩, ⟨"recover", []⟩, ⟨"publish", []⟩]

def keptLine (e : Event Outbox Line Value) : Bool :=
  e.input.command != "init" && e.input.command != "naive-write"

theorem kept_of_line {e : Event Outbox Line Value} (h : keptLine e = true) : Kept e.input := by
  unfold keptLine at h
  rw [Bool.and_eq_true] at h
  exact ⟨bne_iff_ne.mp h.1, bne_iff_ne.mp h.2⟩

theorem rewound_on_the_bus : ∃ es s, Run (onLine (@step noJson)) new es s ∧
    (∀ e ∈ es, Kept e.input) ∧ es.map Event.input = publishThenCrash ∧
    s.rows.toList = [] ∧ s.outbox.length = 0 ∧ s.published = ["e"] ∧ ¬ @Atomic noJson es s := by
  let _ : Host := noJson
  obtain ⟨w, p, c, s, hrun, hinputs, hrows, houtbox, hbus, hw, hafter, hall⟩ : ∃ w p c s,
      Run (onLine step) new [w, p, c] s ∧ [w, p, c].map Event.input = publishThenCrash ∧
      s.rows.toList = [] ∧ s.outbox.length = 0 ∧ s.published = ["e"] ∧ w.before = new ∧ c.after = s ∧
      [w, p, c].all keptLine = true :=
    ⟨_, _, _, _, run_of_exec publishThenCrash rfl, rfl, rfl, rfl, rfl, rfl, rfl, rfl⟩
  have hkept : ∀ e ∈ [w, p, c], Kept e.input := fun e he =>
    kept_of_line (List.all_eq_true.mp hall e he)
  refine ⟨[w, p, c], s, hrun, hkept, hinputs, hrows, houtbox, hbus, fun hatomic => ?_⟩
  obtain ⟨hwl, hpl, hcl⟩ : w.input = ⟨"write", ["k", "v", "e"]⟩ ∧ p.input = ⟨"publish", []⟩ ∧
      c.input = ⟨"crash", ["before-commit"]⟩ := by
    simpa [publishThenCrash] using hinputs
  have hrewound : Rewound [w, p, c] w [p] c := by
    refine ⟨⟨[], [], rfl⟩, ⟨by rw [hw]; rfl, "k", "v", "e", by rw [hwl]; rfl⟩, fun e he => ?_, ?_⟩
    · rw [List.mem_singleton.mp he, hpl]
      exact ⟨fun _ _ _ h => absurd h (by simp [act]), fun _ h => absurd h (by simp [act])⟩
    · rw [hcl]
      rfl
  have hsame := (noTrace_iff_play fun e he =>
    hkept e (List.mem_cons_of_mem _ (List.mem_cons.mpr (Or.inl (List.mem_singleton.mp he))))).mp
    (hatomic.noTrace w [p] c hrewound)
  rw [hafter, List.map_singleton, hpl, hw] at hsame
  have hnone : ((play new [⟨"publish", []⟩]).advance (.crash "now")).published = [] := rfl
  rw [← hsame, hbus] at hnone
  cases hnone

theorem outbox_atomicity_republished : ∃ es s, Run (onLine (@step noJson)) new es s ∧
    es.map Event.input = crashThenPublish ∧
    (@Atomic noJson es s ↔
      ∀ w between c, Rewound es w between c → ∀ e ∈ between, e.input.command ≠ "publish") := by
  let _ : Host := noJson
  obtain ⟨es, s, hrun, hinputs, hall⟩ : ∃ es s, Run (onLine step) new es s ∧
      es.map Event.input = crashThenPublish ∧ es.all keptLine = true :=
    ⟨_, _, run_of_exec crashThenPublish rfl, rfl, rfl⟩
  exact ⟨es, s, hrun, hinputs, outbox_atomicity hrun
    fun e he => kept_of_line (List.all_eq_true.mp hall e he)⟩

end BuildYourOwn.Patterns.Outbox
