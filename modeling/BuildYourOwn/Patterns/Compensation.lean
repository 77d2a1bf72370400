import BuildYourOwn.Patterns.Choreo

/-!
# One compensation, in reverse order

With no coordinator, what the services have seen still decides the whole state: it is that of a saga
going forward, some steps done and the next one live, or that of one going back, a step failed, some of
the steps before it undone and the one before those live (`Phase`). One event is live in a phase, two
where the live step may yet succeed or fail, and every other one changes nothing (`Moves`,
`event_moves`).

**`choreographed_saga`**: the ledger is the steps done and then the first of their compensations, no
step runs after the failure, every event is emitted once, and the outcome is committed or compensated
exactly when the whole chain has been handled.
-/

namespace BuildYourOwn.Patterns.Choreo

open Lib Topic

variable {names ran back rest post out : List String} {s s' : Choreo} {x y name kind : String}
  {v : Value}

/-! ## Events and entries -/

def doEvent (x : String) : String := x ++ ".do"
def undoEvent (x : String) : String := x ++ ".undo"
def okOf (x : String) : String := x ++ ".ok"
def failOf (x : String) : String := x ++ ".fail"
def undoneOf (x : String) : String := x ++ ".undone"

/-- The ledger's entry of a step that ran. -/
def did (x : String) : String := "do:" ++ x

/-- The ledger's entry of a step undone. -/
def undid (x : String) : String := "undo:" ++ x

theorem split_event {suffix : String} (hsuffix : suffix = "." ++ kind) (h : '.' ∉ kind.toList) :
    rsplitOnce '.' (x ++ suffix) = some (x, kind) := by
  rw [hsuffix, ← String.append_assoc]
  exact rsplitOnce_append x h

theorem split_do (x : String) : rsplitOnce '.' (doEvent x) = some (x, "do") :=
  split_event rfl (by decide)

theorem split_undo (x : String) : rsplitOnce '.' (undoEvent x) = some (x, "undo") :=
  split_event rfl (by decide)

theorem split_ok (x : String) : rsplitOnce '.' (okOf x) = some (x, "ok") :=
  split_event rfl (by decide)

theorem split_fail (x : String) : rsplitOnce '.' (failOf x) = some (x, "fail") :=
  split_event rfl (by decide)

theorem split_undone (x : String) : rsplitOnce '.' (undoneOf x) = some (x, "undone") :=
  split_event rfl (by decide)

theorem split_start : rsplitOnce '.' "start" = none := rfl

theorem ne_of_split {a b : String} {p q : Option (String × String)} (ha : rsplitOnce '.' a = p)
    (hb : rsplitOnce '.' b = q) (h : p ≠ q) : a ≠ b := fun e => h (ha.symm.trans (e ▸ hb))

variable {f : String → String}

theorem not_mem_events (hf : ∀ x, rsplitOnce '.' (f x) = some (x, kind))
    {a : String} (ha : ∀ x, rsplitOnce '.' a ≠ some (x, kind)) (l : List String) : a ∉ l.map f := by
  intro h
  obtain ⟨x, -, rfl⟩ := List.mem_map.mp h
  exact ha x (hf x)

theorem mem_events (hf : ∀ x, rsplitOnce '.' (f x) = some (x, kind)) {l : List String} : f x ∈ l.map f ↔ x ∈ l := by
  rw [List.mem_map]
  constructor
  · rintro ⟨y, hy, h⟩
    have hsplit := (hf y).symm.trans (h ▸ hf x)
    rw [← (Prod.mk.inj (Option.some.inj hsplit)).1]
    exact hy
  · intro hx
    exact ⟨x, hx, rfl⟩

theorem nodup_events (hf : ∀ x, rsplitOnce '.' (f x) = some (x, kind))
    {l : List String} (h : l.Nodup) : (l.map f).Nodup := by
  refine h.map fun x y hxy => ?_
  have hsplit := (hf x).symm.trans (hxy ▸ hf y)
  exact (Prod.mk.inj (Option.some.inj hsplit)).1

/-! ## Phases -/

/-- The saga going forward: `ran` have succeeded, and the first of `rest` is live. -/
def forward (names ran rest : List String) : Choreo where
  names := names
  handled := "start" :: ran.map okOf
  emitted := (ran ++ rest.take 1).map doEvent
  ledger := (ran ++ rest.take 1).map did
  inflightDo := (rest.take 1).toFinset
  inflightUndo := ∅
  compensating := false
  outcome := if rest = [] then .committed else .running

/-- The saga going back: `x` failed after `ran` had succeeded, `back` are undone, and the first of
`rest` is live. -/
def backward (names ran : List String) (x : String) (back rest : List String) : Choreo where
  names := names
  handled := "start" :: (ran.map okOf ++ failOf x :: back.map undoneOf)
  emitted := (ran ++ [x]).map doEvent ++ (back ++ rest.take 1).map undoEvent
  ledger := (ran ++ [x]).map did ++ back.map undid
  inflightDo := ∅
  inflightUndo := (rest.take 1).toFinset
  compensating := true
  outcome := if rest = [] then .compensated else .running

/-- The states a saga can be in. -/
inductive Phase (names : List String) : Choreo → Prop
  | idle : Phase names (reset names)
  | forward {ran rest : List String} (h : names = ran ++ rest) : Phase names (forward names ran rest)
  | backward {ran post back rest : List String} {x : String} (h : names = ran ++ x :: post)
      (hback : ran.reverse = back ++ rest) : Phase names (backward names ran x back rest)

/-- **What the services react to**: the event, what they emit, and the state after it. -/
inductive Moves (names : List String) : Choreo → String → List String → Choreo → Prop
  | start {x : String} {rest : List String} (h : names = x :: rest) :
      Moves names (reset names) "start" [doEvent x] (forward names [] names)
  | ok {x : String} {ran rest : List String} (h : names = ran ++ x :: rest) :
      Moves names (forward names ran (x :: rest)) (okOf x) ((rest.take 1).map doEvent)
        (forward names (ran ++ [x]) rest)
  | fail {x : String} {ran post : List String} (h : names = ran ++ x :: post) :
      Moves names (forward names ran (x :: post)) (failOf x) ((ran.reverse.take 1).map undoEvent)
        (backward names ran x [] ran.reverse)
  | undone {x y : String} {ran post back rest : List String} (h : names = ran ++ x :: post)
      (hback : ran.reverse = back ++ y :: rest) :
      Moves names (backward names ran x back (y :: rest)) (undoneOf y) ((rest.take 1).map undoEvent)
        (backward names ran x (back ++ [y]) rest)

theorem Moves.phase (h : Moves names s name out s') : Phase names s' := by
  cases h with
  | start h => exact Phase.forward rfl
  | ok h => exact Phase.forward (by rw [h, List.append_assoc]; rfl)
  | fail h => exact Phase.backward h rfl
  | undone h hback => exact Phase.backward h (by rw [hback, List.append_assoc]; rfl)

theorem Moves.of_eq {t : Choreo} (h : Moves names s name out t) (heq : t = s') : Moves names s name out s' := heq ▸ h

/-! ## The code -/

theorem idxOf?_eq (h : (ran ++ x :: rest).Nodup) : (ran ++ x :: rest).idxOf? x = some ran.length := by
  induction ran with
  | nil => rw [List.nil_append, List.idxOf?_cons, if_pos (beq_self_eq_true x)]; rfl
  | cons a ran ih =>
    obtain ⟨hnot, hrest⟩ := List.nodup_cons.mp h
    have hne : a ≠ x := fun e => hnot (e ▸ List.mem_append_right _ List.mem_cons_self)
    rw [List.cons_append, List.idxOf?_cons, if_neg (by simpa using hne), ih hrest]
    rfl

theorem handle_none (h : s.handle name = (s', none)) : s' = s := by
  have herase : ∀ {t : Finset String} {x}, x ∉ t → t.erase x = t := Finset.erase_eq_of_notMem
  unfold handle at h
  split at h
  · unfold onStart at h
    split at h
    · exact (Prod.mk.inj h).1.symm
    · split at h
      · exact (Prod.mk.inj h).1.symm
      · cases h
  · split at h
    · exact (Prod.mk.inj h).1.symm
    · split at h
      · exact (Prod.mk.inj h).1.symm
      · rename_i idx _
        split at h
        · unfold onOk at h
          split at h
          · exact (Prod.mk.inj h).1.symm
          · split at h
            · rename_i hnot
              rw [herase hnot] at h
              exact (Prod.mk.inj h).1.symm
            · split at h
              · cases h
              · cases h
        · unfold onFail at h
          split at h
          · exact (Prod.mk.inj h).1.symm
          · split at h
            · rename_i hnot
              rw [herase hnot] at h
              exact (Prod.mk.inj h).1.symm
            · cases h
        · unfold onUndone at h
          split at h
          · rename_i hnot
            rw [herase hnot] at h
            exact (Prod.mk.inj h).1.symm
          · cases h
        · exact (Prod.mk.inj h).1.symm

/-- What `event` records of an event reacted to. -/
def record (s : Choreo) (name : String) (out : List String) : Choreo :=
  { s with handled := s.handled ++ [name], emitted := s.emitted ++ out }

theorem onStart_moves (hp : Phase names s) (h : s.onStart = (s', some out)) :
    Moves names s "start" out (s'.record "start" out) := by
  unfold onStart at h
  split at h
  · cases h
  · rename_i hhandled
    cases hp with
    | forward => exact absurd (by simp [Choreo.forward]) hhandled
    | backward => exact absurd (by simp [Choreo.backward]) hhandled
    | idle =>
      cases names with
      | nil => cases h
      | cons x rest =>
        obtain ⟨rfl, hout⟩ := Prod.mk.inj h
        cases hout
        exact Moves.start rfl

variable {idx : Nat}

/-- **The live step** of a saga going forward is the first that has not succeeded. -/
theorem Phase.live (hp : Phase names s) (hnd : names.Nodup) (hforth : ¬ s.compensating = true) (hin : x ∈ s.inflightDo)
    (hidx : s.names.idxOf? x = some idx) :
    ∃ ran rest, names = ran ++ x :: rest ∧ s = Choreo.forward names ran (x :: rest) ∧ idx = ran.length := by
  cases hp with
  | idle => exact absurd hin (Finset.notMem_empty x)
  | backward => exact absurd rfl hforth
  | @forward ran rest hnames =>
    cases rest with
    | nil => exact absurd hin (Finset.notMem_empty x)
    | cons x' rest =>
      obtain rfl : x = x' := by simpa [Choreo.forward] using hin
      have hidx : names.idxOf? x = some idx := hidx
      rw [hnames, idxOf?_eq (hnames ▸ hnd)] at hidx
      exact ⟨ran, rest, hnames, rfl, (Option.some.inj hidx).symm⟩

theorem onOk_moves (hp : Phase names s) (hnd : names.Nodup)
    (hidx : s.names.idxOf? x = some idx) (h : s.onOk x idx = (s', some out)) :
    Moves names s (okOf x) out (s'.record (okOf x) out) := by
  unfold onOk at h
  split at h
  · cases h
  · rename_i hforth
    split at h
    · cases h
    · rename_i hin
      obtain ⟨ran, rest, hnames, rfl, rfl⟩ := hp.live hnd hforth (not_not.mp hin) hidx
      have hget : (Choreo.forward names ran (x :: rest)).names[ran.length + 1]? = rest.head? := by
        show names[ran.length + 1]? = _
        rw [hnames, List.getElem?_append_right (Nat.le_succ _), Nat.succ_eq_add_one,
          Nat.add_sub_cancel_left, List.getElem?_cons_succ, List.head?_eq_getElem?]
      rw [hget] at h
      have hmoves : Moves names (Choreo.forward names ran (x :: rest)) (okOf x)
          ((rest.take 1).map doEvent) (Choreo.forward names (ran ++ [x]) rest) := Moves.ok hnames
      cases rest with
      | nil =>
        obtain ⟨rfl, hout⟩ := Prod.mk.inj h
        cases hout
        refine hmoves.of_eq ?_
        apply Choreo.ext <;> simp [record, Choreo.forward]
      | cons y rest =>
        obtain ⟨rfl, hout⟩ := Prod.mk.inj h
        cases hout
        refine hmoves.of_eq ?_
        apply Choreo.ext <;> simp [record, Choreo.forward, did, doEvent]

theorem undoBefore_zero (s : Choreo) : s.undoBefore 0 = ({ s with outcome := .compensated }, []) := rfl

/-- `undo_before` finds the step just before. -/
theorem undoBefore_succ (h : s.names = rest.reverse ++ y :: post) :
    s.undoBefore (rest.length + 1) = ({ s with inflightUndo := insert y s.inflightUndo }, [undoEvent y]) := by
  have hget : s.names[rest.length]? = some y := by
    rw [h, List.getElem?_append_right (by simp)]
    simp
  unfold undoBefore
  dsimp only
  rw [hget]
  rfl

theorem onFail_moves (hp : Phase names s) (hnd : names.Nodup)
    (hidx : s.names.idxOf? x = some idx) (h : s.onFail x idx = (s', some out)) :
    Moves names s (failOf x) out (s'.record (failOf x) out) := by
  unfold onFail at h
  dsimp only at h
  split at h
  · cases h
  · rename_i hforth
    split at h
    · cases h
    · rename_i hin
      obtain ⟨ran, post, hnames, rfl, hlen⟩ := hp.live hnd hforth (not_not.mp hin) hidx
      rw [← List.length_reverse] at hlen
      have hmoves : Moves names (Choreo.forward names ran (x :: post)) (failOf x)
          ((ran.reverse.take 1).map undoEvent) (Choreo.backward names ran x [] ran.reverse) :=
        Moves.fail hnames
      rcases hrev : ran.reverse with _ | ⟨y, rest⟩
      · rw [hrev] at hmoves hlen
        rw [hlen, List.length_nil, undoBefore_zero] at h
        obtain ⟨rfl, hout⟩ := Prod.mk.inj h
        cases hout
        refine hmoves.of_eq ?_
        apply Choreo.ext <;> simp [record, Choreo.forward, Choreo.backward]
      · have hsplit : names = rest.reverse ++ y :: x :: post := by
          rw [hnames, ← List.reverse_reverse ran, hrev]
          simp
        rw [hrev] at hmoves hlen
        rw [hlen, List.length_cons, undoBefore_succ hsplit] at h
        obtain ⟨rfl, hout⟩ := Prod.mk.inj h
        cases hout
        refine hmoves.of_eq ?_
        apply Choreo.ext <;> simp [record, Choreo.forward, Choreo.backward]

theorem onUndone_moves (hp : Phase names s) (hnd : names.Nodup)
    (hidx : s.names.idxOf? x = some idx) (h : s.onUndone x idx = (s', some out)) :
    Moves names s (undoneOf x) out (s'.record (undoneOf x) out) := by
  unfold onUndone at h
  dsimp only at h
  split at h
  · cases h
  · rename_i hin
    have hin := not_not.mp hin
    cases hp with
    | idle => exact absurd hin (Finset.notMem_empty x)
    | forward => exact absurd hin (Finset.notMem_empty x)
    | @backward ran post back rest failed hnames hback =>
      cases rest with
      | nil => exact absurd hin (Finset.notMem_empty x)
      | cons x' rest =>
        obtain rfl : x = x' := by simpa [Choreo.backward] using hin
        -- the steps not yet undone stand before the live one
        have hsplit : names = rest.reverse ++ x :: (back.reverse ++ failed :: post) := by
          rw [hnames, ← List.reverse_reverse ran, hback]
          simp
        have hlen : idx = rest.length := by
          have hidx : names.idxOf? x = some idx := hidx
          rw [hsplit, idxOf?_eq (hsplit ▸ hnd), List.length_reverse] at hidx
          exact (Option.some.inj hidx).symm
        have hmoves : Moves names (Choreo.backward names ran failed back (x :: rest)) (undoneOf x)
            ((rest.take 1).map undoEvent) (Choreo.backward names ran failed (back ++ [x]) rest) :=
          Moves.undone hnames hback
        cases rest with
        | nil =>
          rw [hlen, List.length_nil, undoBefore_zero] at h
          obtain ⟨rfl, hout⟩ := Prod.mk.inj h
          cases hout
          refine hmoves.of_eq ?_
          apply Choreo.ext <;> simp [record, Choreo.backward, undid]
        | cons y rest =>
          rw [List.reverse_cons, List.append_assoc] at hsplit
          rw [hlen, List.length_cons, undoBefore_succ hsplit] at h
          obtain ⟨rfl, hout⟩ := Prod.mk.inj h
          cases hout
          refine hmoves.of_eq ?_
          apply Choreo.ext <;> simp [record, Choreo.backward, undid, undoEvent]

theorem handle_moves (hp : Phase names s) (hnd : names.Nodup)
    (h : s.handle name = (s', some out)) : Moves names s name out (s'.record name out) := by
  have hsuffix : ∀ {w x k : String}, rsplitOnce '.' w = some (x, k) → w = x ++ ("." ++ k) :=
    fun h => (eq_of_rsplitOnce h).trans (String.append_assoc ..)
  unfold handle at h
  split at h
  · rename_i hstart
    rw [hstart]
    exact onStart_moves hp h
  · split at h
    · cases h
    · rename_i x kind hsplit
      split at h
      · cases h
      · rename_i idx hidx
        rw [hsuffix hsplit]
        split at h
        · exact onOk_moves hp hnd hidx h
        · exact onFail_moves hp hnd hidx h
        · exact onUndone_moves hp hnd hidx h
        · cases h

/-- **An event in a phase**: it changes nothing, or the services react to it. -/
theorem event_moves (hp : Phase names s) (hnd : names.Nodup) (h : s.event name = (s', v)) :
    (s' = s ∧ ∃ duplicate, v = answer [] duplicate s.ledger) ∨
    ∃ out, Moves names s name out s' ∧ v = answer out false s'.ledger := by
  unfold event at h
  split at h
  · cases h
    exact .inl ⟨rfl, true, rfl⟩
  · split at h
    · rename_i s₁ out hhandle
      cases h
      exact .inr ⟨out, handle_moves hp hnd hhandle, rfl⟩
    · rename_i s₁ hhandle
      cases h
      obtain rfl := handle_none hhandle
      exact .inl ⟨rfl, false, rfl⟩

/-! ## What a phase says -/

/-- Some step failed, and every step before it has been undone. -/
def ChainUndone (names : List String) (s : Choreo) : Prop :=
  ∃ ran x post, names = ran ++ x :: post ∧ failOf x ∈ s.handled ∧ ∀ y ∈ ran, undoneOf y ∈ s.handled

/-- Every step has succeeded. -/
def AllOk (names : List String) (s : Choreo) : Prop := ∀ x ∈ names, okOf x ∈ s.handled

/-- The ledger is the first `k` steps and then `j` compensations from the step before the last of
them, which failed if there is any. -/
def LedgerShape (names : List String) (s : Choreo) : Prop :=
  ∃ k j, k ≤ names.length ∧ j ≤ k - 1 ∧
    s.ledger = (names.take k).map did ++ ((names.take (k - 1)).reverse.take j).map undid ∧
    (0 < j → ∃ x, names[k - 1]? = some x ∧ failOf x ∈ s.handled)

/-- The state at any time. -/
structure Sound (names : List String) (s : Choreo) : Prop where
  ledger : LedgerShape names s
  committed : s.outcome = .committed ↔ AllOk names s
  compensated : s.outcome = .compensated ↔ ChainUndone names s
  notBoth : ¬ (AllOk names s ∧ ChainUndone names s)
  emitted : s.emitted.Nodup

theorem ok_mem_forward : okOf x ∈ (forward names ran rest).handled ↔ x ∈ ran := by
  show okOf x ∈ "start" :: ran.map okOf ↔ _
  rw [List.mem_cons, mem_events split_ok]
  exact or_iff_right (ne_of_split (split_ok x) split_start (by simp))

theorem fail_not_mem_forward : failOf x ∉ (forward names ran rest).handled := by
  show failOf x ∉ "start" :: ran.map okOf
  rw [List.mem_cons, not_or]
  exact ⟨ne_of_split (split_fail x) split_start (by simp),
    not_mem_events split_ok (fun y => split_fail x ▸ by simp) ran⟩

theorem ok_mem_backward : okOf y ∈ (backward names ran x back rest).handled ↔ y ∈ ran := by
  show okOf y ∈ "start" :: (ran.map okOf ++ failOf x :: back.map undoneOf) ↔ _
  rw [List.mem_cons, List.mem_append, List.mem_cons, mem_events split_ok]
  have hstart : okOf y ≠ "start" := ne_of_split (split_ok y) split_start (by simp)
  have hfail : okOf y ≠ failOf x := ne_of_split (split_ok y) (split_fail x) (by simp)
  have hundone := not_mem_events (f := undoneOf) (a := okOf y) split_undone
    (fun z => split_ok y ▸ by simp) back
  rw [or_iff_right hstart, or_iff_left (not_or.mpr ⟨hfail, hundone⟩)]

theorem fail_mem_backward : failOf y ∈ (backward names ran x back rest).handled ↔ y = x := by
  show failOf y ∈ "start" :: (ran.map okOf ++ failOf x :: back.map undoneOf) ↔ _
  rw [List.mem_cons, List.mem_append, List.mem_cons]
  have hstart : failOf y ≠ "start" := ne_of_split (split_fail y) split_start (by simp)
  have hok := not_mem_events (f := okOf) (a := failOf y) split_ok (fun z => split_fail y ▸ by simp) ran
  have hundone := not_mem_events (f := undoneOf) (a := failOf y) split_undone
    (fun z => split_fail y ▸ by simp) back
  rw [or_iff_right hstart, or_iff_right hok, or_iff_left hundone]
  constructor
  · intro h
    have hsplit := (split_fail y).symm.trans (h ▸ split_fail x)
    exact (Prod.mk.inj (Option.some.inj hsplit)).1
  · intro h
    rw [h]

theorem undone_mem_backward : undoneOf y ∈ (backward names ran x back rest).handled ↔ y ∈ back := by
  show undoneOf y ∈ "start" :: (ran.map okOf ++ failOf x :: back.map undoneOf) ↔ _
  rw [List.mem_cons, List.mem_append, List.mem_cons, mem_events split_undone]
  have hstart : undoneOf y ≠ "start" := ne_of_split (split_undone y) split_start (by simp)
  have hok := not_mem_events (f := okOf) (a := undoneOf y) split_ok
    (fun z => split_undone y ▸ by simp) ran
  have hfail : undoneOf y ≠ failOf x := ne_of_split (split_undone y) (split_fail x) (by simp)
  rw [or_iff_right hstart, or_iff_right hok, or_iff_right hfail]

theorem take_length_le (l : List String) : (l.take 1).length ≤ l.length := by
  rw [List.length_take]
  exact Nat.min_le_right ..

theorem sound_idle (hne : names ≠ []) : Sound names (reset names) := by
  have hok : ¬ AllOk names (reset names) := fun h => by
    obtain ⟨x, hx⟩ := List.exists_mem_of_ne_nil names hne
    exact absurd (h x hx) List.not_mem_nil
  have hundone : ¬ ChainUndone names (reset names) := by
    rintro ⟨ran, x, post, -, hfail, -⟩
    cases hfail
  refine ⟨⟨0, 0, Nat.zero_le _, Nat.le_refl _, rfl, nofun⟩, ?_, ?_,
    fun h => hok h.1, List.nodup_nil⟩
  · exact iff_of_false (by simp [reset]) hok
  · exact iff_of_false (by simp [reset]) hundone

theorem sound_forward (hnd : names.Nodup) (h : names = ran ++ rest) : Sound names (forward names ran rest) := by
  have hok : AllOk names (forward names ran rest) ↔ rest = [] := by
    constructor
    · intro hall
      cases rest with
      | nil => rfl
      | cons x rest =>
        have hx : x ∈ ran := ok_mem_forward.mp (hall x (h ▸ List.mem_append_right _ List.mem_cons_self))
        rw [h] at hnd
        exact absurd rfl ((List.nodup_append.mp hnd).2.2 x hx x List.mem_cons_self)
    · rintro rfl x hx
      rw [h, List.append_nil] at hx
      exact ok_mem_forward.mpr hx
  have hundone : ¬ ChainUndone names (forward names ran rest) := by
    rintro ⟨ran', x, post, -, hfail, -⟩
    exact fail_not_mem_forward hfail
  refine ⟨⟨(ran ++ rest.take 1).length, 0, ?_, Nat.zero_le _, ?_, nofun⟩,
    ?_, ?_, fun h => hundone h.2, ?_⟩
  · rw [h, List.length_append, List.length_append]
    exact Nat.add_le_add_left (take_length_le rest) _
  · have htake : names.take (ran ++ rest.take 1).length = ran ++ rest.take 1 := by
      rw [h]
      conv_lhs => rw [← List.take_append_drop 1 rest, ← List.append_assoc]
      rw [List.take_append_drop, List.take_left' rfl]
    rw [htake, List.take_zero, List.map_nil, List.append_nil]
    rfl
  · rw [hok]
    show (if rest = [] then Outcome.committed else Outcome.running) = Outcome.committed ↔ _
    split
    · rename_i hrest
      exact iff_of_true rfl hrest
    · rename_i hrest
      exact iff_of_false (by simp) hrest
  · refine iff_of_false ?_ hundone
    show (if rest = [] then Outcome.committed else Outcome.running) ≠ Outcome.compensated
    split
    · simp
    · simp
  · refine nodup_events split_do ?_
    rw [h] at hnd
    exact hnd.sublist (List.Sublist.append_left (List.take_sublist 1 rest) ran)

theorem sound_backward (hnd : names.Nodup) (h : names = ran ++ x :: post)
    (hback : ran.reverse = back ++ rest) : Sound names (backward names ran x back rest) := by
  have hran : ran.Nodup := (List.nodup_append.mp (h ▸ hnd)).1
  have hx : x ∉ ran := fun hx =>
    (List.nodup_append.mp (h ▸ hnd)).2.2 x hx x List.mem_cons_self rfl
  have hrev : (back ++ rest).Nodup := hback ▸ List.nodup_reverse.mpr hran
  have hok : ¬ AllOk names (backward names ran x back rest) := fun hall =>
    hx (ok_mem_backward.mp (hall x (h ▸ List.mem_append_right _ List.mem_cons_self)))
  have hundone : ChainUndone names (backward names ran x back rest) ↔ rest = [] := by
    constructor
    · rintro ⟨ran', x', post', h', hfail, hall⟩
      obtain rfl := fail_mem_backward.mp hfail
      obtain rfl : ran = ran' := by
        have hlen : some ran.length = some ran'.length := by
          rw [← idxOf?_eq (h ▸ hnd), ← idxOf?_eq (h' ▸ hnd), ← h, ← h']
        have heq : ran ++ x' :: post = ran' ++ x' :: post' := h.symm.trans h'
        exact (List.append_inj heq (Option.some.inj hlen)).1
      cases rest with
      | nil => rfl
      | cons y rest =>
        have hy : y ∈ ran := List.mem_reverse.mp (hback ▸ List.mem_append_right _ List.mem_cons_self)
        have hyback := undone_mem_backward.mp (hall y hy)
        exact absurd rfl ((List.nodup_append.mp hrev).2.2 y hyback y List.mem_cons_self)
    · rintro rfl
      refine ⟨ran, x, post, h, fail_mem_backward.mpr rfl, fun y hy => undone_mem_backward.mpr ?_⟩
      rw [List.append_nil] at hback
      exact hback ▸ List.mem_reverse.mpr hy
  refine ⟨⟨ran.length + 1, back.length, ?_, ?_, ?_, fun _ => ⟨x, ?_, fail_mem_backward.mpr rfl⟩⟩,
    ?_, ?_, fun h => hok h.1, ?_⟩
  · rw [h, List.length_append, List.length_cons]
    omega
  · have hlen := congrArg List.length hback
    rw [List.length_reverse, List.length_append] at hlen
    omega
  · have htake : names.take (ran.length + 1) = ran ++ [x] := by
      rw [h, List.take_append]
      simp
    have htake' : names.take (ran.length + 1 - 1) = ran := by
      rw [h, Nat.add_sub_cancel, List.take_left' rfl]
    rw [htake, htake', hback, List.take_left' rfl]
    rfl
  · rw [h, Nat.add_sub_cancel, List.getElem?_append_right (Nat.le_refl _), Nat.sub_self,
      List.getElem?_cons_zero]
  · refine iff_of_false ?_ hok
    show (if rest = [] then Outcome.compensated else Outcome.running) ≠ Outcome.committed
    split
    · simp
    · simp
  · rw [hundone]
    show (if rest = [] then Outcome.compensated else Outcome.running) = Outcome.compensated ↔ _
    split
    · rename_i hrest
      exact iff_of_true rfl hrest
    · rename_i hrest
      exact iff_of_false (by simp) hrest
  · show ((ran ++ [x]).map doEvent ++ (back ++ rest.take 1).map undoEvent).Nodup
    refine List.nodup_append.mpr ⟨nodup_events split_do ?_, nodup_events split_undo ?_, ?_⟩
    · exact List.nodup_append.mpr ⟨hran, List.nodup_singleton x, fun a ha b hb e =>
        hx (List.mem_singleton.mp hb ▸ e ▸ ha)⟩
    · exact hrev.sublist (List.Sublist.append_left (List.take_sublist 1 rest) back)
    · intro a ha b hb e
      obtain ⟨y, -, rfl⟩ := List.mem_map.mp ha
      obtain ⟨z, -, rfl⟩ := List.mem_map.mp hb
      exact ne_of_split (split_do y) (split_undo z) (by simp) e

theorem Phase.sound (hne : names ≠ []) (hnd : names.Nodup) (h : Phase names s) : Sound names s := by
  cases h with
  | idle => exact sound_idle hne
  | forward h => exact sound_forward hnd h
  | backward h hback => exact sound_backward hnd h hback

/-! ## Runs -/

/-- The events that an answer emits. -/
def emittedIn (v : Value) : List String :=
  match v.get "emitted" with
  | some (.arr items) => items.filterMap Value.asStr
  | _ => []

/-- What a command emitted; `state` only lists what was emitted before. -/
def emittedBy (e : Event Choreo Line Value) : List String :=
  if e.input.command = "event" then emittedIn e.output else []

theorem emittedIn_answer (out : List String) (duplicate : Bool) (ledger : List String) :
    emittedIn (answer out duplicate ledger) = out := by
  show (out.map Value.str).filterMap Value.asStr = out
  rw [List.filterMap_map]
  exact List.filterMap_some

theorem emittedIn_err (message : String) : emittedIn (err message) = [] := rfl

/-- **Every command on a saga**: it changes nothing, or the services react to its event. -/
theorem step_moves [Host] {l : Line} (hp : Phase names s) (hnd : names.Nodup)
    (hl : l.command ≠ "init") (hs : onLine step s l = some (s', v)) :
    (s' = s ∧ (l.command = "event" → emittedIn v = [])) ∨
    ∃ name, l.command = "event" ∧ Moves names s name (emittedIn v) s' := by
  obtain ⟨command, args⟩ := l
  unfold onLine step at hs
  dsimp only at hs
  split at hs
  case h_1 => exact absurd rfl hl
  case h_2 =>
    rcases arg_eq_some.mp hs with ⟨hbad, rfl⟩ | ⟨name, -, hs⟩
    · obtain ⟨message, rfl⟩ := word_error hbad
      exact .inl ⟨rfl, fun _ => emittedIn_err message⟩
    · rcases event_moves hp hnd (Option.some.inj hs) with ⟨rfl, duplicate, rfl⟩ | ⟨out, hmoves, rfl⟩
      · exact .inl ⟨rfl, fun _ => emittedIn_answer ..⟩
      · refine .inr ⟨name, rfl, ?_⟩
        rw [emittedIn_answer]
        exact hmoves
  case h_3 =>
    exact Or.inl ⟨(state_eq hs), fun h => absurd h (by simp)⟩
  case h_4 =>
    exact Or.inl ⟨(state_eq hs), fun h => absurd h (by simp)⟩
  case h_5 =>
    exact Or.inl ⟨(Prod.mk.inj (Option.some.inj hs)).1.symm, fun h => absurd h (by simp)⟩
  case h_6 =>
    cases hs
    exact Or.inl ⟨rfl, fun _ => emittedIn_err _⟩

theorem Moves.emitted (h : Moves names s name out s') : s'.emitted = s.emitted ++ out := by
  cases h with
  | start h => rw [h]; rfl
  | ok h => simp [Choreo.forward]
  | fail h => simp [Choreo.forward, Choreo.backward]
  | undone h hback => simp [Choreo.backward]

theorem Moves.ledger_of_failed (h : Moves names s name out s') (hfail : failOf x ∈ s.handled) :
    ∃ y, s'.ledger = s.ledger ++ [undid y] := by
  cases h with
  | start h => cases hfail
  | ok h => exact absurd hfail fail_not_mem_forward
  | fail h => exact absurd hfail fail_not_mem_forward
  | @undone z y ran post back rest h hback => exact ⟨y, by simp [Choreo.backward]⟩

theorem absorbed [Host] {l : Line} (hl : l.command = "event") (hname : word l.args 0 = .ok name)
    (hs : onLine step s l = some (s', v))
    (h : v.flagAt "duplicate" = some true ∨ (s.handle name).2 = none) : s' = s := by
  obtain ⟨command, args⟩ := l
  obtain rfl : command = "event" := hl
  have hs : arg s (word args 0) (fun name => some (s.event name)) = some (s', v) := hs
  rw [show word args 0 = .ok name from hname, arg_ok] at hs
  have hs := Option.some.inj hs
  unfold event at hs
  split at hs
  · exact (Prod.mk.inj hs).1.symm
  · split at hs
    · rename_i s₁ out hhandle
      cases hs
      rcases h with h | h
      · cases Option.some.inj h
      · rw [hhandle] at h
        cases h
    · rename_i s₁ hhandle
      rw [← (Prod.mk.inj hs).1]
      exact handle_none hhandle

/-- **A choreographed saga**, after every run of events. -/
theorem choreographed_saga [Host] {es : List (Event Choreo Line Value)} (hne : names ≠ [])
    (hnd : names.Nodup) (hrun : Run (onLine step) (reset names) es s)
    (hkept : ∀ e ∈ es, e.input.command ≠ "init") :
    Sound names s ∧
    (es.flatMap emittedBy).Nodup ∧
    (∀ e ∈ es, ∀ x, failOf x ∈ e.before.handled →
      e.after.ledger = e.before.ledger ∨ ∃ y, e.after.ledger = e.before.ledger ++ [undid y]) ∧
    ∀ e ∈ es, ∀ name, e.input.command = "event" → word e.input.args 0 = .ok name →
      e.output.flagAt "duplicate" = some true ∨ (e.before.handle name).2 = none →
      e.after = e.before := by
  have hphase : ∀ {es : List (Event Choreo Line Value)} {s}, Run (onLine step) (reset names) es s →
      (∀ e ∈ es, e.input.command ≠ "init") → Phase names s ∧ es.flatMap emittedBy = s.emitted := by
    intro es s hrun hkept
    refine hrun.history_invariant (P := fun es s => Phase names s ∧ es.flatMap emittedBy = s.emitted)
      (G := fun e => e.input.command ≠ "init") ⟨Phase.idle, rfl⟩ ?_ hkept
    rintro es s l s' v ⟨hp, hemitted⟩ hl hs
    rw [List.flatMap_append, hemitted, List.flatMap_singleton]
    unfold emittedBy
    rcases step_moves hp hnd hl hs with ⟨rfl, hv⟩ | ⟨name, hevent, hmoves⟩
    · refine ⟨hp, ?_⟩
      split
      · rename_i hevent
        rw [hv hevent, List.append_nil]
      · rw [List.append_nil]
    · refine ⟨hmoves.phase, ?_⟩
      rw [if_pos hevent]
      exact hmoves.emitted.symm
  have hsound : Sound names s := (hphase hrun hkept).1.sound hne hnd
  refine ⟨hsound, (hphase hrun hkept).2 ▸ hsound.emitted, fun e he x hfail => ?_,
    fun e he name hl hname h => absorbed hl hname (hrun.step_of_mem he) h⟩
  obtain ⟨es₁, es₂, hsplit⟩ := List.append_of_mem he
  have hbefore := hphase (hrun.split hsplit)
    fun e he => hkept e (hsplit ▸ List.mem_append_left _ he)
  rcases step_moves hbefore.1 hnd (hkept e he) (hrun.step_of_mem he) with ⟨hsame, -⟩ |
    ⟨name, -, hmoves⟩
  · exact .inl (congrArg Choreo.ledger hsame)
  · exact .inr (hmoves.ledger_of_failed hfail)

/-! Three steps: the third fails, the other two are undone, and the rest comes too late or twice. -/

@[reducible] def noJson : Host := hostOf []

def thirdFails : List Line :=
  [⟨"event", ["a.ok"]⟩, ⟨"event", ["start"]⟩, ⟨"event", ["a.ok"]⟩, ⟨"event", ["b.ok"]⟩,
    ⟨"event", ["c.fail"]⟩, ⟨"event", ["c.ok"]⟩, ⟨"event", ["b.undone"]⟩, ⟨"event", ["b.undone"]⟩,
    ⟨"event", ["a.undone"]⟩]

def keptLine (e : Event Choreo Line Value) : Bool := e.input.command != "init"

theorem choreographed_saga_thirdFails : ∃ es s,
    Run (onLine (@step noJson)) (reset ["a", "b", "c"]) es s ∧ es.map Event.input = thirdFails ∧
    s.ledger = ["do:a", "do:b", "do:c", "undo:b", "undo:a"] ∧ s.outcome = .compensated ∧
    Sound ["a", "b", "c"] s ∧ (es.flatMap emittedBy).Nodup := by
  let _ : Host := noJson
  obtain ⟨es, s, hrun, hinputs, hledger, houtcome, hall⟩ : ∃ es s,
      Run (onLine step) (reset ["a", "b", "c"]) es s ∧ es.map Event.input = thirdFails ∧
      s.ledger = ["do:a", "do:b", "do:c", "undo:b", "undo:a"] ∧ s.outcome = .compensated ∧
      es.all keptLine = true :=
    ⟨_, _, run_of_exec thirdFails rfl, rfl, rfl, rfl, rfl⟩
  have hsaga := choreographed_saga (by simp) (by decide) hrun
    fun e he => bne_iff_ne.mp (List.all_eq_true.mp hall e he)
  exact ⟨es, s, hrun, hinputs, hledger, houtcome, hsaga.1, hsaga.2.1⟩

end BuildYourOwn.Patterns.Choreo
