import Mathlib.Order.Monotone.Basic
import BuildYourOwn.Byo.Journey

/-!
# What a poll has caught up with

A refresh remembers the newest run of a track before it has fetched its report, and learns only once that the run list
is old. Where a request behind a successful progress request fails, what is remembered runs ahead of what was fetched,
and no later poll repairs it. Where none of these has failed (`Steady`), all that is remembered has been fetched
(`Held`).

Headline: `caught_up`.
-/

namespace BuildYourOwn.Byo

open Lib Lib.Action

/-! ## Being up to date -/

section
variable (net : Network)

def Growing : Prop :=
  ∀ track s s' v, s ≤ s' → (net.world s).progress.latestRunId track = some v →
    ∃ v', (net.world s').progress.latestRunId track = some v' ∧ v ≤ v'

/-- The newest run of a track became `v` at the time `T`. -/
def Took (track : Track) (v : Int) (T : Nat) : Prop :=
  (net.world T).progress.latestRunId track = some v ∧
    ∀ s, T = s + 1 → (net.world s).progress.latestRunId track ≠ some v

structure CaughtUp (s : Session) : Prop where
  never : ∀ track, s.store.data.latestRunId track = none → s.store.latest track = none
  latest : ∀ track v, s.store.data.latestRunId track = some v → ∃ f, ⟨.latest track, f, true⟩ ∈ s.log ∧
    s.store.latest track = (net.world f).latest track ∧ ∀ T, Took net track v T → T ≤ f
  runs : (∃ track v, s.store.data.latestRunId track = some v) → ∃ f, ⟨.runs, f, true⟩ ∈ s.log ∧
    signature s.store.runs = signature ((net.world f).runs.take 25) ∧
    ∀ track v, s.store.data.latestRunId track = some v → ∀ T, Took net track v T → T ≤ f

end

/-- No request for a report or for the run list has failed. -/
def Steady (s : Session) : Prop := ∀ e ∈ s.log, e.ok = false → e.fetch ∈ [Fetch.health, .tracks, .progress]

instance (s : Session) : Decidable (Steady s) :=
  List.decidableBAll (fun e : Exchange => e.ok = false → e.fetch ∈ [Fetch.health, .tracks, .progress]) s.log

/-! ## What is remembered has been fetched -/

section
variable {net : Network} {s s' : Session} {track : Track} {v : Int} {f : Nat}

/-- The newest run was `v` before `f`. -/
def Seen (net : Network) (track : Track) (v : Int) (f : Nat) : Prop :=
  ∃ p, p ≤ f ∧ (net.world p).progress.latestRunId track = some v

theorem Seen.took_le {T : Nat} (h : Seen net track v f) (hgrow : Growing net) (htook : Took net track v T) : T ≤ f := by
  obtain ⟨p, hpf, hp⟩ := h
  by_contra hlt
  obtain ⟨t, rfl⟩ : ∃ t, T = t + 1 := ⟨T - 1, by omega⟩
  obtain ⟨v', hv', hle⟩ := hgrow track p t v (by omega) hp
  obtain ⟨v'', hv'', hle'⟩ := hgrow track t (t + 1) v' (by omega) hv'
  rw [htook.1] at hv''
  cases hv''
  exact htook.2 t rfl (hv'.trans (congrArg some (by omega)))

def Got (net : Network) (track : Track) (log : List Exchange) (report : Option Report) : Option Int → Prop
  | none => report = none
  | some v => ∃ f, ⟨.latest track, f, true⟩ ∈ log ∧ report = (net.world f).latest track ∧ Seen net track v f

theorem Got.mono {log log' : List Exchange} {report : Option Report} {id : Option Int} (h : Got net track log report id)
    (hlog : log ⊆ log') : Got net track log' report id := by
  cases id with
  | none => exact h
  | some v =>
    obtain ⟨f, hf, hrest⟩ := h
    exact ⟨f, hlog hf, hrest⟩

def LatestHeld (net : Network) (s : Session) (track : Track) : Prop :=
  Got net track s.log (s.store.latest track) (s.store.latestIds track)

def RunsHeld (net : Network) (s : Session) : Prop :=
  (∃ track v, s.store.latestIds track = some v) → ∃ f, ⟨.runs, f, true⟩ ∈ s.log ∧
    s.store.runsSignature = signature ((net.world f).runs.take 25) ∧
    ∀ track v, s.store.latestIds track = some v → Seen net track v f

structure Held (net : Network) (s : Session) : Prop where
  shown : s.store.latestIds = s.store.data.latestRunId
  signed : s.store.runsSignature = signature s.store.runs
  latest : ∀ track, LatestHeld net s track
  runs : RunsHeld net s

theorem Held.caughtUp (h : Held net s) (hgrow : Growing net) : CaughtUp net s := by
  have hids : ∀ track, s.store.data.latestRunId track = s.store.latestIds track := fun track =>
    congrFun h.shown.symm track
  refine ⟨fun track hnone => ?_, fun track v hv => ?_, fun hsome => ?_⟩
  · have hlatest := h.latest track
    unfold LatestHeld at hlatest
    rwa [← hids, hnone] at hlatest
  · have hlatest := h.latest track
    unfold LatestHeld at hlatest
    rw [← hids, hv] at hlatest
    obtain ⟨f, hf, hshown, hseen⟩ := hlatest
    exact ⟨f, hf, hshown, fun T htook => hseen.took_le hgrow htook⟩
  · obtain ⟨track, v, hv⟩ := hsome
    obtain ⟨f, hf, hsigned, hseen⟩ := h.runs ⟨track, v, (hids track).symm.trans hv⟩
    refine ⟨f, hf, h.signed.symm.trans hsigned, fun track' v' hv' T htook => ?_⟩
    exact (hseen track' v' ((hids track').symm.trans hv')).took_le hgrow htook

/-! ## One request -/

theorem ends_ask {α : Type} {fetch : Fetch} {answer : World → α} {Q : Except Unit α → Session → Prop} :
    Ends False Q (ask net fetch answer s) ↔
      if net.down s.asked then Q (.error ()) ⟨s.store, s.asked + 1, ⟨fetch, net.time s.asked, false⟩ :: s.log⟩
      else Q (.ok (answer (net.world (net.time s.asked))))
        ⟨s.store, s.asked + 1, ⟨fetch, net.time s.asked, true⟩ :: s.log⟩ := by
  unfold ask
  split <;> exact Iff.rfl

theorem ends_update {g : JourneyStore → JourneyStore} {Q : Except Unit Unit → Session → Prop} :
    Ends False Q (update g s) ↔ Q (.ok ()) { s with store := g s.store } := Iff.rfl

/-- Later in the same refresh, with nothing new remembered. -/
structure Onward (s s' : Session) : Prop where
  log : s.log ⊆ s'.log
  asked : s.asked ≤ s'.asked
  ids : s'.store.latestIds = s.store.latestIds
  latest : s'.store.latest = s.store.latest
  runs : s'.store.runs = s.store.runs
  signed : s'.store.runsSignature = s.store.runsSignature

theorem Onward.refl (s : Session) : Onward s s := ⟨List.Subset.refl _, Nat.le_refl _, rfl, rfl, rfl, rfl⟩

theorem Onward.trans {s'' : Session} (h : Onward s s') (h' : Onward s' s'') : Onward s s'' where
  log := List.Subset.trans h.log h'.log
  asked := Nat.le_trans h.asked h'.asked
  ids := h'.ids.trans h.ids
  latest := h'.latest.trans h.latest
  runs := h'.runs.trans h.runs
  signed := h'.signed.trans h.signed

theorem Onward.latestHeld (h : Onward s s') (hheld : LatestHeld net s track) : LatestHeld net s' track := by
  unfold LatestHeld at *
  rw [h.ids, h.latest]
  exact hheld.mono h.log

theorem Onward.runsHeld (h : Onward s s') (hheld : RunsHeld net s) : RunsHeld net s' := by
  unfold RunsHeld at *
  rw [h.ids, h.signed]
  intro hsome
  obtain ⟨f, hf, hrest⟩ := hheld hsome
  exact ⟨f, h.log hf, hrest⟩

theorem Steady.of_subset (h : Steady s') (hlog : s.log ⊆ s'.log) : Steady s := fun e he => h e (hlog he)

theorem onward_asked (e : Exchange) : Onward s ⟨s.store, s.asked + 1, e :: s.log⟩ where
  log := List.subset_cons_self _ _
  asked := Nat.le_succ _
  ids := rfl
  latest := rfl
  runs := rfl
  signed := rfl

theorem onward_store {store : JourneyStore} (hids : store.latestIds = s.store.latestIds)
    (hlatest : store.latest = s.store.latest) (hruns : store.runs = s.store.runs)
    (hsigned : store.runsSignature = s.store.runsSignature) : Onward s { s with store } where
  log := List.Subset.refl _
  asked := Nat.le_refl _
  ids := hids
  latest := hlatest
  runs := hruns
  signed := hsigned

theorem ends_askOrNull {α : Type} {fetch : Fetch} {answer : World → Option α} :
    Ends False (Gives (fun _ t => Onward s t ∧ t.store = s.store) fun _ _ => False) (askOrNull net fetch answer s) := by
  refine ends_bind.mpr (ends_attempt.mpr (ends_ask.mpr ?_))
  split
  · exact ⟨onward_asked _, rfl⟩
  · exact ⟨onward_asked _, rfl⟩

theorem ends_probe :
    Ends False (Gives (fun _ t => Onward s t ∧ t.store.data = s.store.data) fun _ _ => False) (probe net s) := by
  refine ends_bind.mpr (ends_get.mpr ?_)
  show Action.Ends False _ ((if s.store.stale then _ else _ : Poll Bool) s)
  split
  · refine ends_bind.mpr (ends_askOrNull.mono fun r t hr => ?_)
    match r with
    | .error _ => exact hr.elim
    | .ok none =>
      have hdata : t.store.data = s.store.data := congrArg JourneyStore.data hr.2
      exact ⟨hr.1.trans (onward_store rfl rfl rfl rfl), hdata⟩
    | .ok (some health) =>
      refine ends_bind.mpr (ends_update.mpr (ends_bind.mpr (ends_askOrNull.mono fun r' u hu => ?_)))
      match r' with
      | .error _ => exact hu.elim
      | .ok tracks =>
        have ht : t.store.data = s.store.data := congrArg JourneyStore.data hr.2
        have hdata : u.store.data = s.store.data := (congrArg JourneyStore.data hu.2).trans ht
        refine ⟨hr.1.trans (Onward.trans (onward_store ?_ ?_ ?_ ?_) (hu.1.trans (onward_store rfl rfl rfl rfl))), hdata⟩
        all_goals rfl
  · exact ⟨Onward.refl s, rfl⟩

/-! ## The loop over the tracks -/

/-- What the loop leaves when it comes to its end. -/
structure Followed (net : Network) (progress : ApiProgress) (tracks : List Track) (moved : Bool) (s s' : Session) :
    Prop where
  log : s.log ⊆ s'.log
  asked : s.asked ≤ s'.asked
  data : s'.store.data = s.store.data
  runs : s'.store.runs = s.store.runs
  signed : s'.store.runsSignature = s.store.runsSignature
  named : ∀ track, s.store.latestIds track = progress.latestRunId track ∨ track ∈ tracks →
    s'.store.latestIds track = progress.latestRunId track
  held : (∀ track, LatestHeld net s track) → ∀ track, LatestHeld net s' track
  still : moved = false → s'.store.latestIds = s.store.latestIds

/-- Where a request fails behind the one for the progress. -/
def Broken (s s' : Session) : Prop := s.log ⊆ s'.log ∧ ¬ Steady s'

variable {progress : ApiProgress} {p : Nat}

theorem ends_fetchLatest (hprogress : progress = (net.world p).progress) (hp : p ≤ net.time s.asked) :
    Ends False (Gives (fun report t => t.store = s.store ∧ s.log ⊆ t.log ∧ s.asked ≤ t.asked ∧
        Got net track t.log report (progress.latestRunId track)) fun _ t => Broken s t)
      (fetchLatest net track (progress.latestRunId track) s) := by
  cases hid : progress.latestRunId track with
  | none => exact ⟨rfl, List.Subset.refl _, Nat.le_refl _, rfl⟩
  | some v =>
    show Ends False _ (ask net (.latest track) (fun w => w.latest track) s)
    refine ends_ask.mpr ?_
    split
    · refine ⟨List.subset_cons_self _ _, fun h => ?_⟩
      have hlatest := h ⟨.latest track, net.time s.asked, false⟩ List.mem_cons_self rfl
      simp at hlatest
    · refine ⟨rfl, List.subset_cons_self _ _, Nat.le_succ _, net.time s.asked, List.mem_cons_self, rfl, p, hp, ?_⟩
      rw [← hprogress, hid]

theorem ends_catchUp (hprogress : progress = (net.world p).progress) (htime : Monotone net.time) (tracks : List Track)
    (hp : p ≤ net.time s.asked) :
    Ends False (Gives (fun moved t => Followed net progress tracks moved s t) fun _ t => Broken s t)
      (catchUp net progress tracks s) := by
  induction tracks generalizing s with
  | nil =>
    exact ⟨List.Subset.refl _, Nat.le_refl _, rfl, rfl, rfl, fun track h => h.resolve_right List.not_mem_nil, id,
      fun _ => rfl⟩
  | cons track tracks ih =>
    refine ends_bind.mpr (ends_get.mpr ?_)
    show Action.Ends False _ ((if progress.latestRunId track = s.store.latestIds track then _ else _ : Poll Bool) s)
    by_cases hid : progress.latestRunId track = s.store.latestIds track
    · rw [if_pos hid]
      refine (ih hp).mono fun r t hr => ?_
      cases r with
      | error _ => exact hr
      | ok moved =>
        refine ⟨hr.log, hr.asked, hr.data, hr.runs, hr.signed, fun track' h => hr.named track' ?_, hr.held, hr.still⟩
        rcases h with h | h
        · exact .inl h
        · rcases List.mem_cons.mp h with rfl | h
          · exact .inl hid.symm
          · exact .inr h
    · rw [if_neg hid]
      have hfetch := @ends_fetchLatest net track progress p (s := { s with store := { s.store with
        latestIds := Function.update s.store.latestIds track (progress.latestRunId track) } }) hprogress hp
      refine ends_bind.mpr (ends_update.mpr (ends_bind.mpr (hfetch.mono fun r t hr => ?_)))
      cases r with
      | error _ => exact hr
      | ok report =>
        obtain ⟨hstore, hlog, hasked, hgot⟩ := hr
        obtain ⟨store, asked, log⟩ := t
        cases hstore
        refine ends_bind.mpr (ends_update.mpr (ends_bind.mpr ((ih ?_).mono fun r u hu => ?_)))
        · exact Nat.le_trans hp (htime hasked)
        · cases r with
          | error _ => exact ⟨List.Subset.trans hlog hu.1, hu.2⟩
          | ok moved =>
            refine ⟨List.Subset.trans hlog hu.log, Nat.le_trans hasked hu.asked, hu.data, hu.runs, hu.signed,
              fun track' h => hu.named track' ?_, fun hheld => hu.held fun track' => ?_, fun h => nomatch h⟩
            · by_cases heq : track' = track
              · cases heq
                exact .inl (Function.update_self ..)
              · refine h.imp (fun h => ?_) fun h => (List.mem_cons.mp h).resolve_left heq
                exact (Function.update_of_ne heq ..).trans h
            · unfold LatestHeld
              by_cases heq : track' = track
              · cases heq
                simpa only [Function.update_self] using hgot
              · have hother := (hheld track').mono hlog
                simpa only [Function.update_of_ne heq] using hother

/-! ## A refresh -/

structure Listed (net : Network) (p : Nat) (s s' : Session) : Prop where
  log : s.log ⊆ s'.log
  data : s'.store.data = s.store.data
  ids : s'.store.latestIds = s.store.latestIds
  latest : s'.store.latest = s.store.latest
  signed : s.store.runsSignature = signature s.store.runs → s'.store.runsSignature = signature s'.store.runs
  got : ∃ f, ⟨.runs, f, true⟩ ∈ s'.log ∧ s'.store.runsSignature = signature ((net.world f).runs.take 25) ∧ p ≤ f

theorem ends_refreshRuns (hp : p ≤ net.time s.asked) :
    Ends False (Gives (fun _ t => Listed net p s t) fun _ t => Broken s t) (refreshRuns net s) := by
  refine ends_bind.mpr (ends_ask.mpr ?_)
  split
  · refine ⟨List.subset_cons_self _ _, fun h => ?_⟩
    have hruns := h ⟨.runs, net.time s.asked, false⟩ List.mem_cons_self rfl
    simp at hruns
  · refine ends_bind.mpr (ends_get.mpr ?_)
    show Action.Ends False _ ((if _ then _ else _ : Poll Bool) _)
    split
    · next hsame =>
      exact ⟨List.subset_cons_self _ _, rfl, rfl, rfl, id, net.time s.asked, List.mem_cons_self, hsame.symm, hp⟩
    · exact ⟨List.subset_cons_self _ _, rfl, rfl, rfl, fun _ => rfl, net.time s.asked, List.mem_cons_self, rfl, hp⟩

theorem Held.onward (h : Held net s) (hon : Onward s s') (hdata : s'.store.data = s.store.data) : Held net s' where
  shown := by rw [hon.ids, hdata, h.shown]
  signed := by rw [hon.signed, hon.runs, h.signed]
  latest := fun track => hon.latestHeld (h.latest track)
  runs := hon.runsHeld h.runs

theorem ends_bump {c : Prop} [Decidable c] (hlog : s.log ⊆ s'.log) (h : Held net s → Held net s') :
    Ends False (fun _ t => s.log ⊆ t.log ∧ (Held net s → Steady t → Held net t))
      ((if c then update fun store => { store with revision := store.revision + 1 } else pure () : Poll Unit) s') := by
  split
  · refine ⟨hlog, fun hs _ => (h hs).onward (onward_store ?_ ?_ ?_ ?_) ?_⟩
    all_goals rfl
  · exact ⟨hlog, fun hs _ => h hs⟩

theorem Track.mem_all (track : Track) : track ∈ Track.all := by
  cases track <;> decide

/-- **One refresh**: what is remembered has been fetched, unless a request behind the one for the progress failed. -/
theorem ends_poll (htime : Monotone net.time) :
    Ends False (fun _ t => s.log ⊆ t.log ∧ (Held net s → Steady t → Held net t)) (poll net s) := by
  refine ends_bind.mpr (ends_probe.mono fun r t hr => ?_)
  cases r with
  | error _ => exact hr.elim
  | ok on =>
    obtain ⟨hon, hdata⟩ := hr
    cases on with
    | false => exact ⟨hon.log, fun h _ => h.onward hon hdata⟩
    | true =>
      refine ends_bind.mpr (ends_ask.mpr ?_)
      split
      · refine ⟨List.Subset.trans hon.log (onward_asked _).log, fun h _ => ?_⟩
        exact (h.onward hon hdata).onward (onward_asked _) rfl
      · have hp : net.time t.asked ≤ net.time (t.asked + 1) := htime (Nat.le_succ _)
        refine ends_bind.mpr (ends_get.mpr (ends_bind.mpr (ends_update.mpr (ends_bind.mpr ?_))))
        refine (ends_catchUp rfl htime Track.all hp).mono fun r u hu => ?_
        cases r with
        | error _ =>
          refine ⟨List.Subset.trans hon.log (List.Subset.trans (onward_asked _).log hu.1), fun _ hs => ?_⟩
          exact (hu.2 hs).elim
        | ok moved =>
          have hlog : s.log ⊆ u.log := List.Subset.trans hon.log (List.Subset.trans (onward_asked _).log hu.log)
          have hids : ∀ track, u.store.latestIds track = (net.world (net.time t.asked)).progress.latestRunId track :=
            fun track => hu.named track (.inr (Track.mem_all track))
          have hlatest : Held net s → ∀ track, LatestHeld net u track := fun h => hu.held fun track =>
            (onward_asked _).latestHeld ((h.onward hon hdata).latest track)
          refine ends_bind.mpr (ends_get.mpr ?_)
          show Action.Ends False _ ((if _ then _ else _ : Poll Unit) u)
          split
          · refine ends_bind.mpr ((ends_refreshRuns (Nat.le_trans hp (htime hu.asked))).mono fun r v hv => ?_)
            cases r with
            | error _ => exact ⟨List.Subset.trans hlog hv.1, fun _ hs => (hv.2 hs).elim⟩
            | ok listed =>
              refine ends_bump (List.Subset.trans hlog hv.log) fun h => ⟨?_, hv.signed ?_, fun track => ?_, fun _ => ?_⟩
              · rw [hv.ids, hv.data, hu.data]
                exact funext hids
              · rw [hu.signed, hu.runs]
                exact (h.onward hon hdata).signed
              · have hgot := (hlatest h track).mono hv.log
                unfold LatestHeld
                rwa [hv.ids, hv.latest]
              · obtain ⟨f, hf, hsigned, hpf⟩ := hv.got
                refine ⟨f, hf, hsigned, fun track v hv' => ⟨net.time t.asked, hpf, ?_⟩⟩
                rw [← hids, ← hv.ids]
                exact hv'
          · next hsame =>
            have hstill := hu.still (Bool.eq_false_iff.mpr (not_or.mp hsame).1)
            refine ends_bump hlog fun h => ⟨?_, ?_, hlatest h, fun hsome => ?_⟩
            · rw [hu.data]
              exact funext hids
            · rw [hu.signed, hu.runs]
              exact (h.onward hon hdata).signed
            · rw [hstill] at hsome ⊢
              obtain ⟨f, hf, hsigned, hseen⟩ := (h.onward hon hdata).runs hsome
              exact ⟨f, hu.log (List.mem_cons_of_mem _ hf), hu.signed.trans hsigned, hseen⟩

/-! ## Runs -/

theorem held_new : Held net Session.new where
  shown := rfl
  signed := rfl
  latest := fun _ => rfl
  runs := by
    rintro ⟨_, _, h⟩
    cases h

theorem refresh_held (htime : Monotone net.time) :
    s.log ⊆ (refresh net s).log ∧ (Held net s → Steady (refresh net s) → Held net (refresh net s)) := by
  obtain ⟨r, t, hpoll, hlog, hheld⟩ := (ends_poll htime).comes
  unfold refresh
  rw [hpoll]
  cases r with
  | ok _ => exact ⟨hlog, hheld⟩
  | error _ => exact ⟨hlog, fun h hs => (hheld h hs).onward (onward_store rfl rfl rfl rfl) rfl⟩

theorem refreshed_held (htime : Monotone net.time) (n : Nat) (h : Steady (refreshed net n)) :
    Held net (refreshed net n) := by
  induction n with
  | zero => exact held_new
  | succ n ih =>
    obtain ⟨hlog, hstep⟩ := refresh_held (s := refreshed net n) htime
    exact hstep (ih (h.of_subset hlog)) h

end

/-- **A poll has caught up**, as long as no request for a report and none for the run list has failed. -/
theorem caught_up {net : Network} (htime : Monotone net.time) (hgrow : Growing net) (n : Nat)
    (h : Steady (refreshed net n)) : CaughtUp net (refreshed net n) :=
  (refreshed_held htime n h).caughtUp hgrow

/-! ## One dropped request -/

def shellOnce (down : Nat → Bool) : Network where
  world _ :=
    { health := some ⟨fun _ => none⟩
      tracks := some []
      progress := { emptyProgress with latestRunId := fun track => if track = .shell then some 1 else none }
      latest := fun _ => some ⟨"bash", false, [], 1, 0, 0, 7⟩
      runs := [⟨1, .shell, "bash", "2026-09-13T10:00:00Z", 7, 1, 0, 0, ""⟩] }
  time i := i
  down := down
  iso _ := "2026-09-13T10:00:00Z"

theorem shellOnce_growing (down : Nat → Bool) : Growing (shellOnce down) := fun _ _ _ v _ h => ⟨v, h, Int.le_refl v⟩

theorem shellOnce_caughtUp : CaughtUp (shellOnce fun _ => false) (refreshed (shellOnce fun _ => false) 2) :=
  caught_up monotone_id (shellOnce_growing _) 2 (by decide)

theorem dropped_not_caughtUp : ∃ es,
    (refreshed (shellOnce (· = 3)) 2).log = es ++ (refreshed (shellOnce (· = 3)) 1).log ∧ es ≠ [] ∧
    (∀ e ∈ es, e.ok = true) ∧ Monotone (shellOnce (· = 3)).time ∧ Growing (shellOnce (· = 3)) ∧
    ¬ CaughtUp (shellOnce (· = 3)) (refreshed (shellOnce (· = 3)) 2) := by
  refine ⟨[⟨.runs, 7, true⟩, ⟨.progress, 6, true⟩, ⟨.tracks, 5, true⟩, ⟨.health, 4, true⟩], by decide, by decide,
    by decide, monotone_id, shellOnce_growing _, fun h => ?_⟩
  obtain ⟨f, hf, -⟩ := h.latest .shell 1 rfl
  have hlog : (refreshed (shellOnce (· = 3)) 2).log =
      [⟨.runs, 7, true⟩, ⟨.progress, 6, true⟩, ⟨.tracks, 5, true⟩, ⟨.health, 4, true⟩, ⟨.latest .shell, 3, false⟩,
        ⟨.progress, 2, true⟩, ⟨.tracks, 1, true⟩, ⟨.health, 0, true⟩] := by decide
  rw [hlog] at hf
  simp at hf

end BuildYourOwn.Byo
