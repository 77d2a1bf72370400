import BuildYourOwn.Topic.Command
import Mathlib.Algebra.Ring.Int.Defs

/-!
# `dedup`: an idempotent consumer, and the window that makes it only effectively-once

Model of `Dedup` in `disttest/examples/alg/patterns.rs`: a finite table of message ids, oldest first, and
the effect they were applied to.

* `total` is an `i64` and `applied` a `usize`: both panic when they overflow.
* `position` followed by `remove` takes the first occurrence away.

**`effectively_once`**: an id is applied again only after it was forgotten by hand or as many others were applied as
the window holds. `Since` is the invariant between the two.
-/

namespace BuildYourOwn.Patterns

open Lib Topic

structure Dedup where
  window : Nat
  ids : List String
  total : Int
  applied : Nat
  forgotten : Bool

namespace Dedup

def new : Dedup where
  window := 0
  ids := []
  total := 0
  applied := 0
  forgotten := false

/-- The answer to `deliver`. -/
def delivered (s : Dedup) (applied : Bool) : Value :=
  .obj [("applied", .bool applied), ("duplicate", .bool (!applied)), ("total", .num s.total),
    ("seen", .num s.ids.length)]

/-- The oldest id goes when the table is too long. -/
def evict (s : Dedup) : Dedup :=
  if 0 < s.window ∧ s.window < s.ids.length then { s with ids := s.ids.tail, forgotten := true }
  else s

def deliver (s : Dedup) (id : String) (amount : Int) : Handled Dedup :=
  if id ∈ s.ids then some (s, s.delivered false)
  else
    match addI64 s.total amount with
    | none => none
    | some total =>
      if s.applied + 1 < UInt64.size then
        let s' := evict { s with total := total, applied := s.applied + 1, ids := s.ids ++ [id] }
        some (s', s'.delivered true)
      else none

def forget (s : Dedup) (id : String) : Dedup × Value :=
  if id ∈ s.ids then
    let s' := { s with ids := s.ids.erase id, forgotten := true }
    (s', .obj [("ok", .bool true), ("seen", .num s'.ids.length)])
  else (s, .obj [("ok", .bool false), ("seen", .num s.ids.length)])

def guarantee (s : Dedup) : Value :=
  if s.forgotten = true then
    .obj [("exactly_once", .bool false), ("reason", .str "a delivered id has been forgotten")]
  else
    .obj [("exactly_once", .bool true), ("reason", .str "every delivered id is still remembered")]

def state (s : Dedup) : Value :=
  .obj [("total", .num s.total), ("seen", .num s.ids.length), ("applied", .num s.applied),
    ("ids", .arr (s.ids.map .str))]

def step [Host] (s : Dedup) (command : String) (args : List String) : Handled Dedup :=
  match command with
  | "init" => arg s (uint args 0) fun window =>
    some ({ new with window := window },
      .obj [("window", .num window), ("seen", .num 0), ("total", .num 0)])
  | "deliver" => arg s (word args 0) fun id => arg s (int args 1) fun amount => s.deliver id amount
  | "forget" => arg s (word args 0) fun id => some (s.forget id)
  | "guarantee" => some (s, s.guarantee)
  | "state" => some (s, s.state)
  | other => some (s, err ("unknown command " ++ debugStr other))

/-! ## What a command does -/

def delivery (l : Line) : Option (String × Int) :=
  if l.command = "deliver" then
    match word l.args 0, int l.args 1 with
    | .ok id, .ok amount => some (id, amount)
    | _, _ => none
  else none

def appliedBy (l : Line) (v : Value) : Option (String × Int) :=
  if v.flagAt "applied" = some true then delivery l else none

/-- The id that a command took out of the table, by its answer. -/
def forgottenBy (l : Line) (v : Value) : Option String :=
  if l.command = "forget" ∧ v.flagAt "ok" = some true then l.args[0]? else none

def accept (s : Dedup) (id : String) (amount : Int) : Dedup :=
  evict { s with total := s.total + amount, applied := s.applied + 1, ids := s.ids ++ [id] }

/-- What a command does to the table. -/
inductive Acts (s : Dedup) (l : Line) (v : Value) : Dedup → Prop
  | apply {id : String} {amount : Int} (hl : delivery l = some (id, amount)) (hv : appliedBy l v = some (id, amount))
      (hnew : id ∉ s.ids) : Acts s l v (s.accept id amount)
  | forget {id : String} (hl : delivery l = none) (hv : forgottenBy l v = some id) :
      Acts s l v { s with ids := s.ids.erase id, forgotten := true }
  | keep (hl : ∀ d, delivery l = some d → d.1 ∈ s.ids) (hv : appliedBy l v = none) : Acts s l v s

variable {s s' : Dedup} {l : Line} {v : Value}

theorem keeps_of_ne (hd : l.command ≠ "deliver") : Acts s l v s :=
  .keep (fun d h => by simp [delivery, hd] at h) (by simp [appliedBy, delivery, hd])

theorem step_acts [Host] (hinit : l.command ≠ "init") (hs : onLine step s l = some (s', v)) : Acts s l v s' := by
  unfold onLine step at hs
  split at hs
  · contradiction
  · rename_i hcmd
    rcases arg_eq_some.mp hs with ⟨hid, rfl⟩ | ⟨id, hid, hs⟩
    · have hnone : delivery l = none := by simp [delivery, hid]
      exact .keep (fun d h => by simp [hnone] at h) (by simp [appliedBy, hnone])
    rcases arg_eq_some.mp hs with ⟨hamount, rfl⟩ | ⟨amount, hamount, hs⟩
    · have hnone : delivery l = none := by simp [delivery, hid, hamount]
      exact .keep (fun d h => by simp [hnone] at h) (by simp [appliedBy, hnone])
    have hl : delivery l = some (id, amount) := by simp [delivery, hcmd, hid, hamount]
    unfold deliver at hs
    split at hs
    · rename_i hmem
      cases hs
      exact .keep (fun d h => by cases hl.symm.trans h; exact hmem) (if_neg nofun)
    · rename_i hnew
      split at hs
      · cases hs
      rename_i total htotal
      obtain ⟨-, rfl⟩ := addI64_eq_some.mp htotal
      split at hs <;> cases hs
      exact .apply hl ((if_pos rfl).trans hl) hnew
  · rename_i hcmd
    have hother : l.command ≠ "deliver" := by simp [hcmd]
    rcases arg_eq_some.mp hs with ⟨-, rfl⟩ | ⟨id, hid, hs⟩
    · exact keeps_of_ne hother
    unfold forget at hs
    split at hs <;> cases hs
    · exact .forget (by simp [delivery, hcmd]) ((if_pos ⟨hcmd, rfl⟩).trans (word_eq_ok.mp hid))
    · exact keeps_of_ne hother
  all_goals
    cases hs
    refine keeps_of_ne ?_
    simp_all

/-! ## What a run leaves -/

/-- One more delivery, unless its id was delivered before. -/
def see (seen : List (String × Int)) (d : String × Int) : List (String × Int) :=
  if d.1 ∈ seen.map Prod.fst then seen else seen ++ [d]

/-- The deliveries so far, the first one of each id. -/
def firsts (es : List (Event Dedup Line Value)) : List (String × Int) :=
  (es.filterMap fun e => delivery e.input).foldl see []

def applications (es : List (Event Dedup Line Value)) : List (String × Int) :=
  es.filterMap fun e => appliedBy e.input e.output

/-- The table of a consumer that applied some messages and was delivered others. -/
structure Inv (window : Nat) (applied seen : List (String × Int)) (s : Dedup) : Prop where
  size : s.window = window
  room : 0 < window → s.ids.length ≤ window
  total : s.total = (applied.map Prod.snd).sum
  count : s.applied = applied.length
  remembered : s.forgotten = false → applied = seen ∧ s.ids = seen.map Prod.fst

variable {window n : Nat} {applied seen : List (String × Int)} {id : String} {amount : Int}
  {es : List (Event Dedup Line Value)}

theorem accept_cases (s : Dedup) (id : String) (amount : Int) :
    (0 < s.window ∧ s.window ≤ s.ids.length ∧ s.accept id amount = { s with
      total := s.total + amount, applied := s.applied + 1, ids := (s.ids ++ [id]).tail, forgotten := true }) ∨
    (0 < s.window → s.ids.length < s.window) ∧ s.accept id amount = { s with
      total := s.total + amount, applied := s.applied + 1, ids := s.ids ++ [id] } := by
  unfold accept evict
  simp only [List.length_append, List.length_singleton, Nat.lt_succ_iff]
  split
  · rename_i h
    exact .inl ⟨h.1, h.2, rfl⟩
  · rename_i h
    exact .inr ⟨fun hpos => Nat.not_le.mp fun hle => h ⟨hpos, hle⟩, rfl⟩

theorem Inv.acts (h : Inv window applied seen s) (hs : Acts s l v s') :
    Inv window (applied ++ (appliedBy l v).toList) ((delivery l).elim seen (see seen)) s' := by
  cases hs with
  | @apply id amount hl hv hnew =>
    have htotal : s.total + amount = ((applied ++ [(id, amount)]).map Prod.snd).sum := by simp [h.total]
    have happlied : s.applied + 1 = (applied ++ [(id, amount)]).length := by simp [h.count]
    rw [hv, hl]
    rcases s.accept_cases id amount with ⟨hpos, hfull, heq⟩ | ⟨hroom, heq⟩ <;> rw [heq]
    · exact ⟨h.size, fun hpos => by simpa using h.room hpos, htotal, happlied, nofun⟩
    · refine ⟨h.size, fun hpos => ?_, htotal, happlied, fun hkept => ?_⟩
      · have hlt := hroom (h.size ▸ hpos)
        rw [h.size] at hlt
        simp only [List.length_append, List.length_singleton]
        omega
      · obtain ⟨rfl, hids⟩ := h.remembered hkept
        simp [see, ← hids, hnew]
  | forget hl hv =>
    rw [hl, show appliedBy l v = none by simp [appliedBy, hl], Option.toList_none, List.append_nil]
    exact ⟨h.size, fun hpos => Nat.le_trans (List.length_erase_le ..) (h.room hpos), h.total, h.count, nofun⟩
  | keep hl hv =>
    rw [hv, Option.toList_none, List.append_nil]
    refine ⟨h.size, h.room, h.total, h.count, fun hkept => ?_⟩
    obtain ⟨rfl, hids⟩ := h.remembered hkept
    cases hd : delivery l with
    | none => exact ⟨rfl, hids⟩
    | some d =>
      have hseen := hl d hd
      rw [hids] at hseen
      simpa [see, hseen] using hids

/-! ## Two applications of one id -/

/-- The table since an id was applied, with `n` others applied: it is there with no more than those behind it, or as
many as the window holds were applied. -/
def Since (id : String) (n : Nat) (s : Dedup) : Prop :=
  (∃ front back, s.ids = front ++ id :: back ∧ back.length ≤ n) ∨ 0 < s.window ∧ s.window ≤ n

theorem Since.start (s : Dedup) (id : String) (amount : Int) : Since id 0 (s.accept id amount) := by
  rcases s.accept_cases id amount with ⟨hpos, hfull, heq⟩ | ⟨-, heq⟩ <;> rw [heq]
  · cases hids : s.ids with
    | nil =>
      rw [hids, List.length_nil] at hfull
      omega
    | cons x xs => exact .inl ⟨xs, [], rfl, Nat.le_refl 0⟩
  · exact .inl ⟨s.ids, [], rfl, Nat.le_refl 0⟩

theorem Since.accept (h : Since id n s) (x : String) (amount : Int) : Since id (n + 1) (s.accept x amount) := by
  rcases h with ⟨front, back, hids, hlen⟩ | ⟨hpos, hle⟩
  · rcases s.accept_cases x amount with ⟨hpos, hfull, heq⟩ | ⟨-, heq⟩ <;> rw [heq]
    · cases front with
      | nil =>
        rw [hids, List.nil_append, List.length_cons] at hfull
        exact .inr ⟨hpos, Nat.le_trans hfull (Nat.succ_le_succ hlen)⟩
      | cons y front => exact .inl ⟨front, back ++ [x], by simp [hids], by simpa using hlen⟩
    · exact .inl ⟨front, back ++ [x], by simp [hids], by simpa using hlen⟩
  · rcases s.accept_cases x amount with ⟨-, -, heq⟩ | ⟨-, heq⟩ <;> rw [heq]
    · exact .inr ⟨hpos, Nat.le_succ_of_le hle⟩
    · exact .inr ⟨hpos, Nat.le_succ_of_le hle⟩

theorem Since.erase (h : Since id n s) {x : String} (hx : x ≠ id) :
    Since id n { s with ids := s.ids.erase x, forgotten := true } := by
  rcases h with ⟨front, back, hids, hlen⟩ | hfull
  · by_cases hfront : x ∈ front
    · exact .inl ⟨front.erase x, back, by simp [hids, List.erase_append_left _ hfront], hlen⟩
    · refine .inl ⟨front, back.erase x, ?_, Nat.le_trans (List.length_erase_le ..) hlen⟩
      simp [hids, List.erase_append_right _ hfront, Ne.symm hx]
  · exact .inr hfull

def Applies (id : String) (l : Line) (v : Value) : Prop := ∃ amount, appliedBy l v = some (id, amount)

theorem Since.acts (h : Since id n s) (hs : Acts s l v s') (hnot : forgottenBy l v ≠ some id) :
    Since id (n + (appliedBy l v).toList.length) s' := by
  cases hs with
  | apply hl hv _ =>
    rw [hv]
    exact h.accept ..
  | forget hl hv =>
    rw [show appliedBy l v = none by simp [appliedBy, hl]]
    exact h.erase fun heq => hnot (heq ▸ hv)
  | keep _ hv =>
    rw [hv]
    exact h

theorem Applies.start (h : Applies id l v) (hs : Acts s l v s') : id ∉ s.ids ∧ Since id 0 s' := by
  obtain ⟨amount, hamount⟩ := h
  cases hs with
  | apply hl hv hnew =>
    cases hv.symm.trans hamount
    exact ⟨hnew, Since.start ..⟩
  | forget hl => simp [appliedBy, hl] at hamount
  | keep _ hv => cases hv.symm.trans hamount

/-- **Effectively once.** -/
theorem effectively_once [Host] (hrun : Run (onLine step) { new with window := window } es s)
    (hinit : ∀ e ∈ es, e.input.command ≠ "init") :
    (∀ es₁ e es₂ e' es₃ id, es = es₁ ++ e :: (es₂ ++ e' :: es₃) → Applies id e.input e.output →
      Applies id e'.input e'.output → (∀ f ∈ es₂, ¬ Applies id f.input f.output) →
      (∃ f ∈ es₂, forgottenBy f.input f.output = some id) ∨ 0 < window ∧ window ≤ (applications es₂).length) ∧
    (0 < window → s.ids.length ≤ window) ∧
    s.total = ((applications es).map Prod.snd).sum ∧ s.applied = (applications es).length ∧
    ∀ s' v, onLine step s ⟨"guarantee", []⟩ = some (s', v) → v.flagAt "exactly_once" = some true →
      s.total = ((firsts es).map Prod.snd).sum ∧ s.applied = (firsts es).length := by
  have hinv {es s} (hrun : Run (onLine step) { new with window := window } es s)
      (hinit : ∀ e ∈ es, e.input.command ≠ "init") : Inv window (applications es) (firsts es) s := by
    refine hrun.history_invariant (P := fun es s => Inv window (applications es) (firsts es) s)
      ⟨rfl, fun _ => Nat.zero_le _, rfl, rfl, fun _ => ⟨rfl, rfl⟩⟩
      (fun es s l s' v h hne hs => ?_) hinit
    have hstep := h.acts (step_acts hne hs)
    cases hl : delivery l <;> cases hv : appliedBy l v <;>
      simpa [applications, firsts, hl, hv] using hstep
  have h := hinv hrun hinit
  refine ⟨fun es₁ e es₂ e' es₃ id hsplit happ happ' _ => ?_, h.room, h.total, h.count, fun s' v hs hv => ?_⟩
  · rw [or_iff_not_imp_left]
    intro hkept
    subst hsplit
    have hmid : Run (onLine step) e.after es₂ e'.before := hrun.rest.split rfl
    have hwhole : Run (onLine step) { new with window := window } (es₁ ++ e :: es₂) e'.before :=
      hrun.split (by simp : _ = (es₁ ++ e :: es₂) ++ e' :: es₃)
    have hmem : ∀ f ∈ es₁ ++ e :: es₂, f.input.command ≠ "init" := fun f hf => hinit f (by grind)
    have hfirst := (happ.start (step_acts (hinit e (by simp)) (hrun.step_of_mem (by simp)))).2
    have hsince : Since id (applications es₂).length e'.before := by
      refine hmid.history_invariant (P := fun es s => Since id (applications es).length s)
        (G := fun f => f.input.command ≠ "init" ∧ forgottenBy f.input f.output ≠ some id) hfirst
        (fun es s l s' v h hg hs => ?_) fun f hf => ⟨hmem f (by simp [hf]), fun heq => hkept ⟨f, hf, heq⟩⟩
      have hstep := Since.acts h (step_acts hg.1 hs) hg.2
      cases hv : appliedBy l v <;> simpa [applications, hv] using hstep
    have hnew := (happ'.start (step_acts (hinit e' (by simp)) (hrun.step_of_mem (by simp)))).1
    rcases hsince with ⟨front, back, hids, -⟩ | hfull
    · exact absurd (by simp [hids]) hnew
    · rwa [(hinv hwhole hmem).size] at hfull
  · have hforgotten : s.forgotten = false := by
      cases hs
      unfold guarantee at hv
      split at hv
      · cases hv
      · simpa using ‹¬ s.forgotten = true›
    obtain ⟨happlied, -⟩ := h.remembered hforgotten
    exact ⟨happlied ▸ h.total, happlied ▸ h.count⟩

theorem effectively_once_window : ∃ es₁ e es₂ e' es₃ s,
    Run (onLine (@step (hostOf []))) { new with window := 1 } (es₁ ++ e :: (es₂ ++ e' :: es₃)) s ∧
      Applies "a" e.input e.output ∧ Applies "a" e'.input e'.output ∧ 1 ≤ (applications es₂).length := by
  let _ : Host := hostOf []
  have hrun : Run (onLine step) { new with window := 1 } ([] ++ _ :: ([_] ++ _ :: [])) _ :=
    run_of_exec [⟨"deliver", ["a", "5"]⟩, ⟨"deliver", ["b", "1"]⟩, ⟨"deliver", ["a", "5"]⟩] rfl
  have happ : ∀ v : Value, v.flagAt "applied" = some true → Applies "a" ⟨"deliver", ["a", "5"]⟩ v :=
    fun v hv => ⟨5, (if_pos hv).trans rfl⟩
  have hother : ∀ v : Value, ¬ Applies "a" ⟨"deliver", ["b", "1"]⟩ v ∧
      forgottenBy ⟨"deliver", ["b", "1"]⟩ v ≠ some "a" := by
    refine fun v => ⟨fun ⟨n, hn⟩ => ?_, by simp [forgottenBy]⟩
    unfold appliedBy at hn
    split at hn
    · exact absurd (congrArg Prod.fst (Option.some.inj hn)) (show ¬ "b" = "a" by decide)
    · cases hn
  have honce := (effectively_once hrun (by simp)).1 [] _ [_] _ [] "a" rfl (happ _ rfl) (happ _ rfl) fun f hf =>
    List.mem_singleton.mp hf ▸ (hother _).1
  obtain ⟨f, hf, hforgotten⟩ | ⟨-, hle⟩ := honce
  · obtain rfl := List.mem_singleton.mp hf
    exact absurd hforgotten (hother _).2
  · exact ⟨[], _, [_], _, [], _, hrun, happ _ rfl, happ _ rfl, hle⟩

end Dedup

end BuildYourOwn.Patterns
