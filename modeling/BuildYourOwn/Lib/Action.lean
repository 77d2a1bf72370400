import Mathlib.Data.List.Basic

/-!
# Actions: computations on a state that may fail

An action takes a state and gives a value or an error, with the state that is left either way, or does not
come back at all (`none`).

* `attempt` goes on after an error, with the state it left; `onPart` runs an action on a part of the state.
* `forever μ body` repeats `body` until it gives a value; `μ` bounds how often. `forever_some`: where every
  round makes `μ` smaller the bound is never met, and the loop's runs are those of `Repeats`.
-/

namespace BuildYourOwn.Lib

theorem except_bind_ok {ε α β : Type} {x : Except ε α} {f : α → Except ε β} {b : β} :
    (x >>= f) = .ok b ↔ ∃ a, x = .ok a ∧ f a = .ok b := by
  cases x with
  | ok a =>
    constructor
    · intro h
      exact ⟨a, rfl, h⟩
    · rintro ⟨_, ha, h⟩
      cases ha
      exact h
  | error e =>
    constructor
    · intro h
      cases h
    · rintro ⟨_, ha, -⟩
      cases ha

/-- A computation on a state. -/
def Action (σ ε α : Type) : Type := σ → Option (Except ε α × σ)

namespace Action

variable {σ τ ε α β : Type}

instance : Monad (Action σ ε) where
  pure a := fun s => some (.ok a, s)
  bind x f := fun s =>
    match x s with
    | some (.ok a, s') => f a s'
    | some (.error e, s') => some (.error e, s')
    | none => none

def fail (e : ε) : Action σ ε α := fun s => some (.error e, s)

/-- Do not come back. -/
def stop : Action σ ε α := fun _ => none

/-- The state. -/
def get : Action σ ε σ := fun s => some (.ok s, s)

def modify (f : σ → σ) : Action σ ε Unit := fun s => some (.ok (), f s)

/-- What another computation gave. -/
def lift : Except ε α → Action σ ε α
  | .ok a => pure a
  | .error e => fail e

/-- Fail unless `p` holds. -/
def require (p : Prop) [Decidable p] (e : ε) : Action σ ε Unit := if p then pure () else fail e

/-- What there is, or an error. -/
def demand (a : Option α) (e : ε) : Action σ ε α :=
  match a with
  | some a => pure a
  | none => fail e

/-- What there is, or no return. -/
def orStop : Option α → Action σ ε α
  | some a => pure a
  | none => stop

/-- Go on after an error. -/
def attempt (x : Action σ ε α) : Action σ ε (Except ε α) := fun s => (x s).map fun r => (.ok r.1, r.2)

def onPart (part : σ → τ) (put : τ → σ → σ) (x : Action τ ε α) : Action σ ε α := fun s =>
  (x (part s)).map fun r => (r.1, put r.2 s)

/-- Run on a value of its own, and give that back too. -/
def onLocal (t : τ) (x : Action τ ε α) : Action σ ε (α × τ) := fun s =>
  (x t).map fun r => (r.1.map fun a => (a, r.2), s)

/-! ## What a run is made of -/

variable {x : Action σ ε α} {f : α → Action σ ε β} {s s' : σ} {a : α} {b : β}

theorem bind_of_ok {t : σ} (h : x s = some (.ok a, t)) : (x >>= f) s = f a t := by
  show (match x s with
    | some (.ok a, s') => f a s'
    | some (.error e, s') => some (.error e, s')
    | none => none) = _
  rw [h]

variable {e : ε}

theorem bind_of_error {t : σ} (h : x s = some (.error e, t)) : (x >>= f) s = some (.error e, t) := by
  show (match x s with
    | some (.ok a, s') => f a s'
    | some (.error e, s') => some (.error e, s')
    | none => none) = _
  rw [h]

theorem bind_of_none (h : x s = none) : (x >>= f) s = none := by
  show (match x s with
    | some (.ok a, s') => f a s'
    | some (.error e, s') => some (.error e, s')
    | none => none) = _
  rw [h]

/-- **A sequence** gives a value when its parts do. -/
theorem bind_ok : (x >>= f) s = some (.ok b, s') ↔ ∃ a s₁, x s = some (.ok a, s₁) ∧ f a s₁ = some (.ok b, s') := by
  show (match x s with
    | some (.ok a, s') => f a s'
    | some (.error e, s') => some (.error e, s')
    | none => none) = _ ↔ _
  constructor
  · intro h
    split at h
    · rename_i a s₁ hx
      exact ⟨a, s₁, hx, h⟩
    · cases h
    · cases h
  · rintro ⟨a, s₁, hx, hf⟩
    rw [hx]
    exact hf

theorem bind_error : (x >>= f) s = some (.error e, s') ↔
    x s = some (.error e, s') ∨ ∃ a s₁, x s = some (.ok a, s₁) ∧ f a s₁ = some (.error e, s') := by
  show (match x s with
    | some (.ok a, s') => f a s'
    | some (.error e, s') => some (.error e, s')
    | none => none) = _ ↔ _
  constructor
  · intro h
    split at h
    · rename_i a s₁ hx
      exact .inr ⟨a, s₁, hx, h⟩
    · rename_i hx
      cases h
      exact .inl hx
    · cases h
  · rintro (hx | ⟨a, s₁, hx, hf⟩)
    · rw [hx]
    · rw [hx]
      exact hf

theorem bind_assoc {γ : Type} {g : β → Action σ ε γ} : (x >>= f >>= g) s = (x >>= fun a => f a >>= g) s := by
  show (match (match x s with
      | some (.ok a, s') => f a s'
      | some (.error e, s') => some (.error e, s')
      | none => none) with
    | some (.ok a, s') => g a s'
    | some (.error e, s') => some (.error e, s')
    | none => none) = (match x s with
    | some (.ok a, s') => (f a >>= g) s'
    | some (.error e, s') => some (.error e, s')
    | none => none)
  cases x s with
  | none => rfl
  | some r =>
    obtain ⟨r, t⟩ := r
    cases r <;> rfl

theorem bind_pure_eq (x : Action σ ε α) (s : σ) : (x >>= pure) s = x s := by
  cases hx : x s with
  | none => exact bind_of_none hx
  | some r =>
    obtain ⟨r, t⟩ := r
    cases r with
    | ok a => exact bind_of_ok hx
    | error e => exact bind_of_error hx

variable {y : Action τ ε α}

theorem onPart_bind {part : σ → τ} {put : τ → σ → σ} (hpart : ∀ t s, part (put t s) = t)
    (hput : ∀ t t' s, put t' (put t s) = put t' s) {g : α → Action τ ε β} :
    onPart part put (y >>= g) s = (onPart part put y >>= fun a => onPart part put (g a)) s := by
  cases hy : y (part s) with
  | none =>
    have h : onPart part put y s = none := by
      unfold onPart
      rw [hy]
      rfl
    rw [bind_of_none h]
    unfold onPart
    rw [bind_of_none hy]
    rfl
  | some r =>
    obtain ⟨r, t⟩ := r
    have h : onPart part put y s = some (r, put t s) := by
      unfold onPart
      rw [hy]
      rfl
    cases r with
    | error e =>
      rw [bind_of_error h]
      unfold onPart
      rw [bind_of_error hy]
      rfl
    | ok a =>
      rw [bind_of_ok h]
      unfold onPart
      rw [bind_of_ok hy, hpart]
      simp only [hput]

@[simp] theorem pure_ok {c : α} : (pure a : Action σ ε α) s = some (.ok c, s') ↔ a = c ∧ s = s' := by
  show some (Except.ok a, s) = _ ↔ _
  rw [Option.some.injEq, Prod.mk.injEq, Except.ok.injEq]

@[simp] theorem get_ok {t : σ} : (get : Action σ ε σ) s = some (.ok t, s') ↔ s = t ∧ s = s' := by
  unfold get
  rw [Option.some.injEq, Prod.mk.injEq, Except.ok.injEq]

@[simp] theorem modify_ok {g : σ → σ} {u : Unit} : (modify g : Action σ ε Unit) s = some (.ok u, s') ↔ g s = s' := by
  unfold modify
  rw [Option.some.injEq, Prod.mk.injEq]
  exact and_iff_right rfl

@[simp] theorem fail_ok : (fail e : Action σ ε α) s = some (.ok a, s') ↔ False := by
  unfold fail
  rw [Option.some.injEq, Prod.mk.injEq]
  exact iff_false_intro fun h => by cases h.1

variable {r : Except ε α}

@[simp] theorem lift_ok : (lift r : Action σ ε α) s = some (.ok a, s') ↔ r = .ok a ∧ s = s' := by
  cases r with
  | ok c =>
    show (pure c : Action σ ε α) s = _ ↔ _
    rw [pure_ok, Except.ok.injEq]
  | error e => exact fail_ok.trans ⟨False.elim, fun h => by cases h.1⟩

@[simp] theorem require_ok {p : Prop} [Decidable p] {u : Unit} :
    (require p e : Action σ ε Unit) s = some (.ok u, s') ↔ p ∧ s = s' := by
  unfold require
  split
  · rename_i hp
    exact pure_ok.trans ⟨fun h => ⟨hp, h.2⟩, fun h => ⟨rfl, h.2⟩⟩
  · rename_i hp
    exact fail_ok.trans ⟨False.elim, fun h => hp h.1⟩

variable {o : Option α}

@[simp] theorem demand_ok : (demand o e : Action σ ε α) s = some (.ok a, s') ↔ o = some a ∧ s = s' := by
  cases o with
  | some c =>
    show (pure c : Action σ ε α) s = _ ↔ _
    rw [pure_ok, Option.some.injEq]
  | none => exact fail_ok.trans ⟨False.elim, fun h => by cases h.1⟩

@[simp] theorem orStop_ok : (orStop o : Action σ ε α) s = some (.ok a, s') ↔ o = some a ∧ s = s' := by
  cases o with
  | some c =>
    show (pure c : Action σ ε α) s = _ ↔ _
    rw [pure_ok, Option.some.injEq]
  | none => exact ⟨fun h => (by cases h), fun h => (by cases h.1)⟩

/-! What comes behind a step that is known -/

theorem bind_get_ok {f : σ → Action σ ε β} : (get >>= f) s = some (.ok b, s') ↔ f s s = some (.ok b, s') := by
  simp only [bind_ok, get_ok]
  exact ⟨fun ⟨_, _, ⟨rfl, rfl⟩, h⟩ => h, fun h => ⟨s, s, ⟨rfl, rfl⟩, h⟩⟩

theorem bind_modify_ok {g : σ → σ} {f : Unit → Action σ ε β} :
    (modify g >>= f) s = some (.ok b, s') ↔ f () (g s) = some (.ok b, s') := by
  simp only [bind_ok, modify_ok]
  exact ⟨fun ⟨_, _, rfl, h⟩ => h, fun h => ⟨(), g s, rfl, h⟩⟩

theorem bind_lift_ok : (lift r >>= f) s = some (.ok b, s') ↔ ∃ a, r = .ok a ∧ f a s = some (.ok b, s') := by
  simp only [bind_ok, lift_ok]
  exact ⟨fun ⟨a, _, ⟨ha, rfl⟩, h⟩ => ⟨a, ha, h⟩, fun ⟨a, ha, h⟩ => ⟨a, s, ⟨ha, rfl⟩, h⟩⟩

theorem bind_require_ok {p : Prop} [Decidable p] {f : Unit → Action σ ε β} :
    (require p e >>= f) s = some (.ok b, s') ↔ p ∧ f () s = some (.ok b, s') := by
  simp only [bind_ok, require_ok]
  exact ⟨fun ⟨_, _, ⟨hp, rfl⟩, h⟩ => ⟨hp, h⟩, fun ⟨hp, h⟩ => ⟨(), s, ⟨hp, rfl⟩, h⟩⟩

theorem bind_demand_ok : (demand o e >>= f) s = some (.ok b, s') ↔ ∃ a, o = some a ∧ f a s = some (.ok b, s') := by
  simp only [bind_ok, demand_ok]
  exact ⟨fun ⟨a, _, ⟨ha, rfl⟩, h⟩ => ⟨a, ha, h⟩, fun ⟨a, ha, h⟩ => ⟨a, s, ⟨ha, rfl⟩, h⟩⟩

section errors

variable {e e' : ε}

@[simp] theorem pure_error : (pure a : Action σ ε α) s = some (.error e, s') ↔ False :=
  iff_false_intro fun h => by cases h

@[simp] theorem get_error : (get : Action σ ε σ) s = some (.error e, s') ↔ False :=
  iff_false_intro fun h => by cases h

@[simp] theorem modify_error {g : σ → σ} : (modify g : Action σ ε Unit) s = some (.error e, s') ↔ False :=
  iff_false_intro fun h => by cases h

@[simp] theorem fail_error : (fail e : Action σ ε α) s = some (.error e', s') ↔ e = e' ∧ s = s' := by
  unfold fail
  rw [Option.some.injEq, Prod.mk.injEq, Except.error.injEq]

@[simp] theorem lift_error {r : Except ε α} :
    (lift r : Action σ ε α) s = some (.error e, s') ↔ r = .error e ∧ s = s' := by
  cases r with
  | ok c => exact pure_error.trans ⟨False.elim, fun h => by cases h.1⟩
  | error e' =>
    show (fail e' : Action σ ε α) s = _ ↔ _
    rw [fail_error, Except.error.injEq]

@[simp] theorem require_error {p : Prop} [Decidable p] :
    (require p e : Action σ ε Unit) s = some (.error e', s') ↔ ¬p ∧ e = e' ∧ s = s' := by
  unfold require
  split
  · rename_i hp
    exact pure_error.trans ⟨False.elim, fun h => h.1 hp⟩
  · rename_i hp
    exact fail_error.trans ⟨fun h => ⟨hp, h⟩, fun h => h.2⟩

@[simp] theorem demand_error {o : Option α} :
    (demand o e : Action σ ε α) s = some (.error e', s') ↔ o = none ∧ e = e' ∧ s = s' := by
  cases o with
  | some c => exact pure_error.trans ⟨False.elim, fun h => by cases h.1⟩
  | none => exact fail_error.trans ⟨fun h => ⟨rfl, h⟩, fun h => h.2⟩

@[simp] theorem orStop_error {o : Option α} : (orStop o : Action σ ε α) s = some (.error e, s') ↔ False := by
  cases o with
  | some c => exact pure_error
  | none => exact iff_false_intro fun h => by cases h

end errors

theorem onPart_ok {part : σ → τ} {put : τ → σ → σ} :
    (onPart part put y) s = some (.ok a, s') ↔ ∃ t, y (part s) = some (.ok a, t) ∧ s' = put t s := by
  unfold onPart
  rw [Option.map_eq_some_iff]
  constructor
  · rintro ⟨⟨r, t⟩, hy, h⟩
    cases h
    exact ⟨t, hy, rfl⟩
  · rintro ⟨t, hy, rfl⟩
    exact ⟨(.ok a, t), hy, rfl⟩

theorem onLocal_ok {t t' : τ} : (onLocal t y) s = some (.ok (a, t'), s') ↔ y t = some (.ok a, t') ∧ s = s' := by
  unfold onLocal
  rw [Option.map_eq_some_iff]
  constructor
  · rintro ⟨⟨r, t''⟩, hy, h⟩
    cases r with
    | ok a' =>
      cases h
      exact ⟨hy, rfl⟩
    | error e => cases h
  · rintro ⟨hy, rfl⟩
    exact ⟨(.ok a, t'), hy, rfl⟩

theorem attempt_ok : (attempt x) s = some (.ok r, s') ↔ x s = some (r, s') := by
  unfold attempt
  rw [Option.map_eq_some_iff]
  constructor
  · rintro ⟨⟨r', t⟩, hx, h⟩
    cases h
    exact hx
  · intro hx
    exact ⟨(r, s'), hx, rfl⟩

/-- Whether a value comes back, and a state like this is left. -/
def finishes (x : Action σ ε α) (p : σ → Bool) (s : σ) : Bool :=
  match x s with
  | some (.ok _, s') => p s'
  | _ => false

theorem finishes_iff {p : σ → Bool} : finishes x p s = true ↔ ∃ a s', x s = some (.ok a, s') ∧ p s' = true := by
  unfold finishes
  constructor
  · intro h
    split at h
    · rename_i a s' hx
      exact ⟨a, s', hx, h⟩
    · cases h
  · rintro ⟨a, s', hx, hp⟩
    rw [hx]
    exact hp

/-! ## Loops -/

variable {ι : Type}

def rounds (body : ι → Action σ ε (ι ⊕ α)) : Nat → ι → Action σ ε α
  | 0, _ => stop
  | n + 1, i => do
    match ← body i with
    | .inl j => rounds body n j
    | .inr a => pure a

/-- Repeat until a round gives a value; a round that does not hands its locals to the next. -/
def forever (μ : σ → Nat) (body : ι → Action σ ε (ι ⊕ α)) (i : ι) : Action σ ε α := fun s =>
  rounds body (μ s + 1) i s

/-- The runs of a loop that come back. -/
inductive Repeats (body : ι → Action σ ε (ι ⊕ α)) : ι → σ → Except ε α → σ → Prop where
  | done {i : ι} {s s' : σ} {a : α} : body i s = some (.ok (.inr a), s') → Repeats body i s (.ok a) s'
  | failed {i : ι} {s s' : σ} {e : ε} : body i s = some (.error e, s') → Repeats body i s (.error e) s'
  | again {i j : ι} {s t s' : σ} {r : Except ε α} :
      body i s = some (.ok (.inl j), t) → Repeats body j t r s' → Repeats body i s r s'

variable {body : ι → Action σ ε (ι ⊕ α)} {μ : σ → Nat} {i : ι} {r : Except ε α}

theorem rounds_repeats {n : Nat} (h : rounds body n i s = some (r, s')) : Repeats body i s r s' := by
  induction n generalizing i s with
  | zero => cases h
  | succ n ih =>
    cases r with
    | ok a =>
      obtain ⟨o, t, hbody, hrest⟩ := bind_ok.mp h
      cases o with
      | inl j => exact .again hbody (ih hrest)
      | inr b =>
        obtain ⟨rfl, rfl⟩ := pure_ok.mp hrest
        exact .done hbody
    | error e =>
      obtain hbody | ⟨o, t, hbody, hrest⟩ := bind_error.mp h
      · exact .failed hbody
      · cases o with
        | inl j => exact .again hbody (ih hrest)
        | inr b => exact (pure_error.mp hrest).elim

/-- **The bound of a loop** is never met, where every round makes the measure smaller. -/
theorem repeats_rounds (hround : ∀ i t j t', body i t = some (.ok (.inl j), t') → μ t' < μ t) {n : Nat}
    (hn : μ s < n) (h : Repeats body i s r s') : rounds body n i s = some (r, s') := by
  induction h generalizing n with
  | done hbody =>
    obtain ⟨n, rfl⟩ : ∃ k, n = k + 1 := ⟨n - 1, by omega⟩
    exact bind_ok.mpr ⟨_, _, hbody, pure_ok.mpr ⟨rfl, rfl⟩⟩
  | failed hbody =>
    obtain ⟨n, rfl⟩ : ∃ k, n = k + 1 := ⟨n - 1, by omega⟩
    exact bind_error.mpr (.inl hbody)
  | @again i j s t s' r hbody _ ih =>
    obtain ⟨n, rfl⟩ : ∃ k, n = k + 1 := ⟨n - 1, by omega⟩
    have hlt := hround _ _ _ _ hbody
    cases r with
    | ok a => exact bind_ok.mpr ⟨_, _, hbody, ih (by omega)⟩
    | error e => exact bind_error.mpr (.inr ⟨_, _, hbody, ih (by omega)⟩)

/-- **What a loop gives**, round by round. -/
theorem forever_some (hround : ∀ i t j t', body i t = some (.ok (.inl j), t') → μ t' < μ t) :
    forever μ body i s = some (r, s') ↔ Repeats body i s r s' :=
  ⟨rounds_repeats, repeats_rounds hround (Nat.lt_succ_self _)⟩

/-- **The rule of a loop**: what every round keeps holds where the last one starts. -/
theorem Repeats.invariant (I : ι → σ → Prop)
    (hround : ∀ i t j t', I i t → body i t = some (.ok (.inl j), t') → I j t') (hI : I i s)
    (h : Repeats body i s (.ok a) s') : ∃ j t, I j t ∧ body j t = some (.ok (.inr a), s') := by
  generalize hr : (Except.ok a : Except ε α) = r at h
  induction h with
  | done hbody =>
    cases hr
    exact ⟨_, _, hI, hbody⟩
  | failed _ => cases hr
  | again hbody _ ih => exact ih (hround _ _ _ _ hI hbody) hr

end Action

end BuildYourOwn.Lib
