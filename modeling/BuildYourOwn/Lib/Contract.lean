import BuildYourOwn.Lib.Action

/-!
# What an action may leave behind

`Ends N Q (x s)` is a contract of the action `x` from the state `s`: what it gives, a value or an error, and the
state it leaves are as `Q` says, and where it does not come back, `N` holds. There is a rule for each way an
action is put together, so a contract of a long action is one of its parts after the other.

* `FailsAs P x`: the errors of `x`, whatever the state; `failsAs_bind` puts it together.
* `Keeps f x`: what `x` leaves alone, however it ends.
-/

namespace BuildYourOwn.Lib

namespace Action

variable {σ τ ε α β ι : Type}

def Ends (N : Prop) (Q : Except ε α → σ → Prop) : Option (Except ε α × σ) → Prop
  | some (r, s) => Q r s
  | none => N

/-- A contract for values; an error is left to `E`. -/
def Gives (Q : α → σ → Prop) (E : ε → σ → Prop) : Except ε α → σ → Prop
  | .ok a => Q a
  | .error e => E e

variable {N : Prop} {Q Q' : Except ε α → σ → Prop} {s s' : σ} {x : Action σ ε α}

theorem Ends.mono (h : Ends N Q (x s)) (hQ : ∀ r t, Q r t → Q' r t) : Ends N Q' (x s) := by
  cases hx : x s with
  | none =>
    rw [hx] at h
    exact h
  | some r =>
    rw [hx] at h
    exact hQ r.1 r.2 h

variable {r : Except ε α}

theorem Ends.some (h : Ends N Q (x s)) (hx : x s = some (r, s')) : Q r s' := by
  rw [hx] at h
  exact h

theorem Ends.none (h : Ends N Q (x s)) (hx : x s = none) : N := by
  rw [hx] at h
  exact h

theorem Ends.comes (h : Ends False Q (x s)) : ∃ r s', x s = Option.some (r, s') ∧ Q r s' := by
  cases hx : x s with
  | none => exact (h.none hx).elim
  | some r => exact ⟨r.1, r.2, rfl, h.some hx⟩

theorem ends_of_some (hx : x s = some (r, s')) (h : Q r s') : Ends N Q (x s) := by
  rw [hx]
  exact h

/-! ## One rule a way to put actions together -/

variable {e : ε}

@[simp] theorem ends_get {Q : Except ε σ → σ → Prop} : Ends N Q ((get : Action σ ε σ) s) ↔ Q (.ok s) s := Iff.rfl

@[simp] theorem ends_modify {Q : Except ε Unit → σ → Prop} {f : σ → σ} :
    Ends N Q ((modify f : Action σ ε Unit) s) ↔ Q (.ok ()) (f s) := Iff.rfl

@[simp] theorem ends_lift : Ends N Q ((lift r : Action σ ε α) s) ↔ Q r s := by
  cases r <;> exact Iff.rfl

@[simp] theorem ends_require {Q : Except ε Unit → σ → Prop} {p : Prop} [Decidable p] :
    Ends N Q ((require p e : Action σ ε Unit) s) ↔ if p then Q (.ok ()) s else Q (.error e) s := by
  unfold require
  split <;> exact Iff.rfl

variable {o : Option α}

@[simp] theorem ends_demand :
    Ends N Q ((demand o e : Action σ ε α) s) ↔ o.elim (Q (.error e) s) fun a => Q (.ok a) s := by
  cases o <;> exact Iff.rfl

@[simp] theorem ends_orStop : Ends N Q ((orStop o : Action σ ε α) s) ↔ o.elim N fun a => Q (.ok a) s := by
  cases o <;> exact Iff.rfl

/-- **A sequence**: what follows starts where the first part gave a value. -/
theorem ends_bind {f : α → Action σ ε β} {Q : Except ε β → σ → Prop} :
    Ends N Q ((x >>= f) s) ↔ Ends N (Gives (fun a t => Ends N Q (f a t)) fun e t => Q (.error e) t) (x s) := by
  cases hx : x s with
  | none =>
    rw [bind_of_none hx]
    exact Iff.rfl
  | some r =>
    obtain ⟨r, t⟩ := r
    cases r with
    | ok a =>
      rw [bind_of_ok hx]
      exact Iff.rfl
    | error e =>
      rw [bind_of_error hx]
      exact Iff.rfl

theorem ends_onPart {part : σ → τ} {put : τ → σ → σ} {y : Action τ ε α} :
    Ends N Q (onPart part put y s) ↔ Ends N (fun r t => Q r (put t s)) (y (part s)) := by
  unfold onPart
  cases y (part s) with
  | none => exact Iff.rfl
  | some r => exact Iff.rfl

theorem ends_attempt {Q : Except ε (Except ε α) → σ → Prop} :
    Ends N Q (attempt x s) ↔ Ends N (fun r t => Q (.ok r) t) (x s) := by
  unfold attempt
  cases x s with
  | none => exact Iff.rfl
  | some r => exact Iff.rfl

/-! ## Errors -/

def FailsAs (P : ε → Prop) (x : Action σ ε α) : Prop := ∀ s e s', x s = some (.error e, s') → P e

variable {P : ε → Prop}

theorem failsAs_pure {a : α} : FailsAs P (pure a : Action σ ε α) := fun _ _ _ h => (pure_error.mp h).elim

theorem failsAs_get : FailsAs P (get : Action σ ε σ) := fun _ _ _ h => (get_error.mp h).elim

theorem failsAs_modify {f : σ → σ} : FailsAs P (modify f : Action σ ε Unit) :=
  fun _ _ _ h => (modify_error.mp h).elim

theorem failsAs_orStop : FailsAs P (orStop o : Action σ ε α) :=
  fun _ _ _ h => (orStop_error.mp h).elim

theorem failsAs_lift (hr : ∀ e, r = .error e → P e) : FailsAs P (lift r : Action σ ε α) :=
  fun _ e _ h => hr e (lift_error.mp h).1

theorem failsAs_require {p : Prop} [Decidable p] (he : P e) : FailsAs P (require p e : Action σ ε Unit) :=
  fun _ _ _ h => (require_error.mp h).2.1 ▸ he

theorem failsAs_demand (he : P e) : FailsAs P (demand o e : Action σ ε α) :=
  fun _ _ _ h => (demand_error.mp h).2.1 ▸ he

/-- A sequence fails as its parts do; of the value of the first that a run gave, `f` may use what is known. -/
theorem failsAs_bind {f : α → Action σ ε β} (hx : FailsAs P x)
    (hf : ∀ a s s', x s = some (.ok a, s') → FailsAs P (f a)) : FailsAs P (x >>= f) := by
  intro s e s' h
  rcases bind_error.mp h with h | ⟨a, t, ha, h⟩
  · exact hx s e s' h
  · exact hf a s t ha t e s' h

/-! ## What is left alone -/

def Keeps {γ : Type} (f : σ → γ) (x : Action σ ε α) : Prop := ∀ s r s', x s = some (r, s') → f s' = f s

section keeps

variable {γ : Type} {f : σ → γ}

theorem Keeps.comp {δ : Type} (h : Keeps f x) (g : γ → δ) : Keeps (g ∘ f) x := fun s r s' hx => congrArg g (h s r s' hx)

theorem Keeps.ends (h : Keeps f x) (s : σ) : Ends True (fun _ t => f t = f s) (x s) := by
  cases hx : x s with
  | none => exact trivial
  | some r => exact h s r.1 r.2 hx

theorem keeps_pure {a : α} : Keeps f (pure a : Action σ ε α) := by
  rintro s r s' ⟨⟩
  rfl

theorem keeps_fail {e : ε} : Keeps f (fail e : Action σ ε α) := by
  rintro s r s' ⟨⟩
  rfl

theorem keeps_get : Keeps f (get : Action σ ε σ) := by
  rintro s r s' ⟨⟩
  rfl

theorem keeps_modify {g : σ → σ} (hg : ∀ s, f (g s) = f s) : Keeps f (modify g : Action σ ε Unit) := by
  rintro s r s' ⟨⟩
  exact hg s

theorem keeps_lift {r : Except ε α} : Keeps f (lift r : Action σ ε α) := by
  cases r with
  | ok a => exact keeps_pure
  | error e => exact keeps_fail

theorem keeps_require {p : Prop} [Decidable p] {e : ε} : Keeps f (require p e : Action σ ε Unit) := by
  unfold require
  split
  · exact keeps_pure
  · exact keeps_fail

theorem keeps_demand {o : Option α} {e : ε} : Keeps f (demand o e : Action σ ε α) := by
  cases o with
  | some a => exact keeps_pure
  | none => exact keeps_fail

theorem keeps_orStop {o : Option α} : Keeps f (orStop o : Action σ ε α) := by
  cases o with
  | some a => exact keeps_pure
  | none => exact fun _ _ _ h => by cases h

theorem keeps_bind {k : α → Action σ ε β} (hx : Keeps f x) (hk : ∀ a, Keeps f (k a)) : Keeps f (x >>= k) := by
  intro s r s' h
  cases hxs : x s with
  | none =>
    rw [bind_of_none hxs] at h
    cases h
  | some t =>
    obtain ⟨r', t⟩ := t
    cases r' with
    | ok a =>
      rw [bind_of_ok hxs] at h
      exact (hk a t r s' h).trans (hx s _ t hxs)
    | error e =>
      rw [bind_of_error hxs] at h
      cases h
      exact hx s _ _ hxs

theorem keeps_onPart {δ : Type} {part : σ → τ} {put : τ → σ → σ} {y : Action τ ε α} {g : τ → δ} (hy : Keeps g y)
    (hput : ∀ s t, g t = g (part s) → f (put t s) = f s) : Keeps f (onPart part put y) := by
  intro s r s' h
  obtain ⟨⟨r', t⟩, ht, hs⟩ := Option.map_eq_some_iff.mp h
  cases hs
  exact hput s t (hy _ _ _ ht)

theorem keeps_forever {μ : σ → Nat} {body : ι → Action σ ε (ι ⊕ α)} (hbody : ∀ i, Keeps f (body i)) (i : ι) :
    Keeps f (forever μ body i) := by
  have hrounds (n : Nat) : ∀ i, Keeps f (rounds body n i) := by
    induction n with
    | zero => exact fun _ _ _ _ h => by cases h
    | succ n ih =>
      refine fun i => keeps_bind (hbody i) fun o => ?_
      cases o with
      | inl j => exact ih j
      | inr a => exact keeps_pure
  exact fun s => hrounds _ i s

end keeps

/-! ## Loops -/

variable {body : ι → Action σ ε (ι ⊕ α)} {μ : σ → Nat} {i : ι}

/-- What a round has to do: keep `I` and make the measure smaller, or end as `Q` says. -/
def Round (I : ι → σ → Prop) (μ : σ → Nat) (Q : Except ε α → σ → Prop) (n : Nat) :
    Except ε (ι ⊕ α) → σ → Prop
  | .ok (.inl j), t => I j t ∧ μ t < n
  | .ok (.inr a), t => Q (.ok a) t
  | .error e, t => Q (.error e) t

/-- **The rule of a loop.** -/
theorem ends_forever {I : ι → σ → Prop} (hI : I i s)
    (hround : ∀ i t, I i t → Ends N (Round I μ Q (μ t)) (body i t)) : Ends N Q (forever μ body i s) := by
  have hrounds (n : Nat) : ∀ i s, I i s → μ s < n → Ends N Q (rounds body n i s) := by
    induction n with
    | zero => exact fun _ _ _ hn => absurd hn (Nat.not_lt_zero _)
    | succ n ih =>
      intro i s hI hn
      refine ends_bind.mpr ((hround i s hI).mono fun r t hr => ?_)
      match r with
      | .ok (.inl j) => exact ih j t hr.1 (by have := hr.2; omega)
      | .ok (.inr a) => exact hr
      | .error e => exact hr
  exact hrounds _ i s hI (Nat.lt_succ_self _)

/-- What a round gives, where the locals make a measure smaller. -/
def Turn (I : ι → σ → Prop) (m : ι → Nat) (Q : Except ε α → σ → Prop) (n : Nat) : Except ε (ι ⊕ α) → σ → Prop
  | .ok (.inl j), t => I j t ∧ m j < n
  | .ok (.inr a), t => Q (.ok a) t
  | .error e, t => Q (.error e) t

/-- **The rule of a loop** whose bound is on its locals. -/
theorem ends_rounds {I : ι → σ → Prop} {m : ι → Nat} {n : Nat} (hI : I i s) (hn : m i < n)
    (hround : ∀ i t, I i t → Ends N (Turn I m Q (m i)) (body i t)) : Ends N Q (rounds body n i s) := by
  induction n generalizing i s with
  | zero => exact absurd hn (Nat.not_lt_zero _)
  | succ n ih =>
    refine ends_bind.mpr ((hround i s hI).mono fun r t hr => ?_)
    match r with
    | .ok (.inl j) => exact ih hr.1 (by have := hr.2; omega)
    | .ok (.inr a) => exact hr
    | .error e => exact hr

end Action

end BuildYourOwn.Lib

/-!
## Actions with a log

A state with a history beside it. An action on the state alone runs on both (`unlogged`), and what is to be
remembered is noted between its parts (`note`). `Logs y x` says that `y` is `x` with notes: where the log is left out
the two do the same. There is a rule for each way actions are put together, so an action with notes is checked
against the one without part by part.
-/

namespace BuildYourOwn.Lib

structure Logged (σ L : Type) where
  state : σ
  log : List L

namespace Action

variable {σ ε α β L : Type}

/-- Leave the log alone. -/
def unlogged (x : Action σ ε α) : Action (Logged σ L) ε α :=
  onPart Logged.state (fun s w => { w with state := s }) x

def note (entries : List L) : Action (Logged σ L) ε Unit := modify fun w => { w with log := w.log ++ entries }

/-- Without the notes, `y` is `x`. -/
def Logs (y : Action (Logged σ L) ε α) (x : Action σ ε α) : Prop :=
  ∀ w, (y w).map (fun r => (r.1, r.2.state)) = x w.state

variable {x x' : Action σ ε α} {y : Action (Logged σ L) ε α} {f : α → Action σ ε β}
  {g : α → Action (Logged σ L) ε β}

theorem Logs.congr (h : Logs y x) (hx : ∀ s, x s = x' s) : Logs y x' := fun w => (h w).trans (hx w.state)

theorem logs_unlogged (x : Action σ ε α) : Logs (unlogged x : Action (Logged σ L) ε α) x := by
  intro w
  unfold unlogged onPart
  cases x w.state <;> rfl

theorem logs_pure (a : α) : Logs (pure a : Action (Logged σ L) ε α) (pure a) := fun _ => rfl

theorem logs_lift (r : Except ε α) : Logs (lift r : Action (Logged σ L) ε α) (lift r) := by
  intro w
  cases r <;> rfl

theorem logs_bind (hx : Logs y x) (hf : ∀ a, Logs (g a) (f a)) : Logs (y >>= g) (x >>= f) := by
  intro w
  have hw := hx w
  cases hy : y w with
  | none =>
    rw [hy] at hw
    rw [bind_of_none hy, bind_of_none hw.symm]
    rfl
  | some r =>
    obtain ⟨r, t⟩ := r
    rw [hy] at hw
    cases r with
    | ok a =>
      rw [bind_of_ok hy, bind_of_ok hw.symm]
      exact hf a t
    | error e =>
      rw [bind_of_error hy, bind_of_error hw.symm]
      rfl

theorem logs_get {f : σ → Action σ ε β} {g : Logged σ L → Action (Logged σ L) ε β}
    (h : ∀ w, Logs (g w) (f w.state)) : Logs (get >>= g) (get >>= f) := fun w => h w w

theorem logs_look {x : Action σ ε β} {g : Logged σ L → Action (Logged σ L) ε β} (h : ∀ w, Logs (g w) x) :
    Logs (get >>= g) x := fun w => h w w

theorem logs_note {x : Action σ ε β} {y : Action (Logged σ L) ε β} (h : Logs y x) (entries : List L) :
    Logs (note entries >>= fun _ => y) x := fun w => h ⟨w.state, w.log ++ entries⟩

theorem logs_attempt (h : Logs y x) : Logs (attempt y) (attempt x) := by
  intro w
  unfold attempt
  rw [← h w]
  cases y w <;> rfl

theorem Logs.run (h : Logs y x) {w w' : Logged σ L} {r : Except ε α} (hy : y w = some (r, w')) :
    x w.state = some (r, w'.state) := by
  rw [← h w, hy]
  rfl

theorem ends_unlogged {N : Prop} {Q : Except ε α → Logged σ L → Prop} {w : Logged σ L} :
    Ends N Q (unlogged x w) ↔ Ends N (fun r s => Q r ⟨s, w.log⟩) (x w.state) := ends_onPart

end Action

end BuildYourOwn.Lib
