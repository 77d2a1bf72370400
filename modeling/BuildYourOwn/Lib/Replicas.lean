import BuildYourOwn.Lib.Run

/-!
# Processes side by side

Copies of one machine, one for each process (`each`): an input is for one of them and the others stay as they are.
What happened is looked at by positions: `stateAt` is the state after the first events of a history.
-/

namespace BuildYourOwn.Lib

variable {σ ι ο P : Type} {step : σ → ι → Option (σ × ο)} {s₀ s : σ} {es : List (Event σ ι ο)}
  {e : Event σ ι ο} {n : Nat}

/-- The state after the first `n` events. -/
def stateAt (s₀ : σ) (es : List (Event σ ι ο)) : Nat → σ
  | 0 => s₀
  | n + 1 =>
    match es[n]? with
    | some e => e.after
    | none => stateAt s₀ es n

theorem stateAt_succ (he : es[n]? = some e) : stateAt s₀ es (n + 1) = e.after := by
  rw [stateAt, he]

theorem stateAt_stays (h : es[n]? = none) : stateAt s₀ es (n + 1) = stateAt s₀ es n := by
  rw [stateAt, h]

theorem stateAt_append {es' : List (Event σ ι ο)} (hn : n ≤ es.length) :
    stateAt s₀ (es ++ es') n = stateAt s₀ es n := by
  induction n with
  | zero => rfl
  | succ n ih => rw [stateAt, stateAt, List.getElem?_append_left hn, ih (Nat.le_of_succ_le hn)]

theorem Run.stateAt_eq (h : Run step s₀ es s) :
    (∀ n e, es[n]? = some e → e.before = stateAt s₀ es n) ∧ s = stateAt s₀ es es.length := by
  induction h with
  | nil => exact ⟨nofun, rfl⟩
  | @snoc es s s' i o h hs ih =>
    have hnew : (es ++ [⟨s, i, o, s'⟩])[es.length]? = some ⟨s, i, o, s'⟩ := by simp
    refine ⟨fun n e he => ?_, ?_⟩
    · rw [List.getElem?_append] at he
      split at he
      · rename_i hlt
        rw [stateAt_append (Nat.le_of_lt hlt)]
        exact ih.1 n e he
      · rename_i hge
        obtain ⟨hlt, hget⟩ := List.getElem?_eq_some_iff.mp he
        rw [List.length_singleton] at hlt
        obtain rfl : n = es.length := by omega
        rw [← hget, stateAt_append (Nat.le_refl _), ← ih.2]
        simp
    · rw [List.length_append, List.length_singleton, stateAt_succ hnew]

theorem Run.before_eq (h : Run step s₀ es s) (he : es[n]? = some e) :
    e.before = stateAt s₀ es n := h.stateAt_eq.1 n e he

theorem Run.step_at (h : Run step s₀ es s) (he : es[n]? = some e) :
    step (stateAt s₀ es n) e.input = some (stateAt s₀ es (n + 1), e.output) := by
  rw [← h.before_eq he, stateAt_succ he]
  exact h.step_of_mem (List.mem_of_getElem? he)

section Each

variable [DecidableEq P]

/-- A copy of the machine for every process. -/
def each (step : σ → ι → Option (σ × ο)) (s : P → σ) (i : P × ι) : Option ((P → σ) × ο) :=
  (step (s i.1) i.2).map fun r => (Function.update s i.1 r.1, r.2)

/-- **An input changes the process it is for**, by a step of the machine. -/
theorem each_eq_some {s s' : P → σ} {i : P × ι} {o : ο} :
    each step s i = some (s', o) ↔ step (s i.1) i.2 = some (s' i.1, o) ∧ ∀ p ≠ i.1, s' p = s p := by
  unfold each
  rw [Option.map_eq_some_iff]
  constructor
  · rintro ⟨r, hr, heq⟩
    cases heq
    refine ⟨?_, fun p hp => Function.update_of_ne hp _ _⟩
    rw [Function.update_self]
    exact hr
  · rintro ⟨hstep, hother⟩
    refine ⟨_, hstep, Prod.ext (funext fun p => ?_) rfl⟩
    by_cases hp : p = i.1
    · subst hp
      exact Function.update_self _ _ _
    · exact (Function.update_of_ne hp _ _).trans (hother p hp).symm

variable {s₀ s : P → σ} {es : List (Event (P → σ) (P × ι) ο)}

/-- **The state of one process, from one moment to the next.** -/
theorem Run.each_cases (h : Run (each step) s₀ es s) (n : Nat) (p : P) :
    (stateAt s₀ es (n + 1) p = stateAt s₀ es n p ∧ ∀ e, es[n]? = some e → e.input.1 ≠ p) ∨
      ∃ e, es[n]? = some e ∧ e.input.1 = p ∧
        step (stateAt s₀ es n p) e.input.2 = some (stateAt s₀ es (n + 1) p, e.output) := by
  cases he : es[n]? with
  | none => exact Or.inl ⟨congrFun (stateAt_stays he) p, nofun⟩
  | some e =>
    obtain ⟨hstep, hother⟩ := each_eq_some.mp (h.step_at he)
    by_cases hp : e.input.1 = p
    · subst hp
      exact .inr ⟨e, rfl, rfl, hstep⟩
    · refine .inl ⟨hother p (Ne.symm hp), fun e' he' => ?_⟩
      cases he'
      exact hp

end Each

end BuildYourOwn.Lib
