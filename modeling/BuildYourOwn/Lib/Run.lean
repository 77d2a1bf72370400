import Mathlib.Data.List.Forall2
import Mathlib.Logic.Relation

/-!
# Runs of a deterministic machine, with their history

A machine is a step function `σ → ι → Option (σ × ο)`: the state after one input and the output,
or `none` when the machine cannot take the input (it has stopped, it panicked). `Run step s₀ es s`
is a run from `s₀` to `s` whose history is `es`, one `Event` an input in the order they came, each
with the state on both sides of it.
-/

namespace BuildYourOwn.Lib

/-- One step of a run. -/
structure Event (σ ι ο : Type) where
  before : σ
  input : ι
  output : ο
  after : σ

variable {σ ι ο : Type} {step : σ → ι → Option (σ × ο)} {s₀ s : σ} {es : List (Event σ ι ο)}

/-- The runs from `s₀`. -/
inductive Run (step : σ → ι → Option (σ × ο)) (s₀ : σ) : List (Event σ ι ο) → σ → Prop
  | nil : Run step s₀ [] s₀
  | snoc {es : List (Event σ ι ο)} {s s' : σ} {i : ι} {o : ο} (h : Run step s₀ es s)
      (hs : step s i = some (s', o)) : Run step s₀ (es ++ [⟨s, i, o, s'⟩]) s'

variable {e : Event σ ι ο}

theorem Run.step_of_mem (h : Run step s₀ es s) (he : e ∈ es) : step e.before e.input = some (e.after, e.output) := by
  induction h with
  | nil => cases he
  | snoc _ hs ih =>
    rcases List.mem_append.mp he with he | he
    · exact ih he
    · obtain rfl := List.mem_singleton.mp he
      exact hs

variable {es₁ es₂ : List (Event σ ι ο)}

theorem Run.split (h : Run step s₀ es s) (hsplit : es = es₁ ++ e :: es₂) : Run step s₀ es₁ e.before := by
  induction h generalizing es₁ es₂ with
  | nil => simp at hsplit
  | @snoc es s s' i o h hs ih =>
    rcases List.eq_nil_or_concat es₂ with rfl | ⟨es₂', e', rfl⟩
    · obtain ⟨rfl, he⟩ := List.append_inj' hsplit rfl
      cases he
      exact h
    · rw [List.concat_eq_append, ← List.cons_append, ← List.append_assoc] at hsplit
      exact ih (List.append_inj' hsplit rfl).1

theorem Run.split_after (h : Run step s₀ es s) (hsplit : es = es₁ ++ e :: es₂) : Run step s₀ (es₁ ++ [e]) e.after :=
  (h.split hsplit).snoc (h.step_of_mem (hsplit ▸ List.mem_append_right _ List.mem_cons_self))

theorem Run.append_inv (h : Run step s₀ (es₁ ++ es₂) s) : ∃ m, Run step s₀ es₁ m ∧ Run step m es₂ s := by
  generalize hes : es₁ ++ es₂ = es at h
  induction h generalizing es₂ with
  | nil =>
    obtain ⟨rfl, rfl⟩ := List.append_eq_nil_iff.mp hes
    exact ⟨s₀, Run.nil, Run.nil⟩
  | @snoc es s s' i o h hs ih =>
    rcases List.eq_nil_or_concat es₂ with rfl | ⟨es₃, e, rfl⟩
    · rw [List.append_nil] at hes
      subst hes
      exact ⟨s', h.snoc hs, Run.nil⟩
    · rw [List.concat_eq_append, ← List.append_assoc] at hes
      obtain ⟨hinit, hlast⟩ := List.append_inj' hes rfl
      cases hlast
      obtain ⟨m, h₁, h₂⟩ := ih hinit
      rw [List.concat_eq_append]
      exact ⟨m, h₁, h₂.snoc hs⟩

theorem Run.eq_after (h : Run step s₀ (es ++ [e]) s) : s = e.after := by
  generalize hes : es ++ [e] = es' at h
  cases h with
  | nil => simp at hes
  | snoc h hs =>
    obtain ⟨-, he⟩ := List.append_inj' hes rfl
    cases he
    rfl

theorem Run.rest (h : Run step s₀ (es₁ ++ e :: es₂) s) : Run step e.after es₂ s := by
  rw [List.append_cons] at h
  obtain ⟨m, hfirst, hrest⟩ := h.append_inv
  rwa [hfirst.eq_after] at hrest

/-! What holds of a history and of the event behind it. -/

theorem forall_mem_snoc {α : Type} {p : α → Prop} {l : List α} {a : α} (hl : ∀ b ∈ l, p b)
    (ha : p a) : ∀ b ∈ l ++ [a], p b := by
  intro b hb
  rcases List.mem_append.mp hb with hb | hb
  · exact hl b hb
  · exact List.mem_singleton.mp hb ▸ ha

theorem pairwise_snoc {α : Type} {r : α → α → Prop} {l : List α} {a : α} (hl : l.Pairwise r)
    (ha : ∀ b ∈ l, r b a) : (l ++ [a]).Pairwise r :=
  List.pairwise_append.mpr ⟨hl, List.pairwise_singleton r a, fun b hb _ hc =>
    List.mem_singleton.mp hc ▸ ha b hb⟩

/-- **The invariant rule, with the history**: `P` relates the events so far to the state, and every
event meets the guard `G`. -/
theorem Run.history_invariant {P : List (Event σ ι ο) → σ → Prop} {G : Event σ ι ο → Prop}
    (h : Run step s₀ es s) (h₀ : P [] s₀) (hstep : ∀ es s i s' o, P es s → G ⟨s, i, o, s'⟩ → step s i = some (s', o) →
      P (es ++ [⟨s, i, o, s'⟩]) s') (hg : ∀ e ∈ es, G e) : P es s := by
  induction h with
  | nil => exact h₀
  | snoc _ hs ih =>
    have hP := ih fun e he => hg e (List.mem_append_left _ he)
    exact hstep _ _ _ _ _ hP (hg _ List.mem_concat_self) hs

theorem Run.invariant {P : σ → Prop} {G : σ → ι → Prop} (h : Run step s₀ es s) (h₀ : P s₀)
    (hstep : ∀ s i s' o, P s → G s i → step s i = some (s', o) → P s') (hg : ∀ e ∈ es, G e.before e.input) : P s :=
  h.history_invariant (P := fun _ => P) h₀ (fun _ s i s' o => hstep s i s' o) hg

theorem Run.eq_foldl {next : σ → ι → σ} (h : Run step s₀ es s)
    (hnext : ∀ e ∈ es, step e.before e.input = some (e.after, e.output) →
      e.after = next e.before e.input) : s = (es.map Event.input).foldl next s₀ := by
  induction h with
  | nil => rfl
  | snoc h hs ih =>
    have hlast := hnext _ List.mem_concat_self hs
    rw [List.map_append, List.foldl_append, ← ih fun e he => hnext e (List.mem_append_left _ he)]
    exact hlast

theorem Run.extend (htotal : ∀ s i, ∃ s' o, step s i = some (s', o)) (is : List ι)
    {es : List (Event σ ι ο)} {s : σ} (h : Run step s₀ es s) :
    ∃ es' s', Run step s₀ (es ++ es') s' ∧ es'.map Event.input = is := by
  induction is generalizing es s with
  | nil => exact ⟨[], s, (List.append_nil es).symm ▸ h, rfl⟩
  | cons i is ih =>
    obtain ⟨s', o, hs⟩ := htotal s i
    obtain ⟨es', s'', hrun, rfl⟩ := ih (h.snoc hs)
    exact ⟨⟨s, i, o, s'⟩ :: es', s'', by rwa [List.append_cons], rfl⟩

/-! ## Executing a list of inputs -/

/-- Feed the inputs one after another, collecting the history. -/
def exec (step : σ → ι → Option (σ × ο)) (s : σ) :
    List ι → List (Event σ ι ο) → Option (List (Event σ ι ο) × σ)
  | [], es => some (es, s)
  | i :: is, es =>
    match step s i with
    | some (s', o) => exec step s' is (es ++ [⟨s, i, o, s'⟩])
    | none => none

theorem Run.exec (h : Run step s₀ es s) :
    ∀ {is : List ι} {es' : List (Event σ ι ο)} {s' : σ}, exec step s is es = some (es', s') → Run step s₀ es' s' := by
  intro is
  induction is generalizing es s with
  | nil =>
    intro es' s' he
    simp only [Lib.exec, Option.some.injEq, Prod.mk.injEq] at he
    obtain ⟨rfl, rfl⟩ := he
    exact h
  | cons i is ih =>
    intro es' s' he
    simp only [Lib.exec] at he
    split at he
    · rename_i s₁ o hs
      exact ih (h.snoc hs) he
    · cases he

theorem run_of_exec (is : List ι) (h : exec step s₀ is [] = some (es, s)) : Run step s₀ es s :=
  Run.nil.exec h

end BuildYourOwn.Lib

/-!
## Two machines in lockstep

* `Run.filter`: a run without the events that left the state alone is a run.
* `Run.simulated`: a machine that can answer each step of another one has a run that answers the whole
  run, event by event.
* `Run.unique`: the inputs determine the run.
-/

namespace BuildYourOwn.Lib

variable {σ ι ο τ κ π : Type} {step : σ → ι → Option (σ × ο)} {s₀ s s' : σ}
  {es es' : List (Event σ ι ο)}

theorem Run.filter (h : Run step s₀ es s) (p : Event σ ι ο → Bool)
    (hquiet : ∀ e ∈ es, p e = false → e.after = e.before) : Run step s₀ (es.filter p) s := by
  induction h with
  | nil => exact Run.nil
  | @snoc es s s' i o h hs ih =>
    have hrun := ih fun e he => hquiet e (List.mem_append_left _ he)
    rw [List.filter_append]
    by_cases hp : p ⟨s, i, o, s'⟩ = true
    · rw [List.filter_cons_of_pos hp]
      exact hrun.snoc hs
    · have hsame : s' = s :=
        hquiet _ List.mem_concat_self (Bool.eq_false_iff.mpr hp)
      subst hsame
      rw [List.filter_cons_of_neg hp, List.filter_nil, List.append_nil]
      exact hrun

theorem Run.simulated {step' : τ → κ → Option (τ × π)} {t₀ : τ} {R : σ → τ → Prop}
    {A : Event σ ι ο → Event τ κ π → Prop} (h : Run step s₀ es s) (h₀ : R s₀ t₀)
    (hstep : ∀ e ∈ es, ∀ t, R e.before t → step e.before e.input = some (e.after, e.output) →
      ∃ j o t', step' t j = some (t', o) ∧ R e.after t' ∧ A e ⟨t, j, o, t'⟩) :
    ∃ fs t, Run step' t₀ fs t ∧ R s t ∧ List.Forall₂ A es fs := by
  induction h with
  | nil => exact ⟨[], t₀, Run.nil, h₀, List.Forall₂.nil⟩
  | @snoc es s s' i o h hs ih =>
    obtain ⟨fs, t, hrun, hR, hA⟩ := ih fun e he => hstep e (List.mem_append_left _ he)
    obtain ⟨j, o', t', hs', hR', hA'⟩ :=
      hstep ⟨s, i, o, s'⟩ List.mem_concat_self t hR hs
    exact ⟨_, t', hrun.snoc hs', hR', List.rel_append hA (List.Forall₂.cons hA' List.Forall₂.nil)⟩

theorem Run.unique (h : Run step s₀ es s) (h' : Run step s₀ es' s')
    (hin : es.map Event.input = es'.map Event.input) : es = es' ∧ s = s' := by
  induction h generalizing es' s' with
  | nil =>
    cases h' with
    | nil => exact ⟨rfl, rfl⟩
    | snoc => simp at hin
  | @snoc es s s₁ i o h hs ih =>
    cases h' with
    | nil => simp at hin
    | @snoc es' s' s₁' i' o' h' hs' =>
      rw [List.map_append, List.map_append] at hin
      obtain ⟨hinit, hlast⟩ := List.append_inj' hin rfl
      obtain ⟨rfl, rfl⟩ := ih h' hinit
      obtain rfl : i = i' := List.head_eq_of_cons_eq hlast
      rw [hs] at hs'
      cases hs'
      exact ⟨rfl, rfl⟩

end BuildYourOwn.Lib
