import Mathlib.Algebra.Ring.Nat
import BuildYourOwn.Lib.Contract

/-!
# Slices, `usize` and what panics

Operations that stop where a Rust program panics: arithmetic past `usize`, an index or a range outside of a slice, a
copy between lengths that differ. `each` is a loop that collects what its rounds give.

* `Follows x r`: whatever the state, `x` comes back, with the result of the computation `r`. There is a rule for each
  way an action is put together, so an action that may panic is checked against a computation that cannot, part by
  part (`follows_bind`, `follows_each`).
-/

namespace BuildYourOwn.Lib

namespace Action

variable {σ ε α β : Type}

/-! ## `usize` -/

/-- How many numbers a `usize` has. -/
abbrev usizes : Nat := 2 ^ 64

/-- `a + b`. -/
def addUsize (a b : Nat) : Action σ ε Nat := orStop (if a + b < usizes then some (a + b) else none)

/-- `a - b`. -/
def subUsize (a b : Nat) : Action σ ε Nat := orStop (if b ≤ a then some (a - b) else none)

/-- `a * b`. -/
def mulUsize (a b : Nat) : Action σ ε Nat := orStop (if a * b < usizes then some (a * b) else none)

def checkedAdd (a b : Nat) : Option Nat := if a + b < usizes then some (a + b) else none

/-! ## Slices -/

/-- `l[i]`. -/
def index (l : List α) (i : Nat) : Action σ ε α := orStop l[i]?

/-- `&l[start..stop]`. -/
def range (l : List α) (start stop : Nat) : Action σ ε (List α) :=
  orStop (if start ≤ stop ∧ stop ≤ l.length then some ((l.drop start).take (stop - start)) else none)

/-- `copy_from_slice` into an array. -/
def copyInto (n : Nat) (l : List α) : Action σ ε (List α) := orStop (if l.length = n then some l else none)

/-- A loop that collects. -/
def each (f : α → Action σ ε β) : List α → Action σ ε (List β)
  | [] => pure []
  | a :: l => do
    let b ← f a
    let bs ← each f l
    pure (b :: bs)

/-! ## Following a computation that cannot panic -/

/-- Whatever the state is, the action comes back as `r` says, and leaves the state. -/
def Follows (x : Action σ ε α) (r : Except ε α) : Prop := ∀ s, x s = some (r, s)

section
variable {x : Action σ ε α} {r : Except ε α} {f : α → Action σ ε β} {g : α → Except ε β} {l : List α}
  {a b i n : Nat}

theorem follows_pure (a : α) : Follows (pure a : Action σ ε α) (.ok a) := fun _ => rfl

theorem follows_fail (e : ε) : Follows (fail e : Action σ ε α) (.error e) := fun _ => rfl

theorem follows_lift (r : Except ε α) : Follows (lift r : Action σ ε α) r := by
  intro s
  cases r <;> rfl

theorem follows_bind (hx : Follows x r) (hf : ∀ a, r = .ok a → Follows (f a) (g a)) : Follows (x >>= f) (r >>= g) := by
  intro s
  cases r with
  | ok a => rw [bind_of_ok (hx s), hf a rfl s]; rfl
  | error e => rw [bind_of_error (hx s)]; rfl

theorem follows_next {a : α} {r : Except ε β} (hx : Follows x (.ok a)) (hf : Follows (f a) r) : Follows (x >>= f) r :=
  follows_bind (g := fun _ => r) hx fun _ ha => by cases ha; exact hf

theorem follows_require {p : Prop} [Decidable p] {e : ε} {f : Unit → Action σ ε β} {r : Except ε β}
    (hf : p → Follows (f ()) r) (hr : ¬ p → r = .error e) : Follows (require p e >>= f) r := by
  by_cases hp : p
  · rw [require, if_pos hp]
    exact follows_next (follows_pure ()) (hf hp)
  · rw [require, if_neg hp, hr hp]
    exact follows_bind (g := fun _ => .error e) (follows_fail e) fun _ h => nomatch h

variable {f : α → Action σ ε β}

theorem follows_each {g : α → Except ε β} {l : List α} (h : ∀ a ∈ l, Follows (f a) (g a)) :
    Follows (each f l) (l.mapM g) := by
  induction l with
  | nil => exact follows_pure []
  | cons a l ih =>
    rw [List.mapM_cons]
    refine follows_bind (h a List.mem_cons_self) fun b _ => ?_
    exact follows_bind (ih fun a' ha => h a' (List.mem_cons_of_mem a ha)) fun bs _ => follows_pure (b :: bs)

theorem follows_each_map {g : α → β} {l : List α} (h : ∀ a ∈ l, Follows (f a) (.ok (g a))) :
    Follows (each f l) (.ok (l.map g)) := by
  induction l with
  | nil => exact follows_pure []
  | cons a l ih =>
    refine follows_next (h a List.mem_cons_self) ?_
    exact follows_next (ih fun a' ha => h a' (List.mem_cons_of_mem a ha)) (follows_pure (g a :: l.map g))

theorem follows_addUsize (h : a + b < usizes) : Follows (addUsize a b : Action σ ε Nat) (.ok (a + b)) := by
  rw [addUsize, if_pos h]
  exact follows_pure _

theorem follows_mulUsize (h : a * b < usizes) : Follows (mulUsize a b : Action σ ε Nat) (.ok (a * b)) := by
  rw [mulUsize, if_pos h]
  exact follows_pure _

theorem follows_subUsize (h : b ≤ a) : Follows (subUsize a b : Action σ ε Nat) (.ok (a - b)) := by
  rw [subUsize, if_pos h]
  exact follows_pure _

theorem follows_index (h : i < l.length) : Follows (index l i : Action σ ε α) (.ok l[i]) := by
  rw [index, List.getElem?_eq_getElem h]
  exact follows_pure _

theorem follows_range {start stop : Nat} (hle : start ≤ stop) (hlen : stop ≤ l.length) :
    Follows (range l start stop : Action σ ε (List α)) (.ok ((l.drop start).take (stop - start))) := by
  rw [range, if_pos ⟨hle, hlen⟩]
  exact follows_pure _

theorem follows_range_part (a b c : List α) {start stop : Nat} (hstart : start = a.length)
    (hstop : stop = a.length + b.length) : Follows (range (a ++ b ++ c) start stop : Action σ ε (List α)) (.ok b) := by
  have hpart : ((a ++ b ++ c).drop start).take (stop - start) = b := by
    rw [hstop, hstart, Nat.add_sub_cancel_left, List.append_assoc, List.drop_left, List.take_left]
  conv => arg 2; rw [← hpart]
  refine follows_range (by omega) ?_
  rw [List.length_append, List.length_append]
  omega

theorem follows_copyInto (h : l.length = n) : Follows (copyInto n l : Action σ ε (List α)) (.ok l) := by
  rw [copyInto, if_pos h]
  exact follows_pure _

/-! ## Actions that come back -/

/-- Whatever the state is, the action comes back and leaves it. -/
def Total (x : Action σ ε α) : Prop := ∃ r, Follows x r

theorem total_bind (hx : Total x) (hf : ∀ a, Follows x (.ok a) → Total (f a)) : Total (x >>= f) := by
  obtain ⟨r, hr⟩ := hx
  cases r with
  | ok a =>
    obtain ⟨r, hfa⟩ := hf a hr
    exact ⟨r, follows_next hr hfa⟩
  | error e => exact ⟨_, follows_bind (g := fun _ => .error e) hr fun _ h => nomatch h⟩

theorem total_next {a : α} (hx : Follows x (.ok a)) (hf : Total (f a)) : Total (x >>= f) := by
  obtain ⟨r, hr⟩ := hf
  exact ⟨r, follows_next hx hr⟩

theorem total_require {p : Prop} [Decidable p] {e : ε} {f : Unit → Action σ ε β} (hf : p → Total (f ())) :
    Total (require p e >>= f) := by
  by_cases hp : p
  · rw [require, if_pos hp]
    exact total_next (follows_pure ()) (hf hp)
  · rw [require, if_neg hp]
    exact ⟨.error e, fun _ => rfl⟩

theorem total_demand {o : Option α} {e : ε} (hf : ∀ a, o = some a → Total (f a)) : Total (demand o e >>= f) := by
  cases ho : o with
  | some a => exact total_next (follows_pure a) (hf a ho)
  | none => exact ⟨.error e, fun _ => rfl⟩

theorem total_each {l : List α} (h : ∀ a ∈ l, Total (f a)) : Total (each f l) := by
  induction l with
  | nil => exact ⟨_, follows_pure []⟩
  | cons a l ih =>
    refine total_bind (h a List.mem_cons_self) fun b _ => ?_
    exact total_bind (ih fun a' ha => h a' (List.mem_cons_of_mem a ha)) fun bs _ => ⟨_, follows_pure (b :: bs)⟩

theorem ends_next {N : Prop} {Q : Except ε β → σ → Prop} {a : α} (hx : Follows x (.ok a)) {s : σ} :
    Ends N Q ((x >>= f) s) ↔ Ends N Q (f a s) := by
  rw [bind_of_ok (hx s)]

section
variable {N : Prop} {Q : Except ε β → σ → Prop} {s : σ}

theorem ends_require_next {p : Prop} [Decidable p] {e : ε} {f : Unit → Action σ ε β} (hp : p → Ends N Q (f () s))
    (he : ¬ p → Q (.error e) s) : Ends N Q ((require p e >>= f) s) := by
  by_cases h : p
  · rw [require, if_pos h]
    exact hp h
  · rw [require, if_neg h]
    exact he h

theorem ends_demand_next {o : Option α} {e : ε} (ha : ∀ a, o = some a → Ends N Q (f a s))
    (he : o = none → Q (.error e) s) : Ends N Q ((demand o e >>= f) s) := by
  cases ho : o with
  | some a => exact ha a ho
  | none => exact he ho

theorem ends_total_next (hx : Total x) (hf : ∀ a, Follows x (.ok a) → Ends N Q (f a s))
    (he : ∀ e, Follows x (.error e) → Q (.error e) s) : Ends N Q ((x >>= f) s) := by
  obtain ⟨r, hr⟩ := hx
  cases r with
  | ok a => exact (ends_next hr).mpr (hf a hr)
  | error e =>
    rw [bind_of_error (hr s)]
    exact he e hr

end

theorem follows_rounds {ι : Type} {body : ι → Action σ ε (ι ⊕ α)} {i j : ι} {r : Except ε α}
    (h : Follows (body i) (.ok (.inl j))) (hr : Follows (rounds body n j) r) : Follows (rounds body (n + 1) i) r :=
  follows_next h hr

end

end Action

end BuildYourOwn.Lib
