import BuildYourOwn.Lib.Bitmap
import BuildYourOwn.Lin.History

/-!
# The search for a linearization

Model of `Search` (`disttest/src/lin/mod.rs`): depth first over the operations that may go
next, one key at a time. `Search` holds what the search mutates; the entries it borrows and its
budget are parameters. `states` counts up to the budget, a `u64`, so it is a natural number here.
`recurse` is the code's recursion with the depth bounded by `fuel` (`none` when it runs out), and
`tryEach` its loop over the entries, with the choice undone when the branch dies.

`Explores` says the same as a relation, without the fuel: one constructor a way through `recurse` or
an iteration of its loop. **`explores_of_recurse`**: what `recurse` returns, it explored; the
invariants of the search are then inductions over `Explores`.
-/

namespace BuildYourOwn.Lin

open Lib

/-- `Search`: the part of it that changes. -/
structure Search where
  /-- `true` while the operation is still waiting to be linearized. -/
  remaining : List Bool
  /-- The operations already linearized, as a bitmap. -/
  mask : List UInt64
  order : List Nat
  seen : List (List UInt64 × State)
  states : Nat
  exhaustedBudget : Bool
  bestAttempt : List Nat
  bestState : Option State
  knownLeft : Nat

namespace Search

def new (entries : List Entry) : Search where
  remaining := List.replicate entries.length true
  mask := List.replicate (max ((entries.length + 63) / 64) 1) 0
  order := []
  seen := []
  states := 0
  exhaustedBudget := false
  bestAttempt := []
  bestState := none
  knownLeft := (entries.filter fun e => !e.isUnknown).length

/-- `set_linearized`: mark operation `i` as linearized, or put it back. -/
def setLinearized (s : Search) (i : Nat) (linearized : Bool) : Search :=
  { s with remaining := s.remaining.set i (!linearized), mask := setBit s.mask i linearized }

/-- A node seen for the first time: remember it, and the attempt if it is the longest so far. -/
def visit (s : Search) (state : State) : Search :=
  let s := { s with seen := (s.mask, state) :: s.seen }
  if s.order.length > s.bestAttempt.length then
    { s with bestAttempt := s.order, bestState := some state }
  else s

/-- Linearize operation `i` next. -/
def place (s : Search) (i : Nat) (e : Entry) : Search :=
  let s := s.setLinearized i true
  let s := { s with order := s.order ++ [e.id] }
  { s with knownLeft := if e.isUnknown then s.knownLeft else s.knownLeft - 1 }

/-- Undo `place`. -/
def unplace (s : Search) (i : Nat) (e : Entry) : Search :=
  let s := { s with knownLeft := if e.isUnknown then s.knownLeft else s.knownLeft + 1 }
  let s := { s with order := s.order.dropLast }
  s.setLinearized i false

end Search

def waiting (entries : List Entry) (remaining : List Bool) : List Entry :=
  ((entries.zip remaining).filter (·.2)).map (·.1)

/-- The first return among the entries still waiting, `u64::MAX` when there is none. -/
def minRet (entries : List Entry) (remaining : List Bool) : UInt64 :=
  ((waiting entries remaining).map (·.retNs)).min?.getD u64Max

/-- The loop of `recurse` over the entries, given `recurse` for the branches. -/
def tryEach (recurse : Search → State → Option (Search × Bool)) (state : State) (limit : UInt64) :
    List (Entry × Nat) → Search → Option (Search × Bool)
  | [], s => some (s, false)
  | (e, i) :: rest, s =>
    if !s.remaining.getD i false then tryEach recurse state limit rest s
    else if e.callNs > limit then tryEach recurse state limit rest s
    else
      match step state e with
      | none => tryEach recurse state limit rest s
      | some next => do
        let (s, ok) ← recurse (s.place i e) next
        if ok then
          return (s, true)
        let s := s.unplace i e
        if s.exhaustedBudget then
          return (s, false)
        tryEach recurse state limit rest s

def recurse (entries : List Entry) (budget : Nat) : Nat → Search → State → Option (Search × Bool)
  | 0, _, _ => none
  | fuel + 1, s, state =>
    if s.knownLeft = 0 then some (s, true)
    else if s.states ≥ budget then some ({ s with exhaustedBudget := true }, false)
    else
      let s := { s with states := s.states + 1 }
      if (s.mask, state) ∈ s.seen then some (s, false)
      else
        tryEach (recurse entries budget fuel) state (minRet entries s.remaining) entries.zipIdx
          (s.visit state)

/-- `Search::run` on a new search. Every level of the recursion linearizes one more entry. -/
def run (entries : List Entry) (budget : Nat) : Option (Search × Bool) :=
  if entries = [] then some (Search.new entries, true)
  else recurse entries budget (entries.length + 1) (Search.new entries) none

/-! ## The fields of a changed search -/

namespace Search

variable (s : Search) (state : State) (i : Nat) (e : Entry)

@[simp] theorem visit_remaining : (s.visit state).remaining = s.remaining := by
  unfold visit; dsimp only; split <;> rfl

@[simp] theorem visit_mask : (s.visit state).mask = s.mask := by
  unfold visit; dsimp only; split <;> rfl

@[simp] theorem visit_seen : (s.visit state).seen = (s.mask, state) :: s.seen := by
  unfold visit; dsimp only; split <;> rfl

@[simp] theorem visit_knownLeft : (s.visit state).knownLeft = s.knownLeft := by
  unfold visit; dsimp only; split <;> rfl

@[simp] theorem visit_order : (s.visit state).order = s.order := by
  unfold visit; dsimp only; split <;> rfl

@[simp] theorem visit_states : (s.visit state).states = s.states := by
  unfold visit; dsimp only; split <;> rfl

@[simp] theorem visit_exhaustedBudget : (s.visit state).exhaustedBudget = s.exhaustedBudget := by
  unfold visit; dsimp only; split <;> rfl

@[simp] theorem place_remaining : (s.place i e).remaining = s.remaining.set i false := rfl

@[simp] theorem place_mask : (s.place i e).mask = setBit s.mask i true := rfl

@[simp] theorem place_knownLeft : (s.place i e).knownLeft =
    if e.isUnknown then s.knownLeft else s.knownLeft - 1 := rfl

@[simp] theorem unplace_remaining : (s.unplace i e).remaining = s.remaining.set i true := rfl

@[simp] theorem unplace_mask : (s.unplace i e).mask = setBit s.mask i false := rfl

@[simp] theorem unplace_exhaustedBudget : (s.unplace i e).exhaustedBudget = s.exhaustedBudget := rfl

@[simp] theorem unplace_knownLeft : (s.unplace i e).knownLeft =
    if e.isUnknown then s.knownLeft else s.knownLeft + 1 := rfl

end Search

/-! ## The search as a relation -/

inductive Job where
  | node
  | loop (limit : UInt64) (todo : List (Entry × Nat))

/-- `Explores job s state s' ok`: from `s`, with the key holding `state`, the search does `job` and
ends in `s'` with answer `ok`. -/
inductive Explores (entries : List Entry) (budget : Nat) :
    Job → Search → State → Search → Bool → Prop
  | settled {s : Search} {state : State} (hknown : s.knownLeft = 0) :
    Explores entries budget .node s state s true
  | starved {s : Search} {state : State} (hknown : s.knownLeft ≠ 0) (hbudget : s.states ≥ budget) :
    Explores entries budget .node s state { s with exhaustedBudget := true } false
  | seenBefore {s : Search} {state : State} (hknown : s.knownLeft ≠ 0)
      (hbudget : ¬ s.states ≥ budget) (hseen : (s.mask, state) ∈ s.seen) :
    Explores entries budget .node s state { s with states := s.states + 1 } false
  | opened {s s' : Search} {state : State} {ok : Bool} (hknown : s.knownLeft ≠ 0)
      (hbudget : ¬ s.states ≥ budget) (hseen : (s.mask, state) ∉ s.seen)
      (h : Explores entries budget (.loop (minRet entries s.remaining) entries.zipIdx)
        ({ s with states := s.states + 1 }.visit state) state s' ok) :
    Explores entries budget .node s state s' ok
  | tried {limit : UInt64} {s : Search} {state : State} :
    Explores entries budget (.loop limit []) s state s false
  | skipped {limit : UInt64} {e : Entry} {i : Nat} {rest : List (Entry × Nat)} {s s' : Search}
      {state : State} {ok : Bool}
      (hskip : s.remaining.getD i false = true → e.callNs ≤ limit → step state e = none)
      (h : Explores entries budget (.loop limit rest) s state s' ok) :
    Explores entries budget (.loop limit ((e, i) :: rest)) s state s' ok
  | found {limit : UInt64} {e : Entry} {i : Nat} {rest : List (Entry × Nat)} {s s' : Search}
      {state next : State} (hleft : s.remaining.getD i false = true) (hcall : e.callNs ≤ limit)
      (hstep : step state e = some next)
      (h : Explores entries budget .node (s.place i e) next s' true) :
    Explores entries budget (.loop limit ((e, i) :: rest)) s state s' true
  | gaveUp {limit : UInt64} {e : Entry} {i : Nat} {rest : List (Entry × Nat)} {s s₁ : Search}
      {state next : State} (hleft : s.remaining.getD i false = true) (hcall : e.callNs ≤ limit)
      (hstep : step state e = some next)
      (h : Explores entries budget .node (s.place i e) next s₁ false)
      (hexh : s₁.exhaustedBudget = true) :
    Explores entries budget (.loop limit ((e, i) :: rest)) s state (s₁.unplace i e) false
  | failed {limit : UInt64} {e : Entry} {i : Nat} {rest : List (Entry × Nat)} {s s₁ s' : Search}
      {state next : State} {ok : Bool} (hleft : s.remaining.getD i false = true)
      (hcall : e.callNs ≤ limit) (hstep : step state e = some next)
      (h : Explores entries budget .node (s.place i e) next s₁ false)
      (hexh : s₁.exhaustedBudget = false)
      (hrest : Explores entries budget (.loop limit rest) (s₁.unplace i e) state s' ok) :
    Explores entries budget (.loop limit ((e, i) :: rest)) s state s' ok

variable {entries : List Entry} {budget : Nat}

/-- One iteration of the loop, for any `recurse` that explores. -/
theorem explores_of_tryEach {rec : Search → State → Option (Search × Bool)}
    (hrec : ∀ s state s' ok, rec s state = some (s', ok) →
      Explores entries budget .node s state s' ok)
    {state : State} {limit : UInt64} {todo : List (Entry × Nat)} {s s' : Search} {ok : Bool}
    (h : tryEach rec state limit todo s = some (s', ok)) :
    Explores entries budget (.loop limit todo) s state s' ok := by
  induction todo generalizing s with
  | nil =>
    obtain ⟨rfl, rfl⟩ : s = s' ∧ false = ok := by simpa [tryEach] using h
    exact .tried
  | cons p rest ih =>
    obtain ⟨e, i⟩ := p
    unfold tryEach at h
    split at h
    · rename_i hplaced
      refine .skipped (fun hleft => ?_) (ih h)
      rw [hleft] at hplaced
      cases hplaced
    rename_i hleft
    have hleft' : s.remaining.getD i false = true := by simpa using hleft
    split at h
    · rename_i hlate
      exact .skipped (fun _ hcall => absurd hcall (UInt64.not_le.mpr hlate)) (ih h)
    rename_i hcall
    have hcall' : e.callNs ≤ limit := UInt64.not_lt.mp hcall
    split at h
    · rename_i hstep
      exact .skipped (fun _ _ => hstep) (ih h)
    rename_i next hstep
    obtain ⟨⟨s₁, ok₁⟩, hnode, h⟩ := Option.bind_eq_some_iff.mp h
    have hexplored := hrec _ _ _ _ hnode
    cases ok₁ with
    | true =>
      obtain ⟨rfl, rfl⟩ : s₁ = s' ∧ true = ok := by simpa using h
      exact .found hleft' hcall' hstep hexplored
    | false =>
      cases hexh : s₁.exhaustedBudget with
      | true =>
        obtain ⟨rfl, rfl⟩ : s₁.unplace i e = s' ∧ false = ok := by simpa [hexh] using h
        exact .gaveUp hleft' hcall' hstep hexplored hexh
      | false => exact .failed hleft' hcall' hstep hexplored hexh (ih (by simpa [hexh] using h))

/-- **What `recurse` returns, it explored.** -/
theorem explores_of_recurse {fuel : Nat} {s s' : Search} {state : State} {ok : Bool}
    (h : recurse entries budget fuel s state = some (s', ok)) : Explores entries budget .node s state s' ok := by
  induction fuel generalizing s state s' ok with
  | zero => simp [recurse] at h
  | succ fuel ih =>
    unfold recurse at h
    split at h
    · rename_i hknown
      obtain ⟨rfl, rfl⟩ : s = s' ∧ true = ok := by simpa using h
      exact .settled hknown
    rename_i hknown
    split at h
    · rename_i hbudget
      obtain ⟨rfl, rfl⟩ : { s with exhaustedBudget := true } = s' ∧ false = ok := by simpa using h
      exact .starved hknown hbudget
    rename_i hbudget
    dsimp only at h
    split at h
    · rename_i hseen
      obtain ⟨rfl, rfl⟩ : { s with states := s.states + 1 } = s' ∧ false = ok := by simpa using h
      exact .seenBefore hknown hbudget hseen
    · rename_i hseen
      exact .opened hknown hbudget hseen
        (explores_of_tryEach (fun _ _ _ _ hnode => ih hnode) h)

end BuildYourOwn.Lin
