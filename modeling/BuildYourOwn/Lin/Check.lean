import BuildYourOwn.Lin.Search
import Mathlib.Data.List.Sort

/-!
# The verdict on a history

Model of `check_with_budget`, `check_one_key` and `prefix_at` (`disttest/src/lin/mod.rs`): one
search a key, and for a key without a linearization the bisection that picks the operation to
blame. `none` stands for an index out of range or for a loop out of fuel; neither happens
(`checkKeys_spec`). The vectors are sorted by insertion, which is stable as the code's
sort is.
-/

namespace BuildYourOwn.Lin

/-- `Violation`: the evidence behind a rejection. -/
structure Violation where
  key : String
  entries : List Entry
  culprit : Entry
  bestAttempt : List Nat
  bestState : State
  states : Nat
  deriving DecidableEq, Repr

/-- What the checker concluded. -/
inductive Verdict where
  | linearizable
  | notLinearizable (violation : Violation)
  /-- The search ran out of budget before it could decide. -/
  | inconclusive (key : String) (states : Nat)
  deriving DecidableEq, Repr

/-- `Verdict::ok`: an inconclusive search is not a failure. -/
def Verdict.ok : Verdict → Bool
  | .notLinearizable _ => false
  | _ => true

def defaultBudget : Nat := 400000

/-- What a client did not know at `t`: an answer that came later. -/
def Entry.at (t : UInt64) (e : Entry) : Entry :=
  if e.retNs > t then { e with outcome := .unknown, retNs := u64Max } else e

/-- `prefix_at`: the operations called by `t`, as recorded and as they stood at `t`. -/
def prefixAt (entries : List Entry) (t : UInt64) : List Entry × List Entry :=
  let shown := entries.filter fun e => e.callNs ≤ t
  (shown, shown.map (Entry.at t))

/-- The order of `(u64, usize)`. -/
def returnLe (a b : UInt64 × Nat) : Prop := a.1 < b.1 ∨ a.1 = b.1 ∧ a.2 ≤ b.2

instance : DecidableRel returnLe := fun a b =>
  inferInstanceAs (Decidable (a.1 < b.1 ∨ a.1 = b.1 ∧ a.2 ≤ b.2))

/-- The order of the keys `(ret_ns, call_ns, id)`. -/
def entryLe (a b : Entry) : Prop :=
  a.retNs < b.retNs ∨ a.retNs = b.retNs ∧
    (a.callNs < b.callNs ∨ a.callNs = b.callNs ∧ a.id ≤ b.id)

instance : DecidableRel entryLe := fun a b =>
  inferInstanceAs (Decidable (a.retNs < b.retNs ∨ a.retNs = b.retNs ∧
    (a.callNs < b.callNs ∨ a.callNs = b.callNs ∧ a.id ≤ b.id)))

/-- The return instants of the answered operations, each with the operation's index, in order. -/
def returns (entries : List Entry) : List (UInt64 × Nat) :=
  ((entries.zipIdx.filter fun p => !p.1.isUnknown).map fun p => (p.1.retNs, p.2)).insertionSort
    returnLe

structure Best where
  culprit : Nat
  shown : List Entry
  bestAttempt : List Nat
  bestState : State

/-- The bisection of `check_one_key` for the first return instant that is already too late. -/
def bisect (entries : List Entry) (budget : Nat) (returns : List (UInt64 × Nat)) :
    Nat → Nat → Nat → Option Best → Option (Option Best)
  | 0, _, _, _ => none
  | fuel + 1, lo, hi, best =>
    if lo < hi then do
      let mid := lo + (hi - lo) / 2
      let (t, culprit) ← returns[mid]?
      let (shown, searched) := prefixAt entries t
      let (s, ok) ← run searched budget
      if !ok && !s.exhaustedBudget then
        bisect entries budget returns fuel lo mid
          (some ⟨culprit, shown, s.bestAttempt, s.bestState.join⟩)
      else bisect entries budget returns fuel (mid + 1) hi best
    else some best

def checkOneKey (key : String) (entries : List Entry) (budget : Nat) : Option Verdict := do
  let (search, ok) ← run entries budget
  if ok then
    return .linearizable
  if search.exhaustedBudget then
    return .inconclusive key search.states
  let rs := returns entries
  match ← bisect entries budget rs (rs.length + 1) 0 rs.length none with
  | some best =>
    let culprit ← entries[best.culprit]?
    return .notLinearizable ⟨key, best.shown, culprit, best.bestAttempt, best.bestState,
      search.states⟩
  -- no prefix could be decided within the budget: report the whole thing
  | none =>
    let byReturn := entries.insertionSort entryLe
    let culprit ← byReturn.getLast? <|> entries[0]?
    return .notLinearizable ⟨key, byReturn, culprit, search.bestAttempt, search.bestState.join,
      search.states⟩

/-- The loop of `check_with_budget` over the keys: the first undecided key is kept, the first broken
one is reported at once. -/
def checkKeys (h : History) (budget : Nat) : List String → Option Verdict → Option Verdict
  | [], undecided => some (undecided.getD .linearizable)
  | key :: keys, undecided => do
    match ← checkOneKey key (h.forKey key) budget with
    | .linearizable => checkKeys h budget keys undecided
    | .inconclusive k states =>
      checkKeys h budget keys (some (undecided.getD (.inconclusive k states)))
    | .notLinearizable violation => return .notLinearizable violation

def checkWithBudget (h : History) (budget : Nat) : Option Verdict :=
  checkKeys h budget h.keys none

def check (h : History) : Option Verdict := checkWithBudget h defaultBudget

end BuildYourOwn.Lin
