import BuildYourOwn.Lib.Linearization

/-!
# Histories of a key/value store

Model of the data of the linearizability checker (`disttest/src/lin/mod.rs`): what a client
asked (`Op`), what it saw (`Outcome`), the recorded `Entry` with its call and return instants, the
`History`, and `step`, the model of one key that the search replays. Instants are the code's `u64`
nanoseconds, values its byte vectors. The texts a report prints are not modelled.

`Op.apply` is the sequential store the checker is about: the next value of a key and the answer.
-/

namespace BuildYourOwn.Lin

open Lib

/-- What a client asked for. -/
inductive Op where
  | read
  | write (v : List UInt8)
  | delete
  /-- Set the key to `new` only if it currently holds `expect` (`none`: it does not exist). -/
  | cas (expect : Option (List UInt8)) (new : List UInt8)
  deriving DecidableEq, Repr

/-- What the client saw. -/
inductive Outcome where
  | value (v : Option (List UInt8))
  | ok
  | swapped (held : Bool)
  /-- No answer ever came back. -/
  | unknown
  deriving DecidableEq, Repr

/-- `u64::MAX`, the return instant of an operation with no answer. -/
def u64Max : UInt64 := 0xFFFFFFFFFFFFFFFF

theorem le_u64Max (t : UInt64) : t ≤ u64Max := by
  rw [UInt64.le_iff_toNat_le]
  exact Nat.le_of_lt_succ t.toNat_lt

/-- One operation of a recorded history. -/
structure Entry where
  id : Nat
  client : Nat
  key : String
  op : Op
  outcome : Outcome
  callNs : UInt64
  retNs : UInt64
  note : String
  deriving DecidableEq, Repr

def Entry.isUnknown (e : Entry) : Bool := e.outcome = .unknown

structure History where
  entries : List Entry
  deriving Repr

namespace History

/-- `History::push`: add an operation, numbering it. -/
def push (h : History) (e : Entry) : History :=
  ⟨h.entries ++ [{ e with id := h.entries.length }]⟩

def forKey (h : History) (key : String) : List Entry := h.entries.filter fun e => e.key = key

/-- `History::keys`: every key in first-seen order. The code's set `seen` holds what `out` does. -/
def keys (h : History) : List String :=
  h.entries.foldl (fun out e => if e.key ∈ out then out else out ++ [e.key]) []

end History

def Recorder.entry (client : Nat) (key : String) (op : Op) (outcome : Outcome)
    (callNs retNs : UInt64) (note : String) : Entry where
  id := 0
  client := client
  key := key
  op := op
  outcome := outcome
  callNs := callNs
  retNs := if outcome = .unknown then u64Max else retNs
  note := note

abbrev State := Option (List UInt8)

/-- `step`: apply one operation to the model, or refuse it. -/
def step (state : State) (e : Entry) : Option State :=
  match e.op, e.outcome with
  | .read, .value v => if state = v then some state else none
  | .read, .unknown => some state
  | .write v, .ok | .write v, .unknown => some (some v)
  | .delete, .ok | .delete, .unknown => some none
  | .cas expect new, .swapped true => if state = expect then some (some new) else none
  | .cas expect _, .swapped false => if state ≠ expect then some state else none
  | .cas expect new, .unknown => some (if state = expect then some new else state)
  -- a shape the workload never produces
  | _, _ => none

/-! ## The sequential store -/

/-- What a sequential store does to a key that holds `state`, and what it answers. -/
def Op.apply (state : State) : Op → State × Outcome
  | .read => (state, .value state)
  | .write v => (some v, .ok)
  | .delete => (none, .ok)
  | .cas expect new =>
    if state = expect then (some new, .swapped true) else (state, .swapped false)

/-- **`step` is the store, checked against the recorded outcome.** -/
theorem step_eq_some_iff {state next : State} {e : Entry} : step state e = some next ↔ (e.op.apply state).1 = next ∧
      (e.outcome = .unknown ∨ e.outcome = (e.op.apply state).2) := by
  unfold step
  cases hop : e.op with
  | read =>
    cases hout : e.outcome with
    | value v => by_cases hv : state = v <;> simp [Op.apply, hv, eq_comm]
    | _ => simp [Op.apply]
  | write v => cases hout : e.outcome <;> simp [Op.apply]
  | delete => cases hout : e.outcome <;> simp [Op.apply]
  | cas expect new =>
    cases hout : e.outcome with
    | swapped held => cases held <;> by_cases hst : state = expect <;> simp [Op.apply, hst]
    | unknown => by_cases hst : state = expect <;> simp [Op.apply, hst]
    | _ => by_cases hst : state = expect <;> simp [Op.apply, hst]

def register : Object Entry State Nat where
  call e := e.callNs.toNat
  ret e := e.retNs.toNat
  optional e := e.outcome = .unknown
  step := step

/-- The whole store: a map from keys to values that answers as recorded. -/
def store : Object Entry (String → State) Nat where
  call e := e.callNs.toNat
  ret e := e.retNs.toNat
  optional e := e.outcome = .unknown
  step σ e :=
    let (value, answer) := e.op.apply (σ e.key)
    if e.outcome = .unknown ∨ e.outcome = answer then some (Function.update σ e.key value)
    else none

theorem store_eq_perKey : store = register.perKey Entry.key := by
  have hstep : store.step = (register.perKey Entry.key).step := by
    funext σ e
    change (if e.outcome = .unknown ∨ e.outcome = (e.op.apply (σ e.key)).2
      then some (Function.update σ e.key (e.op.apply (σ e.key)).1) else none) =
      (step (σ e.key) e).map fun s => Function.update σ e.key s
    split
    · rename_i hout
      rw [step_eq_some_iff.mpr ⟨rfl, hout⟩]
      rfl
    · rename_i hout
      cases hs : step (σ e.key) e with
      | none => rfl
      | some next => exact absurd (step_eq_some_iff.mp hs).2 hout
  exact congrArg (fun f => Object.mk store.call store.ret store.optional f) hstep

/-! ## What the recorder guarantees -/

structure Entry.WellTimed (e : Entry) : Prop where
  window : e.callNs ≤ e.retNs
  never : e.retNs = u64Max ↔ e.outcome = .unknown

instance (e : Entry) : Decidable e.WellTimed :=
  decidable_of_iff (e.callNs ≤ e.retNs ∧ (e.retNs = u64Max ↔ e.outcome = .unknown))
    ⟨fun h => ⟨h.1, h.2⟩, fun h => ⟨h.window, h.never⟩⟩

theorem Recorder.entry_wellTimed {client : Nat} {key : String} {op : Op} {outcome : Outcome}
    {callNs retNs : UInt64} {note : String} (hwindow : callNs ≤ retNs) (hret : retNs < u64Max) :
    (Recorder.entry client key op outcome callNs retNs note).WellTimed := by
  by_cases hout : outcome = .unknown
  · have hret' : (Recorder.entry client key op outcome callNs retNs note).retNs = u64Max :=
      if_pos hout
    refine ⟨?_, iff_of_true hret' hout⟩
    rw [hret']
    exact le_u64Max _
  · have hret' : (Recorder.entry client key op outcome callNs retNs note).retNs = retNs :=
      if_neg hout
    refine ⟨?_, iff_of_false (fun h => ?_) hout⟩
    · rw [hret']
      exact hwindow
    · rw [hret'] at h
      exact absurd (h ▸ hret) (UInt64.lt_irrefl _)

def History.WellTimed (h : History) : Prop := ∀ e ∈ h.entries, e.WellTimed

instance (h : History) : Decidable h.WellTimed :=
  inferInstanceAs (Decidable (∀ e ∈ h.entries, e.WellTimed))

theorem wellTimed_register {entries : List Entry} (h : ∀ e ∈ entries, e.WellTimed) : register.WellTimed entries := by
  refine ⟨fun e he => UInt64.le_iff_toNat_le.mp (h e he).window, fun e he hopt e' _ => ?_⟩
  have hret : e.retNs = u64Max := (h e he).never.mpr hopt
  change e'.callNs.toNat ≤ e.retNs.toNat
  rw [hret]
  exact UInt64.le_iff_toNat_le.mp (le_u64Max _)

theorem History.mem_keys {h : History} {key : String} : key ∈ h.keys ↔ ∃ e ∈ h.entries, e.key = key := by
  unfold History.keys
  have hfold : ∀ (es : List Entry) (out : List String),
      key ∈ es.foldl (fun out e => if e.key ∈ out then out else out ++ [e.key]) out ↔
        key ∈ out ∨ ∃ e ∈ es, e.key = key := by
    intro es
    induction es with
    | nil => simp
    | cons e es ih =>
      intro out
      rw [List.foldl_cons, ih]
      have hout : key ∈ (if e.key ∈ out then out else out ++ [e.key]) ↔
          key ∈ out ∨ e.key = key := by
        split
        · rename_i he
          exact ⟨.inl, fun h => h.elim id fun h => h ▸ he⟩
        · rw [List.mem_append, List.mem_singleton, eq_comm]
      rw [hout, or_assoc]
      simp
  rw [hfold]
  simp

theorem History.forKey_eq_nil {h : History} {key : String} (hk : key ∉ h.keys) : h.forKey key = [] :=
  List.filter_eq_nil_iff.mpr fun e he => by
    have hne : e.key ≠ key := fun heq => hk (History.mem_keys.mpr ⟨e, he, heq⟩)
    simpa using hne

end BuildYourOwn.Lin
