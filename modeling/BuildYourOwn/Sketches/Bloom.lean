import BuildYourOwn.Lib.Utf8
import BuildYourOwn.Topic.Command

/-!
# `bloom`

Model of `hash64` and `Bloom` in `disttest/examples/prim/sketches.rs`. `items` is a `u64`, and panics when it overflows.

**`contains_iff`**: an item may be in a filter exactly when the items that were added have every position of it.
-/

namespace BuildYourOwn.Sketches

open Lib Topic

/-- FNV-1a over the bytes, then the finalizer of splitmix64. -/
def hash64 (seed : UInt64) (bytes : List UInt8) : UInt64 :=
  let z := bytes.foldl (fun h b => (h ^^^ b.toUInt64) * 0x100000001b3) (0xcbf29ce484222325 ^^^ seed)
  let z := (z ^^^ (z >>> 30)) * 0xbf58476d1ce4e5b9
  let z := (z ^^^ (z >>> 27)) * 0x94d049bb133111eb
  z ^^^ (z >>> 31)

structure Bloom where
  bits : List Bool
  hashes : Nat
  items : Nat

namespace Bloom

/-- What `init` leaves. A topic starts with `empty 1024 3`. -/
def empty (bits hashes : Nat) : Bloom := ⟨List.replicate bits false, hashes, 0⟩

def positions (s : Bloom) (item : String) : List Nat :=
  let m := s.bits.length.toUInt64
  if m = 0 then []
  else
    let h1 := hash64 0 (asBytes item)
    let h2 := hash64 0x9e3779b9 (asBytes item) ||| 1
    (List.range s.hashes).map fun i => ((h1 + i.toUInt64 * h2) % m).toNat

def add (s : Bloom) (item : String) : Bloom :=
  { s with bits := (s.positions item).foldl (fun bits p => bits.set p true) s.bits, items := s.items + 1 }

def maybe (s : Bloom) (item : String) : Bool := (s.positions item).all fun p => s.bits.getD p false

def step [Host] (s : Bloom) (command : String) (args : List String) : Handled Bloom :=
  match command with
  | "init" => arg s (int args 0) fun bits => arg s (int args 1) fun hashes =>
    if (1 ≤ bits ∧ bits ≤ 16777216) ∧ 1 ≤ hashes ∧ hashes ≤ 64 then
      some (empty bits.toNat hashes.toNat, .obj [("bits", .num bits), ("hashes", .num hashes)])
    else some (s, err "bits must be 1..=16777216 and hashes 1..=64")
  | "add" => arg s (word args 0) fun item =>
    if s.items + 1 < UInt64.size then some (s.add item, .obj [("ok", .bool true)]) else none
  | "contains" => arg s (word args 0) fun item => some (s, .obj [("maybe", .bool (s.maybe item))])
  | "stats" => some (s, .obj [("bits", .num s.bits.length), ("hashes", .num s.hashes),
    ("set_bits", .num (s.bits.count true)), ("items", .num s.items)])
  | other => some (s, err ("bloom: unknown command " ++ debugStr other))

/-! ## What a filter holds -/

variable {s s₀ : Bloom} {item : String} {p n k : Nat} {bits : List Bool} {ps : List Nat} {added : List String}
  {es : List (Event Bloom Line Value)}

theorem lt_of_mem_positions (h : p ∈ s.positions item) : p < s.bits.length := by
  simp only [positions] at h
  split at h
  · cases h
  · rename_i hm
    obtain ⟨i, -, rfl⟩ := List.mem_map.mp h
    rw [UInt64.toNat_mod]
    refine Nat.lt_of_lt_of_le (Nat.mod_lt _ ?_) (?_ : s.bits.length.toUInt64.toNat ≤ s.bits.length)
    · exact Nat.pos_of_ne_zero fun h0 => hm (UInt64.toNat_inj.mp h0)
    · exact Nat.le_trans (Nat.le_of_eq UInt64.toNat_ofNat') (Nat.mod_le _ _)

theorem length_foldl_set : (ps.foldl (fun bits p => bits.set p true) bits).length = bits.length := by
  induction ps generalizing bits with
  | nil => rfl
  | cons q ps ih => exact ih.trans List.length_set

theorem getD_foldl_set (h : ∀ q ∈ ps, q < bits.length) :
    (ps.foldl (fun bits p => bits.set p true) bits).getD p false = true ↔ p ∈ ps ∨ bits.getD p false = true := by
  induction ps generalizing bits with
  | nil => simp
  | cons q ps ih =>
    have hq := h q List.mem_cons_self
    rw [List.foldl_cons, ih fun r hr => by simpa using h r (List.mem_cons_of_mem _ hr), List.mem_cons]
    by_cases hpq : p = q
    · subst hpq
      simp [List.getD_eq_getElem?_getD, hq]
    · simp [List.getD_eq_getElem?_getD, List.getElem?_set_ne (Ne.symm hpq), hpq]

/-- The filter that began as `s₀`, with these items added. -/
structure Holds (s₀ : Bloom) (added : List String) (s : Bloom) : Prop where
  length : s.bits.length = s₀.bits.length
  hashes : s.hashes = s₀.hashes
  items : s.items = added.length
  bits : ∀ p, s.bits.getD p false = true ↔ ∃ x ∈ added, p ∈ s₀.positions x

theorem Holds.positions (h : Holds s₀ added s) : s.positions item = s₀.positions item := by
  unfold Bloom.positions
  rw [h.length, h.hashes]

theorem Holds.add (h : Holds s₀ added s) : Holds s₀ (added ++ [item]) (s.add item) where
  length := length_foldl_set.trans h.length
  hashes := h.hashes
  items := by simp [Bloom.add, h.items]
  bits p := by
    refine (getD_foldl_set fun q hq => lt_of_mem_positions hq).trans ?_
    rw [h.bits, h.positions]
    simp [or_comm]

/-- The item a line adds. -/
def addedBy (l : Line) : Option String := if l.command = "add" then l.args[0]? else none

theorem step_added [Host] {s' : Bloom} {l : Line} {v : Value} (hinit : l.command ≠ "init")
    (hs : onLine step s l = some (s', v)) : s' = (addedBy l).elim s s.add := by
  unfold onLine step at hs
  split at hs
  · contradiction
  · rename_i hcmd
    rw [addedBy, if_pos hcmd]
    rcases arg_eq_some.mp hs with ⟨hbad, rfl⟩ | ⟨item, hitem, hs⟩
    · cases hargs : l.args[0]? with
      | none => rfl
      | some item => simp [word, hargs] at hbad
    · split at hs <;> cases hs
      rw [word_eq_ok.mp hitem]
      rfl
  all_goals rw [addedBy, if_neg (by simp_all)]
  · rcases arg_eq_some.mp hs with ⟨-, rfl⟩ | ⟨_, -, hs⟩
    · rfl
    · exact state_eq hs
  all_goals exact state_eq hs

/-- **What `contains` says.** Nothing that was added is missed. -/
theorem contains_iff [Host] (hrun : Run (onLine step) (empty n k) es s) (hinit : ∀ e ∈ es, e.input.command ≠ "init") :
    s.items = (es.filterMap (addedBy ·.input)).length ∧ ∀ item args, ∃ maybe,
      onLine step s ⟨"contains", item :: args⟩ = some (s, .obj [("maybe", .bool maybe)]) ∧
      (maybe = true ↔ ∀ p ∈ (empty n k).positions item, ∃ x ∈ es.filterMap (addedBy ·.input),
        p ∈ (empty n k).positions x) := by
  have h : Holds (empty n k) (es.filterMap (addedBy ·.input)) s := by
    refine hrun.history_invariant (P := fun es s => Holds (empty n k) (es.filterMap (addedBy ·.input)) s)
      ⟨rfl, rfl, rfl, fun p => ?_⟩ (fun es s l s' v h hne hs => ?_) hinit
    · simp only [empty, List.getD_eq_getElem?_getD, List.getElem?_replicate]
      split <;> simp
    rw [step_added hne hs]
    cases hl : addedBy l with
    | none => simpa [hl] using h
    | some item => simpa [hl] using h.add
  refine ⟨h.items, fun item args => ⟨_, rfl, ?_⟩⟩
  simp only [maybe, List.all_eq_true, h.positions, h.bits]

theorem contains_iff_added : ∃ es s, Run (onLine (@step (hostOf []))) (empty 8 2) es s ∧
    ∃ v, @onLine Bloom (@step (hostOf [])) s ⟨"contains", ["a"]⟩ = some (s, v) ∧ v.flagAt "maybe" = some true := by
  let _ : Host := hostOf []
  have hrun : Run (onLine step) (empty 8 2) [_] _ := run_of_exec [⟨"add", ["a"]⟩] rfl
  obtain ⟨maybe, hs, hiff⟩ := (contains_iff hrun (by simp)).2 "a" []
  exact ⟨_, _, hrun, _, hs, congrArg some (hiff.mpr fun p hp => ⟨"a", List.mem_singleton.mpr rfl, hp⟩)⟩

end Bloom

end BuildYourOwn.Sketches
