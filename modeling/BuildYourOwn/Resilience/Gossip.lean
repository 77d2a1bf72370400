import Mathlib.Algebra.BigOperators.Intervals
import Mathlib.Data.Nat.ModEq
import BuildYourOwn.Lib.Folds
import BuildYourOwn.Topic.Command
import BuildYourOwn.Topic.Map

/-!
# `gossip`: a deterministic dissemination schedule, so rounds and messages are exact

Model of `pow_mod` and `Gossip` in `disttest/examples/alg/resilience.rs`. In a round every infected node `i`
contacts the nodes `i + step * k` for `k` from 1 to the fanout, where the step is a power of `fanout + 1`
modulo the number of nodes.

The round number is a `u32`; nodes, targets and messages are `usize` or `u64`. All of them panic when they
overflow.
-/

namespace BuildYourOwn.Resilience

open Lib Topic

/-- A `u64`, or a `usize`: `none` is the overflow panic. -/
def checkU64 (n : Nat) : Option Nat := if n < UInt64.size then some n else none

/-- A `u32`. -/
def checkU32 (n : Nat) : Option Nat := if n < UInt32.size then some n else none

theorem checkU64_eq_some {n m : Nat} : checkU64 n = some m ↔ n < UInt64.size ∧ m = n := by
  unfold checkU64
  split
  · rename_i h
    simp [h, eq_comm]
  · rename_i h
    simp [h]

theorem checkU32_eq_some {n m : Nat} : checkU32 n = some m ↔ n < UInt32.size ∧ m = n := by
  unfold checkU32
  split
  · rename_i h
    simp [h, eq_comm]
  · rename_i h
    simp [h]

/-- `result * b % m`. -/
def mulMod (m result b : Nat) : Option Nat := (checkU64 (result * b)).map (· % m)

/-- The loop of `pow_mod`. -/
def powLoop (m result b e : Nat) : Option Nat :=
  if 0 < e then do
    let result ← if e % 2 = 1 then mulMod m result b else some result
    let b ← mulMod m b b
    powLoop m result b (e / 2)
  else some result

/-- `pow_mod`: `base ^ exp mod m`. -/
def powMod (base exp m : Nat) : Option Nat :=
  if m = 0 then some 0 else powLoop m (1 % m) (base % m) exp

/-- `Gossip`: a rumour spreading over `nodes` nodes with a fixed fanout. -/
structure Gossip where
  nodes : Nat
  fanout : Nat
  round : Nat
  infected : IndexSet
  messages : Nat

namespace Gossip

/-- `Gossip::default`, the state a topic starts in. -/
def default : Gossip where
  nodes := 0
  fanout := 0
  round := 0
  infected := ∅
  messages := 0

/-- What a successful `init` leaves. -/
def started (nodes fanout : Nat) : Gossip where
  nodes := nodes
  fanout := fanout
  round := 0
  infected := Std.ExtTreeSet.ofList [0]
  messages := 0

/-- Node `i` contacts its `k`-th target. -/
def contact (s : Gossip) (step i k : Nat) : Option Gossip := do
  let product ← checkU64 (step * k)
  let sum ← checkU64 (i + product)
  let messages ← checkU64 (s.messages + 1)
  return { s with messages := messages, infected := s.infected.insert (sum % s.nodes) }

/-- The loops of `one_round`, over the senders and over `1 ..= fanout`. -/
def contactAll (s : Gossip) (step : Nat) (senders : List Nat) : Option Gossip :=
  senders.foldlM (fun t i => (List.range s.fanout).foldlM (fun t k => t.contact step i (k + 1)) t) s

/-- `one_round`: how many nodes it newly infected. -/
def oneRound (s : Gossip) : Option (Gossip × Nat) :=
  if s.nodes = 0 then some (s, 0)
  else do
    let round ← checkU32 (s.round + 1)
    let base ← checkU64 (s.fanout + 1)
    let step ← powMod base (round - 1) s.nodes
    let s' ← contactAll { s with round := round } step s.infected.toList
    return (s', s'.infected.size - s.infected.size)

variable {s s' : Gossip}

theorem contact_nodes {step i k : Nat} (h : s.contact step i k = some s') : s'.nodes = s.nodes := by
  obtain ⟨product, -, h⟩ := Option.bind_eq_some_iff.mp h
  obtain ⟨sum, -, h⟩ := Option.bind_eq_some_iff.mp h
  obtain ⟨messages, -, h⟩ := Option.bind_eq_some_iff.mp h
  cases h
  rfl

theorem contactAll_nodes {step : Nat} {senders : List Nat}
    (h : s.contactAll step senders = some s') : s'.nodes = s.nodes := by
  refine foldlM_keeps (P := fun t => t.nodes = s.nodes) (fun t i t' ht h => ?_) rfl h
  exact foldlM_keeps (P := fun t => t.nodes = s.nodes) (fun _ _ _ ht h => (contact_nodes h).trans ht) ht h

theorem oneRound_new {new : Nat} (h : s.oneRound = some (s', new)) :
    s'.nodes = s.nodes ∧ new = s'.infected.size - s.infected.size := by
  unfold oneRound at h
  split at h
  · cases h
    exact ⟨rfl, (Nat.sub_self _).symm⟩
  · obtain ⟨round, -, h⟩ := Option.bind_eq_some_iff.mp h
    obtain ⟨base, -, h⟩ := Option.bind_eq_some_iff.mp h
    obtain ⟨step, -, h⟩ := Option.bind_eq_some_iff.mp h
    obtain ⟨s₁, hs₁, h⟩ := Option.bind_eq_some_iff.mp h
    cases h
    have hnodes := contactAll_nodes hs₁
    exact ⟨hnodes, rfl⟩

/-- The loop of `converge`: a round that infects no one ends it too. -/
def converge (s : Gossip) : Option Gossip :=
  if s.infected.size < s.nodes then
    match _h : s.oneRound with
    | none => none
    | some (s', new) => if new = 0 then some s' else s'.converge
  else some s
termination_by s.nodes - s.infected.size
decreasing_by
  have hnew := oneRound_new _h
  omega

/-! ## The commands -/

def report (s : Gossip) (new : Nat) : Value :=
  .obj [("round", .num s.round), ("infected", .num s.infected.size), ("new", .num new),
    ("messages", .num s.messages)]

/-- The answer to `converge`. -/
def converged (s : Gossip) : Value :=
  .obj [("rounds", .num s.round), ("messages", .num s.messages), ("infected", .num s.infected.size)]

def infectedNodes (s : Gossip) : Value := .arr (s.infected.toList.map fun i => .num i)

def state (s : Gossip) : Value :=
  .obj [("nodes", .num s.nodes), ("fanout", .num s.fanout), ("round", .num s.round),
    ("infected", s.infectedNodes), ("messages", .num s.messages)]

def init (s : Gossip) (nodes fanout : Nat) : Gossip × Value :=
  if nodes = 0 then (s, err "a gossip run needs at least one node")
  else
    (started nodes fanout, .obj [("nodes", .num nodes), ("fanout", .num fanout), ("infected", .num 1),
      ("round", .num 0)])

def step [Host] (s : Gossip) (command : String) (args : List String) : Handled Gossip :=
  match command with
  | "init" => arg s (uint args 0) fun nodes => arg s (uint args 1) fun fanout => some (s.init nodes fanout)
  | "round" => s.oneRound.map fun r => (r.1, r.1.report r.2)
  | "converge" => s.converge.map fun s' => (s', s'.converged)
  | "infected" => some (s, .obj [("nodes", s.infectedNodes), ("count", .num s.infected.size)])
  | "state" => some (s, s.state)
  | other => some (s, err ("unknown command " ++ debugStr other))

end Gossip

end BuildYourOwn.Resilience

/-!
## Gossip reaches everyone in logarithmic rounds

After `r` rounds the first `(fanout + 1) ^ r` nodes are infected, or all of them. A round that does not wrap
contacts every node from there to `fanout + 1` times as far, each as `i + step * k` in one way; one that wraps
contacts all the rest (`covered_iff`).

* `powMod_eq`: square-and-multiply, as long as the modulus is a `u32`.
* `oneRound_eq`, `oneRound_total`: a round, and that it overflows nowhere.
* **`gossip_converges`**: the state after any number of rounds, and that `converge` stops after the least number
  that reaches everyone.
-/

namespace BuildYourOwn.Resilience

open Lib Topic

/-! ## Square and multiply -/

theorem mulMod_eq {m r b : Nat} (hm : m ≤ UInt32.size) (hr : r < m) (hb : b < m) : mulMod m r b = some (r * b % m) := by
  have hprod : r * b < UInt64.size := Nat.lt_of_lt_of_le
    (Nat.mul_lt_mul_of_lt_of_le (Nat.lt_of_lt_of_le hr hm) (Nat.le_of_lt (Nat.lt_of_lt_of_le hb hm)) (by decide))
    (by decide)
  unfold mulMod
  rw [checkU64_eq_some.mpr ⟨hprod, rfl⟩]
  rfl

theorem powLoop_eq {m r b : Nat} (e : Nat) (hm : m ≤ UInt32.size) (hr : r < m) (hb : b < m) :
    powLoop m r b e = some (r * b ^ e % m) := by
  induction e using Nat.strongRecOn generalizing r b with
  | _ e ih =>
  rw [powLoop]
  have hpos : 0 < m := Nat.lt_of_le_of_lt (Nat.zero_le r) hr
  by_cases he : 0 < e
  · -- the square stands for two of the factors that are left
    have hsquare (r : Nat) : r * (b * b % m) ^ (e / 2) % m = r * b ^ (2 * (e / 2)) % m := by
      have hmod := ((Nat.mod_modEq (b * b) m).pow (e / 2)).mul_left r
      rw [← Nat.pow_two, ← Nat.pow_mul] at hmod
      rwa [← Nat.pow_two]
    have hb' := Nat.mod_lt (b * b) hpos
    have hhalf : e / 2 < e := Nat.div_lt_self he (by decide)
    rw [if_pos he, mulMod_eq hm hb hb]
    by_cases hodd : e % 2 = 1
    · rw [if_pos hodd, mulMod_eq hm hr hb]
      refine (ih _ hhalf (Nat.mod_lt _ hpos) hb').trans (congrArg some ?_)
      have hsplit : b ^ e = b * b ^ (2 * (e / 2)) := by
        rw [← Nat.pow_succ']
        congr 1
        omega
      rw [hsquare, hsplit, ← Nat.mul_assoc]
      exact (Nat.mod_modEq (r * b) m).mul_right _
    · rw [if_neg hodd]
      refine (ih _ hhalf hr hb').trans (congrArg some ?_)
      rw [hsquare]
      congr 3
      omega
  · obtain rfl : e = 0 := Nat.eq_zero_of_not_pos he
    rw [if_neg he, Nat.pow_zero, Nat.mul_one, Nat.mod_eq_of_lt hr]

/-- **`pow_mod`** is the power, modulo what a `u32` holds. -/
theorem powMod_eq {m : Nat} (base exp : Nat) (hm : 1 ≤ m) (hm' : m ≤ UInt32.size) :
    powMod base exp m = some (base ^ exp % m) := by
  unfold powMod
  rw [if_neg (Nat.ne_of_gt hm), powLoop_eq exp hm' (Nat.mod_lt 1 hm) (Nat.mod_lt base hm)]
  refine congrArg some ?_
  have hone := (Nat.mod_modEq 1 m).mul ((Nat.mod_modEq base m).pow exp)
  rwa [Nat.one_mul] at hone

namespace Gossip

variable {s s' : Gossip} {n f r k stride new : Nat}

/-! ## What a round contacts -/

def spread (s : Gossip) (targets : List Nat) : Gossip :=
  { s with
    messages := s.messages + targets.length
    infected := targets.foldl (fun t c => t.insert (c % s.nodes)) s.infected }

def contacts (fanout : Nat) (senders : List Nat) : List (Nat × Nat) :=
  senders.flatMap fun i => (List.range fanout).map fun k => (i, k + 1)

def target (stride : Nat) (p : Nat × Nat) : Nat := p.1 + stride * p.2

variable {senders : List Nat}

theorem mem_contacts {fanout : Nat} {p : Nat × Nat} :
    p ∈ contacts fanout senders ↔ p.1 ∈ senders ∧ 1 ≤ p.2 ∧ p.2 ≤ fanout := by
  unfold contacts
  simp only [List.mem_flatMap, List.mem_map, List.mem_range]
  constructor
  · rintro ⟨i, hi, k, hk, rfl⟩
    exact ⟨hi, Nat.succ_pos k, hk⟩
  · rintro ⟨hi, hpos, hle⟩
    exact ⟨p.1, hi, p.2 - 1, by omega, Prod.ext rfl (Nat.sub_add_cancel hpos)⟩

theorem length_contacts (fanout : Nat) (senders : List Nat) :
    (contacts fanout senders).length = fanout * senders.length := by
  unfold contacts
  induction senders with
  | nil => rfl
  | cons i senders ih =>
    rw [List.flatMap_cons, List.length_append, ih, List.length_map, List.length_range, List.length_cons,
      Nat.mul_succ, Nat.add_comm]

theorem mem_foldl_insert {x : Nat} (cs : List Nat) (t : IndexSet) :
    x ∈ cs.foldl (fun t c => t.insert (c % n)) t ↔ x ∈ t ∨ ∃ c ∈ cs, c % n = x := by
  induction cs generalizing t with
  | nil => simp
  | cons c cs ih =>
    rw [List.foldl_cons, ih, IndexSet.mem_insert, List.exists_mem_cons_iff, eq_comm (a := x), or_assoc,
      or_left_comm]

theorem foldl_spread (ps : List (Nat × Nat)) (s : Gossip) :
    ps.foldl (fun t p => t.spread [target stride p]) s = s.spread (ps.map (target stride)) := by
  induction ps generalizing s with
  | nil => rfl
  | cons p ps ih =>
    rw [List.foldl_cons, ih]
    unfold spread
    simp only [List.map_cons, List.foldl_cons, List.foldl_nil, List.length_cons, List.length_nil,
      Nat.zero_add, Nat.add_assoc, Nat.add_comm]

theorem contactAll_eq (s : Gossip) (stride : Nat) (senders : List Nat) : s.contactAll stride senders =
    (contacts s.fanout senders).foldlM (fun t p => t.contact stride p.1 p.2) s := by
  unfold contactAll contacts
  rw [foldlM_flatMap]
  simp only [List.foldlM_map]

theorem contact_spread {i : Nat} (h : s.contact stride i k = some s') : s' = s.spread [target stride (i, k)] := by
  obtain ⟨product, hproduct, h⟩ := Option.bind_eq_some_iff.mp h
  obtain ⟨sum, hsum, h⟩ := Option.bind_eq_some_iff.mp h
  obtain ⟨messages, hmessages, h⟩ := Option.bind_eq_some_iff.mp h
  obtain ⟨-, rfl⟩ := checkU64_eq_some.mp hproduct
  obtain ⟨-, rfl⟩ := checkU64_eq_some.mp hsum
  obtain ⟨-, rfl⟩ := checkU64_eq_some.mp hmessages
  exact (Option.some.inj h).symm

theorem contact_total {i : Nat} (htarget : target stride (i, k) < UInt64.size)
    (hmessages : s.messages + 1 < UInt64.size) : ∃ s', s.contact stride i k = some s' := by
  have hle : stride * k ≤ i + stride * k := Nat.le_add_left _ _
  unfold contact
  rw [checkU64_eq_some.mpr ⟨Nat.lt_of_le_of_lt hle htarget, rfl⟩]
  refine ⟨s.spread [target stride (i, k)], ?_⟩
  show (checkU64 (i + stride * k)).bind _ = _
  rw [checkU64_eq_some.mpr ⟨(show i + stride * k < UInt64.size from htarget), rfl⟩]
  show (checkU64 (s.messages + 1)).bind _ = _
  rw [checkU64_eq_some.mpr ⟨hmessages, rfl⟩]
  rfl

theorem contactAll_spread (h : s.contactAll stride senders = some s') :
    s' = s.spread ((contacts s.fanout senders).map (target stride)) := by
  rw [contactAll_eq] at h
  rw [← foldl_spread]
  exact foldlM_eq_foldl (fun _ _ _ => contact_spread) h

theorem contactAll_total (htarget : ∀ p ∈ contacts s.fanout senders, target stride p < UInt64.size)
    (hmessages : s.messages + s.fanout * senders.length < UInt64.size) :
    ∃ s', s.contactAll stride senders = some s' := by
  rw [contactAll_eq]
  refine foldlM_total (fun left t => t.messages + left < UInt64.size) (fun t left p hp hok => ?_) ?_
  · obtain ⟨t', ht'⟩ := contact_total (s := t) (htarget p hp) (by omega)
    refine ⟨t', ht', ?_⟩
    rw [contact_spread ht']
    show t.messages + 1 + left < UInt64.size
    omega
  · rwa [length_contacts]

/-! ## A round -/

/-- How many nodes are infected after `r` rounds. -/
def reached (n f r : Nat) : Nat := min n ((f + 1) ^ r)

/-- How many messages `r` rounds send. -/
def sent (n f r : Nat) : Nat := f * ∑ j ∈ Finset.range r, reached n f j

/-- The nodes below `k`. -/
def upTo (k : Nat) : IndexSet := Std.ExtTreeSet.ofList (List.range k)

/-- The state after `r` rounds. -/
def after (n f r : Nat) : Gossip where
  nodes := n
  fanout := f
  round := r
  infected := upTo (reached n f r)
  messages := sent n f r

theorem mem_upTo {x : Nat} : x ∈ upTo k ↔ x < k := by
  unfold upTo
  rw [IndexSet.mem_ofList, List.mem_range]

theorem size_upTo (k : Nat) : (upTo k).size = k := by
  unfold upTo
  rw [Std.ExtTreeSet.size_ofList, List.length_range]
  exact List.nodup_range.imp fun hne heq => hne (Std.compare_eq_iff_eq.mp heq)

theorem started_eq (hn : 1 ≤ n) : started n f = after n f 0 := by
  have hone : reached n f 0 = 1 := Nat.min_eq_right hn
  unfold after
  rw [hone]
  rfl

theorem sent_succ (n f r : Nat) : sent n f (r + 1) = sent n f r + f * reached n f r := by
  unfold sent
  rw [Finset.sum_range_succ, Nat.mul_add]

/-- **What a round covers**: the infected nodes and their targets are the nodes up to `fanout + 1` times as
far. -/
theorem covered_iff {m x : Nat} (hn : 1 ≤ n) (hm : 1 ≤ m) :
    (x < min n m ∨ ∃ i < min n m, ∃ k, 1 ≤ k ∧ k ≤ f ∧ (i + m % n * k) % n = x) ↔ x < min n (m * (f + 1)) := by
  have hgrows : m ≤ m * (f + 1) := Nat.le_mul_of_pos_right m (Nat.succ_pos f)
  constructor
  · rintro (hx | ⟨i, hi, k, hpos, hle, rfl⟩)
    · omega
    · have hlt := Nat.mod_lt (i + m % n * k) hn
      by_cases hwraps : n ≤ m
      · omega
      · -- the last target of the last sender
        have hstep : m % n = m := Nat.mod_eq_of_lt (Nat.lt_of_not_le hwraps)
        have hfar : m * k ≤ m * f := Nat.mul_le_mul_left m hle
        have hmod := Nat.mod_le (i + m % n * k) n
        rw [hstep] at hlt hmod ⊢
        rw [Nat.mul_succ]
        omega
  · intro hx
    by_cases hold : x < min n m
    · exact .inl hold
    · have hstep : m % n = m := Nat.mod_eq_of_lt (by omega)
      have hrest : x % m < m := Nat.mod_lt x hm
      have hpos : 1 ≤ x / m := Nat.div_pos (by omega) hm
      have hle : x / m < f + 1 := Nat.div_lt_of_lt_mul (by omega)
      refine .inr ⟨x % m, by omega, x / m, hpos, Nat.le_of_lt_succ hle, ?_⟩
      rw [hstep, Nat.mod_add_div, Nat.mod_eq_of_lt (by omega)]

theorem spread_after (hn : 1 ≤ n) : spread { after n f r with round := r + 1 }
    ((contacts f (upTo (reached n f r)).toList).map (target ((f + 1) ^ r % n))) = after n f (r + 1) := by
  have hlength : (upTo (reached n f r)).toList.length = reached n f r := by
    rw [Std.ExtTreeSet.length_toList, size_upTo]
  unfold spread after
  congr 1
  · refine Std.ExtTreeSet.ext_mem fun x => ?_
    rw [mem_foldl_insert, mem_upTo, mem_upTo]
    unfold reached
    rw [Nat.pow_succ, ← covered_iff hn (Nat.pow_pos (Nat.succ_pos f))]
    simp only [List.mem_map, mem_contacts, IndexSet.mem_toList, mem_upTo]
    refine or_congr Iff.rfl ⟨?_, ?_⟩
    · rintro ⟨_, ⟨p, ⟨hi, hpos, hle⟩, rfl⟩, hx⟩
      exact ⟨p.1, hi, p.2, hpos, hle, hx⟩
    · rintro ⟨i, hi, k, hpos, hle, hx⟩
      exact ⟨_, ⟨(i, k), ⟨hi, hpos, hle⟩, rfl⟩, hx⟩
  · dsimp only
    rw [List.length_map, length_contacts, hlength, sent_succ]

/-- **A round** that overflows nowhere. -/
theorem oneRound_eq (hn : 1 ≤ n) (hn' : n ≤ UInt32.size) (h : (after n f r).oneRound = some (s', new)) :
    s' = after n f (r + 1) := by
  have hnodes : (after n f r).nodes ≠ 0 := Nat.ne_of_gt hn
  unfold oneRound at h
  rw [if_neg hnodes] at h
  obtain ⟨round, hround, h⟩ := Option.bind_eq_some_iff.mp h
  obtain ⟨base, hbase, h⟩ := Option.bind_eq_some_iff.mp h
  obtain ⟨step, hstep, h⟩ := Option.bind_eq_some_iff.mp h
  obtain ⟨s₁, hs₁, h⟩ := Option.bind_eq_some_iff.mp h
  cases h
  obtain ⟨-, rfl⟩ := checkU32_eq_some.mp hround
  obtain ⟨-, rfl⟩ := checkU64_eq_some.mp hbase
  obtain rfl := Option.some.inj ((powMod_eq _ _ hn hn').symm.trans hstep)
  exact (contactAll_spread hs₁).trans (spread_after hn)

/-- Nothing overflows in the round behind `r` others: the last node infected so far and its last target are the
largest. -/
structure Fits (n f r : Nat) : Prop where
  round : r + 1 < UInt32.size
  base : f + 1 < UInt64.size
  target : reached n f r - 1 + (f + 1) ^ r % n * f < UInt64.size
  messages : sent n f (r + 1) < UInt64.size

theorem oneRound_total (hn : 1 ≤ n) (hn' : n ≤ UInt32.size) (h : Fits n f r) :
    ∃ new, (after n f r).oneRound = some (after n f (r + 1), new) := by
  have hlength : (upTo (reached n f r)).toList.length = reached n f r := by
    rw [Std.ExtTreeSet.length_toList, size_upTo]
  have hcontacts : ∃ s', contactAll { after n f r with round := r + 1 } ((f + 1) ^ r % n)
      (upTo (reached n f r)).toList = some s' := by
    refine contactAll_total (fun p hp => ?_) ?_
    · obtain ⟨hi, -, hk⟩ := mem_contacts.mp hp
      rw [IndexSet.mem_toList, mem_upTo] at hi
      have hprod : (f + 1) ^ r % n * p.2 ≤ (f + 1) ^ r % n * f := Nat.mul_le_mul_left _ hk
      have hfits := h.target
      unfold target
      omega
    · rw [hlength]
      exact sent_succ n f r ▸ h.messages
  obtain ⟨s', hs'⟩ := hcontacts
  have hround : (after n f r).oneRound = some (s', s'.infected.size - (after n f r).infected.size) := by
    have hnodes : (after n f r).nodes ≠ 0 := Nat.ne_of_gt hn
    unfold oneRound
    rw [if_neg hnodes]
    show (checkU32 (r + 1)).bind _ = _
    rw [checkU32_eq_some.mpr ⟨h.round, rfl⟩]
    show (checkU64 (f + 1)).bind _ = _
    rw [checkU64_eq_some.mpr ⟨h.base, rfl⟩]
    show (powMod (f + 1) (r + 1 - 1) n).bind _ = _
    rw [powMod_eq _ _ hn hn']
    exact Option.bind_eq_some_iff.mpr ⟨_, rfl, Option.bind_eq_some_iff.mpr ⟨s', hs', rfl⟩⟩
  obtain rfl := oneRound_eq hn hn' hround
  exact ⟨_, hround⟩

/-! ## Everyone -/

theorem sent_eq (h : ∀ j < r, (f + 1) ^ j ≤ n) : sent n f r + 1 = (f + 1) ^ r := by
  induction r with
  | zero => simp [sent]
  | succ r ih =>
    have hreached : reached n f r = (f + 1) ^ r := Nat.min_eq_right (h r (Nat.lt_succ_self r))
    have hbefore := ih fun j hj => h j (Nat.lt_succ_of_lt hj)
    rw [sent_succ, hreached, Nat.pow_succ, Nat.mul_succ, Nat.mul_comm f]
    omega

theorem pow_le_of_lt {j : Nat} (hj : j ≤ r) (h : (f + 1) ^ r < n) : (f + 1) ^ j ≤ n :=
  (Nat.pow_le_pow_right (Nat.succ_pos f) hj).trans (Nat.le_of_lt h)

theorem fits_of_lt (hf : 1 ≤ f) (hf' : f + 1 < UInt64.size) (hn' : n ≤ UInt32.size) (h : (f + 1) ^ r < n) :
    Fits n f r := by
  have hreached : reached n f r = (f + 1) ^ r := Nat.min_eq_right (Nat.le_of_lt h)
  have hpos : 0 < (f + 1) ^ r := Nat.pow_pos (Nat.succ_pos f)
  have hrounds : r < (f + 1) ^ r := Nat.lt_pow_self (by omega)
  have hnext : (f + 1) ^ (r + 1) ≤ UInt64.size := by
    cases r with
    | zero => simpa using Nat.le_of_lt hf'
    | succ r =>
      have hbase : f + 1 ≤ (f + 1) ^ (r + 1) := Nat.le_self_pow (Nat.succ_ne_zero r) (f + 1)
      rw [Nat.pow_succ (f + 1) (r + 1)]
      have hprod : (f + 1) ^ (r + 1) * (f + 1) ≤ UInt32.size * UInt32.size :=
        Nat.mul_le_mul (by omega) (by omega)
      exact hprod.trans (by decide)
  refine ⟨by omega, hf', ?_, ?_⟩
  · rw [hreached, Nat.mod_eq_of_lt h]
    rw [Nat.pow_succ, Nat.mul_succ] at hnext
    omega
  · have hsent := sent_eq (r := r + 1) (n := n) (f := f) fun j hj => pow_le_of_lt (Nat.le_of_lt_succ hj) h
    omega

/-- **`converge`** runs to the round that reaches everyone, from any round before it. -/
theorem converge_eq (hn : 1 ≤ n) (hn' : n ≤ UInt32.size) (hf : 1 ≤ f) (hf' : f + 1 < UInt64.size)
    (hr : IsLeast {r | n ≤ (f + 1) ^ r} r) (hk : k ≤ r) : (after n f k).converge = some (after n f r) := by
  -- the induction is on the rounds that are left
  generalize hleft : r - k = left
  induction left generalizing k with
  | zero =>
    obtain rfl : k = r := by omega
    have hall : reached n f k = n := Nat.min_eq_left hr.1
    rw [converge, if_neg]
    show ¬ (upTo (reached n f k)).size < n
    rw [size_upTo, hall]
    exact Nat.lt_irrefl n
  | succ left ih =>
    have hlt : (f + 1) ^ k < n := by
      refine Nat.lt_of_not_le fun hle => ?_
      have := hr.2 hle
      omega
    have hnow : reached n f k = (f + 1) ^ k := Nat.min_eq_right (Nat.le_of_lt hlt)
    have hgrows : (f + 1) ^ k < (f + 1) ^ (k + 1) := Nat.pow_lt_pow_right (by omega) (Nat.lt_succ_self k)
    obtain ⟨new, hround⟩ := oneRound_total hn hn' (fits_of_lt hf hf' hn' hlt)
    have hnew : new ≠ 0 := by
      rw [(oneRound_new hround).2]
      show (upTo (reached n f (k + 1))).size - (upTo (reached n f k)).size ≠ 0
      rw [size_upTo, size_upTo, hnow]
      unfold reached
      omega
    have hrest := ih (k := k + 1) (by omega) (by omega)
    rw [converge, if_pos]
    · split
      · rename_i hnone
        rw [hround] at hnone
        cases hnone
      · rename_i s' new' hsome
        rw [hround] at hsome
        cases hsome
        rw [if_neg hnew, hrest]
    · show (upTo (reached n f k)).size < n
      rwa [size_upTo, hnow]

section

variable [Host] {es : List (Event Gossip Line Value)}

theorem rounds_eq (hn : 1 ≤ n) (hn' : n ≤ UInt32.size) (hrun : Run (onLine step) (started n f) es s)
    (hlines : ∀ e ∈ es, e.input.command = "round") : s = after n f es.length := by
  refine hrun.history_invariant (P := fun es s => s = after n f es.length)
    (G := fun e => e.input.command = "round") (started_eq hn) (fun es s l s' v h hl hs => ?_) hlines
  subst h
  unfold onLine at hs
  rw [show l.command = "round" from hl] at hs
  obtain ⟨p, hp, heq⟩ := Option.map_eq_some_iff.mp hs
  cases heq
  rw [oneRound_eq hn hn' hp, List.length_append]
  rfl

theorem rounds_total (hn : 1 ≤ n) (hn' : n ≤ UInt32.size) (hfits : ∀ j < r, Fits n f j) : ∃ es,
    Run (onLine step) (started n f) es (after n f r) ∧ es.map Event.input = List.replicate r ⟨"round", []⟩ := by
  induction r with
  | zero => exact ⟨[], started_eq (f := f) hn ▸ Run.nil, rfl⟩
  | succ r ih =>
    obtain ⟨es, hrun, hinputs⟩ := ih fun j hj => hfits j (Nat.lt_succ_of_lt hj)
    obtain ⟨new, hround⟩ := oneRound_total hn hn' (hfits r (Nat.lt_succ_self r))
    have hstep : onLine step (after n f r) ⟨"round", []⟩ =
        some (after n f (r + 1), (after n f (r + 1)).report new) := by
      show (after n f r).oneRound.map _ = _
      rw [hround]
      rfl
    refine ⟨_, hrun.snoc hstep, ?_⟩
    rw [List.map_append, hinputs, List.replicate_succ']
    rfl

/-- **Gossip converges**: after `r` rounds exactly the first `(fanout + 1) ^ r` nodes are infected, and there are
such runs as long as nothing overflows; `converge` stops, and overflows nowhere, after the least number of rounds
that reaches everyone; and `pow_mod` is the power. -/
theorem gossip_converges (hn : 1 ≤ n) (hn' : n < 2 ^ 32) (hf : 1 ≤ f) (hf' : f + 1 < 2 ^ 64) :
    (∀ es s, Run (onLine step) (started n f) es s → (∀ e ∈ es, e.input.command = "round") →
      s = after n f es.length) ∧
    (∀ r, (∀ j < r, Fits n f j) → ∃ es, Run (onLine step) (started n f) es (after n f r) ∧
      es.map Event.input = List.replicate r ⟨"round", []⟩) ∧
    (∃ r, IsLeast {r | n ≤ (f + 1) ^ r} r ∧ ∀ k ≤ r, ∀ args,
      onLine step (after n f k) ⟨"converge", args⟩ = some (after n f r, (after n f r).converged)) ∧
    ∀ base exp m, 1 ≤ m → m < 2 ^ 32 → powMod base exp m = some (base ^ exp % m) := by
  have hsize : n ≤ UInt32.size := Nat.le_of_lt hn'
  refine ⟨fun es s => rounds_eq hn hsize, fun r => rounds_total hn hsize, ?_, fun base exp m hm hm' =>
    powMod_eq base exp hm (Nat.le_of_lt hm')⟩
  have hreaches : ∃ r, n ≤ (f + 1) ^ r := ⟨n, Nat.le_of_lt (Nat.lt_pow_self (by omega))⟩
  refine ⟨Nat.find hreaches, ⟨Nat.find_spec hreaches, fun r hr => Nat.find_min' hreaches hr⟩,
    fun k hk args => ?_⟩
  have hconverge := converge_eq hn hsize hf hf' ⟨Nat.find_spec hreaches, fun r hr => Nat.find_min' hreaches hr⟩ hk
  show (after n f k).converge.map _ = _
  rw [hconverge]
  rfl

end

/-! With 32 nodes and a fanout of two, four rounds and eighty messages. -/

@[reducible] def plain : Host := hostOf []

theorem gossip_converges_thirty_two : IsLeast {r | 32 ≤ (2 + 1) ^ r} 4 ∧ (after 32 2 4).messages = 80 ∧
    onLine (@step plain) (started 32 2) ⟨"converge", []⟩ = some (after 32 2 4, (after 32 2 4).converged) := by
  let _ : Host := plain
  obtain ⟨-, -, ⟨r, hr, hconverge⟩, -⟩ := gossip_converges (n := 32) (f := 2) (by decide) (by decide) (by decide)
    (by decide)
  obtain rfl : r = 4 := by
    refine Nat.le_antisymm (hr.2 (by decide)) (Nat.lt_of_not_le fun hle => ?_)
    have hpow : (2 + 1) ^ r ≤ (2 + 1) ^ 3 := Nat.pow_le_pow_right (by decide) hle
    exact absurd (Nat.le_trans hr.1 hpow) (by decide)
  refine ⟨hr, by decide, ?_⟩
  rw [started_eq (by decide)]
  exact hconverge 0 (Nat.zero_le 4) []

end Gossip

end BuildYourOwn.Resilience
