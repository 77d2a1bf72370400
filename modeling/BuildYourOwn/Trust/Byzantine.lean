import BuildYourOwn.Lib.Majority
import BuildYourOwn.Topic.Command
import BuildYourOwn.Topic.Map

/-!
# `byzantine`: quorum arithmetic when replicas may lie

Model of `Byzantine` in `disttest/examples/alg/trust.rs`: how large a quorum of `n` replicas must be when
`f` of them lie, whether there is one while `f` are silent, and which of the replies a client may believe.

* The numbers are `i64` and panic when they overflow, which `init` already does for `n + f` and `3 * f`.
* The counts of `decide` are `i64` too, and no command line has that many replies.
-/

namespace BuildYourOwn.Trust

open Topic

structure Byzantine where
  n : Int
  f : Int

namespace Byzantine

def default : Byzantine where
  n := 0
  f := 0

/-- `quorum`: the smallest quorum that is safe against `f` liars out of `n`. -/
def quorum (s : Byzantine) : Option Int :=
  if s.f = 0 then some (s.n.tdiv 2 + 1)
  else (addI64 s.n s.f).map fun sum => sum.tdiv 2 + 1

def safe (s : Byzantine) : Option Bool :=
  if s.f = 0 then some (decide (1 ≤ s.n))
  else (checkI64 (3 * s.f)).map fun needed => decide (needed < s.n)

/-- The nodes that `safe` needs. -/
def needed (s : Byzantine) : Option Int :=
  if s.f = 0 then some 1 else (checkI64 (3 * s.f)).bind fun needed => addI64 needed 1

/-- The fields of an answer that has the whole configuration. -/
def described (s : Byzantine) (quorum : Int) (safe : Bool) : Value :=
  .obj [("ok", .bool true), ("nodes", .num s.n), ("faults", .num s.f), ("quorum", .num quorum),
    ("safe", .bool safe)]

def state (s : Byzantine) : Option Value :=
  s.quorum.bind fun quorum => s.safe.map fun safe => s.described quorum safe

def init (s : Byzantine) (n f : Int) : Handled Byzantine :=
  if n ≤ 0 ∨ f < 0 then
    some (s, err "nodes must be positive and faults must not be negative")
  else
    let s' : Byzantine := ⟨n, f⟩
    s'.state.map fun v => (s', v)

/-- `safe`, the command. -/
def answerSafe (s : Byzantine) : Option Value :=
  s.safe.bind fun safe => s.needed.map fun needed =>
    .obj [("ok", .bool true), ("safe", .bool safe), ("needed", .num needed), ("have", .num s.n)]

/-- `intersect`: how much two quorums must share, and how much of that is honest. -/
def intersect (s : Byzantine) : Option Value := do
  let q ← s.quorum
  let twice ← checkI64 (2 * q)
  let shared ← checkI64 (twice - s.n)
  let honest ← checkI64 (shared - s.f)
  return .obj [("ok", .bool true), ("quorum", .num q), ("shared", .num shared),
    ("honest_shared", .num honest), ("enough", .bool (decide (1 ≤ honest)))]

def tally (counts : StringMap Int) (value : String) : StringMap Int :=
  counts.insert value (counts.getD value 0 + 1)

/-- One step of `max_by_key`, which keeps the last of the largest. -/
def larger (best : Option (String × Int)) (next : String × Int) : Option (String × Int) :=
  match best with
  | none => some next
  | some b => if b.2 ≤ next.2 then some next else some b

/-- The value that at least `needed` replies agree on, the one with the most replies. -/
def winner (replies : List String) (needed : Int) : Option (String × Int) :=
  let counts := replies.foldl tally ∅
  (counts.toList.filter fun e => decide (needed ≤ e.2)).foldl larger none

def undecided (needed : Int) : Value :=
  .obj [("ok", .bool true), ("decided", .bool false), ("needed", .num needed),
    ("reason", .str "no value has f + 1 matching replies")]

/-- `decide`: the answer a client takes from a set of replies. -/
def decide (s : Byzantine) (replies : List String) : Option Value :=
  if replies = [] then some (err "decide needs at least one reply")
  else
    (addI64 s.f 1).map fun needed =>
      match winner replies needed with
      | some (value, matching) =>
        .obj [("ok", .bool true), ("decided", .bool true), ("value", .str value),
          ("matching", .num matching), ("needed", .num needed)]
      | none => undecided needed

def step [Host] (s : Byzantine) (command : String) (args : List String) : Handled Byzantine :=
  match command with
  | "init" => arg s (int args 0) fun n => arg s (int args 1) fun f => s.init n f
  | "quorum" => s.quorum.map fun q => (s, .obj [("ok", .bool true), ("quorum", .num q)])
  | "safe" => s.answerSafe.map fun v => (s, v)
  | "intersect" => s.intersect.map fun v => (s, v)
  | "decide" => (s.decide args).map fun v => (s, v)
  | "state" => s.state.map fun v => (s, v)
  | other => some (s, err ("unknown command " ++ debugStr other))

end Byzantine

end BuildYourOwn.Trust

/-!
## Quorums that share an honest replica

With `f` liars out of `n`, two quorums must share more than `f` replicas, so that one they share is
honest. `quorum` is the least size at which they do, as long as there are as many replicas: above `n`
there are no sets to share anything, so from `f = n + 2` on the least size is `n + 1` and `quorum` is
larger (`quorum_above_all`).

**`honest_quorums`**: the least size, and that a quorum answers while `f` are silent exactly when
`safe` says so; a value that `decide` takes was sent by an honest replica. `init` panics when `n + f` or
`3 * f` is too large for an `i64`.
-/

namespace BuildYourOwn.Trust.Byzantine

open Lib Topic

variable {n f : Int} {s : Byzantine} {v : Value} {x : String} {needed : Int}

/-! ## The sizes -/

/-- No `i64` overflows in `quorum` and `safe`. -/
def Fits (n f : Int) : Prop := f = 0 ∨ (n + f ≤ i64Max ∧ 3 * f ≤ i64Max)

theorem inI64_of_le (hn : 0 ≤ n) (h : n ≤ i64Max) : inI64 n = true := by
  unfold inI64
  rw [Bool.and_eq_true]
  exact ⟨decide_eq_true ((show i64Min ≤ 0 by decide).trans hn), decide_eq_true h⟩

theorem not_inI64 (h : i64Max < n) : ¬ inI64 n = true := by
  unfold inI64
  rw [Bool.and_eq_true]
  exact fun hin => absurd (of_decide_eq_true hin.2) (by omega)

theorem quorum_eq (hn : 1 ≤ n) (hf : 0 ≤ f) (h : Fits n f) : quorum ⟨n, f⟩ = some ((n + f) / 2 + 1) := by
  unfold quorum
  dsimp only
  split
  · rename_i hzero
    rw [hzero, Int.add_zero, Int.tdiv_eq_ediv_of_nonneg (by omega)]
  · rename_i hne
    have hsum : addI64 n f = some (n + f) :=
      addI64_eq_some.mpr ⟨inI64_of_le (by omega) (h.resolve_left hne).1, rfl⟩
    rw [hsum, Option.map_some, Int.tdiv_eq_ediv_of_nonneg (by omega)]

/-- **Safe** means that a quorum is left while `f` are silent. -/
theorem safe_eq (hn : 1 ≤ n) (hf : 0 ≤ f) (h : Fits n f) :
    safe ⟨n, f⟩ = some (Decidable.decide ((n + f) / 2 + 1 ≤ n - f)) := by
  unfold safe
  dsimp only
  split
  · rename_i hzero
    refine congrArg some (decide_eq_decide.mpr ?_)
    omega
  · rename_i hne
    have hthree : checkI64 (3 * f) = some (3 * f) :=
      checkI64_eq_some.mpr ⟨inI64_of_le (by omega) (h.resolve_left hne).2, rfl⟩
    rw [hthree, Option.map_some]
    refine congrArg some (decide_eq_decide.mpr ?_)
    omega

/-- Otherwise `init` panics. -/
theorem init_panics (hn : 1 ≤ n) (hf : 0 ≤ f) (h : ¬ Fits n f) (s : Byzantine) : s.init n f = none := by
  unfold Fits at h
  rw [not_or, not_and_or] at h
  have hstate : state ⟨n, f⟩ = none := by
    unfold state quorum safe
    rw [if_neg h.1, if_neg h.1]
    rcases h.2 with hsum | hthree
    · have hnone : addI64 n f = none := if_neg (not_inI64 (by omega))
      rw [hnone]
      rfl
    · have hnone : checkI64 (3 * f) = none := if_neg (not_inI64 (by omega))
      rw [hnone]
      cases addI64 n f with
      | none => rfl
      | some sum => rfl
  unfold init
  rw [if_neg (by omega)]
  dsimp only
  rw [hstate]
  rfl

/-! ## The replies -/

structure Reply where
  value : String
  lying : Bool

theorem getD_tally (replies : List String) (counts : StringMap Int) (x : String) :
    (replies.foldl tally counts).getD x 0 = counts.getD x 0 + replies.count x := by
  induction replies generalizing counts with
  | nil => simp
  | cons y replies ih =>
    rw [List.foldl_cons, ih, List.count_cons]
    unfold tally
    rw [StringMap.getD_insert]
    by_cases h : y = x
    · rw [if_pos h, if_pos (beq_iff_eq.mpr h), h]
      push_cast
      omega
    · rw [if_neg h, if_neg (mt beq_iff_eq.mp h)]
      push_cast
      omega

/-- `max_by_key` gives one of the entries. -/
theorem mem_of_larger {l : List (String × Int)} {best : Option (String × Int)} {e : String × Int}
    (h : l.foldl larger best = some e) : best = some e ∨ e ∈ l := by
  induction l generalizing best with
  | nil => exact .inl h
  | cons a l ih =>
    rcases ih h with h | h
    · unfold larger at h
      split at h
      · exact .inr (List.mem_cons.mpr (.inl (Option.some.inj h).symm))
      · split at h
        · exact .inr (List.mem_cons.mpr (.inl (Option.some.inj h).symm))
        · exact .inl h
    · exact .inr (List.mem_cons_of_mem a h)

theorem count_of_winner {replies : List String} {e : String × Int}
    (h : winner replies needed = some e) : needed ≤ replies.count e.1 := by
  have hmem := (mem_of_larger h).resolve_left (by simp)
  obtain ⟨hentry, hneeded⟩ := List.mem_filter.mp hmem
  have hcount := getD_tally replies ∅ e.1
  have hget := StringMap.mem_toList.mp hentry
  rw [Std.ExtTreeMap.getD_eq_getD_getElem?, hget, Option.getD_some,
    Std.ExtTreeMap.getD_empty, Int.zero_add] at hcount
  exact hcount ▸ of_decide_eq_true hneeded

/-- The value that an answer to `decide` takes has `f + 1` replies. -/
theorem count_of_decide {replies : List String} (h : s.decide replies = some v)
    (hv : v.textAt "value" = some x) : s.f + 1 ≤ replies.count x := by
  unfold decide at h
  split at h
  · cases h
    have hnone : (err "decide needs at least one reply").textAt "value" = none := rfl
    cases hnone.symm.trans hv
  · obtain ⟨needed, hneeded, rfl⟩ := Option.map_eq_some_iff.mp h
    obtain ⟨-, rfl⟩ := addI64_eq_some.mp hneeded
    split at hv
    · rename_i value matching hwinner
      obtain rfl : value = x := Option.some.inj hv
      exact count_of_winner hwinner
    · have hnone : (undecided (s.f + 1)).textAt "value" = none := rfl
      cases hnone.symm.trans hv

theorem exists_honest {replies : List Reply} (hlies : (replies.countP (·.lying) : Int) ≤ f)
    (h : f + 1 ≤ (replies.map Reply.value).count x) : ∃ r ∈ replies, r.value = x ∧ r.lying = false := by
  by_contra hnone
  have hall : ∀ r ∈ replies, (r.value == x) = true → r.lying = true := by
    intro r hr hx
    by_contra hhonest
    exact hnone ⟨r, hr, beq_iff_eq.mp hx, by simpa using hhonest⟩
  have hle : replies.countP (fun r => r.value == x) ≤ replies.countP (·.lying) :=
    List.countP_mono_left hall
  have hcount : (replies.map Reply.value).count x = replies.countP (fun r => r.value == x) :=
    List.countP_map
  omega

/-- **Quorums that share an honest replica.** -/
theorem honest_quorums (hn : 1 ≤ n) (hf : 0 ≤ f) :
    (¬ Fits n f → ∀ s, init s n f = none) ∧
    (Fits n f → ∃ q : Nat, quorum ⟨n, f⟩ = some (q : Int) ∧
      IsLeast {q | Overlap (Fin n.toNat) q f.toNat} (min q (n.toNat + 1)) ∧
      (f ≤ n + 1 → IsLeast {q | Overlap (Fin n.toNat) q f.toNat} q) ∧
      safe ⟨n, f⟩ = some (Decidable.decide ((q : Int) ≤ n - f))) ∧
    ∀ (replies : List Reply), (replies.countP (·.lying) : Int) ≤ f → ∀ v x,
      decide ⟨n, f⟩ (replies.map Reply.value) = some v → v.textAt "value" = some x →
      ∃ r ∈ replies, r.value = x ∧ r.lying = false := by
  refine ⟨fun h s => init_panics hn hf h s, fun h => ?_, fun replies hlies v x hv hx => ?_⟩
  · have hq : (((n.toNat + f.toNat) / 2 + 1 : Nat) : Int) = (n + f) / 2 + 1 := by omega
    have hleast := isLeast_overlap (Fin n.toNat) f.toNat
    rw [Fintype.card_fin] at hleast
    refine ⟨(n.toNat + f.toNat) / 2 + 1, ?_, hleast, fun hle => ?_, ?_⟩
    · rw [quorum_eq hn hf h, hq]
    · rwa [Nat.min_eq_left (by omega)] at hleast
    · rw [safe_eq hn hf h, hq]
  · exact exists_honest hlies (count_of_decide hv hx)

/-- With one replica and three liars `quorum` is 3, and there are no two sets of 2 to begin with. -/
theorem quorum_above_all : (init default 1 3).isSome = true ∧ quorum ⟨1, 3⟩ = some 3 ∧
    Overlap (Fin 1) 2 3 ∧ ¬ IsLeast {q | Overlap (Fin 1) q 3} 3 := by
  have htwo : Overlap (Fin 1) 2 3 := overlap_iff.mpr (.inl (by decide))
  exact ⟨rfl, rfl, htwo, fun h => absurd (h.2 htwo) (by decide)⟩

theorem honest_quorums_seven : quorum ⟨7, 2⟩ = some 5 ∧
    IsLeast {q | Overlap (Fin 7) q 2} 5 ∧ safe ⟨7, 2⟩ = some true ∧
    ∃ r ∈ [Reply.mk "a" false, ⟨"b", true⟩, ⟨"a", false⟩, ⟨"a", true⟩], r.value = "a" ∧
      r.lying = false := by
  obtain ⟨-, hfits, hdecide⟩ := honest_quorums (n := 7) (f := 2) (by decide) (by decide)
  obtain ⟨q, hq, -, hleast, hsafe⟩ := hfits (.inr (by decide))
  obtain rfl : q = 5 := by
    have hfive : quorum ⟨7, 2⟩ = some 5 := rfl
    have := Option.mem_unique hq hfive
    omega
  obtain ⟨v, hv, hx⟩ : ∃ v, decide ⟨7, 2⟩ ["a", "b", "a", "a"] = some v ∧
    v.textAt "value" = some "a" := ⟨_, rfl, rfl⟩
  exact ⟨rfl, hleast (by decide), hsafe, hdecide _ (by decide) v "a" hv hx⟩

end BuildYourOwn.Trust.Byzantine
