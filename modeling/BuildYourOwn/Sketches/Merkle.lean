import Mathlib.Data.List.Sort
import Mathlib.Data.Nat.Log
import BuildYourOwn.Lib.HashTree
import BuildYourOwn.Lib.Utf8
import BuildYourOwn.Topic.Command
import BuildYourOwn.Topic.Map

/-!
# `merkle`

Model of the Merkle topic of `disttest/examples/prim/sketches.rs`, and of the oracles that its diff is measured
against (`differing_ranges` and `descent_bound` of `disttest/src/prim/oracles.rs`, `covered` of
`disttest/src/stages/s13_merkle_diff.rs`).

* SHA-256 is not in the repository: it is a parameter, of which only the length of its digests is said (`Sha2`).
* The levels of a tree and the walk that compares two trees are those of the library, over digests in hex
  (`nodeHash`). A tree of at most one node has one level.
-/

namespace BuildYourOwn.Sketches

open Lib Topic

abbrev Bytes := List UInt8

/-- `sha2::Sha256`. -/
class Sha2 where
  sha256 : Bytes → {b : Bytes // b.length = 32}

/-! ## Trees -/

/-- `{b:02x}`. -/
def hexByte (b : UInt8) : List Char := [Nat.digitChar (b.toNat / 16), Nat.digitChar (b.toNat % 16)]

def hex (bytes : Bytes) : String := String.ofList (bytes.flatMap hexByte)

section variable [Sha2]

def digest (bytes : Bytes) : String := hex (Sha2.sha256 bytes).val

def leafHash (leaf : String) : String := digest (0 :: asBytes leaf)

def nodeHash (left right : String) : String := digest (1 :: (asBytes left ++ asBytes right))

/-- The first level that `levels` puts down. -/
def base (leaves : List String) : List String :=
  if leaves.isEmpty then [digest []] else leaves.map leafHash

/-- `levels`: every level, leaves first. Each is about half as long as the one below, so there are at most as
many as leaves. -/
def levels (leaves : List String) : List (List String) :=
  if leaves.isEmpty then [base leaves] else HashTree.climb nodeHash leaves.length (base leaves)

def rootOf (levels : List (List String)) : String := (levels.getLast?.bind List.head?).getD ""

end

/-! ## Ranges -/

def pushRange (out : List (Nat × Nat)) (i : Nat) : List (Nat × Nat) :=
  match out.getLast? with
  | some last => if last.2 + 1 = i then out.dropLast ++ [(last.1, i)] else out ++ [(i, i)]
  | none => out ++ [(i, i)]

def ranges (indices : List Nat) : List (Nat × Nat) := indices.foldl pushRange []

/-! ## The topic -/

/-- `Merkle`: named trees, each remembered as its leaves. -/
abbrev Merkle := StringMap (List String)

namespace Merkle

/-- The answer of `diff`. -/
def answer (ranges : List (Nat × Nat)) (compared : Nat) : Value :=
  .obj [("ranges", .arr (ranges.map fun r => .arr [.num r.1, .num r.2])), ("compared", .num compared)]

section variable [Sha2]

def tree (s : Merkle) (id : String) : Option (List (List String)) := (s[id]?).map levels

/-- `diff`, over the leaf levels of trees of two shapes: every place is looked at. -/
def scan (la lb : List String) : Nat × List Nat :=
  let n := max la.length lb.length
  (n, (List.range n).filter fun i => la[i]? ≠ lb[i]?)

/-- `diff`, what it finds and what that costs. -/
def compareTrees (la lb : List (List String)) : Nat × List Nat :=
  if (la.getD 0 []).length = (lb.getD 0 []).length ∧ la.length = lb.length then
    HashTree.descend la lb (la.length - 1) 0 (0, [])
  else scan (la.getD 0 []) (lb.getD 0 [])

def step [Host] (s : Merkle) (command : String) (args : List String) : Handled Merkle :=
  match command with
  | "build" => arg s (word args 0) fun id =>
    let leaves := match args[1]? with
      | some list => list.splitOn ","
      | none => []
    some (s.insert id leaves, .obj [("root", .str (rootOf (levels leaves))), ("leaves", .num leaves.length)])
  | "root" => arg s (word args 0) fun id =>
    match tree s id with
    | some levels => some (s, .obj [("root", .str (rootOf levels))])
    | none => some (s, err ("no tree " ++ debugStr id))
  | "node" => arg s (word args 0) fun id => arg s (int args 1) fun level => arg s (int args 2) fun index =>
    match tree s id with
    | none => some (s, err ("no tree " ++ debugStr id))
    | some levels =>
      if level < 0 ∨ index < 0 then some (s, err "level and index are not negative")
      else
        match (levels[level.toNat]?).bind fun l => l[index.toNat]? with
        | some h => some (s, .obj [("hash", .str h)])
        | none =>
          some (s, err ("tree " ++ debugStr id ++ " has no node " ++ toString level ++ "/" ++ toString index))
  | "diff" => arg s (word args 0) fun a => arg s (word args 1) fun b =>
    match tree s a, tree s b with
    | some la, some lb =>
      let (compared, differing) := compareTrees la lb
      some (s, answer (ranges (differing.insertionSort (· ≤ ·))) compared)
    | _, _ => some (s, err "diff needs two trees that have been built")
  | other => some (s, err ("merkle: unknown command " ++ debugStr other))

end

end Merkle

/-! ## The oracles -/

def differingRanges (a b : List Bytes) : List (Nat × Nat) :=
  (List.range (max a.length b.length)).foldl (fun out i => if a[i]? ≠ b[i]? then pushRange out i else out) []

/-- `covered`: how many leaves the ranges cover. -/
def covered (ranges : List (Nat × Nat)) : Nat := (ranges.map fun r => r.2 + 1 - r.1).sum

/-- `usize::next_power_of_two`: the least that is not below. -/
def nextPowerOfTwo (n : Nat) : Nat := 2 ^ Nat.clog 2 n

/-- `descent_bound`. The bits of a power of two are one more than its logarithm. -/
def descentBound (leaves differing : Nat) : Nat :=
  if differing = 0 then 1
  else
    let depth := (nextPowerOfTwo leaves).log2 + 1 + 1
    2 * depth * differing + 2

end BuildYourOwn.Sketches

/-!
## Merkle diff is exact and cheap

Where SHA-256 has no collision on what is hashed for the two trees (`CollisionFree`), `diff` reports what the
oracle finds on the leaves, and trees of as many leaves are compared within the oracle's bound.

A digest in hex is 64 bytes, so the two that an inner node is made from are found again in what is hashed
(`nodeHash_injective`), and the walk of the library applies (`free_nodeHash`).
-/

namespace BuildYourOwn.Sketches

open Lib Topic

/-! ## Digests in hex -/

theorem digitChar_injective : ∀ m < 16, ∀ n < 16, Nat.digitChar m = Nat.digitChar n → m = n := by decide

theorem utf8_digitChar : ∀ n < 16, (String.utf8EncodeChar (Nat.digitChar n)).length = 1 := by decide

theorem hexByte_injective {a b : UInt8} (h : hexByte a = hexByte b) : a = b := by
  have ha := a.toNat_lt
  have hb := b.toNat_lt
  obtain ⟨hhigh, hlow⟩ := List.cons.inj h
  have hdiv := digitChar_injective (a.toNat / 16) (by omega) (b.toNat / 16) (by omega) hhigh
  have hmod := digitChar_injective (a.toNat % 16) (by omega) (b.toNat % 16) (by omega) (List.cons.inj hlow).1
  exact UInt8.toNat_inj.mp (by omega)

theorem hex_injective {a b : Bytes} (h : hex a = hex b) : a = b := by
  have hchars := String.ofList_injective h
  clear h
  induction a generalizing b with
  | nil =>
    cases b with
    | nil => rfl
    | cons y b => cases hchars
  | cons x a ih =>
    cases b with
    | nil => cases hchars
    | cons y b =>
      rw [List.flatMap_cons, List.flatMap_cons] at hchars
      obtain ⟨hbyte, hrest⟩ := List.append_inj hchars rfl
      rw [hexByte_injective hbyte, ih hrest]

theorem length_hex (bytes : Bytes) : (asBytes (hex bytes)).length = 2 * bytes.length := by
  unfold hex
  rw [asBytes_eq, String.toList_ofList]
  induction bytes with
  | nil => rfl
  | cons b bytes ih =>
    have hb := b.toNat_lt
    have hbyte : ((hexByte b).flatMap String.utf8EncodeChar).length = 2 := by
      unfold hexByte
      rw [List.flatMap_cons, List.flatMap_cons, List.flatMap_nil, List.length_append, List.length_append,
        utf8_digitChar _ (by omega), utf8_digitChar _ (by omega)]
      rfl
    rw [List.flatMap_cons, List.flatMap_append, List.length_append, ih, hbyte, List.length_cons]
    omega

theorem asBytes_injective {s t : String} (h : asBytes s = asBytes t) : s = t := by
  have hs := fromUTF8_asBytes s
  rw [h, fromUTF8_asBytes] at hs
  exact (Option.some.inj hs).symm

/-! ## What is hashed -/

def pairInputs : List String → List Bytes
  | x :: y :: rest => (1 :: (asBytes x ++ asBytes y)) :: pairInputs rest
  | _ => []

theorem mem_pairInputs {l : List String} {i : Nat} {x y : String} (hx : l[i * 2]? = some x)
    (hy : l[i * 2 + 1]? = some y) : (1 :: (asBytes x ++ asBytes y)) ∈ pairInputs l := by
  induction l using pairInputs.induct generalizing i with
  | case1 a b rest ih =>
    cases i with
    | zero =>
      cases hx
      cases hy
      exact List.mem_cons_self
    | succ i =>
      rw [Nat.succ_mul] at hx hy
      exact List.mem_cons_of_mem _ (ih hx hy)
  | case2 l hl =>
    match l, hl with
    | [], _ => cases hx
    | [a], _ => cases hy
    | a :: b :: rest, hl => exact absurd rfl (hl a b rest)

section variable [Sha2]

def hashed (leaves : List String) : List Bytes :=
  if leaves.isEmpty then [[]]
  else leaves.map (fun leaf => 0 :: asBytes leaf) ++ (levels leaves).flatMap pairInputs

def CollisionFree (inputs : List Bytes) : Prop :=
  ∀ x ∈ inputs, ∀ y ∈ inputs, Sha2.sha256 x = Sha2.sha256 y → x = y

instance (inputs : List Bytes) : Decidable (CollisionFree inputs) :=
  inferInstanceAs (Decidable (∀ x ∈ inputs, ∀ y ∈ inputs, Sha2.sha256 x = Sha2.sha256 y → x = y))

variable {la lb : List String} {inputs : List Bytes}

theorem digest_injective (hfree : CollisionFree inputs) {x y : Bytes} (hx : x ∈ inputs) (hy : y ∈ inputs)
    (h : digest x = digest y) : x = y := hfree x hx y hy (Subtype.ext (hex_injective h))

theorem nodeHash_injective (hfree : CollisionFree inputs) {x y x' y' : String}
    (hx : (asBytes x).length = (asBytes x').length) (hin : (1 :: (asBytes x ++ asBytes y)) ∈ inputs)
    (hin' : (1 :: (asBytes x' ++ asBytes y')) ∈ inputs) (h : nodeHash x y = nodeHash x' y') : x = x' ∧ y = y' := by
  obtain ⟨-, hbytes⟩ := List.cons.inj (digest_injective hfree hin hin' h)
  obtain ⟨hleft, hright⟩ := List.append_inj hbytes hx
  exact ⟨asBytes_injective hleft, asBytes_injective hright⟩

theorem length_base : (base la).length = max la.length 1 := by
  unfold base
  cases la with
  | nil => rfl
  | cons x la => simp

theorem levels_eq : levels la = HashTree.climb nodeHash (base la).length (base la) := by
  unfold levels
  cases la with
  | nil => rfl
  | cons x la => rw [if_neg (by simp), length_base, Nat.max_eq_left (by simp)]

theorem digest_of_mem {k : Nat} {x : String} (h : x ∈ HashTree.level nodeHash (base la) k) :
    ∃ bytes, x = digest bytes := by
  induction k generalizing x with
  | zero =>
    have h : x ∈ base la := h
    unfold base at h
    split at h
    · exact ⟨[], List.mem_singleton.mp h⟩
    · obtain ⟨leaf, -, rfl⟩ := List.mem_map.mp h
      exact ⟨_, rfl⟩
  | succ k ih =>
    obtain ⟨i, hi⟩ := List.getElem?_of_mem h
    rw [HashTree.level, HashTree.getElem?_pairUp] at hi
    split at hi
    · exact ⟨_, (Option.some.inj hi).symm⟩
    · exact ih (List.mem_of_getElem? hi)

theorem pair_hashed {k i : Nat} {x y : String} (hx : (HashTree.level nodeHash (base la) k)[i * 2]? = some x)
    (hy : (HashTree.level nodeHash (base la) k)[i * 2 + 1]? = some y) :
    (1 :: (asBytes x ++ asBytes y)) ∈ hashed la := by
  have htwo : 1 < (HashTree.level nodeHash (base la) k).length := by
    have := (List.getElem?_eq_some_iff.mp hy).1
    omega
  -- a level with a pair is one of the tree, and not of a tree without leaves
  have hk : k < (HashTree.climb nodeHash (base la).length (base la)).length := by
    by_contra hk
    have hall : (base la).length ≤ 2 ^ ((HashTree.climb nodeHash (base la).length (base la)).length - 1) :=
      HashTree.le_length_climb (Nat.le_succ _)
    have hpow : 2 ^ ((HashTree.climb nodeHash (base la).length (base la)).length - 1) ≤ 2 ^ k :=
      Nat.pow_le_pow_right (by decide) (by omega)
    exact absurd (HashTree.length_level_le (hall.trans hpow)) (Nat.not_le.mpr htwo)
  have hla : ¬ la.isEmpty = true := by
    intro hempty
    obtain rfl := List.isEmpty_iff.mp hempty
    have hone : (base []).length ≤ 2 ^ k := by
      rw [length_base]
      exact Nat.one_le_two_pow
    have hone : (HashTree.level nodeHash (base []) k).length ≤ 1 := HashTree.length_level_le hone
    exact absurd hone (Nat.not_le.mpr htwo)
  unfold hashed
  rw [if_neg hla, levels_eq]
  exact List.mem_append_right _ (List.mem_flatMap.mpr
    ⟨_, List.mem_of_getElem? (HashTree.getElem?_climb hk), mem_pairInputs hx hy⟩)

/-- **Inner nodes have no collisions.** -/
theorem free_nodeHash (hfree : CollisionFree (hashed la ++ hashed lb)) :
    HashTree.Free nodeHash (base la) (base lb) := by
  intro k i x y x' y' hx hy hx' hy'
  obtain ⟨bytes, rfl⟩ := digest_of_mem (List.mem_of_getElem? hx)
  obtain ⟨bytes', rfl⟩ := digest_of_mem (List.mem_of_getElem? hx')
  refine nodeHash_injective hfree ?_ (List.mem_append_left _ (pair_hashed hx hy))
    (List.mem_append_right _ (pair_hashed hx' hy'))
  unfold digest
  rw [length_hex, length_hex, (Sha2.sha256 bytes).property, (Sha2.sha256 bytes').property]

theorem getElem?_base (h : la ≠ []) (i : Nat) : (base la)[i]? = la[i]?.map leafHash := by
  unfold base
  rw [if_neg (by simpa using h), List.getElem?_map]

theorem leaf_hashed {leaf : String} (h : leaf ∈ la) : (0 :: asBytes leaf) ∈ hashed la := by
  unfold hashed
  rw [if_neg (by simpa using List.ne_nil_of_mem h)]
  exact List.mem_append_left _ (List.mem_map_of_mem h)

theorem leafHash_injective (hfree : CollisionFree inputs) {x y : String} (hx : (0 :: asBytes x) ∈ inputs)
    (hy : (0 :: asBytes y) ∈ inputs) (h : leafHash x = leafHash y) : x = y :=
  asBytes_injective (List.cons.inj (digest_injective hfree hx hy h)).2

theorem base_nil_ne (hfree : CollisionFree (hashed [] ++ hashed la)) {i : Nat} (hi : i < la.length) :
    (base [])[i]? ≠ (base la)[i]? := by
  obtain ⟨leaf, hleaf⟩ : ∃ leaf, la[i]? = some leaf := ⟨_, List.getElem?_eq_getElem hi⟩
  have hmem := List.mem_of_getElem? hleaf
  rw [getElem?_base (List.ne_nil_of_mem hmem), hleaf]
  cases i with
  | zero =>
    intro h
    have hnil := digest_injective hfree (x := []) (List.mem_append_left _ (List.mem_singleton_self _))
      (List.mem_append_right _ (leaf_hashed hmem)) (Option.some.inj h)
    cases hnil
  | succ i => exact fun h => absurd h (by simp [base])

/-- **Leaf hashes are the same exactly when the leaves are.** -/
theorem base_eq_iff (hfree : CollisionFree (hashed la ++ hashed lb)) {i : Nat} (hi : i < max la.length lb.length) :
    (base la)[i]? = (base lb)[i]? ↔ la[i]? = lb[i]? := by
  have hswap : CollisionFree (hashed lb ++ hashed la) := fun x hx y hy =>
    hfree x (List.mem_append.mpr (List.mem_append.mp hx).symm) y (List.mem_append.mpr (List.mem_append.mp hy).symm)
  by_cases hla : la = []
  · subst hla
    have hlt : i < lb.length := by simpa using hi
    exact iff_of_false (base_nil_ne hfree hlt) (by simp [List.getElem?_eq_getElem hlt])
  by_cases hlb : lb = []
  · subst hlb
    have hlt : i < la.length := by simpa using hi
    exact iff_of_false (base_nil_ne hswap hlt).symm (by simp [List.getElem?_eq_getElem hlt])
  rw [getElem?_base hla, getElem?_base hlb]
  cases hx : la[i]? with
  | none => cases hy : lb[i]? with
    | none => exact iff_of_true rfl rfl
    | some y => exact iff_of_false (by simp) (by simp)
  | some x => cases hy : lb[i]? with
    | none => exact iff_of_false (by simp) (by simp)
    | some y =>
      refine ⟨fun h => congrArg some (leafHash_injective hfree (List.mem_append_left _ ?_)
        (List.mem_append_right _ ?_) (Option.some.inj h)), fun h => congrArg (Option.map leafHash) h⟩
      · exact leaf_hashed (List.mem_of_getElem? hx)
      · exact leaf_hashed (List.mem_of_getElem? hy)

/-! ## What is found -/

def differing (la lb : List String) : List Nat :=
  (List.range (max la.length lb.length)).filter fun i => la[i]? ≠ lb[i]?

theorem base_beyond {i : Nat} (hi : max la.length lb.length ≤ i) : (base la)[i]? = (base lb)[i]? := by
  by_cases hnone : la = [] ∧ lb = []
  · rw [hnone.1, hnone.2]
  · have hpos : 1 ≤ i := by
      by_contra h
      refine hnone ⟨List.eq_nil_of_length_eq_zero ?_, List.eq_nil_of_length_eq_zero ?_⟩ <;> omega
    rw [List.getElem?_eq_none (by rw [length_base]; omega), List.getElem?_eq_none (by rw [length_base]; omega)]

theorem differing_eq (hfree : CollisionFree (hashed la ++ hashed lb)) {n : Nat} (hn : max la.length lb.length ≤ n) :
    (List.range n).filter (fun i => (base la)[i]? ≠ (base lb)[i]?) = differing la lb := by
  obtain ⟨more, rfl⟩ : ∃ more, n = max la.length lb.length + more := ⟨n - max la.length lb.length, by omega⟩
  have hmore : ((List.range more).map (max la.length lb.length + ·)).filter
      (fun i => (base la)[i]? ≠ (base lb)[i]?) = [] := by
    refine List.filter_eq_nil_iff.mpr fun i hi => ?_
    obtain ⟨j, -, rfl⟩ := List.mem_map.mp hi
    simp [base_beyond (Nat.le_add_right (max la.length lb.length) j)]
  rw [List.range_add, List.filter_append, hmore, List.append_nil]
  refine List.filter_congr fun i hi => ?_
  rw [decide_eq_decide, ne_eq, ne_eq, base_eq_iff hfree (List.mem_range.mp hi)]

theorem length_levels_le (la : List String) : (levels la).length ≤ Nat.clog 2 la.length + 1 := by
  rw [levels_eq]
  refine HashTree.length_climb_le ?_
  rw [length_base]
  exact Nat.max_le.mpr ⟨Nat.le_pow_clog Nat.one_lt_two la.length, Nat.one_le_two_pow⟩

/-- **The comparison of two trees** finds where their leaves differ; and where there are as many, it costs no more
than two nodes a level for each. -/
theorem compareTrees_spec (hfree : CollisionFree (hashed la ++ hashed lb)) :
    ∃ compared, Merkle.compareTrees (levels la) (levels lb) = (compared, differing la lb) ∧
      (la.length = lb.length → compared ≤ 1 + 2 * Nat.clog 2 la.length * (differing la lb).length) := by
  have hzero : ∀ l : List String, (levels l).getD 0 [] = base l := by
    intro l
    rw [levels_eq, List.getD_eq_getElem?_getD, HashTree.getElem?_climb HashTree.length_climb_pos]
    rfl
  unfold Merkle.compareTrees
  rw [hzero, hzero]
  by_cases hlength : (base la).length = (base lb).length
  · have hshape : (levels la).length = (levels lb).length := by
      rw [levels_eq, levels_eq, ← hlength, HashTree.length_climb hlength]
    rw [if_pos ⟨hlength, hshape⟩]
    have hfit : (base la).length ≤ 2 ^ ((levels la).length - 1) := by
      rw [levels_eq]
      exact HashTree.le_length_climb (Nat.le_succ _)
    have htop : (levels la).length - 1 < (HashTree.climb nodeHash (base la).length (base la)).length := by
      rw [← levels_eq]
      have hpos : 0 < (levels la).length := by
        rw [levels_eq]
        exact HashTree.length_climb_pos
      omega
    obtain ⟨cost, hdescend, hcost⟩ :=
      HashTree.descend_spec (i := 0) hlength (free_nodeHash hfree) htop 0 []
    have hdiffs : HashTree.diffs (base la) (base lb) (0 * 2 ^ ((levels la).length - 1))
        (2 ^ ((levels la).length - 1)) = differing la lb := by
      rw [Nat.zero_mul, ← differing_eq hfree (n := 2 ^ ((levels la).length - 1)), List.range_eq_range']
      · rfl
      · rw [length_base] at hfit
        rw [length_base, length_base] at hlength
        omega
    rw [hdiffs] at hdescend hcost
    rw [hlength, ← levels_eq, ← hlength, ← levels_eq, Nat.zero_add] at hdescend
    have hlevels := length_levels_le la
    refine ⟨cost, hdescend, fun _ => hcost.trans (Nat.add_le_add_left (Nat.mul_le_mul_right _ ?_) 1)⟩
    omega
  · rw [if_neg fun h => hlength h.1]
    refine ⟨_, congrArg (Prod.mk _) (differing_eq hfree ?_), fun hleaves => absurd ?_ hlength⟩
    · rw [length_base, length_base]
      omega
    · rw [length_base, length_base, hleaves]

end

/-! ## The answer -/

theorem covered_pushRange {out : List (Nat × Nat)} (h : ∀ r ∈ out, r.1 ≤ r.2) (i : Nat) :
    (∀ r ∈ pushRange out i, r.1 ≤ r.2) ∧ covered (pushRange out i) = covered out + 1 := by
  have hpush : (∀ r ∈ out ++ [(i, i)], r.1 ≤ r.2) ∧ covered (out ++ [(i, i)]) = covered out + 1 := by
    refine ⟨fun r hr => ?_, by simp [covered]⟩
    rcases List.mem_append.mp hr with hr | hr
    · exact h r hr
    · rw [List.mem_singleton.mp hr]
  rcases List.eq_nil_or_concat' out with rfl | ⟨front, last, rfl⟩
  · exact hpush
  unfold pushRange
  rw [List.getLast?_append_of_ne_nil _ (List.cons_ne_nil _ _), List.getLast?_singleton, List.dropLast_concat]
  dsimp only
  split
  · rename_i hnext
    have hlast := h last List.mem_concat_self
    constructor
    · intro r hr
      rcases List.mem_append.mp hr with hr | hr
      · exact h r (List.mem_append_left _ hr)
      · rw [List.mem_singleton.mp hr]
        omega
    · simp only [covered, List.map_append, List.map_cons, List.map_nil, List.sum_append, List.sum_singleton]
      omega
  · exact hpush

theorem covered_ranges (indices : List Nat) : covered (ranges indices) = indices.length := by
  have hfold : ∀ out : List (Nat × Nat), (∀ r ∈ out, r.1 ≤ r.2) →
      covered (indices.foldl pushRange out) = covered out + indices.length := by
    induction indices with
    | nil => exact fun out _ => rfl
    | cons i indices ih =>
      intro out h
      obtain ⟨hordered, hcovered⟩ := covered_pushRange h i
      rw [List.foldl_cons, ih _ hordered, hcovered, List.length_cons]
      omega
  simpa [covered, ranges] using hfold [] (List.forall_mem_nil _)

theorem ranges_differing (la lb : List String) :
    ranges (differing la lb) = differingRanges (la.map asBytes) (lb.map asBytes) := by
  unfold ranges differing differingRanges
  rw [List.foldl_filter, List.length_map, List.length_map]
  congr 1
  funext out i
  have hsame : (la.map asBytes)[i]? = (lb.map asBytes)[i]? ↔ la[i]? = lb[i]? := by
    rw [List.getElem?_map, List.getElem?_map]
    exact (Option.map_injective fun s t h => asBytes_injective h).eq_iff
  simp only [ne_eq, decide_not, Bool.not_eq_true', decide_eq_false_iff_not, hsame]

theorem sorted_differing (la lb : List String) : (differing la lb).insertionSort (· ≤ ·) = differing la lb :=
  List.Pairwise.insertionSort_eq ((List.pairwise_lt_range.filter _).imp Nat.le_of_lt)

/-- **The diff of two built trees** reports what the oracle finds on their leaves; and of trees with as many leaves
it compares no more nodes than the oracle allows. -/
theorem merkle_diff_exact [Host] [Sha2] (s : Merkle) (args : List String) (a b : String) (la lb : List String)
    (ha : args[0]? = some a) (hb : args[1]? = some b) (hla : s[a]? = some la) (hlb : s[b]? = some lb)
    (hfree : CollisionFree (hashed la ++ hashed lb)) :
    ∃ compared, Merkle.step s "diff" args =
        some (s, Merkle.answer (differingRanges (la.map asBytes) (lb.map asBytes)) compared) ∧
      (la.length = lb.length →
        compared ≤ descentBound la.length (covered (differingRanges (la.map asBytes) (lb.map asBytes)))) := by
  obtain ⟨compared, hcompare, hcost⟩ := compareTrees_spec hfree
  refine ⟨compared, ?_, fun hlength => (hcost hlength).trans ?_⟩
  · rw [Merkle.step, word, word, ha, hb]
    simp [arg, Merkle.tree, hla, hlb, hcompare, sorted_differing, ranges_differing]
  · rw [← ranges_differing, covered_ranges]
    unfold descentBound nextPowerOfTwo
    rw [Nat.log2_two_pow]
    split
    · rename_i hnone
      rw [hnone]
      exact Nat.le_refl 1
    · have hexpand : 2 * (Nat.clog 2 la.length + 1 + 1) * (differing la lb).length =
          2 * Nat.clog 2 la.length * (differing la lb).length + 4 * (differing la lb).length := by ring
      dsimp only
      omega

/-- SHA-256 on what is hashed for two trees of two leaves, `x y` and `x z`. -/
@[reducible] def sha2OfPairs : Sha2 where
  sha256 bytes :=
    match bytes with
    | [0, 120] => ⟨
      [60, 126, 155, 201, 48, 220, 147, 240, 31, 166, 153, 133, 239, 36, 45, 159, 158, 134, 31, 60, 83,
       85, 170, 36, 206, 94, 244, 180, 184, 167, 12, 203], rfl⟩
    | [0, 121] => ⟨
      [53, 83, 235, 53, 26, 218, 199, 12, 245, 202, 164, 254, 250, 28, 175, 140, 236, 114, 100, 3, 254,
       75, 52, 193, 79, 27, 184, 217, 128, 194, 11, 149], rfl⟩
    | [0, 122] => ⟨
      [71, 62, 238, 164, 50, 140, 210, 84, 100, 58, 209, 86, 146, 191, 84, 92, 185, 224, 155, 110, 99,
       154, 174, 67, 91, 198, 229, 97, 185, 181, 54, 113], rfl⟩
    | bytes => if bytes.getLast? = some 53 then ⟨
        [115, 67, 252, 123, 253, 239, 211, 94, 159, 129, 162, 71, 100, 68, 81, 61, 17, 226, 232, 220, 160,
         160, 116, 17, 32, 219, 227, 84, 29, 44, 13, 82], rfl⟩
      else ⟨
        [21, 193, 190, 232, 91, 217, 210, 89, 243, 127, 55, 231, 4, 187, 162, 9, 246, 44, 65, 114, 149,
         108, 85, 190, 226, 40, 189, 179, 10, 172, 228, 210], rfl⟩

def treesOfPairs : Merkle := Std.ExtTreeMap.ofList [("l", ["x", "y"]), ("r", ["x", "z"])]

theorem merkle_diff_of_pairs : ∃ compared,
    @Merkle.step sha2OfPairs (hostOf []) treesOfPairs "diff" ["l", "r"] =
      some (treesOfPairs, Merkle.answer (differingRanges (["x", "y"].map asBytes) (["x", "z"].map asBytes)) compared) ∧
    (2 = 2 → compared ≤ descentBound 2 (covered (differingRanges (["x", "y"].map asBytes) (["x", "z"].map asBytes)))) :=
  @merkle_diff_exact (hostOf []) sha2OfPairs _ ["l", "r"] "l" "r" ["x", "y"] ["x", "z"] rfl rfl (by decide +kernel)
    (by decide +kernel) (by decide +kernel)

end BuildYourOwn.Sketches
