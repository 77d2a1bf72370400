import BuildYourOwn.Clocks.Clock
import BuildYourOwn.Lib.Frontier

/-!
# `version-vector`: siblings

Model of `Sibling`, `normalize` and `VersionVectors` in `disttest/examples/prim/clocks.rs`: each
replica keeps, per key, the values that no other value there is known to replace.

* `put` stamps a value with everything the replica holds for the key, one higher at the replica.
  `put-ctx` stamps it with the context that came with it, one higher at the replica.
* Siblings are sorted by value and then by vector, as Rust compares pairs and maps. The sort is
  stable, so it is written as an insertion sort.
* `sync` visits its keys in order; no two visits touch the same entry.
* An increment panics when the count leaves `i64`.
-/

namespace BuildYourOwn.Clocks

open Lib Topic Clock

/-- `Sibling`: one value, and the vector of the write that produced it. -/
structure Sibling where
  value : String
  vv : Clock
  deriving DecidableEq

namespace Sibling

/-- `relation(&s.vv, &t.vv) == "before"`. -/
def before (s t : Sibling) : Bool := decide (relation s.vv t.vv = .before)

def compareEntries : String × Int → String × Int → Ordering :=
  compareLex (compareOn Prod.fst) (compareOn Prod.snd)

def compareClocks (a b : Clock) : Ordering := List.compareLex compareEntries a.toList b.toList

/-- `(&a.value, &a.vv).cmp(&(&b.value, &b.vv))`. -/
def cmp (a b : Sibling) : Ordering := (compare a.value b.value).then (compareClocks a.vv b.vv)

def Sorted (a b : Sibling) : Prop := (cmp a b).isLE = true

instance : DecidableRel Sorted := fun a b => inferInstanceAs (Decidable ((cmp a b).isLE = true))

/-- `a.value == b.value && a.vv == b.vv`. -/
def same (a b : Sibling) : Bool := decide (a.value = b.value) && decide (a.vv = b.vv)

/-! The sorting order is a total order, and `before` a strict one. -/

instance : Std.TransCmp compareEntries := inferInstanceAs (Std.TransCmp (compareLex _ _))

instance : Std.TransCmp compareClocks where
  eq_swap {a b} := @Std.OrientedCmp.eq_swap _ (List.compareLex compareEntries) _ a.toList b.toList
  isLE_trans {a b c} :=
    @Std.TransCmp.isLE_trans _ (List.compareLex compareEntries) _ a.toList b.toList c.toList

instance : Std.LawfulEqCmp compareEntries where
  eq_of_compare h := by
    obtain ⟨h₁, h₂⟩ := Ordering.then_eq_eq.mp h
    exact Prod.ext (Std.LawfulEqCmp.eq_of_compare h₁) (Std.LawfulEqCmp.eq_of_compare h₂)

theorem cmp_swap (a b : Sibling) : cmp a b = (cmp b a).swap := by
  have hvalue : compare a.value b.value = (compare b.value a.value).swap := Std.OrientedCmp.eq_swap
  have hclock : compareClocks a.vv b.vv = (compareClocks b.vv a.vv).swap := Std.OrientedCmp.eq_swap
  rw [cmp, cmp, hvalue, hclock, Ordering.swap_then]

theorem eq_of_cmp {a b : Sibling} (h : cmp a b = .eq) : a = b := by
  obtain ⟨hvalue, hclock⟩ := Ordering.then_eq_eq.mp h
  obtain ⟨value, vv⟩ := a
  obtain ⟨value', vv'⟩ := b
  obtain rfl : value = value' := Std.LawfulEqCmp.eq_of_compare hvalue
  obtain rfl : vv = vv' := Std.ExtTreeMap.toList_inj.mp (Std.LawfulEqCmp.eq_of_compare hclock)
  rfl

instance : Std.Total Sorted where
  total a b := by
    unfold Sorted
    rw [cmp_swap b a, Ordering.isLE_swap]
    cases cmp a b <;> simp

theorem sorted_antisymm (a b : Sibling) (hab : Sorted a b) (hba : Sorted b a) : a = b := by
  unfold Sorted at hab hba
  rw [cmp_swap b a] at hba
  refine eq_of_cmp ?_
  cases h : cmp a b with
  | eq => rfl
  | lt => rw [h] at hba; cases hba
  | gt => rw [h] at hab; cases hab

instance : IsTrans Sibling Sorted where
  trans a b c hab hbc := by
    unfold Sorted cmp at *
    rw [Ordering.isLE_then_iff_or] at *
    rcases hab with hab | ⟨hab, hab'⟩ <;> rcases hbc with hbc | ⟨hbc, hbc'⟩
    · exact .inl (Std.TransCmp.lt_trans hab hbc)
    · exact .inl (Std.LawfulEqCmp.eq_of_compare hbc ▸ hab)
    · exact .inl (Std.LawfulEqCmp.eq_of_compare hab ▸ hbc)
    · rw [Std.LawfulEqCmp.eq_of_compare hab, Std.LawfulEqCmp.eq_of_compare hbc]
      exact .inr ⟨Std.ReflCmp.compare_self, Std.TransCmp.isLE_trans hab' hbc'⟩

theorem same_eq {a b : Sibling} (h : same a b = true) : a = b := by
  obtain ⟨hvalue, hvv⟩ := Bool.and_eq_true_iff.mp h
  cases a
  cases b
  exact congrArg₂ Sibling.mk (of_decide_eq_true hvalue) (of_decide_eq_true hvv)

theorem before_iff {s t : Sibling} : before s t = true ↔ Le s.vv t.vv ∧ ¬ Le t.vv s.vv := by
  rw [before, decide_eq_true_iff, relation_eq_before]

theorem before_irrefl (s : Sibling) : before s s = false := by
  rw [Bool.eq_false_iff, ne_eq, before_iff]
  exact fun h => h.2 h.1

theorem before_trans (s t u : Sibling) (hst : before s t = true) (htu : before t u = true) : before s u = true := by
  rw [before_iff] at *
  exact ⟨hst.1.trans htu.1, fun hus => hst.2 (htu.1.trans hus)⟩

end Sibling

def normalize (siblings : List Sibling) : List Sibling :=
  normal Sibling.before Sibling.Sorted Sibling.same siblings

section Normalize

variable {l l₁ l₂ : List Sibling} {x y : Sibling}

theorem mem_normalize : x ∈ normalize l ↔ x ∈ l ∧ ∀ y ∈ l, x.before y = false := by
  rw [normalize, mem_normal (fun _ _ => Sibling.same_eq), mem_frontier]

theorem normalize_undominated (hx : x ∈ normalize l) (hy : y ∈ normalize l) : x.before y = false :=
  normal_undominated (fun _ _ => Sibling.same_eq) hx hy

theorem exists_after (hx : x ∈ l) (hdropped : x ∉ normalize l) : ∃ y ∈ normalize l, x.before y = true := by
  unfold normalize at *
  simp only [mem_normal (fun _ _ => Sibling.same_eq)] at *
  exact (exists_above Sibling.before_irrefl Sibling.before_trans hx).resolve_left hdropped

theorem normalize_perm (h : l₁.Perm l₂) : normalize l₁ = normalize l₂ :=
  normal_perm Sibling.sorted_antisymm h

theorem normalize_idem : normalize (normalize l) = normalize l :=
  normal_idem fun _ _ => Sibling.same_eq

end Normalize

/-- `VersionVectors`: the siblings of each key, per replica. -/
abbrev VersionVectors := StringMap (StringMap (List Sibling))

namespace VersionVectors

def slot (s : VersionVectors) (replica key : String) : List Sibling := (s.getD replica ∅).getD key []

def setSlot (s : VersionVectors) (replica key : String) (siblings : List Sibling) : VersionVectors :=
  s.insert replica ((s.getD replica ∅).insert key siblings)

/-- `write`, of a value whose vector is `seen` advanced by one at the replica. -/
def write (s : VersionVectors) (replica key value : String) (seen : Clock) : Handled VersionVectors :=
  (seen.bump replica).map fun vv =>
    (s.setSlot replica key (normalize (s.slot replica key ++ [⟨value, vv⟩])),
      .obj [("vv", vv.json)])

def seen (siblings : List Sibling) : Clock := siblings.foldl (fun vv s => mergeInto vv s.vv) ∅

def read (s : VersionVectors) (replica key : String) : VersionVectors × Value :=
  let siblings := normalize (s.slot replica key)
  (s.setSlot replica key siblings,
    .obj [("siblings", .arr (siblings.map fun s => .obj [("value", .str s.value), ("vv", s.vv.json)]))])

/-- The keys that `sync` visits. -/
def syncKeys (left right : StringMap (List Sibling)) : List String :=
  dropRuns (· == ·) ((left.keys ++ right.keys).insertionSort (· ≤ ·))

/-- What `sync` makes of two replicas. -/
def merged (left right : StringMap (List Sibling)) : StringMap (List Sibling) :=
  (syncKeys left right).foldl
    (fun m key => m.insert key (normalize (left.getD key [] ++ right.getD key []))) ∅

def sync (s : VersionVectors) (a b : String) : VersionVectors :=
  let m := merged (s.getD a ∅) (s.getD b ∅)
  (s.insert a m).insert b m

def step [Host] (s : VersionVectors) (command : String) (args : List String) :
    Handled VersionVectors :=
  match command with
  | "put" => arg s (word args 0) fun replica => arg s (word args 1) fun key =>
    arg s (word args 2) fun value => s.write replica key value (seen (s.slot replica key))
  | "put-ctx" => arg s (word args 0) fun replica => arg s (word args 1) fun key =>
    arg s (word args 2) fun value => arg s (clockArg args 3) fun vv => s.write replica key value vv
  | "read" => arg s (word args 0) fun replica => arg s (word args 1) fun key =>
    some (s.read replica key)
  | "sync" => arg s (word args 0) fun a => arg s (word args 1) fun b =>
    some (s.sync a b, .obj [("ok", .bool true)])
  | other => some (s, err ("unknown command " ++ debugStr other))

/-! ## What the operations do to one slot -/

variable {s : VersionVectors} {r r' k k' a b : String} {l : List Sibling}

theorem slot_setSlot : slot (s.setSlot r k l) r' k' = if r = r' ∧ k = k' then l else s.slot r' k' := by
  unfold setSlot slot
  rw [StringMap.getD_insert]
  by_cases hr : r = r'
  · subst hr
    rw [if_pos rfl, StringMap.getD_insert]
    by_cases hk : k = k'
    · rw [if_pos hk, if_pos ⟨rfl, hk⟩]
    · rw [if_neg hk, if_neg fun h => hk h.2]
  · rw [if_neg hr, if_neg fun h => hr h.1]

theorem mem_syncKeys {left right : StringMap (List Sibling)} :
    k ∈ syncKeys left right ↔ k ∈ left.keys ++ right.keys := by
  rw [syncKeys, mem_dropRuns (fun _ _ => eq_of_beq), List.mem_insertionSort]

theorem merged_getD {left right : StringMap (List Sibling)} :
    (merged left right).getD k [] = normalize (left.getD k [] ++ right.getD k []) := by
  have hget := StringMap.get_foldl_insert (a := k)
    (fun key => normalize (left.getD key [] ++ right.getD key [])) (syncKeys left right) ∅
  unfold merged
  rw [Std.ExtTreeMap.getD_eq_getD_getElem?, hget]
  split_ifs with hk
  · rfl
  · rw [mem_syncKeys, List.mem_append, not_or, StringMap.mem_keys, StringMap.mem_keys, not_exists,
      not_exists] at hk
    rw [Std.ExtTreeMap.getD_eq_getD_getElem?, Std.ExtTreeMap.getD_eq_getD_getElem?,
      Option.eq_none_iff_forall_ne_some.mpr hk.1, Option.eq_none_iff_forall_ne_some.mpr hk.2]
    rfl

theorem slot_sync : slot (s.sync a b) r k =
    if r = a ∨ r = b then normalize (s.slot a k ++ s.slot b k) else s.slot r k := by
  unfold sync
  unfold slot
  rw [StringMap.getD_insert, StringMap.getD_insert]
  by_cases hb : b = r
  · rw [if_pos hb, if_pos (.inr hb.symm), merged_getD]
  · by_cases ha : a = r
    · rw [if_neg hb, if_pos ha, if_pos (.inl ha.symm), merged_getD]
    · rw [if_neg hb, if_neg ha, if_neg (by tauto)]

end VersionVectors

end BuildYourOwn.Clocks
