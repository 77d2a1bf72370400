import Mathlib.Algebra.Ring.Int.Defs
import Mathlib.Algebra.BigOperators.Group.Finset.Basic

/-!
# Sums over the values of a map

A sum over the values of an ordered map is a sum over any finite set that has all its keys, where an
absent key counts as zero (`sumOver_eq`). Putting a value into the map replaces what was counted for
its key (`sumOver_insert`).
-/

namespace BuildYourOwn.Lib

variable {α : Type} [DecidableEq α]

section

variable {β : Type} {cmp : α → α → Ordering} [Std.TransCmp cmp] [Std.LawfulEqCmp cmp]

def sumOver (f : β → Int) (m : Std.ExtTreeMap α β cmp) : Int := (m.toList.map fun e => f e.2).sum

theorem sumOver_eq (f : β → Int) (m : Std.ExtTreeMap α β cmp) (names : Finset α)
    (h : ∀ a ∈ m, a ∈ names) : sumOver f m = ∑ a ∈ names, (m[a]?).elim 0 f := by
  have hvals : (m.toList.map fun e => f e.2) = m.keys.map fun a => (m[a]?).elim 0 f := by
    rw [← Std.ExtTreeMap.map_fst_toList_eq_keys, List.map_map]
    refine List.map_congr_left fun e he => ?_
    have hget : m[e.1]? = some e.2 := Std.ExtTreeMap.mem_toList_iff_getElem?_eq_some.mp he
    rw [Function.comp_apply, hget, Option.elim_some]
  rw [sumOver, hvals, ← List.sum_toFinset _ Std.ExtTreeMap.nodup_keys]
  refine Finset.sum_subset (fun a ha => ?_) fun a _ ha => ?_
  · exact h a (Std.ExtTreeMap.mem_keys.mp (List.mem_toFinset.mp ha))
  · rw [List.mem_toFinset, Std.ExtTreeMap.mem_keys] at ha
    rw [Std.ExtTreeMap.getElem?_eq_none ha, Option.elim_none]

/-- **One value put in the place of another.** -/
theorem sumOver_insert (f : β → Int) (m : Std.ExtTreeMap α β cmp) (k : α) (v : β) :
    sumOver f (m.insert k v) = sumOver f m - (m[k]?).elim 0 f + f v := by
  have hk : k ∈ insert k m.keys.toFinset := Finset.mem_insert_self k _
  have hm : ∀ a ∈ m, a ∈ insert k m.keys.toFinset := fun a ha =>
    Finset.mem_insert_of_mem (List.mem_toFinset.mpr (Std.ExtTreeMap.mem_keys.mpr ha))
  have hins : ∀ a ∈ m.insert k v, a ∈ insert k m.keys.toFinset := by
    intro a ha
    rw [Std.ExtTreeMap.mem_insert, Std.LawfulEqCmp.compare_eq_iff_eq] at ha
    exact ha.elim (fun e => e ▸ hk) (hm a)
  have hrest : ∀ a ∈ (insert k m.keys.toFinset).erase k,
      ((m.insert k v)[a]?).elim 0 f = (m[a]?).elim 0 f := by
    intro a ha
    rw [Std.ExtTreeMap.getElem?_insert, if_neg]
    rw [Std.LawfulEqCmp.compare_eq_iff_eq]
    exact (Finset.ne_of_mem_erase ha).symm
  rw [sumOver_eq f _ _ hins, sumOver_eq f _ _ hm, ← Finset.add_sum_erase _ _ hk,
    ← Finset.add_sum_erase _ (fun a => (m[a]?).elim 0 f) hk, Finset.sum_congr rfl hrest,
    Std.ExtTreeMap.getElem?_insert_self, Option.elim_some]
  omega

end

variable {cmp : α → α → Ordering} [Std.TransCmp cmp] [Std.LawfulEqCmp cmp]

theorem sum_values (m : Std.ExtTreeMap α Int cmp) (names : Finset α) (h : ∀ a ∈ m, a ∈ names) :
    (m.toList.map Prod.snd).sum = ∑ a ∈ names, m.getD a 0 := by
  refine (sumOver_eq (fun x => x) m names h).trans (Finset.sum_congr rfl fun a _ => ?_)
  rw [Std.ExtTreeMap.getD_eq_getD_getElem?]
  cases m[a]? with
  | none => rfl
  | some x => rfl

end BuildYourOwn.Lib
