import Mathlib.Data.List.Perm.Subperm

/-!
# Maps keyed by words, and sets of positions

`BTreeMap<String, V>` of the topics is `Std.ExtTreeMap` over strings: Rust and Lean order strings
the same way, two maps with the same entries are equal, and `toList` is in key order. So is
`BTreeMap<i64, V>` with `Std.ExtTreeMap` over integers, `BTreeSet<usize>` with `Std.ExtTreeSet`
over numbers, and a map or a set over pairs of strings with the lexicographic order.
-/

namespace BuildYourOwn.Topic

/-- `BTreeMap<String, V>`. -/
abbrev StringMap (β : Type) := Std.ExtTreeMap String β

namespace StringMap

variable {β : Type} (m : StringMap β) (k a : String) (v : β)

theorem get_insert : (m.insert k v)[a]? = if k = a then some v else m[a]? := by
  rw [Std.ExtTreeMap.getElem?_insert]
  simp only [Std.compare_eq_iff_eq]

@[simp] theorem get_insert_self : (m.insert k v)[k]? = some v := by
  rw [get_insert, if_pos rfl]

theorem getD_insert (d : β) : (m.insert k v).getD a d = if k = a then v else m.getD a d := by
  rw [Std.ExtTreeMap.getD_insert]
  simp only [Std.compare_eq_iff_eq]

theorem get_erase : (m.erase k)[a]? = if k = a then none else m[a]? := by
  rw [Std.ExtTreeMap.getElem?_erase]
  simp only [Std.compare_eq_iff_eq]

/-! ## One key after another -/

/-- Inserting `f k` at every key of a list. -/
theorem get_foldl_insert (f : String → β) (ks : List String) (m : StringMap β) :
    (ks.foldl (fun m k => m.insert k (f k)) m)[a]? = if a ∈ ks then some (f a) else m[a]? := by
  induction ks generalizing m with
  | nil => simp
  | cons k ks ih =>
    rw [List.foldl_cons, ih, get_insert]
    by_cases hks : a ∈ ks
    · rw [if_pos hks, if_pos (List.mem_cons_of_mem k hks)]
    · by_cases hk : k = a
      · rw [if_neg hks, if_pos hk, if_pos (hk ▸ List.mem_cons_self), hk]
      · rw [if_neg hks, if_neg hk, if_neg (by simpa [hks] using Ne.symm hk)]

theorem get_foldl_erase (ks : List String) (m : StringMap β) :
    (ks.foldl (fun m k => m.erase k) m)[a]? = if a ∈ ks then none else m[a]? := by
  induction ks generalizing m with
  | nil => simp
  | cons k ks ih =>
    rw [List.foldl_cons, ih, get_erase]
    by_cases hks : a ∈ ks
    · rw [if_pos hks, if_pos (List.mem_cons_of_mem k hks)]
    · by_cases hk : k = a
      · rw [if_neg hks, if_pos hk, if_pos (hk ▸ List.mem_cons_self)]
      · rw [if_neg hks, if_neg hk, if_neg (by simpa [hks] using Ne.symm hk)]

variable {m k a v}

theorem mem_keys : a ∈ m.keys ↔ ∃ v, m[a]? = some v := by
  rw [Std.ExtTreeMap.mem_keys, ← Std.ExtTreeMap.isSome_getElem?_iff_mem,
    Option.isSome_iff_exists]

theorem mem_iff : a ∈ m ↔ ∃ v, m[a]? = some v := by
  rw [← Std.ExtTreeMap.isSome_getElem?_iff_mem, Option.isSome_iff_exists]

theorem mem_toList {p : String × β} : p ∈ m.toList ↔ m[p.1]? = some p.2 :=
  Std.ExtTreeMap.mem_toList_iff_getElem?_eq_some

/-- **One map folded into another**, when each entry changes what is under its own key. -/
theorem get_foldl_toList {γ : Type} {g : StringMap β → String × γ → StringMap β} {h : Option β → γ → β}
    (hg : ∀ m e (a : String), (g m e)[a]? = if e.1 = a then some (h m[a]? e.2) else m[a]?)
    (t : StringMap γ) (m : StringMap β) (a : String) : (t.toList.foldl g m)[a]? =
      match t[a]? with
      | some x => some (h m[a]? x)
      | none => m[a]? := by
  have hout : ∀ (l : List (String × γ)) (m : StringMap β), a ∉ l.map Prod.fst →
      (l.foldl g m)[a]? = m[a]? := by
    intro l
    induction l with
    | nil => exact fun _ _ => rfl
    | cons e l ih =>
      intro m ha
      obtain ⟨hne, hmem⟩ := not_or.mp (mt List.mem_cons.mpr ha)
      rw [List.foldl_cons, ih _ hmem, hg, if_neg (Ne.symm hne)]
  have hin : ∀ (l : List (String × γ)) (m : StringMap β) (x : γ), (l.map Prod.fst).Nodup →
      (a, x) ∈ l → (l.foldl g m)[a]? = some (h m[a]? x) := by
    intro l
    induction l with
    | nil => exact fun _ _ _ hx => absurd hx List.not_mem_nil
    | cons e l ih =>
      intro m x hnodup hx
      obtain ⟨hnot, hnodup⟩ := List.nodup_cons.mp hnodup
      rw [List.foldl_cons]
      rcases List.mem_cons.mp hx with rfl | hx
      · rw [hout l _ hnot, hg, if_pos rfl]
      · have hne : e.1 ≠ a := fun heq => hnot (List.mem_map.mpr ⟨_, hx, heq.symm⟩)
        rw [ih _ x hnodup hx, hg, if_neg hne]
  have hkeys : t.toList.map Prod.fst = t.keys := Std.ExtTreeMap.map_fst_toList_eq_keys
  cases ha : t[a]? with
  | some x => exact hin _ m x (hkeys ▸ Std.ExtTreeMap.nodup_keys) (mem_toList.mpr ha)
  | none =>
    refine hout _ m fun hmem => ?_
    rw [hkeys] at hmem
    obtain ⟨x, hx⟩ := mem_keys.mp hmem
    cases ha.symm.trans hx

/-- `BTreeMap::values`, in key order. -/
def vals (m : StringMap β) : List β := m.toList.map Prod.snd

theorem mem_vals : v ∈ vals m ↔ ∃ k : String, m[k]? = some v := by
  unfold vals
  rw [List.mem_map]
  constructor
  · rintro ⟨p, hp, rfl⟩
    exact ⟨p.1, mem_toList.mp hp⟩
  · rintro ⟨k, hk⟩
    exact ⟨(k, v), mem_toList.mpr hk, rfl⟩

theorem exists_of_size {ks : List String} (hkey : ∀ (a : String) v, m[a]? = some v → a ∈ ks)
    (hsize : m.size = ks.length) : ∀ a ∈ ks, ∃ v, m[a]? = some v := by
  have hsub : m.keys ⊆ ks := by
    intro a ha
    obtain ⟨v, hv⟩ := mem_keys.mp ha
    exact hkey a v hv
  have hperm := (List.subperm_of_subset Std.ExtTreeMap.nodup_keys hsub).perm_of_length_le
    (Nat.le_of_eq (by rw [Std.ExtTreeMap.length_keys, hsize]))
  intro a ha
  exact mem_keys.mp (hperm.mem_iff.mpr ha)

theorem insert_eq_self_iff : m.insert k v = m ↔ m[k]? = some v := by
  constructor
  · intro h
    rw [← h, get_insert_self]
  · intro h
    refine Std.ExtTreeMap.ext_getElem? fun a => ?_
    rw [get_insert]
    split
    · rename_i hk
      rw [← hk, h]
    · rfl

/-- `m'` has an entry for every one of `m`, which `r` puts above it. -/
def Below (r : β → β → Prop) (m m' : StringMap β) : Prop :=
  ∀ (k : String) v, m[k]? = some v → ∃ v', m'[k]? = some v' ∧ r v v'

variable {r : β → β → Prop}

theorem below_refl (hr : ∀ v, r v v) (m : StringMap β) : Below r m m :=
  fun _ v hv => ⟨v, hv, hr v⟩

theorem below_trans (hr : ∀ u v w, r u v → r v w → r u w) {m m' m'' : StringMap β}
    (h : Below r m m') (h' : Below r m' m'') : Below r m m'' := by
  intro k u hu
  obtain ⟨v, hv, huv⟩ := h k u hu
  obtain ⟨w, hw, hvw⟩ := h' k v hv
  exact ⟨w, hw, hr u v w huv hvw⟩

theorem below_antisymm (hr : ∀ v w, r v w → r w v → v = w) {m m' : StringMap β}
    (h : Below r m m') (h' : Below r m' m) : m = m' := by
  refine Std.ExtTreeMap.ext_getElem? fun k => ?_
  cases hk : m[k]? with
  | some v =>
    obtain ⟨w, hw, hvw⟩ := h k v hk
    obtain ⟨v', hv', hwv⟩ := h' k w hw
    obtain rfl := Option.mem_unique hk hv'
    rw [hw, hr v w hvw hwv]
  | none =>
    cases hk' : m'[k]? with
    | none => rfl
    | some w =>
      obtain ⟨v, hv, -⟩ := h' k w hk'
      cases hk.symm.trans hv

theorem below_insert (hr : ∀ v, r v v) (h : ∀ w, m[k]? = some w → r w v) : Below r m (m.insert k v) := by
  intro a w hw
  rw [get_insert]
  split
  · rename_i hk
    exact ⟨v, rfl, h w (hk ▸ hw)⟩
  · exact ⟨w, hw, hr w⟩

end StringMap

/-- `BTreeSet<String>`. -/
abbrev StringSet := Std.ExtTreeSet String

namespace StringSet

variable {t : StringSet} {k a : String}

theorem mem_insert : a ∈ t.insert k ↔ a = k ∨ a ∈ t := by
  rw [Std.ExtTreeSet.mem_insert, Std.compare_eq_iff_eq, eq_comm]

theorem mem_toList : a ∈ t.toList ↔ a ∈ t := Std.ExtTreeSet.mem_toList

def extend (t : StringSet) (l : List String) : StringSet := l.foldl (fun t a => t.insert a) t

theorem mem_extend {l : List String} : a ∈ t.extend l ↔ a ∈ t ∨ a ∈ l := by
  unfold extend
  induction l generalizing t with
  | nil => exact ⟨.inl, fun h => h.resolve_right List.not_mem_nil⟩
  | cons b l ih => rw [List.foldl_cons, ih, mem_insert, List.mem_cons, or_assoc, or_left_comm]

theorem ext_mem {t' : StringSet} (h : ∀ a, a ∈ t ↔ a ∈ t') : t = t' := Std.ExtTreeSet.ext_mem h

end StringSet

/-- `BTreeMap<i64, V>`. -/
abbrev IntMap (β : Type) := Std.ExtTreeMap Int β

namespace IntMap

variable {β : Type} (m : IntMap β) (k a : Int) (v : β)

theorem get_insert : (m.insert k v)[a]? = if k = a then some v else m[a]? := by
  rw [Std.ExtTreeMap.getElem?_insert]
  simp only [Std.compare_eq_iff_eq]

end IntMap

def comparePairs : String × String → String × String → Ordering :=
  compareLex (compareOn Prod.fst) (compareOn Prod.snd)

instance : Std.TransCmp comparePairs := inferInstanceAs (Std.TransCmp (compareLex _ _))

instance : Std.LawfulEqCmp comparePairs where
  eq_of_compare h := by
    obtain ⟨h₁, h₂⟩ := Ordering.then_eq_eq.mp h
    exact Prod.ext (Std.LawfulEqCmp.eq_of_compare h₁) (Std.LawfulEqCmp.eq_of_compare h₂)

/-- `BTreeMap<(String, String), V>`. -/
abbrev PairMap (β : Type) := Std.ExtTreeMap (String × String) β comparePairs

namespace PairMap

variable {β : Type} (m : PairMap β) (k a : String × String) (v : β)

theorem get_insert : (m.insert k v)[a]? = if k = a then some v else m[a]? := by
  rw [Std.ExtTreeMap.getElem?_insert]
  simp only [Std.LawfulEqCmp.compare_eq_iff_eq]

theorem getD_insert (d : β) : (m.insert k v).getD a d = if k = a then v else m.getD a d := by
  rw [Std.ExtTreeMap.getD_insert]
  simp only [Std.LawfulEqCmp.compare_eq_iff_eq]

end PairMap

/-- `BTreeSet<(String, String)>`. -/
abbrev PairSet := Std.ExtTreeSet (String × String) comparePairs

theorem PairSet.mem_insert {t : PairSet} {k a : String × String} : a ∈ t.insert k ↔ a = k ∨ a ∈ t := by
  rw [Std.ExtTreeSet.mem_insert, Std.LawfulEqCmp.compare_eq_iff_eq, eq_comm]

/-- `BTreeSet<usize>`. -/
abbrev IndexSet := Std.ExtTreeSet Nat

namespace IndexSet

variable {t : IndexSet} {k a : Nat}

theorem mem_insert : a ∈ t.insert k ↔ a = k ∨ a ∈ t := by
  rw [Std.ExtTreeSet.mem_insert, Std.compare_eq_iff_eq, eq_comm]

theorem mem_erase : a ∈ t.erase k ↔ a ≠ k ∧ a ∈ t := by
  rw [Std.ExtTreeSet.mem_erase, ne_eq, Std.compare_eq_iff_eq, ne_eq, eq_comm]

theorem mem_ofList {l : List Nat} : a ∈ Std.ExtTreeSet.ofList l ↔ a ∈ l := by
  rw [Std.ExtTreeSet.mem_ofList, List.contains_iff_mem]

theorem mem_toList : a ∈ t.toList ↔ a ∈ t := Std.ExtTreeSet.mem_toList

theorem not_mem_empty : a ∉ (∅ : IndexSet) := Std.ExtTreeSet.not_mem_empty

end IndexSet

end BuildYourOwn.Topic
