import Mathlib.Algebra.Order.Group.Nat
import Mathlib.Data.List.Sort

/-!
# Tables

* Rows of one width, one after another: where a row is (`drop_rows`), and what cutting the rows apart gives
  (`chunks_rows`).
-/

namespace BuildYourOwn.Lib

variable {α β : Type}

/-! ## Numbered entries -/

def byNumber (entries : List (Nat × α)) : List (Nat × α) := entries.insertionSort fun x y => x.1 ≤ y.1

theorem byNumber_perm (entries : List (Nat × α)) : (byNumber entries).Perm entries :=
  List.perm_insertionSort _ _

theorem byNumber_sorted (entries : List (Nat × α)) : (byNumber entries).Pairwise fun x y => x.1 ≤ y.1 := by
  have : Std.Total fun x y : Nat × α => x.1 ≤ y.1 := ⟨fun x y => Nat.le_total x.1 y.1⟩
  have : IsTrans (Nat × α) fun x y => x.1 ≤ y.1 := ⟨fun _ _ _ => Nat.le_trans⟩
  exact List.pairwise_insertionSort _ _

theorem byNumber_eq {entries : List (Nat × α)} {l : List α} (h : entries.Perm (l.zipIdx.map Prod.swap)) :
    byNumber entries = l.zipIdx.map Prod.swap := by
  have hnumbers : (l.zipIdx.map Prod.swap).map Prod.fst = List.range l.length := by
    rw [List.map_map, List.range_eq_range', ← List.zipIdx_map_snd 0 l]
    rfl
  have hsorted : (l.zipIdx.map Prod.swap).Pairwise fun x y => x.1 ≤ y.1 := by
    rw [← List.pairwise_map, hnumbers]
    exact List.pairwise_lt_range.imp Nat.le_of_lt
  have hperm := (byNumber_perm entries).trans h
  refine hperm.eq_of_pairwise (fun x y hx hy hxy hyx => ?_) (byNumber_sorted entries) hsorted
  -- two entries of one number are the same element
  obtain ⟨⟨a, i⟩, ha, rfl⟩ := List.mem_map.mp (hperm.mem_iff.mp hx)
  obtain ⟨⟨c, j⟩, hc, rfl⟩ := List.mem_map.mp hy
  obtain rfl : i = j := Nat.le_antisymm hxy hyx
  have ha : l[i]? = some a := List.mem_zipIdx_iff_getElem?.mp ha
  have hc : l[i]? = some c := List.mem_zipIdx_iff_getElem?.mp hc
  obtain rfl := Option.mem_unique ha hc
  rfl

theorem nodup_of_byNumber {entries : List (Nat × α)} {n : Nat} (h : (byNumber entries).map Prod.fst = List.range n) :
    (entries.map Prod.fst).Nodup := by
  have hperm := (byNumber_perm entries).map Prod.fst
  rw [h] at hperm
  exact hperm.nodup_iff.mp List.nodup_range

theorem map_numbered {γ : Type} {number : γ → Nat} {f : γ → α} {l : List γ} {k : Nat}
    (h : l.map number = List.range' k l.length) :
    l.map (fun c => (number c, f c)) = ((l.map f).zipIdx k).map Prod.swap := by
  induction l generalizing k with
  | nil => rfl
  | cons c l ih =>
    rw [List.map_cons, List.length_cons, List.range'_succ] at h
    obtain ⟨hc, hl⟩ := List.cons.inj h
    rw [List.map_cons, List.map_cons, List.zipIdx_cons, List.map_cons, ih hl, hc]
    rfl

/-! ## Rows of one width -/

variable {enc : α → List β} {w : Nat}

variable {rows : List α}

theorem length_rows (hw : ∀ a ∈ rows, (enc a).length = w) : (rows.flatMap enc).length = w * rows.length := by
  induction rows with
  | nil => rfl
  | cons a rows ih =>
    obtain ⟨ha, hrows⟩ := List.forall_mem_cons.mp hw
    rw [List.flatMap_cons, List.length_append, ha, ih hrows, List.length_cons, Nat.mul_succ, Nat.add_comm]

theorem drop_rows (hw : ∀ a ∈ rows, (enc a).length = w) (i : Nat) :
    (rows.flatMap enc).drop (w * i) = (rows.drop i).flatMap enc := by
  induction rows generalizing i with
  | nil => rw [List.drop_nil, List.flatMap_nil, List.drop_nil]
  | cons a rows ih =>
    obtain ⟨ha, hrows⟩ := List.forall_mem_cons.mp hw
    cases i with
    | zero => rfl
    | succ i =>
      have hlength : w * (i + 1) = (enc a).length + w * i := by rw [ha, Nat.mul_succ, Nat.add_comm]
      rw [List.flatMap_cons, hlength, ← List.drop_drop, List.drop_left, ih hrows, List.drop_succ_cons]

theorem drop_row (hw : ∀ a ∈ rows, (enc a).length = w) {i : Nat} {a : α} (ha : rows[i]? = some a) :
    ∃ rest, (rows.flatMap enc).drop (w * i) = enc a ++ rest := by
  obtain ⟨hi, rfl⟩ := List.getElem?_eq_some_iff.mp ha
  exact ⟨(rows.drop (i + 1)).flatMap enc, by rw [drop_rows hw, List.drop_eq_getElem_cons hi, List.flatMap_cons]⟩

/-- `slice::chunks`: pieces of `n` elements, of which the last may be shorter. -/
def chunks (n : Nat) (l : List β) : List (List β) :=
  (List.range ((l.length + n - 1) / n)).map fun i => (l.drop (n * i)).take n

/-- **Rows are cut apart.** -/
theorem chunks_rows (hw : ∀ a ∈ rows, (enc a).length = w) (hpos : 0 < w) :
    chunks w (rows.flatMap enc) = rows.map enc := by
  have hcount : ((rows.flatMap enc).length + w - 1) / w = rows.length := by
    rw [length_rows hw, Nat.add_sub_assoc hpos, Nat.mul_add_div hpos, Nat.div_eq_of_lt (Nat.sub_one_lt_of_lt hpos),
      Nat.add_zero]
  unfold chunks
  rw [hcount]
  refine List.ext_getElem (by rw [List.length_map, List.length_map, List.length_range]) fun i hi hi' => ?_
  have hlt : i < rows.length := by rwa [List.length_map] at hi'
  have hrow : rows[i]? = some rows[i] := List.getElem?_eq_getElem hlt
  obtain ⟨rest, hrest⟩ := drop_row hw hrow
  rw [List.getElem_map, List.getElem_map, List.getElem_range, hrest, List.take_left' (hw _ (List.getElem_mem _))]

theorem drop_field {b field rest : List β} {i j n : Nat} (h : b.drop i = field ++ rest) (hn : field.length = n)
    (hj : i + n = j) : b.drop j = rest := by
  rw [← hj, ← List.drop_drop, h, List.drop_left' hn]

end BuildYourOwn.Lib
