import Mathlib.Data.List.Sort

/-!
# The first element clockwise, and the best few

* `firstFrom below l`: the first element of a list that is not `below` a place, or the first of all where they all
  are. In a sorted list it is the least element, counted round from the place (`firstFrom_least`), so it stays
  the same in any part of the list that still has it (`firstFrom_of_mem`).
-/

namespace BuildYourOwn.Lib

variable {α : Type} {le : α → α → Prop} {below : α → Prop} [DecidablePred below] {l l' : List α} {a b : α}

/-! ## Clockwise -/

/-- The element at the place where a list stops being `below`, or the first. -/
def firstFrom (below : α → Prop) [DecidablePred below] (l : List α) : Option α :=
  (l[(l.takeWhile (below ·)).length]?).or l.head?

/-- `a` is not behind `b`, counted round from the place. -/
def Clockwise (le : α → α → Prop) (below : α → Prop) (a b : α) : Prop :=
  (¬ below a ∧ below b) ∨ (below a ↔ below b) ∧ le a b

omit [DecidablePred below] in
theorem Clockwise.antisymm (hanti : ∀ a b, le a b → le b a → a = b) (h : Clockwise le below a b)
    (h' : Clockwise le below b a) : a = b := by
  rcases h with ⟨ha, hb⟩ | ⟨hiff, hle⟩
  · rcases h' with ⟨hb', -⟩ | ⟨hiff, -⟩
    · exact absurd hb hb'
    · exact absurd (hiff.mp hb) ha
  · rcases h' with ⟨hb, ha⟩ | ⟨-, hle'⟩
    · exact absurd (hiff.mp ha) hb
    · exact hanti a b hle hle'

theorem firstFrom_eq_none : firstFrom below l = none ↔ l = [] := by
  unfold firstFrom
  rw [Option.or_eq_none_iff, List.head?_eq_none_iff]
  constructor
  · exact And.right
  · rintro rfl
    exact ⟨rfl, rfl⟩

/-- **The first element clockwise** is the least one, counted round from the place. -/
theorem firstFrom_least (hrefl : ∀ a, le a a) (hdown : ∀ a b, le a b → below b → below a) (hsorted : l.Pairwise le)
    (h : firstFrom below l = some a) : a ∈ l ∧ ∀ b ∈ l, Clockwise le below a b := by
  have hsplit : l.takeWhile (below ·) ++ l.dropWhile (below ·) = l := List.takeWhile_append_dropWhile
  have hbelow : ∀ b ∈ l.takeWhile (below ·), below b := fun b hb =>
    of_decide_eq_true (List.all_eq_true.mp List.all_takeWhile b hb)
  have hat : ∀ t d : List α, t ++ d = l → l[t.length]? = d.head? := by
    rintro t d rfl
    rw [List.getElem?_append_right (Nat.le_refl _), Nat.sub_self, List.head?_eq_getElem?]
  unfold firstFrom at h
  rw [hat _ _ hsplit] at h
  cases hrest : l.dropWhile (below ·) with
  | cons c rest =>
    rw [hrest] at h hsplit
    obtain rfl := Option.some.inj h
    have hc : ¬ below c := by
      have hhead := List.head?_dropWhile_not (below ·) l
      rw [hrest] at hhead
      simpa using hhead
    refine ⟨hsplit ▸ List.mem_append_right _ List.mem_cons_self, fun b hb => ?_⟩
    rw [← hsplit] at hb hsorted
    rcases List.mem_append.mp hb with hb | hb
    · exact .inl ⟨hc, hbelow b hb⟩
    · have hle : le c b := by
        rcases List.mem_cons.mp hb with rfl | hb
        · exact hrefl b
        · exact List.rel_of_pairwise_cons (List.pairwise_append.mp hsorted).2.1 hb
      exact .inr ⟨iff_of_false hc fun hb => hc (hdown c b hle hb), hle⟩
  | nil =>
    rw [hrest, List.append_nil] at hsplit
    rw [hrest] at h
    have hall : ∀ b ∈ l, below b := hsplit ▸ hbelow
    cases l with
    | nil => cases h
    | cons c l =>
      obtain rfl := Option.some.inj h
      refine ⟨List.mem_cons_self, fun b hb => .inr ⟨iff_of_true (hall c List.mem_cons_self) (hall b hb), ?_⟩⟩
      rcases List.mem_cons.mp hb with rfl | hb
      · exact hrefl b
      · exact List.rel_of_pairwise_cons hsorted hb

/-- **It stays the first** in any part that still has it. -/
theorem firstFrom_of_mem (hrefl : ∀ a, le a a) (hanti : ∀ a b, le a b → le b a → a = b)
    (hdown : ∀ a b, le a b → below b → below a) (hsorted : l.Pairwise le) (hsorted' : l'.Pairwise le)
    (hsub : ∀ b ∈ l, b ∈ l') (h : firstFrom below l' = some a) (ha : a ∈ l) : firstFrom below l = some a := by
  obtain ⟨-, hleast⟩ := firstFrom_least hrefl hdown hsorted' h
  cases hfirst : firstFrom below l with
  | none =>
    rw [firstFrom_eq_none.mp hfirst] at ha
    cases ha
  | some b =>
    obtain ⟨hb, hleast'⟩ := firstFrom_least hrefl hdown hsorted hfirst
    rw [(hleast b (hsub b hb)).antisymm hanti (hleast' a ha)]

/-! ## The first few -/

/-- **Without one element** the first few are those there were, without it, and the next where it was one. -/
theorem take_filter_ne [DecidableEq α] (hnodup : l.Nodup) (a : α) (k : Nat) :
    (l.filter (· ≠ a)).take k = (l.take k).filter (· ≠ a) ++ if a ∈ l.take k then l[k]?.toList else [] := by
  induction l generalizing k with
  | nil => simp
  | cons b l ih =>
    obtain ⟨hb, hnodup⟩ := List.nodup_cons.mp hnodup
    cases k with
    | zero => simp
    | succ k =>
      by_cases hba : b = a
      · subst hba
        have hne : ∀ c ∈ l, c ≠ b := fun c hc heq => hb (heq ▸ hc)
        have hkeep : ∀ m : List α, (∀ c ∈ m, c ∈ l) → m.filter (· ≠ b) = m := fun m hm =>
          List.filter_eq_self.mpr fun c hc => decide_eq_true (hne c (hm c hc))
        rw [List.filter_cons_of_neg (by simp), hkeep l fun _ => id, List.take_succ_cons,
          List.filter_cons_of_neg (by simp), hkeep _ fun _ => List.mem_of_mem_take, if_pos List.mem_cons_self,
          List.getElem?_cons_succ, List.take_add_one]
      · rw [List.filter_cons_of_pos (by simpa using hba), List.take_succ_cons, ih hnodup, List.take_succ_cons,
          List.filter_cons_of_pos (by simpa using hba), List.getElem?_cons_succ, List.cons_append]
        simp only [List.mem_cons, Ne.symm hba, false_or]

theorem filter_sort [DecidableRel le] [Std.Total le] [IsTrans α le] (hanti : ∀ a b, le a b → le b a → a = b)
    (p : α → Bool) (l : List α) : (l.filter p).insertionSort le = (l.insertionSort le).filter p := by
  refine List.Perm.eq_of_pairwise (fun a b _ _ => hanti a b) (List.pairwise_insertionSort _ _)
    ((List.pairwise_insertionSort _ _).filter p) ?_
  exact (List.perm_insertionSort _ _).trans ((List.perm_insertionSort _ _).filter p).symm

end BuildYourOwn.Lib
