import Mathlib.Data.List.Sort

/-!
# The undominated elements of a list

`frontier lt l` keeps what nothing in `l` is above. Over a strict order every element of `l` is kept or
below one that is (`exists_above`). `dropRuns` removes what repeats its predecessor, as Rust's
`Vec::dedup_by` does. Sorted, both give one list for one set of elements (`normal`).
-/

namespace BuildYourOwn.Lib

variable {α : Type} {l l₁ l₂ : List α} {a b x y : α}

/-! ## The frontier -/

def frontier (lt : α → α → Bool) (l : List α) : List α :=
  l.filter fun x => !l.any fun y => lt x y

variable {lt : α → α → Bool}

theorem mem_frontier : x ∈ frontier lt l ↔ x ∈ l ∧ ∀ y ∈ l, lt x y = false := by
  simp only [frontier, List.mem_filter, Bool.not_eq_true', List.any_eq_false, Bool.not_eq_true]

theorem frontier_eq_self (h : ∀ x ∈ l, ∀ y ∈ l, lt x y = false) : frontier lt l = l := by
  refine List.filter_eq_self.mpr fun x hx => ?_
  simp only [Bool.not_eq_true', List.any_eq_false, Bool.not_eq_true]
  exact h x hx

theorem frontier_perm (h : l₁.Perm l₂) : (frontier lt l₁).Perm (frontier lt l₂) := by
  unfold frontier
  have heq : (fun x => !l₁.any fun y => lt x y) = fun x => !l₂.any fun y => lt x y := by
    funext x
    rw [h.any_eq]
  rw [heq]
  exact h.filter _

/-- **Every element is kept or below one that is.** -/
theorem exists_above (hirrefl : ∀ x, lt x x = false)
    (htrans : ∀ x y z, lt x y = true → lt y z = true → lt x z = true) (hx : x ∈ l) :
    x ∈ frontier lt l ∨ ∃ y ∈ frontier lt l, lt x y = true := by
  -- there are fewer elements above an element that is above `x`
  induction hn : (l.filter (lt x)).length using Nat.strong_induction_on generalizing x with
  | _ n ih =>
    by_cases htop : ∀ y ∈ l, lt x y = false
    · exact .inl (mem_frontier.mpr ⟨hx, htop⟩)
    push Not at htop
    obtain ⟨y, hy, hxy⟩ := htop
    replace hxy := Bool.eq_true_of_not_eq_false hxy
    have hsub : (l.filter (lt y)).Sublist (l.filter (lt x)) :=
      List.monotone_filter_right l fun z hyz => htrans x y z hxy hyz
    have hlt : (l.filter (lt y)).length < n := by
      rw [← hn]
      refine Nat.lt_of_le_of_ne hsub.length_le fun heq => ?_
      have hmem : y ∈ l.filter (lt y) :=
        hsub.eq_of_length heq ▸ List.mem_filter.mpr ⟨hy, hxy⟩
      exact absurd ((List.mem_filter.mp hmem).2.symm.trans (hirrefl y)) (by decide)
    rcases ih _ hlt hy rfl with hfront | ⟨z, hz, hyz⟩
    · exact .inr ⟨y, hfront, hxy⟩
    · exact .inr ⟨z, hz, htrans x y z hxy hyz⟩

/-! ## Dropping repeats -/

/-- What follows a retained element: the next one that differs from it, and so on. -/
def dropSame (same : α → α → Bool) : α → List α → List α
  | _, [] => []
  | kept, b :: l => if same b kept then dropSame same kept l else b :: dropSame same b l

/-- `Vec::dedup_by`: of consecutive elements that are the same, the first. -/
def dropRuns (same : α → α → Bool) : List α → List α
  | [] => []
  | a :: l => a :: dropSame same a l

variable {same : α → α → Bool}

theorem dropSame_sublist (same : α → α → Bool) (a : α) (l : List α) : (dropSame same a l).Sublist l := by
  induction l generalizing a with
  | nil => exact List.Sublist.slnil
  | cons b l ih =>
    unfold dropSame
    split
    · exact (ih a).cons b
    · exact (ih b).cons_cons b

theorem dropRuns_sublist (same : α → α → Bool) (l : List α) : (dropRuns same l).Sublist l := by
  cases l with
  | nil => exact List.Sublist.slnil
  | cons a l => exact (dropSame_sublist same a l).cons_cons a

theorem mem_dropSame (hsame : ∀ a b, same a b = true → a = b) (h : x ∈ l) : x = a ∨ x ∈ dropSame same a l := by
  induction l generalizing a with
  | nil => cases h
  | cons b l ih =>
    unfold dropSame
    split
    · rename_i hb
      rcases List.mem_cons.mp h with rfl | h
      · exact .inl (hsame _ _ hb)
      · exact ih h
    · rcases List.mem_cons.mp h with rfl | h
      · exact .inr List.mem_cons_self
      · rcases ih (a := b) h with rfl | h
        · exact .inr List.mem_cons_self
        · exact .inr (List.mem_cons_of_mem b h)

theorem mem_dropRuns (hsame : ∀ a b, same a b = true → a = b) : x ∈ dropRuns same l ↔ x ∈ l := by
  constructor
  · exact fun h => (dropRuns_sublist same l).subset h
  · intro h
    cases l with
    | nil => exact h
    | cons a l =>
      rcases List.mem_cons.mp h with rfl | h
      · exact List.mem_cons_self
      · exact List.mem_cons.mpr (mem_dropSame hsame h)

theorem dropSame_idem (same : α → α → Bool) (a : α) (l : List α) :
    dropSame same a (dropSame same a l) = dropSame same a l := by
  induction l generalizing a with
  | nil => rfl
  | cons b l ih =>
    by_cases hb : same b a = true
    · rw [dropSame, if_pos hb]
      exact ih a
    · rw [dropSame, if_neg hb, dropSame, if_neg hb, ih b]

theorem dropRuns_idem (same : α → α → Bool) (l : List α) : dropRuns same (dropRuns same l) = dropRuns same l := by
  cases l with
  | nil => rfl
  | cons a l => rw [dropRuns, dropRuns, dropSame_idem]

/-! ## One list for one set of elements -/

variable {r : α → α → Prop} [DecidableRel r]

/-- The frontier, sorted and without repeats. -/
def normal (lt : α → α → Bool) (r : α → α → Prop) [DecidableRel r] (same : α → α → Bool)
    (l : List α) : List α :=
  dropRuns same ((frontier lt l).insertionSort r)

theorem mem_normal (hsame : ∀ a b, same a b = true → a = b) : x ∈ normal lt r same l ↔ x ∈ frontier lt l := by
  rw [normal, mem_dropRuns hsame, List.mem_insertionSort]

theorem normal_undominated (hsame : ∀ a b, same a b = true → a = b)
    (hx : x ∈ normal lt r same l) (hy : y ∈ normal lt r same l) : lt x y = false := by
  rw [mem_normal hsame, mem_frontier] at hx hy
  exact hx.2 y hy.1

theorem normal_perm [Std.Total r] [IsTrans α r] (hanti : ∀ a b, r a b → r b a → a = b)
    (h : l₁.Perm l₂) : normal lt r same l₁ = normal lt r same l₂ := by
  unfold normal
  congr 1
  refine List.Perm.eq_of_pairwise (fun a b _ _ => hanti a b) (List.pairwise_insertionSort r _)
    (List.pairwise_insertionSort r _) ?_
  exact (List.perm_insertionSort r _).trans
    ((frontier_perm h).trans (List.perm_insertionSort r _).symm)

theorem normal_idem [Std.Total r] [IsTrans α r] (hsame : ∀ a b, same a b = true → a = b) :
    normal lt r same (normal lt r same l) = normal lt r same l := by
  have hfront : frontier lt (normal lt r same l) = normal lt r same l :=
    frontier_eq_self fun x hx y hy => normal_undominated hsame hx hy
  have hsorted : (normal lt r same l).Pairwise r :=
    (List.pairwise_insertionSort r _).sublist (dropRuns_sublist same _)
  conv_lhs => rw [normal, hfront, hsorted.insertionSort_eq]
  exact dropRuns_idem same _

end BuildYourOwn.Lib
