import Mathlib.Data.Finset.Card

/-!
# Depth-first walks

A forest given by the list of every node's children, read out depth first down to a number of levels.

* A walk is complete when the levels suffice (`Ends`), which a measure that the children lower tells.
* It lists every descendant, and lists it once when the parents are unique (`nodup_walk`).
-/

namespace BuildYourOwn.Lib

variable {α : Type} (kids : α → List α)

def walk : Nat → α → List α
  | 0, _ => []
  | levels + 1, a => (kids a).flatMap fun k => k :: walk levels k

def Ends : Nat → α → Prop
  | 0, _ => False
  | levels + 1, a => ∀ k ∈ kids a, Ends levels k

variable {kids} {kids' : α → List α} {m n : Nat} {a b k x : α}

theorem ends_of_measure {measure : α → Nat} (h : ∀ a, ∀ k ∈ kids a, measure k < measure a) :
    ∀ n a, measure a < n → Ends kids n a := by
  intro n
  induction n with
  | zero => exact fun a ha => absurd ha (Nat.not_lt_zero _)
  | succ n ih => exact fun a ha k hk => ih k (Nat.lt_of_lt_of_le (h a k hk) (Nat.lt_succ_iff.mp ha))

theorem walk_of_ends (h : Ends kids n a) (hnm : n ≤ m) : walk kids m a = walk kids n a := by
  induction n generalizing a m with
  | zero => exact absurd h not_false
  | succ n ih =>
    obtain ⟨m, rfl⟩ := Nat.exists_eq_add_of_lt hnm
    unfold walk
    refine List.flatMap_congr fun k hk => ?_
    rw [ih (h k hk) (by omega)]

/-- **The walk lists the descendants.** -/
theorem mem_walk (h : Ends kids n a) : x ∈ walk kids n a ↔ Relation.TransGen (fun a k => k ∈ kids a) a x := by
  induction n generalizing a with
  | zero => exact absurd h not_false
  | succ n ih =>
    unfold walk
    rw [List.mem_flatMap]
    constructor
    · rintro ⟨k, hk, hx⟩
      rcases List.mem_cons.mp hx with rfl | hx
      · exact Relation.TransGen.single hk
      · exact Relation.TransGen.head hk ((ih (h k hk)).mp hx)
    · intro hax
      obtain ⟨k, hk, hkx⟩ := Relation.TransGen.head'_iff.mp hax
      refine ⟨k, hk, ?_⟩
      rcases Relation.reflTransGen_iff_eq_or_transGen.mp hkx with rfl | hkx
      · exact List.mem_cons_self
      · exact List.mem_cons_of_mem k ((ih (h k hk)).mpr hkx)

theorem below_parent (hparent : ∀ a b, x ∈ kids a → x ∈ kids b → a = b) (hx : x ∈ kids a)
    (h : Relation.ReflTransGen (fun a k => k ∈ kids a) k x) (hne : k ≠ x) :
    Relation.ReflTransGen (fun a k => k ∈ kids a) k a := by
  rcases Relation.ReflTransGen.cases_tail h with rfl | ⟨b, hkb, hb⟩
  · exact absurd rfl hne
  · rwa [hparent a b hx hb]

theorem below_self_of_below (hparent : ∀ x a b, x ∈ kids a → x ∈ kids b → a = b)
    (hax : Relation.TransGen (fun a k => k ∈ kids a) a x) (hx : Relation.TransGen (fun a k => k ∈ kids a) x x) :
    Relation.TransGen (fun a k => k ∈ kids a) a a := by
  -- the node of the cycle that is next above is the parent on the way down, too
  have hup : ∀ c x, x ∈ kids c → Relation.TransGen (fun a k => k ∈ kids a) x x →
      Relation.TransGen (fun a k => k ∈ kids a) c c := by
    intro c x hcx hx
    obtain ⟨b, hxb, hbx⟩ := Relation.TransGen.tail'_iff.mp hx
    obtain rfl := hparent x b c hbx hcx
    exact Relation.TransGen.head' hcx hxb
  induction hax with
  | single hax => exact hup _ _ hax hx
  | tail _ hcx ih => exact ih (hup _ _ hcx hx)

/-- **Every node is listed once**, when no node has two parents and the first is not below itself. -/
theorem nodup_walk (hnodup : ∀ a, (kids a).Nodup) (hparent : ∀ x a b, x ∈ kids a → x ∈ kids b → a = b)
    (hacyclic : ¬ Relation.TransGen (fun a k => k ∈ kids a) a a) (h : Ends kids n a) : (walk kids n a).Nodup := by
  induction n generalizing a with
  | zero => exact List.nodup_nil
  | succ n ih =>
    unfold walk
    refine List.nodup_flatMap.mpr ⟨fun k hk => ?_, ?_⟩
    · have hk' := fun hself => hacyclic (below_self_of_below hparent (Relation.TransGen.single hk) hself)
      refine List.nodup_cons.mpr ⟨fun hmem => ?_, ih hk' (h k hk)⟩
      exact hk' ((mem_walk (h k hk)).mp hmem)
    · refine (hnodup a).imp_of_mem fun {k k'} hk hk' hne => ?_
      have hbelow : ∀ c ∈ kids a, ∀ x ∈ c :: walk kids n c,
          Relation.ReflTransGen (fun a k => k ∈ kids a) c x := by
        intro c hc x hx
        rcases List.mem_cons.mp hx with rfl | hx
        · exact Relation.ReflTransGen.refl
        · exact ((mem_walk (h c hc)).mp hx).to_reflTransGen
      -- of two siblings above the same node one is above the other, and so above their parent
      have hapart : ∀ c ∈ kids a, ∀ c' ∈ kids a, c ≠ c' →
          ¬ Relation.ReflTransGen (fun a k => k ∈ kids a) c c' := by
        intro c hc c' hc' hcc habove
        have hup := below_parent (hparent c') hc' habove hcc
        exact hacyclic (Relation.TransGen.head' hc hup)
      intro x hx hx'
      rcases Relation.ReflTransGen.total_of_right_unique
        (r := Function.swap fun a k => k ∈ kids a) (fun x b c hb hc => hparent x b c hb hc)
        (hbelow k hk x hx).swap (hbelow k' hk' x hx').swap with habove | habove
      · exact hapart k' hk' k hk hne.symm (Relation.reflTransGen_swap.mp habove)
      · exact hapart k hk k' hk' hne (Relation.reflTransGen_swap.mp habove)

/-! ## Complete walks -/

theorem Ends.below (h : Ends kids n a) (hax : Relation.TransGen (fun a k => k ∈ kids a) a x) :
    ∃ m < n, Ends kids m x := by
  induction hax with
  | single hk =>
    cases n with
    | zero => exact absurd h not_false
    | succ n => exact ⟨n, Nat.lt_succ_self n, h _ hk⟩
  | tail _ hk ih =>
    obtain ⟨m, hm, hends⟩ := ih
    cases m with
    | zero => exact absurd hends not_false
    | succ m => exact ⟨m, Nat.lt_of_succ_lt hm, hends _ hk⟩

theorem not_ends_of_below (hself : Relation.TransGen (fun a k => k ∈ kids a) a a) (n : Nat) : ¬ Ends kids n a := by
  induction n using Nat.strong_induction_on with
  | _ n ih =>
    intro h
    obtain ⟨m, hm, hends⟩ := h.below hself
    exact ih m hm hends

theorem ends_of_not_below (hparent : ∀ x a b, x ∈ kids a → x ∈ kids b → a = b) {nodes : Finset α}
    (hnodes : ∀ a, ∀ k ∈ kids a, k ∈ nodes) (hself : ¬ Relation.TransGen (fun a k => k ∈ kids a) a a)
    (hn : nodes.card < n) : Ends kids n a := by
  classical
  have hbelow : ∀ n a, ¬ Relation.TransGen (fun a k => k ∈ kids a) a a →
      (nodes.filter fun x => Relation.TransGen (fun a k => k ∈ kids a) a x).card < n → Ends kids n a := by
    intro n
    induction n with
    | zero => exact fun a _ h => absurd h (Nat.not_lt_zero _)
    | succ n ih =>
      intro a hself h k hk
      have hak := Relation.TransGen.single (r := fun a k => k ∈ kids a) hk
      have hk' := fun hself' => hself (below_self_of_below hparent hak hself')
      refine ih k hk' (Nat.lt_of_lt_of_le (Finset.card_lt_card ?_) (Nat.lt_succ_iff.mp h))
      refine Finset.ssubset_iff_of_subset ?_ |>.mpr ⟨k, ?_, ?_⟩
      · intro x hx
        obtain ⟨hmem, hkx⟩ := Finset.mem_filter.mp hx
        exact Finset.mem_filter.mpr ⟨hmem, hak.trans hkx⟩
      · exact Finset.mem_filter.mpr ⟨hnodes a k hk, hak⟩
      · exact fun hmem => hk' (Finset.mem_filter.mp hmem).2
  exact hbelow n a hself (Nat.lt_of_le_of_lt (Finset.card_filter_le _ _) hn)

/-- **When a walk is complete.** -/
theorem ends_iff (hparent : ∀ x a b, x ∈ kids a → x ∈ kids b → a = b) {nodes : Finset α}
    (hnodes : ∀ a, ∀ k ∈ kids a, k ∈ nodes) : (∃ n, Ends kids n a) ↔ ¬ Relation.TransGen (fun a k => k ∈ kids a) a a :=
  ⟨fun ⟨n, h⟩ hself => not_ends_of_below hself n h,
    fun hself => ⟨_, ends_of_not_below hparent hnodes hself (Nat.lt_succ_self _)⟩⟩

theorem walk_dropped {keep : α → Bool} (hclosed : ∀ a, keep a = false → ∀ k ∈ kids a, keep k = false)
    (n : Nat) (ha : keep a = false) : (walk kids n a).filter keep = [] := by
  induction n generalizing a with
  | zero => rfl
  | succ n ih =>
    unfold walk
    rw [List.filter_flatMap]
    refine List.flatMap_eq_nil_iff.mpr fun k hk => ?_
    have hk := hclosed a ha k hk
    rw [List.filter_cons_of_neg (by rw [hk]; exact Bool.false_ne_true), ih hk]

/-- **To leave out nodes with their descendants keeps the order of the others.** -/
theorem walk_filter {keep : α → Bool} (hkids : ∀ a, kids' a = (kids a).filter keep)
    (hclosed : ∀ a, keep a = false → ∀ k ∈ kids a, keep k = false) (n : Nat) (a : α) :
    walk kids' n a = (walk kids n a).filter keep := by
  induction n generalizing a with
  | zero => rfl
  | succ n ih =>
    have hstep : ∀ l : List α, ((l.filter keep).flatMap fun k => k :: walk kids' n k) =
        (l.flatMap fun k => k :: walk kids n k).filter keep := by
      intro l
      induction l with
      | nil => rfl
      | cons k l ihl =>
        rw [List.flatMap_cons, List.filter_append, ← ihl]
        cases hk : keep k with
        | true => rw [List.filter_cons_of_pos hk, List.flatMap_cons, List.filter_cons_of_pos hk, ih]
        | false =>
          have hneg : ¬ keep k = true := by rw [hk]; exact Bool.false_ne_true
          rw [List.filter_cons_of_neg hneg, List.filter_cons_of_neg hneg, walk_dropped hclosed n hk,
            List.nil_append]
    unfold walk
    rw [hkids, hstep]

end BuildYourOwn.Lib
