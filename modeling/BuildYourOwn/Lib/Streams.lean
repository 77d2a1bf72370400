import Mathlib.Data.List.Nodup
import Mathlib.Data.List.Perm.Subperm

/-!
# Messages numbered by their senders

A list of messages is `Numbered` when those of each sender carry the numbers 1, 2, 3, … in the order
they stand. A receiver's list is `Taken` from it when it has the first messages of each sender, without
gaps, so that it holds a message exactly when it has counted up to its number (`Taken.mem_iff`).
-/

namespace BuildYourOwn.Lib

variable {M P : Type} [DecidableEq P] (sender : M → P)

def ofSender (p : P) (l : List M) : List M := l.filter fun m => decide (sender m = p)

def Numbered (number : M → Int) (all : List M) : Prop :=
  ∀ p (i : Nat) m, (ofSender sender p all)[i]? = some m → number m = i + 1

/-- Of each sender, the first messages. -/
def Taken (all l : List M) : Prop := ∀ p, ofSender sender p l <+: ofSender sender p all

variable {sender} {number : M → Int} {all l l' : List M} {m : M} {p : P}

theorem mem_ofSender : m ∈ ofSender sender p l ↔ m ∈ l ∧ sender m = p := by
  rw [ofSender, List.mem_filter, decide_eq_true_eq]

theorem ofSender_append : ofSender sender p (l ++ l') = ofSender sender p l ++ ofSender sender p l' :=
  List.filter_append _ _

theorem ofSender_singleton : ofSender sender p [m] = if sender m = p then [m] else [] := by
  unfold ofSender
  by_cases hp : sender m = p
  · rw [if_pos hp, List.filter_cons_of_pos (by simpa using hp), List.filter_nil]
  · rw [if_neg hp, List.filter_cons_of_neg (by simpa using hp), List.filter_nil]

theorem Numbered.get (h : Numbered sender number all) (hm : m ∈ all) :
    ∃ i : Nat, (ofSender sender (sender m) all)[i]? = some m ∧ number m = i + 1 := by
  have hmem : m ∈ ofSender sender (sender m) all := mem_ofSender.mpr ⟨hm, rfl⟩
  obtain ⟨i, hi⟩ := List.getElem?_of_mem hmem
  exact ⟨i, hi, h _ i m hi⟩

theorem Numbered.nodup_ofSender (h : Numbered sender number all) (p : P) : (ofSender sender p all).Nodup := by
  rw [List.nodup_iff_getElem?_ne_getElem?]
  intro i j hij hj heq
  have hm := List.getElem?_eq_getElem hj
  have h₁ := h p i _ (heq.trans hm)
  have h₂ := h p j _ hm
  omega

theorem nodup_of_ofSender (h : ∀ p, (ofSender sender p l).Nodup) : l.Nodup := by
  induction l with
  | nil => exact List.nodup_nil
  | cons m l ih =>
    refine List.nodup_cons.mpr ⟨fun hm => ?_, ih fun p => ?_⟩
    · have hnodup := h (sender m)
      rw [ofSender, List.filter_cons_of_pos (by simp)] at hnodup
      exact (List.nodup_cons.mp hnodup).1 (mem_ofSender.mpr ⟨hm, rfl⟩)
    · exact (h p).sublist ((List.sublist_cons_self m l).filter _)

theorem Numbered.snoc (h : Numbered sender number all)
    (hnext : number m = (ofSender sender (sender m) all).length + 1) : Numbered sender number (all ++ [m]) := by
  intro p i m' hi
  rw [ofSender_append, ofSender_singleton, List.getElem?_append] at hi
  split at hi
  · exact h p i m' hi
  · split_ifs at hi with hp
    · subst hp
      obtain ⟨hlt, hget⟩ := List.getElem?_eq_some_iff.mp hi
      rw [List.length_singleton] at hlt
      rw [List.getElem_singleton] at hget
      subst hget
      omega
    · cases hi

theorem Numbered.nodup (h : Numbered sender number all) : all.Nodup :=
  nodup_of_ofSender h.nodup_ofSender

theorem Numbered.split (h : Numbered sender number all) {l₁ l₂ : List M} (hl : all = l₁ ++ m :: l₂) :
    number m = (ofSender sender (sender m) l₁).length + 1 := by
  refine h (sender m) _ m ?_
  rw [hl, ofSender_append, List.getElem?_append_right (Nat.le_refl _), Nat.sub_self, ofSender,
    List.filter_cons_of_pos (by simp)]
  rfl

theorem Taken.numbered (h : Taken sender all l) (hn : Numbered sender number all) : Numbered sender number l := by
  intro p i m hi
  obtain ⟨t, ht⟩ := h p
  refine hn p i m ?_
  rw [← ht, List.getElem?_append_left (List.getElem?_eq_some_iff.mp hi).1]
  exact hi

theorem Taken.left {l₁ l₂ : List M} (h : Taken sender all (l₁ ++ l₂)) : Taken sender all l₁ := by
  intro p
  have hp := h p
  rw [ofSender_append] at hp
  exact (List.prefix_append _ _).trans hp

theorem Taken.subset (h : Taken sender all l) (hm : m ∈ l) : m ∈ all :=
  (mem_ofSender.mp ((h (sender m)).subset (mem_ofSender.mpr ⟨hm, rfl⟩))).1

theorem Taken.nodup (h : Taken sender all l) (hn : Numbered sender number all) : l.Nodup :=
  nodup_of_ofSender fun p => (hn.nodup_ofSender p).sublist (h p).sublist

/-- **A receiver has a message when it has counted up to its number.** -/
theorem Taken.mem_iff (h : Taken sender all l) (hn : Numbered sender number all) (hm : m ∈ all) :
    m ∈ l ↔ number m ≤ (ofSender sender (sender m) l).length := by
  obtain ⟨i, hi, hnum⟩ := hn.get hm
  have hget : ∀ j < (ofSender sender (sender m) l).length,
      (ofSender sender (sender m) l)[j]? = (ofSender sender (sender m) all)[j]? := by
    intro j hj
    obtain ⟨t, ht⟩ := h (sender m)
    rw [← ht, List.getElem?_append_left hj]
  constructor
  · intro hml
    have hmem : m ∈ ofSender sender (sender m) l := mem_ofSender.mpr ⟨hml, rfl⟩
    obtain ⟨j, hj⟩ := List.getElem?_of_mem hmem
    have hlt := (List.getElem?_eq_some_iff.mp hj).1
    have hj' := hn _ j m ((hget j hlt) ▸ hj)
    omega
  · intro hle
    have hlt : i < (ofSender sender (sender m) l).length := by omega
    exact (mem_ofSender.mp (List.mem_of_getElem? ((hget i hlt).trans hi))).1

theorem Taken.snoc (h : Taken sender all l) (hn : Numbered sender number all) (hm : m ∈ all)
    (hnext : number m = (ofSender sender (sender m) l).length + 1) : Taken sender all (l ++ [m]) := by
  intro p
  rw [ofSender_append, ofSender_singleton]
  split_ifs with hp
  · subst hp
    obtain ⟨i, hi, hnum⟩ := hn.get hm
    obtain rfl : i = (ofSender sender (sender m) l).length := by omega
    obtain ⟨t, ht⟩ := h (sender m)
    rw [← ht, List.getElem?_append_right (Nat.le_refl _), Nat.sub_self] at hi
    cases t with
    | nil => cases hi
    | cons x t =>
      cases hi
      exact ⟨t, by rw [← ht, List.append_assoc]; rfl⟩
  · rw [List.append_nil]
    exact h p

theorem Taken.grow (h : Taken sender all l) (l' : List M) : Taken sender (all ++ l') l := by
  intro p
  rw [ofSender_append]
  exact (h p).trans (List.prefix_append _ _)

theorem length_le_of_subset (hn : (ofSender sender p l').Nodup) (h : ∀ m ∈ l', sender m = p → m ∈ l) :
    (ofSender sender p l').length ≤ (ofSender sender p l).length := by
  refine (hn.subperm fun m hm => ?_).length_le
  obtain ⟨hml, hs⟩ := mem_ofSender.mp hm
  exact mem_ofSender.mpr ⟨h m hml hs, hs⟩

end BuildYourOwn.Lib
