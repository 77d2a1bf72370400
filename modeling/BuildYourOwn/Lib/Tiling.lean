import Mathlib.Algebra.Ring.Nat
import Mathlib.Data.List.Basic

/-!
# Spans that tile a stretch

A list of spans, each with a start and a length, that lie one after another from one place to
another and leave nothing out (`Tiles`). Cutting a sequence at the spans gives its pieces
(`Tiles.pieces`), so a map of the fields of a message is right when it tiles and its lengths are.
-/

namespace BuildYourOwn.Lib

variable {α β : Type} {start length : α → ℕ} {xs ys : List α} {a b n : ℕ}

/-- `xs` lie one after another from `a` to `b`. -/
inductive Tiles (start length : α → ℕ) : ℕ → List α → ℕ → Prop
  | nil (a : ℕ) : Tiles start length a [] a
  | cons {x : α} {xs : List α} {b : ℕ} (h : Tiles start length (start x + length x) xs b) :
      Tiles start length (start x) (x :: xs) b

theorem Tiles.append (h : Tiles start length a xs b) (h' : Tiles start length b ys n) :
    Tiles start length a (xs ++ ys) n := by
  induction h with
  | nil a => exact h'
  | cons _ ih => exact .cons (ih h')

theorem Tiles.snoc (h : Tiles start length a xs b) {x : α} (hstart : start x = b)
    (hlength : b + length x = n) : Tiles start length a (xs ++ [x]) n := by
  subst hstart hlength
  exact h.append (.cons (.nil _))

theorem tiles_nil : Tiles start length a [] b ↔ a = b := by
  constructor
  · rintro ⟨⟩
    rfl
  · rintro rfl
    exact .nil a

theorem tiles_cons {x : α} :
    Tiles start length a (x :: xs) b ↔ a = start x ∧ Tiles start length (start x + length x) xs b := by
  constructor
  · intro h
    generalize hys : x :: xs = ys at h
    cases h with
    | nil a => exact nomatch hys
    | cons h =>
      obtain ⟨rfl, rfl⟩ := List.cons.inj hys
      exact ⟨rfl, h⟩
  · rintro ⟨rfl, h⟩
    exact .cons h

theorem Tiles.of_snoc {x : α} (h : Tiles start length a (xs ++ [x]) n) :
    Tiles start length a xs (start x) ∧ start x + length x = n := by
  induction xs generalizing a with
  | nil =>
    obtain ⟨rfl, hrest⟩ := tiles_cons.mp h
    exact ⟨.nil _, tiles_nil.mp hrest⟩
  | cons y ys ih =>
    obtain ⟨rfl, hrest⟩ := tiles_cons.mp h
    obtain ⟨hinit, hend⟩ := ih hrest
    exact ⟨.cons hinit, hend⟩

theorem Tiles.le (h : Tiles start length a xs b) : a ≤ b := by
  induction h with
  | nil a => exact le_rfl
  | cons _ ih => omega

theorem Tiles.within (h : Tiles start length a xs b) {x : α} (hx : x ∈ xs) : a ≤ start x ∧ start x + length x ≤ b := by
  induction h with
  | nil a => cases hx
  | @cons y ys b h ih =>
    rcases List.mem_cons.mp hx with rfl | hx
    · exact ⟨le_rfl, h.le⟩
    · obtain ⟨hstart, hend⟩ := ih hx
      exact ⟨by omega, hend⟩

/-- **Nothing is left out.** -/
theorem Tiles.exists_mem (h : Tiles start length a xs b) {k : ℕ} (ha : a ≤ k) (hb : k < b) :
    ∃ x ∈ xs, start x ≤ k ∧ k < start x + length x := by
  induction h with
  | nil a => omega
  | @cons y ys b h ih =>
    by_cases hk : k < start y + length y
    · exact ⟨y, List.mem_cons_self, ha, hk⟩
    · obtain ⟨x, hx, hin⟩ := ih (by omega) hb
      exact ⟨x, List.mem_cons_of_mem y hx, hin⟩

theorem Tiles.map (h : Tiles start length a xs b) {f : α → α} (hstart : ∀ x, start (f x) = start x)
    (hlength : ∀ x, length (f x) = length x) : Tiles start length a (xs.map f) b := by
  induction h with
  | nil a => exact .nil a
  | @cons x xs b _ ih =>
    rw [List.map_cons, tiles_cons, hstart, hlength]
    exact ⟨rfl, ih⟩

theorem Tiles.total (h : Tiles start length a xs b) : b = a + (xs.map length).sum := by
  induction h with
  | nil a => rfl
  | cons _ ih => rw [ih, List.map_cons, List.sum_cons, Nat.add_assoc]

/-- **Cutting at the spans gives the pieces.** -/
theorem Tiles.pieces (h : Tiles start length a xs b) {pieces : List (List β)}
    (hlength : pieces.map List.length = xs.map length) {before : List β} (hbefore : before.length = a) :
    xs.map (fun x => ((before ++ pieces.flatten).drop (start x)).take (length x)) = pieces := by
  induction h generalizing before pieces with
  | nil a =>
    obtain rfl : pieces = [] := List.map_eq_nil_iff.mp hlength
    rfl
  | @cons x xs b _ ih =>
    cases pieces with
    | nil => cases hlength
    | cons piece pieces =>
      obtain ⟨hpiece, hrest⟩ := List.cons.inj hlength
      have hnext : (before ++ piece).length = start x + length x := by
        rw [List.length_append, hbefore, hpiece]
      have htail := ih hrest hnext
      rw [List.append_assoc, ← List.flatten_cons] at htail
      rw [List.map_cons, htail, ← hbefore, List.drop_left, ← hpiece, List.flatten_cons,
        List.take_left]

end BuildYourOwn.Lib
