import Mathlib.Algebra.Group.Defs
import Mathlib.Data.List.Forall2

/-!
# Loops that may stop

`l.foldlM f s` in `Option` is a loop over a list whose steps may fail.

* `readPrefix`: what a loop has read before the first element that it cannot read.

`whileLoop cond body n s` goes round while `cond` holds, at most `n` times. `whileLoop_spec` is its rule, and
`whileLoop_map` looks at a part of the variables only.
-/

namespace BuildYourOwn.Lib

variable {σ α β : Type} {f : σ → α → Option σ} {s s' : σ}

theorem foldlM_flatMap (f : σ → β → Option σ) (g : α → List β) (l : List α) (s : σ) :
    (l.flatMap g).foldlM f s = l.foldlM (fun t a => (g a).foldlM f t) s := by
  induction l generalizing s with
  | nil => rfl
  | cons a l ih =>
    rw [List.flatMap_cons, List.foldlM_append, List.foldlM_cons]
    exact congrArg _ (funext ih)

theorem foldlM_keeps {P : σ → Prop} (hf : ∀ s a s', P s → f s a = some s' → P s') {l : List α}
    (hs : P s) (h : l.foldlM f s = some s') : P s' := by
  induction l generalizing s with
  | nil => exact Option.some.inj h ▸ hs
  | cons a l ih =>
    rw [List.foldlM_cons] at h
    obtain ⟨t, ht, h⟩ := Option.bind_eq_some_iff.mp h
    exact ih (hf s a t hs ht) h

theorem foldlM_eq_foldl {g : σ → α → σ} (hf : ∀ s a s', f s a = some s' → s' = g s a) {l : List α}
    (h : l.foldlM f s = some s') : s' = l.foldl g s := by
  induction l generalizing s with
  | nil => exact (Option.some.inj h).symm
  | cons a l ih =>
    rw [List.foldlM_cons] at h
    obtain ⟨t, ht, h⟩ := Option.bind_eq_some_iff.mp h
    obtain rfl := hf s a t ht
    exact ih h

theorem foldlM_eq_add_sum {α : Type} [AddMonoid α] {f : α → α → Option α} {s s' : α}
    (hf : ∀ s a s', f s a = some s' → s' = s + a) {l : List α} (h : l.foldlM f s = some s') : s' = s + l.sum := by
  have hfold : ∀ s : α, l.foldl (· + ·) s = s + l.sum := by
    clear h
    induction l with
    | nil => exact fun s => (add_zero s).symm
    | cons a l ih =>
      intro s
      rw [List.foldl_cons, ih, List.sum_cons, add_assoc]
  exact (foldlM_eq_foldl hf h).trans (hfold s)

theorem foldlM_step {l : List α} (h : l.foldlM f s = some s') : ∀ a ∈ l, ∃ t t', f t a = some t' := by
  induction l generalizing s with
  | nil => exact List.forall_mem_nil _
  | cons a l ih =>
    rw [List.foldlM_cons] at h
    obtain ⟨t, ht, h⟩ := Option.bind_eq_some_iff.mp h
    exact List.forall_mem_cons.mpr ⟨⟨s, t, ht⟩, ih h⟩

/-- A loop on what `g` makes of another's. -/
theorem foldlM_map_of {τ : Type} {f' : τ → α → Option τ} {g : σ → τ} {l : List α}
    (h : ∀ s, ∀ a ∈ l, f' (g s) a = (f s a).map g) (s : σ) : l.foldlM f' (g s) = (l.foldlM f s).map g := by
  induction l generalizing s with
  | nil => rfl
  | cons a l ih =>
    obtain ⟨ha, hl⟩ : (∀ s, f' (g s) a = (f s a).map g) ∧ ∀ s, ∀ a ∈ l, f' (g s) a = (f s a).map g :=
      ⟨fun s => h s a List.mem_cons_self, fun s b hb => h s b (List.mem_cons_of_mem a hb)⟩
    rw [List.foldlM_cons, List.foldlM_cons, ha]
    cases f s a with
    | none => rfl
    | some t => exact ih hl t

/-- **A loop gets to its end**, when the start allows for as many steps as there are elements. -/
theorem foldlM_total (ok : Nat → σ → Prop) {l : List α}
    (hf : ∀ s n, ∀ a ∈ l, ok (n + 1) s → ∃ s', f s a = some s' ∧ ok n s') (hs : ok l.length s) :
    ∃ s', l.foldlM f s = some s' := by
  induction l generalizing s with
  | nil => exact ⟨s, rfl⟩
  | cons a l ih =>
    obtain ⟨t, ht, hok⟩ := hf s l.length a List.mem_cons_self hs
    obtain ⟨s', hs'⟩ := ih (fun s n a ha => hf s n a (List.mem_cons_of_mem _ ha)) hok
    refine ⟨s', ?_⟩
    rw [List.foldlM_cons, ht]
    exact hs'

variable {ε : Type} {f : α → Except ε β}

theorem bind_eq_ok {x : Except ε α} {b : β} : (x >>= f) = .ok b ↔ ∃ a, x = .ok a ∧ f a = .ok b := by
  cases x with
  | ok a => exact ⟨fun h => ⟨a, rfl, h⟩, fun ⟨_, ha, h⟩ => Except.ok.inj ha ▸ h⟩
  | error e => exact ⟨fun h => (nomatch h), fun ⟨_, ha, _⟩ => (nomatch ha)⟩

theorem mapM_eq_ok {l : List α} {bs : List β} : l.mapM f = .ok bs ↔ List.Forall₂ (fun a b => f a = .ok b) l bs := by
  induction l generalizing bs with
  | nil =>
    rw [List.forall₂_nil_left_iff, List.mapM_nil]
    exact ⟨fun h => (Except.ok.inj h).symm, fun h => h ▸ rfl⟩
  | cons a l ih =>
    rw [List.mapM_cons, List.forall₂_cons_left_iff]
    constructor
    · intro h
      obtain ⟨b, ha, h⟩ := bind_eq_ok.mp h
      obtain ⟨bs', hl, h⟩ := bind_eq_ok.mp h
      exact ⟨b, bs', ha, ih.mp hl, (Except.ok.inj h).symm⟩
    · rintro ⟨b, bs, ha, hl, rfl⟩
      rw [ha, ih.mpr hl]
      rfl

theorem exists_of_mapM_error {l : List α} {e : ε} (h : l.mapM f = .error e) : ∃ a ∈ l, f a = .error e := by
  induction l with
  | nil => exact nomatch h
  | cons a l ih =>
    rw [List.mapM_cons] at h
    cases ha : f a with
    | error e' =>
      rw [ha] at h
      exact ⟨a, List.mem_cons_self, ha.trans (congrArg Except.error (Except.error.inj h))⟩
    | ok b =>
      rw [ha] at h
      cases hl : l.mapM f with
      | error e' =>
        rw [hl] at h
        obtain ⟨a', hmem, ha'⟩ := ih (hl.trans (congrArg Except.error (Except.error.inj h)))
        exact ⟨a', List.mem_cons_of_mem a hmem, ha'⟩
      | ok bs =>
        rw [hl] at h
        exact nomatch h

/-- A loop over steps that return `g` where `P` holds. -/
theorem mapM_eq_ok_map {g : α → β} {P : α → Prop} {l : List α} {bs : List β}
    (h : ∀ a ∈ l, ∀ b, f a = .ok b ↔ P a ∧ b = g a) : l.mapM f = .ok bs ↔ (∀ a ∈ l, P a) ∧ bs = l.map g := by
  rw [mapM_eq_ok]
  induction l generalizing bs with
  | nil =>
    rw [List.forall₂_nil_left_iff]
    exact ⟨fun hbs => ⟨List.forall_mem_nil _, hbs⟩, fun hbs => hbs.2⟩
  | cons a l ih =>
    obtain ⟨ha, hl⟩ := List.forall_mem_cons.mp h
    rw [List.forall₂_cons_left_iff, List.forall_mem_cons, List.map_cons]
    constructor
    · rintro ⟨b, bs, hb, hbs, rfl⟩
      obtain ⟨hp, rfl⟩ := (ha b).mp hb
      obtain ⟨hps, rfl⟩ := (ih hl).mp hbs
      exact ⟨⟨hp, hps⟩, rfl⟩
    · rintro ⟨⟨hp, hps⟩, rfl⟩
      exact ⟨_, _, (ha _).mpr ⟨hp, rfl⟩, (ih hl).mpr ⟨hps, rfl⟩, rfl⟩

/-- **A loop that only adds** changes nothing exactly when none of its steps does. -/
theorem foldl_eq_self_iff {g : σ → α → σ} {r : σ → σ → Prop} (hrefl : ∀ s, r s s)
    (htrans : ∀ s t u, r s t → r t u → r s u) (hanti : ∀ s t, r s t → r t s → s = t) (hg : ∀ s a, r s (g s a))
    {l : List α} : l.foldl g s = s ↔ ∀ a ∈ l, g s a = s := by
  have hfold : ∀ (l : List α) s, r s (l.foldl g s) := by
    intro l
    induction l with
    | nil => exact hrefl
    | cons a l ih => exact fun s => htrans _ _ _ (hg s a) (ih (g s a))
  induction l with
  | nil => exact iff_of_true rfl fun a ha => absurd ha List.not_mem_nil
  | cons a l ih =>
    rw [List.foldl_cons, List.forall_mem_cons]
    constructor
    · intro h
      have hback := hfold l (g s a)
      rw [h] at hback
      have ha := hanti _ _ hback (hg s a)
      rw [ha] at h
      exact ⟨ha, ih.mp h⟩
    · rintro ⟨ha, hl⟩
      rw [ha]
      exact ih.mpr hl

def readPrefix (read : α → Option β) : List α → List β
  | [] => []
  | a :: l =>
    match read a with
    | some b => b :: readPrefix read l
    | none => []

/-! ## While -/

/-- Go round while `cond` holds; none where that is so after `n` rounds. -/
def whileLoop (cond : σ → Bool) (body : σ → Option σ) : Nat → σ → Option σ
  | 0, s => if cond s then none else some s
  | n + 1, s => if cond s then body s >>= whileLoop cond body n else some s

/-- **The rule of a loop** whose rounds make a measure smaller. -/
theorem whileLoop_spec {cond : σ → Bool} {body : σ → Option σ} {I : σ → Prop} {μ : σ → Nat}
    (hbody : ∀ s, I s → cond s = true → ∃ t, body s = some t ∧ I t ∧ μ t < μ s) {n : Nat} (hs : I s) (hn : μ s ≤ n) :
    ∃ t, whileLoop cond body n s = some t ∧ I t ∧ cond t = false := by
  induction n generalizing s with
  | zero =>
    cases hcond : cond s with
    | true =>
      obtain ⟨t, -, -, hless⟩ := hbody s hs hcond
      omega
    | false => exact ⟨s, by rw [whileLoop, hcond]; rfl, hs, hcond⟩
  | succ n ih =>
    cases hcond : cond s with
    | true =>
      obtain ⟨t, ht, hI, hless⟩ := hbody s hs hcond
      obtain ⟨u, hu, hend⟩ := ih hI (by omega)
      refine ⟨u, ?_, hend⟩
      rw [whileLoop, hcond, ht]
      exact hu
    | false => exact ⟨s, by rw [whileLoop, hcond]; rfl, hs, hcond⟩

/-- **A loop on a part of the variables** is the part of the loop, when the rounds and the condition look at no more. -/
theorem whileLoop_map {τ : Type} {cond : σ → Bool} {body : σ → Option σ} {cond' : τ → Bool} {body' : τ → Option τ}
    {g : σ → τ} (hcond : ∀ s, cond' (g s) = cond s) (hbody : ∀ s, cond s = true → body' (g s) = (body s).map g) (n : Nat)
    (s : σ) : whileLoop cond' body' n (g s) = (whileLoop cond body n s).map g := by
  induction n generalizing s with
  | zero =>
    rw [whileLoop, whileLoop, hcond]
    cases cond s <;> rfl
  | succ n ih =>
    rw [whileLoop, whileLoop, hcond]
    cases h : cond s with
    | false => rfl
    | true =>
      simp only [if_true]
      rw [hbody s h]
      cases body s with
      | none => rfl
      | some t => exact ih t

end BuildYourOwn.Lib
