import Mathlib.Data.List.Basic

/-!
# Readers, and what they read back

A reader takes values off a buffer at a position and may fail.

* `ReadsAt r before bs rest a`: in front of `bs`, with `before` behind it and `rest` ahead, the reader
  returns `a` and stops behind `bs`. `Reads r bs a` says so whatever comes before and after, which is
  what a round trip needs of a part.
* `ReadsAt.andThen` puts two readers together, as their encodings are put together;
  `ReadsAt.peek` is for what reads nothing.
* `Reads.collect` is the rule of a loop over numbered items.
* `Tame r ok`: within its buffer the reader takes what it would take anywhere, and it fails only as `ok`
  says. This is what total readers are made of.
* `FailsAt r e before bs`: in front of `bs` the reader fails with `e`. There is one rule for each way a reader
  is put together, each an equivalence, so that the bytes on which a reader fails can be read off it.
* `Returns r p`: whatever the buffer, what the reader returns satisfies `p`.
* `Takes r Q`: what a reader that returns took off the buffer, and what it left, are as `Q` says of the value.
  This is the other direction of a codec: what is accepted is what would have been written.
* `untilDone` reads items to the end of the buffer.
-/

namespace BuildYourOwn.Lib

/-- A position in a buffer. -/
structure Cursor (τ : Type) where
  buf : List τ
  pos : Nat

/-- A computation that reads at a cursor. -/
def Reader (τ ε α : Type) : Type := Cursor τ → Except ε (α × Cursor τ)

namespace Reader

variable {τ ε α β : Type}

instance : Monad (Reader τ ε) where
  pure a := fun c => .ok (a, c)
  bind r f := fun c =>
    match r c with
    | .ok (a, c') => f a c'
    | .error e => .error e

def fail (e : ε) : Reader τ ε α := fun _ => .error e

/-- Fail unless `p` holds. -/
def require (p : Prop) [Decidable p] (e : ε) : Reader τ ε Unit := if p then pure () else fail e

/-- What another computation gave. -/
def lift : Except ε α → Reader τ ε α
  | .ok a => pure a
  | .error e => fail e

def here : Reader τ ε (Cursor τ) := fun c => .ok (c, c)

def mapError (f : ε → ε) (r : Reader τ ε α) : Reader τ ε α := fun c =>
  match r c with
  | .ok x => .ok x
  | .error e => .error (f e)

/-- Take `n` values; `short` is the error when only so many remain. -/
def take (short : Nat → ε) (n : Nat) : Reader τ ε (List τ) := fun c =>
  if c.buf.length - c.pos < n then .error (short (c.buf.length - c.pos))
  else .ok ((c.buf.drop c.pos).take n, { c with pos := c.pos + n })

/-- Items number `i` to `i + n - 1`, one after another. -/
def collect (item : Nat → Reader τ ε α) (i : Nat) : Nat → Reader τ ε (List α)
  | 0 => pure []
  | n + 1 => do
    let a ← item i
    let as ← collect item (i + 1) n
    pure (a :: as)

/-- The loop of `untilDone`: at most so many items, the first of them number `i`. -/
def itemsFrom (item : Nat → Reader τ ε α) : Nat → Nat → Reader τ ε (List α)
  | 0, _ => pure []
  | n + 1, i => do
    let c ← here
    if c.buf.length ≤ c.pos then pure []
    else do
      let a ← item i
      let as ← itemsFrom item n (i + 1)
      pure (a :: as)

/-- Items number `i` and up, until nothing is left. An item takes something, so there are no more of them
than values. -/
def untilDone (item : Nat → Reader τ ε α) (i : Nat) : Reader τ ε (List α) := do
  let c ← here
  itemsFrom item (c.buf.length - c.pos) i

def run (r : Reader τ ε α) (buf : List τ) : Except ε α := (r ⟨buf, 0⟩).map Prod.fst

/-! ## What is read back -/

/-- In front of `bs` the reader returns `a` and stops behind it. -/
def ReadsAt (r : Reader τ ε α) (before bs rest : List τ) (a : α) : Prop :=
  r ⟨before ++ (bs ++ rest), before.length⟩ =
    .ok (a, ⟨before ++ (bs ++ rest), before.length + bs.length⟩)

/-- Wherever `bs` stands, the reader returns `a` and stops behind it. -/
def Reads (r : Reader τ ε α) (bs : List τ) (a : α) : Prop :=
  ∀ before rest, ReadsAt r before bs rest a

variable {r : Reader τ ε α} {before bs cs rest : List τ} {a : α} {b : β}

theorem Reads.pure (a : α) : Reads (Pure.pure a : Reader τ ε α) [] a := fun _ _ => rfl

theorem ReadsAt.andThen {f : α → Reader τ ε β} (h : ReadsAt r before bs (cs ++ rest) a)
    (h' : ReadsAt (f a) (before ++ bs) cs rest b) : ReadsAt (r >>= f) before (bs ++ cs) rest b := by
  unfold ReadsAt at h h' ⊢
  show (match r _ with
    | .ok (a, c') => f a c'
    | .error e => .error e) = _
  rw [List.append_assoc] at h' ⊢
  rw [h]
  rw [List.length_append] at h'
  rw [List.length_append, ← Nat.add_assoc]
  exact h'

theorem Reads.andThen {f : α → Reader τ ε β} (h : Reads r bs a) (h' : ReadsAt (f a) (before ++ bs) cs rest b) :
    ReadsAt (r >>= f) before (bs ++ cs) rest b := (h before (cs ++ rest)).andThen h'

theorem Reads.bind {f : α → Reader τ ε β} (h : Reads r bs a) (h' : Reads (f a) cs b) :
    Reads (r >>= f) (bs ++ cs) b := fun before rest => h.andThen (h' (before ++ bs) rest)

theorem Reads.map (h : Reads r bs a) (f : α → β) : Reads (do let a ← r; Pure.pure (f a)) bs (f a) := by
  have hbind : Reads (do let a ← r; Pure.pure (f a)) (bs ++ []) (f a) := h.bind (Reads.pure (f a))
  rw [List.append_nil] at hbind
  exact hbind

theorem ReadsAt.map (h : ReadsAt r before bs rest a) (f : α → β) :
    ReadsAt (do let a ← r; Pure.pure (f a)) before bs rest (f a) := by
  unfold ReadsAt at h ⊢
  show (match r _ with
    | .ok (a, c') => (Pure.pure (f a) : Reader τ ε β) c'
    | .error e => .error e) = _
  rw [h]
  rfl

theorem ReadsAt.peek {f : α → Reader τ ε β}
    (hr : r ⟨before ++ (bs ++ rest), before.length⟩ = .ok (a, ⟨before ++ (bs ++ rest), before.length⟩))
    (h : ReadsAt (f a) before bs rest b) : ReadsAt (r >>= f) before bs rest b := by
  unfold ReadsAt
  show (match r _ with
    | .ok (a, c') => f a c'
    | .error e => .error e) = _
  rw [hr]
  exact h

theorem ReadsAt.here {f : Cursor τ → Reader τ ε β}
    (h : ReadsAt (f ⟨before ++ (bs ++ rest), before.length⟩) before bs rest b) :
    ReadsAt (Reader.here >>= f) before bs rest b := ReadsAt.peek rfl h

theorem ReadsAt.require {p : Prop} [Decidable p] {e : ε} {f : Unit → Reader τ ε β} (hp : p)
    (h : ReadsAt (f ()) before bs rest b) : ReadsAt (Reader.require p e >>= f) before bs rest b := by
  refine ReadsAt.peek ?_ h
  unfold Reader.require
  rw [if_pos hp]
  rfl

theorem ReadsAt.lift {x : Except ε α} {f : α → Reader τ ε β} (hx : x = .ok a)
    (h : ReadsAt (f a) before bs rest b) : ReadsAt (Reader.lift x >>= f) before bs rest b := by
  subst hx
  exact ReadsAt.peek rfl h

theorem Reads.require {p : Prop} [Decidable p] {e : ε} {f : Unit → Reader τ ε β} (hp : p)
    (h : Reads (f ()) bs b) : Reads (Reader.require p e >>= f) bs b := fun before rest =>
  (h before rest).require hp

theorem Reads.mapError {f : ε → ε} (h : Reads r bs a) : Reads (r.mapError f) bs a := by
  intro before rest
  unfold ReadsAt Reader.mapError
  rw [h before rest]

theorem reads_mapError {f : ε → ε} : Reads (r.mapError f) bs a ↔ Reads r bs a := by
  refine ⟨fun h before rest => ?_, Reads.mapError⟩
  have hread := h before rest
  unfold ReadsAt Reader.mapError at hread
  split at hread
  · rename_i x hr
    exact hr.trans hread
  · cases hread

theorem Reads.take (short : Nat → ε) (bs : List τ) :
    Reads (Reader.take short bs.length : Reader τ ε (List τ)) bs bs := by
  intro before rest
  unfold ReadsAt Reader.take
  dsimp only
  rw [if_neg (by rw [List.length_append, List.length_append]; omega), List.drop_left,
    List.take_left]

theorem Reads.collect {item : Nat → Reader τ ε α} {enc : α → List τ} (as : List α) (i : Nat)
    (h : ∀ j, ∀ a ∈ as, Reads (item j) (enc a) a) : Reads (Reader.collect item i as.length) (as.flatMap enc) as := by
  induction as generalizing i with
  | nil => exact Reads.pure []
  | cons a as ih =>
    have htail := ih (i + 1) fun j b hb => h j b (List.mem_cons_of_mem a hb)
    rw [List.flatMap_cons]
    exact (h i a List.mem_cons_self).bind (htail.map (a :: ·))

theorem ReadsAt.itemsFrom {item : Nat → Reader τ ε α} {enc : α → List τ} {n : Nat} (as : List α) (i : Nat)
    (before : List τ) (hn : as.length ≤ n) (h : ∀ j, ∀ a ∈ as, Reads (item j) (enc a) a) (hpos : ∀ a ∈ as, enc a ≠ []) :
    ReadsAt (Reader.itemsFrom item n i) before (as.flatMap enc) [] as := by
  induction as generalizing n i before with
  | nil =>
    cases n with
    | zero => rfl
    | succ n =>
      refine ReadsAt.here ?_
      rw [if_pos (by simp)]
      exact Reads.pure [] before []
  | cons a as ih =>
    obtain ⟨n, rfl⟩ : ∃ m, n = m + 1 := ⟨n - 1, by rw [List.length_cons] at hn; omega⟩
    have hne : 0 < (enc a).length := List.length_pos_iff.mpr (hpos a List.mem_cons_self)
    refine ReadsAt.here ?_
    rw [List.flatMap_cons, if_neg (by simp only [List.length_append]; omega)]
    refine (h i a List.mem_cons_self).andThen ?_
    have htail := ih (i + 1) (before ++ enc a) (Nat.le_of_succ_le_succ hn)
      (fun j b hb => h j b (List.mem_cons_of_mem a hb)) fun b hb => hpos b (List.mem_cons_of_mem a hb)
    exact htail.map (a :: ·)

/-- **Items to the end** of the buffer are read back. -/
theorem ReadsAt.untilDone {item : Nat → Reader τ ε α} {enc : α → List τ} (as : List α) (i : Nat)
    (before : List τ) (h : ∀ j, ∀ a ∈ as, Reads (item j) (enc a) a) (hpos : ∀ a ∈ as, enc a ≠ []) :
    ReadsAt (Reader.untilDone item i) before (as.flatMap enc) [] as := by
  refine ReadsAt.here (ReadsAt.itemsFrom as i before ?_ h hpos)
  have hlen : ∀ bs : List α, (∀ a ∈ bs, enc a ≠ []) → bs.length ≤ (bs.flatMap enc).length := by
    intro bs
    induction bs with
    | nil => exact fun _ => Nat.zero_le _
    | cons b bs ih =>
      intro hbs
      have hb : 0 < (enc b).length := List.length_pos_iff.mpr (hbs b List.mem_cons_self)
      have hle := ih fun a ha => hbs a (List.mem_cons_of_mem b ha)
      rw [List.flatMap_cons, List.length_append, List.length_cons]
      omega
  have hle := hlen as hpos
  simp only [List.length_append, List.length_nil]
  omega

theorem ReadsAt.run (h : ReadsAt r [] bs [] a) : Reader.run r bs = .ok a := by
  unfold ReadsAt at h
  rw [List.nil_append, List.append_nil] at h
  change r ⟨bs, 0⟩ = _ at h
  show (r ⟨bs, 0⟩).map Prod.fst = _
  rw [h]
  rfl

theorem Reads.run (h : Reads r bs a) (rest : List τ) : Reader.run r (bs ++ rest) = .ok a := by
  have hread := h [] rest
  unfold ReadsAt at hread
  show (r ⟨bs ++ rest, 0⟩).map Prod.fst = _
  rw [show r ⟨bs ++ rest, 0⟩ = _ from hread]
  rfl

/-! ## What was taken -/

theorem bind_ok {f : α → Reader τ ε β} {c c'' : Cursor τ} :
    (r >>= f) c = .ok (b, c'') ↔ ∃ a c', r c = .ok (a, c') ∧ f a c' = .ok (b, c'') := by
  show (match r c with
    | .ok (a, c') => f a c'
    | .error e => .error e) = _ ↔ _
  constructor
  · intro h
    split at h
    · rename_i a c' hr
      exact ⟨a, c', hr, h⟩
    · cases h
  · rintro ⟨a, c', hr, hf⟩
    rw [hr]
    exact hf

theorem require_ok {p : Prop} [Decidable p] {e : ε} {c c' : Cursor τ} {u : Unit}
    (h : Reader.require p e c = .ok (u, c')) : p ∧ c' = c := by
  unfold Reader.require at h
  split at h
  · rename_i hp
    cases h
    exact ⟨hp, rfl⟩
  · cases h

/-- When `r` returns `a` it took some `taken` and left some `rest` for which `Q` holds. -/
def Takes (r : Reader τ ε α) (Q : α → List τ → List τ → Prop) : Prop :=
  ∀ before bs a c', r ⟨before ++ bs, before.length⟩ = .ok (a, c') →
    ∃ taken rest, bs = taken ++ rest ∧ c' = ⟨before ++ bs, before.length + taken.length⟩ ∧
      Q a taken rest

variable {Q : α → List τ → List τ → Prop}

theorem Reads.takes (h : Reads r bs a) (hQ : Takes r Q) (rest : List τ) : Q a bs rest := by
  have hread := h [] rest
  unfold ReadsAt at hread
  obtain ⟨taken, rest', hsplit, hc, hq⟩ := hQ [] (bs ++ rest) a _ hread
  have hlen : bs.length = taken.length := by
    have hpos := congrArg Cursor.pos hc
    exact Nat.add_left_cancel hpos
  obtain ⟨rfl, rfl⟩ := List.append_inj hsplit hlen
  exact hq

/-- When `r` returns `a` it took the encoding of `a`. -/
def Undoes (r : Reader τ ε α) (enc : α → List τ) : Prop := Takes r fun a taken _ => taken = enc a

theorem Takes.pure (h : ∀ rest, Q a [] rest) : Takes (Pure.pure a : Reader τ ε α) Q := by
  intro before bs a' c' heq
  cases heq
  exact ⟨[], bs, rfl, rfl, h bs⟩

theorem Takes.mono {Q' : α → List τ → List τ → Prop} (h : Takes r Q)
    (himp : ∀ a t rest, Q a t rest → Q' a t rest) : Takes r Q' := by
  intro before bs a c' heq
  obtain ⟨t, rest, hbs, hc, hQ⟩ := h before bs a c' heq
  exact ⟨t, rest, hbs, hc, himp a t rest hQ⟩

theorem Takes.mapError {f : ε → ε} (h : Takes r Q) : Takes (r.mapError f) Q := by
  intro before bs a c' heq
  unfold Reader.mapError at heq
  split at heq
  · rename_i x hr
    cases heq
    exact h before bs a c' hr
  · cases heq

theorem Takes.bind {f : α → Reader τ ε β} {Q' : β → List τ → List τ → Prop} (h : Takes r Q)
    (hf : ∀ a t, Takes (f a) fun b u rest => Q a t (u ++ rest) → Q' b (t ++ u) rest) : Takes (r >>= f) Q' := by
  intro before bs b c'' heq
  obtain ⟨a, c', hr, hrest⟩ := bind_ok.mp heq
  obtain ⟨t, rest, rfl, rfl, hQ⟩ := h before bs a c' hr
  have hcursor : (⟨before ++ (t ++ rest), before.length + t.length⟩ : Cursor τ) =
      ⟨(before ++ t) ++ rest, (before ++ t).length⟩ := by
    rw [List.append_assoc, List.length_append]
  rw [hcursor] at hrest
  obtain ⟨u, rest', rfl, rfl, hQ'⟩ := hf a t (before ++ t) rest b c'' hrest
  refine ⟨t ++ u, rest', (List.append_assoc t u rest').symm, ?_, hQ' hQ⟩
  simp only [List.append_assoc, List.length_append, Nat.add_assoc]

theorem Undoes.andThen {enc : α → List τ} {f : α → Reader τ ε β} {Q' : β → List τ → List τ → Prop}
    (h : Undoes r enc) (hf : ∀ a, Takes (f a) fun b u rest => Q' b (enc a ++ u) rest) : Takes (r >>= f) Q' := by
  refine Takes.bind h fun a t => (hf a).mono fun b u rest hQ ht => ?_
  rw [ht]
  exact hQ

theorem Takes.lift {x : Except ε α} {f : α → Reader τ ε β} {Q' : β → List τ → List τ → Prop}
    (hf : ∀ a, x = .ok a → Takes (f a) Q') : Takes (Reader.lift x >>= f) Q' := by
  cases x with
  | ok a => exact hf a rfl
  | error e =>
    intro before bs b c' heq
    cases heq

theorem Takes.atEnd {e : Cursor τ → ε} {f : Unit → Reader τ ε β} {Q' : β → List τ → List τ → Prop}
    (hf : Takes (f ()) fun b u rest => u = [] → rest = [] → Q' b [] []) :
    Takes (Reader.here >>= fun c => Reader.require (c.buf.length - c.pos = 0) (e c) >>= f) Q' := by
  intro before bs b c' heq
  change (Reader.require (_ : Prop) _ >>= f) _ = _ at heq
  unfold Reader.require at heq
  split at heq
  · rename_i hleft
    have hnil : bs = [] := by
      rw [List.length_append, Nat.add_sub_cancel_left] at hleft
      exact List.eq_nil_of_length_eq_zero hleft
    subst hnil
    obtain ⟨u, rest, hnil, hc, hQ⟩ := hf before [] b c' heq
    obtain ⟨rfl, rfl⟩ := List.append_eq_nil_iff.mp hnil.symm
    exact ⟨[], [], rfl, hc, hQ rfl rfl⟩
  · cases heq

theorem Takes.take (short : Nat → ε) (n : Nat) :
    Takes (Reader.take short n : Reader τ ε (List τ)) fun b taken _ => taken = b ∧ b.length = n := by
  intro before bs b c' heq
  unfold Reader.take at heq
  split at heq
  · cases heq
  · rename_i hleft
    rw [List.length_append, Nat.add_sub_cancel_left] at hleft
    rw [List.drop_left] at heq
    cases heq
    have hlen : (bs.take n).length = n := by
      rw [List.length_take]
      omega
    exact ⟨bs.take n, bs.drop n, (List.take_append_drop n bs).symm, by rw [hlen], rfl, hlen⟩

theorem Takes.itemsFrom {item : Nat → Reader τ ε α} {enc : α → List τ}
    (h : ∀ i, Undoes (item i) enc) (hpos : ∀ a, enc a ≠ []) (n i : Nat) (before bs : List τ)
    (hn : bs.length ≤ n) (as : List α) (c' : Cursor τ)
    (heq : Reader.itemsFrom item n i ⟨before ++ bs, before.length⟩ = .ok (as, c')) :
    bs = as.flatMap enc ∧ c' = ⟨before ++ bs, before.length + bs.length⟩ := by
  induction n generalizing i before bs as with
  | zero =>
    obtain rfl := List.eq_nil_of_length_eq_zero (Nat.le_zero.mp hn)
    cases heq
    exact ⟨rfl, rfl⟩
  | succ n ih =>
    change (if (before ++ bs).length ≤ before.length then _ else _ : Reader τ ε (List α)) _ = _ at heq
    split at heq
    · rename_i hdone
      obtain rfl : bs = [] := by
        rw [List.length_append] at hdone
        exact List.eq_nil_of_length_eq_zero (by omega)
      cases heq
      exact ⟨rfl, rfl⟩
    · obtain ⟨a, c₁, hitem, hrest⟩ := bind_ok.mp heq
      obtain ⟨as', c₂, htail, hpure⟩ := bind_ok.mp hrest
      cases hpure
      obtain ⟨t, rest, rfl, rfl, rfl⟩ := h i before _ a c₁ hitem
      have hcursor : (⟨before ++ (enc a ++ rest), before.length + (enc a).length⟩ : Cursor τ) =
          ⟨(before ++ enc a) ++ rest, (before ++ enc a).length⟩ := by
        rw [List.append_assoc, List.length_append]
      have hshort : rest.length ≤ n := by
        have hne : 0 < (enc a).length := List.length_pos_iff.mpr (hpos a)
        rw [List.length_append] at hn
        omega
      rw [hcursor] at htail
      obtain ⟨rfl, rfl⟩ := ih (i + 1) (before ++ enc a) rest hshort as' htail
      refine ⟨by rw [List.flatMap_cons], ?_⟩
      simp only [List.append_assoc, List.length_append, Nat.add_assoc]

/-- **Items to the end**: what was taken is their encodings, and nothing is left. -/
theorem Takes.untilDone {item : Nat → Reader τ ε α} {enc : α → List τ}
    (h : ∀ i, Undoes (item i) enc) (hpos : ∀ a, enc a ≠ []) (i : Nat) :
    Takes (Reader.untilDone item i) fun as taken rest => taken = as.flatMap enc ∧ rest = [] := by
  intro before bs as c' heq
  have hle : bs.length ≤ (before ++ bs).length - before.length := by
    rw [List.length_append]
    omega
  obtain ⟨hbs, hc⟩ := Takes.itemsFrom h hpos _ i before bs hle as c' heq
  exact ⟨bs, [], (List.append_nil bs).symm, hc, hbs, rfl⟩

theorem Takes.run (h : Takes r Q) {buf : List τ} (heq : Reader.run r buf = .ok a) :
    ∃ taken rest, buf = taken ++ rest ∧ Q a taken rest := by
  unfold Reader.run at heq
  cases hr : r ⟨buf, 0⟩ with
  | error e =>
    rw [hr] at heq
    cases heq
  | ok x =>
    rw [hr] at heq
    cases heq
    obtain ⟨t, rest, hbs, -, hQ⟩ := h [] buf x.1 x.2 hr
    exact ⟨t, rest, hbs, hQ⟩

/-! ## Readers that fail as they should -/

/-- At a cursor within its buffer the reader takes what it would take anywhere, or fails as `ok` says. -/
structure Tame (r : Reader τ ε α) (ok : ε → Prop) : Prop where
  takes : Takes r fun a taken _ => Reads r taken a
  fails : ∀ before bs e, r ⟨before ++ bs, before.length⟩ = .error e → ok e

theorem Reads.bind_eq {f : α → Reader τ ε β} (h : Reads r bs a) (before rest : List τ) :
    (r >>= f) ⟨before ++ (bs ++ rest), before.length⟩ = f a ⟨(before ++ bs) ++ rest, (before ++ bs).length⟩ := by
  show (match r _ with
    | .ok (a, c') => f a c'
    | .error e => .error e) = _
  rw [h before rest, List.append_assoc, List.length_append]

theorem bind_error {f : α → Reader τ ε β} {c : Cursor τ} {e : ε} (h : (r >>= f) c = .error e) :
    r c = .error e ∨ ∃ a c', r c = .ok (a, c') ∧ f a c' = .error e := by
  change (match r c with
    | .ok (a, c') => f a c'
    | .error e => .error e) = _ at h
  split at h
  · rename_i a c' hr
    exact .inr ⟨a, c', hr, h⟩
  · rename_i e' hr
    exact .inl (hr.trans (congrArg _ (Except.error.inj h)))

variable {ok : ε → Prop}

theorem Tame.pure (a : α) : Tame (Pure.pure a : Reader τ ε α) ok where
  takes := Takes.pure fun _ => Reads.pure a
  fails before bs e h := by cases h

theorem Tame.fail {e : ε} (h : ok e) : Tame (Reader.fail e : Reader τ ε α) ok where
  takes before bs a c' heq := by cases heq
  fails before bs e' heq := by
    cases heq
    exact h

theorem Tame.bind {f : α → Reader τ ε β} (h : Tame r ok) (hf : ∀ a, Tame (f a) ok) : Tame (r >>= f) ok where
  takes := h.takes.bind fun a t => ((hf a).takes).mono fun _ _ _ hu ht => ht.bind hu
  fails before bs e heq := by
    rcases bind_error heq with hr | ⟨a, c', hr, hfa⟩
    · exact h.fails before bs e hr
    · obtain ⟨t, rest, rfl, rfl, -⟩ := h.takes before bs a c' hr
      rw [← List.append_assoc, ← List.length_append] at hfa
      exact (hf a).fails (before ++ t) rest e hfa

theorem Tame.require {p : Prop} [Decidable p] {e : ε} {f : Unit → Reader τ ε β} (he : ¬ p → ok e)
    (hf : p → Tame (f ()) ok) : Tame (Reader.require p e >>= f) ok := by
  unfold Reader.require
  by_cases hp : p
  · rw [if_pos hp]
    exact hf hp
  · rw [if_neg hp]
    exact Tame.fail (he hp)

theorem Tame.lift {x : Except ε α} (h : ∀ e, x = .error e → ok e) : Tame (Reader.lift x : Reader τ ε α) ok := by
  cases x with
  | ok a => exact Tame.pure a
  | error e => exact Tame.fail (h e rfl)

theorem Tame.mapError {f : ε → ε} (h : Tame r ok) (hf : ∀ e, ok e → ok (f e)) : Tame (r.mapError f) ok where
  takes := h.takes.mapError.mono fun _ _ _ hreads => hreads.mapError
  fails before bs e heq := by
    unfold Reader.mapError at heq
    split at heq
    · cases heq
    · rename_i e' hr
      cases heq
      exact hf e' (h.fails before bs e' hr)

theorem Tame.collect {item : Nat → Reader τ ε α} (h : ∀ i, Tame (item i) ok) (i n : Nat) :
    Tame (Reader.collect item i n) ok := by
  induction n generalizing i with
  | zero => exact Tame.pure []
  | succ n ih => exact (h i).bind fun a => (ih (i + 1)).bind fun as => Tame.pure (a :: as)

theorem Tame.run (h : Tame r ok) {buf : List τ} {e : ε} (heq : Reader.run r buf = .error e) : ok e := by
  unfold Reader.run at heq
  cases hr : r ⟨buf, 0⟩ with
  | error e' =>
    rw [hr] at heq
    cases heq
    exact h.fails [] buf _ hr
  | ok x =>
    rw [hr] at heq
    cases heq

/-! ## Where a reader fails -/

/-- In front of `bs` the reader fails with `e`. -/
def FailsAt (r : Reader τ ε α) (e : ε) (before bs : List τ) : Prop :=
  r ⟨before ++ bs, before.length⟩ = .error e

variable {e e' : ε} {f : α → Reader τ ε β}

theorem not_failsAt_pure : ¬ FailsAt (Pure.pure a : Reader τ ε α) e before bs := by
  intro h
  cases h

/-- **A sequence fails** where its first part does, or behind what that has taken. -/
theorem failsAt_bind_of (h : Takes r fun a taken _ => Reads r taken a) :
    FailsAt (r >>= f) e before bs ↔ FailsAt r e before bs ∨ ∃ a taken rest, bs = taken ++ rest ∧
      Reads r taken a ∧ FailsAt (f a) e (before ++ taken) rest := by
  constructor
  · intro hfails
    rcases bind_error hfails with hr | ⟨a, c', hr, hf⟩
    · exact .inl hr
    · obtain ⟨taken, rest, rfl, rfl, hreads⟩ := h before bs a c' hr
      rw [← List.append_assoc, ← List.length_append] at hf
      exact .inr ⟨a, taken, rest, rfl, hreads, hf⟩
  · rintro (hr | ⟨a, taken, rest, rfl, hreads, hf⟩)
    · show (match r _ with
        | .ok (a, c') => f a c'
        | .error e => .error e) = _
      rw [show r _ = .error e from hr]
    · exact (hreads.bind_eq before rest).trans hf

theorem failsAt_bind (h : Tame r (· ≠ e)) : FailsAt (r >>= f) e before bs ↔
    ∃ a taken rest, bs = taken ++ rest ∧ Reads r taken a ∧ FailsAt (f a) e (before ++ taken) rest := by
  rw [failsAt_bind_of h.takes, or_iff_right]
  exact fun hr => h.fails before bs e hr rfl

theorem failsAt_require {p : Prop} [Decidable p] {f : Unit → Reader τ ε β} :
    FailsAt (Reader.require p e' >>= f) e before bs ↔ (¬ p ∧ e' = e) ∨ (p ∧ FailsAt (f ()) e before bs) := by
  unfold Reader.require
  by_cases hp : p
  · rw [if_pos hp]
    exact ⟨fun h => .inr ⟨hp, h⟩, fun h => (h.resolve_left fun hn => hn.1 hp).2⟩
  · rw [if_neg hp]
    constructor
    · exact fun h => .inl ⟨hp, Except.error.inj h⟩
    · rintro (⟨-, rfl⟩ | ⟨h, -⟩)
      · rfl
      · exact absurd h hp

theorem failsAt_here {f : Cursor τ → Reader τ ε β} : FailsAt (Reader.here >>= f) e before bs ↔
    FailsAt (f ⟨before ++ bs, before.length⟩) e before bs := Iff.rfl

theorem failsAt_peek (hr : r ⟨before ++ bs, before.length⟩ = .ok (a, ⟨before ++ bs, before.length⟩)) :
    FailsAt (r >>= f) e before bs ↔ FailsAt (f a) e before bs := by
  unfold FailsAt
  show (match r _ with
    | .ok (a, c') => f a c'
    | .error e => .error e) = _ ↔ _
  rw [hr]

theorem failsAt_lift {x : Except ε α} : FailsAt (Reader.lift x >>= f) e before bs ↔
    x = .error e ∨ ∃ a, x = .ok a ∧ FailsAt (f a) e before bs := by
  cases x with
  | ok a =>
    constructor
    · exact fun h => .inr ⟨a, rfl, h⟩
    · rintro (h | ⟨a', h, hf⟩)
      · cases h
      · cases h
        exact hf
  | error e₁ =>
    constructor
    · exact fun h => .inl (congrArg Except.error (Except.error.inj h))
    · rintro (h | ⟨a', h, -⟩)
      · exact congrArg Except.error (Except.error.inj h)
      · cases h

theorem failsAt_map (g : α → β) : FailsAt (do let a ← r; Pure.pure (g a)) e before bs ↔ FailsAt r e before bs := by
  constructor
  · intro h
    rcases bind_error h with hr | ⟨a, c', -, hpure⟩
    · exact hr
    · cases hpure
  · intro h
    show (match r _ with
      | .ok (a, c') => (Pure.pure (g a) : Reader τ ε β) c'
      | .error e => .error e) = _
    rw [show r _ = .error e from h]

/-! ## What can be returned -/

/-- Whatever the buffer, what the reader returns satisfies `p`. -/
def Returns (r : Reader τ ε α) (p : α → Prop) : Prop := ∀ c a c', r c = .ok (a, c') → p a

theorem Returns.pure {p : α → Prop} (h : p a) : Returns (Pure.pure a : Reader τ ε α) p := by
  intro c a' c' heq
  cases heq
  exact h

theorem Returns.bind {f : α → Reader τ ε β} {p : β → Prop} (h : ∀ a, Returns (f a) p) : Returns (r >>= f) p := by
  intro c b c' heq
  change (match r c with
    | .ok (a, c'') => f a c''
    | .error e => .error e) = _ at heq
  split at heq
  · rename_i a c'' _
    exact h a c'' b c' heq
  · cases heq

theorem Returns.require {q : Prop} [Decidable q] {e : ε} {f : Unit → Reader τ ε β} {p : β → Prop}
    (h : q → Returns (f ()) p) : Returns (Reader.require q e >>= f) p := by
  intro c b c' heq
  unfold Reader.require at heq
  split at heq
  · rename_i hq
    exact h hq c b c' heq
  · cases heq

end Reader

end BuildYourOwn.Lib
