import Mathlib.Data.List.Infix

/-!
# Replicated logs: overwriting, log matching, runs

A log is a list; positions count from 0.

* `graft log i es` writes `es` into `log` from position `i` on, one entry at a time: an entry that
  is already there stays, the first one that differs cuts the log before it is pushed, and the
  rest is pushed. `graft_eq` is the closed form: the log itself when `es` is already there, and
  otherwise the first `i` entries followed by `es`.
* `LogMatching l m`: where the two logs hold the same entry, they agree on everything up to it.
  In a family of matching logs the prefixes of its members match too, and grafting a slice of a
  member onto such a prefix gives such a prefix again (`graft_initial_mem`).
* `shared l m` is how many entries the two have in common from the start; among matching logs, grafting
  a slice of one onto the other never lowers it (`shared_le_graft`).
* `runs l` counts the maximal runs of equal entries, `runsBelow l n` those that start below `n`.
-/

namespace BuildYourOwn.Lib

variable {α : Type} [DecidableEq α]

/-! ## Overwriting a log -/

/-- One entry written at position `i`. -/
def put (log : List α) (i : Nat) (e : α) : List α :=
  match log[i]? with
  | some x => if x = e then log else log.take i ++ [e]
  | none => log ++ [e]

/-- The entries written one after another from position `i` on. -/
def graft (log : List α) (i : Nat) : List α → List α
  | [] => log
  | e :: es => graft (put log i e) (i + 1) es

variable {log : List α} {i : Nat}

theorem put_length (hi : i ≤ log.length) (e : α) : i + 1 ≤ (put log i e).length := by
  unfold put
  split
  · rename_i x hx
    have hlt := (List.getElem?_eq_some_iff.mp hx).1
    split
    · exact hlt
    · rw [List.length_append, List.length_take, List.length_singleton]
      omega
  · rw [List.length_append, List.length_singleton]
    omega

theorem put_take (hi : i ≤ log.length) (e : α) : (put log i e).take (i + 1) = log.take i ++ [e] := by
  unfold put
  split
  · rename_i x hx
    split
    · rename_i hxe
      rw [List.take_add_one, hx, hxe]
      rfl
    · exact List.take_of_length_le
        (by rw [List.length_append, List.length_take, List.length_singleton]; omega)
  · rename_i hx
    have hlen : log.length ≤ i := List.getElem?_eq_none_iff.mp hx
    rw [List.take_of_length_le (by simp; omega), List.take_of_length_le hlen]

theorem put_cases (log : List α) (i : Nat) (e : α) :
    (log[i]? = some e ∧ put log i e = log) ∨ (log[i]? ≠ some e ∧ put log i e = log.take i ++ [e]) := by
  unfold put
  cases hx : log[i]? with
  | none =>
    have hlen : log.length ≤ i := List.getElem?_eq_none_iff.mp hx
    exact .inr ⟨by simp, by rw [List.take_of_length_le hlen]⟩
  | some x =>
    by_cases hxe : x = e
    · subst hxe
      exact .inl ⟨rfl, by simp⟩
    · exact .inr ⟨by simpa using hxe, by simp [hxe]⟩

/-- **`graft` in closed form.** -/
theorem graft_eq : ∀ (es : List α) (log : List α) (i : Nat), i ≤ log.length →
    graft log i es = if es <+: log.drop i then log else log.take i ++ es
  | [], log, i, _ => by simp [graft]
  | e :: es, log, i, hi => by
    rw [graft, graft_eq es _ _ (put_length hi e), put_take hi e, List.append_assoc,
      List.singleton_append]
    rcases put_cases log i e with ⟨hget, hput⟩ | ⟨hget, hput⟩
    · -- the entry was there: the rest decides
      rw [hput]
      have hlt := (List.getElem?_eq_some_iff.mp hget).1
      have hdrop : log.drop i = e :: log.drop (i + 1) := by
        rw [List.drop_eq_getElem_cons hlt, (List.getElem?_eq_some_iff.mp hget).2]
      simp only [hdrop, List.cons_prefix_cons, true_and]
    · -- the log ends with the entry: the rest is pushed, and `e :: es` was not there
      have hnot : ¬ e :: es <+: log.drop i := by
        rintro ⟨rest, hrest⟩
        apply hget
        rw [← List.head?_drop, ← hrest]
        rfl
      rw [if_neg hnot, hput]
      split
      · rename_i hpre
        have hnil : es = [] := by
          rw [List.drop_of_length_le
            (by rw [List.length_append, List.length_take, List.length_singleton]; omega)] at hpre
          exact List.prefix_nil.mp hpre
        rw [hnil]
      · rfl

theorem graft_length_le (hi : i ≤ log.length) (es : List α) : i + es.length ≤ (graft log i es).length := by
  rw [graft_eq es log i hi]
  split
  · rename_i h
    have := h.length_le
    rw [List.length_drop] at this
    omega
  · rw [List.length_append, List.length_take]
    omega

theorem graft_initial (hi : i ≤ log.length) (es : List α) : log.take i ++ es <+: graft log i es := by
  rw [graft_eq es log i hi]
  split
  · rename_i h
    obtain ⟨rest, hrest⟩ := h
    exact ⟨rest, by rw [List.append_assoc, hrest, List.take_append_drop]⟩
  · exact List.prefix_rfl

theorem graft_drop {s i : Nat} (hs : s ≤ i) (hi : i ≤ log.length) (es : List α) :
    graft (log.drop s) (i - s) es = (graft log i es).drop s := by
  rw [graft_eq es log i hi, graft_eq es _ _ (by rw [List.length_drop]; omega), List.drop_drop,
    Nat.add_sub_cancel' hs]
  split
  · rfl
  · rw [List.drop_append_of_le_length (by rw [List.length_take]; omega), List.drop_take]

/-! ## Log matching -/

/-- Two logs holding the same entry at a position agree on every position up to it. -/
def LogMatching (l m : List α) : Prop :=
  ∀ i x, l[i]? = some x → m[i]? = some x → l.take (i + 1) = m.take (i + 1)

variable {l m : List α}

omit [DecidableEq α] in
theorem LogMatching.symm (h : LogMatching l m) : LogMatching m l :=
  fun i x hm hl => (h i x hl hm).symm

omit [DecidableEq α] in
theorem take_of_initial (h : l <+: m) {n : Nat} (hn : n ≤ l.length) : l.take n = m.take n := by
  obtain ⟨rest, rfl⟩ := h
  exact (List.take_append_of_le_length hn).symm

omit [DecidableEq α] in
theorem LogMatching.of_initial {l l' m : List α} (h : LogMatching l m) (hp : l' <+: l) : LogMatching l' m := by
  intro i x hl hm
  have hlt := (List.getElem?_eq_some_iff.mp hl).1
  rw [take_of_initial hp hlt]
  obtain ⟨rest, rfl⟩ := hp
  exact h i x (by rw [List.getElem?_append_left hlt, hl]) hm

omit [DecidableEq α] in
theorem LogMatching.prefixes {l l' m m' : List α} (h : LogMatching l m) (hl : l' <+: l)
    (hm : m' <+: m) : LogMatching l' m' :=
  ((h.of_initial hl).symm.of_initial hm).symm

omit [DecidableEq α] in
theorem LogMatching.refl (l : List α) : LogMatching l l := fun _ _ _ _ => rfl

/-- The last entry below position `i` is `L`'s, when there is one. -/
def Anchored (log L : List α) (i : Nat) : Prop :=
  i = 0 ∨ ∃ x, log[i - 1]? = some x ∧ L[i - 1]? = some x

variable {log L : List α}

omit [DecidableEq α] in
theorem LogMatching.take_eq (h : LogMatching log L) (ha : Anchored log L i) : log.take i = L.take i := by
  rcases ha with rfl | ⟨x, hx, hx'⟩
  · rfl
  · by_cases h0 : i = 0
    · rw [h0]
      rfl
    · have := h (i - 1) x hx hx'
      rwa [Nat.sub_add_cancel (by omega)] at this

/-- **Grafting a slice of a member** of a matching family onto a prefix of a member gives a prefix
of a member. -/
theorem graft_initial_mem {F : Set (List α)} (hF : ∀ l ∈ F, ∀ m ∈ F, LogMatching l m)
    {log L P : List α} (hP : P ∈ F) (hlog : log <+: P) (hL : L ∈ F)
    (hi : i ≤ log.length) (ha : Anchored log L i) {es : List α} (hes : es <+: L.drop i) :
    ∃ P' ∈ F, graft log i es <+: P' := by
  rw [graft_eq es log i hi]
  split
  · exact ⟨P, hP, hlog⟩
  · refine ⟨L, hL, ?_⟩
    rw [((hF P hP L hL).of_initial hlog).take_eq ha]
    obtain ⟨rest, hrest⟩ := hes
    exact ⟨rest, by rw [List.append_assoc, hrest, List.take_append_drop]⟩

/-! ## The common prefix -/

/-- How many entries two logs share from the start. -/
def shared : List α → List α → Nat
  | x :: l, y :: m => if x = y then shared l m + 1 else 0
  | _, _ => 0

theorem le_shared_iff {n : Nat} : n ≤ shared l m ↔ n ≤ l.length ∧ n ≤ m.length ∧ l.take n = m.take n := by
  induction l generalizing m n with
  | nil =>
    rw [shared]
    · exact ⟨fun h => by simp [Nat.le_zero.mp h], fun h => h.1⟩
    · simp
  | cons x l ih =>
    cases m with
    | nil =>
      rw [shared]
      · exact ⟨fun h => by simp [Nat.le_zero.mp h], fun h => h.2.1⟩
      · simp
    | cons y m =>
      cases n with
      | zero => simp
      | succ n =>
        rw [shared, List.take_succ_cons, List.take_succ_cons, List.length_cons, List.length_cons]
        split
        · rename_i hxy
          rw [Nat.add_le_add_iff_right, ih, hxy]
          simp
        · rename_i hxy
          exact ⟨fun h => absurd h (by omega), fun h => absurd (List.cons.inj h.2.2).1 hxy⟩

theorem shared_mono {l m m' : List α} (h : m <+: m') : shared l m ≤ shared l m' := by
  obtain ⟨hl, hm, htake⟩ := le_shared_iff.mp (Nat.le_refl (shared l m))
  exact le_shared_iff.mpr ⟨hl, hm.trans h.length_le, htake.trans (take_of_initial h hm)⟩

theorem shared_graft (hi : i ≤ log.length) (ha : log.take i = L.take i)
    {es : List α} (hes : es <+: L.drop i) (hL : i ≤ L.length) : i + es.length ≤ shared (graft log i es) L := by
  have hinitial := graft_initial hi es
  have hlength : (L.take i ++ es).length = i + es.length := by
    rw [List.length_append, List.length_take, Nat.min_eq_left hL]
  have hle := hes.length_le
  rw [List.length_drop] at hle
  obtain ⟨rest, hrest⟩ := hes
  have htake : L.take (i + es.length) = L.take i ++ es := by
    conv_lhs => rw [← List.take_append_drop i L, ← hrest, ← List.append_assoc]
    exact List.take_left' hlength
  refine le_shared_iff.mpr ⟨graft_length_le hi es, by omega, ?_⟩
  rw [ha] at hinitial
  rw [← take_of_initial hinitial (Nat.le_of_eq hlength.symm), htake, ← hlength, List.take_length]

theorem shared_le_graft (hi : i ≤ log.length) (ha : log.take i = L.take i)
    {es : List α} (hes : es <+: L.drop i) (hL : i ≤ L.length) : shared log L ≤ shared (graft log i es) L := by
  have hnew := shared_graft hi ha hes hL
  rw [graft_eq es log i hi] at hnew ⊢
  split at hnew
  · rw [if_pos ‹_›]
  · rename_i hcut
    rw [if_neg hcut]
    -- the entries are not all there, so the logs part before the last of them
    by_contra hlt
    obtain ⟨hl, hm, htake⟩ := le_shared_iff.mp (show i + es.length ≤ shared log L by omega)
    obtain ⟨rest, hrest⟩ := hes
    refine hcut (List.prefix_iff_eq_take.mpr ?_)
    calc es = (L.take (i + es.length)).drop i := by
          rw [List.drop_take, Nat.add_sub_cancel_left, ← hrest, List.take_left]
      _ = (log.drop i).take es.length := by rw [← htake, List.drop_take, Nat.add_sub_cancel_left]

/-! ## Runs of equal entries -/

/-- Position `i` starts a run: nothing is before it, or something else is. -/
def startsRun (l : List α) (i : Nat) : Bool := i == 0 || l[i - 1]? != l[i]?

/-- How many runs start below position `n`. -/
def runsBelow (l : List α) (n : Nat) : Nat := (List.range n).countP (startsRun l)

/-- How many maximal runs of equal entries the log has: one for each position that starts one. -/
def runs (l : List α) : Nat := runsBelow l l.length

example : runs [1, 1, 2, 2, 2, 1] = 3 := by decide

theorem runsBelow_mono (l : List α) {m n : Nat} (h : m ≤ n) : runsBelow l m ≤ runsBelow l n := by
  unfold runsBelow
  exact List.Sublist.countP_le (List.range_sublist.mpr h)

theorem runsBelow_lt {l : List α} {i n : Nat} (hs : startsRun l i = true) (hi : i < n) :
    runsBelow l i < runsBelow l n := by
  have h1 : runsBelow l (i + 1) = runsBelow l i + 1 := by
    unfold runsBelow
    rw [List.range_succ, List.countP_append, List.countP_singleton, if_pos hs]
  have h2 := runsBelow_mono l (show i + 1 ≤ n from hi)
  omega

end BuildYourOwn.Lib
