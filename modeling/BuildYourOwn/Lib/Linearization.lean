import Mathlib.Data.List.Induction
import Mathlib.Data.List.Perm.Basic
import Mathlib.Order.Lattice

/-!
# Linearizations of an observed history

An `Object` is a sequential object seen from outside: `step` is what it does with one operation
(`none` when it could not have answered as observed), `call` and `ret` bound the instant at which
the operation took effect, and an `optional` operation need not have taken effect at all.

`Linearizes s ops l`: the sequence `l` holds every operation of `ops` once, some optional ones left
out, never puts an operation after one that was called only when it had already returned, and is
accepted from `s`.
-/

namespace BuildYourOwn.Lib

structure Object (Op S T : Type) where
  call : Op → T
  ret : Op → T
  optional : Op → Prop
  step : S → Op → Option S

namespace Object

variable {Op S T K : Type} [LinearOrder T] (O : Object Op S T)

/-- The state after a sequence of operations. -/
def replay : S → List Op → Option S
  | s, [] => some s
  | s, x :: l => (O.step s x).bind fun s' => replay s' l

/-- Nothing comes after an operation called only when it had returned. -/
def Respects (l : List Op) : Prop := l.Pairwise fun a b => ¬ O.ret b < O.call a

/-- `l` is a linearization of `ops` from `s`. -/
structure Linearizes (s : S) (ops l : List Op) : Prop where
  whole : ∃ skipped, (l ++ skipped).Perm ops ∧ ∀ x ∈ skipped, O.optional x
  respects : O.Respects l
  accepted : (O.replay s l).isSome

def Linearizable (s : S) (ops : List Op) : Prop := ∃ l, O.Linearizes s ops l

structure WellTimed (ops : List Op) : Prop where
  window : ∀ x ∈ ops, O.call x ≤ O.ret x
  pending : ∀ x ∈ ops, O.optional x → ∀ y ∈ ops, O.call y ≤ O.ret x

variable {O} {s : S} {ops ops' l : List Op}

theorem Linearizes.perm (h : O.Linearizes s ops l) (hp : ops.Perm ops') : O.Linearizes s ops' l := by
  obtain ⟨skipped, hsk, hopt⟩ := h.whole
  exact ⟨⟨skipped, hsk.trans hp, hopt⟩, h.respects, h.accepted⟩

theorem Linearizable.perm (h : O.Linearizable s ops) (hp : ops.Perm ops') : O.Linearizable s ops' := by
  obtain ⟨l, hl⟩ := h
  exact ⟨l, hl.perm hp⟩

theorem Linearizes.mem (h : O.Linearizes s ops l) {x : Op} (hx : x ∈ l) : x ∈ ops := by
  obtain ⟨skipped, hsk, -⟩ := h.whole
  exact hsk.subset (List.mem_append_left _ hx)

/-! ## The candidate rule -/

theorem linearizable_of_optional (h : ∀ x ∈ ops, O.optional x) : O.Linearizable s ops :=
  ⟨[], ⟨ops, List.Perm.refl _, h⟩, List.Pairwise.nil, rfl⟩

theorem Linearizable.cons {e : Op} {s' : S} (h : O.Linearizable s' ops)
    (hfirst : ∀ x ∈ ops, O.call e ≤ O.ret x) (hstep : O.step s e = some s') : O.Linearizable s (e :: ops) := by
  obtain ⟨l, hl⟩ := h
  obtain ⟨skipped, hsk, hopt⟩ := hl.whole
  refine ⟨e :: l, ⟨skipped, hsk.cons e, hopt⟩, ?_, ?_⟩
  · exact List.pairwise_cons.mpr ⟨fun x hx => not_lt.mpr (hfirst x (hl.mem hx)), hl.respects⟩
  · unfold replay
    rw [hstep]
    exact hl.accepted

theorem linearizable_iff_candidate (ht : O.WellTimed ops) : O.Linearizable s ops ↔ (∀ x ∈ ops, O.optional x) ∨
      ∃ e rest s', ops.Perm (e :: rest) ∧ (∀ x ∈ rest, O.call e ≤ O.ret x) ∧
        O.step s e = some s' ∧ O.Linearizable s' rest := by
  constructor
  · rintro ⟨l, hl⟩
    obtain ⟨skipped, hsk, hopt⟩ := hl.whole
    cases l with
    | nil => exact .inl fun x hx => hopt x (hsk.symm.subset hx)
    | cons e l =>
      obtain ⟨hfirst, hrest⟩ := List.pairwise_cons.mp hl.respects
      have hacc := hl.accepted
      unfold replay at hacc
      cases hstep : O.step s e with
      | none =>
        rw [hstep] at hacc
        cases hacc
      | some s' =>
        rw [hstep] at hacc
        refine .inr ⟨e, l ++ skipped, s', hsk.symm, fun x hx => ?_, hstep,
          ⟨l, ⟨skipped, List.Perm.refl _, hopt⟩, hrest, hacc⟩⟩
        rcases List.mem_append.mp hx with hx | hx
        · exact not_lt.mp (hfirst x hx)
        -- one that is left out is still pending when `e` is called
        · exact ht.pending x (hsk.subset (List.mem_append_right _ hx)) (hopt x hx) e
            (hsk.subset List.mem_cons_self)
  · rintro (hopt | ⟨e, rest, s', hp, hfirst, hstep, h⟩)
    · exact linearizable_of_optional hopt
    · exact (h.cons hfirst hstep).perm hp.symm

/-! ## Forgetting answers -/

variable (O) in
/-- `f` only forgets what was observed: it rules out nothing that was possible. -/
structure Forgets (f : Op → Op) : Prop where
  call : ∀ x, O.call (f x) = O.call x
  ret : ∀ x, O.ret x ≤ O.ret (f x)
  optional : ∀ x, O.optional x → O.optional (f x)
  step : ∀ s x s', O.step s x = some s' → O.step s (f x) = some s'

variable {f : Op → Op}

theorem Forgets.of_cases (hf : O.Forgets f) {g : Op → Op} (hg : ∀ x, g x = x ∨ g x = f x) : O.Forgets g where
  call x := by
    rcases hg x with h | h
    · rw [h]
    · rw [h, hf.call]
  ret x := by
    rcases hg x with h | h
    · rw [h]
    · rw [h]
      exact hf.ret x
  optional x hopt := by
    rcases hg x with h | h
    · rwa [h]
    · rw [h]
      exact hf.optional x hopt
  step s x s' hstep := by
    rcases hg x with h | h
    · rwa [h]
    · rw [h]
      exact hf.step s x s' hstep

theorem Forgets.respects (hf : O.Forgets f) (h : O.Respects l) : O.Respects (l.map f) := by
  refine List.pairwise_map.mpr (h.imp fun {a b} hab => ?_)
  rw [hf.call]
  exact fun hlt => hab (lt_of_le_of_lt (hf.ret b) hlt)

omit [LinearOrder T] in
theorem replay_append (l₁ l₂ : List Op) : O.replay s (l₁ ++ l₂) = (O.replay s l₁).bind fun s' => O.replay s' l₂ := by
  induction l₁ generalizing s with
  | nil => rfl
  | cons x l₁ ih =>
    rw [List.cons_append, replay, replay, Option.bind_assoc]
    exact Option.bind_congr fun _ _ => ih

theorem Forgets.replay (hf : O.Forgets f) {s' : S} (h : O.replay s l = some s') : O.replay s (l.map f) = some s' := by
  induction l generalizing s with
  | nil => exact h
  | cons x l ih =>
    obtain ⟨s₁, hstep, hrest⟩ := Option.bind_eq_some_iff.mp h
    exact Option.bind_eq_some_iff.mpr ⟨s₁, hf.step s x s₁ hstep, ih hrest⟩

/-- A sequence cut after the last of its elements with `p`. -/
theorem exists_cut (p : Op → Prop) (l : List Op) :
    ∃ l₁ l₂, l = l₁ ++ l₂ ∧ (∀ x ∈ l₂, ¬ p x) ∧ ∀ x ∈ l₁, ∃ l₀ y, l₁ = l₀ ++ [y] ∧ p y := by
  induction l using List.reverseRecOn with
  | nil =>
    exact ⟨[], [], rfl, List.forall_mem_nil _,
      List.forall_mem_nil _⟩
  | append_singleton l a ih =>
    by_cases ha : p a
    · exact ⟨l ++ [a], [], (List.append_nil _).symm, List.forall_mem_nil _,
        fun _ _ => ⟨l, a, rfl, ha⟩⟩
    · obtain ⟨l₁, l₂, rfl, hout, hlast⟩ := ih
      refine ⟨l₁, l₂ ++ [a], List.append_assoc .., fun x hx => ?_, hlast⟩
      rcases List.mem_append.mp hx with hx | hx
      · exact hout x hx
      · exact List.mem_singleton.mp hx ▸ ha

/-- **What was possible stays possible when answers are forgotten**, also without the operations
that `keep` drops, if none of them could come before an operation that is still needed. The order
is cut after the last needed operation: all before it is kept. -/
theorem Linearizable.weaken (h : O.Linearizable s ops) (hf : O.Forgets f) {keep : Op → Bool}
    (hkeep : ∀ x ∈ ops, ∀ y ∈ ops, ¬ O.optional (f y) → ¬ O.ret y < O.call x → keep x = true)
    (hw : ∀ x ∈ ops, O.call x ≤ O.ret x) : O.Linearizable s ((ops.filter keep).map f) := by
  obtain ⟨l, hl⟩ := h
  obtain ⟨skipped, hsk, hopt⟩ := hl.whole
  obtain ⟨l₁, l₂, rfl, hout, hlast⟩ := exists_cut (fun y => ¬ O.optional (f y)) l
  have hkept : ∀ x ∈ l₁, keep x = true := by
    intro x hx
    obtain ⟨l₀, y, rfl, hy⟩ := hlast x hx
    have hyops : y ∈ ops := hl.mem (List.mem_append_left _ (by simp))
    refine hkeep x (hl.mem (List.mem_append_left _ hx)) y hyops hy ?_
    rcases List.mem_append.mp hx with hx₀ | hxy
    -- `x` goes before `y`, so it was called before `y` returned
    · have hpair := (List.pairwise_append.mp (List.pairwise_append.mp hl.respects).1).2.2
      exact hpair x hx₀ y List.mem_cons_self
    · obtain rfl := List.mem_singleton.mp hxy
      exact not_lt.mpr (hw x hyops)
  refine ⟨l₁.map f, ⟨((l₂ ++ skipped).filter keep).map f, ?_, ?_⟩,
    hf.respects (List.pairwise_append.mp hl.respects).1, ?_⟩
  · rw [← List.map_append]
    refine List.Perm.map f ?_
    have hsplit : (l₁ ++ (l₂ ++ skipped)).filter keep = l₁ ++ (l₂ ++ skipped).filter keep := by
      rw [List.filter_append, List.filter_eq_self.mpr hkept]
    rw [← hsplit, ← List.append_assoc]
    exact hsk.filter _
  · intro x hx
    obtain ⟨y, hy, rfl⟩ := List.mem_map.mp hx
    rcases List.mem_append.mp (List.mem_filter.mp hy).1 with hy | hy
    · exact not_not.mp (hout y hy)
    · exact hf.optional y (hopt y hy)
  · obtain ⟨s', hs'⟩ := Option.isSome_iff_exists.mp hl.accepted
    rw [replay_append] at hs'
    obtain ⟨s₁, hs₁, -⟩ := Option.bind_eq_some_iff.mp hs'
    rw [hf.replay hs₁]
    rfl

theorem Linearizable.append_optional (h : O.Linearizable s ops)
    (hopt : ∀ x ∈ ops', O.optional x) : O.Linearizable s (ops ++ ops') := by
  obtain ⟨l, hl⟩ := h
  obtain ⟨skipped, hsk, hskopt⟩ := hl.whole
  refine ⟨l, ⟨skipped ++ ops', ?_, fun x hx => ?_⟩, hl.respects, hl.accepted⟩
  · rw [← List.append_assoc]
    exact hsk.append_right _
  · rcases List.mem_append.mp hx with hx | hx
    · exact hskopt x hx
    · exact hopt x hx

/-! ## Orders of named operations -/

theorem linearizable_of_log {N : Type} {names log : List N} (op : N → Op) (hnames : names.Nodup)
    (hlog : log.Nodup) (hsub : ∀ n ∈ log, n ∈ names)
    (hopt : ∀ n ∈ names, n ∉ log → O.optional (op n)) (hresp : O.Respects (log.map op))
    (hacc : (O.replay s (log.map op)).isSome) : O.Linearizable s (names.map op) := by
  classical
  refine ⟨log.map op, ⟨(names.filter fun n => n ∉ log).map op, ?_, fun x hx => ?_⟩, hresp, hacc⟩
  · rw [← List.map_append]
    refine List.Perm.map op ?_
    have hperm : log.Perm (names.filter fun n => n ∈ log) :=
      (List.perm_ext_iff_of_nodup hlog (hnames.filter _)).mpr fun n => by
        simpa using fun hn => hsub n hn
    have hsplit := List.filter_append_perm (fun n => decide (n ∈ log)) names
    refine (hperm.append_right _).trans (List.Perm.trans ?_ hsplit)
    simp
  · obtain ⟨n, hn, rfl⟩ := List.mem_map.mp hx
    obtain ⟨hn, hout⟩ := List.mem_filter.mp hn
    exact hopt n hn (by simpa using hout)

theorem Linearizable.of_map {f : Op → Op} (hcall : ∀ x, O.call (f x) = O.call x)
    (hret : ∀ x, O.ret (f x) = O.ret x) (hopt : ∀ x, O.optional (f x) → O.optional x)
    (hstep : ∀ s x, O.step s (f x) = O.step s x) (h : O.Linearizable s (ops.map f)) : O.Linearizable s ops := by
  obtain ⟨l', hl⟩ := h
  obtain ⟨skipped', hsk, hskopt⟩ := hl.whole
  obtain ⟨m, hm, hperm⟩ :=
    (congrFun₂ (List.eq_map_comp_perm f) (l' ++ skipped') ops).mpr hsk
  obtain ⟨l, skipped, rfl, rfl, rfl⟩ := List.append_eq_map_iff.mp hm
  have hreplay : ∀ (l : List Op) (s : S), O.replay s (l.map f) = O.replay s l := by
    intro l
    induction l with
    | nil => exact fun _ => rfl
    | cons x l ih =>
      intro s
      rw [List.map_cons, replay, replay, hstep]
      exact Option.bind_congr fun s' _ => ih s'
  refine ⟨l, ⟨skipped, hperm, fun x hx => hopt x (hskopt _ (List.mem_map_of_mem hx))⟩, ?_, ?_⟩
  · refine (List.pairwise_map.mp hl.respects).imp fun {a b} hab => ?_
    rwa [hcall, hret] at hab
  · have hacc := hl.accepted
    rwa [hreplay] at hacc

/-! ## Merging two orders -/

theorem Respects.filter (h : O.Respects l) (p : Op → Bool) : O.Respects (l.filter p) :=
  List.Pairwise.sublist List.filter_sublist h

theorem exists_merge {p : Op → Bool} {l₁ l₂ : List Op} (hp₁ : ∀ x ∈ l₁, p x = true)
    (hp₂ : ∀ x ∈ l₂, p x = false) (h₁ : O.Respects l₁) (h₂ : O.Respects l₂)
    (hw₁ : ∀ x ∈ l₁, O.call x ≤ O.ret x) (hw₂ : ∀ x ∈ l₂, O.call x ≤ O.ret x) :
    ∃ l, O.Respects l ∧ l.filter p = l₁ ∧ l.filter (fun x => !p x) = l₂ := by
  induction l₁ generalizing l₂ with
  | nil =>
    refine ⟨l₂, h₂, List.filter_eq_nil_iff.mpr fun x hx => by simp [hp₂ x hx],
      List.filter_eq_self.mpr fun x hx => by simp [hp₂ x hx]⟩
  | cons a as ih₁ =>
    induction l₂ with
    | nil =>
      exact ⟨a :: as, h₁, List.filter_eq_self.mpr hp₁,
        List.filter_eq_nil_iff.mpr fun x hx => by simp [hp₁ x hx]⟩
    | cons b bs ih₂ =>
      have hpa := hp₁ a List.mem_cons_self
      have hpb := hp₂ b List.mem_cons_self
      obtain ⟨ha, has⟩ := List.pairwise_cons.mp h₁
      obtain ⟨hb, hbs⟩ := List.pairwise_cons.mp h₂
      by_cases hfirst : ∀ y ∈ b :: bs, O.call a ≤ O.ret y
      · obtain ⟨l, hl, hl₁, hl₂⟩ := ih₁ (fun x hx => hp₁ x (List.mem_cons_of_mem _ hx)) hp₂ has h₂
          (fun x hx => hw₁ x (List.mem_cons_of_mem _ hx)) hw₂
        refine ⟨a :: l, List.pairwise_cons.mpr ⟨fun x hx => ?_, hl⟩, by simp [hpa, hl₁],
          by simp [hpa, hl₂]⟩
        cases hpx : p x with
        | true => exact ha x (hl₁ ▸ List.mem_filter.mpr ⟨hx, hpx⟩)
        | false =>
          exact not_lt.mpr (hfirst x (hl₂ ▸ List.mem_filter.mpr ⟨hx, by simp [hpx]⟩))
      · -- `y` returned before `a` was called, and `b` may precede `y`, so `b` may go first
        obtain ⟨y, hy, hya⟩ : ∃ y ∈ b :: bs, O.ret y < O.call a := by
          simpa only [not_forall, not_le, exists_prop] using hfirst
        have hby : O.call b ≤ O.ret y := by
          rcases List.mem_cons.mp hy with rfl | hy
          · exact hw₂ _ List.mem_cons_self
          · exact not_lt.mp (hb y hy)
        have hbx : ∀ x ∈ a :: as, O.call b ≤ O.ret x := by
          intro x hx
          refine le_trans (le_trans hby (le_of_lt hya)) ?_
          rcases List.mem_cons.mp hx with rfl | hx
          · exact hw₁ _ List.mem_cons_self
          · exact not_lt.mp (ha x hx)
        obtain ⟨l, hl, hl₁, hl₂⟩ := ih₂ (fun x hx => hp₂ x (List.mem_cons_of_mem _ hx)) hbs
          fun x hx => hw₂ x (List.mem_cons_of_mem _ hx)
        refine ⟨b :: l, List.pairwise_cons.mpr ⟨fun x hx => ?_, hl⟩, by simp [hpb, hl₁],
          by simp [hpb, hl₂]⟩
        cases hpx : p x with
        | true => exact not_lt.mpr (hbx x (hl₁ ▸ List.mem_filter.mpr ⟨hx, hpx⟩))
        | false => exact hb x (hl₂ ▸ List.mem_filter.mpr ⟨hx, by simp [hpx]⟩)

/-! ## Locality -/

section Locality

variable [DecidableEq K] (key : Op → K) {σ : K → S}

variable (O) in
def perKey : Object Op (K → S) T where
  call := O.call
  ret := O.ret
  optional := O.optional
  step σ x := (O.step (σ (key x)) x).map fun s => Function.update σ (key x) s

omit [LinearOrder T] in
theorem replay_perKey_isSome (l : List Op) :
    ((O.perKey key).replay σ l).isSome ↔ ∀ k, (O.replay (σ k) (l.filter fun x => key x = k)).isSome := by
  induction l generalizing σ with
  | nil => simp [replay]
  | cons x l ih =>
    have hother : ∀ k, key x ≠ k →
        ((x :: l).filter fun y => key y = k) = l.filter fun y => key y = k :=
      fun k hk => List.filter_cons_of_neg (by simpa using hk)
    have hown : ((x :: l).filter fun y => key y = key x) = x :: l.filter fun y => key y = key x :=
      List.filter_cons_of_pos (by simp)
    have hunfold : (O.perKey key).replay σ (x :: l) =
        (O.step (σ (key x)) x).bind fun s =>
          (O.perKey key).replay (Function.update σ (key x) s) l := by
      rw [replay, perKey, Option.bind_map]
      rfl
    rw [hunfold]
    cases hstep : O.step (σ (key x)) x with
    | none =>
      refine iff_of_false (by simp) fun h => ?_
      have hkx := h (key x)
      rw [hown, replay, hstep] at hkx
      cases hkx
    | some s =>
      rw [Option.bind_some, ih]
      refine forall_congr' fun k => ?_
      by_cases hk : key x = k
      · subst hk
        rw [hown, replay, hstep, Function.update_self, Option.bind_some]
      · rw [hother k hk, Function.update_of_ne (Ne.symm hk)]

theorem Linearizes.filter_key (h : (O.perKey key).Linearizes σ ops l) (k : K) :
    O.Linearizes (σ k) (ops.filter fun x => key x = k) (l.filter fun x => key x = k) := by
  obtain ⟨skipped, hsk, hopt⟩ := h.whole
  refine ⟨⟨skipped.filter fun x => key x = k, ?_, fun x hx => hopt x (List.mem_filter.mp hx).1⟩,
    Respects.filter (O := O) h.respects _, (replay_perKey_isSome key l).mp h.accepted k⟩
  rw [← List.filter_append]
  exact hsk.filter _

theorem exists_linearizes_perKey (ks : List K) (hks : ∀ x ∈ ops, key x ∈ ks) (hw : ∀ x ∈ ops, O.call x ≤ O.ret x)
    (h : ∀ k, O.Linearizable (σ k) (ops.filter fun x => key x = k)) : ∃ l, (O.perKey key).Linearizes σ ops l := by
  induction ks generalizing ops with
  | nil =>
    obtain rfl : ops = [] := List.eq_nil_iff_forall_not_mem.mpr fun x hx =>
      absurd (hks x hx) List.not_mem_nil
    exact linearizable_of_optional fun x hx => absurd hx List.not_mem_nil
  | cons k ks ih =>
    have hrest : ∀ j, ((ops.filter fun x => !decide (key x = k)).filter fun x => key x = j) =
        if j = k then [] else ops.filter fun x => key x = j := by
      intro j
      rw [List.filter_filter]
      split
      · rename_i hj
        exact List.filter_eq_nil_iff.mpr fun x _ => by simp [hj]
      · rename_i hj
        refine List.filter_congr fun x _ => ?_
        by_cases hx : key x = j
        · simp [hx, hj]
        · simp [hx]
    obtain ⟨l₂, hl₂⟩ : ∃ l, (O.perKey key).Linearizes σ
        (ops.filter fun x => !decide (key x = k)) l := by
      refine ih (fun x hx => ?_) (fun x hx => hw x (List.mem_filter.mp hx).1) fun j => ?_
      · obtain ⟨hx, hne⟩ := List.mem_filter.mp hx
        exact (List.mem_cons.mp (hks x hx)).resolve_left (by simpa using hne)
      · rw [hrest j]
        split
        · exact linearizable_of_optional fun x hx => absurd hx List.not_mem_nil
        · exact h j
    obtain ⟨l₁, hl₁⟩ := h k
    have hmem₁ : ∀ x ∈ l₁, x ∈ ops ∧ key x = k := fun x hx => by
      simpa using List.mem_filter.mp (hl₁.mem hx)
    have hmem₂ : ∀ x ∈ l₂, x ∈ ops ∧ key x ≠ k := fun x hx => by
      simpa using List.mem_filter.mp (hl₂.mem hx)
    obtain ⟨l, hl, hfst, hsnd⟩ := exists_merge (O := O) (p := fun x => decide (key x = k))
      (fun x hx => by simp [(hmem₁ x hx).2]) (fun x hx => by simp [(hmem₂ x hx).2])
      hl₁.respects hl₂.respects (fun x hx => hw x (hmem₁ x hx).1) fun x hx => hw x (hmem₂ x hx).1
    obtain ⟨skipped₁, hsk₁, hopt₁⟩ := hl₁.whole
    obtain ⟨skipped₂, hsk₂, hopt₂⟩ := hl₂.whole
    refine ⟨l, ⟨skipped₁ ++ skipped₂, ?_, fun x hx => ?_⟩, hl,
      (replay_perKey_isSome key l).mpr fun j => ?_⟩
    · have hsplit : l.Perm (l₁ ++ l₂) := by
        rw [← hfst, ← hsnd]
        exact (List.filter_append_perm _ l).symm
      calc l ++ (skipped₁ ++ skipped₂)
          |>.Perm ((l₁ ++ l₂) ++ (skipped₁ ++ skipped₂)) := hsplit.append_right _
        _ |>.Perm ((l₁ ++ skipped₁) ++ (l₂ ++ skipped₂)) := by
            rw [List.append_assoc, List.append_assoc]
            refine List.Perm.append_left l₁ ?_
            rw [← List.append_assoc, ← List.append_assoc]
            exact List.perm_append_comm.append_right _
        _ |>.Perm ops := (hsk₁.append hsk₂).trans (List.filter_append_perm _ ops)
    · rcases List.mem_append.mp hx with hx | hx
      · exact hopt₁ x hx
      · exact hopt₂ x hx
    · by_cases hj : j = k
      · subst hj
        rw [hfst]
        exact hl₁.accepted
      · have hkeep : (l.filter fun x => key x = j) = l₂.filter fun x => key x = j := by
          rw [← hsnd, List.filter_filter]
          refine List.filter_congr fun x _ => ?_
          by_cases hx : key x = j
          · simp [hx, hj]
          · simp [hx]
        rw [hkeep]
        exact (replay_perKey_isSome key l₂).mp hl₂.accepted j

/-- **Locality.** -/
theorem linearizable_perKey_iff (hw : ∀ x ∈ ops, O.call x ≤ O.ret x) :
    (O.perKey key).Linearizable σ ops ↔ ∀ k, O.Linearizable (σ k) (ops.filter fun x => key x = k) := by
  constructor
  · rintro ⟨l, hl⟩ k
    exact ⟨_, hl.filter_key key k⟩
  · exact exists_linearizes_perKey key (ops.map key) (fun x hx => List.mem_map_of_mem hx) hw

end Locality

end Object

end BuildYourOwn.Lib
