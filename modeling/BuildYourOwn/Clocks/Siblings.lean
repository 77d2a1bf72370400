import BuildYourOwn.Clocks.Versions

/-!
# Which writes a replica loses

A value stored at a replica should stay among its siblings until a write that had seen it takes its
place (`NoWriteLost`). `put-ctx` numbers a write by the context it is given and not by the writes its
replica has made, so a vector may be after another one without its write having seen the other's: a
stale context gives a value that is dropped at once, and a context that does not know the
replica's own write replaces it unseen.

* Every slot is normalized (`settled`), so siblings are undominated and `read` answers them as they are.
* A write that is after `x` has seen `x` exactly when it counts more at the replica it was made at
  (`covers_iff`).
-/

namespace BuildYourOwn.Clocks.VersionVectors

open Lib Topic Clock

variable {s s' : VersionVectors} {l : Line} {v : Value} {r k a b : String} {x y : Sibling}
  {ctx : Clock}

/-! ## Writes, and what is lost -/

/-- The event is a write of `x` for the key `k` at the replica `r`, with what it had seen: its context,
or for `put` the siblings of the replica. -/
def Writes [Host] (e : Event VersionVectors Line Value) (r k : String) (x : Sibling) (ctx : Clock) :
    Prop :=
  word e.input.args 0 = .ok r ∧ word e.input.args 1 = .ok k ∧ word e.input.args 2 = .ok x.value ∧
    (e.input.command = "put" ∧ ctx = seen (e.before.slot r k) ∨
      e.input.command = "put-ctx" ∧ clockArg e.input.args 3 = .ok ctx) ∧
    ctx.bump r = some x.vv

/-- The event is a `sync` of `a` and `b`. -/
def Syncs (e : Event VersionVectors Line Value) (a b : String) : Prop :=
  e.input.command = "sync" ∧ word e.input.args 0 = .ok a ∧ word e.input.args 1 = .ok b

/-- `y` was written for the key by a write that had seen `x`. -/
def Replaces [Host] (es : List (Event VersionVectors Line Value)) (k : String) (x y : Sibling) : Prop :=
  ∃ e ∈ es, ∃ r ctx, Writes e r k y ctx ∧ Le x.vv ctx

/-- The answer of `read` for some siblings. -/
def readAnswer (siblings : List Sibling) : Value :=
  .obj [("siblings", .arr (siblings.map fun s => .obj [("value", .str s.value), ("vv", s.vv.json)]))]

structure NoWriteLost [Host] (es : List (Event VersionVectors Line Value)) (s : VersionVectors) :
    Prop where
  /-- What an event takes from a replica's siblings, a sibling that it leaves there replaces. -/
  kept : ∀ es₁ e es₂, es = es₁ ++ e :: es₂ → ∀ r k, ∀ x ∈ e.before.slot r k, x ∉ e.after.slot r k →
    ∃ y ∈ e.after.slot r k, Replaces (es₁ ++ [e]) k x y
  written : ∀ e ∈ es, ∀ r k x ctx, Writes e r k x ctx → x ∈ e.after.slot r k
  readBack : ∀ r k, (s.read r k).2 = readAnswer (s.slot r k)
  /-- No sibling is before another one. -/
  undominated : ∀ r k, ∀ x ∈ s.slot r k, ∀ y ∈ s.slot r k, x.before y = false
  /-- A `sync` leaves both replicas with the same siblings, whichever comes first. -/
  synced : ∀ a b k, slot (s.sync a b) a k = slot (s.sync a b) b k ∧
    ∀ r, slot (s.sync a b) r k = slot (s.sync b a) r k

/-! ## The condition -/

/-- `y` was written for the key at a replica where it counts more than `x`. -/
def Outgrows [Host] (es : List (Event VersionVectors Line Value)) (k : String) (x y : Sibling) : Prop :=
  ∃ e ∈ es, ∃ r ctx, Writes e r k y ctx ∧ x.vv.count r < y.vv.count r

/-- The siblings of a key that an event puts together: those of the replica and the new one under
`put-ctx`, those of both replicas under `sync`. -/
def Gathers [Host] (e : Event VersionVectors Line Value) (k : String) (l : List Sibling) : Prop :=
  (e.input.command = "put-ctx" ∧
    ∃ r x ctx, Writes e r k x ctx ∧ l = e.before.slot r k ++ [x]) ∨
  ∃ a b, Syncs e a b ∧ l = e.before.slot a k ++ e.before.slot b k

/-- A `put-ctx` is given a context that, advanced by one at its replica, is before no sibling held
there; and of the siblings that it or a `sync` puts together, each one that is before another is
before one of the last, which outgrows it. `es` is the history up to and with the event. -/
def Advancing [Host] (es : List (Event VersionVectors Line Value))
    (e : Event VersionVectors Line Value) : Prop :=
  (e.input.command = "put-ctx" → ∀ r k x ctx, Writes e r k x ctx →
    ∀ y ∈ e.before.slot r k, x.before y = false) ∧
  ∀ k l, Gathers e k l → ∀ x ∈ l, (∃ z ∈ l, x.before z = true) →
    ∃ y ∈ l, (∀ z ∈ l, y.before z = false) ∧ x.before y = true ∧ Outgrows es k x y

/-! ## What a write has seen -/

theorem seen_above_foldl (l : List Sibling) (c : Clock) (hc : ∀ name, 0 ≤ c.count name) :
    Le c (l.foldl (fun vv s => mergeInto vv s.vv) c) ∧
    ∀ x ∈ l, Le x.vv (l.foldl (fun vv s => mergeInto vv s.vv) c) := by
  induction l generalizing c with
  | nil => exact ⟨Le.refl c, List.forall_mem_nil _⟩
  | cons y l ih =>
    have hcount : ∀ name, (mergeInto c y.vv).count name = max (c.count name) (y.vv.count name) :=
      fun name => count_merge (hc name)
    obtain ⟨hle, hall⟩ := ih (mergeInto c y.vv)
      fun name => hcount name ▸ (hc name).trans (le_max_left _ _)
    refine ⟨fun name => ?_, fun x hx => ?_⟩
    · exact (hcount name ▸ le_max_left (c.count name) _ : c.count name ≤ _).trans (hle name)
    · rcases List.mem_cons.mp hx with rfl | hx
      · exact fun name =>
          (hcount name ▸ le_max_right _ (x.vv.count name) : x.vv.count name ≤ _).trans (hle name)
      · exact hall x hx

theorem le_seen {l : List Sibling} (hx : x ∈ l) : Le x.vv (seen l) :=
  (seen_above_foldl l ∅ fun _ => Int.le_of_eq count_empty.symm).2 x hx

theorem before_of_le (hbump : ctx.bump r = some y.vv) (h : Le x.vv ctx) : x.before y = true := by
  have hcount := fun name => @count_bump _ _ name _ hbump
  rw [Sibling.before_iff]
  refine ⟨fun name => (h name).trans ?_, fun hle => ?_⟩
  · rw [hcount]
    split_ifs <;> omega
  · have hr := hle r
    rw [hcount, if_pos rfl] at hr
    have := h r
    omega

/-- **A write that is after `x` has seen it exactly when it counts more where it was made.** -/
theorem covers_iff (hbump : ctx.bump r = some y.vv) (h : x.before y = true) :
    Le x.vv ctx ↔ x.vv.count r < y.vv.count r := by
  have hcount := fun name => @count_bump _ _ name _ hbump
  rw [hcount, if_pos rfl]
  constructor
  · exact fun hle => Int.lt_add_one_of_le (hle r)
  · intro hlt name
    by_cases hname : name = r
    · exact hname ▸ Int.le_of_lt_add_one hlt
    · have hle := (Sibling.before_iff.mp h).1 name
      rwa [hcount, if_neg hname] at hle

variable [Host] {es : List (Event VersionVectors Line Value)}

theorem replaces_iff : Replaces es k x y ↔ x.before y = true ∧ Outgrows es k x y := by
  constructor
  · rintro ⟨e, he, r, ctx, hw, hle⟩
    have hbefore := before_of_le hw.2.2.2.2 hle
    exact ⟨hbefore, e, he, r, ctx, hw, (covers_iff hw.2.2.2.2 hbefore).mp hle⟩
  · rintro ⟨hbefore, e, he, r, ctx, hw, hlt⟩
    exact ⟨e, he, r, ctx, hw, (covers_iff hw.2.2.2.2 hbefore).mpr hlt⟩

/-! ## What a step does -/

omit [Host] in
theorem write_eq_some (h : s.write r k x.value ctx = some (s', v)) :
    ∃ vv, ctx.bump r = some vv ∧ s' = s.setSlot r k (normalize (s.slot r k ++ [⟨x.value, vv⟩])) := by
  unfold write at h
  obtain ⟨vv, hvv, heq⟩ := Option.map_eq_some_iff.mp h
  rw [Prod.mk.injEq] at heq
  exact ⟨vv, hvv, heq.1.symm⟩

theorem writes_after (hw : Writes ⟨s, l, v, s'⟩ r k x ctx) (h : onLine step s l = some (s', v)) :
    s' = s.setSlot r k (normalize (s.slot r k ++ [x])) := by
  obtain ⟨command, args⟩ := l
  obtain ⟨hr, hk, hvalue, hcmd, hbump⟩ := hw
  have hwrite : s.write r k x.value ctx = some (s', v) := by
    rcases hcmd with ⟨rfl, rfl⟩ | ⟨rfl, hctx⟩
    · have : step s "put" args = some (s', v) := h
      rwa [step, hr, arg_ok, hk, arg_ok, hvalue, arg_ok] at this
    · have : step s "put-ctx" args = some (s', v) := h
      rwa [step, hr, arg_ok, hk, arg_ok, hvalue, arg_ok, hctx, arg_ok] at this
  obtain ⟨vv, hvv, rfl⟩ := write_eq_some hwrite
  rw [Option.mem_unique hvv hbump]

theorem syncs_after (hsync : Syncs ⟨s, l, v, s'⟩ a b) (h : onLine step s l = some (s', v)) : s' = s.sync a b := by
  obtain ⟨command, args⟩ := l
  obtain ⟨rfl, ha, hb⟩ := hsync
  have : step s "sync" args = some (s', v) := h
  rw [step, ha, arg_ok, hb, arg_ok, Option.some.injEq, Prod.mk.injEq] at this
  exact this.1.symm

/-- **What a line does**: it writes, it puts two replicas together, it normalizes what it reads, or it
leaves everything as it is. -/
theorem step_cases (h : onLine step s l = some (s', v)) :
    (∃ r k x ctx, Writes ⟨s, l, v, s'⟩ r k x ctx) ∨ (∃ a b, Syncs ⟨s, l, v, s'⟩ a b) ∨
    (∃ r k, s' = s.setSlot r k (normalize (s.slot r k))) ∨ s' = s := by
  obtain ⟨command, args⟩ := l
  unfold onLine step at h
  dsimp only at h
  split at h
  · rcases arg_eq_some.mp h with ⟨-, rfl⟩ | ⟨r, hr, h⟩
    · exact .inr (.inr (.inr rfl))
    rcases arg_eq_some.mp h with ⟨-, rfl⟩ | ⟨k, hk, h⟩
    · exact .inr (.inr (.inr rfl))
    rcases arg_eq_some.mp h with ⟨-, rfl⟩ | ⟨value, hvalue, h⟩
    · exact .inr (.inr (.inr rfl))
    obtain ⟨vv, hvv, -⟩ := write_eq_some (x := ⟨value, ∅⟩) h
    exact .inl ⟨r, k, ⟨value, vv⟩, _, hr, hk, hvalue, .inl ⟨rfl, rfl⟩, hvv⟩
  · rcases arg_eq_some.mp h with ⟨-, rfl⟩ | ⟨r, hr, h⟩
    · exact .inr (.inr (.inr rfl))
    rcases arg_eq_some.mp h with ⟨-, rfl⟩ | ⟨k, hk, h⟩
    · exact .inr (.inr (.inr rfl))
    rcases arg_eq_some.mp h with ⟨-, rfl⟩ | ⟨value, hvalue, h⟩
    · exact .inr (.inr (.inr rfl))
    rcases arg_eq_some.mp h with ⟨-, rfl⟩ | ⟨ctx, hctx, h⟩
    · exact .inr (.inr (.inr rfl))
    obtain ⟨vv, hvv, -⟩ := write_eq_some (x := ⟨value, ∅⟩) h
    exact .inl ⟨r, k, ⟨value, vv⟩, ctx, hr, hk, hvalue, .inr ⟨rfl, hctx⟩, hvv⟩
  · rcases arg_eq_some.mp h with ⟨-, rfl⟩ | ⟨r, -, h⟩
    · exact .inr (.inr (.inr rfl))
    rcases arg_eq_some.mp h with ⟨-, rfl⟩ | ⟨k, -, h⟩
    · exact .inr (.inr (.inr rfl))
    rw [Option.some.injEq, Prod.mk.injEq] at h
    exact .inr (.inr (.inl ⟨r, k, h.1.symm⟩))
  · rcases arg_eq_some.mp h with ⟨-, rfl⟩ | ⟨a, ha, h⟩
    · exact .inr (.inr (.inr rfl))
    rcases arg_eq_some.mp h with ⟨-, rfl⟩ | ⟨b, hb, h⟩
    · exact .inr (.inr (.inr rfl))
    exact .inr (.inl ⟨a, b, rfl, ha, hb⟩)
  · rw [Option.some.injEq, Prod.mk.injEq] at h
    exact .inr (.inr (.inr h.1.symm))

/-! ## Every slot is normalized -/

/-- Normalizing changes no slot. -/
def Settled (s : VersionVectors) : Prop := ∀ r k, normalize (s.slot r k) = s.slot r k

omit [Host] in
theorem Settled.setSlot (hs : Settled s) (l : List Sibling) : Settled (s.setSlot r k (normalize l)) := by
  intro r' k'
  rw [slot_setSlot]
  split_ifs
  · exact normalize_idem
  · exact hs r' k'

omit [Host] in
theorem Settled.sync (hs : Settled s) (a b : String) : Settled (s.sync a b) := by
  intro r k
  rw [slot_sync]
  split_ifs
  · exact normalize_idem
  · exact hs r k

theorem settled_step (hs : Settled s) (h : onLine step s l = some (s', v)) : Settled s' := by
  rcases step_cases h with ⟨r, k, x, ctx, hw⟩ | ⟨a, b, hsync⟩ | ⟨r, k, rfl⟩ | rfl
  · rw [writes_after hw h]
    exact hs.setSlot _
  · rw [syncs_after hsync h]
    exact hs.sync a b
  · exact hs.setSlot _
  · exact hs

theorem settled (hrun : Run (onLine step) ∅ es s) : Settled s := by
  refine hrun.invariant (P := Settled) (G := fun _ _ => True) (fun r k => ?_)
    (fun s l s' v hs _ h => settled_step hs h) (fun _ _ => trivial)
  unfold slot
  rw [Std.ExtTreeMap.getD_empty, Std.ExtTreeMap.getD_empty]
  rfl

/-! ## A step that loses nothing -/

theorem dropped_cases (hs : Settled s) (h : onLine step s l = some (s', v)) (hx : x ∈ s.slot r k)
    (hnot : x ∉ s'.slot r k) : ∃ u, x ∈ u ∧ s'.slot r k = normalize u ∧ (∃ z ∈ u, x.before z = true) ∧
      (Gathers ⟨s, l, v, s'⟩ k u ∨
        ∃ y ctx, Writes ⟨s, l, v, s'⟩ r k y ctx ∧ l.command = "put" ∧ u = s.slot r k ++ [y]) := by
  -- enough: the slot becomes the normalization of some siblings that `x` is among
  have hdrop : ∀ u, x ∈ u → s'.slot r k = normalize u → ∃ z ∈ u, x.before z = true := by
    intro u hu heq
    obtain ⟨y, hy, hxy⟩ := exists_after hu (heq ▸ hnot)
    exact ⟨y, (mem_normalize.mp hy).1, hxy⟩
  rcases step_cases h with ⟨r', k', y, ctx, hw⟩ | ⟨a, b, hsync⟩ | ⟨r', k', rfl⟩ | rfl
  · have hslot : s'.slot r k = if r' = r ∧ k' = k then normalize (s.slot r' k' ++ [y]) else
        s.slot r k := by rw [writes_after hw h, slot_setSlot]
    split_ifs at hslot with heq
    · obtain ⟨rfl, rfl⟩ := heq
      have hu := List.mem_append_left [y] hx
      refine ⟨_, hu, hslot, hdrop _ hu hslot, ?_⟩
      rcases hw.2.2.2.1 with ⟨hput, -⟩ | ⟨hctx, -⟩
      · exact .inr ⟨y, ctx, hw, hput, rfl⟩
      · exact .inl (.inl ⟨hctx, r', y, ctx, hw, rfl⟩)
    · exact absurd (hslot ▸ hx) hnot
  · have hslot : s'.slot r k = if r = a ∨ r = b then normalize (s.slot a k ++ s.slot b k) else
        s.slot r k := by rw [syncs_after hsync h, slot_sync]
    split_ifs at hslot with heq
    · have hu : x ∈ s.slot a k ++ s.slot b k := by
        rcases heq with rfl | rfl
        · exact List.mem_append_left _ hx
        · exact List.mem_append_right _ hx
      exact ⟨_, hu, hslot, hdrop _ hu hslot, .inl (.inr ⟨a, b, hsync, rfl⟩)⟩
    · exact absurd (hslot ▸ hx) hnot
  · rw [slot_setSlot] at hnot
    split_ifs at hnot with heq
    · obtain ⟨rfl, rfl⟩ := heq
      exact absurd ((hs r' k').symm ▸ hx) hnot
    · exact absurd hx hnot
  · exact absurd hx hnot

/-- A `put` has seen everything that it takes the place of. -/
theorem put_undominated (hw : Writes ⟨s, l, v, s'⟩ r k x ctx) (hput : l.command = "put") :
    (∀ y ∈ s.slot r k, Le y.vv ctx) ∧ ∀ y ∈ s.slot r k ++ [x], x.before y = false := by
  have hctx : ctx = seen (s.slot r k) := by
    rcases hw.2.2.2.1 with ⟨-, hctx⟩ | ⟨hctx, -⟩
    · exact hctx
    · exact absurd (hput.symm.trans hctx) (by decide)
  have hle : ∀ y ∈ s.slot r k, Le y.vv ctx := fun y hy => hctx ▸ le_seen hy
  refine ⟨hle, fun y hy => ?_⟩
  rcases List.mem_append.mp hy with hy | hy
  · have hyx := before_of_le hw.2.2.2.2 (hle y hy)
    rw [Bool.eq_false_iff]
    intro hxy
    exact absurd (Sibling.before_trans x y x hxy hyx) (by rw [Sibling.before_irrefl]; decide)
  · rw [List.mem_singleton.mp hy]
    exact Sibling.before_irrefl x

variable {es₁ es₂ : List (Event VersionVectors Line Value)} {e : Event VersionVectors Line Value}

theorem kept_of_advancing (hs : Settled e.before) (hstep : onLine step e.before e.input = some (e.after, e.output))
    (hadv : Advancing (es₁ ++ [e]) e) (hx : x ∈ e.before.slot r k) (hnot : x ∉ e.after.slot r k) :
    ∃ y ∈ e.after.slot r k, Replaces (es₁ ++ [e]) k x y := by
  obtain ⟨u, hu, hslot, hdom, hgather | ⟨y, ctx, hw, hput, rfl⟩⟩ := dropped_cases hs hstep hx hnot
  · obtain ⟨y, hy, htop, hxy, hout⟩ := hadv.2 k u hgather x hu hdom
    exact ⟨y, hslot ▸ mem_normalize.mpr ⟨hy, htop⟩, replaces_iff.mpr ⟨hxy, hout⟩⟩
  · obtain ⟨hle, htop⟩ := put_undominated hw hput
    exact ⟨y, hslot ▸ mem_normalize.mpr ⟨List.mem_concat_self, htop⟩,
      e, List.mem_concat_self, r, ctx, hw, hle x hx⟩

theorem written_of_advancing (hstep : onLine step e.before e.input = some (e.after, e.output))
    (hadv : Advancing es e) (hw : Writes e r k x ctx) : x ∈ e.after.slot r k := by
  rw [writes_after hw hstep, slot_setSlot, if_pos ⟨rfl, rfl⟩, mem_normalize]
  refine ⟨List.mem_concat_self, ?_⟩
  rcases hw.2.2.2.1 with ⟨hput, -⟩ | ⟨hctx, -⟩
  · exact (put_undominated hw hput).2
  · intro y hy
    rcases List.mem_append.mp hy with hy | hy
    · exact hadv.1 hctx r k x ctx hw y hy
    · rw [List.mem_singleton.mp hy]
      exact Sibling.before_irrefl x

theorem advancing_of_kept (hstep : onLine step e.before e.input = some (e.after, e.output))
    (hkept : ∀ r k, ∀ x ∈ e.before.slot r k, x ∉ e.after.slot r k →
      ∃ y ∈ e.after.slot r k, Replaces (es₁ ++ [e]) k x y)
    (hwritten : ∀ r k x ctx, Writes e r k x ctx → x ∈ e.after.slot r k) : Advancing (es₁ ++ [e]) e := by
  have htop : ∀ {r k u x}, e.after.slot r k = normalize u → x ∈ e.before.slot r k →
      (∃ z ∈ u, x.before z = true) →
      ∃ y ∈ u, (∀ z ∈ u, y.before z = false) ∧ x.before y = true ∧ Outgrows (es₁ ++ [e]) k x y := by
    rintro r k u x hslot hx ⟨z, hz, hxz⟩
    have hnot : x ∉ e.after.slot r k := by
      rw [hslot, mem_normalize]
      exact fun h => absurd (hxz.symm.trans (h.2 z hz)) (by decide)
    obtain ⟨y, hy, hrep⟩ := hkept r k x hx hnot
    rw [hslot, mem_normalize] at hy
    exact ⟨y, hy.1, hy.2, replaces_iff.mp hrep⟩
  have hslotw : ∀ {r k x ctx}, Writes e r k x ctx →
      e.after.slot r k = normalize (e.before.slot r k ++ [x]) := by
    intro r k x ctx hw
    rw [writes_after hw hstep, slot_setSlot, if_pos ⟨rfl, rfl⟩]
  constructor
  · intro _ r k x ctx hw y hy
    have hmem := hwritten r k x ctx hw
    rw [hslotw hw, mem_normalize] at hmem
    exact hmem.2 y (List.mem_append_left _ hy)
  · rintro k u (⟨-, r, w, ctx, hw, rfl⟩ | ⟨a, b, hsync, rfl⟩) x hx hdom
    · rcases List.mem_append.mp hx with hx | hx
      · exact htop (hslotw hw) hx hdom
      · obtain rfl := List.mem_singleton.mp hx
        have hmem := hwritten r k x ctx hw
        rw [hslotw hw, mem_normalize] at hmem
        obtain ⟨z, hz, hxz⟩ := hdom
        exact absurd (hxz.symm.trans (hmem.2 z hz)) (by decide)
    · have hslot : ∀ {r}, r = a ∨ r = b →
          e.after.slot r k = normalize (e.before.slot a k ++ e.before.slot b k) := by
        intro r hr
        rw [syncs_after hsync hstep, slot_sync, if_pos hr]
      rcases List.mem_append.mp hx with hx | hx
      · exact htop (hslot (.inl rfl)) hx hdom
      · exact htop (hslot (.inr rfl)) hx hdom

/-! ## A run -/

omit [Host] in
theorem sync_same (s : VersionVectors) (a b k : String) :
    slot (s.sync a b) a k = slot (s.sync a b) b k ∧ ∀ r, slot (s.sync a b) r k = slot (s.sync b a) r k := by
  constructor
  · rw [slot_sync, slot_sync, if_pos (.inl rfl), if_pos (.inr rfl)]
  · intro r
    rw [slot_sync, slot_sync, normalize_perm List.perm_append_comm]
    exact if_congr or_comm rfl rfl

/-- **No write is lost exactly when every step is advancing.** -/
theorem no_write_lost_iff (hrun : Run (onLine step) ∅ es s) :
    NoWriteLost es s ↔ ∀ es₁ e es₂, es = es₁ ++ e :: es₂ → Advancing (es₁ ++ [e]) e := by
  have hstep : ∀ {es₁ e es₂}, es = es₁ ++ e :: es₂ →
      onLine step e.before e.input = some (e.after, e.output) := by
    rintro es₁ e es₂ rfl
    exact hrun.step_of_mem (List.mem_append_right _ List.mem_cons_self)
  constructor
  · intro h es₁ e es₂ hes
    refine advancing_of_kept (hstep hes) (h.kept es₁ e es₂ hes) fun r k x ctx hw => ?_
    exact h.written e (hes ▸ List.mem_append_right _ List.mem_cons_self) r k x ctx hw
  · intro hadv
    have hset := settled hrun
    refine ⟨?_, ?_, ?_, ?_, sync_same s⟩
    · intro es₁ e es₂ hes r k x hx hnot
      exact kept_of_advancing (settled (hrun.split hes)) (hstep hes) (hadv es₁ e es₂ hes) hx hnot
    · intro e he r k x ctx hw
      obtain ⟨es₁, es₂, hes⟩ := List.append_of_mem he
      exact written_of_advancing (hstep hes) (hadv es₁ e es₂ hes) hw
    · intro r k
      unfold read
      rw [hset r k, readAnswer]
    · intro r k x hx y hy
      rw [← hset r k] at hx hy
      exact normalize_undominated hx hy

/-! A context that was answered two writes ago: the value written with it is dropped at once. -/

@[reducible] def contextTexts : Host := hostOf [("\x7b\"A\":1\x7d", .obj [("A", .num 1)])]

def staleContext : List Line :=
  [⟨"put", ["A", "k", "v1"]⟩, ⟨"put", ["A", "k", "v2"]⟩, ⟨"put", ["A", "k", "v3"]⟩,
    ⟨"put-ctx", ["A", "k", "v4", "\x7b\"A\":1\x7d"]⟩]

/-- The clock that counts `n` for `A` and nothing else. -/
def countA (n : Int) : Clock := Std.ExtTreeMap.insert ∅ "A" n

omit [Host] in
theorem stale_context_dropped : ∃ e₁ e₂ e₃ e₄ s,
    Run (onLine (@step contextTexts)) ∅ [e₁, e₂, e₃, e₄] s ∧
    [e₁, e₂, e₃, e₄].map Event.input = staleContext ∧
    e₁.output = .obj [("vv", (countA 1).json)] ∧
    @clockArg contextTexts e₄.input.args 3 = .ok (countA 1) ∧
    ¬ @NoWriteLost contextTexts [e₁, e₂, e₃, e₄] s := by
  let _ : Host := contextTexts
  obtain ⟨e₁, e₂, e₃, e₄, s, hrun, hinputs, hout, hctx, hslot, hbump⟩ : ∃ e₁ e₂ e₃ e₄ s,
      Run (onLine step) ∅ [e₁, e₂, e₃, e₄] s ∧ [e₁, e₂, e₃, e₄].map Event.input = staleContext ∧
      e₁.output = .obj [("vv", (countA 1).json)] ∧ clockArg e₄.input.args 3 = .ok (countA 1) ∧
      e₄.after.slot "A" "k" = [⟨"v3", countA 3⟩] ∧ (countA 1).bump "A" = some (countA 2) :=
    ⟨_, _, _, _, _, run_of_exec staleContext rfl, rfl, rfl, rfl, rfl, rfl⟩
  refine ⟨e₁, e₂, e₃, e₄, s, hrun, hinputs, hout, hctx, fun h => ?_⟩
  have hline : e₄.input = ⟨"put-ctx", ["A", "k", "v4", "\x7b\"A\":1\x7d"]⟩ := by
    simp only [staleContext, List.map_cons, List.map_nil, List.cons.injEq] at hinputs
    exact hinputs.2.2.2.1
  have hwrites : Writes e₄ "A" "k" ⟨"v4", countA 2⟩ (countA 1) := by
    refine ⟨?_, ?_, ?_, .inr ⟨?_, hctx⟩, hbump⟩ <;> rw [hline] <;> rfl
  have hmem := h.written e₄ (by simp) "A" "k" ⟨"v4", countA 2⟩ (countA 1) hwrites
  rw [hslot, List.mem_singleton, Sibling.mk.injEq] at hmem
  exact absurd hmem.1 (by decide)

def plainWrites : List Line :=
  [⟨"put", ["A", "k", "v1"]⟩, ⟨"put", ["A", "k", "v2"]⟩, ⟨"read", ["A", "k"]⟩]

omit [Host] in
theorem no_write_lost_iff_plain_writes : ∃ es s, Run (onLine (@step contextTexts)) ∅ es s ∧
    es.map Event.input = plainWrites ∧ s.slot "A" "k" = [⟨"v2", countA 2⟩] ∧
    @NoWriteLost contextTexts es s := by
  let _ : Host := contextTexts
  obtain ⟨es, s, hrun, hinputs, hslot⟩ : ∃ es s, Run (onLine step) ∅ es s ∧
      es.map Event.input = plainWrites ∧ s.slot "A" "k" = [⟨"v2", countA 2⟩] :=
    ⟨_, _, run_of_exec plainWrites rfl, rfl, rfl⟩
  refine ⟨es, s, hrun, hinputs, hslot, (no_write_lost_iff hrun).mpr fun es₁ e es₂ hes => ?_⟩
  have hmem : e.input ∈ plainWrites := by
    rw [← hinputs, hes]
    exact List.mem_map_of_mem (List.mem_append_right _ List.mem_cons_self)
  have hcmd : e.input.command ≠ "put-ctx" ∧ e.input.command ≠ "sync" := by
    simp only [plainWrites, List.mem_cons, List.not_mem_nil, or_false] at hmem
    rcases hmem with h | h | h <;> rw [h] <;> decide
  refine ⟨fun h => absurd h hcmd.1, ?_⟩
  rintro k u (⟨h, -⟩ | ⟨a, b, hsync, -⟩)
  · exact absurd h hcmd.1
  · exact absurd hsync.1 hcmd.2

end BuildYourOwn.Clocks.VersionVectors
