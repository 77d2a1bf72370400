import BuildYourOwn.Topic.Command
import BuildYourOwn.Topic.Map

/-!
# `leases`: a leader lease, and what an uncertain clock costs at each end of it

Model of `Leases` in `disttest/examples/alg/resilience.rs`. One authority grants the lease, by its own clock;
a node serves reads under it by a clock that is off by at most `clock_error_ms`.

Instants are `i64` and leaving the range panics. A difference is checked as the sum with what is subtracted
negated.
-/

namespace BuildYourOwn.Resilience

open Topic

structure Leases where
  leaseMs : Int
  clockErrorMs : Int
  holder : Option String
  grantedAt : Int
  expiresAt : Int
  offsets : StringMap Int

namespace Leases

/-- What `init` leaves. `started 0 0` is `Leases::default`, the state a topic starts in. -/
def started (leaseMs clockErrorMs : Int) : Leases where
  leaseMs := leaseMs
  clockErrorMs := clockErrorMs
  holder := none
  grantedAt := 0
  expiresAt := 0
  offsets := ∅

def safeUntil (s : Leases) : Option Int := addI64 s.expiresAt (-s.clockErrorMs)

def offset (s : Leases) (node : String) : Int := s.offsets.getD node 0

/-- The fields that the answers to `grant` and `renew` share. -/
def terms (s : Leases) : Option (List (String × Value)) :=
  s.safeUntil.map fun safe => [("expires_at", .num s.expiresAt), ("safe_until", .num safe)]

/-- `self.expires_at = now + self.lease_ms`. -/
def extend (s : Leases) (now : Int) : Option Leases :=
  (addI64 now s.leaseMs).map fun expires => { s with expiresAt := expires }

/-- May the lease still be live on a holder other than `node`? The old holder's clock may be running slow. -/
def mayBeLive (s : Leases) (node : String) (now : Int) : Option Bool :=
  match s.holder with
  | none => some false
  | some h =>
    if h = node then some false
    else (addI64 s.expiresAt s.clockErrorMs).map fun clear => decide (now < clear)

def grant (s : Leases) (node : String) (now : Int) : Option (Leases × Value) := do
  let blocked ← s.mayBeLive node now
  if blocked then
    let terms ← s.terms
    return (s, .obj ([("ok", .bool false), ("holder", .ofOption .str s.holder)] ++ terms ++
      [("error", .str "the previous lease may still be live")]))
  else
    let s' ← extend { s with holder := some node, grantedAt := now } now
    let terms ← s'.terms
    return (s', .obj ([("ok", .bool true), ("holder", .ofOption .str s'.holder)] ++ terms))

/-- `renew`: a renewal extends from now, not from the old expiry. -/
def renew (s : Leases) (node : String) (now : Int) : Option (Leases × Value) := do
  if s.holder = some node then
    let s' ← s.extend now
    let terms ← s'.terms
    return (s', .obj (("ok", .bool true) :: terms))
  else
    let terms ← s.terms
    return (s, .obj (("ok", .bool false) :: terms))

/-- The rule of `read`: what a lease that ends at `expires` is worth to a clock that shows `mine`. -/
def reason (expires clockError mine : Int) : Option String :=
  if expires ≤ mine then some "the lease has expired"
  else
    (addI64 expires (-clockError)).map fun safe =>
      if safe ≤ mine then "inside the clock-error margin" else "holds the lease"

def read (s : Leases) (node : String) (now : Int) : Option (Leases × Value) := do
  if s.holder = some node then
    let mine ← addI64 now (s.offset node)
    let why ← reason s.expiresAt s.clockErrorMs mine
    return (s, .obj [("served", .bool (why == "holds the lease")), ("reason", .str why)])
  else
    return (s, .obj [("served", .bool false), ("reason", .str "not the holder")])

def skew (s : Leases) (node : String) (offset : Int) : Leases × Value :=
  ({ s with offsets := s.offsets.insert node offset },
    .obj [("ok", .bool true), ("offset_ms", .num offset)])

/-- `holder`. -/
def live (s : Leases) (now : Int) : Value :=
  .obj [("holder", .ofOption .str (s.holder.filter fun _ => decide (now < s.expiresAt))),
    ("expires_at", .num s.expiresAt)]

def state (s : Leases) : Option (Leases × Value) := do
  let safe ← s.safeUntil
  return (s, .obj [("holder", .ofOption .str s.holder), ("granted_at", .num s.grantedAt),
    ("expires_at", .num s.expiresAt), ("safe_until", .num safe),
    ("offsets", .obj (s.offsets.toList.map fun p => (p.1, .num p.2)))])

def step [Host] (s : Leases) (command : String) (args : List String) : Handled Leases :=
  match command with
  | "init" => arg s (int args 0) fun lease => arg s (int args 1) fun error =>
    some (started lease error, .obj [("lease_ms", .num lease), ("clock_error_ms", .num error)])
  | "grant" => arg s (word args 0) fun node => arg s (int args 1) fun now => s.grant node now
  | "renew" => arg s (word args 0) fun node => arg s (int args 1) fun now => s.renew node now
  | "read" => arg s (word args 0) fun node => arg s (int args 1) fun now => s.read node now
  | "skew" => arg s (word args 0) fun node => arg s (int args 1) fun offset =>
    some (s.skew node offset)
  | "holder" => arg s (int args 0) fun now => some (s, s.live now)
  | "state" => s.state
  | other => some (s, err ("unknown command " ++ debugStr other))

end Leases

end BuildYourOwn.Resilience

/-!
## Leases do not overlap

A node remembers when the lease it was last granted or renewed ends (`remembered`), and serves by the rule of
`read` on that. The authority hands the lease on when the old expiry is a clock-error behind it, so whatever
another node remembers ended at least a clock-error before some instant that the authority has already seen
(`Inv`).

**`leases_never_overlap`**: from a grant to another node on, and until it is granted the lease again, a former
holder does not serve, by any clock that is off by at most the clock error.
-/

namespace BuildYourOwn.Resilience.Leases

open Lib Topic

variable {s s' : Leases} {l : Line} {v : Value} {node former n : String} {now lease error expires : Int}
  {es es₁ es₂ : List (Event Leases Line Value)} {e : Event Leases Line Value}

/-! ## What a node is told -/

/-- The instant at which a lease is asked for. -/
def timeOf (l : Line) : Option Int :=
  if l.command = "grant" ∨ l.command = "renew" then (int l.args 1).toOption else none

/-- The node that a command grants the lease or renews it. -/
def leasedTo (l : Line) (v : Value) : Option String :=
  if (l.command = "grant" ∨ l.command = "renew") ∧ v.flagAt "ok" = some true then l.args[0]? else none

def Grants (node : String) (e : Event Leases Line Value) : Prop :=
  e.input.command = "grant" ∧ leasedTo e.input e.output = some node

/-- The instants of a run at which a lease was asked for. -/
def times (es : List (Event Leases Line Value)) : List Int := es.filterMap fun e => timeOf e.input

def learns (node : String) (e : Event Leases Line Value) : Option Int :=
  if leasedTo e.input e.output = some node then e.output.numAt "expires_at" else none

/-- When the last lease ends that a node was granted or renewed. -/
def remembered (es : List (Event Leases Line Value)) (node : String) : Option Int :=
  es.foldl (fun known e => (learns node e).or known) none

/-- The node serves: `read`'s rule on a lease that ends at `expires`, by a clock that shows `mine`. -/
def Serves (expires error mine : Int) : Prop := reason expires error mine = some "holds the lease"

theorem remembered_snoc : remembered (es ++ [e]) node = (learns node e).or (remembered es node) := by
  unfold remembered
  rw [List.foldl_append]
  rfl

theorem remembered_append (h : ∀ e ∈ es₂, learns node e = none) :
    remembered (es₁ ++ es₂) node = remembered es₁ node := by
  unfold remembered
  rw [List.foldl_append]
  generalize es₁.foldl (fun known e => (learns node e).or known) none = known
  induction es₂ with
  | nil => rfl
  | cons e es₂ ih =>
    obtain ⟨he, hrest⟩ := List.forall_mem_cons.mp h
    rw [List.foldl_cons, he, Option.none_or]
    exact ih hrest

theorem learns_of_ne (h : leasedTo e.input e.output = some node) (hne : n ≠ node) : learns n e = none :=
  if_neg fun h' => hne (Option.mem_unique h' h)

theorem learns_of_none (h : leasedTo e.input e.output = none) : learns n e = none :=
  if_neg fun h' => absurd (h.symm.trans h') (by simp)

/-! ## What a command does -/

/-- **What a command other than `init` does.** -/
inductive Acts (s : Leases) (l : Line) (v : Value) : Leases → Prop
  | granted {node : String} {now : Int} (hl : l.command = "grant") (hnode : leasedTo l v = some node)
      (hnow : timeOf l = some now) (htold : v.numAt "expires_at" = some (now + s.leaseMs))
      (hwait : ∀ h, s.holder = some h → h ≠ node → s.expiresAt + s.clockErrorMs ≤ now) :
      Acts s l v { s with holder := some node, grantedAt := now, expiresAt := now + s.leaseMs }
  | renewed {node : String} {now : Int} (hl : l.command ≠ "grant") (hnode : leasedTo l v = some node)
      (hholder : s.holder = some node) (htold : v.numAt "expires_at" = some (now + s.leaseMs)) :
      Acts s l v { s with expiresAt := now + s.leaseMs }
  | kept (offsets : StringMap Int) (hnone : leasedTo l v = none) : Acts s l v { s with offsets := offsets }

theorem leasedTo_other (hgrant : l.command ≠ "grant") (hrenew : l.command ≠ "renew") : leasedTo l v = none :=
  if_neg fun h => h.1.elim hgrant hrenew

theorem leasedTo_refused (h : v.flagAt "ok" = some false) : leasedTo l v = none :=
  if_neg fun hok => absurd (h.symm.trans hok.2) (by simp)

theorem leasedTo_err (message : String) : leasedTo l (err message) = none :=
  if_neg fun h => flagAt_err message "ok" h.2

theorem leasedTo_ok (hl : l.command = "grant" ∨ l.command = "renew") (hnode : word l.args 0 = .ok node)
    (hok : v.flagAt "ok" = some true) : leasedTo l v = some node :=
  (if_pos ⟨hl, hok⟩).trans (word_eq_ok.mp hnode)

theorem timeOf_eq (hl : l.command = "grant" ∨ l.command = "renew") (hnow : int l.args 1 = .ok now) :
    timeOf l = some now := by
  unfold timeOf
  rw [if_pos hl, hnow]
  rfl

theorem extend_eq (h : s.extend now = some s') : s' = { s with expiresAt := now + s.leaseMs } := by
  obtain ⟨expires, hexpires, rfl⟩ := Option.map_eq_some_iff.mp h
  obtain ⟨-, rfl⟩ := addI64_eq_some.mp hexpires
  rfl

theorem terms_eq {terms : List (String × Value)} (h : s.terms = some terms) :
    ∃ safe, terms = [("expires_at", .num s.expiresAt), ("safe_until", .num safe)] := by
  obtain ⟨safe, -, rfl⟩ := Option.map_eq_some_iff.mp h
  exact ⟨safe, rfl⟩

theorem waited (h : s.mayBeLive node now = some false) :
    ∀ h, s.holder = some h → h ≠ node → s.expiresAt + s.clockErrorMs ≤ now := by
  intro holder hholder hne
  unfold mayBeLive at h
  rw [hholder] at h
  dsimp only at h
  rw [if_neg hne] at h
  obtain ⟨clear, hclear, hlt⟩ := Option.map_eq_some_iff.mp h
  obtain ⟨-, rfl⟩ := addI64_eq_some.mp hclear
  have := of_decide_eq_false hlt
  omega

theorem grant_acts (hl : l.command = "grant") (hnode : word l.args 0 = .ok node)
    (hnow : int l.args 1 = .ok now) (h : s.grant node now = some (s', v)) : Acts s l v s' := by
  unfold grant at h
  obtain ⟨blocked, hblocked, h⟩ := Option.bind_eq_some_iff.mp h
  cases blocked with
  | true =>
    obtain ⟨terms, -, h⟩ := Option.bind_eq_some_iff.mp h
    cases h
    exact .kept s.offsets (leasedTo_refused rfl)
  | false =>
    obtain ⟨s₁, hs₁, h⟩ := Option.bind_eq_some_iff.mp h
    obtain ⟨terms, hterms, h⟩ := Option.bind_eq_some_iff.mp h
    cases h
    obtain ⟨safe, rfl⟩ := terms_eq hterms
    obtain rfl := extend_eq hs₁
    exact .granted hl (leasedTo_ok (.inl hl) hnode rfl) (timeOf_eq (.inl hl) hnow) rfl (waited hblocked)

theorem renew_acts (hl : l.command = "renew") (hnode : word l.args 0 = .ok node)
    (h : s.renew node now = some (s', v)) : Acts s l v s' := by
  unfold renew at h
  split at h
  · rename_i hholder
    obtain ⟨s₁, hs₁, h⟩ := Option.bind_eq_some_iff.mp h
    obtain ⟨terms, hterms, h⟩ := Option.bind_eq_some_iff.mp h
    cases h
    obtain ⟨safe, rfl⟩ := terms_eq hterms
    obtain rfl := extend_eq hs₁
    exact .renewed (by rw [hl]; decide) (leasedTo_ok (.inr hl) hnode rfl) hholder rfl
  · obtain ⟨terms, -, h⟩ := Option.bind_eq_some_iff.mp h
    cases h
    exact .kept s.offsets (leasedTo_refused rfl)

theorem read_state (h : s.read node now = some (s', v)) : s' = s := by
  unfold read at h
  split at h
  · obtain ⟨mine, -, h⟩ := Option.bind_eq_some_iff.mp h
    obtain ⟨why, -, h⟩ := Option.bind_eq_some_iff.mp h
    exact (state_eq h)
  · exact (state_eq h)

theorem state_state (h : s.state = some (s', v)) : s' = s := by
  obtain ⟨safe, -, h⟩ := Option.bind_eq_some_iff.mp h
  exact (state_eq h)

theorem leasedTo_word {args : List String} {i : Nat} (h : word args i = .error v) : leasedTo l v = none := by
  obtain ⟨message, rfl⟩ := word_error h
  exact leasedTo_err message

theorem leasedTo_int {args : List String} {i : Nat} (h : int args i = .error v) : leasedTo l v = none := by
  obtain ⟨message, rfl⟩ := int_error h
  exact leasedTo_err message

theorem step_acts [Host] (hinit : l.command ≠ "init") (h : onLine step s l = some (s', v)) : Acts s l v s' := by
  by_cases hgrant : l.command = "grant"
  · unfold onLine at h
    rw [hgrant] at h
    simp only [step] at h
    rcases arg_eq_some.mp h with ⟨he, rfl⟩ | ⟨node, hnode, h⟩
    · exact .kept _ (leasedTo_word he)
    rcases arg_eq_some.mp h with ⟨he, rfl⟩ | ⟨now, hnow, h⟩
    · exact .kept _ (leasedTo_int he)
    exact grant_acts hgrant hnode hnow h
  by_cases hrenew : l.command = "renew"
  · unfold onLine at h
    rw [hrenew] at h
    simp only [step] at h
    rcases arg_eq_some.mp h with ⟨he, rfl⟩ | ⟨node, hnode, h⟩
    · exact .kept _ (leasedTo_word he)
    rcases arg_eq_some.mp h with ⟨he, rfl⟩ | ⟨now, hnow, h⟩
    · exact .kept _ (leasedTo_int he)
    exact renew_acts hrenew hnode h
  have hnone : leasedTo l v = none := leasedTo_other hgrant hrenew
  unfold onLine step at h
  split at h
  case h_1 hc => exact absurd hc hinit
  case h_2 hc => exact absurd hc hgrant
  case h_3 hc => exact absurd hc hrenew
  case h_4 =>
    rcases arg_eq_some.mp h with ⟨-, rfl⟩ | ⟨node, -, h⟩
    · exact .kept _ hnone
    rcases arg_eq_some.mp h with ⟨-, rfl⟩ | ⟨now, -, h⟩
    · exact .kept _ hnone
    obtain rfl := read_state h
    exact .kept _ hnone
  case h_5 =>
    rcases arg_eq_some.mp h with ⟨-, rfl⟩ | ⟨node, -, h⟩
    · exact .kept _ hnone
    rcases arg_eq_some.mp h with ⟨-, rfl⟩ | ⟨offset, -, h⟩
    · exact .kept _ hnone
    cases h
    exact .kept _ hnone
  case h_6 =>
    rcases arg_eq_some.mp h with ⟨-, rfl⟩ | ⟨now, -, h⟩
    · exact .kept _ hnone
    cases h
    exact .kept _ hnone
  case h_7 =>
    obtain rfl := state_state h
    exact .kept _ hnone
  case h_8 =>
    cases h
    exact .kept _ hnone

/-! ## What the nodes remember -/

structure Inv (error : Int) (es : List (Event Leases Line Value)) (s : Leases) : Prop where
  skew : s.clockErrorMs = error
  holder : ∀ n, s.holder = some n → remembered es n = some s.expiresAt
  former : ∀ n expires, s.holder ≠ some n → remembered es n = some expires →
    ∃ t ∈ times es, expires + error ≤ t

theorem inv_started : Inv error [] (started lease error) where
  skew := rfl
  holder n h := absurd h (by simp [started])
  former n expires _ h := absurd h (by simp [remembered])

theorem times_snoc (es : List (Event Leases Line Value)) (e : Event Leases Line Value) :
    times (es ++ [e]) = times es ++ (timeOf e.input).toList := by
  unfold times
  rw [List.filterMap_append, List.filterMap_cons, List.filterMap_nil]
  cases timeOf e.input <;> rfl

theorem Inv.granted (h : Inv error es s) (hpast : ∀ t ∈ times es, t ≤ now)
    (hwait : ∀ h, s.holder = some h → h ≠ node → s.expiresAt + s.clockErrorMs ≤ now) (hne : n ≠ node)
    (hn : remembered es n = some expires) : expires + error ≤ now := by
  by_cases hholder : s.holder = some n
  · obtain rfl := Option.some.inj ((h.holder n hholder).symm.trans hn)
    rw [← h.skew]
    exact hwait n hholder hne
  · obtain ⟨t, ht, hle⟩ := h.former n expires hholder hn
    exact Int.le_trans hle (hpast t ht)

theorem Inv.step (h : Inv error es s) (ha : Acts s l v s')
    (hpast : ∀ now, timeOf l = some now → ∀ t ∈ times es, t ≤ now) : Inv error (es ++ [⟨s, l, v, s'⟩]) s' := by
  cases ha with
  | @granted node now hl hnode hnow htold hwait =>
    refine ⟨h.skew, fun n hn => ?_, fun n expires hn hexpires => ?_⟩
    · cases hn
      rw [remembered_snoc, learns, if_pos hnode, htold]
      rfl
    · have hne : n ≠ node := fun heq => hn (congrArg some heq.symm)
      rw [remembered_snoc, learns_of_ne hnode hne, Option.none_or] at hexpires
      refine ⟨now, ?_, h.granted (hpast now hnow) hwait hne hexpires⟩
      rw [times_snoc, hnow]
      exact List.mem_concat_self
  | @renewed node now hl hnode hholder htold =>
    refine ⟨h.skew, fun n hn => ?_, fun n expires hn hexpires => ?_⟩
    · obtain rfl := Option.mem_unique hholder hn
      rw [remembered_snoc, learns, if_pos hnode, htold]
      rfl
    · have hne : n ≠ node := fun heq => hn (heq ▸ hholder)
      rw [remembered_snoc, learns_of_ne hnode hne, Option.none_or] at hexpires
      obtain ⟨t, ht, hle⟩ := h.former n expires hn hexpires
      exact ⟨t, times_snoc es _ ▸ List.mem_append_left _ ht, hle⟩
  | kept offsets hnone =>
    refine ⟨h.skew, fun n hn => ?_, fun n expires hn hexpires => ?_⟩
    · rw [remembered_snoc, learns_of_none hnone, Option.none_or]
      exact h.holder n hn
    · rw [remembered_snoc, learns_of_none hnone, Option.none_or] at hexpires
      obtain ⟨t, ht, hle⟩ := h.former n expires hn hexpires
      exact ⟨t, times_snoc es _ ▸ List.mem_append_left _ ht, hle⟩

section

variable [Host]

theorem inv (hrun : Run (onLine step) (started lease error) es s) (hlines : ∀ e ∈ es, e.input.command ≠ "init")
    (htimes : (times es).Pairwise (· ≤ ·)) : Inv error es s := by
  refine hrun.history_invariant (P := fun es s => (times es).Pairwise (· ≤ ·) → Inv error es s)
    (G := fun e => e.input.command ≠ "init") (fun _ => inv_started)
    (fun es s l s' v h hl hs htimes => ?_) hlines htimes
  rw [times_snoc] at htimes
  obtain ⟨hbefore, -, hlast⟩ := List.pairwise_append.mp htimes
  refine (h hbefore).step (step_acts hl hs) fun now hnow t ht => hlast t ht now ?_
  show now ∈ (timeOf l).toList
  rw [hnow]
  exact List.mem_singleton_self now

/-- **Without a grant** a node that does not hold the lease is told nothing. -/
theorem told_nothing {m : Leases} (hrun : Run (onLine step) m es s) (hm : m.holder ≠ some former)
    (hlines : ∀ e ∈ es, e.input.command ≠ "init" ∧ ¬ Grants former e) : ∀ e ∈ es, learns former e = none := by
  refine (hrun.history_invariant
    (P := fun es s => s.holder ≠ some former ∧ ∀ e ∈ es, learns former e = none)
    (G := fun e => e.input.command ≠ "init" ∧ ¬ Grants former e) ⟨hm, List.forall_mem_nil _⟩
    (fun es s l s' v h hl hs => ?_) hlines).2
  obtain ⟨hholder, hnothing⟩ := h
  generalize hs' : s' = s'' at hs
  cases step_acts hl.1 hs with
  | @granted node now hgrant hnode _ _ _ =>
    have hne : former ≠ node := fun heq => hl.2 ⟨hgrant, heq ▸ hnode⟩
    subst hs'
    exact ⟨fun h => hne (Option.some.inj h).symm, forall_mem_snoc hnothing (learns_of_ne hnode hne)⟩
  | @renewed node now _ hnode hheld _ =>
    have hne : former ≠ node := fun heq => hholder (heq ▸ hheld)
    subst hs'
    exact ⟨hholder, forall_mem_snoc hnothing (learns_of_ne hnode hne)⟩
  | kept offsets hnone =>
    subst hs'
    exact ⟨hholder, forall_mem_snoc hnothing (learns_of_none hnone)⟩

omit [Host] in
theorem not_serves {t offset : Int} (h : expires + error ≤ t) (hoffset : -error ≤ offset) :
    ¬ Serves expires error (t + offset) := by
  unfold Serves reason
  rw [if_pos (by omega)]
  decide

/-- **Leases never overlap**: at no instant from a grant to another node on does a node serve on the last lease
it was granted or renewed, whatever its clock shows within the clock error, unless it is granted the lease
again. -/
theorem leases_never_overlap (hrun : Run (onLine step) (started lease error) (es₁ ++ e :: es₂) s)
    (hlines : ∀ x ∈ es₁ ++ e :: es₂, x.input.command ≠ "init")
    (htimes : (times (es₁ ++ e :: es₂)).Pairwise (· ≤ ·)) (hgrant : Grants node e)
    (hnow : timeOf e.input = some now) (hne : former ≠ node) (hlost : ∀ x ∈ es₂, ¬ Grants former x)
    (hexpires : remembered (es₁ ++ e :: es₂) former = some expires) {t offset : Int} (ht : now ≤ t)
    (hoffset : -error ≤ offset ∧ offset ≤ error) : ¬ Serves expires error (t + offset) := by
  have hmem {x : Event Leases Line Value} (hx : x ∈ e :: es₂) : x.input.command ≠ "init" :=
    hlines x (List.mem_append_right _ hx)
  unfold times at htimes
  rw [List.filterMap_append, List.filterMap_cons, hnow] at htimes
  obtain ⟨hbefore, -, hlast⟩ := List.pairwise_append.mp htimes
  have hinv := inv (hrun.split rfl) (fun x hx => hlines x (List.mem_append_left _ hx)) hbefore
  have hstep := hrun.step_of_mem (List.mem_append_right _ List.mem_cons_self)
  generalize hafter : e.after = after at hstep
  cases step_acts (hmem List.mem_cons_self) hstep with
  | @granted node' now' _ hnode hnow' _ hwait =>
    obtain rfl := Option.mem_unique hnode hgrant.2
    obtain rfl := Option.mem_unique hnow' hnow
    have hholder : e.after.holder ≠ some former := by
      rw [hafter]
      exact fun h => hne (Option.some.inj h).symm
    have hsilent : ∀ x ∈ e :: es₂, learns former x = none := List.forall_mem_cons.mpr
      ⟨learns_of_ne hgrant.2 hne, told_nothing hrun.rest hholder fun x hx =>
        ⟨hmem (List.mem_cons_of_mem e hx), hlost x hx⟩⟩
    rw [remembered_append hsilent] at hexpires
    have hwaited := hinv.granted (fun t ht => hlast t ht now' List.mem_cons_self) hwait hne hexpires
    exact not_serves (Int.le_trans hwaited ht) hoffset.1
  | renewed hl => exact absurd hgrant.1 hl
  | kept offsets hnone => cases hnone.symm.trans hgrant.2

end

/-! A lease of ten, a clock error of two: renewed at 5, it is handed on at 17 and not before. -/

@[reducible] def plain : Host := hostOf []

def handedOn : List Line :=
  [⟨"grant", ["a", "0"]⟩, ⟨"renew", ["a", "5"]⟩, ⟨"grant", ["b", "16"]⟩, ⟨"skew", ["a", "-2"]⟩,
    ⟨"grant", ["b", "17"]⟩, ⟨"read", ["b", "17"]⟩]

theorem leases_never_overlap_handed_on : ∃ es₁ e es₂ s,
    Run (onLine (@step plain)) (started 10 2) (es₁ ++ e :: es₂) s ∧
      (es₁ ++ e :: es₂).map Event.input = handedOn ∧ Grants "b" e ∧
      remembered (es₁ ++ e :: es₂) "a" = some 15 ∧ ∀ t, 17 ≤ t → ¬ Serves 15 2 (t + -2) := by
  let _ : Host := plain
  obtain ⟨es₁, e, es₂, s, hrun, hinputs, htime, hleased, hafter, hremembered⟩ : ∃ es₁ e es₂ s,
      Run (onLine step) (started 10 2) (es₁ ++ e :: es₂) s ∧
        (es₁ ++ e :: es₂).map Event.input = handedOn ∧ e.input = ⟨"grant", ["b", "17"]⟩ ∧
        leasedTo e.input e.output = some "b" ∧ es₂.map Event.input = [⟨"read", ["b", "17"]⟩] ∧
        remembered (es₁ ++ e :: es₂) "a" = some 15 :=
    ⟨[_, _, _, _], _, [_], _, run_of_exec handedOn rfl, rfl, rfl, rfl, rfl, rfl⟩
  have hgrant : Grants "b" e := ⟨by rw [htime], hleased⟩
  have hlines : ∀ x ∈ es₁ ++ e :: es₂, x.input.command ≠ "init" := by
    have hall : ∀ l ∈ handedOn, l.command ≠ "init" := by decide
    exact fun x hx => hall _ (hinputs ▸ List.mem_map_of_mem hx)
  have htimes : (times (es₁ ++ e :: es₂)).Pairwise (· ≤ ·) := by
    have hmap : times (es₁ ++ e :: es₂) = handedOn.filterMap timeOf := by
      rw [← hinputs, List.filterMap_map]
      rfl
    rw [hmap]
    decide
  have hlost : ∀ x ∈ es₂, ¬ Grants "a" x := by
    intro x hx hgrants
    have hread := List.mem_singleton.mp (hafter ▸ List.mem_map_of_mem (f := Event.input) hx)
    exact absurd (hread ▸ hgrants.1) (by decide)
  exact ⟨es₁, e, es₂, s, hrun, hinputs, hgrant, hremembered, fun t ht =>
    leases_never_overlap hrun hlines htimes hgrant (by rw [htime]; rfl) (by decide) hlost hremembered ht
      ⟨by decide, by decide⟩⟩

end BuildYourOwn.Resilience.Leases
