import BuildYourOwn.Lib.MapSum
import BuildYourOwn.Patterns.Keys

/-!
# A key is charged once

A command opens a key, charges one, charges without a key, or leaves the state alone (`Acts`). The id a
charge is given is the one the counter has just reached, so no charge before it had it, and from then on
it is the id of its key: whoever is told it asked for that key.

**`charged_once`**: the balance is what the charged keys and the naive charges add up to, a key is
charged at most once and keeps its amount and its charge, two answers give one charge id only if they
are for one key, and a refused request changes nothing.
-/

namespace BuildYourOwn.Patterns.Keys

open Lib Topic

variable {s s' t : Keys} {l : Line} {v : Value} {key id : String} {amount : Int} {rec : KeyRec}
  {es : List (Event Keys Line Value)} {e : Event Keys Line Value}

/-! ## What a command asks for -/

def keyOf (l : Line) : Option String :=
  if l.command = "charge" ∨ l.command = "finish" then l.args[0]? else none

def naiveOf (l : Line) : Int :=
  if l.command = "naive-charge" then
    match int l.args 0 with
    | .ok amount => amount
    | .error _ => 0
  else 0

/-- The charge id of an answer. -/
def told (v : Value) : Option String := v.textAt "charge_id"

def charges (key : String) (e : Event Keys Line Value) : Bool :=
  keyOf e.input == some key && decide (e.before.nextId < e.after.nextId)

def KeyRec.due (rec : KeyRec) : Int := if rec.state = .done then rec.amount else 0

def due (s : Keys) : Int := sumOver KeyRec.due s.keys

def chargeOf (s : Keys) (key : String) : Option String := (s.keys[key]?).bind (·.chargeId)

def taken (s : Keys) (amount : Int) : Keys where
  balance := s.balance + amount
  nextId := s.nextId + 1
  keys := s.keys

def paid (s : Keys) (key : String) (amount : Int) : Keys :=
  { s.taken amount with keys := s.keys.insert key (.charged (chargeId (s.nextId + 1)) amount) }

/-- **What a command other than `init` does.** -/
inductive Acts (s : Keys) (l : Line) (v : Value) : Keys → Prop
  | silent (htold : told v = none) (hnaive : naiveOf l = 0) : Acts s l v s
  | replayed {key id : String} (hkey : keyOf l = some key) (hid : s.chargeOf key = some id)
      (htold : told v = some id) (hnaive : naiveOf l = 0) : Acts s l v s
  | opened {key : String} {amount : Int} (hfree : s.keys[key]? = none) (htold : told v = none)
      (hok : v.flagAt "ok" = some true) (hnaive : naiveOf l = 0) :
      Acts s l v { s with keys := s.keys.insert key (.opened amount) }
  | charged {key : String} {amount : Int} (hkey : keyOf l = some key)
      (hrec : ∀ rec, s.keys[key]? = some rec → rec.chargeId = none ∧ rec.amount = amount)
      (htold : told v = some (chargeId (s.nextId + 1))) (hok : v.flagAt "ok" = some true)
      (hnaive : naiveOf l = 0) : Acts s l v (s.paid key amount)
  | naive (hkey : keyOf l = none) (htold : told v = some (chargeId (s.nextId + 1)))
      (hok : v.flagAt "ok" = none) : Acts s l v (s.taken (naiveOf l))

theorem take_eq_some {p : Keys × String} (h : s.take amount = some p) :
    p = (s.taken amount, chargeId (s.nextId + 1)) := by
  unfold take mint at h
  split at h
  · cases h
  · rename_i s₁ id hmint
    split at hmint
    · cases hmint
      obtain ⟨b, hb, rfl⟩ := Option.map_eq_some_iff.mp h
      obtain ⟨-, rfl⟩ := addI64_eq_some.mp hb
      rfl
    · cases hmint

theorem told_err (message : String) : told (err message) = none := rfl

theorem told_mismatch {bad : Value} (h : s.mismatch key amount = some bad) : told bad = none := by
  unfold mismatch at h
  split at h
  · cases h
  · split at h
    · cases h
    · cases h
      rfl

theorem chargeOf_done (hrec : s.keys[key]? = some rec) (hdone : rec.state = .done) :
    ∃ id, rec.chargeId = some id ∧ s.chargeOf key = some id := by
  obtain ⟨id, hid⟩ := Option.isSome_iff_exists.mp (rec.settled.mpr hdone)
  exact ⟨id, hid, by rw [chargeOf, hrec, Option.bind_some, hid]⟩

theorem charge_acts (hkey : keyOf l = some key) (hnaive : naiveOf l = 0)
    (h : s.charge key amount = some (s', v)) : Acts s l v s' := by
  unfold charge at h
  split at h
  · rename_i bad hbad
    cases h
    exact .silent (told_mismatch hbad) hnaive
  · rename_i hmatch
    split at h
    · rename_i rec hrec
      split at h
      · cases h
        exact .silent rfl hnaive
      · rename_i hdone
        cases h
        obtain ⟨id, hid, hof⟩ := chargeOf_done hrec hdone
        rw [hid]
        exact .replayed hkey hof rfl hnaive
    · rename_i hfree
      split at h
      · cases h
      · rename_i s₁ id htake
        obtain ⟨rfl, rfl⟩ := Prod.mk.inj (take_eq_some htake)
        cases h
        exact .charged hkey (fun rec hrec => nomatch hfree.symm.trans hrec) rfl rfl hnaive

theorem begin_acts (hnaive : naiveOf l = 0) (h : s.begin key amount = (s', v)) : Acts s l v s' := by
  unfold begin at h
  split at h
  · rename_i bad hbad
    cases h
    exact .silent (told_mismatch hbad) hnaive
  · split at h
    · split at h
      · cases h
        exact .silent rfl hnaive
      · cases h
        exact .silent rfl hnaive
    · rename_i hfree
      cases h
      exact .opened hfree rfl rfl hnaive

theorem finish_acts (hkey : keyOf l = some key) (hnaive : naiveOf l = 0)
    (h : s.finish key = some (s', v)) : Acts s l v s' := by
  unfold finish at h
  split at h
  · cases h
    exact .silent rfl hnaive
  · rename_i rec hrec
    split at h
    · rename_i id hid
      cases h
      exact .replayed hkey (by rw [chargeOf, hrec, Option.bind_some, hid]) rfl hnaive
    · rename_i hid
      split at h
      · cases h
      · rename_i s₁ id htake
        obtain ⟨rfl, rfl⟩ := Prod.mk.inj (take_eq_some htake)
        cases h
        refine .charged hkey (fun rec' hrec' => ?_) rfl rfl hnaive
        obtain rfl := Option.mem_unique hrec hrec'
        exact ⟨hid, rfl⟩

theorem naiveCharge_acts (hkey : keyOf l = none) (hnaive : naiveOf l = amount)
    (h : s.naiveCharge amount = some (s', v)) : Acts s l v s' := by
  unfold naiveCharge at h
  split at h
  · cases h
  · rename_i s₁ id htake
    obtain ⟨rfl, rfl⟩ := Prod.mk.inj (take_eq_some htake)
    cases h
    exact hnaive ▸ .naive hkey rfl rfl

theorem told_word {args : List String} {i : Nat} (h : word args i = .error v) : told v = none := by
  obtain ⟨message, rfl⟩ := word_error h
  exact told_err message

theorem told_int {args : List String} {i : Nat} (h : int args i = .error v) : told v = none := by
  obtain ⟨message, rfl⟩ := int_error h
  exact told_err message

theorem keyOf_word (hcmd : l.command = "charge" ∨ l.command = "finish")
    (hkey : word l.args 0 = .ok key) : keyOf l = some key := by
  unfold keyOf
  rw [if_pos hcmd, word_eq_ok.mp hkey]

theorem step_acts [Host] (hcmd : l.command ≠ "init") (h : onLine step s l = some (s', v)) : Acts s l v s' := by
  unfold onLine step at h
  split at h
  · rename_i hc
    exact absurd hc hcmd
  · rename_i hc
    have hnaive : naiveOf l = 0 := if_neg (by rw [hc]; decide)
    rcases arg_eq_some.mp h with ⟨he, rfl⟩ | ⟨key, hkey, h⟩
    · exact .silent (told_word he) hnaive
    · rcases arg_eq_some.mp h with ⟨he, rfl⟩ | ⟨amount, -, h⟩
      · exact .silent (told_int he) hnaive
      · exact charge_acts (keyOf_word (.inl hc) hkey) hnaive h
  · rename_i hc
    have hkey : keyOf l = none := if_neg (by rw [hc]; decide)
    rcases arg_eq_some.mp h with ⟨he, rfl⟩ | ⟨amount, hamount, h⟩
    · exact .silent (told_int he) (by unfold naiveOf; rw [if_pos hc, he])
    · exact naiveCharge_acts hkey (by unfold naiveOf; rw [if_pos hc, hamount]) h
  · rename_i hc
    have hnaive : naiveOf l = 0 := if_neg (by rw [hc]; decide)
    rcases arg_eq_some.mp h with ⟨he, rfl⟩ | ⟨key, -, h⟩
    · exact .silent (told_word he) hnaive
    · rcases arg_eq_some.mp h with ⟨he, rfl⟩ | ⟨amount, -, h⟩
      · exact .silent (told_int he) hnaive
      · exact begin_acts hnaive (Option.some.inj h)
  · rename_i hc
    have hnaive : naiveOf l = 0 := if_neg (by rw [hc]; decide)
    rcases arg_eq_some.mp h with ⟨he, rfl⟩ | ⟨key, hkey, h⟩
    · exact .silent (told_word he) hnaive
    · exact finish_acts (keyOf_word (.inr hc) hkey) hnaive h
  · rename_i hc
    have hnaive : naiveOf l = 0 := if_neg (by rw [hc]; decide)
    rcases arg_eq_some.mp h with ⟨he, rfl⟩ | ⟨key, -, h⟩
    · exact .silent (told_word he) hnaive
    · cases h
      exact .silent rfl hnaive
  · rename_i hc
    cases h
    exact .silent rfl (if_neg (by rw [hc]; decide))
  · cases h
    exact .silent rfl (if_neg (by assumption))

/-- **A refused request changes nothing.** -/
theorem Acts.refused (h : Acts s l v s') (hv : v.flagAt "ok" = some false) : s' = s := by
  cases h with
  | silent => rfl
  | replayed => rfl
  | opened _ _ hok => cases hok.symm.trans hv
  | charged _ _ _ hok => cases hok.symm.trans hv
  | naive _ _ hok => cases hok.symm.trans hv

/-! ## What stays -/

def Stays (s s' : Keys) : Prop :=
  ∀ (key : String) rec, s.keys[key]? = some rec → ∃ rec', s'.keys[key]? = some rec' ∧
    rec'.amount = rec.amount ∧ ∀ id, rec.chargeId = some id → rec'.chargeId = some id

theorem Stays.refl (s : Keys) : Stays s s := fun _ rec h => ⟨rec, h, rfl, fun _ hid => hid⟩

theorem Stays.trans (h : Stays s s') (h' : Stays s' t) : Stays s t := by
  intro key rec hrec
  obtain ⟨rec₁, hrec₁, hamount₁, hid₁⟩ := h key rec hrec
  obtain ⟨rec₂, hrec₂, hamount₂, hid₂⟩ := h' key rec₁ hrec₁
  exact ⟨rec₂, hrec₂, hamount₂.trans hamount₁, fun id hid => hid₂ id (hid₁ id hid)⟩

theorem Acts.stays (h : Acts s l v s') : Stays s s' := by
  cases h with
  | silent => exact .refl s
  | replayed => exact .refl s
  | @opened key' amount hfree =>
    intro key rec hrec
    refine ⟨rec, ?_, rfl, fun _ hid => hid⟩
    rw [StringMap.get_insert, if_neg (fun e => by rw [e, hrec] at hfree; exact absurd hfree (by simp))]
    exact hrec
  | @charged key' amount _ hopen =>
    intro key rec hrec
    unfold paid
    rw [StringMap.get_insert]
    by_cases he : key' = key
    · obtain ⟨hnone, hamount⟩ := hopen rec (he ▸ hrec)
      refine ⟨_, if_pos he, hamount.symm, fun id hid => ?_⟩
      cases hnone.symm.trans hid
    · exact ⟨rec, (if_neg he).trans hrec, rfl, fun _ hid => hid⟩
  | naive => exact .refl s

/-! ## The books -/

theorem chargeId_injective {m n : Nat} (h : chargeId m = chargeId n) : m = n := by
  have hlist := congrArg String.toList h
  rw [chargeId, chargeId, String.toList_append, String.toList_append] at hlist
  exact toString_injective (String.toList_injective (List.append_cancel_left hlist))

def Minted (s : Keys) (id : String) : Prop := ∃ n, n ≤ s.nextId ∧ id = chargeId n

theorem Minted.ne_next (h : Minted s id) : id ≠ chargeId (s.nextId + 1) := by
  obtain ⟨n, hn, rfl⟩ := h
  intro he
  have := chargeId_injective he
  omega

theorem Minted.mono (h : Minted s id) (hn : s.nextId ≤ s'.nextId) : Minted s' id := by
  obtain ⟨n, hle, rfl⟩ := h
  exact ⟨n, hle.trans hn, rfl⟩

theorem chargeOf_opened (hfree : s.keys[key]? = none) (a : String) :
    chargeOf { s with keys := s.keys.insert key (.opened amount) } a = s.chargeOf a := by
  unfold chargeOf
  rw [StringMap.get_insert]
  split
  · rename_i he
    rw [← he, hfree]
    rfl
  · rfl

theorem chargeOf_paid (a : String) : (s.paid key amount).chargeOf a =
    if key = a then some (chargeId (s.nextId + 1)) else s.chargeOf a := by
  unfold chargeOf paid
  rw [StringMap.get_insert]
  split
  · rfl
  · rfl

theorem due_of_free (hrec : ∀ rec, s.keys[key]? = some rec → rec.chargeId = none) :
    (s.keys[key]?).elim 0 KeyRec.due = 0 := by
  cases hget : s.keys[key]? with
  | none => rfl
  | some rec =>
    refine if_neg fun hdone => ?_
    have hid := rec.settled.mpr hdone
    rw [hrec rec hget] at hid
    cases hid

theorem due_opened (hfree : s.keys[key]? = none) :
    due { s with keys := s.keys.insert key (.opened amount) } = s.due := by
  unfold due
  rw [sumOver_insert, hfree]
  show sumOver KeyRec.due s.keys - 0 + 0 = _
  omega

theorem due_paid (hrec : ∀ rec, s.keys[key]? = some rec → rec.chargeId = none) :
    (s.paid key amount).due = s.due + amount := by
  unfold due paid
  rw [sumOver_insert, due_of_free hrec]
  show sumOver KeyRec.due s.keys - 0 + amount = _
  omega

structure Inv (es : List (Event Keys Line Value)) (s : Keys) : Prop where
  balance : s.balance = s.due + (es.map fun e => naiveOf e.input).sum
  minted : ∀ key id, s.chargeOf key = some id → s.Minted id
  owned : ∀ k₁ k₂ id, s.chargeOf k₁ = some id → s.chargeOf k₂ = some id → k₁ = k₂
  told : ∀ e ∈ es, ∀ id, told e.output = some id →
    s.Minted id ∧ ∀ key, keyOf e.input = some key ↔ s.chargeOf key = some id
  apart : es.Pairwise fun e₁ e₂ => ∀ id, Keys.told e₁.output = some id →
    Keys.told e₂.output = some id → keyOf e₁.input ≠ none
  counted : ∀ key, es.countP (charges key) = if (s.chargeOf key).isSome then 1 else 0
  stays : ∀ e ∈ es, Stays e.before s

theorem inv_new : Inv [] new where
  balance := by decide
  minted key id h := absurd h (by simp [chargeOf, new])
  owned k₁ k₂ id h := absurd h (by simp [chargeOf, new])
  told e he := absurd he List.not_mem_nil
  apart := List.Pairwise.nil
  counted key := by simp [chargeOf, new]
  stays e he := absurd he List.not_mem_nil

theorem sum_snoc (es : List (Event Keys Line Value)) (e : Event Keys Line Value) :
    ((es ++ [e]).map fun e => naiveOf e.input).sum = (es.map fun e => naiveOf e.input).sum + naiveOf e.input := by
  simp

theorem countP_snoc (es : List (Event Keys Line Value)) :
    (es ++ [e]).countP (charges key) = es.countP (charges key) + if charges key e then 1 else 0 := by
  rw [List.countP_append, List.countP_singleton]

theorem Inv.quiet (h : Inv es s) (hn : s'.nextId = s.nextId)
    (hbalance : s'.balance + s.due = s.balance + s'.due + naiveOf l)
    (hof : ∀ key, s'.chargeOf key = s.chargeOf key) (hstays : Stays s s')
    (hv : ∀ id, Keys.told v = some id → ∃ key, keyOf l = some key ∧ s.chargeOf key = some id) :
    Inv (es ++ [⟨s, l, v, s'⟩]) s' where
  balance := by
    rw [sum_snoc]
    have := h.balance
    dsimp only
    omega
  minted key id hid := (h.minted key id (hof key ▸ hid)).mono (Nat.le_of_eq hn.symm)
  owned k₁ k₂ id h₁ h₂ := h.owned k₁ k₂ id (hof k₁ ▸ h₁) (hof k₂ ▸ h₂)
  told := by
    refine forall_mem_snoc (fun e he id hid => ?_) fun id hid => ?_
    · obtain ⟨hm, hkey⟩ := h.told e he id hid
      exact ⟨hm.mono (Nat.le_of_eq hn.symm), fun key => (hof key).symm ▸ hkey key⟩
    · obtain ⟨key, hkey, hkeyid⟩ := hv id hid
      refine ⟨(h.minted key id hkeyid).mono (Nat.le_of_eq hn.symm), fun k => ?_⟩
      rw [hof, hkey]
      constructor
      · intro he
        exact Option.some.inj he ▸ hkeyid
      · exact fun hk => congrArg some (h.owned key k id hkeyid hk)
  apart := by
    refine pairwise_snoc h.apart fun e he id hid hid' => ?_
    obtain ⟨key, -, hkeyid⟩ := hv id hid'
    rw [((h.told e he id hid).2 key).mpr hkeyid]
    exact Option.some_ne_none key
  counted key := by
    have hno : charges key ⟨s, l, v, s'⟩ = false := by simp [charges, hn]
    rw [countP_snoc, h.counted, hof, hno]
    rfl
  stays := forall_mem_snoc (fun e he => (h.stays e he).trans hstays) hstays

theorem Inv.mints (h : Inv es s) (hn : s'.nextId = s.nextId + 1)
    (hbalance : s'.balance + s.due = s.balance + s'.due + naiveOf l) (hof : ∀ key, s'.chargeOf key =
      if keyOf l = some key then some (chargeId (s.nextId + 1)) else s.chargeOf key)
    (hfree : ∀ key, keyOf l = some key → s.chargeOf key = none) (hstays : Stays s s')
    (hv : Keys.told v = some (chargeId (s.nextId + 1))) : Inv (es ++ [⟨s, l, v, s'⟩]) s' where
  balance := by
    rw [sum_snoc]
    have := h.balance
    dsimp only
    omega
  minted key id hid := by
    rw [hof] at hid
    split at hid
    · exact ⟨s.nextId + 1, Nat.le_of_eq hn.symm, (Option.some.inj hid).symm⟩
    · exact (h.minted key id hid).mono (hn ▸ Nat.le_succ _)
  owned k₁ k₂ id h₁ h₂ := by
    rw [hof] at h₁ h₂
    split at h₁
    · rename_i hk₁
      split at h₂
      · rename_i hk₂
        exact Option.mem_unique hk₁ hk₂
      · exact absurd (Option.some.inj h₁).symm (h.minted k₂ id h₂).ne_next
    · split at h₂
      · exact absurd (Option.some.inj h₂).symm (h.minted k₁ id h₁).ne_next
      · exact h.owned k₁ k₂ id h₁ h₂
  told := by
    refine forall_mem_snoc (fun e he id hid => ?_) fun id hid => ?_
    · obtain ⟨hm, hkey⟩ := h.told e he id hid
      refine ⟨hm.mono (hn ▸ Nat.le_succ _), fun key => ?_⟩
      rw [hof, hkey]
      split
      · rename_i hk
        rw [hfree key hk]
        exact ⟨nofun, fun he => absurd (Option.some.inj he).symm hm.ne_next⟩
      · rfl
    · obtain rfl := Option.mem_unique hv hid
      refine ⟨⟨s.nextId + 1, Nat.le_of_eq hn.symm, rfl⟩, fun key => ?_⟩
      rw [hof]
      constructor
      · exact fun hk => if_pos hk
      · intro hk
        by_contra hne
        rw [if_neg hne] at hk
        exact (h.minted key _ hk).ne_next rfl
  apart := by
    refine pairwise_snoc h.apart fun e he id hid hid' => ?_
    obtain rfl := Option.mem_unique hv hid'
    exact absurd rfl (h.told e he _ hid).1.ne_next
  counted key := by
    have hrises : decide (s.nextId < s'.nextId) = true := decide_eq_true (by omega)
    rw [countP_snoc, h.counted, hof]
    simp only [charges, hrises, Bool.and_true, beq_iff_eq]
    by_cases hk : keyOf l = some key
    · rw [if_pos hk, if_pos hk, hfree key hk]
      rfl
    · rw [if_neg hk, if_neg hk]
      rfl
  stays := forall_mem_snoc (fun e he => (h.stays e he).trans hstays) hstays

theorem Inv.step (h : Inv es s) (ha : Acts s l v s') : Inv (es ++ [⟨s, l, v, s'⟩]) s' := by
  have hstays := ha.stays
  cases ha with
  | silent htold hnaive =>
    exact h.quiet rfl (by omega) (fun _ => rfl) hstays fun id hid =>
      nomatch htold.symm.trans hid
  | replayed hkey hid htold hnaive =>
    refine h.quiet rfl (by omega) (fun _ => rfl) hstays fun id' hid' => ⟨_, hkey, ?_⟩
    rw [hid, ← htold, hid']
  | opened hfree htold _ hnaive =>
    refine h.quiet rfl ?_ (chargeOf_opened hfree) hstays fun id hid =>
      nomatch htold.symm.trans hid
    rw [due_opened hfree]
    dsimp only
    omega
  | @charged key amount hkey hrec htold _ hnaive =>
    have hnone : ∀ rec, s.keys[key]? = some rec → rec.chargeId = none := fun rec h => (hrec rec h).1
    refine h.mints rfl ?_ (fun k => ?_) (fun k hk => ?_) hstays htold
    · rw [due_paid hnone]
      show s.balance + amount + s.due = _
      omega
    · rw [chargeOf_paid]
      simp only [hkey, Option.some.injEq]
    · obtain rfl := Option.mem_unique hkey hk
      unfold chargeOf
      cases hget : s.keys[key]? with
      | none => rfl
      | some rec => exact hnone rec hget
  | naive hkey htold _ =>
    refine h.mints rfl ?_ (fun k => ?_) (fun k hk => ?_) hstays htold
    · show s.balance + naiveOf l + s.due = s.balance + s.due + naiveOf l
      omega
    · rw [hkey, if_neg (by simp)]
      rfl
    · cases hkey.symm.trans hk

theorem inv_of_run [Host] (h : Run (onLine step) new es s) (hcmd : ∀ e ∈ es, e.input.command ≠ "init") : Inv es s :=
  h.history_invariant inv_new (fun _ _ _ _ _ hinv hcmd hs => hinv.step (step_acts hcmd hs)) hcmd

/-- **Charged once**: the balance is what has been charged, no key is charged twice or changes its
amount or its charge, an answer names the charge of the key it is for, two answers name one charge only
if they are for one key, and a refused request changes nothing. -/
theorem charged_once [Host] (h : Run (onLine step) new es s)
    (hcmd : ∀ e ∈ es, e.input.command ≠ "init") :
    s.balance = s.due + (es.map fun e => naiveOf e.input).sum ∧
    (∀ key, es.countP (charges key) = if (s.chargeOf key).isSome then 1 else 0) ∧
    (∀ e ∈ es, Stays e.before s) ∧
    (∀ e ∈ es, ∀ id, told e.output = some id →
      ∀ key, keyOf e.input = some key ↔ s.chargeOf key = some id) ∧
    (es.Pairwise fun e₁ e₂ => ∀ id₁ id₂, told e₁.output = some id₁ → told e₂.output = some id₂ →
      (id₁ = id₂ ↔ ∃ key, keyOf e₁.input = some key ∧ keyOf e₂.input = some key)) ∧
    ∀ e ∈ es, e.output.flagAt "ok" = some false → e.after = e.before := by
  have hinv := inv_of_run h hcmd
  refine ⟨hinv.balance, hinv.counted, hinv.stays, fun e he id hid => (hinv.told e he id hid).2, ?_,
    fun e he hv => ?_⟩
  · refine hinv.apart.imp_of_mem fun {e₁ e₂} h₁ h₂ hapart id₁ id₂ ht₁ ht₂ => ?_
    obtain ⟨-, hkey₁⟩ := hinv.told e₁ h₁ id₁ ht₁
    obtain ⟨-, hkey₂⟩ := hinv.told e₂ h₂ id₂ ht₂
    constructor
    · rintro rfl
      obtain ⟨key, hkey⟩ := Option.ne_none_iff_exists'.mp (hapart id₁ ht₁ ht₂)
      exact ⟨key, hkey, (hkey₂ key).mpr ((hkey₁ key).mp hkey)⟩
    · rintro ⟨key, hk₁, hk₂⟩
      exact Option.some.inj (((hkey₁ key).mp hk₁).symm.trans ((hkey₂ key).mp hk₂))
  · exact (step_acts (hcmd e he) (h.step_of_mem he)).refused hv

/-! ## A run -/

def retried : List Line :=
  [⟨"charge", ["k", "5"]⟩, ⟨"lost-answer", ["k"]⟩, ⟨"charge", ["k", "5"]⟩, ⟨"begin", ["j", "7"]⟩,
    ⟨"charge", ["k", "6"]⟩, ⟨"naive-charge", ["3"]⟩, ⟨"finish", ["j"]⟩, ⟨"finish", ["j"]⟩]

theorem charged_once_retried : ∃ es s, Run (onLine (@step (hostOf []))) new es s ∧
    es.map Event.input = retried ∧ s.balance = 15 ∧ s.due = 12 ∧
    es.map (fun e => told e.output) =
      [some "c1", none, some "c1", none, none, some "c2", some "c3", some "c3"] ∧
    es.countP (charges "j") = 1 ∧
    s.balance = s.due + (es.map fun e => naiveOf e.input).sum := by
  let _ : Host := hostOf []
  obtain ⟨es, s, hrun, hinputs, hbalance, hdue, htold, hcount, hall⟩ :
      ∃ es s, Run (onLine step) new es s ∧ es.map Event.input = retried ∧ s.balance = 15 ∧
        s.due = 12 ∧ es.map (fun e => told e.output) =
          [some "c1", none, some "c1", none, none, some "c2", some "c3", some "c3"] ∧
        es.countP (charges "j") = 1 ∧ es.all (fun e => e.input.command != "init") = true :=
    ⟨_, _, run_of_exec retried rfl, rfl, rfl, rfl, rfl, rfl, rfl⟩
  exact ⟨es, s, hrun, hinputs, hbalance, hdue, htold, hcount,
    (charged_once hrun fun e he => bne_iff_ne.mp (List.all_eq_true.mp hall e he)).1⟩

end BuildYourOwn.Patterns.Keys
