import BuildYourOwn.Trust.Snapshot

/-!
# First committer wins

Of two transactions that write one key, the second to commit began after the first had committed:
`prewrite` locks every key and finds the newer versions, and the lock keeps others out until the
commit. What it depends on is that every key a transaction commits is one it has locked
(`CommitsUnlocked`). A `write` after the `prewrite` adds a key without a lock, and a second `commit`
finds the locks gone; the topic refuses neither (`not_first_committer_wins`).

The invariant: the owner of a lock has not committed and no version of the key is newer than its
snapshot; a committed transaction has its versions in the data; and no two committed transactions
that share a key ran concurrently.

**`first_committer_wins`**: in every run whose commits find their keys locked, transactions that
share a key did not run concurrently, and none installs its writes twice.
-/

namespace BuildYourOwn.Trust.Snapshot

open Lib Topic

def Writes (t : Txn) (key : String) : Prop := ∃ x, t.writes[key]? = some x

/-- A `commit` that would go through although the transaction does not hold the lock of a key. -/
def CommitsUnlocked (s : Snapshot) (l : Line) : Prop :=
  l.command = "commit" ∧ ∃ name t, word l.args 0 = .ok name ∧ s.txns[name]? = some t ∧
    t.aborted = false ∧ t.prewritten = true ∧
    ∃ key, Writes t key ∧ (s.locks[key]?).map Prod.fst ≠ some name

/-! ## The invariant -/

def LockHeld (s : Snapshot) (key owner : String) : Prop :=
  ∃ t, s.txns[owner]? = some t ∧ t.committed = none ∧ Writes t key ∧
    ∀ v ∈ s.versions key, v.commitTs ≤ t.startTs

structure Inv (s : Snapshot) : Prop where
  started : ∀ (name : String) t, s.txns[name]? = some t → t.startTs ≤ s.clock
  past : ∀ key, ∀ v ∈ s.versions key, v.commitTs ≤ s.clock
  locked : ∀ (key : String) owner ts, s.locks[key]? = some (owner, ts) → LockHeld s key owner
  installed : ∀ (name : String) t c, s.txns[name]? = some t → t.committed = some c →
    t.startTs < c ∧ c ≤ s.clock ∧ ∀ key, Writes t key → ∃ v ∈ s.versions key, v.commitTs = c
  apart : ∀ (n₁ n₂ : String) t₁ t₂ c₁ c₂, s.txns[n₁]? = some t₁ → s.txns[n₂]? = some t₂ →
    t₁.committed = some c₁ → t₂.committed = some c₂ → c₁ < c₂ →
    (∃ key, Writes t₁ key ∧ Writes t₂ key) → c₁ ≤ t₂.startTs

theorem inv_fresh : Inv fresh where
  started name t h := absurd h (by simp [fresh])
  past key v h := absurd h (by simp [fresh, versions])
  locked key owner ts h := absurd h (by simp [fresh])
  installed name t c h := absurd h (by simp [fresh])
  apart n₁ n₂ t₁ t₂ c₁ c₂ h := absurd h (by simp [fresh])

/-- A transaction that has committed some writes stays as it is. -/
def Keeps (s s' : Snapshot) : Prop :=
  ∀ (name : String) t c, s.txns[name]? = some t → t.committed = some c → (∃ key, Writes t key) →
    ∃ t', s'.txns[name]? = some t' ∧ t'.committed = some c ∧ t'.writes = t.writes ∧
      t'.startTs = t.startTs

variable {s s' : Snapshot} {name : String} {t t' : Txn} {v : Value}

theorem Keeps.refl (s : Snapshot) : Keeps s s := fun _ t _ h hc _ => ⟨t, h, hc, rfl, rfl⟩

theorem txns_setTxn (a : String) : (s.setTxn name t).txns[a]? = if name = a then some t else s.txns[a]? :=
  StringMap.get_insert ..

/-! ## What each part of a command keeps -/

theorem Inv.relock (h : Inv s) (locks : StringMap (String × Int))
    (hlocks : ∀ (key : String) owner ts, locks[key]? = some (owner, ts) → LockHeld s key owner) :
    Inv { s with locks := locks } :=
  ⟨h.started, h.past, hlocks, h.installed, h.apart⟩

theorem Inv.later (h : Inv s) (clock : Int) (hle : s.clock ≤ clock) : Inv { s with clock := clock } where
  started name t ht := Int.le_trans (h.started name t ht) hle
  past key v hv := Int.le_trans (h.past key v hv) hle
  locked := h.locked
  installed name t c ht hc :=
    let ⟨hlt, hc', hv⟩ := h.installed name t c ht hc
    ⟨hlt, Int.le_trans hc' hle, hv⟩
  apart := h.apart

/-- `t'` may take the place of the transaction `name`: it began when it did, it has committed if it
had, and then with the same writes. -/
structure Continues (s : Snapshot) (name : String) (t' : Txn) : Prop where
  start : t'.startTs ≤ s.clock
  same : ∀ t, s.txns[name]? = some t → t'.startTs = t.startTs ∧ t'.committed = t.committed ∧
    ∀ key, Writes t key → Writes t' key
  final : ∀ c, t'.committed = some c → ∃ t, s.txns[name]? = some t ∧ t'.writes = t.writes

theorem Continues.committed_before (h : Continues s name t') {n : String} {c : Int}
    (ht : (s.setTxn name t').txns[n]? = some t) (hc : t.committed = some c) :
    ∃ t₀, s.txns[n]? = some t₀ ∧ t₀.committed = some c ∧ t₀.writes = t.writes ∧ t₀.startTs = t.startTs := by
  rw [txns_setTxn] at ht
  by_cases hn : name = n
  · rw [if_pos hn] at ht
    cases ht
    obtain ⟨t₀, ht₀, hw⟩ := h.final c hc
    obtain ⟨hstart, hcom, -⟩ := h.same t₀ ht₀
    exact ⟨t₀, hn ▸ ht₀, hcom ▸ hc, hw.symm, hstart.symm⟩
  · rw [if_neg hn] at ht
    exact ⟨t, ht, hc, rfl, rfl⟩

theorem Inv.setTxn (h : Inv s) (hcont : Continues s name t') : Inv (s.setTxn name t') where
  started n t ht := by
    rw [txns_setTxn] at ht
    split at ht
    · cases ht
      exact hcont.start
    · exact h.started n t ht
  past := h.past
  locked key owner ts hl := by
    obtain ⟨t, ht, hc, hw, hv⟩ := h.locked key owner ts hl
    by_cases hn : name = owner
    · subst hn
      obtain ⟨hstart, hcom, hmore⟩ := hcont.same t ht
      refine ⟨t', by rw [txns_setTxn, if_pos rfl], hcom.trans hc, hmore key hw, ?_⟩
      rw [hstart]
      exact hv
    · exact ⟨t, by rw [txns_setTxn, if_neg hn]; exact ht, hc, hw, hv⟩
  installed n t c ht hc := by
    obtain ⟨t₀, ht₀, hc₀, hw, hstart⟩ := hcont.committed_before ht hc
    obtain ⟨hlt, hle, hv⟩ := h.installed n t₀ c ht₀ hc₀
    unfold Writes at hv
    rw [hw] at hv
    exact ⟨hstart ▸ hlt, hle, hv⟩
  apart n₁ n₂ t₁ t₂ c₁ c₂ ht₁ ht₂ hc₁ hc₂ hlt hshare := by
    obtain ⟨u₁, hu₁, hd₁, hw₁, -⟩ := hcont.committed_before ht₁ hc₁
    obtain ⟨u₂, hu₂, hd₂, hw₂, hstart⟩ := hcont.committed_before ht₂ hc₂
    have hshare' : ∃ key, Writes u₁ key ∧ Writes u₂ key := by
      unfold Writes
      rw [hw₁, hw₂]
      exact hshare
    exact hstart ▸ h.apart n₁ n₂ u₁ u₂ c₁ c₂ hu₁ hu₂ hd₁ hd₂ hlt hshare'

theorem Continues.keeps (h : Continues s name t') : Keeps s (s.setTxn name t') := by
  intro n t c ht hc _
  rw [txns_setTxn]
  by_cases hn : name = n
  · subst hn
    obtain ⟨hstart, hcom, -⟩ := h.same t ht
    obtain ⟨t₀, ht₀, hw⟩ := h.final c (hcom.trans hc)
    obtain rfl : t = t₀ := Option.mem_unique ht ht₀
    exact ⟨t', if_pos rfl, hcom.trans hc, hw, hstart⟩
  · exact ⟨t, by rw [if_neg hn]; exact ht, hc, rfl, rfl⟩

theorem Inv.continues (h : Inv s) (ht : s.txns[name]? = some t) (hs : t'.startTs = t.startTs)
    (hw : t'.writes = t.writes) (hc : t'.committed = t.committed) : Continues s name t' where
  start := hs ▸ h.started name t ht
  same t₀ ht₀ := by
    obtain rfl : t = t₀ := Option.mem_unique ht ht₀
    exact ⟨hs, hc, fun key hk => by rwa [Writes, hw]⟩
  final c _ := ⟨t, ht, hw⟩

/-! ## What each command keeps -/

theorem Inv.write (h : Inv s) (ht : s.txns[name]? = some t) (key : String) (value : Int) :
    Inv (s.write name t key value).1 ∧ Keeps s (s.write name t key value).1 := by
  unfold Snapshot.write
  by_cases hdone : t.committed.isSome = true ∨ t.aborted = true
  · rw [if_pos hdone]
    exact ⟨h, .refl s⟩
  · rw [if_neg hdone]
    have hopen : t.committed = none := by
      cases hc : t.committed with
      | none => rfl
      | some c => exact absurd (.inl (by rw [hc]; rfl)) hdone
    have hcont : Continues s name { t with writes := t.writes.insert key value } := by
      refine ⟨h.started name t ht, fun t₀ ht₀ => ?_, fun c hc => ?_⟩
      · obtain rfl : t = t₀ := Option.mem_unique ht ht₀
        refine ⟨rfl, rfl, fun k hk => ?_⟩
        unfold Writes
        simp only [StringMap.get_insert]
        split
        · exact ⟨value, rfl⟩
        · exact hk
      · rw [hopen] at hc
        cases hc
    exact ⟨h.setTxn hcont, hcont.keeps⟩

theorem conflict_eq_none {key : String} (h : s.conflict name t key = none) :
    ∀ v ∈ s.versions key, v.commitTs ≤ t.startTs := by
  intro v hv
  by_contra hnew
  have hany : ((s.versions key).any fun v => t.startTs < v.commitTs) = true :=
    List.any_eq_true.mpr ⟨v, hv, by simpa using hnew⟩
  unfold conflict at h
  simp only [hany, if_true] at h
  split at h
  · split at h <;> cases h
  · cases h

theorem Inv.prewrite (h : Inv s) (ht : s.txns[name]? = some t) :
    Inv (s.prewrite name t).1 ∧ Keeps s (s.prewrite name t).1 := by
  unfold Snapshot.prewrite
  by_cases habort : t.aborted = true
  · rw [if_pos habort]
    exact ⟨h, .refl s⟩
  rw [if_neg habort]
  cases hconf : t.writes.keys.findSome? (s.conflict name t) with
  | some answer =>
    have hcont : Continues s name { t with aborted := true } := h.continues ht rfl rfl rfl
    exact ⟨h.setTxn hcont, hcont.keeps⟩
  | none =>
    have hclear : ∀ key, Writes t key → ∀ v ∈ s.versions key, v.commitTs ≤ t.startTs :=
      fun key hk => conflict_eq_none
        (List.findSome?_eq_none_iff.mp hconf key (StringMap.mem_keys.mpr hk))
    have hlocks : Inv { s with
        locks := t.writes.keys.foldl (fun m key => m.insert key (name, t.startTs)) s.locks } := by
      refine h.relock _ fun key owner ts hl => ?_
      rw [StringMap.get_foldl_insert key (fun _ => (name, t.startTs))] at hl
      split at hl
      · rename_i hk
        have hw := StringMap.mem_keys.mp hk
        cases hl
        -- had it committed, its own version would have been in the way
        have hopen : t.committed = none := by
          cases hc : t.committed with
          | none => rfl
          | some c =>
            obtain ⟨hlt, -, hv⟩ := h.installed _ t c ht hc
            obtain ⟨v, hv, hvc⟩ := hv key hw
            have := hclear key hw v hv
            omega
        exact ⟨t, ht, hopen, hw, hclear key hw⟩
      · exact h.locked key owner ts hl
    have hcont : Continues _ name { t with prewritten := true } := hlocks.continues ht rfl rfl rfl
    exact ⟨hlocks.setTxn hcont, hcont.keeps⟩

theorem Inv.unlock (h : Inv s) (keys : List String) :
    Inv { s with locks := keys.foldl (fun m key => m.erase key) s.locks } := by
  refine h.relock _ fun key owner ts hl => ?_
  rw [StringMap.get_foldl_erase] at hl
  split at hl
  · cases hl
  · exact h.locked key owner ts hl

theorem Inv.abort (h : Inv s) (ht : s.txns[name]? = some t) : Inv (s.abort name t).1 ∧ Keeps s (s.abort name t).1 := by
  have hunlock := h.unlock (s.lockedBy name t)
  have hcont : Continues _ name { t with aborted := true } := hunlock.continues ht rfl rfl rfl
  exact ⟨hunlock.setTxn hcont, hcont.keeps⟩

theorem tick_eq_some {ts : Int} (h : s.tick = some (ts, s')) :
    ts = s.clock + 1 ∧ s' = { s with clock := s.clock + 1 } := by
  unfold tick at h
  obtain ⟨clock, hadd, heq⟩ := Option.map_eq_some_iff.mp h
  obtain ⟨-, rfl⟩ := addI64_eq_some.mp hadd
  cases heq
  exact ⟨rfl, rfl⟩

theorem Inv.begin [Host] (h : Inv s) (hs : s.begin name = some (s', v)) : Inv s' ∧ Keeps s s' := by
  unfold Snapshot.begin at hs
  by_cases hold : s.txns.contains name = true
  · rw [if_pos hold] at hs
    cases hs
    exact ⟨h, .refl s⟩
  rw [if_neg hold] at hs
  have hnew : s.txns[name]? = none := by
    rw [Std.ExtTreeMap.contains_eq_isSome_getElem?] at hold
    simpa using hold
  cases htick : s.tick with
  | none =>
    rw [htick] at hs
    cases hs
  | some r =>
    obtain ⟨ts, s₁⟩ := r
    obtain ⟨rfl, rfl⟩ := tick_eq_some htick
    rw [htick] at hs
    cases hs
    have hlater := h.later (s.clock + 1) (by omega)
    have hcont : Continues { s with clock := s.clock + 1 } name
        { startTs := s.clock + 1, writes := ∅, prewritten := false, committed := none,
          aborted := false } :=
      ⟨Int.le_refl _, fun t ht => absurd (hnew.symm.trans ht) (by simp),
        nofun⟩
    exact ⟨hlater.setTxn hcont, hcont.keeps⟩

theorem mem_install (ts : Int) (key : String) (u : Version) : ∀ (ws : List (String × Int))
    (data : StringMap (List Version)), u ∈ (install ts data ws).getD key [] ↔
      u ∈ data.getD key [] ∨ ∃ x, (key, x) ∈ ws ∧ u = ⟨ts, x⟩
  | [], data => by simp [install]
  | (k, x) :: ws, data => by
    rw [show install ts data ((k, x) :: ws) =
      install ts (data.insert k (data.getD k [] ++ [⟨ts, x⟩])) ws from rfl, mem_install ts key u ws,
      StringMap.getD_insert]
    by_cases hk : k = key
    · subst hk
      rw [if_pos rfl, List.mem_append, List.mem_singleton, or_assoc]
      refine or_congr_right ⟨?_, ?_⟩
      · rintro (rfl | ⟨y, hy, rfl⟩)
        · exact ⟨x, List.mem_cons_self, rfl⟩
        · exact ⟨y, List.mem_cons_of_mem _ hy, rfl⟩
      · rintro ⟨y, hy, rfl⟩
        rcases List.mem_cons.mp hy with heq | hy
        · cases heq
          exact .inl rfl
        · exact .inr ⟨y, hy, rfl⟩
    · rw [if_neg hk]
      refine or_congr_right ⟨?_, ?_⟩
      · rintro ⟨y, hy, rfl⟩
        exact ⟨y, List.mem_cons_of_mem _ hy, rfl⟩
      · rintro ⟨y, hy, rfl⟩
        rcases List.mem_cons.mp hy with heq | hy
        · exact absurd (Prod.mk.inj heq).1.symm hk
        · exact ⟨y, hy, rfl⟩

/-- What a `commit` that goes through leaves. -/
def committedAt (s : Snapshot) (name : String) (t : Txn) (ts : Int) : Snapshot :=
  setTxn { s with
    clock := ts
    data := install ts s.data t.writes.toList
    locks := t.writes.keys.foldl (fun m key => m.erase key) s.locks } name
    { t with committed := some ts }

theorem mem_versions_committedAt {ts : Int} {key : String} {u : Version} :
    u ∈ (s.committedAt name t ts).versions key ↔ u ∈ s.versions key ∨ ∃ x, t.writes[key]? = some x ∧ u = ⟨ts, x⟩ := by
  have h := mem_install ts key u t.writes.toList s.data
  simp only [StringMap.mem_toList] at h
  exact h

theorem txns_committedAt {ts : Int} (a : String) : (s.committedAt name t ts).txns[a]? =
    if name = a then some { t with committed := some ts } else s.txns[a]? :=
  StringMap.get_insert ..

theorem Inv.open_of_locked (h : Inv s) (ht : s.txns[name]? = some t) {key : String}
    (hlock : (s.locks[key]?).map Prod.fst = some name) :
    t.committed = none ∧ ∀ v ∈ s.versions key, v.commitTs ≤ t.startTs := by
  obtain ⟨⟨owner, ts⟩, hl, rfl⟩ := Option.map_eq_some_iff.mp hlock
  obtain ⟨t₀, ht₀, hc, -, hv⟩ := h.locked key _ ts hl
  obtain rfl : t = t₀ := Option.mem_unique ht ht₀
  exact ⟨hc, hv⟩

theorem Inv.committedAt (h : Inv s) (ht : s.txns[name]? = some t)
    (hlocked : ∀ key, Writes t key → (s.locks[key]?).map Prod.fst = some name) :
    Inv (s.committedAt name t (s.clock + 1)) where
  started n u hu := by
    show u.startTs ≤ s.clock + 1
    rw [txns_committedAt] at hu
    split at hu
    · cases hu
      have := h.started name t ht
      show t.startTs ≤ s.clock + 1
      omega
    · have := h.started n u hu
      omega
  past key u hu := by
    show u.commitTs ≤ s.clock + 1
    rcases mem_versions_committedAt.mp hu with hu | ⟨x, -, rfl⟩
    · have := h.past key u hu
      omega
    · exact Int.le_refl _
  locked key owner ts hl := by
    have hl : (t.writes.keys.foldl (fun m key => m.erase key) s.locks)[key]? = some (owner, ts) :=
      hl
    rw [StringMap.get_foldl_erase] at hl
    split at hl
    · cases hl
    · rename_i hkey
      have hother : ¬ Writes t key := fun hw => hkey (StringMap.mem_keys.mpr hw)
      obtain ⟨u, hu, hc, hw, hv⟩ := h.locked key owner ts hl
      have hne : name ≠ owner := by
        rintro rfl
        obtain rfl : t = u := Option.mem_unique ht hu
        exact hother hw
      refine ⟨u, by rw [txns_committedAt, if_neg hne]; exact hu, hc, hw, fun v hv' => ?_⟩
      rcases mem_versions_committedAt.mp hv' with hv' | ⟨x, hx, -⟩
      · exact hv v hv'
      · exact absurd ⟨x, hx⟩ hother
  installed n u c hu hc := by
    show _ ∧ c ≤ s.clock + 1 ∧ _
    rw [txns_committedAt] at hu
    split at hu
    · cases hu
      cases hc
      have := h.started name t ht
      refine ⟨show t.startTs < s.clock + 1 by omega, Int.le_refl _, fun key hw => ?_⟩
      obtain ⟨x, hx⟩ := hw
      exact ⟨⟨s.clock + 1, x⟩, mem_versions_committedAt.mpr (.inr ⟨x, hx, rfl⟩), rfl⟩
    · obtain ⟨hlt, hle, hv⟩ := h.installed n u c hu hc
      refine ⟨hlt, by omega, fun key hw => ?_⟩
      obtain ⟨v, hv, hvc⟩ := hv key hw
      exact ⟨v, mem_versions_committedAt.mpr (.inl hv), hvc⟩
  apart n₁ n₂ t₁ t₂ c₁ c₂ ht₁ ht₂ hc₁ hc₂ hlt hshare := by
    rw [txns_committedAt] at ht₁ ht₂
    split at ht₁
    · -- the one that commits now is the last
      cases ht₁
      cases hc₁
      split at ht₂
      · cases ht₂
        cases hc₂
        exact absurd hlt (Int.lt_irrefl _)
      · have := (h.installed n₂ t₂ c₂ ht₂ hc₂).2.1
        omega
    · split at ht₂
      · -- the earlier one's version of the shared key is not newer than this one's snapshot
        cases ht₂
        obtain ⟨key, hw₁, hw₂⟩ := hshare
        obtain ⟨v, hv, rfl⟩ := (h.installed n₁ t₁ c₁ ht₁ hc₁).2.2 key hw₁
        exact (h.open_of_locked ht (hlocked key hw₂)).2 v hv
      · exact h.apart n₁ n₂ t₁ t₂ c₁ c₂ ht₁ ht₂ hc₁ hc₂ hlt hshare

theorem Inv.keeps_committedAt (h : Inv s) (ht : s.txns[name]? = some t)
    (hlocked : ∀ key, Writes t key → (s.locks[key]?).map Prod.fst = some name) (ts : Int) :
    Keeps s (s.committedAt name t ts) := by
  intro n u c hu hc ⟨key, hw⟩
  rw [txns_committedAt]
  by_cases hn : name = n
  · subst hn
    obtain rfl : t = u := Option.mem_unique ht hu
    rw [(h.open_of_locked ht (hlocked key hw)).1] at hc
    cases hc
  · exact ⟨u, by rw [if_neg hn]; exact hu, hc, rfl, rfl⟩

/-- A `commit` refuses, or goes through at the next timestamp. -/
theorem commit_cases (h : s.commit name t = some (s', v)) : (s' = s ∧ v.flagAt "committed" = some false) ∨
    (t.aborted = false ∧ t.prewritten = true ∧ s' = s.committedAt name t (s.clock + 1) ∧
      v.numAt "commit_ts" = some (s.clock + 1)) := by
  unfold commit at h
  by_cases habort : t.aborted = true
  · rw [if_pos habort] at h
    cases h
    exact .inl ⟨rfl, rfl⟩
  rw [if_neg habort] at h
  by_cases hpre : t.prewritten = false
  · rw [if_pos hpre] at h
    cases h
    exact .inl ⟨rfl, rfl⟩
  rw [if_neg hpre] at h
  cases htick : s.tick with
  | none =>
    rw [htick] at h
    cases h
  | some r =>
    obtain ⟨ts, s₁⟩ := r
    obtain ⟨rfl, rfl⟩ := tick_eq_some htick
    rw [htick] at h
    cases h
    exact .inr ⟨by simpa using habort, by simpa using hpre, rfl, rfl⟩

/-! ## Runs -/

/-- A command of a transaction. -/
def IsTxnLine (l : Line) : Prop :=
  l.command ∈ ["begin", "read", "write", "prewrite", "commit", "abort"]

/-- The event is a `commit` of the transaction `name`, with its writes in `t`, that was answered
committed at `commitTs`. -/
structure Commits (e : Event Snapshot Line Value) (name : String) (t : Txn) (commitTs : Int) :
    Prop where
  command : e.input.command = "commit"
  named : word e.input.args 0 = .ok name
  txn : e.before.txns[name]? = some t
  answered : e.output.flagAt "committed" = some true
  at_ts : e.output.numAt "commit_ts" = some commitTs

/-- The event installs some writes of the transaction `name`. -/
def Installs (e : Event Snapshot Line Value) (name : String) : Prop :=
  ∃ t c, Commits e name t c ∧ ∃ key, Writes t key

section

variable [Host]

theorem onTxn_cases {k : Txn → Handled Snapshot} (h : onTxn s name k = some (s', v)) :
    s' = s ∨ ∃ t, s.txns[name]? = some t ∧ k t = some (s', v) := by
  unfold onTxn at h
  cases ht : s.txns[name]? with
  | none =>
    rw [ht] at h
    cases h
    exact .inl rfl
  | some t =>
    rw [ht] at h
    exact .inr ⟨t, rfl, h⟩

theorem inv_step {l : Line} (h : Inv s) (hl : IsTxnLine l) (hlocked : ¬ CommitsUnlocked s l)
    (hs : onLine step s l = some (s', v)) : Inv s' ∧ Keeps s s' := by
  have hsame : s' = s → Inv s' ∧ Keeps s s' := by
    rintro rfl
    exact ⟨h, .refl _⟩
  obtain ⟨command, args⟩ := l
  unfold IsTxnLine at hl
  simp only [List.mem_cons, List.not_mem_nil, or_false] at hl
  rcases hl with rfl | rfl | rfl | rfl | rfl | rfl <;> simp only [onLine, step] at hs <;>
    rcases arg_eq_some.mp hs with ⟨-, heq⟩ | ⟨name, hname, hs⟩
  all_goals try exact hsame heq
  · exact h.begin hs
  · rcases arg_eq_some.mp hs with ⟨-, heq⟩ | ⟨key, -, hs⟩
    · exact hsame heq
    rcases onTxn_cases hs with heq | ⟨t, -, hs⟩
    · exact hsame heq
    · cases hs
      exact hsame rfl
  · rcases arg_eq_some.mp hs with ⟨-, heq⟩ | ⟨key, -, hs⟩
    · exact hsame heq
    rcases arg_eq_some.mp hs with ⟨-, heq⟩ | ⟨value, -, hs⟩
    · exact hsame heq
    rcases onTxn_cases hs with heq | ⟨t, ht, hs⟩
    · exact hsame heq
    · have := h.write ht key value
      rwa [Option.some.inj hs] at this
  · rcases onTxn_cases hs with heq | ⟨t, ht, hs⟩
    · exact hsame heq
    · have := h.prewrite ht
      rwa [Option.some.inj hs] at this
  · rcases onTxn_cases hs with heq | ⟨t, ht, hs⟩
    · exact hsame heq
    rcases commit_cases hs with ⟨heq, -⟩ | ⟨habort, hpre, rfl, -⟩
    · exact hsame heq
    · have hall : ∀ key, Writes t key → (s.locks[key]?).map Prod.fst = some name := by
        intro key hw
        by_contra hlock
        exact hlocked ⟨rfl, name, t, hname, ht, habort, hpre, key, hw, hlock⟩
      exact ⟨h.committedAt ht hall, h.keeps_committedAt ht hall _⟩
  · rcases onTxn_cases hs with heq | ⟨t, ht, hs⟩
    · exact hsame heq
    · have := h.abort ht
      rwa [Option.some.inj hs] at this

theorem Commits.after {e : Event Snapshot Line Value} {c : Int} (hc : Commits e name t c)
    (hs : onLine step e.before e.input = some (e.after, e.output)) :
    t.aborted = false ∧ t.prewritten = true ∧ ∃ t', e.after.txns[name]? = some t' ∧
      t'.committed = some c ∧ t'.writes = t.writes ∧ t'.startTs = t.startTs := by
  unfold onLine at hs
  rw [hc.command] at hs
  simp only [step, hc.named, arg_ok, onTxn, hc.txn] at hs
  rcases commit_cases hs with ⟨-, hno⟩ | ⟨habort, hpre, hafter, hts⟩
  · rw [hc.answered] at hno
    cases Option.some.inj hno
  · have hcts : e.before.clock + 1 = c := Option.mem_unique hts hc.at_ts
    rw [hafter, txns_committedAt, if_pos rfl]
    exact ⟨habort, hpre, _, rfl, congrArg some hcts, rfl, rfl⟩

structure Faithful (es : List (Event Snapshot Line Value)) (s : Snapshot) : Prop where
  inv : Inv s
  kept : ∀ e ∈ es, ∀ name t c, Commits e name t c → (∃ key, Writes t key) →
    ∃ t', s.txns[name]? = some t' ∧ t'.committed = some c ∧ t'.writes = t.writes ∧
      t'.startTs = t.startTs
  once : es.Pairwise fun e₁ e₂ => ∀ name, Installs e₁ name → ¬ Installs e₂ name

theorem faithful {es : List (Event Snapshot Line Value)} (hrun : Run (onLine step) fresh es s)
    (hes : ∀ e ∈ es, IsTxnLine e.input ∧ ¬ CommitsUnlocked e.before e.input) : Faithful es s := by
  refine hrun.history_invariant ⟨inv_fresh, List.forall_mem_nil _, .nil⟩
    (fun es s l s' v ih hguard hs => ?_) hes
  obtain ⟨hl, hlocked⟩ := hguard
  obtain ⟨hinv, hkeeps⟩ := inv_step ih.inv hl hlocked hs
  refine ⟨hinv, fun e he name t c hc hw => ?_, ?_⟩
  · rcases List.mem_append.mp he with he | he
    · obtain ⟨t₁, ht₁, hc₁, hw₁, hs₁⟩ := ih.kept e he name t c hc hw
      obtain ⟨t₂, ht₂, hc₂, hw₂, hs₂⟩ := hkeeps name t₁ c ht₁ hc₁
        (by simpa only [Writes, hw₁] using hw)
      exact ⟨t₂, ht₂, hc₂, hw₂.trans hw₁, hs₂.trans hs₁⟩
    · obtain rfl := List.mem_singleton.mp he
      exact (hc.after hs).2.2
  · refine List.pairwise_append.mpr ⟨ih.once, List.pairwise_singleton _ _, ?_⟩
    rintro e₁ he₁ e₂ he₂ name ⟨t₁, c₁, hc₁, hw₁⟩ ⟨t₂, c₂, hc₂, key, hw₂⟩
    obtain rfl := List.mem_singleton.mp he₂
    -- the transaction has committed, so it holds no lock
    obtain ⟨t', ht', hc', -⟩ := ih.kept e₁ he₁ name t₁ c₁ hc₁ hw₁
    obtain ⟨habort, hpre, -⟩ := hc₂.after hs
    have hlock : (s.locks[key]?).map Prod.fst = some name := by
      by_contra hlock
      exact hlocked ⟨hc₂.command, name, t₂, hc₂.named, hc₂.txn, habort, hpre, key, hw₂, hlock⟩
    rw [(ih.inv.open_of_locked ht' hlock).1] at hc'
    cases hc'

/-- **First committer wins**, along every run of transaction commands in which every `commit` that
goes through holds the lock of every key it writes. Of two committed transactions that share a
written key, the one with the smaller commit timestamp committed at or before the other's start; and
no transaction installs its writes twice. -/
theorem first_committer_wins {es : List (Event Snapshot Line Value)}
    (hrun : Run (onLine step) fresh es s)
    (hes : ∀ e ∈ es, IsTxnLine e.input ∧ ¬ CommitsUnlocked e.before e.input) :
    (∀ e₁ ∈ es, ∀ e₂ ∈ es, ∀ n₁ n₂ t₁ t₂ c₁ c₂, Commits e₁ n₁ t₁ c₁ → Commits e₂ n₂ t₂ c₂ →
      (∃ key, Writes t₁ key ∧ Writes t₂ key) → c₁ < c₂ → c₁ ≤ t₂.startTs) ∧
    es.Pairwise fun e₁ e₂ => ∀ name, Installs e₁ name → ¬ Installs e₂ name := by
  have h := faithful hrun hes
  refine ⟨fun e₁ he₁ e₂ he₂ n₁ n₂ t₁ t₂ c₁ c₂ hc₁ hc₂ ⟨key, hw₁, hw₂⟩ hlt => ?_, h.once⟩
  obtain ⟨u₁, hu₁, hd₁, hx₁, -⟩ := h.kept e₁ he₁ n₁ t₁ c₁ hc₁ ⟨key, hw₁⟩
  obtain ⟨u₂, hu₂, hd₂, hx₂, hstart⟩ := h.kept e₂ he₂ n₂ t₂ c₂ hc₂ ⟨key, hw₂⟩
  rw [← hstart]
  refine h.inv.apart n₁ n₂ u₁ u₂ c₁ c₂ hu₁ hu₂ hd₁ hd₂ hlt ⟨key, ?_, ?_⟩
  · rwa [Writes, hx₁]
  · rwa [Writes, hx₂]

end

/-! A key written after the prewrite is committed past a concurrent commit, and a second `commit`
installs the writes again. -/

@[reducible] def plain : Host := hostOf []

def lateWrite : List Line :=
  [⟨"begin", ["t1"]⟩, ⟨"begin", ["t2"]⟩, ⟨"prewrite", ["t1"]⟩, ⟨"write", ["t1", "k", "1"]⟩,
    ⟨"write", ["t2", "k", "2"]⟩, ⟨"prewrite", ["t2"]⟩, ⟨"commit", ["t2"]⟩, ⟨"commit", ["t1"]⟩]

def commitTwice : List Line :=
  [⟨"begin", ["t1"]⟩, ⟨"write", ["t1", "k", "1"]⟩, ⟨"prewrite", ["t1"]⟩, ⟨"commit", ["t1"]⟩,
    ⟨"commit", ["t1"]⟩]

theorem not_first_committer_wins :
    (∃ es s, Run (onLine (@step plain)) fresh es s ∧ es.map Event.input = lateWrite ∧
      ∃ e₁ ∈ es, ∃ e₂ ∈ es, ∃ t₁ t₂, Commits e₁ "t2" t₁ 3 ∧ Commits e₂ "t1" t₂ 4 ∧
        (Writes t₁ "k" ∧ Writes t₂ "k") ∧ ¬ 3 ≤ t₂.startTs) ∧
    ∃ es s, Run (onLine (@step plain)) fresh es s ∧ es.map Event.input = commitTwice ∧
      ¬ es.Pairwise fun e₁ e₂ => ∀ name, Installs e₁ name → ¬ Installs e₂ name := by
  let _ : Host := plain
  constructor
  · obtain ⟨es, s, e₁, e₂, t₁, t₂, hrun, hinputs, he₁, he₂, hc₁, hc₂, hw₁, hw₂, hstart⟩ :
        ∃ es s e₁ e₂ t₁ t₂, Run (onLine step) fresh es s ∧ es.map Event.input = lateWrite ∧
          es[6]? = some e₁ ∧ es[7]? = some e₂ ∧ Commits e₁ "t2" t₁ 3 ∧ Commits e₂ "t1" t₂ 4 ∧
          t₁.writes["k"]? = some 2 ∧ t₂.writes["k"]? = some 1 ∧ t₂.startTs = 1 :=
      ⟨_, _, _, _, _, _, run_of_exec lateWrite rfl, rfl, rfl, rfl, ⟨rfl, rfl, rfl, rfl, rfl⟩,
        ⟨rfl, rfl, rfl, rfl, rfl⟩, rfl, rfl, rfl⟩
    exact ⟨es, s, hrun, hinputs, e₁, List.mem_of_getElem? he₁, e₂, List.mem_of_getElem? he₂, t₁, t₂,
      hc₁, hc₂, ⟨⟨2, hw₁⟩, ⟨1, hw₂⟩⟩, by omega⟩
  · obtain ⟨es, s, e₁, e₂, t₁, t₂, hrun, hinputs, hlast, hc₁, hc₂, hw₁, hw₂⟩ :
        ∃ es s e₁ e₂ t₁ t₂, Run (onLine step) fresh es s ∧ es.map Event.input = commitTwice ∧
          es.drop 3 = [e₁, e₂] ∧ Commits e₁ "t1" t₁ 2 ∧ Commits e₂ "t1" t₂ 3 ∧
          t₁.writes["k"]? = some 1 ∧ t₂.writes["k"]? = some 1 :=
      ⟨_, _, _, _, _, _, run_of_exec commitTwice rfl, rfl, rfl, ⟨rfl, rfl, rfl, rfl, rfl⟩,
        ⟨rfl, rfl, rfl, rfl, rfl⟩, rfl, rfl⟩
    refine ⟨es, s, hrun, hinputs, fun honce => ?_⟩
    have htwo := honce.sublist (List.drop_sublist 3 es)
    rw [hlast] at htwo
    exact (List.pairwise_cons.mp htwo).1 e₂ List.mem_cons_self "t1" ⟨t₁, 2, hc₁, "k", 1, hw₁⟩
      ⟨t₂, 3, hc₂, "k", 1, hw₂⟩

/-- One transaction after the other, on one key. -/
def oneByOne : List Line :=
  [⟨"begin", ["t1"]⟩, ⟨"write", ["t1", "k", "1"]⟩, ⟨"prewrite", ["t1"]⟩, ⟨"commit", ["t1"]⟩,
    ⟨"begin", ["t2"]⟩, ⟨"write", ["t2", "k", "2"]⟩, ⟨"prewrite", ["t2"]⟩, ⟨"commit", ["t2"]⟩]

/-- The line is a transaction's, and a `commit` only of locked keys. -/
def isLockedLine (s : Snapshot) (l : Line) : Bool :=
  ["begin", "read", "write", "prewrite", "commit", "abort"].contains l.command &&
    (l.command != "commit" || (match l.args[0]? with
      | some name => (match s.txns[name]? with
        | some t => t.writes.keys.all fun key => (s.locks[key]?).map Prod.fst == some name
        | none => true)
      | none => true))

theorem isLockedLine_sound {l : Line} (h : isLockedLine s l = true) : IsTxnLine l ∧ ¬ CommitsUnlocked s l := by
  unfold isLockedLine at h
  rw [Bool.and_eq_true] at h
  refine ⟨List.contains_iff_mem.mp h.1, ?_⟩
  rintro ⟨hcommand, name, t, hname, ht, -, -, key, hw, hlock⟩
  have hhead := word_eq_ok.mp hname
  have hall := h.2
  simp only [hcommand, bne_self_eq_false, Bool.false_or, hhead, ht, List.all_eq_true,
    beq_iff_eq] at hall
  exact hlock (hall key (StringMap.mem_keys.mpr hw))

theorem first_committer_wins_one_by_one : ∃ es s, Run (onLine (@step plain)) fresh es s ∧
    es.map Event.input = oneByOne ∧ ∃ e₁ ∈ es, ∃ e₂ ∈ es, ∃ t₁ t₂, Commits e₁ "t1" t₁ 2 ∧
      Commits e₂ "t2" t₂ 4 ∧ 2 ≤ t₂.startTs := by
  let _ : Host := plain
  obtain ⟨es, s, e₁, e₂, t₁, t₂, hrun, hinputs, hall, he₁, he₂, hc₁, hc₂, hw₁, hw₂⟩ :
      ∃ es s e₁ e₂ t₁ t₂, Run (onLine step) fresh es s ∧ es.map Event.input = oneByOne ∧
        es.all (fun e => isLockedLine e.before e.input) = true ∧
        es[3]? = some e₁ ∧ es[7]? = some e₂ ∧ Commits e₁ "t1" t₁ 2 ∧ Commits e₂ "t2" t₂ 4 ∧
        t₁.writes["k"]? = some 1 ∧ t₂.writes["k"]? = some 2 :=
    ⟨_, _, _, _, _, _, run_of_exec oneByOne rfl, rfl, rfl, rfl, rfl, ⟨rfl, rfl, rfl, rfl, rfl⟩,
      ⟨rfl, rfl, rfl, rfl, rfl⟩, rfl, rfl⟩
  have hes : ∀ e ∈ es, IsTxnLine e.input ∧ ¬ CommitsUnlocked e.before e.input :=
    fun e he => isLockedLine_sound (List.all_eq_true.mp hall e he)
  have hmem₁ := List.mem_of_getElem? he₁
  have hmem₂ := List.mem_of_getElem? he₂
  exact ⟨es, s, hrun, hinputs, e₁, hmem₁, e₂, hmem₂, t₁, t₂, hc₁, hc₂,
    (first_committer_wins hrun hes).1 e₁ hmem₁ e₂ hmem₂ _ _ _ _ _ _ hc₁ hc₂
      ⟨"k", ⟨1, hw₁⟩, ⟨2, hw₂⟩⟩ (by decide)⟩

end BuildYourOwn.Trust.Snapshot
