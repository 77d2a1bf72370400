import BuildYourOwn.Trust.FirstCommitter

/-!
# Repeatable reads, and the locks of a failed transaction

A read answers with the transaction's own write or with the versions committed by its start. The clock that
`begin` and `commit` share orders the versions of a key, and what is committed after a transaction began is
later than its snapshot, so nothing that others do changes what it reads (`Stays`).

A transaction is marked as aborted by `abort`, which gives back its locks, and by a `prewrite` that finds a
conflict, which does not. Such a `prewrite` holds no lock unless the transaction has been prewritten before and
has written another key since (`FailsHolding`).

**`reads_and_locks`**: in every run reads are repeatable and see the latest version of their snapshot; that no
aborted transaction holds a lock is true in exactly the runs without such a `prewrite`.
-/

namespace BuildYourOwn.Trust.Snapshot

open Lib Topic

variable {s s' : Snapshot} {name : String} {t : Txn} {key : String} {l : Line} {v : Value}

/-! ## What a line does -/

/-- The locks after a `prewrite` that finds no conflict. -/
def prewrittenAt (s : Snapshot) (name : String) (t : Txn) : Snapshot :=
  setTxn { s with locks := t.writes.keys.foldl (fun m key => m.insert key (name, t.startTs)) s.locks } name
    { t with prewritten := true }

/-- What `abort` leaves. -/
def abortedAt (s : Snapshot) (name : String) (t : Txn) : Snapshot :=
  setTxn { s with locks := (s.lockedBy name t).foldl (fun m key => m.erase key) s.locks } name
    { t with aborted := true }

/-- A transaction that begins. -/
def begun (ts : Int) : Txn where
  startTs := ts
  writes := ∅
  prewritten := false
  committed := none
  aborted := false

/-- The line is a `write` of the key by the transaction. -/
def WritesKey (name key : String) (l : Line) : Prop :=
  l.command = "write" ∧ word l.args 0 = .ok name ∧ word l.args 1 = .ok key

/-- The line is a `prewrite` that finds a conflict. -/
def Conflicts (s : Snapshot) (l : Line) (name : String) (t : Txn) : Prop :=
  l.command = "prewrite" ∧ word l.args 0 = .ok name ∧ s.txns[name]? = some t ∧ t.aborted = false ∧
    t.writes.keys.findSome? (s.conflict name t) ≠ none

inductive Changes (s : Snapshot) (l : Line) : Snapshot → Prop
  | init (hl : l.command = "init") : Changes s l fresh
  | same : Changes s l s
  | begun {name : String} (hnew : s.txns[name]? = none) :
      Changes s l (setTxn { s with clock := s.clock + 1 } name (begun (s.clock + 1)))
  | written {name key : String} {t : Txn} (value : Int) (hl : WritesKey name key l)
      (ht : s.txns[name]? = some t) : Changes s l (s.setTxn name { t with writes := t.writes.insert key value })
  | failed {name : String} {t : Txn} (hl : Conflicts s l name t) :
      Changes s l (s.setTxn name { t with aborted := true })
  | prewritten {name : String} {t : Txn} (ht : s.txns[name]? = some t) (hopen : t.aborted = false) :
      Changes s l (s.prewrittenAt name t)
  | committed {name : String} {t : Txn} (hl : l.command = "commit") (ht : s.txns[name]? = some t)
      (hopen : t.aborted = false) : Changes s l (s.committedAt name t (s.clock + 1))
  | aborted {name : String} {t : Txn} (ht : s.txns[name]? = some t) : Changes s l (s.abortedAt name t)

section

variable [Host]

theorem begin_changes (h : s.begin name = some (s', v)) : Changes s l s' := by
  unfold Snapshot.begin at h
  split at h
  · cases h
    exact .same
  rename_i hnew
  cases htick : s.tick with
  | none =>
    rw [htick] at h
    cases h
  | some r =>
    obtain ⟨ts, s₁⟩ := r
    obtain ⟨rfl, rfl⟩ := tick_eq_some htick
    rw [htick] at h
    cases h
    refine .begun ?_
    rw [Std.ExtTreeMap.contains_eq_isSome_getElem?] at hnew
    simpa using hnew

theorem step_changes (hs : onLine step s l = some (s', v)) : Changes s l s' := by
  obtain ⟨command, args⟩ := l
  unfold onLine step at hs
  dsimp only at hs
  split at hs
  case h_1 =>
    cases hs
    exact .init rfl
  case h_2 =>
    rcases arg_eq_some.mp hs with ⟨-, rfl⟩ | ⟨name, -, hs⟩
    · exact .same
    · exact begin_changes hs
  case h_3 =>
    rcases arg_eq_some.mp hs with ⟨-, rfl⟩ | ⟨name, -, hs⟩
    · exact .same
    rcases arg_eq_some.mp hs with ⟨-, rfl⟩ | ⟨key, -, hs⟩
    · exact .same
    rcases onTxn_cases hs with rfl | ⟨t, -, hs⟩
    · exact .same
    · cases hs
      exact .same
  case h_4 =>
    rcases arg_eq_some.mp hs with ⟨-, rfl⟩ | ⟨name, hname, hs⟩
    · exact .same
    rcases arg_eq_some.mp hs with ⟨-, rfl⟩ | ⟨key, hkey, hs⟩
    · exact .same
    rcases arg_eq_some.mp hs with ⟨-, rfl⟩ | ⟨value, -, hs⟩
    · exact .same
    rcases onTxn_cases hs with rfl | ⟨t, ht, hs⟩
    · exact .same
    unfold write at hs
    split at hs
    · cases hs
      exact .same
    · cases hs
      exact .written value ⟨rfl, hname, hkey⟩ ht
  case h_5 =>
    rcases arg_eq_some.mp hs with ⟨-, rfl⟩ | ⟨name, hname, hs⟩
    · exact .same
    rcases onTxn_cases hs with rfl | ⟨t, ht, hs⟩
    · exact .same
    unfold prewrite at hs
    split at hs
    · cases hs
      exact .same
    rename_i hopen
    split at hs
    · rename_i answer hconflict
      cases hs
      exact .failed ⟨rfl, hname, ht, by simpa using hopen, by simp [hconflict]⟩
    · cases hs
      exact .prewritten ht (by simpa using hopen)
  case h_6 =>
    rcases arg_eq_some.mp hs with ⟨-, rfl⟩ | ⟨name, -, hs⟩
    · exact .same
    rcases onTxn_cases hs with rfl | ⟨t, ht, hs⟩
    · exact .same
    rcases commit_cases hs with ⟨rfl, -⟩ | ⟨hopen, -, rfl, -⟩
    · exact .same
    · exact .committed rfl ht hopen
  case h_7 =>
    rcases arg_eq_some.mp hs with ⟨-, rfl⟩ | ⟨name, -, hs⟩
    · exact .same
    rcases onTxn_cases hs with rfl | ⟨t, ht, hs⟩
    · exact .same
    · cases hs
      exact .aborted ht
  case h_8 =>
    cases hs
    exact .same
  case h_9 =>
    cases hs
    exact .same

end

/-! ## The versions of a key -/

theorem versions_committedAt (ts : Int) : (s.committedAt name t ts).versions key =
    match t.writes[key]? with
    | some x => s.versions key ++ [⟨ts, x⟩]
    | none => s.versions key := by
  have hstep (m : StringMap (List Version)) (w : String × Int) (a : String) :
      (m.insert w.1 (m.getD w.1 [] ++ [⟨ts, w.2⟩]))[a]? =
        if w.1 = a then some ((m[a]?).getD [] ++ [⟨ts, w.2⟩]) else m[a]? := by
    rw [StringMap.get_insert]
    split
    · rename_i heq
      rw [heq, Std.ExtTreeMap.getD_eq_getD_getElem?]
    · rfl
  have hget := StringMap.get_foldl_toList (h := fun o x => o.getD [] ++ [⟨ts, x⟩]) hstep t.writes s.data key
  show (install ts s.data t.writes.toList).getD key [] = _
  unfold install versions
  rw [Std.ExtTreeMap.getD_eq_getD_getElem?, hget, Std.ExtTreeMap.getD_eq_getD_getElem?]
  cases t.writes[key]? with
  | none => rfl
  | some x => rfl

structure Sorted (s : Snapshot) : Prop where
  sorted : ∀ key, (s.versions key).Pairwise fun u w => u.commitTs < w.commitTs
  past : ∀ key, ∀ u ∈ s.versions key, u.commitTs ≤ s.clock
  started : ∀ (name : String) t, s.txns[name]? = some t → t.startTs ≤ s.clock

theorem Sorted.setTxn (h : Sorted s) (hstart : t.startTs ≤ s.clock) : Sorted (s.setTxn name t) where
  sorted := h.sorted
  past := h.past
  started n u hu := by
    rw [txns_setTxn] at hu
    split at hu
    · cases hu
      exact hstart
    · exact h.started n u hu

theorem Sorted.relock (h : Sorted s) (locks : StringMap (String × Int)) : Sorted { s with locks := locks } :=
  ⟨h.sorted, h.past, h.started⟩

theorem Sorted.later (h : Sorted s) : Sorted { s with clock := s.clock + 1 } where
  sorted := h.sorted
  past key u hu := Int.le_trans (h.past key u hu) (Int.le_of_lt (Int.lt_succ s.clock))
  started n u hu := Int.le_trans (h.started n u hu) (Int.le_of_lt (Int.lt_succ s.clock))

theorem Sorted.committedAt (h : Sorted s) (ht : s.txns[name]? = some t) :
    Sorted (s.committedAt name t (s.clock + 1)) where
  sorted key := by
    rw [versions_committedAt]
    split
    · refine List.pairwise_append.mpr ⟨h.sorted key, List.pairwise_singleton _ _, fun u hu w hw => ?_⟩
      obtain rfl := List.mem_singleton.mp hw
      have := h.past key u hu
      dsimp only
      omega
    · exact h.sorted key
  past key u hu := by
    show u.commitTs ≤ s.clock + 1
    rcases mem_versions_committedAt.mp hu with hu | ⟨x, -, rfl⟩
    · have := h.past key u hu
      omega
    · exact Int.le_refl _
  started n u hu := by
    show u.startTs ≤ s.clock + 1
    rw [txns_committedAt] at hu
    split at hu
    · cases hu
      have := h.started name t ht
      dsimp only
      omega
    · have := h.started n u hu
      omega

theorem sorted_fresh : Sorted fresh where
  sorted key := by simp [fresh, versions]
  past key u hu := absurd hu (by simp [fresh, versions])
  started n u hu := absurd hu (by simp [fresh])

theorem Sorted.step (h : Sorted s) (hc : Changes s l s') : Sorted s' := by
  cases hc with
  | init _ => exact sorted_fresh
  | same => exact h
  | begun _ => exact h.later.setTxn (Int.le_refl _)
  | @written name _ t _ _ ht => exact h.setTxn (show t.startTs ≤ s.clock from h.started name t ht)
  | @failed name t hl => exact h.setTxn (show t.startTs ≤ s.clock from h.started name t hl.2.2.1)
  | @prewritten name t ht _ => exact (h.relock _).setTxn (show t.startTs ≤ s.clock from h.started name t ht)
  | committed _ ht _ => exact h.committedAt ht
  | @aborted name t ht => exact (h.relock _).setTxn (show t.startTs ≤ s.clock from h.started name t ht)

/-- `v` is the latest of the versions by `ts`, and zero when there is none. -/
def Latest (versions : List Version) (ts v : Int) : Prop :=
  (∃ u ∈ versions, u.commitTs ≤ ts ∧ u.value = v ∧ ∀ w ∈ versions, w.commitTs ≤ ts → w.commitTs ≤ u.commitTs) ∨
    (∀ u ∈ versions, ¬ u.commitTs ≤ ts) ∧ v = 0

theorem Sorted.latest (h : Sorted s) (key : String) (ts : Int) : Latest (s.versions key) ts (s.readAt key ts) := by
  have hsorted := List.pairwise_reverse.mpr (h.sorted key)
  have hmem (u : Version) : u ∈ (s.versions key).reverse ↔ u ∈ s.versions key := List.mem_reverse
  unfold readAt
  cases hfind : (s.versions key).reverse.find? fun u => decide (u.commitTs ≤ ts) with
  | none =>
    refine .inr ⟨fun u hu => ?_, rfl⟩
    simpa using List.find?_eq_none.mp hfind u ((hmem u).mpr hu)
  | some u =>
    obtain ⟨hle, newer, older, heq, hnewer⟩ := List.find?_eq_some_iff_append.mp hfind
    refine .inl ⟨u, (hmem u).mp (List.mem_of_find?_eq_some hfind), of_decide_eq_true hle, rfl, fun w hw hwle => ?_⟩
    rw [heq] at hsorted
    rcases List.mem_append.mp (heq ▸ (hmem w).mpr hw) with hw | hw
    · exact absurd hwle (by simpa using hnewer w hw)
    rcases List.mem_cons.mp hw with rfl | hw
    · exact Int.le_refl _
    · exact Int.le_of_lt ((List.pairwise_cons.mp (List.pairwise_append.mp hsorted).2.1).1 w hw)

/-! ## What a transaction reads -/

def Stays (name key : String) (t : Txn) (s s' : Snapshot) : Prop :=
  ∃ t', s'.txns[name]? = some t' ∧ t'.startTs = t.startTs ∧ t'.writes[key]? = t.writes[key]? ∧
    s'.readAt key t.startTs = s.readAt key t.startTs

theorem Stays.setTxn {n : String} {u u' : Txn} (ht : s.txns[name]? = some t) (hu : s.txns[n]? = some u)
    (hstart : u'.startTs = u.startTs) (hwrites : n = name → u'.writes[key]? = u.writes[key]?) :
    Stays name key t s (s.setTxn n u') := by
  unfold Stays
  rw [txns_setTxn]
  by_cases hn : n = name
  · subst hn
    obtain rfl : t = u := Option.mem_unique ht hu
    exact ⟨u', if_pos rfl, hstart, hwrites rfl, rfl⟩
  · exact ⟨t, by rw [if_neg hn, ht], rfl, rfl, rfl⟩

theorem readAt_committedAt {ts : Int} (hts : ts ≤ s.clock) :
    (s.committedAt name t (s.clock + 1)).readAt key ts = s.readAt key ts := by
  unfold readAt
  rw [versions_committedAt]
  split
  · rw [List.reverse_append, List.reverse_singleton, List.singleton_append, List.find?_cons_of_neg]
    simp only [decide_eq_true_eq]
    omega
  · rfl

theorem stays_step (h : Sorted s) (ht : s.txns[name]? = some t) (hc : Changes s l s') (hinit : l.command ≠ "init")
    (hwrite : ¬ WritesKey name key l) : Stays name key t s s' := by
  cases hc with
  | init hl => exact absurd hl hinit
  | same => exact ⟨t, ht, rfl, rfl, rfl⟩
  | @begun n hnew =>
    have hne : n ≠ name := by
      rintro rfl
      cases hnew.symm.trans ht
    exact ⟨t, by rw [txns_setTxn, if_neg hne]; exact ht, rfl, rfl, rfl⟩
  | @written n k u value hl hu =>
    refine Stays.setTxn ht hu rfl fun hn => ?_
    subst hn
    have hk : k ≠ key := by
      rintro rfl
      exact hwrite hl
    rw [StringMap.get_insert, if_neg hk]
  | failed hl => exact Stays.setTxn ht hl.2.2.1 rfl fun _ => rfl
  | @prewritten n u hu _ => exact Stays.setTxn (s := { s with locks := _ }) ht hu rfl fun _ => rfl
  | @committed n u _ hu _ =>
    have hread : (s.committedAt n u (s.clock + 1)).readAt key t.startTs = s.readAt key t.startTs :=
      readAt_committedAt (h.started name t ht)
    by_cases hn : n = name
    · subst hn
      obtain rfl : t = u := Option.mem_unique ht hu
      exact ⟨_, (txns_committedAt n).trans (if_pos rfl), rfl, rfl, hread⟩
    · exact ⟨t, by rw [txns_committedAt, if_neg hn, ht], rfl, rfl, hread⟩
  | @aborted n u hu => exact Stays.setTxn (s := { s with locks := _ }) ht hu rfl fun _ => rfl

/-! ## The locks of a transaction -/

def Holds (s : Snapshot) (name key : String) : Prop := (s.locks[key]?).map Prod.fst = some name

/-- Every lock is of a key that its owner has written. -/
def Owned (s : Snapshot) : Prop := ∀ name key, s.Holds name key → ∃ t, s.txns[name]? = some t ∧ Writes t key

/-- A transaction that is marked as aborted holds no lock. -/
def Released (s : Snapshot) : Prop := ∀ (name : String) t key, s.txns[name]? = some t → t.aborted = true →
  ¬ s.Holds name key

/-- A `prewrite` that finds a conflict, of a transaction that holds a lock. -/
def FailsHolding (s : Snapshot) (l : Line) : Prop := ∃ name t key, Conflicts s l name t ∧ s.Holds name key

theorem Owned.setTxn (h : Owned s) (hwrites : ∀ u, s.txns[name]? = some u → ∀ key, Writes u key → Writes t key) :
    Owned (s.setTxn name t) := by
  intro n key hlock
  obtain ⟨u, hu, hw⟩ := h n key hlock
  rw [txns_setTxn]
  by_cases hn : name = n
  · subst hn
    exact ⟨t, if_pos rfl, hwrites u hu key hw⟩
  · exact ⟨u, by rw [if_neg hn, hu], hw⟩

theorem holds_unlocked {ks : List String} {n : String}
    (h : Holds { s with locks := ks.foldl (fun m key => m.erase key) s.locks } n key) :
    key ∉ ks ∧ s.Holds n key := by
  unfold Holds at h
  rw [StringMap.get_foldl_erase] at h
  split at h
  · cases h
  · exact ⟨‹_›, h⟩

theorem Owned.unlock (h : Owned s) (ks : List String) :
    Owned { s with locks := ks.foldl (fun m key => m.erase key) s.locks } :=
  fun n key hlock => h n key (holds_unlocked hlock).2

theorem holds_prewritten {n : String} (h : (s.prewrittenAt name t).Holds n key) :
    (n = name ∧ Writes t key) ∨ s.Holds n key := by
  have hlock : ((t.writes.keys.foldl (fun m key => m.insert key (name, t.startTs)) s.locks)[key]?).map Prod.fst =
    some n := h
  rw [StringMap.get_foldl_insert key (fun _ => (name, t.startTs))] at hlock
  split at hlock
  · rename_i hk
    exact .inl ⟨(Option.some.inj hlock).symm, StringMap.mem_keys.mp hk⟩
  · exact .inr hlock

theorem Owned.step (h : Owned s) (hc : Changes s l s') : Owned s' := by
  have hsame {n : String} {u u' : Txn} (hu : s.txns[n]? = some u) (hw : u'.writes = u.writes) :
      ∀ w, s.txns[n]? = some w → ∀ key, Writes w key → Writes u' key := by
    intro w hu' key hkey
    obtain rfl : u = w := Option.mem_unique hu hu'
    rwa [Writes, hw]
  cases hc with
  | init _ => exact fun n key hlock => absurd hlock (by simp [fresh, Holds])
  | same => exact h
  | begun hnew =>
    have hlater : Owned { s with clock := s.clock + 1 } := h
    exact hlater.setTxn fun u hu => absurd (hnew.symm.trans hu) (by simp)
  | @written n k u value _ hu =>
    refine h.setTxn fun w hw key hkey => ?_
    obtain rfl : u = w := Option.mem_unique hu hw
    unfold Writes
    simp only [StringMap.get_insert]
    split
    · exact ⟨value, rfl⟩
    · exact hkey
  | failed hl => exact h.setTxn (hsame hl.2.2.1 rfl)
  | @prewritten n u hu _ =>
    intro n' key hlock
    have htxn (a : String) : (s.prewrittenAt n u).txns[a]? = if n = a then some { u with prewritten := true } else
      s.txns[a]? := txns_setTxn a
    rw [htxn]
    rcases holds_prewritten hlock with ⟨rfl, hw⟩ | hlock
    · exact ⟨_, if_pos rfl, hw⟩
    obtain ⟨w, hw, hkey⟩ := h n' key hlock
    by_cases hn : n = n'
    · subst hn
      exact ⟨_, if_pos rfl, hsame hu rfl w hw key hkey⟩
    · exact ⟨w, by rw [if_neg hn, hw], hkey⟩
  | @committed n u _ hu _ =>
    have hlater : Owned { s with clock := s.clock + 1, data := install (s.clock + 1) s.data u.writes.toList } := h
    exact (hlater.unlock u.writes.keys).setTxn (hsame hu rfl)
  | @aborted n u hu => exact (h.unlock (s.lockedBy n u)).setTxn (hsame hu rfl)

theorem Released.setTxn (h : Released s) (hnew : t.aborted = true → ∀ key, ¬ s.Holds name key) :
    Released (s.setTxn name t) := by
  intro n u key hu habort
  rw [txns_setTxn] at hu
  split at hu
  · rename_i hn
    cases hu
    exact hn ▸ hnew habort key
  · exact h n u key hu habort

theorem Released.unlock (h : Released s) (ks : List String) :
    Released { s with locks := ks.foldl (fun m key => m.erase key) s.locks } :=
  fun n u key hu habort hlock => h n u key hu habort (holds_unlocked hlock).2

/-- What is marked as aborted has let go, as long as no `prewrite` fails while it holds a lock. -/
theorem Released.step (h : Released s) (howned : Owned s) (hc : Changes s l s') (hkept : ¬ FailsHolding s l) :
    Released s' := by
  cases hc with
  | init _ => exact fun n u key hu => absurd hu (by simp [fresh])
  | same => exact h
  | begun _ =>
    have hlater : Released { s with clock := s.clock + 1 } := h
    exact hlater.setTxn fun habort => Bool.noConfusion habort
  | @written n k u _ _ hu => exact h.setTxn fun habort key => h n u key hu habort
  | @failed n u hl => exact h.setTxn fun _ key hlock => hkept ⟨n, u, key, hl, hlock⟩
  | @prewritten n u hu hopen =>
    intro a w key hw habort hlock
    have hw' : (if n = a then some { u with prewritten := true } else s.txns[a]?) = some w :=
      (txns_setTxn a).symm.trans hw
    have hnot {w : Txn} (hw : some { u with prewritten := true } = some w) (habort : w.aborted = true) : False := by
      cases hw
      exact absurd (hopen.symm.trans habort) (by decide)
    rcases holds_prewritten hlock with ⟨rfl, -⟩ | hlock
    · rw [if_pos rfl] at hw'
      exact hnot hw' habort
    split at hw'
    · exact hnot hw' habort
    · exact h a w key hw' habort hlock
  | @committed n u _ _ hopen =>
    have hlater : Released { s with clock := s.clock + 1, data := install (s.clock + 1) s.data u.writes.toList } := h
    exact (hlater.unlock u.writes.keys).setTxn fun habort => absurd (hopen.symm.trans habort) (by decide)
  | @aborted n u hu =>
    refine (h.unlock (s.lockedBy n u)).setTxn fun _ key hlock => ?_
    -- it has written every key that it holds the lock of
    obtain ⟨hnot, hheld⟩ := holds_unlocked hlock
    obtain ⟨w, hw, hkey⟩ := howned n key hheld
    obtain rfl : u = w := Option.mem_unique hu hw
    exact hnot (List.mem_filter.mpr ⟨StringMap.mem_keys.mpr hkey, beq_iff_eq.mpr hheld⟩)

/-- A `prewrite` that fails keeps the locks. -/
theorem not_released (hs : FailsHolding s l) [Host] (hstep : onLine step s l = some (s', v)) : ¬ Released s' := by
  obtain ⟨n, u, key, ⟨hl, hname, hu, hopen, hconflict⟩, hlock⟩ := hs
  unfold onLine at hstep
  rw [hl] at hstep
  simp only [step, hname, arg_ok, onTxn, hu] at hstep
  unfold prewrite at hstep
  rw [if_neg (by rw [hopen]; decide)] at hstep
  split at hstep
  · cases hstep
    exact fun h => h n _ key ((txns_setTxn n).trans (if_pos rfl)) rfl hlock
  · rename_i hnone
    exact absurd hnone hconflict

/-! ## Runs -/

def committing (e : Event Snapshot Line Value) : Option (Txn × Int) :=
  if e.input.command = "commit" ∧ e.output.flagAt "committed" = some true then
    match word e.input.args 0, e.output.numAt "commit_ts" with
    | .ok name, some c => (e.before.txns[name]?).map fun t => (t, c)
    | _, _ => none
  else none

/-- What an event adds to what was committed for a key; `init` starts over. -/
def adds (key : String) (versions : List Version) (e : Event Snapshot Line Value) : List Version :=
  if e.input.command = "init" then []
  else
    match committing e with
    | some (t, c) =>
      match t.writes[key]? with
      | some x => versions ++ [⟨c, x⟩]
      | none => versions
    | none => versions

def committedFor (es : List (Event Snapshot Line Value)) (key : String) : List Version := es.foldl (adds key) []

/-- The event is a read of the key, answered with `v`. -/
structure Reads (e : Event Snapshot Line Value) (name key : String) (t : Txn) (v : Int) : Prop where
  command : e.input.command = "read"
  named : word e.input.args 0 = .ok name
  keyed : word e.input.args 1 = .ok key
  txn : e.before.txns[name]? = some t
  answered : e.output.numAt "value" = some v

variable {es es₁ es₂ : List (Event Snapshot Line Value)} {e : Event Snapshot Line Value} {x : Int}

/-- What a run promises its readers, and of the locks of the transactions that failed. -/
structure Sound (es : List (Event Snapshot Line Value)) : Prop where
  repeatable : ∀ es₁ e es₂ e' es₃ name key t t' x x', es = es₁ ++ e :: es₂ ++ e' :: es₃ → Reads e name key t x →
    Reads e' name key t' x' →
    (∀ e₀ ∈ es₂, e₀.input.command ≠ "init" ∧ ¬ WritesKey name key e₀.input) → x' = x
  latest : ∀ es₁ e es₂ name key t x, es = es₁ ++ e :: es₂ → Reads e name key t x →
    e.output.textAt "from" = some "snapshot" → Latest (committedFor es₁ key) t.startTs x
  released : ∀ e ∈ es, Released e.after

section

variable [Host]

omit [Host] in
theorem commit_flag (h : s.commit name t = some (s', v)) :
    v.flagAt "committed" = some (!t.aborted && t.prewritten) := by
  unfold commit at h
  split at h
  · rename_i habort
    cases h
    rw [habort]
    rfl
  rename_i habort
  rw [Bool.eq_false_iff.mpr habort]
  split at h
  · rename_i hpre
    cases h
    rw [hpre]
    rfl
  rename_i hpre
  rw [eq_true_of_ne_false hpre]
  split at h
  · cases h
  · cases h
    rfl

omit [Host] in
theorem committing_of_commits {c : Int} (h : Commits e name t c) : committing e = some (t, c) := by
  unfold committing
  rw [if_pos ⟨h.command, h.answered⟩, h.named, h.at_ts]
  dsimp only
  rw [h.txn, Option.map_some]

omit [Host] in
theorem committing_eq_none (h : e.output.flagAt "committed" ≠ some true) : committing e = none :=
  if_neg fun hc => h hc.2

theorem versions_step (hs : onLine step s l = some (s', v)) (key : String) :
    s'.versions key = adds key (s.versions key) ⟨s, l, v, s'⟩ := by
  unfold adds
  by_cases hcommit : l.command = "commit"
  · have hinit : ¬ l.command = "init" := by
      rw [hcommit]
      decide
    rw [if_neg hinit]
    have hstep := hs
    unfold onLine at hstep
    rw [hcommit] at hstep
    simp only [step] at hstep
    rcases arg_eq_some.mp hstep with ⟨hw, rfl⟩ | ⟨name, hname, hstep⟩
    · obtain ⟨message, rfl⟩ := word_error hw
      rw [committing_eq_none (flagAt_err _ _)]
    unfold onTxn at hstep
    split at hstep
    · cases hstep
      rw [committing_eq_none (flagAt_err _ _)]
    rename_i t ht
    have hflag := commit_flag hstep
    rcases commit_cases hstep with ⟨rfl, hno⟩ | ⟨hopen, hpre, rfl, hts⟩
    · rw [committing_eq_none (by rw [hno]; decide)]
    · rw [hopen, hpre] at hflag
      rw [committing_of_commits ⟨hcommit, hname, ht, hflag, hts⟩, versions_committedAt]
  by_cases hinit : l.command = "init"
  · rw [if_pos hinit]
    unfold onLine at hs
    rw [hinit] at hs
    cases hs
    simp [fresh, versions]
  · have hno : committing ⟨s, l, v, s'⟩ = none := if_neg fun h => hcommit h.1
    rw [if_neg hinit, hno]
    cases step_changes hs with
    | init hl => exact absurd hl hinit
    | committed hl => exact absurd hl hcommit
    | same => rfl
    | begun => rfl
    | written => rfl
    | failed => rfl
    | prewritten => rfl
    | aborted => rfl

theorem versions_eq (hrun : Run (onLine step) fresh es s) (key : String) : s.versions key = committedFor es key := by
  refine hrun.history_invariant (P := fun es s => s.versions key = committedFor es key) (G := fun _ => True)
    (by simp [fresh, versions, committedFor]) (fun es s l s' v h _ hs => ?_) fun _ _ => trivial
  rw [versions_step hs, h]
  unfold committedFor
  rw [List.foldl_append]
  rfl

theorem sorted (hrun : Run (onLine step) fresh es s) : Sorted s :=
  hrun.invariant (G := fun _ _ => True) sorted_fresh (fun _ _ _ _ h _ hs => h.step (step_changes hs))
    fun _ _ => trivial

theorem Reads.answer {t : Txn} (h : Reads e name key t x)
    (hs : onLine step e.before e.input = some (e.after, e.output)) :
    e.after = e.before ∧ x = (t.writes[key]?).getD (e.before.readAt key t.startTs) ∧
      (e.output.textAt "from" = some "snapshot" → x = e.before.readAt key t.startTs) := by
  unfold onLine at hs
  rw [h.command] at hs
  simp only [step, h.named, h.keyed, arg_ok, onTxn, h.txn] at hs
  obtain ⟨hafter, houtput⟩ := Prod.mk.inj (Option.some.inj hs)
  refine ⟨hafter.symm, ?_⟩
  have hanswered := h.answered
  rw [← houtput] at hanswered ⊢
  unfold read at hanswered ⊢
  cases hown : t.writes[key]? with
  | some y =>
    rw [hown] at hanswered
    obtain rfl : y = x := Option.some.inj hanswered
    exact ⟨rfl, fun hfrom => absurd (Option.some.inj hfrom) (by decide)⟩
  | none =>
    rw [hown] at hanswered
    obtain rfl : e.before.readAt key t.startTs = x := Option.some.inj hanswered
    exact ⟨rfl, fun _ => rfl⟩

theorem stays {m : Snapshot} (hrun : Run (onLine step) m es s) (hm : Sorted m) (ht : m.txns[name]? = some t)
    (hlines : ∀ e ∈ es, e.input.command ≠ "init" ∧ ¬ WritesKey name key e.input) : Stays name key t m s := by
  refine (hrun.invariant (P := fun s => Sorted s ∧ Stays name key t m s)
    (G := fun _ l => l.command ≠ "init" ∧ ¬ WritesKey name key l) ⟨hm, t, ht, rfl, rfl, rfl⟩
    (fun s l s' v h hl hs => ?_) hlines).2
  obtain ⟨hsorted, t₁, ht₁, hstart₁, hwrites₁, hread₁⟩ := h
  have hchanges := step_changes hs
  obtain ⟨t₂, ht₂, hstart₂, hwrites₂, hread₂⟩ := stays_step hsorted ht₁ hchanges hl.1 hl.2
  rw [hstart₁] at hread₂
  exact ⟨hsorted.step hchanges, t₂, ht₂, hstart₂.trans hstart₁, hwrites₂.trans hwrites₁, hread₂.trans hread₁⟩

/-- **Two reads with no write in between answer the same.** -/
theorem repeatable {e' : Event Snapshot Line Value} {es₃ : List (Event Snapshot Line Value)} {t' : Txn} {x' : Int}
    (hrun : Run (onLine step) fresh (es₁ ++ e :: es₂ ++ e' :: es₃) s) (h : Reads e name key t x)
    (h' : Reads e' name key t' x')
    (hlines : ∀ e₀ ∈ es₂, e₀.input.command ≠ "init" ∧ ¬ WritesKey name key e₀.input) : x' = x := by
  have hto : Run (onLine step) fresh (es₁ ++ e :: es₂) e'.before := hrun.split rfl
  have hfirst : Run (onLine step) fresh es₁ e.before := hto.split rfl
  obtain ⟨hafter, hx, -⟩ := h.answer (hto.step_of_mem (List.mem_append_right _ List.mem_cons_self))
  obtain ⟨-, hx', -⟩ := h'.answer (hrun.step_of_mem (List.mem_append_right _ List.mem_cons_self))
  rw [List.append_cons] at hto
  obtain ⟨m, hm, hbetween⟩ := hto.append_inv
  obtain rfl : m = e.before := hm.eq_after.trans hafter
  obtain ⟨t₁, ht₁, hstart, hwrites, hread⟩ := stays hbetween (sorted hfirst) h.txn hlines
  obtain rfl : t' = t₁ := Option.mem_unique h'.txn ht₁
  rw [hx', hx, hstart, hwrites, hread]

theorem latest (hrun : Run (onLine step) fresh (es₁ ++ e :: es₂) s) (h : Reads e name key t x)
    (hfrom : e.output.textAt "from" = some "snapshot") : Latest (committedFor es₁ key) t.startTs x := by
  obtain ⟨-, -, hx⟩ := h.answer (hrun.step_of_mem (List.mem_append_right _ List.mem_cons_self))
  rw [hx hfrom, ← versions_eq (hrun.split rfl) key]
  exact (sorted (hrun.split rfl)).latest key t.startTs

theorem released (hrun : Run (onLine step) fresh es s) (hkept : ∀ e ∈ es, ¬ FailsHolding e.before e.input) :
    Released s := by
  refine (hrun.invariant (P := fun s => Owned s ∧ Released s) (G := fun s l => ¬ FailsHolding s l) ⟨?_, ?_⟩
    (fun s l s' v h hl hs => ?_) hkept).2
  · exact fun name key hlock => absurd hlock (by simp [fresh, Holds])
  · exact fun name t key ht => absurd ht (by simp [fresh])
  · have hchanges := step_changes hs
    exact ⟨h.1.step hchanges, h.2.step h.1 hchanges hl⟩

/-- **Reads and locks**: reads are repeatable and see the latest version of their snapshot, and no aborted
transaction holds a lock, in exactly the runs in which no `prewrite` fails of a transaction that holds one. -/
theorem reads_and_locks (hrun : Run (onLine step) fresh es s) :
    Sound es ↔ ∀ e ∈ es, ¬ FailsHolding e.before e.input := by
  constructor
  · intro h e he hfails
    exact not_released hfails (hrun.step_of_mem he) (h.released e he)
  · intro hkept
    refine ⟨?_, ?_, fun e he => ?_⟩
    · rintro es₁ e es₂ e' es₃ name key t t' x x' rfl h h' hlines
      exact repeatable hrun h h' hlines
    · rintro es₁ e es₂ name key t x rfl h hfrom
      exact latest hrun h hfrom
    · obtain ⟨es₁, es₂, rfl⟩ := List.append_of_mem he
      refine released (hrun.split_after rfl) fun e' he' => hkept e' ?_
      rcases List.mem_append.mp he' with he' | he'
      · exact List.mem_append_left _ he'
      · exact List.mem_append_right _ (List.mem_singleton.mp he' ▸ List.mem_cons_self)

end

/-! A `prewrite` that fails without a lock, and one that fails after an earlier one took a lock. -/

def overtaken : List Line :=
  [⟨"begin", ["t1"]⟩, ⟨"begin", ["t2"]⟩, ⟨"write", ["t2", "k", "7"]⟩, ⟨"read", ["t1", "k"]⟩, ⟨"prewrite", ["t2"]⟩,
    ⟨"commit", ["t2"]⟩, ⟨"read", ["t1", "k"]⟩, ⟨"begin", ["t3"]⟩, ⟨"read", ["t3", "k"]⟩, ⟨"write", ["t1", "k", "1"]⟩,
    ⟨"prewrite", ["t1"]⟩]

def lockedOut : List Line :=
  [⟨"begin", ["t1"]⟩, ⟨"write", ["t1", "a", "1"]⟩, ⟨"prewrite", ["t1"]⟩, ⟨"begin", ["t2"]⟩,
    ⟨"write", ["t2", "b", "2"]⟩, ⟨"prewrite", ["t2"]⟩, ⟨"write", ["t1", "b", "3"]⟩, ⟨"prewrite", ["t1"]⟩]

/-- The line is no `prewrite`, or nothing is locked. -/
def unlocked (e : Event Snapshot Line Value) : Bool :=
  e.input.command != "prewrite" || e.before.locks.keys.isEmpty

theorem not_failsHolding (h : unlocked e = true) : ¬ FailsHolding e.before e.input := by
  rintro ⟨name, t, key, ⟨hl, -⟩, hlock⟩
  rcases Bool.or_eq_true_iff.mp h with hne | hempty
  · exact bne_iff_ne.mp hne hl
  · obtain ⟨stored, hstored, -⟩ := Option.map_eq_some_iff.mp hlock
    have hmem : key ∈ e.before.locks.keys := StringMap.mem_keys.mpr ⟨stored, hstored⟩
    rw [List.isEmpty_iff.mp hempty] at hmem
    cases hmem

theorem reads_and_locks_overtaken : ∃ es s, Run (onLine (@step plain)) fresh es s ∧
    es.map Event.input = overtaken ∧ es.getLast?.bind (fun e => e.output.textAt "reason") = some "write conflict" ∧
    es.filterMap (fun e => e.output.numAt "value") = [0, 0, 7] ∧ Sound es := by
  let _ : Host := plain
  obtain ⟨es, s, hrun, hinputs, hreason, hvalues, hunlocked⟩ : ∃ es s, Run (onLine step) fresh es s ∧
      es.map Event.input = overtaken ∧ es.getLast?.bind (fun e => e.output.textAt "reason") = some "write conflict" ∧
      es.filterMap (fun e => e.output.numAt "value") = [0, 0, 7] ∧ es.all unlocked = true :=
    ⟨_, _, run_of_exec overtaken rfl, rfl, rfl, rfl, rfl⟩
  refine ⟨es, s, hrun, hinputs, hreason, hvalues, (reads_and_locks hrun).mpr fun e he => ?_⟩
  exact not_failsHolding (List.all_eq_true.mp hunlocked e he)

theorem aborted_keeps_lock : ∃ es s t, Run (onLine (@step plain)) fresh es s ∧ es.map Event.input = lockedOut ∧
    s.txns["t1"]? = some t ∧ t.aborted = true ∧ s.Holds "t1" "a" ∧ ¬ Sound es := by
  let _ : Host := plain
  obtain ⟨es, s, t, hrun, hinputs, ht, habort, hlock, e, he, hafter⟩ : ∃ es s t, Run (onLine step) fresh es s ∧
      es.map Event.input = lockedOut ∧ s.txns["t1"]? = some t ∧ t.aborted = true ∧ s.Holds "t1" "a" ∧
      ∃ e, es.getLast? = some e ∧ e.after = s :=
    ⟨_, _, _, run_of_exec lockedOut rfl, rfl, rfl, rfl, rfl, _, rfl, rfl⟩
  refine ⟨es, s, t, hrun, hinputs, ht, habort, hlock, fun h => ?_⟩
  have hreleased := h.released e (List.mem_of_getLast? he)
  rw [hafter] at hreleased
  exact hreleased "t1" t "a" ht habort hlock

end BuildYourOwn.Trust.Snapshot
