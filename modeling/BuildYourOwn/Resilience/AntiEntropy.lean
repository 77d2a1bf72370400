import BuildYourOwn.Lib.Folds
import BuildYourOwn.Lib.Newest
import BuildYourOwn.Topic.Command
import BuildYourOwn.Topic.Map

/-!
# `anti-entropy`: read repair, hinted handoff, and the sync that is the real guarantee

Model of `Versioned`, `Hint` and `AntiEntropy` in `disttest/examples/alg/resilience.rs`. A handful of replicas,
some of them down, each with a map from keys to versioned values.

* A copy counts for its version, and for zero where there is none (`versionOf`). What `sync` takes for the
  better of two copies and what `merge` writes are `newest` and `absorb` of copies compared by that.
* A sorted vector without repetitions is the elements of a set, in order.
-/

namespace BuildYourOwn.Resilience

open Lib Topic

/-- `Versioned`: one value on one replica. -/
structure Versioned where
  value : String
  version : Int

/-- `Hint`: a hint held on a stand-in for a replica that was not reachable. -/
structure Hint where
  owner : String
  standin : String
  key : String
  value : Versioned

structure AntiEntropy where
  replicas : List String
  down : StringSet
  store : StringMap (StringMap Versioned)
  hints : List Hint

/-- `map(|x| x.version).unwrap_or(0)`. -/
def versionOf : Option Versioned → Int
  | some v => v.version
  | none => 0

/-- `sort` and `dedup` on a vector of words. -/
def sortDedup (words : List String) : List String := (StringSet.extend ∅ words).toList

namespace AntiEntropy

/-- What `init` leaves. With no replicas it is `AntiEntropy::default`, the state a topic starts in. -/
def started (replicas : List String) : AntiEntropy where
  replicas := replicas
  down := ∅
  store := ∅
  hints := []

def live (s : AntiEntropy) : List String := s.replicas.filter fun r => !s.down.contains r

/-- The replicas that are down. -/
def absent (s : AntiEntropy) : List String := s.replicas.filter fun r => s.down.contains r

def get (s : AntiEntropy) (replica key : String) : Option Versioned :=
  (s.store[replica]?).bind fun m => m[key]?

/-- `self.store.entry(replica).or_default().insert(key, v)`. -/
def insert (s : AntiEntropy) (replica key : String) (v : Versioned) : AntiEntropy :=
  { s with store := s.store.insert replica ((s.store.getD replica ∅).insert key v) }

/-- `merge`: write, unless the replica already holds this key at the same version or later. -/
def merge (s : AntiEntropy) (replica key : String) (v : Versioned) : AntiEntropy × Bool :=
  if v.version ≤ versionOf (s.get replica key) then (s, false) else (s.insert replica key v, true)

def words (l : List String) : Value := .arr (l.map .str)

/-! ## The commands -/

/-- `put`: the fixture that creates staleness writes whatever it is told. -/
def put (s : AntiEntropy) (replica key value : String) (version : Int) : AntiEntropy × Value :=
  (s.insert replica key ⟨value, version⟩, .obj [("ok", .bool true), ("version", .num version)])

/-- `down` and `up`. -/
def setDown (s : AntiEntropy) (down : StringSet) : AntiEntropy × Value :=
  ({ s with down := down },
    .obj [("up", words (live { s with down := down })), ("down", words (absent { s with down := down }))])

/-- The hints of a `write`, on the first live replica. -/
def hintsFor (s : AntiEntropy) (key : String) (v : Versioned) : List Hint :=
  match s.live.head? with
  | none => []
  | some standin => s.absent.map fun owner => ⟨owner, standin, key, v⟩

def write (s : AntiEntropy) (key value : String) (version : Int) : AntiEntropy × Value :=
  let v : Versioned := ⟨value, version⟩
  let hinted := s.hintsFor key v
  let s' := s.live.foldl (fun t r => (t.merge r key v).1) s
  ({ s' with hints := s'.hints ++ hinted },
    .obj [("stored", words s.live),
      ("hinted", .arr (hinted.map fun h => .obj [("for", .str h.owner), ("on", .str h.standin)]))])

/-- One comparison of `max_by_key`. -/
def laterMax (best : Option Versioned) (v : Versioned) : Option Versioned :=
  match best with
  | none => some v
  | some b => if v.version < b.version then some b else some v

/-- `max_by_key(|v| v.version)`: the last of the greatest. -/
def maxByVersion (vs : List Versioned) : Option Versioned := vs.foldl laterMax none

def repair (key : String) (best : Versioned) (p : AntiEntropy × List String) (r : String) :
    AntiEntropy × List String :=
  let merged := p.1.merge r key best
  (merged.1, if merged.2 then p.2 ++ [r] else p.2)

/-- `read`: it repairs the live replicas that are behind. -/
def read (s : AntiEntropy) (key : String) : AntiEntropy × Value :=
  match maxByVersion (s.live.filterMap fun r => s.get r key) with
  | none =>
    (s, .obj [("value", .null), ("version", .num 0), ("stale", words []), ("repaired", words [])])
  | some best =>
    let stale := s.live.filter fun r => decide (versionOf (s.get r key) < best.version)
    let (s', repaired) := stale.foldl (repair key best) (s, [])
    (s', .obj [("value", .str best.value), ("version", .num best.version), ("stale", words stale),
      ("repaired", words repaired)])

/-- `hints`. -/
def hintsOf (s : AntiEntropy) (replica : String) : Value :=
  .obj [("keys", words (sortDedup ((s.hints.filter fun h => h.owner == replica).map Hint.key)))]

def deliverable (s : AntiEntropy) (h : Hint) : Bool := !s.down.contains h.owner && !s.down.contains h.standin

def handoff (s : AntiEntropy) : AntiEntropy × Value :=
  let ready := s.hints.filter s.deliverable
  let s' := ready.foldl (fun t h => (t.merge h.owner h.key h.value).1) s
  let remaining := s.hints.filter fun h => !s.deliverable h
  ({ s' with hints := remaining },
    .obj [("delivered", .num ready.length), ("remaining", .num remaining.length)])

def keysOf (s : AntiEntropy) (a b : String) : List String :=
  sortDedup (([s.store[a]?, s.store[b]?].filterMap id).flatMap fun m => m.keys)

def syncKey (a b : String) (p : AntiEntropy × List String × Nat) (key : String) :
    AntiEntropy × List String × Nat :=
  match newest versionOf (p.1.get a key) (p.1.get b key) with
  | none => p
  | some best =>
    let first := p.1.merge a key best
    let second := first.1.merge b key best
    (second.1, if first.2 || second.2 then p.2.1 ++ [key] else p.2.1,
      p.2.2 + first.2.toNat + second.2.toNat)

def sync (s : AntiEntropy) (a b : String) : AntiEntropy × Value :=
  let (s', moved, transferred) := (s.keysOf a b).foldl (syncKey a b) (s, [], 0)
  (s', .obj [("transferred", .num transferred), ("keys", words moved)])

def state (s : AntiEntropy) (replica : String) : Value :=
  .obj [("keys", .obj ((s.store.getD replica ∅).toList.map fun p =>
    (p.1, .obj [("value", .str p.2.value), ("version", .num p.2.version)])))]

def step [Host] (s : AntiEntropy) (command : String) (args : List String) : Handled AntiEntropy :=
  match command with
  | "init" => arg s (wordList args 0) fun replicas =>
    some (started replicas, .obj [("replicas", words replicas)])
  | "put" => arg s (word args 0) fun replica => arg s (word args 1) fun key =>
    arg s (word args 2) fun value => arg s (int args 3) fun version => some (s.put replica key value version)
  | "down" => arg s (word args 0) fun replica => some (s.setDown (s.down.insert replica))
  | "up" => arg s (word args 0) fun replica => some (s.setDown (s.down.erase replica))
  | "write" => arg s (word args 0) fun key => arg s (word args 1) fun value =>
    arg s (int args 2) fun version => some (s.write key value version)
  | "read" => arg s (word args 0) fun key => some (s.read key)
  | "hints" => arg s (word args 0) fun replica => some (s, s.hintsOf replica)
  | "handoff" => some s.handoff
  | "sync" => arg s (word args 0) fun a => arg s (word args 1) fun b => some (s.sync a b)
  | "state" => arg s (word args 0) fun replica => some (s, s.state replica)
  | other => some (s, err ("unknown command " ++ debugStr other))

end AntiEntropy

end BuildYourOwn.Resilience

/-!
## What a sync leaves

A `sync` settles the two copies of each key with each other (`get_sync`), each key by itself. Whatever put a copy
on a replica, it counts for more than no copy at all, so settled copies have one version, the greater of the two,
and there is nothing left to move. Versions are chosen by who writes: of two values written under one version
neither is newer, and both stay.

* `get_merge`, `get_syncKey`, `get_sync`: what the store holds after a merge, one key, and a sync.
* `Inv`: every copy and every hint was written, and no copy has a version of zero or less.
* **`sync_settles`**: for every state that is reached.
-/

namespace BuildYourOwn.Resilience.AntiEntropy

open Lib Topic

variable {s s' : AntiEntropy} {replica r a b key k : String} {v best : Versioned} {l : Line} {o : Value}
  {p : AntiEntropy × List String × Nat}

/-! ## What the store holds -/

theorem get_insert (r k : String) : (s.insert replica key v).get r k =
    if replica = r ∧ key = k then some v else s.get r k := by
  unfold get insert
  rw [StringMap.get_insert]
  by_cases hr : replica = r
  · subst hr
    rw [if_pos rfl, Option.bind_some, StringMap.get_insert]
    by_cases hk : key = k
    · rw [if_pos hk, if_pos ⟨rfl, hk⟩]
    · rw [if_neg hk, if_neg fun h => hk h.2, Std.ExtTreeMap.getD_eq_getD_getElem?]
      cases s.store[replica]? with
      | none => exact Std.ExtTreeMap.getElem?_empty
      | some m => rfl
  · rw [if_neg hr, if_neg fun h => hr h.1]

theorem merge_of_le (h : v.version ≤ versionOf (s.get replica key)) : s.merge replica key v = (s, false) :=
  if_pos h

theorem merge_of_not_le (h : ¬ v.version ≤ versionOf (s.get replica key)) :
    s.merge replica key v = (s.insert replica key v, true) := if_neg h

/-- **A merge** is a copy that is offered a value. -/
theorem get_merge (r k : String) : (s.merge replica key v).1.get r k =
    if replica = r ∧ key = k then absorb versionOf (s.get r k) v else s.get r k := by
  by_cases h : versionOf (some v) ≤ versionOf (s.get replica key)
  · rw [merge_of_le h]
    by_cases hrk : replica = r ∧ key = k
    · rw [if_pos hrk]
      obtain ⟨rfl, rfl⟩ := hrk
      exact (absorb_of_le h).symm
    · rw [if_neg hrk]
  · rw [merge_of_not_le h, get_insert]
    by_cases hrk : replica = r ∧ key = k
    · rw [if_pos hrk, if_pos hrk]
      obtain ⟨rfl, rfl⟩ := hrk
      exact (absorb_of_lt (Int.not_le.mp h)).symm
    · rw [if_neg hrk, if_neg hrk]

/-- The copy of a key on `r`, settled with what `a` and `b` have. -/
def settled (s : AntiEntropy) (a b r k : String) : Option Versioned :=
  settle versionOf (s.get r k) (newest versionOf (s.get a k) (s.get b k))

theorem get_syncKey (r k : String) : (syncKey a b p key).1.get r k =
    if key = k ∧ (r = a ∨ r = b) then p.1.settled a b r k else p.1.get r k := by
  unfold syncKey settled
  by_cases hkey : key = k
  · subst hkey
    cases newest versionOf (p.1.get a key) (p.1.get b key) with
    | none => exact (ite_self _).symm
    | some best =>
      rw [get_merge, get_merge]
      unfold settle
      simp only [eq_self, and_true, true_and]
      by_cases hb : b = r
      · rw [if_pos hb, if_pos (Or.inr hb.symm)]
        by_cases ha : a = r
        · rw [if_pos ha, absorb_absorb]
        · rw [if_neg ha]
      · rw [if_neg hb]
        exact if_congr ⟨fun h => .inl h.symm, fun h => (h.resolve_right (Ne.symm hb)).symm⟩ rfl rfl
  · rw [if_neg fun h => hkey h.1]
    split
    · rfl
    · rw [get_merge, if_neg fun h => hkey h.2, get_merge, if_neg fun h => hkey h.2]

theorem get_foldl_syncKey (keys : List String) (hkeys : keys.Nodup) (r k : String) :
    (keys.foldl (syncKey a b) p).1.get r k =
      if k ∈ keys ∧ (r = a ∨ r = b) then p.1.settled a b r k else p.1.get r k := by
  induction keys generalizing p with
  | nil => exact (if_neg fun h => absurd h.1 List.not_mem_nil).symm
  | cons key keys ih =>
    obtain ⟨hnot, hrest⟩ := List.nodup_cons.mp hkeys
    rw [List.foldl_cons, ih hrest]
    have hsettled : k ∈ keys → (syncKey a b p key).1.settled a b r k = p.1.settled a b r k := by
      intro hk
      have hne : ¬ key = k := fun heq => hnot (heq ▸ hk)
      unfold settled
      simp only [get_syncKey, hne, false_and, if_false]
    by_cases hk : k ∈ keys
    · have hne : ¬ key = k := fun heq => hnot (heq ▸ hk)
      have hsame : (syncKey a b p key).1.get r k = p.1.get r k := by
        rw [get_syncKey, if_neg fun h => hne h.1]
      rw [hsettled hk, hsame]
      exact if_congr (by simp [hk]) rfl rfl
    · rw [if_neg fun h => hk h.1, get_syncKey]
      exact if_congr (by simp [hk, eq_comm]) rfl rfl

theorem mem_sortDedup {words : List String} {w : String} : w ∈ sortDedup words ↔ w ∈ words := by
  unfold sortDedup
  rw [StringSet.mem_toList, StringSet.mem_extend]
  exact or_iff_right Std.ExtTreeSet.not_mem_empty

theorem nodup_sortDedup (words : List String) : (sortDedup words).Nodup :=
  Std.ExtTreeSet.distinct_toList.imp fun hne heq => hne (Std.compare_eq_iff_eq.mpr heq)

theorem mem_keysOf : k ∈ s.keysOf a b ↔ s.get a k ≠ none ∨ s.get b k ≠ none := by
  have hget (r : String) : (∃ m, s.store[r]? = some m ∧ k ∈ m.keys) ↔ s.get r k ≠ none := by
    unfold get
    rw [Option.ne_none_iff_exists']
    simp only [StringMap.mem_keys, Option.bind_eq_some_iff]
    exact ⟨fun ⟨m, hm, v, hv⟩ => ⟨v, m, hm, hv⟩, fun ⟨v, m, hm, hv⟩ => ⟨m, hm, v, hv⟩⟩
  unfold keysOf
  rw [mem_sortDedup, List.mem_flatMap, ← hget, ← hget]
  simp only [List.mem_filterMap, List.mem_cons, List.not_mem_nil, or_false, id_eq, exists_eq_right]
  constructor
  · rintro ⟨m, hm | hm, hk⟩
    · exact .inl ⟨m, hm.symm, hk⟩
    · exact .inr ⟨m, hm.symm, hk⟩
  · rintro (⟨m, hm, hk⟩ | ⟨m, hm, hk⟩)
    · exact ⟨m, .inl hm.symm, hk⟩
    · exact ⟨m, .inr hm.symm, hk⟩

/-- **A sync** settles every key of the two replicas and leaves the others alone. -/
theorem get_sync (s : AntiEntropy) (a b r k : String) : (s.sync a b).1.get r k =
    if r = a ∨ r = b then s.settled a b r k else s.get r k := by
  have hkeys : (s.keysOf a b).Nodup := nodup_sortDedup _
  show ((s.keysOf a b).foldl (syncKey a b) (s, [], 0)).1.get r k = _
  rw [get_foldl_syncKey _ hkeys]
  by_cases hk : k ∈ s.keysOf a b
  · exact if_congr (and_iff_right hk) rfl rfl
  · rw [if_neg fun h => hk h.1]
    obtain ⟨ha, hb⟩ := not_or.mp (mt mem_keysOf.mpr hk)
    unfold settled
    rw [not_not.mp ha, not_not.mp hb]
    exact (ite_self _).symm

theorem sync_of_agree (h : ∀ k, versionOf (s.get a k) = versionOf (s.get b k)) :
    s.sync a b = (s, .obj [("transferred", .num 0), ("keys", words [])]) := by
  have hkey (key : String) : syncKey a b (s, [], 0) key = (s, [], 0) := by
    have hbest : ∀ best, newest versionOf (s.get a key) (s.get b key) = some best →
        best.version ≤ versionOf (s.get a key) ∧ best.version ≤ versionOf (s.get b key) := by
      intro best hbest
      rcases newest_cases versionOf (s.get a key) (s.get b key) with heq | heq
      · have hle : versionOf (some best) = versionOf (s.get a key) := by rw [← hbest, heq]
        exact ⟨Int.le_of_eq hle, Int.le_of_eq (hle.trans (h key))⟩
      · have hle : versionOf (some best) = versionOf (s.get b key) := by rw [← hbest, heq]
        exact ⟨Int.le_of_eq (hle.trans (h key).symm), Int.le_of_eq hle⟩
    unfold syncKey
    cases hnewest : newest versionOf (s.get a key) (s.get b key) with
    | none => rfl
    | some best =>
      obtain ⟨ha, hb⟩ := hbest best hnewest
      dsimp only
      rw [merge_of_le ha, merge_of_le hb]
      rfl
  have hkeys : ∀ keys : List String, keys.foldl (syncKey a b) (s, [], 0) = (s, [], 0) := by
    intro keys
    induction keys with
    | nil => rfl
    | cons key keys ih => rw [List.foldl_cons, hkey, ih]
  unfold sync
  rw [hkeys]
  rfl

/-! ## What has been written -/

def Writes (l : Line) (key : String) (v : Versioned) : Prop :=
  (l.command = "write" ∧ word l.args 0 = .ok key ∧ word l.args 1 = .ok v.value ∧ int l.args 2 = .ok v.version) ∨
    (l.command = "put" ∧ word l.args 1 = .ok key ∧ word l.args 2 = .ok v.value ∧ int l.args 3 = .ok v.version)

/-- A `put`, which writes whatever it is told, writes a version that counts for more than no copy. -/
def PutsAhead (l : Line) : Prop := l.command = "put" → ∀ version, int l.args 3 = .ok version → 0 < version

def Written (es : List (Event AntiEntropy Line Value)) (key : String) (v : Versioned) : Prop :=
  ∃ e ∈ es, Writes e.input key v

structure Inv (written : String → Versioned → Prop) (s : AntiEntropy) : Prop where
  counts : ∀ r k, Ranked versionOf (s.get r k)
  copies : ∀ r k v, s.get r k = some v → written k v
  hints : ∀ h ∈ s.hints, written h.key h.value

variable {written written' : String → Versioned → Prop} {es : List (Event AntiEntropy Line Value)}

theorem inv_started (replicas : List String) : Inv written (started replicas) := by
  have hnone (r k : String) : (started replicas).get r k = none := by
    unfold get started
    rw [Std.ExtTreeMap.getElem?_empty]
    rfl
  refine ⟨fun r k v hv => ?_, fun r k v hv => ?_, List.forall_mem_nil _⟩
  · cases (hnone r k).symm.trans hv
  · cases (hnone r k).symm.trans hv

theorem Inv.mono (h : Inv written s) (himp : ∀ k v, written k v → written' k v) : Inv written' s :=
  ⟨h.counts, fun r k v hv => himp k v (h.copies r k v hv), fun x hx => himp _ _ (h.hints x hx)⟩

theorem Inv.insert (h : Inv written s) (hv : written key v) (hpos : 0 < v.version) :
    Inv written (s.insert replica key v) := by
  refine ⟨fun r k w hw => ?_, fun r k w hw => ?_, h.hints⟩
  · rw [get_insert] at hw
    split at hw
    · cases hw
      exact hpos
    · exact h.counts r k w hw
  · rw [get_insert] at hw
    split at hw
    · rename_i hrk
      cases hw
      exact hrk.2 ▸ hv
    · exact h.copies r k w hw

theorem Inv.merge (h : Inv written s) (hv : written key v) : Inv written (s.merge replica key v).1 := by
  by_cases hle : v.version ≤ versionOf (s.get replica key)
  · rw [merge_of_le hle]
    exact h
  · rw [merge_of_not_le hle]
    -- no copy counts for less than zero
    have hzero : 0 ≤ versionOf (s.get replica key) := (h.counts replica key).rank_le
    exact h.insert hv (by omega)

theorem Inv.syncKey (h : Inv written p.1) : Inv written (syncKey a b p key).1 := by
  unfold AntiEntropy.syncKey
  cases hbest : newest versionOf (p.1.get a key) (p.1.get b key) with
  | none => exact h
  | some best =>
    have hknown : written key best := by
      rcases newest_cases versionOf (p.1.get a key) (p.1.get b key) with heq | heq
      · exact h.copies a key best (heq.symm.trans hbest)
      · exact h.copies b key best (heq.symm.trans hbest)
    exact (h.merge hknown).merge hknown

theorem Inv.sync (h : Inv written s) (a b : String) : Inv written (s.sync a b).1 := by
  show Inv written ((s.keysOf a b).foldl (AntiEntropy.syncKey a b) (s, [], 0)).1
  exact List.foldlRecOn (motive := fun p : AntiEntropy × List String × Nat => Inv written p.1) _ _ h
    fun _ hp _ _ => hp.syncKey

theorem maxByVersion_mem {vs : List Versioned} (h : maxByVersion vs = some best) : best ∈ vs := by
  have hmem : ∀ v, maxByVersion vs = some v → v ∈ vs := by
    refine List.foldlRecOn (motive := fun m => ∀ v, m = some v → v ∈ vs) _ _ (nofun)
      fun m hm w hw v hv => ?_
    unfold laterMax at hv
    split at hv
    · exact Option.some.inj hv ▸ hw
    · split at hv
      · exact hm v hv
      · exact Option.some.inj hv ▸ hw
  exact hmem best h

theorem Inv.read (h : Inv written s) (key : String) : Inv written (s.read key).1 := by
  unfold AntiEntropy.read
  split
  · exact h
  · rename_i best hbest
    obtain ⟨r, -, hr⟩ := List.mem_filterMap.mp (maxByVersion_mem hbest)
    have hknown := h.copies r key best hr
    exact List.foldlRecOn (motive := fun p : AntiEntropy × List String => Inv written p.1) _ _ h
      fun _ hp _ _ => hp.merge hknown

theorem Inv.handoff (h : Inv written s) : Inv written s.handoff.1 := by
  have hmerged : Inv written ((s.hints.filter s.deliverable).foldl
      (fun t h => (t.merge h.owner h.key h.value).1) s) := by
    refine List.foldlRecOn (motive := Inv written) _ _ h fun t ht x hx => ht.merge ?_
    exact h.hints x (List.mem_of_mem_filter hx)
  exact ⟨hmerged.counts, hmerged.copies, fun x hx => h.hints x (List.mem_of_mem_filter hx)⟩

theorem Inv.write (h : Inv written s) {value : String} {version : Int} (hv : written key ⟨value, version⟩) :
    Inv written (s.write key value version).1 := by
  have hmerged : Inv written (s.live.foldl (fun t r => (t.merge r key ⟨value, version⟩).1) s) :=
    List.foldlRecOn (motive := Inv written) _ _ h fun t ht _ _ => ht.merge hv
  refine ⟨hmerged.counts, hmerged.copies, fun x hx => ?_⟩
  rcases List.mem_append.mp hx with hx | hx
  · exact hmerged.hints x hx
  · unfold hintsFor at hx
    split at hx
    · cases hx
    · obtain ⟨owner, -, rfl⟩ := List.mem_map.mp hx
      exact hv

theorem Inv.step [Host] (h : Inv written s) (hputs : PutsAhead l) (hwrites : ∀ k v, Writes l k v → written k v)
    (hs : onLine step s l = some (s', o)) : Inv written s' := by
  unfold onLine AntiEntropy.step at hs
  split at hs
  case h_1 =>
    refine arg_keeps h hs fun replicas _ hs => ?_
    cases hs
    exact inv_started replicas
  case h_2 hput =>
    refine arg_keeps h hs fun replica _ hs => ?_
    refine arg_keeps h hs fun key hkey hs => ?_
    refine arg_keeps h hs fun value hvalue hs => ?_
    refine arg_keeps h hs fun version hversion hs => ?_
    cases hs
    exact h.insert (hwrites key ⟨value, version⟩ (.inr ⟨hput, hkey, hvalue, hversion⟩))
      (hputs hput version hversion)
  case h_3 =>
    refine arg_keeps h hs fun replica _ hs => ?_
    cases hs
    exact ⟨h.counts, h.copies, h.hints⟩
  case h_4 =>
    refine arg_keeps h hs fun replica _ hs => ?_
    cases hs
    exact ⟨h.counts, h.copies, h.hints⟩
  case h_5 hwrite =>
    refine arg_keeps h hs fun key hkey hs => ?_
    refine arg_keeps h hs fun value hvalue hs => ?_
    refine arg_keeps h hs fun version hversion hs => ?_
    have hafter := h.write (hwrites key ⟨value, version⟩ (.inl ⟨hwrite, hkey, hvalue, hversion⟩))
    rwa [Option.some.inj hs] at hafter
  case h_6 =>
    refine arg_keeps h hs fun key _ hs => ?_
    have hafter := h.read key
    rwa [Option.some.inj hs] at hafter
  case h_7 =>
    refine arg_keeps h hs fun replica _ hs => ?_
    cases hs
    exact h
  case h_8 =>
    have hafter := h.handoff
    rwa [Option.some.inj hs] at hafter
  case h_9 =>
    refine arg_keeps h hs fun a _ hs => ?_
    refine arg_keeps h hs fun b _ hs => ?_
    have hafter := h.sync a b
    rwa [Option.some.inj hs] at hafter
  case h_10 =>
    refine arg_keeps h hs fun replica _ hs => ?_
    cases hs
    exact h
  case h_11 =>
    cases hs
    exact h

theorem inv [Host] (hrun : Run (onLine step) (started []) es s) (hputs : ∀ e ∈ es, PutsAhead e.input) :
    Inv (Written es) s := by
  refine hrun.history_invariant (P := fun es s => Inv (Written es) s) (G := fun e => PutsAhead e.input)
    (inv_started []) (fun es s l s' o h hl hs => ?_) hputs
  have hbefore : Inv (Written (es ++ [⟨s, l, o, s'⟩])) s := h.mono fun k v ⟨e, he, hw⟩ =>
    ⟨e, List.mem_append_left _ he, hw⟩
  exact hbefore.step hl (fun k v hw => ⟨_, List.mem_concat_self, hw⟩) hs

/-! ## Settled -/

/-- No two writes of the run give one version of a key two values. -/
def OneValue (es : List (Event AntiEntropy Line Value)) : Prop :=
  ∀ k v w, Written es k v → Written es k w → v.version = w.version → v = w

theorem exists_of_version_pos {c : Option Versioned} (h : 0 < versionOf c) : ∃ v, c = some v := by
  cases c with
  | none => exact absurd h (Int.lt_irrefl 0)
  | some v => exact ⟨v, rfl⟩

theorem Inv.versions (h : Inv written s) (a b k : String) :
    versionOf ((s.sync a b).1.get a k) = max (versionOf (s.get a k)) (versionOf (s.get b k)) ∧
      versionOf ((s.sync a b).1.get b k) = max (versionOf (s.get a k)) (versionOf (s.get b k)) := by
  rw [get_sync, if_pos (.inl rfl), get_sync, if_pos (.inr rfl)]
  exact rank_settle (h.counts a k) (h.counts b k)

theorem Inv.agree (h : Inv written s) (a b k : String) : (s.sync a b).1.get a k = (s.sync a b).1.get b k ∨
    (versionOf (s.get a k) = versionOf (s.get b k) ∧ (s.sync a b).1.get a k = s.get a k ∧
      (s.sync a b).1.get b k = s.get b k) := by
  rw [get_sync, if_pos (.inl rfl), get_sync, if_pos (.inr rfl)]
  exact settle_agree (h.counts a k) (h.counts b k)

/-- **Anti-entropy settles** any two replicas of any state that is reached: whatever either holds, both hold
afterwards, under the greater of the versions and with one value, unless each has kept a copy it had under that
version already; no version goes down; and a second sync moves nothing. Where no version of a key is written with
two values, the copies are the same. -/
theorem sync_settles [Host] (hrun : Run (onLine step) (started []) es s) (hputs : ∀ e ∈ es, PutsAhead e.input)
    (a b : String) :
    (∀ k, s.get a k ≠ none ∨ s.get b k ≠ none → ∃ v w, (s.sync a b).1.get a k = some v ∧
      (s.sync a b).1.get b k = some w ∧ v.version = w.version ∧
      v.version = max (versionOf (s.get a k)) (versionOf (s.get b k)) ∧
      (v = w ∨ s.get a k = some v ∧ s.get b k = some w)) ∧
    (∀ r k, versionOf (s.get r k) ≤ versionOf ((s.sync a b).1.get r k)) ∧
    (s.sync a b).1.sync a b = ((s.sync a b).1, .obj [("transferred", .num 0), ("keys", words [])]) ∧
    (OneValue es → ∀ k, (s.sync a b).1.get a k = (s.sync a b).1.get b k) := by
  have hinv := inv hrun hputs
  have hversions := hinv.versions a b
  refine ⟨fun k hheld => ?_, fun r k => ?_, sync_of_agree fun k => (hversions k).1.trans (hversions k).2.symm,
    fun hone k => ?_⟩
  · have hpos : 0 < max (versionOf (s.get a k)) (versionOf (s.get b k)) := by
      rcases hheld with ha | hb
      · obtain ⟨v, hv⟩ := Option.ne_none_iff_exists'.mp ha
        have hv' : 0 < versionOf (s.get a k) := hv ▸ hinv.counts a k v hv
        exact Int.lt_of_lt_of_le hv' (le_max_left _ _)
      · obtain ⟨v, hv⟩ := Option.ne_none_iff_exists'.mp hb
        have hv' : 0 < versionOf (s.get b k) := hv ▸ hinv.counts b k v hv
        exact Int.lt_of_lt_of_le hv' (le_max_right _ _)
    obtain ⟨v, hv⟩ := exists_of_version_pos ((hversions k).1 ▸ hpos)
    obtain ⟨w, hw⟩ := exists_of_version_pos ((hversions k).2 ▸ hpos)
    have hvmax : v.version = _ := (congrArg versionOf hv).symm.trans (hversions k).1
    have hwmax : w.version = _ := (congrArg versionOf hw).symm.trans (hversions k).2
    refine ⟨v, w, hv, hw, hvmax.trans hwmax.symm, hvmax, ?_⟩
    rcases hinv.agree a b k with hsame | ⟨-, hva, hvb⟩
    · exact .inl (Option.some.inj (hv.symm.trans (hsame.trans hw)))
    · exact .inr ⟨hva.symm.trans hv, hvb.symm.trans hw⟩
  · by_cases hr : r = a ∨ r = b
    · rcases hr with rfl | rfl
      · rw [(hversions k).1]
        exact le_max_left _ _
      · rw [(hversions k).2]
        exact le_max_right _ _
    · rw [get_sync, if_neg hr]
  · rcases hinv.agree a b k with hsame | ⟨hversion, hva, hvb⟩
    · exact hsame
    · rw [hva, hvb]
      cases ha : s.get a k with
      | none =>
        cases hb : s.get b k with
        | none => rfl
        | some w =>
          rw [ha, hb] at hversion
          exact absurd hversion (Int.ne_of_lt (hinv.counts b k w hb))
      | some v =>
        cases hb : s.get b k with
        | none =>
          rw [ha, hb] at hversion
          exact absurd hversion.symm (Int.ne_of_lt (hinv.counts a k v ha))
        | some w =>
          rw [ha, hb] at hversion
          exact congrArg some (hone k v w (hinv.copies a k v ha) (hinv.copies b k w hb) hversion)

/-! Two values under one version, written while the replicas are down in turn: a sync leaves both. -/

@[reducible] def pair : Host := hostOf [("[\"r1\",\"r2\"]", .arr [.str "r1", .str "r2"])]

def apart : List Line :=
  [⟨"init", ["[\"r1\",\"r2\"]"]⟩, ⟨"down", ["r2"]⟩, ⟨"write", ["k", "x", "1"]⟩, ⟨"up", ["r2"]⟩,
    ⟨"down", ["r1"]⟩, ⟨"write", ["k", "y", "1"]⟩, ⟨"up", ["r1"]⟩]

theorem sync_leaves_both : ∃ es s, Run (onLine (@step pair)) (started []) es s ∧
    es.map Event.input = apart ∧
      (s.sync "r1" "r2").1.get "r1" "k" = some ⟨"x", 1⟩ ∧ (s.sync "r1" "r2").1.get "r2" "k" = some ⟨"y", 1⟩ := by
  let _ : Host := pair
  exact ⟨_, _, run_of_exec apart rfl, rfl, rfl, rfl⟩

def behind : List Line :=
  [⟨"init", ["[\"r1\",\"r2\"]"]⟩, ⟨"write", ["k", "x", "1"]⟩, ⟨"down", ["r2"]⟩, ⟨"write", ["k", "y", "2"]⟩,
    ⟨"up", ["r2"]⟩]

theorem sync_settles_behind : ∃ es s, Run (onLine (@step pair)) (started []) es s ∧
    es.map Event.input = behind ∧
    ∀ k, s.get "r1" k ≠ none ∨ s.get "r2" k ≠ none → ∃ v w, (s.sync "r1" "r2").1.get "r1" k = some v ∧
      (s.sync "r1" "r2").1.get "r2" k = some w ∧ v.version = w.version ∧
      v.version = max (versionOf (s.get "r1" k)) (versionOf (s.get "r2" k)) ∧
      (v = w ∨ s.get "r1" k = some v ∧ s.get "r2" k = some w) := by
  let _ : Host := pair
  obtain ⟨es, s, hrun, hinputs⟩ : ∃ es s, Run (onLine step) (started []) es s ∧
      es.map Event.input = behind := ⟨_, _, run_of_exec behind rfl, rfl⟩
  refine ⟨es, s, hrun, hinputs, (sync_settles hrun (fun e he hput => ?_) "r1" "r2").1⟩
  have hno : ∀ l ∈ es.map Event.input, l.command ≠ "put" := by
    rw [hinputs]
    decide
  exact absurd hput (hno _ (List.mem_map_of_mem he))

end BuildYourOwn.Resilience.AntiEntropy
