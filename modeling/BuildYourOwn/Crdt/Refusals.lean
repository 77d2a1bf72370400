import BuildYourOwn.Crdt.Counter
import BuildYourOwn.Crdt.OrSet
import BuildYourOwn.Crdt.Rga
import BuildYourOwn.Lib.Folds
import BuildYourOwn.Patterns.Refusals

/-!
# What a refused merge leaves

`rga` looks at the shape of an incoming state before it takes anything from it, and `lww-register` refuses none. The
counters and the set take the entries one by one, so that what comes before the first malformed one stays when the
merge is answered with an error.

**`refused_merges_iff`**: a merge that is answered with an error leaves the replica as it was exactly when the state
is well formed, so that there is no error, or what is read of it before the first malformed part is all held
already (`Counter.Harmless`, `OrSet.Harmless`).
-/

namespace BuildYourOwn.Crdt

open Lib Topic Patterns

/-! ## Counts -/

def readCount (e : String × Value) : Option (String × Int) := (asI64 e.2).map (Prod.mk e.1)

def raise (dst : StringMap Int) (e : String × Int) : StringMap Int :=
  dst.insert e.1 (max (dst.getD e.1 0) e.2)

/-- A half that `merge_max` takes: none, or an object of numbers. -/
def CountMap : Option Value → Prop
  | none => True
  | some (.obj entries) => ∀ e ∈ entries, (asI64 e.2).isSome = true
  | some _ => False

/-- What `merge_max` reads before the first entry that is not a number. -/
def countsRead : Option Value → List (String × Int)
  | some (.obj entries) => readPrefix readCount entries
  | _ => []

def CountsHeld (dst : StringMap Int) (counts : List (String × Int)) : Prop :=
  ∀ e ∈ counts, ∃ held, dst[e.1]? = some held ∧ e.2 ≤ held

variable {dst : StringMap Int} {half : Option Value}

theorem raise_eq_self_iff {e : String × Int} : raise dst e = dst ↔ ∃ held, dst[e.1]? = some held ∧ e.2 ≤ held := by
  unfold raise
  rw [StringMap.insert_eq_self_iff, Std.ExtTreeMap.getD_eq_getD_getElem?]
  cases dst[e.1]? with
  | none => simp
  | some held => simp

theorem below_raise (dst : StringMap Int) (e : String × Int) : StringMap.Below (· ≤ ·) dst (raise dst e) := by
  refine StringMap.below_insert Int.le_refl fun w hw => ?_
  rw [Std.ExtTreeMap.getD_eq_getD_getElem?, hw]
  exact le_max_left _ _

theorem foldl_raise_eq_self_iff {counts : List (String × Int)} :
    counts.foldl raise dst = dst ↔ CountsHeld dst counts := by
  rw [foldl_eq_self_iff (StringMap.below_refl Int.le_refl)
    (fun _ _ _ => StringMap.below_trans (r := (· ≤ ·)) fun _ _ _ => Int.le_trans)
    (fun _ _ => StringMap.below_antisymm (r := (· ≤ ·)) fun _ _ => Int.le_antisymm) below_raise]
  exact forall₂_congr fun e _ => raise_eq_self_iff

theorem Counter.leavesAlone_answer (s s' : Counter) : LeavesAlone s s'.answer := by
  unfold answer
  cases s'.value with
  | none => exact .panic s
  | some value => exact .silent s rfl

section variable [Host]

/-- **What `merge_max` does**: it takes what is read, and refuses what is malformed. -/
theorem mergeMax_spec (dst : StringMap Int) (half : Option Value) :
    (mergeMax dst half).1 = (countsRead half).foldl raise dst ∧
    ((mergeMax dst half).2 = none ↔ CountMap half) ∧ ∀ v, (mergeMax dst half).2 = some v → Refused v := by
  have hentries : ∀ (entries : List (String × Value)) (dst : StringMap Int),
      (mergeEntries entries dst).1 = (readPrefix readCount entries).foldl raise dst ∧
      ((mergeEntries entries dst).2 = none ↔ ∀ e ∈ entries, (asI64 e.2).isSome = true) ∧
      ∀ v, (mergeEntries entries dst).2 = some v → Refused v := by
    intro entries
    induction entries with
    | nil => exact fun dst => ⟨rfl, by simp [mergeEntries], fun v hv => absurd hv (by simp [mergeEntries])⟩
    | cons e entries ih =>
      intro dst
      rw [mergeEntries, readPrefix, readCount, List.forall_mem_cons]
      cases asI64 e.2 with
      | some count =>
        obtain ⟨htaken, hnone, hrefused⟩ := ih (raise dst (e.1, count))
        exact ⟨htaken, hnone.trans (by simp), hrefused⟩
      | none =>
        refine ⟨rfl, by simp, fun v hv => ?_⟩
        cases hv
        exact refused_err _
  cases half with
  | none => exact ⟨rfl, by simp [mergeMax, CountMap], fun v hv => absurd hv (by simp [mergeMax])⟩
  | some half =>
    cases half with
    | obj entries => exact hentries entries dst
    | _ =>
      refine ⟨rfl, by simp [mergeMax, CountMap], fun v hv => ?_⟩
      cases hv
      exact refused_err _

namespace Counter

/-- The state is well formed, or what is read of it before the first malformed entry is held. -/
def Harmless (s : Counter) (incoming : Value) : Prop :=
  CountMap (incoming.get "p") ∧ CountMap (incoming.get "n") ∨
    CountsHeld s.p (countsRead (incoming.get "p")) ∧
      (CountMap (incoming.get "p") → CountsHeld s.n (countsRead (incoming.get "n")))

theorem leavesAlone_merge_iff (s : Counter) (incoming : Value) :
    LeavesAlone s (s.merge incoming) ↔ s.Harmless incoming := by
  obtain ⟨hp, hpnone, hprefused⟩ := mergeMax_spec s.p (incoming.get "p")
  obtain ⟨hn, hnnone, hnrefused⟩ := mergeMax_spec s.n (incoming.get "n")
  unfold merge absorb Harmless
  rcases hmaxp : mergeMax s.p (incoming.get "p") with ⟨p, _ | e⟩ <;> rw [hmaxp] at hp hpnone hprefused
  · have hcounted := hpnone.mp rfl
    rcases hmaxn : mergeMax s.n (incoming.get "n") with ⟨n, _ | e⟩ <;> rw [hmaxn] at hn hnnone hnrefused
    · exact iff_of_true (leavesAlone_answer s _) (.inl ⟨hcounted, hnnone.mp rfl⟩)
    · have hnot : ¬ CountMap (incoming.get "n") := fun h => absurd (hnnone.mpr h) (by simp)
      dsimp only at hp hn ⊢
      rw [LeavesAlone.iff_same (hnrefused e rfl), ← foldl_raise_eq_self_iff, ← foldl_raise_eq_self_iff, ← hp, ← hn]
      constructor
      · intro h
        exact .inr ⟨congrArg Counter.p h, fun _ => congrArg Counter.n h⟩
      · rintro (h | ⟨hp', hn'⟩)
        · exact absurd h.2 hnot
        · rw [hp', hn' hcounted]
  · have hnot : ¬ CountMap (incoming.get "p") := fun h => absurd (hpnone.mpr h) (by simp)
    dsimp only at hp ⊢
    rw [LeavesAlone.iff_same (hprefused e rfl), ← foldl_raise_eq_self_iff, ← hp]
    constructor
    · intro h
      exact .inr ⟨congrArg Counter.p h, fun h' => absurd h' hnot⟩
    · rintro (h | ⟨hp', -⟩)
      · exact absurd h.1 hnot
      · rw [hp']

end Counter

end

/-! ## Tags -/

def readTags (e : String × Value) : Option (String × List String) :=
  match stringList (some e.2) with
  | .ok tags => some (e.1, tags)
  | .error _ => none

def addTags (adds : StringMap StringSet) (e : String × List String) : StringMap StringSet :=
  adds.insert e.1 ((adds.getD e.1 ∅).extend e.2)

def TagLists : Option Value → Prop
  | none => True
  | some (.obj adds) => ∀ e ∈ adds, (readTags e).isSome = true
  | some _ => False

def tagsRead : Option Value → List (String × List String)
  | some (.obj adds) => readPrefix readTags adds
  | _ => []

def TagsHeld (adds : StringMap StringSet) (tags : List (String × List String)) : Prop :=
  ∀ e ∈ tags, ∃ held : StringSet, adds[e.1]? = some held ∧ ∀ tag ∈ e.2, tag ∈ held

section

variable {adds : StringMap StringSet}

theorem extend_eq_self_iff {t : StringSet} {tags : List String} : t.extend tags = t ↔ ∀ tag ∈ tags, tag ∈ t := by
  constructor
  · intro h tag htag
    rw [← h]
    exact StringSet.mem_extend.mpr (.inr htag)
  · intro h
    refine StringSet.ext_mem fun tag => StringSet.mem_extend.trans ?_
    exact ⟨fun htag => htag.elim id (h tag), .inl⟩

theorem addTags_eq_self_iff {e : String × List String} : addTags adds e = adds ↔
    ∃ held : StringSet, adds[e.1]? = some held ∧ ∀ tag ∈ e.2, tag ∈ held := by
  unfold addTags
  rw [StringMap.insert_eq_self_iff, Std.ExtTreeMap.getD_eq_getD_getElem?]
  cases adds[e.1]? with
  | none => simp
  | some held =>
    rw [Option.getD_some, Option.some.injEq, eq_comm, extend_eq_self_iff]
    simp

theorem below_addTags (adds : StringMap StringSet) (e : String × List String) :
    StringMap.Below (fun t t' : StringSet => ∀ tag ∈ t, tag ∈ t') adds (addTags adds e) := by
  refine StringMap.below_insert (fun _ _ => id) fun held hheld tag htag => ?_
  rw [Std.ExtTreeMap.getD_eq_getD_getElem?, hheld]
  exact StringSet.mem_extend.mpr (.inl htag)

theorem foldl_addTags_eq_self_iff {tags : List (String × List String)} :
    tags.foldl addTags adds = adds ↔ TagsHeld adds tags := by
  rw [foldl_eq_self_iff (StringMap.below_refl fun _ _ => id)
    (fun _ _ _ => StringMap.below_trans fun _ _ _ h h' tag htag => h' tag (h tag htag))
    (fun _ _ => StringMap.below_antisymm fun _ _ h h' => StringSet.ext_mem fun tag => ⟨h tag, h' tag⟩) below_addTags]
  exact forall₂_congr fun e _ => addTags_eq_self_iff

theorem refused_of_stringList {list : Option Value} {v : Value} (h : stringList list = .error v) : Refused v := by
  unfold stringList at h
  split at h
  · exact nomatch h
  · obtain ⟨x, -, hx⟩ := exists_of_mapM_error h
    cases hstr : x.asStr with
    | some tag =>
      rw [hstr] at hx
      exact nomatch hx
    | none =>
      rw [hstr] at hx
      obtain rfl := Except.error.inj hx
      exact refused_err _
  · obtain rfl := Except.error.inj h
    exact refused_err _

/-- **What the loop over the adds does**: it takes what is read, and refuses what is malformed. -/
theorem addAll_spec (entries : List (String × Value)) (adds : StringMap StringSet) :
    (OrSet.addAll entries adds).1 = (readPrefix readTags entries).foldl addTags adds ∧
    ((OrSet.addAll entries adds).2 = none ↔ ∀ e ∈ entries, (readTags e).isSome = true) ∧
    ∀ v, (OrSet.addAll entries adds).2 = some v → Refused v := by
  induction entries generalizing adds with
  | nil => exact ⟨rfl, by simp [OrSet.addAll], fun v hv => absurd hv (by simp [OrSet.addAll])⟩
  | cons e entries ih =>
    rw [OrSet.addAll, readPrefix, readTags, List.forall_mem_cons]
    cases hlist : stringList (some e.2) with
    | ok tags =>
      obtain ⟨htaken, hnone, hrefused⟩ := ih (addTags adds (e.1, tags))
      exact ⟨htaken, hnone.trans (by simp [readTags, hlist]), hrefused⟩
    | error v =>
      refine ⟨rfl, by simp [readTags, hlist], fun v' hv => ?_⟩
      cases hv
      exact refused_of_stringList hlist

end

namespace OrSet

/-- The state is well formed, or what is read of it before the first malformed part is held. -/
def Harmless (s : OrSet) (incoming : Value) : Prop :=
  TagLists (incoming.get "a") ∧ (∃ tags, stringList (incoming.get "r") = .ok tags) ∨
    TagsHeld s.adds (tagsRead (incoming.get "a"))

theorem leavesAlone_absorbRemoved (s : OrSet) (tags : List (String × List String)) (removed : Option Value) :
    LeavesAlone s (match absorbRemoved { s with adds := tags.foldl addTags s.adds } removed with
      | (s, some e) => some (s, e)
      | (s, none) => answer s) ↔ (∃ gone, stringList removed = .ok gone) ∨ TagsHeld s.adds tags := by
  unfold absorbRemoved
  cases hlist : stringList removed with
  | ok gone => exact iff_of_true (.silent s rfl) (.inl ⟨gone, rfl⟩)
  | error e =>
    rw [LeavesAlone.iff_same (refused_of_stringList hlist), ← foldl_addTags_eq_self_iff]
    constructor
    · exact fun h => .inr (congrArg OrSet.adds h)
    · rintro (⟨gone, h⟩ | h)
      · exact nomatch h
      · rw [h]

theorem leavesAlone_merge_iff (s : OrSet) (incoming : Value) :
    LeavesAlone s (s.merge incoming) ↔ s.Harmless incoming := by
  unfold merge absorb Harmless
  cases incoming.get "a" with
  | none =>
    refine (leavesAlone_absorbRemoved s [] (incoming.get "r")).trans ?_
    exact or_congr_left (and_iff_right trivial).symm
  | some adds =>
    cases adds with
    | obj entries =>
      obtain ⟨htaken, hnone, hrefused⟩ := addAll_spec entries s.adds
      dsimp only
      rcases haddAll : addAll entries s.adds with ⟨adds, _ | e⟩ <;> rw [haddAll] at htaken hnone hrefused
      · have hall : TagLists (some (.obj entries)) := hnone.mp rfl
        obtain rfl : adds = (readPrefix readTags entries).foldl addTags s.adds := htaken
        refine (leavesAlone_absorbRemoved s _ (incoming.get "r")).trans ?_
        exact or_congr_left (and_iff_right hall).symm
      · have hnot : ¬ TagLists (some (.obj entries)) := fun h => nomatch hnone.mpr h
        obtain rfl : adds = (readPrefix readTags entries).foldl addTags s.adds := htaken
        rw [LeavesAlone.iff_same (hrefused e rfl), tagsRead, ← foldl_addTags_eq_self_iff]
        constructor
        · exact fun h => .inr (congrArg OrSet.adds h)
        · rintro (h | h)
          · exact absurd h.1 hnot
          · rw [h]
    | _ => exact iff_of_true (.same s _) (.inr fun e he => absurd he List.not_mem_nil)

end OrSet

/-! ## All four -/

theorem Lww.leavesAlone_merge (s : Lww) (incoming : Value) : LeavesAlone s (s.merge incoming) := .silent s rfl

theorem Rga.leavesAlone_merge (s : Rga) (incoming : Value) : LeavesAlone s (s.merge incoming) := by
  unfold merge
  split
  · unfold answer
    cases (takeAll _ s).text with
    | none => exact .panic s
    | some text => exact .silent s rfl
  · exact .same s _

section

variable [Host] {σ : Type} {s : σ} {merge : Value → Handled σ} {args : List String}

theorem leavesAlone_merging : LeavesAlone s (arg s (word args 0) fun _ => arg s (jsonArg args 1) fun incoming =>
    merge incoming) ↔ ∀ incoming, mergedBy args = some incoming → LeavesAlone s (merge incoming) := by
  unfold mergedBy
  cases word args 0 with
  | error e => exact iff_of_true (.same s e) fun incoming h => nomatch h
  | ok name =>
    cases jsonArg args 1 with
    | error e => exact iff_of_true (.same s e) fun incoming h => nomatch h
    | ok incoming =>
      refine ⟨fun h incoming' heq => ?_, fun h => h incoming rfl⟩
      cases heq
      exact h

/-- **What a refused merge leaves**: of the register and the sequence, what there was; of a counter or a set exactly
where the state is well formed or brings nothing new before its first malformed part. -/
theorem refused_merges_iff (args : List String) :
    (∀ s : Counter, LeavesAlone s (Counter.step s "merge" args) ↔
      ∀ incoming, mergedBy args = some incoming → s.Harmless incoming) ∧
    (∀ s : Lww, LeavesAlone s (Lww.step s "merge" args)) ∧
    (∀ s : OrSet, LeavesAlone s (OrSet.step s "merge" args) ↔
      ∀ incoming, mergedBy args = some incoming → s.Harmless incoming) ∧
    ∀ s : Rga, LeavesAlone s (Rga.step s "merge" args) := by
  refine ⟨fun s => ?_, fun s => ?_, fun s => ?_, fun s => ?_⟩
  · exact leavesAlone_merging.trans (forall₂_congr fun incoming _ => s.leavesAlone_merge_iff incoming)
  · exact leavesAlone_merging.mpr fun incoming _ => s.leavesAlone_merge incoming
  · exact leavesAlone_merging.trans (forall₂_congr fun incoming _ => s.leavesAlone_merge_iff incoming)
  · exact leavesAlone_merging.mpr fun incoming _ => s.leavesAlone_merge incoming

end

/-! A state whose second entry is not a number. -/

@[reducible] def malformedState : Host :=
  hostOf [("\x7b\"p\":\x7b\"a\":2,\"b\":true\x7d\x7d",
    .obj [("p", .obj [("a", .num 2), ("b", .bool true)])])]

def malformedMerge : List String := ["a", "\x7b\"p\":\x7b\"a\":2,\"b\":true\x7d\x7d"]

theorem malformed_entry_absorbed :
    (∃ s' v, @Counter.step malformedState (Counter.new false) "merge" malformedMerge = some (s', v) ∧ Refused v ∧
      s'.p["a"]? = some 2) ∧
    ¬ LeavesAlone (Counter.new false) (@Counter.step malformedState (Counter.new false) "merge" malformedMerge) := by
  have hstep : @Counter.step malformedState (Counter.new false) "merge" malformedMerge =
      some (⟨false, (∅ : StringMap Int).insert "a" 2, ∅⟩, err "the entry for \"b\" is not a number") := rfl
  rw [hstep]
  refine ⟨⟨_, _, rfl, refused_err _, StringMap.get_insert_self _ _ _⟩, fun h => ?_⟩
  have hsame := congrArg (fun s : Counter => s.p["a"]?) (h _ _ rfl (refused_err _))
  simp [Counter.new] at hsame

end BuildYourOwn.Crdt
