import BuildYourOwn.Crdt.OrSet

/-!
# Which elements an or-set has

A tag is minted once: the name of the replica and the count of its process can be read back from it. So an element
is in the set exactly when some absorbed add of it is one that no absorbed remove had seen.

* What the commands do: `orSet_replicated`.
-/

namespace BuildYourOwn.Crdt.OrSet

open Lib Topic

/-! ## Tags -/

theorem dot_notMem_toString (i : Nat) : '.' ∉ (toString i).toList := by
  rw [Nat.toString_eq_ofList_toDigits, String.toList_ofList]
  intro h
  exact absurd (Nat.isDigit_of_mem_toDigits (by decide) (by decide) h) (by decide)

theorem append_cons_inj {α : Type} {a : α} {l l' r r' : List α} (hl : a ∉ l) (hl' : a ∉ l')
    (h : l ++ a :: r = l' ++ a :: r') : l = l' ∧ r = r' := by
  induction l generalizing l' with
  | nil =>
    cases l' with
    | nil => exact ⟨rfl, List.tail_eq_of_cons_eq h⟩
    | cons b l' => exact absurd (List.head_eq_of_cons_eq h ▸ List.mem_cons_self) hl'
  | cons b l ih =>
    cases l' with
    | nil => exact absurd (List.head_eq_of_cons_eq h ▸ List.mem_cons_self) hl
    | cons b' l' =>
      obtain ⟨rfl, htail⟩ := List.cons.inj h
      obtain ⟨rfl, rfl⟩ := ih (fun hm => hl (List.mem_cons_of_mem b hm))
        (fun hm => hl' (List.mem_cons_of_mem b hm)) htail
      exact ⟨rfl, rfl⟩

/-- **A tag gives back the replica and the count**: the last dot stands between them. -/
theorem tag_injective {r r' : String} {i j : Nat} (h : tag r i = tag r' j) : r = r' ∧ i = j := by
  have hlist := congrArg (fun s => s.toList.reverse) h
  have hdot : ".".toList.reverse = ['.'] := rfl
  simp only [tag, String.toList_append, List.reverse_append, hdot, List.singleton_append] at hlist
  have hnot : ∀ k : Nat, '.' ∉ (toString k).toList.reverse := fun k hk =>
    dot_notMem_toString k (List.mem_reverse.mp hk)
  obtain ⟨hcount, hname⟩ := append_cons_inj (hnot i) (hnot j) hlist
  exact ⟨String.toList_injective (List.reverse_injective hname),
    toString_injective (String.toList_injective (List.reverse_injective hcount))⟩

/-! ## Merging a state -/

variable {s s' t u : OrSet} {element replica a : String} {l : Line} {o : Value}

def tagsOf (s : OrSet) (element : String) : StringSet := s.adds.getD element ∅

theorem mem_elements : element ∈ s.elements ↔ ∃ a ∈ s.tagsOf element, a ∉ s.removed := by
  unfold elements tagsOf
  rw [Std.ExtTreeMap.getD_eq_getD_getElem?]
  simp only [List.mem_map, List.mem_filter, List.any_eq_true, Bool.not_eq_true', decide_eq_false_iff_not]
  constructor
  · rintro ⟨⟨element, tags⟩, ⟨hmem, a, ha, hnot⟩, rfl⟩
    rw [StringMap.mem_toList.mp hmem]
    exact ⟨a, StringSet.mem_toList.mp ha, hnot⟩
  · rintro ⟨a, ha, hnot⟩
    cases hget : s.adds[element]? with
    | none => rw [hget] at ha; exact absurd ha Std.ExtTreeSet.not_mem_empty
    | some tags =>
      rw [hget] at ha
      exact ⟨(element, tags), ⟨StringMap.mem_toList.mpr hget, a, StringSet.mem_toList.mpr ha, hnot⟩, rfl⟩

def joinAdds (adds other : StringMap StringSet) : StringMap StringSet :=
  other.toList.foldl (fun adds e => adds.insert e.1 ((adds.getD e.1 ∅).extend e.2.toList)) adds

def joinTags (held : Option StringSet) : Option StringSet → Option StringSet
  | some tags => some ((held.getD ∅).extend tags.toList)
  | none => held

theorem get_joinAdds (adds other : StringMap StringSet) (element : String) :
    (joinAdds adds other)[element]? = joinTags adds[element]? other[element]? := by
  unfold joinAdds
  rw [StringMap.get_foldl_toList (h := fun held tags => (held.getD ∅).extend tags.toList)]
  · cases other[element]? <;> rfl
  · intro m e a
    rw [StringMap.get_insert]
    split_ifs with h
    · rw [h, Std.ExtTreeMap.getD_eq_getD_getElem?]
    · rfl

theorem mem_joinTags {held other : Option StringSet} :
    a ∈ (joinTags held other).getD ∅ ↔ a ∈ held.getD ∅ ∨ a ∈ other.getD ∅ := by
  cases other with
  | none => exact ⟨.inl, fun h => h.resolve_right Std.ExtTreeSet.not_mem_empty⟩
  | some tags => exact StringSet.mem_extend.trans (or_congr_right StringSet.mem_toList)

theorem isSome_joinTags (held other : Option StringSet) :
    (joinTags held other).isSome = (held.isSome || other.isSome) := by
  cases held <;> cases other <;> rfl

theorem tags_ext {x y : Option StringSet} (hsome : x.isSome = y.isSome)
    (hmem : ∀ a, a ∈ x.getD ∅ ↔ a ∈ y.getD ∅) : x = y := by
  cases x with
  | none => cases y with
    | none => rfl
    | some y => cases hsome
  | some x => cases y with
    | none => cases hsome
    | some y => exact congrArg some (StringSet.ext_mem hmem)

def join (s t : OrSet) : OrSet :=
  { s with adds := joinAdds s.adds t.adds, removed := s.removed.extend t.removed.toList }

theorem stringList_strs (tags : List String) : stringList (some (.arr (tags.map .str))) = .ok tags := by
  unfold stringList
  dsimp only
  induction tags with
  | nil => rfl
  | cons tag tags ih =>
    rw [List.map_cons, List.mapM_cons, ih]
    rfl

theorem absorb_state (s t : OrSet) : s.absorb t.state = (join s t, none) := by
  have hadds : ∀ (l : List (String × StringSet)) (adds : StringMap StringSet),
      addAll (l.map fun e => (e.1, .arr (e.2.toList.map .str))) adds =
        (l.foldl (fun adds e => adds.insert e.1 ((adds.getD e.1 ∅).extend e.2.toList)) adds, none) := by
    intro l
    induction l with
    | nil => exact fun _ => rfl
    | cons e l ih =>
      intro adds
      rw [List.map_cons, addAll, stringList_strs]
      exact ih _
  have ha : t.state.get "a" =
      some (.obj (t.adds.toList.map fun e => (e.1, .arr (e.2.toList.map .str)))) := rfl
  have hr : t.state.get "r" = some (.arr (t.removed.toList.map .str)) := rfl
  rw [absorb, ha, hr]
  dsimp only
  rw [hadds]
  dsimp only
  rw [absorbRemoved, stringList_strs]
  rfl

theorem merge_state (s t : OrSet) : s.merge t.state = answer (join s t) := by
  rw [merge, absorb_state]

theorem mem_tagsOf_join : a ∈ (join s t).tagsOf element ↔ a ∈ s.tagsOf element ∨ a ∈ t.tagsOf element := by
  unfold tagsOf join
  simp only [Std.ExtTreeMap.getD_eq_getD_getElem?, get_joinAdds]
  exact mem_joinTags

theorem mem_removed_join : a ∈ (join s t).removed ↔ a ∈ s.removed ∨ a ∈ t.removed :=
  StringSet.mem_extend.trans (or_congr_right StringSet.mem_toList)

/-- Sets that others cannot tell apart: all but the count of the process. -/
def Alike (s t : OrSet) : Prop := s.adds = t.adds ∧ s.removed = t.removed

theorem Alike.shown_answer (h : Alike s t) : (answer s).map (shown state) = (answer t).map (shown state) := by
  obtain ⟨seq, adds, removed⟩ := s
  obtain ⟨seq', adds', removed'⟩ := t
  obtain ⟨rfl, rfl⟩ := h
  rfl

theorem join_comm (s t : OrSet) : Alike (join s t) (join t s) := by
  constructor
  · refine Std.ExtTreeMap.ext_getElem? fun element => ?_
    show (joinAdds _ _)[element]? = (joinAdds _ _)[element]?
    rw [get_joinAdds, get_joinAdds]
    refine tags_ext ?_ fun a => ?_
    · rw [isSome_joinTags, isSome_joinTags, Bool.or_comm]
    · rw [mem_joinTags, mem_joinTags, or_comm]
  · refine StringSet.ext_mem fun a => ?_
    rw [mem_removed_join, mem_removed_join, or_comm]

theorem join_assoc (s t u : OrSet) : Alike (join (join s t) u) (join s (join t u)) := by
  constructor
  · refine Std.ExtTreeMap.ext_getElem? fun element => ?_
    show (joinAdds (joinAdds _ _) _)[element]? = (joinAdds _ (joinAdds _ _))[element]?
    rw [get_joinAdds, get_joinAdds, get_joinAdds, get_joinAdds]
    refine tags_ext ?_ fun a => ?_
    · rw [isSome_joinTags, isSome_joinTags, isSome_joinTags, isSome_joinTags, Bool.or_assoc]
    · rw [mem_joinTags, mem_joinTags, mem_joinTags, mem_joinTags, or_assoc]
  · refine StringSet.ext_mem fun a => ?_
    rw [mem_removed_join, mem_removed_join, mem_removed_join, mem_removed_join, or_assoc]

theorem join_self (s : OrSet) : Alike (join s s) s := by
  constructor
  · refine Std.ExtTreeMap.ext_getElem? fun element => ?_
    show (joinAdds _ _)[element]? = _
    rw [get_joinAdds]
    refine tags_ext ?_ fun a => ?_
    · rw [isSome_joinTags, Bool.or_self]
    · rw [mem_joinTags, or_self]
  · refine StringSet.ext_mem fun a => ?_
    rw [mem_removed_join, or_self]

/-! ## Commands -/

/-- An update of a set. -/
inductive Op
  | add (replica element : String)
  | remove (element : String)

def Op.replica? : Op → Option String
  | add replica _ => some replica
  | remove _ => none

/-- The update of the arguments of `add`. -/
def addBy (args : List String) : Option Op :=
  match word args 0, word args 1 with
  | .ok replica, .ok element => some (.add replica element)
  | _, _ => none

/-- The update of the arguments of `remove`. -/
def removeBy (args : List String) : Option Op :=
  match word args 0, word args 1 with
  | .ok _, .ok element => some (.remove element)
  | _, _ => none

def update (_ : OrSet) (l : Line) : Option Op :=
  match l.command with
  | "add" => addBy l.args
  | "remove" => removeBy l.args
  | _ => none

def Makes (s : OrSet) : Op → OrSet → Prop
  | .add replica element, s' => s'.seq = s.seq + 1 ∧ s'.removed = s.removed ∧
      s'.adds = s.adds.insert element ((s.tagsOf element).insert (tag replica (s.seq + 1)))
  | .remove element, s' => s'.seq = s.seq ∧ s'.adds = s.adds ∧
      s'.removed = s.removed.extend (s.tagsOf element).toList

def Takes (s : OrSet) (incoming : Value) (s' : OrSet) : Prop := s' = (s.absorb incoming).1

theorem makes_of_add (h : s.add replica element = some (s', o)) : Makes s (.add replica element) s' := by
  unfold add at h
  split_ifs at h
  cases h
  exact ⟨rfl, rfl, rfl⟩

theorem makes_of_remove (h : s.remove element = some (s', o)) : Makes s (.remove element) s' := by
  unfold remove at h
  unfold Makes tagsOf
  dsimp only
  rw [Std.ExtTreeMap.getD_eq_getD_getElem?]
  split at h
  · rename_i tags htags
    cases h
    exact ⟨rfl, rfl, by rw [htags]; rfl⟩
  · rename_i hnone
    cases h
    refine ⟨rfl, rfl, ?_⟩
    rw [hnone]
    exact StringSet.ext_mem fun a => (StringSet.mem_extend.trans (or_iff_left (by simp))).symm

variable [Host]

theorem orSet_replicated : Replicated step state update Makes Takes := by
  refine ⟨fun _ _ => rfl, fun s l s' o h => ?_⟩
  obtain ⟨command, args⟩ := l
  have hquiet : update s ⟨command, args⟩ = none → mergedIn ⟨command, args⟩ = none → s' = s →
      Case update Makes Takes s ⟨command, args⟩ s' := fun hu hv hs' => .inr (.inr ⟨hu, hv, hs'⟩)
  unfold onLine step at h
  dsimp only at h
  split at h
  · have hnone : addBy args = none → s' = s → Case update Makes Takes s ⟨"add", args⟩ s' :=
      fun hu => hquiet hu rfl
    rcases arg_eq_some.mp h with ⟨hword, rfl⟩ | ⟨replica, hword, h⟩
    · exact hnone (by rw [addBy, hword]) rfl
    rcases arg_eq_some.mp h with ⟨helement, rfl⟩ | ⟨element, helement, h⟩
    · exact hnone (by rw [addBy, hword, helement]) rfl
    refine .inl ⟨.add replica element, ?_, makes_of_add h⟩
    show addBy args = _
    rw [addBy, hword, helement]
  · have hnone : removeBy args = none → s' = s → Case update Makes Takes s ⟨"remove", args⟩ s' :=
      fun hu => hquiet hu rfl
    rcases arg_eq_some.mp h with ⟨hword, rfl⟩ | ⟨_, hword, h⟩
    · exact hnone (by rw [removeBy, hword]) rfl
    rcases arg_eq_some.mp h with ⟨helement, rfl⟩ | ⟨element, helement, h⟩
    · exact hnone (by rw [removeBy, hword, helement]) rfl
    refine .inl ⟨.remove element, ?_, makes_of_remove h⟩
    show removeBy args = _
    rw [removeBy, hword, helement]
  · rcases arg_eq_some.mp h with ⟨-, rfl⟩ | ⟨_, -, h⟩
    · exact hquiet rfl rfl rfl
    · exact hquiet rfl rfl (state_eq h)
  · rcases arg_eq_some.mp h with ⟨-, rfl⟩ | ⟨_, -, h⟩
    · exact hquiet rfl rfl rfl
    · exact hquiet rfl rfl (state_eq h)
  · rcases merge_cases h with ⟨hmerged, hs'⟩ | ⟨incoming, hmerged, h⟩
    · exact hquiet rfl hmerged hs'
    refine .inr (.inl ⟨rfl, incoming, hmerged, ?_⟩)
    unfold merge at h
    split at h <;> rename_i heq <;> cases h
    · exact (congrArg Prod.fst heq).symm
    · exact (congrArg Prod.fst heq).symm
  · rename_i hadd hremove _ _ hmerge
    refine hquiet ?_ ?_ (state_eq h)
    · unfold update
      dsimp only
      split
      · exact absurd rfl hadd
      · exact absurd rfl hremove
      · rfl
    · unfold mergedIn
      dsimp only
      split
      · exact absurd rfl hmerge
      · rfl

/-! ## A history -/

section Run

variable {P : Type} {es : History P OrSet} {sys : P → OrSet} {origin : Nat → Nat} {name : P → String}
  {n m k i j : Nat} {p q r : P} {A B : Finset Nat} {op : Op}

/-- The update at a position. -/
abbrev opOf (es : History P OrSet) (i : Nat) : Option Op := updateOf update es i

noncomputable abbrev known (origin : Nat → Nat) (es : History P OrSet) (n : Nat) (p : P) : Finset Nat :=
  absorbed (actAt update origin es) n p

/-- The update at `i` adds `element`, with the tag `a`. -/
def Adds (es : History P OrSet) (i : Nat) (element a : String) : Prop :=
  ∃ e replica, es[i]? = some e ∧ updateAt update e = some (.add replica element) ∧
    a = tag replica ((e.before e.input.1).seq + 1)

/-- The update at `i` removes `element`, and had seen the update at `j`. -/
def RemovesSeen (origin : Nat → Nat) (es : History P OrSet) (i : Nat) (element : String) (j : Nat) : Prop :=
  ∃ e, es[i]? = some e ∧ updateAt update e = some (.remove element) ∧ j ∈ known origin es i e.input.1

structure Tagged (origin : Nat → Nat) (es : History P OrSet) (A : Finset Nat) (s : OrSet) : Prop where
  adds : ∀ element a, a ∈ s.tagsOf element ↔ ∃ i ∈ A, Adds es i element a
  removed : ∀ a, a ∈ s.removed ↔
    ∃ i ∈ A, ∃ element j, RemovesSeen origin es i element j ∧ Adds es j element a
  keys : ∀ (element : String), s.adds[element]?.isSome = true → ∃ a, a ∈ s.tagsOf element

theorem Tagged.join (hs : Tagged origin es A s) (ht : Tagged origin es B t) : Tagged origin es (A ∪ B) (join s t) := by
  have hunion : ∀ Q : Nat → Prop, (∃ i ∈ A ∪ B, Q i) ↔ (∃ i ∈ A, Q i) ∨ ∃ i ∈ B, Q i := fun Q => by
    simp only [Finset.mem_union, or_and_right, exists_or]
  refine ⟨fun element a => ?_, fun a => ?_, fun element hsome => ?_⟩
  · rw [mem_tagsOf_join, hs.adds, ht.adds, hunion]
  · rw [mem_removed_join, hs.removed, ht.removed, hunion]
  · change (joinAdds s.adds t.adds)[element]?.isSome = true at hsome
    rw [get_joinAdds, isSome_joinTags, Bool.or_eq_true] at hsome
    rcases hsome with hsome | hsome
    · obtain ⟨a, ha⟩ := hs.keys element hsome
      exact ⟨a, mem_tagsOf_join.mpr (.inl ha)⟩
    · obtain ⟨a, ha⟩ := ht.keys element hsome
      exact ⟨a, mem_tagsOf_join.mpr (.inr ha)⟩

omit [Host] in
theorem exists_insert {Q : Nat → Prop} : (∃ i ∈ insert n A, Q i) ↔ Q n ∨ ∃ i ∈ A, Q i := by
  simp only [Finset.mem_insert, exists_eq_or_imp]

theorem Tagged.add (hs : Tagged origin es A s) {e : Event (P → OrSet) (P × Line) Value}
    (he : es[n]? = some e) (hop : updateAt update e = some (.add replica element))
    (hseq : (e.before e.input.1).seq = s.seq) (h : Makes s (.add replica element) s') :
    Tagged origin es (insert n A) s' := by
  obtain ⟨-, hremoved, hadds⟩ := h
  have hnew : ∀ el a, Adds es n el a ↔ el = element ∧ a = tag replica (s.seq + 1) := by
    intro el a
    constructor
    · rintro ⟨e', replica', he', hop', rfl⟩
      obtain rfl := Option.mem_unique he he'
      obtain ⟨rfl, rfl⟩ := Op.add.inj (Option.mem_unique hop hop')
      exact ⟨rfl, by rw [hseq]⟩
    · rintro ⟨rfl, rfl⟩
      exact ⟨e, replica, he, hop, by rw [hseq]⟩
  have htags : ∀ el a, a ∈ s'.tagsOf el ↔
      (el = element ∧ a = tag replica (s.seq + 1)) ∨ a ∈ s.tagsOf el := by
    intro el a
    rw [tagsOf, hadds, StringMap.getD_insert]
    split_ifs with hel
    · rw [StringSet.mem_insert, hel]
      exact or_congr_left ⟨fun h => ⟨rfl, h⟩, And.right⟩
    · exact ⟨.inr, fun h => h.resolve_left fun h => hel h.1.symm⟩
  refine ⟨fun el a => ?_, fun a => ?_, fun el hsome => ?_⟩
  · rw [htags, exists_insert, hnew, hs.adds]
  · have hnot : ¬ ∃ el j, RemovesSeen origin es n el j ∧ Adds es j el a := by
      rintro ⟨el, j, ⟨e', he', hop', -⟩, -⟩
      obtain rfl := Option.mem_unique he he'
      cases hop.symm.trans hop'
    rw [hremoved, hs.removed, exists_insert, or_iff_right hnot]
  · rw [hadds, StringMap.get_insert] at hsome
    split_ifs at hsome with hel
    · exact ⟨_, (htags el _).mpr (.inl ⟨hel.symm, rfl⟩)⟩
    · obtain ⟨a, ha⟩ := hs.keys el hsome
      exact ⟨a, (htags el a).mpr (.inr ha)⟩

theorem Tagged.remove {e : Event (P → OrSet) (P × Line) Value} (he : es[n]? = some e)
    (hs : Tagged origin es (known origin es n e.input.1) s)
    (hop : updateAt update e = some (.remove element)) (h : Makes s (.remove element) s') :
    Tagged origin es (insert n (known origin es n e.input.1)) s' := by
  obtain ⟨-, hadds, hremoved⟩ := h
  have hnot : ∀ el a, ¬ Adds es n el a := by
    rintro el a ⟨e', replica', he', hop', -⟩
    obtain rfl := Option.mem_unique he he'
    cases hop.symm.trans hop'
  have hnew : ∀ a, (∃ el j, RemovesSeen origin es n el j ∧ Adds es j el a) ↔ a ∈ s.tagsOf element := by
    intro a
    rw [hs.adds]
    constructor
    · rintro ⟨el, j, ⟨e', he', hop', hj⟩, hadd⟩
      obtain rfl := Option.mem_unique he he'
      obtain rfl := Op.remove.inj (Option.mem_unique hop hop')
      exact ⟨j, hj, hadd⟩
    · rintro ⟨j, hj, hadd⟩
      exact ⟨element, j, ⟨e, he, hop, hj⟩, hadd⟩
  refine ⟨fun el a => ?_, fun a => ?_, fun el hsome => ?_⟩
  · rw [exists_insert, or_iff_right (hnot el a), tagsOf, hadds]
    exact hs.adds el a
  · rw [hremoved, StringSet.mem_extend, StringSet.mem_toList, exists_insert, hnew, hs.removed, or_comm]
  · rw [hadds] at hsome
    obtain ⟨a, ha⟩ := hs.keys el hsome
    exact ⟨a, by rw [tagsOf, hadds]; exact ha⟩

variable [DecidableEq P]

abbrev setAt (es : History P OrSet) (n : Nat) (p : P) : OrSet := Crdt.replica default es n p

/-- **What every set holds at every moment.** -/
theorem tagged (hrun : Run (each (onLine step)) (fun _ => default) es sys)
    (hgenuine : Genuine origin es) (n : Nat) (p : P) : Tagged origin es (known origin es n p) (setAt es n p) := by
  refine orSet_replicated.rule hrun hgenuine ?_ ?_ ?_ n p
  · refine ⟨fun element a => ?_, fun a => ?_, fun element hsome => ?_⟩
    · have hnone : a ∉ default.tagsOf element := by simp [tagsOf, default]
      exact ⟨fun h => absurd h hnone, fun ⟨i, hi, _⟩ => absurd hi (Finset.notMem_empty i)⟩
    · exact ⟨fun h => absurd h Std.ExtTreeSet.not_mem_empty,
        fun ⟨i, hi, _⟩ => absurd hi (Finset.notMem_empty i)⟩
    · simp [default] at hsome
  · intro n p op hact hop hmakes ih
    obtain ⟨e, op', he, rfl, hop'⟩ := of_act_update hact
    obtain rfl : op' = op := by
      rw [updateOf, he] at hop
      exact Option.mem_unique hop' hop
    cases op' with
    | add replica element => exact ih.add he hop' (by rw [hrun.before_eq he]) hmakes
    | remove element => exact Tagged.remove he ih hop' hmakes
  · intro n m p q s' htakes ih ih'
    rw [Takes, absorb_state] at htakes
    rw [htakes]
    exact ih.join ih'

/-! ## Tags are minted once -/

omit [Host] [DecidableEq P] in
theorem absorb_seq (s : OrSet) (incoming : Value) : (s.absorb incoming).1.seq = s.seq := by
  have hremoved : ∀ (s : OrSet) v, (s.absorbRemoved v).1.seq = s.seq := by
    intro s v
    unfold absorbRemoved
    split <;> rfl
  unfold absorb
  split
  · exact hremoved _ _
  · split
    · rfl
    · exact hremoved _ _
  · rfl

theorem seq_mono (hrun : Run (each (onLine step)) (fun _ => default) es sys) (hnm : n ≤ m) :
    (setAt es n p).seq ≤ (setAt es m p).seq := by
  induction hnm with
  | refl => exact Nat.le_refl _
  | @step m _ ih =>
    refine ih.trans ?_
    rcases hrun.each_cases m p with ⟨hstays, -⟩ | ⟨e, -, rfl, hstep⟩
    · exact Nat.le_of_eq (congrArg seq hstays).symm
    rcases orSet_replicated.cases _ _ _ _ hstep with ⟨op, -, hmakes⟩ | ⟨-, v, -, htakes⟩ | ⟨-, -, hstays⟩
    · cases op with
      | add replica element => exact Nat.le.intro hmakes.1.symm
      | remove element => exact Nat.le_of_eq hmakes.1.symm
    · exact Nat.le_of_eq ((congrArg seq htakes).trans (absorb_seq _ v)).symm
    · exact Nat.le_of_eq (congrArg seq hstays).symm

/-- **No two adds mint the same tag.** -/
theorem Adds.unique (hrun : Run (each (onLine step)) (fun _ => default) es sys)
    (hown : OwnNames update Op.replica? name es) {element' : String} (hi : Adds es i element a)
    (hj : Adds es j element' a) : i = j ∧ element = element' := by
  obtain ⟨e, replica, he, hop, rfl⟩ := hi
  obtain ⟨e', replica', he', hop', htag⟩ := hj
  obtain ⟨hname, hseq⟩ := tag_injective htag
  have hsame : e.input.1 = e'.input.1 := by
    refine hown.1 ?_
    rw [← hown.2 i e _ replica he hop rfl, ← hown.2 j e' _ replica' he' hop' rfl, hname]
  -- the count of a process has grown after an add
  have hlater : ∀ (i j : Nat) (e e' : Event (P → OrSet) (P × Line) Value) replica element,
      es[i]? = some e → es[j]? = some e' → updateAt update e = some (.add replica element) →
      e.input.1 = e'.input.1 → i < j → (e.before e.input.1).seq < (e'.before e'.input.1).seq := by
    intro i j e e' replica element he he' hop hsame hlt
    have hact : actAt update id es i = some (.update e.input.1) := by
      rw [actAt_event he, hop]
    obtain ⟨op, hopi, hmakes⟩ := orSet_replicated.at_update hrun hact
    rw [updateOf, he, Option.bind_some, hop] at hopi
    cases hopi
    have hle := @seq_mono _ _ _ _ _ _ e.input.1 _ hrun hlt
    rw [hrun.before_eq he, hrun.before_eq he', ← hsame]
    exact Nat.lt_of_lt_of_le (Nat.lt_of_lt_of_eq (Nat.lt_succ_self _) hmakes.1.symm) hle
  rcases Nat.lt_trichotomy i j with hlt | heq | hlt
  · exact absurd (hlater i j e e' _ _ he he' hop hsame hlt) (by omega)
  · subst heq
    obtain rfl := Option.mem_unique he he'
    exact ⟨rfl, (Op.add.inj (Option.mem_unique hop hop')).2⟩
  · exact absurd (hlater j i e' e _ _ he' he hop' hsame.symm hlt) (by omega)

/-- The update at `i` adds `element`. -/
def AddsElement (es : History P OrSet) (i : Nat) (element : String) : Prop :=
  ∃ replica, opOf es i = some (.add replica element)

/-- **Or-sets are joins**: an element is there exactly when some absorbed add of it was seen by no absorbed remove of
it, and merging is commutative, associative and idempotent. -/
structure Joins (origin : Nat → Nat) (es : History P OrSet) : Prop where
  same : ∀ n m p q, known origin es n p = known origin es m q →
    (setAt es n p).elements = (setAt es m q).elements
  laws : MergeLaws merge state default es
  present : ∀ n p element, element ∈ (setAt es n p).elements ↔
    ∃ i ∈ known origin es n p, AddsElement es i element ∧
      ∀ j ∈ known origin es n p, ¬ RemovesSeen origin es j element i

omit [Host] [DecidableEq P] in
theorem laws (es : History P OrSet) : MergeLaws merge state default es := by
  refine ⟨fun n m p q => ?_, ?_, fun n p => ?_⟩
  · rw [merge_state, merge_state]
    exact (join_comm _ _).shown_answer
  · intro n m k p q r st v tu w hst htu
    rw [merge_state] at hst htu
    cases hst
    cases htu
    rw [merge_state, merge_state]
    exact (join_assoc _ _ _).shown_answer
  · rw [merge_state]
    refine ⟨_, _, rfl, ?_⟩
    obtain ⟨hadds, hremoved⟩ := join_self (setAt es n p)
    rw [state, state, hadds, hremoved]

omit [DecidableEq P] in
theorem Tagged.isSome_iff (hs : Tagged origin es A s) (element : String) :
    s.adds[element]?.isSome = true ↔ ∃ a, a ∈ s.tagsOf element := by
  refine ⟨hs.keys element, fun ⟨a, ha⟩ => ?_⟩
  rw [tagsOf, Std.ExtTreeMap.getD_eq_getD_getElem?] at ha
  cases h : s.adds[element]? with
  | none => rw [h] at ha; exact absurd ha Std.ExtTreeSet.not_mem_empty
  | some tags => rfl

omit [DecidableEq P] in
theorem Tagged.alike (hs : Tagged origin es A s) (ht : Tagged origin es A t) : Alike s t := by
  have htags : ∀ element a, a ∈ s.tagsOf element ↔ a ∈ t.tagsOf element := fun element a => by
    rw [hs.adds, ht.adds]
  constructor
  · refine Std.ExtTreeMap.ext_getElem? fun element => tags_ext ?_ fun a => ?_
    · exact Bool.eq_iff_iff.mpr ((hs.isSome_iff element).trans
        ((exists_congr fun a => htags element a).trans (ht.isSome_iff element).symm))
    · have := htags element a
      simpa only [tagsOf, Std.ExtTreeMap.getD_eq_getD_getElem?] using this
  · exact StringSet.ext_mem fun a => by rw [hs.removed, ht.removed]

theorem joins (hrun : Run (each (onLine step)) (fun _ => default) es sys)
    (hgenuine : Genuine origin es) (hown : OwnNames update Op.replica? name es) : Joins origin es := by
  have htagged := tagged hrun hgenuine
  refine ⟨fun n m p q hsame => ?_, laws es, fun n p element => ?_⟩
  · have hq := htagged m q
    rw [← hsame] at hq
    obtain ⟨hadds, hremoved⟩ := (htagged n p).alike hq
    rw [elements, elements, hadds, hremoved]
  · rw [mem_elements]
    constructor
    · rintro ⟨a, ha, hnot⟩
      obtain ⟨i, hi, hadd⟩ := ((htagged n p).adds element a).mp ha
      obtain ⟨e, replica, he, hop, -⟩ := id hadd
      refine ⟨i, hi, ⟨replica, by rw [opOf, updateOf, he]; exact hop⟩, fun j hj hseen => hnot ?_⟩
      exact ((htagged n p).removed a).mpr ⟨j, hj, element, i, hseen, hadd⟩
    · rintro ⟨i, hi, ⟨replica, hop⟩, hunseen⟩
      obtain ⟨e, he, hop⟩ := Option.bind_eq_some_iff.mp hop
      have hadd : Adds es i element _ := ⟨e, replica, he, hop, rfl⟩
      refine ⟨_, ((htagged n p).adds element _).mpr ⟨i, hi, hadd⟩, fun hremoved => ?_⟩
      obtain ⟨j, hj, element', i', hseen, hadd'⟩ := ((htagged n p).removed _).mp hremoved
      obtain ⟨rfl, rfl⟩ := hadd.unique hrun hown hadd'
      exact hunseen j hj hseen

end Run

end BuildYourOwn.Crdt.OrSet
