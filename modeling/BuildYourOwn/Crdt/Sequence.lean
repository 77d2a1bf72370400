import BuildYourOwn.Crdt.Rga
import BuildYourOwn.Lib.Folds
import BuildYourOwn.Lib.Walk

/-!
# The text of a replicated sequence

When every element stands under one that was there before it (`Grown`), the walk ends and the text is the characters
of the undeleted elements in the order of the tree. A state that has some of the elements of another, with
whatever is above them, shows them in the order of the other (`text_of_part`).

A merge takes elements of any name with any anchor, so other states are reached as well. **`reading_ends_iff`**: in
each of them the walk ends and writes no element twice exactly when the anchors do not lead from an element that is
named `root` back to `root`.
-/

namespace BuildYourOwn.Crdt.Rga

open Lib Topic

variable {s t : Rga} {id parent a : String} {x y : Elem} {rank : String → Nat}

/-! ## Children -/

theorem mem_kids : id ∈ s.kids parent ↔ ∃ x, s[id]? = some x ∧ x.after = parent := by
  unfold kids
  rw [List.mem_reverse, List.mem_insertionSort, List.mem_map]
  constructor
  · rintro ⟨⟨id, x⟩, hmem, rfl⟩
    obtain ⟨hmem, hafter⟩ := List.mem_filter.mp hmem
    exact ⟨x, StringMap.mem_toList.mp hmem, beq_iff_eq.mp hafter⟩
  · rintro ⟨x, hx, hafter⟩
    refine ⟨(id, x), List.mem_filter.mpr ⟨StringMap.mem_toList.mpr hx, beq_iff_eq.mpr hafter⟩, rfl⟩

theorem nodup_kids (s : Rga) (parent : String) : (s.kids parent).Nodup := by
  unfold kids
  rw [List.nodup_reverse, (List.perm_insertionSort _ _).nodup_iff]
  have hkeys : (s.toList.map Prod.fst).Nodup := by
    rw [Std.ExtTreeMap.map_fst_toList_eq_keys]
    exact Std.ExtTreeMap.nodup_keys
  exact hkeys.sublist (List.filter_sublist.map Prod.fst)

theorem sorted_kids (s : Rga) (parent : String) : (s.kids parent).Pairwise (· ≥ ·) := by
  unfold kids
  rw [List.pairwise_reverse]
  exact List.pairwise_insertionSort _ _

theorem parent_unique (x a b : String) (ha : x ∈ s.kids a) (hb : x ∈ s.kids b) : a = b := by
  obtain ⟨y, hy, rfl⟩ := mem_kids.mp ha
  obtain ⟨z, hz, rfl⟩ := mem_kids.mp hb
  rw [Option.mem_unique hy hz]

theorem kids_eq {l : List String} (hl : l.Pairwise (· ≥ ·)) (hnodup : l.Nodup)
    (h : ∀ id, id ∈ s.kids parent ↔ id ∈ l) : s.kids parent = l := by
  have hperm : (s.kids parent).Perm l :=
    (List.perm_ext_iff_of_nodup (nodup_kids s parent) hnodup).mpr h
  exact hperm.eq_of_pairwise (fun a b _ _ hab hba => le_antisymm hba hab) (sorted_kids s parent) hl

/-! ## The walk -/

/-- Is the element there, and not deleted? -/
def live (s : Rga) (id : String) : Bool :=
  match s[id]? with
  | some e => !e.deleted
  | none => false

/-- The character of an element. -/
def chAt (s : Rga) (id : String) : String :=
  match s[id]? with
  | some e => e.ch
  | none => ""

def render (s : Rga) (ids : List String) : String := String.join ((ids.filter s.live).map s.chAt)

theorem render_append (s : Rga) (l l' : List String) : s.render (l ++ l') = s.render l ++ s.render l' := by
  unfold render
  rw [List.filter_append, List.map_append, String.join_append]

theorem render_cons (h : s[id]? = some x) (l : List String) :
    s.render (id :: l) = (if x.deleted then "" else x.ch) ++ s.render l := by
  have hlive : s.live id = !x.deleted := by rw [live, h]
  have hch : s.chAt id = x.ch := by rw [chAt, h]
  unfold render
  cases hx : x.deleted with
  | true =>
    rw [List.filter_cons_of_neg (by rw [hlive, hx]; decide), if_pos rfl, String.empty_append]
  | false =>
    rw [List.filter_cons_of_pos (by rw [hlive, hx]; rfl), List.map_cons, String.join_cons, hch]
    rfl

/-- **A walk that ends** adds the undeleted descendants, depth first. -/
theorem walk_eq {n : Nat} (h : Ends s.kids n parent) (out : String) :
    s.walk n parent out = some (out ++ s.render (Lib.walk s.kids n parent)) := by
  induction n generalizing parent out with
  | zero => exact absurd h not_false
  | succ n ih =>
    have hlist : ∀ l : List String, (∀ k ∈ l, k ∈ s.kids parent) → ∀ out,
        l.foldlM (fun out id =>
          match s[id]? with
          | some e => walk s n id (if e.deleted then out else out ++ e.ch)
          | none => some out) out =
        some (out ++ s.render (l.flatMap fun k => k :: Lib.walk s.kids n k)) := by
      intro l
      induction l with
      | nil => exact fun _ out => congrArg some (String.append_empty).symm
      | cons k l ihl =>
        intro hl out
        have hk := hl k List.mem_cons_self
        obtain ⟨x, hx, -⟩ := mem_kids.mp hk
        rw [List.foldlM_cons, hx]
        show (walk s n k (if x.deleted then out else out ++ x.ch)).bind _ = _
        rw [ih (h k hk), Option.bind_some, ihl fun k' hk' => hl k' (List.mem_cons_of_mem k hk'),
          List.flatMap_cons, render_append, render_cons hx]
        cases x.deleted <;> simp [String.append_assoc]
    exact hlist _ (fun k hk => hk) out

/-! ## A tree that has grown -/

/-- Every element is under the root, or under one that is there and came before it. -/
structure Grown (rank : String → Nat) (s : Rga) : Prop where
  named : ∀ (id : String) x, s[id]? = some x → id ≠ "root"
  parent : ∀ (id : String) x, s[id]? = some x → x.after = "root" ∨ x.after ∈ s ∧ rank x.after < rank id

/-- The place of an element in the order of growth, the root before all. -/
def level (rank : String → Nat) (id : String) : Nat := if id = "root" then 0 else rank id + 1

theorem Grown.level_lt (h : Grown rank s) (hid : id ∈ s.kids parent) : level rank parent < level rank id := by
  obtain ⟨x, hx, rfl⟩ := mem_kids.mp hid
  have hroot := h.named id x hx
  rcases h.parent id x hx with hparent | ⟨-, hlt⟩
  · rw [hparent, level, if_pos rfl, level, if_neg hroot]
    exact Nat.succ_pos _
  · unfold level
    split_ifs <;> omega

theorem Grown.level_lt_of_below (h : Grown rank s) (hbelow : Relation.TransGen (fun a k => k ∈ s.kids a) parent id) :
    level rank parent < level rank id := by
  induction hbelow with
  | single hid => exact h.level_lt hid
  | tail _ hid ih => exact ih.trans (h.level_lt hid)

/-- How many elements came after this one. -/
def later (rank : String → Nat) (s : Rga) (a : String) : Nat :=
  (s.keys.toFinset.filter fun id => level rank a < level rank id).card

theorem Grown.later_lt (h : Grown rank s) (hid : id ∈ s.kids parent) : later rank s id < later rank s parent := by
  have hlt := h.level_lt hid
  obtain ⟨x, hx, -⟩ := mem_kids.mp hid
  refine Finset.card_lt_card (Finset.ssubset_iff_of_subset ?_ |>.mpr ⟨id, ?_, ?_⟩)
  · intro id' hid'
    obtain ⟨hmem, hlater⟩ := Finset.mem_filter.mp hid'
    exact Finset.mem_filter.mpr ⟨hmem, hlt.trans hlater⟩
  · exact Finset.mem_filter.mpr ⟨List.mem_toFinset.mpr (StringMap.mem_keys.mpr ⟨x, hx⟩), hlt⟩
  · exact fun hmem => absurd (Finset.mem_filter.mp hmem).2 (Nat.lt_irrefl _)

/-- **As many levels as there are elements suffice.** -/
theorem Grown.ends (h : Grown rank s) {n : Nat} (hn : s.size < n) : Ends s.kids n "root" := by
  refine ends_of_measure (fun a k hk => h.later_lt hk) n "root" (Nat.lt_of_le_of_lt ?_ hn)
  have hle := Finset.card_filter_le s.keys.toFinset fun id => level rank "root" < level rank id
  refine hle.trans ((List.toFinset_card_le _).trans ?_)
  rw [Std.ExtTreeMap.length_keys]

def order (s : Rga) : List String := Lib.walk s.kids (s.size + 1) "root"

theorem Grown.mem_order (h : Grown rank s) : id ∈ s.order ↔ id ∈ s := by
  rw [order, mem_walk (h.ends (Nat.lt_succ_self _))]
  constructor
  · intro hbelow
    obtain ⟨a, -, hid⟩ := Relation.TransGen.tail'_iff.mp hbelow
    obtain ⟨x, hx, -⟩ := mem_kids.mp hid
    exact StringMap.mem_iff.mpr ⟨_, hx⟩
  · -- by the order of growth: what an element stands under is listed already
    induction hn : rank id using Nat.strong_induction_on generalizing id with
    | _ n ih =>
      intro hmem
      obtain ⟨x, hx⟩ := StringMap.mem_iff.mp hmem
      have hkid : id ∈ s.kids x.after := mem_kids.mpr ⟨x, hx, rfl⟩
      rcases h.parent id x hx with hparent | ⟨hparent, hlt⟩
      · exact Relation.TransGen.single (hparent ▸ hkid)
      · exact (ih _ (hn ▸ hlt) rfl hparent).tail hkid

theorem Grown.nodup_order (h : Grown rank s) : s.order.Nodup := by
  refine nodup_walk (nodup_kids s) parent_unique (fun hbelow => ?_) (h.ends (Nat.lt_succ_self _))
  exact absurd (h.level_lt_of_below hbelow) (Nat.lt_irrefl _)

/-- Is the element the root, or in the state? -/
def holds (s : Rga) (id : String) : Bool := decide (id = "root" ∨ id ∈ s)

/-- **A part of a tree shows its elements in the order of the tree.** -/
theorem text_of_part (hs : Grown rank s) (ht : Grown rank t)
    (hpart : ∀ (id : String) x, s[id]? = some x → ∃ y, t[id]? = some y ∧ y.after = x.after) :
    s.text = some (s.render t.order) := by
  have hkids : ∀ a, s.kids a = (t.kids a).filter s.holds := by
    intro a
    refine kids_eq ((sorted_kids t a).filter _) ((nodup_kids t a).filter _) fun id => ?_
    rw [List.mem_filter, mem_kids, mem_kids, holds, decide_eq_true_iff]
    constructor
    · rintro ⟨x, hx, rfl⟩
      obtain ⟨y, hy, hafter⟩ := hpart id x hx
      exact ⟨⟨y, hy, hafter⟩, .inr (StringMap.mem_iff.mpr ⟨_, hx⟩)⟩
    · rintro ⟨⟨y, hy, rfl⟩, hid⟩
      have hmem := hid.resolve_left (ht.named id y hy)
      obtain ⟨x, hx⟩ := StringMap.mem_iff.mp hmem
      obtain ⟨z, hz, hafter⟩ := hpart id x hx
      obtain rfl := Option.mem_unique hz hy
      exact ⟨x, hx, hafter.symm⟩
  have hclosed : ∀ a, s.holds a = false → ∀ k ∈ t.kids a, s.holds k = false := by
    intro a ha k hk
    by_contra hkeep
    have hmem : k ∈ s.kids a := by
      rw [hkids]
      exact List.mem_filter.mpr ⟨hk, Bool.eq_true_of_not_eq_false hkeep⟩
    obtain ⟨x, hx, rfl⟩ := mem_kids.mp hmem
    refine Bool.false_ne_true (ha.symm.trans (decide_eq_true ?_))
    exact (hs.parent k x hx).imp id And.left
  have hends := hs.ends (Nat.lt_succ_self s.size)
  have hmore := walk_of_ends hends (Nat.le_add_right (s.size + 1) (t.size + 1))
  have hmore' := walk_of_ends (ht.ends (Nat.lt_succ_self t.size)) (Nat.le_add_left (t.size + 1) (s.size + 1))
  rw [text, walk_eq hends, String.empty_append, ← hmore, walk_filter hkids hclosed, hmore']
  refine congrArg some ?_
  unfold render order
  rw [List.filter_filter]
  refine congrArg (fun l => String.join (List.map s.chAt l)) (List.filter_congr fun id _ => ?_)
  cases hlive : s.live id with
  | false => rfl
  | true =>
    refine (Bool.true_and _).trans (decide_eq_true (.inr ?_))
    unfold live at hlive
    cases hid : s[id]? with
    | none => rw [hid] at hlive; cases hlive
    | some x => exact StringMap.mem_iff.mpr ⟨_, hid⟩

/-! ## Any state -/

/-- `walk`, with the ids of what it writes. -/
def written (s : Rga) : Nat → String → List String → Option (List String)
  | 0, _, _ => none
  | levels + 1, parent, out =>
    (s.kids parent).foldlM (fun out id =>
      match s[id]? with
      | some e => written s levels id (if e.deleted then out else out ++ [id])
      | none => some out) out

theorem walk_written (s : Rga) (n : Nat) (parent : String) (ids : List String) :
    s.walk n parent (String.join (ids.map s.chAt)) =
      (s.written n parent ids).map fun ids => String.join (ids.map s.chAt) := by
  induction n generalizing parent ids with
  | zero => rfl
  | succ n ih =>
    unfold walk written
    refine foldlM_map_of (g := fun ids : List String => String.join (ids.map s.chAt)) (fun ids id hid => ?_) ids
    obtain ⟨x, hx, -⟩ := mem_kids.mp hid
    rw [hx]
    dsimp only
    rw [← ih]
    have hch : s.chAt id = x.ch := by rw [chAt, hx]
    cases x.deleted with
    | true => rfl
    | false => simp [String.join_append, hch]

theorem written_eq {n : Nat} (h : Ends s.kids n parent) (ids : List String) :
    s.written n parent ids = some (ids ++ (Lib.walk s.kids n parent).filter s.live) := by
  induction n generalizing parent ids with
  | zero => exact absurd h not_false
  | succ n ih =>
    have hlist : ∀ l : List String, (∀ k ∈ l, k ∈ s.kids parent) → ∀ ids,
        l.foldlM (fun out id =>
          match s[id]? with
          | some e => written s n id (if e.deleted then out else out ++ [id])
          | none => some out) ids =
        some (ids ++ (l.flatMap fun k => k :: Lib.walk s.kids n k).filter s.live) := by
      intro l
      induction l with
      | nil => exact fun _ ids => congrArg some (List.append_nil ids).symm
      | cons k l ihl =>
        intro hl ids
        have hk := hl k List.mem_cons_self
        obtain ⟨x, hx, -⟩ := mem_kids.mp hk
        have hlive : s.live k = !x.deleted := by rw [live, hx]
        rw [List.foldlM_cons, hx]
        show (written s n k (if x.deleted then ids else ids ++ [k])).bind _ = _
        rw [ih (h k hk), Option.bind_some, ihl fun k' hk' => hl k' (List.mem_cons_of_mem k hk'),
          List.flatMap_cons, List.filter_append, List.filter_cons, hlive]
        cases x.deleted <;> simp
    exact hlist _ (fun k hk => hk) ids

theorem ends_of_walk {n : Nat} {out text : String} (h : s.walk n parent out = some text) : Ends s.kids n parent := by
  induction n generalizing parent out text with
  | zero => exact nomatch h
  | succ n ih =>
    intro k hk
    obtain ⟨out', text', hstep⟩ := foldlM_step h k hk
    obtain ⟨x, hx, -⟩ := mem_kids.mp hk
    rw [hx] at hstep
    exact ih hstep

def Anchored (s : Rga) (id after : String) : Prop := ∃ e, s[id]? = some e ∧ e.after = after

/-- The walk ends, at some level, and it writes no element twice. -/
def ReadsOnce (s : Rga) : Prop :=
  ∃ levels ids, s.written levels "root" [] = some ids ∧ ids.Nodup ∧
    s.walk levels "root" "" = some (String.join (ids.map s.chAt))

/-- **When a state can be read**: the anchors do not lead from `root` back to it. -/
theorem readsOnce_iff (s : Rga) : s.ReadsOnce ↔ ¬ Relation.TransGen s.Anchored "root" "root" := by
  have hanchored : Relation.TransGen s.Anchored "root" "root" ↔
      Relation.TransGen (fun a k => k ∈ s.kids a) "root" "root" := by
    have hswap : s.Anchored = Function.swap fun a k => k ∈ s.kids a := by
      funext id after
      exact propext mem_kids.symm
    rw [hswap, Relation.transGen_swap]
  have hnodes : ∀ a, ∀ k ∈ s.kids a, k ∈ s.keys.toFinset := fun a k hk => by
    obtain ⟨x, hx, -⟩ := mem_kids.mp hk
    exact List.mem_toFinset.mpr (StringMap.mem_keys.mpr ⟨x, hx⟩)
  rw [hanchored, ← ends_iff parent_unique hnodes]
  constructor
  · rintro ⟨levels, ids, -, -, hwalk⟩
    exact ⟨levels, ends_of_walk hwalk⟩
  · rintro ⟨levels, hends⟩
    have hself := fun hself => not_ends_of_below hself levels hends
    refine ⟨levels, _, written_eq hends [], ?_, ?_⟩
    · exact (nodup_walk (nodup_kids s) parent_unique hself hends).filter _
    · have hwalk := walk_written s levels "root" []
      rwa [written_eq hends] at hwalk

section variable [Host]

/-- What `insert` makes of the elements. -/
def writeInsert (s : Rga) (args : List String) : Rga :=
  match word args 0, word args 1, word args 2, word args 3 with
  | .ok _, .ok after, .ok id, .ok ch =>
    if id = "root" ∨ id ∈ s ∨ (after ≠ "root" ∧ after ∉ s) then s else s.insert id ⟨ch, after, false⟩
  | _, _, _, _ => s

/-- What `delete` makes of them. -/
def writeDelete (s : Rga) (args : List String) : Rga :=
  match word args 0, word args 1 with
  | .ok _, .ok id =>
    match s[id]? with
    | some e => s.insert id { e with deleted := true }
    | none => s
  | _, _ => s

/-- What `merge` makes of them. -/
def writeMerge (s : Rga) (args : List String) : Rga :=
  match (mergedBy args).bind elemsOf with
  | some elems => takeAll elems s
  | none => s

/-- What a command makes of the elements, whether they can be read after it or not. -/
def write (s : Rga) (l : Line) : Rga :=
  match l.command with
  | "insert" => s.writeInsert l.args
  | "delete" => s.writeDelete l.args
  | "merge" => s.writeMerge l.args
  | _ => s

/-- The command answers with the text of `t`, or refuses where `t` is what there was. -/
def Answers (s : Rga) (r : Handled Rga) (t : Rga) : Prop := r = answer t ∨ t = s ∧ ∃ v, r = some (s, v)

omit [Host] in
theorem Answers.refused (s : Rga) (v : Value) : Answers s (some (s, v)) s := .inr ⟨rfl, v, rfl⟩

theorem insert_answers (s : Rga) (args : List String) : Answers s (step s "insert" args) (s.writeInsert args) := by
  show Answers s (arg s (word args 0) fun _ => arg s (word args 1) fun after => arg s (word args 2) fun id =>
    arg s (word args 3) fun ch => s.insertElem after id ch) _
  unfold writeInsert
  cases word args 0 with
  | error v => exact .refused s v
  | ok name =>
  cases word args 1 with
  | error v => exact .refused s v
  | ok after =>
  cases word args 2 with
  | error v => exact .refused s v
  | ok id =>
  cases word args 3 with
  | error v => exact .refused s v
  | ok ch =>
    simp only [arg_ok, insertElem]
    by_cases hroot : id = "root"
    · rw [if_pos hroot, if_pos (.inl hroot)]
      exact .refused s _
    by_cases hthere : id ∈ s
    · rw [if_neg hroot, if_pos hthere, if_pos (.inr (.inl hthere))]
      exact .refused s _
    by_cases hanchor : after ≠ "root" ∧ after ∉ s
    · rw [if_neg hroot, if_neg hthere, if_pos hanchor, if_pos (.inr (.inr hanchor))]
      exact .refused s _
    · rw [if_neg hroot, if_neg hthere, if_neg hanchor, if_neg (by simp_all)]
      exact .inl rfl

theorem delete_answers (s : Rga) (args : List String) : Answers s (step s "delete" args) (s.writeDelete args) := by
  show Answers s (arg s (word args 0) fun _ => arg s (word args 1) fun id => s.delete id) _
  unfold writeDelete
  cases word args 0 with
  | error v => exact .refused s v
  | ok name =>
  cases word args 1 with
  | error v => exact .refused s v
  | ok id =>
    simp only [arg_ok, delete]
    cases s[id]? with
    | some e => exact .inl rfl
    | none => exact .refused s _

theorem merge_answers (s : Rga) (args : List String) : Answers s (step s "merge" args) (s.writeMerge args) := by
  show Answers s (arg s (word args 0) fun _ => arg s (jsonArg args 1) fun incoming => s.merge incoming) _
  unfold writeMerge mergedBy
  cases word args 0 with
  | error v => exact .refused s v
  | ok name =>
  cases jsonArg args 1 with
  | error v => exact .refused s v
  | ok incoming =>
    simp only [arg_ok, merge, Option.bind_some]
    cases elemsOf incoming with
    | some elems => exact .inl rfl
    | none => exact .refused s _

/-- **What is written**: a command answers with the text of it, or refuses and writes nothing. -/
theorem step_answers (s : Rga) (l : Line) : Answers s (onLine step s l) (s.write l) := by
  unfold onLine write
  split
  · rename_i h
    exact h ▸ insert_answers s l.args
  · rename_i h
    exact h ▸ delete_answers s l.args
  · rename_i h
    exact h ▸ merge_answers s l.args
  · unfold step
    split
    · contradiction
    · contradiction
    · cases word l.args 0 with
      | error v => exact .refused s v
      | ok name => exact .inl rfl
    · unfold shareState
      cases word l.args 0 with
      | error v => exact .refused s v
      | ok name => exact .refused s _
    · contradiction
    · exact .refused s _

omit [Host] in
theorem mem_takeAll {elems : List (String × Value)} : id ∈ takeAll elems s ↔ id ∈ s ∨ id ∈ elems.map Prod.fst := by
  induction elems generalizing s with
  | nil => simp [takeAll]
  | cons e elems ih =>
    have htake : id ∈ s.take e.1 (elemOf e.2) ↔ id ∈ s ∨ id = e.1 := by
      unfold take
      split
      · rw [Std.ExtTreeMap.mem_insert, Std.compare_eq_iff_eq, or_comm, eq_comm]
      · rw [Std.ExtTreeMap.mem_insert, Std.compare_eq_iff_eq, or_comm, eq_comm]
    rw [takeAll, ih, htake, List.map_cons, List.mem_cons, or_assoc]

def NamesRoot (l : Line) : Prop := ∃ elems, (mergedIn l).bind elemsOf = some elems ∧ "root" ∈ elems.map Prod.fst

theorem write_names (l : Line) (hl : ¬ NamesRoot l) (hs : "root" ∉ s) : "root" ∉ s.write l := by
  unfold write
  split
  · unfold writeInsert
    split
    · split
      · exact hs
      · rename_i hfree
        simp only [Std.ExtTreeMap.mem_insert, Std.compare_eq_iff_eq, not_or]
        exact ⟨fun h => hfree (.inl h), hs⟩
    · exact hs
  · unfold writeDelete
    split
    · split
      · rename_i hid
        simp only [Std.ExtTreeMap.mem_insert, Std.compare_eq_iff_eq, not_or]
        exact ⟨fun h => hs (h ▸ StringMap.mem_iff.mpr ⟨_, hid⟩), hs⟩
      · exact hs
    · exact hs
  · rename_i hmerge
    unfold writeMerge
    split
    · rename_i elems helems
      refine fun hroot => (mem_takeAll.mp hroot).elim hs fun hnamed => hl ⟨elems, ?_, hnamed⟩
      rw [mergedIn, hmerge]
      exact helems
    · exact hs
  · exact hs

/-- **When reading a sequence ends**: in any state that lines lead to, exactly when the anchors do not lead from an
element `root` back to it. Where no line merges an element of that name, there is none. -/
theorem reading_ends_iff (ls : List Line) :
    ((ls.foldl write ∅).ReadsOnce ↔ ¬ Relation.TransGen (ls.foldl write ∅).Anchored "root" "root") ∧
    ((∀ l ∈ ls, ¬ NamesRoot l) → (ls.foldl write ∅).ReadsOnce) := by
  refine ⟨readsOnce_iff _, fun hls => (readsOnce_iff _).mpr fun hcycle => ?_⟩
  have hnone : "root" ∉ ls.foldl write ∅ :=
    List.foldlRecOn (motive := fun s : Rga => "root" ∉ s) ls write Std.ExtTreeMap.not_mem_empty
      fun s hs l hl => write_names l (hls l hl) hs
  obtain ⟨after, ⟨e, he, -⟩, -⟩ := Relation.TransGen.head'_iff.mp hcycle
  exact hnone (StringMap.mem_iff.mpr ⟨e, he⟩)

end

/-! An element that is named `root` and anchored to `root`. -/

@[reducible] def ownAnchor : Host :=
  hostOf [("\x7b\"e\":\x7b\"root\":\x7b\"a\":\"root\",\"c\":\"x\"\x7d\x7d\x7d",
    .obj [("e", .obj [("root", .obj [("a", .str "root"), ("c", .str "x")])])])]

def mergeOwnAnchor : List Line :=
  [⟨"merge", ["a", "\x7b\"e\":\x7b\"root\":\x7b\"a\":\"root\",\"c\":\"x\"\x7d\x7d\x7d"]⟩]

/-- The walk never ends. -/
theorem own_anchor_unreadable : ¬ (mergeOwnAnchor.foldl (@write ownAnchor) ∅).ReadsOnce := by
  have hwrite : mergeOwnAnchor.foldl (@write ownAnchor) ∅ = (∅ : Rga).insert "root" ⟨"x", "root", false⟩ := rfl
  rw [hwrite, readsOnce_iff, not_not]
  exact .single ⟨_, StringMap.get_insert_self _ _ _, rfl⟩

end BuildYourOwn.Crdt.Rga
