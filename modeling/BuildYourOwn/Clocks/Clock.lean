import Mathlib.Algebra.Order.Group.Int
import BuildYourOwn.Topic.Command
import BuildYourOwn.Topic.Map

/-!
# Vectors of counters, and `vector-clock`

Model of `Clock` and its helpers (`clock_json`, `clock_arg`, `merge_into`, `relation`) and of
`VectorClocks` in `disttest/examples/prim/clocks.rs`.

* A clock is a map from names to counts, and an absent name counts as zero (`Clock.count`).
* `relation` goes over the keys of both clocks; `Clock.Le` is the order that it decides.
* An increment panics when the count leaves `i64`.
-/

namespace BuildYourOwn.Clocks

open Topic

/-- `Clock`: `BTreeMap<String, i64>`. -/
abbrev Clock := StringMap Int

/-- The words of `relation`. -/
inductive Rel
  | equal
  | before
  | after
  | concurrent
  deriving DecidableEq

def Rel.text : Rel → String
  | equal => "equal"
  | before => "before"
  | after => "after"
  | concurrent => "concurrent"

namespace Clock

def count (c : Clock) (name : String) : Int := c.getD name 0

/-- `clock_json`. -/
def json (c : Clock) : Value := .obj (c.toList.map fun e => (e.1, .num e.2))

/-- The loop of `clock_arg` over the fields of an object. -/
def readFields : List (String × Value) → Clock → Except Value Clock
  | [], out => .ok out
  | (name, v) :: fields, out =>
    match v.asI64 with
    | some n => readFields fields (out.insert name n)
    | none => .error (err (name ++ " does not hold a whole number"))

/-- `clock_arg(args, i)`. -/
def clockArg [Host] (args : List String) (i : Nat) : Except Value Clock :=
  match jsonArg args i with
  | .error e => .error e
  | .ok (.obj fields) => readFields fields ∅
  | .ok _ => .error (err ("argument " ++ toString i ++ " is not a clock object"))

/-- One entry of `merge_into`. -/
def mergeEntry (into : Clock) (e : String × Int) : Clock :=
  into.insert e.1 (max (into.count e.1) e.2)

/-- `merge_into`: the componentwise maximum. -/
def mergeInto (into other : Clock) : Clock := other.toList.foldl mergeEntry into

/-- `*c.entry(p).or_insert(0) += 1`. -/
def bump (c : Clock) (p : String) : Option Clock := (addI64 (c.count p) 1).map fun n => c.insert p n

/-- The two flags of `relation`: no name counts more in `a` than in `b`. -/
def within (names : List String) (a b : Clock) : Bool :=
  names.all fun name => decide (a.count name ≤ b.count name)

def relation (a b : Clock) : Rel :=
  match within (a.keys ++ b.keys) a b, within (a.keys ++ b.keys) b a with
  | true, true => .equal
  | true, false => .before
  | false, true => .after
  | false, false => .concurrent

/-! ## The order of clocks -/

/-- Everything `a` counts, `b` counts too. -/
def Le (a b : Clock) : Prop := ∀ name, a.count name ≤ b.count name

variable {a b c : Clock} {name p : String} {n : Int}

theorem Le.refl (a : Clock) : Le a a := fun _ => Int.le_refl _

theorem Le.trans (hab : Le a b) (hbc : Le b c) : Le a c := fun name => (hab name).trans (hbc name)

theorem count_eq : a.count name = a[name]?.getD 0 :=
  Std.ExtTreeMap.getD_eq_getD_getElem?

@[simp] theorem count_empty : count ∅ name = 0 := Std.ExtTreeMap.getD_empty

theorem count_insert : count (a.insert p n) name = if p = name then n else a.count name :=
  StringMap.getD_insert _ _ _ _ _

theorem within_iff {names : List String} (hnames : ∀ name, name ∉ names → a[name]? = none ∧ b[name]? = none) :
    within names a b = true ↔ Le a b := by
  unfold within
  rw [List.all_eq_true]
  constructor
  · intro h name
    by_cases hmem : name ∈ names
    · exact of_decide_eq_true (h name hmem)
    · obtain ⟨ha, hb⟩ := hnames name hmem
      rw [count_eq, count_eq, ha, hb]
  · exact fun h name _ => decide_eq_true (h name)

theorem not_mem_keys (h : name ∉ a.keys ++ b.keys) : a[name]? = none ∧ b[name]? = none := by
  rw [List.mem_append, not_or, StringMap.mem_keys, StringMap.mem_keys, not_exists, not_exists] at h
  exact ⟨Option.eq_none_iff_forall_ne_some.mpr h.1, Option.eq_none_iff_forall_ne_some.mpr h.2⟩

/-- **`relation` decides the order.** -/
theorem relation_spec (a b : Clock) :
    (relation a b = .equal ↔ Le a b ∧ Le b a) ∧ (relation a b = .before ↔ Le a b ∧ ¬ Le b a) ∧
    (relation a b = .after ↔ ¬ Le a b ∧ Le b a) ∧ (relation a b = .concurrent ↔ ¬ Le a b ∧ ¬ Le b a) := by
  rw [← within_iff fun _ h => not_mem_keys h,
    ← within_iff (a := b) fun _ h => (not_mem_keys (a := a) (b := b) h).symm]
  unfold relation
  cases within (a.keys ++ b.keys) a b <;> cases within (a.keys ++ b.keys) b a <;> simp

theorem relation_eq_before : relation a b = .before ↔ Le a b ∧ ¬ Le b a := (relation_spec a b).2.1

/-! ## Merging -/

theorem count_foldl_of_not_mem {l : List (String × Int)} (h : name ∉ l.map Prod.fst) :
    (l.foldl mergeEntry a).count name = a.count name := by
  induction l generalizing a with
  | nil => rfl
  | cons e l ih =>
    rw [List.map_cons, List.mem_cons, not_or] at h
    rw [List.foldl_cons, ih h.2, mergeEntry, count_insert, if_neg (Ne.symm h.1)]

theorem count_foldl_of_mem {l : List (String × Int)} (hnodup : (l.map Prod.fst).Nodup)
    (h : (name, n) ∈ l) : (l.foldl mergeEntry a).count name = max (a.count name) n := by
  induction l generalizing a with
  | nil => cases h
  | cons e l ih =>
    rw [List.map_cons, List.nodup_cons] at hnodup
    rw [List.foldl_cons]
    rcases List.mem_cons.mp h with rfl | h
    · rw [count_foldl_of_not_mem hnodup.1, mergeEntry, count_insert, if_pos rfl]
    · have hne : e.1 ≠ name := fun he => hnodup.1 (he ▸ List.mem_map_of_mem h)
      rw [ih hnodup.2 h, mergeEntry, count_insert, if_neg hne]

theorem nodup_names (b : Clock) : (b.toList.map Prod.fst).Nodup := by
  rw [Std.ExtTreeMap.map_fst_toList_eq_keys]
  exact Std.ExtTreeMap.nodup_keys

theorem count_merge (ha : 0 ≤ a.count name) : (mergeInto a b).count name = max (a.count name) (b.count name) := by
  unfold mergeInto
  cases hb : b[name]? with
  | some n =>
    rw [count_foldl_of_mem (nodup_names b) (StringMap.mem_toList.mpr hb), count_eq (a := b), hb,
      Option.getD_some]
  | none =>
    have hnot : name ∉ b.toList.map Prod.fst := by
      rw [Std.ExtTreeMap.map_fst_toList_eq_keys, StringMap.mem_keys, hb]
      simp
    rw [count_foldl_of_not_mem hnot, count_eq (a := b), hb, Option.getD_none, max_eq_left ha]

theorem bump_eq_some (h : bump a p = some b) : b = a.insert p (a.count p + 1) := by
  unfold bump at h
  obtain ⟨n, hn, rfl⟩ := Option.map_eq_some_iff.mp h
  rw [(addI64_eq_some.mp hn).2]

theorem count_bump (h : bump a p = some b) : b.count name = if name = p then a.count name + 1 else a.count name := by
  rw [bump_eq_some h, count_insert]
  by_cases hp : p = name
  · rw [if_pos hp, if_pos hp.symm, hp]
  · rw [if_neg hp, if_neg (Ne.symm hp)]

/-! ## Through JSON -/

theorem readFields_error {fields : List (String × Value)} {out : Clock} {v : Value}
    (h : readFields fields out = .error v) : ∃ message, v = err message := by
  induction fields generalizing out with
  | nil => simp [readFields] at h
  | cons e fields ih =>
    unfold readFields at h
    split at h
    · exact ih h
    · exact ⟨_, (Except.error.inj h).symm⟩

theorem clockArg_error [Host] {args : List String} {i : Nat} {v : Value}
    (h : clockArg args i = .error v) : ∃ message, v = err message := by
  unfold clockArg at h
  split at h
  · rename_i hjson
    obtain rfl := Except.error.inj h
    exact jsonArg_error hjson
  · exact readFields_error h
  · exact ⟨_, (Except.error.inj h).symm⟩

theorem json_injective (h : json a = json b) : a = b := by
  unfold json at h
  rw [Value.obj.injEq] at h
  have hinj : Function.Injective fun e : String × Int => (e.1, Value.num e.2) := by
    rintro ⟨x, m⟩ ⟨y, n⟩ hxy
    rw [Prod.mk.injEq, Value.num.injEq] at hxy
    exact Prod.ext hxy.1 hxy.2
  exact Std.ExtTreeMap.toList_inj.mp (hinj.list_map h)

end Clock

/-- `VectorClocks`: one clock a process. -/
abbrev VectorClocks := StringMap Clock

namespace VectorClocks

open Clock

def clock (s : VectorClocks) (p : String) : Clock := s.getD p ∅

def answer (c : Clock) : Value := .obj [("vc", c.json)]

/-- The end of an event at `p`: its own entry in `base` goes up, and the answer is the clock. -/
def stamp (s : VectorClocks) (p : String) (base : Clock) : Handled VectorClocks :=
  (base.bump p).map fun vc => (s.insert p vc, answer vc)

def tick (s : VectorClocks) (p : String) : Handled VectorClocks := s.stamp p (s.clock p)

def step [Host] (s : VectorClocks) (command : String) (args : List String) : Handled VectorClocks :=
  match command with
  | "local" => arg s (word args 0) s.tick
  | "send" => arg s (word args 0) s.tick
  | "recv" => arg s (word args 0) fun p => arg s (clockArg args 1) fun msg =>
    s.stamp p (mergeInto (s.clock p) msg)
  | "get" => arg s (word args 0) fun p => some (s.insert p (s.clock p), answer (s.clock p))
  | "cmp" => arg s (clockArg args 0) fun a => arg s (clockArg args 1) fun b =>
    some (s, .obj [("rel", .str (relation a b).text)])
  | other => some (s, err ("unknown command " ++ debugStr other))

theorem clock_insert {s : VectorClocks} {p q : String} {c : Clock} :
    clock (s.insert p c) q = if p = q then c else s.clock q :=
  StringMap.getD_insert _ _ _ _ _

end VectorClocks

end BuildYourOwn.Clocks
