import BuildYourOwn.Lib.Circle
import BuildYourOwn.Lib.Utf8
import BuildYourOwn.Topic.Command
import BuildYourOwn.Topic.Map

/-!
# `consistent-hash`

Model of `hash` and of `Ring` in `disttest/examples/prim/placement.rs`: every node puts its points on a circle
of positions, and a key belongs to the node of the first point clockwise of it.

* The points depend on the nodes and their counts alone (`mem_points`, `Built`), in whatever order these were added.
* The owner of a key is the node of the least point, counted round from the key (`locate_point`), positions
  that are the same in the order of the names. So a point that was the first and is still there is still the
  first (`located_of_mem`).
-/

namespace BuildYourOwn.Placement

open Lib Topic

def fnvByte (h : UInt64) (b : UInt8) : UInt64 := (h ^^^ b.toUInt64) * 0x00000100000001b3

/-- `hash`: FNV-1a over the bytes, then a splitmix64 finalising mix. -/
def hash (s : String) : UInt64 :=
  let h := (asBytes s).foldl fnvByte 0xcbf29ce484222325
  let h := (h ^^^ (h >>> 30)) * 0xbf58476d1ce4e5b9
  let h := (h ^^^ (h >>> 27)) * 0x94d049bb133111eb
  h ^^^ (h >>> 31)

def defaultVnodes : Int := 128

abbrev Point := UInt64 × String

def Point.Le (a b : Point) : Prop := a.1 < b.1 ∨ a.1 = b.1 ∧ a.2 ≤ b.2

instance : DecidableRel Point.Le := fun a b => inferInstanceAs (Decidable (a.1 < b.1 ∨ a.1 = b.1 ∧ a.2 ≤ b.2))

structure Ring where
  nodes : StringMap Int
  ring : List Point

namespace Ring

/-- `Ring::default()`. -/
def default : Ring := ⟨∅, []⟩

def position (node : String) (i : Nat) : UInt64 := hash (node ++ "#" ++ toString i)

/-- The points that `rebuild` pushes. -/
def points (nodes : StringMap Int) : List Point :=
  nodes.toList.flatMap fun e => (List.range e.2.toNat).map fun i => (position e.1 i, e.1)

def rebuild (s : Ring) : Ring := { s with ring := (points s.nodes).insertionSort Point.Le }

/-- `locate(key)`. `partition_point` counts the points that are before the hash. -/
def locate (s : Ring) (key : String) : Option String :=
  if s.ring.isEmpty then none
  else
    let at_ := (s.ring.takeWhile fun p => p.1 < hash key).length
    ((s.ring[at_]?).or s.ring.head?).map Prod.snd

/-- `stats`, one key. -/
def tally (s : Ring) (counts : StringMap Int) (i : Nat) : Option (StringMap Int) :=
  (s.locate ("key" ++ toString i)).map fun node => counts.insert node (counts.getD node 0 + 1)

/-- `stats`, the answer. -/
def stats (s : Ring) (count : Nat) : Value :=
  let counts := s.nodes.keys.foldl (fun m n => m.insert n 0) (∅ : StringMap Int)
  match (List.range count).foldlM s.tally counts with
  | some counts => .obj [("nodes", .obj (counts.toList.map fun e => (e.1, .num e.2)))]
  | none => err "the ring is empty"

def step (s : Ring) (command : String) (args : List String) : Handled Ring :=
  match command with
  | "add" => arg s (word args 0) fun node =>
    arg s (if args[1]?.isSome then int args 1 else .ok defaultVnodes) fun vnodes =>
      if vnodes < 1 then some (s, err "a node needs at least one point on the ring")
      else
        let s := rebuild { s with nodes := s.nodes.insert node vnodes }
        some (s, .obj [("nodes", .num s.nodes.size), ("vnodes", .num s.ring.length)])
  | "remove" => arg s (word args 0) fun node =>
    if (s.nodes[node]?).isNone then some (s, err ("no such node: " ++ node))
    else
      let s := rebuild { s with nodes := s.nodes.erase node }
      some (s, .obj [("nodes", .num s.nodes.size)])
  | "locate" => arg s (word args 0) fun key =>
    match s.locate key with
    | some node => some (s, .obj [("node", .str node)])
    | none => some (s, err "the ring is empty")
  | "stats" => arg s (int args 0) fun count =>
    if count < 0 then some (s, err "a sample size cannot be negative")
    else if s.ring.isEmpty then some (s, err "the ring is empty")
    else some (s, s.stats count.toNat)
  | other => some (s, err ("unknown command: " ++ other))

end Ring

/-! ## The order of points -/

namespace Point

variable {a b c : Point}

theorem Le.refl (a : Point) : Le a a := .inr ⟨rfl, String.le_refl a.2⟩

theorem Le.trans (h : Le a b) (h' : Le b c) : Le a c := by
  rcases h with h | ⟨h, hname⟩
  · rcases h' with h' | ⟨h', -⟩
    · exact .inl (UInt64.lt_trans h h')
    · exact .inl (h' ▸ h)
  · rcases h' with h' | ⟨h', hname'⟩
    · exact .inl (h ▸ h')
    · exact .inr ⟨h.trans h', String.le_trans hname hname'⟩

theorem Le.antisymm (a b : Point) (h : Le a b) (h' : Le b a) : a = b := by
  rcases h with h | ⟨h, hname⟩
  · rcases h' with h' | ⟨h', -⟩
    · exact absurd (UInt64.lt_trans h h') (UInt64.lt_irrefl _)
    · exact absurd (h' ▸ h) (UInt64.lt_irrefl _)
  · rcases h' with h' | ⟨-, hname'⟩
    · exact absurd (h ▸ h') (UInt64.lt_irrefl _)
    · exact Prod.ext h (String.le_antisymm hname hname')

theorem Le.total (a b : Point) : Le a b ∨ Le b a := by
  rcases Nat.lt_trichotomy a.1.toNat b.1.toNat with h | h | h
  · exact .inl (.inl (UInt64.lt_iff_toNat_lt.mpr h))
  · have hpos : a.1 = b.1 := UInt64.toNat_inj.mp h
    exact (String.le_total a.2 b.2).imp (fun hname => .inr ⟨hpos, hname⟩) fun hname => .inr ⟨hpos.symm, hname⟩
  · exact .inr (.inl (UInt64.lt_iff_toNat_lt.mpr h))

instance : Std.Total Le := ⟨Le.total⟩

instance : IsTrans Point Le := ⟨fun _ _ _ => Le.trans⟩

end Point

/-! ## Owners -/

namespace Ring

variable {s s' : Ring} {nodes nodes' : StringMap Int} {node key : String} {p : Point} {count : Int}

def Built (s : Ring) : Prop := s.ring = (points s.nodes).insertionSort Point.Le

theorem built_default : Built default := rfl

theorem built_rebuild (s : Ring) : Built s.rebuild := rfl

theorem mem_points : p ∈ points nodes ↔ ∃ count, nodes[p.2]? = some count ∧ ∃ i < count.toNat, position p.2 i = p.1 := by
  unfold points
  rw [List.mem_flatMap]
  constructor
  · rintro ⟨⟨node, count⟩, he, hp⟩
    obtain ⟨i, hi, rfl⟩ := List.mem_map.mp hp
    exact ⟨count, StringMap.mem_toList.mp he, i, List.mem_range.mp hi, rfl⟩
  · rintro ⟨count, hcount, i, hi, hp⟩
    exact ⟨(p.2, count), StringMap.mem_toList.mpr hcount, List.mem_map.mpr ⟨i, List.mem_range.mpr hi, Prod.ext hp rfl⟩⟩

theorem mem_points_congr (h : nodes[p.2]? = nodes'[p.2]?) : p ∈ points nodes ↔ p ∈ points nodes' := by
  rw [mem_points, mem_points, h]

def first (s : Ring) (key : String) : Option Point := firstFrom (fun p => p.1 < hash key) s.ring

theorem locate_eq (s : Ring) (key : String) : s.locate key = (s.first key).map Prod.snd := by
  unfold locate first
  cases hring : s.ring with
  | nil => rfl
  | cons p ring => rfl

theorem first_mem (hs : Built s) (h : s.first key = some p) : p ∈ points s.nodes := by
  have hp := (firstFrom_least Point.Le.refl (fun a b hle hb => ?_) (hs ▸ List.pairwise_insertionSort _ _) h).1
  · rw [hs] at hp
    exact (List.mem_insertionSort _).mp hp
  · rcases hle with hlt | ⟨heq, -⟩
    · exact UInt64.lt_trans hlt hb
    · exact heq ▸ hb

theorem first_of_mem (hs : Built s) (hs' : Built s') (hsub : ∀ q ∈ points s.nodes, q ∈ points s'.nodes)
    (h : s'.first key = some p) (hp : p ∈ points s.nodes) : s.first key = some p := by
  unfold Built at hs hs'
  refine firstFrom_of_mem Point.Le.refl Point.Le.antisymm (fun a b hle hb => ?_)
    (hs ▸ List.pairwise_insertionSort _ _) (hs' ▸ List.pairwise_insertionSort _ _) (fun q hq => ?_) h ?_
  · rcases hle with hlt | ⟨heq, -⟩
    · exact UInt64.lt_trans hlt hb
    · exact heq ▸ hb
  · rw [hs, List.mem_insertionSort] at hq
    rw [hs', List.mem_insertionSort]
    exact hsub q hq
  · rw [hs, List.mem_insertionSort]
    exact hp

theorem first_eq_none (hs : Built s) : s.first key = none ↔ points s.nodes = [] := by
  unfold first
  rw [firstFrom_eq_none, hs]
  exact ⟨fun h => List.perm_nil.mp (h ▸ (List.perm_insertionSort _ _).symm), fun h => by rw [h]; rfl⟩

/-- **What a larger ring changes**: a key whose owner there is in both rings is that node's in both, when the nodes
of the smaller are nodes of the larger with as many points. -/
theorem locate_of_sub (hs : Built s) (hs' : Built s')
    (hsub : ∀ (n : String) (count : Int), s.nodes[n]? = some count → s'.nodes[n]? = some count)
    (h : s'.locate key = some node) (hnode : (s.nodes[node]?).isSome = true) : s.locate key = some node := by
  rw [locate_eq] at h ⊢
  obtain ⟨p, hp, rfl⟩ := Option.map_eq_some_iff.mp h
  obtain ⟨count, hcount⟩ := Option.isSome_iff_exists.mp hnode
  have hmem : p ∈ points s.nodes :=
    (mem_points_congr (hcount.trans (hsub _ _ hcount).symm)).mpr (first_mem hs' hp)
  rw [first_of_mem hs hs' (fun q hq => ?_) hp hmem, Option.map_some]
  obtain ⟨count, hcount, i, hi⟩ := mem_points.mp hq
  exact mem_points.mpr ⟨count, hsub _ _ hcount, i, hi⟩

theorem locate_mem (hs : Built s) (h : s.locate key = some node) : (s.nodes[node]?).isSome = true := by
  rw [locate_eq] at h
  obtain ⟨p, hp, rfl⟩ := Option.map_eq_some_iff.mp h
  obtain ⟨count, hcount, -⟩ := mem_points.mp (first_mem hs hp)
  rw [hcount]
  rfl

theorem locate_none_of_sub (hs : Built s) (hs' : Built s')
    (hsub : ∀ (n : String) (count : Int), s.nodes[n]? = some count → s'.nodes[n]? = some count)
    (h : s'.locate key = none) : s.locate key = none := by
  rw [locate_eq, Option.map_eq_none_iff, first_eq_none hs'] at h
  rw [locate_eq, Option.map_eq_none_iff, first_eq_none hs]
  refine List.eq_nil_iff_forall_not_mem.mpr fun q hq => ?_
  obtain ⟨count, hcount, i, hi⟩ := mem_points.mp hq
  exact absurd (h ▸ mem_points.mpr ⟨count, hsub _ _ hcount, i, hi⟩) List.not_mem_nil

/-! ## Runs -/

variable {args : List String} {command : String} {v : Value}

theorem step_cases (h : s.step command args = some (s', v)) : s' = s ∨
    (command = "add" ∧ ∃ node vnodes, args[0]? = some node ∧ s' = rebuild { s with nodes := s.nodes.insert node vnodes }) ∨
    (command = "remove" ∧ ∃ node, args[0]? = some node ∧ s' = rebuild { s with nodes := s.nodes.erase node }) := by
  unfold step at h
  split at h
  · rcases arg_eq_some.mp h with ⟨-, hs⟩ | ⟨node, hnode, h⟩
    · exact .inl hs
    rcases arg_eq_some.mp h with ⟨-, hs⟩ | ⟨vnodes, -, h⟩
    · exact .inl hs
    split at h
    · exact .inl (state_eq h)
    · exact .inr (.inl ⟨rfl, node, vnodes, word_eq_ok.mp hnode, (state_eq h)⟩)
  · rcases arg_eq_some.mp h with ⟨-, hs⟩ | ⟨node, hnode, h⟩
    · exact .inl hs
    split at h
    · exact .inl (state_eq h)
    · exact .inr (.inr ⟨rfl, node, word_eq_ok.mp hnode, (state_eq h)⟩)
  · rcases arg_eq_some.mp h with ⟨-, hs⟩ | ⟨key, -, h⟩
    · exact .inl hs
    split at h <;> exact .inl (state_eq h)
  · rcases arg_eq_some.mp h with ⟨-, hs⟩ | ⟨count, -, h⟩
    · exact .inl hs
    split at h
    · exact .inl (state_eq h)
    · split at h <;> exact .inl (state_eq h)
  · exact .inl (state_eq h)

theorem built_step (hs : Built s) (h : s.step command args = some (s', v)) : Built s' := by
  rcases step_cases h with rfl | ⟨-, node, vnodes, -, rfl⟩ | ⟨-, node, -, rfl⟩
  · exact hs
  · exact built_rebuild _
  · exact built_rebuild _

theorem built {es : List (Event Ring Line Value)} (hrun : Run (onLine step) default es s) : Built s :=
  hrun.invariant (G := fun _ _ => True) built_default (fun _ _ _ _ hs _ h => built_step hs h) fun _ _ => trivial

theorem add_moves (hs : Built s) (h : s.step "add" args = some (s', v)) (hnode : args[0]? = some node)
    (hnew : s.nodes[node]? = none) (key : String) : s'.locate key = s.locate key ∨ s'.locate key = some node := by
  have hs' := built_step hs h
  rcases step_cases h with rfl | ⟨-, node', vnodes, hnode', rfl⟩ | ⟨hcommand, -⟩
  · exact .inl rfl
  · obtain rfl := Option.mem_unique hnode hnode'
    have hget : ∀ n, n ≠ node → (rebuild { s with nodes := s.nodes.insert node vnodes }).nodes[n]? = s.nodes[n]? :=
      fun n hn => (StringMap.get_insert _ _ _ _).trans (if_neg (Ne.symm hn))
    have hsub : ∀ (n : String) (count : Int), s.nodes[n]? = some count →
        (rebuild { s with nodes := s.nodes.insert node vnodes }).nodes[n]? = some count := by
      intro n count hcount
      rw [hget n (by rintro rfl; exact absurd (hnew.symm.trans hcount) (by simp)), hcount]
    cases howner : (rebuild { s with nodes := s.nodes.insert node vnodes }).locate key with
    | none => exact .inl (locate_none_of_sub hs hs' hsub howner).symm
    | some n =>
      by_cases hn : n = node
      · exact .inr (congrArg some hn)
      · have hmem := locate_mem hs' howner
        rw [hget n hn] at hmem
        exact .inl (locate_of_sub hs hs' hsub howner hmem).symm
  · exact absurd hcommand (by decide)

theorem remove_moves (hs : Built s) (h : s.step "remove" args = some (s', v)) (hnode : args[0]? = some node)
    (key : String) (hkey : s.locate key ≠ some node) : s'.locate key = s.locate key := by
  have hs' := built_step hs h
  rcases step_cases h with rfl | ⟨hcommand, -⟩ | ⟨-, node', hnode', rfl⟩
  · rfl
  · exact absurd hcommand (by decide)
  · obtain rfl := Option.mem_unique hnode hnode'
    have hget : ∀ n, (rebuild { s with nodes := s.nodes.erase node }).nodes[n]? =
        if node = n then none else s.nodes[n]? := fun n => StringMap.get_erase _ _ _
    have hsub : ∀ (n : String) (count : Int),
        (rebuild { s with nodes := s.nodes.erase node }).nodes[n]? = some count → s.nodes[n]? = some count := by
      intro n count hcount
      rw [hget] at hcount
      split_ifs at hcount
      exact hcount
    cases howner : s.locate key with
    | none => exact locate_none_of_sub hs' hs hsub howner
    | some n =>
      have hn : node ≠ n := by
        rintro rfl
        exact hkey howner
      refine locate_of_sub hs' hs hsub howner ?_
      rw [hget, if_neg hn]
      exact locate_mem hs howner

end Ring

end BuildYourOwn.Placement

/-!
## `rendezvous`, and what placement moves

Model of `Rendezvous` in `disttest/examples/prim/placement.rs`: a key ranks all the nodes by a score for the
pair, and is placed at the first few. Without one node the others rank as they did (`ranked_remove`).

`placement_moves` puts this beside what the hash ring moves (`add_moves`, `remove_moves`).
-/

namespace BuildYourOwn.Placement

open Lib Topic

abbrev Rendezvous := List String

namespace Rendezvous

def score (node key : String) : UInt64 := hash (node ++ "|" ++ key)

/-- The order of `ranked`: by score, the best first, then by name. -/
def Ranks (key a b : String) : Prop := score b key < score a key ∨ score a key = score b key ∧ a ≤ b

instance (key : String) : DecidableRel (Ranks key) := fun a b =>
  inferInstanceAs (Decidable (score b key < score a key ∨ score a key = score b key ∧ a ≤ b))

/-- `ranked(key)`. -/
def ranked (s : Rendezvous) (key : String) : List String := s.insertionSort (Ranks key)

/-- The answer of `locate-k`, as names. -/
def locateK (s : Rendezvous) (key : String) (k : Nat) : List String := (s.ranked key).take k

def step (s : Rendezvous) (command : String) (args : List String) : Handled Rendezvous :=
  match command with
  | "add" => arg s (word args 0) fun node =>
    let s := if node ∈ s then s else s ++ [node]
    some (s, .obj [("nodes", .num s.length)])
  | "remove" => arg s (word args 0) fun node =>
    let rest := s.filter (· ≠ node)
    if rest.length = s.length then some (rest, err ("no such node: " ++ node))
    else some (rest, .obj [("nodes", .num rest.length)])
  | "locate" => arg s (word args 0) fun key =>
    match (s.ranked key).head? with
    | some node => some (s, .obj [("node", .str node)])
    | none => some (s, err "there are no nodes")
  | "locate-k" => arg s (word args 0) fun key => arg s (int args 1) fun k =>
    if k < 0 then some (s, err "k cannot be negative")
    else some (s, .obj [("nodes", .arr ((s.locateK key k.toNat).map .str))])
  | other => some (s, err ("unknown command: " ++ other))

/-! ## The ranking -/

variable {s s' : Rendezvous} {key node : String}

theorem Ranks.antisymm (a b : String) (h : Ranks key a b) (h' : Ranks key b a) : a = b := by
  rcases h with h | ⟨heq, hname⟩
  · rcases h' with h' | ⟨heq, -⟩
    · exact absurd (UInt64.lt_trans h h') (UInt64.lt_irrefl _)
    · rw [heq] at h
      exact absurd h (UInt64.lt_irrefl _)
  · rcases h' with h' | ⟨-, hname'⟩
    · rw [heq] at h'
      exact absurd h' (UInt64.lt_irrefl _)
    · exact String.le_antisymm hname hname'

instance (key : String) : Std.Total (Ranks key) where
  total a b := by
    rcases Nat.lt_trichotomy (score a key).toNat (score b key).toNat with h | h | h
    · exact .inr (.inl (UInt64.lt_iff_toNat_lt.mpr h))
    · have hscore : score a key = score b key := UInt64.toNat_inj.mp h
      exact (String.le_total a b).imp (fun hname => .inr ⟨hscore, hname⟩) fun hname => .inr ⟨hscore.symm, hname⟩
    · exact .inl (.inl (UInt64.lt_iff_toNat_lt.mpr h))

instance (key : String) : IsTrans String (Ranks key) where
  trans a b c h h' := by
    rcases h with h | ⟨h, hname⟩
    · rcases h' with h' | ⟨h', -⟩
      · exact .inl (UInt64.lt_trans h' h)
      · rw [h'] at h
        exact .inl h
    · rcases h' with h' | ⟨h', hname'⟩
      · rw [← h] at h'
        exact .inl h'
      · exact .inr ⟨h.trans h', String.le_trans hname hname'⟩

/-- **The others rank as they did.** -/
theorem ranked_remove (s : Rendezvous) (key node : String) :
    ranked (s.filter (· ≠ node)) key = (s.ranked key).filter (· ≠ node) := filter_sort Ranks.antisymm _ s

/-! ## Runs -/

variable {args : List String} {command : String} {v : Value}

theorem step_remove (h : s.step "remove" args = some (s', v)) (hnode : args[0]? = some node) :
    s' = s.filter (· ≠ node) := by
  rcases arg_eq_some.mp h with ⟨hword, -⟩ | ⟨node', hnode', h⟩
  · cases hword.symm.trans (word_eq_ok.mpr hnode)
  obtain rfl := Option.some.inj (hnode.symm.trans (word_eq_ok.mp hnode'))
  dsimp only at h
  split at h <;> exact (state_eq h)

theorem nodup_step (hs : s.Nodup) (h : s.step command args = some (s', v)) : s'.Nodup := by
  unfold step at h
  split at h
  · refine arg_keeps hs h fun node _ h => ?_
    obtain rfl := (Prod.mk.inj (Option.some.inj h)).1
    split_ifs with hmem
    · exact hs
    · exact List.nodup_append.mpr ⟨hs, List.nodup_singleton node, fun a ha b hb hab =>
        hmem (List.mem_singleton.mp hb ▸ hab ▸ ha)⟩
  · refine arg_keeps hs h fun node _ h => ?_
    dsimp only at h
    split at h <;> exact (Prod.mk.inj (Option.some.inj h)).1 ▸ hs.filter _
  · refine arg_keeps hs h fun key _ h => ?_
    split at h <;> exact (Prod.mk.inj (Option.some.inj h)).1 ▸ hs
  · refine arg_keeps hs h fun key _ h => arg_keeps hs h fun k _ h => ?_
    split at h <;> exact (Prod.mk.inj (Option.some.inj h)).1 ▸ hs
  · exact (Prod.mk.inj (Option.some.inj h)).1 ▸ hs

theorem nodup {es : List (Event Rendezvous Line Value)} (hrun : Run (onLine step) [] es s) : s.Nodup :=
  hrun.invariant (P := List.Nodup) (G := fun _ _ => True) List.nodup_nil
    (fun _ _ _ _ hs _ h => nodup_step hs h) fun _ _ => trivial

end Rendezvous

/-- **Placement moves only what it must.** On the ring, with whatever nodes were added and removed before: a new
node changes a key's owner only to itself, a node that is removed changes the owner only where it was that, and
two rings of the same nodes and counts place every key alike. And in the rendezvous, a node that is removed leaves the
ranking of the others as it was, so the first `k` for a key are those there were, without it, and the next one
where it was among them. -/
theorem placement_moves {s : Ring} {es : List (Event Ring Line Value)} (hrun : Run (onLine Ring.step) Ring.default es s)
    {t : Rendezvous} {fs : List (Event Rendezvous Line Value)} (hrun' : Run (onLine Rendezvous.step) [] fs t) :
    (∀ args node s' v, s.step "add" args = some (s', v) → args[0]? = some node → s.nodes[node]? = none →
      ∀ key, s'.locate key = s.locate key ∨ s'.locate key = some node) ∧
    (∀ args node s' v, s.step "remove" args = some (s', v) → args[0]? = some node →
      ∀ key, s.locate key ≠ some node → s'.locate key = s.locate key) ∧
    (∀ es' s', Run (onLine Ring.step) Ring.default es' s' → s'.nodes = s.nodes → ∀ key, s'.locate key = s.locate key) ∧
    (∀ args node t' v, t.step "remove" args = some (t', v) → args[0]? = some node →
      ∀ key, t'.ranked key = (t.ranked key).filter (· ≠ node) ∧
        ∀ k, t'.locateK key k = (t.locateK key k).filter (· ≠ node) ++
          if node ∈ t.locateK key k then ((t.ranked key)[k]?).toList else []) := by
  have hs := Ring.built hrun
  refine ⟨fun args node s' v h hnode hnew => Ring.add_moves hs h hnode hnew,
    fun args node s' v h hnode => Ring.remove_moves hs h hnode, fun es' s' hrun' hnodes key => ?_,
    fun args node t' v h hnode key => ?_⟩
  · have hring : s'.ring = s.ring := by
      rw [Ring.built hrun', Ring.built hrun, hnodes]
    rw [Ring.locate_eq, Ring.locate_eq]
    unfold Ring.first
    rw [hring]
  · obtain rfl := Rendezvous.step_remove h hnode
    have hranked := Rendezvous.ranked_remove t key node
    refine ⟨hranked, fun k => ?_⟩
    unfold Rendezvous.locateK
    rw [hranked]
    have hnodup : (t.ranked key).Nodup :=
      (List.perm_insertionSort _ _).nodup_iff.mpr (Rendezvous.nodup hrun')
    exact take_filter_ne hnodup node k

def twoNodes : List Line := [⟨"add", ["a", "2"]⟩, ⟨"add", ["b", "1"]⟩]

theorem placement_moves_two_nodes : ∃ es s fs t, Run (onLine Ring.step) Ring.default es s ∧
    es.map Event.input = twoNodes ∧ Run (onLine Rendezvous.step) [] fs t ∧ fs.map Event.input = twoNodes ∧
    (∃ s' v, s.step "add" ["c", "3"] = some (s', v) ∧
      ∀ key, s'.locate key = s.locate key ∨ s'.locate key = some "c") ∧
    (∃ s' v, s.step "remove" ["a"] = some (s', v) ∧
      ∀ key, s.locate key ≠ some "a" → s'.locate key = s.locate key) ∧
    (∃ t' v, Rendezvous.step t "remove" ["a"] = some (t', v) ∧
      ∀ key, Rendezvous.ranked t' key = (Rendezvous.ranked t key).filter (· ≠ "a")) := by
  obtain ⟨es, s, hrun, hinputs, hnew, s', v, hstep⟩ : ∃ es s, Run (onLine Ring.step) Ring.default es s ∧
      es.map Event.input = twoNodes ∧ s.nodes["c"]? = none ∧ ∃ s' v, s.step "remove" ["a"] = some (s', v) :=
    ⟨_, _, run_of_exec twoNodes rfl, rfl, rfl, _, _, rfl⟩
  obtain ⟨fs, t, hrun', hinputs', t', v', hstep'⟩ : ∃ fs t, Run (onLine Rendezvous.step) [] fs t ∧
      fs.map Event.input = twoNodes ∧ ∃ t' v, Rendezvous.step t "remove" ["a"] = some (t', v) :=
    ⟨_, _, run_of_exec twoNodes rfl, rfl, _, _, rfl⟩
  obtain ⟨hadd, hremove, -, hranked⟩ := placement_moves hrun hrun'
  refine ⟨es, s, fs, t, hrun, hinputs, hrun', hinputs', ?_, ?_, ?_⟩
  · exact ⟨_, _, rfl, hadd ["c", "3"] "c" _ _ rfl rfl hnew⟩
  · exact ⟨s', v, hstep, hremove ["a"] "a" s' v hstep rfl⟩
  · exact ⟨t', v', hstep', fun key => (hranked ["a"] "a" t' v' hstep' rfl key).1⟩

end BuildYourOwn.Placement
