import BuildYourOwn.Replication.Chain

/-!
# The chain of live nodes

What the commands of `chain` do to the list of live nodes, which is all that the order of updates
depends on. The code works with positions in `nodes`; here a command is a function of the list.
-/

namespace BuildYourOwn.Replication.Links

variable {σ υ : Type} {put : σ → υ → σ} {nodes : Links σ υ} {i j : Nat}

/-! ## Live nodes -/

def chain (nodes : Links σ υ) : Links σ υ := nodes.filter (·.alive)

def gather (nodes : Links σ υ) (is : List Nat) : Links σ υ := is.filterMap (nodes[·]?)

theorem mem_live : i ∈ live nodes ↔ ∃ n, nodes[i]? = some n ∧ n.alive = true := by
  unfold live
  rw [List.mem_filter, List.mem_range, Option.any_eq_true]
  constructor
  · rintro ⟨-, h⟩
    exact h
  · rintro ⟨n, hn, halive⟩
    exact ⟨(List.getElem?_eq_some_iff.mp hn).1, n, hn, halive⟩

theorem live_pairwise (nodes : Links σ υ) : (live nodes).Pairwise (· < ·) :=
  List.Pairwise.sublist List.filter_sublist List.pairwise_lt_range

theorem live_nodup (nodes : Links σ υ) : (live nodes).Nodup :=
  (live_pairwise nodes).imp fun h => Nat.ne_of_lt h

theorem live_cons (n : Link σ υ) : live (n :: nodes) = (if n.alive then [0] else []) ++ (live nodes).map Nat.succ := by
  unfold live
  rw [List.length_cons, List.range_succ_eq_map, List.filter_cons, List.filter_map]
  cases h : n.alive with
  | true => simp [h, Function.comp_def]
  | false => simp [h, Function.comp_def]

theorem gather_live (nodes : Links σ υ) : gather nodes (live nodes) = chain nodes := by
  unfold gather chain
  induction nodes with
  | nil => rfl
  | cons n nodes ih =>
    rw [live_cons, List.filterMap_append, List.filterMap_map, List.filter_cons]
    have hrest : (live nodes).filterMap ((fun i => (n :: nodes)[i]?) ∘ Nat.succ) =
        nodes.filter (·.alive) := ih
    rw [hrest]
    cases h : n.alive with
    | true => simp
    | false => simp

theorem length_chain (nodes : Links σ υ) : (chain nodes).length = (live nodes).length := by
  unfold chain
  induction nodes with
  | nil => rfl
  | cons n nodes ih =>
    rw [live_cons, List.filter_cons, List.length_append, List.length_map, ← ih]
    cases n.alive with
    | true => simp [Nat.add_comm]
    | false => simp

variable {is : List Nat}

theorem gather_congr {nodes' : Links σ υ} (h : ∀ i ∈ is, nodes'[i]? = nodes[i]?) : gather nodes' is = gather nodes is :=
  List.filterMap_congr h

variable {n : Link σ υ}

theorem gather_cons (h : nodes[i]? = some n) (is : List Nat) : gather nodes (i :: is) = n :: gather nodes is := by
  unfold gather
  rw [List.filterMap_cons, h]

theorem gather_append (is js : List Nat) : gather nodes (is ++ js) = gather nodes is ++ gather nodes js :=
  List.filterMap_append

theorem get_modify (f : Link σ υ → Link σ υ) :
    (nodes.modify i f)[j]? = if i = j then nodes[j]?.map f else nodes[j]? := by
  rw [List.getElem?_modify]
  split
  · rfl
  · simp

variable {f : Link σ υ → Link σ υ}

theorem gather_modify (hi : i ∉ is) : gather (nodes.modify i f) is = gather nodes is := by
  refine gather_congr fun j hj => ?_
  have hij : i ≠ j := fun e => hi (e ▸ hj)
  rw [get_modify, if_neg hij]

theorem gather_modify_cons (hi : i ∉ is)
    (hn : nodes[i]? = some n) : gather (nodes.modify i f) (i :: is) = f n :: gather nodes is := by
  have hget : (nodes.modify i f)[i]? = some (f n) := by
    rw [get_modify, if_pos rfl, hn]
    rfl
  rw [gather_cons hget, gather_modify hi]

theorem live_modify (hf : ∀ n, (f n).alive = n.alive) : live (nodes.modify i f) = live nodes := by
  unfold live
  rw [List.length_modify]
  refine List.filter_congr fun j _ => ?_
  rw [get_modify]
  split
  · cases nodes[j]? with
    | none => rfl
    | some n => exact hf n
  · rfl

theorem pendingAt_of_get (h : nodes[i]? = some n) : pendingAt nodes i = n.pending := by
  unfold pendingAt
  rw [h]
  rfl

/-! ## Propagation -/

theorem foldl_take (us : List υ) (n : Link σ υ) : us.foldl (·.take put) n =
    ⟨us.foldl put n.applied, n.pending ++ us, n.alive⟩ := by
  induction us generalizing n with
  | nil => rw [List.foldl_nil, List.foldl_nil, List.append_nil]
  | cons u us ih =>
    rw [List.foldl_cons, ih]
    simp [Link.take]

theorem alive_foldl_take (us : List υ) (n : Link σ υ) : (us.foldl (·.take put) n).alive = n.alive := by
  rw [foldl_take]

/-- One hop along a list of nodes, the last one keeping what it receives. -/
def hop (put : σ → υ → σ) : Links σ υ → Links σ υ
  | x :: y :: rest =>
    x.emptied :: (hop put (y :: rest)).modifyHead fun n => x.pending.foldl (·.take put) n
  | c => c

/-- One propagation along a list of nodes: each takes what comes from the node before it, which is
what it then has pending, and the last one keeps nothing. -/
def relay (put : σ → υ → σ) : List υ → Links σ υ → Links σ υ
  | _, [] => []
  | us, [x] => [{ x with applied := us.foldl put x.applied, pending := [] }]
  | us, x :: y :: rest =>
    { x with applied := us.foldl put x.applied, pending := us } :: relay put x.pending (y :: rest)

def clearLast : Links σ υ → Links σ υ
  | [] => []
  | [x] => [x.emptied]
  | x :: y :: rest => x :: clearLast (y :: rest)

theorem hop_ne_nil {c : Links σ υ} (h : c ≠ []) : hop put c ≠ [] := by
  match c with
  | [] => exact h
  | [x] => exact List.cons_ne_nil x []
  | x :: y :: rest => exact List.cons_ne_nil _ _

theorem clearLast_cons {c : Links σ υ} (h : c ≠ []) (x : Link σ υ) : clearLast (x :: c) = x :: clearLast c := by
  match c with
  | [] => exact absurd rfl h
  | y :: rest => rfl

theorem clearLast_hop : ∀ (us : List υ) (c : Links σ υ),
    clearLast ((hop put c).modifyHead fun n => us.foldl (·.take put) n) = relay put us c
  | us, [] => rfl
  | us, [x] => by
    simp only [hop, List.modifyHead_cons, clearLast, relay, foldl_take, Link.emptied]
  | us, x :: y :: rest => by
    have hne : (hop put (y :: rest)).modifyHead (fun n => x.pending.foldl (·.take put) n) ≠ [] := by
      simp [hop_ne_nil]
    rw [hop, List.modifyHead_cons, clearLast_cons hne, clearLast_hop, relay, foldl_take]
    rfl

theorem handOn_get {a b : Nat} (hab : a ≠ b) : (handOn put nodes a b).1[j]? =
    if b = j then nodes[j]?.map fun n => (pendingAt nodes a).foldl (·.take put) n
    else if a = j then nodes[j]?.map (·.emptied) else nodes[j]? := by
  unfold handOn
  rw [get_modify, get_modify]
  by_cases hb : b = j
  · rw [if_pos hb, if_pos hb, if_neg fun ha => hab (ha.trans hb.symm)]
  · rw [if_neg hb, if_neg hb]

theorem emptied_alive (n : Link σ υ) : n.emptied.alive = n.alive := rfl

theorem live_handOn (a b : Nat) : live (handOn put nodes a b).1 = live nodes := by
  unfold handOn
  rw [live_modify fun n => alive_foldl_take _ n, live_modify emptied_alive]

theorem live_sweep : ∀ (is : List Nat), live (sweep put is nodes).1 = live nodes
  | [] => rfl
  | [_] => rfl
  | a :: b :: rest => by
    rw [sweep, live_handOn, live_sweep (b :: rest)]

theorem sweep_get_of_notMem : ∀ {is : List Nat}, j ∉ is → (sweep put is nodes).1[j]? = nodes[j]?
  | [], _ => rfl
  | [_], _ => rfl
  | a :: b :: rest, h => by
    have ha : a ≠ j := fun e => h (e ▸ List.mem_cons_self)
    have hb : b ≠ j := fun e => h (e ▸ List.mem_cons_of_mem a List.mem_cons_self)
    unfold sweep handOn
    rw [get_modify, if_neg hb, get_modify, if_neg ha]
    exact sweep_get_of_notMem fun hj => h (List.mem_cons_of_mem a hj)

theorem length_sweep : ∀ (is : List Nat), (sweep put is nodes).1.length = nodes.length
  | [] => rfl
  | [_] => rfl
  | a :: b :: rest => by
    unfold sweep handOn
    rw [List.length_modify, List.length_modify, length_sweep (b :: rest)]

theorem gather_handOn {a b : Nat} {rest : List Nat} {x y : Link σ υ} (hab : a ≠ b)
    (ha : a ∉ rest) (hb : b ∉ rest) (hx : nodes[a]? = some x) (hy : nodes[b]? = some y) :
    gather (handOn put nodes a b).1 (a :: b :: rest) =
      x.emptied :: x.pending.foldl (·.take put) y :: gather nodes rest := by
  have hxa : (handOn put nodes a b).1[a]? = some x.emptied := by
    rw [handOn_get hab, if_neg hab.symm, if_pos rfl, hx]
    rfl
  have hyb : (handOn put nodes a b).1[b]? = some (x.pending.foldl (·.take put) y) := by
    rw [handOn_get hab, if_pos rfl, hy, pendingAt_of_get hx]
    rfl
  rw [gather_cons hxa, gather_cons hyb]
  refine congrArg _ (congrArg _ (gather_congr fun i hi => ?_))
  have hbi : b ≠ i := fun e => hb (e ▸ hi)
  have hai : a ≠ i := fun e => ha (e ▸ hi)
  rw [handOn_get hab, if_neg hbi, if_neg hai]

/-- The loop of `propagate` is one hop along the nodes it visits. -/
theorem gather_sweep : ∀ {is : List Nat}, is.Nodup → (∀ i ∈ is, ∃ n, nodes[i]? = some n) →
    gather (sweep put is nodes).1 is = hop put (gather nodes is)
  | [], _, _ => rfl
  | [a], _, h => by
    obtain ⟨x, hx⟩ := h a List.mem_cons_self
    rw [gather_cons hx]
    exact gather_cons hx []
  | a :: b :: rest, hnodup, h => by
    obtain ⟨ha, htail⟩ := List.nodup_cons.mp hnodup
    obtain ⟨hb, -⟩ := List.nodup_cons.mp htail
    have hab : a ≠ b := fun e => ha (e ▸ List.mem_cons_self)
    obtain ⟨x, hx⟩ := h a List.mem_cons_self
    obtain ⟨y, hy⟩ := h b (List.mem_cons_of_mem a List.mem_cons_self)
    have ih := gather_sweep htail fun i hi => h i (List.mem_cons_of_mem a hi)
    -- the nodes behind `a` have made their hop, `a` has not been touched
    have hxs : (sweep put (b :: rest) nodes).1[a]? = some x := by rw [sweep_get_of_notMem ha, hx]
    have hlt : b < (sweep put (b :: rest) nodes).1.length := by
      rw [length_sweep]
      exact (List.getElem?_eq_some_iff.mp hy).1
    have hys := List.getElem?_eq_getElem hlt
    rw [gather_cons hys, gather_cons hy] at ih
    rw [sweep, gather_handOn hab (fun hi => ha (List.mem_cons_of_mem b hi)) hb hxs hys,
      gather_cons hx, gather_cons hy, hop, ← ih, List.modifyHead_cons]

theorem clearLast_concat (x : Link σ υ) (c : Links σ υ) : clearLast (c ++ [x]) = c ++ [x.emptied] := by
  induction c with
  | nil => rfl
  | cons y c ih => rw [List.cons_append, clearLast_cons (by simp), ih, List.cons_append]

theorem gather_clearLast (hnodup : (is ++ [i]).Nodup) (hn : nodes[i]? = some n) :
    gather (nodes.modify i (·.emptied)) (is ++ [i]) = clearLast (gather nodes (is ++ [i])) := by
  have hi : i ∉ is := fun hmem =>
    (List.nodup_append.mp hnodup).2.2 i hmem i (List.mem_singleton_self i) rfl
  rw [gather_append, gather_append, gather_modify hi, gather_modify_cons List.not_mem_nil hn,
    gather_cons hn]
  exact (clearLast_concat n _).symm

theorem chain_clearTail (nodes : Links σ υ) : chain (clearTail nodes) = clearLast (chain nodes) := by
  unfold clearTail tail
  rcases List.eq_nil_or_concat (live nodes) with hnil | ⟨is, t, hlive⟩
  · have hchain : chain nodes = [] := by
      rw [← gather_live, hnil]
      rfl
    rw [hnil, hchain]
    exact hchain
  · rw [List.concat_eq_append] at hlive
    obtain ⟨n, hn, -⟩ := mem_live.mp (hlive ▸ List.mem_concat_self)
    rw [hlive, List.getLast?_append_of_ne_nil _ (by simp), ← gather_live, ← gather_live]
    show gather (nodes.modify t (·.emptied)) (live (nodes.modify t (·.emptied))) = _
    rw [live_modify emptied_alive, hlive]
    exact gather_clearLast (hlive ▸ live_nodup nodes) hn

/-- **`propagate` on the live nodes.** -/
theorem chain_propagate (nodes : Links σ υ) : chain (propagate put nodes).1 = relay put [] (chain nodes) := by
  have hmem : ∀ i ∈ live nodes, ∃ n, nodes[i]? = some n := fun i hi =>
    (mem_live.mp hi).imp fun n h => h.1
  have hswept : chain (sweep put (live nodes) nodes).1 = hop put (chain nodes) := by
    rw [← gather_live, ← gather_live, live_sweep, gather_sweep (live_nodup nodes) hmem]
  have hid : ∀ c : Links σ υ, c.modifyHead (fun n => ([] : List υ).foldl (·.take put) n) = c := by
    intro c
    cases c <;> rfl
  rw [propagate, chain_clearTail, hswept, ← clearLast_hop, hid]

/-! ## Writes -/

theorem take_alive (u : υ) (n : Link σ υ) : (n.take put u).alive = n.alive := rfl

/-- **A write on the live nodes.** -/
theorem chain_accept (u : υ) (nodes : Links σ υ) :
    chain (accept put nodes u) = (chain nodes).modifyHead (·.take put u) := by
  unfold accept head
  cases hlive : live nodes with
  | nil =>
    have hchain : chain nodes = [] := by
      rw [← gather_live, hlive]
      rfl
    rw [hchain]
    exact hchain
  | cons h is =>
    obtain ⟨n, hn, -⟩ := mem_live.mp (hlive ▸ List.mem_cons_self)
    have hnot : h ∉ is := (List.nodup_cons.mp (hlive ▸ live_nodup nodes)).1
    rw [List.head?_cons, ← gather_live, ← gather_live]
    show gather (nodes.modify h (·.take put u)) (live (nodes.modify h (·.take put u))) = _
    rw [live_modify (take_alive u), hlive, gather_modify_cons hnot hn, gather_cons hn,
      List.modifyHead_cons]

/-! ## Failures -/

theorem down_alive (n : Link σ υ) : n.down.alive = false := rfl

theorem takeBack_alive (us : List υ) (n : Link σ υ) : (n.takeBack us).alive = n.alive := rfl

/-- The live nodes when the one at `i` goes down. -/
theorem live_down (hf : ∀ n, (f n).alive = false) : live (nodes.modify i f) = (live nodes).filter (· ≠ i) := by
  unfold live
  rw [List.length_modify, List.filter_filter]
  refine List.filter_congr fun j _ => ?_
  rw [get_modify]
  by_cases hij : i = j
  · rw [if_pos hij]
    cases nodes[j]? with
    | none => simp
    | some n => simp [hf, hij]
  · rw [if_neg hij]
    simp [Ne.symm hij]

theorem live_split (hi : i ∈ live nodes) : ∃ before after, live nodes = before ++ i :: after ∧
    (∀ j ∈ before, j < i) ∧ (∀ j ∈ after, i < j) := by
  obtain ⟨before, after, hsplit⟩ := List.append_of_mem hi
  have hsorted := hsplit ▸ live_pairwise nodes
  rw [List.pairwise_append, List.pairwise_cons] at hsorted
  exact ⟨before, after, hsplit, fun j hj => hsorted.2.2 j hj i List.mem_cons_self,
    hsorted.2.1.1⟩

theorem predecessor_of_split {before after : List Nat} (hsplit : live nodes = before ++ i :: after)
    (hbefore : ∀ j ∈ before, j < i) (hafter : ∀ j ∈ after, i < j) : predecessor nodes i = before.getLast? := by
  unfold predecessor
  have hskip : after.reverse.find? (· < i) = none := by
    rw [List.find?_eq_none]
    intro j hj
    simpa using Nat.le_of_lt (hafter j (List.mem_reverse.mp hj))
  rw [hsplit, List.reverse_append, List.reverse_cons, List.find?_append, List.find?_append, hskip]
  rcases List.eq_nil_or_concat before with rfl | ⟨before', p, rfl⟩
  · simp
  · have hp : p < i := hbefore p (by simp)
    simp [hp]

/-- **`fail` of a live node, on the live nodes**: with no node before it, what it had pending is gone
with it; otherwise the node before it takes that back. -/
theorem chain_fail {x : Link σ υ} (hx : nodes[i]? = some x) (halive : x.alive = true) :
    ∃ before after, chain nodes = before ++ x :: after ∧ (after ≠ [] → ∃ j ∈ live nodes, i < j) ∧
      ((before = [] ∧ chain (fail nodes i) = after) ∨
        ∃ front p j, before = front ++ [p] ∧ predecessor nodes i = some j ∧ nodes[j]? = some p ∧
          chain (fail nodes i) = front ++ p.takeBack x.pending :: after) := by
  obtain ⟨is, js, hsplit, his, hjs⟩ := live_split (mem_live.mpr ⟨x, hx, halive⟩)
  have hpred := predecessor_of_split hsplit his hjs
  have hnodup := hsplit ▸ live_nodup nodes
  obtain ⟨hnodup₁, hnodup₂, hdisjoint⟩ := List.nodup_append.mp hnodup
  have hinot : i ∉ is := fun h => hdisjoint i h i List.mem_cons_self rfl
  have hjnot : i ∉ js := (List.nodup_cons.mp hnodup₂).1
  have hlive : (live nodes).filter (· ≠ i) = is ++ js := by
    rw [hsplit, List.filter_append, List.filter_cons_of_neg (by simp)]
    have hkeep : ∀ {l : List Nat}, i ∉ l → l.filter (· ≠ i) = l := fun h =>
      List.filter_eq_self.mpr fun j hj => by simpa using fun e : j = i => h (e ▸ hj)
    rw [hkeep hinot, hkeep hjnot]
  refine ⟨gather nodes is, gather nodes js, ?_, fun hne => ?_, ?_⟩
  · rw [← gather_live, hsplit, gather_append, gather_cons hx]
  · obtain ⟨j, rest, rfl⟩ := List.exists_cons_of_ne_nil (l := js) (by rintro rfl; exact hne rfl)
    exact ⟨j, hsplit ▸ List.mem_append_right is (List.mem_cons_of_mem i List.mem_cons_self),
      hjs j List.mem_cons_self⟩
  · unfold fail
    rcases List.eq_nil_or_concat is with rfl | ⟨front, p, hfront⟩
    · rw [List.getLast?_nil] at hpred
      refine .inl ⟨rfl, ?_⟩
      rw [hpred, ← gather_live, live_down down_alive, hlive, List.nil_append]
      exact gather_modify hjnot
    · rw [List.concat_eq_append] at hfront
      subst hfront
      rw [List.getLast?_append_of_ne_nil _ (List.cons_ne_nil p []), List.getLast?_singleton] at hpred
      obtain ⟨n, hn, -⟩ := mem_live.mp (show p ∈ live nodes by rw [hsplit]; simp)
      have hpi : p ≠ i := fun e => hinot (by simp [e])
      have hpfront : p ∉ front := fun h =>
        (List.nodup_append.mp hnodup₁).2.2 p h p List.mem_cons_self rfl
      have hpjs : p ∉ js := fun h => hdisjoint p (by simp) p (List.mem_cons_of_mem i h) rfl
      refine .inr ⟨gather nodes front, n, p, ?_, hpred, hn, ?_⟩
      · rw [gather_append, gather_cons hn]
        rfl
      · have hget : (nodes.modify i (·.down))[p]? = some n := by
          rw [get_modify, if_neg hpi.symm, hn]
        have hfront : i ∉ front := fun h => hinot (List.mem_append_left [p] h)
        rw [hpred, pendingAt_of_get hx, ← gather_live]
        rw [live_modify (takeBack_alive _), live_down down_alive, hlive, List.append_assoc,
          gather_append, gather_modify hpfront, List.singleton_append, gather_modify_cons hpjs hget,
          gather_modify hfront, gather_modify hjnot]

/-- `fail` of a node that is down already. -/
theorem fail_dead {x : Link σ υ} (hx : nodes[i]? = some x) (hdead : x.alive = false)
    (hpending : x.pending = []) : fail nodes i = nodes := by
  unfold fail
  have hdown : nodes.modify i (·.down) = nodes := by
    refine List.ext_getElem? fun j => ?_
    rw [get_modify]
    split
    · rename_i hij
      rw [← hij, hx, Option.map_some, Link.down, ← hdead, ← hpending]
    · rfl
  rw [pendingAt_of_get hx, hpending, hdown]
  cases predecessor nodes i with
  | none => rfl
  | some p =>
    refine List.ext_getElem? fun j => ?_
    rw [get_modify]
    simp [Link.takeBack]

/-! ## Nodes that are down -/

def DownEmpty (nodes : Links σ υ) : Prop :=
  ∀ (i : Nat) n, nodes[i]? = some n → n.alive = false → n.pending = []

theorem DownEmpty.modify (h : DownEmpty nodes)
    (hf : ∀ n, nodes[i]? = some n → (f n).alive = false → (f n).pending = []) : DownEmpty (nodes.modify i f) := by
  intro j n hn hdown
  rw [get_modify] at hn
  split at hn
  · rename_i hij
    obtain ⟨m, hm, rfl⟩ := Option.map_eq_some_iff.mp hn
    exact hf m (hij ▸ hm) hdown
  · exact h j n hn hdown

theorem DownEmpty.modify_live (h : DownEmpty nodes) (hi : i ∈ live nodes) (hf : ∀ n, (f n).alive = n.alive) : DownEmpty (nodes.modify i f) := by
  obtain ⟨m, hm, halive⟩ := mem_live.mp hi
  refine h.modify fun n hn hdown => ?_
  obtain rfl := Option.mem_unique hm hn
  rw [hf, halive] at hdown
  cases hdown

theorem DownEmpty.handOn (h : DownEmpty nodes) {a b : Nat} (hb : b ∈ live nodes) :
    DownEmpty (handOn put nodes a b).1 := by
  have ha : DownEmpty (nodes.modify a (·.emptied)) := h.modify fun _ _ _ => rfl
  exact ha.modify_live (by rwa [live_modify emptied_alive]) fun n => alive_foldl_take _ n

theorem DownEmpty.sweep (h : DownEmpty nodes) : ∀ {is : List Nat}, (∀ i ∈ is, i ∈ live nodes) →
    DownEmpty (sweep put is nodes).1
  | [], _ => h
  | [_], _ => h
  | a :: b :: rest, hlive => by
    have ih := DownEmpty.sweep h fun i hi => hlive i (List.mem_cons_of_mem a hi)
    refine ih.handOn ?_
    rw [live_sweep]
    exact hlive b (List.mem_cons_of_mem a List.mem_cons_self)

theorem DownEmpty.propagate (h : DownEmpty nodes) : DownEmpty (propagate put nodes).1 := by
  have hswept : DownEmpty (Links.sweep put (live nodes) nodes).1 := h.sweep fun _ hi => hi
  show DownEmpty (clearTail _)
  unfold clearTail
  split
  · exact hswept.modify fun _ _ _ => rfl
  · exact hswept

theorem DownEmpty.accept (h : DownEmpty nodes) (u : υ) : DownEmpty (accept put nodes u) := by
  unfold Links.accept
  split
  · rename_i i hi
    exact h.modify_live (List.mem_of_head? hi) (take_alive u)
  · exact h

theorem DownEmpty.fail (h : DownEmpty nodes) : DownEmpty (fail nodes i) := by
  have hdown : DownEmpty (nodes.modify i (·.down)) := h.modify fun _ _ _ => rfl
  unfold Links.fail
  split
  · rename_i p hp
    have hpi : p < i := by simpa using List.find?_some hp
    have hplive : p ∈ live nodes := List.mem_reverse.mp (List.mem_of_find?_eq_some hp)
    refine hdown.modify_live ?_ (takeBack_alive _)
    rw [live_down down_alive]
    exact List.mem_filter.mpr ⟨hplive, by simpa using Nat.ne_of_lt hpi⟩
  · exact hdown

theorem downEmpty_fresh (empty : σ) (n : Nat) : DownEmpty (fresh (υ := υ) empty n) := by
  intro i m hm _
  rw [List.eq_of_mem_replicate (List.mem_of_getElem? hm)]

/-! ## One command -/

/-- What a command does to a chain. -/
inductive Move (υ : Type)
  | init (n : Nat)
  | write (u : υ)
  | propagate
  | fail (i : Nat)
  | none

def effect (put : σ → υ → σ) (empty : σ) (nodes : Links σ υ) : Move υ → Links σ υ
  | .init n => fresh empty n
  | .write u => accept put nodes u
  | .propagate => (propagate put nodes).1
  | .fail i => if nodes.length ≤ i then nodes else fail nodes i
  | .none => nodes

theorem DownEmpty.effect (h : DownEmpty nodes) {empty : σ} (m : Move υ) : DownEmpty (effect put empty nodes m) := by
  cases m with
  | init n => exact downEmpty_fresh empty n
  | write u => exact h.accept u
  | propagate => exact h.propagate
  | fail i =>
    show DownEmpty (if _ then _ else _)
    split
    · exact h
    · exact h.fail
  | none => exact h

/-- Node `i` is between two live nodes, and the node before it has an update pending whose key is
that of one that `i` has pending. -/
def Mixes {κ : Type} (key : υ → κ) (nodes : Links σ υ) (i : Nat) : Prop :=
  ∃ p, predecessor nodes i = some p ∧ (∃ j ∈ live nodes, i < j) ∧
    ∃ u ∈ pendingAt nodes p, ∃ v ∈ pendingAt nodes i, key u = key v

/-! ## Other updates -/

section

variable {σ' υ' : Type} {put' : σ' → υ' → σ'} (f : σ → σ') (g : υ → υ')

def mapped (nodes : Links σ υ) : Links σ' υ' :=
  nodes.map fun n => ⟨f n.applied, n.pending.map g, n.alive⟩

theorem mapped_get : (mapped f g nodes)[i]? = nodes[i]?.map fun n => ⟨f n.applied, n.pending.map g, n.alive⟩ :=
  List.getElem?_map

theorem live_mapped : live (mapped f g nodes) = live nodes := by
  unfold live
  rw [show (mapped f g nodes).length = nodes.length from List.length_map _]
  refine List.filter_congr fun i _ => ?_
  rw [mapped_get]
  cases nodes[i]? with
  | none => rfl
  | some n => rfl

theorem chain_mapped : chain (mapped f g nodes) = mapped f g (chain nodes) :=
  List.filter_map

theorem pendingAt_mapped : pendingAt (mapped f g nodes) i = (pendingAt nodes i).map g := by
  unfold pendingAt
  rw [mapped_get]
  cases nodes[i]? with
  | none => rfl
  | some n => rfl

theorem modify_mapped {h : Link σ υ → Link σ υ} {h' : Link σ' υ' → Link σ' υ'}
    (hh : ∀ n, h' ⟨f n.applied, n.pending.map g, n.alive⟩ =
      ⟨f (h n).applied, (h n).pending.map g, (h n).alive⟩) :
    (mapped f g nodes).modify i h' = mapped f g (nodes.modify i h) := by
  refine List.ext_getElem? fun j => ?_
  rw [get_modify, mapped_get, mapped_get, get_modify]
  split
  · cases nodes[j]? with
    | none => rfl
    | some n => exact congrArg some (hh n)
  · rfl

theorem foldl_mapped (hput : ∀ s u, f (put s u) = put' (f s) (g u)) (us : List υ) (s : σ) :
    (us.map g).foldl put' (f s) = f (us.foldl put s) := by
  rw [List.foldl_map]
  exact List.foldl_hom f fun s u => (hput s u).symm

variable {f g}

theorem handOn_mapped (hput : ∀ s u, f (put s u) = put' (f s) (g u)) (a b : Nat) :
    (handOn put' (mapped f g nodes) a b).1 = mapped f g (handOn put nodes a b).1 := by
  unfold handOn
  rw [pendingAt_mapped, modify_mapped f g (h := (·.emptied)) fun _ => rfl]
  refine modify_mapped f g fun n => ?_
  rw [foldl_take, foldl_take, foldl_mapped f g hput, List.map_append]

theorem sweep_mapped (hput : ∀ s u, f (put s u) = put' (f s) (g u)) : ∀ (is : List Nat),
    (sweep put' is (mapped f g nodes)).1 = mapped f g (sweep put is nodes).1
  | [] => rfl
  | [_] => rfl
  | a :: b :: rest => by
    show (handOn put' (sweep put' (b :: rest) (mapped f g nodes)).1 a b).1 = _
    rw [sweep_mapped hput (b :: rest), handOn_mapped hput]
    rfl

theorem clearTail_mapped : clearTail (mapped f g nodes) = mapped f g (clearTail nodes) := by
  unfold clearTail tail
  rw [live_mapped]
  cases (live nodes).getLast? with
  | none => rfl
  | some t => exact modify_mapped f g fun _ => rfl

theorem propagate_mapped (hput : ∀ s u, f (put s u) = put' (f s) (g u)) :
    (propagate put' (mapped f g nodes)).1 = mapped f g (propagate put nodes).1 := by
  unfold propagate
  dsimp only
  rw [live_mapped, sweep_mapped hput, clearTail_mapped]

theorem accept_mapped (hput : ∀ s u, f (put s u) = put' (f s) (g u)) (u : υ) :
    accept put' (mapped f g nodes) (g u) = mapped f g (accept put nodes u) := by
  unfold accept head
  rw [live_mapped]
  cases (live nodes).head? with
  | none => rfl
  | some h =>
    refine modify_mapped f g fun n => ?_
    simp only [Link.take, hput, List.map_append, List.map_singleton]

theorem fail_mapped : fail (mapped f g nodes) i = mapped f g (fail nodes i) := by
  unfold fail predecessor
  rw [live_mapped, pendingAt_mapped]
  cases (live nodes).reverse.find? (· < i) with
  | none => exact modify_mapped f g fun _ => rfl
  | some p =>
    rw [modify_mapped f g (h := (·.down)) fun _ => rfl]
    refine modify_mapped f g fun n => ?_
    simp only [Link.takeBack, List.map_append]

theorem mixes_mapped {κ : Type} {key : υ' → κ} :
    Mixes key (mapped f g nodes) i ↔ Mixes (fun u => key (g u)) nodes i := by
  unfold Mixes predecessor
  simp only [live_mapped, pendingAt_mapped, List.mem_map, exists_exists_and_eq_and]

/-- The same command on other updates. -/
def Move.map (g : υ → υ') : Move υ → Move υ'
  | .init n => .init n
  | .write u => .write (g u)
  | .propagate => .propagate
  | .fail i => .fail i
  | .none => .none

/-- **A command on other updates.** -/
theorem effect_mapped (hput : ∀ s u, f (put s u) = put' (f s) (g u)) (nodes : Links σ υ) (empty : σ) (m : Move υ) :
    effect put' (f empty) (mapped f g nodes) (m.map g) = mapped f g (effect put empty nodes m) := by
  cases m with
  | init n =>
    show fresh (f empty) n = (fresh empty n).map _
    unfold fresh
    rw [List.map_replicate]
    rfl
  | write u => exact accept_mapped hput u
  | propagate => exact propagate_mapped hput
  | fail i =>
    show (if (mapped f g nodes).length ≤ i then _ else _) = mapped f g (if _ then _ else _)
    rw [show (mapped f g nodes).length = nodes.length from List.length_map _]
    split
    · rfl
    · exact fail_mapped
  | none => rfl

end

end BuildYourOwn.Replication.Links

namespace BuildYourOwn.Replication.Chain

open Topic Links

def move (l : Line) : Move Update :=
  match l.command with
  | "init" =>
    match uint l.args 0 with
    | .ok n => if n = 0 then .none else .init n
    | .error _ => .none
  | "write" =>
    match word l.args 0, int l.args 1 with
    | .ok key, .ok value => .write (key, value)
    | _, _ => .none
  | "propagate" => .propagate
  | "fail" =>
    match uint l.args 0 with
    | .ok i => .fail i
    | .error _ => .none
  | _ => .none

theorem step_nodes [Host] {s s' : Chain} {v : Value} {l : Line}
    (hs : onLine step s l = some (s', v)) : s'.nodes = effect putUpdate ∅ s.nodes (move l) := by
  obtain ⟨command, args⟩ := l
  unfold onLine step at hs
  dsimp only at hs
  split at hs
  case h_1 =>
    unfold move
    rcases arg_eq_some.mp hs with ⟨hn, rfl⟩ | ⟨n, hn, hs⟩
    · simp only [hn]
      rfl
    · simp only [hn]
      split at hs
      · rename_i hzero
        cases hs
        rw [if_pos hzero]
        rfl
      · rename_i hzero
        cases hs
        rw [if_neg hzero]
        rfl
  case h_2 =>
    unfold move
    rcases arg_eq_some.mp hs with ⟨hk, rfl⟩ | ⟨k, hk, hs⟩
    · simp only [hk]
      rfl
    · rcases arg_eq_some.mp hs with ⟨hx, rfl⟩ | ⟨x, hx, hs⟩
      · simp only [hk, hx]
        rfl
      · cases hs
        simp only [hk, hx]
        rfl
  case h_3 =>
    cases hs
    rfl
  case h_4 =>
    rcases arg_eq_some.mp hs with ⟨-, rfl⟩ | ⟨k, -, hs⟩
    · rfl
    · cases hs
      rfl
  case h_5 =>
    rcases arg_eq_some.mp hs with ⟨-, rfl⟩ | ⟨i, -, hs⟩
    · rfl
    · rcases arg_eq_some.mp hs with ⟨-, rfl⟩ | ⟨k, -, hs⟩
      · rfl
      · cases hs
        rfl
  case h_6 =>
    unfold move
    rcases arg_eq_some.mp hs with ⟨hi, rfl⟩ | ⟨i, hi, hs⟩
    · simp only [hi]
      rfl
    · simp only [hi, effect]
      unfold Chain.fail at hs
      split at hs
      · rename_i hout
        cases hs
        rw [if_pos hout]
      · rename_i hin
        cases hs
        rw [if_neg hin]
  case h_7 =>
    cases hs
    rfl
  case h_8 h₁ h₂ h₃ _ _ h₆ _ =>
    cases hs
    have hnone : move ⟨command, args⟩ = .none := by
      unfold move
      split
      · rename_i h
        exact absurd h h₁
      · rename_i h
        exact absurd h h₂
      · rename_i h
        exact absurd h h₃
      · rename_i h
        exact absurd h h₆
      · rfl
    rw [hnone]
    rfl

end BuildYourOwn.Replication.Chain
