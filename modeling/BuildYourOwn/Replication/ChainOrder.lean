import Mathlib.Data.List.Induction
import BuildYourOwn.Replication.ChainLinks

/-!
# The chain keeps the order of its head

Every write the chain takes is numbered (`number`), and a node of the numbered chain keeps the log of
what it has applied. Read without its numbers, with each log replayed, it is the machine
(`number_eq`).

A node that fails in the middle gives what it had pending back to the node before it, *behind* what
that node has pending itself, although it is older. When the two share a key (`Reorders`) the node
behind them will apply the newer update first and then the older one (`stale_tail`).

The invariant is one equation a pair of neighbours and key (`Linked`): what the first has applied is
what the second has, followed by what the first has pending. Then every log is a prefix of the
head's.

**`chain_in_order`**: in a run in which no line takes that branch, every live node has applied the
updates of each key in the order of their acceptance, and after as many `propagate`s as there are live
nodes, with no write among them, all live nodes hold the same.
-/

namespace BuildYourOwn.Replication

open Lib Topic Links

/-! ## The numbered chain -/

abbrev Accepted := Nat × Update

def logUpdate (log : List Accepted) (u : Accepted) : List Accepted := log ++ [u]

def replay (log : List Accepted) : StringMap Int := (log.map Prod.snd).foldl putUpdate ∅

/-- The chain with its commands numbered, `next` being the number of the next one. -/
structure NumberedChain where
  next : Nat
  nodes : Links (List Accepted) Accepted

def NumberedChain.after (t : NumberedChain) (m : Move Update) : NumberedChain where
  next := t.next + 1
  nodes := effect logUpdate [] t.nodes (m.map fun u => (t.next, u))

def number (ls : List Line) : NumberedChain :=
  ls.foldl (fun t l => t.after (Chain.move l)) ⟨0, []⟩

def NumberedChain.machine (t : NumberedChain) : Chain := ⟨mapped replay Prod.snd t.nodes⟩

def keyed (k : String) (us : List Accepted) : List Accepted := us.filter (·.2.1 == k)

def InOrder (log : List Accepted) : Prop := ∀ k, (keyed k log).Pairwise (·.1 < ·.1)

/-- The line fails a node between two live nodes that has an update of some key pending, while the
node before it has one of the same key pending: the older one is put behind the newer one. -/
def Reorders (s : Chain) (l : Line) : Prop :=
  ∃ i, Chain.move l = .fail i ∧ Mixes Prod.fst s.nodes i

/-! ## Logs and maps -/

theorem replay_append (log : List Accepted) (u : Accepted) : replay (logUpdate log u) = putUpdate (replay log) u.2 := by
  unfold replay logUpdate
  rw [List.map_append, List.foldl_append]
  rfl

theorem keyed_append (k : String) (us vs : List Accepted) : keyed k (us ++ vs) = keyed k us ++ keyed k vs :=
  List.filter_append ..

theorem mem_keyed {k : String} {us : List Accepted} {u : Accepted} : u ∈ keyed k us ↔ u ∈ us ∧ u.2.1 = k := by
  unfold keyed
  rw [List.mem_filter, beq_iff_eq]

theorem replay_get (k : String) (log : List Accepted) : (replay log)[k]? = (keyed k log).getLast?.map (·.2.2) := by
  induction log using List.reverseRecOn with
  | nil => simp [replay, keyed]
  | append_singleton log u ih =>
    rw [show log ++ [u] = logUpdate log u from rfl, replay_append, putUpdate, StringMap.get_insert,
      logUpdate, keyed_append]
    by_cases hk : u.2.1 = k
    · have hkeyed : keyed k [u] = [u] := by simp [keyed, hk]
      rw [if_pos hk, hkeyed, List.getLast?_append_of_ne_nil _ (by simp)]
      rfl
    · have hkeyed : keyed k [u] = [] := by simp [keyed, hk]
      rw [if_neg hk, hkeyed, List.append_nil]
      exact ih

theorem replay_congr {log log' : List Accepted} (h : ∀ k, keyed k log = keyed k log') : replay log = replay log' :=
  Std.ExtTreeMap.ext_getElem? fun k => by rw [replay_get, replay_get, h k]

theorem foldl_logUpdate (us log : List Accepted) : us.foldl logUpdate log = log ++ us := by
  induction us generalizing log with
  | nil => rw [List.foldl_nil, List.append_nil]
  | cons u us ih => rw [List.foldl_cons, ih, logUpdate, List.append_assoc, List.singleton_append]

/-! ## The machine is the numbered chain -/

section

variable [Host] {s s' : Chain} {v : Value} {l : Line} {es : List (Event Chain Line Value)}

omit [Host] in
theorem after_machine (t : NumberedChain) (m : Move Update) :
    (t.after m).machine.nodes = effect putUpdate ∅ t.machine.nodes m := by
  have hm : (m.map fun u => (t.next, u)).map Prod.snd = m := by
    cases m <;> rfl
  have h := effect_mapped replay_append t.nodes [] (m.map fun u => (t.next, u))
  rw [hm] at h
  exact h.symm

omit [Host] in
theorem number_append (ls : List Line) (l : Line) : number (ls ++ [l]) = (number ls).after (Chain.move l) := by
  unfold number
  rw [List.foldl_append]
  rfl

theorem number_eq (hrun : Run (onLine Chain.step) Chain.empty es s) : s = (number (es.map Event.input)).machine := by
  induction hrun with
  | nil => rfl
  | @snoc es s s' l v _ hs ih =>
    rw [List.map_append, List.map_singleton, number_append]
    refine Chain.ext ?_
    rw [Chain.step_nodes hs, after_machine, ← ih]

end

/-! ## Neighbours -/

def Linked : Links (List Accepted) Accepted → Prop
  | x :: y :: rest =>
    (∀ k, keyed k x.applied = keyed k y.applied ++ keyed k x.pending) ∧ Linked (y :: rest)
  | _ => True

variable {x p : Link (List Accepted) Accepted} {c rest : Links (List Accepted) Accepted}

theorem Linked.tail (h : Linked (x :: c)) : Linked c := by
  cases c with
  | nil => trivial
  | cons y rest => exact h.2

theorem Linked.prefixed (h : Linked (x :: c)) (k : String) : ∀ y ∈ x :: c, keyed k y.applied <+: keyed k x.applied := by
  induction c generalizing x with
  | nil =>
    intro y hy
    obtain rfl := List.mem_singleton.mp hy
    exact List.prefix_rfl
  | cons z c ih =>
    intro y hy
    rcases List.mem_cons.mp hy with rfl | hy
    · exact List.prefix_rfl
    · rw [h.1 k]
      exact (ih h.2 y hy).trans (List.prefix_append ..)

theorem Linked.replace_tail {p' : Link (List Accepted) Accepted}
    {front rest' : Links (List Accepted) Accepted} (h : Linked (front ++ p :: rest))
    (happ : p'.applied = p.applied) (h' : Linked (p' :: rest')) : Linked (front ++ p' :: rest') := by
  induction front with
  | nil => exact h'
  | cons x front ih =>
    cases front with
    | nil =>
      refine ⟨fun k => ?_, h'⟩
      rw [happ]
      exact h.1 k
    | cons y front => exact ⟨h.1, ih h.2⟩

theorem linked_of_append : ∀ {front c : Links (List Accepted) Accepted}, Linked (front ++ c) → Linked c
  | [], _, h => h
  | _ :: _, _, h => linked_of_append h.tail

theorem Linked.relay : ∀ {us : List Accepted} {c : Links (List Accepted) Accepted}, Linked c →
    Linked (relay logUpdate us c)
  | _, [], _ => trivial
  | _, [_], _ => trivial
  | us, [x, y], h => by
    refine ⟨fun k => ?_, trivial⟩
    rw [foldl_logUpdate, foldl_logUpdate, keyed_append, keyed_append, h.1 k]
  | us, x :: y :: z :: rest, h => by
    refine ⟨fun k => ?_, h.2.relay⟩
    rw [foldl_logUpdate, foldl_logUpdate, keyed_append, keyed_append, h.1 k]

theorem relay_head (us : List Accepted) :
    ((relay logUpdate us c).head?.map (·.applied)) = c.head?.map fun x => x.applied ++ us := by
  match c with
  | [] => rfl
  | [x] => simp [relay, foldl_logUpdate]
  | x :: y :: rest => simp [relay, foldl_logUpdate]

theorem Linked.accept (h : Linked c) (u : Accepted) : Linked (c.modifyHead (·.take logUpdate u)) := by
  match c, h with
  | [], _ => trivial
  | [x], _ => trivial
  | x :: y :: rest, h =>
    refine ⟨fun k => ?_, h.2⟩
    show keyed k (x.applied ++ [u]) = keyed k y.applied ++ keyed k (x.pending ++ [u])
    rw [keyed_append, keyed_append, h.1 k, List.append_assoc]

theorem chain_fresh {σ υ : Type} (empty : σ) (n : Nat) :
    chain (fresh (υ := υ) empty n) = List.replicate n ⟨empty, [], true⟩ :=
  List.filter_eq_self.mpr fun m hm => by rw [List.eq_of_mem_replicate hm]

theorem linked_fresh : ∀ n : Nat, Linked (List.replicate n ⟨[], [], true⟩)
  | 0 => trivial
  | 1 => trivial
  | n + 2 => ⟨fun _ => rfl, linked_fresh (n + 1)⟩

/-! ## The invariant -/

/-- Neighbours are linked, the head's log is in order and older than `next`, and a node that is down
has nothing pending. -/
structure Sound (t : NumberedChain) : Prop where
  linked : Linked (chain t.nodes)
  head : ∀ log, (chain t.nodes).head?.map (·.applied) = some log →
    InOrder log ∧ ∀ u ∈ log, u.1 < t.next
  down : DownEmpty t.nodes

variable {t : NumberedChain}

/-- Every live node's log is in order, and older than `next`. -/
theorem Sound.inOrder (h : Sound t) : ∀ n ∈ chain t.nodes, InOrder n.applied ∧ ∀ u ∈ n.applied, u.1 < t.next := by
  intro n hn
  cases hc : chain t.nodes with
  | nil =>
    rw [hc] at hn
    cases hn
  | cons x rest =>
    obtain ⟨horder, hold⟩ := h.head x.applied (by rw [hc]; rfl)
    have hpre := fun k => (hc ▸ h.linked).prefixed k n (hc ▸ hn)
    constructor
    · intro k
      exact (horder k).sublist (hpre k).sublist
    · intro u hu
      exact hold u (mem_keyed.mp ((hpre u.2.1).subset (mem_keyed.mpr ⟨hu, rfl⟩))).1

theorem inOrder_append {log : List Accepted} {u : Accepted} (h : InOrder log)
    (hold : ∀ v ∈ log, v.1 < u.1) : InOrder (log ++ [u]) := by
  intro k
  rw [keyed_append, List.pairwise_append]
  refine ⟨h k, (List.pairwise_singleton ..).sublist List.filter_sublist, fun a ha b hb => ?_⟩
  obtain rfl := List.mem_singleton.mp (mem_keyed.mp hb).1
  exact hold a (mem_keyed.mp ha).1

theorem Linked.takeBack (h : Linked (p :: x :: rest))
    (hmix : rest ≠ [] → ∀ u ∈ p.pending, ∀ v ∈ x.pending, u.2.1 ≠ v.2.1) : Linked (p.takeBack x.pending :: rest) := by
  cases rest with
  | nil => trivial
  | cons y rest =>
    refine ⟨fun k => ?_, h.2.2⟩
    have hp := h.1 k
    rw [h.2.1 k, List.append_assoc] at hp
    show keyed k p.applied = _ ++ keyed k (p.pending ++ x.pending)
    rw [keyed_append, hp]
    -- one of the two has nothing of this key pending
    by_cases hnil : keyed k p.pending = []
    · rw [hnil, List.append_nil, List.nil_append]
    · obtain ⟨u, hu⟩ := List.exists_mem_of_ne_nil _ hnil
      have hxnil : keyed k x.pending = [] := by
        refine List.eq_nil_iff_forall_not_mem.mpr fun v hv => ?_
        obtain ⟨hup, huk⟩ := mem_keyed.mp hu
        obtain ⟨hvp, hvk⟩ := mem_keyed.mp hv
        exact hmix (List.cons_ne_nil y rest) u hup v hvp (huk.trans hvk.symm)
      rw [hxnil, List.append_nil, List.nil_append]

theorem Sound.fail (h : Sound t) {i : Nat} {n : Nat} (hn : t.next ≤ n) (hi : i < t.nodes.length)
    (hmix : ¬ Mixes (fun u : Accepted => u.2.1) t.nodes i) : Sound ⟨n, Links.fail t.nodes i⟩ := by
  obtain ⟨x, hx⟩ : ∃ x, t.nodes[i]? = some x := ⟨_, List.getElem?_eq_getElem hi⟩
  have holder : ∀ log : List Accepted, InOrder log ∧ (∀ u ∈ log, u.1 < t.next) →
      InOrder log ∧ ∀ u ∈ log, u.1 < n := fun log hlog =>
    ⟨hlog.1, fun u hu => Nat.lt_of_lt_of_le (hlog.2 u hu) hn⟩
  cases halive : x.alive with
  | false =>
    rw [fail_dead hx halive (h.down i x hx halive)]
    exact ⟨h.linked, fun log hlog => holder log (h.head log hlog), h.down⟩
  | true =>
    obtain ⟨before, after, hsplit, hafter, hclosed⟩ := chain_fail hx halive
    have hlinked := hsplit ▸ h.linked
    rcases hclosed with ⟨rfl, hfail⟩ | ⟨front, p, j, rfl, hpred, hp, hfail⟩
    · -- the head fails: the node behind it is the head now
      refine ⟨by rw [hfail]; exact Linked.tail hlinked, fun log hlog => ?_, h.down.fail⟩
      rw [hfail] at hlog
      obtain ⟨y, hy, rfl⟩ := Option.map_eq_some_iff.mp hlog
      refine holder y.applied (h.inOrder y ?_)
      rw [hsplit]
      exact List.mem_cons_of_mem x (List.mem_of_head? hy)
    · rw [List.append_assoc, List.singleton_append] at hsplit hlinked
      refine ⟨?_, fun log hlog => ?_, h.down.fail⟩
      · rw [hfail]
        refine Linked.replace_tail hlinked rfl ((linked_of_append hlinked).takeBack fun hne u hu v hv => ?_)
        intro hkey
        refine hmix ⟨j, hpred, hafter hne, u, ?_, v, ?_, hkey⟩
        · rwa [pendingAt_of_get hp]
        · rwa [pendingAt_of_get hx]
      · refine holder log (h.head log ?_)
        rw [hfail] at hlog
        rw [hsplit]
        cases front with
        | nil => exact hlog
        | cons z front => exact hlog

/-- **One command keeps the chain sound**, unless it mixes pending updates of one key. -/
theorem Sound.after (h : Sound t) (m : Move Update)
    (hm : ∀ i, m = .fail i → ¬ Mixes Prod.fst t.machine.nodes i) : Sound (t.after m) := by
  have hlt : ∀ log : List Accepted, InOrder log ∧ (∀ u ∈ log, u.1 < t.next) →
      InOrder log ∧ ∀ u ∈ log, u.1 < t.next + 1 := fun log hlog =>
    ⟨hlog.1, fun u hu => Nat.lt_succ_of_lt (hlog.2 u hu)⟩
  cases m with
  | none => exact ⟨h.linked, fun log hlog => hlt log (h.head log hlog), h.down⟩
  | init n =>
    have hchain : chain (t.after (.init n)).nodes = List.replicate n ⟨[], [], true⟩ := chain_fresh [] n
    refine ⟨by rw [hchain]; exact linked_fresh n, fun log hlog => ?_, downEmpty_fresh [] n⟩
    obtain ⟨x, hx, rfl⟩ := Option.map_eq_some_iff.mp hlog
    rw [hchain] at hx
    obtain rfl := List.eq_of_mem_replicate (List.mem_of_head? hx)
    exact ⟨fun _ => List.Pairwise.nil, List.forall_mem_nil _⟩
  | write u =>
    have hchain : chain (t.after (.write u)).nodes =
        (chain t.nodes).modifyHead (·.take logUpdate (t.next, u)) := chain_accept _ _
    refine ⟨by rw [hchain]; exact h.linked.accept _, fun log hlog => ?_, h.down.accept _⟩
    rw [hchain] at hlog
    cases hc : chain t.nodes with
    | nil =>
      rw [hc] at hlog
      cases hlog
    | cons x rest =>
      rw [hc] at hlog
      obtain rfl : x.applied ++ [(t.next, u)] = log := Option.some.inj hlog
      obtain ⟨horder, hold⟩ := h.head x.applied (by rw [hc]; rfl)
      refine ⟨inOrder_append horder hold, fun v hv => ?_⟩
      rcases List.mem_append.mp hv with hv | hv
      · exact Nat.lt_succ_of_lt (hold v hv)
      · rw [List.mem_singleton.mp hv]
        exact Nat.lt_succ_self _
  | propagate =>
    have hchain : chain (t.after .propagate).nodes = relay logUpdate [] (chain t.nodes) :=
      chain_propagate _
    refine ⟨by rw [hchain]; exact h.linked.relay, fun log hlog => hlt log (h.head log ?_),
      h.down.propagate⟩
    rw [hchain, relay_head] at hlog
    simpa using hlog
  | fail i =>
    show Sound ⟨t.next + 1, if t.nodes.length ≤ i then t.nodes else Links.fail t.nodes i⟩
    by_cases hi : t.nodes.length ≤ i
    · rw [if_pos hi]
      exact ⟨h.linked, fun log hlog => hlt log (h.head log hlog), h.down⟩
    · rw [if_neg hi]
      refine h.fail (Nat.le_succ _) (Nat.not_le.mp hi) fun hmix => ?_
      exact hm i rfl (mixes_mapped.mpr hmix)

/-! ## Convergence -/

/-- Nothing is pending more than `d` nodes in front of the last one. -/
def Drained {σ υ : Type} (d : Nat) : Links σ υ → Prop
  | [] => True
  | x :: rest => (d < rest.length → x.pending = []) ∧ Drained d rest

section

variable {σ υ : Type} {put : σ → υ → σ} {d : Nat} {c : Links σ υ}

theorem Drained.mono {e : Nat} (hde : d ≤ e) : ∀ {c : Links σ υ}, Drained d c → Drained e c
  | [], _ => trivial
  | _ :: _, h => ⟨fun hlt => h.1 (Nat.lt_of_le_of_lt hde hlt), Drained.mono hde h.2⟩

theorem drained_of_length : ∀ {c : Links σ υ}, c.length ≤ d + 1 → Drained d c
  | [], _ => trivial
  | x :: rest, h => by
    rw [List.length_cons] at h
    exact ⟨fun hlt => absurd hlt (by omega), drained_of_length (by omega)⟩

theorem length_relay : ∀ (us : List υ) (c : Links σ υ), (relay put us c).length = c.length
  | _, [] => rfl
  | _, [_] => rfl
  | _, x :: y :: rest => congrArg Nat.succ (length_relay x.pending (y :: rest))

/-- **One propagation brings everything pending one node closer to the tail.** -/
theorem Drained.relay : ∀ {us : List υ} {c : Links σ υ}, (d + 1 < c.length → us = []) →
    Drained (d + 1) c → Drained d (relay put us c)
  | _, [], _, _ => trivial
  | _, [_], _, _ => ⟨fun _ => rfl, trivial⟩
  | us, x :: y :: rest, hus, h => by
    refine ⟨fun hlt => hus ?_, Drained.relay h.1 h.2⟩
    rw [length_relay] at hlt
    exact Nat.succ_lt_succ hlt

theorem Drained.takeBack {p x : Link σ υ} {rest : Links σ υ} : ∀ {front : Links σ υ},
    Drained d (front ++ p :: x :: rest) → Drained d (front ++ p.takeBack x.pending :: rest)
  | [], h => by
    refine ⟨fun hlt => ?_, h.2.2⟩
    show p.pending ++ x.pending = []
    rw [h.1 (Nat.lt_succ_of_lt hlt), h.2.1 hlt, List.append_nil]
  | y :: front, h => by
    refine ⟨fun hlt => h.1 ?_, Drained.takeBack h.2⟩
    simp only [List.append_eq, List.length_append, List.length_cons] at hlt ⊢
    omega

theorem Drained.fail {nodes : Links σ υ} (h : Drained d (chain nodes)) (hdown : DownEmpty nodes)
    {i : Nat} (hi : i < nodes.length) : Drained d (chain (Links.fail nodes i)) := by
  obtain ⟨x, hx⟩ : ∃ x, nodes[i]? = some x := ⟨_, List.getElem?_eq_getElem hi⟩
  cases halive : x.alive with
  | false => rwa [fail_dead hx halive (hdown i x hx halive)]
  | true =>
    obtain ⟨before, after, hsplit, -, hclosed⟩ := chain_fail hx halive
    rw [hsplit] at h
    rcases hclosed with ⟨rfl, hfail⟩ | ⟨front, p, j, rfl, -, -, hfail⟩
    · rw [hfail]
      exact h.2
    · rw [hfail]
      rw [List.append_assoc, List.singleton_append] at h
      exact h.takeBack

theorem Drained.effect {nodes : Links σ υ} (put : σ → υ → σ) (empty : σ) (h : Drained d (chain nodes))
    (hdown : DownEmpty nodes) {m : Move υ} (hm : ∀ u, m ≠ .write u) : Drained d (chain (effect put empty nodes m)) ∧
      (m = .propagate → Drained (d - 1) (chain (effect put empty nodes m))) := by
  cases m with
  | none => exact ⟨h, nofun⟩
  | write u => exact absurd rfl (hm u)
  | init n =>
    refine ⟨?_, nofun⟩
    show Drained d (chain (fresh empty n))
    rw [chain_fresh]
    clear hm
    induction n with
    | zero => trivial
    | succ n ih => exact ⟨fun _ => rfl, ih⟩
  | propagate =>
    have hnext : Drained (d - 1) (chain (propagate put nodes).1) := by
      rw [chain_propagate]
      exact Drained.relay (fun _ => rfl) (h.mono (by omega))
    exact ⟨hnext.mono (Nat.sub_le d 1), fun _ => hnext⟩
  | fail i =>
    refine ⟨?_, nofun⟩
    show Drained d (chain (if _ then _ else _))
    split
    · exact h
    · rename_i hi
      exact h.fail hdown (Nat.not_le.mp hi)

end

theorem Linked.agree (h : Linked c) (hd : Drained 0 c) : ∀ x ∈ c, ∀ y ∈ c, ∀ k,
    keyed k x.applied = keyed k y.applied := by
  have hhead : ∀ {x : Link (List Accepted) Accepted} {c}, Linked (x :: c) → Drained 0 (x :: c) →
      ∀ y ∈ x :: c, ∀ k, keyed k y.applied = keyed k x.applied := by
    intro x c
    induction c generalizing x with
    | nil =>
      intro _ _ y hy k
      rw [List.mem_singleton.mp hy]
    | cons z c ih =>
      intro h hd y hy k
      rcases List.mem_cons.mp hy with rfl | hy
      · rfl
      · rw [ih h.2 hd.2 y hy k, h.1 k, hd.1 (Nat.succ_pos _)]
        exact (List.append_nil _).symm
  intro x hx y hy k
  cases c with
  | nil => cases hx
  | cons z c => rw [hhead h hd x hx k, hhead h hd y hy k]

/-! ## Runs -/

theorem move_propagate {l : Line} (h : l.command = "propagate") : Chain.move l = .propagate := by
  obtain ⟨command, args⟩ := l
  subst h
  rfl

theorem command_of_write {l : Line} {u : Update} (h : Chain.move l = .write u) : l.command = "write" := by
  obtain ⟨command, args⟩ := l
  unfold Chain.move at h
  dsimp only at h
  split at h
  · split at h
    · split at h
      · cases h
      · cases h
    · cases h
  · rfl
  · cases h
  · split at h
    · cases h
    · cases h
  · cases h

theorem downEmpty_number (ls : List Line) : DownEmpty (number ls).nodes := by
  induction ls using List.reverseRecOn with
  | nil => exact fun i n hn => absurd hn (by simp [number])
  | append_singleton ls l ih =>
    rw [number_append]
    exact ih.effect _

/-- **Every propagation without a write brings everything pending one node closer to the tail.** -/
theorem drained_number (ls₁ ls₂ : List Line) (hquiet : ∀ l ∈ ls₂, l.command ≠ "write") :
    Drained ((live (number ls₁).nodes).length - (ls₂.filter (·.command == "propagate")).length)
      (chain (number (ls₁ ++ ls₂)).nodes) := by
  induction ls₂ using List.reverseRecOn with
  | nil =>
    rw [List.append_nil]
    refine drained_of_length ?_
    rw [length_chain]
    exact Nat.le_succ _
  | append_singleton ls₂ l ih =>
    have hd := ih fun l' hl' => hquiet l' (List.mem_append_left _ hl')
    have hl : ∀ u, (Chain.move l).map (fun u => ((number (ls₁ ++ ls₂)).next, u)) ≠ .write u := by
      intro u hu
      cases hm : Chain.move l with
      | write w => exact hquiet l (by simp) (command_of_write hm)
      | _ =>
        rw [hm] at hu
        simp [Move.map] at hu
    obtain ⟨hsame, hnext⟩ := hd.effect logUpdate [] (downEmpty_number _) hl
    rw [← List.append_assoc, number_append, List.filter_append, List.length_append]
    by_cases hp : l.command = "propagate"
    · rw [List.filter_cons_of_pos (by simpa using hp)]
      exact hnext (by rw [move_propagate hp]; rfl)
    · rw [List.filter_cons_of_neg (by simpa using hp)]
      exact hsame

section

variable [Host] {s : Chain} {es : List (Event Chain Line Value)}

theorem sound_number (hrun : Run (onLine Chain.step) Chain.empty es s)
    (hes : ∀ e ∈ es, ¬ Reorders e.before e.input) : Sound (number (es.map Event.input)) := by
  refine (hrun.history_invariant
    (P := fun es s => s = (number (es.map Event.input)).machine ∧ Sound (number (es.map Event.input)))
    (G := fun e => ¬ Reorders e.before e.input) ⟨rfl, ?_⟩ ?_ hes).2
  · exact ⟨trivial, fun log h => absurd h (by simp [number, chain]), downEmpty_number []⟩
  · rintro es s l s' v ⟨hs, hsound⟩ hl hstep
    rw [List.map_append, List.map_singleton, number_append]
    refine ⟨Chain.ext ?_, hsound.after _ fun i hi hmix => hl ⟨i, hi, ?_⟩⟩
    · rw [Chain.step_nodes hstep, after_machine, hs]
    · rwa [hs]

/-- **The chain keeps the order of its head** along every run in which no failure puts older updates
of a key behind newer ones. -/
theorem chain_in_order (hrun : Run (onLine Chain.step) Chain.empty es s)
    (hes : ∀ e ∈ es, ¬ Reorders e.before e.input) :
    s = (number (es.map Event.input)).machine ∧
    (∀ n ∈ chain (number (es.map Event.input)).nodes, InOrder n.applied) ∧
    ∀ es₁ es₂ s₁, es = es₁ ++ es₂ → Run (onLine Chain.step) Chain.empty es₁ s₁ →
      (∀ e ∈ es₂, e.input.command ≠ "write") →
      (live s₁.nodes).length ≤ (es₂.filter (·.input.command == "propagate")).length →
      ∀ x ∈ chain s.nodes, ∀ y ∈ chain s.nodes, x.applied = y.applied := by
  have hsound := sound_number hrun hes
  refine ⟨number_eq hrun, fun n hn => (hsound.inOrder n hn).1, ?_⟩
  rintro es₁ es₂ s₁ rfl hrun₁ hquiet hcount x hx y hy
  have hs₁ := number_eq hrun₁
  have hdrained := drained_number (es₁.map Event.input) (es₂.map Event.input) fun l hl => by
    obtain ⟨e, he, rfl⟩ := List.mem_map.mp hl
    exact hquiet e he
  have hlive : (live (number (es₁.map Event.input)).nodes).length = (live s₁.nodes).length := by
    rw [hs₁]
    exact congrArg List.length (live_mapped _ _).symm
  have hdry : Drained 0 (chain (number ((es₁ ++ es₂).map Event.input)).nodes) := by
    rw [hlive, List.filter_map, List.length_map, ← List.map_append] at hdrained
    exact hdrained.mono (Nat.le_of_eq (Nat.sub_eq_zero_of_le hcount))
  rw [number_eq hrun, show chain (number _).machine.nodes = _ from chain_mapped _ _] at hx hy
  obtain ⟨x', hx', rfl⟩ := List.mem_map.mp hx
  obtain ⟨y', hy', rfl⟩ := List.mem_map.mp hy
  exact replay_congr (hsound.linked.agree hdry x' hx' y' hy')

end

/-! Three nodes: the second write is still pending at the head when the middle node fails with the
first one pending. Both of the two propagations that two live nodes need follow. -/

@[reducible] def noJson : Host := hostOf []

def untilFailure : List Line :=
  [⟨"init", ["3"]⟩, ⟨"write", ["k", "1"]⟩, ⟨"propagate", []⟩, ⟨"write", ["k", "2"]⟩, ⟨"fail", ["1"]⟩]

def afterFailure : List Line := [⟨"propagate", []⟩, ⟨"propagate", []⟩]

/-- What the live nodes hold for the key. -/
def heldOf (s : Chain) : List (Option Int) := (chain s.nodes).map fun n => n.applied["k"]?

theorem stale_tail : ∃ es₁ es₂ s₁ s, Run (onLine (@Chain.step noJson)) Chain.empty (es₁ ++ es₂) s ∧
    Run (onLine (@Chain.step noJson)) Chain.empty es₁ s₁ ∧
    es₁.map Event.input = untilFailure ∧ es₂.map Event.input = afterFailure ∧
    (live s₁.nodes).length = 2 ∧ heldOf s = [some 2, some 1] ∧
    (¬ ∀ n ∈ chain (number (untilFailure ++ afterFailure)).nodes, InOrder n.applied) ∧
    ¬ ∀ x ∈ chain s.nodes, ∀ y ∈ chain s.nodes, x.applied = y.applied := by
  let _ : Host := noJson
  obtain ⟨es₁, s₁, hrun₁, hinputs₁, hlive, es₂, s, hrun, hinputs₂, hheld⟩ : ∃ es₁ s₁,
      Run (onLine Chain.step) Chain.empty es₁ s₁ ∧ es₁.map Event.input = untilFailure ∧
      (live s₁.nodes).length = 2 ∧ ∃ es₂ s, Run (onLine Chain.step) Chain.empty (es₁ ++ es₂) s ∧
      es₂.map Event.input = afterFailure ∧ heldOf s = [some 2, some 1] :=
    ⟨_, _, run_of_exec untilFailure rfl, rfl, rfl, [_, _], _,
      run_of_exec (untilFailure ++ afterFailure) rfl, rfl, rfl⟩
  refine ⟨es₁, es₂, s₁, s, hrun, hrun₁, hinputs₁, hinputs₂, hlive, hheld, fun h => ?_, fun h => ?_⟩
  · obtain ⟨n, hn, hlog⟩ : ∃ n ∈ chain (number (untilFailure ++ afterFailure)).nodes,
        keyed "k" n.applied = [(3, "k", 2), (1, "k", 1)] := ⟨_, List.mem_of_getElem? (i := 1) rfl, rfl⟩
    have hsorted := h n hn "k"
    rw [hlog] at hsorted
    exact absurd hsorted (by decide)
  · have hall : ∀ a ∈ heldOf s, ∀ b ∈ heldOf s, a = b := by
      intro a ha b hb
      obtain ⟨x, hx, rfl⟩ := List.mem_map.mp ha
      obtain ⟨y, hy, rfl⟩ := List.mem_map.mp hb
      rw [h x hx y hy]
    rw [hheld] at hall
    cases hall (some 2) (by simp) (some 1) (by simp)

/-- The same failure, when the two pending updates are of different keys. -/
def failsApart : List Line :=
  [⟨"init", ["3"]⟩, ⟨"write", ["k", "1"]⟩, ⟨"propagate", []⟩, ⟨"write", ["j", "2"]⟩,
    ⟨"fail", ["1"]⟩, ⟨"propagate", []⟩, ⟨"propagate", []⟩]

/-- A failure event whose node shares no pending key with the one before it. -/
def apart (e : Event Chain Line Value) : Bool :=
  match Chain.move e.input with
  | .fail i =>
    match predecessor e.before.nodes i with
    | some p => (pendingAt e.before.nodes p).all fun u =>
        (pendingAt e.before.nodes i).all fun v => u.1 != v.1
    | none => true
  | _ => true

theorem chain_in_order_apart : ∃ es s, Run (onLine (@Chain.step noJson)) Chain.empty es s ∧
    es.map Event.input = failsApart ∧ (chain s.nodes).length = 2 ∧
    ∀ n ∈ chain (number failsApart).nodes, InOrder n.applied := by
  let _ : Host := noJson
  obtain ⟨es, s, hrun, hinputs, hlive, hall⟩ : ∃ es s, Run (onLine Chain.step) Chain.empty es s ∧
      es.map Event.input = failsApart ∧ (chain s.nodes).length = 2 ∧ es.all apart = true :=
    ⟨_, _, run_of_exec failsApart rfl, rfl, rfl, rfl⟩
  refine ⟨es, s, hrun, hinputs, hlive, hinputs ▸ (chain_in_order hrun fun e he hbad => ?_).2.1⟩
  obtain ⟨i, hmove, p, hp, -, u, hu, v, hv, hkey⟩ := hbad
  have hapart := List.all_eq_true.mp hall e he
  simp only [apart, hmove, hp] at hapart
  have hne := List.all_eq_true.mp (List.all_eq_true.mp hapart u hu) v hv
  exact absurd hkey (by simpa using hne)

end BuildYourOwn.Replication
