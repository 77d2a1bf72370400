import Mathlib.Data.Finset.Card
import BuildYourOwn.Consensus.Paxos

/-!
# `multi-paxos`: one prepare for every slot

Model of `Slot` and `MultiPaxos` in `disttest/examples/alg/paxos.rs`. A majority of promises makes the
proposer the leader of every slot; a slot is chosen once enough acceptors have been reported to have
accepted it. The slot keeps them by the word they were named with.

* The loop of `progress` counts up from 1 while the slot is chosen, so it takes at most one round more
  than there are slots.
-/

namespace BuildYourOwn.Consensus

open Topic

/-- `Slot`: one slot of the replicated log, with the ballot its proposal was made under. -/
structure Slot where
  value : Option String
  ballot : Int
  acceptedBy : Finset String
  chosen : Bool

namespace Slot

/-- `Slot::default`. -/
def fresh : Slot where
  value := none
  ballot := 0
  acceptedBy := ∅
  chosen := false

def propose (sl : Slot) (ballot : Int) (value : String) : Slot :=
  if sl.chosen then sl
  else
    let sl := if sl.ballot ≠ ballot then { sl with acceptedBy := ∅, ballot := ballot } else sl
    { sl with value := some value }

def accept (sl : Slot) (majority : Nat) (name : String) : Slot :=
  let sl : Slot := { sl with acceptedBy := insert name sl.acceptedBy }
  if majority ≤ sl.acceptedBy.card then { sl with chosen := true } else sl

theorem propose_cases (sl : Slot) (ballot : Int) (value : String) : (sl.chosen = true ∧ sl.propose ballot value = sl) ∨
    (sl.chosen = false ∧ sl.propose ballot value =
      { value := some value
        ballot := ballot
        acceptedBy := if sl.ballot = ballot then sl.acceptedBy else ∅
        chosen := false }) := by
  unfold propose
  cases hchosen : sl.chosen with
  | true => exact .inl ⟨rfl, rfl⟩
  | false =>
    refine .inr ⟨rfl, ?_⟩
    by_cases hballot : sl.ballot = ballot
    · simp [hballot, hchosen]
    · simp [hballot]

theorem accept_spec (sl : Slot) (majority : Nat) (name : String) :
    (sl.accept majority name).value = sl.value ∧ (sl.accept majority name).ballot = sl.ballot ∧
    (sl.accept majority name).acceptedBy = insert name sl.acceptedBy ∧
    ((sl.accept majority name).chosen = true ↔ sl.chosen = true ∨ majority ≤ (insert name sl.acceptedBy).card) := by
  unfold accept
  dsimp only
  split
  · rename_i hmajority
    exact ⟨rfl, rfl, rfl, iff_of_true rfl (.inr hmajority)⟩
  · rename_i hmajority
    exact ⟨rfl, rfl, rfl, (or_iff_left hmajority).symm⟩

end Slot

/-- `MultiPaxos`: the acceptors' promises, the leader's ballot, and the slots. -/
structure MultiPaxos where
  promised : List Int
  ballot : Int
  leader : Bool
  everLeader : Bool
  slots : IntMap Slot

namespace MultiPaxos

def majority (s : MultiPaxos) : Nat := s.promised.length / 2 + 1

def isChosen (s : MultiPaxos) (i : Int) : Bool :=
  match s.slots[i]? with
  | some sl => sl.chosen
  | none => false

/-- The contiguous prefix of `progress`. -/
def index (s : MultiPaxos) : Nat :=
  ((List.range s.slots.size).takeWhile fun i => s.isChosen (i + 1)).length

/-- The holes of `progress`, below the highest chosen slot. -/
def gaps (s : MultiPaxos) : List Int :=
  let highest := ((s.slots.toList.filter fun p => p.2.chosen).map Prod.fst).max?.getD 0
  ((List.range highest.toNat).map fun i => (i : Int) + 1).filter fun i => !s.isChosen i

/-- The state `init` leaves. -/
def init (n : Nat) : MultiPaxos where
  promised := List.replicate n 0
  ballot := 0
  leader := false
  everLeader := false
  slots := ∅

/-- The acceptors promise `n` where it is higher. -/
def raise (promised : List Int) (n : Int) : List Int := promised.map fun p => if p < n then n else p

theorem length_raise (promised : List Int) (n : Int) : (raise promised n).length = promised.length :=
  List.length_map ..

/-- `prepare`: one phase one covers every slot from here on. -/
def prepare (s : MultiPaxos) (n : Int) : MultiPaxos × Value :=
  let promised := s.promised.countP fun p => decide (p < n)
  let won := decide (s.majority ≤ promised)
  let s := { s with promised := raise s.promised n }
  let s := if won then { s with leader := true, everLeader := true, ballot := n } else s
  (s, .obj [("promised", .num promised), ("leader", .bool s.leader), ("n", .num n)])

def phase (s : MultiPaxos) (args : List String) : Value :=
  let answer (phase reason : String) : Value := .obj [("phase", .str phase), ("reason", .str reason)]
  match int args 0 with
  | .error _ => err "argument 0 is not a slot number"
  | .ok _ =>
    if s.leader then answer "accept" "stable leader"
    else if s.everLeader then answer "prepare" "preempted"
    else answer "prepare" "no leader"

def propose (s : MultiPaxos) (slot : Int) (value : String) : MultiPaxos × Value :=
  let answer (ok : Bool) (phase : String) (trips : Int) (error : Value) : Value :=
    .obj [("ok", .bool ok), ("phase", .str phase), ("round_trips", .num trips), ("error", error)]
  if s.leader = false then
    (s, answer false "prepare" 2
      (.str "phase one has to run first: this proposer is not the leader"))
  else
    let entry := s.slots.getD slot Slot.fresh
    ({ s with slots := s.slots.insert slot (entry.propose s.ballot value) },
      answer true "accept" 1 .null)

/-- `accepted`, with its arguments read. -/
def accepted (s : MultiPaxos) (slot : Int) (name : String) : MultiPaxos × Value :=
  match s.slots[slot]? with
  | none => (s, err ("slot " ++ toString slot ++ " has no proposal yet"))
  | some sl =>
    if sl.value.isNone then (s, err ("slot " ++ toString slot ++ " has no proposal yet"))
    else
      let sl := sl.accept s.majority name
      ({ s with slots := s.slots.insert slot sl },
        .obj [("chosen", .bool sl.chosen), ("value", strOr sl.value),
          ("count", .num sl.acceptedBy.card)])

def chosen (s : MultiPaxos) (slot : Int) : Value :=
  match s.slots[slot]? with
  | some sl =>
    if sl.chosen then .obj [("chosen", .bool true), ("value", strOr sl.value)]
    else .obj [("chosen", .bool false), ("value", .null)]
  | none => .obj [("chosen", .bool false), ("value", .null)]

def preempt (s : MultiPaxos) (n : Int) : MultiPaxos × Value :=
  let s := { s with
    promised := raise s.promised n
    leader := if s.ballot < n then false else s.leader }
  (s, .obj [("leader", .bool s.leader), ("promised_n", .num (s.promised.max?.getD 0))])

def state (s : MultiPaxos) : Value :=
  let slots := s.slots.toList.map fun p =>
    (toString p.1, Value.obj [("chosen", .bool p.2.chosen), ("value", strOr p.2.value)])
  .obj [("n", .num s.ballot), ("leader", .bool s.leader), ("slots", .obj slots),
    ("applied", .num s.index)]

def step [Host] (s : MultiPaxos) (command : String) (args : List String) : Handled MultiPaxos :=
  match command with
  | "init" => arg s (uint args 0) fun n =>
    if n < 1 then some (s, err "Multi-Paxos needs at least one acceptor")
    else some (init n, .obj [("ok", .bool true), ("acceptors", .num n),
      ("majority", .num (init n).majority)])
  | "prepare" => arg s (int args 0) fun n => some (s.prepare n)
  | "phase" => some (s, s.phase args)
  | "propose" => arg s (int args 0) fun slot => arg s (word args 1) fun value =>
    some (s.propose slot value)
  | "accepted" => arg s (int args 0) fun slot => arg s (word args 1) fun name =>
    arg s (acceptorIndex s.promised.length args 1) fun _ => some (s.accepted slot name)
  | "chosen" => arg s (int args 0) fun slot => some (s, s.chosen slot)
  | "preempt" => arg s (int args 0) fun n => some (s.preempt n)
  | "applied" => some (s, .obj [("index", .num s.index), ("gaps", .arr (s.gaps.map .num))])
  | "state" => some (s, s.state)
  | other => some (s, err ("unknown command " ++ debugStr other))

end MultiPaxos

end BuildYourOwn.Consensus

/-!
## What a chosen slot of `multi-paxos` stands for

The reporters of a proposal are the acceptors that were reported to have accepted its slot while it was
the proposal there, value and ballot (`reporters`). A chosen slot should have a majority of them.

The slot counts words instead. That is the same as long as no two words name one acceptor and the words
were reported for the value that is there now; `accepted` checks neither the first (`a1` and `a01` count
twice), nor does `propose` start over when it puts another value in the slot under the ballot it already
has (`respells`, `reproposes`).

**`chosen_by_majority`**: in every run without these two, every chosen slot has a majority of reporters
for its value, and keeps that value.
-/

namespace BuildYourOwn.Consensus.MultiPaxos

open Lib Topic

variable {s s' : MultiPaxos} {sl : Slot} {l : Line} {o : Value} {n i : Nat} {k slot : Int}
  {v name value : String} {b : Int}

abbrev History := List (Event MultiPaxos Line Value)

def Chosen (s : MultiPaxos) (k : Int) (v : String) : Prop :=
  ∃ sl, s.slots[k]? = some sl ∧ sl.chosen = true ∧ sl.value = some v

/-! ## What a command does -/

/-- **What a step can do**: leave the slots alone, propose in one, or have one accepted. -/
inductive Moves [Host] (s : MultiPaxos) (l : Line) (s' : MultiPaxos) : Prop
  | quiet (hcount : s'.promised.length = s.promised.length) (hslots : s'.slots = s.slots)
  | propose (slot : Int) (value : String) (hl : l.command = "propose") (hslot : int l.args 0 = .ok slot)
      (hvalue : word l.args 1 = .ok value) (h : s' = (s.propose slot value).1)
  | accepted (slot : Int) (name : String) (j : Nat) (hl : l.command = "accepted")
      (hslot : int l.args 0 = .ok slot) (hname : word l.args 1 = .ok name)
      (hj : acceptorIndex s.promised.length l.args 1 = .ok j) (h : s' = (s.accepted slot name).1)

theorem prepare_moves [Host] (s : MultiPaxos) (l : Line) (m : Int) : Moves s l (s.prepare m).1 := by
  unfold prepare
  dsimp only
  split
  · exact Moves.quiet (length_raise ..) rfl
  · exact Moves.quiet (length_raise ..) rfl

theorem step_moves [Host] (hl : l.command ≠ "init") (hs : onLine step s l = some (s', o)) : Moves s l s' := by
  have hfst : ∀ {r : MultiPaxos × Value}, some r = some (s', o) → r.1 = s' := fun h =>
    congrArg Prod.fst (Option.some.inj h)
  obtain ⟨command, args⟩ := l
  have hstay : s' = s → Moves s ⟨command, args⟩ s' := by
    rintro rfl
    exact Moves.quiet rfl rfl
  unfold onLine step at hs
  dsimp only at hs
  split at hs
  case h_1 => exact absurd rfl hl
  case h_2 =>
    rcases arg_eq_some.mp hs with ⟨-, hsame⟩ | ⟨m, -, hs⟩
    · exact hstay hsame
    · exact hfst hs ▸ prepare_moves s _ m
  case h_3 => exact hstay (hfst hs).symm
  case h_4 =>
    rcases arg_eq_some.mp hs with ⟨-, hsame⟩ | ⟨slot, hslot, hs⟩
    · exact hstay hsame
    · rcases arg_eq_some.mp hs with ⟨-, hsame⟩ | ⟨value, hvalue, hs⟩
      · exact hstay hsame
      · exact Moves.propose slot value rfl hslot hvalue (hfst hs).symm
  case h_5 =>
    rcases arg_eq_some.mp hs with ⟨-, hsame⟩ | ⟨slot, hslot, hs⟩
    · exact hstay hsame
    · rcases arg_eq_some.mp hs with ⟨-, hsame⟩ | ⟨name, hname, hs⟩
      · exact hstay hsame
      · rcases arg_eq_some.mp hs with ⟨-, hsame⟩ | ⟨j, hj, hs⟩
        · exact hstay hsame
        · exact Moves.accepted slot name j rfl hslot hname hj (hfst hs).symm
  case h_6 =>
    rcases arg_eq_some.mp hs with ⟨-, hsame⟩ | ⟨slot, -, hs⟩
    · exact hstay hsame
    · exact hstay (hfst hs).symm
  case h_7 =>
    rcases arg_eq_some.mp hs with ⟨-, hsame⟩ | ⟨m, -, hs⟩
    · exact hstay hsame
    · rw [← hfst hs]
      exact Moves.quiet (length_raise ..) rfl
  case h_8 => exact hstay (hfst hs).symm
  case h_9 => exact hstay (hfst hs).symm
  case h_10 => exact hstay (hfst hs).symm

/-! ## Reporters -/

/-- The acceptor that an event reports to have accepted the slot `k` while it held `v` under the ballot
`b`. -/
def reporter [Host] (n : Nat) (k : Int) (v : String) (b : Int) (e : Event MultiPaxos Line Value) :
    Option Nat :=
  if e.input.command = "accepted" then
    match int e.input.args 0, acceptorIndex n e.input.args 1, e.before.slots[k]? with
    | .ok k', .ok i, some sl => if k' = k ∧ sl.value = some v ∧ sl.ballot = b then some i else none
    | _, _, _ => none
  else none

def reporters [Host] (n : Nat) (k : Int) (v : String) (b : Int) (es : History) : Finset Nat :=
  (es.filterMap (reporter n k v b)).toFinset

theorem reporters_snoc [Host] {es : History} {e : Event MultiPaxos Line Value} :
    reporters n k v b es ⊆ reporters n k v b (es ++ [e]) := by
  intro i hi
  unfold reporters at hi ⊢
  rw [List.mem_toFinset] at hi ⊢
  rw [List.filterMap_append]
  exact List.mem_append_left _ hi

/-- **Chosen by a majority**: every chosen slot has a value, which a majority of the acceptors were
reported to have accepted under its ballot, and which it has kept since it was first chosen. -/
structure ByMajority [Host] (n : Nat) (es : History) (s : MultiPaxos) : Prop where
  valued : ∀ (k : Int) sl, s.slots[k]? = some sl → sl.chosen = true → ∃ v, sl.value = some v
  majority : ∀ (k : Int) sl v, s.slots[k]? = some sl → sl.chosen = true → sl.value = some v →
    n / 2 + 1 ≤ (reporters n k v sl.ballot es).card
  final : ∀ e ∈ es, ∀ k v, e.before.Chosen k v → s.Chosen k v

/-! ## The two ways to go wrong -/

/-- The leader puts another value in an open slot under the ballot that it already has, and the slot has
been accepted. -/
def reproposes (s : MultiPaxos) (l : Line) : Bool :=
  match int l.args 0, word l.args 1 with
  | .ok k, .ok v =>
    match s.slots[k]? with
    | some sl => l.command == "propose" && s.leader && !sl.chosen && sl.ballot == s.ballot &&
        decide (sl.acceptedBy ≠ ∅) && sl.value != some v
    | none => false
  | _, _ => false

/-- An acceptance of an open slot names an acceptor that it has under another word. -/
def respells (s : MultiPaxos) (l : Line) : Bool :=
  match int l.args 0, word l.args 1 with
  | .ok k, .ok name =>
    match s.slots[k]? with
    | some sl => l.command == "accepted" && !sl.chosen &&
        decide (∃ other ∈ sl.acceptedBy, other ≠ name ∧ parseName other = parseName name)
    | none => false
  | _, _ => false

/-- The event goes neither way and does not start over. -/
structure Kept (e : Event MultiPaxos Line Value) : Prop where
  runs : e.input.command ≠ "init"
  proposes : reproposes e.before e.input = false
  recognises : respells e.before e.input = false

/-! ## The invariant -/

structure Open [Host] (n : Nat) (es : History) (k : Int) (sl : Slot) : Prop where
  reported : ∀ name ∈ sl.acceptedBy, ∃ i v, parseName name = some (i + 1) ∧ sl.value = some v ∧
    i ∈ reporters n k v sl.ballot es
  distinct : ∀ a ∈ sl.acceptedBy, ∀ b ∈ sl.acceptedBy, parseName a = parseName b → a = b

/-- What holds of every state. -/
structure Inv [Host] (n : Nat) (es : History) (s : MultiPaxos) : Prop where
  count : s.promised.length = n
  valued : ∀ (k : Int) sl, s.slots[k]? = some sl → ∃ v, sl.value = some v
  opened : ∀ (k : Int) sl, s.slots[k]? = some sl → sl.chosen = false → Open n es k sl
  chosen : ∀ (k : Int) sl v, s.slots[k]? = some sl → sl.chosen = true → sl.value = some v →
    n / 2 + 1 ≤ (reporters n k v sl.ballot es).card

section

variable [Host] {es : History} {e : Event MultiPaxos Line Value}

theorem Open.snoc (h : Open n es k sl) : Open n (es ++ [e]) k sl := by
  refine ⟨fun name hname => ?_, h.distinct⟩
  obtain ⟨i, v, hi, hv, hmem⟩ := h.reported name hname
  exact ⟨i, v, hi, hv, reporters_snoc hmem⟩

theorem Open.card_le (h : Open n es k sl) (hv : sl.value = some v) :
    sl.acceptedBy.card ≤ (reporters n k v sl.ballot es).card := by
  refine Finset.card_le_card_of_injOn (fun name => (parseName name).getD 0 - 1) ?_ ?_
  · intro name hname
    obtain ⟨i, v', hi, hv', hmem⟩ := h.reported name hname
    obtain rfl := Option.mem_unique hv hv'
    dsimp only
    rw [hi, Option.getD_some, Nat.add_sub_cancel]
    exact hmem
  · intro a ha b hb hab
    obtain ⟨i, -, hi, -⟩ := h.reported a ha
    obtain ⟨j, -, hj, -⟩ := h.reported b hb
    dsimp only at hab
    rw [hi, hj, Option.getD_some, Option.getD_some, Nat.add_sub_cancel, Nat.add_sub_cancel] at hab
    exact h.distinct a ha b hb (by rw [hi, hj, hab])

theorem Inv.put (h : Inv n es s) (hcount : s'.promised.length = n)
    (hslots : s'.slots = s.slots.insert k sl) (hvalued : ∃ v, sl.value = some v)
    (hopen : sl.chosen = false → Open n (es ++ [e]) k sl) (hchosen : sl.chosen = true → ∀ v, sl.value = some v →
      n / 2 + 1 ≤ (reporters n k v sl.ballot (es ++ [e])).card) : Inv n (es ++ [e]) s' := by
  have hget : ∀ k' : Int, s'.slots[k']? = if k = k' then some sl else s.slots[k']? := fun k' => by
    rw [hslots]
    exact IntMap.get_insert ..
  refine ⟨hcount, fun k' sl' hk' => ?_, fun k' sl' hk' hc => ?_, fun k' sl' v hk' hc hv => ?_⟩
  · rw [hget] at hk'
    split at hk'
    · exact Option.some.inj hk' ▸ hvalued
    · exact h.valued k' sl' hk'
  · rw [hget] at hk'
    split at hk'
    · rename_i hk
      cases hk'
      exact hk ▸ hopen hc
    · exact (h.opened k' sl' hk' hc).snoc
  · rw [hget] at hk'
    split at hk'
    · rename_i hk
      cases hk'
      exact hk ▸ hchosen hc v hv
    · exact (h.chosen k' sl' v hk' hc hv).trans (Finset.card_le_card reporters_snoc)

theorem Inv.same (h : Inv n es s) (hcount : s'.promised.length = s.promised.length)
    (hslots : s'.slots = s.slots) : Inv n (es ++ [e]) s' := by
  refine ⟨hcount.trans h.count, hslots ▸ h.valued, fun k sl hk hc => ?_, fun k sl v hk hc hv => ?_⟩
  · rw [hslots] at hk
    exact (h.opened k sl hk hc).snoc
  · rw [hslots] at hk
    exact (h.chosen k sl v hk hc hv).trans (Finset.card_le_card reporters_snoc)

/-- **A proposal**, of the value that is there or in a slot that nobody has accepted. -/
theorem Inv.propose (h : Inv n es s) (hl : l.command = "propose") (hk : int l.args 0 = .ok k)
    (hv : word l.args 1 = .ok v) (hkept : reproposes s l = false) : Inv n (es ++ [e]) (s.propose k v).1 := by
  unfold MultiPaxos.propose
  dsimp only
  split
  · exact h.same rfl rfl
  · rename_i hleader
    have hleader : s.leader = true := by simpa using hleader
    obtain ⟨entry, hgetD, hentry⟩ : ∃ entry, s.slots.getD k Slot.fresh = entry ∧
        (s.slots[k]? = some entry ∨ entry = Slot.fresh) := by
      rw [Std.ExtTreeMap.getD_eq_getD_getElem?]
      cases s.slots[k]? with
      | none => exact ⟨_, rfl, .inr rfl⟩
      | some sl => exact ⟨sl, rfl, .inl rfl⟩
    rw [hgetD]
    rcases entry.propose_cases s.ballot v with ⟨hchosen, hsame⟩ | ⟨hopen, hnew⟩
    · -- a chosen value is final
      have hin : s.slots[k]? = some entry := hentry.resolve_right fun hfresh => by
        rw [hfresh] at hchosen
        simp [Slot.fresh] at hchosen
      rw [hsame]
      refine h.put h.count rfl (h.valued k entry hin) (fun hc => ?_) fun _ v hv => ?_
      · cases hchosen.symm.trans hc
      · exact (h.chosen k entry v hin hchosen hv).trans (Finset.card_le_card reporters_snoc)
    · rw [hnew]
      refine h.put h.count rfl ⟨v, rfl⟩ (fun _ => ?_) nofun
      by_cases hballot : entry.ballot = s.ballot
      · rw [if_pos hballot]
        rcases hentry with hin | rfl
        · by_cases hnone : entry.acceptedBy = ∅
          · rw [hnone]
            exact ⟨fun name hname => absurd hname (Finset.notMem_empty _),
              fun a ha => absurd ha (Finset.notMem_empty _)⟩
          · have hsame : entry.value = some v := by
              unfold reproposes at hkept
              rw [hk, hv] at hkept
              dsimp only at hkept
              rw [hin] at hkept
              simpa [hl, hleader, hopen, hballot, hnone] using hkept
            have hold : Open n (es ++ [e]) k entry := (h.opened k entry hin hopen).snoc
            refine ⟨fun name hname => ?_, hold.distinct⟩
            obtain ⟨i, v', hi, hv', hmem⟩ := hold.reported name hname
            rw [hballot] at hmem
            exact ⟨i, v', hi, hsame.symm.trans hv', hmem⟩
        · exact ⟨fun name hname => absurd hname (Finset.notMem_empty _),
            fun a ha => absurd ha (Finset.notMem_empty _)⟩
      · rw [if_neg hballot]
        exact ⟨fun name hname => absurd hname (Finset.notMem_empty _),
          fun a ha => absurd ha (Finset.notMem_empty _)⟩

theorem Inv.accepted (h : Inv n es s) {j : Nat} (hl : l.command = "accepted")
    (hk : int l.args 0 = .ok k) (hname : word l.args 1 = .ok name)
    (hi : acceptorIndex s.promised.length l.args 1 = .ok j) (hkept : respells s l = false) :
    Inv n (es ++ [⟨s, l, o, s'⟩]) (s.accepted k name).1 := by
  rw [h.count] at hi
  unfold MultiPaxos.accepted
  cases hin : s.slots[k]? with
  | none => exact h.same rfl rfl
  | some sl =>
    dsimp only
    split
    · exact h.same rfl rfl
    · obtain ⟨v, hv⟩ := h.valued k sl hin
      obtain ⟨name', hname', hparse, hj⟩ := acceptorIndex_eq_ok.mp hi
      obtain rfl := Except.ok.inj (hname.symm.trans hname')
      have hreport : j ∈ reporters n k v sl.ballot (es ++ [⟨s, l, o, s'⟩]) := by
        unfold reporters
        rw [List.mem_toFinset, List.filterMap_append]
        refine List.mem_append_right _ (List.mem_filterMap.mpr ⟨_, List.mem_singleton_self _, ?_⟩)
        unfold reporter
        rw [if_pos hl, hk, hi, hin]
        exact if_pos ⟨rfl, hv, rfl⟩
      have hvalue : (sl.accept s.majority name).value = sl.value ∧
          (sl.accept s.majority name).ballot = sl.ballot ∧
          (sl.accept s.majority name).acceptedBy = insert name sl.acceptedBy ∧
          ((sl.accept s.majority name).chosen = true ↔
            sl.chosen = true ∨ s.majority ≤ (insert name sl.acceptedBy).card) := sl.accept_spec ..
      obtain ⟨hvalue, hballot, hby, hchosen⟩ := hvalue
      -- an open slot with one more word
      have hopened : sl.chosen = false →
          Open n (es ++ [⟨s, l, o, s'⟩]) k (sl.accept s.majority name) := by
        intro hopen
        have hold : Open n (es ++ [⟨s, l, o, s'⟩]) k sl := (h.opened k sl hin hopen).snoc
        have hother : ∀ other ∈ sl.acceptedBy, parseName other = parseName name → other = name := by
          intro other hmem hsame
          unfold respells at hkept
          rw [hk, hname] at hkept
          dsimp only at hkept
          rw [hin] at hkept
          by_contra hne
          have htrue : decide (∃ other ∈ sl.acceptedBy, other ≠ name ∧
              parseName other = parseName name) = true :=
            decide_eq_true ⟨other, hmem, hne, hsame⟩
          simp only [hl, hopen, htrue] at hkept
          cases hkept
        refine ⟨fun a ha => ?_, fun a ha b hb hab => ?_⟩
        · rw [hby, Finset.mem_insert] at ha
          rw [hvalue, hballot]
          rcases ha with rfl | ha
          · exact ⟨j, v, hparse, hv, hreport⟩
          · exact hold.reported a ha
        · rw [hby, Finset.mem_insert] at ha hb
          rcases ha with rfl | ha
          · rcases hb with rfl | hb
            · rfl
            · exact (hother b hb hab.symm).symm
          · rcases hb with rfl | hb
            · exact hother a ha hab
            · exact hold.distinct a ha b hb hab
      refine h.put h.count rfl ⟨v, hvalue.trans hv⟩ (fun hc => ?_) fun hc v' hv' => ?_
      · refine hopened ?_
        cases hopen : sl.chosen with
        | false => rfl
        | true => cases hc.symm.trans (hchosen.mpr (Or.inl hopen))
      · cases hopen : sl.chosen with
        | true =>
          rw [hvalue] at hv'
          rw [hballot]
          exact (h.chosen k sl v' hin hopen hv').trans (Finset.card_le_card reporters_snoc)
        | false =>
          have hmajority := (hchosen.mp hc).resolve_left fun ht => by
            rw [hopen] at ht
            cases ht
          have hcard := (hopened hopen).card_le hv'
          rw [hby] at hcard
          unfold majority at hmajority
          rw [h.count] at hmajority
          exact hmajority.trans hcard

/-! ## Runs -/

/-- **Every command** that goes neither way keeps the invariant. -/
theorem step_inv (h : Inv n es s) (hkept : Kept ⟨s, l, o, s'⟩) (hs : onLine step s l = some (s', o)) :
    Inv n (es ++ [⟨s, l, o, s'⟩]) s' := by
  rcases step_moves hkept.runs hs with ⟨hcount, hslots⟩ | ⟨slot, value, hl, hslot, hvalue, h'⟩ |
    ⟨slot, name, j, hl, hslot, hname, hj, h'⟩
  · exact h.same hcount hslots
  · have hnext : Inv n (es ++ [⟨s, l, o, s'⟩]) (s.propose slot value).1 :=
      h.propose hl hslot hvalue hkept.proposes
    rw [← h'] at hnext
    exact hnext
  · have hnext : Inv n (es ++ [⟨s, l, o, s'⟩]) (s.accepted slot name).1 :=
      h.accepted hl hslot hname hj hkept.recognises
    rw [← h'] at hnext
    exact hnext

theorem inv_init (n : Nat) : Inv n [] (init n) :=
  ⟨List.length_replicate, fun k sl hk => absurd hk (by simp [init]),
    fun k sl hk => absurd hk (by simp [init]), fun k sl v hk => absurd hk (by simp [init])⟩

/-! ## A chosen value stays -/

omit [Host] in
theorem chosen_insert (hslots : s'.slots = s.slots.insert slot sl)
    (hsame : ∀ sl', s.slots[slot]? = some sl' → sl'.chosen = true →
      sl.chosen = true ∧ sl.value = sl'.value) (h : s.Chosen k v) : s'.Chosen k v := by
  obtain ⟨sl', hk, hchosen, hv⟩ := h
  unfold Chosen
  rw [hslots]
  by_cases hslot : slot = k
  · subst hslot
    obtain ⟨hc, hvalue⟩ := hsame sl' hk hchosen
    exact ⟨sl, by rw [IntMap.get_insert, if_pos rfl], hc, hvalue.trans hv⟩
  · exact ⟨sl', by rw [IntMap.get_insert, if_neg hslot]; exact hk, hchosen, hv⟩

/-- **No command** but `init` changes what is chosen. -/
theorem step_chosen (hl : l.command ≠ "init") (hs : onLine step s l = some (s', o))
    (h : s.Chosen k v) : s'.Chosen k v := by
  rcases step_moves hl hs with ⟨-, hslots⟩ | ⟨slot, value, -, -, -, rfl⟩ | ⟨slot, name, -, -, -, -, -, rfl⟩
  · unfold Chosen
    rw [hslots]
    exact h
  · unfold MultiPaxos.propose
    split
    · exact h
    · refine chosen_insert rfl (fun sl hk hchosen => ?_) h
      have hget : s.slots.getD slot Slot.fresh = sl := by
        rw [Std.ExtTreeMap.getD_eq_getD_getElem?, hk]
        rfl
      rw [hget]
      rcases sl.propose_cases s.ballot value with ⟨-, hsame⟩ | ⟨hopen, -⟩
      · rw [hsame]
        exact ⟨hchosen, rfl⟩
      · cases hchosen.symm.trans hopen
  · unfold MultiPaxos.accepted
    cases hin : s.slots[slot]? with
    | none => exact h
    | some sl =>
      dsimp only
      split
      · exact h
      · refine chosen_insert rfl (fun sl' hk hchosen => ?_) h
        obtain rfl := Option.mem_unique hin hk
        obtain ⟨hvalue, -, -, hiff⟩ := sl.accept_spec s.majority name
        exact ⟨hiff.mpr (.inl hchosen), hvalue⟩

theorem chosen_final {s₀ : MultiPaxos} (hrun : Run (onLine step) s₀ es s) (hkept : ∀ e ∈ es, e.input.command ≠ "init") :
    ∀ e ∈ es, ∀ k v, e.before.Chosen k v → s.Chosen k v := by
  refine hrun.history_invariant (P := fun es s => ∀ e ∈ es, ∀ k v, e.before.Chosen k v → s.Chosen k v)
    (G := fun e => e.input.command ≠ "init") (List.forall_mem_nil _) ?_ hkept
  intro es s l s' o h hl hs e he k v hchosen
  rcases List.mem_append.mp he with he | he
  · exact step_chosen hl hs (h e he k v hchosen)
  · rw [List.mem_singleton.mp he] at hchosen
    exact step_chosen hl hs hchosen

/-- **A slot is chosen by a majority**, in every run that neither puts another value under the same
ballot nor counts an acceptor twice. -/
theorem chosen_by_majority (hrun : Run (onLine step) (init n) es s) (hkept : ∀ e ∈ es, Kept e) :
    ByMajority n es s := by
  have h := hrun.history_invariant (P := fun es s => Inv n es s) (G := Kept) (inv_init n)
    (fun _ _ _ _ _ h hkept hs => step_inv h hkept hs) hkept
  exact ⟨fun k sl hk _ => h.valued k sl hk, h.chosen,
    chosen_final hrun fun e he => (hkept e he).runs⟩

end

/-! Two of three acceptors are enough; after a second proposal under the same ballot only one of the two
has accepted what is chosen. -/

@[reducible] def noJson : Host := hostOf []

def secondValue : List Line :=
  [⟨"prepare", ["1"]⟩, ⟨"propose", ["1", "x"]⟩, ⟨"accepted", ["1", "a1"]⟩, ⟨"propose", ["1", "y"]⟩,
    ⟨"accepted", ["1", "a2"]⟩]

def sameValue : List Line :=
  [⟨"prepare", ["1"]⟩, ⟨"propose", ["1", "x"]⟩, ⟨"accepted", ["1", "a1"]⟩, ⟨"propose", ["1", "x"]⟩,
    ⟨"accepted", ["1", "a2"]⟩]

/-- `Kept`, as a check. -/
def keeps (e : Event MultiPaxos Line Value) : Bool :=
  e.input.command != "init" && !reproposes e.before e.input && !respells e.before e.input

theorem kept_of_keeps {e : Event MultiPaxos Line Value} (h : keeps e = true) : Kept e := by
  unfold keeps at h
  rw [Bool.and_eq_true, Bool.and_eq_true, Bool.not_eq_true', Bool.not_eq_true'] at h
  exact ⟨bne_iff_ne.mp h.1.1, h.1.2, h.2⟩

/-- `y` is chosen, and of the three acceptors one was reported to have accepted it. -/
theorem chosen_by_one : ∃ es s, Run (onLine (@step noJson)) (init 3) es s ∧
    es.map Event.input = secondValue ∧ s.Chosen 1 "y" ∧ ¬ @ByMajority noJson 3 es s := by
  let _ : Host := noJson
  obtain ⟨es, s, sl, hrun, hinputs, hslot, hchosen, hvalue, hone⟩ : ∃ es s sl,
      Run (onLine step) (init 3) es s ∧ es.map Event.input = secondValue ∧ s.slots[(1 : Int)]? = some sl ∧
      sl.chosen = true ∧ sl.value = some "y" ∧ es.filterMap (reporter 3 1 "y" sl.ballot) = [1] :=
    ⟨_, _, _, run_of_exec secondValue rfl, rfl, rfl, rfl, rfl, rfl⟩
  refine ⟨es, s, hrun, hinputs, ⟨sl, hslot, hchosen, hvalue⟩, fun h => ?_⟩
  have hcard := h.majority 1 sl "y" hslot hchosen hvalue
  unfold reporters at hcard
  rw [hone] at hcard
  exact absurd hcard (by decide)

theorem chosen_by_majority_same_value : ∃ es s, Run (onLine (@step noJson)) (init 3) es s ∧
    es.map Event.input = sameValue ∧ s.Chosen 1 "x" ∧ @ByMajority noJson 3 es s := by
  let _ : Host := noJson
  obtain ⟨es, s, sl, hrun, hinputs, hslot, hchosen, hvalue, hall⟩ : ∃ es s sl,
      Run (onLine step) (init 3) es s ∧ es.map Event.input = sameValue ∧ s.slots[(1 : Int)]? = some sl ∧
      sl.chosen = true ∧ sl.value = some "x" ∧ es.all keeps = true :=
    ⟨_, _, _, run_of_exec sameValue rfl, rfl, rfl, rfl, rfl, rfl⟩
  exact ⟨es, s, hrun, hinputs, ⟨sl, hslot, hchosen, hvalue⟩, chosen_by_majority hrun
    fun e he => kept_of_keeps (List.all_eq_true.mp hall e he)⟩

end BuildYourOwn.Consensus.MultiPaxos
