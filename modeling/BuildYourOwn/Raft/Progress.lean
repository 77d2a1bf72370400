import BuildYourOwn.Raft.LogReplication

/-!
# Log matching on the followers

Any number of `LogReplication` followers, and a family `F` of logs that match pairwise: the logs
the leaders of all terms ever had. An `append` is delivered to one follower at a time; a run is any
list of deliveries, so messages come in any order, twice, or not at all.

The invariant is that every follower's log is a prefix of a log of `F`. An accepted message keeps
it (`graft_initial_mem`): the follower agrees with the message's log `L` up to `prevIndex`, because
the two hold the same term there, and what is written after it is `L`'s too.

**`followers_match`**: every follower's log matches every log of `F` and every other follower's,
and a message that is not accepted leaves every log and commit index as they were.
-/

namespace BuildYourOwn.Raft

open Lib Topic

/-- `(prevIndex, prevTerm, entries)` is a contiguous slice of `L`: the entries follow `prevIndex`,
whose term is `prevTerm` when there is one. -/
structure IsSlice (L : List Int) (prevIndex prevTerm : Int) (entries : List Int) : Prop where
  nonneg : 0 ≤ prevIndex
  anchor : 1 ≤ prevIndex → L[(prevIndex - 1).toNat]? = some prevTerm
  slice : entries <+: L.drop prevIndex.toNat

/-- The words spell an `append` of a slice of some log of `F`, if they spell one at all. -/
def SliceOf [Host] (F : Set (List Int)) (args : List String) : Prop :=
  ∀ prevIndex prevTerm entries, int args 1 = .ok prevIndex → int args 2 = .ok prevTerm →
    intList args 4 = .ok entries → ∃ L ∈ F, IsSlice L prevIndex prevTerm entries

variable {ι : Type} [DecidableEq ι] [Host]

/-- One `append` line delivered to follower `d.1`. -/
def deliver (f : ι → LogReplication) (d : ι × List String) :
    Option ((ι → LogReplication) × Value) :=
  match (f d.1).step "append" d.2 with
  | some (s, v) => some (Function.update f d.1 s, v)
  | none => none

omit [DecidableEq ι] in
/-- **One message keeps the follower on a log of the family.** -/
theorem step_keeps_initial {F : Set (List Int)} (hF : ∀ l ∈ F, ∀ m ∈ F, LogMatching l m)
    {s s' : LogReplication} {args : List String} {v : Value} (hs : ∃ P ∈ F, s.log <+: P)
    (hargs : SliceOf F args) (h : s.step "append" args = some (s', v)) : ∃ P ∈ F, s'.log <+: P := by
  rcases LogReplication.step_append_cases h with
    rfl | ⟨term, prevIndex, prevTerm, leaderCommit, entries, h₁, h₂, h₄, happ⟩
  · exact hs
  rcases LogReplication.append_cases happ with ⟨-, hlog, -⟩ | ⟨-, h0, hlast, hanchor, -, -, hlog⟩
  · rwa [hlog]
  obtain ⟨P, hP, hpre⟩ := hs
  obtain ⟨L, hL, hslice⟩ := hargs prevIndex prevTerm entries h₁ h₂ h₄
  rw [hlog]
  have hi : prevIndex.toNat ≤ s.log.length := by
    unfold LogReplication.lastIndex at hlast
    omega
  refine graft_initial_mem hF hP hpre hL hi ?_ hslice.slice
  -- the follower and `L` hold the same term at `prevIndex`
  by_cases hz : prevIndex = 0
  · exact .inl (by omega)
  · have h1 : 1 ≤ prevIndex := by omega
    have hpos : prevIndex.toNat - 1 = (prevIndex - 1).toNat := by omega
    refine .inr ⟨prevTerm, ?_, ?_⟩
    · rw [hpos]
      exact (LogReplication.termAt_eq_some.mp (hanchor h1)).2
    · rw [hpos]
      exact hslice.anchor h1

omit [DecidableEq ι] in
theorem step_refused {s s' : LogReplication} {args : List String} {v : Value}
    (h : s.step "append" args = some (s', v)) (hv : v.flagAt "success" ≠ some true) :
    s'.log = s.log ∧ s'.commitIndex = s.commitIndex := by
  rcases LogReplication.step_append_cases h with
    rfl | ⟨term, prevIndex, prevTerm, leaderCommit, entries, -, -, -, happ⟩
  · exact ⟨rfl, rfl⟩
  · rcases LogReplication.append_cases happ with ⟨-, hlog, hcommit⟩ | ⟨hok, -⟩
    · exact ⟨hlog, hcommit⟩
    · exact absurd hok hv

theorem deliver_eq_some {f f' : ι → LogReplication} {d : ι × List String} {v : Value} :
    deliver f d = some (f', v) ↔ ∃ s, (f d.1).step "append" d.2 = some (s, v) ∧ f' = Function.update f d.1 s := by
  unfold deliver
  cases (f d.1).step "append" d.2 with
  | none => simp
  | some r =>
    constructor
    · intro h
      cases h
      exact ⟨r.1, rfl, rfl⟩
    · rintro ⟨s, hs, rfl⟩
      cases hs
      rfl

/-- **Log matching.** Followers that start on logs of a matching family `F` and receive, in any
order, twice or never, messages that are slices of logs of `F`: every follower's log matches every
log of `F` and every other follower's, and a message that is not accepted leaves every follower's
log and commit index exactly as they were. -/
theorem followers_match {F : Set (List Int)} (hF : ∀ l ∈ F, ∀ m ∈ F, LogMatching l m)
    {f₀ f : ι → LogReplication} (h₀ : ∀ i, (f₀ i).log ∈ F)
    {es : List (Event (ι → LogReplication) (ι × List String) Value)}
    (hrun : Run deliver f₀ es f) (hes : ∀ e ∈ es, SliceOf F e.input.2) :
    (∀ i, ∀ L ∈ F, LogMatching (f i).log L) ∧
    (∀ i j, LogMatching (f i).log (f j).log) ∧
    ∀ e ∈ es, e.output.flagAt "success" ≠ some true → ∀ i,
      (e.after i).log = (e.before i).log ∧ (e.after i).commitIndex = (e.before i).commitIndex := by
  have hinv : ∀ i, ∃ P ∈ F, (f i).log <+: P := by
    refine hrun.invariant (P := fun f => ∀ i, ∃ P ∈ F, (f i).log <+: P)
      (G := fun _ d => SliceOf F d.2)
      (fun i => ⟨_, h₀ i, List.prefix_rfl⟩) ?_ hes
    intro g d g' v hg hd hstep i
    obtain ⟨s, hs, rfl⟩ := deliver_eq_some.mp hstep
    by_cases hi : i = d.1
    · subst hi
      rw [Function.update_self]
      exact step_keeps_initial hF (hg d.1) hd hs
    · rw [Function.update_of_ne hi]
      exact hg i
  refine ⟨fun i L hL => ?_, fun i j => ?_, fun e he hv i => ?_⟩
  · obtain ⟨P, hP, hpre⟩ := hinv i
    exact (hF P hP L hL).of_initial hpre
  · obtain ⟨P, hP, hpre⟩ := hinv i
    obtain ⟨Q, hQ, hpre'⟩ := hinv j
    exact (hF P hP Q hQ).prefixes hpre hpre'
  · obtain ⟨s, hs, hafter⟩ := deliver_eq_some.mp (hrun.step_of_mem he)
    rw [hafter]
    by_cases hi : i = e.input.1
    · subst hi
      rw [Function.update_self]
      exact step_refused hs hv
    · rw [Function.update_of_ne hi]
      exact ⟨rfl, rfl⟩

/-! Two followers on the log `1`, one of which receives the rest of `1 1 2`. -/

def twoFollowers : Bool → LogReplication := fun _ => { term := 1, log := [1], commitIndex := 0 }

omit [Host] in
theorem followers_match_two :
    ∃ es f, Run (@deliver Bool _ (hostOf [("[1,2]", .arr [.num 1, .num 2])])) twoFollowers es f ∧
      (f false).log = [1, 1, 2] ∧ LogMatching (f false).log (f true).log := by
  let _ : Host := hostOf [("[1,2]", .arr [.num 1, .num 2])]
  have hrun : ∃ es f, Run deliver twoFollowers es f ∧ (f false).log = [1, 1, 2] ∧
      es.map Event.input = [(false, ["2", "1", "1", "0", "[1,2]"])] :=
    ⟨_, _, run_of_exec [(false, ["2", "1", "1", "0", "[1,2]"])] rfl, rfl, rfl⟩
  obtain ⟨es, f, hrun, hlog, hinputs⟩ := hrun
  refine ⟨es, f, hrun, hlog, (followers_match (F := {l | l <+: [1, 1, 2]}) ?_ ?_ hrun ?_).2.1 _ _⟩
  · intro l hl m hm
    exact (LogMatching.refl _).prefixes hl hm
  · intro i
    exact ⟨[1, 2], rfl⟩
  · intro e he
    have hin : e.input ∈ es.map Event.input := List.mem_map_of_mem he
    rw [hinputs, List.mem_singleton] at hin
    rw [hin]
    intro prevIndex prevTerm entries h₁ h₂ h₄
    cases h₁
    cases h₂
    cases h₄
    exact ⟨[1, 1, 2], List.prefix_rfl, ⟨by decide, fun _ => rfl, ⟨[], rfl⟩⟩⟩

end BuildYourOwn.Raft

/-!
## A follower only ever comes closer to its leader

One `LogReplication` follower, from any log that `init` gives it, and the messages of one leader whose log
only grows. A message is a slice of the leader's log as it was when it was sent, so old and short messages
come after newer and longer ones, twice, or not at all.

**`progress`**: when the follower's first log matches the leader's, no message shortens what the two
share, the commit index never goes back, and what is committed is shared. `progress_needs_matching`: a
starting log that holds a term of the leader's in the same place, but after other entries, passes the check
of `append` and breaks that.
-/

namespace BuildYourOwn.Raft

open Lib Topic

theorem IsSlice.mono {P L : List Int} {prevIndex prevTerm : Int} {entries : List Int}
    (h : IsSlice P prevIndex prevTerm entries) (hP : P <+: L) : IsSlice L prevIndex prevTerm entries where
  nonneg := h.nonneg
  anchor h1 := by
    have hanchor := h.anchor h1
    obtain ⟨rest, rfl⟩ := hP
    rwa [List.getElem?_append_left (List.getElem?_eq_some_iff.mp hanchor).1]
  slice := h.slice.trans (hP.drop _)

structure Link where
  leader : List Int
  follower : LogReplication

namespace Link

/-- The leader appends entries, or a message reaches the follower. -/
inductive Input where
  | grow (terms : List Int)
  | message (args : List String)

variable [Host]

def step (s : Link) : Input → Option (Link × Value)
  | .grow terms => some ({ s with leader := s.leader ++ terms }, .null)
  | .message args =>
    match s.follower.step "append" args with
    | some (f, v) => some ({ s with follower := f }, v)
    | none => none

/-- The message is a slice of the leader's log as it was at some time up to now. That its term is the
leader's and its `leader_commit` no more than the log then had is not needed. -/
def Sent (s : Link) : Input → Prop
  | .grow _ => True
  | .message args => SliceOf {L | L <+: s.leader} args

def agreed (s : Link) : Nat := shared s.follower.log s.leader

/-- The state `init` leaves, next to a leader. -/
def start (leader terms : List Int) : Link := ⟨leader, .init terms⟩

structure Sound (L : List Int) (s : Link) : Prop where
  grows : s.leader <+: L
  matching : LogMatching s.follower.log L
  committed : s.follower.commitIndex ≤ s.agreed

/-- Nothing is lost. -/
structure Ahead (s s' : Link) : Prop where
  agreed : s.agreed ≤ s'.agreed
  committed : s.follower.commitIndex ≤ s'.follower.commitIndex

variable {s s' : Link} {i : Input} {v : Value} {L : List Int}

theorem step_leader (h : s.step i = some (s', v)) : s.leader <+: s'.leader := by
  unfold step at h
  split at h
  · cases h
    exact List.prefix_append _ _
  · split at h
    · cases h
      exact List.prefix_rfl
    · cases h

omit [Host] in
theorem accepted_keeps {P : List Int} {f : LogReplication} {prevIndex prevTerm : Int} {entries : List Int}
    (hmatch : LogMatching f.log L) (hP : P <+: L) (hslice : IsSlice P prevIndex prevTerm entries)
    (hlast : prevIndex ≤ f.lastIndex) (hanchor : 1 ≤ prevIndex → f.termAt prevIndex = some prevTerm) :
    LogMatching (graft f.log prevIndex.toNat entries) L ∧
      shared f.log P ≤ shared (graft f.log prevIndex.toNat entries) P ∧
      prevIndex.toNat + entries.length ≤ shared (graft f.log prevIndex.toNat entries) P := by
  have hmatchP : LogMatching f.log P := (hmatch.symm.of_initial hP).symm
  have hi : prevIndex.toNat ≤ f.log.length := by
    unfold LogReplication.lastIndex at hlast
    omega
  have hnonneg := hslice.nonneg
  -- the two hold the same term at `prevIndex`
  have ha : Anchored f.log P prevIndex.toNat := by
    by_cases hz : prevIndex = 0
    · exact .inl (by omega)
    · have h1 : 1 ≤ prevIndex := by omega
      have hpos : prevIndex.toNat - 1 = (prevIndex - 1).toNat := by omega
      refine .inr ⟨prevTerm, ?_, ?_⟩
      · rw [hpos]
        exact (LogReplication.termAt_eq_some.mp (hanchor h1)).2
      · rw [hpos]
        exact hslice.anchor h1
  have hiP : prevIndex.toNat ≤ P.length := by
    rcases ha with h0 | ⟨x, -, hx⟩
    · omega
    · have := (List.getElem?_eq_some_iff.mp hx).1
      omega
  have htake := hmatchP.take_eq ha
  refine ⟨?_, shared_le_graft hi htake hslice.slice hiP, shared_graft hi htake hslice.slice hiP⟩
  rw [graft_eq entries f.log _ hi]
  split
  · exact hmatch
  · obtain ⟨rest, hrest⟩ := hslice.slice
    have hpre : f.log.take prevIndex.toNat ++ entries <+: L := by
      rw [htake]
      exact List.IsPrefix.trans
        ⟨rest, by rw [List.append_assoc, hrest, List.take_append_drop]⟩ hP
    exact (LogMatching.refl L).of_initial hpre

theorem step_sound (h : Sound L s) (hsent : s.Sent i) (hgrows : s'.leader <+: L)
    (hs : s.step i = some (s', v)) : Sound L s' ∧ Ahead s s' := by
  unfold step at hs
  split at hs
  · rename_i terms
    cases hs
    have hmono : s.agreed ≤ shared s.follower.log (s.leader ++ terms) :=
      shared_mono (List.prefix_append _ _)
    exact ⟨⟨hgrows, h.matching, Int.le_trans h.committed (Int.ofNat_le.mpr hmono)⟩, hmono, Int.le_refl _⟩
  split at hs
  · rename_i args f w hf
    cases hs
    rcases LogReplication.step_append_cases hf with
      rfl | ⟨term, prevIndex, prevTerm, leaderCommit, entries, h₁, h₂, h₄, happ⟩
    · exact ⟨h, Nat.le_refl _, Int.le_refl _⟩
    obtain ⟨P, hP, hslice⟩ := hsent prevIndex prevTerm entries h₁ h₂ h₄
    obtain ⟨hup, hcommit⟩ := LogReplication.append_commit happ
    have hsound := h.committed
    rcases LogReplication.append_cases happ with ⟨hno, hlog, hsame⟩ | ⟨-, h0, hlast, hanchor, -, -, hlog⟩
    · have hagreed : agreed { s with follower := f } = s.agreed := by
        unfold agreed
        rw [hlog]
      refine ⟨⟨hgrows, by rw [hlog]; exact h.matching, ?_⟩, Nat.le_of_eq hagreed.symm, hup⟩
      rw [hagreed, hsame]
      exact hsound
    · obtain ⟨hmatch, hmono, hnew⟩ :=
        accepted_keeps h.matching h.grows (hslice.mono hP) hlast hanchor
      rw [← hlog] at hmatch hmono hnew
      refine ⟨⟨hgrows, hmatch, ?_⟩, hmono, hup⟩
      change f.commitIndex ≤ (shared f.log s.leader : Int)
      have hmono' : s.agreed ≤ shared f.log s.leader := hmono
      rcases hcommit with hc | ⟨-, hc⟩ <;> omega
  · cases hs

theorem leader_grows {s₀ : Link} {es : List (Event Link Input Value)} (hrun : Run step s₀ es s) :
    s₀.leader <+: s.leader ∧ ∀ e ∈ es, e.after.leader <+: s.leader := by
  induction hrun with
  | nil => exact ⟨List.prefix_rfl, List.forall_mem_nil _⟩
  | snoc _ hs ih =>
    have hgrow := step_leader hs
    refine ⟨ih.1.trans hgrow, fun e he => ?_⟩
    rcases List.mem_append.mp he with he | he
    · exact (ih.2 e he).trans hgrow
    · rw [List.mem_singleton.mp he]

/-- **Progress.** A follower that starts on a log that matches the leader's, and receives slices of what the
leader's log was when they were sent, in any order, twice or never: the length of what the two share never
shrinks, the commit index never decreases, and it never exceeds what is shared. -/
theorem progress {leader terms : List Int} {es : List (Event Link Input Value)}
    (hrun : Run step (start leader terms) es s) (hsent : ∀ e ∈ es, e.before.Sent e.input)
    (hmatch : LogMatching terms s.leader) :
    (∀ e ∈ es, Ahead e.before e.after ∧ e.after.follower.commitIndex ≤ e.after.agreed) ∧
      s.follower.commitIndex ≤ s.agreed := by
  obtain ⟨hstart, hgrows⟩ := leader_grows hrun
  have hfirst : Sound s.leader (start leader terms) := ⟨hstart, hmatch, Int.natCast_nonneg _⟩
  have hinv := hrun.history_invariant
    (P := fun es t => Sound s.leader t ∧
      ∀ e ∈ es, Ahead e.before e.after ∧ e.after.follower.commitIndex ≤ e.after.agreed)
    (G := fun e => e.before.Sent e.input ∧ e.after.leader <+: s.leader)
    ⟨hfirst, List.forall_mem_nil _⟩
    (fun es t i t' o h hg hs => by
      obtain ⟨hsound, hahead⟩ := step_sound h.1 hg.1 hg.2 hs
      refine ⟨hsound, fun e he => ?_⟩
      rcases List.mem_append.mp he with he | he
      · exact h.2 e he
      · rw [List.mem_singleton.mp he]
        exact ⟨hahead, hsound.committed⟩)
    fun e he => ⟨hsent e he, hgrows e he⟩
  exact ⟨hinv.2, hinv.1.committed⟩

/-! A conflicting tail is cut, and an old message comes last. -/

@[reducible] def progressHost : Host :=
  hostOf [("[]", .arr []), ("[1]", .arr [.num 1]), ("[2]", .arr [.num 2]), ("[1,2]", .arr [.num 1, .num 2])]

def fourInputs : List Input :=
  [.message ["2", "1", "1", "2", "[1,2]"], .grow [2], .message ["2", "3", "2", "4", "[2]"],
    .message ["2", "0", "0", "1", "[1]"]]

omit [Host] in
theorem progress_cut : ∃ es s, Run (@step progressHost) (@start [1, 1, 2] [1, 1, 1]) es s ∧
    es.map Event.input = fourInputs ∧ s.follower.log = [1, 1, 2, 2] ∧ s.follower.commitIndex = 4 ∧
    (∀ e ∈ es, Ahead e.before e.after ∧ e.after.follower.commitIndex ≤ e.after.agreed) ∧
    s.follower.commitIndex ≤ s.agreed := by
  let _ : Host := progressHost
  obtain ⟨es, s, hrun, hinputs, hlog, hcommit, hleaders, hleader⟩ : ∃ es s,
      Run step (start [1, 1, 2] [1, 1, 1]) es s ∧ es.map Event.input = fourInputs ∧
      s.follower.log = [1, 1, 2, 2] ∧ s.follower.commitIndex = 4 ∧
      es.map (fun e => (e.before.leader, e.input)) =
        [[1, 1, 2], [1, 1, 2], [1, 1, 2, 2], [1, 1, 2, 2]].zip fourInputs ∧ s.leader = [1, 1, 2, 2] :=
    ⟨_, _, run_of_exec fourInputs rfl, rfl, rfl, rfl, rfl, rfl⟩
  refine ⟨es, s, hrun, hinputs, hlog, hcommit, progress hrun (fun e he => ?_) ?_⟩
  · have hin : (e.before.leader, e.input) ∈ es.map fun e => (e.before.leader, e.input) :=
      List.mem_map_of_mem he
    rw [hleaders] at hin
    simp only [fourInputs, List.zip_cons_cons, List.zip_nil_left, List.mem_cons, Prod.mk.injEq,
      List.not_mem_nil, or_false] at hin
    unfold Sent
    rcases hin with ⟨hl, hi⟩ | ⟨hl, hi⟩ | ⟨hl, hi⟩ | ⟨hl, hi⟩ <;> rw [hi, hl]
    · intro prevIndex prevTerm entries h₁ h₂ h₄
      cases h₁; cases h₂; cases h₄
      exact ⟨[1, 1, 2], List.prefix_rfl, by decide, fun _ => rfl, ⟨[], rfl⟩⟩
    · trivial
    · intro prevIndex prevTerm entries h₁ h₂ h₄
      cases h₁; cases h₂; cases h₄
      exact ⟨[1, 1, 2, 2], List.prefix_rfl, by decide, fun _ => rfl, ⟨[], rfl⟩⟩
    · intro prevIndex prevTerm entries h₁ h₂ h₄
      cases h₁; cases h₂; cases h₄
      exact ⟨[1, 1, 2], ⟨[2], rfl⟩, by decide, fun h => absurd h (by decide), ⟨[1, 2], rfl⟩⟩
  · rw [hleader]
    intro i x hl hm
    match i with
    | 0 | 1 => rfl
    | 2 =>
      cases hl
      cases hm
    | i + 3 => cases hl

omit [Host] in
theorem progress_needs_matching : ∃ es s, Run (@step progressHost) (@start [1, 3, 5] [1, 2, 5]) es s ∧
    es.map Event.input = [.message ["5", "3", "5", "3", "[]"]] ∧
    (∀ e ∈ es, @Sent progressHost e.before e.input) ∧ s.agreed = 1 ∧ s.follower.commitIndex = 3 := by
  let _ : Host := progressHost
  obtain ⟨es, s, hrun, hleaders, hagreed, hcommit⟩ : ∃ es s, Run step (start [1, 3, 5] [1, 2, 5]) es s ∧
      es.map (fun e => (e.before.leader, e.input)) =
        [([1, 3, 5], .message ["5", "3", "5", "3", "[]"])] ∧ s.agreed = 1 ∧ s.follower.commitIndex = 3 :=
    ⟨_, _, run_of_exec [.message ["5", "3", "5", "3", "[]"]] rfl, rfl, rfl, rfl⟩
  refine ⟨es, s, hrun, ?_, fun e he => ?_, hagreed, hcommit⟩
  · have hinputs := congrArg (List.map Prod.snd) hleaders
    rwa [List.map_map] at hinputs
  · have hin : (e.before.leader, e.input) ∈ es.map fun e => (e.before.leader, e.input) :=
      List.mem_map_of_mem he
    rw [hleaders, List.mem_singleton, Prod.mk.injEq] at hin
    unfold Sent
    rw [hin.1, hin.2]
    intro prevIndex prevTerm entries h₁ h₂ h₄
    cases h₁; cases h₂; cases h₄
    exact ⟨[1, 3, 5], List.prefix_rfl, by decide, fun _ => rfl, ⟨[], rfl⟩⟩

end Link

end BuildYourOwn.Raft
