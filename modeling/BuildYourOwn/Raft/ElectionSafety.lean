import BuildYourOwn.Lib.Majority
import BuildYourOwn.Raft.Election

/-!
# Election safety: one leader a term

A cluster of `Election` machines exchanging request-vote, vote-response and append-entries
messages. A message that was sent stays in `Net.sent` for ever and may be delivered any number of
times, in any order, or never: that is delay, reordering, duplication and loss.

* `Net.Step` is one step of the cluster: an election timeout or a log append at a node, a node
  sending, or a delivery. A delivery runs the node's `step` on words that spell the message, and
  the response to a vote request is read off the node's answer.
* `Moved` says once what a step can do to the votes; `Inv` is the invariant it keeps.
* `Won net i t` (a majority of votes for `i` in term `t`, the node's own included) survives every
  step, so it outlives the leader; `won_unique` is the majority argument.

**`election_safety`**: no two different nodes lead in the same term, at any two moments.
-/

namespace BuildYourOwn.Raft

open Topic Lib

inductive Message
  /-- `request-vote`, to anyone. -/
  | requestVote (term : Int) (candidate : String) (lastIndex lastTerm : Int)
  /-- The answer of `voter`, to `candidate`. -/
  | voteResponse (candidate : String) (term : Int) (voter : String) (granted : Bool)
  /-- `append-entries`, to anyone. -/
  | appendEntries (term : Int) (leader : String)

structure Net where
  nodes : String → Election
  sent : Set Message

namespace Net

/-- Every node of `cluster` after `init n`, with nothing sent. -/
def init (cluster : Finset String) : Net :=
  { nodes := fun _ => Election.init cluster.card, sent := ∅ }

/-- Node `i` is in state `s` now. -/
def set (net : Net) (i : String) (s : Election) : Net :=
  { net with nodes := Function.update net.nodes i s }

/-- `m` was sent. -/
def send (net : Net) (m : Message) : Net := { net with sent := insert m net.sent }

variable [Host] (cluster : Finset String)

/-- One step of the cluster. `sendRequestVote` carries the node's own term, name and last log
position and asks for no role: a node that is not a candidate may ask too, and nothing below needs
the difference. -/
inductive Step : Net → Net → Prop
  | timeout {net : Net} {i : String} (args : List String) {s' : Election} {v : Value}
      (hi : i ∈ cluster) (h : (net.nodes i).step "timeout" args = some (s', v)) :
      Step net (net.set i s')
  | logAppend {net : Net} {i : String} (args : List String) {term : Int} {s' : Election}
      {v : Value} (hi : i ∈ cluster) (h₀ : int args 0 = .ok term)
      (h : (net.nodes i).step "log-append" args = some (s', v)) : Step net (net.set i s')
  | sendRequestVote {net : Net} {i : String} (hi : i ∈ cluster) :
      Step net (net.send (.requestVote (net.nodes i).term i (net.nodes i).lastIndex
        (net.nodes i).lastTerm))
  | sendAppendEntries {net : Net} {i : String} (hi : i ∈ cluster)
      (hl : (net.nodes i).role = .leader) :
      Step net (net.send (.appendEntries (net.nodes i).term i))
  | requestVote {net : Net} {i candidate : String} (args : List String)
      {term lastIndex lastTerm t : Int} {granted : Bool} {s' : Election} {v : Value}
      (hi : i ∈ cluster) (hm : .requestVote term candidate lastIndex lastTerm ∈ net.sent)
      (h₀ : int args 0 = .ok term) (h₁ : word args 1 = .ok candidate)
      (h₂ : int args 2 = .ok lastIndex) (h₃ : int args 3 = .ok lastTerm)
      (h : (net.nodes i).step "request-vote" args = some (s', v))
      (ht : v.numAt "term" = some t) (hg : v.flagAt "granted" = some granted) :
      Step net ((net.set i s').send (.voteResponse candidate t i granted))
  | voteResponse {net : Net} {i voter : String} (args : List String) {term : Int}
      {granted : Bool} {s' : Election} {v : Value}
      (hi : i ∈ cluster) (hm : .voteResponse i term voter granted ∈ net.sent)
      (h₀ : int args 0 = .ok term) (h₁ : word args 1 = .ok voter)
      (h₂ : flag args 2 "true" "false" = .ok granted)
      (h : (net.nodes i).step "vote-response" args = some (s', v)) : Step net (net.set i s')
  | appendEntries {net : Net} {i leader : String} (args : List String) {term : Int}
      {s' : Election} {v : Value} (hi : i ∈ cluster)
      (hm : .appendEntries term leader ∈ net.sent) (h₀ : int args 0 = .ok term)
      (h₁ : word args 1 = .ok leader)
      (h : (net.nodes i).step "append-entries" args = some (s', v)) : Step net (net.set i s')

def Steps : Net → Net → Prop := Relation.ReflTransGen (Step cluster)

/-! ## The invariant -/

variable {cluster}

/-- A vote of `v` for `c` in term `t` was put on the wire. -/
def Granted (net : Net) (c : String) (t : Int) (v : String) : Prop :=
  .voteResponse c t v true ∈ net.sent

structure Inv (cluster : Finset String) (net : Net) : Prop where
  members : ∀ i ∈ cluster, (net.nodes i).members = cluster.card
  asked : ∀ t c li lt, .requestVote t c li lt ∈ net.sent → c ∈ cluster
  recorded : ∀ c t v, net.Granted c t v → v ∈ cluster ∧ t ≤ (net.nodes v).term ∧
    ((net.nodes v).term = t → (net.nodes v).votedFor = some c) ∧ c ∈ cluster
  /-- One vote a voter and term. -/
  unique : ∀ c c' t v, net.Granted c t v → net.Granted c' t v → c = c'
  self : ∀ i ∈ cluster, (net.nodes i).role ≠ .follower → (net.nodes i).votedFor = some "self"
  counted : ∀ i ∈ cluster, (net.nodes i).role ≠ .follower → ∀ v ∈ (net.nodes i).granters,
    v = "self" ∨ net.Granted i (net.nodes i).term v
  won : ∀ i ∈ cluster, (net.nodes i).role = .leader →
    (net.nodes i).majority ≤ (net.nodes i).granters.card

omit [Host] in
theorem inv_init : Inv cluster (init cluster) where
  members _ _ := rfl
  asked _ _ _ _ h := absurd h (Set.notMem_empty _)
  recorded _ _ _ h := absurd h (Set.notMem_empty _)
  unique _ _ _ _ h := absurd h (Set.notMem_empty _)
  self _ _ h := absurd rfl h
  counted _ _ h := absurd rfl h
  won _ _ h := absurd h (by simp [init, Election.init, Election.default])

/-- What one step can do to the votes: node `i` is in state `s'` now, and the messages are `sent'`.
A vote that is new on the wire is the one the node has just recorded. -/
structure Moved (cluster : Finset String) (net : Net) (i : String) (s' : Election)
    (sent' : Set Message) : Prop where
  mem : i ∈ cluster
  sent : net.sent ⊆ sent'
  members : s'.members = (net.nodes i).members
  term : (net.nodes i).term ≤ s'.term
  kept : s'.term = (net.nodes i).term → ∀ c, (net.nodes i).votedFor = some c → s'.votedFor = some c
  asked : ∀ t c li lt, .requestVote t c li lt ∈ sent' → c ∈ cluster
  granted : ∀ c t v, .voteResponse c t v true ∈ sent' →
    net.Granted c t v ∨ (v = i ∧ t = s'.term ∧ s'.votedFor = some c ∧ c ∈ cluster)
  self : s'.role ≠ .follower → s'.votedFor = some "self"
  counted : s'.role ≠ .follower → ∀ v ∈ s'.granters,
    v = "self" ∨ .voteResponse i s'.term v true ∈ sent'
  won : s'.role = .leader → s'.majority ≤ s'.granters.card

variable {net : Net} {i : String} {s' : Election} {sent' : Set Message}

omit [Host] in
theorem Inv.moved_of_quiet (inv : Inv cluster net) (hi : i ∈ cluster) (hsent : net.sent ⊆ sent')
    (hasked : ∀ t c li lt, .requestVote t c li lt ∈ sent' → c ∈ cluster)
    (hgranted : ∀ c t v, .voteResponse c t v true ∈ sent' → net.Granted c t v ∨
      (v = i ∧ t = s'.term ∧ s'.votedFor = some c ∧ c ∈ cluster))
    (hmembers : s'.members = (net.nodes i).members) (hterm : s'.term = (net.nodes i).term)
    (hvote : s'.votedFor = (net.nodes i).votedFor) (hrole : s'.role = (net.nodes i).role)
    (hcount : s'.granters = (net.nodes i).granters) : Moved cluster net i s' sent' where
  mem := hi
  sent := hsent
  members := hmembers
  term := hterm.ge
  kept _ c h := by rw [hvote, h]
  asked := hasked
  granted := hgranted
  self h := by
    rw [hvote]
    exact inv.self i hi (hrole ▸ h)
  counted h v hv := by
    rw [hcount] at hv
    rw [hterm]
    exact (inv.counted i hi (hrole ▸ h) v hv).imp_right fun hg => hsent hg
  won h := by
    rw [Election.majority, hmembers, hcount]
    exact inv.won i hi (hrole ▸ h)

omit [Host] in
theorem moved_of_follower (hi : i ∈ cluster) (hsent : net.sent ⊆ sent')
    (hasked : ∀ t c li lt, .requestVote t c li lt ∈ sent' → c ∈ cluster)
    (hgranted : ∀ c t v, .voteResponse c t v true ∈ sent' → net.Granted c t v ∨
      (v = i ∧ t = s'.term ∧ s'.votedFor = some c ∧ c ∈ cluster)) (hmembers : s'.members = (net.nodes i).members)
    (hterm : (net.nodes i).term < s'.term ∨ s'.term = (net.nodes i).term ∧
      ∀ c, (net.nodes i).votedFor = some c → s'.votedFor = some c)
    (hrole : s'.role = .follower) : Moved cluster net i s' sent' where
  mem := hi
  sent := hsent
  members := hmembers
  term := by omega
  kept h := by
    rcases hterm with hterm | ⟨-, hvote⟩
    · omega
    · exact hvote
  asked := hasked
  granted := hgranted
  self h := absurd hrole h
  counted h := absurd hrole h
  won h := nomatch hrole.symm.trans h

omit [Host] in
/-- The invariant survives whatever `Moved` allows. -/
theorem Inv.step (inv : Inv cluster net) (m : Moved cluster net i s' sent') :
    Inv cluster ⟨Function.update net.nodes i s', sent'⟩ := by
  have hother : ∀ j, j ≠ i → Function.update net.nodes i s' j = net.nodes j :=
    fun j hj => Function.update_of_ne hj _ _
  have hsame : Function.update net.nodes i s' i = s' := Function.update_self ..
  -- the record that backs a vote stays where it is
  have hrecorded : ∀ c t v, net.Granted c t v →
      v ∈ cluster ∧ t ≤ (Function.update net.nodes i s' v).term ∧
        ((Function.update net.nodes i s' v).term = t →
          (Function.update net.nodes i s' v).votedFor = some c) ∧ c ∈ cluster := by
    intro c t v h
    obtain ⟨hv, hle, hrec, hc⟩ := inv.recorded c t v h
    by_cases hvi : v = i
    · subst hvi
      rw [hsame]
      refine ⟨hv, hle.trans m.term, fun ht => ?_, hc⟩
      have hterm := m.term
      exact m.kept (by omega) c (hrec (by omega))
    · rw [hother v hvi]
      exact ⟨hv, hle, hrec, hc⟩
  constructor
  · intro j hj
    by_cases hji : j = i
    · subst hji
      simp only [hsame, m.members, inv.members j hj]
    · simp only [hother j hji, inv.members j hj]
  · exact m.asked
  · intro c t v h
    rcases m.granted c t v h with h | ⟨rfl, rfl, hrec, hc⟩
    · exact hrecorded c t v h
    · simp only [hsame]
      exact ⟨m.mem, le_refl _, fun _ => hrec, hc⟩
  · -- a new vote of `i` agrees with its record, and so does an old one of the same term
    intro c c' t v h h'
    rcases m.granted c t v h with g | ⟨hvi, ht, hrec, -⟩ <;>
      rcases m.granted c' t v h' with g' | ⟨hvi', ht', hrec', -⟩
    · exact inv.unique c c' t v g g'
    · have hold := (hrecorded c t v g).2.2.1 (by rw [hvi', hsame, ht'])
      rw [hvi', hsame, hrec'] at hold
      exact (Option.some.inj hold).symm
    · have hold := (hrecorded c' t v g').2.2.1 (by rw [hvi, hsame, ht])
      rw [hvi, hsame, hrec] at hold
      exact Option.some.inj hold
    · rw [hrec] at hrec'
      exact Option.some.inj hrec'
  · intro j hj
    by_cases hji : j = i
    · subst hji
      simp only [hsame]
      exact m.self
    · simp only [hother j hji]
      exact inv.self j hj
  · intro j hj
    by_cases hji : j = i
    · subst hji
      simp only [hsame]
      exact m.counted
    · simp only [hother j hji]
      exact fun hr v hv => (inv.counted j hj hr v hv).imp_right fun hg => m.sent hg
  · intro j hj
    by_cases hji : j = i
    · subst hji
      simp only [hsame]
      exact m.won
    · simp only [hother j hji]
      exact inv.won j hj

/-! ## Every step moves the votes as `Moved` allows -/

omit [Host] in
theorem granted_of_sent (c : String) (t : Int) (v : String) (h : .voteResponse c t v true ∈ net.sent) :
    net.Granted c t v ∨ (v = i ∧ t = s'.term ∧ s'.votedFor = some c ∧ c ∈ cluster) := .inl h

omit [Host] in
theorem Inv.asked_of_insert (inv : Inv cluster net) (m : Message)
    (hm : ∀ t c li lt, m = .requestVote t c li lt → c ∈ cluster) (t : Int) (c : String)
    (li lt : Int) (h : .requestVote t c li lt ∈ insert m net.sent) : c ∈ cluster := by
  rcases h with h | h
  · exact hm t c li lt h.symm
  · exact inv.asked t c li lt h

omit [Host] in
theorem Inv.moved_of_requestVote (hself : "self" ∉ cluster) (inv : Inv cluster net)
    {i candidate : String} (hi : i ∈ cluster) (hc : candidate ∈ cluster) {term li lt t : Int}
    {granted : Bool} {v : Value} (h : (net.nodes i).requestVote term candidate li lt = some (s', v))
    (ht : v.numAt "term" = some t) (hg : v.flagAt "granted" = some granted) :
    Moved cluster net i s' (insert (.voteResponse candidate t i granted) net.sent) := by
  have hsent : net.sent ⊆ insert (.voteResponse candidate t i granted) net.sent :=
    Set.subset_insert _ _
  have hasked := inv.asked_of_insert (.voteResponse candidate t i granted) (by simp)
  -- a refusal puts no vote on the wire, a grant exactly the one the node has recorded
  have hgranted : granted = false ∨ (t = s'.term ∧ s'.votedFor = some candidate) → ∀ c t' v',
      .voteResponse c t' v' true ∈ insert (.voteResponse candidate t i granted) net.sent →
        net.Granted c t' v' ∨ (v' = i ∧ t' = s'.term ∧ s'.votedFor = some c ∧ c ∈ cluster) := by
    rintro hor c t' v' (hm | hm)
    · rcases hor with rfl | ⟨hterm, hvote⟩
      · cases hm
      · cases hm
        exact .inr ⟨rfl, hterm, hvote, hc⟩
    · exact .inl hm
  rcases Election.requestVote_cases h with ⟨-, rfl, rfl⟩ | ⟨r, hr, ⟨rfl, rfl⟩ | ⟨hfree, rfl, rfl⟩⟩
  · have hno : granted = false := (Option.some.inj hg).symm
    exact inv.moved_of_quiet hi hsent hasked (hgranted (.inl hno)) rfl rfl rfl rfl rfl
  · have hno : granted = false := (Option.some.inj hg).symm
    rcases hr with ⟨hlt, rfl⟩ | ⟨-, rfl⟩
    · exact moved_of_follower hi hsent hasked (hgranted (.inl hno)) rfl (.inl hlt) rfl
    · exact inv.moved_of_quiet hi hsent hasked (hgranted (.inl hno)) rfl rfl rfl rfl rfl
  · have hyes := hgranted (.inr ⟨(Option.some.inj ht).symm, rfl⟩)
    rcases hr with ⟨hlt, rfl⟩ | ⟨-, rfl⟩
    · exact moved_of_follower hi hsent hasked hyes rfl (.inl hlt) rfl
    · have hrole : (net.nodes i).role = .follower := by
        by_contra hrole
        rw [inv.self i hi hrole] at hfree
        rcases hfree with hfree | hfree
        · cases hfree
        · exact hself ((Option.some.inj hfree).symm ▸ hc)
      refine moved_of_follower hi hsent hasked hyes rfl (.inr ⟨rfl, fun c hvf => ?_⟩) hrole
      rw [hvf] at hfree
      exact (hfree.resolve_left (by simp)).symm ▸ rfl

omit [Host] in
theorem Inv.moved_of_count (inv : Inv cluster net) {i voter : String}
    (hi : i ∈ cluster) (hcand : (net.nodes i).role = .candidate) (hm : net.Granted i (net.nodes i).term voter)
    (hmembers : s'.members = (net.nodes i).members) (hterm : s'.term = (net.nodes i).term)
    (hvote : s'.votedFor = (net.nodes i).votedFor) (hcount : s'.granters = insert voter (net.nodes i).granters)
    (hwon : s'.role = .leader → s'.majority ≤ s'.granters.card) : Moved cluster net i s' net.sent where
  mem := hi
  sent := subset_rfl
  members := hmembers
  term := hterm.ge
  kept _ c h := by rw [hvote, h]
  asked := inv.asked
  granted := granted_of_sent
  self _ := by
    rw [hvote]
    exact inv.self i hi (by rw [hcand]; simp)
  counted _ w hw := by
    rw [hterm]
    rw [hcount] at hw
    rcases Finset.mem_insert.mp hw with rfl | hw
    · exact .inr hm
    · exact inv.counted i hi (by rw [hcand]; simp) w hw
  won := hwon

variable {net net' : Net}

theorem step_moved (hself : "self" ∉ cluster) (inv : Inv cluster net) (h : Step cluster net net') :
    ∃ i s' sent', net' = ⟨Function.update net.nodes i s', sent'⟩ ∧ Moved cluster net i s' sent' := by
  cases h with
  | @timeout i args s' v hi h =>
    rw [Election.step_timeout] at h
    refine ⟨i, s', net.sent, rfl, ?_⟩
    rcases Election.timeout_cases h with rfl | rfl
    · exact inv.moved_of_quiet hi subset_rfl inv.asked granted_of_sent rfl rfl rfl rfl rfl
    · -- a candidate of a new term counts its own vote and no other
      exact {
        mem := hi
        sent := subset_rfl
        members := rfl
        term := by simp only; omega
        kept := fun ht => by simp only at ht; omega
        asked := inv.asked
        granted := granted_of_sent
        self := fun _ => rfl
        counted := fun _ v hv => .inl (Finset.mem_singleton.mp hv)
        won := fun hl => absurd hl (by simp) }
  | @logAppend i args term s' v hi h₀ h =>
    rw [Election.step_logAppend h₀] at h
    refine ⟨i, s', net.sent, rfl, ?_⟩
    cases h
    exact inv.moved_of_quiet hi subset_rfl inv.asked granted_of_sent rfl rfl rfl rfl rfl
  | @sendRequestVote i hi =>
    refine ⟨i, net.nodes i, _, by rw [Function.update_eq_self]; rfl, ?_⟩
    refine inv.moved_of_quiet hi (Set.subset_insert _ _) (inv.asked_of_insert _ ?_)
      (fun c t v hm => .inl (hm.resolve_left (by simp))) rfl rfl rfl rfl rfl
    rintro t c li lt hm
    cases hm
    exact hi
  | @sendAppendEntries i hi hl =>
    refine ⟨i, net.nodes i, _, by rw [Function.update_eq_self]; rfl, ?_⟩
    exact inv.moved_of_quiet hi (Set.subset_insert _ _) (inv.asked_of_insert _ (by simp))
      (fun c t v hm => .inl (hm.resolve_left (by simp))) rfl rfl rfl rfl rfl
  | @requestVote i candidate args term li lt t granted s' v hi hm h₀ h₁ h₂ h₃ h ht hg =>
    rw [Election.step_requestVote h₀ h₁ h₂ h₃] at h
    exact ⟨i, s', _, rfl, inv.moved_of_requestVote hself hi (inv.asked _ _ _ _ hm) h ht hg⟩
  | @voteResponse i voter args term granted s' v hi hm h₀ h₁ h₂ h =>
    rw [Election.step_voteResponse h₀ h₁ h₂] at h
    refine ⟨i, s', net.sent, rfl, ?_⟩
    rcases Election.voteResponse_cases h with ⟨hlt, rfl⟩ | ⟨rfl, hcand, rfl, hcount⟩ | rfl
    · exact moved_of_follower hi subset_rfl inv.asked granted_of_sent rfl (.inl hlt) rfl
    · rcases hcount with ⟨hmaj, rfl⟩ | rfl
      · exact inv.moved_of_count hi hcand hm rfl rfl rfl rfl fun _ => hmaj
      · exact inv.moved_of_count hi hcand hm rfl rfl rfl rfl
          fun h => nomatch hcand.symm.trans h
    · exact inv.moved_of_quiet hi subset_rfl inv.asked granted_of_sent rfl rfl rfl rfl rfl
  | @appendEntries i leader args term s' v hi hm h₀ h₁ h =>
    rw [Election.step_appendEntries h₀ h₁] at h
    refine ⟨i, s', net.sent, rfl, ?_⟩
    rcases Election.appendEntries_cases h with rfl | ⟨hlt, rfl⟩ | ⟨-, rfl⟩
    · exact inv.moved_of_quiet hi subset_rfl inv.asked granted_of_sent rfl rfl rfl rfl rfl
    · exact moved_of_follower hi subset_rfl inv.asked granted_of_sent rfl (.inl hlt) rfl
    · exact moved_of_follower hi subset_rfl inv.asked granted_of_sent rfl
        (.inr ⟨rfl, fun _ h => h⟩) rfl

/-- **Every step keeps the invariant.** -/
theorem inv_step (hself : "self" ∉ cluster) (inv : Inv cluster net) (h : Step cluster net net') : Inv cluster net' := by
  obtain ⟨i, s', sent', rfl, m⟩ := step_moved hself inv h
  exact inv.step m

theorem inv_steps (hself : "self" ∉ cluster) (inv : Inv cluster net)
    (h : Steps cluster net net') : Inv cluster net' := by
  induction h with
  | refl => exact inv
  | tail _ hs ih => exact inv_step hself ih hs

/-! ## Who won a term -/

/-- `v` voted for `c` in term `t`: by a vote on the wire, or for itself. The second is no record of
the past but lasts as one: the node is still in that term with that vote, or past it, and it never
granted that term's vote to another. -/
def Cast (net : Net) (v c : String) (t : Int) : Prop :=
  net.Granted c t v ∨ (v = c ∧ t ≤ (net.nodes v).term ∧
    ((net.nodes v).term = t → (net.nodes v).votedFor = some "self") ∧
    ∀ c', ¬ net.Granted c' t v)

/-- `c` gathered a majority of the votes of term `t`. -/
def Won (cluster : Finset String) (net : Net) (c : String) (t : Int) : Prop :=
  ∃ V ⊆ cluster, cluster.card / 2 + 1 ≤ V.card ∧ ∀ v ∈ V, net.Cast v c t

omit [Host] in
/-- **One vote a node and term**, a node's own included. -/
theorem cast_unique (inv : Inv cluster net) {v c c' : String} {t : Int}
    (h : net.Cast v c t) (h' : net.Cast v c' t) : c = c' := by
  rcases h with h | ⟨rfl, -, -, hno⟩ <;> rcases h' with h' | ⟨rfl, -, -, hno'⟩
  · exact inv.unique c c' t v h h'
  · exact absurd h (hno' c)
  · exact absurd h' (hno c')
  · rfl

omit [Host] in
theorem Cast.moved (hself : "self" ∉ cluster) (m : Moved cluster net i s' sent') {v c : String} {t : Int}
    (h : net.Cast v c t) : Net.Cast ⟨Function.update net.nodes i s', sent'⟩ v c t := by
  rcases h with h | ⟨rfl, hle, hvote, hno⟩
  · exact .inl (m.sent h)
  · by_cases hvi : v = i
    · subst hvi
      have hterm := m.term
      have hself' : s'.term = t → s'.votedFor = some "self" := fun ht =>
        m.kept (by omega) "self" (hvote (by omega))
      refine .inr ⟨rfl, ?_, ?_, fun c' hg => ?_⟩
      · simp only [Function.update_self]
        exact hle.trans hterm
      · simpa only [Function.update_self] using hself'
      · rcases m.granted c' t v hg with hg | ⟨-, rfl, hrec, hc'⟩
        · exact hno c' hg
        · rw [hself' rfl] at hrec
          exact hself ((Option.some.inj hrec).symm ▸ hc')
    · refine .inr ⟨rfl, ?_, ?_, fun c' hg => ?_⟩
      · simpa only [Function.update_of_ne hvi] using hle
      · simpa only [Function.update_of_ne hvi] using hvote
      · rcases m.granted c' t v hg with hg | ⟨hvi', -⟩
        · exact hno c' hg
        · exact hvi hvi'

/-- **A term that was won stays won** by the same node. -/
theorem Won.steps (hself : "self" ∉ cluster) (inv : Inv cluster net)
    (h : Steps cluster net net') {c : String} {t : Int} (hw : Won cluster net c t) : Won cluster net' c t := by
  induction h with
  | refl => exact hw
  | tail h hs ih =>
    obtain ⟨i, s', sent', rfl, m⟩ := step_moved hself (inv_steps hself inv h) hs
    obtain ⟨V, hV, hcard, hcast⟩ := ih
    exact ⟨V, hV, hcard, fun v hv => (hcast v hv).moved hself m⟩

omit [Host] in
/-- **Two winners of one term are one node**: their majorities share a voter. -/
theorem won_unique (inv : Inv cluster net) {c c' : String} {t : Int}
    (h : Won cluster net c t) (h' : Won cluster net c' t) : c = c' := by
  obtain ⟨V, hV, hcard, hcast⟩ := h
  obtain ⟨V', hV', hcard', hcast'⟩ := h'
  obtain ⟨v, hv, hv'⟩ := majorities_meet hV hV' hcard hcard'
  exact cast_unique inv (hcast v hv) (hcast' v hv')

omit [Host] in
theorem won_of_leader (hself : "self" ∉ cluster) (inv : Inv cluster net)
    (hi : i ∈ cluster) (hl : (net.nodes i).role = .leader) : Won cluster net i (net.nodes i).term := by
  have hrole : (net.nodes i).role ≠ .follower := by rw [hl]; simp
  have hvote := inv.self i hi hrole
  have hself' : ∀ c, ¬ net.Granted c (net.nodes i).term i := by
    intro c hg
    obtain ⟨-, -, hrec, hc⟩ := inv.recorded c _ i hg
    rw [hvote] at hrec
    exact hself ((Option.some.inj (hrec rfl)).symm ▸ hc)
  have hown : net.Cast i i (net.nodes i).term :=
    .inr ⟨rfl, le_refl _, fun _ => hvote, hself'⟩
  -- a granter is "self" or a node of the cluster other than `i`
  have hgranter : ∀ v ∈ (net.nodes i).granters, v ≠ "self" →
      v ∈ cluster ∧ v ≠ i ∧ net.Granted i (net.nodes i).term v := by
    intro v hv hne
    have hg := (inv.counted i hi hrole v hv).resolve_left hne
    exact ⟨(inv.recorded _ _ _ hg).1, fun e => hself' i (e ▸ hg), hg⟩
  let named : String → String := fun v => if v = "self" then i else v
  have hinj : Set.InjOn named (net.nodes i).granters := by
    intro v hv w hw hvw
    simp only [named] at hvw
    split_ifs at hvw with h₁ h₂ h₂
    · rw [h₁, h₂]
    · exact absurd hvw.symm (hgranter w hw h₂).2.1
    · exact absurd hvw (hgranter v hv h₁).2.1
    · exact hvw
  refine ⟨(net.nodes i).granters.image named, ?_, ?_, ?_⟩
  · intro v hv
    obtain ⟨w, hw, rfl⟩ := Finset.mem_image.mp hv
    simp only [named]
    split_ifs with hs
    · exact hi
    · exact (hgranter w hw hs).1
  · rw [Finset.card_image_of_injOn hinj, ← inv.members i hi]
    exact inv.won i hi hl
  · intro v hv
    obtain ⟨w, hw, rfl⟩ := Finset.mem_image.mp hv
    simp only [named]
    split_ifs with hs
    · exact hown
    · exact .inl (hgranter w hw hs).2.2

/-- **Election safety.** In every run of a cluster of nodes with distinct names, none called
"self", no two different nodes lead in the same term, at any two moments. -/
theorem election_safety (hself : "self" ∉ cluster) {net₁ net₂ : Net}
    (h₁ : Steps cluster (init cluster) net₁) (h₂ : Steps cluster net₁ net₂) {a b : String}
    (ha : a ∈ cluster) (hb : b ∈ cluster) (hla : (net₁.nodes a).role = .leader)
    (hlb : (net₂.nodes b).role = .leader) (hterm : (net₁.nodes a).term = (net₂.nodes b).term) :
    a = b := by
  have inv₁ := inv_steps hself inv_init h₁
  have inv₂ := inv_steps hself inv₁ h₂
  have hwa := (won_of_leader hself inv₁ ha hla).steps hself inv₁ h₂
  rw [hterm] at hwa
  exact won_unique inv₂ hwa (won_of_leader hself inv₂ hb hlb)

/-! A cluster of two in which `n1` times out and `n2` grants it its vote. -/

def twoNodes : Finset String := {"n1", "n2"}

def candidateOfTwo : Election :=
  { Election.init 2 with
    term := 1, role := .candidate, votedFor := some "self", granters := {"self"} }

def leaderOfTwo : Election :=
  { candidateOfTwo with role := .leader, leader := some "self", granters := {"n2", "self"} }

def voterOfTwo : Election := { Election.init 2 with term := 1, votedFor := some "n1" }

omit [Host] in
theorem election_safety_two :
    ∃ net : Net, @Steps (hostOf []) twoNodes (init twoNodes) net ∧
      (net.nodes "n1").role = .leader ∧ "n1" = "n1" := by
  let _ : Host := hostOf []
  let net₁ := (init twoNodes).set "n1" candidateOfTwo
  let net₂ := net₁.send (.requestVote 1 "n1" 0 0)
  let net₃ := (net₂.set "n2" voterOfTwo).send (.voteResponse "n1" 1 "n2" true)
  have hn₁ : "n1" ∈ twoNodes := by decide
  have hn₂ : "n2" ∈ twoNodes := by decide
  have h₁ : Step twoNodes (init twoNodes) net₁ := .timeout [] hn₁ rfl
  have h₂ : Step twoNodes net₁ net₂ := .sendRequestVote hn₁
  have h₃ : Step twoNodes net₂ net₃ :=
    .requestVote ["1", "n1", "0", "0"] hn₂ (Set.mem_insert _ _) rfl rfl rfl rfl rfl rfl rfl
  have hcount : candidateOfTwo.voteResponse 1 "n2" true = some (leaderOfTwo, leaderOfTwo.state) :=
    rfl
  have h₄ : Step twoNodes net₃ (net₃.set "n1" leaderOfTwo) :=
    .voteResponse ["1", "n2", "true"] hn₁ (Set.mem_insert _ _) rfl rfl rfl hcount
  have hrun := (((Relation.ReflTransGen.single h₁).tail h₂).tail h₃).tail h₄
  exact ⟨_, hrun, rfl,
    election_safety (by decide) hrun Relation.ReflTransGen.refl hn₁ hn₁ rfl rfl rfl⟩

end Net

end BuildYourOwn.Raft
