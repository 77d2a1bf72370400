import BuildYourOwn.Consensus.Paxos
import BuildYourOwn.Lib.Ballot

/-!
# What the acceptors of a Paxos run remember

The history of a run of the `Paxos` machine, and how the acceptors' states follow it: which
acceptor promised which number with which report (`Promises`), and which accepted which proposal
(`Accepts`, `Acc`). One line lets at most one acceptor promise or accept (`event_cases`).

**`recorded`**: after every run no acceptor has accepted above what it has promised, each holds the
highest proposal it accepted, and what it reported with a promise is still the highest proposal it
accepted below the number it promised.
-/

namespace BuildYourOwn.Consensus.Paxos

open Lib Topic

/-- What a run leaves behind: its events in order. -/
abbrev History := List (Event Paxos Line Value)

theorem numOr_inj {a b : Option Int} (h : numOr a = numOr b) : a = b := by
  cases a <;> cases b <;> simp_all [numOr, Value.ofOption]

theorem strOr_inj {a b : Option String} (h : strOr a = strOr b) : a = b := by
  cases a <;> cases b <;> simp_all [strOr, Value.ofOption]

theorem atAcceptor_eq_some {s s' : Paxos} {i : Nat} {f : Acceptor → Acceptor × Value} {v : Value}
    (h : s.atAcceptor i f = some (s', v)) : ∃ a, s.acceptors[i]? = some a ∧
      s'.acceptors = s.acceptors.set i (f a).1 ∧ v = (f a).2 := by
  unfold atAcceptor at h
  cases ha : s.acceptors[i]? with
  | none =>
    rw [ha] at h
    cases h
  | some a =>
    rw [ha] at h
    cases h
    exact ⟨a, rfl, rfl, rfl⟩

variable {l : List Acceptor} {k : Nat} {a : Acceptor}

theorem set_same (h : l[k]? = some a) : l.set k a = l := by
  obtain ⟨hlt, rfl⟩ := List.getElem?_eq_some_iff.mp h
  exact List.set_getElem_self hlt

theorem promise_acceptors (s : Paxos) (name : String) (lastN : Int) (lastValue : String) :
    (s.promise name lastN lastValue).1.acceptors = s.acceptors := by
  unfold promise
  split <;> rfl

theorem of_getElem?_set {k k' : Nat} {a b : Acceptor}
    (h : (l.set k a)[k']? = some b) : (k = k' ∧ b = a) ∨ (k ≠ k' ∧ l[k']? = some b) := by
  rw [List.getElem?_set] at h
  split at h
  · rename_i heq
    split at h
    · exact .inl ⟨heq, (Option.some.inj h).symm⟩
    · cases h
  · rename_i hne
    exact .inr ⟨hne, h⟩

variable {n : Int}

theorem promised_set {k k' : Nat} {a b : Acceptor} (ha : l[k]? = some a) (hle : a.promisedN ≤ b.promisedN)
    (h : ∃ c, l[k']? = some c ∧ n ≤ c.promisedN) : ∃ c, (l.set k b)[k']? = some c ∧ n ≤ c.promisedN := by
  obtain ⟨c, hc, hn⟩ := h
  by_cases heq : k = k'
  · subst heq
    obtain rfl : a = c := Option.mem_unique ha hc
    refine ⟨b, ?_, Int.le_trans hn hle⟩
    rw [List.getElem?_set_self (List.getElem?_eq_some_iff.mp ha).1]
  · exact ⟨c, by rw [List.getElem?_set_ne heq, hc], hn⟩

/-! ## What happens in a run -/

variable [Host]

/-- Acceptor `k` promised `n` in the event, and answered that `r` is what it accepted last. -/
structure Promises (e : Event Paxos Line Value) (k : Nat) (n : Int) (r : Option (Int × String)) :
    Prop where
  command : e.input.command = "prepare"
  acceptor : acceptorIndex e.before.acceptors.length e.input.args 0 = .ok k
  number : int e.input.args 1 = .ok n
  promised : e.output.flagAt "promised" = some true
  lastN : e.output.get "last_n" = some (numOr (r.map Prod.fst))
  lastValue : e.output.get "last_value" = some (strOr (r.map Prod.snd))

/-- Acceptor `k` accepted the proposal `n` with value `w` in the event. -/
structure Accepts (e : Event Paxos Line Value) (k : Nat) (n : Int) (w : String) : Prop where
  command : e.input.command = "accept"
  acceptor : acceptorIndex e.before.acceptors.length e.input.args 0 = .ok k
  number : int e.input.args 1 = .ok n
  value : word e.input.args 2 = .ok w
  accepted : e.output.flagAt "accepted" = some true

/-- Acceptor `k` accepted the proposal at some time of the history. -/
def Acc (es : History) (k : Nat) (n : Int) (w : String) : Prop := ∃ e ∈ es, Accepts e k n w

/-! ## What one line does to the acceptors -/

structure Quiet (e : Event Paxos Line Value) : Prop where
  same : e.after.acceptors = e.before.acceptors
  noAccept : ∀ k n w, ¬ Accepts e k n w
  noPromise : ∀ k n r, ¬ Promises e k n r

/-- Acceptor `k`, which was `a`, promised `n`. -/
structure Promised (e : Event Paxos Line Value) (k : Nat) (n : Int) (a : Acceptor) : Prop where
  here : e.before.acceptors[k]? = some a
  below : a.promisedN < n
  after : e.after.acceptors = e.before.acceptors.set k { a with promisedN := n }
  noAccept : ∀ k n w, ¬ Accepts e k n w
  only : ∀ k' n' r, Promises e k' n' r →
    k' = k ∧ n' = n ∧ a.lastN = r.map Prod.fst ∧ a.lastValue = r.map Prod.snd

/-- Acceptor `k`, which was `a`, accepted the proposal `n` with value `w`. -/
structure Accepted (e : Event Paxos Line Value) (k : Nat) (n : Int) (w : String) (a : Acceptor) :
    Prop where
  here : e.before.acceptors[k]? = some a
  below : a.promisedN ≤ n
  after : e.after.acceptors =
    e.before.acceptors.set k { promisedN := n, lastN := some n, lastValue := some w }
  accepts : Accepts e k n w
  only : ∀ k' n' w', Accepts e k' n' w' → k' = k ∧ n' = n ∧ w' = w
  noPromise : ∀ k n r, ¬ Promises e k n r

variable {e : Event Paxos Line Value}

theorem quiet_of_command (h : e.input.command ≠ "prepare") (h' : e.input.command ≠ "accept")
    (hsame : e.after.acceptors = e.before.acceptors) : Quiet e :=
  ⟨hsame, fun _ _ _ ha => h' ha.command, fun _ _ _ hp => h hp.command⟩

theorem prepare_cases (hcommand : e.input.command = "prepare")
    (hs : onLine step e.before e.input = some (e.after, e.output)) : Quiet e ∨ ∃ k n a, Promised e k n a := by
  have hno : ∀ k n w, ¬ Accepts e k n w := fun k n w ha =>
    absurd (hcommand.symm.trans ha.command) (by decide)
  unfold onLine at hs
  rw [hcommand] at hs
  simp only [step] at hs
  rcases arg_eq_some.mp hs with ⟨hi, heq⟩ | ⟨i, hi, hs⟩
  · refine .inl ⟨by rw [heq], hno, fun k n r hp => ?_⟩
    rw [hp.acceptor] at hi
    cases hi
  rcases arg_eq_some.mp hs with ⟨hn, heq⟩ | ⟨n, hn, hs⟩
  · refine .inl ⟨by rw [heq], hno, fun k n r hp => ?_⟩
    rw [hp.number] at hn
    cases hn
  obtain ⟨a, ha, hafter, hout⟩ := atAcceptor_eq_some hs
  unfold Acceptor.prepare at hafter hout
  by_cases hlt : a.promisedN < n
  · simp only [hlt, decide_true, if_true] at hafter hout
    refine .inr ⟨i, n, a, ha, hlt, hafter, hno, fun k' n' r hp => ?_⟩
    have hk : k' = i := Except.ok.inj (hp.acceptor.symm.trans hi)
    have hn' : n' = n := Except.ok.inj (hp.number.symm.trans hn)
    have hlast := hp.lastN
    have hvalue := hp.lastValue
    rw [hout] at hlast hvalue
    exact ⟨hk, hn', numOr_inj (Option.some.inj hlast), strOr_inj (Option.some.inj hvalue)⟩
  · simp only [hlt, decide_false, Bool.false_eq_true, if_false] at hafter hout
    refine .inl ⟨by rw [hafter, set_same ha], hno, fun k' n' r hp => ?_⟩
    have hpromised := hp.promised
    rw [hout] at hpromised
    cases Option.some.inj hpromised

theorem accept_cases (hcommand : e.input.command = "accept")
    (hs : onLine step e.before e.input = some (e.after, e.output)) : Quiet e ∨ ∃ k n w a, Accepted e k n w a := by
  have hno : ∀ k n r, ¬ Promises e k n r := fun k n r hp =>
    absurd (hcommand.symm.trans hp.command) (by decide)
  unfold onLine at hs
  rw [hcommand] at hs
  simp only [step] at hs
  rcases arg_eq_some.mp hs with ⟨hi, heq⟩ | ⟨i, hi, hs⟩
  · refine .inl ⟨by rw [heq], fun k n w ha => ?_, hno⟩
    rw [ha.acceptor] at hi
    cases hi
  rcases arg_eq_some.mp hs with ⟨hn, heq⟩ | ⟨n, hn, hs⟩
  · refine .inl ⟨by rw [heq], fun k n w ha => ?_, hno⟩
    rw [ha.number] at hn
    cases hn
  rcases arg_eq_some.mp hs with ⟨hw, heq⟩ | ⟨w, hw, hs⟩
  · refine .inl ⟨by rw [heq], fun k n w ha => ?_, hno⟩
    rw [ha.value] at hw
    cases hw
  obtain ⟨a, ha, hafter, hout⟩ := atAcceptor_eq_some hs
  unfold Acceptor.accept at hafter hout
  by_cases hle : a.promisedN ≤ n
  · simp only [hle, decide_true, if_true] at hafter hout
    refine .inr ⟨i, n, w, a, ha, hle, hafter, ⟨hcommand, hi, hn, hw, by rw [hout]; rfl⟩, ?_, hno⟩
    intro k' n' w' ha'
    exact ⟨Except.ok.inj (ha'.acceptor.symm.trans hi), Except.ok.inj (ha'.number.symm.trans hn),
      Except.ok.inj (ha'.value.symm.trans hw)⟩
  · simp only [hle, decide_false, Bool.false_eq_true, if_false] at hafter hout
    refine .inl ⟨by rw [hafter, set_same ha], fun k' n' w' ha' => ?_, hno⟩
    have haccepted := ha'.accepted
    rw [hout] at haccepted
    cases Option.some.inj haccepted

/-- Only `init`, `prepare` and `accept` reach an acceptor's state. -/
theorem elsewhere (hinit : e.input.command ≠ "init") (hprepare : e.input.command ≠ "prepare")
    (haccept : e.input.command ≠ "accept") (hs : onLine step e.before e.input = some (e.after, e.output)) :
    e.after.acceptors = e.before.acceptors := by
  unfold onLine step at hs
  split at hs
  case h_1 hcommand => exact absurd hcommand hinit
  case h_2 hcommand => exact absurd hcommand hprepare
  case h_3 hcommand => exact absurd hcommand haccept
  case h_4 =>
    rcases arg_eq_some.mp hs with ⟨-, heq⟩ | ⟨i, -, hs⟩
    · rw [heq]
    · obtain ⟨a, ha, hafter, -⟩ := atAcceptor_eq_some hs
      rw [hafter]
      exact set_same ha
  case h_5 =>
    obtain ⟨heq, -⟩ := Prod.mk.inj (Option.some.inj hs)
    rw [← heq]
  case h_6 =>
    rcases arg_eq_some.mp hs with ⟨-, heq⟩ | ⟨n, -, hs⟩
    · rw [heq]
    rcases arg_eq_some.mp hs with ⟨-, heq⟩ | ⟨value, -, hs⟩
    · rw [heq]
    · obtain ⟨heq, -⟩ := Prod.mk.inj (Option.some.inj hs)
      rw [← heq]
  case h_7 =>
    rcases arg_eq_some.mp hs with ⟨-, heq⟩ | ⟨name, -, hs⟩
    · rw [heq]
    split at hs
    · obtain ⟨heq, -⟩ := Prod.mk.inj (Option.some.inj hs)
      rw [← heq]
    rcases arg_eq_some.mp hs with ⟨-, heq⟩ | ⟨lastN, -, hs⟩
    · rw [heq]
    rcases arg_eq_some.mp hs with ⟨-, heq⟩ | ⟨lastValue, -, hs⟩
    · rw [heq]
    · have hkeep := promise_acceptors e.before name lastN lastValue
      rwa [Option.some.inj hs] at hkeep
  case h_8 =>
    obtain ⟨heq, -⟩ := Prod.mk.inj (Option.some.inj hs)
    rw [← heq]
  case h_9 =>
    obtain ⟨heq, -⟩ := Prod.mk.inj (Option.some.inj hs)
    rw [← heq]

theorem event_cases (hinit : e.input.command ≠ "init") (hs : onLine step e.before e.input = some (e.after, e.output)) :
    Quiet e ∨ (∃ k n a, Promised e k n a) ∨ ∃ k n w a, Accepted e k n w a := by
  by_cases hprepare : e.input.command = "prepare"
  · rcases prepare_cases hprepare hs with hq | hp
    · exact .inl hq
    · exact .inr (.inl hp)
  by_cases haccept : e.input.command = "accept"
  · rcases accept_cases haccept hs with hq | ha
    · exact .inl hq
    · exact .inr (.inr ha)
  exact .inl (quiet_of_command hprepare haccept (elsewhere hinit hprepare haccept hs))

/-! ## The acceptors' memory -/

structure Recorded (N : Nat) (es : History) (s : Paxos) : Prop where
  count : s.acceptors.length = N
  below : ∀ (k : Nat) a, s.acceptors[k]? = some a → ∀ m w, Acc es k m w → m ≤ a.promisedN
  last : ∀ (k : Nat) a, s.acceptors[k]? = some a →
    (a.lastN = none ∧ a.lastValue = none ∧ ∀ m w, ¬ Acc es k m w) ∨
    ∃ m w, a.lastN = some m ∧ a.lastValue = some w ∧ Acc es k m w ∧
      ∀ m' w', Acc es k m' w' → m' ≤ m
  promised : ∀ e ∈ es, ∀ k n r, Promises e k n r →
    (∃ a, s.acceptors[k]? = some a ∧ n ≤ a.promisedN) ∧ Reports (Acc es) k n r

theorem recorded_init (N : Nat) : Recorded N [] (init N) where
  count := List.length_replicate
  below k a ha m w hacc := by
    obtain ⟨e, he, -⟩ := hacc
    cases he
  last k a ha := by
    obtain ⟨-, rfl⟩ := List.mem_replicate.mp (List.mem_of_getElem? ha)
    refine .inl ⟨rfl, rfl, fun m w hacc => ?_⟩
    obtain ⟨e, he, -⟩ := hacc
    cases he
  promised e he := absurd he List.not_mem_nil

variable {es : History}

theorem acc_snoc_of_not (h : ∀ k n w, ¬ Accepts e k n w) : Acc (es ++ [e]) = Acc es := by
  funext k n w
  apply propext
  constructor
  · rintro ⟨e', he', hacc⟩
    rcases List.mem_append.mp he' with he' | he'
    · exact ⟨e', he', hacc⟩
    · obtain rfl := List.mem_singleton.mp he'
      exact absurd hacc (h k n w)
  · rintro ⟨e', he', hacc⟩
    exact ⟨e', List.mem_append_left _ he', hacc⟩

theorem acc_snoc {w : String} (h : Accepted e k n w a) {k' : Nat} {m : Int} {u : String} :
    Acc (es ++ [e]) k' m u ↔ Acc es k' m u ∨ (k' = k ∧ m = n ∧ u = w) := by
  constructor
  · rintro ⟨e', he', hacc⟩
    rcases List.mem_append.mp he' with he' | he'
    · exact .inl ⟨e', he', hacc⟩
    · obtain rfl := List.mem_singleton.mp he'
      exact .inr (h.only k' m u hacc)
  · rintro (⟨e', he', hacc⟩ | ⟨rfl, rfl, rfl⟩)
    · exact ⟨e', List.mem_append_left _ he', hacc⟩
    · exact ⟨e, List.mem_concat_self, h.accepts⟩

variable {N : Nat}

theorem Recorded.quiet (h : Recorded N es e.before) (hq : Quiet e) : Recorded N (es ++ [e]) e.after where
  count := by rw [hq.same, h.count]
  below := by
    rw [acc_snoc_of_not hq.noAccept, hq.same]
    exact h.below
  last := by
    rw [acc_snoc_of_not hq.noAccept, hq.same]
    exact h.last
  promised e' he' k n r hp := by
    rw [acc_snoc_of_not hq.noAccept, hq.same]
    rcases List.mem_append.mp he' with he' | he'
    · exact h.promised e' he' k n r hp
    · obtain rfl := List.mem_singleton.mp he'
      exact absurd hp (hq.noPromise k n r)

theorem Recorded.reports {s : Paxos} (h : Recorded N es s) (ha : s.acceptors[k]? = some a) (hlt : a.promisedN < n)
    {r : Option (Int × String)} (hn : a.lastN = r.map Prod.fst)
    (hv : a.lastValue = r.map Prod.snd) : Reports (Acc es) k n r := by
  rcases h.last k a ha with ⟨hnone, -, hno⟩ | ⟨m, w, hm, hw, hacc, hmax⟩
  · cases r with
    | none => exact fun m w _ hacc => hno m w hacc
    | some p =>
      rw [hnone] at hn
      cases hn
  · cases r with
    | none =>
      rw [hm] at hn
      cases hn
    | some p =>
      obtain rfl : m = p.1 := Option.mem_unique hm hn
      obtain rfl : w = p.2 := Option.mem_unique hw hv
      exact ⟨Int.lt_of_le_of_lt (h.below k a ha _ _ hacc) hlt, hacc,
        fun m' w' _ hacc' => hmax m' w' hacc'⟩

theorem Recorded.promise (h : Recorded N es e.before) (hp : Promised e k n a) : Recorded N (es ++ [e]) e.after where
  count := by rw [hp.after, List.length_set, h.count]
  below k' b hb m w hacc := by
    rw [acc_snoc_of_not hp.noAccept] at hacc
    rw [hp.after] at hb
    rcases of_getElem?_set hb with ⟨rfl, rfl⟩ | ⟨-, hb⟩
    · exact Int.le_of_lt (Int.lt_of_le_of_lt (h.below k a hp.here m w hacc) hp.below)
    · exact h.below k' b hb m w hacc
  last k' b hb := by
    rw [acc_snoc_of_not hp.noAccept]
    rw [hp.after] at hb
    rcases of_getElem?_set hb with ⟨rfl, rfl⟩ | ⟨-, hb⟩
    · exact h.last k a hp.here
    · exact h.last k' b hb
  promised e' he' k' n' r hp' := by
    rw [acc_snoc_of_not hp.noAccept, hp.after]
    rcases List.mem_append.mp he' with he' | he'
    · obtain ⟨hbound, hreports⟩ := h.promised e' he' k' n' r hp'
      exact ⟨promised_set hp.here (Int.le_of_lt hp.below) hbound, hreports⟩
    · obtain rfl := List.mem_singleton.mp he'
      obtain ⟨rfl, rfl, hn, hv⟩ := hp.only k' n' r hp'
      have hlt := (List.getElem?_eq_some_iff.mp hp.here).1
      exact ⟨⟨_, List.getElem?_set_self hlt, Int.le_refl _⟩, h.reports hp.here hp.below hn hv⟩

theorem Recorded.accept {w : String}
    (h : Recorded N es e.before) (ha : Accepted e k n w a) : Recorded N (es ++ [e]) e.after where
  count := by rw [ha.after, List.length_set, h.count]
  below k' b hb m u hacc := by
    rw [ha.after] at hb
    rw [acc_snoc ha] at hacc
    rcases of_getElem?_set hb with ⟨rfl, rfl⟩ | ⟨hne, hb⟩
    · rcases hacc with hacc | ⟨-, rfl, -⟩
      · exact Int.le_trans (h.below k a ha.here m u hacc) ha.below
      · exact Int.le_refl _
    · rcases hacc with hacc | ⟨heq, -, -⟩
      · exact h.below k' b hb m u hacc
      · exact absurd heq.symm hne
  last k' b hb := by
    rw [ha.after] at hb
    simp only [acc_snoc ha]
    rcases of_getElem?_set hb with ⟨rfl, rfl⟩ | ⟨hne, hb⟩
    · refine .inr ⟨n, w, rfl, rfl, .inr ⟨rfl, rfl, rfl⟩, fun m' w' hacc => ?_⟩
      rcases hacc with hacc | ⟨-, rfl, -⟩
      · exact Int.le_trans (h.below k a ha.here m' w' hacc) ha.below
      · exact Int.le_refl _
    · have hold : ∀ m u, (Acc es k' m u ∨ k' = k ∧ m = n ∧ u = w) ↔ Acc es k' m u := fun m u =>
        or_iff_left fun heq => hne heq.1.symm
      simp only [hold]
      exact h.last k' b hb
  promised e' he' k' n' r hp := by
    rcases List.mem_append.mp he' with he' | he'
    · obtain ⟨hbound, hreports⟩ := h.promised e' he' k' n' r hp
      refine ⟨?_, hreports.congr fun m u hlt => ?_⟩
      · rw [ha.after]
        exact promised_set ha.here ha.below hbound
      · -- nothing below the promise is accepted any more
        rw [acc_snoc ha]
        refine or_iff_left ?_
        rintro ⟨rfl, rfl, -⟩
        obtain ⟨c, hc, hn⟩ := hbound
        obtain rfl : a = c := Option.mem_unique ha.here hc
        have := ha.below
        omega
    · obtain rfl := List.mem_singleton.mp he'
      exact absurd hp (ha.noPromise k' n' r)

/-- **The acceptors remember every run.** -/
theorem recorded {s : Paxos} (hrun : Run (onLine step) (init N) es s)
    (hinit : ∀ e ∈ es, e.input.command ≠ "init") : Recorded N es s := by
  refine hrun.history_invariant (recorded_init N) (fun es s l s' v h hl hs => ?_) hinit
  rcases event_cases hl hs with hq | ⟨k, n, a, hp⟩ | ⟨k, n, w, a, ha⟩
  · exact h.quiet hq
  · exact h.promise hp
  · exact h.accept ha

end BuildYourOwn.Consensus.Paxos
