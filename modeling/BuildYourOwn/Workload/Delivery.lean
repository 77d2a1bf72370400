import BuildYourOwn.Workload.World

/-!
# What became of every request

The invariant of the machine of clients and store: `Ledger` about what the store applied, `Delivery`
about the copies of a request under way, `Booking` about the clients and what they recorded.

A request is repeated on the word of its connection alone, so what keeps a write from being applied
twice is an assumption on the run, `Harmless`: no write whose copy arrives in full is sent once
more. A server that closes idle connections only is such, and `Http::request` takes a connection
that fails without a byte of answer for one that was.

* **`sound_of_run`**: all of it holds after every harmless run.
-/

namespace BuildYourOwn.Workload

open Lib Lin

/-! ## The invariant -/

/-- A client that will send its request once more, should the connection be lost now, has not got
a write across. -/
def World.Unreceived (w : World) : Stage → Prop
  | .awaiting n attempt _ pooled x => ∀ ex ∈ w.exchanges[x]?, ∀ o ∈ w.operations[n]?,
    ex.begun = false → repeats attempt pooled (path o.op) .io true = true →
    ex.received = true → o.op = .read
  | _ => True

def Harmless (w : World) : Event → Prop
  | .receive x => ∀ ex ∈ w.exchanges[x]?, ∀ o ∈ w.operations[ex.number]?,
    ex.repeated = true → o.op = .read
  | .await client => w.Unreceived (w.stage client)
  | _ => True

inductive Served (operations : List Operation) : List Applied → (String → State) → Prop
  | nil : Served operations [] fun _ => none
  | snoc {applied : List Applied} {σ : String → State} {a : Applied} {o : Operation} {value : State}
      (h : Served operations applied σ) (ho : operations[a.number]? = some o)
      (hserve : serve (σ o.key) (request o.op) = (value, a.answer)) :
    Served operations (applied ++ [a]) (Function.update σ o.key value)

structure Ledger (w : World) : Prop where
  served : Served w.operations w.applied w.store
  timed : ∀ a ∈ w.applied, ∃ o, w.operations[a.number]? = some o ∧ o.call ≤ a.time ∧ a.time ≤ w.now
  ordered : w.applied.Pairwise fun a b => a.time ≤ b.time
  called : ∀ o ∈ w.operations, o.call ≤ w.now
  once : w.applied.Pairwise fun a b =>
    a.number = b.number → ∀ o, w.operations[a.number]? = some o → o.op = .read

/-- The operation of each exchange, and whether the client sent it once more. -/
def World.copies (w : World) : List (Nat × Bool) := w.exchanges.map fun ex => (ex.number, ex.repeated)

structure Delivery (w : World) : Prop where
  known : ∀ (x : Nat) (ex : Exchange), w.exchanges[x]? = some ex → ∃ o, w.operations[ex.number]? = some o
  answered : ∀ (x : Nat) (ex : Exchange) resp, w.exchanges[x]? = some ex → ex.answer = some resp →
    ex.received = true ∧ ∃ a ∈ w.applied, a.number = ex.number ∧ a.answer = resp
  applied : ∀ a ∈ w.applied, ∃ (x : Nat) (ex : Exchange), w.exchanges[x]? = some ex ∧ ex.number = a.number ∧
    ex.answer.isSome = true
  spared : ∀ (x : Nat) (ex : Exchange) (o : Operation), w.exchanges[x]? = some ex → w.operations[ex.number]? = some o →
    o.op ≠ .read → ex.repeated = true → ex.received = false
  single : ∀ (x y n : Nat) (o : Operation), w.copies[x]? = some (n, false) → w.copies[y]? = some (n, false) →
    w.operations[n]? = some o → o.op ≠ .read → x = y

/-- The store gave this outcome to operation `n`. -/
def World.Gave (w : World) (n : Nat) (outcome : Outcome) (latest : UInt64) : Prop :=
  ∃ a ∈ w.applied, ∃ o, a.number = n ∧ w.operations[n]? = some o ∧
    outcomeOf o.op (.ok a.answer) = outcome ∧ a.time ≤ latest

/-- All earlier copies of a write were given up before another is sent. -/
def World.GivenUp (w : World) (n : Nat) : Prop :=
  ∀ p ∈ w.copies, p.1 = n → ∀ o, w.operations[n]? = some o → o.op ≠ .read → p.2 = true

/-- What a client has to go on. -/
def World.StageOk (w : World) : Stage → Prop
  | .idle => True
  | .checkout n _ => w.GivenUp n
  | .writing n _ _ _ => w.GivenUp n
  | .awaiting n _ _ _ x => w.copies[x]? = some (n, false)
  | .reading n _ _ _ x => w.copies[x]? = some (n, false)
  | .returned n outcome => outcome ≠ .unknown → w.Gave n outcome w.now

/-- An operation and what was recorded of it. -/
def World.EntryOk (w : World) (p : Nat × Entry) : Prop :=
  ∃ o outcome ret note, w.operations[p.1]? = some o ∧
    p.2 = Recorder.entry o.client o.key o.op outcome o.call ret note ∧ ret ≤ w.now ∧
    (outcome ≠ .unknown → w.Gave p.1 outcome ret)

structure Booking (w : World) : Prop where
  current : ∀ client n, (w.stage client).number = some n →
    (∃ o, w.operations[n]? = some o ∧ o.client = client) ∧ n ∉ w.recorded.map (·.1)
  nodup : (w.recorded.map (·.1)).Nodup
  every : ∀ n, n < w.operations.length →
    n ∈ w.recorded.map (·.1) ∨ ∃ client, (w.stage client).number = some n
  stages : ∀ client, w.StageOk (w.stage client)
  entries : ∀ p ∈ w.recorded, w.EntryOk p

structure Sound (w : World) : Prop where
  ledger : Ledger w
  delivery : Delivery w
  booking : Booking w

theorem sound_start : Sound World.start where
  ledger := ⟨Served.nil, List.forall_mem_nil _, List.Pairwise.nil,
    List.forall_mem_nil _, List.Pairwise.nil⟩
  delivery := ⟨fun x ex hx => absurd hx (by simp [World.start]),
    fun x ex resp hx => absurd hx (by simp [World.start]), List.forall_mem_nil _,
    fun x ex o hx => absurd hx (by simp [World.start]),
    fun x y n o hx => absurd hx (by simp [World.start, World.copies])⟩
  booking := ⟨fun client n h => absurd h (by simp [World.start, Stage.number]), List.nodup_nil,
    fun n hn => absurd hn (Nat.not_lt_zero _), fun _ => trivial,
    List.forall_mem_nil _⟩

variable {w w' : World} {client n : Nat}

/-! ## Frames -/

theorem World.Gave.mono {outcome : Outcome} {latest latest' : UInt64} (h : w.Gave n outcome latest)
    (happlied : ∀ a ∈ w.applied, a ∈ w'.applied)
    (hops : ∀ (n : Nat) (o : Operation), w.operations[n]? = some o → w'.operations[n]? = some o)
    (hle : latest ≤ latest') : w'.Gave n outcome latest' := by
  obtain ⟨a, ha, o, hn, ho, hout, ht⟩ := h
  exact ⟨a, happlied a ha, o, hn, hops n o ho, hout, UInt64.le_trans ht hle⟩

theorem World.EntryOk.mono {p : Nat × Entry} (h : w.EntryOk p) (happlied : ∀ a ∈ w.applied, a ∈ w'.applied)
    (hops : ∀ (n : Nat) (o : Operation), w.operations[n]? = some o → w'.operations[n]? = some o)
    (hnow : w.now ≤ w'.now) : w'.EntryOk p := by
  obtain ⟨o, outcome, ret, note, ho, he, hret, hgave⟩ := h
  exact ⟨o, outcome, ret, note, hops _ o ho, he, UInt64.le_trans hret hnow, fun hne =>
    (hgave hne).mono happlied hops (UInt64.le_refl _)⟩

variable {stage : Stage}

theorem World.StageOk.grow (h : w.StageOk stage)
    (hsame : ∀ m, stage.number = some m → w'.operations[m]? = w.operations[m]?)
    (hcopies : w'.copies = w.copies) (happlied : ∀ a ∈ w.applied, a ∈ w'.applied)
    (hops : ∀ (n : Nat) (o : Operation), w.operations[n]? = some o → w'.operations[n]? = some o)
    (hnow : w.now ≤ w'.now) : w'.StageOk stage := by
  have hgivenUp : ∀ m, stage.number = some m → w.GivenUp m → w'.GivenUp m := by
    intro m hm hgiven
    unfold GivenUp
    rw [hcopies, hsame m hm]
    exact hgiven
  cases stage with
  | idle => trivial
  | checkout n attempt => exact hgivenUp n rfl h
  | writing n attempt conn pooled => exact hgivenUp n rfl h
  | awaiting n attempt conn pooled x =>
    unfold StageOk at h ⊢
    rw [hcopies]
    exact h
  | reading n attempt conn pooled x =>
    unfold StageOk at h ⊢
    rw [hcopies]
    exact h
  | returned n outcome => exact fun hne => World.Gave.mono (h hne) happlied hops hnow

theorem World.StageOk.mono (h : w.StageOk stage) (hcopies : w'.copies = w.copies)
    (hops : w'.operations = w.operations) (happlied : ∀ a ∈ w.applied, a ∈ w'.applied)
    (hnow : w.now ≤ w'.now) : w'.StageOk stage :=
  h.grow (fun _ _ => hops ▸ rfl) hcopies happlied (fun _ _ ho => hops ▸ ho) hnow

/-! ## The copies of a request -/

theorem getElem?_of_modify {α : Type} {l : List α} {f : α → α} {x y : Nat} {b : α} (h : (l.modify x f)[y]? = some b) :
    ∃ a, l[y]? = some a ∧ (x = y ∧ b = f a ∨ x ≠ y ∧ b = a) := by
  rw [List.getElem?_modify] at h
  obtain ⟨a, ha, rfl⟩ := Option.map_eq_some_iff.mp h
  refine ⟨a, ha, ?_⟩
  by_cases hxy : x = y
  · exact .inl ⟨hxy, if_pos hxy⟩
  · exact .inr ⟨hxy, if_neg hxy⟩

theorem getElem?_modify_self {α : Type} {l : List α} {f : α → α} {x : Nat} {a : α}
    (h : l[x]? = some a) : (l.modify x f)[x]? = some (f a) := by
  rw [List.getElem?_modify, h]
  exact congrArg some (if_pos rfl)

theorem getElem?_modify_ne {α : Type} {l : List α} {f : α → α} {x y : Nat} (h : x ≠ y) :
    (l.modify x f)[y]? = l[y]? := by
  rw [List.getElem?_modify]
  cases l[y]? with
  | none => rfl
  | some a => exact congrArg some (if_neg h)

theorem copies_modify {x : Nat} {f : Exchange → Exchange}
    (hf : ∀ ex, ((f ex).number, (f ex).repeated) = (ex.number, ex.repeated)) :
    ({ w with exchanges := w.exchanges.modify x f } : World).copies = w.copies := by
  refine List.ext_getElem? fun y => ?_
  unfold World.copies
  rw [List.getElem?_map, List.getElem?_map, List.getElem?_modify]
  cases w.exchanges[y]? with
  | none => rfl
  | some ex =>
    refine congrArg some ?_
    by_cases hxy : x = y
    · simp only [hxy, if_true]
      exact hf ex
    · simp only [hxy, if_false]

@[simp] theorem World.copies_setStage (stage : Stage) : (w.setStage client stage).copies = w.copies := rfl

theorem getElem?_copies {x n : Nat} {repeated : Bool} :
    w.copies[x]? = some (n, repeated) ↔ ∃ ex, w.exchanges[x]? = some ex ∧ ex.number = n ∧ ex.repeated = repeated := by
  unfold World.copies
  rw [List.getElem?_map, Option.map_eq_some_iff]
  simp

theorem Delivery.fresh (h : Delivery w) {x : Nat} {ex : Exchange} {o : Operation}
    (hx : w.exchanges[x]? = some ex) (ho : w.operations[ex.number]? = some o) (hop : o.op ≠ .read)
    (hreceived : ex.received = true) (hanswer : ex.answer = none) : ∀ a ∈ w.applied, a.number ≠ ex.number := by
  intro a ha hsame
  obtain ⟨y, ey, hy, hey, hanswered⟩ := h.applied a ha
  obtain ⟨resp, hresp⟩ := Option.isSome_iff_exists.mp hanswered
  have hnot : ∀ (z : Nat) (ez : Exchange), w.exchanges[z]? = some ez → ez.number = ex.number →
      ez.received = true → w.copies[z]? = some (ex.number, false) := by
    intro z ez hz hnum hrec
    refine getElem?_copies.mpr ⟨ez, hz, hnum, ?_⟩
    cases hrep : ez.repeated with
    | false => rfl
    | true =>
      have hno := h.spared z ez o hz (hnum ▸ ho) hop hrep
      cases hrec.symm.trans hno
  have hxy := h.single x y ex.number o (hnot x ex hx rfl hreceived)
    (hnot y ey hy (hey.trans hsame) (h.answered y ey resp hy hresp).1) ho hop
  subst hxy
  obtain rfl : ex = ey := Option.mem_unique hx hy
  cases hanswer.symm.trans hresp

/-! ## The clients -/

theorem Booking.move (h : Booking w) (hops : w'.operations = w.operations)
    (hrecorded : w'.recorded = w.recorded) (happlied : ∀ a ∈ w.applied, a ∈ w'.applied)
    (hnow : w.now ≤ w'.now) (hnumber : ∀ c, (w'.stage c).number = (w.stage c).number)
    (hstages : ∀ c, w'.StageOk (w'.stage c)) : Booking w' where
  current c n hn := by
    rw [hops, hrecorded]
    exact h.current c n ((hnumber c).symm.trans hn)
  nodup := hrecorded ▸ h.nodup
  every n hn := by
    rw [hrecorded]
    refine (h.every n (hops ▸ hn)).imp id fun ⟨c, hc⟩ => ⟨c, (hnumber c).trans hc⟩
  stages := hstages
  entries p hp := (h.entries p (hrecorded ▸ hp)).mono happlied (fun n o ho => hops ▸ ho) hnow

theorem Booking.disjoint (h : Booking w) {c c' : Nat} (hne : c' ≠ c)
    (hn : (w.stage c).number = some n) : (w.stage c').number ≠ some n := by
  intro hn'
  obtain ⟨⟨o, ho, hc⟩, -⟩ := h.current c n hn
  obtain ⟨⟨o', ho', hc'⟩, -⟩ := h.current c' n hn'
  obtain rfl : o = o' := Option.mem_unique ho ho'
  exact hne (hc'.symm.trans hc)

theorem World.StageOk.other (h : w.StageOk stage) (hne : stage.number ≠ some n)
    (hcopies : ∀ (y m : Nat) (b : Bool), m ≠ n →
      (w'.copies[y]? = some (m, b) ↔ w.copies[y]? = some (m, b)))
    (hops : w'.operations = w.operations) (happlied : ∀ a ∈ w.applied, a ∈ w'.applied)
    (hnow : w.now ≤ w'.now) : w'.StageOk stage := by
  have hgivenUp : ∀ m, m ≠ n → w.GivenUp m → w'.GivenUp m := by
    intro m hm hgiven p hp hpm
    obtain ⟨y, hy⟩ := List.mem_iff_getElem?.mp hp
    rw [hops]
    exact hgiven p (List.mem_iff_getElem?.mpr ⟨y, (hcopies y p.1 p.2 (hpm ▸ hm)).mp hy⟩) hpm
  cases stage with
  | idle => trivial
  | checkout m attempt => exact hgivenUp m (fun hm => hne (congrArg some hm)) h
  | writing m attempt conn pooled => exact hgivenUp m (fun hm => hne (congrArg some hm)) h
  | awaiting m attempt conn pooled x =>
    exact (hcopies x m false fun hm => hne (congrArg some hm)).mpr h
  | reading m attempt conn pooled x =>
    exact (hcopies x m false fun hm => hne (congrArg some hm)).mpr h
  | returned m outcome =>
    exact fun hout => World.Gave.mono (h hout) happlied (fun m o ho => hops ▸ ho) hnow

theorem Booking.stageOk (h : Booking w) (hstage : w.stage client = stage) : w.StageOk stage :=
  hstage ▸ h.stages client

theorem Booking.turn (h : Booking w) (hcur : (w.stage client).number = some n)
    (hn : stage.number = some n) (hstage : w'.stage = Function.update w.stage client stage)
    (hops : w'.operations = w.operations) (hrecorded : w'.recorded = w.recorded)
    (happlied : ∀ a ∈ w.applied, a ∈ w'.applied) (hnow : w.now ≤ w'.now) (hcopies : ∀ (y m : Nat) (b : Bool), m ≠ n →
      (w'.copies[y]? = some (m, b) ↔ w.copies[y]? = some (m, b))) (hok : w'.StageOk stage) : Booking w' := by
  refine h.move hops hrecorded happlied hnow (fun c => ?_) fun c => ?_
  · by_cases hc : c = client
    · subst hc
      rw [hstage, Function.update_self, hn, hcur]
    · rw [hstage, Function.update_of_ne hc]
  · by_cases hc : c = client
    · subst hc
      rw [hstage, Function.update_self]
      exact hok
    · rw [hstage, Function.update_of_ne hc]
      exact (h.stages c).other (h.disjoint hc hcur) hcopies hops happlied hnow

theorem Sound.setStage (h : Sound w) {pools : Nat → Nat → List Nat}
    {lost : List Bool} (hcur : (w.stage client).number = some n) (hn : stage.number = some n) (hok : w.StageOk stage) :
    Sound (({ w with idle := pools, lost := lost } : World).setStage client stage) where
  ledger := ⟨h.ledger.served, h.ledger.timed, h.ledger.ordered, h.ledger.called, h.ledger.once⟩
  delivery := ⟨h.delivery.known, h.delivery.answered, h.delivery.applied, h.delivery.spared,
    h.delivery.single⟩
  booking := h.booking.turn hcur hn rfl rfl rfl (fun _ ha => ha) (UInt64.le_refl _)
    (fun _ _ _ _ => Iff.rfl) (hok.mono rfl rfl (fun _ ha => ha) (UInt64.le_refl _))

theorem getElem?_copies_repeated {x y m : Nat} {repeated : Bool}
    (h : ({ w with exchanges := w.exchanges.modify x fun ex => { ex with repeated := true } } :
      World).copies[y]? = some (m, repeated)) :
    (x = y ∧ repeated = true) ∨ (x ≠ y ∧ w.copies[y]? = some (m, repeated)) := by
  obtain ⟨ex, hex, rfl, rfl⟩ := getElem?_copies.mp h
  obtain ⟨a, ha, ⟨hxy, rfl⟩ | ⟨hxy, rfl⟩⟩ := getElem?_of_modify hex
  · exact .inl ⟨hxy, rfl⟩
  · exact .inr ⟨hxy, getElem?_copies.mpr ⟨ex, ha, rfl, rfl⟩⟩

theorem Sound.resend (h : Sound w) {attempt x : Nat} {ex : Exchange}
    (hcur : (w.stage client).number = some n) (hx : w.exchanges[x]? = some ex)
    (hn : ex.number = n) (hrepeated : ex.repeated = false)
    (hspare : ∀ o, w.operations[n]? = some o → o.op ≠ .read → ex.received = false) :
    Sound (({ w with exchanges :=
      w.exchanges.modify x fun ex => { ex with repeated := true } } : World).setStage client
        (.checkout n attempt)) where
  ledger := ⟨h.ledger.served, h.ledger.timed, h.ledger.ordered, h.ledger.called, h.ledger.once⟩
  delivery := by
    refine ⟨fun y ey hy => ?_, fun y ey resp hy hanswer => ?_, fun a ha => ?_,
      fun y ey o hy ho hop hrep => ?_, fun y z m o hy hz ho hop => ?_⟩
    · obtain ⟨a, ha, ⟨-, rfl⟩ | ⟨-, rfl⟩⟩ := getElem?_of_modify hy
      · exact h.delivery.known y a ha
      · exact h.delivery.known y ey ha
    · obtain ⟨a, ha, ⟨-, rfl⟩ | ⟨-, rfl⟩⟩ := getElem?_of_modify hy
      · exact h.delivery.answered y a resp ha hanswer
      · exact h.delivery.answered y ey resp ha hanswer
    · obtain ⟨y, ey, hy, hnum, hanswer⟩ := h.delivery.applied a ha
      by_cases hxy : x = y
      · subst hxy
        exact ⟨x, _, getElem?_modify_self hy, hnum, hanswer⟩
      · exact ⟨y, ey, (getElem?_modify_ne hxy).trans hy, hnum, hanswer⟩
    · obtain ⟨a, ha, ⟨rfl, rfl⟩ | ⟨-, rfl⟩⟩ := getElem?_of_modify hy
      · obtain rfl : a = ex := Option.mem_unique ha hx
        exact hspare o (hn ▸ ho) hop
      · exact h.delivery.spared y ey o ha ho hop hrep
    · rcases getElem?_copies_repeated hy with ⟨-, hf⟩ | ⟨-, hy⟩
      · cases hf
      rcases getElem?_copies_repeated hz with ⟨-, hf⟩ | ⟨-, hz⟩
      · cases hf
      exact h.delivery.single y z m o hy hz ho hop
  booking := by
    refine h.booking.turn hcur rfl rfl rfl rfl (fun _ ha => ha) (UInt64.le_refl _)
      (fun y m b hm => ?_) fun p hp hpn o ho hop => ?_
    · by_cases hxy : x = y
      · subst hxy
        refine iff_of_false (fun hy => ?_) fun hy => ?_
        · obtain ⟨a, ha, hnum, -⟩ := getElem?_copies.mp hy
          obtain ⟨a', ha', ⟨-, rfl⟩ | ⟨hxx, -⟩⟩ := getElem?_of_modify ha
          · obtain rfl : a' = ex := Option.mem_unique ha' hx
            exact hm (hnum.symm.trans hn)
          · exact hxx rfl
        · obtain ⟨a, ha, hnum, -⟩ := getElem?_copies.mp hy
          obtain rfl : a = ex := Option.mem_unique ha hx
          exact hm (hnum.symm.trans hn)
      · unfold World.copies World.setStage
        rw [List.getElem?_map, List.getElem?_map, getElem?_modify_ne hxy]
    · -- every other copy was given up before
      obtain ⟨y, hy⟩ := List.mem_iff_getElem?.mp hp
      rcases @getElem?_copies_repeated w x y p.1 p.2 hy with ⟨-, hrep⟩ | ⟨hxy, hy⟩
      · exact hrep
      · cases hrep : p.2 with
        | true => rfl
        | false =>
          rw [hrep] at hy
          have hcopy : w.copies[x]? = some (p.1, false) :=
            getElem?_copies.mpr ⟨ex, hx, hn.trans hpn.symm, hrepeated⟩
          exact absurd (h.delivery.single x y p.1 o hcopy hy (hpn ▸ ho) hop) hxy

variable {attempt conn : Nat}

/-- `Http::request` goes on after a `round_trip`: with the answer, with an error, or once more. -/
theorem Sound.exchanged (h : Sound w) {pooled close : Bool} {o : Operation}
    {exchange : Option Nat} {how : Exchanged} (hcur : (w.stage client).number = some n) (ho : w.operations[n]? = some o)
    (hanswer : ∀ resp, how = .read (.ok resp) → outcomeOf o.op (.ok resp) ≠ .unknown →
      w.Gave n (outcomeOf o.op (.ok resp)) w.now) (hnone : exchange = none → w.GivenUp n)
    (hsome : ∀ x, exchange = some x → w.copies[x]? = some (n, false) ∧
      ∀ e retrySafe, roundTrip how = .error (e, retrySafe) →
        repeats attempt pooled (path o.op) e retrySafe = true → o.op ≠ .read →
        ∀ ex, w.exchanges[x]? = some ex → ex.received = false) :
    Sound (w.exchanged client n attempt conn pooled o exchange how close) := by
  unfold World.exchanged
  cases hround : roundTrip how with
  | ok resp =>
    have hread : how = .read (.ok resp) := by
      cases how with
      | read result =>
        cases result with
        | ok resp' => exact congrArg (fun r => Exchanged.read (.ok r)) (Except.ok.inj hround)
        | error e => simp [roundTrip] at hround
      | unwritten => simp [roundTrip] at hround
      | closed => simp [roundTrip] at hround
      | late => simp [roundTrip] at hround
    dsimp only
    split
    · exact h.setStage hcur rfl fun hne => hanswer resp hread hne
    · exact h.setStage hcur rfl fun hne => hanswer resp hread hne
  | error failure =>
    obtain ⟨e, retrySafe⟩ := failure
    dsimp only
    split
    · rename_i hrepeats
      cases exchange with
      | none => exact h.setStage hcur rfl (hnone rfl)
      | some x =>
        obtain ⟨hcopy, hspare⟩ := hsome x rfl
        obtain ⟨ex, hx, hnum, hrep⟩ := getElem?_copies.mp hcopy
        refine h.resend hcur hx hnum hrep fun o' ho' hop => ?_
        obtain rfl : o = o' := Option.mem_unique ho ho'
        exact hspare e retrySafe hround hrepeats hop ex hx
    · exact h.setStage hcur rfl fun hne => absurd (by cases o.op <;> rfl) hne

theorem Sound.send (h : Sound w) {pooled : Bool} (hcur : (w.stage client).number = some n) (hgiven : w.GivenUp n) :
    Sound (({ w with exchanges := w.exchanges ++ [⟨n, conn, false, none, false, false⟩] } :
      World).setStage client (.awaiting n attempt conn pooled w.exchanges.length)) := by
  have hcopies : ({ w with exchanges := w.exchanges ++ [⟨n, conn, false, none, false, false⟩] } :
      World).copies = w.copies ++ [(n, false)] := List.map_append
  have hlen : w.copies.length = w.exchanges.length := List.length_map _
  have hlast : ∀ (y m : Nat) (b : Bool), (w.copies ++ [(n, false)])[y]? = some (m, b) →
      w.copies[y]? = some (m, b) ∨ y = w.exchanges.length ∧ m = n ∧ b = false := by
    intro y m b hy
    rw [List.getElem?_append] at hy
    split at hy
    · exact .inl hy
    · obtain ⟨hi, heq⟩ := List.getElem?_eq_some_iff.mp hy
      rw [List.length_singleton] at hi
      obtain ⟨rfl, rfl⟩ : n = m ∧ false = b := by simpa using heq
      exact .inr ⟨by omega, rfl, rfl⟩
  have hold : ∀ (y m : Nat) (b : Bool), w.copies[y]? = some (m, b) →
      (w.copies ++ [(n, false)])[y]? = some (m, b) := by
    intro y m b hy
    rw [List.getElem?_append_left (List.getElem?_eq_some_iff.mp hy).1]
    exact hy
  have hexchange : ∀ (y : Nat) (ey : Exchange),
      (w.exchanges ++ [⟨n, conn, false, none, false, false⟩])[y]? = some ey →
      w.exchanges[y]? = some ey ∨ ey = ⟨n, conn, false, none, false, false⟩ := by
    intro y ey hy
    rcases List.mem_append.mp (List.mem_of_getElem? hy) with hmem | hmem
    · rw [List.getElem?_append] at hy
      split at hy
      · exact .inl hy
      · exact .inr (by simpa using List.mem_of_getElem? hy)
    · exact .inr (List.mem_singleton.mp hmem)
  refine ⟨⟨h.ledger.served, h.ledger.timed, h.ledger.ordered, h.ledger.called, h.ledger.once⟩,
    ⟨fun y ey hy => ?_, fun y ey resp hy hanswer => ?_, fun a ha => ?_,
      fun y ey o hy ho hop hrep => ?_, fun y z m o hy hz ho hop => ?_⟩, ?_⟩
  · rcases hexchange y ey hy with hy | rfl
    · exact h.delivery.known y ey hy
    · obtain ⟨⟨o, ho, -⟩, -⟩ := h.booking.current client n hcur
      exact ⟨o, ho⟩
  · rcases hexchange y ey hy with hy | rfl
    · exact h.delivery.answered y ey resp hy hanswer
    · cases hanswer
  · obtain ⟨y, ey, hy, hrest⟩ := h.delivery.applied a ha
    exact ⟨y, ey, by
      rw [World.setStage, List.getElem?_append_left (List.getElem?_eq_some_iff.mp hy).1]
      exact hy, hrest⟩
  · rcases hexchange y ey hy with hy | rfl
    · exact h.delivery.spared y ey o hy ho hop hrep
    · cases hrep
  · -- all copies but the new one were given up
    have hno : ∀ y : Nat, w.copies[y]? = some (n, false) → m ≠ n := by
      rintro y hy rfl
      cases hgiven _ (List.mem_of_getElem? hy) rfl o ho hop
    rcases hlast y m false (hcopies ▸ hy) with hold' | ⟨rfl, rfl, -⟩
    · rcases hlast z m false (hcopies ▸ hz) with hold'' | ⟨-, rfl, -⟩
      · exact h.delivery.single y z m o hold' hold'' ho hop
      · exact absurd rfl (hno y hold')
    · rcases hlast z m false (hcopies ▸ hz) with hold'' | ⟨rfl, -, -⟩
      · exact absurd rfl (hno z hold'')
      · rfl
  · refine h.booking.turn hcur rfl rfl rfl rfl (fun _ ha => ha) (UInt64.le_refl _)
      (fun y m b hm => ?_) ?_
    · rw [World.copies_setStage, hcopies]
      exact ⟨fun hy => (hlast y m b hy).resolve_right fun hnew => hm hnew.2.1, hold y m b⟩
    · have hnew : (w.copies ++ [(n, false)])[w.exchanges.length]? = some (n, false) := by
        rw [← hlen, List.getElem?_append_right (Nat.le_refl _)]
        simp
      exact (congrArg (fun l : List (Nat × Bool) => l[w.exchanges.length]?) hcopies).trans hnew

/-! ## The store and the network -/

theorem Sound.modify (h : Sound w) {x : Nat} {ex : Exchange} {f : Exchange → Exchange} (hx : w.exchanges[x]? = some ex)
    (hf : ∀ ex, (f ex).number = ex.number ∧ (f ex).repeated = ex.repeated ∧
      (f ex).answer = ex.answer ∧ (ex.received = true → (f ex).received = true))
    (hspare : ∀ o, w.operations[ex.number]? = some o → o.op ≠ .read → ex.repeated = true →
      (f ex).received = false) : Sound { w with exchanges := w.exchanges.modify x f } := by
  have hcopies : ({ w with exchanges := w.exchanges.modify x f } : World).copies = w.copies :=
    copies_modify fun ex => by rw [(hf ex).1, (hf ex).2.1]
  refine ⟨⟨h.ledger.served, h.ledger.timed, h.ledger.ordered, h.ledger.called, h.ledger.once⟩,
    ⟨fun y ey hy => ?_, fun y ey resp hy hanswer => ?_, fun a ha => ?_,
      fun y ey o hy ho hop hrep => ?_, fun y z m o hy hz ho hop => ?_⟩, ?_⟩
  · obtain ⟨a, ha, ⟨-, rfl⟩ | ⟨-, rfl⟩⟩ := getElem?_of_modify hy
    · rw [(hf a).1]
      exact h.delivery.known y a ha
    · exact h.delivery.known y ey ha
  · obtain ⟨a, ha, ⟨-, rfl⟩ | ⟨-, rfl⟩⟩ := getElem?_of_modify hy
    · rw [(hf a).2.2.1] at hanswer
      obtain ⟨hreceived, happlied⟩ := h.delivery.answered y a resp ha hanswer
      rw [(hf a).1]
      exact ⟨(hf a).2.2.2 hreceived, happlied⟩
    · exact h.delivery.answered y ey resp ha hanswer
  · obtain ⟨y, ey, hy, hnum, hanswer⟩ := h.delivery.applied a ha
    by_cases hxy : x = y
    · subst hxy
      refine ⟨x, _, getElem?_modify_self hy, (hf ey).1.trans hnum, ?_⟩
      rw [(hf ey).2.2.1]
      exact hanswer
    · exact ⟨y, ey, (getElem?_modify_ne hxy).trans hy, hnum, hanswer⟩
  · obtain ⟨a, ha, ⟨rfl, rfl⟩ | ⟨-, rfl⟩⟩ := getElem?_of_modify hy
    · obtain rfl : a = ex := Option.mem_unique ha hx
      rw [(hf a).1] at ho
      rw [(hf a).2.1] at hrep
      exact hspare o ho hop hrep
    · exact h.delivery.spared y ey o ha ho hop hrep
  · exact h.delivery.single y z m o (hcopies ▸ hy) (hcopies ▸ hz) ho hop
  · exact h.booking.move rfl rfl (fun _ ha => ha) (UInt64.le_refl _) (fun _ => rfl) fun c =>
      (h.booking.stages c).mono hcopies rfl (fun _ ha => ha) (UInt64.le_refl _)

theorem Sound.serve (h : Sound w) {x : Nat} {ex : Exchange} {o : Operation}
    (hx : w.exchanges[x]? = some ex) (ho : w.operations[ex.number]? = some o)
    (hreceived : ex.received = true) (hanswer : ex.answer = none) : Sound (w.serveExchange x ex o) := by
  have hcopies : (w.serveExchange x ex o).copies = w.copies := copies_modify fun _ => rfl
  have happlied : ∀ a ∈ w.applied, a ∈ (w.serveExchange x ex o).applied :=
    fun a ha => List.mem_append_left _ ha
  have hnow : o.call ≤ w.now := h.ledger.called o (List.mem_of_getElem? ho)
  refine ⟨⟨h.ledger.served.snoc ho rfl, fun a ha => ?_, ?_, h.ledger.called, ?_⟩,
    ⟨fun y ey hy => ?_, fun y ey resp hy hresp => ?_, fun a ha => ?_,
      fun y ey o' hy ho' hop hrep => ?_, fun y z m o hy hz ho hop => ?_⟩, ?_⟩
  · rcases List.mem_append.mp ha with ha | ha
    · exact h.ledger.timed a ha
    · obtain rfl := List.mem_singleton.mp ha
      exact ⟨o, ho, hnow, UInt64.le_refl _⟩
  · refine List.pairwise_append.mpr ⟨h.ledger.ordered, List.pairwise_singleton .., ?_⟩
    intro a ha b hb
    obtain rfl := List.mem_singleton.mp hb
    obtain ⟨-, -, -, htime⟩ := h.ledger.timed a ha
    exact htime
  · refine List.pairwise_append.mpr ⟨h.ledger.once, List.pairwise_singleton .., ?_⟩
    intro a ha b hb hsame o' ho'
    obtain rfl := List.mem_singleton.mp hb
    have hnum : a.number = ex.number := hsame
    by_contra hop
    exact h.delivery.fresh hx (hnum ▸ ho') hop hreceived hanswer a ha hnum
  · obtain ⟨a, ha, ⟨-, rfl⟩ | ⟨-, rfl⟩⟩ := getElem?_of_modify hy
    · exact h.delivery.known y a ha
    · exact h.delivery.known y ey ha
  · obtain ⟨a, ha, ⟨rfl, rfl⟩ | ⟨-, rfl⟩⟩ := getElem?_of_modify hy
    · obtain rfl : a = ex := Option.mem_unique ha hx
      exact ⟨hreceived, _, List.mem_append_right _ List.mem_cons_self, rfl, Option.some.inj hresp⟩
    · obtain ⟨hrec, a, ha, hrest⟩ := h.delivery.answered y ey resp ha hresp
      exact ⟨hrec, a, happlied a ha, hrest⟩
  · rcases List.mem_append.mp ha with ha | ha
    · obtain ⟨y, ey, hy, hnum, hanswered⟩ := h.delivery.applied a ha
      have hxy : x ≠ y := by
        rintro rfl
        obtain rfl : ey = ex := Option.mem_unique hy hx
        rw [hanswer] at hanswered
        cases hanswered
      exact ⟨y, ey, (getElem?_modify_ne hxy).trans hy, hnum, hanswered⟩
    · obtain rfl := List.mem_singleton.mp ha
      exact ⟨x, _, getElem?_modify_self hx, rfl, rfl⟩
  · obtain ⟨a, ha, ⟨-, rfl⟩ | ⟨-, rfl⟩⟩ := getElem?_of_modify hy
    · exact h.delivery.spared y a o' ha ho' hop hrep
    · exact h.delivery.spared y ey o' ha ho' hop hrep
  · exact h.delivery.single y z m o (hcopies ▸ hy) (hcopies ▸ hz) ho hop
  · exact h.booking.move rfl rfl happlied (UInt64.le_refl _) (fun _ => rfl) fun c =>
      (h.booking.stages c).mono hcopies rfl happlied (UInt64.le_refl _)

theorem Sound.tick (h : Sound w) {t : UInt64} (hle : w.now ≤ t) : Sound { w with now := t } where
  ledger := ⟨h.ledger.served, fun a ha => by
    obtain ⟨o, ho, hcall, htime⟩ := h.ledger.timed a ha
    exact ⟨o, ho, hcall, UInt64.le_trans htime hle⟩, h.ledger.ordered,
    fun o ho => UInt64.le_trans (h.ledger.called o ho) hle, h.ledger.once⟩
  delivery := ⟨h.delivery.known, h.delivery.answered, h.delivery.applied, h.delivery.spared,
    h.delivery.single⟩
  booking := h.booking.move rfl rfl (fun _ ha => ha) hle (fun _ => rfl) fun c =>
    (h.booking.stages c).mono rfl rfl (fun _ ha => ha) hle

theorem Served.mono {operations operations' : List Operation} {applied : List Applied}
    {σ : String → State} (h : Served operations applied σ)
    (hops : ∀ (m : Nat) (o : Operation), operations[m]? = some o → operations'[m]? = some o) :
    Served operations' applied σ := by
  induction h with
  | nil => exact .nil
  | snoc _ ho hserve ih => exact ih.snoc (hops _ _ ho) hserve

theorem Sound.call (h : Sound w) {member : Nat} {key : String} {op : Op} (hidle : w.stage client = .idle) :
    Sound (({ w with operations := w.operations ++ [⟨client, member, key, op, w.now⟩] } :
      World).setStage client (.checkout w.operations.length 0)) := by
  have hold : ∀ (m : Nat) (o : Operation), w.operations[m]? = some o →
      (w.operations ++ [⟨client, member, key, op, w.now⟩])[m]? = some o := by
    intro m o ho
    rw [List.getElem?_append_left (List.getElem?_eq_some_iff.mp ho).1]
    exact ho
  -- what is known of an operation that had a number is what was known before
  have hsame : ∀ (m : Nat) (o o' : Operation), w.operations[m]? = some o →
      (w.operations ++ [⟨client, member, key, op, w.now⟩])[m]? = some o' → o' = o :=
    fun m o o' ho ho' => Option.some.inj (ho'.symm.trans (hold m o ho))
  have hlt : ∀ (m : Nat) (o : Operation), w.operations[m]? = some o → m < w.operations.length :=
    fun m o ho => (List.getElem?_eq_some_iff.mp ho).1
  refine ⟨⟨h.ledger.served.mono hold, fun a ha => ?_, h.ledger.ordered, fun o ho => ?_, ?_⟩,
    ⟨fun y ey hy => ?_, h.delivery.answered, h.delivery.applied,
      fun y ey o hy ho hop hrep => ?_, fun y z m o hy hz ho hop => ?_⟩,
    ⟨fun c m hm => ?_, h.booking.nodup, fun m hm => ?_, fun c => ?_, fun p hp => ?_⟩⟩
  · obtain ⟨o, ho, hrest⟩ := h.ledger.timed a ha
    exact ⟨o, hold _ o ho, hrest⟩
  · rcases List.mem_append.mp ho with ho | ho
    · exact h.ledger.called o ho
    · obtain rfl := List.mem_singleton.mp ho
      exact UInt64.le_refl _
  · refine List.Pairwise.imp_of_mem (fun {a b} ha _ hab hnum o ho => ?_) h.ledger.once
    obtain ⟨o', ho', -⟩ := h.ledger.timed a ha
    exact hab hnum o (hsame _ o' o ho' ho ▸ ho')
  · obtain ⟨o, ho⟩ := h.delivery.known y ey hy
    exact ⟨o, hold _ o ho⟩
  · obtain ⟨o', ho'⟩ := h.delivery.known y ey hy
    exact h.delivery.spared y ey o hy (hsame _ o' o ho' ho ▸ ho') hop hrep
  · obtain ⟨ey, hey, hnum, -⟩ := getElem?_copies.mp hy
    obtain ⟨o', ho'⟩ := h.delivery.known y ey hey
    exact h.delivery.single y z m o hy hz (hsame m o' o (hnum ▸ ho') ho ▸ (hnum ▸ ho')) hop
  · by_cases hc : c = client
    · subst hc
      have hm' : w.operations.length = m := by
        have hstage : (Stage.checkout w.operations.length 0).number = some m :=
          (congrArg Stage.number (Function.update_self ..)).symm.trans hm
        exact Option.some.inj hstage
      subst hm'
      refine ⟨⟨_, List.getElem?_concat_length, rfl⟩, fun hmem => ?_⟩
      obtain ⟨p, hp, hpn⟩ := List.mem_map.mp hmem
      obtain ⟨o, _, _, _, ho, -⟩ := h.booking.entries p hp
      exact absurd (hpn ▸ hlt _ o ho) (Nat.lt_irrefl _)
    · have hm' : (w.stage c).number = some m :=
        (congrArg Stage.number (Function.update_of_ne hc ..)).symm.trans hm
      obtain ⟨⟨o, ho, hoc⟩, hnot⟩ := h.booking.current c m hm'
      exact ⟨⟨o, hold m o ho, hoc⟩, hnot⟩
  · rcases Nat.lt_or_ge m w.operations.length with hlt' | hge
    · rcases h.booking.every m hlt' with hrec | ⟨c, hc⟩
      · exact .inl hrec
      · have hcc : c ≠ client := by
          rintro rfl
          rw [hidle] at hc
          simp [Stage.number] at hc
        exact .inr ⟨c, (congrArg Stage.number (Function.update_of_ne hcc ..)).trans hc⟩
    · have hm' : m < w.operations.length + 1 := by simpa [World.setStage] using hm
      obtain rfl : m = w.operations.length := by omega
      exact .inr ⟨client, (congrArg Stage.number (Function.update_self ..)).trans rfl⟩
  · by_cases hc : c = client
    · subst hc
      have hself : (({ w with operations :=
          w.operations ++ [⟨c, member, key, op, w.now⟩] } : World).setStage c
            (.checkout w.operations.length 0)).stage c = .checkout w.operations.length 0 :=
        Function.update_self ..
      rw [hself]
      -- the number is new
      intro p hp hpn
      obtain ⟨y, hy⟩ := List.mem_iff_getElem?.mp hp
      obtain ⟨ey, hey, hnum, -⟩ := getElem?_copies.mp (show w.copies[y]? = some (p.1, p.2) from hy)
      obtain ⟨o, ho⟩ := h.delivery.known y ey hey
      exact absurd (hlt _ o ho) (by rw [hnum, hpn]; exact Nat.lt_irrefl _)
    · have hother : (({ w with operations :=
          w.operations ++ [⟨client, member, key, op, w.now⟩] } : World).setStage client
            (.checkout w.operations.length 0)).stage c = w.stage c := Function.update_of_ne hc ..
      rw [hother]
      refine (h.booking.stages c).grow (fun m hm => ?_) rfl (fun _ ha => ha) hold (UInt64.le_refl _)
      obtain ⟨⟨o, ho, -⟩, -⟩ := h.booking.current c m hm
      exact (hold m o ho).trans ho.symm
  · exact (h.booking.entries p hp).mono (fun _ ha => ha) hold (UInt64.le_refl _)

theorem Sound.record (h : Sound w) {outcome : Outcome} {o : Operation}
    (hreturned : w.stage client = .returned n outcome) (ho : w.operations[n]? = some o) :
    Sound (({ w with recorded := w.recorded ++ [(n, w.entryOf client o outcome)] } :
      World).setStage client .idle) := by
  have hcur : (w.stage client).number = some n := by
    rw [hreturned]
    rfl
  obtain ⟨⟨o', ho', hclient⟩, hnot⟩ := h.booking.current client n hcur
  obtain rfl : o = o' := Option.mem_unique ho ho'
  have hstage : ∀ c, c ≠ client → (({ w with recorded :=
      w.recorded ++ [(n, w.entryOf client o outcome)] } : World).setStage client .idle).stage c =
      w.stage c := fun c hc => Function.update_of_ne hc ..
  have hself : (({ w with recorded :=
      w.recorded ++ [(n, w.entryOf client o outcome)] } : World).setStage client .idle).stage client =
      .idle := Function.update_self ..
  refine ⟨⟨h.ledger.served, h.ledger.timed, h.ledger.ordered, h.ledger.called, h.ledger.once⟩,
    ⟨h.delivery.known, h.delivery.answered, h.delivery.applied, h.delivery.spared,
      h.delivery.single⟩,
    ⟨fun c m hm => ?_, ?_, fun m hm => ?_, fun c => ?_, fun p hp => ?_⟩⟩
  · by_cases hc : c = client
    · rw [hc, hself] at hm
      simp [Stage.number] at hm
    · rw [hstage c hc] at hm
      obtain ⟨hop, hnot'⟩ := h.booking.current c m hm
      refine ⟨hop, fun hmem => ?_⟩
      obtain ⟨p, hp, rfl⟩ := List.mem_map.mp hmem
      rcases List.mem_append.mp hp with hp | hp
      · exact hnot' (List.mem_map_of_mem hp)
      · obtain rfl := List.mem_singleton.mp hp
        exact h.booking.disjoint hc hcur hm
  · rw [World.setStage, List.map_append]
    refine List.nodup_append.mpr ⟨h.booking.nodup, List.nodup_singleton _, fun a ha b hb hab => ?_⟩
    obtain rfl : b = n := List.mem_singleton.mp hb
    exact hnot (hab ▸ ha)
  · rw [World.setStage, List.map_append]
    rcases h.booking.every m hm with hrec | ⟨c, hc⟩
    · exact .inl (List.mem_append_left _ hrec)
    · by_cases hcc : c = client
      · obtain rfl : n = m := Option.some.inj (hcur.symm.trans (hcc ▸ hc))
        exact .inl (List.mem_append_right _ List.mem_cons_self)
      · exact .inr ⟨c, (congrArg Stage.number (Function.update_of_ne hcc ..)).trans hc⟩
  · by_cases hc : c = client
    · rw [hc, hself]
      trivial
    · rw [hstage c hc]
      exact (h.booking.stages c).mono rfl rfl (fun _ ha => ha) (UInt64.le_refl _)
  · rcases List.mem_append.mp hp with hp | hp
    · exact h.booking.entries p hp
    · obtain rfl := List.mem_singleton.mp hp
      have hok := h.booking.stages client
      rw [hreturned] at hok
      subst hclient
      exact ⟨o, outcome, w.now, _, ho, rfl, UInt64.le_refl _, hok⟩

/-- The deadline of `round_trip` is never followed by another attempt. -/
theorem Sound.late (h : Sound w) {pooled close : Bool} {o : Operation}
    {exchange : Option Nat} (hcur : (w.stage client).number = some n) :
    Sound (w.exchanged client n attempt conn pooled o exchange .late close) := by
  unfold World.exchanged roundTrip
  dsimp only
  rw [if_neg (by simp [repeats])]
  exact h.setStage hcur rfl fun hne => absurd (by cases o.op <;> rfl) hne

theorem Sound.reset (h : Sound w) {lost : List Bool} : Sound { w with lost := lost } where
  ledger := ⟨h.ledger.served, h.ledger.timed, h.ledger.ordered, h.ledger.called, h.ledger.once⟩
  delivery := ⟨h.delivery.known, h.delivery.answered, h.delivery.applied, h.delivery.spared,
    h.delivery.single⟩
  booking := h.booking.move rfl rfl (fun _ ha => ha) (UInt64.le_refl _) (fun _ => rfl) fun c =>
    (h.booking.stages c).mono rfl rfl (fun _ ha => ha) (UInt64.le_refl _)

/-- `checkout` finds a connection, or the operation ends without an answer. -/
theorem Sound.checkout (h : Sound w) {attempt : Nat} {o : Operation} {connects : Bool}
    (hstage : w.stage client = .checkout n attempt) : Sound (w.checkout client n attempt o connects) := by
  have hcur : (w.stage client).number = some n := congrArg Stage.number hstage
  have hgiven : w.GivenUp n := h.booking.stageOk hstage
  unfold World.checkout
  split
  · exact h.setStage hcur rfl hgiven
  · dsimp only
    split
    · exact h.setStage hcur rfl hgiven
    · exact h.setStage hcur rfl fun hne => absurd (by cases o.op <;> rfl) hne

/-! ## A step, and a run -/

theorem sound_next {event : Event} (h : Sound w) (hg : Harmless w event) (hs : next w event = some w') : Sound w' := by
  cases event with
  | tick t =>
    obtain ⟨hle, rfl⟩ : w.now ≤ t ∧ { w with now := t } = w' := by simpa [next] using hs
    exact h.tick hle
  | call client member key op =>
    unfold next at hs
    dsimp only at hs
    split at hs
    · rename_i hidle
      cases hs
      exact h.call hidle
    · cases hs
  | checkout client connects =>
    unfold next at hs
    dsimp only at hs
    split at hs
    · rename_i n attempt hstage
      obtain ⟨o, ho, hs⟩ := Option.bind_eq_some_iff.mp hs
      cases hs
      exact h.checkout hstage
    · cases hs
  | write client delivered =>
    unfold next at hs
    dsimp only at hs
    split at hs
    · rename_i n attempt conn pooled hstage
      have hcur : (w.stage client).number = some n := congrArg Stage.number hstage
      have hgiven : w.GivenUp n := h.booking.stageOk hstage
      obtain ⟨o, ho, hs⟩ := Option.bind_eq_some_iff.mp hs
      split at hs
      · cases hs
        exact h.send hcur hgiven
      · cases hs
        exact h.exchanged hcur ho (nofun) (fun _ => hgiven)
          nofun
    · cases hs
  | receive x =>
    obtain ⟨ex, hx, hs⟩ := Option.bind_eq_some_iff.mp hs
    split at hs
    · cases hs
    · cases hs
      exact h.modify hx (fun _ => ⟨rfl, rfl, rfl, fun _ => rfl⟩)
        fun o ho hop hrep => absurd (hg ex hx o ho hrep) hop
  | apply x =>
    obtain ⟨ex, hx, hs⟩ := Option.bind_eq_some_iff.mp hs
    obtain ⟨o, ho, hs⟩ := Option.bind_eq_some_iff.mp hs
    split at hs
    · rename_i hready
      obtain ⟨hreceived, hanswer⟩ : ex.received = true ∧ ex.answer = none := by simpa using hready
      cases hs
      exact h.serve hx ho hreceived hanswer
    · cases hs
  | reply x =>
    obtain ⟨ex, hx, hs⟩ := Option.bind_eq_some_iff.mp hs
    split at hs
    · cases hs
      exact h.modify hx (fun _ => ⟨rfl, rfl, rfl, id⟩)
        fun o ho hop hrep => h.delivery.spared x ex o hx ho hop hrep
    · cases hs
  | lose conn =>
    unfold next at hs
    dsimp only at hs
    split at hs
    · cases hs
      exact h.reset
    · cases hs
  | await client =>
    unfold next at hs
    dsimp only at hs
    split at hs
    · rename_i n attempt conn pooled x hstage
      have hcur : (w.stage client).number = some n := congrArg Stage.number hstage
      have hcopy : w.copies[x]? = some (n, false) := h.booking.stageOk hstage
      obtain ⟨ex, hx, hs⟩ := Option.bind_eq_some_iff.mp hs
      obtain ⟨o, ho, hs⟩ := Option.bind_eq_some_iff.mp hs
      split at hs
      · cases hs
        exact h.setStage hcur rfl hcopy
      · rename_i hbegun
        split at hs
        · cases hs
          refine h.exchanged hcur ho (fun _ hhow => absurd hhow (by simp)) (fun hx => absurd hx (by simp))
            fun x' hx' => ?_
          cases hx'
          refine ⟨hcopy, fun e retrySafe hround hrepeats hop ex' hex' => ?_⟩
          obtain ⟨rfl, rfl⟩ : HttpError.io = e ∧ true = retrySafe := by simpa [roundTrip] using hround
          obtain rfl : ex = ex' := Option.mem_unique hx hex'
          by_contra hreceived
          have hunreceived : w.Unreceived (.awaiting n attempt conn pooled x) := hstage ▸ hg
          exact hop (hunreceived ex hx o ho (by simpa using hbegun) hrepeats
            (by simpa using hreceived))
        · cases hs
    · cases hs
  | read client arrived =>
    unfold next at hs
    dsimp only at hs
    split at hs
    · rename_i n attempt conn pooled x hstage
      have hcur : (w.stage client).number = some n := congrArg Stage.number hstage
      have hcopy : w.copies[x]? = some (n, false) := h.booking.stageOk hstage
      obtain ⟨ex, hx, hs⟩ := Option.bind_eq_some_iff.mp hs
      obtain ⟨o, ho, hs⟩ := Option.bind_eq_some_iff.mp hs
      cases arrived with
      | whole close =>
        obtain ⟨resp, hresp, hs⟩ := Option.bind_eq_some_iff.mp hs
        cases hs
        refine h.exchanged hcur ho (fun resp' hhow _ => ?_) (fun hx => absurd hx (by simp))
          fun x' hx' => ?_
        · obtain rfl : resp = resp' := by simpa using hhow
          obtain ⟨-, a, ha, hnum, rfl⟩ := h.delivery.answered x ex resp hx hresp
          obtain ⟨ex', hex', hn, -⟩ := getElem?_copies.mp hcopy
          obtain rfl : ex = ex' := Option.mem_unique hx hex'
          obtain ⟨-, -, -, htime⟩ := h.ledger.timed a ha
          exact ⟨a, ha, o, hnum.trans hn, ho, rfl, htime⟩
        · cases hx'
          exact ⟨hcopy, fun e retrySafe hround => absurd hround (by simp [roundTrip])⟩
      | cut e =>
        dsimp only at hs
        split at hs
        · cases hs
          refine h.exchanged hcur ho (fun _ hhow => absurd hhow (by simp)) (fun hx => absurd hx (by simp))
            fun x' hx' => ?_
          cases hx'
          refine ⟨hcopy, fun e' retrySafe hround hrepeats hop => ?_⟩
          obtain ⟨-, rfl⟩ : e = e' ∧ false = retrySafe := by simpa [roundTrip] using hround
          exact absurd (safe_of_repeats hrepeats hop) (by simp)
        · cases hs
      | truncated close =>
        dsimp only at hs
        split at hs
        · cases hs
          refine h.exchanged hcur ho (fun resp hhow hne => ?_) (fun hx => absurd hx (by simp))
            fun x' hx' => ?_
          · obtain rfl : Response.undecodable = resp := by simpa using hhow
            exact absurd (by cases o.op <;> rfl) hne
          · cases hx'
            exact ⟨hcopy, fun e retrySafe hround => absurd hround (by simp [roundTrip])⟩
        · cases hs
    · cases hs
  | late client =>
    unfold next at hs
    dsimp only at hs
    split at hs
    · rename_i n attempt conn pooled hstage
      obtain ⟨o, ho, hs⟩ := Option.bind_eq_some_iff.mp hs
      cases hs
      exact h.late (congrArg Stage.number hstage)
    · rename_i n attempt conn pooled x hstage
      obtain ⟨o, ho, hs⟩ := Option.bind_eq_some_iff.mp hs
      cases hs
      exact h.late (congrArg Stage.number hstage)
    · rename_i n attempt conn pooled x hstage
      obtain ⟨o, ho, hs⟩ := Option.bind_eq_some_iff.mp hs
      cases hs
      exact h.late (congrArg Stage.number hstage)
    · cases hs
  | timeout client =>
    unfold next at hs
    dsimp only at hs
    split at hs
    · cases hs
    · cases hs
    · obtain ⟨n, hn, hs⟩ := Option.bind_eq_some_iff.mp hs
      cases hs
      exact h.setStage hn rfl fun hne => absurd rfl hne
  | record client =>
    unfold next at hs
    dsimp only at hs
    split at hs
    · rename_i n outcome hstage
      obtain ⟨o, ho, hs⟩ := Option.bind_eq_some_iff.mp hs
      cases hs
      exact h.record hstage ho
    · cases hs

theorem sound_of_run {es : List (Lib.Event World Event Unit)} (h : Run step World.start es w)
    (hharmless : ∀ e ∈ es, Harmless e.before e.input) : Sound w := by
  refine h.invariant sound_start (fun w event w' o hP hG hs => ?_) hharmless
  obtain ⟨w'', hnext, heq⟩ := Option.map_eq_some_iff.mp hs
  cases heq
  exact sound_next hP hG hnext

end BuildYourOwn.Workload
