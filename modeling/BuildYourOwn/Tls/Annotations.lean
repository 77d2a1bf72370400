import BuildYourOwn.Tls.Annotate
import BuildYourOwn.Tls.Codecs

/-!
# What the annotations of a byte string say
-/

namespace BuildYourOwn.Tls

open Lib Lib.Action

/-! ## Cutting the input -/

/-- The first `n` bytes, and the rest. -/
def cut (n : Nat) (b : Bytes) : Option (Bytes × Bytes) :=
  if n ≤ b.length then some (b.take n, b.drop n) else none

/-- A vector behind its length of `w` bytes, and the rest. -/
def cutVec (w : Nat) (b : Bytes) : Option (Bytes × Bytes) := do
  let (n, b) ← cut w b
  cut (ofBigEndian n) b

theorem cut_eq_some {n : Nat} {b v r : Bytes} : cut n b = some (v, r) ↔ v.length = n ∧ b = v ++ r := by
  unfold cut
  constructor
  · intro h
    split at h
    · rename_i hle
      cases h
      exact ⟨List.length_take_of_le hle, (List.take_append_drop n b).symm⟩
    · exact nomatch h
  · rintro ⟨rfl, rfl⟩
    rw [if_pos (by rw [List.length_append]; omega), List.take_left, List.drop_left]

theorem cutVec_eq_some {w : Nat} {b v r : Bytes} :
    cutVec w b = some (v, r) ↔ ∃ n : Bytes, n.length = w ∧ ofBigEndian n = v.length ∧ b = n ++ (v ++ r) := by
  unfold cutVec
  rw [Option.bind_eq_bind, Option.bind_eq_some_iff]
  constructor
  · rintro ⟨⟨n, c⟩, hn, hv⟩
    obtain ⟨hw, rfl⟩ := cut_eq_some.mp hn
    obtain ⟨hlen, rfl⟩ := cut_eq_some.mp hv
    exact ⟨n, hw, hlen.symm, rfl⟩
  · rintro ⟨n, rfl, hlen, rfl⟩
    exact ⟨(n, v ++ r), cut_eq_some.mpr ⟨rfl, rfl⟩, cut_eq_some.mpr ⟨hlen.symm, rfl⟩⟩

section
variable (path field : String) (left : Bytes)

theorem taking_take (n : Nat) : (taking (Read.take path n field) left).toOption = cut n left := by
  unfold taking Read.take cut
  simp only [bind, Reader.here, Reader.take, Nat.sub_zero, List.drop_zero, Nat.zero_add]
  split
  · rename_i h
    rw [if_neg (by omega)]
    rfl
  · rename_i h
    rw [if_pos (by omega)]
    rfl

theorem taking_map {α β : Type} (x : Read α) (f : α → β) :
    (taking (x >>= fun a => pure (f a)) left).toOption = (taking x left).toOption.map fun r => (f r.1, r.2) := by
  unfold taking
  simp only [bind, pure]
  cases x ⟨left, 0⟩ <;> rfl

theorem taking_number (w : Nat) :
    (taking (Read.number path w field) left).toOption = (cut w left).map fun r => (ofBigEndian r.1, r.2) := by
  rw [← taking_take path field]
  exact taking_map left _ _

theorem taking_u8 :
    (taking (Read.u8 path field) left).toOption = (cut 1 left).map fun r => (UInt8.ofNat (ofBigEndian r.1), r.2) := by
  unfold Read.u8
  rw [taking_map, taking_number, Option.map_map]
  rfl

theorem taking_u16 :
    (taking (Read.u16 path field) left).toOption = (cut 2 left).map fun r => (UInt16.ofNat (ofBigEndian r.1), r.2) := by
  unfold Read.u16
  rw [taking_map, taking_number, Option.map_map]
  rfl

theorem taking_u32 :
    (taking (Read.u32 path field) left).toOption = (cut 4 left).map fun r => (UInt32.ofNat (ofBigEndian r.1), r.2) := by
  unfold Read.u32
  rw [taking_map, taking_number, Option.map_map]
  rfl

theorem taking_vec (w : Nat) : (taking (Read.vec w path field) left).toOption = cutVec w left := by
  unfold taking Read.vec Read.number Read.take cutVec cut
  simp only [bind, pure, Reader.here, Reader.take, Nat.sub_zero, List.drop_zero, Nat.zero_add]
  by_cases hw : w ≤ left.length
  · rw [if_neg (by omega), if_pos hw]
    simp only [Option.bind]
    by_cases hv : ofBigEndian (left.take w) ≤ (left.drop w).length
    · rw [if_pos hv]
      rw [List.length_drop] at hv
      rw [if_neg (by omega)]
      simp only [Except.map, Except.toOption, List.drop_drop]
    · rw [if_neg hv]
      rw [List.length_drop] at hv
      rw [if_pos (by omega)]
      rfl
  · rw [if_pos (by omega), if_neg hw]
    rfl

end

theorem ofBigEndian_singleton (x : UInt8) : ofBigEndian [x] = x.toNat := by
  have hconcat := ofBigEndian_concat [] x
  rw [List.nil_append] at hconcat
  rw [hconcat, show ofBigEndian ([] : Bytes) = 0 from rfl, Nat.zero_mul, Nat.zero_add]

theorem ofBigEndian_u32Bytes (v : UInt32) : ofBigEndian (u32Bytes v) = v.toNat := by
  rw [u32Bytes, ofBigEndian_bigEndian]
  exact Nat.mod_eq_of_lt v.toNat_lt

/-! ## What a read took -/

section
variable {path field : String} {left r : Bytes}

theorem take_took {n : Nat} {v : Bytes} (h : (taking (Read.take path n field) left).toOption = some (v, r)) :
    v.length = n ∧ left = v ++ r := by
  rw [taking_take] at h
  exact cut_eq_some.mp h

theorem vec_took {w : Nat} {v : Bytes} (h : (taking (Read.vec w path field) left).toOption = some (v, r)) :
    ∃ n : Bytes, n.length = w ∧ ofBigEndian n = v.length ∧ left = n ++ (v ++ r) := by
  rw [taking_vec] at h
  exact cutVec_eq_some.mp h

theorem u8_took {v : UInt8} (h : (taking (Read.u8 path field) left).toOption = some (v, r)) : left = [v] ++ r := by
  rw [taking_u8] at h
  obtain ⟨⟨b, c⟩, hcut, hv⟩ := Option.map_eq_some_iff.mp h
  obtain ⟨hlen, rfl⟩ := cut_eq_some.mp hcut
  cases hv
  obtain ⟨x, rfl⟩ := List.length_eq_one_iff.mp hlen
  rw [ofBigEndian_singleton, UInt8.ofNat_toNat]

theorem bigEndian_of_length {w : Nat} {b : Bytes} (h : b.length = w) : bigEndian w (ofBigEndian b) = b :=
  h ▸ bigEndian_ofBigEndian b

theorem u16_of_bytes {b : Bytes} (h : b.length = 2) : u16Bytes (UInt16.ofNat (ofBigEndian b)) = b := by
  have hlt := ofBigEndian_lt b
  rw [h] at hlt
  rw [u16Bytes, UInt16.toNat_ofNat_of_lt' hlt]
  exact bigEndian_of_length h

theorem u16_took {v : UInt16} (h : (taking (Read.u16 path field) left).toOption = some (v, r)) :
    left = u16Bytes v ++ r := by
  rw [taking_u16] at h
  obtain ⟨⟨b, c⟩, hcut, hv⟩ := Option.map_eq_some_iff.mp h
  obtain ⟨hlen, rfl⟩ := cut_eq_some.mp hcut
  cases hv
  rw [u16_of_bytes hlen]

theorem u32_took {v : UInt32} (h : (taking (Read.u32 path field) left).toOption = some (v, r)) :
    left = u32Bytes v ++ r := by
  rw [taking_u32] at h
  obtain ⟨⟨b, c⟩, hcut, hv⟩ := Option.map_eq_some_iff.mp h
  obtain ⟨hlen, rfl⟩ := cut_eq_some.mp hcut
  cases hv
  have hlt := ofBigEndian_lt b
  rw [hlen] at hlt
  rw [u32Bytes, UInt32.toNat_ofNat_of_lt' hlt, bigEndian_of_length hlen]

end

/-! ## Truth -/

def Shown.IsOf : Shown → Bytes → Prop
  | name _ v _, b => b = u16Bytes v
  | byteName _ v, b => b = [v]
  | number v _, b => ofBigEndian b = v
  | hexNumber _ v _, b => ofBigEndian b = v
  | hex v _, b => b = v
  | hexPrefix _ v _, b => b = v
  | text v, b => fromUtf8Lossy b = fromUtf8Lossy v
  | constant v _, b => b = v
  | count n _, b => b.length = n
  | remark _, _ => True

def FieldAnn.Truthful (a : FieldAnn) (bytes : Bytes) : Prop := a.value.IsOf ((bytes.drop a.offset).take a.length)

/-- From `start` on, each annotation begins where the one before has ended, or behind, and ends by `stop`. -/
def Climbs : Nat → List FieldAnn → Nat → Prop
  | start, [], stop => start ≤ stop
  | start, a :: as, stop => start ≤ a.offset ∧ Climbs (a.offset + a.length) as stop

variable {as : List FieldAnn}

theorem Climbs.le {start stop : Nat} (h : Climbs start as stop) : start ≤ stop := by
  induction as generalizing start with
  | nil => exact h
  | cons a as ih =>
    have := ih h.2
    have := h.1
    omega

theorem Climbs.append {start mid stop : Nat} {as bs : List FieldAnn} (h : Climbs start as mid)
    (h' : Climbs mid bs stop) : Climbs start (as ++ bs) stop := by
  induction as generalizing start with
  | nil =>
    cases bs with
    | nil => exact Nat.le_trans h h'
    | cons b bs => exact ⟨Nat.le_trans h h'.1, h'.2⟩
  | cons a as ih => exact ⟨h.1, ih h.2⟩

theorem Climbs.mono {start start' stop stop' : Nat} (h : Climbs start as stop)
    (hstart : start' ≤ start) (hstop : stop ≤ stop') : Climbs start' as stop' := by
  have hleft : Climbs start' [] start := hstart
  have hright : Climbs stop [] stop' := hstop
  have happend := (hleft.append h).append hright
  rwa [List.nil_append, List.append_nil] at happend

theorem Climbs.ordered {start stop : Nat} (h : Climbs start as stop) :
    (∀ a ∈ as, start ≤ a.offset ∧ a.offset + a.length ≤ stop) ∧
      as.Pairwise fun a b => a.offset + a.length ≤ b.offset := by
  induction as generalizing start with
  | nil => exact ⟨List.forall_mem_nil _, .nil⟩
  | cons a as ih =>
    obtain ⟨hin, hpairs⟩ := ih h.2
    have hfirst := h.1
    refine ⟨fun b hb => ?_, List.pairwise_cons.mpr ⟨fun b hb => (hin b hb).1, hpairs⟩⟩
    rcases List.mem_cons.mp hb with rfl | hb
    · exact ⟨h.1, h.2.le⟩
    · obtain ⟨hstart, hstop⟩ := hin b hb
      exact ⟨by omega, hstop⟩

/-- What has been written behind the annotations `a`, between two offsets. Where `exact` holds it is truthful just
when `c` is. -/
def Recorded (bytes : Bytes) (exact c : Prop) (start stop : Nat) (a b : List FieldAnn) : Prop :=
  ∃ new, b = a ++ new ∧ Climbs start new stop ∧ (exact → ((∀ x ∈ new, x.Truthful bytes) ↔ c))

section
variable {bytes : Bytes} {exact c d : Prop} {start mid stop : Nat} {a b e : List FieldAnn}

theorem Recorded.none (hle : start ≤ stop) : Recorded bytes exact True start stop a a :=
  ⟨[], (List.append_nil a).symm, hle, fun _ => iff_of_true (List.forall_mem_nil _) trivial⟩

theorem Recorded.trans (h : Recorded bytes exact c start mid a b) (h' : Recorded bytes exact d mid stop b e) :
    Recorded bytes exact (c ∧ d) start stop a e := by
  obtain ⟨new, rfl, hclimbs, htruth⟩ := h
  obtain ⟨new', rfl, hclimbs', htruth'⟩ := h'
  refine ⟨new ++ new', List.append_assoc .., hclimbs.append hclimbs', fun hexact => ?_⟩
  rw [List.forall_mem_append, htruth hexact, htruth' hexact]

theorem Recorded.mono {stop' : Nat} (h : Recorded bytes exact c start stop a b) (hle : stop ≤ stop') :
    Recorded bytes exact c start stop' a b := by
  obtain ⟨new, rfl, hclimbs, htruth⟩ := h
  exact ⟨new, rfl, hclimbs.mono le_rfl hle, htruth⟩

theorem Recorded.iff (h : Recorded bytes exact c start stop a b) (hcd : exact → (c ↔ d)) :
    Recorded bytes exact d start stop a b := by
  obtain ⟨new, rfl, hclimbs, htruth⟩ := h
  exact ⟨new, rfl, hclimbs, fun hexact => (htruth hexact).trans (hcd hexact)⟩

theorem Recorded.some_truth {exact' : Prop} (h : Recorded bytes exact c start stop a b) :
    ∃ d, Recorded bytes exact' d start stop a b := by
  obtain ⟨new, rfl, hclimbs, -⟩ := h
  exact ⟨_, new, rfl, hclimbs, fun _ => Iff.rfl⟩

end

/-- A walk from `w` that has come to `w'`, with a reader that was at `base` and is at `pos`: it has annotated no more
than was read, and where it began with the reader it has kept up. -/
structure Going (bytes : Bytes) (base : Nat) (c : Prop) (w w' : Walk) (pos : Nat) : Prop where
  wrote : Recorded bytes (w.pos = base) c w.pos w'.pos w.fields w'.fields
  le : w'.pos + base ≤ w.pos + pos
  keeps : w.pos = base → w'.pos = pos

section
variable {bytes before rest : Bytes} {exact c d : Prop} {w w' : Walk} {base pos : Nat}

theorem Going.start (bytes : Bytes) (w : Walk) (pos : Nat) : Going bytes pos True w w pos := ⟨.none le_rfl, le_rfl, id⟩

theorem Going.iff (h : Going bytes base c w w' pos) (hcd : w.pos = base → (c ↔ d)) : Going bytes base d w w' pos :=
  ⟨h.wrote.iff hcd, h.le, h.keeps⟩

theorem slice_between (before v rest : Bytes) : ((before ++ (v ++ rest)).drop before.length).take v.length = v := by
  rw [List.drop_left, List.take_left]

variable {field : String} {value : Shown} {varies : Bool}

theorem Recorded.push (h : Recorded bytes exact c w.pos w'.pos w.fields w'.fields) {n : Nat} (hd : exact → (value.IsOf ((bytes.drop w'.pos).take n) ↔ d)) :
    Recorded bytes exact (c ∧ d) w.pos (w'.push n field value varies).pos w.fields
      (w'.push n field value varies).fields := by
  refine h.trans ⟨[⟨w'.pos, n, field, value, varies⟩], rfl, ⟨le_rfl, le_rfl⟩, fun hexact => ?_⟩
  rw [List.forall_mem_singleton]
  exact hd hexact

/-- **One annotation**, of what the reader has just read. -/
theorem Going.add {v : Bytes} {n : Nat}
    (h : Going bytes base c w w' before.length) (hb : bytes = before ++ (v ++ rest)) (hn : v.length = n)
    (hd : value.IsOf v ↔ d) : Going bytes base (c ∧ d) w (w'.push n field value varies) (before ++ v).length := by
  subst hn
  have hle := h.le
  rw [List.length_append]
  refine ⟨h.wrote.push fun hexact => ?_, ?_, fun hexact => ?_⟩
  · rw [h.keeps hexact, hb, slice_between]
    exact hd
  · unfold Walk.push
    dsimp only
    omega
  · exact congrArg (· + v.length) (h.keeps hexact)

theorem Going.say {v : Bytes} {n : Nat}
    (h : Going bytes base c w w' before.length) (hb : bytes = before ++ (v ++ rest)) (hn : v.length = n)
    (hd : value.IsOf v) : Going bytes base c w (w'.push n field value varies) (before ++ v).length :=
  (h.add hb hn (iff_true_intro hd)).iff fun _ => by rw [and_true]

theorem Going.skip {v : Bytes} {n : Nat} (h : Going bytes base c w w' before.length) (hn : v.length = n) :
    Going bytes base c w { w' with pos := w'.pos + n } (before ++ v).length := by
  subst hn
  have hle := h.le
  rw [List.length_append]
  exact ⟨h.wrote.mono (Nat.le_add_right _ _), by dsimp only; omega,
    fun hexact => congrArg (· + v.length) (h.keeps hexact)⟩

end

/-! ## The rules of a walk -/

section
variable {α β : Type} {w : Walk} {Q : Except TlsError β → Walk → Prop}

theorem ends_read {x : Read α} {left : Bytes} {k : α × Bytes → Into β}
    (hnone : ∀ e, (taking x left).toOption = none → Q (.error e) w)
    (hsome : ∀ a r, (taking x left).toOption = some (a, r) → Ends False Q (k (a, r) w)) :
    Ends False Q ((Into.read x left >>= k) w) := by
  rw [ends_bind]
  unfold Into.read
  rw [ends_lift]
  cases h : taking x left with
  | error e => exact hnone e (by rw [h]; rfl)
  | ok p => exact hsome p.1 p.2 (by rw [h]; rfl)

variable {field : String} {value : Shown} {k : Unit → Into β}

theorem ends_add {n : Nat} :
    Ends False Q ((Into.add n field value >>= k) w) ↔ Ends False Q (k () (w.push n field value false)) := Iff.rfl

/-- **An annotation of what was read**, and what comes behind it. -/
theorem ends_say {bytes before v rest : Bytes} {base n : Nat} {c : Prop} {w₀ : Walk}
    {varies : Bool} (h : Going bytes base c w₀ w before.length)
    (hb : bytes = before ++ (v ++ rest)) (hn : v.length = n) (hv : value.IsOf v)
    (hk : ∀ t, Going bytes base c w₀ t (before ++ v).length → bytes = (before ++ v) ++ rest → Ends False Q (k () t)) :
    Ends False Q (((Action.modify fun w => w.push n field value varies : Into Unit) >>= k) w) :=
  hk _ (h.say hb hn hv) (by rw [hb, List.append_assoc])

theorem ends_show {bytes before v rest : Bytes} {base n : Nat} {c d : Prop} {w₀ : Walk}
    {varies : Bool} (h : Going bytes base c w₀ w before.length)
    (hb : bytes = before ++ (v ++ rest)) (hn : v.length = n) (hv : value.IsOf v ↔ d)
    (hk : ∀ t, Going bytes base (c ∧ d) w₀ t (before ++ v).length → bytes = (before ++ v) ++ rest →
      Ends False Q (k () t)) :
    Ends False Q (((Action.modify fun w => w.push n field value varies : Into Unit) >>= k) w) :=
  hk _ (h.add hb hn hv) (by rw [hb, List.append_assoc])

theorem ends_skip {n : Nat} :
    Ends False Q ((Into.skip n >>= k) w) ↔ Ends False Q (k () { w with pos := w.pos + n }) := Iff.rfl

theorem ends_setPos {n : Nat} :
    Ends False Q ((Into.setPos n >>= k) w) ↔ Ends False Q (k () { w with pos := n }) := Iff.rfl

variable {data : Bytes}

theorem ends_slice {start stop : Nat} (h : start ≤ stop ∧ stop ≤ data.length) {k : Bytes → Into β} :
    Ends False Q ((Into.slice data start stop >>= k) w) ↔
      Ends False Q (k ((data.drop start).take (stop - start)) w) := by
  rw [ends_bind, Into.slice, if_pos h]
  exact Iff.rfl

theorem ends_tail {n : Nat} (h : n ≤ data.length) {k : Bytes → Into β} :
    Ends False Q ((Into.tail data n >>= k) w) ↔ Ends False Q (k (data.drop n) w) := by
  rw [ends_bind, Into.tail, if_pos h]
  exact Iff.rfl

theorem ends_index {i : Nat} (h : i < data.length) {k : UInt8 → Into β} :
    Ends False Q ((Into.index data i >>= k) w) ↔ Ends False Q (k data[i] w) := by
  rw [ends_bind, Into.index, List.getElem?_eq_getElem h]
  exact Iff.rfl

theorem ends_u16At {i : Nat} (h : i + 1 < data.length) {k : UInt16 → Into β} :
    Ends False Q ((Into.u16At data i >>= k) w) ↔
      Ends False Q (k (UInt16.ofNat (ofBigEndian ((data.drop i).take 2))) w) := by
  have hcut : (data.drop i).take 2 = [data[i], data[i + 1]] := by
    rw [List.drop_eq_getElem_cons (by omega), List.drop_eq_getElem_cons h, List.take_succ_cons, List.take_succ_cons,
      List.take_zero]
  rw [hcut, ends_bind]
  unfold Into.u16At
  rw [ends_bind]
  unfold Into.index
  rw [List.getElem?_eq_getElem h, List.getElem?_eq_getElem (show i < data.length by omega)]
  exact Iff.rfl

end

/-! ## Walks over items -/

inductive Among {α : Type} (first : Bytes → Option (α × Bytes)) : Bytes → α → Prop
  | here {left rest : Bytes} {a : α} (h : first left = some (a, rest)) : Among first left a
  | later {left rest : Bytes} {a b : α} (h : first left = some (a, rest)) (hb : Among first rest b) : Among first left b

section
variable {α : Type} {first : Bytes → Option (α × Bytes)} {left rest : Bytes} {a : α} {p : α → Prop}

theorem forall_among_of_none (h : first left = none) : ∀ a, Among first left a → p a := by
  intro a ha
  cases ha with
  | here h' => exact nomatch h.symm.trans h'
  | later h' => exact nomatch h.symm.trans h'

theorem forall_among_of_some (h : first left = some (a, rest)) :
    (∀ b, Among first left b → p b) ↔ p a ∧ ∀ b, Among first rest b → p b := by
  refine ⟨fun hp => ⟨hp a (.here h), fun b hb => hp b (.later h hb)⟩, fun ⟨ha, hrest⟩ b hb => ?_⟩
  cases hb with
  | here h' =>
    cases h.symm.trans h'
    exact ha
  | later h' hb =>
    cases h.symm.trans h'
    exact hrest b hb

end

section
variable {ι α : Type} {round : ι → Into (ι ⊕ α)} (leftOf : ι → Bytes) (Clear : Bytes → Prop)
  {P : Prop → Bytes → Walk → Prop} {Q : Except TlsError α → Prop} {bytes before rest : Bytes} {c : Prop} {w : Walk}
  {i : ι} {n : Nat}

/-- What a round gives that has `leftOf i` before it and `b` behind it: another round behind a first item, which is
clear where `d` holds, or an end. `P` is what is kept of the walk. -/
def Item (P : Prop → Bytes → Walk → Prop) (Q : Except TlsError α → Prop) (c : Prop) (b : Bytes) (i : ι) :
    Except TlsError (ι ⊕ α) → Walk → Prop
  | .ok (.inl j), t => ∃ v d, v ≠ [] ∧ leftOf i = v ++ leftOf j ∧ (Clear (leftOf i) ↔ d ∧ Clear (leftOf j)) ∧
      P (c ∧ d) (b ++ v) t
  | .ok (.inr a), t => Q (.ok a) ∧ Clear (leftOf i) ∧ P c b t
  | .error e, t => Q (.error e) ∧ Clear (leftOf i) ∧ P c b t

/-- **A loop over items.** -/
theorem ends_items (hb : bytes = before ++ (leftOf i ++ rest)) (h : P c before w) (hn : (leftOf i).length < n)
    (hround : ∀ i t b c, bytes = b ++ (leftOf i ++ rest) → P c b t →
      Ends False (Item leftOf Clear P Q c b i) (round i t)) :
    Ends False (fun r t => Q r ∧ ∃ b, P (c ∧ Clear (leftOf i)) b t ∧ b.length ≤ before.length + (leftOf i).length)
      (rounds round n i w) := by
  -- what is behind is as clear as the whole, and with what is left it is the whole
  refine ends_rounds (I := fun j t => ∃ b d, bytes = b ++ (leftOf j ++ rest) ∧ P d b t ∧
    (d ∧ Clear (leftOf j) ↔ c ∧ Clear (leftOf i))) (m := fun j => (leftOf j).length) ⟨before, c, hb, h, Iff.rfl⟩ hn ?_
  rintro j t ⟨b, d, hb', hP, hiff⟩
  have hend (hclear : Clear (leftOf j)) {t : Walk} (hP : P d b t) :
      ∃ b, P (c ∧ Clear (leftOf i)) b t ∧ b.length ≤ before.length + (leftOf i).length := by
    have hlength := congrArg List.length (hb.symm.trans hb')
    simp only [List.length_append] at hlength
    rw [← propext hiff, propext (and_iff_left hclear)]
    exact ⟨b, hP, by omega⟩
  refine (hround j t b d hb' hP).mono fun r t' ht => ?_
  match r with
  | .ok (.inl k) =>
    obtain ⟨v, e, hv, hleft, hclear, hP'⟩ := ht
    refine ⟨⟨b ++ v, d ∧ e, ?_, hP', ?_⟩, ?_⟩
    · rw [hb', hleft]
      simp only [List.append_assoc]
    · rw [and_assoc, ← hclear]
      exact hiff
    · have := List.length_pos_iff.mpr hv
      have hlength := congrArg List.length hleft
      rw [List.length_append] at hlength
      dsimp only
      omega
  | .ok (.inr a) => exact ⟨ht.1, hend ht.2.1 ht.2.2⟩
  | .error e => exact ⟨ht.1, hend ht.2.1 ht.2.2⟩

end

/-- A walk over a list never stops and annotates it as it is. -/
def Right (k : Bytes → Into Unit) : Prop :=
  ∀ {bytes before left rest base c w w'}, Going bytes base c w w' before.length → bytes = before ++ (left ++ rest) →
    Ends False (fun r t => r = .ok () ∧ ∃ pos, Going bytes base c w t pos ∧ pos ≤ before.length + left.length)
      (k left w')

theorem right_rounds {round : Bytes × Nat → Into ((Bytes × Nat) ⊕ Unit)}
    (hround : ∀ {bytes before left rest base c w w' i}, Going bytes base c w w' before.length →
      bytes = before ++ (left ++ rest) →
      Ends False (Item Prod.fst (fun _ => True) (fun c b t => Going bytes base c w t b.length) (· = .ok ()) c before
        (left, i)) (round (left, i) w')) (i : Nat) : Right fun left => rounds round (left.length + 1) (left, i) := by
  intro bytes before left rest base c w w' h hb
  refine (ends_items Prod.fst (fun _ => True) (P := fun c b t => Going bytes base c w t b.length) (Q := (· = .ok ()))
    (i := (left, i)) hb h (Nat.lt_succ_self _) fun i t b c hb h => hround h hb).mono fun r t ht => ?_
  obtain ⟨hr, b, hgoing, hlen⟩ := ht
  exact ⟨hr, b.length, hgoing.iff fun _ => and_iff_left trivial, hlen⟩

/-- **A walk over `left`** never stops, stays in it, and is truthful just when `c` holds. It ends with an error only
where it may (`fails`). -/
def Contract (fails : Prop) (left : Bytes) (c : Prop) (x : Into Unit) : Prop :=
  ∀ bytes before after w, bytes = before ++ (left ++ after) →
    Ends False (fun r w' => (fails ∨ r = .ok ()) ∧
      Recorded bytes (w.pos = before.length) c w.pos w'.pos w.fields w'.fields ∧ w'.pos ≤ w.pos + left.length) (x w)

section
variable {fails c d : Prop} {left bytes before after : Bytes} {w w' t : Walk} {x : Into Unit} {base pos : Nat}

theorem length_behind {b r : Bytes} (hb₀ : bytes = before ++ (left ++ after)) (hb : bytes = b ++ (r ++ after)) :
    b.length + r.length = before.length + left.length := by
  have hlength := congrArg List.length (hb.symm.trans hb₀)
  simp only [List.length_append] at hlength
  omega

theorem le_behind {b r : Bytes} (hb₀ : bytes = before ++ (left ++ after)) (hb : bytes = b ++ (r ++ after)) :
    b.length ≤ before.length + left.length := by
  have := length_behind hb₀ hb
  omega

/-- The end of a walk that has read no further than `left`. -/
theorem Going.ends (h : Going bytes before.length c w w' pos) (hcd : c ↔ d) (hpos : pos ≤ before.length + left.length) :
    Recorded bytes (w.pos = before.length) d w.pos w'.pos w.fields w'.fields ∧ w'.pos ≤ w.pos + left.length :=
  ⟨h.wrote.iff fun _ => hcd, by have := h.le; omega⟩

/-- **A walk in a walk.** -/
theorem Contract.within (h : Contract fails left d x) (hgoing : Going bytes base c w w' before.length)
    (hb : bytes = before ++ (left ++ after)) :
    Ends False (fun r t => (fails ∨ r = .ok ()) ∧ Recorded bytes (w.pos = base) (c ∧ d) w.pos t.pos w.fields t.fields ∧
      t.pos ≤ w'.pos + left.length) (x w') := by
  refine (h bytes before after w' hb).mono fun _ t ht => ⟨ht.1, hgoing.wrote.trans ?_, ht.2.2⟩
  obtain ⟨new, hnew, hclimbs, htruth⟩ := ht.2.1
  exact ⟨new, hnew, hclimbs, fun hexact => htruth (hgoing.keeps hexact)⟩

theorem Contract.last {e : Prop} {b part : Bytes} (h : Contract fails part d x)
    (hgoing : Going bytes before.length c w w' b.length) (hb : bytes = b ++ (part ++ after)) (he : c ∧ d ↔ e)
    (hlen : b.length + part.length ≤ before.length + left.length) : Ends False (fun r t => (fails ∨ r = .ok ()) ∧
      Recorded bytes (w.pos = before.length) e w.pos t.pos w.fields t.fields ∧ t.pos ≤ w.pos + left.length) (x w') := by
  have hle := hgoing.le
  exact (h.within hgoing hb).mono fun r t ht => ⟨ht.1, ht.2.1.iff fun _ => he, by have := ht.2.2; omega⟩

theorem Going.over (hgoing : Going bytes base d w w' before.length)
    (h : Recorded bytes (w.pos = base) c w.pos t.pos w.fields t.fields) (hle : t.pos ≤ w'.pos + left.length) :
    Going bytes base c w { t with pos := w'.pos + left.length } (before ++ left).length := by
  have hgle := hgoing.le
  rw [List.length_append]
  exact ⟨h.mono hle, by dsimp only; omega, fun hexact => congrArg (· + left.length) (hgoing.keeps hexact)⟩

theorem Contract.nothing (left : Bytes) : Contract fails left True (pure () : Into Unit) :=
  fun _ _ _ _ _ => ⟨.inr rfl, .none le_rfl, Nat.le_add_right _ _⟩

theorem Contract.iff (h : Contract fails left c x) (hcd : c ↔ d) : Contract fails left d x := by
  intro bytes before after w hb
  exact (h bytes before after w hb).mono fun _ w' hw => ⟨hw.1, hw.2.1.iff fun _ => hcd, hw.2.2⟩

theorem Contract.may (h : Contract False left c x) : Contract True left c x := by
  intro bytes before after w hb
  exact (h bytes before after w hb).mono fun _ w' hw => ⟨.inl trivial, hw.2⟩

end

end BuildYourOwn.Tls
