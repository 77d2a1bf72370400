import BuildYourOwn.Kafka.Wire
import BuildYourOwn.Lib.Utf8

/-!
# Consumer assignments

Model of `assignment_v0` and `decode_assignment_v0` (`kafkatest/src/stages/group_protocol.rs`) with its `Cursor`, and
of `be_i16` and `be_i32`. A sum of two `usize`s that does not fit in 64 bits is a panic, unless it is checked.

**`assignment_exact`**: what is written is read back, nothing shorter is, and no byte string makes the reader panic.
`Honest` is what each part of the reader keeps: it stays within the bytes, and more bytes behind them change nothing.
-/

namespace BuildYourOwn.Kafka.Assignments

open Lib Lib.Reader

/-- How a call ends without a value: it returns `None`, or it panics. -/
inductive Stop where
  | none
  | panic
deriving DecidableEq

abbrev Read := Reader UInt8 Stop

/-- `bytes.get(at..at + n)?`, and `at` moved behind it. -/
def get (n : Nat) : Read Bytes := fun c =>
  if 2 ^ 64 ≤ c.pos + n then .error .panic
  else if c.pos + n ≤ c.buf.length then .ok ((c.buf.drop c.pos).take n, { c with pos := c.pos + n })
  else .error .none

/-- The user data, which are looked at and thrown away. -/
def peek (n : Nat) : Read Unit := fun c =>
  if c.pos + n < 2 ^ 64 ∧ c.pos + n ≤ c.buf.length then .ok ((), c) else .error .none

def number (w n : Nat) : Read (BitVec n) := do
  let b ← get w
  pure (BitVec.ofNat n (ofBigEndian b))

def i16 : Read (BitVec 16) := number 2 16

def i32 : Read (BitVec 32) := number 4 32

def string : Read String := do
  let len ← i16
  if len.toInt < 0 then pure ""
  else do
    let s ← get len.toInt.toNat
    pure (fromUtf8Lossy s)

structure Assignment where
  version : BitVec 16
  assigned : List (String × List (BitVec 32))
deriving DecidableEq

def topic : Read (String × List (BitVec 32)) := do
  let topic ← string
  let n ← i32
  require (0 ≤ n.toInt ∧ n.toInt ≤ 4096) .none
  let partitions ← collect (fun _ => i32) 0 n.toInt.toNat
  pure (topic, partitions)

def userData : Read Unit := do
  let userData ← i32
  if 0 ≤ userData.toInt then peek userData.toInt.toNat else pure ()

def assignment : Read Assignment := do
  let version ← i16
  let count ← i32
  require (0 ≤ count.toInt ∧ count.toInt ≤ 1024) .none
  let assigned ← collect (fun _ => topic) 0 count.toInt.toNat
  userData
  pure ⟨version, assigned⟩

def decodeAssignmentV0 (bytes : Bytes) : Except Stop Assignment := run assignment bytes

/-! ## What is written -/

def putStr (s : String) : Bytes := toBytes 2 (BitVec.ofNat 16 (asBytes s).length) ++ asBytes s

def putTopic (t : String × List (BitVec 32)) : Bytes :=
  putStr t.1 ++ (toBytes 4 (BitVec.ofNat 32 t.2.length) ++ t.2.flatMap (toBytes 4))

def assignmentV0 (assigned : List (String × List (BitVec 32))) : Bytes :=
  toBytes 2 (0 : BitVec 16) ++ (toBytes 4 (BitVec.ofNat 32 assigned.length) ++
    (assigned.flatMap putTopic ++ toBytes 4 (-1 : BitVec 32)))

/-! ## Within the bytes -/

variable {α β : Type} {r : Read α} {f : α → Read β}

def extend (c : Cursor UInt8) (more : Bytes) : Cursor UInt8 := { c with buf := c.buf ++ more }

/-- On a slice, whose length is at most `isize::MAX`, the reader does not panic and does not leave it, and what it
returns it returns of a longer slice too. -/
structure Honest (r : Read α) : Prop where
  calm : ∀ c : Cursor UInt8, c.pos ≤ c.buf.length → c.buf.length < 2 ^ 63 → r c ≠ .error .panic
  inside : ∀ c a c', c.pos ≤ c.buf.length → r c = .ok (a, c') → c'.buf = c.buf ∧ c'.pos ≤ c'.buf.length
  longer : ∀ c a c' more, r c = .ok (a, c') → r (extend c more) = .ok (a, extend c' more)

theorem Honest.pure (a : α) : Honest (Pure.pure a : Read α) where
  calm _ _ _ := nofun
  inside _ _ _ hpos h := by
    cases h
    exact ⟨rfl, hpos⟩
  longer _ _ _ _ h := by
    cases h
    rfl

theorem Honest.fail : Honest (Reader.fail .none : Read α) where
  calm _ _ _ := nofun
  inside _ _ _ _ := nofun
  longer _ _ _ _ := nofun

theorem Honest.bind (h : Honest r) (hf : ∀ a, Honest (f a)) : Honest (r >>= f) where
  calm c hpos hlen hpanic := by
    rcases bind_error hpanic with hr | ⟨a, c', hr, hpanic⟩
    · exact h.calm c hpos hlen hr
    · obtain ⟨hbuf, hpos'⟩ := h.inside c a c' hpos hr
      exact (hf a).calm c' hpos' (hbuf ▸ hlen) hpanic
  inside c b c'' hpos heq := by
    obtain ⟨a, c', hr, heq⟩ := bind_ok.mp heq
    obtain ⟨hbuf, hpos'⟩ := h.inside c a c' hpos hr
    obtain ⟨hbuf', hpos''⟩ := (hf a).inside c' b c'' hpos' heq
    exact ⟨hbuf'.trans hbuf, hpos''⟩
  longer c b c'' more heq := by
    obtain ⟨a, c', hr, heq⟩ := bind_ok.mp heq
    exact bind_ok.mpr ⟨a, _, h.longer c a c' more hr, (hf a).longer c' b c'' more heq⟩

theorem Honest.require {p : Prop} [Decidable p] {g : Unit → Read β} (hg : p → Honest (g ())) :
    Honest (Reader.require p .none >>= g) := by
  unfold Reader.require
  by_cases hp : p
  · rw [if_pos hp]
    exact (Honest.pure ()).bind fun _ => hg hp
  · rw [if_neg hp]
    exact Honest.fail

theorem Honest.collect (h : Honest r) (i n : Nat) : Honest (Reader.collect (fun _ => r) i n) := by
  induction n generalizing i with
  | zero => exact Honest.pure []
  | succ n ih => exact h.bind fun a => (ih (i + 1)).bind fun as => Honest.pure (a :: as)

theorem get_honest {n : Nat} (hn : n < 2 ^ 63) : Honest (get n) where
  calm c hpos hlen := by
    unfold get
    rw [if_neg (by omega)]
    split <;> simp
  inside c a c' hpos heq := by
    unfold get at heq
    split at heq
    · cases heq
    split at heq
    · cases heq
      exact ⟨rfl, ‹_›⟩
    · cases heq
  longer c a c' more heq := by
    unfold get at heq
    split at heq
    · cases heq
    split at heq
    · rename_i hsum hin
      cases heq
      have hin' : c.pos + n ≤ (c.buf ++ more).length := by simp; omega
      have hroom : n ≤ (c.buf.drop c.pos).length := by simp; omega
      simp only [get, extend, if_neg hsum, if_pos hin', List.drop_append_of_le_length (Nat.le_of_add_right_le hin),
        List.take_append_of_le_length hroom]
    · cases heq

theorem peek_honest (n : Nat) : Honest (peek n) where
  calm c _ _ := by
    unfold peek
    split <;> simp
  inside c a c' hpos heq := by
    unfold peek at heq
    split at heq <;> cases heq
    exact ⟨rfl, hpos⟩
  longer c a c' more heq := by
    unfold peek at heq
    split at heq <;> cases heq
    rename_i hin
    have hin' : c.pos + n < 2 ^ 64 ∧ c.pos + n ≤ (c.buf ++ more).length := by simp at *; omega
    exact if_pos hin'

theorem number_honest {w n : Nat} (hw : w < 2 ^ 63) : Honest (number w n) :=
  (get_honest hw).bind fun _ => Honest.pure _

theorem i32_honest : Honest i32 := number_honest (by decide)

theorem string_honest : Honest string := by
  refine (number_honest (by decide)).bind fun len => ?_
  have hlen := len.toInt_lt
  split
  · exact Honest.pure ""
  · exact (get_honest (by omega)).bind fun _ => Honest.pure _

theorem topic_honest : Honest topic :=
  string_honest.bind fun _ => i32_honest.bind fun _ => Honest.require fun _ =>
    (i32_honest.collect 0 _).bind fun _ => Honest.pure _

theorem userData_honest : Honest userData := by
  refine i32_honest.bind fun n => ?_
  split
  · exact peek_honest _
  · exact Honest.pure ()

theorem assignment_honest : Honest assignment :=
  (number_honest (by decide)).bind fun _ => i32_honest.bind fun _ => Honest.require fun _ =>
    (topic_honest.collect 0 _).bind fun _ => userData_honest.bind fun _ => Honest.pure _

/-! ## Reading back -/

def Back (r : Read α) (bs : Bytes) (a : α) : Prop :=
  ∀ before rest, (before ++ (bs ++ rest)).length < 2 ^ 63 → ReadsAt r before bs rest a

variable {a : α} {b : β} {bs cs : Bytes}

theorem Back.pure (a : α) : Back (Pure.pure a) [] a := fun before rest _ => Reads.pure a before rest

theorem Back.bind (h : Back r bs a) (h' : Back (f a) cs b) : Back (r >>= f) (bs ++ cs) b := by
  intro before rest hlen
  rw [List.append_assoc] at hlen
  exact (h before (cs ++ rest) hlen).andThen (h' (before ++ bs) rest (by rwa [List.append_assoc]))

theorem Back.map (h : Back r bs a) (g : α → β) : Back (do let a ← r; Pure.pure (g a)) bs (g a) :=
  fun before rest hlen => (h before rest hlen).map g

theorem Back.require {p : Prop} [Decidable p] {g : Unit → Read β} (hp : p) (h : Back (g ()) bs b) :
    Back (Reader.require p .none >>= g) bs b := fun before rest hlen => (h before rest hlen).require hp

theorem Back.collect {enc : α → Bytes} {as : List α} (h : ∀ a ∈ as, Back r (enc a) a) (i : Nat) :
    Back (Reader.collect (fun _ => r) i as.length) (as.flatMap enc) as := by
  induction as generalizing i with
  | nil => exact Back.pure []
  | cons a as ih =>
    have htail := ih (fun b hb => h b (List.mem_cons_of_mem a hb)) (i + 1)
    rw [List.flatMap_cons]
    exact (h a List.mem_cons_self).bind (htail.map (a :: ·))

theorem get_back (bs : Bytes) : Back (get bs.length) bs bs := by
  intro before rest hlen
  simp only [List.length_append] at hlen
  unfold ReadsAt get
  dsimp only
  rw [if_neg (by omega), if_pos (by simp), List.drop_left, List.take_left]

theorem number_back {w n : Nat} (h : 2 ^ n ≤ 256 ^ w) (x : BitVec n) : Back (number w n) (toBytes w x) x := by
  have hget := get_back (toBytes w x)
  rw [length_toBytes] at hget
  have hvalue : BitVec.ofNat n (ofBigEndian (toBytes w x)) = x := by
    unfold toBytes
    rw [ofBigEndian_bigEndian, Nat.mod_eq_of_lt (Nat.lt_of_lt_of_le x.isLt h)]
    simp
  have hread := hget.map fun b => BitVec.ofNat n (ofBigEndian b)
  rwa [hvalue] at hread

theorem i32_back (x : BitVec 32) : Back i32 (toBytes 4 x) x := number_back (by decide) x

theorem string_back {s : String} (h : (asBytes s).length ≤ 32767) : Back string (putStr s) s := by
  have hint : (BitVec.ofNat 16 (asBytes s).length).toInt = (asBytes s).length := by
    rw [BitVec.toInt_eq_toNat_of_lt] <;> rw [BitVec.toNat_ofNat] <;> omega
  refine (number_back (by decide) _).bind ?_
  rw [if_neg (by omega), hint, Int.toNat_natCast]
  have hread := (get_back (asBytes s)).map fromUtf8Lossy
  rwa [fromUtf8Lossy_asBytes] at hread

/-- A topic whose lengths the format has room for. -/
def Fits (t : String × List (BitVec 32)) : Prop := (asBytes t.1).length ≤ 32767 ∧ t.2.length ≤ 4096

theorem topic_back {t : String × List (BitVec 32)} (h : Fits t) : Back topic (putTopic t) t := by
  have hlen : t.2.length < 2 ^ 31 := Nat.lt_of_le_of_lt h.2 (by decide)
  refine (string_back h.1).bind ((i32_back _).bind (Back.require ?_ ?_))
  · rw [toInt_length hlen]
    have := h.2
    omega
  · rw [toInt_length hlen]
    exact (Back.collect (fun x _ => i32_back x) 0).map fun partitions => (t.1, partitions)

theorem assignment_back {assigned : List (String × List (BitVec 32))} (hcount : assigned.length ≤ 1024)
    (h : ∀ t ∈ assigned, Fits t) : Back assignment (assignmentV0 assigned) ⟨0, assigned⟩ := by
  have hlen : assigned.length < 2 ^ 31 := Nat.lt_of_le_of_lt hcount (by decide)
  have hnull : Back userData (toBytes 4 (-1 : BitVec 32)) () := by
    rw [← List.append_nil (toBytes 4 _)]
    refine (i32_back _).bind ?_
    rw [if_neg (by decide)]
    exact Back.pure ()
  refine (number_back (by decide) 0).bind ((i32_back _).bind (Back.require ?_ ?_))
  · rw [toInt_length hlen]
    omega
  · rw [toInt_length hlen]
    exact (Back.collect (fun t ht => topic_back (h t ht)) 0).bind (hnull.map fun _ => Assignment.mk 0 assigned)

theorem length_putTopic {t : String × List (BitVec 32)} (h : Fits t) : (putTopic t).length ≤ 49157 := by
  have hparts : (t.2.flatMap (toBytes 4)).length = 4 * t.2.length := by
    simp [List.length_flatMap, Nat.mul_comm]
  simp only [putTopic, putStr, List.length_append, length_toBytes, hparts]
  have := h.1
  have := h.2
  omega

/-- What is written is a slice. -/
theorem length_assignmentV0 {assigned : List (String × List (BitVec 32))} (hcount : assigned.length ≤ 1024)
    (h : ∀ t ∈ assigned, Fits t) : (assignmentV0 assigned).length < 2 ^ 63 := by
  have htopics : (assigned.flatMap putTopic).length ≤ 49157 * assigned.length := by
    clear hcount
    induction assigned with
    | nil => exact Nat.le_refl 0
    | cons t ts ih =>
      have hfirst := length_putTopic (h t List.mem_cons_self)
      have hrest := ih fun u hu => h u (List.mem_cons_of_mem t hu)
      rw [List.flatMap_cons, List.length_append, List.length_cons]
      omega
  simp only [assignmentV0, List.length_append, length_toBytes]
  omega

/-- **Assignments are read back whole or not at all**, and reading any bytes returns. -/
theorem assignment_exact :
    (∀ assigned : List (String × List (BitVec 32)), assigned.length ≤ 1024 →
      (∀ t ∈ assigned, (asBytes t.1).length ≤ 32767 ∧ t.2.length ≤ 4096) →
      decodeAssignmentV0 (assignmentV0 assigned) = .ok ⟨0, assigned⟩ ∧
      ∀ p, p <+: assignmentV0 assigned → p ≠ assignmentV0 assigned → decodeAssignmentV0 p = .error .none) ∧
    ∀ bytes : Bytes, bytes.length < 2 ^ 63 → decodeAssignmentV0 bytes ≠ .error .panic := by
  have hcalm : ∀ bytes : Bytes, bytes.length < 2 ^ 63 → decodeAssignmentV0 bytes ≠ .error .panic := by
    intro bytes hlen hpanic
    unfold decodeAssignmentV0 run at hpanic
    cases hr : assignment ⟨bytes, 0⟩ with
    | ok x => simp [hr, Except.map] at hpanic
    | error e =>
      obtain rfl : e = .panic := by simpa [hr, Except.map] using hpanic
      exact assignment_honest.calm _ (Nat.zero_le _) hlen hr
  refine ⟨fun assigned hcount hfits => ?_, hcalm⟩
  have hlen := length_assignmentV0 hcount hfits
  have hback := assignment_back hcount hfits [] [] (by simpa using hlen)
  refine ⟨hback.run, fun p hp hne => ?_⟩
  obtain ⟨more, hmore⟩ := hp
  cases hr : assignment ⟨p, 0⟩ with
  | error e =>
    cases e with
    | none => simp [decodeAssignmentV0, run, hr, Except.map]
    | panic => exact absurd hr (assignment_honest.calm _ (Nat.zero_le _) (by simp [← hmore] at hlen ⊢; omega))
  | ok x =>
    -- on the whole it would stop where it stops on the part
    obtain ⟨x, c'⟩ := x
    obtain ⟨hbuf, hpos⟩ := assignment_honest.inside _ _ _ (Nat.zero_le _) hr
    have hlong := assignment_honest.longer _ _ _ more hr
    unfold ReadsAt at hback
    simp only [List.nil_append, List.append_nil, List.length_nil, Nat.zero_add] at hback
    simp only [extend, hmore] at hlong
    have hstop := congrArg Cursor.pos (Prod.mk.inj (Except.ok.inj (hlong.symm.trans hback))).2
    dsimp only at hstop
    refine absurd ?_ hne
    rw [← hmore]
    have : more.length = 0 := by
      have := congrArg List.length hmore
      rw [hbuf] at hpos
      simp only [List.length_append] at this hpos
      omega
    simp [List.eq_nil_of_length_eq_zero this]

end BuildYourOwn.Kafka.Assignments
