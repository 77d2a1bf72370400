import BuildYourOwn.Lib.Run
import BuildYourOwn.Tls.Record

/-!
# What one record layer seals, another opens

A layer is called with `seal` and `set_write` in any order. Its records, one behind the other, are framed
by `Record::parse` and given to a second layer, on which `set_read` is called with the same keys at the
same points. Where no keys are in force a record is not opened: its type and its fragment are the header's,
as in `TlsConn::next_message`.

* `InStep`: the one layer writes with the keys and the number the other reads with. Every call keeps it
  (`seal_answered`).

Result: `sealed_records_round_trip`.
-/

namespace BuildYourOwn.Tls

open Lib

section variable [Crates]

/-! ## The two layers -/

inductive Call where
  | seal (contentType : ContentType) (content : Bytes) (padding : Nat)
  | setWrite (keys : TrafficKeys)

def call (l : RecordLayer) : Call → Option (RecordLayer × Except TlsError Bytes)
  | .seal t content padding => (RecordLayer.seal t content padding l).map Prod.swap
  | .setWrite keys => some (l.setWrite keys, .ok [])

inductive Reading where
  | setRead (keys : TrafficKeys)
  | record (r : Record)

def read (l : RecordLayer) : Reading → Option (RecordLayer × Except TlsError (Option InnerPlaintext))
  | .setRead keys => some (l.setRead keys, .ok none)
  | .record r =>
    if l.readingEncrypted then (RecordLayer.open r l).map fun x => (x.2, x.1.map some)
    else some (l, .ok (some ⟨r.contentType, r.fragment, 0⟩))

variable {w w' : RecordLayer} {t : ContentType} {padding : Nat}

theorem call_seal {content : Bytes} {o : Except TlsError Bytes} (h : call w (.seal t content padding) = some (w', o)) :
    RecordLayer.seal t content padding w = some (o, w') := by
  obtain ⟨⟨o', l⟩, hseal, hswap⟩ := Option.map_eq_some_iff.mp h
  cases hswap
  exact hseal

abbrev Writing := Event RecordLayer Call (Except TlsError Bytes)

abbrev Receipt := Event RecordLayer Reading (Except TlsError (Option InnerPlaintext))

/-- The call did not fail. -/
def sent (e : Writing) : Bool :=
  match e.output with
  | .ok _ => true
  | .error _ => false

/-- All that was sent. -/
def wire (es : List Writing) : Bytes :=
  es.flatMap fun e =>
    match e.output with
    | .ok bytes => bytes
    | .error _ => []

/-- `Record::parse` again and again, to the end. -/
inductive Framed : Bytes → List Record → Prop
  | nil : Framed [] []
  | cons {bytes : Bytes} {r : Record} {used : Nat} {rs : List Record}
      (h : Record.parse bytes = .ok (r, used)) (hrest : Framed (bytes.drop used) rs) :
      Framed bytes (r :: rs)

def readings : List Writing → List Record → List Reading
  | [], _ => []
  | e :: es, rs =>
    match e.output, e.input, rs with
    | .error _, _, rs => readings es rs
    | .ok _, .setWrite keys, rs => .setRead keys :: readings es rs
    | .ok _, .seal .., r :: rs => .record r :: readings es rs
    | .ok _, .seal .., [] => []

def Refused (f : Receipt) : Prop := ∃ m, f.output = .error (.crypto m)

structure Answered (e : Writing) (f : Receipt) : Prop where
  content : ∀ t content padding, e.input = .seal t content padding →
    f.output = .ok (some ⟨.fromU8 t.asU8, content, if e.before.write.isSome then padding else 0⟩)
  seq : f.after.readSeq = e.after.writeSeq

def usedNonce (e : Writing) : Option Bytes :=
  match e.input, e.output, e.before.write with
  | .seal .., .ok _, some keys => keys.nonce e.before.writeSeq
  | _, _, _ => none

/-- What the AEADs document: a ciphertext opens under the key, nonce and additional data it was sealed
under. -/
def OpensSealed : Prop :=
  ∀ alg key nonce aad msg out, Crates.encrypt alg key nonce aad msg = some out →
    ∃ p, Crates.decrypt alg key nonce aad out.val = some p ∧ p.val = msg

/-! ## One call -/

structure InStep (w r : RecordLayer) : Prop where
  keys : r.read = w.write
  seq : r.readSeq = w.writeSeq

theorem aeadOpen_seal (hopens : OpensSealed) {alg : AeadAlg} {key nonce aad msg sealed : Bytes}
    (h : alg.seal key nonce aad msg = some (.ok sealed)) : alg.open key nonce aad sealed = some (.ok msg) := by
  obtain ⟨hkey, hnonce, out, hout, rfl⟩ := aeadSeal_ok h
  obtain ⟨p, hp, hmsg⟩ := hopens alg key nonce aad msg out hout
  unfold AeadAlg.open AeadAlg.keyed
  rw [if_neg (not_not.mpr hkey), if_neg (not_not.mpr hnonce), hp]
  exact congrArg (fun m => some (Except.ok m)) hmsg

structure Answers (e : Writing) (f : Receipt) : Prop where
  input : ∀ keys, e.input = .setWrite keys → f.input = .setRead keys ∧ wire [e] = []
  record : ∀ t content padding, e.input = .seal t content padding → ∃ r, f.input = .record r ∧
    ∀ rest, Record.parse (wire [e] ++ rest) = .ok (r, (wire [e]).length)
  answered : Answered e f

theorem Sealed.opens (hopens : OpensSealed) {w r : RecordLayer} {content nonce sealed : Bytes} {keys : TrafficKeys} {seq : UInt64}
    (h : Sealed w t content padding keys nonce sealed seq) (hin : InStep w r) (ht : t.asU8 ≠ 0) :
    RecordLayer.open (Record.built ContentType.applicationData.asU8 w.writeVersion sealed) r =
      some (.ok ⟨.fromU8 t.asU8, content, padding⟩, { r with readSeq := seq }) := by
  refine open_ok.mpr ⟨keys, nonce, InnerPlaintext.build t content padding, seq,
    hin.keys.trans h.hwrite, ?_, ?_, ?_, innerParse_build ht content padding, rfl⟩
  · rw [hin.seq]
    exact h.hnonce
  · rw [header_built]
    exact aeadOpen_seal hopens h.hout
  · rw [hin.seq]
    exact h.hseq

/-- What `seal` sends, `read` takes. -/
theorem seal_answered (hopens : OpensSealed) {w w' r : RecordLayer}
    {content bytes : Bytes} (hin : InStep w r) (ht : t.asU8 ≠ 0) (hplain : w.write = none → content.length ≤ 65535)
    (h : RecordLayer.seal t content padding w = some (.ok bytes, w')) :
    ∃ rec r', (∀ rest, Record.parse (bytes ++ rest) = .ok (rec, bytes.length)) ∧
      read r (.record rec) = some (r', .ok (some
        ⟨.fromU8 t.asU8, content, if w.write.isSome then padding else 0⟩)) ∧ InStep w' r' := by
  rcases seal_cases h with ⟨hwrite, rfl, rfl⟩ | ⟨keys, nonce, sealed, seq, hsealed, rfl, rfl⟩
  · have hread : r.readingEncrypted = false := by
      unfold RecordLayer.readingEncrypted
      rw [hin.keys, hwrite]
      rfl
    refine ⟨Record.built t.asU8 w'.writeVersion content, r,
      parse_build _ _ (Nat.lt_succ_of_le (hplain hwrite)), ?_, hin⟩
    unfold read
    rw [hread, hwrite]
    rfl
  · have henc : r.readingEncrypted = true := by
      unfold RecordLayer.readingEncrypted
      rw [hin.keys, hsealed.hwrite]
      rfl
    have hopen := hsealed.opens hopens hin ht
    refine ⟨Record.built ContentType.applicationData.asU8 w.writeVersion sealed,
      { r with readSeq := seq },
      parse_build _ _ (Nat.lt_of_le_of_lt hsealed.hsmall (by decide)), ?_, ⟨hin.keys, rfl⟩⟩
    unfold read
    dsimp only
    rw [if_pos henc, hopen, hsealed.hwrite]
    rfl

theorem call_answered (hopens : OpensSealed) {e : Writing} {r : RecordLayer} (hin : InStep e.before r)
    (hsent : sent e = true) (hstep : call e.before e.input = some (e.after, e.output))
    (ht : ∀ t content padding, e.input = .seal t content padding → t.asU8 ≠ 0 ∧
      (e.before.write = none → content.length ≤ 65535)) :
    ∃ j o r', read r j = some (r', o) ∧ InStep e.after r' ∧ Answers e ⟨r, j, o, r'⟩ := by
  obtain ⟨w, i, o, w'⟩ := e
  cases i with
  | setWrite keys =>
    obtain ⟨rfl, rfl⟩ : w.setWrite keys = w' ∧ Except.ok [] = o := by
      have h := Option.some.inj hstep
      exact ⟨congrArg Prod.fst h, congrArg Prod.snd h⟩
    refine ⟨.setRead keys, .ok none, r.setRead keys, rfl, ⟨rfl, rfl⟩, ?_, ?_, ?_, rfl⟩
    · rintro keys' ⟨⟩
      exact ⟨rfl, rfl⟩
    · rintro t content padding ⟨⟩
    · rintro t content padding ⟨⟩
  | «seal» t content padding =>
    cases o with
    | error err => cases hsent
    | ok bytes =>
      obtain ⟨hnz, hplain⟩ := ht t content padding rfl
      obtain ⟨rec, r', hparse, hread, hin'⟩ :=
        seal_answered hopens hin hnz hplain (call_seal hstep)
      refine ⟨.record rec, _, r', hread, hin', ?_, ?_, ?_, hin'.seq⟩
      · rintro keys ⟨⟩
      · rintro t' content' padding' ⟨⟩
        have hwire : wire [⟨w, .seal t content padding, .ok bytes, w'⟩] = bytes := List.append_nil bytes
        refine ⟨rec, rfl, ?_⟩
        rw [hwire]
        exact hparse
      · rintro t' content' padding' ⟨⟩
        rfl

theorem call_failed {e : Writing} (hstep : call e.before e.input = some (e.after, e.output))
    (h : sent e = false) : e.after = e.before := by
  obtain ⟨w, i, o, w'⟩ := e
  cases o with
  | ok bytes => cases h
  | error err =>
    cases i with
    | setWrite keys => cases congrArg Prod.snd (Option.some.inj hstep)
    | «seal» t content padding => exact seal_error (call_seal hstep)

theorem read_refused {f : Receipt} (hstep : read f.before f.input = some (f.after, f.output))
    (h : Refused f) : f.after = f.before := by
  obtain ⟨r, j, o, r'⟩ := f
  obtain ⟨m, rfl⟩ : ∃ m, o = .error (.crypto m) := h
  cases j with
  | setRead keys => cases congrArg Prod.snd (Option.some.inj hstep)
  | record rec =>
    change (if r.readingEncrypted then _ else _) = _ at hstep
    split at hstep
    · obtain ⟨⟨o', l⟩, hopen, hpair⟩ := Option.map_eq_some_iff.mp hstep
      cases o' with
      | ok inner => exact absurd (congrArg Prod.snd hpair) (by simp [Except.map])
      | error err =>
        cases hpair
        exact open_crypto hopen
    · cases congrArg Prod.snd (Option.some.inj hstep)

/-! ## The whole run -/

def recordsOf (fs : List Receipt) : List Record :=
  fs.filterMap fun f =>
    match f.input with
    | .setRead _ => none
    | .record r => some r

omit [Crates] in
theorem wire_cons (e : Writing) (es : List Writing) : wire (e :: es) = wire [e] ++ wire es := by
  unfold wire
  rw [List.flatMap_cons, List.flatMap_cons, List.flatMap_nil, List.append_nil]

omit [Crates] in
theorem wire_filter (es : List Writing) : wire (es.filter sent) = wire es := by
  induction es with
  | nil => rfl
  | cons e es ih =>
    obtain ⟨w, i, o, w'⟩ := e
    cases o with
    | ok bytes =>
      rw [List.filter_cons_of_pos rfl, wire_cons, ih, ← wire_cons]
    | error err =>
      rw [List.filter_cons_of_neg Bool.false_ne_true, ih, wire_cons]
      rfl

omit [Crates] in
theorem readings_filter (es : List Writing) (rs : List Record) : readings (es.filter sent) rs = readings es rs := by
  induction es generalizing rs with
  | nil => rfl
  | cons e es ih =>
    obtain ⟨w, i, o, w'⟩ := e
    cases o with
    | error err =>
      rw [List.filter_cons_of_neg Bool.false_ne_true, ih]
      rfl
    | ok bytes =>
      rw [List.filter_cons_of_pos rfl]
      cases i with
      | setWrite keys => exact congrArg (Reading.setRead keys :: ·) (ih rs)
      | «seal» t content padding =>
        cases rs with
        | nil => rfl
        | cons r rs => exact congrArg (Reading.record r :: ·) (ih rs)

omit [Crates] in
/-- **Framing** what was sent gives the records that were answered, and the keys between them. -/
theorem frame_of_answers {es : List Writing} {fs : List Receipt} (h : List.Forall₂ Answers es fs)
    (hsent : ∀ e ∈ es, sent e = true) :
    Framed (wire es) (recordsOf fs) ∧ fs.map Event.input = readings es (recordsOf fs) := by
  induction h with
  | nil => exact ⟨Framed.nil, rfl⟩
  | @cons e f es fs hef _ ih =>
    obtain ⟨hframed, hreadings⟩ := ih fun e he => hsent e (List.mem_cons_of_mem _ he)
    have hok := hsent e List.mem_cons_self
    obtain ⟨w, i, o, w'⟩ := e
    cases o with
    | error err => cases hok
    | ok bytes =>
      obtain ⟨r, j, o', r'⟩ := f
      rw [wire_cons]
      cases i with
      | setWrite keys =>
        obtain ⟨rfl, hwire⟩ := hef.input keys rfl
        rw [hwire]
        exact ⟨hframed, congrArg (Reading.setRead keys :: ·) hreadings⟩
      | «seal» t content padding =>
        obtain ⟨rec, rfl, hparse⟩ := hef.record t content padding rfl
        refine ⟨Framed.cons (hparse _) ?_, congrArg (Reading.record rec :: ·) hreadings⟩
        rw [List.drop_left]
        exact hframed

/-! ## Nonces -/

omit [Crates] in
theorem xor_injective {a b c : Bytes} (hb : b.length = a.length) (hc : c.length = a.length)
    (h : List.zipWith (· ^^^ ·) a b = List.zipWith (· ^^^ ·) a c) : b = c := by
  induction a generalizing b c with
  | nil => rw [List.eq_nil_of_length_eq_zero hb, List.eq_nil_of_length_eq_zero hc]
  | cons x a ih =>
    obtain ⟨y, b, rfl⟩ := List.exists_cons_of_length_eq_add_one hb
    obtain ⟨z, c, rfl⟩ := List.exists_cons_of_length_eq_add_one hc
    rw [List.zipWith_cons_cons, List.zipWith_cons_cons, List.cons.injEq] at h
    obtain ⟨hyz, hrest⟩ := h
    rw [(UInt8.xor_right_inj x).mp hyz, ih (Nat.succ.inj hb) (Nat.succ.inj hc) hrest]

omit [Crates] in
/-- **A nonce** tells the sequence number it was made of. -/
theorem nonce_injective {keys : TrafficKeys} {m n : UInt64} {nonce : Bytes}
    (hm : keys.nonce m = some nonce) (hn : keys.nonce n = some nonce) : m = n := by
  unfold TrafficKeys.nonce at hm hn
  split at hm
  · cases hm
  · rename_i hiv
    rw [if_neg hiv] at hn
    have hlen (k : UInt64) : (bigEndian 8 k.toNat).length = (keys.iv.drop (keys.iv.length - 8)).length := by
      rw [length_bigEndian, List.length_drop]
      omega
    have hbytes : bigEndian 8 m.toNat = bigEndian 8 n.toNat :=
      xor_injective (hlen m) (hlen n)
        (List.append_cancel_left ((Option.some.inj hm).trans (Option.some.inj hn).symm))
    have hvalue (k : UInt64) : ofBigEndian (bigEndian 8 k.toNat) = k.toNat := by
      rw [ofBigEndian_bigEndian]
      exact Nat.mod_eq_of_lt (show k.toNat < 256 ^ 8 from k.toNat_lt)
    apply UInt64.toNat_inj.mp
    rw [← hvalue m, hbytes, hvalue n]

omit [Crates] in
theorem nextSeq_toNat {seq next : UInt64} (h : nextSeq seq = some next) : next.toNat = seq.toNat + 1 := by
  unfold nextSeq at h
  split at h
  · cases h
  · rename_i hne
    cases h
    have hlt := seq.toNat_lt
    have hadd : (seq + 1).toNat = (seq.toNat + 1) % 2 ^ 64 := UInt64.toNat_add seq 1
    have hpos : (seq + 1).toNat ≠ 0 := fun h0 => hne (UInt64.toNat_inj.mp h0)
    omega

theorem seq_le {es : List Writing} (h : Run call w es w') (hkeys : ∀ e ∈ es, ∀ keys, e.input ≠ .setWrite keys) :
    w'.write = w.write ∧ w.writeSeq.toNat ≤ w'.writeSeq.toNat := by
  refine h.invariant (P := fun l => l.write = w.write ∧ w.writeSeq.toNat ≤ l.writeSeq.toNat)
    (G := fun _ i => ∀ keys, i ≠ .setWrite keys) ⟨rfl, Nat.le_refl _⟩ ?_ fun e he => hkeys e he
  intro l i l' o ⟨hwrite, hle⟩ hi hstep
  cases i with
  | setWrite keys => exact absurd rfl (hi keys)
  | «seal» t content padding =>
    have hseal := call_seal hstep
    cases o with
    | error err =>
      obtain rfl := seal_error hseal
      exact ⟨hwrite, hle⟩
    | ok bytes =>
      rcases seal_cases hseal with ⟨_, rfl, _⟩ | ⟨keys, nonce, sealed, seq, hsealed, rfl, _⟩
      · exact ⟨hwrite, hle⟩
      · have hseq := nextSeq_toNat hsealed.hseq
        exact ⟨hwrite, show w.writeSeq.toNat ≤ seq.toNat by omega⟩

theorem usedNonce_cases {e : Writing} {n : Bytes} (h : usedNonce e = some n)
    (hstep : call e.before e.input = some (e.after, e.output)) :
    ∃ keys, e.before.write = some keys ∧ e.after.write = some keys ∧
      keys.nonce e.before.writeSeq = some n ∧ e.before.writeSeq.toNat < e.after.writeSeq.toNat := by
  obtain ⟨w, i, o, w'⟩ := e
  unfold usedNonce at h
  split at h
  · rename_i t content padding bytes keys hi ho hkeys
    obtain rfl : i = .seal t content padding := hi
    obtain rfl : o = .ok bytes := ho
    have hwrite : w.write = some keys := hkeys
    have hseal : RecordLayer.seal t content padding w = some (.ok bytes, w') := call_seal hstep
    rcases seal_cases hseal with ⟨hnone, _⟩ | ⟨keys', nonce, sealed, seq, hsealed, rfl, _⟩
    · rw [hnone] at hwrite
      cases hwrite
    · have hseq := nextSeq_toNat hsealed.hseq
      exact ⟨keys, hkeys, hkeys, h, show w.writeSeq.toNat < seq.toNat by omega⟩
  · cases h

theorem nonce_fresh {es a b c : List Writing} {e f : Writing} {n : Bytes}
    (h : Run call w es w') (hes : es = a ++ e :: (b ++ f :: c))
    (hkeys : ∀ x ∈ b, ∀ keys, x.input ≠ .setWrite keys) (he : usedNonce e = some n) : usedNonce f ≠ some n := by
  intro hf
  have hmem : ∀ x, x = e ∨ x = f → x ∈ es := by
    rintro x (rfl | rfl)
    · rw [hes]
      simp
    · rw [hes]
      simp
  obtain ⟨keys, _, hafter, hnonce, hlt⟩ := usedNonce_cases he (h.step_of_mem (hmem e (.inl rfl)))
  obtain ⟨keys', hbefore, _, hnonce', _⟩ := usedNonce_cases hf (h.step_of_mem (hmem f (.inr rfl)))
  have hsplit : es = ((a ++ [e]) ++ b) ++ f :: c := by
    rw [hes]
    simp
  obtain ⟨m, hm, hb⟩ := (h.split hsplit).append_inv
  obtain rfl := hm.eq_after
  obtain ⟨hwrite, hle⟩ := seq_le hb hkeys
  rw [hbefore, hafter] at hwrite
  cases hwrite
  have hseq := nonce_injective hnonce hnonce'
  rw [← hseq] at hle
  omega

/-! ## The result -/

theorem sealed_records_round_trip (hopens : OpensSealed) {es : List Writing} {w : RecordLayer}
    (h : Run call .new es w)
    (htype : ∀ e ∈ es, ∀ t content padding, e.input = .seal t content padding → t.asU8 ≠ 0)
    (hplain : ∀ e ∈ es, ∀ t content padding, e.input = .seal t content padding →
      e.before.write = none → content.length ≤ 65535) :
    (∃ records, Framed (wire es) records ∧
      (∃ fs l, Run read .new fs l ∧ fs.map Event.input = readings es records ∧
        List.Forall₂ Answered (es.filter sent) fs) ∧
      ∀ gs l (right : Receipt → Bool), Run read .new gs l →
        (∀ g ∈ gs, right g = false → Refused g) →
        (gs.filter right).map Event.input = readings es records →
        List.Forall₂ Answered (es.filter sent) (gs.filter right) ∧
          ∀ g ∈ gs, Refused g → g.after = g.before) ∧
    ∀ a e b f c, es = a ++ e :: (b ++ f :: c) → (∀ x ∈ b, ∀ keys, x.input ≠ .setWrite keys) →
      ∀ n, usedNonce e = some n → usedNonce f ≠ some n := by
  have hquiet : ∀ e ∈ es, sent e = false → e.after = e.before := fun e he hfailed =>
    call_failed (h.step_of_mem he) hfailed
  have hrefused {gs : List Receipt} {l : RecordLayer} (hgs : Run read .new gs l) :
      ∀ g ∈ gs, Refused g → g.after = g.before := fun g hg => read_refused (hgs.step_of_mem hg)
  have hsim : ∃ fs l, Run read .new fs l ∧ InStep w l ∧ List.Forall₂ Answers (es.filter sent) fs :=
    (h.filter sent hquiet).simulated ⟨rfl, rfl⟩ fun e he t hin hstep =>
      call_answered hopens hin (List.mem_filter.mp he).2 hstep fun t content padding hi =>
        ⟨htype e (List.mem_filter.mp he).1 t content padding hi,
          hplain e (List.mem_filter.mp he).1 t content padding hi⟩
  obtain ⟨fs, l, hfs, -, hanswers⟩ := hsim
  obtain ⟨hframed, hreadings⟩ :=
    frame_of_answers hanswers fun e he => (List.mem_filter.mp he).2
  rw [wire_filter] at hframed
  rw [readings_filter] at hreadings
  have hanswered := hanswers.imp fun e f hef => hef.answered
  refine ⟨⟨recordsOf fs, hframed, ⟨fs, l, hfs, hreadings, hanswered⟩, ?_⟩, ?_⟩
  · intro gs l' right hgs hwrong hin
    have hgs' := hgs.filter right fun g hg hr => hrefused hgs g hg (hwrong g hg hr)
    obtain ⟨heq, -⟩ := hgs'.unique hfs (hin.trans hreadings.symm)
    rw [heq]
    exact ⟨hanswered, hrefused hgs⟩
  · intro a e b f c hes hkeys n he
    exact nonce_fresh h hes hkeys he

end

/-! ### One record in the clear, one under AES-128-GCM -/

def sampleKeys : TrafficKeys where
  secret := List.replicate 32 0x42
  key := [44, 97, 126, 1, 89, 83, 245, 111, 247, 161, 97, 50, 163, 238, 76, 193]
  iv := [47, 210, 59, 3, 37, 239, 113, 230, 19, 182, 250, 238]
  aead := .aes128Gcm
  hash := .sha256

def sampleInner : Bytes := [2, 3, 22, 0]

/-- `sampleInner` under `sampleKeys`, with sequence number 0. -/
def sampleSealed : Bytes :=
  [132, 65, 196, 79, 54, 65, 54, 139, 21, 0, 229, 175, 1, 81, 126, 185, 12, 136, 141, 23]

/-- The AEAD on the one input of the run below. -/
@[reducible] def sampleCrates : Crates where
  sha256 _ := ⟨List.replicate 32 0, rfl⟩
  sha384 _ := ⟨List.replicate 48 0, rfl⟩
  hmacSha256 _ _ := ⟨List.replicate 32 0, rfl⟩
  hmacSha384 _ _ := ⟨List.replicate 48 0, rfl⟩
  encrypt alg key nonce aad msg :=
    if h : (alg = .aes128Gcm ∧ key = sampleKeys.key ∧ nonce = sampleKeys.iv ∧
        aad = [23, 3, 3, 0, 20]) ∧ msg = sampleInner then
      some ⟨sampleSealed, by rw [h.2]; rfl⟩
    else none
  decrypt alg key nonce aad msg :=
    if h : (alg = .aes128Gcm ∧ key = sampleKeys.key ∧ nonce = sampleKeys.iv ∧
        aad = [23, 3, 3, 0, 20]) ∧ msg = sampleSealed then
      some ⟨sampleInner, by rw [h.2]; rfl⟩
    else none

theorem sampleCrates_opensSealed : @OpensSealed sampleCrates := by
  intro alg key nonce aad msg out hout
  have hcond : (alg = .aes128Gcm ∧ key = sampleKeys.key ∧ nonce = sampleKeys.iv ∧
      aad = [23, 3, 3, 0, 20]) ∧ msg = sampleInner := by
    by_contra hne
    rw [show @Crates.encrypt sampleCrates alg key nonce aad msg = none from dif_neg hne] at hout
    cases hout
  obtain ⟨hfirst, rfl⟩ := hcond
  have hsealed : out.val = sampleSealed := by
    rw [show @Crates.encrypt sampleCrates alg key nonce aad sampleInner =
      some ⟨sampleSealed, rfl⟩ from dif_pos ⟨hfirst, rfl⟩] at hout
    cases hout
    rfl
  exact ⟨⟨sampleInner, by rw [hsealed]; rfl⟩, dif_pos ⟨hfirst, hsealed⟩, rfl⟩

def sampleCalls : List Call :=
  [.seal .handshake [1] 5, .setWrite sampleKeys, .seal .handshake [2, 3] 1]

theorem sealed_records_round_trip_two : ∃ (es : List Writing) (fs : List Receipt) (w l : RecordLayer),
    Run (@call sampleCrates) .new es w ∧
      wire es = [22, 3, 3, 0, 1, 1] ++ [23, 3, 3, 0, 20] ++ sampleSealed ∧
      Run (@read sampleCrates) .new fs l ∧ List.Forall₂ Answered (es.filter sent) fs := by
  let _ := sampleCrates
  obtain ⟨es, w, hrun, hin, hwire⟩ : ∃ (es : List Writing) (w : RecordLayer),
      Run call .new es w ∧ es.map Event.input = sampleCalls ∧
        wire es = [22, 3, 3, 0, 1, 1] ++ [23, 3, 3, 0, 20] ++ sampleSealed :=
    ⟨_, _, run_of_exec sampleCalls rfl, rfl, rfl⟩
  have hcall : ∀ e ∈ es, e.input ∈ sampleCalls := fun e he => hin ▸ List.mem_map_of_mem he
  have hsmall : ∀ e ∈ es, ∀ t content padding, e.input = .seal t content padding →
      t = .handshake ∧ content.length ≤ 65535 := by
    intro e he t content padding hi
    have hmem := hcall e he
    rw [hi] at hmem
    simp only [sampleCalls, List.mem_cons, Call.seal.injEq, reduceCtorEq, List.not_mem_nil,
      or_false, false_or] at hmem
    rcases hmem with ⟨rfl, rfl, -⟩ | ⟨rfl, rfl, -⟩
    · exact ⟨rfl, by decide⟩
    · exact ⟨rfl, by decide⟩
  obtain ⟨⟨records, -, ⟨fs, l, hfs, -, hanswered⟩, -⟩, -⟩ :=
    sealed_records_round_trip sampleCrates_opensSealed hrun
      (fun e he t content padding hi => (hsmall e he t content padding hi).1 ▸ by decide)
      (fun e he t content padding hi _ => (hsmall e he t content padding hi).2)
  exact ⟨es, fs, w, l, hrun, hwire, hfs, hanswered⟩

/-- A record sealed before there are keys is not opened: `open` asks for read keys. -/
theorem clear_record_not_opened :
    (@RecordLayer.seal sampleCrates .handshake [1] 5 .new).map Prod.fst = some (.ok [22, 3, 3, 0, 1, 1]) ∧
      Record.parse [22, 3, 3, 0, 1, 1] = .ok (Record.built 22 0x0303 [1], 6) ∧
      (@RecordLayer.open sampleCrates (Record.built 22 0x0303 [1]) .new).map Prod.fst =
        some (.error (.record "cannot open a record: no read keys are in force yet")) :=
  ⟨rfl, by decide, rfl⟩

end BuildYourOwn.Tls
