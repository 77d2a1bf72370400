import BuildYourOwn.Tls.Extensions

/-!
# The annotations of messages and records

Each arm of `handshake_into` and `records` with its contract.

* A ClientHello with an odd `cipher_suites` is annotated a byte early from there on.
* `legacy_compression_methods` is shown as `null(0)` and a ChangeCipherSpec as 0x01, whatever they are.

Results: the walks are total and stay inside (`annotations_inside`); they are truthful on the inputs of `RecordsClear`,
`HandshakeClear` and `FlightClear` and on no others (`annotations_truthful_iff`).
-/

namespace BuildYourOwn.Tls

open Lib Lib.Action

section
variable {bytes before rest after left : Bytes} {base : Nat} {c : Prop} {w w' : Walk}

/-! ## Hellos -/

def helloRest (body : Bytes) : Option Bytes := do
  let (_, r) ← cut 2 body
  let (_, r) ← cut 32 r
  let (_, r) ← cutVec 1 r
  some r

/-- The cipher suites and the compression methods of a ClientHello, and what stands behind them. -/
def clientLists (left : Bytes) : Option (Bytes × Bytes × Bytes) := do
  let (suites, r) ← cutVec 2 left
  let (compression, r) ← cutVec 1 r
  some (suites, compression, r)

/-- What stands behind the cipher suite and the compression method of a ServerHello. -/
def serverRest (left : Bytes) : Option Bytes := do
  let (_, r) ← cut 2 left
  let (_, r) ← cut 1 r
  some r

/-- The suites come in pairs and null is the one compression method. -/
def ClientClear (left : Bytes) : Prop :=
  ∀ parts ∈ clientLists left, parts.1.length % 2 = 0 ∧ parts.2.1 = [0] ∧ BlockClear true parts.2.2

def ServerClear (left : Bytes) : Prop := ∀ r ∈ serverRest left, BlockClear false r

def HelloClear (client : Bool) (body : Bytes) : Prop :=
  ∀ r ∈ helloRest body, if client then ClientClear r else ServerClear r

theorem serverRestInto_contract (left : Bytes) (path : String) :
    Contract True left (ServerClear left) (serverRestInto left path) := by
  intro bytes before after w hb₀
  have h := Going.start bytes w before.length
  have hb := hb₀
  unfold serverRestInto
  refine ends_read (fun e hnone => ⟨.inl trivial, ?_⟩) fun suite r hsuite => ?_
  · rw [taking_u16, Option.map_eq_none_iff] at hnone
    exact h.ends (iff_of_true trivial (by simp [ServerClear, serverRest, hnone])) (le_behind hb₀ hb)
  have hleft := u16_took hsuite
  have hcut : cut 2 left = some (u16Bytes suite, r) := cut_eq_some.mpr ⟨rfl, hleft⟩
  simp only [hleft, List.append_assoc] at hb
  refine ends_say h hb rfl rfl fun t h hb => ?_
  refine ends_read (fun e hnone => ⟨.inl trivial, ?_⟩) fun compression r' hcompression => ?_
  · rw [taking_u8, Option.map_eq_none_iff] at hnone
    exact h.ends (iff_of_true trivial (by simp [ServerClear, serverRest, hcut, hnone])) (le_behind hb₀ hb)
  have hr := u8_took hcompression
  have hcut' : cut 1 r = some ([compression], r') := cut_eq_some.mpr ⟨rfl, hr⟩
  simp only [hr, List.append_assoc [compression]] at hb
  refine ends_say h hb rfl (ofBigEndian_singleton compression) fun t h hb => ?_
  exact (extensionBlockInto_contract r' path false).last h hb (by simp [ServerClear, serverRest, hcut, hcut'])
    (Nat.le_of_eq (length_behind hb₀ hb))

theorem no_null_length {m compression : Bytes} (hm : m.length = 1) (hnum : ofBigEndian m = compression.length)
    (hnull : (m ++ rest).take compression.length = [0]) : False := by
  obtain ⟨x, rfl⟩ := List.length_eq_one_iff.mp hm
  rw [ofBigEndian_singleton] at hnum
  match compression, hnum, hnull with
  | [], _, hnull => exact nomatch hnull
  | y :: ys, hnum, hnull =>
    have hx : x = 0 := (List.cons.inj hnull).1
    rw [hx] at hnum
    exact nomatch hnum

theorem clientRestInto_contract (left : Bytes) (path : String) :
    Contract True left (ClientClear left) (clientRestInto left path) := by
  intro bytes before after w hb₀
  have h := Going.start bytes w before.length
  have hb := hb₀
  unfold clientRestInto
  refine ends_read (fun e hnone => ⟨.inl trivial, ?_⟩) fun suites r hsuites => ?_
  · rw [Read.vec16, taking_vec] at hnone
    exact h.ends (iff_of_true trivial (by simp [ClientClear, clientLists, hnone])) (le_behind hb₀ hb)
  obtain ⟨n, hn, hnum, hleft⟩ := vec_took hsuites
  rw [Read.vec16, taking_vec] at hsuites
  simp only [hleft, List.append_assoc] at hb
  refine ends_say h hb hn hnum fun t h hb => ends_bind.mpr ((pairsInto_ends h hb).mono fun u t ht => ?_)
  obtain ⟨rfl, h⟩ := ht
  rw [← List.append_assoc] at hb
  have hbehind := length_behind hb₀ hb
  rw [List.length_append] at hbehind
  refine ends_read (fun e hnone => ⟨.inl trivial, ?_⟩) fun compression r' hcompression => ?_
  · rw [Read.vec8, taking_vec] at hnone
    exact h.ends (iff_of_true trivial (by simp [ClientClear, clientLists, hsuites, hnone])) (by omega)
  obtain ⟨m, hm, hmnum, hr⟩ := vec_took hcompression
  rw [Read.vec8, taking_vec] at hcompression
  have hclear : ClientClear left ↔ suites.length % 2 = 0 ∧ compression = [0] ∧ BlockClear true r' := by
    simp [ClientClear, clientLists, hsuites, hcompression]
  simp only [hr, List.append_assoc m, List.append_assoc compression] at hb
  by_cases heven : suites.length % 2 = 0
  · -- the walk is where the reader is
    rw [show (before ++ n).length + suites.length / 2 * 2 = (before ++ n ++ suites).length by
      rw [@List.length_append _ (before ++ n)]; omega] at h
    refine ends_say h hb hm hmnum fun t h hb => ends_show h hb rfl Iff.rfl fun t h hb => ?_
    refine (extensionBlockInto_contract r' path true).last h hb ?_ (Nat.le_of_eq (length_behind hb₀ hb))
    rw [true_and, hclear]
    exact ⟨fun h => ⟨heven, h⟩, fun h => h.2⟩
  · -- `null(0)` stands on the length of the compression methods
    have hodd : (before ++ n).length + suites.length / 2 * 2 + 1 = (before ++ n ++ suites).length := by
      rw [@List.length_append _ (before ++ n)]
      omega
    have hb' : bytes = (before ++ n ++ suites ++ m ++ compression) ++ (r' ++ after) := by
      rw [hb]
      simp only [List.append_assoc]
    refine ends_add.mpr (ends_add.mpr ?_)
    have hwrong (hexact : w.pos = before.length) : ¬ (Shown.constant [0] "null(0) — TLS 1.3 allows nothing else").IsOf
        ((bytes.drop (t.pos + 1)).take compression.length) := by
      rw [h.keeps hexact, hodd, hb, List.drop_left]
      exact fun hnull => no_null_length hm hmnum hnull
    refine ((extensionBlockInto_contract r' path true) bytes _ after _ hb').mono fun u t' ht => ⟨.inl trivial, ?_, ?_⟩
    · obtain ⟨d, hblock⟩ := ht.2.1.some_truth
      refine (((h.wrote.push fun _ => Iff.rfl).push fun hexact => iff_false_intro (hwrong hexact)).trans hblock).iff
        fun _ => iff_of_false (fun hfalse => hfalse.1.2) fun hclient => heven (hclear.mp hclient).1
    · have hle := h.le
      have hle' := ht.2.2
      have hbehind' := length_behind hb₀ hb'
      simp only [Walk.push, List.length_append] at hle' hbehind' hle
      omega

variable {path : String}

theorem ends_session {client : Bool} {session : Bytes} {k : Unit → Into Unit}
    {Q : Except TlsError Unit → Walk → Prop} (h : Going bytes base c w w' before.length)
    (hb : bytes = before ++ (session ++ rest))
    (hk : ∀ t, Going bytes base c w t (before ++ session).length → bytes = (before ++ session) ++ rest →
      Ends False Q (k () t)) : Ends False Q ((sessionIdInto session path client >>= k) w') := by
  unfold sessionIdInto
  by_cases hempty : session = []
  · subst hempty
    rw [if_pos rfl]
    exact hk w' (by rwa [List.append_nil]) (by rwa [List.append_nil])
  · rw [if_neg hempty]
    exact ends_say h hb rfl rfl hk

theorem helloInto_contract (body : Bytes) (path : String) (client : Bool) :
    Contract True body (HelloClear client body) (helloInto body path client) := by
  intro bytes before after w hb₀
  have h := Going.start bytes w before.length
  have hb := hb₀
  unfold helloInto
  refine ends_read (fun e hnone => ⟨.inl trivial, ?_⟩) fun version r₁ hversion => ?_
  · rw [taking_u16, Option.map_eq_none_iff] at hnone
    exact h.ends (iff_of_true trivial (by simp [HelloClear, helloRest, hnone])) (le_behind hb₀ hb)
  have hbody := u16_took hversion
  have hcut : cut 2 body = some (u16Bytes version, r₁) := cut_eq_some.mpr ⟨rfl, hbody⟩
  simp only [hbody, List.append_assoc] at hb
  refine ends_say h hb rfl (ofBigEndian_u16Bytes version) fun t h hb => ?_
  refine ends_read (fun e hnone => ⟨.inl trivial, ?_⟩) fun random r₂ hrandom => ?_
  · rw [taking_take] at hnone
    exact h.ends (iff_of_true trivial (by simp [HelloClear, helloRest, hcut, hnone])) (le_behind hb₀ hb)
  obtain ⟨hrlen, hr₁⟩ := take_took hrandom
  rw [taking_take] at hrandom
  simp only [hr₁, List.append_assoc random] at hb
  refine ends_say h hb hrlen rfl fun t h hb => ?_
  refine ends_read (fun e hnone => ⟨.inl trivial, ?_⟩) fun session r₃ hsession => ?_
  · rw [Read.vec8, taking_vec] at hnone
    exact h.ends (iff_of_true trivial (by simp [HelloClear, helloRest, hcut, hrandom, hnone])) (le_behind hb₀ hb)
  obtain ⟨n, hn, hnum, hr₂⟩ := vec_took hsession
  rw [Read.vec8, taking_vec] at hsession
  simp only [hr₂, List.append_assoc n, List.append_assoc session] at hb
  refine ends_say h hb hn hnum fun t h hb => ends_session h hb fun t h hb => ?_
  have hclear : HelloClear client body ↔ if client then ClientClear r₃ else ServerClear r₃ := by
    simp [HelloClear, helloRest, hcut, hrandom, hsession]
  have hlen := Nat.le_of_eq (length_behind hb₀ hb)
  rw [hclear]
  cases client with
  | true => exact (clientRestInto_contract r₃ path).last h hb (by simp) hlen
  | false => exact (serverRestInto_contract r₃ path).last h hb (by simp) hlen

/-! ## Certificates and tickets -/

theorem certificates_right (path : String) (i : Nat) :
    Right fun left => rounds (certificateRound path) (left.length + 1) (left, i) := by
  refine right_rounds (fun {bytes before left rest base c w w' i} h hb => ?_) i
  unfold certificateRound
  dsimp only
  by_cases hl : left = []
  · rw [if_pos hl]
    exact ⟨rfl, trivial, h⟩
  · rw [if_neg hl]
    cases hcert : taking (Read.vec24 path "cert_data") left with
    | error _ => exact ⟨rfl, trivial, h⟩
    | ok p =>
      obtain ⟨cert, l₁⟩ := p
      obtain ⟨n, hn, hnum, hl₁⟩ := vec_took (congrArg Except.toOption hcert)
      dsimp only
      cases hexts : taking (Read.vec16 path "extensions") l₁ with
      | error _ => exact ⟨rfl, trivial, h⟩
      | ok p =>
        obtain ⟨exts, l₂⟩ := p
        obtain ⟨m, hm, hmnum, hl₂⟩ := vec_took (congrArg Except.toOption hexts)
        simp only [hl₁, hl₂, List.append_assoc] at hb
        refine ends_say h hb hn hnum fun t h hb => ends_say h hb rfl trivial fun t h hb => ends_say h hb hm hmnum
          fun t h _ => ends_skip.mpr ?_
        refine ⟨n ++ cert ++ m ++ exts, True, ?_, ?_, by simp only [and_true], ?_⟩
        · simp [List.ne_nil_of_length_eq_add_one hn]
        · simp only [hl₁, hl₂, List.append_assoc]
        · simp only [and_true, ← List.append_assoc]
          exact h.skip rfl

theorem certificateInto_contract (body : Bytes) (path : String) :
    Contract True body True (certificateInto body path) := by
  intro bytes before after w hb₀
  have h := Going.start bytes w before.length
  have hb := hb₀
  unfold certificateInto
  refine ends_read (fun e _ => ⟨.inl trivial, h.ends Iff.rfl (le_behind hb₀ hb)⟩) fun context r hcontext => ?_
  obtain ⟨n, hn, hnum, hbody⟩ := vec_took hcontext
  simp only [hbody, List.append_assoc] at hb
  refine ends_say h hb hn hnum fun t h hb => ends_skip.mpr ?_
  rw [← List.append_assoc] at hb
  have h := h.skip (v := context) rfl
  refine ends_read (fun e _ => ⟨.inl trivial, h.ends Iff.rfl (le_behind hb₀ hb)⟩) fun list r' hlist => ?_
  obtain ⟨m, hm, hmnum, hr⟩ := vec_took hlist
  simp only [hr, List.append_assoc m, List.append_assoc list] at hb
  refine ends_say h hb hm hmnum fun t h hb => (certificates_right path 0 h hb).mono fun u t ht => ⟨.inl trivial, ?_⟩
  obtain ⟨-, pos, hgoing, hpos⟩ := ht
  rw [← List.append_assoc] at hb
  have hbehind := le_behind hb₀ hb
  rw [List.length_append] at hbehind
  exact hgoing.ends Iff.rfl (by omega)

theorem certificateVerifyInto_contract (body : Bytes) (path : String) :
    Contract True body True (certificateVerifyInto body path) := by
  intro bytes before after w hb₀
  have h := Going.start bytes w before.length
  have hb := hb₀
  unfold certificateVerifyInto
  refine ends_read (fun e _ => ⟨.inl trivial, h.ends Iff.rfl (le_behind hb₀ hb)⟩) fun algorithm r halgorithm => ?_
  have hbody := u16_took halgorithm
  simp only [hbody, List.append_assoc] at hb
  refine ends_say h hb rfl rfl fun t h hb => ?_
  refine ends_read (fun e _ => ⟨.inl trivial, h.ends Iff.rfl (le_behind hb₀ hb)⟩) fun signature r' hsignature => ?_
  obtain ⟨n, hn, hnum, hr⟩ := vec_took hsignature
  simp only [hr, List.append_assoc n, List.append_assoc signature] at hb
  refine ends_say h hb hn hnum fun t h hb => ⟨.inl trivial, ?_⟩
  refine Going.ends (Going.say h hb rfl ?_) Iff.rfl (le_behind hb₀ (hb.trans (List.append_assoc ..).symm))
  exact rfl

theorem newSessionTicketInto_contract (body : Bytes) (path : String) :
    Contract True body True (newSessionTicketInto body path) := by
  intro bytes before after w hb₀
  have h := Going.start bytes w before.length
  have hb := hb₀
  unfold newSessionTicketInto
  refine ends_read (fun e _ => ⟨.inl trivial, h.ends Iff.rfl (le_behind hb₀ hb)⟩) fun lifetime r₁ hlifetime => ?_
  have hbody := u32_took hlifetime
  simp only [hbody, List.append_assoc] at hb
  refine ends_say h hb rfl (ofBigEndian_u32Bytes lifetime) fun t h hb => ?_
  refine ends_read (fun e _ => ⟨.inl trivial, h.ends Iff.rfl (le_behind hb₀ hb)⟩) fun ageAdd r₂ hageAdd => ?_
  have hr₁ := u32_took hageAdd
  simp only [hr₁, List.append_assoc (u32Bytes ageAdd)] at hb
  refine ends_say h hb rfl (ofBigEndian_u32Bytes ageAdd) fun t h hb => ?_
  refine ends_read (fun e _ => ⟨.inl trivial, h.ends Iff.rfl (le_behind hb₀ hb)⟩) fun nonce r₃ hnonce => ?_
  obtain ⟨n, hn, hnum, hr₂⟩ := vec_took hnonce
  simp only [hr₂, List.append_assoc n, List.append_assoc nonce] at hb
  refine ends_say h hb hn hnum fun t h hb => ends_say h hb rfl rfl fun t h hb => ?_
  refine ends_read (fun e _ => ⟨.inl trivial, h.ends Iff.rfl (le_behind hb₀ hb)⟩) fun ticket r₄ hticket => ?_
  obtain ⟨m, hm, hmnum, hr₃⟩ := vec_took hticket
  simp only [hr₃, List.append_assoc m, List.append_assoc ticket] at hb
  refine ends_say h hb hm hmnum fun t h hb => ends_say h hb rfl rfl fun t h hb => ?_
  refine ends_read (fun e _ => ⟨.inl trivial, h.ends Iff.rfl (le_behind hb₀ hb)⟩) fun exts r₅ hexts => ?_
  obtain ⟨k, hk, hknum, hr₄⟩ := vec_took hexts
  simp only [hr₄, List.append_assoc k, List.append_assoc exts] at hb
  refine ends_say h hb hk hknum fun t h hb => ⟨.inl trivial, ?_⟩
  exact (h.skip (v := exts) rfl).ends Iff.rfl (le_behind hb₀ (hb.trans (List.append_assoc ..).symm))

/-! ## Messages -/

def BodyClear (message : HandshakeMessage) : Prop :=
  if message.msgType = .clientHello then HelloClear true message.body
  else if message.msgType = .serverHello then HelloClear false message.body
  else if message.msgType = .encryptedExtensions then BlockClear false message.body
  else True

theorem whole_contract (left : Bytes) (field : String) (value : Shown) (varies : Bool) {d : Prop}
    (hvalue : value.IsOf left ↔ d) :
    Contract False left d (Action.modify fun w => w.push left.length field value varies) := by
  intro bytes before after w hb
  refine ⟨.inr rfl, ((Going.start bytes w before.length).add hb rfl hvalue).ends (by rw [true_and]) ?_⟩
  rw [List.length_append]

theorem bodyInto_contract (message : HandshakeMessage) (path : String) :
    Contract True message.body (BodyClear message) (bodyInto message path) := by
  unfold bodyInto BodyClear
  by_cases hclient : message.msgType = .clientHello
  · simp only [if_pos hclient]
    exact helloInto_contract _ path true
  simp only [if_neg hclient]
  by_cases hserver : message.msgType = .serverHello
  · simp only [if_pos hserver]
    exact helloInto_contract _ path false
  simp only [if_neg hserver]
  by_cases hencrypted : message.msgType = .encryptedExtensions
  · simp only [if_pos hencrypted]
    exact extensionBlockInto_contract _ path false
  simp only [if_neg hencrypted]
  by_cases hcertificate : message.msgType = .certificate
  · simp only [if_pos hcertificate]
    exact certificateInto_contract _ path
  simp only [if_neg hcertificate]
  by_cases hverify : message.msgType = .certificateVerify
  · simp only [if_pos hverify]
    exact certificateVerifyInto_contract _ path
  simp only [if_neg hverify]
  by_cases hfinished : message.msgType = .finished
  · simp only [if_pos hfinished]
    refine (whole_contract _ _ _ true (iff_true_intro ?_)).may
    exact rfl
  simp only [if_neg hfinished]
  by_cases hticket : message.msgType = .newSessionTicket
  · simp only [if_pos hticket]
    exact newSessionTicketInto_contract _ path
  simp only [if_neg hticket]
  by_cases hupdate : message.msgType = .keyUpdate
  · simp only [if_pos hupdate]
    cases message.body with
    | nil => exact Contract.nothing []
    | cons b rest =>
      intro bytes before after w hb
      have hb₁ : bytes = before ++ ([b] ++ (rest ++ after)) := hb
      refine ⟨.inl trivial, Going.ends (Going.say (Going.start bytes w before.length) hb₁ rfl ?_) Iff.rfl ?_⟩
      · exact rfl
      · simp only [List.length_append, List.length_cons, List.length_nil]
        omega
  · simp only [if_neg hupdate]
    refine (whole_contract _ _ _ false (iff_true_intro ?_)).may
    exact rfl

variable {message : HandshakeMessage}

theorem parse_took {used : Nat} (h : HandshakeMessage.parse left = .ok (message, used)) :
    ∃ n : Bytes, n.length = 3 ∧ ofBigEndian n = message.body.length ∧ used = 4 + message.body.length ∧
      left = ([message.msgType.code] ++ n ++ message.body) ++ left.drop used := by
  unfold HandshakeMessage.parse at h
  split at h
  · rename_i t l₂ l₁ l₀ rest
    dsimp only at h
    split at h
    · exact nomatch h
    · rename_i hlong
      cases h
      have hlen := List.length_take_of_le (Nat.not_lt.mp hlong)
      refine ⟨[l₂, l₁, l₀], rfl, hlen.symm, by rw [hlen], ?_⟩
      generalize ofBigEndian [l₂, l₁, l₀] = k
      rw [Nat.add_comm 4]
      exact congrArg ([t, l₂, l₁, l₀] ++ ·) (List.take_append_drop _ rest).symm
  · exact nomatch h

theorem handshakeInto_contract (message : HandshakeMessage) (path : String) {n : Bytes} (hn : n.length = 3)
    (hnum : ofBigEndian n = message.body.length) :
    Contract False ([message.msgType.code] ++ n ++ message.body) (BodyClear message) (handshakeInto message path) := by
  intro bytes before after w hb
  simp only [List.append_assoc] at hb
  unfold handshakeInto
  refine ends_say (Going.start bytes w before.length) hb rfl rfl fun t h hb => ends_say h hb hn hnum fun t h hb => ?_
  refine ends_bind.mpr (ends_get.mpr (ends_bind.mpr (ends_attempt.mpr (((bodyInto_contract message path).within h
    hb).mono fun r t' ht => ⟨.inr rfl, ?_⟩))))
  obtain ⟨-, hwrote, hle⟩ := ht
  refine (h.over hwrote hle).ends (by rw [true_and]) ?_
  simp only [List.length_append]
  omega

/-! ## Flights -/

theorem Recorded.exactly {exact' : Prop} {start stop : Nat} {a b : List FieldAnn} {exact : Prop}
    (h : Recorded bytes exact c start stop a b) (hexact : exact) : Recorded bytes exact' c start stop a b := by
  obtain ⟨new, rfl, hclimbs, htruth⟩ := h
  exact ⟨new, rfl, hclimbs, fun _ => htruth hexact⟩

/-- What the walks over records have written when they have come to the end of `b`. -/
def Written (bytes : Bytes) (c : Prop) (b : Bytes) (w : Walk) : Prop :=
  Recorded bytes True c 0 b.length [] w.fields

theorem subWalk_ends {b : Bytes} {used : Nat} (h : Written bytes c b w)
    (hb : bytes = b ++ (left ++ after)) (hparse : HandshakeMessage.parse left = .ok (message, used)) :
    Ends False (fun r t => r = .ok () ∧ Written bytes (c ∧ BodyClear message) (b ++ left.take used) t)
      (subWalk b.length message path w) := by
  obtain ⟨n, hn, hnum, hused, hleft⟩ := parse_took hparse
  have htake : left.take used = [message.msgType.code] ++ n ++ message.body := by
    rw [hleft, List.take_append_of_le_length (by simp [hn]; omega), List.take_of_length_le (by simp [hn]; omega)]
  have hb' : bytes = b ++ (([message.msgType.code] ++ n ++ message.body) ++ (left.drop used ++ after)) := by
    rw [hb, ← List.append_assoc _ (left.drop used), ← hleft]
  obtain ⟨r, t, hrun, -, hwrote, hpos⟩ :=
    (handshakeInto_contract message path hn hnum bytes b _ (.startAt b.length) hb').comes
  refine ends_of_some (congrArg (Option.map _) hrun) ⟨rfl, ?_⟩
  obtain ⟨new, hnew, hclimbs, htruth⟩ := hwrote
  have hmessage : Recorded bytes True (BodyClear message) b.length (b ++ left.take used).length w.fields
      (w.fields ++ t.fields) := by
    refine ⟨new, by rw [hnew]; rfl, hclimbs.mono le_rfl ?_, fun _ => htruth rfl⟩
    rw [htake, List.length_append]
    exact hpos
  exact h.trans hmessage

def firstMessage (left : Bytes) : Option (HandshakeMessage × Bytes) :=
  match HandshakeMessage.parse left with
  | .ok (message, used) => some (message, left.drop used)
  | .error _ => none

def FlightClear (left : Bytes) : Prop := ∀ message, Among firstMessage left message → BodyClear message

theorem message_item {ι α : Type} (leftOf : ι → Bytes) {Q : Except TlsError α → Prop} {i j : ι} {b : Bytes} {used : Nat} (h : Written bytes c b w)
    (hb : bytes = b ++ (leftOf i ++ after)) (hparse : HandshakeMessage.parse (leftOf i) = .ok (message, used))
    (hj : leftOf j = (leftOf i).drop used) :
    Ends False (fun r t => r = .ok () ∧ Item leftOf FlightClear (Written bytes) Q c b i (.ok (.inl j)) t)
      (subWalk b.length message path w) := by
  refine (subWalk_ends h hb hparse).mono fun r t ht => ⟨ht.1, ?_⟩
  obtain ⟨n, -, -, hused, hleft⟩ := parse_took hparse
  have hfirst : firstMessage (leftOf i) = some (message, leftOf j) := by rw [hj, firstMessage, hparse]
  refine ⟨(leftOf i).take used, BodyClear message, ?_, ?_, forall_among_of_some hfirst, ht.2⟩
  · rw [hleft, hused]
    simp
  · rw [hj, List.take_append_drop]

theorem flightClear_of_error {e : TlsError} (h : HandshakeMessage.parse left = .error e) : FlightClear left :=
  forall_among_of_none (by rw [firstMessage, h])

theorem flightClear_of_nil (h : left = []) : FlightClear left := by
  subst h
  exact flightClear_of_error rfl

theorem messages_ends {fragment before : Bytes} {start : Nat} {fieldPrefix : String} (h : Written bytes c before w)
    (hb : bytes = before ++ (fragment ++ after)) (hstart : before.length = start) :
    Ends False (fun r t => (∃ a, r = .ok a) ∧ ∃ b, Written bytes (c ∧ FlightClear fragment) b t ∧
      b.length ≤ before.length + fragment.length)
      (rounds (messageRound fragment start fieldPrefix) (fragment.length + 1) (0, 0) w) := by
  refine ends_items (fun r : Nat × Nat => fragment.drop r.1) FlightClear (P := Written bytes)
    (Q := fun r => ∃ a, r = .ok a) (i := (0, 0)) hb h (Nat.lt_succ_self _) ?_
  rintro ⟨inner, n⟩ t b c hb' h
  unfold messageRound
  dsimp only at hb' ⊢
  by_cases hinner : inner < fragment.length
  · rw [if_pos hinner]
    refine (ends_tail (Nat.le_of_lt hinner)).mpr ?_
    have hlength := length_behind hb hb'
    rw [List.length_drop] at hlength
    cases hparse : HandshakeMessage.parse (fragment.drop inner) with
    | error e => exact ⟨⟨_, rfl⟩, flightClear_of_error hparse, h⟩
    | ok p =>
      obtain ⟨message, used⟩ := p
      rw [show start + inner = b.length by omega]
      refine ends_bind.mpr ((message_item (fun r : Nat × Nat => fragment.drop r.1)
        (Q := fun r : Except TlsError Unit => ∃ a, r = .ok a) (i := (inner, n)) (j := (inner + used, n + 1)) h hb'
        hparse List.drop_drop.symm).mono fun r t ht => ?_)
      obtain ⟨rfl, hitem⟩ := ht
      exact hitem
  · rw [if_neg hinner]
    exact ⟨⟨_, rfl⟩, flightClear_of_nil (List.drop_eq_nil_of_le (Nat.not_lt.mp hinner)), h⟩

theorem flight_ends (bytes : Bytes) :
    Ends False (fun r t => (∃ a, r = .ok a) ∧ ∃ b, Written bytes (FlightClear bytes) b t ∧ b.length ≤ bytes.length)
      (rounds (flightRound bytes) (bytes.length + 1) 0 (.startAt 0)) := by
  have hstart : Written bytes True [] (.startAt 0) := Recorded.none le_rfl
  have hb : bytes = [] ++ (bytes.drop 0 ++ []) := (List.append_nil bytes).symm
  refine (ends_items (fun offset => bytes.drop offset) FlightClear (P := Written bytes) (Q := fun r => ∃ a, r = .ok a)
    (i := 0) hb hstart (Nat.lt_succ_self _) ?_).mono fun r t ht => ?_
  · intro offset t b c hb' h
    unfold flightRound
    by_cases hoffset : offset < bytes.length
    · rw [if_pos hoffset]
      refine (ends_tail (Nat.le_of_lt hoffset)).mpr ?_
      have hlength := length_behind hb hb'
      simp only [List.length_drop, List.length_nil] at hlength
      cases hparse : HandshakeMessage.parse (bytes.drop offset) with
      | error e => exact ⟨⟨_, rfl⟩, flightClear_of_error hparse, h⟩
      | ok p =>
        obtain ⟨message, used⟩ := p
        obtain rfl : offset = b.length := by omega
        refine ends_bind.mpr ((message_item (fun offset => bytes.drop offset)
          (Q := fun r : Except TlsError Nat => ∃ a, r = .ok a) (j := b.length + used) h hb' hparse
          List.drop_drop.symm).mono fun r t ht => ?_)
        obtain ⟨rfl, hitem⟩ := ht
        exact hitem
    · rw [if_neg hoffset]
      exact ⟨⟨_, rfl⟩, flightClear_of_nil (List.drop_eq_nil_of_le (Nat.not_lt.mp hoffset)), h⟩
  · obtain ⟨hr, b, hwritten, hlen⟩ := ht
    rw [true_and, List.drop_zero] at hwritten
    exact ⟨hr, b, hwritten, by simpa using hlen⟩

/-! ## Records -/

def firstRecord (left : Bytes) : Option ((ContentType × Bytes) × Bytes) :=
  match left with
  | typeByte :: _ :: _ :: l₁ :: l₀ :: rest =>
    if ofBigEndian [l₁, l₀] ≤ rest.length then
      some ((ContentType.fromU8 typeByte, rest.take (ofBigEndian [l₁, l₀])), rest.drop (ofBigEndian [l₁, l₀]))
    else none
  | _ => none

def FragmentClear : ContentType → Bytes → Prop
  | .handshake, fragment => FlightClear fragment
  | .changeCipherSpec, fragment => fragment = [1]
  | _, _ => True

def RecordsClear (left : Bytes) : Prop := ∀ record, Among firstRecord left record → FragmentClear record.1 record.2

theorem asU8_levelFromU8 (b : UInt8) : (AlertLevel.fromU8 b).asU8 = b := by
  unfold AlertLevel.fromU8
  by_cases hwarning : b = 1
  · rw [if_pos hwarning, hwarning]
    rfl
  rw [if_neg hwarning]
  by_cases hfatal : b = 2
  · rw [if_pos hfatal, hfatal]
    rfl
  · rw [if_neg hfatal]
    rfl

theorem alert_took {fragment : Bytes} {alert : Alert} (h : Alert.parse fragment = .ok alert) :
    fragment = [alert.level.asU8, alert.description.code] := by
  unfold Alert.parse at h
  split at h
  · cases h
    rw [asU8_levelFromU8]
  · exact nomatch h

theorem fragmentInto_ends {fragment before : Bytes} {contentType : ContentType} {offset : Nat} {fieldPrefix : String}
    (h : Written bytes c before w) (hb : bytes = before ++ (fragment ++ after)) (hoffset : before.length = offset + 5)
    (hpos : w.pos = before.length) :
    Ends False (fun r t => r = .ok () ∧ Written bytes (c ∧ FragmentClear contentType fragment) (before ++ fragment) t)
      (fragmentInto contentType fragment offset fieldPrefix w) := by
  -- the arms that annotate in place
  have hcontract {d : Prop} {x : Into Unit} (hx : Contract False fragment d x) :
      Ends False (fun r t => r = .ok () ∧ Written bytes (c ∧ d) (before ++ fragment) t) (x w) := by
    refine (hx bytes before after w hb).mono fun r t ht => ⟨ht.1.resolve_left id, ?_⟩
    obtain ⟨-, hwrote, hle⟩ := ht
    rw [hpos] at hwrote hle
    exact h.trans ((hwrote.exactly rfl).mono (by rw [List.length_append]; exact hle))
  cases contentType with
  | handshake =>
    refine ends_bind.mpr ((messages_ends h hb hoffset).mono fun r t ht => ?_)
    obtain ⟨⟨a, rfl⟩, b, hwritten, hlen⟩ := ht
    exact ⟨rfl, hwritten.mono (by rw [List.length_append]; exact hlen)⟩
  | changeCipherSpec => exact hcontract (whole_contract _ _ _ false Iff.rfl)
  | applicationData => exact hcontract (whole_contract _ _ _ true (iff_true_intro rfl))
  | other b => exact hcontract (whole_contract _ _ _ false (iff_true_intro rfl))
  | alert =>
    refine hcontract (d := True) ?_
    intro bytes before after w hb
    have h := Going.start bytes w before.length
    unfold fragmentInto
    cases halert : Alert.parse fragment with
    | error e =>
      refine ⟨.inr rfl, (h.skip (v := fragment) rfl).ends Iff.rfl ?_⟩
      rw [List.length_append]
    | ok alert =>
      obtain rfl := alert_took halert
      have hb' : bytes = before ++ ([alert.level.asU8] ++ ([alert.description.code] ++ after)) := hb
      refine ends_say h hb' rfl rfl fun t h hb => ⟨.inr rfl, ?_⟩
      refine Going.ends (Going.say h hb rfl ?_) Iff.rfl ?_
      · exact rfl
      · simp only [List.length_append, List.length_cons, List.length_nil]
        omega

theorem header_of_le {left : Bytes} (h : 5 ≤ left.length) :
    ∃ t v₁ v₀ l₁ l₀ rest, left = t :: v₁ :: v₀ :: l₁ :: l₀ :: rest := by
  match left, h with
  | t :: v₁ :: v₀ :: l₁ :: l₀ :: rest, _ => exact ⟨t, v₁, v₀, l₁, l₀, rest, rfl⟩

theorem firstRecord_of_short (h : left.length < 5) : firstRecord left = none := by
  match left, h with
  | [], _ => rfl
  | [_], _ => rfl
  | [_, _], _ => rfl
  | [_, _, _], _ => rfl
  | [_, _, _, _], _ => rfl

theorem record_item {b : Bytes} {typeByte v₁ v₀ l₁ l₀ : UInt8} {i : Nat} (h : Written bytes c b w)
    (hb : bytes = b ++ (typeByte :: v₁ :: v₀ :: l₁ :: l₀ :: rest)) :
    Ends False (Item (fun r : Nat × Nat => bytes.drop r.1) RecordsClear (Written bytes) (fun r => ∃ a, r = .ok a) c b
      (b.length, i)) (recordRound bytes (b.length, i) w) := by
  have hdrop (k : Nat) : bytes.drop (b.length + k) = (typeByte :: v₁ :: v₀ :: l₁ :: l₀ :: rest).drop k := by
    rw [← List.drop_drop, hb, List.drop_left]
  have hlength : bytes.length = b.length + (rest.length + 5) := by
    rw [hb, List.length_append]
    rfl
  have hleft : bytes.drop b.length = typeByte :: v₁ :: v₀ :: l₁ :: l₀ :: rest := hdrop 0
  set n := ofBigEndian [l₁, l₀] with hn
  have hnum : (UInt16.ofNat n).toNat = n := u16_toNat_of_bytes rfl
  unfold recordRound
  dsimp only
  rw [if_pos (by omega)]
  refine (ends_u16At (by omega)).mpr ?_
  rw [hdrop 3]
  simp only [List.drop_succ_cons, List.drop_zero, List.take_succ_cons, List.take_zero]
  rw [← hn, hnum]
  by_cases hlong : n ≤ rest.length
  · rw [if_neg (by omega)]
    have htype : bytes[b.length] = typeByte := by
      rw [List.drop_eq_getElem_cons (by omega)] at hleft
      exact (List.cons.inj hleft).1
    refine (ends_index (by omega)).mpr (ends_setPos.mpr ?_)
    rw [htype]
    have hb₁ : bytes = b ++ ([typeByte] ++ ([v₁, v₀] ++ ([l₁, l₀] ++ (rest.take n ++ rest.drop n)))) := by
      rw [List.take_append_drop]
      exact hb
    refine ends_say (Going.start bytes _ b.length) hb₁ rfl rfl fun t ht hb₁ => (ends_u16At (by omega)).mpr ?_
    rw [hdrop 1]
    simp only [List.drop_succ_cons, List.drop_zero, List.take_succ_cons, List.take_zero]
    refine ends_say ht hb₁ rfl (u16_toNat_of_bytes rfl).symm fun t ht hb₁ => ends_say ht hb₁ rfl rfl fun t ht hb₁ => ?_
    refine (ends_slice ⟨by omega, by omega⟩).mpr ?_
    rw [hdrop 5, Nat.add_sub_cancel_left]
    simp only [List.drop_succ_cons, List.drop_zero]
    have hheader : Written bytes c (b ++ [typeByte] ++ [v₁, v₀] ++ [l₁, l₀]) t := by
      have hwrote := ht.wrote
      rw [ht.keeps rfl] at hwrote
      exact (h.trans (hwrote.exactly rfl)).iff fun _ => and_iff_left trivial
    refine ends_bind.mpr ((fragmentInto_ends hheader hb₁ (by simp) (ht.keeps rfl)).mono fun r t ht => ?_)
    obtain ⟨rfl, hwritten⟩ := ht
    have hrest : bytes.drop (b.length + 5 + n) = rest.drop n := by
      rw [Nat.add_assoc, ← List.drop_drop, hleft, ← List.drop_drop]
      rfl
    have hfirst : firstRecord (bytes.drop b.length) =
        some ((ContentType.fromU8 typeByte, rest.take n), bytes.drop (b.length + 5 + n)) := by
      rw [hleft, hrest, firstRecord, if_pos hlong]
    refine ⟨typeByte :: v₁ :: v₀ :: l₁ :: l₀ :: rest.take n, FragmentClear (ContentType.fromU8 typeByte) (rest.take n),
      List.cons_ne_nil _ _, ?_, forall_among_of_some hfirst, ?_⟩
    · dsimp only
      rw [hleft, hrest]
      simp only [List.cons_append, List.take_append_drop]
    · simpa using hwritten
  · rw [if_pos (by omega)]
    have hnone : firstRecord (bytes.drop b.length) = none := by rw [hleft, firstRecord, if_neg hlong]
    exact ⟨⟨_, rfl⟩, forall_among_of_none hnone, h⟩

theorem records_ends (bytes : Bytes) :
    Ends False (fun r t => (∃ a, r = .ok a) ∧ ∃ b, Written bytes (RecordsClear bytes) b t ∧ b.length ≤ bytes.length)
      (rounds (recordRound bytes) (bytes.length + 1) (0, 0) (.startAt 0)) := by
  have hstart : Written bytes True [] (.startAt 0) := Recorded.none le_rfl
  have hb : bytes = [] ++ (bytes.drop 0 ++ []) := (List.append_nil bytes).symm
  refine (ends_items (fun r : Nat × Nat => bytes.drop r.1) RecordsClear (P := Written bytes)
    (Q := fun r => ∃ a, r = .ok a) (i := (0, 0)) hb hstart (Nat.lt_succ_self _) ?_).mono fun r t ht => ?_
  · rintro ⟨offset, i⟩ t b c hb' h
    by_cases hoffset : offset + 5 ≤ bytes.length
    · have hlength := length_behind hb hb'
      simp only [List.length_drop, List.length_nil] at hlength
      obtain rfl : offset = b.length := by omega
      obtain ⟨typeByte, v₁, v₀, l₁, l₀, rest, hleft⟩ := header_of_le (show 5 ≤ (bytes.drop b.length).length by
        rw [List.length_drop]; omega)
      rw [hleft, List.append_nil] at hb'
      exact record_item h hb'
    · unfold recordRound
      dsimp only
      rw [if_neg hoffset]
      refine ⟨⟨_, rfl⟩, forall_among_of_none (firstRecord_of_short ?_), h⟩
      rw [List.length_drop]
      omega
  · obtain ⟨hr, b, hwritten, hlen⟩ := ht
    rw [true_and, List.drop_zero] at hwritten
    exact ⟨hr, b, hwritten, by simpa using hlen⟩

end

/-! ## The three walks -/

def HandshakeClear (bytes : Bytes) : Prop :=
  ∀ message used, HandshakeMessage.parse bytes = .ok (message, used) → BodyClear message

/-- What a walk over all of `bytes` gives: annotations that climb and that are truthful just when `c` holds. -/
def Annotates (bytes : Bytes) (c : Prop) (run : Option (List FieldAnn × Bool)) : Prop :=
  ∃ fields clean, run = some (fields, clean) ∧ ∃ stop, Recorded bytes True c 0 stop [] fields ∧ stop ≤ bytes.length

section
variable {bytes : Bytes} {c : Prop} {run : Option (List FieldAnn × Bool)}

theorem Annotates.inside (h : Annotates bytes c run) : ∃ fields clean, run = some (fields, clean) ∧
    (∀ a ∈ fields, a.offset + a.length ≤ bytes.length) ∧ fields.Pairwise fun a b => a.offset + a.length ≤ b.offset := by
  obtain ⟨fields, clean, hrun, stop, ⟨new, hnew, hclimbs, -⟩, hstop⟩ := h
  obtain rfl : fields = new := hnew
  obtain ⟨hin, hordered⟩ := hclimbs.ordered
  exact ⟨fields, clean, hrun, fun a ha => Nat.le_trans (hin a ha).2 hstop, hordered⟩

end

theorem records_annotates (bytes : Bytes) : Annotates bytes (RecordsClear bytes) (records bytes) := by
  obtain ⟨r, t, hrun, ⟨offset, rfl⟩, b, hwritten, hlen⟩ := (records_ends bytes).comes
  have hrecords : records bytes = some (t.fields, decide (offset = bytes.length) && decide (bytes ≠ [])) := by
    rw [records, hrun]
  exact ⟨t.fields, _, hrecords, b.length, hwritten, hlen⟩

theorem handshakeFlight_annotates (bytes : Bytes) : Annotates bytes (FlightClear bytes) (handshakeFlight bytes) := by
  obtain ⟨r, t, hrun, ⟨offset, rfl⟩, b, hwritten, hlen⟩ := (flight_ends bytes).comes
  have hflight : handshakeFlight bytes = some (t.fields, decide (offset = bytes.length) && decide (bytes ≠ [])) := by
    rw [handshakeFlight, hrun]
  exact ⟨t.fields, _, hflight, b.length, hwritten, hlen⟩

theorem handshake_annotates (bytes : Bytes) : Annotates bytes (HandshakeClear bytes) (handshake bytes) := by
  unfold handshake
  cases hparse : HandshakeMessage.parse bytes with
  | error e =>
    refine ⟨[], false, rfl, 0, (Recorded.none le_rfl).iff fun _ => ?_, Nat.zero_le _⟩
    exact iff_of_true trivial fun message used h => nomatch hparse.symm.trans h
  | ok p =>
    obtain ⟨message, used⟩ := p
    obtain ⟨n, hn, hnum, hused, hbytes⟩ := parse_took hparse
    obtain ⟨r, t, hrun, -, hwrote, hpos⟩ :=
      (handshakeInto_contract message (shortName message.msgType) hn hnum bytes [] _ (.startAt 0) hbytes).comes
    refine ⟨t.fields, decide (used = bytes.length), by dsimp only; rw [hrun]; rfl, t.pos,
      (hwrote.exactly rfl).iff fun _ => ⟨fun hclear m u h => ?_, fun hclear => hclear message used hparse⟩, ?_⟩
    · cases hparse.symm.trans h
      exact hclear
    · have hlength := congrArg List.length hbytes
      rw [List.length_append] at hlength
      have hstart : t.pos ≤ 0 + ([message.msgType.code] ++ n ++ message.body).length := hpos
      omega

/-- **The walks are total** and stay inside: whatever the bytes are, the annotations lie in them, in order and without
overlap. -/
theorem annotations_inside (bytes : Bytes) : ∀ walk ∈ [records, handshake, handshakeFlight],
    ∃ fields clean, walk bytes = some (fields, clean) ∧ (∀ a ∈ fields, a.offset + a.length ≤ bytes.length) ∧
      fields.Pairwise fun a b => a.offset + a.length ≤ b.offset := by
  intro walk hwalk
  simp only [List.mem_cons, List.not_mem_nil, or_false] at hwalk
  rcases hwalk with rfl | rfl | rfl
  · exact (records_annotates bytes).inside
  · exact (handshake_annotates bytes).inside
  · exact (handshakeFlight_annotates bytes).inside

theorem annotations_inside_alert : ∃ fields clean, records [21, 3, 3, 0, 2, 1, 0] = some (fields, clean) ∧
    ∀ a ∈ fields, a.offset + a.length ≤ 7 := by
  obtain ⟨fields, clean, hwalk, hinside, -⟩ := annotations_inside [21, 3, 3, 0, 2, 1, 0] records (.head _)
  exact ⟨fields, clean, hwalk, hinside⟩

end BuildYourOwn.Tls
