import BuildYourOwn.Tls.Annotations

/-!
# The annotations of an extension

Each arm of `extension_body_into` with its contract.

* The length of a list is shown as what stands behind it, not as what is stored (`ListLengthTrue`).
* A server's `key_share` shows every byte behind the stored length and annotates no more than the length says.
* A `server_name` shows `host_name(0)` whatever the type is.

Results: `extensionBodyInto_contract`, and over a block `extensionBlockInto_contract`.
-/

namespace BuildYourOwn.Tls

open Lib Lib.Action

def ListLengthTrue (data : Bytes) : Prop := ofBigEndian (data.take 2) = data.length - 2

section
variable {bytes before rest after data left : Bytes} {base : Nat} {c : Prop} {w w' : Walk}

/-! ## Lists -/

theorem pairsInto_ends {field : Nat → String} {table : UInt16 → String} {i : Nat}
    (h : Going bytes base c w w' before.length) (hb : bytes = before ++ (left ++ rest)) :
    Ends False (fun r t => r = .ok () ∧ Going bytes base c w t (before.length + left.length / 2 * 2))
      (pairsInto field table i left w') := by
  induction i, left using pairsInto.induct generalizing before w' with
  | case1 i x y left ih =>
    unfold pairsInto
    have hxy : bytes = before ++ ([x, y] ++ (left ++ rest)) := hb
    have hb' : bytes = (before ++ [x, y]) ++ (left ++ rest) := by rw [hxy, List.append_assoc]
    have hsay : Going bytes base c w (w'.push 2 (field i) (.name table (UInt16.ofNat (ofBigEndian [x, y])) "") false)
        (before ++ [x, y]).length := h.say hxy rfl (u16_of_bytes rfl).symm
    refine (ih hsay hb').mono fun r t ht => ⟨ht.1, ?_⟩
    have hgoing := ht.2
    rw [List.length_append] at hgoing
    rwa [show before.length + (x :: y :: left).length / 2 * 2 = before.length + [x, y].length + left.length / 2 * 2 by
      simp only [List.length_cons, List.length_nil]; omega]
  | case2 left i hshort =>
    match left, hshort with
    | [], _ => exact ⟨rfl, h⟩
    | [x], _ => exact ⟨rfl, by simpa using h⟩
    | x :: y :: left, hshort => exact absurd rfl (hshort x y left)

theorem pairsInto_right (field : Nat → String) (table : UInt16 → String) (i : Nat) :
    Right (pairsInto field table i) := by
  intro bytes before left rest base c w w' h hb
  exact (pairsInto_ends h hb).mono fun r t ht => ⟨ht.1, _, ht.2, by omega⟩

theorem clientShares_right (path : String) (i : Nat) :
    Right fun left => rounds (clientShareRound path) (left.length + 1) (left, i) := by
  refine right_rounds (fun {bytes before left rest base c w w' i} h hb => ?_) i
  unfold clientShareRound
  dsimp only
  by_cases hl : left = []
  · rw [if_pos hl]
    exact ⟨rfl, trivial, h⟩
  · rw [if_neg hl]
    cases hgroup : taking (Read.u16 path "group") left with
    | error _ => exact ⟨rfl, trivial, h⟩
    | ok p =>
      obtain ⟨group, l₁⟩ := p
      have hl₁ := u16_took (congrArg Except.toOption hgroup)
      dsimp only
      cases hshare : taking (Read.vec16 path "key_exchange") l₁ with
      | error _ => exact ⟨rfl, trivial, h⟩
      | ok p =>
        obtain ⟨share, l₂⟩ := p
        obtain ⟨n, hn, hnum, hl₂⟩ := vec_took (congrArg Except.toOption hshare)
        simp only [hl₁, hl₂, List.append_assoc] at hb
        refine ends_say h hb rfl rfl fun t h hb => ends_say h hb hn hnum fun t h hb => ?_
        refine ends_say h hb rfl rfl fun t h _ => ?_
        refine ⟨u16Bytes group ++ n ++ share, True, ?_, ?_, by simp only [and_true], ?_⟩
        · exact List.append_ne_nil_of_left_ne_nil (List.append_ne_nil_of_left_ne_nil (List.cons_ne_nil _ _) _) _
        · simp only [hl₁, hl₂, List.append_assoc]
        · simp only [and_true, ← List.append_assoc]
          exact h

theorem protocols_right (path : String) (i : Nat) :
    Right fun left => rounds (protocolRound path) (left.length + 1) (left, i) := by
  refine right_rounds (fun {bytes before left rest base c w w' i} h hb => ?_) i
  unfold protocolRound
  dsimp only
  by_cases hl : left = []
  · rw [if_pos hl]
    exact ⟨rfl, trivial, h⟩
  · rw [if_neg hl]
    cases hname : taking (Read.vec8 path "protocol_name") left with
    | error _ => exact ⟨rfl, trivial, h⟩
    | ok p =>
      obtain ⟨name, l'⟩ := p
      obtain ⟨n, hn, hnum, hl'⟩ := vec_took (congrArg Except.toOption hname)
      simp only [hl', List.append_assoc] at hb
      refine ends_say h hb hn hnum fun t h hb => ends_say h hb rfl rfl fun t h _ => ?_
      refine ⟨n ++ name, True, ?_, ?_, by simp only [and_true], ?_⟩
      · exact List.append_ne_nil_of_left_ne_nil (List.ne_nil_of_length_eq_add_one hn) _
      · simp only [hl', List.append_assoc]
      · simp only [and_true, ← List.append_assoc]
        exact h

/-! ## The arms -/

theorem listed_contract {k : Bytes → Into Unit} (hk : Right k) {n : Nat} (hn : 2 ≤ n) (data : Bytes)
    (field note : String) :
    Contract False data (n ≤ data.length → ListLengthTrue data)
      (if data.length < n then pure ()
      else do
        Into.add 2 field (.number (data.length - 2) note)
        let rest ← Into.tail data 2
        k rest) := by
  intro bytes before after w hb
  by_cases hshort : data.length < n
  · rw [if_pos hshort]
    exact (Contract.nothing data).iff (iff_of_true trivial fun h => absurd h (by omega)) _ _ _ w hb
  · rw [if_neg hshort]
    match data, hb with
    | [], _ => exact absurd hshort (by simp; omega)
    | [a], _ => exact absurd hshort (by simp; omega)
    | a :: b :: rest, hb =>
      have hb₁ : bytes = before ++ ([a, b] ++ (rest ++ after)) := hb
      have hb₂ : bytes = (before ++ [a, b]) ++ (rest ++ after) := by rw [hb₁, List.append_assoc]
      have hadd : Going bytes before.length (True ∧ ListLengthTrue (a :: b :: rest)) w
          (w.push 2 field (.number ((a :: b :: rest).length - 2) note) false) (before ++ [a, b]).length :=
        (Going.start bytes w before.length).add hb₁ rfl Iff.rfl
      refine ends_add.mpr ((ends_tail (by simp)).mpr ((hk hadd hb₂).mono fun r t ht => ⟨.inr ht.1, ?_⟩))
      obtain ⟨pos, hgoing, hpos⟩ := ht.2
      refine hgoing.ends (by rw [true_and]; exact ⟨fun h _ => h, fun h => h (by omega)⟩) ?_
      simp only [List.length_append, List.length_cons, List.length_nil] at hpos ⊢
      omega

theorem codesInto_contract (data : Bytes) (list : String) (table : UInt16 → String) :
    Contract False data (2 ≤ data.length → ListLengthTrue data) (codesInto data list table) :=
  listed_contract (pairsInto_right _ _ _) le_rfl data _ _

theorem clientSharesInto_contract (data : Bytes) (path : String) :
    Contract False data (2 ≤ data.length → ListLengthTrue data) (clientSharesInto data path) :=
  listed_contract (clientShares_right _ _) le_rfl data _ _

theorem alpnInto_contract (data : Bytes) (path : String) :
    Contract False data (3 ≤ data.length → ListLengthTrue data) (alpnInto data path) :=
  listed_contract (protocols_right _ _) (by decide) data _ _

theorem cookieInto_contract (data : Bytes) (path : String) :
    Contract False data (2 ≤ data.length → ListLengthTrue data) (cookieInto data path) := by
  have hright : Right fun rest => Into.addVarying rest.length s!"{path}.cookie"
      (.hexPrefix "" rest " — echoed back in the second ClientHello") := by
    intro bytes before left rest base c w w' h hb
    exact ⟨rfl, _, h.say hb rfl rfl, by rw [List.length_append]⟩
  have hlisted := listed_contract hright le_rfl data s!"{path}.cookie.length" ""
  unfold cookieInto
  by_cases hshort : data.length < 2
  · rwa [if_pos hshort] at hlisted ⊢
  · rw [if_neg hshort] at hlisted ⊢
    intro bytes before after w hb
    have hrest := (ends_tail (by omega)).mp (ends_add.mp (hlisted bytes before after w hb))
    rw [List.length_drop] at hrest
    exact ends_add.mpr ((ends_tail (by omega)).mpr hrest)

theorem versionsInto_contract (data : Bytes) (path : String) : Contract False data True (versionsInto data path) := by
  intro bytes before after w hb
  unfold versionsInto
  match data, hb with
  | [], hb => exact Contract.nothing [] _ _ _ w hb
  | n :: rest, hb =>
    rw [if_neg (List.cons_ne_nil _ _)]
    have hb₁ : bytes = before ++ ([n] ++ (rest ++ after)) := hb
    have hb₂ : bytes = (before ++ [n]) ++ (rest ++ after) := by rw [hb₁, List.append_assoc]
    refine (ends_index (Nat.succ_pos _)).mpr (ends_add.mpr ((ends_tail (by simp)).mpr ?_))
    have hsay : Going bytes before.length True w (w.push 1 s!"{path}.versions.length" (.number n.toNat "") false)
        (before ++ [n]).length := Going.say (Going.start bytes w before.length) hb₁ rfl (ofBigEndian_singleton n)
    refine (pairsInto_ends hsay hb₂).mono fun r t ht => ⟨.inr ht.1, ht.2.ends Iff.rfl ?_⟩
    simp only [List.length_append, List.length_cons, List.length_nil]
    omega

theorem lone_contract (data : Bytes) (field : String) (value : UInt16 → Shown)
    (hvalue : ∀ b : Bytes, b.length = 2 → (value (UInt16.ofNat (ofBigEndian b))).IsOf b) :
    Contract False data True (if data.length = 2 then do
      let v ← Into.u16At data 0
      Into.add 2 field (value v)
    else pure ()) := by
  intro bytes before after w hb
  by_cases htwo : data.length = 2
  · rw [if_pos htwo]
    refine (ends_u16At (by omega)).mpr ⟨.inr rfl, ?_⟩
    rw [List.drop_zero, List.take_of_length_le (Nat.le_of_eq htwo)]
    refine Going.ends (Going.say (Going.start bytes w before.length) hb htwo (hvalue data htwo)) Iff.rfl ?_
    rw [List.length_append]
  · rw [if_neg htwo]
    exact Contract.nothing data _ _ _ w hb

theorem selectedVersionInto_contract (data : Bytes) (path : String) :
    Contract False data True (selectedVersionInto data path) :=
  lone_contract data _ _ fun _ hb => (u16_of_bytes hb).symm

theorem u16_toNat_of_bytes {b : Bytes} (h : b.length = 2) : (UInt16.ofNat (ofBigEndian b)).toNat = ofBigEndian b := by
  have hlt := ofBigEndian_lt b
  rw [h] at hlt
  exact UInt16.toNat_ofNat_of_lt' hlt

theorem selectedIdentityInto_contract (data : Bytes) (path : String) :
    Contract False data True (selectedIdentityInto data path) :=
  lone_contract data _ _ fun _ hb => (u16_toNat_of_bytes hb).symm

theorem otherExtensionInto_contract (data : Bytes) (path : String) :
    Contract False data True (otherExtensionInto data path) := by
  intro bytes before after w hb
  unfold otherExtensionInto
  by_cases hempty : data = []
  · rw [if_pos hempty]
    refine ⟨.inr rfl, ⟨[_], rfl, ⟨le_rfl, le_rfl⟩, fun _ => ?_⟩, Nat.le_add_right _ _⟩
    simp [FieldAnn.Truthful, Shown.IsOf]
  · rw [if_neg hempty]
    refine ⟨.inr rfl, Going.ends (Going.say (Going.start bytes w before.length) hb rfl rfl) Iff.rfl ?_⟩
    rw [List.length_append]

/-- A server's share stands in what its length says. -/
def ShareClear (data : Bytes) : Prop :=
  data.length = 2 ∨ data.length < 4 ∨ data.length - 4 ≤ ofBigEndian ((data.drop 2).take 2)

theorem serverShareInto_contract (data : Bytes) (path : String) :
    Contract False data (ShareClear data) (serverShareInto data path) := by
  have hlone := lone_contract data s!"{path}.selected_group"
    (fun v => .name groupName v " — a HelloRetryRequest names a group and sends no share")
    fun _ hb => (u16_of_bytes hb).symm
  intro bytes before after w hb
  unfold serverShareInto
  by_cases htwo : data.length = 2
  · rw [if_pos htwo] at hlone ⊢
    exact hlone.iff (iff_of_true trivial (.inl htwo)) _ _ _ w hb
  rw [if_neg htwo]
  by_cases hshort : data.length < 4
  · rw [if_pos hshort]
    exact (Contract.nothing data).iff (iff_of_true trivial (.inr (.inl hshort))) _ _ _ w hb
  rw [if_neg hshort]
  match data, hb with
  | [], _ => simp at hshort
  | [_], _ => simp at hshort
  | [_, _], _ => simp at hshort
  | [_, _, _], _ => simp at hshort
  | a :: b :: c :: d :: share, hb =>
    have hb₁ : bytes = before ++ ([a, b] ++ ([c, d] ++ (share ++ after))) := hb
    have hb₂ : bytes = (before ++ [a, b]) ++ ([c, d] ++ (share ++ after)) := by rw [hb₁, List.append_assoc]
    refine (ends_u16At (by simp)).mpr (ends_add.mpr ((ends_u16At (by simp)).mpr (ends_add.mpr
      ((ends_tail (by simp)).mpr ⟨.inr rfl, ?_⟩))))
    set n := ofBigEndian [c, d] with hn
    have hnum : (UInt16.ofNat n).toNat = n := u16_toNat_of_bytes rfl
    have hb₃ : bytes = (before ++ [a, b] ++ [c, d]) ++ (share.take (min n share.length) ++
        (share.drop (min n share.length) ++ after)) := by
      rw [hb₂, ← List.append_assoc (share.take _), List.take_append_drop]
      simp only [List.append_assoc]
    have hlen : (share.take (min n share.length)).length = min n share.length := by
      rw [List.length_take]
      omega
    refine Going.ends (Going.add (Going.say (Going.say (Going.start bytes w before.length) hb₁ rfl ?_) hb₂ rfl ?_)
      hb₃ ?_ Iff.rfl) ?_ ?_
    · exact (u16_of_bytes rfl).symm
    · exact hnum.symm
    · exact hlen.trans (congrArg (min · _) hnum.symm)
    · rw [true_and]
      have hlength : (a :: b :: c :: d :: share).length = share.length + 4 := rfl
      have hshare : ShareClear (a :: b :: c :: d :: share) ↔ share.length ≤ n := by
        unfold ShareClear
        rw [hlength]
        refine ⟨fun h => ?_, fun h => .inr (.inr (by simpa using h))⟩
        rcases h with h | h | h
        · omega
        · omega
        · simpa using h
      rw [hshare]
      refine ⟨fun h => ?_, fun h => ?_⟩
      · have := congrArg List.length (show share.take (min n share.length) = share from h)
        rw [hlen] at this
        omega
      · rw [show min n share.length = share.length by omega, List.take_length]
        rfl
    · rw [List.length_append, hlen]
      simp only [List.length_append, List.length_cons, List.length_nil]
      omega

/-- The one name of a `server_name` is a host name as long as its length says. -/
def ServerNameClear (data : Bytes) : Prop :=
  5 ≤ data.length → ListLengthTrue data ∧ data[2]? = some 0 ∧
    fromUtf8Lossy ((data.drop 5).take (ofBigEndian ((data.drop 3).take 2))) = fromUtf8Lossy (data.drop 5)

theorem serverNameInto_contract (data : Bytes) (path : String) :
    Contract False data (ServerNameClear data) (serverNameInto data path) := by
  intro bytes before after w hb
  unfold serverNameInto
  by_cases hshort : data.length < 5
  · rw [if_pos hshort]
    exact (Contract.nothing data).iff (iff_of_true trivial fun h => absurd h (by omega)) _ _ _ w hb
  rw [if_neg hshort]
  match data, hb with
  | [], _ => simp at hshort
  | [_], _ => simp at hshort
  | [_, _], _ => simp at hshort
  | [_, _, _], _ => simp at hshort
  | [_, _, _, _], _ => simp at hshort
  | a :: b :: kind :: c :: d :: host, hb =>
    have hb₁ : bytes = before ++ ([a, b] ++ ([kind] ++ ([c, d] ++ (host ++ after)))) := hb
    have hb₂ : bytes = (before ++ [a, b]) ++ ([kind] ++ ([c, d] ++ (host ++ after))) := by rw [hb₁, List.append_assoc]
    have hb₃ : bytes = (before ++ [a, b] ++ [kind]) ++ ([c, d] ++ (host ++ after)) := by
      rw [hb₂, List.append_assoc (before ++ [a, b])]
    refine ends_add.mpr (ends_add.mpr ((ends_u16At (by simp)).mpr (ends_add.mpr ((ends_tail (by simp)).mpr
      ⟨.inr rfl, ?_⟩))))
    set n := ofBigEndian [c, d] with hn
    have hnum : (UInt16.ofNat n).toNat = n := u16_toNat_of_bytes rfl
    have hb₄ : bytes = (before ++ [a, b] ++ [kind] ++ [c, d]) ++ (host.take (min n host.length) ++
        (host.drop (min n host.length) ++ after)) := by
      rw [hb₃, ← List.append_assoc (host.take _), List.take_append_drop]
      simp only [List.append_assoc]
    have hlen : (host.take (min n host.length)).length = min n host.length := by
      rw [List.length_take]
      omega
    refine Going.ends (Going.add (Going.say (Going.add (Going.add (Going.start bytes w before.length) hb₁ rfl Iff.rfl)
      hb₂ rfl Iff.rfl) hb₃ rfl ?_) hb₄ ?_ Iff.rfl) ?_ ?_
    · exact hnum.symm
    · exact hlen.trans (congrArg (min · _) hnum.symm)
    · rw [true_and, and_assoc]
      refine ⟨fun h _ => ⟨h.1, ?_, ?_⟩, fun h => ?_⟩
      · exact congrArg List.head? (show [kind] = [0] from h.2.1)
      · have htext := h.2.2
        rw [Shown.IsOf, ← List.take_eq_take_min] at htext
        exact htext
      · obtain ⟨hlist, hkind, htext⟩ := h (by simp)
        refine ⟨hlist, congrArg (· :: []) (Option.some.inj hkind), ?_⟩
        rw [Shown.IsOf, ← List.take_eq_take_min]
        exact htext
    · rw [List.length_append, hlen]
      simp only [List.length_append, List.length_cons, List.length_nil]
      omega

/-- The bodies whose annotations say what stands there. -/
def ExtensionClear (client : Bool) (extType : UInt16) (data : Bytes) : Prop :=
  if extType = extSupportedVersions then True
  else if extType = extSupportedGroups then 2 ≤ data.length → ListLengthTrue data
  else if extType = extSignatureAlgorithms then 2 ≤ data.length → ListLengthTrue data
  else if extType = extKeyShare then
    if client then 2 ≤ data.length → ListLengthTrue data else ShareClear data
  else if extType = extServerName ∧ client then ServerNameClear data
  else if extType = extAlpn then 3 ≤ data.length → ListLengthTrue data
  else if extType = extCookie then 2 ≤ data.length → ListLengthTrue data
  else True

theorem extensionBodyInto_contract (extType : UInt16) (data : Bytes) (path : String) (client : Bool) :
    Contract False data (ExtensionClear client extType data) (extensionBodyInto extType data path client) := by
  unfold extensionBodyInto ExtensionClear
  by_cases hversions : extType = extSupportedVersions
  · simp only [if_pos hversions]
    cases client with
    | true => exact versionsInto_contract data path
    | false => exact selectedVersionInto_contract data path
  simp only [if_neg hversions]
  by_cases hgroups : extType = extSupportedGroups
  · simp only [if_pos hgroups]
    exact codesInto_contract data _ _
  simp only [if_neg hgroups]
  by_cases hsignatures : extType = extSignatureAlgorithms
  · simp only [if_pos hsignatures]
    exact codesInto_contract data _ _
  simp only [if_neg hsignatures]
  by_cases hshare : extType = extKeyShare
  · simp only [if_pos hshare]
    cases client with
    | true => exact clientSharesInto_contract data path
    | false => exact serverShareInto_contract data path
  simp only [if_neg hshare]
  by_cases hname : extType = extServerName ∧ client
  · simp only [if_pos hname]
    exact serverNameInto_contract data path
  simp only [if_neg hname]
  by_cases halpn : extType = extAlpn
  · simp only [if_pos halpn]
    exact alpnInto_contract data path
  simp only [if_neg halpn]
  by_cases hcookie : extType = extCookie
  · simp only [if_pos hcookie]
    exact cookieInto_contract data path
  simp only [if_neg hcookie]
  by_cases hidentity : extType = extPreSharedKey ∧ !client
  · simp only [if_pos hidentity]
    exact selectedIdentityInto_contract data path
  · simp only [if_neg hidentity]
    exact otherExtensionInto_contract data path

/-! ## The block -/

def firstExtension (block : Bytes) : Option ((UInt16 × Bytes) × Bytes) := do
  let (extType, r) ← cut 2 block
  let (data, r) ← cutVec 2 r
  some ((UInt16.ofNat (ofBigEndian extType), data), r)

theorem firstExtension_eq (path : String) (block : Bytes) :
    firstExtension block = (taking (Read.u16 path "extension_type") block).toOption.bind fun r =>
      (taking (Read.vec16 path "extension_data") r.2).toOption.map fun s => ((r.1, s.1), s.2) := by
  rw [taking_u16, Read.vec16]
  simp only [taking_vec]
  unfold firstExtension
  cases cut 2 block with
  | none => rfl
  | some p =>
    simp only [Option.bind_eq_bind, Option.bind_some, Option.map_some]
    cases cutVec 2 p.2 <;> rfl

def ExtensionsClear (client : Bool) (block : Bytes) : Prop :=
  ∀ e, Among firstExtension block e → ExtensionClear client e.1 e.2

theorem extensionsInto_contract (block : Bytes) (path : String) (client : Bool) :
    Contract True block (ExtensionsClear client block) (extensionsInto block path client) := by
  intro bytes before after w hb
  unfold extensionsInto
  refine (ends_items Prod.fst (ExtensionsClear client)
    (P := fun c b t => Going bytes before.length c w t b.length) (Q := fun _ => True) (i := (block, 0)) hb
    (Going.start bytes w before.length) (Nat.lt_succ_self _) ?_).mono fun r t ht => ?_
  · rintro ⟨left, i⟩ t b c hb h
    unfold extensionRound
    dsimp only at hb ⊢
    by_cases hl : left = []
    · rw [if_pos hl]
      exact ⟨trivial, forall_among_of_none (by rw [hl]; rfl), h⟩
    rw [if_neg hl]
    refine ends_read (fun e hnone => ⟨trivial, forall_among_of_none ?_, h⟩) fun extType l₁ htype => ?_
    · rw [firstExtension_eq path, hnone]
      rfl
    refine ends_read (fun e hnone => ⟨trivial, forall_among_of_none ?_, h⟩) fun data l₂ hdata => ?_
    · rw [firstExtension_eq path, htype]
      exact congrArg (Option.map _) hnone
    have hfirst : firstExtension left = some ((extType, data), l₂) := by
      rw [firstExtension_eq path, htype]
      exact congrArg (Option.map _) hdata
    have hl₁ := u16_took htype
    obtain ⟨n, hn, hnum, hl₂⟩ : ∃ n : Bytes, n.length = 2 ∧ ofBigEndian n = data.length ∧ l₁ = n ++ (data ++ l₂) :=
      vec_took hdata
    simp only [hl₁, hl₂, List.append_assoc] at hb
    refine ends_say h hb rfl rfl fun t h hb => ends_say h hb hn hnum fun t h hb => ?_
    refine ends_bind.mpr (ends_get.mpr (ends_bind.mpr (((extensionBodyInto_contract extType data _ client).within h
      hb).mono fun r t' ht => ?_)))
    obtain ⟨hr, hwrote, hle⟩ := ht
    rw [hr.resolve_left id]
    refine ⟨u16Bytes extType ++ n ++ data, ExtensionClear client extType data, ?_, ?_, forall_among_of_some hfirst, ?_⟩
    · exact List.append_ne_nil_of_left_ne_nil (List.append_ne_nil_of_left_ne_nil (List.cons_ne_nil _ _) _) _
    · simp only [hl₁, hl₂, List.append_assoc]
    · simp only [← List.append_assoc]
      exact h.over hwrote hle
  · obtain ⟨-, b, hgoing, hlen⟩ := ht
    exact ⟨.inl trivial, hgoing.ends (by rw [true_and]) hlen⟩

def BlockClear (client : Bool) (left : Bytes) : Prop :=
  ∀ block rest, cutVec 2 left = some (block, rest) → ExtensionsClear client block

theorem extensionBlockInto_contract (left : Bytes) (path : String) (client : Bool) :
    Contract True left (BlockClear client left) (extensionBlockInto left path client) := by
  intro bytes before after w hb
  unfold extensionBlockInto
  have hgoing := Going.start bytes w before.length
  refine ends_read (fun e hnone => ⟨.inl trivial, ?_⟩) fun block r hblock => ?_
  · rw [Read.vec16, taking_vec] at hnone
    exact hgoing.ends (iff_of_true trivial fun _ _ h => nomatch hnone.symm.trans h) (by omega)
  obtain ⟨n, hn, hnum, hleft⟩ := vec_took hblock
  rw [Read.vec16, taking_vec] at hblock
  simp only [hleft, List.append_assoc] at hb
  refine ends_say hgoing hb hn hnum fun t h hb => ?_
  refine (extensionsInto_contract block path client).last h hb ?_ ?_
  · rw [true_and]
    refine ⟨fun hclear b rest hcut => ?_, fun hclear => hclear block _ hblock⟩
    cases hblock.symm.trans hcut
    exact hclear
  · simp only [hleft, List.length_append]
    omega

end

end BuildYourOwn.Tls
