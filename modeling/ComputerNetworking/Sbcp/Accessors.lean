/-
# ComputerNetworking.Sbcp.Accessors -- what the string accessors give back

The accessors turn the value of an attribute into a `std::string` through its `const char*`, so
the string runs to the first NUL of the payload buffer. Behind the last attribute that is the
zeroed rest of the buffer and the value comes back intact. Behind any other attribute it is the
type field of the next one, whose low byte is not zero: that byte is read as part of the string.

`accessor_roundtrip_iff` settles every constructor and every accessor at once: a value comes back
exactly when it belongs to the last attribute of its message.
-/
import ComputerNetworking.Sbcp.Messages

namespace ComputerNetworking.Sbcp

open ComputerNetworking.Lib

/-! ## Reading one value -/

/-- The scan starts at the value and goes on in whatever follows the attribute. -/
theorem stringAt_encode {m : Message} (pre rest : Bytes) {a : Attr} {n : Nat}
    (h : m.payload = pre ++ (a.encode ++ rest)) :
    m.stringAt ⟨pre.length, a.type, n⟩ =
      match cString (a.value ++ rest) with
      | some s => .ok s
      | none => .error .undefined := by
  have hdrop : m.payload.drop (pre.length + attributeHeaderSize) = a.value ++ rest := by
    rw [h, ← List.drop_drop, List.drop_left, Attr.encode]
    rfl
  show (match cString (m.payload.drop (pre.length + attributeHeaderSize)) with
    | some s => Except.ok s
    | none => Except.error Fault.undefined) = _
  rw [hdrop]

theorem stringAt_last {m : Message} (pre : Bytes) {a : Attr} {n k : Nat}
    (h : m.payload = pre ++ (a.encode ++ zeros k)) (hk : 0 < k) (ha : 0 ∉ a.value) :
    m.stringAt ⟨pre.length, a.type, n⟩ = .ok a.value := by
  rw [stringAt_encode pre (zeros k) h, cString_append_zeros ha hk]

/-- In front of another attribute the value comes back with that attribute's type byte. -/
theorem stringAt_followed {m : Message} (pre rest : Bytes) {a b : Attr} {n : Nat}
    (h : m.payload = pre ++ (a.encode ++ (b.encode ++ rest))) (ha : 0 ∉ a.value) :
    ∃ c, m.stringAt ⟨pre.length, a.type, n⟩ = .ok (a.value ++ [c]) := by
  obtain ⟨c, hc, hcode⟩ := AttributeType.le16_code b.type
  have hnext : cString (b.encode ++ rest) = some [c] := by
    rw [Attr.encode, hcode]
    exact cString_append_nul (s := [c]) (by simpa using hc.symm) _
  refine ⟨c, ?_⟩
  rw [stringAt_encode pre (b.encode ++ rest) h, cString_append ha, hnext]
  rfl

/-! ## Finding the attribute -/

theorem refsFrom_type {offset : Nat} {as : List Attr} {type : AttributeType}
    (h : ∀ a ∈ as, a.type ≠ type) : ∀ r ∈ refsFrom offset as, r.type ≠ type := by
  induction as generalizing offset with
  | nil => simp [refsFrom]
  | cons a as ih =>
      intro r hr
      rcases List.mem_cons.mp hr with rfl | hr
      · exact h a (by simp)
      · exact ih (fun b hb => h b (List.mem_cons_of_mem _ hb)) r hr

theorem collectUsernames_append {m : Message} {rs rs' : List AttributeRef}
    (h : ∀ r ∈ rs, r.type ≠ .username) :
    m.collectUsernames (rs ++ rs') = m.collectUsernames rs' := by
  induction rs with
  | nil => rfl
  | cons r rs ih =>
      rw [List.cons_append, Message.collectUsernames, if_neg (h r (by simp))]
      exact ih fun r' hr' => h r' (List.mem_cons_of_mem _ hr')

/-- The attributes in front of the first one of the type searched for are skipped. -/
theorem findAttribute_packed {m : Message} {t : MessageType} {as bs : List Attr} {a : Attr}
    (h : Packed m t (as ++ a :: bs))
    (hlimit : (encodeAttrs (as ++ a :: bs)).length ≤ Message.payloadLimit t)
    (has : ∀ b ∈ as, b.type ≠ a.type) (notFound : String) :
    m.findAttribute a.type notFound = .ok ⟨(encodeAttrs as).length, a.type, a.value.length⟩ := by
  have hskip : (refsFrom 0 as).find? (fun r => decide (r.type = a.type)) = none := by
    rw [List.find?_eq_none]
    intro r hr
    simpa using refsFrom_type has r hr
  rw [Message.findAttribute, h.walk hlimit, refsFrom_append, List.find?_append, hskip]
  simp [refsFrom]

/-- **The last username of a message comes back**, whatever other kinds of attribute precede it. -/
theorem getUsernames_last {m : Message} {t : MessageType} {as : List Attr} {u : Bytes}
    {hu : u.length ≤ sbcpMaxUsernameLength} (h : Packed m t (as ++ [usernameAttr u hu]))
    (hlimit : (encodeAttrs (as ++ [usernameAttr u hu])).length ≤ Message.payloadLimit t)
    (hroom : (encodeAttrs (as ++ [usernameAttr u hu])).length < sbcpMaxPayloadLength)
    (has : ∀ a ∈ as, a.type ≠ .username) (hnul : 0 ∉ u) : m.getUsernames = .ok [u] := by
  have hread := stringAt_last (m := m) (n := u.length) (encodeAttrs as)
    (a := usernameAttr u hu) h.payload_split (by omega) hnul
  have hcollect : m.collectUsernames (refsFrom 0 (as ++ [usernameAttr u hu])) = .ok [u] := by
    rw [refsFrom_append, collectUsernames_append (refsFrom_type has)]
    simp only [refsFrom, Message.collectUsernames, usernameAttr, Nat.zero_add, if_true] at hread ⊢
    rw [hread]
    rfl
  rw [Message.getUsernames, h.walk hlimit, hcollect]
  rfl

theorem getUsername_last {m : Message} {t : MessageType} {as : List Attr} {u : Bytes}
    {hu : u.length ≤ sbcpMaxUsernameLength} (h : Packed m t (as ++ [usernameAttr u hu]))
    (hlimit : (encodeAttrs (as ++ [usernameAttr u hu])).length ≤ Message.payloadLimit t)
    (hroom : (encodeAttrs (as ++ [usernameAttr u hu])).length < sbcpMaxPayloadLength)
    (has : ∀ a ∈ as, a.type ≠ .username) (hnul : 0 ∉ u) : m.getUsername = .ok u := by
  rw [Message.getUsername, getUsernames_last h hlimit hroom has hnul]
  rfl

/-- A username in front of another attribute is not what comes back first. -/
theorem getUsernames_followed {m : Message} {t : MessageType} {as bs : List Attr} {a b : Attr}
    (h : Packed m t (as ++ a :: b :: bs))
    (hlimit : (encodeAttrs (as ++ a :: b :: bs)).length ≤ Message.payloadLimit t)
    (has : ∀ c ∈ as, c.type ≠ .username) (ha : a.type = .username) (hnul : 0 ∉ a.value)
    (us : List Bytes) : m.getUsernames ≠ .ok (a.value :: us) := by
  obtain ⟨c, hread⟩ := stringAt_followed (m := m) (n := a.value.length) (encodeAttrs as)
    (encodeAttrs bs ++ zeros (sbcpMaxPayloadLength - (encodeAttrs (as ++ a :: b :: bs)).length))
    (a := a) (b := b) (by simpa using h.payload_split) hnul
  have hcollect : m.collectUsernames (refsFrom 0 (as ++ a :: b :: bs)) =
      (m.collectUsernames (refsFrom ((encodeAttrs as).length + a.encode.length) (b :: bs))).map
        ((a.value ++ [c]) :: ·) := by
    rw [refsFrom_append, collectUsernames_append (refsFrom_type has), refsFrom,
      Message.collectUsernames, if_pos ha, Nat.zero_add, hread]
    cases m.collectUsernames (refsFrom ((encodeAttrs as).length + a.encode.length) (b :: bs)) <;>
      rfl
  rw [Message.getUsernames, h.walk hlimit, hcollect]
  cases m.collectUsernames (refsFrom ((encodeAttrs as).length + a.encode.length) (b :: bs)) with
  | error e => simp [Except.map, bind, Except.bind]
  | ok names => simp [Except.map, bind, Except.bind]

theorem getUsername_followed {m : Message} {t : MessageType} {as bs : List Attr} {a b : Attr}
    (h : Packed m t (as ++ a :: b :: bs))
    (hlimit : (encodeAttrs (as ++ a :: b :: bs)).length ≤ Message.payloadLimit t)
    (has : ∀ c ∈ as, c.type ≠ .username) (ha : a.type = .username) (hnul : 0 ∉ a.value) :
    m.getUsername ≠ .ok a.value := by
  have hget := getUsernames_followed h hlimit has ha hnul
  unfold Message.getUsername
  cases hus : m.getUsernames with
  | error e => simp [bind, Except.bind]
  | ok us =>
      cases us with
      | nil => simp [bind, Except.bind]
      | cons s us =>
          simp only [bind, Except.bind, ne_eq, Except.ok.injEq]
          rintro rfl
          exact hget us hus

/-- A text as the last attribute of its message comes back. -/
theorem getMessage_last {m : Message} {t : MessageType} {as : List Attr} {v : Bytes}
    {hv : v.length ≤ sbcpMaxMessageLength} (h : Packed m t (as ++ [messageAttr v hv]))
    (hlimit : (encodeAttrs (as ++ [messageAttr v hv])).length ≤ Message.payloadLimit t)
    (hroom : (encodeAttrs (as ++ [messageAttr v hv])).length < sbcpMaxPayloadLength)
    (has : ∀ a ∈ as, a.type ≠ .message) (hnul : 0 ∉ v) : m.getMessage = .ok v := by
  have hfind := findAttribute_packed h hlimit has "Message attribute not found"
  have hread := stringAt_last (m := m) (n := v.length) (encodeAttrs as)
    (a := messageAttr v hv) h.payload_split (by omega) hnul
  simp only [messageAttr] at hfind hread
  rw [Message.getMessage, hfind]
  exact hread

/-- A text in front of another attribute does not. -/
theorem getMessage_followed {m : Message} {t : MessageType} {as bs : List Attr} {a b : Attr}
    (h : Packed m t (as ++ a :: b :: bs))
    (hlimit : (encodeAttrs (as ++ a :: b :: bs)).length ≤ Message.payloadLimit t)
    (has : ∀ c ∈ as, c.type ≠ .message) (ha : a.type = .message) (hnul : 0 ∉ a.value) :
    m.getMessage ≠ .ok a.value := by
  have hfind := findAttribute_packed h hlimit (by rwa [ha]) "Message attribute not found"
  obtain ⟨c, hread⟩ := stringAt_followed (m := m) (n := a.value.length) (encodeAttrs as)
    (encodeAttrs bs ++ zeros (sbcpMaxPayloadLength - (encodeAttrs (as ++ a :: b :: bs)).length))
    (a := a) (b := b) (by simpa using h.payload_split) hnul
  rw [ha] at hfind hread
  rw [Message.getMessage, hfind]
  simp only [bind, Except.bind]
  rw [hread]
  simp

theorem getReason_last {m : Message} {t : MessageType} {r : Bytes}
    {hr : r.length ≤ sbcpMaxReasonLength} (h : Packed m t [reasonAttr r hr])
    (hlimit : (encodeAttrs [reasonAttr r hr]).length ≤ Message.payloadLimit t)
    (hroom : (encodeAttrs [reasonAttr r hr]).length < sbcpMaxPayloadLength)
    (hnul : 0 ∉ r) : m.getReason = .ok r := by
  have h' : Packed m t ([] ++ [reasonAttr r hr]) := h
  have hfind := findAttribute_packed h' hlimit (by simp) "Reason attribute not found"
  have hread := stringAt_last (m := m) (n := r.length) []
    (a := reasonAttr r hr) h'.payload_split (by rw [List.nil_append]; omega) hnul
  simp only [reasonAttr] at hfind hread
  rw [Message.getReason, hfind]
  exact hread

/-! ## Every constructor and every accessor -/

/-- A username a client may use: no NUL, one to sixteen bytes. -/
def IsUsername (u : Bytes) : Prop := 0 ∉ u ∧ 1 ≤ u.length ∧ u.length ≤ sbcpMaxUsernameLength

/-- A chat text: no NUL, one to 512 bytes. -/
def IsText (v : Bytes) : Prop := 0 ∉ v ∧ 1 ≤ v.length ∧ v.length ≤ sbcpMaxMessageLength

/-- A string accessor called on a message built by libsbcp. `relayed` is SEND(m) after
`change_to_fwd(u)`. -/
inductive AccessorCall where
  | joinUsername (u : Bytes)
  | onlineUsername (u : Bytes)
  | offlineUsername (u : Bytes)
  | fwdUsername (u v : Bytes)
  | relayedUsername (u v : Bytes)
  | sendMessage (v : Bytes)
  | fwdMessage (u v : Bytes)
  | relayedMessage (u v : Bytes)
  | ackUsernames (us : List Bytes)
  | nakReason (r : Bytes)

namespace AccessorCall

/-- The strings the call returns. -/
def result : AccessorCall → Except Fault (List Bytes)
  | joinUsername u => do
      let m ← Messages.join u
      let s ← m.getUsername
      .ok [s]
  | onlineUsername u => do
      let m ← Messages.online u
      let s ← m.getUsername
      .ok [s]
  | offlineUsername u => do
      let m ← Messages.offline u
      let s ← m.getUsername
      .ok [s]
  | fwdUsername u v => do
      let m ← Messages.fwd u v
      let s ← m.getUsername
      .ok [s]
  | relayedUsername u v => do
      let sent ← Messages.send v
      let m ← Messages.returning (sent.changeToFwd u)
      let s ← m.getUsername
      .ok [s]
  | sendMessage v => do
      let m ← Messages.send v
      let s ← m.getMessage
      .ok [s]
  | fwdMessage u v => do
      let m ← Messages.fwd u v
      let s ← m.getMessage
      .ok [s]
  | relayedMessage u v => do
      let sent ← Messages.send v
      let m ← Messages.returning (sent.changeToFwd u)
      let s ← m.getMessage
      .ok [s]
  | ackUsernames us => do
      let m ← Messages.ack (UInt16.ofNat (us.length + 1)) us
      m.getUsernames
  | nakReason r => do
      let m ← Messages.nak r
      let s ← m.getReason
      .ok [s]

/-- The strings that went into the message. -/
def expected : AccessorCall → List Bytes
  | joinUsername u => [u]
  | onlineUsername u => [u]
  | offlineUsername u => [u]
  | fwdUsername u _ => [u]
  | relayedUsername u _ => [u]
  | sendMessage v => [v]
  | fwdMessage _ v => [v]
  | relayedMessage _ v => [v]
  | ackUsernames us => us
  | nakReason r => [r]

/-- Arguments within the protocol's limits; the usernames of an ACK are at least one and fit its
payload next to the client count. -/
def WithinLimits : AccessorCall → Prop
  | joinUsername u => IsUsername u
  | onlineUsername u => IsUsername u
  | offlineUsername u => IsUsername u
  | fwdUsername u v => IsUsername u ∧ IsText v
  | relayedUsername u v => IsUsername u ∧ IsText v
  | sendMessage v => IsText v
  | fwdMessage u v => IsUsername u ∧ IsText v
  | relayedMessage u v => IsUsername u ∧ IsText v
  | ackUsernames us => us ≠ [] ∧ (∀ u ∈ us, IsUsername u) ∧
      attributeHeaderSize + sizeofClientCount + usernamesSize us ≤ sbcpMaxPayloadLength
  | nakReason r => 0 ∉ r ∧ r.length ≤ sbcpMaxReasonLength

/-- The value read belongs to the message's last attribute. -/
def ReadsLast : AccessorCall → Prop
  | fwdUsername _ _ => False
  | relayedMessage _ _ => False
  | ackUsernames us => us.length = 1
  | _ => True

end AccessorCall

/-- A message whose only attribute is a username gives it back. -/
theorem getUsername_single {m : Message} {t : MessageType} {u : Bytes}
    {hu : u.length ≤ sbcpMaxUsernameLength} (h : Packed m t [usernameAttr u hu])
    (hlimit : attributeHeaderSize + sbcpMaxUsernameLength ≤ Message.payloadLimit t)
    (hnul : 0 ∉ u) : m.getUsername = .ok u := by
  have h' : Packed m t ([] ++ [usernameAttr u hu]) := h
  have hlen : (encodeAttrs ([] ++ [usernameAttr u hu])).length =
      attributeHeaderSize + u.length := by
    simp [usernameAttr]
  refine getUsername_last h' (by omega) ?_ (by simp) hnul
  simp only [attributeHeaderSize, sbcpMaxPayloadLength, sbcpMaxUsernameLength] at hlen hu ⊢
  omega

/-- SEND(m) after `change_to_fwd(u)`: the text first, the username behind it. -/
theorem relayed_packed {u v : Bytes} (hu : u.length ≤ sbcpMaxUsernameLength)
    (hv : v.length ≤ sbcpMaxMessageLength) :
    ∃ sent m, Messages.send v = .ok sent ∧ Messages.returning (sent.changeToFwd u) = .ok m ∧
      Packed m .fwd ([messageAttr v hv] ++ [usernameAttr u hu]) ∧
      (encodeAttrs ([messageAttr v hv] ++ [usernameAttr u hu])).length ≤
        Message.payloadLimit .fwd := by
  obtain ⟨sent, hsent, hps⟩ := send_packed hv
  obtain ⟨m, hm, hp, hlimit⟩ := changeToFwd_packed hps (send_limit hv) hu
  exact ⟨sent, m, hsent, by rw [hm, Messages.returning], hp, hlimit⟩

/-- An ACK gives its usernames back exactly when there is one: every other username is in front of
the next one. -/
theorem ack_getUsernames_iff {us : List Bytes} (hne : us ≠ []) (hus : ∀ u ∈ us, IsUsername u)
    (hroom : attributeHeaderSize + sizeofClientCount + usernamesSize us ≤ sbcpMaxPayloadLength) :
    (AccessorCall.ackUsernames us).result = .ok us ↔ us.length = 1 := by
  have hsize := length_le_usernamesSize us
  have hcount : us.length + 1 = (UInt16.ofNat (us.length + 1)).toNat := by
    simp only [attributeHeaderSize, sizeofClientCount, sbcpMaxPayloadLength] at hroom
    rw [UInt16.toNat_ofNat']
    omega
  obtain ⟨m, as, hm, hp, hvalues, htypes⟩ := ack_packed hcount (fun u hu => (hus u hu).2.2) hroom
  have hlimit : (encodeAttrs (countAttr (UInt16.ofNat (us.length + 1)) :: as)).length ≤
      Message.payloadLimit .ack := hp.length_le
  simp only [AccessorCall.result, hm, bind, Except.bind]
  rcases as with _ | ⟨a, _ | ⟨b, bs⟩⟩
  · exact absurd hvalues.symm hne
  · -- one username: nothing follows it
    obtain ⟨hu, hau⟩ := eq_usernameAttr (htypes a (by simp))
    have hmem : a.value ∈ us := by simp [← hvalues]
    have hp' : Packed m .ack
        ([countAttr (UInt16.ofNat (us.length + 1))] ++ [usernameAttr a.value hu]) := by
      rw [← hau]
      exact hp
    have hlen : (encodeAttrs ([countAttr (UInt16.ofNat (us.length + 1))] ++
        [usernameAttr a.value hu])).length = 6 + (4 + a.value.length) := by
      simp [usernameAttr, countAttr, attributeHeaderSize]
    have hget := getUsernames_last hp' hp'.length_le
      (by
        simp only [sbcpMaxPayloadLength, sbcpMaxUsernameLength] at hlen hu ⊢
        omega)
      (by simp [countAttr]) (hus _ hmem).1
    simp [hget, ← hvalues]
  · -- the second username follows the first
    have hp' : Packed m .ack ([countAttr (UInt16.ofNat (us.length + 1))] ++ a :: b :: bs) := hp
    have hmem : a.value ∈ us := by simp [← hvalues]
    have hget := getUsernames_followed hp' hp'.length_le (by simp [countAttr])
      (htypes a (by simp)) (hus _ hmem).1 ((b :: bs).map Attr.value)
    have hlen : us.length ≠ 1 := by simp [← hvalues]
    rw [← hvalues]
    simp only [List.map_cons] at hget ⊢
    exact iff_of_false hget (by simp)

/-- What an accessor that returns one string makes of a message that could be built. -/
theorem read_eq_ok_iff {built : Except Fault Message} {read : Message → Except Fault Bytes}
    {m : Message} (hbuilt : built = .ok m) {s : Bytes} :
    (do let m ← built; let s ← read m; .ok [s]) = Except.ok [s] ↔ read m = .ok s := by
  rw [hbuilt]
  cases hread : read m with
  | error e => simp [bind, Except.bind, hread]
  | ok s' => simp [bind, Except.bind, hread]

/-- **A string accessor gives back the value that went in exactly when that value belongs to the
last attribute of the message.** -/
theorem accessor_roundtrip_iff (c : AccessorCall) (h : c.WithinLimits) :
    c.result = .ok c.expected ↔ c.ReadsLast := by
  cases c with
  | joinUsername u =>
      obtain ⟨m, hm, hp⟩ := join_packed h.2.2
      exact iff_of_true ((read_eq_ok_iff hm).mpr (getUsername_single hp (by decide) h.1)) trivial
  | onlineUsername u =>
      obtain ⟨m, hm, hp⟩ := online_packed h.2.2
      exact iff_of_true ((read_eq_ok_iff hm).mpr (getUsername_single hp (by decide) h.1)) trivial
  | offlineUsername u =>
      obtain ⟨m, hm, hp⟩ := offline_packed h.2.2
      exact iff_of_true ((read_eq_ok_iff hm).mpr (getUsername_single hp (by decide) h.1)) trivial
  | fwdUsername u v =>
      -- the text follows the username
      obtain ⟨m, hm, hp⟩ := fwd_packed h.1.2.2 h.2.2.2
      have hp' : Packed m .fwd ([] ++ usernameAttr u h.1.2.2 :: messageAttr v h.2.2.2 :: []) := hp
      have hget := getUsername_followed hp' (fwd_limit _ _) (by simp) rfl h.1.1
      exact iff_of_false (fun hres => hget ((read_eq_ok_iff hm).mp hres)) id
  | relayedUsername u v =>
      obtain ⟨sent, m, hsent, hm, hp, hlimit⟩ := relayed_packed h.1.2.2 h.2.2.2
      have hget := getUsername_last hp hlimit (Nat.lt_of_le_of_lt hlimit (by decide))
        (by simp [messageAttr]) h.1.1
      refine iff_of_true ?_ trivial
      rw [AccessorCall.result, hsent]
      exact (read_eq_ok_iff hm).mpr hget
  | sendMessage v =>
      obtain ⟨m, hm, hp⟩ := send_packed h.2.2
      have hp' : Packed m .send ([] ++ [messageAttr v h.2.2]) := hp
      have hget := getMessage_last hp' (send_limit _)
        (Nat.lt_of_le_of_lt (send_limit h.2.2) (by decide)) (by simp) h.1
      exact iff_of_true ((read_eq_ok_iff hm).mpr hget) trivial
  | fwdMessage u v =>
      obtain ⟨m, hm, hp⟩ := fwd_packed h.1.2.2 h.2.2.2
      have hp' : Packed m .fwd ([usernameAttr u h.1.2.2] ++ [messageAttr v h.2.2.2]) := hp
      have hget := getMessage_last hp' (fwd_limit _ _)
        (Nat.lt_of_le_of_lt (fwd_limit h.1.2.2 h.2.2.2) (by decide))
        (by simp [usernameAttr]) h.2.1
      exact iff_of_true ((read_eq_ok_iff hm).mpr hget) trivial
  | relayedMessage u v =>
      -- `change_to_fwd` has put the username behind the text
      obtain ⟨sent, m, hsent, hm, hp, hlimit⟩ := relayed_packed h.1.2.2 h.2.2.2
      have hp' : Packed m .fwd ([] ++ messageAttr v h.2.2.2 :: usernameAttr u h.1.2.2 :: []) := hp
      have hget := getMessage_followed hp' hlimit (by simp) rfl h.2.1
      refine iff_of_false ?_ id
      rw [AccessorCall.result, hsent]
      exact fun hres => hget ((read_eq_ok_iff hm).mp hres)
  | ackUsernames us => exact ack_getUsernames_iff h.1 h.2.1 h.2.2
  | nakReason r =>
      obtain ⟨m, hm, hp⟩ := nak_packed h.2
      have hget := getReason_last hp (nak_limit _)
        (Nat.lt_of_le_of_lt (nak_limit h.2) (by decide)) h.1
      exact iff_of_true ((read_eq_ok_iff hm).mpr hget) trivial

/-- A relayed text from `bob`: the username is last and comes back. -/
theorem relayedUsername_bob :
    (AccessorCall.relayedUsername [0x62, 0x6F, 0x62] [0x68, 0x69]).result =
      .ok [[0x62, 0x6F, 0x62]] :=
  (accessor_roundtrip_iff (.relayedUsername [0x62, 0x6F, 0x62] [0x68, 0x69])
    ⟨⟨by decide, by decide, by decide⟩, ⟨by decide, by decide, by decide⟩⟩).mpr trivial

/-- FWD("a", "b") reports the user `a` followed by the type byte of its message attribute. -/
theorem fwdUsername_reads_type_byte :
    (AccessorCall.fwdUsername [0x61] [0x62]).WithinLimits ∧
      (AccessorCall.fwdUsername [0x61] [0x62]).result = .ok [[0x61, 0x04]] ∧
      ¬ ∀ c : AccessorCall, c.WithinLimits → c.result = .ok c.expected := by
  have hlimits : (AccessorCall.fwdUsername [0x61] [0x62]).WithinLimits :=
    ⟨⟨by decide, by decide, by decide⟩, ⟨by decide, by decide, by decide⟩⟩
  have hread : (AccessorCall.fwdUsername [0x61] [0x62]).result = .ok [[0x61, 0x04]] := by
    decide +kernel
  refine ⟨hlimits, hread, fun hall => ?_⟩
  rw [hall _ hlimits] at hread
  exact absurd hread (by decide)

end ComputerNetworking.Sbcp
