/-
# ComputerNetworking.Sbcp.Messages -- the message constructors of libsbcp

`messages.cpp` builds each kind of message by appending its attributes to an empty one. Every
constructor is given here as the source has it, followed by the attributes it packs when its
arguments are within the limits.
-/
import ComputerNetworking.Sbcp.Packed

namespace ComputerNetworking.Sbcp

open ComputerNetworking.Lib

/-! ## The constructors -/

namespace Messages

/-- Return the message a mutator leaves, or let its exception escape. -/
def returning : Message.Mutation → Except Fault Message
  | (.ok (), m) => .ok m
  | (.error e, _) => .error e

/-- `JOIN(username)`. -/
def join (username : Bytes) : Except Fault Message :=
  returning ((Message.ofType .join).addUsername username)

/-- `SEND(message)`. -/
def send (message : Bytes) : Except Fault Message :=
  returning ((Message.ofType .send).addMessage message)

/-- `FWD(username, message)`. -/
def fwd (username message : Bytes) : Except Fault Message := do
  let msg ← returning ((Message.ofType .fwd).addUsername username)
  returning (msg.addMessage message)

/-- The loop of `ACK` over the usernames. -/
def addUsernames (msg : Message) : List Bytes → Except Fault Message
  | [] => .ok msg
  | username :: rest => do
      let msg ← returning (msg.addUsername username)
      addUsernames msg rest

/-- `ACK(client_count, usernames)`: the count includes the requestor, the list does not. -/
def ack (clientCount : UInt16) (usernames : List Bytes) : Except Fault Message :=
  if usernames.length + 1 = clientCount.toNat then do
    let msg ← returning ((Message.ofType .ack).addClientCount clientCount)
    addUsernames msg usernames
  else .error .assertion

/-- `NAK(reason)`. -/
def nak (reason : Bytes) : Except Fault Message :=
  returning ((Message.ofType .nak).addReason reason)

/-- `ONLINE(username)`. -/
def online (username : Bytes) : Except Fault Message :=
  returning ((Message.ofType .online).addUsername username)

/-- `OFFLINE(username)`. -/
def offline (username : Bytes) : Except Fault Message :=
  returning ((Message.ofType .offline).addUsername username)

/-- `IDLE(username)`. -/
def idle (username : Bytes) : Except Fault Message :=
  returning ((Message.ofType .idle).addUsername username)

end Messages

/-! ## What they pack -/

def usernameAttr (u : Bytes) (h : u.length ≤ sbcpMaxUsernameLength) : Attr := ⟨.username, u, h⟩

def messageAttr (m : Bytes) (h : m.length ≤ sbcpMaxMessageLength) : Attr := ⟨.message, m, h⟩

def reasonAttr (r : Bytes) (h : r.length ≤ sbcpMaxReasonLength) : Attr := ⟨.reason, r, h⟩

theorem eq_usernameAttr {a : Attr} (h : a.type = .username) :
    ∃ hu : a.value.length ≤ sbcpMaxUsernameLength, a = usernameAttr a.value hu := by
  obtain ⟨type, value, fits⟩ := a
  cases h
  exact ⟨fits, rfl⟩

section Append

variable {m : Message} {t : MessageType} {as : List Attr}

theorem addUsername_packed (h : Packed m t as) {u : Bytes} (hu : u.length ≤ sbcpMaxUsernameLength)
    (hold : (encodeAttrs as).length ≤ Message.payloadLimit t)
    (hnew : (encodeAttrs as).length + (attributeHeaderSize + u.length) ≤ sbcpMaxPayloadLength) :
    ∃ m', m.addUsername u = (.ok (), m') ∧ Packed m' t (as ++ [usernameAttr u hu]) :=
  addBuilt_packed h (ofString_stores .username (by decide) hu) hold (by rwa [Attr.encode_length])

/-- A username that was appended had room. -/
theorem addUsername_ok (h : Packed m t as) {u : Bytes} (hu : u.length ≤ sbcpMaxUsernameLength)
    {m' : Message} (hok : m.addUsername u = (.ok (), m')) :
    Packed m' t (as ++ [usernameAttr u hu]) :=
  addBuilt_ok h (ofString_stores .username (by decide) hu) hok

theorem addMessage_packed (h : Packed m t as) {v : Bytes} (hv : v.length ≤ sbcpMaxMessageLength)
    (hold : (encodeAttrs as).length ≤ Message.payloadLimit t)
    (hnew : (encodeAttrs as).length + (attributeHeaderSize + v.length) ≤ sbcpMaxPayloadLength) :
    ∃ m', m.addMessage v = (.ok (), m') ∧ Packed m' t (as ++ [messageAttr v hv]) :=
  addBuilt_packed h (ofString_stores .message (by decide) hv) hold (by rwa [Attr.encode_length])

theorem addReason_packed (h : Packed m t as) {r : Bytes} (hr : r.length ≤ sbcpMaxReasonLength)
    (hold : (encodeAttrs as).length ≤ Message.payloadLimit t)
    (hnew : (encodeAttrs as).length + (attributeHeaderSize + r.length) ≤ sbcpMaxPayloadLength) :
    ∃ m', m.addReason r = (.ok (), m') ∧ Packed m' t (as ++ [reasonAttr r hr]) :=
  addBuilt_packed h (ofString_stores .reason (by decide) hr) hold (by rwa [Attr.encode_length])

theorem addClientCount_packed (h : Packed m t as) (value : UInt16)
    (hold : (encodeAttrs as).length ≤ Message.payloadLimit t)
    (hnew : (encodeAttrs as).length + (attributeHeaderSize + sizeofClientCount) ≤
      sbcpMaxPayloadLength) :
    ∃ m', m.addClientCount value = (.ok (), m') ∧ Packed m' t (as ++ [countAttr value]) :=
  addBuilt_packed h (ofCount_stores value) hold hnew

end Append

section Single

variable (t : MessageType) {v : Bytes}

/-- A message of one username. -/
theorem returning_addUsername (hv : v.length ≤ sbcpMaxUsernameLength) :
    ∃ m, Messages.returning ((Message.ofType t).addUsername v) = .ok m ∧
      Packed m t [usernameAttr v hv] := by
  obtain ⟨m, hm, hp⟩ := addUsername_packed (packed_ofType t) hv (Nat.zero_le _) (by
    simp only [encodeAttrs_nil, List.length_nil, attributeHeaderSize, sbcpMaxPayloadLength,
      sbcpMaxUsernameLength] at hv ⊢
    omega)
  exact ⟨m, by rw [hm, Messages.returning], hp⟩

end Single

theorem join_packed {u : Bytes} (hu : u.length ≤ sbcpMaxUsernameLength) :
    ∃ m, Messages.join u = .ok m ∧ Packed m .join [usernameAttr u hu] :=
  returning_addUsername .join hu

theorem online_packed {u : Bytes} (hu : u.length ≤ sbcpMaxUsernameLength) :
    ∃ m, Messages.online u = .ok m ∧ Packed m .online [usernameAttr u hu] :=
  returning_addUsername .online hu

theorem offline_packed {u : Bytes} (hu : u.length ≤ sbcpMaxUsernameLength) :
    ∃ m, Messages.offline u = .ok m ∧ Packed m .offline [usernameAttr u hu] :=
  returning_addUsername .offline hu

theorem send_packed {v : Bytes} (hv : v.length ≤ sbcpMaxMessageLength) :
    ∃ m, Messages.send v = .ok m ∧ Packed m .send [messageAttr v hv] := by
  obtain ⟨m, hm, hp⟩ := addMessage_packed (packed_ofType .send) hv (Nat.zero_le _) (by
    simp only [encodeAttrs_nil, List.length_nil, attributeHeaderSize, sbcpMaxPayloadLength,
      sbcpMaxMessageLength] at hv ⊢
    omega)
  exact ⟨m, by rw [Messages.send, hm, Messages.returning], hp⟩

theorem nak_packed {r : Bytes} (hr : r.length ≤ sbcpMaxReasonLength) :
    ∃ m, Messages.nak r = .ok m ∧ Packed m .nak [reasonAttr r hr] := by
  obtain ⟨m, hm, hp⟩ := addReason_packed (packed_ofType .nak) hr (Nat.zero_le _) (by
    simp only [encodeAttrs_nil, List.length_nil, attributeHeaderSize, sbcpMaxPayloadLength,
      sbcpMaxReasonLength] at hr ⊢
    omega)
  exact ⟨m, by rw [Messages.nak, hm, Messages.returning], hp⟩

/-- Any JOIN that can be built holds the user name up to the sixteenth byte. -/
theorem join_ok {u : Bytes} {m : Message} (h : Messages.join u = .ok m) :
    ∃ hu, Packed m .join [usernameAttr (u.take sbcpMaxUsernameLength) hu] := by
  have hu : (u.take sbcpMaxUsernameLength).length ≤ sbcpMaxUsernameLength := by
    rw [List.length_take]
    exact Nat.min_le_left _ _
  refine ⟨hu, ?_⟩
  unfold Messages.join Message.addUsername at h
  rcases hadd : (Message.ofType .join).addBuilt (Attribute.ofString .username u) with ⟨_ | _, m'⟩
  · rw [hadd] at h
    cases h
  · rw [hadd] at h
    cases h
    cases hbuilt : Attribute.ofString .username u with
    | error e =>
        rw [hbuilt] at hadd
        cases hadd
    | ok attr =>
        have hstores : attr.Stores (usernameAttr _ hu) :=
          setString_stores_take (show AttributeType.username.Fits _ from hu) hbuilt
        exact addBuilt_ok (packed_ofType .join) ⟨attr, hbuilt, hstores⟩ hadd

/-- Any SEND that can be built holds its text. -/
theorem send_ok {v : Bytes} {m : Message} (h : Messages.send v = .ok m) :
    ∃ hv, Packed m .send [messageAttr v hv] := by
  have hv : v.length ≤ sbcpMaxMessageLength := by
    by_contra hlong
    have hbuilt : Attribute.ofString .message v = .error .undefined := dif_neg hlong
    unfold Messages.send Message.addMessage at h
    rw [hbuilt] at h
    cases h
  obtain ⟨m', hm', hp⟩ := send_packed hv
  rw [h] at hm'
  cases hm'
  exact ⟨hv, hp⟩

theorem fwd_packed {u v : Bytes} (hu : u.length ≤ sbcpMaxUsernameLength)
    (hv : v.length ≤ sbcpMaxMessageLength) :
    ∃ m, Messages.fwd u v = .ok m ∧ Packed m .fwd [usernameAttr u hu, messageAttr v hv] := by
  obtain ⟨m₁, hm₁, hp₁⟩ := returning_addUsername .fwd hu
  have hlen : (encodeAttrs [usernameAttr u hu]).length = attributeHeaderSize + u.length := by
    simp [usernameAttr]
  obtain ⟨m₂, hm₂, hp₂⟩ := addMessage_packed hp₁ hv
    (by rw [hlen]; simp only [Message.payloadLimit]; omega)
    (by
      rw [hlen]
      simp only [attributeHeaderSize, sbcpMaxPayloadLength, sbcpMaxUsernameLength,
        sbcpMaxMessageLength] at hu hv ⊢
      omega)
  refine ⟨m₂, ?_, hp₂⟩
  rw [Messages.fwd, hm₁]
  simp only [bind, Except.bind, hm₂, Messages.returning]

theorem send_limit {v : Bytes} (hv : v.length ≤ sbcpMaxMessageLength) :
    (encodeAttrs [messageAttr v hv]).length ≤ Message.payloadLimit .send := by
  simp only [encodeAttrs_cons, encodeAttrs_nil, List.append_nil, Attr.encode_length, messageAttr,
    Message.payloadLimit]
  omega

theorem nak_limit {r : Bytes} (hr : r.length ≤ sbcpMaxReasonLength) :
    (encodeAttrs [reasonAttr r hr]).length ≤ Message.payloadLimit .nak := by
  simp only [encodeAttrs_cons, encodeAttrs_nil, List.append_nil, Attr.encode_length, reasonAttr,
    Message.payloadLimit]
  omega

theorem fwd_limit {u v : Bytes} (hu : u.length ≤ sbcpMaxUsernameLength)
    (hv : v.length ≤ sbcpMaxMessageLength) :
    (encodeAttrs [usernameAttr u hu, messageAttr v hv]).length ≤ Message.payloadLimit .fwd := by
  simp only [encodeAttrs_cons, encodeAttrs_nil, List.append_nil, List.length_append,
    Attr.encode_length, usernameAttr, messageAttr, Message.payloadLimit]
  omega

/-- The relay step of the chat server on a SEND message: every attribute stays where it is, the
type becomes FWD and the username comes last. SEND's own limit leaves the room FWD needs. -/
theorem changeToFwd_packed {m : Message} {as : List Attr} (h : Packed m .send as)
    (hlimit : (encodeAttrs as).length ≤ Message.payloadLimit .send) {u : Bytes}
    (hu : u.length ≤ sbcpMaxUsernameLength) :
    ∃ m', m.changeToFwd u = (.ok (), m') ∧ Packed m' .fwd (as ++ [usernameAttr u hu]) ∧
      (encodeAttrs (as ++ [usernameAttr u hu])).length ≤ Message.payloadLimit .fwd := by
  simp only [Message.payloadLimit, attributeHeaderSize, sbcpMaxMessageLength] at hlimit
  simp only [sbcpMaxUsernameLength] at hu
  obtain ⟨m', hm', hp'⟩ := addUsername_packed (h.setType .fwd) hu
    (by simp only [Message.payloadLimit, attributeHeaderSize, sbcpMaxMessageLength]; omega)
    (by simp only [attributeHeaderSize, sbcpMaxPayloadLength]; omega)
  refine ⟨m', by rw [Message.changeToFwd, if_pos h.getType, hm'], hp', ?_⟩
  rw [encodeAttrs_append, List.length_append]
  simp only [encodeAttrs_cons, encodeAttrs_nil, List.append_nil, Attr.encode_length, usernameAttr,
    Message.payloadLimit, attributeHeaderSize, sbcpMaxMessageLength, sbcpMaxUsernameLength]
  omega

/-! ## ACK -/

/-- The bytes a list of usernames takes in a payload. -/
def usernamesSize : List Bytes → Nat
  | [] => 0
  | u :: us => attributeHeaderSize + u.length + usernamesSize us

/-- No username takes less than its header. -/
theorem length_le_usernamesSize (us : List Bytes) : us.length ≤ usernamesSize us := by
  induction us with
  | nil => exact Nat.le_refl 0
  | cons u us ih =>
      rw [usernamesSize, List.length_cons, attributeHeaderSize]
      omega

theorem encodeAttrs_usernames {as : List Attr} :
    (encodeAttrs as).length = usernamesSize (as.map Attr.value) := by
  induction as with
  | nil => rfl
  | cons a as ih =>
      rw [encodeAttrs_cons, List.length_append, Attr.encode_length, ih]
      rfl

theorem addUsernames_packed {m : Message} {bs : List Attr} (h : Packed m .ack bs) {us : List Bytes}
    (hus : ∀ u ∈ us, u.length ≤ sbcpMaxUsernameLength)
    (hroom : (encodeAttrs bs).length + usernamesSize us ≤ sbcpMaxPayloadLength) :
    ∃ m' as, Messages.addUsernames m us = .ok m' ∧ Packed m' .ack (bs ++ as) ∧
      as.map Attr.value = us ∧ ∀ a ∈ as, a.type = .username := by
  induction us generalizing m bs with
  | nil => exact ⟨m, [], rfl, by simpa using h, rfl, by simp⟩
  | cons u us ih =>
      have hu : u.length ≤ sbcpMaxUsernameLength := hus u (by simp)
      rw [usernamesSize] at hroom
      obtain ⟨m₁, hm₁, hp₁⟩ := addUsername_packed h hu
        (by simp only [Message.payloadLimit]; omega) (by omega)
      have hlen : (encodeAttrs (bs ++ [usernameAttr u hu])).length =
          (encodeAttrs bs).length + (attributeHeaderSize + u.length) := by
        simp [usernameAttr]
      obtain ⟨m₂, as, hm₂, hp₂, hvalues, htypes⟩ := ih hp₁
        (fun v hv => hus v (List.mem_cons_of_mem _ hv))
        (by rw [hlen]; omega)
      refine ⟨m₂, usernameAttr u hu :: as, ?_, by simpa using hp₂, by simp [hvalues, usernameAttr],
        ?_⟩
      · rw [Messages.addUsernames, hm₁]
        exact hm₂
      · rintro a ha
        rcases List.mem_cons.mp ha with rfl | ha
        · rfl
        · exact htypes a ha

/-- What an ACK that could be built holds. -/
theorem addUsernames_ok {m m' : Message} {bs : List Attr} (h : Packed m .ack bs) {us : List Bytes}
    (hus : ∀ u ∈ us, u.length ≤ sbcpMaxUsernameLength)
    (hok : Messages.addUsernames m us = .ok m') :
    ∃ as, Packed m' .ack (bs ++ as) ∧ as.map Attr.value = us ∧ ∀ a ∈ as, a.type = .username := by
  induction us generalizing m bs with
  | nil =>
      cases hok
      exact ⟨[], by simpa using h, rfl, by simp⟩
  | cons u us ih =>
      have hu : u.length ≤ sbcpMaxUsernameLength := hus u (by simp)
      rcases hadd : m.addUsername u with ⟨_ | _, m₁⟩
      · simp [Messages.addUsernames, hadd, Messages.returning, bind, Except.bind] at hok
      · have hp₁ := addUsername_ok h hu hadd
        simp only [Messages.addUsernames, hadd, Messages.returning, bind, Except.bind] at hok
        rcases ih hp₁ (fun v hv => hus v (List.mem_cons_of_mem _ hv)) hok with
          ⟨as, hp, hvalues, htypes⟩
        refine ⟨usernameAttr u hu :: as, by simpa using hp, by simp [hvalues, usernameAttr], ?_⟩
        intro a ha
        rcases List.mem_cons.mp ha with rfl | ha
        · rfl
        · exact htypes a ha

theorem ack_ok {clientCount : UInt16} {us : List Bytes} {m : Message}
    (hus : ∀ u ∈ us, u.length ≤ sbcpMaxUsernameLength) (hok : Messages.ack clientCount us = .ok m) :
    us.length + 1 = clientCount.toNat ∧
      ∃ as, Packed m .ack (countAttr clientCount :: as) ∧ as.map Attr.value = us ∧
        ∀ a ∈ as, a.type = .username := by
  obtain ⟨m₁, hm₁, hp₁⟩ := addClientCount_packed (packed_ofType .ack) clientCount (Nat.zero_le _)
    (by decide)
  unfold Messages.ack at hok
  split_ifs at hok with hcount
  rw [hm₁] at hok
  exact ⟨hcount, addUsernames_ok hp₁ hus hok⟩

/-- An ACK whose usernames fit holds the count and then the usernames, in order. -/
theorem ack_packed {clientCount : UInt16} {us : List Bytes}
    (hcount : us.length + 1 = clientCount.toNat)
    (hus : ∀ u ∈ us, u.length ≤ sbcpMaxUsernameLength)
    (hroom : attributeHeaderSize + sizeofClientCount + usernamesSize us ≤ sbcpMaxPayloadLength) :
    ∃ m as, Messages.ack clientCount us = .ok m ∧ Packed m .ack (countAttr clientCount :: as) ∧
      as.map Attr.value = us ∧ ∀ a ∈ as, a.type = .username := by
  obtain ⟨m₁, hm₁, hp₁⟩ := addClientCount_packed (packed_ofType .ack) clientCount (Nat.zero_le _)
    (by decide)
  obtain ⟨m₂, as, hm₂, hp₂, hvalues, htypes⟩ := addUsernames_packed hp₁ hus (by
    have : (encodeAttrs ([] ++ [countAttr clientCount])).length =
        attributeHeaderSize + sizeofClientCount := rfl
    omega)
  refine ⟨m₂, as, ?_, hp₂, hvalues, htypes⟩
  rw [Messages.ack, if_pos hcount, hm₁]
  exact hm₂

end ComputerNetworking.Sbcp
