/-
# ComputerNetworking.Chat.ReadMessage -- taking one SBCP message off a descriptor

`read_message` of the chat server reads a 4-byte header into a fresh message, validates it, and
then reads as many payload bytes as the header announces. Both reads are taken to return what is
asked for as far as it is there. A header that `validate()` turns down leaves the function with -1
and its payload on the descriptor: whatever comes next is read as a header.

On the messages that `validate()` accepts the function is the inverse of writing `size()` bytes from
`data()`, so `readMessage` and `Message.wire` form a framing.
-/
import ComputerNetworking.Lib.Framing
import ComputerNetworking.Sbcp.Packed

namespace ComputerNetworking.Chat

open ComputerNetworking.Lib ComputerNetworking.Sbcp

/-! ## The function -/

theorem getLength_le_of_validate {m : Message} (h : m.validate = .ok ()) :
    m.getLength ≤ sbcpMaxPayloadLength := by
  obtain ⟨t, -, hlimit⟩ := Message.validate_eq_ok.mp h
  exact Nat.le_trans hlimit (Message.payloadLimit_le t)

/-- The second `read`, straight into the payload buffer. -/
def readPayload (m : Message) (bytes : Bytes) (h : bytes.length ≤ sbcpMaxPayloadLength) :
    Message where
  header := m.header
  payload := overwrite m.payload 0 bytes
  payload_length := by
    rw [overwrite_length (by rw [m.payload_length]; omega), m.payload_length]

/-- The message object after the first `read`. -/
def readHeader (b₀ b₁ b₂ b₃ : UInt8) : Message :=
  { Message.fresh with header := Header.ofImage b₀ b₁ b₂ b₃ }

/-- `read_message(fd, message)` on the bytes available at `fd`. -/
def readMessage (input : Bytes) : Read Message UInt8 :=
  match input with
  | [] => .eof
  | b₀ :: b₁ :: b₂ :: b₃ :: rest =>
      let message := readHeader b₀ b₁ b₂ b₃
      match h : message.validate with
      | .error (.messageException _) => .rejected rest
      | .error _ => .aborted
      | .ok () =>
          -- `assert(r2 == message->get_length())`
          if message.getLength ≤ rest.length then
            .accepted
              (readPayload message (rest.take message.getLength)
                (Nat.le_trans (List.length_take_le _ _) (getLength_le_of_validate h)))
              (rest.drop message.getLength)
          else .aborted
  -- `assert(r == sizeof(message_t::header_t))`
  | _ => .aborted

/-- The object a caller is left with when the function returned -1. -/
def headerOnly (input : Bytes) : Message :=
  match input with
  | b₀ :: b₁ :: b₂ :: b₃ :: _ => readHeader b₀ b₁ b₂ b₃
  | _ => Message.fresh

/-! ## What it can do -/

/-- **The cases of `read_message`**: nothing there, a failed assertion, a header turned down, or a
valid header and the payload it announces. -/
theorem readMessage_cases (input : Bytes) :
    (input = [] ∧ readMessage input = .eof) ∨
      readMessage input = .aborted ∨
      (∃ b₀ b₁ b₂ b₃ rest what, input = b₀ :: b₁ :: b₂ :: b₃ :: rest ∧
        (readHeader b₀ b₁ b₂ b₃).validate = .error (.messageException what) ∧
        readMessage input = .rejected rest) ∨
      ∃ b₀ b₁ b₂ b₃ bytes rest, ∃ h : bytes.length ≤ sbcpMaxPayloadLength,
        input = b₀ :: b₁ :: b₂ :: b₃ :: (bytes ++ rest) ∧
        (readHeader b₀ b₁ b₂ b₃).validate = .ok () ∧
        bytes.length = (readHeader b₀ b₁ b₂ b₃).getLength ∧
        readMessage input = .accepted (readPayload (readHeader b₀ b₁ b₂ b₃) bytes h) rest := by
  generalize hr : readMessage input = r
  unfold readMessage at hr
  split at hr
  · exact .inl ⟨rfl, hr.symm⟩
  · next b₀ b₁ b₂ b₃ rest =>
      simp only at hr
      split at hr
      · next what hv =>
          exact .inr (.inr (.inl ⟨b₀, b₁, b₂, b₃, rest, what, rfl, hv, hr.symm⟩))
      · exact .inr (.inl hr.symm)
      · next hv =>
          split_ifs at hr with hlen
          · refine .inr (.inr (.inr ⟨b₀, b₁, b₂, b₃, _, _, _, ?_, hv, ?_, hr.symm⟩))
            · rw [List.take_append_drop]
            · rw [List.length_take]
              omega
          · exact .inr (.inl hr.symm)
  · exact .inr (.inl hr.symm)

theorem eq_nil_of_readMessage_eof {input : Bytes} (h : readMessage input = .eof) : input = [] := by
  rcases readMessage_cases input with
    ⟨hnil, -⟩ | ha | ⟨_, _, _, _, _, _, -, -, hr⟩ | ⟨_, _, _, _, _, _, _, -, -, -, hr⟩
  · exact hnil
  · rw [ha] at h
    cases h
  · rw [hr] at h
    cases h
  · rw [hr] at h
    cases h

/-- A header turned down has been taken off the queue. -/
theorem readMessage_rejected {input rest : Bytes} (h : readMessage input = .rejected rest) :
    ∃ b₀ b₁ b₂ b₃ what, input = b₀ :: b₁ :: b₂ :: b₃ :: rest ∧
      (readHeader b₀ b₁ b₂ b₃).validate = .error (.messageException what) := by
  rcases readMessage_cases input with
    ⟨-, hr⟩ | hr | ⟨b₀, b₁, b₂, b₃, _, what, hin, hv, hr⟩ | ⟨_, _, _, _, _, _, _, -, -, -, hr⟩
  · rw [hr] at h
    cases h
  · rw [hr] at h
    cases h
  · rw [hr] at h
    cases h
    exact ⟨b₀, b₁, b₂, b₃, what, hin, hv⟩
  · rw [hr] at h
    cases h

/-- A caller that does not check for -1 and iterates over the object gets the exception again. -/
theorem headerOnly_walk {input rest : Bytes} (h : readMessage input = .rejected rest) :
    (headerOnly input).walk.fault ≠ none := by
  obtain ⟨b₀, b₁, b₂, b₃, what, rfl, hv⟩ := readMessage_rejected h
  show (readHeader b₀ b₁ b₂ b₃).walk.fault ≠ none
  unfold Message.walk
  rw [hv]
  simp

/-! ## What it accepts -/

theorem image_readHeader (b₀ b₁ b₂ b₃ : UInt8) :
    (readHeader b₀ b₁ b₂ b₃).header.image = [b₀, b₁, b₂, b₃] := by
  show [b₀, b₁] ++ le16 (readLe16 b₂ b₃) = [b₀, b₁, b₂, b₃]
  rw [le16_readLe16]
  rfl

/-- `size()` bytes from `data()` are the header and the announced part of the payload. -/
theorem wire_eq (m : Message) :
    m.wire = m.header.image ++ m.payload.take m.getLength := by
  unfold Message.wire Message.size
  rw [List.take_append, Header.image_length, List.take_of_length_le (by simp),
    Nat.add_sub_cancel_left]

theorem readPayload_payload (b₀ b₁ b₂ b₃ : UInt8) {bytes : Bytes}
    (h : bytes.length ≤ sbcpMaxPayloadLength) :
    (readPayload (readHeader b₀ b₁ b₂ b₃) bytes h).payload =
      bytes ++ zeros (sbcpMaxPayloadLength - bytes.length) := by
  show overwrite (zeros sbcpMaxPayloadLength) 0 bytes = _
  simp [overwrite]

/-- What the two reads leave in the object. -/
theorem readPayload_spec (b₀ b₁ b₂ b₃ : UInt8) {bytes : Bytes}
    (h : bytes.length ≤ sbcpMaxPayloadLength)
    (hlen : bytes.length = (readHeader b₀ b₁ b₂ b₃).getLength) :
    (readPayload (readHeader b₀ b₁ b₂ b₃) bytes h).ZeroTail ∧
      (readPayload (readHeader b₀ b₁ b₂ b₃) bytes h).wire = [b₀, b₁, b₂, b₃] ++ bytes := by
  have hgot : (readPayload (readHeader b₀ b₁ b₂ b₃) bytes h).getLength = bytes.length := hlen.symm
  constructor
  · unfold Message.ZeroTail
    rw [hgot, readPayload_payload, List.drop_left]
  · rw [wire_eq, hgot, readPayload_payload, List.take_left]
    show (readHeader b₀ b₁ b₂ b₃).header.image ++ bytes = _
    rw [image_readHeader]

/-- What is accepted is a valid header with its whole payload. -/
theorem exists_of_accepted {q rest : Bytes} {m : Message} (h : readMessage q = .accepted m rest) :
    ∃ b₀ b₁ b₂ b₃ bytes, ∃ hfit : bytes.length ≤ sbcpMaxPayloadLength,
      q = b₀ :: b₁ :: b₂ :: b₃ :: (bytes ++ rest) ∧ (readHeader b₀ b₁ b₂ b₃).validate = .ok () ∧
        bytes.length = (readHeader b₀ b₁ b₂ b₃).getLength ∧
          m = readPayload (readHeader b₀ b₁ b₂ b₃) bytes hfit := by
  rcases readMessage_cases q with ⟨-, hr⟩ | hr | ⟨_, _, _, _, _, _, -, -, hr⟩ |
    ⟨b₀, b₁, b₂, b₃, bytes, behind, hfit, hq, hvalid, hlen, hr⟩
  · cases hr.symm.trans h
  · cases hr.symm.trans h
  · cases hr.symm.trans h
  · cases hr.symm.trans h
    exact ⟨b₀, b₁, b₂, b₃, bytes, hfit, hq, hvalid, hlen, rfl⟩

/-- An accepted message is valid, zero behind its payload, and was in front of the queue. -/
theorem readMessage_accepted {q rest : Bytes} {m : Message}
    (h : readMessage q = .accepted m rest) :
    m.validate = .ok () ∧ m.ZeroTail ∧ q = m.wire ++ rest := by
  obtain ⟨b₀, b₁, b₂, b₃, bytes, hfit, rfl, hvalid, hlen, rfl⟩ := exists_of_accepted h
  obtain ⟨htail, hwire⟩ := readPayload_spec b₀ b₁ b₂ b₃ hfit hlen
  refine ⟨hvalid, htail, ?_⟩
  rw [hwire]
  rfl

/-- `validate()` looks at the header only. -/
theorem validate_congr {m m' : Message} (h : m.header = m'.header) : m.validate = m'.validate := by
  unfold Message.validate Message.validateVersion Message.getVersion Message.getType
    Message.getLength
  rw [h]

/-- A valid header with its whole payload behind it is accepted. -/
theorem readMessage_cons {b₀ b₁ b₂ b₃ : UInt8} (bytes rest : Bytes)
    (hvalid : (readHeader b₀ b₁ b₂ b₃).validate = .ok ())
    (hlen : bytes.length = (readHeader b₀ b₁ b₂ b₃).getLength)
    (h : bytes.length ≤ sbcpMaxPayloadLength) :
    readMessage (b₀ :: b₁ :: b₂ :: b₃ :: (bytes ++ rest)) =
      .accepted (readPayload (readHeader b₀ b₁ b₂ b₃) bytes h) rest := by
  unfold readMessage
  simp only
  split
  · next he => rw [hvalid] at he; cases he
  · next he => rw [hvalid] at he; cases he
  · rw [if_pos (by rw [List.length_append]; omega)]
    simp only [← hlen, List.take_left, List.drop_left]

section NotAccepted

variable {b₀ b₁ b₂ b₃ : UInt8} {bytes : Bytes}

/-- An invalid header is taken alone. -/
theorem readMessage_invalid {what : String}
    (hinvalid : (readHeader b₀ b₁ b₂ b₃).validate = .error (.messageException what)) :
    readMessage (b₀ :: b₁ :: b₂ :: b₃ :: bytes) = .rejected bytes := by
  unfold readMessage
  simp only
  split
  · rfl
  · next hother he => exact absurd (Except.error.inj (he.symm.trans hinvalid)) (hother what)
  · next he => rw [hinvalid] at he; cases he

theorem readMessage_fault {e : Fault} (hfault : (readHeader b₀ b₁ b₂ b₃).validate = .error e)
    (hother : ∀ what, e ≠ .messageException what) :
    readMessage (b₀ :: b₁ :: b₂ :: b₃ :: bytes) = .aborted := by
  unfold readMessage
  simp only
  split
  · next what he => exact absurd (Except.error.inj (hfault.symm.trans he)) (hother what)
  · rfl
  · next he => rw [hfault] at he; cases he

/-- A payload that is too short ends the caller. -/
theorem readMessage_short (hvalid : (readHeader b₀ b₁ b₂ b₃).validate = .ok ())
    (hlen : bytes.length < (readHeader b₀ b₁ b₂ b₃).getLength) :
    readMessage (b₀ :: b₁ :: b₂ :: b₃ :: bytes) = .aborted := by
  unfold readMessage
  simp only
  split
  · next he => rw [hvalid] at he; cases he
  · rfl
  · rw [if_neg (Nat.not_le.mpr hlen)]

end NotAccepted

/-- The wire image of a valid message that is zero behind its payload is read back as that
message, whatever follows it. -/
theorem readMessage_wire {m : Message} (hvalid : m.validate = .ok ()) (htail : m.ZeroTail)
    (rest : Bytes) : readMessage (m.wire ++ rest) = .accepted m rest := by
  have hle := getLength_le_of_validate hvalid
  have hbytes : (m.payload.take m.getLength).length = m.getLength := by
    rw [List.length_take, m.payload_length]
    omega
  -- the header's four bytes are read back as the header
  have hheader : (readHeader m.header.versionAndTypeUpper m.header.versionAndTypeLower
      (UInt8.ofNat m.header.length.toNat) (UInt8.ofNat (m.header.length.toNat / 256))).header =
        m.header := by
    show Header.ofImage _ _ _ _ = m.header
    unfold Header.ofImage
    rw [readLe16_le16]
  -- so the payload is as long as it announces
  have hread := readMessage_cons (m.payload.take m.getLength) rest
    ((validate_congr hheader).trans hvalid)
    (by rw [hbytes, Message.getLength, Message.getLength, hheader]) (by rw [hbytes]; exact hle)
  rw [wire_eq]
  show readMessage (_ :: _ :: _ :: _ :: (m.payload.take m.getLength ++ rest)) = _
  rw [hread]
  congr 1
  apply Message.ext
  · exact hheader
  · rw [readPayload_payload, hbytes, ← htail, List.take_append_drop]

/-! ## The framing -/

theorem readMessage_accepted_lt {q rest : Bytes} {m : Message}
    (h : readMessage q = .accepted m rest) : rest.length < q.length := by
  obtain ⟨-, -, rfl⟩ := readMessage_accepted h
  rw [wire_eq, List.length_append, List.length_append,
    Header.image_length]
  unfold Header.sizeofHeader
  omega

theorem readMessage_rejected_lt {q rest : Bytes} (h : readMessage q = .rejected rest) :
    rest.length < q.length := by
  obtain ⟨b₀, b₁, b₂, b₃, what, rfl, -⟩ := readMessage_rejected h
  simp only [List.length_cons]
  omega

/-- Messages on a FIFO: `read_message` at one end, `write(fd, data(), size())` at the other. -/
def messageFraming : Framing Message UInt8 where
  read := readMessage
  accepted_lt := readMessage_accepted_lt
  rejected_lt := readMessage_rejected_lt
  encode := Message.wire
  Valid m := m.validate = .ok () ∧ m.ZeroTail
  read_nil := rfl
  read_encode h rest := readMessage_wire h.1 h.2 rest

theorem framed_of_packed {m : Message} {t : MessageType} {as : List Attr} (h : Packed m t as)
    (hlimit : (encodeAttrs as).length ≤ Message.payloadLimit t) : messageFraming.Valid m :=
  ⟨h.validate_iff.mpr hlimit, h.zeroTail⟩

end ComputerNetworking.Chat
