/-
# ComputerNetworking.Sbcp.Message -- the SBCP message object

`Message` of libsbcp is the packet itself: a 4-byte header followed by a 1024-byte payload buffer,
sent and received as raw memory (`data()`, `size()`). The header packs a 9-bit version and a 7-bit
type into two bytes and keeps the payload length in network order.

The mutators return the exception they throw, if any, next to the message they leave behind:
`changeToFwd` has already switched the type when its append is refused.
-/
import ComputerNetworking.Sbcp.Attribute

namespace ComputerNetworking.Sbcp

open ComputerNetworking.Lib

/-! ## Message types -/

/-- `Message::Type`. -/
inductive MessageType where
  | join
  | send
  | fwd
  | ack
  | nak
  | online
  | offline
  | idle
  deriving DecidableEq, Repr

namespace MessageType

/-- The enumerators' values. -/
def code : MessageType → UInt8
  | join => 2
  | send => 4
  | fwd => 3
  | ack => 7
  | nak => 5
  | online => 8
  | offline => 6
  | idle => 9

/-- The enumerator a 7-bit value names, if any. -/
def ofCode? (c : UInt8) : Option MessageType :=
  if c = 2 then some join
  else if c = 4 then some send
  else if c = 3 then some fwd
  else if c = 7 then some ack
  else if c = 5 then some nak
  else if c = 8 then some online
  else if c = 6 then some offline
  else if c = 9 then some idle
  else none

theorem code_of_ofCode? {c : UInt8} {t : MessageType} (h : ofCode? c = some t) : t.code = c := by
  simp only [ofCode?] at h
  split_ifs at h <;> cases h <;> simp_all [code]

end MessageType

/-! ## The header -/

/-- `Message::header`. -/
@[ext] structure Header where
  versionAndTypeUpper : UInt8
  versionAndTypeLower : UInt8
  /-- Network byte order, as stored. -/
  length : UInt16
  deriving DecidableEq

namespace Header

/-- `header(version, type, length)`. -/
def make (version : UInt16) (type : MessageType) (length : UInt16) : Header where
  versionAndTypeUpper := (version >>> 1).toUInt8
  versionAndTypeLower := ((version &&& 0x1) <<< 7).toUInt8 ||| type.code
  length := htons length

def getType (h : Header) : Option MessageType :=
  MessageType.ofCode? (h.versionAndTypeLower &&& 0x7F)

def getVersion (h : Header) : UInt16 :=
  (h.versionAndTypeUpper.toUInt16 <<< 1) ||| (h.versionAndTypeLower >>> 7).toUInt16

def getLength (h : Header) : Nat := (ntohs h.length).toNat

def setType (h : Header) (type : MessageType) : Header :=
  { h with versionAndTypeLower := (h.versionAndTypeLower &&& 0x80) ||| type.code }

def setLength (h : Header) (length : UInt16) : Header := { h with length := htons length }

/-- `sizeof(header_t)`. -/
def sizeofHeader : Nat := 4

/-- The header's bytes in memory. -/
def image (h : Header) : Bytes := [h.versionAndTypeUpper, h.versionAndTypeLower] ++ le16 h.length

/-- The header four bytes of memory hold. -/
def ofImage (b₀ b₁ b₂ b₃ : UInt8) : Header := ⟨b₀, b₁, readLe16 b₂ b₃⟩

@[simp] theorem image_length (h : Header) : h.image.length = sizeofHeader := rfl

@[simp] theorem getType_make (t : MessageType) (n : UInt16) :
    (make sbcpVersion t n).getType = some t := by
  show MessageType.ofCode?
    ((((sbcpVersion &&& 0x1) <<< 7).toUInt8 ||| t.code) &&& 0x7F) = some t
  cases t <;> decide

@[simp] theorem getVersion_make (t : MessageType) (n : UInt16) :
    (make sbcpVersion t n).getVersion = sbcpVersion := by
  show ((sbcpVersion >>> 1).toUInt8.toUInt16 <<< 1) |||
    ((((sbcpVersion &&& 0x1) <<< 7).toUInt8 ||| t.code) >>> 7).toUInt16 = sbcpVersion
  cases t <;> decide

@[simp] theorem getLength_make (v : UInt16) (t : MessageType) (n : UInt16) :
    (make v t n).getLength = n.toNat := by
  simp [make, getLength]

@[simp] theorem setType_make (t t' : MessageType) (n : UInt16) :
    (make sbcpVersion t n).setType t' = make sbcpVersion t' n := by
  have hlow : (((sbcpVersion &&& 0x1) <<< 7).toUInt8 ||| t.code) &&& (0x80 : UInt8) =
      ((sbcpVersion &&& 0x1) <<< 7).toUInt8 := by
    cases t <;> decide
  simp only [setType, make, hlow]

@[simp] theorem setLength_make (v : UInt16) (t : MessageType) (n n' : UInt16) :
    (make v t n).setLength n' = make v t n' := rfl

/-- The only bytes with SBCP's version and a given type are the ones `make` writes. -/
theorem eq_make {h : Header} {t : MessageType} (hv : h.getVersion = sbcpVersion)
    (ht : h.getType = some t) : h = make sbcpVersion t (ntohs h.length) := by
  obtain ⟨upper, lower, length⟩ := h
  -- the top bit of the lower byte belongs to the version
  have htop : ∀ n < 256, (UInt8.ofNat n >>> 7).toUInt16 = 0 ∨
      ((UInt8.ofNat n >>> 7).toUInt16 = 1 ∧
        UInt8.ofNat n = 0x80 ||| (UInt8.ofNat n &&& 0x7F)) := by
    decide +kernel
  -- version 3 is a 1 in the upper byte and that bit
  have hupper : ∀ n < 256, (UInt8.ofNat n).toUInt16 <<< 1 ||| 0 ≠ sbcpVersion ∧
      ((UInt8.ofNat n).toUInt16 <<< 1 ||| 1 = sbcpVersion → UInt8.ofNat n = 1) := by
    decide +kernel
  have hcode : t.code = lower &&& 0x7F := MessageType.code_of_ofCode? ht
  have hl := htop lower.toNat lower.toNat_lt
  have hu := hupper upper.toNat upper.toNat_lt
  rw [UInt8.ofNat_toNat] at hl hu
  simp only [getVersion] at hv
  rcases hl with h0 | ⟨h1, hlower⟩
  · rw [h0] at hv
    exact absurd hv hu.1
  · rw [h1] at hv
    rw [← hcode] at hlower
    ext1
    · exact hu.2 hv
    · exact hlower
    · simp [make]

end Header

/-! ## The message object and its checks -/

/-- `Message`: header and payload buffer. -/
@[ext] structure Message where
  header : Header
  payload : Bytes
  payload_length : payload.length = sbcpMaxPayloadLength

namespace Message

/-- `Message(type)`: an empty payload in a zeroed buffer. -/
def ofType (type : MessageType) : Message where
  header := Header.make sbcpVersion type 0
  payload := zeros sbcpMaxPayloadLength
  payload_length := zeros_length _

/-- `Message()`. -/
def fresh : Message := ofType .join

def getType (m : Message) : Option MessageType := m.header.getType

def getVersion (m : Message) : UInt16 := m.header.getVersion

def getLength (m : Message) : Nat := m.header.getLength

def size (m : Message) : Nat := Header.sizeofHeader + m.getLength

/-- The first `size()` bytes at `data()`: what a sender hands to `write`. -/
def wire (m : Message) : Bytes := (m.header.image ++ m.payload).take m.size

def validateVersion (m : Message) : Except Fault Unit :=
  if m.getVersion ≠ sbcpVersion then .error (.messageException "Invalid version") else .ok ()

/-- The largest payload `validate()` accepts for each type. -/
def payloadLimit : MessageType → Nat
  | .join => attributeHeaderSize + sbcpMaxUsernameLength
  | .send => attributeHeaderSize + sbcpMaxMessageLength
  | .fwd => 2 * attributeHeaderSize + sbcpMaxUsernameLength + sbcpMaxMessageLength
  | .idle => attributeHeaderSize + sbcpMaxUsernameLength
  | .ack => sbcpMaxPayloadLength
  | .nak => attributeHeaderSize + sbcpMaxReasonLength
  | .online => sbcpMaxPayloadLength
  | .offline => sbcpMaxPayloadLength

/-- What `validate()` says about a larger one. -/
def payloadOverflow : MessageType → String
  | .join => "JOIN message should not have payload"
  | .send => "SEND message payload overflow"
  | .fwd => "FWD message should have username and message"
  | .idle => "IDLE message should have only username"
  | .ack => "ACK message size overflow"
  | .nak => "NAK message should have only reason attribute"
  | .online => "ONLINE message size overflow"
  | .offline => "OFFLINE message size overflow"

/-- `Message::validate()`: the version, then the payload length against the type's limit. -/
def validate (m : Message) : Except Fault Unit := do
  m.validateVersion
  match m.getType with
  | some t =>
      if m.getLength > payloadLimit t then .error (.messageException (payloadOverflow t))
      else .ok ()
  | none => .error (.messageException "Invalid message type")

theorem payloadLimit_le (t : MessageType) : payloadLimit t ≤ sbcpMaxPayloadLength := by
  cases t <;> decide

theorem validate_eq_ok {m : Message} : m.validate = .ok () ↔
    ∃ t, m.header = Header.make sbcpVersion t (ntohs m.header.length) ∧
      m.getLength ≤ payloadLimit t := by
  constructor
  · intro h
    simp only [validate, validateVersion] at h
    split_ifs at h with hv
    · cases h
    simp only [ne_eq, not_not] at hv
    cases ht : m.getType with
    | none => simp [ht, bind, Except.bind] at h
    | some t =>
        refine ⟨t, Header.eq_make hv ht, ?_⟩
        simp only [ht, bind, Except.bind] at h
        split_ifs at h with hlen
        omega
  · rintro ⟨t, hh, hlen⟩
    have hv : m.getVersion = sbcpVersion := by rw [getVersion, hh, Header.getVersion_make]
    have ht : m.getType = some t := by rw [getType, hh, Header.getType_make]
    simp only [validate, validateVersion, hv, ht, ne_eq, not_true_eq_false, if_false, bind,
      Except.bind]
    rw [if_neg (by omega)]

/-! ## Appending attributes -/

/-- The exception a mutator throws, if any, and the message it leaves. -/
abbrev Mutation := Except Fault Unit × Message

theorem appendFits {m : Message} {attr : Attribute}
    (h : ¬ m.getLength + attr.size > sbcpMaxPayloadLength) :
    (overwrite m.payload m.getLength (attr.image.take attr.size)).length =
      sbcpMaxPayloadLength := by
  rw [overwrite_length, m.payload_length]
  rw [m.payload_length, List.length_take]
  omega

/-- `add_attribute(attr)`: the checks look at the message as it was before the append. -/
def addAttribute (m : Message) (attr : Attribute) : Mutation :=
  match m.validate with
  | .error e => (.error e, m)
  | .ok () =>
      if h : m.getLength + attr.size > sbcpMaxPayloadLength then
        (.error (.messageException "Payload length exceeds maximum length"), m)
      else
        (.ok (),
          { header := m.header.setLength (UInt16.ofNat (m.getLength + attr.size))
            payload := overwrite m.payload m.getLength (attr.image.take attr.size)
            payload_length := appendFits h })

/-- Append an attribute whose construction may fail first. -/
def addBuilt (m : Message) (attr : Except Fault Attribute) : Mutation :=
  match attr with
  | .error e => (.error e, m)
  | .ok a => m.addAttribute a

def addUsername (m : Message) (value : Bytes) : Mutation :=
  m.addBuilt (Attribute.ofString .username value)

def addMessage (m : Message) (value : Bytes) : Mutation :=
  m.addBuilt (Attribute.ofString .message value)

def addReason (m : Message) (value : Bytes) : Mutation :=
  m.addBuilt (Attribute.ofString .reason value)

def addClientCount (m : Message) (value : UInt16) : Mutation :=
  m.addBuilt (Attribute.ofCount .clientCount value)

/-- `change_to_fwd(username)`: the type is switched before the username is appended. -/
def changeToFwd (m : Message) (username : Bytes) : Mutation :=
  if m.getType = some .send then
    ({ m with header := m.header.setType .fwd } : Message).addUsername username
  else (.error .assertion, m)

end Message

end ComputerNetworking.Sbcp
