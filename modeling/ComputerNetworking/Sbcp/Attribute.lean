/-
# ComputerNetworking.Sbcp.Attribute -- SBCP attributes as libsbcp stores them

`Message::Attribute` of libsbcp is a raw struct: a 16-bit type in host order, a 16-bit length in
network order and a 512-byte union for the value. This module follows `sbcp.cpp` from the
constructors down to the setters, including what the setters do with a value that is too long: the
stored length is clamped, the copy is not.

Every operation that can throw, fail an assertion or leave the object it writes to returns in
`Except Fault`; nothing here is repaired on the way.
-/
import ComputerNetworking.Lib.Bytes

namespace ComputerNetworking.Sbcp

open ComputerNetworking.Lib

/-! ## Limits and faults -/

/-- `SBCP_VERSION`. -/
def sbcpVersion : UInt16 := 3

/-- `SBCP_MAX_PAYLOAD_LENGTH`. -/
def sbcpMaxPayloadLength : Nat := 1024

/-- `SBCP_MAX_USERNAME_LENGTH`. -/
def sbcpMaxUsernameLength : Nat := 16

/-- `SBCP_MAX_MESSAGE_LENGTH`. -/
def sbcpMaxMessageLength : Nat := 512

/-- `SBCP_MAX_REASON_LENGTH`. -/
def sbcpMaxReasonLength : Nat := 32

/-- How a libsbcp operation can fail to return. -/
inductive Fault where
  /-- A thrown `MessageException`. -/
  | messageException (what : String)
  /-- A thrown `std::out_of_range`. -/
  | outOfRange (what : String)
  /-- A failed `assert`. -/
  | assertion
  /-- An access outside the object: undefined behaviour. -/
  | undefined
  deriving DecidableEq, Repr

/-! ## Attribute types -/

/-- `Message::Attribute::Type`. -/
inductive AttributeType where
  | username
  | message
  | reason
  | clientCount
  deriving DecidableEq, Repr

namespace AttributeType

/-- The enumerators' values. -/
def code : AttributeType → UInt16
  | username => 2
  | message => 4
  | reason => 1
  | clientCount => 3

/-- The enumerator a stored 16-bit value names, if any. -/
def ofCode? (c : UInt16) : Option AttributeType :=
  if c = 2 then some username
  else if c = 4 then some message
  else if c = 1 then some reason
  else if c = 3 then some clientCount
  else none

@[simp] theorem ofCode?_code (t : AttributeType) : ofCode? t.code = some t := by
  cases t <;> rfl

theorem code_of_ofCode? {c : UInt16} {t : AttributeType} (h : ofCode? c = some t) :
    t.code = c := by
  simp only [ofCode?] at h
  split_ifs at h <;> cases h <;> simp_all [code]

/-- Every type code fits the low byte, so in memory it is that byte followed by a zero. -/
theorem le16_code (t : AttributeType) : ∃ b, b ≠ 0 ∧ le16 t.code = [b, 0] := by
  cases t
  · exact ⟨2, by decide, rfl⟩
  · exact ⟨4, by decide, rfl⟩
  · exact ⟨1, by decide, rfl⟩
  · exact ⟨3, by decide, rfl⟩

end AttributeType

/-- `sizeof(client_count_t)`. -/
def sizeofClientCount : Nat := 2

/-- `Attribute::validate()` on the two header fields of an attribute in memory: the type and the
length already converted to host order. -/
def validateAttribute (typeCode : UInt16) (length : Nat) : Except Fault AttributeType :=
  match AttributeType.ofCode? typeCode with
  | some .username =>
      if length > sbcpMaxUsernameLength then
        .error (.messageException "Username length exceeds maximum length")
      else .ok .username
  | some .message =>
      if length > sbcpMaxMessageLength then
        .error (.messageException "Message length exceeds maximum length")
      else .ok .message
  | some .reason =>
      if length > sbcpMaxReasonLength then
        .error (.messageException "Reason length exceeds maximum length")
      else .ok .reason
  | some .clientCount =>
      if length ≠ sizeofClientCount then
        .error (.messageException "Invalid client count length")
      else .ok .clientCount
  | none => .error (.messageException "Invalid attribute type")

/-- The lengths `Attribute::validate()` lets through. -/
def AttributeType.Fits : AttributeType → Nat → Prop
  | .username, n => n ≤ sbcpMaxUsernameLength
  | .message, n => n ≤ sbcpMaxMessageLength
  | .reason, n => n ≤ sbcpMaxReasonLength
  | .clientCount, n => n = sizeofClientCount

instance (t : AttributeType) (n : Nat) : Decidable (t.Fits n) := by
  cases t <;> unfold AttributeType.Fits <;> infer_instance

theorem AttributeType.Fits.le {t : AttributeType} {n : Nat} (h : t.Fits n) : n ≤ 512 := by
  cases t <;>
    simp only [Fits, sbcpMaxUsernameLength, sbcpMaxMessageLength, sbcpMaxReasonLength,
      sizeofClientCount] at h <;> omega

theorem validateAttribute_eq_ok {c : UInt16} {n : Nat} {t : AttributeType} :
    validateAttribute c n = .ok t ↔ AttributeType.ofCode? c = some t ∧ t.Fits n := by
  unfold validateAttribute
  cases AttributeType.ofCode? c with
  | none => simp
  | some u =>
      cases u <;> simp only <;> split_ifs with hlen <;>
        simp only [Except.ok.injEq, Option.some.injEq, false_iff, not_and]
      all_goals first
        | (rintro rfl; simpa [AttributeType.Fits] using hlen)
        | (refine ⟨?_, And.left⟩
           rintro rfl
           refine ⟨rfl, ?_⟩
           simp only [AttributeType.Fits]
           omega)

/-! ## The attribute object -/

/-- `sizeof(payload_t)`: the union is as large as its largest member, the message text. -/
def sizeofPayload : Nat := 512

/-- `sizeof(type_t) + sizeof(length_t)`. -/
def attributeHeaderSize : Nat := 4

/-- `Message::Attribute`. -/
structure Attribute where
  type : AttributeType
  /-- Network byte order, as stored. -/
  length : UInt16
  payload : Bytes
  payload_length : payload.length = sizeofPayload

namespace Attribute

def getLength (a : Attribute) : Nat := (ntohs a.length).toNat

def size (a : Attribute) : Nat := attributeHeaderSize + a.getLength

/-- The object's bytes in memory. -/
def image (a : Attribute) : Bytes := le16 a.type.code ++ le16 a.length ++ a.payload

/-- `Attribute(type)`: no value yet. -/
def ofType (type : AttributeType) : Attribute where
  type := type
  length := htons 0
  payload := zeros sizeofPayload
  payload_length := zeros_length _

/-- The common body of the string setters. The length is converted to 16 bits and clamped to
`maxLength`; `memcpy` then copies the whole value, clamped or not. -/
def setString (a : Attribute) (maxLength : Nat) (value : Bytes) : Except Fault Attribute :=
  if h : value.length ≤ sizeofPayload then
    .ok { a with
      length :=
        if value.length > maxLength then htons (UInt16.ofNat maxLength)
        else htons (UInt16.ofNat value.length)
      payload := overwrite a.payload 0 value
      payload_length := by
        rw [overwrite_length (by rw [a.payload_length]; omega), a.payload_length] }
  else .error .undefined

def setUsername (a : Attribute) (value : Bytes) : Except Fault Attribute :=
  if a.type = .username then a.setString sbcpMaxUsernameLength value else .error .assertion

def setMessage (a : Attribute) (value : Bytes) : Except Fault Attribute :=
  if a.type = .message then a.setString sbcpMaxMessageLength value else .error .assertion

def setReason (a : Attribute) (value : Bytes) : Except Fault Attribute :=
  if a.type = .reason then a.setString sbcpMaxReasonLength value else .error .assertion

def setClientCount (a : Attribute) (value : UInt16) : Except Fault Attribute :=
  if a.type = .clientCount then
    .ok { a with
      length := htons (UInt16.ofNat sizeofClientCount)
      payload := overwrite a.payload 0 (le16 (htons value))
      payload_length := by
        rw [overwrite_length (by rw [a.payload_length, le16_length]; decide), a.payload_length] }
  else .error .assertion

/-- `Attribute(type, value, length)`; the value is the `length` bytes it points to. -/
def ofString (type : AttributeType) (value : Bytes) : Except Fault Attribute :=
  match type with
  | .username => (ofType .username).setUsername value
  | .message => (ofType .message).setMessage value
  | .reason => (ofType .reason).setReason value
  | .clientCount => .error (.messageException "Invalid attribute type")

/-- `Attribute(type, value)` for a client count. -/
def ofCount (type : AttributeType) (value : UInt16) : Except Fault Attribute :=
  if type = .clientCount then (ofType type).setClientCount value else .error .assertion

end Attribute

end ComputerNetworking.Sbcp
