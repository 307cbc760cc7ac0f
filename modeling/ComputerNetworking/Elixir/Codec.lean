/-
# ComputerNetworking.Elixir.Codec -- the SBCP codec in Elixir

`SbcpMessage` and `SbcpAttribute` of `sbcp.ex`. A message is a header and a list of attributes; decoding
matches binaries, and whatever does not match raises. Codes are turned back into atoms through maps that
are the type maps with keys and values exchanged. In the map of message types two atoms have the same
code, so one of them is lost there; which one depends on the order in which the runtime enumerates a map,
and that is a parameter.
-/
import ComputerNetworking.Sbcp.Message

namespace ComputerNetworking.Elixir

open ComputerNetworking.Lib ComputerNetworking.Sbcp

/-- The errors that are raised. -/
inductive Raised where
  | matchError
  | functionClauseError
  | argumentError
  deriving DecidableEq, Repr

/-! ## Type maps -/

/-- `@type_map` of `SbcpMessage.Header`. -/
def typeMap : MessageType → Nat
  | .join => 2
  | .send => 4
  | .fwd => 6
  | .ack => 7
  | .nak => 5
  | .online => 8
  | .offline => 6
  | .idle => 9

/-- The keys of `@type_map`. -/
def typeAtoms : List MessageType := [.join, .send, .fwd, .ack, .nak, .online, .offline, .idle]

/-- The order in which the runtime enumerates `@type_map`. -/
structure Enumeration where
  atoms : List MessageType
  perm : atoms.Perm typeAtoms

/-- `Map.get(@reverse_type_map, code)`, or `nil`; in `Map.new` a later entry replaces an earlier one. -/
def reverseTypeMap (order : Enumeration) (code : Nat) : Option MessageType :=
  order.atoms.reverse.find? fun t => typeMap t = code

/-- `@type_map` of `SbcpAttribute`. -/
def attributeTypeMap : AttributeType → Nat
  | .username => 2
  | .message => 4
  | .reason => 1
  | .clientCount => 3

/-- `Map.get(@reverse_type_map, code)` there. -/
def reverseAttributeTypeMap (code : Nat) : Option AttributeType :=
  [AttributeType.username, .message, .reason, .clientCount].find? fun t => attributeTypeMap t = code

/-! ## Attributes -/

/-- A payload: a binary or an integer. -/
inductive Term where
  | binary (bytes : Bytes)
  | integer (n : Int)
  deriving DecidableEq

/-- `%SbcpAttribute{}`; a type that is not in the map is `none`, such as `nil`. -/
structure SbcpAttribute where
  type : Option AttributeType
  payload : Term
  deriving DecidableEq

/-- The unsigned integer in a binary. -/
def bigEndian (bytes : Bytes) : Nat := bytes.foldl (fun n b => 256 * n + b.toNat) 0

namespace SbcpAttribute

/-- `SbcpAttribute.serialize/1`. -/
def serialize (attr : SbcpAttribute) : Except Raised Bytes :=
  match attr.type, attr.payload with
  | none, _ => .error .argumentError
  -- `byte_size` of an integer
  | some _, .integer _ => .error .argumentError
  | some type, .binary payload =>
      .ok (le16 (UInt16.ofNat (attributeTypeMap type)) ++ be16 payload.length ++ payload)

/-- `to_payload/3`. -/
def toPayload (type : Option AttributeType) (length : Nat) (rest : Bytes) :
    Except Raised (Term × Bytes) :=
  match type with
  | none => .error .functionClauseError
  | some .clientCount =>
      if length ≤ rest.length then .ok (.integer (bigEndian (rest.take length)), rest.drop length)
      else .error .matchError
  | some _ =>
      if length ≤ rest.length then .ok (.binary (rest.take length), rest.drop length)
      else .error .matchError

/-- What is left is behind the payload. -/
theorem length_le_of_toPayload {type : Option AttributeType} {length : Nat} {rest behind : Bytes}
    {payload : Term} (h : toPayload type length rest = .ok (payload, behind)) :
    behind.length ≤ rest.length := by
  unfold toPayload at h
  split at h
  · cases h
  · split_ifs at h
    cases h
    rw [List.length_drop]
    omega
  · split_ifs at h
    cases h
    rw [List.length_drop]
    omega

/-- `SbcpAttribute.deserialize/1`. -/
def deserialize : Bytes → Except Raised (List SbcpAttribute)
  | [] => .ok []
  | t₀ :: t₁ :: l₀ :: l₁ :: rest =>
      let type := reverseAttributeTypeMap (readLe16 t₀ t₁).toNat
      match _h : toPayload type (bigEndian [l₀, l₁]) rest with
      | .error e => .error e
      | .ok (payload, behind) => do
          let attrs ← deserialize behind
          .ok (⟨type, payload⟩ :: attrs)
  | _ => .error .functionClauseError
termination_by payload => payload.length
decreasing_by
  have := length_le_of_toPayload _h
  simp only [List.length_cons]
  omega

/-- `SbcpAttribute.username/1`. -/
def username (username : Bytes) : SbcpAttribute := ⟨some .username, .binary username⟩

/-- `SbcpAttribute.message/1`. -/
def message (message : Bytes) : SbcpAttribute := ⟨some .message, .binary message⟩

end SbcpAttribute

/-! ## Messages -/

/-- `%SbcpMessage.Header{}`. -/
structure Header where
  type : Option MessageType
  length : Nat := 0
  version : Nat := 3
  deriving DecidableEq

/-- `SbcpMessage.Header.deserialize/1`. -/
def Header.deserialize (order : Enumeration) : Bytes → Except Raised Header
  | [b₀, b₁, b₂, b₃] =>
      if bigEndian [b₀, b₁] / 128 = 3 then
        .ok { type := reverseTypeMap order (bigEndian [b₀, b₁] % 128), length := bigEndian [b₂, b₃] }
      else .error .functionClauseError
  | _ => .error .functionClauseError

/-- `%SbcpMessage{}`. -/
structure SbcpMessage where
  header : Header
  attributes : List SbcpAttribute := []
  deriving DecidableEq

namespace SbcpMessage

/-- `Enum.map(&SbcpAttribute.serialize/1) |> Enum.join()`. -/
def serializeAll : List SbcpAttribute → Except Raised Bytes
  | [] => .ok []
  | attr :: attrs => do
      let bytes ← attr.serialize
      let rest ← serializeAll attrs
      .ok (bytes ++ rest)

/-- `SbcpMessage.serialize/1`. -/
def serialize (message : SbcpMessage) : Except Raised Bytes := do
  let payload ← serializeAll message.attributes
  match message.header.type with
  | none => .error .argumentError
  | some type =>
      -- `^length = byte_size(payload)`
      if message.header.length = payload.length then
        .ok (be16 (message.header.version % 512 * 128 + typeMap type % 128) ++
          be16 message.header.length ++ payload)
      else .error .matchError

/-- `SbcpMessage.deserialize/1`. -/
def deserialize (order : Enumeration) : Bytes → Except Raised SbcpMessage
  | b₀ :: b₁ :: b₂ :: b₃ :: payload => do
      let header ← Header.deserialize order [b₀, b₁, b₂, b₃]
      let attributes ← SbcpAttribute.deserialize payload
      .ok ⟨header, attributes⟩
  | _ => .error .matchError

/-- `SbcpMessage.add_attribute/2`. -/
def addAttribute (message : SbcpMessage) (attr : SbcpAttribute) : Except Raised SbcpMessage := do
  let bytes ← attr.serialize
  .ok
    { header := { message.header with length := message.header.length + bytes.length }
      attributes := attr :: message.attributes }

/-- `SbcpMessage.join_message/1`. -/
def joinMessage (username : Bytes) : Except Raised SbcpMessage :=
  addAttribute { header := { type := some .join } } (.username username)

/-- `SbcpMessage.message_message/1`. -/
def messageMessage (message : Bytes) : Except Raised SbcpMessage :=
  addAttribute { header := { type := some .send } } (.message message)

end SbcpMessage

end ComputerNetworking.Elixir
