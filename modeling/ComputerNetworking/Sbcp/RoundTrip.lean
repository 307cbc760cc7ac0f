/-
# ComputerNetworking.Sbcp.RoundTrip -- from `add_*` calls to the wire and back

A message built by any number of successful `add_username`, `add_message`, `add_reason` and
`add_client_count` calls packs exactly their attributes. So its wire image is the header, with the
9-bit version, the 7-bit type and the length in network order, followed by the attributes' encodings;
and an object into which this image is copied is the message itself, so that iterating over it gives
the attributes back.
-/
import ComputerNetworking.Sbcp.Messages

namespace ComputerNetworking.Sbcp

open ComputerNetworking.Lib

/-! ## Copying an image -/

/-- `sizeof(Message)`. -/
def sizeofMessage : Nat := Header.sizeofHeader + sbcpMaxPayloadLength

namespace Message

/-- The object that `sizeof(Message)` bytes of memory hold. -/
def ofMemory (bytes : Bytes) (h : bytes.length = sizeofMessage) : Message where
  header :=
    have hheader : 4 ≤ bytes.length := by rw [h]; decide
    Header.ofImage bytes[0] bytes[1] bytes[2] bytes[3]
  payload := bytes.drop Header.sizeofHeader
  payload_length := by rw [List.length_drop, h]; rfl

/-- `memcpy` of an image into a zeroed object. -/
def copied (image : Bytes) : Except Fault Message :=
  if h : image.length ≤ sizeofMessage then
    .ok (ofMemory (overwrite (zeros sizeofMessage) 0 image) (by
      rw [overwrite_length (by simpa using h), zeros_length]))
  else .error .undefined

end Message

/-- The image of a packed message, copied into a zeroed object, is the message. -/
theorem Packed.copied {m : Message} {t : MessageType} {as : List Attr} (h : Packed m t as) :
    Message.copied m.wire = .ok m := by
  have hle := h.length_le
  have hlen : m.wire.length ≤ sizeofMessage := by
    rw [h.wire, List.length_append, Header.image_length]
    unfold sizeofMessage
    omega
  have hmem : overwrite (zeros sizeofMessage) 0 m.wire = m.header.image ++ m.payload := by
    rw [overwrite, h.wire, h.payload_eq]
    simp [sizeofMessage, Nat.add_sub_add_left]
  unfold Message.copied
  rw [dif_pos hlen]
  congr 1
  apply Message.ext
  · simp only [hmem]
    show Header.ofImage m.header.versionAndTypeUpper m.header.versionAndTypeLower
      (UInt8.ofNat m.header.length.toNat) (UInt8.ofNat (m.header.length.toNat / 256)) = m.header
    unfold Header.ofImage
    rw [readLe16_le16]
  · simp only [hmem]
    exact List.drop_left' rfl

/-! ## Building a message -/

/-- A call of one of the four `add_*` functions. -/
inductive AddCall where
  | username (value : Bytes)
  | message (value : Bytes)
  | reason (value : Bytes)
  | clientCount (value : UInt16)
  deriving DecidableEq

namespace AddCall

def perform (m : Message) : AddCall → Message.Mutation
  | username value => m.addUsername value
  | message value => m.addMessage value
  | reason value => m.addReason value
  | clientCount value => m.addClientCount value

def type : AddCall → AttributeType
  | username _ => .username
  | message _ => .message
  | reason _ => .reason
  | clientCount _ => .clientCount

/-- The value bytes; a count goes out in network order. -/
def value : AddCall → Bytes
  | username value => value
  | message value => value
  | reason value => value
  | clientCount value => be16 value.toNat

/-- A string value is not longer than the attribute allows. -/
def WithinMax : AddCall → Prop
  | username value => value.length ≤ sbcpMaxUsernameLength
  | message value => value.length ≤ sbcpMaxMessageLength
  | reason value => value.length ≤ sbcpMaxReasonLength
  | clientCount _ => True

instance (c : AddCall) : Decidable c.WithinMax := by
  cases c <;> unfold WithinMax <;> infer_instance

/-- The bytes the attribute takes. -/
def size (c : AddCall) : Nat := attributeHeaderSize + c.value.length

/-- Type, length in network order, value. -/
def encoding (c : AddCall) : Bytes := le16 c.type.code ++ be16 c.value.length ++ c.value

theorem fits {c : AddCall} (h : c.WithinMax) : c.type.Fits c.value.length := by
  cases c with
  | username value => exact h
  | message value => exact h
  | reason value => exact h
  | clientCount value => rfl

/-- The attribute a call adds. -/
def attr (c : AddCall) (h : c.WithinMax) : Attr := ⟨c.type, c.value, c.fits h⟩

theorem encode_attr (c : AddCall) (h : c.WithinMax) : (c.attr h).encode = c.encoding := by
  have hle : c.value.length ≤ 512 := (c.fits h).le
  show le16 c.type.code ++ le16 (htons (UInt16.ofNat c.value.length)) ++ c.value = _
  rw [le16_htons (by omega)]
  rfl

end AddCall

/-- The calls of a list, one after the other. -/
def addAll (m : Message) : List AddCall → Except Fault Message
  | [] => .ok m
  | c :: calls => do
      let m ← Messages.returning (c.perform m)
      addAll m calls

/-- The bytes all the attributes take. -/
def totalSize : List AddCall → Nat
  | [] => 0
  | c :: calls => c.size + totalSize calls

theorem returning_eq_ok {r : Message.Mutation} {m : Message} :
    Messages.returning r = .ok m ↔ r = (.ok (), m) := by
  obtain ⟨_ | _, m'⟩ := r <;> simp [Messages.returning]

/-- The object whose append a call asks for. -/
def AddCall.built : AddCall → Except Fault Attribute
  | .username value => Attribute.ofString .username value
  | .message value => Attribute.ofString .message value
  | .reason value => Attribute.ofString .reason value
  | .clientCount value => Attribute.ofCount .clientCount value

theorem AddCall.perform_eq (m : Message) (c : AddCall) : c.perform m = m.addBuilt c.built := by
  cases c <;> rfl

/-- It stores the attribute. -/
theorem AddCall.built_stores {c : AddCall} (hmax : c.WithinMax) :
    ∃ attr, c.built = .ok attr ∧ attr.Stores (c.attr hmax) := by
  cases c with
  | username value => exact ofString_stores .username (by decide) hmax
  | message value => exact ofString_stores .message (by decide) hmax
  | reason value => exact ofString_stores .reason (by decide) hmax
  | clientCount value =>
      have hbytes : be16 value.toNat = le16 (htons value) := by
        rw [← le16_htons value.toNat_lt, UInt16.ofNat_toNat]
      have hattr : (AddCall.clientCount value).attr hmax = countAttr value := by
        unfold AddCall.attr countAttr
        congr 1
      rw [hattr]
      exact ofCount_stores value

/-- A call that succeeds adds its attribute. -/
theorem perform_packed {m m' : Message} {t : MessageType} {as : List Attr} {c : AddCall}
    (h : Packed m t as) (hmax : c.WithinMax) (hok : c.perform m = (.ok (), m')) :
    Packed m' t (as ++ [c.attr hmax]) := by
  rw [AddCall.perform_eq] at hok
  exact addBuilt_ok h (AddCall.built_stores hmax) hok

/-- The attributes of a list of calls. -/
def attrs : (calls : List AddCall) → (∀ c ∈ calls, c.WithinMax) → List Attr
  | [], _ => []
  | c :: calls, h => c.attr (h c (by simp)) :: attrs calls fun c' hc => h c' (by simp [hc])

/-- **The object built by successful calls packs their attributes.** -/
theorem addAll_packed {m m' : Message} {t : MessageType} {as : List Attr} (h : Packed m t as)
    {calls : List AddCall} (hmax : ∀ c ∈ calls, c.WithinMax) (hok : addAll m calls = .ok m') :
    Packed m' t (as ++ attrs calls hmax) := by
  induction calls generalizing m as with
  | nil =>
      cases hok
      simpa [attrs] using h
  | cons c calls ih =>
      obtain ⟨m₁, hm₁, hrest⟩ := bind_eq_ok.mp hok
      have hp := perform_packed h (hmax c (by simp)) (returning_eq_ok.mp hm₁)
      have htail := ih hp (fun c' hc => hmax c' (by simp [hc])) hrest
      rw [List.append_assoc] at htail
      exact htail

section Attrs

variable (calls : List AddCall) (h : ∀ c ∈ calls, c.WithinMax)

theorem encodeAttrs_attrs : encodeAttrs (attrs calls h) = calls.flatMap AddCall.encoding := by
  induction calls with
  | nil => rfl
  | cons c calls ih =>
      rw [attrs, encodeAttrs_cons, AddCall.encode_attr, ih, List.flatMap_cons]

theorem length_attrs : (encodeAttrs (attrs calls h)).length = totalSize calls := by
  induction calls with
  | nil => rfl
  | cons c calls ih =>
      rw [attrs, encodeAttrs_cons, List.length_append, ih, Attr.encode_length]
      rfl

theorem contents_attrs :
    (attrs calls h).map (fun a => (a.type, a.value)) = calls.map fun c => (c.type, c.value) := by
  induction calls with
  | nil => rfl
  | cons c calls ih =>
      rw [attrs, List.map_cons, ih, List.map_cons]
      rfl

end Attrs

/-! ## The round trip -/

/-- The first two bytes hold the 9-bit version and the 7-bit type, the other two the length. -/
theorem image_make (t : MessageType) {n : Nat} (h : n < 65536) :
    (Header.make sbcpVersion t (UInt16.ofNat n)).image =
      be16 (3 * 128 + t.code.toNat) ++ be16 n := by
  rw [← le16_htons h]
  cases t <;> rfl

/-- The length fields a walk finds are the values' lengths. -/
theorem lengths_refsFrom (offset : Nat) (as : List Attr) :
    (refsFrom offset as).map AttributeRef.length = as.map fun a => a.value.length := by
  induction as generalizing offset with
  | nil => rfl
  | cons a as ih => rw [refsFrom, List.map_cons, ih, List.map_cons]

/-- **A message built by successful `add_*` calls is on the wire what was added, and comes back as
what was added.** -/
theorem wire_round_trip (t : MessageType) (calls : List AddCall) (m : Message)
    (hmax : ∀ c ∈ calls, c.WithinMax) (hadd : addAll (Message.ofType t) calls = .ok m)
    (hvalid : m.validate = .ok ()) :
    m.wire = be16 (3 * 128 + t.code.toNat) ++ be16 (totalSize calls) ++
        calls.flatMap AddCall.encoding ∧
      m.getLength = totalSize calls ∧
      ∃ copy, Message.copied m.wire = .ok copy ∧ copy.walk.fault = none ∧
        copy.walk.attributes.map AttributeRef.length = calls.map (fun c => c.value.length) ∧
        copy.contents = calls.map fun c => (c.type, c.value) := by
  have hp : Packed m t (attrs calls hmax) := by
    simpa using addAll_packed (packed_ofType t) hmax hadd
  have hlimit := hp.validate_iff.mp hvalid
  have hsmall : totalSize calls < 65536 := by
    have hle : (encodeAttrs (attrs calls hmax)).length ≤ 1024 := hp.length_le
    rw [length_attrs] at hle
    omega
  have hvalues := contents_attrs calls hmax
  refine ⟨?_, ?_, m, hp.copied, ?_, ?_, ?_⟩
  · rw [hp.wire, hp.header, length_attrs, image_make t hsmall, encodeAttrs_attrs]
  · rw [hp.getLength, length_attrs]
  · rw [hp.walk hlimit]
  · rw [hp.walk hlimit]
    have hlengths := congrArg (List.map fun p => p.2.length) hvalues
    rw [List.map_map, List.map_map] at hlengths
    exact (lengths_refsFrom 0 _).trans hlengths
  · rw [hp.contents hlimit, hvalues]

/-- An ACK with an empty and a full-length name. -/
theorem wire_round_trip_ack :
    ∃ m, addAll (Message.ofType .ack)
        [.clientCount 3, .username [], .username (ascii "sixteen letters!")] = .ok m ∧
      m.getLength = 30 ∧
      ∃ copy, Message.copied m.wire = .ok copy ∧ copy.contents =
        [(.clientCount, [0, 3]), (.username, []), (.username, ascii "sixteen letters!")] := by
  have hadd : addAll (Message.ofType .ack)
      [.clientCount 3, .username [], .username (ascii "sixteen letters!")] = .ok _ := rfl
  obtain ⟨-, hlength, copy, hcopy, -, -, hcontents⟩ :=
    wire_round_trip .ack _ _ (by decide) hadd rfl
  exact ⟨_, hadd, hlength, copy, hcopy, hcontents⟩

end ComputerNetworking.Sbcp
