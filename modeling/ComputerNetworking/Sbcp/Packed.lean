/-
# ComputerNetworking.Sbcp.Packed -- messages as sequences of attributes

What an SBCP message is for, apart from its memory: a type and a list of attributes, each a kind
and a value. `Attr` carries the proof that its value fits the kind, `Attr.encode` is its encoding
on the wire, and `Packed m t as` says that the object `m` is the message of type `t` with exactly
the attributes `as`, packed back to back into an otherwise zeroed buffer.

Two facts connect this view to the code. `addAttribute_packed`: a successful append adds one
attribute at the end. `walk_eq_none_iff`: the messages whose iteration from `begin()` to `end()`
completes are exactly the packed ones, and the walk then visits their attributes in order.
-/
import ComputerNetworking.Sbcp.Traversal

namespace ComputerNetworking.Sbcp

open ComputerNetworking.Lib

/-! ## Attributes and their encoding -/

/-- An attribute: a kind and a value that fits it. -/
structure Attr where
  type : AttributeType
  value : Bytes
  fits : type.Fits value.length
  deriving DecidableEq

namespace Attr

/-- Type in little-endian order, length in network order, value. -/
def encode (a : Attr) : Bytes :=
  le16 a.type.code ++ le16 (htons (UInt16.ofNat a.value.length)) ++ a.value

@[simp] theorem encode_length (a : Attr) :
    a.encode.length = attributeHeaderSize + a.value.length := by
  simp only [encode, List.length_append, le16_length, attributeHeaderSize]

theorem encode_of_length {a : Attr} {n : Nat} (h : a.value.length = n) :
    a.encode = le16 a.type.code ++ le16 (htons (UInt16.ofNat n)) ++ a.value := by
  rw [encode, h]

theorem lengthWord_toNat (a : Attr) :
    (UInt16.ofNat a.value.length).toNat = a.value.length := by
  have := a.fits.le
  rw [UInt16.toNat_ofNat']
  omega

end Attr

/-- The payload of a message with these attributes. -/
def encodeAttrs (as : List Attr) : Bytes := as.flatMap Attr.encode

@[simp] theorem encodeAttrs_nil : encodeAttrs [] = [] := rfl

@[simp] theorem encodeAttrs_cons (a : Attr) (as : List Attr) :
    encodeAttrs (a :: as) = a.encode ++ encodeAttrs as := rfl

@[simp] theorem encodeAttrs_append (as bs : List Attr) :
    encodeAttrs (as ++ bs) = encodeAttrs as ++ encodeAttrs bs := List.flatMap_append

theorem length_le_encodeAttrs (as : List Attr) : as.length ≤ (encodeAttrs as).length := by
  induction as with
  | nil => exact Nat.le_refl 0
  | cons a as ih =>
      rw [encodeAttrs_cons, List.length_append, Attr.encode_length, List.length_cons]
      unfold attributeHeaderSize
      omega

/-- `m` is the message of type `t` with the attributes `as`. -/
structure Packed (m : Message) (t : MessageType) (as : List Attr) : Prop where
  header : m.header = Header.make sbcpVersion t (UInt16.ofNat (encodeAttrs as).length)
  payload : ∃ n, m.payload = encodeAttrs as ++ zeros n

namespace Packed

variable {m m' : Message} {t : MessageType} {as : List Attr}

theorem length_le (h : Packed m t as) : (encodeAttrs as).length ≤ sbcpMaxPayloadLength := by
  obtain ⟨n, hn⟩ := h.payload
  have hlen := m.payload_length
  rw [hn, List.length_append] at hlen
  omega

theorem getLength (h : Packed m t as) : m.getLength = (encodeAttrs as).length := by
  have hle : (encodeAttrs as).length ≤ 1024 := h.length_le
  rw [Message.getLength, h.header, Header.getLength_make, UInt16.toNat_ofNat']
  omega

theorem getType (h : Packed m t as) : m.getType = some t := by
  rw [Message.getType, h.header, Header.getType_make]

theorem payload_eq (h : Packed m t as) :
    m.payload = encodeAttrs as ++ zeros (sbcpMaxPayloadLength - (encodeAttrs as).length) := by
  obtain ⟨n, hn⟩ := h.payload
  have hlen := m.payload_length
  rw [hn, List.length_append, zeros_length] at hlen
  rw [hn, show n = sbcpMaxPayloadLength - (encodeAttrs as).length by omega]

/-- The buffer around one of the attributes. -/
theorem payload_split {bs : List Attr} {a : Attr} (h : Packed m t (as ++ a :: bs)) :
    m.payload = encodeAttrs as ++ (a.encode ++ (encodeAttrs bs ++
      zeros (sbcpMaxPayloadLength - (encodeAttrs (as ++ a :: bs)).length))) := by
  conv_lhs => rw [h.payload_eq, encodeAttrs_append, encodeAttrs_cons]
  simp only [List.append_assoc, encodeAttrs_append, encodeAttrs_cons]

theorem validate_iff (h : Packed m t as) :
    m.validate = .ok () ↔ (encodeAttrs as).length ≤ Message.payloadLimit t := by
  rw [Message.validate_eq_ok, ← h.getLength]
  constructor
  · rintro ⟨t', hh, hlen⟩
    have ht : m.getType = some t' := by rw [Message.getType, hh, Header.getType_make]
    rw [h.getType] at ht
    cases ht
    exact hlen
  · intro hlen
    refine ⟨t, ?_, hlen⟩
    rw [h.header]
    simp [Header.make]

/-- The wire image is the header followed by the attributes. -/
theorem wire (h : Packed m t as) : m.wire = m.header.image ++ encodeAttrs as := by
  obtain ⟨n, hn⟩ := h.payload
  rw [Message.wire, Message.size, h.getLength, hn, List.take_append, Header.image_length,
    List.take_of_length_le (by simp), Nat.add_sub_cancel_left, List.take_left]

/-- Only the header changes when the type is switched. -/
theorem setType (h : Packed m t as) (t' : MessageType) :
    Packed { m with header := m.header.setType t' } t' as where
  header := by rw [h.header, Header.setType_make]
  payload := h.payload

end Packed

theorem packed_ofType (t : MessageType) : Packed (Message.ofType t) t [] where
  header := rfl
  payload := ⟨sbcpMaxPayloadLength, rfl⟩

/-! ## Appending -/

/-- The object `attr` stores the attribute `a`. -/
structure Attribute.Stores (attr : Attribute) (a : Attr) : Prop where
  size : attr.size = a.encode.length
  image : attr.image.take attr.size = a.encode

/-- An object with the right type, length word and leading value bytes. -/
theorem Attribute.stores_of {attr : Attribute} {a : Attr} (htype : attr.type = a.type)
    (hlength : attr.length = htons (UInt16.ofNat a.value.length))
    (hpayload : ∃ rest, attr.payload = a.value ++ rest) : attr.Stores a := by
  obtain ⟨rest, hrest⟩ := hpayload
  have hsize : attr.size = a.encode.length := by
    rw [Attribute.size, Attribute.getLength, hlength, ntohs_htons, a.lengthWord_toNat,
      Attr.encode_length]
  refine ⟨hsize, ?_⟩
  have himage : attr.image = a.encode ++ rest := by
    rw [Attribute.image, Attr.encode, htype, hlength, hrest, List.append_assoc]
    simp
  rw [himage, hsize, List.take_left]

/-- A string of at most the maximum length is stored as it is. -/
theorem setString_stores {type : AttributeType} {maxLength : Nat} {value : Bytes}
    (hmax : value.length ≤ maxLength) (hfits : type.Fits value.length) :
    ∃ attr, (Attribute.ofType type).setString maxLength value = .ok attr ∧
      attr.Stores ⟨type, value, hfits⟩ := by
  have hle : value.length ≤ sizeofPayload := hfits.le
  refine ⟨_, dif_pos hle, Attribute.stores_of rfl ?_ ⟨_, rfl⟩⟩
  simp only
  rw [if_neg (by omega)]

theorem ofString_stores (type : AttributeType) {value : Bytes} (htype : type ≠ .clientCount)
    (hfits : type.Fits value.length) :
    ∃ attr, Attribute.ofString type value = .ok attr ∧ attr.Stores ⟨type, value, hfits⟩ := by
  cases type with
  | username => exact setString_stores hfits hfits
  | message => exact setString_stores hfits hfits
  | reason => exact setString_stores hfits hfits
  | clientCount => exact absurd rfl htype

/-- A string of any length the object has room for is stored up to the maximum length. -/
theorem setString_stores_take {type : AttributeType} {maxLength : Nat} {value : Bytes}
    {attr : Attribute} (hfits : type.Fits (value.take maxLength).length)
    (h : (Attribute.ofType type).setString maxLength value = .ok attr) :
    attr.Stores ⟨type, value.take maxLength, hfits⟩ := by
  unfold Attribute.setString at h
  by_cases hroom : value.length ≤ sizeofPayload
  case neg =>
    rw [dif_neg hroom] at h
    cases h
  rw [dif_pos hroom] at h
  cases h
  refine Attribute.stores_of rfl ?_
    ⟨value.drop maxLength ++ (zeros sizeofPayload).drop value.length, ?_⟩
  · simp only [List.length_take]
    by_cases hlong : value.length > maxLength
    · rw [if_pos hlong, Nat.min_eq_left (by omega)]
    · rw [if_neg hlong, Nat.min_eq_right (by omega)]
  · show overwrite (zeros sizeofPayload) 0 value = _
    rw [← List.append_assoc, List.take_append_drop]
    simp [overwrite]

/-- The attribute of a client count. -/
def countAttr (value : UInt16) : Attr := ⟨.clientCount, le16 (htons value), rfl⟩

theorem ofCount_stores (value : UInt16) :
    ∃ attr, Attribute.ofCount .clientCount value = .ok attr ∧ attr.Stores (countAttr value) :=
  ⟨_, rfl, Attribute.stores_of rfl rfl ⟨_, rfl⟩⟩

/-- **Appending an attribute appends an attribute.** The checks made before the append are the
type's limit on the old payload and the buffer's limit on the new one. -/
theorem addAttribute_packed {m : Message} {t : MessageType} {as : List Attr} {attr : Attribute}
    {a : Attr} (h : Packed m t as) (hattr : attr.Stores a)
    (hold : (encodeAttrs as).length ≤ Message.payloadLimit t)
    (hnew : (encodeAttrs as).length + a.encode.length ≤ sbcpMaxPayloadLength) :
    ∃ m', m.addAttribute attr = (.ok (), m') ∧ Packed m' t (as ++ [a]) := by
  have hvalid := h.validate_iff.mpr hold
  have hroom : ¬ m.getLength + attr.size > sbcpMaxPayloadLength := by
    rw [h.getLength, hattr.size]
    omega
  refine ⟨_, by simp only [Message.addAttribute, hvalid, dif_neg hroom]; rfl, ?_, ?_⟩
  · simp only [h.header, Header.setLength_make, h.getLength, hattr.size, encodeAttrs_append,
      encodeAttrs_cons, encodeAttrs_nil, List.append_nil, List.length_append]
  · obtain ⟨n, hn⟩ := h.payload
    refine ⟨n - a.encode.length, ?_⟩
    simp only [hn, h.getLength, hattr.image, overwrite_append, zeros_drop, encodeAttrs_append,
      encodeAttrs_cons, encodeAttrs_nil, List.append_nil]

/-- The same with an attribute still to be built. -/
theorem addBuilt_packed {m : Message} {t : MessageType} {as : List Attr}
    {built : Except Fault Attribute} {a : Attr} (h : Packed m t as)
    (hbuilt : ∃ attr, built = .ok attr ∧ attr.Stores a)
    (hold : (encodeAttrs as).length ≤ Message.payloadLimit t)
    (hnew : (encodeAttrs as).length + a.encode.length ≤ sbcpMaxPayloadLength) :
    ∃ m', m.addBuilt built = (.ok (), m') ∧ Packed m' t (as ++ [a]) := by
  obtain ⟨attr, rfl, hattr⟩ := hbuilt
  exact addAttribute_packed h hattr hold hnew

/-- An append that succeeded had room: the checks of `add_attribute`, read backwards. -/
theorem addBuilt_ok {m m' : Message} {t : MessageType} {as : List Attr}
    {built : Except Fault Attribute} {a : Attr} (h : Packed m t as)
    (hbuilt : ∃ attr, built = .ok attr ∧ attr.Stores a) (hok : m.addBuilt built = (.ok (), m')) :
    Packed m' t (as ++ [a]) := by
  have happend := hok
  obtain ⟨attr, rfl, hstores⟩ := hbuilt
  unfold Message.addBuilt Message.addAttribute at happend
  -- the first check looks at the old payload
  have hvalid : m.validate = .ok () := by
    cases hv : m.validate with
    | ok _ => rfl
    | error e => simp [hv] at happend
  -- the second one looks at the buffer
  have hroom : (encodeAttrs as).length + a.encode.length ≤ sbcpMaxPayloadLength := by
    by_contra hfull
    have hsize : m.getLength + attr.size > sbcpMaxPayloadLength := by
      rw [h.getLength, hstores.size]
      exact Nat.lt_of_not_le hfull
    simp [hvalid, hsize] at happend
  obtain ⟨m'', hm'', hp⟩ :=
    addBuilt_packed h ⟨attr, rfl, hstores⟩ (h.validate_iff.mp hvalid) hroom
  rw [hok] at hm''
  cases hm''
  exact hp

/-! ## Walking -/

/-- The references a walk yields for attributes packed from an offset on. -/
def refsFrom (offset : Nat) : List Attr → List AttributeRef
  | [] => []
  | a :: as =>
      ⟨offset, a.type, a.value.length⟩ :: refsFrom (offset + a.encode.length) as

theorem refsFrom_append (offset : Nat) (as bs : List Attr) :
    refsFrom offset (as ++ bs) =
      refsFrom offset as ++ refsFrom (offset + (encodeAttrs as).length) bs := by
  induction as generalizing offset with
  | nil => simp [refsFrom]
  | cons a as ih =>
      simp only [List.cons_append, refsFrom, ih, encodeAttrs_cons, List.length_append,
        Nat.add_assoc]

/-- Dereferencing at the encoding of an attribute gives that attribute. -/
theorem attributeAt_encode {m : Message} (pre rest : Bytes) {a : Attr}
    (h : m.payload = pre ++ (a.encode ++ rest)) :
    m.attributeAt pre.length = .ok ⟨pre.length, a.type, a.value.length⟩ := by
  have hdrop : m.payload.drop pre.length = a.encode ++ rest := by rw [h, List.drop_left]
  have hvalid : validateAttribute a.type.code a.value.length = .ok a.type :=
    validateAttribute_eq_ok.mpr ⟨AttributeType.ofCode?_code _, a.fits⟩
  simp only [Message.attributeAt, hdrop, Attr.encode, le16, List.cons_append, List.nil_append,
    readLe16_le16, ntohs_htons, a.lengthWord_toNat, hvalid, Except.map]

/-- **A walk over packed attributes visits exactly them and reaches `end()`**, whatever is behind
them. -/
theorem walkFrom_packed {m : Message} (pre : Bytes) {as : List Attr} {rest : Bytes}
    (hpayload : m.payload = pre ++ (encodeAttrs as ++ rest))
    (hlength : m.getLength = pre.length + (encodeAttrs as).length) :
    m.walkFrom pre.length = ⟨refsFrom pre.length as, none⟩ := by
  induction as generalizing pre with
  | nil =>
      -- the offset is `end()`
      rw [show pre.length = m.getLength by simpa using hlength.symm]
      exact Message.walkFrom_end
  | cons a as ih =>
      have hat : m.attributeAt pre.length = .ok ⟨pre.length, a.type, a.value.length⟩ :=
        attributeAt_encode pre (encodeAttrs as ++ rest) (by simpa using hpayload)
      have hpos : pre.length ≠ m.getLength := by
        rw [hlength, encodeAttrs_cons, List.length_append, Attr.encode_length,
          attributeHeaderSize]
        omega
      have hnext : pre.length + AttributeRef.size ⟨pre.length, a.type, a.value.length⟩ =
          (pre ++ a.encode).length := by
        rw [List.length_append, Attr.encode_length, AttributeRef.size]
      have htail := ih (pre ++ a.encode) (by simpa using hpayload) (by
        rw [hlength, encodeAttrs_cons, List.length_append, List.length_append, Nat.add_assoc])
      rw [Message.walkFrom_ok hpos hat, hnext, htail, List.length_append]
      rfl

theorem Packed.walk {m : Message} {t : MessageType} {as : List Attr} (h : Packed m t as)
    (hlimit : (encodeAttrs as).length ≤ Message.payloadLimit t) :
    m.walk = ⟨refsFrom 0 as, none⟩ := by
  obtain ⟨n, hn⟩ := h.payload
  rw [Message.walk, h.validate_iff.mpr hlimit]
  exact walkFrom_packed [] hn (by simpa using h.getLength)

/-- The values found at the references are the attributes' own. -/
theorem valueAt_refsFrom {m : Message} (pre : Bytes) {as : List Attr} {rest : Bytes}
    (hpayload : m.payload = pre ++ (encodeAttrs as ++ rest)) :
    (refsFrom pre.length as).map (fun r => (r.type, m.valueAt r)) =
      as.map fun a => (a.type, a.value) := by
  induction as generalizing pre with
  | nil => rfl
  | cons a as ih =>
      have hdrop : m.payload.drop (pre.length + attributeHeaderSize) =
          a.value ++ (encodeAttrs as ++ rest) := by
        rw [hpayload, ← List.drop_drop, List.drop_left, encodeAttrs_cons, Attr.encode]
        simp [attributeHeaderSize, le16]
      have hvalue : m.valueAt ⟨pre.length, a.type, a.value.length⟩ = a.value := by
        rw [Message.valueAt, hdrop, List.take_left]
      have htail := ih (pre ++ a.encode) (by simpa using hpayload)
      rw [List.length_append] at htail
      simp only [refsFrom, List.map_cons, hvalue, htail]

/-- **Iterating over a packed message gives its attributes back**, in order. -/
theorem Packed.contents {m : Message} {t : MessageType} {as : List Attr} (h : Packed m t as)
    (hlimit : (encodeAttrs as).length ≤ Message.payloadLimit t) :
    m.contents = as.map fun a => (a.type, a.value) := by
  obtain ⟨n, hn⟩ := h.payload
  rw [Message.contents, h.walk hlimit]
  exact valueAt_refsFrom [] hn

/-- A client count in front is found and read back. -/
theorem getClientCount_packed {m : Message} {t : MessageType} {c : UInt16} {as : List Attr}
    (h : Packed m t (countAttr c :: as))
    (hlimit : (encodeAttrs (countAttr c :: as)).length ≤ Message.payloadLimit t) :
    m.getClientCount = .ok c := by
  obtain ⟨n, hn⟩ := h.payload
  have hdrop : m.payload.drop attributeHeaderSize =
      le16 (htons c) ++ (encodeAttrs as ++ zeros n) := by
    rw [hn, encodeAttrs_cons, Attr.encode]
    simp [attributeHeaderSize, le16, countAttr]
  have hfind : m.findAttribute .clientCount "Client count attribute not found" =
      .ok ⟨0, .clientCount, sizeofClientCount⟩ := by
    rw [Message.findAttribute, h.walk hlimit]
    rfl
  unfold Message.getClientCount
  rw [hfind]
  simp only [bind, Except.bind, Nat.zero_add, hdrop, le16, List.cons_append, List.nil_append,
    readLe16_le16, ntohs_htons]

/-- The buffer is zero behind the announced payload, as in every message read into or built in a
zero-initialised object. -/
def Message.ZeroTail (m : Message) : Prop :=
  m.payload.drop m.getLength = zeros (sbcpMaxPayloadLength - m.getLength)

theorem Packed.zeroTail {m : Message} {t : MessageType} {as : List Attr} (h : Packed m t as) :
    m.ZeroTail := by
  rw [Message.ZeroTail, h.getLength, h.payload_eq, List.drop_left]

/-- Four bytes that pass `Attribute::validate()`, with as many bytes behind them as they announce, are
the encoding of an attribute. -/
theorem exists_encode {t₀ t₁ l₀ l₁ : UInt8} {value : Bytes} {type : AttributeType}
    (h : validateAttribute (readLe16 t₀ t₁) (ntohs (readLe16 l₀ l₁)).toNat = .ok type)
    (hle : (ntohs (readLe16 l₀ l₁)).toNat ≤ value.length) :
    ∃ a : Attr, a.type = type ∧ a.value.length = (ntohs (readLe16 l₀ l₁)).toNat ∧
      t₀ :: t₁ :: l₀ :: l₁ :: value =
        a.encode ++ value.drop (ntohs (readLe16 l₀ l₁)).toNat := by
  obtain ⟨hcode, hfits⟩ := validateAttribute_eq_ok.mp h
  have hvalue : (value.take (ntohs (readLe16 l₀ l₁)).toNat).length =
      (ntohs (readLe16 l₀ l₁)).toNat := by
    rw [List.length_take]
    omega
  refine ⟨⟨type, value.take (ntohs (readLe16 l₀ l₁)).toNat, by rwa [hvalue]⟩, rfl, hvalue, ?_⟩
  rw [Attr.encode_of_length hvalue, AttributeType.code_of_ofCode? hcode, le16_readLe16,
    UInt16.ofNat_toNat, htons_ntohs, le16_readLe16]
  simp

/-- A dereference looks at four bytes. -/
theorem attributeAt_cons {m : Message} {offset : Nat} {t₀ t₁ l₀ l₁ : UInt8} {rest : Bytes}
    (h : m.payload.drop offset = t₀ :: t₁ :: l₀ :: l₁ :: rest) :
    m.attributeAt offset =
      (validateAttribute (readLe16 t₀ t₁) (ntohs (readLe16 l₀ l₁)).toNat).map
        fun type => ⟨offset, type, (ntohs (readLe16 l₀ l₁)).toNat⟩ := by
  unfold Message.attributeAt
  rw [h]

/-- A dereference that succeeds stands at the encoding of an attribute, as far as that lies in the
buffer. -/
theorem attributeAt_eq_ok {m : Message} {offset : Nat} {r : AttributeRef}
    (h : m.attributeAt offset = .ok r) (hin : offset + r.size ≤ m.payload.length) :
    ∃ a : Attr, a.encode.length = r.size ∧
      m.payload.drop offset = a.encode ++ m.payload.drop (offset + r.size) := by
  have hbehind : (m.payload.drop offset).length = m.payload.length - offset := List.length_drop
  unfold Message.attributeAt at h
  split at h
  · next t₀ t₁ l₀ l₁ value hdrop =>
      simp only at h
      cases hv : validateAttribute (readLe16 t₀ t₁) (ntohs (readLe16 l₀ l₁)).toNat with
      | error e =>
          rw [hv] at h
          cases h
      | ok type =>
          rw [hv] at h
          cases h
          simp only [AttributeRef.size, attributeHeaderSize] at hin ⊢
          simp only [hdrop, List.length_cons] at hbehind
          have hvalue : (ntohs (readLe16 l₀ l₁)).toNat ≤ value.length := by omega
          obtain ⟨a, -, halen, haenc⟩ := exists_encode hv hvalue
          have hsize : a.encode.length = 4 + (ntohs (readLe16 l₀ l₁)).toNat := by
            rw [Attr.encode_length, halen, attributeHeaderSize]
          refine ⟨a, hsize, ?_⟩
          rw [← List.drop_drop, hdrop, haenc, List.drop_left' hsize]
  · cases h

/-- **A walk that reaches `end()` has visited attributes that tile the announced payload.** The
induction follows the walk: what is behind an attribute ends at `end()`, so the attribute lies in
front of it. -/
theorem tiled_of_walkFrom {m : Message} {offset : Nat} (hlength : m.getLength ≤ sbcpMaxPayloadLength)
    (h : (m.walkFrom offset).fault = none) :
    ∃ as, offset + (encodeAttrs as).length = m.getLength ∧
      m.payload.drop offset = encodeAttrs as ++ m.payload.drop m.getLength := by
  induction offset using Message.walkFrom.induct (m := m) with
  | case1 => exact ⟨[], by simp, by simp⟩
  | case2 offset hne e he =>
      rw [Message.walkFrom_error hne he] at h
      cases h
  | case3 offset hne r hr ih =>
      rw [Message.walkFrom_ok hne hr] at h
      obtain ⟨as, has, hdrop⟩ := ih h
      have hin : offset + r.size ≤ m.payload.length := by
        rw [m.payload_length]
        omega
      obtain ⟨a, halen, haenc⟩ := attributeAt_eq_ok hr hin
      refine ⟨a :: as, ?_, ?_⟩
      · rw [encodeAttrs_cons, List.length_append, halen, ← has, Nat.add_assoc]
      · rw [haenc, hdrop, encodeAttrs_cons, List.append_assoc]

/-- **The messages an iteration accepts are the packed ones within their type's limit.** -/
theorem walk_fault_eq_none_iff {m : Message} (htail : m.ZeroTail) :
    m.walk.fault = none ↔
      ∃ t as, Packed m t as ∧ (encodeAttrs as).length ≤ Message.payloadLimit t := by
  constructor
  · intro h
    unfold Message.walk at h
    cases hv : m.validate with
    | error e => rw [hv] at h; cases h
    | ok _ =>
        rw [hv] at h
        obtain ⟨t, hheader, hlimit⟩ := Message.validate_eq_ok.mp hv
        have hmax := Message.payloadLimit_le t
        obtain ⟨as, has, hdrop⟩ := tiled_of_walkFrom (by omega) h
        rw [htail, List.drop_zero] at hdrop
        rw [Nat.zero_add] at has
        refine ⟨t, as, ⟨?_, _, hdrop⟩, by rwa [has]⟩
        rw [has, Message.getLength, Header.getLength, UInt16.ofNat_toNat]
        exact hheader
  · rintro ⟨t, as, h, hlimit⟩
    rw [h.walk hlimit]

end ComputerNetworking.Sbcp
