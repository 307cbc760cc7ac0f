/-
# ComputerNetworking.Elixir.RoundTrip -- encoding what was decoded, and the other way around

`Denotes payload attrs` is the grammar of the payloads that `SbcpAttribute.deserialize/1` accepts. Both
directions of the round trip are inductions over it. A CLIENT_COUNT attribute is decoded to an integer,
and `serialize/1` wants a binary, so an attribute list comes back only without one; a length of 65536 or
more is cut off by `<<length::16>>`.
-/
import ComputerNetworking.Elixir.Codec

namespace ComputerNetworking.Elixir

open ComputerNetworking.Lib ComputerNetworking.Sbcp

/-! ## Two bytes -/

@[simp] theorem bigEndian_pair (b₀ b₁ : UInt8) :
    bigEndian [b₀, b₁] = 256 * b₀.toNat + b₁.toNat := by
  simp [bigEndian]

theorem be16_bigEndian (b₀ b₁ : UInt8) : be16 (bigEndian [b₀, b₁]) = [b₀, b₁] := by
  have h₁ : b₁.toNat < 256 := b₁.toNat_lt
  have hhigh : (256 * b₀.toNat + b₁.toNat) / 256 = b₀.toNat := by omega
  have hlow : UInt8.ofNat (256 * b₀.toNat + b₁.toNat) = b₁ := by
    apply UInt8.toNat_inj.mp
    rw [UInt8.toNat_ofNat']
    omega
  rw [bigEndian_pair, be16, hhigh, hlow, UInt8.ofNat_toNat]

theorem bigEndian_be16 {n : Nat} (h : n < 65536) :
    bigEndian [UInt8.ofNat (n / 256), UInt8.ofNat n] = n := by
  rw [bigEndian_pair, UInt8.toNat_ofNat', UInt8.toNat_ofNat']
  omega

theorem bigEndian_pair_lt (b₀ b₁ : UInt8) : bigEndian [b₀, b₁] < 65536 := by
  have h₀ : b₀.toNat < 256 := b₀.toNat_lt
  have h₁ : b₁.toNat < 256 := b₁.toNat_lt
  rw [bigEndian_pair]
  omega

/-! ## The accepted payloads -/

namespace SbcpAttribute

/-- An attribute in binary form. -/
def wire (type : AttributeType) (value : Bytes) : Bytes :=
  le16 (UInt16.ofNat (attributeTypeMap type)) ++ be16 value.length ++ value

/-- What the value of an attribute is decoded to. -/
def decoded (type : AttributeType) (value : Bytes) : Term :=
  if type = .clientCount then .integer (bigEndian value) else .binary value

theorem wire_length (type : AttributeType) (value : Bytes) :
    (wire type value).length = value.length + 4 := by
  simp [wire, be16]
  omega

theorem serialize_eq_ok {attr : SbcpAttribute} {bytes : Bytes} :
    attr.serialize = .ok bytes ↔
      ∃ type value, attr = ⟨some type, .binary value⟩ ∧ bytes = wire type value := by
  obtain ⟨_ | type, _ | value⟩ := attr
  · simp [serialize]
  · simp [serialize]
  · simp [serialize, wire, eq_comm]
  · simp [serialize]

/-- The attribute lists of the accepted payloads. -/
inductive Denotes : Bytes → List SbcpAttribute → Prop
  | nil : Denotes [] []
  | cons (type : AttributeType) (value : Bytes) (short : value.length < 65536) {rest : Bytes}
      {attrs : List SbcpAttribute} (tail : Denotes rest attrs) :
      Denotes (wire type value ++ rest) (⟨some type, decoded type value⟩ :: attrs)

/-- The codes of the attribute types are distinct. -/
theorem reverseAttributeTypeMap_attributeTypeMap (type : AttributeType) :
    reverseAttributeTypeMap (attributeTypeMap type) = some type := by
  cases type <;> decide

theorem attributeTypeMap_of_reverse {code : Nat} {type : AttributeType}
    (h : reverseAttributeTypeMap code = some type) : attributeTypeMap type = code := by
  simpa using List.find?_some h

theorem toPayload_eq_ok {type : Option AttributeType} {length : Nat} {rest behind : Bytes}
    {payload : Term} :
    toPayload type length rest = .ok (payload, behind) ↔
      ∃ t value, type = some t ∧ value.length = length ∧ rest = value ++ behind ∧
        payload = decoded t value := by
  constructor
  · intro h
    unfold toPayload at h
    split at h
    · cases h
    · split_ifs at h with hlength
      cases h
      exact ⟨.clientCount, rest.take length, rfl, List.length_take_of_le hlength, by simp, rfl⟩
    · split_ifs at h with hlength
      cases h
      rename_i t hclientCount
      refine ⟨t, rest.take length, rfl, List.length_take_of_le hlength, by simp, ?_⟩
      rw [decoded, if_neg hclientCount]
  · rintro ⟨t, value, rfl, rfl, rfl, rfl⟩
    cases t <;> simp [toPayload, decoded]

/-- One attribute is decoded, then those behind it. -/
theorem deserialize_cons (t₀ t₁ l₀ l₁ : UInt8) (rest : Bytes) :
    deserialize (t₀ :: t₁ :: l₀ :: l₁ :: rest) =
      (toPayload (reverseAttributeTypeMap (readLe16 t₀ t₁).toNat) (bigEndian [l₀, l₁]) rest >>=
        fun p => deserialize p.2 >>= fun attrs =>
          .ok (⟨reverseAttributeTypeMap (readLe16 t₀ t₁).toNat, p.1⟩ :: attrs)) := by
  rw [deserialize]
  split <;> rename_i heq <;> rw [heq] <;> rfl

theorem Denotes.deserialize_eq {payload : Bytes} {attrs : List SbcpAttribute}
    (h : Denotes payload attrs) : deserialize payload = .ok attrs := by
  induction h with
  | nil => rw [deserialize]
  | cons type value short _ ih =>
      have hbytes := deserialize_cons
        (UInt8.ofNat (UInt16.ofNat (attributeTypeMap type)).toNat)
        (UInt8.ofNat ((UInt16.ofNat (attributeTypeMap type)).toNat / 256))
        (UInt8.ofNat (value.length / 256)) (UInt8.ofNat value.length)
      have hcode : (UInt16.ofNat (attributeTypeMap type)).toNat = attributeTypeMap type := by
        cases type <;> rfl
      rw [readLe16_le16, hcode, reverseAttributeTypeMap_attributeTypeMap,
        bigEndian_be16 short] at hbytes
      simp only [wire, le16, be16, hcode, List.cons_append, List.nil_append]
      rw [hbytes]
      exact bind_eq_ok.mpr ⟨_, toPayload_eq_ok.mpr ⟨type, value, rfl, rfl, rfl, rfl⟩,
        bind_eq_ok.mpr ⟨_, ih, rfl⟩⟩

theorem denotes_of_deserialize {payload : Bytes} {attrs : List SbcpAttribute}
    (h : deserialize payload = .ok attrs) : Denotes payload attrs := by
  induction hn : payload.length using Nat.strongRecOn generalizing payload attrs with
  | ind n ih =>
      rcases payload with _ | ⟨t₀, _ | ⟨t₁, _ | ⟨l₀, _ | ⟨l₁, rest⟩⟩⟩⟩
      · rw [deserialize] at h
        cases h
        exact .nil
      · simp [deserialize] at h
      · simp [deserialize] at h
      · simp [deserialize] at h
      · rw [deserialize_cons] at h
        obtain ⟨⟨payload, behind⟩, hpayload, h⟩ := bind_eq_ok.mp h
        obtain ⟨tail, htail, hattrs⟩ := bind_eq_ok.mp h
        cases hattrs
        obtain ⟨t, value, ht, hlength, rfl, rfl⟩ := toPayload_eq_ok.mp hpayload
        have hwire : t₀ :: t₁ :: l₀ :: l₁ :: (value ++ behind) = wire t value ++ behind := by
          rw [wire, attributeTypeMap_of_reverse ht, UInt16.ofNat_toNat, le16_readLe16, hlength,
            be16_bigEndian]
          rfl
        rw [hwire, ht]
        refine .cons t value (hlength ▸ bigEndian_pair_lt l₀ l₁) (ih behind.length ?_ htail rfl)
        simp only [List.length_cons, List.length_append] at hn
        omega

/-- Decoding accepts the payloads of the grammar. -/
theorem deserialize_eq_ok {payload : Bytes} {attrs : List SbcpAttribute} :
    deserialize payload = .ok attrs ↔ Denotes payload attrs :=
  ⟨denotes_of_deserialize, Denotes.deserialize_eq⟩

end SbcpAttribute

/-! ## Attribute lists -/

namespace SbcpMessage

open SbcpAttribute

theorem serializeAll_cons {attr : SbcpAttribute} {attrs : List SbcpAttribute} {bytes : Bytes} :
    serializeAll (attr :: attrs) = .ok bytes ↔
      ∃ head tail, attr.serialize = .ok head ∧ serializeAll attrs = .ok tail ∧
        bytes = head ++ tail := by
  simp only [serializeAll, bind_eq_ok, Except.ok.injEq]
  constructor
  · rintro ⟨head, hhead, tail, htail, rfl⟩
    exact ⟨head, tail, hhead, htail, rfl⟩
  · rintro ⟨head, tail, hhead, htail, rfl⟩
    exact ⟨head, hhead, tail, htail, rfl⟩

/-- No attribute is a CLIENT_COUNT. -/
def NoClientCount (attrs : List SbcpAttribute) : Prop :=
  ∀ attr ∈ attrs, attr.type ≠ some .clientCount

theorem noClientCount_cons {attr : SbcpAttribute} {attrs : List SbcpAttribute} :
    NoClientCount (attr :: attrs) ↔ attr.type ≠ some .clientCount ∧ NoClientCount attrs :=
  List.forall_mem_cons

/-- What was decoded is encoded as it was, but for CLIENT_COUNT. -/
theorem serializeAll_of_denotes {payload : Bytes} {attrs : List SbcpAttribute}
    (h : Denotes payload attrs) (hno : NoClientCount attrs) : serializeAll attrs = .ok payload := by
  induction h with
  | nil => rfl
  | cons type value short _ ih =>
      obtain ⟨htype, hno⟩ := noClientCount_cons.mp hno
      refine serializeAll_cons.mpr ⟨_, _, serialize_eq_ok.mpr ⟨type, value, ?_, rfl⟩, ih hno, rfl⟩
      rw [decoded, if_neg fun ht => htype (congrArg some ht)]

/-- The number that a CLIENT_COUNT is decoded to is not encoded. -/
theorem noClientCount_of_serializeAll {payload bytes : Bytes} {attrs : List SbcpAttribute}
    (h : Denotes payload attrs) (hbytes : serializeAll attrs = .ok bytes) :
    NoClientCount attrs := by
  induction h generalizing bytes with
  | nil => exact fun _ hmem => absurd hmem List.not_mem_nil
  | cons type value short _ ih =>
      obtain ⟨head, tail, hhead, htail, -⟩ := serializeAll_cons.mp hbytes
      refine noClientCount_cons.mpr ⟨fun ht => ?_, ih htail⟩
      obtain ⟨_, _, hattr, -⟩ := serialize_eq_ok.mp hhead
      cases ht
      cases hattr

/-- What was encoded in less than 65536 bytes is decoded as it was, but for CLIENT_COUNT. -/
theorem denotes_of_serializeAll {payload : Bytes} {attrs : List SbcpAttribute}
    (h : serializeAll attrs = .ok payload) (hlength : payload.length < 65536)
    (hno : NoClientCount attrs) : Denotes payload attrs := by
  induction attrs generalizing payload with
  | nil =>
      cases h
      exact .nil
  | cons attr attrs ih =>
      obtain ⟨_, rest, hhead, hrest, rfl⟩ := serializeAll_cons.mp h
      obtain ⟨type, value, rfl, rfl⟩ := serialize_eq_ok.mp hhead
      obtain ⟨htype, hno⟩ := noClientCount_cons.mp hno
      rw [List.length_append, wire_length] at hlength
      have hdecoded : decoded type value = .binary value := by
        rw [decoded, if_neg fun ht => htype (congrArg some ht)]
      rw [← hdecoded]
      exact .cons type value (by omega) (ih hrest (by omega) hno)

/-! ## Headers -/

/-- The entry that is last in the enumeration counts. -/
theorem reverseTypeMap_eq_some {order : Enumeration} {code : Nat} {type : MessageType} :
    reverseTypeMap order code = some type ↔
      typeMap type = code ∧ ∃ pre post, order.atoms = pre ++ type :: post ∧
        ∀ t ∈ post, typeMap t ≠ code := by
  rw [reverseTypeMap, List.find?_eq_some_iff_append]
  simp only [decide_eq_true_eq, Bool.not_eq_true', decide_eq_false_iff_not]
  refine and_congr_right fun _ => ?_
  constructor
  · rintro ⟨as, bs, hatoms, has⟩
    refine ⟨bs.reverse, as.reverse, ?_, fun t ht => has t (List.mem_reverse.mp ht)⟩
    rw [← List.reverse_reverse order.atoms, hatoms]
    simp
  · rintro ⟨pre, post, hatoms, hpost⟩
    exact ⟨post.reverse, pre.reverse, by simp [hatoms],
      fun t ht => hpost t (List.mem_reverse.mp ht)⟩

theorem mem_atoms (order : Enumeration) (type : MessageType) : type ∈ order.atoms := by
  rw [order.perm.mem_iff]
  cases type <;> decide

/-- A code that no other atom has names its atom. -/
theorem reverseTypeMap_typeMap (order : Enumeration) {type : MessageType}
    (h : ∀ t, typeMap t = typeMap type → t = type) :
    reverseTypeMap order (typeMap type) = some type := by
  rw [reverseTypeMap]
  cases hfind : order.atoms.reverse.find? fun t => typeMap t = typeMap type with
  | none =>
      have hmem : type ∈ order.atoms.reverse := List.mem_reverse.mpr (mem_atoms order type)
      simpa using List.find?_eq_none.mp hfind type hmem
  | some t => rw [h t (by simpa using List.find?_some hfind)]

theorem typeMap_lt (type : MessageType) : typeMap type < 128 := by
  cases type <;> decide

/-- The first two bytes of a message. -/
def codeBytes (version code : Nat) : Bytes := be16 (version % 512 * 128 + code % 128)

/-- A header is read back; its type is looked up. -/
theorem header_deserialize (order : Enumeration) {code length : Nat} (hcode : code < 128)
    (hlength : length < 65536) :
    Header.deserialize order (codeBytes 3 code ++ be16 length) =
      .ok { type := reverseTypeMap order code, length := length } := by
  have hword : 3 % 512 * 128 + code % 128 < 65536 := by omega
  simp only [codeBytes, be16, List.cons_append, List.nil_append, Header.deserialize]
  rw [bigEndian_be16 hword, bigEndian_be16 hlength, if_pos (by omega)]
  congr 3
  omega

/-- The bytes of a header whose type is known. -/
theorem of_header_deserialize {order : Enumeration} {b₀ b₁ b₂ b₃ : UInt8} {header : Header}
    (h : Header.deserialize order [b₀, b₁, b₂, b₃] = .ok header) :
    header.version = 3 ∧ be16 header.length = [b₂, b₃] ∧ header.length < 65536 ∧
      ∀ type, header.type = some type → codeBytes header.version (typeMap type) = [b₀, b₁] := by
  simp only [Header.deserialize] at h
  split_ifs at h with hversion
  cases h
  refine ⟨rfl, be16_bigEndian b₂ b₃, bigEndian_pair_lt b₂ b₃, fun type htype => ?_⟩
  obtain ⟨hcode, -⟩ := reverseTypeMap_eq_some.mp htype
  have hword : 3 % 512 * 128 + typeMap type % 128 = bigEndian [b₀, b₁] := by omega
  rw [codeBytes, hword, be16_bigEndian]

/-! ## Messages -/

theorem serialize_eq_ok {m : SbcpMessage} {bytes : Bytes} :
    m.serialize = .ok bytes ↔
      ∃ payload type, serializeAll m.attributes = .ok payload ∧ m.header.type = some type ∧
        m.header.length = payload.length ∧
        bytes = codeBytes m.header.version (typeMap type) ++ be16 m.header.length ++ payload := by
  simp only [serialize, bind_eq_ok]
  refine exists_congr fun payload => ?_
  cases htype : m.header.type with
  | none => simp
  | some type =>
      simp only [Option.some.injEq, exists_and_left, exists_eq_left']
      refine and_congr_right fun _ => ?_
      split_ifs with hlength
      · simp [hlength, codeBytes, eq_comm]
      · simp [hlength]

theorem deserialize_eq_ok {order : Enumeration} {bytes : Bytes} {m : SbcpMessage} :
    deserialize order bytes = .ok m ↔
      ∃ b₀ b₁ b₂ b₃ payload, bytes = b₀ :: b₁ :: b₂ :: b₃ :: payload ∧
        Header.deserialize order [b₀, b₁, b₂, b₃] = .ok m.header ∧
        Denotes payload m.attributes := by
  constructor
  · intro h
    unfold deserialize at h
    split at h
    · rename_i b₀ b₁ b₂ b₃ payload
      obtain ⟨header, hheader, h⟩ := bind_eq_ok.mp h
      obtain ⟨attributes, hattributes, h⟩ := bind_eq_ok.mp h
      cases h
      exact ⟨b₀, b₁, b₂, b₃, payload, rfl, hheader, denotes_of_deserialize hattributes⟩
    · cases h
  · rintro ⟨b₀, b₁, b₂, b₃, payload, rfl, hheader, hpayload⟩
    exact bind_eq_ok.mpr ⟨_, hheader, bind_eq_ok.mpr ⟨_, hpayload.deserialize_eq, rfl⟩⟩

/-- A message in binary form is decoded; its type is looked up. -/
theorem deserialize_wire (order : Enumeration) {code : Nat} (hcode : code < 128) {payload : Bytes}
    {attrs : List SbcpAttribute} (hlength : payload.length < 65536) (h : Denotes payload attrs) :
    deserialize order (codeBytes 3 code ++ be16 payload.length ++ payload) =
      .ok ⟨{ type := reverseTypeMap order code, length := payload.length }, attrs⟩ :=
  deserialize_eq_ok.mpr ⟨_, _, _, _, payload, rfl, header_deserialize order hcode hlength, h⟩

/-! ## Encoding what was decoded -/

/-- Payloads made of USERNAME, MESSAGE and REASON attributes. -/
inductive StringsOnly : Bytes → Prop
  | nil : StringsOnly []
  | cons (type : AttributeType) (string : type ≠ .clientCount) (value : Bytes)
      (short : value.length < 65536) {rest : Bytes} (tail : StringsOnly rest) :
      StringsOnly (wire type value ++ rest)

theorem StringsOnly.exists_denotes {payload : Bytes} (h : StringsOnly payload) :
    ∃ attrs, Denotes payload attrs ∧ NoClientCount attrs := by
  induction h with
  | nil => exact ⟨[], .nil, fun _ hmem => absurd hmem List.not_mem_nil⟩
  | cons type string value short _ ih =>
      obtain ⟨attrs, hattrs, hno⟩ := ih
      exact ⟨_, .cons type value short hattrs,
        noClientCount_cons.mpr ⟨fun ht => string (Option.some.inj ht), hno⟩⟩

theorem stringsOnly_of_noClientCount {payload : Bytes} {attrs : List SbcpAttribute}
    (h : Denotes payload attrs) (hno : NoClientCount attrs) : StringsOnly payload := by
  induction h with
  | nil => exact .nil
  | cons type value short _ ih =>
      obtain ⟨htype, hno⟩ := noClientCount_cons.mp hno
      exact .cons type (fun ht => htype (congrArg some ht)) value short (ih hno)

/-- A payload denotes one list. -/
theorem noClientCount_iff {payload : Bytes} {attrs : List SbcpAttribute}
    (h : Denotes payload attrs) : NoClientCount attrs ↔ StringsOnly payload := by
  refine ⟨stringsOnly_of_noClientCount h, fun hstrings => ?_⟩
  obtain ⟨attrs', hattrs', hno⟩ := hstrings.exists_denotes
  have heq : attrs = attrs' := Except.ok.inj (h.deserialize_eq.symm.trans hattrs'.deserialize_eq)
  exact heq ▸ hno

theorem serialize_deserialize_iff {order : Enumeration} {bytes : Bytes} {m : SbcpMessage}
    (h : deserialize order bytes = .ok m) (htype : m.header.type ≠ none)
    (hlength : m.header.length + 4 = bytes.length) :
    m.serialize = .ok bytes ↔ StringsOnly (bytes.drop 4) := by
  obtain ⟨b₀, b₁, b₂, b₃, payload, rfl, hheader, hpayload⟩ := deserialize_eq_ok.mp h
  obtain ⟨-, hlengthBytes, -, hcodeBytes⟩ := of_header_deserialize hheader
  obtain ⟨type, htype⟩ := Option.ne_none_iff_exists'.mp htype
  rw [show List.drop 4 (b₀ :: b₁ :: b₂ :: b₃ :: payload) = payload from rfl,
    ← noClientCount_iff hpayload, serialize_eq_ok]
  constructor
  · rintro ⟨bytes, -, hbytes, -⟩
    exact noClientCount_of_serializeAll hpayload hbytes
  · intro hno
    refine ⟨payload, type, serializeAll_of_denotes hpayload hno, htype, by simpa using hlength, ?_⟩
    rw [hcodeBytes type htype, hlengthBytes]
    rfl

/-! ## Decoding what was encoded -/

/-- The messages that `join_message/1`, `message_message/1` and `add_attribute/2` make. -/
inductive Built : SbcpMessage → Prop
  | join {username : Bytes} {m : SbcpMessage} (h : joinMessage username = .ok m) : Built m
  | message {text : Bytes} {m : SbcpMessage} (h : messageMessage text = .ok m) : Built m
  | add {attr : SbcpAttribute} {m m' : SbcpMessage} (built : Built m)
      (h : m.addAttribute attr = .ok m') : Built m'

/-- The header announces what the attributes take. -/
structure Measured (m : SbcpMessage) : Prop where
  version : m.header.version = 3
  type : m.header.type = some .join ∨ m.header.type = some .send
  length : ∃ payload, serializeAll m.attributes = .ok payload ∧ m.header.length = payload.length

theorem Measured.add {attr : SbcpAttribute} {m m' : SbcpMessage} (hm : Measured m)
    (h : m.addAttribute attr = .ok m') : Measured m' := by
  obtain ⟨bytes, hbytes, h⟩ := bind_eq_ok.mp h
  cases h
  obtain ⟨payload, hpayload, hlength⟩ := hm.length
  refine ⟨hm.version, hm.type, bytes ++ payload, ?_, ?_⟩
  · exact serializeAll_cons.mpr ⟨bytes, payload, hbytes, hpayload, rfl⟩
  · show m.header.length + bytes.length = (bytes ++ payload).length
    rw [hlength, List.length_append, Nat.add_comm]

theorem Built.measured {m : SbcpMessage} (h : Built m) : Measured m := by
  induction h with
  | join h => exact Measured.add ⟨rfl, .inl rfl, [], rfl, rfl⟩ h
  | message h => exact Measured.add ⟨rfl, .inr rfl, [], rfl, rfl⟩ h
  | add _ h ih => exact ih.add h

/-- The message comes back from its binary form. -/
def RoundTrips (order : Enumeration) (m : SbcpMessage) : Prop :=
  ∃ bytes, m.serialize = .ok bytes ∧ deserialize order bytes = .ok m

theorem Measured.roundTrips_iff {m : SbcpMessage} (order : Enumeration) (hm : Measured m) :
    RoundTrips order m ↔ m.header.length < 65536 ∧ NoClientCount m.attributes := by
  constructor
  · rintro ⟨bytes, hserialize, hdeserialize⟩
    obtain ⟨_, _, _, _, payload, -, hheader, hpayload⟩ := deserialize_eq_ok.mp hdeserialize
    obtain ⟨-, -, hlength, -⟩ := of_header_deserialize hheader
    obtain ⟨_, _, hbytes, -⟩ := serialize_eq_ok.mp hserialize
    exact ⟨hlength, noClientCount_of_serializeAll hpayload hbytes⟩
  · rintro ⟨hlt, hno⟩
    obtain ⟨payload, hpayload, hlength⟩ := hm.length
    obtain ⟨type, htype, hunique⟩ :
        ∃ type, m.header.type = some type ∧ ∀ t, typeMap t = typeMap type → t = type := by
      rcases hm.type with htype | htype
      · exact ⟨.join, htype, by intro t; cases t <;> decide⟩
      · exact ⟨.send, htype, by intro t; cases t <;> decide⟩
    refine ⟨_, serialize_eq_ok.mpr ⟨payload, type, hpayload, htype, hlength, rfl⟩, ?_⟩
    have hdecoded := deserialize_wire order (typeMap_lt type) (hlength ▸ hlt)
      (denotes_of_serializeAll hpayload (hlength ▸ hlt) hno)
    rw [hm.version, hlength, hdecoded, reverseTypeMap_typeMap order hunique, ← hlength, ← htype,
      ← hm.version]

/-- An accepted binary with a known type and its own length comes back if it has no CLIENT_COUNT; a
message that was built has its payload's length, and comes back if that is less than 65536 and there is no
CLIENT_COUNT. -/
theorem elixir_round_trip_iff (order : Enumeration) :
    (∀ bytes m, deserialize order bytes = .ok m → m.header.type ≠ none →
      m.header.length + 4 = bytes.length →
      (m.serialize = .ok bytes ↔ StringsOnly (bytes.drop 4))) ∧
    (∀ m, Built m →
      (∃ payload, serializeAll m.attributes = .ok payload ∧ m.header.length = payload.length) ∧
      (RoundTrips order m ↔ m.header.length < 65536 ∧ NoClientCount m.attributes)) :=
  ⟨fun _ _ => serialize_deserialize_iff,
    fun _ hm => ⟨hm.measured.length, hm.measured.roundTrips_iff order⟩⟩

/-- Atoms in alphabetical order, as small maps are enumerated. -/
def alphabetical : Enumeration where
  atoms := [.ack, .fwd, .idle, .join, .nak, .offline, .online, .send]
  perm := by decide

/-- A SEND with a name and a text. -/
def sendOfHi : Bytes := [1, 132, 0, 13, 2, 0, 0, 3] ++ ascii "bob" ++ [4, 0, 0, 2] ++ ascii "hi"

/-- The SEND comes back from the message it is decoded to, and `join_message("bob")` from its binary form. -/
theorem elixir_round_trip_join :
    (∃ m, deserialize alphabetical sendOfHi = .ok m ∧
      m.attributes = [.username (ascii "bob"), .message (ascii "hi")] ∧ m.serialize = .ok sendOfHi) ∧
    RoundTrips alphabetical ⟨{ type := some .join, length := 7 }, [.username (ascii "bob")]⟩ := by
  constructor
  · have hpayload : Denotes (sendOfHi.drop 4) [.username (ascii "bob"), .message (ascii "hi")] :=
      .cons .username (ascii "bob") (by decide) (.cons .message (ascii "hi") (by decide) .nil)
    have hstrings : StringsOnly (sendOfHi.drop 4) :=
      .cons .username (by decide) (ascii "bob") (by decide)
        (.cons .message (by decide) (ascii "hi") (by decide) .nil)
    have hdecoded := deserialize_wire alphabetical (typeMap_lt .send) (by decide) hpayload
    exact ⟨_, hdecoded, rfl, ((elixir_round_trip_iff alphabetical).1 sendOfHi
      ⟨{ type := some .send, length := 13 }, [.username (ascii "bob"), .message (ascii "hi")]⟩
      hdecoded (by decide) rfl).mpr hstrings⟩
  · have hjoin : joinMessage (ascii "bob") =
        .ok ⟨{ type := some .join, length := 7 }, [.username (ascii "bob")]⟩ := rfl
    refine ((elixir_round_trip_iff alphabetical).2 _ (.join hjoin)).2.mpr ⟨by decide, ?_⟩
    rintro attr hmem
    rw [List.mem_singleton.mp hmem]
    decide

/-- The ACK that a server answers a JOIN with: a CLIENT_COUNT of 1, then a name. -/
def ackOfOne : Bytes := [1, 135, 0, 13, 3, 0, 0, 2, 0, 1, 2, 0, 0, 3] ++ ascii "bob"

/-- It is decoded, and encoding the result raises. -/
theorem ack_not_serialized :
    ∃ m, deserialize alphabetical ackOfOne = .ok m ∧ m.header.type = some .ack ∧
      m.header.length + 4 = ackOfOne.length ∧ m.serialize = .error .argumentError := by
  have hpayload : Denotes ([3, 0, 0, 2, 0, 1, 2, 0, 0, 3] ++ ascii "bob")
      [⟨some .clientCount, .integer 1⟩, .username (ascii "bob")] :=
    .cons .clientCount [0, 1] (by decide) (.cons .username (ascii "bob") (by decide) .nil)
  exact ⟨_, deserialize_wire alphabetical (typeMap_lt .ack) (by decide) hpayload, rfl, rfl, rfl⟩

end SbcpMessage

end ComputerNetworking.Elixir
