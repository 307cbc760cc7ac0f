/-
# ComputerNetworking.Elixir.Agreement -- what the C++ constructors build, read in Elixir

`Construction` is a call of one of the constructors of libsbcp. What they build is packed, and the
attributes of a packed message are a payload of the Elixir grammar, whatever the type. The two tables of
message types differ: FWD is 3 in C++ and 6 in Elixir, which is also the code of OFFLINE.
-/
import ComputerNetworking.Elixir.RoundTrip
import ComputerNetworking.Sbcp.RoundTrip

namespace ComputerNetworking.Elixir

open ComputerNetworking.Lib ComputerNetworking.Sbcp

/-! ## Constructions -/

/-- A call of a constructor of libsbcp. -/
inductive Construction where
  | join (username : Bytes)
  | send (message : Bytes)
  | fwd (username message : Bytes)
  | ack (clientCount : UInt16) (usernames : List Bytes)
  | nak (reason : Bytes)
  | online (username : Bytes)
  | offline (username : Bytes)
  | idle (username : Bytes)
  /-- `IDLE()`. -/
  | idleOfNoOne

namespace Construction

/-- What the call returns. -/
def build : Construction → Except Fault Message
  | join username => Messages.join username
  | send message => Messages.send message
  | fwd username message => Messages.fwd username message
  | ack clientCount usernames => Messages.ack clientCount usernames
  | nak reason => Messages.nak reason
  | online username => Messages.online username
  | offline username => Messages.offline username
  | idle username => Messages.idle username
  | idleOfNoOne => .ok (Message.ofType .idle)

/-- The type of the message. -/
def type : Construction → MessageType
  | join _ => .join
  | send _ => .send
  | fwd _ _ => .fwd
  | ack _ _ => .ack
  | nak _ => .nak
  | online _ => .online
  | offline _ => .offline
  | idle _ => .idle
  | idleOfNoOne => .idle

/-- The values are within the size limits. -/
def WithinLimits : Construction → Prop
  | join username => username.length ≤ sbcpMaxUsernameLength
  | send message => message.length ≤ sbcpMaxMessageLength
  | fwd username message =>
      username.length ≤ sbcpMaxUsernameLength ∧ message.length ≤ sbcpMaxMessageLength
  | ack _ usernames => ∀ username ∈ usernames, username.length ≤ sbcpMaxUsernameLength
  | nak reason => reason.length ≤ sbcpMaxReasonLength
  | online username => username.length ≤ sbcpMaxUsernameLength
  | offline username => username.length ≤ sbcpMaxUsernameLength
  | idle username => username.length ≤ sbcpMaxUsernameLength
  | idleOfNoOne => True

/-- The message of one username is within every type's limit. -/
theorem username_limit (type : MessageType) {u : Bytes} (hu : u.length ≤ sbcpMaxUsernameLength) :
    (encodeAttrs [usernameAttr u hu]).length ≤ Message.payloadLimit type := by
  simp only [encodeAttrs_cons, encodeAttrs_nil, List.append_nil, Attr.encode_length, usernameAttr]
  simp only [sbcpMaxUsernameLength] at hu
  cases type <;> simp only [Message.payloadLimit, attributeHeaderSize, sbcpMaxMessageLength,
    sbcpMaxPayloadLength, sbcpMaxReasonLength, sbcpMaxUsernameLength] <;> omega

/-- A construction packs attributes, and not too many. -/
theorem packed {c : Construction} {m : Message} (hlimits : c.WithinLimits)
    (hbuild : c.build = .ok m) :
    ∃ as, Packed m c.type as ∧ (encodeAttrs as).length ≤ Message.payloadLimit c.type := by
  cases c with
  | join username =>
      obtain ⟨_, hok, hp⟩ := join_packed hlimits
      cases hok.symm.trans hbuild
      exact ⟨_, hp, username_limit .join hlimits⟩
  | send message =>
      obtain ⟨_, hok, hp⟩ := send_packed hlimits
      cases hok.symm.trans hbuild
      exact ⟨_, hp, send_limit hlimits⟩
  | fwd username message =>
      obtain ⟨_, hok, hp⟩ := fwd_packed hlimits.1 hlimits.2
      cases hok.symm.trans hbuild
      exact ⟨_, hp, fwd_limit hlimits.1 hlimits.2⟩
  | ack clientCount usernames =>
      obtain ⟨-, as, hp, -⟩ := ack_ok hlimits hbuild
      exact ⟨_, hp, hp.length_le⟩
  | nak reason =>
      obtain ⟨_, hok, hp⟩ := nak_packed hlimits
      cases hok.symm.trans hbuild
      exact ⟨_, hp, nak_limit hlimits⟩
  | online username =>
      obtain ⟨_, hok, hp⟩ := online_packed hlimits
      cases hok.symm.trans hbuild
      exact ⟨_, hp, username_limit .online hlimits⟩
  | offline username =>
      obtain ⟨_, hok, hp⟩ := offline_packed hlimits
      cases hok.symm.trans hbuild
      exact ⟨_, hp, username_limit .offline hlimits⟩
  | idle username =>
      obtain ⟨_, hok, hp⟩ := returning_addUsername .idle hlimits
      cases hok.symm.trans hbuild
      exact ⟨_, hp, username_limit .idle hlimits⟩
  | idleOfNoOne =>
      cases hbuild
      exact ⟨_, packed_ofType .idle, Nat.zero_le _⟩

end Construction

/-! ## Attributes -/

/-- An attribute as the C++ accessors read it, in Elixir terms. -/
def inElixir : AttributeType × Bytes → SbcpAttribute
  | (.clientCount, [c₀, c₁]) => ⟨some .clientCount, .integer (ntohs (readLe16 c₀ c₁)).toNat⟩
  | (type, value) => ⟨some type, .binary value⟩

/-- A word in network order, read by either. -/
theorem ntohs_readLe16 (c₀ c₁ : UInt8) : (ntohs (readLe16 c₀ c₁)).toNat = bigEndian [c₀, c₁] := by
  have h₀ : c₀.toNat < 256 := c₀.toNat_lt
  have h₁ : c₁.toNat < 256 := c₁.toNat_lt
  have hword : (readLe16 c₀ c₁).toNat = c₀.toNat + 256 * c₁.toNat := by
    rw [readLe16, UInt16.toNat_ofNat']
    omega
  have hlow : (c₀.toNat + 256 * c₁.toNat) % 256 = c₀.toNat := by omega
  have hhigh : (c₀.toNat + 256 * c₁.toNat) / 256 = c₁.toNat := by omega
  rw [ntohs, htons, UInt16.toNat_ofNat', hword, bigEndian_pair, hlow, hhigh]
  omega

theorem decoded_attr (a : Attr) :
    (⟨some a.type, SbcpAttribute.decoded a.type a.value⟩ : SbcpAttribute) =
      inElixir (a.type, a.value) := by
  obtain ⟨type, value, fits⟩ := a
  cases type with
  | username => rfl
  | message => rfl
  | reason => rfl
  | clientCount =>
      obtain ⟨c₀, c₁, rfl⟩ := List.length_eq_two.mp fits
      rw [inElixir, ntohs_readLe16]
      rfl

theorem wire_attr (a : Attr) : SbcpAttribute.wire a.type a.value = a.encode := by
  have hle := a.fits.le
  have hcode : UInt16.ofNat (attributeTypeMap a.type) = a.type.code := by
    cases a.type <;> rfl
  rw [SbcpAttribute.wire, Attr.encode, hcode, le16_htons (by omega)]

/-- The attributes that libsbcp packs are a payload of the Elixir grammar. -/
theorem denotes_encodeAttrs (as : List Attr) :
    SbcpAttribute.Denotes (encodeAttrs as) (as.map fun a => inElixir (a.type, a.value)) := by
  induction as with
  | nil => exact .nil
  | cons a as ih =>
      have hle := a.fits.le
      rw [encodeAttrs_cons, List.map_cons, ← wire_attr, ← decoded_attr]
      exact .cons a.type a.value (by omega) ih

/-! ## Messages -/

/-- Elixir decodes the wire image to the same type, length and attributes. -/
def Agrees (order : Enumeration) (m : Message) : Prop :=
  ∃ e, SbcpMessage.deserialize order m.wire = .ok e ∧ e.header.type = m.getType ∧
    e.header.length = m.getLength ∧ e.attributes = m.contents.map inElixir

/-- What Elixir makes of a packed message: the type is looked up under the C++ code. -/
theorem deserialize_packed (order : Enumeration) {m : Message} {t : MessageType} {as : List Attr}
    (hp : Packed m t as) (hlimit : (encodeAttrs as).length ≤ Message.payloadLimit t) :
    SbcpMessage.deserialize order m.wire =
      .ok ⟨{ type := reverseTypeMap order t.code.toNat, length := m.getLength },
        m.contents.map inElixir⟩ := by
  have hle : (encodeAttrs as).length ≤ 1024 := hp.length_le
  have himage : m.header.image = SbcpMessage.codeBytes 3 t.code.toNat ++
      be16 (encodeAttrs as).length := by
    rw [hp.header, image_make t (by omega)]
    cases t <;> rfl
  have hcode : t.code.toNat < 128 := by cases t <;> decide
  have hattrs : m.contents.map inElixir = as.map fun a => inElixir (a.type, a.value) := by
    rw [hp.contents hlimit, List.map_map]
    rfl
  rw [hp.wire, himage, hattrs, hp.getLength]
  exact SbcpMessage.deserialize_wire order hcode (by omega) (denotes_encodeAttrs as)

/-- `a` is enumerated before `b`. -/
def Enumeration.Before (order : Enumeration) (a b : MessageType) : Prop :=
  [a, b].Sublist order.atoms

theorem nodup_atoms (order : Enumeration) : order.atoms.Nodup :=
  order.perm.nodup_iff.mpr (by decide)

/-- Of the two atoms with code 6, the later one is found. -/
theorem reverseTypeMap_offline (order : Enumeration) :
    reverseTypeMap order 6 = some .offline ↔ order.Before .fwd .offline := by
  have hsix : ∀ t, typeMap t = 6 ↔ t = .fwd ∨ t = .offline := by
    intro t
    cases t <;> decide
  have hnodup := nodup_atoms order
  rw [SbcpMessage.reverseTypeMap_eq_some, Enumeration.Before]
  constructor
  · rintro ⟨-, pre, post, hatoms, hpost⟩
    have hfwd := SbcpMessage.mem_atoms order .fwd
    rw [hatoms] at hfwd ⊢
    have hpre : MessageType.fwd ∈ pre := by
      rcases List.mem_append.mp hfwd with h | h
      · exact h
      · rcases List.mem_cons.mp h with h | h
        · cases h
        · exact absurd rfl (hpost .fwd h)
    exact (List.singleton_sublist.mpr hpre).append
      (List.singleton_sublist.mpr List.mem_cons_self)
  · intro hbefore
    obtain ⟨r₁, r₂, hatoms, hfwd, hoffline⟩ := List.cons_sublist_iff.mp hbefore
    obtain ⟨mid, post, rfl⟩ := List.append_of_mem (List.singleton_sublist.mp hoffline)
    refine ⟨rfl, r₁ ++ mid, post, by rw [hatoms, List.append_assoc], fun t ht hcode => ?_⟩
    rw [hatoms] at hnodup
    rcases (hsix t).mp hcode with rfl | rfl
    · exact (List.nodup_append.mp hnodup).2.2 _ hfwd _
        (List.mem_append_right _ (List.mem_cons_of_mem _ ht)) rfl
    · exact (List.nodup_cons.mp (List.nodup_append.mp (List.nodup_append.mp hnodup).2.1).2.1).1 ht

theorem typeMap_inj {t t' : MessageType} (hfwd : t ≠ .fwd) (hoffline : t ≠ .offline)
    (h : typeMap t' = typeMap t) : t' = t := by
  revert hfwd hoffline h
  cases t <;> cases t' <;> decide

theorem toNat_code {t : MessageType} (h : t ≠ .fwd) : t.code.toNat = typeMap t := by
  revert h
  cases t <;> decide

/-- The C++ code of a type is found in Elixir. -/
theorem reverseTypeMap_code_iff (order : Enumeration) (t : MessageType) :
    reverseTypeMap order t.code.toNat = some t ↔
      t ≠ .fwd ∧ (t = .offline → order.Before .fwd .offline) := by
  by_cases hfwd : t = .fwd
  · subst hfwd
    refine iff_of_false (fun h => ?_) fun h => h.1 rfl
    exact absurd (SbcpMessage.reverseTypeMap_eq_some.mp h).1 (by decide)
  rw [toNat_code hfwd]
  by_cases hoffline : t = .offline
  · subst hoffline
    exact (reverseTypeMap_offline order).trans ⟨fun h => ⟨hfwd, fun _ => h⟩, fun h => h.2 rfl⟩
  · exact iff_of_true
      (SbcpMessage.reverseTypeMap_typeMap order fun _ => typeMap_inj hfwd hoffline)
      ⟨hfwd, fun h => absurd h hoffline⟩

/-- **The codecs agree on a message exactly if it is not a FWD, and, for an OFFLINE, if FWD is enumerated
first.** -/
theorem codecs_agree_iff (order : Enumeration) (c : Construction) (m : Message)
    (hlimits : c.WithinLimits) (hbuild : c.build = .ok m) :
    Agrees order m ↔ c.type ≠ .fwd ∧ (c.type = .offline → order.Before .fwd .offline) := by
  obtain ⟨as, hp, hlimit⟩ := Construction.packed hlimits hbuild
  have hdecoded := deserialize_packed order hp hlimit
  rw [← reverseTypeMap_code_iff]
  constructor
  · rintro ⟨e, he, htype, -⟩
    cases hdecoded.symm.trans he
    exact htype.trans hp.getType
  · intro htype
    exact ⟨_, hdecoded, htype.trans hp.getType.symm, rfl, rfl⟩

/-- An ACK with a count of 2 and a name. -/
theorem codecs_agree_ack : ∃ m, Messages.ack 2 [ascii "bob"] = .ok m ∧
    ∃ e, SbcpMessage.deserialize SbcpMessage.alphabetical m.wire = .ok e ∧
      e.header.type = m.getType ∧ e.attributes = m.contents.map inElixir := by
  have hbuild : (Construction.ack 2 [ascii "bob"]).build = .ok _ := rfl
  have hlimits : (Construction.ack 2 [ascii "bob"]).WithinLimits := by
    intro username h
    rw [List.mem_singleton.mp h]
    decide
  obtain ⟨e, he, htype, -, hattrs⟩ :=
    (codecs_agree_iff SbcpMessage.alphabetical _ _ hlimits hbuild).mpr
      ⟨by decide, fun h => by cases h⟩
  exact ⟨_, hbuild, e, he, htype, hattrs⟩

/-- `FWD("bob", "hi")` is a message without a type in Elixir. -/
theorem fwd_not_known : ∃ m, Messages.fwd (ascii "bob") (ascii "hi") = .ok m ∧
    m.getType = some .fwd ∧
    ∃ e, SbcpMessage.deserialize SbcpMessage.alphabetical m.wire = .ok e ∧ e.header.type = none := by
  obtain ⟨m, hok, hp⟩ := fwd_packed (u := ascii "bob") (v := ascii "hi") (by decide) (by decide)
  exact ⟨m, hok, hp.getType, _, deserialize_packed _ hp (fwd_limit _ _), rfl⟩

end ComputerNetworking.Elixir
