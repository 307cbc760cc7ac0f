/-
# ComputerNetworking.Sbcp.Grammar -- which attributes a message may have, and which get through

The comments in `Message::validate()` say for each type which attributes a message can have and how
many: `atMost`. What the function checks is one upper bound on the payload length, and the iterator
checks each attribute by itself. So exactly those mixes are turned down that are too long in the
shortest encoding, `accepted_kinds_iff`, and a message goes through with attributes it should not have
as soon as they fit.
-/
import ComputerNetworking.Sbcp.Decoding

namespace ComputerNetworking.Sbcp

open ComputerNetworking.Lib

/-! ## The documented grammar -/

/-- How many attributes of a kind the comments in `validate()` let a message of a type have; `none`
where they say "many". -/
def MessageType.atMost : MessageType → AttributeType → Option Nat
  | .join, .username => some 1
  | .send, .message => some 1
  | .fwd, .username => some 1
  | .fwd, .message => some 1
  | .idle, .username => some 1
  | .ack, .username => none
  | .ack, .clientCount => some 1
  | .nak, .reason => some 1
  | .online, .username => none
  | .offline, .username => none
  | _, _ => some 0

/-- Attributes of these kinds, in whatever order. -/
def MessageType.Allows (t : MessageType) (kinds : List AttributeType) : Prop :=
  ∀ k n, t.atMost k = some n → kinds.count k ≤ n

/-- If the message is accepted and iterated to the end, it has attributes its type allows. -/
def AcceptedAsDocumented (m : Message) : Prop :=
  m.walk.fault = none →
    ∃ t, m.getType = some t ∧ t.Allows (m.walk.attributes.map AttributeRef.type)

/-! ## What the bytes have to be -/

/-- The bytes are a header of version 3 and type `t` and then the attributes, whatever is in the buffer
behind them. -/
structure Carries (m : Message) (t : MessageType) (as : List Attr) : Prop where
  header : m.header = Header.make sbcpVersion t (UInt16.ofNat (encodeAttrs as).length)
  payload : ∃ rest, m.payload = encodeAttrs as ++ rest

/-- In front of some attribute there are already as many of its kind as there may be. -/
def OneTooMany (t : MessageType) (as : List Attr) : Prop :=
  ∃ pre a post, as = pre ++ a :: post ∧ t.atMost a.type = some ((pre.map Attr.type).count a.type)

section Carries

variable {m : Message} {t : MessageType} {as : List Attr}

theorem Carries.getType (h : Carries m t as) : m.getType = some t := by
  rw [Message.getType, h.header, Header.getType_make]

theorem Carries.getLength (h : Carries m t as) : m.getLength = (encodeAttrs as).length := by
  obtain ⟨rest, hrest⟩ := h.payload
  have hlen := m.payload_length
  rw [hrest, List.length_append, sbcpMaxPayloadLength] at hlen
  rw [Message.getLength, h.header, Header.getLength_make, UInt16.toNat_ofNat']
  omega

/-- Within its type's limit such a message is accepted, and its attributes are visited. -/
theorem Carries.walk (h : Carries m t as)
    (hlimit : (encodeAttrs as).length ≤ Message.payloadLimit t) :
    m.walk = ⟨refsFrom 0 as, none⟩ := by
  have hvalid : m.validate = .ok () := by
    rw [Message.validate_eq_ok, h.getLength]
    refine ⟨t, ?_, hlimit⟩
    rw [h.header]
    simp [Header.make]
  obtain ⟨rest, hrest⟩ := h.payload
  rw [Message.walk, hvalid]
  exact walkFrom_packed [] hrest (by simpa using h.getLength)

theorem types_refsFrom (offset : Nat) (as : List Attr) :
    (refsFrom offset as).map AttributeRef.type = as.map Attr.type := by
  induction as generalizing offset with
  | nil => rfl
  | cons a as ih => rw [refsFrom, List.map_cons, ih, List.map_cons]

/-- **The accepted messages are the ones that carry whole attributes within their type's limit.** -/
theorem exists_carries (h : m.walk.fault = none) :
    ∃ t as, Carries m t as ∧ (encodeAttrs as).length ≤ Message.payloadLimit t := by
  obtain ⟨-, as, -, htake⟩ := tiled_of_walk h
  obtain ⟨t, hheader, hlimit⟩ := Message.validate_eq_ok.mp (Message.validate_of_walk h)
  have hmax := Nat.le_trans hlimit (Message.payloadLimit_le t)
  have hlen : (encodeAttrs as).length = m.getLength := by
    rw [← htake, List.length_take, m.payload_length]
    omega
  refine ⟨t, as, ⟨?_, m.payload.drop m.getLength, ?_⟩, by rwa [hlen]⟩
  · rw [hlen, Message.getLength, Header.getLength, UInt16.ofNat_toNat]
    exact hheader
  · rw [← htake, List.take_append_drop]

end Carries

/-! ## One too many -/

/-- Where an element is found more than `n` times, one of them has `n` in front of it. -/
theorem exists_nth_of_lt_count {α κ : Type} [DecidableEq κ] (f : α → κ) {k : κ} {n : Nat} {l : List α}
    (h : n < (l.map f).count k) :
    ∃ pre a post, l = pre ++ a :: post ∧ f a = k ∧ (pre.map f).count k = n := by
  induction l generalizing n with
  | nil => simp at h
  | cons a l ih =>
      by_cases hk : f a = k
      · cases n with
        | zero => exact ⟨[], a, l, rfl, hk, rfl⟩
        | succ n =>
            rw [List.map_cons, hk, List.count_cons_self] at h
            obtain ⟨pre, b, post, rfl, hb, hcount⟩ := ih (n := n) (by omega)
            refine ⟨a :: pre, b, post, rfl, hb, ?_⟩
            rw [List.map_cons, hk, List.count_cons_self, hcount]
      · rw [List.map_cons, List.count_cons_of_ne hk] at h
        obtain ⟨pre, b, post, rfl, hb, hcount⟩ := ih h
        refine ⟨a :: pre, b, post, rfl, hb, ?_⟩
        rw [List.map_cons, List.count_cons_of_ne hk, hcount]

theorem not_allows_iff {t : MessageType} {as : List Attr} :
    ¬ t.Allows (as.map Attr.type) ↔ OneTooMany t as := by
  constructor
  · intro h
    unfold MessageType.Allows at h
    push Not at h
    obtain ⟨k, n, hn, hcount⟩ := h
    have hmore : n < (as.map Attr.type).count k := by omega
    obtain ⟨pre, a, post, rfl, rfl, hpre⟩ := exists_nth_of_lt_count Attr.type hmore
    exact ⟨pre, a, post, rfl, by rw [hn, hpre]⟩
  · rintro ⟨pre, a, post, rfl, hmost⟩ h
    have hle := h a.type _ hmost
    rw [List.map_append, List.map_cons, List.count_append, List.count_cons_self] at hle
    omega

/-- **A message is accepted only with documented attributes, unless it carries whole attributes within
its type's limit and one of them is one too many.** -/
theorem accepted_as_documented_iff (m : Message) :
    AcceptedAsDocumented m ↔
      ¬ ∃ t as, Carries m t as ∧ (encodeAttrs as).length ≤ Message.payloadLimit t ∧
        OneTooMany t as := by
  constructor
  · rintro h ⟨t, as, hcarries, hlimit, hmany⟩
    have hwalk := hcarries.walk hlimit
    obtain ⟨t', ht', hallows⟩ := h (by rw [hwalk])
    rw [hcarries.getType] at ht'
    cases ht'
    rw [hwalk, types_refsFrom] at hallows
    exact not_allows_iff.mpr hmany hallows
  · intro h hfault
    obtain ⟨t, as, hcarries, hlimit⟩ := exists_carries hfault
    refine ⟨t, hcarries.getType, ?_⟩
    rw [hcarries.walk hlimit, types_refsFrom]
    by_contra hnot
    exact h ⟨t, as, hcarries, hlimit, not_allows_iff.mp hnot⟩

/-- A JOIN with an empty MESSAGE. -/
def joinWithMessage : Message where
  header := Header.make sbcpVersion .join 4
  payload := [4, 0, 0, 0] ++ zeros 1020
  payload_length := by simp [sbcpMaxPayloadLength]

theorem joinWithMessage_accepted : ¬ ∀ m : Message, AcceptedAsDocumented m := by
  intro h
  have hcarries : Carries joinWithMessage .join [messageAttr [] (by decide)] :=
    ⟨rfl, zeros 1020, rfl⟩
  have hwalk := hcarries.walk (by decide)
  obtain ⟨t, ht, hallows⟩ := h joinWithMessage (by rw [hwalk])
  rw [hcarries.getType] at ht
  cases ht
  have hone := hallows .message 0 rfl
  rw [hwalk] at hone
  revert hone
  decide

/-! ## What the limits exclude -/

/-- The shortest value a kind can have. -/
def AttributeType.leastLength : AttributeType → Nat
  | .clientCount => sizeofClientCount
  | _ => 0

theorem AttributeType.fits_leastLength (k : AttributeType) : k.Fits k.leastLength := by
  cases k <;> decide

theorem AttributeType.Fits.leastLength_le {k : AttributeType} {n : Nat} (h : k.Fits n) :
    k.leastLength ≤ n := by
  cases k with
  | clientCount => exact Nat.le_of_eq (Eq.symm h)
  | username | message | reason => exact Nat.zero_le _

/-- The least number of bytes attributes of these kinds take. -/
def leastSize : List AttributeType → Nat
  | [] => 0
  | k :: kinds => attributeHeaderSize + k.leastLength + leastSize kinds

theorem leastSize_le (as : List Attr) : leastSize (as.map Attr.type) ≤ (encodeAttrs as).length := by
  induction as with
  | nil => exact Nat.le_refl 0
  | cons a as ih =>
      have hvalue := a.fits.leastLength_le
      rw [List.map_cons, leastSize, encodeAttrs_cons, List.length_append, Attr.encode_length]
      omega

/-- An attribute of a kind, as short as can be. -/
def shortest (k : AttributeType) : Attr :=
  ⟨k, zeros k.leastLength, by rw [zeros_length]; exact k.fits_leastLength⟩

theorem encodeAttrs_shortest (kinds : List AttributeType) :
    (encodeAttrs (kinds.map shortest)).length = leastSize kinds := by
  induction kinds with
  | nil => rfl
  | cons k kinds ih =>
      rw [List.map_cons, encodeAttrs_cons, List.length_append, ih, Attr.encode_length, leastSize,
        shortest, zeros_length]

theorem exists_carries_of_le (t : MessageType) {as : List Attr}
    (h : (encodeAttrs as).length ≤ sbcpMaxPayloadLength) : ∃ m, Carries m t as :=
  ⟨⟨Header.make sbcpVersion t (UInt16.ofNat (encodeAttrs as).length),
      encodeAttrs as ++ zeros (sbcpMaxPayloadLength - (encodeAttrs as).length), by
        rw [List.length_append, zeros_length]
        omega⟩,
    rfl, _, rfl⟩

/-- **A mix of kinds, in whatever order, can be accepted in a message of a type exactly if it fits into
the type's limit in its shortest encoding.** -/
theorem accepted_kinds_iff (t : MessageType) (kinds : List AttributeType) :
    (∃ m : Message, m.walk.fault = none ∧ m.getType = some t ∧
        m.walk.attributes.map AttributeRef.type = kinds) ↔
      leastSize kinds ≤ Message.payloadLimit t := by
  constructor
  · rintro ⟨m, hfault, htype, rfl⟩
    obtain ⟨t', as, hcarries, hlimit⟩ := exists_carries hfault
    rw [hcarries.getType] at htype
    cases htype
    rw [hcarries.walk hlimit, types_refsFrom]
    exact Nat.le_trans (leastSize_le as) hlimit
  · intro h
    have hsize := encodeAttrs_shortest kinds
    have hmax : (encodeAttrs (kinds.map shortest)).length ≤ sbcpMaxPayloadLength := by
      rw [hsize]
      exact Nat.le_trans h (Message.payloadLimit_le t)
    obtain ⟨m, hcarries⟩ := exists_carries_of_le t hmax
    have hwalk := hcarries.walk (by rwa [hsize])
    refine ⟨m, by rw [hwalk], hcarries.getType, ?_⟩
    rw [hwalk, types_refsFrom, List.map_map]
    exact List.map_id kinds

end ComputerNetworking.Sbcp
