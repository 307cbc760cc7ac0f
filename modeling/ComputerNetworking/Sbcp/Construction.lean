/-
# ComputerNetworking.Sbcp.Construction -- the stores of an attribute's constructor

The setters clamp the length they store and hand the caller's length to `memcpy`. Here a constructor is the
list of its stores into memory, so that a copy that runs out of the object can be followed. The stored
length and the bytes it covers are right for a value of any length; the copy stays inside the object up to
512 bytes, for each of the three types.

The object of `Sbcp.Attribute` is what these stores make as long as they stay inside.
-/
import ComputerNetworking.Lib.Memory
import ComputerNetworking.Sbcp.Message

namespace ComputerNetworking.Sbcp

open ComputerNetworking.Lib

/-! ## The constructor -/

/-- `sizeof(Attribute)`. -/
def sizeofAttribute : Nat := attributeHeaderSize + sizeofPayload

/-- The largest length a string attribute can have. -/
def AttributeType.maxLength? : AttributeType → Option Nat
  | .username => some sbcpMaxUsernameLength
  | .message => some sbcpMaxMessageLength
  | .reason => some sbcpMaxReasonLength
  | .clientCount => none

section Stores

variable (this : Nat)

/-- The initializers `type(type), length(htons(0)), payload()`. -/
def initializerStores (type : AttributeType) : List Store :=
  [⟨this, le16 type.code⟩, ⟨this + 2, le16 (htons 0)⟩, ⟨this + 4, zeros sizeofPayload⟩]

/-- The common body of the string setters. The length is stored a second time if it is too large. -/
def setStringStores (maxLength : Nat) (value : Bytes) : List Store :=
  [⟨this + 2, le16 (htons (UInt16.ofNat value.length))⟩] ++
    (if value.length > maxLength then [⟨this + 2, le16 (htons (UInt16.ofNat maxLength))⟩] else []) ++
      [⟨this + 4, value⟩]

/-- `Attribute(type, value, length)` at an address. -/
def constructorStores (type : AttributeType) (value : Bytes) : Except Fault (List Store) :=
  match type with
  | .username => .ok (initializerStores this type ++ setStringStores this sbcpMaxUsernameLength value)
  | .message => .ok (initializerStores this type ++ setStringStores this sbcpMaxMessageLength value)
  | .reason => .ok (initializerStores this type ++ setStringStores this sbcpMaxReasonLength value)
  | .clientCount => .error (.messageException "Invalid attribute type")

/-- `get_length()` of the attribute at an address. -/
def lengthAt (mem : Memory) : Nat := (ntohs (readLe16 (mem (this + 2)) (mem (this + 3)))).toNat

/-- The value of the attribute at an address, as long as the attribute says. -/
def valueBytesAt (mem : Memory) : Bytes := mem.read (this + 4) (lengthAt this mem)

/-- Whatever memory held before, the attribute has the value cut off at the maximum, and no byte is written
outside the attribute. -/
def Truncates (maxLength : Nat) (value : Bytes) (ss : List Store) : Prop :=
  (∀ mem : Memory, lengthAt this (mem.stores ss) = min value.length maxLength ∧
    valueBytesAt this (mem.stores ss) = value.take maxLength) ∧
  ∀ s ∈ ss, s.Inside this (this + sizeofAttribute)

end Stores

/-! ## What is in memory afterwards -/

section Memory

variable {this : Nat} {type : AttributeType} {maxLength : Nat} {value : Bytes}

theorem constructorStores_eq (h : type.maxLength? = some maxLength) :
    constructorStores this type value =
      .ok (initializerStores this type ++ setStringStores this maxLength value) := by
  cases type <;> cases h <;> rfl

theorem maxLength_le (h : type.maxLength? = some maxLength) : maxLength ≤ sizeofPayload := by
  cases type <;> cases h <;> decide

/-- The length field is two bytes. -/
theorem lengthAt_of_read {mem : Memory} {n : Nat} (hn : n < 65536)
    (h : mem.read (this + 2) 2 = le16 (htons (UInt16.ofNat n))) : lengthAt this mem = n := by
  have hbytes : [mem (this + 2), mem (this + 3)] = le16 (htons (UInt16.ofNat n)) := h
  rw [← le16_readLe16] at hbytes
  have hword : readLe16 (mem (this + 2)) (mem (this + 3)) = htons (UInt16.ofNat n) := by
    simp only [le16, List.cons.injEq, and_true] at hbytes
    rw [← readLe16_le16 (readLe16 (mem (this + 2)) (mem (this + 3))), hbytes.1, hbytes.2,
      readLe16_le16]
  rw [lengthAt, hword, ntohs_htons, UInt16.toNat_ofNat']
  omega

section Setter

variable (mem : Memory)

/-- The copy is the last store. -/
theorem stores_setStringStores :
    mem.stores (setStringStores this maxLength value) =
      (mem.stores ([⟨this + 2, le16 (htons (UInt16.ofNat value.length))⟩] ++
        if value.length > maxLength then [⟨this + 2, le16 (htons (UInt16.ofNat maxLength))⟩]
        else [])).store ⟨this + 4, value⟩ := by
  rw [setStringStores, Memory.stores_append, Memory.stores_cons, Memory.stores_nil]

/-- The last length stored stays. -/
theorem read_lengthField : (mem.stores (setStringStores this maxLength value)).read (this + 2) 2 =
    le16 (if value.length > maxLength then htons (UInt16.ofNat maxLength)
      else htons (UInt16.ofNat value.length)) := by
  rw [stores_setStringStores, Memory.read_store_apart _ _ (.inl (Nat.le_refl _)),
    Memory.stores_append]
  split_ifs with hlong
  · exact Memory.read_store _ ⟨this + 2, _⟩ (Nat.le_refl 2)
  · exact Memory.read_store _ ⟨this + 2, _⟩ (Nat.le_refl 2)

/-- Of the rest of memory only what the value is copied to changes. -/
theorem read_setStringStores_apart {a n : Nat} (hlength : a + n ≤ this + 2 ∨ this + 4 ≤ a)
    (hcopy : a + n ≤ this + 4 ∨ this + 4 + value.length ≤ a) :
    (mem.stores (setStringStores this maxLength value)).read a n = mem.read a n := by
  rw [stores_setStringStores, Memory.read_store_apart _ _ hcopy, Memory.stores_append]
  have hfirst : (mem.store ⟨this + 2, le16 (htons (UInt16.ofNat value.length))⟩).read a n =
      mem.read a n := Memory.read_store_apart _ _ hlength
  split_ifs
  · exact (Memory.read_store_apart _ _ hlength).trans hfirst
  · exact hfirst

theorem read_copied {n : Nat} (h : n ≤ value.length) :
    (mem.stores (setStringStores this maxLength value)).read (this + 4) n = value.take n := by
  rw [stores_setStringStores]
  exact Memory.read_store _ ⟨this + 4, value⟩ h

/-- **The length field holds the length of the value, or the maximum.** -/
theorem lengthAt_setStringStores (hmax : maxLength ≤ sizeofPayload) :
    lengthAt this (mem.stores (setStringStores this maxLength value)) = min value.length maxLength := by
  have hsmall : maxLength ≤ 512 := hmax
  apply lengthAt_of_read (by omega)
  rw [read_lengthField]
  split_ifs with hlong
  · rw [Nat.min_eq_right (Nat.le_of_lt hlong)]
  · rw [Nat.min_eq_left (Nat.le_of_not_lt hlong)]

end Setter

/-- A value of any length is cut off at the maximum. -/
theorem truncated (mem : Memory) (hmax : maxLength ≤ sizeofPayload) :
    lengthAt this (mem.stores (initializerStores this type ++ setStringStores this maxLength value)) =
        min value.length maxLength ∧
      valueBytesAt this
        (mem.stores (initializerStores this type ++ setStringStores this maxLength value)) =
          value.take maxLength := by
  rw [Memory.stores_append]
  have hlength := @lengthAt_setStringStores this maxLength value
    (mem.stores (initializerStores this type)) hmax
  refine ⟨hlength, ?_⟩
  rw [valueBytesAt, hlength, read_copied _ (Nat.min_le_left ..), Nat.min_comm]
  exact List.take_eq_take_min.symm

/-- All stores but the last are inside the object whatever the value is. -/
theorem inside_iff :
    (∀ s ∈ initializerStores this type ++ setStringStores this maxLength value,
      s.Inside this (this + sizeofAttribute)) ↔ value.length ≤ sizeofPayload := by
  have hobject : sizeofAttribute = 516 := rfl
  have hpayload : sizeofPayload = 512 := rfl
  unfold initializerStores setStringStores Store.Inside
  constructor
  · intro h
    have hcopy := h ⟨this + 4, value⟩ (by simp)
    simp only at hcopy
    omega
  · intro hle s hs
    simp only [List.mem_append, List.mem_cons, List.not_mem_nil, or_false] at hs
    rcases hs with (rfl | rfl | rfl) | (rfl | hs) | rfl
    · simp only [le16_length]
      omega
    · simp only [le16_length]
      omega
    · simp only [zeros_length]
      omega
    · simp only [le16_length]
      omega
    · split_ifs at hs
      · rw [List.mem_singleton.mp hs]
        simp only [le16_length]
        omega
      · exact absurd hs List.not_mem_nil
    · simp only
      omega

/-- **Construction truncates and does not overrun if and only if the value has at most 512 bytes.** -/
theorem construction_iff (this : Nat) (type : AttributeType) (maxLength : Nat) (value : Bytes)
    (h : type.maxLength? = some maxLength) :
    ∃ ss, constructorStores this type value = .ok ss ∧
      (Truncates this maxLength value ss ↔ value.length ≤ sizeofPayload) := by
  refine ⟨_, constructorStores_eq h, ?_⟩
  have hmax := maxLength_le h
  unfold Truncates
  rw [inside_iff]
  exact and_iff_right fun mem => truncated mem hmax

/-- A message text of 512 bytes. -/
theorem construction_full_message : ∃ ss,
    constructorStores 0 .message (List.replicate 512 0x61) = .ok ss ∧
      Truncates 0 512 (List.replicate 512 0x61) ss := by
  obtain ⟨ss, hss, hiff⟩ := construction_iff 0 .message 512 (List.replicate 512 0x61) rfl
  exact ⟨ss, hss, hiff.mpr (Nat.le_of_eq List.length_replicate)⟩

/-- Of a username of 513 bytes 16 are kept, and the last one is copied to behind the object. -/
theorem construction_overruns : ∃ ss, constructorStores 0 .username (List.replicate 513 0x61) = .ok ss ∧
    ¬ Truncates 0 16 (List.replicate 513 0x61) ss ∧
      ∀ mem : Memory, mem.stores ss sizeofAttribute = 0x61 := by
  have hlong : (List.replicate 513 (0x61 : UInt8)).length = 513 := List.length_replicate
  refine ⟨_, rfl, ?_, fun mem => ?_⟩
  · rintro ⟨-, hinside⟩
    have hle := inside_iff.mp hinside
    rw [hlong] at hle
    exact absurd hle (by decide)
  · rw [Memory.stores_append, stores_setStringStores, Memory.store,
      dif_pos ⟨Nat.le_of_ble_eq_true rfl, by rw [hlong]; decide⟩]
    exact List.getElem_replicate ..

end Memory

/-! ## The object -/

section Object

variable {this : Nat} {type : AttributeType} {maxLength : Nat} {value : Bytes}

theorem ofString_eq_setString (h : type.maxLength? = some maxLength) :
    Attribute.ofString type value = (Attribute.ofType type).setString maxLength value := by
  cases type <;> cases h <;> rfl

/-- **The stores make the object**, as long as they are inside. -/
theorem read_constructorStores (h : type.maxLength? = some maxLength) {a : Attribute}
    (ha : Attribute.ofString type value = .ok a) (mem : Memory) :
    (mem.stores (initializerStores this type ++ setStringStores this maxLength value)).read this
      sizeofAttribute = a.image := by
  rw [ofString_eq_setString h, Attribute.setString] at ha
  split at ha
  case isFalse => cases ha
  case isTrue hle =>
    cases ha
    have hsplit : sizeofAttribute = 2 + (2 + (value.length + (sizeofPayload - value.length))) := by
      unfold sizeofAttribute attributeHeaderSize
      omega
    have hzeros : (mem.stores (initializerStores this type)).read (this + 4 + value.length)
        (sizeofPayload - value.length) = zeros (sizeofPayload - value.length) := by
      refine (Memory.read_store_drop _ ⟨this + 4, zeros sizeofPayload⟩ ?_).trans ?_
      · rw [zeros_length]
        omega
      · rw [zeros_drop, List.take_of_length_le (Nat.le_of_eq (zeros_length _))]
    have htype : (mem.stores (initializerStores this type)).read this 2 = le16 type.code := by
      unfold initializerStores
      simp only [Memory.stores_cons, Memory.stores_nil]
      have hbefore : this + 2 ≤ this + 4 := by omega
      rw [Memory.read_store_apart _ _ (.inl hbefore),
        Memory.read_store_apart _ _ (.inl (Nat.le_refl _))]
      exact Memory.read_store _ ⟨this, le16 type.code⟩ (Nat.le_refl 2)
    rw [hsplit, Memory.read_append, Memory.read_append, Memory.read_append, Memory.stores_append,
      read_setStringStores_apart _ (.inl (Nat.le_refl _)) (.inl (by omega)), read_lengthField,
      read_copied _ (Nat.le_refl _), read_setStringStores_apart _ (.inr (by omega)) (.inr (by omega)),
      htype, hzeros]
    unfold Attribute.image Attribute.ofType overwrite
    simp

end Object

end ComputerNetworking.Sbcp
