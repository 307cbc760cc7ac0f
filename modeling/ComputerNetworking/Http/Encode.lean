/-
# ComputerNetworking.Http.Encode -- any bytes in a URI

`URI::encode` keeps letters, digits and four signs, and writes any other byte as a percent sign and two
hexadecimal digits. What it writes can be read back, and has no byte in it that the parsers look for.
-/
import ComputerNetworking.Http.FirstLine

namespace ComputerNetworking.Http

open ComputerNetworking.Lib

/-- `isalnum`, in the C locale. -/
def isAlnum (c : UInt8) : Bool := isDigit c || (0x41 ≤ c && c ≤ 0x5A) || (0x61 ≤ c && c ≤ 0x7A)

namespace Uri

/-- Kept by `URI::encode`. -/
def unreserved (c : UInt8) : Bool := isAlnum c || c ∈ ascii "-_.~"

/-- `'%'`. -/
def percent : UInt8 := 0x25

/-- `hex[i]`. -/
def hexDigit (i : UInt8) : UInt8 := (ascii "0123456789ABCDEF").getD i.toNat 0

/-- What `URI::encode` appends for a byte. -/
def encodeByte (c : UInt8) : Bytes :=
  if unreserved c then [c] else [percent, hexDigit (c >>> 4 &&& 0xF), hexDigit (c &&& 0xF)]

/-- `URI::encode`. -/
def encode (str : Bytes) : Bytes := str.flatMap encodeByte

/-! ## Reading it back -/

/-- The value of a hexadecimal digit. -/
def hexValue (c : UInt8) : Option UInt8 :=
  if 0x30 ≤ c ∧ c ≤ 0x39 then some (c - 0x30) else if 0x41 ≤ c ∧ c ≤ 0x46 then some (c - 0x37) else none

/-- What a text with percent signs stands for. -/
def decode : Bytes → Bytes
  | [] => []
  | [c] => [c]
  | [c, d] => [c, d]
  | c :: h :: l :: rest =>
      if c = percent then
        match hexValue h, hexValue l with
        | some a, some b => (a <<< 4 ||| b) :: decode rest
        | _, _ => c :: decode (h :: l :: rest)
      else c :: decode (h :: l :: rest)

/-- Two digits give the byte. -/
theorem hexValue_hexDigit (c : UInt8) : ∃ a b, hexValue (hexDigit (c >>> 4 &&& 0xF)) = some a ∧
    hexValue (hexDigit (c &&& 0xF)) = some b ∧ a <<< 4 ||| b = c := by
  have hall : ∀ n < 256, (do
      let a ← hexValue (hexDigit (UInt8.ofNat n >>> 4 &&& 0xF))
      let b ← hexValue (hexDigit (UInt8.ofNat n &&& 0xF))
      some (a <<< 4 ||| b)) = some (UInt8.ofNat n) := by
    decide +kernel
  have hc := hall c.toNat c.toNat_lt
  rw [UInt8.ofNat_toNat] at hc
  obtain ⟨a, ha, hc⟩ := Option.bind_eq_some_iff.mp hc
  obtain ⟨b, hb, hc⟩ := Option.bind_eq_some_iff.mp hc
  exact ⟨a, b, ha, hb, Option.some.inj hc⟩

theorem decode_cons {c : UInt8} (h : c ≠ percent) (rest : Bytes) : decode (c :: rest) = c :: decode rest := by
  rcases rest with _ | ⟨d, _ | ⟨e, rest⟩⟩
  · rfl
  · rfl
  · rw [decode, if_neg h]

theorem decode_encodeByte (c : UInt8) (rest : Bytes) : decode (encodeByte c ++ rest) = c :: decode rest := by
  unfold encodeByte
  split_ifs with hkept
  · apply decode_cons
    rintro rfl
    exact absurd hkept (by decide)
  · obtain ⟨a, b, ha, hb, hc⟩ := hexValue_hexDigit c
    show decode (percent :: hexDigit (c >>> 4 &&& 0xF) :: hexDigit (c &&& 0xF) :: rest) = _
    rw [decode, if_pos rfl, ha, hb]
    exact congrArg (· :: decode rest) hc

/-- **What has been encoded can be decoded.** -/
theorem decode_encode (str : Bytes) : decode (encode str) = str := by
  induction str with
  | nil => rfl
  | cons c str ih =>
      show decode (encodeByte c ++ encode str) = _
      rw [decode_encodeByte, ih]

/-- Nothing else is written than percent signs and bytes that are kept. -/
theorem mem_encode {str : Bytes} {c : UInt8} (h : c ∈ encode str) : unreserved c = true ∨ c = percent := by
  obtain ⟨d, -, hc⟩ := List.mem_flatMap.mp h
  have hdigit : ∀ n < 16, unreserved (hexDigit (UInt8.ofNat n)) = true := by decide +kernel
  have hlow : ∀ i : UInt8, unreserved (hexDigit (i &&& 0xF)) = true := by
    intro i
    have hsmall : (i &&& 0xF).toNat < 16 := by
      rw [UInt8.toNat_and]
      exact Nat.lt_succ_of_le Nat.and_le_right
    have hi := hdigit _ hsmall
    rwa [UInt8.ofNat_toNat] at hi
  unfold encodeByte at hc
  split_ifs at hc with hkept
  · rw [List.mem_singleton.mp hc]
    exact .inl hkept
  · simp only [List.mem_cons, List.not_mem_nil, or_false] at hc
    rcases hc with rfl | rfl | rfl
    · exact .inr rfl
    · exact .inl (hlow _)
    · exact .inl (hlow _)

theorem length_encode_le (str : Bytes) : (encode str).length ≤ 3 * str.length := by
  have hbyte : ∀ c, (encodeByte c).length ≤ 3 := by
    intro c
    unfold encodeByte
    split_ifs <;> simp
  induction str with
  | nil => exact Nat.le_refl _
  | cons c str ih =>
      rw [encode, List.flatMap_cons, List.length_append, List.length_cons]
      have hc := hbyte c
      have hrest : (str.flatMap encodeByte).length ≤ 3 * str.length := ih
      omega

end Uri

end ComputerNetworking.Http
