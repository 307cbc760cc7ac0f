/-
# ComputerNetworking.Sbcp.Names -- the usernames a message reports

`get_usernames` reads a C string at the value of every USERNAME attribute. What it finds there
depends on the attribute behind it: a value without a NUL runs on into that attribute's type byte
and stops at the zero byte after it. `readNames` computes the names from the attributes, so that
`getUsername` on a message somebody else has packed is known without looking at its memory.
-/
import ComputerNetworking.Sbcp.Messages
import Mathlib.Data.List.TakeWhile

namespace ComputerNetworking.Sbcp

open ComputerNetworking.Lib

/-- The low byte of the stored type. -/
def AttributeType.byte (t : AttributeType) : UInt8 := UInt8.ofNat t.code.toNat

theorem AttributeType.le16_code_eq (t : AttributeType) : le16 t.code = [t.byte, 0] := by
  cases t <;> rfl

namespace Attr

/-- The C string at the attribute's value when the attributes `rest` follow. -/
def readAs (a : Attr) : List Attr → Bytes
  | [] => a.value.takeWhile (· ≠ 0)
  | b :: _ => (a.value ++ [b.type.byte]).takeWhile (· ≠ 0)

theorem zero_notMem_readAs (a : Attr) (rest : List Attr) : 0 ∉ a.readAs rest := by
  intro h
  cases rest with
  | nil => simpa using List.mem_takeWhile_imp h
  | cons b rest => simpa using List.mem_takeWhile_imp h

/-- At most one byte of the next attribute is read along. -/
theorem readAs_length_le (a : Attr) (rest : List Attr) :
    (a.readAs rest).length ≤ a.value.length + rest.length := by
  cases rest with
  | nil => exact (List.takeWhile_prefix _).length_le
  | cons b rest =>
      have hle := (List.takeWhile_prefix (· ≠ 0) (l := a.value ++ [b.type.byte])).length_le
      rw [List.length_append, List.length_singleton] at hle
      show ((a.value ++ [b.type.byte]).takeWhile (· ≠ 0)).length ≤ _
      rw [List.length_cons]
      omega

/-- A name without a NUL in the last attribute is read as it is. -/
theorem readAs_nil {a : Attr} (h : 0 ∉ a.value) : a.readAs [] = a.value := by
  show a.value.takeWhile (· ≠ 0) = a.value
  rw [List.takeWhile_eq_self_iff]
  intro b hb
  have : b ≠ 0 := by
    rintro rfl
    exact h hb
  simpa using this

end Attr

/-- The names of a list of attributes, in order. -/
def readNames : List Attr → List Bytes
  | [] => []
  | a :: rest => if a.type = .username then a.readAs rest :: readNames rest else readNames rest

/-- The first name belongs to an attribute of type USERNAME. -/
theorem readNames_eq_cons {as : List Attr} {u : Bytes} {us : List Bytes}
    (h : readNames as = u :: us) :
    ∃ pre a rest, as = pre ++ a :: rest ∧ a.type = .username ∧ u = a.readAs rest := by
  induction as with
  | nil => cases h
  | cons a as ih =>
      unfold readNames at h
      by_cases ha : a.type = .username
      · rw [if_pos ha, List.cons.injEq] at h
        exact ⟨[], a, as, rfl, ha, h.1.symm⟩
      · rw [if_neg ha] at h
        obtain ⟨pre, b, rest, rfl, hb, hu⟩ := ih h
        exact ⟨a :: pre, b, rest, rfl, hb, hu⟩

/-- What `stringAt` finds at an attribute of a packed message. -/
theorem stringAt_readAs {m : Message} {t : MessageType} {as bs : List Attr} {a : Attr} {n : Nat}
    (h : Packed m t (as ++ a :: bs))
    (hroom : (encodeAttrs (as ++ a :: bs)).length < sbcpMaxPayloadLength) :
    m.stringAt ⟨(encodeAttrs as).length, a.type, n⟩ = .ok (a.readAs bs) := by
  have hsplit := h.payload_split
  obtain ⟨k, hk⟩ : ∃ k, sbcpMaxPayloadLength - (encodeAttrs (as ++ a :: bs)).length = k + 1 :=
    ⟨sbcpMaxPayloadLength - (encodeAttrs (as ++ a :: bs)).length - 1, by omega⟩
  have hdrop : m.payload.drop ((encodeAttrs as).length + attributeHeaderSize) =
      a.value ++ (encodeAttrs bs ++ zeros (k + 1)) := by
    rw [hsplit, hk, ← List.drop_drop, List.drop_left, Attr.encode]
    simp [attributeHeaderSize, le16]
  have hread : cString (a.value ++ (encodeAttrs bs ++ zeros (k + 1))) = some (a.readAs bs) := by
    cases bs with
    | nil => exact cString_append_cons_zero a.value (zeros k)
    | cons b bs =>
        -- the type byte of the next attribute is read along, the zero byte behind it ends the scan
        have := cString_append_cons_zero (a.value ++ [b.type.byte])
          (le16 (htons (UInt16.ofNat b.value.length)) ++ b.value ++
            (encodeAttrs bs ++ zeros (k + 1)))
        simpa [Attr.encode, AttributeType.le16_code_eq, Attr.readAs] using this
  unfold Message.stringAt
  simp only [hdrop, hread]

theorem collectUsernames_readNames {m : Message} {t : MessageType} (as bs : List Attr)
    (h : Packed m t (as ++ bs))
    (hroom : (encodeAttrs (as ++ bs)).length < sbcpMaxPayloadLength) :
    m.collectUsernames (refsFrom (encodeAttrs as).length bs) = .ok (readNames bs) := by
  induction bs generalizing as with
  | nil => rfl
  | cons b bs ih =>
      have hnext := ih (as ++ [b]) (by simpa using h) (by simpa using hroom)
      have hoffset : (encodeAttrs (as ++ [b])).length =
          (encodeAttrs as).length + b.encode.length := by simp
      rw [hoffset] at hnext
      unfold refsFrom Message.collectUsernames readNames
      by_cases hb : b.type = .username
      · rw [if_pos hb, if_pos hb, stringAt_readAs h hroom, hnext]
        rfl
      · rw [if_neg hb, if_neg hb, hnext]

/-- **`get_username` on a packed message reports the first of its names.** -/
theorem getUsername_packed {m : Message} {t : MessageType} {as : List Attr} (h : Packed m t as)
    (hlimit : (encodeAttrs as).length ≤ Message.payloadLimit t)
    (hroom : (encodeAttrs as).length < sbcpMaxPayloadLength) :
    m.getUsername =
      match readNames as with
      | [] => .error (.messageException "Username attribute not found")
      | u :: _ => .ok u := by
  have hcollect := collectUsernames_readNames [] as h hroom
  unfold Message.getUsername Message.getUsernames
  rw [h.walk hlimit]
  simp only [encodeAttrs_nil, List.length_nil] at hcollect
  rw [hcollect]
  cases readNames as with
  | nil => rfl
  | cons u us => rfl

end ComputerNetworking.Sbcp
