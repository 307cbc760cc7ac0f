/-
# ComputerNetworking.Sbcp.Indexing -- `message[i]` and the iterator

`operator[]` walks the payload with a loop of its own. It looks at an attribute before it compares the offset
with the announced length, so on a message without attributes it looks at what lies behind the payload.
On every other message it agrees with the iterator.
-/
import ComputerNetworking.Sbcp.Decoding
import ComputerNetworking.Sbcp.RoundTrip

namespace ComputerNetworking.Sbcp

open ComputerNetworking.Lib

namespace Message

/-- The loop of `operator[]`, from an offset on. -/
def indexFrom (m : Message) (offset : Nat) : Nat → Except Fault AttributeRef
  | 0 => m.attributeAt offset
  | idx + 1 =>
      match m.attributeAt offset with
      | .error e => .error e
      | .ok a =>
          if offset + a.size < m.getLength then m.indexFrom (offset + a.size) idx
          else .error (.outOfRange "Index out of range")

/-- `operator[]`. -/
def index (m : Message) (idx : Nat) : Except Fault AttributeRef := m.indexFrom 0 idx

end Message

/-- The attribute of an index, given the attributes a range-`for` visits. -/
def visitedAt (attributes : List AttributeRef) (idx : Nat) : Except Fault AttributeRef :=
  match attributes[idx]? with
  | some a => .ok a
  | none => .error (.outOfRange "Index out of range")

/-- `message[i]` is the attribute visited as number `i`, and throws `std::out_of_range` behind the last. -/
def IndexAgrees (m : Message) (idx : Nat) : Prop := m.index idx = visitedAt m.walk.attributes idx

section Index

variable {m : Message} {offset : Nat}

/-- **In front of the end the loop finds what the iterator visits.** The induction is on the index: both
move on by the size of the attribute they have found. -/
theorem indexFrom_eq (hlength : m.getLength ≤ sbcpMaxPayloadLength) (hoffset : offset ≠ m.getLength)
    (h : (m.walkFrom offset).fault = none) (idx : Nat) :
    m.indexFrom offset idx = visitedAt (m.walkFrom offset).attributes idx := by
  induction idx generalizing offset with
  | zero =>
      obtain ⟨a, hat, -, hvisited⟩ := Message.exists_attributeAt hoffset h
      rw [hvisited, Message.indexFrom, hat]
      rfl
  | succ idx ih =>
      obtain ⟨a, hat, hbehind, hvisited⟩ := Message.exists_attributeAt hoffset h
      have hnext : visitedAt (a :: (m.walkFrom (offset + a.size)).attributes) (idx + 1) =
          visitedAt (m.walkFrom (offset + a.size)).attributes idx := rfl
      simp only [Message.indexFrom, hat, hvisited, hnext]
      by_cases hend : offset + a.size = m.getLength
      · rw [if_neg (by omega), hend, Message.walkFrom_end]
        rfl
      · -- a walk that reaches the end does not jump over it
        obtain ⟨as, has, -⟩ := tiled_of_walkFrom hlength hbehind
        rw [if_pos (by omega)]
        exact ih hend hbehind

/-- Looking at an attribute throws no `std::out_of_range`. -/
theorem attributeAt_ne_outOfRange {what : String} :
    m.attributeAt offset ≠ .error (.outOfRange what) := by
  intro h
  unfold Message.attributeAt at h
  split at h
  · next t₀ t₁ l₀ l₁ rest hdrop =>
      simp only at h
      cases hv : validateAttribute (readLe16 t₀ t₁) (ntohs (readLe16 l₀ l₁)).toNat with
      | ok type =>
          rw [hv] at h
          cases h
      | error e =>
          obtain ⟨what', rfl⟩ := validateAttribute_eq_error hv
          rw [hv] at h
          cases h
  · cases h

/-- On an empty message the loop throws `std::out_of_range` if there happens to be an attribute behind the
payload, and it is not the one asked for. -/
theorem index_empty_iff (hlength : m.getLength = 0) (idx : Nat) :
    m.index idx = .error (.outOfRange "Index out of range") ↔
      0 < idx ∧ ∃ a, m.attributeAt 0 = .ok a := by
  cases idx with
  | zero => exact iff_of_false attributeAt_ne_outOfRange fun h => absurd h.1 (Nat.lt_irrefl 0)
  | succ idx =>
      unfold Message.index Message.indexFrom
      cases hat : m.attributeAt 0 with
      | error e =>
          refine iff_of_false ?_ (by simp)
          intro heq
          cases heq
          exact attributeAt_ne_outOfRange hat
      | ok a =>
          refine iff_of_true ?_ ⟨Nat.succ_pos idx, a, rfl⟩
          simp only
          rw [if_neg (by omega)]

/-- **Indexing agrees with iteration, unless the message has no attributes.** -/
theorem index_agrees_iff (m : Message) (idx : Nat) (h : m.walk.fault = none) :
    IndexAgrees m idx ↔ m.walk.attributes ≠ [] ∨ (0 < idx ∧ ∃ a, m.attributeAt 0 = .ok a) := by
  have hwalk : m.walk = m.walkFrom 0 := by rw [Message.walk, Message.validate_of_walk h]
  obtain ⟨t, -, hlimit⟩ := Message.validate_eq_ok.mp (Message.validate_of_walk h)
  have hlength := Nat.le_trans hlimit (Message.payloadLimit_le t)
  unfold IndexAgrees
  rw [hwalk] at h ⊢
  by_cases hempty : m.getLength = 0
  · have hend : m.walkFrom 0 = ⟨[], none⟩ := by rw [← hempty, Message.walkFrom_end]
    rw [hend]
    simp only [ne_eq, not_true_eq_false, false_or]
    exact index_empty_iff hempty idx
  · refine iff_of_true (indexFrom_eq hlength (Ne.symm hempty) h idx) (.inl ?_)
    obtain ⟨a, -, -, hvisited⟩ := Message.exists_attributeAt (Ne.symm hempty) h
    rw [hvisited]
    exact List.cons_ne_nil _ _

end Index

/-- The second attribute of an ACK, and what is behind it. -/
theorem index_agrees_ack : ∃ m, addAll (Message.ofType .ack) [.clientCount 1, .username (ascii "bob")] = .ok m ∧
    IndexAgrees m 1 ∧ IndexAgrees m 2 ∧ m.index 1 = .ok ⟨6, .username, 3⟩ := by
  have hadd : addAll (Message.ofType .ack) [.clientCount 1, .username (ascii "bob")] = .ok _ := rfl
  refine ⟨_, hadd, ?_, ?_, by decide +kernel⟩
  · exact (index_agrees_iff _ 1 (by decide +kernel)).mpr (.inl (by decide +kernel))
  · exact (index_agrees_iff _ 2 (by decide +kernel)).mpr (.inl (by decide +kernel))

/-- `message[0]` of an empty JOIN throws a `MessageException`. -/
theorem index_of_empty : (Message.ofType .join).walk = ⟨[], none⟩ ∧
    (Message.ofType .join).index 0 = .error (.messageException "Invalid attribute type") ∧
    ¬ IndexAgrees (Message.ofType .join) 0 := by
  have hindex : (Message.ofType .join).index 0 =
      .error (.messageException "Invalid attribute type") := by decide +kernel
  have hwalk : (Message.ofType .join).walk = ⟨[], none⟩ := by decide +kernel
  refine ⟨hwalk, hindex, ?_⟩
  rw [IndexAgrees, hindex, hwalk]
  decide

end ComputerNetworking.Sbcp
