/-
# ComputerNetworking.Tftp.Packet -- TFTP packets as libtftp lays them out

A packet starts with a 16-bit opcode, stored as a constant that is already byte-swapped, and for
DATA and ACK a block number that goes through `htons`. The server reads incoming packets by
reinterpreting a 516-byte buffer on its stack, so `opcode` and `getBlock` are functions of whatever
bytes that buffer holds, received or not.
-/
import ComputerNetworking.Lib.Bytes

namespace ComputerNetworking.Tftp

open ComputerNetworking.Lib

/-- `TFTP_MAX_DATA_LEN`. -/
def tftpMaxDataLen : Nat := 512

/-- `sizeof(Packet::opcode) + sizeof(block_num)`. -/
def dataHeaderLen : Nat := 4

/-- `TFTP_MAX_PACKET_LEN`. -/
def tftpMaxPacketLen : Nat := dataHeaderLen + tftpMaxDataLen

/-- `Opcode::Value`. -/
inductive Opcode where
  | rrq
  | wrq
  | data
  | ack
  | error
  deriving DecidableEq, Repr

namespace Opcode

/-- The enumerators' values, as a little-endian machine holds them. -/
def value : Opcode → UInt16
  | rrq => 256
  | wrq => 512
  | data => 768
  | ack => 1024
  | error => 1280

/-- The enumerator a stored value names, if any. -/
def ofValue? (v : UInt16) : Option Opcode :=
  if v = 256 then some rrq
  else if v = 512 then some wrq
  else if v = 768 then some data
  else if v = 1024 then some ack
  else if v = 1280 then some error
  else none

@[simp] theorem ofValue?_value (o : Opcode) : ofValue? o.value = some o := by
  cases o <;> rfl

theorem ofValue?_eq_some_iff {o : Opcode} {v : UInt16} : ofValue? v = some o ↔ v = o.value := by
  constructor
  · intro h
    unfold ofValue? at h
    split_ifs at h with h₁ h₂ h₃ h₄ h₅
    all_goals
      cases h
      assumption
  · rintro rfl
    exact ofValue?_value o

end Opcode

/-- The number in the opcode field of a packet. -/
def opcodeField : Bytes → UInt16
  | b₀ :: b₁ :: _ => readLe16 b₀ b₁
  | _ => 0

/-- `packet->opcode` of a packet anywhere in memory. -/
def opcodeOf (msg : Bytes) : Option Opcode := Opcode.ofValue? (opcodeField msg)

theorem opcodeOf_append (o : Opcode) (rest : Bytes) : opcodeOf (le16 o.value ++ rest) = some o := by
  simp only [opcodeOf, le16, List.cons_append, List.nil_append, opcodeField, readLe16_le16,
    Opcode.ofValue?_value]

/-- A packet has an opcode exactly if it begins with its two bytes. -/
theorem opcodeOf_eq_some_iff {o : Opcode} {msg : Bytes} :
    opcodeOf msg = some o ↔ le16 o.value <+: msg := by
  constructor
  · intro h
    rcases msg with _ | ⟨b₀, _ | ⟨b₁, rest⟩⟩
    · cases h
    · cases h
    · have hvalue : readLe16 b₀ b₁ = o.value := Opcode.ofValue?_eq_some_iff.mp h
      rw [← hvalue, le16_readLe16]
      exact List.prefix_append [b₀, b₁] rest
  · rintro ⟨rest, rfl⟩
    exact opcodeOf_append o rest

/-- `Mode::Value`. -/
inductive Mode where
  | netascii
  | octet
  deriving DecidableEq, Repr

/-- A `char[TFTP_MAX_PACKET_LEN]` on the stack. -/
abbrev PacketBuf := { bytes : Bytes // bytes.length = tftpMaxPacketLen }

namespace PacketBuf

/-- `packet->opcode`. -/
def opcode (p : PacketBuf) : Option Opcode :=
  match p.val with
  | b₀ :: b₁ :: _ => Opcode.ofValue? (readLe16 b₀ b₁)
  | _ => none

/-- `packet->payload.data.get_block()` and `packet->payload.ack.get_block()`. -/
def getBlock (p : PacketBuf) : UInt16 :=
  match p.val with
  | _ :: _ :: b₂ :: b₃ :: _ => ntohs (readLe16 b₂ b₃)
  | _ => 0

/-- `packet->payload.data.get_data()`. -/
def getData (p : PacketBuf) : Bytes := p.val.drop dataHeaderLen

/-- A datagram received into a buffer that held something else before. -/
def receive (datagram : Bytes) (before : PacketBuf) (h : datagram.length ≤ tftpMaxPacketLen) :
    PacketBuf :=
  ⟨overwrite before.val 0 datagram, by rw [overwrite_length (by rw [before.2]; omega), before.2]⟩

/-- A buffer of zeros. -/
def blank : PacketBuf := ⟨zeros tftpMaxPacketLen, zeros_length _⟩

end PacketBuf

/-- The bytes of `DATA(block, data, length)` that go on the wire. -/
def dataImage (block : UInt16) (data : Bytes) : Bytes :=
  le16 Opcode.data.value ++ le16 (htons block) ++ data

/-- The bytes of `ACK(block)`. -/
def ackImage (block : UInt16) : Bytes := le16 Opcode.ack.value ++ le16 (htons block)

@[simp] theorem dataImage_length (block : UInt16) (data : Bytes) :
    (dataImage block data).length = dataHeaderLen + data.length := by
  simp only [dataImage, List.length_append, le16_length, dataHeaderLen]

@[simp] theorem ackImage_length (block : UInt16) : (ackImage block).length = dataHeaderLen := rfl

section Receive

variable {before : PacketBuf} {block : UInt16} {data : Bytes}

/-- A received datagram is followed by what the buffer held before. -/
theorem receive_val (datagram : Bytes) (before : PacketBuf)
    (h : datagram.length ≤ tftpMaxPacketLen) :
    ∃ rest, (PacketBuf.receive datagram before h).val = datagram ++ rest := by
  refine ⟨before.val.drop datagram.length, ?_⟩
  show overwrite before.val 0 datagram = _
  simp [overwrite]

theorem PacketBuf.opcode_eq (p : PacketBuf) : p.opcode = opcodeOf p.val := by
  unfold PacketBuf.opcode opcodeOf opcodeField
  split <;> rfl

/-- Received into any buffer, a packet shows its opcode and its block number. -/
theorem opcode_of_val {p : PacketBuf} {o : Opcode} {rest : Bytes}
    (h : p.val = le16 o.value ++ rest) : p.opcode = some o := by
  rw [PacketBuf.opcode_eq, h, opcodeOf_append]

theorem getBlock_of_val {p : PacketBuf} {o : Opcode} {rest : Bytes}
    (h : p.val = le16 o.value ++ le16 (htons block) ++ rest) : p.getBlock = block := by
  unfold PacketBuf.getBlock
  rw [h]
  simp only [le16, List.cons_append, List.nil_append, readLe16_le16, ntohs_htons]

theorem receive_data (h : (dataImage block data).length ≤ tftpMaxPacketLen) :
    (PacketBuf.receive (dataImage block data) before h).opcode = some .data ∧
      (PacketBuf.receive (dataImage block data) before h).getBlock = block ∧
      (PacketBuf.receive (dataImage block data) before h).getData.take data.length = data := by
  obtain ⟨rest, hval⟩ := receive_val (dataImage block data) before h
  have hfields : dataImage block data ++ rest =
      le16 Opcode.data.value ++ le16 (htons block) ++ (data ++ rest) := by
    rw [dataImage, List.append_assoc]
  rw [hfields] at hval
  refine ⟨opcode_of_val (hval.trans (List.append_assoc ..)), getBlock_of_val hval, ?_⟩
  unfold PacketBuf.getData
  rw [hval, List.drop_left' (by rw [List.length_append, le16_length, le16_length]; rfl),
    List.take_left]

theorem receive_ack (h : (ackImage block).length ≤ tftpMaxPacketLen) :
    (PacketBuf.receive (ackImage block) before h).opcode = some .ack ∧
      (PacketBuf.receive (ackImage block) before h).getBlock = block := by
  obtain ⟨rest, hval⟩ := receive_val (ackImage block) before h
  exact ⟨opcode_of_val (hval.trans (List.append_assoc ..)), getBlock_of_val hval⟩

end Receive

/-- `ACK(block)` received into a blank buffer. -/
def ackPacket (block : UInt16) : PacketBuf :=
  .receive (ackImage block) .blank (by rw [ackImage_length]; decide)

theorem ackPacket_spec (block : UInt16) :
    (ackPacket block).opcode = some .ack ∧ (ackPacket block).getBlock = block :=
  receive_ack _

end ComputerNetworking.Tftp
