/-
# ComputerNetworking.Tftp.WriteRequest -- the WRQ transfer loop

`tftp_server.cpp` collects the blocks of an upload in a string stream and moves them on to the file
as they come. In netascii mode the file is written from a `NetasciitoUNIXStream` over the string
stream, in octet mode from the string stream itself. After each full block all but 257 of the bytes
in the string stream are asked for, into the array that holds the packet, and as many bytes of the
array are written to the file, be it that many were read or not. When the loop is left, what the
buffer still gives goes to the file.

An acknowledgement is logged with what the server has stored at that moment.
-/
import ComputerNetworking.Lib.Transition
import ComputerNetworking.Tftp.Netascii
import ComputerNetworking.Tftp.Packet
import ComputerNetworking.Tftp.ReadRequest

namespace ComputerNetworking.Tftp

open ComputerNetworking.Lib

/-- What is kept back in the string stream. -/
def heldBack : Nat := 257

/-- `client->write` of `ACK(block)`, and what is in the file and in the string stream then. -/
structure AckSent where
  block : UInt16
  written : Bytes
  buffered : Bytes
  deriving DecidableEq

/-- Why the loop is left. -/
inductive Leave where
  /-- A block shorter than 512 bytes. -/
  | lastBlock
  | timeouts
  | selectError
  /-- A packet with another opcode. -/
  | notData
  deriving DecidableEq

/-- The locals of the handler. `area` and `bufState` are the get area and the state of the
`NetasciitoUNIXStream`; in octet mode `buf` is the string stream itself. -/
structure WriteTransfer where
  mode : Mode
  ss : StringStream
  area : Bytes
  bufState : IoState
  file : OFStream
  block : UInt16
  timeouts : Nat
  left : Option Leave
  acks : List AckSent

namespace WriteTransfer

/-- `buf->read(data, n)`. -/
def bufRead (s : WriteTransfer) (n : Int) : Bytes × WriteTransfer :=
  match s.mode with
  | .octet =>
      let got := s.ss.readCount stringBuf n
      (got.1, { s with ss := got.2 })
  | .netascii =>
      let got := IStream.readCount netasciiToUnixBuf ⟨(s.ss, s.area), s.bufState⟩ n
      (got.1, { s with ss := got.2.buf.1, area := got.2.buf.2, bufState := got.2.state })

/-- All that `buf->rdbuf()` gives. No character takes less than one byte of what is there. -/
def rdbuf (s : WriteTransfer) : Bytes × WriteTransfer :=
  match s.mode with
  | .octet =>
      let got := stringBuf.sgetn s.ss.buf.unread.length s.ss.buf
      (got.1, { s with ss := ⟨got.2, s.ss.state⟩ })
  | .netascii =>
      let got := netasciiToUnixBuf.sgetn (s.area.length + s.ss.buf.unread.length) (s.ss, s.area)
      (got.1, { s with ss := got.2.1, area := got.2.2 })

/-- Behind the loop: `file << buf->rdbuf()`. -/
def leave (s : WriteTransfer) (why : Leave) : WriteTransfer :=
  if s.file.state.good then
    { s.rdbuf.2 with file := s.file.insert s.rdbuf.1, left := some why }
  else { s with left := some why }

/-- `client->write` of `ACK(block)`. -/
def sendAck (s : WriteTransfer) (block : UInt16) : WriteTransfer :=
  { s with acks := s.acks ++ [⟨block, s.file.content, s.ss.buf.unread⟩] }

/-- The loop condition. -/
def loopTop (s : WriteTransfer) : WriteTransfer :=
  if s.timeouts < maxTimeouts then s else s.leave .timeouts

/-- The end of the loop body: move all but `heldBack` bytes on to the file. In which order `tellp`
and `tellg` are called is not specified; it makes a difference only on a stream with a bit set.
More than the array holds is undefined. -/
def flush (s : WriteTransfer) (data : PacketBuf) : Option WriteTransfer :=
  let n := s.ss.tellp - s.ss.tellg.1 - heldBack
  if n ≤ tftpMaxPacketLen then
    let got := bufRead { s with ss := s.ss.tellg.2 } n
    some { got.2 with
      file := got.2.file.write (overwrite data.val 0 got.1) n
      block := got.2.block + 1 }
  else none

/-- The locals before the loop, the file having been opened. -/
def init (mode : Mode) : WriteTransfer where
  mode := mode
  ss := .empty
  area := []
  bufState := .goodbit
  file := .empty
  block := 1
  timeouts := 0
  left := none
  acks := []

/-- `ACK(0)` has been sent. -/
def start (mode : Mode) : WriteTransfer := (init mode).sendAck 0

end WriteTransfer

/-- What happens at the `select`. -/
inductive WriteEvent where
  /-- -1 with EINTR. -/
  | interrupted
  /-- -1 with any other error. -/
  | selectError
  /-- 0. -/
  | timeout
  /-- `client->read` returns `ret` and leaves the array as given. -/
  | received (ret : Int) (data : PacketBuf)

/-- A block of a file, as a DATA packet carries it. -/
abbrev Payload := { bytes : Bytes // bytes.length ≤ tftpMaxDataLen }

/-- `DATA(block, payload)` is received into an array that held something else before. -/
def WriteEvent.data (block : UInt16) (payload : Payload) (before : PacketBuf) : WriteEvent :=
  .received (dataHeaderLen + payload.val.length)
    (.receive (dataImage block payload.val) before (by
      rw [dataImage_length]
      exact Nat.add_le_add_left payload.2 _))

open WriteTransfer in
/-- One `select` and what follows, up to the next `select` or out of the loop. -/
def writeStep (s : WriteTransfer) (e : WriteEvent) : Option WriteTransfer :=
  if s.left.isSome then none
  else
    match e with
    | .interrupted => some s
    | .selectError => some (s.leave .selectError)
    | .timeout =>
        some (loopTop (sendAck { s with timeouts := s.timeouts + 1 } (s.block - 1)))
    | .received ret data =>
        if data.opcode ≠ some .data then some (leave { s with timeouts := 0 } .notData)
        -- repeat data block (our ack was lost)
        else if data.getBlock ≠ s.block then
          some (sendAck { s with timeouts := 0 } (s.block - 1))
        else
          let s' := sendAck { s with
            timeouts := 0
            ss := s.ss.write data.getData (ret - dataHeaderLen) } s.block
          -- `data_length` is unsigned: -1 is more than any length
          if 0 ≤ ret ∧ ret < tftpMaxPacketLen then some (s'.leave .lastBlock)
          else s'.flush data

/-- A WRQ transfer. -/
def writeTransfer (mode : Mode) : Machine WriteTransfer WriteEvent where
  init s := s = .start mode
  step := writeStep

theorem writeTransfer_step (mode : Mode) (s : WriteTransfer) (e : WriteEvent) :
    (writeTransfer mode).step s e = writeStep s e := rfl

/-! ## The step on the next block -/

section NextBlock

variable {s : WriteTransfer} {payload : Payload} {before : PacketBuf}

/-- The expected block, buffered and acknowledged. -/
def WriteTransfer.accept (s : WriteTransfer) (bytes : Bytes) : WriteTransfer :=
  sendAck { s with timeouts := 0, ss := s.ss.write bytes bytes.length } s.block

/-- What follows: the loop goes on or ends by the block's length. -/
def WriteTransfer.onBlock (s : WriteTransfer) (bytes : Bytes) (data : PacketBuf) :
    Option WriteTransfer :=
  if bytes.length < tftpMaxDataLen then some ((s.accept bytes).leave .lastBlock)
  else (s.accept bytes).flush data

/-- The expected block is accepted. -/
theorem writeStep_data (payload : Payload) (before : PacketBuf) (hrun : s.left = none)
    (hfit : (dataImage s.block payload.val).length ≤ tftpMaxPacketLen) :
    writeStep s (.data s.block payload before) =
      s.onBlock payload.val (.receive (dataImage s.block payload.val) before hfit) := by
  obtain ⟨hop, hblock, hdata⟩ := @receive_data before _ _ hfit
  -- what is written to the string stream is the payload, and no byte the array held before
  have hcount : ((dataHeaderLen + payload.val.length : Int)) - dataHeaderLen =
      payload.val.length := by
    omega
  have hwrite : s.ss.write
      (PacketBuf.receive (dataImage s.block payload.val) before hfit).getData
      payload.val.length = s.ss.write payload.val payload.val.length := by
    unfold StringStream.write
    rw [Int.toNat_natCast, hdata, List.take_length]
  have hshort : (0 ≤ (dataHeaderLen + payload.val.length : Int) ∧
      (dataHeaderLen + payload.val.length : Int) < tftpMaxPacketLen) ↔
        payload.val.length < tftpMaxDataLen := by
    simp only [tftpMaxPacketLen]
    omega
  unfold writeStep WriteEvent.data
  rw [if_neg (by simp [hrun])]
  simp only [hop, hblock, ne_eq, not_true_eq_false, if_false, hcount, hwrite, hshort]
  rfl

theorem writeStep_next (payload : Payload) (before : PacketBuf) (hrun : s.left = none) :
    ∃ data, writeStep s (.data s.block payload before) =
      if payload.val.length < tftpMaxDataLen then some ((s.accept payload.val).leave .lastBlock)
      else (s.accept payload.val).flush data :=
  ⟨_, writeStep_data payload before hrun (by
    rw [dataImage_length]
    exact Nat.add_le_add_left payload.2 _)⟩

/-- Any other block is not: the last acknowledgement is sent again. -/
theorem writeStep_stale (hrun : s.left = none) {block : UInt16} (hblock : block ≠ s.block) :
    writeStep s (.data block payload before) =
      some (WriteTransfer.sendAck { s with timeouts := 0 } (s.block - 1)) := by
  have hfit : (dataImage block payload.val).length ≤ tftpMaxPacketLen := by
    rw [dataImage_length]
    exact Nat.add_le_add_left payload.2 _
  obtain ⟨hop, hnum, -⟩ := @receive_data before _ _ hfit
  unfold writeStep WriteEvent.data
  rw [if_neg (by simp [hrun])]
  simp only [hop, hnum, ne_eq, not_true_eq_false, if_false, hblock, not_false_eq_true, if_true]

/-- On a good string stream all but `heldBack` bytes are asked for and, if they all come, written. -/
theorem WriteTransfer.flush_good {n : Nat} {data : PacketBuf} (hgood : s.ss.state = .goodbit)
    (hn : s.ss.buf.unread.length = n + heldBack) (hfit : n ≤ tftpMaxPacketLen) :
    s.flush data = some { (s.bufRead n).2 with
      file := (s.bufRead n).2.file.write (overwrite data.val 0 (s.bufRead n).1) n
      block := (s.bufRead n).2.block + 1 } := by
  have hp : s.ss.tellp = s.ss.buf.gpos + s.ss.buf.unread.length := by
    rw [StringStream.tellp, hgood]
    rfl
  have hg : s.ss.tellg = ((s.ss.buf.gpos : Int), s.ss) := by
    unfold StringStream.tellg
    rw [hgood]
    rfl
  have hcount : s.ss.tellp - s.ss.tellg.1 - heldBack = n := by
    rw [hp, hg, hn]
    push_cast
    omega
  unfold WriteTransfer.flush
  simp only [hcount]
  rw [if_pos (by exact_mod_cast hfit), hg]

/-- What was read is what is written, whatever the array held before. -/
theorem write_overwrite (file : OFStream) {n : Nat} {got : Bytes} (hlen : got.length = n)
    (data : Bytes) : file.write (overwrite data 0 got) n = file.write got n := by
  unfold OFStream.write
  rw [Int.toNat_natCast, ← hlen, overwrite, List.take_zero, List.nil_append, List.take_left,
    List.take_length]

end NextBlock

end ComputerNetworking.Tftp
