/-
# ComputerNetworking.Tftp.ReadRequest -- the RRQ transfer loop

`tftp_server.cpp` answers a read request with a loop that reads a block, sends it, and waits in
`select`. The loop goes back to its top by falling through after an acknowledgement and by
`continue` after a timeout or an interrupted `select`, and back to the `select` by a `goto` after an
acknowledgement for another block. What decides between a new block and the old one at the top is
the flag `retry`, which only the timeout sets.

`loopTop` is the code from the top of the loop to the `select`; `readStep` is one `select` and what
follows it. The log collects the DATA packets sent and the ACK packets received, in order.
-/
import ComputerNetworking.Lib.Transition
import ComputerNetworking.Tftp.Netascii
import ComputerNetworking.Tftp.Packet

namespace ComputerNetworking.Tftp

open ComputerNetworking.Lib

/-- `MAX_TIMEOUTS`. -/
def maxTimeouts : Nat := 5

/-! ## The file -/

/-- `std::istream* file`: the file itself, or the netascii stream over it. -/
inductive FileStream where
  | octet (file : IStream Bytes)
  | netascii (file : IStream (IStream Bytes × Bytes))

namespace FileStream

/-- A file opened for reading, converted if the mode asks for it. -/
def ofFile (mode : Mode) (bytes : Bytes) : FileStream :=
  match mode with
  | .octet => .octet ⟨bytes, .goodbit⟩
  | .netascii => .netascii ⟨(⟨bytes, .goodbit⟩, []), .goodbit⟩

/-- `file->read(data, n)`; the bytes stored are `file->gcount()` many. -/
def read : FileStream → Nat → Bytes × FileStream
  | .octet file, n => ((file.read fileBuf n).1, .octet (file.read fileBuf n).2)
  | .netascii file, n =>
      ((file.read unixToNetasciiBuf n).1, .netascii (file.read unixToNetasciiBuf n).2)

/-- What the stream still has to give. -/
def content : FileStream → Bytes
  | .octet file => file.content id
  | .netascii file => file.content fun s => s.2 ++ unixToNetascii (s.1.content id)

/-- The content stream of a transfer: the file's bytes, or their netascii form. -/
def stream (mode : Mode) (bytes : Bytes) : Bytes :=
  match mode with
  | .octet => bytes
  | .netascii => unixToNetascii bytes

theorem content_ofFile (mode : Mode) (bytes : Bytes) :
    (ofFile mode bytes).content = stream mode bytes := by
  cases mode <;> rfl

theorem read_content (s : FileStream) (n : Nat) :
    (s.read n).1 = s.content.take n ∧ (s.read n).2.content = s.content.drop n := by
  cases s with
  | octet file => exact IStream.read_content fileBuf_supplies file n
  | netascii file => exact IStream.read_content unixToNetasciiBuf_supplies file n

theorem stream_eq_nil {mode : Mode} {bytes : Bytes} : stream mode bytes = [] ↔ bytes = [] := by
  cases mode with
  | octet => exact Iff.rfl
  | netascii => exact unixToNetascii_eq_nil

end FileStream

/-! ## The loop -/

/-- What the loop sends and what it gets back. -/
inductive ReadEntry where
  /-- `client->write` of `DATA(block, data, data_length)`. -/
  | sent (block : UInt16) (data : Bytes)
  /-- An ACK packet arrived while a DATA packet was outstanding. -/
  | acked (block : UInt16)
  deriving DecidableEq

/-- The locals of the loop. `data` is the first `data_length` bytes of the array, and `waiting` is
false once the loop has been left. -/
structure ReadTransfer where
  file : FileStream
  block : UInt16
  timeouts : Nat
  retry : Bool
  data : Bytes
  maxData : Bool
  waiting : Bool
  log : List ReadEntry

namespace ReadTransfer

/-- Send the block and go on to the `select`. -/
def send (s : ReadTransfer) : ReadTransfer :=
  { s with retry := false, waiting := true, log := s.log ++ [.sent s.block s.data] }

/-- From the top of the loop to the `select`, or out of the loop. -/
def loopTop (s : ReadTransfer) : ReadTransfer :=
  if s.timeouts < maxTimeouts then
    if s.retry then s.send
    else
      let data := (s.file.read tftpMaxDataLen).1
      let s' := { s with file := (s.file.read tftpMaxDataLen).2, data := data }
      -- finished reading the file and last block was less than max
      if data.length = 0 ∧ !s.maxData then { s' with waiting := false }
      else ({ s' with maxData := data.length = tftpMaxDataLen } : ReadTransfer).send
  else { s with waiting := false }

/-- The locals before the loop. -/
def init (mode : Mode) (bytes : Bytes) : ReadTransfer where
  file := .ofFile mode bytes
  block := 1
  timeouts := 0
  retry := false
  data := []
  maxData := false
  waiting := false
  log := []

/-- At the first `select`, or out of the loop already. -/
def start (mode : Mode) (bytes : Bytes) : ReadTransfer := (init mode bytes).loopTop

end ReadTransfer

/-- What happens at the `select`. -/
inductive WaitEvent where
  /-- -1 with EINTR. -/
  | interrupted
  /-- -1 with any other error. -/
  | selectError
  /-- 0. -/
  | timeout
  /-- A datagram is there; the buffer as `client->read` leaves it. -/
  | received (packet : PacketBuf)
  deriving DecidableEq

open ReadTransfer in
/-- One `select` and what follows, up to the next `select` or out of the loop. -/
def readStep (s : ReadTransfer) (e : WaitEvent) : Option ReadTransfer :=
  if s.waiting then
    match e with
    | .interrupted => some s.loopTop
    | .selectError => some { s with waiting := false }
    | .timeout => some (loopTop { s with timeouts := s.timeouts + 1, retry := true })
    | .received packet =>
        if packet.opcode ≠ some .ack then some { s with timeouts := 0, waiting := false }
        else
          let s' := { s with timeouts := 0, log := s.log ++ [.acked packet.getBlock] }
          -- do not retry (sorcerer's apprentice problem)
          if packet.getBlock ≠ s.block then some s'
          else some (loopTop { s' with block := s.block + 1 })
  else none

/-- The RRQ transfer of a file. -/
def readTransfer (mode : Mode) (bytes : Bytes) : Machine ReadTransfer WaitEvent where
  init s := s = .start mode bytes
  step := readStep

end ComputerNetworking.Tftp
