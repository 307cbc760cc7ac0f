/-
# ComputerNetworking.Tftp.Request -- request packets

`Packet::RQ` is one array of 138 bytes with two strings in it, one behind the other, each cut off at its own
maximum. Where the second one begins is found by a scan of the first one, so the limits of the constructor
and of the scans have to agree. They do: a request is read as it was written, up to the limits, and no store
and no scan leaves the array.

`Packet::size()` is here with all its branches, and the `ERROR` packets that answer a request.
-/
import ComputerNetworking.Lib.CString
import ComputerNetworking.Lib.Decimal
import ComputerNetworking.Tftp.Packet

namespace ComputerNetworking.Tftp

open ComputerNetworking.Lib

/-- `TFTP_MAX_FILENAME_LEN`. -/
def tftpMaxFilenameLen : Nat := 128

/-- `TFTP_MAX_MODE_LEN`. -/
def tftpMaxModeLen : Nat := 8

/-- `TFTP_MAX_ERROR_MESSAGE_LEN`. -/
def tftpMaxErrorMessageLen : Nat := 128

/-- `sizeof(Packet::opcode)`. -/
def opcodeLen : Nat := 2

/-- How a libtftp operation can fail to return. -/
inductive Fault where
  /-- A thrown `TFTPError`. -/
  | tftpError (what : Bytes)
  /-- An access outside the object: undefined behaviour. -/
  | undefined
  deriving DecidableEq

/-- An access that has to stay inside. -/
def inside {α : Type} : Option α → Except Fault α
  | some a => .ok a
  | none => .error .undefined

/-! ## `Packet::RQ` -/

/-- `sizeof(RQ)`. -/
def sizeofRQ : Nat := tftpMaxFilenameLen + tftpMaxModeLen + 2

/-- The array of an `RQ`. -/
abbrev RQ := { payload : Bytes // payload.length = sizeofRQ }

namespace RQ

section Accessors

variable (payload : Bytes)

/-- The text at `filename()`. -/
def filename : Except Fault Bytes := inside (cString payload)

/-- The text at `mode()`. -/
def mode : Except Fault Bytes := do
  let filenameLen ← inside (strnlen payload tftpMaxFilenameLen)
  inside (cString (payload.drop (filenameLen + 1)))

/-- `size()`. -/
def size : Except Fault Nat := do
  let filenameLen ← inside (strnlen payload tftpMaxFilenameLen)
  let modeLen ← inside (strnlen (payload.drop (filenameLen + 1)) tftpMaxModeLen)
  pure (filenameLen + 1 + (modeLen + 1))

end Accessors

/-- Bytes stored into the array. -/
def store (rq : RQ) (off : Nat) (src : Bytes) : Except Fault RQ :=
  if h : off + src.length ≤ rq.val.length then
    .ok ⟨overwrite rq.val off src, by rw [overwrite_length h, rq.2]⟩
  else .error .undefined

/-- `RQ::RQ`, over what the array held before. The arguments are the memory at the two pointers. -/
def construct (before : RQ) (filename mode : Bytes) : Except Fault RQ := do
  let filenameLen ← inside (strnlen filename tftpMaxFilenameLen)
  let rq ← before.store 0 (← inside (strncpy filename filenameLen))
  let rq ← rq.store filenameLen [0]
  let modeLen ← inside (strnlen mode tftpMaxModeLen)
  let rq ← rq.store (filenameLen + 1) (← inside (strncpy mode modeLen))
  rq.store (filenameLen + modeLen + 1) [0]

end RQ

/-! ## `Packet` -/

/-- `ErrorCode::Value`. -/
inductive ErrorCode where
  | notDefined
  | fileNotFound
  | accessViolation
  | diskFull
  | illegalOperation
  | unknownTransferId
  | fileAlreadyExists
  | noSuchUser
  deriving DecidableEq

/-- The enumerators' values, as a little-endian machine holds them. -/
def ErrorCode.value : ErrorCode → UInt16
  | notDefined => 0
  | fileNotFound => 256
  | accessViolation => 512
  | diskFull => 768
  | illegalOperation => 1024
  | unknownTransferId => 1280
  | fileAlreadyExists => 1536
  | noSuchUser => 1792

namespace PacketBuf

/-- `payload.rq`. -/
def rq (p : PacketBuf) : Bytes := (p.val.drop opcodeLen).take sizeofRQ

/-- `payload.error.error_message`. -/
def errorMessage (p : PacketBuf) : Bytes := (p.val.drop dataHeaderLen).take (tftpMaxErrorMessageLen + 1)

/-- `Packet::size()`. -/
def size (p : PacketBuf) : Except Fault Nat :=
  match p.opcode with
  | some .rrq | some .wrq => do pure (opcodeLen + (← RQ.size p.rq))
  | some .data => throw (.tftpError (ascii "DATA packets should be constructed with a length"))
  -- `sizeof(block)`
  | some .ack => pure (opcodeLen + 2)
  | some .error => do
      let errorMessageLen ← inside (strnlen p.errorMessage tftpMaxErrorMessageLen)
      -- `sizeof(error_code)`
      pure (opcodeLen + (2 + (errorMessageLen + 1)))
  | none => throw (.tftpError (ascii "Unknown opcode" ++ stdToString (opcodeField p.val).toNat))

end PacketBuf

/-- `Packet(opcode, RQ(filename, mode))`, over what memory held before. -/
def request (opcode : Opcode) (before : PacketBuf) (rq : RQ) (filename mode : Bytes) :
    Except Fault PacketBuf := do
  let rq ← RQ.construct rq filename mode
  pure (.receive (le16 opcode.value ++ rq.val) before (by
    rw [List.length_append, le16_length, rq.2]
    decide))

/-- `RRQ`. -/
def RRQ : PacketBuf → RQ → Bytes → Bytes → Except Fault PacketBuf := request .rrq

/-- `WRQ`. -/
def WRQ : PacketBuf → RQ → Bytes → Bytes → Except Fault PacketBuf := request .wrq

/-- `Packet(ERROR(error_code))`, over what memory held before: `strncpy` of the empty text fills the message
with zeros. -/
def ERROR (errorCode : ErrorCode) (before : PacketBuf) : PacketBuf :=
  .receive (le16 Opcode.error.value ++ le16 errorCode.value ++
    (zeros tftpMaxErrorMessageLen ++ [0])) before (by
      simp only [List.length_append, le16_length, zeros_length, List.length_singleton]
      decide)

/-- The bytes of `ERROR(error_code)` that go on the wire: the opcode, the code and an empty message. -/
def errorImage (errorCode : ErrorCode) : Bytes :=
  le16 Opcode.error.value ++ le16 errorCode.value ++ [0]

/-- `client->write` of an `ERROR` packet, with its `size()`. -/
def errorSent (errorCode : ErrorCode) (before : PacketBuf) : Except Fault Bytes := do
  pure ((ERROR errorCode before).val.take (← (ERROR errorCode before).size))

/-! ## The strings in the array -/

section Strings

variable {f m : Bytes}

/-- A store right behind a front. -/
theorem RQ.store_append {rq : RQ} {front back : Bytes} (off : Nat) (src : Bytes)
    (h : rq.val = front ++ back) (hoff : off = front.length) (hfits : src.length ≤ back.length) :
    ∃ rq' : RQ, rq.store off src = .ok rq' ∧ rq'.val = front ++ src ++ back.drop src.length := by
  have hinside : off + src.length ≤ rq.val.length := by
    rw [h, List.length_append]
    omega
  refine ⟨⟨overwrite rq.val off src, by rw [overwrite_length hinside, rq.2]⟩, ?_, ?_⟩
  · exact dif_pos hinside
  · show overwrite rq.val off src = _
    rw [h, hoff, overwrite_append]

/-- **What the constructor makes of two strings**: both cut off at their maximum, each with its NUL. -/
theorem RQ.construct_eq (before : RQ) (hf : 0 ∉ f) (hm : 0 ∉ m) (behindF behindM : Bytes) :
    ∃ (rq : RQ) (rest : Bytes),
      RQ.construct before (f ++ 0 :: behindF) (m ++ 0 :: behindM) = .ok rq ∧
        rq.val = f.take tftpMaxFilenameLen ++ 0 :: (m.take tftpMaxModeLen ++ 0 :: rest) := by
  have hlenF : (f.take tftpMaxFilenameLen).length ≤ 128 := List.length_take_le ..
  have hlenM : (m.take tftpMaxModeLen).length ≤ 8 := List.length_take_le ..
  have hscanF := strnlen_append_nul hf behindF tftpMaxFilenameLen
  have hscanM := strnlen_append_nul hm behindM tftpMaxModeLen
  -- the array is filled from the front
  generalize hF : f.take tftpMaxFilenameLen = front at *
  generalize hM : m.take tftpMaxModeLen = back at *
  have hcopyF : strncpy (f ++ 0 :: behindF) front.length = some front := by
    rw [← hF]
    exact strncpy_take hf ..
  have hcopyM : strncpy (m ++ 0 :: behindM) back.length = some back := by
    rw [← hM]
    exact strncpy_take hm ..
  have hbefore : before.val.length = 138 := before.2
  obtain ⟨rq₁, hstore₁, hval₁⟩ :=
    RQ.store_append 0 front (List.nil_append before.val).symm rfl (by omega)
  obtain ⟨rq₂, hstore₂, hval₂⟩ := RQ.store_append front.length [0] hval₁ rfl (by simp; omega)
  obtain ⟨rq₃, hstore₃, hval₃⟩ := RQ.store_append (front.length + 1) back hval₂
    (by simp) (by simp; omega)
  obtain ⟨rq₄, hstore₄, hval₄⟩ := RQ.store_append (front.length + back.length + 1) [0] hval₃
    (by simp; omega) (by simp; omega)
  refine ⟨rq₄, _, ?_, hval₄.trans (by simp; rfl)⟩
  refine bind_eq_ok.mpr ⟨front.length, congrArg inside hscanF, ?_⟩
  refine bind_eq_ok.mpr ⟨front, congrArg inside hcopyF, ?_⟩
  refine bind_eq_ok.mpr ⟨rq₁, hstore₁, ?_⟩
  refine bind_eq_ok.mpr ⟨rq₂, hstore₂, ?_⟩
  refine bind_eq_ok.mpr ⟨back.length, congrArg inside hscanM, ?_⟩
  refine bind_eq_ok.mpr ⟨back, congrArg inside hcopyM, ?_⟩
  exact bind_eq_ok.mpr ⟨rq₃, hstore₃, hstore₄⟩

section Scans

variable {filename mode : Bytes}

theorem RQ.filename_eq (hfilename : 0 ∉ filename) (rest : Bytes) :
    RQ.filename (filename ++ 0 :: rest) = .ok filename :=
  congrArg inside (cString_append_nul hfilename rest)

/-- The scan for the mode begins behind the NUL of the filename, or behind the maximum. -/
theorem RQ.mode_eq (hfilename : 0 ∉ filename) (rest : Bytes) : RQ.mode (filename ++ 0 :: rest) =
    inside (cString ((filename ++ 0 :: rest).drop ((filename.take tftpMaxFilenameLen).length + 1))) := by
  rw [RQ.mode, strnlen_append_nul hfilename]
  rfl

/-- Behind a filename within the maximum are the bytes behind its NUL. -/
theorem drop_filename (hlen : filename.length ≤ tftpMaxFilenameLen) (rest : Bytes) :
    (filename ++ 0 :: rest).drop ((filename.take tftpMaxFilenameLen).length + 1) = rest := by
  rw [List.take_of_length_le hlen, ← List.drop_drop, List.drop_left, List.drop_one, List.tail_cons]

/-- Two strings within their maximum are found. -/
theorem RQ.size_eq (hfilename : 0 ∉ filename) (hlen : filename.length ≤ tftpMaxFilenameLen)
    (hmode : 0 ∉ mode) (hlenMode : mode.length ≤ tftpMaxModeLen) (rest : Bytes) :
    RQ.size (filename ++ 0 :: (mode ++ 0 :: rest)) =
      .ok (filename.length + 1 + (mode.length + 1)) := by
  have hmodeLen : strnlen (mode ++ 0 :: rest) tftpMaxModeLen = some mode.length := by
    rw [strnlen_append_nul hmode, List.take_of_length_le hlenMode]
  have hbehind := drop_filename hlen (mode ++ 0 :: rest)
  rw [List.take_of_length_le hlen] at hbehind
  rw [RQ.size, strnlen_append_nul hfilename, List.take_of_length_le hlen]
  show (inside (strnlen ((filename ++ 0 :: (mode ++ 0 :: rest)).drop (filename.length + 1))
    tftpMaxModeLen) >>= _) = _
  rw [hbehind, hmodeLen]
  rfl

end Scans

end Strings

/-! ## The packets -/

/-- A packet that is a request: with this opcode, these strings, and all of it in its first `size()` bytes. -/
structure Requests (p : PacketBuf) (o : Opcode) (f m : Bytes) : Prop where
  opcode : p.opcode = some o
  filename : RQ.filename p.rq = .ok f
  mode : RQ.mode p.rq = .ok m
  size : p.size = .ok (2 + (f.length + 1) + (m.length + 1))
  image : p.val.take (2 + (f.length + 1) + (m.length + 1)) = le16 o.value ++ (f ++ 0 :: (m ++ [0]))

section Packets

variable {opcode : Opcode} {filename mode : Bytes}

/-- Two strings within their maximum behind the opcode of a request. -/
theorem requests_of_val {p : PacketBuf} {rq : RQ} {rest behind : Bytes}
    (hopcode : opcode = .rrq ∨ opcode = .wrq) (hfilename : 0 ∉ filename)
    (hlen : filename.length ≤ tftpMaxFilenameLen) (hmode : 0 ∉ mode)
    (hlenMode : mode.length ≤ tftpMaxModeLen) (hrq : rq.val = filename ++ 0 :: (mode ++ 0 :: rest))
    (hp : p.val = le16 opcode.value ++ (rq.val ++ behind)) : Requests p opcode filename mode := by
  have hop : p.opcode = some opcode := opcode_of_val hp
  have hpart : p.rq = filename ++ 0 :: (mode ++ 0 :: rest) := by
    rw [← hrq, PacketBuf.rq, hp, show opcodeLen = (le16 opcode.value).length from rfl, List.drop_left,
      List.take_left' rq.2]
  have hsize := RQ.size_eq hfilename hlen hmode hlenMode rest
  refine ⟨hop, ?_, ?_, ?_, ?_⟩
  · rw [hpart]
    exact RQ.filename_eq hfilename _
  · rw [hpart, RQ.mode_eq hfilename, drop_filename hlen]
    exact congrArg inside (cString_append_nul hmode rest)
  · have hbranch : p.size = RQ.size p.rq >>= fun n => pure (opcodeLen + n) := by
      unfold PacketBuf.size
      rcases hopcode with rfl | rfl
      · rw [hop]
      · rw [hop]
    rw [hbranch, hpart, hsize]
    exact congrArg Except.ok (Nat.add_assoc 2 (filename.length + 1) (mode.length + 1)).symm
  · have hfront : le16 opcode.value ++ (rq.val ++ behind) =
        (le16 opcode.value ++ (filename ++ 0 :: (mode ++ [0]))) ++ (rest ++ behind) := by
      rw [hrq]
      simp
    have hlength : (le16 opcode.value ++ (filename ++ 0 :: (mode ++ [0]))).length =
        2 + (filename.length + 1) + (mode.length + 1) := by
      simp only [List.length_append, List.length_cons, List.length_nil, le16_length]
      omega
    rw [hp, hfront, ← hlength, List.take_left]

end Packets

/-- **Request packets round trip.** Strings of any length, whatever is in memory behind them and in the
objects before: `RRQ` and `WRQ` make a packet with the first 128 bytes of the filename and the first 8 of the
mode, and no access leaves an array. -/
theorem request_round_trip {opcode : Opcode} (hopcode : opcode = .rrq ∨ opcode = .wrq) {f m : Bytes}
    (hf : 0 ∉ f) (hm : 0 ∉ m) (behindF behindM : Bytes) (before : PacketBuf) (rq : RQ) :
    ∃ p, request opcode before rq (f ++ 0 :: behindF) (m ++ 0 :: behindM) = .ok p ∧
      Requests p opcode (f.take 128) (m.take 8) := by
  obtain ⟨rq', rest, hconstruct, hval⟩ := RQ.construct_eq rq hf hm behindF behindM
  have hfits : (le16 opcode.value ++ rq'.val).length ≤ tftpMaxPacketLen := by
    rw [List.length_append, le16_length, rq'.2]
    decide
  obtain ⟨behind, hp⟩ := receive_val (le16 opcode.value ++ rq'.val) before hfits
  refine ⟨.receive (le16 opcode.value ++ rq'.val) before hfits,
    bind_eq_ok.mpr ⟨rq', hconstruct, rfl⟩, ?_⟩
  rw [List.append_assoc] at hp
  exact requests_of_val hopcode (fun hmem => hf (List.mem_of_mem_take hmem)) (List.length_take_le ..)
    (fun hmem => hm (List.mem_of_mem_take hmem)) (List.length_take_le ..) hval hp

/-- A mode that is too long, and a filename that is empty. -/
theorem request_round_trip_cut :
    ∃ p, RRQ .blank ⟨zeros sizeofRQ, zeros_length _⟩ [0] (ascii "netascii!" ++ [0]) = .ok p ∧
      Requests p .rrq [] (ascii "netascii") :=
  request_round_trip (.inl rfl) (f := []) (m := ascii "netascii!") List.not_mem_nil (by decide) [] []
    .blank _

/-- **What is sent of an `ERROR` packet.** -/
theorem errorSent_eq (errorCode : ErrorCode) (before : PacketBuf) :
    errorSent errorCode before = .ok (errorImage errorCode) := by
  obtain ⟨behind, hp⟩ : ∃ behind, (ERROR errorCode before).val =
      le16 Opcode.error.value ++ le16 errorCode.value ++ (0 :: behind) := by
    obtain ⟨rest, hp⟩ := receive_val (le16 Opcode.error.value ++ le16 errorCode.value ++
      (zeros tftpMaxErrorMessageLen ++ [0])) before (by
        simp only [List.length_append, le16_length, zeros_length, List.length_singleton]
        decide)
    exact ⟨_, hp.trans (List.append_assoc ..)⟩
  have hop : (ERROR errorCode before).opcode = some .error :=
    opcode_of_val (hp.trans (List.append_assoc ..))
  have hmessage : strnlen (ERROR errorCode before).errorMessage tftpMaxErrorMessageLen = some 0 := by
    rw [PacketBuf.errorMessage, hp]
    rfl
  have hsize : (ERROR errorCode before).size = .ok 5 := by
    unfold PacketBuf.size
    rw [hop]
    show (inside (strnlen (ERROR errorCode before).errorMessage tftpMaxErrorMessageLen) >>= _) = _
    rw [hmessage]
    rfl
  rw [errorSent, hsize, hp]
  rfl

end ComputerNetworking.Tftp
