/-
# ComputerNetworking.Tftp.RequestHandling -- the first datagram of a client

The handler of `tftp_server.cpp` up to the loops of the transfers. It is given a pointer and ignores the
length: it looks at the receive buffer, all of which is there, though only its front has been received. The
filename is scanned without a bound, the mode is looked for behind at most 128 bytes of it, and nobody
catches what is thrown for an unknown mode.

`parsedSafely_iff` says for which datagrams none of this matters.
-/
import ComputerNetworking.Lib.Search
import ComputerNetworking.Tftp.Request

namespace ComputerNetworking.Tftp

open ComputerNetworking.Lib

/-! ## The handler -/

/-- `initial_packet_buffer_size` of libudp. -/
def initialPacketBufferSize : Nat := 1024

/-- What the receive buffer has room for. -/
abbrev Datagram := { bytes : Bytes // bytes.length ≤ initialPacketBufferSize }

/-- `Mode::to_string`. -/
def Mode.toString : Mode → Bytes
  | netascii => ascii "netascii"
  | octet => ascii "octet"

/-- `Mode::from_string`. -/
def Mode.fromString (modeStr : Bytes) : Except Fault Mode :=
  if modeStr = ascii "netascii" then .ok .netascii
  else if modeStr = ascii "octet" then .ok .octet
  else .error (.tftpError (ascii "Unknown mode: " ++ modeStr))

/-- How far the handler comes. -/
inductive Handled where
  /-- It has sent a packet and returned. -/
  | replied (packet : Bytes)
  /-- It is at the loop of a read transfer. -/
  | reading (filename : Bytes) (mode : Mode)
  /-- It is at the loop of a write transfer. -/
  | writing (filename : Bytes) (mode : Mode)
  deriving DecidableEq

/-- The handler on the receive buffer. `readable` says whether a `std::ifstream` opens the file, and `stack`
is what the handler's own packet holds before it is constructed. -/
def handleRequest (readable : Bytes → Bool) (stack : PacketBuf) (msg : Bytes) : Except Fault Handled :=
  match opcodeOf msg with
  | some .rrq => do
      let filename ← RQ.filename (msg.drop opcodeLen)
      if readable filename then
        let rrqMode ← Mode.fromString (← RQ.mode (msg.drop opcodeLen))
        pure (.reading filename rrqMode)
      else pure (.replied (← errorSent .fileNotFound stack))
  | some .wrq => do
      let filename ← RQ.filename (msg.drop opcodeLen)
      if readable filename then pure (.replied (← errorSent .fileAlreadyExists stack))
      else
        let wrqMode ← Mode.fromString (← RQ.mode (msg.drop opcodeLen))
        pure (.writing filename wrqMode)
  | _ => do pure (.replied (← errorSent .illegalOperation stack))

/-! ## What it is to come to -/

/-- The opcodes of requests. -/
def Opcode.IsRequest (o : Opcode) : Prop := o = rrq ∨ o = wrq

/-- The datagram is a filename and a mode behind the opcode of a request. -/
structure IsRequest (datagram : Bytes) (o : Opcode) (f : Bytes) (m : Mode) : Prop where
  opcode : o.IsRequest
  filename : 0 ∉ f
  image : datagram = le16 o.value ++ (f ++ 0 :: (m.toString ++ [0]))

/-- The error with which a file is refused: nothing to read, or something that would be written over. -/
def refusal (readable : Bytes → Bool) (o : Opcode) (filename : Bytes) : Option ErrorCode :=
  match o, readable filename with
  | .rrq, false => some .fileNotFound
  | .wrq, true => some .fileAlreadyExists
  | _, _ => none

/-- The transfer of a file. -/
def transfer : Opcode → Bytes → Mode → Handled
  | .rrq => .reading
  | _ => .writing

/-- What a request for a file comes to. -/
def served (readable : Bytes → Bool) (o : Opcode) (filename : Bytes) (mode : Mode) : Handled :=
  match refusal readable o filename with
  | some errorCode => .replied (errorImage errorCode)
  | none => transfer o filename mode

/-- The handler comes to the same whatever is behind the datagram: with a request to the transfer of that
file in that mode, or to its refusal, and with anything else to an `ERROR` packet. -/
def ParsedSafely (readable : Bytes → Bool) (datagram : Bytes) : Prop :=
  ∃ outcome, (∀ tail stack, (datagram ++ tail).length = initialPacketBufferSize →
      handleRequest readable stack (datagram ++ tail) = .ok outcome) ∧
    (∀ o filename mode, IsRequest datagram o filename mode →
      outcome = served readable o filename mode) ∧
    ((¬ ∃ o filename mode, IsRequest datagram o filename mode) →
      ∃ errorCode, outcome = .replied (errorImage errorCode))

/-- The opcode of a request is not in the datagram, nor as much of it as has been received. -/
def NoRequest (datagram : Bytes) : Prop :=
  ∀ o : Opcode, o.IsRequest → ¬ datagram <+: le16 o.value ∧ ¬ le16 o.value <+: datagram

/-- The filename has its NUL, and either it is refused or the mode is a mode, with nothing behind its NUL;
then the filename has at most 128 bytes, or happens to have the mode once more behind its first 129. -/
def FoundInside (readable : Bytes → Bool) (datagram : Bytes) : Prop :=
  ∃ o filename rest, Opcode.IsRequest o ∧ 0 ∉ filename ∧
    datagram = le16 o.value ++ (filename ++ 0 :: rest) ∧
    ((∃ errorCode, refusal readable o filename = some errorCode) ∨
      ∃ mode : Mode, rest = mode.toString ++ [0] ∧
        (filename.length ≤ tftpMaxFilenameLen ∨
          filename.drop (tftpMaxFilenameLen + 1) = mode.toString))

/-! ## Opcodes and modes -/

section Fields

variable {o o' : Opcode}

theorem Mode.fromString_eq_ok_iff {modeStr : Bytes} {mode : Mode} :
    Mode.fromString modeStr = .ok mode ↔ modeStr = mode.toString := by
  have hne : ascii "octet" ≠ ascii "netascii" := by decide
  unfold Mode.fromString
  constructor
  · intro h
    split_ifs at h with h₁ h₂
    · cases h
      exact h₁
    · cases h
      exact h₂
  · rintro rfl
    cases mode with
    | netascii => exact if_pos rfl
    | octet => exact (if_neg hne).trans (if_pos rfl)

theorem Mode.toString_inj {mode mode' : Mode} (h : mode.toString = mode'.toString) : mode = mode' := by
  have hread := Mode.fromString_eq_ok_iff.mpr h
  rw [Mode.fromString_eq_ok_iff.mpr rfl] at hread
  exact Except.ok.inj hread

theorem Mode.zero_notMem (mode : Mode) : 0 ∉ mode.toString := by
  cases mode <;> decide

/-- A request has one opcode, one filename and one mode. -/
theorem IsRequest.unique {filename filename' rest : Bytes} {mode' : Mode} (hfilename : 0 ∉ filename)
    (h : IsRequest (le16 o.value ++ (filename ++ 0 :: rest)) o' filename' mode') :
    o' = o ∧ filename' = filename ∧ rest = mode'.toString ++ [0] := by
  have hop : o' = o := by
    have hopcode := opcodeOf_append o (filename ++ 0 :: rest)
    rw [h.image, opcodeOf_append] at hopcode
    exact Option.some.inj hopcode
  have himage := h.image
  rw [hop, List.append_cancel_left_eq] at himage
  obtain ⟨hsame, hrest⟩ := cut_inj hfilename h.filename himage
  exact ⟨hop, hsame.symm, hrest⟩

end Fields

/-! ## The handler on a request -/

section Handle

variable {readable : Bytes → Bool} {stack : PacketBuf} {o : Opcode} {payload filename : Bytes}

/-- Both requests in one: the filename, the refusal, the mode. -/
theorem handleRequest_of_opcode (ho : o.IsRequest) :
    handleRequest readable stack (le16 o.value ++ payload) = RQ.filename payload >>= fun f =>
      match refusal readable o f with
      | some errorCode => .ok (.replied (errorImage errorCode))
      | none => RQ.mode payload >>= fun text => Mode.fromString text >>= fun mode =>
          .ok (transfer o f mode) := by
  have hbehind : (le16 o.value ++ payload).drop opcodeLen = payload := rfl
  unfold handleRequest
  rw [opcodeOf_append, hbehind]
  rcases ho with rfl | rfl
  · refine congrArg (RQ.filename payload >>= ·) (funext fun f => ?_)
    simp only [errorSent_eq, refusal]
    cases readable f <;> rfl
  · refine congrArg (RQ.filename payload >>= ·) (funext fun f => ?_)
    simp only [errorSent_eq, refusal]
    cases readable f <;> rfl

/-- Without a NUL the scan for the filename leaves the buffer. -/
theorem handleRequest_undefined (ho : o.IsRequest) (hpayload : 0 ∉ payload) :
    handleRequest readable stack (le16 o.value ++ payload) = .error .undefined := by
  have hscan : cString payload = none := by
    have h := cString_append hpayload []
    rwa [List.append_nil] at h
  rw [handleRequest_of_opcode ho, RQ.filename, hscan]
  rfl

theorem handleRequest_refused (ho : o.IsRequest) (hfilename : 0 ∉ filename) {errorCode : ErrorCode}
    (hrefusal : refusal readable o filename = some errorCode) (rest : Bytes) :
    handleRequest readable stack (le16 o.value ++ (filename ++ 0 :: rest)) =
      .ok (.replied (errorImage errorCode)) := by
  rw [handleRequest_of_opcode ho, RQ.filename_eq hfilename]
  show (match refusal readable o filename with | some _ => _ | none => _) = _
  rw [hrefusal]

/-- What is not refused is up to the mode. -/
theorem handleRequest_unrefused (ho : o.IsRequest) (hfilename : 0 ∉ filename)
    (hrefusal : refusal readable o filename = none) (rest : Bytes) :
    handleRequest readable stack (le16 o.value ++ (filename ++ 0 :: rest)) =
      RQ.mode (filename ++ 0 :: rest) >>= fun text => Mode.fromString text >>= fun mode =>
        .ok (transfer o filename mode) := by
  rw [handleRequest_of_opcode ho, RQ.filename_eq hfilename]
  show (match refusal readable o filename with | some _ => _ | none => _) = _
  rw [hrefusal]

/-- It is served in the mode that is found. -/
theorem handleRequest_eq_ok_iff (ho : o.IsRequest) (hfilename : 0 ∉ filename)
    (hrefusal : refusal readable o filename = none) (rest : Bytes) (outcome : Handled) :
    handleRequest readable stack (le16 o.value ++ (filename ++ 0 :: rest)) = .ok outcome ↔
      ∃ mode : Mode, RQ.mode (filename ++ 0 :: rest) = .ok mode.toString ∧
        outcome = transfer o filename mode := by
  rw [handleRequest_unrefused ho hfilename hrefusal]
  simp only [bind_eq_ok, Mode.fromString_eq_ok_iff, Except.ok.injEq]
  constructor
  · rintro ⟨text, htext, mode, rfl, rfl⟩
    exact ⟨mode, htext, rfl⟩
  · rintro ⟨mode, htext, rfl⟩
    exact ⟨mode.toString, htext, mode, rfl, rfl⟩

/-- The mode behind a filename that is too long is a piece of the filename. -/
theorem RQ.mode_of_long (hfilename : 0 ∉ filename) (hlen : tftpMaxFilenameLen < filename.length)
    (rest : Bytes) :
    RQ.mode (filename ++ 0 :: rest) = .ok (filename.drop (tftpMaxFilenameLen + 1)) := by
  rw [RQ.mode_eq hfilename, List.length_take_of_le (Nat.le_of_lt hlen),
    List.drop_append_of_le_length hlen]
  exact congrArg inside (cString_append_nul (fun hmem => hfilename (List.mem_of_mem_drop hmem)) rest)

/-- So the mode that is served is that piece. -/
theorem handleRequest_of_long (ho : o.IsRequest) (hfilename : 0 ∉ filename)
    (hlen : tftpMaxFilenameLen < filename.length) (hrefusal : refusal readable o filename = none)
    (rest : Bytes) :
    handleRequest readable stack (le16 o.value ++ (filename ++ 0 :: rest)) =
      Mode.fromString (filename.drop (tftpMaxFilenameLen + 1)) >>= fun mode =>
        .ok (transfer o filename mode) := by
  rw [handleRequest_unrefused ho hfilename hrefusal, RQ.mode_of_long hfilename hlen]
  rfl

theorem handleRequest_noRequest {datagram : Bytes} (h : NoRequest datagram) (tail : Bytes) :
    handleRequest readable stack (datagram ++ tail) =
      .ok (.replied (errorImage .illegalOperation)) := by
  have hother : ∀ o : Opcode, o.IsRequest → opcodeOf (datagram ++ tail) ≠ some o := by
    intro o ho hop
    rcases List.prefix_or_prefix_of_prefix (opcodeOf_eq_some_iff.mp hop) (List.prefix_append ..) with h' | h'
    · exact (h o ho).2 h'
    · exact (h o ho).1 h'
  unfold handleRequest
  split
  · next hop => exact absurd hop (hother _ (.inl rfl))
  · next hop => exact absurd hop (hother _ (.inr rfl))
  · rw [errorSent_eq]
    rfl

end Handle

/-! ## Which datagrams are parsed safely -/

section Safely

variable {readable : Bytes → Bool} {datagram : Bytes}

/-- Something to fill the buffer with, without a NUL. -/
def filler (n : Nat) : Bytes := List.replicate n 1

theorem zero_notMem_filler (n : Nat) : 0 ∉ filler n := by
  intro hmem
  exact absurd (List.eq_of_mem_replicate hmem) (by decide)

theorem ParsedSafely.of_noRequest (h : NoRequest datagram) : ParsedSafely readable datagram := by
  refine ⟨.replied (errorImage .illegalOperation), fun tail stack _ => handleRequest_noRequest h tail,
    ?_, fun _ => ⟨.illegalOperation, rfl⟩⟩
  rintro o filename mode ⟨ho, -, rfl⟩
  exact absurd (List.prefix_append ..) (h o ho).2

/-- Refused before the mode is looked for. -/
theorem ParsedSafely.of_refused {o : Opcode} {filename rest : Bytes} {errorCode : ErrorCode}
    (ho : o.IsRequest) (hfilename : 0 ∉ filename)
    (hrefusal : refusal readable o filename = some errorCode) :
    ParsedSafely readable (le16 o.value ++ (filename ++ 0 :: rest)) := by
  refine ⟨.replied (errorImage errorCode), fun tail stack _ => ?_, ?_, fun _ => ⟨errorCode, rfl⟩⟩
  · have hmsg : le16 o.value ++ (filename ++ 0 :: rest) ++ tail =
        le16 o.value ++ (filename ++ 0 :: (rest ++ tail)) := by simp
    rw [hmsg]
    exact handleRequest_refused ho hfilename hrefusal _
  · intro o' filename' mode' hrequest
    obtain ⟨rfl, rfl, -⟩ := hrequest.unique hfilename
    rw [served, hrefusal]

/-- Not refused, and the mode is the one that is found. -/
theorem ParsedSafely.of_found {o : Opcode} {filename : Bytes} {mode : Mode} (ho : o.IsRequest)
    (hfilename : 0 ∉ filename) (hrefusal : refusal readable o filename = none)
    (hfound : filename.length ≤ tftpMaxFilenameLen ∨
      filename.drop (tftpMaxFilenameLen + 1) = mode.toString) :
    ParsedSafely readable (le16 o.value ++ (filename ++ 0 :: (mode.toString ++ [0]))) := by
  refine ⟨transfer o filename mode, fun tail stack _ => ?_, ?_, fun hnone =>
    absurd ⟨o, filename, mode, ho, hfilename, rfl⟩ hnone⟩
  · have hmsg : le16 o.value ++ (filename ++ 0 :: (mode.toString ++ [0])) ++ tail =
        le16 o.value ++ (filename ++ 0 :: (mode.toString ++ 0 :: tail)) := by simp
    rw [hmsg]
    refine (handleRequest_eq_ok_iff ho hfilename hrefusal _ _).mpr ⟨mode, ?_, rfl⟩
    rcases Nat.lt_or_ge tftpMaxFilenameLen filename.length with hlong | hshort
    · rw [RQ.mode_of_long hfilename hlong, hfound.resolve_left (Nat.not_le_of_lt hlong)]
    · rw [RQ.mode_eq hfilename, drop_filename hshort]
      exact congrArg inside (cString_append_nul mode.zero_notMem tail)
  · intro o' filename' mode' hrequest
    obtain ⟨rfl, rfl, hmode⟩ := hrequest.unique hfilename
    rw [Mode.toString_inj (List.append_cancel_right hmode), served, hrefusal]

theorem ParsedSafely.of_foundInside (h : FoundInside readable datagram) :
    ParsedSafely readable datagram := by
  obtain ⟨o, filename, rest, ho, hfilename, rfl, hcases⟩ := h
  rcases hrefusal : refusal readable o filename with _ | errorCode
  · rcases hcases with ⟨errorCode, hrefused⟩ | ⟨mode, rfl, hfound⟩
    · rw [hrefusal] at hrefused
      cases hrefused
    · exact .of_found ho hfilename hrefusal hfound
  · exact .of_refused ho hfilename hrefusal

/-- Behind the opcode of a request there has to be a NUL: what else is in the buffer has none. -/
theorem not_parsedSafely_of_undefined {o : Opcode} (tail payload : Bytes) (ho : o.IsRequest)
    (hlen : (datagram ++ tail).length = initialPacketBufferSize)
    (hmsg : datagram ++ tail = le16 o.value ++ payload) (hpayload : 0 ∉ payload) :
    ¬ ParsedSafely readable datagram := by
  rintro ⟨outcome, hsame, -⟩
  have hok := hsame tail .blank hlen
  rw [hmsg, handleRequest_undefined ho hpayload] at hok
  cases hok

/-- A request that is served has its mode where it is found. -/
theorem ParsedSafely.found {o : Opcode} {filename rest : Bytes} (ho : o.IsRequest)
    (hfilename : 0 ∉ filename) (hrefusal : refusal readable o filename = none)
    (hlen : (le16 o.value ++ (filename ++ 0 :: rest)).length ≤ initialPacketBufferSize)
    (h : ParsedSafely readable (le16 o.value ++ (filename ++ 0 :: rest))) :
    ∃ mode : Mode, rest = mode.toString ++ [0] ∧ (filename.length ≤ tftpMaxFilenameLen ∨
      filename.drop (tftpMaxFilenameLen + 1) = mode.toString) := by
  obtain ⟨outcome, hsame, hserved, hreplied⟩ := h
  generalize hn : initialPacketBufferSize - (le16 o.value ++ (filename ++ 0 :: rest)).length = n
  have hok := hsame (filler n) .blank (by
    rw [List.length_append, filler, List.length_replicate]
    omega)
  have hmsg : le16 o.value ++ (filename ++ 0 :: rest) ++ filler n =
      le16 o.value ++ (filename ++ 0 :: (rest ++ filler n)) := by simp
  rw [hmsg, handleRequest_eq_ok_iff ho hfilename hrefusal] at hok
  obtain ⟨mode, hmode, rfl⟩ := hok
  -- a transfer is no reply, so the datagram is a request
  obtain ⟨o', filename', mode', hrequest⟩ : ∃ o' filename' mode',
      IsRequest (le16 o.value ++ (filename ++ 0 :: rest)) o' filename' mode' := by
    by_contra hnone
    obtain ⟨errorCode, hreply⟩ := hreplied hnone
    rcases ho with rfl | rfl <;> cases hreply
  have hsameMode := hserved _ _ _ hrequest
  obtain ⟨rfl, rfl, rfl⟩ := hrequest.unique hfilename
  have hmode' : mode = mode' := by
    rw [served, hrefusal] at hsameMode
    rcases ho with rfl | rfl <;> cases hsameMode <;> rfl
  refine ⟨mode', rfl, ?_⟩
  rcases Nat.lt_or_ge tftpMaxFilenameLen filename'.length with hlong | hshort
  · rw [RQ.mode_of_long hfilename hlong, hmode'] at hmode
    exact .inr (Except.ok.inj hmode)
  · exact .inl hshort

theorem noRequest_or_foundInside (hlen : datagram.length ≤ initialPacketBufferSize)
    (h : ParsedSafely readable datagram) : NoRequest datagram ∨ FoundInside readable datagram := by
  by_contra hneither
  rw [not_or] at hneither
  obtain ⟨o, ho, hbegins⟩ : ∃ o : Opcode, o.IsRequest ∧
      (datagram <+: le16 o.value ∨ le16 o.value <+: datagram) := by
    by_contra hnone
    refine hneither.1 fun o ho => ⟨fun hpart => hnone ⟨o, ho, .inl hpart⟩, fun hwhole => ?_⟩
    exact hnone ⟨o, ho, .inr hwhole⟩
  rcases hbegins with ⟨more, hmore⟩ | ⟨rest, rfl⟩
  · -- a part of the opcode, and the rest of it happens to be in the buffer
    refine not_parsedSafely_of_undefined (more ++ filler (initialPacketBufferSize - 2))
      (filler (initialPacketBufferSize - 2)) ho ?_ ?_ (zero_notMem_filler _) h
    · rw [← List.append_assoc, hmore, List.length_append, le16_length, filler, List.length_replicate]
      rfl
    · rw [← List.append_assoc, hmore]
  · rcases notMem_or_cut 0 rest with hnone | ⟨filename, rest, rfl, hfilename⟩
    · refine not_parsedSafely_of_undefined
        (filler (initialPacketBufferSize - (le16 o.value ++ rest).length))
        (rest ++ filler (initialPacketBufferSize - (le16 o.value ++ rest).length)) ho ?_
        (List.append_assoc ..) ?_ h
      · rw [List.length_append, filler, List.length_replicate]
        omega
      · rw [List.mem_append, not_or]
        exact ⟨hnone, zero_notMem_filler _⟩
    · refine hneither.2 ⟨o, filename, rest, ho, hfilename, rfl, ?_⟩
      rcases hrefusal : refusal readable o filename with _ | errorCode
      · exact .inr (h.found ho hfilename hrefusal hlen)
      · exact .inl ⟨errorCode, rfl⟩

end Safely

/-- **A datagram is parsed safely if and only if it does not begin like a request, or the filename has its
NUL and is refused, or the request is well-formed and its mode is where it is looked for.** -/
theorem parsedSafely_iff (readable : Bytes → Bool) (datagram : Datagram) :
    ParsedSafely readable datagram.val ↔
      NoRequest datagram.val ∨ FoundInside readable datagram.val := by
  constructor
  · exact noRequest_or_foundInside datagram.2
  · rintro (h | h)
    · exact .of_noRequest h
    · exact .of_foundInside h

/-- A filename of 128 bytes. -/
theorem parsedSafely_longest : ParsedSafely (fun _ => true)
    (le16 Opcode.rrq.value ++ (List.replicate 128 0x61 ++ 0 :: (Mode.octet.toString ++ [0]))) := by
  refine (parsedSafely_iff _ ⟨_, by decide +kernel⟩).mpr (.inr ?_)
  exact ⟨.rrq, List.replicate 128 0x61, Mode.octet.toString ++ [0], .inl rfl, by simp, rfl,
    .inr ⟨.octet, rfl, .inl (by decide +kernel)⟩⟩

/-- With one byte more the mode that is found is empty, and the exception is not caught. -/
theorem longer_filename_throws :
    (∀ stack tail, handleRequest (fun _ => true) stack
      (le16 Opcode.rrq.value ++ (List.replicate 129 0x61 ++ 0 :: (Mode.octet.toString ++ [0])) ++ tail) =
        .error (.tftpError (ascii "Unknown mode: "))) ∧
    ¬ ParsedSafely (fun _ => true)
      (le16 Opcode.rrq.value ++ (List.replicate 129 0x61 ++ 0 :: (Mode.octet.toString ++ [0]))) := by
  have hthrows : ∀ stack tail, handleRequest (fun _ => true) stack
      (le16 Opcode.rrq.value ++ (List.replicate 129 0x61 ++ 0 :: (Mode.octet.toString ++ [0])) ++ tail) =
        .error (.tftpError (ascii "Unknown mode: ")) := by
    intro stack tail
    have hfilename : 0 ∉ List.replicate 129 (0x61 : UInt8) := by simp
    have hnone : (List.replicate 129 (0x61 : UInt8)).drop (tftpMaxFilenameLen + 1) = [] := by
      decide +kernel
    rw [List.append_assoc, List.append_assoc, List.cons_append,
      handleRequest_of_long (.inl rfl) hfilename (by decide +kernel) rfl, hnone]
    rfl
  refine ⟨hthrows, ?_⟩
  rintro ⟨outcome, hsame, -⟩
  have hok := hsame (filler 886) .blank (by decide +kernel)
  rw [hthrows] at hok
  cases hok

end ComputerNetworking.Tftp
