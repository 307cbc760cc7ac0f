/-
# ComputerNetworking.Tftp.Datagrams -- whatever the WRQ loop receives

The loop looks at the opcode and the block number in its array before it has asked how much has been
received. What is in the array otherwise is unspecified, so the whole header of the expected block may be
there although only a part of it has come in, or nothing. `onlyReceived_iff` says that this is the one thing
that goes wrong: any other result of `client->read` is followed by what its bytes say, and where they are the
expected block, by exactly its payload.
-/
import ComputerNetworking.Tftp.WriteRequest

namespace ComputerNetworking.Tftp

open ComputerNetworking.Lib

/-! ## Results of a read -/

/-- What a read into the array can receive. -/
abbrev Received := { bytes : Bytes // bytes.length ≤ tftpMaxPacketLen }

/-- What `client->read` comes to: a datagram, or -1. -/
abbrev ReadResult := Option Received

namespace ReadResult

variable (r : ReadResult)

/-- The value returned. -/
def ret : Int :=
  match r with
  | none => -1
  | some d => d.val.length

/-- The bytes received. -/
def bytes : Bytes :=
  match r with
  | none => []
  | some d => d.val

/-- The array behind the read. -/
def array (before : PacketBuf) : PacketBuf :=
  match r with
  | none => before
  | some d => .receive d.val before d.2

end ReadResult

/-- What a `select` can come to, without the contents of the array. -/
inductive Input where
  | interrupted
  | selectError
  | timeout
  | read (r : ReadResult)

/-- The same with an array that held something before. -/
def Input.event (before : PacketBuf) : Input → WriteEvent
  | interrupted => .interrupted
  | selectError => .selectError
  | timeout => .timeout
  | read r => .received r.ret (r.array before)

/-! ## What is to hold -/

/-- The tests of the loop: the array holds a DATA packet with the expected block number. -/
def WriteTransfer.Accepts (s : WriteTransfer) (data : PacketBuf) : Prop :=
  data.opcode = some .data ∧ data.getBlock = s.block

/-- Only what has been received has an influence: whatever the array held, the loop does the same, nothing
shorter than a header is accepted, and what is accepted is a DATA packet, of which the payload is written, as
many bytes as the length says. -/
structure OnlyReceived (s : WriteTransfer) (r : ReadResult) : Prop where
  same : ∀ before before', writeStep s ((Input.read r).event before) =
    writeStep s ((Input.read r).event before')
  short : r.bytes.length < dataHeaderLen → ∀ before, ¬ s.Accepts (r.array before)
  payload : ∀ before, s.Accepts (r.array before) → ∃ payload : Payload,
    r.bytes = dataImage s.block payload.val ∧ r.ret - dataHeaderLen = payload.val.length ∧
      writeStep s ((Input.read r).event before) = s.onBlock payload.val (r.array before)

/-- What has been received is shorter than a header, and the beginning of the expected one. After a failed
read that is nothing. -/
def PartOfHeader (s : WriteTransfer) (r : ReadResult) : Prop :=
  r.bytes.length < dataHeaderLen ∧ r.bytes <+: dataImage s.block []

/-! ## The array -/

section Array

variable {s : WriteTransfer} {r : ReadResult} {before : PacketBuf}

/-- What has been received is followed by what the array held. -/
theorem array_val (r : ReadResult) (before : PacketBuf) :
    (r.array before).val = r.bytes ++ before.val.drop r.bytes.length := by
  rcases r with _ | d
  · rfl
  · show overwrite before.val 0 d.val = d.val ++ before.val.drop d.val.length
    rw [overwrite, List.take_zero, List.nil_append, Nat.zero_add]

/-- A datagram that fills the array leaves nothing of it. -/
theorem array_full (h : r.bytes.length = tftpMaxPacketLen) (before : PacketBuf) :
    (r.array before).val = r.bytes := by
  rw [array_val, h, List.drop_of_length_le (Nat.le_of_eq before.2), List.append_nil]

/-- The tests ask for the four bytes of the header. -/
theorem accepts_iff {data : PacketBuf} : s.Accepts data ↔ dataImage s.block [] <+: data.val := by
  constructor
  · rintro ⟨hop, hblock⟩
    rw [PacketBuf.opcode_eq, opcodeOf_eq_some_iff] at hop
    obtain ⟨rest, hval⟩ := hop
    have hlength := congrArg List.length hval
    rw [List.length_append, le16_length, data.2] at hlength
    rcases rest with _ | ⟨b₂, _ | ⟨b₃, rest⟩⟩
    · cases hlength
    · cases hlength
    · have hword : ntohs (readLe16 b₂ b₃) = s.block := by
        rw [← hblock, PacketBuf.getBlock, ← hval]
        rfl
      refine ⟨rest, ?_⟩
      rw [← hval, dataImage, ← hword, htons_ntohs, le16_readLe16]
      rfl
  · rintro ⟨rest, hval⟩
    have hfields : data.val = le16 Opcode.data.value ++ le16 (htons s.block) ++ rest := by
      rw [← hval, dataImage, List.append_nil]
    exact ⟨opcode_of_val (hfields.trans (List.append_assoc ..)), getBlock_of_val hfields⟩

/-- A pattern of the array that has not been received whole has been received in part. -/
theorem prefix_array {pat : Bytes} (h : pat <+: (r.array before).val) :
    pat <+: r.bytes ∨ r.bytes.length < pat.length ∧ r.bytes <+: pat := by
  rw [array_val] at h
  rcases Nat.lt_or_ge r.bytes.length pat.length with hlt | hle
  · exact .inr ⟨hlt, List.prefix_of_prefix_length_le (List.prefix_append ..) h (Nat.le_of_lt hlt)⟩
  · exact .inl (List.prefix_of_prefix_length_le h (List.prefix_append ..) hle)

theorem prefix_array_of_bytes {pat : Bytes} (h : pat <+: r.bytes) (before : PacketBuf) :
    pat <+: (r.array before).val := by
  rw [array_val]
  exact h.trans (List.prefix_append ..)

/-- Nothing but a part of the header can be accepted without the whole. -/
theorem accepts_array_iff (hpart : ¬ PartOfHeader s r) (before : PacketBuf) :
    s.Accepts (r.array before) ↔ dataImage s.block [] <+: r.bytes := by
  rw [accepts_iff]
  constructor
  · intro h
    exact (prefix_array h).resolve_right hpart
  · intro h
    exact prefix_array_of_bytes h before

theorem opcode_array_iff (hpart : ¬ PartOfHeader s r) (before : PacketBuf) :
    (r.array before).opcode = some .data ↔ le16 Opcode.data.value <+: r.bytes := by
  rw [PacketBuf.opcode_eq, opcodeOf_eq_some_iff]
  constructor
  · intro h
    refine (prefix_array h).resolve_right ?_
    rintro ⟨hlt, hbegins⟩
    rw [le16_length] at hlt
    refine hpart ⟨by unfold dataHeaderLen; omega, hbegins.trans ?_⟩
    rw [dataImage, List.append_nil]
    exact List.prefix_append ..
  · intro h
    exact prefix_array_of_bytes h before

end Array

/-! ## The step -/

section Step

variable {s : WriteTransfer} {r : ReadResult}

/-- With another opcode the loop is left. -/
theorem writeStep_notData (hrun : s.left = none) {before : PacketBuf}
    (hop : (r.array before).opcode ≠ some .data) :
    writeStep s ((Input.read r).event before) =
      some (WriteTransfer.leave { s with timeouts := 0 } .notData) := by
  unfold writeStep Input.event
  rw [if_neg (by simp [hrun])]
  exact if_pos hop

/-- With another block number the last acknowledgement is sent again. -/
theorem writeStep_repeat (hrun : s.left = none) {before : PacketBuf}
    (hop : (r.array before).opcode = some .data) (haccepts : ¬ s.Accepts (r.array before)) :
    writeStep s ((Input.read r).event before) =
      some (WriteTransfer.sendAck { s with timeouts := 0 } (s.block - 1)) := by
  have hblock : (r.array before).getBlock ≠ s.block := fun hblock => haccepts ⟨hop, hblock⟩
  unfold writeStep Input.event
  rw [if_neg (by simp [hrun])]
  simp only [hop, ne_eq, not_true_eq_false, if_false]
  exact if_pos hblock

/-- The header and what is behind it have come in as a datagram. -/
theorem exists_payload (h : dataImage s.block [] <+: r.bytes) :
    ∃ (payload : Payload) (hfit : (dataImage s.block payload.val).length ≤ tftpMaxPacketLen),
      r = some ⟨dataImage s.block payload.val, hfit⟩ := by
  obtain ⟨bytes, hbytes⟩ := h
  rcases r with _ | ⟨d, hd⟩
  · cases hbytes
  · have himage : d = dataImage s.block bytes := by
      show ReadResult.bytes (some ⟨d, hd⟩) = _
      rw [← hbytes, dataImage, dataImage, List.append_nil]
    subst himage
    have hlen : bytes.length ≤ tftpMaxDataLen := by
      rw [dataImage_length] at hd
      unfold tftpMaxPacketLen at hd
      omega
    exact ⟨⟨bytes, hlen⟩, hd, rfl⟩

theorem ret_dataImage {payload : Payload}
    (hfit : (dataImage s.block payload.val).length ≤ tftpMaxPacketLen) :
    ReadResult.ret (some ⟨dataImage s.block payload.val, hfit⟩) =
      dataHeaderLen + payload.val.length := by
  show ((dataImage s.block payload.val).length : Int) = _
  rw [dataImage_length]
  push_cast
  rfl

theorem writeStep_block (hrun : s.left = none) {payload : Payload}
    (hfit : (dataImage s.block payload.val).length ≤ tftpMaxPacketLen) (before : PacketBuf) :
    writeStep s ((Input.read (some ⟨dataImage s.block payload.val, hfit⟩)).event before) =
      s.onBlock payload.val (.receive (dataImage s.block payload.val) before hfit) := by
  have hevent : (Input.read (some ⟨dataImage s.block payload.val, hfit⟩)).event before =
      .data s.block payload before := by
    show WriteEvent.received (ReadResult.ret (some ⟨dataImage s.block payload.val, hfit⟩)) _ = _
    rw [ret_dataImage]
    rfl
  rw [hevent, writeStep_data payload before hrun hfit]

/-- A block goes on with the array only if it has filled it. -/
theorem onBlock_array {payload : Payload}
    (hfit : (dataImage s.block payload.val).length ≤ tftpMaxPacketLen) (before before' : PacketBuf) :
    s.onBlock payload.val (.receive (dataImage s.block payload.val) before hfit) =
      s.onBlock payload.val (.receive (dataImage s.block payload.val) before' hfit) := by
  unfold WriteTransfer.onBlock
  split_ifs with hshort
  · rfl
  · have hfull : (ReadResult.bytes (some ⟨dataImage s.block payload.val, hfit⟩)).length =
        tftpMaxPacketLen := by
      show (dataImage s.block payload.val).length = _
      have hmost : payload.val.length ≤ tftpMaxDataLen := payload.2
      rw [dataImage_length]
      unfold tftpMaxPacketLen
      omega
    have harray : PacketBuf.receive (dataImage s.block payload.val) before hfit =
        .receive (dataImage s.block payload.val) before' hfit :=
      Subtype.ext ((array_full hfull before).trans (array_full hfull before').symm)
    rw [harray]

/-- The expected block, received. -/
theorem onlyReceived_block (hrun : s.left = none) {payload : Payload}
    (hfit : (dataImage s.block payload.val).length ≤ tftpMaxPacketLen) :
    OnlyReceived s (some ⟨dataImage s.block payload.val, hfit⟩) := by
  refine ⟨fun before before' => ?_, fun hshort => ?_, fun before _ => ⟨payload, rfl, ?_, ?_⟩⟩
  · rw [writeStep_block hrun, writeStep_block hrun]
    exact onBlock_array hfit before before'
  · have hlong : (dataImage s.block payload.val).length < dataHeaderLen := hshort
    rw [dataImage_length] at hlong
    omega
  · rw [ret_dataImage]
    omega
  · exact writeStep_block hrun hfit before

/-- Anything else, as long as nothing that is in the array can make a header of it. -/
theorem onlyReceived_other (hrun : s.left = none) (hpart : ¬ PartOfHeader s r)
    (hother : ¬ dataImage s.block [] <+: r.bytes) : OnlyReceived s r := by
  have haccepts : ∀ before, ¬ s.Accepts (r.array before) := fun before haccepts =>
    hother ((accepts_array_iff hpart before).mp haccepts)
  refine ⟨fun before before' => ?_, fun _ => haccepts, fun before h => absurd h (haccepts before)⟩
  by_cases hop : le16 Opcode.data.value <+: r.bytes
  · rw [writeStep_repeat hrun ((opcode_array_iff hpart before).mpr hop) (haccepts before),
      writeStep_repeat hrun ((opcode_array_iff hpart before').mpr hop) (haccepts before')]
  · rw [writeStep_notData hrun (mt (opcode_array_iff hpart before).mp hop),
      writeStep_notData hrun (mt (opcode_array_iff hpart before').mp hop)]

/-- An array that holds the header of the expected block. -/
def headerHeld (s : WriteTransfer) : PacketBuf :=
  .receive (dataImage s.block []) .blank (by
    rw [dataImage_length]
    decide)

/-- Behind a part of the header the array completes it. -/
theorem accepts_headerHeld (hpart : PartOfHeader s r) : s.Accepts (r.array (headerHeld s)) := by
  obtain ⟨more, hmore⟩ := hpart.2
  obtain ⟨rest, hheld⟩ := receive_val (dataImage s.block []) .blank (by
    rw [dataImage_length]
    decide)
  have hval : (headerHeld s).val = r.bytes ++ (more ++ rest) := by
    rw [← List.append_assoc, hmore]
    exact hheld
  rw [accepts_iff, array_val, hval, List.drop_left, ← List.append_assoc, hmore]
  exact List.prefix_append ..

/-- **One read.** Only what has been received has an influence exactly if it is no part of the header. -/
theorem onlyReceived_iff_not_part (hrun : s.left = none) : OnlyReceived s r ↔ ¬ PartOfHeader s r := by
  constructor
  · intro h hpart
    exact h.short hpart.1 (headerHeld s) (accepts_headerHeld hpart)
  · intro hpart
    by_cases hwhole : dataImage s.block [] <+: r.bytes
    · obtain ⟨payload, hfit, rfl⟩ := exists_payload hwhole
      exact onlyReceived_block hrun hfit
    · exact onlyReceived_other hrun hpart hwhole

end Step

/-! ## Runs -/

/-- The transfer, with what its array holds before each `select`. -/
def receiving (mode : Mode) : Machine WriteTransfer (Input × PacketBuf) where
  init s := s = .start mode
  step s x := writeStep s (x.1.event x.2)

/-- What is read is no part of the header of the expected block. -/
def Filled (s : WriteTransfer) (x : Input × PacketBuf) : Prop :=
  ∀ r, x.1 = .read r → ¬ PartOfHeader s r

section Runs

variable {mode : Mode} {s : WriteTransfer}

/-- One input over two arrays. -/
theorem receiving_step_same (mode : Mode) {input : Input} {before : PacketBuf} (before' : PacketBuf)
    (h : Filled s (input, before)) :
    (receiving mode).step s (input, before) = (receiving mode).step s (input, before') := by
  cases input with
  | interrupted => rfl
  | selectError => rfl
  | timeout => rfl
  | read r =>
      rcases hleft : s.left with _ | why
      · exact ((onlyReceived_iff_not_part hleft).mpr (h r rfl)).same before before'
      · have hnone : ∀ e, writeStep s e = none := fun e => if_pos (by simp [hleft])
        show writeStep s ((Input.read r).event before) = writeStep s ((Input.read r).event before')
        rw [hnone, hnone]

/-- The same inputs over any arrays. -/
theorem receiving_run_same {xs xs' : List (Input × PacketBuf)}
    (hinputs : xs.map Prod.fst = xs'.map Prod.fst) (h : (receiving mode).Along Filled s xs) :
    (receiving mode).run s xs = (receiving mode).run s xs' := by
  induction xs generalizing xs' s with
  | nil =>
      rw [List.map_nil, eq_comm, List.map_eq_nil_iff] at hinputs
      rw [hinputs]
  | cons x xs ih =>
      obtain ⟨x', rest, rfl, hx, hrest⟩ := List.map_eq_cons_iff.mp hinputs.symm
      obtain ⟨input, before⟩ := x
      obtain ⟨input', before'⟩ := x'
      cases hx
      have hstep := receiving_step_same mode before' h.1
      rw [Machine.run, Machine.run, ← hstep]
      rcases hs : (receiving mode).step s (input, before) with _ | s'
      · rfl
      · exact ih hrest.symm (h.2 s' hs)

end Runs

/-- **Every datagram length.** In every state of the loop and for every result of the read: only what has
been received has an influence if and only if it is not a part of the expected header. And a run in which
no read gives such a part is the same whatever its array held. -/
theorem onlyReceived_iff (mode : Mode) :
    (∀ s, (receiving mode).Reachable s → s.left = none →
      ∀ r, OnlyReceived s r ↔ ¬ PartOfHeader s r) ∧
    ∀ xs xs' : List (Input × PacketBuf), xs.map Prod.fst = xs'.map Prod.fst →
      (receiving mode).Along Filled (.start mode) xs →
        (receiving mode).run (.start mode) xs = (receiving mode).run (.start mode) xs' := by
  constructor
  · intro s _ hrun r
    exact onlyReceived_iff_not_part hrun
  · intro xs xs' hinputs h
    exact receiving_run_same hinputs h

/-- A first block of one byte. -/
theorem onlyReceived_first : OnlyReceived (.start .octet) (some ⟨dataImage 1 [0x61], by decide⟩) := by
  refine ((onlyReceived_iff .octet).1 (.start .octet) (.init rfl) rfl _).mpr ?_
  rintro ⟨hshort, -⟩
  exact absurd hshort (by decide)

/-- A failed read is accepted as a block if the array holds its header, and the count is -5. -/
theorem failed_read_accepted :
    (WriteTransfer.start .octet).Accepts (ReadResult.array none (headerHeld (.start .octet))) ∧
    ReadResult.ret none - dataHeaderLen = -5 ∧ ¬ OnlyReceived (.start .octet) none := by
  have hpart : PartOfHeader (.start .octet) none := ⟨by decide, List.nil_prefix⟩
  have haccepts := accepts_headerHeld hpart
  exact ⟨haccepts, rfl, fun h => h.short hpart.1 _ haccepts⟩

end ComputerNetworking.Tftp
