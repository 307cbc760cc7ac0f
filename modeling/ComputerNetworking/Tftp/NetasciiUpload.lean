/-
# ComputerNetworking.Tftp.NetasciiUpload -- when decoding along the way loses nothing

A netascii upload is decoded while it arrives. After each full block the server asks the decoder for
as many characters as there are raw bytes buffered, less 257. Decoding shrinks the data, so this can
be more characters than the buffered bytes make up. If it never is, what is held back is the undecoded
rest and the file ends up decoded as a whole, wherever the pairs were cut: `Decoding`. If it is, the
string stream gets its `eofbit`, later blocks are acknowledged and dropped, and what is in the file
does not depend on them any more: `Dead`.
-/
import ComputerNetworking.Tftp.WriteRequest

namespace ComputerNetworking.Tftp

open ComputerNetworking.Lib

/-! ## The transfer -/

/-- A block that is not the last. -/
abbrev FullBlock := { bytes : Bytes // bytes.length = tftpMaxDataLen }

/-- The last block. -/
abbrev LastBlock := { bytes : Bytes // bytes.length < tftpMaxDataLen }

def FullBlock.payload (p : FullBlock) : Payload := ⟨p.val, Nat.le_of_eq p.2⟩

def LastBlock.payload (p : LastBlock) : Payload := ⟨p.val, Nat.le_of_lt p.2⟩

/-- The blocks arrive in order; `before i` is what the `i`-th array on the stack held. -/
def inOrder (block : UInt16) (before : Nat → PacketBuf) : List Payload → List WriteEvent
  | [] => []
  | p :: ps => .data block p (before 0) :: inOrder (block + 1) (fun i => before (i + 1)) ps

/-- All the blocks, the last one included, from the first number on. -/
def arrivals (block : UInt16) (before : Nat → PacketBuf) (full : List FullBlock)
    (last : LastBlock) : List WriteEvent :=
  inOrder block before (full.map FullBlock.payload ++ [last.payload])

/-- The handler leaves the decoding of all the blocks behind. -/
def StoresDecoded (full : List FullBlock) (last : LastBlock) : Prop :=
  ∀ before, ∃ s,
    (writeTransfer .netascii).run (.start .netascii) (arrivals 1 before full last) = some s ∧
      s.left = some .lastBlock ∧
      s.file.content = netasciiToUnix ((full.map Subtype.val).flatten ++ last.val)

/-- What is held back after some full blocks, or `none` where a read has run into the end of what was
buffered. -/
def heldAfter (held : Bytes) : List FullBlock → Option Bytes
  | [] => some held
  | p :: ps =>
      (consume ((held ++ p.val).length - heldBack) (held ++ p.val)).bind fun held' =>
        heldAfter held' ps

/-! ## While nothing is lost -/

/-- `raw` has arrived: part of it is decoded into the file, and the rest is held back. -/
structure Decoding (raw held : Bytes) (s : WriteTransfer) : Prop where
  mode : s.mode = .netascii
  ss : ∃ gpos, s.ss = ⟨⟨gpos, held⟩, .goodbit⟩
  area : s.area = []
  buf : s.bufState = .goodbit
  file : s.file.state = .goodbit
  running : s.left = none
  decoded : ∀ later,
    netasciiToUnix (raw ++ later) = s.file.content ++ netasciiToUnix (held ++ later)

section Decoding

variable {raw held : Bytes} {s : WriteTransfer}

theorem decoding_start : Decoding [] [] (.start .netascii) :=
  ⟨rfl, ⟨0, rfl⟩, rfl, rfl, rfl, rfl, fun _ => rfl⟩

theorem Decoding.accept (h : Decoding raw held s) (block : Bytes) :
    Decoding (raw ++ block) (held ++ block) (s.accept block) := by
  obtain ⟨gpos, hss⟩ := h.ss
  refine ⟨h.mode, ⟨gpos, ?_⟩, h.area, h.buf, h.file, h.running, ?_⟩
  · show s.ss.write block block.length = _
    rw [hss, StringStream.write_good rfl, List.take_length]
  · intro later
    rw [List.append_assoc, List.append_assoc]
    exact h.decoded (block ++ later)

/-- Leaving the loop decodes the rest. -/
theorem Decoding.leave (h : Decoding raw held s) (why : Leave) :
    (s.leave why).file.content = netasciiToUnix raw ∧ (s.leave why).left = some why := by
  obtain ⟨gpos, hss⟩ := h.ss
  -- `rdbuf()` gives all there is: it is no more than the raw bytes
  have hrest : s.rdbuf.1 = netasciiToUnix held := by
    unfold WriteTransfer.rdbuf
    simp only [h.mode, h.area, hss]
    rw [(netasciiToUnixBuf_supplies.sgetn _ _).1, IStream.content_good rfl]
    apply List.take_of_length_le
    simpa using netasciiToUnix_length_le held
  have hall := h.decoded []
  rw [List.append_nil, List.append_nil] at hall
  unfold WriteTransfer.leave
  rw [if_pos (by rw [h.file]; rfl), hrest]
  refine ⟨?_, rfl⟩
  show (s.file.insert _).content = _
  unfold OFStream.insert
  rw [if_pos (by rw [h.file]; rfl), hall]

/-- Reading from the decoder, with all its states good. -/
theorem Decoding.bufRead (h : Decoding raw held s) (n : Nat) :
    ∃ gpos, s.bufRead n =
      let got := netasciiToUnixBuf.sgetn n (⟨⟨gpos, held⟩, .goodbit⟩, [])
      (got.1, { s with
        ss := got.2.1
        area := got.2.2
        bufState :=
          if got.1.length = n then .goodbit else { IoState.goodbit with eof := true, fail := true } }) := by
  obtain ⟨gpos, hss⟩ := h.ss
  refine ⟨gpos, ?_⟩
  unfold WriteTransfer.bufRead
  simp only [h.mode, h.area, h.buf, hss, IStream.readCount, Int.natCast_nonneg, if_true,
    Int.toNat_natCast]
  rfl

variable {n : Nat}

/-- The characters asked for are all there: they go to the file. -/
theorem Decoding.flush_some (h : Decoding raw held s) (data : PacketBuf)
    (hn : held.length = n + heldBack)
    (hfit : n ≤ tftpMaxPacketLen) {held' : Bytes} (hc : consume n held = some held') :
    ∃ s', s.flush data = some s' ∧ Decoding raw held' s' ∧ s'.block = s.block + 1 := by
  obtain ⟨gpos₀, hss⟩ := h.ss
  obtain ⟨gpos, hread⟩ := h.bufRead n
  rcases netasciiToUnixBuf_sgetn_some ⟨gpos, held⟩ hc with
    ⟨out, gpos', hgot, hlen, hdecode⟩
  simp only [hgot, hlen, if_true] at hread
  refine ⟨_, WriteTransfer.flush_good (by rw [hss]) (by rw [hss]; exact hn) hfit, ?_, ?_⟩
  · rw [hread]
    simp only [write_overwrite _ hlen]
    have hwrite : s.file.write out n = ⟨s.file.content ++ out, .goodbit⟩ := by
      rw [OFStream.write_good h.file, List.take_of_length_le (Nat.le_of_eq hlen)]
    rw [hwrite]
    refine ⟨h.mode, ⟨gpos', rfl⟩, rfl, rfl, rfl, h.running, ?_⟩
    intro later
    rw [h.decoded, hdecode, List.append_assoc]
  · rw [hread]

end Decoding

/-! ## After something is lost -/

/-- The string stream takes nothing and gives nothing any more. -/
structure Dead (s : WriteTransfer) : Prop where
  mode : s.mode = .netascii
  stuck : Stuck (s.ss, s.area)
  running : s.left = none

section Dead

variable {s : WriteTransfer} {data : PacketBuf}

/-- Later blocks are dropped. -/
theorem Dead.accept (h : Dead s) (block : Bytes) :
    Dead (s.accept block) ∧ (s.accept block).file = s.file := by
  have hsame : s.ss.write block block.length = s.ss := if_neg h.stuck.1
  refine ⟨⟨h.mode, ?_, h.running⟩, rfl⟩
  show Stuck (s.ss.write block block.length, s.area)
  rw [hsame]
  exact h.stuck

theorem Dead.leave (h : Dead s) (why : Leave) : (s.leave why).file.content = s.file.content := by
  have hnone : s.rdbuf.1 = [] := by
    unfold WriteTransfer.rdbuf
    simp only [h.mode]
    exact (h.stuck.sgetn _).1
  unfold WriteTransfer.leave
  by_cases hfile : s.file.state.good
  · rw [if_pos hfile, hnone]
    show (s.file.insert []).content = _
    unfold OFStream.insert
    rw [if_pos hfile, List.append_nil]
  · rw [if_neg hfile]

theorem Stuck.bufRead (hmode : s.mode = .netascii) (h : Stuck (s.ss, s.area)) (n : Int) :
    Stuck ((s.bufRead n).2.ss, (s.bufRead n).2.area) := by
  unfold WriteTransfer.bufRead
  simp only [hmode, IStream.readCount, IStream.read]
  split_ifs
  · exact (h.sgetn _).2
  · exact (h.sgetn _).2
  · exact h
  · exact h
  · exact h

theorem bufRead_frame (n : Int) : (s.bufRead n).2.mode = s.mode ∧
    (s.bufRead n).2.left = s.left ∧ (s.bufRead n).2.block = s.block := by
  unfold WriteTransfer.bufRead
  rcases s.mode with _ | _ <;> exact ⟨rfl, rfl, rfl⟩

theorem Dead.flush (h : Dead s) {s' : WriteTransfer} (hs : s.flush data = some s') :
    Dead s' ∧ s'.block = s.block + 1 := by
  have htellg : ¬ s.ss.tellg.2.state.good := by
    unfold StringStream.tellg
    rw [if_neg h.stuck.1]
    simp [IoState.good]
  unfold WriteTransfer.flush at hs
  simp only at hs
  split_ifs at hs
  cases hs
  rcases bufRead_frame (s := { s with ss := s.ss.tellg.2 })
    (s.ss.tellp - s.ss.tellg.1 - heldBack) with ⟨hmode, hleft, hblock⟩
  refine ⟨⟨hmode.trans h.mode, ?_, hleft.trans h.running⟩, ?_⟩
  · exact Stuck.bufRead (s := { s with ss := s.ss.tellg.2 }) h.mode ⟨htellg, h.stuck.2⟩ _
  · rw [hblock]

/-- This is how it happens: the characters asked for are not all there. -/
theorem Decoding.flush_none {raw held : Bytes} {n : Nat} (h : Decoding raw held s)
    (data : PacketBuf) (hn : held.length = n + heldBack) (hfit : n ≤ tftpMaxPacketLen)
    (hc : consume n held = none) :
    ∃ s', s.flush data = some s' ∧ Dead s' ∧ s'.block = s.block + 1 := by
  obtain ⟨gpos₀, hss⟩ := h.ss
  obtain ⟨gpos, hread⟩ := h.bufRead n
  refine ⟨_, WriteTransfer.flush_good (by rw [hss]) (by rw [hss]; exact hn) hfit, ?_, ?_⟩
  · rw [hread]
    exact ⟨h.mode, netasciiToUnixBuf_sgetn_none ⟨gpos, held⟩ hc, h.running⟩
  · rw [hread]

end Dead

/-! ## Whole transfers -/

section Transfer

variable {raw held : Bytes} {s : WriteTransfer}

/-- The first of several arrivals. -/
theorem run_arrivals_cons (hrun : s.left = none) (before : Nat → PacketBuf) (p : FullBlock) :
    ∃ data, ∀ ps last,
      (writeTransfer .netascii).run s (arrivals s.block before (p :: ps) last) =
        ((s.accept p.val).flush data).bind fun s' =>
          (writeTransfer .netascii).run s'
            (arrivals (s.block + 1) (fun i => before (i + 1)) ps last) := by
  obtain ⟨data, hstep⟩ := writeStep_next p.payload (before 0) hrun
  have hfull : ¬ p.payload.val.length < tftpMaxDataLen := by
    show ¬ p.val.length < tftpMaxDataLen
    rw [p.2]
    exact Nat.lt_irrefl _
  rw [if_neg hfull] at hstep
  refine ⟨data, ?_⟩
  intro ps last
  rw [arrivals, List.map_cons, List.cons_append, inOrder, Machine.run,
    writeTransfer_step, hstep]
  rfl

/-- The last arrival. -/
theorem run_arrivals_nil (hrun : s.left = none) (before : Nat → PacketBuf) (last : LastBlock) :
    (writeTransfer .netascii).run s (arrivals s.block before [] last) =
      some ((s.accept last.val).leave .lastBlock) := by
  obtain ⟨data, hstep⟩ := writeStep_next last.payload (before 0) hrun
  rw [if_pos (show last.payload.val.length < tftpMaxDataLen from last.2)] at hstep
  rw [arrivals, List.map_nil, List.nil_append, inOrder, Machine.run,
    writeTransfer_step, hstep]
  rfl

/-- What a full block leaves to ask for fits into the array. -/
theorem asked_for (hshort : held.length ≤ heldBack) (p : FullBlock) :
    (held ++ p.val).length = (held ++ p.val).length - heldBack + heldBack ∧
      (held ++ p.val).length - heldBack ≤ tftpMaxPacketLen := by
  rw [List.length_append, p.2]
  simp only [tftpMaxPacketLen, dataHeaderLen, tftpMaxDataLen, heldBack] at *
  omega

/-- As long as each read finds what it asks for, the file ends up decoded as a whole. -/
theorem Decoding.run (h : Decoding raw held s) (hshort : held.length ≤ heldBack)
    (full : List FullBlock) (last : LastBlock) (before : Nat → PacketBuf)
    (hheld : (heldAfter held full).isSome) :
    ∃ s', (writeTransfer .netascii).run s (arrivals s.block before full last) = some s' ∧
      s'.left = some .lastBlock ∧
      s'.file.content = netasciiToUnix (raw ++ ((full.map Subtype.val).flatten ++ last.val)) := by
  induction full generalizing raw held s before with
  | nil =>
      obtain ⟨hcontent, hleft⟩ := (h.accept last.val).leave .lastBlock
      exact ⟨_, run_arrivals_nil h.running before last, hleft, hcontent⟩
  | cons p ps ih =>
      obtain ⟨data, hrun⟩ := run_arrivals_cons h.running before p
      obtain ⟨hn, hfit⟩ := asked_for hshort p
      rcases hc : consume ((held ++ p.val).length - heldBack) (held ++ p.val) with _ | held'
      · rw [heldAfter, hc] at hheld
        cases hheld
      · rw [heldAfter, hc] at hheld
        obtain ⟨s₁, hs₁, h₁, hblock⟩ := (h.accept p.val).flush_some data hn hfit hc
        have hle := length_le_of_consume hc
        obtain ⟨s', hs', hleft, hcontent⟩ := ih h₁ (by omega) (fun i => before (i + 1)) hheld
        rw [hblock] at hs'
        refine ⟨s', ?_, hleft, ?_⟩
        · rw [hrun, hs₁]
          exact hs'
        · rw [hcontent]
          simp only [List.map_cons, List.flatten_cons, List.append_assoc]

/-- The file does not depend on the last block. -/
def LastBlockLost (s : WriteTransfer) (full : List FullBlock) : Prop :=
  ∃ content, ∀ last s', (writeTransfer .netascii).run s
      (arrivals s.block (fun _ => .blank) full last) = some s' → s'.file.content = content

/-- A full block that leaves the transfer in such a state, if it leaves it in any. -/
theorem LastBlockLost.cons (hrun : s.left = none) {p : FullBlock} {ps : List FullBlock}
    (h : ∀ data s', (s.accept p.val).flush data = some s' →
      s'.block = s.block + 1 ∧ LastBlockLost s' ps) : LastBlockLost s (p :: ps) := by
  obtain ⟨data, harrive⟩ := run_arrivals_cons hrun (fun _ => .blank) p
  rcases hflush : (s.accept p.val).flush data with _ | s₁
  · refine ⟨[], ?_⟩
    intro last s' hs'
    rw [harrive, hflush] at hs'
    cases hs'
  · obtain ⟨hblock, content, hcontent⟩ := h data s₁ hflush
    refine ⟨content, ?_⟩
    intro last s' hs'
    rw [harrive, hflush, ← hblock] at hs'
    exact hcontent last s' hs'

theorem Dead.run (h : Dead s) (full : List FullBlock) : LastBlockLost s full := by
  induction full generalizing s with
  | nil =>
      refine ⟨s.file.content, ?_⟩
      intro last s' hs'
      rw [run_arrivals_nil h.running] at hs'
      cases hs'
      obtain ⟨hdead, hfile⟩ := h.accept last.val
      rw [hdead.leave, hfile]
  | cons p ps ih =>
      apply LastBlockLost.cons h.running
      intro data s' hs'
      obtain ⟨hdead, hblock⟩ := (h.accept p.val).1.flush hs'
      exact ⟨hblock, ih hdead⟩

/-- If a read asks for more than there is, the last block is lost. -/
theorem Decoding.run_dry (h : Decoding raw held s) (hshort : held.length ≤ heldBack)
    (full : List FullBlock) (hheld : heldAfter held full = none) : LastBlockLost s full := by
  induction full generalizing raw held s with
  | nil => cases hheld
  | cons p ps ih =>
      apply LastBlockLost.cons h.running
      intro data s' hs'
      obtain ⟨hn, hfit⟩ := asked_for hshort p
      rcases hc : consume ((held ++ p.val).length - heldBack) (held ++ p.val) with _ | held'
      · obtain ⟨t, ht, hdead, hblock⟩ := (h.accept p.val).flush_none data hn hfit hc
        rw [hs'] at ht
        cases ht
        exact ⟨hblock, hdead.run ps⟩
      · obtain ⟨t, ht, hdec, hblock⟩ := (h.accept p.val).flush_some data hn hfit hc
        rw [hs'] at ht
        cases ht
        rw [heldAfter, hc] at hheld
        have hle := length_le_of_consume hc
        exact ⟨hblock, ih hdec (by omega) hheld⟩

end Transfer

/-- A last block of one character, and an empty one. -/
def oneChar : LastBlock := ⟨[0x61], by decide⟩

def noChar : LastBlock := ⟨[], by decide⟩

/-- **The upload is decoded as a whole, whatever the last block is, exactly if no read asks for more
characters than the buffered bytes make up.** -/
theorem netascii_upload_iff (full : List FullBlock) :
    (∀ last, StoresDecoded full last) ↔ (heldAfter [] full).isSome := by
  constructor
  · intro h
    by_contra hdry
    rcases decoding_start.run_dry (Nat.zero_le _) full (Option.not_isSome_iff_eq_none.mp hdry) with
      ⟨content, hcontent⟩
    obtain ⟨s₀, hs₀, -, hnone⟩ := h noChar (fun _ => .blank)
    obtain ⟨s₁, hs₁, -, hone⟩ := h oneChar (fun _ => .blank)
    -- two last blocks leave the same file behind, but do not decode to the same
    have hsame : s₀.file.content = s₁.file.content := by
      rw [hcontent noChar s₀ hs₀, hcontent oneChar s₁ hs₁]
    rw [hnone, hone] at hsame
    have hlonger : netasciiToUnix ((full.map Subtype.val).flatten ++ oneChar.val) =
        netasciiToUnix ((full.map Subtype.val).flatten ++ noChar.val) ++ [0x61] := by
      rw [show noChar.val = [] from rfl, List.append_nil]
      exact netasciiToUnix_concat (by decide) (by decide) _
    rw [hlonger] at hsame
    simpa using congrArg List.length hsame
  · intro hheld last before
    exact decoding_start.run (Nat.zero_le _) full last before hheld

/-- 256 letters and 128 empty lines. -/
def lettersThenLines : FullBlock :=
  ⟨List.replicate 256 0x61 ++ (List.replicate 128 [cr, lf]).flatten, by decide +kernel⟩

/-- 256 empty lines. -/
def emptyLines : FullBlock := ⟨(List.replicate 256 [cr, lf]).flatten, by decide +kernel⟩

/-- The second read asks for 512 characters where there are 385; bytes of the last packet fill the
gap in the file. -/
theorem empty_lines_garbled : ¬ StoresDecoded [lettersThenLines, emptyLines] noChar := by
  intro h
  obtain ⟨s, hs, -, hcontent⟩ := h (fun _ => .blank)
  have hlen : ((writeTransfer .netascii).run (.start .netascii)
      (arrivals 1 (fun _ => .blank) [lettersThenLines, emptyLines] noChar)).map
        (fun s => s.file.content.length) = some 767 := by
    decide +kernel
  have hdecoded : (netasciiToUnix (([lettersThenLines, emptyLines].map Subtype.val).flatten ++
      noChar.val)).length = 640 := by
    decide +kernel
  rw [hs, Option.map_some, hcontent, hdecoded] at hlen
  cases hlen

end ComputerNetworking.Tftp
