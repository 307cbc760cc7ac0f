/-
# ComputerNetworking.Tftp.OctetUpload -- an upload over a network that loses and repeats

The client numbers the blocks of a file from 1. The network may lose any of its DATA packets, repeat
them and let them overtake each other, so what the server receives is any sequence of them. The
server accepts a block only under the number it expects next, and the file and the string stream
together hold the accepted blocks in order: `Storing`. The number identifies the block as long as
the file has fewer than 65536 of them.
-/
import ComputerNetworking.Lib.Chunks
import ComputerNetworking.Tftp.WriteRequest

namespace ComputerNetworking.Tftp

open ComputerNetworking.Lib

/-- The `i`-th block of the file, counted from 0, as the client sends it. -/
def clientData (content : Bytes) (i : Nat) (before : PacketBuf) : WriteEvent :=
  .data (UInt16.ofNat (i + 1)) ⟨chunk tftpMaxDataLen content i, chunk_length_le ..⟩ before

/-- What is received comes from the client. -/
def FromClient (content : Bytes) (_ : WriteTransfer) : WriteEvent → Prop
  | .received ret data =>
      ∃ i, i ≤ content.length / tftpMaxDataLen ∧
        ∃ before, WriteEvent.received ret data = clientData content i before
  | _ => True

theorem fromClient_clientData {content : Bytes} {i : Nat} (s : WriteTransfer) (before : PacketBuf)
    (hi : i ≤ content.length / tftpMaxDataLen) :
    FromClient content s (clientData content i before) :=
  ⟨i, hi, before, rfl⟩

/-- Each acknowledgement was sent with the blocks up to its number stored, each of them once. -/
def AcksStored (content : Bytes) (k : Nat) (s : WriteTransfer) : Prop :=
  ∀ a ∈ s.acks, a.block.toNat ≤ k ∧
    a.written ++ a.buffered = chunksUpTo tftpMaxDataLen content a.block.toNat

/-- The first `k` blocks are stored. -/
structure Storing (content : Bytes) (k : Nat) (s : WriteTransfer) : Prop where
  mode : s.mode = .octet
  ss : s.ss.state = .goodbit
  stored : s.file.content ++ s.ss.buf.unread = chunksUpTo tftpMaxDataLen content k
  inside : k ≤ content.length / tftpMaxDataLen + 1
  acks : AcksStored content k s

/-- The loop waits for block `k + 1`. -/
structure Expecting (content : Bytes) (k : Nat) (s : WriteTransfer) : Prop
    extends Storing content k s where
  running : s.left = none
  file : s.file.state = .goodbit
  block : s.block = UInt16.ofNat (k + 1)
  more : k ≤ content.length / tftpMaxDataLen
  buffered : s.ss.buf.unread.length ≤ heldBack

/-- What holds in every reachable state. -/
def Uploading (content : Bytes) (s : WriteTransfer) : Prop :=
  (∃ k, Expecting content k s) ∨
    s.left.isSome ∧ (∃ k, Storing content k s) ∧
      (s.left = some .lastBlock → s.file.content = content)

section Steps

variable {content : Bytes} {k : Nat} {s : WriteTransfer}

/-- Leaving the loop moves what is buffered on to the file. -/
theorem leave_octet (why : Leave) (hmode : s.mode = .octet) (hfile : s.file.state.good) :
    (s.leave why).file.content = s.file.content ++ s.ss.buf.unread ∧
      (s.leave why).ss.buf.unread = [] ∧ (s.leave why).ss.state = s.ss.state ∧
      (s.leave why).left = some why ∧ (s.leave why).mode = .octet ∧
      (s.leave why).acks = s.acks := by
  obtain ⟨hgot, hrest⟩ := stringBuf_supplies.sgetn s.ss.buf.unread.length s.ss.buf
  have hrdbuf : s.rdbuf = ((stringBuf.sgetn s.ss.buf.unread.length s.ss.buf).1,
      { s with ss := ⟨(stringBuf.sgetn s.ss.buf.unread.length s.ss.buf).2, s.ss.state⟩ }) := by
    unfold WriteTransfer.rdbuf
    rw [hmode]
  unfold WriteTransfer.leave
  rw [if_pos hfile, hrdbuf]
  refine ⟨?_, ?_, rfl, rfl, hmode, rfl⟩
  · show (s.file.insert _).content = _
    unfold OFStream.insert
    rw [if_pos hfile, hgot, List.take_length]
  · rw [hrest, List.drop_length]

/-- Leaving with `k` blocks stored. -/
theorem Storing.leave (h : Storing content k s) (hfile : s.file.state.good) (why : Leave) :
    (s.leave why).left = some why ∧ Storing content k (s.leave why) ∧
      (s.leave why).file.content = chunksUpTo tftpMaxDataLen content k := by
  obtain ⟨hcontent, hunread, hstate, hleft, hmode, hacks⟩ := leave_octet why h.mode hfile
  have hstored : (s.leave why).file.content = chunksUpTo tftpMaxDataLen content k := by
    rw [hcontent, h.stored]
  refine ⟨hleft, ⟨hmode, hstate.trans h.ss, ?_, h.inside, ?_⟩, hstored⟩
  · rw [hunread, hstored, List.append_nil]
  · intro a ha
    rw [hacks] at ha
    exact h.acks a ha

/-- An acknowledgement of the last stored block. -/
theorem Storing.sendAck (h : Storing content k s) (hk : k < 65536) :
    Storing content k (s.sendAck (UInt16.ofNat k)) := by
  refine ⟨h.mode, h.ss, h.stored, h.inside, ?_⟩
  intro a ha
  rcases List.mem_append.mp ha with hold | hnew
  · exact h.acks a hold
  · have hnum : (UInt16.ofNat k).toNat = k := by
      rw [UInt16.toNat_ofNat']
      exact Nat.mod_eq_of_lt hk
    rw [List.mem_singleton.mp hnew]
    show (UInt16.ofNat k).toNat ≤ k ∧
      _ = chunksUpTo tftpMaxDataLen content (UInt16.ofNat k).toNat
    rw [hnum]
    exact ⟨Nat.le_refl k, h.stored⟩

/-- The block number before the expected one. -/
theorem Expecting.block_pred (h : Expecting content k s) : s.block - 1 = UInt16.ofNat k := by
  rw [h.block, UInt16.ofNat_add]
  exact UInt16.add_sub_cancel _ _

/-- A timeout, a repeated or an overtaken block: the last acknowledgement is sent again. -/
theorem Expecting.resend (h : Expecting content k s) (hk : k < 65536) (n : Nat) :
    Expecting content k (WriteTransfer.sendAck { s with timeouts := n } (s.block - 1)) := by
  rw [h.block_pred]
  have hstoring : Storing content k { s with timeouts := n } :=
    ⟨h.mode, h.ss, h.stored, h.inside, h.acks⟩
  exact ⟨hstoring.sendAck hk, h.running, h.file, h.block, h.more, h.buffered⟩

/-- The expected block is stored behind the others. -/
theorem Expecting.accept (h : Expecting content k s)
    (hk : content.length / tftpMaxDataLen + 1 < 65536) :
    Storing content (k + 1) (s.accept (chunk tftpMaxDataLen content k)) ∧
      (s.accept (chunk tftpMaxDataLen content k)).ss.buf.unread =
        s.ss.buf.unread ++ chunk tftpMaxDataLen content k := by
  have hwrite : s.ss.write (chunk tftpMaxDataLen content k)
      (chunk tftpMaxDataLen content k).length =
        ⟨⟨s.ss.buf.gpos, s.ss.buf.unread ++ chunk tftpMaxDataLen content k⟩, .goodbit⟩ := by
    rw [StringStream.write_good h.ss, List.take_length]
  have hbuffered : Storing content (k + 1) { s with
      timeouts := 0
      ss := s.ss.write (chunk tftpMaxDataLen content k)
        (chunk tftpMaxDataLen content k).length } := by
    rw [hwrite]
    refine ⟨h.mode, rfl, ?_, Nat.succ_le_succ h.more, ?_⟩
    · show s.file.content ++ (s.ss.buf.unread ++ _) = _
      rw [← List.append_assoc, h.stored, chunksUpTo_succ]
    · intro a ha
      obtain ⟨hle, hstored⟩ := h.acks a ha
      exact ⟨Nat.le_succ_of_le hle, hstored⟩
  have hmore := h.more
  have hsent := hbuffered.sendAck (show k + 1 < 65536 by omega)
  rw [← h.block] at hsent
  refine ⟨hsent, ?_⟩
  show (s.ss.write _ _).buf.unread = _
  rw [hwrite]

/-- After a full block all but `heldBack` bytes move on to the file. -/
theorem Storing.flush (h : Storing content k s) (hfile : s.file.state = .goodbit) {n : Nat}
    (hn : s.ss.buf.unread.length = n + heldBack) (hfit : n ≤ tftpMaxPacketLen)
    (data : PacketBuf) :
    ∃ s', s.flush data = some s' ∧ Storing content k s' ∧ s'.left = s.left ∧
      s'.file.state = .goodbit ∧ s'.block = s.block + 1 ∧
      s'.ss.buf.unread.length = heldBack := by
  obtain ⟨hgot, hrest⟩ := stringBuf_supplies.sgetn n s.ss.buf
  have hlen : (stringBuf.sgetn n s.ss.buf).1.length = n := by
    rw [hgot, List.length_take]
    omega
  have hread : s.bufRead n = ((stringBuf.sgetn n s.ss.buf).1,
      { s with ss := ⟨(stringBuf.sgetn n s.ss.buf).2, .goodbit⟩ }) := by
    unfold WriteTransfer.bufRead
    rw [h.mode]
    simp only [IStream.readCount, Int.natCast_nonneg, if_true, Int.toNat_natCast, IStream.read,
      h.ss, hlen]
    rfl
  have hwrite : s.file.write (stringBuf.sgetn n s.ss.buf).1 n =
      ⟨s.file.content ++ (stringBuf.sgetn n s.ss.buf).1, .goodbit⟩ := by
    rw [OFStream.write_good hfile, List.take_of_length_le (Nat.le_of_eq hlen)]
  refine ⟨_, WriteTransfer.flush_good h.ss hn hfit, ?_⟩
  rw [hread]
  simp only [write_overwrite _ hlen, hwrite]
  refine ⟨⟨h.mode, rfl, ?_, h.inside, h.acks⟩, trivial, trivial, trivial, ?_⟩
  · show s.file.content ++ (stringBuf.sgetn n s.ss.buf).1 ++
      (stringBuf.sgetn n s.ss.buf).2.unread = _
    rw [List.append_assoc, hgot, hrest, List.take_append_drop, h.stored]
  · show (stringBuf.sgetn n s.ss.buf).2.unread.length = _
    rw [hrest, List.length_drop]
    omega

/-- **What the next block does.** -/
theorem Expecting.next (h : Expecting content k s)
    (hk : content.length / tftpMaxDataLen + 1 < 65536) (before : PacketBuf) :
    ∃ s', writeStep s (clientData content k before) = some s' ∧ Uploading content s' := by
  obtain ⟨hstored, hunread⟩ := h.accept hk
  rcases writeStep_next ⟨chunk tftpMaxDataLen content k, chunk_length_le ..⟩ before h.running with
    ⟨data, hstep⟩
  rw [h.block] at hstep
  rw [clientData, hstep]
  by_cases hshort : (chunk tftpMaxDataLen content k).length < tftpMaxDataLen
  · -- the last block
    rcases hstored.leave (show s.file.state.good by rw [h.file]; rfl) .lastBlock with
      ⟨hleft, hstoring, hcontent⟩
    refine ⟨_, if_pos hshort, .inr ⟨by rw [hleft]; rfl, ⟨k + 1, hstoring⟩, fun _ => ?_⟩⟩
    rw [hcontent, chunksUpTo_of_short hshort]
  · have hlen := chunk_length_le tftpMaxDataLen content k
    have hbuf := h.buffered
    have hfull : (chunk tftpMaxDataLen content k).length = tftpMaxDataLen := by omega
    -- a full block is not the last one
    have hmore : k + 1 ≤ content.length / tftpMaxDataLen :=
      (Nat.le_div_iff_mul_le (by decide)).mpr (by
        rw [Nat.mul_comm]
        exact le_length_of_chunk_full hfull (by decide))
    -- at most `heldBack` bytes were buffered before, so what is flushed fits into the array
    rcases hstored.flush (n := s.ss.buf.unread.length + tftpMaxDataLen - heldBack) h.file
      (by
        rw [hunread, List.length_append, hfull]
        simp only [tftpMaxDataLen, heldBack]
        omega)
      (by
        simp only [tftpMaxDataLen, heldBack, tftpMaxPacketLen, dataHeaderLen] at hbuf ⊢
        omega) data with
      ⟨s', hs', hstoring, hleft, hfile, hblock, hheld⟩
    refine ⟨s', (if_neg hshort).trans hs', .inl ⟨k + 1, hstoring, hleft.trans h.running, hfile, ?_,
      hmore, Nat.le_of_eq hheld⟩⟩
    rw [hblock]
    show s.block + 1 = _
    rw [h.block, UInt16.ofNat_add (k + 1) 1]
    rfl

end Steps

/-! ## Every run -/

theorem expecting_start (content : Bytes) : Expecting content 0 (.start .octet) := by
  refine ⟨⟨rfl, rfl, ?_, Nat.zero_le _, ?_⟩, rfl, rfl, rfl, Nat.zero_le _, Nat.zero_le _⟩
  · rw [chunksUpTo_zero]
    rfl
  · intro a ha
    rw [List.mem_singleton.mp ha]
    exact ⟨Nat.le_refl 0, (chunksUpTo_zero ..).symm⟩

/-- **One step**: whatever the network delivers, there is a next state, and it is as it should be. -/
theorem uploading_step {content : Bytes} {k : Nat} {s : WriteTransfer} {e : WriteEvent}
    (hk : content.length / tftpMaxDataLen + 1 < 65536) (h : Expecting content k s)
    (he : FromClient content s e) : ∃ s', writeStep s e = some s' ∧ Uploading content s' := by
  have hmore := h.more
  have hgood : s.file.state.good := by
    rw [h.file]
    rfl
  have hleave : ∀ why ≠ Leave.lastBlock, ∀ t : WriteTransfer, Storing content k t →
      t.file.state.good → Uploading content (t.leave why) := by
    intro why hwhy t ht htgood
    obtain ⟨hleft, hstoring, -⟩ := ht.leave htgood why
    refine .inr ⟨by rw [hleft]; rfl, ⟨k, hstoring⟩, fun hlast => ?_⟩
    rw [hleft] at hlast
    exact absurd (Option.some.inj hlast) hwhy
  cases e with
  | interrupted => exact ⟨s, by simp [writeStep, h.running], .inl ⟨k, h⟩⟩
  | selectError =>
      exact ⟨_, by simp [writeStep, h.running], hleave .selectError (by decide) s h.toStoring hgood⟩
  | timeout =>
      have hresend := h.resend (by omega) (s.timeouts + 1)
      refine ⟨_, if_neg (by simp [h.running]), ?_⟩
      unfold WriteTransfer.loopTop
      split_ifs
      · exact .inl ⟨k, hresend⟩
      · exact hleave .timeouts (by decide) _ hresend.toStoring hgood
  | received ret data =>
      obtain ⟨i, hi, before, hdata⟩ := he
      rw [hdata]
      by_cases hik : i = k
      · -- the block the server waits for
        rw [hik]
        exact h.next hk before
      · -- below 65536 blocks the number tells another block from the expected one
        have hblock : UInt16.ofNat (i + 1) ≠ s.block := by
          rw [h.block]
          intro heq
          have hnum := congrArg UInt16.toNat heq
          rw [UInt16.toNat_ofNat', UInt16.toNat_ofNat', Nat.mod_eq_of_lt (by omega),
            Nat.mod_eq_of_lt (by omega)] at hnum
          exact hik (Nat.succ.inj hnum)
        exact ⟨_, writeStep_stale h.running hblock, .inl ⟨k, h.resend (by omega) 0⟩⟩

theorem uploading_reachable {content : Bytes} {s : WriteTransfer}
    (hk : content.length / tftpMaxDataLen + 1 < 65536)
    (h : (writeTransfer .octet).ReachableUnder (FromClient content) s) : Uploading content s := by
  apply h.invariant
  · rintro s rfl
    exact .inl ⟨0, expecting_start content⟩
  · intro s e s' hi he hs
    rcases hi with ⟨k, hexp⟩ | ⟨hleft, -⟩
    · obtain ⟨t, ht, hup⟩ := uploading_step hk hexp he
      rw [show writeStep s e = some s' from hs] at ht
      rwa [Option.some.inj ht]
    · have hnone : writeStep s e = none := if_pos hleft
      rw [show writeStep s e = some s' from hs] at hnone
      cases hnone

/-- **An octet upload stores the client's blocks in order, each once, acknowledges only what is
stored, and leaves the client's file behind when it ends with the last block.** While the loop runs
there is a next state for whatever the network delivers. -/
theorem octet_upload (content : Bytes) (hk : content.length / tftpMaxDataLen + 1 < 65536)
    (s : WriteTransfer) (h : (writeTransfer .octet).ReachableUnder (FromClient content) s) :
    (∃ k, k ≤ content.length / tftpMaxDataLen + 1 ∧
        s.file.content ++ s.ss.buf.unread = chunksUpTo tftpMaxDataLen content k ∧
        AcksStored content k s) ∧
      (s.left = some .lastBlock → s.file.content = content) ∧
      (s.left = none → ∀ e, FromClient content s e → ∃ s', writeStep s e = some s') := by
  rcases uploading_reachable hk h with ⟨k, hexp⟩ | ⟨hleft, ⟨k, hstoring⟩, hlast⟩
  · refine ⟨⟨k, hexp.inside, hexp.stored, hexp.acks⟩, ?_, ?_⟩
    · intro hlast
      rw [hexp.running] at hlast
      cases hlast
    · intro _ e he
      obtain ⟨s', hs', -⟩ := uploading_step hk hexp he
      exact ⟨s', hs'⟩
  · refine ⟨⟨k, hstoring.inside, hstoring.stored, hstoring.acks⟩, hlast, ?_⟩
    intro hnone
    rw [hnone] at hleft
    cases hleft

/-- The second block overtakes the first, which then comes twice, and there is a timeout. -/
theorem octet_upload_600 :
    ∃ s, (writeTransfer .octet).run (.start .octet)
        [clientData (List.replicate 600 0x61) 1 .blank,
          clientData (List.replicate 600 0x61) 0 .blank,
          clientData (List.replicate 600 0x61) 0 .blank, .timeout,
          clientData (List.replicate 600 0x61) 1 .blank] = some s ∧
      s.file.content = List.replicate 600 0x61 := by
  have hrun : ((writeTransfer .octet).run (.start .octet)
      [clientData (List.replicate 600 0x61) 1 .blank,
        clientData (List.replicate 600 0x61) 0 .blank,
        clientData (List.replicate 600 0x61) 0 .blank, .timeout,
        clientData (List.replicate 600 0x61) 1 .blank]).map WriteTransfer.left =
          some (some .lastBlock) := by
    decide +kernel
  obtain ⟨s, hs, hleft⟩ := Option.map_eq_some_iff.mp hrun
  have hblock : ∀ i ≤ 1, ∀ s, FromClient (List.replicate 600 0x61) s
      (clientData (List.replicate 600 0x61) i .blank) := by
    intro i hi s
    apply fromClient_clientData
    rw [List.length_replicate]
    exact hi
  refine ⟨s, hs, (octet_upload (List.replicate 600 0x61) (by decide +kernel) s ?_).2.1 hleft⟩
  apply Machine.ReachableUnder.run (.init rfl) _ hs
  apply Machine.Along.of_forall
  intro e he
  simp only [List.mem_cons, List.not_mem_nil, or_false] at he
  rcases he with rfl | rfl | rfl | rfl | rfl
  · exact hblock 1 (Nat.le_refl 1)
  · exact hblock 0 (Nat.zero_le 1)
  · exact hblock 0 (Nat.zero_le 1)
  · exact fun _ => trivial
  · exact hblock 1 (Nat.le_refl 1)

end ComputerNetworking.Tftp
