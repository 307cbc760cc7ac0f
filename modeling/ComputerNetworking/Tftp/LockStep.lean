/-
# ComputerNetworking.Tftp.LockStep -- one block at a time

Lock-step transfer, as an automaton that reads the log of a server: it counts the groups begun and
knows whether the last one has been acknowledged. A DATA packet either begins the next group, after
an acknowledgement of the last one, with the next block of the content, or repeats the last group.

The RRQ loop follows it as long as no `select` is interrupted while a full block is outstanding.
An interruption then goes to the top of the loop with `retry` unset: the next block is read and sent
under the number of the old one. After a short block there is nothing more to read, and the
interruption ends the transfer.
-/
import ComputerNetworking.Lib.Chunks
import ComputerNetworking.Tftp.ReadRequest

namespace ComputerNetworking.Tftp

open ComputerNetworking.Lib

/-! ## The automaton -/

/-- How many groups have begun, and whether the last of them has been acknowledged. -/
structure Groups where
  begun : Nat
  acked : Bool
  deriving DecidableEq

namespace Groups

/-- The number on the packets of the `i`-th group. -/
def number (i : Nat) : UInt16 := UInt16.ofNat i

/-- One log entry. The `i`-th group carries the number `i` modulo 65536 and the `i`-th block of the
content, counted from 1; it begins inside the content or right at its end. -/
def next (content : Bytes) (g : Groups) : ReadEntry → Option Groups
  | .sent block data =>
      if g.acked then
        if block = number (g.begun + 1) ∧ data = chunk tftpMaxDataLen content g.begun ∧
            tftpMaxDataLen * g.begun ≤ content.length then
          some ⟨g.begun + 1, false⟩
        else none
      else if block = number g.begun ∧ data = chunk tftpMaxDataLen content (g.begun - 1) then some g
      else none
  | .acked block => if block = number g.begun then some ⟨g.begun, true⟩ else some g

/-- Before the first group. -/
def start : Groups := ⟨0, true⟩

/-- The groups a log consists of, if it consists of groups. -/
def ofLog (content : Bytes) (log : List ReadEntry) : Option Groups :=
  log.foldlM (next content) start

theorem ofLog_concat {content : Bytes} {log : List ReadEntry} {g : Groups} {e : ReadEntry}
    (h : ofLog content log = some g) : ofLog content (log ++ [e]) = g.next content e := by
  unfold ofLog at h ⊢
  rw [List.foldlM_append, h]
  simp

end Groups

/-- The packets of the log form groups in lock-step. -/
def LockStep (content : Bytes) (log : List ReadEntry) : Prop :=
  (Groups.ofLog content log).isSome

instance (content : Bytes) (log : List ReadEntry) : Decidable (LockStep content log) := by
  unfold LockStep
  infer_instance

/-! ## The invariant -/

/-- The loop waits with the `i`-th group outstanding. -/
structure Outstanding (content : Bytes) (i : Nat) (s : ReadTransfer) : Prop where
  log : Groups.ofLog content s.log = some ⟨i + 1, false⟩
  block : s.block = Groups.number (i + 1)
  data : s.data = chunk tftpMaxDataLen content i
  maxData : s.maxData = decide (s.data.length = tftpMaxDataLen)
  file : s.file.content = content.drop (tftpMaxDataLen * (i + 1))
  retry : s.retry = false

/-- The loop is about to begin the group after the first `i`. -/
structure Advancing (content : Bytes) (i : Nat) (s : ReadTransfer) : Prop where
  log : Groups.ofLog content s.log = some ⟨i, true⟩
  block : s.block = Groups.number (i + 1)
  file : s.file.content = content.drop (tftpMaxDataLen * i)
  retry : s.retry = false
  /-- The group before was full, or there was none and the content may be empty. -/
  full : s.maxData = true → tftpMaxDataLen * i ≤ content.length
  timeouts : s.timeouts < maxTimeouts

/-- What holds in every reachable state: a group is outstanding, or the loop has been left. -/
def InLockStep (content : Bytes) (s : ReadTransfer) : Prop :=
  (s.waiting = true ∧ ∃ i, Outstanding content i s) ∨
    (s.waiting = false ∧ LockStep content s.log)

theorem LockStep.of_ofLog {content : Bytes} {log : List ReadEntry} {g : Groups}
    (h : Groups.ofLog content log = some g) : LockStep content log := by
  unfold LockStep
  rw [h]
  rfl

theorem Groups.number_succ (i : Nat) : Groups.number i + 1 = Groups.number (i + 1) := by
  unfold Groups.number
  apply UInt16.toNat_inj.mp
  rw [UInt16.toNat_add, UInt16.toNat_ofNat', UInt16.toNat_ofNat']
  show (i % 65536 + 1) % 65536 = (i + 1) % 65536
  omega

section Advance

variable {content : Bytes} {i : Nat} {s : ReadTransfer}

theorem Advancing.read_chunk (h : Advancing content i s) :
    (s.file.read tftpMaxDataLen).1 = chunk tftpMaxDataLen content i := by
  rw [(s.file.read_content tftpMaxDataLen).1, h.file]
  rfl

/-- From the top of the loop with nothing outstanding: the loop ends at the end of the content
unless the block before was full. -/
theorem loopTop_ends (h : Advancing content i s)
    (hend : (chunk tftpMaxDataLen content i).length = 0 ∧ (!s.maxData) = true) :
    s.loopTop.waiting = false ∧ s.loopTop.log = s.log := by
  unfold ReadTransfer.loopTop
  rw [if_pos h.timeouts, if_neg (by rw [h.retry]; decide)]
  simp only [h.read_chunk, if_pos hend]
  exact ⟨trivial, trivial⟩

/-- Otherwise the next group begins. -/
theorem loopTop_sends (h : Advancing content i s)
    (hmore : ¬ ((chunk tftpMaxDataLen content i).length = 0 ∧ (!s.maxData) = true)) :
    s.loopTop.waiting = true ∧ Outstanding content i s.loopTop ∧
      s.loopTop.log =
        s.log ++ [.sent (Groups.number (i + 1)) (chunk tftpMaxDataLen content i)] := by
  unfold ReadTransfer.loopTop
  rw [if_pos h.timeouts, if_neg (by rw [h.retry]; decide)]
  simp only [h.read_chunk, if_neg hmore]
  -- the group begins inside the content or at its end: a block behind a short one is empty
  have hinside : tftpMaxDataLen * i ≤ content.length := by
    by_cases hmax : s.maxData = true
    · exact h.full hmax
    · by_contra hout
      apply hmore
      rw [chunk_length]
      exact ⟨by omega, by simpa using hmax⟩
  refine ⟨rfl, ⟨?_, h.block, rfl, rfl, ?_, rfl⟩, ?_⟩
  · show Groups.ofLog content (s.log ++ [_]) = _
    rw [Groups.ofLog_concat h.log]
    simp only [Groups.next, if_true, h.block, true_and, if_pos hinside]
  · show (s.file.read tftpMaxDataLen).2.content = _
    rw [(s.file.read_content tftpMaxDataLen).2, h.file, List.drop_drop, Nat.mul_succ]
  · show s.log ++ [.sent s.block _] = _
    rw [h.block]

theorem loopTop_advancing (h : Advancing content i s) : InLockStep content s.loopTop := by
  by_cases hend : (chunk tftpMaxDataLen content i).length = 0 ∧ (!s.maxData) = true
  · obtain ⟨hw, hlog⟩ := loopTop_ends h hend
    refine .inr ⟨hw, ?_⟩
    rw [hlog]
    exact .of_ofLog h.log
  · obtain ⟨hw, hout, -⟩ := loopTop_sends h hend
    exact .inl ⟨hw, i, hout⟩

end Advance

/-- An acknowledgement of the outstanding group lets the next one begin. -/
theorem Outstanding.acked {content : Bytes} {i : Nat} {s : ReadTransfer}
    (h : Outstanding content i s) {packet : PacketBuf} (hblock : packet.getBlock = s.block) :
    Advancing content (i + 1)
      { s with
        timeouts := 0
        log := s.log ++ [.acked packet.getBlock]
        block := s.block + 1 } := by
  refine ⟨?_, ?_, h.file, h.retry, ?_, Nat.zero_lt_succ 4⟩
  · show Groups.ofLog content (s.log ++ [.acked packet.getBlock]) = _
    rw [Groups.ofLog_concat h.log]
    simp only [Groups.next]
    rw [if_pos (by rw [← h.block]; exact hblock)]
  · show s.block + 1 = _
    rw [h.block, Groups.number_succ]
  · intro hmax
    have hfull : (chunk tftpMaxDataLen content i).length = tftpMaxDataLen := by
      have hmax' : s.maxData = true := hmax
      rw [h.maxData] at hmax'
      rw [← h.data]
      exact of_decide_eq_true hmax'
    exact le_length_of_chunk_full hfull (by decide)

/-- A timeout sends the outstanding block again, or gives up. -/
theorem loopTop_timeout {content : Bytes} {i : Nat} {s : ReadTransfer}
    (h : Outstanding content i s) :
    InLockStep content
      (ReadTransfer.loopTop { s with timeouts := s.timeouts + 1, retry := true }) := by
  unfold ReadTransfer.loopTop
  by_cases hmax : s.timeouts + 1 < maxTimeouts
  · simp only [if_pos hmax, if_true]
    refine .inl ⟨rfl, i, ?_, h.block, h.data, h.maxData, h.file, rfl⟩
    show Groups.ofLog content (s.log ++ [.sent s.block s.data]) = _
    rw [Groups.ofLog_concat h.log]
    simp only [Groups.next, h.block, h.data, Nat.add_sub_cancel, and_self, if_true]
    rfl
  · simp only [if_neg hmax]
    refine .inr ⟨rfl, ?_⟩
    show LockStep content s.log
    unfold LockStep
    rw [h.log]
    rfl

/-- An interruption with a short block outstanding ends the transfer: nothing is left to read. -/
theorem loopTop_interrupted {content : Bytes} {i : Nat} {s : ReadTransfer}
    (h : Outstanding content i s) (hshort : s.maxData = false) :
    s.loopTop.waiting = false ∧ s.loopTop.log = s.log := by
  have hnil : (s.file.read tftpMaxDataLen).1 = [] := by
    rw [(s.file.read_content tftpMaxDataLen).1, h.file, drop_eq_nil_of_chunk_short]
    · rfl
    · have hlen := chunk_length_le tftpMaxDataLen content i
      have hne : s.data.length ≠ tftpMaxDataLen := by
        intro hfull
        rw [h.maxData, hfull] at hshort
        simp at hshort
      rw [h.data] at hne
      omega
  unfold ReadTransfer.loopTop
  by_cases hmax : s.timeouts < maxTimeouts
  · simp only [if_pos hmax, h.retry, hnil, hshort, List.length_nil]
    exact ⟨rfl, rfl⟩
  · rw [if_neg hmax]
    exact ⟨rfl, rfl⟩

/-! ## Every run -/

/-- No `select` is interrupted while a full block is outstanding. -/
def NoInterruptInside (s : ReadTransfer) (e : WaitEvent) : Prop :=
  e = .interrupted → s.maxData = false

instance (s : ReadTransfer) (e : WaitEvent) : Decidable (NoInterruptInside s e) := by
  unfold NoInterruptInside
  infer_instance

theorem advancing_init (mode : Mode) (bytes : Bytes) :
    Advancing (FileStream.stream mode bytes) 0 (.init mode bytes) := by
  refine ⟨rfl, rfl, ?_, rfl, by simp [ReadTransfer.init], Nat.zero_lt_succ 4⟩
  show (FileStream.ofFile mode bytes).content = _
  rw [FileStream.content_ofFile, Nat.mul_zero, List.drop_zero]

theorem inLockStep_step {content : Bytes} {s s' : ReadTransfer} {e : WaitEvent}
    (hi : InLockStep content s) (hg : NoInterruptInside s e) (hs : readStep s e = some s') :
    InLockStep content s' := by
  unfold readStep at hs
  rcases hi with ⟨hw, i, h⟩ | ⟨hw, -⟩
  case inr =>
    -- nothing happens once the loop has been left
    rw [if_neg (by simp [hw])] at hs
    cases hs
  rw [if_pos hw] at hs
  cases e with
  | interrupted =>
      cases hs
      obtain ⟨hdone, hlog⟩ := loopTop_interrupted h (hg rfl)
      refine .inr ⟨hdone, ?_⟩
      rw [hlog]
      exact .of_ofLog h.log
  | selectError =>
      cases hs
      exact .inr ⟨rfl, .of_ofLog h.log⟩
  | timeout =>
      cases hs
      exact loopTop_timeout h
  | received packet =>
      simp only at hs
      by_cases hop : packet.opcode ≠ some .ack
      · rw [if_pos hop] at hs
        cases hs
        exact .inr ⟨rfl, .of_ofLog h.log⟩
      · rw [if_neg hop] at hs
        by_cases hblock : packet.getBlock ≠ s.block
        · -- an ACK for another block leaves the group outstanding
          rw [if_pos hblock] at hs
          cases hs
          refine .inl ⟨hw, i, ?_, h.block, h.data, h.maxData, h.file, h.retry⟩
          show Groups.ofLog content (s.log ++ [.acked packet.getBlock]) = _
          rw [Groups.ofLog_concat h.log]
          simp only [Groups.next]
          rw [if_neg (by rw [← h.block]; exact hblock)]
        · rw [if_neg hblock] at hs
          cases hs
          exact loopTop_advancing (h.acked (by simpa using hblock))

/-- **The transfer is in lock-step in every run without an interruption inside a full block.** -/
theorem read_lockStep (mode : Mode) (bytes : Bytes) (s : ReadTransfer)
    (h : (readTransfer mode bytes).ReachableUnder NoInterruptInside s) :
    LockStep (FileStream.stream mode bytes) s.log := by
  have hi : InLockStep (FileStream.stream mode bytes) s := by
    apply h.invariant
    · rintro s rfl
      exact loopTop_advancing (advancing_init mode bytes)
    · intro s e s' hi hg hs
      exact inLockStep_step hi hg hs
  rcases hi with ⟨-, i, hout⟩ | ⟨-, hlog⟩
  · exact .of_ofLog hout.log
  · exact hlog

/-- A timeout, a stale acknowledgement, the right one, and an interruption during the last block. -/
theorem read_lockStep_600 :
    ∃ s, (readTransfer .octet (List.replicate 600 0x61)).run
        (.start .octet (List.replicate 600 0x61))
        [.timeout, .received (ackPacket 7), .received (ackPacket 1), .interrupted] = some s ∧
      s.log.length = 5 ∧ LockStep (List.replicate 600 0x61) s.log := by
  have hrun : ((readTransfer .octet (List.replicate 600 0x61)).run
      (.start .octet (List.replicate 600 0x61))
      [.timeout, .received (ackPacket 7), .received (ackPacket 1), .interrupted]).map
        (fun s => s.log.length) = some 5 := by
    decide +kernel
  obtain ⟨s, hs, hlen⟩ := Option.map_eq_some_iff.mp hrun
  exact ⟨s, hs, hlen, read_lockStep .octet (List.replicate 600 0x61) s
    (.run (.init rfl) (by decide +kernel) hs)⟩

/-- An interruption while the first of two blocks is outstanding: the second block goes out under
the number of the first. -/
theorem interrupt_breaks_lockStep :
    ∃ s, (readTransfer .octet (List.replicate 512 0x61 ++ List.replicate 88 0x62)).Reachable s ∧
      s.log = [.sent 1 (List.replicate 512 0x61), .sent 1 (List.replicate 88 0x62)] ∧
      ¬ LockStep (List.replicate 512 0x61 ++ List.replicate 88 0x62) s.log := by
  have hrun : ((readTransfer .octet (List.replicate 512 0x61 ++ List.replicate 88 0x62)).run
      (.start .octet (List.replicate 512 0x61 ++ List.replicate 88 0x62)) [.interrupted]).map
        ReadTransfer.log =
      some [.sent 1 (List.replicate 512 0x61), .sent 1 (List.replicate 88 0x62)] := by
    decide +kernel
  obtain ⟨s, hs, hlog⟩ := Option.map_eq_some_iff.mp hrun
  refine ⟨s, Machine.reachable_of_run rfl hs, hlog, ?_⟩
  rw [hlog]
  decide +kernel

end ComputerNetworking.Tftp
