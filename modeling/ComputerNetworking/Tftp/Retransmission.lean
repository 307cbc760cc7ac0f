/-
# ComputerNetworking.Tftp.Retransmission -- how often and how long

What the two loops send again and when they give up. Only a timeout makes the RRQ loop send a block again:
an acknowledgement for another block is ignored, so repeated acknowledgements are not answered by repeated
blocks, whatever the network makes of them. Both loops count timeouts, set the count back with every
datagram, and leave an interrupted `select` out of account.
-/
import ComputerNetworking.Lib.Patience
import ComputerNetworking.Tftp.ReadComplete
import ComputerNetworking.Tftp.WriteRequest

namespace ComputerNetworking.Tftp

open ComputerNetworking.Lib

/-! ## Giving up -/

def WaitEvent.sign : WaitEvent → Sign
  | timeout => .silence
  | interrupted => .nothing
  | selectError => .word
  | received _ => .word

def WriteEvent.sign : WriteEvent → Sign
  | timeout => .silence
  | interrupted => .nothing
  | selectError => .word
  | received _ _ => .word

namespace ReadTransfer

variable (s : ReadTransfer)

@[simp] theorem loopTop_timeouts : s.loopTop.timeouts = s.timeouts := by
  unfold loopTop
  dsimp only
  split_ifs <;> rfl

/-- The loop condition. -/
theorem timeouts_lt_of_waiting (h : s.loopTop.waiting = true) : s.timeouts < maxTimeouts := by
  by_contra hmax
  unfold loopTop at h
  rw [if_neg hmax] at h
  cases h

end ReadTransfer

theorem waiting_of_readStep {s s' : ReadTransfer} {e : WaitEvent} (hs : readStep s e = some s') :
    s.waiting = true := by
  by_contra hw
  have hnone : readStep s e = none := if_neg hw
  rw [hs] at hnone
  cases hnone

theorem read_patient (mode : Mode) (bytes : Bytes) :
    (readTransfer mode bytes).Patient WaitEvent.sign maxTimeouts ReadTransfer.timeouts
      (fun s => s.waiting = true) (fun s => s.waiting = false ∧ s.timeouts = maxTimeouts) where
  stays s e s' hs hnot := absurd (waiting_of_readStep hs) hnot
  not_both s hw hgave := by
    rw [hw] at hgave
    cases hgave.1
  counts s e s' _ hcount hs hw := by
    have hs : readStep s e = some s' := hs
    unfold readStep at hs
    split_ifs at hs
    cases e with
    | interrupted =>
        cases hs
        exact s.loopTop_timeouts
    | selectError =>
        cases hs
        cases hw
    | timeout =>
        cases hs
        exact ReadTransfer.loopTop_timeouts _
    | received packet =>
        simp only at hs
        split_ifs at hs
        · cases hs
          cases hw
        · cases hs
          rfl
        · cases hs
          exact ReadTransfer.loopTop_timeouts _
  gives_up_iff s e s' _ hcount hs := by
    have hs : readStep s e = some s' := hs
    unfold readStep at hs
    split_ifs at hs
    cases e with
    | interrupted =>
        cases hs
        rw [s.loopTop_timeouts]
        exact iff_of_false (fun h => Nat.ne_of_lt hcount h.2) (by simp [WaitEvent.sign])
    | selectError =>
        cases hs
        exact iff_of_false (fun h => Nat.ne_of_lt hcount h.2) (by simp [WaitEvent.sign])
    | timeout =>
        cases hs
        rw [ReadTransfer.loopTop_timeouts]
        refine ⟨fun h => ⟨rfl, h.2⟩, fun h => ⟨?_, h.2⟩⟩
        by_contra hw
        have hlt := ReadTransfer.timeouts_lt_of_waiting _ (by simpa using hw)
        exact Nat.ne_of_lt hlt h.2
    | received packet =>
        simp only at hs
        have hzero : s'.timeouts = 0 := by
          split_ifs at hs
          · cases hs
            rfl
          · cases hs
            rfl
          · cases hs
            exact ReadTransfer.loopTop_timeouts _
        rw [hzero]
        exact iff_of_false (fun h => absurd h.2 (by decide)) (by simp [WaitEvent.sign])

namespace WriteTransfer

variable {s s' : WriteTransfer}

/-- What is done to the files leaves the count alone. -/
@[simp] theorem leave_timeouts (s : WriteTransfer) (why : Leave) :
    (s.leave why).timeouts = s.timeouts ∧ (s.leave why).left = some why := by
  unfold leave rdbuf
  split_ifs
  · cases s.mode <;> exact ⟨rfl, rfl⟩
  · exact ⟨rfl, rfl⟩

theorem flush_timeouts {data : PacketBuf} (hs : s.flush data = some s') :
    s'.timeouts = s.timeouts ∧ s'.left = s.left := by
  unfold flush at hs
  dsimp only at hs
  split_ifs at hs
  cases hs
  unfold bufRead
  cases s.mode <;> exact ⟨rfl, rfl⟩

end WriteTransfer

/-- A datagram sets the count back, and is no reason to give up. -/
theorem writeStep_received {s s' : WriteTransfer} {ret : Int} {data : PacketBuf}
    (hs : writeStep s (.received ret data) = some s') :
    s'.timeouts = 0 ∧ s'.left ≠ some .timeouts := by
  unfold writeStep at hs
  split_ifs at hs with hleft
  have hrunning : s.left = none := Option.not_isSome_iff_eq_none.mp hleft
  have hno : ∀ t : WriteTransfer, t.left = none → t.left ≠ some .timeouts := by
    intro t ht
    rw [ht]
    decide
  dsimp only at hs
  split_ifs at hs
  · cases hs
    obtain ⟨htimeouts, hleave⟩ := WriteTransfer.leave_timeouts { s with timeouts := 0 } .notData
    exact ⟨htimeouts, by rw [hleave]; decide⟩
  · cases hs
    exact ⟨rfl, hno _ hrunning⟩
  · cases hs
    obtain ⟨htimeouts, hleave⟩ := WriteTransfer.leave_timeouts (WriteTransfer.sendAck { s with
      timeouts := 0
      ss := s.ss.write data.getData (ret - dataHeaderLen) } s.block) .lastBlock
    exact ⟨htimeouts, by rw [hleave]; decide⟩
  · obtain ⟨htimeouts, hsame⟩ := WriteTransfer.flush_timeouts hs
    exact ⟨htimeouts, hno _ (hsame.trans hrunning)⟩

theorem left_of_writeStep {s s' : WriteTransfer} {e : WriteEvent} (hs : writeStep s e = some s') :
    s.left = none := by
  unfold writeStep at hs
  split_ifs at hs with hleft
  exact Option.not_isSome_iff_eq_none.mp hleft

theorem write_patient (mode : Mode) :
    (writeTransfer mode).Patient WriteEvent.sign maxTimeouts WriteTransfer.timeouts
      (fun s => s.left = none) (fun s => s.left = some .timeouts) where
  stays s e s' hs hnot := absurd (left_of_writeStep hs) hnot
  not_both s hnone hgave := by
    rw [hnone] at hgave
    cases hgave
  counts s e s' _ hcount hs hw := by
    have hs : writeStep s e = some s' := hs
    cases e with
    | received ret data => exact (writeStep_received hs).1
    | interrupted =>
        unfold writeStep at hs
        split_ifs at hs
        cases hs
        rfl
    | selectError =>
        unfold writeStep at hs
        split_ifs at hs
        cases hs
        rw [(WriteTransfer.leave_timeouts s .selectError).2] at hw
        cases hw
    | timeout =>
        unfold writeStep at hs
        split_ifs at hs
        cases hs
        unfold WriteTransfer.loopTop at hw ⊢
        split_ifs at hw ⊢
        · rfl
        · rw [(WriteTransfer.leave_timeouts _ .timeouts).2] at hw
          cases hw
  gives_up_iff s e s' _ hcount hs := by
    have hs : writeStep s e = some s' := hs
    cases e with
    | received ret data =>
        exact iff_of_false (writeStep_received hs).2 (by simp [WriteEvent.sign])
    | interrupted =>
        unfold writeStep at hs
        split_ifs at hs with hleft
        cases hs
        refine iff_of_false (fun h => hleft ?_) (by simp [WriteEvent.sign])
        rw [h]
        rfl
    | selectError =>
        unfold writeStep at hs
        split_ifs at hs
        cases hs
        rw [(WriteTransfer.leave_timeouts s .selectError).2]
        exact iff_of_false (by decide) (by simp [WriteEvent.sign])
    | timeout =>
        unfold writeStep at hs
        split_ifs at hs with hleft
        cases hs
        have hrunning : s.left = none := Option.not_isSome_iff_eq_none.mp hleft
        have hcond : ∀ t : WriteTransfer, t.left = none → t.timeouts = s.timeouts + 1 →
            (t.loopTop.left = some .timeouts ↔ s.timeouts + 1 = maxTimeouts) := by
          intro t ht htimeouts
          unfold WriteTransfer.loopTop
          rw [htimeouts]
          split_ifs with hmore
          · rw [ht]
            exact iff_of_false (by decide) (Nat.ne_of_lt hmore)
          · rw [(WriteTransfer.leave_timeouts _ .timeouts).2]
            exact iff_of_true rfl (Nat.le_antisymm hcount (Nat.le_of_not_lt hmore))
        refine Iff.trans (hcond _ ?_ ?_) (and_iff_right rfl).symm
        · exact hrunning
        · rfl

/-- **Both transfers give up with the fifth timeout in a row**, interruptions not counted, and go on
as long as there have been fewer since the last datagram. -/
theorem transfers_give_up (mode : Mode) (bytes : Bytes) :
    (∀ (es : List WaitEvent) (s : ReadTransfer),
      (readTransfer mode bytes).run (.start mode bytes) es = some s →
        (s.waiting = false ∧ s.timeouts = maxTimeouts ↔
            silences WaitEvent.sign 0 es = maxTimeouts) ∧
          (s.waiting = true → silences WaitEvent.sign 0 es < maxTimeouts)) ∧
      ∀ (es : List WriteEvent) (s : WriteTransfer),
        (writeTransfer mode).run (.start mode) es = some s →
          (s.left = some .timeouts ↔ silences WriteEvent.sign 0 es = maxTimeouts) ∧
            (s.left = none → silences WriteEvent.sign 0 es < maxTimeouts) := by
  refine ⟨fun es s hs => ?_, fun es s hs => ?_⟩
  · have hzero : (ReadTransfer.start mode bytes).timeouts = 0 := ReadTransfer.loopTop_timeouts _
    by_cases hw : (ReadTransfer.start mode bytes).waiting = true
    · have hrun := (read_patient mode bytes).run hw (by rw [hzero]; decide) hs
      rw [hzero] at hrun
      exact ⟨hrun.1, fun h => (hrun.2 h).2⟩
    · -- nothing has been sent, and nothing is waited for
      cases es with
      | nil =>
          obtain rfl : ReadTransfer.start mode bytes = s := Option.some.inj hs
          rw [hzero]
          exact ⟨iff_of_false (fun h => absurd h.2 (by decide)) (by decide), fun h => absurd h hw⟩
      | cons e es =>
          obtain ⟨s₁, hs₁, -⟩ := Option.bind_eq_some_iff.mp hs
          exact absurd (waiting_of_readStep hs₁) hw
  · have hrun := (write_patient mode).run (s := .start mode) rfl (Nat.zero_lt_succ 4) hs
    exact ⟨hrun.1, fun h => (hrun.2 h).2⟩

/-- A client that says nothing any more, with a signal in between. -/
def silentClient : List WaitEvent := [.timeout, .timeout, .interrupted, .timeout, .timeout, .timeout]

theorem transfers_give_up_silentClient : ∃ s,
    (readTransfer .octet (List.replicate 600 0x61)).run (.start .octet (List.replicate 600 0x61))
      silentClient = some s ∧ s.waiting = false ∧ s.timeouts = maxTimeouts := by
  have hrun : ((readTransfer .octet (List.replicate 600 0x61)).run
      (.start .octet (List.replicate 600 0x61)) silentClient).isSome = true := by
    decide +kernel
  obtain ⟨s, hs⟩ := Option.isSome_iff_exists.mp hrun
  exact ⟨s, hs, ((transfers_give_up .octet _).1 _ s hs).1.mpr (by decide)⟩

/-! ## Sending again -/

/-- `k` blocks have been read from the file, no more than there are. -/
structure HasRead (content : Bytes) (k : Nat) (s : ReadTransfer) : Prop where
  file : s.file.content = content.drop (tftpMaxDataLen * k)
  full : s.maxData = true → tftpMaxDataLen * k ≤ content.length
  inside : k ≤ content.length / tftpMaxDataLen + 1

/-- At a `select` nothing is left of an earlier timeout. -/
structure Reading (content : Bytes) (k : Nat) (s : ReadTransfer) : Prop extends HasRead content k s where
  retry : s.waiting = true → s.retry = false

section Sending

variable {content : Bytes} {k : Nat} {s s' : ReadTransfer}

/-- From the top of the loop without `retry`: what is sent is another block. -/
theorem HasRead.loopTop_next (h : HasRead content k s) (hretry : s.retry = false) :
    ∃ k', Reading content k' s.loopTop ∧
      (sentBlocks s.loopTop.log).length + k ≤ (sentBlocks s.log).length + k' := by
  have hread : (s.file.read tftpMaxDataLen).1 = chunk tftpMaxDataLen content k := by
    rw [(s.file.read_content tftpMaxDataLen).1, h.file]
    rfl
  have hrest : (s.file.read tftpMaxDataLen).2.content = content.drop (tftpMaxDataLen * (k + 1)) := by
    rw [(s.file.read_content tftpMaxDataLen).2, h.file, List.drop_drop, Nat.mul_succ]
  unfold ReadTransfer.loopTop
  rw [if_neg (show ¬ s.retry = true by rw [hretry]; decide)]
  dsimp only
  split_ifs with hmax hend
  · -- at the end: the rest of the file is empty before and behind
    refine ⟨k, ⟨⟨?_, h.full, h.inside⟩, fun hw => by cases hw⟩, Nat.le_refl _⟩
    have hnil : content.drop (tftpMaxDataLen * k) = [] := by
      have hlen := hend.1
      rw [hread, chunk, List.length_take, List.length_drop] at hlen
      rw [List.drop_eq_nil_iff]
      simp only [tftpMaxDataLen] at hlen ⊢
      omega
    show (s.file.read tftpMaxDataLen).2.content = _
    rw [hrest, Nat.mul_succ, ← List.drop_drop, hnil, List.drop_nil]
  · refine ⟨k + 1, ⟨⟨hrest, ?_, ?_⟩, fun _ => rfl⟩, ?_⟩
    · intro hfull
      have hsize : 0 < tftpMaxDataLen := by decide
      refine le_length_of_chunk_full ?_ hsize
      rw [← hread]
      exact of_decide_eq_true hfull
    · -- a block inside the content, or the one behind a full block
      have hin : tftpMaxDataLen * k ≤ content.length := by
        by_cases hmaxData : s.maxData = true
        · exact h.full hmaxData
        · have hne : (chunk tftpMaxDataLen content k).length ≠ 0 := fun hzero =>
            hend ⟨by rw [hread]; exact hzero, by simpa using hmaxData⟩
          rw [chunk_length] at hne
          omega
      exact Nat.succ_le_succ ((Nat.le_div_iff_mul_le (by decide)).mpr (by
        rw [Nat.mul_comm]
        exact hin))
    · show (sentBlocks (s.log ++ [_])).length + k ≤ _
      rw [sentBlocks_append, List.length_append]
      show _ + 1 + k ≤ _
      omega
  · exact ⟨k, ⟨⟨h.file, h.full, h.inside⟩, fun hw => by cases hw⟩, Nat.le_refl _⟩

/-- With `retry` it is the old one. -/
theorem HasRead.loopTop_again (h : HasRead content k s) (hretry : s.retry = true) :
    Reading content k s.loopTop ∧
      (sentBlocks s.loopTop.log).length ≤ (sentBlocks s.log).length + 1 := by
  unfold ReadTransfer.loopTop
  rw [if_pos hretry]
  split_ifs
  · refine ⟨⟨⟨h.file, h.full, h.inside⟩, fun _ => rfl⟩, ?_⟩
    show (sentBlocks (s.log ++ [_])).length ≤ _
    rw [sentBlocks_append, List.length_append]
    exact Nat.le_refl _
  · exact ⟨⟨⟨h.file, h.full, h.inside⟩, fun hw => by cases hw⟩, Nat.le_succ _⟩

/-- **One step**: a block is sent for a block that is read, or for a timeout. -/
theorem reading_step (h : Reading content k s) {e : WaitEvent} (hs : readStep s e = some s') :
    ∃ k', Reading content k' s' ∧ (sentBlocks s'.log).length + k ≤
      (sentBlocks s.log).length + k' + if e = .timeout then 1 else 0 := by
  unfold readStep at hs
  split_ifs at hs with hw
  have hretry := h.retry hw
  have hstay : ∀ (t : ReadTransfer), t.file = s.file → t.maxData = s.maxData → t.retry = s.retry →
      Reading content k t := fun t hfile hmax hr =>
    ⟨⟨by rw [hfile]; exact h.file, by rw [hmax]; exact h.full, h.inside⟩, fun _ => hr.trans hretry⟩
  have hacked : ∀ b, (sentBlocks (s.log ++ [.acked b])).length = (sentBlocks s.log).length := by
    intro b
    rw [sentBlocks_append, List.length_append]
    rfl
  cases e with
  | interrupted =>
      cases hs
      exact h.toHasRead.loopTop_next hretry
  | selectError =>
      cases hs
      exact ⟨k, hstay _ rfl rfl rfl, Nat.le_refl _⟩
  | timeout =>
      cases hs
      have hread : HasRead content k { s with timeouts := s.timeouts + 1, retry := true } :=
        ⟨h.file, h.full, h.inside⟩
      obtain ⟨hreading, hsent⟩ := hread.loopTop_again rfl
      refine ⟨k, hreading, ?_⟩
      rw [if_pos rfl]
      dsimp only at hsent
      omega
  | received packet =>
      simp only at hs
      split_ifs at hs
      · cases hs
        exact ⟨k, hstay _ rfl rfl rfl, Nat.le_refl _⟩
      · cases hs
        refine ⟨k, hstay _ rfl rfl rfl, ?_⟩
        show (sentBlocks (s.log ++ [.acked packet.getBlock])).length + k ≤ _
        rw [hacked]
        exact Nat.le_refl _
      · cases hs
        obtain ⟨k', hreading, hsent⟩ := (hstay { s with
          timeouts := 0
          log := s.log ++ [.acked packet.getBlock]
          block := s.block + 1 } rfl rfl rfl).toHasRead.loopTop_next hretry
        rw [show ReadTransfer.log { s with
          timeouts := 0
          log := s.log ++ [.acked packet.getBlock]
          block := s.block + 1 } = s.log ++ [.acked packet.getBlock] from rfl, hacked] at hsent
        exact ⟨k', hreading, hsent⟩

/-- Over a run. -/
theorem reading_run {mode : Mode} {bytes : Bytes} {es : List WaitEvent} (h : Reading content k s)
    (hs : (readTransfer mode bytes).run s es = some s') :
    ∃ k', Reading content k' s' ∧
      (sentBlocks s'.log).length + k ≤ (sentBlocks s.log).length + k' + es.count .timeout := by
  induction es generalizing s k with
  | nil =>
      cases hs
      exact ⟨k, h, Nat.le_refl _⟩
  | cons e es ih =>
      obtain ⟨s₁, hs₁, hrest⟩ := Option.bind_eq_some_iff.mp hs
      obtain ⟨k₁, h₁, hstep⟩ := reading_step h hs₁
      obtain ⟨k', h', hmore⟩ := ih h₁ hrest
      refine ⟨k', h', ?_⟩
      rw [List.count_cons]
      simp only [beq_iff_eq]
      omega

end Sending

/-- **Repeated acknowledgements are not answered.** In every state of every run the server has sent no more
DATA packets than it has read blocks so far and there have been timeouts, and it reads no more blocks than the
content has: neither acknowledgements that come twice or late nor interruptions make it send a block again. As
long as the last block read was a full one, the blocks read lie inside the content. -/
theorem no_sorcerers_apprentice (mode : Mode) (bytes : Bytes) (es : List WaitEvent) (s : ReadTransfer)
    (hs : (readTransfer mode bytes).run (.start mode bytes) es = some s) :
    ∃ k, s.file.content = (FileStream.stream mode bytes).drop (tftpMaxDataLen * k) ∧
      (s.maxData = true → tftpMaxDataLen * k ≤ (FileStream.stream mode bytes).length) ∧
      k ≤ (FileStream.stream mode bytes).length / tftpMaxDataLen + 1 ∧
      (sentBlocks s.log).length ≤ k + es.count .timeout := by
  have hinit : HasRead (FileStream.stream mode bytes) 0 (.init mode bytes) := by
    refine ⟨?_, (nomatch ·), Nat.zero_le _⟩
    show (FileStream.ofFile mode bytes).content = _
    rw [FileStream.content_ofFile, Nat.mul_zero, List.drop_zero]
  obtain ⟨k, hstart, hsent⟩ := hinit.loopTop_next rfl
  obtain ⟨k', hreading, hrun⟩ := reading_run hstart hs
  have hnone : (sentBlocks (ReadTransfer.init mode bytes).log).length = 0 := rfl
  have hfirst : (sentBlocks (ReadTransfer.start mode bytes).log).length ≤ k := by
    unfold ReadTransfer.start
    omega
  exact ⟨k', hreading.file, hreading.full, hreading.inside, by omega⟩

/-- The first block is sent twice and acknowledged three times: two blocks are read, and three packets sent. -/
theorem no_sorcerers_apprentice_600 :
    ∃ s k, (readTransfer .octet (List.replicate 600 0x61)).run (.start .octet (List.replicate 600 0x61))
        [.timeout, .received (ackPacket 1), .received (ackPacket 1), .received (ackPacket 1)] = some s ∧
      k ≤ 2 ∧ (sentBlocks s.log).length = 3 ∧ (sentBlocks s.log).length ≤ k + 1 := by
  have hrun : ((readTransfer .octet (List.replicate 600 0x61)).run
      (.start .octet (List.replicate 600 0x61))
      [.timeout, .received (ackPacket 1), .received (ackPacket 1), .received (ackPacket 1)]).map
        (fun s => (sentBlocks s.log).length) = some 3 := by
    decide +kernel
  obtain ⟨s, hs, hthree⟩ := Option.map_eq_some_iff.mp hrun
  obtain ⟨k, -, -, hk, hbound⟩ := no_sorcerers_apprentice .octet (List.replicate 600 0x61) _ s hs
  have hlen : (FileStream.stream .octet (List.replicate 600 0x61)).length = 600 := List.length_replicate
  have hcount : List.count WaitEvent.timeout
      [.timeout, .received (ackPacket 1), .received (ackPacket 1), .received (ackPacket 1)] = 1 := by
    decide +kernel
  rw [hlen] at hk
  rw [hcount] at hbound
  exact ⟨s, k, hs, hk, hthree, hbound⟩

end ComputerNetworking.Tftp
