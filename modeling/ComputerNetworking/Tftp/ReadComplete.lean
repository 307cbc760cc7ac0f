/-
# ComputerNetworking.Tftp.ReadComplete -- does a cooperating client get the file?

Against a client that acknowledges every DATA packet the RRQ loop sends one block after the other
and ends behind the first one that is not full. What tells the client that the transfer is over is
that short block, so even an empty file needs one. The loop's test for the end of the file, which
is there to keep it from sending a second short block, also holds before the first: for an empty
file it sends nothing at all.
-/
import ComputerNetworking.Tftp.LockStep

namespace ComputerNetworking.Tftp

open ComputerNetworking.Lib

/-! ## The client -/

/-- The client acknowledges the outstanding block, as long as there is one. -/
def ackStep (s : ReadTransfer) : ReadTransfer :=
  (readStep s (.received (ackPacket s.block))).getD s

/-- The transfer after `k` acknowledgements. -/
def ackingRun (s : ReadTransfer) : Nat → ReadTransfer
  | 0 => s
  | k + 1 => ackStep (ackingRun s k)

/-- The DATA packets of a log. -/
def sentBlocks (log : List ReadEntry) : List (UInt16 × Bytes) :=
  log.filterMap fun e => match e with
    | .sent block data => some (block, data)
    | .acked _ => none

/-- What a client has that collects blocks and stops at the first short one. -/
def collect : List (UInt16 × Bytes) → Option Bytes
  | [] => none
  | (_, data) :: rest =>
      if data.length < tftpMaxDataLen then some data else (collect rest).map (data ++ ·)

/-- The transfer is over and the client has got the content. -/
structure Complete (content : Bytes) (s : ReadTransfer) : Prop where
  ended : s.waiting = false
  count : (sentBlocks s.log).length = content.length / tftpMaxDataLen + 1
  numbered : ∀ i block data, (sentBlocks s.log)[i]? = some (block, data) →
    block = UInt16.ofNat (i + 1)
  full : ∀ i block data, (sentBlocks s.log)[i]? = some (block, data) →
    i < content.length / tftpMaxDataLen → data.length = tftpMaxDataLen
  last : ∀ block data,
    (sentBlocks s.log)[content.length / tftpMaxDataLen]? = some (block, data) →
      data.length = content.length % tftpMaxDataLen
  payloads : (sentBlocks s.log).flatMap Prod.snd = content
  collected : collect (sentBlocks s.log) = some content

/-! ## The blocks of a content -/

/-- The first `k` blocks with their numbers. -/
def blocksUpTo (content : Bytes) (k : Nat) : List (UInt16 × Bytes) :=
  (List.range k).map fun i => (Groups.number (i + 1), chunk tftpMaxDataLen content i)

theorem blocksUpTo_succ (content : Bytes) (k : Nat) :
    blocksUpTo content (k + 1) =
      blocksUpTo content k ++ [(Groups.number (k + 1), chunk tftpMaxDataLen content k)] := by
  unfold blocksUpTo
  rw [List.range_succ, List.map_append]
  rfl

theorem blocksUpTo_payloads (content : Bytes) (k : Nat) :
    (blocksUpTo content k).flatMap Prod.snd = chunksUpTo tftpMaxDataLen content k := by
  induction k with
  | zero => rw [chunksUpTo_zero]; rfl
  | succ k ih =>
      rw [blocksUpTo_succ, List.flatMap_append, ih, chunksUpTo_succ]
      simp

theorem getElem?_blocksUpTo {content : Bytes} {k i : Nat} {block : UInt16} {data : Bytes}
    (h : (blocksUpTo content k)[i]? = some (block, data)) :
    i < k ∧ block = Groups.number (i + 1) ∧ data = chunk tftpMaxDataLen content i := by
  unfold blocksUpTo at h
  rw [List.getElem?_map, Option.map_eq_some_iff] at h
  obtain ⟨j, hj, hpair⟩ := h
  rw [List.getElem?_eq_some_iff] at hj
  obtain ⟨hlt, hget⟩ := hj
  rw [List.getElem_range] at hget
  rw [List.length_range] at hlt
  subst hget
  cases hpair
  exact ⟨hlt, rfl, rfl⟩

/-- A client that has got full blocks so far goes on collecting. -/
theorem collect_append {xs ys : List (UInt16 × Bytes)}
    (h : ∀ x ∈ xs, x.2.length = tftpMaxDataLen) :
    collect (xs ++ ys) = (collect ys).map (xs.flatMap Prod.snd ++ ·) := by
  induction xs with
  | nil => simp
  | cons x xs ih =>
      rw [List.cons_append, collect, if_neg (by rw [h x (by simp)]; exact Nat.lt_irrefl _),
        ih fun y hy => h y (List.mem_cons_of_mem _ hy), Option.map_map]
      congr 1
      funext z
      simp

/-- A transfer that ended with all the blocks is complete. -/
theorem complete_of_blocks {content : Bytes} {s : ReadTransfer} (hended : s.waiting = false)
    (h : sentBlocks s.log = blocksUpTo content (content.length / tftpMaxDataLen + 1)) :
    Complete content s := by
  have hlast := chunk_last tftpMaxDataLen content (by decide)
  have hshort : (chunk tftpMaxDataLen content (content.length / tftpMaxDataLen)).length <
      tftpMaxDataLen := by
    rw [hlast]
    exact Nat.mod_lt _ (by decide)
  refine ⟨hended, ?_, ?_, ?_, ?_, ?_, ?_⟩
  · rw [h, blocksUpTo, List.length_map, List.length_range]
  · intro i block data hi
    rw [h] at hi
    exact (getElem?_blocksUpTo hi).2.1
  · intro i block data hi hlt
    rw [h] at hi
    rw [(getElem?_blocksUpTo hi).2.2]
    exact chunk_full hlt
  · intro block data hi
    rw [h] at hi
    rw [(getElem?_blocksUpTo hi).2.2, hlast]
  · rw [h, blocksUpTo_payloads, chunksUpTo_of_short hshort]
  · rw [h, blocksUpTo_succ, collect_append]
    · simp only [collect, if_pos hshort, Option.map_some, blocksUpTo_payloads]
      rw [← chunksUpTo_succ, chunksUpTo_of_short hshort]
    · intro x hx
      obtain ⟨i, hi, rfl⟩ := List.mem_map.mp hx
      exact chunk_full (List.mem_range.mp hi)

/-! ## The run -/

theorem ackStep_eq {s : ReadTransfer} (hw : s.waiting = true) :
    ackStep s = ReadTransfer.loopTop
      { s with
        timeouts := 0
        log := s.log ++ [.acked (ackPacket s.block).getBlock]
        block := s.block + 1 } := by
  obtain ⟨hop, hblock⟩ := ackPacket_spec s.block
  unfold ackStep readStep
  rw [if_pos hw]
  simp only [hop, hblock, ne_eq, not_true_eq_false, if_false]
  rfl

theorem sentBlocks_append (xs ys : List ReadEntry) :
    sentBlocks (xs ++ ys) = sentBlocks xs ++ sentBlocks ys := List.filterMap_append

/-- The first block goes out before any acknowledgement, if the content is not empty. -/
theorem start_sends {mode : Mode} {bytes : Bytes} (h : bytes ≠ []) :
    (ReadTransfer.start mode bytes).waiting = true ∧
      Outstanding (FileStream.stream mode bytes) 0 (.start mode bytes) ∧
      sentBlocks (ReadTransfer.start mode bytes).log =
        blocksUpTo (FileStream.stream mode bytes) 1 := by
  have hne : FileStream.stream mode bytes ≠ [] := fun hnil => h (FileStream.stream_eq_nil.mp hnil)
  have hlen : 0 < (FileStream.stream mode bytes).length := List.length_pos_iff.mpr hne
  rcases loopTop_sends (advancing_init mode bytes) (by
    rw [chunk_length]
    intro hend
    have hmin := hend.1
    unfold tftpMaxDataLen at hmin
    omega) with ⟨hw, hout, hlog⟩
  refine ⟨hw, hout, ?_⟩
  unfold ReadTransfer.start
  rw [hlog]
  rfl

/-- After `k` acknowledgements, as long as the blocks before were full, block `k + 1` is
outstanding. -/
theorem ackingRun_sends (mode : Mode) {bytes : Bytes} (h : bytes ≠ []) {k : Nat}
    (hk : k ≤ (FileStream.stream mode bytes).length / tftpMaxDataLen) :
    (ackingRun (.start mode bytes) k).waiting = true ∧
      Outstanding (FileStream.stream mode bytes) k (ackingRun (.start mode bytes) k) ∧
      sentBlocks (ackingRun (.start mode bytes) k).log =
        blocksUpTo (FileStream.stream mode bytes) (k + 1) := by
  induction k with
  | zero => exact start_sends h
  | succ k ih =>
      obtain ⟨hw, hout, hsent⟩ := ih (by omega)
      -- block `k + 1` was full, so its acknowledgement does not end the loop
      have hfull : (chunk tftpMaxDataLen (FileStream.stream mode bytes) k).length =
          tftpMaxDataLen := chunk_full hk
      rcases loopTop_sends (hout.acked (ackPacket_spec _).2) (by
        intro hend
        have hmax : (ackingRun (.start mode bytes) k).maxData = true := by
          rw [hout.maxData, hout.data, hfull]
          simp
        have hend' := hend.2
        rw [show ReadTransfer.maxData _ = true from hmax] at hend'
        cases hend') with ⟨hw', hout', hlog'⟩
      show (ackStep (ackingRun (.start mode bytes) k)).waiting = true ∧ Outstanding _ _ (ackStep _) ∧
        sentBlocks (ackStep _).log = _
      rw [ackStep_eq hw]
      refine ⟨hw', hout', ?_⟩
      rw [hlog', blocksUpTo_succ, ← hsent, sentBlocks_append, sentBlocks_append]
      simp [sentBlocks]

/-- The acknowledgement of the first short block ends the loop. -/
theorem ackingRun_ends {mode : Mode} {bytes : Bytes} (h : bytes ≠ []) :
    Complete (FileStream.stream mode bytes)
      (ackingRun (.start mode bytes)
        ((FileStream.stream mode bytes).length / tftpMaxDataLen + 1)) := by
  obtain ⟨hw, hout, hsent⟩ := ackingRun_sends mode h (Nat.le_refl _)
  have hlast := chunk_last tftpMaxDataLen (FileStream.stream mode bytes) (by decide)
  have hmod := Nat.mod_lt (FileStream.stream mode bytes).length
    (show tftpMaxDataLen > 0 by decide)
  rcases loopTop_ends (hout.acked (ackPacket_spec _).2) (by
    refine ⟨?_, ?_⟩
    · rw [chunk, drop_eq_nil_of_chunk_short (by rw [hlast]; exact hmod)]
      rfl
    · show (!(ackingRun (.start mode bytes) _).maxData) = true
      rw [hout.maxData, hout.data, hlast]
      simpa using Nat.ne_of_lt hmod) with ⟨hended, hlog⟩
  apply complete_of_blocks
  · show (ackStep _).waiting = false
    rw [ackStep_eq hw]
    exact hended
  · show sentBlocks (ackStep _).log = _
    rw [ackStep_eq hw, hlog, ← hsent, sentBlocks_append]
    simp [sentBlocks]

/-- With an empty file the loop is left before anything was sent. -/
theorem ackingRun_empty (mode : Mode) (k : Nat) :
    (ackingRun (.start mode []) k).waiting = false ∧ (ackingRun (.start mode []) k).log = [] := by
  induction k with
  | zero => cases mode <;> exact ⟨rfl, rfl⟩
  | succ k ih =>
      show (ackStep _).waiting = false ∧ (ackStep _).log = []
      unfold ackStep readStep
      rw [if_neg (by rw [ih.1]; decide)]
      exact ih

/-- **A client that acknowledges every block gets the file exactly when it is not empty.** -/
theorem read_completes_iff (mode : Mode) (bytes : Bytes) :
    (∃ k, Complete (FileStream.stream mode bytes) (ackingRun (.start mode bytes) k)) ↔
      bytes ≠ [] := by
  constructor
  · rintro ⟨k, hk⟩ rfl
    have hcount := hk.count
    rw [(ackingRun_empty mode k).2] at hcount
    cases hcount
  · intro h
    exact ⟨_, ackingRun_ends h⟩

/-- An empty file in octet mode: no DATA packet ever goes out, and the client waits for one. -/
theorem read_empty_sends_nothing :
    (ReadTransfer.start .octet []).waiting = false ∧
      (∀ k, sentBlocks (ackingRun (.start .octet []) k).log = []) ∧
      ¬ ∃ k, Complete (FileStream.stream .octet []) (ackingRun (.start .octet []) k) := by
  refine ⟨rfl, ?_, ?_⟩
  · intro k
    rw [(ackingRun_empty .octet k).2]
    rfl
  · rintro ⟨k, hk⟩
    have hcount := hk.count
    rw [(ackingRun_empty .octet k).2] at hcount
    cases hcount

end ComputerNetworking.Tftp
