/-
# ComputerNetworking.Tftp.Download -- a download over a network that loses and repeats

The RRQ loop with a client at the other end. The client keeps the block it is waiting for and nothing
else, and may acknowledge at any time, any number of times, what it has kept. The network may lose, repeat
and reorder the packets of both sides: what arrives is anything that has been sent.

The server is never more than one block ahead of the client, and the client never has anything but the
front of the content: `download_in_step`. And whatever the network has done so far, as long as the loop
has not been left, the download can still be completed: `download_can_finish`.
-/
import ComputerNetworking.Tftp.NetasciiRoundTrip
import ComputerNetworking.Tftp.ReadComplete

namespace ComputerNetworking.Tftp

open ComputerNetworking.Lib

/-! ## The client and the network -/

/-- A client that stores blocks in order up to a short one. -/
structure Fetcher where
  count : Nat
  stored : Bytes
  done : Bool

/-- A DATA packet arrives. -/
def Fetcher.receive (c : Fetcher) (block : UInt16) (data : Bytes) : Fetcher :=
  if c.done = false ∧ block = Groups.number (c.count + 1) then
    ⟨c.count + 1, c.stored ++ data, data.length < tftpMaxDataLen⟩
  else c

structure Download where
  server : ReadTransfer
  client : Fetcher
  /-- The block numbers of the ACK packets the client has sent. -/
  acks : List UInt16

inductive DownloadEvent where
  /-- What happens at the server's `select`. -/
  | server (e : WaitEvent)
  /-- A DATA packet reaches the client. -/
  | data (block : UInt16) (data : Bytes)
  /-- The client acknowledges its `i`-th block. -/
  | ack (i : Nat)

/-- Only an acknowledgement that has been sent can be received, into a buffer that held anything before. -/
def Arrives (acks : List UInt16) : WaitEvent → Prop
  | .received packet => packet.opcode = some .ack ∧ packet.getBlock ∈ acks
  | _ => True

instance (acks : List UInt16) (e : WaitEvent) : Decidable (Arrives acks e) := by
  cases e <;> unfold Arrives <;> infer_instance

namespace Download

def start (mode : Mode) (bytes : Bytes) : Download := ⟨.start mode bytes, ⟨0, [], false⟩, []⟩

def step (d : Download) : DownloadEvent → Option Download
  | .server e =>
      if Arrives d.acks e then (readStep d.server e).map fun server => { d with server := server }
      else none
  | .data block data =>
      if (block, data) ∈ sentBlocks d.server.log then
        some { d with client := d.client.receive block data }
      else none
  | .ack i =>
      if 1 ≤ i ∧ i ≤ d.client.count then some { d with acks := d.acks ++ [Groups.number i] }
      else none

end Download

/-- The download of a file. -/
def download (mode : Mode) (bytes : Bytes) : Machine Download DownloadEvent where
  init d := d = .start mode bytes
  step := Download.step

/-- No `select` of the server is interrupted while a full block is outstanding. -/
def Undisturbed (d : Download) : DownloadEvent → Prop
  | .server e => NoInterruptInside d.server e
  | _ => True

instance (d : Download) (e : DownloadEvent) : Decidable (Undisturbed d e) := by
  cases e <;> unfold Undisturbed <;> infer_instance

/-- Something is delivered, or acknowledged: the server's `select` does not time out or fail. -/
def DownloadEvent.Delivers : DownloadEvent → Prop
  | .server e => ∃ packet, e = .received packet
  | _ => True

/-! ## What a log in lock-step holds -/

namespace Groups

variable {content : Bytes} {log : List ReadEntry} {g g' : Groups}

theorem number_inj {i j : Nat} (hi : i < 65536) (hj : j < 65536) (h : number i = number j) : i = j := by
  have hnum := congrArg UInt16.toNat h
  unfold number at hnum
  rwa [UInt16.toNat_ofNat', UInt16.toNat_ofNat', Nat.mod_eq_of_lt hi, Nat.mod_eq_of_lt hj] at hnum

theorem ofLog_append (new : List ReadEntry) :
    ofLog content (log ++ new) = (ofLog content log).bind fun g => new.foldlM (next content) g := by
  unfold ofLog
  rw [List.foldlM_append]
  rfl

/-- The packets sent are the blocks of the groups begun, all of them inside the content or at its end. -/
theorem spec_of_ofLog (h : ofLog content log = some g) :
    (g.acked = false → 0 < g.begun) ∧ g.begun ≤ content.length / tftpMaxDataLen + 1 ∧
      ∀ p, p ∈ sentBlocks log ↔
        ∃ i < g.begun, p = (number (i + 1), chunk tftpMaxDataLen content i) := by
  induction log using List.reverseRecOn generalizing g with
  | nil =>
      cases h
      exact ⟨by decide, Nat.zero_le _, by simp [sentBlocks, start]⟩
  | append_singleton log e ih =>
      rw [ofLog_append] at h
      obtain ⟨g₀, hg₀, hnext⟩ := Option.bind_eq_some_iff.mp h
      obtain ⟨hpos, hinside, hsent⟩ := ih hg₀
      have hnext' : g₀.next content e = some g := by simpa using hnext
      cases e with
      | sent block data =>
          have hlog : ∀ p, p ∈ sentBlocks (log ++ [.sent block data]) ↔
              p ∈ sentBlocks log ∨ p = (block, data) := by
            intro p
            rw [sentBlocks_append, List.mem_append]
            simp [sentBlocks]
          simp only [next] at hnext'
          split_ifs at hnext' with hacked hnew hold
          · -- the next group
            cases hnext'
            obtain ⟨rfl, rfl, hlen⟩ := hnew
            refine ⟨fun _ => Nat.succ_pos _, ?_, fun p => ?_⟩
            · exact Nat.succ_le_succ ((Nat.le_div_iff_mul_le (by decide)).mpr (by
                rw [Nat.mul_comm]
                exact hlen))
            · rw [hlog, hsent]
              constructor
              · rintro (⟨i, hi, rfl⟩ | rfl)
                · exact ⟨i, Nat.lt_succ_of_lt hi, rfl⟩
                · exact ⟨g₀.begun, Nat.lt_succ_self _, rfl⟩
              · rintro ⟨i, hi, rfl⟩
                rcases Nat.lt_succ_iff_lt_or_eq.mp hi with hi | rfl
                · exact .inl ⟨i, hi, rfl⟩
                · exact .inr rfl
          · -- the last group again
            cases hnext'
            obtain ⟨rfl, rfl⟩ := hold
            have hbegun := hpos (by simpa using hacked)
            refine ⟨hpos, hinside, fun p => ?_⟩
            rw [hlog, hsent]
            refine or_iff_left_of_imp ?_
            rintro rfl
            exact ⟨g.begun - 1, by omega, by rw [Nat.sub_add_cancel hbegun]⟩
      | acked block =>
          have hlog : sentBlocks (log ++ [.acked block]) = sentBlocks log := by
            rw [sentBlocks_append]
            exact List.append_nil _
          rw [hlog]
          simp only [next] at hnext'
          split_ifs at hnext' <;> cases hnext'
          · exact ⟨by simp, hinside, hsent⟩
          · exact ⟨hpos, hinside, hsent⟩

end Groups

/-- Client and server are in step: the client has what has been acknowledged to the server, and at most one
block more. -/
structure Synced (count : Nat) (g : Groups) : Prop where
  behind : count ≤ g.begun
  ahead : g.begun ≤ count + 1
  acked : g.acked = true → count = g.begun

/-- What the client acknowledges it has. -/
def AcksKept (count : Nat) (acks : List UInt16) : Prop :=
  ∀ b ∈ acks, ∃ i, 1 ≤ i ∧ i ≤ count ∧ b = Groups.number i

section Synced

variable {content : Bytes} {count : Nat} {g g' : Groups} {acks : List UInt16}

/-- One entry of the server's log. -/
theorem Synced.next (h : Synced count g) {e : ReadEntry} (hnext : g.next content e = some g')
    (hack : e = .acked (Groups.number g.begun) → g.begun ≤ count) : Synced count g' := by
  obtain ⟨hbehind, hahead, hacked⟩ := h
  cases e with
  | sent block data =>
      simp only [Groups.next] at hnext
      split_ifs at hnext with ha hnew hold
      · cases hnext
        have hsame := hacked ha
        exact ⟨by dsimp only; omega, by dsimp only; omega, by simp⟩
      · cases hnext
        exact ⟨hbehind, hahead, hacked⟩
  | acked block =>
      simp only [Groups.next] at hnext
      split_ifs at hnext with hblock
      · cases hnext
        have hle := hack (by rw [hblock])
        exact ⟨hbehind, hahead, fun _ => Nat.le_antisymm hbehind hle⟩
      · cases hnext
        exact ⟨hbehind, hahead, hacked⟩

/-- What the server's log gains while it receives what the client has sent. -/
theorem Synced.append (hk : content.length / tftpMaxDataLen + 1 < 65536) (hacks : AcksKept count acks)
    {log new : List ReadEntry} (h : Synced count g) (hlog : Groups.ofLog content log = some g)
    (hnew : ∀ b, .acked b ∈ new → b ∈ acks) (hlog' : Groups.ofLog content (log ++ new) = some g') :
    Synced count g' := by
  induction new generalizing log g with
  | nil =>
      rw [List.append_nil, hlog] at hlog'
      cases hlog'
      exact h
  | cons e new ih =>
      rw [List.append_cons] at hlog'
      obtain ⟨g₁, hg₁, -⟩ := Option.bind_eq_some_iff.mp ((Groups.ofLog_append _).symm.trans hlog')
      have hnext : g.next content e = some g₁ := by
        rw [← Groups.ofLog_concat hlog]
        exact hg₁
      refine ih (h.next hnext ?_) hg₁ (fun b hb => hnew b (List.mem_cons_of_mem _ hb)) hlog'
      rintro rfl
      -- below 65536 groups an acknowledgement for the last one cannot be for an earlier one
      obtain ⟨i, -, hi, hnum⟩ := hacks _ (hnew _ (List.mem_cons_self ..))
      have hinside := (Groups.spec_of_ofLog hlog).2.1
      have hsame := Groups.number_inj (by omega) (by have := h.behind; omega) hnum
      omega

end Synced

/-! ## One step -/

theorem ReadTransfer.loopTop_log (s : ReadTransfer) :
    ∃ new, s.loopTop.log = s.log ++ new ∧ ∀ b, .acked b ∉ new := by
  have hsend : ∀ s : ReadTransfer, ∃ new, s.send.log = s.log ++ new ∧ ∀ b, .acked b ∉ new :=
    fun s => ⟨[.sent s.block s.data], rfl, by simp⟩
  have hnone : ∃ new, s.log = s.log ++ new ∧ ∀ b, .acked b ∉ new := ⟨[], by simp⟩
  unfold ReadTransfer.loopTop
  split_ifs
  · exact hsend s
  · dsimp only
    split_ifs
    · exact hnone
    · exact hsend _
  · exact hnone

/-- The log grows, by an acknowledgement only if it has been received. -/
theorem readStep_log {s s' : ReadTransfer} {e : WaitEvent} (hs : readStep s e = some s') :
    ∃ new, s'.log = s.log ++ new ∧
      ∀ b, .acked b ∈ new → ∃ packet, e = .received packet ∧ packet.getBlock = b := by
  unfold readStep at hs
  split_ifs at hs
  cases e with
  | interrupted =>
      cases hs
      obtain ⟨new, hlog, hno⟩ := s.loopTop_log
      exact ⟨new, hlog, fun b hb => absurd hb (hno b)⟩
  | selectError =>
      cases hs
      exact ⟨[], by simp⟩
  | timeout =>
      cases hs
      obtain ⟨new, hlog, hno⟩ :=
        ({ s with timeouts := s.timeouts + 1, retry := true } : ReadTransfer).loopTop_log
      exact ⟨new, hlog, fun b hb => absurd hb (hno b)⟩
  | received packet =>
      simp only at hs
      split_ifs at hs
      · cases hs
        exact ⟨[], by simp⟩
      · cases hs
        exact ⟨[.acked packet.getBlock], rfl, by simp⟩
      · cases hs
        obtain ⟨new, hlog, hno⟩ := ({ s with
          timeouts := 0
          log := s.log ++ [.acked packet.getBlock]
          block := s.block + 1 } : ReadTransfer).loopTop_log
        refine ⟨.acked packet.getBlock :: new, hlog.trans (List.append_assoc s.log [_] new), ?_⟩
        intro b hb
        rcases List.mem_cons.mp hb with hb | hb
        · cases hb
          exact ⟨packet, rfl, rfl⟩
        · exact absurd hb (hno b)

theorem InLockStep.ofLog {content : Bytes} {s : ReadTransfer} (h : InLockStep content s) :
    ∃ g, Groups.ofLog content s.log = some g := by
  rcases h with ⟨-, i, hout⟩ | ⟨-, hlog⟩
  · exact ⟨_, hout.log⟩
  · exact Option.isSome_iff_exists.mp hlog

/-- The client holds the first blocks and knows when it has them all. -/
structure Fetcher.Holds (content : Bytes) (c : Fetcher) : Prop where
  stored : c.stored = chunksUpTo tftpMaxDataLen content c.count
  done : c.done = true ↔ c.count = content.length / tftpMaxDataLen + 1

/-- What holds in every reachable state. -/
structure Downloading (content : Bytes) (d : Download) : Prop where
  server : InLockStep content d.server
  synced : ∀ g, Groups.ofLog content d.server.log = some g → Synced d.client.count g
  holds : d.client.Holds content
  acks : AcksKept d.client.count d.acks

section Step

variable {content : Bytes} {d d' : Download}

theorem downloading_start (mode : Mode) (bytes : Bytes) :
    Downloading (FileStream.stream mode bytes) (.start mode bytes) := by
  refine ⟨loopTop_advancing (advancing_init mode bytes), ?_, ⟨?_, ?_⟩, ?_⟩
  · intro g hg
    -- the client has nothing, so the log has to be of no group or of the first one
    by_cases hend : (chunk tftpMaxDataLen (FileStream.stream mode bytes) 0).length = 0 ∧
        (!(ReadTransfer.init mode bytes).maxData) = true
    · have hlog : (Download.start mode bytes).server.log = [] :=
        (loopTop_ends (advancing_init mode bytes) hend).2
      rw [hlog] at hg
      cases hg
      exact ⟨Nat.le_refl _, Nat.zero_le _, fun _ => rfl⟩
    · have hout := (loopTop_sends (advancing_init mode bytes) hend).2.1.log
      have hg' : g = ⟨0 + 1, false⟩ := Option.some.inj (hg.symm.trans hout)
      subst hg'
      exact ⟨Nat.zero_le _, Nat.le_refl _, by simp⟩
  · exact (chunksUpTo_zero ..).symm
  · simp [Download.start]
  · simp [AcksKept, Download.start]

/-- The client takes the block it is waiting for, which is the one the server has outstanding. -/
theorem Fetcher.Holds.receive {c : Fetcher} {g : Groups}
    (hk : content.length / tftpMaxDataLen + 1 < 65536) (h : c.Holds content) (hsync : Synced c.count g)
    (hinside : g.begun ≤ content.length / tftpMaxDataLen + 1) {i : Nat} (hi : i < g.begun) :
    (c.receive (Groups.number (i + 1)) (chunk tftpMaxDataLen content i)).Holds content ∧
      Synced (c.receive (Groups.number (i + 1)) (chunk tftpMaxDataLen content i)).count g ∧
      c.count ≤ (c.receive (Groups.number (i + 1)) (chunk tftpMaxDataLen content i)).count := by
  unfold Fetcher.receive
  split_ifs with hnext
  · obtain ⟨hmore, hnum⟩ := hnext
    have hbehind := hsync.behind
    have hne : c.count ≠ content.length / tftpMaxDataLen + 1 := by
      rw [Ne, ← h.done, hmore]
      decide
    have hcount : i = c.count :=
      Nat.succ.inj (Groups.number_inj (by omega) (by omega) hnum)
    subst hcount
    refine ⟨⟨?_, ?_⟩, ⟨hi, by have := hsync.ahead; dsimp only; omega, fun ha => ?_⟩, Nat.le_succ _⟩
    · rw [chunksUpTo_succ, ← h.stored]
    · -- the short block is the last one
      show decide _ = true ↔ _
      rw [decide_eq_true_eq]
      constructor
      · intro hshort
        have hnot : ¬ c.count < content.length / tftpMaxDataLen := fun hlt => by
          rw [chunk_full hlt] at hshort
          exact Nat.lt_irrefl _ hshort
        dsimp only
        omega
      · intro hlast
        dsimp only at hlast
        rw [show c.count = content.length / tftpMaxDataLen by omega, chunk_last _ _ (by decide)]
        exact Nat.mod_lt _ (by decide)
    · exact absurd (hsync.acked ha) (Nat.ne_of_lt hi)
  · exact ⟨h, hsync, Nat.le_refl _⟩

theorem AcksKept.mono {count count' : Nat} {acks : List UInt16} (h : AcksKept count acks)
    (hle : count ≤ count') : AcksKept count' acks := by
  intro b hb
  obtain ⟨i, hi, hle', hnum⟩ := h b hb
  exact ⟨i, hi, hle'.trans hle, hnum⟩

theorem downloading_step (hk : content.length / tftpMaxDataLen + 1 < 65536) (h : Downloading content d)
    {e : DownloadEvent} (hg : Undisturbed d e) (hs : d.step e = some d') : Downloading content d' := by
  obtain ⟨g, hlog⟩ := h.server.ofLog
  cases e with
  | server e =>
      simp only [Download.step] at hs
      split_ifs at hs with harrives
      obtain ⟨server, hstep, rfl⟩ := Option.map_eq_some_iff.mp hs
      refine ⟨inLockStep_step h.server hg hstep, fun g' hlog' => ?_, h.holds, h.acks⟩
      obtain ⟨new, hnew, hacked⟩ := readStep_log hstep
      have hlog'' : Groups.ofLog content (d.server.log ++ new) = some g' := by
        rw [← hnew]
        exact hlog'
      refine (h.synced g hlog).append hk h.acks hlog (fun b hb => ?_) hlog''
      obtain ⟨packet, rfl, rfl⟩ := hacked b hb
      exact harrives.2
  | data block data =>
      simp only [Download.step] at hs
      split_ifs at hs with hsent
      cases hs
      obtain ⟨-, hinside, hblocks⟩ := Groups.spec_of_ofLog hlog
      obtain ⟨i, hi, hblock⟩ := (hblocks _).mp hsent
      cases hblock
      obtain ⟨hholds, hsync, hle⟩ := h.holds.receive hk (h.synced g hlog) hinside hi
      refine ⟨h.server, fun g' hlog' => ?_, hholds, h.acks.mono hle⟩
      cases hlog.symm.trans hlog'
      exact hsync
  | ack i =>
      simp only [Download.step] at hs
      split_ifs at hs with hi
      cases hs
      refine ⟨h.server, h.synced, h.holds, ?_⟩
      intro b hb
      rcases List.mem_append.mp hb with hb | hb
      · exact h.acks b hb
      · rw [List.mem_singleton.mp hb]
        exact ⟨i, hi.1, hi.2, rfl⟩

theorem downloading_of_reachable {mode : Mode} {bytes : Bytes}
    (hk : (FileStream.stream mode bytes).length / tftpMaxDataLen + 1 < 65536)
    (h : (download mode bytes).ReachableUnder Undisturbed d) :
    Downloading (FileStream.stream mode bytes) d := by
  apply h.invariant
  · rintro d rfl
    exact downloading_start mode bytes
  · intro d e d' hi hg hs
    exact downloading_step hk hi hg hs

end Step

/-! ## Every run -/

theorem netasciiToUnix_unixToNetascii (x : Bytes) : netasciiToUnix (unixToNetascii x) = crlfToLf x := by
  obtain ⟨ts, hnetascii, hunix⟩ := exists_tokens x
  rw [hnetascii, netasciiToUnix_tokens, hunix]

/-- **A download is in step.** Whatever the network loses, repeats and reorders, the client has the first
blocks of the content and nothing else; the server has begun no more than one block that the client has
not got, and has seen no acknowledgement of it; and a client that is done has the whole content, which in
netascii mode decodes to the file with every CR LF replaced by LF. -/
theorem download_in_step (mode : Mode) (bytes : Bytes)
    (hk : (FileStream.stream mode bytes).length / tftpMaxDataLen + 1 < 65536) (d : Download)
    (h : (download mode bytes).ReachableUnder Undisturbed d) :
    d.client.stored = chunksUpTo tftpMaxDataLen (FileStream.stream mode bytes) d.client.count ∧
      (∃ g, Groups.ofLog (FileStream.stream mode bytes) d.server.log = some g ∧
        d.client.count ≤ g.begun ∧ g.begun ≤ d.client.count + 1 ∧
        (g.acked = true → d.client.count = g.begun)) ∧
      (d.client.done = true → d.client.stored = FileStream.stream mode bytes ∧
        (mode = .netascii → netasciiToUnix d.client.stored = crlfToLf bytes)) := by
  have hi := downloading_of_reachable hk h
  obtain ⟨g, hlog⟩ := hi.server.ofLog
  have hsync := hi.synced g hlog
  refine ⟨hi.holds.stored, ⟨g, hlog, hsync.behind, hsync.ahead, hsync.acked⟩, fun hdone => ?_⟩
  have hall : d.client.stored = FileStream.stream mode bytes := by
    have hlast := chunk_last tftpMaxDataLen (FileStream.stream mode bytes) (by decide)
    rw [hi.holds.stored, hi.holds.done.mp hdone, chunksUpTo_of_short]
    rw [hlast]
    exact Nat.mod_lt _ (by decide)
  refine ⟨hall, ?_⟩
  rintro rfl
  rw [hall]
  exact netasciiToUnix_unixToNetascii bytes

/-- A file of 600 bytes whose first block is sent twice, arrives twice and is acknowledged twice. -/
def fetch600 : List DownloadEvent :=
  [.server .timeout, .data 1 (List.replicate 512 0x61), .data 1 (List.replicate 512 0x61), .ack 1, .ack 1,
    .server (.received (ackPacket 1)), .server (.received (ackPacket 1)),
    .data 2 (List.replicate 88 0x61)]

/-- The client is done before the server knows. -/
theorem download_in_step_600 :
    ∃ d, (download .octet (List.replicate 600 0x61)).run (.start .octet (List.replicate 600 0x61)) fetch600 =
        some d ∧
      d.server.waiting = true ∧ d.client.done = true ∧ d.client.stored = List.replicate 600 0x61 := by
  have hrun : ((download .octet (List.replicate 600 0x61)).run
      (.start .octet (List.replicate 600 0x61)) fetch600).map
        (fun d => (d.server.waiting, d.client.done)) = some (true, true) := by
    decide +kernel
  obtain ⟨d, hs, hflags⟩ := Option.map_eq_some_iff.mp hrun
  obtain ⟨hw, hdone⟩ := Prod.mk.inj hflags
  exact ⟨d, hs, hw, hdone, ((download_in_step .octet (List.replicate 600 0x61) (by decide +kernel) d
    (.run (.init rfl) (by decide +kernel) hs)).2.2 hdone).1⟩

section Finish

variable {mode : Mode} {bytes : Bytes} {d : Download}

theorem readStep_ack {s : ReadTransfer} (hw : s.waiting = true) :
    readStep s (.received (ackPacket s.block)) = some (ReadTransfer.loopTop
      { s with
        timeouts := 0
        log := s.log ++ [.acked (ackPacket s.block).getBlock]
        block := s.block + 1 }) := by
  obtain ⟨hop, hblock⟩ := ackPacket_spec s.block
  unfold readStep
  rw [if_pos hw]
  simp only [hop, hblock, ne_eq, not_true_eq_false, if_false]

/-- The client can always get the block the server has outstanding. -/
theorem exists_receive (hk : (FileStream.stream mode bytes).length / tftpMaxDataLen + 1 < 65536)
    (h : (download mode bytes).ReachableUnder Undisturbed d) {i : Nat}
    (hout : Outstanding (FileStream.stream mode bytes) i d.server) :
    ∃ es d', (∀ e ∈ es, e.Delivers) ∧ (download mode bytes).run d es = some d' ∧
      (download mode bytes).Along Undisturbed d es ∧
      d'.server = d.server ∧ d'.client.count = i + 1 ∧
      Groups.number (i + 1) ∈ d'.acks := by
  have hi := downloading_of_reachable hk h
  have hsync := hi.synced _ hout.log
  have hspec := Groups.spec_of_ofLog hout.log
  have hget : ∃ es d', (∀ e ∈ es, e.Delivers) ∧ (download mode bytes).run d es = some d' ∧
      (download mode bytes).Along Undisturbed d es ∧ d'.server = d.server ∧
      d'.client.count = i + 1 := by
    by_cases hhas : d.client.count = i + 1
    · exact ⟨[], d, List.forall_mem_nil _, rfl, trivial, rfl, hhas⟩
    · have hcount : d.client.count = i := by
        have hbehind := hsync.behind
        have hahead := hsync.ahead
        dsimp only at hbehind hahead
        omega
      have hmore : d.client.done = false := by
        rw [Bool.eq_false_iff, Ne, hi.holds.done, hcount]
        have hinside := hspec.2.1
        dsimp only at hinside
        omega
      have hsent : (Groups.number (i + 1), chunk tftpMaxDataLen (FileStream.stream mode bytes) i) ∈
          sentBlocks d.server.log := (hspec.2.2 _).mpr ⟨i, Nat.lt_succ_self i, rfl⟩
      refine ⟨[.data (Groups.number (i + 1)) (chunk tftpMaxDataLen (FileStream.stream mode bytes) i)],
        ⟨d.server, d.client.receive (Groups.number (i + 1))
          (chunk tftpMaxDataLen (FileStream.stream mode bytes) i), d.acks⟩,
        List.forall_mem_singleton.mpr trivial, ?_, ?_, rfl, ?_⟩
      · show ((if _ then some _ else none : Option Download).bind fun s => some s) = _
        rw [if_pos hsent]
        rfl
      · exact ⟨trivial, fun _ _ => trivial⟩
      · show (d.client.receive _ _).count = i + 1
        unfold Fetcher.receive
        rw [if_pos ⟨hmore, by rw [hcount]⟩]
        show d.client.count + 1 = _
        rw [hcount]
  obtain ⟨es, d₁, hdelivers, hs, hG, hserver, hcount⟩ := hget
  refine ⟨es ++ [.ack (i + 1)], { d₁ with acks := d₁.acks ++ [Groups.number (i + 1)] }, ?_, ?_, ?_, hserver,
    hcount, by simp⟩
  · rw [List.forall_mem_append, List.forall_mem_singleton]
    exact ⟨hdelivers, trivial⟩
  · rw [Machine.run_append, hs]
    show ((if _ then some _ else none : Option Download).bind fun s => some s) = _
    rw [if_pos ⟨Nat.succ_pos i, by rw [hcount]⟩]
    rfl
  · rw [Machine.along_append hs]
    exact ⟨hG, trivial, fun _ _ => trivial⟩

/-- A full block leaves the loop going, and the block at the end of the content ends it. -/
theorem Outstanding.next_begins {content : Bytes} {i : Nat} {s : ReadTransfer}
    (h : Outstanding content i s) (hi : i ≤ content.length / tftpMaxDataLen) :
    ((chunk tftpMaxDataLen content (i + 1)).length = 0 ∧ (!s.maxData) = true) ↔
      i = content.length / tftpMaxDataLen := by
  have hmax : s.maxData = decide ((chunk tftpMaxDataLen content i).length = tftpMaxDataLen) := by
    rw [h.maxData, h.data]
  rcases Nat.lt_or_eq_of_le hi with hlt | rfl
  · rw [hmax, chunk_full hlt]
    simp [Nat.ne_of_lt hlt]
  · have hlast := chunk_last tftpMaxDataLen content (by decide)
    have hmod : content.length % tftpMaxDataLen < tftpMaxDataLen := Nat.mod_lt _ (by decide)
    rw [hmax, hlast]
    refine iff_of_true ⟨?_, by simpa using Nat.ne_of_lt hmod⟩ rfl
    rw [chunk, drop_eq_nil_of_chunk_short (by rw [hlast]; exact hmod)]
    rfl

/-- From one block to the next, or to the end. -/
theorem exists_advance (hk : (FileStream.stream mode bytes).length / tftpMaxDataLen + 1 < 65536)
    (h : (download mode bytes).ReachableUnder Undisturbed d) (hw : d.server.waiting = true) {i : Nat}
    (hout : Outstanding (FileStream.stream mode bytes) i d.server) :
    ∃ es d', (∀ e ∈ es, e.Delivers) ∧ (download mode bytes).run d es = some d' ∧
      (download mode bytes).Along Undisturbed d es ∧ d'.client.count = i + 1 ∧
      if i = (FileStream.stream mode bytes).length / tftpMaxDataLen then d'.server.waiting = false ∧
        Groups.ofLog (FileStream.stream mode bytes) d'.server.log = some ⟨i + 1, true⟩
      else d'.server.waiting = true ∧ Outstanding (FileStream.stream mode bytes) (i + 1) d'.server := by
  obtain ⟨es, d₁, hdelivers, hs, hG, hserver, hcount, hack⟩ := exists_receive hk h hout
  rw [← hserver] at hw hout
  have hinside := (Groups.spec_of_ofLog hout.log).2.1
  dsimp only at hinside
  have hnext := hout.next_begins (by omega)
  obtain ⟨server, hstep, hadv⟩ : ∃ server : ReadTransfer,
      readStep d₁.server (.received (ackPacket d₁.server.block)) = some server.loopTop ∧
        Advancing (FileStream.stream mode bytes) (i + 1) server ∧ server.maxData = d₁.server.maxData :=
    ⟨_, readStep_ack hw, hout.acked (ackPacket_spec d₁.server.block).2, rfl⟩
  refine ⟨es ++ [.server (.received (ackPacket d₁.server.block))],
    ⟨server.loopTop, d₁.client, d₁.acks⟩, ?_, ?_, ?_, hcount, ?_⟩
  · rw [List.forall_mem_append, List.forall_mem_singleton]
    exact ⟨hdelivers, _, rfl⟩
  · rw [Machine.run_append, hs]
    show ((if _ then _ else none : Option Download).bind fun s => some s) = _
    rw [if_pos ⟨(ackPacket_spec _).1, by rw [(ackPacket_spec _).2, hout.block]; exact hack⟩, hstep]
    rfl
  · rw [Machine.along_append hs]
    have hquiet : Undisturbed d₁ (.server (.received (ackPacket d₁.server.block))) :=
      fun hint => WaitEvent.noConfusion hint
    exact ⟨hG, hquiet, fun _ _ => trivial⟩
  · rw [← hadv.2] at hnext
    split_ifs with hlast
    · obtain ⟨hend, hlog⟩ := loopTop_ends hadv.1 (hnext.mpr hlast)
      exact ⟨hend, (congrArg _ hlog).trans hadv.1.log⟩
    · obtain ⟨hw', hout', -⟩ := loopTop_sends hadv.1 (mt hnext.mp hlast)
      exact ⟨hw', hout'⟩

/-- **A download can always be completed** while the server waits: from any state of it there are steps, none of
them a timeout, an interruption or an error, after which the client has everything, and the server has left
its loop with every block begun and acknowledged. -/
theorem download_can_finish (mode : Mode) (bytes : Bytes)
    (hk : (FileStream.stream mode bytes).length / tftpMaxDataLen + 1 < 65536) (d : Download)
    (h : (download mode bytes).ReachableUnder Undisturbed d) (hw : d.server.waiting = true) :
    ∃ es d', (∀ e ∈ es, e.Delivers) ∧ (download mode bytes).run d es = some d' ∧
      (download mode bytes).Along Undisturbed d es ∧ d'.server.waiting = false ∧
      Groups.ofLog (FileStream.stream mode bytes) d'.server.log =
        some ⟨(FileStream.stream mode bytes).length / tftpMaxDataLen + 1, true⟩ ∧
      d'.client.stored = FileStream.stream mode bytes ∧ d'.client.done = true := by
  have hfrom : ∀ (k : Nat) (d : Download) (i : Nat),
      (download mode bytes).ReachableUnder Undisturbed d → d.server.waiting = true →
      Outstanding (FileStream.stream mode bytes) i d.server →
      (FileStream.stream mode bytes).length / tftpMaxDataLen = i + k →
      ∃ es d', (∀ e ∈ es, e.Delivers) ∧ (download mode bytes).run d es = some d' ∧
        (download mode bytes).Along Undisturbed d es ∧ d'.server.waiting = false ∧
        Groups.ofLog (FileStream.stream mode bytes) d'.server.log =
          some ⟨(FileStream.stream mode bytes).length / tftpMaxDataLen + 1, true⟩ ∧
        d'.client.count = (FileStream.stream mode bytes).length / tftpMaxDataLen + 1 := by
    -- on the number of blocks behind the one that is outstanding
    intro k
    induction k with
    | zero =>
        intro d i h hw hout hlast
        obtain ⟨es, d', hdelivers, hs, hG, hcount, hend⟩ := exists_advance hk h hw hout
        rw [Nat.add_zero] at hlast
        rw [if_pos hlast.symm] at hend
        rw [hlast]
        exact ⟨es, d', hdelivers, hs, hG, hend.1, hend.2, hcount⟩
    | succ k ih =>
        intro d i h hw hout hmore
        obtain ⟨es, d₁, hdelivers, hs, hG, hcount, hnext⟩ := exists_advance hk h hw hout
        rw [if_neg (by omega)] at hnext
        obtain ⟨es', d', hdelivers', hs', hG', hdone⟩ :=
          ih d₁ (i + 1) (h.run hG hs) hnext.1 hnext.2 (by omega)
        refine ⟨es ++ es', d', List.forall_mem_append.mpr ⟨hdelivers, hdelivers'⟩, ?_,
          (Machine.along_append hs).mpr ⟨hG, hG'⟩, hdone⟩
        rw [Machine.run_append, hs]
        exact hs'
  have hi := downloading_of_reachable hk h
  rcases hi.server with ⟨-, i, hout⟩ | ⟨hleft, -⟩
  · have hinside := (Groups.spec_of_ofLog hout.log).2.1
    dsimp only at hinside
    obtain ⟨es, d', hdelivers, hs, hG, hend, hlog, hcount⟩ :=
      hfrom _ d i h hw hout (Nat.add_sub_of_le (by omega)).symm
    have hi' := downloading_of_reachable hk (h.run hG hs)
    refine ⟨es, d', hdelivers, hs, hG, hend, hlog, ?_, hi'.holds.done.mpr hcount⟩
    have hlast := chunk_last tftpMaxDataLen (FileStream.stream mode bytes) (by decide)
    rw [hi'.holds.stored, hcount, chunksUpTo_of_short]
    rw [hlast]
    exact Nat.mod_lt _ (by decide)
  · rw [hw] at hleft
    cases hleft

end Finish

/-- Where the first block has been sent twice and nothing has arrived, the download can still be
completed: in two blocks, and the second is acknowledged. -/
theorem download_can_finish_600 :
    ∃ d, (download .octet (List.replicate 600 0x61)).run (.start .octet (List.replicate 600 0x61))
        [.server .timeout] = some d ∧
      ∃ es d', (∀ e ∈ es, e.Delivers) ∧ (download .octet (List.replicate 600 0x61)).run d es = some d' ∧
        (download .octet (List.replicate 600 0x61)).Along Undisturbed d es ∧
        d'.server.waiting = false ∧
        Groups.ofLog (FileStream.stream .octet (List.replicate 600 0x61)) d'.server.log = some ⟨2, true⟩ ∧
        d'.client.stored = FileStream.stream .octet (List.replicate 600 0x61) ∧ d'.client.done = true := by
  have hrun : ((download .octet (List.replicate 600 0x61)).run
      (.start .octet (List.replicate 600 0x61)) [.server .timeout]).map
        (fun d => d.server.waiting) = some true := by
    decide +kernel
  have hblocks : (FileStream.stream .octet (List.replicate 600 0x61)).length / tftpMaxDataLen + 1 = 2 := by
    decide +kernel
  obtain ⟨d, hs, hw⟩ := Option.map_eq_some_iff.mp hrun
  have hfinish := download_can_finish .octet (List.replicate 600 0x61) (by decide +kernel) d
    (.run (.init rfl) (by decide +kernel) hs) hw
  rw [hblocks] at hfinish
  exact ⟨d, hs, hfinish⟩

end ComputerNetworking.Tftp
