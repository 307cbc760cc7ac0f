/-
# ComputerNetworking.Tcp.Transfer -- `writen` and `readn`, call by call

`Client::writen` writes until the kernel has taken all bytes of its buffer, `Client::readn` reads until its
buffer is full. Each `write` and `read` gets as far as it gets, or is interrupted.

Here the buffer is at an address in memory. What `writen` hands over is a list of addresses, so that a byte
handed over twice is not mistaken for an equal one; what `readn` does to memory is there as a whole, so that
a byte stored elsewhere is not overlooked. `Writen`, the loop of the echo programs, and `Lib.readn`, the one
of the chat client, are what is left of the two without addresses.
-/
import ComputerNetworking.Lib.CallLoop
import ComputerNetworking.Lib.Memory
import ComputerNetworking.Lib.Segments
import ComputerNetworking.Tcp.Client

namespace ComputerNetworking.Tcp

open ComputerNetworking.Lib

/-! ## The two loops -/

/-- How `writen` returns. -/
inductive WritenReturn where
  /-- `return n` -/
  | length (n : Int)
  /-- `return n_written` -/
  | error (nWritten : Int)
  deriving DecidableEq

/-- `::write(sockfd, msgbuf + n, asked)` that returns `k`: the kernel takes the bytes from the first `k`
addresses. -/
def sysWrite (msgbuf : Nat) (handed : List Nat) (n asked k : Nat) : Option (List Nat) :=
  if k ≤ asked ∧ k ≤ ssizeMax then some (handed ++ List.range' (msgbuf + n) k) else none

/-- `Client::writen`. -/
def writen (msgbuf : Nat) : CallLoop (List Nat) WritenReturn where
  transfer := sysWrite msgbuf
  -- on EINTR it continues
  leaves
    | .failed => some (.error (-1))
    | _ => none
  finish n := .length (ssizeOf n)
  le_of_transfer h := by
    unfold sysWrite at h
    split_ifs at h with hk
    exact hk.1
  zero_of_leaves h := nomatch h

/-- Memory, and what is still to be read. -/
structure Receiving where
  mem : Memory
  stream : Bytes

/-- How `readn` ends. -/
inductive ReadnEnd where
  | returned
  /-- `exit(EXIT_FAILURE)` -/
  | exited
  deriving DecidableEq

/-- `::read(sockfd, msgbuf + n, asked)` that returns `k`. It returns 0 at the end of the stream only. -/
def sysRead (msgbuf : Nat) (s : Receiving) (n asked k : Nat) : Option Receiving :=
  if k ≤ asked ∧ k ≤ ssizeMax ∧ k ≤ s.stream.length ∧ (k = 0 → s.stream = []) then
    some ⟨s.mem.store ⟨msgbuf + n, s.stream.take k⟩, s.stream.drop k⟩
  else none

/-- `Client::readn`. -/
def readn (msgbuf : Nat) : CallLoop Receiving ReadnEnd where
  transfer := sysRead msgbuf
  leaves
    | .failed => some .exited
    -- EOF before finished
    | .count 0 => some .exited
    | _ => none
  finish _ := .returned
  le_of_transfer h := by
    unfold sysRead at h
    split_ifs at h with hk
    exact hk.1
  zero_of_leaves := by
    rintro (_ | k) why h
    · rfl
    · cases h

/-! ## What is to hold -/

/-- Behind these results of its calls `writen` has handed over as many bytes from the front of the buffer as
they say, each once and in order. It returns the length when these are all, and an error, if there is one,
before. Until then it waits for any result that the next call can have. -/
structure WritesFully (msgbuf len : Nat) (results : List CallResult)
    (s : CallLoop.State (List Nat) WritenReturn) : Prop where
  handed : s.io = List.range' msgbuf (transferred results)
  returns : ∀ ret, s.ended = some (.length ret) ↔ transferred results = len ∧ ret = ssizeOf len
  error : ∀ ret, s.ended = some (.error ret) ↔ ret = -1 ∧ .failed ∈ results
  cut : .failed ∈ results → transferred results < len
  waits : s.ended = none → transferred results < len ∧
    ∀ r : CallResult, r.bytes ≤ len - transferred results → r.bytes ≤ ssizeMax →
      ((writen msgbuf).step len s r).isSome

/-- Behind these results of its calls `readn` has stored as many bytes of the stream as they say, at the front
of the buffer and nowhere else, and read no other byte. It returns when the buffer is full, and exits with an
error or at the end of the stream, if there is one, before. Until then it waits for any result that the next
call can have. -/
structure ReadsFully (msgbuf len : Nat) (start : Receiving) (results : List CallResult)
    (s : CallLoop.State Receiving ReadnEnd) : Prop where
  filled : s.io.mem = start.mem.store ⟨msgbuf, start.stream.take (transferred results)⟩
  consumed : s.io.stream = start.stream.drop (transferred results)
  within : transferred results ≤ start.stream.length
  returns : s.ended = some .returned ↔ transferred results = len
  exits : s.ended = some .exited ↔ .failed ∈ results ∨ .count 0 ∈ results
  cut : .failed ∈ results ∨ .count 0 ∈ results → transferred results < len
  waits : s.ended = none → transferred results < len ∧
    ∀ r : CallResult, r.bytes ≤ len - transferred results → r.bytes ≤ ssizeMax →
      r.bytes ≤ s.io.stream.length → (r = .count 0 → s.io.stream = []) →
        ((readn msgbuf).step len s r).isSome

/-! ## One call -/

section Call

variable {msgbuf n asked k : Nat}

theorem sysWrite_eq_some {handed handed' : List Nat}
    (h : sysWrite msgbuf handed n asked k = some handed') :
    handed' = handed ++ List.range' (msgbuf + n) k := by
  unfold sysWrite at h
  split_ifs at h
  cases h
  rfl

/-- What has been read of a stream, and where it is. -/
structure Read (msgbuf : Nat) (start : Receiving) (n : Nat) (s : Receiving) : Prop where
  mem : s.mem = start.mem.store ⟨msgbuf, start.stream.take n⟩
  stream : s.stream = start.stream.drop n
  within : n ≤ start.stream.length

theorem Read.start (msgbuf : Nat) (s : Receiving) : Read msgbuf s 0 s where
  mem := (Memory.store_nil ..).symm
  stream := rfl
  within := Nat.zero_le _

theorem Read.call {start s s' : Receiving} (h : Read msgbuf start n s)
    (hcall : sysRead msgbuf s n asked k = some s') : Read msgbuf start (n + k) s' := by
  unfold sysRead at hcall
  split_ifs at hcall with hk
  cases hcall
  obtain ⟨-, -, hstream, -⟩ := hk
  have hlength : (start.stream.take n).length = n := List.length_take_of_le h.within
  rw [h.stream, List.length_drop] at hstream
  have hwithin := h.within
  refine ⟨?_, ?_, by omega⟩
  · have hadjacent := Memory.store_append start.mem msgbuf (start.stream.take n)
      ((start.stream.drop n).take k)
    rw [hlength, ← List.take_add] at hadjacent
    rw [h.mem, h.stream]
    exact hadjacent
  · rw [h.stream, List.drop_drop]

theorem writen_leaves {r : CallResult} {why : WritenReturn} :
    (writen msgbuf).leaves r = some why ↔ r = .failed ∧ why = .error (-1) := by
  constructor
  · intro h
    cases r with
    | failed =>
        cases h
        exact ⟨rfl, rfl⟩
    | _ => cases h
  · rintro ⟨rfl, rfl⟩
    rfl

theorem readn_leaves {r : CallResult} {why : ReadnEnd} :
    (readn msgbuf).leaves r = some why ↔ (r = .failed ∨ r = .count 0) ∧ why = .exited := by
  constructor
  · intro h
    rcases r with (_ | k) | _ | _
    · cases h
      exact ⟨.inr rfl, rfl⟩
    · cases h
    · cases h
    · cases h
      exact ⟨.inl rfl, rfl⟩
  · rintro ⟨rfl | rfl, rfl⟩
    · rfl
    · rfl

end Call

/-! ## All calls -/

section Calls

variable {msgbuf len : Nat} {results : List CallResult}

theorem writes_fully {s : CallLoop.State (List Nat) WritenReturn} (hlen : len < sizeRange)
    (h : (writen msgbuf).after len [] results = some s) : WritesFully msgbuf len results s := by
  have hreach := CallLoop.reachable_of_after h
  have hn := CallLoop.progress_of_after hlen h
  obtain ⟨hle, hlt⟩ := CallLoop.progress_le hlen hreach
  have hhanded : s.io = List.range' msgbuf s.n := by
    apply CallLoop.io_of_reachable hlen (I := fun n handed => handed = List.range' msgbuf n) rfl _ hreach
    rintro n _ k handed - rfl hcall
    rw [sysWrite_eq_some hcall]
    exact List.range'_append_1
  rw [hn] at hhanded
  refine ⟨hhanded, fun ret => ?_, fun ret => ?_, fun hfailed => ?_, fun hended => ?_⟩
  · rw [CallLoop.ended_eq_some_iff hlen h]
    constructor
    · rintro (⟨hall, hret⟩ | ⟨r, -, hleaves⟩)
      · exact ⟨hall, WritenReturn.length.inj hret⟩
      · cases (writen_leaves.mp hleaves).2
    · rintro ⟨hall, rfl⟩
      exact .inl ⟨hall, congrArg (fun n => WritenReturn.length (ssizeOf n)) rfl⟩
  · rw [CallLoop.ended_eq_some_iff hlen h]
    constructor
    · rintro (⟨-, hret⟩ | ⟨r, hr, hleaves⟩)
      · cases hret
      · obtain ⟨rfl, hret⟩ := writen_leaves.mp hleaves
        exact ⟨WritenReturn.error.inj hret, hr⟩
    · rintro ⟨rfl, hfailed⟩
      exact .inr ⟨.failed, hfailed, rfl⟩
  · exact CallLoop.lt_of_leaves hlen h hfailed (writen_leaves.mpr ⟨rfl, rfl⟩)
  · rw [← hn]
    refine ⟨hlt hended, fun r hasked hmax => ?_⟩
    apply CallLoop.step_isSome hlen hle hended
    rintro k rfl
    show (sysWrite msgbuf s.io s.n (len - s.n) k).isSome
    rw [sysWrite, if_pos ⟨hasked, hmax⟩]
    rfl

theorem reads_fully {start : Receiving} {s : CallLoop.State Receiving ReadnEnd} (hlen : len < sizeRange)
    (h : (readn msgbuf).after len start results = some s) : ReadsFully msgbuf len start results s := by
  have hreach := CallLoop.reachable_of_after h
  have hn := CallLoop.progress_of_after hlen h
  obtain ⟨hle, hlt⟩ := CallLoop.progress_le hlen hreach
  have hread : Read msgbuf start s.n s.io := by
    apply CallLoop.io_of_reachable hlen (Read.start msgbuf start) _ hreach
    intro n s k s' _ hs hcall
    exact hs.call hcall
  rw [hn] at hread
  refine ⟨hread.mem, hread.stream, hread.within, ?_, ?_, fun hleft => ?_, fun hended => ?_⟩
  · rw [CallLoop.ended_eq_some_iff hlen h]
    constructor
    · rintro (⟨hall, -⟩ | ⟨r, -, hleaves⟩)
      · exact hall
      · cases (readn_leaves.mp hleaves).2
    · intro hall
      exact .inl ⟨hall, rfl⟩
  · rw [CallLoop.ended_eq_some_iff hlen h]
    constructor
    · rintro (⟨-, hexited⟩ | ⟨r, hr, hleaves⟩)
      · cases hexited
      · obtain ⟨rfl | rfl, -⟩ := readn_leaves.mp hleaves
        · exact .inl hr
        · exact .inr hr
    · rintro (hr | hr)
      · exact .inr ⟨_, hr, rfl⟩
      · exact .inr ⟨_, hr, rfl⟩
  · rcases hleft with hr | hr
    · exact CallLoop.lt_of_leaves hlen h hr (readn_leaves.mpr ⟨.inl rfl, rfl⟩)
    · exact CallLoop.lt_of_leaves hlen h hr (readn_leaves.mpr ⟨.inr rfl, rfl⟩)
  · rw [← hn]
    refine ⟨hlt hended, fun r hasked hmax hstream hzero => ?_⟩
    apply CallLoop.step_isSome hlen hle hended
    rintro k rfl
    show (sysRead msgbuf s.io s.n (len - s.n) k).isSome
    have hend : k = 0 → s.io.stream = [] := fun hk => hzero (congrArg CallResult.count hk)
    rw [sysRead, if_pos ⟨hasked, hmax, hstream, hend⟩]
    rfl

end Calls

/-! ## The loops without addresses -/

section Loops

variable {mem : Memory} {msgbuf len : Nat}

/-- The loop of `writen` as `Writen` has it, over the bytes in the buffer. -/
def loopOf (mem : Memory) (msgbuf len : Nat) (s : CallLoop.State (List Nat) WritenReturn) :
    Option Writen :=
  if h : s.n < len then some ⟨mem.read msgbuf len, s.n, by rwa [Memory.length_read]⟩ else none

theorem loopOf_start :
    loopOf mem msgbuf len ((writen msgbuf).test len 0 []) = Writen.start (mem.read msgbuf len) := by
  unfold loopOf Writen.start
  simp only [Memory.length_read]
  rfl

/-- **`Writen` does the same**, and what it takes from its buffer is what the kernel takes from memory. -/
theorem loopOf_count {s s' : CallLoop.State (List Nat) WritenReturn} {k : Nat} (hlen : len < sizeRange)
    (hreach : ((writen msgbuf).machine len []).Reachable s)
    (hstep : (writen msgbuf).step len s (.count k) = some s') :
    ∃ w, loopOf mem msgbuf len s = some w ∧ loopOf mem msgbuf len s' = w.wrote k ∧
      s'.io.map mem = s.io.map mem ++ w.pending.take k := by
  obtain ⟨hle, hlt⟩ := CallLoop.progress_le hlen hreach
  obtain ⟨hgoing, hsum, handed, hcall, hcases⟩ := CallLoop.step_cases hlen hle hstep
  have hmore : s.n < (mem.read msgbuf len).length := by
    rw [Memory.length_read]
    exact hlt hgoing
  have hhanded : handed = s.io ++ List.range' (msgbuf + s.n) k := by
    rcases hcall with hcall | ⟨hzero, rfl⟩
    · exact sysWrite_eq_some hcall
    · have hk : k = 0 := hzero
      rw [hk, List.range'_zero, List.append_nil]
  rcases hcases with ⟨-, rfl⟩ | ⟨why, hleaves, -⟩
  · refine ⟨⟨mem.read msgbuf len, s.n, hmore⟩, dif_pos (hlt hgoing), ?_, ?_⟩
    · unfold loopOf Writen.wrote
      simp only [Memory.length_read]
      rfl
    · have htaken : ((mem.read msgbuf len).drop s.n).take k = mem.read (msgbuf + s.n) k :=
        Memory.take_drop_read mem msgbuf hsum
      show handed.map mem = s.io.map mem ++ ((mem.read msgbuf len).drop s.n).take k
      rw [hhanded, List.map_append, Memory.map_range', htaken]
  · cases (writen_leaves.mp hleaves).1

/-- **`Lib.readn` is the same** over a stream in pieces, whatever the calls return. -/
theorem readn_of_pieces {pieces : List Bytes} {results : List CallResult}
    {s : CallLoop.State Receiving ReadnEnd} (hlen : len < sizeRange) (h : ∀ c ∈ pieces, c ≠ [])
    (hafter : (readn msgbuf).after len ⟨mem, pieces.flatten⟩ results = some s)
    (hended : s.ended = some .returned) :
    ∃ bytes rest, Lib.readn pieces len = some (bytes, rest) ∧
      s.io.mem = mem.store ⟨msgbuf, bytes⟩ ∧ s.io.stream = rest.flatten := by
  have hreads := reads_fully hlen hafter
  have hall := hreads.returns.mp hended
  obtain ⟨rest, hread, hrest, -⟩ := readn_eq h (hall ▸ hreads.within)
  refine ⟨_, rest, hread, ?_, ?_⟩
  · rw [hreads.filled, hall]
  · rw [hreads.consumed, hall, hrest]

end Loops

/-! ## Full transfers -/

/-- **Full reads and writes over partial calls.** For every buffer, every length and all results of the
calls. -/
theorem full_transfers (msgbuf : Nat) (len : SizeT) (results : List CallResult) :
    (∀ s, (writen msgbuf).after len [] results = some s → WritesFully msgbuf len results s) ∧
    ∀ start s, (readn msgbuf).after len start results = some s →
      ReadsFully msgbuf len start results s :=
  ⟨fun _ h => writes_fully len.2 h, fun _ _ h => reads_fully len.2 h⟩

/-- Three bytes in two calls, with an interruption between them; the fourth byte of the stream is left. -/
theorem full_transfers_interrupted :
    (∃ s, (writen 7).after 3 [] [.count 1, .interrupted, .count 2] = some s ∧
      s.io = [7, 8, 9] ∧ s.ended = some (.length 3)) ∧
    ∃ s, (readn 7).after 3 ⟨fun _ => 0, ascii "abcd"⟩ [.count 1, .interrupted, .count 2] = some s ∧
      s.io.mem = Memory.store (fun _ => 0) ⟨7, ascii "abc"⟩ ∧ s.io.stream = ascii "d" ∧
        s.ended = some .returned := by
  have h := full_transfers 7 ⟨3, by decide⟩ [.count 1, .interrupted, .count 2]
  constructor
  · have hwrites := h.1 _ rfl
    exact ⟨_, rfl, hwrites.handed, (hwrites.returns 3).mpr ⟨rfl, rfl⟩⟩
  · have hruns : ((readn 7).after 3 ⟨fun _ => 0, ascii "abcd"⟩
        [.count 1, .interrupted, .count 2]).isSome = true := by decide
    obtain ⟨s, hs⟩ := Option.isSome_iff_exists.mp hruns
    have hreads := h.2 _ s hs
    exact ⟨s, hs, hreads.filled, hreads.consumed, hreads.returns.mpr rfl⟩

end ComputerNetworking.Tcp
