/-
# ComputerNetworking.Tcp.Client -- the loops around read and write

`Client::writen` writes until everything is written, `Client::readline` reads byte by byte until the line is
complete or the buffer is full. Between two system calls such a loop is a state.
-/
import ComputerNetworking.Lib.Bytes

namespace ComputerNetworking.Tcp

open ComputerNetworking.Lib

/-- `'\n'`. -/
def newline : UInt8 := 0x0A

/-! ## `writen` -/

/-- In the loop of `writen(buf, len)`, at `write`. -/
structure Writen where
  buf : Bytes
  n : Nat
  more : n < buf.length

namespace Writen

/-- `writen(buf, len)` up to its first `write`, or through it without one. -/
def start (buf : Bytes) : Option Writen :=
  if h : 0 < buf.length then some ⟨buf, 0, h⟩ else none

/-- `write` has returned `k`: on to the next one, or out of the loop. -/
def wrote (w : Writen) (k : Nat) : Option Writen :=
  if h : w.n + k < w.buf.length then some ⟨w.buf, w.n + k, h⟩ else none

/-- What is still to be written. -/
def pending (w : Writen) : Bytes := w.buf.drop w.n

/-- The same of a loop that may be over. -/
def rest (w? : Option Writen) : Bytes := (w?.map pending).getD []

theorem pending_ne_nil (w : Writen) : w.pending ≠ [] := by
  have hmore := w.more
  rw [pending, Ne, List.drop_eq_nil_iff]
  omega

theorem start_of_ne_nil {buf : Bytes} (h : buf ≠ []) :
    ∃ w, start buf = some w ∧ w.buf = buf ∧ w.pending = buf :=
  ⟨⟨buf, 0, List.length_pos_iff.mpr h⟩, dif_pos (List.length_pos_iff.mpr h), rfl, rfl⟩

/-- What is written is the front of what is still to be written. -/
theorem take_append_wrote (w : Writen) (k : Nat) : w.pending.take k ++ rest (w.wrote k) = w.pending := by
  unfold rest wrote
  split_ifs with h
  · show (w.buf.drop w.n).take k ++ w.buf.drop (w.n + k) = w.buf.drop w.n
    rw [← List.drop_drop, List.take_append_drop]
  · have hall : w.pending.length ≤ k := by
      rw [pending, List.length_drop]
      omega
    show w.pending.take k ++ [] = _
    rw [List.append_nil, List.take_of_length_le hall]

/-- The buffer stays the same. -/
theorem buf_of_wrote {w w' : Writen} {k : Nat} (h : w.wrote k = some w') : w'.buf = w.buf := by
  unfold wrote at h
  split_ifs at h
  cases h
  rfl

end Writen

/-! ## `readline` -/

/-- Behind a `read` of one byte the loop of `readline(buf, maxlen)` is over, with the line end or with one
byte left in the buffer. -/
def readlineDone (maxlen : Nat) (got : Bytes) : Bool :=
  got.getLast? = some newline ∨ maxlen - 1 ≤ got.length

end ComputerNetworking.Tcp
