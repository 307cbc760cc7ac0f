/-
# ComputerNetworking.Lib.Chunks -- a byte string in blocks of a fixed size

`chunk size s i` is the `i`-th block of `s`, counted from 0; the last blocks are short or empty.
Transfer protocols send block after block and end with the first one that is not full, so the facts
here are about prefixes that consist of whole blocks and about where the first short one is.
-/
import Mathlib.Data.List.Basic
import Mathlib.Tactic.Common

namespace ComputerNetworking.Lib

variable {α : Type*}

/-- The `i`-th block of `size` elements. -/
def chunk (size : Nat) (s : List α) (i : Nat) : List α := (s.drop (size * i)).take size

/-- The first `k` blocks, one behind the other. -/
def chunksUpTo (size : Nat) (s : List α) (k : Nat) : List α := s.take (size * k)

theorem chunk_length (size : Nat) (s : List α) (i : Nat) :
    (chunk size s i).length = min size (s.length - size * i) := by
  rw [chunk, List.length_take, List.length_drop]

theorem chunk_length_le (size : Nat) (s : List α) (i : Nat) : (chunk size s i).length ≤ size := by
  rw [chunk_length]
  exact Nat.min_le_left ..

theorem chunksUpTo_zero (size : Nat) (s : List α) : chunksUpTo size s 0 = [] := by
  rw [chunksUpTo, Nat.mul_zero, List.take_zero]

/-- One block more. -/
theorem chunksUpTo_succ (size : Nat) (s : List α) (k : Nat) :
    chunksUpTo size s (k + 1) = chunksUpTo size s k ++ chunk size s k := by
  rw [chunksUpTo, chunksUpTo, chunk, Nat.mul_succ, List.take_add]

/-- A full block lies inside. -/
theorem le_length_of_chunk_full {size : Nat} {s : List α} {i : Nat}
    (h : (chunk size s i).length = size) (hsize : 0 < size) : size * (i + 1) ≤ s.length := by
  rw [chunk_length] at h
  rw [Nat.mul_succ]
  omega

/-- Behind a short block there is nothing. -/
theorem length_le_of_chunk_short {size : Nat} {s : List α} {i : Nat}
    (h : (chunk size s i).length < size) : s.length ≤ size * (i + 1) := by
  rw [chunk_length] at h
  rw [Nat.mul_succ]
  omega

theorem drop_eq_nil_of_chunk_short {size : Nat} {s : List α} {i : Nat}
    (h : (chunk size s i).length < size) : s.drop (size * (i + 1)) = [] :=
  List.drop_eq_nil_of_le (length_le_of_chunk_short h)

/-- The blocks up to and including a short one are the whole string. -/
theorem chunksUpTo_of_short {size : Nat} {s : List α} {i : Nat}
    (h : (chunk size s i).length < size) : chunksUpTo size s (i + 1) = s := by
  rw [chunksUpTo, List.take_of_length_le (length_le_of_chunk_short h)]

/-- The blocks below `length / size` are full. -/
theorem chunk_full {size : Nat} {s : List α} {i : Nat} (h : i < s.length / size) :
    (chunk size s i).length = size := by
  have hle : size * (i + 1) ≤ s.length := by
    calc size * (i + 1) ≤ size * (s.length / size) := Nat.mul_le_mul_left _ h
      _ ≤ s.length := Nat.mul_div_le ..
  rw [Nat.mul_succ] at hle
  rw [chunk_length]
  omega

/-- The block at `length / size` holds the rest. -/
theorem chunk_last (size : Nat) (s : List α) (hsize : 0 < size) :
    (chunk size s (s.length / size)).length = s.length % size := by
  have hdiv := Nat.div_add_mod s.length size
  have hlt := Nat.mod_lt s.length hsize
  rw [chunk_length]
  omega

end ComputerNetworking.Lib
