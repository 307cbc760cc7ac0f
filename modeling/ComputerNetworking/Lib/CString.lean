/-
# ComputerNetworking.Lib.CString -- the bounded string functions

`strnlen` and `strncpy` on the memory that starts at their argument. Like `cString` they have no result when
a scan leaves the memory it was given; but behind their bound they do not look.
-/
import ComputerNetworking.Lib.Bytes

namespace ComputerNetworking.Lib

/-- `strnlen`. -/
def strnlen : Bytes → Nat → Option Nat
  | _, 0 => some 0
  | [], _ + 1 => none
  | b :: mem, n + 1 => if b = 0 then some 0 else (strnlen mem n).map (· + 1)

/-- The bytes `strncpy` stores: behind a NUL there are only zeros. -/
def strncpy : Bytes → Nat → Option Bytes
  | _, 0 => some []
  | [], _ + 1 => none
  | b :: mem, n + 1 => if b = 0 then some (zeros (n + 1)) else (strncpy mem n).map (b :: ·)

section Scan

variable {s : Bytes}

/-- Up to its bound the scan counts what is no NUL. -/
theorem strnlen_append (hs : 0 ∉ s) (rest : Bytes) (n : Nat) :
    strnlen (s ++ rest) n = (strnlen rest (n - s.length)).map ((s.take n).length + ·) := by
  induction s generalizing n with
  | nil => simp
  | cons b s ih =>
      rw [List.mem_cons, not_or] at hs
      rcases n with _ | n
      · simp [strnlen]
      · simp only [List.cons_append, strnlen, if_neg (Ne.symm hs.1), ih hs.2, Option.map_map,
          List.length_cons, Nat.add_sub_add_right, List.take_succ_cons, Function.comp_def]
        congr 1
        funext k
        omega

/-- A string is as long as what is in front of its NUL, or as the bound. -/
theorem strnlen_append_nul (hs : 0 ∉ s) (rest : Bytes) (n : Nat) :
    strnlen (s ++ 0 :: rest) n = some (s.take n).length := by
  rw [strnlen_append hs]
  rcases n - s.length with _ | k
  · rfl
  · rfl

/-- In front of the NUL everything is copied. -/
theorem strncpy_append (hs : 0 ∉ s) (rest : Bytes) {n : Nat} (h : n ≤ s.length) :
    strncpy (s ++ rest) n = some (s.take n) := by
  induction s generalizing n with
  | nil =>
      rw [Nat.le_zero.mp h]
      simp [strncpy]
  | cons b s ih =>
      rw [List.mem_cons, not_or] at hs
      rcases n with _ | n
      · rfl
      · simp only [List.cons_append, strncpy, if_neg (Ne.symm hs.1), ih hs.2 (Nat.le_of_succ_le_succ h),
          Option.map_some, List.take_succ_cons]

/-- As many bytes as the scan has counted are copied as they are. -/
theorem strncpy_take (hs : 0 ∉ s) (rest : Bytes) (n : Nat) :
    strncpy (s ++ rest) (s.take n).length = some (s.take n) := by
  rw [strncpy_append hs rest (List.length_take_le' ..), List.length_take, ← List.take_take,
    List.take_length]

end Scan

end ComputerNetworking.Lib
