/-
# ComputerNetworking.Lib.CxxString -- std::string with its positions

Positions in a `std::string` are of type `size_t`, `find` returns `npos`, the largest of them, when it
finds nothing, and arithmetic on positions is modulo 2^64: a position computed from `npos` without
asking is a small number. `sizeAdd` and `sizeSub` are that arithmetic.

`firstOccurrence` and `pieces` say what `find` computes in terms of the bytes alone.
-/
import ComputerNetworking.Lib.Bytes

namespace ComputerNetworking.Lib

/-! ## `size_t` -/

/-- How many values a `size_t` has, 2^64. -/
def sizeRange : Nat := 0x10000000000000000

/-- `std::string::npos`. -/
def npos : Nat := sizeRange - 1

/-- A `size_t`. -/
abbrev SizeT := { n : Nat // n < sizeRange }

/-- `SSIZE_MAX`. -/
def ssizeMax : Nat := 0x7FFFFFFFFFFFFFFF

/-- A `size_t` converted to `ssize_t`. -/
def ssizeOf (n : Nat) : Int := if n ≤ ssizeMax then n else n - sizeRange

/-- `a + b` on `size_t`. -/
def sizeAdd (a b : Nat) : Nat := (a + b) % sizeRange

/-- `a - b` on `size_t`. -/
def sizeSub (a b : Nat) : Nat := (a + sizeRange - b) % sizeRange

theorem sizeAdd_of_lt {a b : Nat} (h : a + b < sizeRange) : sizeAdd a b = a + b :=
  Nat.mod_eq_of_lt h

theorem sizeSub_of_le {a b : Nat} (hba : b ≤ a) (ha : a < sizeRange) : sizeSub a b = a - b := by
  unfold sizeSub
  rw [show a + sizeRange - b = a - b + sizeRange by omega, Nat.add_mod_right]
  exact Nat.mod_eq_of_lt (by omega)

/-- What lies two behind `npos`. -/
theorem sizeAdd_npos_two : sizeAdd npos 2 = 1 := rfl

/-- A `std::string`: its length is a position, and not `npos`. -/
abbrev CxxString := { s : Bytes // s.length < npos }

/-! ## The first occurrence -/

/-- Where a pattern occurs first. -/
def firstOccurrence (pat : Bytes) : Bytes → Option Nat
  | [] => if pat.isPrefixOf [] then some 0 else none
  | c :: s => if pat.isPrefixOf (c :: s) then some 0 else (firstOccurrence pat s).map (· + 1)

theorem firstOccurrence_spec {pat s : Bytes} {i : Nat} (h : firstOccurrence pat s = some i) :
    i + pat.length ≤ s.length ∧ s = s.take i ++ pat ++ s.drop (i + pat.length) := by
  induction s generalizing i with
  | nil =>
      unfold firstOccurrence at h
      split_ifs at h with hpre
      cases h
      have hnil : pat = [] := by simpa using hpre
      rw [hnil]
      exact ⟨Nat.le_refl 0, rfl⟩
  | cons c s ih =>
      unfold firstOccurrence at h
      split_ifs at h with hpre
      · cases h
        obtain ⟨rest, hrest⟩ := List.isPrefixOf_iff_prefix.mp hpre
        rw [← hrest]
        exact ⟨by simp, by simp⟩
      · obtain ⟨j, hj, rfl⟩ := Option.map_eq_some_iff.mp h
        obtain ⟨hle, hsplit⟩ := ih hj
        refine ⟨by rw [List.length_cons]; omega, ?_⟩
        rw [List.take_succ_cons, show j + 1 + pat.length = j + pat.length + 1 by omega,
          List.drop_succ_cons, List.cons_append, List.cons_append, ← hsplit]

/-- The pieces of a string between the occurrences of a separator: those that one ends, and the
rest. -/
def pieces (sep : Bytes) (hsep : 0 < sep.length) (s : Bytes) : List Bytes × Bytes :=
  match _h : firstOccurrence sep s with
  | none => ([], s)
  | some i =>
      let behind := pieces sep hsep (s.drop (i + sep.length))
      (s.take i :: behind.1, behind.2)
termination_by s.length
decreasing_by
  have hle := (firstOccurrence_spec _h).1
  rw [List.length_drop]
  omega

theorem pieces_none {sep s : Bytes} {hsep : 0 < sep.length} (h : firstOccurrence sep s = none) :
    pieces sep hsep s = ([], s) := by
  rw [pieces]
  split
  · rfl
  · rename_i i hi
    rw [h] at hi
    cases hi

theorem pieces_some {sep s : Bytes} {hsep : 0 < sep.length} {i : Nat}
    (h : firstOccurrence sep s = some i) :
    pieces sep hsep s = (s.take i :: (pieces sep hsep (s.drop (i + sep.length))).1,
      (pieces sep hsep (s.drop (i + sep.length))).2) := by
  rw [pieces]
  split
  · rename_i hi
    rw [h] at hi
    cases hi
  · rename_i j hj
    rw [h] at hj
    cases hj
    rfl

/-! ## The members of `std::string` -/

/-- What the standard library throws. -/
inductive StdError where
  | outOfRange
  | invalidArgument
  deriving DecidableEq, Repr

/-- `s.find(pat, pos)`. -/
def find (s pat : Bytes) (pos : Nat) : Nat :=
  if pos ≤ s.length then
    match firstOccurrence pat (s.drop pos) with
    | some i => pos + i
    | none => npos
  else npos

/-- `s.find_last_of(c)`. -/
def findLastOf (s : Bytes) (c : UInt8) : Nat :=
  if c ∈ s then s.length - 1 - s.reverse.idxOf c else npos

/-- `s.substr(pos, n)`. -/
def substr (s : Bytes) (pos n : Nat) : Except StdError Bytes :=
  if pos ≤ s.length then .ok ((s.drop pos).take n) else .error .outOfRange

/-- `s.substr(pos)`. -/
def substrFrom (s : Bytes) (pos : Nat) : Except StdError Bytes := substr s pos npos

section Find

variable {s pat : Bytes} {pos : Nat}

theorem find_some (hpos : pos ≤ s.length) {i : Nat}
    (h : firstOccurrence pat (s.drop pos) = some i) : find s pat pos = pos + i := by
  rw [find, if_pos hpos, h]

theorem find_none (hpos : pos ≤ s.length) (h : firstOccurrence pat (s.drop pos) = none) :
    find s pat pos = npos := by
  rw [find, if_pos hpos, h]

end Find

/-! ## `std::stoi` -/

/-- `isspace` in the C locale. -/
def isSpace (c : UInt8) : Bool := c = 0x20 ∨ (0x09 ≤ c ∧ c ≤ 0x0D)

def isDigit (c : UInt8) : Bool := 0x30 ≤ c ∧ c ≤ 0x39

/-- The value of a row of digits. -/
def digitsValue (digits : Bytes) : Nat := digits.foldl (fun v c => 10 * v + (c.toNat - 0x30)) 0

/-- `std::stoi`, of a 32-bit `int`. -/
def stoi (s : Bytes) : Except StdError Int :=
  let signed := s.dropWhile isSpace
  let negative := signed.head? = some 0x2D
  let digits :=
    (if negative ∨ signed.head? = some 0x2B then signed.tail else signed).takeWhile isDigit
  if digits = [] then .error .invalidArgument
  else
    let value : Int := if negative then -digitsValue digits else digitsValue digits
    if -0x80000000 ≤ value ∧ value < 0x80000000 then .ok value else .error .outOfRange

end ComputerNetworking.Lib
