/-
# ComputerNetworking.Lib.Decimal -- integers as decimal text

`std::to_string` of an `int`, and that `std::stoi` reads it back. Nothing but digits and a minus sign is
in such a text.
-/
import ComputerNetworking.Lib.CxxString
import Mathlib.Data.List.TakeWhile
import Mathlib.Data.Nat.Digits.Lemmas

namespace ComputerNetworking.Lib

/-- The decimal digits of a number. -/
def decimal (n : Nat) : Bytes :=
  if n = 0 then [0x30] else ((Nat.digits 10 n).map fun d => UInt8.ofNat (0x30 + d)).reverse

/-- `std::to_string(int)`. -/
def stdToString (n : Int) : Bytes :=
  if n < 0 then 0x2D :: decimal n.natAbs else decimal n.natAbs

/-- The values of an `int`. -/
def FitsInt (n : Int) : Prop := -0x80000000 ≤ n ∧ n < 0x80000000

theorem decimal_ne_nil (n : Nat) : decimal n ≠ [] := by
  unfold decimal
  split_ifs with h
  · exact List.cons_ne_nil _ _
  · have hdigits := (Nat.digits_ne_nil_iff_ne_zero (b := 10)).mpr h
    simpa using hdigits

theorem length_decimal_le {n k : Nat} (h : n < 10 ^ (k + 1)) : (decimal n).length ≤ k + 1 := by
  unfold decimal
  split_ifs
  · exact Nat.le_add_left ..
  · rw [List.length_reverse, List.length_map]
    exact (Nat.digits_length_le_iff (by decide) n).mpr h

/-- The byte of a digit. -/
theorem toNat_digit {d : Nat} (h : d < 10) : (UInt8.ofNat (0x30 + d)).toNat = 0x30 + d := by
  rw [UInt8.toNat_ofNat']
  omega

theorem isDigit_iff {c : UInt8} : isDigit c = true ↔ 0x30 ≤ c.toNat ∧ c.toNat ≤ 0x39 := by
  simp [isDigit, UInt8.le_iff_toNat_le]

theorem isDigit_of_mem_decimal {n : Nat} {c : UInt8} (h : c ∈ decimal n) : isDigit c = true := by
  unfold decimal at h
  split_ifs at h
  · rw [List.mem_singleton.mp h]
    decide
  · rw [List.mem_reverse, List.mem_map] at h
    obtain ⟨d, hd, rfl⟩ := h
    have hlt : d < 10 := Nat.digits_lt_base (by decide) hd
    rw [isDigit_iff, toNat_digit hlt]
    omega

theorem digitsValue_decimal (n : Nat) : digitsValue (decimal n) = n := by
  unfold decimal
  split_ifs with h
  · rw [h]
    rfl
  · rw [digitsValue, List.foldl_reverse, List.foldr_map]
    conv_rhs => rw [← Nat.ofDigits_digits 10 n, Nat.ofDigits_eq_foldr]
    refine List.foldr_ext _ _ _ fun d hd v => ?_
    have hlt : d < 10 := Nat.digits_lt_base (by decide) hd
    rw [toNat_digit hlt, Nat.cast_id]
    omega

/-- A text of digits is taken whole. -/
theorem takeWhile_decimal (n : Nat) : (decimal n).takeWhile isDigit = decimal n :=
  List.takeWhile_eq_self_iff.mpr fun _ hc => isDigit_of_mem_decimal hc

theorem not_isSpace_of_isDigit {c : UInt8} (h : isDigit c = true) : isSpace c = false := by
  have hle := isDigit_iff.mp h
  simp only [isSpace, UInt8.le_iff_toNat_le, ← UInt8.toNat_inj, decide_eq_false_iff_not]
  simp only [UInt8.reduceToNat]
  omega

theorem ne_of_isDigit {c d : UInt8} (h : isDigit c = true) (hd : isDigit d = false) : c ≠ d := by
  rintro rfl
  rw [h] at hd
  cases hd

/-- A text of digits is a number. -/
theorem stoi_digits {digits : Bytes} (hne : digits ≠ []) (hdigits : ∀ c ∈ digits, isDigit c = true)
    (hfits : FitsInt (digitsValue digits)) : stoi digits = .ok (digitsValue digits : Int) := by
  obtain ⟨c, cs, rfl⟩ := List.exists_cons_of_ne_nil hne
  have hc : isDigit c = true := hdigits c List.mem_cons_self
  have hskip : (c :: cs).dropWhile isSpace = c :: cs := by
    rw [List.dropWhile_cons_of_neg (by simp [not_isSpace_of_isDigit hc])]
  have hwhole : (c :: cs).takeWhile isDigit = c :: cs := List.takeWhile_eq_self_iff.mpr hdigits
  have hminus : c ≠ 0x2D := ne_of_isDigit hc (by decide)
  have hplus : c ≠ 0x2B := ne_of_isDigit hc (by decide)
  unfold stoi
  simp only [hskip, List.head?_cons, Option.some.injEq, hminus, hplus, or_self, if_false, hwhole,
    if_neg hne]
  exact if_pos hfits

/-- **`stoi` reads what `to_string` has printed.** -/
theorem stoi_stdToString {n : Int} (h : FitsInt n) : stoi (stdToString n) = .ok n := by
  have hvalue := digitsValue_decimal n.natAbs
  have hrange : -0x80000000 ≤ n ∧ n < 0x80000000 := h
  unfold stdToString
  split_ifs with hneg
  · have hskip : (0x2D :: decimal n.natAbs).dropWhile isSpace = 0x2D :: decimal n.natAbs := by
      rw [List.dropWhile_cons_of_neg (by decide)]
    unfold stoi
    simp only [hskip, List.head?_cons, true_or, List.tail_cons, takeWhile_decimal, hvalue,
      if_neg (decimal_ne_nil _), if_true]
    rw [show -(n.natAbs : Int) = n by omega, if_pos hrange]
  · have hnat : ((digitsValue (decimal n.natAbs) : Nat) : Int) = n := by
      rw [hvalue]
      omega
    have hread := stoi_digits (decimal_ne_nil n.natAbs) (fun c hc => isDigit_of_mem_decimal hc)
      (by rwa [hnat])
    rwa [hnat] at hread

/-- What `stoi` returns is an `int`. -/
theorem fitsInt_of_stoi {s : Bytes} {n : Int} (h : stoi s = .ok n) : FitsInt n := by
  unfold stoi at h
  simp only at h
  split_ifs at h <;> cases h
  all_goals assumption

/-- A byte that is no digit and no minus sign is not in such a text. -/
theorem notMem_stdToString {c : UInt8} (hdigit : isDigit c = false) (hminus : c ≠ 0x2D) (n : Int) :
    c ∉ stdToString n := by
  have hdecimal : c ∉ decimal n.natAbs := fun hmem => by
    rw [isDigit_of_mem_decimal hmem] at hdigit
    cases hdigit
  unfold stdToString
  split_ifs
  · rw [List.mem_cons, not_or]
    exact ⟨hminus, hdecimal⟩
  · exact hdecimal

end ComputerNetworking.Lib
