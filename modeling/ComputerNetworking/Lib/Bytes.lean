/-
# ComputerNetworking.Lib.Bytes -- byte buffers, C strings and 16-bit words in memory

The programs modelled in this development exchange structs that are read and written as raw
memory. This module holds the three things that needs and nothing else: copying into a buffer
(`overwrite`, the effect of `memcpy`), reading a NUL-terminated string out of memory (`cString`,
the effect of building a `std::string` from a `const char*`), and the memory image of a 16-bit
word on a little-endian machine (`le16`, `readLe16`, `htons`).

`cString` is partial on purpose: a scan that meets no NUL runs past the memory it was given, and
that is not a string but undefined behaviour.
-/
import Mathlib.Data.List.Basic
import Mathlib.Tactic.Common

namespace ComputerNetworking.Lib

/-- Raw memory, lowest address first. -/
abbrev Bytes := List UInt8

/-- The bytes of a string literal. -/
def ascii (s : String) : Bytes := s.toList.map fun c => UInt8.ofNat c.toNat

/-! ## Copying into a buffer -/

section Overwrite

variable {α : Type*}

/-- The buffer after `memcpy(buf + off, src, src.length)`. -/
def overwrite (buf : List α) (off : Nat) (src : List α) : List α :=
  buf.take off ++ src ++ buf.drop (off + src.length)

theorem overwrite_length {buf : List α} {off : Nat} {src : List α}
    (h : off + src.length ≤ buf.length) : (overwrite buf off src).length = buf.length := by
  simp only [overwrite, List.length_append, List.length_take, List.length_drop]
  omega

/-- Writing right behind a prefix keeps the prefix and the part of the tail not written over. -/
theorem overwrite_append (pre post src : List α) :
    overwrite (pre ++ post) pre.length src = pre ++ src ++ post.drop src.length := by
  simp [overwrite, List.drop_append]

end Overwrite

/-- `n` bytes of zero-initialised memory. -/
def zeros (n : Nat) : Bytes := List.replicate n 0

@[simp] theorem zeros_length (n : Nat) : (zeros n).length = n := List.length_replicate

@[simp] theorem zeros_drop (n k : Nat) : (zeros n).drop k = zeros (n - k) := by
  simp [zeros]

/-! ## NUL-terminated strings -/

/-- The bytes up to the first NUL; `none` when the scan leaves the memory given. -/
def cString : Bytes → Option Bytes
  | [] => none
  | b :: rest => if b = 0 then some [] else (cString rest).map (b :: ·)

/-- A NUL-free prefix is read whole, and the scan goes on in what follows it. -/
theorem cString_append {s : Bytes} (hs : 0 ∉ s) (rest : Bytes) :
    cString (s ++ rest) = (cString rest).map (s ++ ·) := by
  induction s with
  | nil => simp
  | cons b s ih =>
      simp only [List.mem_cons, not_or] at hs
      simp only [List.cons_append, cString, if_neg (Ne.symm hs.1), ih hs.2, Option.map_map]
      rfl

theorem cString_append_nul {s : Bytes} (hs : 0 ∉ s) (rest : Bytes) :
    cString (s ++ 0 :: rest) = some s := by
  rw [cString_append hs]
  simp [cString]

/-- A string followed by zeroed memory ends where the zeros begin. -/
theorem cString_append_zeros {s : Bytes} (hs : 0 ∉ s) {n : Nat} (hn : 0 < n) :
    cString (s ++ zeros n) = some s := by
  obtain ⟨k, rfl⟩ : ∃ k, n = k + 1 := ⟨n - 1, by omega⟩
  exact cString_append_nul hs (zeros k)

/-- In front of a NUL, a scan gives the memory up to the first NUL. -/
theorem cString_append_cons_zero (s rest : Bytes) :
    cString (s ++ 0 :: rest) = some (s.takeWhile (· ≠ 0)) := by
  induction s with
  | nil => rfl
  | cons b s ih =>
      by_cases hb : b = 0
      · simp [cString, hb]
      · simp [cString, hb, ih]

/-! ## 16-bit words -/

/-- The two bytes a little-endian machine stores for `n`. -/
def le16 (n : UInt16) : Bytes := [UInt8.ofNat n.toNat, UInt8.ofNat (n.toNat / 256)]

/-- The word a little-endian machine loads from two bytes. -/
def readLe16 (b₀ b₁ : UInt8) : UInt16 := UInt16.ofNat (b₀.toNat + 256 * b₁.toNat)

/-- `htons` on a little-endian machine swaps the two bytes. -/
def htons (n : UInt16) : UInt16 := UInt16.ofNat (n.toNat % 256 * 256 + n.toNat / 256)

/-- `ntohs` is the same swap. -/
def ntohs (n : UInt16) : UInt16 := htons n

@[simp] theorem le16_length (n : UInt16) : (le16 n).length = 2 := rfl

@[simp] theorem readLe16_le16 (n : UInt16) :
    readLe16 (UInt8.ofNat n.toNat) (UInt8.ofNat (n.toNat / 256)) = n := by
  have hn : n.toNat < 65536 := n.toNat_lt
  have hlow : (UInt8.ofNat n.toNat).toNat = n.toNat % 256 := UInt8.toNat_ofNat'
  have hhigh : (UInt8.ofNat (n.toNat / 256)).toNat = n.toNat / 256 := by
    rw [UInt8.toNat_ofNat']
    omega
  rw [readLe16, hlow, hhigh, Nat.mod_add_div, UInt16.ofNat_toNat]

theorem le16_readLe16 (b₀ b₁ : UInt8) : le16 (readLe16 b₀ b₁) = [b₀, b₁] := by
  have h₀ : b₀.toNat < 256 := b₀.toNat_lt
  have h₁ : b₁.toNat < 256 := b₁.toNat_lt
  have hword : (readLe16 b₀ b₁).toNat = b₀.toNat + 256 * b₁.toNat := by
    rw [readLe16, UInt16.toNat_ofNat']
    omega
  have hlow : UInt8.ofNat (b₀.toNat + 256 * b₁.toNat) = b₀ := by
    apply UInt8.toNat_inj.mp
    rw [UInt8.toNat_ofNat']
    omega
  have hhigh : (b₀.toNat + 256 * b₁.toNat) / 256 = b₁.toNat := by omega
  rw [le16, hword, hlow, hhigh, UInt8.ofNat_toNat]

@[simp] theorem ntohs_htons (n : UInt16) : ntohs (htons n) = n := by
  have hn : n.toNat < 65536 := n.toNat_lt
  have hswap : (htons n).toNat = n.toNat % 256 * 256 + n.toNat / 256 := by
    rw [htons, UInt16.toNat_ofNat']
    omega
  have hlow : (htons n).toNat % 256 = n.toNat / 256 := by omega
  have hhigh : (htons n).toNat / 256 = n.toNat % 256 := by omega
  rw [ntohs, htons, hlow, hhigh, Nat.mul_comm, Nat.div_add_mod, UInt16.ofNat_toNat]

@[simp] theorem htons_ntohs (n : UInt16) : htons (ntohs n) = n := ntohs_htons n

/-- The two bytes of `n` on the wire, the higher one first. -/
def be16 (n : Nat) : Bytes := [UInt8.ofNat (n / 256), UInt8.ofNat n]

/-- A word converted with `htons` and stored is in network order. -/
theorem le16_htons {n : Nat} (h : n < 65536) : le16 (htons (UInt16.ofNat n)) = be16 n := by
  have hn : (UInt16.ofNat n).toNat = n := by
    rw [UInt16.toNat_ofNat']
    omega
  have hswap : (htons (UInt16.ofNat n)).toNat = n % 256 * 256 + n / 256 := by
    rw [htons, hn, UInt16.toNat_ofNat']
    omega
  have hhigh : (n % 256 * 256 + n / 256) / 256 = n % 256 := by omega
  have hlow : UInt8.ofNat (n % 256 * 256 + n / 256) = UInt8.ofNat (n / 256) := by
    apply UInt8.toNat_inj.mp
    rw [UInt8.toNat_ofNat', UInt8.toNat_ofNat']
    omega
  have hmod : UInt8.ofNat (n % 256) = UInt8.ofNat n := by
    apply UInt8.toNat_inj.mp
    rw [UInt8.toNat_ofNat', UInt8.toNat_ofNat']
    omega
  rw [le16, be16, hswap, hhigh, hlow, hmod]

/-! ## Computations that can fail -/

/-- A computation that returned went through its first part. -/
theorem bind_eq_ok {ε α β : Type} {x : Except ε α} {f : α → Except ε β} {b : β} :
    (x >>= f) = .ok b ↔ ∃ a, x = .ok a ∧ f a = .ok b := by
  cases x with
  | error e => simp [bind, Except.bind]
  | ok a => simp [bind, Except.bind]

theorem toOption_eq_some {ε α : Type} {x : Except ε α} {a : α} :
    x.toOption = some a ↔ x = .ok a := by
  cases x with
  | error e => simp [Except.toOption]
  | ok b => simp [Except.toOption]

theorem map_eq_ok {ε α β : Type} {x : Except ε α} {f : α → β} {b : β} :
    f <$> x = .ok b ↔ ∃ a, x = .ok a ∧ f a = b := by
  cases x with
  | error e => simp [Functor.map, Except.map]
  | ok a => simp [Functor.map, Except.map]

end ComputerNetworking.Lib
