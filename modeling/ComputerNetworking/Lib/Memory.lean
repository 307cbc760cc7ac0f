/-
# ComputerNetworking.Lib.Memory -- stores into flat memory

Memory is a byte at every address. A program that copies without looking where its object ends writes to
what is behind it; so what it does to memory is the list of its stores, and where they go is a question by
itself, apart from what is read afterwards.
-/
import ComputerNetworking.Lib.Bytes

namespace ComputerNetworking.Lib

/-- A byte at every address. -/
abbrev Memory := Nat → UInt8

/-- Bytes and the address of the first. -/
structure Store where
  addr : Nat
  bytes : Bytes
  deriving DecidableEq

/-- It writes to addresses from `lo` on and below `hi` only. -/
def Store.Inside (s : Store) (lo hi : Nat) : Prop := lo ≤ s.addr ∧ s.addr + s.bytes.length ≤ hi

instance (s : Store) (lo hi : Nat) : Decidable (s.Inside lo hi) :=
  inferInstanceAs (Decidable (_ ∧ _))

namespace Memory

def store (mem : Memory) (s : Store) : Memory := fun a =>
  if h : s.addr ≤ a ∧ a - s.addr < s.bytes.length then s.bytes[a - s.addr] else mem a

/-- One store after the other. -/
def stores (mem : Memory) (ss : List Store) : Memory := ss.foldl store mem

/-- The `n` bytes from an address on. -/
def read (mem : Memory) (a n : Nat) : Bytes := (List.range n).map fun i => mem (a + i)

@[simp] theorem stores_append (mem : Memory) (ss ss' : List Store) :
    mem.stores (ss ++ ss') = (mem.stores ss).stores ss' := List.foldl_append

@[simp] theorem stores_cons (mem : Memory) (s : Store) (ss : List Store) :
    mem.stores (s :: ss) = (mem.store s).stores ss := rfl

@[simp] theorem stores_nil (mem : Memory) : mem.stores [] = mem := rfl

@[simp] theorem length_read (mem : Memory) (a n : Nat) : (mem.read a n).length = n := by
  simp [read]

/-- What has been stored is read, from any of its bytes on. -/
theorem read_store_drop (mem : Memory) (s : Store) {i n : Nat} (h : i + n ≤ s.bytes.length) :
    (mem.store s).read (s.addr + i) n = (s.bytes.drop i).take n := by
  apply List.ext_getElem
  · rw [length_read, List.length_take, List.length_drop]
    omega
  · intro k hk _
    rw [length_read] at hk
    have hoffset : s.addr + i + k - s.addr = i + k := by omega
    simp only [read, List.getElem_map, List.getElem_range, List.getElem_take, List.getElem_drop, store]
    rw [dif_pos ⟨by omega, by omega⟩]
    simp only [hoffset]

theorem read_store (mem : Memory) (s : Store) {n : Nat} (h : n ≤ s.bytes.length) :
    (mem.store s).read s.addr n = s.bytes.take n :=
  read_store_drop mem s (i := 0) (by omega)

/-- Elsewhere nothing changes. -/
theorem read_store_apart (mem : Memory) (s : Store) {a n : Nat}
    (h : a + n ≤ s.addr ∨ s.addr + s.bytes.length ≤ a) : (mem.store s).read a n = mem.read a n := by
  refine List.map_congr_left fun i hi => ?_
  rw [List.mem_range] at hi
  exact dif_neg (by omega)

@[simp] theorem store_nil (mem : Memory) (a : Nat) : mem.store ⟨a, []⟩ = mem :=
  funext fun _ => dif_neg fun h => Nat.not_lt_zero _ h.2

/-- Two adjacent stores are one. -/
theorem store_append (mem : Memory) (a : Nat) (u v : Bytes) :
    (mem.store ⟨a, u⟩).store ⟨a + u.length, v⟩ = mem.store ⟨a, u ++ v⟩ := by
  funext b
  simp only [store, List.length_append]
  by_cases hbefore : a ≤ b ∧ b - a < u.length
  · rw [dif_neg (by omega), dif_pos hbefore, dif_pos (by omega), List.getElem_append_left hbefore.2]
  · by_cases hbehind : a + u.length ≤ b ∧ b - (a + u.length) < v.length
    · have hoffset : b - a - u.length = b - (a + u.length) := by omega
      rw [dif_pos hbehind, dif_pos (by omega), List.getElem_append_right (by omega)]
      simp only [hoffset]
    · rw [dif_neg hbehind, dif_neg hbefore, dif_neg (by omega)]

/-- Two adjacent reads are one. -/
theorem read_append (mem : Memory) (a n k : Nat) :
    mem.read a (n + k) = mem.read a n ++ mem.read (a + n) k := by
  simp only [read, List.range_add, List.map_append, List.map_map, Function.comp_def, Nat.add_assoc]

/-- A read in the middle of another. -/
theorem take_drop_read (mem : Memory) (a : Nat) {n k len : Nat} (h : n + k ≤ len) :
    ((mem.read a len).drop n).take k = mem.read (a + n) k := by
  obtain ⟨m, rfl⟩ := Nat.exists_eq_add_of_le h
  rw [read_append, read_append, List.append_assoc, List.drop_left' (length_read ..),
    List.take_left' (length_read ..)]

theorem map_range' (mem : Memory) (a n : Nat) : (List.range' a n).map mem = mem.read a n := by
  rw [List.range'_eq_map_range, List.map_map]
  rfl

end Memory

end ComputerNetworking.Lib
