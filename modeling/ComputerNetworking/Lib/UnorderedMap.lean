/-
# ComputerNetworking.Lib.UnorderedMap -- std::unordered_map

A `std::unordered_map` is its entries in the order in which iteration finds them, with no key twice.
`emplace` does nothing to a key that is there. The order is the implementation's; a rehash changes it.

`firstMin` is the loop that keeps an iterator on the smallest element so far.
-/
import Mathlib.Data.List.AList

namespace ComputerNetworking.Lib

/-- The entries, in iteration order. -/
abbrev UnorderedMap (κ ν : Type*) := AList fun _ : κ => ν

namespace UnorderedMap

variable {κ ν : Type*} [DecidableEq κ] {m : UnorderedMap κ ν} {k k' : κ} {v : ν}

/-- `size()`. -/
def size (m : UnorderedMap κ ν) : Nat := m.entries.length

/-- `emplace(k, v)`. -/
def emplace (m : UnorderedMap κ ν) (k : κ) (v : ν) : UnorderedMap κ ν :=
  if k ∈ m then m else m.insert k v

theorem emplace_of_mem (h : k ∈ m) : emplace m k v = m := if_pos h

theorem lookup_emplace_of_notMem (h : k ∉ m) : (emplace m k v).lookup k = some v := by
  rw [emplace, if_neg h, AList.lookup_insert]

theorem lookup_emplace_ne (h : k' ≠ k) : (emplace m k v).lookup k' = m.lookup k' := by
  unfold emplace
  split_ifs
  · rfl
  · exact AList.lookup_insert_ne h

/-- One entry for each key. -/
theorem size_eq_length_keys {κ ν : Type*} (m : UnorderedMap κ ν) : size m = m.keys.length :=
  (List.length_map ..).symm

theorem size_emplace_le : size (emplace m k v) ≤ size m + 1 := by
  unfold emplace
  split_ifs with h
  · exact Nat.le_succ _
  · rw [size, AList.entries_insert_of_notMem h]
    exact Nat.le_refl _

theorem size_erase (h : k ∈ m) : size (m.erase k) + 1 = size m := by
  rw [size_eq_length_keys, size_eq_length_keys, AList.keys_erase]
  have hmem : k ∈ m.keys := AList.mem_keys.mp h
  rw [List.length_erase_of_mem hmem]
  have hpositive := List.length_pos_of_mem hmem
  omega

theorem size_replace : size (m.replace k v) = size m := by
  rw [size_eq_length_keys, size_eq_length_keys, AList.keys_replace]

/-- Writing at the first entry, or behind it. -/
theorem kreplace_cons_eq (w : ν) (entries : List ((_ : κ) × ν)) :
    List.kreplace k v (⟨k, w⟩ :: entries) = ⟨k, v⟩ :: entries := by
  apply List.lookmap_cons_some
  exact if_pos rfl

theorem kreplace_cons_ne (h : k ≠ k') (w : ν) (entries : List ((_ : κ) × ν)) :
    List.kreplace k v (⟨k', w⟩ :: entries) = ⟨k', w⟩ :: List.kreplace k v entries := by
  apply List.lookmap_cons_none
  exact if_neg h

/-- Writing through an iterator. -/
theorem lookup_replace : (m.replace k v).lookup k = (m.lookup k).map fun _ => v := by
  obtain ⟨entries, hnodup⟩ := m
  show List.dlookup k (List.kreplace k v entries) = (List.dlookup k entries).map _
  clear hnodup
  induction entries with
  | nil => rfl
  | cons e entries ih =>
      obtain ⟨a, w⟩ := e
      by_cases h : k = a
      · rw [← h, kreplace_cons_eq, List.dlookup_cons_eq, List.dlookup_cons_eq]
        rfl
      · rw [kreplace_cons_ne h, List.dlookup_cons_ne _ _ h, List.dlookup_cons_ne _ _ h, ih]

theorem lookup_replace_ne (h : k' ≠ k) : (m.replace k v).lookup k' = m.lookup k' := by
  obtain ⟨entries, hnodup⟩ := m
  show List.dlookup k' (List.kreplace k v entries) = List.dlookup k' entries
  clear hnodup
  induction entries with
  | nil => rfl
  | cons e entries ih =>
      obtain ⟨a, w⟩ := e
      by_cases hk : k = a
      · rw [← hk, kreplace_cons_eq, List.dlookup_cons_ne _ _ h, List.dlookup_cons_ne _ _ h]
      · rw [kreplace_cons_ne hk]
        by_cases ha : k' = a
        · rw [ha, List.dlookup_cons_eq, List.dlookup_cons_eq]
        · rw [List.dlookup_cons_ne _ _ ha, List.dlookup_cons_ne _ _ ha, ih]

end UnorderedMap

/-! ## The smallest element -/

section FirstMin

variable {α : Type*} (f : α → Int)

/-- `oldest = begin()`, then one pass over all elements. -/
def firstMin : List α → Option α
  | [] => none
  | x :: xs => some (xs.foldl (fun oldest y => if f y < f oldest then y else oldest) x)

/-- None is smaller than `x`, and those in front of it are greater. -/
def IsFirstMin (x : α) (l : List α) : Prop :=
  ∃ pre post, l = pre ++ x :: post ∧ (∀ y ∈ pre, f x < f y) ∧ ∀ y ∈ post, f x ≤ f y

variable {f} {x : α} {l : List α}

theorem IsFirstMin.mem (h : IsFirstMin f x l) : x ∈ l := by
  obtain ⟨pre, post, rfl, -, -⟩ := h
  simp

theorem IsFirstMin.le (h : IsFirstMin f x l) : ∀ y ∈ l, f x ≤ f y := by
  obtain ⟨pre, post, rfl, hpre, hpost⟩ := h
  intro y hy
  rcases List.mem_append.mp hy with hy | hy
  · exact Int.le_of_lt (hpre y hy)
  · rcases List.mem_cons.mp hy with rfl | hy
    · exact Int.le_refl _
    · exact hpost y hy

/-- There is one. -/
theorem exists_isFirstMin (h : l ≠ []) : ∃ x, IsFirstMin f x l := by
  induction l with
  | nil => exact absurd rfl h
  | cons z l ih =>
      by_cases hl : l = []
      · exact ⟨z, [], [], by rw [hl]; rfl, by simp, by simp⟩
      · obtain ⟨x, hx⟩ := ih hl
        by_cases hz : f z ≤ f x
        · -- the new element is in front, so it wins a tie
          refine ⟨z, [], l, rfl, by simp, ?_⟩
          intro y hy
          exact Int.le_trans hz (hx.le y hy)
        · obtain ⟨pre, post, rfl, hpre, hpost⟩ := hx
          refine ⟨x, z :: pre, post, rfl, ?_, hpost⟩
          intro y hy
          rcases List.mem_cons.mp hy with rfl | hy
          · exact Int.not_le.mp hz
          · exact hpre y hy

/-- What the pass has found stays when nothing smaller comes. -/
theorem foldl_min_of_le (h : ∀ y ∈ l, f x ≤ f y) :
    l.foldl (fun oldest y => if f y < f oldest then y else oldest) x = x := by
  induction l with
  | nil => rfl
  | cons z l ih =>
      rw [List.foldl_cons, if_neg (Int.not_lt.mpr (h z (List.mem_cons_self ..)))]
      exact ih fun y hy => h y (List.mem_cons_of_mem _ hy)

/-- Coming from greater elements, the pass takes `x` and keeps it. -/
theorem foldl_min_of_lt {pre post : List α} {a : α} (ha : f x < f a) (hpre : ∀ y ∈ pre, f x < f y)
    (hpost : ∀ y ∈ post, f x ≤ f y) :
    (pre ++ x :: post).foldl (fun oldest y => if f y < f oldest then y else oldest) a = x := by
  induction pre generalizing a with
  | nil =>
      rw [List.nil_append, List.foldl_cons, if_pos ha]
      exact foldl_min_of_le hpost
  | cons z pre ih =>
      rw [List.cons_append, List.foldl_cons]
      apply ih
      · split_ifs
        · exact hpre z (List.mem_cons_self ..)
        · exact ha
      · exact fun y hy => hpre y (List.mem_cons_of_mem _ hy)

theorem firstMin_of_isFirstMin (h : IsFirstMin f x l) : firstMin f l = some x := by
  obtain ⟨pre, post, rfl, hpre, hpost⟩ := h
  cases pre with
  | nil => exact congrArg some (foldl_min_of_le hpost)
  | cons z pre =>
      have hz : f x < f z := hpre z (List.mem_cons_self ..)
      exact congrArg some
        (foldl_min_of_lt hz (fun y hy => hpre y (List.mem_cons_of_mem _ hy)) hpost)

/-- **The pass finds the first of the smallest elements.** -/
theorem firstMin_eq_some_iff : firstMin f l = some x ↔ IsFirstMin f x l := by
  constructor
  · intro h
    have hne : l ≠ [] := by
      rintro rfl
      cases h
    obtain ⟨y, hy⟩ := exists_isFirstMin (f := f) hne
    rw [firstMin_of_isFirstMin hy] at h
    rwa [← Option.some.inj h]
  · exact firstMin_of_isFirstMin

end FirstMin

end ComputerNetworking.Lib
