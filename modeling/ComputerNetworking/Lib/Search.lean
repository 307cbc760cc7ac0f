/-
# ComputerNetworking.Lib.Search -- where a search finds its pattern

`firstOccurrence` in terms of prefixes and infixes: it is the least position at which the pattern is a
prefix of the rest, and there is none exactly if the pattern is no infix. Separators of one byte, and of
two different ones, are found behind a text that does not contain them, whatever comes after.
-/
import ComputerNetworking.Lib.CxxString

namespace ComputerNetworking.Lib

variable {pat s a b : Bytes} {c : UInt8} {i k : Nat}

/-- The least position at which the pattern is a prefix of the rest. -/
theorem firstOccurrence_eq_some :
    firstOccurrence pat s = some i ↔
      i ≤ s.length ∧ pat <+: s.drop i ∧ ∀ j < i, ¬ pat <+: s.drop j := by
  induction s generalizing i with
  | nil =>
      unfold firstOccurrence
      split_ifs with hpre
      · rw [List.isPrefixOf_iff_prefix] at hpre
        constructor
        · intro h
          cases h
          exact ⟨Nat.le_refl 0, hpre, fun j hj => absurd hj (Nat.not_lt_zero j)⟩
        · rintro ⟨hi, -, -⟩
          rw [List.length_nil, Nat.le_zero] at hi
          rw [hi]
      · rw [List.isPrefixOf_iff_prefix] at hpre
        refine iff_of_false (by simp) ?_
        rintro ⟨-, hpre', -⟩
        rw [List.drop_nil] at hpre'
        exact hpre hpre'
  | cons c s ih =>
      unfold firstOccurrence
      split_ifs with hpre
      · rw [List.isPrefixOf_iff_prefix] at hpre
        constructor
        · intro h
          cases h
          exact ⟨Nat.zero_le _, hpre, fun j hj => absurd hj (Nat.not_lt_zero j)⟩
        · rintro ⟨-, -, hmin⟩
          rcases i with _ | i
          · rfl
          · exact absurd hpre (hmin 0 (Nat.succ_pos i))
      · rw [List.isPrefixOf_iff_prefix] at hpre
        rw [Option.map_eq_some_iff]
        constructor
        · rintro ⟨i, hi, rfl⟩
          obtain ⟨hle, hhere, hmin⟩ := ih.mp hi
          refine ⟨Nat.succ_le_succ hle, hhere, ?_⟩
          rintro (_ | j) hj
          · exact hpre
          · exact hmin j (by omega)
        · rintro ⟨hle, hhere, hmin⟩
          rcases i with _ | i
          · exact absurd hhere hpre
          · refine ⟨i, ih.mpr ⟨Nat.le_of_succ_le_succ hle, hhere, fun j hj => ?_⟩, rfl⟩
            exact hmin (j + 1) (by omega)

theorem firstOccurrence_eq_none : firstOccurrence pat s = none ↔ ¬ pat <:+: s := by
  induction s with
  | nil => simp [firstOccurrence, List.isPrefixOf_iff_prefix]
  | cons c s ih =>
      unfold firstOccurrence
      split_ifs with hpre
      · rw [List.isPrefixOf_iff_prefix] at hpre
        simp [hpre.isInfix]
      · rw [List.isPrefixOf_iff_prefix] at hpre
        rw [Option.map_eq_none_iff, ih, List.infix_cons_iff]
        simp [hpre]

/-- What ends with the pattern reaches behind its first occurrence. -/
theorem firstOccurrence_le_of_suffix (h : firstOccurrence pat s = some i) (hk : k ≤ s.length)
    (hsuffix : pat <:+ s.take k) : i + pat.length ≤ k := by
  obtain ⟨front, hfront⟩ := hsuffix
  have hlength := congrArg List.length hfront
  rw [List.length_append, List.length_take, Nat.min_eq_left hk] at hlength
  have hbegins : pat <+: s.drop front.length := by
    refine ⟨s.drop k, ?_⟩
    have hs : s = front ++ (pat ++ s.drop k) := by
      rw [← List.append_assoc, hfront, List.take_append_drop]
    conv_rhs => rw [hs, List.drop_left]
  have hmin := (firstOccurrence_eq_some.mp h).2.2
  have hle : i ≤ front.length := Nat.not_lt.mp fun hlt => hmin _ hlt hbegins
  omega

/-- Up to the end of its first occurrence a text ends with the pattern. -/
theorem suffix_of_firstOccurrence (h : firstOccurrence pat s = some i) :
    pat <:+ s.take (i + pat.length) := by
  obtain ⟨hle, hsplit⟩ := firstOccurrence_spec h
  refine ⟨s.take i, ?_⟩
  have hlength : (s.take i ++ pat).length = i + pat.length := by
    rw [List.length_append, List.length_take, Nat.min_eq_left (by omega)]
  conv_rhs => rw [hsplit, ← hlength, List.take_left]

/-! ## Separators -/

/-- A pattern is found behind a text without its first byte. -/
theorem firstOccurrence_cons (h : c ∉ a) :
    firstOccurrence (c :: pat) (a ++ (c :: pat ++ b)) = some a.length := by
  induction a with
  | nil => simp [firstOccurrence]
  | cons d a ih =>
      rw [List.mem_cons, not_or] at h
      rw [List.cons_append, firstOccurrence, ih h.2, if_neg (by simp [h.1])]
      rfl

theorem firstOccurrence_byte (h : c ∉ a) : firstOccurrence [c] (a ++ c :: b) = some a.length :=
  firstOccurrence_cons h

theorem firstOccurrence_byte_none (h : c ∉ s) : firstOccurrence [c] s = none := by
  rw [firstOccurrence_eq_none]
  intro hinside
  exact h (hinside.subset (List.mem_singleton_self c))

/-- A text either lacks a byte or is cut in two by it. -/
theorem notMem_or_cut (c : UInt8) (s : Bytes) :
    c ∉ s ∨ ∃ a b, s = a ++ c :: b ∧ c ∉ a := by
  by_cases h : c ∈ s
  · obtain ⟨a, b, hs, ha⟩ := List.eq_append_cons_of_mem h
    exact .inr ⟨a, b, hs, ha⟩
  · exact .inl h

/-- Or by the last one. -/
theorem notMem_or_cutLast (c : UInt8) (s : Bytes) :
    c ∉ s ∨ ∃ a b, s = a ++ c :: b ∧ c ∉ b := by
  rcases notMem_or_cut c s.reverse with h | ⟨b, a, hs, hb⟩
  · exact .inl fun hmem => h (List.mem_reverse.mpr hmem)
  · refine .inr ⟨a.reverse, b.reverse, ?_, fun hmem => hb (List.mem_reverse.mp hmem)⟩
    rw [← List.reverse_reverse s, hs]
    simp

/-- A pattern without the byte ends in front of it. -/
theorem prefix_of_prefix_append_cons (hc : c ∉ pat) (h : pat <+: a ++ c :: b) : pat <+: a := by
  rcases Nat.lt_or_ge a.length pat.length with hlt | hle
  · obtain ⟨rest, rfl⟩ := List.prefix_of_prefix_length_le (List.prefix_append a (c :: b)) h
      (Nat.le_of_lt hlt)
    rw [List.prefix_append_right_inj] at h
    rcases rest with _ | ⟨d, rest⟩
    · rw [List.append_nil] at hlt
      exact absurd hlt (Nat.lt_irrefl _)
    · rw [(List.cons_prefix_cons.mp h).1] at hc
      exact absurd (List.mem_append_right a List.mem_cons_self) hc
  · exact List.prefix_of_prefix_length_le h (List.prefix_append ..) hle

section Pair

variable {x y : UInt8}

/-- Two different bytes are found behind a text that does not contain them. -/
theorem firstOccurrence_pair (hxy : x ≠ y) (h : ¬ [x, y] <:+: a) :
    firstOccurrence [x, y] (a ++ x :: y :: b) = some a.length := by
  induction a with
  | nil => simp [firstOccurrence]
  | cons d a ih =>
      rw [List.infix_cons_iff, not_or] at h
      have hnot : ¬ [x, y] <+: d :: (a ++ x :: y :: b) := by
        intro hpre
        obtain ⟨hd, hpre⟩ := List.cons_prefix_cons.mp hpre
        rcases a with _ | ⟨e, a⟩
        · exact hxy (List.cons_prefix_cons.mp hpre).1.symm
        · refine h.1 (List.cons_prefix_cons.mpr ⟨hd, ?_⟩)
          exact List.cons_prefix_cons.mpr ⟨(List.cons_prefix_cons.mp hpre).1, List.nil_prefix⟩
      rw [List.cons_append, firstOccurrence, ih h.2, if_neg]
      · rfl
      · rw [List.isPrefixOf_iff_prefix]
        exact hnot

/-- Around a third byte no occurrence comes about. -/
theorem not_infix_append_cons (hx : c ≠ x) (hy : c ≠ y) (ha : ¬ [x, y] <:+: a)
    (hb : ¬ [x, y] <:+: b) : ¬ [x, y] <:+: a ++ c :: b := by
  induction a with
  | nil =>
      rw [List.nil_append, List.infix_cons_iff, not_or]
      exact ⟨fun hpre => hx (List.cons_prefix_cons.mp hpre).1.symm, hb⟩
  | cons d a ih =>
      rw [List.infix_cons_iff, not_or] at ha
      rw [List.cons_append, List.infix_cons_iff, not_or]
      refine ⟨fun hpre => ?_, ih ha.2⟩
      obtain ⟨hd, hpre⟩ := List.cons_prefix_cons.mp hpre
      rcases a with _ | ⟨e, a⟩
      · exact hy (List.cons_prefix_cons.mp hpre).1.symm
      · refine ha.1 (List.cons_prefix_cons.mpr ⟨hd, ?_⟩)
        exact List.cons_prefix_cons.mpr ⟨(List.cons_prefix_cons.mp hpre).1, List.nil_prefix⟩

end Pair

/-! ## The members of `std::string` on a text that is cut -/

section Members

variable {d s : Bytes} {n : Nat}

theorem find_byte (h : c ∉ a) : find (a ++ c :: b) [c] 0 = a.length := by
  rw [find_some (Nat.zero_le _) (firstOccurrence_byte h), Nat.zero_add]

theorem find_byte_none (h : c ∉ s) : find s [c] 0 = npos :=
  find_none (Nat.zero_le _) (firstOccurrence_byte_none h)

/-- The search goes on behind the cut. -/
theorem find_behind (h : c ∉ b) :
    find (a ++ c :: (b ++ c :: d)) [c] (a.length + 1) = a.length + 1 + b.length := by
  refine find_some (by simp) ?_
  rw [← List.drop_drop, List.drop_left]
  exact firstOccurrence_byte h

theorem find_behind_none (h : c ∉ b) : find (a ++ c :: b) [c] (a.length + 1) = npos := by
  refine find_none (by simp) ?_
  rw [← List.drop_drop, List.drop_left]
  exact firstOccurrence_byte_none h

theorem findLastOf_byte (h : c ∉ b) : findLastOf (a ++ c :: b) c = a.length := by
  have hindex : (a ++ c :: b).reverse.idxOf c = b.length := by
    rw [List.reverse_append, List.reverse_cons, List.append_assoc, List.idxOf_append_of_notMem]
    · simp
    · rwa [List.mem_reverse]
  rw [findLastOf, if_pos (by simp), hindex]
  simp only [List.length_append, List.length_cons]
  omega

/-- A text is cut at the last occurrence in one way. -/
theorem cutLast_inj {a' b' : Bytes} (hb : c ∉ b) (hb' : c ∉ b') (h : a ++ c :: b = a' ++ c :: b') :
    a = a' ∧ b = b' := by
  have hlength : a.length = a'.length := by rw [← findLastOf_byte hb, h, findLastOf_byte hb']
  obtain ⟨ha, hcons⟩ := List.append_inj h hlength
  exact ⟨ha, (List.cons.inj hcons).2⟩

/-- And at the first one. -/
theorem cut_inj {a' b' : Bytes} (ha : c ∉ a) (ha' : c ∉ a') (h : a ++ c :: b = a' ++ c :: b') :
    a = a' ∧ b = b' := by
  have hlength : a.length = a'.length := by rw [← find_byte ha, h, find_byte ha']
  obtain ⟨hfront, hcons⟩ := List.append_inj h hlength
  exact ⟨hfront, (List.cons.inj hcons).2⟩

theorem findLastOf_none (h : c ∉ s) : findLastOf s c = npos := if_neg h

theorem substr_left : substr (a ++ b) 0 a.length = .ok a := by
  rw [substr, if_pos (Nat.zero_le _), List.drop_zero, List.take_left]

theorem substr_all (h : s.length ≤ n) : substr s 0 n = .ok s := by
  rw [substr, if_pos (Nat.zero_le _), List.drop_zero, List.take_of_length_le h]

theorem substr_middle : substr (a ++ c :: (b ++ d)) (a.length + 1) b.length = .ok b := by
  rw [substr, if_pos (by simp), ← List.drop_drop, List.drop_left, List.drop_one, List.tail_cons,
    List.take_left]

theorem substr_right (h : b.length ≤ n) : substr (a ++ c :: b) (a.length + 1) n = .ok b := by
  rw [substr, if_pos (by simp), ← List.drop_drop, List.drop_left, List.drop_one, List.tail_cons,
    List.take_of_length_le h]

/-! ## Positions -/

/-- The length between two positions. -/
theorem sizeSub_between {k : Nat} (h : n + 1 + k < sizeRange) :
    sizeSub (sizeSub (n + 1 + k) n) 1 = k := by
  have hsub : sizeSub (n + 1 + k) n = 1 + k := by
    rw [sizeSub_of_le (by omega) h]
    omega
  rw [hsub, sizeSub_of_le (by omega) (by omega)]
  omega

/-- The length between a position and `npos` reaches behind the end. -/
theorem sizeSub_npos (h : n < npos) : sizeSub (sizeSub npos n) 1 = npos - n - 1 := by
  have hrange : npos < sizeRange := by decide
  have hsub : sizeSub npos n = npos - n := sizeSub_of_le (by omega) hrange
  rw [hsub, sizeSub_of_le (by omega) (by omega)]

/-- The length between a position and one in front of it wraps around. -/
theorem sizeSub_wrap {k : Nat} (hkn : k < n) (hn : n < sizeRange) :
    sizeSub (sizeSub k n) 1 = k + sizeRange - n - 1 := by
  have hsub : sizeSub k n = k + sizeRange - n := Nat.mod_eq_of_lt (by omega)
  rw [hsub, sizeSub_of_le (by omega) (by omega)]

end Members

end ComputerNetworking.Lib
