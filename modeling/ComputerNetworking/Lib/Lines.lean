/-
# ComputerNetworking.Lib.Lines -- text up to its line ends

A line is taken off the front up to a bound or a separator, whichever comes first, as `fgets` does. What is
up to the last separator is `throughLast`; what comes behind it without a separator does not matter.
-/
import Mathlib.Data.List.Basic
import Mathlib.Data.List.TakeWhile
import Mathlib.Tactic.Common

namespace ComputerNetworking.Lib

variable {α : Type*} {c : α} {a b s : List α}

/-! ## One line -/

/-- One separator, and it is at the end. -/
def EndsLine (c : α) (s : List α) : Prop := ∃ u, s = u ++ [c] ∧ c ∉ u

theorem EndsLine.mem (h : EndsLine c s) : c ∈ s := by
  obtain ⟨u, rfl, -⟩ := h
  exact List.mem_append_right _ (List.mem_singleton_self c)

theorem EndsLine.getLast? (h : EndsLine c s) : s.getLast? = some c := by
  obtain ⟨u, rfl, -⟩ := h
  exact List.getLast?_concat

/-- Something without a separator in front changes nothing. -/
theorem EndsLine.append (ha : c ∉ a) (hb : EndsLine c b) : EndsLine c (a ++ b) := by
  obtain ⟨u, rfl, hu⟩ := hb
  refine ⟨a ++ u, (List.append_assoc ..).symm, ?_⟩
  rw [List.mem_append, not_or]
  exact ⟨ha, hu⟩

/-- In front of the end there is none. -/
theorem EndsLine.notMem_left (h : EndsLine c (a ++ b)) (hb : b ≠ []) : c ∉ a := by
  obtain ⟨u, hu, hnot⟩ := h
  have hdrop := congrArg List.dropLast hu
  rw [List.dropLast_append_of_ne_nil hb, List.dropLast_concat] at hdrop
  rw [← hdrop, List.mem_append, not_or] at hnot
  exact hnot.1

/-- Behind the separator there is nothing. -/
theorem EndsLine.right_eq_nil (h : EndsLine c (a ++ b)) (ha : c ∈ a) : b = [] := by
  by_contra hb
  exact h.notMem_left hb ha

/-- Without a piece in front that has no separator it is still one line. -/
theorem EndsLine.of_append (h : EndsLine c (a ++ b)) (ha : c ∉ a) : EndsLine c b := by
  rcases List.eq_nil_or_concat b with rfl | ⟨v, x, rfl⟩
  · rw [List.append_nil] at h
    exact absurd h.mem ha
  · obtain ⟨u, hu, hnot⟩ := h
    rw [List.concat_eq_append, ← List.append_assoc] at hu
    obtain ⟨hfront, hlast⟩ := List.append_inj' hu rfl
    rw [← hfront, List.mem_append, not_or] at hnot
    exact ⟨v, by rw [List.concat_eq_append, hlast], hnot.2⟩

section Bounded

variable [DecidableEq α]

/-- At most `n` elements from the front, up to and with the first `c`. -/
def takeLine (c : α) : Nat → List α → List α
  | 0, _ => []
  | _ + 1, [] => []
  | n + 1, x :: s => if x = c then [x] else x :: takeLine c n s

theorem takeLine_prefix (c : α) (n : Nat) (s : List α) : takeLine c n s <+: s := by
  induction n, s using takeLine.induct c with
  | case1 s => exact List.nil_prefix
  | case2 n => exact List.nil_prefix
  | case3 n s =>
      rw [takeLine, if_pos rfl]
      exact List.prefix_append [c] s
  | case4 n x s hne ih =>
      rw [takeLine, if_neg hne]
      exact List.cons_prefix_cons.mpr ⟨rfl, ih⟩

theorem takeLine_ne_nil {n : Nat} (hs : s ≠ []) : takeLine c (n + 1) s ≠ [] := by
  rcases s with _ | ⟨x, s⟩
  · exact absurd rfl hs
  · rw [takeLine]
    split_ifs
    · exact List.cons_ne_nil _ _
    · exact List.cons_ne_nil _ _

/-- A line has no separator in front of its end. -/
theorem notMem_or_endsLine_takeLine (c : α) (n : Nat) (s : List α) :
    c ∉ takeLine c n s ∨ EndsLine c (takeLine c n s) := by
  induction n, s using takeLine.induct c with
  | case1 s => exact .inl List.not_mem_nil
  | case2 n => exact .inl List.not_mem_nil
  | case3 n s =>
      rw [takeLine, if_pos rfl]
      exact .inr ⟨[], rfl, List.not_mem_nil⟩
  | case4 n x s hne ih =>
      have hx : c ∉ [x] := by
        rw [List.mem_singleton]
        exact Ne.symm hne
      rw [takeLine, if_neg hne]
      refine ih.imp (fun hnot => ?_) fun hend => EndsLine.append hx hend
      rw [List.mem_cons, not_or]
      exact ⟨Ne.symm hne, hnot⟩

end Bounded

/-! ## Whole lines -/

/-- Nothing, or something that ends with a separator. -/
def WholeLines (c : α) (s : List α) : Prop := s = [] ∨ ∃ u, s = u ++ [c]

theorem WholeLines.of_endsLine (h : EndsLine c b) (a : List α) : WholeLines c (a ++ b) := by
  obtain ⟨u, rfl, -⟩ := h
  exact .inr ⟨a ++ u, (List.append_assoc ..).symm⟩

section Through

variable [DecidableEq α]

/-- Everything up to and with the last `c`. -/
def throughLast (c : α) (s : List α) : List α := (s.reverse.dropWhile (· ≠ c)).reverse

/-- Of whole lines and something without a separator, the whole lines. -/
theorem throughLast_append (ha : WholeLines c a) (hb : c ∉ b) : throughLast c (a ++ b) = a := by
  have hall : ∀ x ∈ b.reverse, decide (x ≠ c) = true := by
    intro x hx
    rw [decide_eq_true_eq]
    rintro rfl
    exact hb (List.mem_reverse.mp hx)
  rw [throughLast, List.reverse_append, List.dropWhile_append_of_pos hall]
  rcases ha with rfl | ⟨u, rfl⟩
  · rfl
  · simp

/-- Whole lines in front of anything are kept. -/
theorem WholeLines.prefix_throughLast (ha : WholeLines c a) (b : List α) :
    a <+: throughLast c (a ++ b) := by
  rcases ha with rfl | ⟨u, rfl⟩
  · exact List.nil_prefix
  · rw [throughLast, List.reverse_append, List.dropWhile_append]
    split_ifs
    · simp
    · rw [List.reverse_append, List.reverse_reverse]
      exact List.prefix_append ..

end Through

end ComputerNetworking.Lib
