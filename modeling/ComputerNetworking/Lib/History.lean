/-
# ComputerNetworking.Lib.History -- a value that is modified from time to time

The versions of a value, each with the time at which it came into being, in order. `current t` is the one
in force at time `t`. Whoever holds a copy of a value needs to know no more than this: where nothing
was modified between two times, the current version is the same.
-/
import Mathlib.Order.Lattice
import Mathlib.Tactic.Common

namespace ComputerNetworking.Lib

/-- Versions, oldest first. -/
structure History (τ α : Type*) [LinearOrder τ] where
  versions : List (τ × α)
  ordered : versions.Pairwise fun v w => v.1 ≤ w.1

namespace History

variable {τ α : Type*} [LinearOrder τ] (H : History τ α)

/-- The version in force at a time. -/
def current (t : τ) : Option (τ × α) := (H.versions.filter fun v => v.1 ≤ t).getLast?

/-- A version came into being after `a` and not after `b`. -/
def ModifiedIn (a b : τ) : Prop := ∃ v ∈ H.versions, a < v.1 ∧ v.1 ≤ b

instance (a b : τ) : Decidable (H.ModifiedIn a b) := by
  unfold ModifiedIn
  infer_instance

variable {H} {a b c t : τ} {v : τ × α}

/-- The current version is the latest there has been. -/
theorem current_spec (h : H.current t = some v) :
    v ∈ H.versions ∧ v.1 ≤ t ∧ ∀ w ∈ H.versions, w.1 ≤ t → w.1 ≤ v.1 := by
  obtain ⟨before, hsplit⟩ := List.getLast?_eq_some_iff.mp h
  have hmem : v ∈ H.versions.filter fun v => v.1 ≤ t := by
    rw [hsplit]
    simp
  obtain ⟨hin, hle⟩ := List.mem_filter.mp hmem
  refine ⟨hin, of_decide_eq_true hle, ?_⟩
  intro w hw hwt
  have hlater : w ∈ before ++ [v] := by
    rw [← hsplit]
    exact List.mem_filter.mpr ⟨hw, decide_eq_true hwt⟩
  have hordered := H.ordered.filter fun v => v.1 ≤ t
  rw [hsplit, List.pairwise_append] at hordered
  rcases List.mem_append.mp hlater with hold | hlast
  · exact hordered.2.2 w hold v (List.mem_singleton.mpr rfl)
  · rw [List.mem_singleton.mp hlast]

theorem ModifiedIn.mono (h : H.ModifiedIn b c) (hab : a ≤ b) : H.ModifiedIn a c := by
  obtain ⟨v, hv, hbv, hvc⟩ := h
  exact ⟨v, hv, lt_of_le_of_lt hab hbv, hvc⟩

/-- **Without a modification the current version stays.** -/
theorem current_eq (hab : a ≤ b) (h : ¬ H.ModifiedIn a b) : H.current b = H.current a := by
  unfold current
  congr 1
  apply List.filter_congr
  intro v hv
  rw [decide_eq_decide]
  constructor
  · intro hvb
    by_contra hva
    exact h ⟨v, hv, not_le.mp hva, hvb⟩
  · intro hva
    exact le_trans hva hab

end History

end ComputerNetworking.Lib
