/-
# ComputerNetworking.Lib.Loop -- loops that need not end

A loop body takes the loop's state to the next one or ends the loop with a result. `after` runs a
number of rounds. That the loop ends is a statement, `Ends`, proved with a measure that falls in
every round; that it does not is proved with a set of states that is never left.
-/
import Mathlib.Tactic.Common

namespace ComputerNetworking.Lib

namespace Loop

variable {σ ρ : Type*} (body : σ → σ ⊕ ρ)

/-- Where the loop is after `n` rounds. -/
def after : Nat → σ ⊕ ρ → σ ⊕ ρ
  | 0, x => x
  | _ + 1, .inr r => .inr r
  | n + 1, .inl s => after n (body s)

/-- The loop ends with a result. -/
def Ends (x : σ ⊕ ρ) : Prop := ∃ n r, after body n x = .inr r

variable {body}

theorem after_succ (n : Nat) (x : σ ⊕ ρ) :
    after body (n + 1) x = after body 1 (after body n x) := by
  induction n generalizing x with
  | zero => rfl
  | succ n ih =>
      cases x with
      | inl s => exact ih (body s)
      | inr r => rfl

/-- One round behind a state that has been reached. -/
theorem after_succ_of_inl {n : Nat} {x : σ ⊕ ρ} {s : σ} (h : after body n x = .inl s) :
    after body (n + 1) x = body s := by
  rw [after_succ, h]
  rfl

/-- A state reached has been reached through one before. -/
theorem exists_of_after_succ {n : Nat} {x : σ ⊕ ρ} {s : σ} (h : after body (n + 1) x = .inl s) :
    ∃ t, after body n x = .inl t ∧ body t = .inl s := by
  rcases hn : after body n x with t | r
  · rw [after_succ_of_inl hn] at h
    exact ⟨t, rfl, h⟩
  · rw [after_succ, hn] at h
    cases h

/-- A result was there at the start or comes out of a round. -/
theorem exists_of_after_inr {n : Nat} {x : σ ⊕ ρ} {r : ρ} (h : after body n x = .inr r) :
    x = .inr r ∨ ∃ m s, after body m x = .inl s ∧ body s = .inr r := by
  induction n with
  | zero => exact .inl h
  | succ n ih =>
      rcases hn : after body n x with s | r'
      · rw [after_succ_of_inl hn] at h
        exact .inr ⟨n, s, hn, h⟩
      · rw [after_succ, hn] at h
        cases h
        exact ih hn

/-- A loop ends with one result. -/
theorem after_inr_unique {n n' : Nat} {x : σ ⊕ ρ} {r r' : ρ} (h : after body n x = .inr r)
    (h' : after body n' x = .inr r') : r = r' := by
  induction n generalizing n' x with
  | zero =>
      rw [show x = .inr r from h] at h'
      cases n' <;> exact Sum.inr.inj h'
  | succ n ih =>
      cases x with
      | inr r₀ =>
          have hr : r₀ = r := Sum.inr.inj h
          cases n' <;> exact hr.symm.trans (Sum.inr.inj h')
      | inl s =>
          cases n' with
          | zero => cases h'
          | succ n' => exact ih h h'

/-- More rounds change nothing about a result. -/
theorem after_inr_of_le {n k : Nat} {x : σ ⊕ ρ} {r : ρ} (h : after body n x = .inr r) (hle : n ≤ k) :
    after body k x = .inr r := by
  induction hle with
  | refl => exact h
  | step _ ih =>
      rw [after_succ, ih]
      rfl

/-- **The invariant rule.** -/
theorem invariant {I : σ → Prop} {x : σ ⊕ ρ} (hstart : ∀ s, x = .inl s → I s)
    (hbody : ∀ s s', I s → body s = .inl s' → I s') {n : Nat} {s : σ}
    (h : after body n x = .inl s) : I s := by
  induction n generalizing s with
  | zero => exact hstart s h
  | succ n ih =>
      obtain ⟨t, ht, hts⟩ := exists_of_after_succ h
      exact hbody t s (ih ht) hts

/-- **The measure rule.** -/
theorem ends_of_measure {I : σ → Prop} (m : σ → Nat) {x : σ ⊕ ρ} (hstart : ∀ s, x = .inl s → I s)
    (hbody : ∀ s s', I s → body s = .inl s' → I s' ∧ m s' < m s) : Ends body x := by
  cases x with
  | inr r => exact ⟨0, r, rfl⟩
  | inl s =>
      have hs := hstart s rfl
      clear hstart
      induction hm : m s using Nat.strongRecOn generalizing s with
      | ind k ih =>
          rcases hb : body s with s' | r
          · -- one round more than from the smaller state
            obtain ⟨hs', hlt⟩ := hbody s s' hs hb
            obtain ⟨n, r, hr⟩ := ih (m s') (by omega) s' hs' rfl
            refine ⟨n + 1, r, ?_⟩
            show after body n (body s) = _
            rw [hb, hr]
          · refine ⟨1, r, ?_⟩
            show body s = _
            rw [hb]

/-- A set of states that is never left: the loop runs forever. -/
theorem not_ends {I : σ → Prop} (hbody : ∀ s, I s → ∃ s', body s = .inl s' ∧ I s') {s : σ}
    (hs : I s) : ¬ Ends body (.inl s) := by
  rintro ⟨n, r, hr⟩
  induction n generalizing s with
  | zero => cases hr
  | succ n ih =>
      obtain ⟨s', hb, hs'⟩ := hbody s hs
      have hr' : after body n (body s) = .inr r := hr
      rw [hb] at hr'
      exact ih hs' hr'

/-- A quantity that grows in every round grows over any number of rounds. -/
theorem lt_of_after {m : σ → Nat} {x : σ ⊕ ρ}
    (hgrow : ∀ n s s', after body n x = .inl s → body s = .inl s' → m s < m s') {i j : Nat} {s t : σ}
    (hij : i < j) (hs : after body i x = .inl s) (ht : after body j x = .inl t) : m s < m t := by
  induction j generalizing t with
  | zero => exact absurd hij (Nat.not_lt_zero i)
  | succ j ih =>
      obtain ⟨u, hu, hut⟩ := exists_of_after_succ ht
      have hlast := hgrow j u t hu hut
      by_cases hlt : i < j
      · exact Nat.lt_trans (ih hlt hu) hlast
      · -- only the last round lies between the two
        rw [show i = j by omega, hu] at hs
        cases hs
        exact hlast

end Loop

end ComputerNetworking.Lib
