/-
# ComputerNetworking.Lib.Patience -- loops that give up

A loop waits for something with a time limit. Each time the limit passes it counts one more silence; a word
sets the count back to zero; and there are events that are neither. At so many silences in a row it gives
up. Whatever the loop does otherwise, how a run of it ended can be read off the events: `Patient.run`.
-/
import ComputerNetworking.Lib.Transition

namespace ComputerNetworking.Lib

variable {σ ε : Type*}

/-- What a loop that counts silences makes of an event. -/
inductive Sign where
  | silence
  | nothing
  | word
  deriving DecidableEq

/-- One more event. -/
def Sign.tally (n : Nat) : Sign → Nat
  | silence => n + 1
  | nothing => n
  | word => 0

/-- The silences since the last word, where there have been `n` before. -/
def silences (sign : ε → Sign) (n : Nat) (es : List ε) : Nat :=
  es.foldl (fun n e => (sign e).tally n) n

@[simp] theorem silences_cons (sign : ε → Sign) (n : Nat) (e : ε) (es : List ε) :
    silences sign n (e :: es) = silences sign ((sign e).tally n) es := rfl

namespace Machine

/-- The machine counts silences while it is running, and gives up at `limit` of them in a row. What comes after
the loop is neither word nor silence, and cannot change how it ended. -/
structure Patient (M : Machine σ ε) (sign : ε → Sign) (limit : Nat) (count : σ → Nat)
    (running gaveUp : σ → Prop) : Prop where
  stays : ∀ s e s', M.step s e = some s' → ¬ running s →
    ¬ running s' ∧ sign e = .nothing ∧ (gaveUp s' ↔ gaveUp s)
  not_both : ∀ s, running s → ¬ gaveUp s
  counts : ∀ s e s', running s → count s < limit → M.step s e = some s' → running s' →
    count s' = (sign e).tally (count s)
  gives_up_iff : ∀ s e s', running s → count s < limit → M.step s e = some s' →
    (gaveUp s' ↔ sign e = .silence ∧ count s + 1 = limit)

variable {M : Machine σ ε} {sign : ε → Sign} {limit : Nat} {count : σ → Nat} {running gaveUp : σ → Prop}

theorem Patient.count_lt (h : M.Patient sign limit count running gaveUp) {s s' : σ} {e : ε}
    (hrunning : running s) (hcount : count s < limit) (hs : M.step s e = some s') (hrunning' : running s') :
    count s' < limit := by
  have hnot := mt (h.gives_up_iff s e s' hrunning hcount hs).mpr (h.not_both s' hrunning')
  rw [h.counts s e s' hrunning hcount hs hrunning']
  cases hsign : sign e with
  | silence =>
      have hne : count s + 1 ≠ limit := fun heq => hnot ⟨hsign, heq⟩
      show count s + 1 < limit
      omega
  | nothing => exact hcount
  | word => exact Nat.zero_lt_of_lt hcount

/-- Behind the loop everything stays as it is. -/
theorem Patient.run_stopped (h : M.Patient sign limit count running gaveUp) {s s' : σ} {es : List ε}
    (hstopped : ¬ running s) (hs : M.run s es = some s') (n : Nat) :
    ¬ running s' ∧ silences sign n es = n ∧ (gaveUp s' ↔ gaveUp s) := by
  induction es generalizing s with
  | nil =>
      obtain rfl : s = s' := Option.some.inj hs
      exact ⟨hstopped, rfl, Iff.rfl⟩
  | cons e es ih =>
      obtain ⟨s₁, hs₁, hrest⟩ := Option.bind_eq_some_iff.mp hs
      obtain ⟨hstopped₁, hsign, hsame⟩ := h.stays s e s₁ hs₁ hstopped
      obtain ⟨hstopped', hnone, hsame'⟩ := ih hstopped₁ hrest
      rw [silences_cons, hsign]
      exact ⟨hstopped', hnone, hsame'.trans hsame⟩

/-- **A patient loop gives up with the last of so many silences in a row**, and not before. -/
theorem Patient.run (h : M.Patient sign limit count running gaveUp) {s s' : σ} {es : List ε}
    (hrunning : running s) (hcount : count s < limit) (hs : M.run s es = some s') :
    (gaveUp s' ↔ silences sign (count s) es = limit) ∧
      (running s' → count s' = silences sign (count s) es ∧ silences sign (count s) es < limit) := by
  induction es generalizing s with
  | nil =>
      obtain rfl : s = s' := Option.some.inj hs
      refine ⟨iff_of_false (h.not_both s hrunning) ?_, fun _ => ⟨rfl, hcount⟩⟩
      exact Nat.ne_of_lt hcount
  | cons e es ih =>
      obtain ⟨s₁, hs₁, hrest⟩ := Option.bind_eq_some_iff.mp hs
      rw [silences_cons]
      by_cases hrunning₁ : running s₁
      · rw [← h.counts s e s₁ hrunning hcount hs₁ hrunning₁]
        exact ih hrunning₁ (h.count_lt hrunning hcount hs₁ hrunning₁) hrest
      · -- the loop has been left with this event
        obtain ⟨hstopped, hrest, hsame⟩ := h.run_stopped hrunning₁ hrest ((sign e).tally (count s))
        rw [hrest, hsame, h.gives_up_iff s e s₁ hrunning hcount hs₁]
        refine ⟨?_, fun hr => absurd hr hstopped⟩
        cases sign e with
        | silence => exact and_iff_right rfl
        | nothing => exact iff_of_false (by simp) (Nat.ne_of_lt hcount)
        | word => exact iff_of_false (by simp) (Nat.ne_of_lt (Nat.zero_lt_of_lt hcount))

end Machine

end ComputerNetworking.Lib
