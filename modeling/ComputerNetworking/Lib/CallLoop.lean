/-
# ComputerNetworking.Lib.CallLoop -- a call repeated until all has been transferred

A system call that transfers bytes may transfer fewer than it is asked for, or be interrupted before the
first. So it stands in a loop that adds up what the calls return and asks for the rest:

    while (n < len) { r = call(n, len - n); ...; n += r; }

The loop is a machine, and what a call returns is its event. Whatever is returned, `n` is the sum of the
counts and at most `len`; and what holds of the bytes transferred so far, if each call keeps it, holds of
all of them at the end.
-/
import ComputerNetworking.Lib.CxxString
import ComputerNetworking.Lib.Transition

namespace ComputerNetworking.Lib

/-! ## The loop -/

/-- What a call returns: a count, or an error, which may only say that it has been interrupted. -/
inductive CallResult where
  | count (k : Nat)
  | interrupted
  | failed
  deriving DecidableEq

namespace CallResult

/-- How many bytes it has transferred. -/
def bytes : CallResult → Nat
  | count k => k
  | _ => 0

end CallResult

/-- How many bytes have been transferred in all. -/
def transferred : List CallResult → Nat
  | [] => 0
  | r :: results => r.bytes + transferred results

/-- What is done in the loop. -/
structure CallLoop (τ κ : Type*) where
  /-- What a call does that returns `k`, with `n` bytes behind it and `asked` bytes asked for; `none` where
  it cannot return that. -/
  transfer (io : τ) (n asked k : Nat) : Option τ
  /-- With which results the loop is left, and how. -/
  leaves : CallResult → Option κ
  /-- How it is left at its test. -/
  finish : Nat → κ
  le_of_transfer : ∀ {io n asked k io'}, transfer io n asked k = some io' → k ≤ asked
  zero_of_leaves : ∀ {k why}, leaves (.count k) = some why → k = 0

namespace CallLoop

variable {τ κ : Type*}

/-- At the call, or behind the loop. -/
structure State (τ κ : Type*) where
  n : Nat
  io : τ
  ended : Option κ

variable (L : CallLoop τ κ) (len : Nat)

/-- The test of the loop. -/
def test (n : Nat) (io : τ) : State τ κ := ⟨n, io, if n < len then none else some (L.finish n)⟩

/-- Behind a call: the loop is left with `n`, or goes on to its test with `next`. -/
def behindCall (r : CallResult) (n next : Nat) (io : τ) : State τ κ :=
  match L.leaves r with
  | some why => ⟨n, io, some why⟩
  | none => L.test len next io

/-- The call returns. -/
def step (s : State τ κ) (r : CallResult) : Option (State τ κ) :=
  match s.ended with
  | some _ => none
  | none =>
      match r with
      | .count k =>
          (L.transfer s.io s.n (sizeSub len s.n) k).map (L.behindCall len r s.n (sizeAdd s.n k))
      | _ => some (L.behindCall len r s.n s.n s.io)

def machine (io : τ) : Machine (State τ κ) CallResult where
  init s := s = L.test len 0 io
  step := L.step len

/-- Behind these results. -/
def after (io : τ) (results : List CallResult) : Option (State τ κ) :=
  (L.machine len io).run (L.test len 0 io) results

/-! ## One call -/

section Step

variable {L len} {s s' : State τ κ} {r : CallResult}

theorem lt_of_test {n : Nat} {io : τ} (h : (L.test len n io).ended = none) : n < len := by
  by_contra hge
  cases h.symm.trans (if_neg hge)

theorem bytes_of_leaves {why : κ} (h : L.leaves r = some why) : r.bytes = 0 := by
  cases r with
  | count k => exact L.zero_of_leaves h
  | _ => rfl

/-- **What a step does**: a call transfers the bytes it returns, and then the loop is left or tested. -/
theorem step_cases (hlen : len < sizeRange) (hle : s.n ≤ len) (h : L.step len s r = some s') :
    s.ended = none ∧ s.n + r.bytes ≤ len ∧ ∃ io,
      (L.transfer s.io s.n (len - s.n) r.bytes = some io ∨ r.bytes = 0 ∧ io = s.io) ∧
        (L.leaves r = none ∧ s' = L.test len (s.n + r.bytes) io ∨
          ∃ why, L.leaves r = some why ∧ s' = ⟨s.n, io, some why⟩) := by
  have hbehind : ∀ io, L.leaves r = none ∧
        L.behindCall len r s.n (s.n + r.bytes) io = L.test len (s.n + r.bytes) io ∨
      ∃ why, L.leaves r = some why ∧
        L.behindCall len r s.n (s.n + r.bytes) io = ⟨s.n, io, some why⟩ := by
    intro io
    unfold behindCall
    rcases L.leaves r with _ | why
    · exact .inl ⟨rfl, rfl⟩
    · exact .inr ⟨why, rfl, rfl⟩
  unfold step at h
  rcases hended : s.ended with _ | why
  · rw [hended] at h
    refine ⟨rfl, ?_⟩
    cases r with
    | count k =>
        obtain ⟨io, hio, rfl⟩ := Option.map_eq_some_iff.mp h
        rw [sizeSub_of_le hle hlen] at hio
        have hk := L.le_of_transfer hio
        have hsum : s.n + k ≤ len := by omega
        rw [sizeAdd_of_lt (Nat.lt_of_le_of_lt hsum hlen)]
        exact ⟨hsum, io, .inl hio, hbehind io⟩
    | interrupted =>
        cases h
        exact ⟨hle, s.io, .inr ⟨rfl, rfl⟩, hbehind s.io⟩
    | failed =>
        cases h
        exact ⟨hle, s.io, .inr ⟨rfl, rfl⟩, hbehind s.io⟩
  · rw [hended] at h
    cases h

/-- At the call, anything can be returned that a transfer allows. -/
theorem step_isSome (hlen : len < sizeRange) (hle : s.n ≤ len) (hended : s.ended = none)
    (h : ∀ k, r = .count k → (L.transfer s.io s.n (len - s.n) k).isSome) : (L.step len s r).isSome := by
  unfold step
  rw [hended]
  cases r with
  | count k =>
      show ((L.transfer s.io s.n (sizeSub len s.n) k).map _).isSome
      rw [Option.isSome_map, sizeSub_of_le hle hlen]
      exact h k rfl
  | interrupted => rfl
  | failed => rfl

end Step

/-! ## All calls -/

section Runs

variable {L len} {io : τ} {s s' : State τ κ} {results : List CallResult}

/-- The progress never passes the length, and at a call it has not reached it. -/
theorem progress_le (hlen : len < sizeRange) (h : (L.machine len io).Reachable s) :
    s.n ≤ len ∧ (s.ended = none → s.n < len) := by
  apply h.invariant
  · rintro s rfl
    exact ⟨Nat.zero_le len, lt_of_test⟩
  · intro s r s' hs _ hstep
    obtain ⟨-, hsum, io', -, hcases⟩ := step_cases hlen hs.1 hstep
    rcases hcases with ⟨-, rfl⟩ | ⟨why, -, rfl⟩
    · exact ⟨hsum, lt_of_test⟩
    · exact ⟨hs.1, fun hended => nomatch hended⟩

/-- **The progress rule.** What holds of the bytes transferred so far, if each call keeps it, holds behind any
calls. -/
theorem io_of_reachable (hlen : len < sizeRange) {I : Nat → τ → Prop} (hstart : I 0 io)
    (hcall : ∀ n io k io', n + k ≤ len → I n io → L.transfer io n (len - n) k = some io' → I (n + k) io')
    (h : (L.machine len io).Reachable s) : I s.n s.io := by
  apply h.invariant_of_reachable
  · rintro s rfl
    exact hstart
  · intro s r s' hr hs _ hstep
    obtain ⟨-, hsum, io', hio, hcases⟩ := step_cases hlen (progress_le hlen hr).1 hstep
    have hnext : I (s.n + r.bytes) io' := by
      rcases hio with hio | ⟨hzero, rfl⟩
      · exact hcall _ _ _ _ hsum hs hio
      · rwa [hzero]
    rcases hcases with ⟨-, rfl⟩ | ⟨why, hleaves, rfl⟩
    · exact hnext
    · rwa [bytes_of_leaves hleaves] at hnext

/-- **The progress is the sum of the counts.** -/
theorem progress_eq (hlen : len < sizeRange) (h : (L.machine len io).Reachable s)
    (hrun : (L.machine len io).run s results = some s') : s'.n = s.n + transferred results := by
  induction results generalizing s with
  | nil =>
      cases hrun
      rfl
  | cons r results ih =>
      obtain ⟨s₁, hstep, hrest⟩ := Option.bind_eq_some_iff.mp hrun
      have hnext : s₁.n = s.n + r.bytes := by
        obtain ⟨-, -, io', -, ⟨-, rfl⟩ | ⟨why, hleaves, rfl⟩⟩ :=
          step_cases hlen (progress_le hlen h).1 hstep
        · rfl
        · rw [bytes_of_leaves hleaves]
          rfl
      rw [ih (.step h trivial hstep) hrest, hnext, transferred, Nat.add_assoc]

/-- Where the loop stands: at its call, behind its last test, or behind a call it has been left with. -/
inductive Stands (L : CallLoop τ κ) (len : Nat) (results : List CallResult) (s : State τ κ) : Prop
  | waits (hstays : ∀ r ∈ results, L.leaves r = none) (hended : s.ended = none) (hlt : s.n < len)
  | finished (hstays : ∀ r ∈ results, L.leaves r = none) (hended : s.ended = some (L.finish len))
      (heq : s.n = len)
  | left {front : List CallResult} {r : CallResult} {why : κ} (hresults : results = front ++ [r])
      (hstays : ∀ r ∈ front, L.leaves r = none) (hleaves : L.leaves r = some why)
      (hended : s.ended = some why) (hlt : s.n < len)

/-- Behind the loop nothing is called. -/
theorem run_of_ended {why : κ} (hended : s.ended = some why)
    (hrun : (L.machine len io).run s results = some s') : results = [] ∧ s' = s := by
  cases results with
  | nil =>
      cases hrun
      exact ⟨rfl, rfl⟩
  | cons r results =>
      obtain ⟨s₁, hstep, -⟩ := Option.bind_eq_some_iff.mp hrun
      have hnone : L.step len s r = none := by
        unfold step
        rw [hended]
      cases hnone.symm.trans hstep

/-- **It stands in one of the three**, from any test on. -/
theorem stands_of_test (hlen : len < sizeRange) {n : Nat} {io' : τ} (hn : n ≤ len)
    (hrun : (L.machine len io).run (L.test len n io') results = some s) : Stands L len results s := by
  induction results generalizing n io' with
  | nil =>
      cases hrun
      rcases Nat.lt_or_eq_of_le hn with hlt | rfl
      · exact .waits (List.forall_mem_nil _) (if_pos hlt) hlt
      · exact .finished (List.forall_mem_nil _) (if_neg (Nat.lt_irrefl _)) rfl
  | cons r results ih =>
      obtain ⟨s₁, hstep, hrest⟩ := Option.bind_eq_some_iff.mp hrun
      obtain ⟨hgoing, hsum, io₁, -, hcases⟩ := step_cases hlen (s := L.test len n io') hn hstep
      rcases hcases with ⟨hleaves, rfl⟩ | ⟨why, hleaves, rfl⟩
      · have hall : ∀ front, (∀ r' ∈ front, L.leaves r' = none) → ∀ r' ∈ r :: front, L.leaves r' = none :=
          fun front hfront => List.forall_mem_cons.mpr ⟨hleaves, hfront⟩
        cases ih hsum hrest with
        | waits hstays hended hlt => exact .waits (hall _ hstays) hended hlt
        | finished hstays hended heq => exact .finished (hall _ hstays) hended heq
        | left hresults hstays hleft hended hlt =>
            exact .left (congrArg (r :: ·) hresults) (hall _ hstays) hleft hended hlt
      · obtain ⟨rfl, rfl⟩ := run_of_ended rfl hrest
        have hsingle : [r] = [] ++ [r] := rfl
        exact .left hsingle (List.forall_mem_nil _) hleaves rfl (lt_of_test hgoing)

end Runs

section After

variable {L len} {io : τ} {s : State τ κ} {results : List CallResult}

theorem reachable_of_after (h : L.after len io results = some s) : (L.machine len io).Reachable s :=
  Machine.reachable_of_run rfl h

theorem progress_of_after (hlen : len < sizeRange) (h : L.after len io results = some s) :
    s.n = transferred results :=
  (progress_eq hlen (.init rfl) h).trans (Nat.zero_add _)

/-- A loop that has been left by a result has not got all. -/
theorem lt_of_leaves (hlen : len < sizeRange) (h : L.after len io results = some s) {r : CallResult}
    {why : κ} (hr : r ∈ results) (hleaves : L.leaves r = some why) : transferred results < len := by
  rw [← progress_of_after hlen h]
  cases stands_of_test hlen (Nat.zero_le len) h with
  | waits _ _ hlt => exact hlt
  | finished hstays _ _ => cases hleaves.symm.trans (hstays r hr)
  | left _ _ _ _ hlt => exact hlt

/-- **How the loop ends**: at its test with all, or with less by a result that leaves it. -/
theorem ended_eq_some_iff (hlen : len < sizeRange) (h : L.after len io results = some s) (why : κ) :
    s.ended = some why ↔ transferred results = len ∧ why = L.finish len ∨
      ∃ r ∈ results, L.leaves r = some why := by
  have hn := progress_of_after hlen h
  constructor
  · intro hwhy
    cases stands_of_test hlen (Nat.zero_le len) h with
    | waits _ hended _ => cases hended.symm.trans hwhy
    | finished _ hended heq =>
        rw [hended, Option.some.injEq] at hwhy
        exact .inl ⟨hn.symm.trans heq, hwhy.symm⟩
    | left hresults _ hleaves hended _ =>
        refine .inr ⟨_, ?_, hleaves.trans (hended.symm.trans hwhy)⟩
        rw [hresults]
        exact List.mem_append_right _ (List.mem_singleton_self _)
  · intro hcases
    cases stands_of_test hlen (Nat.zero_le len) h with
    | waits hstays _ hlt =>
        rcases hcases with ⟨hall, -⟩ | ⟨r, hr, hleaves⟩
        · exact absurd (hn.trans hall) (Nat.ne_of_lt hlt)
        · cases hleaves.symm.trans (hstays r hr)
    | finished hstays hended _ =>
        rcases hcases with ⟨-, rfl⟩ | ⟨r, hr, hleaves⟩
        · exact hended
        · cases hleaves.symm.trans (hstays r hr)
    | left hresults hstays hleaves hended hlt =>
        rcases hcases with ⟨hall, -⟩ | ⟨r, hr, hleaves'⟩
        · exact absurd (hn.trans hall) (Nat.ne_of_lt hlt)
        · -- the last result is the only one that leaves the loop
          rw [hresults, List.mem_append, List.mem_singleton] at hr
          rcases hr with hr | rfl
          · cases hleaves'.symm.trans (hstays r hr)
          · rw [hended, ← hleaves, hleaves']

end After

end CallLoop

end ComputerNetworking.Lib
