/-
# ComputerNetworking.Lib.Transition -- machines driven by events

A program that waits for something to happen, reacts, and waits again is a `Machine`: a set of
initial states and a partial step function on states and events. A property of all its runs is
proved by the invariant rule: it holds initially and every step keeps it.

Some laws hold only of the runs whose events stay within a condition. `ReachableUnder G` is
reachability by steps that all meet `G`; plain reachability is the case without a condition. Where
the condition is exact, it is so for each run: `Along G`, against what the run's steps put out.
-/
import Mathlib.Data.List.Forall2
import Mathlib.Tactic.Common

namespace ComputerNetworking.Lib

variable {σ ε : Type*}

/-- A program that reacts to events; `step` is `none` where the event cannot happen, or where the
program does not come back from it. -/
structure Machine (σ ε : Type*) where
  init : σ → Prop
  step : σ → ε → Option σ

namespace Machine

variable (M : Machine σ ε)

/-! ## Reachable states -/

/-- The states reached by steps that all meet `G`. -/
inductive ReachableUnder (G : σ → ε → Prop) : σ → Prop
  | init {s : σ} : M.init s → ReachableUnder G s
  | step {s s' : σ} {e : ε} :
      ReachableUnder G s → G s e → M.step s e = some s' → ReachableUnder G s'

/-- The states reached by any steps. -/
abbrev Reachable : σ → Prop := M.ReachableUnder fun _ _ => True

variable {M}

/-- **The invariant rule.** The step may use what is already known of the reachable states. -/
theorem ReachableUnder.invariant_of_reachable {G : σ → ε → Prop} {I : σ → Prop} {s : σ}
    (h : M.ReachableUnder G s) (hinit : ∀ s, M.init s → I s)
    (hstep : ∀ s e s', M.ReachableUnder G s → I s → G s e → M.step s e = some s' → I s') : I s := by
  induction h with
  | init h0 => exact hinit _ h0
  | step hr hg hs ih => exact hstep _ _ _ hr ih hg hs

/-- The rule for an invariant that carries itself. -/
theorem ReachableUnder.invariant {G : σ → ε → Prop} {I : σ → Prop} {s : σ}
    (h : M.ReachableUnder G s) (hinit : ∀ s, M.init s → I s)
    (hstep : ∀ s e s', I s → G s e → M.step s e = some s' → I s') : I s :=
  h.invariant_of_reachable hinit fun s e s' _ => hstep s e s'

/-- A weaker condition reaches more. -/
theorem ReachableUnder.mono {G G' : σ → ε → Prop} (hG : ∀ s e, G s e → G' s e) {s : σ}
    (h : M.ReachableUnder G s) : M.ReachableUnder G' s := by
  induction h with
  | init h0 => exact .init h0
  | step _ hg hs ih => exact .step ih (hG _ _ hg) hs

/-- **The simulation rule.** Where every step of one machine can be followed by steps of another, every
state that the one reaches is related to one that the other reaches. -/
theorem ReachableUnder.simulation {τ δ : Type*} {N : Machine τ δ} {R : σ → τ → Prop}
    {G : σ → ε → Prop} {s : σ} (h : M.ReachableUnder G s)
    (hinit : ∀ s, M.init s → ∃ t, N.init t ∧ R s t)
    (hstep : ∀ s e s' t, M.ReachableUnder G s → R s t → N.Reachable t → M.step s e = some s' →
      ∃ t', N.Reachable t' ∧ R s' t') : ∃ t, N.Reachable t ∧ R s t := by
  induction h with
  | init h0 =>
      obtain ⟨t, ht, hR⟩ := hinit _ h0
      exact ⟨t, .init ht, hR⟩
  | step hr _ hs ih =>
      obtain ⟨t, ht, hR⟩ := ih
      exact hstep _ _ _ t hr hR ht hs

/-! ## Stretches of a run -/

/-- A stretch of a run from one state to another, through states that satisfy `P`. -/
inductive Through (M : Machine σ ε) (P : σ → Prop) : σ → σ → Prop
  | refl {s : σ} (h : P s) : Through M P s s
  | step {s s' s'' : σ} {e : ε} (before : Through M P s s') (hs : M.step s' e = some s'') (h : P s'') :
      Through M P s s''

theorem Through.mono {M : Machine σ ε} {P Q : σ → Prop} {s s' : σ} (hPQ : ∀ s, P s → Q s)
    (h : M.Through P s s') : M.Through Q s s' := by
  induction h with
  | refl h => exact .refl (hPQ _ h)
  | step _ hs h ih => exact .step ih hs (hPQ _ h)

/-! ## Running a list of events -/

variable (M)

/-- The state after a list of events. -/
def run : σ → List ε → Option σ
  | s, [] => some s
  | s, e :: es => (M.step s e).bind fun s' => run s' es

/-- Every event of the list meets `G` in the state it finds. -/
def Along (G : σ → ε → Prop) : σ → List ε → Prop
  | _, [] => True
  | s, e :: es => G s e ∧ ∀ s', M.step s e = some s' → Along G s' es

instance decidableAlong {G : σ → ε → Prop} [∀ s e, Decidable (G s e)] :
    (s : σ) → (es : List ε) → Decidable (M.Along G s es)
  | _, [] => isTrue trivial
  | s, e :: es =>
      match h : M.step s e with
      | none => decidable_of_iff (G s e) (by simp [Along, h])
      | some s' =>
          have : Decidable (M.Along G s' es) := decidableAlong s' es
          decidable_of_iff (G s e ∧ M.Along G s' es) (by simp [Along, h])

variable {M}

theorem ReachableUnder.run {G : σ → ε → Prop} {s s' : σ} {es : List ε}
    (h : M.ReachableUnder G s) (hG : M.Along G s es) (hs : M.run s es = some s') :
    M.ReachableUnder G s' := by
  induction es generalizing s with
  | nil =>
      cases hs
      exact h
  | cons e es ih =>
      obtain ⟨s₁, hs₁, hrest⟩ := Option.bind_eq_some_iff.mp hs
      exact ih (.step h hG.1 hs₁) (hG.2 _ hs₁) hrest

/-- A condition that does not look at the state. -/
theorem Along.of_forall {G : σ → ε → Prop} {s : σ} {es : List ε} (h : ∀ e ∈ es, ∀ s, G s e) :
    M.Along G s es := by
  induction es generalizing s with
  | nil => trivial
  | cons e es ih =>
      refine ⟨h e (List.mem_cons_self ..) s, fun _ _ => ?_⟩
      exact ih fun e' he' => h e' (List.mem_cons_of_mem _ he')

theorem Along.of_true {s : σ} {es : List ε} : M.Along (fun _ _ => True) s es :=
  .of_forall fun _ _ _ => trivial

/-- Running any events from an initial state reaches a state. -/
theorem reachable_of_run {s s' : σ} {es : List ε} (h : M.init s) (hs : M.run s es = some s') :
    M.Reachable s' :=
  ReachableUnder.run (.init h) Along.of_true hs

theorem along_cons {G : σ → ε → Prop} {s s' : σ} {e : ε} {es : List ε} (hs : M.step s e = some s') :
    M.Along G s (e :: es) ↔ G s e ∧ M.Along G s' es := by
  apply and_congr_right
  intro _
  constructor
  · intro h
    exact h s' hs
  · intro h s₁ hs₁
    rw [hs, Option.some.injEq] at hs₁
    exact hs₁ ▸ h

theorem run_append {s : σ} (es es' : List ε) :
    M.run s (es ++ es') = (M.run s es).bind fun s' => M.run s' es' := by
  induction es generalizing s with
  | nil => rfl
  | cons e es ih =>
      show (M.step s e).bind (fun s₁ => M.run s₁ (es ++ es')) =
        ((M.step s e).bind fun s₁ => M.run s₁ es).bind _
      rw [Option.bind_assoc]
      exact Option.bind_congr fun s₁ _ => ih

theorem along_append {G : σ → ε → Prop} {s s' : σ} {es es' : List ε} (hs : M.run s es = some s') :
    M.Along G s (es ++ es') ↔ M.Along G s es ∧ M.Along G s' es' := by
  induction es generalizing s with
  | nil =>
      cases hs
      exact (iff_of_eq (true_and _)).symm
  | cons e es ih =>
      obtain ⟨s₁, hs₁, hrest⟩ := Option.bind_eq_some_iff.mp hs
      rw [List.cons_append, along_cons hs₁, along_cons hs₁, ih hrest, and_assoc]

/-- **What every step keeps, a run keeps.** -/
theorem ReachableUnder.keeps {G : σ → ε → Prop} {P : σ → Prop} {s s' : σ} {es : List ε}
    (h : M.ReachableUnder G s) (hG : M.Along G s es) (hs : M.run s es = some s') (hP : P s)
    (hstep : ∀ s e s', M.ReachableUnder G s → G s e → P s → M.step s e = some s' → P s') : P s' := by
  induction es generalizing s with
  | nil =>
      cases hs
      exact hP
  | cons e es ih =>
      obtain ⟨s₁, hs₁, hrest⟩ := Option.bind_eq_some_iff.mp hs
      exact ih (.step h hG.1 hs₁) (hG.2 _ hs₁) hrest (hstep s e s₁ h hG.1 hP hs₁)

/-- Conditions that agree wherever a step is taken agree along a run. -/
theorem Along.congr {G G' : σ → ε → Prop} {s s' : σ} {es : List ε} (h : M.Reachable s)
    (hs : M.run s es = some s')
    (hG : ∀ s e s', M.Reachable s → M.step s e = some s' → (G s e ↔ G' s e)) :
    M.Along G s es ↔ M.Along G' s es := by
  induction es generalizing s with
  | nil => exact Iff.rfl
  | cons e es ih =>
      obtain ⟨s₁, hs₁, hrest⟩ := Option.bind_eq_some_iff.mp hs
      rw [along_cons hs₁, along_cons hs₁]
      exact and_congr (hG s e s₁ h hs₁) (ih (.step h trivial hs₁) hrest)

/-- What a condition gives in the states reached under it holds along a run that meets the condition. -/
theorem Along.imp_of_reachable {G G' : σ → ε → Prop} {s s' : σ} {es : List ε}
    (h : M.ReachableUnder G s) (hG : M.Along G s es) (hs : M.run s es = some s')
    (himp : ∀ s e s', M.ReachableUnder G s → G s e → M.step s e = some s' → G' s e) :
    M.Along G' s es := by
  induction es generalizing s with
  | nil => trivial
  | cons e es ih =>
      obtain ⟨s₁, hs₁, hrest⟩ := Option.bind_eq_some_iff.mp hs
      rw [along_cons hs₁] at hG ⊢
      exact ⟨himp s e s₁ h hG.1 hs₁, ih (.step h hG.1 hs₁) hG.2 hrest⟩

/-- **The measure rule.** Where the events of one kind lower a measure and the others do not raise it, a run
has at most as many events of that kind as the measure is at its start. -/
theorem Along.countP_le {G : σ → ε → Prop} {p : ε → Bool} {m : σ → Nat} {s s' : σ} {es : List ε}
    (hG : M.Along G s es) (hs : M.run s es = some s')
    (hfalls : ∀ s e s', G s e → M.step s e = some s' → (if p e then 1 else 0) + m s' ≤ m s) :
    es.countP p + m s' ≤ m s := by
  induction es generalizing s with
  | nil =>
      cases hs
      exact Nat.le_of_eq (Nat.zero_add _)
  | cons e es ih =>
      obtain ⟨s₁, hs₁, hrest⟩ := Option.bind_eq_some_iff.mp hs
      have hfirst := hfalls s e s₁ hG.1 hs₁
      have hmore := ih (hG.2 s₁ hs₁) hrest
      rw [List.countP_cons]
      omega

/-! ## What the steps of a run put out -/

variable {α : Type*}

/-- The output of the steps of a run, in order. -/
def outputs (M : Machine σ ε) (out : σ → ε → List α) : σ → List ε → List α
  | _, [] => []
  | s, e :: es => out s e ++ ((M.step s e).map fun s' => outputs M out s' es).getD []

/-- **Everything a run puts out is `P` if and only if each of its steps puts out only `P`.** -/
theorem forall_outputs_iff {out : σ → ε → List α} {P : α → Prop} {s s' : σ} {es : List ε}
    (hs : M.run s es = some s') :
    (∀ a ∈ M.outputs out s es, P a) ↔ M.Along (fun s e => ∀ a ∈ out s e, P a) s es := by
  induction es generalizing s with
  | nil => simp [outputs, Along]
  | cons e es ih =>
      obtain ⟨s₁, hs₁, hrest⟩ := Option.bind_eq_some_iff.mp hs
      rw [outputs, hs₁, Option.map_some, Option.getD_some, List.forall_mem_append, ih hrest,
        along_cons hs₁]

theorem outputs_cons {out : σ → ε → List α} {s s₁ : σ} {e : ε} {es : List ε}
    (hs : M.step s e = some s₁) :
    M.outputs out s (e :: es) = out s e ++ M.outputs out s₁ es := by
  rw [outputs, hs]
  rfl

/-- **The conservation rule.** Where every step takes off a queue what it puts out, and puts on it what it
takes in, a run has put out everything that was on the queue or taken in, in order, but for what is
left on it. -/
theorem outputs_conserve (queue : σ → List α) {taken out : σ → ε → List α} {G G' : σ → ε → Prop}
    {s s' : σ} {es : List ε} (h : M.ReachableUnder G s) (hG : M.Along G s es)
    (hG' : M.Along G' s es) (hs : M.run s es = some s')
    (hstep : ∀ s e s', M.ReachableUnder G s → G s e → G' s e → M.step s e = some s' →
      queue s ++ taken s e = out s e ++ queue s') :
    queue s ++ M.outputs taken s es = M.outputs out s es ++ queue s' := by
  induction es generalizing s with
  | nil =>
      cases hs
      rw [outputs, outputs, List.append_nil, List.nil_append]
  | cons e es ih =>
      obtain ⟨s₁, hs₁, hrest⟩ := Option.bind_eq_some_iff.mp hs
      rw [along_cons hs₁] at hG hG'
      rw [outputs_cons hs₁, outputs_cons hs₁, ← List.append_assoc, hstep s e s₁ h hG.1 hG'.1 hs₁,
        List.append_assoc, ih (.step h hG.1 hs₁) hG.2 hG'.2 hrest, List.append_assoc]

/-- A queue on which nothing is put any more gives off what was on it. -/
theorem outputs_drain (queue : σ → List α) (gone : σ → Prop) {out : σ → ε → List α}
    {G G' : σ → ε → Prop} {s s' : σ} {es : List ε} (h : M.ReachableUnder G s) (hG : M.Along G s es)
    (hG' : M.Along G' s es) (hs : M.run s es = some s') (hg : gone s)
    (hgone : ∀ s e s', M.ReachableUnder G s → G s e → G' s e → M.step s e = some s' → gone s →
      gone s' ∧ queue s = out s e ++ queue s') :
    gone s' ∧ queue s = M.outputs out s es ++ queue s' := by
  induction es generalizing s with
  | nil =>
      cases hs
      exact ⟨hg, rfl⟩
  | cons e es ih =>
      obtain ⟨s₁, hs₁, hrest⟩ := Option.bind_eq_some_iff.mp hs
      rw [along_cons hs₁] at hG hG'
      obtain ⟨hg₁, hqueue⟩ := hgone s e s₁ h hG.1 hG'.1 hs₁ hg
      obtain ⟨hg', hqueue₁⟩ := ih (.step h hG.1 hs₁) hG.2 hG'.2 hrest hg₁
      rw [outputs_cons hs₁, List.append_assoc, ← hqueue₁]
      exact ⟨hg', hqueue⟩

/-- **The conservation rule with an end.** As before, but from some step on nothing is put on the queue any more,
and that step may lose the end of it. A run has put out what was on the queue or taken in, in order, but
for what is left on it and, if there was such a step, for the rest. -/
theorem outputs_conserve_until (queue : σ → List α) (gone : σ → Prop) {taken out : σ → ε → List α}
    {G G' : σ → ε → Prop} {s s' : σ} {es : List ε} (h : M.ReachableUnder G s) (hG : M.Along G s es)
    (hG' : M.Along G' s es) (hs : M.run s es = some s')
    (hstep : ∀ s e s', M.ReachableUnder G s → G s e → G' s e → M.step s e = some s' → ¬ gone s →
      ∃ lost, queue s ++ taken s e = out s e ++ queue s' ++ lost ∧ (¬ gone s' → lost = []))
    (hgone : ∀ s e s', M.ReachableUnder G s → G s e → G' s e → M.step s e = some s' → gone s →
      gone s' ∧ queue s = out s e ++ queue s') :
    ∃ lost, queue s ++ M.outputs taken s es = M.outputs out s es ++ queue s' ++ lost ∧
      (¬ gone s' → lost = []) := by
  induction es generalizing s with
  | nil =>
      cases hs
      exact ⟨[], by rw [outputs, outputs, List.nil_append, List.append_nil], fun _ => rfl⟩
  | cons e es ih =>
      by_cases hg : gone s
      · -- all that is taken in is lost
        obtain ⟨hg', hqueue⟩ := outputs_drain queue gone h hG hG' hs hg hgone
        exact ⟨_, congrArg (· ++ _) hqueue, fun hthere => absurd hg' hthere⟩
      · obtain ⟨s₁, hs₁, hrest⟩ := Option.bind_eq_some_iff.mp hs
        rw [along_cons hs₁] at hG hG'
        obtain ⟨lost, hone, hnone⟩ := hstep s e s₁ h hG.1 hG'.1 hs₁ hg
        rw [outputs_cons hs₁, outputs_cons hs₁, ← List.append_assoc, hone]
        by_cases hg₁ : gone s₁
        · obtain ⟨hg', hqueue⟩ :=
            outputs_drain queue gone (.step h hG.1 hs₁) hG.2 hG'.2 hrest hg₁ hgone
          refine ⟨lost ++ M.outputs taken s₁ es, ?_, fun hthere => absurd hg' hthere⟩
          rw [hqueue]
          simp only [List.append_assoc]
        · obtain ⟨more, hmore, hall⟩ := ih (.step h hG.1 hs₁) hG.2 hG'.2 hrest
          refine ⟨more, ?_, hall⟩
          rw [hnone hg₁, List.append_nil, List.append_assoc, hmore]
          simp only [List.append_assoc]

/-- A log that every step extends by what it puts out. -/
theorem outputs_append (log : σ → List α) {out : σ → ε → List α} {G G' : σ → ε → Prop}
    {s s' : σ} {es : List ε} (h : M.ReachableUnder G s) (hG : M.Along G s es)
    (hG' : M.Along G' s es) (hs : M.run s es = some s')
    (hstep : ∀ s e s', M.ReachableUnder G s → G s e → G' s e → M.step s e = some s' →
      log s' = log s ++ out s e) :
    log s' = log s ++ M.outputs out s es := by
  have hnone : M.outputs (fun _ _ => ([] : List α)) s es = [] := by
    clear hG hG' hs h
    induction es generalizing s with
    | nil => rfl
    | cons e es ih =>
        rw [outputs, List.nil_append]
        cases M.step s e with
        | none => rfl
        | some s₁ => exact ih
  have hall : log s ++ M.outputs out s es = M.outputs (fun _ _ => []) s es ++ log s' :=
    outputs_conserve log h hG hG' hs fun s e s' hr hg hg' hs => by
      rw [hstep s e s' hr hg hg' hs, List.nil_append]
  rw [hall, hnone, List.nil_append]

/-- What a step puts out, sorted out afterwards, is what it puts out sorted. -/
theorem outputs_flatMap {β : Type*} {out : σ → ε → List α} {f : α → List β} {s s' : σ} {es : List ε}
    (hs : M.run s es = some s') :
    (M.outputs out s es).flatMap f = M.outputs (fun s e => (out s e).flatMap f) s es := by
  induction es generalizing s with
  | nil => rfl
  | cons e es ih =>
      obtain ⟨s₁, hs₁, hrest⟩ := Option.bind_eq_some_iff.mp hs
      rw [outputs_cons hs₁, outputs_cons hs₁, List.flatMap_append, ih hrest]

theorem outputs_map {β : Type*} {out : σ → ε → List α} {f : α → β} {s s' : σ} {es : List ε}
    (hs : M.run s es = some s') :
    (M.outputs out s es).map f = M.outputs (fun s e => (out s e).map f) s es := by
  induction es generalizing s with
  | nil => rfl
  | cons e es ih =>
      obtain ⟨s₁, hs₁, hrest⟩ := Option.bind_eq_some_iff.mp hs
      rw [outputs_cons hs₁, outputs_cons hs₁, List.map_append, ih hrest]

/-- Outputs that correspond step by step correspond over a run. -/
theorem outputs_forall₂ {β : Type*} {R : α → β → Prop} {out : σ → ε → List α} {out' : σ → ε → List β}
    {G G' : σ → ε → Prop} {s s' : σ} {es : List ε} (h : M.ReachableUnder G s) (hG : M.Along G s es)
    (hG' : M.Along G' s es) (hs : M.run s es = some s')
    (hstep : ∀ s e s', M.ReachableUnder G s → G' s e → M.step s e = some s' →
      List.Forall₂ R (out s e) (out' s e)) :
    List.Forall₂ R (M.outputs out s es) (M.outputs out' s es) := by
  induction es generalizing s with
  | nil => exact .nil
  | cons e es ih =>
      obtain ⟨s₁, hs₁, hrest⟩ := Option.bind_eq_some_iff.mp hs
      rw [along_cons hs₁] at hG hG'
      rw [outputs_cons hs₁, outputs_cons hs₁]
      exact List.rel_append (hstep s e s₁ h hG'.1 hs₁) (ih (.step h hG.1 hs₁) hG.2 hG'.2 hrest)

/-- Outputs that agree step by step agree over a run. -/
theorem outputs_congr {out out' : σ → ε → List α} {G G' : σ → ε → Prop} {s s' : σ} {es : List ε}
    (h : M.ReachableUnder G s) (hG : M.Along G s es) (hG' : M.Along G' s es)
    (hs : M.run s es = some s')
    (hstep : ∀ s e s', M.ReachableUnder G s → G' s e → M.step s e = some s' → out s e = out' s e) :
    M.outputs out s es = M.outputs out' s es := by
  induction es generalizing s with
  | nil => rfl
  | cons e es ih =>
      obtain ⟨s₁, hs₁, hrest⟩ := Option.bind_eq_some_iff.mp hs
      rw [along_cons hs₁] at hG hG'
      rw [outputs_cons hs₁, outputs_cons hs₁, hstep s e s₁ h hG'.1 hs₁,
        ih (.step h hG.1 hs₁) hG.2 hG'.2 hrest]

/-- **Between two states.** What every step keeps from its start, and what every step must have had at its
start to have it at its end, holds all along a run that begins with the one and ends with the other. -/
theorem Along.between {G : σ → ε → Prop} {P Q : σ → Prop} {s s' : σ} {es : List ε}
    (h : M.ReachableUnder G s) (hG : M.Along G s es) (hs : M.run s es = some s') (hP : P s)
    (hQ : Q s')
    (hforth : ∀ s e s', M.ReachableUnder G s → P s → M.step s e = some s' → P s')
    (hback : ∀ s e s', M.ReachableUnder G s → P s → M.step s e = some s' → Q s' → Q s) :
    Q s ∧ M.Along (fun s e => P s ∧ Q s ∧ ∀ s', M.step s e = some s' → Q s') s es := by
  induction es generalizing s with
  | nil =>
      cases hs
      exact ⟨hQ, trivial⟩
  | cons e es ih =>
      obtain ⟨s₁, hs₁, hrest⟩ := Option.bind_eq_some_iff.mp hs
      rw [along_cons hs₁] at hG
      obtain ⟨hQ₁, halong⟩ := ih (.step h hG.1 hs₁) hG.2 hrest (hforth s e s₁ h hP hs₁)
      have hQs : Q s := hback s e s₁ h hP hs₁ hQ₁
      refine ⟨hQs, (along_cons hs₁).mpr ⟨⟨hP, hQs, ?_⟩, halong⟩⟩
      intro s₂ hs₂
      cases hs₁.symm.trans hs₂
      exact hQ₁

end Machine

end ComputerNetworking.Lib
