/-
# ComputerNetworking.Server.RunServer -- the loop of a server

The loop of `run_server` is the same in libtcp and in libudp: reap, wait for a client with a time limit, and
let the client handler accept it. A server that has a limit for timeouts stops at that many in a row, not
counting interruptions, and a server without one never stops of itself. Behind the loop `join_clients` waits
for the processes in the vector; a `waitpid` that fails there is not repeated.

The two client handlers come in by what the loop uses of them: `Handlers`.
-/
import ComputerNetworking.Lib.Patience
import ComputerNetworking.Tcp.ClientHandler
import ComputerNetworking.Udp.ClientHandler

namespace ComputerNetworking.Server

open ComputerNetworking.Lib
open ComputerNetworking.Tcp (Address)

/-! ## The client handler -/

/-- A client handler as the loop sees it: `reap_clients` and `accept` are called by the loop, and the rest is up
to the system and to `accept` itself. In process mode the vector has the handlers that run, and outside
`accept` none is started. -/
structure Handlers (σ ε : Type) where
  machine : Machine σ ε
  reap : ε
  enter : Nat → ε
  calledByLoop : ε → Bool
  accepting : σ → Bool
  forks : σ → Bool
  clients : σ → List Nat
  running : σ → List Nat
  mode : ∀ s e s', machine.step s e = some s' → forks s' = forks s
  tracked : ∀ s, machine.Reachable s → forks s = true → running s ⊆ clients s
  outside : ∀ s e s', accepting s = false → calledByLoop e = false → machine.step s e = some s' →
    accepting s' = false ∧ running s' ⊆ running s
  reaps : ∀ s s', machine.step s reap = some s' → accepting s' = accepting s

/-! ## The loop -/

/-- The configuration data that the loop reads; the timeout handler may be null. -/
structure Configuration where
  timeout : UInt32
  maxTimeouts : UInt32
  timeoutHandler : Address

/-- Why the loop was left. -/
inductive Stop where
  | selectError
  | maxTimeouts
  deriving DecidableEq

inductive Phase where
  /-- In front of `reap_clients`, or in `accept`. -/
  | loop
  /-- At `select`. -/
  | select
  /-- In `join_clients`, with the clients still to be waited for. -/
  | join (why : Stop) (clients : List Nat)
  | returned (why : Stop)
  deriving DecidableEq

/-- Why, if the loop has been left. -/
def Phase.left : Phase → Option Stop
  | loop | select => none
  | join why _ | returned why => some why

/-- The operational data, with the calls of the timeout handler and the clients whose `waitpid` failed. -/
structure RunServer (σ : Type) where
  clientHandler : σ
  timeoutCount : UInt32
  timeoutCalls : Nat
  missed : List Nat
  phase : Phase

inductive Event (ε : Type) where
  /-- In the client handler, or a process ends. -/
  | handlers (e : ε)
  | reap
  /-- -1 from `select`, with EINTR. -/
  | interrupted
  /-- -1 with any other error. -/
  | selectError
  /-- 0. -/
  | timeout
  /-- The socket is ready, or there is no `select`. -/
  | ready (rand : Nat)
  /-- `waitpid` returns for the next client. -/
  | waited
  /-- -1 from `waitpid`: a signal came. -/
  | waitFails
  | joined

variable {σ ε : Type} (H : Handlers σ ε) (c : Configuration)

/-- A timeout. -/
def RunServer.countTimeout (s : RunServer σ) : RunServer σ :=
  let s := { s with
    timeoutCount := s.timeoutCount + 1
    timeoutCalls := if c.timeoutHandler ≠ 0 then s.timeoutCalls + 1 else s.timeoutCalls }
  if 0 < c.maxTimeouts ∧ c.maxTimeouts ≤ s.timeoutCount then
    { s with phase := .join .maxTimeouts (H.clients s.clientHandler) }
  else { s with phase := .loop }

/-- One step of `run_server`, or of the processes next to it. -/
def step (s : RunServer σ) : Event ε → Option (RunServer σ)
  | .handlers e =>
      if H.calledByLoop e then none
      else (H.machine.step s.clientHandler e).map fun h => { s with clientHandler := h }
  | .reap =>
      if s.phase = .loop ∧ H.accepting s.clientHandler = false then
        (H.machine.step s.clientHandler H.reap).map fun h => { s with clientHandler := h, phase := .select }
      else none
  | .interrupted => if s.phase = .select ∧ 0 < c.timeout then some { s with phase := .loop } else none
  | .selectError =>
      if s.phase = .select ∧ 0 < c.timeout then
        some { s with phase := .join .selectError (H.clients s.clientHandler) }
      else none
  | .timeout => if s.phase = .select ∧ 0 < c.timeout then some (s.countTimeout H c) else none
  | .ready rand =>
      if s.phase = .select then
        (H.machine.step s.clientHandler (H.enter rand)).map fun h =>
          { s with clientHandler := h, timeoutCount := 0, phase := .loop }
      else none
  | .waited =>
      match s.phase with
      | .join why (id :: clients) =>
          if id ∈ H.running s.clientHandler then none else some { s with phase := .join why clients }
      | _ => none
  | .waitFails =>
      match s.phase with
      | .join why (id :: clients) => some { s with missed := s.missed ++ [id], phase := .join why clients }
      | _ => none
  | .joined =>
      match s.phase with
      | .join why [] => some { s with phase := .returned why }
      | _ => none

/-- A server that enters its loop. -/
def runServer : Machine (RunServer σ) (Event ε) where
  init s := H.machine.init s.clientHandler ∧ H.accepting s.clientHandler = false ∧ s.timeoutCount = 0 ∧
    s.timeoutCalls = 0 ∧ s.missed = [] ∧ s.phase = .loop
  step := step H c

/-! ## What a step does -/

def Event.isTimeout : Event ε → Bool
  | timeout => true
  | _ => false

def Event.isWaitFails : Event ε → Bool
  | waitFails => true
  | _ => false

def Event.sign : Event ε → Sign
  | timeout => .silence
  | ready _ => .word
  | _ => .nothing

/-- A step that is neither a timeout nor the next client. -/
inductive Moves (H : Handlers σ ε) (s : RunServer σ) : RunServer σ → Prop
  | handlers {e : ε} {h : σ} (he : H.calledByLoop e = false)
      (hs : H.machine.step s.clientHandler e = some h) : Moves H s { s with clientHandler := h }
  | reap {h : σ} (hphase : s.phase = .loop) (hidle : H.accepting s.clientHandler = false)
      (hs : H.machine.step s.clientHandler H.reap = some h) :
      Moves H s { s with clientHandler := h, phase := .select }
  | interrupted (hphase : s.phase = .select) : Moves H s { s with phase := .loop }
  | selectError (hphase : s.phase = .select) :
      Moves H s { s with phase := .join .selectError (H.clients s.clientHandler) }
  | waited {why : Stop} {id : Nat} {clients : List Nat} (hphase : s.phase = .join why (id :: clients))
      (hid : id ∉ H.running s.clientHandler) : Moves H s { s with phase := .join why clients }
  | waitFails {why : Stop} {id : Nat} {clients : List Nat} (hphase : s.phase = .join why (id :: clients)) :
      Moves H s { s with missed := s.missed ++ [id], phase := .join why clients }
  | joined {why : Stop} (hphase : s.phase = .join why []) : Moves H s { s with phase := .returned why }

section Steps

variable {H c} {s s' : RunServer σ} {e : Event ε}

/-- **What a step does.** -/
theorem step_cases (hs : step H c s e = some s') :
    (e = .timeout ∧ s.phase = .select ∧ s' = s.countTimeout H c) ∨
    (∃ rand h, e = .ready rand ∧ s.phase = .select ∧
      H.machine.step s.clientHandler (H.enter rand) = some h ∧
      s' = { s with clientHandler := h, timeoutCount := 0, phase := .loop }) ∨
    (e.sign = .nothing ∧ e.isTimeout = false ∧
      s'.missed.length = s.missed.length + (if e.isWaitFails then 1 else 0) ∧ Moves H s s') := by
  cases e with
  | handlers e =>
      simp only [step] at hs
      split_ifs at hs with hcalled
      obtain ⟨h, hstep, rfl⟩ := Option.map_eq_some_iff.mp hs
      exact .inr (.inr ⟨rfl, rfl, rfl, .handlers (Bool.not_eq_true _ ▸ hcalled) hstep⟩)
  | reap =>
      obtain ⟨hat, hs⟩ := Option.ite_none_right_eq_some.mp hs
      obtain ⟨h, hstep, rfl⟩ := Option.map_eq_some_iff.mp hs
      exact .inr (.inr ⟨rfl, rfl, rfl, .reap hat.1 hat.2 hstep⟩)
  | interrupted =>
      obtain ⟨hat, hs⟩ := Option.ite_none_right_eq_some.mp hs
      cases hs
      exact .inr (.inr ⟨rfl, rfl, rfl, .interrupted hat.1⟩)
  | selectError =>
      obtain ⟨hat, hs⟩ := Option.ite_none_right_eq_some.mp hs
      cases hs
      exact .inr (.inr ⟨rfl, rfl, rfl, .selectError hat.1⟩)
  | timeout =>
      obtain ⟨hat, hs⟩ := Option.ite_none_right_eq_some.mp hs
      cases hs
      exact .inl ⟨rfl, hat.1, rfl⟩
  | ready rand =>
      obtain ⟨hat, hs⟩ := Option.ite_none_right_eq_some.mp hs
      obtain ⟨h, hstep, rfl⟩ := Option.map_eq_some_iff.mp hs
      exact .inr (.inl ⟨rand, h, rfl, hat, hstep, rfl⟩)
  | waited =>
      simp only [step] at hs
      split at hs
      · rename_i hphase
        split_ifs at hs with hrunning
        cases hs
        exact .inr (.inr ⟨rfl, rfl, rfl, .waited hphase hrunning⟩)
      · cases hs
  | waitFails =>
      simp only [step] at hs
      split at hs
      · rename_i hphase
        cases hs
        exact .inr (.inr ⟨rfl, rfl, List.length_append, .waitFails hphase⟩)
      · cases hs
  | joined =>
      simp only [step] at hs
      split at hs
      · rename_i hphase
        cases hs
        exact .inr (.inr ⟨rfl, rfl, rfl, .joined hphase⟩)
      · cases hs

theorem Moves.counts (h : Moves H s s') :
    s'.timeoutCount = s.timeoutCount ∧ s'.timeoutCalls = s.timeoutCalls := by
  cases h <;> exact ⟨rfl, rfl⟩

/-- Such a step does not give up, and behind the loop it does not change how it ended. -/
theorem Moves.left (h : Moves H s s') :
    s'.phase.left = s.phase.left ∨ s.phase.left = none ∧ s'.phase.left = some .selectError := by
  cases h with
  | handlers he hs => exact .inl rfl
  | reap hphase hidle hs => exact .inl (by rw [hphase]; rfl)
  | interrupted hphase => exact .inl (by rw [hphase]; rfl)
  | selectError hphase => exact .inr ⟨by rw [hphase]; rfl, rfl⟩
  | waited hphase hid => exact .inl (by rw [hphase]; rfl)
  | waitFails hphase => exact .inl (by rw [hphase]; rfl)
  | joined hphase => exact .inl (by rw [hphase]; rfl)

@[simp] theorem RunServer.countTimeout_timeoutCount :
    (s.countTimeout H c).timeoutCount = s.timeoutCount + 1 := by
  unfold countTimeout
  dsimp only
  split_ifs <;> rfl

@[simp] theorem RunServer.countTimeout_timeoutCalls : (s.countTimeout H c).timeoutCalls =
    s.timeoutCalls + if c.timeoutHandler ≠ 0 then 1 else 0 := by
  unfold countTimeout
  dsimp only
  split_ifs <;> rfl

@[simp] theorem RunServer.countTimeout_missed : (s.countTimeout H c).missed = s.missed := by
  unfold countTimeout
  dsimp only
  split_ifs <;> rfl

@[simp] theorem RunServer.countTimeout_clientHandler :
    (s.countTimeout H c).clientHandler = s.clientHandler := by
  unfold countTimeout
  dsimp only
  split_ifs <;> rfl

theorem RunServer.countTimeout_phase : (s.countTimeout H c).phase =
    if 0 < c.maxTimeouts ∧ c.maxTimeouts ≤ s.timeoutCount + 1 then
      .join .maxTimeouts (H.clients s.clientHandler)
    else .loop := by
  unfold countTimeout
  dsimp only
  split_ifs <;> rfl

end Steps

/-! ## Giving up -/

/-- Below the limit the count does not overflow. -/
theorem toNat_add_one {n max : UInt32} (h : n.toNat < max.toNat) : (n + 1).toNat = n.toNat + 1 := by
  have hmax := max.toNat_lt
  rw [UInt32.toNat_add]
  exact Nat.mod_eq_of_lt (by simp only [UInt32.toNat_one]; omega)

theorem runServer_patient (hmax : 0 < c.maxTimeouts) :
    (runServer H c).Patient Event.sign c.maxTimeouts.toNat (fun s => s.timeoutCount.toNat)
      (fun s => s.phase.left = none) (fun s => s.phase.left = some .maxTimeouts) where
  stays s e s' hs hleft := by
    rcases step_cases hs with ⟨-, hphase, -⟩ | ⟨rand, h, -, hphase, -⟩ | ⟨hsign, -, -, hmoves⟩
    · rw [hphase] at hleft
      exact absurd rfl hleft
    · rw [hphase] at hleft
      exact absurd rfl hleft
    · rcases hmoves.left with hsame | ⟨hnone, -⟩
      · rw [hsame]
        exact ⟨hleft, hsign, Iff.rfl⟩
      · exact absurd hnone hleft
  not_both s hnone hgave := by
    rw [hnone] at hgave
    cases hgave
  counts s e s' hrunning hcount hs _ := by
    rcases step_cases hs with ⟨rfl, -, rfl⟩ | ⟨rand, h, rfl, -, -, rfl⟩ | ⟨hsign, -, -, hmoves⟩
    · rw [RunServer.countTimeout_timeoutCount, toNat_add_one hcount]
      rfl
    · rfl
    · rw [hsign, hmoves.counts.1]
      rfl
  gives_up_iff s e s' hrunning hcount hs := by
    rcases step_cases hs with ⟨rfl, -, rfl⟩ | ⟨rand, h, rfl, -, -, rfl⟩ | ⟨hsign, -, -, hmoves⟩
    · rw [RunServer.countTimeout_phase]
      have hlimit : c.maxTimeouts ≤ s.timeoutCount + 1 ↔ s.timeoutCount.toNat + 1 = c.maxTimeouts.toNat := by
        rw [UInt32.le_iff_toNat_le, toNat_add_one hcount]
        omega
      split_ifs with hover
      · exact iff_of_true rfl ⟨rfl, hlimit.mp hover.2⟩
      · exact iff_of_false (nomatch ·) fun h => hover ⟨hmax, hlimit.mpr h.2⟩
    · exact iff_of_false (nomatch ·) fun h => nomatch h.1
    · rw [hsign]
      refine iff_of_false (fun hgave => ?_) fun h => nomatch h.1
      rcases hmoves.left with hsame | ⟨-, herror⟩
      · rw [hsame, hrunning] at hgave
        cases hgave
      · rw [herror] at hgave
        cases hgave

/-- Without a limit the server does not give up. -/
theorem left_ne_of_unlimited (hmax : c.maxTimeouts = 0) {s : RunServer σ}
    (h : (runServer H c).Reachable s) : s.phase.left ≠ some .maxTimeouts := by
  apply h.invariant
  · rintro s ⟨-, -, -, -, -, hphase⟩
    rw [hphase]
    exact nofun
  · intro s e s' hleft _ hs
    rcases step_cases hs with ⟨rfl, -, rfl⟩ | ⟨rand, h, rfl, -, -, rfl⟩ | ⟨-, -, -, hmoves⟩
    · rw [RunServer.countTimeout_phase, hmax, if_neg (by simp)]
      exact nofun
    · exact nofun
    · rcases hmoves.left with hsame | ⟨-, herror⟩
      · rwa [hsame]
      · rw [herror]
        exact nofun

/-! ## Returning -/

/-- The client handler is in one of its own states. -/
theorem clientHandler_reachable {s : RunServer σ} (h : (runServer H c).Reachable s) :
    H.machine.Reachable s.clientHandler := by
  apply h.invariant
  · intro s h0
    exact .init h0.1
  · intro s e s' hr _ hs
    rcases step_cases hs with ⟨-, -, rfl⟩ | ⟨rand, h, -, -, hstep, rfl⟩ | ⟨-, -, -, hmoves⟩
    · rwa [RunServer.countTimeout_clientHandler]
    · exact .step hr trivial hstep
    · cases hmoves with
      | handlers he hstep => exact .step hr trivial hstep
      | reap hphase hidle hstep => exact .step hr trivial hstep
      | interrupted hphase => exact hr
      | selectError hphase => exact hr
      | waited hphase hid => exact hr
      | waitFails hphase => exact hr
      | joined hphase => exact hr

/-- The handlers that run are among those still to be waited for and those that have been missed. -/
def Waits (H : Handlers σ ε) (s : RunServer σ) : Phase → Prop
  | .loop => True
  | .select => H.accepting s.clientHandler = false
  | .join _ clients => H.accepting s.clientHandler = false ∧
      (H.forks s.clientHandler = true → H.running s.clientHandler ⊆ clients ++ s.missed)
  | .returned _ => H.accepting s.clientHandler = false ∧
      (H.forks s.clientHandler = true → H.running s.clientHandler ⊆ s.missed)

/-- Outside `accept` no handler is started. -/
theorem Waits.handlers {s : RunServer σ} {h : σ} {e : ε} (hw : Waits H s s.phase)
    (he : H.calledByLoop e = false) (hs : H.machine.step s.clientHandler e = some h) :
    Waits H { s with clientHandler := h } s.phase := by
  have hout := fun hidle => H.outside s.clientHandler e h hidle he hs
  have hmode := H.mode s.clientHandler e h hs
  cases hphase : s.phase with
  | loop => trivial
  | select =>
      rw [hphase] at hw
      exact (hout hw).1
  | join why clients =>
      rw [hphase] at hw
      obtain ⟨hidle, hless⟩ := hout hw.1
      exact ⟨hidle, fun hforks id hid => hw.2 (hmode ▸ hforks) (hless hid)⟩
  | returned why =>
      rw [hphase] at hw
      obtain ⟨hidle, hless⟩ := hout hw.1
      exact ⟨hidle, fun hforks id hid => hw.2 (hmode ▸ hforks) (hless hid)⟩

theorem waits_of_reachable {s : RunServer σ} (h : (runServer H c).Reachable s) : Waits H s s.phase := by
  apply h.invariant_of_reachable
  · rintro s ⟨-, -, -, -, -, hphase⟩
    rw [hphase]
    trivial
  · intro s e s' hreachable hw _ hs
    have htracked := H.tracked s.clientHandler (clientHandler_reachable H c hreachable)
    rcases step_cases hs with ⟨-, hphase, rfl⟩ | ⟨rand, h, -, -, -, rfl⟩ | ⟨-, -, -, hmoves⟩
    · rw [hphase] at hw
      rw [RunServer.countTimeout_phase]
      split_ifs
      · unfold Waits
        rw [RunServer.countTimeout_clientHandler]
        exact ⟨hw, fun hforks => List.subset_append_of_subset_left _ (htracked hforks)⟩
      · trivial
    · trivial
    · cases hmoves with
      | handlers he hstep => exact Waits.handlers H hw he hstep
      | reap hphase hidle hstep => exact (H.reaps _ _ hstep).trans hidle
      | interrupted hphase => trivial
      | selectError hphase =>
          rw [hphase] at hw
          exact ⟨hw, fun hforks => List.subset_append_of_subset_left _ (htracked hforks)⟩
      | waited hphase hid =>
          rw [hphase] at hw
          refine ⟨hw.1, fun hforks id' hrunning => ?_⟩
          rcases List.mem_cons.mp (hw.2 hforks hrunning) with rfl | hmem
          · exact absurd hrunning hid
          · exact hmem
      | waitFails hphase =>
          rw [hphase] at hw
          refine ⟨hw.1, fun hforks id' hrunning => ?_⟩
          rcases List.mem_cons.mp (hw.2 hforks hrunning) with rfl | hmem
          · exact List.mem_append_right _ (List.mem_append_right _ (List.mem_singleton_self _))
          · rw [← List.append_assoc]
            exact List.mem_append_left _ hmem
      | joined hphase =>
          rw [hphase] at hw
          exact hw

theorem timeoutCalls_of_run {s s' : RunServer σ} {es : List (Event ε)}
    (hrun : (runServer H c).run s es = some s') : s'.timeoutCalls =
      s.timeoutCalls + if c.timeoutHandler ≠ 0 then es.countP Event.isTimeout else 0 := by
  induction es generalizing s with
  | nil =>
      cases hrun
      simp
  | cons e es ih =>
      obtain ⟨s₁, hs, hrest⟩ := Option.bind_eq_some_iff.mp hrun
      rw [ih hrest, List.countP_cons]
      rcases step_cases hs with ⟨rfl, -, rfl⟩ | ⟨rand, h, rfl, -, -, rfl⟩ | ⟨-, hno, -, hmoves⟩
      · rw [RunServer.countTimeout_timeoutCalls]
        simp only [Event.isTimeout, if_true]
        split_ifs <;> omega
      · simp [Event.isTimeout]
      · rw [hmoves.counts.2, hno]
        simp

theorem missed_of_run {s s' : RunServer σ} {es : List (Event ε)}
    (hrun : (runServer H c).run s es = some s') :
    s'.missed.length = s.missed.length + es.countP Event.isWaitFails := by
  induction es generalizing s with
  | nil =>
      cases hrun
      rfl
  | cons e es ih =>
      obtain ⟨s₁, hs, hrest⟩ := Option.bind_eq_some_iff.mp hrun
      rw [ih hrest, List.countP_cons]
      rcases step_cases hs with ⟨rfl, -, rfl⟩ | ⟨rand, h, rfl, -, -, rfl⟩ | ⟨-, -, hmissed, -⟩
      · rw [RunServer.countTimeout_missed]
        rfl
      · rfl
      · rw [hmissed]
        omega

/-- The client handler of libtcp. -/
def tcpHandlers : Handlers Tcp.Serving Tcp.Event where
  machine := Tcp.serving
  reap := .reap
  enter := .enter
  calledByLoop
    | .reap | .enter _ => true
    | _ => false
  accepting s := s.waiting.isSome
  forks s := !s.handler.useThread
  clients s := s.handler.clients
  running s := s.running
  mode s e s' hs := by rw [Tcp.useThread_of_step hs]
  tracked s hs hforks id hid := by
    have hmode : s.handler.useThread = false := by simpa using hforks
    exact ((Tcp.booked_of_reachable hs).process hmode).1.mem_iff.mpr (List.mem_append_left _ hid)
  outside s e s' hidle he hs := by
    have hnone : s.waiting = none := by simpa using hidle
    cases e with
    | finish i place =>
        obtain ⟨id, -, rfl⟩ := Option.map_eq_some_iff.mp hs
        exact ⟨hidle, (List.eraseIdx_sublist ..).subset⟩
    | reap => cases he
    | enter rand => cases he
    | acceptFails =>
        obtain ⟨w, hw, -⟩ := Option.map_eq_some_iff.mp hs
        rw [hnone] at hw
        cases hw
    | connection id =>
        obtain ⟨w, hw, -⟩ := Option.bind_eq_some_iff.mp hs
        rw [hnone] at hw
        cases hw
  reaps s s' hs := by
    obtain ⟨-, hs⟩ := Option.ite_none_right_eq_some.mp hs
    cases hs
    rfl

/-- The client handler of libudp. -/
def udpHandlers : Handlers Udp.Serving Udp.Event where
  machine := Udp.serving
  reap := .reap
  enter := .enter
  calledByLoop
    | .reap | .enter _ => true
    | _ => false
  accepting s := s.waiting.isSome
  forks _ := true
  clients s := s.handler.clients
  running s := s.running
  mode _ _ _ _ := rfl
  tracked s hs _ id hid := by
    have hbooked := Tcp.booked_of_reachable (Udp.erase_reachable hs)
    exact (hbooked.process rfl).1.mem_iff.mpr (List.mem_append_left _ hid)
  outside s e s' hidle he hs := by
    have hnone : s.waiting = none := by simpa using hidle
    cases e with
    | finish i place =>
        obtain ⟨id, -, rfl⟩ := Option.map_eq_some_iff.mp hs
        exact ⟨hidle, (List.eraseIdx_sublist ..).subset⟩
    | reap => cases he
    | enter rand => cases he
    | recvFails =>
        obtain ⟨w, hw, -⟩ := Option.map_eq_some_iff.mp hs
        rw [hnone] at hw
        cases hw
    | datagram d id =>
        obtain ⟨w, hw, -⟩ := Option.bind_eq_some_iff.mp hs
        rw [hnone] at hw
        cases hw
  reaps s s' hs := by
    obtain ⟨-, hs⟩ := Option.ite_none_right_eq_some.mp hs
    cases hs
    rfl

/-- A server before its loop. -/
def RunServer.start (clientHandler : σ) : RunServer σ := ⟨clientHandler, 0, 0, [], .loop⟩

/-- A server that stops after two seconds without a client. -/
def twoSeconds : Configuration := ⟨1, 2, 7⟩

/-- A client comes after the first timeout, and its handler outlasts the loop. -/
def oneVisit : List (Event Udp.Event) :=
  [.reap, .timeout, .reap, .ready 0, .handlers (.datagram ⟨[7], [1]⟩ (some 10)), .reap, .interrupted, .reap,
    .timeout, .reap, .timeout, .handlers (.finish 0 0), .waited, .joined]

/-- The same, but the handler ends only when a signal has kept `join_clients` from waiting for it. -/
def missedVisit : List (Event Udp.Event) :=
  [.reap, .timeout, .reap, .ready 0, .handlers (.datagram ⟨[7], [1]⟩ (some 10)), .reap, .timeout, .reap,
    .timeout, .waitFails, .joined]

/-- Nobody comes. -/
def noVisit : List (Event Tcp.Event) := [.reap, .timeout, .reap, .timeout, .joined]

end ComputerNetworking.Server
