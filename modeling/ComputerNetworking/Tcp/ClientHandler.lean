/-
# ComputerNetworking.Tcp.ClientHandler -- the handlers of a running server

`ClientHandler::accept` and `reap_clients` of `server.cpp`, next to what the system knows: which handlers run,
and which processes have ended and were not waited for. The limit is checked against the vector of pids. In
process mode that is all processes not waited for, and `reap_clients` takes out those that have ended. In
thread mode nothing is ever pushed, so the limit is not checked against anything.
-/
import Mathlib.Data.List.Nodup
import Mathlib.Data.List.Perm.Basic
import ComputerNetworking.Lib.Transition

namespace ComputerNetworking.Tcp

open ComputerNetworking.Lib

/-- A function pointer or a `void*`. -/
abbrev Address := UInt64

/-- `handle_mode`. -/
inductive HandleMode where
  | roundRobin
  | random
  deriving DecidableEq

/-- `ClientHandler`. -/
structure ClientHandler where
  currentHandler : Nat
  clients : List Nat
  maxClients : UInt32
  handlers : List Address
  mode : HandleMode
  debugMode : Bool
  extraData : Address
  useThread : Bool
  deriving DecidableEq

/-- `ClientHandler()`. -/
def ClientHandler.new : ClientHandler := ⟨0, [], 5, [], .roundRobin, false, 0, false⟩

/-! ## A running server -/

/-- What becomes of a connection. -/
inductive Fate where
  /-- `handler(client, extra_data)` runs in the process or thread `id`. -/
  | handled (handler extraData : Address) (id : Nat)
  | closed
  deriving DecidableEq

/-- Inside `accept`, before a connection comes: the function chosen, and, for the record, how many handlers
were running when `reap_clients` returned. -/
structure Waiting where
  handler : Address
  atReap : Nat
  deriving DecidableEq

/-- A server in its loop. `running` are the ids of the processes or threads that run a handler, `ended` the
processes that `waitpid` has still to report, in its order. -/
structure Serving where
  handler : ClientHandler
  running : List Nat
  ended : List Nat
  waiting : Option Waiting
  fates : List Fate
  deriving DecidableEq

inductive Event where
  /-- The `i`-th running handler returns; as a process it is reported at some place. -/
  | finish (i place : Nat)
  /-- `reap_clients` in the loop of the server. -/
  | reap
  /-- `accept` up to `::accept`, with what `rand` returns. -/
  | enter (rand : Nat)
  | acceptFails
  /-- A connection, with the id of the new process or thread; `none` where there is none. -/
  | connection (id : Option Nat)
  deriving DecidableEq

/-- The loop of `reap_clients`. Behind the ended processes `waitpid` returns 0, or -1 if no process is
left. -/
def reapLoop (clients : List Nat) : List Nat → List Nat × List Nat
  | [] => (clients, [])
  | finished :: ended =>
      if clients = [] then (clients, finished :: ended)
      else reapLoop (clients.filter (· ≠ finished)) ended

/-- `reap_clients`. -/
def reapClients (s : Serving) : Serving :=
  let reaped := reapLoop s.handler.clients s.ended
  { s with handler := { s.handler with clients := reaped.1 }, ended := reaped.2 }

/-- The `switch` of `accept`: the function, and the next `current_handler`. -/
def ClientHandler.choose (h : ClientHandler) (rand : Nat) : Option Address × Nat :=
  match h.mode with
  | .roundRobin => (h.handlers[h.currentHandler]?, (h.currentHandler + 1) % h.handlers.length)
  | .random => (h.handlers[rand % h.handlers.length]?, h.currentHandler)

/-- `accept` up to `::accept`; `none` where the index is out of bounds. -/
def enter (s : Serving) (rand : Nat) : Option Serving :=
  let s := reapClients s
  let chosen := s.handler.choose rand
  chosen.1.map fun handler =>
    { s with
      handler := { s.handler with currentHandler := chosen.2 }
      waiting := some ⟨handler, s.running.length⟩ }

/-- `accept` from a connection on; `none` where `std::thread` throws, or for an id that is in use. -/
def connect (s : Serving) (w : Waiting) (id : Option Nat) : Option Serving :=
  let s := { s with waiting := none }
  if s.handler.maxClients.toNat ≤ s.handler.clients.length then
    some { s with fates := s.fates ++ [.closed] }
  else
    match id with
    | some id =>
        if id ∈ s.running ∨ id ∈ s.ended then none
        else
          let s := { s with
            running := s.running ++ [id]
            fates := s.fates ++ [.handled w.handler s.handler.extraData id] }
          if s.handler.useThread then some s
          else some { s with handler := { s.handler with clients := s.handler.clients ++ [id] } }
    | none =>
        if s.handler.useThread then none
        -- `fork` has failed
        else some { s with fates := s.fates ++ [.closed] }

/-- A handler returns. -/
def finish (s : Serving) (i place : Nat) : Option Serving :=
  (s.running[i]?).map fun id =>
    { s with
      running := s.running.eraseIdx i
      ended := if s.handler.useThread then s.ended
        else s.ended.take place ++ id :: s.ended.drop place }

def step (s : Serving) : Event → Option Serving
  | .finish i place => finish s i place
  | .reap => if s.waiting = none then some (reapClients s) else none
  | .enter rand => if s.waiting = none then enter s rand else none
  | .acceptFails => s.waiting.map fun _ => { s with waiting := none }
  | .connection id => s.waiting.bind fun w => connect s w id

/-- The server, as `start` lets it begin. -/
def serving : Machine Serving Event where
  init s := s.handler.clients = [] ∧ s.handler.currentHandler = 0 ∧ s.handler.maxClients ≠ 0 ∧
    s.handler.handlers ≠ [] ∧ s.running = [] ∧ s.ended = [] ∧ s.waiting = none ∧ s.fates = []
  step := step

/-! ## The limit -/

/-- The limit of the configuration. -/
def Serving.limit (s : Serving) : Nat := s.handler.maxClients.toNat

/-- What the limit means for a step: not too many handlers run afterwards, a connection over the limit is
closed, and if there was room when `reap_clients` returned a handler runs. -/
structure ObeysTo (s : Serving) (e : Event) (s' : Serving) : Prop where
  limited : s'.running.length ≤ s'.limit
  refused : ∀ id, e = .connection id → s.limit ≤ s.running.length →
    s'.running = s.running ∧ s'.fates = s.fates ++ [.closed]
  room : ∀ id w, e = .connection (some id) → s.waiting = some w → w.atReap < s.limit →
    s'.running = s.running ++ [id] ∧
      s'.fates = s.fates ++ [.handled w.handler s.handler.extraData id]

/-- The step obeys the limit. -/
def Obeys (s : Serving) (e : Event) : Prop := ∀ s', step s e = some s' → ObeysTo s e s'

/-- In thread mode a new handler starts below the limit only. -/
def BelowLimit (s : Serving) (e : Event) : Prop :=
  ∀ id, e = .connection (some id) → s.handler.useThread = true → s.running.length < s.limit

/-! ## Reaping -/

section Reap

variable {s s' : Serving} {clients running ended : List Nat}

/-- If the vector has all processes not waited for, those that run are left. -/
theorem reapLoop_spec (hperm : clients.Perm (running ++ ended)) (hnodup : (running ++ ended).Nodup) :
    (reapLoop clients ended).1.Perm running ∧ (reapLoop clients ended).2 = [] := by
  induction ended generalizing clients with
  | nil =>
      rw [List.append_nil] at hperm
      exact ⟨hperm, rfl⟩
  | cons finished ended ih =>
      have hmem : finished ∈ clients := by
        apply hperm.mem_iff.mpr
        exact List.mem_append_right _ (List.mem_cons_self ..)
      have hsplit := List.nodup_middle.mp hnodup
      obtain ⟨hnew, hrest⟩ := List.nodup_cons.mp hsplit
      have hothers : (running ++ finished :: ended).filter (· ≠ finished) = running ++ ended := by
        have hkept : (running ++ ended).filter (· ≠ finished) = running ++ ended := by
          apply List.filter_eq_self.mpr
          intro id hid
          rw [decide_eq_true_eq]
          rintro rfl
          exact hnew hid
        rw [List.filter_append, List.filter_cons_of_neg (by simp), ← List.filter_append, hkept]
      have hfiltered := hperm.filter (· ≠ finished)
      rw [hothers] at hfiltered
      rw [reapLoop, if_neg (List.ne_nil_of_mem hmem)]
      exact ih hfiltered hrest

/-- Reaping pushes nothing. -/
theorem length_reapLoop_le : (reapLoop clients ended).1.length ≤ clients.length := by
  induction ended generalizing clients with
  | nil => exact Nat.le_refl _
  | cons finished ended ih =>
      rw [reapLoop]
      split_ifs
      · exact Nat.le_refl _
      · exact Nat.le_trans ih (List.length_filter_le ..)

theorem reapLoop_nil : reapLoop [] ended = ([], ended) := by
  rcases ended with _ | ⟨finished, ended⟩
  · rfl
  · rw [reapLoop, if_pos rfl]

end Reap

/-! ## The vector of pids -/

/-- In process mode the vector has the processes not waited for, and as many as were running when
`reap_clients` returned if `accept` waits; in thread mode it is empty. It is never over the limit. -/
structure Booked (s : Serving) : Prop where
  process : s.handler.useThread = false →
    s.handler.clients.Perm (s.running ++ s.ended) ∧ (s.running ++ s.ended).Nodup
  waiting : s.handler.useThread = false → ∀ w, s.waiting = some w → s.handler.clients.length = w.atReap
  thread : s.handler.useThread = true → s.handler.clients = []
  bounded : s.handler.clients.length ≤ s.limit
  positive : 0 < s.limit

section Steps

variable {s s' : Serving}

theorem Booked.running_le (h : Booked s) (hmode : s.handler.useThread = false) :
    s.running.length ≤ s.handler.clients.length := by
  rw [(h.process hmode).1.length_eq, List.length_append]
  exact Nat.le_add_right ..

theorem Booked.reapClients (h : Booked s) (hidle : s.waiting = none) : Booked (reapClients s) where
  process hmode := by
    obtain ⟨hperm, hnodup⟩ := h.process hmode
    obtain ⟨hleft, hnone⟩ := reapLoop_spec hperm hnodup
    show (reapLoop s.handler.clients s.ended).1.Perm (s.running ++ (reapLoop s.handler.clients s.ended).2) ∧
      (s.running ++ (reapLoop s.handler.clients s.ended).2).Nodup
    rw [hnone, List.append_nil]
    exact ⟨hleft, hnodup.of_append_left⟩
  waiting hmode w hw := by
    have hwaiting : s.waiting = some w := hw
    rw [hidle] at hwaiting
    cases hwaiting
  thread hmode := by
    show (reapLoop s.handler.clients s.ended).1 = []
    rw [h.thread hmode, reapLoop_nil]
  bounded := Nat.le_trans length_reapLoop_le h.bounded
  positive := h.positive

/-- Behind `reap_clients` the vector has the running processes. -/
theorem Booked.clients_perm_reapClients (h : Booked s) (hmode : s.handler.useThread = false) :
    (Tcp.reapClients s).handler.clients.Perm s.running := by
  obtain ⟨hperm, hnodup⟩ := h.process hmode
  exact (reapLoop_spec hperm hnodup).1

theorem Booked.enter (h : Booked s) (hidle : s.waiting = none) {rand : Nat}
    (hs : enter s rand = some s') : Booked s' := by
  unfold Tcp.enter at hs
  obtain ⟨handler, -, rfl⟩ := Option.map_eq_some_iff.mp hs
  have hreaped := h.reapClients hidle
  constructor
  · exact hreaped.process
  · intro hmode w hw
    cases hw
    exact (h.clients_perm_reapClients hmode).length_eq
  · exact hreaped.thread
  · exact hreaped.bounded
  · exact hreaped.positive

/-- A process that ends stays one not waited for. -/
theorem perm_finish {running : List Nat} (ended : List Nat) {i id : Nat} (hid : running[i]? = some id)
    (place : Nat) : (running ++ ended).Perm
      (running.eraseIdx i ++ (ended.take place ++ id :: ended.drop place)) := by
  obtain ⟨hlt, hget⟩ := List.getElem?_eq_some_iff.mp hid
  have hout : running.Perm (id :: running.eraseIdx i) := by
    rw [← hget]
    exact (List.getElem_cons_eraseIdx_perm hlt).symm
  have hin : (id :: ended).Perm (ended.take place ++ id :: ended.drop place) := by
    have hmiddle : (ended.take place ++ id :: ended.drop place).Perm
        (id :: (ended.take place ++ ended.drop place)) := List.perm_middle
    rw [List.take_append_drop] at hmiddle
    exact hmiddle.symm
  have hmiddle : (id :: running.eraseIdx i ++ ended).Perm (running.eraseIdx i ++ id :: ended) :=
    List.perm_middle.symm
  exact (hout.append_right ended).trans (hmiddle.trans (hin.append_left _))

theorem Booked.finish (h : Booked s) {i place : Nat} (hs : finish s i place = some s') : Booked s' := by
  unfold Tcp.finish at hs
  obtain ⟨id, hid, rfl⟩ := Option.map_eq_some_iff.mp hs
  constructor
  · intro hmode
    have hmode : s.handler.useThread = false := hmode
    obtain ⟨hperm, hnodup⟩ := h.process hmode
    have hmoved := perm_finish s.ended hid place
    simp only [hmode, Bool.false_eq_true, if_false]
    exact ⟨hperm.trans hmoved, hmoved.nodup_iff.mp hnodup⟩
  · exact h.waiting
  · exact h.thread
  · exact h.bounded
  · exact h.positive

/-- **What becomes of a connection.** -/
theorem connect_cases {w : Waiting} {id : Option Nat} (hs : connect s w id = some s') :
    (s.limit ≤ s.handler.clients.length ∨ id = none ∧ s.handler.useThread = false) ∧
        s' = { s with waiting := none, fates := s.fates ++ [.closed] } ∨
      ∃ new, id = some new ∧ s.handler.clients.length < s.limit ∧ new ∉ s.running ∧ new ∉ s.ended ∧
        s' = { s with
          waiting := none
          running := s.running ++ [new]
          fates := s.fates ++ [.handled w.handler s.handler.extraData new]
          handler := if s.handler.useThread then s.handler
            else { s.handler with clients := s.handler.clients ++ [new] } } := by
  unfold connect at hs
  simp only at hs
  split_ifs at hs with hfull hmode
  · cases hs
    exact .inl ⟨.inl hfull, rfl⟩
  · rcases id with _ | new
    · cases hs
    · simp only at hs
      split_ifs at hs with hused
      cases hs
      rw [not_or] at hused
      exact .inr ⟨new, rfl, Nat.not_le.mp hfull, hused.1, hused.2, by rw [if_pos hmode]⟩
  · rcases id with _ | new
    · cases hs
      rw [Bool.not_eq_true] at hmode
      exact .inl ⟨.inr ⟨rfl, hmode⟩, rfl⟩
    · simp only at hs
      split_ifs at hs with hused
      cases hs
      rw [not_or] at hused
      exact .inr ⟨new, rfl, Nat.not_le.mp hfull, hused.1, hused.2, by rw [if_neg hmode]⟩

theorem Booked.connect (h : Booked s) {w : Waiting} {id : Option Nat} (hs : connect s w id = some s') :
    Booked s' := by
  rcases connect_cases hs with ⟨-, rfl⟩ | ⟨new, -, hroom, hrunning, hended, rfl⟩
  · constructor
    · exact h.process
    · intro _ w hw
      cases hw
    · exact h.thread
    · exact h.bounded
    · exact h.positive
  · by_cases hmode : s.handler.useThread = true
    · rw [if_pos hmode]
      constructor
      · intro hprocess
        rw [show s.handler.useThread = false from hprocess] at hmode
        cases hmode
      · intro _ w hw
        cases hw
      · exact h.thread
      · exact h.bounded
      · exact h.positive
    · rw [if_neg hmode]
      rw [Bool.not_eq_true] at hmode
      obtain ⟨hperm, hnodup⟩ := h.process hmode
      constructor
      · intro _
        show (s.handler.clients ++ [new]).Perm (s.running ++ [new] ++ s.ended) ∧
          (s.running ++ [new] ++ s.ended).Nodup
        rw [List.append_assoc, List.singleton_append]
        constructor
        · refine (List.perm_append_singleton new _).trans ?_
          exact (hperm.cons new).trans List.perm_middle.symm
        · apply List.nodup_middle.mpr
          apply List.nodup_cons.mpr
          refine ⟨fun hmem => ?_, hnodup⟩
          exact (List.mem_append.mp hmem).elim hrunning hended
      · intro _ w hw
        cases hw
      · intro hthread
        rw [show s.handler.useThread = true from hthread] at hmode
        cases hmode
      · show (s.handler.clients ++ [new]).length ≤ s.limit
        rw [List.length_append, List.length_singleton]
        exact hroom
      · exact h.positive

theorem Booked.step (h : Booked s) {e : Event} (hs : Tcp.step s e = some s') : Booked s' := by
  cases e with
  | finish i place => exact h.finish hs
  | reap =>
      obtain ⟨hidle, hs⟩ := Option.ite_none_right_eq_some.mp hs
      cases hs
      exact h.reapClients hidle
  | enter rand =>
      obtain ⟨hidle, hs⟩ := Option.ite_none_right_eq_some.mp hs
      exact h.enter hidle hs
  | acceptFails =>
      obtain ⟨w, -, rfl⟩ := Option.map_eq_some_iff.mp hs
      constructor
      · exact h.process
      · intro _ w hw
        cases hw
      · exact h.thread
      · exact h.bounded
      · exact h.positive
  | connection id =>
      obtain ⟨w, -, hs⟩ := Option.bind_eq_some_iff.mp hs
      exact h.connect hs

/-- Only a connection starts a handler. -/
theorem running_le_of_step {e : Event} (hs : Tcp.step s e = some s') (he : ∀ id, e ≠ .connection id) :
    s'.running.length ≤ s.running.length ∧ s'.limit = s.limit := by
  cases e with
  | finish i place =>
      obtain ⟨id, -, rfl⟩ := Option.map_eq_some_iff.mp hs
      exact ⟨List.length_eraseIdx_le .., rfl⟩
  | reap =>
      obtain ⟨-, hs⟩ := Option.ite_none_right_eq_some.mp hs
      cases hs
      exact ⟨Nat.le_refl _, rfl⟩
  | enter rand =>
      obtain ⟨-, hs⟩ := Option.ite_none_right_eq_some.mp hs
      obtain ⟨handler, -, rfl⟩ := Option.map_eq_some_iff.mp hs
      exact ⟨Nat.le_refl _, rfl⟩
  | acceptFails =>
      obtain ⟨w, -, rfl⟩ := Option.map_eq_some_iff.mp hs
      exact ⟨Nat.le_refl _, rfl⟩
  | connection id => exact absurd rfl (he id)

/-- A connection below the limit is dealt with as the limit says. -/
theorem Booked.obeysTo_connection (h : Booked s) {id : Option Nat}
    (hlimited : s.running.length ≤ s.limit) (hbelow : BelowLimit s (.connection id))
    (hs : Tcp.step s (.connection id) = some s') : ObeysTo s (.connection id) s' := by
  obtain ⟨w, hw, hs⟩ := Option.bind_eq_some_iff.mp hs
  rcases connect_cases hs with ⟨hwhy, rfl⟩ | ⟨new, rfl, hroom, -, -, rfl⟩
  · refine ⟨hlimited, fun _ _ _ => ⟨rfl, rfl⟩, fun new w' he hw' hslot => ?_⟩
    exfalso
    cases he
    rcases hwhy with hfull | ⟨hnone, -⟩
    · by_cases hmode : s.handler.useThread = true
      · rw [h.thread hmode] at hfull
        exact absurd hfull (Nat.not_le.mpr h.positive)
      · rw [Bool.not_eq_true] at hmode
        rw [h.waiting hmode w' hw'] at hfull
        exact absurd hfull (Nat.not_le.mpr hslot)
    · cases hnone
  · -- the new handler is below the limit in either mode
    have hfree : s.running.length < s.limit := by
      by_cases hmode : s.handler.useThread = true
      · exact hbelow new rfl hmode
      · rw [Bool.not_eq_true] at hmode
        exact Nat.lt_of_le_of_lt (h.running_le hmode) hroom
    refine ⟨?_, fun _ _ hover => absurd hover (Nat.not_le.mpr hfree), fun new' w' he hw' _ => ?_⟩
    · have hlimit : Serving.limit { s with
          waiting := none
          running := s.running ++ [new]
          fates := s.fates ++ [.handled w.handler s.handler.extraData new]
          handler := if s.handler.useThread then s.handler
            else { s.handler with clients := s.handler.clients ++ [new] } } = s.limit := by
        unfold Serving.limit
        split_ifs <;> rfl
      rw [hlimit, List.length_append, List.length_singleton]
      exact hfree
    · cases he
      cases hw.symm.trans hw'
      exact ⟨rfl, rfl⟩

/-- Every step that stays below the limit obeys it. -/
theorem Booked.obeysTo (h : Booked s) {e : Event} (hlimited : s.running.length ≤ s.limit)
    (hbelow : BelowLimit s e) (hs : Tcp.step s e = some s') : ObeysTo s e s' := by
  by_cases he : ∃ id, e = .connection id
  · obtain ⟨id, rfl⟩ := he
    exact h.obeysTo_connection hlimited hbelow hs
  · rw [not_exists] at he
    obtain ⟨hless, hlimit⟩ := running_le_of_step hs he
    refine ⟨?_, fun id hid => absurd hid (he id), fun id _ hid => absurd hid (he _)⟩
    rw [hlimit]
    exact Nat.le_trans hless hlimited

end Steps

/-! ## Every run -/

section Runs

variable {s : Serving} {G : Serving → Event → Prop}

theorem booked_of_reachable (h : serving.ReachableUnder G s) : Booked s := by
  apply h.invariant
  · rintro s ⟨hclients, -, hmax, -, hrunning, hended, hwaiting, -⟩
    constructor
    · intro _
      rw [hclients, hrunning, hended]
      exact ⟨.refl _, List.nodup_nil⟩
    · intro _ w hw
      rw [hwaiting] at hw
      cases hw
    · intro _
      exact hclients
    · rw [hclients]
      exact Nat.zero_le _
    · rw [Serving.limit, Nat.pos_iff_ne_zero]
      intro hzero
      exact hmax (UInt32.toNat_inj.mp hzero)
  · intro s e s' hbooked _ hs
    exact hbooked.step hs

/-- Below the limit at every start, not too many handlers ever run. -/
theorem limited_of_reachable (h : serving.ReachableUnder BelowLimit s) :
    s.running.length ≤ s.limit := by
  apply h.invariant_of_reachable
  · rintro s ⟨-, -, -, -, hrunning, -⟩
    rw [hrunning]
    exact Nat.zero_le _
  · intro s e s' hreachable hlimited hbelow hs
    exact ((booked_of_reachable hreachable).obeysTo hlimited hbelow hs).limited

/-- The mode stays as it is. -/
theorem useThread_of_step {s' : Serving} {e : Event} (hs : step s e = some s') :
    s'.handler.useThread = s.handler.useThread := by
  cases e with
  | finish i place =>
      obtain ⟨id, -, rfl⟩ := Option.map_eq_some_iff.mp hs
      rfl
  | reap =>
      obtain ⟨-, hs⟩ := Option.ite_none_right_eq_some.mp hs
      cases hs
      rfl
  | enter rand =>
      obtain ⟨-, hs⟩ := Option.ite_none_right_eq_some.mp hs
      obtain ⟨handler, -, rfl⟩ := Option.map_eq_some_iff.mp hs
      rfl
  | acceptFails =>
      obtain ⟨w, -, rfl⟩ := Option.map_eq_some_iff.mp hs
      rfl
  | connection id =>
      obtain ⟨w, -, hs⟩ := Option.bind_eq_some_iff.mp hs
      rcases connect_cases hs with ⟨-, rfl⟩ | ⟨new, -, -, -, -, rfl⟩
      · rfl
      · show (if s.handler.useThread then s.handler
          else { s.handler with clients := s.handler.clients ++ [new] }).useThread = s.handler.useThread
        split_ifs <;> rfl

/-- **In process mode every run meets the condition.** -/
theorem belowLimit_of_process {s' : Serving} {es : List Event} (hmode : s.handler.useThread = false)
    (hrun : serving.run s es = some s') : serving.Along BelowLimit s es := by
  induction es generalizing s with
  | nil => trivial
  | cons e es ih =>
      obtain ⟨s₁, hs, hrest⟩ := Option.bind_eq_some_iff.mp hrun
      apply (Machine.along_cons hs).mpr
      constructor
      · intro id _ hthread
        rw [hmode] at hthread
        cases hthread
      · apply ih _ hrest
        rw [useThread_of_step hs, hmode]

/-- In thread mode a handler is started at every connection, so one at the limit does not obey it. -/
theorem Booked.belowLimit (h : Booked s) {e : Event} {s' : Serving} (hs : Tcp.step s e = some s')
    (hobeys : ObeysTo s e s') : BelowLimit s e := by
  rintro id rfl hmode
  by_contra hover
  rw [Nat.not_lt] at hover
  obtain ⟨hrunning, -⟩ := hobeys.refused (some id) rfl hover
  obtain ⟨w, -, hs⟩ := Option.bind_eq_some_iff.mp hs
  rcases connect_cases hs with ⟨hfull | ⟨hnone, -⟩, rfl⟩ | ⟨new, -, -, -, -, rfl⟩
  · rw [h.thread hmode] at hfull
    exact absurd hfull (Nat.not_le.mpr h.positive)
  · cases hnone
  · exact absurd hrunning (by simp)

end Runs

/-- **The limit.** All steps of a run obey the limit exactly if in thread mode no handler is started at or
above it. -/
theorem client_limit_iff (s₀ s : Serving) (es : List Event) (h : serving.init s₀)
    (hrun : serving.run s₀ es = some s) :
    serving.Along Obeys s₀ es ↔ serving.Along BelowLimit s₀ es := by
  constructor
  · intro hobeys
    apply hobeys.imp_of_reachable (.init h) hrun
    intro s e s' hreachable hstep hs
    exact (booked_of_reachable hreachable).belowLimit hs (hstep s' hs)
  · intro hbelow
    apply hbelow.imp_of_reachable (.init h) hrun
    intro s e s' hreachable hstep _ s'' hs
    exact (booked_of_reachable hreachable).obeysTo (limited_of_reachable hreachable) hstep hs

/-- A server with room for one client. -/
def oneClient (useThread : Bool) : Serving where
  handler := { ClientHandler.new with maxClients := 1, handlers := [1], useThread := useThread }
  running := []
  ended := []
  waiting := none
  fates := []

/-- Two clients one after the other, with a third in between that has to go. -/
def comeAndGo : List Event :=
  [.enter 0, .connection (some 1), .enter 0, .connection (some 2), .finish 0 0, .reap, .enter 0,
    .connection (some 1)]

theorem client_limit_comeAndGo : ∃ s, serving.run (oneClient false) comeAndGo = some s ∧
    s.fates = [.handled 1 0 1, .closed, .handled 1 0 1] ∧
    serving.Along Obeys (oneClient false) comeAndGo := by
  have hrun : serving.run (oneClient false) comeAndGo = some _ := rfl
  have hinit : serving.init (oneClient false) := by
    refine ⟨rfl, rfl, ?_, ?_, rfl, rfl, rfl, rfl⟩ <;> decide
  exact ⟨_, hrun, rfl, (client_limit_iff _ _ _ hinit hrun).mpr (belowLimit_of_process rfl hrun)⟩

/-- In thread mode two handlers run where one is the limit. -/
theorem threads_over_limit : ∃ s, serving.Reachable s ∧ s.limit = 1 ∧ s.running = [1, 2] := by
  have hrun : serving.run (oneClient true)
      [.enter 0, .connection (some 1), .enter 0, .connection (some 2)] = some _ := rfl
  have hinit : serving.init (oneClient true) := by
    refine ⟨rfl, rfl, ?_, ?_, rfl, rfl, rfl, rfl⟩ <;> decide
  exact ⟨_, Machine.reachable_of_run hinit hrun, rfl, rfl⟩

end ComputerNetworking.Tcp
