/-
# ComputerNetworking.Chat.Loop -- the main loop as a machine of its own

The main loop sees the handlers as bootstrap messages and as FIFOs. Here these come from outside, in
any order and with any contents: an event is a bootstrap message of a handler that has not sent one
yet, or a turn for the FIFO of a user. All writes succeed. Where a reaction throws or an assertion
fails, the process is gone and there is no next state.

Added to the locals of `main` are the descriptors it has open, both kinds known by the handler at the
other end, and two logs: the bootstrap messages taken, and what has been written to each handler.
-/
import ComputerNetworking.Chat.System
import Mathlib.Data.Finset.Basic

namespace ComputerNetworking.Chat

open ComputerNetworking.Lib ComputerNetworking.Sbcp

/-! ## State -/

/-- `bootstrap_message`. The name is what the handler's `get_username` returned. -/
structure Bootstrap where
  handler : Nat
  username : Bytes
  isName : IsName username

structure LoopState where
  main : MainLoop
  bootstrapped : List (Nat × Bytes)
  /-- Open for reading. -/
  reading : Finset Nat
  /-- Open for writing. -/
  writing : Finset Nat
  fifo : Nat → List Message

namespace LoopState

def start (maxClients : Nat) : LoopState where
  main := .start maxClients
  bootstrapped := []
  reading := ∅
  writing := ∅
  fifo := fun _ => []

/-- `open` of the FIFOs of a handler. -/
def openFifos (s : LoopState) (h : Nat) : LoopState :=
  { s with reading := insert h s.reading, writing := insert h s.writing }

/-- `close(handler_fd)`, `close(main_fd)`. -/
def closeFifos (s : LoopState) (reading writing : Nat) : LoopState :=
  { s with reading := s.reading.erase reading, writing := s.writing.erase writing }

/-- The writes of a reaction, and the locals after it. -/
def react (s : LoopState) (main : MainLoop) (ws : List Write) : LoopState :=
  { s with main := main, fifo := fun h => s.fifo h ++ ChatState.writesTo h ws }

end LoopState

/-! ## Steps -/

inductive LoopEvent where
  /-- A bootstrap message is on the pipe. -/
  | join (message : Bootstrap)
  /-- The FIFO of a user is ready, with these bytes in it. -/
  | serve (username input : Bytes)

/-- The branch for the pipe; `none` also for a handler that has been there before, whose FIFOs exist
already. -/
def LoopState.join (s : LoopState) (b : Bootstrap) : Option LoopState :=
  if b.handler ∈ s.bootstrapped.map Prod.fst then none
  else
    match s.main.join b.handler b.username with
    | .error _ => none
    | .ok (main, ws) =>
        let s' := ((s.openFifos b.handler).react main ws)
        let s' := { s' with bootstrapped := s'.bootstrapped ++ [(b.handler, b.username)] }
        if s.main.Refuses b.username then some (s'.closeFifos b.handler b.handler) else some s'

/-- The branch for the FIFO of a user. -/
def LoopState.serve (s : LoopState) (username input : Bytes) : Option LoopState :=
  match s.main.rdFifos[username]?, s.main.serve username input with
  | some h, .ok (main, ws) =>
      match readMessage input with
      -- `wr_fifos[username]` is 0 where there is no such entry
      | .eof => some ((s.react main ws).closeFifos h (s.main.wrFifos[username]?.getD 0))
      | _ => some (s.react main ws)
  | _, _ => none

/-- The main loop, started with a limit on its clients. -/
def mainLoop (maxClients : Nat) : Machine LoopState LoopEvent where
  init s := s = .start maxClients
  step s
    | .join b => s.join b
    | .serve username input => s.serve username input

/-! ## What a step can do -/

section Cases

variable {s s' : LoopState}

/-- **A join is refused, which leaves the names and the descriptors as they are, or accepted.** -/
theorem loop_join_cases {b : Bootstrap} (honline : ∀ u ∈ s.main.onlineUsers, IsName u)
    (hs : s.join b = some s') :
    b.handler ∉ s.bootstrapped.map Prod.fst ∧
      s'.bootstrapped = s.bootstrapped ++ [(b.handler, b.username)] ∧
      ((s.main.Refuses b.username ∧ s'.main = s.main ∧
          s'.reading = s.reading.erase b.handler ∧ s'.writing = s.writing.erase b.handler ∧
          ∃ nak as, HandlerAccepted nak .nak as ∧
            s'.fifo = fun h => s.fifo h ++ ChatState.writesTo h [⟨b.handler, nak⟩]) ∨
        (¬ s.main.Refuses b.username ∧ s'.main = s.main.insertUser b.handler b.username ∧
          s'.reading = insert b.handler s.reading ∧ s'.writing = insert b.handler s.writing ∧
          ∃ ack online, MainLoop.IsAck ack s.main.onlineUsers ∧
            HandlerAccepted online .online [usernameAttr b.username b.isName.2] ∧
            s'.fifo = fun h => s.fifo h ++ ChatState.writesTo h
              (⟨b.handler, ack⟩ :: writeAllExcept s'.main.wrFifos online b.username))) := by
  unfold LoopState.join at hs
  by_cases hold : b.handler ∈ s.bootstrapped.map Prod.fst
  · rw [if_pos hold] at hs
    cases hs
  · rw [if_neg hold] at hs
    refine ⟨hold, ?_⟩
    rcases hj : s.main.join b.handler b.username with e | ⟨main, ws⟩
    · rw [hj] at hs
      cases hs
    · simp only [hj] at hs
      rcases MainLoop.join_cases b.isName.2 honline hj with
        ⟨href, rfl, nak, as, rfl, hnak⟩ | ⟨hacc, rfl, ack, online, rfl, hack, honl⟩
      · rw [if_pos href] at hs
        cases hs
        refine ⟨rfl, .inl ⟨href, rfl, ?_, ?_, nak, as, hnak, rfl⟩⟩
        · exact Finset.erase_insert_eq_erase _ _
        · exact Finset.erase_insert_eq_erase _ _
      · rw [if_neg hacc] at hs
        cases hs
        exact ⟨rfl, .inr ⟨hacc, rfl, rfl, rfl, ack, online, hack, honl, rfl⟩⟩

/-- **Serving a FIFO takes the user out, at its end, or relays a message to the others, or does
nothing.** -/
theorem loop_serve_cases {u input : Bytes} (hname : ∀ v ∈ s.main.rdFifos, IsName v)
    (hs : s.serve u input = some s') :
    s'.bootstrapped = s.bootstrapped ∧ ∃ h, s.main.rdFifos[u]? = some h ∧
      ((s'.main = s.main.eraseUser u ∧ s'.reading = s.reading.erase h ∧
          s'.writing = s.writing.erase (s.main.wrFifos[u]?.getD 0) ∧
          ∃ offline, ∃ hu : u.length ≤ sbcpMaxUsernameLength,
            HandlerAccepted offline .offline [usernameAttr u hu] ∧
            s'.fifo = fun h => s.fifo h ++ ChatState.writesTo h
              (writeAll s'.main.wrFifos offline)) ∨
        (s'.main = s.main ∧ s'.reading = s.reading ∧ s'.writing = s.writing ∧
          ∃ ws, (s'.fifo = fun h => s.fifo h ++ ChatState.writesTo h ws) ∧
            ∀ w ∈ ws, (w.message.getType = some .fwd ∨ w.message.getType = some .idle) ∧
              ∃ v : Bytes, s.main.wrFifos[v]? = some w.fifo)) := by
  unfold LoopState.serve at hs
  rcases hget : s.main.rdFifos[u]? with _ | h
  · rw [hget] at hs
    cases hs
  · have hu : IsName u := by
      apply hname
      rw [Std.TreeMap.mem_iff_isSome_getElem?, hget]
      rfl
    rcases hr : s.main.serve u input with e | ⟨main, ws⟩
    · rw [hget, hr] at hs
      cases hs
    · rw [hget, hr] at hs
      rcases MainLoop.serve_cases hr with ⟨heof, hd⟩ | ⟨m, rest, t, as, hread, hm, hact⟩
      · -- the end of the FIFO
        simp only [heof, Option.some.injEq] at hs
        subst hs
        obtain ⟨rfl, offline, rfl, hoff⟩ := MainLoop.disconnect_cases hu hd
        exact ⟨rfl, h, rfl, .inl ⟨rfl, rfl, rfl, offline, hu.2, hoff, rfl⟩⟩
      · -- a message
        simp only [hread, Option.some.injEq] at hs
        subst hs
        obtain ⟨rfl, hws⟩ := MainLoop.actOn_cases hu hm hact
        refine ⟨rfl, h, rfl, .inr ⟨rfl, rfl, rfl, ws, rfl, ?_⟩⟩
        intro w hw
        rcases hws with rfl | ⟨relayed, rfl, ⟨-, hp, -⟩ | ⟨-, hp⟩⟩
        · cases hw
        · obtain ⟨hmsg, v, -, hv⟩ := mem_writeAllExcept.mp hw
          rw [hmsg]
          exact ⟨.inl hp.getType, v, hv⟩
        · obtain ⟨hmsg, v, -, hv⟩ := mem_writeAllExcept.mp hw
          rw [hmsg]
          exact ⟨.inr hp.getType, v, hv⟩

/-- A bootstrap message of a new handler is taken unless the reaction fails. -/
theorem exists_loop_join {b : Bootstrap} {main : MainLoop} {ws : List Write}
    (hnew : b.handler ∉ s.bootstrapped.map Prod.fst)
    (hj : s.main.join b.handler b.username = .ok (main, ws)) :
    ∃ s', s.join b = some s' ∧ s'.main = main ∧
      s'.bootstrapped = s.bootstrapped ++ [(b.handler, b.username)] ∧
      s'.fifo = fun h => s.fifo h ++ ChatState.writesTo h ws := by
  unfold LoopState.join
  rw [if_neg hnew]
  simp only [hj]
  by_cases href : s.main.Refuses b.username
  · rw [if_pos href]
    exact ⟨_, rfl, rfl, rfl, rfl⟩
  · rw [if_neg href]
    exact ⟨_, rfl, rfl, rfl, rfl⟩

/-- So is the FIFO of a user. -/
theorem exists_loop_serve {u input : Bytes} {h : Nat} {main : MainLoop} {ws : List Write}
    (hget : s.main.rdFifos[u]? = some h) (hr : s.main.serve u input = .ok (main, ws)) :
    ∃ s', s.serve u input = some s' ∧ s'.main = main ∧ s'.bootstrapped = s.bootstrapped ∧
      s'.fifo = fun h => s.fifo h ++ ChatState.writesTo h ws := by
  unfold LoopState.serve
  simp only [hget, hr]
  split
  · exact ⟨_, rfl, rfl, rfl, rfl⟩
  · exact ⟨_, rfl, rfl, rfl, rfl⟩

end Cases

end ComputerNetworking.Chat
