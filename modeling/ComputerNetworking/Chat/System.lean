/-
# ComputerNetworking.Chat.System -- the main loop, the handlers and the FIFOs between them

The whole chat server as a machine: one main loop, any number of handlers, a bootstrap pipe, and two
FIFOs for each handler. An event lets one process take one turn. A client's bytes are chosen freely
by the event, which is all that is assumed about clients; `select`'s preference among ready
descriptors is not modelled, so every order of turns is a run.

A write to a FIFO whose reader is gone ends the writing process, as the default action of SIGPIPE
does. `written`, `outcomes` and `delivered` are logs that no step looks at: the messages the main
loop wrote to a handler and on whose behalf, what that handler's `read_message` made of them, and
the messages it sent on to its client.
-/
import ComputerNetworking.Chat.MainLoop
import ComputerNetworking.Lib.Transition
import Mathlib.Logic.Function.Basic

namespace ComputerNetworking.Chat

open ComputerNetworking.Lib ComputerNetworking.Sbcp Function

/-! ## State -/

/-- How far a handler has come. -/
inductive Phase where
  /-- Serving its client, no FIFOs yet. -/
  | connected
  /-- Bootstrap message sent, blocked in `open` until the main loop opens the other ends. -/
  | waiting
  | joined
  | finished
  deriving DecidableEq

/-- A message in a log, with the handler and the user whose message made the main loop write it. -/
structure Relay where
  message : Message
  sender : Option (Nat × Bytes)

structure ChatState where
  main : MainLoop
  mainAlive : Bool
  /-- Bootstrap messages on the pipe, oldest first. -/
  pipe : List (Nat × Bytes)
  phase : Nat → Phase
  /-- Bytes in the FIFO from a handler to the main loop. -/
  up : Nat → Bytes
  /-- Bytes in the FIFO from the main loop to a handler. -/
  down : Nat → Bytes
  written : Nat → List Relay
  outcomes : Nat → List (Outcome Message)
  delivered : Nat → List Message

namespace ChatState

def start (maxClients : Nat) : ChatState where
  main := .start maxClients
  mainAlive := true
  pipe := []
  phase := fun _ => .connected
  up := fun _ => []
  down := fun _ => []
  written := fun _ => []
  outcomes := fun _ => []
  delivered := fun _ => []

/-- The main loop has its ends of the handler's FIFOs open. -/
def holds (s : ChatState) (h : Nat) : Bool :=
  s.mainAlive && s.main.wrFifos.toList.any fun pair => pair.2 == h

/-- The handler's process ends. -/
def finish (s : ChatState) (h : Nat) : ChatState := { s with phase := update s.phase h .finished }

/-- The messages of a list of writes that go to one handler. -/
def writesTo (h : Nat) (ws : List Write) : List Message :=
  (ws.filter fun w => w.fifo = h).map Write.message

/-- A reaction of the main loop takes effect. An exception ends it, and so does the first write to
a FIFO without a reader. -/
def afterMain (s : ChatState) (sender : Option (Nat × Bytes)) :
    Except Fault (MainLoop × List Write) → ChatState
  | .error _ => { s with mainAlive := false }
  | .ok (main, ws) =>
      let done := ws.takeWhile fun w => s.phase w.fifo ≠ .finished
      { s with
        main := main
        mainAlive := done.length = ws.length
        down := fun h => s.down h ++ (writesTo h done).flatMap Message.wire
        written := fun h => s.written h ++ (writesTo h done).map fun m => ⟨m, sender⟩ }

/-- The main process outlives a reaction if and only if every handler it writes to is there. -/
theorem survives_iff {s : ChatState} {sender : Option (Nat × Bytes)} {main : MainLoop}
    {ws : List Write} :
    (s.afterMain sender (.ok (main, ws))).mainAlive = true ↔
      ∀ w ∈ ws, s.phase w.fifo ≠ .finished := by
  show decide _ = true ↔ _
  rw [decide_eq_true_eq]
  constructor
  · intro hlen w hw
    have hall := List.takeWhile_prefix (fun w : Write => decide (s.phase w.fifo ≠ .finished)) (l := ws)
    rw [← hall.eq_of_length hlen] at hw
    simpa using List.mem_takeWhile_imp hw
  · intro hall
    rw [List.takeWhile_eq_self_iff.mpr]
    simpa using hall

/-- The handler's log entry and the FIFO after its `read_message`. -/
def afterRead (s : ChatState) (h : Nat) : ChatState :=
  { s with
    down := update s.down h (readMessage (s.down h)).rest
    outcomes :=
      update s.outcomes h (s.outcomes h ++ (readMessage (s.down h)).outcome?.toList) }

@[simp] theorem afterRead_down (s : ChatState) (h : Nat) :
    (s.afterRead h).down h = (readMessage (s.down h)).rest := update_self ..

@[simp] theorem afterRead_outcomes (s : ChatState) (h : Nat) :
    (s.afterRead h).outcomes h = s.outcomes h ++ (readMessage (s.down h)).outcome?.toList :=
  update_self ..

end ChatState

theorem mem_writesTo {h : Nat} {ws : List Write} {m : Message} :
    m ∈ ChatState.writesTo h ws ↔ (⟨h, m⟩ : Write) ∈ ws := by
  unfold ChatState.writesTo
  rw [List.mem_map]
  constructor
  · rintro ⟨⟨k, m'⟩, hmem, rfl⟩
    obtain ⟨hws, hk⟩ := List.mem_filter.mp hmem
    rw [← of_decide_eq_true hk]
    exact hws
  · intro hmem
    exact ⟨⟨h, m⟩, List.mem_filter.mpr ⟨hmem, by simp⟩, rfl⟩

/-! ## Steps -/

/-- One turn of one process. -/
inductive Event where
  /-- A handler reads from its client, who has sent these bytes. -/
  | client (handler : Nat) (input : Bytes)
  /-- The main loop takes the next bootstrap message. -/
  | join
  /-- The main loop serves the FIFO of a user. -/
  | serve (username : Bytes)
  /-- A handler reads from the main loop. -/
  | deliver (handler : Nat)

open ChatState in
/-- `none` where the process is blocked or gone. -/
def chatStep (s : ChatState) : Event → Option ChatState
  | .client h input =>
      if s.phase h = .connected ∨ s.phase h = .joined then
        match handleClient (s.phase h = .joined) input with
        | .finish => some (s.finish h)
        | .bootstrap u =>
            some { s with phase := update s.phase h .waiting, pipe := s.pipe ++ [(h, u)] }
        | .forward m =>
            if s.holds h then some { s with up := update s.up h (s.up h ++ m.wire) }
            else some (s.finish h)
        | .nothing => some s
      else none
  | .join =>
      match s.mainAlive, s.pipe with
      | true, (h, u) :: rest =>
          -- both ends of both FIFOs are open from here on
          some (({ s with pipe := rest, phase := update s.phase h .joined } : ChatState).afterMain none
            (s.main.join h u))
      | _, _ => none
  | .serve u =>
      match s.mainAlive, s.main.rdFifos[u]? with
      | true, some h =>
          if s.up h = [] ∧ s.phase h ≠ .finished then none
          else
            some (({ s with up := update s.up h (readMessage (s.up h)).rest } : ChatState).afterMain
              (some (h, u)) (s.main.serve u (s.up h)))
      | _, _ => none
  | .deliver h =>
      if s.phase h = .joined ∧ ¬ (s.down h = [] ∧ s.holds h = true) then
        match handleMain (s.down h) with
        | .finish => some ((s.afterRead h).finish h)
        | .skip _ => some (s.afterRead h)
        | .deliver m _ =>
            some { s.afterRead h with delivered := update s.delivered h (s.delivered h ++ [m]) }
      else none

/-- The chat server, started with a limit on its clients. -/
def chat (maxClients : Nat) : Machine ChatState Event where
  init s := s = ChatState.start maxClients
  step := chatStep

/-! ## What a step can do -/

section Cases

variable {s s' : ChatState}

theorem step_client {h : Nat} {input : Bytes} (hs : chatStep s (.client h input) = some s') :
    s' = s ∨
      (s' = s.finish h ∧ s.phase h ≠ .waiting) ∨
      (∃ u, IsName u ∧ s.phase h = .connected ∧
        s' = { s with phase := update s.phase h .waiting, pipe := s.pipe ++ [(h, u)] }) ∨
      (∃ m, messageFraming.Valid m ∧
        s' = { s with up := update s.up h (s.up h ++ m.wire) }) := by
  unfold chatStep at hs
  by_cases hphase : s.phase h = .connected ∨ s.phase h = .joined
  case neg =>
    simp only [if_neg hphase] at hs
    cases hs
  simp only [if_pos hphase] at hs
  have hnot : s.phase h ≠ .waiting := by
    intro hw
    rcases hphase with hp | hp <;> rw [hw] at hp <;> cases hp
  rcases handleClient_cases (s.phase h = .joined) input with
    hf | hn | ⟨hc, u, hb, hname⟩ | ⟨hc, m, hm, hvalid⟩
  · rw [hf] at hs
    cases hs
    exact .inr (.inl ⟨rfl, hnot⟩)
  · rw [hn] at hs
    cases hs
    exact .inl rfl
  · rw [hb] at hs
    cases hs
    -- without FIFOs a handler that reads from its client has not joined
    have hconn : s.phase h = .connected := by
      rcases hphase with hp | hp
      · exact hp
      · simp [hp] at hc
    exact .inr (.inr (.inl ⟨u, hname, hconn, rfl⟩))
  · rw [hm] at hs
    by_cases hholds : s.holds h
    · simp only [if_pos hholds] at hs
      cases hs
      exact .inr (.inr (.inr ⟨m, hvalid, rfl⟩))
    · simp only [if_neg hholds] at hs
      cases hs
      exact .inr (.inl ⟨rfl, hnot⟩)

theorem step_join (hs : chatStep s .join = some s') :
    ∃ h u rest, s.pipe = (h, u) :: rest ∧
      s' = ({ s with pipe := rest, phase := update s.phase h .joined } : ChatState).afterMain none
        (s.main.join h u) := by
  simp only [chatStep] at hs
  split at hs
  · next h u rest _ hpipe =>
      cases hs
      exact ⟨h, u, rest, hpipe, rfl⟩
  · cases hs

theorem step_serve {u : Bytes} (hs : chatStep s (.serve u) = some s') :
    ∃ h, s.main.rdFifos[u]? = some h ∧
      s' = ({ s with up := update s.up h (readMessage (s.up h)).rest } : ChatState).afterMain
        (some (h, u)) (s.main.serve u (s.up h)) := by
  simp only [chatStep] at hs
  split at hs
  · next h _ hu =>
      split_ifs at hs with hempty
      cases hs
      exact ⟨h, hu, rfl⟩
  · cases hs

theorem step_deliver {h : Nat} (hs : chatStep s (.deliver h) = some s') :
    s.phase h = .joined ∧
      ((handleMain (s.down h) = .finish ∧ s' = (s.afterRead h).finish h) ∨
        (∃ rest, handleMain (s.down h) = .skip rest ∧ s' = s.afterRead h) ∨
        (∃ m rest, handleMain (s.down h) = .deliver m rest ∧
          s' = { s.afterRead h with
            delivered := update s.delivered h (s.delivered h ++ [m]) })) := by
  simp only [chatStep] at hs
  split_ifs at hs with hready
  refine ⟨hready.1, ?_⟩
  split at hs
  · next hf =>
      cases hs
      exact .inl ⟨hf, rfl⟩
  · next rest hf =>
      cases hs
      exact .inr (.inl ⟨rest, hf, rfl⟩)
  · next m rest hf =>
      cases hs
      exact .inr (.inr ⟨m, rest, hf, rfl⟩)

/-- The main process does not come back. -/
theorem mainAlive_of_step {e : Event} (hs : chatStep s e = some s') (halive : s'.mainAlive = true) :
    s.mainAlive = true := by
  cases e with
  | client h input =>
      rcases step_client hs with rfl | ⟨rfl, -⟩ | ⟨u, -, -, rfl⟩ | ⟨m, -, rfl⟩
      · exact halive
      · exact halive
      · exact halive
      · exact halive
  | join =>
      simp only [chatStep] at hs
      split at hs
      · next hmain _ => exact hmain
      · cases hs
  | serve u =>
      simp only [chatStep] at hs
      split at hs
      · next hmain _ => exact hmain
      · cases hs
  | deliver h =>
      obtain ⟨-, ⟨-, rfl⟩ | ⟨rest, -, rfl⟩ | ⟨m, rest, -, rfl⟩⟩ := step_deliver hs
      · exact halive
      · exact halive
      · exact halive

end Cases

end ComputerNetworking.Chat
