/-
# ComputerNetworking.Chat.Conversation -- from one user's keyboard to another's screen

A line passes a connection, a FIFO, the main loop, another FIFO and another connection. Each of them hands
on what it was given, in order, so the line comes out at the other end once, after the lines typed
before it. `lines_appear` puts this together for any two users over any stretch of any run: what one
types while both are held by the main loop is what the other's screen shows of him, but for what is
still on the way, and for all that comes behind a message which the connection cuts or a handler that ends.

The text comes out with one byte too many: the accessor reads on into the type of the attribute behind
it, which is the sender's name.
-/
import ComputerNetworking.Chat.Room

namespace ComputerNetworking.Chat

open ComputerNetworking.Lib ComputerNetworking.Sbcp Function

/-! ## What is on the way -/

namespace ClientEvent

/-- The message an event hands to the program. -/
def message? : ClientEvent → Option Message
  | .answer m _ => some m
  | .message m => some m
  | _ => none

/-- The message an event hands to its main loop. -/
def reading : ClientEvent → List Message
  | .message m => [m]
  | _ => []

end ClientEvent

/-- What the main loop prints for a message, if it survives it. -/
def linesOf (m : Message) : List Bytes :=
  match display m with
  | .ok lines => lines
  | .error _ => []

namespace Client

/-- All the messages a program has read. -/
def got (c : Client) : List Message := c.answer.toList ++ c.seen

/-- It has not had its answer yet. -/
def Early (c : Client) : Prop := c.phase = .absent ∨ c.phase = .joining

end Client

namespace Room

variable (r : Room)

def forwarding (h : Nat) (e : RoomEvent) : List Message :=
  ((r.chatEvent? e).map (r.chat.forwarding h)).getD []

def serving (h : Nat) (e : RoomEvent) : List (Bytes × Message) :=
  ((r.chatEvent? e).map (r.chat.serving h)).getD []

def announcing (e : RoomEvent) : List (Nat × Message) :=
  ((r.chatEvent? e).map r.chat.announcing).getD []

def sending (h : Nat) (e : RoomEvent) : List Message :=
  ((r.clientEvent? h e).map (r.client h).sending).getD []

def doing (h : Nat) (e : RoomEvent) : List (Int × Activity) :=
  ((r.clientEvent? h e).map (r.client h).doing).getD []

def reading (k : Nat) (e : RoomEvent) : List Message :=
  ((r.clientEvent? k e).map ClientEvent.reading).getD []

/-- On the way from a client to the main loop. What a handler has not read when it ends is not. -/
def pendingFrom (h : Nat) : List Message :=
  r.chat.pendingUp h ++
    if r.chat.phase h = .finished then [] else messageFraming.contents (r.toHandler h)

/-- On the way from the main loop to a client. -/
def pendingTo (k : Nat) : List Message :=
  messageFraming.contents (r.toClient k) ++ r.chat.pendingDown k

/-- Nothing is on the way from one client to another. -/
def Quiet (h k : Nat) : Prop := r.pendingFrom h = [] ∧ r.pendingTo k = []

end Room

section Held

variable {maxClients : Nat} {r r' : Room} {es : List RoomEvent} {h k : Nat}

/-- Whoever the main loop holds at both ends of a run it holds all along. -/
theorem along_held (hr : (room maxClients).Reachable r) (hs : (room maxClients).run r es = some r')
    (hk : r.chat.holds k = true) (hk' : r'.chat.holds k = true) :
    (room maxClients).Along
      (fun r e => Entered k r.chat ∧ r.chat.holds k = true ∧
        ∀ r', r.step e = some r' → r'.chat.holds k = true) r es := by
  have hwired : ∀ {r : Room}, (room maxClients).Reachable r →
      Wired r.chat.main r.chat.pipe r.chat.phase := fun hr => wired_of_reachable (room_honest hr).1
  refine (Machine.Along.between (P := fun r => Entered k r.chat)
    (Q := fun r => r.chat.holds k = true) hr Machine.Along.of_true hs
    (entered_of_holds (hwired hr) hk) hk' ?_ ?_).2
  · intro r e r' _ hP hs
    rcases chat_of_step hs with ⟨-, hsame⟩ | ⟨ce, -, hstep⟩
    · rw [hsame]
      exact hP
    · exact entered_step hstep hP
  · intro r e r' hr hP hs hQ
    rcases chat_of_step hs with ⟨-, hsame⟩ | ⟨ce, -, hstep⟩
    · rw [← hsame]
      exact hQ
    · exact holds_of_step (hwired hr) hstep hP hQ

end Held

/-! ## From the keyboard to the main loop -/

section FromClient

variable {r r' : Room} {e : RoomEvent} {h : Nat}

theorem Room.Sound.upWhole (i : r.Sound) : UpWhole r.chat := fun j => by
  obtain ⟨as, has, hq⟩ := i.up j
  exact ⟨as, fun m hm => (has m hm).forwardable, hq⟩

/-- One step on the FIFO. -/
theorem fifo_step (i : r.Sound) (hs : r.step e = some r') (h : Nat) :
    r.chat.pendingUp h ++ r.forwarding h e = (r.serving h e).map Prod.snd ++ r'.chat.pendingUp h := by
  rcases chat_of_step hs with ⟨hnone, hsame⟩ | ⟨ce, hce, hstep⟩
  · rw [Room.forwarding, Room.serving, hnone, hsame]
    exact List.append_nil _
  · rw [Room.forwarding, Room.serving, hce]
    exact (up_step i.upWhole hstep h).2

/-- A handler forwards only in its own turn. -/
theorem forwarding_eq_nil {ce : Event} (hce : r.chatEvent? e = some ce)
    (hother : ∀ input, ce ≠ .client h input) : r.forwarding h e = [] := by
  rw [Room.forwarding, hce]
  cases ce with
  | client j input =>
      have hj : j ≠ h := fun hj => hother input (by rw [hj])
      exact if_neg fun hboth => hj hboth.1
  | join | serve u | deliver j => rfl

/-- **One step on a connection**, while its handler is there: what is on it and what the client writes goes to
the FIFO, or stays, or is lost with the handler. -/
theorem connection_step (i : r.Sound) (hjoined : r.chat.phase h = .joined) (hs : r.step e = some r') :
    ∃ left, messageFraming.contents (r.toHandler h) ++ r.sending h e = r.forwarding h e ++ left ∧
      (r'.chat.phase h ≠ .finished → left = messageFraming.contents (r'.toHandler h)) := by
  have hwhole := i.later h (by rw [hjoined]; decide) (by rw [hjoined]; decide)
  have hfifo := fifo_step i hs h
  cases room_step hs with
  | @client j ce c ms rest hchat hce hothers hturn hrest =>
      have hnone : r.forwarding h e = [] := by
        rw [Room.forwarding, hchat]
        rfl
      rw [hnone]
      by_cases hj : h = j
      · subst hj
        have hsend : r.sending h e = ms := by
          rw [Room.sending, hce]
          exact Client.sending_of_turn hturn
        have htyped : ∀ m ∈ ms, Typed m := by
          rcases turn_writes hturn with ⟨habs, -⟩ | ⟨-, -, -, htyped⟩
          · have hconn := (i.absent h habs).1
            rw [hjoined] at hconn
            cases hconn
          · exact htyped
        refine ⟨_, (List.nil_append _).symm, fun _ => ?_⟩
        simp only [update_self, hsend]
        exact (hwhole.writes htyped).2.symm
      · have hsend : r.sending h e = [] := by
          rw [Room.sending, hothers h hj]
          rfl
        refine ⟨_, (List.nil_append _).symm, fun _ => ?_⟩
        simp only [update_of_ne hj, hsend, List.append_nil]
  | @handler j input behind chat hchat hnone hthere hread hc =>
      have hsend : r.sending h e = [] := by
        rw [Room.sending, hnone]
        rfl
      have hserve : r.serving h e = [] := by
        rw [Room.serving, hchat]
        rfl
      rw [hsend, List.append_nil]
      by_cases hj : h = j
      · subst hj
        rw [hserve, List.map_nil, List.nil_append] at hfifo
        rcases i.handler_cases hthere hread hc with
          rfl | ⟨hconn, -⟩ | ⟨-, m, q, hm, hq, hwholeq, hrest, -, rfl⟩
        · -- nothing is forwarded any more
          rw [List.append_right_eq_self.mp hfifo]
          refine ⟨_, (List.nil_append _).symm, fun hthere => absurd ?_ hthere⟩
          exact update_self ..
        · rw [hjoined] at hconn
          cases hconn
        · -- the message goes from the connection to the FIFO
          have hup : forwardFraming.contents (r.chat.up h ++ m.wire) =
              forwardFraming.contents (r.chat.up h) ++ [m] := ((i.up h).write hm).2
          simp only [ChatState.pendingUp, update_self, hup, List.append_cancel_left_eq] at hfifo
          have hcontents : messageFraming.contents (r.toHandler h) = m :: messageFraming.contents q := by
            rw [hq]
            exact hwholeq.contents_cons hm
          refine ⟨messageFraming.contents q, by rw [hfifo, hcontents]; rfl, fun _ => ?_⟩
          simp only [update_self, hrest]
      · rw [forwarding_eq_nil hchat fun input' hsame => hj (Event.client.inj hsame).1.symm]
        refine ⟨_, (List.nil_append _).symm, fun _ => ?_⟩
        simp only [update_of_ne hj]
  | @server ce chat hchat hnone hno hc =>
      have hsend : r.sending h e = [] := by
        rw [Room.sending, hnone]
        rfl
      rw [hsend, List.append_nil, forwarding_eq_nil hchat fun input => hno h input]
      exact ⟨_, (List.nil_append _).symm, fun _ => rfl⟩

/-- **One step on the way from a client to the main loop**, while the handler is there. -/
theorem from_step (i : r.Sound) (hjoined : r.chat.phase h = .joined) (hs : r.step e = some r') :
    ∃ lost, r.pendingFrom h ++ r.sending h e =
        (r.serving h e).map Prod.snd ++ r'.pendingFrom h ++ lost ∧
      (¬ r'.chat.phase h = .finished → lost = []) := by
  obtain ⟨left, hleft, hstays⟩ := connection_step i hjoined hs
  have hbefore : r.pendingFrom h = r.chat.pendingUp h ++ messageFraming.contents (r.toHandler h) := by
    rw [Room.pendingFrom, if_neg (by rw [hjoined]; decide)]
  have hall : r.pendingFrom h ++ r.sending h e =
      (r.serving h e).map Prod.snd ++ r'.chat.pendingUp h ++ left := by
    rw [hbefore, List.append_assoc, hleft, ← List.append_assoc, fifo_step i hs h]
  rw [hall, Room.pendingFrom]
  by_cases hfinished : r'.chat.phase h = .finished
  · rw [if_pos hfinished, List.append_nil]
    exact ⟨left, rfl, absurd hfinished⟩
  · rw [if_neg hfinished, ← hstays hfinished]
    exact ⟨[], by simp only [List.append_assoc, List.append_nil], fun _ => rfl⟩

/-- Behind a handler that has ended only the main loop goes on. -/
theorem from_step_finished (i : r.Sound) (w : Wired r.chat.main r.chat.pipe r.chat.phase)
    (hfinished : r.chat.phase h = .finished) (hs : r.step e = some r') :
    r'.chat.phase h = .finished ∧
      r.pendingFrom h = (r.serving h e).map Prod.snd ++ r'.pendingFrom h := by
  have hfifo := fifo_step i hs h
  have hphase : r'.chat.phase h = .finished := by
    rcases chat_of_step hs with ⟨-, hsame⟩ | ⟨ce, -, hstep⟩
    · rw [hsame]
      exact hfinished
    · exact finished_step w hstep hfinished
  have hnone : r.forwarding h e = [] := by
    rcases chat_of_step hs with ⟨hnone, -⟩ | ⟨ce, hce, hstep⟩
    · rw [Room.forwarding, hnone]
      rfl
    · refine forwarding_eq_nil hce fun input hsame => ?_
      -- its turn is over
      rw [hsame] at hstep
      simp only [chatStep, hfinished, reduceCtorEq, or_self, if_false] at hstep
  rw [hnone, List.append_nil] at hfifo
  refine ⟨hphase, ?_⟩
  rw [Room.pendingFrom, Room.pendingFrom, if_pos hfinished, if_pos hphase, List.append_nil, List.append_nil]
  exact hfifo

end FromClient

/-! ## From a handler to the screen -/

section ClientTurn

variable {c c' : Client} {ms : List Message} {e : ClientEvent}

/-- A turn adds the message it is handed to those the program has read. -/
theorem turn_got (hearly : c.Early → c.got = []) (ht : c.turn e = some (c', ms)) :
    c'.got = c.got ++ e.message?.toList ∧ (c'.Early → c'.got = []) := by
  have hnot : ∀ {p : ClientPhase}, p ≠ .absent → p ≠ .joining → ¬ (p = .absent ∨ p = .joining) :=
    fun h₁ h₂ h => h.elim h₁ h₂
  cases e with
  | start username =>
      simp only [Client.turn] at ht
      split_ifs at ht with hp
      simp only [bind, Option.bind_eq_some_iff, Option.some.injEq, Prod.mk.injEq] at ht
      obtain ⟨m, -, rfl, -⟩ := ht
      exact ⟨(List.append_nil _).symm, fun _ => hearly (.inl hp)⟩
  | answer m now =>
      simp only [Client.turn] at ht
      split_ifs at ht with hp
      cases ht
      obtain ⟨-, hseen⟩ := List.append_eq_nil_iff.mp (hearly (.inr hp))
      have hgot : (c.onAnswer m now).got = [m] := by
        unfold Client.onAnswer Client.got
        split_ifs <;> simp [hseen]
      rw [hgot, hearly (.inr hp)]
      refine ⟨rfl, fun h => absurd h ?_⟩
      rcases c.onAnswer_phase m now with hp' | hp' <;> unfold Client.Early <;> rw [hp'] <;>
        exact hnot (by simp) (by simp)
  | message m =>
      simp only [Client.turn] at ht
      split at ht <;> cases ht
      next hp =>
        refine ⟨?_, fun h => absurd h ?_⟩
        · unfold Client.onMessage Client.got
          split <;> simp [ClientEvent.message?]
        · rcases c.onMessage_phase m with hp' | hp' <;> unfold Client.Early <;> rw [hp']
          · exact hnot (by simp) (by simp)
          · rw [hp]
            exact hnot (by simp) (by simp)
  | rejected =>
      simp only [Client.turn] at ht
      split at ht <;> cases ht
      exact ⟨(List.append_nil _).symm, hearly⟩
  | closed =>
      simp only [Client.turn] at ht
      split at ht <;> cases ht <;>
        exact ⟨(List.append_nil _).symm, fun h => absurd h (hnot (by simp) (by simp))⟩
  | timeout now =>
      simp only [Client.turn] at ht
      split at ht
      · cases ht
        exact ⟨(List.append_nil _).symm, hearly⟩
      · split_ifs at ht <;> cases ht
        · exact ⟨(List.append_nil _).symm, fun h => absurd h (hnot (by simp) (by simp))⟩
        · exact ⟨(List.append_nil _).symm, hearly⟩
      · cases ht
  | line text now =>
      simp only [Client.turn] at ht
      split at ht
      · split_ifs at ht
        · cases ht
          exact ⟨(List.append_nil _).symm, fun h => absurd h (hnot (by simp) (by simp))⟩
        · simp only [bind, Option.bind_eq_some_iff, Option.some.injEq, Prod.mk.injEq] at ht
          obtain ⟨m, -, rfl, -⟩ := ht
          exact ⟨(List.append_nil _).symm, fun h => absurd h (hnot (by simp) (by simp))⟩
      · cases ht

/-- In the main loop and after it, a turn prints the message it reads. -/
theorem turn_screen (hlate : ¬ c.Early) (ht : c.turn e = some (c', ms)) :
    ¬ c'.Early ∧ c'.answer = c.answer ∧ c'.seen = c.seen ++ e.reading ∧
      c'.screen = c.screen ++ e.reading.flatMap linesOf := by
  have hnot : ∀ {p : ClientPhase}, p ≠ .absent → p ≠ .joining → ¬ (p = .absent ∨ p = .joining) :=
    fun h₁ h₂ h => h.elim h₁ h₂
  have hsame : ∀ c'' : Client, c''.answer = c.answer → c''.seen = c.seen → c''.screen = c.screen →
      c''.answer = c.answer ∧ c''.seen = c.seen ++ [] ∧
        c''.screen = c.screen ++ ([] : List Message).flatMap linesOf := by
    intro c'' h₁ h₂ h₃
    rw [List.flatMap_nil, List.append_nil, List.append_nil]
    exact ⟨h₁, h₂, h₃⟩
  cases e with
  | start username =>
      simp only [Client.turn] at ht
      split_ifs at ht with hp
      exact absurd (.inl hp) hlate
  | answer m now =>
      simp only [Client.turn] at ht
      split_ifs at ht with hp
      exact absurd (.inr hp) hlate
  | message m =>
      simp only [Client.turn] at ht
      split at ht <;> cases ht
      refine ⟨?_, ?_⟩
      · rcases c.onMessage_phase m with hp' | hp' <;> unfold Client.Early <;> rw [hp']
        · exact hnot (by simp) (by simp)
        · exact hlate
      · simp only [Client.onMessage, ClientEvent.reading, List.flatMap_singleton, linesOf]
        cases display m with
        | ok lines => exact ⟨rfl, rfl, rfl⟩
        | error err => exact ⟨rfl, rfl, (List.append_nil _).symm⟩
  | rejected =>
      simp only [Client.turn] at ht
      split at ht <;> cases ht
      exact ⟨hlate, hsame _ rfl rfl rfl⟩
  | closed =>
      simp only [Client.turn] at ht
      split at ht <;> cases ht <;> exact ⟨hnot (by simp) (by simp), hsame _ rfl rfl rfl⟩
  | timeout now =>
      simp only [Client.turn] at ht
      split at ht
      · cases ht
        exact ⟨hlate, hsame _ rfl rfl rfl⟩
      · split_ifs at ht <;> cases ht
        · exact ⟨hnot (by simp) (by simp), hsame _ rfl rfl rfl⟩
        · exact ⟨hlate, hsame _ rfl rfl rfl⟩
      · cases ht
  | line text now =>
      simp only [Client.turn] at ht
      split at ht
      · split_ifs at ht
        · cases ht
          exact ⟨hnot (by simp) (by simp), hsame _ rfl rfl rfl⟩
        · simp only [bind, Option.bind_eq_some_iff, Option.some.injEq, Prod.mk.injEq] at ht
          obtain ⟨m, -, rfl, -⟩ := ht
          exact ⟨hnot (by simp) (by simp), hsame _ rfl rfl rfl⟩
      · cases ht

end ClientTurn

/-- What a handler has delivered, its client has read or will read. -/
structure Room.Received (r : Room) (k : Nat) : Prop where
  whole : messageFraming.Whole (r.toClient k)
  early : (r.client k).Early → (r.client k).got = []
  got : r.chat.delivered k = (r.client k).got ++ messageFraming.contents (r.toClient k)

section Received

variable {r r' : Room} {k : Nat}

/-- What a client takes off its connection. -/
theorem incoming_takes (hwhole : messageFraming.Whole (r.toClient k)) {now : Int}
    {ce : ClientEvent} {rest : Bytes} (hin : r.incoming k now = some (ce, rest)) :
    messageFraming.Whole rest ∧ messageFraming.contents (r.toClient k) =
      ce.message?.toList ++ messageFraming.contents rest := by
  rcases hwhole.read_cases with ⟨hempty, -⟩ | ⟨m, q, hread, -, -, hq, hcontents⟩
  · -- nothing there: the connection has been closed
    have hclosed : ce = .closed ∧ rest = [] := by
      have hread : readMessage [] = .eof := rfl
      have hanswer : readAnswer [] = none := rfl
      simp only [Room.incoming, hempty, hread, hanswer] at hin
      split at hin
      · split_ifs at hin
        cases hin
        exact ⟨rfl, rfl⟩
      · split_ifs at hin
        cases hin
        exact ⟨rfl, rfl⟩
      · cases hin
    obtain ⟨rfl, rfl⟩ := hclosed
    rw [hempty]
    exact ⟨Framing.whole_nil, rfl⟩
  · have hread' : readMessage (r.toClient k) = .accepted m q := hread
    have htaken : ce.message? = some m ∧ rest = q := by
      simp only [Room.incoming, hread', readAnswer_accepted hread'] at hin
      split at hin
      · cases hin
        exact ⟨rfl, rfl⟩
      · cases hin
        exact ⟨rfl, rfl⟩
      · cases hin
    obtain ⟨hce, rfl⟩ := htaken
    rw [hce, hcontents]
    exact ⟨hq, rfl⟩

theorem ClientEvent.Local.message? {ce : ClientEvent} (h : ce.Local) : ce.message? = none := by
  cases ce with
  | start _ | closed | timeout _ | line _ _ => rfl
  | answer _ _ | message _ | rejected => exact h.elim

/-- A delivery is logged. -/
theorem delivered_step {s s' : ChatState} {e : Event} (hs : chatStep s e = some s') (k : Nat) :
    s'.delivered k = s.delivered k ++ s.delivering k e ∧
      ∀ m ∈ s.delivering k e, messageFraming.Valid m := by
  cases e with
  | client j input =>
      refine ⟨?_, by simp [ChatState.delivering]⟩
      rcases step_client hs with rfl | ⟨rfl, -⟩ | ⟨u, -, -, rfl⟩ | ⟨m, -, rfl⟩ <;>
        exact (List.append_nil _).symm
  | join =>
      obtain ⟨j, u, rest, -, rfl⟩ := step_join hs
      refine ⟨?_, by simp [ChatState.delivering]⟩
      rcases s.main.join j u with x | ⟨main, ws⟩ <;> exact (List.append_nil _).symm
  | serve u =>
      obtain ⟨j, -, rfl⟩ := step_serve hs
      refine ⟨?_, by simp [ChatState.delivering]⟩
      rcases s.main.serve u (s.up j) with x | ⟨main, ws⟩ <;> exact (List.append_nil _).symm
  | deliver j =>
      obtain ⟨-, hcases⟩ := step_deliver hs
      by_cases hj : j = k
      · subst hj
        simp only [ChatState.delivering, if_true]
        rcases hcases with ⟨hact, rfl⟩ | ⟨rest, hact, rfl⟩ | ⟨m, rest, hact, rfl⟩
        · simp only [hact]
          exact ⟨(List.append_nil _).symm, by simp⟩
        · simp only [hact]
          exact ⟨(List.append_nil _).symm, by simp⟩
        · simp only [hact, update_self, List.mem_singleton, forall_eq, true_and]
          unfold handleMain at hact
          cases hread : readMessage (s.down j) with
          | eof | aborted | rejected q =>
              rw [hread] at hact
              cases hact
          | accepted m' q =>
              rw [hread] at hact
              simp only at hact
              split at hact <;> cases hact
              obtain ⟨hvalid, htail, -⟩ := readMessage_accepted hread
              exact ⟨hvalid, htail⟩
      · simp only [ChatState.delivering, if_neg hj]
        refine ⟨?_, by simp⟩
        rw [List.append_nil]
        rcases hcases with ⟨-, rfl⟩ | ⟨rest, -, rfl⟩ | ⟨m, rest, -, rfl⟩
        · rfl
        · rfl
        · exact update_of_ne (Ne.symm hj) _ _

theorem received_step (rec : r.Received k) {e : RoomEvent} (hs : r.step e = some r') :
    r'.Received k := by
  cases room_step hs with
  | @client j ce c ms rest hchat hce hothers hturn hrest =>
      by_cases hj : k = j
      · subst hj
        have htaken : messageFraming.Whole rest ∧ messageFraming.contents (r.toClient k) =
            ce.message?.toList ++ messageFraming.contents rest := by
          rcases hrest with ⟨now, hin⟩ | ⟨hlocal, rfl⟩
          · exact incoming_takes rec.whole hin
          · rw [hlocal.message?]
            exact ⟨rec.whole, rfl⟩
        obtain ⟨hgot, hearly⟩ := turn_got rec.early hturn
        refine ⟨?_, ?_, ?_⟩
        · simp only [update_self]
          exact htaken.1
        · simp only [update_self]
          exact hearly
        · simp only [update_self]
          rw [hgot, rec.got, htaken.2, List.append_assoc]
      · refine ⟨?_, ?_, ?_⟩
        · simp only [update_of_ne hj]
          exact rec.whole
        · simp only [update_of_ne hj]
          exact rec.early
        · simp only [update_of_ne hj]
          exact rec.got
  | handler hchat hnone hthere hread hc =>
      refine ⟨rec.whole, rec.early, ?_⟩
      rw [(delivered_step hc k).1, ← rec.got]
      exact List.append_nil _
  | @server ce chat hchat hnone hno hc =>
      obtain ⟨hlog, hvalid⟩ := delivered_step hc k
      obtain ⟨as, has, hq⟩ := rec.whole
      have hall : ∀ m ∈ as ++ r.chat.delivering k ce, messageFraming.Valid m := by
        intro m hm
        rcases List.mem_append.mp hm with hm | hm
        · exact has m hm
        · exact hvalid m hm
      have hq' : r.toClient k ++ (r.chat.delivering k ce).flatMap Message.wire =
          (as ++ r.chat.delivering k ce).flatMap messageFraming.encode := by
        rw [hq, List.flatMap_append]
        rfl
      refine ⟨⟨_, hall, hq'⟩, rec.early, ?_⟩
      simp only
      rw [hq', Framing.contents_encodings hall, hlog, rec.got, hq, Framing.contents_encodings has,
        List.append_assoc]

theorem received_of_reachable {maxClients : Nat} (h : (room maxClients).Reachable r) (k : Nat) :
    r.Received k := by
  apply h.invariant
  · rintro r rfl
    refine ⟨Framing.whole_nil, fun _ => rfl, ?_⟩
    show [] = [] ++ messageFraming.contents []
    rw [Framing.contents_nil]
    rfl
  · intro r e r' rec _ hs
    exact received_step rec hs

/-- Everything the main loop has written to a handler has been read by its client or is on the way. -/
theorem got_append_pending {maxClients : Nat} (h : (room maxClients).Reachable r) (k : Nat) :
    (r.client k).got ++ r.pendingTo k = (r.chat.written k).map Relay.message := by
  have hchat := (room_honest h).1.mono fun _ _ hh => hh.1
  rw [← delivered_append_pending hchat k, (received_of_reachable h k).got, Room.pendingTo,
    List.append_assoc]

end Received

/-! ## What others see -/

/-- What the screens of the others show for what a user does. A text is read up to its first NUL, and
without one on into the type of the attribute behind it. -/
def Activity.shown (u : Bytes) : Activity → List Bytes
  | .typed text =>
      if text = [] then []
      else [u ++ ascii ": " ++ (text ++ [AttributeType.username.byte]).takeWhile (· ≠ 0)]
  | .idled => [u ++ ascii " is idle"]
  | _ => []

/-- What the screens of the others show for a message, once it is relayed under a name. -/
def relayedLines (u : Bytes) (m : Message) : List Bytes :=
  match MainLoop.relay m u with
  | .ok (some m') => linesOf m'
  | _ => []

section Shown

variable {m : Message} {u : Bytes}

theorem relayedLines_send (hu : IsName u) {v : Bytes} {hv : v.length ≤ sbcpMaxMessageLength}
    (hp : Packed m .send [messageAttr v hv]) :
    relayedLines u m =
      [u ++ ascii ": " ++ (v ++ [AttributeType.username.byte]).takeWhile (· ≠ 0)] := by
  obtain ⟨m', hm', ⟨-, hp', hlimit⟩ | ⟨ht, -⟩⟩ := relay_packed ⟨hp, send_limit hv⟩ (.inl rfl) hu
  · have hroom := Nat.lt_of_le_of_lt hlimit (by decide : Message.payloadLimit .fwd < 1024)
    have hname : m'.getUsername = .ok u := by
      rw [getUsername_packed hp' hlimit hroom]
      exact congrArg Except.ok (Attr.readAs_nil (a := usernameAttr u hu.2) hu.1)
    have hsplit : Packed m' .fwd ([] ++ messageAttr v hv :: [usernameAttr u hu.2]) := hp'
    have htext : m'.getMessage =
        .ok ((v ++ [AttributeType.username.byte]).takeWhile (· ≠ 0)) := by
      have hfind := findAttribute_packed hsplit hlimit (by simp) "Message attribute not found"
      have hread := stringAt_readAs (n := v.length) hsplit hroom
      unfold Message.getMessage
      exact bind_eq_ok.mpr ⟨_, hfind, hread⟩
    have hdisplay : display m' =
        .ok [u ++ ascii ": " ++ (v ++ [AttributeType.username.byte]).takeWhile (· ≠ 0)] := by
      unfold display
      rw [hp'.getType]
      simp only [hname, htext, bind, Except.bind]
    simp only [relayedLines, hm', linesOf, hdisplay]
  · cases ht

theorem relayedLines_idle (hu : IsName u) (hp : Packed m .idle []) :
    relayedLines u m = [u ++ ascii " is idle"] := by
  obtain ⟨m', hm', ⟨ht, -⟩ | ⟨-, hp'⟩⟩ :=
    relay_packed (⟨hp, Nat.zero_le _⟩ : HandlerAccepted m .idle []) (.inr rfl) hu
  · cases ht
  · have hname : m'.getUsername = .ok u := getUsername_single hp' (by decide) hu.1
    have hdisplay : display m' = .ok [u ++ ascii " is idle"] := by
      unfold display
      rw [hp'.getType]
      simp only [hname, bind, Except.bind]
    simp only [relayedLines, hm', linesOf, hdisplay]

/-- What a turn writes shows what it does. -/
theorem turn_shown {c c' : Client} {e : ClientEvent} {ms : List Message} (hu : IsName u)
    (ht : c.turn e = some (c', ms)) :
    (c.doing e).flatMap (fun a => a.2.shown u) = ms.flatMap (relayedLines u) := by
  cases e with
  | start username =>
      simp only [Client.turn] at ht
      split_ifs at ht
      simp only [bind, Option.bind_eq_some_iff, Option.some.injEq, Prod.mk.injEq] at ht
      obtain ⟨m, hm, -, rfl⟩ := ht
      -- a JOIN is not relayed
      obtain ⟨hj, hp⟩ := join_ok (toOption_eq_some.mp hm)
      have hnone : relayedLines u m = [] := by
        simp only [relayedLines, MainLoop.relay, hp.getType]
      rw [List.flatMap_singleton, hnone]
      rfl
  | answer m now =>
      simp only [Client.turn] at ht
      split_ifs at ht
      cases ht
      show (if (c.onAnswer m now).phase = .exited then [] else [(now, Activity.connected)]).flatMap
        (fun a : Int × Activity => a.2.shown u) = []
      split_ifs <;> rfl
  | message m | rejected | closed =>
      simp only [Client.turn] at ht
      split at ht <;> cases ht <;> rfl
  | timeout now =>
      have hdoing : c.doing (.timeout now) = if ms = [] then [] else [(now, .idled)] := by
        rw [← Client.sending_of_turn ht]
        rfl
      rw [hdoing]
      simp only [Client.turn] at ht
      split at ht
      · cases ht
        rfl
      · split_ifs at ht <;> cases ht
        · rw [List.flatMap_singleton, relayedLines_idle hu (packed_ofType .idle)]
          rfl
        · rfl
      · cases ht
  | line text now =>
      simp only [Client.turn] at ht
      split at ht
      · split_ifs at ht with htext
        · cases ht
          simp [Client.doing, Activity.shown, htext]
        · simp only [bind, Option.bind_eq_some_iff, Option.some.injEq, Prod.mk.injEq] at ht
          obtain ⟨m, hm, -, rfl⟩ := ht
          obtain ⟨hv, hp⟩ := send_ok (toOption_eq_some.mp hm)
          rw [List.flatMap_singleton, relayedLines_send hu hp]
          simp only [Client.doing, List.flatMap_singleton, Activity.shown, if_neg htext]
      · cases ht

end Shown

/-! ## Over a run -/

section Runs

variable {maxClients : Nat} {r r' : Room} {es : List RoomEvent} {h k : Nat}

theorem wired_of_room (hr : (room maxClients).Reachable r) :
    Wired r.chat.main r.chat.pipe r.chat.phase :=
  wired_of_reachable (room_honest hr).1

/-- A client that has joined keeps its name. -/
theorem name_step (i : r.Sound) (hin : Entered h r.chat) {e : RoomEvent}
    (hs : r.step e = some r') : (r'.client h).name = (r.client h).name := by
  cases room_step hs with
  | @client j ce c ms rest hchat hce hothers hturn hrest =>
      by_cases hj : h = j
      · subst hj
        simp only [update_self]
        rcases turn_writes hturn with ⟨habs, -⟩ | ⟨-, -, hname, -⟩
        · have hconn := (i.absent h habs).1
          rcases hin with hp | hp <;> rw [hconn] at hp <;> cases hp
        · rw [Client.name, hname, Client.name]
      · simp only [update_of_ne hj]
  | handler => rfl
  | server => rfl

/-- What the main loop has written to a handler over a run. -/
theorem written_append (hr : (room maxClients).Reachable r)
    (hs : (room maxClients).run r es = some r') (hk : r.chat.holds k = true)
    (hk' : r'.chat.holds k = true) :
    (r'.chat.written k).map Relay.message = (r.chat.written k).map Relay.message ++
      ((room maxClients).outputs Room.announcing r es).flatMap (ChatState.toldTo k) := by
  rw [Machine.outputs_flatMap hs]
  refine Machine.outputs_append (fun r => (r.chat.written k).map Relay.message) hr
    Machine.Along.of_true (along_held hr hs hk hk') hs ?_
  rintro r e r' hr - ⟨-, hh, hh'⟩ hs
  rcases chat_of_step hs with ⟨hnone, hsame⟩ | ⟨ce, hce, hstep⟩
  · rw [hsame, Room.announcing, hnone]
    exact (List.append_nil _).symm
  · rw [Room.announcing, hce]
    exact told_step (wired_of_room hr) (upWhole_of_reachable (room_honest hr).1) hstep hh
      (hh' r' hs)

/-- What is announced of a user's messages shows what the main loop has taken from him. -/
theorem announced_step (i : r.Sound) (w : Wired r.chat.main r.chat.pipe r.chat.phase)
    {e : RoomEvent} (hs : r.step e = some r') (h : Nat) :
    ((r.announcing e).flatMap (ChatState.relaysOf h)).flatMap linesOf =
      ((r.serving h e).map Prod.snd).flatMap (relayedLines (r.client h).name) := by
  have hlines : ∀ {ps : List (Bytes × Message)} {ms : List Message} {u : Bytes},
      List.Forall₂ (fun p m' => MainLoop.relay p.2 p.1 = .ok (some m')) ps ms →
      (∀ p ∈ ps, p.1 = u) →
      ms.flatMap linesOf = (ps.map Prod.snd).flatMap (relayedLines u) := by
    intro ps ms u hall hu
    induction hall with
    | nil => rfl
    | @cons p m' ps ms hp _ ih =>
        have hname : p.1 = u := hu p (List.mem_cons_self ..)
        rw [List.map_cons, List.flatMap_cons, List.flatMap_cons,
          ih fun q hq => hu q (List.mem_cons_of_mem _ hq)]
        simp only [relayedLines, ← hname, hp]
  rcases chat_of_step hs with ⟨hnone, -⟩ | ⟨ce, hce, hstep⟩
  · simp only [Room.announcing, Room.serving, hnone]
    rfl
  · have hup : UpWhole r.chat := fun j => by
      obtain ⟨as, has, hq⟩ := i.up j
      exact ⟨as, fun m hm => (has m hm).forwardable, hq⟩
    simp only [Room.announcing, Room.serving, hce, Option.map_some, Option.getD_some]
    refine hlines (relays_step w hup hstep h) ?_
    intro p hp
    cases ce with
    | client j input | join | deliver j => cases hp
    | serve u =>
        simp only [ChatState.serving] at hp
        split_ifs at hp with hget
        · split at hp
          · rw [List.mem_singleton.mp hp]
            exact i.fifoName u h (by rw [← w.same]; exact hget)
          · cases hp
        · cases hp

/-- What the main loop takes from a user, what is on the way to it, and what is lost with the handler, is what
the user does. -/
theorem taken_append (hr : (room maxClients).Reachable r)
    (hs : (room maxClients).run r es = some r') (hh : r.chat.holds h = true)
    (hh' : r'.chat.holds h = true) :
    ∃ lost, r.pendingFrom h ++ (room maxClients).outputs (fun r => r.sending h) r es =
        ((room maxClients).outputs (fun r => r.serving h) r es).map Prod.snd ++ r'.pendingFrom h ++ lost ∧
      (¬ r'.chat.phase h = .finished → lost = []) := by
  rw [Machine.outputs_map hs]
  refine Machine.outputs_conserve_until (fun r => r.pendingFrom h) (fun r => r.chat.phase h = .finished) hr
    Machine.Along.of_true (along_held hr hs hh hh') hs ?_ ?_
  · intro r e r' hr _ hheld hs hthere
    exact from_step (room_honest hr).2 (hheld.1.resolve_right hthere) hs
  · intro r e r' hr _ _ hs hfinished
    exact from_step_finished (room_honest hr).2 (wired_of_room hr) hfinished hs

/-- A program in its main loop, or past it, shows what it reads. -/
theorem screen_append (hr : (room maxClients).Reachable r)
    (hs : (room maxClients).run r es = some r') (hlate : ¬ (r.client k).Early) :
    (r'.client k).got = (r.client k).got ++ (room maxClients).outputs (fun r => r.reading k) r es ∧
      (r'.client k).screen = (r.client k).screen ++
        ((room maxClients).outputs (fun r => r.reading k) r es).flatMap linesOf := by
  have hstep : ∀ {r r' : Room} {e : RoomEvent}, ¬ (r.client k).Early → r.step e = some r' →
      ¬ (r'.client k).Early ∧ (r'.client k).got = (r.client k).got ++ r.reading k e ∧
        (r'.client k).screen = (r.client k).screen ++ (r.reading k e).flatMap linesOf := by
    intro r r' e hlate hs
    have hidle : r.clientEvent? k e = none → r'.client k = r.client k →
        ¬ (r'.client k).Early ∧ (r'.client k).got = (r.client k).got ++ r.reading k e ∧
          (r'.client k).screen = (r.client k).screen ++ (r.reading k e).flatMap linesOf := by
      intro hnone hsame
      rw [hsame, Room.reading, hnone]
      exact ⟨hlate, (List.append_nil _).symm, (List.append_nil _).symm⟩
    cases room_step hs with
    | @client j ce c ms rest hchat hce hothers hturn hrest =>
        by_cases hj : k = j
        · subst hj
          obtain ⟨hlate', hanswer, hseen, hscreen⟩ := turn_screen hlate hturn
          simp only [update_self, Room.reading, hce, Option.map_some, Option.getD_some]
          refine ⟨hlate', ?_, hscreen⟩
          rw [Client.got, hanswer, hseen, Client.got, List.append_assoc]
        · exact hidle (hothers k hj) (update_of_ne hj _ _)
    | handler hchat hnone => exact hidle (hnone k) rfl
    | server hchat hnone => exact hidle (hnone k) rfl
  have halong := (Machine.Along.between (P := fun r => ¬ (r.client k).Early) (Q := fun _ => True) hr
    Machine.Along.of_true hs hlate trivial (fun _ _ _ _ hP hs => (hstep hP hs).1)
    (fun _ _ _ _ _ _ _ => trivial)).2
  refine ⟨?_, ?_⟩
  · exact Machine.outputs_append (fun r => (r.client k).got) hr Machine.Along.of_true halong hs
      (fun r e r' _ _ hP hs => (hstep hP.1 hs).2.1)
  · rw [Machine.outputs_flatMap hs]
    exact Machine.outputs_append (fun r => (r.client k).screen) hr Machine.Along.of_true halong
      hs (fun r e r' _ _ hP hs => (hstep hP.1 hs).2.2)

/-- What is announced of a user over a run shows what he did, up to what is still on the way. -/
theorem announced_prefix (hr : (room maxClients).Reachable r)
    (hs : (room maxClients).run r es = some r') (hh : r.chat.holds h = true)
    (hh' : r'.chat.holds h = true) (hempty : r.pendingFrom h = []) :
    ∃ late, (r'.chat.phase h ≠ .finished → r'.pendingFrom h = [] → late = []) ∧
      (((room maxClients).outputs Room.announcing r es).flatMap (ChatState.relaysOf h)).flatMap
          linesOf ++ late =
        ((room maxClients).outputs (fun r => r.doing h) r es).flatMap
          fun a => a.2.shown (r.client h).name := by
  have hname : IsName (r.client h).name := by
    obtain ⟨-, v, hv⟩ := holds_iff.mp hh
    rw [← (room_honest hr).2.fifoName v h hv]
    exact (wired_of_room hr).name v h hv
  have halong := (Machine.Along.between
    (P := fun q : Room => Entered h q.chat ∧ (q.client h).name = (r.client h).name)
    (Q := fun _ => True) hr Machine.Along.of_true hs
    ⟨entered_of_holds (wired_of_room hr) hh, rfl⟩ trivial
    (fun q e q' hq hP hs => ⟨by
        rcases chat_of_step hs with ⟨-, hsame⟩ | ⟨ce, -, hstep⟩
        · rw [hsame]
          exact hP.1
        · exact entered_step hstep hP.1,
      (name_step (room_honest hq).2 hP.1 hs).trans hP.2⟩)
    (fun _ _ _ _ _ _ _ => trivial)).2
  -- what is announced shows what is taken
  have htaken : (((room maxClients).outputs Room.announcing r es).flatMap
      (ChatState.relaysOf h)).flatMap linesOf =
      (((room maxClients).outputs (fun r => r.serving h) r es).map Prod.snd).flatMap
        (relayedLines (r.client h).name) := by
    rw [Machine.outputs_flatMap hs, Machine.outputs_flatMap hs, Machine.outputs_map hs,
      Machine.outputs_flatMap hs]
    refine Machine.outputs_congr hr Machine.Along.of_true halong hs ?_
    intro q e q' hq hP hs
    rw [announced_step (room_honest hq).2 (wired_of_room hq) hs h, hP.1.2]
  -- what is done shows what is sent
  have hdone : ((room maxClients).outputs (fun r => r.doing h) r es).flatMap
      (fun a => a.2.shown (r.client h).name) =
      ((room maxClients).outputs (fun r => r.sending h) r es).flatMap
        (relayedLines (r.client h).name) := by
    rw [Machine.outputs_flatMap hs, Machine.outputs_flatMap hs]
    refine Machine.outputs_congr hr Machine.Along.of_true Machine.Along.of_true hs ?_
    intro q e q' hq _ hs
    have hnone : q.clientEvent? h e = none → (q.doing h e).flatMap
        (fun a => a.2.shown (r.client h).name) =
        (q.sending h e).flatMap (relayedLines (r.client h).name) := by
      intro hnone
      rw [Room.doing, Room.sending, hnone]
      rfl
    cases room_step hs with
    | @client j ce c ms rest hchat hce hothers hturn hrest =>
        by_cases hj : h = j
        · subst hj
          simp only [Room.doing, Room.sending, hce, Option.map_some, Option.getD_some,
            Client.sending_of_turn hturn]
          exact turn_shown hname hturn
        · exact hnone (hothers h hj)
    | handler hchat hno => exact hnone (hno h)
    | server hchat hno => exact hnone (hno h)
  obtain ⟨lost, hsent, hlost⟩ := taken_append hr hs hh hh'
  rw [hempty, List.nil_append, List.append_assoc] at hsent
  refine ⟨(r'.pendingFrom h ++ lost).flatMap (relayedLines (r.client h).name), ?_, ?_⟩
  · intro hthere hnil
    rw [hnil, hlost hthere]
    rfl
  · rw [htaken, hdone, hsent]
    exact List.flatMap_append.symm

end Runs

/-- **What one user types appears on another's screen.** Between two moments of a run of the room at which
the main loop holds both users, the first of them with nothing on the way from `h` to `k`, the screen of
`k` gains the lines of announcements about others, oldest first; and those about `h` are what `h` did, in order
and nothing twice, up to some point: to the end, if in the end nothing is on the way and the handler of `h` is
there. -/
theorem lines_appear (maxClients : Nat) (r r' : Room) (es : List RoomEvent)
    (hr : (room maxClients).Reachable r) (hs : (room maxClients).run r es = some r') (h k : Nat)
    (hne : h ≠ k) (hh : r.chat.holds h = true) (hh' : r'.chat.holds h = true)
    (hk : r.chat.holds k = true) (hk' : r'.chat.holds k = true) (hlate : ¬ (r.client k).Early)
    (hquiet : r.Quiet h k) :
    ∃ new : List (Nat × Message),
      new <+: ((room maxClients).outputs Room.announcing r es).filter (fun p => p.1 ≠ k) ∧
      (r'.client k).screen = (r.client k).screen ++ new.flatMap (fun p => linesOf p.2) ∧
      (new.flatMap (ChatState.relaysOf h)).flatMap linesOf <+:
        ((room maxClients).outputs (fun r => r.doing h) r es).flatMap
          (fun a => a.2.shown (r.client h).name) ∧
      (r'.chat.phase h ≠ .finished → r'.Quiet h k → (new.flatMap (ChatState.relaysOf h)).flatMap linesOf =
        ((room maxClients).outputs (fun r => r.doing h) r es).flatMap
          (fun a => a.2.shown (r.client h).name)) := by
  obtain ⟨hgot, hscreen⟩ := screen_append hr hs hlate
  have hr' : (room maxClients).Reachable r' := hr.run Machine.Along.of_true hs
  -- what `k` has read and will read is what it was told
  have htold := written_append hr hs hk hk'
  rw [← got_append_pending hr k, ← got_append_pending hr' k, hquiet.2, List.append_nil, hgot,
    List.append_assoc, List.append_cancel_left_eq] at htold
  generalize (room maxClients).outputs (fun r => r.reading k) r es = read at hscreen htold
  have hothers : ((room maxClients).outputs Room.announcing r es).flatMap (ChatState.toldTo k) =
      (((room maxClients).outputs Room.announcing r es).filter fun p => p.1 ≠ k).map Prod.snd := by
    induction (room maxClients).outputs Room.announcing r es with
    | nil => rfl
    | cons p ps ih =>
        by_cases hp : p.1 = k
        · simp [List.flatMap_cons, ChatState.toldTo, hp, ih]
        · simp [List.flatMap_cons, ChatState.toldTo, hp, ih]
  have hrelays : ((room maxClients).outputs Room.announcing r es).flatMap (ChatState.relaysOf h) =
      (((room maxClients).outputs Room.announcing r es).filter fun p => p.1 ≠ k).flatMap
        (ChatState.relaysOf h) := by
    induction (room maxClients).outputs Room.announcing r es with
    | nil => rfl
    | cons p ps ih =>
        by_cases hp : p.1 = k
        · simp [List.flatMap_cons, ChatState.relaysOf, hp, ih, Ne.symm hne]
        · simp [List.flatMap_cons, hp, ih]
  obtain ⟨late, hlate', hdone⟩ := announced_prefix hr hs hh hh' hquiet.1
  rw [hrelays] at hdone
  rw [hothers] at htold
  generalize ((room maxClients).outputs Room.announcing r es).filter (fun p => p.1 ≠ k) = told
    at htold hdone ⊢
  -- `k` has read the first few of them
  have hread : (told.take read.length).map Prod.snd = read := by
    rw [List.map_take, ← htold, List.take_left]
  have hshown : (told.flatMap (ChatState.relaysOf h)).flatMap linesOf =
      ((told.take read.length).flatMap (ChatState.relaysOf h)).flatMap linesOf ++
        ((told.drop read.length).flatMap (ChatState.relaysOf h)).flatMap linesOf := by
    rw [← List.flatMap_append, ← List.flatMap_append, List.take_append_drop]
  refine ⟨told.take read.length, List.take_prefix _ _, ?_, ?_, ?_⟩
  · have hlines : read.flatMap linesOf = (told.take read.length).flatMap fun p => linesOf p.2 := by
      conv_lhs => rw [← hread]
      rw [List.flatMap_map]
    rw [hscreen, hlines]
  · rw [← hdone, hshown, List.append_assoc]
    exact List.prefix_append _ _
  · intro hthere hquiet'
    have hall : told.drop read.length = [] := by
      rw [hquiet'.2, List.append_nil] at htold
      rw [List.drop_eq_nil_iff, htold, List.length_map]
    rw [← hdone, hlate' hthere hquiet'.1, List.append_nil, hshown, hall, List.flatMap_nil, List.flatMap_nil,
      List.append_nil]

/-- What user 0 types appears on user 1's screen. -/
theorem lines_appear_hi :
    ∃ r r', (room 2).run (Room.start 2) bothJoin = some r ∧ (room 2).run r lineToB = some r' ∧
      ∃ new : List (Nat × Message),
        new <+: ((room 2).outputs Room.announcing r lineToB).filter (fun p => p.1 ≠ 1) ∧
        (r'.client 1).screen = (r.client 1).screen ++ new.flatMap (fun p => linesOf p.2) ∧
        (new.flatMap (ChatState.relaysOf 0)).flatMap linesOf <+:
          ((room 2).outputs (fun r => r.doing 0) r lineToB).flatMap
            (fun a => a.2.shown (r.client 0).name) ∧
        (r'.chat.phase 0 ≠ .finished → r'.Quiet 0 1 → (new.flatMap (ChatState.relaysOf 0)).flatMap linesOf =
          ((room 2).outputs (fun r => r.doing 0) r lineToB).flatMap
            (fun a => a.2.shown (r.client 0).name)) := by
  have hrun : (((room 2).run (Room.start 2) bothJoin).any fun r =>
      r.chat.holds 0 && r.chat.holds 1 &&
        decide (¬ ((r.client 1).phase = .absent ∨ (r.client 1).phase = .joining)) &&
        decide (r.pendingFrom 0 = [] ∧ r.pendingTo 1 = []) &&
        ((room 2).run r lineToB).any fun r' => r'.chat.holds 0 && r'.chat.holds 1) = true := by
    decide +kernel
  obtain ⟨r, hs, hrest⟩ := (Option.any_eq_true _ _).mp hrun
  simp only [Bool.and_eq_true, decide_eq_true_eq] at hrest
  obtain ⟨⟨⟨⟨h0, h1⟩, hlate⟩, hquiet⟩, hrest⟩ := hrest
  obtain ⟨r', hs', hrest'⟩ := (Option.any_eq_true _ _).mp hrest
  rw [Bool.and_eq_true] at hrest'
  exact ⟨r, r', hs, hs', lines_appear 2 r r' lineToB (.run (.init rfl) Machine.Along.of_true hs) hs' 0 1
    (by decide) h0 hrest'.1 h1 hrest'.2 hlate hquiet⟩

end ComputerNetworking.Chat
