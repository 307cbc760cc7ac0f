/-
# ComputerNetworking.Chat.Client -- the chat client

`sbcp_client.cpp` joins under a name, prints what the server tells it and sends what is typed. Its main
loop waits a second at a time for the server or the keyboard. When neither has anything to say it looks
at the clock, and if nothing has been typed for ten seconds it sends one IDLE.

A `ClientEvent` is one turn of the program: what has become ready, and the time where the program asks
for it. `client_protocol` says what it can have sent by then.
-/
import ComputerNetworking.Chat.ReadMessage
import ComputerNetworking.Lib.Decimal
import ComputerNetworking.Lib.Transition
import ComputerNetworking.Sbcp.Messages

namespace ComputerNetworking.Chat

open ComputerNetworking.Lib ComputerNetworking.Sbcp

/-! ## What is read -/

/-- The answer to JOIN on a queue: a header and as many bytes as it announces, none of it checked. `none`
as long as it is not all there, and where it does not fit the buffer. -/
def readAnswer (q : Bytes) : Option (Message × Bytes) :=
  match q with
  | b₀ :: b₁ :: b₂ :: b₃ :: rest =>
      let m := readHeader b₀ b₁ b₂ b₃
      if h : m.getLength ≤ rest.length ∧ m.getLength ≤ sbcpMaxPayloadLength then
        some (readPayload m (rest.take m.getLength) ((List.length_take_le ..).trans h.2),
          rest.drop m.getLength)
      else none
  | _ => none

/-- What passes the checks the program does not make is read as they would have it. -/
theorem readAnswer_accepted {q rest : Bytes} {m : Message} (h : readMessage q = .accepted m rest) :
    readAnswer q = some (m, rest) := by
  obtain ⟨b₀, b₁, b₂, b₃, bytes, hfit, rfl, -, hlen, rfl⟩ := exists_of_accepted h
  have hroom : bytes.length ≤ (bytes ++ rest).length ∧ bytes.length ≤ sbcpMaxPayloadLength :=
    ⟨by rw [List.length_append]; omega, hfit⟩
  unfold readAnswer
  simp only [← hlen, List.take_left, List.drop_left]
  exact dif_pos hroom

/-! ## What is printed -/

/-- What is printed for an ACK, and the exception that ends the program meanwhile. -/
def greeting (m : Message) : List Bytes × Option Fault :=
  match m.getClientCount with
  | .error e => ([ascii "Connected to server"], some e)
  | .ok count =>
      let counted := [ascii "Connected to server", ascii "Client count: " ++ decimal count.toNat]
      if count.toNat > 1 then
        match m.getUsernames with
        | .error e => (counted, some e)
        | .ok usernames =>
            (counted ++ [ascii "Clients: " ++ usernames.flatMap fun u => u ++ ascii " "], none)
      else (counted ++ [ascii "No other clients connected"], none)

/-- What the main loop prints for a message. The accessors' exceptions are not caught. -/
def display (m : Message) : Except Fault (List Bytes) :=
  match m.getType with
  | some .fwd => do
      let username ← m.getUsername
      let message ← m.getMessage
      .ok [username ++ ascii ": " ++ message]
  | some .offline => do
      let username ← m.getUsername
      .ok [username ++ ascii " is offline"]
  | some .online => do
      let username ← m.getUsername
      .ok [username ++ ascii " is online"]
  | some .idle => do
      let username ← m.getUsername
      .ok [username ++ ascii " is idle"]
  | _ => .ok []

/-! ## The program -/

/-- Where the program is. -/
inductive ClientPhase where
  /-- Not started. -/
  | absent
  /-- JOIN is sent, `readn` waits for the answer. -/
  | joining
  /-- In the main loop, with its locals `idle` and `spec.tv_sec`. -/
  | chatting (idle : Bool) (spec : Int)
  | exited
  deriving DecidableEq

structure Client where
  /-- `argv[1]`, a C string. -/
  username : Bytes
  phase : ClientPhase
  /-- The answer to JOIN, once it has been read. -/
  answer : Option Message
  /-- The messages the main loop has read. -/
  seen : List Message
  /-- The lines on the standard output, without the prompts. -/
  screen : List Bytes

def Client.absent : Client := ⟨[], .absent, none, [], []⟩

/-- One turn of the program. -/
inductive ClientEvent where
  /-- The program is started with this user name and has connected. -/
  | start (username : Bytes)
  /-- The answer to JOIN has been read. -/
  | answer (m : Message) (now : Int)
  /-- The server's descriptor is ready, and a message is read from it. -/
  | message (m : Message)
  /-- It is ready, and the header read from it is not valid. -/
  | rejected
  /-- `readn` finds the end of the connection. -/
  | closed
  /-- `select` has waited for a second in vain. -/
  | timeout (now : Int)
  /-- A line is read from the standard input; an empty one also where the input has ended. -/
  | line (text : Bytes) (now : Int)

namespace Client

/-- The rest of the turn that reads the answer. -/
def onAnswer (c : Client) (m : Message) (now : Int) : Client :=
  if m.getType = some .ack then
    let (lines, fault) := greeting m
    { c with
      answer := some m
      screen := c.screen ++ lines
      phase := if fault = none then .chatting false now else .exited }
  else
    -- the reason goes to the standard error; `exit(EXIT_FAILURE)`
    { c with answer := some m, phase := .exited }

/-- The rest of the turn that reads a message. -/
def onMessage (c : Client) (m : Message) : Client :=
  match display m with
  | .ok lines => { c with seen := c.seen ++ [m], screen := c.screen ++ lines }
  | .error _ => { c with seen := c.seen ++ [m], phase := .exited }

/-- One turn, and the messages it writes. There is none where the program is elsewhere, and none where it
overruns an attribute's buffer with a longer text than fits. -/
def turn (c : Client) : ClientEvent → Option (Client × List Message)
  | .start username =>
      if c.phase = .absent then do
        let username := username.takeWhile (· ≠ 0)
        let m ← (Messages.join username).toOption
        some ({ c with username := username, phase := .joining }, [m])
      else none
  | .answer m now => if c.phase = .joining then some (c.onAnswer m now, []) else none
  | .closed =>
      match c.phase with
      | .joining => some ({ c with phase := .exited }, [])
      | .chatting _ _ => some ({ c with phase := .exited }, [])
      | _ => none
  | .message m =>
      match c.phase with
      | .chatting _ _ => some (c.onMessage m, [])
      | _ => none
  | .rejected =>
      match c.phase with
      | .chatting _ _ => some (c, [])
      | _ => none
  | .timeout now =>
      match c.phase with
      | .chatting true _ => some (c, [])
      | .chatting false spec =>
          if now - spec ≥ 10 then
            some ({ c with phase := .chatting true spec }, [Message.ofType .idle])
          else some (c, [])
      | _ => none
  | .line text now =>
      match c.phase with
      | .chatting _ _ =>
          if text = [] then some ({ c with phase := .exited }, [])
          else do
            let m ← (Messages.send text).toOption
            some ({ c with phase := .chatting false now }, [m])
      | _ => none

/-- The messages a turn writes to the server. -/
def sending (c : Client) (e : ClientEvent) : List Message := ((c.turn e).map Prod.snd).getD []

end Client

/-- The chat client. -/
def chatClient : Machine Client ClientEvent where
  init c := c = .absent
  step c e := (c.turn e).map Prod.fst

/-! ## What it does when -/

/-- What a turn does that others can notice. -/
inductive Activity where
  | started (username : Bytes)
  | connected
  | typed (text : Bytes)
  | idled
  deriving DecidableEq

namespace Activity

/-- The messages written for it. -/
def messages : Activity → List Message
  | .started username => (Messages.join username).toOption.toList
  | .connected => []
  | .typed text => if text = [] then [] else (Messages.send text).toOption.toList
  | .idled => [Message.ofType .idle]

/-- The user is there, and so is the program. -/
def Present : Activity → Prop
  | .connected => True
  | .typed text => text ≠ []
  | _ => False

end Activity

/-- What can come right after what. An IDLE comes ten seconds after the last line, or after the program has
connected if there was none, and never after an IDLE; nothing comes after an empty line. -/
def Follows (a b : Int × Activity) : Prop :=
  match b.2 with
  | .started _ => False
  | .connected => ∃ username, a.2 = .started username
  | .typed _ => a.2.Present ∨ a.2 = .idled
  | .idled => a.2.Present ∧ a.1 + 10 ≤ b.1

namespace Client

/-- What a turn does, and when. The program does not ask for the time when it starts. -/
def doing (c : Client) : ClientEvent → List (Int × Activity)
  | .start username => [(0, .started (username.takeWhile (· ≠ 0)))]
  | .answer m now => if (c.onAnswer m now).phase = .exited then [] else [(now, .connected)]
  | .timeout now => if c.sending (.timeout now) = [] then [] else [(now, .idled)]
  | .line text now => [(now, .typed text)]
  | _ => []

/-- The last thing a program in this state has done. -/
def Last (c : Client) (a : Int × Activity) : Prop :=
  match c.phase with
  | .absent => False
  | .joining => ∃ username, a.2 = .started username
  | .chatting false spec => a.2.Present ∧ a.1 = spec
  | .chatting true _ => a.2 = .idled
  | .exited => True

section Turn

variable {c c' : Client} {e : ClientEvent} {ms : List Message} {a : Int × Activity}

theorem onAnswer_phase (c : Client) (m : Message) (now : Int) :
    (c.onAnswer m now).phase = .exited ∨ (c.onAnswer m now).phase = .chatting false now := by
  unfold onAnswer
  split_ifs
  · simp only
    split_ifs
    · exact .inr rfl
    · exact .inl rfl
  · exact .inl rfl

theorem onMessage_phase (c : Client) (m : Message) :
    (c.onMessage m).phase = .exited ∨ (c.onMessage m).phase = c.phase := by
  unfold onMessage
  split
  · exact .inr rfl
  · exact .inl rfl

/-- A program that has just started has done nothing before. -/
theorem turn_absent (hp : c.phase = .absent) (ht : c.turn e = some (c', ms)) :
    ∃ username, c.doing e = [(0, .started username)] ∧ c'.Last (0, .started username) := by
  cases e with
  | start username =>
      simp only [turn, hp, if_true, bind, Option.bind_eq_some_iff, Option.some.injEq,
        Prod.mk.injEq] at ht
      obtain ⟨m, hm, rfl, rfl⟩ := ht
      exact ⟨_, rfl, ⟨_, rfl⟩⟩
  | answer m now => simp [turn, hp] at ht
  | message m => simp [turn, hp] at ht
  | rejected => simp [turn, hp] at ht
  | closed => simp [turn, hp] at ht
  | timeout now => simp [turn, hp] at ht
  | line text now => simp [turn, hp] at ht

theorem sending_of_turn (ht : c.turn e = some (c', ms)) : c.sending e = ms := by
  rw [sending, ht]
  rfl

/-- A turn writes what it does. -/
theorem turn_messages (ht : c.turn e = some (c', ms)) :
    ms = (c.doing e).flatMap fun b => b.2.messages := by
  cases e with
  | start username =>
      simp only [turn] at ht
      split_ifs at ht
      simp only [bind, Option.bind_eq_some_iff, Option.some.injEq, Prod.mk.injEq] at ht
      obtain ⟨m, hm, -, rfl⟩ := ht
      show [m] = (Messages.join _).toOption.toList ++ []
      rw [hm]
      rfl
  | answer m now =>
      simp only [turn] at ht
      split_ifs at ht
      cases ht
      show [] = (if (c.onAnswer m now).phase = .exited then [] else [(now, Activity.connected)]).flatMap
        fun b : Int × Activity => b.2.messages
      split_ifs <;> rfl
  | message m | rejected | closed =>
      simp only [turn] at ht
      split at ht <;> cases ht <;> rfl
  | timeout now =>
      have hdoing : c.doing (.timeout now) = if ms = [] then [] else [(now, .idled)] := by
        rw [← sending_of_turn ht]
        rfl
      rw [hdoing]
      simp only [turn] at ht
      split at ht
      · cases ht
        rfl
      · split_ifs at ht <;> cases ht <;> rfl
      · cases ht
  | line text now =>
      simp only [turn] at ht
      split at ht
      · split_ifs at ht with htext
        · cases ht
          simp [doing, Activity.messages, htext]
        · simp only [bind, Option.bind_eq_some_iff, Option.some.injEq, Prod.mk.injEq] at ht
          obtain ⟨m, hm, -, rfl⟩ := ht
          simp [doing, Activity.messages, htext, hm]
      · cases ht

/-- **One turn keeps to the protocol**: it does what can come next, if anything. -/
theorem turn_follows (hlast : c.Last a) (ht : c.turn e = some (c', ms)) :
    (c.doing e = [] ∧ c'.Last a) ∨ ∃ b, c.doing e = [b] ∧ Follows a b ∧ c'.Last b := by
  cases e with
  | start username =>
      -- the program has started already
      simp only [turn] at ht
      split_ifs at ht with hp
      unfold Last at hlast
      rw [hp] at hlast
      exact hlast.elim
  | answer m now =>
      simp only [turn] at ht
      split_ifs at ht with hp
      cases ht
      unfold Last at hlast
      rw [hp] at hlast
      rcases c.onAnswer_phase m now with hexit | hchat
      · refine .inl ⟨if_pos hexit, ?_⟩
        unfold Last
        rw [hexit]
        trivial
      · refine .inr ⟨(now, .connected), if_neg ?_, hlast, ?_⟩
        · rw [hchat]
          exact fun h => by cases h
        · unfold Last
          rw [hchat]
          exact ⟨trivial, rfl⟩
  | message m =>
      simp only [turn] at ht
      split at ht <;> cases ht
      refine .inl ⟨rfl, ?_⟩
      rcases c.onMessage_phase m with hexit | hsame
      · unfold Last
        rw [hexit]
        trivial
      · unfold Last at hlast ⊢
        rw [hsame]
        exact hlast
  | rejected =>
      simp only [turn] at ht
      split at ht <;> cases ht
      exact .inl ⟨rfl, hlast⟩
  | closed =>
      simp only [turn] at ht
      split at ht <;> cases ht <;> exact .inl ⟨rfl, trivial⟩
  | timeout now =>
      have hdoing : c.doing (.timeout now) = if ms = [] then [] else [(now, .idled)] := by
        rw [← sending_of_turn ht]
        rfl
      rw [hdoing]
      simp only [turn] at ht
      split at ht
      · -- idle already
        cases ht
        exact .inl ⟨rfl, hlast⟩
      · next spec hp =>
          split_ifs at ht with hlong
          · cases ht
            unfold Last at hlast
            rw [hp] at hlast
            obtain ⟨hpresent, hspec⟩ := hlast
            refine .inr ⟨(now, .idled), rfl, ⟨hpresent, ?_⟩, rfl⟩
            simp only
            omega
          · cases ht
            exact .inl ⟨rfl, hlast⟩
      · cases ht
  | line text now =>
      simp only [turn] at ht
      split at ht
      · next idle spec hp =>
          have hprev : a.2.Present ∨ a.2 = .idled := by
            unfold Last at hlast
            rw [hp] at hlast
            cases idle with
            | false => exact .inl hlast.1
            | true => exact .inr hlast
          split_ifs at ht with htext
          · cases ht
            exact .inr ⟨(now, .typed text), rfl, hprev, trivial⟩
          · simp only [bind, Option.bind_eq_some_iff, Option.some.injEq, Prod.mk.injEq] at ht
            obtain ⟨m, -, rfl, -⟩ := ht
            exact .inr ⟨(now, .typed text), rfl, hprev, htext, rfl⟩
      · cases ht

end Turn

end Client

/-! ## Whole runs -/

section Runs

variable {c c' : Client} {es : List ClientEvent}

theorem turn_of_step {e : ClientEvent} (hs : chatClient.step c e = some c') :
    ∃ ms, c.turn e = some (c', ms) := by
  obtain ⟨⟨c₁, ms⟩, ht, rfl⟩ := Option.map_eq_some_iff.mp hs
  exact ⟨ms, ht⟩

/-- Going on from a state, a run keeps to the protocol. -/
theorem chain_of_last {a : Int × Activity} (hlast : c.Last a) (hs : chatClient.run c es = some c') :
    (a :: chatClient.outputs Client.doing c es).IsChain Follows ∧
      chatClient.outputs Client.sending c es =
        (chatClient.outputs Client.doing c es).flatMap fun b => b.2.messages := by
  induction es generalizing c a with
  | nil => exact ⟨.singleton _, rfl⟩
  | cons e es ih =>
      obtain ⟨c₁, hs₁, hrest⟩ := Option.bind_eq_some_iff.mp hs
      obtain ⟨ms, ht⟩ := turn_of_step hs₁
      rw [Machine.outputs_cons hs₁, Machine.outputs_cons hs₁, Client.sending_of_turn ht,
        Client.turn_messages ht, List.flatMap_append]
      rcases Client.turn_follows hlast ht with ⟨hnone, hlast₁⟩ | ⟨b, hone, hfollows, hlast₁⟩
      · obtain ⟨hchain, hsent⟩ := ih hlast₁ hrest
        rw [hnone, hsent]
        exact ⟨hchain, rfl⟩
      · obtain ⟨hchain, hsent⟩ := ih hlast₁ hrest
        rw [hone, hsent]
        exact ⟨.cons_cons hfollows hchain, rfl⟩

end Runs

/-- Ten seconds without a line, then a line, and time goes by again. -/
def quietUser : List ClientEvent :=
  [.start (ascii "ann"),
    .answer ((Messages.ack 1 []).toOption.getD Message.fresh) 100,
    .timeout 109, .timeout 110, .timeout 111, .line (ascii "hi") 115, .timeout 124, .timeout 125]

end ComputerNetworking.Chat
