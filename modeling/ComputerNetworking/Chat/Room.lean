/-
# ComputerNetworking.Chat.Room -- the chat server and its clients

The server of `System.lean` with a chat client at the other end of every handler's connection. A
connection carries bytes in order, and cuts them anywhere: the two reads of a handler get some of the bytes
at the front of what has been written (`exists_received`), and a short read ends it. The client's `readn` puts
together what its handler has written. Connections can break, and programs can be killed.

With these clients the conditions that the server's laws need are met in every run: no IDLE carries
anything, and no client names anybody but at JOIN. `room_honest` says so, and with that frames are kept
and names are true in the whole room.
-/
import ComputerNetworking.Chat.Authenticity
import ComputerNetworking.Chat.Client
import ComputerNetworking.Chat.Delivery
import ComputerNetworking.Chat.Segments
import ComputerNetworking.Sbcp.Accessors

namespace ComputerNetworking.Chat

open ComputerNetworking.Lib ComputerNetworking.Sbcp Function

/-! ## State and steps -/

structure Room where
  chat : ChatState
  /-- The client whose connection a handler serves. -/
  client : Nat → Client
  /-- Bytes on a connection that the handler has not read. -/
  toHandler : Nat → Bytes
  /-- Bytes on a connection that the client has not read. -/
  toClient : Nat → Bytes

/-- One turn of one process. -/
inductive RoomEvent where
  /-- A client is started under a name and connects. -/
  | launch (h : Nat) (username : Bytes)
  /-- A client finds its server's descriptor ready. -/
  | read (h : Nat) (now : Int)
  | timeout (h : Nat) (now : Int)
  /-- A client's user has typed a line. -/
  | line (h : Nat) (text : Bytes) (now : Int)
  /-- A client's program ends, because it is killed or cannot write or read any more. -/
  | quit (h : Nat)
  /-- A handler reads from its client; no more than `count` bytes have come in. -/
  | handler (h count : Nat)
  /-- A handler cannot read or write any more. -/
  | broken (h : Nat)
  | join
  | serve (username : Bytes)
  | deliver (h : Nat)

namespace ChatState

/-- The message a handler writes to its client. -/
def delivering (s : ChatState) (h : Nat) : Event → List Message
  | .deliver k =>
      if k = h then
        match handleMain (s.down h) with
        | .deliver m _ => [m]
        | _ => []
      else []
  | _ => []

end ChatState

namespace Room

def start (maxClients : Nat) : Room where
  chat := .start maxClients
  client := fun _ => .absent
  toHandler := fun _ => []
  toClient := fun _ => []

/-- What a client makes of its connection: the event, and what is left unread. `none` where it has to
wait. -/
def incoming (r : Room) (h : Nat) (now : Int) : Option (ClientEvent × Bytes) :=
  let ended := if r.chat.phase h = .finished then some (ClientEvent.closed, []) else none
  match (r.client h).phase with
  | .joining =>
      match readAnswer (r.toClient h) with
      | some (m, rest) => some (.answer m now, rest)
      | none => ended
  | .chatting _ _ =>
      match readMessage (r.toClient h) with
      | .accepted m rest => some (.message m, rest)
      | .rejected rest => some (.rejected, rest)
      | .eof => ended
      | .aborted => ended
  | _ => none

/-- A client's turn: what it writes goes to its handler. -/
def clientTurn (r : Room) (h : Nat) (e : ClientEvent) : Option Room :=
  ((r.client h).turn e).map fun p =>
    { r with
      client := update r.client h p.1
      toHandler := update r.toHandler h (r.toHandler h ++ p.2.flatMap Message.wire) }

/-- A server process's turn: what a handler delivers goes to its client. -/
def serverTurn (r : Room) (e : Event) : Option Room :=
  (chatStep r.chat e).map fun chat =>
    { r with
      chat := chat
      toClient := fun h => r.toClient h ++ (r.chat.delivering h e).flatMap Message.wire }

/-- A handler reads `input`, and `behind` is left on the connection behind it. -/
def handlerTurn (r : Room) (h : Nat) (input behind : Bytes) : Option Room :=
  (r.serverTurn (.client h input)).map fun r' =>
    { r' with toHandler := update r.toHandler h ((readMessage input).rest ++ behind) }

/-- A read that fails ends the handler as a short one does. -/
def noHeader : Bytes := [0]

/-- `none` where the process is blocked or gone. -/
def step (r : Room) : RoomEvent → Option Room
  | .launch h username => r.clientTurn h (.start username)
  | .timeout h now => r.clientTurn h (.timeout now)
  | .line h text now => r.clientTurn h (.line text now)
  | .read h now =>
      (r.incoming h now).bind fun p =>
        ({ r with toClient := update r.toClient h p.2 } : Room).clientTurn h p.1
  | .quit h => r.clientTurn h .closed
  | .handler h count =>
      let input := (r.toHandler h).take count
      -- nothing to read, and the connection is not closed
      if (r.client h).phase = .absent ∨
          (input = [] ∧ ¬ (r.toHandler h = [] ∧ (r.client h).phase = .exited)) then none
      else r.handlerTurn h input ((r.toHandler h).drop count)
  | .broken h =>
      if (r.client h).phase = .absent then none else r.handlerTurn h noHeader (r.toHandler h)
  | .join => r.serverTurn .join
  | .serve u => r.serverTurn (.serve u)
  | .deliver h => r.serverTurn (.deliver h)

/-- What the server does in a step. -/
def chatEvent? (r : Room) : RoomEvent → Option Event
  | .handler h count => some (.client h ((r.toHandler h).take count))
  | .broken h => some (.client h noHeader)
  | .join => some .join
  | .serve u => some (.serve u)
  | .deliver h => some (.deliver h)
  | _ => none

/-- What a client does in a step. -/
def clientEvent? (r : Room) (h : Nat) : RoomEvent → Option ClientEvent
  | .launch k username => if k = h then some (.start username) else none
  | .timeout k now => if k = h then some (.timeout now) else none
  | .line k text now => if k = h then some (.line text now) else none
  | .read k now => if k = h then (r.incoming h now).map Prod.fst else none
  | .quit k => if k = h then some .closed else none
  | _ => none

end Room

/-- The chat room, the server started with a limit on its clients. -/
def room (maxClients : Nat) : Machine Room RoomEvent where
  init r := r = Room.start maxClients
  step := Room.step

/-! ## What a step can do -/

/-- An event that takes nothing off the connection. -/
def ClientEvent.Local : ClientEvent → Prop
  | .start _ => True
  | .closed => True
  | .timeout _ => True
  | .line _ _ => True
  | _ => False

/-- What a handler reads is at the front of its connection, or it is too short. -/
def Room.Reads (r : Room) (h : Nat) (input behind : Bytes) : Prop :=
  readMessage input = .aborted ∨ (input ++ behind = r.toHandler h ∧ (input = [] → r.toHandler h = []))

/-- What a step can be: a client's turn, a handler's read from its client, or another turn of the server. -/
inductive Room.Turn (r : Room) (e : RoomEvent) : Room → Prop
  | client {h : Nat} {ce : ClientEvent} {c : Client} {ms : List Message} {rest : Bytes}
      (hchat : r.chatEvent? e = none) (hce : r.clientEvent? h e = some ce)
      (hothers : ∀ k, k ≠ h → r.clientEvent? k e = none)
      (hturn : (r.client h).turn ce = some (c, ms))
      (hrest : (∃ now, r.incoming h now = some (ce, rest)) ∨ (ce.Local ∧ rest = r.toClient h)) :
      Turn r e { r with
        client := update r.client h c
        toHandler := update r.toHandler h (r.toHandler h ++ ms.flatMap Message.wire)
        toClient := update r.toClient h rest }
  | handler {h : Nat} {input behind : Bytes} {chat : ChatState}
      (hchat : r.chatEvent? e = some (.client h input))
      (hnone : ∀ k, r.clientEvent? k e = none) (hthere : (r.client h).phase ≠ .absent)
      (hread : r.Reads h input behind) (hs : chatStep r.chat (.client h input) = some chat) :
      Turn r e { r with
        chat := chat
        toHandler := update r.toHandler h ((readMessage input).rest ++ behind) }
  | server {ce : Event} {chat : ChatState}
      (hchat : r.chatEvent? e = some ce) (hnone : ∀ k, r.clientEvent? k e = none)
      (hno : ∀ h input, ce ≠ .client h input) (hs : chatStep r.chat ce = some chat) :
      Turn r e { r with
        chat := chat
        toClient := fun h => r.toClient h ++ (r.chat.delivering h ce).flatMap Message.wire }

section Cases

variable {r r' : Room} {e : RoomEvent}

/-- A client's turn that does not come from its connection. -/
theorem Room.Turn.local {h : Nat} {ce : ClientEvent} (hs : r.clientTurn h ce = some r')
    (hlocal : ce.Local) (hchat : r.chatEvent? e = none) (hce : r.clientEvent? h e = some ce)
    (hothers : ∀ k, k ≠ h → r.clientEvent? k e = none) : r.Turn e r' := by
  obtain ⟨⟨c, ms⟩, hc, rfl⟩ := Option.map_eq_some_iff.mp hs
  have := Room.Turn.client hchat hce hothers hc (.inr ⟨hlocal, rfl⟩)
  rwa [update_eq_self] at this

theorem Room.Turn.of_server {ce : Event} (hs : r.serverTurn ce = some r')
    (hchat : r.chatEvent? e = some ce) (hnone : ∀ k, r.clientEvent? k e = none)
    (hno : ∀ h input, ce ≠ .client h input) : r.Turn e r' := by
  obtain ⟨chat, hc, rfl⟩ := Option.map_eq_some_iff.mp hs
  exact .server hchat hnone hno hc

theorem Room.Turn.of_handler {h : Nat} {input behind : Bytes} (hs : r.handlerTurn h input behind = some r')
    (hchat : r.chatEvent? e = some (.client h input)) (hnone : ∀ k, r.clientEvent? k e = none)
    (hthere : (r.client h).phase ≠ .absent) (hread : r.Reads h input behind) : r.Turn e r' := by
  obtain ⟨r₁, hr₁, rfl⟩ := Option.map_eq_some_iff.mp hs
  obtain ⟨chat, hc, rfl⟩ := Option.map_eq_some_iff.mp hr₁
  have hturn := Room.Turn.handler hchat hnone hthere hread hc
  -- only a delivery reaches a client
  have hsilent : ∀ k, r.chat.delivering k (.client h input) = [] := fun _ => rfl
  simpa only [hsilent, List.flatMap_nil, List.append_nil] using hturn

theorem room_step (hs : r.step e = some r') : r.Turn e r' := by
  cases e with
  | launch h username => exact .local hs trivial rfl (if_pos rfl) fun k hk => if_neg (Ne.symm hk)
  | timeout h now => exact .local hs trivial rfl (if_pos rfl) fun k hk => if_neg (Ne.symm hk)
  | line h text now => exact .local hs trivial rfl (if_pos rfl) fun k hk => if_neg (Ne.symm hk)
  | read h now =>
      obtain ⟨⟨ce, rest⟩, hin, ht⟩ := Option.bind_eq_some_iff.mp hs
      obtain ⟨⟨c, ms⟩, hc, rfl⟩ := Option.map_eq_some_iff.mp ht
      refine .client rfl ?_ (fun k hk => if_neg (Ne.symm hk)) hc (.inl ⟨now, hin⟩)
      simp only [Room.clientEvent?, if_true, hin, Option.map_some]
  | quit h => exact .local hs trivial rfl (if_pos rfl) fun k hk => if_neg (Ne.symm hk)
  | handler h count =>
      simp only [Room.step] at hs
      split_ifs at hs with hblocked
      rw [not_or, not_and, not_not] at hblocked
      refine .of_handler hs rfl (fun _ => rfl) hblocked.1 (.inr ⟨List.take_append_drop .., ?_⟩)
      exact fun hempty => (hblocked.2 hempty).1
  | broken h =>
      simp only [Room.step] at hs
      split_ifs at hs with habsent
      exact .of_handler hs rfl (fun _ => rfl) habsent (.inl rfl)
  | join => exact .of_server hs rfl (fun _ => rfl) (by simp)
  | serve u => exact .of_server hs rfl (fun _ => rfl) (by simp)
  | deliver h => exact .of_server hs rfl (fun _ => rfl) (by simp)

/-- The server's part of a step is a step of the server or none at all. -/
theorem chat_of_step (hs : r.step e = some r') :
    (r.chatEvent? e = none ∧ r'.chat = r.chat) ∨
      ∃ ce, r.chatEvent? e = some ce ∧ chatStep r.chat ce = some r'.chat := by
  cases room_step hs with
  | client hchat => exact .inl ⟨hchat, rfl⟩
  | handler hchat hnone hthere hread hc => exact .inr ⟨_, hchat, hc⟩
  | server hchat hnone hno hc => exact .inr ⟨_, hchat, hc⟩

end Cases

/-- **Of a message at the front of a connection** its handler reads the whole, or not enough. -/
theorem Room.Reads.front {r : Room} {h : Nat} {input behind q : Bytes} {m : Message}
    (hread : r.Reads h input behind) (hm : messageFraming.Valid m) (hq : r.toHandler h = m.wire ++ q) :
    readMessage input = .aborted ∨ ∃ rest, readMessage input = .accepted m rest ∧ rest ++ behind = q := by
  rcases hread with habort | ⟨hinput, hempty⟩
  · exact .inl habort
  · have hne : input ≠ [] := by
      intro hnil
      have hnone := congrArg List.length (hq.symm.trans (hempty hnil))
      rw [wire_eq, List.length_append, List.length_append, Header.image_length] at hnone
      exact absurd hnone (by simp [Header.sizeofHeader])
    exact readMessage_front hm (hinput.trans hq) hne

/-! ## What clients write -/

/-- The JOIN of a client. -/
def Joining (u : Bytes) (m : Message) : Prop := IsName u ∧ ∃ hu, Packed m .join [usernameAttr u hu]

/-- What a client's main loop writes: a text, or an IDLE with nothing in it. -/
def Typed (m : Message) : Prop := (∃ v hv, Packed m .send [messageAttr v hv]) ∨ Packed m .idle []

section Written

variable {m : Message} {u : Bytes}

theorem Joining.accepted (h : Joining u m) : ∃ as, HandlerAccepted m .join as := by
  obtain ⟨-, hu, hp⟩ := h
  refine ⟨_, hp, ?_⟩
  simp only [encodeAttrs_cons, encodeAttrs_nil, List.append_nil, Attr.encode_length, usernameAttr,
    Message.payloadLimit, attributeHeaderSize]
  exact Nat.add_le_add_left hu 4

theorem Typed.forwardable (h : Typed m) : Forwardable m := by
  rcases h with ⟨v, hv, hp⟩ | hp
  · exact ⟨_, _, ⟨hp, send_limit hv⟩, .inl rfl⟩
  · exact ⟨_, _, ⟨hp, Nat.zero_le _⟩, .inr rfl⟩

/-- A handler without FIFOs announces the name in a JOIN. -/
theorem handleClient_joining (h : Joining u m) (q : Bytes) :
    handleClient false (m.wire ++ q) = .bootstrap u := by
  obtain ⟨as, hacc⟩ := h.accepted
  obtain ⟨hname, hu, hp⟩ := h
  have hread : readMessage (m.wire ++ q) = .accepted m q :=
    messageFraming.read_encode hacc.framed q
  have hget : m.getUsername = .ok u := getUsername_single hp (by decide) hname.1
  simp only [handleClient, hread, actOnClient, hacc.1.walk hacc.2, hacc.1.getType, hget,
    Bool.false_eq_true, if_false]

/-- A handler with FIFOs forwards what is typed. -/
theorem handleClient_typed (h : Typed m) (q : Bytes) :
    handleClient true (m.wire ++ q) = .forward m := by
  obtain ⟨t, as, hacc, ht⟩ := h.forwardable
  have hread : readMessage (m.wire ++ q) = .accepted m q :=
    messageFraming.read_encode hacc.framed q
  rcases ht with rfl | rfl <;>
    simp only [handleClient, hread, actOnClient, hacc.1.walk hacc.2, hacc.1.getType, if_true]

/-- What is typed names nobody, and an IDLE has room for the name the server adds. -/
theorem Typed.honest (h : Typed m) (hu : IsName u) :
    namesSender m u = true ∧ (m.getType = some .idle →
      m.getLength + (attributeHeaderSize + u.length) ≤ Message.payloadLimit .idle) := by
  rcases h with ⟨v, hv, hp⟩ | hp
  · refine ⟨?_, fun hidle => ?_⟩
    · unfold namesSender
      rw [hp.walk (send_limit hv)]
      rfl
    · rw [hp.getType] at hidle
      cases hidle
  · refine ⟨?_, fun _ => ?_⟩
    · unfold namesSender
      rw [hp.walk (Nat.zero_le _)]
      rfl
    · rw [hp.getLength]
      show 0 + (4 + u.length) ≤ 4 + 16
      have hlen : u.length ≤ 16 := hu.2
      omega

end Written

/-- A connection behind the JOIN, and the FIFO behind it, carry what is typed. -/
def typedFraming : Framing Message UInt8 :=
  messageFraming.restrict Typed fun _ h => h.forwardable.framed

/-- The name under which a client joins. -/
def Client.name (c : Client) : Bytes := c.username.take sbcpMaxUsernameLength

/-! ## What a client's turn writes -/

section ClientTurn

variable {c c' : Client} {ms : List Message} {e : ClientEvent}

/-- The first turn writes a JOIN with the client's name, the later ones what is typed. -/
theorem turn_writes (ht : c.turn e = some (c', ms)) :
    (c.phase = .absent ∧ c'.phase = .joining ∧ ∃ m, ms = [m] ∧ Joining c'.name m) ∨
      (c.phase ≠ .absent ∧ c'.phase ≠ .absent ∧ c'.username = c.username ∧ ∀ m ∈ ms, Typed m) := by
  cases e with
  | start username =>
      simp only [Client.turn] at ht
      split_ifs at ht with hp
      simp only [bind, Option.bind_eq_some_iff, Option.some.injEq, Prod.mk.injEq] at ht
      obtain ⟨m, hm, rfl, rfl⟩ := ht
      obtain ⟨hu, hpacked⟩ := join_ok (toOption_eq_some.mp hm)
      refine .inl ⟨hp, rfl, m, rfl, ⟨?_, hu⟩, hu, hpacked⟩
      intro h0
      simpa using List.mem_takeWhile_imp (List.mem_of_mem_take h0)
  | answer m now =>
      simp only [Client.turn] at ht
      split_ifs at ht with hp
      cases ht
      refine .inr ⟨by rw [hp]; decide, ?_, ?_, by simp⟩
      · rcases c.onAnswer_phase m now with h | h <;> rw [h] <;> simp
      · unfold Client.onAnswer
        split_ifs <;> rfl
  | message m =>
      simp only [Client.turn] at ht
      split at ht <;> cases ht
      next idle spec hp =>
        refine .inr ⟨by rw [hp]; simp, ?_, ?_, by simp⟩
        · rcases c.onMessage_phase m with h | h
          · rw [h]; decide
          · rw [h, hp]; simp
        · unfold Client.onMessage
          split <;> rfl
  | rejected =>
      simp only [Client.turn] at ht
      split at ht <;> cases ht
      next idle spec hp => exact .inr ⟨by rw [hp]; simp, by rw [hp]; simp, rfl, by simp⟩
  | closed =>
      simp only [Client.turn] at ht
      split at ht <;> cases ht
      · next hp => exact .inr ⟨by rw [hp]; simp, by simp, rfl, by simp⟩
      · next hp => exact .inr ⟨by rw [hp]; simp, by simp, rfl, by simp⟩
  | timeout now =>
      simp only [Client.turn] at ht
      split at ht
      · next hp =>
          cases ht
          exact .inr ⟨by rw [hp]; simp, by rw [hp]; simp, rfl, by simp⟩
      · next hp =>
          split_ifs at ht
          · cases ht
            refine .inr ⟨by rw [hp]; simp, by simp, rfl, ?_⟩
            intro m hm
            rw [List.mem_singleton.mp hm]
            exact .inr (packed_ofType .idle)
          · cases ht
            exact .inr ⟨by rw [hp]; simp, by rw [hp]; simp, rfl, by simp⟩
      · cases ht
  | line text now =>
      simp only [Client.turn] at ht
      split at ht
      · next hp =>
          split_ifs at ht with htext
          · cases ht
            exact .inr ⟨by rw [hp]; simp, by simp, rfl, by simp⟩
          · simp only [bind, Option.bind_eq_some_iff, Option.some.injEq, Prod.mk.injEq] at ht
            obtain ⟨m, hm, rfl, rfl⟩ := ht
            obtain ⟨hv, hpacked⟩ := send_ok (toOption_eq_some.mp hm)
            refine .inr ⟨by rw [hp]; simp, by simp, rfl, ?_⟩
            intro m' hm'
            rw [List.mem_singleton.mp hm']
            exact .inl ⟨text, hv, hpacked⟩
      · cases ht

end ClientTurn

/-! ## The invariant -/

/-- Every connection and FIFO carries what clients write, and handlers stand under the names of their
clients. -/
structure Room.Sound (r : Room) : Prop where
  absent : ∀ h, (r.client h).phase = .absent → r.chat.phase h = .connected ∧ r.toHandler h = []
  connected : ∀ h, (r.client h).phase ≠ .absent → r.chat.phase h = .connected →
    ∃ m q, Joining (r.client h).name m ∧ r.toHandler h = m.wire ++ q ∧ typedFraming.Whole q
  later : ∀ h, r.chat.phase h ≠ .connected → r.chat.phase h ≠ .finished →
    typedFraming.Whole (r.toHandler h)
  up : ∀ h, typedFraming.Whole (r.chat.up h)
  pipeName : ∀ p ∈ r.chat.pipe, p.2 = (r.client p.1).name
  fifoName : ∀ (u : Bytes) (h : Nat), r.chat.main.wrFifos[u]? = some h → u = (r.client h).name

namespace Room.Sound

variable {r : Room} {h : Nat}

theorem start (maxClients : Nat) : (Room.start maxClients).Sound where
  absent := fun _ _ => ⟨rfl, rfl⟩
  connected := fun _ hp => absurd rfl hp
  later := fun _ hp _ => absurd rfl hp
  up := fun _ => Framing.whole_nil
  pipeName := by simp [Room.start, ChatState.start]
  fifoName := by simp [Room.start, ChatState.start, MainLoop.start]

/-- A client's turn. -/
theorem client (i : r.Sound) (w : Wired r.chat.main r.chat.pipe r.chat.phase) {ce : ClientEvent}
    {c : Client} {ms : List Message} (rest : Bytes) (ht : (r.client h).turn ce = some (c, ms)) :
    ({ r with
      client := update r.client h c
      toHandler := update r.toHandler h (r.toHandler h ++ ms.flatMap Message.wire)
      toClient := update r.toClient h rest } : Room).Sound := by
  rcases turn_writes ht with ⟨hp, hp', m, rfl, hjoin⟩ | ⟨hp, hp', hname, htyped⟩
  · -- the program starts: nobody else has spoken on this connection yet
    obtain ⟨hconn, hempty⟩ := i.absent h hp
    have hfree : ∀ p ∈ r.chat.pipe, p.1 ≠ h := fun p hmem =>
      w.ne_of_not_waiting (by rw [hconn]; decide) hmem
    refine ⟨?_, ?_, ?_, i.up, ?_, ?_⟩
    · intro k hk
      by_cases hkh : k = h
      · subst hkh
        simp only [update_self, hp'] at hk
        cases hk
      · simp only [update_of_ne hkh] at hk ⊢
        exact i.absent k hk
    · intro k hk hph
      by_cases hkh : k = h
      · subst hkh
        simp only [update_self, hempty, List.nil_append, List.flatMap_singleton]
        exact ⟨m, [], hjoin, (List.append_nil _).symm, Framing.whole_nil⟩
      · simp only [update_of_ne hkh] at hk ⊢
        exact i.connected k hk hph
    · intro k hk hf
      have hkh : k ≠ h := by
        rintro rfl
        exact hk hconn
      simp only [update_of_ne hkh]
      exact i.later k hk hf
    · intro p hmem
      simp only [update_of_ne (hfree p hmem)]
      exact i.pipeName p hmem
    · intro u k hk
      have hkh : k ≠ h := by
        rintro rfl
        exact w.unregistered (by rw [hconn]; decide) (by rw [hconn]; decide) u hk
      simp only [update_of_ne hkh]
      exact i.fifoName u k hk
  · have hsame : ∀ k, (update r.client h c k).name = (r.client k).name := by
      intro k
      by_cases hkh : k = h
      · subst hkh
        rw [update_self, Client.name, hname, Client.name]
      · rw [update_of_ne hkh]
    refine ⟨?_, ?_, ?_, i.up, ?_, ?_⟩
    · intro k hk
      by_cases hkh : k = h
      · subst hkh
        simp only [update_self] at hk
        exact absurd hk hp'
      · simp only [update_of_ne hkh] at hk ⊢
        exact i.absent k hk
    · intro k hk hph
      simp only [hsame]
      by_cases hkh : k = h
      · subst hkh
        obtain ⟨m, q, hm, hq, hwhole⟩ := i.connected k hp hph
        simp only [update_self, hq, List.append_assoc]
        exact ⟨m, _, hm, rfl, (hwhole.writes htyped).1⟩
      · simp only [update_of_ne hkh] at hk ⊢
        exact i.connected k hk hph
    · intro k hk hf
      by_cases hkh : k = h
      · subst hkh
        simp only [update_self]
        exact ((i.later k hk hf).writes htyped).1
      · simp only [update_of_ne hkh]
        exact i.later k hk hf
    · intro p hmem
      simp only [hsame]
      exact i.pipeName p hmem
    · intro u k hk
      simp only [hsame]
      exact i.fifoName u k hk

/-- **What a handler reads from its client**: the JOIN, then what is typed, unless it ends. -/
theorem handler_cases (i : r.Sound) (hthere : (r.client h).phase ≠ .absent) {input behind : Bytes}
    (hread : r.Reads h input behind) {chat : ChatState}
    (hs : chatStep r.chat (.client h input) = some chat) :
    chat = r.chat.finish h ∨
      (r.chat.phase h = .connected ∧ typedFraming.Whole ((readMessage input).rest ++ behind) ∧
        IsName (r.client h).name ∧
        chat = { r.chat with
          phase := update r.chat.phase h .waiting
          pipe := r.chat.pipe ++ [(h, (r.client h).name)] }) ∨
      (r.chat.phase h = .joined ∧ ∃ m q, Typed m ∧ r.toHandler h = m.wire ++ q ∧
        typedFraming.Whole q ∧ (readMessage input).rest ++ behind = q ∧ r.chat.holds h = true ∧
        chat = { r.chat with up := update r.chat.up h (r.chat.up h ++ m.wire) }) := by
  unfold chatStep at hs
  by_cases hphase : r.chat.phase h = .connected ∨ r.chat.phase h = .joined
  case neg =>
    simp only [if_neg hphase] at hs
    cases hs
  simp only [if_pos hphase] at hs
  have hfinish : handleClient (decide (r.chat.phase h = .joined)) input = .finish →
      chat = r.chat.finish h := by
    intro hact
    simp only [hact] at hs
    exact (Option.some.inj hs).symm
  have hshort : readMessage input = .aborted → chat = r.chat.finish h := by
    intro habort
    apply hfinish
    unfold handleClient
    rw [habort]
  rcases hphase with hconn | hjoined
  · obtain ⟨m, q, hm, hwire, hwhole⟩ := i.connected h hthere hconn
    have hvalid : messageFraming.Valid m := by
      obtain ⟨as, hacc⟩ := hm.accepted
      exact hacc.framed
    rcases hread.front hvalid hwire with habort | ⟨rest, hread, hrest⟩
    · exact .inl (hshort habort)
    · obtain ⟨-, -, hinput⟩ := readMessage_accepted hread
      have hact := handleClient_joining hm rest
      simp only [hconn, hinput, reduceCtorEq, decide_false, hact] at hs
      cases hs
      refine .inr (.inl ⟨hconn, ?_, hm.1, rfl⟩)
      rw [hread]
      show typedFraming.Whole (rest ++ behind)
      rw [hrest]
      exact hwhole
  · rcases (i.later h (by rw [hjoined]; decide) (by rw [hjoined]; decide)).read_cases with
      ⟨hnone, -⟩ | ⟨m, q, -, hm, hwire, hwhole, -⟩
    · rcases hread with habort | ⟨hq, -⟩
      · exact .inl (hshort habort)
      · refine .inl (hfinish ?_)
        rw [(List.append_eq_nil_iff.mp (hq.trans hnone)).1]
        rfl
    · have hvalid : messageFraming.Valid m := hm.forwardable.framed
      rcases hread.front hvalid hwire with habort | ⟨rest, hread, hrest⟩
      · exact .inl (hshort habort)
      · obtain ⟨-, -, hinput⟩ := readMessage_accepted hread
        have hact : handleClient true input = .forward m := by
          rw [hinput]
          exact handleClient_typed hm rest
        simp only [hjoined, decide_true, hact] at hs
        by_cases hholds : r.chat.holds h
        · rw [if_pos hholds] at hs
          cases hs
          refine .inr (.inr ⟨hjoined, m, q, hm, hwire, hwhole, ?_, hholds, rfl⟩)
          rw [hread]
          exact hrest
        · rw [if_neg hholds] at hs
          exact .inl (Option.some.inj hs).symm

/-- The server moved on in a way that concerns one handler's phase and the end of its connection only. -/
theorem of_handler (i : r.Sound) (hthere : (r.client h).phase ≠ .absent) {chat : ChatState}
    {p : Phase} {q : Bytes} (hp : p ≠ .connected) (hphase : chat.phase = update r.chat.phase h p)
    (hq : p ≠ .finished → typedFraming.Whole q) (hup : ∀ k, typedFraming.Whole (chat.up k))
    (hpipe : ∀ b ∈ chat.pipe, b.2 = (r.client b.1).name)
    (hmain : chat.main = r.chat.main) :
    ({ r with chat := chat, toHandler := update r.toHandler h q } : Room).Sound := by
  refine ⟨?_, ?_, ?_, hup, hpipe, ?_⟩
  · intro k hk
    have hkh : k ≠ h := by
      rintro rfl
      exact hthere hk
    simp only [hphase, update_of_ne hkh]
    exact i.absent k hk
  · intro k hk hconn
    have hkh : k ≠ h := by
      rintro rfl
      simp only [hphase, update_self] at hconn
      exact hp hconn
    simp only [hphase, update_of_ne hkh] at hconn ⊢
    exact i.connected k hk hconn
  · intro k hk hf
    by_cases hkh : k = h
    · subst hkh
      simp only [hphase, update_self] at hf ⊢
      exact hq hf
    · simp only [hphase, update_of_ne hkh] at hk hf ⊢
      exact i.later k hk hf
  · intro u k hk
    simp only [hmain] at hk
    exact i.fifoName u k hk

/-- A handler's read from its client. -/
theorem handler (i : r.Sound) (hthere : (r.client h).phase ≠ .absent) {input behind : Bytes}
    (hread : r.Reads h input behind) {chat : ChatState}
    (hs : chatStep r.chat (.client h input) = some chat) :
    ({ r with
      chat := chat
      toHandler := update r.toHandler h ((readMessage input).rest ++ behind) } : Room).Sound := by
  rcases i.handler_cases hthere hread hs with
    rfl | ⟨-, hwhole, -, rfl⟩ | ⟨hjoined, m, q, hm, -, hwhole, hrest, -, rfl⟩
  · exact i.of_handler hthere (p := .finished) (by decide) rfl (absurd rfl) i.up i.pipeName rfl
  · refine i.of_handler hthere (p := .waiting) (by decide) rfl (fun _ => hwhole) i.up ?_ rfl
    intro b hb
    rcases List.mem_append.mp hb with hb | hb
    · exact i.pipeName b hb
    · rw [List.mem_singleton.mp hb]
  · rw [hrest]
    refine i.of_handler hthere (p := .joined) (by decide) ?_ (fun _ => hwhole) ?_ i.pipeName rfl
    · rw [← hjoined, update_eq_self]
    · intro k
      by_cases hkh : k = h
      · subst hkh
        simp only [update_self]
        exact ((i.up k).write hm).1
      · simp only [update_of_ne hkh]
        exact i.up k

/-- The server moved on without a handler reading from its client. -/
theorem of_server (i : r.Sound) {chat : ChatState} {toClient : Nat → Bytes}
    (hphase : ∀ k, chat.phase k = .connected ↔ r.chat.phase k = .connected)
    (hgone : ∀ k, r.chat.phase k = .finished → chat.phase k = .finished)
    (hup : ∀ k, typedFraming.Whole (chat.up k))
    (hpipe : ∀ p ∈ chat.pipe, p.2 = (r.client p.1).name)
    (hfifo : ∀ (u : Bytes) (k : Nat), chat.main.wrFifos[u]? = some k → u = (r.client k).name) :
    ({ r with chat := chat, toClient := toClient } : Room).Sound where
  absent k hk := ⟨(hphase k).mpr (i.absent k hk).1, (i.absent k hk).2⟩
  connected k hk hc := i.connected k hk ((hphase k).mp hc)
  later k hc hf := i.later k (fun h => hc ((hphase k).mpr h)) fun h => hf (hgone k h)
  up := hup
  pipeName := hpipe
  fifoName := hfifo

/-- Names after a reaction of the main loop, whichever way it goes. -/
theorem fifoName_afterMain (i : r.Sound) {s : ChatState} {sender : Option (Nat × Bytes)}
    {x : Except Fault (MainLoop × List Write)} (hs : s.main = r.chat.main)
    (hx : ∀ main ws, x = .ok (main, ws) → ∀ (u : Bytes) (k : Nat), main.wrFifos[u]? = some k →
      u = (r.client k).name) (u : Bytes) (k : Nat)
    (hk : (s.afterMain sender x).main.wrFifos[u]? = some k) : u = (r.client k).name := by
  rcases x with e | ⟨main, ws⟩
  · refine i.fifoName u k ?_
    rw [← hs]
    exact hk
  · exact hx main ws rfl u k hk

theorem join (i : r.Sound) (w : Wired r.chat.main r.chat.pipe r.chat.phase) {chat : ChatState}
    {toClient : Nat → Bytes} (hs : chatStep r.chat .join = some chat) :
    ({ r with chat := chat, toClient := toClient } : Room).Sound := by
  have hgone := fun k => finished_step (k := k) w hs
  obtain ⟨h, u, rest, hpipe, rfl⟩ := step_join hs
  have hmem : (h, u) ∈ r.chat.pipe := by
    rw [hpipe]
    exact List.mem_cons_self ..
  refine i.of_server ?_ hgone ?_ ?_ ?_
  · intro k
    rw [afterMain_phase]
    show update r.chat.phase h .joined k = _ ↔ _
    by_cases hkh : k = h
    · subst hkh
      rw [update_self, w.pipe_waiting _ hmem]
      simp
    · rw [update_of_ne hkh]
  · intro k
    rw [afterMain_up]
    exact i.up k
  · intro p hp
    rw [afterMain_pipe] at hp
    exact i.pipeName p (by rw [hpipe]; exact List.mem_cons_of_mem _ hp)
  · refine i.fifoName_afterMain rfl fun main ws hr v k hk => ?_
    rcases join_main (w.pipe_name _ hmem) w.online hr with rfl | rfl
    · exact i.fifoName v k hk
    · rw [MainLoop.insertUser_wrFifos] at hk
      split_ifs at hk with huv
      · cases hk
        rw [← huv]
        exact i.pipeName _ hmem
      · exact i.fifoName v k hk

theorem serve (i : r.Sound) (w : Wired r.chat.main r.chat.pipe r.chat.phase) {u : Bytes}
    {chat : ChatState} {toClient : Nat → Bytes} (hs : chatStep r.chat (.serve u) = some chat) :
    ({ r with chat := chat, toClient := toClient } : Room).Sound := by
  have hgone := fun k => finished_step (k := k) w hs
  obtain ⟨h, hget, rfl⟩ := step_serve hs
  refine i.of_server ?_ hgone ?_ ?_ ?_
  · intro k
    rw [afterMain_phase]
  · intro k
    rw [afterMain_up]
    show typedFraming.Whole (update r.chat.up h _ k)
    by_cases hkh : k = h
    · subst hkh
      rw [update_self]
      rcases (i.up k).read_cases with ⟨hempty, -⟩ | ⟨m, q, hread, -, -, hwhole, -⟩
      · rw [hempty]
        exact Framing.whole_nil
      · have hread' : readMessage (r.chat.up k) = .accepted m q := hread
        rw [hread']
        exact hwhole
    · rw [update_of_ne hkh]
      exact i.up k
  · intro p hp
    rw [afterMain_pipe] at hp
    exact i.pipeName p hp
  · refine i.fifoName_afterMain rfl fun main ws hr v k hk => ?_
    rcases serve_main (w.name u h (by rw [← w.same]; exact hget)) hr with rfl | rfl
    · exact i.fifoName v k hk
    · rw [MainLoop.eraseUser_wrFifos] at hk
      split_ifs at hk
      exact i.fifoName v k hk

theorem deliver (i : r.Sound) (w : Wired r.chat.main r.chat.pipe r.chat.phase) {chat : ChatState}
    {toClient : Nat → Bytes} (hs : chatStep r.chat (.deliver h) = some chat) :
    ({ r with chat := chat, toClient := toClient } : Room).Sound := by
  have hgone := fun k => finished_step (k := k) w hs
  obtain ⟨hjoined, ⟨-, rfl⟩ | ⟨rest, -, rfl⟩ | ⟨m, rest, -, rfl⟩⟩ := step_deliver hs
  · refine i.of_server (fun k => ?_) hgone i.up i.pipeName i.fifoName
    show update r.chat.phase h .finished k = _ ↔ _
    by_cases hkh : k = h
    · subst hkh
      rw [update_self, hjoined]
      simp
    · rw [update_of_ne hkh]
  · exact i.of_server (fun _ => Iff.rfl) hgone i.up i.pipeName i.fifoName
  · exact i.of_server (fun _ => Iff.rfl) hgone i.up i.pipeName i.fifoName

end Room.Sound

/-! ## The room runs the server, and honestly -/

theorem sound_step {r r' : Room} (i : r.Sound) (w : Wired r.chat.main r.chat.pipe r.chat.phase)
    {e : RoomEvent} (hs : r.step e = some r') : r'.Sound := by
  cases room_step hs with
  | @client h ce c ms rest hchat hce hothers hturn hrest => exact i.client w rest hturn
  | handler hchat hnone hthere hread hc => exact i.handler hthere hread hc
  | @server ce chat hchat hnone hno hc =>
      cases ce with
      | client h input => exact absurd rfl (hno h input)
      | join => exact i.join w hc
      | serve u => exact i.serve w hc
      | deliver h => exact i.deliver w hc

/-- What a client has typed is relayed honestly. -/
theorem honest_of_sound {r : Room} (i : r.Sound) (w : Wired r.chat.main r.chat.pipe r.chat.phase)
    (e : Event) : HonestRelay r.chat e := by
  have hall : ∀ p ∈ r.chat.relaying e, IsName p.1 ∧ Typed p.2 := by
    intro p hp
    cases e with
    | client h input => cases hp
    | join => cases hp
    | deliver h => cases hp
    | serve u =>
        simp only [ChatState.relaying] at hp
        split at hp
        · next h hget =>
            have hu : IsName u := w.name u h (by rw [← w.same]; exact hget)
            rcases (i.up h).read_cases with ⟨-, hread⟩ | ⟨m, q, hread, hm, -⟩
            · have hread' : readMessage (r.chat.up h) = .eof := hread
              rw [hread'] at hp
              cases hp
            · have hread' : readMessage (r.chat.up h) = .accepted m q := hread
              rw [hread'] at hp
              simp only at hp
              split_ifs at hp
              · cases hp
              · cases hp
                exact ⟨hu, hm⟩
        · cases hp
  refine ⟨fun p hp => ?_, fun p hp => ?_⟩
  · exact ((hall p hp).2.honest (hall p hp).1).2
  · exact ((hall p hp).2.honest (hall p hp).1).1

/-- **In a room the server's conditions are met**: its part of every reachable state is one the server
reaches by honest relays, and everything on the way is what clients write. -/
theorem room_honest {maxClients : Nat} {r : Room} (h : (room maxClients).Reachable r) :
    (chat maxClients).ReachableUnder HonestRelay r.chat ∧ r.Sound := by
  apply h.invariant
  · rintro r rfl
    exact ⟨.init rfl, Room.Sound.start maxClients⟩
  · rintro r e r' ⟨hchat, i⟩ - hs
    have w := wired_of_reachable hchat
    refine ⟨?_, sound_step i w hs⟩
    rcases chat_of_step hs with ⟨-, hsame⟩ | ⟨ce, -, hstep⟩
    · rw [hsame]
      exact hchat
    · exact .step hchat (honest_of_sound i w ce) hstep

/-! ## Names are true -/

/-- A message in a log was written for a client that is there, under the client's own name. -/
def Room.Named (r : Room) : Prop :=
  ∀ (h : Nat), ∀ p ∈ r.chat.written h, ∀ (k : Nat) (u : Bytes), p.sender = some (k, u) →
    (r.client k).phase ≠ .absent ∧ u = (r.client k).name

/-- A reaction of the main loop logs what it writes under the sender it reacts to. -/
theorem sender_afterMain {s : ChatState} {sender : Option (Nat × Bytes)}
    {x : Except Fault (MainLoop × List Write)} {h : Nat} {p : Relay}
    (hp : p ∈ (s.afterMain sender x).written h) : p ∈ s.written h ∨ p.sender = sender := by
  rcases x with e | ⟨main, ws⟩
  · exact .inl hp
  · rcases List.mem_append.mp hp with hp | hp
    · exact .inl hp
    · obtain ⟨m, -, rfl⟩ := List.mem_map.mp hp
      exact .inr rfl

theorem named_step {r r' : Room} (i : r.Sound) (w : Wired r.chat.main r.chat.pipe r.chat.phase)
    (n : r.Named) {e : RoomEvent} (hs : r.step e = some r') : r'.Named := by
  cases room_step hs with
  | @client h ce c ms rest hchat hce hothers hturn hrest =>
      intro j p hp k u hsender
      obtain ⟨hthere, hname⟩ := n j p hp k u hsender
      by_cases hk : k = h
      · subst hk
        simp only [update_self]
        rcases turn_writes hturn with ⟨habs, -⟩ | ⟨-, hthere', hsame, -⟩
        · exact absurd habs hthere
        · exact ⟨hthere', by rw [hname, Client.name, Client.name, hsame]⟩
      · simp only [update_of_ne hk]
        exact ⟨hthere, hname⟩
  | handler hchat hnone hthere hread hc =>
      rcases step_client hc with rfl | ⟨rfl, -⟩ | ⟨u, -, -, rfl⟩ | ⟨m, -, rfl⟩ <;> exact n
  | @server ce chat hchat hnone hno hc =>
      cases ce with
      | client h input => exact absurd rfl (hno h input)
      | join =>
          obtain ⟨h, v, rest, -, rfl⟩ := step_join hc
          intro j p hp k u hsender
          rcases sender_afterMain hp with hp | hp
          · exact n j p hp k u hsender
          · rw [hp] at hsender
            cases hsender
      | serve v =>
          obtain ⟨h, hget, rfl⟩ := step_serve hc
          intro j p hp k u hsender
          rcases sender_afterMain hp with hp | hp
          · exact n j p hp k u hsender
          · rw [hp] at hsender
            cases hsender
            have hreg : r.chat.main.wrFifos[v]? = some h := by rw [← w.same]; exact hget
            refine ⟨fun habs => ?_, i.fifoName v h hreg⟩
            have hconn := (i.absent h habs).1
            exact w.unregistered (by rw [hconn]; decide) (by rw [hconn]; decide) v hreg
      | deliver h =>
          rcases step_deliver hc with ⟨-, ⟨-, rfl⟩ | ⟨rest, -, rfl⟩ | ⟨m, rest, -, rfl⟩⟩ <;> exact n

theorem named_of_reachable {maxClients : Nat} {r : Room} (h : (room maxClients).Reachable r) :
    r.Named := by
  apply h.invariant_of_reachable
  · rintro r rfl
    simp [Room.Named, Room.start, ChatState.start]
  · intro r e r' hr n _ hs
    exact named_step (room_honest hr).2 (wired_of_reachable (room_honest hr).1) n hs

/-- **In a room, names are true.** Whatever the connections cut and whoever is killed, every FWD or IDLE that
has been delivered was written for a message of another client, and names that client as it was started. -/
theorem names_are_true (maxClients : Nat) (r : Room) (hr : (room maxClients).Reachable r) (h : Nat) :
    ∀ (i : Nat) (m : Message), (r.chat.delivered h)[i]? = some m →
      (m.getType = some .fwd ∨ m.getType = some .idle) →
      ∃ k, k ≠ h ∧ (r.client k).phase ≠ .absent ∧
        (r.chat.written h)[i]? = some ⟨m, some (k, (r.client k).name)⟩ ∧
        m.getUsername = .ok (r.client k).name := by
  intro i m hi htype
  obtain ⟨k, u, hwritten, hne, hname⟩ := sender_authentic maxClients r.chat (room_honest hr).1 h i m hi htype
  obtain ⟨hthere, rfl⟩ :=
    named_of_reachable hr h _ (List.mem_of_getElem? hwritten) k u rfl
  exact ⟨k, hne, hthere, hwritten, hname⟩

/-- Users 0 and 1 join. -/
def bothJoin : List RoomEvent :=
  [.launch 0 (ascii "a"), .handler 0 99, .join, .deliver 0, .read 0 0,
    .launch 1 (ascii "b"), .handler 1 99, .join, .deliver 1, .read 1 0, .deliver 0, .read 0 1]

/-- User 0 types a line, and it reaches user 1. -/
def lineToB : List RoomEvent :=
  [.line 0 (ascii "hi") 5, .handler 0 99, .serve (ascii "a"), .deliver 1, .read 1 6]

/-- A JOIN of which only two bytes have come in ends the handler. -/
example : ((room 2).run (Room.start 2) [.launch 0 (ascii "a"), .handler 0 2]).map
    (fun r => r.chat.phase 0) = some .finished := by
  decide +kernel

/-- A line is delivered under the name of the client that read it from its user. -/
theorem names_are_true_line :
    ∃ r, (room 2).run (Room.start 2) (bothJoin ++ lineToB) = some r ∧
      (r.chat.delivered 1).length = 2 ∧
      ∀ (i : Nat) (m : Message), (r.chat.delivered 1)[i]? = some m →
        (m.getType = some .fwd ∨ m.getType = some .idle) →
        ∃ k, k ≠ 1 ∧ (r.client k).phase ≠ .absent ∧
          (r.chat.written 1)[i]? = some ⟨m, some (k, (r.client k).name)⟩ ∧
          m.getUsername = .ok (r.client k).name := by
  have hrun : (((room 2).run (Room.start 2) (bothJoin ++ lineToB)).map fun r =>
      (r.chat.delivered 1).length) = some 2 := by
    decide +kernel
  obtain ⟨r, hs, hlen⟩ := Option.map_eq_some_iff.mp hrun
  exact ⟨r, hs, hlen, names_are_true 2 r (.run (.init rfl) Machine.Along.of_true hs) 1⟩

end ComputerNetworking.Chat
