/-
# ComputerNetworking.Chat.Handler -- the process that serves one chat client

The chat server runs one `client_handler` per connection. It reads messages from its client and from
the main loop and prints each of them, which iterates over the attributes: a message whose
iteration throws ends the handler, and so does a header that `read_message` turned down, because
the -1 is not checked on the client's side and printing validates again. What survives is acted on
by type: JOIN bootstraps, SEND and IDLE go to the main loop unchanged.

The two branches of the loop are given as functions from the bytes available to what the handler
does next. `HandlerAccepted` describes the messages that pass both checks.
-/
import ComputerNetworking.Chat.ReadMessage
import ComputerNetworking.Sbcp.Names

namespace ComputerNetworking.Chat

open ComputerNetworking.Lib ComputerNetworking.Sbcp

/-! ## The two branches -/

/-- What the handler does with a message from its client. -/
inductive ClientAction where
  /-- The handler ends: the client is gone, an exception escapes, or `mkfifo` fails. -/
  | finish
  /-- Announce this username to the main loop and wait for it. -/
  | bootstrap (username : Bytes)
  /-- `write(handler_fd, message.data(), message.size())`. -/
  | forward (message : Message)
  /-- Print a complaint and go on. -/
  | nothing

/-- The message is printed, then acted on by type. A second JOIN finds its FIFOs already made, and
`mkfifo` fails. -/
def actOnClient (fifosCreated : Bool) (message : Message) : ClientAction :=
  -- `std::cerr << message`
  match message.walk.fault with
  | some _ => .finish
  | none =>
      match message.getType with
      | some .join =>
          if fifosCreated then .finish
          else
            match message.getUsername with
            | .ok username => .bootstrap username
            | .error _ => .finish
      | some .send => if fifosCreated then .forward message else .nothing
      | some .idle => if fifosCreated then .forward message else .nothing
      | _ => .nothing

/-- The branch for the client's descriptor. -/
def handleClient (fifosCreated : Bool) (input : Bytes) : ClientAction :=
  match readMessage input with
  | .eof => .finish
  | .aborted => .finish
  | .rejected _ => actOnClient fifosCreated (headerOnly input)
  | .accepted message _ => actOnClient fifosCreated message

/-- What the handler does with a message from the main loop. -/
inductive MainAction where
  | finish
  /-- `read_message` returned -1: the bytes it took are gone, the rest stays. -/
  | skip (rest : Bytes)
  /-- `client->write(message.data(), message.size())`. -/
  | deliver (message : Message) (rest : Bytes)

/-- The branch for the main loop's FIFO. -/
def handleMain (input : Bytes) : MainAction :=
  match readMessage input with
  | .eof => .finish
  | .aborted => .finish
  | .rejected rest => .skip rest
  | .accepted message rest =>
      match message.walk.fault with
      | some _ => .finish
      | none => .deliver message rest

/-! ## What gets through -/

/-- A message of type `t` with the attributes `as` that passes `read_message` and the iteration. -/
def HandlerAccepted (m : Message) (t : MessageType) (as : List Attr) : Prop :=
  Packed m t as ∧ (encodeAttrs as).length ≤ Message.payloadLimit t

theorem HandlerAccepted.framed {m : Message} {t : MessageType} {as : List Attr}
    (h : HandlerAccepted m t as) : messageFraming.Valid m :=
  framed_of_packed h.1 h.2

/-- Accepted by `read_message` and iterated to the end. -/
theorem handlerAccepted_of_read {q rest : Bytes} {m : Message}
    (hread : readMessage q = .accepted m rest) (hwalk : m.walk.fault = none) :
    ∃ t as, HandlerAccepted m t as := by
  obtain ⟨-, htail, -⟩ := readMessage_accepted hread
  exact (walk_fault_eq_none_iff htail).mp hwalk

/-- A name a bootstrap message can carry: a C string of at most 16 bytes. It may be empty. -/
def IsName (u : Bytes) : Prop := 0 ∉ u ∧ u.length ≤ sbcpMaxUsernameLength

instance (u : Bytes) : Decidable (IsName u) := by
  unfold IsName
  infer_instance

/-- The first name of a JOIN within its limit is such a name. -/
theorem isName_of_join {m : Message} {as : List Attr} (h : HandlerAccepted m .join as) {u : Bytes}
    (hu : m.getUsername = .ok u) : IsName u := by
  have hlimit : (encodeAttrs as).length ≤ 4 + 16 := h.2
  rw [getUsername_packed h.1 h.2 (by unfold sbcpMaxPayloadLength; omega)] at hu
  cases hnames : readNames as with
  | nil => rw [hnames] at hu; cases hu
  | cons v vs =>
      rw [hnames] at hu
      cases hu
      obtain ⟨pre, a, rest, rfl, -, rfl⟩ := readNames_eq_cons hnames
      -- a byte read along belongs to an attribute of at least four bytes within the same limit
      have hlen := a.readAs_length_le rest
      have hrest := length_le_encodeAttrs rest
      rw [encodeAttrs_append, encodeAttrs_cons, List.length_append, List.length_append,
        Attr.encode_length, attributeHeaderSize] at hlimit
      refine ⟨a.zero_notMem_readAs rest, ?_⟩
      show (a.readAs rest).length ≤ 16
      omega

theorem actOnClient_fault {fifosCreated : Bool} {m : Message} (h : m.walk.fault ≠ none) :
    actOnClient fifosCreated m = .finish := by
  unfold actOnClient
  cases hwalk : m.walk.fault with
  | none => exact absurd hwalk h
  | some e => rfl

theorem actOnClient_cases (fifosCreated : Bool) {m : Message} {t : MessageType} {as : List Attr}
    (h : HandlerAccepted m t as) :
    actOnClient fifosCreated m = .finish ∨ actOnClient fifosCreated m = .nothing ∨
      (fifosCreated = false ∧ ∃ u, actOnClient fifosCreated m = .bootstrap u ∧ IsName u) ∨
      (fifosCreated = true ∧ actOnClient fifosCreated m = .forward m) := by
  unfold actOnClient
  simp only [h.1.walk h.2, h.1.getType]
  cases t with
  | join =>
      cases fifosCreated with
      | true => exact .inl rfl
      | false =>
          cases hu : m.getUsername with
          | error e => exact .inl rfl
          | ok u => exact .inr (.inr (.inl ⟨rfl, u, rfl, isName_of_join h hu⟩))
  | send | idle =>
      cases fifosCreated with
      | true => exact .inr (.inr (.inr ⟨rfl, rfl⟩))
      | false => exact .inr (.inl rfl)
  | fwd | ack | nak | online | offline => exact .inr (.inl rfl)

/-- The cases of the client's branch: only valid messages are forwarded, and only with the FIFOs
made; only names are announced, and only without. -/
theorem handleClient_cases (fifosCreated : Bool) (input : Bytes) :
    handleClient fifosCreated input = .finish ∨ handleClient fifosCreated input = .nothing ∨
      (fifosCreated = false ∧ ∃ u, handleClient fifosCreated input = .bootstrap u ∧ IsName u) ∨
      (fifosCreated = true ∧ ∃ m, handleClient fifosCreated input = .forward m ∧
        messageFraming.Valid m) := by
  unfold handleClient
  cases hread : readMessage input with
  | eof => exact .inl rfl
  | aborted => exact .inl rfl
  | rejected rest => exact .inl (actOnClient_fault (headerOnly_walk hread))
  | accepted m rest =>
      simp only
      by_cases hwalk : m.walk.fault = none
      · obtain ⟨t, as, h⟩ := handlerAccepted_of_read hread hwalk
        rcases actOnClient_cases fifosCreated h with hf | hn | hb | ⟨hc, hm⟩
        · exact .inl hf
        · exact .inr (.inl hn)
        · exact .inr (.inr (.inl hb))
        · exact .inr (.inr (.inr ⟨hc, m, hm, h.framed⟩))
      · exact .inl (actOnClient_fault hwalk)

end ComputerNetworking.Chat
