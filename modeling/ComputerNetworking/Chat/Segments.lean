/-
# ComputerNetworking.Chat.Segments -- messages over TCP

`read_message` asks for the header and for the payload with one `read` each, and asserts that it got
them. On a FIFO, to which a message is written at once, that works; a TCP stream comes in pieces, and a
piece can end anywhere. The chat client reads the same messages with `readn`.

`obtains_iff` says for which pieces the server's handler gets the messages, `client_obtains` that the
client always does.
-/
import ComputerNetworking.Lib.Segments
import ComputerNetworking.Chat.ReadMessage
import ComputerNetworking.Sbcp.Messages

namespace ComputerNetworking.Chat

open ComputerNetworking.Lib ComputerNetworking.Sbcp

/-! ## The two readers -/

/-- `read_message(client, message)` on a stream that arrives in pieces. -/
def readMessageFrom (stream : List Bytes) : Read Message Bytes :=
  match recv stream Header.sizeofHeader with
  | ([], _) => .eof
  | ([b₀, b₁, b₂, b₃], rest) =>
      let message := readHeader b₀ b₁ b₂ b₃
      match h : message.validate with
      | .error (.messageException _) => .rejected rest
      | .error _ => .aborted
      | .ok () =>
          -- `assert(r2 == message->get_length())`
          if (recv rest message.getLength).1.length = message.getLength then
            .accepted
              (readPayload message (recv rest message.getLength).1
                (Nat.le_trans (length_recv_le _ _) (getLength_le_of_validate h)))
              (recv rest message.getLength).2
          else .aborted
  -- `assert(r == sizeof(message_t::header_t))`
  | _ => .aborted

/-- What the chat client does when the server has sent something. It exits where the stream ends. -/
def readFromServer (stream : List Bytes) : Read Message Bytes :=
  match readn stream Header.sizeofHeader with
  | some ([b₀, b₁, b₂, b₃], rest) =>
      let message := readHeader b₀ b₁ b₂ b₃
      match h : message.validate with
      | .error (.messageException _) => .rejected rest
      | .error _ => .aborted
      | .ok () =>
          match hr : readn rest message.getLength with
          | some (bytes, rest) =>
              .accepted
                (readPayload message bytes
                  (Nat.le_trans (Nat.le_of_eq (length_readn hr)) (getLength_le_of_validate h)))
                rest
          | none => .aborted
  | _ => .aborted

/-- The calls of a reader give these messages one after the other, and nothing is left. -/
def Obtains (read : List Bytes → Read Message Bytes) : List Bytes → List Message → Prop
  | stream, [] => stream = []
  | stream, m :: ms =>
      ∃ m' rest, read stream = .accepted m' rest ∧ m'.wire = m.wire ∧ Obtains read rest ms

/-- What is read at once: the header, and the payload. -/
def units (m : Message) : List Bytes := [m.header.image, m.payload.take m.getLength]

/-- What `readMessage` accepts of the bytes that are there is accepted of a stream that has arrived in
one piece. -/
theorem readMessageFrom_onePiece {q rest : Bytes} {m : Message}
    (h : readMessage q = .accepted m rest) :
    readMessageFrom (onePiece q) = .accepted m (onePiece rest) := by
  obtain ⟨b₀, b₁, b₂, b₃, bytes, hfit, rfl, hvalid, hlen, rfl⟩ := exists_of_accepted h
  have hheader : recv (onePiece (b₀ :: b₁ :: b₂ :: b₃ :: (bytes ++ rest))) Header.sizeofHeader =
      ([b₀, b₁, b₂, b₃], onePiece (bytes ++ rest)) := recv_onePiece [b₀, b₁, b₂, b₃] _
  unfold readMessageFrom
  rw [hheader]
  simp only
  split
  · next he => rw [hvalid] at he; cases he
  · next he => rw [hvalid] at he; cases he
  · simp only [← hlen, recv_onePiece, if_true]

/-! ## One message -/

section OneMessage

variable {m m' : Message} {stream rest : List Bytes}

theorem length_payload_take (hm : m.validate = .ok ()) :
    (m.payload.take m.getLength).length = m.getLength := by
  have hle := getLength_le_of_validate hm
  rw [List.length_take, m.payload_length]
  omega

/-- The four bytes of a valid message's header announce its payload, and with that they are the
message. -/
theorem exists_readHeader (hm : m.validate = .ok ()) :
    ∃ b₀ b₁ b₂ b₃, m.header.image = [b₀, b₁, b₂, b₃] ∧
      (readHeader b₀ b₁ b₂ b₃).validate = .ok () ∧
      (readHeader b₀ b₁ b₂ b₃).getLength = m.getLength ∧
      ∀ hfit, (readPayload (readHeader b₀ b₁ b₂ b₃) (m.payload.take m.getLength) hfit).wire =
        m.wire := by
  obtain ⟨b₀, b₁, b₂, b₃, himage, hheader⟩ : ∃ b₀ b₁ b₂ b₃, m.header.image = [b₀, b₁, b₂, b₃] ∧
      (readHeader b₀ b₁ b₂ b₃).header = m.header := by
    refine ⟨_, _, _, _, rfl, ?_⟩
    show Header.ofImage _ _ _ _ = m.header
    unfold Header.ofImage
    rw [readLe16_le16]
  have hlength : (readHeader b₀ b₁ b₂ b₃).getLength = m.getLength := by
    rw [Message.getLength, Message.getLength, hheader]
  refine ⟨b₀, b₁, b₂, b₃, himage, (validate_congr hheader).trans hm, hlength, ?_⟩
  intro hfit
  obtain ⟨-, hwire⟩ := readPayload_spec b₀ b₁ b₂ b₃ hfit
    (by rw [length_payload_take hm, hlength])
  rw [hwire, wire_eq, himage]

/-- **`read_message` gives a valid message if and only if its two reads give the units.** -/
theorem readMessageFrom_accepted_iff (hm : m.validate = .ok ()) :
    (∃ m', readMessageFrom stream = .accepted m' rest ∧ m'.wire = m.wire) ↔
      (recv stream Header.sizeofHeader).1 = m.header.image ∧
        recv (recv stream Header.sizeofHeader).2 m.getLength = (m.payload.take m.getLength, rest) := by
  obtain ⟨b₀, b₁, b₂, b₃, himage, hvalid, hlength, hwire⟩ := exists_readHeader hm
  rcases hrecv : recv stream Header.sizeofHeader with ⟨got, rest₁⟩
  constructor
  · rintro ⟨m', hread, hsame⟩
    unfold readMessageFrom at hread
    rw [hrecv] at hread
    split at hread
    · cases hread
    · next c₀ c₁ c₂ c₃ rest₂ heq =>
        cases heq
        simp only at hread
        split at hread
        · cases hread
        · cases hread
        · next hvalid =>
            split_ifs at hread with hlen
            cases hread
            -- both wire images begin with the four bytes of the header
            obtain ⟨-, hread⟩ := readPayload_spec c₀ c₁ c₂ c₃
              (Nat.le_trans (length_recv_le _ _) (getLength_le_of_validate hvalid)) hlen
            rw [hread, wire_eq] at hsame
            obtain ⟨hhead, hbytes⟩ := List.append_inj hsame (by rw [Header.image_length]; rfl)
            have hannounced : (readHeader c₀ c₁ c₂ c₃).getLength = m.getLength := by
              rw [← length_payload_take hm, ← hbytes, hlen]
            refine ⟨hhead, ?_⟩
            rw [← hbytes, ← hannounced]
    · cases hread
  · rintro ⟨hgot, hpayload⟩
    simp only at hgot hpayload
    rw [himage] at hgot
    subst hgot
    unfold readMessageFrom
    rw [hrecv]
    simp only
    split
    · next he => rw [hvalid] at he; cases he
    · next he => rw [hvalid] at he; cases he
    · simp only [hlength, hpayload, length_payload_take hm, if_true]
      exact ⟨_, rfl, hwire _⟩

/-- **Of a message at the front of a queue one call takes the whole, or not enough.** -/
theorem readMessage_front (hm : messageFraming.Valid m) {input behind q : Bytes}
    (hq : input ++ behind = m.wire ++ q) (hne : input ≠ []) :
    readMessage input = .aborted ∨
      ∃ rest, readMessage input = .accepted m rest ∧ rest ++ behind = q := by
  rcases List.append_eq_append_iff.mp hq with ⟨missing, hwire, -⟩ | ⟨rest, rfl, hrest⟩
  · by_cases hall : missing = []
    · rw [hall, List.append_nil] at hwire
      rw [hwire, List.append_cancel_left_eq] at hq
      have hread : readMessage (m.wire ++ []) = .accepted m [] := messageFraming.read_encode hm []
      rw [List.append_nil, hwire] at hread
      exact .inr ⟨[], hread, hq⟩
    · -- the header is that of the message, and the payload is too short for it
      obtain ⟨c₀, c₁, c₂, c₃, himage, hvalid, hlength, -⟩ := exists_readHeader hm.1
      rw [wire_eq, himage] at hwire
      have hpayload := length_payload_take hm.1
      left
      rcases readMessage_cases input with ⟨hnil, -⟩ | habort |
        ⟨b₀, b₁, b₂, b₃, rest, what, rfl, hinvalid, -⟩ | ⟨b₀, b₁, b₂, b₃, bytes, rest, _, rfl, -, hlen, -⟩
      · exact absurd hnil hne
      · exact habort
      · simp only [List.cons_append, List.nil_append, List.cons.injEq] at hwire
        obtain ⟨rfl, rfl, rfl, rfl, -⟩ := hwire
        rw [hvalid] at hinvalid
        cases hinvalid
      · simp only [List.cons_append, List.nil_append, List.cons.injEq] at hwire
        obtain ⟨rfl, rfl, rfl, rfl, hwire⟩ := hwire
        have hsame := congrArg List.length hwire
        rw [List.length_append, List.length_append, hpayload, hlen, hlength] at hsame
        exact absurd (List.length_eq_zero_iff.mp (by omega)) hall
  · exact .inr ⟨rest, messageFraming.read_encode hm rest, hrest.symm⟩

/-- **A stream that arrives in pieces is read as some of the bytes at its front**: what the two reads get is a
prefix of the stream, and of that prefix `readMessage` makes the same. -/
theorem exists_received (stream : List Bytes) : ∃ input behind, input ++ behind = stream.flatten ∧
    (readMessageFrom stream).outcome? = (readMessage input).outcome? ∧
    ∀ m rest, readMessageFrom stream = .accepted m rest →
      rest.flatten = (readMessage input).rest ++ behind := by
  have hheader := recv_append stream Header.sizeofHeader
  have hle := length_recv_le stream Header.sizeofHeader
  unfold readMessageFrom
  split
  · next behind heq =>
      rw [heq] at hheader
      refine ⟨[], behind.flatten, hheader, rfl, fun m rest h => ?_⟩
      cases h
  · next b₀ b₁ b₂ b₃ behind heq =>
      rw [heq] at hheader
      have hpayload := recv_append behind (readHeader b₀ b₁ b₂ b₃).getLength
      have hinput : [b₀, b₁, b₂, b₃] ++ (recv behind (readHeader b₀ b₁ b₂ b₃).getLength).1 ++
          (recv behind (readHeader b₀ b₁ b₂ b₃).getLength).2.flatten = stream.flatten := by
        rw [List.append_assoc, hpayload]
        exact hheader
      have hshort := length_recv_le behind (readHeader b₀ b₁ b₂ b₃).getLength
      refine ⟨_, _, hinput, ?_⟩
      simp only [List.cons_append, List.nil_append]
      split
      · next what hinvalid =>
          rw [readMessage_invalid hinvalid]
          exact ⟨rfl, fun m rest h => by cases h⟩
      · next e hother hfault =>
          rw [readMessage_fault hfault hother]
          exact ⟨rfl, fun m rest h => by cases h⟩
      · next hvalid =>
          split_ifs with hlen
          · have hread := readMessage_cons _ [] hvalid hlen
              (Nat.le_trans (length_recv_le _ _) (getLength_le_of_validate hvalid))
            rw [List.append_nil] at hread
            rw [hread]
            refine ⟨rfl, fun m rest h => ?_⟩
            cases h
            rfl
          · rw [readMessage_short hvalid (by omega)]
            exact ⟨rfl, fun m rest h => by cases h⟩
  · next hnone hfour =>
      refine ⟨_, _, hheader, ?_, fun m rest h => ?_⟩
      · rcases hrecv : recv stream Header.sizeofHeader with ⟨got, behind⟩
        rw [hrecv] at hle
        rcases got with _ | ⟨b₀, _ | ⟨b₁, _ | ⟨b₂, _ | ⟨b₃, _ | ⟨b₄, got⟩⟩⟩⟩⟩
        · exact absurd hrecv (hnone _)
        · rfl
        · rfl
        · rfl
        · exact absurd hrecv (hfour _ _ _ _ _)
        · simp only [List.length_cons, Header.sizeofHeader] at hle
          omega
      · cases h

/-- `readn` gives the client a valid message, wherever the pieces end. -/
theorem readFromServer_accepted (hm : m.validate = .ok ()) (h : ∀ c ∈ stream, c ≠ []) {bytes : Bytes}
    (hstream : stream.flatten = m.wire ++ bytes) :
    ∃ m' rest, readFromServer stream = .accepted m' rest ∧ m'.wire = m.wire ∧
      rest.flatten = bytes ∧ ∀ c ∈ rest, c ≠ [] := by
  obtain ⟨b₀, b₁, b₂, b₃, himage, hvalid, hlength, hwire⟩ := exists_readHeader hm
  have hpayload := length_payload_take hm
  rw [wire_eq, himage, List.append_assoc] at hstream
  -- the header
  obtain ⟨rest₁, hread₁, hflat₁, hrest₁⟩ := readn_eq (n := 4) h (by rw [hstream]; simp)
  have hgot : stream.flatten.take 4 = [b₀, b₁, b₂, b₃] := by
    rw [hstream]
    rfl
  have hbehind : rest₁.flatten = m.payload.take m.getLength ++ bytes := by
    rw [hflat₁, hstream]
    rfl
  -- the payload
  obtain ⟨rest₂, hread₂, hflat₂, hrest₂⟩ := readn_eq (n := m.getLength) hrest₁
    (by rw [hbehind, List.length_append, hpayload]; omega)
  have hgot₂ : rest₁.flatten.take m.getLength = m.payload.take m.getLength := by
    rw [hbehind, List.take_left' hpayload]
  rw [hgot] at hread₁
  rw [hgot₂] at hread₂
  have hfit : (m.payload.take m.getLength).length ≤ sbcpMaxPayloadLength := by
    rw [hpayload]
    exact getLength_le_of_validate hm
  refine ⟨_, rest₂, ?_, hwire hfit, ?_, hrest₂⟩
  · unfold readFromServer
    rw [show Header.sizeofHeader = 4 from rfl, hread₁]
    simp only
    split
    · next he => rw [hvalid] at he; cases he
    · next he => rw [hvalid] at he; cases he
    · split
      · next got rest hr =>
          rw [hlength, hread₂] at hr
          cases hr
          rfl
      · next hr =>
          rw [hlength, hread₂] at hr
          cases hr
  · rw [hflat₂, hbehind, List.drop_left' hpayload]

end OneMessage

/-! ## All messages -/

theorem obtains_iff_readsWhole {ms : List Message} (hvalid : ∀ m ∈ ms, m.validate = .ok ())
    (stream : List Bytes) :
    Obtains readMessageFrom stream ms ↔ ReadsWhole stream (ms.flatMap units) := by
  induction ms generalizing stream with
  | nil => exact Iff.rfl
  | cons m ms ih =>
      have hm : m.validate = .ok () := hvalid m (List.mem_cons_self ..)
      have ih := ih fun m' hm' => hvalid m' (List.mem_cons_of_mem _ hm')
      rw [List.flatMap_cons, units, List.cons_append, List.cons_append, List.nil_append, ReadsWhole,
        ReadsWhole, length_payload_take hm, Header.image_length, ← ih]
      constructor
      · rintro ⟨m', rest, hread, hwire, hall⟩
        obtain ⟨hhead, hpayload⟩ := (readMessageFrom_accepted_iff hm).mp ⟨m', hread, hwire⟩
        rw [hpayload]
        exact ⟨hhead, rfl, hall⟩
      · rintro ⟨hhead, hpayload, hall⟩
        obtain ⟨m', hread, hwire⟩ := (readMessageFrom_accepted_iff hm).mpr
          ⟨hhead, Prod.ext hpayload rfl⟩
        exact ⟨m', _, hread, hwire, hall⟩

theorem flatten_units (ms : List Message) :
    (ms.flatMap units).flatten = ms.flatMap Message.wire := by
  induction ms with
  | nil => rfl
  | cons m ms ih =>
      rw [List.flatMap_cons, List.flatMap_cons, List.flatten_append, ih, wire_eq]
      simp [units]

/-- **The client gets all messages, whatever the pieces.** -/
theorem client_obtains {ms : List Message} (hvalid : ∀ m ∈ ms, m.validate = .ok ())
    {stream : List Bytes} (hpieces : ∀ c ∈ stream, c ≠ [])
    (hstream : stream.flatten = ms.flatMap Message.wire) : Obtains readFromServer stream ms := by
  induction ms generalizing stream with
  | nil =>
      rw [Obtains, List.eq_nil_iff_forall_not_mem]
      intro c hc
      exact hpieces c hc (List.flatten_eq_nil_iff.mp hstream c hc)
  | cons m ms ih =>
      obtain ⟨m', rest, hread, hwire, hrest, hleft⟩ :=
        readFromServer_accepted (hvalid m (List.mem_cons_self ..)) hpieces hstream
      exact ⟨m', rest, hread, hwire,
        ih (fun m' hm' => hvalid m' (List.mem_cons_of_mem _ hm')) hleft hrest⟩

/-- **The handler gets all messages if and only if no piece ends inside a header or a payload.** -/
theorem obtains_iff (ms : List Message) (hvalid : ∀ m ∈ ms, m.validate = .ok ())
    (stream : List Bytes) (hpieces : ∀ c ∈ stream, c ≠ [])
    (hstream : stream.flatten = ms.flatMap Message.wire) :
    Obtains readMessageFrom stream ms ↔ cuts stream ⊆ cuts (ms.flatMap units) := by
  rw [obtains_iff_readsWhole hvalid]
  exact readsWhole_iff hpieces (by rw [hstream, flatten_units])

/-- A JOIN with the header of a SEND behind it, and then the rest. -/
theorem obtains_join_send :
    ∃ m₁ m₂, Messages.join (ascii "ann") = .ok m₁ ∧ Messages.send (ascii "hi") = .ok m₂ ∧
      Obtains readMessageFrom [m₁.wire ++ m₂.header.image, m₂.payload.take m₂.getLength]
        [m₁, m₂] := by
  have h₁ : Messages.join (ascii "ann") = .ok _ := rfl
  have h₂ : Messages.send (ascii "hi") = .ok _ := rfl
  refine ⟨_, _, h₁, h₂, ?_⟩
  refine (obtains_iff _ ?_ _ ?_ ?_).mpr ?_
  · simp only [List.forall_mem_cons]
    exact ⟨rfl, rfl, by simp⟩
  · decide +kernel
  · decide +kernel
  · decide +kernel

/-- A JOIN whose header arrives in two pieces fails the first assertion. -/
theorem join_in_two_pieces :
    ∃ m, Messages.join (ascii "ann") = .ok m ∧ m.validate = .ok () ∧
      (∀ c ∈ [m.wire.take 2, m.wire.drop 2], c ≠ []) ∧
      [m.wire.take 2, m.wire.drop 2].flatten = m.wire ∧
      readMessageFrom [m.wire.take 2, m.wire.drop 2] = .aborted ∧
      ¬ Obtains readMessageFrom [m.wire.take 2, m.wire.drop 2] [m] := by
  have hjoin : Messages.join (ascii "ann") = .ok _ := rfl
  refine ⟨_, hjoin, rfl, by decide +kernel, rfl, rfl, ?_⟩
  rintro ⟨m', rest, hread, -⟩
  cases hread

end ComputerNetworking.Chat
