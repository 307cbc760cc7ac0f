/-
# ComputerNetworking.Chat.MainLoop -- the chat server's main loop

The main loop of `sbcp_server.cpp` keeps a FIFO to and from every online user's handler and the list
of online users. Its three reactions -- a bootstrap message, the end of a handler's FIFO, a message
on it -- are given here as functions of that state. They return the state and the writes they make,
in order, or the exception or failed assertion that ends the process.

`join_cases` and `serve_cases` say once what the reactions can do. The invariants of later modules
are derived from these two and never unfold the reactions again.
-/
import ComputerNetworking.Chat.Handler
import Std.Data.TreeMap

namespace ComputerNetworking.Chat

open ComputerNetworking.Lib ComputerNetworking.Sbcp

/-! ## State and writes -/

/-- `std::map<std::string, int>`, iterated in the order of the names. A descriptor is identified
with the handler at its other end. -/
abbrev Fifos := Std.TreeMap Bytes Nat

/-- The locals of `main` that outlive an iteration. -/
structure MainLoop where
  rdFifos : Fifos
  wrFifos : Fifos
  onlineUsers : List Bytes
  maxClients : Nat

/-- Before the first bootstrap message. -/
def MainLoop.start (maxClients : Nat) : MainLoop := ⟨∅, ∅, [], maxClients⟩

/-- `write(fifo, message.data(), message.size())`. -/
structure Write where
  fifo : Nat
  message : Message

/-- `write_all(fifos, message)`. -/
def writeAll (fifos : Fifos) (message : Message) : List Write :=
  fifos.toList.map fun pair => ⟨pair.2, message⟩

/-- `write_all_except(fifos, message, username)`. -/
def writeAllExcept (fifos : Fifos) (message : Message) (username : Bytes) : List Write :=
  (fifos.toList.filter fun pair => pair.1 ≠ username).map fun pair => ⟨pair.2, message⟩

theorem mem_writeAll {fifos : Fifos} {m : Message} {w : Write} :
    w ∈ writeAll fifos m ↔ w.message = m ∧ ∃ u : Bytes, fifos[u]? = some w.fifo := by
  obtain ⟨h, m'⟩ := w
  simp only [writeAll, List.mem_map, Write.mk.injEq, Prod.exists,
    Std.TreeMap.mem_toList_iff_getElem?_eq_some]
  constructor
  · rintro ⟨u, h', hu, rfl, rfl⟩
    exact ⟨rfl, u, hu⟩
  · rintro ⟨rfl, u, hu⟩
    exact ⟨u, h, hu, rfl, rfl⟩

theorem mem_writeAllExcept {fifos : Fifos} {m : Message} {username : Bytes} {w : Write} :
    w ∈ writeAllExcept fifos m username ↔
      w.message = m ∧ ∃ u : Bytes, u ≠ username ∧ fifos[u]? = some w.fifo := by
  obtain ⟨h, m'⟩ := w
  simp only [writeAllExcept, List.mem_map, List.mem_filter, Write.mk.injEq, Prod.exists,
    Std.TreeMap.mem_toList_iff_getElem?_eq_some, decide_eq_true_eq]
  constructor
  · rintro ⟨u, h', ⟨hu, hne⟩, rfl, rfl⟩
    exact ⟨rfl, u, hne, hu⟩
  · rintro ⟨rfl, u, hne, hu⟩
    exact ⟨u, h, ⟨hu, hne⟩, rfl, rfl⟩

/-! ## The three reactions -/

namespace MainLoop

/-- `rd_fifos[username] = handler_fd`, `wr_fifos[username] = main_fd`, `push_back`. -/
def insertUser (s : MainLoop) (handler : Nat) (username : Bytes) : MainLoop :=
  { s with
    rdFifos := s.rdFifos.insert username handler
    wrFifos := s.wrFifos.insert username handler
    onlineUsers := s.onlineUsers ++ [username] }

/-- `erase(remove(..))` on the list and `erase` on both maps. -/
def eraseUser (s : MainLoop) (username : Bytes) : MainLoop :=
  { s with
    rdFifos := s.rdFifos.erase username
    wrFifos := s.wrFifos.erase username
    onlineUsers := s.onlineUsers.filter (· ≠ username) }

section Lookup

variable (s : MainLoop) (handler : Nat) (username : Bytes)

@[simp] theorem insertUser_rdFifos (u : Bytes) :
    (s.insertUser handler username).rdFifos[u]? =
      if username = u then some handler else s.rdFifos[u]? := by
  show (s.rdFifos.insert username handler)[u]? = _
  rw [Std.TreeMap.getElem?_insert]
  simp

@[simp] theorem insertUser_wrFifos (u : Bytes) :
    (s.insertUser handler username).wrFifos[u]? =
      if username = u then some handler else s.wrFifos[u]? := by
  show (s.wrFifos.insert username handler)[u]? = _
  rw [Std.TreeMap.getElem?_insert]
  simp

@[simp] theorem insertUser_onlineUsers :
    (s.insertUser handler username).onlineUsers = s.onlineUsers ++ [username] := rfl

@[simp] theorem insertUser_maxClients : (s.insertUser handler username).maxClients = s.maxClients := rfl

@[simp] theorem eraseUser_rdFifos (u : Bytes) :
    (s.eraseUser username).rdFifos[u]? = if username = u then none else s.rdFifos[u]? := by
  show (s.rdFifos.erase username)[u]? = _
  rw [Std.TreeMap.getElem?_erase]
  simp

@[simp] theorem eraseUser_wrFifos (u : Bytes) :
    (s.eraseUser username).wrFifos[u]? = if username = u then none else s.wrFifos[u]? := by
  show (s.wrFifos.erase username)[u]? = _
  rw [Std.TreeMap.getElem?_erase]
  simp

@[simp] theorem eraseUser_onlineUsers :
    (s.eraseUser username).onlineUsers = s.onlineUsers.filter (· ≠ username) := rfl

@[simp] theorem eraseUser_maxClients : (s.eraseUser username).maxClients = s.maxClients := rfl

end Lookup

/-- The name is in use, or there is one client too many. -/
def Refuses (s : MainLoop) (username : Bytes) : Prop :=
  s.rdFifos.contains username ∨ s.onlineUsers.length = s.maxClients

instance (s : MainLoop) (username : Bytes) : Decidable (s.Refuses username) := by
  unfold Refuses
  infer_instance

/-- A bootstrap message: refuse a name in use or one client too many, or take the user in. -/
def join (s : MainLoop) (handler : Nat) (username : Bytes) :
    Except Fault (MainLoop × List Write) :=
  if s.rdFifos.contains username then do
    let nak ← Messages.nak (ascii "Username already exists")
    .ok (s, [⟨handler, nak⟩])
  else if s.onlineUsers.length = s.maxClients then do
    let nak ← Messages.nak (ascii "Maximum clients limit")
    .ok (s, [⟨handler, nak⟩])
  else do
    let otherUsers := s.onlineUsers
    let s' := s.insertUser handler username
    let ack ← Messages.ack (UInt16.ofNat s'.onlineUsers.length) otherUsers
    let online ← Messages.online username
    .ok (s', ⟨handler, ack⟩ :: writeAllExcept s'.wrFifos online username)

/-- The containers when the branch for a bootstrap message is left, be it by an exception: they have been
changed by then. -/
def afterJoin (s : MainLoop) (handler : Nat) (username : Bytes) : MainLoop :=
  if s.Refuses username then s else s.insertUser handler username

/-- `read_message` returned 0: the user goes offline. -/
def disconnect (s : MainLoop) (username : Bytes) : Except Fault (MainLoop × List Write) := do
  let s' := s.eraseUser username
  let offline ← Messages.offline username
  .ok (s', writeAll s'.wrFifos offline)

/-- The message that goes out for one from `username`, if its type is relayed at all. -/
def relay (message : Message) (username : Bytes) : Except Fault (Option Message) :=
  match message.getType with
  | some .send => do
      let message ← Messages.returning (message.changeToFwd username)
      .ok (some message)
  | some .idle => do
      -- `username.c_str()` ends at a NUL
      let message ← Messages.returning (message.addUsername (username.takeWhile (· ≠ 0)))
      .ok (some message)
  | _ => .ok none

/-- What is done with a message object read from the FIFO of `username`. -/
def actOn (s : MainLoop) (username : Bytes) (message : Message) :
    Except Fault (MainLoop × List Write) :=
  -- `std::cerr << message`
  match message.walk.fault with
  | some e => .error e
  | none => do
      match ← relay message username with
      | some relayed => .ok (s, writeAllExcept s.wrFifos relayed username)
      | none => .ok (s, [])

/-- The branch for a ready FIFO of `username`, on the bytes it holds. -/
def serve (s : MainLoop) (username : Bytes) (input : Bytes) :
    Except Fault (MainLoop × List Write) :=
  match readMessage input with
  | .eof => s.disconnect username
  | .aborted => .error .assertion
  -- -1 is not told apart from a message
  | .rejected _ => s.actOn username (headerOnly input)
  | .accepted message _ => s.actOn username message

end MainLoop

/-! ## What they can do -/

namespace MainLoop

variable {s s' : MainLoop} {ws : List Write}

theorem nak_accepted {reason : Bytes} (h : reason.length ≤ sbcpMaxReasonLength) {m : Message}
    (hm : Messages.nak reason = .ok m) : HandlerAccepted m .nak [reasonAttr reason h] := by
  obtain ⟨m', hm', hp⟩ := nak_packed h
  rw [hm] at hm'
  cases hm'
  exact ⟨hp, nak_limit h⟩

/-- The ACK for a newcomer: the count includes him, and the names are those of the others. -/
def IsAck (m : Message) (others : List Bytes) : Prop :=
  others.length + 1 < 65536 ∧ ∃ names, names.map Attr.value = others ∧
    (∀ a ∈ names, a.type = .username) ∧
    HandlerAccepted m .ack (countAttr (UInt16.ofNat (others.length + 1)) :: names)

/-- **A bootstrap message is refused with a NAK or answered with an ACK**, which goes to the new
handler alone, and then announced to everybody else. -/
theorem join_cases {handler : Nat} {username : Bytes}
    (hname : username.length ≤ sbcpMaxUsernameLength) (honline : ∀ u ∈ s.onlineUsers, IsName u)
    (h : s.join handler username = .ok (s', ws)) :
    (s.Refuses username ∧ s' = s ∧
        ∃ nak as, ws = [⟨handler, nak⟩] ∧ HandlerAccepted nak .nak as) ∨
      (¬ s.Refuses username ∧ s' = s.insertUser handler username ∧
        ∃ ack online, ws = ⟨handler, ack⟩ :: writeAllExcept s'.wrFifos online username ∧
          IsAck ack s.onlineUsers ∧
          HandlerAccepted online .online [usernameAttr username hname]) := by
  unfold join at h
  unfold Refuses
  by_cases hdup : s.rdFifos.contains username
  · -- the name is in use
    rw [if_pos hdup] at h
    obtain ⟨nak, hnak, hok⟩ := bind_eq_ok.mp h
    cases hok
    exact .inl ⟨.inl hdup, rfl, nak, _, rfl, nak_accepted (by decide) hnak⟩
  · rw [if_neg hdup] at h
    by_cases hfull : s.onlineUsers.length = s.maxClients
    · -- one client too many
      rw [if_pos hfull] at h
      obtain ⟨nak, hnak, hok⟩ := bind_eq_ok.mp h
      cases hok
      exact .inl ⟨.inr hfull, rfl, nak, _, rfl, nak_accepted (by decide) hnak⟩
    · -- the user is taken in
      rw [if_neg hfull] at h
      obtain ⟨ack, hack, hrest⟩ := bind_eq_ok.mp h
      obtain ⟨online, honl, hok⟩ := bind_eq_ok.mp hrest
      cases hok
      rw [insertUser_onlineUsers, List.length_append, List.length_singleton] at hack
      obtain ⟨hcount, names, hpack, hvalues, htypes⟩ := ack_ok (fun u hu => (honline u hu).2) hack
      obtain ⟨online', honl', hponl⟩ := online_packed hname
      rw [honl] at honl'
      cases honl'
      refine .inr ⟨by simp [hdup, hfull], rfl, ack, online, rfl, ⟨?_, names, hvalues, htypes, hpack,
        hpack.length_le⟩, hponl, hponl.length_le⟩
      -- the assertion of `ACK` on the count, which is 16 bits wide
      rw [UInt16.toNat_ofNat'] at hcount
      omega

/-- A message that arrives whole is relayed as FWD or IDLE, with the sender's name behind its own
attributes, to everybody but the sender; other types are dropped. -/
theorem actOn_cases {username : Bytes} (hname : IsName username) {m : Message} {t : MessageType}
    {as : List Attr} (hm : HandlerAccepted m t as) (h : s.actOn username m = .ok (s', ws)) :
    s' = s ∧ (ws = [] ∨
      ∃ relayed, ws = writeAllExcept s.wrFifos relayed username ∧
        ((t = .send ∧ HandlerAccepted relayed .fwd (as ++ [usernameAttr username hname.2])) ∨
          (t = .idle ∧ Packed relayed .idle (as ++ [usernameAttr username hname.2])))) := by
  unfold actOn at h
  simp only [hm.1.walk hm.2] at h
  obtain ⟨relayed?, hrelay, hok⟩ := bind_eq_ok.mp h
  -- a name holds no NUL, so `c_str()` does not cut it
  have hcstr : username.takeWhile (· ≠ 0) = username := by
    rw [List.takeWhile_eq_self_iff]
    intro b hb
    have hb0 : b ≠ 0 := by
      rintro rfl
      exact hname.1 hb
    simpa using hb0
  unfold relay at hrelay
  rw [hm.1.getType] at hrelay
  cases t with
  | send =>
      obtain ⟨m', hm', hp, hlimit⟩ := changeToFwd_packed hm.1 hm.2 hname.2
      simp only [hm', Messages.returning, bind, Except.bind, Except.ok.injEq] at hrelay
      subst hrelay
      cases hok
      exact ⟨rfl, .inr ⟨m', rfl, .inl ⟨rfl, hp, hlimit⟩⟩⟩
  | idle =>
      rw [hcstr] at hrelay
      obtain ⟨m', hm', hsome⟩ := bind_eq_ok.mp hrelay
      cases hsome
      cases hok
      refine ⟨rfl, .inr ⟨m', rfl, .inr ⟨rfl, ?_⟩⟩⟩
      rcases hadd : m.addUsername username with ⟨_ | _, m''⟩
      · rw [hadd] at hm'
        cases hm'
      · rw [hadd] at hm'
        cases hm'
        exact addUsername_ok hm.1 hname.2 hadd
  | join | fwd | ack | nak | online | offline =>
      cases hrelay
      cases hok
      exact ⟨rfl, .inl rfl⟩

/-- The end of a FIFO takes the user out and tells everybody else. -/
theorem disconnect_cases {username : Bytes} (hname : IsName username)
    (h : s.disconnect username = .ok (s', ws)) :
    s' = s.eraseUser username ∧
      ∃ offline, ws = writeAll s'.wrFifos offline ∧
        HandlerAccepted offline .offline [usernameAttr username hname.2] := by
  unfold disconnect at h
  obtain ⟨offline, hoff, hok⟩ := bind_eq_ok.mp h
  cases hok
  obtain ⟨offline', hoff', hp⟩ := offline_packed hname.2
  rw [hoff] at hoff'
  cases hoff'
  exact ⟨rfl, offline, rfl, hp, hp.length_le⟩

/-- Serving a FIFO is a disconnect or acts on a message that arrived whole. -/
theorem serve_cases {username input : Bytes} (h : s.serve username input = .ok (s', ws)) :
    (readMessage input = .eof ∧ s.disconnect username = .ok (s', ws)) ∨
      ∃ m rest t as, readMessage input = .accepted m rest ∧ HandlerAccepted m t as ∧
        s.actOn username m = .ok (s', ws) := by
  have hwalk : ∀ m, s.actOn username m = .ok (s', ws) → m.walk.fault = none := by
    intro m hm
    unfold actOn at hm
    split at hm
    · cases hm
    · next hnone => exact hnone
  unfold serve at h
  cases hread : readMessage input with
  | eof =>
      rw [hread] at h
      exact .inl ⟨rfl, h⟩
  | aborted =>
      rw [hread] at h
      cases h
  | rejected rest =>
      -- printing the object throws what `validate()` threw before
      rw [hread] at h
      exact absurd (hwalk _ h) (headerOnly_walk hread)
  | accepted m rest =>
      rw [hread] at h
      obtain ⟨t, as, hm⟩ := handlerAccepted_of_read hread (hwalk _ h)
      exact .inr ⟨m, rest, t, as, rfl, hm, h⟩

end MainLoop

end ComputerNetworking.Chat
