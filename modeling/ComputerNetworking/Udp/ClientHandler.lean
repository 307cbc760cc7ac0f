/-
# ComputerNetworking.Udp.ClientHandler -- the handlers of a running UDP server

`ClientHandler` of libudp is that of libtcp without threads: where the one accepts a connection the other
receives a datagram, and hands it to a process of its own together with the address it came from. The
function for it has been chosen before, and the datagram has been taken off the socket before the limit is
looked at. So a datagram over the limit is lost, and has used up a turn.

Without what the datagrams say the machine is the one of libtcp in process mode: `erase_step`. The limit is
kept for the same reason.
-/
import Mathlib.Data.List.Induction
import ComputerNetworking.Lib.Bytes
import ComputerNetworking.Tcp.ClientHandler

namespace ComputerNetworking.Udp

open ComputerNetworking.Lib
open ComputerNetworking.Tcp (Address HandleMode Waiting)

/-- `ClientHandler`. -/
structure ClientHandler where
  currentHandler : Nat
  clients : List Nat
  maxClients : UInt32
  handlers : List Address
  mode : HandleMode
  debugMode : Bool
  initialPacketBufferSize : Nat
  extraData : Address
  deriving DecidableEq

/-- `ClientHandler()`. -/
def ClientHandler.new : ClientHandler := ⟨0, [], 5, [], .roundRobin, false, 1024, 0⟩

/-- A datagram on the socket, with the `sockaddr_in6` of its sender. -/
structure Datagram where
  source : Bytes
  bytes : Bytes
  deriving DecidableEq

/-- What a call of `accept` comes to. -/
inductive Fate where
  /-- `handler(client, first_packet, len, extra_data)` runs in the process `id`, `client` being connected
  to `source`. -/
  | handled (handler extraData : Address) (id : Nat) (source firstPacket : Bytes)
  | dropped
  /-- `recvfrom` fails. -/
  | failed
  deriving DecidableEq

/-- A server in its loop, with the processes as in `Tcp.Serving`. -/
structure Serving where
  handler : ClientHandler
  running : List Nat
  ended : List Nat
  waiting : Option Waiting
  fates : List Fate
  deriving DecidableEq

inductive Event where
  | finish (i place : Nat)
  | reap
  /-- `accept` up to `recvfrom`. -/
  | enter (rand : Nat)
  | recvFails
  /-- A datagram, with the id of the new process; `none` where `fork` fails. -/
  | datagram (d : Datagram) (id : Option Nat)
  deriving DecidableEq

/-- As the handler of libtcp in process mode. -/
def ClientHandler.erase (h : ClientHandler) : Tcp.ClientHandler :=
  ⟨h.currentHandler, h.clients, h.maxClients, h.handlers, h.mode, h.debugMode, h.extraData, false⟩

/-- `reap_clients`. -/
def reapClients (s : Serving) : Serving :=
  let reaped := Tcp.reapLoop s.handler.clients s.ended
  { s with handler := { s.handler with clients := reaped.1 }, ended := reaped.2 }

/-- `accept` up to `recvfrom`; `none` where the index is out of bounds. -/
def enter (s : Serving) (rand : Nat) : Option Serving :=
  let s := reapClients s
  let chosen := s.handler.erase.choose rand
  chosen.1.map fun handler =>
    { s with
      handler := { s.handler with currentHandler := chosen.2 }
      waiting := some ⟨handler, s.running.length⟩ }

/-- `accept` from the datagram on. -/
def receive (s : Serving) (w : Waiting) (d : Datagram) (id : Option Nat) : Option Serving :=
  let s := { s with waiting := none }
  if s.handler.maxClients.toNat ≤ s.handler.clients.length then
    some { s with fates := s.fates ++ [.dropped] }
  else
    match id with
    | some id =>
        if id ∈ s.running ∨ id ∈ s.ended then none
        else
          some { s with
            running := s.running ++ [id]
            fates := s.fates ++ [.handled w.handler s.handler.extraData id d.source
              (d.bytes.take s.handler.initialPacketBufferSize)]
            handler := { s.handler with clients := s.handler.clients ++ [id] } }
    | none => some { s with fates := s.fates ++ [.dropped] }

/-- A handler returns. -/
def finish (s : Serving) (i place : Nat) : Option Serving :=
  (s.running[i]?).map fun id =>
    { s with
      running := s.running.eraseIdx i
      ended := s.ended.take place ++ id :: s.ended.drop place }

def step (s : Serving) : Event → Option Serving
  | .finish i place => finish s i place
  | .reap => if s.waiting = none then some (reapClients s) else none
  | .enter rand => if s.waiting = none then enter s rand else none
  | .recvFails => s.waiting.map fun _ => { s with waiting := none, fates := s.fates ++ [.failed] }
  | .datagram d id => s.waiting.bind fun w => receive s w d id

/-- The server, as `start` lets it begin. -/
def serving : Machine Serving Event where
  init s := s.handler.clients = [] ∧ s.handler.currentHandler = 0 ∧ s.handler.maxClients ≠ 0 ∧
    s.handler.handlers ≠ [] ∧ s.running = [] ∧ s.ended = [] ∧ s.waiting = none ∧ s.fates = []
  step := step

def Serving.limit (s : Serving) : Nat := s.handler.maxClients.toNat

/-- **What becomes of a datagram.** -/
theorem receive_cases {s s' : Serving} {w : Waiting} {d : Datagram} {id : Option Nat}
    (hs : receive s w d id = some s') :
    (s.limit ≤ s.handler.clients.length ∨ id = none) ∧
        s' = { s with waiting := none, fates := s.fates ++ [.dropped] } ∨
      ∃ new, id = some new ∧ s.handler.clients.length < s.limit ∧ new ∉ s.running ∧ new ∉ s.ended ∧
        s' = { s with
          waiting := none
          running := s.running ++ [new]
          fates := s.fates ++ [.handled w.handler s.handler.extraData new d.source
            (d.bytes.take s.handler.initialPacketBufferSize)]
          handler := { s.handler with clients := s.handler.clients ++ [new] } } := by
  unfold receive at hs
  simp only at hs
  split_ifs at hs with hfull
  · cases hs
    exact .inl ⟨.inl hfull, rfl⟩
  · rcases id with _ | new
    · cases hs
      exact .inl ⟨.inr rfl, rfl⟩
    · simp only at hs
      split_ifs at hs with hused
      cases hs
      rw [not_or] at hused
      exact .inr ⟨new, rfl, Nat.not_le.mp hfull, hused.1, hused.2, rfl⟩

/-! ## The processes -/

/-- The connection that a datagram stands for, if anything becomes of it. -/
def Fate.erase : Fate → Option Tcp.Fate
  | handled handler extraData id _ _ => some (.handled handler extraData id)
  | dropped => some .closed
  | failed => none

def Serving.erase (s : Serving) : Tcp.Serving :=
  ⟨s.handler.erase, s.running, s.ended, s.waiting, s.fates.filterMap Fate.erase⟩

def Event.erase : Event → Tcp.Event
  | finish i place => .finish i place
  | reap => .reap
  | enter rand => .enter rand
  | recvFails => .acceptFails
  | datagram _ id => .connection id

/-- **The processes come and go as those of libtcp.** -/
theorem erase_step {s s' : Serving} {e : Event} (hs : step s e = some s') :
    Tcp.step s.erase e.erase = some s'.erase := by
  cases e with
  | finish i place =>
      obtain ⟨id, hid, rfl⟩ := Option.map_eq_some_iff.mp hs
      show Tcp.finish s.erase i place = _
      unfold Tcp.finish
      rw [show s.erase.running[i]? = some id from hid]
      rfl
  | reap =>
      obtain ⟨hidle, hs⟩ := Option.ite_none_right_eq_some.mp hs
      cases hs
      exact if_pos hidle
  | enter rand =>
      obtain ⟨hidle, hs⟩ := Option.ite_none_right_eq_some.mp hs
      obtain ⟨handler, hchosen, rfl⟩ := Option.map_eq_some_iff.mp hs
      show (if s.waiting = none then Tcp.enter s.erase rand else none) = _
      rw [if_pos hidle]
      unfold Tcp.enter
      exact Option.map_eq_some_iff.mpr ⟨handler, hchosen, rfl⟩
  | recvFails =>
      obtain ⟨w, hw, rfl⟩ := Option.map_eq_some_iff.mp hs
      show s.waiting.map _ = _
      rw [hw]
      simp [Serving.erase, Fate.erase, List.filterMap_append]
  | datagram d id =>
      obtain ⟨w, hw, hs⟩ := Option.bind_eq_some_iff.mp hs
      show s.waiting.bind _ = _
      rw [hw]
      show Tcp.connect s.erase w id = _
      rcases receive_cases hs with ⟨hwhy, rfl⟩ | ⟨new, rfl, hroom, hrunning, hended, rfl⟩
      · unfold Tcp.connect
        rcases hwhy with hfull | rfl
        · rw [if_pos (show s.erase.handler.maxClients.toNat ≤ s.erase.handler.clients.length from hfull)]
          simp [Serving.erase, Fate.erase, List.filterMap_append]
        · simp [Serving.erase, ClientHandler.erase, Fate.erase, List.filterMap_append]
      · unfold Tcp.connect
        rw [if_neg (show ¬ s.erase.handler.maxClients.toNat ≤ s.erase.handler.clients.length from
          Nat.not_le.mpr hroom)]
        simp [Serving.erase, ClientHandler.erase, Fate.erase, List.filterMap_append, hrunning, hended]

theorem erase_reachable {G : Serving → Event → Prop} {s : Serving} (h : serving.ReachableUnder G s) :
    Tcp.serving.Reachable s.erase := by
  induction h with
  | init h0 =>
      obtain ⟨hclients, hcurrent, hmax, hhandlers, hrunning, hended, hwaiting, hfates⟩ := h0
      refine .init ⟨hclients, hcurrent, hmax, hhandlers, hrunning, hended, hwaiting, ?_⟩
      rw [Serving.erase, hfates]
      rfl
  | step _ _ hs ih => exact .step ih trivial (erase_step hs)

/-! ## The turns -/

/-- The end of a call of `accept`. -/
def Event.isCall : Event → Bool
  | recvFails | datagram .. => true
  | _ => false

/-- A function for the `k`-th call. -/
def ClientHandler.Picks (h : ClientHandler) (k : Nat) (f : Address) : Prop :=
  f ∈ h.handlers ∧ (h.mode = .roundRobin → h.handlers[k % h.handlers.length]? = some f)

/-- What the `k`-th call of `accept` may make of what it gets. -/
inductive ClientHandler.Makes (h : ClientHandler) (k : Nat) : Event → Fate → Prop
  | handled {f : Address} (hf : h.Picks k f) (d : Datagram) (id : Nat) :
      h.Makes k (.datagram d (some id))
        (.handled f h.extraData id d.source (d.bytes.take h.initialPacketBufferSize))
  | dropped (d : Datagram) (id : Option Nat) : h.Makes k (.datagram d id) .dropped
  | failed : h.Makes k .recvFails .failed

/-- Every call has made something of what it got, and used up a turn. -/
structure Turns (h : ClientHandler) (calls : List Event) (s : Serving) : Prop where
  config : s.handler = { h with currentHandler := s.handler.currentHandler, clients := s.handler.clients }
  made : List.Forall₂ (fun call fate => h.Makes call.2 call.1 fate) calls.zipIdx s.fates
  turn : h.mode = .roundRobin → s.handler.currentHandler =
    (calls.length + if s.waiting = none then 0 else 1) % h.handlers.length
  picked : ∀ w, s.waiting = some w → h.Picks calls.length w.handler

section Turns

variable {h : ClientHandler} {calls : List Event} {s s' : Serving}

theorem picks_of_choose {k : Nat} (hturn : h.mode = .roundRobin → h.currentHandler = k % h.handlers.length)
    {rand : Nat} {f : Address} (hf : (h.erase.choose rand).1 = some f) : h.Picks k f := by
  unfold Tcp.ClientHandler.choose at hf
  cases hmode : h.mode with
  | roundRobin =>
      rw [show h.erase.mode = .roundRobin from hmode] at hf
      have hat : h.handlers[k % h.handlers.length]? = some f := hturn hmode ▸ hf
      exact ⟨List.mem_of_getElem? hat, fun _ => hat⟩
  | random =>
      rw [show h.erase.mode = .random from hmode] at hf
      refine ⟨List.mem_of_getElem? hf, fun hrobin => ?_⟩
      rw [hmode] at hrobin
      cases hrobin

/-- The other events end no call. -/
theorem Turns.of_eq (ht : Turns h calls s) (hhandler : ∃ clients, s'.handler = { s.handler with clients })
    (hfates : s'.fates = s.fates) (hwaiting : s'.waiting = s.waiting) : Turns h calls s' := by
  obtain ⟨clients, hhandler⟩ := hhandler
  constructor
  · rw [hhandler, ht.config]
  · rw [hfates]
    exact ht.made
  · rw [hhandler, hwaiting]
    exact ht.turn
  · rw [hwaiting]
    exact ht.picked

/-- The end of a call. -/
theorem Turns.call (ht : Turns h calls s) {e : Event} {fate : Fate} (hw : s.waiting ≠ none)
    (hmakes : h.Makes calls.length e fate)
    (hhandler : ∃ clients, s'.handler = { s.handler with clients })
    (hfates : s'.fates = s.fates ++ [fate]) (hwaiting : s'.waiting = none) :
    Turns h (calls ++ [e]) s' := by
  obtain ⟨clients, hhandler⟩ := hhandler
  constructor
  · rw [hhandler, ht.config]
  · rw [hfates, List.zipIdx_append]
    refine List.rel_append ht.made (.cons ?_ .nil)
    simpa using hmakes
  · intro hmode
    rw [hhandler, hwaiting, if_pos rfl, List.length_append, List.length_singleton, Nat.add_zero]
    have hturn := ht.turn hmode
    rwa [if_neg hw] at hturn
  · rw [hwaiting]
    exact fun w hw => nomatch hw

theorem Turns.enter (ht : Turns h calls s) (hidle : s.waiting = none) {rand : Nat}
    (hs : enter s rand = some s') : Turns h calls s' := by
  obtain ⟨f, hf, rfl⟩ := Option.map_eq_some_iff.mp hs
  have hconfig := ht.config
  have hturn := ht.turn
  rw [if_pos hidle, Nat.add_zero] at hturn
  have hreaped : (reapClients s).handler =
      { h with currentHandler := s.handler.currentHandler, clients := (reapClients s).handler.clients } := by
    rw [reapClients, hconfig]
  refine ⟨?_, ht.made, ?_, ?_⟩
  · dsimp only
    rw [hreaped]
  · intro hmode
    dsimp only
    rw [if_neg (Option.some_ne_none _), Tcp.ClientHandler.choose,
      show (reapClients s).handler.erase.mode = .roundRobin by rw [hreaped]; exact hmode]
    dsimp only
    rw [hreaped]
    show (s.handler.currentHandler + 1) % h.handlers.length = _
    rw [hturn hmode, Nat.mod_add_mod]
  · intro w hw
    cases hw
    have hpicks := picks_of_choose (h := (reapClients s).handler) (k := calls.length)
      (by rw [hreaped]; exact hturn) hf
    rw [hreaped] at hpicks
    exact hpicks

theorem Turns.step (ht : Turns h calls s) {e : Event} (hs : Udp.step s e = some s') :
    Turns h (calls ++ [e].filter Event.isCall) s' := by
  cases e with
  | finish i place =>
      obtain ⟨id, hid, rfl⟩ := Option.map_eq_some_iff.mp hs
      rw [show [Event.finish i place].filter Event.isCall = [] from rfl, List.append_nil]
      exact ht.of_eq ⟨_, rfl⟩ rfl rfl
  | reap =>
      obtain ⟨-, hs⟩ := Option.ite_none_right_eq_some.mp hs
      cases hs
      rw [show [Event.reap].filter Event.isCall = [] from rfl, List.append_nil]
      exact ht.of_eq ⟨_, rfl⟩ rfl rfl
  | enter rand =>
      obtain ⟨hidle, hs⟩ := Option.ite_none_right_eq_some.mp hs
      rw [show [Event.enter rand].filter Event.isCall = [] from rfl, List.append_nil]
      exact ht.enter hidle hs
  | recvFails =>
      obtain ⟨w, hw, rfl⟩ := Option.map_eq_some_iff.mp hs
      exact ht.call (Option.ne_none_iff_exists'.mpr ⟨w, hw⟩) .failed ⟨_, rfl⟩ rfl rfl
  | datagram d id =>
      obtain ⟨w, hw, hs⟩ := Option.bind_eq_some_iff.mp hs
      have hwaits : s.waiting ≠ none := Option.ne_none_iff_exists'.mpr ⟨w, hw⟩
      rcases receive_cases hs with ⟨-, rfl⟩ | ⟨new, rfl, -, -, -, rfl⟩
      · exact ht.call hwaits (.dropped d id) ⟨_, rfl⟩ rfl rfl
      · refine ht.call hwaits ?_ ⟨_, rfl⟩ rfl rfl
        have hmakes := ClientHandler.Makes.handled (ht.picked w hw) d new
        rw [ht.config]
        exact hmakes

theorem turns_of_run {s₀ : Serving} {es : List Event} (h₀ : serving.init s₀)
    (hrun : serving.run s₀ es = some s) : Turns s₀.handler (es.filter Event.isCall) s := by
  induction es using List.reverseRecOn generalizing s with
  | nil =>
      cases hrun
      obtain ⟨-, hcurrent, -, -, -, -, hwaiting, hfates⟩ := h₀
      refine ⟨rfl, ?_, ?_, ?_⟩
      · rw [hfates]
        exact .nil
      · intro _
        rw [hcurrent, hwaiting]
        exact (Nat.zero_mod _).symm
      · rw [hwaiting]
        exact fun w hw => nomatch hw
  | append_singleton es e ih =>
      rw [Machine.run_append] at hrun
      obtain ⟨s₁, hbefore, hlast⟩ := Option.bind_eq_some_iff.mp hrun
      obtain ⟨s₂, hs, hnil⟩ := Option.bind_eq_some_iff.mp hlast
      obtain rfl : s₂ = s := Option.some.inj hnil
      rw [List.filter_append]
      exact (ih hbefore).step hs

end Turns

/-! ## Every datagram -/

/-- With a process for it, a datagram is lost exactly if there was no room when `reap_clients` returned. -/
def LostIfFull (s : Serving) (e : Event) : Prop :=
  ∀ d id w s', e = .datagram d (some id) → s.waiting = some w → step s e = some s' →
    (s'.fates = s.fates ++ [.dropped] ↔ s.limit ≤ w.atReap)

theorem lostIfFull_of_reachable {s : Serving} (h : serving.Reachable s) (e : Event) : LostIfFull s e := by
  rintro d id w s' rfl hw hs
  have hbooked := Tcp.booked_of_reachable (erase_reachable h)
  have hcount : s.handler.clients.length = w.atReap := hbooked.waiting rfl w hw
  obtain ⟨w', hw', hs⟩ := Option.bind_eq_some_iff.mp hs
  rcases receive_cases hs with ⟨hfull | hnone, rfl⟩ | ⟨new, -, hroom, -, -, rfl⟩
  · rw [hcount] at hfull
    exact iff_of_true rfl hfull
  · cases hnone
  · rw [hcount] at hroom
    exact iff_of_false (by simp) (Nat.not_le.mpr hroom)

/-- **Dispatch.** Whatever the clients send and the system does, not too many handlers run, and the calls of
`accept` have made of what they got, one by one, what they may: a datagram goes to the handler whose turn it
is, in round robin the calls that came to nothing having had their turns as well, and it is lost for want of
room exactly if there was none when `reap_clients` returned. -/
theorem dispatch (s₀ s : Serving) (es : List Event) (h : serving.init s₀)
    (hrun : serving.run s₀ es = some s) :
    s.running.length ≤ s₀.limit ∧
      List.Forall₂ (fun call fate => s₀.handler.Makes call.2 call.1 fate)
        (es.filter Event.isCall).zipIdx s.fates ∧
      serving.Along LostIfFull s₀ es := by
  have hturns := turns_of_run h hrun
  have hbooked := Tcp.booked_of_reachable (erase_reachable (Machine.reachable_of_run h hrun))
  have hlimit : s.limit = s₀.limit := by
    unfold Serving.limit
    rw [hturns.config]
  refine ⟨?_, hturns.made, ?_⟩
  · rw [← hlimit]
    exact Nat.le_trans (hbooked.running_le rfl) hbooked.bounded
  · apply Machine.Along.of_true.imp_of_reachable (.init h) hrun
    intro s e _ hreachable _ _
    exact lostIfFull_of_reachable hreachable e

/-- Two handlers and room for one client. -/
def twoHandlers : Serving where
  handler := { ClientHandler.new with maxClients := 1, handlers := [1, 2], initialPacketBufferSize := 4 }
  running := []
  ended := []
  waiting := none
  fates := []

/-- A datagram that is handled, one that is lost, and one more for the first handler, too long for the
buffer. -/
def threeDatagrams : List Event :=
  [.enter 0, .datagram ⟨[7], [1]⟩ (some 10), .enter 0, .datagram ⟨[8], [2]⟩ (some 11), .finish 0 0, .reap,
    .enter 0, .datagram ⟨[9], [1, 2, 3, 4, 5]⟩ (some 12)]

theorem dispatch_threeDatagrams : ∃ s, serving.run twoHandlers threeDatagrams = some s ∧
    s.fates = [.handled 1 0 10 [7] [1], .dropped, .handled 1 0 12 [9] [1, 2, 3, 4]] ∧
    serving.Along LostIfFull twoHandlers threeDatagrams := by
  have hrun : serving.run twoHandlers threeDatagrams = some _ := rfl
  have hinit : serving.init twoHandlers := by
    refine ⟨rfl, rfl, ?_, ?_, rfl, rfl, rfl, rfl⟩ <;> decide
  exact ⟨_, hrun, rfl, (dispatch _ _ _ hinit hrun).2.2⟩

end ComputerNetworking.Udp
