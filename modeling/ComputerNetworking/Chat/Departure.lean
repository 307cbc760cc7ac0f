/-
# ComputerNetworking.Chat.Departure -- users who leave, and SIGPIPE

A handler may end at any moment, and the main loop learns of it when it reads the end of that handler's
FIFO. Until then the user is in `wr_fifos`, and what is written to him raises SIGPIPE, which ends the
process. The order of the names does not help: whoever is served first may have something for all.

Turns are atomic. That loses no order of exits and writes but one, since a turn writes to each handler
once and does not look at the handlers otherwise: a newcomer may be gone between the `open` of its
FIFOs and the answer. For this there is a turn of its own.
-/
import ComputerNetworking.Chat.Acknowledge
import ComputerNetworking.Chat.FifoFraming

namespace ComputerNetworking.Chat

open ComputerNetworking.Lib ComputerNetworking.Sbcp Function

/-! ## Turns -/

inductive Turn where
  | event (e : Event)
  /-- The main loop takes the next bootstrap message, and the handler ends as soon as its FIFOs are
  open. -/
  | joinAbandoned

/-- The chat server with newcomers that do not wait for their answer. -/
def departing (maxClients : Nat) : Machine ChatState Turn where
  init s := s = ChatState.start maxClients
  step s
    | .event e => chatStep s e
    | .joinAbandoned =>
        match s.mainAlive, s.pipe with
        | true, (h, u) :: rest =>
            some (({ s with pipe := rest, phase := update s.phase h .finished } : ChatState).afterMain
              none (s.main.join h u))
        | _, _ => none

/-! ## The writes of a turn -/

/-- A write to a FIFO, and whether its reader was gone. -/
structure Attempt where
  fifo : Nat
  broken : Bool
  deriving DecidableEq

/-- Writes are made in order up to the first that has no reader. -/
def writeOut (phase : Nat → Phase) : List Write → List Attempt
  | [] => []
  | w :: ws =>
      if phase w.fifo = .finished then [⟨w.fifo, true⟩]
      else ⟨w.fifo, false⟩ :: writeOut phase ws

/-- The writes of a reaction; an exception comes before the first of them. -/
def attemptsOf (phase : Nat → Phase) : Except Fault (MainLoop × List Write) → List Attempt
  | .error _ => []
  | .ok (_, ws) => writeOut phase ws

def attempts (s : ChatState) : Turn → List Attempt
  | .event .join =>
      match s.pipe with
      | (h, u) :: _ => attemptsOf (update s.phase h .joined) (s.main.join h u)
      | [] => []
  | .joinAbandoned =>
      match s.pipe with
      | (h, u) :: _ => attemptsOf (update s.phase h .finished) (s.main.join h u)
      | [] => []
  | .event (.serve u) =>
      match s.main.rdFifos[u]? with
      | some h => attemptsOf s.phase (s.main.serve u (s.up h))
      | none => []
  | _ => []

section Writes

variable {phase : Nat → Phase}

theorem writeOut_unbroken_iff {ws : List Write} :
    (∀ a ∈ writeOut phase ws, a.broken = false) ↔ ∀ w ∈ ws, phase w.fifo ≠ .finished := by
  induction ws with
  | nil => simp [writeOut]
  | cons w ws ih =>
      unfold writeOut
      by_cases hgone : phase w.fifo = .finished
      · simp [hgone]
      · simp [hgone, ih]

/-- **The main process outlives the writes of a reaction if and only if none of them is broken.** -/
theorem mainAlive_afterMain_iff {s : ChatState} {sender : Option (Nat × Bytes)} {main : MainLoop}
    {ws : List Write} :
    (s.afterMain sender (.ok (main, ws))).mainAlive = true ↔
      ∀ a ∈ attemptsOf s.phase (.ok (main, ws)), a.broken = false := by
  rw [attemptsOf, writeOut_unbroken_iff]
  exact ChatState.survives_iff

/-- The readers of everybody but `u` are there. -/
def OthersThere (fifos : Fifos) (phase : Nat → Phase) (u : Bytes) : Prop :=
  ∀ p ∈ fifos.toList, p.1 ≠ u → phase p.2 ≠ .finished

instance (fifos : Fifos) (u : Bytes) : Decidable (OthersThere fifos phase u) := by
  unfold OthersThere
  infer_instance

theorem othersThere_iff {fifos : Fifos} {u : Bytes} :
    OthersThere fifos phase u ↔
      ∀ (v : Bytes) (k : Nat), fifos[v]? = some k → v ≠ u → phase k ≠ .finished := by
  simp only [OthersThere, Prod.forall, Std.TreeMap.mem_toList_iff_getElem?_eq_some]

theorem writeAllExcept_there_iff {fifos : Fifos} {m : Message} {u : Bytes} :
    (∀ w ∈ writeAllExcept fifos m u, phase w.fifo ≠ .finished) ↔ OthersThere fifos phase u := by
  rw [othersThere_iff]
  constructor
  · intro h v k hv hne
    exact h ⟨k, m⟩ (mem_writeAllExcept.mpr ⟨rfl, v, hne, hv⟩)
  · intro h w hw
    obtain ⟨-, v, hne, hv⟩ := mem_writeAllExcept.mp hw
    exact h v w.fifo hv hne

end Writes

/-! ## The condition -/

/-- What is on the FIFO of a user is for everybody else: its end, or a message that is sent on. -/
def ForEverybody (input : Bytes) : Prop :=
  match readMessage input with
  | .eof => True
  | .accepted m _ =>
      m.walk.fault = none ∧ (m.getType = some .send ∨ m.getType = some .idle)
  | _ => False

instance (input : Bytes) : Decidable (ForEverybody input) := by
  unfold ForEverybody
  split <;> infer_instance

/-- The user on whose behalf a turn writes to everybody else, as long as nothing throws. -/
def ChatState.broadcasts (s : ChatState) : Turn → Option Bytes
  | .event .join =>
      match s.pipe with
      | (_, u) :: _ => if ¬ s.main.Refuses u ∧ s.main.AckFits then some u else none
      | [] => none
  | .event (.serve u) =>
      match s.main.rdFifos[u]? with
      | some h => if ForEverybody (s.up h) then some u else none
      | none => none
  | _ => none

/-- A newcomer ends before the answer only where there is none, because the ACK does not fit. -/
def ChatState.AwaitsAnswer (s : ChatState) : Turn → Prop
  | .joinAbandoned => ∀ p ∈ s.pipe.head?, ¬ (s.main.Refuses p.2 ∨ s.main.AckFits)
  | _ => True

/-- **The turn has nothing for everybody else, or everybody else is there.** -/
def NobodyGone (s : ChatState) (t : Turn) : Prop :=
  (∀ u ∈ s.broadcasts t, OthersThere s.main.wrFifos s.phase u) ∧ s.AwaitsAnswer t

instance (s : ChatState) (t : Turn) : Decidable (NobodyGone s t) := by
  unfold NobodyGone ChatState.AwaitsAnswer
  cases t <;> infer_instance

/-! ## It is exact for each turn -/

section Reactions

variable {s : MainLoop} {phase : Nat → Phase} {u : Bytes}

theorem join_unbroken_iff {h : Nat} (hu : IsName u) (honline : ∀ v ∈ s.onlineUsers, IsName v) :
    (∀ a ∈ attemptsOf phase (s.join h u), a.broken = false) ↔
      (s.Refuses u ∨ s.AckFits → phase h ≠ .finished) ∧
        (¬ s.Refuses u ∧ s.AckFits → OthersThere s.wrFifos phase u) := by
  by_cases href : s.Refuses u
  · -- a NAK, to the newcomer only
    obtain ⟨ws, hj⟩ : ∃ ws, s.join h u = .ok (s, ws) := by
      obtain ⟨dup, hdup, -⟩ := nak_packed (r := ascii "Username already exists") (by decide)
      obtain ⟨full, hfull, -⟩ := nak_packed (r := ascii "Maximum clients limit") (by decide)
      unfold MainLoop.join
      by_cases hin : s.rdFifos.contains u
      · rw [if_pos hin]
        simp only [hdup]
        exact ⟨_, rfl⟩
      · rw [if_neg hin, if_pos (href.resolve_left hin)]
        simp only [hfull]
        exact ⟨_, rfl⟩
    rcases MainLoop.join_cases hu.2 honline hj with ⟨-, -, nak, as, rfl, -⟩ | ⟨hacc, -⟩
    · rw [hj, attemptsOf, writeOut_unbroken_iff]
      simp [href]
    · exact absurd href hacc
  · by_cases hfits : s.AckFits
    · -- an ACK to the newcomer and an ONLINE to the others
      obtain ⟨ws, hj⟩ := join_of_fits h hu.2 honline href hfits
      rcases MainLoop.join_cases hu.2 honline hj with ⟨hr, -⟩ | ⟨-, -, ack, online, rfl, -⟩
      · exact absurd hr href
      · have hothers : OthersThere (s.insertUser h u).wrFifos phase u ↔
            OthersThere s.wrFifos phase u := by
          simp only [othersThere_iff, MainLoop.insertUser_wrFifos]
          constructor
          · intro hall v k hv hne
            exact hall v k (by rwa [if_neg (Ne.symm hne)]) hne
          · intro hall v k hv hne
            rw [if_neg (Ne.symm hne)] at hv
            exact hall v k hv hne
        rw [hj, attemptsOf, writeOut_unbroken_iff, List.forall_mem_cons, writeAllExcept_there_iff,
          hothers]
        simp [href, hfits]
    · -- `ACK` throws
      obtain ⟨e, hj⟩ := join_of_not_fits h hu.2 honline href hfits
      rw [hj]
      simp [attemptsOf, href, hfits]

/-- A message of the two types that are sent on is: it passed the handler's checks, and these leave room
for a name. -/
theorem actOn_sentOn {m : Message} {t : MessageType} {as : List Attr} (hu : IsName u)
    (hm : HandlerAccepted m t as) (ht : t = .send ∨ t = .idle) :
    ∃ relayed, s.actOn u m = .ok (s, writeAllExcept s.wrFifos relayed u) := by
  have hcut : (u.takeWhile (· ≠ 0)).length ≤ sbcpMaxUsernameLength :=
    Nat.le_trans (List.takeWhile_prefix _).length_le hu.2
  unfold MainLoop.actOn MainLoop.relay
  simp only [hm.1.walk hm.2, hm.1.getType]
  rcases ht with rfl | rfl
  · obtain ⟨m', hm', -⟩ := changeToFwd_packed hm.1 hm.2 hu.2
    simp only [hm']
    exact ⟨m', rfl⟩
  · have hlimit : (encodeAttrs as).length ≤ 4 + 16 := hm.2
    obtain ⟨m', hm', -⟩ := addUsername_packed hm.1 hcut hm.2 (by
      simp only [attributeHeaderSize, sbcpMaxPayloadLength, sbcpMaxUsernameLength] at hcut ⊢
      omega)
    simp only [hm']
    exact ⟨m', rfl⟩

/-- A message whose iteration throws is printed first, so nothing is written. -/
theorem actOn_fault {m : Message} (h : m.walk.fault ≠ none) : ∃ e, s.actOn u m = .error e := by
  unfold MainLoop.actOn
  rcases hwalk : m.walk.fault with _ | e
  · exact absurd hwalk h
  · exact ⟨e, rfl⟩

theorem serve_unbroken_iff {input : Bytes} (hu : IsName u) :
    (∀ a ∈ attemptsOf phase (s.serve u input), a.broken = false) ↔
      (ForEverybody input → OthersThere s.wrFifos phase u) := by
  unfold MainLoop.serve ForEverybody
  rcases hread : readMessage input with _ | ⟨m, rest⟩ | rest | _
  · -- the end of the FIFO
    obtain ⟨offline, hoff, -⟩ := offline_packed hu.2
    have hd : s.disconnect u = .ok (s.eraseUser u, writeAll (s.eraseUser u).wrFifos offline) := by
      simp only [MainLoop.disconnect, hoff]
      rfl
    simp only [hd, attemptsOf, writeOut_unbroken_iff, forall_const]
    rw [othersThere_iff]
    constructor
    · intro h v k hv hne
      apply h ⟨k, offline⟩
      rw [mem_writeAll]
      exact ⟨rfl, v, by rwa [MainLoop.eraseUser_wrFifos, if_neg (Ne.symm hne)]⟩
    · intro h w hw
      obtain ⟨-, v, hv⟩ := mem_writeAll.mp hw
      rw [MainLoop.eraseUser_wrFifos] at hv
      by_cases hne : u = v
      · simp [hne] at hv
      · rw [if_neg hne] at hv
        exact h v w.fifo hv (Ne.symm hne)
  · by_cases hwalk : m.walk.fault = none
    · obtain ⟨t, as, hm⟩ := handlerAccepted_of_read hread hwalk
      simp only [hwalk, true_and, hm.1.getType, Option.some.injEq]
      by_cases ht : t = .send ∨ t = .idle
      · -- sent on
        obtain ⟨relayed, hact⟩ := actOn_sentOn (s := s) hu hm ht
        simp only [hact, attemptsOf, writeOut_unbroken_iff, writeAllExcept_there_iff, ht,
          forall_const]
      · -- dropped
        have hdrop : s.actOn u m = .ok (s, []) := by
          unfold MainLoop.actOn MainLoop.relay
          simp only [hwalk, hm.1.getType]
          cases t with
          | send => exact absurd (.inl rfl) ht
          | idle => exact absurd (.inr rfl) ht
          | join | fwd | ack | nak | online | offline => rfl
        simp [hdrop, attemptsOf, writeOut, ht]
    · obtain ⟨e, he⟩ := actOn_fault (s := s) (u := u) hwalk
      simp [he, attemptsOf, hwalk]
  · obtain ⟨e, he⟩ := actOn_fault (s := s) (u := u) (headerOnly_walk hread)
    simp [he, attemptsOf]
  · simp [attemptsOf]

end Reactions

section Turns

variable {s s' : ChatState}

/-- A handler's change of phase is nothing to the others. -/
theorem othersThere_update {u : Bytes} {h : Nat} {p : Phase}
    (hfree : ∀ v : Bytes, s.main.wrFifos[v]? ≠ some h) :
    OthersThere s.main.wrFifos (update s.phase h p) u ↔ OthersThere s.main.wrFifos s.phase u := by
  simp only [othersThere_iff]
  have hother : ∀ (v : Bytes) (k : Nat), s.main.wrFifos[v]? = some k →
      update s.phase h p k = s.phase k := by
    intro v k hv
    apply update_of_ne
    rintro rfl
    exact hfree v hv
  constructor
  · intro hall v k hv hne
    rw [← hother v k hv]
    exact hall v k hv hne
  · intro hall v k hv hne
    rw [hother v k hv]
    exact hall v k hv hne

/-- **A turn's writes all find a reader if and only if nobody is gone whom they are for.** -/
theorem attempts_unbroken_iff (w : Wired s.main s.pipe s.phase) (t : Turn) :
    (∀ a ∈ attempts s t, a.broken = false) ↔ NobodyGone s t := by
  unfold NobodyGone
  cases t with
  | joinAbandoned =>
      rcases hpipe : s.pipe with _ | ⟨⟨h, u⟩, rest⟩
      · simp [attempts, ChatState.broadcasts, ChatState.AwaitsAnswer, hpipe]
      · have hu : IsName u := w.pipe_name (h, u) (by simp [hpipe])
        simp only [attempts, hpipe, join_unbroken_iff hu w.online, update_self, ChatState.broadcasts,
          ChatState.AwaitsAnswer]
        simp
        tauto
  | event e =>
      cases e with
      | join =>
          rcases hpipe : s.pipe with _ | ⟨⟨h, u⟩, rest⟩
          · simp [attempts, ChatState.broadcasts, ChatState.AwaitsAnswer, hpipe]
          · have hu : IsName u := w.pipe_name (h, u) (by simp [hpipe])
            rw [hpipe] at w
            obtain ⟨-, hfree⟩ := w.pop
            simp only [attempts, hpipe, join_unbroken_iff hu w.online, update_self,
              othersThere_update hfree, ChatState.broadcasts, ChatState.AwaitsAnswer]
            by_cases hacc : ¬ s.main.Refuses u ∧ s.main.AckFits
            · simp [hacc]
            · simp [hacc]
      | serve u =>
          rcases hget : s.main.rdFifos[u]? with _ | h
          · simp [attempts, ChatState.broadcasts, ChatState.AwaitsAnswer, hget]
          · have hu : IsName u := w.name u h (by rw [← w.same]; exact hget)
            simp only [attempts, hget, serve_unbroken_iff hu, ChatState.broadcasts,
              ChatState.AwaitsAnswer]
            by_cases hall : ForEverybody (s.up h)
            · simp [hall]
            · simp [hall]
      | client h input => simp [attempts, ChatState.broadcasts, ChatState.AwaitsAnswer]
      | deliver h => simp [attempts, ChatState.broadcasts, ChatState.AwaitsAnswer]

/-! ## Over every run -/

/-- The answer to a newcomer that is gone is the end of the main process, and so is the exception instead
of an answer. -/
theorem mainAlive_joinAbandoned {maxClients : Nat} (w : Wired s.main s.pipe s.phase)
    (hs : (departing maxClients).step s .joinAbandoned = some s') : s'.mainAlive = false := by
  simp only [departing] at hs
  split at hs
  · next h u rest _ hpipe =>
      cases hs
      have hu : IsName u := w.pipe_name (h, u) (by simp [hpipe])
      rcases hj : s.main.join h u with e | ⟨main, ws⟩
      · rfl
      · rw [Bool.eq_false_iff, Ne, mainAlive_afterMain_iff, ← hj, join_unbroken_iff hu w.online]
        rintro ⟨hgone, -⟩
        have hno : ¬ (s.main.Refuses u ∨ s.main.AckFits) := fun hyes => hgone hyes (update_self ..)
        push Not at hno
        obtain ⟨e, he⟩ := join_of_not_fits h hu.2 w.online hno.1 hno.2
        rw [hj] at he
        cases he
  · cases hs

/-- While the main process lives, no newcomer has been gone. -/
theorem reachable_of_mainAlive {maxClients : Nat} (h : (departing maxClients).Reachable s) :
    s.mainAlive = true → (chat maxClients).Reachable s := by
  apply h.invariant
  · rintro s rfl -
    exact .init rfl
  · intro s t s' ih _ hs halive
    cases t with
    | event e =>
        have hreach := ih (mainAlive_of_step hs halive)
        exact .step hreach trivial hs
    | joinAbandoned =>
        by_cases hmain : s.mainAlive = true
        · rw [mainAlive_joinAbandoned (wired_of_reachable (ih hmain)) hs] at halive
          cases halive
        · simp [departing, hmain] at hs

theorem attempts_unbroken_of_step {maxClients : Nat} {t : Turn}
    (h : (departing maxClients).Reachable s) (hs : (departing maxClients).step s t = some s') :
    (∀ a ∈ attempts s t, a.broken = false) ↔ NobodyGone s t := by
  by_cases hmain : s.mainAlive = true
  · exact attempts_unbroken_iff (wired_of_reachable (reachable_of_mainAlive h hmain)) t
  · -- only handlers take turns
    cases t with
    | joinAbandoned => simp [departing, hmain] at hs
    | event e =>
        cases e with
        | join => simp [departing, chatStep, hmain] at hs
        | serve u => simp [departing, chatStep, hmain] at hs
        | client h input =>
            simp [attempts, NobodyGone, ChatState.broadcasts, ChatState.AwaitsAnswer]
        | deliver h => simp [attempts, NobodyGone, ChatState.broadcasts, ChatState.AwaitsAnswer]

end Turns

/-- **In every run, no write goes to a handler that is gone if and only if at each turn nobody is gone
whom it is for.** -/
theorem writes_find_readers_iff (maxClients : Nat) (ts : List Turn) (s : ChatState)
    (h : (departing maxClients).run (ChatState.start maxClients) ts = some s) :
    (∀ a ∈ (departing maxClients).outputs attempts (ChatState.start maxClients) ts,
        a.broken = false) ↔
      (departing maxClients).Along NobodyGone (ChatState.start maxClients) ts := by
  rw [Machine.forall_outputs_iff h]
  apply Machine.Along.congr (.init rfl) h
  intro s t s' hr hs
  exact attempts_unbroken_of_step hr hs

/-- Everybody is there when `a` sends a message to `b`. -/
theorem writes_find_readers_relayToB :
    ∃ s, (departing 2).run (ChatState.start 2)
        ((relayToB ([1, 0x84, 0, 6, 4, 0, 0, 2] ++ ascii "hi")).map .event) = some s ∧
      ∀ a ∈ (departing 2).outputs attempts (ChatState.start 2)
        ((relayToB ([1, 0x84, 0, 6, 4, 0, 0, 2] ++ ascii "hi")).map .event), a.broken = false := by
  have hrun : (((departing 2).run (ChatState.start 2)
      ((relayToB ([1, 0x84, 0, 6, 4, 0, 0, 2] ++ ascii "hi")).map .event)).map
        ChatState.mainAlive) = some true := by
    decide +kernel
  obtain ⟨s, hs, -⟩ := Option.map_eq_some_iff.mp hrun
  have hiff := writes_find_readers_iff 2 _ s hs
  exact ⟨s, hs, hiff.mpr (by decide +kernel)⟩

/-! ## The order of the names does not help -/

/-- `select` reports the descriptor of a user. -/
def ChatState.Ready (s : ChatState) (p : Bytes × Nat) : Prop :=
  s.up p.2 ≠ [] ∨ s.phase p.2 = .finished

/-- The loop takes the pipe first, and then the first ready FIFO in the order of the names. -/
def Prioritised (s : ChatState) : Turn → Prop
  | .event (.serve u) =>
      s.pipe = [] ∧ ∀ p ∈ s.main.rdFifos.toList, s.Ready p → (compare u p.1).isLE
  | _ => True

instance (s : ChatState) (t : Turn) : Decidable (Prioritised s t) := by
  unfold Prioritised ChatState.Ready
  split <;> infer_instance

/-- Users `a` and `b` join, `b` leaves, and `a`, whose name comes first, has sent a message. -/
def leavesBeforeMessage : List Turn :=
  [.event (.client 0 [1, 0x82, 0, 5, 2, 0, 0, 1, 0x61]), .event .join,
    .event (.client 1 [1, 0x82, 0, 5, 2, 0, 0, 1, 0x62]), .event .join,
    .event (.client 1 []), .event (.client 0 ([1, 0x84, 0, 6, 4, 0, 0, 2] ++ ascii "hi")),
    .event (.serve [0x61])]

/-- The message is written to `b`, and the main process is gone. -/
theorem message_after_leave :
    ∃ s, (departing 2).run (ChatState.start 2) leavesBeforeMessage = some s ∧
      (departing 2).Along Prioritised (ChatState.start 2) leavesBeforeMessage ∧
      ⟨1, true⟩ ∈ (departing 2).outputs attempts (ChatState.start 2) leavesBeforeMessage ∧
      s.mainAlive = false := by
  have hrun : (((departing 2).run (ChatState.start 2) leavesBeforeMessage).map
      ChatState.mainAlive) = some false := by
    decide +kernel
  obtain ⟨s, hs, hgone⟩ := Option.map_eq_some_iff.mp hrun
  have hbroken : (departing 2).outputs attempts (ChatState.start 2) leavesBeforeMessage =
      [⟨0, false⟩, ⟨1, false⟩, ⟨0, false⟩, ⟨1, true⟩] := by
    decide +kernel
  refine ⟨s, hs, by decide +kernel, ?_, hgone⟩
  rw [hbroken]
  simp

end ComputerNetworking.Chat
