/-
# ComputerNetworking.Chat.Delivery -- who gets which messages, and in which order?

The main loop is the one place through which all messages pass, and it takes them one at a time. What
it makes known in one iteration -- a newcomer, a text, a user gone idle or offline -- goes to every
user whose FIFOs it holds, except the one it is about. So between any two moments at which it holds a
handler's FIFOs that handler is told exactly what was announced in between about the others, and all
handlers are told it in the same order.

On the way there no message of a user is lost, doubled or overtaken: what a handler has forwarded and
what the main loop has taken from it differ by what is still in the FIFO. That direction needs no
condition; the other one keeps the condition of `fifo_framing`.
-/
import ComputerNetworking.Chat.FifoFraming
import ComputerNetworking.Chat.Refinement

namespace ComputerNetworking.Chat

open ComputerNetworking.Lib ComputerNetworking.Sbcp Function

/-! ## What a step does with messages -/

namespace ChatState

variable (s : ChatState)

/-- The message a handler puts into its FIFO to the main loop. -/
def forwarding (h : Nat) : Event → List Message
  | .client k input =>
      if k = h ∧ s.holds h then
        match handleClient (s.phase h = .joined) input with
        | .forward m => [m]
        | _ => []
      else []
  | _ => []

/-- The message the main loop takes out of that FIFO, with the name under which it holds it. -/
def serving (h : Nat) : Event → List (Bytes × Message)
  | .serve u =>
      if s.main.rdFifos[u]? = some h then
        match readMessage (s.up h) with
        | .accepted m _ => [(u, m)]
        | _ => []
      else []
  | _ => []

/-- What the main loop makes of a message from `u`, if it relays it. -/
def relayed (p : Bytes × Message) : List Message :=
  match MainLoop.relay p.2 p.1 with
  | .ok (some m) => [m]
  | _ => []

/-- What the main loop announces, with the handler of the user it is about. -/
def announcing : Event → List (Nat × Message)
  | .join =>
      match s.pipe with
      | (h, u) :: _ =>
          if s.main.Refuses u then []
          else (Messages.online u).toOption.toList.map fun m => (h, m)
      | [] => []
  | .serve u =>
      match s.main.rdFifos[u]? with
      | some h =>
          match readMessage (s.up h) with
          | .eof => (Messages.offline u).toOption.toList.map fun m => (h, m)
          | .accepted m _ => (relayed (u, m)).map fun m => (h, m)
          | _ => []
      | none => []
  | _ => []

/-- The part of an announcement that is for handler `k`. -/
def toldTo (k : Nat) (p : Nat × Message) : List Message := if p.1 = k then [] else [p.2]

end ChatState

/-! ## The FIFO to the main loop -/

/-- A message a handler forwards: a SEND or an IDLE that passed its checks. -/
def Forwardable (m : Message) : Prop :=
  ∃ t as, HandlerAccepted m t as ∧ (t = .send ∨ t = .idle)

theorem forwardable_of_forward {fifosCreated : Bool} {input : Bytes} {m : Message}
    (h : handleClient fifosCreated input = .forward m) : Forwardable m := by
  have hact : ∀ m', m'.walk.fault = none → (∃ t as, HandlerAccepted m' t as) →
      actOnClient fifosCreated m' = .forward m → Forwardable m := by
    rintro m' hwalk ⟨t, as, hm'⟩ hf
    simp only [actOnClient, hwalk, hm'.1.getType] at hf
    cases t with
    | join =>
        simp only at hf
        split_ifs at hf
        split at hf <;> cases hf
    | send | idle =>
        simp only at hf
        split_ifs at hf
        cases hf
        exact ⟨_, as, hm', by simp⟩
    | fwd | ack | nak | online | offline => cases hf
  unfold handleClient at h
  cases hread : readMessage input with
  | eof | aborted =>
      rw [hread] at h
      cases h
  | rejected rest =>
      rw [hread] at h
      exact absurd h (by simp [actOnClient_fault (headerOnly_walk hread)])
  | accepted m' rest =>
      rw [hread] at h
      by_cases hwalk : m'.walk.fault = none
      · exact hact m' hwalk (handlerAccepted_of_read hread hwalk) h
      · simp only [actOnClient_fault hwalk] at h
        cases h

theorem Forwardable.framed {m : Message} (h : Forwardable m) : messageFraming.Valid m := by
  obtain ⟨t, as, hacc, -⟩ := h
  exact hacc.framed

/-- The FIFO from a handler carries such messages. -/
def forwardFraming : Framing Message UInt8 :=
  messageFraming.restrict Forwardable fun _ => Forwardable.framed

/-- Every handler has written whole messages only. -/
def UpWhole (s : ChatState) : Prop := ∀ h, forwardFraming.Whole (s.up h)

/-- The messages a handler has forwarded and the main loop has not taken yet. -/
def ChatState.pendingUp (s : ChatState) (h : Nat) : List Message := forwardFraming.contents (s.up h)

/-- The messages the main loop has written to a handler that has not read them yet. -/
def ChatState.pendingDown (s : ChatState) (h : Nat) : List Message :=
  messageFraming.contents (s.down h)

section Up

variable {s s' : ChatState} {h : Nat}

theorem afterMain_up (sender : Option (Nat × Bytes)) (r : Except Fault (MainLoop × List Write)) :
    (s.afterMain sender r).up = s.up := by
  rcases r with e | ⟨main, ws⟩
  · rfl
  · rfl

theorem afterMain_pipe (sender : Option (Nat × Bytes)) (r : Except Fault (MainLoop × List Write)) :
    (s.afterMain sender r).pipe = s.pipe := by
  rcases r with e | ⟨main, ws⟩
  · rfl
  · rfl

/-- Serving a FIFO of whole messages takes the first one off, if there is one. -/
theorem serve_up (hup : forwardFraming.Whole (s.up h)) {u : Bytes}
    (hget : s.main.rdFifos[u]? = some h) :
    forwardFraming.Whole (readMessage (s.up h)).rest ∧
      s.pendingUp h =
        (s.serving h (.serve u)).map Prod.snd ++
          forwardFraming.contents (readMessage (s.up h)).rest := by
  unfold ChatState.pendingUp
  rcases hup.read_cases with ⟨hempty, hread⟩ | ⟨m, rest, hread, -, -, hrest, hcontents⟩
  · have hread' : readMessage (s.up h) = .eof := hread
    simp only [ChatState.serving, hget, hread', if_true]
    rw [hempty]
    exact ⟨Framing.whole_nil, rfl⟩
  · have hread' : readMessage (s.up h) = .accepted m rest := hread
    simp only [ChatState.serving, hget, hread', if_true]
    exact ⟨hrest, hcontents⟩

/-- A handler forwards at most one message in a turn. -/
theorem forwarding_cases (s : ChatState) (h : Nat) (e : Event) :
    s.forwarding h e = [] ∨ ∃ m, s.forwarding h e = [m] ∧ Forwardable m := by
  cases e with
  | client k input =>
      simp only [ChatState.forwarding]
      by_cases hk : k = h ∧ s.holds h
      case neg => exact .inl (if_neg hk)
      case pos =>
        rw [if_pos hk]
        cases hact : handleClient (s.phase h = .joined) input with
        | finish | bootstrap u | nothing => exact .inl rfl
        | forward m => exact .inr ⟨m, rfl, forwardable_of_forward hact⟩
  | join => exact .inl rfl
  | serve u => exact .inl rfl
  | deliver k => exact .inl rfl

/-- What a handler forwards goes to the end of its FIFO. -/
theorem client_up {k : Nat} {input : Bytes} (hs : chatStep s (.client k input) = some s') (h : Nat) :
    s'.up h = s.up h ++ (s.forwarding h (.client k input)).flatMap Message.wire := by
  unfold chatStep at hs
  by_cases hphase : s.phase k = .connected ∨ s.phase k = .joined
  case neg =>
    simp only [if_neg hphase] at hs
    cases hs
  simp only [if_pos hphase] at hs
  simp only [ChatState.forwarding]
  by_cases hk : k = h
  case neg =>
    -- another handler's turn
    rw [if_neg fun hh => hk hh.1, List.flatMap_nil, List.append_nil]
    cases hact : handleClient (s.phase k = .joined) input with
    | finish | bootstrap u | nothing =>
        rw [hact] at hs
        cases hs
        rfl
    | forward m =>
        simp only [hact] at hs
        split_ifs at hs <;> cases hs
        · exact update_of_ne (Ne.symm hk) _ _
        · rfl
  case pos =>
    subst hk
    cases hact : handleClient (s.phase k = .joined) input with
    | finish | bootstrap u | nothing =>
        rw [hact] at hs
        cases hs
        simp [ChatState.finish]
    | forward m =>
        simp only [hact] at hs
        by_cases hholds : s.holds k
        · rw [if_pos hholds] at hs
          cases hs
          simp [hholds]
        · rw [if_neg hholds] at hs
          cases hs
          simp [hholds, ChatState.finish]

/-- **One step on the FIFO of a handler**: what was in it and what the handler forwards is what the main
loop takes and what is left. -/
theorem up_step (hup : UpWhole s) {e : Event} (hs : chatStep s e = some s') (h : Nat) :
    forwardFraming.Whole (s'.up h) ∧
      s.pendingUp h ++ s.forwarding h e =
        (s.serving h e).map Prod.snd ++ s'.pendingUp h := by
  unfold ChatState.pendingUp
  cases e with
  | client k input =>
      rw [client_up hs h]
      show _ ∧ _ = [] ++ _
      rw [List.nil_append]
      rcases forwarding_cases s h (.client k input) with hnone | ⟨m, hone, hvalid⟩
      · rw [hnone, List.flatMap_nil, List.append_nil, List.append_nil]
        exact ⟨hup h, rfl⟩
      · rw [hone, List.flatMap_singleton]
        obtain ⟨hwhole, hcontents⟩ := (hup h).write hvalid
        exact ⟨hwhole, hcontents.symm⟩
  | join =>
      obtain ⟨k, u, rest, -, rfl⟩ := step_join hs
      rw [afterMain_up]
      exact ⟨hup h, List.append_nil _⟩
  | serve u =>
      obtain ⟨k, hget, rfl⟩ := step_serve hs
      rw [afterMain_up]
      show forwardFraming.Whole (update s.up k _ h) ∧
        _ ++ [] = _ ++ forwardFraming.contents (update s.up k _ h)
      rw [List.append_nil]
      by_cases hk : k = h
      · subst hk
        rw [update_self]
        exact serve_up (hup k) hget
      · have hne : s.main.rdFifos[u]? ≠ some h := by
          rw [hget]
          exact fun heq => hk (Option.some.inj heq)
        rw [update_of_ne (Ne.symm hk)]
        simp only [ChatState.serving, if_neg hne]
        exact ⟨hup h, rfl⟩
  | deliver k =>
      have hsame : s'.up = s.up := by
        rcases step_deliver hs with ⟨-, ⟨-, rfl⟩ | ⟨rest, -, rfl⟩ | ⟨m, rest, -, rfl⟩⟩ <;> rfl
      rw [hsame]
      exact ⟨hup h, List.append_nil _⟩

theorem upWhole_of_reachable {maxClients : Nat} {G : ChatState → Event → Prop} {s : ChatState}
    (h : (chat maxClients).ReachableUnder G s) : UpWhole s := by
  apply h.invariant
  · rintro s rfl
    exact fun _ => Framing.whole_nil
  · intro s e s' hup _ hs k
    exact (up_step hup hs k).1

end Up

/-! ## Being in the room -/

/-- The main loop has opened the handler's FIFOs, be the handler still there or not. -/
def Entered (k : Nat) (s : ChatState) : Prop := s.phase k = .joined ∨ s.phase k = .finished

section Presence

variable {s s' : ChatState} {k : Nat}

theorem holds_iff :
    s.holds k = true ↔ s.mainAlive = true ∧ ∃ v : Bytes, s.main.wrFifos[v]? = some k := by
  unfold ChatState.holds
  rw [Bool.and_eq_true, List.any_eq_true]
  apply and_congr_right
  intro _
  constructor
  · rintro ⟨⟨v, h⟩, hmem, hh⟩
    rw [beq_iff_eq] at hh
    subst hh
    exact ⟨v, Std.TreeMap.mem_toList_iff_getElem?_eq_some.mp hmem⟩
  · rintro ⟨v, hv⟩
    exact ⟨(v, k), Std.TreeMap.mem_toList_iff_getElem?_eq_some.mpr hv, beq_self_eq_true k⟩

theorem entered_of_holds (w : Wired s.main s.pipe s.phase) (h : s.holds k = true) : Entered k s := by
  obtain ⟨-, v, hv⟩ := holds_iff.mp h
  exact w.registered v k hv

theorem entered_update {h : Nat} {p : Phase} (hk : Entered k s)
    (hp : h = k → p = .joined ∨ p = .finished) :
    update s.phase h p k = .joined ∨ update s.phase h p k = .finished := by
  by_cases hh : h = k
  · rw [hh, update_self]
    exact hp hh
  · rw [update_of_ne (Ne.symm hh)]
    exact hk

theorem entered_step {e : Event} (hs : chatStep s e = some s') (hk : Entered k s) :
    Entered k s' := by
  cases e with
  | client h input =>
      rcases step_client hs with rfl | ⟨rfl, -⟩ | ⟨u, -, hconn, rfl⟩ | ⟨m, -, rfl⟩
      · exact hk
      · exact entered_update hk fun _ => .inr rfl
      · -- who is connecting has not entered
        refine entered_update hk fun hh => ?_
        rw [hh] at hconn
        rcases hk with hp | hp <;> rw [hconn] at hp <;> cases hp
      · exact hk
  | join =>
      obtain ⟨h, u, rest, -, rfl⟩ := step_join hs
      rw [Entered, afterMain_phase]
      exact entered_update hk fun _ => .inl rfl
  | serve u =>
      obtain ⟨h, -, rfl⟩ := step_serve hs
      rw [Entered, afterMain_phase]
      exact hk
  | deliver h =>
      obtain ⟨-, ⟨-, rfl⟩ | ⟨rest, -, rfl⟩ | ⟨m, rest, -, rfl⟩⟩ := step_deliver hs
      · exact entered_update hk fun _ => .inr rfl
      · exact hk
      · exact hk

/-- A handler that has ended does not come back. -/
theorem finished_step (w : Wired s.main s.pipe s.phase) {e : Event} (hs : chatStep s e = some s')
    (hk : s.phase k = .finished) : s'.phase k = .finished := by
  have hstays : ∀ {h : Nat} {p : Phase}, h ≠ k ∨ p = .finished → update s.phase h p k = .finished := by
    intro h p hp
    by_cases hh : h = k
    · rw [hh, update_self]
      exact hp.resolve_left fun hne => hne hh
    · rw [update_of_ne (Ne.symm hh)]
      exact hk
  cases e with
  | client h input =>
      rcases step_client hs with rfl | ⟨rfl, -⟩ | ⟨u, -, hconn, rfl⟩ | ⟨m, -, rfl⟩
      · exact hk
      · exact hstays (.inr rfl)
      · refine hstays (.inl fun hh => ?_)
        rw [hh, hk] at hconn
        cases hconn
      · exact hk
  | join =>
      obtain ⟨h, u, rest, hpipe, rfl⟩ := step_join hs
      have hwait := w.pipe_waiting (h, u) (by rw [hpipe]; exact List.mem_cons_self ..)
      rw [afterMain_phase]
      refine hstays (.inl fun hh => ?_)
      rw [show (h, u).1 = k from hh, hk] at hwait
      cases hwait
  | serve u =>
      obtain ⟨h, -, rfl⟩ := step_serve hs
      rw [afterMain_phase]
      exact hk
  | deliver h =>
      obtain ⟨-, ⟨-, rfl⟩ | ⟨rest, -, rfl⟩ | ⟨m, rest, -, rfl⟩⟩ := step_deliver hs
      · exact hstays (.inr rfl)
      · exact hk
      · exact hk

/-- Nobody who has entered is taken in a second time. -/
theorem holds_of_step (w : Wired s.main s.pipe s.phase) {e : Event} (hs : chatStep s e = some s')
    (hk : Entered k s) (hh : s'.holds k = true) : s.holds k = true := by
  obtain ⟨halive', v, hv⟩ := holds_iff.mp hh
  have halive := mainAlive_of_step hs halive'
  refine holds_iff.mpr ⟨halive, v, ?_⟩
  cases e with
  | client h input =>
      rcases step_client hs with rfl | ⟨rfl, -⟩ | ⟨u, -, -, rfl⟩ | ⟨m, -, rfl⟩ <;> exact hv
  | join =>
      obtain ⟨h, u, rest, hpipe, rfl⟩ := step_join hs
      obtain ⟨main, ws, hr, hmain, -⟩ := afterMain_alive halive'
      rw [hmain] at hv
      have hmem : (h, u) ∈ s.pipe := by
        rw [hpipe]
        exact List.mem_cons_self ..
      rcases join_main (w.pipe_name _ hmem) w.online hr with rfl | rfl
      · exact hv
      · -- the newcomer was waiting
        rw [MainLoop.insertUser_wrFifos] at hv
        split_ifs at hv with huv
        · cases hv
          have hwait := w.pipe_waiting _ hmem
          rcases hk with hp | hp <;> rw [hwait] at hp <;> cases hp
        · exact hv
  | serve u =>
      obtain ⟨h, hget, rfl⟩ := step_serve hs
      obtain ⟨main, ws, hr, hmain, -⟩ := afterMain_alive halive'
      rw [hmain] at hv
      rcases serve_main (w.name u h (by rw [← w.same]; exact hget)) hr with rfl | rfl
      · exact hv
      · rw [MainLoop.eraseUser_wrFifos] at hv
        split_ifs at hv
        exact hv
  | deliver h =>
      obtain ⟨-, ⟨-, rfl⟩ | ⟨rest, -, rfl⟩ | ⟨m, rest, -, rfl⟩⟩ := step_deliver hs <;> exact hv

end Presence

/-! ## Announcements -/

section Announcements

variable {main main' : MainLoop} {ws : List Write} {h k : Nat} {u v : Bytes}

/-- A newcomer is refused by a message to him alone, or announced to the others. -/
theorem join_announces (hs : main.join h u = .ok (main', ws)) :
    (main.Refuses u ∧ ∃ nak, ws = [⟨h, nak⟩]) ∨
      (¬ main.Refuses u ∧ ∃ ack online, Messages.online u = .ok online ∧
        ws = ⟨h, ack⟩ :: writeAllExcept (main.insertUser h u).wrFifos online u) := by
  unfold MainLoop.join at hs
  unfold MainLoop.Refuses
  by_cases hdup : main.rdFifos.contains u
  · rw [if_pos hdup] at hs
    obtain ⟨nak, -, hok⟩ := bind_eq_ok.mp hs
    cases hok
    exact .inl ⟨.inl hdup, nak, rfl⟩
  · rw [if_neg hdup] at hs
    by_cases hfull : main.onlineUsers.length = main.maxClients
    · rw [if_pos hfull] at hs
      obtain ⟨nak, -, hok⟩ := bind_eq_ok.mp hs
      cases hok
      exact .inl ⟨.inr hfull, nak, rfl⟩
    · rw [if_neg hfull] at hs
      obtain ⟨ack, -, hrest⟩ := bind_eq_ok.mp hs
      obtain ⟨online, honline, hok⟩ := bind_eq_ok.mp hrest
      cases hok
      exact .inr ⟨by simp [hdup, hfull], ack, online, honline, rfl⟩

/-- A message that is acted on is relayed to the others or to nobody. -/
theorem actOn_announces {m : Message} (hs : main.actOn u m = .ok (main', ws)) :
    main' = main ∧ ∃ m? : Option Message, MainLoop.relay m u = .ok m? ∧
      ws = m?.toList.flatMap fun m' => writeAllExcept main.wrFifos m' u := by
  unfold MainLoop.actOn at hs
  split at hs
  · cases hs
  · obtain ⟨m?, hrelay, hok⟩ := bind_eq_ok.mp hs
    cases m? with
    | none =>
        cases hok
        exact ⟨rfl, none, hrelay, rfl⟩
    | some m' =>
        cases hok
        refine ⟨rfl, some m', hrelay, ?_⟩
        rw [Option.toList_some, List.flatMap_singleton]

/-- What is written to everybody but `u` reaches a registered handler once, unless it is `u`'s. -/
theorem writesTo_others {fifos : Fifos} (m : Message) (hv : fifos[v]? = some k)
    (hone : ∀ w : Bytes, fifos[w]? = some k → w = v) (hu : u = v ↔ h = k) :
    ChatState.writesTo k (writeAllExcept fifos m u) = ChatState.toldTo k (h, m) := by
  rw [writesTo_writeAllExcept hv hone]
  unfold ChatState.toldTo
  by_cases huv : u = v
  · rw [if_pos huv.symm, if_pos (hu.mp huv)]
  · rw [if_neg fun hh => huv hh.symm, if_neg fun hh => huv (hu.mpr hh)]

end Announcements

section Told

variable {s s' : ChatState} {k : Nat}

theorem written_afterMain {sender : Option (Nat × Bytes)} {r : Except Fault (MainLoop × List Write)}
    (halive : (s.afterMain sender r).mainAlive = true) :
    ∃ main ws, r = .ok (main, ws) ∧ (s.afterMain sender r).main = main ∧
      ((s.afterMain sender r).written k).map Relay.message =
        (s.written k).map Relay.message ++ ChatState.writesTo k ws := by
  obtain ⟨main, ws, hr, hmain, hwritten⟩ := afterMain_alive halive
  refine ⟨main, ws, hr, hmain, ?_⟩
  rw [hwritten, List.map_append, List.map_map]
  congr 1
  exact List.map_id _

/-- **One step tells a handler what it announces about others**, as long as the main loop holds the
handler's FIFOs before and after it. -/
theorem told_step (w : Wired s.main s.pipe s.phase) (hup : UpWhole s) {e : Event}
    (hs : chatStep s e = some s') (hk : s.holds k = true) (hk' : s'.holds k = true) :
    (s'.written k).map Relay.message =
      (s.written k).map Relay.message ++ (s.announcing e).flatMap (ChatState.toldTo k) := by
  obtain ⟨-, v, hv⟩ := holds_iff.mp hk
  obtain ⟨halive, v', hv'⟩ := holds_iff.mp hk'
  have hone : ∀ x : Bytes, s.main.wrFifos[x]? = some k → x = v := fun x hx => w.injective x v k hx hv
  cases e with
  | client h input =>
      have hsame : s'.written = s.written := by
        rcases step_client hs with rfl | ⟨rfl, -⟩ | ⟨u, -, -, rfl⟩ | ⟨m, -, rfl⟩ <;> rfl
      rw [hsame]
      exact (List.append_nil _).symm
  | join =>
      obtain ⟨h, u, rest, hpipe, rfl⟩ := step_join hs
      obtain ⟨main, ws, hr, -, hwritten⟩ := written_afterMain (k := k) halive
      have hmem : (h, u) ∈ s.pipe := by
        rw [hpipe]
        exact List.mem_cons_self ..
      -- the newcomer's handler is registered under no name yet
      have hne : h ≠ k := by
        rintro rfl
        have hwait := w.pipe_waiting _ hmem
        exact w.unregistered (by rw [hwait]; decide) (by rw [hwait]; decide) v hv
      rw [hwritten]
      congr 1
      simp only [ChatState.announcing, hpipe]
      rcases join_announces hr with ⟨href, nak, rfl⟩ | ⟨hacc, ack, online, honline, rfl⟩
      · rw [if_pos href, writesTo_cons, if_neg hne]
        rfl
      · have huv : u ≠ v := by
          rintro rfl
          have hin : s.main.rdFifos.contains u = true := by
            rw [Std.TreeMap.contains_eq_isSome_getElem?, w.same, hv]
            rfl
          exact hacc (.inl hin)
        have hvins : (s.main.insertUser h u).wrFifos[v]? = some k := by
          rw [MainLoop.insertUser_wrFifos, if_neg huv, hv]
        have honeins : ∀ x : Bytes, (s.main.insertUser h u).wrFifos[x]? = some k → x = v := by
          intro x hx
          rw [MainLoop.insertUser_wrFifos] at hx
          split_ifs at hx with hux
          · exact absurd (Option.some.inj hx) hne
          · exact hone x hx
        rw [if_neg hacc, honline, writesTo_cons, if_neg hne,
          writesTo_others online hvins honeins (iff_of_false huv hne)]
        simp [Except.toOption]
  | serve u =>
      obtain ⟨h, hget, rfl⟩ := step_serve hs
      have huh : s.main.wrFifos[u]? = some h := by
        rw [← w.same]
        exact hget
      have huv : u = v ↔ h = k := by
        constructor
        · rintro rfl
          exact Option.some.inj (huh.symm.trans hv)
        · rintro rfl
          exact hone u huh
      obtain ⟨main, ws, hr, hmain, hwritten⟩ := written_afterMain (k := k) halive
      rw [hwritten]
      congr 1
      simp only [ChatState.announcing, hget]
      rcases MainLoop.serve_cases hr with ⟨hread, hdis⟩ | ⟨m, rest, t, as, hread, -, hact⟩
      · -- the user is gone, and it is not the one whose handler is still held
        have hu : IsName u := w.name u h huh
        obtain ⟨rfl, -⟩ := MainLoop.disconnect_cases hu hdis
        rw [hmain, MainLoop.eraseUser_wrFifos] at hv'
        split_ifs at hv' with hux
        have hvx : v' = v := hone v' hv'
        rw [hvx] at hux hv'
        unfold MainLoop.disconnect at hdis
        obtain ⟨offline, hoff, hok⟩ := bind_eq_ok.mp hdis
        cases hok
        have hvera : (s.main.eraseUser u).wrFifos[v]? = some k := by
          rw [MainLoop.eraseUser_wrFifos, if_neg hux, hv]
        have honeera : ∀ x : Bytes, (s.main.eraseUser u).wrFifos[x]? = some k → x = v := by
          intro x hx
          rw [MainLoop.eraseUser_wrFifos] at hx
          split_ifs at hx
          exact hone x hx
        rw [hread, hoff, writesTo_writeAll hvera honeera]
        have hne : h ≠ k := fun hh => hux (huv.mpr hh)
        simp [Except.toOption, ChatState.toldTo, hne]
      · obtain ⟨-, m?, hrelay, rfl⟩ := actOn_announces hact
        rw [hread]
        simp only [ChatState.relayed, hrelay]
        cases m? with
        | none => rfl
        | some m' =>
            rw [Option.toList_some, List.flatMap_singleton, writesTo_others m' hv hone huv]
            simp
  | deliver h =>
      have hsame : s'.written = s.written := by
        rcases step_deliver hs with ⟨-, ⟨-, rfl⟩ | ⟨rest, -, rfl⟩ | ⟨m, rest, -, rfl⟩⟩ <;> rfl
      rw [hsame]
      exact (List.append_nil _).symm

end Told

/-- The texts and idle notices among the announcements about the user of a handler. -/
def ChatState.relaysOf (h : Nat) (p : Nat × Message) : List Message :=
  if p.1 = h ∧ (p.2.getType = some .fwd ∨ p.2.getType = some .idle) then [p.2] else []

/-- What becomes of a message that is relayed. -/
theorem relay_packed {m : Message} {t : MessageType} {as : List Attr} (hacc : HandlerAccepted m t as)
    (ht : t = .send ∨ t = .idle) {u : Bytes} (hu : IsName u) :
    ∃ m', MainLoop.relay m u = .ok (some m') ∧
      ((t = .send ∧ HandlerAccepted m' .fwd (as ++ [usernameAttr u hu.2])) ∨
        (t = .idle ∧ Packed m' .idle (as ++ [usernameAttr u hu.2]))) := by
  rcases ht with rfl | rfl
  · obtain ⟨m', hm', hp, hlimit⟩ := changeToFwd_packed hacc.1 hacc.2 hu.2
    refine ⟨m', ?_, .inl ⟨rfl, hp, hlimit⟩⟩
    simp only [MainLoop.relay, hacc.1.getType, hm', Messages.returning, bind, Except.bind]
  · have hlimit : (encodeAttrs as).length ≤ 4 + 16 := hacc.2
    have hlen : u.length ≤ 16 := hu.2
    obtain ⟨m', hm', hp⟩ := addUsername_packed hacc.1 hu.2 hacc.2
      (by simp only [attributeHeaderSize, sbcpMaxPayloadLength]; omega)
    -- a name holds no NUL, so `c_str()` does not cut it
    have hcstr : u.takeWhile (· ≠ 0) = u := by
      rw [List.takeWhile_eq_self_iff]
      intro b hb
      simpa using fun h0 : b = 0 => hu.1 (h0 ▸ hb)
    refine ⟨m', ?_, .inr ⟨rfl, hp⟩⟩
    simp only [MainLoop.relay, hacc.1.getType, hcstr, hm', Messages.returning, bind, Except.bind]

/-- The main loop can relay whatever a handler forwards. -/
theorem relay_forwardable {m : Message} (hm : Forwardable m) {u : Bytes} (hu : IsName u) :
    ∃ m', MainLoop.relay m u = .ok (some m') ∧
      (m'.getType = some .fwd ∨ m'.getType = some .idle) := by
  obtain ⟨t, as, hacc, ht⟩ := hm
  obtain ⟨m', hm', ⟨-, hfwd⟩ | ⟨-, hidle⟩⟩ := relay_packed hacc ht hu
  · exact ⟨m', hm', .inl hfwd.1.getType⟩
  · exact ⟨m', hm', .inr hidle.getType⟩

/-- Of each message the main loop takes from a handler it announces one thing. -/
theorem relays_step {s s' : ChatState} (w : Wired s.main s.pipe s.phase) (hup : UpWhole s) {e : Event}
    (hs : chatStep s e = some s') (h : Nat) :
    List.Forall₂ (fun p m' => MainLoop.relay p.2 p.1 = .ok (some m')) (s.serving h e)
      ((s.announcing e).flatMap (ChatState.relaysOf h)) := by
  cases e with
  | client k input => exact .nil
  | deliver k => exact .nil
  | join =>
      obtain ⟨k, u, rest, hpipe, -⟩ := step_join hs
      have hu : IsName u := w.pipe_name (k, u) (by rw [hpipe]; exact List.mem_cons_self ..)
      obtain ⟨m, hm, hp⟩ := online_packed hu.2
      have hnone : (s.announcing .join).flatMap (ChatState.relaysOf h) = [] := by
        simp only [ChatState.announcing, hpipe, hm]
        split_ifs
        · rfl
        · simp [Except.toOption, ChatState.relaysOf, hp.getType]
      rw [hnone]
      exact .nil
  | serve u =>
      obtain ⟨k, hget, -⟩ := step_serve hs
      have hu : IsName u := w.name u k (by rw [← w.same]; exact hget)
      simp only [ChatState.serving, ChatState.announcing, hget, Option.some.injEq]
      rcases (hup k).read_cases with ⟨-, hread⟩ | ⟨m, rest, hread, hm, -, -, -⟩
      · -- the end of a FIFO
        have hread' : readMessage (s.up k) = .eof := hread
        obtain ⟨m, hm, hp⟩ := offline_packed hu.2
        have hnone : ChatState.relaysOf h (k, m) = [] := by
          simp [ChatState.relaysOf, hp.getType]
        have hserved : (if k = h then match readMessage (s.up h) with
            | .accepted m _ => [(u, m)]
            | _ => [] else []) = [] := by
          split_ifs with hk
          · rw [← hk, hread']
          · rfl
        rw [hserved, hread', hm]
        simp only [Except.toOption, Option.toList_some, List.map_cons, List.map_nil,
          List.flatMap_singleton, hnone]
        exact .nil
      · have hread' : readMessage (s.up k) = .accepted m rest := hread
        obtain ⟨m', hm', htype⟩ := relay_forwardable hm hu
        simp only [hread', ChatState.relayed, hm', List.map_cons, List.map_nil,
          List.flatMap_singleton]
        by_cases hk : k = h
        · subst hk
          simp only [if_true, hread', ChatState.relaysOf, htype, and_self]
          exact .cons hm' .nil
        · simp only [ChatState.relaysOf, hk, false_and, if_false]
          exact .nil

/-! ## Over a run -/

section Runs

variable {maxClients : Nat} {G : ChatState → Event → Prop} {s s' : ChatState} {es : List Event}
  {h k : Nat}

/-- Whoever is held at both ends is held all along. -/
theorem along_holds (hr : (chat maxClients).ReachableUnder G s) (hG : (chat maxClients).Along G s es)
    (hs : (chat maxClients).run s es = some s') (hk : s.holds k = true) (hk' : s'.holds k = true) :
    (chat maxClients).Along
      (fun s e => Entered k s ∧ s.holds k = true ∧
        ∀ s', chatStep s e = some s' → s'.holds k = true) s es :=
  (Machine.Along.between (P := Entered k) (Q := fun s => s.holds k = true) hr hG hs
    (entered_of_holds (wired_of_reachable hr) hk) hk'
    (fun _ _ _ _ hP hs => entered_step hs hP)
    (fun _ _ _ hr hP hs hQ => holds_of_step (wired_of_reachable hr) hs hP hQ)).2

/-- What a handler has been told over a run. -/
theorem told (hr : (chat maxClients).ReachableUnder G s) (hG : (chat maxClients).Along G s es)
    (hs : (chat maxClients).run s es = some s') (hk : s.holds k = true) (hk' : s'.holds k = true) :
    (s'.written k).map Relay.message = (s.written k).map Relay.message ++
      ((chat maxClients).outputs ChatState.announcing s es).flatMap (ChatState.toldTo k) := by
  rw [Machine.outputs_flatMap hs]
  exact Machine.outputs_append (fun s => (s.written k).map Relay.message) hr hG
    (along_holds hr hG hs hk hk') hs
    (fun s e s' hr _ hh hs => told_step (wired_of_reachable hr) (upWhole_of_reachable hr) hs hh.2.1
      (hh.2.2 s' hs))

/-- What a handler has passed on to its client and what it has still to read is what it was sent. -/
theorem delivered_append_pending (hr : (chat maxClients).ReachableUnder IdleFits s) (k : Nat) :
    s.delivered k ++ s.pendingDown k = (s.written k).map Relay.message := by
  have f := framed_of_reachable hr k
  have hsync := f.inSync
  rw [f.delivered] at hsync
  exact hsync.append_contents

/-- **The chat server is a totally ordered broadcast.** Between two moments of a run at which the main loop
holds a handler's FIFOs, what that handler passes on to its client, allowing for what is still in the
FIFO, is what the main loop announced in between about the others' users, in the order in which it
announced it to all. -/
theorem broadcast (maxClients : Nat) (s s' : ChatState) (es : List Event)
    (hr : (chat maxClients).ReachableUnder IdleFits s)
    (hG : (chat maxClients).Along IdleFits s es) (hs : (chat maxClients).run s es = some s')
    (k : Nat) (hk : s.holds k = true) (hk' : s'.holds k = true) :
    s'.delivered k ++ s'.pendingDown k = (s.delivered k ++ s.pendingDown k) ++
      ((chat maxClients).outputs ChatState.announcing s es).flatMap (ChatState.toldTo k) := by
  rw [delivered_append_pending hr, delivered_append_pending (hr.run hG hs)]
  exact told hr hG hs hk hk'

end Runs

/-- Users `a` and `b` have joined. -/
def aAndB : List Event := (relayToB []).take 4

/-- What `a` sends next reaches `b`. -/
def aToB (input : Bytes) : List Event := (relayToB input).drop 4

/-- A text from `a` is announced to `b`. -/
theorem broadcast_text :
    ∃ s s', (chat 2).run (ChatState.start 2) aAndB = some s ∧
      (chat 2).run s (aToB ([1, 0x84, 0, 6, 4, 0, 0, 2] ++ ascii "hi")) = some s' ∧
      s'.delivered 1 ++ s'.pendingDown 1 = (s.delivered 1 ++ s.pendingDown 1) ++
        ((chat 2).outputs ChatState.announcing s
          (aToB ([1, 0x84, 0, 6, 4, 0, 0, 2] ++ ascii "hi"))).flatMap (ChatState.toldTo 1) := by
  have hrun : (((chat 2).run (ChatState.start 2) aAndB).any fun s =>
      s.holds 1 && decide ((chat 2).Along IdleFits (ChatState.start 2) aAndB) &&
        decide ((chat 2).Along IdleFits s (aToB ([1, 0x84, 0, 6, 4, 0, 0, 2] ++ ascii "hi"))) &&
        ((chat 2).run s (aToB ([1, 0x84, 0, 6, 4, 0, 0, 2] ++ ascii "hi"))).any fun s' =>
          s'.holds 1) = true := by
    decide +kernel
  obtain ⟨s, hs, hrest⟩ := (Option.any_eq_true _ _).mp hrun
  rw [Bool.and_eq_true, Bool.and_eq_true, Bool.and_eq_true] at hrest
  obtain ⟨⟨⟨hk, hG⟩, hG'⟩, hrest⟩ := hrest
  obtain ⟨s', hs', hk'⟩ := (Option.any_eq_true _ _).mp hrest
  exact ⟨s, s', hs, hs', broadcast 2 s s' _ (.run (.init rfl) (of_decide_eq_true hG) hs)
    (of_decide_eq_true hG') hs' 1 hk hk'⟩

end ComputerNetworking.Chat
