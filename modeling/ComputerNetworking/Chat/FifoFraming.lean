/-
# ComputerNetworking.Chat.FifoFraming -- do the FIFOs keep messages apart?

The main loop validates a message before it relays it and then edits it: SEND becomes FWD, and both
SEND and IDLE get the sender's name appended. SEND's limit leaves room for that. IDLE's does not:
`add_username` checks the old payload against IDLE's limit of 20 bytes and the new one against the
buffer's 1024, so an IDLE that was not empty can leave with a payload no receiver accepts. Its
receiver takes the header, turns it down, and reads the payload as headers.

`fifo_framing` is the law for every run whose relayed IDLE messages stay within IDLE's limit with
the name appended: what a handler has read and what it will read is what the main loop wrote.
-/
import ComputerNetworking.Chat.Wiring

namespace ComputerNetworking.Chat

open ComputerNetworking.Lib ComputerNetworking.Sbcp Function

/-! ## The law and its condition -/

/-- What the handler's reads from the main loop have given and will give is what the main loop has
written to it, each message accepted by `validate()`. -/
def KeepsFrames (s : ChatState) (h : Nat) : Prop :=
  s.outcomes h ++ messageFraming.drain (s.down h) =
      (s.written h).map (fun r => Outcome.accepted r.message) ∧
    ∀ r ∈ s.written h, r.message.validate = .ok ()

/-- The sender and the message an event is about to relay, if there is anybody to relay it to. -/
def ChatState.relaying (s : ChatState) : Event → Option (Bytes × Message)
  | .serve u =>
      match s.main.rdFifos[u]? with
      | some h =>
          match readMessage (s.up h) with
          | .accepted m _ =>
              if s.main.wrFifos.toList.all fun pair => pair.1 = u then none else some (u, m)
          | _ => none
      | none => none
  | _ => none

/-- A relayed IDLE has room for the sender's name within IDLE's own limit. -/
def IdleFits (s : ChatState) (e : Event) : Prop :=
  ∀ p ∈ s.relaying e, p.2.getType = some .idle →
    p.2.getLength + (attributeHeaderSize + p.1.length) ≤ Message.payloadLimit .idle

instance (s : ChatState) (e : Event) : Decidable (IdleFits s e) := by
  unfold IdleFits
  infer_instance

/-! ## What is written -/

/-- The answers to a bootstrap message pass every handler's checks. -/
theorem join_writes {s s' : MainLoop} {ws : List Write} {h : Nat} {u : Bytes} (hu : IsName u)
    (honline : ∀ v ∈ s.onlineUsers, IsName v) (hs : s.join h u = .ok (s', ws)) :
    ∀ w ∈ ws, ∃ t as, HandlerAccepted w.message t as ∧ t ≠ .fwd ∧ t ≠ .idle := by
  intro w hw
  rcases MainLoop.join_cases hu.2 honline hs with
    ⟨-, -, nak, as, rfl, hnak⟩ | ⟨-, -, ack, online, rfl, ⟨-, names, -, -, hack⟩, honl⟩
  · rw [List.mem_singleton.mp hw]
    exact ⟨_, _, hnak, by decide, by decide⟩
  · rcases List.mem_cons.mp hw with rfl | hw
    · exact ⟨_, _, hack, by decide, by decide⟩
    · rw [(mem_writeAllExcept.mp hw).1]
      exact ⟨_, _, honl, by decide, by decide⟩

/-- What serving a FIFO can write: an OFFLINE to everybody, or the relayed message, its sender's name
last, to everybody but the sender. -/
theorem serve_writes {s s' : MainLoop} {ws : List Write} {u input : Bytes} (hu : IsName u)
    (hs : s.serve u input = .ok (s', ws)) :
    (∀ w ∈ ws, HandlerAccepted w.message .offline [usernameAttr u hu.2]) ∨
      ∃ m rest t as t', readMessage input = .accepted m rest ∧ HandlerAccepted m t as ∧
        (∀ w ∈ ws, Packed w.message t' (as ++ [usernameAttr u hu.2]) ∧
          ∃ v : Bytes, v ≠ u ∧ s.wrFifos[v]? = some w.fifo) ∧
        ((t = .send ∧ t' = .fwd ∧ (encodeAttrs (as ++ [usernameAttr u hu.2])).length ≤
            Message.payloadLimit .fwd) ∨
          (t = .idle ∧ t' = .idle)) := by
  rcases MainLoop.serve_cases hs with ⟨-, hd⟩ | ⟨m, rest, t, as, hread, hm, hact⟩
  · obtain ⟨-, offline, rfl, hoff⟩ := MainLoop.disconnect_cases hu hd
    refine .inl fun w hw => ?_
    rw [(mem_writeAll.mp hw).1]
    exact hoff
  · rcases MainLoop.actOn_cases hu hm hact with ⟨-, rfl | ⟨relayed, rfl, hsend | hidle⟩⟩
    · exact .inl (by simp)
    · refine .inr ⟨m, rest, t, as, .fwd, hread, hm, ?_, .inl ⟨hsend.1, rfl, hsend.2.2⟩⟩
      intro w hw
      obtain ⟨hwm, v, hv⟩ := mem_writeAllExcept.mp hw
      rw [hwm]
      exact ⟨hsend.2.1, v, hv⟩
    · refine .inr ⟨m, rest, t, as, .idle, hread, hm, ?_, .inr ⟨hidle.1, rfl⟩⟩
      intro w hw
      obtain ⟨hwm, v, hv⟩ := mem_writeAllExcept.mp hw
      rw [hwm]
      exact ⟨hidle.2, v, hv⟩

theorem relaying_eq {s : ChatState} {u v : Bytes} {h k : Nat} {m : Message} {rest : Bytes}
    (hu : s.main.rdFifos[u]? = some h) (hread : readMessage (s.up h) = .accepted m rest)
    (hv : v ≠ u) (hk : s.main.wrFifos[v]? = some k) :
    s.relaying (.serve u) = some (u, m) := by
  have hother : ¬ (s.main.wrFifos.toList.all fun pair => pair.1 = u) = true := by
    intro hall
    rw [List.all_eq_true] at hall
    have := hall (v, k) (Std.TreeMap.mem_toList_iff_getElem?_eq_some.mpr hk)
    exact hv (of_decide_eq_true this)
  simp only [ChatState.relaying, hu, hread, if_neg hother]

/-- Under the condition, every write passes its receiver's checks. -/
theorem serve_writes_accepted {s : ChatState} {main' : MainLoop} {ws : List Write} {u : Bytes}
    {h : Nat} (hu : IsName u) (hget : s.main.rdFifos[u]? = some h)
    (hfits : IdleFits s (.serve u)) (hs : s.main.serve u (s.up h) = .ok (main', ws)) :
    ∀ w ∈ ws, ∃ t as, HandlerAccepted w.message t as := by
  intro w hw
  rcases serve_writes hu hs with hoff | ⟨m, rest, t, as, t', hread, hm, hall, hkind⟩
  · exact ⟨_, _, hoff w hw⟩
  · obtain ⟨hp, v, hv, hk⟩ := hall w hw
    rcases hkind with ⟨-, rfl, hlimit⟩ | ⟨rfl, rfl⟩
    · -- SEND's limit leaves the room that FWD needs
      exact ⟨_, _, hp, hlimit⟩
    · -- for IDLE the condition has to say so
      have hroom := hfits (u, m) (relaying_eq hget hread hv hk) hm.1.getType
      refine ⟨_, _, hp, ?_⟩
      rw [hm.1.getLength] at hroom
      rw [encodeAttrs_append, List.length_append, encodeAttrs_cons, encodeAttrs_nil,
        List.append_nil, Attr.encode_length]
      exact hroom

/-! ## The invariant -/

/-- A handler's FIFO is in step with the main loop, it holds nothing but messages the handler will
pass on, and the handler has passed on all it has read. -/
structure Framed (s : ChatState) (h : Nat) : Prop where
  accepted : ∀ r ∈ s.written h, ∃ t as, HandlerAccepted r.message t as
  inSync : messageFraming.InSync ((s.written h).map Relay.message) (s.down h) (s.outcomes h)
  delivered : s.outcomes h = (s.delivered h).map Outcome.accepted

namespace Framed

variable {s : ChatState} {h : Nat}

theorem keepsFrames (f : Framed s h) : KeepsFrames s h := by
  refine ⟨?_, ?_⟩
  · rw [f.inSync.append_drain, List.map_map]
    rfl
  · intro r hr
    exact (f.inSync.valid r.message (List.mem_map_of_mem hr)).1

/-- A reaction of the main loop keeps the FIFOs in step when its writes are acceptable. -/
theorem afterMain (f : ∀ h, Framed s h) {sender : Option (Nat × Bytes)}
    {r : Except Fault (MainLoop × List Write)}
    (hr : ∀ main ws, r = .ok (main, ws) → ∀ w ∈ ws, ∃ t as, HandlerAccepted w.message t as)
    (h : Nat) : Framed (s.afterMain sender r) h := by
  rcases r with e | ⟨main, ws⟩
  · exact ⟨(f h).accepted, (f h).inSync, (f h).delivered⟩
  · have hdone : ∀ m ∈ ChatState.writesTo h (ws.takeWhile fun w => s.phase w.fifo ≠ .finished),
        ∃ t as, HandlerAccepted m t as := by
      intro m hm
      exact hr main ws rfl ⟨h, m⟩ ((List.takeWhile_prefix _).subset (mem_writesTo.mp hm))
    refine ⟨?_, ?_, (f h).delivered⟩
    · intro r hr'
      rcases List.mem_append.mp hr' with hr' | hr'
      · exact (f h).accepted r hr'
      · obtain ⟨m, hm, rfl⟩ := List.mem_map.mp hr'
        exact hdone m hm
    · -- what is written is valid, so the queue stays in step
      have hsync := (f h).inSync.write (fun m hm => by
        obtain ⟨t, as, hacc⟩ := hdone m hm
        exact hacc.framed)
      have hlog : ∀ ms : List Message, (ms.map fun m => (⟨m, sender⟩ : Relay)).map Relay.message =
          ms := by
        intro ms
        rw [List.map_map]
        exact List.map_id ms
      show messageFraming.InSync ((s.written h ++ _).map Relay.message) _ _
      rw [List.map_append, hlog]
      exact hsync

/-- A read takes the oldest message the handler has not read yet, and the handler passes it on. -/
theorem deliver (f : Framed s h) :
    (s.down h = [] ∧ handleMain (s.down h) = .finish) ∨
      ∃ m rest, readMessage (s.down h) = .accepted m rest ∧
        handleMain (s.down h) = .deliver m rest ∧
        messageFraming.InSync ((s.written h).map Relay.message) rest
          (s.outcomes h ++ [.accepted m]) := by
  rcases f.inSync.read_cases with ⟨heof, -⟩ | ⟨m, rest, hread, hmem, hsync⟩
  · have hempty : s.down h = [] := eq_nil_of_readMessage_eof heof
    exact .inl ⟨hempty, by rw [hempty]; rfl⟩
  · obtain ⟨r, hr, rfl⟩ := List.mem_map.mp hmem
    obtain ⟨t, as, hacc⟩ := f.accepted r hr
    have hread' : readMessage (s.down h) = .accepted r.message rest := hread
    refine .inr ⟨r.message, rest, hread', ?_, hsync⟩
    simp only [handleMain, hread', hacc.1.walk hacc.2]

/-- A handler that ends leaves the FIFOs and the logs as they are. -/
theorem finish (f : Framed s h) (k : Nat) : Framed (s.finish k) h :=
  ⟨f.accepted, f.inSync, f.delivered⟩

/-- Another handler's read leaves this one's FIFO and logs as they are. -/
theorem afterRead_of_ne (f : Framed s h) {k : Nat} (hk : h ≠ k) : Framed (s.afterRead k) h := by
  refine ⟨f.accepted, ?_, ?_⟩
  · show messageFraming.InSync _ (update s.down k _ h) (update s.outcomes k _ h)
    rw [update_of_ne hk, update_of_ne hk]
    exact f.inSync
  · show update s.outcomes k _ h = _
    rw [update_of_ne hk]
    exact f.delivered

/-- A read on an empty FIFO takes nothing. -/
theorem afterRead_empty (f : Framed s h) (hempty : s.down h = []) : Framed (s.afterRead h) h := by
  have hrest : (s.afterRead h).down h = s.down h := by
    rw [ChatState.afterRead_down, hempty]
    rfl
  have hlog : (s.afterRead h).outcomes h = s.outcomes h := by
    rw [ChatState.afterRead_outcomes, hempty]
    exact List.append_nil _
  refine ⟨f.accepted, ?_, ?_⟩
  · rw [hrest, hlog]
    exact f.inSync
  · rw [hlog]
    exact f.delivered

/-- The message that was read is passed on. -/
theorem afterRead_accepted (f : Framed s h) {m : Message} {rest : Bytes}
    (hread : readMessage (s.down h) = .accepted m rest)
    (hsync : messageFraming.InSync ((s.written h).map Relay.message) rest
      (s.outcomes h ++ [.accepted m])) :
    Framed { s.afterRead h with
      delivered := update s.delivered h (s.delivered h ++ [m]) } h := by
  have hlog : (s.afterRead h).outcomes h = s.outcomes h ++ [.accepted m] := by
    rw [ChatState.afterRead_outcomes, hread]
    rfl
  refine ⟨f.accepted, ?_, ?_⟩
  · show messageFraming.InSync _ ((s.afterRead h).down h) ((s.afterRead h).outcomes h)
    rw [ChatState.afterRead_down, hread, hlog]
    exact hsync
  · show (s.afterRead h).outcomes h = (update s.delivered h _ h).map _
    rw [hlog, update_self, List.map_append, ← f.delivered]
    rfl

end Framed

theorem framed_deliver {s s' : ChatState} {k : Nat} (f : ∀ h, Framed s h)
    (hs : chatStep s (.deliver k) = some s') : ∀ h, Framed s' h := by
  obtain ⟨-, hcases⟩ := step_deliver hs
  intro h
  by_cases hk : h = k
  case neg =>
    have hframe := (f h).afterRead_of_ne hk
    rcases hcases with ⟨-, rfl⟩ | ⟨rest, -, rfl⟩ | ⟨m, rest, -, rfl⟩
    · exact hframe.finish k
    · exact hframe
    · refine ⟨hframe.accepted, hframe.inSync, ?_⟩
      show (s.afterRead k).outcomes h = (update s.delivered k _ h).map _
      rw [update_of_ne hk]
      exact hframe.delivered
  case pos =>
    subst hk
    rcases (f h).deliver with ⟨hempty, hfin⟩ | ⟨m, rest, hread, hdel, hsync⟩
    · rw [hfin] at hcases
      rcases hcases with ⟨-, rfl⟩ | ⟨rest, hm, -⟩ | ⟨m, rest, hm, -⟩
      · exact ((f h).afterRead_empty hempty).finish h
      · cases hm
      · cases hm
    · -- the oldest message is accepted, so the handler neither ends nor skips
      rw [hdel] at hcases
      rcases hcases with ⟨hm, -⟩ | ⟨rest', hm, -⟩ | ⟨m', rest', hm, rfl⟩
      · cases hm
      · cases hm
      · cases hm
        exact (f h).afterRead_accepted hread hsync

theorem framed_step {s s' : ChatState} {e : Event} (w : Wired s.main s.pipe s.phase)
    (f : ∀ h, Framed s h) (hfits : IdleFits s e) (hs : chatStep s e = some s') :
    ∀ h, Framed s' h := by
  cases e with
  | client k input =>
      intro h
      rcases step_client hs with rfl | ⟨rfl, -⟩ | ⟨u, -, -, rfl⟩ | ⟨m, -, rfl⟩
      · exact f h
      · exact (f h).finish k
      · exact ⟨(f h).accepted, (f h).inSync, (f h).delivered⟩
      · exact ⟨(f h).accepted, (f h).inSync, (f h).delivered⟩
  | join =>
      obtain ⟨k, u, rest, hpipe, rfl⟩ := step_join hs
      have hu : IsName u := w.pipe_name (k, u) (by rw [hpipe]; simp)
      apply Framed.afterMain
      · intro h
        exact ⟨(f h).accepted, (f h).inSync, (f h).delivered⟩
      · intro main ws hr wr hwr
        obtain ⟨t, as, hacc, -⟩ := join_writes hu w.online hr wr hwr
        exact ⟨t, as, hacc⟩
  | serve u =>
      obtain ⟨k, hget, rfl⟩ := step_serve hs
      have hu : IsName u := w.name u k (by rw [← w.same]; exact hget)
      apply Framed.afterMain
      · intro h
        exact ⟨(f h).accepted, (f h).inSync, (f h).delivered⟩
      · intro main ws hr
        exact serve_writes_accepted hu hget hfits hr
  | deliver k => exact framed_deliver f hs

theorem framed_of_reachable {maxClients : Nat} {s : ChatState}
    (h : (chat maxClients).ReachableUnder IdleFits s) : ∀ k, Framed s k := by
  apply h.invariant_of_reachable
  · rintro s rfl
    exact fun k => ⟨by simp [ChatState.start], .empty, rfl⟩
  · intro s e s' hreach f hfits hs
    exact framed_step (wired_of_reachable hreach) f hfits hs

/-! ## The law -/

/-- **Frames are kept in every run whose relayed IDLE messages have room for the name.** -/
theorem fifo_framing (maxClients : Nat) (s : ChatState)
    (h : (chat maxClients).ReachableUnder IdleFits s) (handler : Nat) : KeepsFrames s handler :=
  (framed_of_reachable h handler).keepsFrames

/-- Users `a` and `b` join, `a` sends `input`, the main loop serves it, `b` reads twice. -/
def relayToB (input : Bytes) : List Event :=
  [.client 0 [1, 0x82, 0, 5, 2, 0, 0, 1, 0x61], .join,
    .client 1 [1, 0x82, 0, 5, 2, 0, 0, 1, 0x62], .join,
    .client 0 input, .serve [0x61], .deliver 1, .deliver 1]

/-- An empty IDLE from `a` reaches `b` framed. -/
theorem fifo_framing_empty_idle :
    ∃ s, (chat 2).run (ChatState.start 2) (relayToB [1, 0x89, 0, 0]) = some s ∧
      (s.written 1).length = 2 ∧ KeepsFrames s 1 := by
  have hrun : (((chat 2).run (ChatState.start 2) (relayToB [1, 0x89, 0, 0])).map fun s =>
      (s.written 1).length) = some 2 := by
    decide +kernel
  obtain ⟨s, hs, hlen⟩ := Option.map_eq_some_iff.mp hrun
  exact ⟨s, hs, hlen, fifo_framing 2 s (.run (.init rfl) (by decide +kernel) hs) 1⟩

/-- An IDLE with a 12-byte text leaves as an IDLE of 21 payload bytes. `b` turns its header down, and
what is left of it is the next thing `b` reads. -/
theorem idle_breaks_frames :
    ∃ s, (chat 2).Reachable s ∧ Outcome.rejected ∈ s.outcomes 1 ∧ ¬ KeepsFrames s 1 := by
  have hrun : (((chat 2).run (ChatState.start 2)
      (relayToB ([1, 0x89, 0, 16, 4, 0, 0, 12] ++ ascii "hello, world"))).map fun s =>
        (s.outcomes 1).map fun o => match o with
          | .rejected => true
          | _ => false) = some [false, true] := by
    decide +kernel
  obtain ⟨s, hs, hout⟩ := Option.map_eq_some_iff.mp hrun
  have hrejected : Outcome.rejected ∈ s.outcomes 1 := by
    have hmem : true ∈ [false, true] := by simp
    rw [← hout] at hmem
    obtain ⟨o, ho, htrue⟩ := List.mem_map.mp hmem
    cases o with
    | rejected => exact ho
    | accepted m => cases htrue
    | aborted => cases htrue
  refine ⟨s, Machine.reachable_of_run rfl hs, hrejected, ?_⟩
  intro hkeeps
  have hmem := List.mem_append_left (messageFraming.drain (s.down 1)) hrejected
  rw [hkeeps.1] at hmem
  obtain ⟨r, -, hr⟩ := List.mem_map.mp hmem
  cases hr

end ComputerNetworking.Chat
