/-
# ComputerNetworking.Chat.Authenticity -- whose name does a relayed message carry?

The main loop appends the true sender's name behind whatever attributes the client put into its
message, and `get_username` reports the first name. Nothing keeps a client from sending USERNAME
attributes of its own in SEND or IDLE, so the name reported is the true one exactly when the
client's message has no USERNAME attribute or its first one already reads as the sender's name.

`sender_authentic` is the law for the runs that meet this condition and the one of `fifo_framing`:
without the latter a handler can read forged headers out of a payload.
-/
import ComputerNetworking.Chat.FifoFraming

namespace ComputerNetworking.Chat

open ComputerNetworking.Lib ComputerNetworking.Sbcp Function

/-! ## The condition on the client's message -/

/-- Followed by the type field of the attribute the server appends, the first USERNAME attribute of
the message, if there is one, reads as `u`. -/
def namesSender (m : Message) (u : Bytes) : Bool :=
  match m.walk.attributes.find? fun a => a.type = .username with
  | none => true
  | some a =>
      cString ((m.payload.take m.getLength).drop (a.offset + attributeHeaderSize) ++
        [AttributeType.username.byte, 0]) == some u

/-- Every relayed message names its sender or nobody. -/
def NamesSender (s : ChatState) (e : Event) : Prop :=
  ∀ p ∈ s.relaying e, namesSender p.2 p.1 = true

/-- The condition under which names can be trusted. -/
def HonestRelay (s : ChatState) (e : Event) : Prop := IdleFits s e ∧ NamesSender s e

instance (s : ChatState) (e : Event) : Decidable (NamesSender s e) := by
  unfold NamesSender
  infer_instance

instance (s : ChatState) (e : Event) : Decidable (HonestRelay s e) := by
  unfold HonestRelay
  infer_instance

/-! ## The first name after the append -/

theorem readNames_append {as bs : List Attr} (h : ∀ a ∈ as, a.type ≠ .username) :
    readNames (as ++ bs) = readNames bs := by
  induction as with
  | nil => rfl
  | cons a as ih =>
      rw [List.cons_append, readNames, if_neg (h a (by simp))]
      exact ih fun b hb => h b (List.mem_cons_of_mem _ hb)

/-- The search for the first USERNAME attribute, on the references and on the attributes. -/
theorem find_refsFrom (offset : Nat) (as : List Attr) :
    ((refsFrom offset as).find? (fun a => a.type = .username) = none ∧
        ∀ a ∈ as, a.type ≠ .username) ∨
      ∃ r pre a rest, (refsFrom offset as).find? (fun a => a.type = .username) = some r ∧
        as = pre ++ a :: rest ∧ (∀ b ∈ pre, b.type ≠ .username) ∧ a.type = .username ∧
        r.offset = offset + (encodeAttrs pre).length := by
  induction as generalizing offset with
  | nil => exact .inl ⟨rfl, by simp⟩
  | cons a as ih =>
      by_cases ha : a.type = .username
      · exact .inr ⟨⟨offset, a.type, a.value.length⟩, [], a, as, by simp [refsFrom, ha], rfl,
          by simp, ha, rfl⟩
      · have hskip : (refsFrom offset (a :: as)).find? (fun a => a.type = .username) =
            (refsFrom (offset + a.encode.length) as).find? (fun a => a.type = .username) := by
          simp [refsFrom, ha]
        rcases ih (offset + a.encode.length) with ⟨hnone, hall⟩ |
          ⟨r, pre, b, rest, hsome, rfl, hpre, hb, hoff⟩
        · refine .inl ⟨hskip.trans hnone, ?_⟩
          intro b hb
          rcases List.mem_cons.mp hb with rfl | hb
          · exact ha
          · exact hall b hb
        · refine .inr ⟨r, a :: pre, b, rest, hskip.trans hsome, rfl, ?_, hb, ?_⟩
          · intro c hc
            rcases List.mem_cons.mp hc with rfl | hc
            · exact ha
            · exact hpre c hc
          · rw [hoff, encodeAttrs_cons, List.length_append]
            omega

/-- A message that names its sender or nobody reports its sender once the name is appended. -/
theorem readNames_of_namesSender {m : Message} {t : MessageType} {as : List Attr} {u : Bytes}
    (hu : IsName u) (hm : HandlerAccepted m t as) (h : namesSender m u = true) :
    ∃ us, readNames (as ++ [usernameAttr u hu.2]) = u :: us := by
  have hpayload : m.payload.take m.getLength = encodeAttrs as := by
    rw [hm.1.getLength, hm.1.payload_eq, List.take_left]
  unfold namesSender at h
  rw [hm.1.walk hm.2] at h
  rcases find_refsFrom 0 as with ⟨-, hall⟩ | ⟨r, pre, a, rest, hsome, rfl, hpre, ha, hoff⟩
  · -- no USERNAME attribute: the appended one is the first
    refine ⟨[], ?_⟩
    rw [readNames_append hall]
    show [(usernameAttr u hu.2).readAs []] = [u]
    rw [Attr.readAs_nil hu.1]
    rfl
  · -- the first one is followed by the next attribute, if only by the appended one
    have hdrop : (encodeAttrs (pre ++ a :: rest)).drop (r.offset + attributeHeaderSize) =
        a.value ++ encodeAttrs rest := by
      rw [hoff, Nat.zero_add, encodeAttrs_append, encodeAttrs_cons, ← List.drop_drop,
        List.drop_left, Attr.encode]
      simp [attributeHeaderSize, le16]
    have hread : cString (a.value ++ encodeAttrs rest ++ [AttributeType.username.byte, 0]) =
        some (a.readAs (rest ++ [usernameAttr u hu.2])) := by
      cases rest with
      | nil =>
          have := cString_append_cons_zero (a.value ++ [AttributeType.username.byte]) []
          simpa [Attr.readAs, usernameAttr] using this
      | cons b rest =>
          have := cString_append_cons_zero (a.value ++ [b.type.byte])
            (le16 (htons (UInt16.ofNat b.value.length)) ++ b.value ++ encodeAttrs rest ++
              [AttributeType.username.byte, 0])
          simpa [Attr.encode, AttributeType.le16_code_eq, Attr.readAs] using this
    simp only [hsome, hpayload, hdrop, hread, beq_iff_eq, Option.some.injEq] at h
    rw [List.append_assoc, readNames_append hpre, List.cons_append, readNames, if_pos ha, h]
    exact ⟨_, rfl⟩

/-! ## The invariant -/

/-- A FWD or IDLE in the log was written for the message of another handler's user, and it reports
that user. -/
def Attributed (h : Nat) (r : Relay) : Prop :=
  r.message.getType = some .fwd ∨ r.message.getType = some .idle →
    ∃ k u, r.sender = some (k, u) ∧ k ≠ h ∧ r.message.getUsername = .ok u

theorem attributed_afterMain {s : ChatState} {sender : Option (Nat × Bytes)}
    {x : Except Fault (MainLoop × List Write)} (hlog : ∀ h, ∀ r ∈ s.written h, Attributed h r)
    (hx : ∀ main ws, x = .ok (main, ws) → ∀ w ∈ ws, Attributed w.fifo ⟨w.message, sender⟩) :
    ∀ h, ∀ r ∈ (s.afterMain sender x).written h, Attributed h r := by
  rcases x with e | ⟨main, ws⟩
  · exact hlog
  · intro h r hr
    rcases List.mem_append.mp hr with hr | hr
    · exact hlog h r hr
    · obtain ⟨m, hm, rfl⟩ := List.mem_map.mp hr
      exact hx main ws rfl ⟨h, m⟩ ((List.takeWhile_prefix _).subset (mem_writesTo.mp hm))

/-- Under the condition, what serving a FIFO writes reports the FIFO's user. -/
theorem serve_attributed {s : ChatState} (w : Wired s.main s.pipe s.phase) {main' : MainLoop}
    {ws : List Write} {u : Bytes} {k : Nat} (hget : s.main.rdFifos[u]? = some k)
    (hhonest : HonestRelay s (.serve u)) (hs : s.main.serve u (s.up k) = .ok (main', ws)) :
    ∀ wr ∈ ws, Attributed wr.fifo ⟨wr.message, some (k, u)⟩ := by
  have huk : s.main.wrFifos[u]? = some k := by rw [← w.same]; exact hget
  have hu : IsName u := w.name u k huk
  intro wr hwr htype
  have haccepted := serve_writes_accepted hu hget hhonest.1 hs wr hwr
  rcases serve_writes hu hs with hoff | ⟨m, rest, t, as, t', hread, hm, hall, hkind⟩
  · have hoff' := (hoff wr hwr).1.getType
    rcases htype with htype | htype <;> rw [hoff'] at htype <;> cases htype
  · obtain ⟨hp, v, hv, hvk⟩ := hall wr hwr
    have hnames := hhonest.2 (u, m) (relaying_eq hget hread hv hvk)
    obtain ⟨us, hus⟩ := readNames_of_namesSender hu hm hnames
    refine ⟨k, u, rfl, ?_, ?_⟩
    · -- the receiver is registered under another name than the sender
      intro hk
      apply hv
      rw [hk] at huk
      exact w.injective v u wr.fifo hvk huk
    · have hlen : (encodeAttrs (as ++ [usernameAttr u hu.2])).length ≤ Message.payloadLimit t' := by
        obtain ⟨t'', as'', hacc⟩ := haccepted
        have htt : some t' = some t'' := hp.getType.symm.trans hacc.1.getType
        cases htt
        rw [← hp.getLength, hacc.1.getLength]
        exact hacc.2
      have hroom : (encodeAttrs (as ++ [usernameAttr u hu.2])).length < sbcpMaxPayloadLength := by
        rcases hkind with ⟨-, rfl, -⟩ | ⟨-, rfl⟩
        · exact Nat.lt_of_le_of_lt hlen (by decide)
        · exact Nat.lt_of_le_of_lt hlen (by decide)
      rw [getUsername_packed hp hlen hroom, hus]

theorem attributed_step {s s' : ChatState} {e : Event} (w : Wired s.main s.pipe s.phase)
    (hlog : ∀ h, ∀ r ∈ s.written h, Attributed h r) (hhonest : HonestRelay s e)
    (hs : chatStep s e = some s') : ∀ h, ∀ r ∈ s'.written h, Attributed h r := by
  cases e with
  | client k input =>
      rcases step_client hs with rfl | ⟨rfl, -⟩ | ⟨u, -, -, rfl⟩ | ⟨m, -, rfl⟩ <;> exact hlog
  | join =>
      obtain ⟨k, u, rest, hpipe, rfl⟩ := step_join hs
      have hu : IsName u := w.pipe_name (k, u) (by rw [hpipe]; simp)
      apply attributed_afterMain
      · exact hlog
      · intro main ws hr wr hwr htype
        -- NAK, ACK and ONLINE are neither FWD nor IDLE
        obtain ⟨t, as, hacc, hfwd, hidle⟩ := join_writes hu w.online hr wr hwr
        rcases htype with htype | htype
        · rw [hacc.1.getType] at htype
          exact absurd (Option.some.inj htype) hfwd
        · rw [hacc.1.getType] at htype
          exact absurd (Option.some.inj htype) hidle
  | serve u =>
      obtain ⟨k, hget, rfl⟩ := step_serve hs
      apply attributed_afterMain
      · exact hlog
      · intro main ws hr
        exact serve_attributed w hget hhonest hr
  | deliver k =>
      rcases step_deliver hs with ⟨-, ⟨-, rfl⟩ | ⟨rest, -, rfl⟩ | ⟨m, rest, -, rfl⟩⟩ <;> exact hlog

theorem attributed_of_reachable {maxClients : Nat} {s : ChatState}
    (h : (chat maxClients).ReachableUnder HonestRelay s) :
    ∀ k, ∀ r ∈ s.written k, Attributed k r := by
  apply h.invariant_of_reachable
  · rintro s rfl
    simp [ChatState.start]
  · intro s e s' hreach hlog hhonest hs
    exact attributed_step (wired_of_reachable hreach) hlog hhonest hs

/-! ## The law -/

/-- Every FWD or IDLE a handler has delivered to its client is one the main loop wrote for the
message of a user of another handler, and reports that user. -/
def Authentic (s : ChatState) (h : Nat) : Prop :=
  ∀ (i : Nat) (m : Message), (s.delivered h)[i]? = some m →
    (m.getType = some .fwd ∨ m.getType = some .idle) →
    ∃ k u, (s.written h)[i]? = some ⟨m, some (k, u)⟩ ∧ k ≠ h ∧ m.getUsername = .ok u

/-- The `i`-th message delivered is the `i`-th message written. -/
theorem Framed.getElem?_delivered {s : ChatState} {h : Nat} (f : Framed s h) {i : Nat} {m : Message}
    (hi : (s.delivered h)[i]? = some m) :
    ∃ sender, (s.written h)[i]? = some ⟨m, sender⟩ := by
  obtain ⟨rest, hrest, -⟩ := f.inSync.pending
  rw [f.delivered, ← List.map_append, List.map_inj_right (by intro a b hab; cases hab; rfl)] at hrest
  have hlt : i < (s.delivered h).length := by
    rw [List.getElem?_eq_some_iff] at hi
    exact hi.1
  have hmap : ((s.written h).map Relay.message)[i]? = some m := by
    rw [hrest, List.getElem?_append_left hlt]
    exact hi
  rw [List.getElem?_map, Option.map_eq_some_iff] at hmap
  obtain ⟨⟨m', sender⟩, hr, rfl⟩ := hmap
  exact ⟨sender, hr⟩

/-- **Delivered names are true in every run whose relayed messages name their sender or nobody and
keep their frames.** -/
theorem sender_authentic (maxClients : Nat) (s : ChatState)
    (h : (chat maxClients).ReachableUnder HonestRelay s) (handler : Nat) : Authentic s handler := by
  intro i m hi htype
  have hframed := framed_of_reachable (h.mono fun _ _ hh => hh.1) handler
  obtain ⟨sender, hr⟩ := hframed.getElem?_delivered hi
  rcases attributed_of_reachable h handler _ (List.mem_of_getElem? hr) htype with
    ⟨k, u, hsender, hne, hname⟩
  exact ⟨k, u, by rw [hr, ← hsender], hne, hname⟩

/-- A plain SEND from `a` reaches `b` under `a`'s name. -/
theorem sender_authentic_plain_send :
    ∃ s, (chat 2).run (ChatState.start 2)
        (relayToB ([1, 0x84, 0, 6, 4, 0, 0, 2] ++ ascii "hi")) = some s ∧
      (s.delivered 1).length = 2 ∧ Authentic s 1 := by
  have hrun : (((chat 2).run (ChatState.start 2)
      (relayToB ([1, 0x84, 0, 6, 4, 0, 0, 2] ++ ascii "hi"))).map fun s =>
        (s.delivered 1).length) = some 2 := by
    decide +kernel
  obtain ⟨s, hs, hlen⟩ := Option.map_eq_some_iff.mp hrun
  exact ⟨s, hs, hlen, sender_authentic 2 s (.run (.init rfl) (by decide +kernel) hs) 1⟩

/-- A SEND from `a` with a USERNAME attribute `b\0` of its own is delivered to `b` as a message from
`b`. -/
theorem send_with_forged_name :
    ∃ s, (chat 2).Reachable s ∧ (s.written 1)[1]?.map Relay.sender = some (some (0, [0x61])) ∧
      (s.delivered 1)[1]?.map Message.getUsername = some (.ok [0x62]) ∧ ¬ Authentic s 1 := by
  have hrun : (((chat 2).run (ChatState.start 2)
      (relayToB [1, 0x84, 0, 6, 2, 0, 0, 2, 0x62, 0])).map fun s =>
        ((s.written 1)[1]?.map Relay.sender,
          (s.delivered 1)[1]?.map fun m =>
            (decide (m.getType = some .fwd), decide (m.getUsername = .ok [0x62])))) =
      some (some (some (0, [0x61])), some (true, true)) := by
    decide +kernel
  obtain ⟨s, hs, hlogs⟩ := Option.map_eq_some_iff.mp hrun
  have hsender := congrArg Prod.fst hlogs
  have hname := congrArg Prod.snd hlogs
  obtain ⟨m, hm, hpair⟩ := Option.map_eq_some_iff.mp hname
  have htype : m.getType = some .fwd := of_decide_eq_true (congrArg Prod.fst hpair)
  have huser : m.getUsername = .ok [0x62] := of_decide_eq_true (congrArg Prod.snd hpair)
  refine ⟨s, Machine.reachable_of_run rfl hs, hsender, by rw [hm, ← huser]; rfl, ?_⟩
  intro hauth
  obtain ⟨k, u, hr, -, hu⟩ := hauth 1 m hm (.inl htype)
  have hku : (k, u) = (0, [0x61]) := by
    simpa only [hr, Option.map_some, Option.some.injEq] using hsender
  cases hku
  rw [huser] at hu
  exact absurd hu (by decide)

end ComputerNetworking.Chat
