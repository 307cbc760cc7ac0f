/-
# ComputerNetworking.Chat.Roster -- who a client thinks is online

A client learns who is online from what is written to its FIFO: the names in its ACK, then one name
more with every ONLINE and one name less with every OFFLINE. `replay` reads a log of messages like
that. For every online user, the log of what has been written since the join replays to the users that
are online besides him, whatever has happened in between.
-/
import ComputerNetworking.Chat.Membership

namespace ComputerNetworking.Chat

open ComputerNetworking.Lib ComputerNetworking.Sbcp

/-! ## Reading a log -/

/-- The names a message lists. -/
def usernamesOf (m : Message) : List Bytes :=
  (m.contents.filter fun c => c.1 = .username).map Prod.snd

/-- The roster after one more message. -/
def replayOne (roster : List Bytes) (m : Message) : List Bytes :=
  match m.getType with
  | some .ack => usernamesOf m
  | some .online => roster ++ usernamesOf m
  | some .offline => roster.filter fun u => u ∉ usernamesOf m
  | _ => roster

def replay (log : List Message) : List Bytes := log.foldl replayOne []

theorem replay_append (log : List Message) (m : Message) :
    replay (log ++ [m]) = replayOne (replay log) m := List.foldl_concat ..

section Messages

variable {m : Message}

theorem usernamesOf_eq {t : MessageType} {as : List Attr} (h : HandlerAccepted m t as) :
    usernamesOf m = (as.filter fun a => a.type = .username).map Attr.value := by
  rw [usernamesOf, h.1.contents h.2, List.filter_map, List.map_map]
  rfl

theorem usernamesOf_single {t : MessageType} {u : Bytes} {hu : u.length ≤ sbcpMaxUsernameLength}
    (h : HandlerAccepted m t [usernameAttr u hu]) : usernamesOf m = [u] := by
  rw [usernamesOf_eq h]
  rfl

/-- An ACK lists the others. -/
theorem usernamesOf_ack {others : List Bytes} (h : MainLoop.IsAck m others) :
    usernamesOf m = others := by
  obtain ⟨-, names, rfl, htypes, hm⟩ := h
  rw [usernamesOf_eq hm, List.filter_cons_of_neg (by simp [countAttr])]
  congr 1
  rw [List.filter_eq_self]
  intro a ha
  simpa using htypes a ha

/-- Its count is theirs and one more. -/
theorem getClientCount_ack {others : List Bytes} (h : MainLoop.IsAck m others) :
    ∃ count, m.getClientCount = .ok count ∧ count.toNat = others.length + 1 := by
  obtain ⟨hlt, names, -, -, hp, hlimit⟩ := h
  refine ⟨UInt16.ofNat (others.length + 1), ?_, ?_⟩
  · exact getClientCount_packed hp hlimit
  · rw [UInt16.toNat_ofNat']
    omega

end Messages

/-! ## The log of a user -/

/-- What has been written to `u` since he joined: an ACK that counts its names and the newcomer, and
then messages by which he knows who else is online. -/
structure Agrees (online : List Bytes) (u : Bytes) (log : List Message) : Prop where
  ack : ∃ ack rest, log = ack :: rest ∧ ack.getType = some .ack ∧
    ∃ count, ack.getClientCount = .ok count ∧ count.toNat = (usernamesOf ack).length + 1
  nodup : (replay log).Nodup
  others : ∀ v, v ∈ replay log ↔ v ∈ online ∧ v ≠ u

namespace Agrees

variable {online : List Bytes} {u v : Bytes} {log : List Message} {m : Message}

/-- The beginning. -/
theorem joined (hm : MainLoop.IsAck m online) (hnodup : online.Nodup) (hu : u ∉ online) :
    Agrees (online ++ [u]) u [m] := by
  have htype : m.getType = some .ack := by
    obtain ⟨-, names, -, -, hp⟩ := hm
    exact hp.1.getType
  have hreplay : replay [m] = online := by
    show replayOne [] m = online
    rw [replayOne, htype]
    exact usernamesOf_ack hm
  refine ⟨⟨m, [], rfl, htype, ?_⟩, ?_, ?_⟩
  · rw [usernamesOf_ack hm]
    exact getClientCount_ack hm
  · rwa [hreplay]
  · intro v
    rw [hreplay, List.mem_append, List.mem_singleton]
    constructor
    · intro hv
      refine ⟨.inl hv, ?_⟩
      rintro rfl
      exact hu hv
    · rintro ⟨hv | hv, hne⟩
      · exact hv
      · exact absurd hv hne

theorem ack_append (h : Agrees online u log) (ms : List Message) :
    ∃ ack rest, log ++ ms = ack :: rest ∧ ack.getType = some .ack ∧
      ∃ count, ack.getClientCount = .ok count ∧ count.toNat = (usernamesOf ack).length + 1 := by
  obtain ⟨ack, rest, rfl, hack⟩ := h.ack
  exact ⟨ack, rest ++ ms, rfl, hack⟩

/-- Somebody else comes online. -/
theorem online_other (h : Agrees online u log) {hv : v.length ≤ sbcpMaxUsernameLength}
    (hm : HandlerAccepted m .online [usernameAttr v hv]) (hnew : v ∉ online) (hne : v ≠ u) :
    Agrees (online ++ [v]) u (log ++ [m]) := by
  have hreplay : replay (log ++ [m]) = replay log ++ [v] := by
    rw [replay_append, replayOne, hm.1.getType]
    simp only [usernamesOf_single hm]
  refine ⟨h.ack_append _, ?_, ?_⟩
  · rw [hreplay, List.nodup_append]
    refine ⟨h.nodup, by simp, ?_⟩
    intro a ha b hb
    rw [List.mem_singleton.mp hb]
    rintro rfl
    exact hnew ((h.others a).mp ha).1
  · intro w
    rw [hreplay, List.mem_append, List.mem_append, List.mem_singleton, h.others]
    constructor
    · rintro (⟨hw, hwu⟩ | rfl)
      · exact ⟨.inl hw, hwu⟩
      · exact ⟨.inr rfl, hne⟩
    · rintro ⟨hw | hw, hwu⟩
      · exact .inl ⟨hw, hwu⟩
      · exact .inr hw

/-- Somebody else goes offline. -/
theorem offline_other (h : Agrees online u log) {hv : v.length ≤ sbcpMaxUsernameLength}
    (hm : HandlerAccepted m .offline [usernameAttr v hv]) :
    Agrees (online.filter (· ≠ v)) u (log ++ [m]) := by
  have hreplay : replay (log ++ [m]) = (replay log).filter (· ≠ v) := by
    rw [replay_append, replayOne, hm.1.getType]
    simp only [usernamesOf_single hm, List.mem_singleton]
  refine ⟨h.ack_append _, ?_, ?_⟩
  · rw [hreplay]
    exact h.nodup.filter _
  · intro w
    rw [hreplay, List.mem_filter, List.mem_filter, h.others]
    tauto

/-- A message that is relayed does not say who is online. -/
theorem relayed (h : Agrees online u log) {ms : List Message}
    (hms : ∀ m ∈ ms, m.getType = some .fwd ∨ m.getType = some .idle) :
    Agrees online u (log ++ ms) := by
  have hreplay : replay (log ++ ms) = replay log := by
    unfold replay
    rw [List.foldl_append]
    generalize log.foldl replayOne [] = roster
    induction ms generalizing roster with
    | nil => rfl
    | cons m ms ih =>
        have hsame : replayOne roster m = roster := by
          rcases hms m (by simp) with ht | ht <;> rw [replayOne, ht]
        rw [List.foldl_cons, hsame]
        exact ih (fun m' hm' => hms m' (List.mem_cons_of_mem _ hm')) roster
  exact ⟨h.ack_append _, by rw [hreplay]; exact h.nodup, by rw [hreplay]; exact h.others⟩

end Agrees

/-! ## Who gets a broadcast -/

section Broadcast

open ChatState

variable {fifos : Fifos} {u username : Bytes} {h : Nat} {m : Message}

theorem writesTo_cons (w : Write) (ws : List Write) :
    writesTo h (w :: ws) = if w.fifo = h then w.message :: writesTo h ws else writesTo h ws := by
  unfold writesTo
  rw [List.filter_cons]
  by_cases hw : w.fifo = h
  · simp [hw]
  · simp [hw]

theorem nodup_toList (fifos : Fifos) : fifos.toList.Nodup := by
  apply (Std.TreeMap.distinct_keys_toList (t := fifos)).imp
  rintro a b hne rfl
  exact hne Std.ReflCmp.compare_self

/-- The entries with the descriptor of a handler that is registered under one name. -/
theorem filter_toList (hu : fifos[u]? = some h)
    (hone : ∀ v : Bytes, fifos[v]? = some h → v = u) :
    (fifos.toList.filter fun pair => pair.2 = h) = [(u, h)] := by
  rw [← List.perm_singleton, List.perm_ext_iff_of_nodup ((nodup_toList fifos).filter _) (by simp)]
  rintro ⟨v, k⟩
  rw [List.mem_filter, Std.TreeMap.mem_toList_iff_getElem?_eq_some, List.mem_singleton]
  simp only [decide_eq_true_eq, Prod.mk.injEq]
  constructor
  · rintro ⟨hv, rfl⟩
    exact ⟨hone v hv, rfl⟩
  · rintro ⟨rfl, rfl⟩
    exact ⟨hu, rfl⟩

/-- `write_all` writes to a registered handler once. -/
theorem writesTo_writeAll (hu : fifos[u]? = some h)
    (hone : ∀ v : Bytes, fifos[v]? = some h → v = u) : writesTo h (writeAll fifos m) = [m] := by
  unfold writesTo writeAll
  rw [List.filter_map, List.map_map]
  have hfilter := filter_toList hu hone
  simp only [Function.comp_def] at hfilter ⊢
  rw [hfilter]
  rfl

/-- So does `write_all_except`, but for the exception. -/
theorem writesTo_writeAllExcept (hu : fifos[u]? = some h)
    (hone : ∀ v : Bytes, fifos[v]? = some h → v = u) :
    writesTo h (writeAllExcept fifos m username) = if u = username then [] else [m] := by
  unfold writesTo writeAllExcept
  rw [List.filter_map, List.map_map]
  have hfilter := filter_toList hu hone
  simp only [Function.comp_def] at hfilter ⊢
  rw [List.filter_comm, hfilter]
  by_cases hx : u = username
  · simp [hx]
  · simp [hx]

/-- Nothing is written to a handler that is not registered. -/
theorem writesTo_unregistered {ws : List Write}
    (hws : ∀ w ∈ ws, ∃ v : Bytes, fifos[v]? = some w.fifo)
    (hfree : ∀ v : Bytes, fifos[v]? ≠ some h) : writesTo h ws = [] := by
  rw [List.eq_nil_iff_forall_not_mem]
  intro m' hm'
  obtain ⟨v, hv⟩ := hws _ (mem_writesTo.mp hm')
  exact hfree v hv

theorem registered_writeAll (w : Write) (hw : w ∈ writeAll fifos m) :
    ∃ v : Bytes, fifos[v]? = some w.fifo :=
  (mem_writeAll.mp hw).2

theorem registered_writeAllExcept (w : Write) (hw : w ∈ writeAllExcept fifos m username) :
    ∃ v : Bytes, fifos[v]? = some w.fifo := by
  obtain ⟨-, v, -, hv⟩ := mem_writeAllExcept.mp hw
  exact ⟨v, hv⟩

end Broadcast

/-! ## Every run keeps it -/

/-- The log of every user agrees with who is online, and nothing has been written to a handler before
its bootstrap message. -/
structure Tracked (s : LoopState) : Prop where
  quiet : ∀ h, h ∉ s.bootstrapped.map Prod.fst → s.fifo h = []
  agrees : ∀ (u : Bytes) (h : Nat), s.main.wrFifos[u]? = some h →
    Agrees s.main.onlineUsers u (s.fifo h)

section Runs

variable {s s' : LoopState}

theorem tracked_refused (t : Tracked s) {b : Bootstrap} {nak : Message} (m : s.Members)
    (hnew : b.handler ∉ s.bootstrapped.map Prod.fst)
    (hboot : s'.bootstrapped = s.bootstrapped ++ [(b.handler, b.username)])
    (hmain : s'.main = s.main)
    (hfifo : s'.fifo = fun h => s.fifo h ++ ChatState.writesTo h [⟨b.handler, nak⟩]) :
    Tracked s' := by
  have hother : ∀ h, b.handler ≠ h → s'.fifo h = s.fifo h := by
    intro h hne
    rw [hfifo]
    simp [ChatState.writesTo, hne]
  refine ⟨?_, ?_⟩
  · intro h hh
    rw [hboot, List.map_append, List.mem_append, not_or] at hh
    rw [hother h (fun heq => hh.2 (by simp [heq]))]
    exact t.quiet h hh.1
  · intro u h hu
    rw [hmain] at hu ⊢
    have hne : b.handler ≠ h := by
      rintro rfl
      exact m.unregistered hnew u hu
    rw [hother h hne]
    exact t.agrees u h hu

theorem tracked_accepted (t : Tracked s) {b : Bootstrap} {ack online : Message} (m : s.Members)
    (m' : s'.Members) (hnew : b.handler ∉ s.bootstrapped.map Prod.fst)
    (hboot : s'.bootstrapped = s.bootstrapped ++ [(b.handler, b.username)])
    (hacc : ¬ s.main.Refuses b.username)
    (hmain : s'.main = s.main.insertUser b.handler b.username)
    (hack : MainLoop.IsAck ack s.main.onlineUsers)
    (honl : HandlerAccepted online .online [usernameAttr b.username b.isName.2])
    (hfifo : s'.fifo = fun h => s.fifo h ++ ChatState.writesTo h
      (⟨b.handler, ack⟩ :: writeAllExcept s'.main.wrFifos online b.username)) :
    Tracked s' := by
  have hoff : b.username ∉ s.main.onlineUsers := by
    intro hmem
    apply hacc
    left
    rwa [← Std.TreeMap.mem_iff_contains, m.mem_rdFifos_iff]
  refine ⟨?_, ?_⟩
  · intro h hh
    have hfree := m'.unregistered hh
    rw [hboot, List.map_append, List.mem_append, not_or] at hh
    have hne : b.handler ≠ h := fun heq => hh.2 (by simp [heq])
    simp only [hfifo]
    rw [t.quiet h hh.1, writesTo_cons, if_neg hne, writesTo_unregistered registered_writeAllExcept hfree]
    rfl
  · intro u h hu
    have hone : ∀ v : Bytes, s'.main.wrFifos[v]? = some h → v = u := fun v hv => m'.injective hv hu
    have hlog : s'.fifo h = s.fifo h ++ ChatState.writesTo h
        (⟨b.handler, ack⟩ :: writeAllExcept s'.main.wrFifos online b.username) := by rw [hfifo]
    rw [writesTo_cons, writesTo_writeAllExcept hu hone] at hlog
    rw [hmain, MainLoop.insertUser_wrFifos] at hu
    rw [hmain, MainLoop.insertUser_onlineUsers, hlog]
    by_cases huser : b.username = u
    · -- the newcomer's log is its ACK
      rw [if_pos huser] at hu
      cases hu
      rw [t.quiet _ hnew, if_pos rfl, if_pos huser.symm, ← huser]
      exact Agrees.joined hack m.nodup hoff
    · -- the others are told
      rw [if_neg huser] at hu
      have hne : b.handler ≠ h := by
        rintro rfl
        exact m.unregistered hnew u hu
      rw [if_neg hne, if_neg (Ne.symm huser)]
      exact (t.agrees u h hu).online_other honl hoff huser

theorem tracked_serve (t : Tracked s) {u input : Bytes} (m : s.Members)
    (hs : s.serve u input = some s') : Tracked s' := by
  have m' := members_serve m hs
  obtain ⟨hboot, h₀, hget, hcase⟩ := loop_serve_cases m.isName_of_mem hs
  rcases hcase with ⟨hmain, -, -, offline, hu, hoff, hfifo⟩ | ⟨hmain, -, -, ws, hfifo, hws⟩
  · -- a user leaves
    refine ⟨?_, ?_⟩
    · intro h hh
      simp only [hfifo]
      rw [writesTo_unregistered registered_writeAll (m'.unregistered hh)]
      rw [hboot] at hh
      rw [t.quiet h hh]
      rfl
    · intro v h hv
      have hone : ∀ w : Bytes, s'.main.wrFifos[w]? = some h → w = v := by
        intro w hw
        exact m'.injective hw hv
      simp only [hfifo]
      rw [writesTo_writeAll hv hone]
      rw [hmain, MainLoop.eraseUser_wrFifos] at hv
      by_cases huv : u = v
      · rw [if_pos huv] at hv
        cases hv
      · rw [if_neg huv] at hv
        rw [hmain, MainLoop.eraseUser_onlineUsers]
        exact (t.agrees v h hv).offline_other hoff
  · -- a message is relayed, or nothing happens
    have hreg : ∀ w ∈ ws, ∃ v : Bytes, s.main.wrFifos[v]? = some w.fifo := fun w hw => (hws w hw).2
    refine ⟨?_, ?_⟩
    · intro h hh
      rw [hboot] at hh
      simp only [hfifo]
      rw [writesTo_unregistered hreg (m.unregistered hh), t.quiet h hh]
      rfl
    · intro v h hv
      rw [hmain] at hv ⊢
      simp only [hfifo]
      apply (t.agrees v h hv).relayed
      intro msg hmsg
      exact (hws _ (mem_writesTo.mp hmsg)).1

theorem tracked_of_reachable {maxClients : Nat} (h : (mainLoop maxClients).Reachable s) :
    Tracked s := by
  apply h.invariant_of_reachable
  · rintro s rfl
    exact ⟨fun _ _ => rfl, by simp [LoopState.start, MainLoop.start]⟩
  · intro s e s' hr t _ hs
    have m := members_of_reachable hr
    cases e with
    | serve u input => exact tracked_serve t m hs
    | join b =>
        obtain ⟨hnew, hboot, ⟨-, hmain, -, -, nak, as, -, hfifo⟩ |
          ⟨hacc, hmain, -, -, ack, online, hack, honl, hfifo⟩⟩ :=
            loop_join_cases (fun u => m.isName) hs
        · exact tracked_refused t m hnew hboot hmain hfifo
        · exact tracked_accepted t m (members_join m hs) hnew hboot hacc hmain hack honl hfifo

end Runs

/-- **For every online user, what has been written to his FIFO since he joined is an ACK whose count is
that of its names and one more, and replays to the users online besides him, each once.** -/
theorem roster_agreement (maxClients : Nat) (s : LoopState)
    (h : (mainLoop maxClients).Reachable s) (u : Bytes) (hu : u ∈ s.main.onlineUsers) :
    ∃ handler ack rest count, s.main.wrFifos[u]? = some handler ∧
      s.fifo handler = ack :: rest ∧ ack.getType = some .ack ∧
      ack.getClientCount = .ok count ∧ count.toNat = (usernamesOf ack).length + 1 ∧
      (replay (s.fifo handler)).Nodup ∧
      ∀ v, v ∈ replay (s.fifo handler) ↔ v ∈ s.main.onlineUsers ∧ v ≠ u := by
  have m := members_of_reachable h
  obtain ⟨handler, hget⟩ := (m.online u).mp hu
  have hagrees := (tracked_of_reachable h).agrees u handler hget
  obtain ⟨ack, rest, hlog, htype, count, hcount, hnum⟩ := hagrees.ack
  exact ⟨handler, ack, rest, count, hget, hlog, htype, hcount, hnum, hagrees.nodup, hagrees.others⟩

/-- Bob is in ann's roster after he has joined, not after he has left, and again when he has come back. -/
theorem roster_agreement_ann :
    ∃ s s' s'' handler, (mainLoop 5).run (.start 5)
        [.join ⟨7, ascii "ann", by decide⟩, .join ⟨8, ascii "bob", by decide⟩] = some s ∧
      (mainLoop 5).step s (.serve (ascii "bob") []) = some s' ∧
      (mainLoop 5).step s' (.join ⟨9, ascii "bob", by decide⟩) = some s'' ∧
      s.main.wrFifos[ascii "ann"]? = some handler ∧ s'.main.wrFifos[ascii "ann"]? = some handler ∧
      s''.main.wrFifos[ascii "ann"]? = some handler ∧
      ascii "bob" ∈ replay (s.fifo handler) ∧ ascii "bob" ∉ replay (s'.fifo handler) ∧
      ascii "bob" ∈ replay (s''.fifo handler) := by
  have hrun : (mainLoop 5).run (.start 5)
      [.join ⟨7, ascii "ann", by decide⟩, .join ⟨8, ascii "bob", by decide⟩] = some _ := rfl
  have hjoined := Machine.reachable_of_run (M := mainLoop 5) rfl hrun
  have hleft := hjoined.step trivial (e := .serve (ascii "bob") []) rfl
  have hback := hleft.step trivial (e := .join ⟨9, ascii "bob", by decide⟩) rfl
  obtain ⟨handler, -, -, -, hget, -, -, -, -, -, hothers⟩ :=
    roster_agreement 5 _ hjoined (ascii "ann") (by decide)
  obtain ⟨handler', -, -, -, hget', -, -, -, -, -, hothers'⟩ :=
    roster_agreement 5 _ hleft (ascii "ann") (by decide)
  obtain ⟨handler'', -, -, -, hget'', -, -, -, -, -, hothers''⟩ :=
    roster_agreement 5 _ hback (ascii "ann") (by decide)
  cases hget
  cases hget'
  cases hget''
  refine ⟨_, _, _, _, hrun, rfl, rfl, rfl, rfl, rfl, (hothers _).mpr (by decide), ?_,
    (hothers'' _).mpr (by decide)⟩
  exact fun hmem => absurd ((hothers' _).mp hmem).1 (by decide)

end ComputerNetworking.Chat
