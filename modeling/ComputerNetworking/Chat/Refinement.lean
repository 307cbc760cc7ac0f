/-
# ComputerNetworking.Chat.Refinement -- the main loop within the whole server

`chat` is the whole server, with handlers and FIFOs that hold bytes; `mainLoop` is its main loop by itself,
with bootstrap messages and inputs from outside. As long as the main process lives, a run of `chat` is
one of `mainLoop`: `chat_simulated`. What holds of the containers and of the logs there holds of the
whole server.
-/
import ComputerNetworking.Chat.Roster
import ComputerNetworking.Chat.Wiring

namespace ComputerNetworking.Chat

open ComputerNetworking.Lib ComputerNetworking.Sbcp Function

/-! ## The simulation -/

/-- The same containers and the same logs; the handlers taken have joined, whether they are still there
or not. -/
structure Simulates (s : ChatState) (l : LoopState) : Prop where
  main : l.main = s.main
  fifo : ∀ h, l.fifo h = (s.written h).map Relay.message
  taken : ∀ p ∈ l.bootstrapped, s.phase p.1 = .joined ∨ s.phase p.1 = .finished

section Steps

variable {s s' : ChatState} {l : LoopState} {maxClients : Nat}

theorem afterMain_phase (sender : Option (Nat × Bytes)) (r : Except Fault (MainLoop × List Write)) :
    (s.afterMain sender r).phase = s.phase := by
  rcases r with e | ⟨main, ws⟩
  · rfl
  · rfl

/-- A reaction that the main process survives has made all its writes. -/
theorem afterMain_alive {sender : Option (Nat × Bytes)} {r : Except Fault (MainLoop × List Write)}
    (halive : (s.afterMain sender r).mainAlive = true) :
    ∃ main ws, r = .ok (main, ws) ∧ (s.afterMain sender r).main = main ∧
      ∀ h, (s.afterMain sender r).written h =
        s.written h ++ (ChatState.writesTo h ws).map fun m => ⟨m, sender⟩ := by
  rcases r with e | ⟨main, ws⟩
  · cases halive
  · refine ⟨main, ws, rfl, rfl, ?_⟩
    have hall : ws.takeWhile (fun w => decide (s.phase w.fifo ≠ .finished)) = ws :=
      List.takeWhile_eq_self_iff.mpr (by simpa using ChatState.survives_iff.mp halive)
    intro h
    show s.written h ++ (ChatState.writesTo h (ws.takeWhile _)).map _ = _
    rw [hall]

/-- What a reaction writes is the same in both. -/
theorem Simulates.fifo_afterMain (sim : Simulates s l) {sender : Option (Nat × Bytes)}
    {ws : List Write} (h : Nat) :
    l.fifo h ++ ChatState.writesTo h ws =
      (s.written h ++ (ChatState.writesTo h ws).map fun m => ⟨m, sender⟩ : List Relay).map
        Relay.message := by
  rw [sim.fifo, List.map_append, List.map_map]
  congr 1
  exact (List.map_id _).symm

/-- A handler's change of phase, but back to before it joined. -/
theorem Simulates.phase (sim : Simulates s l) {h : Nat} {p : Phase}
    (hp : (s.phase h ≠ .joined ∧ s.phase h ≠ .finished) ∨ p = .joined ∨ p = .finished) :
    ∀ q ∈ l.bootstrapped, update s.phase h p q.1 = .joined ∨ update s.phase h p q.1 = .finished := by
  intro q hq
  by_cases hqh : q.1 = h
  · rw [hqh, update_self]
    rcases hp with ⟨hj, hf⟩ | hp
    · have hold := sim.taken q hq
      rw [hqh] at hold
      rcases hold with hold | hold
      · exact absurd hold hj
      · exact absurd hold hf
    · exact hp
  · rw [update_of_ne hqh]
    exact sim.taken q hq

theorem simulates_join (w : Wired s.main s.pipe s.phase) (sim : Simulates s l)
    (hl : (mainLoop maxClients).Reachable l) (hs : chatStep s .join = some s')
    (halive : s'.mainAlive = true) :
    ∃ l', (mainLoop maxClients).Reachable l' ∧ Simulates s' l' := by
  obtain ⟨h, u, rest, hpipe, rfl⟩ := step_join hs
  have hu : IsName u := w.pipe_name (h, u) (by simp [hpipe])
  have hwait : s.phase h = .waiting := w.pipe_waiting (h, u) (by simp [hpipe])
  have hnew : h ∉ l.bootstrapped.map Prod.fst := by
    intro hmem
    obtain ⟨p, hp, rfl⟩ := List.mem_map.mp hmem
    rcases sim.taken p hp with hold | hold <;> rw [hwait] at hold <;> cases hold
  obtain ⟨main, ws, hr, hmain, hwritten⟩ := afterMain_alive halive
  obtain ⟨l', hl', hmain', hboot', hfifo'⟩ :=
    exists_loop_join (s := l) (b := ⟨h, u, hu⟩) hnew (by rw [sim.main]; exact hr)
  refine ⟨l', .step hl trivial (e := .join ⟨h, u, hu⟩) hl', ?_, ?_, ?_⟩
  · rw [hmain', hmain]
  · intro k
    rw [hfifo', hwritten]
    exact sim.fifo_afterMain k
  · intro p hp
    rw [afterMain_phase]
    rw [hboot'] at hp
    rcases List.mem_append.mp hp with hp | hp
    · exact sim.phase (.inr (.inl rfl)) p hp
    · rw [List.mem_singleton.mp hp]
      exact .inl (update_self ..)

theorem simulates_serve (sim : Simulates s l) (hl : (mainLoop maxClients).Reachable l) {u : Bytes}
    (hs : chatStep s (.serve u) = some s') (halive : s'.mainAlive = true) :
    ∃ l', (mainLoop maxClients).Reachable l' ∧ Simulates s' l' := by
  obtain ⟨h, hget, rfl⟩ := step_serve hs
  obtain ⟨main, ws, hr, hmain, hwritten⟩ := afterMain_alive halive
  obtain ⟨l', hl', hmain', hboot', hfifo'⟩ :=
    exists_loop_serve (s := l) (by rw [sim.main]; exact hget) (by rw [sim.main]; exact hr)
  refine ⟨l', .step hl trivial (e := .serve u (s.up h)) hl', ?_, ?_, ?_⟩
  · rw [hmain', hmain]
  · intro k
    rw [hfifo', hwritten]
    exact sim.fifo_afterMain k
  · intro p hp
    rw [afterMain_phase]
    rw [hboot'] at hp
    exact sim.taken p hp

/-- What changes neither the containers nor what has been written to the handlers. -/
theorem Simulates.of_same (sim : Simulates s l) (hmain : s'.main = s.main)
    (hwritten : s'.written = s.written)
    (htaken : ∀ p ∈ l.bootstrapped, s'.phase p.1 = .joined ∨ s'.phase p.1 = .finished) :
    Simulates s' l := by
  refine ⟨by rw [sim.main, hmain], ?_, htaken⟩
  intro h
  rw [sim.fifo, hwritten]

theorem simulates_client (sim : Simulates s l) {h : Nat} {input : Bytes}
    (hs : chatStep s (.client h input) = some s') : Simulates s' l := by
  rcases step_client hs with rfl | ⟨rfl, -⟩ | ⟨u, -, hconn, rfl⟩ | ⟨m, -, rfl⟩
  · exact sim
  · exact sim.of_same rfl rfl (sim.phase (.inr (.inr rfl)))
  · refine sim.of_same rfl rfl (sim.phase (.inl ⟨?_, ?_⟩)) <;> rw [hconn] <;> decide
  · exact sim.of_same rfl rfl sim.taken

theorem simulates_deliver (sim : Simulates s l) {h : Nat}
    (hs : chatStep s (.deliver h) = some s') : Simulates s' l := by
  obtain ⟨-, ⟨-, rfl⟩ | ⟨rest, -, rfl⟩ | ⟨m, rest, -, rfl⟩⟩ := step_deliver hs
  · exact sim.of_same rfl rfl (sim.phase (.inr (.inr rfl)))
  · exact sim.of_same rfl rfl sim.taken
  · exact sim.of_same rfl rfl sim.taken

end Steps

/-- **As long as the main process lives, a run of the server is one of the main loop.** -/
theorem chat_simulated {maxClients : Nat} {s : ChatState} (h : (chat maxClients).Reachable s) :
    ∃ l, (mainLoop maxClients).Reachable l ∧ (s.mainAlive = true → Simulates s l) := by
  apply h.simulation (R := fun s l => s.mainAlive = true → Simulates s l)
  · rintro s rfl
    refine ⟨.start maxClients, rfl, fun _ => ⟨rfl, fun _ => rfl, ?_⟩⟩
    simp [LoopState.start]
  · intro s e s' l hr hsim hl hs
    by_cases halive : s'.mainAlive = true
    · have sim := hsim (mainAlive_of_step hs halive)
      cases e with
      | client h input => exact ⟨l, hl, fun _ => simulates_client sim hs⟩
      | deliver h => exact ⟨l, hl, fun _ => simulates_deliver sim hs⟩
      | join =>
          obtain ⟨l', hl', sim'⟩ := simulates_join (wired_of_reachable hr) sim hl hs halive
          exact ⟨l', hl', fun _ => sim'⟩
      | serve u =>
          obtain ⟨l', hl', sim'⟩ := simulates_serve sim hl hs halive
          exact ⟨l', hl', fun _ => sim'⟩
    · exact ⟨l, hl, fun hyes => absurd hyes halive⟩

/-! ## What holds of the server -/

section Server

variable {maxClients : Nat} {s : ChatState}

/-- Nobody is online twice, nor anybody too many, and the FIFOs are those of the users online. -/
theorem chat_members (h : (chat maxClients).Reachable s) (halive : s.mainAlive = true) :
    s.main.onlineUsers.Nodup ∧ s.main.onlineUsers.length ≤ maxClients ∧
      ∀ u, u ∈ s.main.wrFifos ↔ u ∈ s.main.onlineUsers := by
  obtain ⟨l, hl, hsim⟩ := chat_simulated h
  have m := members_of_reachable hl
  have hbounded := m.bounded
  have hwr := m.mem_wrFifos_iff
  have hnodup := m.nodup
  rw [maxClients_of_reachable hl] at hbounded
  rw [(hsim halive).main] at hbounded hwr hnodup
  exact ⟨hnodup, hbounded, hwr⟩

/-- What the main loop has written to the handler of a user agrees with who is online. -/
theorem chat_agrees (h : (chat maxClients).Reachable s) (halive : s.mainAlive = true) {u : Bytes}
    {handler : Nat} (hu : s.main.wrFifos[u]? = some handler) :
    Agrees s.main.onlineUsers u ((s.written handler).map Relay.message) := by
  obtain ⟨l, hl, hsim⟩ := chat_simulated h
  have sim := hsim halive
  rw [← sim.fifo, ← sim.main]
  exact (tracked_of_reachable hl).agrees u handler (by rw [sim.main]; exact hu)

end Server

end ComputerNetworking.Chat
