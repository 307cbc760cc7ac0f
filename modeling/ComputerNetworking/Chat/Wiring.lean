/-
# ComputerNetworking.Chat.Wiring -- which handler serves which user

In every reachable state of the chat server both maps hold the same descriptor under a name, no
handler is registered under two names, and a handler whose bootstrap message is still on the pipe is
registered under none. The names themselves are C strings of at most 16 bytes. All of it holds for
every run, whatever the clients send.
-/
import ComputerNetworking.Chat.System

namespace ComputerNetworking.Chat

open ComputerNetworking.Lib ComputerNetworking.Sbcp Function

/-! ## The invariant -/

/-- The main loop's maps, the bootstrap pipe and the handlers' phases fit together. -/
structure Wired (main : MainLoop) (pipe : List (Nat × Bytes)) (phase : Nat → Phase) : Prop where
  pipe_name : ∀ p ∈ pipe, IsName p.2
  pipe_waiting : ∀ p ∈ pipe, phase p.1 = .waiting
  pipe_nodup : (pipe.map Prod.fst).Nodup
  same : ∀ u : Bytes, main.rdFifos[u]? = main.wrFifos[u]?
  name : ∀ (u : Bytes) (h : Nat), main.wrFifos[u]? = some h → IsName u
  online : ∀ u ∈ main.onlineUsers, IsName u
  registered : ∀ (u : Bytes) (h : Nat), main.wrFifos[u]? = some h →
    phase h = .joined ∨ phase h = .finished
  injective : ∀ (u v : Bytes) (h : Nat), main.wrFifos[u]? = some h → main.wrFifos[v]? = some h →
    u = v

namespace Wired

variable {main : MainLoop} {pipe : List (Nat × Bytes)} {phase : Nat → Phase} {h : Nat} {u : Bytes}

theorem start (maxClients : Nat) : Wired (.start maxClients) [] fun _ => .connected where
  pipe_name := by simp
  pipe_waiting := by simp
  pipe_nodup := List.nodup_nil
  same := fun _ => rfl
  name := by simp [MainLoop.start]
  online := by simp [MainLoop.start]
  registered := by simp [MainLoop.start]
  injective := by simp [MainLoop.start]

/-- A handler that is not waiting has no bootstrap message on the pipe. -/
theorem ne_of_not_waiting (w : Wired main pipe phase) (hp : phase h ≠ .waiting)
    {p : Nat × Bytes} (hmem : p ∈ pipe) : p.1 ≠ h := by
  rintro rfl
  exact hp (w.pipe_waiting p hmem)

/-- A handler that has not joined, be it still there or not, is registered under no name. -/
theorem unregistered (w : Wired main pipe phase) (hj : phase h ≠ .joined)
    (hf : phase h ≠ .finished) (v : Bytes) : main.wrFifos[v]? ≠ some h := by
  intro hv
  rcases w.registered v h hv with hp | hp
  · exact hj hp
  · exact hf hp

/-- A handler that sends its bootstrap message is on the pipe once. -/
theorem bootstrap (w : Wired main pipe phase) (hp : phase h = .connected) (hu : IsName u) :
    Wired main (pipe ++ [(h, u)]) (update phase h .waiting) where
  pipe_name := by
    intro p hmem
    rcases List.mem_append.mp hmem with hmem | hmem
    · exact w.pipe_name p hmem
    · rw [List.mem_singleton.mp hmem]
      exact hu
  pipe_waiting := by
    intro p hmem
    rcases List.mem_append.mp hmem with hmem | hmem
    · rw [update_of_ne (w.ne_of_not_waiting (by rw [hp]; decide) hmem)]
      exact w.pipe_waiting p hmem
    · rw [List.mem_singleton.mp hmem]
      exact update_self ..
  pipe_nodup := by
    rw [List.map_append, List.nodup_append]
    refine ⟨w.pipe_nodup, by simp, ?_⟩
    intro a ha b hb
    obtain ⟨p, hmem, rfl⟩ := List.mem_map.mp ha
    rw [List.mem_singleton.mp hb]
    exact w.ne_of_not_waiting (by rw [hp]; decide) hmem
  same := w.same
  name := w.name
  online := w.online
  registered := by
    intro v k hv
    have hk : k ≠ h := by
      rintro rfl
      exact w.unregistered (by rw [hp]; decide) (by rw [hp]; decide) v hv
    rw [update_of_ne hk]
    exact w.registered v k hv
  injective := w.injective

/-- A handler that ends was not waiting. -/
theorem finish (w : Wired main pipe phase) (hp : phase h ≠ .waiting) :
    Wired main pipe (update phase h .finished) where
  pipe_name := w.pipe_name
  pipe_waiting := by
    intro p hmem
    rw [update_of_ne (w.ne_of_not_waiting hp hmem)]
    exact w.pipe_waiting p hmem
  pipe_nodup := w.pipe_nodup
  same := w.same
  name := w.name
  online := w.online
  registered := by
    intro v k hv
    by_cases hk : k = h
    · subst hk
      exact .inr (update_self ..)
    · rw [update_of_ne hk]
      exact w.registered v k hv
  injective := w.injective

/-- The handler at the head of the pipe joins; nobody is registered with it yet. -/
theorem pop (w : Wired main ((h, u) :: pipe) phase) :
    Wired main pipe (update phase h .joined) ∧ ∀ v : Bytes, main.wrFifos[v]? ≠ some h := by
  -- a registered handler has joined, this one is still waiting
  have hwait : phase h = .waiting := w.pipe_waiting (h, u) (by simp)
  have hnodup := w.pipe_nodup
  rw [List.map_cons, List.nodup_cons] at hnodup
  have hfree := w.unregistered (h := h) (by rw [hwait]; decide) (by rw [hwait]; decide)
  refine ⟨?_, hfree⟩
  exact {
    pipe_name := fun p hmem => w.pipe_name p (List.mem_cons_of_mem _ hmem)
    pipe_waiting := by
      intro p hmem
      have hne : p.1 ≠ h := by
        intro heq
        apply hnodup.1
        rw [← heq]
        show p.1 ∈ pipe.map Prod.fst
        exact List.mem_map_of_mem hmem
      rw [update_of_ne hne]
      exact w.pipe_waiting p (List.mem_cons_of_mem _ hmem)
    pipe_nodup := hnodup.2
    same := w.same
    name := w.name
    online := w.online
    registered := by
      intro v k hv
      have hk : k ≠ h := by
        rintro rfl
        exact hfree v hv
      rw [update_of_ne hk]
      exact w.registered v k hv
    injective := w.injective }

/-- Taking in a user whose handler nobody is registered with. -/
theorem insertUser (w : Wired main pipe phase) (hu : IsName u) (hp : phase h = .joined)
    (hfree : ∀ v : Bytes, main.wrFifos[v]? ≠ some h) :
    Wired (main.insertUser h u) pipe phase := by
  refine ⟨w.pipe_name, w.pipe_waiting, w.pipe_nodup, ?_, ?_, ?_, ?_, ?_⟩
  · intro v
    rw [MainLoop.insertUser_rdFifos, MainLoop.insertUser_wrFifos, w.same]
  · intro v k hv
    rw [MainLoop.insertUser_wrFifos] at hv
    by_cases huv : u = v
    · rw [← huv]
      exact hu
    · rw [if_neg huv] at hv
      exact w.name v k hv
  · intro v hv
    rcases List.mem_append.mp hv with hv | hv
    · exact w.online v hv
    · rw [List.mem_singleton.mp hv]
      exact hu
  · intro v k hv
    rw [MainLoop.insertUser_wrFifos] at hv
    by_cases huv : u = v
    · rw [if_pos huv] at hv
      cases hv
      exact .inl hp
    · rw [if_neg huv] at hv
      exact w.registered v k hv
  · -- two names with one handler: if one of them is new, the handler was free
    intro v v' k hv hv'
    rw [MainLoop.insertUser_wrFifos] at hv hv'
    by_cases huv : u = v
    · by_cases huv' : u = v'
      · rw [← huv, ← huv']
      · rw [if_pos huv] at hv
        rw [if_neg huv'] at hv'
        cases hv
        exact absurd hv' (hfree v')
    · rw [if_neg huv] at hv
      by_cases huv' : u = v'
      · rw [if_pos huv'] at hv'
        cases hv'
        exact absurd hv (hfree v)
      · rw [if_neg huv'] at hv'
        exact w.injective v v' k hv hv'

/-- Taking out a user. -/
theorem eraseUser (w : Wired main pipe phase) (u : Bytes) :
    Wired (main.eraseUser u) pipe phase := by
  have hkept : ∀ (v : Bytes) (k : Nat), (main.eraseUser u).wrFifos[v]? = some k →
      main.wrFifos[v]? = some k := by
    intro v k hv
    rw [MainLoop.eraseUser_wrFifos] at hv
    by_cases huv : u = v
    · rw [if_pos huv] at hv
      cases hv
    · rwa [if_neg huv] at hv
  refine ⟨w.pipe_name, w.pipe_waiting, w.pipe_nodup, ?_, ?_, ?_, ?_, ?_⟩
  · intro v
    rw [MainLoop.eraseUser_rdFifos, MainLoop.eraseUser_wrFifos, w.same]
  · intro v k hv
    exact w.name v k (hkept v k hv)
  · intro v hv
    exact w.online v (List.mem_of_mem_filter hv)
  · intro v k hv
    exact w.registered v k (hkept v k hv)
  · intro v v' k hv hv'
    exact w.injective v v' k (hkept v k hv) (hkept v' k hv')

end Wired

/-! ## Every run keeps it -/

/-- What a bootstrap message does to the main loop's state. -/
theorem join_main {s s' : MainLoop} {ws : List Write} {h : Nat} {u : Bytes} (hu : IsName u)
    (honline : ∀ v ∈ s.onlineUsers, IsName v) (hs : s.join h u = .ok (s', ws)) :
    s' = s ∨ s' = s.insertUser h u := by
  rcases MainLoop.join_cases hu.2 honline hs with ⟨-, rfl, -⟩ | ⟨-, rfl, -⟩
  · exact .inl rfl
  · exact .inr rfl

/-- What serving a FIFO does to it. -/
theorem serve_main {s s' : MainLoop} {ws : List Write} {u input : Bytes} (hu : IsName u)
    (hs : s.serve u input = .ok (s', ws)) : s' = s ∨ s' = s.eraseUser u := by
  rcases MainLoop.serve_cases hs with ⟨-, hd⟩ | ⟨m, rest, t, as, -, hm, hact⟩
  · exact .inr (MainLoop.disconnect_cases hu hd).1
  · exact .inl (MainLoop.actOn_cases hu hm hact).1

theorem ChatState.afterMain_wired {s : ChatState} {sender : Option (Nat × Bytes)}
    {r : Except Fault (MainLoop × List Write)} (w : Wired s.main s.pipe s.phase)
    (hr : ∀ main ws, r = .ok (main, ws) → Wired main s.pipe s.phase) :
    Wired (s.afterMain sender r).main (s.afterMain sender r).pipe (s.afterMain sender r).phase := by
  rcases r with e | ⟨main, ws⟩
  · exact w
  · exact hr main ws rfl

theorem wired_step {s s' : ChatState} {e : Event} (w : Wired s.main s.pipe s.phase)
    (hs : chatStep s e = some s') : Wired s'.main s'.pipe s'.phase := by
  cases e with
  | client h input =>
      rcases step_client hs with rfl | ⟨rfl, hp⟩ | ⟨u, hu, hp, rfl⟩ | ⟨m, -, rfl⟩
      · exact w
      · exact w.finish hp
      · exact w.bootstrap hp hu
      · exact w
  | join =>
      obtain ⟨h, u, rest, hpipe, rfl⟩ := step_join hs
      rw [hpipe] at w
      have hu : IsName u := w.pipe_name (h, u) (by simp)
      obtain ⟨w', hfree⟩ := w.pop
      apply ChatState.afterMain_wired w'
      intro main ws hr
      rcases join_main hu w.online hr with rfl | rfl
      · exact w'
      · exact w'.insertUser hu (update_self ..) hfree
  | serve u =>
      obtain ⟨h, hget, rfl⟩ := step_serve hs
      have hu : IsName u := w.name u h (by rw [← w.same]; exact hget)
      apply ChatState.afterMain_wired
      · exact w
      · intro main ws hr
        rcases serve_main hu hr with rfl | rfl
        · exact w
        · exact w.eraseUser u
  | deliver h =>
      rcases step_deliver hs with ⟨hp, ⟨-, rfl⟩ | ⟨rest, -, rfl⟩ | ⟨m, rest, -, rfl⟩⟩
      · exact w.finish (by rw [hp]; decide)
      · exact w
      · exact w

/-- **Descriptors and names fit together in every reachable state**, under any condition on the
events and under none. -/
theorem wired_of_reachable {maxClients : Nat} {G : ChatState → Event → Prop} {s : ChatState}
    (h : (chat maxClients).ReachableUnder G s) : Wired s.main s.pipe s.phase := by
  apply h.invariant
  · rintro s rfl
    exact Wired.start maxClients
  · intro s e s' w _ hs
    exact wired_step w hs

end ComputerNetworking.Chat
