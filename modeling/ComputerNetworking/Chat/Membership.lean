/-
# ComputerNetworking.Chat.Membership -- one set of users in three containers

The main loop keeps who is online in two maps and a list, and updates them at separate places. In every
reachable state they hold the same names, the list no name twice and not more than the limit, and the
descriptors under a name are the open ones of the handler that joined with it. The limit is only
tested for equality, so that a full list stays full is part of the invariant.
-/
import ComputerNetworking.Chat.Loop
import Mathlib.Data.List.Nodup

namespace ComputerNetworking.Chat

open ComputerNetworking.Lib ComputerNetworking.Sbcp

/-! ## The invariant -/

/-- The containers, the bootstrap messages taken so far and the open descriptors fit together. -/
structure Members (main : MainLoop) (bootstrapped : List (Nat × Bytes))
    (reading writing : Finset Nat) : Prop where
  same : ∀ u : Bytes, main.rdFifos[u]? = main.wrFifos[u]?
  online : ∀ u : Bytes, u ∈ main.onlineUsers ↔ ∃ h, main.wrFifos[u]? = some h
  nodup : main.onlineUsers.Nodup
  bounded : main.onlineUsers.length ≤ main.maxClients
  names : ∀ p ∈ bootstrapped, IsName p.2
  handlers : (bootstrapped.map Prod.fst).Nodup
  owner : ∀ (u : Bytes) (h : Nat), main.wrFifos[u]? = some h → (h, u) ∈ bootstrapped
  reading : ∀ h, h ∈ reading ↔ ∃ u : Bytes, main.wrFifos[u]? = some h
  writing : ∀ h, h ∈ writing ↔ ∃ u : Bytes, main.wrFifos[u]? = some h

namespace Members

variable {main : MainLoop} {bootstrapped : List (Nat × Bytes)} {reading writing : Finset Nat}
  {h : Nat} {u : Bytes}

theorem start (maxClients : Nat) : Members (.start maxClients) [] ∅ ∅ where
  same := fun _ => rfl
  online := by simp [MainLoop.start]
  nodup := List.nodup_nil
  bounded := Nat.zero_le _
  names := by simp
  handlers := List.nodup_nil
  owner := by simp [MainLoop.start]
  reading := by simp [MainLoop.start]
  writing := by simp [MainLoop.start]

/-- A handler is registered under one name. -/
theorem injective (m : Members main bootstrapped reading writing) {v : Bytes}
    (hu : main.wrFifos[u]? = some h) (hv : main.wrFifos[v]? = some h) : u = v := by
  have heq := List.inj_on_of_nodup_map m.handlers (m.owner u h hu) (m.owner v h hv) rfl
  exact congrArg Prod.snd heq

theorem isName (m : Members main bootstrapped reading writing) (hu : u ∈ main.onlineUsers) :
    IsName u := by
  obtain ⟨h, hget⟩ := (m.online u).mp hu
  exact m.names _ (m.owner u h hget)

theorem mem_rdFifos_iff (m : Members main bootstrapped reading writing) (u : Bytes) :
    u ∈ main.rdFifos ↔ u ∈ main.onlineUsers := by
  rw [Std.TreeMap.mem_iff_isSome_getElem?, m.same, m.online, Option.isSome_iff_exists]

theorem isName_of_mem (m : Members main bootstrapped reading writing) :
    ∀ v ∈ main.rdFifos, IsName v := by
  intro v hv
  exact m.isName ((m.mem_rdFifos_iff v).mp hv)

theorem mem_wrFifos_iff (m : Members main bootstrapped reading writing) (u : Bytes) :
    u ∈ main.wrFifos ↔ u ∈ main.onlineUsers := by
  rw [Std.TreeMap.mem_iff_isSome_getElem?, m.online, Option.isSome_iff_exists]

/-- A handler that has not been there is registered under no name. -/
theorem unregistered (m : Members main bootstrapped reading writing)
    (hnew : h ∉ bootstrapped.map Prod.fst) (u : Bytes) : main.wrFifos[u]? ≠ some h := by
  intro hu
  apply hnew
  exact List.mem_map_of_mem (m.owner u h hu)

/-- Taking a bootstrap message, whatever is done with it. -/
theorem record (m : Members main bootstrapped reading writing)
    (hnew : h ∉ bootstrapped.map Prod.fst) (hu : IsName u) :
    Members main (bootstrapped ++ [(h, u)]) reading writing where
  same := m.same
  online := m.online
  nodup := m.nodup
  bounded := m.bounded
  names := by
    intro p hp
    rcases List.mem_append.mp hp with hp | hp
    · exact m.names p hp
    · rw [List.mem_singleton.mp hp]
      exact hu
  handlers := by
    rw [List.map_append, List.nodup_append]
    refine ⟨m.handlers, by simp, ?_⟩
    intro a ha b hb
    rw [List.mem_singleton.mp hb]
    rintro rfl
    exact hnew ha
  owner := fun v k hv => List.mem_append_left _ (m.owner v k hv)
  reading := m.reading
  writing := m.writing

/-- Closing what is not open any more makes no difference. -/
theorem close_new (m : Members main bootstrapped reading writing)
    (hnew : h ∉ bootstrapped.map Prod.fst) : reading.erase h = reading ∧ writing.erase h = writing := by
  constructor
  · apply Finset.erase_eq_of_notMem
    intro hmem
    obtain ⟨u, hu⟩ := (m.reading h).mp hmem
    exact m.unregistered hnew u hu
  · apply Finset.erase_eq_of_notMem
    intro hmem
    obtain ⟨u, hu⟩ := (m.writing h).mp hmem
    exact m.unregistered hnew u hu

/-- After a user is taken in, his handler and the ones before are registered. -/
theorem exists_insert_iff (hu : main.wrFifos[u]? = none) (k : Nat) :
    (∃ v : Bytes, (main.insertUser h u).wrFifos[v]? = some k) ↔
      k = h ∨ ∃ v : Bytes, main.wrFifos[v]? = some k := by
  constructor
  · rintro ⟨v, hv⟩
    rw [MainLoop.insertUser_wrFifos] at hv
    by_cases huv : u = v
    · rw [if_pos huv] at hv
      exact .inl (Option.some.inj hv).symm
    · rw [if_neg huv] at hv
      exact .inr ⟨v, hv⟩
  · rintro (rfl | ⟨v, hv⟩)
    · exact ⟨u, by rw [MainLoop.insertUser_wrFifos, if_pos rfl]⟩
    · refine ⟨v, ?_⟩
      have huv : u ≠ v := by
        rintro rfl
        rw [hu] at hv
        cases hv
      rw [MainLoop.insertUser_wrFifos, if_neg huv]
      exact hv

/-- After a user is taken out, the handlers of the others are registered. -/
theorem exists_erase_iff (m : Members main bootstrapped reading writing)
    (hu : main.wrFifos[u]? = some h) (k : Nat) :
    (∃ v : Bytes, (main.eraseUser u).wrFifos[v]? = some k) ↔
      k ≠ h ∧ ∃ v : Bytes, main.wrFifos[v]? = some k := by
  constructor
  · rintro ⟨v, hv⟩
    rw [MainLoop.eraseUser_wrFifos] at hv
    by_cases huv : u = v
    · rw [if_pos huv] at hv
      cases hv
    · rw [if_neg huv] at hv
      refine ⟨?_, v, hv⟩
      rintro rfl
      exact huv (m.injective hu hv)
  · rintro ⟨hne, v, hv⟩
    refine ⟨v, ?_⟩
    have huv : u ≠ v := by
      rintro rfl
      rw [hu] at hv
      exact hne (Option.some.inj hv).symm
    rw [MainLoop.eraseUser_wrFifos, if_neg huv]
    exact hv

/-- Taking in a user whose bootstrap message has been recorded. -/
theorem insertUser (m : Members main bootstrapped reading writing) (hacc : ¬ main.Refuses u)
    (hrec : (h, u) ∈ bootstrapped) :
    Members (main.insertUser h u) bootstrapped (insert h reading) (insert h writing) := by
  have hnone : main.wrFifos[u]? = none := by
    rw [← m.same]
    apply Std.TreeMap.getElem?_eq_none
    intro hmem
    exact hacc (.inl hmem)
  have hoff : u ∉ main.onlineUsers := by
    rw [m.online, hnone]
    simp
  refine ⟨?_, ?_, ?_, ?_, m.names, m.handlers, ?_, ?_, ?_⟩
  · intro v
    rw [MainLoop.insertUser_rdFifos, MainLoop.insertUser_wrFifos, m.same]
  · intro v
    rw [MainLoop.insertUser_onlineUsers, MainLoop.insertUser_wrFifos, List.mem_append,
      List.mem_singleton, m.online]
    by_cases huv : u = v
    · rw [if_pos huv]
      exact iff_of_true (.inr huv.symm) ⟨h, rfl⟩
    · rw [if_neg huv]
      exact or_iff_left (Ne.symm huv)
  · rw [MainLoop.insertUser_onlineUsers, List.nodup_append]
    refine ⟨m.nodup, by simp, ?_⟩
    intro a ha b hb
    rw [List.mem_singleton.mp hb]
    rintro rfl
    exact hoff ha
  · -- the list is not full, so it is shorter than the limit
    have hne : main.onlineUsers.length ≠ main.maxClients := fun hfull => hacc (.inr hfull)
    have hle := m.bounded
    rw [MainLoop.insertUser_onlineUsers, MainLoop.insertUser_maxClients, List.length_append,
      List.length_singleton]
    omega
  · intro v k hv
    rw [MainLoop.insertUser_wrFifos] at hv
    by_cases huv : u = v
    · rw [if_pos huv] at hv
      cases hv
      rw [← huv]
      exact hrec
    · rw [if_neg huv] at hv
      exact m.owner v k hv
  · intro k
    rw [exists_insert_iff hnone, Finset.mem_insert, m.reading]
  · intro k
    rw [exists_insert_iff hnone, Finset.mem_insert, m.writing]

/-- Taking out a user and closing his handler's FIFOs. -/
theorem eraseUser (m : Members main bootstrapped reading writing)
    (hu : main.wrFifos[u]? = some h) :
    Members (main.eraseUser u) bootstrapped (reading.erase h) (writing.erase h) := by
  refine ⟨?_, ?_, ?_, ?_, m.names, m.handlers, ?_, ?_, ?_⟩
  · intro v
    rw [MainLoop.eraseUser_rdFifos, MainLoop.eraseUser_wrFifos, m.same]
  · intro v
    rw [MainLoop.eraseUser_onlineUsers, MainLoop.eraseUser_wrFifos, List.mem_filter, m.online]
    by_cases huv : u = v
    · simp [huv]
    · simp [huv, Ne.symm huv]
  · rw [MainLoop.eraseUser_onlineUsers]
    exact m.nodup.filter _
  · rw [MainLoop.eraseUser_onlineUsers, MainLoop.eraseUser_maxClients]
    exact Nat.le_trans (List.length_filter_le ..) m.bounded
  · intro v k hv
    rw [MainLoop.eraseUser_wrFifos] at hv
    by_cases huv : u = v
    · rw [if_pos huv] at hv
      cases hv
    · rw [if_neg huv] at hv
      exact m.owner v k hv
  · intro k
    rw [m.exists_erase_iff hu, Finset.mem_erase, m.reading]
  · intro k
    rw [m.exists_erase_iff hu, Finset.mem_erase, m.writing]

end Members

/-! ## Every run keeps it -/

/-- `Members` of a state. -/
def LoopState.Members (s : LoopState) : Prop :=
  Chat.Members s.main s.bootstrapped s.reading s.writing

section Runs

variable {s s' : LoopState}

theorem members_join {b : Bootstrap} (m : s.Members) (hs : s.join b = some s') : s'.Members := by
  obtain ⟨hnew, hboot, hcase⟩ := loop_join_cases (fun u => m.isName) hs
  have hrec := m.record hnew b.isName
  have hmem : (b.handler, b.username) ∈ s.bootstrapped ++ [(b.handler, b.username)] :=
    List.mem_append_right _ (List.mem_singleton.mpr rfl)
  unfold LoopState.Members
  rcases hcase with ⟨-, hmain, hrd, hwr, -⟩ | ⟨hacc, hmain, hrd, hwr, -⟩
  · obtain ⟨hsame, hsame'⟩ := m.close_new hnew
    rw [hboot, hmain, hrd, hwr, hsame, hsame']
    exact hrec
  · rw [hboot, hmain, hrd, hwr]
    exact hrec.insertUser hacc hmem

theorem members_serve {u input : Bytes} (m : s.Members) (hs : s.serve u input = some s') :
    s'.Members := by
  obtain ⟨hboot, h, hget, hcase⟩ := loop_serve_cases m.isName_of_mem hs
  rw [m.same] at hget
  unfold LoopState.Members
  rcases hcase with ⟨hmain, hrd, hwr, -⟩ | ⟨hmain, hrd, hwr, -⟩
  · rw [hboot, hmain, hrd, hwr, hget]
    exact m.eraseUser hget
  · rw [hboot, hmain, hrd, hwr]
    exact m

theorem members_step {maxClients : Nat} {e : LoopEvent} (m : s.Members)
    (hs : (mainLoop maxClients).step s e = some s') : s'.Members := by
  cases e with
  | join b => exact members_join m hs
  | serve u input => exact members_serve m hs

theorem members_of_reachable {maxClients : Nat} (h : (mainLoop maxClients).Reachable s) :
    s.Members := by
  apply h.invariant
  · rintro s rfl
    exact Members.start maxClients
  · intro s e s' m _ hs
    exact members_step m hs

/-- The limit is the one the loop was started with. -/
theorem maxClients_of_reachable {maxClients : Nat} (h : (mainLoop maxClients).Reachable s) :
    s.main.maxClients = maxClients := by
  apply h.invariant_of_reachable
  · rintro s rfl
    rfl
  · intro s e s' hr hmax _ hs
    have m := members_of_reachable hr
    cases e with
    | join b =>
        obtain ⟨-, -, ⟨-, hmain, -⟩ | ⟨-, hmain, -⟩⟩ := loop_join_cases (fun u => m.isName) hs
        · rw [hmain, hmax]
        · rw [hmain, MainLoop.insertUser_maxClients, hmax]
    | serve u input =>
        obtain ⟨-, h, -, ⟨hmain, -⟩ | ⟨hmain, -⟩⟩ := loop_serve_cases m.isName_of_mem hs
        · rw [hmain, MainLoop.eraseUser_maxClients, hmax]
        · rw [hmain, hmax]

end Runs

/-! ## Membership -/

/-- The two maps and the list are one set of at most `maxClients` names, and under each name are the
descriptors of the handler that joined with it, which are the ones open. -/
structure Membership (maxClients : Nat) (s : LoopState) : Prop where
  rdFifos : ∀ u, u ∈ s.main.rdFifos ↔ u ∈ s.main.onlineUsers
  wrFifos : ∀ u, u ∈ s.main.wrFifos ↔ u ∈ s.main.onlineUsers
  nodup : s.main.onlineUsers.Nodup
  bounded : s.main.onlineUsers.length ≤ maxClients
  handlers : (s.bootstrapped.map Prod.fst).Nodup
  rdOwner : ∀ (u : Bytes) (h : Nat), s.main.rdFifos[u]? = some h → (h, u) ∈ s.bootstrapped
  wrOwner : ∀ (u : Bytes) (h : Nat), s.main.wrFifos[u]? = some h → (h, u) ∈ s.bootstrapped
  reading : ∀ h, h ∈ s.reading ↔ ∃ u : Bytes, s.main.rdFifos[u]? = some h
  writing : ∀ h, h ∈ s.writing ↔ ∃ u : Bytes, s.main.wrFifos[u]? = some h

theorem Membership.of_members {s : LoopState} {maxClients : Nat} (m : s.Members)
    (hmax : s.main.maxClients = maxClients) : Membership maxClients s where
  rdFifos := m.mem_rdFifos_iff
  wrFifos := m.mem_wrFifos_iff
  nodup := m.nodup
  bounded := by
    rw [← hmax]
    exact m.bounded
  handlers := m.handlers
  rdOwner := by
    intro u h hu
    rw [m.same] at hu
    exact m.owner u h hu
  wrOwner := m.owner
  reading := by
    intro h
    rw [m.reading]
    simp only [m.same]
  writing := m.writing

/-- A step does not put another handler under a name. -/
theorem registered_step {maxClients : Nat} {s s' : LoopState} {e : LoopEvent} (m : s.Members)
    (hs : (mainLoop maxClients).step s e = some s') {u : Bytes} {h k : Nat}
    (hu : s.main.wrFifos[u]? = some h) (hk : s'.main.wrFifos[u]? = some k) : k = h := by
  cases e with
  | join b =>
      obtain ⟨-, -, ⟨-, hmain, -⟩ | ⟨hacc, hmain, -⟩⟩ := loop_join_cases (fun u => m.isName) hs
      · rw [hmain, hu] at hk
        exact (Option.some.inj hk).symm
      · have hne : b.username ≠ u := by
          rintro rfl
          apply hacc
          left
          rw [← Std.TreeMap.mem_iff_contains, m.mem_rdFifos_iff, m.online]
          exact ⟨h, hu⟩
        rw [hmain, MainLoop.insertUser_wrFifos, if_neg hne, hu] at hk
        exact (Option.some.inj hk).symm
  | serve v input =>
      obtain ⟨-, h', -, ⟨hmain, -⟩ | ⟨hmain, -⟩⟩ := loop_serve_cases m.isName_of_mem hs
      · rw [hmain, MainLoop.eraseUser_wrFifos] at hk
        by_cases hvu : v = u
        · rw [if_pos hvu] at hk
          cases hk
        · rw [if_neg hvu, hu] at hk
          exact (Option.some.inj hk).symm
      · rw [hmain, hu] at hk
        exact (Option.some.inj hk).symm

/-- The bootstrap messages taken stay on record. -/
theorem bootstrapped_step {maxClients : Nat} {s s' : LoopState} {e : LoopEvent} (m : s.Members)
    (hs : (mainLoop maxClients).step s e = some s') {p : Nat × Bytes} (hp : p ∈ s.bootstrapped) :
    p ∈ s'.bootstrapped := by
  cases e with
  | join b =>
      obtain ⟨-, hboot, -⟩ := loop_join_cases (fun u => m.isName) hs
      rw [hboot]
      exact List.mem_append_left _ hp
  | serve v input =>
      rw [(loop_serve_cases m.isName_of_mem hs).1]
      exact hp

/-- A user stays online exactly as long as his handler is registered. -/
theorem registered_iff_online {maxClients : Nat} {s s' : LoopState} {e : LoopEvent} (m : s.Members)
    (hs : (mainLoop maxClients).step s e = some s') {u : Bytes} {h : Nat}
    (hu : s.main.wrFifos[u]? = some h) :
    (∃ v : Bytes, s'.main.wrFifos[v]? = some h) ↔ u ∈ s'.main.onlineUsers := by
  have m' := members_step m hs
  constructor
  · rintro ⟨v, hv⟩
    -- the handler came with this name, and with no other
    have heq := List.inj_on_of_nodup_map m'.handlers (bootstrapped_step m hs (m.owner u h hu))
      (m'.owner v h hv) rfl
    cases heq
    exact (m'.online u).mpr ⟨h, hv⟩
  · intro hon
    obtain ⟨k, hk⟩ := (m'.online u).mp hon
    rw [registered_step m hs hu hk] at hk
    exact ⟨u, hk⟩

/-- **In every reachable state the two maps and the list are one set of at most `maxClients` names, with
the open descriptors of the users' own handlers under them. A step closes the descriptors under a
name exactly if it removes the name, and a refused join changes none of it.** -/
theorem membership (maxClients : Nat) (s : LoopState) (h : (mainLoop maxClients).Reachable s) :
    Membership maxClients s ∧
      (∀ e s', (mainLoop maxClients).step s e = some s' →
        ∀ (u : Bytes) (h : Nat), s.main.rdFifos[u]? = some h →
          (u ∉ s'.main.onlineUsers ↔ h ∉ s'.reading) ∧
            (u ∉ s'.main.onlineUsers ↔ h ∉ s'.writing)) ∧
      ∀ b s', s.main.Refuses b.username → (mainLoop maxClients).step s (.join b) = some s' →
        s'.main = s.main ∧ s'.reading = s.reading ∧ s'.writing = s.writing := by
  have m := members_of_reachable h
  refine ⟨.of_members m (maxClients_of_reachable h), ?_, ?_⟩
  · intro e s' hs u h hu
    have m' := members_step m hs
    rw [m.same] at hu
    rw [m'.reading, m'.writing, registered_iff_online m hs hu]
    exact ⟨Iff.rfl, Iff.rfl⟩
  · intro b s' href hs
    obtain ⟨hnew, -, ⟨-, hmain, hrd, hwr, -⟩ | ⟨hacc, -⟩⟩ := loop_join_cases (fun u => m.isName) hs
    · obtain ⟨hsame, hsame'⟩ := m.close_new hnew
      exact ⟨hmain, hrd.trans hsame, hwr.trans hsame'⟩
    · exact absurd href hacc

/-- One place, two names: the second join is refused, and then the first user disconnects. -/
theorem membership_full :
    ∃ s s' s'', (mainLoop 1).run (.start 1) [.join ⟨7, ascii "ann", by decide⟩] = some s ∧
      (mainLoop 1).step s (.join ⟨8, ascii "bob", by decide⟩) = some s' ∧ s'.main = s.main ∧
      Membership 1 s' ∧ s'.main.onlineUsers = [ascii "ann"] ∧ 7 ∈ s'.reading ∧
      (mainLoop 1).step s' (.serve (ascii "ann") []) = some s'' ∧ Membership 1 s'' ∧
      s''.main.onlineUsers = [] ∧ 7 ∉ s''.reading ∧ 7 ∉ s''.writing := by
  have hrun : (mainLoop 1).run (.start 1) [.join ⟨7, ascii "ann", by decide⟩] = some _ := rfl
  have hann := Machine.reachable_of_run (M := mainLoop 1) rfl hrun
  obtain ⟨-, -, hrefused⟩ := membership 1 _ hann
  have hbob := hann.step trivial (e := .join ⟨8, ascii "bob", by decide⟩) rfl
  obtain ⟨hm, hcloses, -⟩ := membership 1 _ hbob
  have hleft := hcloses (.serve (ascii "ann") []) _ rfl (ascii "ann") 7 rfl
  refine ⟨_, _, _, hrun, rfl, (hrefused ⟨8, ascii "bob", by decide⟩ _ (by decide) rfl).1, hm, rfl, by decide,
    rfl, (membership 1 _ (hbob.step trivial (e := .serve (ascii "ann") []) rfl)).1, rfl, ?_, ?_⟩
  · exact hleft.1.mp (by decide)
  · exact hleft.2.mp (by decide)

end ComputerNetworking.Chat
