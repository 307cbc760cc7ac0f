/-
# ComputerNetworking.Chat.Acknowledge -- the ACK a newcomer gets

A user who is taken in gets an ACK that lists everybody online. It has to fit into 1024 bytes, and
nothing but `max_clients` bounds how many users there are. Where it does not fit, the exception comes
after the newcomer has been put into the containers, and ends the only process there is:
`join_acknowledged_iff`.
-/
import ComputerNetworking.Chat.Roster

namespace ComputerNetworking.Chat

open ComputerNetworking.Lib ComputerNetworking.Sbcp

/-! ## When it fits -/

/-- The client count and all names online fit into a payload. -/
def MainLoop.AckFits (s : MainLoop) : Prop :=
  attributeHeaderSize + sizeofClientCount + usernamesSize s.onlineUsers ≤ sbcpMaxPayloadLength

instance (s : MainLoop) : Decidable s.AckFits := by
  unfold MainLoop.AckFits
  infer_instance

/-- The join is answered with an ACK that lists everybody online. -/
def Acknowledged (s : MainLoop) (handler : Nat) (username : Bytes) : Prop :=
  ∃ s' ack ws, s.join handler username = .ok (s', ⟨handler, ack⟩ :: ws) ∧
    ack.getType = some .ack ∧ usernamesOf ack = s.onlineUsers

/-- If the join fails, the containers are as they were. -/
def UnchangedOnFailure (s : MainLoop) (handler : Nat) (username : Bytes) : Prop :=
  ∀ e, s.join handler username = .error e →
    (s.afterJoin handler username).rdFifos = s.rdFifos ∧
      (s.afterJoin handler username).wrFifos = s.wrFifos ∧
      (s.afterJoin handler username).onlineUsers = s.onlineUsers

section Join

variable {s : MainLoop} {handler : Nat} {username : Bytes}

/-- An ACK that has been built fits. -/
theorem fits_of_isAck {m : Message} (h : MainLoop.IsAck m s.onlineUsers) : s.AckFits := by
  obtain ⟨-, names, hvalues, -, hp, -⟩ := h
  have hle := hp.length_le
  rw [encodeAttrs_cons, List.length_append, encodeAttrs_usernames, hvalues] at hle
  exact hle

/-- With room for all the names the join goes through. -/
theorem join_of_fits (handler : Nat) (hname : username.length ≤ sbcpMaxUsernameLength)
    (honline : ∀ u ∈ s.onlineUsers, IsName u) (hacc : ¬ s.Refuses username) (hfits : s.AckFits) :
    ∃ ws, s.join handler username = .ok (s.insertUser handler username, ws) := by
  have hcount : s.onlineUsers.length + 1 =
      (UInt16.ofNat (s.insertUser handler username).onlineUsers.length).toNat := by
    -- no name takes less than its header, so there are few of them
    have hle := length_le_usernamesSize s.onlineUsers
    unfold MainLoop.AckFits at hfits
    simp only [attributeHeaderSize, sizeofClientCount, sbcpMaxPayloadLength] at hfits
    rw [MainLoop.insertUser_onlineUsers, List.length_append, List.length_singleton,
      UInt16.toNat_ofNat']
    omega
  obtain ⟨ack, -, hack, -⟩ := ack_packed hcount (fun u hu => (honline u hu).2) hfits
  obtain ⟨online, honl, -⟩ := online_packed hname
  unfold MainLoop.Refuses at hacc
  push Not at hacc
  unfold MainLoop.join
  rw [if_neg hacc.1, if_neg hacc.2]
  simp only [hack, honl]
  exact ⟨_, rfl⟩

/-- Without room it throws, or an assertion fails. -/
theorem join_of_not_fits (handler : Nat) (hname : username.length ≤ sbcpMaxUsernameLength)
    (honline : ∀ u ∈ s.onlineUsers, IsName u) (hacc : ¬ s.Refuses username) (hfits : ¬ s.AckFits) :
    ∃ e, s.join handler username = .error e := by
  rcases hj : s.join handler username with e | ⟨s', ws⟩
  · exact ⟨e, rfl⟩
  · rcases MainLoop.join_cases hname honline hj with ⟨href, -⟩ | ⟨-, -, ack, online, -, hack, -⟩
    · exact absurd href hacc
    · exact absurd (fits_of_isAck hack) hfits

theorem acknowledged_iff (hname : username.length ≤ sbcpMaxUsernameLength)
    (honline : ∀ u ∈ s.onlineUsers, IsName u) (hacc : ¬ s.Refuses username) :
    Acknowledged s handler username ↔ s.AckFits := by
  constructor
  · rintro ⟨s', ack, ws, hj, -⟩
    by_contra hfits
    obtain ⟨e, he⟩ := join_of_not_fits handler hname honline hacc hfits
    rw [he] at hj
    cases hj
  · intro hfits
    obtain ⟨ws, hj⟩ := join_of_fits handler hname honline hacc hfits
    rcases MainLoop.join_cases hname honline hj with ⟨href, -⟩ | ⟨-, -, ack, online, rfl, hack, -⟩
    · exact absurd href hacc
    · have htype : ack.getType = some .ack := by
        obtain ⟨-, names, -, -, hp⟩ := hack
        exact hp.1.getType
      exact ⟨_, ack, _, hj, htype, usernamesOf_ack hack⟩

theorem unchangedOnFailure_iff (hname : username.length ≤ sbcpMaxUsernameLength)
    (honline : ∀ u ∈ s.onlineUsers, IsName u) (hacc : ¬ s.Refuses username) :
    UnchangedOnFailure s handler username ↔ s.AckFits := by
  constructor
  · intro h
    by_contra hfits
    obtain ⟨e, he⟩ := join_of_not_fits handler hname honline hacc hfits
    -- the newcomer is in the list
    have hlist := (h e he).2.2
    unfold MainLoop.afterJoin at hlist
    rw [if_neg hacc, MainLoop.insertUser_onlineUsers] at hlist
    simp at hlist
  · intro hfits e he
    obtain ⟨ws, hj⟩ := join_of_fits handler hname honline hacc hfits
    rw [he] at hj
    cases hj

end Join

/-! ## Over every run -/

section Runs

variable {s : LoopState} {maxClients : Nat}

theorem not_refuses (h : (mainLoop maxClients).Reachable s) {username : Bytes}
    (few : s.main.onlineUsers.length < maxClients) (fresh : username ∉ s.main.onlineUsers) :
    ¬ s.main.Refuses username := by
  have m := members_of_reachable h
  unfold MainLoop.Refuses
  rintro (hin | hfull)
  · exact fresh ((m.mem_rdFifos_iff username).mp hin)
  · rw [maxClients_of_reachable h] at hfull
    omega

/-- One user after the other is taken in, as long as each finds room for the names before his. -/
theorem exists_joined (h : (mainLoop maxClients).Reachable s) (bs : List Bootstrap)
    (handlers : (s.bootstrapped.map Prod.fst ++ bs.map Bootstrap.handler).Nodup)
    (users : (s.main.onlineUsers ++ bs.map Bootstrap.username).Nodup)
    (few : s.main.onlineUsers.length + bs.length ≤ maxClients)
    (room : ∀ n < bs.length, attributeHeaderSize + sizeofClientCount +
      usernamesSize (s.main.onlineUsers ++ (bs.take n).map Bootstrap.username) ≤
        sbcpMaxPayloadLength) :
    ∃ s', (mainLoop maxClients).Reachable s' ∧
      s'.main.onlineUsers = s.main.onlineUsers ++ bs.map Bootstrap.username := by
  induction bs generalizing s with
  | nil => exact ⟨s, h, by simp⟩
  | cons b bs ih =>
      have m := members_of_reachable h
      rw [List.length_cons] at few
      have hnew : b.handler ∉ s.bootstrapped.map Prod.fst := by
        intro hmem
        exact (List.nodup_append.mp handlers).2.2 _ hmem _ (List.mem_cons_self ..) rfl
      have hfresh : b.username ∉ s.main.onlineUsers := by
        intro hmem
        exact (List.nodup_append.mp users).2.2 _ hmem _ (List.mem_cons_self ..) rfl
      have hacc := not_refuses h (by omega) hfresh
      have hfits : s.main.AckFits := by
        have hroom := room 0 (Nat.succ_pos _)
        rwa [List.take_zero, List.map_nil, List.append_nil] at hroom
      obtain ⟨ws, hj⟩ := join_of_fits b.handler b.isName.2 (fun u => m.isName) hacc hfits
      obtain ⟨s', hs', -⟩ := exists_loop_join hnew hj
      obtain ⟨-, hboot, ⟨href, -⟩ | ⟨-, hmain, -⟩⟩ := loop_join_cases (fun u => m.isName) hs'
      · exact absurd href hacc
      · have honline : s'.main.onlineUsers = s.main.onlineUsers ++ [b.username] := by
          rw [hmain, MainLoop.insertUser_onlineUsers]
        have hnext : (mainLoop maxClients).Reachable s' := .step h trivial (e := .join b) hs'
        obtain ⟨s'', hr, hlist⟩ := ih hnext (by simpa [hboot] using handlers)
          (by simpa [honline] using users)
          (by rw [honline, List.length_append, List.length_singleton]; omega)
          (by
            intro n hn
            have hroom := room (n + 1) (by simpa using hn)
            simpa [honline] using hroom)
        exact ⟨s'', hr, by rw [hlist, honline]; simp⟩

end Runs

/-- **A fresh name within the limit of clients is acknowledged exactly where the client count and all
names online fit into 1024 bytes; where they do not, the newcomer stays in the containers.** -/
theorem join_acknowledged_iff (maxClients : Nat) (s : LoopState)
    (h : (mainLoop maxClients).Reachable s) (handler : Nat) (username : Bytes)
    (few : s.main.onlineUsers.length < maxClients) (fresh : username ∉ s.main.onlineUsers)
    (length : username.length ≤ sbcpMaxUsernameLength) :
    (Acknowledged s.main handler username ↔ s.main.AckFits) ∧
      (UnchangedOnFailure s.main handler username ↔ s.main.AckFits) := by
  have m := members_of_reachable h
  have hacc := not_refuses h few fresh
  have honline : ∀ u ∈ s.main.onlineUsers, IsName u := fun u => m.isName
  exact ⟨acknowledged_iff length honline hacc, unchangedOnFailure_iff length honline hacc⟩

/-- Bob joins ann. -/
theorem join_acknowledged_bob :
    ∃ s, (mainLoop 5).run (.start 5) [.join ⟨7, ascii "ann", by decide⟩] = some s ∧
      Acknowledged s.main 8 (ascii "bob") := by
  have hrun : (mainLoop 5).run (.start 5) [.join ⟨7, ascii "ann", by decide⟩] = some _ := rfl
  have hiff := join_acknowledged_iff 5 _ (Machine.reachable_of_run rfl hrun) 8 (ascii "bob")
    (by decide) (by decide) (by decide)
  exact ⟨_, hrun, hiff.1.mpr (by decide)⟩

/-- A name of sixteen letters. -/
def longName (n : Nat) : Bytes := List.replicate 15 0x61 ++ [UInt8.ofNat (0x30 + n)]

theorem isName_longName {n : Nat} (hn : n < 64) : IsName (longName n) := by
  revert n
  decide +kernel

def crowd : List Bootstrap :=
  (List.finRange 51).map fun n : Fin 51 => ⟨n, longName n, isName_longName (n.isLt.trans (by decide))⟩

/-- Their names differ in the last letter. -/
theorem nodup_crowd : (crowd.map Bootstrap.username).Nodup := by
  have hnames : crowd.map Bootstrap.username = (List.finRange 51).map fun n : Fin 51 => longName n := by
    rw [crowd, List.map_map]
    rfl
  rw [hnames]
  apply (List.nodup_finRange 51).map
  intro a b hab
  have hlast := congrArg (fun name => name.getLast?.map UInt8.toNat) hab
  simp only [longName, List.getLast?_concat, Option.map_some, UInt8.toNat_ofNat', Option.some.injEq] at hlast
  omega

/-- With 51 users whose names have sixteen letters online, out of a hundred, the 52nd is not
acknowledged, and stays in the list. -/
theorem crowd_not_acknowledged :
    ∃ s, (mainLoop 100).Reachable s ∧ s.main.onlineUsers.length < 100 ∧
      longName 51 ∉ s.main.onlineUsers ∧ (longName 51).length ≤ sbcpMaxUsernameLength ∧
      ¬ Acknowledged s.main 51 (longName 51) ∧ ¬ UnchangedOnFailure s.main 51 (longName 51) := by
  have hstart : (mainLoop 100).Reachable (.start 100) := .init rfl
  obtain ⟨s, hr, honline⟩ := exists_joined hstart crowd
    (by decide +kernel) nodup_crowd (by decide +kernel) (by decide +kernel)
  have few : s.main.onlineUsers.length < 100 := by
    rw [honline]
    decide +kernel
  have fresh : longName 51 ∉ s.main.onlineUsers := by
    rw [honline]
    decide +kernel
  have hfits : ¬ s.main.AckFits := by
    unfold MainLoop.AckFits
    rw [honline]
    decide +kernel
  have m := members_of_reachable hr
  have hacc := not_refuses hr few fresh
  have length : (longName 51).length ≤ sbcpMaxUsernameLength := by decide
  refine ⟨s, hr, few, fresh, length, ?_, ?_⟩
  · rwa [acknowledged_iff length (fun u => m.isName) hacc]
  · rwa [unchangedOnFailure_iff length (fun u => m.isName) hacc]

end ComputerNetworking.Chat
