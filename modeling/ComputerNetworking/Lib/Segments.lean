/-
# ComputerNetworking.Lib.Segments -- reads from a byte stream that arrives in pieces

A stream socket keeps the bytes and their order, and nothing else. `read` returns what has arrived, up
to the length it was asked for: here the stream is the list of the pieces it arrives in, and a read
takes from the first of them. A program that asks for a unit with one `read` gets the whole of it only if
it has arrived in one piece. One that reads on until it has got the length it asked for (`readn`) does
not see the pieces at all.

`cuts` are the offsets at which a stream is cut. `readsWhole_iff` says when single reads do: every cut
between two pieces is one between two units.
-/
import Mathlib.Data.List.Basic
import Mathlib.Tactic.Common

namespace ComputerNetworking.Lib

variable {β : Type*}

/-! ## One read -/

/-- `read(fd, buf, n)`: the bytes it returns and the pieces that are left. Nothing is returned at the end
of the stream, and where nothing was asked for. -/
def recv : List (List β) → Nat → List β × List (List β)
  | [], _ => ([], [])
  | c :: cs, n =>
      if n = 0 then ([], c :: cs)
      else if c.length ≤ n then (c, cs)
      else (c.take n, c.drop n :: cs)

section Recv

variable {stream : List (List β)} {n : Nat}

@[simp] theorem recv_zero (stream : List (List β)) : recv stream 0 = ([], stream) := by
  cases stream <;> simp [recv]

/-- A read loses nothing. -/
theorem recv_append (stream : List (List β)) (n : Nat) :
    (recv stream n).1 ++ (recv stream n).2.flatten = stream.flatten := by
  rcases stream with _ | ⟨c, cs⟩
  · rfl
  · rw [recv]
    split_ifs with hn hc
    · simp
    · simp
    · rw [List.flatten_cons, ← List.append_assoc, List.take_append_drop, List.flatten_cons]

theorem length_recv_le (stream : List (List β)) (n : Nat) : (recv stream n).1.length ≤ n := by
  rcases stream with _ | ⟨c, cs⟩
  · exact Nat.zero_le _
  · rw [recv]
    split_ifs with hn hc
    · exact Nat.zero_le _
    · exact hc
    · exact List.length_take_le ..

/-- No piece is ever empty. -/
theorem recv_nonempty (h : ∀ c ∈ stream, c ≠ []) : ∀ c ∈ (recv stream n).2, c ≠ [] := by
  rcases stream with _ | ⟨c, cs⟩
  · exact h
  · rw [recv]
    split_ifs with hn hc
    · exact h
    · intro d hd
      exact h d (List.mem_cons_of_mem _ hd)
    · intro d hd
      rcases List.mem_cons.mp hd with rfl | hd
      · intro hnil
        rw [List.drop_eq_nil_iff] at hnil
        exact hc hnil
      · exact h d (List.mem_cons_of_mem _ hd)

/-- Before its end a stream gives something. -/
theorem recv_ne_nil (h : ∀ c ∈ stream, c ≠ []) (hstream : stream.flatten ≠ []) (hn : n ≠ 0) :
    (recv stream n).1 ≠ [] := by
  rcases stream with _ | ⟨c, cs⟩
  · exact absurd rfl hstream
  · have hc : c ≠ [] := h c (List.mem_cons_self ..)
    rw [recv, if_neg hn]
    split_ifs with hlen
    · exact hc
    · intro hnil
      rw [List.take_eq_nil_iff] at hnil
      rcases hnil with h0 | h0
      · exact hn h0
      · exact hc h0

end Recv

/-- A stream that has arrived in one piece. -/
def onePiece (q : List β) : List (List β) :=
  match q with
  | [] => []
  | b :: bs => [b :: bs]

/-- Of one piece a read gives what it was asked for. -/
theorem recv_onePiece (a rest : List β) :
    recv (onePiece (a ++ rest)) a.length = (a, onePiece rest) := by
  rcases a with _ | ⟨b, bs⟩
  · exact recv_zero _
  · rw [List.cons_append, onePiece, recv, if_neg (by simp)]
    rcases rest with _ | ⟨d, ds⟩
    · rw [List.append_nil, if_pos (Nat.le_refl _)]
      rfl
    · rw [if_neg (by simp)]
      simp [onePiece]

/-! ## Reading on -/

/-- `Client::readn`: reads until it has `n` bytes, and gives up at the end of the stream. -/
def readn (stream : List (List β)) (n : Nat) : Option (List β × List (List β)) :=
  if n = 0 then some ([], stream)
  else
    match _h : recv stream n with
    | ([], _) => none
    | (b :: bs, rest) => (readn rest (n - (bs.length + 1))).map fun p => (b :: bs ++ p.1, p.2)
termination_by n

/-- It returns with as many bytes as it was asked for. -/
theorem length_readn {stream rest : List (List β)} {n : Nat} {bytes : List β}
    (h : readn stream n = some (bytes, rest)) : bytes.length = n := by
  induction n using Nat.strongRecOn generalizing stream bytes with
  | ind n ih =>
      unfold readn at h
      split_ifs at h with h0
      · cases h
        exact h0.symm
      · have hle := length_recv_le stream n
        split at h
        · cases h
        · next b bs rest₁ heq =>
            rw [heq, List.length_cons] at hle
            obtain ⟨⟨more, rest₂⟩, hmore, hp⟩ := Option.map_eq_some_iff.mp h
            cases hp
            have hlen := ih _ (by omega) hmore
            rw [List.length_append, List.length_cons, hlen]
            omega

/-- **`readn` does not see the pieces.** -/
theorem readn_eq {stream : List (List β)} {n : Nat} (h : ∀ c ∈ stream, c ≠ [])
    (hn : n ≤ stream.flatten.length) :
    ∃ rest, readn stream n = some (stream.flatten.take n, rest) ∧
      rest.flatten = stream.flatten.drop n ∧ ∀ c ∈ rest, c ≠ [] := by
  induction n using Nat.strongRecOn generalizing stream with
  | ind n ih =>
      unfold readn
      split_ifs with h0
      · subst h0
        exact ⟨stream, by simp, by simp, h⟩
      · have hne : stream.flatten ≠ [] := by
          intro hnil
          rw [hnil, List.length_nil] at hn
          omega
        have hgot := recv_ne_nil (n := n) h hne h0
        have happend := recv_append stream n
        have hle := length_recv_le stream n
        have hrest := recv_nonempty (n := n) h
        split
        · next heq => exact absurd (by rw [heq]) hgot
        · next b bs rest heq =>
            rw [heq] at happend hle hrest
            simp only [List.length_cons] at happend hle hrest
            -- what is still missing is in the rest of the stream
            have hmore : n - (bs.length + 1) ≤ rest.flatten.length := by
              have hlen := congrArg List.length happend
              rw [List.length_append, List.length_cons] at hlen
              omega
            have htake : (b :: bs).take n = b :: bs := List.take_of_length_le (by simpa using hle)
            have hbehind : (b :: bs).drop n = [] := List.drop_of_length_le (by simpa using hle)
            obtain ⟨rest', hread, hdrop, hrest'⟩ := ih _ (by omega) hrest hmore
            refine ⟨rest', ?_, ?_, hrest'⟩
            · rw [hread, ← happend, List.take_append, htake, List.length_cons]
              rfl
            · rw [hdrop, ← happend, List.drop_append, hbehind, List.length_cons, List.nil_append]

/-! ## Where a stream is cut -/

/-- The offsets of the ends of the parts, and 0. -/
def cuts : List (List β) → List Nat
  | [] => [0]
  | p :: ps => 0 :: (cuts ps).map (p.length + ·)

theorem zero_mem_cuts (ps : List (List β)) : 0 ∈ cuts ps := by
  cases ps <;> simp [cuts]

/-- The end of the stream is one of them. -/
theorem length_mem_cuts (ps : List (List β)) : ps.flatten.length ∈ cuts ps := by
  induction ps with
  | nil => exact List.mem_cons_self ..
  | cons p ps ih =>
      rw [List.flatten_cons, List.length_append]
      exact List.mem_cons_of_mem _ (List.mem_map_of_mem ih)

/-- Single reads of the units' lengths give the units, and leave nothing. -/
def ReadsWhole : List (List β) → List (List β) → Prop
  | stream, [] => stream = []
  | stream, u :: us => (recv stream u.length).1 = u ∧ ReadsWhole (recv stream u.length).2 us

theorem shift_subset_iff {a b : List Nat} {n : Nat} (hn : n ≠ 0) :
    (0 :: a.map (n + ·)) ⊆ 0 :: b.map (n + ·) ↔ a ⊆ b := by
  constructor
  · intro h x hx
    have hmem : n + x ∈ 0 :: b.map (n + ·) := h (List.mem_cons_of_mem _ (List.mem_map_of_mem hx))
    rcases List.mem_cons.mp hmem with h0 | hmem
    · omega
    · obtain ⟨y, hy, heq⟩ := List.mem_map.mp hmem
      have hxy : y = x := Nat.add_left_cancel heq
      rwa [← hxy]
  · intro h
    exact List.cons_subset_cons _ (List.map_subset _ h)

section Cons

variable {c u : List β} {cs us : List (List β)}

/-- A unit that goes on behind the first piece is not read at once. -/
theorem not_readsWhole_cons (hlt : c.length < u.length) : ¬ ReadsWhole (c :: cs) (u :: us) := by
  have hu0 : u.length ≠ 0 := by omega
  rw [ReadsWhole, recv, if_neg hu0, if_pos (Nat.le_of_lt hlt)]
  rintro ⟨hu, -⟩
  exact absurd (congrArg List.length hu) (Nat.ne_of_lt hlt)

/-- The first piece ends inside such a unit. -/
theorem not_cuts_subset_cons (hc : c ≠ []) (hlt : c.length < u.length) :
    ¬ cuts (c :: cs) ⊆ cuts (u :: us) := by
  intro hsub
  have hc0 : c.length ≠ 0 := by simpa using hc
  have hmem : c.length + 0 ∈ cuts (u :: us) :=
    hsub (List.mem_cons_of_mem _ (List.mem_map_of_mem (zero_mem_cuts cs)))
  rcases List.mem_cons.mp hmem with h0 | hmem
  · omega
  · obtain ⟨y, -, hy⟩ := List.mem_map.mp hmem
    have hle : u.length + y = c.length + 0 := hy
    omega

/-- What is read of the first piece moves the ends of the others. -/
theorem map_cuts_drop {n : Nat} (hn : n ≤ c.length) :
    (cuts cs).map (c.length + ·) = ((cuts cs).map ((c.drop n).length + ·)).map (n + ·) := by
  rw [List.map_map, List.length_drop]
  apply List.map_congr_left
  intro x _
  show c.length + x = n + (c.length - n + x)
  omega

end Cons

/-- **Single reads give the units if and only if the stream is cut between units only.** -/
theorem readsWhole_iff {stream units : List (List β)} (h : ∀ c ∈ stream, c ≠ [])
    (hstream : stream.flatten = units.flatten) :
    ReadsWhole stream units ↔ cuts stream ⊆ cuts units := by
  induction units generalizing stream with
  | nil =>
      rcases stream with _ | ⟨c, cs⟩
      · simp [ReadsWhole]
      · exact absurd (List.append_eq_nil_iff.mp hstream).1 (h c (List.mem_cons_self ..))
  | cons u us ih =>
      by_cases hu : u = []
      · -- a unit without bytes is read from anywhere
        subst hu
        have hcuts : cuts ([] :: us) ⊆ cuts us ∧ cuts us ⊆ cuts ([] :: us) := by
          simp [cuts, zero_mem_cuts]
        rw [ReadsWhole, List.length_nil, recv_zero, ih h hstream]
        constructor
        · rintro ⟨-, hsub⟩
          exact List.Subset.trans hsub hcuts.2
        · intro hsub
          exact ⟨rfl, List.Subset.trans hsub hcuts.1⟩
      · rcases stream with _ | ⟨c, cs⟩
        · exact absurd (List.append_eq_nil_iff.mp hstream.symm).1 hu
        · have hu0 : u.length ≠ 0 := by simpa using hu
          have hcs : ∀ d ∈ cs, d ≠ [] := fun d hd => h d (List.mem_cons_of_mem _ hd)
          rw [List.flatten_cons, List.flatten_cons] at hstream
          rcases Nat.lt_trichotomy c.length u.length with hlt | heq | hgt
          · -- the unit is cut
            have hc : c ≠ [] := h c (List.mem_cons_self ..)
            exact iff_of_false (not_readsWhole_cons hlt) (not_cuts_subset_cons hc hlt)
          · -- the piece is the unit
            obtain ⟨rfl, hrest⟩ := List.append_inj hstream heq
            rw [ReadsWhole, recv, if_neg hu0, if_pos (Nat.le_refl _), ih hcs hrest, cuts, cuts,
              shift_subset_iff hu0]
            exact and_iff_right rfl
          · -- the piece goes on behind the unit
            have hsplit : c.take u.length ++ (c.drop u.length ++ cs.flatten) = u ++ us.flatten := by
              rw [← List.append_assoc, List.take_append_drop, hstream]
            obtain ⟨htake, hrest⟩ := List.append_inj hsplit
              (by rw [List.length_take, Nat.min_eq_left (Nat.le_of_lt hgt)])
            have hleft : ∀ d ∈ c.drop u.length :: cs, d ≠ [] := by
              intro d hd
              rcases List.mem_cons.mp hd with rfl | hd
              · intro hnil
                rw [List.drop_eq_nil_iff] at hnil
                omega
              · exact hcs d hd
            rw [ReadsWhole, recv, if_neg hu0, if_neg (by omega), ih hleft hrest, cuts, cuts, cuts,
              map_cuts_drop (Nat.le_of_lt hgt), shift_subset_iff hu0, List.cons_subset]
            exact ⟨fun hall => hall.2.2, fun hsub => ⟨htake, zero_mem_cuts us, hsub⟩⟩

end ComputerNetworking.Lib
