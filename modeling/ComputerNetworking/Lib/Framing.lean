/-
# ComputerNetworking.Lib.Framing -- messages over a byte queue

Two processes share a queue of bytes: one appends the encodings of whole messages, the other takes
messages off the front by looking at what is there. Nothing but the bytes themselves says where a
message begins. A `Framing` is a reader together with the encodings it gets right; `InSync` is the
invariant of a queue on which only such encodings were written, and `InSync.append_drain` is what
it is good for: what has been read and what is still to be read is exactly what was written.

Where only one end is watched, `Whole` says that a queue holds nothing but such encodings, and
`contents` which.
-/
import Mathlib.Data.List.Basic
import Mathlib.Tactic.Common

namespace ComputerNetworking.Lib

variable {α β : Type*}

/-! ## Readers -/

/-- What a reader makes of the bytes in front of it. -/
inductive Read (α β : Type*) where
  /-- Nothing is there. -/
  | eof
  /-- A message, and the bytes behind it. -/
  | accepted (a : α) (rest : List β)
  /-- Some bytes were taken and turned down. -/
  | rejected (rest : List β)
  /-- The reader does not come back. -/
  | aborted

/-- The result of one read as far as the reader's caller sees it. -/
inductive Outcome (α : Type*) where
  | accepted (a : α)
  | rejected
  | aborted
  deriving DecidableEq

/-- The message, if there is one. -/
def Outcome.accepted? : Outcome α → Option α
  | .accepted a => some a
  | .rejected => none
  | .aborted => none

/-- What the caller sees, unless there was nothing to read. -/
def Read.outcome? : Read α β → Option (Outcome α)
  | .eof => none
  | .accepted a _ => some (.accepted a)
  | .rejected _ => some .rejected
  | .aborted => some .aborted

/-- What is left on the queue. -/
def Read.rest : Read α β → List β
  | .eof => []
  | .accepted _ rest => rest
  | .rejected rest => rest
  | .aborted => []

/-- A reader takes something off the queue whenever it goes on. -/
structure Reader (α β : Type*) where
  read : List β → Read α β
  accepted_lt : ∀ {q a rest}, read q = .accepted a rest → rest.length < q.length
  rejected_lt : ∀ {q rest}, read q = .rejected rest → rest.length < q.length

/-- The outcomes of reading on until nothing is left or the reader is gone. -/
def Reader.drain (r : Reader α β) (q : List β) : List (Outcome α) :=
  match _h : r.read q with
  | .eof => []
  | .aborted => [.aborted]
  | .rejected rest => .rejected :: r.drain rest
  | .accepted a rest => .accepted a :: r.drain rest
termination_by q.length
decreasing_by
  · exact r.rejected_lt _h
  · exact r.accepted_lt _h

theorem Reader.drain_accepted {r : Reader α β} {q rest : List β} {a : α}
    (h : r.read q = .accepted a rest) : r.drain q = .accepted a :: r.drain rest := by
  rw [Reader.drain]
  split <;> simp_all

theorem Reader.drain_eof {r : Reader α β} {q : List β} (h : r.read q = .eof) :
    r.drain q = [] := by
  rw [Reader.drain]
  split <;> simp_all

/-! ## Framings -/

/-- A reader and the encodings it takes off the front of any queue. -/
structure Framing (α β : Type*) extends Reader α β where
  encode : α → List β
  Valid : α → Prop
  read_nil : read [] = .eof
  read_encode : ∀ {a}, Valid a → ∀ rest, read (encode a ++ rest) = .accepted a rest

namespace Framing

variable (F : Framing α β)

/-- A queue that holds whole messages only gives exactly these. -/
theorem drain_encodings {as : List α} (h : ∀ a ∈ as, F.Valid a) :
    F.drain (as.flatMap F.encode) = as.map .accepted := by
  induction as with
  | nil => exact Reader.drain_eof F.read_nil
  | cons a as ih =>
      rw [List.flatMap_cons, Reader.drain_accepted (F.read_encode (h a (by simp)) _),
        ih fun b hb => h b (List.mem_cons_of_mem _ hb), List.map_cons]

/-- The queue and the reader are in step: everything written was valid, the reads so far gave a
prefix of it, and the queue holds the encodings of the rest. -/
structure InSync (written : List α) (queue : List β) (outcomes : List (Outcome α)) : Prop where
  valid : ∀ a ∈ written, F.Valid a
  pending : ∃ rest : List α, written.map Outcome.accepted = outcomes ++ rest.map .accepted ∧
    queue = rest.flatMap F.encode

namespace InSync

variable {F} {written : List α} {queue : List β} {outcomes : List (Outcome α)}

theorem empty : F.InSync [] [] [] := ⟨by simp, [], by simp⟩

/-- The messages still in the queue are among the written ones. -/
theorem pending_valid {rest : List α} (h : F.InSync written queue outcomes)
    (hrest : written.map Outcome.accepted = outcomes ++ rest.map .accepted) :
    ∀ a ∈ rest, F.Valid a := by
  intro a ha
  have hmem : Outcome.accepted a ∈ written.map Outcome.accepted := by
    rw [hrest]
    exact List.mem_append_right _ (List.mem_map_of_mem ha)
  obtain ⟨b, hb, hab⟩ := List.mem_map.mp hmem
  cases hab
  exact h.valid _ hb

/-- Writing a list of valid messages keeps the queue in step. -/
theorem write (h : F.InSync written queue outcomes) {as : List α} (has : ∀ a ∈ as, F.Valid a) :
    F.InSync (written ++ as) (queue ++ as.flatMap F.encode) outcomes := by
  obtain ⟨rest, hrest, hqueue⟩ := h.pending
  refine ⟨?_, rest ++ as, ?_, ?_⟩
  · intro a ha
    rcases List.mem_append.mp ha with ha | ha
    · exact h.valid a ha
    · exact has a ha
  · rw [List.map_append, List.map_append, hrest, List.append_assoc]
  · rw [List.flatMap_append, hqueue]

/-- A read on a queue in step finds it empty or takes the oldest message. -/
theorem read_cases (h : F.InSync written queue outcomes) :
    (F.read queue = .eof ∧ written.map .accepted = outcomes) ∨
      ∃ a rest, F.read queue = .accepted a rest ∧ a ∈ written ∧
        F.InSync written rest (outcomes ++ [.accepted a]) := by
  obtain ⟨rest, hrest, hqueue⟩ := h.pending
  cases rest with
  | nil =>
      -- all that was written has been read
      refine .inl ⟨?_, by simpa using hrest⟩
      rw [hqueue]
      exact F.read_nil
  | cons a rest =>
      have hread : F.read queue = .accepted a (rest.flatMap F.encode) := by
        rw [hqueue, List.flatMap_cons]
        exact F.read_encode (h.pending_valid hrest a (by simp)) _
      have hmem : Outcome.accepted a ∈ written.map Outcome.accepted := by
        rw [hrest]
        simp
      obtain ⟨b, hb, hab⟩ := List.mem_map.mp hmem
      cases hab
      refine .inr ⟨a, _, hread, hb, h.valid, rest, ?_, rfl⟩
      rw [hrest, List.map_cons, List.append_assoc]
      rfl

/-- **What was read and what is still to be read is what was written, in order.** -/
theorem append_drain (h : F.InSync written queue outcomes) :
    outcomes ++ F.drain queue = written.map .accepted := by
  obtain ⟨rest, hrest, hqueue⟩ := h.pending
  rw [hrest, hqueue, F.drain_encodings (h.pending_valid hrest)]

end InSync

/-- The same reader on fewer encodings. -/
def restrict (P : α → Prop) (hP : ∀ a, P a → F.Valid a) : Framing α β :=
  { F with
    Valid := P
    read_encode := fun ha rest => F.read_encode (hP _ ha) rest }

/-! ## Queues of whole messages -/

/-- The messages a reader would accept off a queue. -/
def contents (q : List β) : List α := (F.drain q).filterMap Outcome.accepted?

/-- Whole messages only. -/
def Whole (q : List β) : Prop := ∃ as : List α, (∀ a ∈ as, F.Valid a) ∧ q = as.flatMap F.encode

variable {F} {q : List β} {a : α}

theorem contents_encodings {as : List α} (h : ∀ a ∈ as, F.Valid a) :
    F.contents (as.flatMap F.encode) = as := by
  rw [contents, F.drain_encodings h, List.filterMap_map]
  exact List.filterMap_some

@[simp] theorem contents_nil : F.contents [] = [] := by
  have h : F.contents (([] : List α).flatMap F.encode) = [] := contents_encodings (by simp)
  exact h

theorem whole_nil : F.Whole [] := ⟨[], by simp, rfl⟩

namespace Whole

/-- Messages written behind whole ones are the last of them. -/
theorem writes (h : F.Whole q) {as : List α} (has : ∀ a ∈ as, F.Valid a) :
    F.Whole (q ++ as.flatMap F.encode) ∧ F.contents (q ++ as.flatMap F.encode) = F.contents q ++ as := by
  obtain ⟨bs, hbs, rfl⟩ := h
  have hall : ∀ a ∈ bs ++ as, F.Valid a := List.forall_mem_append.mpr ⟨hbs, has⟩
  rw [← List.flatMap_append, contents_encodings hall, contents_encodings hbs]
  exact ⟨⟨bs ++ as, hall, rfl⟩, rfl⟩

theorem write (h : F.Whole q) (ha : F.Valid a) :
    F.Whole (q ++ F.encode a) ∧ F.contents (q ++ F.encode a) = F.contents q ++ [a] := by
  have hone := h.writes (List.forall_mem_singleton.mpr ha)
  rwa [List.flatMap_singleton] at hone

/-- A message in front of whole ones is the first of them. -/
theorem contents_cons (h : F.Whole q) (ha : F.Valid a) :
    F.contents (F.encode a ++ q) = a :: F.contents q := by
  obtain ⟨as, has, rfl⟩ := h
  have hall : ∀ b ∈ a :: as, F.Valid b := by
    intro b hb
    rcases List.mem_cons.mp hb with rfl | hb
    · exact ha
    · exact has b hb
  rw [← List.flatMap_cons, contents_encodings hall, contents_encodings has]

/-- A read finds nothing or takes the first message. -/
theorem read_cases (h : F.Whole q) :
    (q = [] ∧ F.read q = .eof) ∨
      ∃ a rest, F.read q = .accepted a rest ∧ F.Valid a ∧ q = F.encode a ++ rest ∧
        F.Whole rest ∧ F.contents q = a :: F.contents rest := by
  obtain ⟨as, has, rfl⟩ := h
  cases as with
  | nil => exact .inl ⟨rfl, F.read_nil⟩
  | cons a as =>
      have ha : F.Valid a := has a (List.mem_cons_self ..)
      have hrest : ∀ b ∈ as, F.Valid b := fun b hb => has b (List.mem_cons_of_mem _ hb)
      rw [contents_encodings has]
      refine .inr ⟨a, as.flatMap F.encode, F.read_encode ha _, ha, rfl, ⟨as, hrest, rfl⟩, ?_⟩
      rw [contents_encodings hrest]

end Whole

namespace InSync

variable {written : List α} {queue : List β} {outcomes : List (Outcome α)}

theorem whole (h : F.InSync written queue outcomes) : F.Whole queue := by
  obtain ⟨rest, hrest, hqueue⟩ := h.pending
  exact ⟨rest, h.pending_valid hrest, hqueue⟩

/-- What a reader that turned nothing down has got, and what it will get, is what was written. -/
theorem append_contents {got : List α} (h : F.InSync written queue (got.map .accepted)) :
    got ++ F.contents queue = written := by
  have hall : (got.map Outcome.accepted ++ F.drain queue).filterMap Outcome.accepted? =
      (written.map Outcome.accepted).filterMap Outcome.accepted? :=
    congrArg _ h.append_drain
  rw [List.filterMap_append, List.filterMap_map, List.filterMap_map] at hall
  exact (congrArg (· ++ F.contents queue) List.filterMap_some.symm).trans
    (hall.trans List.filterMap_some)

end InSync

end Framing

end ComputerNetworking.Lib
