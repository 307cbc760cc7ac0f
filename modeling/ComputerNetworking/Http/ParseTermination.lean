/-
# ComputerNetworking.Http.ParseTermination -- messages cut off in the header block

The loop of `Message::Message` stops at an empty line. Where the text ends before one, `find` returns
`npos`, the rest of the text is parsed as a header, and if that is accepted the position becomes
`npos + 2`, which is 1: the loop reads the first line again, as a header, and all the others after it.

So the constructor runs through the text from front to back exactly if this does not happen: if the
text is not a first line and headers all the way down to its last, unterminated piece.
-/
import ComputerNetworking.Http.Message

namespace ComputerNetworking.Http

open ComputerNetworking.Lib

/-- The constructor after `n` rounds. -/
def constructing (lib : DateLib) (message : Bytes) (n : Nat) : HeaderLoop ⊕ Message.Result :=
  Loop.after (Message.round lib message) n (Message.firstPart message)

/-- The byte at `k` is in the header that this round takes. -/
def Covers (message : Bytes) (s : HeaderLoop) (k : Nat) : Prop :=
  ∃ header, Message.headerStr message s = .ok header ∧ s.pos ≤ k ∧ k < s.pos + header.length

/-- The constructor returns or throws, its position grows in every round, and it takes no byte for two
headers. -/
structure ParsesInOrder (lib : DateLib) (message : Bytes) : Prop where
  ends : Loop.Ends (Message.round lib message) (Message.firstPart message)
  grows : ∀ n s s', constructing lib message n = .inl s → Message.round lib message s = .inl s' →
    s.pos < s'.pos
  once : ∀ i j s s' t t' k, i < j →
    constructing lib message i = .inl s → Message.round lib message s = .inl s' →
    constructing lib message j = .inl t → Message.round lib message t = .inl t' →
    Covers message s k → ¬ Covers message t k

/-- The lines of a text, and the piece behind the last of them. -/
abbrev lines (text : Bytes) : List Bytes × Bytes := pieces crlf (by decide) text

/-- `parse_header` returns. -/
def Accepted (lib : DateLib) (text : Bytes) : Prop := ∃ header, Header.parse lib text = .ok header

/-- Every line is an accepted header, and so is the piece behind the last. -/
def AllAccepted (lib : DateLib) (text : Bytes) : Prop :=
  (∀ line ∈ (lines text).1, Accepted lib line) ∧ Accepted lib (lines text).2

/-- The text ends before the empty line, and all there is of it is accepted. -/
def AcceptedCutOff (lib : DateLib) (message : Bytes) : Prop :=
  ∃ i firstLine, firstOccurrence crlf message = some i ∧
    FirstLine.parse (message.take i) = .ok firstLine ∧
    AllAccepted lib (message.drop (i + crlf.length))

section AllAccepted

variable {lib : DateLib} {text : Bytes}

theorem allAccepted_none (h : firstOccurrence crlf text = none) :
    AllAccepted lib text ↔ Accepted lib text := by
  unfold AllAccepted lines
  rw [pieces_none h]
  simp

theorem allAccepted_some {i : Nat} (h : firstOccurrence crlf text = some i) :
    AllAccepted lib text ↔
      Accepted lib (text.take i) ∧ AllAccepted lib (text.drop (i + crlf.length)) := by
  unfold AllAccepted lines
  rw [pieces_some h]
  simp only [List.forall_mem_cons, and_assoc]

/-- The empty line is no header. -/
theorem not_accepted_nil : ¬ Accepted lib [] := by
  rintro ⟨header, hp⟩
  simp [Header.parse, find, firstOccurrence, ascii, npos, throw, throwThe, MonadExceptOf.throw] at hp

end AllAccepted

/-! ## One round -/

/-- What is behind the position. -/
def HeaderLoop.rest (s : HeaderLoop) (message : Bytes) : Bytes := message.drop s.pos

section Round

variable {lib : DateLib} {message : CxxString} {s : HeaderLoop}

theorem length_lt_size (message : CxxString) : message.val.length < sizeRange - 1 := message.2

theorem headerStr_none (hpos : s.pos ≤ message.val.length)
    (h : firstOccurrence crlf (s.rest message.val) = none) :
    Message.headerStr message.val s = .ok (s.rest message.val) := by
  have hlen := length_lt_size message
  unfold Message.headerStr substr
  rw [find_none hpos h, if_pos hpos, sizeSub_of_le (by unfold npos; omega) (by unfold npos; omega)]
  congr 1
  apply List.take_of_length_le
  rw [List.length_drop]
  unfold npos
  omega

theorem headerStr_some (hpos : s.pos ≤ message.val.length) {i : Nat}
    (h : firstOccurrence crlf (s.rest message.val) = some i) :
    Message.headerStr message.val s = .ok ((s.rest message.val).take i) := by
  have hlen := length_lt_size message
  have hle := (firstOccurrence_spec h).1
  unfold HeaderLoop.rest at hle
  rw [List.length_drop] at hle
  unfold Message.headerStr substr
  rw [find_some hpos h, if_pos hpos, sizeSub_of_le (by omega) (by omega), Nat.add_sub_cancel_left]
  rfl

/-- No line end is left: the rest is taken for a header, and the position wraps around. -/
theorem round_none (hpos : s.pos ≤ message.val.length)
    (h : firstOccurrence crlf (s.rest message.val) = none) :
    Message.round lib message.val s =
      match Header.parse lib (s.rest message.val) with
      | .error e => .inr (.error e)
      | .ok header => .inl { s with headers := s.headers ++ [header], pos := 1 } := by
  have hlen := length_lt_size message
  unfold Message.round
  rw [headerStr_none hpos h, find_none hpos h, if_neg (by unfold npos; omega),
    show crlf.length = 2 from rfl, sizeAdd_npos_two]
  rfl

/-- A line: it is taken for a header, and the position is behind it. -/
theorem round_some (hpos : s.pos ≤ message.val.length) {i : Nat}
    (h : firstOccurrence crlf (s.rest message.val) = some i) (hi : i ≠ 0) :
    Message.round lib message.val s =
      match Header.parse lib ((s.rest message.val).take i) with
      | .error e => .inr (.error e)
      | .ok header =>
          .inl { s with headers := s.headers ++ [header], pos := s.pos + i + crlf.length } := by
  have hlen := length_lt_size message
  have hle := (firstOccurrence_spec h).1
  unfold HeaderLoop.rest at hle
  rw [List.length_drop] at hle
  unfold Message.round
  rw [headerStr_some hpos h, find_some hpos h, if_neg (by omega), sizeAdd_of_lt (by omega)]
  rfl

/-- The empty line ends the loop. -/
theorem round_zero (hpos : s.pos ≤ message.val.length)
    (h : firstOccurrence crlf (s.rest message.val) = some 0) :
    Message.round lib message.val s = .inr (Message.lastPart message.val s) := by
  unfold Message.round
  rw [find_some hpos h, Nat.add_zero, if_pos rfl]

/-- **What a round that does not end the loop does.** -/
theorem round_inl (hpos : s.pos ≤ message.val.length) {s' : HeaderLoop}
    (hr : Message.round lib message.val s = .inl s') :
    (firstOccurrence crlf (s.rest message.val) = none ∧ Accepted lib (s.rest message.val) ∧
      s'.pos = 1) ∨
    ∃ i, firstOccurrence crlf (s.rest message.val) = some i ∧
      Accepted lib ((s.rest message.val).take i) ∧ s'.pos = s.pos + i + crlf.length := by
  rcases h : firstOccurrence crlf (s.rest message.val) with _ | i
  · rw [round_none hpos h] at hr
    rcases hp : Header.parse lib (s.rest message.val) with e | header
    · rw [hp] at hr
      cases hr
    · rw [hp] at hr
      cases hr
      exact .inl ⟨rfl, ⟨header, hp⟩, rfl⟩
  · by_cases hi : i = 0
    · rw [hi] at h
      rw [round_zero hpos h] at hr
      cases hr
    · rw [round_some hpos h hi] at hr
      rcases hp : Header.parse lib ((s.rest message.val).take i) with e | header
      · rw [hp] at hr
        cases hr
      · rw [hp] at hr
        cases hr
        exact .inr ⟨i, rfl, ⟨header, hp⟩, rfl⟩

/-- An accepted piece does not end the loop. -/
theorem round_accepted_none (hpos : s.pos ≤ message.val.length)
    (h : firstOccurrence crlf (s.rest message.val) = none)
    (ha : Accepted lib (s.rest message.val)) :
    ∃ s', Message.round lib message.val s = .inl s' ∧ s'.pos = 1 := by
  obtain ⟨header, hp⟩ := ha
  rw [round_none hpos h, hp]
  exact ⟨_, rfl, rfl⟩

theorem round_accepted_some (hpos : s.pos ≤ message.val.length) {i : Nat}
    (h : firstOccurrence crlf (s.rest message.val) = some i)
    (ha : Accepted lib ((s.rest message.val).take i)) :
    ∃ s', Message.round lib message.val s = .inl s' ∧ s'.pos = s.pos + i + crlf.length := by
  have hi : i ≠ 0 := by
    intro hzero
    rw [hzero, List.take_zero] at ha
    exact not_accepted_nil ha
  obtain ⟨header, hp⟩ := ha
  rw [round_some hpos h hi, hp]
  exact ⟨_, rfl, rfl⟩

/-- The next line, seen from the one before. -/
theorem rest_next {s' : HeaderLoop} {i : Nat} (h : s'.pos = s.pos + i + crlf.length) :
    s'.rest message.val = (s.rest message.val).drop (i + crlf.length) := by
  unfold HeaderLoop.rest
  rw [h, List.drop_drop, Nat.add_assoc]

theorem pos_next_le {s' : HeaderLoop} {i : Nat} (hpos : s.pos ≤ message.val.length)
    (hf : firstOccurrence crlf (s.rest message.val) = some i)
    (h : s'.pos = s.pos + i + crlf.length) : s'.pos ≤ message.val.length := by
  have hle := (firstOccurrence_spec hf).1
  unfold HeaderLoop.rest at hle
  rw [List.length_drop] at hle
  omega

end Round

/-! ## From front to back -/

section Runs

variable {lib : DateLib} {message : CxxString} {s : HeaderLoop}

/-- If all that is left is accepted, some round wraps the position around. -/
theorem wraps (hpos : s.pos ≤ message.val.length) (hall : AllAccepted lib (s.rest message.val)) :
    ∃ n t t', Loop.after (Message.round lib message.val) n (.inl s) = .inl t ∧
      Message.round lib message.val t = .inl t' ∧ s.pos ≤ t.pos ∧ t'.pos = 1 := by
  induction hm : message.val.length - s.pos using Nat.strongRecOn generalizing s with
  | ind m ih =>
      rcases h : firstOccurrence crlf (s.rest message.val) with _ | i
      · -- this is the unterminated piece
        obtain ⟨s', hr, hone⟩ := round_accepted_none hpos h ((allAccepted_none h).mp hall)
        exact ⟨0, s, s', rfl, hr, Nat.le_refl _, hone⟩
      · obtain ⟨hline, hrest⟩ := (allAccepted_some h).mp hall
        obtain ⟨s', hr, hnext⟩ := round_accepted_some hpos h hline
        have hle := pos_next_le hpos h hnext
        rw [← rest_next hnext] at hrest
        have hcrlf : crlf.length = 2 := rfl
        rcases ih (message.val.length - s'.pos) (by omega) hle hrest rfl with
          ⟨n, t, t', ht, ht', hst, hone⟩
        refine ⟨n + 1, t, t', ?_, ht', by omega, hone⟩
        show Loop.after _ n (Message.round lib message.val s) = _
        rw [hr, ht]

/-- The position is inside the text, and not all that is left is accepted. -/
def OnTrack (lib : DateLib) (message : CxxString) (s : HeaderLoop) : Prop :=
  s.pos ≤ message.val.length ∧ ¬ AllAccepted lib (s.rest message.val)

/-- Then the loop stays on track, and the next position is behind the header just taken. -/
theorem OnTrack.round (h : OnTrack lib message s) {s' : HeaderLoop}
    (hr : Message.round lib message.val s = .inl s') :
    OnTrack lib message s' ∧ s.pos < s'.pos ∧ ∀ k, Covers message.val s k → k < s'.pos := by
  rcases round_inl h.1 hr with ⟨hnone, ha, -⟩ | ⟨i, hsome, ha, hnext⟩
  · -- the position cannot wrap around: the unterminated piece would be accepted
    exact absurd ((allAccepted_none hnone).mpr ha) h.2
  · have hcrlf : crlf.length = 2 := rfl
    refine ⟨⟨pos_next_le h.1 hsome hnext, ?_⟩, by omega, ?_⟩
    · intro hall
      apply h.2
      rw [rest_next hnext] at hall
      exact (allAccepted_some hsome).mpr ⟨ha, hall⟩
    · rintro k ⟨header, hheader, -, hlt⟩
      rw [headerStr_some h.1 hsome] at hheader
      cases hheader
      rw [List.length_take] at hlt
      omega

end Runs

/-! ## The constructor -/

section Constructor

variable {lib : DateLib} {message : CxxString}

theorem firstPart_none (h : firstOccurrence crlf message.val = none) :
    Message.firstPart message.val = .inr (.error .invalidMessage) := by
  unfold Message.firstPart
  rw [find_none (Nat.zero_le _) h, if_pos rfl]

theorem firstPart_some {i : Nat} (h : firstOccurrence crlf message.val = some i) :
    Message.firstPart message.val =
      match FirstLine.parse (message.val.take i) with
      | .error e => .inr (.error e)
      | .ok firstLine => .inl ⟨firstLine, [], i + crlf.length⟩ := by
  have hlen := length_lt_size message
  have hle := (firstOccurrence_spec h).1
  unfold Message.firstPart
  rw [find_some (Nat.zero_le _) h, Nat.zero_add, if_neg (by unfold npos; omega),
    sizeSub_of_le (Nat.zero_le _) (by omega), sizeAdd_of_lt (by omega)]
  rfl

/-- Unless the text is accepted as it is cut off, the loop starts on track. -/
theorem onTrack_firstPart (h : ¬ AcceptedCutOff lib message.val) {s : HeaderLoop}
    (hs : Message.firstPart message.val = .inl s) : OnTrack lib message s := by
  rcases hi : firstOccurrence crlf message.val with _ | i
  · rw [firstPart_none hi] at hs
    cases hs
  · rw [firstPart_some hi] at hs
    rcases hp : FirstLine.parse (message.val.take i) with e | firstLine
    · rw [hp] at hs
      cases hs
    · rw [hp] at hs
      cases hs
      refine ⟨(firstOccurrence_spec hi).1, ?_⟩
      intro hall
      exact h ⟨i, firstLine, hi, hp, hall⟩

theorem onTrack_constructing (h : ¬ AcceptedCutOff lib message.val) {n : Nat} {s : HeaderLoop}
    (hs : constructing lib message.val n = .inl s) : OnTrack lib message s :=
  Loop.invariant (fun _ hstart => onTrack_firstPart h hstart)
    (fun _ _ hon hr => (hon.round hr).1) hs

/-- **The constructor runs through the text from front to back, and ends, exactly if the text is not
cut off with all there is of it accepted.** -/
theorem parsesInOrder_iff (lib : DateLib) (message : CxxString) :
    ParsesInOrder lib message.val ↔ ¬ AcceptedCutOff lib message.val := by
  constructor
  · rintro h ⟨i, firstLine, hi, hp, hall⟩
    have hstart : Message.firstPart message.val = .inl ⟨firstLine, [], i + crlf.length⟩ := by
      rw [firstPart_some hi, hp]
    rcases wraps (s := ⟨firstLine, [], i + crlf.length⟩) (firstOccurrence_spec hi).1 hall with
      ⟨n, t, t', ht, ht', hle, hone⟩
    rw [← hstart] at ht
    have hlt := h.grows n t t' ht ht'
    have hcrlf : crlf.length = 2 := rfl
    have hle' : i + crlf.length ≤ t.pos := hle
    omega
  · intro h
    have hgrows : ∀ n s s', constructing lib message.val n = .inl s →
        Message.round lib message.val s = .inl s' → s.pos < s'.pos := by
      intro n s s' hs hr
      exact ((onTrack_constructing h hs).round hr).2.1
    refine ⟨?_, hgrows, ?_⟩
    · apply Loop.ends_of_measure (I := OnTrack lib message) fun s => message.val.length - s.pos
      · intro s hs
        exact onTrack_firstPart h hs
      · intro s s' hon hr
        obtain ⟨hon', hlt, -⟩ := hon.round hr
        have hle := hon'.1
        exact ⟨hon', by omega⟩
    · rintro i j s s' t t' k hij hs hs' ht ht' hk ⟨-, -, hle, -⟩
      have hbehind := ((onTrack_constructing h hs).round hs').2.2 k hk
      -- the later round starts behind the earlier header
      have hafter : s'.pos ≤ t.pos := by
        have hnext : constructing lib message.val (i + 1) = .inl s' := by
          unfold constructing
          rw [Loop.after_succ_of_inl hs, hs']
        by_cases hj : i + 1 = j
        · rw [hj, ht] at hnext
          cases hnext
          exact Nat.le_refl _
        · exact Nat.le_of_lt (Loop.lt_of_after hgrows (by omega) hnext ht)
      omega

end Constructor

/-! ## A message that is never parsed -/

/-- A request with a colon in its URI, cut off behind its first header. -/
def cutOff : CxxString := ⟨ascii "GET http://a/ HTTP/1.0\r\nHost: a", by decide +kernel⟩

/-- After the first round the loop is at 24, behind the first line, or at 1. -/
theorem cutOff_runs_forever (s : HeaderLoop) (hs : s.pos = 24 ∨ s.pos = 1) :
    ∃ s', Message.round noDates cutOff.val s = .inl s' ∧ (s'.pos = 24 ∨ s'.pos = 1) := by
  rcases hs with hpos | hpos
  · have hrest : s.rest cutOff.val = ascii "Host: a" := by
      unfold HeaderLoop.rest
      rw [hpos]
      decide +kernel
    have hle : s.pos ≤ cutOff.val.length := by
      rw [hpos]
      decide +kernel
    rcases @round_accepted_none noDates _ _ hle (by rw [hrest]; decide +kernel)
      (by rw [hrest]; exact ⟨.extension (ascii "Host") (ascii "a"), rfl⟩) with ⟨s', hr, hone⟩
    exact ⟨s', hr, .inr hone⟩
  · have hrest : s.rest cutOff.val = ascii "ET http://a/ HTTP/1.0\r\nHost: a" := by
      unfold HeaderLoop.rest
      rw [hpos]
      decide +kernel
    have hle : s.pos ≤ cutOff.val.length := by
      rw [hpos]
      decide +kernel
    rcases @round_accepted_some noDates _ _ hle 21 (by rw [hrest]; decide +kernel)
      (by rw [hrest]; exact ⟨.extension (ascii "ET http") (ascii "/a/ HTTP/1.0"), rfl⟩) with
      ⟨s', hr, hnext⟩
    refine ⟨s', hr, .inl ?_⟩
    rw [hnext, hpos]
    rfl

/-- The constructor neither returns nor throws on it. -/
theorem cutOff_never_ends :
    ¬ Loop.Ends (Message.round noDates cutOff.val) (Message.firstPart cutOff.val) ∧
      ¬ ParsesInOrder noDates cutOff.val := by
  have hforever : ¬ Loop.Ends (Message.round noDates cutOff.val) (Message.firstPart cutOff.val) := by
    have hfirst : firstOccurrence crlf cutOff.val = some 22 := by decide +kernel
    rw [firstPart_some hfirst]
    exact Loop.not_ends (I := fun s => s.pos = 24 ∨ s.pos = 1) cutOff_runs_forever (.inl rfl)
  exact ⟨hforever, fun h => hforever h.ends⟩

end ComputerNetworking.Http
