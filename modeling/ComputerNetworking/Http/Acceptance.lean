/-
# ComputerNetworking.Http.Acceptance -- which texts become messages

The constructor of `Message` returns on a text with an empty line if it accepts the first line and all
header lines in front of the empty line. Without an empty line the position wraps around to 1 when
everything has been accepted. Only a line end at 1 ends the loop then, so the first line is a single byte.
-/
import ComputerNetworking.Http.Layout

namespace ComputerNetworking.Http

open ComputerNetworking.Lib

/-- The text is accepted up to its empty line. -/
def AcceptedToBlank (lib : DateLib) (text : Bytes) (first : FirstLine) : Prop :=
  ∃ line headers body, text = layout line headers body ∧ ¬ crlf <:+: line ∧ HeaderLines headers ∧
    FirstLine.parse line = .ok first ∧ ∀ header ∈ headers, Accepted lib header

/-- The text has no empty line, its first line is a single byte, and everything behind it is accepted. -/
def AcceptedWrapped (lib : DateLib) (text : Bytes) (first : FirstLine) : Prop :=
  ∃ c rest, text = c :: (crlf ++ rest) ∧ ¬ blankLine <:+: text ∧ FirstLine.parse [c] = .ok first ∧
    AllAccepted lib rest

/-- The text is accepted, and this is its first line. -/
def Accepts (lib : DateLib) (text : Bytes) (first : FirstLine) : Prop :=
  AcceptedToBlank lib text first ∨ AcceptedWrapped lib text first

theorem exists_parseHeaders_iff {lib : DateLib} {headers : List Bytes} :
    (∃ all, parseHeaders lib headers = .ok all) ↔ ∀ header ∈ headers, Accepted lib header := by
  induction headers with
  | nil => exact iff_of_true ⟨[], rfl⟩ fun _ hmem => absurd hmem List.not_mem_nil
  | cons line headers ih =>
      rw [List.forall_mem_cons, ← ih]
      constructor
      · rintro ⟨all, hall⟩
        obtain ⟨header, rest, hheader, hrest, -⟩ := parseHeaders_cons.mp hall
        exact ⟨⟨header, hheader⟩, rest, hrest⟩
      · rintro ⟨⟨header, hheader⟩, rest, hrest⟩
        exact ⟨_, parseHeaders_cons.mpr ⟨header, rest, hheader, hrest, rfl⟩⟩

section Constructor

variable {lib : DateLib} {message : CxxString} {first : FirstLine} {m : Message}

theorem firstLine_of_lastPart {s : HeaderLoop} (h : Message.lastPart message.val s = .ok m) :
    m.firstLine = s.firstLine := by
  unfold Message.lastPart at h
  simp only at h
  split_ifs at h
  · obtain ⟨body, -, hm⟩ := bind_eq_ok.mp h
    cases hm
    rfl
  · cases h
    rfl

theorem firstLine_of_round {s s' : HeaderLoop} (h : Message.round lib message.val s = .inl s') :
    s'.firstLine = s.firstLine := by
  unfold Message.round at h
  simp only at h
  split_ifs at h
  split at h <;> cases h
  rfl

/-- The constructor returns behind a line end at its position. -/
theorem exists_round_of_constructs (h : Constructs lib message.val m) :
    ∃ n s, constructing lib message.val n = .inl s ∧
      Message.round lib message.val s = .inr (.ok m) := by
  obtain ⟨n, hn⟩ := h
  rcases Loop.exists_of_after_inr hn with hfirst | ⟨k, s, hs, hlast⟩
  · exact absurd hfirst Message.firstPart_ne_ok
  · exact ⟨k, s, hs, hlast⟩

/-- The round that returns has a line end at its position. -/
theorem crlf_of_lastRound {s : HeaderLoop} (hpos : s.pos ≤ message.val.length)
    (hlast : Message.round lib message.val s = .inr (.ok m)) :
    crlf <+: s.rest message.val ∧ m.firstLine = s.firstLine := by
  rcases hj : firstOccurrence crlf (s.rest message.val) with _ | j
  · rw [round_none hpos hj] at hlast
    split at hlast <;> cases hlast
  · by_cases hzero : j = 0
    · rw [hzero] at hj
      rw [round_zero hpos hj] at hlast
      exact ⟨(firstOccurrence_eq_some.mp hj).2.1, firstLine_of_lastPart (Sum.inr.inj hlast)⟩
    · rw [round_some hpos hj hzero] at hlast
      split at hlast <;> cases hlast

/-! ## Texts without an empty line -/

/-- The loop is at 1 after all has been accepted, or behind a line end; in the second case all is accepted if
what is left is. -/
def BehindLine (lib : DateLib) (message : CxxString) (i : Nat) (s : HeaderLoop) : Prop :=
  s.pos ≤ message.val.length ∧
    (s.pos = 1 ∧ AllAccepted lib (message.val.drop (i + crlf.length)) ∨
      crlf <:+ message.val.take s.pos ∧
        (AllAccepted lib (s.rest message.val) →
          AllAccepted lib (message.val.drop (i + crlf.length))))

theorem BehindLine.round {i : Nat} {s s' : HeaderLoop} (h : BehindLine lib message i s)
    (hr : Message.round lib message.val s = .inl s') : BehindLine lib message i s' := by
  obtain ⟨hpos, hwhere⟩ := h
  rcases round_inl hpos hr with ⟨hnone, ha, hone⟩ | ⟨j, hsome, ha, hnext⟩
  · have hall : AllAccepted lib (message.val.drop (i + crlf.length)) := by
      rcases hwhere with ⟨-, hall⟩ | ⟨-, hback⟩
      · exact hall
      · exact hback ((allAccepted_none hnone).mpr ha)
    refine ⟨?_, .inl ⟨hone, hall⟩⟩
    rw [hone]
    rcases hlen : message.val with _ | ⟨c, rest⟩
    · -- the empty piece is not accepted
      rw [HeaderLoop.rest, hlen, List.drop_nil] at ha
      exact absurd ha not_accepted_nil
    · simp
  · refine ⟨pos_next_le hpos hsome hnext, .inr ⟨?_, fun hleft => ?_⟩⟩
    · have htake : message.val.take s'.pos =
          message.val.take s.pos ++ (s.rest message.val).take (j + crlf.length) := by
        rw [hnext, Nat.add_assoc, List.take_add]
        rfl
      rw [htake]
      exact (suffix_of_firstOccurrence hsome).trans (List.suffix_append ..)
    · rw [rest_next hnext] at hleft
      have hhere := (allAccepted_some hsome).mpr ⟨ha, hleft⟩
      rcases hwhere with ⟨-, hall⟩ | ⟨-, hback⟩
      · exact hall
      · exact hback hhere

/-- A text without an empty line that becomes a message is accepted all the way down. -/
theorem acceptedWrapped_of_constructs (hblank : ¬ blankLine <:+: message.val)
    (h : Constructs lib message.val m) : AcceptedWrapped lib message.val m.firstLine := by
  obtain ⟨n, s, hs, hlast⟩ := exists_round_of_constructs h
  rcases hi : firstOccurrence crlf message.val with _ | i
  · unfold constructing at hs
    rw [firstPart_none hi] at hs
    cases n <;> cases hs
  · obtain ⟨line, rest, hsplit, hline, hcrlf⟩ := exists_line hi
    rcases hparse : FirstLine.parse line with e | first
    · unfold constructing at hs
      rw [firstPart_some hi, hsplit, ← hline, List.take_left, hparse] at hs
      cases n <;> cases hs
    · have htake : message.val.take i = line := by rw [hsplit, ← hline, List.take_left]
      have hstart : Message.firstPart message.val = .inl ⟨first, [], i + crlf.length⟩ := by
        rw [firstPart_some hi, htake, hparse]
      have hbehind : BehindLine lib message i s ∧ s.firstLine = first := by
        unfold constructing at hs
        rw [hstart] at hs
        apply Loop.invariant (I := fun s => BehindLine lib message i s ∧ s.firstLine = first) _ _ hs
        · intro s hs
          cases hs
          exact ⟨⟨(firstOccurrence_spec hi).1, .inr ⟨suffix_of_firstOccurrence hi, id⟩⟩, rfl⟩
        · intro s s' hs hr
          exact ⟨hs.1.round hr, (firstLine_of_round hr).trans hs.2⟩
      obtain ⟨⟨hpos, hwhere⟩, hfirst⟩ := hbehind
      obtain ⟨⟨back, hback⟩, hm⟩ := crlf_of_lastRound hpos hlast
      rcases hwhere with ⟨hone, hall⟩ | ⟨⟨front, hfront⟩, -⟩
      · -- the line end at 1 is that of the first line
        rcases line with _ | ⟨c, _ | ⟨c', line⟩⟩
        · cases hparse
        · refine ⟨c, rest, hsplit, hblank, by rw [hm, hfirst, hparse], ?_⟩
          rwa [hsplit, ← hline, ← List.drop_drop, List.drop_left] at hall
        · exfalso
          rw [HeaderLoop.rest, hone, hsplit] at hback
          have hbehind : ¬ crlf <:+: c' :: line := fun hinside =>
            hcrlf (hinside.trans (List.suffix_cons c _).isInfix)
          exact not_begins_crlf (List.cons_ne_nil _ _) hbehind rest ⟨back, hback⟩
      · exfalso
        refine hblank ⟨front, back, ?_⟩
        rw [blankLine, ← List.append_assoc, hfront, List.append_assoc, hback]
        exact List.take_append_drop ..

/-- Conversely such a text becomes a message. -/
theorem constructs_of_acceptedWrapped (h : AcceptedWrapped lib message.val first) :
    ∃ m, Constructs lib message.val m ∧ m.firstLine = first := by
  obtain ⟨c, rest, htext, -, hparse, hall⟩ := h
  have hone : firstOccurrence crlf message.val = some 1 := by
    rw [htext]
    have hsingle : ¬ crlf <:+: [c] := fun hinside =>
      absurd hinside.length_le (show ¬ 2 ≤ 1 by decide)
    exact firstOccurrence_line hsingle rest
  have hstart : Message.firstPart message.val = .inl ⟨first, [], 1 + crlf.length⟩ := by
    rw [firstPart_some hone, show message.val.take 1 = [c] by rw [htext]; rfl, hparse]
  have hrest : HeaderLoop.rest ⟨first, [], 1 + crlf.length⟩ message.val = rest := by
    rw [HeaderLoop.rest, htext]
    rfl
  have hpos : 1 + crlf.length ≤ message.val.length := (firstOccurrence_spec hone).1
  obtain ⟨n, t, t', ht, ht', -, hpos'⟩ :=
    wraps (s := ⟨first, [], 1 + crlf.length⟩) hpos (by rwa [hrest])
  rw [← hstart] at ht
  have hnext : constructing lib message.val (n + 1) = .inl t' := by
    unfold constructing
    rw [Loop.after_succ_of_inl ht, ht']
  have hfirst : t'.firstLine = first := by
    apply Loop.invariant (I := fun s => s.firstLine = first) _ _ hnext
    · intro s hs
      cases hstart.symm.trans hs
      rfl
    · intro s s' hs hr
      exact (firstLine_of_round hr).trans hs
  have hend : t'.rest message.val = crlf ++ rest := by
    rw [HeaderLoop.rest, hpos', htext]
    rfl
  have hzero : firstOccurrence crlf (t'.rest message.val) = some 0 := by
    rw [hend]
    exact firstOccurrence_line (show ¬ crlf <:+: [] by decide) rest
  have hle : t'.pos ≤ message.val.length := by
    rw [hpos']
    omega
  refine ⟨⟨t'.firstLine, t'.headers, bodyOf rest⟩, ⟨n + 1 + 1, ?_⟩, hfirst⟩
  unfold constructing at hnext ⊢
  rw [Loop.after_succ_of_inl hnext, round_zero hle hzero, lastPart_eq hle hend]

/-! ## All texts -/

/-- **The constructor returns exactly on the accepted texts.** -/
theorem constructs_iff (lib : DateLib) (message : CxxString) (first : FirstLine) :
    (∃ m, Constructs lib message.val m ∧ m.firstLine = first) ↔ Accepts lib message.val first := by
  constructor
  · rintro ⟨m, hm, rfl⟩
    by_cases hblank : blankLine <:+: message.val
    · left
      obtain ⟨line, headers, body, htext, hline, hheaders⟩ := exists_layout hblank
      obtain ⟨first, all, hfirst, hall, rfl⟩ := (constructs_layout_iff htext hline hheaders).mp hm
      exact ⟨line, headers, body, htext, hline, hheaders, hfirst,
        exists_parseHeaders_iff.mp ⟨all, hall⟩⟩
    · exact .inr (acceptedWrapped_of_constructs hblank hm)
  · rintro (⟨line, headers, body, htext, hline, hheaders, hfirst, haccepted⟩ | hwrapped)
    · obtain ⟨all, hall⟩ := exists_parseHeaders_iff.mpr haccepted
      exact ⟨_, (constructs_layout_iff htext hline hheaders).mpr ⟨first, all, hfirst, hall, rfl⟩, rfl⟩
    · exact constructs_of_acceptedWrapped hwrapped

end Constructor

end ComputerNetworking.Http
