/-
# ComputerNetworking.Sbcp.Mutators -- what a mutator leaves behind

`add_attribute` validates the message as it is, looks whether the attribute fits into the buffer, and
appends; the limit of the message's type is not asked again. `change_to_fwd` has switched the type by then.
So a call can return with a message that `validate()` turns down, and `change_to_fwd` can throw with the type
switched. `mutators_iff` says in which runs of calls neither happens.
-/
import ComputerNetworking.Lib.Transition
import ComputerNetworking.Sbcp.RoundTrip

namespace ComputerNetworking.Sbcp

open ComputerNetworking.Lib

/-! ## Runs of calls -/

/-- A call of a mutator. -/
inductive MutatorCall where
  | add (call : AddCall)
  | changeToFwd (username : Bytes)
  deriving DecidableEq

namespace MutatorCall

def perform (m : Message) : MutatorCall → Message.Mutation
  | add call => call.perform m
  | changeToFwd username => m.changeToFwd username

/-- The value is within the attribute's limit, and `change_to_fwd` is called on a SEND message. -/
def Permitted (m : Message) : MutatorCall → Prop
  | add call => call.WithinMax
  | changeToFwd username => username.length ≤ sbcpMaxUsernameLength ∧ m.getType = some .send

instance (m : Message) (c : MutatorCall) : Decidable (c.Permitted m) := by
  cases c <;> unfold Permitted <;> infer_instance

end MutatorCall

/-- A message and the calls made on it, thrown exceptions being caught. -/
def mutators : Machine Message MutatorCall where
  init m := ∃ t, m = Message.ofType t
  step m c := if c.Permitted m then some (c.perform m).2 else none

/-- The call throws a `MessageException` and leaves the message as it was, or returns with a message that
`validate()` accepts. -/
def Atomic (m : Message) (c : MutatorCall) : Prop :=
  (∃ what, c.perform m = (.error (.messageException what), m)) ∨
    ∃ m', c.perform m = (.ok (), m') ∧ m'.validate = .ok ()

/-- What the checks let through stays within the limit of the type. -/
def StaysWithinLimit (m : Message) : MutatorCall → Prop
  | .add call =>
      ∀ t, m.getType = some t → m.getLength ≤ Message.payloadLimit t →
        m.getLength + call.size ≤ sbcpMaxPayloadLength →
          m.getLength + call.size ≤ Message.payloadLimit t
  | .changeToFwd username =>
      m.getLength + (attributeHeaderSize + username.length) ≤ Message.payloadLimit .fwd

/-! ## What an append does -/

/-- `validate()` throws nothing else. -/
theorem Message.validate_eq_error {m : Message} {e : Fault} (h : m.validate = .error e) :
    ∃ what, e = .messageException what := by
  unfold validate validateVersion at h
  split_ifs at h with hversion
  · cases h
    exact ⟨_, rfl⟩
  · cases ht : m.getType with
    | none =>
        simp only [ht, bind, Except.bind] at h
        cases h
        exact ⟨_, rfl⟩
    | some t =>
        simp only [ht, bind, Except.bind] at h
        split_ifs at h
        cases h
        exact ⟨_, rfl⟩

section Append

variable {m : Message} {t : MessageType} {as : List Attr} {built : Except Fault Attribute} {a : Attr}

/-- The message is within its limit, and behind it there is room for the attribute. -/
def LetThrough (t : MessageType) (length size : Nat) : Prop :=
  length ≤ Message.payloadLimit t ∧ length + size ≤ sbcpMaxPayloadLength

/-- **An append throws and changes nothing, or adds the attribute**; the checks decide. -/
theorem addBuilt_cases (h : Packed m t as) (hbuilt : ∃ attr, built = .ok attr ∧ attr.Stores a) :
    (¬ LetThrough t m.getLength a.encode.length ∧
        ∃ what, m.addBuilt built = (.error (.messageException what), m)) ∨
      LetThrough t m.getLength a.encode.length ∧
        ∃ m', m.addBuilt built = (.ok (), m') ∧ Packed m' t (as ++ [a]) := by
  unfold LetThrough
  rw [h.getLength]
  by_cases hold : (encodeAttrs as).length ≤ Message.payloadLimit t
  · by_cases hnew : (encodeAttrs as).length + a.encode.length ≤ sbcpMaxPayloadLength
    · exact .inr ⟨⟨hold, hnew⟩, addBuilt_packed h hbuilt hold hnew⟩
    · -- there is no room in the buffer
      refine .inl ⟨fun hboth => hnew hboth.2, ?_⟩
      obtain ⟨attr, rfl, hattr⟩ := hbuilt
      have hfull : m.getLength + attr.size > sbcpMaxPayloadLength := by
        rw [h.getLength, hattr.size]
        omega
      refine ⟨"Payload length exceeds maximum length", ?_⟩
      simp only [Message.addBuilt, Message.addAttribute, h.validate_iff.mpr hold, dif_pos hfull]
  · -- the message is already beyond its limit
    refine .inl ⟨fun hboth => hold hboth.1, ?_⟩
    obtain ⟨attr, rfl, -⟩ := hbuilt
    rcases hv : m.validate with e | _
    · obtain ⟨what, rfl⟩ := Message.validate_eq_error hv
      refine ⟨what, ?_⟩
      simp only [Message.addBuilt, Message.addAttribute, hv]
    · exact absurd (h.validate_iff.mp hv) hold

/-- What is valid after an append. -/
theorem Packed.append_validate_iff {m' : Message} (h : Packed m t as) (h' : Packed m' t (as ++ [a])) :
    m'.validate = .ok () ↔ m.getLength + a.encode.length ≤ Message.payloadLimit t := by
  rw [h'.validate_iff, h.getLength, encodeAttrs_append, List.length_append, encodeAttrs_cons,
    encodeAttrs_nil, List.append_nil]

end Append

/-! ## One call -/

section Call

variable {m m' : Message} {t : MessageType} {as : List Attr}

theorem AddCall.length_encode_attr {c : AddCall} (hmax : c.WithinMax) :
    (c.attr hmax).encode.length = c.size := Attr.encode_length _

/-- On a SEND message `change_to_fwd` is `add_username` on a FWD. -/
theorem perform_changeToFwd (hsend : m.getType = some .send) (username : Bytes) :
    MutatorCall.perform m (.changeToFwd username) =
      ({ m with header := m.header.setType .fwd } : Message).addBuilt
        (Attribute.ofString .username username) := if_pos hsend

/-- A call that returns is judged by the message it leaves. -/
theorem atomic_iff_validate {c : MutatorCall} (hok : c.perform m = (.ok (), m')) :
    Atomic m c ↔ m'.validate = .ok () := by
  unfold Atomic
  rw [hok]
  constructor
  · rintro (⟨what, heq⟩ | ⟨m'', heq, hvalid⟩)
    · cases heq
    · cases heq
      exact hvalid
  · intro hvalid
    exact .inr ⟨m', rfl, hvalid⟩

/-- An `add_*` call on a message of whole attributes. -/
theorem atomic_add_iff (h : Packed m t as) {c : AddCall} (hmax : c.WithinMax) :
    Atomic m (.add c) ↔ StaysWithinLimit m (.add c) := by
  have hcases := addBuilt_cases h (AddCall.built_stores hmax)
  rw [AddCall.length_encode_attr, ← AddCall.perform_eq] at hcases
  simp only [StaysWithinLimit, h.getType, Option.some.injEq, forall_eq']
  rcases hcases with ⟨hrefused, what, hthrown⟩ | ⟨⟨hold, hnew⟩, m', hok, hp⟩
  · exact iff_of_true (.inl ⟨what, hthrown⟩) fun hold hnew => absurd ⟨hold, hnew⟩ hrefused
  · have hcall : MutatorCall.perform m (.add c) = (.ok (), m') := hok
    rw [atomic_iff_validate hcall, h.append_validate_iff hp, AddCall.length_encode_attr]
    exact ⟨fun hin _ _ => hin, fun hin => hin hold hnew⟩

/-- A call of `change_to_fwd` on a SEND message of whole attributes. When it throws, the type is no longer
SEND. -/
theorem atomic_changeToFwd_iff (h : Packed m .send as) {username : Bytes}
    (hmax : username.length ≤ sbcpMaxUsernameLength) :
    Atomic m (.changeToFwd username) ↔ StaysWithinLimit m (.changeToFwd username) := by
  have hfwd := h.setType .fwd
  have hlength : ({ m with header := m.header.setType .fwd } : Message).getLength = m.getLength := by
    rw [hfwd.getLength, h.getLength]
  have hcases := addBuilt_cases hfwd (ofString_stores .username (by decide) hmax)
  have hroom : Message.payloadLimit .fwd ≤ sbcpMaxPayloadLength := Message.payloadLimit_le .fwd
  rw [hlength, Attr.encode_length, ← perform_changeToFwd h.getType] at hcases
  rcases hcases with ⟨hrefused, what, hthrown⟩ | ⟨-, m', hok, hp⟩
  · -- the message it throws with is a FWD
    refine iff_of_false ?_ fun hin => hrefused ?_
    · rintro (⟨what', heq⟩ | ⟨m', heq, -⟩)
      · have hsame := congrArg Prod.snd (hthrown.symm.trans heq)
        have htype := congrArg Message.getType hsame
        rw [hfwd.getType, h.getType] at htype
        cases htype
      · cases hthrown.symm.trans heq
    · have hbelow : m.getLength + (attributeHeaderSize + username.length) ≤
          Message.payloadLimit .fwd := hin
      exact ⟨Nat.le_trans (Nat.le_add_right ..) hbelow, Nat.le_trans hbelow hroom⟩
  · rw [atomic_iff_validate hok, hfwd.append_validate_iff hp, hlength, Attr.encode_length]
    exact Iff.rfl

end Call

/-! ## Runs -/

/-- Whatever calls are made, the message is made of whole attributes. -/
theorem packed_of_reachable {m : Message} (h : mutators.Reachable m) : ∃ t as, Packed m t as := by
  refine h.invariant (I := fun m => ∃ t as, Packed m t as) ?_ ?_
  · rintro m ⟨t, rfl⟩
    exact ⟨t, [], packed_ofType t⟩
  · rintro m c m' ⟨t, as, hp⟩ - hs
    simp only [mutators, Option.ite_none_right_eq_some, Option.some.injEq] at hs
    obtain ⟨hc, rfl⟩ := hs
    cases c with
    | add c =>
        have hcases := addBuilt_cases hp (AddCall.built_stores hc)
        rw [← AddCall.perform_eq] at hcases
        rcases hcases with ⟨-, what, hthrown⟩ | ⟨-, m', hok, hp'⟩
        · refine ⟨t, as, ?_⟩
          rw [MutatorCall.perform, hthrown]
          exact hp
        · refine ⟨t, as ++ [c.attr hc], ?_⟩
          rw [MutatorCall.perform, hok]
          exact hp'
    | changeToFwd username =>
        obtain ⟨hmax, hsend⟩ := hc
        have hfwd := hp.setType .fwd
        rw [perform_changeToFwd hsend]
        rcases addBuilt_cases hfwd (ofString_stores .username (by decide) hmax) with
          ⟨-, what, hthrown⟩ | ⟨-, m', hok, hp'⟩
        · rw [hthrown]
          exact ⟨.fwd, as, hfwd⟩
        · rw [hok]
          exact ⟨.fwd, _, hp'⟩

/-- A call on a message that calls have made. -/
theorem atomic_iff {m : Message} {c : MutatorCall} (h : mutators.Reachable m) (hc : c.Permitted m) :
    Atomic m c ↔ StaysWithinLimit m c := by
  obtain ⟨t, as, hp⟩ := packed_of_reachable h
  cases c with
  | add c => exact atomic_add_iff hp hc
  | changeToFwd username =>
      obtain ⟨hmax, hsend⟩ := hc
      have ht := hp.getType
      rw [hsend] at ht
      cases ht
      exact atomic_changeToFwd_iff hp hmax

/-- **In a run of calls each one is atomic and leaves a valid message if and only if each one stays within
the limits.** -/
theorem mutators_iff (t : MessageType) (m : Message) (calls : List MutatorCall)
    (hrun : mutators.run (Message.ofType t) calls = some m) :
    mutators.Along Atomic (Message.ofType t) calls ↔
      mutators.Along StaysWithinLimit (Message.ofType t) calls := by
  refine Machine.Along.congr (.init ⟨t, rfl⟩) hrun ?_
  intro m c m' hr hs
  simp only [mutators, Option.ite_none_right_eq_some] at hs
  exact atomic_iff hr hs.1

/-- A SEND gets its text, is made a FWD, and gets another attribute. -/
def forwardedSend : List MutatorCall :=
  [.add (.message (ascii "hi")), .changeToFwd (ascii "bob"), .add (.reason (ascii "late"))]

theorem mutators_fwd : ∃ m, mutators.run (Message.ofType .send) forwardedSend = some m ∧
    m.getType = some .fwd ∧ mutators.Along Atomic (Message.ofType .send) forwardedSend := by
  have hrun : mutators.run (Message.ofType .send) forwardedSend = some _ := rfl
  refine ⟨_, hrun, rfl, (mutators_iff .send _ forwardedSend hrun).mpr ⟨?_, ?_⟩⟩
  · intro t ht
    cases ht
    decide
  · rintro _ ⟨⟩
    refine ⟨show 6 + (4 + 3) ≤ Message.payloadLimit .fwd by decide, ?_⟩
    rintro _ ⟨⟩
    refine ⟨?_, fun _ _ => trivial⟩
    intro t ht
    cases ht
    decide

/-- A JOIN with a full-length username. -/
def fullJoin : List MutatorCall := [.add (.username (ascii "sixteen letters!"))]

/-- A SEND with two messages, the second of which is taken in although the first one fills it. -/
def fullSend : List MutatorCall :=
  [.add (.message (List.replicate 512 0x61)), .add (.message (List.replicate 17 0x61))]

/-- A second username makes the JOIN invalid, and `change_to_fwd` throws when the type of the SEND is
switched already. -/
theorem mutators_break :
    (∃ m, mutators.Reachable m ∧ ∃ m',
      MutatorCall.perform m (.add (.username (ascii "eve"))) = (.ok (), m') ∧ m'.validate ≠ .ok () ∧
        ¬ Atomic m (.add (.username (ascii "eve")))) ∧
    ∃ m, mutators.Reachable m ∧ m.getType = some .send ∧
      (m.changeToFwd (ascii "bob")).1 = .error (.messageException (Message.payloadOverflow .fwd)) ∧
      (m.changeToFwd (ascii "bob")).2.getType = some .fwd ∧
        ¬ Atomic m (.changeToFwd (ascii "bob")) := by
  constructor
  · have hrun : mutators.run (Message.ofType .join) fullJoin = some _ := rfl
    have hreach := Machine.reachable_of_run (M := mutators) ⟨.join, rfl⟩ hrun
    refine ⟨_, hreach, _, rfl, by decide +kernel, ?_⟩
    rw [atomic_iff hreach (by decide)]
    intro h
    exact absurd (h .join rfl (by decide +kernel) (by decide +kernel)) (by decide +kernel)
  · have hfacts : (mutators.run (Message.ofType .send) fullSend).map (fun m =>
        (m.getType, m.getLength, (m.changeToFwd (ascii "bob")).1,
          (m.changeToFwd (ascii "bob")).2.getType)) =
        some (some .send, 537, .error (.messageException (Message.payloadOverflow .fwd)),
          some .fwd) := by decide +kernel
    obtain ⟨m, hrun, hm⟩ := Option.map_eq_some_iff.mp hfacts
    simp only [Prod.mk.injEq] at hm
    obtain ⟨htype, hlength, hthrown, hfwd⟩ := hm
    have hreach := Machine.reachable_of_run (M := mutators) ⟨.send, rfl⟩ hrun
    have hpermitted : (MutatorCall.changeToFwd (ascii "bob")).Permitted m := ⟨by decide, htype⟩
    refine ⟨m, hreach, htype, hthrown, hfwd, ?_⟩
    rw [atomic_iff hreach hpermitted, StaysWithinLimit, hlength]
    decide

end ComputerNetworking.Sbcp
