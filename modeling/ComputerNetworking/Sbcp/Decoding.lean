/-
# ComputerNetworking.Sbcp.Decoding -- iterating over a payload somebody else has made

A payload should be decoded to the end or turned down with an exception, without a look behind its
last byte. The iterator does not know how much is left: it takes a header for granted wherever it
stands and believes the length found there. So it leaves the payload if that ends within a header, and
if the last attribute announces more than there is. `Delimited` describes the other payloads;
`decodedSafely_iff` is exact.
-/
import ComputerNetworking.Sbcp.Messages

namespace ComputerNetworking.Sbcp

open ComputerNetworking.Lib

/-! ## What an iteration reads -/

namespace Message

/-- The offsets at which a range-`for` applies `operator*`, from an offset on; `++` applies it once
more at the same offset. -/
def dereferencedFrom (m : Message) (offset : Nat) : List Nat :=
  if offset = m.getLength then []
  else
    match _h : m.attributeAt offset with
    | .error _ => [offset]
    | .ok a => offset :: m.dereferencedFrom (offset + a.size)
termination_by m.payload.length - offset
decreasing_by
  have := attributeAt_lt _h
  simp only [AttributeRef.size, attributeHeaderSize]
  omega

section Steps

variable {m : Message} {offset : Nat}

theorem dereferencedFrom_end : m.dereferencedFrom m.getLength = [] := by
  rw [dereferencedFrom, if_pos rfl]

theorem dereferencedFrom_error {e : Fault} (hend : offset ≠ m.getLength)
    (h : m.attributeAt offset = .error e) : m.dereferencedFrom offset = [offset] := by
  rw [dereferencedFrom, if_neg hend]
  split
  · rfl
  · next ha =>
      rw [h] at ha
      cases ha

theorem dereferencedFrom_ok {a : AttributeRef} (hend : offset ≠ m.getLength)
    (h : m.attributeAt offset = .ok a) :
    m.dereferencedFrom offset = offset :: m.dereferencedFrom (offset + a.size) := by
  rw [dereferencedFrom, if_neg hend]
  split
  · next he =>
      rw [h] at he
      cases he
  · next ha =>
      rw [h] at ha
      cases ha
      rfl

/-- Before `end()` something is dereferenced. -/
theorem mem_dereferencedFrom (hend : offset ≠ m.getLength) : offset ∈ m.dereferencedFrom offset := by
  rw [dereferencedFrom, if_neg hend]
  split <;> simp

end Steps

/-- The positions of the payload bytes a whole range-`for` reads: at every dereference the type and
the length, which `Attribute::validate()` looks at. -/
def bytesRead (m : Message) : List Nat :=
  match m.validate with
  | .error _ => []
  | .ok () => (m.dereferencedFrom 0).flatMap fun offset => List.range' offset attributeHeaderSize

end Message

/-- The iteration has visited attributes whose encodings make up the announced payload. -/
def Tiled (m : Message) : Prop :=
  m.walk.fault = none ∧
    ∃ as, m.walk.attributes = refsFrom 0 as ∧ m.payload.take m.getLength = encodeAttrs as

/-- An iteration ends with the payload or with an exception, reads nothing behind the payload and
yields no attribute that does not lie in it. -/
structure DecodedSafely (m : Message) : Prop where
  ends : Tiled m ∨ ∃ what, m.walk.fault = some (.messageException what)
  reads : ∀ i ∈ m.bytesRead, i < m.getLength
  rejects : ∀ a ∈ m.walk.attributes, a.offset + a.size ≤ m.getLength

/-- Whole attributes up to the end, or up to a header that `Attribute::validate()` turns down. -/
inductive Delimited : Bytes → Prop
  | nil : Delimited []
  | turnedDown {t₀ t₁ l₀ l₁ : UInt8} {e : Fault} (rest : Bytes) :
      validateAttribute (readLe16 t₀ t₁) (ntohs (readLe16 l₀ l₁)).toNat = .error e →
      Delimited (t₀ :: t₁ :: l₀ :: l₁ :: rest)
  | whole (a : Attr) {rest : Bytes} : Delimited rest → Delimited (a.encode ++ rest)

/-! ## Delimited payloads -/

section Delimited

variable {t₀ t₁ l₀ l₁ : UInt8} {value p : Bytes}

theorem validateAttribute_eq_error {c : UInt16} {n : Nat} {e : Fault}
    (h : validateAttribute c n = .error e) : ∃ what, e = .messageException what := by
  unfold validateAttribute at h
  split at h <;> try split_ifs at h
  all_goals
    cases h
    exact ⟨_, rfl⟩

/-- Less than a header is not delimited, unless it is nothing. -/
theorem Delimited.length_of_ne_nil (h : Delimited p) (hne : p ≠ []) : 4 ≤ p.length := by
  cases h with
  | nil => exact absurd rfl hne
  | turnedDown rest _ =>
      simp only [List.length_cons]
      omega
  | whole a _ =>
      rw [List.length_append, Attr.encode_length, attributeHeaderSize]
      omega

/-- Behind a valid header, what it announces is there, and what comes then is delimited. -/
theorem delimited_cons_iff {type : AttributeType}
    (h : validateAttribute (readLe16 t₀ t₁) (ntohs (readLe16 l₀ l₁)).toNat = .ok type) :
    Delimited (t₀ :: t₁ :: l₀ :: l₁ :: value) ↔
      (ntohs (readLe16 l₀ l₁)).toNat ≤ value.length ∧
        Delimited (value.drop (ntohs (readLe16 l₀ l₁)).toNat) := by
  constructor
  · intro hd
    generalize hp : t₀ :: t₁ :: l₀ :: l₁ :: value = p at hd
    cases hd with
    | nil => cases hp
    | turnedDown rest he =>
        cases hp
        rw [h] at he
        cases he
    | @whole a rest hrest =>
        simp only [Attr.encode, le16, List.cons_append, List.nil_append, List.cons.injEq] at hp
        obtain ⟨rfl, rfl, rfl, rfl, rfl⟩ := hp
        rw [readLe16_le16, ntohs_htons, a.lengthWord_toNat, List.drop_left]
        exact ⟨by simp, hrest⟩
  · rintro ⟨hle, hd⟩
    obtain ⟨a, -, -, henc⟩ := exists_encode h hle
    rw [henc]
    exact .whole a hd

end Delimited

/-! ## From an offset on -/

/-- The part of the announced payload behind an offset. -/
def Message.remaining (m : Message) (offset : Nat) : Bytes := (m.payload.take m.getLength).drop offset

section Remaining

variable {m : Message} {offset : Nat}

theorem remaining_length (offset : Nat) (hmax : m.getLength ≤ sbcpMaxPayloadLength) :
    (m.remaining offset).length = m.getLength - offset := by
  rw [Message.remaining, List.length_drop, List.length_take, m.payload_length]
  omega

/-- The buffer behind an offset begins with what remains of the payload. -/
theorem drop_eq_remaining (hmax : m.getLength ≤ sbcpMaxPayloadLength) (hle : offset ≤ m.getLength) :
    m.payload.drop offset = m.remaining offset ++ m.payload.drop m.getLength := by
  have hlen : (m.payload.take m.getLength).length = m.getLength := by
    rw [List.length_take, m.payload_length]
    omega
  conv_lhs => rw [← List.take_append_drop m.getLength m.payload]
  rw [List.drop_append_of_le_length (by rw [hlen]; exact hle)]
  rfl

theorem remaining_drop (n : Nat) : (m.remaining offset).drop n = m.remaining (offset + n) :=
  List.drop_drop

/-- Where a whole header remains, it decides what is found, and behind it the value remains. -/
theorem remaining_cases (hmax : m.getLength ≤ sbcpMaxPayloadLength)
    (hin : offset + attributeHeaderSize ≤ m.getLength) :
    ∃ t₀ t₁ l₀ l₁ value, m.remaining offset = t₀ :: t₁ :: l₀ :: l₁ :: value ∧
      m.attributeAt offset =
        ((validateAttribute (readLe16 t₀ t₁) (ntohs (readLe16 l₀ l₁)).toNat).map
          fun type => ⟨offset, type, (ntohs (readLe16 l₀ l₁)).toNat⟩) ∧
      ∀ n, m.remaining (offset + (attributeHeaderSize + n)) = value.drop n := by
  have hlen := remaining_length offset hmax
  unfold attributeHeaderSize at hin
  rcases hrest : m.remaining offset with _ | ⟨t₀, _ | ⟨t₁, _ | ⟨l₀, _ | ⟨l₁, value⟩⟩⟩⟩
  all_goals
    rw [hrest] at hlen
    simp only [List.length_nil, List.length_cons] at hlen
  · omega
  · omega
  · omega
  · omega
  · refine ⟨t₀, t₁, l₀, l₁, value, rfl, ?_, ?_⟩
    · exact attributeAt_cons (by rw [drop_eq_remaining hmax (by omega), hrest]; rfl)
    · intro n
      rw [← remaining_drop, hrest, Nat.add_comm attributeHeaderSize]
      rfl

theorem not_delimited_of_short (hmax : m.getLength ≤ sbcpMaxPayloadLength)
    (hle : offset ≤ m.getLength) (hend : offset ≠ m.getLength)
    (hshort : m.getLength < offset + attributeHeaderSize) : ¬ Delimited (m.remaining offset) := by
  intro h
  have hlen := remaining_length offset hmax
  have hne : m.remaining offset ≠ [] := by
    apply List.ne_nil_of_length_pos
    omega
  have := h.length_of_ne_nil hne
  unfold attributeHeaderSize at hshort
  omega

end Remaining

/-- `DecodedSafely` for the part of an iteration that starts at an offset. That an iteration without an
exception has tiled the payload need not be said. -/
structure SafeFrom (m : Message) (offset : Nat) : Prop where
  ends : ∀ e, (m.walkFrom offset).fault = some e → ∃ what, e = .messageException what
  reads : ∀ o ∈ m.dereferencedFrom offset, o + attributeHeaderSize ≤ m.getLength
  rejects : ∀ a ∈ (m.walkFrom offset).attributes, a.offset + a.size ≤ m.getLength

section SafeFrom

variable {m : Message} {offset : Nat}

/-- A payload that ends within a header is read past its end. -/
theorem not_safeFrom_of_short (hend : offset ≠ m.getLength)
    (hshort : m.getLength < offset + attributeHeaderSize) : ¬ SafeFrom m offset := by
  intro h
  have := h.reads offset (Message.mem_dereferencedFrom hend)
  omega

theorem safeFrom_end : SafeFrom m m.getLength := by
  refine ⟨?_, ?_, ?_⟩
  · simp [Message.walkFrom_end]
  · simp [Message.dereferencedFrom_end]
  · simp [Message.walkFrom_end]

/-- A header that is turned down, with all its bytes in the payload. -/
theorem safeFrom_error {what : String} (hend : offset ≠ m.getLength)
    (hin : offset + attributeHeaderSize ≤ m.getLength)
    (h : m.attributeAt offset = .error (.messageException what)) : SafeFrom m offset := by
  refine ⟨?_, ?_, ?_⟩
  · rw [Message.walkFrom_error hend h]
    rintro e ⟨⟩
    exact ⟨what, rfl⟩
  · rw [Message.dereferencedFrom_error hend h]
    intro o ho
    rwa [List.mem_singleton.mp ho]
  · simp [Message.walkFrom_error hend h]

/-- An attribute that is yielded has to lie in the payload, and the rest has to be safe. -/
theorem safeFrom_ok_iff {a : AttributeRef} (hend : offset ≠ m.getLength)
    (h : m.attributeAt offset = .ok a) (ha : a.offset = offset) :
    SafeFrom m offset ↔ offset + a.size ≤ m.getLength ∧ SafeFrom m (offset + a.size) := by
  constructor
  · rintro ⟨hends, hreads, hrejects⟩
    rw [Message.walkFrom_ok hend h] at hends hrejects
    rw [Message.dereferencedFrom_ok hend h] at hreads
    refine ⟨?_, hends, ?_, ?_⟩
    · rw [← ha]
      exact hrejects a (List.mem_cons_self ..)
    · exact fun o ho => hreads o (List.mem_cons_of_mem _ ho)
    · exact fun b hb => hrejects b (List.mem_cons_of_mem _ hb)
  · rintro ⟨hin, hrest⟩
    refine ⟨?_, ?_, ?_⟩
    · rw [Message.walkFrom_ok hend h]
      exact hrest.ends
    · rw [Message.dereferencedFrom_ok hend h]
      intro o ho
      rcases List.mem_cons.mp ho with rfl | ho
      · unfold AttributeRef.size at hin
        omega
      · exact hrest.reads o ho
    · rw [Message.walkFrom_ok hend h]
      intro b hb
      rcases List.mem_cons.mp hb with rfl | hb
      · rwa [ha]
      · exact hrest.rejects b hb

/-- **From any offset on, an iteration is safe exactly if what remains is delimited.** The induction
follows the walk. -/
theorem safeFrom_iff (hmax : m.getLength ≤ sbcpMaxPayloadLength) (hle : offset ≤ m.getLength) :
    SafeFrom m offset ↔ Delimited (m.remaining offset) := by
  induction offset using Message.walkFrom.induct (m := m) with
  | case1 =>
      have hnil : m.remaining m.getLength = [] :=
        List.drop_eq_nil_of_le (List.length_take_le _ _)
      rw [hnil]
      exact iff_of_true safeFrom_end .nil
  | case2 offset hend e he =>
      by_cases hin : offset + attributeHeaderSize ≤ m.getLength
      · obtain ⟨t₀, t₁, l₀, l₁, value, hrest, hat, -⟩ := remaining_cases hmax hin
        cases hv : validateAttribute (readLe16 t₀ t₁) (ntohs (readLe16 l₀ l₁)).toNat with
        | ok type =>
            rw [hv, he] at hat
            cases hat
        | error e' =>
            obtain ⟨what, rfl⟩ := validateAttribute_eq_error hv
            rw [hv] at hat
            rw [hrest]
            exact iff_of_true (safeFrom_error hend hin hat) (.turnedDown value hv)
      · exact iff_of_false (not_safeFrom_of_short hend (by omega))
          (not_delimited_of_short hmax hle hend (by omega))
  | case3 offset hend r hr ih =>
      by_cases hin : offset + attributeHeaderSize ≤ m.getLength
      · obtain ⟨t₀, t₁, l₀, l₁, value, hrest, hat, hnext⟩ := remaining_cases hmax hin
        have hlen := remaining_length offset hmax
        cases hv : validateAttribute (readLe16 t₀ t₁) (ntohs (readLe16 l₀ l₁)).toNat with
        | error e =>
            rw [hv, hr] at hat
            cases hat
        | ok type =>
            rw [hv, hr] at hat
            cases hat
            rw [safeFrom_ok_iff hend hr rfl, hrest, delimited_cons_iff hv, ← hnext]
            rw [hrest] at hlen
            simp only [List.length_cons] at hlen
            -- the attribute lies in the payload on both sides, and then the rest decides
            constructor
            · rintro ⟨hfit, hsafe⟩
              simp only [AttributeRef.size, attributeHeaderSize] at hfit
              exact ⟨by omega, (ih hfit).mp hsafe⟩
            · rintro ⟨hfit, hdel⟩
              have hfit' : offset + (attributeHeaderSize + (ntohs (readLe16 l₀ l₁)).toNat) ≤
                  m.getLength := by
                unfold attributeHeaderSize
                omega
              exact ⟨hfit', (ih hfit').mpr hdel⟩
      · exact iff_of_false (not_safeFrom_of_short hend (by omega))
          (not_delimited_of_short hmax hle hend (by omega))

end SafeFrom

/-! ## Whole iterations -/

/-- An iteration without an exception has tiled the payload. -/
theorem tiled_of_walk {m : Message} (h : m.walk.fault = none) : Tiled m := by
  refine ⟨h, ?_⟩
  unfold Message.walk at h ⊢
  cases hv : m.validate with
  | error e =>
      rw [hv] at h
      cases h
  | ok _ =>
      rw [hv] at h
      obtain ⟨t, -, hlimit⟩ := Message.validate_eq_ok.mp hv
      have hmax := Nat.le_trans hlimit (Message.payloadLimit_le t)
      obtain ⟨as, has, hdrop⟩ := tiled_of_walkFrom hmax h
      rw [List.drop_zero] at hdrop
      rw [Nat.zero_add] at has
      refine ⟨as, ?_, ?_⟩
      · exact congrArg Walk.attributes (walkFrom_packed [] hdrop (by simpa using has.symm))
      · rw [hdrop, ← has, List.take_left]

/-- **A message that `validate()` accepts is decoded safely exactly if its payload is whole attributes
up to the end or up to a whole header that is turned down.** -/
theorem decodedSafely_iff (m : Message) (hvalid : m.validate = .ok ()) :
    DecodedSafely m ↔ Delimited (m.payload.take m.getLength) := by
  obtain ⟨t, -, hlimit⟩ := Message.validate_eq_ok.mp hvalid
  have hmax := Nat.le_trans hlimit (Message.payloadLimit_le t)
  rw [show m.payload.take m.getLength = m.remaining 0 from rfl,
    ← safeFrom_iff hmax (Nat.zero_le _)]
  have hwalk : m.walk = m.walkFrom 0 := by rw [Message.walk, hvalid]
  have hread : ∀ i, i ∈ m.bytesRead ↔
      ∃ o ∈ m.dereferencedFrom 0, o ≤ i ∧ i < o + attributeHeaderSize := by
    intro i
    rw [Message.bytesRead, hvalid]
    simp [List.mem_range'_1]
  constructor
  · rintro ⟨hends, hreads, hrejects⟩
    rw [hwalk] at hends hrejects
    refine ⟨?_, ?_, hrejects⟩
    · rintro e he
      rcases hends with ⟨hnone, -⟩ | ⟨what, hwhat⟩
      · rw [hwalk, he] at hnone
        cases hnone
      · rw [he] at hwhat
        exact ⟨what, Option.some.inj hwhat⟩
    · intro o ho
      have hlast := hreads (o + 3) ((hread _).mpr ⟨o, ho, by omega, by
        unfold attributeHeaderSize
        omega⟩)
      unfold attributeHeaderSize
      omega
  · rintro ⟨hends, hreads, hrejects⟩
    rw [← hwalk] at hends hrejects
    refine ⟨?_, ?_, hrejects⟩
    · cases hf : m.walk.fault with
      | none => exact .inl (tiled_of_walk hf)
      | some e =>
          obtain ⟨what, rfl⟩ := hends e hf
          exact .inr ⟨what, rfl⟩
    · intro i hi
      obtain ⟨o, ho, -, hlt⟩ := (hread i).mp hi
      have := hreads o ho
      omega

/-- A NAK with an empty reason and behind it a header of type 0. -/
def nakAndZeros : Message where
  header := Header.make sbcpVersion .nak 8
  payload := [1, 0, 0, 0, 0, 0, 0, 0] ++ zeros 1016
  payload_length := by simp [sbcpMaxPayloadLength]

theorem decodedSafely_nakAndZeros : nakAndZeros.validate = .ok () ∧ DecodedSafely nakAndZeros := by
  have hvalid : nakAndZeros.validate = .ok () := rfl
  have hzero : validateAttribute (readLe16 0 0) (ntohs (readLe16 0 0)).toNat =
      .error (.messageException "Invalid attribute type") := rfl
  refine ⟨hvalid, (decodedSafely_iff nakAndZeros hvalid).mpr ?_⟩
  exact .whole ⟨.reason, [], by decide⟩ (.turnedDown [] hzero)

/-- A JOIN whose USERNAME announces 16 bytes and is the header only. -/
def nameless : Message where
  header := Header.make sbcpVersion .join 4
  payload := [2, 0, 0, 16] ++ zeros 1020
  payload_length := by simp [sbcpMaxPayloadLength]

/-- The attribute is yielded, and the next header is looked for 16 bytes behind the payload. -/
theorem nameless_not_decodedSafely :
    ¬ ∀ m : Message, m.validate = .ok () → m.ZeroTail → DecodedSafely m := by
  intro h
  have hsafe := h nameless rfl rfl
  have hat : nameless.attributeAt 0 = .ok ⟨0, .username, 16⟩ := rfl
  have hmem : (⟨0, .username, 16⟩ : AttributeRef) ∈ nameless.walk.attributes := by
    show _ ∈ (nameless.walkFrom 0).attributes
    rw [Message.walkFrom_ok (by decide) hat]
    exact List.mem_cons_self ..
  have hfit := hsafe.rejects _ hmem
  revert hfit
  decide

end ComputerNetworking.Sbcp
