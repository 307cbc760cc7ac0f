/-
# ComputerNetworking.Http.HeaderLine -- a header line taken apart

`Header::parse_header` takes the name to the colon and the value from two bytes behind the colon on, whatever
the byte between them is, and whether there is one. So a header line keeps its value exactly if the colon is
followed by a blank. In a printed header it is; an `ExtensionHeader` comes back as it was, unless it has the
name of a date header and no date.
-/
import ComputerNetworking.Http.Print

namespace ComputerNetworking.Http

open ComputerNetworking.Lib

namespace Header

open Uri (colon)

/-- The name and the value with which `Header::parse_header(header)` calls `parse_header(name, value)`. -/
def split (header : Bytes) : Except Thrown (Bytes × Bytes) := do
  let colon := find header (ascii ":") 0
  if colon = npos then throw (.headerParse header)
  else
    let name ← substr header 0 colon
    let value ← substrFrom header (sizeAdd colon 2)
    pure (name, value)

theorem parse_eq_split (lib : DateLib) (header : Bytes) :
    Header.parse lib header = (split header >>= fun parts => ofNameValue lib parts.1 parts.2) := by
  unfold Header.parse split
  by_cases hnone : find header (ascii ":") 0 = npos
  · simp only [if_pos hnone]
    rfl
  · simp only [if_neg hnone, bind_assoc, pure_bind]

/-- `get_value()`. -/
def value : Header → Bytes
  | date value _ => value
  | expires value _ => value
  | lastModified value _ => value
  | extension _ value => value

/-! ## Where the line is cut -/

section Split

variable {name value line : Bytes} {c : UInt8}

theorem split_none (h : colon ∉ line) : split line = .error (.headerParse line) := by
  have hfind : find line (ascii ":") 0 = npos := find_byte_none h
  unfold split
  simp only [hfind, if_true]
  rfl

/-- One byte behind the colon is skipped; of the rest no more is taken than a string holds. -/
theorem split_colon (hname : colon ∉ name) (hlen : name.length + 2 < npos) (c : UInt8) (value : Bytes) :
    split (name ++ colon :: c :: value) = .ok (name, value.take npos) := by
  have hfind : find (name ++ colon :: c :: value) (ascii ":") 0 = name.length := find_byte hname
  have hrange : npos < sizeRange := by decide
  have hbehind : substrFrom (name ++ colon :: c :: value) (name.length + 2) =
      .ok (value.take npos) := by
    rw [substrFrom, substr, if_pos (by simp), ← List.drop_drop, List.drop_left]
    rfl
  unfold split
  simp only [hfind, Nat.ne_of_lt (show name.length < npos by omega), if_false]
  rw [sizeAdd_of_lt (by omega), hbehind, substr_left]
  rfl

theorem split_cut (hname : colon ∉ name) (hlen : (name ++ colon :: c :: value).length < npos) :
    split (name ++ colon :: c :: value) = .ok (name, value) := by
  simp only [List.length_append, List.length_cons] at hlen
  rw [split_colon hname (by omega), List.take_of_length_le (by omega)]

/-- Behind a colon at the end there is no position for `substr`. -/
theorem split_end (hname : colon ∉ name) (hlen : name.length + 1 < npos) :
    split (name ++ [colon]) = .error (.std .outOfRange) := by
  have hfind : find (name ++ [colon]) (ascii ":") 0 = name.length := find_byte hname
  have hrange : npos < sizeRange := by decide
  have hthrows : substrFrom (name ++ [colon]) (name.length + 2) = .error .outOfRange := by
    rw [substrFrom, substr, if_neg]
    rw [List.length_append, List.length_singleton]
    omega
  unfold split
  simp only [hfind, Nat.ne_of_lt (show name.length < npos by omega), if_false]
  rw [sizeAdd_of_lt (by omega), hthrows, substr_left]
  rfl

end Split

/-! ## What is kept -/

/-- SP or HT. -/
def IsBlank (c : UInt8) : Prop := c = 0x20 ∨ c = 0x09

/-- The line is split at its first colon, nothing but blanks in front of the value is dropped, and no
exceptions are thrown but those of the library. -/
structure Lossless (lib : DateLib) (line : Bytes) : Prop where
  split : ∃ name blanks value, line = name ++ colon :: (blanks ++ value) ∧ colon ∉ name ∧
    (∀ c ∈ blanks, IsBlank c) ∧ Header.split line = .ok (name, value)
  thrown : ∀ e, Header.parse lib line = .error e →
    (∃ header, e = .headerParse header) ∨ ∃ value, e = .dateParse value

/-- Behind the first colon there is a blank. -/
def BlankBehindColon (line : Bytes) : Prop :=
  ∃ name c value, line = name ++ colon :: c :: value ∧ colon ∉ name ∧ IsBlank c

/-- An `ExtensionHeader` comes back with its name and value. -/
def GivesBack (lib : DateLib) (name value : Bytes) : Prop :=
  ∃ header, Header.parse lib ((extension name value).toString lib) = .ok header ∧
    header.name = name ∧ header.value = value

/-- With the name of a date header the value is a date (or, for Expires, what an invalid date becomes). -/
def DatedAsNamed (lib : DateLib) (name value : Bytes) : Prop :=
  name ∈ dateNames →
    (lib.parse value).isSome ∨ (name = ascii "Expires" ∧ value = lib.format lib.now)

section Kept

variable {lib : DateLib} {name value : Bytes}

theorem thrown_of_ofNameValue {e : Thrown} (h : ofNameValue lib name value = .error e) :
    e = .dateParse value := by
  unfold ofNameValue at h
  split_ifs at h
  · split at h <;> cases h
    rfl
  · split at h <;> cases h
  · split at h <;> cases h
    rfl

/-- **The header made of a name and a value has them**, except that an invalid date is replaced or thrown. -/
theorem exists_ofNameValue_iff :
    (∃ header, ofNameValue lib name value = .ok header ∧ header.name = name ∧ header.value = value) ↔
      DatedAsNamed lib name value := by
  unfold ofNameValue DatedAsNamed
  split_ifs with hdate hexpires hmodified
  · have hne : ascii "Date" ≠ ascii "Expires" := by decide
    cases lib.parse value with
    | none => simp [dateNames, hdate, hne]
    | some d => simp [Header.name, Header.value, hdate]
  · cases lib.parse value with
    | none => simp [Header.name, Header.value, dateNames, hexpires, eq_comm]
    | some d => simp [Header.name, Header.value, hexpires]
  · have hne : ascii "Last-Modified" ≠ ascii "Expires" := by decide
    cases lib.parse value with
    | none => simp [dateNames, hmodified, hne]
    | some d => simp [Header.name, Header.value, hmodified]
  · simp [Header.name, Header.value, dateNames, hdate, hexpires, hmodified]

/-- Where there is a colon, the line keeps its value exactly if a blank is behind it. -/
theorem lossless_iff {line : Bytes} (hlen : line.length < npos) (hcolon : colon ∈ line) :
    Lossless lib line ↔ BlankBehindColon line := by
  rcases notMem_or_cut colon line with hnone | ⟨name, rest, rfl, hname⟩
  · exact absurd hcolon hnone
  rcases rest with _ | ⟨c, value⟩
  · -- nothing follows: `substr` throws
    rw [List.length_append, List.length_singleton] at hlen
    refine iff_of_false ?_ ?_
    · rintro ⟨⟨name', blanks, value, -, -, -, hsplit⟩, -⟩
      rw [split_end hname hlen] at hsplit
      cases hsplit
    · rintro ⟨name', c, value, heq, hname', -⟩
      cases (cut_inj hname hname' heq).2
  · have hsplit : split (name ++ colon :: c :: value) = .ok (name, value) := split_cut hname hlen
    constructor
    · rintro ⟨⟨name', blanks, value', heq, hname', hblanks, hsplit'⟩, -⟩
      rw [hsplit] at hsplit'
      cases hsplit'
      -- the one byte that is dropped is a blank
      have hdropped : [c] ++ value = blanks ++ value := (cut_inj hname hname' heq).2
      rw [List.append_cancel_right_eq] at hdropped
      exact ⟨name, c, value, rfl, hname, hblanks c (by rw [← hdropped]; exact List.mem_singleton_self c)⟩
    · rintro ⟨name', c', value', heq, hname', hblank⟩
      cases (cut_inj hname hname' heq).2
      refine ⟨⟨name, [c], value, rfl, hname, ?_, hsplit⟩, fun e he => ?_⟩
      · intro b hb
        rw [List.mem_singleton.mp hb]
        exact hblank
      · rw [parse_eq_split, hsplit] at he
        exact .inr ⟨value, thrown_of_ofNameValue he⟩

/-- A printed `ExtensionHeader` is split into its name and its value. -/
theorem givesBack_iff (hlen : ((extension name value).toString lib).length < npos) (hname : colon ∉ name) :
    GivesBack lib name value ↔ DatedAsNamed lib name value := by
  have htext : (extension name value).toString lib = name ++ colon :: 0x20 :: value := by
    rw [Header.toString, List.append_assoc]
    rfl
  rw [htext] at hlen
  rw [GivesBack, htext, parse_eq_split, split_cut hname hlen]
  exact exists_ofNameValue_iff

end Kept

/-- **A header line is parsed losslessly if and only if a blank follows its first colon, and a printed
`ExtensionHeader` comes back if and only if it is not named like a date header without being dated.** -/
theorem header_lossless_iff (lib : DateLib) :
    (∀ line : CxxString, colon ∈ line.val → (Lossless lib line.val ↔ BlankBehindColon line.val)) ∧
    ∀ (name value : Bytes) (text : CxxString), text.val = (extension name value).toString lib →
      colon ∉ name → (GivesBack lib name value ↔ DatedAsNamed lib name value) := by
  constructor
  · intro line hcolon
    exact lossless_iff line.2 hcolon
  · intro name value text htext hname
    exact givesBack_iff (htext ▸ text.2) hname

/-- `X-A: b:c`. -/
theorem header_lossless_xa : Lossless noDates (ascii "X-A: b:c") ∧
    GivesBack noDates (ascii "X-A") (ascii "b:c") := by
  obtain ⟨hline, hextension⟩ := header_lossless_iff noDates
  refine ⟨(hline ⟨ascii "X-A: b:c", by decide⟩ (by decide)).mpr ?_, ?_⟩
  · exact ⟨ascii "X-A", 0x20, ascii "b:c", by decide, by decide, .inl rfl⟩
  · refine (hextension _ _ ⟨ascii "X-A: b:c", by decide⟩ rfl (by decide)).mpr ?_
    intro hdated
    exact absurd hdated (by decide)

/-- Without a blank the value loses its first byte, and without a value `substr` throws. -/
theorem header_value_lost :
    split (ascii "X-A:bc") = .ok (ascii "X-A", ascii "c") ∧ ¬ Lossless noDates (ascii "X-A:bc") ∧
      Header.parse noDates (ascii "X-A:") = .error (.std .outOfRange) ∧
        ¬ Lossless noDates (ascii "X-A:") := by
  have hsplit : split (ascii "X-A:bc") = .ok (ascii "X-A", ascii "c") := by decide
  have hthrows : Header.parse noDates (ascii "X-A:") = .error (.std .outOfRange) := rfl
  refine ⟨hsplit, ?_, hthrows, ?_⟩
  · rintro ⟨⟨name, blanks, value, hline, hname, hblanks, hsplit'⟩, -⟩
    rw [hsplit] at hsplit'
    cases hsplit'
    have hdropped : [0x62] ++ ascii "c" = blanks ++ ascii "c" :=
      (cut_inj (a := ascii "X-A") (b := ascii "bc") (by decide) hname hline).2
    rw [List.append_cancel_right_eq] at hdropped
    have hblank := hblanks 0x62 (by rw [← hdropped]; exact List.mem_singleton_self _)
    revert hblank
    unfold IsBlank
    decide
  · rintro ⟨-, hthrown⟩
    rcases hthrown _ hthrows with ⟨header, h⟩ | ⟨value, h⟩ <;> cases h

end Header

end ComputerNetworking.Http
