/-
# ComputerNetworking.Http.Message -- headers and messages

`Header::parse_header` and the constructor of `Message` from a text. The constructor is a loop over
the lines behind the first one; it stops at an empty line and advances by `find() + 2`.

Dates are `time_t`. How a date is read and printed (`strptime`, `timegm`, `strftime`) and what time it
is are parameters.
-/
import ComputerNetworking.Http.FirstLine
import ComputerNetworking.Lib.Loop

namespace ComputerNetworking.Http

open ComputerNetworking.Lib

/-- The C library's part: `parse` is `Date(const std::string&)`, `none` where none of the three formats
matches, `format` is `Date::to_string`, and `now` is `time(nullptr)`. -/
structure DateLib where
  parse : Bytes → Option Int
  format : Int → Bytes
  now : Int

/-- A C library that knows no dates. -/
def noDates : DateLib := ⟨fun _ => none, fun _ => [], 0⟩

/-! ## Headers -/

/-- `Header` and its subclasses. -/
inductive Header where
  | date (value : Bytes) (date : Int)
  | expires (value : Bytes) (date : Int)
  | lastModified (value : Bytes) (date : Int)
  | extension (name value : Bytes)
  deriving DecidableEq

namespace Header

/-- `get_name()`. -/
def name : Header → Bytes
  | date .. => ascii "Date"
  | expires .. => ascii "Expires"
  | lastModified .. => ascii "Last-Modified"
  | extension name _ => name

/-- `Header::parse_header(name, value)`. -/
def ofNameValue (lib : DateLib) (name value : Bytes) : Except Thrown Header :=
  if name = ascii "Date" then
    match lib.parse value with
    | some d => .ok (date value d)
    | none => .error (.dateParse value)
  else if name = ascii "Expires" then
    match lib.parse value with
    | some d => .ok (expires value d)
    -- an invalid date expires immediately
    | none => .ok (expires (lib.format lib.now) lib.now)
  else if name = ascii "Last-Modified" then
    match lib.parse value with
    | some d => .ok (lastModified value d)
    | none => .error (.dateParse value)
  else .ok (extension name value)

/-- `Header::parse_header(header)`. -/
def parse (lib : DateLib) (header : Bytes) : Except Thrown Header := do
  let colon := find header (ascii ":") 0
  if colon = npos then throw (.headerParse header)
  else ofNameValue lib (← substr header 0 colon) (← substrFrom header (sizeAdd colon 2))

/-- The names that have a class of their own. -/
def dateNames : List Bytes := [ascii "Date", ascii "Expires", ascii "Last-Modified"]

/-- A header with such a name is of that class. -/
def WellNamed : Header → Prop
  | extension name _ => name ∉ dateNames
  | _ => True

instance : (h : Header) → Decidable h.WellNamed
  | date .. => .isTrue trivial
  | expires .. => .isTrue trivial
  | lastModified .. => .isTrue trivial
  | extension name _ => inferInstanceAs (Decidable (name ∉ dateNames))

/-- `get_date()`, behind the `dynamic_cast` to the class of the name; `none` where the cast fails. -/
def getDate : Header → Option Int
  | date _ d => some d
  | expires _ d => some d
  | lastModified _ d => some d
  | extension .. => none

/-- `parse_header` makes no other headers. -/
theorem wellNamed_of_ofNameValue {lib : DateLib} {name value : Bytes} {h : Header}
    (hp : ofNameValue lib name value = .ok h) : h.WellNamed := by
  unfold ofNameValue at hp
  split_ifs at hp with hdate hexpires hmodified
  · split at hp <;> cases hp
    trivial
  · split at hp <;> cases hp <;> trivial
  · split at hp <;> cases hp
    trivial
  · cases hp
    show name ∉ dateNames
    simp only [dateNames, List.mem_cons, List.not_mem_nil, or_false, not_or]
    exact ⟨hdate, hexpires, hmodified⟩

theorem wellNamed_of_parse {lib : DateLib} {text : Bytes} {h : Header}
    (hp : parse lib text = .ok h) : h.WellNamed := by
  unfold parse at hp
  by_cases hcolon : find text (ascii ":") 0 = npos
  · simp only [if_pos hcolon] at hp
    cases hp
  · simp only [if_neg hcolon] at hp
    obtain ⟨name, -, hrest⟩ := bind_eq_ok.mp hp
    obtain ⟨value, -, hheader⟩ := bind_eq_ok.mp hrest
    exact wellNamed_of_ofNameValue hheader

end Header

/-! ## Messages -/

/-- `Message`. -/
structure Message where
  firstLine : FirstLine
  headers : List Header
  body : Option Bytes
  deriving DecidableEq

/-- `get_header(name)`. -/
def Message.getHeader (m : Message) (name : Bytes) : Option Header :=
  m.headers.find? fun header => header.name = name

/-- The constructor's locals and the members filled so far, at the head of its loop. -/
structure HeaderLoop where
  firstLine : FirstLine
  headers : List Header
  pos : Nat

namespace Message

/-- How a run of the constructor ends. -/
abbrev Result := Except Thrown Message

/-- From the beginning of the constructor to its loop. -/
def firstPart (message : Bytes) : HeaderLoop ⊕ Result :=
  let lineEnd := find message crlf 0
  if lineEnd = npos then .inr (.error .invalidMessage)
  else
    match (do FirstLine.parse (← substr message 0 (sizeSub lineEnd 0)) : Except Thrown FirstLine) with
    | .error e => .inr (.error e)
    | .ok firstLine => .inl ⟨firstLine, [], sizeAdd lineEnd crlf.length⟩

/-- `header_str`. -/
def headerStr (message : Bytes) (s : HeaderLoop) : Except StdError Bytes :=
  substr message s.pos (sizeSub (find message crlf s.pos) s.pos)

/-- Behind the loop. -/
def lastPart (message : Bytes) (s : HeaderLoop) : Result := do
  let pos := sizeAdd s.pos crlf.length
  let body ← if pos < message.length then some <$> substrFrom message pos else pure none
  pure ⟨s.firstLine, s.headers, body⟩

/-- One round of the loop. -/
def round (lib : DateLib) (message : Bytes) (s : HeaderLoop) : HeaderLoop ⊕ Result :=
  let lineEnd := find message crlf s.pos
  if lineEnd = s.pos then .inr (lastPart message s)
  else
    match (do Header.parse lib (← headerStr message s) : Except Thrown Header) with
    | .error e => .inr (.error e)
    | .ok header =>
        .inl { s with headers := s.headers ++ [header], pos := sizeAdd lineEnd crlf.length }

section Headers

variable {lib : DateLib} {message : Bytes} {s : HeaderLoop} {m : Message}

/-- A round appends the header it has parsed. -/
theorem headers_of_round {s' : HeaderLoop} (h : round lib message s = .inl s') :
    ∃ text header, Header.parse lib text = .ok header ∧ s'.headers = s.headers ++ [header] := by
  unfold round at h
  simp only at h
  split_ifs at h
  split at h
  · cases h
  · next header hp =>
      cases h
      obtain ⟨text, -, hparse⟩ := bind_eq_ok.mp hp
      exact ⟨text, header, hparse, rfl⟩

theorem headers_of_lastPart (h : lastPart message s = .ok m) : m.headers = s.headers := by
  unfold lastPart at h
  simp only at h
  split_ifs at h
  · obtain ⟨body, -, hm⟩ := bind_eq_ok.mp h
    cases hm
    rfl
  · cases h
    rfl

/-- At the loop there are no headers yet. -/
theorem headers_of_firstPart (h : firstPart message = .inl s) : s.headers = [] := by
  unfold firstPart at h
  simp only at h
  split_ifs at h
  split at h
  · cases h
  · cases h
    rfl

/-- The constructor does not return before its loop. -/
theorem firstPart_ne_ok : firstPart message ≠ .inr (.ok m) := by
  unfold firstPart
  simp only
  split_ifs
  · simp
  · split <;> simp

/-- **Every header of a message made of a text is of the class of its name.** -/
theorem wellNamed_of_constructed {n : Nat}
    (h : Loop.after (round lib message) n (firstPart message) = .inr (.ok m)) :
    ∀ header ∈ m.headers, header.WellNamed := by
  rcases Loop.exists_of_after_inr h with hfirst | ⟨k, s, hs, hlast⟩
  · exact absurd hfirst firstPart_ne_ok
  · have hmade : ∀ header ∈ s.headers, header.WellNamed := by
      apply Loop.invariant (I := fun s => ∀ header ∈ s.headers, header.WellNamed) _ _ hs
      · intro s hs
        rw [headers_of_firstPart hs]
        simp
      · intro s s' hs hr header hmem
        obtain ⟨text, new, hparse, hheaders⟩ := headers_of_round hr
        rw [hheaders] at hmem
        rcases List.mem_append.mp hmem with hold | hnew
        · exact hs header hold
        · rw [List.mem_singleton.mp hnew]
          exact Header.wellNamed_of_parse hparse
    unfold round at hlast
    simp only at hlast
    split_ifs at hlast
    · rwa [headers_of_lastPart (Sum.inr.inj hlast)]
    · split at hlast <;> cases hlast

end Headers

end Message

end ComputerNetworking.Http
