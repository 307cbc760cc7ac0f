/-
# ComputerNetworking.Http.Print -- printing, and parsing first lines again

The `to_string` members, and what the constructors of `FirstLine` make of a text that is cut at its
separators. A printed first line is a fixed point of parsing and printing. A position that is `npos` wraps around to the beginning of the text, so a line without a
space is its own URI and version.
-/
import ComputerNetworking.Http.Layout
import ComputerNetworking.Lib.Decimal

namespace ComputerNetworking.Http

open ComputerNetworking.Lib

/-! ## Printing -/

/-- `Method::to_string`. -/
def Method.toString : Method → Bytes
  | get => ascii "GET"
  | head => ascii "HEAD"
  | post => ascii "POST"
  | extension method => method

/-- `URI::to_string`. -/
def Uri.toString (u : Uri) : Bytes :=
  let result :=
    match u.uri with
    | .absolute scheme path => scheme ++ ascii ":" ++ path
    | .relative path => path
  match u.fragment with
  | some fragment => result ++ ascii "#" ++ fragment
  | none => result

/-- `HTTPVersion::to_string`. -/
def HTTPVersion.toString (v : HTTPVersion) : Bytes :=
  ascii "HTTP/" ++ stdToString v.major ++ ascii "." ++ stdToString v.minor

/-- `RequestLine::to_string`. -/
def RequestLine.toString (r : RequestLine) : Bytes :=
  r.method.toString ++ ascii " " ++ r.uri.toString ++ ascii " " ++ r.version.toString

/-- `StatusCode::to_string`. -/
def StatusCode.toString : StatusCode → Bytes
  | known code => code.text
  | extension code => stdToString code

/-- `StatusLine::to_string`. -/
def StatusLine.toString (l : StatusLine) : Bytes :=
  l.version.toString ++ ascii " " ++ l.code.toString ++ ascii " " ++ l.reason.getD []

/-- The first line, printed. -/
def FirstLine.toString : FirstLine → Bytes
  | request line => line.toString
  | status line => line.toString

/-- `Header::to_string`. -/
def Header.toString (lib : DateLib) : Header → Bytes
  | date _ d => ascii "Date" ++ ascii ": " ++ lib.format d
  | expires _ d => ascii "Expires" ++ ascii ": " ++ lib.format d
  | lastModified _ d => ascii "Last-Modified" ++ ascii ": " ++ lib.format d
  | extension name value => name ++ ascii ": " ++ value

/-- `Message::to_string`. -/
def Message.toString (lib : DateLib) (m : Message) : Bytes :=
  m.firstLine.toString ++ crlf ++ m.headers.flatMap (fun header => header.toString lib ++ crlf) ++
    crlf ++ m.body.getD []

/-! ## Methods and URIs -/

theorem Method.toString_parse (method : Bytes) : (Method.parse method).toString = method := by
  unfold Method.parse
  split_ifs with hget hhead hpost
  · exact hget.symm
  · exact hhead.symm
  · exact hpost.symm
  · rfl

theorem Method.parse_toString (m : Method) (method : Bytes) (h : m = .parse method) :
    Method.parse m.toString = m := by
  rw [h, toString_parse]

namespace Uri

/-- `'#'`. -/
def hash : UInt8 := 0x23

/-- `':'`. -/
def colon : UInt8 := 0x3A

/-- The last `#` of a text comes before its first `:`. In front of it there is `a`, and `b` is behind it. -/
def FragmentFirst (a b : Bytes) : Prop := hash ∉ b ∧ colon ∉ a ∧ colon ∈ b

section Parse

variable {s a b p q : Bytes}

/-- Neither a fragment nor a scheme. -/
theorem parse_relative (hhash : hash ∉ s) (hcolon : colon ∉ s) (hlen : s.length < npos) :
    Uri.parse s = .ok ⟨.relative s, none⟩ := by
  have hlast : findLastOf s (0x23 : UInt8) = npos := findLastOf_none hhash
  have hfind : find s (ascii ":") 0 = npos := find_byte_none hcolon
  unfold Uri.parse
  simp only [hlast, hfind, ne_eq, not_true_eq_false, if_false]
  rw [substr_all (Nat.le_of_lt hlen)]
  rfl

/-- A fragment and no scheme. -/
theorem parse_relative_fragment (hhash : hash ∉ b) (hcolon : colon ∉ a ++ hash :: b)
    (hlen : (a ++ hash :: b).length < npos) :
    Uri.parse (a ++ hash :: b) = .ok ⟨.relative a, some b⟩ := by
  have hlast : findLastOf (a ++ hash :: b) (0x23 : UInt8) = a.length := findLastOf_byte hhash
  have hfind : find (a ++ hash :: b) (ascii ":") 0 = npos := find_byte_none hcolon
  rw [List.length_append, List.length_cons] at hlen
  have hrange : npos < sizeRange := by decide
  have hfragment : substrFrom (a ++ hash :: b) (a.length + 1) = .ok b :=
    substr_right (by omega)
  unfold Uri.parse
  simp only [hlast, hfind, ne_eq, Nat.ne_of_lt (show a.length < npos by omega), not_false_eq_true,
    not_true_eq_false, if_true, if_false]
  rw [sizeAdd_of_lt (by omega), hfragment, substr_left]
  rfl

/-- A scheme and no fragment. -/
theorem parse_absolute (hcolon : colon ∉ p) (hhash : hash ∉ p ++ colon :: q)
    (hlen : (p ++ colon :: q).length < npos) :
    Uri.parse (p ++ colon :: q) = .ok ⟨.absolute p q, none⟩ := by
  have hlast : findLastOf (p ++ colon :: q) (0x23 : UInt8) = npos := findLastOf_none hhash
  have hfind : find (p ++ colon :: q) (ascii ":") 0 = p.length := find_byte hcolon
  rw [List.length_append, List.length_cons] at hlen
  have hrange : npos < sizeRange := by decide
  unfold Uri.parse
  simp only [hlast, hfind, ne_eq, Nat.ne_of_lt (show p.length < npos by omega), not_false_eq_true,
    not_true_eq_false, if_true, if_false]
  rw [sizeAdd_of_lt (by omega), sizeSub_npos (by omega), substr_left, substr_right (by omega)]
  rfl

/-- A scheme, and a fragment behind the colon. -/
theorem parse_absolute_fragment (hcolon : colon ∉ p) (hhash : hash ∉ b)
    (hlen : (p ++ colon :: (q ++ hash :: b)).length < npos) :
    Uri.parse (p ++ colon :: (q ++ hash :: b)) = .ok ⟨.absolute p q, some b⟩ := by
  have hsplit : p ++ colon :: (q ++ hash :: b) = (p ++ colon :: q) ++ hash :: b := by simp
  have hlength : (p ++ colon :: q).length = p.length + 1 + q.length := by
    rw [List.length_append, List.length_cons]
    omega
  have hlast : findLastOf (p ++ colon :: (q ++ hash :: b)) (0x23 : UInt8) =
      p.length + 1 + q.length := by
    rw [hsplit, ← hlength]
    exact findLastOf_byte hhash
  have hfind : find (p ++ colon :: (q ++ hash :: b)) (ascii ":") 0 = p.length := find_byte hcolon
  have hrange : npos < sizeRange := by decide
  have hfragment : substrFrom (p ++ colon :: (q ++ hash :: b)) (p.length + 1 + q.length + 1) =
      .ok b := by
    rw [hsplit, List.length_append, List.length_cons] at hlen
    rw [hsplit, ← hlength]
    exact substr_right (by omega)
  simp only [List.length_append, List.length_cons] at hlen
  unfold Uri.parse
  simp only [hlast, hfind, ne_eq, Nat.ne_of_lt (show p.length < npos by omega),
    Nat.ne_of_lt (show p.length + 1 + q.length < npos by omega), not_false_eq_true, if_true]
  rw [sizeAdd_of_lt (by omega), sizeAdd_of_lt (by omega), sizeSub_between (by omega), hfragment,
    substr_left, substr_middle]
  rfl

/-- A fragment in front of the colon: the path goes on to the end of the text. -/
theorem parse_fragment_absolute (hcolon : colon ∉ a ++ hash :: p) (hhash : hash ∉ p ++ colon :: q)
    (hlen : (a ++ hash :: (p ++ colon :: q)).length < npos) :
    Uri.parse (a ++ hash :: (p ++ colon :: q)) =
      .ok ⟨.absolute (a ++ hash :: p) q, some (p ++ colon :: q)⟩ := by
  have hsplit : a ++ hash :: (p ++ colon :: q) = (a ++ hash :: p) ++ colon :: q := by simp
  have hlength : (a ++ hash :: p).length = a.length + 1 + p.length := by
    rw [List.length_append, List.length_cons]
    omega
  have hlast : findLastOf (a ++ hash :: (p ++ colon :: q)) (0x23 : UInt8) = a.length :=
    findLastOf_byte hhash
  have hfind : find (a ++ hash :: (p ++ colon :: q)) (ascii ":") 0 = (a ++ hash :: p).length := by
    rw [hsplit]
    exact find_byte hcolon
  have hrange : npos < sizeRange := by decide
  simp only [List.length_append, List.length_cons] at hlen
  have hfragment : substrFrom (a ++ hash :: (p ++ colon :: q)) (a.length + 1) =
      .ok (p ++ colon :: q) := by
    refine substr_right ?_
    rw [List.length_append, List.length_cons]
    omega
  unfold Uri.parse
  simp only [hlast, hfind, ne_eq, Nat.ne_of_lt (show a.length < npos by omega), hlength,
    Nat.ne_of_lt (show a.length + 1 + p.length < npos by omega), not_false_eq_true, if_true]
  rw [sizeAdd_of_lt (by omega), sizeAdd_of_lt (by omega), sizeSub_wrap (by omega) (by omega),
    hfragment, hsplit, ← hlength, substr_left, substr_right (by rw [hlength]; omega)]
  rfl

/-- What is printed is the text, or, with the fragment in front of the colon, the text with its fragment once
more behind it; and that is parsed to the same. -/
theorem parse_spec (hlen : s.length < npos) :
    ∃ u, Uri.parse s = .ok u ∧
      (u.toString = s ∨ ∃ a b, s = a ++ hash :: b ∧ FragmentFirst a b ∧ u.toString = s ++ hash :: b) ∧
      (u.toString.length < npos → Uri.parse u.toString = .ok u) := by
  rcases notMem_or_cutLast hash s with hhash | ⟨a, b, rfl, hhash⟩
  · rcases notMem_or_cut colon s with hcolon | ⟨p, q, rfl, hcolon⟩
    · have hparse := parse_relative hhash hcolon hlen
      exact ⟨_, hparse, .inl rfl, fun _ => hparse⟩
    · have hparse := parse_absolute hcolon hhash hlen
      have hprint : toString ⟨.absolute p q, none⟩ = p ++ colon :: q := List.append_assoc ..
      exact ⟨_, hparse, .inl hprint, fun _ => hprint ▸ hparse⟩
  · rcases notMem_or_cut colon (a ++ hash :: b) with hcolon | ⟨p, q, hcut, hcolon⟩
    · have hparse := parse_relative_fragment hhash hcolon hlen
      have hprint : toString ⟨.relative a, some b⟩ = a ++ hash :: b := List.append_assoc ..
      exact ⟨_, hparse, .inl hprint, fun _ => hprint ▸ hparse⟩
    · by_cases hfront : colon ∈ a
      · -- the colon comes first
        rcases notMem_or_cut colon a with hnot | ⟨p, q, rfl, hp⟩
        · exact absurd hfront hnot
        · rw [show p ++ colon :: q ++ hash :: b = p ++ colon :: (q ++ hash :: b) by simp] at hlen ⊢
          have hparse := parse_absolute_fragment hp hhash hlen
          have hprint : toString ⟨.absolute p q, some b⟩ = p ++ colon :: (q ++ hash :: b) := by
            simp [toString, hash, colon, ascii]
          exact ⟨_, hparse, .inl hprint, fun _ => hprint ▸ hparse⟩
      · -- the hash comes first
        have hbehind : colon ∈ b := by
          have hmem : colon ∈ a ++ hash :: b := by rw [hcut]; simp
          rcases List.mem_append.mp hmem with h | h
          · exact absurd h hfront
          · rcases List.mem_cons.mp h with h | h
            · exact absurd h (by decide)
            · exact h
        rcases notMem_or_cut colon b with hnot | ⟨p, q, rfl, hp⟩
        · exact absurd hbehind hnot
        · have hscheme : colon ∉ a ++ hash :: p := by
            rw [List.mem_append, List.mem_cons, not_or, not_or]
            exact ⟨hfront, by decide, hp⟩
          have hparse := parse_fragment_absolute hscheme hhash hlen
          have hprint : toString ⟨.absolute (a ++ hash :: p) q, some (p ++ colon :: q)⟩ =
              (a ++ hash :: p) ++ colon :: (q ++ hash :: (p ++ colon :: q)) := by
            simp [toString, hash, colon, ascii]
          refine ⟨_, hparse, .inr ⟨a, p ++ colon :: q, rfl, ⟨hhash, hfront, hbehind⟩, ?_⟩, ?_⟩
          · rw [hprint]
            simp
          · intro hlen'
            rw [hprint] at hlen' ⊢
            exact parse_absolute_fragment hscheme hhash hlen'

/-- **A text is printed as it was unless its fragment is in front of its colon.** -/
theorem toString_parse_iff (hlen : s.length < npos) :
    ∃ u, Uri.parse s = .ok u ∧ (u.toString = s ↔ ¬ ∃ a b, s = a ++ hash :: b ∧ FragmentFirst a b) := by
  obtain ⟨u, hu, hprint, -⟩ := parse_spec hlen
  refine ⟨u, hu, ?_⟩
  constructor
  · rintro hsame ⟨a, b, rfl, hhash, hfront, hbehind⟩
    rcases notMem_or_cut colon b with hnot | ⟨p, q, rfl, hp⟩
    · exact hnot hbehind
    · have hscheme : colon ∉ a ++ hash :: p := by
        rw [List.mem_append, List.mem_cons, not_or, not_or]
        exact ⟨hfront, by decide, hp⟩
      rw [parse_fragment_absolute hscheme hhash hlen] at hu
      cases hu
      -- the fragment is printed twice
      have hlength := congrArg List.length hsame
      simp [toString, ascii] at hlength
  · intro hnot
    rcases hprint with h | ⟨a, b, hs, hfirst, -⟩
    · exact h
    · exact absurd ⟨a, b, hs, hfirst⟩ hnot

end Parse

/-- Nothing else is printed than what is in the text. -/
theorem toString_subset {s : Bytes} {u : Uri}
    (h : u.toString = s ∨ ∃ a b, s = a ++ hash :: b ∧ FragmentFirst a b ∧ u.toString = s ++ hash :: b) :
    u.toString ⊆ s := by
  rcases h with h | ⟨a, b, hs, -, h⟩
  · rw [h]
    exact List.Subset.refl s
  · rw [h]
    refine List.append_subset.mpr ⟨List.Subset.refl s, ?_⟩
    rw [hs]
    exact List.subset_append_right ..

end Uri

/-! ## Versions -/

namespace HTTPVersion

/-- The numbers are of type `int`. -/
def Fits (v : HTTPVersion) : Prop := FitsInt v.major ∧ FitsInt v.minor

theorem fits_of_parse {s : Bytes} {v : HTTPVersion} (h : HTTPVersion.parse s = .ok v) : v.Fits := by
  have hstoi : ∀ {text : Bytes} {n : Int},
      (liftM (stoi text) : Except Thrown Int) = .ok n → FitsInt n := by
    intro text n hn
    rcases hvalue : stoi text with e | k
    · rw [hvalue] at hn
      cases hn
    · rw [hvalue] at hn
      cases hn
      exact fitsInt_of_stoi hvalue
  unfold HTTPVersion.parse at h
  obtain ⟨_, -, h⟩ := bind_eq_ok.mp h
  obtain ⟨major, hmajor, h⟩ := bind_eq_ok.mp h
  obtain ⟨_, -, h⟩ := bind_eq_ok.mp h
  obtain ⟨minor, hminor, h⟩ := bind_eq_ok.mp h
  cases h
  exact ⟨hstoi hmajor, hstoi hminor⟩

theorem toString_eq (v : HTTPVersion) : v.toString =
    ascii "HTTP" ++ 0x2F :: (stdToString v.major ++ 0x2E :: stdToString v.minor) := by
  simp [toString, ascii]

/-- A printed version is read back. -/
theorem parse_toString {v : HTTPVersion} (hfits : v.Fits) (hlen : v.toString.length < npos) :
    HTTPVersion.parse v.toString = .ok v := by
  have hdot : (0x2E : UInt8) ∉ ascii "HTTP" ++ 0x2F :: stdToString v.major := by
    rw [List.mem_append, List.mem_cons, not_or, not_or]
    exact ⟨by decide, by decide, notMem_stdToString (by decide) (by decide) _⟩
  have hsplit : v.toString =
      (ascii "HTTP" ++ 0x2F :: stdToString v.major) ++ 0x2E :: stdToString v.minor := by
    rw [toString_eq]
    simp
  have hslash : find v.toString (ascii "/") 0 = 4 := by
    rw [toString_eq]
    exact find_byte (by decide)
  have hdotAt : find v.toString (ascii ".") 0 = 4 + 1 + (stdToString v.major).length := by
    have h := find_byte (b := stdToString v.minor) hdot
    rw [← hsplit] at h
    refine h.trans ?_
    rw [List.length_append, List.length_cons, show (ascii "HTTP").length = 4 from rfl]
    omega
  have hmajor : substr v.toString (4 + 1) (stdToString v.major).length =
      .ok (stdToString v.major) := by
    rw [toString_eq]
    exact substr_middle
  have hlength : v.toString.length =
      4 + 1 + (stdToString v.major).length + (stdToString v.minor).length + 1 := by
    rw [toString_eq, List.length_append, List.length_cons, List.length_append, List.length_cons,
      show (ascii "HTTP").length = 4 from rfl]
    omega
  have hrange : npos < sizeRange := by decide
  have hminor : substrFrom v.toString (4 + 1 + (stdToString v.major).length + 1) =
      .ok (stdToString v.minor) := by
    have h := substr_right (a := ascii "HTTP" ++ 0x2F :: stdToString v.major) (c := 0x2E)
      (b := stdToString v.minor) (n := npos) (by omega)
    rw [← hsplit, List.length_append, List.length_cons, show (ascii "HTTP").length = 4 from rfl] at h
    rw [substrFrom, ← h]
    congr 1
    omega
  unfold HTTPVersion.parse
  simp only [hslash, hdotAt]
  rw [sizeAdd_of_lt (by omega), sizeSub_between (by omega), hmajor, sizeAdd_of_lt (by omega), hminor]
  show ((liftM (stoi (stdToString v.major)) : Except Thrown Int) >>= fun major =>
    (liftM (stoi (stdToString v.minor)) : Except Thrown Int) >>= fun minor =>
      (pure ⟨major, minor⟩ : Except Thrown HTTPVersion)) = .ok v
  rw [stoi_stdToString hfits.1, stoi_stdToString hfits.2]
  rfl

/-- A byte that is not in a printed version. -/
theorem notMem_toString {c : UInt8} (hletters : c ∉ ascii "HTTP/.") (hdigit : isDigit c = false)
    (hminus : c ≠ 0x2D) (v : HTTPVersion) : c ∉ v.toString := by
  have hmajor := notMem_stdToString hdigit hminus v.major
  have hminor := notMem_stdToString hdigit hminus v.minor
  rw [show ascii "HTTP/." = ascii "HTTP" ++ [0x2F, 0x2E] from rfl, List.mem_append, List.mem_cons,
    List.mem_singleton, not_or, not_or] at hletters
  rw [toString_eq]
  simp only [List.mem_append, List.mem_cons, not_or]
  exact ⟨hletters.1, hletters.2.1, hmajor, hletters.2.2, hminor⟩

end HTTPVersion

/-! ## Request lines -/

/-- `' '`. -/
def space : UInt8 := 0x20

theorem space_notMem_version (v : HTTPVersion) : space ∉ v.toString :=
  v.notMem_toString (by decide) (by decide) (by decide)

namespace RequestLine

section Parse

variable {m u v : Bytes} {r : RequestLine}

/-- Between two spaces is the URI, behind them the version. -/
theorem parse_two (hm : space ∉ m) (hu : space ∉ u)
    (hlen : (m ++ space :: (u ++ space :: v)).length < npos) :
    RequestLine.parse (m ++ space :: (u ++ space :: v)) =
      (Uri.parse u >>= fun uri => HTTPVersion.parse v >>= fun version =>
        .ok ⟨.parse m, uri, version⟩) := by
  have hfirst : find (m ++ space :: (u ++ space :: v)) (ascii " ") 0 = m.length := find_byte hm
  have hsecond : find (m ++ space :: (u ++ space :: v)) (ascii " ") (m.length + 1) =
      m.length + 1 + u.length := find_behind hu
  have hsplit : m ++ space :: (u ++ space :: v) = (m ++ space :: u) ++ space :: v := by simp
  have hfront : (m ++ space :: u).length = m.length + 1 + u.length := by
    rw [List.length_append, List.length_cons]
    omega
  simp only [List.length_append, List.length_cons] at hlen
  have hversion : substrFrom (m ++ space :: (u ++ space :: v)) (m.length + 1 + u.length + 1) =
      .ok v := by
    rw [hsplit, ← hfront]
    exact substr_right (by omega)
  have hrange : npos < sizeRange := by decide
  unfold RequestLine.parse
  simp only [hfirst]
  rw [sizeAdd_of_lt (by omega), hsecond, sizeSub_between (by omega), sizeAdd_of_lt (by omega),
    hversion, substr_left, substr_middle]
  rfl

/-- Without a second space the whole line is the version. -/
theorem parse_one (hm : space ∉ m) (hu : space ∉ u) (hlen : (m ++ space :: u).length < npos) :
    RequestLine.parse (m ++ space :: u) =
      (Uri.parse u >>= fun uri => HTTPVersion.parse (m ++ space :: u) >>= fun version =>
        .ok ⟨.parse m, uri, version⟩) := by
  have hfirst : find (m ++ space :: u) (ascii " ") 0 = m.length := find_byte hm
  have hsecond : find (m ++ space :: u) (ascii " ") (m.length + 1) = npos := find_behind_none hu
  have hversion : substrFrom (m ++ space :: u) (sizeAdd npos 1) = .ok (m ++ space :: u) :=
    substr_all (Nat.le_of_lt hlen)
  rw [List.length_append, List.length_cons] at hlen
  have hrange : npos < sizeRange := by decide
  unfold RequestLine.parse
  simp only [hfirst]
  rw [sizeAdd_of_lt (by omega), hsecond, sizeSub_npos (by omega), hversion, substr_left,
    substr_right (by omega)]
  rfl

/-- Without a space the whole line is everything. -/
theorem parse_none (hm : space ∉ m) (hlen : m.length < npos) :
    RequestLine.parse m =
      (Uri.parse m >>= fun uri => HTTPVersion.parse m >>= fun version =>
        .ok ⟨.parse m, uri, version⟩) := by
  have hfirst : ∀ pos, pos = 0 → find m (ascii " ") pos = npos := by
    rintro pos rfl
    exact find_byte_none hm
  have hwhole : substr m 0 npos = .ok m := substr_all (Nat.le_of_lt hlen)
  unfold RequestLine.parse
  simp only [hfirst 0 rfl, hfirst (sizeAdd npos 1) rfl]
  rw [show sizeAdd npos 1 = 0 from rfl, show sizeSub (sizeSub npos npos) 1 = npos from rfl,
    substrFrom, hwhole]
  rfl

/-- The method and the URI of an accepted line are pieces of it without spaces. -/
theorem of_parse {line : Bytes} (hlen : line.length < npos) (h : RequestLine.parse line = .ok r) :
    ∃ m u, r.method = .parse m ∧ Uri.parse u = .ok r.uri ∧ r.version.Fits ∧ space ∉ m ∧ space ∉ u ∧
      m <+: line ∧ u <:+: line := by
  have hparts : ∀ {m u v : Bytes}, (Uri.parse u >>= fun uri => HTTPVersion.parse v >>= fun version =>
      .ok ⟨.parse m, uri, version⟩) = .ok r →
      r.method = .parse m ∧ Uri.parse u = .ok r.uri ∧ r.version.Fits := by
    intro m u v hdo
    obtain ⟨uri, huri, hdo⟩ := bind_eq_ok.mp hdo
    obtain ⟨version, hversion, hdo⟩ := bind_eq_ok.mp hdo
    cases hdo
    exact ⟨rfl, huri, HTTPVersion.fits_of_parse hversion⟩
  rcases notMem_or_cut space line with hnone | ⟨m, rest, rfl, hm⟩
  · rw [parse_none hnone hlen] at h
    obtain ⟨hmethod, huri, hfits⟩ := hparts h
    exact ⟨line, line, hmethod, huri, hfits, hnone, hnone, List.prefix_rfl, List.infix_rfl⟩
  · rcases notMem_or_cut space rest with hnone | ⟨u, v, rfl, hu⟩
    · rw [parse_one hm hnone hlen] at h
      obtain ⟨hmethod, huri, hfits⟩ := hparts h
      exact ⟨m, rest, hmethod, huri, hfits, hm, hnone, List.prefix_append ..,
        ((List.suffix_cons space rest).trans (List.suffix_append ..)).isInfix⟩
    · rw [parse_two hm hu hlen] at h
      obtain ⟨hmethod, huri, hfits⟩ := hparts h
      exact ⟨m, u, hmethod, huri, hfits, hm, hu, List.prefix_append ..,
        ⟨m ++ [space], space :: v, by simp⟩⟩

/-- A printed request line, cut at its spaces. -/
theorem toString_eq (r : RequestLine) : r.toString =
    r.method.toString ++ space :: (r.uri.toString ++ space :: r.version.toString) := by
  simp [toString, ascii, space]

/-- A printed request line is parsed to the same. -/
theorem parse_toString {line : Bytes} (hlen : line.length < npos)
    (h : RequestLine.parse line = .ok r) (hprinted : r.toString.length < npos) :
    RequestLine.parse r.toString = .ok r := by
  obtain ⟨m, u, hmethod, huri, hfits, hm, hu, -, hpiece⟩ := of_parse hlen h
  obtain ⟨uri, hparsed, hshape, hagain⟩ :=
    Uri.parse_spec (Nat.lt_of_le_of_lt hpiece.length_le hlen)
  cases hparsed.symm.trans huri
  rw [toString_eq] at hprinted ⊢
  have hlengths := hprinted
  simp only [List.length_append, List.length_cons] at hlengths
  have hm' : space ∉ r.method.toString := by
    rwa [hmethod, Method.toString_parse]
  have hu' : space ∉ r.uri.toString := fun hmem => hu (Uri.toString_subset hshape hmem)
  rw [parse_two hm' hu' hprinted, hagain (by omega), HTTPVersion.parse_toString hfits (by omega),
    Method.parse_toString _ m hmethod]
  rfl

/-- No line end comes about in printing. -/
theorem not_crlf_toString {line : Bytes} (hlen : line.length < npos)
    (h : RequestLine.parse line = .ok r) (hcrlf : ¬ crlf <:+: line) : ¬ crlf <:+: r.toString := by
  obtain ⟨m, u, hmethod, huri, -, -, -, hfront, hpiece⟩ := of_parse hlen h
  obtain ⟨uri, hparsed, hshape, -⟩ := Uri.parse_spec (Nat.lt_of_le_of_lt hpiece.length_le hlen)
  cases hparsed.symm.trans huri
  have hversion : ¬ crlf <:+: r.version.toString := fun hinside =>
    r.version.notMem_toString (c := 0x0D) (by decide) (by decide) (by decide)
      (hinside.subset (by decide))
  have hu : ¬ crlf <:+: u := fun hinside => hcrlf (hinside.trans hpiece)
  have huri' : ¬ crlf <:+: r.uri.toString := by
    rcases hshape with hsame | ⟨a, b, hcut, -, htwice⟩
    · rwa [hsame]
    · rw [htwice]
      refine not_infix_append_cons (by decide) (by decide) hu fun hinside => hu ?_
      rw [hcut]
      exact hinside.trans ((List.suffix_cons _ b).trans (List.suffix_append ..)).isInfix
  rw [toString_eq, hmethod, Method.toString_parse]
  exact not_infix_append_cons (by decide) (by decide) (fun hinside => hcrlf (hinside.trans hfront.isInfix))
    (not_infix_append_cons (by decide) (by decide) huri' hversion)

/-- What is printed begins like the line. -/
theorem prefix_of_prefix_toString {line pat : Bytes} (hlen : line.length < npos)
    (h : RequestLine.parse line = .ok r) (hpat : space ∉ pat) (hbegins : pat <+: r.toString) :
    pat <+: line := by
  obtain ⟨m, u, hmethod, -, -, -, -, hfront, -⟩ := of_parse hlen h
  rw [toString_eq, hmethod, Method.toString_parse] at hbegins
  exact (prefix_of_prefix_append_cons hpat hbegins).trans hfront

end Parse

end RequestLine

/-! ## Status lines -/

namespace StatusCode

/-- The text of a known code is recognized. -/
theorem parse_text (k : KnownCode) : StatusCode.parse k.text = .ok (known k) := by
  cases k <;> rfl

/-- The code is known, or its number is of type `int`. -/
def Fits : StatusCode → Prop
  | known _ => True
  | extension n => FitsInt n

theorem fits_of_parse {s : Bytes} {code : StatusCode} (h : StatusCode.parse s = .ok code) :
    code.Fits := by
  unfold StatusCode.parse at h
  split at h
  · cases h
    trivial
  · rcases hvalue : stoi s with e | n
    · rw [hvalue] at h
      cases h
    · rw [hvalue] at h
      cases h
      exact fitsInt_of_stoi hvalue

/-- A printed code is parsed to one that is printed in the same way. -/
theorem parse_toString {code : StatusCode} (h : code.Fits) :
    ∃ code', StatusCode.parse code.toString = .ok code' ∧ code'.toString = code.toString := by
  rcases code with k | n
  · exact ⟨known k, parse_text k, rfl⟩
  · rcases hknown : KnownCode.all.find? fun known => (extension n).toString = known.text with _ | k
    · refine ⟨extension n, ?_, rfl⟩
      have hstoi : stoi (extension n).toString = .ok n := stoi_stdToString h
      unfold StatusCode.parse
      simp only [hknown, hstoi]
      rfl
    · -- a number that is printed like a known code
      have hsame := List.find?_some hknown
      refine ⟨known k, ?_, (of_decide_eq_true hsame).symm⟩
      unfold StatusCode.parse
      simp only [hknown]

/-- A printed code consists of digits and a minus sign. -/
theorem notMem_toString {c : UInt8} (hdigit : isDigit c = false) (hminus : c ≠ 0x2D)
    (code : StatusCode) : c ∉ code.toString := by
  rcases code with k | n
  · have hdigits : k.text.all isDigit = true := by
      cases k <;> rfl
    intro hmem
    rw [List.all_eq_true.mp hdigits c hmem] at hdigit
    cases hdigit
  · exact notMem_stdToString hdigit hminus n

theorem space_notMem_toString (code : StatusCode) : space ∉ code.toString :=
  code.notMem_toString (by decide) (by decide)

end StatusCode

namespace StatusLine

section Parse

variable {v c reason : Bytes} {l : StatusLine}

/-- Behind the second space is the reason. -/
theorem parse_two (hv : space ∉ v) (hc : space ∉ c)
    (hcrlf : ¬ crlf <:+: reason)
    (hlen : (v ++ space :: (c ++ space :: reason)).length < npos) :
    StatusLine.parse (v ++ space :: (c ++ space :: reason)) =
      (HTTPVersion.parse v >>= fun version => StatusCode.parse c >>= fun code =>
        .ok ⟨version, code, some reason⟩) := by
  have hfirst : find (v ++ space :: (c ++ space :: reason)) (ascii " ") 0 = v.length := find_byte hv
  have hsecond : find (v ++ space :: (c ++ space :: reason)) (ascii " ") (v.length + 1) =
      v.length + 1 + c.length := find_behind hc
  have hsplit : v ++ space :: (c ++ space :: reason) = (v ++ space :: c) ++ space :: reason := by simp
  have hfront : (v ++ space :: c).length = v.length + 1 + c.length := by
    rw [List.length_append, List.length_cons]
    omega
  simp only [List.length_append, List.length_cons] at hlen
  have hend : find (v ++ space :: (c ++ space :: reason)) crlf (v.length + 1 + c.length + 1) =
      npos := by
    rw [hsplit, ← hfront]
    refine find_none (by simp only [List.length_append, List.length_cons]; omega) ?_
    rw [← List.drop_drop, List.drop_left]
    exact firstOccurrence_eq_none.mpr hcrlf
  have hreason : substr (v ++ space :: (c ++ space :: reason)) (v.length + 1 + c.length + 1)
      (npos - (v.length + 1 + c.length) - 1) = .ok reason := by
    rw [hsplit, ← hfront]
    exact substr_right (by omega)
  have hrange : npos < sizeRange := by decide
  have hmore : sizeSub npos (v.length + 1 + c.length) > 1 := by
    rw [sizeSub_of_le (by omega) hrange]
    unfold npos sizeRange at *
    omega
  unfold StatusLine.parse
  simp only [hfirst]
  rw [sizeAdd_of_lt (by omega), hsecond, sizeSub_between (by omega), sizeAdd_of_lt (by omega), hend]
  simp only [if_pos hmore]
  rw [sizeSub_npos (by omega), hreason, substr_left, substr_middle]
  rfl

/-- Without a second space there is no reason. -/
theorem parse_one (hv : space ∉ v) (hc : space ∉ c) (hcrlf : ¬ crlf <:+: v ++ space :: c)
    (hlen : (v ++ space :: c).length < npos) :
    StatusLine.parse (v ++ space :: c) =
      (HTTPVersion.parse v >>= fun version => StatusCode.parse c >>= fun code =>
        .ok ⟨version, code, none⟩) := by
  have hfirst : find (v ++ space :: c) (ascii " ") 0 = v.length := find_byte hv
  have hsecond : find (v ++ space :: c) (ascii " ") (v.length + 1) = npos := find_behind_none hc
  have hend : find (v ++ space :: c) crlf (sizeAdd npos 1) = npos :=
    find_none (Nat.zero_le _) (firstOccurrence_eq_none.mpr hcrlf)
  rw [List.length_append, List.length_cons] at hlen
  have hrange : npos < sizeRange := by decide
  unfold StatusLine.parse
  simp only [hfirst]
  rw [sizeAdd_of_lt (by omega), hsecond, hend, sizeSub_npos (by omega), substr_left,
    substr_right (by omega)]
  simp only [if_neg (show ¬ sizeSub npos npos > 1 by decide)]
  rfl

/-- The version of a line that begins with a status line's first letters is no number. -/
theorem not_parse_none {line : Bytes} (hspace : space ∉ line) (hhttp : ascii "HTTP" <+: line)
    (hlen : line.length < npos) : StatusLine.parse line ≠ .ok l := by
  intro h
  have hfirst : ∀ pos, pos = 0 → find line (ascii " ") pos = npos := by
    rintro pos rfl
    exact find_byte_none hspace
  have hwhole : substr line 0 npos = .ok line := substr_all (Nat.le_of_lt hlen)
  have hcode : ∀ code, StatusCode.parse line ≠ .ok code := by
    intro code hcode
    obtain ⟨rest, rfl⟩ := hhttp
    have hknown : KnownCode.all.find? (fun known => ascii "HTTP" ++ rest = known.text) = none := by
      rw [List.find?_eq_none]
      intro k _
      cases k <;> simp [KnownCode.text, ascii]
    have hstoi : stoi (ascii "HTTP" ++ rest) = .error .invalidArgument := rfl
    unfold StatusCode.parse at hcode
    simp only [hknown, hstoi] at hcode
    cases hcode
  unfold StatusLine.parse at h
  simp only [hfirst 0 rfl, hfirst (sizeAdd npos 1) rfl] at h
  rw [show sizeAdd npos 1 = 0 from rfl, show sizeSub (sizeSub npos npos) 1 = npos from rfl,
    hwhole] at h
  obtain ⟨_, -, h⟩ := bind_eq_ok.mp h
  obtain ⟨_, -, h⟩ := bind_eq_ok.mp h
  obtain ⟨_, hline, h⟩ := bind_eq_ok.mp h
  cases hline
  obtain ⟨code, hparse, -⟩ := bind_eq_ok.mp h
  exact hcode code hparse

/-- The parts of an accepted line. -/
theorem of_parse {line : Bytes} (hhttp : ascii "HTTP" <+: line) (hcrlf : ¬ crlf <:+: line)
    (hlen : line.length < npos) (h : StatusLine.parse line = .ok l) :
    l.version.Fits ∧ l.code.Fits ∧ ¬ crlf <:+: l.reason.getD [] := by
  rcases notMem_or_cut space line with hnone | ⟨v, rest, rfl, hv⟩
  · exact absurd h (not_parse_none hnone hhttp hlen)
  · have hrest : ¬ crlf <:+: rest := fun hinside =>
      hcrlf (hinside.trans ((List.suffix_cons space rest).trans (List.suffix_append ..)).isInfix)
    rcases notMem_or_cut space rest with hnone | ⟨c, reason, rfl, hc⟩
    · rw [parse_one hv hnone hcrlf hlen] at h
      obtain ⟨version, hversion, h⟩ := bind_eq_ok.mp h
      obtain ⟨code, hcode, h⟩ := bind_eq_ok.mp h
      cases h
      exact ⟨HTTPVersion.fits_of_parse hversion, StatusCode.fits_of_parse hcode,
        show ¬ crlf <:+: [] by decide⟩
    · have hreason : ¬ crlf <:+: reason := fun hinside =>
        hrest (hinside.trans ((List.suffix_cons space reason).trans (List.suffix_append ..)).isInfix)
      rw [parse_two hv hc hreason hlen] at h
      obtain ⟨version, hversion, h⟩ := bind_eq_ok.mp h
      obtain ⟨code, hcode, h⟩ := bind_eq_ok.mp h
      cases h
      exact ⟨HTTPVersion.fits_of_parse hversion, StatusCode.fits_of_parse hcode, hreason⟩

/-- A printed status line, cut at its spaces. -/
theorem toString_eq (l : StatusLine) : l.toString =
    l.version.toString ++ space :: (l.code.toString ++ space :: l.reason.getD []) := by
  simp [toString, ascii, space]

/-- A printed status line is parsed to one that is printed in the same way. A missing reason has become an
empty one. -/
theorem parse_toString {line : Bytes} (hhttp : ascii "HTTP" <+: line) (hcrlf : ¬ crlf <:+: line)
    (hlen : line.length < npos) (h : StatusLine.parse line = .ok l)
    (hprinted : l.toString.length < npos) :
    ∃ l', StatusLine.parse l.toString = .ok l' ∧ l'.toString = l.toString := by
  obtain ⟨hversion, hcode, hreason⟩ := of_parse hhttp hcrlf hlen h
  obtain ⟨code', hparsed, hsame⟩ := StatusCode.parse_toString hcode
  rw [toString_eq] at hprinted
  have hlengths := hprinted
  simp only [List.length_append, List.length_cons] at hlengths
  refine ⟨⟨l.version, code', some (l.reason.getD [])⟩, ?_, ?_⟩
  · rw [toString_eq, parse_two (space_notMem_version _) l.code.space_notMem_toString hreason hprinted,
      HTTPVersion.parse_toString hversion (by omega), hparsed]
    rfl
  · rw [toString_eq, toString_eq, hsame]
    rfl

/-- No line end comes about in printing. -/
theorem not_crlf_toString {line : Bytes} (hhttp : ascii "HTTP" <+: line) (hcrlf : ¬ crlf <:+: line)
    (hlen : line.length < npos) (h : StatusLine.parse line = .ok l) : ¬ crlf <:+: l.toString := by
  obtain ⟨-, -, hreason⟩ := of_parse hhttp hcrlf hlen h
  have hversion : ¬ crlf <:+: l.version.toString := fun hinside =>
    l.version.notMem_toString (c := 0x0D) (by decide) (by decide) (by decide)
      (hinside.subset (by decide))
  have hcode : ¬ crlf <:+: l.code.toString := fun hinside =>
    l.code.notMem_toString (by decide) (by decide) (hinside.subset (show (0x0D : UInt8) ∈ crlf by decide))
  rw [toString_eq]
  exact not_infix_append_cons (by decide) (by decide) hversion
    (not_infix_append_cons (by decide) (by decide) hcode hreason)

theorem prefix_toString (l : StatusLine) : ascii "HTTP" <+: l.toString := by
  rw [toString_eq, HTTPVersion.toString_eq, List.append_assoc]
  exact List.prefix_append ..

end Parse

end StatusLine

/-! ## First lines -/

namespace FirstLine

/-- The first line is a request line. -/
def isRequest : FirstLine → Bool
  | request _ => true
  | status _ => false

/-- The constructor looks at the first letters. -/
theorem find_http {line : Bytes} : find line (ascii "HTTP") 0 = 0 ↔ ascii "HTTP" <+: line := by
  rcases h : firstOccurrence (ascii "HTTP") line with _ | i
  · rw [find_none (Nat.zero_le _) h]
    refine iff_of_false (by decide) fun hbegins => ?_
    exact firstOccurrence_eq_none.mp h hbegins.isInfix
  · rw [find_some (Nat.zero_le _) h, Nat.zero_add]
    obtain ⟨-, hhere, hmin⟩ := firstOccurrence_eq_some.mp h
    constructor
    · rintro rfl
      exact hhere
    · intro hbegins
      rcases i with _ | i
      · rfl
      · exact absurd hbegins (hmin 0 (Nat.succ_pos i))

/-- **A printed first line is parsed to one of the same kind that is printed in the same way**, and no line
end comes about in printing. -/
theorem parse_toString {line : Bytes} {first : FirstLine} (hlen : line.length < npos)
    (hcrlf : ¬ crlf <:+: line) (h : FirstLine.parse line = .ok first)
    (hprinted : first.toString.length < npos) :
    ¬ crlf <:+: first.toString ∧
      ∃ first', FirstLine.parse first.toString = .ok first' ∧ first'.toString = first.toString ∧
        first'.isRequest = first.isRequest := by
  unfold FirstLine.parse at h
  by_cases hhttp : ascii "HTTP" <+: line
  · rw [if_pos (find_http.mpr hhttp)] at h
    obtain ⟨l, hl, rfl⟩ := map_eq_ok.mp h
    obtain ⟨l', hparsed, hsame⟩ := StatusLine.parse_toString hhttp hcrlf hlen hl hprinted
    have hfirst := find_http.mpr l.prefix_toString
    refine ⟨StatusLine.not_crlf_toString hhttp hcrlf hlen hl, .status l', ?_, hsame, rfl⟩
    rw [toString, FirstLine.parse, if_pos hfirst]
    exact map_eq_ok.mpr ⟨l', hparsed, rfl⟩
  · rw [if_neg (mt find_http.mp hhttp)] at h
    obtain ⟨r, hr, rfl⟩ := map_eq_ok.mp h
    have hparsed := RequestLine.parse_toString hlen hr hprinted
    have hfirst : find r.toString (ascii "HTTP") 0 ≠ 0 := fun hfind =>
      hhttp (RequestLine.prefix_of_prefix_toString hlen hr (by decide) (find_http.mp hfind))
    refine ⟨RequestLine.not_crlf_toString hlen hr hcrlf, .request r, ?_, rfl, rfl⟩
    rw [toString, FirstLine.parse, if_neg hfirst]
    exact map_eq_ok.mpr ⟨r, hparsed, rfl⟩

end FirstLine

end ComputerNetworking.Http
