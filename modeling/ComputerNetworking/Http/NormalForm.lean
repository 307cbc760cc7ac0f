/-
# ComputerNetworking.Http.NormalForm -- printed messages

A message that was made of a text with an empty line and is printed comes back as a message that is
printed in the same way. The parser is lenient, so the first printing can change the text: a missing
reason gets its space, the byte behind the colon of a header becomes a space, numbers and dates are
normalised. Nothing changes after that.
-/
import ComputerNetworking.Http.HeaderLine

namespace ComputerNetworking.Http

open ComputerNetworking.Lib

/-- The instants of dates: those the parser returns, and the present time. -/
def DateLib.Known (lib : DateLib) (d : Int) : Prop := (∃ text, lib.parse text = some d) ∨ d = lib.now

/-- What is assumed of `strptime`, `timegm` and `strftime`: such an instant is printed on one line, and parsed
to the same instant. -/
structure DateLib.Lawful (lib : DateLib) : Prop where
  parse_format : ∀ d, lib.Known d → lib.parse (lib.format d) = some d
  format_line : ∀ d, lib.Known d → ¬ crlf <:+: lib.format d

/-- The same library at another time. -/
def DateLib.at (lib : DateLib) (now : Int) : DateLib := { lib with now := now }

/-! ## Headers -/

namespace Header

open Uri (colon)

section Parse

variable {lib : DateLib} {name value line : Bytes} {c : UInt8} {header : Header}

/-- One byte behind the colon is skipped. -/
theorem parse_cut (hname : colon ∉ name) (hlen : (name ++ colon :: c :: value).length < npos) :
    Header.parse lib (name ++ colon :: c :: value) = ofNameValue lib name value := by
  rw [parse_eq_split, split_cut hname hlen]
  rfl

/-- An accepted line has a colon and at least one byte behind it. -/
theorem exists_cut (hlen : line.length < npos) (h : Header.parse lib line = .ok header) :
    ∃ name c value, line = name ++ colon :: c :: value ∧ colon ∉ name ∧
      ofNameValue lib name value = .ok header := by
  rcases notMem_or_cut colon line with hnone | ⟨name, rest, rfl, hname⟩
  · rw [parse_eq_split, split_none hnone] at h
    cases h
  · rcases rest with _ | ⟨c, value⟩
    · rw [List.length_append, List.length_singleton] at hlen
      rw [parse_eq_split, split_end hname hlen] at h
      cases h
    · rw [parse_cut hname hlen] at h
      exact ⟨name, c, value, rfl, hname, h⟩

/-- A header is printed with its name and a value that makes it again. -/
theorem exists_printed (laws : lib.Lawful) (now : Int) (h : ofNameValue lib name value = .ok header)
    (hcrlf : ¬ crlf <:+: value) :
    ∃ printed, header.toString lib = name ++ ascii ": " ++ printed ∧ ¬ crlf <:+: printed ∧
      ∃ header', ofNameValue (lib.at now) name printed = .ok header' ∧
        header'.toString lib = header.toString lib ∧ header'.name = header.name := by
  unfold ofNameValue at h
  split_ifs at h with hdate hexpires hmodified
  · rcases hparse : lib.parse value with _ | d
    · rw [hparse] at h
      cases h
    · rw [hparse] at h
      cases h
      have hknown : lib.Known d := .inl ⟨value, hparse⟩
      refine ⟨lib.format d, by rw [hdate]; rfl, laws.format_line d hknown, .date (lib.format d) d, ?_,
        rfl, rfl⟩
      unfold ofNameValue
      rw [if_pos hdate, show (lib.at now).parse = lib.parse from rfl, laws.parse_format d hknown]
  · -- an invalid date has become the present time
    obtain ⟨v, d, rfl, hknown⟩ : ∃ v d, header = .expires v d ∧ lib.Known d := by
      rcases hparse : lib.parse value with _ | d
      · rw [hparse] at h
        cases h
        exact ⟨_, _, rfl, .inr rfl⟩
      · rw [hparse] at h
        cases h
        exact ⟨_, _, rfl, .inl ⟨value, hparse⟩⟩
    refine ⟨lib.format d, by rw [hexpires]; rfl, laws.format_line d hknown, .expires (lib.format d) d, ?_,
      rfl, rfl⟩
    unfold ofNameValue
    rw [if_neg hdate, if_pos hexpires, show (lib.at now).parse = lib.parse from rfl,
      laws.parse_format d hknown]
  · rcases hparse : lib.parse value with _ | d
    · rw [hparse] at h
      cases h
    · rw [hparse] at h
      cases h
      have hknown : lib.Known d := .inl ⟨value, hparse⟩
      refine ⟨lib.format d, by rw [hmodified]; rfl, laws.format_line d hknown,
        .lastModified (lib.format d) d, ?_, rfl, rfl⟩
      unfold ofNameValue
      rw [if_neg hdate, if_neg hexpires, if_pos hmodified,
        show (lib.at now).parse = lib.parse from rfl, laws.parse_format d hknown]
  · cases h
    refine ⟨value, rfl, hcrlf, .extension name value, ?_, rfl, rfl⟩
    unfold ofNameValue
    rw [if_neg hdate, if_neg hexpires, if_neg hmodified]

/-- **A printed header is a line, and is parsed to a header of the same name that is printed in the same
way.** -/
theorem parse_toString (laws : lib.Lawful) (now : Int) (hlen : line.length < npos)
    (hcrlf : ¬ crlf <:+: line) (h : Header.parse lib line = .ok header)
    (hprinted : (header.toString lib).length < npos) :
    (header.toString lib ≠ [] ∧ ¬ crlf <:+: header.toString lib) ∧
      ∃ header', Header.parse (lib.at now) (header.toString lib) = .ok header' ∧
        header'.toString lib = header.toString lib ∧ header'.name = header.name := by
  obtain ⟨name, c, value, rfl, hname, hmade⟩ := exists_cut hlen h
  have hname' : ¬ crlf <:+: name := fun hinside =>
    hcrlf (hinside.trans (List.prefix_append ..).isInfix)
  have hvalue : ¬ crlf <:+: value := fun hinside =>
    hcrlf (hinside.trans ⟨name ++ [colon, c], [], by simp⟩)
  obtain ⟨printed, hprint, hline, header', hagain, hsame, hnames⟩ :=
    exists_printed laws now hmade hvalue
  have hcut : header.toString lib = name ++ colon :: space :: printed := by
    rw [hprint, List.append_assoc]
    rfl
  rw [hcut] at hprinted ⊢
  refine ⟨⟨by simp, ?_⟩, header', ?_, hsame.trans hcut, hnames⟩
  · refine not_infix_append_cons (by decide) (by decide) hname' ?_
    exact not_infix_append_cons (a := []) (by decide) (by decide) (by decide) hline
  · rw [parse_cut hname hprinted, hagain]

end Parse

end Header

/-! ## Messages -/

section Lines

variable (firstLine : Bytes) (lines : List Bytes) (body : Bytes)

/-- A line is part of the text. -/
theorem length_le_headerBlock {line : Bytes} (h : line ∈ lines) :
    line.length ≤ (headerBlock lines body).length := by
  induction lines with
  | nil => cases h
  | cons first lines ih =>
      simp only [headerBlock, List.length_append]
      rcases List.mem_cons.mp h with rfl | h
      · omega
      · have hle := ih h
        omega

theorem length_le_layout : firstLine.length ≤ (layout firstLine lines body).length ∧
    ∀ line ∈ lines, line.length ≤ (layout firstLine lines body).length := by
  simp only [layout, List.length_append]
  refine ⟨by omega, fun line h => ?_⟩
  have hle := length_le_headerBlock lines body h
  omega

end Lines

/-- A message is printed as a layout. -/
theorem Message.toString_eq (lib : DateLib) (m : Message) : m.toString lib =
    layout m.firstLine.toString (m.headers.map (Header.toString lib)) (m.body.getD []) := by
  have hblock : ∀ headers : List Header,
      headers.flatMap (fun header => header.toString lib ++ crlf) ++ crlf ++ m.body.getD [] =
        headerBlock (headers.map (Header.toString lib)) (m.body.getD []) := by
    intro headers
    induction headers with
    | nil => rfl
    | cons header headers ih =>
        rw [List.flatMap_cons, List.map_cons, headerBlock, ← ih]
        simp only [List.append_assoc]
  rw [layout, ← hblock, Message.toString]
  simp only [List.append_assoc]

theorem getD_bodyOf (bytes : Bytes) : (bodyOf bytes).getD [] = bytes := by
  unfold bodyOf
  split_ifs with h
  · exact h.symm
  · rfl

/-- Printed headers are header lines, and are parsed to headers of the same names that are printed in the
same way. -/
theorem parseHeaders_toString {lib : DateLib} (laws : lib.Lawful) (now : Int) {lines : List Bytes}
    {headers : List Header} (hlen : ∀ line ∈ lines, line.length < npos) (hlines : HeaderLines lines)
    (h : parseHeaders lib lines = .ok headers)
    (hprinted : ∀ line ∈ headers.map (Header.toString lib), line.length < npos) :
    HeaderLines (headers.map (Header.toString lib)) ∧
      ∃ headers', parseHeaders (lib.at now) (headers.map (Header.toString lib)) = .ok headers' ∧
        headers'.map (Header.toString lib) = headers.map (Header.toString lib) ∧
        headers'.map Header.name = headers.map Header.name := by
  induction lines generalizing headers with
  | nil =>
      cases h
      exact ⟨fun _ hmem => absurd hmem List.not_mem_nil, [], rfl, rfl, rfl⟩
  | cons line lines ih =>
      obtain ⟨header, rest, hheader, hrest, rfl⟩ := parseHeaders_cons.mp h
      obtain ⟨⟨hne, hline⟩, hlines⟩ := headerLines_cons.mp hlines
      rw [List.forall_mem_cons] at hlen
      rw [List.map_cons, List.forall_mem_cons] at hprinted
      obtain ⟨hfirst, header', hparsed, hsame, hname⟩ :=
        Header.parse_toString laws now hlen.1 hline hheader hprinted.1
      obtain ⟨hothers, rest', hparsed', hsame', hnames'⟩ := ih hlen.2 hlines hrest hprinted.2
      refine ⟨headerLines_cons.mpr ⟨hfirst, hothers⟩, header' :: rest', ?_, ?_, ?_⟩
      · exact parseHeaders_cons.mpr ⟨header', rest', hparsed, hparsed', rfl⟩
      · rw [List.map_cons, List.map_cons, hsame, hsame']
      · rw [List.map_cons, List.map_cons, hname, hnames']

/-- **Printing is a fixed point.** The printed text of a message that was made of a text with an empty line
is accepted again, at any later time, and printed to the same; what it is parsed to has a first line of the
same kind, headers of the same names and the same body, and that is what was behind the first empty line. -/
theorem normal_form (lib : DateLib) (laws : lib.Lawful) (now : Int) (s t : CxxString) (m : Message)
    (hblank : blankLine <:+: s.val) (hm : Constructs lib s.val m) (ht : t.val = m.toString lib) :
    (∃ m', Constructs (lib.at now) t.val m' ∧ m'.toString lib = t.val ∧
      m'.firstLine.isRequest = m.firstLine.isRequest ∧
      m'.headers.map Header.name = m.headers.map Header.name ∧ m'.body = m.body) ∧
    ∃ i, firstOccurrence blankLine s.val = some i ∧
      m.body = bodyOf (s.val.drop (i + blankLine.length)) := by
  obtain ⟨line, lines, body, htext, hline, hlines⟩ := exists_layout hblank
  obtain ⟨first, headers, hfirst, hheaders, rfl⟩ :=
    (constructs_layout_iff htext hline hlines).mp hm
  have hlengths := length_le_layout line lines body
  rw [← htext] at hlengths
  refine ⟨?_, ?_⟩
  · rw [Message.toString_eq] at ht
    have hprinted := length_le_layout first.toString (headers.map (Header.toString lib))
      ((bodyOf body).getD [])
    rw [show layout first.toString (headers.map (Header.toString lib)) ((bodyOf body).getD []) = t.val
      from ht.symm] at hprinted
    obtain ⟨hfirstLine, first', hfirst', hsame, hkind⟩ := FirstLine.parse_toString
      (Nat.lt_of_le_of_lt hlengths.1 s.2) hline hfirst (Nat.lt_of_le_of_lt hprinted.1 t.2)
    obtain ⟨hheaderLines, headers', hheaders', hsame', hnames⟩ := parseHeaders_toString laws now
      (fun line hmem => Nat.lt_of_le_of_lt (hlengths.2 line hmem) s.2) hlines hheaders
      (fun line hmem => Nat.lt_of_le_of_lt (hprinted.2 line hmem) t.2)
    refine ⟨⟨first', headers', bodyOf ((bodyOf body).getD [])⟩, ?_, ?_, hkind, hnames, ?_⟩
    · exact (constructs_layout_iff ht hfirstLine hheaderLines).mpr
        ⟨first', headers', hfirst', hheaders', rfl⟩
    · rw [Message.toString_eq, ht, hsame, hsame', getD_bodyOf, getD_bodyOf]
    · rw [getD_bodyOf]
  · obtain ⟨i, hi, hdrop⟩ := layout_blank body hline hlines
    rw [← htext] at hi hdrop
    exact ⟨i, hi, by rw [hdrop]⟩

/-- A C library that knows one date. -/
def oneDate : DateLib where
  parse text := if text = ascii "Sun, 06 Nov 1994 08:49:37 GMT" then some 784111777 else none
  format _ := ascii "Sun, 06 Nov 1994 08:49:37 GMT"
  now := 784111777

theorem oneDate_lawful : oneDate.Lawful where
  parse_format d hknown := by
    rcases hknown with ⟨text, h⟩ | rfl
    · unfold oneDate at h
      simp only [Option.ite_none_right_eq_some, Option.some.injEq] at h
      rw [← h.2]
      rfl
    · rfl
  format_line _ _ := show ¬ crlf <:+: ascii "Sun, 06 Nov 1994 08:49:37 GMT" by decide +kernel

/-- A response without a reason, with a header without a space, an invalid date and a body. -/
def lenient : CxxString :=
  ⟨ascii "HTTP/1.0 200\r\nA:bc\r\nExpires: 0\r\n\r\nx\r\n\r\n", by decide +kernel⟩

/-- Its normal form. -/
def normalized : CxxString :=
  ⟨ascii "HTTP/1.0 200 \r\nA: c\r\nExpires: Sun, 06 Nov 1994 08:49:37 GMT\r\n\r\nx\r\n\r\n",
    by decide +kernel⟩

/-- What it is parsed to. -/
def lenientMessage : Message where
  firstLine := .status ⟨⟨1, 0⟩, .known .ok, none⟩
  headers := [.extension (ascii "A") (ascii "c"),
    .expires (ascii "Sun, 06 Nov 1994 08:49:37 GMT") 784111777]
  body := some (ascii "x\r\n\r\n")

theorem normal_form_lenient :
    Constructs oneDate lenient.val lenientMessage ∧
      lenientMessage.toString oneDate = normalized.val ∧
      ∃ m', Constructs (oneDate.at 784111778) normalized.val m' ∧
        m'.toString oneDate = normalized.val := by
  have htext : lenient.val = layout (ascii "HTTP/1.0 200") [ascii "A:bc", ascii "Expires: 0"]
      (ascii "x\r\n\r\n") := by decide +kernel
  have hm : Constructs oneDate lenient.val lenientMessage :=
    (constructs_layout_iff htext (by decide +kernel) (by decide +kernel)).mpr
      ⟨_, lenientMessage.headers, by decide +kernel, by decide +kernel, rfl⟩
  have hprinted : normalized.val = lenientMessage.toString oneDate := by decide +kernel
  obtain ⟨⟨m', hm', hsame, -⟩, -⟩ := normal_form oneDate oneDate_lawful 784111778 lenient normalized
    lenientMessage (by decide +kernel) hm hprinted
  exact ⟨hm, hprinted.symm, m', hm', hsame⟩

end ComputerNetworking.Http
