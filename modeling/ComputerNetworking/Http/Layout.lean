/-
# ComputerNetworking.Http.Layout -- texts with an empty line

A text that contains an empty line is a first line, header lines, the empty line and a body: `layout`.
On such a text the constructor of `Message` parses the one after the other, and the body is what is
behind the first empty line.
-/
import Mathlib.Data.List.Infix
import ComputerNetworking.Http.ParseTermination
import ComputerNetworking.Lib.Search

namespace ComputerNetworking.Http

open ComputerNetworking.Lib

/-! ## Layouts -/

/-- The end of the headers. -/
def blankLine : Bytes := crlf ++ crlf

/-- Header lines, the empty line and a body. -/
def headerBlock : List Bytes → Bytes → Bytes
  | [], body => crlf ++ body
  | line :: lines, body => line ++ (crlf ++ headerBlock lines body)

/-- A first line, header lines, the empty line and a body. -/
def layout (firstLine : Bytes) (lines : List Bytes) (body : Bytes) : Bytes :=
  firstLine ++ (crlf ++ headerBlock lines body)

/-- The lines are not empty, and are lines. -/
def HeaderLines (lines : List Bytes) : Prop := ∀ line ∈ lines, line ≠ [] ∧ ¬ crlf <:+: line

instance (lines : List Bytes) : Decidable (HeaderLines lines) := by
  unfold HeaderLines
  infer_instance

theorem headerLines_cons {line : Bytes} {lines : List Bytes} :
    HeaderLines (line :: lines) ↔ (line ≠ [] ∧ ¬ crlf <:+: line) ∧ HeaderLines lines :=
  List.forall_mem_cons

section Crlf

variable {line rest : Bytes} {i : Nat}

/-- The end of a line is found. -/
theorem firstOccurrence_line (h : ¬ crlf <:+: line) (rest : Bytes) :
    firstOccurrence crlf (line ++ (crlf ++ rest)) = some line.length :=
  firstOccurrence_pair (by decide) h

/-- What is in front of the first line end is a line. -/
theorem exists_line {s : Bytes} (h : firstOccurrence crlf s = some i) :
    ∃ line rest, s = line ++ (crlf ++ rest) ∧ line.length = i ∧ ¬ crlf <:+: line := by
  obtain ⟨hle, hsplit⟩ := firstOccurrence_spec h
  have hlength : (s.take i).length = i := List.length_take_of_le (by omega)
  refine ⟨s.take i, s.drop (i + crlf.length), by rwa [← List.append_assoc], hlength, ?_⟩
  rintro ⟨front, back, hinside⟩
  have hlen := congrArg List.length hinside
  rw [List.length_append, List.length_append, hlength] at hlen
  have hsuffix : crlf <:+ s.take (front.length + crlf.length) := by
    have htake : (s.take i).take (front.length + crlf.length) = front ++ crlf := by
      rw [← hinside, ← List.length_append, List.take_left]
    rw [List.take_take, Nat.min_eq_left (by omega)] at htake
    exact ⟨front, htake.symm⟩
  have hmin := firstOccurrence_le_of_suffix h (by omega) hsuffix
  have hcrlf : crlf.length = 2 := rfl
  omega

/-- A line that is not empty does not begin with a line end, whatever comes behind it. -/
theorem not_begins_crlf (hne : line ≠ []) (h : ¬ crlf <:+: line) (rest : Bytes) :
    ¬ crlf <+: line ++ (crlf ++ rest) := by
  intro hbegins
  have hfirst := firstOccurrence_eq_some.mp (firstOccurrence_line h rest)
  exact hfirst.2.2 0 (List.length_pos_iff.mpr hne) hbegins

/-- The first empty line is not in front of a line end with something behind it. -/
theorem firstOccurrence_blank (h : ¬ crlf <:+: line) (hrest : ¬ crlf <+: rest) :
    firstOccurrence blankLine (line ++ (crlf ++ rest)) =
      (firstOccurrence blankLine rest).map (line.length + crlf.length + ·) := by
  induction line with
  | nil =>
      have hblank : ¬ blankLine <+: crlf ++ rest := fun hpre =>
        hrest ((List.prefix_append_right_inj crlf).mp hpre)
      have hsecond : ¬ blankLine <+: (10 : UInt8) :: rest := fun hpre =>
        absurd (List.cons_prefix_cons.mp hpre).1 (by decide)
      rw [List.nil_append, show crlf ++ rest = (13 : UInt8) :: (10 : UInt8) :: rest from rfl] at *
      rw [firstOccurrence, if_neg (by rwa [List.isPrefixOf_iff_prefix]), firstOccurrence,
        if_neg (by rwa [List.isPrefixOf_iff_prefix]), Option.map_map]
      congr 1
      funext n
      show n + 1 + 1 = 0 + 2 + n
      omega
  | cons c line ih =>
      have hhere : ¬ blankLine <+: c :: (line ++ (crlf ++ rest)) := fun hpre =>
        not_begins_crlf (List.cons_ne_nil c line) h rest ((List.prefix_append crlf crlf).trans hpre)
      rw [List.infix_cons_iff, not_or] at h
      rw [List.cons_append, firstOccurrence, if_neg (by rwa [List.isPrefixOf_iff_prefix]), ih h.2,
        Option.map_map, List.length_cons]
      congr 1
      funext n
      show line.length + crlf.length + n + 1 = line.length + 1 + crlf.length + n
      omega

end Crlf

/-- A text with an empty line has a layout. -/
theorem exists_layout {s : Bytes} (h : blankLine <:+: s) :
    ∃ firstLine lines body, s = layout firstLine lines body ∧ ¬ crlf <:+: firstLine ∧
      HeaderLines lines := by
  induction hn : s.length using Nat.strongRecOn generalizing s with
  | ind n ih =>
      have hcrlf : crlf <:+: s := (List.prefix_append crlf crlf).isInfix.trans h
      rcases hi : firstOccurrence crlf s with _ | i
      · exact absurd hcrlf (firstOccurrence_eq_none.mp hi)
      · obtain ⟨line, rest, rfl, -, hline⟩ := exists_line hi
        by_cases hrest : crlf <+: rest
        · -- the empty line comes next
          obtain ⟨body, rfl⟩ := hrest
          exact ⟨line, [], body, rfl, hline, fun _ hmem => absurd hmem List.not_mem_nil⟩
        · have hblank : blankLine <:+: rest := by
            by_contra hnone
            rw [← firstOccurrence_eq_none] at hnone
            have hnowhere := firstOccurrence_blank hline hrest
            rw [hnone, Option.map_none] at hnowhere
            exact firstOccurrence_eq_none.mp hnowhere h
          have hcrlflen : crlf.length = 2 := rfl
          obtain ⟨header, lines, body, rfl, hheader, hlines⟩ :=
            ih rest.length (by simp only [List.length_append] at hn; omega) hblank rfl
          have hne : header ≠ [] := by
            rintro rfl
            exact hrest (List.prefix_append ..)
          exact ⟨line, header :: lines, body, rfl, hline, headerLines_cons.mpr ⟨⟨hne, hheader⟩, hlines⟩⟩

/-- Behind the first empty line of a layout is the body. -/
theorem layout_blank {firstLine : Bytes} {lines : List Bytes} (body : Bytes)
    (hline : ¬ crlf <:+: firstLine) (hlines : HeaderLines lines) :
    ∃ i, firstOccurrence blankLine (layout firstLine lines body) = some i ∧
      (layout firstLine lines body).drop (i + blankLine.length) = body := by
  induction lines generalizing firstLine with
  | nil =>
      refine ⟨firstLine.length, firstOccurrence_eq_some.mpr ⟨by simp [layout], ?_, ?_⟩, ?_⟩
      · rw [layout, List.drop_left]
        exact ⟨body, by rw [headerBlock, blankLine, List.append_assoc]⟩
      · intro j hj hpre
        have hfirst := firstOccurrence_line hline (headerBlock [] body)
        exact (firstOccurrence_eq_some.mp hfirst).2.2 j hj ((List.prefix_append crlf crlf).trans hpre)
      · rw [← List.drop_drop, layout, List.drop_left]
        rfl
  | cons header lines ih =>
      obtain ⟨⟨hne, hheader⟩, hlines⟩ := headerLines_cons.mp hlines
      obtain ⟨i, hi, hdrop⟩ := ih hheader hlines
      refine ⟨firstLine.length + crlf.length + i, ?_, ?_⟩
      · have hblank := firstOccurrence_blank hline
          (not_begins_crlf hne hheader (headerBlock lines body))
        rw [layout] at hi
        rw [hi] at hblank
        exact hblank
      · have hsplit : layout firstLine (header :: lines) body =
            firstLine ++ crlf ++ layout header lines body := by
          rw [List.append_assoc]
          rfl
        rw [hsplit, ← List.length_append, Nat.add_assoc, ← List.drop_drop, List.drop_left, hdrop]

/-! ## The constructor on a layout -/

/-- The constructor returns `m`. -/
def Constructs (lib : DateLib) (text : Bytes) (m : Message) : Prop :=
  ∃ n, constructing lib text n = .inr (.ok m)

/-- The headers made of the lines. -/
def parseHeaders (lib : DateLib) : List Bytes → Except Thrown (List Header)
  | [] => .ok []
  | line :: lines => do
      let header ← Header.parse lib line
      let headers ← parseHeaders lib lines
      .ok (header :: headers)

theorem parseHeaders_cons {lib : DateLib} {line : Bytes} {lines : List Bytes} {all : List Header} :
    parseHeaders lib (line :: lines) = .ok all ↔
      ∃ header headers, Header.parse lib line = .ok header ∧ parseHeaders lib lines = .ok headers ∧
        all = header :: headers := by
  simp only [parseHeaders, bind_eq_ok, Except.ok.injEq]
  constructor
  · rintro ⟨header, hheader, headers, hheaders, rfl⟩
    exact ⟨header, headers, hheader, hheaders, rfl⟩
  · rintro ⟨header, headers, hheader, hheaders, rfl⟩
    exact ⟨header, hheader, headers, hheaders, rfl⟩

/-- A body is there if there are bytes of it. -/
def bodyOf (bytes : Bytes) : Option Bytes := if bytes = [] then none else some bytes

section Constructor

variable {lib : DateLib} {message : CxxString}

theorem lastPart_eq {s : HeaderLoop} {body : Bytes} (hpos : s.pos ≤ message.val.length)
    (hrest : s.rest message.val = crlf ++ body) :
    Message.lastPart message.val s = .ok ⟨s.firstLine, s.headers, bodyOf body⟩ := by
  have hlen := length_lt_size message
  have hcrlf : crlf.length = 2 := rfl
  have hdrop : message.val.drop (s.pos + 2) = body := by
    rw [← List.drop_drop, show message.val.drop s.pos = _ from hrest]
    rfl
  have hlength : message.val.length = s.pos + 2 + body.length := by
    have h := congrArg List.length hrest
    unfold HeaderLoop.rest at h
    rw [List.length_drop, List.length_append] at h
    omega
  unfold Message.lastPart bodyOf
  rw [hcrlf, sizeAdd_of_lt (by omega)]
  by_cases hbody : body = []
  · rw [hbody, List.length_nil] at hlength
    simp only [if_pos hbody, if_neg (show ¬ s.pos + 2 < message.val.length by omega)]
    rfl
  · have hpositive : 0 < body.length := List.length_pos_iff.mpr hbody
    have hsubstr : substrFrom message.val (s.pos + 2) = .ok body := by
      rw [substrFrom, substr, if_pos (by omega), hdrop, List.take_of_length_le]
      unfold npos
      omega
    simp only [if_neg hbody, if_pos (show s.pos + 2 < message.val.length by omega), hsubstr]
    rfl

/-- From its loop on the constructor parses the header lines and takes the body. -/
theorem after_headerBlock (lib : DateLib) {lines : List Bytes} {body : Bytes}
    (hlines : HeaderLines lines) {s : HeaderLoop} (hpos : s.pos ≤ message.val.length)
    (hrest : s.rest message.val = headerBlock lines body) :
    ∃ n, Loop.after (Message.round lib message.val) n (.inl s) =
      .inr (parseHeaders lib lines >>= fun headers =>
        .ok ⟨s.firstLine, s.headers ++ headers, bodyOf body⟩) := by
  induction lines generalizing s with
  | nil =>
      have hzero : firstOccurrence crlf (s.rest message.val) = some 0 := by
        rw [hrest]
        exact firstOccurrence_line (show ¬ crlf <:+: [] by decide) body
      refine ⟨1, ?_⟩
      show Message.round lib message.val s = _
      rw [round_zero hpos hzero, lastPart_eq hpos hrest]
      simp [parseHeaders, bind, Except.bind]
  | cons line lines ih =>
      obtain ⟨⟨hne, hline⟩, hlines⟩ := headerLines_cons.mp hlines
      have hsome : firstOccurrence crlf (s.rest message.val) = some line.length := by
        rw [hrest]
        exact firstOccurrence_line hline _
      have hround := @round_some lib message s hpos _ hsome (by simpa using hne)
      rw [show (s.rest message.val).take line.length = line by
        rw [hrest, headerBlock, List.take_left]] at hround
      rcases hparse : Header.parse lib line with e | header
      · refine ⟨1, ?_⟩
        show Message.round lib message.val s = _
        rw [hround, hparse, parseHeaders, hparse]
        rfl
      · rw [hparse] at hround
        have hnext := @rest_next message s
          { s with headers := s.headers ++ [header], pos := s.pos + line.length + crlf.length } _ rfl
        rw [hrest, headerBlock, ← List.length_append, ← List.append_assoc, List.drop_left] at hnext
        obtain ⟨n, hn⟩ := ih hlines (pos_next_le hpos hsome rfl) hnext
        refine ⟨n + 1, ?_⟩
        show Loop.after _ n (Message.round lib message.val s) = _
        rw [hround]
        refine hn.trans (congrArg Sum.inr ?_)
        rw [parseHeaders, hparse]
        rcases parseHeaders lib lines with e | headers
        · rfl
        · simp [bind, Except.bind]

/-- **On a layout the constructor parses the first line and the header lines, and takes the body.** -/
theorem constructs_layout_iff {firstLine body : Bytes} {lines : List Bytes} {m : Message}
    (htext : message.val = layout firstLine lines body) (hline : ¬ crlf <:+: firstLine)
    (hlines : HeaderLines lines) :
    Constructs lib message.val m ↔
      ∃ first headers, FirstLine.parse firstLine = .ok first ∧ parseHeaders lib lines = .ok headers ∧
        m = ⟨first, headers, bodyOf body⟩ := by
  have hi : firstOccurrence crlf message.val = some firstLine.length := by
    rw [htext]
    exact firstOccurrence_line hline _
  have hstart := firstPart_some hi
  rw [show message.val.take firstLine.length = firstLine by rw [htext, layout, List.take_left]]
    at hstart
  unfold Constructs constructing
  rw [hstart]
  rcases hparse : FirstLine.parse firstLine with e | first
  · refine iff_of_false ?_ (by rintro ⟨_, _, h, -⟩; cases h)
    rintro ⟨n, hn⟩
    cases Loop.after_inr_unique (n := 0) rfl hn
  · have hpos : firstLine.length + crlf.length ≤ message.val.length := (firstOccurrence_spec hi).1
    have hrest : HeaderLoop.rest ⟨first, [], firstLine.length + crlf.length⟩ message.val =
        headerBlock lines body := by
      unfold HeaderLoop.rest
      rw [htext, layout, ← List.append_assoc, ← List.length_append, List.drop_left]
    obtain ⟨n, hn⟩ := after_headerBlock lib hlines hpos hrest
    constructor
    · rintro ⟨n', hn'⟩
      obtain ⟨headers, hheaders, hm⟩ := bind_eq_ok.mp (Loop.after_inr_unique hn hn')
      exact ⟨first, headers, rfl, hheaders, (Except.ok.inj hm).symm⟩
    · rintro ⟨_, headers, hfirst, hheaders, rfl⟩
      cases hfirst
      refine ⟨n, hn.trans (congrArg Sum.inr ?_)⟩
      rw [hheaders]
      rfl

end Constructor

end ComputerNetworking.Http
