/-
# ComputerNetworking.Web.Exchange -- a request and a response on their way

What the other side makes of a message that was printed. A request of `Client::get` has no body, so the
empty line is at its end, and the servers read it whole however it is cut into segments. A response is read
up to the end of the stream, and nothing tells the client whether that is its end: what has come in up to
then is taken for the response.
-/
import ComputerNetworking.Http.Encode
import ComputerNetworking.Http.NormalForm
import ComputerNetworking.Proxy.Target

namespace ComputerNetworking.Web

open ComputerNetworking.Lib ComputerNetworking.Http ComputerNetworking.Proxy
open Uri (colon hash)

/-! ## Printed messages -/

/-- What is printed is a line, and at any time it is parsed to the header itself. -/
def Stable (lib : DateLib) (h : Header) : Prop :=
  (h.toString lib ≠ [] ∧ ¬ crlf <:+: h.toString lib) ∧
    ∀ now, Header.parse (lib.at now) (h.toString lib) = .ok h

section Printed

variable {lib : DateLib} {name value : Bytes} {m : Message} {first : FirstLine}

/-- A header whose value is printed as it is. -/
theorem stable_of_value {h : Header} (hprint : h.toString lib = name ++ ascii ": " ++ value)
    (hname : colon ∉ name) (hline : ¬ crlf <:+: name) (hvalue : ¬ crlf <:+: value)
    (hmade : ∀ now, Header.ofNameValue (lib.at now) name value = .ok h)
    (hlen : name.length + value.length + 2 < npos) : Stable lib h := by
  have hcut : h.toString lib = name ++ colon :: space :: value := by
    rw [hprint, List.append_assoc]
    rfl
  rw [Stable, hcut]
  refine ⟨⟨by simp, ?_⟩, fun now => ?_⟩
  · apply not_infix_append_cons (by decide) (by decide) hline
    exact not_infix_append_cons (a := []) (by decide) (by decide) (by decide) hvalue
  · rw [Header.parse_cut hname, hmade now]
    simp only [List.length_append, List.length_cons]
    omega

theorem stable_extension (hname : colon ∉ name) (hline : ¬ crlf <:+: name) (hvalue : ¬ crlf <:+: value)
    (hplain : name ∉ Header.dateNames) (hlen : name.length + value.length + 2 < npos) :
    Stable lib (.extension name value) := by
  apply stable_of_value rfl hname hline hvalue _ hlen
  intro now
  simp only [Header.dateNames, List.mem_cons, List.not_mem_nil, or_false, not_or] at hplain
  rw [Header.ofNameValue, if_neg hplain.1, if_neg hplain.2.1, if_neg hplain.2.2]

theorem parseHeaders_stable {headers : List Header} (h : ∀ header ∈ headers, Stable lib header) (now : Int) :
    HeaderLines (headers.map (Header.toString lib)) ∧
      parseHeaders (lib.at now) (headers.map (Header.toString lib)) = .ok headers := by
  induction headers with
  | nil => exact ⟨fun _ hmem => absurd hmem List.not_mem_nil, rfl⟩
  | cons header headers ih =>
      rw [List.forall_mem_cons] at h
      obtain ⟨⟨hline, hparse⟩, hrest⟩ := h
      obtain ⟨hlines, hheaders⟩ := ih hrest
      refine ⟨headerLines_cons.mpr ⟨hline, hlines⟩, ?_⟩
      exact parseHeaders_cons.mpr ⟨header, headers, hparse now, hheaders, rfl⟩

theorem bodyOf_getD {body : Option Bytes} (h : body ≠ some []) : bodyOf (body.getD []) = body := by
  rcases body with _ | body
  · rfl
  · have hne : body ≠ [] := fun hnil => h (by rw [hnil])
    exact if_neg hne

/-- **A printed message is parsed to itself**, but for what becomes of its first line. -/
theorem constructs_printed (hline : ¬ crlf <:+: m.firstLine.toString)
    (hfirst : FirstLine.parse m.firstLine.toString = .ok first)
    (hheaders : ∀ header ∈ m.headers, Stable lib header) (hbody : m.body ≠ some [])
    (hlen : (m.toString lib).length < npos) (now : Int) :
    Constructs (lib.at now) (m.toString lib) { m with firstLine := first } := by
  obtain ⟨hlines, hparse⟩ := parseHeaders_stable hheaders now
  apply (@constructs_layout_iff _ ⟨m.toString lib, hlen⟩ _ _ _ _ (m.toString_eq lib) hline hlines).mpr
  refine ⟨first, m.headers, hfirst, hparse, ?_⟩
  rw [bodyOf_getD hbody]

theorem constructs_unique {text : Bytes} {m m' : Message} (h : Constructs lib text m)
    (h' : Constructs lib text m') : m = m' := by
  obtain ⟨n, hn⟩ := h
  obtain ⟨k, hk⟩ := h'
  exact Except.ok.inj (Loop.after_inr_unique hn hk)

/-- Without a body the empty line is at the end, so every segmentation is cut there. -/
theorem readRequest_printed (hline : ¬ crlf <:+: m.firstLine.toString)
    (hheaders : ∀ header ∈ m.headers, Stable lib header) (hbody : m.body = none) {segments : List Segment}
    (hsegments : stream segments = m.toString lib) :
    readRequest [] (segments.map fun segment => .data segment.bytes) = some (m.toString lib) := by
  obtain ⟨hlines, -⟩ := parseHeaders_stable hheaders 0
  obtain ⟨i, hi, hdrop⟩ := layout_blank (m.body.getD []) hline hlines
  rw [← m.toString_eq lib] at hi hdrop
  have hend : (m.toString lib).length ≤ i + blankLine.length := by
    rw [hbody] at hdrop
    exact List.drop_eq_nil_iff.mp hdrop
  have hcut : CutAtBlank segments := by
    intro j hj
    rw [hsegments, hi, Option.some.injEq] at hj
    subst hj
    have hwhole : i + blankLine.length = (segments.map Segment.bytes).flatten.length := by
      have hle := (firstOccurrence_spec hi).1
      rw [show (segments.map Segment.bytes).flatten = m.toString lib from hsegments]
      omega
    rw [hwhole]
    exact length_mem_cuts _
  have htext : requestText (stream segments) = m.toString lib := by
    unfold requestText
    rw [hsegments, hi]
    exact List.take_of_length_le hend
  rw [← htext]
  exact (requestStr_iff segments).mpr hcut

theorem readAll_printed (hline : ¬ crlf <:+: m.firstLine.toString)
    (hheaders : ∀ header ∈ m.headers, Stable lib header) (hbody : m.body = none) {segments : List Segment}
    (hsegments : stream segments = m.toString lib) :
    readAll (segments.map fun segment => .data segment.bytes) = checkLength (m.toString lib) := by
  unfold readAll
  rw [readRequest_printed hline hheaders hbody hsegments]

end Printed

/-! ## Requests -/

section Requests

variable {path : Bytes}

/-- The request line of `Client::get` is a line, and is parsed to itself. -/
theorem exists_requestLine (hspace : space ∉ path) (hpath : ¬ crlf <:+: path) (hlen : path.length + 13 < npos) :
    ∃ u, Uri.parse path = .ok u ∧ RequestLine.ofGet path = .ok ⟨.get, u, .http10⟩ ∧
      ¬ crlf <:+: (RequestLine.mk .get u .http10).toString ∧
      ((RequestLine.mk .get u .http10).toString.length < npos →
        FirstLine.parse (RequestLine.mk .get u .http10).toString = .ok (.request ⟨.get, u, .http10⟩)) := by
  obtain ⟨u, hu, hget⟩ := RequestLine.ofGet_eq hspace hlen
  have hline : ascii "GET " ++ path ++ ascii " " ++ HTTPVersion.http10.toString =
      ascii "GET" ++ space :: (path ++ space :: HTTPVersion.http10.toString) := by
    simp [ascii, space]
  have hversion : HTTPVersion.http10.toString = ascii "HTTP/1.0" := by decide
  have hlength : (ascii "GET" ++ space :: (path ++ space :: ascii "HTTP/1.0")).length < npos := by
    simp only [List.length_append, List.length_cons, show (ascii "GET").length = 3 from rfl,
      show (ascii "HTTP/1.0").length = 8 from rfl]
    omega
  have hparse := hget
  rw [RequestLine.ofGet, hline, hversion] at hparse
  refine ⟨u, hu, hget, ?_, fun hprinted => ?_⟩
  · apply RequestLine.not_crlf_toString hlength hparse
    apply not_infix_append_cons (by decide) (by decide) (by decide)
    exact not_infix_append_cons (by decide) (by decide) hpath (by decide)
  · have hfirst : find (RequestLine.mk .get u .http10).toString (ascii "HTTP") 0 ≠ 0 := by
      intro hfind
      have hbegins := FirstLine.find_http.mp hfind
      rw [RequestLine.toString_eq] at hbegins
      have hletter := (List.cons_prefix_cons.mp hbegins).1
      exact absurd hletter (by decide)
    rw [FirstLine.parse, if_neg hfirst, RequestLine.parse_toString hlength hparse hprinted]
    rfl

/-- A request as `Client::get` makes it: without a body, and of lines that are parsed to what they were
printed from. -/
structure Sendable (lib : DateLib) (request : Message) : Prop where
  line : ¬ crlf <:+: request.firstLine.toString
  parsed : request.firstLine.toString.length < npos →
    FirstLine.parse request.firstLine.toString = .ok request.firstLine
  headers : ∀ header ∈ request.headers, Stable lib header
  body : request.body = none

theorem exists_sendable (lib : DateLib) {host : Bytes} {headers : List Header} (hspace : space ∉ path)
    (hpath : ¬ crlf <:+: path) (hhost : ¬ crlf <:+: host) (hlen : path.length + host.length + 16 < npos)
    (hheaders : ∀ header ∈ headers, Stable lib header) :
    ∃ u request, Uri.parse path = .ok u ∧ clientRequest lib host path headers = .ok request ∧
      request.headers = .extension (ascii "Host") host ::
        .extension (ascii "Connection") (ascii "close") :: headers ∧
      getUri request = .ok u.toString ∧ Sendable lib request := by
  obtain ⟨u, hu, hget, hline, hfirst⟩ := exists_requestLine hspace hpath (by omega)
  obtain ⟨u', hu', hmade⟩ := clientRequest_eq lib host headers hspace (by omega)
  cases hu.symm.trans hu'
  refine ⟨u, _, hu, hmade, rfl, rfl, hline, hfirst, ?_, rfl⟩
  rw [List.forall_mem_cons, List.forall_mem_cons]
  refine ⟨?_, ?_, hheaders⟩
  · apply stable_extension (by decide) (by decide) hhost (by decide)
    rw [show (ascii "Host").length = 4 from rfl]
    omega
  · exact stable_extension (by decide) (by decide) (by decide) (by decide) (by decide)

section Sent

variable {lib : DateLib} {request : Message} {segments : List Segment}

theorem Sendable.readAll_eq (h : Sendable lib request) (hsegments : stream segments = request.toString lib) :
    readAll (segments.map fun segment => .data segment.bytes) = checkLength (request.toString lib) :=
  readAll_printed h.line h.headers h.body hsegments

theorem Sendable.constructs (h : Sendable lib request) (hshort : (request.toString lib).length < maxString)
    (now : Int) : Constructs (lib.at now) (request.toString lib) request := by
  have hnpos : (request.toString lib).length < npos := Nat.lt_trans hshort (by decide)
  have hfirst : request.firstLine.toString.length < npos := by
    refine Nat.lt_of_le_of_lt ?_ hnpos
    rw [Message.toString, List.append_assoc, List.append_assoc, List.append_assoc, List.length_append]
    exact Nat.le_add_right ..
  have hbody : request.body ≠ some [] := by
    rw [h.body]
    exact Option.some_ne_none _ |>.symm
  exact constructs_printed h.line (h.parsed hfirst) h.headers hbody hnpos now

end Sent

/-- **A request arrives as it was made.** Whatever the segments, the reading loop of the servers ends with its
text, and that is parsed to the request itself; its URI is the path, unless the last hash of it is in front of
the first colon. -/
theorem get_arrives (lib : DateLib) (host path : Bytes) (headers : List Header) (hspace : space ∉ path)
    (hpath : ¬ crlf <:+: path) (hhost : ¬ crlf <:+: host) (hlen : path.length + host.length + 16 < npos)
    (hheaders : ∀ header ∈ headers, Stable lib header) :
    ∃ u request, Uri.parse path = .ok u ∧ clientRequest lib host path headers = .ok request ∧
      request.headers = .extension (ascii "Host") host ::
        .extension (ascii "Connection") (ascii "close") :: headers ∧
      getUri request = .ok u.toString ∧ (u.toString = path ↔ ¬ HashFirst path) ∧
      ((request.toString lib).length < maxString → ∀ segments, stream segments = request.toString lib →
        readAll (segments.map fun segment => .data segment.bytes) = .ok (request.toString lib) ∧
        ∀ now, Constructs (lib.at now) (request.toString lib) request) := by
  obtain ⟨u, request, hu, hmade, hnamed, huri, hsendable⟩ :=
    exists_sendable lib hspace hpath hhost hlen hheaders
  obtain ⟨u', hu', hkept⟩ := Uri.toString_parse_iff (s := path) (by omega)
  cases hu.symm.trans hu'
  refine ⟨u, request, hu, hmade, hnamed, huri, hkept, fun hshort segments hsegments => ⟨?_, ?_⟩⟩
  · rw [hsendable.readAll_eq hsegments]
    exact checkLength_eq_ok_iff.mpr ⟨rfl, hshort⟩
  · exact hsendable.constructs hshort

end Requests

/-- `GET /index HTTP/1.0` with its headers, in two segments. -/
def indexSegments : List Segment :=
  [⟨ascii "GET /index HTTP/1.0\r\nHost: h\r\n", by decide, by decide⟩,
    ⟨ascii "Connection: close\r\n\r\n", by decide, by decide⟩]

theorem get_arrives_index : ∃ request, clientRequest oneDate (ascii "h") (ascii "/index") [] = .ok request ∧
    getUri request = .ok (ascii "/index") ∧
    readAll (indexSegments.map fun segment => .data segment.bytes) = .ok (stream indexSegments) ∧
    Constructs (oneDate.at 0) (stream indexSegments) request := by
  obtain ⟨u, request, -, hmade, -, huri, hkept, harrives⟩ := get_arrives oneDate (ascii "h") (ascii "/index") []
    (by decide) (by decide) (by decide) (by decide) (by simp)
  have htext : stream indexSegments = request.toString oneDate := by
    have hrequest : clientRequest oneDate (ascii "h") (ascii "/index") [] = .ok
        ⟨.request ⟨.get, ⟨.relative (ascii "/index"), none⟩, .http10⟩,
          [.extension (ascii "Host") (ascii "h"), .extension (ascii "Connection") (ascii "close")], none⟩ := by
      decide +kernel
    rw [hrequest] at hmade
    cases hmade
    decide +kernel
  obtain ⟨hread, hparse⟩ := harrives (by rw [← htext]; decide +kernel) indexSegments htext
  refine ⟨request, hmade, ?_, ?_, ?_⟩
  · rw [huri, hkept.mpr]
    rintro ⟨a, b, hcut, -⟩
    have hmem : hash ∈ ascii "/index" := hcut ▸ List.mem_append_right a (List.mem_cons_self ..)
    exact absurd hmem (by decide)
  · rw [htext]
    exact hread
  · rw [htext]
    exact hparse 0

/-- A byte of an encoded text is none that the parsers look for. -/
theorem notMem_encode {str : Bytes} {c : UInt8} (hkept : Uri.unreserved c = false) (hc : c ≠ Uri.percent) :
    c ∉ Uri.encode str := by
  intro hmem
  rcases Uri.mem_encode hmem with hother | hpercent
  · rw [hkept] at hother
    cases hother
  · exact hc hpercent

/-- **Any bytes can be asked for.** What `URI::encode` makes of them goes through `Message::GET`, the reading
loop and the constructor unchanged, and decoded it is the bytes. -/
theorem encoded_arrives (lib : DateLib) (host str : Bytes) (hhost : ¬ crlf <:+: host)
    (hlen : 3 * str.length + host.length < maxString) :
    ∃ request, clientRequest lib host (Uri.encode str) [] = .ok request ∧
      getUri request = .ok (Uri.encode str) ∧ Uri.decode (Uri.encode str) = str ∧
      ((request.toString lib).length < maxString → ∀ segments, stream segments = request.toString lib →
        readAll (segments.map fun segment => .data segment.bytes) = .ok (request.toString lib) ∧
        ∀ now, Constructs (lib.at now) (request.toString lib) request) := by
  have hpath : ¬ crlf <:+: Uri.encode str := fun hinside =>
    notMem_encode (c := 0x0D) (by decide) (by decide) (hinside.subset (by decide))
  have hshort := Uri.length_encode_le str
  have hmax : maxString + 16 < npos := by decide
  obtain ⟨u, request, -, hmade, -, huri, hkept, harrives⟩ := get_arrives lib host (Uri.encode str) []
    (notMem_encode (by decide) (by decide)) hpath hhost (by omega) (by simp)
  refine ⟨request, hmade, ?_, Uri.decode_encode str, harrives⟩
  rw [huri, hkept.mpr]
  rintro ⟨a, b, hcut, -⟩
  have hmem : hash ∈ Uri.encode str := hcut ▸ List.mem_append_right a (List.mem_cons_self ..)
  exact notMem_encode (by decide) (by decide) hmem

theorem encoded_arrives_hash : ∃ request,
    clientRequest oneDate (ascii "h") (Uri.encode (ascii "a #:\r\n")) [] = .ok request ∧
      getUri request = .ok (ascii "a%20%23%3A%0D%0A") := by
  obtain ⟨request, hmade, huri, -⟩ := encoded_arrives oneDate (ascii "h") (ascii "a #:\r\n") (by decide)
    (by decide)
  have hencode : Uri.encode (ascii "a #:\r\n") = ascii "a%20%23%3A%0D%0A" := by decide +kernel
  exact ⟨request, hmade, by rw [huri, hencode]⟩

/-! ## Responses -/

section Responses

variable {lib : DateLib} {segments : List Segment} {rest : List Read}

/-- What ends the reading loop of `Client::get`: the end of the stream, or a read that fails. -/
def Ends (rest : List Read) : Prop := rest = [] ∨ (∃ more, rest = .data [] :: more) ∨ ∃ more, rest = .failed :: more

theorem readResponse_segments (text : Bytes) (hend : Ends rest) :
    readResponse text ((segments.map fun segment => .data segment.bytes) ++ rest) = text ++ stream segments := by
  induction segments generalizing text with
  | nil =>
      rw [show stream [] = [] from rfl, List.append_nil]
      rcases hend with rfl | ⟨more, rfl⟩ | ⟨more, rfl⟩ <;> rfl
  | cons segment segments ih =>
      rcases segment with ⟨_ | ⟨b, bs⟩, hne, hsmall⟩
      · exact absurd rfl hne
      · have hstream : stream (⟨b :: bs, hne, hsmall⟩ :: segments) = b :: bs ++ stream segments := rfl
        rw [hstream, ← List.append_assoc, ← ih]
        rfl

theorem headerBlock_append (lines : List Bytes) (body : Bytes) :
    headerBlock lines body = headerBlock lines [] ++ body := by
  induction lines with
  | nil => rw [headerBlock, headerBlock, List.append_nil]
  | cons line lines ih => rw [headerBlock, headerBlock, ih, List.append_assoc, List.append_assoc]

/-- A beginning of a layout that has its empty line is the layout with a beginning of its body. -/
theorem layout_prefix {line text : Bytes} {lines : List Bytes} (body : Bytes)
    (hfront : text <+: layout line lines body) (hlong : (layout line lines []).length ≤ text.length) :
    text = layout line lines (body.take (text.length - (layout line lines []).length)) := by
  have hsplit : ∀ body, layout line lines body = layout line lines [] ++ body := by
    intro body
    rw [layout, layout, headerBlock_append, List.append_assoc, List.append_assoc]
  rw [hsplit] at hfront ⊢
  rw [List.prefix_iff_eq_take, List.take_append, List.take_of_length_le hlong] at hfront
  exact hfront

/-- **A response that is cut off goes unnoticed.** If reading ends behind the empty line, be it with an error,
the client has the same first line and the same headers, and the part of the body that has come in. -/
theorem cut_off_unnoticed (lib : DateLib) (text : CxxString) (m : Message) (hm : Constructs lib text.val m)
    (i : Nat) (hblank : firstOccurrence blankLine text.val = some i) (segments : List Segment)
    (hfront : stream segments <+: text.val) (hlong : i + blankLine.length ≤ (stream segments).length)
    (rest : List Read) (hend : Ends rest) :
    Constructs lib (readResponse [] ((segments.map fun segment => .data segment.bytes) ++ rest))
      { m with body := bodyOf ((m.body.getD []).take ((stream segments).length - (i + blankLine.length))) } := by
  rw [readResponse_segments [] hend, List.nil_append]
  obtain ⟨hle, hhere, -⟩ := firstOccurrence_eq_some.mp hblank
  have hinside : blankLine <:+: text.val := hhere.isInfix.trans (List.drop_suffix i _).isInfix
  obtain ⟨line, lines, body, htext, hline, hlines⟩ := exists_layout hinside
  obtain ⟨first, headers, hfirst, hheaders, rfl⟩ := (constructs_layout_iff htext hline hlines).mp hm
  -- the part in front of the body
  have hhead : (layout line lines []).length = i + blankLine.length := by
    obtain ⟨j, hj, hdrop⟩ := layout_blank [] hline hlines
    obtain ⟨k, hk, hbody⟩ := layout_blank body hline hlines
    rw [← htext, hblank, Option.some.injEq] at hk
    subst hk
    have hlength := congrArg List.length hbody
    rw [List.length_drop, ← htext] at hlength
    have hle' := (firstOccurrence_spec hblank).1
    have hsplit : (layout line lines body).length = (layout line lines []).length + body.length := by
      rw [layout, layout, headerBlock_append]
      simp only [List.length_append]
      omega
    rw [← htext] at hsplit
    omega
  rw [htext] at hfront
  have hcut := layout_prefix body hfront (by omega)
  rw [hhead] at hcut
  rw [getD_bodyOf]
  have hshort : (stream segments).length < npos := by
    rw [← htext] at hfront
    exact Nat.lt_of_le_of_lt hfront.length_le text.2
  exact (@constructs_layout_iff _ ⟨stream segments, hshort⟩ _ _ _ _ hcut hline hlines).mpr
    ⟨first, headers, hfirst, hheaders, rfl⟩

/-- A page, what it is parsed to, and as much of it as comes in. -/
def greeting : CxxString := ⟨ascii "HTTP/1.0 200 OK\r\nContent-Length: 5\r\n\r\nhello", by decide +kernel⟩

def greetingMessage : Message where
  firstLine := .status ⟨⟨1, 0⟩, .known .ok, some (ascii "OK")⟩
  headers := [.extension (ascii "Content-Length") (ascii "5")]
  body := some (ascii "hello")

def greetingPart : List Segment :=
  [⟨ascii "HTTP/1.0 200 OK\r\nContent-Length: 5\r\n\r\nhe", by decide, by decide⟩]

theorem cut_off_unnoticed_greeting : Constructs noDates greeting.val greetingMessage ∧
    Constructs noDates (readResponse [] ((greetingPart.map fun segment => .data segment.bytes) ++ [.failed]))
      { greetingMessage with body := some (ascii "he") } := by
  have htext : greeting.val = layout (ascii "HTTP/1.0 200 OK") [ascii "Content-Length: 5"] (ascii "hello") := by
    decide +kernel
  have hm : Constructs noDates greeting.val greetingMessage :=
    (constructs_layout_iff htext (by decide +kernel) (by decide +kernel)).mpr
      ⟨_, greetingMessage.headers, by decide +kernel, by decide +kernel, rfl⟩
  have hcut := cut_off_unnoticed noDates greeting greetingMessage hm 34 (by decide +kernel) greetingPart
    (by decide +kernel) (by decide +kernel) [.failed] (.inr (.inr ⟨[], rfl⟩))
  exact ⟨hm, hcut⟩

end Responses

end ComputerNetworking.Web
