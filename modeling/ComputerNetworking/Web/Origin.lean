/-
# ComputerNetworking.Web.Origin -- the test server

`http_server.cpp`: five routes, each with a counter that is in the body of its pages. A request with an
`If-Modified-Since` header is answered with 304 on one of the routes, whatever the date in it, and is not
counted. Any client reads a page as it was made, but that a missing reason comes back as an empty one.
-/
import Mathlib.Logic.Function.Basic
import ComputerNetworking.Web.Exchange

namespace ComputerNetworking.Http

/-- `Message(StatusCode)`. -/
def Message.ofCode (code : KnownCode) : Message := ⟨.status ⟨.http10, .known code, none⟩, [], none⟩

/-- What a response without a reason is read as. -/
def Message.asRead (m : Message) : Message :=
  match m.firstLine with
  | .status line => { m with firstLine := .status { line with reason := some (line.reason.getD []) } }
  | .request _ => m

end ComputerNetworking.Http

namespace ComputerNetworking.Web

open ComputerNetworking.Lib ComputerNetworking.Http ComputerNetworking.Proxy
open Uri (colon)

/-! ## The routes -/

/-- The test functions. -/
inductive Route where
  | test1
  | test4
  | test5
  | test6
  | test7
  deriving DecidableEq

namespace Route

/-- The key in `routes`. -/
def path : Route → Bytes
  | test1 => ascii "/test1"
  | test4 => ascii "/test4"
  | test5 => ascii "/test5"
  | test6 => ascii "/test6"
  | test7 => ascii "/test7"

/-- What the body begins with. -/
def title : Route → Bytes
  | test1 => ascii "Test 1: "
  | test4 => ascii "Test 4: "
  | test5 => ascii "Test 5: "
  | test6 => ascii "Test 6: "
  | test7 => ascii "Test 7: "

def all : List Route := [test1, test4, test5, test6, test7]

theorem mem_all (route : Route) : route ∈ all := by
  cases route <;> decide

instance {P : Route → Prop} [DecidablePred P] : Decidable (∀ route, P route) :=
  decidable_of_iff (∀ route ∈ all, P route)
    ⟨fun h route => h route (mem_all route), fun h route _ => h route⟩

/-- `routes.find(uri)`. -/
def find (uri : Bytes) : Option Route := all.find? fun route => uri = route.path

end Route

/-- `add_header(name, value)`. -/
def addNamed (lib : DateLib) (response : Message) (header : Bytes × Bytes) : Except Thrown Message := do
  pure (response.addHeader (← Header.ofNameValue lib header.1 header.2))

/-- What the test functions have in common. -/
def testResponse (lib : DateLib) (route : Route) (currentCount : Nat)
    (headers : Bytes → List (Bytes × Bytes)) : Except Thrown Message := do
  let body := route.title ++ stdToString currentCount
  let response ← (headers body).foldlM (addNamed lib) (Message.ofCode .ok)
  pure { response with body := some body }

section Tests

variable (lib : DateLib) (currentCount : Nat) (now later : Int)

/-- `test_1`; `now` and `later` are what its two calls of `time` return. -/
def test1 : Except Thrown Message :=
  testResponse lib .test1 currentCount fun body =>
    [(ascii "Content-Type", ascii "text/plain"), (ascii "Date", lib.format now),
      (ascii "Content-Length", stdToString body.length), (ascii "Expires", lib.format (later + 60))]

/-- `test_4`. -/
def test4 : Except Thrown Message :=
  testResponse lib .test4 currentCount fun body =>
    [(ascii "Content-Type", ascii "text/plain"), (ascii "Date", lib.format now),
      (ascii "Expires", lib.format (later - 10)), (ascii "Content-Length", stdToString body.length)]

/-- `test_5`. -/
def test5 : Except Thrown Message :=
  testResponse lib .test5 currentCount fun body =>
    [(ascii "Content-Type", ascii "text/plain"), (ascii "Date", lib.format now),
      (ascii "Last-Modified", lib.format (later - 10)), (ascii "Content-Length", stdToString body.length)]

/-- `test_6`. -/
def test6 : Except Thrown Message :=
  testResponse lib .test6 currentCount fun body =>
    [(ascii "Content-Type", ascii "text/plain"), (ascii "Date", lib.format now),
      (ascii "Last-Modified", lib.format (later - 60 * 60 * 24 * 30)),
      (ascii "Content-Length", stdToString body.length)]

/-- `test_7`. -/
def test7 : Except Thrown Message :=
  testResponse lib .test7 currentCount fun body =>
    [(ascii "Content-Type", ascii "text/plain"), (ascii "Date", lib.format now),
      (ascii "Content-Length", stdToString body.length)]

end Tests

/-- `route->second()`. -/
def Route.respond (lib : DateLib) : Route → Nat → Int → Int → Except Thrown Message
  | test1 => Web.test1 lib
  | test4 => Web.test4 lib
  | test5 => Web.test5 lib
  | test6 => Web.test6 lib
  | test7 => fun currentCount now _ => Web.test7 lib currentCount now

/-! ## The handler -/

/-- `test_1_count` and the others. -/
abbrev Counts := Route → Nat

/-- What the handler makes of a request. -/
inductive Plan where
  /-- It calls the test function. -/
  | page (route : Route)
  /-- It answers with a status line alone. -/
  | empty (code : KnownCode)
  deriving DecidableEq

/-- The handler behind the constructor of the request, up to the test function. -/
def plan (request : Message) : Except Failure Plan := do
  let uri ← getUri request
  match Route.find uri with
  | some route =>
      if (request.getHeader (ascii "If-Modified-Since")).isSome ∧ uri = ascii "/test5" then
        pure (.empty .notModified)
      else pure (.page route)
  | none => pure (.empty .notFound)

/-- The handler up to the test function. -/
def accept (lib : DateLib) (n : Nat) (reads : List Read) : Except Failure Plan := do
  let requestStr ← readAll reads
  let request ← construct lib n requestStr
  plan request

/-! ## Pages -/

/-- The C library prints a date on a short line, and knows it again. -/
structure Shows (lib : DateLib) (d : Int) : Prop where
  again : lib.parse (lib.format d) = some d
  line : ¬ crlf <:+: lib.format d
  short : (lib.format d).length < 128

/-- The dates that a page at this time can have in it. -/
structure ShowsAt (lib : DateLib) (now later : Int) : Prop where
  date : Shows lib now
  expires : Shows lib (later + 60)
  expired : Shows lib (later - 10)
  old : Shows lib (later - 60 * 60 * 24 * 30)

namespace Route

/-- The headers of a page with a body of this length. -/
def headers (lib : DateLib) (route : Route) (length : Nat) (now later : Int) : List Header :=
  let contentType := Header.extension (ascii "Content-Type") (ascii "text/plain")
  let date := Header.date (lib.format now) now
  let contentLength := Header.extension (ascii "Content-Length") (stdToString length)
  match route with
  | test1 => [contentType, date, contentLength, .expires (lib.format (later + 60)) (later + 60)]
  | test4 => [contentType, date, .expires (lib.format (later - 10)) (later - 10), contentLength]
  | test5 => [contentType, date, .lastModified (lib.format (later - 10)) (later - 10), contentLength]
  | test6 =>
      [contentType, date,
        .lastModified (lib.format (later - 60 * 60 * 24 * 30)) (later - 60 * 60 * 24 * 30), contentLength]
  | test7 => [contentType, date, contentLength]

/-- The page with a number. -/
def page (lib : DateLib) (route : Route) (currentCount : Nat) (now later : Int) : Message :=
  let body := route.title ++ stdToString currentCount
  ⟨.status ⟨.http10, .known .ok, none⟩, route.headers lib body.length now later, some body⟩

/-- Until when the proxy has a page for fresh. -/
def expiration (now later : Int) : Route → Int
  | test1 => later + 60
  | test4 => later - 10
  | test5 => later - 10
  | test6 => later - 60 * 60 * 24 * 30
  | test7 => now

/-- The number in the body of a page. -/
def number (route : Route) (m : Message) : Option Nat :=
  match m.firstLine, m.body with
  | .status line, some body =>
      if line.code = .known .ok ∧ route.title <+: body then
        some (digitsValue (body.drop route.title.length))
      else none
  | _, _ => none

end Route

section Made

variable {lib : DateLib} {now later d : Int} {route : Route} {k : Nat}

/-- What a name and a value make. -/
def Makes (lib : DateLib) (pair : Bytes × Bytes) (header : Header) : Prop :=
  Header.ofNameValue lib pair.1 pair.2 = .ok header

theorem makes_date (h : Shows lib d) :
    Makes lib (ascii "Date", lib.format d) (.date (lib.format d) d) := by
  rw [Makes, Header.ofNameValue, if_pos rfl, h.again]

theorem makes_expires (h : Shows lib d) :
    Makes lib (ascii "Expires", lib.format d) (.expires (lib.format d) d) := by
  show Header.ofNameValue lib (ascii "Expires") _ = _
  rw [Header.ofNameValue, if_neg (by decide), if_pos rfl, h.again]

theorem makes_lastModified (h : Shows lib d) :
    Makes lib (ascii "Last-Modified", lib.format d) (.lastModified (lib.format d) d) := by
  show Header.ofNameValue lib (ascii "Last-Modified") _ = _
  rw [Header.ofNameValue, if_neg (by decide), if_neg (by decide), if_pos rfl, h.again]

theorem makes_extension {name : Bytes} (h : name ∉ Header.dateNames) (value : Bytes) :
    Makes lib (name, value) (.extension name value) := by
  simp only [Header.dateNames, List.mem_cons, List.not_mem_nil, or_false, not_or] at h
  rw [Makes, Header.ofNameValue, if_neg h.1, if_neg h.2.1, if_neg h.2.2]

theorem foldlM_addNamed {pairs : List (Bytes × Bytes)} {headers : List Header}
    (h : List.Forall₂ (Makes lib) pairs headers) (m : Message) :
    pairs.foldlM (addNamed lib) m = .ok { m with headers := m.headers ++ headers } := by
  induction h generalizing m with
  | nil =>
      rw [List.append_nil]
      rfl
  | @cons pair header pairs headers hmade _ ih =>
      rw [List.foldlM_cons, addNamed, show Header.ofNameValue lib pair.1 pair.2 = _ from hmade]
      show pairs.foldlM (addNamed lib) (m.addHeader header) = _
      rw [ih, Message.addHeader, List.append_assoc]
      rfl

theorem testResponse_eq (route : Route) (k : Nat) {pairs : Bytes → List (Bytes × Bytes)}
    {headers : List Header} (h : List.Forall₂ (Makes lib) (pairs (route.title ++ stdToString k)) headers) :
    testResponse lib route k pairs =
      .ok ⟨.status ⟨.http10, .known .ok, none⟩, headers, some (route.title ++ stdToString k)⟩ := by
  rw [testResponse, foldlM_addNamed h]
  rfl

/-- **A function makes its page.** -/
theorem respond_eq (h : ShowsAt lib now later) :
    route.respond lib k now later = .ok (route.page lib k now later) := by
  have htype : Makes lib (ascii "Content-Type", ascii "text/plain") _ := makes_extension (by decide) _
  have hname : ascii "Content-Length" ∉ Header.dateNames := by decide
  have hlength : ∀ value, Makes lib (ascii "Content-Length", value) _ := makes_extension hname
  have hfront : ∀ {pairs headers}, List.Forall₂ (Makes lib) pairs headers → List.Forall₂ (Makes lib)
      ((ascii "Content-Type", ascii "text/plain") :: (ascii "Date", lib.format now) :: pairs) _ :=
    fun hrest => .cons htype (.cons (makes_date h.date) hrest)
  cases route with
  | test1 =>
      rw [Route.respond, test1, testResponse_eq .test1 k
        (hfront (.cons (hlength _) (.cons (makes_expires h.expires) .nil)))]
      rfl
  | test4 =>
      rw [Route.respond, test4, testResponse_eq .test4 k
        (hfront (.cons (makes_expires h.expired) (.cons (hlength _) .nil)))]
      rfl
  | test5 =>
      rw [Route.respond, test5, testResponse_eq .test5 k
        (hfront (.cons (makes_lastModified h.expired) (.cons (hlength _) .nil)))]
      rfl
  | test6 =>
      rw [Route.respond, test6, testResponse_eq .test6 k
        (hfront (.cons (makes_lastModified h.old) (.cons (hlength _) .nil)))]
      rfl
  | test7 =>
      show Web.test7 lib k now = _
      rw [test7, testResponse_eq .test7 k
        (hfront (.cons (hlength _) .nil))]
      rfl

theorem number_page {reason : Option Bytes} {version : HTTPVersion} {headers : List Header} :
    route.number ⟨.status ⟨version, .known .ok, reason⟩, headers, some (route.title ++ stdToString k)⟩ =
      some k := by
  have hdecimal : stdToString k = decimal k := if_neg (by omega)
  have hbegins : route.title <+: route.title ++ decimal k := List.prefix_append ..
  rw [hdecimal]
  unfold Route.number
  simp only [hbegins, and_self, if_true, List.drop_left, digitsValue_decimal]

end Made

/-! ## How a response is read -/

/-- A response of the server: a known code, no reason, and headers that are read as they are printed. -/
structure Readable (lib : DateLib) (m : Message) : Prop where
  line : ∃ code reason, m.firstLine = .status ⟨.http10, .known code, reason⟩ ∧ reason.getD [] = []
  headers : ∀ header ∈ m.headers, Stable lib header
  body : m.body ≠ some []
  short : (m.toString lib).length < maxString

section Reading

variable {lib : DateLib} {now later d : Int} {route : Route} {k : Nat} {m : Message}

/-- The status lines of the server are parsed with an empty reason. -/
theorem parse_statusLine (code : KnownCode) {reason : Option Bytes} (hreason : reason.getD [] = []) :
    ¬ crlf <:+: (FirstLine.status ⟨.http10, .known code, reason⟩).toString ∧
      FirstLine.parse (FirstLine.status ⟨.http10, .known code, reason⟩).toString =
        .ok (.status ⟨.http10, .known code, some []⟩) := by
  have hprinted : (FirstLine.status ⟨.http10, .known code, reason⟩).toString =
      (FirstLine.status ⟨.http10, .known code, none⟩).toString := by
    simp only [FirstLine.toString, StatusLine.toString, hreason, Option.getD_none]
  rw [hprinted]
  cases code <;> decide +kernel

theorem toString_asRead (m : Message) : m.asRead.toString lib = m.toString lib := by
  obtain ⟨line | line, headers, body⟩ := m <;> rfl

theorem asRead_eq {code : KnownCode} {reason : Option Bytes}
    (hfirst : m.firstLine = .status ⟨.http10, .known code, reason⟩) (hreason : reason.getD [] = []) :
    m.asRead = { m with firstLine := .status ⟨.http10, .known code, some []⟩ } := by
  unfold Message.asRead
  simp only [hfirst, hreason]

/-- **A response is read with an empty reason, and otherwise as it was.** -/
theorem Readable.constructs (h : Readable lib m) (now : Int) :
    Constructs (lib.at now) (m.toString lib) m.asRead := by
  obtain ⟨code, reason, hfirst, hreason⟩ := h.line
  obtain ⟨hline, hparse⟩ := parse_statusLine code hreason
  rw [← hfirst] at hline hparse
  have hshort : (m.toString lib).length < npos := Nat.lt_trans h.short (by decide)
  have hmade := constructs_printed hline hparse h.headers h.body hshort now
  rwa [asRead_eq hfirst hreason]

theorem Readable.asRead (h : Readable lib m) : Readable lib m.asRead ∧ m.asRead.asRead = m.asRead := by
  obtain ⟨code, reason, hfirst, hreason⟩ := h.line
  have hread := asRead_eq hfirst hreason
  refine ⟨⟨⟨code, some [], by rw [hread], rfl⟩, ?_, ?_, ?_⟩, ?_⟩
  · rw [hread]
    exact h.headers
  · rw [hread]
    exact h.body
  · rw [toString_asRead]
    exact h.short
  · rw [hread]
    rfl

/-- A header that is read as it is printed, and is short. -/
def Neat (lib : DateLib) (h : Header) : Prop := Stable lib h ∧ (h.toString lib).length < 256

/-- The headers with a date. -/
theorem Shows.neat (h : Shows lib d) : Neat lib (.date (lib.format d) d) ∧
    Neat lib (.expires (lib.format d) d) ∧ Neat lib (.lastModified (lib.format d) d) := by
  have hlater : ∀ now, Shows (lib.at now) d := fun _ => ⟨h.again, h.line, h.short⟩
  have hshort : ∀ name : Bytes, name.length < 64 → (name ++ ascii ": " ++ lib.format d).length < 256 := by
    intro name hname
    have hformat := h.short
    simp only [List.length_append, show (ascii ": ").length = 2 from rfl]
    omega
  have hfits : ∀ name : Bytes, name.length < 64 → name.length + (lib.format d).length + 2 < npos := by
    intro name hname
    have hmax : 256 < npos := by decide
    have hformat := h.short
    omega
  refine ⟨⟨?_, hshort _ (by decide)⟩, ⟨?_, hshort _ (by decide)⟩, ⟨?_, hshort _ (by decide)⟩⟩
  · have hmade := fun now => makes_date (hlater now)
    exact stable_of_value rfl (by decide) (by decide) h.line hmade (hfits _ (by decide))
  · have hmade := fun now => makes_expires (hlater now)
    exact stable_of_value rfl (by decide) (by decide) h.line hmade (hfits _ (by decide))
  · have hmade := fun now => makes_lastModified (hlater now)
    exact stable_of_value rfl (by decide) (by decide) h.line hmade (hfits _ (by decide))

theorem neat_extension {name value : Bytes} (hname : colon ∉ name) (hline : ¬ crlf <:+: name)
    (hvalue : ¬ crlf <:+: value) (hplain : name ∉ Header.dateNames) (hlen : name.length + value.length < 254) :
    Neat lib (.extension name value) := by
  have hmax : 256 < npos := by decide
  refine ⟨stable_extension hname hline hvalue hplain (by omega), ?_⟩
  simp only [Header.toString, List.length_append, show (ascii ": ").length = 2 from rfl]
  omega

theorem length_stdToString_le {n : Nat} (h : n < 10 ^ (k + 1)) : (stdToString n).length ≤ k + 1 := by
  rw [show stdToString n = decimal n from if_neg (by omega)]
  exact length_decimal_le h

theorem length_body_le (hk : k < 0x80000000) : (route.title ++ stdToString k).length ≤ 18 := by
  have htitle : route.title.length = 8 := by cases route <;> decide
  have hnumber : (stdToString k).length ≤ 10 := length_stdToString_le (by omega)
  rw [List.length_append]
  omega

theorem neat_page (h : ShowsAt lib now later) (hk : k < 0x80000000) :
    ∀ header ∈ (route.page lib k now later).headers, Neat lib header := by
  have htype : Neat lib (.extension (ascii "Content-Type") (ascii "text/plain")) :=
    neat_extension (by decide) (by decide) (by decide) (by decide) (by decide)
  have hlength : Neat lib (.extension (ascii "Content-Length")
      (stdToString (route.title ++ stdToString k).length)) := by
    have hbody := @length_body_le route k hk
    have hshort : (stdToString (route.title ++ stdToString k).length).length ≤ 2 :=
      length_stdToString_le (by omega)
    have hline : ¬ crlf <:+: stdToString (route.title ++ stdToString k).length := fun hinside =>
      notMem_stdToString (c := 0x0D) (by decide) (by decide) _ (hinside.subset (by decide))
    apply neat_extension (by decide) (by decide) hline (by decide)
    rw [show (ascii "Content-Length").length = 14 from rfl]
    omega
  have hdate := h.date.neat.1
  have hnil : ∀ header ∈ ([] : List Header), Neat lib header := by simp
  cases route with
  | test1 =>
      simp only [Route.page, Route.headers, List.forall_mem_cons]
      exact ⟨htype, hdate, hlength, h.expires.neat.2.1, hnil⟩
  | test4 =>
      simp only [Route.page, Route.headers, List.forall_mem_cons]
      exact ⟨htype, hdate, h.expired.neat.2.1, hlength, hnil⟩
  | test5 =>
      simp only [Route.page, Route.headers, List.forall_mem_cons]
      exact ⟨htype, hdate, h.expired.neat.2.2, hlength, hnil⟩
  | test6 =>
      simp only [Route.page, Route.headers, List.forall_mem_cons]
      exact ⟨htype, hdate, h.old.neat.2.2, hlength, hnil⟩
  | test7 =>
      simp only [Route.page, Route.headers, List.forall_mem_cons]
      exact ⟨htype, hdate, hlength, hnil⟩

theorem length_headers_le {headers : List Header} (h : ∀ header ∈ headers, Neat lib header) :
    (headers.flatMap fun header => header.toString lib ++ crlf).length ≤ headers.length * 257 := by
  induction headers with
  | nil => exact Nat.zero_le _
  | cons header headers ih =>
      rw [List.forall_mem_cons] at h
      have hfirst := h.1.2
      have hrest := ih h.2
      rw [List.flatMap_cons, List.length_append, List.length_append, List.length_cons,
        show crlf.length = 2 from rfl]
      omega

/-- A response with a few neat headers. -/
theorem readable_of_neat {code : KnownCode} {headers : List Header} {body : Option Bytes}
    (hheaders : ∀ header ∈ headers, Neat lib header) (hfew : headers.length ≤ 4) (hbody : body ≠ some [])
    (hshort : (body.getD []).length < 256) :
    Readable lib ⟨.status ⟨.http10, .known code, none⟩, headers, body⟩ := by
  refine ⟨⟨code, none, rfl, rfl⟩, fun header hmem => (hheaders header hmem).1, hbody, ?_⟩
  have hline : (FirstLine.status ⟨.http10, .known code, none⟩).toString.length = 13 := by
    cases code <;> decide +kernel
  have hblock := length_headers_le hheaders
  have hmax : 4096 < maxString := by decide
  rw [Message.toString]
  simp only [List.length_append, hline, show crlf.length = 2 from rfl]
  omega

theorem readable_ofCode (code : KnownCode) : Readable lib (Message.ofCode code) :=
  readable_of_neat (by simp) (Nat.zero_le _) (by simp) (by decide)

/-- **Every page is read as it was made.** -/
theorem readable_page (h : ShowsAt lib now later) (hk : k < 0x80000000) :
    Readable lib (route.page lib k now later) := by
  have hbody := @length_body_le route k hk
  apply readable_of_neat (neat_page h hk)
  · cases route <;> simp [Route.page, Route.headers]
  · intro hnone
    have hempty := congrArg List.length (Option.some.inj hnone)
    have htitle : route.title.length = 8 := by cases route <;> decide
    rw [List.length_append, htitle, List.length_nil] at hempty
    omega
  · rw [Option.getD_some]
    omega

end Reading

/-! ## What the handler does -/

section Handled

variable {lib : DateLib} {now later : Int} {route : Route} {k : Nat} {request : Message} {uri : Bytes}

theorem find_eq_some_iff : Route.find uri = some route ↔ uri = route.path := by
  unfold Route.find Route.all
  constructor
  · intro h
    have hfound := List.find?_some h
    exact of_decide_eq_true hfound
  · rintro rfl
    cases route <;> decide

/-- When the proxy takes a response to expire whose headers are those of a page. -/
theorem expirationTime_page {r : Response} (hr : r.message = (route.page lib k now later).asRead) (asked : Int) :
    r.expirationTime asked = route.expiration now later := by
  unfold Response.expirationTime Response.headerDate
  rw [hr]
  cases route <;> rfl

/-- The answer to a URI of one of the routes. -/
theorem plan_route (huri : getUri request = .ok route.path) : plan request =
    if (request.getHeader (ascii "If-Modified-Since")).isSome ∧ route = .test5 then .ok (.empty .notModified)
    else .ok (.page route) := by
  have hpath : route.path = ascii "/test5" ↔ route = .test5 := by cases route <;> decide
  have hfind : Route.find route.path = some route := find_eq_some_iff.mpr rfl
  unfold plan
  simp only [huri, bind, Except.bind, hfind, hpath]
  split_ifs <;> rfl

theorem plan_notFound (huri : getUri request = .ok uri) (hnone : ∀ route : Route, uri ≠ route.path) :
    plan request = .ok (.empty .notFound) := by
  have hfind : Route.find uri = none := by
    rw [Option.eq_none_iff_forall_not_mem]
    intro route hroute
    exact hnone route (find_eq_some_iff.mp hroute)
  unfold plan
  simp only [huri, bind, Except.bind, hfind]
  rfl

theorem ShowsAt.at (h : ShowsAt lib now later) (time : Int) : ShowsAt (lib.at time) now later :=
  ⟨⟨h.1.1, h.1.2, h.1.3⟩, ⟨h.2.1, h.2.2, h.2.3⟩, ⟨h.3.1, h.3.2, h.3.3⟩, ⟨h.4.1, h.4.2, h.4.3⟩⟩

theorem page_at (time : Int) : route.page (lib.at time) k now later = route.page lib k now later := by
  cases route <;> rfl

end Handled

/-! ## Numbers -/

section Numbers

variable {lib : DateLib} {now later : Int} {route other : Route} {k : Nat}

theorem number_asRead (m : Message) : route.number m.asRead = route.number m := by
  obtain ⟨line | line, headers, _ | body⟩ := m <;> rfl

/-- A page has a number on its own route only. -/
theorem number_page_eq : other.number (route.page lib k now later) = if other = route then some k else none := by
  split_ifs with hsame
  · subst hsame
    exact number_page
  · have hother : ¬ other.title <+: route.title ++ stdToString k := by
      intro hbegins
      have hlength : other.title.length ≤ route.title.length := by cases other <;> cases route <;> decide
      have htitle := List.prefix_of_prefix_length_le hbegins (List.prefix_append ..) hlength
      revert htitle hsame
      cases other <;> cases route <;> decide
    unfold Route.number Route.page
    simp only [hother, and_false, if_false]

theorem number_of_code_ne {r : Response} (h : r.statusCode ≠ .known .ok) : route.number r.message = none := by
  have hcode : r.statusLine.code ≠ .known .ok := h
  unfold Route.number
  rcases hbody : r.message.body with _ | body
  · simp only [r.isStatus]
  · simp only [r.isStatus, hcode, false_and, if_false]

end Numbers

end ComputerNetworking.Web
