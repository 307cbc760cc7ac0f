/-
# ComputerNetworking.Proxy.Target -- where a request goes

What the handler takes from the text of a URI. The key is the text that `URI::to_string` prints, which is the
text the client sent unless the last hash is in front of the first colon. Host, port and path are found by
three searches, each over what the one before has left.
-/
import ComputerNetworking.Proxy.Survival

namespace ComputerNetworking.Proxy

open ComputerNetworking.Lib ComputerNetworking.Http
open Uri (colon hash)

/-! ## The text of a URI -/

/-- The last hash is in front of the first colon. -/
def HashFirst (uri : Bytes) : Prop := ∃ a b, uri = a ++ hash :: b ∧ Uri.FragmentFirst a b

/-- The request line that `RequestLine::GET` is to print. -/
def getLine (path : Bytes) : Bytes :=
  ascii "GET" ++ space :: (path ++ space :: ascii "HTTP/1.0")

section Text

variable {method uri version path : Bytes} {line : RequestLine} {m : Message}

/-- The URI of a request line is what is between the spaces. -/
theorem parse_uri_of_line (hmethod : space ∉ method) (huri : space ∉ uri)
    (hlen : (method ++ space :: (uri ++ space :: version)).length < npos)
    (h : RequestLine.parse (method ++ space :: (uri ++ space :: version)) = .ok line) :
    Uri.parse uri = .ok line.uri := by
  rw [RequestLine.parse_two hmethod huri hlen] at h
  obtain ⟨u, hu, h⟩ := bind_eq_ok.mp h
  obtain ⟨v, -, h⟩ := bind_eq_ok.mp h
  cases h
  exact hu

/-- The key of a request is the text the client sent. -/
theorem getUri_eq_iff (hmethod : space ∉ method) (huri : space ∉ uri)
    (hlen : (method ++ space :: (uri ++ space :: version)).length < npos)
    (h : RequestLine.parse (method ++ space :: (uri ++ space :: version)) = .ok line)
    (hfirst : m.firstLine = .request line) : getUri m = .ok uri ↔ ¬ HashFirst uri := by
  have hpart : uri.length < npos := by
    simp only [List.length_append, List.length_cons] at hlen
    omega
  obtain ⟨u, hu, hkept⟩ := Uri.toString_parse_iff hpart
  cases hu.symm.trans (parse_uri_of_line hmethod huri hlen h)
  rw [getUri_eq_ok_iff, hfirst]
  constructor
  · rintro ⟨line', hline, hshown⟩
    cases hline
    exact hkept.mp hshown.symm
  · intro hnot
    exact ⟨line, rfl, (hkept.mpr hnot).symm⟩

/-- The request line to the origin has the path in it. -/
theorem exists_ofGet_iff (hspace : space ∉ path) (hlen : (getLine path).length < npos) :
    ∃ line, RequestLine.ofGet path = .ok line ∧ (line.toString = getLine path ↔ ¬ HashFirst path) := by
  have hlength : (getLine path).length = path.length + 13 := by
    simp only [getLine, List.length_append, List.length_cons,
      show (ascii "GET").length = 3 from rfl, show (ascii "HTTP/1.0").length = 8 from rfl]
    omega
  obtain ⟨u, hu, hline⟩ := RequestLine.ofGet_eq hspace (by omega)
  obtain ⟨u', hu', hkept⟩ := Uri.toString_parse_iff (s := path) (by omega)
  cases hu.symm.trans hu'
  refine ⟨⟨.get, u, .http10⟩, hline, ?_⟩
  have hversion : HTTPVersion.http10.toString = ascii "HTTP/1.0" := by decide
  have hmethod : Method.get.toString = ascii "GET" := rfl
  rw [RequestLine.toString_eq, hversion, hmethod, getLine, List.append_cancel_left_eq, List.cons.injEq,
    List.append_cancel_right_eq]
  exact (and_iff_right rfl).trans hkept

end Text

/-- **A URI is printed as it was if and only if its last hash is not in front of its first colon.** The same
holds for the key of a request with this text and for the path of the request line to the origin. -/
theorem uri_kept_iff (text : CxxString) :
    (∃ u, Uri.parse text.val = .ok u ∧ (u.toString = text.val ↔ ¬ HashFirst text.val)) ∧
    (∀ (method uri version : Bytes) (line : RequestLine) (m : Message),
      text.val = method ++ space :: (uri ++ space :: version) → space ∉ method → space ∉ uri →
      RequestLine.parse text.val = .ok line → m.firstLine = .request line →
      (getUri m = .ok uri ↔ ¬ HashFirst uri)) ∧
    ∀ path : Bytes, text.val = getLine path → space ∉ path →
      ∃ line, RequestLine.ofGet path = .ok line ∧ (line.toString = text.val ↔ ¬ HashFirst path) := by
  obtain ⟨text, hlen⟩ := text
  refine ⟨Uri.toString_parse_iff hlen, ?_, ?_⟩
  · rintro method uri version line m rfl hmethod huri hline hfirst
    exact getUri_eq_iff hmethod huri hlen hline hfirst
  · rintro path rfl hspace
    exact exists_ofGet_iff hspace hlen

/-- With a colon in front of the last hash. -/
theorem not_hashFirst {a b : Bytes} (ha : colon ∈ a) (hb : hash ∉ b) : ¬ HashFirst (a ++ hash :: b) := by
  rintro ⟨a', b', hcut, hhash, hcolon, -⟩
  rw [(cutLast_inj hhash hb hcut.symm).1] at hcolon
  exact hcolon ha

/-- A colon in the fragment and one in front of it: in a URI, in the key of a request, and one in front of it
in the path to the origin. -/
theorem uri_kept_colons :
    (∃ u, Uri.parse (ascii "http://a/#x:y") = .ok u ∧ u.toString = ascii "http://a/#x:y") ∧
    (∃ line, RequestLine.parse (ascii "GET http://a/#x:y HTTP/1.0") = .ok line ∧
      getUri ⟨.request line, [], none⟩ = .ok (ascii "http://a/#x:y")) ∧
    ∃ line, RequestLine.ofGet (ascii "/a:b#x") = .ok line ∧
      line.toString = ascii "GET /a:b#x HTTP/1.0" := by
  have hkept : ¬ HashFirst (ascii "http://a/#x:y") :=
    not_hashFirst (a := ascii "http://a/") (b := ascii "x:y") (by decide) (by decide)
  refine ⟨?_, ?_, ?_⟩
  · obtain ⟨u, hu, hsame⟩ := (uri_kept_iff ⟨ascii "http://a/#x:y", by decide⟩).1
    exact ⟨u, hu, hsame.mpr hkept⟩
  · have hline : RequestLine.parse (ascii "GET http://a/#x:y HTTP/1.0") =
        .ok ⟨.get, ⟨.absolute (ascii "http") (ascii "//a/"), some (ascii "x:y")⟩, .http10⟩ := by
      decide +kernel
    exact ⟨_, hline, ((uri_kept_iff ⟨ascii "GET http://a/#x:y HTTP/1.0", by decide⟩).2.1 (ascii "GET")
      (ascii "http://a/#x:y") (ascii "HTTP/1.0") _ ⟨.request _, [], none⟩ rfl (by decide) (by decide) hline
      rfl).mpr hkept⟩
  · obtain ⟨line, hline, hsame⟩ := (uri_kept_iff ⟨ascii "GET /a:b#x HTTP/1.0", by decide⟩).2.2 (ascii "/a:b#x")
      rfl (by decide)
    exact ⟨line, hline,
      hsame.mpr (not_hashFirst (a := ascii "/a:b") (b := ascii "x") (by decide) (by decide))⟩

/-- Behind `#x` in front of the first colon everything is printed twice: in a URI, in the key of a request
and in the path to the origin. -/
theorem uri_printed_twice :
    (∃ u, Uri.parse (ascii "a#b:c") = .ok u ∧ u.toString = ascii "a#b:c#b:c" ∧
      u.toString ≠ ascii "a#b:c") ∧
    (∃ line, RequestLine.parse (ascii "GET a#b:c HTTP/1.0") = .ok line ∧
      getUri ⟨.request line, [], none⟩ = .ok (ascii "a#b:c#b:c")) ∧
    pathOf (ascii "http://a/#x:y") = ascii "/#x:y" ∧
    ∃ line, RequestLine.ofGet (ascii "/#x:y") = .ok line ∧
      line.toString = ascii "GET /#x:y#x:y HTTP/1.0" := by
  refine ⟨⟨⟨.absolute (ascii "a#b") (ascii "c"), some (ascii "b:c")⟩, ?_⟩,
    ⟨⟨.get, ⟨.absolute (ascii "a#b") (ascii "c"), some (ascii "b:c")⟩, .http10⟩, ?_⟩, ?_,
    ⟨⟨.get, ⟨.absolute (ascii "/#x") (ascii "y"), some (ascii "x:y")⟩, .http10⟩, ?_⟩⟩
  all_goals decide +kernel

/-! ## Host, port and path -/

/-- What the handler takes from the URI: the host, the port and the path. -/
def target (uri : Bytes) : Except Thrown (Bytes × Int × Bytes) := do
  let (host, path) ← getHostAndPathFromUri uri
  let (host, port) ← getHostAndPort host
  pure (host, port, path)

/-- The handler goes where `target` says. -/
theorem handle_eq_target {lib : DateLib} {hashUri : Bytes → UInt64} {n : Nat} {s : State} {x : Incoming}
    {text uri : Bytes} {m : Message} (htext : readAll x.reads = .ok text)
    (hm : construct lib n text = .ok m) (huri : getUri m = .ok uri) (hlen : uri.length < npos) :
    handle lib hashUri n s x = (liftM (target uri) : Except Failure (Bytes × Int × Bytes)) >>=
      fun (host, port, path) => if Fresh s.cache (hashUri uri) x.now then
        pure (request hashUri s uri x.now, none)
      else fetch lib hashUri n s x uri host path port := by
  rw [handle_eq htext hm huri hlen, target, getHostAndPathFromUri_eq hlen]
  show _ = (liftM (getHostAndPort (hostOf uri) >>= fun result =>
    pure (result.1, result.2, pathOf uri)) : Except Failure (Bytes × Int × Bytes)) >>= _
  rcases getHostAndPort (hostOf uri) with e | result
  · rfl
  · rfl

/-- The text of a number in decimal digits. -/
def IsDecimal (digits : Bytes) : Prop :=
  digits ≠ [] ∧ (∀ c ∈ digits, isDigit c = true) ∧ FitsInt (digitsValue digits)

/-- The parts of `scheme://host[:port]path`. -/
structure Location where
  scheme : Bytes
  host : Bytes
  port : Option Bytes
  path : Bytes
  colon_scheme : colon ∉ scheme
  slash_host : slash ∉ host
  colon_host : colon ∉ host
  port_decimal : ∀ digits ∈ port, IsDecimal digits
  path_slash : path = [] ∨ [slash] <+: path

namespace Location

variable (l : Location)

/-- The host with the port. -/
def authority : Bytes :=
  match l.port with
  | none => l.host
  | some digits => l.host ++ colon :: digits

/-- The text. -/
def uri : Bytes := l.scheme ++ (ascii "://" ++ (l.authority ++ l.path))

/-- The number of the port. -/
def number : Int :=
  match l.port with
  | none => 80
  | some digits => digitsValue digits

/-- The path to ask for. -/
def shownPath : Bytes := if l.path = [] then ascii "/" else l.path

theorem slash_authority : slash ∉ l.authority := by
  unfold authority
  split
  · exact l.slash_host
  · next digits hport =>
      obtain ⟨-, hdigits, -⟩ := l.port_decimal digits hport
      rw [List.mem_append, List.mem_cons, not_or, not_or]
      exact ⟨l.slash_host, by decide, fun hmem => absurd (hdigits slash hmem) (by decide)⟩

/-- The first `://` is the one behind the scheme. -/
theorem behindScheme_uri : behindScheme l.uri = l.authority ++ l.path := by
  have hfirst : firstOccurrence (ascii "://") l.uri = some l.scheme.length :=
    show firstOccurrence (colon :: ascii "//") (l.scheme ++ (colon :: ascii "//" ++ _)) = _ from
      firstOccurrence_cons l.colon_scheme
  have hthree : l.uri = l.scheme ++ ascii "://" ++ (l.authority ++ l.path) :=
    (List.append_assoc ..).symm
  have hlength : (l.scheme ++ ascii "://").length = l.scheme.length + 3 := List.length_append
  rw [behindScheme, hfirst]
  show l.uri.drop (l.scheme.length + 3) = _
  rw [hthree, ← hlength, List.drop_left]

/-- The first slash behind it is the first byte of the path. -/
theorem hostOf_uri : hostOf l.uri = l.authority ∧ pathOf l.uri = l.shownPath := by
  have hall := all_ne_slash l.slash_authority
  unfold hostOf pathOf shownPath
  rw [behindScheme_uri, List.takeWhile_append_of_pos hall, List.dropWhile_append_of_pos hall]
  rcases l.path_slash with hpath | ⟨rest, hpath⟩
  · rw [hpath, if_pos rfl]
    exact ⟨List.append_nil _, rfl⟩
  · rw [← hpath, if_neg (by simp)]
    simp

/-- The last colon of what is in front of the path is the one of the port. -/
theorem getHostAndPort_authority (hlen : l.authority.length < npos) :
    getHostAndPort l.authority = .ok (l.host, l.number) := by
  unfold authority number at *
  rcases hport : l.port with _ | digits
  · exact getHostAndPort_none l.colon_host
  · obtain ⟨hne, hdigits, hfits⟩ := l.port_decimal digits hport
    rw [hport] at hlen
    have hcolon : colon ∉ digits := fun hmem => absurd (hdigits colon hmem) (by decide)
    show getHostAndPort (l.host ++ colon :: digits) = _
    rw [getHostAndPort_colon hcolon hlen, stoi_digits hne hdigits hfits]
    rfl

end Location

/-- **Target extraction.** Whatever delimiters are in the path: from `scheme://host[:port]path` the handler
gets the host, the port (80 without one) and the path (a slash without one). -/
theorem target_uri (l : Location) (hlen : l.uri.length < npos) :
    target l.uri = .ok (l.host, l.number, l.shownPath) := by
  obtain ⟨hhost, hpath⟩ := l.hostOf_uri
  have hshort : l.authority.length < npos := by
    simp only [Location.uri, List.length_append] at hlen
    omega
  rw [target, getHostAndPathFromUri_eq hlen, hhost, hpath]
  show (getHostAndPort l.authority >>= fun result => pure (result.1, result.2, l.shownPath)) = _
  rw [l.getHostAndPort_authority hshort]
  rfl

/-- All delimiters again in the path. -/
theorem target_delimiters :
    target (ascii "http://a.b:8080/c:1/d://e//") = .ok (ascii "a.b", 8080, ascii "/c:1/d://e//") :=
  target_uri
    { scheme := ascii "http"
      host := ascii "a.b"
      port := some (ascii "8080")
      path := ascii "/c:1/d://e//"
      colon_scheme := by decide
      slash_host := by decide
      colon_host := by decide
      port_decimal := by
        rintro digits ⟨⟩
        exact ⟨by decide, List.all_eq_true.mp rfl, by decide, by decide⟩
      path_slash := .inr ⟨ascii "c:1/d://e//", rfl⟩ }
    (by decide)

end ComputerNetworking.Proxy
