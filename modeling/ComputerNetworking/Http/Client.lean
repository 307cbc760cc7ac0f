/-
# ComputerNetworking.Http.Client -- the request of a client

`Client::get` prints a request line, has it parsed by the constructor of `RequestLine`, and adds headers to
it. A path without a space is parsed as it is, so nothing throws.
-/
import ComputerNetworking.Http.Print

namespace ComputerNetworking.Http

open ComputerNetworking.Lib

/-- `HTTPVersion::HTTP_1_0`. -/
def HTTPVersion.http10 : HTTPVersion := ⟨1, 0⟩

/-- `RequestLine::GET`. -/
def RequestLine.ofGet (uri : Bytes) : Except Thrown RequestLine :=
  RequestLine.parse (ascii "GET " ++ uri ++ ascii " " ++ HTTPVersion.http10.toString)

/-- `Message::GET`. -/
def Message.ofGet (path : Bytes) : Except Thrown Message := do
  let line ← RequestLine.ofGet path
  pure ⟨.request line, [], none⟩

/-- `add_header`. -/
def Message.addHeader (m : Message) (header : Header) : Message :=
  { m with headers := m.headers ++ [header] }

/-- The `request` of `Client::get`. -/
def clientRequest (lib : DateLib) (host relPath : Bytes) (additionalHeaders : List Header) :
    Except Thrown Message := do
  let request ← Message.ofGet relPath
  let request := request.addHeader (← Header.ofNameValue lib (ascii "Host") host)
  let request := request.addHeader (← Header.ofNameValue lib (ascii "Connection") (ascii "close"))
  pure (additionalHeaders.foldl Message.addHeader request)

theorem headers_foldl_addHeader (headers : List Header) (m : Message) :
    headers.foldl Message.addHeader m = { m with headers := m.headers ++ headers } := by
  induction headers generalizing m with
  | nil => simp
  | cons header headers ih => simp [ih, Message.addHeader]

section Get

variable {uri : Bytes}

/-- A text without a space is parsed as the URI of the line. -/
theorem RequestLine.ofGet_eq (hspace : space ∉ uri) (hlen : uri.length + 13 < npos) :
    ∃ u, Uri.parse uri = .ok u ∧ RequestLine.ofGet uri = .ok ⟨.get, u, .http10⟩ := by
  obtain ⟨u, hu, -⟩ := Uri.parse_spec (s := uri) (by omega)
  refine ⟨u, hu, ?_⟩
  have hversion : HTTPVersion.http10.toString.length = 8 := by decide
  have hline : ascii "GET " ++ uri ++ ascii " " ++ HTTPVersion.http10.toString =
      ascii "GET" ++ space :: (uri ++ space :: HTTPVersion.http10.toString) := by
    simp [ascii, space]
  have hlength : (ascii "GET" ++ space :: (uri ++ space :: HTTPVersion.http10.toString)).length =
      uri.length + 13 := by
    simp only [List.length_append, List.length_cons, hversion, show (ascii "GET").length = 3 from rfl]
    omega
  have hfits : HTTPVersion.http10.Fits := ⟨⟨by decide, by decide⟩, by decide, by decide⟩
  rw [RequestLine.ofGet, hline, parse_two (by decide) hspace (by omega), hu,
    HTTPVersion.parse_toString hfits (by decide)]
  rfl

/-- **The request is made.** -/
theorem clientRequest_eq (lib : DateLib) (host : Bytes) (additionalHeaders : List Header)
    (hspace : space ∉ uri) (hlen : uri.length + 13 < npos) :
    ∃ u, Uri.parse uri = .ok u ∧ clientRequest lib host uri additionalHeaders =
      .ok ⟨.request ⟨.get, u, .http10⟩,
        .extension (ascii "Host") host :: .extension (ascii "Connection") (ascii "close") ::
          additionalHeaders, none⟩ := by
  obtain ⟨u, hu, hline⟩ := RequestLine.ofGet_eq hspace hlen
  refine ⟨u, hu, ?_⟩
  have hhost : Header.ofNameValue lib (ascii "Host") host = .ok (.extension (ascii "Host") host) := rfl
  have hconnection : Header.ofNameValue lib (ascii "Connection") (ascii "close") =
      .ok (.extension (ascii "Connection") (ascii "close")) := rfl
  unfold clientRequest Message.ofGet
  rw [hline, hhost, hconnection]
  show Except.ok (additionalHeaders.foldl Message.addHeader _) = _
  rw [headers_foldl_addHeader]
  rfl

end Get

end ComputerNetworking.Http
