/-
# ComputerNetworking.Http.FirstLine -- request lines and status lines

The constructors of `Method`, `URI`, `HTTPVersion`, `StatusCode`, `RequestLine` and `StatusLine`. They
take their text apart with `find` and `substr` and never ask whether `find` found anything: a position
that is `npos` goes into the next one by arithmetic on `size_t`. What they throw comes from `substr`
and from `std::stoi`.
-/
import ComputerNetworking.Lib.CxxString

namespace ComputerNetworking.Http

open ComputerNetworking.Lib

/-- The exceptions of the library. -/
inductive Thrown where
  | std (e : StdError)
  /-- `std::runtime_error("Invalid message")`. -/
  | invalidMessage
  | headerParse (header : Bytes)
  | dateParse (date : Bytes)
  deriving DecidableEq

instance : MonadLift (Except StdError) (Except Thrown) where
  monadLift
    | .ok a => .ok a
    | .error e => .error (.std e)

/-! ## Methods, URIs, versions -/

/-- `Method`; `extension` is `MethodType::EXTENSION` with its text. -/
inductive Method where
  | get
  | head
  | post
  | extension (method : Bytes)
  deriving DecidableEq

/-- `Method::Method`. -/
def Method.parse (method : Bytes) : Method :=
  if method = ascii "GET" then get
  else if method = ascii "HEAD" then head
  else if method = ascii "POST" then post
  else extension method

/-- The variant of `URI`. -/
inductive UriPath where
  | absolute (scheme path : Bytes)
  | relative (path : Bytes)
  deriving DecidableEq

/-- `URI`. -/
structure Uri where
  uri : UriPath
  fragment : Option Bytes
  deriving DecidableEq

/-- `URI::URI`. -/
def Uri.parse (uri : Bytes) : Except Thrown Uri := do
  let octothorpe := findLastOf uri (0x23 : UInt8)
  let fragment ←
    if octothorpe ≠ npos then some <$> substrFrom uri (sizeAdd octothorpe 1) else pure none
  let pos := find uri (ascii ":") 0
  if pos ≠ npos then
    let scheme ← substr uri 0 pos
    let path ← substr uri (sizeAdd pos 1) (sizeSub (sizeSub octothorpe pos) 1)
    pure ⟨.absolute scheme path, fragment⟩
  else
    let path ← substr uri 0 octothorpe
    pure ⟨.relative path, fragment⟩

/-- `HTTPVersion`. -/
structure HTTPVersion where
  major : Int
  minor : Int
  deriving DecidableEq

/-- `HTTPVersion::HTTPVersion`. -/
def HTTPVersion.parse (version : Bytes) : Except Thrown HTTPVersion := do
  let slash := find version (ascii "/") 0
  let dot := find version (ascii ".") 0
  let major ← stoi (← substr version (sizeAdd slash 1) (sizeSub (sizeSub dot slash) 1))
  let minor ← stoi (← substrFrom version (sizeAdd dot 1))
  pure ⟨major, minor⟩

/-! ## Request lines -/

/-- `RequestLine`. -/
structure RequestLine where
  method : Method
  uri : Uri
  version : HTTPVersion
  deriving DecidableEq

/-- `RequestLine::RequestLine`. -/
def RequestLine.parse (line : Bytes) : Except Thrown RequestLine := do
  let firstSpace := find line (ascii " ") 0
  let secondSpace := find line (ascii " ") (sizeAdd firstSpace 1)
  let method ← substr line 0 firstSpace
  let uri ← Uri.parse
    (← substr line (sizeAdd firstSpace 1) (sizeSub (sizeSub secondSpace firstSpace) 1))
  let version ← HTTPVersion.parse (← substrFrom line (sizeAdd secondSpace 1))
  pure ⟨.parse method, uri, version⟩

/-! ## Status lines -/

/-- `StatusCodeEnum`, without `EXTENSION`. -/
inductive KnownCode where
  | ok
  | created
  | accepted
  | noContent
  | movedPermanently
  | movedTemporarily
  | notModified
  | badRequest
  | unauthorized
  | forbidden
  | notFound
  | internalServerError
  | notImplemented
  | badGateway
  | serviceUnavailable
  deriving DecidableEq

/-- The text of a known code. -/
def KnownCode.text : KnownCode → Bytes
  | ok => ascii "200"
  | created => ascii "201"
  | accepted => ascii "202"
  | noContent => ascii "204"
  | movedPermanently => ascii "301"
  | movedTemporarily => ascii "302"
  | notModified => ascii "304"
  | badRequest => ascii "400"
  | unauthorized => ascii "401"
  | forbidden => ascii "403"
  | notFound => ascii "404"
  | internalServerError => ascii "500"
  | notImplemented => ascii "501"
  | badGateway => ascii "502"
  | serviceUnavailable => ascii "503"

/-- The order in which `get_status_code` tries them. -/
def KnownCode.all : List KnownCode :=
  [ok, created, accepted, noContent, movedPermanently, movedTemporarily, notModified, badRequest,
    unauthorized, forbidden, notFound, internalServerError, notImplemented, badGateway,
    serviceUnavailable]

/-- `StatusCode`; `extension` is `StatusCodeEnum::EXTENSION` with its number. -/
inductive StatusCode where
  | known (code : KnownCode)
  | extension (code : Int)
  deriving DecidableEq

/-- `StatusCode::StatusCode(const std::string&)`. -/
def StatusCode.parse (code : Bytes) : Except Thrown StatusCode :=
  match KnownCode.all.find? fun known => code = known.text with
  | some k => .ok (known k)
  | none => do pure (extension (← stoi code))

/-- `StatusLine`. -/
structure StatusLine where
  version : HTTPVersion
  code : StatusCode
  reason : Option Bytes
  deriving DecidableEq

/-- `CRLF`. -/
def crlf : Bytes := ascii "\r\n"

/-- `StatusLine::StatusLine(const std::string&)`. -/
def StatusLine.parse (line : Bytes) : Except Thrown StatusLine := do
  let firstSpace := find line (ascii " ") 0
  let version ← HTTPVersion.parse (← substr line 0 firstSpace)
  let secondSpace := find line (ascii " ") (sizeAdd firstSpace 1)
  let code ← StatusCode.parse
    (← substr line (sizeAdd firstSpace 1) (sizeSub (sizeSub secondSpace firstSpace) 1))
  let crlf := find line crlf (sizeAdd secondSpace 1)
  let reason ←
    if sizeSub crlf secondSpace > 1 then
      some <$> substr line (sizeAdd secondSpace 1) (sizeSub (sizeSub crlf secondSpace) 1)
    else pure none
  pure ⟨version, code, reason⟩

/-! ## The first line of a message -/

/-- `std::variant<RequestLine, StatusLine>`. -/
inductive FirstLine where
  | request (line : RequestLine)
  | status (line : StatusLine)
  deriving DecidableEq

/-- The first line, as `Message::Message` decides which it is. -/
def FirstLine.parse (line : Bytes) : Except Thrown FirstLine :=
  if find line (ascii "HTTP") 0 = 0 then .status <$> StatusLine.parse line
  else .request <$> RequestLine.parse line

end ComputerNetworking.Http
