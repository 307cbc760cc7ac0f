/-
# ComputerNetworking.Proxy.Survival -- when the handler returns

The handler of `http_proxy.cpp` from its first `read` to its end, with everything in it that can throw, fail
an assertion or go on forever. In thread mode nothing catches what it throws, and `std::terminate` ends the
proxy. `handle_returns_iff` says for which client, cache and origin it returns.
-/
import ComputerNetworking.Http.Acceptance
import ComputerNetworking.Http.Client
import ComputerNetworking.Http.HeaderLine
import ComputerNetworking.Proxy.Handler
import ComputerNetworking.Proxy.RequestReading

namespace ComputerNetworking.Proxy

open ComputerNetworking.Lib ComputerNetworking.Http

/-! ## The handler -/

/-- Why the handler has not returned. -/
inductive Failure where
  | thrown (e : Thrown)
  /-- `std::length_error`. -/
  | lengthError
  /-- A failed `assert`. -/
  | assertion
  /-- A `dynamic_cast` that gives a null pointer. -/
  | badCast
  /-- The loop of a constructor still runs. -/
  | running
  deriving DecidableEq

instance : MonadLift (Except Thrown) (Except Failure) where
  monadLift
    | .ok a => .ok a
    | .error e => .error (.thrown e)

/-- How long a string can get with 47-bit addresses. -/
def maxString : Nat := 0x800000000000

/-- `append` throws where the string gets too long. -/
def checkLength (text : Bytes) : Except Failure Bytes :=
  if text.length < maxString then .ok text else .error .lengthError

/-- The reading loop. -/
def readAll (reads : List Read) : Except Failure Bytes :=
  match readRequest [] reads with
  | some requestStr => checkLength requestStr
  | none => .error .lengthError

/-- The loop of `Client::get`: here -1 ends the text. -/
def readResponse (responseStr : Bytes) : List Read → Bytes
  | [] => responseStr
  | .data [] :: _ => responseStr
  | .data (b :: bs) :: reads => readResponse (responseStr ++ b :: bs) reads
  | .failed :: _ => responseStr

/-- `Message(text)`, given `n` rounds. -/
def construct (lib : DateLib) (n : Nat) (text : Bytes) : Except Failure Message :=
  match constructing lib text n with
  | .inl _ => .error .running
  | .inr (.ok m) => .ok m
  | .inr (.error e) => .error (.thrown e)

/-- `get_uri()`. -/
def getUri (request : Message) : Except Failure Bytes :=
  match request.firstLine with
  | .request line => .ok line.uri.toString
  | .status _ => .error .assertion

/-- `get_host_and_path_from_uri`. -/
def getHostAndPathFromUri (uri : Bytes) : Except Thrown (Bytes × Bytes) := do
  let pos := find uri (ascii "://") 0
  let host ← if pos ≠ npos then substrFrom uri (sizeAdd pos 3) else pure uri
  let pos := find host (ascii "/") 0
  if pos ≠ npos then
    let path ← substrFrom host pos
    let host ← substr host 0 pos
    pure (host, path)
  else pure (host, ascii "/")

/-- The port behind the last colon of the host. -/
def getHostAndPort (host : Bytes) : Except Thrown (Bytes × Int) := do
  let pos := findLastOf host (0x3A : UInt8)
  if pos ≠ npos then
    let port ← stoi (← substrFrom host (sizeAdd pos 1))
    let host ← substr host 0 pos
    pure (host, port)
  else pure (host, 80)

/-- The additional headers, given what has been found in the cache. -/
def additionalHeaders (lib : DateLib) : Option Entry → Except Thrown (List Header)
  | none => pure []
  | some entry => do
      let header ← Header.parse lib (ascii "If-Modified-Since: " ++ lib.format entry.expiration)
      pure [header]

/-- The assertion of `get_status_code()`, and the casts. All headers are looked at here, since none that
comes from a text has a cast that fails. -/
def Response.ofMessage (m : Message) : Except Failure Response :=
  match h : m.firstLine with
  | .request _ => .error .assertion
  | .status line =>
      if hnamed : ∀ header ∈ m.headers, header.WellNamed then .ok ⟨m, line, h, hnamed⟩
      else .error .badCast

/-- An entry has been found and is not expired. -/
def Fresh (cache : Cache) (key : UInt64) (now : Int) : Prop :=
  ∃ entry ∈ cache.lookup key, now < entry.expiration

instance (cache : Cache) (key : UInt64) (now : Int) : Decidable (Fresh cache key now) := by
  unfold Fresh
  infer_instance

/-- What a run of the handler meets. -/
structure Incoming where
  /-- From the client. -/
  reads : List Read
  now : Int
  /-- What the other requests do to the proxy before the origin has answered. -/
  meanwhile : State → State
  /-- From the origin. -/
  answered : List Read
  layout : Layout

/-- What goes to an origin. -/
structure Outgoing where
  host : Bytes
  port : Int
  request : Message

section Handler

variable (lib : DateLib) (hash : Bytes → UInt64) (n : Nat) (s : State) (x : Incoming)

/-- The handler from the request to the origin on. -/
def fetch (uri host path : Bytes) (port : Int) : Except Failure (State × Option Outgoing) := do
  let found := s.cache.lookup (hash uri)
  let headers ← additionalHeaders lib found
  let outgoing ← clientRequest lib host path headers
  let responseStr ← checkLength (readResponse [] x.answered)
  let message ← construct lib n responseStr
  let response ← Response.ofMessage message
  let exchange : Exchange := ⟨uri, x.now, found.map Entry.expiration⟩
  match answer hash (x.meanwhile (request hash s uri x.now)) exchange response x.layout with
  | some done => pure (done, some ⟨host, port, outgoing⟩)
  -- `cache->at` throws
  | none => throw (.thrown (.std .outOfRange))

/-- The handler: the proxy afterwards, and what went to the origin. -/
def handle : Except Failure (State × Option Outgoing) := do
  let requestStr ← readAll x.reads
  let message ← construct lib n requestStr
  let uri ← getUri message
  let (host, path) ← getHostAndPathFromUri uri
  let (host, port) ← getHostAndPort host
  if Fresh s.cache (hash uri) x.now then pure (request hash s uri x.now, none)
  else fetch lib hash n s x uri host path port

end Handler

/-! ## The conditions -/

/-- The text comes in before a read fails: in pieces, up to the end of the stream or up to the first piece
behind which there is an empty line. -/
def Receives (text : Bytes) (reads : List Read) (result : Bytes) : Prop :=
  ∃ pieces rest, reads = pieces.map .data ++ rest ∧ [] ∉ pieces ∧ result = text ++ pieces.flatten ∧
    (∀ front, front <+: pieces → front ≠ [] → front ≠ pieces → ¬ EndsBlank (text ++ front.flatten)) ∧
    (rest = [] ∨ (∃ more, rest = .data [] :: more) ∨ pieces ≠ [] ∧ EndsBlank result)

/-- `'/'`. -/
def slash : UInt8 := 0x2F

/-- The part of a URI that is behind its scheme. -/
def behindScheme (uri : Bytes) : Bytes :=
  match firstOccurrence (ascii "://") uri with
  | some i => uri.drop (i + 3)
  | none => uri

/-- The host, with its port. -/
def hostOf (uri : Bytes) : Bytes := (behindScheme uri).takeWhile (· ≠ slash)

/-- The path. -/
def pathOf (uri : Bytes) : Bytes :=
  match (behindScheme uri).dropWhile (· ≠ slash) with
  | [] => ascii "/"
  | path => path

/-- If there is a colon in the host, there is a number behind the last one. -/
def NumericPort (uri : Bytes) : Prop :=
  ∀ host port, hostOf uri = host ++ Uri.colon :: port → Uri.colon ∉ port → ∃ k, stoi port = .ok k

/-- The origin's answer is accepted with a status line, and a 304 comes for a key that has an entry. -/
def Answered (lib : DateLib) (hash : Bytes → UInt64) (s : State) (x : Incoming) (uri : Bytes) : Prop :=
  (readResponse [] x.answered).length < maxString ∧
    ∃ line, Accepts lib (readResponse [] x.answered) (.status line) ∧
      (line.code = .known .notModified → hash uri ∈ (x.meanwhile (request hash s uri x.now)).cache)

/-- The request is received and accepted with a request line, its port is a number, and there is a fresh
entry or an answer. -/
def Survives (lib : DateLib) (hash : Bytes → UInt64) (s : State) (x : Incoming) : Prop :=
  ∃ text line, Receives [] x.reads text ∧ text.length < maxString ∧
    Accepts lib text (.request line) ∧ NumericPort line.uri.toString ∧
    (Fresh s.cache (hash line.uri.toString) x.now ∨ Answered lib hash s x line.uri.toString)

/-! ## Reading -/

section Receives

variable {text piece result : Bytes} {reads : List Read}

/-- At the end of the stream. -/
theorem receives_done (h : reads = [] ∨ ∃ more, reads = .data [] :: more) :
    Receives text reads result ↔ result = text := by
  constructor
  · rintro ⟨_ | ⟨piece, pieces⟩, rest, hreads, hne, rfl, -, -⟩
    · rw [List.flatten_nil, List.append_nil]
    · rcases h with rfl | ⟨more, rfl⟩
      · cases hreads
      · cases hreads
        exact absurd (List.mem_cons_self ..) hne
  · rintro rfl
    refine ⟨[], reads, rfl, List.not_mem_nil, (List.append_nil _).symm, ?_, h.imp_right .inl⟩
    intro front hfront hne
    exact absurd (List.prefix_nil.mp hfront) hne

theorem not_receives_failed : ¬ Receives text (.failed :: reads) result := by
  rintro ⟨_ | ⟨piece, pieces⟩, rest, hreads, -, -, -, rfl | ⟨more, rfl⟩ | ⟨hne, -⟩⟩
  · cases hreads
  · cases hreads
  · exact absurd rfl hne
  · cases hreads
  · cases hreads
  · cases hreads

/-- With a piece to come, the piece is the first one. -/
theorem receives_data (hpiece : piece ≠ []) :
    Receives text (.data piece :: reads) result ↔
      ∃ pieces rest, reads = pieces.map .data ++ rest ∧ [] ∉ pieces ∧
        result = text ++ piece ++ pieces.flatten ∧
        (∀ front, front <+: pieces → front ≠ pieces → ¬ EndsBlank (text ++ piece ++ front.flatten)) ∧
        (rest = [] ∨ (∃ more, rest = .data [] :: more) ∨ EndsBlank result) := by
  constructor
  · rintro ⟨_ | ⟨first, pieces⟩, rest, hreads, hne, rfl, hearly, hend⟩
    · rcases hend with rfl | ⟨more, rfl⟩ | ⟨hnone, -⟩
      · cases hreads
      · cases hreads
        exact absurd rfl hpiece
      · exact absurd rfl hnone
    · cases hreads
      refine ⟨pieces, rest, rfl, fun hmem => hne (List.mem_cons_of_mem _ hmem), by simp, ?_, ?_⟩
      · intro front hfront hproper
        have h := hearly (piece :: front) (List.cons_prefix_cons.mpr ⟨rfl, hfront⟩)
          (List.cons_ne_nil _ _) fun h => hproper (List.cons.inj h).2
        rwa [List.flatten_cons, ← List.append_assoc] at h
      · exact hend.imp_right (Or.imp_right And.right)
  · rintro ⟨pieces, rest, rfl, hne, rfl, hearly, hend⟩
    refine ⟨piece :: pieces, rest, rfl, ?_, by simp, ?_, ?_⟩
    · rw [List.mem_cons, not_or]
      exact ⟨hpiece.symm, hne⟩
    · intro front hfront hfrontne hproper
      rcases front with _ | ⟨c, front⟩
      · exact absurd rfl hfrontne
      · obtain ⟨rfl, hrest⟩ := List.cons_prefix_cons.mp hfront
        rw [List.flatten_cons, ← List.append_assoc]
        exact hearly front hrest fun h => hproper (by rw [h])
    · exact hend.imp_right (Or.imp_right fun h => ⟨List.cons_ne_nil _ _, h⟩)

/-- A piece that completes an empty line is the last one. -/
theorem receives_endsBlank (hpiece : piece ≠ []) (hblank : EndsBlank (text ++ piece)) :
    Receives text (.data piece :: reads) result ↔ result = text ++ piece := by
  rw [receives_data hpiece]
  constructor
  · rintro ⟨_ | ⟨next, pieces⟩, rest, -, -, rfl, hearly, -⟩
    · rw [List.flatten_nil, List.append_nil]
    · have hfirst := hearly [] List.nil_prefix (List.cons_ne_nil _ _).symm
      rw [List.flatten_nil, List.append_nil] at hfirst
      exact absurd hblank hfirst
  · rintro rfl
    refine ⟨[], reads, rfl, List.not_mem_nil, (List.append_nil _).symm, ?_, .inr (.inr hblank)⟩
    intro front hfront hproper
    exact absurd (List.prefix_nil.mp hfront) hproper

/-- Behind any other piece reading goes on. -/
theorem receives_not_endsBlank (hpiece : piece ≠ []) (hblank : ¬ EndsBlank (text ++ piece)) :
    Receives text (.data piece :: reads) result ↔ Receives (text ++ piece) reads result := by
  rw [receives_data hpiece]
  constructor
  · rintro ⟨pieces, rest, rfl, hne, rfl, hearly, hend⟩
    refine ⟨pieces, rest, rfl, hne, rfl, fun front hfront _ => hearly front hfront, ?_⟩
    refine hend.imp_right (Or.imp_right fun h => ⟨?_, h⟩)
    rintro rfl
    rw [List.flatten_nil, List.append_nil] at h
    exact hblank h
  · rintro ⟨pieces, rest, rfl, hne, rfl, hearly, hend⟩
    refine ⟨pieces, rest, rfl, hne, rfl, fun front hfront hproper => ?_, ?_⟩
    · by_cases hnil : front = []
      · rw [hnil, List.flatten_nil, List.append_nil]
        exact hblank
      · exact hearly front hfront hnil hproper
    · exact hend.imp_right (Or.imp_right And.right)

/-- **The loop ends with the text exactly if the text comes in.** -/
theorem readRequest_eq_some_iff : readRequest text reads = some result ↔ Receives text reads result := by
  induction reads generalizing text with
  | nil =>
      rw [receives_done (.inl rfl), readRequest, Option.some.injEq, eq_comm]
  | cons read reads ih =>
      rcases read with (_ | ⟨b, bs⟩) | _
      · rw [receives_done (.inr ⟨reads, rfl⟩), readRequest, Option.some.injEq, eq_comm]
      · by_cases hblank : EndsBlank (text ++ b :: bs)
        · rw [receives_endsBlank (List.cons_ne_nil b bs) hblank, readRequest, if_pos hblank,
            Option.some.injEq, eq_comm]
        · rw [receives_not_endsBlank (List.cons_ne_nil b bs) hblank, readRequest, if_neg hblank, ih]
      · refine iff_of_false ?_ not_receives_failed
        rw [readRequest]
        exact (Option.some_ne_none result).symm

end Receives

theorem readAll_eq_ok_iff {reads : List Read} {text : Bytes} :
    readAll reads = .ok text ↔ Receives [] reads text ∧ text.length < maxString := by
  rw [← readRequest_eq_some_iff]
  unfold readAll checkLength
  rcases readRequest [] reads with _ | requestStr
  · simp
  · by_cases hlen : requestStr.length < maxString
    · simp only [if_pos hlen, Except.ok.injEq, Option.some.injEq]
      refine ⟨fun h => ⟨h, h ▸ hlen⟩, And.left⟩
    · simp only [if_neg hlen, Option.some.injEq]
      refine iff_of_false (by simp) ?_
      rintro ⟨rfl, h⟩
      exact hlen h

/-! ## The URI -/

section Uri

variable {uri host : Bytes}

theorem behindScheme_suffix (uri : Bytes) : behindScheme uri <:+ uri := by
  unfold behindScheme
  split
  · exact List.drop_suffix ..
  · exact List.suffix_rfl

theorem all_ne_slash {s : Bytes} (h : slash ∉ s) : ∀ c ∈ s, decide (c ≠ slash) = true := by
  intro c hc
  rw [decide_eq_true_eq]
  rintro rfl
  exact h hc

/-- The host is in front of the first slash and the path begins with it. -/
theorem cutAtSlash_eq (hlen : (behindScheme uri).length < npos) :
    (do
      let pos := find (behindScheme uri) (ascii "/") 0
      if pos ≠ npos then
        let path ← substrFrom (behindScheme uri) pos
        let host ← substr (behindScheme uri) 0 pos
        pure (host, path)
      else pure (behindScheme uri, ascii "/") : Except Thrown (Bytes × Bytes)) =
      .ok (hostOf uri, pathOf uri) := by
  unfold hostOf pathOf
  rcases notMem_or_cut slash (behindScheme uri) with hnone | ⟨a, b, hcut, ha⟩
  · have hfind : find (behindScheme uri) (ascii "/") 0 = npos := find_byte_none hnone
    have hall := all_ne_slash hnone
    rw [List.takeWhile_eq_self_iff.mpr hall, List.dropWhile_eq_nil_iff.mpr hall]
    simp only [hfind, ne_eq, not_true_eq_false, if_false]
    rfl
  · rw [hcut] at hlen ⊢
    have hfind : find (a ++ slash :: b) (ascii "/") 0 = a.length := find_byte ha
    have hall := all_ne_slash ha
    rw [List.length_append] at hlen
    have hpath : substrFrom (a ++ slash :: b) a.length = .ok (slash :: b) := by
      rw [substrFrom, substr, if_pos (by simp), List.drop_left, List.take_of_length_le (by omega)]
    have hhost : substr (a ++ slash :: b) 0 a.length = .ok a := substr_left
    rw [List.takeWhile_append_of_pos hall, List.dropWhile_append_of_pos hall]
    simp only [hfind, ne_eq, Nat.ne_of_lt (show a.length < npos by omega), not_false_eq_true, if_true,
      hpath, hhost]
    simp [slash]
    rfl

/-- Nothing throws: the positions are inside the text. -/
theorem getHostAndPathFromUri_eq (hlen : uri.length < npos) :
    getHostAndPathFromUri uri = .ok (hostOf uri, pathOf uri) := by
  have hrange : npos < sizeRange := by decide
  have hrest := cutAtSlash_eq (Nat.lt_of_le_of_lt (behindScheme_suffix uri).length_le hlen)
  unfold getHostAndPathFromUri
  rcases hi : firstOccurrence (ascii "://") uri with _ | i
  · have hfind : find uri (ascii "://") 0 = npos := find_none (Nat.zero_le _) hi
    have hself : behindScheme uri = uri := by rw [behindScheme, hi]
    rw [hself] at hrest
    simp only [hfind, ne_eq, not_true_eq_false, if_false]
    exact hrest
  · have hle := (firstOccurrence_spec hi).1
    have hthree : (ascii "://").length = 3 := rfl
    have hfind : find uri (ascii "://") 0 = i := by
      rw [find_some (Nat.zero_le _) hi, Nat.zero_add]
    have hbehind : substrFrom uri (i + 3) = .ok (behindScheme uri) := by
      rw [substrFrom, substr, if_pos (by omega), behindScheme, hi, List.take_of_length_le]
      rw [List.length_drop]
      omega
    simp only [hfind, ne_eq, Nat.ne_of_lt (show i < npos by omega), not_false_eq_true, if_true]
    rw [sizeAdd_of_lt (by omega), hbehind]
    exact hrest

/-- A path is a piece of the URI, or a slash. -/
theorem pathOf_subset (uri : Bytes) : pathOf uri ⊆ uri ++ [slash] := by
  unfold pathOf
  split
  · exact List.subset_append_right ..
  · have hsuffix := (List.dropWhile_suffix (· ≠ slash)).trans (behindScheme_suffix uri)
    exact List.Subset.trans hsuffix.subset (List.subset_append_left ..)

theorem length_pathOf_le (uri : Bytes) : (pathOf uri).length ≤ uri.length + 1 := by
  unfold pathOf
  split
  · exact Nat.le_add_left ..
  · have hle := ((List.dropWhile_suffix (· ≠ slash)).trans (behindScheme_suffix uri)).length_le
    exact Nat.le_succ_of_le hle

theorem getHostAndPort_none (h : Uri.colon ∉ host) : getHostAndPort host = .ok (host, 80) := by
  have hlast : findLastOf host (0x3A : UInt8) = npos := findLastOf_none h
  unfold getHostAndPort
  simp only [hlast, ne_eq, not_true_eq_false, if_false]
  rfl

/-- What is behind the last colon is the port. -/
theorem getHostAndPort_colon {front port : Bytes} (hport : Uri.colon ∉ port)
    (hlen : (front ++ Uri.colon :: port).length < npos) :
    getHostAndPort (front ++ Uri.colon :: port) =
      (liftM (stoi port) : Except Thrown Int) >>= fun port => pure (front, port) := by
  have hlast : findLastOf (front ++ Uri.colon :: port) (0x3A : UInt8) = front.length :=
    findLastOf_byte hport
  rw [List.length_append, List.length_cons] at hlen
  have hrange : npos < sizeRange := by decide
  have hbehind : substrFrom (front ++ Uri.colon :: port) (front.length + 1) = .ok port :=
    substr_right (by omega)
  unfold getHostAndPort
  simp only [hlast, ne_eq, Nat.ne_of_lt (show front.length < npos by omega), not_false_eq_true, if_true]
  rw [sizeAdd_of_lt (by omega), hbehind, substr_left]
  rfl

/-- It has to be a number. -/
theorem exists_getHostAndPort_iff (hlen : host.length < npos) :
    (∃ result, getHostAndPort host = .ok result) ↔
      ∀ front port, host = front ++ Uri.colon :: port → Uri.colon ∉ port → ∃ k, stoi port = .ok k := by
  rcases notMem_or_cutLast Uri.colon host with hnone | ⟨front, port, rfl, hport⟩
  · refine iff_of_true ⟨(host, 80), getHostAndPort_none hnone⟩ ?_
    rintro front port rfl
    exact absurd (List.mem_append_right _ (List.mem_cons_self ..)) hnone
  · rw [getHostAndPort_colon hport hlen]
    constructor
    · rintro ⟨result, hresult⟩ front' port' hcut hport'
      obtain ⟨-, rfl⟩ := cutLast_inj hport hport' hcut
      rcases hk : stoi port with e | k
      · rw [hk] at hresult
        cases hresult
      · exact ⟨k, rfl⟩
    · intro h
      obtain ⟨k, hk⟩ := h front port rfl hport
      refine ⟨(front, k), ?_⟩
      rw [hk]
      rfl

end Uri

/-! ## Constructors -/

section Constructors

variable {lib : DateLib} {n : Nat} {text : Bytes} {m : Message}

theorem construct_eq_ok_iff :
    construct lib n text = .ok m ↔ constructing lib text n = .inr (.ok m) := by
  unfold construct
  split <;> simp_all

theorem constructs_of_construct (h : construct lib n text = .ok m) : Constructs lib text m :=
  ⟨n, construct_eq_ok_iff.mp h⟩

/-- More rounds change nothing about a message. -/
theorem construct_of_le {k : Nat} (h : construct lib n text = .ok m) (hle : n ≤ k) :
    construct lib k text = .ok m :=
  construct_eq_ok_iff.mpr (Loop.after_inr_of_le (construct_eq_ok_iff.mp h) hle)

theorem ofMessage_eq_ok_iff {r : Response} : Response.ofMessage m = .ok r ↔ r.message = m := by
  unfold Response.ofMessage
  constructor
  · intro h
    split at h
    · cases h
    · split_ifs at h
      cases h
      rfl
  · rintro rfl
    split
    · next line hline =>
        rw [r.isStatus] at hline
        cases hline
    · next line hline =>
        rw [r.isStatus] at hline
        cases hline
        rw [dif_pos r.wellNamed]

end Constructors

theorem checkLength_eq_ok_iff {text result : Bytes} :
    checkLength text = .ok result ↔ result = text ∧ text.length < maxString := by
  unfold checkLength
  split_ifs with hlen
  · rw [Except.ok.injEq, eq_comm]
    exact (and_iff_left hlen).symm
  · exact iff_of_false (by simp) fun h => hlen h.2

/-! ## From the request to the origin on -/

section Fetch

variable {lib : DateLib} {hash : Bytes → UInt64} {n : Nat} {s : State} {x : Incoming}
  {uri host path : Bytes} {port : Int}

/-- The additional header has its colon. -/
theorem exists_additionalHeaders (lib : DateLib) (found : Option Entry) :
    ∃ headers, additionalHeaders lib found = .ok headers := by
  rcases found with _ | entry
  · exact ⟨[], rfl⟩
  · have hcut : ascii "If-Modified-Since: " ++ lib.format entry.expiration =
        ascii "If-Modified-Since" ++ Uri.colon :: 0x20 :: lib.format entry.expiration := by
      simp [ascii, Uri.colon]
    have hsplit := @Header.split_colon (ascii "If-Modified-Since") (by decide) (by decide) 0x20
      (lib.format entry.expiration)
    refine ⟨[.extension (ascii "If-Modified-Since") ((lib.format entry.expiration).take npos)], ?_⟩
    show (Header.parse lib (ascii "If-Modified-Since: " ++ lib.format entry.expiration) >>= fun header =>
      pure [header]) = _
    rw [hcut, Header.parse_eq_split, hsplit]
    rfl

theorem answer_eq_none_iff {e : Exchange} {r : Response} {layout : Layout} :
    answer hash s e r layout = none ↔
      r.statusCode = .known .notModified ∧ hash e.uri ∉ s.cache := by
  by_cases hr : r.statusCode = .known .notModified
  · unfold answer
    simp only [hr, true_and]
    rw [← AList.lookup_eq_none]
    rcases s.cache.lookup (hash e.uri) with _ | entry <;> simp
  · rw [answer_new hr]
    exact iff_of_false (by simp) fun h => hr h.1

/-- The rest of the handler returns exactly if the answer becomes a response, and a 304 finds its entry. -/
theorem exists_fetch_iff (hspace : space ∉ path) (hlen : path.length + 13 < npos) :
    (∃ out, fetch lib hash n s x uri host path port = .ok out) ↔
      (readResponse [] x.answered).length < maxString ∧
        ∃ r : Response, construct lib n (readResponse [] x.answered) = .ok r.message ∧
          (r.statusCode = .known .notModified →
            hash uri ∈ (x.meanwhile (request hash s uri x.now)).cache) := by
  obtain ⟨headers, hheaders⟩ := exists_additionalHeaders lib (s.cache.lookup (hash uri))
  obtain ⟨outgoing, hrequest⟩ : ∃ outgoing, clientRequest lib host path headers = .ok outgoing := by
    obtain ⟨u, -, hrequest⟩ := clientRequest_eq lib host headers hspace hlen
    exact ⟨_, hrequest⟩
  constructor
  · rintro ⟨out, h⟩
    obtain ⟨_, -, h⟩ := bind_eq_ok.mp h
    obtain ⟨_, -, h⟩ := bind_eq_ok.mp h
    obtain ⟨_, htext, h⟩ := bind_eq_ok.mp h
    obtain ⟨rfl, hshort⟩ := checkLength_eq_ok_iff.mp htext
    obtain ⟨m, hm, h⟩ := bind_eq_ok.mp h
    obtain ⟨r, hr, h⟩ := bind_eq_ok.mp h
    refine ⟨hshort, r, by rw [ofMessage_eq_ok_iff.mp hr]; exact hm, fun hstatus => ?_⟩
    by_contra hnone
    have hthrows : answer hash (x.meanwhile (request hash s uri x.now))
        ⟨uri, x.now, (s.cache.lookup (hash uri)).map Entry.expiration⟩ r x.layout = none :=
      answer_eq_none_iff.mpr ⟨hstatus, hnone⟩
    simp only [hthrows] at h
    cases h
  · rintro ⟨hshort, r, hm, hstatus⟩
    have hsome : answer hash (x.meanwhile (request hash s uri x.now))
        ⟨uri, x.now, (s.cache.lookup (hash uri)).map Entry.expiration⟩ r x.layout ≠ none :=
      fun hnone => (answer_eq_none_iff.mp hnone).2 (hstatus (answer_eq_none_iff.mp hnone).1)
    obtain ⟨done, hdone⟩ := Option.ne_none_iff_exists'.mp hsome
    have hlifted : (liftM (additionalHeaders lib (s.cache.lookup (hash uri))) :
        Except Failure (List Header)) = .ok headers := by
      rw [hheaders]
      rfl
    refine ⟨(done, some ⟨host, port, outgoing⟩), ?_⟩
    unfold fetch
    apply bind_eq_ok.mpr ⟨headers, hlifted, ?_⟩
    rw [hrequest]
    apply bind_eq_ok.mpr ⟨_, rfl, ?_⟩
    apply bind_eq_ok.mpr ⟨_, checkLength_eq_ok_iff.mpr ⟨rfl, hshort⟩, ?_⟩
    apply bind_eq_ok.mpr ⟨_, hm, ?_⟩
    apply bind_eq_ok.mpr ⟨r, ofMessage_eq_ok_iff.mpr rfl, ?_⟩
    simp only [hdone]
    rfl

end Fetch

/-! ## The whole handler -/

section Handle

variable {lib : DateLib} {hash : Bytes → UInt64} {n : Nat} {s : State} {x : Incoming} {text : Bytes}

theorem getUri_eq_ok_iff {m : Message} {uri : Bytes} :
    getUri m = .ok uri ↔ ∃ line, m.firstLine = .request line ∧ uri = line.uri.toString := by
  unfold getUri
  rcases m.firstLine with line | line
  · simp [eq_comm]
  · simp

/-- The first line of an accepted text. -/
theorem exists_line_of_accepts {first : FirstLine} (h : Accepts lib text first) :
    ∃ line, line <+: text ∧ FirstLine.parse line = .ok first := by
  rcases h with ⟨line, headers, body, rfl, -, -, hparse, -⟩ | ⟨c, rest, rfl, -, hparse, -⟩
  · exact ⟨line, List.prefix_append .., hparse⟩
  · exact ⟨[c], ⟨crlf ++ rest, rfl⟩, hparse⟩

/-- There is no space in the URI of a request, and it is not much longer than the text. -/
theorem uri_of_accepts {line : RequestLine} (hshort : text.length < maxString)
    (h : Accepts lib text (.request line)) :
    space ∉ line.uri.toString ∧ line.uri.toString.length ≤ 2 * text.length := by
  obtain ⟨first, hbegins, hparse⟩ := exists_line_of_accepts h
  have hfirst := hbegins.length_le
  have hnpos : maxString < npos := by decide
  have hline : RequestLine.parse first = .ok line := by
    unfold FirstLine.parse at hparse
    split_ifs at hparse
    · obtain ⟨_, -, hstatus⟩ := map_eq_ok.mp hparse
      cases hstatus
    · obtain ⟨_, hline, hrequest⟩ := map_eq_ok.mp hparse
      cases hrequest
      exact hline
  obtain ⟨m, u, -, huri, -, -, hspace, -, hpiece⟩ := RequestLine.of_parse (by omega) hline
  have hlen := hpiece.length_le
  obtain ⟨uri, hparsed, hshape, -⟩ := Uri.parse_spec (s := u) (by omega)
  cases hparsed.symm.trans huri
  refine ⟨fun hmem => hspace (Uri.toString_subset hshape hmem), ?_⟩
  rcases hshape with hsame | ⟨a, b, hcut, -, htwice⟩
  · rw [hsame]
    omega
  · have hlength := congrArg List.length hcut
    rw [htwice]
    simp only [List.length_append, List.length_cons] at hlength ⊢
    omega

/-- What a text becomes is a message with an accepted first line. -/
theorem accepts_of_construct {m : Message} (hshort : text.length < maxString)
    (h : construct lib n text = .ok m) : Accepts lib text m.firstLine :=
  have hnpos : maxString < npos := by decide
  (constructs_iff lib ⟨text, Nat.lt_trans hshort hnpos⟩ m.firstLine).mp
    ⟨m, constructs_of_construct h, rfl⟩

theorem exists_construct_of_accepts {first : FirstLine} (hshort : text.length < maxString)
    (h : Accepts lib text first) : ∃ n m, construct lib n text = .ok m ∧ m.firstLine = first := by
  have hnpos : maxString < npos := by decide
  obtain ⟨m, ⟨n, hn⟩, hfirst⟩ :=
    (constructs_iff lib ⟨text, Nat.lt_trans hshort hnpos⟩ first).mpr h
  exact ⟨n, m, construct_eq_ok_iff.mpr hn, hfirst⟩

/-- The host of a URI of this length is looked at without an exception exactly if its port is a number. -/
theorem exists_port_iff {uri : Bytes} (hlen : uri.length < npos) :
    (∃ result, getHostAndPort (hostOf uri) = .ok result) ↔ NumericPort uri := by
  apply exists_getHostAndPort_iff
  have hle := ((List.takeWhile_prefix (· ≠ slash)).length_le).trans (behindScheme_suffix uri).length_le
  exact Nat.lt_of_le_of_lt hle hlen

/-- From the URI on. -/
theorem handle_eq {m : Message} {uri : Bytes} (htext : readAll x.reads = .ok text)
    (hm : construct lib n text = .ok m) (huri : getUri m = .ok uri) (hlen : uri.length < npos) :
    handle lib hash n s x = (liftM (getHostAndPort (hostOf uri)) : Except Failure (Bytes × Int)) >>=
      fun target => if Fresh s.cache (hash uri) x.now then pure (request hash s uri x.now, none)
        else fetch lib hash n s x uri target.1 (pathOf uri) target.2 := by
  unfold handle
  rw [htext]
  show construct lib n text >>= _ = _
  rw [hm]
  show getUri m >>= _ = _
  rw [huri]
  show (liftM (getHostAndPathFromUri uri) : Except Failure (Bytes × Bytes)) >>= _ = _
  rw [getHostAndPathFromUri_eq hlen]
  rfl

/-- What is needed of the URI to go on. -/
theorem uri_of_construct {text : Bytes} {m : Message} {line : RequestLine}
    (hshort : text.length < maxString) (hm : construct lib n text = .ok m)
    (hline : m.firstLine = .request line) :
    line.uri.toString.length < npos ∧ space ∉ pathOf line.uri.toString ∧
      (pathOf line.uri.toString).length + 13 < npos := by
  have hnpos : 2 * maxString + 14 < npos := by decide
  have haccepts := accepts_of_construct hshort hm
  rw [hline] at haccepts
  obtain ⟨hspace, hlen⟩ := uri_of_accepts hshort haccepts
  have hpath := length_pathOf_le line.uri.toString
  refine ⟨by omega, fun hmem => ?_, by omega⟩
  rcases List.mem_append.mp (pathOf_subset _ hmem) with hmem | hmem
  · exact hspace hmem
  · exact absurd (List.mem_singleton.mp hmem) (by decide)

/-- The handler in terms of its parts, for one number of rounds. -/
theorem exists_handle_iff :
    (∃ out, handle lib hash n s x = .ok out) ↔
      ∃ text m line, Receives [] x.reads text ∧ text.length < maxString ∧
        construct lib n text = .ok m ∧ m.firstLine = .request line ∧ NumericPort line.uri.toString ∧
        (Fresh s.cache (hash line.uri.toString) x.now ∨
          (readResponse [] x.answered).length < maxString ∧
            ∃ r : Response, construct lib n (readResponse [] x.answered) = .ok r.message ∧
              (r.statusCode = .known .notModified → hash line.uri.toString ∈
                (x.meanwhile (request hash s line.uri.toString x.now)).cache)) := by
  constructor
  · rintro ⟨out, h⟩
    obtain ⟨text, htext, hrest⟩ := bind_eq_ok.mp h
    obtain ⟨m, hm, hrest⟩ := bind_eq_ok.mp hrest
    obtain ⟨uri, huri, -⟩ := bind_eq_ok.mp hrest
    obtain ⟨hreceives, hshort⟩ := readAll_eq_ok_iff.mp htext
    obtain ⟨line, hline, hshown⟩ := getUri_eq_ok_iff.mp huri
    rw [hshown] at huri
    obtain ⟨hlen, hspace, hpath⟩ := uri_of_construct hshort hm hline
    rw [handle_eq htext hm huri hlen] at h
    obtain ⟨target, htarget, h⟩ := bind_eq_ok.mp h
    refine ⟨text, m, line, hreceives, hshort, hm, hline, ?_, ?_⟩
    · rw [← exists_port_iff hlen]
      rcases hport : getHostAndPort (hostOf line.uri.toString) with e | result
      · rw [hport] at htarget
        cases htarget
      · exact ⟨result, rfl⟩
    · split_ifs at h with hfresh
      · exact .inl hfresh
      · exact .inr ((exists_fetch_iff hspace hpath).mp ⟨out, h⟩)
  · rintro ⟨text, m, line, hreceives, hshort, hm, hline, hport, hcases⟩
    obtain ⟨hlen, hspace, hpath⟩ := uri_of_construct hshort hm hline
    obtain ⟨target, htarget⟩ := (exists_port_iff hlen).mpr hport
    rw [handle_eq (readAll_eq_ok_iff.mpr ⟨hreceives, hshort⟩) hm
      (getUri_eq_ok_iff.mpr ⟨line, hline, rfl⟩) hlen, htarget]
    show ∃ out, (if Fresh s.cache (hash line.uri.toString) x.now then _ else _) = _
    by_cases hfresh : Fresh s.cache (hash line.uri.toString) x.now
    · rw [if_pos hfresh]
      exact ⟨_, rfl⟩
    · rw [if_neg hfresh]
      exact (exists_fetch_iff hspace hpath).mpr (hcases.resolve_left hfresh)

end Handle

/-- **When the handler returns.** Whatever the client sends, the cache holds, the other requests do and the
origin answers: the handler returns exactly if the request comes in and is accepted with a request line, its
port is a number, and either there is a fresh entry or the answer is accepted with a status line and is no
304 for a key without an entry. -/
theorem handle_returns_iff (lib : DateLib) (hash : Bytes → UInt64) (s : State) (x : Incoming) :
    (∃ n out, handle lib hash n s x = .ok out) ↔ Survives lib hash s x := by
  constructor
  · rintro ⟨n, h⟩
    obtain ⟨text, m, line, hreceives, hshort, hm, hline, hport, hcases⟩ := exists_handle_iff.mp h
    have haccepts := accepts_of_construct hshort hm
    rw [hline] at haccepts
    refine ⟨text, line, hreceives, hshort, haccepts, hport, hcases.imp_right ?_⟩
    rintro ⟨hanswer, r, hr, hstatus⟩
    have hresponse := accepts_of_construct hanswer hr
    rw [r.isStatus] at hresponse
    exact ⟨hanswer, r.statusLine, hresponse, hstatus⟩
  · rintro ⟨text, line, hreceives, hshort, haccepts, hport, hcases⟩
    obtain ⟨n, m, hm, hline⟩ := exists_construct_of_accepts hshort haccepts
    rcases hcases with hfresh | ⟨hanswer, status, hresponse, hstatus⟩
    · exact ⟨n, exists_handle_iff.mpr
        ⟨text, m, line, hreceives, hshort, hm, hline, hport, .inl hfresh⟩⟩
    · obtain ⟨k, m', hm', hstatusLine⟩ := exists_construct_of_accepts hanswer hresponse
      obtain ⟨r, rfl⟩ := exists_response (construct_eq_ok_iff.mp hm') hstatusLine
      have hsame : r.statusLine = status := by
        have h := r.isStatus.symm.trans hstatusLine
        exact FirstLine.status.inj h
      refine ⟨max n k, exists_handle_iff.mpr ⟨text, m, line, hreceives, hshort,
        construct_of_le hm (Nat.le_max_left n k), hline, hport, .inr ⟨hanswer, r,
        construct_of_le hm' (Nat.le_max_right n k), fun hcode => ?_⟩⟩⟩
      rw [Response.statusCode, hsame] at hcode
      exact hstatus hcode

/-! ## Requests that end the proxy -/

/-- The handler on an empty cache, given what the reads return. -/
def alone (n : Nat) (reads answered : List Read) : Except Failure Unit :=
  (handle noDates (fun _ => 0) n ⟨∅, [], [], [], []⟩ ⟨reads, 0, id, answered, .same⟩).map fun _ => ()

/-- A connection that is reset, an empty request, a port that is no number, a status line in place of a
request line, and an origin that sends nothing or a 304. -/
theorem one_request_kills :
    (¬ ∃ n out, handle noDates (fun _ => 0) n ⟨∅, [], [], [], []⟩ ⟨[.failed], 0, id, [], .same⟩ =
      .ok out) ∧
    alone 3 [.failed] [] = .error .lengthError ∧
    alone 3 [] [] = .error (.thrown .invalidMessage) ∧
    alone 3 [.data (ascii "GET http://a:b/ HTTP/1.0\r\n\r\n")] [] =
      .error (.thrown (.std .invalidArgument)) ∧
    alone 3 [.data (ascii "HTTP/1.0 200 OK\r\n\r\n")] [] = .error .assertion ∧
    alone 3 [.data (ascii "GET http://a/ HTTP/1.0\r\n\r\n")] [] = .error (.thrown .invalidMessage) ∧
    alone 3 [.data (ascii "GET http://a/ HTTP/1.0\r\n\r\n")]
      [.data (ascii "HTTP/1.0 304 Not Modified\r\n\r\n")] = .error (.thrown (.std .outOfRange)) := by
  refine ⟨?_, ?_⟩
  · rintro ⟨n, out, h⟩
    cases h
  · decide +kernel

end ComputerNetworking.Proxy
