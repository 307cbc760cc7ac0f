/-
# ComputerNetworking.Web.ThroughProxy -- clients, the proxy and the test server

The programs of MP4 together. Any number of clients send what they like to the proxy, and the proxy asks the
test server, or other origins, about which nothing is known. Every text that goes from one program to another
comes in as some segments, and all of it comes in. The requests are handled in threads, so their steps are
interleaved: a handler of the proxy can lose time between looking at the clock and looking into the cache, and
one of the server between reading a counter and writing it. The clocks of the two need not agree, or go
forward. What a handler does to the cache at one place in its text is one step.

Two logs are added: the pages that the server has made, and the requests that the proxy has got.
-/
import Mathlib.Data.List.Perm.Basic
import ComputerNetworking.Proxy.CrossUri
import ComputerNetworking.Proxy.Discipline
import ComputerNetworking.Web.Origin

namespace ComputerNetworking.Web

open ComputerNetworking.Lib ComputerNetworking.Http ComputerNetworking.Proxy
open Uri (colon)

/-! ## Where requests go -/

/-- Where the test server is. -/
structure Site where
  host : Bytes
  port : Int
  deriving DecidableEq

/-- The path of a URI that leads to the test server. -/
def Site.path (site : Site) (uri : Bytes) : Option Bytes :=
  match target uri with
  | .ok (host, port, path) => if host = site.host ∧ port = site.port then some path else none
  | .error _ => none

/-- What `get_uri` returns at the test server. -/
def Site.uri (site : Site) (uri : Bytes) : Option Bytes :=
  (site.path uri).bind fun path => ((Uri.parse path).toOption).map Uri.toString

/-- The route that is found there. -/
def Site.route (site : Site) (uri : Bytes) : Option Route := (site.uri uri).bind Route.find

/-- The additional headers, given the date. -/
def ifModifiedSince (lib : DateLib) : Option Int → Except Thrown (List Header)
  | none => pure []
  | some date => do
      let header ← Header.parse lib (ascii "If-Modified-Since: " ++ lib.format date)
      pure [header]

/-- What the proxy sends for a request that waits. -/
def outgoing (lib : DateLib) (x : Exchange) : Except Thrown Outgoing := do
  let (host, port, path) ← target x.uri
  let headers ← ifModifiedSince lib x.ifModifiedSince
  let request ← clientRequest lib host path headers
  pure ⟨host, port, request⟩

/-- The beginning of the proxy's handler. -/
def receive (lib : DateLib) (n : Nat) (reads : List Read) : Except Failure Bytes := do
  let requestStr ← readAll reads
  let request ← construct lib n requestStr
  getUri request

/-! ## The system -/

/-- A request that the proxy has got, and what its clock has shown then. -/
structure Arrival where
  uri : Bytes
  now : Int
  deriving DecidableEq

/-- How far the test server is with a request. -/
inductive Progress where
  | unread
  /-- The counter of the route has been read, and not written yet. -/
  | counting (route : Route) (currentCount : Nat)
  | done (message : Message)

namespace Progress

/-- Where the counter is read. -/
def ofPlan (counts : Counts) : Plan → Progress
  | .page route => counting route (counts route)
  | .empty code => done (.ofCode code)

def isUnread : Progress → Bool
  | unread => true
  | _ => false

/-- The route whose counter has been read. -/
def counted : Progress → Option (Route × Nat)
  | counting route currentCount => some (route, currentCount)
  | _ => none

def message : Progress → Option Message
  | done message => some message
  | _ => none

end Progress

/-- A page that the test server has made. -/
structure Made where
  route : Route
  number : Nat
  now : Int
  later : Int

/-- The page itself. -/
def Made.message (lib : DateLib) (page : Made) : Message :=
  page.route.page lib page.number page.now page.later

structure System where
  proxy : State
  counts : Counts
  /-- The requests that have not been looked up yet. -/
  arrived : List Arrival
  /-- For each request that waits, how far the test server is with it. -/
  progress : List Progress
  made : List Made
  came : List Arrival

inductive Move where
  /-- A client's request comes in, and the proxy looks at the clock. -/
  | ask (reads : List Read) (now : Int)
  /-- The `i`-th of the requests that have come in is looked up. -/
  | look (i : Nat)
  /-- The `i`-th of the waiting requests comes in at the test server. -/
  | accept (i : Nat) (segments : List Segment) (now : Int)
  /-- The test server counts the page, and makes it; what it prints may be the times of a later moment. -/
  | finish (i : Nat) (now later : Int)
  /-- The answer comes in. -/
  | relay (i : Nat) (segments : List Segment) (now : Int) (layout : Layout)
  /-- Another origin answers the `i`-th of the waiting requests. -/
  | elsewhere (i : Nat) (response : Response) (layout : Layout)

section Step

variable (lib : DateLib) (hash : Bytes → UInt64) (site : Site) (n : Nat)

/-- One move; `none` where it cannot be made, or ends one of the programs. -/
def move (s : System) : Move → Option System
  | .ask reads now => do
      let uri ← (receive (lib.at now) n reads).toOption
      let _ ← (target uri).toOption
      some { s with
        arrived := s.arrived ++ [⟨uri, now⟩]
        came := s.came ++ [⟨uri, now⟩] }
  | .look i => do
      let x ← s.arrived[i]?
      some { s with
        proxy := request hash s.proxy x.uri x.now
        arrived := s.arrived.eraseIdx i
        progress := if Fresh s.proxy.cache (hash x.uri) x.now then s.progress else s.progress ++ [.unread] }
  | .accept i segments now => do
      let x ← s.proxy.waiting[i]?
      let out ← (outgoing lib x).toOption
      if out.host = site.host ∧ out.port = site.port ∧ s.progress[i]?.any Progress.isUnread ∧
          stream segments = out.request.toString lib then
        let plan ← (accept (lib.at now) n (segments.map fun segment => .data segment.bytes)).toOption
        some { s with progress := s.progress.set i (.ofPlan s.counts plan) }
      else none
  | .finish i now later => do
      let (route, currentCount) ← s.progress[i]?.bind Progress.counted
      let message ← (route.respond (lib.at now) currentCount now later).toOption
      some { s with
        counts := Function.update s.counts route (currentCount + 1)
        progress := s.progress.set i (.done message)
        made := s.made ++ [⟨route, currentCount, now, later⟩] }
  | .relay i segments now layout => do
      let message ← s.progress[i]?.bind Progress.message
      if stream segments = message.toString lib then
        let reads := segments.map fun segment => Read.data segment.bytes
        let responseStr ← (checkLength (readResponse [] reads)).toOption
        let message ← (construct (lib.at now) n responseStr).toOption
        let response ← (Response.ofMessage message).toOption
        let proxy ← step hash s.proxy (.answer i response layout)
        some { s with proxy, progress := s.progress.eraseIdx i }
      else none
  | .elsewhere i response layout => do
      let x ← s.proxy.waiting[i]?
      if site.path x.uri = none then
        let proxy ← step hash s.proxy (.answer i response layout)
        some { s with proxy, progress := s.progress.eraseIdx i }
      else none

def System.start : System := ⟨⟨∅, [], [], [], []⟩, fun _ => 0, [], [], [], []⟩

/-- The system, with nothing in the cache and no page made. -/
def web : Machine System Move where
  init s := s = System.start
  step := move lib hash site n

/-! ## What is assumed of a move -/

/-- The C library can print the times, and the counters do not overflow. -/
def Printable (s : System) : Move → Prop
  | .ask _ now => Shows lib now
  | .finish i now later =>
      ShowsAt lib now later ∧ ∀ count ∈ s.progress[i]?.bind Progress.counted, count.2 < 0x7FFFFFFF
  | _ => True

/-- A request does not collide with one before. -/
def Distinct (s : System) : Move → Prop
  | .look i => ∀ x ∈ s.arrived[i]?, NoCollision hash s.proxy (.request x.uri x.now)
  | _ => True

/-- No two handlers have read the same counter and not written it yet. -/
def System.Exclusive (s : System) : Prop := ((s.progress.filterMap Progress.counted).map Prod.fst).Nodup

/-- The proxy has got the page. -/
def Made.CameIn (s : System) (page : Made) : Prop :=
  ∃ answer ∈ s.proxy.received, answer.2.message = (page.message lib).asRead

/-- When a request is looked up, no page that has come in and no request bears a later time than the proxy's
clock has shown for it. -/
def Punctual (s : System) : Move → Prop
  | .look i => ∀ x ∈ s.arrived[i]?,
      (∀ page ∈ s.made, page.CameIn lib s → page.now ≤ x.now ∧ page.later ≤ x.now) ∧ ∀ y ∈ s.came, y.now ≤ x.now
  | _ => True

instance (d : Int) : Decidable (Shows lib d) :=
  decidable_of_iff (lib.parse (lib.format d) = some d ∧ ¬ crlf <:+: lib.format d ∧ (lib.format d).length < 128)
    ⟨fun h => ⟨h.1, h.2.1, h.2.2⟩, fun h => ⟨h.again, h.line, h.short⟩⟩

instance (now later : Int) : Decidable (ShowsAt lib now later) :=
  decidable_of_iff (Shows lib now ∧ Shows lib (later + 60) ∧ Shows lib (later - 10) ∧
      Shows lib (later - 60 * 60 * 24 * 30))
    ⟨fun h => ⟨h.1, h.2.1, h.2.2.1, h.2.2.2⟩, fun h => ⟨h.date, h.expires, h.expired, h.old⟩⟩

instance (s : System) (e : Move) : Decidable (Printable lib s e) := by
  cases e <;> unfold Printable <;> infer_instance

instance (s : System) (e : Move) : Decidable (Distinct hash s e) := by
  cases e <;> unfold Distinct <;> infer_instance

instance (s : System) : Decidable s.Exclusive := by
  unfold System.Exclusive
  infer_instance

instance (s : System) (page : Made) : Decidable (page.CameIn lib s) := by
  unfold Made.CameIn
  infer_instance

instance (s : System) (e : Move) : Decidable (Punctual lib s e) := by
  cases e <;> unfold Punctual <;> infer_instance

end Step

/-! ## What a move does -/

theorem toOption_eq_some_iff {ε α : Type*} {result : Except ε α} {a : α} :
    result.toOption = some a ↔ result = .ok a := by
  cases result <;> simp [Except.toOption]

/-- **What an answer does to the proxy.** -/
theorem step_answer_cases {hash : Bytes → UInt64} {p p' : State} {i : Nat} {r : Response} {layout : Layout}
    (h : step hash p (.answer i r layout) = some p') :
    ∃ x, p.waiting[i]? = some x ∧ p'.waiting = p.waiting.eraseIdx i ∧ p'.requested = p.requested ∧
      p'.received = p.received ++ [(x.uri, r)] ∧
      ((r.statusCode = .known .notModified ∧ ∃ entry, p.cache.lookup (hash x.uri) = some entry ∧
          p'.cache = p.cache.replace (hash x.uri) { entry with lastUsed := x.now } ∧
          p'.delivered = p.delivered ++ [⟨x.uri, entry.response, true⟩]) ∨
        (r.statusCode ≠ .known .notModified ∧
          p'.cache = layout.place (store p.cache (hash x.uri) ⟨x.now, r.expirationTime x.now, r⟩) ∧
          p'.delivered = p.delivered ++ [⟨x.uri, r, false⟩])) := by
  obtain ⟨x, hi, -⟩ := Option.bind_eq_some_iff.mp (show (p.waiting[i]?).bind _ = some p' from h)
  by_cases hr : r.statusCode = .known .notModified
  · rcases hlook : p.cache.lookup (hash x.uri) with _ | entry
    · rw [step_notModified_none hi hr hlook] at h
      cases h
    · rw [step_notModified hi hr hlook, Option.some.injEq] at h
      subst h
      exact ⟨x, hi, rfl, rfl, rfl, .inl ⟨hr, entry, hlook, rfl, rfl⟩⟩
  · rw [step_answer hi, answer_new hr, Option.some.injEq] at h
    subst h
    exact ⟨x, hi, rfl, rfl, rfl, .inr ⟨hr, rfl, rfl⟩⟩

section Moves

variable {lib : DateLib} {hash : Bytes → UInt64} {site : Site} {n : Nat} {s s' : System} {i : Nat}
  {now later : Int} {reads : List Read} {segments : List Segment} {layout : Layout} {r : Response}

theorem move_ask (hs : move lib hash site n s (.ask reads now) = some s') :
    ∃ uri, receive (lib.at now) n reads = .ok uri ∧ (∃ location, target uri = .ok location) ∧ s' = { s with
      arrived := s.arrived ++ [⟨uri, now⟩]
      came := s.came ++ [⟨uri, now⟩] } := by
  obtain ⟨uri, huri, hs⟩ := Option.bind_eq_some_iff.mp hs
  obtain ⟨location, htarget, hs⟩ := Option.bind_eq_some_iff.mp hs
  rw [toOption_eq_some_iff] at huri htarget
  exact ⟨uri, huri, ⟨location, htarget⟩, (Option.some.inj hs).symm⟩

theorem move_look (hs : move lib hash site n s (.look i) = some s') :
    ∃ x, s.arrived[i]? = some x ∧ s' = { s with
      proxy := request hash s.proxy x.uri x.now
      arrived := s.arrived.eraseIdx i
      progress := if Fresh s.proxy.cache (hash x.uri) x.now then s.progress else s.progress ++ [.unread] } := by
  obtain ⟨x, hx, hs⟩ := Option.bind_eq_some_iff.mp hs
  exact ⟨x, hx, (Option.some.inj hs).symm⟩

theorem move_accept (hs : move lib hash site n s (.accept i segments now) = some s') :
    ∃ x out made, s.proxy.waiting[i]? = some x ∧ outgoing lib x = .ok out ∧
      (out.host = site.host ∧ out.port = site.port) ∧ s.progress[i]? = some .unread ∧
      stream segments = out.request.toString lib ∧
      accept (lib.at now) n (segments.map fun segment => .data segment.bytes) = .ok made ∧
      s' = { s with progress := s.progress.set i (.ofPlan s.counts made) } := by
  obtain ⟨x, hx, hs⟩ := Option.bind_eq_some_iff.mp hs
  obtain ⟨out, hout, hs⟩ := Option.bind_eq_some_iff.mp hs
  split_ifs at hs with hguard
  obtain ⟨hhost, hport, hunread, hstream⟩ := hguard
  obtain ⟨made, hmade, hs⟩ := Option.bind_eq_some_iff.mp hs
  obtain ⟨progress, hi, hprogress⟩ := (Option.any_eq_true _ _).mp hunread
  cases progress with
  | unread => exact ⟨x, out, made, hx, toOption_eq_some_iff.mp hout, ⟨hhost, hport⟩, hi, hstream,
      toOption_eq_some_iff.mp hmade, (Option.some.inj hs).symm⟩
  | counting => cases hprogress
  | done => cases hprogress

theorem move_finish (hs : move lib hash site n s (.finish i now later) = some s') :
    ∃ route k message, s.progress[i]? = some (.counting route k) ∧
      route.respond (lib.at now) k now later = .ok message ∧ s' = { s with
        counts := Function.update s.counts route (k + 1)
        progress := s.progress.set i (.done message)
        made := s.made ++ [⟨route, k, now, later⟩] } := by
  obtain ⟨⟨route, k⟩, hcounted, hs⟩ := Option.bind_eq_some_iff.mp hs
  obtain ⟨message, hmessage, hs⟩ := Option.bind_eq_some_iff.mp hs
  obtain ⟨progress, hi, hprogress⟩ := Option.bind_eq_some_iff.mp hcounted
  cases progress with
  | counting route' k' =>
      cases hprogress
      exact ⟨route, k, message, hi, toOption_eq_some_iff.mp hmessage, (Option.some.inj hs).symm⟩
  | unread => cases hprogress
  | done => cases hprogress

theorem move_relay (hs : move lib hash site n s (.relay i segments now layout) = some s') :
    ∃ message response proxy, s.progress[i]? = some (.done message) ∧
      Constructs (lib.at now) (message.toString lib) response.message ∧
      step hash s.proxy (.answer i response layout) = some proxy ∧
      s' = { s with proxy, progress := s.progress.eraseIdx i } := by
  obtain ⟨message, hdone, hs⟩ := Option.bind_eq_some_iff.mp hs
  obtain ⟨progress, hi, hprogress⟩ := Option.bind_eq_some_iff.mp hdone
  split_ifs at hs with hstream
  obtain ⟨text, htext, hread⟩ := Option.bind_eq_some_iff.mp hs
  obtain ⟨read, hmessage, hmade⟩ := Option.bind_eq_some_iff.mp hread
  obtain ⟨response, hresponse, hanswer⟩ := Option.bind_eq_some_iff.mp hmade
  obtain ⟨proxy, hproxy, hlast⟩ := Option.bind_eq_some_iff.mp hanswer
  rw [toOption_eq_some_iff] at htext hmessage hresponse
  obtain ⟨rfl, -⟩ := checkLength_eq_ok_iff.mp htext
  have hwhole := @readResponse_segments segments [] [] (.inl rfl)
  rw [List.append_nil, List.nil_append, hstream] at hwhole
  rw [hwhole, ← ofMessage_eq_ok_iff.mp hresponse] at hmessage
  have hreply : s.progress[i]? = some (.done message) := by
    cases progress with
    | done => rw [hi, ← Option.some.inj hprogress]
    | unread => cases hprogress
    | counting => cases hprogress
  exact ⟨message, response, proxy, hreply, constructs_of_construct hmessage, hproxy,
    (Option.some.inj hlast).symm⟩

theorem move_elsewhere (hs : move lib hash site n s (.elsewhere i r layout) = some s') :
    ∃ x proxy, s.proxy.waiting[i]? = some x ∧ site.path x.uri = none ∧
      step hash s.proxy (.answer i r layout) = some proxy ∧
      s' = { s with proxy, progress := s.progress.eraseIdx i } := by
  obtain ⟨x, hx, hs⟩ := Option.bind_eq_some_iff.mp hs
  split_ifs at hs with hpath
  obtain ⟨proxy, hproxy, hs⟩ := Option.bind_eq_some_iff.mp hs
  exact ⟨x, proxy, hx, hpath, hproxy, (Option.some.inj hs).symm⟩

end Moves

/-! ## The handler of the proxy -/

section Handler

variable {lib : DateLib} {hash : Bytes → UInt64} {n : Nat} {p p' : State} {x : Incoming} {uri : Bytes}

theorem additionalHeaders_eq (found : Option Entry) :
    additionalHeaders lib found = ifModifiedSince lib (found.map Entry.expiration) := by
  cases found <;> rfl

/-- The request as it waits. -/
def waits (hash : Bytes → UInt64) (p : State) (x : Incoming) (uri : Bytes) : Exchange :=
  ⟨uri, x.now, (p.cache.lookup (hash uri)).map Entry.expiration⟩

theorem receive_eq_ok_iff {reads : List Read} : receive lib n reads = .ok uri ↔
    ∃ requestStr request, readAll reads = .ok requestStr ∧ construct lib n requestStr = .ok request ∧
      getUri request = .ok uri := by
  simp only [receive, bind_eq_ok]
  constructor
  · rintro ⟨requestStr, htext, request, hrequest, huri⟩
    exact ⟨requestStr, request, htext, hrequest, huri⟩
  · rintro ⟨requestStr, request, htext, hrequest, huri⟩
    exact ⟨requestStr, htext, request, hrequest, huri⟩

theorem liftM_eq_ok_iff {α : Type} {result : Except Thrown α} {a : α} :
    (liftM result : Except Failure α) = .ok a ↔ result = .ok a := by
  cases result <;> simp [liftM, monadLift, MonadLift.monadLift]

/-- What goes to the origin and what comes back. -/
theorem fetch_eq_ok_iff {host path : Bytes} {port : Int} (htarget : target uri = .ok (host, port, path))
    {sent : Option Outgoing} : fetch lib hash n p x uri host path port = .ok (p', sent) ↔
      ∃ out r, outgoing lib (waits hash p x uri) = .ok out ∧ (readResponse [] x.answered).length < maxString ∧
        construct lib n (readResponse [] x.answered) = .ok r.message ∧
        answer hash (x.meanwhile (request hash p uri x.now)) (waits hash p x uri) r x.layout = some p' ∧
        sent = some out := by
  constructor
  · intro h
    obtain ⟨headers, hheaders, h⟩ := bind_eq_ok.mp h
    obtain ⟨request, hrequest, h⟩ := bind_eq_ok.mp h
    obtain ⟨text, htext, hread⟩ := bind_eq_ok.mp h
    obtain ⟨message, hmessage, hmade⟩ := bind_eq_ok.mp hread
    obtain ⟨r, hr, hanswer⟩ := bind_eq_ok.mp hmade
    rw [liftM_eq_ok_iff, additionalHeaders_eq] at hheaders
    obtain ⟨rfl, hshort⟩ := checkLength_eq_ok_iff.mp htext
    rw [← ofMessage_eq_ok_iff.mp hr] at hmessage
    refine ⟨⟨host, port, request⟩, r, ?_, hshort, hmessage, ?_⟩
    · apply bind_eq_ok.mpr ⟨_, htarget, ?_⟩
      apply bind_eq_ok.mpr ⟨_, hheaders, ?_⟩
      exact bind_eq_ok.mpr ⟨_, liftM_eq_ok_iff.mp hrequest, rfl⟩
    · rcases hdone : answer hash (x.meanwhile (Proxy.request hash p uri x.now)) (waits hash p x uri) r
        x.layout with _ | done
      · simp only [show answer hash _ ⟨uri, _, _⟩ r x.layout = none from hdone] at hanswer
        cases hanswer
      · simp only [show answer hash _ ⟨uri, _, _⟩ r x.layout = some done from hdone] at hanswer
        cases hanswer
        exact ⟨rfl, rfl⟩
  · rintro ⟨out, r, hout, hshort, hmessage, hdone, rfl⟩
    obtain ⟨_, htarget', hout⟩ := bind_eq_ok.mp hout
    cases htarget.symm.trans htarget'
    obtain ⟨headers, hheaders, hout⟩ := bind_eq_ok.mp hout
    obtain ⟨request, hrequest, hout⟩ := bind_eq_ok.mp hout
    cases hout
    apply bind_eq_ok.mpr ⟨headers, liftM_eq_ok_iff.mpr (by rw [additionalHeaders_eq]; exact hheaders), ?_⟩
    apply bind_eq_ok.mpr ⟨request, liftM_eq_ok_iff.mpr hrequest, ?_⟩
    apply bind_eq_ok.mpr ⟨_, checkLength_eq_ok_iff.mpr ⟨rfl, hshort⟩, ?_⟩
    apply bind_eq_ok.mpr ⟨_, hmessage, ?_⟩
    apply bind_eq_ok.mpr ⟨r, ofMessage_eq_ok_iff.mpr rfl, ?_⟩
    simp only [show answer hash _ ⟨uri, _, _⟩ r x.layout = some p' from hdone]
    rfl

/-- **The handler is made of these moves**: a request, and if it waits, what goes to the origin and the answer. -/
theorem handle_eq_ok_iff {sent : Option Outgoing} : handle lib hash n p x = .ok (p', sent) ↔
    ∃ uri location, receive lib n x.reads = .ok uri ∧ target uri = .ok location ∧
      ((Fresh p.cache (hash uri) x.now ∧ p' = request hash p uri x.now ∧ sent = none) ∨
        (¬ Fresh p.cache (hash uri) x.now ∧ ∃ out r, outgoing lib (waits hash p x uri) = .ok out ∧
          (readResponse [] x.answered).length < maxString ∧
          construct lib n (readResponse [] x.answered) = .ok r.message ∧
          answer hash (x.meanwhile (request hash p uri x.now)) (waits hash p x uri) r x.layout = some p' ∧
          sent = some out)) := by
  constructor
  · intro h
    obtain ⟨text, htext, hrest⟩ := bind_eq_ok.mp h
    obtain ⟨m, hm, hrest⟩ := bind_eq_ok.mp hrest
    obtain ⟨uri, huri, -⟩ := bind_eq_ok.mp hrest
    obtain ⟨line, hline, hshown⟩ := getUri_eq_ok_iff.mp huri
    have hlen := (uri_of_construct (readAll_eq_ok_iff.mp htext).2 hm hline).1
    rw [← hshown] at hlen
    rw [handle_eq_target htext hm huri hlen] at h
    obtain ⟨⟨host, port, path⟩, htarget, h⟩ := bind_eq_ok.mp h
    rw [liftM_eq_ok_iff] at htarget
    refine ⟨uri, _, receive_eq_ok_iff.mpr ⟨text, m, htext, hm, huri⟩, htarget, ?_⟩
    by_cases hfresh : Fresh p.cache (hash uri) x.now
    · simp only [if_pos hfresh] at h
      cases h
      exact .inl ⟨hfresh, rfl, rfl⟩
    · simp only [if_neg hfresh] at h
      exact .inr ⟨hfresh, (fetch_eq_ok_iff htarget).mp h⟩
  · rintro ⟨uri, ⟨host, port, path⟩, hreceive, htarget, hcases⟩
    obtain ⟨text, m, htext, hm, huri⟩ := receive_eq_ok_iff.mp hreceive
    obtain ⟨line, hline, hshown⟩ := getUri_eq_ok_iff.mp huri
    have hlen := (uri_of_construct (readAll_eq_ok_iff.mp htext).2 hm hline).1
    rw [← hshown] at hlen
    rw [handle_eq_target htext hm huri hlen]
    apply bind_eq_ok.mpr ⟨_, liftM_eq_ok_iff.mpr htarget, ?_⟩
    rcases hcases with ⟨hfresh, rfl, rfl⟩ | ⟨hfresh, hfetch⟩
    · simp only [if_pos hfresh]
      rfl
    · simp only [if_neg hfresh]
      exact (fetch_eq_ok_iff htarget).mpr hfetch

end Handler

/-! ## Requests at the proxy -/

section Requests

variable {hash : Bytes → UInt64} {p : State} {uri : Bytes} {now : Int}

/-- A fresh entry is sent, and touched. -/
theorem request_of_fresh (h : Fresh p.cache (hash uri) now) :
    ∃ e, p.cache.lookup (hash uri) = some e ∧ now < e.expiration ∧ request hash p uri now = { p with
      cache := p.cache.replace (hash uri) { e with lastUsed := now }
      requested := p.requested ++ [uri]
      delivered := p.delivered ++ [⟨uri, e.response, true⟩] } := by
  obtain ⟨e, hlook, hfresh⟩ := h
  rw [Option.mem_def] at hlook
  refine ⟨e, hlook, hfresh, ?_⟩
  unfold request
  simp only [hlook, if_pos hfresh]

/-- Otherwise the request waits, with the date of a stale entry. -/
theorem request_of_not_fresh (h : ¬ Fresh p.cache (hash uri) now) :
    request hash p uri now = { p with
      waiting := p.waiting ++ [⟨uri, now, (p.cache.lookup (hash uri)).map Entry.expiration⟩]
      requested := p.requested ++ [uri] } := by
  unfold request
  rcases hlook : p.cache.lookup (hash uri) with _ | e
  · simp only [hlook, Option.map_none]
  · have hstale : ¬ now < e.expiration := fun hfresh => h ⟨e, hlook, hfresh⟩
    simp only [hlook, if_neg hstale, Option.map_some]

end Requests

/-! ## Every page once -/

/-- The number of a page of the test server that was sent as it came in. -/
def freshNumber (site : Site) (route : Route) (d : Delivery) : Option Nat :=
  if d.fromCache = false ∧ (site.path d.uri).isSome then route.number d.response.message else none

/-- The number of a page under way. -/
def replyNumber (route : Route) (p : Progress) : Option Nat := p.message.bind route.number

/-- The numbers of the pages of a route that were sent to clients as they came in. -/
def freshNumbers (site : Site) (route : Route) (s : System) : List Nat :=
  s.proxy.delivered.filterMap (freshNumber site route)

/-- The numbers of the pages of a route that are under way. -/
def underWay (route : Route) (s : System) : List Nat := s.progress.filterMap (replyNumber route)

/-- The numbers of the pages of a route that were made. -/
def madeNumbers (route : Route) (s : System) : List Nat :=
  s.made.filterMap fun page => if route = page.route then some page.number else none

/-- What the test server is at was sent to it, and its answer can be read. -/
def Sent (lib : DateLib) (site : Site) (x : Exchange) (p : Progress) : Prop :=
  (p.isUnread = false → (site.path x.uri).isSome) ∧ ∀ m ∈ p.message, Readable lib m

/-- Each waiting request has its place at the test server, and every page is somewhere. -/
structure Counted (lib : DateLib) (site : Site) (s : System) : Prop where
  sent : List.Forall₂ (Sent lib site) s.proxy.waiting s.progress
  once : ∀ route, (freshNumbers site route s ++ underWay route s).Perm (madeNumbers route s)

/-- The pages of each route are numbered in order, and a counter that has been read is as it was. -/
structure Numbered (s : System) : Prop where
  made : ∀ route, madeNumbers route s = List.range (s.counts route)
  same : ∀ count ∈ s.progress.filterMap Progress.counted, count.2 = s.counts count.1
  exclusive : s.Exclusive

/-! ## Two lists side by side -/

section SideBySide

variable {α β : Type*} {R : α → β → Prop} {as : List α} {bs : List β} {i : Nat}

theorem forall₂_eraseIdx (h : List.Forall₂ R as bs) : List.Forall₂ R (as.eraseIdx i) (bs.eraseIdx i) := by
  induction h generalizing i with
  | nil => exact .nil
  | cons hab htail ih =>
      cases i with
      | zero => exact htail
      | succ i => exact .cons hab ih

theorem forall₂_set (h : List.Forall₂ R as bs) {b : β} (hb : ∀ a, as[i]? = some a → R a b) :
    List.Forall₂ R as (bs.set i b) := by
  induction h generalizing i with
  | nil => exact .nil
  | cons hab htail ih =>
      cases i with
      | zero => exact .cons (hb _ rfl) htail
      | succ i => exact .cons hab (ih hb)

theorem forall₂_getElem? (h : List.Forall₂ R as bs) {a : α} {b : β} (ha : as[i]? = some a)
    (hb : bs[i]? = some b) : R a b := by
  induction h generalizing i with
  | nil => cases ha
  | cons hab htail ih =>
      cases i with
      | zero =>
          rw [List.getElem?_cons_zero, Option.some.injEq] at ha hb
          rwa [← ha, ← hb]
      | succ i => exact ih ha hb

theorem filterMap_singleton (f : α → Option β) (a : α) : [a].filterMap f = (f a).toList := by
  cases h : f a <;> simp [h]

/-- What is filtered out of a list with an element taken out. -/
theorem filterMap_eraseIdx_perm {f : α → Option β} {a : α} (h : as[i]? = some a) :
    (as.filterMap f).Perm ((f a).toList ++ (as.eraseIdx i).filterMap f) := by
  obtain ⟨hi, rfl⟩ := List.getElem?_eq_some_iff.mp h
  have hperm := (List.getElem_cons_eraseIdx_perm hi).symm.filterMap f
  rwa [← List.singleton_append, List.filterMap_append, filterMap_singleton] at hperm

/-- What is filtered out of a list with an element put in the place of another. -/
theorem filterMap_set_perm {f : α → Option β} {a : α} (h : as[i]? = some a) (b : α) :
    ((as.set i b).filterMap f).Perm ((f b).toList ++ (as.eraseIdx i).filterMap f) := by
  obtain ⟨hi, -⟩ := List.getElem?_eq_some_iff.mp h
  have hperm := (List.set_perm_cons_eraseIdx hi b).filterMap f
  rwa [← List.singleton_append, List.filterMap_append, filterMap_singleton] at hperm

end SideBySide

section Counting

variable {lib : DateLib} {hash : Bytes → UInt64} {site : Site} {n : Nat} {s s' : System} {i : Nat}
  {now later : Int} {route : Route} {k : Nat}

/-- What leads to the test server has a path there. -/
theorem path_of_outgoing {x : Exchange} {out : Outgoing} (hout : outgoing lib x = .ok out)
    (hsite : out.host = site.host ∧ out.port = site.port) :
    ∃ path, target x.uri = .ok (out.host, out.port, path) ∧ site.path x.uri = some path := by
  obtain ⟨⟨host, port, path⟩, htarget, hout⟩ := bind_eq_ok.mp hout
  obtain ⟨headers, -, hout⟩ := bind_eq_ok.mp hout
  obtain ⟨request, -, hout⟩ := bind_eq_ok.mp hout
  cases hout
  refine ⟨path, htarget, ?_⟩
  unfold Site.path
  simp only [htarget, if_pos hsite]

/-- A request that is looked up without success has its place behind the others. -/
theorem progress_look {β : Type} {f : Progress → Option β} (hunread : f .unread = none) (fresh : Prop)
    [Decidable fresh] :
    (if fresh then s.progress else s.progress ++ [.unread]).filterMap f = s.progress.filterMap f := by
  split_ifs
  · rfl
  · rw [List.filterMap_append, filterMap_singleton, hunread]
    exact List.append_nil _

/-! ### Where the pages are -/

/-- A delivery takes the number from the answers under way. -/
theorem once_deliver {d : Delivery} {p : Progress} (hp : s.progress[i]? = some p)
    (hnumber : freshNumber site route d = replyNumber route p) :
    ((s.proxy.delivered ++ [d]).filterMap (freshNumber site route) ++
      (s.progress.eraseIdx i).filterMap (replyNumber route)).Perm
        (freshNumbers site route s ++ underWay route s) := by
  rw [List.filterMap_append, filterMap_singleton, hnumber, List.append_assoc]
  exact (filterMap_eraseIdx_perm hp).symm.append_left _

/-- The test server goes on from a point without an answer: the number of its answer, if it has one, is under
way. -/
theorem once_set {p : Progress} (hp : s.progress[i]? = some p) (hnone : p.message = none) (q : Progress) :
    (freshNumbers site route s ++ (s.progress.set i q).filterMap (replyNumber route)).Perm
      (freshNumbers site route s ++ underWay route s ++ (replyNumber route q).toList) := by
  have hbefore := filterMap_eraseIdx_perm (f := replyNumber route) hp
  have hafter := filterMap_set_perm (f := replyNumber route) hp q
  rw [show replyNumber route p = none by rw [replyNumber, hnone]; rfl] at hbefore
  rw [List.append_assoc]
  exact (hafter.trans (List.perm_append_comm.trans (hbefore.symm.append_right _))).append_left _

theorem counted_look (h : Counted lib site s) (hs : move lib hash site n s (.look i) = some s') :
    Counted lib site s' := by
  obtain ⟨x, -, rfl⟩ := move_look hs
  have hunder : ∀ route, List.filterMap (replyNumber route) _ = underWay route s := fun route =>
    progress_look rfl (Fresh s.proxy.cache (hash x.uri) x.now)
  by_cases hfresh : Fresh s.proxy.cache (hash x.uri) x.now
  · obtain ⟨e, -, -, hrequest⟩ := request_of_fresh hfresh
    rw [hrequest]
    refine ⟨?_, fun route => ?_⟩
    · rw [if_pos hfresh]
      exact h.sent
    · -- a page out of the cache has no number
      show List.Perm (List.filterMap _ (s.proxy.delivered ++ [⟨x.uri, e.response, true⟩]) ++ _) _
      rw [underWay, hunder, List.filterMap_append, filterMap_singleton]
      show List.Perm ((_ ++ []) ++ _) _
      rw [List.append_nil]
      exact h.once route
  · rw [request_of_not_fresh hfresh]
    refine ⟨?_, fun route => ?_⟩
    · rw [if_neg hfresh]
      refine List.rel_append h.sent (.cons ⟨fun hread => ?_, fun m hm => ?_⟩ .nil)
      · cases hread
      · cases hm
    · rw [underWay, hunder]
      exact h.once route

theorem counted_accept (h : Counted lib site s) {segments : List Segment}
    (hs : move lib hash site n s (.accept i segments now) = some s') : Counted lib site s' := by
  obtain ⟨x, out, plan, hx, hout, hsite, hunread, -, -, rfl⟩ := move_accept hs
  obtain ⟨path, -, hpath⟩ := path_of_outgoing hout hsite
  refine ⟨?_, fun route => ?_⟩
  · refine forall₂_set h.sent fun y hy => ?_
    cases hx.symm.trans hy
    refine ⟨fun _ => by rw [hpath]; rfl, fun m hm => ?_⟩
    cases plan with
    | page route => cases hm
    | empty code =>
        cases hm
        exact readable_ofCode code
  · refine (once_set hunread rfl _).trans ?_
    have hnone : replyNumber route (.ofPlan s.counts plan) = none := by cases plan <;> rfl
    rw [hnone]
    show List.Perm (_ ++ []) _
    rw [List.append_nil]
    exact h.once route

theorem respond_at (h : ShowsAt lib now later) (time : Int) :
    route.respond (lib.at time) k now later = .ok (route.page lib k now later) := by
  rw [respond_eq (h.at time), page_at]

/-- **A page is made**, with the number that was read. -/
theorem exists_page (hprint : Printable lib s (.finish i now later))
    (hs : move lib hash site n s (.finish i now later) = some s') :
    ∃ route k, s.progress[i]? = some (.counting route k) ∧ k < 0x7FFFFFFF ∧ ShowsAt lib now later ∧ s' = { s with
      counts := Function.update s.counts route (k + 1)
      progress := s.progress.set i (.done (route.page lib k now later))
      made := s.made ++ [⟨route, k, now, later⟩] } := by
  obtain ⟨route, k, message, hi, hmessage, rfl⟩ := move_finish hs
  obtain ⟨hshows, hbound⟩ := hprint
  rw [respond_at hshows] at hmessage
  cases hmessage
  exact ⟨route, k, hi, hbound ⟨route, k⟩ (by rw [hi]; rfl), hshows, rfl⟩

theorem madeNumbers_append (page : Made) (other : Route) :
    madeNumbers other { s with made := s.made ++ [page] } =
      madeNumbers other s ++ (if other = page.route then some page.number else none).toList := by
  rw [madeNumbers, List.filterMap_append, filterMap_singleton]
  rfl

theorem counted_finish (h : Counted lib site s) (hprint : Printable lib s (.finish i now later))
    (hs : move lib hash site n s (.finish i now later) = some s') : Counted lib site s' := by
  obtain ⟨route, k, hi, hbound, hshows, rfl⟩ := exists_page hprint hs
  refine ⟨?_, fun other => ?_⟩
  · refine forall₂_set h.sent fun x hx => ⟨fun _ => ?_, fun m hm => ?_⟩
    · exact (forall₂_getElem? h.sent hx hi).1 rfl
    · cases hm
      exact readable_page hshows (Nat.lt_trans hbound (by decide))
  · refine (once_set hi rfl _).trans ?_
    refine ((h.once other).append_right _).trans (List.Perm.of_eq ?_)
    have hnumber : replyNumber other (.done (route.page lib k now later)) =
        if other = route then some k else none := @number_page_eq lib now later route other k
    rw [hnumber]
    exact (madeNumbers_append ⟨route, k, now, later⟩ other).symm

theorem counted_relay (h : Counted lib site s) {segments : List Segment} {layout : Layout}
    (hs : move lib hash site n s (.relay i segments now layout) = some s') : Counted lib site s' := by
  obtain ⟨message, response, proxy, hreply, hread, hstep, rfl⟩ := move_relay hs
  obtain ⟨x, hx, hwaiting, -, -, hcases⟩ := step_answer_cases hstep
  obtain ⟨hpath, hreadable⟩ := forall₂_getElem? h.sent hx hreply
  have hmessage : response.message = message.asRead :=
    constructs_unique hread ((hreadable message rfl).constructs now)
  have hnumber : ∀ route : Route, route.number response.message = replyNumber route (.done message) := by
    intro route
    rw [hmessage, number_asRead]
    rfl
  refine ⟨?_, fun route => ?_⟩
  · rw [hwaiting]
    exact forall₂_eraseIdx h.sent
  · show List.Perm (List.filterMap _ proxy.delivered ++ _) _
    refine List.Perm.trans ?_ (h.once route)
    rcases hcases with ⟨hcode, entry, -, -, hdelivered⟩ | ⟨hcode, -, hdelivered⟩
    · rw [hdelivered]
      refine once_deliver hreply ?_
      rw [← hnumber, number_of_code_ne (by rw [hcode]; decide)]
      rfl
    · rw [hdelivered]
      refine once_deliver hreply ?_
      rw [← hnumber]
      exact if_pos ⟨rfl, hpath rfl⟩

/-- What waits for another origin is not at the test server. -/
theorem Counted.unread (h : Counted lib site s) {x : Exchange} (hx : s.proxy.waiting[i]? = some x)
    (hpath : site.path x.uri = none) : ∃ p, s.progress[i]? = some p ∧ p.isUnread = true := by
  obtain ⟨p, hp⟩ : ∃ p, s.progress[i]? = some p := by
    have hi := (List.getElem?_eq_some_iff.mp hx).1
    rw [h.sent.length_eq] at hi
    exact ⟨_, List.getElem?_eq_getElem hi⟩
  refine ⟨p, hp, ?_⟩
  by_contra hread
  have hsome := (forall₂_getElem? h.sent hx hp).1 (Bool.eq_false_iff.mpr hread)
  rw [hpath] at hsome
  cases hsome

theorem counted_elsewhere (h : Counted lib site s) {r : Response} {layout : Layout}
    (hs : move lib hash site n s (.elsewhere i r layout) = some s') : Counted lib site s' := by
  obtain ⟨x, proxy, hx, hpath, hstep, rfl⟩ := move_elsewhere hs
  obtain ⟨y, hy, hwaiting, -, -, hcases⟩ := step_answer_cases hstep
  cases hx.symm.trans hy
  obtain ⟨p, hp, hunread⟩ := h.unread hx hpath
  have hnone : ∀ route, replyNumber route p = none := by
    intro route
    cases p with
    | unread => rfl
    | counting => rfl
    | done => cases hunread
  refine ⟨?_, fun route => ?_⟩
  · rw [hwaiting]
    exact forall₂_eraseIdx h.sent
  · show List.Perm (List.filterMap _ proxy.delivered ++ _) _
    refine List.Perm.trans ?_ (h.once route)
    rcases hcases with ⟨hcode, entry, -, -, hdelivered⟩ | ⟨hcode, -, hdelivered⟩
    · rw [hdelivered]
      exact once_deliver hp (hnone route).symm
    · rw [hdelivered]
      refine once_deliver hp (Eq.trans (if_neg ?_) (hnone route).symm)
      rw [hpath]
      exact fun hsite => nomatch hsite.2

theorem counted_of_reachable (h : (web lib hash site n).ReachableUnder (Printable lib) s) :
    Counted lib site s := by
  apply h.invariant
  · rintro s rfl
    exact ⟨.nil, fun route => .nil⟩
  · intro s e s' hcounted hprint hs
    change move lib hash site n s e = some s' at hs
    cases e with
    | ask reads now =>
        obtain ⟨uri, -, -, rfl⟩ := move_ask hs
        exact ⟨hcounted.sent, hcounted.once⟩
    | look i => exact counted_look hcounted hs
    | accept i segments now => exact counted_accept hcounted hs
    | finish i now later => exact counted_finish hcounted hprint hs
    | relay i segments now layout => exact counted_relay hcounted hs
    | elsewhere i r layout => exact counted_elsewhere hcounted hs

/-! ### How they are numbered -/

/-- The counters that have been read are those there were before, or fewer. -/
theorem Numbered.of_subset (h : Numbered s) (hmade : s'.made = s.made) (hcounts : s'.counts = s.counts)
    (hread : s'.progress.filterMap Progress.counted ⊆ s.progress.filterMap Progress.counted)
    (hexclusive : s'.Exclusive) : Numbered s' := by
  refine ⟨fun route => ?_, fun count hcount => ?_, hexclusive⟩
  · rw [madeNumbers, hmade, hcounts]
    exact h.made route
  · rw [hcounts]
    exact h.same count (hread hcount)

/-- The answer to a request takes its place away. -/
theorem counted_eraseIdx_subset :
    (s.progress.eraseIdx i).filterMap Progress.counted ⊆ s.progress.filterMap Progress.counted :=
  ((List.eraseIdx_sublist s.progress i).filterMap _).subset

theorem numbered_accept (h : Numbered s) {segments : List Segment}
    (hs : move lib hash site n s (.accept i segments now) = some s') (hexclusive : s'.Exclusive) :
    Numbered s' := by
  obtain ⟨x, out, plan, -, -, -, hunread, -, -, rfl⟩ := move_accept hs
  refine ⟨h.made, fun count hcount => ?_, hexclusive⟩
  have hnew := (filterMap_set_perm (f := Progress.counted) hunread (.ofPlan s.counts plan)).mem_iff.mp hcount
  rcases List.mem_append.mp hnew with hnew | hold
  · cases plan with
    | page route => rw [List.mem_singleton.mp hnew]
    | empty code => cases hnew
  · exact h.same count (counted_eraseIdx_subset hold)

/-- No other handler has read the counter that is written. -/
theorem numbered_finish (h : Numbered s) (hprint : Printable lib s (.finish i now later))
    (hs : move lib hash site n s (.finish i now later) = some s') (hexclusive : s'.Exclusive) :
    Numbered s' := by
  obtain ⟨route, k, hi, -, -, rfl⟩ := exists_page hprint hs
  have hread := filterMap_eraseIdx_perm (f := Progress.counted) hi
  have hk : k = s.counts route := h.same (route, k) (hread.mem_iff.mpr (List.mem_cons_self ..))
  have halone := (hread.map Prod.fst).nodup_iff.mp h.exclusive
  refine ⟨fun other => ?_, fun count hcount => ?_, hexclusive⟩
  · refine (madeNumbers_append ⟨route, k, now, later⟩ other).trans ?_
    show _ = List.range (Function.update s.counts route (k + 1) other)
    rw [h.made]
    by_cases hother : other = route
    · rw [hother, if_pos rfl, Function.update_self, hk, List.range_succ]
      rfl
    · rw [if_neg hother, Function.update_of_ne hother]
      exact List.append_nil _
  · have hrest := (filterMap_set_perm (f := Progress.counted) hi
      (.done (route.page lib k now later))).mem_iff.mp hcount
    have hne : count.1 ≠ route := fun hsame =>
      (List.nodup_cons.mp halone).1 (List.mem_map.mpr ⟨count, hrest, hsame⟩)
    show _ = Function.update s.counts route (k + 1) count.1
    rw [Function.update_of_ne hne]
    exact h.same count (counted_eraseIdx_subset hrest)

theorem numbered_of_reachable (h : (web lib hash site n).ReachableUnder (fun s e =>
    Printable lib s e ∧ ∀ s' ∈ move lib hash site n s e, s'.Exclusive) s) : Numbered s := by
  apply h.invariant
  · rintro s rfl
    exact ⟨fun _ => rfl, List.forall_mem_nil _, List.nodup_nil⟩
  · intro s e s' hnumbered hcondition hs
    change move lib hash site n s e = some s' at hs
    have hexclusive := hcondition.2 s' hs
    cases e with
    | ask reads now =>
        obtain ⟨uri, -, -, rfl⟩ := move_ask hs
        exact hnumbered.of_subset rfl rfl (List.Subset.refl _) hexclusive
    | look i =>
        obtain ⟨x, -, rfl⟩ := move_look hs
        refine hnumbered.of_subset rfl rfl ?_ hexclusive
        rw [progress_look rfl]
        exact List.Subset.refl _
    | accept i segments now => exact numbered_accept hnumbered hs hexclusive
    | finish i now later => exact numbered_finish hnumbered hcondition.1 hs hexclusive
    | relay i segments now layout =>
        obtain ⟨message, response, proxy, -, -, -, rfl⟩ := move_relay hs
        exact hnumbered.of_subset rfl rfl counted_eraseIdx_subset hexclusive
    | elsewhere i r layout =>
        obtain ⟨x, proxy, -, -, -, rfl⟩ := move_elsewhere hs
        exact hnumbered.of_subset rfl rfl counted_eraseIdx_subset hexclusive

end Counting

/-- **Every page once.** In every run, whatever clients and other origins send: each page of a route that was
made is under way to the proxy or has gone to one client, once, and everything else that clients get of a route
is a copy. As long as no two handlers are at the same counter, the pages are numbered in the order in which they
are made. -/
theorem pages_once (lib : DateLib) (hash : Bytes → UInt64) (site : Site) (n : Nat) (s : System)
    (h : (web lib hash site n).ReachableUnder (Printable lib) s) (route : Route) :
    (freshNumbers site route s ++ underWay route s).Perm (madeNumbers route s) ∧
      ((web lib hash site n).ReachableUnder
          (fun s e => Printable lib s e ∧ ∀ s' ∈ move lib hash site n s e, s'.Exclusive) s →
        madeNumbers route s = List.range (s.counts route)) :=
  ⟨(counted_of_reachable h).once route, fun hexclusive => (numbered_of_reachable hexclusive).made route⟩

/-- The dates of the pages that are made at 08:49:37. -/
def novemberDates : List (Int × Bytes) :=
  [(784111777, ascii "Sun, 06 Nov 1994 08:49:37 GMT"), (784111837, ascii "Sun, 06 Nov 1994 08:50:37 GMT"),
    (784111767, ascii "Sun, 06 Nov 1994 08:49:27 GMT"), (781519777, ascii "Fri, 07 Oct 1994 08:49:37 GMT")]

def november : DateLib where
  parse text := (novemberDates.find? fun date => date.2 = text).map Prod.fst
  format d := ((novemberDates.find? fun date => date.1 = d).map Prod.snd).getD []
  now := 784111777

/-- A request to the proxy for the first route. -/
def askTest1 : Move :=
  .ask [.data (ascii "GET http://h/test1 HTTP/1.0\r\nHost: h\r\nConnection: close\r\n\r\n")] 784111777

/-- What the proxy sends. -/
def test1Request : List Segment :=
  [⟨ascii "GET /test1 HTTP/1.0\r\nHost: h\r\nConnection: close\r\n\r\n", by decide +kernel, by decide +kernel⟩]

/-- What comes back, in two segments. -/
def test1Page : List Segment :=
  [⟨ascii "HTTP/1.0 200 \r\nContent-Type: text/plain\r\nDate: Sun, 06 Nov 1994 08:49:37 GMT\r\n",
      by decide +kernel, by decide +kernel⟩,
    ⟨ascii "Content-Length: 9\r\nExpires: Sun, 06 Nov 1994 08:50:37 GMT\r\n\r\nTest 1: 0",
      by decide +kernel, by decide +kernel⟩]

/-- The first route is asked for, and its page comes back. -/
def test1Once : List Move :=
  [askTest1, .look 0, .accept 0 test1Request 784111777, .finish 0 784111777 784111777,
    .relay 0 test1Page 784111777 .same]

/-- The programs, with the test server on `h`. -/
def webTest : Machine System Move := web november (fun uri => UInt64.ofNat uri.length) ⟨ascii "h", 80⟩ 8

/-- Two handlers that read the counter one after the other and write it after that make the same page. -/
example : (webTest.run .start [askTest1, askTest1, .look 0, .look 0, .accept 0 test1Request 784111777,
    .accept 1 test1Request 784111777, .finish 0 784111777 784111777, .finish 1 784111777 784111777]).map
      (madeNumbers .test1) = some [0, 0] := by
  decide +kernel

/-- Everything that is assumed anywhere. -/
def AsPlanned (s : System) (e : Move) : Prop :=
  Printable november s e ∧ Distinct (fun uri => UInt64.ofNat uri.length) s e ∧ Punctual november s e ∧
    ∀ s' ∈ webTest.step s e, s'.Exclusive

instance (s : System) (e : Move) : Decidable (AsPlanned s e) := by
  unfold AsPlanned
  infer_instance

/-- The first route is asked for twice: the second time the page is in the cache. -/
theorem exists_test1Twice : ∃ s s', webTest.run .start (test1Once ++ [askTest1]) = some s ∧
    webTest.step s (.look 0) = some s' ∧ s.arrived = [⟨ascii "http://h/test1", 784111777⟩] ∧
    s'.proxy.waiting.length = 0 ∧ s'.proxy.delivered.map (fun d => (d.uri, d.fromCache)) =
      [(ascii "http://h/test1", false), (ascii "http://h/test1", true)] ∧
    webTest.Along AsPlanned .start (test1Once ++ [askTest1]) ∧ AsPlanned s (.look 0) := by
  have hrun : (webTest.run .start (test1Once ++ [askTest1])).any (fun s =>
      (webTest.step s (.look 0)).any (fun s' => decide (s.arrived = [⟨ascii "http://h/test1", 784111777⟩] ∧
        s'.proxy.waiting.length = 0 ∧ s'.proxy.delivered.map (fun d => (d.uri, d.fromCache)) =
          [(ascii "http://h/test1", false), (ascii "http://h/test1", true)] ∧
        webTest.Along AsPlanned .start (test1Once ++ [askTest1]) ∧ AsPlanned s (.look 0)))) = true := by
    decide +kernel
  obtain ⟨s, hs, hlast⟩ := (Option.any_eq_true _ _).mp hrun
  obtain ⟨s', hs', hall⟩ := (Option.any_eq_true _ _).mp hlast
  exact ⟨s, s', hs, hs', of_decide_eq_true hall⟩

theorem pages_once_test1 : ∃ s, webTest.run .start (test1Once ++ [askTest1]) = some s ∧
    (freshNumbers ⟨ascii "h", 80⟩ .test1 s ++ underWay .test1 s).Perm (madeNumbers .test1 s) ∧
    madeNumbers .test1 s = List.range (s.counts .test1) ∧ s.counts .test1 = 1 := by
  obtain ⟨s, s', hs, -, -, -, -, halong, -⟩ := exists_test1Twice
  have hreachable := Machine.ReachableUnder.run (.init rfl) halong hs
  obtain ⟨honce, hnumbered⟩ := pages_once november (fun uri => UInt64.ofNat uri.length) ⟨ascii "h", 80⟩ 8 s
    (hreachable.mono fun _ _ hplanned => hplanned.1) .test1
  have hcount : (webTest.run .start (test1Once ++ [askTest1])).map (fun s => s.counts .test1) = some 1 := by
    decide +kernel
  rw [hs, Option.map_some, Option.some.injEq] at hcount
  exact ⟨s, hs, honce, hnumbered (hreachable.mono fun _ _ hplanned => ⟨hplanned.1, hplanned.2.2.2⟩), hcount⟩

end ComputerNetworking.Web
