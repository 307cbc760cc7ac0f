/-
# ComputerNetworking.Web.OwnPages -- whose pages clients get, and how old they are

What the proxy sends for a URI of the test server is a page of the route of that URI, or a 404 if there is no
such route, and any client reads it as the server made it. A page comes out of the cache without the server
having been asked only if the proxy's clock has shown a time before the date in the page. Where the clocks
agree, and a request is looked up as soon as it comes in, that is a page of `/test1` that is less than a minute
old; the others expire before they come in. All this holds while no two URIs have the same hash, whatever else
goes through the proxy.
-/
import ComputerNetworking.Web.ThroughProxy

namespace ComputerNetworking.Web

open ComputerNetworking.Lib ComputerNetworking.Http ComputerNetworking.Proxy
open Uri (colon)

/-! ## URIs that come in -/

/-- What is known of a URI that was taken from a request. -/
structure Sound (uri : Bytes) : Prop where
  noSpace : space ∉ uri
  noLineEnd : ¬ crlf <:+: uri
  short : uri.length ≤ 2 * maxString

section Sound

variable {lib : DateLib} {n : Nat} {reads : List Read} {uri host path name : Bytes} {port : Int}

theorem sound_of_accepts {text : Bytes} {line : RequestLine} (hshort : text.length < maxString)
    (h : Accepts lib text (.request line)) : Sound line.uri.toString := by
  obtain ⟨hspace, hlength⟩ := uri_of_accepts hshort h
  refine ⟨hspace, ?_, by omega⟩
  -- the first line has no line end
  obtain ⟨first, hfits, hline, hparse⟩ : ∃ first, first.length < npos ∧ ¬ crlf <:+: first ∧
      FirstLine.parse first = .ok (.request line) := by
    have hnpos : maxString < npos := by decide
    rcases h with ⟨first, headers, body, rfl, hline, -, hparse, -⟩ | ⟨c, rest, -, -, hparse, -⟩
    · have hle := (length_le_layout first headers body).1
      exact ⟨first, by omega, hline, hparse⟩
    · have hone : [c].length < npos := show 1 < npos by decide
      refine ⟨[c], hone, fun hinside => ?_, hparse⟩
      exact absurd hinside.length_le (show ¬ 2 ≤ 1 by decide)
  have hrequest : RequestLine.parse first = .ok line := by
    unfold FirstLine.parse at hparse
    split_ifs at hparse
    · obtain ⟨_, -, hstatus⟩ := map_eq_ok.mp hparse
      cases hstatus
    · obtain ⟨_, hline, hrequest⟩ := map_eq_ok.mp hparse
      cases hrequest
      exact hline
  intro hinside
  apply RequestLine.not_crlf_toString hfits hrequest hline
  rw [RequestLine.toString_eq]
  exact hinside.trans ⟨line.method.toString ++ [space], space :: line.version.toString, by simp⟩

theorem sound_of_receive (h : receive lib n reads = .ok uri) : Sound uri := by
  obtain ⟨text, htext, h⟩ := bind_eq_ok.mp h
  obtain ⟨request, hrequest, h⟩ := bind_eq_ok.mp h
  obtain ⟨-, hshort⟩ := readAll_eq_ok_iff.mp htext
  obtain ⟨line, hline, rfl⟩ := getUri_eq_ok_iff.mp h
  have haccepts := accepts_of_construct hshort hrequest
  rw [hline] at haccepts
  exact sound_of_accepts hshort haccepts

/-- The host without its port is the front of it. -/
theorem prefix_of_getHostAndPort (hlen : name.length < npos) (h : getHostAndPort name = .ok (host, port)) :
    host <+: name := by
  rcases notMem_or_cutLast colon name with hnone | ⟨front, behind, rfl, hbehind⟩
  · rw [getHostAndPort_none hnone] at h
    cases h
    exact List.prefix_rfl
  · rw [getHostAndPort_colon hbehind hlen] at h
    obtain ⟨number, -, h⟩ := bind_eq_ok.mp h
    cases h
    exact List.prefix_append ..

/-- What the proxy takes from such a URI can be sent. -/
theorem Sound.of_target (h : Sound uri) (htarget : target uri = .ok (host, port, path)) :
    space ∉ path ∧ ¬ crlf <:+: path ∧ ¬ crlf <:+: host ∧ path.length + host.length + 16 < npos := by
  have hmax : 4 * maxString + 32 < npos := by decide
  have hshort := h.short
  have hfits : uri.length < npos := by omega
  obtain ⟨⟨name, path'⟩, hcut, htarget⟩ := bind_eq_ok.mp htarget
  obtain ⟨⟨host', port'⟩, hport, htarget⟩ := bind_eq_ok.mp htarget
  cases htarget
  rw [getHostAndPathFromUri_eq hfits] at hcut
  cases hcut
  have hname : hostOf uri <:+: uri :=
    (List.takeWhile_prefix (· ≠ slash)).isInfix.trans (behindScheme_suffix uri).isInfix
  have hhost := prefix_of_getHostAndPort (Nat.lt_of_le_of_lt hname.length_le hfits) hport
  have hinside : host <:+: uri := hhost.isInfix.trans hname
  refine ⟨fun hmem => ?_, fun hmem => ?_, fun hmem => h.noLineEnd (hmem.trans hinside), ?_⟩
  · rcases List.mem_append.mp (pathOf_subset uri hmem) with hmem | hmem
    · exact h.noSpace hmem
    · exact absurd (List.mem_singleton.mp hmem) (by decide)
  · unfold pathOf at hmem
    split at hmem
    · exact absurd hmem (by decide)
    · have hsuffix := (List.dropWhile_suffix (· ≠ slash)).trans (behindScheme_suffix uri)
      exact h.noLineEnd (hmem.trans hsuffix.isInfix)
  · have hpath := length_pathOf_le uri
    have hlength := hinside.length_le
    omega

end Sound

/-! ## What the server makes of what the proxy sends -/

section Served

variable {lib : DateLib} {site : Site} {n : Nat} {x : Exchange} {out : Outgoing} {made : Plan}
  {segments : List Segment} {now : Int} {date : Option Int}

/-- The additional header is read as it is printed. -/
theorem ifModifiedSince_eq (h : ∀ d ∈ date, Shows lib d) : ifModifiedSince lib date =
      .ok (date.map fun d => Header.extension (ascii "If-Modified-Since") (lib.format d)).toList ∧
    ∀ header ∈ (date.map fun d => Header.extension (ascii "If-Modified-Since") (lib.format d)).toList,
      Stable lib header := by
  rcases date with _ | d
  · exact ⟨rfl, by simp⟩
  · have hshows := h d rfl
    have hshort := hshows.short
    have hname : (ascii "If-Modified-Since").length = 17 := rfl
    have hmax : 256 < npos := by decide
    have hcut : ascii "If-Modified-Since: " ++ lib.format d =
        ascii "If-Modified-Since" ++ colon :: space :: lib.format d := by
      simp [ascii, colon, space]
    have hparse : Header.parse lib (ascii "If-Modified-Since: " ++ lib.format d) =
        .ok (.extension (ascii "If-Modified-Since") (lib.format d)) := by
      rw [hcut, Header.parse_cut (by decide)]
      · exact makes_extension (by decide) _
      · simp only [List.length_append, List.length_cons]
        omega
    constructor
    · rw [ifModifiedSince, hparse]
      rfl
    · intro header hmem
      rw [List.mem_singleton.mp hmem]
      exact stable_extension (by decide) (by decide) hshows.line (by decide) (by omega)

/-- What the proxy sends to the test server comes in as it was made. -/
theorem exists_sent (hsound : Sound x.uri) (hdates : ∀ d ∈ x.ifModifiedSince, Shows lib d)
    (hout : outgoing lib x = .ok out) (hsite : out.host = site.host ∧ out.port = site.port) :
    ∃ uri, site.uri x.uri = some uri ∧ getUri out.request = .ok uri ∧ Sendable lib out.request := by
  obtain ⟨path, htarget, hpath⟩ := path_of_outgoing hout hsite
  obtain ⟨hspace, hline, hhost, hlen⟩ := hsound.of_target htarget
  obtain ⟨hmade, hstable⟩ := ifModifiedSince_eq hdates
  obtain ⟨u, request, hu, hrequest, -, huri, hsendable⟩ :=
    exists_sendable lib hspace hline hhost hlen hstable
  have hsent : outgoing lib x = .ok ⟨out.host, out.port, request⟩ := by
    apply bind_eq_ok.mpr ⟨_, htarget, ?_⟩
    apply bind_eq_ok.mpr ⟨_, hmade, ?_⟩
    exact bind_eq_ok.mpr ⟨_, hrequest, rfl⟩
  rw [hsent, Except.ok.injEq] at hout
  refine ⟨u.toString, ?_, ?_, ?_⟩
  · rw [Site.uri, hpath, Option.bind_some, hu]
    rfl
  · rw [← hout]
    exact huri
  · rw [← hout]
    exact hsendable

/-- **What the server does depends on the URI that the proxy was asked for.** -/
theorem accept_sent (hsound : Sound x.uri) (hdates : ∀ d ∈ x.ifModifiedSince, Shows lib d)
    (hout : outgoing lib x = .ok out) (hsite : out.host = site.host ∧ out.port = site.port)
    (hstream : stream segments = out.request.toString lib)
    (haccept : accept (lib.at now) n (segments.map fun segment => .data segment.bytes) = .ok made) :
    (∃ route, site.route x.uri = some route ∧ made = .page route) ∨
      (site.route x.uri = some .test5 ∧ made = .empty .notModified) ∨
      (site.route x.uri = none ∧ made = .empty .notFound) := by
  obtain ⟨uri, hsame, huri, hsendable⟩ := exists_sent hsound hdates hout hsite
  obtain ⟨text, htext, haccept⟩ := bind_eq_ok.mp haccept
  obtain ⟨request, hrequest, hplan⟩ := bind_eq_ok.mp haccept
  rw [hsendable.readAll_eq hstream] at htext
  obtain ⟨rfl, hshort⟩ := checkLength_eq_ok_iff.mp htext
  cases constructs_unique (constructs_of_construct hrequest) (hsendable.constructs hshort now)
  rw [Site.route, hsame, Option.bind_some]
  by_cases hroute : ∃ route : Route, uri = route.path
  · obtain ⟨route, rfl⟩ := hroute
    rw [plan_route huri] at hplan
    rw [find_eq_some_iff.mpr rfl]
    split_ifs at hplan with hold
    · cases hplan
      exact .inr (.inl ⟨by rw [hold.2], rfl⟩)
    · cases hplan
      exact .inl ⟨route, rfl, rfl⟩
  · have hnone := fun route hpath => hroute ⟨route, hpath⟩
    rw [plan_notFound huri hnone] at hplan
    cases hplan
    refine .inr (.inr ⟨?_, rfl⟩)
    rw [Option.eq_none_iff_forall_not_mem]
    exact fun route hfound => hnone route (find_eq_some_iff.mp hfound)

end Served

/-! ## What the proxy has for a URI of the server -/

/-- A response of the server to this URI: a page of its route, or a 404. -/
def OwnBy (lib : DateLib) (site : Site) (made : List Made) (uri : Bytes) (m : Message) : Prop :=
  (∃ page ∈ made, site.route uri = some page.route ∧ m = (page.message lib).asRead) ∨
    (site.route uri = none ∧ m = (Message.ofCode .notFound).asRead)

/-- A page can be printed. -/
structure Made.Fits (lib : DateLib) (page : Made) : Prop where
  shows : ShowsAt lib page.now page.later
  small : page.number < 0x80000000

/-- When a page expires. -/
def Made.expiration (page : Made) : Int := page.route.expiration page.now page.later

/-- An entry is no 304, and a request has brought it in whose URI has this hash. -/
structure Kept (hash : Bytes → UInt64) (requested : List Bytes) (came : List Arrival) (k : UInt64) (e : Entry) :
    Prop where
  code : e.response.statusCode ≠ .known .notModified
  brought : ∃ x ∈ came, x.uri ∈ requested ∧ hash x.uri = k ∧
    e.expiration = e.response.expirationTime x.now

/-- What is known of how far the server is with a request that waits. -/
def Answered (lib : DateLib) (site : Site) (made : List Made) (x : Exchange) : Progress → Prop
  | .unread => True
  | .counting route _ => (site.path x.uri).isSome ∧ site.route x.uri = some route
  | .done m => (site.path x.uri).isSome ∧ Readable lib m ∧ (OwnBy lib site made x.uri m.asRead ∨
      (site.route x.uri = some .test5 ∧ m = .ofCode .notModified))

/-- A request that waits: it has come in, and if it goes to the server its date can be printed. -/
structure Pending (lib : DateLib) (site : Site) (came : List Arrival) (x : Exchange) : Prop where
  came : ⟨x.uri, x.now⟩ ∈ came
  date : (site.path x.uri).isSome → ∀ d ∈ x.ifModifiedSince, Shows lib d

/-- What was sent for a URI of the server is of the server's making. -/
def Rightful (lib : DateLib) (site : Site) (made : List Made) (d : Delivery) : Prop :=
  (site.path d.uri).isSome → OwnBy lib site made d.uri d.response.message

structure Own (lib : DateLib) (hash : Bytes → UInt64) (site : Site) (s : System) : Prop where
  linked : Linked hash s.proxy
  came : ∀ x ∈ s.came, Sound x.uri ∧ Shows lib x.now
  arrived : s.arrived ⊆ s.came
  made : ∀ page ∈ s.made, page.Fits lib
  waiting : ∀ x ∈ s.proxy.waiting, Pending lib site s.came x
  answered : List.Forall₂ (Answered lib site s.made) s.proxy.waiting s.progress
  received : ∀ u r, (u, r) ∈ s.proxy.received → (site.path u).isSome →
    OwnBy lib site s.made u r.message ∨ r.statusCode = .known .notModified
  entries : ∀ k e, s.proxy.cache.lookup k = some e → Kept hash s.proxy.requested s.came k e
  delivered : ∀ d ∈ s.proxy.delivered, Rightful lib site s.made d

/-- What comes out of the cache is of one of two routes. -/
def CachedRoutes (site : Site) (s : System) : Prop :=
  ∀ d ∈ s.proxy.delivered, (site.path d.uri).isSome → d.fromCache = true →
    site.route d.uri = some .test1 ∨ site.route d.uri = some .test5

section Parts

variable {lib : DateLib} {hash : Bytes → UInt64} {site : Site} {made made' : List Made}
  {requested requested' : List Bytes} {came came' : List Arrival} {k : UInt64} {uri : Bytes} {m : Message}
  {e e' : Entry} {r : Response} {now : Int}

theorem OwnBy.mono (h : OwnBy lib site made uri m) (hmade : made ⊆ made') : OwnBy lib site made' uri m := by
  rcases h with ⟨page, hpage, hroute, hm⟩ | hnone
  · exact .inl ⟨page, hmade hpage, hroute, hm⟩
  · exact .inr hnone

theorem statusCode_of_asRead {code : KnownCode} {headers : List Header} {body : Option Bytes}
    (h : r.message = (Message.mk (.status ⟨.http10, .known code, none⟩) headers body).asRead) :
    r.statusCode = .known code := by
  have hline := r.isStatus
  rw [h] at hline
  exact congrArg StatusLine.code (FirstLine.status.inj hline).symm

/-- It is no 304. -/
theorem OwnBy.code (h : OwnBy lib site made uri r.message) : r.statusCode ≠ .known .notModified := by
  rcases h with ⟨page, -, -, hm⟩ | ⟨-, hm⟩
  · rw [statusCode_of_asRead hm]
    decide
  · rw [statusCode_of_asRead hm]
    decide

/-- A response of the server is read as it is. -/
theorem OwnBy.constructs (h : OwnBy lib site made uri r.message) (hmade : ∀ page ∈ made, page.Fits lib)
    (now : Int) : Constructs (lib.at now) (r.message.toString lib) r.message := by
  have hreadable : ∀ m, Readable lib m → r.message = m.asRead →
      Constructs (lib.at now) (r.message.toString lib) r.message := by
    intro m hm hr
    obtain ⟨hagain, hsame⟩ := hm.asRead
    have hconstructs := hagain.constructs now
    rwa [hsame, ← hr] at hconstructs
  rcases h with ⟨page, hpage, -, hr⟩ | ⟨-, hr⟩
  · exact hreadable _ (readable_page (hmade page hpage).shows (hmade page hpage).small) hr
  · exact hreadable _ (readable_ofCode _) hr

theorem Kept.mono (h : Kept hash requested came k e) (hrequested : requested ⊆ requested')
    (hcame : came ⊆ came') : Kept hash requested' came' k e := by
  obtain ⟨x, hx, huri, hrest⟩ := h.brought
  exact ⟨h.code, x, hcame hx, hrequested huri, hrest⟩

theorem Kept.same (h : Kept hash requested came k e) (hsame : e'.Same e) : Kept hash requested came k e' := by
  obtain ⟨hresponse, hexpiration⟩ := hsame
  obtain ⟨hcode, hbrought⟩ := h
  rw [hresponse] at hcode hbrought
  rw [hexpiration] at hbrought
  exact ⟨hcode, hbrought⟩

/-- Touching an entry keeps what is known of all of them. -/
theorem kept_touch {cache : Cache} (h : ∀ k e, cache.lookup k = some e → Kept hash requested came k e)
    {key : UInt64} (hkey : cache.lookup key = some e) (used : Int) :
    ∀ k e', (cache.replace key { e with lastUsed := used }).lookup k = some e' →
      Kept hash requested came k e' := by
  intro k e' he'
  obtain ⟨old, hold, hsame⟩ := lookup_touch hkey he'
  exact (h k old hold).same hsame

/-- A response that is no 304 is stored with its expiration time. -/
theorem kept_store {cache : Cache} (h : ∀ k e, cache.lookup k = some e → Kept hash requested came k e)
    (hcame : ⟨uri, now⟩ ∈ came) (huri : uri ∈ requested) (hcode : r.statusCode ≠ .known .notModified)
    (layout : Layout) :
    ∀ k e, (layout.place (store cache (hash uri) ⟨now, r.expirationTime now, r⟩)).lookup k = some e →
      Kept hash requested came k e := by
  intro k e he
  rw [layout.lookup] at he
  rcases lookup_of_store he with ⟨rfl, rfl⟩ | hold
  · exact ⟨hcode, ⟨uri, now⟩, hcame, huri, rfl, rfl⟩
  · exact h k e hold

/-- The expiration time of a page can be printed. -/
theorem Made.Fits.shows_expiration {page : Made} (h : page.Fits lib) : Shows lib page.expiration := by
  obtain ⟨hdate, hexpires, hexpired, hold⟩ := h.shows
  unfold Made.expiration
  rcases page.route
  · exact hexpires
  · exact hexpired
  · exact hexpired
  · exact hold
  · exact hdate

/-- **Pages expire before they come in**, but those of one route. -/
theorem Made.route_of_expiration {page : Made} (hnow : page.now ≤ now) (hlater : page.later ≤ now)
    (hahead : now < page.expiration) : page.route = .test1 ∧ now < page.later + 60 := by
  unfold Made.expiration at hahead
  rcases hroute : page.route with _ | _ | _ | _ | _ <;> rw [hroute] at hahead <;>
    simp only [Route.expiration] at hahead
  · exact ⟨rfl, hahead⟩
  all_goals omega

/-- **The expiration time of an entry for a URI of the server** is that of the page, or of a 404 the time at
which a request for this URI came in. -/
theorem Kept.expiration (h : Kept hash requested came k e) (hown : OwnBy lib site made uri e.response.message) :
    (∃ page ∈ made, site.route uri = some page.route ∧ e.response.message = (page.message lib).asRead ∧
        e.expiration = page.expiration) ∨
      (site.route uri = none ∧ e.response.message = (Message.ofCode .notFound).asRead ∧
        ∃ x ∈ came, x.uri ∈ requested ∧ hash x.uri = k ∧ e.expiration = x.now) := by
  obtain ⟨x, hx, hin, hhash, hexpiration⟩ := h.brought
  rcases hown with ⟨page, hpage, hroute, hm⟩ | ⟨hroute, hm⟩
  · rw [expirationTime_page hm] at hexpiration
    exact .inl ⟨page, hpage, hroute, hm, hexpiration⟩
  · have hnow : e.response.expirationTime x.now = x.now := by
      unfold Response.expirationTime Response.headerDate
      rw [hm]
      rfl
    rw [hnow] at hexpiration
    exact .inr ⟨hroute, hm, x, hx, hin, hhash, hexpiration⟩

theorem Pending.mono {x : Exchange} (h : Pending lib site came x) (hcame : came ⊆ came') :
    Pending lib site came' x := ⟨hcame h.came, h.date⟩

theorem Rightful.mono {d : Delivery} (h : Rightful lib site made d) (hmade : made ⊆ made') :
    Rightful lib site made' d := fun hsite => (h hsite).mono hmade

theorem Answered.mono {x : Exchange} {p : Progress} (h : Answered lib site made x p) (hmade : made ⊆ made') :
    Answered lib site made' x p := by
  cases p with
  | unread => trivial
  | counting => exact h
  | done m =>
      obtain ⟨hsite, hreadable, hown⟩ := h
      exact ⟨hsite, hreadable, hown.imp_left fun hown => hown.mono hmade⟩

end Parts

/-! ## Every move -/

section Moves

variable {lib : DateLib} {hash : Bytes → UInt64} {site : Site} {n : Nat} {s s' : System} {i : Nat}
  {now later : Int} {uri : Bytes} {e : Entry} {a : Arrival} {x : Exchange} {r : Response}

/-- The entry that is found for a URI of the server is a response to it. -/
theorem Own.entry (h : Own lib hash site s) (huri : uri ∈ s.proxy.requested) (hsite : (site.path uri).isSome)
    (he : s.proxy.cache.lookup (hash uri) = some e) : OwnBy lib site s.made uri e.response.message := by
  have hreceived := h.received _ _ (h.linked.own huri he) hsite
  exact hreceived.resolve_right (h.entries _ _ he).code

/-- While URIs do not collide, an entry is found only for a URI that was asked for before. -/
theorem Own.requested (h : Own lib hash site s) (hfree : ∀ u ∈ s.proxy.requested, hash u = hash uri → u = uri)
    (he : s.proxy.cache.lookup (hash uri) = some e) : uri ∈ s.proxy.requested := by
  obtain ⟨u, hu, hhash, -⟩ := h.linked.entries _ e he
  rwa [hfree u hu hhash] at hu

/-- The expiration time that goes into a request can be printed. -/
theorem Own.shows_expiration (h : Own lib hash site s) (huri : uri ∈ s.proxy.requested)
    (hsite : (site.path uri).isSome) (he : s.proxy.cache.lookup (hash uri) = some e) :
    Shows lib e.expiration := by
  rcases (h.entries _ _ he).expiration (h.entry huri hsite he) with ⟨page, hpage, -, -, hexpiration⟩ |
    ⟨-, -, x, hx, -, -, hexpiration⟩
  · rw [hexpiration]
    exact (h.made page hpage).shows_expiration
  · rw [hexpiration]
    exact (h.came x hx).2

theorem own_ask (h : Own lib hash site s) {reads : List Read} (hprint : Printable lib s (.ask reads now))
    (hs : move lib hash site n s (.ask reads now) = some s') : Own lib hash site s' := by
  obtain ⟨uri, hreceive, -, rfl⟩ := move_ask hs
  have hmore := List.subset_append_left s.came [⟨uri, now⟩]
  refine ⟨h.linked, ?_, ?_, h.made, fun x hmem => (h.waiting x hmem).mono hmore, h.answered, h.received,
    fun k e he => (h.entries k e he).mono (List.Subset.refl _) hmore, h.delivered⟩
  · rw [List.forall_mem_append, List.forall_mem_singleton]
    exact ⟨h.came, sound_of_receive hreceive, hprint⟩
  · exact List.append_subset.mpr ⟨fun y hy => hmore (h.arrived hy), List.subset_append_right ..⟩

theorem own_look (h : Own lib hash site s) (hdistinct : Distinct hash s (.look i))
    (hs : move lib hash site n s (.look i) = some s') : Own lib hash site s' := by
  obtain ⟨⟨uri, now⟩, ha, rfl⟩ := move_look hs
  have hfree : ∀ u ∈ s.proxy.requested, hash u = hash uri → u = uri := hdistinct ⟨uri, now⟩ ha
  have hlinked : Linked hash (request hash s.proxy uri now) := linked_request h.linked hfree
  have harrived : s.arrived.eraseIdx i ⊆ s.came := fun y hy => h.arrived (List.mem_of_mem_eraseIdx hy)
  have hmore := List.subset_append_left s.proxy.requested [uri]
  have hentries : ∀ k e, s.proxy.cache.lookup k = some e →
      Kept hash (s.proxy.requested ++ [uri]) s.came k e := fun k e he =>
    (h.entries k e he).mono hmore (List.Subset.refl _)
  by_cases hfresh : Fresh s.proxy.cache (hash uri) now
  · -- sent out of the cache
    obtain ⟨e, hlook, hahead, hrequest⟩ := request_of_fresh hfresh
    simp only [if_pos hfresh]
    rw [hrequest] at hlinked ⊢
    refine ⟨hlinked, h.came, harrived, h.made, h.waiting, h.answered, h.received,
      kept_touch hentries hlook now, ?_⟩
    rw [List.forall_mem_append, List.forall_mem_singleton]
    exact ⟨h.delivered, fun hsite => h.entry (h.requested hfree hlook) hsite hlook⟩
  · -- waiting, with the date of the entry
    simp only [if_neg hfresh]
    rw [request_of_not_fresh hfresh] at hlinked ⊢
    refine ⟨hlinked, h.came, harrived, h.made, ?_, ?_, h.received, hentries, h.delivered⟩
    · rw [List.forall_mem_append, List.forall_mem_singleton]
      refine ⟨h.waiting, h.arrived (List.mem_of_getElem? ha), fun hsite d hd => ?_⟩
      obtain ⟨e, hlook, rfl⟩ := Option.map_eq_some_iff.mp hd
      exact h.shows_expiration (h.requested hfree hlook) hsite hlook
    · exact List.rel_append h.answered (.cons trivial .nil)

theorem own_accept (h : Own lib hash site s) {segments : List Segment}
    (hs : move lib hash site n s (.accept i segments now) = some s') : Own lib hash site s' := by
  obtain ⟨x, out, plan, hx, hout, hsite, -, hstream, haccept, rfl⟩ := move_accept hs
  have hpending := h.waiting x (List.mem_of_getElem? hx)
  obtain ⟨path, -, hpath⟩ := path_of_outgoing hout hsite
  have hisSome : (site.path x.uri).isSome := by
    rw [hpath]
    rfl
  have hplan : Answered lib site s.made x (.ofPlan s.counts plan) := by
    rcases accept_sent (h.came _ hpending.came).1 (hpending.date hisSome) hout hsite hstream haccept with
      ⟨route, hroute, rfl⟩ | ⟨hroute, rfl⟩ | ⟨hroute, rfl⟩
    · exact ⟨hisSome, hroute⟩
    · exact ⟨hisSome, readable_ofCode _, .inr ⟨hroute, rfl⟩⟩
    · exact ⟨hisSome, readable_ofCode _, .inl (.inr ⟨hroute, rfl⟩)⟩
  refine ⟨h.linked, h.came, h.arrived, h.made, h.waiting, ?_, h.received, h.entries, h.delivered⟩
  apply forall₂_set h.answered
  intro y hy
  cases hx.symm.trans hy
  exact hplan

theorem own_finish (h : Own lib hash site s) (hprint : Printable lib s (.finish i now later))
    (hs : move lib hash site n s (.finish i now later) = some s') : Own lib hash site s' := by
  obtain ⟨route, k, hi, hbound, hshows, rfl⟩ := exists_page hprint hs
  have hsmall : k < 0x80000000 := Nat.lt_trans hbound (by decide)
  have hmore := List.subset_append_left s.made [⟨route, k, now, later⟩]
  refine ⟨h.linked, h.came, h.arrived, ?_, h.waiting, ?_, fun u r hmem hsite => ?_, h.entries,
    fun d hmem => (h.delivered d hmem).mono hmore⟩
  · rw [List.forall_mem_append, List.forall_mem_singleton]
    exact ⟨h.made, hshows, hsmall⟩
  · apply forall₂_set (h.answered.imp fun _ _ hold => hold.mono hmore)
    intro x hx
    obtain ⟨hsite, hroute⟩ := forall₂_getElem? h.answered hx hi
    refine ⟨hsite, readable_page hshows hsmall, .inl (.inl ?_)⟩
    exact ⟨⟨route, k, now, later⟩, List.mem_append_right _ (List.mem_singleton.mpr rfl), hroute, rfl⟩
  · exact (h.received u r hmem hsite).imp_left fun hown => hown.mono hmore

/-- What is relayed for a URI of the server is of the server's making, or a 304 for one route. -/
theorem Own.relayed (h : Own lib hash site s) {segments : List Segment} {layout : Layout}
    (hs : move lib hash site n s (.relay i segments now layout) = some s') :
    ∃ x r proxy, s.proxy.waiting[i]? = some x ∧ step hash s.proxy (.answer i r layout) = some proxy ∧
      s' = { s with proxy, progress := s.progress.eraseIdx i } ∧
      (OwnBy lib site s.made x.uri r.message ∨
        (site.route x.uri = some .test5 ∧ r.statusCode = .known .notModified)) := by
  obtain ⟨message, r, proxy, hdone, hread, hstep, rfl⟩ := move_relay hs
  obtain ⟨x, hx, -⟩ := step_answer_cases hstep
  obtain ⟨-, hreadable, hown⟩ := forall₂_getElem? h.answered hx hdone
  have hmessage : r.message = message.asRead := constructs_unique hread (hreadable.constructs now)
  refine ⟨x, r, proxy, hx, hstep, rfl, ?_⟩
  rcases hown with hown | ⟨hroute, hold⟩
  · rw [hmessage]
    exact .inl hown
  · rw [hold] at hmessage
    exact .inr ⟨hroute, statusCode_of_asRead hmessage⟩

/-- An answer that comes in, from the server or from elsewhere. -/
theorem own_answer (h : Own lib hash site s) {layout : Layout} {proxy : State}
    (hx : s.proxy.waiting[i]? = some x)
    (hnew : (site.path x.uri).isSome → OwnBy lib site s.made x.uri r.message ∨
      (site.route x.uri = some .test5 ∧ r.statusCode = .known .notModified))
    (hstep : step hash s.proxy (.answer i r layout) = some proxy) :
    Own lib hash site { s with proxy, progress := s.progress.eraseIdx i } := by
  obtain ⟨y, hy, hwaiting, hrequested, hreceived, hcases⟩ := step_answer_cases hstep
  cases hx.symm.trans hy
  have hmem := List.mem_of_getElem? hx
  have huri := h.linked.waiting x hmem
  refine ⟨linked_answer h.linked hx hstep, h.came, h.arrived, h.made, ?_, ?_, ?_, ?_, ?_⟩
  · rw [hwaiting]
    exact fun y hy => h.waiting y (List.mem_of_mem_eraseIdx hy)
  · rw [hwaiting]
    exact forall₂_eraseIdx h.answered
  · intro u r' hin hsite
    rw [hreceived] at hin
    rcases List.mem_append.mp hin with hin | hin
    · exact h.received u r' hin hsite
    · cases List.mem_singleton.mp hin
      exact (hnew hsite).imp_right And.right
  · rw [hrequested]
    rcases hcases with ⟨-, entry, hlook, hcache, -⟩ | ⟨hcode, hcache, -⟩
    · rw [hcache]
      exact kept_touch h.entries hlook x.now
    · rw [hcache]
      exact kept_store h.entries (h.waiting x hmem).came huri hcode layout
  · rcases hcases with ⟨hcode, entry, hlook, -, hdelivered⟩ | ⟨hcode, -, hdelivered⟩
    · -- a 304: the page is the one in the cache
      rw [hdelivered, List.forall_mem_append, List.forall_mem_singleton]
      exact ⟨h.delivered, fun hsite => h.entry huri hsite hlook⟩
    · rw [hdelivered, List.forall_mem_append, List.forall_mem_singleton]
      refine ⟨h.delivered, fun hsite => ?_⟩
      exact (hnew hsite).resolve_right fun hold => hcode hold.2

theorem own_elsewhere (h : Own lib hash site s) {layout : Layout}
    (hs : move lib hash site n s (.elsewhere i r layout) = some s') : Own lib hash site s' := by
  obtain ⟨x, proxy, hx, hpath, hstep, rfl⟩ := move_elsewhere hs
  apply own_answer h hx _ hstep
  intro hsite
  rw [hpath] at hsite
  cases hsite

theorem linked_start : Linked hash ⟨∅, [], [], [], []⟩ where
  injective := List.forall_mem_nil _
  waiting := List.forall_mem_nil _
  entries k e he := by
    rw [AList.lookup_empty] at he
    cases he
  delivered := List.forall_mem_nil _

theorem own_start : Own lib hash site .start where
  linked := linked_start
  came := List.forall_mem_nil _
  arrived := List.nil_subset _
  made := List.forall_mem_nil _
  waiting := List.forall_mem_nil _
  answered := .nil
  received _ _ hmem := absurd hmem List.not_mem_nil
  entries k e he := by
    change AList.lookup k (∅ : Cache) = some e at he
    rw [AList.lookup_empty] at he
    cases he
  delivered := List.forall_mem_nil _

theorem own_of_reachable
    (h : (web lib hash site n).ReachableUnder (fun s e => Printable lib s e ∧ Distinct hash s e) s) :
    Own lib hash site s := by
  apply h.invariant
  · rintro s rfl
    exact own_start
  · intro s e s' hown hcondition hs
    change move lib hash site n s e = some s' at hs
    cases e with
    | ask reads now => exact own_ask hown hcondition.1 hs
    | look i => exact own_look hown hcondition.2 hs
    | accept i segments now => exact own_accept hown hs
    | finish i now later => exact own_finish hown hcondition.1 hs
    | relay i segments now layout =>
        obtain ⟨x, r, proxy, hx, hstep, rfl, hnew⟩ := hown.relayed hs
        exact own_answer hown hx (fun _ => hnew) hstep
    | elsewhere i r layout => exact own_elsewhere hown hs

/-! ### What comes out of the cache -/

/-- **What a fresh entry for a URI of the server is**: a page that expires later than the proxy's clock has
shown, or a 404 for a request that came in later than that. -/
theorem Own.fresh (h : Own lib hash site s) (hfree : ∀ u ∈ s.proxy.requested, hash u = hash uri → u = uri)
    (hsite : (site.path uri).isSome) (hlook : s.proxy.cache.lookup (hash uri) = some e)
    (hahead : now < e.expiration) :
    (∃ page ∈ s.made, site.route uri = some page.route ∧ e.response.message = (page.message lib).asRead ∧
        now < page.expiration) ∨
      (site.route uri = none ∧ e.response.message = (Message.ofCode .notFound).asRead ∧
        ∃ x ∈ s.came, x.uri = uri ∧ now < x.now) := by
  have hown := h.entry (h.requested hfree hlook) hsite hlook
  rcases (h.entries _ _ hlook).expiration hown with ⟨page, hpage, hroute, hm, hexpiration⟩ |
    ⟨hroute, hm, x, hx, hin, hhash, hexpiration⟩
  · rw [hexpiration] at hahead
    exact .inl ⟨page, hpage, hroute, hm, hahead⟩
  · rw [hexpiration] at hahead
    exact .inr ⟨hroute, hm, x, hx, hfree _ hin hhash, hahead⟩

/-- **Where the clocks agree it is young.** -/
theorem young_of_punctual (hpunctual : Punctual lib s (.look i)) (ha : s.arrived[i]? = some a)
    (hreceived : (a.uri, r) ∈ s.proxy.received)
    (hfresh : (∃ page ∈ s.made, site.route a.uri = some page.route ∧ r.message = (page.message lib).asRead ∧
        a.now < page.expiration) ∨
      (site.route a.uri = none ∧ r.message = (Message.ofCode .notFound).asRead ∧
        ∃ x ∈ s.came, x.uri = a.uri ∧ a.now < x.now)) :
    ∃ page ∈ s.made, page.route = .test1 ∧ site.route a.uri = some .test1 ∧
      r.message = (page.message lib).asRead ∧ page.later ≤ a.now ∧ a.now < page.later + 60 := by
  obtain ⟨hpages, harrivals⟩ := hpunctual a ha
  rcases hfresh with ⟨page, hpage, hroute, hm, hahead⟩ | ⟨-, -, x, hx, -, hahead⟩
  · obtain ⟨hnow, hlater⟩ := hpages page hpage ⟨_, hreceived, hm⟩
    obtain ⟨htest, hyoung⟩ := Made.route_of_expiration hnow hlater hahead
    rw [htest] at hroute
    exact ⟨page, hpage, htest, hroute, hm, hlater, hyoung⟩
  · have hle := harrivals x hx
    omega

theorem cachedRoutes_look (hown : Own lib hash site s) (h : CachedRoutes site s)
    (hdistinct : Distinct hash s (.look i)) (hpunctual : Punctual lib s (.look i))
    (hs : move lib hash site n s (.look i) = some s') : CachedRoutes site s' := by
  obtain ⟨a, ha, rfl⟩ := move_look hs
  by_cases hfresh : Fresh s.proxy.cache (hash a.uri) a.now
  · obtain ⟨e, hlook, hahead, hrequest⟩ := request_of_fresh hfresh
    unfold CachedRoutes
    rw [hrequest, List.forall_mem_append, List.forall_mem_singleton]
    refine ⟨h, fun hsite _ => .inl ?_⟩
    obtain ⟨page, -, -, hroute, -⟩ := young_of_punctual hpunctual ha
      (hown.linked.own (hown.requested (hdistinct a ha) hlook) hlook)
      (hown.fresh (hdistinct a ha) hsite hlook hahead)
    exact hroute
  · unfold CachedRoutes
    rw [request_of_not_fresh hfresh]
    exact h

/-- Of what comes in, only a 304 lets something come out of the cache. -/
theorem cachedRoutes_answer (h : CachedRoutes site s) {layout : Layout} {proxy : State}
    (hx : s.proxy.waiting[i]? = some x)
    (hnew : (site.path x.uri).isSome → r.statusCode = .known .notModified → site.route x.uri = some .test5)
    (hstep : step hash s.proxy (.answer i r layout) = some proxy) :
    CachedRoutes site { s with proxy, progress := s.progress.eraseIdx i } := by
  obtain ⟨y, hy, -, -, -, hcases⟩ := step_answer_cases hstep
  cases hx.symm.trans hy
  unfold CachedRoutes
  rcases hcases with ⟨hcode, entry, -, -, hdelivered⟩ | ⟨-, -, hdelivered⟩
  · rw [hdelivered, List.forall_mem_append, List.forall_mem_singleton]
    exact ⟨h, fun hsite _ => .inr (hnew hsite hcode)⟩
  · rw [hdelivered, List.forall_mem_append, List.forall_mem_singleton]
    refine ⟨h, fun _ hcached => ?_⟩
    cases hcached

theorem cachedRoutes_of_reachable (h : (web lib hash site n).ReachableUnder
    (fun s e => (Printable lib s e ∧ Distinct hash s e) ∧ Punctual lib s e) s) : CachedRoutes site s := by
  apply h.invariant_of_reachable
  · rintro s rfl
    exact List.forall_mem_nil _
  · intro s e s' hreachable hcached hcondition hs
    have hown := own_of_reachable (hreachable.mono fun _ _ hcondition => hcondition.1)
    change move lib hash site n s e = some s' at hs
    cases e with
    | ask reads now =>
        obtain ⟨uri, -, -, rfl⟩ := move_ask hs
        exact hcached
    | look i => exact cachedRoutes_look hown hcached hcondition.1.2 hcondition.2 hs
    | accept i segments now =>
        obtain ⟨x, out, plan, -, -, -, -, -, -, rfl⟩ := move_accept hs
        exact hcached
    | finish i now later =>
        obtain ⟨route, k, message, -, -, rfl⟩ := move_finish hs
        exact hcached
    | relay i segments now layout =>
        obtain ⟨x, r, proxy, hx, hstep, rfl, hnew⟩ := hown.relayed hs
        refine cachedRoutes_answer hcached hx (fun _ hcode => ?_) hstep
        rcases hnew with hnew | ⟨hroute, -⟩
        · exact absurd hcode hnew.code
        · exact hroute
    | elsewhere i r layout =>
        obtain ⟨x, proxy, hx, hpath, hstep, rfl⟩ := move_elsewhere hs
        refine cachedRoutes_answer hcached hx (fun hsite _ => ?_) hstep
        rw [hpath] at hsite
        cases hsite

end Moves

end ComputerNetworking.Web
