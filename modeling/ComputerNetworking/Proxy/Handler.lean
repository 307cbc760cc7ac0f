/-
# ComputerNetworking.Proxy.Handler -- requests through the proxy

Each request runs in a thread of its own over one cache. It looks its URI up; a fresh entry is sent
back at once, and otherwise the request goes to the origin, with the date of a stale entry if there
is one, and waits. When the answer comes, a 304 sends back the cached response, and any other answer
is sent back and stored. Between the two any number of other requests can go by. A run in which no
request starts while another waits is a sequential one.

The hash is a parameter, and so is the order in which iteration finds the entries after one has been
added. What origins have answered and what clients have been sent is logged.
-/
import ComputerNetworking.Lib.Transition
import ComputerNetworking.Proxy.Cache

namespace ComputerNetworking.Proxy

open ComputerNetworking.Lib ComputerNetworking.Http

/-- A request that waits for its origin. `now` is the time at which it came, and `ifModifiedSince` the
date of its additional header. -/
structure Exchange where
  uri : Bytes
  now : Int
  ifModifiedSince : Option Int

/-- A response sent to the client that asked for `uri`. -/
structure Delivery where
  uri : Bytes
  response : Response
  fromCache : Bool

/-- The proxy, with its logs. -/
structure State where
  cache : Cache
  waiting : List Exchange
  requested : List Bytes
  received : List (Bytes × Response)
  delivered : List Delivery

/-- A rearrangement of the entries. -/
structure Layout where
  place : Cache → Cache
  perm : ∀ cache, (place cache).entries.Perm cache.entries

theorem Layout.lookup (layout : Layout) (cache : Cache) (k : UInt64) :
    (layout.place cache).lookup k = cache.lookup k :=
  AList.perm_lookup (layout.perm cache)

/-- The entries stay as they are. -/
def Layout.same : Layout := ⟨id, fun _ => .refl _⟩

inductive Event where
  /-- A request comes in and looks into the cache. -/
  | request (uri : Bytes) (now : Int)
  /-- The origin answers the `i`-th of the waiting requests. -/
  | answer (i : Nat) (response : Response) (layout : Layout)

section Step

variable (hash : Bytes → UInt64)

/-- From the beginning of the handler to its answer from the cache or its request to the origin. -/
def request (s : State) (uri : Bytes) (now : Int) : State :=
  let s := { s with requested := s.requested ++ [uri] }
  match s.cache.lookup (hash uri) with
  | some entry =>
      -- if the entry is not expired
      if now < entry.expiration then
        { s with
          cache := s.cache.replace (hash uri) { entry with lastUsed := now }
          delivered := s.delivered ++ [⟨uri, entry.response, true⟩] }
      else { s with waiting := s.waiting ++ [⟨uri, now, some entry.expiration⟩] }
  | none => { s with waiting := s.waiting ++ [⟨uri, now, none⟩] }

/-- The rest of the handler, from the origin's answer on; `none` where `cache->at` throws. -/
def answer (s : State) (x : Exchange) (r : Response) (layout : Layout) : Option State :=
  let s := { s with received := s.received ++ [(x.uri, r)] }
  if r.statusCode = .known .notModified then
    match s.cache.lookup (hash x.uri) with
    | some entry =>
        some { s with
          cache := s.cache.replace (hash x.uri) { entry with lastUsed := x.now }
          delivered := s.delivered ++ [⟨x.uri, entry.response, true⟩] }
    | none => none
  else
    some { s with
      cache := layout.place
        (store s.cache (hash x.uri) ⟨x.now, r.expirationTime x.now, r⟩)
      delivered := s.delivered ++ [⟨x.uri, r, false⟩] }

/-- One event. -/
def step (s : State) : Event → Option State
  | .request uri now => some (request hash s uri now)
  | .answer i r layout =>
      (s.waiting[i]?).bind fun x => answer hash { s with waiting := s.waiting.eraseIdx i } x r layout

/-- The proxy, started with an empty cache. -/
def proxy : Machine State Event where
  init s := s = ⟨∅, [], [], [], []⟩
  step := step hash

end Step

/-! ## What an event does -/

section Cases

variable {hash : Bytes → UInt64} {s : State} {x : Exchange} {r : Response} {layout : Layout}
  {k : UInt64} {e : Entry}

theorem step_answer {i : Nat} (hi : s.waiting[i]? = some x) :
    step hash s (.answer i r layout) =
      answer hash { s with waiting := s.waiting.eraseIdx i } x r layout := by
  show (s.waiting[i]?).bind _ = _
  rw [hi]
  rfl

/-- Any other answer than a 304 is relayed and stored. -/
theorem answer_new (hr : r.statusCode ≠ .known .notModified) :
    answer hash s x r layout = some { s with
      cache := layout.place (store s.cache (hash x.uri) ⟨x.now, r.expirationTime x.now, r⟩)
      received := s.received ++ [(x.uri, r)]
      delivered := s.delivered ++ [⟨x.uri, r, false⟩] } :=
  if_neg hr

/-- A 304 sends the entry that is found. -/
theorem step_notModified {i : Nat} {entry : Entry} (hi : s.waiting[i]? = some x)
    (hr : r.statusCode = .known .notModified)
    (hentry : s.cache.lookup (hash x.uri) = some entry) :
    step hash s (.answer i r layout) = some { s with
      cache := s.cache.replace (hash x.uri) { entry with lastUsed := x.now }
      waiting := s.waiting.eraseIdx i
      received := s.received ++ [(x.uri, r)]
      delivered := s.delivered ++ [⟨x.uri, entry.response, true⟩] } := by
  rw [step_answer hi]
  unfold answer
  simp only [if_pos hr, hentry]

/-- Without an entry `cache->at` throws. -/
theorem step_notModified_none {i : Nat} (hi : s.waiting[i]? = some x)
    (hr : r.statusCode = .known .notModified) (hentry : s.cache.lookup (hash x.uri) = none) :
    step hash s (.answer i r layout) = none := by
  rw [step_answer hi]
  unfold answer
  simp only [if_pos hr, hentry]

section Touch

variable {cache : Cache} {key : UInt64} {entry : Entry}

/-- Touching an entry keeps all of them. -/
theorem exists_touched (hkey : cache.lookup key = some entry) (now : Int)
    (h : cache.lookup k = some e) :
    ∃ e', (cache.replace key { entry with lastUsed := now }).lookup k = some e' ∧ e.Same e' := by
  by_cases hk : k = key
  · rw [hk, hkey] at h
    refine ⟨{ entry with lastUsed := now }, ?_, ?_⟩
    · rw [hk, UnorderedMap.lookup_replace, hkey]
      rfl
    · rw [← Option.some.inj h]
      exact ⟨rfl, rfl⟩
  · exact ⟨e, by rw [UnorderedMap.lookup_replace_ne hk]; exact h, .refl e⟩

/-- Touching an entry brings none in. -/
theorem lookup_touch {now : Int} (hkey : cache.lookup key = some entry)
    (h : (cache.replace key { entry with lastUsed := now }).lookup k = some e) :
    ∃ e', cache.lookup k = some e' ∧ e.Same e' := by
  by_cases hk : k = key
  · rw [hk, UnorderedMap.lookup_replace, hkey] at h
    rw [hk]
    refine ⟨entry, hkey, ?_⟩
    rw [← Option.some.inj h]
    exact ⟨rfl, rfl⟩
  · rw [UnorderedMap.lookup_replace_ne hk] at h
    exact ⟨e, h, .refl e⟩

end Touch

end Cases

end ComputerNetworking.Proxy
