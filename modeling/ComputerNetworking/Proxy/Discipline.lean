/-
# ComputerNetworking.Proxy.Discipline -- the cache over a sequential run

Requests one after the other, at any times, over URIs whose hashes differ, and an origin that sends a 304
only when it was given a date. The cache stays within its bound because an entry goes before one comes.
What is in an entry, but for its last-used time, was put there by one fetch and stays as it was: `Fetched`
names the fetch, and `Through` the stretch of the run since then.
-/
import ComputerNetworking.Http.Print
import ComputerNetworking.Proxy.Coherence

namespace ComputerNetworking.Proxy

open ComputerNetworking.Lib ComputerNetworking.Http

/-- The bytes that are written to the client. -/
def Delivery.bytes (lib : DateLib) (d : Delivery) : Bytes := d.response.message.toString lib

/-- Hashes do not collide, and a 304 answers a conditional GET only. -/
structure Orderly (hash : Bytes → UInt64) (s : Sequential) (v : Visit) : Prop where
  distinct : NoCollision hash s.proxy (.request v.uri v.now)
  conditional : ∀ x ∈ (request hash s.proxy v.uri v.now).waiting,
    v.response.statusCode = .known .notModified → x.ifModifiedSince ≠ none

instance (hash : Bytes → UInt64) (s : Sequential) (v : Visit) : Decidable (Orderly hash s v) :=
  decidable_of_iff (NoCollision hash s.proxy (.request v.uri v.now) ∧
      ∀ x ∈ (request hash s.proxy v.uri v.now).waiting,
        v.response.statusCode = .known .notModified → x.ifModifiedSince ≠ none)
    ⟨fun h => ⟨h.1, h.2⟩, fun h => ⟨h.distinct, h.conditional⟩⟩

/-- The visit fetched what is in the entry, and relayed it. -/
structure FetchedBy (hash : Bytes → UInt64) (k : UInt64) (e : Entry) (fetch : Visit)
    (before after : Sequential) : Prop where
  reachable : (sequential hash).Reachable before
  step : (sequential hash).step before fetch = some after
  contacted : Contacts hash before fetch
  key : hash fetch.uri = k
  response : e.response = fetch.response
  expiration : e.expiration = fetch.response.expirationTime fetch.now
  relayed : after.proxy.delivered = before.proxy.delivered ++ [⟨fetch.uri, e.response, false⟩]

/-- The key has an entry with this response and this expiration time. -/
def Holds (k : UInt64) (e : Entry) (s : Sequential) : Prop :=
  ∃ e', s.proxy.cache.lookup k = some e' ∧ e.Same e'

/-- A visit fetched the entry's response, and the entry has been there since. -/
def Fetched (hash : Bytes → UInt64) (s : Sequential) (k : UInt64) (e : Entry) : Prop :=
  ∃ fetch before after, FetchedBy hash k e fetch before after ∧
    (sequential hash).Through (Holds k e) after s ∧ fetch.uri ∈ s.proxy.requested

/-- The entry that a visit erases: the oldest one of a full cache, before a new response is stored. -/
def evicted (hash : Bytes → UInt64) (s : Sequential) (v : Visit) : Option ((_ : UInt64) × Entry) :=
  if Contacts hash s v ∧ v.response.statusCode ≠ .known .notModified ∧
      maxEntries ≤ UnorderedMap.size s.proxy.cache then oldest s.proxy.cache
  else none

/-! ## The bound -/

theorem size_store_le {cache : Cache} (h : UnorderedMap.size cache ≤ maxEntries) (key : UInt64)
    (entry : Entry) : UnorderedMap.size (store cache key entry) ≤ maxEntries := by
  by_cases hroom : UnorderedMap.size cache < maxEntries
  · rw [store_of_room hroom]
    have hle := UnorderedMap.size_emplace_le (m := cache) (k := key) (v := entry)
    omega
  · obtain ⟨victim, hv⟩ := exists_oldest (Nat.not_lt.mp hroom)
    have hmem : victim.1 ∈ cache := AList.lookup_isSome.mp (by rw [(oldest_spec hv).1]; rfl)
    rw [store_of_full (Nat.not_lt.mp hroom) hv]
    have hle := UnorderedMap.size_emplace_le (m := cache.erase victim.1) (k := key) (v := entry)
    have herase := UnorderedMap.size_erase hmem
    omega

theorem size_place (layout : Layout) (cache : Cache) :
    UnorderedMap.size (layout.place cache) = UnorderedMap.size cache :=
  (layout.perm cache).length_eq

/-- Storing a response keeps what is not the victim of a full cache. -/
theorem lookup_store_of_ne {cache : Cache} {key k : UInt64} {entry e : Entry}
    (h : cache.lookup k = some e)
    (hne : maxEntries ≤ UnorderedMap.size cache → oldest cache ≠ some ⟨k, e⟩) :
    (store cache key entry).lookup k = some e := by
  by_cases hroom : UnorderedMap.size cache < maxEntries
  · exact lookup_store_of_spared h (.inl hroom)
  · refine lookup_store_of_spared h (.inr fun victim hvictim hk => ?_)
    rw [Option.mem_def] at hvictim
    refine hne (Nat.not_lt.mp hroom) ?_
    have hlook := (oldest_spec hvictim).1
    rw [← hk, h, Option.some.injEq] at hlook
    rw [hvictim, hk, hlook]

/-! ## One visit -/

section Visits

variable {hash : Bytes → UInt64} {s s' : Sequential} {v : Visit}

/-- The origin is not asked exactly if there is an entry that has not expired. -/
theorem not_contacts_iff (idle : s.proxy.waiting = []) :
    ¬ Contacts hash s v ↔ ∃ e, s.proxy.cache.lookup (hash v.uri) = some e ∧ v.now < e.expiration := by
  rcases request_cases hash v.uri v.now idle with ⟨e, hlook, hfresh, hreq⟩ | ⟨hexpired, hreq⟩
  · refine iff_of_true (fun hcontact => hcontact ?_) ⟨e, hlook, hfresh⟩
    rw [hreq]
    exact idle
  · refine iff_of_false (fun hnot => hnot ?_) ?_
    · unfold Contacts
      rw [hreq]
      exact List.cons_ne_nil _ _
    · rintro ⟨e, hlook, hfresh⟩
      exact absurd hfresh (Int.not_lt.mpr (hexpired e hlook))

/-- A hit sends the entry, and touches it. -/
theorem visit_hit (idle : s.proxy.waiting = []) {e : Entry}
    (hlook : s.proxy.cache.lookup (hash v.uri) = some e) (hfresh : v.now < e.expiration) :
    s.visit hash v = some ⟨{ s.proxy with
      cache := s.proxy.cache.replace (hash v.uri) { e with lastUsed := v.now }
      requested := s.proxy.requested ++ [v.uri]
      delivered := s.proxy.delivered ++ [⟨v.uri, e.response, true⟩] }, v.now⟩ := by
  rcases request_cases hash v.uri v.now idle with ⟨e', hlook', -, hreq⟩ | ⟨hexpired, -⟩
  · cases hlook.symm.trans hlook'
    unfold Sequential.visit
    simp only [hreq, idle]
  · exact absurd hfresh (Int.not_lt.mpr (hexpired e hlook))

/-- A 304 comes for an entry that is there. -/
theorem Orderly.exists_entry (hv : Orderly hash s v) (idle : s.proxy.waiting = [])
    (hcontact : Contacts hash s v) (hr : v.response.statusCode = .known .notModified) :
    ∃ e, s.proxy.cache.lookup (hash v.uri) = some e := by
  have hconditional := hv.conditional
  rw [(visit_asked idle hcontact).2] at hconditional
  have hdate := hconditional _ (List.mem_singleton.mpr rfl) hr
  rcases hlook : s.proxy.cache.lookup (hash v.uri) with _ | e
  · rw [hlook] at hdate
    exact absurd rfl hdate
  · exact ⟨e, rfl⟩

/-- **What a visit does**: it touches the entry that it sends, after a lookup or after a 304, or it stores
the response that it relays. -/
theorem visit_cases (hv : Orderly hash s v) (idle : s.proxy.waiting = []) :
    ∃ s', s.visit hash v = some s' ∧ s'.proxy.waiting = [] ∧
      s'.proxy.requested = s.proxy.requested ++ [v.uri] ∧
      ((∃ e, s.proxy.cache.lookup (hash v.uri) = some e ∧
          s'.proxy.cache = s.proxy.cache.replace (hash v.uri) { e with lastUsed := v.now } ∧
          s'.proxy.delivered = s.proxy.delivered ++ [⟨v.uri, e.response, true⟩]) ∨
        (Contacts hash s v ∧ v.response.statusCode ≠ .known .notModified ∧
          s'.proxy.cache = v.layout.place (store s.proxy.cache (hash v.uri)
            ⟨v.now, v.response.expirationTime v.now, v.response⟩) ∧
          s'.proxy.delivered = s.proxy.delivered ++ [⟨v.uri, v.response, false⟩])) := by
  by_cases hcontact : Contacts hash s v
  · by_cases hr : v.response.statusCode = .known .notModified
    · obtain ⟨e, hlook⟩ := hv.exists_entry idle hcontact hr
      exact ⟨_, visit_notModified idle hcontact hr hlook, rfl, rfl, .inl ⟨e, hlook, rfl, rfl⟩⟩
    · exact ⟨_, visit_new idle hcontact hr, rfl, rfl, .inr ⟨hcontact, hr, rfl, rfl⟩⟩
  · obtain ⟨e, hlook, hfresh⟩ := (not_contacts_iff idle).mp hcontact
    exact ⟨_, visit_hit idle hlook hfresh, idle, rfl, .inl ⟨e, hlook, rfl, rfl⟩⟩

/-- **An entry stays as it is, but for its last-used time, unless it is evicted.** -/
theorem holds_visit (hv : Orderly hash s v) (idle : s.proxy.waiting = [])
    (hs : s.visit hash v = some s') {k : UInt64} {e : Entry} (he : s.proxy.cache.lookup k = some e) :
    Holds k e s' ∨ evicted hash s v = some ⟨k, e⟩ := by
  obtain ⟨_, hs', -, -, hcases⟩ := visit_cases hv idle
  cases hs.symm.trans hs'
  rcases hcases with ⟨entry, hkey, hcache, -⟩ | ⟨hcontact, hr, hcache, -⟩
  · obtain ⟨e', he', hsame⟩ := exists_touched hkey v.now he
    exact .inl ⟨e', by rw [hcache]; exact he', hsame⟩
  · by_cases hvictim : maxEntries ≤ UnorderedMap.size s.proxy.cache ∧
        oldest s.proxy.cache = some ⟨k, e⟩
    · right
      rw [evicted, if_pos ⟨hcontact, hr, hvictim.1⟩, hvictim.2]
    · refine .inl ⟨e, ?_, .refl e⟩
      rw [hcache, v.layout.lookup]
      exact lookup_store_of_ne he fun hfull hoak => hvictim ⟨hfull, hoak⟩

/-- What is evicted was in the cache, and no other entry was used before it. -/
theorem evicted_spec {victim : (_ : UInt64) × Entry} (h : evicted hash s v = some victim) :
    s.proxy.cache.lookup victim.1 = some victim.2 ∧
      ∀ k e, s.proxy.cache.lookup k = some e → victim.2.lastUsed ≤ e.lastUsed := by
  unfold evicted at h
  split_ifs at h
  exact oldest_spec h

end Visits

/-! ## Every run -/

/-- No request waits, the cache is within its bound, and every entry was fetched. -/
structure Disciplined (hash : Bytes → UInt64) (s : Sequential) : Prop where
  idle : s.proxy.waiting = []
  bounded : UnorderedMap.size s.proxy.cache ≤ maxEntries
  fetched : ∀ k e, s.proxy.cache.lookup k = some e → Fetched hash s k e

section Runs

variable {hash : Bytes → UInt64} {s s' : Sequential} {v : Visit} {k : UInt64} {e e' : Entry}

/-- The fetch of an entry is that of the entry touched. -/
theorem Fetched.step (h : Fetched hash s k e) (hsame : e.Same e')
    (hs : (sequential hash).step s v = some s')
    (hrequested : s'.proxy.requested = s.proxy.requested ++ [v.uri])
    (he' : s'.proxy.cache.lookup k = some e') : Fetched hash s' k e' := by
  obtain ⟨fetch, before, after, hfetch, hthrough, huri⟩ := h
  refine ⟨fetch, before, after, ?_, ?_, ?_⟩
  · exact
      { hfetch with
        response := hsame.1.trans hfetch.response
        expiration := hsame.2.trans hfetch.expiration
        relayed := by rw [hsame.1]; exact hfetch.relayed }
  · refine .step (hthrough.mono ?_) hs ⟨e', he', .refl e'⟩
    rintro t ⟨e₁, he₁, hsame₁⟩
    exact ⟨e₁, he₁, hsame₁.1.trans hsame.1.symm, hsame₁.2.trans hsame.2.symm⟩
  · rw [hrequested]
    exact List.mem_append_left _ huri

theorem disciplined_visit (hr : (sequential hash).Reachable s) (h : Disciplined hash s)
    (hv : Orderly hash s v) (hs : s.visit hash v = some s') : Disciplined hash s' := by
  obtain ⟨_, hs', hidle, hrequested, hcases⟩ := visit_cases hv h.idle
  cases hs.symm.trans hs'
  rcases hcases with ⟨entry, hkey, hcache, -⟩ | ⟨hcontact, -, hcache, hdelivered⟩
  · refine ⟨hidle, ?_, fun k e he => ?_⟩
    · rw [hcache, UnorderedMap.size_replace]
      exact h.bounded
    · have hlook := he
      rw [hcache] at hlook
      obtain ⟨e', he', hsame⟩ := lookup_touch hkey hlook
      exact (h.fetched k e' he').step ⟨hsame.1.symm, hsame.2.symm⟩ hs hrequested he
  · refine ⟨hidle, ?_, fun k e he => ?_⟩
    · rw [hcache, size_place]
      exact size_store_le h.bounded _ _
    · have hlook := he
      rw [hcache, v.layout.lookup] at hlook
      rcases lookup_store_cases hlook with ⟨rfl, -, rfl⟩ | hold
      · -- the visit is the fetch
        refine ⟨v, s, s', ⟨hr, hs, hcontact, rfl, rfl, rfl, hdelivered⟩, .refl ⟨_, he, .refl _⟩, ?_⟩
        rw [hrequested]
        exact List.mem_append_right _ (List.mem_singleton.mpr rfl)
      · exact (h.fetched k e hold).step (.refl e) hs hrequested he

theorem disciplined_of_reachable (h : (sequential hash).ReachableUnder (Orderly hash) s) :
    Disciplined hash s := by
  apply h.invariant_of_reachable
  · intro s hs
    have hempty : s.proxy = ⟨∅, [], [], [], []⟩ := hs
    refine ⟨by rw [hempty], by rw [hempty]; decide, ?_⟩
    intro k e he
    rw [hempty, AList.lookup_empty] at he
    cases he
  · intro s v s' hreachable hdisciplined hv hs
    exact disciplined_visit (hreachable.mono fun _ _ _ => trivial) hdisciplined hv hs

end Runs

/-- **The discipline of the cache.** In every sequential run the cache has at most ten entries, and what is
in an entry came with one response, relayed then, and has not changed since. Every further request is
completed. It is answered without the origin exactly if its key has an entry that has not expired, with the
bytes that were relayed when that entry was fetched, for the same URI. When the origin is asked, a 304 makes
the proxy send the entry, and any other response is relayed and stored. Every entry stays as it is or is
evicted, and what is evicted was used least recently. -/
theorem cache_discipline (hash : Bytes → UInt64) (lib : DateLib) (s : Sequential)
    (h : (sequential hash).ReachableUnder (Orderly hash) s) :
    UnorderedMap.size s.proxy.cache ≤ 10 ∧
    (∀ k e, s.proxy.cache.lookup k = some e → Fetched hash s k e) ∧
    ∀ v, Orderly hash s v → ∃ s', (sequential hash).step s v = some s' ∧
      (¬ Contacts hash s v ↔
        ∃ e, s.proxy.cache.lookup (hash v.uri) = some e ∧ v.now < e.expiration) ∧
      (¬ Contacts hash s v → ∃ d e fetch before after,
        s'.proxy.delivered = s.proxy.delivered ++ [d] ∧ d.uri = v.uri ∧
        s.proxy.cache.lookup (hash v.uri) = some e ∧
        s'.proxy.cache = s.proxy.cache.replace (hash v.uri) { e with lastUsed := v.now } ∧
        FetchedBy hash (hash v.uri) e fetch before after ∧
        (sequential hash).Through (Holds (hash v.uri) e) after s ∧ fetch.uri = v.uri ∧
        d.bytes lib = Delivery.bytes lib ⟨fetch.uri, fetch.response, false⟩) ∧
      (Contacts hash s v → v.response.statusCode = .known .notModified → ∃ e,
        s.proxy.cache.lookup (hash v.uri) = some e ∧
        s'.proxy.cache = s.proxy.cache.replace (hash v.uri) { e with lastUsed := v.now } ∧
        s'.proxy.delivered = s.proxy.delivered ++ [⟨v.uri, e.response, true⟩]) ∧
      (Contacts hash s v → v.response.statusCode ≠ .known .notModified →
        s'.proxy.cache = v.layout.place (store s.proxy.cache (hash v.uri)
          ⟨v.now, v.response.expirationTime v.now, v.response⟩) ∧
        s'.proxy.delivered = s.proxy.delivered ++ [⟨v.uri, v.response, false⟩]) ∧
      (∀ k e, s.proxy.cache.lookup k = some e → Holds k e s' ∨ evicted hash s v = some ⟨k, e⟩) ∧
      ∀ victim, evicted hash s v = some victim →
        s.proxy.cache.lookup victim.1 = some victim.2 ∧
        ∀ k e, s.proxy.cache.lookup k = some e → victim.2.lastUsed ≤ e.lastUsed := by
  have hdisciplined := disciplined_of_reachable h
  refine ⟨hdisciplined.bounded, hdisciplined.fetched, fun v hv => ?_⟩
  obtain ⟨s', hs, -⟩ := visit_cases hv hdisciplined.idle
  refine ⟨s', hs, not_contacts_iff hdisciplined.idle, fun hcontact => ?_, fun hcontact hr => ?_,
    fun hcontact hr => ?_, fun k e => holds_visit hv hdisciplined.idle hs, fun victim => evicted_spec⟩
  · obtain ⟨e, hlook, hfresh⟩ := (not_contacts_iff hdisciplined.idle).mp hcontact
    obtain ⟨fetch, before, after, hfetch, hthrough, huri⟩ := hdisciplined.fetched _ _ hlook
    cases hs.symm.trans (visit_hit hdisciplined.idle hlook hfresh)
    refine ⟨_, e, fetch, before, after, rfl, rfl, hlook, rfl, hfetch, hthrough,
      hv.distinct _ huri hfetch.key, ?_⟩
    show e.response.message.toString lib = fetch.response.message.toString lib
    rw [hfetch.response]
  · obtain ⟨e, hlook⟩ := hv.exists_entry hdisciplined.idle hcontact hr
    cases hs.symm.trans (visit_notModified hdisciplined.idle hcontact hr hlook)
    exact ⟨e, hlook, rfl, rfl⟩
  · cases hs.symm.trans (visit_new hdisciplined.idle hcontact hr)
    exact ⟨rfl, rfl⟩

/-- A page is fetched at 0, found at 5, and asked for again at 20, when the origin has nothing newer. -/
theorem cache_discipline_page :
    ∃ s s' s'' d e, (sequential fun uri => UInt64.ofNat uri.length).run ⟨⟨∅, [], [], [], []⟩, 0⟩ [fetchPage] =
        some s ∧
      (sequential fun uri => UInt64.ofNat uri.length).step s (askAgain 5) = some s' ∧
      (sequential fun uri => UInt64.ofNat uri.length).step s' (askAgain 20) = some s'' ∧
      UnorderedMap.size s.proxy.cache ≤ 10 ∧
      s'.proxy.delivered = s.proxy.delivered ++ [d] ∧ d.uri = fetchPage.uri ∧
      s'.proxy.cache.lookup (UInt64.ofNat fetchPage.uri.length) = some e ∧ e.lastUsed = 5 ∧
      s''.proxy.delivered = s'.proxy.delivered ++ [⟨fetchPage.uri, e.response, true⟩] := by
  have hinit : (sequential fun uri => UInt64.ofNat uri.length).init ⟨⟨∅, [], [], [], []⟩, 0⟩ := rfl
  have hrun : (sequential fun uri => UInt64.ofNat uri.length).run ⟨⟨∅, [], [], [], []⟩, 0⟩ [fetchPage] =
      some _ := rfl
  have hfetched := Machine.ReachableUnder.run (.init hinit)
    (G := Orderly fun uri => UInt64.ofNat uri.length) (by decide) hrun
  obtain ⟨hsize, -, hvisit⟩ := cache_discipline (fun uri => UInt64.ofNat uri.length) noDates _ hfetched
  -- the entry has not expired at 5
  obtain ⟨s', hs', -, hhit, -⟩ := hvisit (askAgain 5) (by decide)
  obtain ⟨d, -, -, -, -, hdelivered, huri, -⟩ := hhit (by decide)
  cases hs'
  -- it has expired at 20
  obtain ⟨-, -, hvisit'⟩ := cache_discipline (fun uri => UInt64.ofNat uri.length) noDates _
    (hfetched.step (by decide) (e := askAgain 5) rfl)
  obtain ⟨s'', hs'', -, -, hnotModified, -⟩ := hvisit' (askAgain 20) (by decide)
  obtain ⟨e, hlook, -, hdelivered'⟩ := hnotModified (by decide) rfl
  cases hlook
  exact ⟨_, _, s'', d, _, hrun, rfl, hs'', hsize, hdelivered, huri, rfl, rfl, hdelivered'⟩

end ComputerNetworking.Proxy
