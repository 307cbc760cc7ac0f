/-
# ComputerNetworking.Proxy.Cache -- the proxy's cache

The cache of `http_proxy.cpp` maps the hash of a URI to a last-used time, an expiration time and a
response. Nothing in an entry says which URI it was made for. A response is stored in two steps that
do not look at each other: if the cache has ten entries the one used least recently is erased, be it
needed or not, and then the entry is `emplace`d, which does nothing if the key is still there.
-/
import ComputerNetworking.Http.Message
import ComputerNetworking.Lib.UnorderedMap

namespace ComputerNetworking.Proxy

open ComputerNetworking.Lib ComputerNetworking.Http

/-! ## Responses -/

/-- What an origin answers, parsed: a message with a status line, whose headers are made by
`parse_header`, so that a header with the name of a date is of the class the handler casts it to. -/
structure Response where
  message : Message
  statusLine : StatusLine
  isStatus : message.firstLine = .status statusLine
  wellNamed : ∀ h ∈ message.headers, h.WellNamed

namespace Response

/-- `get_status_code()`. -/
def statusCode (r : Response) : StatusCode := r.statusLine.code

/-- `get_header(name)` and the date behind the cast, if there is such a header. -/
def headerDate (r : Response) (name : Bytes) : Option Int :=
  (r.message.getHeader name).bind Header.getDate

/-- The expiration time: from `Expires`, else from `Last-Modified`, else from `Date`, else now. -/
def expirationTime (r : Response) (now : Int) : Int :=
  match r.headerDate (ascii "Expires") with
  | some date => date
  | none =>
      match r.headerDate (ascii "Last-Modified") with
      | some date => date
      | none => (r.headerDate (ascii "Date")).getD now

end Response

/-- A message made of a text that begins with a status line is a response. -/
theorem exists_response {lib : DateLib} {text : Bytes} {n : Nat} {m : Message} {line : StatusLine}
    (h : Loop.after (Message.round lib text) n (Message.firstPart text) = .inr (.ok m))
    (hline : m.firstLine = .status line) : ∃ r : Response, r.message = m :=
  ⟨⟨m, line, hline, Message.wellNamed_of_constructed h⟩, rfl⟩

/-- A page that expires at 10. -/
def page (body : Bytes) : Response where
  message := ⟨.status ⟨⟨1, 0⟩, .known .ok, none⟩, [.expires [] 10], some body⟩
  statusLine := ⟨⟨1, 0⟩, .known .ok, none⟩
  isStatus := rfl
  wellNamed := by simp [Header.WellNamed]

/-- A 304. -/
def notModified : Response where
  message := ⟨.status ⟨⟨1, 0⟩, .known .notModified, none⟩, [], none⟩
  statusLine := ⟨⟨1, 0⟩, .known .notModified, none⟩
  isStatus := rfl
  wellNamed := by simp

/-! ## The cache -/

/-- `CacheEntry`. -/
structure Entry where
  lastUsed : Int
  expiration : Int
  response : Response

/-- The entries are the same but for the last-used time. -/
def Entry.Same (e e' : Entry) : Prop := e'.response = e.response ∧ e'.expiration = e.expiration

theorem Entry.Same.refl (e : Entry) : e.Same e := ⟨rfl, rfl⟩

theorem Entry.Same.trans {e e' e'' : Entry} (h : e.Same e') (h' : e'.Same e'') : e.Same e'' :=
  ⟨h'.1.trans h.1, h'.2.trans h.2⟩

/-- `Cache`. -/
abbrev Cache := UnorderedMap UInt64 Entry

/-- How many entries are too many. -/
def maxEntries : Nat := 10

/-- `std::get<0>` of an entry found by iteration. -/
def lastUsed (e : (_ : UInt64) × Entry) : Int := e.2.lastUsed

/-- The entry that the loop over the cache ends up with. -/
def oldest (cache : Cache) : Option ((_ : UInt64) × Entry) := firstMin lastUsed cache.entries

/-- `cache->erase(oldest)`. -/
def evict (cache : Cache) : Cache :=
  match oldest cache with
  | some victim => cache.erase victim.1
  | none => cache

/-- The last lines of the handler. -/
def store (cache : Cache) (hash : UInt64) (entry : Entry) : Cache :=
  UnorderedMap.emplace (if maxEntries ≤ UnorderedMap.size cache then evict cache else cache) hash entry

section Oldest

variable {cache : Cache} {victim : (_ : UInt64) × Entry} {k : UInt64} {e : Entry}

theorem mem_entries_iff : ⟨k, e⟩ ∈ cache.entries ↔ cache.lookup k = some e := by
  rw [← AList.mem_lookup_iff]
  exact Iff.rfl

/-- The victim is in the cache, and no entry was used before it. -/
theorem oldest_spec (h : oldest cache = some victim) :
    cache.lookup victim.1 = some victim.2 ∧
      ∀ k e, cache.lookup k = some e → victim.2.lastUsed ≤ e.lastUsed := by
  have hmin := firstMin_eq_some_iff.mp h
  refine ⟨mem_entries_iff.mp hmin.mem, ?_⟩
  intro k e he
  exact hmin.le ⟨k, e⟩ (mem_entries_iff.mpr he)

/-- A full cache has a victim. -/
theorem exists_oldest (h : maxEntries ≤ UnorderedMap.size cache) :
    ∃ victim, oldest cache = some victim := by
  have hne : cache.entries ≠ [] := List.length_pos_iff.mp (Nat.lt_of_lt_of_le (by decide) h)
  obtain ⟨victim, hmin⟩ := exists_isFirstMin (f := lastUsed) hne
  exact ⟨victim, firstMin_eq_some_iff.mpr hmin⟩

theorem evict_eq (h : oldest cache = some victim) : evict cache = cache.erase victim.1 := by
  unfold evict
  rw [h]

/-- Evicting brings nothing in. -/
theorem lookup_of_evict (h : (evict cache).lookup k = some e) : cache.lookup k = some e := by
  unfold evict at h
  split at h
  · rename_i victim hv
    by_cases hk : k = victim.1
    · rw [hk, AList.lookup_erase] at h
      cases h
    · rwa [AList.lookup_erase_ne hk] at h
  · exact h

section Store

variable {hash : UInt64} {entry : Entry}

/-- With room in the cache nothing is evicted. -/
theorem store_of_room (h : UnorderedMap.size cache < maxEntries) :
    store cache hash entry = UnorderedMap.emplace cache hash entry := by
  rw [store, if_neg (Nat.not_le_of_lt h)]

/-- In a full cache the victim goes first. -/
theorem store_of_full {victim : (_ : UInt64) × Entry}
    (h : maxEntries ≤ UnorderedMap.size cache) (hv : oldest cache = some victim) :
    store cache hash entry = UnorderedMap.emplace (cache.erase victim.1) hash entry := by
  rw [store, if_pos h, evict_eq hv]

end Store

/-- What is in the cache afterwards is the new entry or was there before. -/
theorem lookup_of_store {hash : UInt64} {entry : Entry}
    (h : (store cache hash entry).lookup k = some e) :
    (k = hash ∧ e = entry) ∨ cache.lookup k = some e := by
  unfold store at h
  have hbefore : ∀ (c : Cache), (∀ k e, c.lookup k = some e → cache.lookup k = some e) →
      (UnorderedMap.emplace c hash entry).lookup k = some e →
      (k = hash ∧ e = entry) ∨ cache.lookup k = some e := by
    intro c hc hlook
    by_cases hk : k = hash
    · by_cases hmem : hash ∈ c
      · rw [UnorderedMap.emplace_of_mem hmem] at hlook
        exact .inr (hc k e hlook)
      · rw [hk, UnorderedMap.lookup_emplace_of_notMem hmem] at hlook
        exact .inl ⟨hk, (Option.some.inj hlook).symm⟩
    · rw [UnorderedMap.lookup_emplace_ne hk] at hlook
      exact .inr (hc k e hlook)
  split_ifs at h
  · exact hbefore _ (fun _ _ => lookup_of_evict) h
  · exact hbefore _ (fun _ _ hlook => hlook) h

section Key

variable {key : UInt64} {entry : Entry}

/-- Storing a response keeps an entry that is not evicted, be it the one to be replaced. -/
theorem lookup_store_of_spared (h : cache.lookup k = some e)
    (hspared : UnorderedMap.size cache < maxEntries ∨ ∀ victim ∈ oldest cache, k ≠ victim.1) :
    (store cache key entry).lookup k = some e := by
  have hemplace : ∀ c : Cache, c.lookup k = some e →
      (UnorderedMap.emplace c key entry).lookup k = some e := by
    intro c hc
    by_cases hk : k = key
    · subst hk
      have hmem : k ∈ c := AList.lookup_isSome.mp (by rw [hc]; rfl)
      rw [UnorderedMap.emplace_of_mem hmem, hc]
    · rw [UnorderedMap.lookup_emplace_ne hk, hc]
  by_cases hroom : UnorderedMap.size cache < maxEntries
  · rw [store_of_room hroom]
    exact hemplace _ h
  · obtain ⟨victim, hv⟩ := exists_oldest (Nat.not_lt.mp hroom)
    have hne : k ≠ victim.1 := hspared.resolve_left hroom victim hv
    rw [store_of_full (Nat.not_lt.mp hroom) hv]
    apply hemplace
    rw [AList.lookup_erase_ne hne, h]

/-- A key that is there already gets its new entry in a full cache only, and only if the victim is its
own. -/
def TakesIn (cache : Cache) (key : UInt64) : Prop :=
  key ∈ cache → maxEntries ≤ UnorderedMap.size cache ∧ ∃ victim ∈ oldest cache, victim.1 = key

instance (cache : Cache) (key : UInt64) : Decidable (TakesIn cache key) := by
  unfold TakesIn
  infer_instance

theorem lookup_store_of_takesIn (h : TakesIn cache key) :
    (store cache key entry).lookup key = some entry := by
  by_cases hfull : maxEntries ≤ UnorderedMap.size cache
  · obtain ⟨victim, hv⟩ := exists_oldest hfull
    rw [store_of_full hfull hv]
    apply UnorderedMap.lookup_emplace_of_notMem
    rw [AList.mem_erase]
    rintro ⟨hne, hmem⟩
    obtain ⟨-, victim', hv', hkey⟩ := h hmem
    rw [hv, Option.mem_some_iff] at hv'
    rw [← hkey, hv'] at hne
    exact hne rfl
  · rw [store_of_room (Nat.not_le.mp hfull)]
    apply UnorderedMap.lookup_emplace_of_notMem
    intro hmem
    exact hfull (h hmem).1

/-- Otherwise the old entry stays. -/
theorem lookup_store_of_not_takesIn (h : ¬ TakesIn cache key) :
    (store cache key entry).lookup key = cache.lookup key := by
  unfold TakesIn at h
  push Not at h
  obtain ⟨hmem, hkept⟩ := h
  obtain ⟨e, he⟩ := Option.isSome_iff_exists.mp (AList.lookup_isSome.mpr hmem)
  rw [he]
  apply lookup_store_of_spared he
  by_cases hroom : UnorderedMap.size cache < maxEntries
  · exact .inl hroom
  · exact .inr fun victim hv => (hkept (Nat.not_lt.mp hroom) victim hv).symm

/-- What is found afterwards is the new entry, taken in, or was there before. -/
theorem lookup_store_cases (h : (store cache key entry).lookup k = some e) :
    (k = key ∧ TakesIn cache key ∧ e = entry) ∨ cache.lookup k = some e := by
  rcases lookup_of_store h with ⟨rfl, -⟩ | hold
  · by_cases htakes : TakesIn cache k
    · rw [lookup_store_of_takesIn htakes, Option.some.injEq] at h
      exact .inl ⟨rfl, htakes, h.symm⟩
    · rw [lookup_store_of_not_takesIn htakes] at h
      exact .inr h
  · exact .inr hold

end Key

end Oldest

end ComputerNetworking.Proxy
