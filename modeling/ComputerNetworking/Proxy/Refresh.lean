/-
# ComputerNetworking.Proxy.Refresh -- storing a response

Completing a request with a new response should leave the cache with this response under the URI's
hash and with all other entries as they were, but for one least recently used entry that makes room
where the URI had none and the cache was full: `Refreshed`.

A URI without an entry is stored like that. For a stale entry the handler evicts and emplaces all the
same: with room in the cache the old entry stays, because `emplace` does not replace it, and in a full
cache an entry is erased that needed not be, in general another one. `refresh_iff` is exact.
-/
import ComputerNetworking.Proxy.Handler

namespace ComputerNetworking.Proxy

open ComputerNetworking.Lib ComputerNetworking.Http

/-- `k` is the key of an entry that no other was used before. -/
def LeastRecentlyUsed (cache : Cache) (k : UInt64) : Prop :=
  ∃ e, cache.lookup k = some e ∧ ∀ k' e', cache.lookup k' = some e' → e.lastUsed ≤ e'.lastUsed

/-- Making room is called for: the key has no entry and the cache is full. -/
def NeedsRoom (cache : Cache) (key : UInt64) : Prop :=
  key ∉ cache ∧ maxEntries ≤ UnorderedMap.size cache

instance (cache : Cache) (key : UInt64) : Decidable (NeedsRoom cache key) := by
  unfold NeedsRoom
  infer_instance

/-- The response is in, and nothing else has changed, but for a least recently used entry that has
gone where making room is called for. -/
structure Refreshed (before after : Cache) (key : UInt64) (entry : Entry) : Prop where
  stored : after.lookup key = some entry
  others : ¬ NeedsRoom before key → ∀ k ≠ key, after.lookup k = before.lookup k
  room : NeedsRoom before key → ∃ gone, LeastRecentlyUsed before gone ∧
    after.lookup gone = none ∧ ∀ k ≠ key, k ≠ gone → after.lookup k = before.lookup k

/-- The key is new, or the cache is full and the first of its least recently used entries, in
iteration order, is the key's own, or there is room and what is to be stored is there already. -/
def StoresFresh (cache : Cache) (key : UInt64) (entry : Entry) : Prop :=
  key ∉ cache ∨
    (maxEntries ≤ UnorderedMap.size cache ∧ ∃ e, IsFirstMin lastUsed ⟨key, e⟩ cache.entries) ∨
    (UnorderedMap.size cache < maxEntries ∧ cache.lookup key = some entry)

section Store

variable {cache : Cache} {key : UInt64} {entry : Entry}

/-- A new key, with room for it. -/
theorem refreshed_of_room (hkey : key ∉ cache) (h : UnorderedMap.size cache < maxEntries) :
    Refreshed cache (store cache key entry) key entry := by
  rw [store_of_room h]
  refine ⟨UnorderedMap.lookup_emplace_of_notMem hkey, ?_, ?_⟩
  · intro _ k hk
    exact UnorderedMap.lookup_emplace_ne hk
  · rintro ⟨-, hfull⟩
    exact absurd h (Nat.not_lt.mpr hfull)

/-- A new key in a full cache: the victim goes. -/
theorem refreshed_of_full (hkey : key ∉ cache) (h : maxEntries ≤ UnorderedMap.size cache) :
    Refreshed cache (store cache key entry) key entry := by
  obtain ⟨victim, hv⟩ := exists_oldest h
  obtain ⟨hlook, hle⟩ := oldest_spec hv
  rw [store_of_full h hv]
  have hgone : key ∉ cache.erase victim.1 := by
    rw [AList.mem_erase]
    exact fun hmem => hkey hmem.2
  have hne : victim.1 ≠ key := by
    rintro rfl
    exact hkey (AList.lookup_isSome.mp (by rw [hlook]; rfl))
  refine ⟨UnorderedMap.lookup_emplace_of_notMem hgone, ?_, ?_⟩
  · intro hno
    exact absurd ⟨hkey, h⟩ hno
  · intro _
    refine ⟨victim.1, ⟨victim.2, hlook, hle⟩, ?_, ?_⟩
    · rw [UnorderedMap.lookup_emplace_ne hne, AList.lookup_erase]
    · intro k hk hkv
      rw [UnorderedMap.lookup_emplace_ne hk, AList.lookup_erase_ne hkv]

/-- A key that is there, with room: nothing happens. -/
theorem refreshed_iff_of_room (hkey : key ∈ cache) (h : UnorderedMap.size cache < maxEntries) :
    Refreshed cache (store cache key entry) key entry ↔ cache.lookup key = some entry := by
  rw [store_of_room h, UnorderedMap.emplace_of_mem hkey]
  constructor
  · exact fun hr => hr.stored
  · intro hsame
    refine ⟨hsame, fun _ _ _ => rfl, ?_⟩
    rintro ⟨hnew, -⟩
    exact absurd hkey hnew

/-- A key that is there, in a full cache: the victim has to be its own entry. -/
theorem refreshed_iff_of_full (hkey : key ∈ cache) (h : maxEntries ≤ UnorderedMap.size cache) :
    Refreshed cache (store cache key entry) key entry ↔
      ∃ e, IsFirstMin lastUsed ⟨key, e⟩ cache.entries := by
  obtain ⟨victim, hv⟩ := exists_oldest h
  obtain ⟨gone, e⟩ := victim
  rw [store_of_full h hv]
  have hno : ¬ NeedsRoom cache key := fun hroom => hroom.1 hkey
  constructor
  · intro hr
    -- the victim is missing afterwards, so it can only be the entry of `key`
    by_cases hgone : gone = key
    · rw [hgone] at hv
      exact ⟨e, firstMin_eq_some_iff.mp hv⟩
    · exfalso
      have hother := hr.others hno gone hgone
      rw [UnorderedMap.lookup_emplace_ne hgone, AList.lookup_erase, (oldest_spec hv).1] at hother
      cases hother
  · rintro ⟨e', hmin⟩
    have hvictim : oldest cache = some ⟨key, e'⟩ := firstMin_eq_some_iff.mpr hmin
    rw [hv] at hvictim
    cases hvictim
    have habsent : key ∉ cache.erase key := by
      rw [AList.mem_erase]
      exact fun hmem => hmem.1 rfl
    refine ⟨UnorderedMap.lookup_emplace_of_notMem habsent, ?_, ?_⟩
    · intro _ k hk
      rw [UnorderedMap.lookup_emplace_ne hk, AList.lookup_erase_ne hk]
    · exact fun hroom => absurd hroom hno

theorem refreshed_store_iff :
    Refreshed cache (store cache key entry) key entry ↔ StoresFresh cache key entry := by
  unfold StoresFresh
  by_cases hkey : key ∈ cache
  · by_cases h : maxEntries ≤ UnorderedMap.size cache
    · rw [refreshed_iff_of_full hkey h]
      simp [hkey, h, Nat.not_lt.mpr h]
    · rw [refreshed_iff_of_room hkey (Nat.not_le.mp h)]
      simp [hkey, h, Nat.not_le.mp h]
  · simp only [hkey, not_false_eq_true, true_or, iff_true]
    by_cases h : maxEntries ≤ UnorderedMap.size cache
    · exact refreshed_of_full hkey h
    · exact refreshed_of_room hkey (Nat.not_le.mp h)

end Store

/-! ## Completing a request -/

/-- A rearrangement of the entries makes no difference. -/
theorem refreshed_place {before after : Cache} {key : UInt64} {entry : Entry} (layout : Layout) :
    Refreshed before (layout.place after) key entry ↔ Refreshed before after key entry := by
  constructor
  · rintro ⟨hstored, hothers, hroom⟩
    simp only [layout.lookup] at hstored hothers hroom
    exact ⟨hstored, hothers, hroom⟩
  · rintro ⟨hstored, hothers, hroom⟩
    refine ⟨?_, ?_, ?_⟩ <;> simp only [layout.lookup]
    · exact hstored
    · exact hothers
    · exact hroom

/-- **A new response refreshes the cache exactly if its key is new, or its own entry is the first of
the least recently used ones in a full cache, or the cache has room and what is to be stored is there
already.** -/
theorem refresh_iff (hash : Bytes → UInt64) (s : State) (i : Nat) (x : Exchange) (r : Response)
    (layout : Layout) (hi : s.waiting[i]? = some x)
    (hr : r.statusCode ≠ .known .notModified) :
    ∃ s', step hash s (.answer i r layout) = some s' ∧
      (Refreshed s.cache s'.cache (hash x.uri) ⟨x.now, r.expirationTime x.now, r⟩ ↔
        StoresFresh s.cache (hash x.uri) ⟨x.now, r.expirationTime x.now, r⟩) := by
  rw [step_answer hi, answer_new hr, ← refreshed_store_iff]
  exact ⟨_, rfl, refreshed_place layout⟩

/-- A first request for a URI. -/
theorem refresh_first_request :
    ∃ s', step (fun _ => 0) ⟨∅, [⟨ascii "http://a/", 0, none⟩], [], [], []⟩
        (.answer 0 (page (ascii "old")) .same) = some s' ∧
      Refreshed ∅ s'.cache 0 ⟨0, 10, page (ascii "old")⟩ := by
  rcases refresh_iff (fun _ => 0) ⟨∅, [⟨ascii "http://a/", 0, none⟩], [], [], []⟩ 0
    ⟨ascii "http://a/", 0, none⟩ (page (ascii "old")) .same rfl (by decide) with ⟨s', hs', hiff⟩
  exact ⟨s', hs', hiff.mpr (.inl (AList.notMem_empty 0))⟩

/-- The page is requested again at 20, when its entry is stale: the new copy is not stored. -/
theorem stale_entry_stays :
    ∃ s s', (proxy fun _ => 0).Reachable s ∧
      s.waiting[0]? = some ⟨ascii "http://a/", 20, some 10⟩ ∧
      step (fun _ => 0) s (.answer 0 (page (ascii "new")) .same) = some s' ∧
      ¬ Refreshed s.cache s'.cache 0 ⟨20, 10, page (ascii "new")⟩ := by
  have hrun : (proxy fun _ => 0).run ⟨∅, [], [], [], []⟩
      [.request (ascii "http://a/") 0, .answer 0 (page (ascii "old")) .same,
        .request (ascii "http://a/") 20] = some _ := rfl
  refine ⟨_, _, Machine.reachable_of_run rfl hrun, rfl, rfl, ?_⟩
  intro h
  have hbody := congrArg (Option.map fun e => e.response.message.body) h.stored
  revert hbody
  decide

end ComputerNetworking.Proxy
