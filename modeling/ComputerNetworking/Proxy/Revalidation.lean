/-
# ComputerNetworking.Proxy.Revalidation -- what a request finds when the 304 comes

A request that has found a stale entry remembers only the hash while it waits, and looks the entry up
again when the answer is a 304. In between other requests complete. They never overwrite an entry, but
in a full cache each of them evicts one, and nothing keeps it from being the one that is waited for:
then `cache->at` throws.

Added to the proxy is what each waiting request found when it came.
-/
import ComputerNetworking.Proxy.Handler
import Mathlib.Data.List.InsertIdx

namespace ComputerNetworking.Proxy

open ComputerNetworking.Lib ComputerNetworking.Http

/-! ## Requests and what they found -/

/-- The proxy, and its waiting requests with the entries they found. -/
structure Watched where
  state : State
  found : List (Exchange × Option Entry)

def Watched.start : Watched := ⟨⟨∅, [], [], [], []⟩, []⟩

section Machine

variable (hash : Bytes → UInt64)

/-- The waiting requests after an event. -/
def Watched.next (w : Watched) : Event → List (Exchange × Option Entry)
  | .request uri now =>
      match w.state.cache.lookup (hash uri) with
      | some entry =>
          if now < entry.expiration then w.found
          else w.found ++ [(⟨uri, now, some entry.expiration⟩, some entry)]
      | none => w.found ++ [(⟨uri, now, none⟩, none)]
  | .answer i _ _ => w.found.eraseIdx i

/-- The proxy, watched. -/
def watchedProxy : Machine Watched Event where
  init w := w = Watched.start
  step w e := (step hash w.state e).map fun s' => ⟨s', w.next hash e⟩

/-! ## The two conditions -/

/-- The origin answers 304 only to a conditional GET. -/
def HonestOrigin (w : Watched) : Event → Prop
  | .answer i r _ =>
      r.statusCode = .known .notModified → ∀ x ∈ w.state.waiting[i]?, x.ifModifiedSince.isSome
  | .request .. => True

/-- A new response that arrives at a full cache evicts no entry that another waiting request found. -/
def SparesFound (w : Watched) : Event → Prop
  | .answer i r _ =>
      r.statusCode = .known .notModified ∨ UnorderedMap.size w.state.cache < maxEntries ∨
        ∀ victim ∈ oldest w.state.cache, ∀ p ∈ w.found.eraseIdx i,
          p.2.isSome → hash p.1.uri ≠ victim.1
  | .request .. => True

instance (w : Watched) : (e : Event) → Decidable (HonestOrigin w e)
  | .answer .. => by
      unfold HonestOrigin
      infer_instance
  | .request .. => isTrue trivial

instance (w : Watched) : (e : Event) → Decidable (SparesFound hash w e)
  | .answer .. => by
      unfold SparesFound
      infer_instance
  | .request .. => isTrue trivial

/-! ## The invariant -/

/-- Each waiting request is known with the entry whose date it has sent, and the cache still has it. -/
structure Keeps (w : Watched) : Prop where
  waiting : w.found.map Prod.fst = w.state.waiting
  sent : ∀ p ∈ w.found, p.1.ifModifiedSince = p.2.map Entry.expiration
  kept : ∀ p ∈ w.found, ∀ e, p.2 = some e →
    ∃ e', w.state.cache.lookup (hash p.1.uri) = some e' ∧ e.Same e'

end Machine

section Steps

variable {hash : Bytes → UInt64} {w w' : Watched}

/-- Watching the proxy does not change what it does. -/
theorem Watched.reachable_state (h : (watchedProxy hash).Reachable w) :
    (proxy hash).Reachable w.state := by
  apply h.invariant
  · rintro w rfl
    exact .init rfl
  · intro w e w' hr _ hs
    obtain ⟨s', hs', rfl⟩ := Option.map_eq_some_iff.mp hs
    exact .step hr trivial hs'

theorem keeps_request (h : Keeps hash w) (uri : Bytes) (now : Int) :
    Keeps hash ⟨request hash w.state uri now, w.next hash (.request uri now)⟩ := by
  unfold request Watched.next
  rcases hlook : w.state.cache.lookup (hash uri) with _ | entry
  · -- nothing is in the cache
    simp only [hlook]
    refine ⟨by rw [List.map_append, h.waiting]; rfl, ?_, ?_⟩
    · rw [List.forall_mem_append]
      exact ⟨h.sent, by simp⟩
    · rw [List.forall_mem_append]
      exact ⟨h.kept, by simp⟩
  · simp only [hlook]
    by_cases hfresh : now < entry.expiration
    · -- served at once, which touches the entry
      simp only [if_pos hfresh]
      refine ⟨h.waiting, h.sent, ?_⟩
      intro p hp e he
      obtain ⟨e₁, hlook₁, hsame₁⟩ := h.kept p hp e he
      obtain ⟨e₂, hlook₂, hsame₂⟩ := exists_touched hlook now hlook₁
      exact ⟨e₂, hlook₂, hsame₁.trans hsame₂⟩
    · -- a stale entry
      simp only [if_neg hfresh]
      refine ⟨by rw [List.map_append, h.waiting]; rfl, ?_, ?_⟩
      · rw [List.forall_mem_append]
        exact ⟨h.sent, by simp⟩
      · rw [List.forall_mem_append]
        refine ⟨h.kept, ?_⟩
        intro p hp e he
        rw [List.mem_singleton.mp hp] at he ⊢
        cases he
        exact ⟨entry, hlook, .refl entry⟩

theorem keeps_answer (h : Keeps hash w) {i : Nat} {r : Response} {layout : Layout}
    (hspares : SparesFound hash w (.answer i r layout)) {s' : State}
    (hs : step hash w.state (.answer i r layout) = some s') :
    Keeps hash ⟨s', w.found.eraseIdx i⟩ := by
  rcases hi : w.state.waiting[i]? with _ | x
  · have hnone : step hash w.state (.answer i r layout) = none := by
      show (w.state.waiting[i]?).bind _ = none
      rw [hi]
      rfl
    rw [hs] at hnone
    cases hnone
  · have hwaiting : (w.found.eraseIdx i).map Prod.fst = w.state.waiting.eraseIdx i := by
      rw [← h.waiting, List.eraseIdx_map]
    have hsent : ∀ p ∈ w.found.eraseIdx i, p.1.ifModifiedSince = p.2.map Entry.expiration :=
      fun p hp => h.sent p (List.mem_of_mem_eraseIdx hp)
    by_cases hr : r.statusCode = .known .notModified
    · -- the entry is touched
      rcases hlook : w.state.cache.lookup (hash x.uri) with _ | entry
      · rw [step_notModified_none hi hr hlook] at hs
        cases hs
      · rw [step_notModified hi hr hlook] at hs
        cases hs
        refine ⟨hwaiting, hsent, ?_⟩
        intro p hp e he
        obtain ⟨e₁, hlook₁, hsame₁⟩ := h.kept p (List.mem_of_mem_eraseIdx hp) e he
        obtain ⟨e₂, hlook₂, hsame₂⟩ := exists_touched hlook x.now hlook₁
        exact ⟨e₂, hlook₂, hsame₁.trans hsame₂⟩
    · -- the response is stored
      rw [step_answer hi, answer_new hr] at hs
      cases hs
      refine ⟨hwaiting, hsent, ?_⟩
      intro p hp e he
      obtain ⟨e', hlook, hsame⟩ := h.kept p (List.mem_of_mem_eraseIdx hp) e he
      refine ⟨e', ?_, hsame⟩
      show (layout.place (store w.state.cache _ _)).lookup _ = _
      rw [layout.lookup]
      apply lookup_store_of_spared hlook
      rcases hspares with h304 | hroom | hspared
      · exact absurd h304 hr
      · exact .inl hroom
      · refine .inr fun victim hv => hspared victim hv p hp ?_
        rw [he]
        rfl

theorem keeps_of_reachable (h : (watchedProxy hash).ReachableUnder (SparesFound hash) w) :
    Keeps hash w := by
  apply h.invariant
  · rintro w rfl
    exact ⟨rfl, by simp [Watched.start], by simp [Watched.start]⟩
  · intro w e w' hkeeps hspares hs
    obtain ⟨s', hs', rfl⟩ := Option.map_eq_some_iff.mp hs
    cases e with
    | request uri now =>
        cases hs'
        exact keeps_request hkeeps uri now
    | answer i r layout => exact keeps_answer hkeeps hspares hs'

/-- A completion that does not spare an entry takes it from the request that waits for it: a 304 would
throw, or, if both requests are for the same key, send the new response. -/
theorem exists_lost {i : Nat} {x : Exchange} {r : Response} {layout : Layout}
    (hi : w.state.waiting[i]? = some x) (hno : ¬ SparesFound hash w (.answer i r layout)) :
    ∃ s', step hash w.state (.answer i r layout) = some s' ∧
      ∃ p ∈ w.found.eraseIdx i, p.2.isSome ∧
        s'.cache.lookup (hash p.1.uri) =
          if hash p.1.uri = hash x.uri then some ⟨x.now, r.expirationTime x.now, r⟩ else none := by
  unfold SparesFound at hno
  push Not at hno
  obtain ⟨hr, hfull, victim, hv, p, hp, hfound, hkey⟩ := hno
  rw [step_answer hi, answer_new hr]
  refine ⟨_, rfl, p, hp, hfound, ?_⟩
  show (layout.place (store w.state.cache _ _)).lookup _ = _
  rw [layout.lookup, store_of_full hfull hv, hkey]
  split_ifs with hsame
  · rw [hsame]
    apply UnorderedMap.lookup_emplace_of_notMem
    rw [AList.mem_erase]
    exact fun hmem => hmem.1 rfl
  · rw [UnorderedMap.lookup_emplace_ne hsame, AList.lookup_erase]

end Steps

/-! ## The 304 branch -/

/-- **In every run in which no completion evicts an entry another request is waiting for, a 304 finds
the entry that the request's own lookup found, and sends the client its response.** -/
theorem revalidation_keeps (hash : Bytes → UInt64) (w : Watched)
    (h : (watchedProxy hash).ReachableUnder
      (fun w e => HonestOrigin w e ∧ SparesFound hash w e) w)
    (i : Nat) (x : Exchange) (hi : w.state.waiting[i]? = some x) (r : Response) (layout : Layout)
    (hr : r.statusCode = .known .notModified) (honest : HonestOrigin w (.answer i r layout)) :
    ∃ found entry s', w.found[i]? = some (x, some found) ∧
      x.ifModifiedSince = some found.expiration ∧
      w.state.cache.lookup (hash x.uri) = some entry ∧ found.Same entry ∧
      step hash w.state (.answer i r layout) = some s' ∧
      s'.delivered = w.state.delivered ++ [⟨x.uri, found.response, true⟩] := by
  have hkeeps := keeps_of_reachable (h.mono fun _ _ hboth => hboth.2)
  -- what this request found
  have hmap : (w.found.map Prod.fst)[i]? = some x := by rw [hkeeps.waiting, hi]
  rw [List.getElem?_map, Option.map_eq_some_iff] at hmap
  obtain ⟨⟨y, found?⟩, hp, rfl⟩ := hmap
  have hmem := List.mem_of_getElem? hp
  have hsent := hkeeps.sent _ hmem
  have hdate := honest hr y hi
  rcases found? with _ | found
  · rw [hsent] at hdate
    cases hdate
  · obtain ⟨entry, hlook, hsame⟩ := hkeeps.kept _ hmem found rfl
    refine ⟨found, entry, _, hp, hsent, hlook, hsame, step_notModified hi hr hlook, ?_⟩
    rw [← hsame.1]

/-- Another page is fetched while a page is revalidated. -/
theorem revalidation_keeps_page :
    ∃ w, (watchedProxy fun uri => UInt64.ofNat uri.length).run .start
        [.request (ascii "http://a/") 0, .answer 0 (page (ascii "old")) .same,
          .request (ascii "http://a/") 20, .request (ascii "http://a/b") 21,
          .answer 1 (page (ascii "b")) .same] = some w ∧
      ∃ found s', w.found[0]? = some (⟨ascii "http://a/", 20, some 10⟩, some found) ∧
        step (fun uri => UInt64.ofNat uri.length) w.state (.answer 0 notModified .same) = some s' ∧
        s'.delivered = w.state.delivered ++ [⟨ascii "http://a/", found.response, true⟩] := by
  have hrun : (watchedProxy fun uri => UInt64.ofNat uri.length).run .start
      [.request (ascii "http://a/") 0, .answer 0 (page (ascii "old")) .same,
        .request (ascii "http://a/") 20, .request (ascii "http://a/b") 21,
        .answer 1 (page (ascii "b")) .same] = some _ := rfl
  obtain ⟨found, entry, s', hfound, -, -, -, hs', hdelivered⟩ :=
    revalidation_keeps (fun uri => UInt64.ofNat uri.length) _
      (.run (.init rfl) (by decide) hrun) 0 _ rfl notModified .same rfl (by decide)
  exact ⟨_, hrun, found, s', hfound, hs', hdelivered⟩

/-- URIs of different lengths. -/
def longUri (n : Nat) : Bytes := ascii "http://a/" ++ List.replicate n 0x61

/-- Ten pages fill the cache, the first is asked for again when it is stale, and an eleventh URI comes
in between. -/
def elevenUris : List Event :=
  ((List.range 10).flatMap fun n =>
      [.request (longUri n) n, .answer 0 (page (ascii "page")) .same]) ++
    [.request (longUri 0) 20, .request (longUri 10) 21, .answer 1 (page (ascii "page")) .same]

/-- The first page has been evicted, and its 304 throws. -/
theorem eleventh_uri_evicts :
    ∃ w, (watchedProxy fun uri => UInt64.ofNat uri.length).run .start
        elevenUris = some w ∧
      (watchedProxy fun uri => UInt64.ofNat uri.length).Along HonestOrigin .start
        elevenUris ∧
      w.state.waiting[0]? = some ⟨longUri 0, 20, some 10⟩ ∧
      HonestOrigin w (.answer 0 notModified .same) ∧
      step (fun uri => UInt64.ofNat uri.length) w.state (.answer 0 notModified .same) = none := by
  have hrun : (watchedProxy fun uri => UInt64.ofNat uri.length).run .start
      elevenUris = some _ := rfl
  exact ⟨_, hrun, by decide +kernel, rfl, by decide +kernel, rfl⟩

end ComputerNetworking.Proxy
