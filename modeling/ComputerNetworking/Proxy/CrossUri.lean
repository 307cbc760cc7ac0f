/-
# ComputerNetworking.Proxy.CrossUri -- whose response comes out of the cache

An entry is found by the hash of a URI and is not compared with the URI itself. While no two different
URIs of a run have the same hash, every entry belongs to the URI it was received for, and so does what
is served from it: `Linked`. No hash function makes that hold of all runs, since there are more URIs
than hashes; two requests are enough then.
-/
import ComputerNetworking.Proxy.Handler
import Mathlib.Data.Fintype.Pigeonhole
import Mathlib.Data.Fintype.BigOperators

namespace ComputerNetworking.Proxy

open ComputerNetworking.Lib ComputerNetworking.Http

/-- What has been served from the cache was received as an answer for the same URI. -/
def OwnAnswers (s : State) : Prop :=
  ∀ d ∈ s.delivered, d.fromCache = true → (d.uri, d.response) ∈ s.received

/-- A request does not collide with one before. -/
def NoCollision (hash : Bytes → UInt64) (s : State) : Event → Prop
  | .request uri _ => ∀ u ∈ s.requested, hash u = hash uri → u = uri
  | .answer .. => True

instance (hash : Bytes → UInt64) (s : State) (e : Event) : Decidable (NoCollision hash s e) := by
  cases e <;> unfold NoCollision <;> infer_instance

/-- Every entry belongs to a requested URI and was received for it, and the hash tells the requested
URIs apart. -/
structure Linked (hash : Bytes → UInt64) (s : State) : Prop where
  injective : ∀ u ∈ s.requested, ∀ v ∈ s.requested, hash u = hash v → u = v
  waiting : ∀ x ∈ s.waiting, x.uri ∈ s.requested
  entries : ∀ k e, s.cache.lookup k = some e →
    ∃ u ∈ s.requested, hash u = k ∧ (u, e.response) ∈ s.received
  delivered : OwnAnswers s

section Linked

variable {hash : Bytes → UInt64} {s s' : State}

/-- An entry found under the hash of a requested URI belongs to it. -/
theorem Linked.own (h : Linked hash s) {uri : Bytes} (huri : uri ∈ s.requested) {e : Entry}
    (he : s.cache.lookup (hash uri) = some e) : (uri, e.response) ∈ s.received := by
  obtain ⟨u, hu, hhash, hreceived⟩ := h.entries _ e he
  rwa [h.injective u hu uri huri hhash] at hreceived

/-- Touching an entry keeps the links. -/
theorem Linked.touch (h : Linked hash s) {key : UInt64} {entry : Entry} {now : Int}
    (hkey : s.cache.lookup key = some entry) :
    ∀ k e, (s.cache.replace key { entry with lastUsed := now }).lookup k = some e →
      ∃ u ∈ s.requested, hash u = k ∧ (u, e.response) ∈ s.received := by
  intro k e he
  obtain ⟨e', he', hsame, -⟩ := lookup_touch hkey he
  rw [← hsame]
  exact h.entries k e' he'

/-- Serving an entry to the URI it was found for. -/
theorem Linked.serve (h : Linked hash s) {uri : Bytes} (huri : uri ∈ s.requested) {entry : Entry}
    (hkey : s.cache.lookup (hash uri) = some entry) (now : Int) :
    Linked hash { s with
      cache := s.cache.replace (hash uri) { entry with lastUsed := now }
      delivered := s.delivered ++ [⟨uri, entry.response, true⟩] } := by
  refine ⟨h.injective, h.waiting, h.touch hkey, ?_⟩
  intro d hd hcache
  rcases List.mem_append.mp hd with hold | hnew
  · exact h.delivered d hold hcache
  · rw [List.mem_singleton.mp hnew]
    exact h.own huri hkey

/-- Asking for a URI that does not collide. -/
theorem Linked.ask (h : Linked hash s) {uri : Bytes}
    (hfree : ∀ u ∈ s.requested, hash u = hash uri → u = uri) :
    Linked hash { s with requested := s.requested ++ [uri] } := by
  refine ⟨?_, ?_, ?_, h.delivered⟩
  · intro u hu v hv hhash
    -- both asked for before, only one of them, or neither
    rcases List.mem_append.mp hu with hu | hu <;> rcases List.mem_append.mp hv with hv | hv
    · exact h.injective u hu v hv hhash
    · rw [List.mem_singleton.mp hv] at hhash ⊢
      exact hfree u hu hhash
    · rw [List.mem_singleton.mp hu] at hhash ⊢
      exact (hfree v hv hhash.symm).symm
    · rw [List.mem_singleton.mp hu, List.mem_singleton.mp hv]
  · intro x hx
    exact List.mem_append_left _ (h.waiting x hx)
  · intro k e he
    obtain ⟨u, hu, hlink⟩ := h.entries k e he
    exact ⟨u, List.mem_append_left _ hu, hlink⟩

/-- Waiting for the origin. -/
theorem Linked.wait (h : Linked hash s) {x : Exchange} (hx : x.uri ∈ s.requested) :
    Linked hash { s with waiting := s.waiting ++ [x] } := by
  refine ⟨h.injective, ?_, h.entries, h.delivered⟩
  intro y hy
  rcases List.mem_append.mp hy with hold | hnew
  · exact h.waiting y hold
  · rwa [List.mem_singleton.mp hnew]

/-- Receiving an answer. -/
theorem Linked.receive (h : Linked hash s) (i : Nat) (uri : Bytes) (r : Response) :
    Linked hash { s with
      waiting := s.waiting.eraseIdx i
      received := s.received ++ [(uri, r)] } := by
  refine ⟨h.injective, ?_, ?_, ?_⟩
  · intro x hx
    exact h.waiting x (List.mem_of_mem_eraseIdx hx)
  · intro k e he
    obtain ⟨u, hu, hhash, hreceived⟩ := h.entries k e he
    exact ⟨u, hu, hhash, List.mem_append_left _ hreceived⟩
  · intro d hd hcache
    exact List.mem_append_left _ (h.delivered d hd hcache)

/-- Relaying and storing what has been received. -/
theorem Linked.relay (h : Linked hash s) {uri : Bytes} (huri : uri ∈ s.requested) {r : Response}
    (hreceived : (uri, r) ∈ s.received) (now expiration : Int) (layout : Layout) :
    Linked hash { s with
      cache := layout.place (store s.cache (hash uri) ⟨now, expiration, r⟩)
      delivered := s.delivered ++ [⟨uri, r, false⟩] } := by
  refine ⟨h.injective, h.waiting, ?_, ?_⟩
  · intro k e he
    rw [layout.lookup] at he
    rcases lookup_of_store he with ⟨rfl, rfl⟩ | hold
    · exact ⟨uri, huri, rfl, hreceived⟩
    · exact h.entries k e hold
  · intro d hd hcache
    rcases List.mem_append.mp hd with hold | hnew
    · exact h.delivered d hold hcache
    · rw [List.mem_singleton.mp hnew] at hcache
      cases hcache

theorem linked_request (h : Linked hash s) {uri : Bytes} {now : Int}
    (hfree : ∀ u ∈ s.requested, hash u = hash uri → u = uri) :
    Linked hash (request hash s uri now) := by
  have hask := h.ask hfree
  have huri : uri ∈ s.requested ++ [uri] :=
    List.mem_append_right _ (List.mem_singleton.mpr rfl)
  unfold request
  rcases hlook : s.cache.lookup (hash uri) with _ | entry
  · simp only [hlook]
    exact hask.wait huri
  · simp only [hlook]
    split_ifs
    · exact hask.serve huri hlook now
    · exact hask.wait huri

theorem linked_answer (h : Linked hash s) {i : Nat} {x : Exchange} {r : Response} {layout : Layout}
    (hi : s.waiting[i]? = some x) (hs : step hash s (.answer i r layout) = some s') :
    Linked hash s' := by
  have hreceive := h.receive i x.uri r
  have huri : x.uri ∈ s.requested := h.waiting x (List.mem_of_getElem? hi)
  by_cases hr : r.statusCode = .known .notModified
  · rcases hlook : s.cache.lookup (hash x.uri) with _ | entry
    · rw [step_notModified_none hi hr hlook] at hs
      cases hs
    · rw [step_notModified hi hr hlook] at hs
      cases hs
      exact hreceive.serve huri hlook x.now
  · rw [step_answer hi, answer_new hr] at hs
    cases hs
    apply hreceive.relay huri
    exact List.mem_append_right _ (List.mem_singleton.mpr rfl)

end Linked

/-- **While no two different URIs of the run collide, the proxy serves from its cache only what was
received for the same URI.** -/
theorem no_cross_uri (hash : Bytes → UInt64) (s : State)
    (h : (proxy hash).ReachableUnder (NoCollision hash) s) : OwnAnswers s := by
  have hlinked : Linked hash s := by
    apply h.invariant
    · rintro s rfl
      refine ⟨?_, ?_, ?_, ?_⟩
      · intro u hu
        cases hu
      · intro x hx
        cases hx
      · intro k e he
        rw [AList.lookup_empty] at he
        cases he
      · intro d hd
        cases hd
    · intro s e s' hl hg hs
      cases e with
      | request uri now =>
          cases hs
          exact linked_request hl hg
      | answer i r layout =>
          rcases hi : s.waiting[i]? with _ | x
          · have hnone : step hash s (.answer i r layout) = none := by
              show (s.waiting[i]?).bind _ = none
              rw [hi]
              rfl
            rw [show step hash s (.answer i r layout) = some s' from hs] at hnone
            cases hnone
          · exact linked_answer hl hi hs
  exact hlinked.delivered

/-- A page is fetched, served from the cache, found stale and served again after a 304. -/
theorem no_cross_uri_page :
    ∃ s, (proxy fun uri => UInt64.ofNat uri.length).run ⟨∅, [], [], [], []⟩
        [.request (ascii "http://a/") 0, .answer 0 (page (ascii "old")) .same,
          .request (ascii "http://a/") 5, .request (ascii "http://a/b") 6,
          .request (ascii "http://a/") 20, .answer 1 notModified .same] = some s ∧
      (s.delivered.filter Delivery.fromCache).length = 2 ∧ OwnAnswers s := by
  have hrun : (proxy fun uri => UInt64.ofNat uri.length).run ⟨∅, [], [], [], []⟩
      [.request (ascii "http://a/") 0, .answer 0 (page (ascii "old")) .same,
        .request (ascii "http://a/") 5, .request (ascii "http://a/b") 6,
        .request (ascii "http://a/") 20, .answer 1 notModified .same] = some _ := rfl
  refine ⟨_, hrun, rfl, ?_⟩
  exact no_cross_uri (fun uri => UInt64.ofNat uri.length) _ (.run (.init rfl) (by decide) hrun)

/-! ## No hash is enough -/

/-- A URI with 65 letters behind the host. -/
def lettersUri (word : Fin 65 → Bool) : Bytes :=
  ascii "http://a/" ++ List.ofFn fun i => if word i then 0x62 else 0x61

theorem lettersUri_injective : Function.Injective lettersUri := by
  intro w w' h
  have hletters := List.ofFn_injective (List.append_cancel_left h)
  funext i
  have hi := congrFun hletters i
  rcases hw : w i with _ | _ <;> rcases hw' : w' i with _ | _ <;> simp [hw, hw'] at hi ⊢

/-- There are more of them than hashes. -/
theorem exists_collision (hash : Bytes → UInt64) : ∃ u v, u ≠ v ∧ hash u = hash v := by
  have hcard : Fintype.card (Fin (2 ^ 64)) < Fintype.card (Fin 65 → Bool) := by
    rw [Fintype.card_fin, Fintype.card_fun, Fintype.card_bool, Fintype.card_fin]
    exact Nat.pow_lt_pow_right (by decide) (by decide)
  obtain ⟨w, w', hne, heq⟩ := Fintype.exists_ne_map_eq_of_card_lt
    (fun w => (hash (lettersUri w)).toFin) hcard
  exact ⟨lettersUri w, lettersUri w', fun h => hne (lettersUri_injective h),
    UInt64.toFin_inj.mp heq⟩

/-- Whatever the hash is, some page is served for another URI than its own. -/
theorem no_hash_is_enough :
    ¬ ∃ hash : Bytes → UInt64, ∀ s, (proxy hash).Reachable s → OwnAnswers s := by
  rintro ⟨hash, h⟩
  obtain ⟨u, v, hne, heq⟩ := exists_collision hash
  let cached : State :=
    ⟨store ∅ (hash u) ⟨0, 10, page (ascii "old")⟩, [], [u], [(u, page (ascii "old"))],
      [⟨u, page (ascii "old"), false⟩]⟩
  have hrun : (proxy hash).run ⟨∅, [], [], [], []⟩
      [.request u 0, .answer 0 (page (ascii "old")) .same] = some cached := rfl
  have hcached := Machine.reachable_of_run (M := proxy hash) rfl hrun
  have hlook : cached.cache.lookup (hash v) = some ⟨0, 10, page (ascii "old")⟩ := by
    show (store ∅ (hash u) _).lookup (hash v) = _
    rw [store_of_room (by decide), heq]
    exact UnorderedMap.lookup_emplace_of_notMem (AList.notMem_empty _)
  have hserved : (⟨v, page (ascii "old"), true⟩ : Delivery) ∈ (request hash cached v 1).delivered := by
    unfold request
    simp only [hlook]
    exact List.mem_append_right _ (List.mem_singleton.mpr rfl)
  have hown := h (request hash cached v 1) (.step hcached trivial (e := .request v 1) rfl) _ hserved rfl
  have hreceived : (request hash cached v 1).received = [(u, page (ascii "old"))] := by
    unfold request
    simp only [hlook]
    rfl
  rw [hreceived] at hown
  exact hne (congrArg Prod.fst (List.mem_singleton.mp hown)).symm

end ComputerNetworking.Proxy
