/-
# ComputerNetworking.Proxy.Coherence -- is what the proxy delivers what the origin has?

The date of a conditional GET is the expiration time of the stale entry, and an origin that answers 304
says that nothing was modified after that date. The entry was received when it was fetched. Where it
expires before that, the 304 covers all the time since; where `Expires` lies ahead, a modification
between the two is never noticed, and the entry, which is not replaced either, is sent for good.

The origin's side is a history of versions for each URI. The proxy answers one request after the other
here: a visit is a whole request, with the exchange if there is one.
-/
import ComputerNetworking.Lib.History
import ComputerNetworking.Proxy.CrossUri

namespace ComputerNetworking.Proxy

open ComputerNetworking.Lib ComputerNetworking.Http

/-! ## Visits -/

/-- A GET request, the origin's answer if it is asked, and when the two happen. -/
structure Visit where
  uri : Bytes
  now : Int
  answeredAt : Int
  response : Response
  layout : Layout

/-- The proxy between two requests, and when the last one ended. -/
structure Sequential where
  proxy : State
  clock : Int

/-- One request, from its lookup to the end of the exchange. -/
def Sequential.visit (hash : Bytes → UInt64) (s : Sequential) (v : Visit) : Option Sequential :=
  let proxy := request hash s.proxy v.uri v.now
  match proxy.waiting with
  | [] => some ⟨proxy, v.now⟩
  | _ :: _ => (step hash proxy (.answer 0 v.response v.layout)).map fun proxy =>
      ⟨proxy, v.answeredAt⟩

/-- The proxy, one request at a time. -/
def sequential (hash : Bytes → UInt64) : Machine Sequential Visit where
  init s := s.proxy = ⟨∅, [], [], [], []⟩
  step := Sequential.visit hash

/-- Sequential runs are runs of the proxy. -/
theorem reachable_proxy {hash : Bytes → UInt64} {s : Sequential}
    (h : (sequential hash).Reachable s) : (proxy hash).Reachable s.proxy := by
  apply h.invariant
  · intro s hs
    exact .init hs
  · intro s v s' hr _ hs
    have hasked : (proxy hash).Reachable (request hash s.proxy v.uri v.now) :=
      .step hr trivial (e := .request v.uri v.now) rfl
    simp only [sequential, Sequential.visit] at hs
    split at hs
    · cases hs
      exact hasked
    · obtain ⟨p, hp, rfl⟩ := Option.map_eq_some_iff.mp hs
      exact .step hasked trivial (e := .answer 0 v.response v.layout) hp

/-! ## The origin -/

/-- The body as a string. -/
def Response.content (r : Response) : Bytes := r.message.body.getD []

/-- A 200 with the current content, whose dates are true. `Expires` may be any date. -/
def Describes (resource : History Int Bytes) (t : Int) (r : Response) : Prop :=
  r.statusCode = .known .ok ∧ ∃ version ∈ resource.current t, r.content = version.2 ∧
    (∀ date ∈ r.headerDate (ascii "Last-Modified"), date = version.1) ∧
    ∀ date ∈ r.headerDate (ascii "Date"), date = t

/-- What the origin answers at `t`: 304 exactly when it is asked for what was modified after a date and
nothing was. -/
def OriginAnswers (resource : History Int Bytes) (ifModifiedSince : Option Int) (t : Int)
    (r : Response) : Prop :=
  match ifModifiedSince with
  | some date =>
      if resource.ModifiedIn date t then Describes resource t r
      else r.statusCode = .known .notModified
  | none => Describes resource t r

/-- Time goes on, hashes do not collide, and the origin answers by its history. -/
structure Admissible (hash : Bytes → UInt64) (origin : Bytes → History Int Bytes) (s : Sequential)
    (v : Visit) : Prop where
  started : s.clock ≤ v.now
  answered : v.now ≤ v.answeredAt
  distinct : NoCollision hash s.proxy (.request v.uri v.now)
  truthful : ∀ x ∈ (request hash s.proxy v.uri v.now).waiting,
    OriginAnswers (origin x.uri) x.ifModifiedSince v.answeredAt v.response

/-- The proxy contacts the origin. -/
def Contacts (hash : Bytes → UInt64) (s : Sequential) (v : Visit) : Prop :=
  (request hash s.proxy v.uri v.now).waiting ≠ []

/-- A new response that goes into the cache with an expiry date ahead has the content of that date. -/
def LastsUntilExpiry (hash : Bytes → UInt64) (origin : Bytes → History Int Bytes) (s : Sequential)
    (v : Visit) : Prop :=
  Contacts hash s v → v.response.statusCode = .known .ok →
    TakesIn s.proxy.cache (hash v.uri) →
    ∀ date ∈ v.response.headerDate (ascii "Expires"), v.answeredAt < date →
      ((origin v.uri).current date).map Prod.snd =
        ((origin v.uri).current v.answeredAt).map Prod.snd

section Decidable

variable (hash : Bytes → UInt64) (origin : Bytes → History Int Bytes) (s : Sequential) (v : Visit)

instance (resource : History Int Bytes) (t : Int) (r : Response) :
    Decidable (Describes resource t r) := by
  unfold Describes
  infer_instance

instance (resource : History Int Bytes) (date : Option Int) (t : Int) (r : Response) :
    Decidable (OriginAnswers resource date t r) := by
  unfold OriginAnswers
  split <;> infer_instance

instance : Decidable (Admissible hash origin s v) :=
  decidable_of_iff (s.clock ≤ v.now ∧ v.now ≤ v.answeredAt ∧
      NoCollision hash s.proxy (.request v.uri v.now) ∧
      ∀ x ∈ (request hash s.proxy v.uri v.now).waiting,
        OriginAnswers (origin x.uri) x.ifModifiedSince v.answeredAt v.response)
    ⟨fun h => ⟨h.1, h.2.1, h.2.2.1, h.2.2.2⟩,
      fun h => ⟨h.started, h.answered, h.distinct, h.truthful⟩⟩

instance : Decidable (Contacts hash s v) := by
  unfold Contacts
  infer_instance

instance : Decidable (LastsUntilExpiry hash origin s v) := by
  unfold LastsUntilExpiry
  infer_instance

end Decidable

/-! ## What a 304 is good for -/

section Good

variable {resource : History Int Bytes} {r : Response} {t now clock : Int} {e e' : Entry}

/-- From `clock` on, a 304 to a request with the entry's date is right about its response. -/
def Good (resource : History Int Bytes) (clock : Int) (e : Entry) : Prop :=
  ∀ t, clock ≤ t → e.expiration ≤ t → ¬ resource.ModifiedIn e.expiration t →
    (resource.current t).map Prod.snd = some e.response.content

theorem Good.mono (h : Good resource clock e) (hle : clock ≤ t) : Good resource t e :=
  fun t' ht' => h t' (Int.le_trans hle ht')

theorem Good.same (h : Good resource clock e) (hsame : e'.Same e) : Good resource clock e' := by
  obtain ⟨hresponse, hexpiration⟩ := hsame
  unfold Good at h ⊢
  rwa [hresponse, hexpiration] at h

theorem Describes.content (h : Describes resource t r) :
    (resource.current t).map Prod.snd = some r.content := by
  obtain ⟨-, version, hversion, hcontent, -⟩ := h
  rw [hversion, Option.map_some, hcontent]

/-- The expiration time is that of `Expires` or has come when the answer does. -/
theorem Describes.expirationTime (h : Describes resource t r) (hnow : now ≤ t) :
    r.expirationTime now ≤ t ∨ r.headerDate (ascii "Expires") = some (r.expirationTime now) := by
  obtain ⟨-, version, hversion, -, hmodified, hdate⟩ := h
  unfold Response.expirationTime
  rcases hexpires : r.headerDate (ascii "Expires") with _ | date
  · rcases hlast : r.headerDate (ascii "Last-Modified") with _ | date
    · rcases hd : r.headerDate (ascii "Date") with _ | date
      · exact .inl hnow
      · exact .inl (Int.le_of_eq (hdate date hd))
    · rw [hmodified date hlast]
      exact .inl (History.current_spec hversion).2.1
  · exact .inr rfl

/-- **A new entry is good unless it expires ahead of a modification.** -/
theorem Describes.good (h : Describes resource t r) (hnow : now ≤ t)
    (hlasts : ∀ date ∈ r.headerDate (ascii "Expires"), t < date →
      (resource.current date).map Prod.snd = (resource.current t).map Prod.snd) :
    Good resource t ⟨now, r.expirationTime now, r⟩ := by
  intro t' ht' hexpired hquiet
  show _ = some r.content
  rw [← h.content]
  by_cases hpast : r.expirationTime now ≤ t
  · -- the 304 covers the time since the fetch
    have hsince : ¬ resource.ModifiedIn t t' := fun hm => hquiet (hm.mono hpast)
    rw [History.current_eq ht' hsince]
  · -- it covers the time since the expiry date
    have hexpires := (h.expirationTime hnow).resolve_left hpast
    rw [History.current_eq hexpired hquiet]
    exact hlasts _ hexpires (Int.not_le.mp hpast)

end Good

/-! ## One request -/

section Request

variable {s : State}

/-- **A request is served from the cache or waits for the origin with the date of the entry.** -/
theorem request_cases (hash : Bytes → UInt64) (uri : Bytes) (now : Int) (idle : s.waiting = []) :
    (∃ e, s.cache.lookup (hash uri) = some e ∧ now < e.expiration ∧
        request hash s uri now = { s with
          cache := s.cache.replace (hash uri) { e with lastUsed := now }
          requested := s.requested ++ [uri]
          delivered := s.delivered ++ [⟨uri, e.response, true⟩] }) ∨
      ((∀ e, s.cache.lookup (hash uri) = some e → e.expiration ≤ now) ∧
        request hash s uri now = { s with
          waiting := [⟨uri, now, (s.cache.lookup (hash uri)).map Entry.expiration⟩]
          requested := s.requested ++ [uri] }) := by
  unfold request
  rcases hlook : s.cache.lookup (hash uri) with _ | e
  · simp only [hlook, idle]
    exact .inr ⟨by simp, rfl⟩
  · simp only [hlook, idle]
    by_cases hfresh : now < e.expiration
    · rw [if_pos hfresh]
      exact .inl ⟨e, rfl, hfresh, rfl⟩
    · rw [if_neg hfresh]
      refine .inr ⟨?_, rfl⟩
      intro e' he'
      cases he'
      exact Int.not_lt.mp hfresh

end Request

section Visits

variable {hash : Bytes → UInt64} {origin : Bytes → History Int Bytes} {s s' : Sequential} {v : Visit}

/-- A visit for which the origin is asked. -/
theorem visit_asked (idle : s.proxy.waiting = []) (hcontact : Contacts hash s v) :
    (∀ e, s.proxy.cache.lookup (hash v.uri) = some e → e.expiration ≤ v.now) ∧
      request hash s.proxy v.uri v.now = { s.proxy with
        waiting := [⟨v.uri, v.now, (s.proxy.cache.lookup (hash v.uri)).map Entry.expiration⟩]
        requested := s.proxy.requested ++ [v.uri] } := by
  rcases request_cases hash v.uri v.now idle with ⟨e, -, -, hr⟩ | hasked
  · exfalso
    apply hcontact
    rw [hr]
    exact idle
  · exact hasked

/-- The origin is asked with the date of the entry, if there is one. -/
theorem Admissible.answers (h : Admissible hash origin s v) (idle : s.proxy.waiting = [])
    (hcontact : Contacts hash s v) :
    OriginAnswers (origin v.uri) ((s.proxy.cache.lookup (hash v.uri)).map Entry.expiration)
      v.answeredAt v.response := by
  have hanswer := h.truthful
  rw [(visit_asked idle hcontact).2] at hanswer
  exact hanswer _ (List.mem_singleton.mpr rfl)

/-- The origin says 304 only to a request with a date, after which nothing was modified. -/
theorem Admissible.notModified (h : Admissible hash origin s v) (idle : s.proxy.waiting = [])
    (hcontact : Contacts hash s v) (hr : v.response.statusCode = .known .notModified) :
    ∃ e, s.proxy.cache.lookup (hash v.uri) = some e ∧
      ¬ (origin v.uri).ModifiedIn e.expiration v.answeredAt := by
  have hanswer := h.answers idle hcontact
  unfold OriginAnswers at hanswer
  rcases hlook : s.proxy.cache.lookup (hash v.uri) with _ | e
  · simp only [hlook, Option.map_none] at hanswer
    have hok := hanswer.1
    rw [hr] at hok
    cases hok
  · refine ⟨e, rfl, ?_⟩
    intro hm
    simp only [hlook, Option.map_some, if_pos hm] at hanswer
    have hok := hanswer.1
    rw [hr] at hok
    cases hok

/-- Any other answer describes the resource. -/
theorem Admissible.describes (h : Admissible hash origin s v) (idle : s.proxy.waiting = [])
    (hcontact : Contacts hash s v) (hr : v.response.statusCode ≠ .known .notModified) :
    Describes (origin v.uri) v.answeredAt v.response := by
  have hanswer := h.answers idle hcontact
  unfold OriginAnswers at hanswer
  rcases hlook : s.proxy.cache.lookup (hash v.uri) with _ | e
  · simpa only [hlook, Option.map_none] using hanswer
  · simp only [hlook, Option.map_some] at hanswer
    split_ifs at hanswer with hm
    · exact hanswer
    · exact absurd hanswer hr

/-- A 304 sends the entry, and touches it. -/
theorem visit_notModified (idle : s.proxy.waiting = []) (hcontact : Contacts hash s v)
    (hr : v.response.statusCode = .known .notModified) {e : Entry}
    (hlook : s.proxy.cache.lookup (hash v.uri) = some e) :
    s.visit hash v = some ⟨{ s.proxy with
      cache := s.proxy.cache.replace (hash v.uri) { e with lastUsed := v.now }
      waiting := []
      requested := s.proxy.requested ++ [v.uri]
      received := s.proxy.received ++ [(v.uri, v.response)]
      delivered := s.proxy.delivered ++ [⟨v.uri, e.response, true⟩] }, v.answeredAt⟩ := by
  unfold Sequential.visit
  rw [(visit_asked idle hcontact).2]
  simp only
  rw [step_notModified rfl hr hlook]
  rfl

/-- A new response is sent and stored. -/
theorem visit_new (idle : s.proxy.waiting = []) (hcontact : Contacts hash s v)
    (hr : v.response.statusCode ≠ .known .notModified) :
    s.visit hash v = some ⟨{ s.proxy with
      cache := v.layout.place (store s.proxy.cache (hash v.uri)
        ⟨v.now, v.response.expirationTime v.now, v.response⟩)
      waiting := []
      requested := s.proxy.requested ++ [v.uri]
      received := s.proxy.received ++ [(v.uri, v.response)]
      delivered := s.proxy.delivered ++ [⟨v.uri, v.response, false⟩] }, v.answeredAt⟩ := by
  unfold Sequential.visit
  rw [(visit_asked idle hcontact).2]
  simp only
  rw [step_answer rfl, answer_new hr]
  rfl

/-- A new response that the cache takes in is found from then on. -/
theorem visit_takesIn (idle : s.proxy.waiting = []) (hcontact : Contacts hash s v)
    (hr : v.response.statusCode ≠ .known .notModified)
    (htakes : TakesIn s.proxy.cache (hash v.uri)) :
    ∃ proxy, s.visit hash v = some ⟨proxy, v.answeredAt⟩ ∧ proxy.waiting = [] ∧
      proxy.requested = s.proxy.requested ++ [v.uri] ∧
      proxy.cache.lookup (hash v.uri) =
        some ⟨v.now, v.response.expirationTime v.now, v.response⟩ := by
  refine ⟨_, visit_new idle hcontact hr, rfl, rfl, ?_⟩
  show (v.layout.place _).lookup _ = _
  rw [v.layout.lookup, lookup_store_of_takesIn htakes]

/-- An entry that has expired is asked for with its date. -/
theorem asked_of_expired {proxy : State} {uri : Bytes} {now : Int} {e : Entry}
    (idle : proxy.waiting = []) (hlook : proxy.cache.lookup (hash uri) = some e)
    (hexpired : e.expiration ≤ now) :
    request hash proxy uri now = { proxy with
      waiting := [⟨uri, now, some e.expiration⟩]
      requested := proxy.requested ++ [uri] } := by
  rcases request_cases hash uri now idle with ⟨e', he', hfresh, -⟩ | ⟨-, hreq⟩
  · rw [hlook] at he'
    cases he'
    exact absurd hfresh (Int.not_lt.mpr hexpired)
  · rw [hreq, hlook]
    rfl

/-! ## Every run -/

/-- No request waits, and every entry is good for the URI that it is found under. -/
structure Coherent (hash : Bytes → UInt64) (origin : Bytes → History Int Bytes) (s : Sequential) :
    Prop where
  idle : s.proxy.waiting = []
  entries : ∀ k e, s.proxy.cache.lookup k = some e →
    ∃ u ∈ s.proxy.requested, hash u = k ∧ Good (origin u) s.clock e

/-- The entry found for a URI is one of its own. -/
theorem Coherent.good (h : Coherent hash origin s) (hv : Admissible hash origin s v) {e : Entry}
    (he : s.proxy.cache.lookup (hash v.uri) = some e) : Good (origin v.uri) s.clock e := by
  obtain ⟨u, hu, hhash, hgood⟩ := h.entries _ e he
  rwa [hv.distinct u hu hhash] at hgood

/-- Entries that are touched, while time goes on. -/
theorem Coherent.touch (h : Coherent hash origin s) {clock : Int} (hclock : s.clock ≤ clock)
    {key : UInt64} {e : Entry} (hkey : s.proxy.cache.lookup key = some e) (now : Int) (uri : Bytes) :
    ∀ k e', (s.proxy.cache.replace key { e with lastUsed := now }).lookup k = some e' →
      ∃ u ∈ s.proxy.requested ++ [uri], hash u = k ∧ Good (origin u) clock e' := by
  intro k e' he'
  obtain ⟨e₁, he₁, hsame⟩ := lookup_touch hkey he'
  obtain ⟨u, hu, hhash, hgood⟩ := h.entries k e₁ he₁
  exact ⟨u, List.mem_append_left _ hu, hhash, (hgood.same hsame).mono hclock⟩

theorem coherent_visit (h : Coherent hash origin s) (hv : Admissible hash origin s v)
    (hlasts : LastsUntilExpiry hash origin s v) (hs : s.visit hash v = some s') :
    Coherent hash origin s' := by
  have hclock : s.clock ≤ v.answeredAt := Int.le_trans hv.started hv.answered
  by_cases hcontact : Contacts hash s v
  · by_cases hr : v.response.statusCode = .known .notModified
    · obtain ⟨e, hlook, -⟩ := hv.notModified h.idle hcontact hr
      rw [visit_notModified h.idle hcontact hr hlook] at hs
      cases hs
      exact ⟨rfl, h.touch hclock hlook v.now v.uri⟩
    · have hdescribes := hv.describes h.idle hcontact hr
      rw [visit_new h.idle hcontact hr] at hs
      cases hs
      refine ⟨rfl, ?_⟩
      intro k e he
      change (v.layout.place (store s.proxy.cache _ _)).lookup k = some e at he
      rw [v.layout.lookup] at he
      rcases lookup_store_cases he with ⟨rfl, htakes, rfl⟩ | hold
      · -- the new entry
        refine ⟨v.uri, List.mem_append_right _ (List.mem_singleton.mpr rfl), rfl, ?_⟩
        exact hdescribes.good hv.answered (hlasts hcontact hdescribes.1 htakes)
      · -- an entry that was there before
        obtain ⟨u, hu, hhash, hgood⟩ := h.entries k e hold
        exact ⟨u, List.mem_append_left _ hu, hhash, hgood.mono hclock⟩
  · -- served from the cache
    rcases request_cases hash v.uri v.now h.idle with
      ⟨e, hlook, -, hreq⟩ | ⟨-, hreq⟩
    · unfold Sequential.visit at hs
      simp only [hreq, h.idle, Option.some.injEq] at hs
      rw [← hs]
      exact ⟨rfl, h.touch hv.started hlook v.now v.uri⟩
    · exfalso
      apply hcontact
      unfold Contacts
      rw [hreq]
      exact List.cons_ne_nil _ _

theorem coherent_of_reachable (h : (sequential hash).ReachableUnder
    (fun s v => Admissible hash origin s v ∧ LastsUntilExpiry hash origin s v) s) :
    Coherent hash origin s := by
  apply h.invariant
  · intro s hs
    have hempty : s.proxy = ⟨∅, [], [], [], []⟩ := hs
    refine ⟨by rw [hempty], ?_⟩
    intro k e he
    rw [hempty, AList.lookup_empty] at he
    cases he
  · intro s v s' hcoherent hv hs
    exact coherent_visit hcoherent hv.1 hv.2 hs

/-- **Where a page does not last until its expiry date, a visit on that date gets the old content.** -/
theorem exists_stale (h : Coherent hash origin s) (hv : Admissible hash origin s v)
    (hno : ¬ LastsUntilExpiry hash origin s v) :
    ∃ s' v' s'' d, s.visit hash v = some s' ∧ Admissible hash origin s' v' ∧ v'.uri = v.uri ∧
      Contacts hash s' v' ∧ s'.visit hash v' = some s'' ∧
      s''.proxy.delivered = s'.proxy.delivered ++ [d] ∧
      ((origin v.uri).current v'.answeredAt).map Prod.snd ≠ some d.response.content := by
  unfold LastsUntilExpiry at hno
  push Not at hno
  obtain ⟨hcontact, hok, htakes, date, hdate, hahead, hchanged⟩ := hno
  have hr : v.response.statusCode ≠ .known .notModified := by
    rw [hok]
    decide
  have hexpiration : v.response.expirationTime v.now = date := by
    unfold Response.expirationTime
    rw [hdate]
  obtain ⟨proxy, hvisit, hidle, hrequested, hlook⟩ := visit_takesIn h.idle hcontact hr htakes
  rw [hexpiration] at hlook
  -- the next visit is on the expiry date itself
  have hasked := asked_of_expired hidle hlook (Int.le_refl date)
  have hcontact' : Contacts hash ⟨proxy, v.answeredAt⟩ ⟨v.uri, date, date, notModified, .same⟩ := by
    unfold Contacts
    rw [hasked]
    exact List.cons_ne_nil _ _
  have hquiet : ¬ (origin v.uri).ModifiedIn date date := by
    rintro ⟨w, -, hlt, hle⟩
    exact absurd hlt (Int.not_lt.mpr hle)
  refine ⟨_, ⟨v.uri, date, date, notModified, .same⟩, _, _, hvisit, ?_, rfl, hcontact',
    visit_notModified hidle hcontact' rfl hlook, rfl, ?_⟩
  · refine ⟨Int.le_of_lt hahead, Int.le_refl _, ?_, ?_⟩
    · intro u hu hhash
      rw [hrequested] at hu
      rcases List.mem_append.mp hu with hu | hu
      · exact hv.distinct u hu hhash
      · exact List.mem_singleton.mp hu
    · intro x hx
      rw [hasked] at hx
      rw [List.mem_singleton.mp hx]
      unfold OriginAnswers
      simp only [if_neg hquiet]
      rfl
  · show _ ≠ some v.response.content
    rw [← (hv.describes h.idle hcontact hr).content]
    exact hchanged

end Visits

/-- **In every run whose pages keep their content until the expiry dates they come with, the content
delivered after the origin was contacted is the current one.** -/
theorem coherent_on_contact (hash : Bytes → UInt64) (origin : Bytes → History Int Bytes)
    (s : Sequential)
    (h : (sequential hash).ReachableUnder
      (fun s v => Admissible hash origin s v ∧ LastsUntilExpiry hash origin s v) s)
    (v : Visit) (hv : Admissible hash origin s v) (hcontact : Contacts hash s v) :
    ∃ s' d, (sequential hash).step s v = some s' ∧
      s'.proxy.delivered = s.proxy.delivered ++ [d] ∧ d.uri = v.uri ∧
      ((origin v.uri).current v.answeredAt).map Prod.snd = some d.response.content := by
  have hcoherent := coherent_of_reachable h
  have hclock : s.clock ≤ v.answeredAt := Int.le_trans hv.started hv.answered
  by_cases hr : v.response.statusCode = .known .notModified
  · obtain ⟨e, hlook, hquiet⟩ := hv.notModified hcoherent.idle hcontact hr
    have hexpired := (visit_asked hcoherent.idle hcontact).1 e hlook
    refine ⟨_, _, visit_notModified hcoherent.idle hcontact hr hlook, rfl, rfl, ?_⟩
    exact hcoherent.good hv hlook v.answeredAt hclock (Int.le_trans hexpired hv.answered) hquiet
  · refine ⟨_, _, visit_new hcoherent.idle hcontact hr, rfl, rfl, ?_⟩
    exact (hv.describes hcoherent.idle hcontact hr).content

/-- Every page was `old` from 0 on, and `new` from a later time. -/
def renewed (time : Int) (later : 0 ≤ time) : Bytes → History Int Bytes := fun _ =>
  ⟨[(0, ascii "old"), (time, ascii "new")], by simp [later]⟩

/-- It is fetched at 0, with the expiry date 10. -/
def fetchPage : Visit := ⟨ascii "http://a/", 0, 0, page (ascii "old"), .same⟩

/-- It is asked for again, and the origin has nothing newer than 10. -/
def askAgain (time : Int) : Visit := ⟨ascii "http://a/", time, time, notModified, .same⟩

/-- A page that is renewed at 15 is revalidated at 12. -/
theorem coherent_on_contact_page :
    ∃ s s' d, (sequential fun uri => UInt64.ofNat uri.length).run ⟨⟨∅, [], [], [], []⟩, 0⟩ [fetchPage] =
        some s ∧
      (sequential fun uri => UInt64.ofNat uri.length).step s (askAgain 12) = some s' ∧
      s'.proxy.delivered = s.proxy.delivered ++ [d] ∧ d.response.content = ascii "old" := by
  have hinit : (sequential fun uri => UInt64.ofNat uri.length).init ⟨⟨∅, [], [], [], []⟩, 0⟩ := rfl
  have hrun : (sequential fun uri => UInt64.ofNat uri.length).run ⟨⟨∅, [], [], [], []⟩, 0⟩ [fetchPage] =
      some _ := rfl
  obtain ⟨s', d, hs', hdelivered, -, hcontent⟩ :=
    coherent_on_contact (fun uri => UInt64.ofNat uri.length) (renewed 15 (by decide)) _
      (.run (.init hinit) (by decide) hrun) (askAgain 12) (by decide) (by decide)
  exact ⟨_, s', d, hrun, hs', hdelivered, (Option.some.inj hcontent).symm⟩

/-- A page that is renewed at 5 is revalidated at 20, with a 304. -/
theorem renewed_before_expiry :
    ∃ s, (sequential fun uri => UInt64.ofNat uri.length).run ⟨⟨∅, [], [], [], []⟩, 0⟩
        [fetchPage, askAgain 20] = some s ∧
      (sequential fun uri => UInt64.ofNat uri.length).Along
        (Admissible (fun uri => UInt64.ofNat uri.length) (renewed 5 (by decide)))
        ⟨⟨∅, [], [], [], []⟩, 0⟩ [fetchPage, askAgain 20] ∧
      s.proxy.received.map (fun p => p.2.statusCode) = [.known .ok, .known .notModified] ∧
      s.proxy.delivered.map (fun d => d.response.content) = [ascii "old", ascii "old"] ∧
      (renewed 5 (by decide) (ascii "http://a/")).current 20 = some (5, ascii "new") :=
  ⟨_, rfl, by decide, rfl, rfl, rfl⟩

end ComputerNetworking.Proxy
