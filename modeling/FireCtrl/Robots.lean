import FireCtrl.Lib.Run
import FireCtrl.Scraper

/-!
# The robots.txt cache (`HttpScraper::is_allowed_by_robots` in `scraper.rs`)

The texts are cached under the host of the URL; they are fetched over its scheme, without its port.

* `HttpScraper.isAllowedByRobots`: one check. `robotsLts`: checks one after the other, of any URLs, while the
  texts that are served do not change.
* `RobotsCheck.ByOrigin`: the decision is that of the robots.txt of the scheme, the host and the port of the URL.
* `Sourced`: what a text in the cache was fetched for. **`byOrigin_of_oneOrigin`**: the decisions are right
  while no URL names a port and the texts in the cache are for the scheme of the URL.
-/

namespace FireCtrl

/-- What the check uses of other crates. `port` is the port that a URL names, unless it is the default port of
its scheme. -/
structure RobotsCrates where
  Url : Type
  scheme : Url → String
  hostStr : Url → Option String
  port : Url → Option UInt16
  asStr : Url → String
  oneAgentAllowedByRobots : String → String → String → Bool

/-- How a request for a robots.txt ends: it fails, or it is a success whose body may be unreadable. -/
inductive RobotsResponse
  | failed
  | body (text : String)
  | unreadable
deriving DecidableEq

/-- Hosts with their texts. -/
abbrev RobotsCache := List (String × String)

namespace HttpScraper

variable (crates : RobotsCrates) (userAgent : String)

def host (url : crates.Url) : String := (crates.hostStr url).getD ""

def robotsUrl (url : crates.Url) : String := crates.scheme url ++ "://" ++ host crates url ++ "/robots.txt"

/-- Cache a text. Of 1000 hosts, some `evicted` one makes room. -/
def cacheText (cache : RobotsCache) (evicted host text : String) : RobotsCache :=
  let cache := if cache.length ≥ 1000 then cache.filter fun e => e.1 ≠ evicted else cache
  (host, text) :: cache.filter fun e => e.1 ≠ host

/-- `is_allowed_by_robots`; `response` is what a request is answered, if one is made. -/
def isAllowedByRobots (respectRobotsTxt : Bool) (cache : RobotsCache) (response : RobotsResponse)
    (evicted : String) (url : crates.Url) : Bool × RobotsCache :=
  if !respectRobotsTxt then (true, cache)
  else
    let allowed (text : String) : Bool := crates.oneAgentAllowedByRobots text userAgent (crates.asStr url)
    match cache.lookup (host crates url), response with
    | some text, _ => (allowed text, cache)
    | none, .failed => (true, cache)
    | none, .body text => (allowed text, cacheText cache evicted (host crates url) text)
    -- `unwrap_or_default`
    | none, .unreadable => (allowed "", cacheText cache evicted (host crates url) "")

end HttpScraper

open HttpScraper (host robotsUrl cacheText)

/-- One check, with what it decides and whether it finds a text in the cache. -/
structure RobotsCheck (crates : RobotsCrates) where
  url : crates.Url
  response : RobotsResponse
  evicted : String
  cached : Bool
  decision : Bool

section System

variable (crates : RobotsCrates) (userAgent : String) (served : String → Option String)

/-- Checks of robots.txt. A request may fail, but what is read is what is `served` at its URL. -/
def robotsLts : Lts RobotsCache (RobotsCheck crates) where
  init cache := cache = []
  step cache e cache' :=
    e.cached = (cache.lookup (host crates e.url)).isSome ∧
      HttpScraper.isAllowedByRobots crates userAgent true cache e.response e.evicted e.url = (e.decision, cache') ∧
      (∀ text, e.response = .body text → served (robotsUrl crates e.url) = some text) ∧
      (cache.length ≥ 1000 → e.evicted ∈ cache.map Prod.fst)

/-- Where the robots.txt of the URL's own scheme, host and port is. -/
def ownRobotsUrl (url : crates.Url) : String :=
  crates.scheme url ++ "://" ++ host crates url ++
    ((crates.port url).map fun p => ":" ++ toString p.toNat).getD "" ++ "/robots.txt"

variable {crates}

/-- The check makes a request, and gets no text. -/
def RobotsCheck.Unfetched (e : RobotsCheck crates) : Prop := e.cached = false ∧ ∀ text, e.response ≠ .body text

/-- The decision is that of the URL's own robots.txt; the URL is allowed if that cannot be fetched. -/
def RobotsCheck.ByOrigin (e : RobotsCheck crates) : Prop :=
  match served (ownRobotsUrl crates e.url) with
  | some text =>
    e.decision = crates.oneAgentAllowedByRobots text userAgent (crates.asStr e.url) ∨
      e.Unfetched ∧ e.decision = true
  | none => e.decision = true

/-- The check puts a text into the cache. -/
def RobotsCheck.Stores (e : RobotsCheck crates) (h : String) : Prop :=
  host crates e.url = h ∧ e.cached = false ∧ e.response ≠ .failed

instance (e : RobotsCheck crates) (h : String) : Decidable (e.Stores h) := inferInstanceAs (Decidable (_ ∧ _ ∧ _))

/-- The URL for which the text in the cache was fetched. -/
def cachedFor (es : List (RobotsCheck crates)) (h : String) : Option crates.Url :=
  (es.reverse.find? fun e => e.Stores h).map (·.url)

/-- No URL names a port, no text is unreadable, and a text from the cache was fetched over the scheme of
the URL. -/
structure OneOrigin (es : List (RobotsCheck crates)) : Prop where
  port : ∀ e ∈ es, crates.port e.url = none
  readable : ∀ e ∈ es, e.cached = false → e.response ≠ .unreadable
  scheme : ∀ es₁ e u, es₁ ++ [e] <+: es → e.cached = true → cachedFor es₁ (host crates e.url) = some u →
    crates.scheme u = crates.scheme e.url

/-- Every text in the cache is served for a URL with its host. -/
def Sourced (es : List (RobotsCheck crates)) (cache : RobotsCache) : Prop :=
  ∀ h text, (h, text) ∈ cache → ∃ u, cachedFor es h = some u ∧ host crates u = h ∧
    served (robotsUrl crates u) = some text

end System

section Proofs

variable {crates : RobotsCrates} {userAgent : String} {served : String → Option String}
  {es : List (RobotsCheck crates)} {e : RobotsCheck crates} {cache cache' : RobotsCache} {h evicted text : String}
  {u : crates.Url}

theorem mem_cacheText {x : String × String} (hx : x ∈ cacheText cache evicted h text) :
    x = (h, text) ∨ x ∈ cache ∧ x.1 ≠ h := by
  unfold cacheText at hx
  rcases List.mem_cons.mp hx with rfl | hx
  · exact .inl rfl
  · rw [List.mem_filter] at hx
    refine .inr ⟨?_, by simpa using hx.2⟩
    have hmem := hx.1
    split_ifs at hmem
    · exact (List.mem_filter.mp hmem).1
    · exact hmem

theorem cachedFor_append :
    cachedFor (es ++ [e]) h = if e.Stores h then some e.url else cachedFor es h := by
  unfold cachedFor
  rw [List.reverse_append, List.reverse_singleton, List.singleton_append, List.find?_cons]
  by_cases hs : e.Stores h
  · simp [hs]
  · simp [hs]

/-- Without a port, the URL that is fetched is the right one. -/
theorem ownRobotsUrl_eq (hport : crates.port u = none) : ownRobotsUrl crates u = robotsUrl crates u := by
  simp [ownRobotsUrl, robotsUrl, hport]

theorem robotsUrl_congr {v : crates.Url} (hscheme : crates.scheme u = crates.scheme v)
    (hhost : host crates u = host crates v) : robotsUrl crates u = robotsUrl crates v := by
  rw [robotsUrl, robotsUrl, hscheme, hhost]

theorem mem_of_cachedFor (hu : cachedFor es h = some u) : ∃ e ∈ es, e.url = u ∧ host crates u = h := by
  obtain ⟨e, he, rfl⟩ := Option.map_eq_some_iff.mp hu
  have hstores := List.find?_some he
  exact ⟨e, List.mem_reverse.mp (List.mem_of_find?_eq_some he), rfl, (of_decide_eq_true hstores).1⟩

/-- In particular, each host may be checked over one scheme. -/
theorem OneOrigin.of_scheme (hport : ∀ e ∈ es, crates.port e.url = none)
    (hread : ∀ e ∈ es, e.cached = false → e.response ≠ .unreadable)
    (hscheme : ∀ e ∈ es, ∀ e' ∈ es, host crates e.url = host crates e'.url →
      crates.scheme e.url = crates.scheme e'.url) :
    OneOrigin es := by
  refine ⟨hport, hread, fun es₁ e u hpre _ hu => ?_⟩
  obtain ⟨e', he', rfl, hhost⟩ := mem_of_cachedFor hu
  exact hscheme e' (hpre.subset (List.mem_append_left _ he')) e
    (hpre.subset (List.mem_append_right _ List.mem_cons_self)) hhost

theorem OneOrigin.of_append (h : OneOrigin (es ++ [e])) : OneOrigin es where
  port e' he := h.port e' (List.mem_append_left _ he)
  readable e' he := h.readable e' (List.mem_append_left _ he)
  scheme es₁ e' u hpre := h.scheme es₁ e' u (hpre.trans (List.prefix_append es [e]))

theorem isAllowedByRobots_cached {response : RobotsResponse} (hlookup : cache.lookup (host crates u) = some text) :
    HttpScraper.isAllowedByRobots crates userAgent true cache response evicted u =
      (crates.oneAgentAllowedByRobots text userAgent (crates.asStr u), cache) := by
  unfold HttpScraper.isAllowedByRobots
  rw [hlookup]
  rfl

theorem isAllowedByRobots_failed (hlookup : cache.lookup (host crates u) = none) :
    HttpScraper.isAllowedByRobots crates userAgent true cache .failed evicted u = (true, cache) := by
  unfold HttpScraper.isAllowedByRobots
  rw [hlookup]
  rfl

theorem isAllowedByRobots_body (hlookup : cache.lookup (host crates u) = none) :
    HttpScraper.isAllowedByRobots crates userAgent true cache (.body text) evicted u =
      (crates.oneAgentAllowedByRobots text userAgent (crates.asStr u),
        cacheText cache evicted (host crates u) text) := by
  unfold HttpScraper.isAllowedByRobots
  rw [hlookup]
  rfl

/-- A text that is served for the URL decides rightly. -/
theorem byOrigin_of_served (hport : crates.port e.url = none) (htext : served (robotsUrl crates e.url) = some text)
    (hdecision : crates.oneAgentAllowedByRobots text userAgent (crates.asStr e.url) = e.decision) :
    e.ByOrigin userAgent served := by
  unfold RobotsCheck.ByOrigin
  rw [ownRobotsUrl_eq hport, htext]
  exact .inl hdecision.symm

theorem RobotsCheck.Unfetched.byOrigin (hunfetched : e.Unfetched) (hdecision : e.decision = true) :
    e.ByOrigin userAgent served := by
  unfold RobotsCheck.ByOrigin
  split
  · exact .inr ⟨hunfetched, hdecision⟩
  · exact hdecision

theorem Sourced.append (hs : Sourced served es cache) (he : ∀ h, ¬ e.Stores h) :
    Sourced served (es ++ [e]) cache := by
  intro h text hmem
  rw [cachedFor_append, if_neg (he h)]
  exact hs h text hmem

/-- The new text is for the URL of the check, the others stay. -/
theorem Sourced.append_cacheText (hs : Sourced served es cache) (hstores : e.Stores (host crates e.url))
    (htext : served (robotsUrl crates e.url) = some text) :
    Sourced served (es ++ [e]) (cacheText cache evicted (host crates e.url) text) := by
  intro h text' hmem
  rw [cachedFor_append]
  rcases mem_cacheText hmem with heq | ⟨hmem, hne⟩
  · obtain ⟨rfl, rfl⟩ := Prod.mk.inj heq
    rw [if_pos hstores]
    exact ⟨e.url, rfl, rfl, htext⟩
  · rw [if_neg fun hstores' => hne hstores'.1.symm]
    exact hs h text' hmem

theorem mem_of_lookup (hlookup : cache.lookup h = some text) : (h, text) ∈ cache := by
  obtain ⟨l₁, l₂, hcache, -⟩ := List.lookup_eq_some_iff.mp hlookup
  rw [hcache]
  exact List.mem_append_right _ List.mem_cons_self

/-- **One check** is right, and what it puts into the cache is from its own URL. -/
theorem byOrigin_step (hone : OneOrigin (es ++ [e])) (hs : Sourced served es cache)
    (hstep : (robotsLts crates userAgent served).step cache e cache') :
    e.ByOrigin userAgent served ∧ Sourced served (es ++ [e]) cache' := by
  obtain ⟨hcached, hcheck, hserved, -⟩ := hstep
  have hmem : e ∈ es ++ [e] := List.mem_append_right _ List.mem_cons_self
  have hport := hone.port e hmem
  rcases hlookup : cache.lookup (host crates e.url) with _ | text
  · rw [hlookup] at hcached
    cases hresponse : e.response with
    | failed =>
      rw [hresponse, isAllowedByRobots_failed hlookup] at hcheck
      obtain ⟨hdecision, rfl⟩ := Prod.mk.inj hcheck
      have hunfetched : e.Unfetched := ⟨hcached, fun text => by rw [hresponse]; exact fun h => by cases h⟩
      exact ⟨hunfetched.byOrigin hdecision.symm, hs.append fun h hstores => hstores.2.2 hresponse⟩
    | body text =>
      rw [hresponse, isAllowedByRobots_body hlookup] at hcheck
      obtain ⟨hdecision, rfl⟩ := Prod.mk.inj hcheck
      have htext := hserved text hresponse
      have hstores : e.Stores (host crates e.url) := ⟨rfl, hcached, by rw [hresponse]; exact fun h => by cases h⟩
      exact ⟨byOrigin_of_served hport htext hdecision, hs.append_cacheText hstores htext⟩
    | unreadable => exact absurd hresponse (hone.readable e hmem hcached)
  · rw [hlookup] at hcached
    rw [isAllowedByRobots_cached hlookup] at hcheck
    obtain ⟨hdecision, rfl⟩ := Prod.mk.inj hcheck
    obtain ⟨u, hu, hhost, htext⟩ := hs _ _ (mem_of_lookup hlookup)
    rw [robotsUrl_congr (hone.scheme es e u (List.prefix_refl _) hcached hu) hhost] at htext
    exact ⟨byOrigin_of_served hport htext hdecision,
      hs.append fun h hstores => by cases hcached.symm.trans hstores.2.1⟩

end Proofs

/-- **The decisions are those of the URLs' own robots.txt** as long as no URL names a port, every text can be
read, and what is in the cache was fetched over the scheme of the URL. -/
theorem byOrigin_of_oneOrigin {crates : RobotsCrates} {userAgent : String} {served : String → Option String}
    {es : List (RobotsCheck crates)} {cache : RobotsCache}
    (h : (robotsLts crates userAgent served).Run es cache) (hone : OneOrigin es) :
    ∀ e ∈ es, e.ByOrigin userAgent served := by
  have hinv : OneOrigin es → (∀ e ∈ es, e.ByOrigin userAgent served) ∧ Sourced served es cache := by
    refine Lts.Run.invariant (I := fun es cache => OneOrigin es →
      (∀ e ∈ es, e.ByOrigin userAgent served) ∧ Sourced served es cache) ?_ ?_ h
    · rintro cache rfl -
      exact ⟨fun _ he => absurd he List.not_mem_nil, fun _ _ hmem => absurd hmem List.not_mem_nil⟩
    · intro es cache e cache' _ ih hstep hone
      obtain ⟨hall, hs⟩ := ih hone.of_append
      obtain ⟨he, hs'⟩ := byOrigin_step hone hs hstep
      refine ⟨fun e' he' => ?_, hs'⟩
      rcases List.mem_append.mp he' with he' | he'
      · exact hall e' he'
      · rw [List.mem_singleton.mp he']
        exact he
  exact (hinv hone).1

/-- URLs on one host, by their scheme, port and path; a text other than `Disallow: /` allows them all. -/
def RobotsCrates.sample : RobotsCrates where
  Url := String × Option UInt16 × String
  scheme := Prod.fst
  hostStr _ := some "example.com"
  port url := url.2.1
  asStr url := url.2.2
  oneAgentAllowedByRobots text _ _ := text ≠ "Disallow: /"

/-- The server at port 8080 allows nothing. -/
def robotsSample : String → Option String
  | "http://example.com/robots.txt" => some ""
  | "http://example.com:8080/robots.txt" => some "Disallow: /"
  | _ => none

/-- Two pages of one server, the second one from the cache. -/
theorem byOrigin_of_oneOrigin_cached :
    let es : List (RobotsCheck .sample) := [⟨("http", none, "http://example.com/a"), .body "", "", false, true⟩,
      ⟨("http", none, "http://example.com/b"), .failed, "", true, true⟩]
    (robotsLts .sample "bot" robotsSample).Run es [("example.com", "")] ∧
      ∀ e ∈ es, e.ByOrigin "bot" robotsSample := by
  intro es
  have hrun : (robotsLts .sample "bot" robotsSample).Run es [("example.com", "")] := by
    refine ⟨[], rfl, (Lts.Steps.single (t := [("example.com", "")]) ?_).snoc ?_⟩
    · exact ⟨rfl, by decide, fun text h => by cases h; rfl, fun h => absurd h (by decide)⟩
    · exact ⟨rfl, by decide, nofun, fun h => absurd h (by decide)⟩
  have hscheme : ∀ e ∈ es, e.url.1 = "http" := List.forall_mem_cons.mpr ⟨rfl, List.forall_mem_singleton.mpr rfl⟩
  refine ⟨hrun, byOrigin_of_oneOrigin hrun (.of_scheme ?_ ?_ fun e he e' he' _ => ?_)⟩
  · exact List.forall_mem_cons.mpr ⟨rfl, List.forall_mem_singleton.mpr rfl⟩
  · exact List.forall_mem_cons.mpr ⟨nofun, List.forall_mem_singleton.mpr nofun⟩
  · exact (hscheme e he).trans (hscheme e' he').symm

/-- A page of the server at port 8080, for which the text of the one at port 80 is fetched. -/
theorem not_byOrigin : ¬ ∀ (crates : RobotsCrates) (userAgent : String) (served : String → Option String)
    (es : List (RobotsCheck crates)) (cache : RobotsCache), (robotsLts crates userAgent served).Run es cache →
      ∀ e ∈ es, crates.scheme e.url = "http" ∨ crates.scheme e.url = "https" → e.ByOrigin userAgent served := by
  intro h
  let e : RobotsCheck .sample := ⟨("http", some 8080, "http://example.com:8080/private"), .body "", "", false, true⟩
  have hrun : (robotsLts .sample "bot" robotsSample).Run [e] [("example.com", "")] :=
    ⟨[], rfl, .single ⟨rfl, by decide, fun text h => by cases h; rfl, fun h => absurd h (by decide)⟩⟩
  have horigin := h .sample "bot" robotsSample [e] _ hrun e List.mem_cons_self (.inl rfl)
  have hserved : robotsSample (ownRobotsUrl .sample e.url) = some "Disallow: /" := by decide
  unfold RobotsCheck.ByOrigin at horigin
  rw [hserved] at horigin
  rcases horigin with hdecision | ⟨⟨-, hunfetched⟩, -⟩
  · exact absurd hdecision (by decide)
  · exact hunfetched "" rfl

end FireCtrl
