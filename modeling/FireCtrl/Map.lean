import FireCtrl.Lib.Distinct
import FireCtrl.SitemapWalk

/-!
# Mapping a site (`Scraper::map_urls`)

* `mapUrls`: the URLs of the sitemap and of the links of the root page; `mapUrls_eq`: the first ones, of those
  that match the search, among `mapCandidates`.
* **`mapOnSite_iff`**: when all of them are on the site.
* **`searchBeforeLimit_iff`**: when they are the first ones, of those that match, of all URLs of the site.
-/

namespace FireCtrl

section Map

variable (urls : UrlCrate) (web : Web) (toLowercase : String → String)

/-- The host is the one of the root, or a subdomain of it. -/
def hostOk (baseHost : String) (includeSubdomains : Bool) (host : String) : Bool :=
  if includeSubdomains then host = baseHost || ("." ++ baseHost).toList.isSuffixOf host.toList
  else host = baseHost

/-- Add a URL that has not been found yet. -/
def addFound (s : Finset String × List String) (u : String) : Finset String × List String :=
  if u ∈ s.1 then s else (insert u s.1, s.2 ++ [u])

/-- Add the links of the root page; the loop is left when a new one brings the list to the limit. -/
def addLinks (baseHost : String) (includeSubdomains : Bool) (limit : ℕ) :
    List String → Finset String × List String → List String
  | [], s => s.2
  | link :: links, s =>
    match urls.parse link with
    | .ok parsed =>
      if hostOk baseHost includeSubdomains ((urls.hostStr parsed).getD "") ∧ link ∉ s.1 then
        let s := (insert link s.1, s.2 ++ [link])
        if limit ≤ s.2.length then s.2 else addLinks baseHost includeSubdomains limit links s
      else addLinks baseHost includeSubdomains limit links s
    | .error _ => addLinks baseHost includeSubdomains limit links s

/-- `map_urls`. -/
def mapUrls (rootUrl : String) (search : Option String) (ignoreSitemap includeSubdomains : Bool) (limit : ℕ) :
    Except AppError (List String) :=
  match web.urls.parse rootUrl with
  | .error e => .error (.invalidUrl e)
  | .ok base =>
    let baseHost := (web.urls.hostStr base).getD ""
    let s := if ignoreSitemap then (∅, []) else (web.fetchSitemapUrls base limit).foldl addFound (∅, [])
    let urls :=
      match web.fetch rootUrl with
      | .ok (_, _, body) => addLinks web.urls baseHost includeSubdomains limit (extractLinks web body base) s
      | .error _ => s.2
    let urls :=
      match search with
      | some q => urls.filter fun u => containsStr (toLowercase u) (toLowercase q)
      | none => urls
    .ok (urls.take limit)

/-! ## What it returns -/

/-- The URL contains the search term, if there is one. -/
def matchesSearch (search : Option String) (u : String) : Bool :=
  search.all fun q => containsStr (toLowercase u) (toLowercase q)

/-- The link has an admissible host. -/
def linkOk (baseHost : String) (includeSubdomains : Bool) (link : String) : Bool :=
  match urls.parse link with
  | .ok parsed => hostOk baseHost includeSubdomains ((urls.hostStr parsed).getD "")
  | .error _ => false

/-- The links of the root page that have an admissible host. -/
def rootLinks (rootUrl : String) (base : web.urls.Url) (includeSubdomains : Bool) : List String :=
  match web.fetch rootUrl with
  | .ok (_, _, body) =>
    (extractLinks web body base).filter (linkOk web.urls ((web.urls.hostStr base).getD "") includeSubdomains)
  | .error _ => []

/-- The URLs that `map_urls` comes to: the first pages of the sitemap, and links up to the limit, but at least
one that is new. -/
def mapCandidates (pages links : List String) (limit : ℕ) : List String :=
  (pages.take limit ++ links).eraseDups.take (max limit ((pages.take limit).eraseDups.length + 1))

variable {urls web toLowercase} {baseHost rootUrl : String} {base : web.urls.Url} {includeSubdomains : Bool}
  {limit : ℕ} {s : Finset String × List String}

/-- The set of the found URLs is the list, which has none twice. -/
structure Found (s : Finset String × List String) : Prop where
  set : ∀ u, u ∈ s.1 ↔ u ∈ s.2
  nodup : s.2.Nodup

theorem Found.add {u : String} (h : Found s) (hu : u ∉ s.1) : Found (insert u s.1, s.2 ++ [u]) where
  set v := by rw [Finset.mem_insert, List.mem_append, List.mem_singleton, h.set, or_comm]
  nodup := List.nodup_append'.mpr ⟨h.nodup, List.nodup_singleton _, by
    rw [List.disjoint_singleton, ← h.set]
    exact hu⟩

theorem foldl_addFound (h : Found s) (l : List String) :
    Found (l.foldl addFound s) ∧ (l.foldl addFound s).2 = (s.2 ++ l).eraseDups := by
  induction l generalizing s with
  | nil => exact ⟨h, by rw [List.append_nil, Distinct.eraseDups_of_nodup h.nodup]; rfl⟩
  | cons u l ih =>
    rw [List.foldl_cons, addFound]
    split_ifs with hu
    · rw [Distinct.eraseDups_skip ((h.set u).mp hu)]
      exact ih h
    · have hrest := ih (h.add hu)
      rwa [List.append_assoc, List.singleton_append] at hrest

theorem addLinks_eq (h : Found s) (links : List String) :
    addLinks urls baseHost includeSubdomains limit links s =
      (s.2 ++ links.filter (linkOk urls baseHost includeSubdomains)).eraseDups.take
        (max limit (s.2.length + 1)) := by
  induction links generalizing s with
  | nil =>
    rw [List.filter_nil, List.append_nil, Distinct.eraseDups_of_nodup h.nodup, List.take_of_length_le (by omega)]
    rfl
  | cons link links ih =>
    rw [addLinks]
    rcases hparse : urls.parse link with e | parsed
    · have hbad : linkOk urls baseHost includeSubdomains link = false := by rw [linkOk, hparse]
      rw [List.filter_cons_of_neg (by rw [hbad]; exact Bool.false_ne_true)]
      exact ih h
    · have hlink : linkOk urls baseHost includeSubdomains link =
          hostOk baseHost includeSubdomains ((urls.hostStr parsed).getD "") := by rw [linkOk, hparse]
      have hcons := List.append_cons s.2 link (links.filter (linkOk urls baseHost includeSubdomains))
      dsimp only
      rw [← hlink]
      split_ifs with hnew hfull
      · -- the limit is reached
        rw [List.length_append, List.length_singleton] at hfull
        have hpre := Distinct.eraseDups_isPrefix (s.2 ++ [link])
          (links.filter (linkOk urls baseHost includeSubdomains))
        rw [Distinct.eraseDups_of_nodup (h.add hnew.2).nodup, List.prefix_iff_eq_take, List.length_append,
          List.length_singleton] at hpre
        rw [List.filter_cons_of_pos hnew.1, hcons, max_eq_right hfull]
        exact hpre
      · rw [List.length_append, List.length_singleton] at hfull
        rw [List.filter_cons_of_pos hnew.1, hcons, ih (h.add hnew.2), List.length_append,
          List.length_singleton, max_eq_left (by omega), max_eq_left (by omega)]
      · by_cases hok : linkOk urls baseHost includeSubdomains link = true
        · have hold : link ∈ s.1 := by
            by_contra hn
            exact hnew ⟨hok, hn⟩
          rw [List.filter_cons_of_pos hok, Distinct.eraseDups_skip ((h.set link).mp hold)]
          exact ih h
        · rw [List.filter_cons_of_neg hok]
          exact ih h

end Map

section Result

variable {web : Web} {toLowercase : String → String} {rootUrl : String} {base : web.urls.Url}
  {search : Option String} {ignoreSitemap includeSubdomains : Bool} {limit : ℕ} {pages : List String}

/-- **What `map_urls` returns**: the first ones of the candidates that match. -/
theorem mapUrls_eq (hroot : web.urls.parse rootUrl = .ok base)
    (hpages : (if ignoreSitemap then [] else web.fetchSitemapUrls base limit) = pages.take limit) :
    mapUrls web toLowercase rootUrl search ignoreSitemap includeSubdomains limit =
      .ok (((mapCandidates pages (rootLinks web rootUrl base includeSubdomains) limit).filter
        (matchesSearch toLowercase search)).take limit) := by
  have hnone : Found ((∅ : Finset String), []) := ⟨fun u => by simp, List.nodup_nil⟩
  obtain ⟨s, hs, hfound, hlist⟩ : ∃ s, s = (if ignoreSitemap then ((∅ : Finset String), []) else
      (web.fetchSitemapUrls base limit).foldl addFound (∅, [])) ∧ Found s ∧ s.2 = (pages.take limit).eraseDups := by
    rw [← hpages]
    cases ignoreSitemap with
    | true => exact ⟨_, rfl, hnone, rfl⟩
    | false => exact ⟨_, rfl, foldl_addFound hnone _⟩
  have hfilter (urls : List String) : (match search with
      | some q => urls.filter fun u => containsStr (toLowercase u) (toLowercase q)
      | none => urls) = urls.filter (matchesSearch toLowercase search) := by
    cases search with
    | none => exact (List.filter_true urls).symm
    | some q => rfl
  unfold mapUrls rootLinks mapCandidates
  rw [hroot]
  dsimp only
  rw [← hs, hfilter]
  rcases web.fetch rootUrl with e | ⟨status, ct, body⟩
  · dsimp only
    rw [List.append_nil, ← hlist, List.take_of_length_le (le_max_of_le_right (Nat.le_succ _))]
  · dsimp only
    rw [← Distinct.eraseDups_eraseDups_append, ← hlist, ← addLinks_eq hfound]

theorem mem_of_mem_candidates {links : List String} {u : String} (h : u ∈ mapCandidates pages links limit) :
    u ∈ pages.take limit ∨ u ∈ links :=
  List.mem_append.mp (List.mem_eraseDups.mp (List.mem_of_mem_take h))

/-- The pages of the sitemap come first, and are not cut off in the end. -/
theorem mem_take_filter_candidates {links : List String} {u : String} {p : String → Bool}
    (h : u ∈ pages.take limit) (hp : p u = true) :
    u ∈ ((mapCandidates pages links limit).filter p).take limit := by
  have hpre : (pages.take limit).eraseDups <+: mapCandidates pages links limit :=
    List.prefix_take_iff.mpr ⟨Distinct.eraseDups_isPrefix _ _, le_max_of_le_right (Nat.le_succ _)⟩
  have hlen : ((pages.take limit).eraseDups.filter p).length ≤ limit := by
    refine (List.length_filter_le _ _).trans ((Distinct.length_eraseDups_le _).trans ?_)
    exact List.length_take_le _ _
  have htake := List.prefix_take_iff.mpr ⟨hpre.filter p, hlen⟩
  exact htake.subset (List.mem_filter.mpr ⟨List.mem_eraseDups.mpr h, hp⟩)

end Result

/-! ## The site -/

section Site

variable (web : Web) (maps : Sitemaps web.urls.Url) (toLowercase : String → String) (rootUrl : String)
  (search : Option String) (ignoreSitemap includeSubdomains : Bool) (limit : ℕ)

/-- The URL has the host of the root or, where these are included, one of its subdomains. -/
def OnSite (base : web.urls.Url) (u : String) : Prop :=
  ∃ parsed, web.urls.parse u = .ok parsed ∧
    hostOk ((web.urls.hostStr base).getD "") includeSubdomains ((web.urls.hostStr parsed).getD "") = true

/-- Every URL of the map is on the site. -/
def MapOnSite : Prop :=
  ∀ base urls, web.urls.parse rootUrl = .ok base →
    mapUrls (web.withSitemaps maps) toLowercase rootUrl search ignoreSitemap includeSubdomains limit = .ok urls →
    ∀ u ∈ urls, OnSite web includeSubdomains base u

/-- Every page that is read from the sitemap and matches the search is on the site. -/
def SitemapOnSite : Prop :=
  ∀ base, web.urls.parse rootUrl = .ok base → ignoreSitemap = false →
    ∀ u ∈ fetchSitemapUrls web maps base limit, matchesSearch toLowercase search u = true →
      OnSite web includeSubdomains base u

variable {web rootUrl includeSubdomains} {base : web.urls.Url}

theorem onSite_of_mem_rootLinks {u : String} (h : u ∈ rootLinks web rootUrl base includeSubdomains) :
    OnSite web includeSubdomains base u := by
  unfold rootLinks at h
  rcases hfetch : web.fetch rootUrl with e | ⟨status, ct, body⟩
  · rw [hfetch] at h
    cases h
  · rw [hfetch] at h
    have hok := (List.mem_filter.mp h).2
    unfold linkOk at hok
    rcases hparse : web.urls.parse u with e | parsed
    · rw [hparse] at hok
      cases hok
    · rw [hparse] at hok
      exact ⟨parsed, hparse, hok⟩

end Site

/-- The pages that `map_urls` reads if there is no limit. -/
def mapPages (web : Web) (maps : Sitemaps web.urls.Url) (base : web.urls.Url) (ignoreSitemap : Bool) : List String :=
  if ignoreSitemap then []
  else (Dfs.visit (maps.links web.urlString) (defaultSitemapMaxDepth + 1) [] (sitemapUrl web base)).flatMap
    (maps.pages web.urlString)

theorem take_mapPages (web : Web) (maps : Sitemaps web.urls.Url) (base : web.urls.Url) (ignoreSitemap : Bool)
    (limit : ℕ) : (if ignoreSitemap then [] else (web.withSitemaps maps).fetchSitemapUrls base limit) =
      (mapPages web maps base ignoreSitemap).take limit := by
  cases ignoreSitemap with
  | true => exact List.take_nil.symm
  | false => exact fetchSitemapUrls_eq web maps base limit

/-- **When the map stays on the site**: exactly if the matching pages that are read from its sitemap are on it. -/
theorem mapOnSite_iff (web : Web) (maps : Sitemaps web.urls.Url) (toLowercase : String → String) (rootUrl : String)
    (search : Option String) (ignoreSitemap includeSubdomains : Bool) (limit : ℕ) :
    MapOnSite web maps toLowercase rootUrl search ignoreSitemap includeSubdomains limit ↔
      SitemapOnSite web maps toLowercase rootUrl search ignoreSitemap includeSubdomains limit := by
  constructor
  · intro h base hroot hsitemap u hu hmatch
    have hrun := @mapUrls_eq (web.withSitemaps maps) toLowercase rootUrl base search ignoreSitemap includeSubdomains
      limit _ hroot (take_mapPages web maps base ignoreSitemap limit)
    refine h base _ hroot hrun u (mem_take_filter_candidates ?_ hmatch)
    rw [← take_mapPages, if_neg (by simp [hsitemap])]
    exact hu
  · intro h base urls hroot hurls u hu
    have hrun := @mapUrls_eq (web.withSitemaps maps) toLowercase rootUrl base search ignoreSitemap includeSubdomains
      limit _ hroot (take_mapPages web maps base ignoreSitemap limit)
    rw [hrun, Except.ok.injEq] at hurls
    subst hurls
    obtain ⟨hcand, hmatch⟩ := List.mem_filter.mp (List.mem_of_mem_take hu)
    rcases mem_of_mem_candidates hcand with hpage | hlink
    · rw [← take_mapPages] at hpage
      cases ignoreSitemap with
      | true => cases hpage
      | false => exact h base hroot rfl u hpage hmatch
    · exact @onSite_of_mem_rootLinks (web.withSitemaps maps) rootUrl includeSubdomains base u hlink

/-- A site whose root page has no links. -/
def Web.sampleMap : Web where
  urls :=
    { Url := String, parse := .ok
      hostStr := fun u => if u = "https://other.org/" then some "other.org" else some "example.com" }
  scheme _ := "https"
  join _ href := .ok href
  urlString := id
  oneAgentAllowedByRobots _ := true
  fetch url := .ok (200, none, url)
  fetchPage _ _ _ := .error .timeout
  fetchSitemapUrls _ _ := []
  hrefs _ := []
  extractTitle _ := none
  htmlToMarkdown html := html
  extractText html _ := html
  htmlToStructuredJson _ _ := .null

/-- Its sitemap lists these pages. -/
def Sitemaps.sampleMap (listed : List String) : Sitemaps Web.sampleMap.urls.Url where
  get := some
  entities
    | "https://example.com/sitemap.xml" => listed.map fun u => .url (some u)
    | _ => []

/-- The sitemap lists a page of another site. -/
theorem not_mapOnSite : ¬ ∀ (web : Web) (maps : Sitemaps web.urls.Url) (toLowercase : String → String)
    (rootUrl : String) (search : Option String) (ignoreSitemap includeSubdomains : Bool) (limit : ℕ),
    MapOnSite web maps toLowercase rootUrl search ignoreSitemap includeSubdomains limit := by
  intro h
  have hrun := @mapUrls_eq (Web.sampleMap.withSitemaps (.sampleMap ["https://other.org/"])) id "https://example.com/"
    "https://example.com/" none false false 10 _ rfl
    (take_mapPages .sampleMap (.sampleMap ["https://other.org/"]) "https://example.com/" false 10)
  have hmem : "https://other.org/" ∈ (mapPages .sampleMap (.sampleMap ["https://other.org/"]) "https://example.com/"
      false).take 10 := by decide +kernel
  obtain ⟨parsed, hparse, hok⟩ := h .sampleMap (.sampleMap ["https://other.org/"]) id "https://example.com/" none
    false false 10 "https://example.com/" _ rfl hrun "https://other.org/" (mem_take_filter_candidates hmem rfl)
  cases hparse
  exact absurd hok (by decide)

/-! ## The search -/

section Search

variable (web : Web) (maps : Sitemaps web.urls.Url) (toLowercase : String → String) (rootUrl q : String)
  (ignoreSitemap includeSubdomains : Bool) (limit : ℕ)

/-- The result is the first part of what matches in the list that is returned without a search and for every limit
that is large enough. -/
def SearchBeforeLimit : Prop :=
  ∀ full, (∃ n₀, ∀ n, n₀ ≤ n →
      mapUrls (web.withSitemaps maps) toLowercase rootUrl none ignoreSitemap includeSubdomains n = .ok full) →
    mapUrls (web.withSitemaps maps) toLowercase rootUrl (some q) ignoreSitemap includeSubdomains limit =
      .ok ((full.filter (matchesSearch toLowercase (some q))).take limit)

/-- What matches of all URLs of the site. -/
def allMatches (base : web.urls.Url) : List String :=
  (mapPages web maps base ignoreSitemap ++
      rootLinks (web.withSitemaps maps) rootUrl base includeSubdomains).eraseDups.filter
    (matchesSearch toLowercase (some q))

/-- What matches of the URLs that `map_urls` comes to. -/
def foundMatches (base : web.urls.Url) : List String :=
  (mapCandidates (mapPages web maps base ignoreSitemap)
      (rootLinks (web.withSitemaps maps) rootUrl base includeSubdomains) limit).filter
    (matchesSearch toLowercase (some q))

/-- Of the first URLs of the site that match, none is cut off before the search, and none comes after one that it
comes before among all of them. -/
def NoneLost : Prop :=
  ∀ base, web.urls.parse rootUrl = .ok base →
    let all := allMatches web maps toLowercase rootUrl q ignoreSitemap includeSubdomains base
    let found := foundMatches web maps toLowercase rootUrl q ignoreSitemap includeSubdomains limit base
    ∀ u ∈ all.take limit, u ∈ found ∧ ∀ v, found.idxOf v < found.idxOf u → all.idxOf v < all.idxOf u

end Search

section NoneLost

variable {web : Web} {maps : Sitemaps web.urls.Url} {toLowercase : String → String} {rootUrl q : String}
  {ignoreSitemap includeSubdomains : Bool} {limit : ℕ} {base : web.urls.Url}

/-- Without a search and with a large limit all URLs are returned. -/
theorem mapUrls_all (hroot : web.urls.parse rootUrl = .ok base) {n : ℕ}
    (hpages : (mapPages web maps base ignoreSitemap).length ≤ n)
    (hall : (mapPages web maps base ignoreSitemap ++
      rootLinks (web.withSitemaps maps) rootUrl base includeSubdomains).eraseDups.length ≤ n) :
    mapUrls (web.withSitemaps maps) toLowercase rootUrl none ignoreSitemap includeSubdomains n =
      .ok (mapPages web maps base ignoreSitemap ++
        rootLinks (web.withSitemaps maps) rootUrl base includeSubdomains).eraseDups := by
  have hnone : matchesSearch toLowercase none = fun _ => true := rfl
  rw [@mapUrls_eq (web.withSitemaps maps) toLowercase rootUrl base none ignoreSitemap includeSubdomains n _ hroot
    (take_mapPages web maps base ignoreSitemap n), hnone, List.filter_true, mapCandidates,
    List.take_of_length_le hpages, List.take_of_length_le (le_max_of_le_left hall), List.take_of_length_le hall]

theorem nodup_foundMatches :
    (foundMatches web maps toLowercase rootUrl q ignoreSitemap includeSubdomains limit base).Nodup :=
  ((Distinct.nodup_eraseDups _).sublist (List.take_sublist _ _)).filter _

theorem foundMatches_subset :
    foundMatches web maps toLowercase rootUrl q ignoreSitemap includeSubdomains limit base ⊆
      allMatches web maps toLowercase rootUrl q ignoreSitemap includeSubdomains base := by
  intro u hu
  obtain ⟨hcand, hmatch⟩ := List.mem_filter.mp hu
  refine List.mem_filter.mpr ⟨List.mem_eraseDups.mpr (List.mem_append.mpr ?_), hmatch⟩
  exact (mem_of_mem_candidates hcand).imp_left List.mem_of_mem_take

end NoneLost

/-- **When the search comes before the limit**: exactly if none of the first matches is cut off or overtaken. -/
theorem searchBeforeLimit_iff (web : Web) (maps : Sitemaps web.urls.Url) (toLowercase : String → String)
    (rootUrl q : String) (ignoreSitemap includeSubdomains : Bool) (limit : ℕ) :
    SearchBeforeLimit web maps toLowercase rootUrl q ignoreSitemap includeSubdomains limit ↔
      NoneLost web maps toLowercase rootUrl q ignoreSitemap includeSubdomains limit := by
  have hrun (base : web.urls.Url) (hroot : web.urls.parse rootUrl = .ok base) :
      mapUrls (web.withSitemaps maps) toLowercase rootUrl (some q) ignoreSitemap includeSubdomains limit =
        .ok ((foundMatches web maps toLowercase rootUrl q ignoreSitemap includeSubdomains limit base).take limit) :=
    @mapUrls_eq (web.withSitemaps maps) toLowercase rootUrl base (some q) ignoreSitemap includeSubdomains limit _
      hroot (take_mapPages web maps base ignoreSitemap limit)
  constructor
  · intro h base hroot
    have heq := h _ ⟨_, fun n hn => mapUrls_all hroot (le_of_max_le_left hn) (le_of_max_le_right hn)⟩
    rw [hrun base hroot, Except.ok.injEq] at heq
    exact (Distinct.take_eq_take_iff nodup_foundMatches ((Distinct.nodup_eraseDups _).filter _)
      foundMatches_subset).mp heq
  · intro h full hfull
    obtain ⟨n₀, hn₀⟩ := hfull
    rcases hroot : web.urls.parse rootUrl with e | base
    · have herr := hn₀ n₀ le_rfl
      unfold mapUrls at herr
      rw [show (web.withSitemaps maps).urls.parse rootUrl = .error e from hroot] at herr
      cases herr
    · have hlarge (n : ℕ) (hn : max (mapPages web maps base ignoreSitemap).length _ ≤ n) :=
        @mapUrls_all web maps toLowercase rootUrl ignoreSitemap includeSubdomains base hroot n (le_of_max_le_left hn)
          (le_of_max_le_right hn)
      have hall := (hn₀ _ (le_max_left n₀ _)).symm.trans (hlarge _ (le_max_right _ _))
      rw [Except.ok.injEq] at hall
      rw [hrun base hroot, hall]
      exact congrArg _ ((Distinct.take_eq_take_iff nodup_foundMatches ((Distinct.nodup_eraseDups _).filter _)
        foundMatches_subset).mpr (h base hroot))

/-- The first page of the sitemap fills the limit, and the second one matches. -/
theorem not_searchBeforeLimit : ¬ ∀ (web : Web) (maps : Sitemaps web.urls.Url) (toLowercase : String → String)
    (rootUrl q : String) (ignoreSitemap includeSubdomains : Bool) (limit : ℕ),
    SearchBeforeLimit web maps toLowercase rootUrl q ignoreSitemap includeSubdomains limit := by
  intro h
  have heq := h .sampleMap (.sampleMap ["https://example.com/a", "https://example.com/rust"]) String.toLower
    "https://example.com/" "Rust" false false 1 _
    ⟨_, fun n hn => mapUrls_all rfl (le_of_max_le_left hn) (le_of_max_le_right hn)⟩
  exact absurd (congrArg (fun r => r.toOption.map List.length) heq) (by decide +kernel)

end FireCtrl
