import FireCtrl.Scraper

/-!
# The crawl finds what is within reach

* `admissibleLinks`: the links of a URL that passes the filters and whose scrape succeeds;
  `admissibleLinks_isSome`. A URL is within reach of the crawl if it is at the end of a path of at most
  `max_depth` links from the root on which every URL is admissible.
* `crawlLoop_urls`: the crawl is the search of `Bfs.loop` on these links.
* **`crawl_correct`**: it returns the URLs within reach, each once and by distance, up to the limit.
-/

namespace FireCtrl

section Crawl

variable (web : Web) (cfg : CrawlerConfig) (params : CrawlParams) (baseHost : String)

/-- The links of an admissible URL: one that passes the filters and whose scrape succeeds. -/
def admissibleLinks (url : String) : Option (List String) :=
  if filteredOut web params baseHost url then none
  else
    match loadPage web cfg (params.job url) with
    | .ok page => some (extractLinks web page.html page.url)
    | .error _ => none

variable {web cfg params baseHost} {url : String} {depth : UInt32} {page : Page web}
  {result : ScrapeResult} {visited : Finset String} {queue : List (String × UInt32)}
  {results : List ScrapeResult} {found : List (String × ℕ)}

theorem admissibleLinks_isSome : (admissibleLinks web cfg params baseHost url).isSome ↔
    filteredOut web params baseHost url = false ∧
      ∃ result, scrape web cfg (params.job url) = .ok result := by
  unfold admissibleLinks
  by_cases hf : filteredOut web params baseHost url = true
  · simp [hf]
  · rw [if_neg hf]
    rw [Bool.not_eq_true] at hf
    rcases hp : loadPage web cfg (params.job url) with e | page
    · simp [scrape_error hp]
    · obtain ⟨result, hr, -⟩ := scrape_ok hp
      simp [hf, hr]

/-! ## One round -/

/-- The raw HTML does not decide whether a page is loaded. -/
theorem loadPage_bfsJob (depth : UInt32) :
    loadPage web cfg (params.bfsJob url depth) = loadPage web cfg (params.job url) := by
  unfold CrawlParams.bfsJob
  simp only
  split_ifs <;> rfl

theorem bfsJob_url : (params.bfsJob url depth).url = url := by
  unfold CrawlParams.bfsJob
  simp only
  split_ifs <;> rfl

theorem rawHtml_mem_bfsJob (h : depth < params.maxDepth) :
    .rawHtml ∈ (params.bfsJob url depth).formats := by
  unfold CrawlParams.bfsJob
  by_cases hraw : .rawHtml ∈ (params.job url).formats
  · simp [h, hraw]
  · simp [h, hraw]

theorem strip_url : (params.strip result).url = result.url := by
  unfold CrawlParams.strip
  split_ifs <;> rfl

/-- Above the greatest depth, a page that is scraped has the links of its raw HTML. -/
theorem childLinks_of_scrape (hp : loadPage web cfg (params.job url) = .ok page)
    (hs : scrape web cfg (params.bfsJob url depth) = .ok result) (hd : depth < params.maxDepth) :
    childLinks web params url depth result = extractLinks web page.html page.url := by
  rw [← loadPage_bfsJob depth] at hp
  obtain ⟨result', hs', -, hraw⟩ := scrape_ok hp
  rw [hs, Except.ok.injEq] at hs'
  subst hs'
  have hurl := loadPage_url hp
  rw [bfsJob_url] at hurl
  unfold childLinks
  rw [if_pos hd, hraw (rawHtml_mem_bfsJob hd), hurl]

theorem depth_succ (h : depth < params.maxDepth) : (depth + 1).toNat = depth.toNat + 1 := by
  have hlt := UInt32.lt_iff_toNat_lt.mp h
  have hmax := params.maxDepth.toNat_lt
  rw [UInt32.toNat_add]
  exact Nat.mod_eq_of_lt (by simp only [UInt32.toNat_one]; omega)

/-- The queue after a page has been scraped. -/
theorem expand_eq_pushLinks (hp : loadPage web cfg (params.job url) = .ok page)
    (hs : scrape web cfg (params.bfsJob url depth) = .ok result) :
    Bfs.expand params.maxDepth.toNat depth.toNat
        (visited, queue.map fun p => (p.1, p.2.toNat)) (extractLinks web page.html page.url) =
      ((pushLinks web params visited queue url depth result).1,
        (pushLinks web params visited queue url depth result).2.map fun p => (p.1, p.2.toNat)) := by
  unfold Bfs.expand pushLinks
  by_cases hd : depth < params.maxDepth
  · rw [if_pos (UInt32.lt_iff_toNat_lt.mp hd), childLinks_of_scrape hp hs hd, ← depth_succ hd]
    exact Bfs.discover_map UInt32.toNat _ _ _ _
  · rw [if_neg (mt UInt32.lt_iff_toNat_lt.mpr hd)]
    simp [childLinks, hd, Bfs.discover]

/-! ## The whole crawl -/

/-- **The crawl is a breadth-first search** on the links of admissible URLs. -/
theorem crawlLoop_urls (h : results.map ScrapeResult.url = found.map Prod.fst) :
    (crawlLoop web cfg params baseHost visited queue results).map ScrapeResult.url =
      (Bfs.loop (admissibleLinks web cfg params baseHost) params.maxDepth.toNat params.limit.toNat visited
        (queue.map fun p => (p.1, p.2.toNat)) found).map Prod.fst := by
  fun_induction crawlLoop web cfg params baseHost visited queue results generalizing found with
  | case1 visited results =>
    rw [List.map_nil, Bfs.loop]
    exact h
  | case2 visited results url depth queue hle =>
    have hlen : results.length = found.length := by simpa using congrArg List.length h
    rw [List.map_cons, Bfs.loop, if_pos (hlen ▸ hle)]
    exact h
  | case3 visited results url depth queue hle hf ih =>
    have hlen : results.length = found.length := by simpa using congrArg List.length h
    have hg : admissibleLinks web cfg params baseHost url = none := if_pos hf
    rw [ih h, List.map_cons, Bfs.loop, if_neg (hlen ▸ hle), hg]
  | case4 visited results url depth queue hle hf result hs ih =>
    have hlen : results.length = found.length := by simpa using congrArg List.length h
    rcases hp : loadPage web cfg (params.job url) with e | page
    · rw [← loadPage_bfsJob depth] at hp
      rw [scrape_error hp] at hs
      cases hs
    · have hg : admissibleLinks web cfg params baseHost url =
          some (extractLinks web page.html page.url) := by
        rw [admissibleLinks, if_neg hf, hp]
      have hurl : (params.strip result).url = url := by
        rw [strip_url, scrape_url hs, bfsJob_url]
      have hnext : (results ++ [params.strip result]).map ScrapeResult.url =
          (found ++ [(url, depth.toNat)]).map Prod.fst := by simp [h, hurl]
      rw [ih hnext, List.map_cons, Bfs.loop, if_neg (hlen ▸ hle), hg]
      simp only [expand_eq_pushLinks hp hs]
  | case5 visited results url depth queue hle hf e hs ih =>
    have hlen : results.length = found.length := by simpa using congrArg List.length h
    rcases hp : loadPage web cfg (params.job url) with e' | page
    · have hg : admissibleLinks web cfg params baseHost url = none := by
        rw [admissibleLinks, if_neg hf, hp]
      rw [ih h, List.map_cons, Bfs.loop, if_neg (hlen ▸ hle), hg]
    · rw [← loadPage_bfsJob depth] at hp
      obtain ⟨result, hok, -⟩ := scrape_ok hp
      rw [hs] at hok
      cases hok

/-- **The crawl finds the URLs within reach**: each once, by their distance from the root, and all of them
if they are not more than the limit, else as many as the limit. -/
theorem crawl_correct {base : web.urls.Url} (hroot : web.urls.parse params.rootUrl = .ok base)
    (hsitemap : params.ignoreSitemap = true) :
    let links := admissibleLinks web cfg params ((web.urls.hostStr base).getD "")
    let withinReach := {url | Bfs.Reach links params.rootUrl params.maxDepth.toNat url}
    ∃ results, crawl web cfg params = .ok results ∧
      (results.map ScrapeResult.url).Nodup ∧
      (∀ result ∈ results, result.url ∈ withinReach) ∧
      ((results.map ScrapeResult.url).Pairwise fun u v =>
        Bfs.dist links params.rootUrl u ≤ Bfs.dist links params.rootUrl v) ∧
      (withinReach.encard ≤ params.limit.toNat →
        ∀ url ∈ withinReach, url ∈ results.map ScrapeResult.url) ∧
      (params.limit.toNat < withinReach.encard → results.length = params.limit.toNat) := by
  intro links withinReach
  have hstart : crawl web cfg params = .ok (crawlLoop web cfg params ((web.urls.hostStr base).getD "")
      {params.rootUrl} [(params.rootUrl, 0)] []) := by
    simp [crawl, hroot, hsitemap, Bfs.discover]
  refine ⟨_, hstart, ?_⟩
  generalize hres : crawlLoop web cfg params ((web.urls.hostStr base).getD "") {params.rootUrl}
    [(params.rootUrl, 0)] [] = results
  have hurls : results.map ScrapeResult.url =
      (Bfs.bfs links params.rootUrl params.maxDepth.toNat params.limit.toNat).map Prod.fst := by
    rw [← hres]
    exact crawlLoop_urls rfl
  obtain ⟨hnodup, hreach, hsorted, hall, hlimit⟩ :=
    Bfs.bfs_correct links params.rootUrl params.maxDepth.toNat params.limit.toNat
  rw [← hurls] at hnodup hreach hsorted hall hlimit
  refine ⟨hnodup, fun result hr => ?_, hsorted, hall, fun hlt => ?_⟩
  · exact hreach _ (List.mem_map_of_mem hr)
  · rw [← hlimit hlt, List.length_map]

end Crawl

section Sample

/-- Every page of `example.com` links to `/b` and to a page that is not there. -/
def Web.sample : Web where
  urls := { Url := String, parse := .ok, hostStr := fun _ => some "example.com" }
  scheme _ := "https"
  join _ href := .ok href
  urlString := id
  oneAgentAllowedByRobots _ := true
  fetch url := if url = "https://example.com/gone" then .error .timeout else .ok (200, none, url)
  fetchPage _ _ _ := .error .timeout
  fetchSitemapUrls _ _ := []
  hrefs _ := ["https://example.com/b", "https://example.com/gone"]
  extractTitle _ := none
  htmlToMarkdown html := html
  extractText html _ := html
  htmlToStructuredJson _ _ := .null

def CrawlerConfig.sample : CrawlerConfig where
  requestTimeoutSeconds := 10
  respectRobotsTxt := true
  playwrightUrl := none

def CrawlParams.sample : CrawlParams where
  rootUrl := "https://example.com/"
  maxDepth := 1
  limit := 10
  scrapeOptions := .default
  allowExternalLinks := true
  ignoreSitemap := true
  includePaths := []
  excludePaths := []

theorem crawl_correct_sample : ∃ results, crawl .sample .sample .sample = .ok results ∧
    (results.map ScrapeResult.url).Nodup ∧ ∀ result ∈ results,
      Bfs.Reach (admissibleLinks .sample .sample .sample "example.com") "https://example.com/" 1 result.url :=
  let ⟨results, hcrawl, hnodup, hreach, _⟩ :=
    @crawl_correct Web.sample CrawlerConfig.sample CrawlParams.sample "https://example.com/" rfl rfl
  ⟨results, hcrawl, hnodup, hreach⟩

end Sample

end FireCtrl
