import FireCtrl.Lib.Bfs
import FireCtrl.Worker
import Mathlib.Data.List.Infix

/-!
# Scraping and crawling (`Scraper` in `scraper.rs`)

* `Web`: what the scraper sees, of the web and of the URL and HTML libraries, while nothing changes.
* `loadPage`, `scrape`: the page of a job, and what is made of it; `scrape_ok`.
* `crawlLoop`, `crawl`: the breadth-first crawl. Each round finds a page or shortens the queue.
-/

namespace FireCtrl

/-- The settings that the scraper reads. -/
structure CrawlerConfig where
  requestTimeoutSeconds : UInt64
  respectRobotsTxt : Bool
  playwrightUrl : Option String

/-- A web that does not change, and the libraries that read it. `hrefs` lists the targets of the
`a[href]` elements of a document. -/
structure Web where
  urls : UrlCrate
  scheme : urls.Url → String
  join : urls.Url → String → Except String urls.Url
  urlString : urls.Url → String
  oneAgentAllowedByRobots : urls.Url → Bool
  fetch : String → Except AppError (UInt16 × Option String × String)
  fetchPage : String → UInt32 → UInt64 → Except AppError (String × Option String)
  fetchSitemapUrls : urls.Url → ℕ → List String
  hrefs : String → List String
  extractTitle : String → Option String
  htmlToMarkdown : String → String
  extractText : String → Bool → String
  htmlToStructuredJson : String → urls.Url → Json

/-- A page that has been loaded. -/
structure Page (web : Web) where
  url : web.urls.Url
  html : String
  title : Option String
  statusCode : UInt16
  contentType : Option String

section Scrape

variable (web : Web) (cfg : CrawlerConfig)

def extractLinks (html : String) (baseUrl : web.urls.Url) : List String :=
  (web.hrefs html).filterMap fun href =>
    match web.join baseUrl href with
    | .ok resolved =>
      if web.scheme resolved = "http" ∨ web.scheme resolved = "https" then
        some (web.urlString resolved)
      else none
    | .error _ => none

def isAllowedByRobots (url : web.urls.Url) : Bool :=
  if cfg.respectRobotsTxt then web.oneAgentAllowedByRobots url else true

/-- The first half of `Scraper::scrape`: fetch the page. -/
def loadPage (job : ScrapeJobData) : Except AppError (Page web) :=
  match web.urls.parse job.url with
  | .error e => .error (.invalidUrl e)
  | .ok parsed =>
    if !isAllowedByRobots web cfg parsed then
      .error (.scraper ("URL blocked by robots.txt: " ++ job.url))
    else
      let timeout := (job.timeout.map UInt32.toUInt64).getD cfg.requestTimeoutSeconds
      let useBrowser := !job.actions.isEmpty || decide (job.waitFor > 0)
      if useBrowser && cfg.playwrightUrl.isNone then
        match web.fetchPage job.url job.waitFor timeout with
        | .error e => .error e
        | .ok (html, browserTitle) =>
          .ok ⟨parsed, html, browserTitle <|> web.extractTitle html, 200, some "text/html"⟩
      else
        match web.fetch job.url with
        | .error e => .error e
        | .ok (status, ct, body) => .ok ⟨parsed, body, web.extractTitle body, status, ct⟩

variable {web}

/-- Fill in one of the requested formats. -/
def ScrapeResult.fill (job : ScrapeJobData) (page : Page web) (result : ScrapeResult) :
    OutputFormat → ScrapeResult
  | .markdown => { result with markdown := some (web.htmlToMarkdown page.html) }
  | .html => { result with html := some (web.extractText page.html job.onlyMainContent) }
  | .rawHtml => { result with rawHtml := some page.html }
  | .links => { result with links := some (extractLinks web page.html page.url) }
  | .json => { result with json := some (web.htmlToStructuredJson page.html page.url) }
  -- extraction is left to the worker, and there are no screenshots yet
  | .extract => result
  | .screenshot => result

def ScrapeResult.ofPage (job : ScrapeJobData) (page : Page web) : ScrapeResult where
  url := job.url
  title := page.title
  markdown := none
  html := none
  rawHtml := none
  screenshot := none
  links := none
  extract := none
  json := none
  warning := none
  metadata :=
    { statusCode := page.statusCode, contentType := page.contentType, sourceUrl := job.url,
      scrapeId := none, error := none }

variable (web)

def scrape (job : ScrapeJobData) : Except AppError ScrapeResult :=
  match loadPage web cfg job with
  | .error e => .error e
  | .ok page =>
    let formats := if job.formats.isEmpty then [.markdown] else job.formats
    .ok (formats.foldl (ScrapeResult.fill job page) (.ofPage job page))

end Scrape

/-! ## The result of a scrape -/

section ScrapeOk

variable {web : Web} {cfg : CrawlerConfig} {job : ScrapeJobData} {page : Page web}
  {result : ScrapeResult}

theorem fill_foldl_url (formats : List OutputFormat) :
    (formats.foldl (ScrapeResult.fill job page) result).url = result.url := by
  induction formats generalizing result with
  | nil => rfl
  | cons fmt formats ih =>
    rw [List.foldl_cons, ih]
    cases fmt <;> rfl

/-- A field that one format fills in. -/
theorem fill_foldl_field {β : Type} {fmt₀ : OutputFormat} {f : ScrapeResult → Option β} {v : β}
    (hfill : ∀ r : ScrapeResult, f (r.fill job page fmt₀) = some v)
    (hkeep : ∀ (r : ScrapeResult) fmt, fmt ≠ fmt₀ → f (r.fill job page fmt) = f r) (formats : List OutputFormat) :
    f (formats.foldl (ScrapeResult.fill job page) result) =
      if fmt₀ ∈ formats then some v else f result := by
  induction formats generalizing result with
  | nil => rfl
  | cons fmt formats ih =>
    rw [List.foldl_cons, ih]
    by_cases hmem : fmt₀ ∈ formats
    · rw [if_pos hmem, if_pos (List.mem_cons_of_mem _ hmem)]
    · rw [if_neg hmem]
      by_cases hfmt : fmt = fmt₀
      · rw [hfmt, hfill, if_pos List.mem_cons_self]
      · rw [hkeep _ _ hfmt, if_neg (by simp [hmem, Ne.symm hfmt])]

theorem fill_foldl_markdown (formats : List OutputFormat) :
    (formats.foldl (ScrapeResult.fill job page) result).markdown =
      if .markdown ∈ formats then some (web.htmlToMarkdown page.html) else result.markdown :=
  fill_foldl_field (f := ScrapeResult.markdown) (fun _ => rfl)
    (fun r fmt hfmt => by cases fmt <;> first | rfl | exact absurd rfl hfmt) formats

theorem fill_foldl_html (formats : List OutputFormat) :
    (formats.foldl (ScrapeResult.fill job page) result).html =
      if .html ∈ formats then some (web.extractText page.html job.onlyMainContent) else result.html :=
  fill_foldl_field (f := ScrapeResult.html) (fun _ => rfl)
    (fun r fmt hfmt => by cases fmt <;> first | rfl | exact absurd rfl hfmt) formats

theorem fill_foldl_rawHtml (formats : List OutputFormat) :
    (formats.foldl (ScrapeResult.fill job page) result).rawHtml =
      if .rawHtml ∈ formats then some page.html else result.rawHtml :=
  fill_foldl_field (f := ScrapeResult.rawHtml) (fun _ => rfl)
    (fun r fmt hfmt => by cases fmt <;> first | rfl | exact absurd rfl hfmt) formats

/-- **Whether a scrape succeeds** does not depend on the formats; the result is about the URL of the job,
and has the raw HTML if that is among the formats. -/
theorem scrape_ok (h : loadPage web cfg job = .ok page) :
    ∃ result, scrape web cfg job = .ok result ∧ result.url = job.url ∧
      (.rawHtml ∈ job.formats → result.rawHtml = some page.html) := by
  unfold scrape
  rw [h]
  refine ⟨_, rfl, fill_foldl_url _, fun hraw => ?_⟩
  have hempty : job.formats.isEmpty ≠ true := by
    intro hempty
    rw [List.isEmpty_iff.mp hempty] at hraw
    cases hraw
  rw [if_neg hempty, fill_foldl_rawHtml, if_pos hraw]

theorem scrape_url (h : scrape web cfg job = .ok result) : result.url = job.url := by
  unfold scrape at h
  split at h
  · cases h
  · cases h
    exact fill_foldl_url _

theorem scrape_error {e : AppError} (h : loadPage web cfg job = .error e) :
    scrape web cfg job = .error e := by
  unfold scrape
  rw [h]

theorem loadPage_url (h : loadPage web cfg job = .ok page) :
    web.urls.parse job.url = .ok page.url := by
  unfold loadPage at h
  split at h
  · cases h
  · rename_i parsed hparsed
    split at h
    · cases h
    · simp only at h
      split at h
      · split at h <;> cases h
        exact hparsed
      · split at h <;> cases h
        exact hparsed

end ScrapeOk

/-! ## The crawl -/

/-- `s.contains(p)`. -/
def containsStr (s p : String) : Bool := s.toList.tails.any p.toList.isPrefixOf

section Crawl

variable (web : Web) (cfg : CrawlerConfig) (params : CrawlParams)

/-- The path filter and the host filter leave the URL out. -/
def filteredOut (baseHost : String) (url : String) : Bool :=
  (!params.includePaths.isEmpty && !params.includePaths.any (containsStr url)) ||
    params.excludePaths.any (containsStr url) ||
    (!params.allowExternalLinks &&
      match web.urls.parse url with
      | .ok parsed => (web.urls.hostStr parsed).getD "" != baseHost
      | .error _ => false)

/-- `formats` of the crawl. -/
def CrawlParams.formats : List OutputFormat :=
  if params.scrapeOptions.formats.isEmpty then [.markdown] else params.scrapeOptions.formats

/-- The scrape job of a URL. -/
def CrawlParams.job (url : String) : ScrapeJobData where
  url := url
  formats := params.formats
  onlyMainContent := params.scrapeOptions.onlyMainContent
  includeTags := params.scrapeOptions.includeTags
  excludeTags := params.scrapeOptions.excludeTags
  headers := params.scrapeOptions.headers
  waitFor := params.scrapeOptions.waitFor
  mobile := params.scrapeOptions.mobile
  timeout := params.scrapeOptions.timeout
  extract := none
  actions := params.scrapeOptions.actions
  location := params.scrapeOptions.location
  webhook := none

/-- The same job, which also asks for the raw HTML above the greatest depth. -/
def CrawlParams.bfsJob (url : String) (depth : UInt32) : ScrapeJobData :=
  let job := params.job url
  if depth < params.maxDepth ∧ .rawHtml ∉ job.formats then
    { job with formats := job.formats ++ [.rawHtml] }
  else job

/-- The links that the crawl follows from a page. -/
def childLinks (url : String) (depth : UInt32) (result : ScrapeResult) : List String :=
  if depth < params.maxDepth then
    match result.rawHtml, web.urls.parse url with
    | some raw, .ok parsed => extractLinks web raw parsed
    | _, _ => []
  else []

/-- Push the links of a page that have not been seen. -/
def pushLinks (visited : Finset String) (queue : List (String × UInt32)) (url : String) (depth : UInt32)
    (result : ScrapeResult) : Finset String × List (String × UInt32) :=
  Bfs.discover (depth + 1) (visited, queue) (childLinks web params url depth result)

/-- Without the raw HTML, unless it was requested. -/
def CrawlParams.strip (result : ScrapeResult) : ScrapeResult :=
  if .rawHtml ∈ params.formats then result else { result with rawHtml := none }

def crawlLoop (baseHost : String) (visited : Finset String) (queue : List (String × UInt32))
    (results : List ScrapeResult) : List ScrapeResult :=
  match queue with
  | [] => results
  | (url, depth) :: queue =>
    if params.limit.toNat ≤ results.length then results
    else if filteredOut web params baseHost url then crawlLoop baseHost visited queue results
    else
      match scrape web cfg (params.bfsJob url depth) with
      | .ok result =>
        crawlLoop baseHost (pushLinks web params visited queue url depth result).1
          (pushLinks web params visited queue url depth result).2 (results ++ [params.strip result])
      | .error _ => crawlLoop baseHost visited queue results
termination_by (params.limit.toNat - results.length, queue.length)
decreasing_by
  · exact Prod.Lex.right _ (by simp)
  · exact Prod.Lex.left _ _ (by simp only [List.length_append, List.length_singleton]; omega)
  · exact Prod.Lex.right _ (by simp)

/-- `Scraper::crawl`. -/
def crawl : Except AppError (List ScrapeResult) :=
  match web.urls.parse params.rootUrl with
  | .error e => .error (.invalidUrl e)
  | .ok base =>
    let baseHost := (web.urls.hostStr base).getD ""
    let sitemapUrls :=
      if params.ignoreSitemap then [] else web.fetchSitemapUrls base params.limit.toNat
    let seeded : Finset String × List (String × UInt32) := Bfs.discover 1 (∅, []) sitemapUrls
    let started : Finset String × List (String × UInt32) :=
      if params.rootUrl ∈ seeded.1 then seeded
      else (insert params.rootUrl seeded.1, (params.rootUrl, 0) :: seeded.2)
    .ok (crawlLoop web cfg params baseHost started.1 started.2 [])

end Crawl

end FireCtrl
