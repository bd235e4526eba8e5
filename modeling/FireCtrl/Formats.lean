import FireCtrl.Api
import FireCtrl.Crawl
import FireCtrl.Execution

/-!
# What a scrape returns for which formats

* `ScrapeResult.ofFormats`, `scrape_eq`: each format fills in its own field, whatever the other formats are.
* **`crawl_scrapes`**: the pages of a crawl are what scraping their URLs returns; the raw HTML that is only
  fetched for its links does not show.
* **`scrapeHandler_formats`**: the response to a scrape request has the requested formats, and they are the
  same with and without an extraction.
-/

namespace FireCtrl

open Call (ext)

/-! ## The fields of a scrape -/

section Fields

variable {web : Web} {cfg : CrawlerConfig} {job job' : ScrapeJobData} {page : Page web} {result : ScrapeResult}
  {formats : List OutputFormat}

/-- A page with the given formats. -/
def ScrapeResult.ofFormats (job : ScrapeJobData) (page : Page web) (formats : List OutputFormat) : ScrapeResult :=
  { ScrapeResult.ofPage job page with
    markdown := if .markdown ∈ formats then some (web.htmlToMarkdown page.html) else none
    html := if .html ∈ formats then some (web.extractText page.html job.onlyMainContent) else none
    rawHtml := if .rawHtml ∈ formats then some page.html else none
    links := if .links ∈ formats then some (extractLinks web page.html page.url) else none
    json := if .json ∈ formats then some (web.htmlToStructuredJson page.html page.url) else none }

theorem fill_foldl_links (formats : List OutputFormat) :
    (formats.foldl (ScrapeResult.fill job page) result).links =
      if .links ∈ formats then some (extractLinks web page.html page.url) else result.links :=
  fill_foldl_field (f := ScrapeResult.links) (fun _ => rfl)
    (fun r fmt hfmt => by cases fmt <;> first | rfl | exact absurd rfl hfmt) formats

theorem fill_foldl_json (formats : List OutputFormat) :
    (formats.foldl (ScrapeResult.fill job page) result).json =
      if .json ∈ formats then some (web.htmlToStructuredJson page.html page.url) else result.json :=
  fill_foldl_field (f := ScrapeResult.json) (fun _ => rfl)
    (fun r fmt hfmt => by cases fmt <;> first | rfl | exact absurd rfl hfmt) formats

/-- A field that no format fills in. -/
theorem fill_foldl_keep {β : Type} {f : ScrapeResult → β}
    (hkeep : ∀ (r : ScrapeResult) fmt, f (r.fill job page fmt) = f r) (formats : List OutputFormat) :
    f (formats.foldl (ScrapeResult.fill job page) result) = f result := by
  induction formats generalizing result with
  | nil => rfl
  | cons fmt formats ih => rw [List.foldl_cons, ih, hkeep]

theorem fill_foldl_eq (formats : List OutputFormat) :
    formats.foldl (ScrapeResult.fill job page) (.ofPage job page) = .ofFormats job page formats := by
  have hmarkdown := @fill_foldl_markdown web job page (.ofPage job page) formats
  have hhtml := @fill_foldl_html web job page (.ofPage job page) formats
  have hraw := @fill_foldl_rawHtml web job page (.ofPage job page) formats
  have hlinks := @fill_foldl_links web job page (.ofPage job page) formats
  have hjson := @fill_foldl_json web job page (.ofPage job page) formats
  have hrest := @fill_foldl_keep web job page (.ofPage job page) _
    (fun r : ScrapeResult => (r.url, r.title, r.screenshot, r.extract, r.warning, r.metadata))
    (fun r fmt => by cases fmt <;> rfl) formats
  generalize formats.foldl (ScrapeResult.fill job page) (.ofPage job page) = r at *
  cases r
  simp only [Prod.mk.injEq] at hmarkdown hhtml hraw hlinks hjson hrest
  obtain ⟨rfl, rfl, rfl, rfl, rfl, rfl⟩ := hrest
  subst hmarkdown hhtml hraw hlinks hjson
  rfl

/-- **What a scrape returns** of its page. -/
theorem scrape_eq (h : loadPage web cfg job = .ok page) :
    scrape web cfg job = .ok (.ofFormats job page (if job.formats.isEmpty then [.markdown] else job.formats)) := by
  unfold scrape
  rw [h]
  simp only [fill_foldl_eq]

end Fields

/-! ## The pages of a crawl -/

section Crawl

variable {web : Web} {cfg : CrawlerConfig} {params : CrawlParams} {baseHost url : String} {depth : UInt32}
  {result : ScrapeResult} {visited : Finset String} {queue : List (String × UInt32)} {results : List ScrapeResult}

theorem formats_ne_nil : params.formats ≠ [] := by
  unfold CrawlParams.formats
  split_ifs with h
  · exact List.cons_ne_nil _ _
  · exact fun hnil => h (by rw [hnil]; rfl)

theorem scrape_job {page : Page web} (h : loadPage web cfg (params.job url) = .ok page) :
    scrape web cfg (params.job url) = .ok (.ofFormats (params.job url) page params.formats) := by
  rw [scrape_eq h, if_neg (by rw [List.isEmpty_iff]; exact formats_ne_nil)]
  rfl

/-- Without the raw HTML, a page of the crawl is what a scrape returns. -/
theorem scrape_strip (h : scrape web cfg (params.bfsJob url depth) = .ok result) :
    scrape web cfg (params.job url) = .ok (params.strip result) := by
  rcases hp : loadPage web cfg (params.job url) with e | page
  · rw [← loadPage_bfsJob depth] at hp
    rw [scrape_error hp] at h
    cases h
  · rw [scrape_job hp]
    by_cases hraw : .rawHtml ∈ params.formats
    · have hjob : params.bfsJob url depth = params.job url := if_neg fun hand => hand.2 hraw
      rw [hjob, scrape_job hp, Except.ok.injEq] at h
      rw [CrawlParams.strip, if_pos hraw, h]
    · rw [CrawlParams.strip, if_neg hraw]
      by_cases hd : depth < params.maxDepth
      · -- the raw HTML was asked for, and is left out again
        have hjob : params.bfsJob url depth = { params.job url with formats := params.formats ++ [.rawHtml] } :=
          if_pos ⟨hd, hraw⟩
        rw [← loadPage_bfsJob depth] at hp
        rw [scrape_eq hp, hjob, Except.ok.injEq] at h
        subst h
        simp [ScrapeResult.ofFormats, ScrapeResult.ofPage, hraw, CrawlParams.job]
      · have hjob : params.bfsJob url depth = params.job url := if_neg fun hand => hd hand.1
        rw [hjob, scrape_job hp, Except.ok.injEq] at h
        subst h
        simp [ScrapeResult.ofFormats, hraw]

/-- The loop adds pages that a scrape returns. -/
theorem crawlLoop_scrapes (h : ∀ result ∈ results, scrape web cfg (params.job result.url) = .ok result) :
    ∀ result ∈ crawlLoop web cfg params baseHost visited queue results,
      scrape web cfg (params.job result.url) = .ok result := by
  fun_induction crawlLoop web cfg params baseHost visited queue results with
  | case1 => exact h
  | case2 => exact h
  | case3 visited results url depth queue hle hf ih => exact ih h
  | case4 visited results url depth queue hle hf result hs ih =>
    refine ih fun r hr => ?_
    rcases List.mem_append.mp hr with hr | hr
    · exact h r hr
    · rw [List.mem_singleton.mp hr, strip_url, scrape_url hs, bfsJob_url]
      exact scrape_strip hs
  | case5 visited results url depth queue hle hf e hs ih => exact ih h

end Crawl

/-- **Crawling a page is scraping it**: every result is what a scrape of its URL returns, with the options and
formats of the crawl. -/
theorem crawl_scrapes {web : Web} {cfg : CrawlerConfig} {params : CrawlParams} {results : List ScrapeResult}
    (h : crawl web cfg params = .ok results) :
    ∀ result ∈ results, scrape web cfg (params.job result.url) = .ok result := by
  unfold crawl at h
  split at h
  · cases h
  · cases h
    exact crawlLoop_scrapes fun _ hr => absurd hr List.not_mem_nil

theorem crawl_scrapes_sample : ∃ results, crawl .sample .sample .sample = .ok results ∧
    ∀ result ∈ results, scrape .sample .sample (CrawlParams.sample.job result.url) = .ok result :=
  ⟨_, rfl, crawl_scrapes rfl⟩

/-! ## The response to a scrape request -/

/-- The pages are those of a web that does not change. -/
def Answers.scraping (ρ : Answers) (web : Web) (cfg : CrawlerConfig) : Answers
  | _, .ext (.scrape job) => scrape web cfg job
  | log, o => ρ log o

namespace ScrapeResult

/-- There is a field for each of the formats that a page can be returned in, and for no other one. -/
structure Carries (r : ScrapeResult) (formats : List OutputFormat) : Prop where
  markdown : r.markdown.isSome = true ↔ .markdown ∈ formats
  html : r.html.isSome = true ↔ .html ∈ formats
  rawHtml : r.rawHtml.isSome = true ↔ .rawHtml ∈ formats
  links : r.links.isSome = true ↔ .links ∈ formats
  json : r.json.isSome = true ↔ .json ∈ formats

/-- The fields of these formats are the same. -/
structure SameOutputs (r r' : ScrapeResult) : Prop where
  markdown : r.markdown = r'.markdown
  html : r.html = r'.html
  rawHtml : r.rawHtml = r'.rawHtml
  links : r.links = r'.links
  json : r.json = r'.json

variable {r r' r'' : ScrapeResult} {formats : List OutputFormat}

theorem SameOutputs.symm (h : r.SameOutputs r') : r'.SameOutputs r :=
  ⟨h.markdown.symm, h.html.symm, h.rawHtml.symm, h.links.symm, h.json.symm⟩

theorem SameOutputs.trans (h : r.SameOutputs r') (h' : r'.SameOutputs r'') : r.SameOutputs r'' :=
  ⟨h.markdown.trans h'.markdown, h.html.trans h'.html, h.rawHtml.trans h'.rawHtml, h.links.trans h'.links,
    h.json.trans h'.json⟩

theorem SameOutputs.carries (h : r.SameOutputs r') (h' : r'.Carries formats) : r.Carries formats :=
  ⟨by rw [h.markdown]; exact h'.markdown, by rw [h.html]; exact h'.html, by rw [h.rawHtml]; exact h'.rawHtml,
    by rw [h.links]; exact h'.links, by rw [h.json]; exact h'.json⟩

end ScrapeResult

section Handler

variable {web : Web} {crawler : CrawlerConfig} {cfg : Config} {isConfigured : Bool} {req : ScrapeRequest}
  {ρ : Answers} {log : Log} {page : Page web} {result : ScrapeResult}

theorem carries_ofFormats {job : ScrapeJobData} (formats : List OutputFormat) :
    (ScrapeResult.ofFormats job page formats).Carries formats := by
  constructor <;> simp [ScrapeResult.ofFormats]

/-- Hiding leaves the requested formats. -/
theorem hide_sameOutputs {r r' : ScrapeResult} (h : r.SameOutputs r') :
    (req.hide r).SameOutputs (req.hide r') := by
  constructor
  · simp only [ScrapeRequest.hide, h.markdown]
  · simp only [ScrapeRequest.hide, h.html]
  · simp only [ScrapeRequest.hide, h.rawHtml]
  · exact h.links
  · exact h.json

/-- The format that only serves the extraction is hidden. -/
theorem hide_ofFormats (job : ScrapeJobData) :
    (req.hide (.ofFormats job page req.effectiveFormats)).SameOutputs
      (.ofFormats job page req.requestedFormats) := by
  unfold ScrapeRequest.effectiveFormats
  split_ifs with hextra
  · constructor <;> simp [ScrapeRequest.hide, ScrapeResult.ofFormats]
  · constructor <;> simp [ScrapeRequest.hide, ScrapeResult.ofFormats]

variable (cfg ρ log result) in
/-- The extraction touches none of the fields of the formats. -/
theorem inlineExtraction_sameOutputs (extract : ExtractOptions) : ∃ r log',
    (inlineExtraction cfg result extract).execution ρ log = (.ok r, log') ∧ r.SameOutputs result := by
  unfold inlineExtraction
  dsimp only
  rw [execution_ext_bind]
  split
  · refine ⟨_, _, execution_pure _, ?_⟩
    split_ifs <;> exact ⟨rfl, rfl, rfl, rfl, rfl⟩
  · refine ⟨_, _, execution_pure _, ?_⟩
    split_ifs <;> exact ⟨rfl, rfl, rfl, rfl, rfl⟩

theorem effectiveFormats_ne_nil : req.effectiveFormats ≠ [] := by
  have hrequested : req.requestedFormats ≠ [] := by
    unfold ScrapeRequest.requestedFormats
    split_ifs with hnil
    · exact List.cons_ne_nil _ _
    · exact fun h => hnil (by rw [h]; rfl)
  unfold ScrapeRequest.effectiveFormats
  split_ifs
  · exact List.append_ne_nil_of_left_ne_nil hrequested _
  · exact hrequested

/-- The page does not depend on what is to be extracted from it. -/
theorem loadPage_job (formats : List OutputFormat) :
    loadPage web crawler (req.job formats) = loadPage web crawler (req.job []) := rfl

variable (cfg isConfigured) in
/-- What a request returns when the scrape has. -/
theorem scrapeHandler_scraped (hscrape : ρ [] (.ext (.scrape (req.job req.effectiveFormats))) = .ok result) :
    ∃ r log', (scrapeHandler cfg (.ok ()) isConfigured req).execution ρ [] = (.ok ⟨true, req.hide r⟩, log') ∧
      r.SameOutputs result := by
  unfold scrapeHandler
  rw [execution_bind, execution_ofExcept]
  simp only
  rw [execution_ext_bind, hscrape, execution_bind, execution_ofExcept]
  simp only
  rcases req.extract with _ | extract
  · exact ⟨_, _, rfl, rfl, rfl, rfl, rfl, rfl⟩
  · cases isConfigured with
    | false => exact ⟨_, _, rfl, rfl, rfl, rfl, rfl, rfl⟩
    | true =>
      -- the model answers, or fails
      obtain ⟨r, log', hr, hsame⟩ := inlineExtraction_sameOutputs cfg ρ
        [⟨.ext (.scrape (req.job req.effectiveFormats)), .ok result⟩] result extract
      simp only [if_true, execution_bind, List.nil_append, hr]
      exact ⟨_, _, rfl, hsame⟩

variable (cfg isConfigured ρ req) in
/-- The response to a request whose page can be loaded. -/
theorem scrapeHandler_page (hpage : loadPage web crawler (req.job []) = .ok page) : ∃ r,
    ((scrapeHandler cfg (.ok ()) isConfigured req).execution (ρ.scraping web crawler) []).1 = .ok ⟨true, r⟩ ∧
    r.SameOutputs (.ofFormats (req.job []) page req.requestedFormats) := by
  have hscrape : scrape web crawler (req.job req.effectiveFormats) =
      .ok (.ofFormats (req.job []) page req.effectiveFormats) := by
    rw [scrape_eq ((loadPage_job _).trans hpage), if_neg]
    · rfl
    · exact fun h => effectiveFormats_ne_nil (List.isEmpty_iff.mp h)
  have hanswer : ρ.scraping web crawler [] (.ext (.scrape (req.job req.effectiveFormats))) =
      .ok (.ofFormats (req.job []) page req.effectiveFormats) := hscrape
  obtain ⟨r, log', hr, hsame⟩ := scrapeHandler_scraped cfg isConfigured hanswer
  exact ⟨_, congrArg Prod.fst hr, (hide_sameOutputs hsame).trans (hide_ofFormats _)⟩

variable (cfg isConfigured ρ req) in
/-- A request whose page cannot be loaded has no response. -/
theorem scrapeHandler_noPage {e : AppError} (hpage : loadPage web crawler (req.job []) = .error e) :
    ((scrapeHandler cfg (.ok ()) isConfigured req).execution (ρ.scraping web crawler) []).1 = .error e := by
  have hanswer : ρ.scraping web crawler [] (.ext (.scrape (req.job req.effectiveFormats))) = .error e :=
    scrape_error ((loadPage_job _).trans hpage)
  unfold scrapeHandler
  rw [execution_bind, execution_ofExcept]
  simp only
  rw [execution_ext_bind, hanswer, execution_bind, execution_ofExcept]

end Handler

/-- **Extraction does not leak into the other outputs**: the response has a field for each requested format and
for no other one, and its fields are those of the response to the same request without extraction. -/
theorem scrapeHandler_formats (web : Web) (crawler : CrawlerConfig) (cfg : Config) (gate : Except AppError Unit)
    (isConfigured : Bool) (req : ScrapeRequest) (ρ ρ' : Answers) :
    let res := ((scrapeHandler cfg gate isConfigured req).execution (ρ.scraping web crawler) []).1
    let plain := ((scrapeHandler cfg gate isConfigured { req with extract := none }).execution
      (ρ'.scraping web crawler) []).1
    (∃ e, res = .error e ∧ plain = .error e) ∨
      ∃ r r', res = .ok r ∧ plain = .ok r' ∧ r.data.Carries req.requestedFormats ∧
        r.data.SameOutputs r'.data := by
  intro res plain
  rcases gate with e | u
  · exact .inl ⟨e, rfl, rfl⟩
  · rcases hpage : loadPage web crawler (req.job []) with e | page
    · exact .inl ⟨e, scrapeHandler_noPage cfg isConfigured req ρ hpage,
        scrapeHandler_noPage cfg isConfigured { req with extract := none } ρ' hpage⟩
    · obtain ⟨r, hr, hout⟩ := scrapeHandler_page cfg isConfigured req ρ hpage
      obtain ⟨r', hr', hout'⟩ :=
        scrapeHandler_page cfg isConfigured { req with extract := none } ρ' hpage
      have hformats : (ScrapeResult.ofFormats (req.job []) page req.requestedFormats).SameOutputs r' :=
        ScrapeResult.SameOutputs.symm ⟨hout'.markdown, hout'.html, hout'.rawHtml, hout'.links, hout'.json⟩
      exact .inr ⟨_, _, hr, hr', hout.carries (carries_ofFormats _),
        hout.trans hformats⟩

end FireCtrl
