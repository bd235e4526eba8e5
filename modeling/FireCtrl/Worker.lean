import FireCtrl.Effects

/-!
# The jobs (`worker.rs`)

`execute` runs the envelope of a claimed job: `runScrape`, `runCrawl`, `runBatchScrape`,
`runExtract`. The loop around it, `Worker::run`, is part of the system (`FireCtrl.System.Model`).

`joinPages` and `joinMarkdown` are the `join_next` loops; the number of tasks left bounds their
rounds.
-/

namespace FireCtrl

open Call (db ext)

/-- The settings that workers and handlers read. -/
structure Config where
  crawlerMaxDepth : UInt32
  crawlerMaxPages : UInt32
  jobTimeoutSeconds : UInt64
  maxStalls : UInt32
  llmMaxInputChars : ℕ

/-- What the program uses of the `url` crate. -/
structure UrlCrate where
  Url : Type
  parse : String → Except String Url
  hostStr : Url → Option String

/-- Fire a webhook, if there is one; whether it was delivered is ignored. -/
def fireWebhook (url : Option String) (payload : Json) : Call Unit :=
  match url with
  | some url => do let _ ← ext (.fireWebhook url payload)
  | none => pure ()

/-! ## Scrape -/

/-- `Worker::apply_extraction`. -/
def applyExtraction (cfg : Config) (result : ScrapeResult) (prompt : Option String)
    (schema : Option Json) (systemPrompt : Option String) : Call ScrapeResult := do
  let content := ((result.markdown <|> result.html).getD "")
  let totalChars := content.length
  let maxChars := cfg.llmMaxInputChars
  let cut : Bool := maxChars < totalChars
  let content := if cut then String.ofList (content.toList.take maxChars) else content
  let result : ScrapeResult :=
    if cut then
      { result with
        warning := some ("Extraction input was truncated from " ++ toString totalChars ++ " to " ++
          toString maxChars ++ " characters. Refine the prompt or request fewer fields for best " ++
          "results.") }
    else result
  let req : ExtractionRequest :=
    { content, schema, systemPrompt,
      prompt := prompt.getD "Extract all structured data from this page." }
  let answer ← ext (.llmExtract req)
  match answer with
  | .ok extraction =>
    return { result with
      extract := some extraction.data
      warning :=
        match extraction.warning, result.warning with
        | some w, some existing => some (existing ++ " " ++ w)
        | some w, none => some w
        | none, old => old }
  | .error e =>
    return { result with
      metadata := { result.metadata with error := some ("LLM extraction failed: " ++ e) } }

def runScrape (cfg : Config) (jobId : Uuid) (createdAt : Timestamp) (job : ScrapeJobData) :
    Call Unit := do
  let result ← Call.ofExcept (← ext (.scrape job))
  let result ←
    match job.extract with
    | some extract => applyExtraction cfg result extract.prompt extract.schema extract.systemPrompt
    | none => pure result
  db (.completeJob jobId createdAt (toValue result))
  fireWebhook job.webhook (.obj [("type", .str "scrape.completed"), entry "job_id" jobId,
    entry "data" result])

/-! ## Crawl -/

/-- Enqueue each page result as a completed sub-job under the group. -/
def storePages (jobId : Uuid) (group : Uuid) (job : CrawlJobData) : List ScrapeResult → Call Unit
  | [] => pure ()
  | pageResult :: results => do
    let _ ← db (.enqueueCompleted (subData pageResult.url) (toValue pageResult) job.priority none
      (some group) none)
    fireWebhook ((job.webhook.filter fun wh => wh.events.any (· = "page")).map (·.url))
      (.obj [("type", .str "crawl.page"), entry "job_id" jobId, entry "data" pageResult])
    storePages jobId group job results

/-- The group of a crawl: the one its data names, else a new one. -/
def crawlGroup (jobId : Uuid) (createdAt : Timestamp) (job : CrawlJobData) : Call GroupCrawlRow :=
  match job.groupId with
  | some gid => db (.getCrawlGroup gid)
  | none => do
    let g ← db (.createCrawlGroup .nil job.ttlMs)
    db (.updateJobGroup jobId createdAt g.id)
    pure g

def runCrawl (jobId : Uuid) (createdAt : Timestamp) (job : CrawlJobData) : Call Unit := do
  let group ← crawlGroup jobId createdAt job
  fireWebhook (job.webhook.map (·.url)) (.obj [("type", .str "crawl.started"),
    entry "job_id" jobId, entry "group_id" group.id])
  let results ← Call.ofExcept (← ext (.crawl {
    rootUrl := job.url
    maxDepth := job.maxDepth
    limit := job.limit
    scrapeOptions := job.scrapeOptions
    allowExternalLinks := job.allowExternalLinks
    ignoreSitemap := job.ignoreSitemap
    includePaths := job.includePaths
    excludePaths := job.excludePaths }))
  storePages jobId group.id job results
  db (.setGroupStatus group.id .completed)
  db (.completeJob jobId createdAt (summary results.length group.id))
  fireWebhook (job.webhook.map (·.url)) (.obj [("type", .str "crawl.completed"),
    entry "job_id" jobId, entry "group_id" group.id, ("total", .int results.length)])

/-! ## Batch scrape -/

/-- The scrape job of one URL of a batch. -/
def batchTask (job : BatchScrapeJobData) (url : String) : Task where
  url := url
  job :=
    { url
      formats := job.scrapeOptions.formats
      onlyMainContent := job.scrapeOptions.onlyMainContent
      includeTags := job.scrapeOptions.includeTags
      excludeTags := job.scrapeOptions.excludeTags
      headers := job.scrapeOptions.headers
      waitFor := job.scrapeOptions.waitFor
      mobile := job.scrapeOptions.mobile
      timeout := job.scrapeOptions.timeout
      extract := none
      actions := job.scrapeOptions.actions
      location := job.scrapeOptions.location
      webhook := none }

/-- Store the pages in the order in which their scrapes end. -/
def joinPages (group : Uuid) (job : BatchScrapeJobData) :
    ℕ → List Task → List ScrapeResult → Call (List ScrapeResult)
  | n + 1, t :: ts, results => do
    let (i, joined) ← ext (.joinNext t ts)
    let rest := (t :: ts).eraseIdx i
    match joined with
    | some (.ok r) =>
      let _ ← db (.enqueueCompleted (subData ((t :: ts).get i).url) (toValue r) job.priority none
        (some group) none)
      joinPages group job n rest (results ++ [r])
    -- a failed page and a panicked task are skipped
    | some (.error _) => joinPages group job n rest results
    | none => joinPages group job n rest results
  | _, _, results => pure results

def runBatchScrape (jobId : Uuid) (createdAt : Timestamp) (job : BatchScrapeJobData) :
    Call Unit := do
  let group ← db (.createCrawlGroup .nil 86400000)
  db (.updateJobGroup jobId createdAt group.id)
  let tasks := job.urls.map (batchTask job)
  let results ← joinPages group.id job tasks.length tasks []
  db (.setGroupStatus group.id .completed)
  db (.completeJob jobId createdAt (summary results.length group.id))
  fireWebhook (job.webhook.map (·.url)) (.obj [("type", .str "batch_scrape.completed"),
    entry "job_id" jobId, ("total", .int results.length)])

/-! ## Extract -/

/-- The scrape job of one URL of an extract job. -/
def extractTask (url : String) : Task where
  url := url
  job :=
    { url
      formats := [.markdown]
      onlyMainContent := true
      includeTags := []
      excludeTags := []
      headers := none
      waitFor := 0
      mobile := false
      timeout := none
      extract := none
      actions := []
      location := none
      webhook := none }

/-- The URLs that an extract job scrapes: without `allow_external_links`, those that do not parse
and those on the host of the first one. -/
def extractUrls (urls : UrlCrate) (job : ExtractJobData) : List String :=
  let host (u : String) : Option (Option String) := (urls.parse u).toOption.map urls.hostStr
  let originHost := job.urls.head?.bind fun u => (host u).join
  job.urls.filter fun url =>
    match originHost, host url with
    | some origin, some h => job.allowExternalLinks || h.getD "" = origin
    | _, _ => true

/-- Join the pages in the order in which their scrapes end. -/
def joinMarkdown : ℕ → List Task → String → Call String
  | n + 1, t :: ts, content => do
    let (i, joined) ← ext (.joinNext t ts)
    let rest := (t :: ts).eraseIdx i
    match joined with
    | some (.ok r) =>
      match r.markdown with
      | some md =>
        joinMarkdown n rest (content ++ "## " ++ ((t :: ts).get i).url ++ "\n\n" ++ md ++ "\n\n")
      | none => joinMarkdown n rest content
    -- `ignore_invalid_urls` only decides whether the failure is logged
    | some (.error _) => joinMarkdown n rest content
    | none => joinMarkdown n rest content
  | _, _, content => pure content

def runExtract (urls : UrlCrate) (jobId : Uuid) (createdAt : Timestamp) (job : ExtractJobData) :
    Call Unit := do
  let tasks := (extractUrls urls job).map extractTask
  let combinedContent ← joinMarkdown tasks.length tasks ""
  let extraction ← ext (.llmExtract {
    content := combinedContent
    prompt := job.prompt.getD "Extract all relevant information."
    schema := job.schema
    systemPrompt := job.systemPrompt })
  match extraction with
  | .error e => throw (.llm e)
  | .ok extraction => db (.completeJob jobId createdAt (.obj [("data", extraction.data)]))

/-! ## Dispatch -/

/-- `Worker::execute`. -/
def execute (cfg : Config) (urls : UrlCrate) (jobId : Uuid) (createdAt : Timestamp) :
    JobEnvelope → Call Unit
  | .scrape job => runScrape cfg jobId createdAt job
  | .crawl job => runCrawl jobId createdAt job
  | .batchScrape job => runBatchScrape jobId createdAt job
  | .extract job => runExtract urls jobId createdAt job
  | .map _ => throw (.badRequest "map jobs are synchronous and must not be enqueued")

end FireCtrl
