import FireCtrl.Worker

/-!
# The request handlers (`api.rs`)

* `scrapeHandler` scrapes while the client waits; `crawlHandler`, `batchScrapeHandler`,
  `extractHandler` enqueue a job; `crawlCancelHandler` is the `DELETE` of crawls and batches;
  `crawlStatusHandler`, `batchStatusHandler` and `crawlErrorsHandler` report on them.
* `jobData`: the data of the job that a request is about.
* Each handler starts with its gates (`check_auth` and the checks after it that touch nothing), given
  by their outcome.
-/

namespace FireCtrl

open Call (db ext)

/-- The result of a call as a value, to be matched on. -/
def Call.attempt {α : Type} (c : Call α) : Call (Except AppError α) := ExceptT.lift c.run

structure ScrapeResponse where
  success : Bool
  data : ScrapeResult

structure CrawlResponse where
  id : Uuid
  url : String

structure BatchScrapeResponse where
  id : Uuid
  url : String
  invalidUrls : List String

structure ExtractResponse where
  id : Uuid
  url : String

/-- The query of a `next` link, below `path`. -/
structure NextLink where
  path : String
  afterId : Uuid
  afterCreatedAt : Timestamp
  limit : Int64
deriving DecidableEq

structure CrawlStatusResponse where
  status : JobStatus
  total : UInt32
  completed : UInt32
  failed : UInt32
  creditsUsed : UInt32
  expiresAt : Option Timestamp
  next : Option NextLink
  data : List ScrapeResult

/-! ## Scraping -/

namespace ScrapeRequest

variable (req : ScrapeRequest)

def requestedFormats : List OutputFormat := if req.formats.isEmpty then [.markdown] else req.formats

/-- The formats to scrape: extraction needs one that carries text. -/
def effectiveFormats : List OutputFormat :=
  if req.extract.isSome ∧ .markdown ∉ req.requestedFormats ∧ .html ∉ req.requestedFormats ∧
      .rawHtml ∉ req.requestedFormats then
    req.requestedFormats ++ [.markdown]
  else req.requestedFormats

/-- The request as a scrape job, with the given formats. -/
def job (formats : List OutputFormat) : ScrapeJobData where
  url := req.url
  formats := formats
  onlyMainContent := req.onlyMainContent
  includeTags := req.includeTags
  excludeTags := req.excludeTags
  headers := req.headers
  waitFor := req.waitFor
  mobile := req.mobile
  timeout := req.timeout
  extract := req.extract
  actions := req.actions
  location := req.location
  webhook := req.webhook

/-- Hide what was only fetched to power the extraction. -/
def hide (result : ScrapeResult) : ScrapeResult :=
  { result with
    markdown := if .markdown ∈ req.requestedFormats then result.markdown else none
    html := if .html ∈ req.requestedFormats then result.html else none
    rawHtml := if .rawHtml ∈ req.requestedFormats then result.rawHtml else none }

end ScrapeRequest

/-- The extraction of `scrape_handler`, whose failure is only logged. -/
def inlineExtraction (cfg : Config) (result : ScrapeResult) (extract : ExtractOptions) :
    Call ScrapeResult := do
  let content := ((result.markdown <|> result.html <|> result.rawHtml).getD "")
  let totalChars := content.length
  let maxChars := cfg.llmMaxInputChars
  let cut : Bool := maxChars < totalChars
  let content := if cut then String.ofList (content.toList.take maxChars) else content
  let result : ScrapeResult :=
    if cut then
      { result with
        warning := some ("Extraction input was truncated from " ++ toString totalChars ++ " to " ++
          toString maxChars ++ " characters. Refine the prompt or request fewer fields for best " ++
          "results.") }
    else result
  let answer ← ext (.llmExtract {
    content
    prompt := extract.prompt.getD ""
    schema := extract.schema
    systemPrompt := extract.systemPrompt })
  match answer with
  | .ok ex =>
    return { result with
      extract := some ex.data
      warning :=
        match ex.warning, result.warning with
        | some w, some existing => some (existing ++ " " ++ w)
        | some w, none => some w
        | none, old => old }
  | .error _ => return result

/-- `scrape_handler`; `isConfigured` is `LlmConfig::is_configured`. -/
def scrapeHandler (cfg : Config) (gate : Except AppError Unit) (isConfigured : Bool)
    (req : ScrapeRequest) : Call ScrapeResponse := do
  Call.ofExcept gate
  let result ← Call.ofExcept (← ext (.scrape (req.job req.effectiveFormats)))
  let result ←
    match req.extract with
    | some extract => if isConfigured then inlineExtraction cfg result extract else pure result
    | none => pure result
  return { success := true, data := req.hide result }

/-! ## Enqueueing -/

def crawlHandler (cfg : Config) (gate : Except AppError Unit) (req : CrawlRequest) :
    Call CrawlResponse := do
  Call.ofExcept gate
  let maxDepth := min req.maxDepth cfg.crawlerMaxDepth
  let limit := min req.limit cfg.crawlerMaxPages
  let group ← db (.createCrawlGroup .nil 86400000)
  let jobData : JobEnvelope := .crawl
    { url := req.url
      maxDepth
      limit
      scrapeOptions := req.scrapeOptions
      allowBackwardLinks := req.allowBackwardLinks
      allowExternalLinks := req.allowExternalLinks
      ignoreSitemap := req.ignoreSitemap
      includePaths := req.includePaths
      excludePaths := req.excludePaths
      webhook := req.webhook
      priority := req.priority
      ttlMs := 86400000
      groupId := some group.id }
  let _ ← db (.enqueue (toValue jobData) req.priority none (some group.id) none)
  return { id := group.id, url := "/v2/crawl/" ++ group.id.toString }

def batchScrapeHandler (urls : UrlCrate) (gate : Except AppError Unit) (req : BatchScrapeRequest) :
    Call BatchScrapeResponse := do
  Call.ofExcept gate
  let valid (u : String) : Bool := (urls.parse u).toBool
  let jobData : JobEnvelope := .batchScrape
    { urls := req.urls.filter valid
      scrapeOptions := req.scrapeOptions
      webhook := req.webhook
      priority := req.priority }
  let row ← db (.enqueue (toValue jobData) req.priority none none none)
  return {
    id := row.id
    url := "/v2/batch/scrape/" ++ row.id.toString
    invalidUrls := req.urls.filter fun u => !valid u }

def extractHandler (gate : Except AppError Unit) (req : ExtractRequest) : Call ExtractResponse := do
  Call.ofExcept gate
  let jobData : JobEnvelope := .extract
    { urls := req.urls
      prompt := req.prompt
      schema := req.schema
      systemPrompt := req.systemPrompt
      allowExternalLinks := req.allowExternalLinks
      enableWebSearch := req.enableWebSearch
      ignoreInvalidUrls := req.ignoreInvalidUrls }
  let row ← db (.enqueue (toValue jobData) 0 none none none)
  return { id := row.id, url := "/v2/extract/" ++ row.id.toString }

/-- The job that `crawl_handler` enqueues. -/
def CrawlRequest.jobData (cfg : Config) (req : CrawlRequest) (group : Uuid) : CrawlJobData where
  url := req.url
  maxDepth := min req.maxDepth cfg.crawlerMaxDepth
  limit := min req.limit cfg.crawlerMaxPages
  scrapeOptions := req.scrapeOptions
  allowBackwardLinks := req.allowBackwardLinks
  allowExternalLinks := req.allowExternalLinks
  ignoreSitemap := req.ignoreSitemap
  includePaths := req.includePaths
  excludePaths := req.excludePaths
  webhook := req.webhook
  priority := req.priority
  ttlMs := 86400000
  groupId := some group

/-- The job that `batch_scrape_handler` enqueues. -/
def BatchScrapeRequest.jobData (urls : UrlCrate) (req : BatchScrapeRequest) : BatchScrapeJobData where
  urls := req.urls.filter fun u => (urls.parse u).toBool
  scrapeOptions := req.scrapeOptions
  webhook := req.webhook
  priority := req.priority

/-- The job that `extract_handler` enqueues. -/
def ExtractRequest.jobData (req : ExtractRequest) : ExtractJobData where
  urls := req.urls
  prompt := req.prompt
  schema := req.schema
  systemPrompt := req.systemPrompt
  allowExternalLinks := req.allowExternalLinks
  enableWebSearch := req.enableWebSearch
  ignoreInvalidUrls := req.ignoreInvalidUrls

/-! ## Cancelling -/

def crawlCancelHandler (gate : Except AppError Unit) (id : Uuid) : Call Unit := do
  Call.ofExcept gate
  match ← (db (.getCrawlGroup id)).attempt with
  | .ok _ => Call.cancelGroup id
  | .error (.notFound _) =>
    let job ← db (.getJob id)
    match job.groupId with
    | some groupId => Call.cancelGroup groupId
    | none => pure ()
    db (.cancelJob id)
  | .error e => throw e

/-- `batch_cancel_handler`. -/
def batchCancelHandler (gate : Except AppError Unit) (id : Uuid) : Call Unit :=
  crawlCancelHandler gate id

/-! ## Reporting -/

structure PaginationParams where
  limit : Option Int64
  afterId : Option Uuid
  afterCreatedAt : Option Timestamp

/-- `params.limit.unwrap_or(25).min(100)`. -/
def PaginationParams.pageLimit (params : PaginationParams) : Int64 :=
  let limit := params.limit.getD 25
  if limit ≤ 100 then limit else 100

/-- The scrape result in a row, if its return value decodes as one. -/
def QueueScrapeRow.result? (r : QueueScrapeRow) : Option ScrapeResult :=
  r.returnvalue.bind fromValue

def crawlStatusHandler (gate : Except AppError Unit) (id : Uuid) (params : PaginationParams) :
    Call CrawlStatusResponse := do
  Call.ofExcept gate
  let group ← db (.getCrawlGroup id)
  let counts ← db (.getGroupCounts id)
  let pageLimit := params.pageLimit
  let rows ← db (.getGroupResults id pageLimit params.afterId params.afterCreatedAt)
  let data := rows.filterMap QueueScrapeRow.result?
  let next :=
    if data.length = pageLimit.toUInt64.toNat then
      rows.getLast?.map fun r =>
        { path := "/v2/crawl/" ++ id.toString, afterId := r.id, afterCreatedAt := r.createdAt,
          limit := pageLimit : NextLink }
    else none
  let overallStatus : JobStatus :=
    match group.status with
    | .completed => .completed
    | .cancelled => .cancelled
    | .active => if counts.pending = 0 ∧ counts.total > 0 then .completed else .scraping
  return {
    status := overallStatus
    total := counts.total
    completed := counts.completed
    failed := counts.failed
    creditsUsed := counts.completed
    expiresAt := group.expiresAt
    next
    data }

def batchStatusHandler (gate : Except AppError Unit) (id : Uuid) (params : PaginationParams) :
    Call CrawlStatusResponse := do
  Call.ofExcept gate
  let job ← db (.getJob id)
  match job.groupId with
  | none =>
    return {
      status := job.status, total := 0, completed := 0, failed := 0, creditsUsed := 0,
      expiresAt := none, next := none, data := [] }
  | some groupId =>
    let group ← db (.getCrawlGroup groupId)
    let counts ← db (.getGroupCounts groupId)
    let pageLimit := params.pageLimit
    let rows ← db (.getGroupResults groupId pageLimit params.afterId params.afterCreatedAt)
    let data := rows.filterMap QueueScrapeRow.result?
    let next :=
      if data.length = pageLimit.toUInt64.toNat then
        rows.getLast?.map fun r =>
          { path := "/v2/batch/scrape/" ++ id.toString, afterId := r.id,
            afterCreatedAt := r.createdAt, limit := pageLimit : NextLink }
      else none
    let overallStatus : JobStatus :=
      match group.status with
      | .completed => .completed
      | .cancelled => .cancelled
      | .active => if counts.pending = 0 ∧ counts.total > 0 then .completed else .scraping
    return {
      status := overallStatus
      total := counts.total
      completed := counts.completed
      failed := counts.failed
      creditsUsed := counts.completed
      expiresAt := group.expiresAt
      next
      data }

structure CrawlError where
  id : Uuid
  timestamp : Timestamp
  url : String
  error : String

structure CrawlErrorsResponse where
  errors : List CrawlError
  robotsBlocked : List String

/-- What is reported of a failed row. -/
def QueueScrapeRow.crawlError (r : QueueScrapeRow) : CrawlError where
  id := r.id
  timestamp := r.createdAt
  url := (r.data.bind fun d => ((d.get? "payload").bind (·.get? "url")).bind Json.asStr).getD ""
  error := r.failedreason.getD "unknown"

def crawlErrorsHandler (gate : Except AppError Unit) (id : Uuid) : Call CrawlErrorsResponse := do
  Call.ofExcept gate
  let groupId ←
    match ← (db (.getCrawlGroup id)).attempt with
    | .ok _ => pure id
    | .error (.notFound _) =>
      let job ← db (.getJob id)
      match job.groupId with
      | some groupId => pure groupId
      | none => throw (.notFound id.toString)
    | .error e => throw e
  let rows ← db (.getGroupResults groupId 1000 none none)
  return {
    errors := (rows.filter fun r => r.status = .failed).map QueueScrapeRow.crawlError
    robotsBlocked := [] }

/-! ## Requests that write -/

inductive Request
  | crawl (gate : Except AppError Unit) (req : CrawlRequest)
  | batchScrape (gate : Except AppError Unit) (req : BatchScrapeRequest)
  | extract (gate : Except AppError Unit) (req : ExtractRequest)
  | cancel (gate : Except AppError Unit) (id : Uuid)

inductive Response
  | crawl (res : CrawlResponse)
  | batchScrape (res : BatchScrapeResponse)
  | extract (res : ExtractResponse)
  | cancelled

/-- The handler of a request. -/
def Request.handler (cfg : Config) (urls : UrlCrate) : Request → Call Response
  | crawl gate req => .crawl <$> crawlHandler cfg gate req
  | batchScrape gate req => .batchScrape <$> batchScrapeHandler urls gate req
  | extract gate req => .extract <$> extractHandler gate req
  | cancel gate id => (fun _ => .cancelled) <$> crawlCancelHandler gate id

end FireCtrl
