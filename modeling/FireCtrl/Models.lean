import FireCtrl.Json

/-!
# Domain models (`models.rs`)

* `AppError`, the status enums, the job envelopes stored in `queue_scrape.data`, the scrape results
  stored in `queue_scrape.returnvalue`, request and response shapes, and their JSON codecs.
* `subData`: the `data` of a page row written by the crawl and batch runners.
* `fromValue_crawl`, `fromValue_batchScrape`, `fromValue_extract`: what is read back from an encoded
  job; `fromValue_summary`: the summary of a parent job is not a scrape result.
-/

namespace FireCtrl

/-- Microseconds since the epoch (`timestamptz`, `DateTime<Utc>`). -/
abbrev Timestamp := ℤ

/-- `AppError`. The payload of a wrapped foreign error is its text. -/
inductive AppError
  | pool (e : String)
  | postgres (e : String)
  | redis (e : String)
  | scraper (e : String)
  | llm (e : String)
  | invalidUrl (e : String)
  | notFound (what : String)
  | unauthorized
  | serialization (e : String)
  | timeout
  | resourceLimit (e : String)
  | badRequest (e : String)
deriving DecidableEq

/-- `Display for AppError`. -/
protected def AppError.toString : AppError → String
  | pool e => "database pool error: " ++ e
  | postgres e => "postgres error: " ++ e
  | redis e => "redis error: " ++ e
  | scraper e => "scraper error: " ++ e
  | llm e => "LLM error: " ++ e
  | invalidUrl e => "invalid URL: " ++ e
  | notFound what => "not found: " ++ what
  | unauthorized => "unauthorized"
  | serialization e => "serialization error: " ++ e
  | timeout => "timeout"
  | resourceLimit e => "resource limit exceeded: " ++ e
  | badRequest e => "bad request: " ++ e

/-! ## Status enums -/

inductive JobStatus
  | queued
  | scraping
  | active
  | completed
  | failed
  | cancelled
deriving DecidableEq

inductive GroupStatus
  | active
  | completed
  | cancelled
deriving DecidableEq

/-! ## Output formats -/

inductive OutputFormat
  | markdown
  | html
  | rawHtml
  | screenshot
  | links
  | extract
  | json
deriving DecidableEq

namespace OutputFormat

/-- The variant names under `rename_all = "camelCase"`. -/
def name : OutputFormat → String
  | markdown => "markdown"
  | html => "html"
  | rawHtml => "rawHtml"
  | screenshot => "screenshot"
  | links => "links"
  | extract => "extract"
  | json => "json"

def ofName : String → Option OutputFormat
  | "markdown" => some markdown
  | "html" => some html
  | "rawHtml" => some rawHtml
  | "screenshot" => some screenshot
  | "links" => some links
  | "extract" => some extract
  | "json" => some json
  | _ => none

instance : Serde OutputFormat where
  toValue f := .str f.name
  fromValue v := v.variant?.bind ofName

end OutputFormat

/-! ## Shared sub-types -/

inductive PageAction
  | wait (milliseconds : UInt32)
  | click (selector : String)
  | screenshot
  | scroll (direction : String) (amount : Option UInt32)
  | write (text : String) (selector : String)
  | press (key : String)
  | executeJavascript (script : String)

namespace PageAction

/-- The struct variant `t` of an internally tagged enum, from its other fields. -/
def ofFields (t : String) (f : Fields) : Option PageAction :=
  match t with
  | "wait" => do return wait (← f.required 0 "milliseconds")
  | "click" => do return click (← f.required 0 "selector")
  | "screenshot" => some screenshot
  | "scroll" => do return scroll (← f.required 0 "direction") (← f.required 1 "amount")
  | "write" => do return write (← f.required 0 "text") (← f.required 1 "selector")
  | "press" => do return press (← f.required 0 "key")
  | "executeJavascript" => do return executeJavascript (← f.required 0 "script")
  | _ => none

/-- The number of fields that variant `t` may have in an array. -/
def arity : String → ℕ → Bool
  | "screenshot", n => n = 0
  | "scroll", n => n ≤ 2
  | "write", n => n ≤ 2
  | _, n => n ≤ 1

instance : Serde PageAction where
  toValue
    | wait ms => .obj [("type", .str "wait"), entry "milliseconds" ms]
    | click s => .obj [("type", .str "click"), entry "selector" s]
    | screenshot => .obj [("type", .str "screenshot")]
    | scroll d a => .obj [("type", .str "scroll"), entry "direction" d, entry "amount" a]
    | write t s => .obj [("type", .str "write"), entry "text" t, entry "selector" s]
    | press k => .obj [("type", .str "press"), entry "key" k]
    | executeJavascript s => .obj [("type", .str "executeJavascript"), entry "script" s]
  fromValue
    | .obj kvs =>
      match kvs.lookup "type" with
      | some (.str t) => ofFields t (.map (kvs.filter fun kv => kv.1 ≠ "type"))
      | _ => none
    | .arr (.str t :: xs) => if arity t xs.length then ofFields t (.seq xs) else none
    | _ => none

end PageAction

structure LocationOptions where
  country : Option String
  languages : Option (List String)

instance : Serde LocationOptions where
  toValue l := .obj [entry "country" l.country, entry "languages" l.languages]
  fromValue v := do
    let f ← Fields.of 2 v
    return {
      country := ← f.required 0 "country"
      languages := ← f.required 1 "languages" }

structure WebhookConfig where
  url : String
  headers : Option Json
  events : List String

instance : Serde WebhookConfig where
  toValue w := .obj [entry "url" w.url, entry "headers" w.headers, entry "events" w.events]
  fromValue v := do
    let f ← Fields.of 3 v
    return {
      url := ← f.required 0 "url"
      headers := ← f.orElse none 1 "headers"
      events := ← f.orElse [] 2 "events" }

structure ExtractOptions where
  prompt : Option String
  schema : Option Json
  systemPrompt : Option String

instance : Serde ExtractOptions where
  toValue o := .obj [entry "prompt" o.prompt, entry "schema" o.schema,
    entry "system_prompt" o.systemPrompt]
  fromValue v := do
    let f ← Fields.of 3 v
    return {
      prompt := ← f.required 0 "prompt"
      schema := ← f.required 1 "schema"
      systemPrompt := ← f.orElse none 2 "system_prompt" }

structure ScrapeOptions where
  formats : List OutputFormat
  onlyMainContent : Bool
  includeTags : List String
  excludeTags : List String
  headers : Option Json
  waitFor : UInt32
  mobile : Bool
  timeout : Option UInt32
  actions : List PageAction
  location : Option LocationOptions

/-- `#[derive(Default)]`. -/
def ScrapeOptions.default : ScrapeOptions where
  formats := []
  onlyMainContent := false
  includeTags := []
  excludeTags := []
  headers := none
  waitFor := 0
  mobile := false
  timeout := none
  actions := []
  location := none

instance : Serde ScrapeOptions where
  toValue o := .obj [entry "formats" o.formats, entry "only_main_content" o.onlyMainContent,
    entry "include_tags" o.includeTags, entry "exclude_tags" o.excludeTags,
    entry "headers" o.headers, entry "wait_for" o.waitFor, entry "mobile" o.mobile,
    entry "timeout" o.timeout, entry "actions" o.actions, entry "location" o.location]
  fromValue v := do
    let f ← Fields.of 10 v
    return {
      formats := ← f.orElse [] 0 "formats"
      onlyMainContent := ← f.orElse false 1 "only_main_content"
      includeTags := ← f.orElse [] 2 "include_tags"
      excludeTags := ← f.orElse [] 3 "exclude_tags"
      headers := ← f.orElse none 4 "headers"
      waitFor := ← f.orElse 0 5 "wait_for"
      mobile := ← f.orElse false 6 "mobile"
      timeout := ← f.orElse none 7 "timeout"
      actions := ← f.orElse [] 8 "actions"
      location := ← f.orElse none 9 "location" }

/-! ## Job envelopes -/

/-- `default_max_depth`. -/
def defaultMaxDepth : UInt32 := 5

/-- `default_max_pages`. -/
def defaultMaxPages : UInt32 := 100

/-- `default_map_limit`. -/
def defaultMapLimit : UInt32 := 5000

structure ScrapeJobData where
  url : String
  formats : List OutputFormat
  onlyMainContent : Bool
  includeTags : List String
  excludeTags : List String
  headers : Option Json
  waitFor : UInt32
  mobile : Bool
  timeout : Option UInt32
  extract : Option ExtractOptions
  actions : List PageAction
  location : Option LocationOptions
  webhook : Option String

instance : Serde ScrapeJobData where
  toValue j := .obj [entry "url" j.url, entry "formats" j.formats,
    entry "only_main_content" j.onlyMainContent, entry "include_tags" j.includeTags,
    entry "exclude_tags" j.excludeTags, entry "headers" j.headers, entry "wait_for" j.waitFor,
    entry "mobile" j.mobile, entry "timeout" j.timeout, entry "extract" j.extract,
    entry "actions" j.actions, entry "location" j.location, entry "webhook" j.webhook]
  fromValue v := do
    let f ← Fields.of 13 v
    return {
      url := ← f.required 0 "url"
      formats := ← f.orElse [] 1 "formats"
      onlyMainContent := ← f.orElse false 2 "only_main_content"
      includeTags := ← f.orElse [] 3 "include_tags"
      excludeTags := ← f.orElse [] 4 "exclude_tags"
      headers := ← f.orElse none 5 "headers"
      waitFor := ← f.orElse 0 6 "wait_for"
      mobile := ← f.orElse false 7 "mobile"
      timeout := ← f.orElse none 8 "timeout"
      extract := ← f.orElse none 9 "extract"
      actions := ← f.orElse [] 10 "actions"
      location := ← f.orElse none 11 "location"
      webhook := ← f.orElse none 12 "webhook" }

structure CrawlJobData where
  url : String
  maxDepth : UInt32
  limit : UInt32
  scrapeOptions : ScrapeOptions
  allowBackwardLinks : Bool
  allowExternalLinks : Bool
  ignoreSitemap : Bool
  includePaths : List String
  excludePaths : List String
  webhook : Option WebhookConfig
  priority : Int32
  ttlMs : Int64
  groupId : Option Uuid

instance : Serde CrawlJobData where
  toValue j := .obj [entry "url" j.url, entry "max_depth" j.maxDepth, entry "limit" j.limit,
    entry "scrape_options" j.scrapeOptions, entry "allow_backward_links" j.allowBackwardLinks,
    entry "allow_external_links" j.allowExternalLinks, entry "ignore_sitemap" j.ignoreSitemap,
    entry "include_paths" j.includePaths, entry "exclude_paths" j.excludePaths,
    entry "webhook" j.webhook, entry "priority" j.priority, entry "ttl_ms" j.ttlMs,
    entry "group_id" j.groupId]
  fromValue v := do
    let f ← Fields.of 13 v
    return {
      url := ← f.required 0 "url"
      maxDepth := ← f.orElse defaultMaxDepth 1 "max_depth"
      limit := ← f.orElse defaultMaxPages 2 "limit"
      scrapeOptions := ← f.orElse .default 3 "scrape_options"
      allowBackwardLinks := ← f.orElse false 4 "allow_backward_links"
      allowExternalLinks := ← f.orElse false 5 "allow_external_links"
      ignoreSitemap := ← f.orElse false 6 "ignore_sitemap"
      includePaths := ← f.orElse [] 7 "include_paths"
      excludePaths := ← f.orElse [] 8 "exclude_paths"
      webhook := ← f.orElse none 9 "webhook"
      priority := ← f.required 10 "priority"
      ttlMs := ← f.required 11 "ttl_ms"
      groupId := ← f.orElse none 12 "group_id" }

structure BatchScrapeJobData where
  urls : List String
  scrapeOptions : ScrapeOptions
  webhook : Option WebhookConfig
  priority : Int32

instance : Serde BatchScrapeJobData where
  toValue j := .obj [entry "urls" j.urls, entry "scrape_options" j.scrapeOptions,
    entry "webhook" j.webhook, entry "priority" j.priority]
  fromValue v := do
    let f ← Fields.of 4 v
    return {
      urls := ← f.required 0 "urls"
      scrapeOptions := ← f.orElse .default 1 "scrape_options"
      webhook := ← f.orElse none 2 "webhook"
      priority := ← f.required 3 "priority" }

structure ExtractJobData where
  urls : List String
  prompt : Option String
  schema : Option Json
  systemPrompt : Option String
  allowExternalLinks : Bool
  enableWebSearch : Bool
  ignoreInvalidUrls : Bool

instance : Serde ExtractJobData where
  toValue j := .obj [entry "urls" j.urls, entry "prompt" j.prompt, entry "schema" j.schema,
    entry "system_prompt" j.systemPrompt, entry "allow_external_links" j.allowExternalLinks,
    entry "enable_web_search" j.enableWebSearch, entry "ignore_invalid_urls" j.ignoreInvalidUrls]
  fromValue v := do
    let f ← Fields.of 7 v
    return {
      urls := ← f.required 0 "urls"
      prompt := ← f.required 1 "prompt"
      schema := ← f.required 2 "schema"
      systemPrompt := ← f.orElse none 3 "system_prompt"
      allowExternalLinks := ← f.orElse false 4 "allow_external_links"
      enableWebSearch := ← f.orElse false 5 "enable_web_search"
      ignoreInvalidUrls := ← f.orElse false 6 "ignore_invalid_urls" }

structure MapJobData where
  url : String
  search : Option String
  ignoreSitemap : Bool
  includeSubdomains : Bool
  limit : UInt32

instance : Serde MapJobData where
  toValue j := .obj [entry "url" j.url, entry "search" j.search,
    entry "ignore_sitemap" j.ignoreSitemap, entry "include_subdomains" j.includeSubdomains,
    entry "limit" j.limit]
  fromValue v := do
    let f ← Fields.of 5 v
    return {
      url := ← f.required 0 "url"
      search := ← f.orElse none 1 "search"
      ignoreSitemap := ← f.orElse false 2 "ignore_sitemap"
      includeSubdomains := ← f.orElse false 3 "include_subdomains"
      limit := ← f.orElse defaultMapLimit 4 "limit" }

/-- `JobEnvelope`, adjacently tagged by `kind` and `payload`. -/
inductive JobEnvelope
  | scrape (job : ScrapeJobData)
  | crawl (job : CrawlJobData)
  | batchScrape (job : BatchScrapeJobData)
  | extract (job : ExtractJobData)
  | map (job : MapJobData)

namespace JobEnvelope

/-- The two entries of an adjacently tagged value. -/
def tagged (kind : String) (payload : Json) : Json :=
  .obj [("kind", .str kind), ("payload", payload)]

/-- The variant `kind`, from its payload. -/
def ofPayload (kind : String) (payload : Json) : Option JobEnvelope :=
  match kind with
  | "scrape" => (fromValue payload).map scrape
  | "crawl" => (fromValue payload).map crawl
  | "batchscrape" => (fromValue payload).map batchScrape
  | "extract" => (fromValue payload).map extract
  | "map" => (fromValue payload).map map
  | _ => none

instance : Serde JobEnvelope where
  toValue
    | scrape j => tagged "scrape" (toValue j)
    | crawl j => tagged "crawl" (toValue j)
    | batchScrape j => tagged "batchscrape" (toValue j)
    | extract j => tagged "extract" (toValue j)
    | map j => tagged "map" (toValue j)
  fromValue v := do
    let f ← Fields.of 2 v
    let kind : Json ← f.required 0 "kind"
    let payload ← f.required 1 "payload"
    ofPayload (← kind.variant?) payload

end JobEnvelope

theorem fromValue_groupId (o : Option Uuid) : fromValue (toValue o) = some o := by
  cases o with
  | none => rfl
  | some u =>
    change (Uuid.parse u.toString).map some = _
    rw [Uuid.parse_toString]
    rfl

/-- What is read back from a crawl is a crawl with the same group. -/
theorem fromValue_crawl {job : CrawlJobData} {e : JobEnvelope}
    (h : fromValue (toValue (JobEnvelope.crawl job)) = some e) :
    ∃ job', e = .crawl job' ∧ job'.groupId = job.groupId := by
  have h' : (fromValue (toValue job)).map JobEnvelope.crawl = some e := h
  obtain ⟨job', hj, rfl⟩ := Option.map_eq_some_iff.mp h'
  refine ⟨job', rfl, ?_⟩
  -- the group is the last of thirteen fields
  obtain ⟨f, hf, hj⟩ := Option.bind_eq_some_iff.mp hj
  iterate 12 obtain ⟨_, -, hj⟩ := Option.bind_eq_some_iff.mp hj
  obtain ⟨g, hg, hj⟩ := Option.bind_eq_some_iff.mp hj
  cases hj
  obtain rfl := Option.some.inj hf
  have hl : fromValue (toValue job.groupId) = some g := hg
  rw [fromValue_groupId] at hl
  exact (Option.some.inj hl).symm

theorem fromValue_batchScrape {job : BatchScrapeJobData} {e : JobEnvelope}
    (h : fromValue (toValue (JobEnvelope.batchScrape job)) = some e) :
    ∃ job', e = .batchScrape job' := by
  have h' : (fromValue (toValue job)).map JobEnvelope.batchScrape = some e := h
  obtain ⟨job', -, rfl⟩ := Option.map_eq_some_iff.mp h'
  exact ⟨job', rfl⟩

theorem fromValue_extract {job : ExtractJobData} {e : JobEnvelope}
    (h : fromValue (toValue (JobEnvelope.extract job)) = some e) : ∃ job', e = .extract job' := by
  have h' : (fromValue (toValue job)).map JobEnvelope.extract = some e := h
  obtain ⟨job', -, rfl⟩ := Option.map_eq_some_iff.mp h'
  exact ⟨job', rfl⟩

/-! ## Scrape results -/

structure ScrapeMetadata where
  statusCode : UInt16
  contentType : Option String
  sourceUrl : String
  scrapeId : Option Uuid
  error : Option String

def ScrapeMetadata.entries (m : ScrapeMetadata) : List (String × Json) :=
  [entry "statusCode" m.statusCode] ++ optEntry "contentType" m.contentType ++
    [entry "sourceURL" m.sourceUrl] ++ optEntry "scrapeId" m.scrapeId ++ [entry "error" m.error]

instance : Serde ScrapeMetadata where
  toValue m := .obj m.entries
  fromValue v := do
    let f ← Fields.of 5 v
    return {
      statusCode := ← f.required 0 "statusCode"
      contentType := ← f.required 1 "contentType"
      sourceUrl := ← f.required 2 "sourceURL"
      scrapeId := ← f.required 3 "scrapeId"
      error := ← f.required 4 "error" }

structure ScrapeResult where
  url : String
  title : Option String
  markdown : Option String
  html : Option String
  rawHtml : Option String
  screenshot : Option String
  links : Option (List String)
  extract : Option Json
  json : Option Json
  warning : Option String
  metadata : ScrapeMetadata

def ScrapeResult.entries (r : ScrapeResult) : List (String × Json) :=
  [entry "url" r.url] ++ optEntry "title" r.title ++ optEntry "markdown" r.markdown ++
    optEntry "html" r.html ++ optEntry "rawHtml" r.rawHtml ++
    optEntry "screenshot" r.screenshot ++ optEntry "links" r.links ++
    optEntry "extract" r.extract ++ optEntry "json" r.json ++ optEntry "warning" r.warning ++
    [entry "metadata" r.metadata]

instance : Serde ScrapeResult where
  toValue r := .obj r.entries
  fromValue v := do
    let f ← Fields.of 11 v
    return {
      url := ← f.required 0 "url"
      title := ← f.required 1 "title"
      markdown := ← f.required 2 "markdown"
      html := ← f.required 3 "html"
      rawHtml := ← f.required 4 "rawHtml"
      screenshot := ← f.required 5 "screenshot"
      links := ← f.required 6 "links"
      extract := ← f.required 7 "extract"
      json := ← f.required 8 "json"
      warning := ← f.required 9 "warning"
      metadata := ← f.required 10 "metadata" }

/-- `{ "kind": "scrape", "payload": { "url": url, "formats": ["markdown"] } }`: the `data` of a page
row. -/
def subData (url : String) : Json :=
  .obj [("kind", .str "scrape"),
    ("payload", .obj [("url", .str url), ("formats", .arr [.str "markdown"])])]

/-- `{ "total": total, "group_id": group }`: what a finished crawl or batch job returns. -/
def summary (total : ℕ) (group : Uuid) : Json :=
  .obj [("total", .int total), ("group_id", toValue group)]

/-- The summary of a parent job is not a scrape result. -/
theorem fromValue_summary (total : ℕ) (group : Uuid) :
    (fromValue (summary total group) : Option ScrapeResult) = none := rfl

/-! ## Row types -/

structure QueueScrapeRow where
  id : Uuid
  status : JobStatus
  data : Option Json
  createdAt : Timestamp
  returnvalue : Option Json
  failedreason : Option String
  groupId : Option Uuid

structure GroupCrawlRow where
  id : Uuid
  status : GroupStatus
  createdAt : Timestamp
  ownerId : Uuid
  ttl : ℤ
  expiresAt : Option Timestamp
deriving DecidableEq

/-! ## Requests and responses -/

structure ScrapeRequest where
  url : String
  formats : List OutputFormat
  onlyMainContent : Bool
  includeTags : List String
  excludeTags : List String
  headers : Option Json
  waitFor : UInt32
  mobile : Bool
  timeout : Option UInt32
  extract : Option ExtractOptions
  actions : List PageAction
  location : Option LocationOptions
  webhook : Option String

structure CrawlRequest where
  url : String
  maxDepth : UInt32
  limit : UInt32
  scrapeOptions : ScrapeOptions
  allowBackwardLinks : Bool
  allowExternalLinks : Bool
  ignoreSitemap : Bool
  includePaths : List String
  excludePaths : List String
  webhook : Option WebhookConfig
  priority : Int32

/-- `Deserialize for CrawlRequest`. -/
def CrawlRequest.ofValue (v : Json) : Option CrawlRequest := do
  let f ← Fields.of 11 v
  return {
    url := ← f.required 0 "url"
    maxDepth := ← f.orElse defaultMaxDepth 1 "maxDepth"
    limit := ← f.orElse defaultMaxPages 2 "limit"
    scrapeOptions := ← f.orElse .default 3 "scrapeOptions"
    allowBackwardLinks := ← f.orElse false 4 "allowBackwardLinks"
    allowExternalLinks := ← f.orElse false 5 "allowExternalLinks"
    ignoreSitemap := ← f.orElse false 6 "ignoreSitemap"
    includePaths := ← f.orElse [] 7 "includePaths"
    excludePaths := ← f.orElse [] 8 "excludePaths"
    webhook := ← f.orElse none 9 "webhook"
    priority := ← f.orElse 0 10 "priority" }

structure BatchScrapeRequest where
  urls : List String
  scrapeOptions : ScrapeOptions
  webhook : Option WebhookConfig
  priority : Int32

/-- `Deserialize for BatchScrapeRequest`. -/
def BatchScrapeRequest.ofValue (v : Json) : Option BatchScrapeRequest := do
  let f ← Fields.of 4 v
  return {
    urls := ← f.required 0 "urls"
    scrapeOptions := ← f.orElse .default 1 "scrapeOptions"
    webhook := ← f.orElse none 2 "webhook"
    priority := ← f.orElse 0 3 "priority" }

structure ExtractRequest where
  urls : List String
  prompt : Option String
  schema : Option Json
  systemPrompt : Option String
  allowExternalLinks : Bool
  enableWebSearch : Bool
  ignoreInvalidUrls : Bool

/-- `Deserialize for ExtractRequest`. -/
def ExtractRequest.ofValue (v : Json) : Option ExtractRequest := do
  let f ← Fields.of 7 v
  return {
    urls := ← f.required 0 "urls"
    prompt := ← f.orElse none 1 "prompt"
    schema := ← f.orElse none 2 "schema"
    systemPrompt := ← f.orElse none 3 "systemPrompt"
    allowExternalLinks := ← f.orElse false 4 "allowExternalLinks"
    enableWebSearch := ← f.orElse false 5 "enableWebSearch"
    ignoreInvalidUrls := ← f.orElse false 6 "ignoreInvalidUrls" }

end FireCtrl
