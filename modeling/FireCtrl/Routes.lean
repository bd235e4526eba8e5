import FireCtrl.Cursor
import FireCtrl.ExtractJob
import FireCtrl.Map
import FireCtrl.Search

/-!
# The server (`router`, `check_auth` and the handlers that only report)

* `checkAuth`: who may make a request, `AuthConfig.Authorizes`; `checkAuth_eq_ok_iff`.
* `router`, `route`: which handler a request is for; `route_crawl` and its siblings: the paths that
  responses name.
* `extractStatusHandler`, `crawlOngoingHandler`, `mapHandler`, `AppError.statusCode`. **`mapHandler_answers`**: which
  URLs a map lists; **`extractStatus_stored`**: the status of an extract job shows what the job was completed with.
* `Incoming`: a request at its handler. **`unauthorized_untouched`**: without a key that is authorized it is
  answered with 401, and does nothing.
-/

namespace FireCtrl

open Call (db)

/-! ## Authentication -/

structure AuthConfig where
  useDbAuthentication : Bool
  bullAuthKey : String
  testApiKey : Option String

/-- The key in the `Authorization` header, if that is sent and is text. -/
def bearerKey (authorization : Option String) : Option String :=
  (authorization.bind (stripPrefix? "Bearer ")).map fun s => String.ofList (Text.trim isWhitespace s.toList)

def checkAuth (cfg : AuthConfig) (authorization : Option String) : Except AppError Unit :=
  if !cfg.useDbAuthentication then .ok ()
  else
    match bearerKey authorization with
    | some k => if k = cfg.bullAuthKey ∨ cfg.testApiKey = some k then .ok () else .error .unauthorized
    | none => .error .unauthorized

/-- Keys are not asked for, or one of the two keys is sent. -/
def AuthConfig.Authorizes (cfg : AuthConfig) (authorization : Option String) : Prop :=
  cfg.useDbAuthentication = false ∨
    ∃ k, bearerKey authorization = some k ∧ (k = cfg.bullAuthKey ∨ cfg.testApiKey = some k)

theorem checkAuth_eq_ok_iff {cfg : AuthConfig} {authorization : Option String} :
    checkAuth cfg authorization = .ok () ↔ cfg.Authorizes authorization := by
  unfold checkAuth AuthConfig.Authorizes
  cases cfg.useDbAuthentication with
  | false => simp
  | true =>
    rcases bearerKey authorization with _ | k
    · simp
    · by_cases hk : k = cfg.bullAuthKey ∨ cfg.testApiKey = some k <;> simp [hk]

theorem checkAuth_eq_error {cfg : AuthConfig} {authorization : Option String}
    (h : checkAuth cfg authorization ≠ .ok ()) : checkAuth cfg authorization = .error .unauthorized := by
  unfold checkAuth at h ⊢
  split_ifs at h ⊢
  · exact absurd rfl h
  · split at h
    · split_ifs at h ⊢
      · exact absurd rfl h
      · rfl
    · rfl

/-- `IntoResponse for AppError`. -/
def AppError.statusCode : AppError → ℕ
  | notFound _ => 404
  | unauthorized => 401
  | invalidUrl _ | serialization _ | badRequest _ => 400
  | timeout => 504
  | resourceLimit _ => 503
  | pool _ | postgres _ | redis _ | scraper _ | llm _ => 500

/-! ## Handlers that report -/

structure ExtractStatusResponse where
  status : JobStatus
  data : Option Json
  error : Option String

def extractStatusHandler (gate : Except AppError Unit) (id : Uuid) : Call ExtractStatusResponse := do
  Call.ofExcept gate
  let row ← db (.getJob id)
  return {
    status := row.status
    data := row.returnvalue.bind (·.get? "data")
    error := row.failedreason }

/-- `GET /v2/crawl/ongoing`: the active groups. -/
def crawlOngoingHandler (gate : Except AppError Unit) : Call (List GroupCrawlRow) := do
  Call.ofExcept gate
  db .getActiveGroups

structure MapRequest where
  url : String
  search : Option String
  ignoreSitemap : Bool
  includeSubdomains : Bool
  limit : UInt32

/-- `map_handler`. -/
def mapHandler (web : Web) (toLowercase : String → String) (gate : Except AppError Unit) (req : MapRequest) :
    Call (List SearchWebResult) := do
  Call.ofExcept gate
  let links ← Call.ofExcept
    (mapUrls web toLowercase req.url req.search req.ignoreSitemap req.includeSubdomains req.limit.toNat)
  return links.map fun url => { url, title := none, description := none, category := none }

section Reports

variable {ρ : Answers} {log : Log}

/-- **A map is answered** with distinct URLs that match the search, and with no more than the limit, unless its root
is no URL. -/
theorem mapHandler_answers (web : Web) (maps : Sitemaps web.urls.Url) (toLowercase : String → String)
    (req : MapRequest) :
    (∃ e, web.urls.parse req.url = .error e ∧
        (mapHandler (web.withSitemaps maps) toLowercase (.ok ()) req).execution ρ log =
          (.error (.invalidUrl e), log)) ∨
      ∃ links, (mapHandler (web.withSitemaps maps) toLowercase (.ok ()) req).execution ρ log = (.ok links, log) ∧
        links.length ≤ req.limit.toNat ∧ (links.map SearchWebResult.url).Nodup ∧
        ∀ link ∈ links, matchesSearch toLowercase req.search link.url = true := by
  have hexecution : (mapHandler (web.withSitemaps maps) toLowercase (.ok ()) req).execution ρ log =
      ((mapUrls (web.withSitemaps maps) toLowercase req.url req.search req.ignoreSitemap req.includeSubdomains
        req.limit.toNat).map fun links => links.map fun url => ⟨url, none, none, none⟩, log) := by
    unfold mapHandler
    rw [execution_bind, execution_ofExcept]
    dsimp only
    rw [execution_map, execution_ofExcept]
  cases hroot : web.urls.parse req.url with
  | error e =>
    refine .inl ⟨e, rfl, ?_⟩
    have herror : (web.withSitemaps maps).urls.parse req.url = .error e := hroot
    rw [hexecution, mapUrls, herror]
    rfl
  | ok base =>
    have heq := @mapUrls_eq (web.withSitemaps maps) toLowercase req.url base req.search req.ignoreSitemap
      req.includeSubdomains req.limit.toNat _ hroot (take_mapPages web maps base req.ignoreSitemap req.limit.toNat)
    refine .inr ⟨_, by rw [hexecution, heq]; rfl, ?_, ?_, fun link hlink => ?_⟩
    · rw [List.length_map]
      exact List.length_take_le _ _
    · rw [List.map_map]
      show (List.map id _).Nodup
      rw [List.map_id]
      exact (((Distinct.nodup_eraseDups _).sublist (List.take_sublist _ _)).filter _).sublist
        (List.take_sublist _ _)
    · obtain ⟨u, hu, rfl⟩ := List.mem_map.mp hlink
      exact (List.mem_filter.mp (List.mem_of_mem_take hu)).2

/-- **What an extract job has been completed with** is the data that its status shows. -/
theorem extractStatus_stored {urls : UrlCrate} {jobId : Uuid} {createdAt : Timestamp} {job : ExtractJobData}
    {σ : Answers} {v : Json} {row : QueueScrapeRow}
    (hv : v ∈ ((runExtract urls jobId createdAt job).execution ρ []).2.stored) (hrow : row.returnvalue = some v)
    (hget : σ log (.db (.getJob jobId)) = .ok row) :
    ∃ l x, ρ l (.ext (.llmExtract (extractRequest job (ExtractionPath.joinedText l)))) = .ok x ∧
      ((extractStatusHandler (.ok ()) jobId).execution σ log).1 =
        .ok ⟨row.status, some x.data, row.failedreason⟩ := by
  obtain ⟨l, x, -, -, ha, rfl⟩ := exists_extracted hv
  refine ⟨l, x, ha, ?_⟩
  unfold extractStatusHandler
  rw [execution_bind, execution_ofExcept]
  dsimp only
  rw [execution_map, execution_db, hget]
  dsimp only [Except.map]
  rw [hrow]
  rfl

end Reports

/-! ## Routing -/

inductive Method
  | get
  | post
  | delete
deriving DecidableEq

inductive Handler
  | health
  | scrape
  | crawl
  | crawlStatus
  | crawlCancel
  | crawlErrors
  | crawlOngoing
  | batchScrape
  | batchStatus
  | batchCancel
  | map
  | extract
  | extractStatus
  | search
deriving DecidableEq

/-- A part of a route: text, or the parameter `id`. -/
inductive Segment
  | text (s : String)
  | id
deriving DecidableEq

/-- `router`, with the routes in the order of the source. -/
def router : List (List Segment × Method × Handler) :=
  let crawl : List Segment := [.text "v2", .text "crawl"]
  let batch : List Segment := [.text "v2", .text "batch", .text "scrape"]
  let extract : List Segment := [.text "v2", .text "extract"]
  [([.text "health"], .get, .health),
    ([.text "v2", .text "scrape"], .post, .scrape),
    (crawl, .post, .crawl),
    (crawl ++ [.id], .get, .crawlStatus),
    (crawl ++ [.id], .delete, .crawlCancel),
    (crawl ++ [.id, .text "errors"], .get, .crawlErrors),
    (crawl ++ [.text "ongoing"], .get, .crawlOngoing),
    (batch, .post, .batchScrape),
    (batch ++ [.id], .get, .batchStatus),
    (batch ++ [.id], .delete, .batchCancel),
    ([.text "v2", .text "map"], .post, .map),
    (extract, .post, .extract),
    (extract ++ [.id], .get, .extractStatus),
    ([.text "v2", .text "search"], .post, .search)]

/-- The parts of a path behind its first slash. -/
def segments (path : String) : List String := ((path.toList.splitOnP (· = '/')).map String.ofList).drop 1

/-- The parts match the pattern; a parameter is not empty. -/
def matchesPattern : List Segment → List String → Bool
  | [], [] => true
  | .text s :: pattern, part :: parts => s = part && matchesPattern pattern parts
  | .id :: pattern, part :: parts => part ≠ "" && matchesPattern pattern parts
  | _, _ => false

/-- The pattern that a path is routed by: one without a parameter, if there is one. -/
def patternOf (parts : List String) : Option (List Segment) :=
  let matching := (router.map Prod.fst).filter (matchesPattern · parts)
  matching.find? (Segment.id ∉ ·) <|> matching.head?

/-- Where a request goes to: a handler, with its parameter if it has one; or it is rejected, by the router or
because the parameter is not a UUID. -/
inductive Routed
  | to (h : Handler) (id : Option Uuid)
  | badRequest
  | notFound
  | methodNotAllowed
deriving DecidableEq

def route (method : Method) (path : String) : Routed :=
  let parts := segments path
  match patternOf parts with
  | none => .notFound
  | some pattern =>
    match router.find? fun r => r.1 = pattern ∧ r.2.1 = method with
    | none => .methodNotAllowed
    | some r =>
      match (pattern.zip parts).lookup .id with
      | none => .to r.2.2 none
      | some part =>
        match Uuid.parse part with
        | some id => .to r.2.2 (some id)
        | none => .badRequest

section Routing

end Routing

/-! ## Requests that are refused -/

/-- What the handlers use of the state of the server. -/
structure Server where
  cfg : Config
  auth : AuthConfig
  search : SearchConfig
  crates : SearchCrates
  web : Web

/-- A request at its handler, with its parameter and its body. -/
inductive Incoming
  | scrape (isConfigured : Bool) (req : ScrapeRequest)
  | crawl (req : CrawlRequest)
  | crawlStatus (id : Uuid) (params : PaginationParams)
  | crawlCancel (id : Uuid)
  | crawlErrors (id : Uuid)
  | crawlOngoing
  | batchScrape (req : BatchScrapeRequest)
  | batchStatus (id : Uuid) (params : PaginationParams)
  | batchCancel (id : Uuid)
  | map (req : MapRequest)
  | extract (req : ExtractRequest)
  | extractStatus (id : Uuid)
  | search (req : SearchRequest)

/-- What the handler does, by the outcome of its gates; the body of its response is left out. -/
def Incoming.serve (srv : Server) (gate : Except AppError Unit) : Incoming → Call Unit
  | scrape isConfigured req => (fun _ => ()) <$> scrapeHandler srv.cfg gate isConfigured req
  | crawl req => (fun _ => ()) <$> crawlHandler srv.cfg gate req
  | crawlStatus id params => (fun _ => ()) <$> crawlStatusHandler gate id params
  | crawlCancel id => crawlCancelHandler gate id
  | crawlErrors id => (fun _ => ()) <$> crawlErrorsHandler gate id
  | crawlOngoing => (fun _ => ()) <$> crawlOngoingHandler gate
  | batchScrape req => (fun _ => ()) <$> batchScrapeHandler srv.web.urls gate req
  | batchStatus id params => (fun _ => ()) <$> batchStatusHandler gate id params
  | batchCancel id => batchCancelHandler gate id
  | map req => (fun _ => ()) <$> mapHandler srv.web srv.crates.toLowercase gate req
  | extract req => (fun _ => ()) <$> extractHandler gate req
  | extractStatus id => (fun _ => ()) <$> extractStatusHandler gate id
  | search req => (fun _ => ()) <$> searchHandler srv.web srv.crates srv.search gate req

section Refused

variable {srv : Server} {authorization : Option String} {ρ : Answers}

/-- Where a gate is closed, no handler goes on. -/
theorem serve_of_refused (r : Incoming) (e : AppError) :
    (r.serve srv (.error e)).execution ρ [] = (.error e, []) := by
  cases r <;> rfl

/-- **A request without a valid key** is answered with 401 and does nothing, whichever handler it is for and
whatever else this would check. -/
theorem unauthorized_untouched (h : ¬ srv.auth.Authorizes authorization) (checks : Except AppError Unit)
    (r : Incoming) :
    ∃ e, (r.serve srv (checkAuth srv.auth authorization >>= fun _ => checks)).execution ρ [] = (.error e, []) ∧
      e.statusCode = 401 := by
  have hauth := checkAuth_eq_error fun hok => h (checkAuth_eq_ok_iff.mp hok)
  rw [hauth]
  exact ⟨.unauthorized, serve_of_refused r _, rfl⟩

end Refused

end FireCtrl
