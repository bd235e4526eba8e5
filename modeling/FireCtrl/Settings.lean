import FireCtrl.Lib.Decimal
import FireCtrl.Lib.Loader
import FireCtrl.Lib.Words
import FireCtrl.Llm
import FireCtrl.Routes

/-!
# Settings

`Config::from_env`: the settings of a process, read from its environment.

* `envRequired`, `parseUnsigned`, `parseBool`: one variable and its value.
* `Config.fromEnv`: the settings, section by section; `Config.checks`: what it requires of the environment, in
  order. `reports_fromEnv`.
* **`fromEnv_checked`**: the settings are refused exactly with the first requirement that is not met.
* `Config.environment`: variables from which settings are read back; **`exists_fromEnv_iff`**: the settings that
  an environment can give.
-/

namespace FireCtrl.Settings

open Loader (Reports)

/-- The variables of a process, with those of its `.env` file; `none` if one is unset or not Unicode. -/
abbrev Environment := String → Option String

abbrev Load (α : Type) := ReaderT Environment (Except String) α

/-! ## One variable -/

def missing (key : String) : String := "Missing required env var: " ++ key

def invalid (type key raw hint : String) : String :=
  "Invalid " ++ type ++ " value for env var " ++ key ++ ": " ++ raw ++ hint

def envRequiredStr (key : String) : Load String := fun env =>
  match env key with
  | some v => .ok v
  | none => .error (missing key)

def envOpt (key : String) : Load (Option String) := fun env => .ok ((env key).filter (· ≠ ""))

/-- A variable with a value of a type that has texts. -/
def envRequired {α : Type} (type hint : String) (parse : String → Option α) (key : String) : Load α := do
  let raw ← envRequiredStr key
  match parse raw with
  | some v => pure v
  | none => throw (invalid type key raw hint)

def dropPlus : List Char → List Char
  | [] => []
  | c :: t => if c = '+' then t else c :: t

/-- `str::parse` of an unsigned integer. -/
def parseUnsigned (bits : ℕ) (raw : String) : Option ℕ :=
  (Text.readDigits (dropPlus raw.toList)).filter (· < 2 ^ bits)

def parseU16 (raw : String) : Option UInt16 := (parseUnsigned 16 raw).map UInt16.ofNat

def parseU32 (raw : String) : Option UInt32 := (parseUnsigned 32 raw).map UInt32.ofNat

def parseU64 (raw : String) : Option UInt64 := (parseUnsigned 64 raw).map UInt64.ofNat

def parseBool (raw : String) : Option Bool :=
  if raw = "true" ∨ raw = "1" ∨ raw = "yes" then some true
  else if raw = "false" ∨ raw = "0" ∨ raw = "no" then some false
  else none

def envRequiredU16 : String → Load UInt16 := envRequired "u16" "" parseU16

def envRequiredU32 : String → Load UInt32 := envRequired "u32" "" parseU32

def envRequiredU64 : String → Load UInt64 := envRequired "u64" "" parseU64

def envRequiredUsize : String → Load ℕ := envRequired "usize" "" (parseUnsigned 64)

def envRequiredBool : String → Load Bool :=
  envRequired "bool" " (expected true/false, 1/0, yes/no)" parseBool

/-! ## The settings -/

structure ServerConfig where
  host : String
  port : UInt16
  corsAllowOrigins : List String

structure DatabaseConfig where
  host : String
  port : UInt16
  database : String
  user : String
  password : String
  maxConnections : ℕ

structure RedisConfig where
  url : String
  rateLimitUrl : String

structure CrawlerConfig extends FireCtrl.CrawlerConfig where
  maxDepth : UInt32
  maxPages : UInt32
  concurrentRequests : UInt32
  userAgent : String
  browserPoolSize : UInt32

structure WorkerConfig where
  numWorkers : UInt32
  maxConcurrentJobs : UInt32
  jobTimeoutSeconds : UInt64
  maxStalls : UInt32

structure AuthConfig extends FireCtrl.AuthConfig where
  allowLocalWebhooks : Bool

structure ProxyConfig where
  server : Option String
  username : Option String
  password : Option String

structure ResourceConfig (F64 : Type) where
  maxCpu : F64
  maxRam : F64

structure Config (F64 : Type) where
  server : ServerConfig
  database : DatabaseConfig
  redis : RedisConfig
  llm : LlmConfig
  crawler : CrawlerConfig
  worker : WorkerConfig
  auth : AuthConfig
  proxy : ProxyConfig
  search : SearchConfig
  resource : ResourceConfig F64

/-! ## Loading them -/

/-- The origins of `CORS_ALLOW_ORIGINS`. -/
def splitOrigins (raw : String) : List String :=
  (((raw.toList.splitOn ',').map (Text.trim isWhitespace)).filter fun o => !o.isEmpty).map String.ofList

def ServerConfig.fromEnv : Load ServerConfig := do
  let raw ← envOpt "CORS_ALLOW_ORIGINS"
  let host ← envRequiredStr "HOST"
  let port ← envRequiredU16 "PORT"
  pure { host, port, corsAllowOrigins := (raw.map splitOrigins).getD [] }

def DatabaseConfig.fromEnv : Load DatabaseConfig := do
  let host ← envRequiredStr "POSTGRES_HOST"
  let port ← envRequiredU16 "POSTGRES_PORT"
  let database ← envRequiredStr "POSTGRES_DB"
  let user ← envRequiredStr "POSTGRES_USER"
  let password ← envRequiredStr "POSTGRES_PASSWORD"
  let maxConnections ← envRequiredUsize "DATABASE_MAX_CONNECTIONS"
  pure { host, port, database, user, password, maxConnections }

def RedisConfig.fromEnv : Load RedisConfig := do
  let url ← envRequiredStr "REDIS_URL"
  let rateLimitUrl ← envRequiredStr "REDIS_RATE_LIMIT_URL"
  pure { url, rateLimitUrl }

/-- `LLM_MAX_INPUT_CHARS`, which may not be 0. -/
def maxInputCharsFromEnv : Load ℕ := do
  let v ← envRequiredUsize "LLM_MAX_INPUT_CHARS"
  if v = 0 then throw "LLM_MAX_INPUT_CHARS must be > 0"
  else pure v

/-- The URL of Ollama, or else that of OpenAI. -/
def baseUrlFromEnv (ollama : Option String) : Load String :=
  match ollama with
  | some o => pure o
  | none => envRequiredStr "OPENAI_BASE_URL"

def LlmConfig.fromEnv : Load LlmConfig := do
  let ollama ← envOpt "OLLAMA_BASE_URL"
  let baseUrl ← baseUrlFromEnv ollama
  let apiKey ← envOpt "OPENAI_API_KEY"
  let modelName ← envRequiredStr "MODEL_NAME"
  let embeddingModel ← envOpt "MODEL_EMBEDDING_NAME"
  let timeoutSeconds ← envRequiredU64 "LLM_TIMEOUT_SECONDS"
  let maxRetries ← envRequiredU32 "LLM_MAX_RETRIES"
  let maxInputChars ← maxInputCharsFromEnv
  pure { baseUrl, apiKey := apiKey.getD "", modelName, embeddingModel, ollamaBaseUrl := ollama,
         timeoutSeconds, maxRetries, maxInputChars }

def CrawlerConfig.fromEnv : Load CrawlerConfig := do
  let maxDepth ← envRequiredU32 "CRAWLER_MAX_DEPTH"
  let maxPages ← envRequiredU32 "CRAWLER_MAX_PAGES"
  let concurrentRequests ← envRequiredU32 "CRAWL_CONCURRENT_REQUESTS"
  let requestTimeoutSeconds ← envRequiredU64 "CRAWLER_REQUEST_TIMEOUT_SECONDS"
  let userAgent ← envRequiredStr "CRAWLER_USER_AGENT"
  let respectRobotsTxt ← envRequiredBool "CRAWLER_RESPECT_ROBOTS_TXT"
  let playwrightUrl ← envOpt "PLAYWRIGHT_MICROSERVICE_URL"
  let browserPoolSize ← envRequiredU32 "BROWSER_POOL_SIZE"
  pure { maxDepth, maxPages, concurrentRequests, requestTimeoutSeconds, userAgent, respectRobotsTxt,
         playwrightUrl, browserPoolSize }

def WorkerConfig.fromEnv : Load WorkerConfig := do
  let numWorkers ← envRequiredU32 "NUM_WORKERS_PER_QUEUE"
  let maxConcurrentJobs ← envRequiredU32 "MAX_CONCURRENT_JOBS"
  let jobTimeoutSeconds ← envRequiredU64 "WORKER_JOB_TIMEOUT_SECONDS"
  let maxStalls ← envRequiredU32 "WORKER_MAX_STALLS"
  pure { numWorkers, maxConcurrentJobs, jobTimeoutSeconds, maxStalls }

def AuthConfig.fromEnv : Load AuthConfig := do
  let useDbAuthentication ← envRequiredBool "USE_DB_AUTHENTICATION"
  let testApiKey ← envOpt "TEST_API_KEY"
  let bullAuthKey ← envRequiredStr "BULL_AUTH_KEY"
  let allowLocalWebhooks ← envRequiredBool "ALLOW_LOCAL_WEBHOOKS"
  pure { useDbAuthentication, testApiKey, bullAuthKey, allowLocalWebhooks }

def ProxyConfig.fromEnv : Load ProxyConfig := do
  let server ← envOpt "PROXY_SERVER"
  let username ← envOpt "PROXY_USERNAME"
  let password ← envOpt "PROXY_PASSWORD"
  pure { server, username, password }

def SearchConfig.fromEnv : Load SearchConfig := do
  let searxngEndpoint ← envOpt "SEARXNG_ENDPOINT"
  let searxngEngines ← envOpt "SEARXNG_ENGINES"
  let searxngCategories ← envOpt "SEARXNG_CATEGORIES"
  pure { searxngEndpoint, searxngEngines, searxngCategories }

section Loading

variable {F64 : Type} (parseF64 : String → Option F64)

def envRequiredF64 : String → Load F64 := envRequired "f64" "" parseF64

def ResourceConfig.fromEnv : Load (ResourceConfig F64) := do
  let maxCpu ← envRequiredF64 parseF64 "MAX_CPU"
  let maxRam ← envRequiredF64 parseF64 "MAX_RAM"
  pure { maxCpu, maxRam }

def Config.fromEnv : Load (Config F64) := do
  let server ← ServerConfig.fromEnv
  let database ← DatabaseConfig.fromEnv
  let redis ← RedisConfig.fromEnv
  let llm ← LlmConfig.fromEnv
  let crawler ← CrawlerConfig.fromEnv
  let worker ← WorkerConfig.fromEnv
  let auth ← AuthConfig.fromEnv
  let proxy ← ProxyConfig.fromEnv
  let search ← SearchConfig.fromEnv
  let resource ← ResourceConfig.fromEnv parseF64
  pure { server, database, redis, llm, crawler, worker, auth, proxy, search, resource }

end Loading

/-! ## What is required of the environment -/

/-- A requirement, with the error if it is not met. -/
abbrev Check := Environment → Option String

def isSet (key : String) : Check := fun env => if (env key).isSome then none else some (missing key)

/-- The variable is set to a text of the type. -/
def isOf {α : Type} (type hint : String) (parse : String → Option α) (key : String) : Check := fun env =>
  match env key with
  | none => some (missing key)
  | some raw => if (parse raw).isSome then none else some (invalid type key raw hint)

def isU16 : String → Check := isOf "u16" "" parseU16

def isU32 : String → Check := isOf "u32" "" parseU32

def isU64 : String → Check := isOf "u64" "" parseU64

def isUsize : String → Check := isOf "usize" "" (parseUnsigned 64)

def isBool : String → Check := isOf "bool" " (expected true/false, 1/0, yes/no)" parseBool

/-- `OPENAI_BASE_URL` is required unless there is the URL of Ollama. -/
def hasBaseUrl : Check := fun env =>
  if ((env "OLLAMA_BASE_URL").filter (· ≠ "")).isSome then none else isSet "OPENAI_BASE_URL" env

def isPositive : Check := fun env =>
  if (env "LLM_MAX_INPUT_CHARS").bind (parseUnsigned 64) = some 0 then
    some "LLM_MAX_INPUT_CHARS must be > 0"
  else none

def ServerConfig.checks : List Check := [isSet "HOST", isU16 "PORT"]

def DatabaseConfig.checks : List Check :=
  [isSet "POSTGRES_HOST", isU16 "POSTGRES_PORT", isSet "POSTGRES_DB", isSet "POSTGRES_USER",
    isSet "POSTGRES_PASSWORD", isUsize "DATABASE_MAX_CONNECTIONS"]

def RedisConfig.checks : List Check := [isSet "REDIS_URL", isSet "REDIS_RATE_LIMIT_URL"]

def LlmConfig.checks : List Check :=
  [hasBaseUrl, isSet "MODEL_NAME", isU64 "LLM_TIMEOUT_SECONDS", isU32 "LLM_MAX_RETRIES",
    isUsize "LLM_MAX_INPUT_CHARS", isPositive]

def CrawlerConfig.checks : List Check :=
  [isU32 "CRAWLER_MAX_DEPTH", isU32 "CRAWLER_MAX_PAGES", isU32 "CRAWL_CONCURRENT_REQUESTS",
    isU64 "CRAWLER_REQUEST_TIMEOUT_SECONDS", isSet "CRAWLER_USER_AGENT", isBool "CRAWLER_RESPECT_ROBOTS_TXT",
    isU32 "BROWSER_POOL_SIZE"]

def WorkerConfig.checks : List Check :=
  [isU32 "NUM_WORKERS_PER_QUEUE", isU32 "MAX_CONCURRENT_JOBS", isU64 "WORKER_JOB_TIMEOUT_SECONDS",
    isU32 "WORKER_MAX_STALLS"]

def AuthConfig.checks : List Check :=
  [isBool "USE_DB_AUTHENTICATION", isSet "BULL_AUTH_KEY", isBool "ALLOW_LOCAL_WEBHOOKS"]

def ResourceConfig.checks {F64 : Type} (parseF64 : String → Option F64) : List Check :=
  [isOf "f64" "" parseF64 "MAX_CPU", isOf "f64" "" parseF64 "MAX_RAM"]

def Config.checks {F64 : Type} (parseF64 : String → Option F64) : List Check :=
  ServerConfig.checks ++ DatabaseConfig.checks ++ RedisConfig.checks ++ LlmConfig.checks ++
    CrawlerConfig.checks ++ WorkerConfig.checks ++ AuthConfig.checks ++ ResourceConfig.checks parseF64

/-! ## Settings that can be given -/

/-- A text without commas and without blanks at its ends. -/
def IsOrigin (o : String) : Prop := o ≠ "" ∧ ',' ∉ o.toList ∧ Text.trim isWhitespace o.toList = o.toList

def ServerConfig.WellFormed (c : ServerConfig) : Prop := ∀ o ∈ c.corsAllowOrigins, IsOrigin o

def DatabaseConfig.WellFormed (c : DatabaseConfig) : Prop := c.maxConnections < 2 ^ 64

structure LlmConfig.WellFormed (c : LlmConfig) : Prop where
  ollama : ∀ o, c.ollamaBaseUrl = some o → c.baseUrl = o ∧ o ≠ ""
  embeddingModel : c.embeddingModel ≠ some ""
  maxInputChars : 0 < c.maxInputChars ∧ c.maxInputChars < 2 ^ 64

def CrawlerConfig.WellFormed (c : CrawlerConfig) : Prop := c.playwrightUrl ≠ some ""

def AuthConfig.WellFormed (c : AuthConfig) : Prop := c.testApiKey ≠ some ""

structure ProxyConfig.WellFormed (c : ProxyConfig) : Prop where
  server : c.server ≠ some ""
  username : c.username ≠ some ""
  password : c.password ≠ some ""

structure SearchConfig.WellFormed (c : SearchConfig) : Prop where
  searxngEndpoint : c.searxngEndpoint ≠ some ""
  searxngEngines : c.searxngEngines ≠ some ""
  searxngCategories : c.searxngCategories ≠ some ""

/-- The limits have texts. -/
def ResourceConfig.WellFormed {F64 : Type} (parseF64 : String → Option F64) (c : ResourceConfig F64) : Prop :=
  (∃ raw, parseF64 raw = some c.maxCpu) ∧ ∃ raw, parseF64 raw = some c.maxRam

/-- What the loader promises of the settings: all else may have any value. -/
structure Config.WellFormed {F64 : Type} (parseF64 : String → Option F64) (c : Config F64) : Prop where
  server : c.server.WellFormed
  database : c.database.WellFormed
  llm : LlmConfig.WellFormed c.llm
  crawler : c.crawler.WellFormed
  auth : c.auth.WellFormed
  proxy : c.proxy.WellFormed
  search : SearchConfig.WellFormed c.search
  resource : c.resource.WellFormed parseF64

/-! ## Reading a variable -/

section Variables

variable {α : Type} {type hint : String} {parse : String → Option α} {key raw : String} {env : Environment} {v : α}

theorem envRequiredStr_run_some (h : env key = some raw) : (envRequiredStr key).run env = .ok raw := by
  simp only [envRequiredStr, ReaderT.run, h]

theorem envRequiredStr_run_none (h : env key = none) : (envRequiredStr key).run env = .error (missing key) := by
  simp only [envRequiredStr, ReaderT.run, h]

theorem envRequired_run_some (h : env key = some raw) (hv : parse raw = some v) :
    (envRequired type hint parse key).run env = .ok v := by
  rw [envRequired, Loader.run_bind_ok (envRequiredStr_run_some h), hv]
  rfl

theorem envRequired_run_none (h : env key = none) :
    (envRequired type hint parse key).run env = .error (missing key) := by
  rw [envRequired, Loader.run_bind_error (envRequiredStr_run_none h)]

theorem envRequired_run_invalid (h : env key = some raw) (hraw : parse raw = none) :
    (envRequired type hint parse key).run env = .error (invalid type key raw hint) := by
  rw [envRequired, Loader.run_bind_ok (envRequiredStr_run_some h), hraw]
  rfl

theorem reports_envRequiredStr (key : String) (env : Environment) :
    Reports env (envRequiredStr key) [isSet key] fun v => env key = some v := by
  cases h : env key with
  | none =>
    have hcheck : isSet key env = some (missing key) := by
      rw [isSet, h]
      rfl
    exact Reports.fails (envRequiredStr_run_none h) hcheck
  | some v =>
    have hcheck : isSet key env = none := by
      rw [isSet, h]
      rfl
    exact Reports.passes (envRequiredStr_run_some h) hcheck rfl

/-- A variable is checked, and what is read is its value. -/
theorem reports_envRequired (type hint : String) (parse : String → Option α) (key : String) (env : Environment) :
    Reports env (envRequired type hint parse key) [isOf type hint parse key] fun v =>
      (env key).bind parse = some v := by
  cases h : env key with
  | none =>
    have hcheck : isOf type hint parse key env = some (missing key) := by simp only [isOf, h]
    exact Reports.fails (envRequired_run_none h) hcheck
  | some raw =>
    cases hraw : parse raw with
    | none =>
      have hcheck : isOf type hint parse key env = some (invalid type key raw hint) := by
        simp [isOf, h, hraw]
      exact Reports.fails (envRequired_run_invalid h hraw) hcheck
    | some v =>
      have hcheck : isOf type hint parse key env = none := by simp [isOf, h, hraw]
      exact Reports.passes (envRequired_run_some h hraw) hcheck hraw

theorem reports_envOpt (key : String) (env : Environment) :
    Reports env (envOpt key) [] fun o => o = (env key).filter (· ≠ "") := by
  constructor
  · intro e he
    cases he
  · intro o ho
    cases ho
    exact ⟨rfl, rfl⟩

end Variables

theorem parseUnsigned_lt {bits n : ℕ} {raw : String} (h : parseUnsigned bits raw = some n) : n < 2 ^ bits := by
  unfold parseUnsigned at h
  exact of_decide_eq_true (Option.filter_eq_some_iff.mp h).2

theorem bind_parseUnsigned_lt {bits n : ℕ} {o : Option String} (h : o.bind (parseUnsigned bits) = some n) :
    n < 2 ^ bits := by
  obtain ⟨raw, -, hraw⟩ := Option.bind_eq_some_iff.mp h
  exact parseUnsigned_lt hraw

theorem filter_ne_some_empty (o : Option String) : o.filter (· ≠ "") ≠ some "" := by
  intro h
  have hne := (Option.filter_eq_some_iff.mp h).2
  exact absurd rfl (of_decide_eq_true hne)

/-! ## Reading a section -/

section Sections

variable (env : Environment)

theorem isOrigin_of_mem_splitOrigins {raw o : String} (h : o ∈ splitOrigins raw) : IsOrigin o := by
  unfold splitOrigins at h
  obtain ⟨t, ht, rfl⟩ := List.mem_map.mp h
  obtain ⟨hmem, hne⟩ := List.mem_filter.mp ht
  obtain ⟨w, hw, rfl⟩ := List.mem_map.mp hmem
  rw [List.splitOn_eq_splitOnP] at hw
  have hcomma : ∀ c ∈ w, (c == ',') = false := Text.forall_of_mem_splitOnP hw
  refine ⟨?_, ?_, ?_⟩
  · intro hempty
    have hnil := congrArg String.toList hempty
    rw [String.toList_ofList] at hnil
    rw [hnil] at hne
    cases hne
  · rw [String.toList_ofList]
    intro hin
    have hin' : ',' ∈ w := (Text.trim_isInfix _ _).subset hin
    exact absurd (hcomma _ hin') (by decide)
  · rw [String.toList_ofList, Text.trim_trim]

theorem ServerConfig.reports_fromEnv :
    Reports env ServerConfig.fromEnv ServerConfig.checks ServerConfig.WellFormed := by
  refine (reports_envOpt _ env).free fun raw _ => ?_
  refine (reports_envRequiredStr _ env).cons fun host _ => ?_
  refine (reports_envRequired _ _ _ _ env).cons fun port _ => Reports.pure ?_
  intro o ho
  cases raw with
  | none => cases ho
  | some raw => exact isOrigin_of_mem_splitOrigins ho

theorem DatabaseConfig.reports_fromEnv :
    Reports env DatabaseConfig.fromEnv DatabaseConfig.checks DatabaseConfig.WellFormed := by
  refine (reports_envRequiredStr _ env).cons fun host _ => ?_
  refine (reports_envRequired _ _ _ _ env).cons fun port _ => ?_
  refine (reports_envRequiredStr _ env).cons fun database _ => ?_
  refine (reports_envRequiredStr _ env).cons fun user _ => ?_
  refine (reports_envRequiredStr _ env).cons fun password _ => ?_
  refine (reports_envRequired _ _ _ _ env).cons fun maxConnections hmax => Reports.pure ?_
  exact bind_parseUnsigned_lt hmax

theorem RedisConfig.reports_fromEnv : Reports env RedisConfig.fromEnv RedisConfig.checks fun _ => True := by
  refine (reports_envRequiredStr _ env).cons fun url _ => ?_
  exact (reports_envRequiredStr _ env).cons fun rateLimitUrl _ => Reports.pure trivial

theorem reports_baseUrlFromEnv (ollama : Option String) (h : ollama = (env "OLLAMA_BASE_URL").filter (· ≠ "")) :
    Reports env (baseUrlFromEnv ollama) [hasBaseUrl] fun v => ∀ o, ollama = some o → v = o := by
  cases ollama with
  | none =>
    have hcheck : hasBaseUrl env = isSet "OPENAI_BASE_URL" env := by
      rw [hasBaseUrl, ← h]
      rfl
    exact ((reports_envRequiredStr _ env).congr hcheck).mono fun _ _ o ho => by cases ho
  | some o =>
    have hcheck : hasBaseUrl env = none := by
      rw [hasBaseUrl, ← h]
      rfl
    exact Reports.passes rfl hcheck fun o' ho' => Option.some.inj ho'

theorem reports_maxInputCharsFromEnv :
    Reports env maxInputCharsFromEnv [isUsize "LLM_MAX_INPUT_CHARS", isPositive] fun v => 0 < v ∧ v < 2 ^ 64 := by
  refine (reports_envRequired _ _ _ _ env).cons fun v hv => ?_
  by_cases hzero : v = 0
  · have hcheck : isPositive env = some "LLM_MAX_INPUT_CHARS must be > 0" := by
      rw [isPositive, hv, hzero, if_pos rfl]
    rw [if_pos hzero]
    exact Reports.fails rfl hcheck
  · have hcheck : isPositive env = none := by
      rw [isPositive, hv, if_neg fun h => hzero (Option.some.inj h)]
    rw [if_neg hzero]
    exact Reports.passes rfl hcheck ⟨by omega, bind_parseUnsigned_lt hv⟩

theorem LlmConfig.reports_fromEnv :
    Reports env LlmConfig.fromEnv LlmConfig.checks LlmConfig.WellFormed := by
  refine (reports_envOpt _ env).free fun ollama hollama => ?_
  refine (reports_baseUrlFromEnv env ollama hollama).cons fun baseUrl hbase => ?_
  refine (reports_envOpt _ env).free fun apiKey _ => ?_
  refine (reports_envRequiredStr _ env).cons fun modelName _ => ?_
  refine (reports_envOpt _ env).free fun embeddingModel hmodel => ?_
  refine (reports_envRequired _ _ _ _ env).cons fun timeoutSeconds _ => ?_
  refine (reports_envRequired _ _ _ _ env).cons fun maxRetries _ => ?_
  refine (reports_maxInputCharsFromEnv env).bind fun maxInputChars hmax => Reports.pure ⟨?_, ?_, hmax⟩
  · intro o ho
    refine ⟨hbase o ho, fun hempty => ?_⟩
    have hnone : ollama = some "" := hempty ▸ ho
    exact filter_ne_some_empty _ (hollama.symm.trans hnone)
  · rw [hmodel]
    exact filter_ne_some_empty _

theorem CrawlerConfig.reports_fromEnv :
    Reports env CrawlerConfig.fromEnv CrawlerConfig.checks CrawlerConfig.WellFormed := by
  refine (reports_envRequired _ _ _ _ env).cons fun maxDepth _ => ?_
  refine (reports_envRequired _ _ _ _ env).cons fun maxPages _ => ?_
  refine (reports_envRequired _ _ _ _ env).cons fun concurrentRequests _ => ?_
  refine (reports_envRequired _ _ _ _ env).cons fun requestTimeoutSeconds _ => ?_
  refine (reports_envRequiredStr _ env).cons fun userAgent _ => ?_
  refine (reports_envRequired _ _ _ _ env).cons fun respectRobotsTxt _ => ?_
  refine (reports_envOpt _ env).free fun playwrightUrl hurl => ?_
  refine (reports_envRequired _ _ _ _ env).cons fun browserPoolSize _ => Reports.pure ?_
  rw [CrawlerConfig.WellFormed, hurl]
  exact filter_ne_some_empty _

theorem WorkerConfig.reports_fromEnv : Reports env WorkerConfig.fromEnv WorkerConfig.checks fun _ => True := by
  refine (reports_envRequired _ _ _ _ env).cons fun numWorkers _ => ?_
  refine (reports_envRequired _ _ _ _ env).cons fun maxConcurrentJobs _ => ?_
  refine (reports_envRequired _ _ _ _ env).cons fun jobTimeoutSeconds _ => ?_
  exact (reports_envRequired _ _ _ _ env).cons fun maxStalls _ => Reports.pure trivial

theorem AuthConfig.reports_fromEnv :
    Reports env AuthConfig.fromEnv AuthConfig.checks AuthConfig.WellFormed := by
  refine (reports_envRequired _ _ _ _ env).cons fun useDbAuthentication _ => ?_
  refine (reports_envOpt _ env).free fun testApiKey hkey => ?_
  refine (reports_envRequiredStr _ env).cons fun bullAuthKey _ => ?_
  refine (reports_envRequired _ _ _ _ env).cons fun allowLocalWebhooks _ => Reports.pure ?_
  rw [AuthConfig.WellFormed, hkey]
  exact filter_ne_some_empty _

theorem ProxyConfig.reports_fromEnv : Reports env ProxyConfig.fromEnv [] ProxyConfig.WellFormed := by
  refine (reports_envOpt _ env).free fun server hserver => ?_
  refine (reports_envOpt _ env).free fun username husername => ?_
  refine (reports_envOpt _ env).free fun password hpassword => Reports.pure ?_
  subst hserver husername hpassword
  exact ⟨filter_ne_some_empty _, filter_ne_some_empty _, filter_ne_some_empty _⟩

theorem SearchConfig.reports_fromEnv : Reports env SearchConfig.fromEnv [] SearchConfig.WellFormed := by
  refine (reports_envOpt _ env).free fun endpoint hendpoint => ?_
  refine (reports_envOpt _ env).free fun engines hengines => ?_
  refine (reports_envOpt _ env).free fun categories hcategories => Reports.pure ?_
  subst hendpoint hengines hcategories
  exact ⟨filter_ne_some_empty _, filter_ne_some_empty _, filter_ne_some_empty _⟩

variable {F64 : Type} (parseF64 : String → Option F64)

theorem ResourceConfig.reports_fromEnv :
    Reports env (ResourceConfig.fromEnv parseF64) (ResourceConfig.checks parseF64)
      (ResourceConfig.WellFormed parseF64) := by
  refine (reports_envRequired _ _ _ _ env).cons fun maxCpu hcpu => ?_
  refine (reports_envRequired _ _ _ _ env).cons fun maxRam hram => Reports.pure ?_
  obtain ⟨cpu, -, hcpu⟩ := Option.bind_eq_some_iff.mp hcpu
  obtain ⟨ram, -, hram⟩ := Option.bind_eq_some_iff.mp hram
  exact ⟨⟨cpu, hcpu⟩, ram, hram⟩

theorem Config.reports_fromEnv :
    Reports env (Config.fromEnv parseF64) (Config.checks parseF64) (Config.WellFormed parseF64) := by
  have hchecks : Config.checks parseF64 =
      ServerConfig.checks ++ (DatabaseConfig.checks ++ (RedisConfig.checks ++ (LlmConfig.checks ++
        (CrawlerConfig.checks ++ (WorkerConfig.checks ++ (AuthConfig.checks ++
          ([] ++ ([] ++ (ResourceConfig.checks parseF64 ++ []))))))))) := by
    simp only [Config.checks, List.append_assoc, List.append_nil, List.nil_append]
  rw [hchecks]
  refine (ServerConfig.reports_fromEnv env).bind fun server hserver => ?_
  refine (DatabaseConfig.reports_fromEnv env).bind fun database hdatabase => ?_
  refine (RedisConfig.reports_fromEnv env).bind fun redis _ => ?_
  refine (LlmConfig.reports_fromEnv env).bind fun llm hllm => ?_
  refine (CrawlerConfig.reports_fromEnv env).bind fun crawler hcrawler => ?_
  refine (WorkerConfig.reports_fromEnv env).bind fun worker _ => ?_
  refine (AuthConfig.reports_fromEnv env).bind fun auth hauth => ?_
  refine (ProxyConfig.reports_fromEnv env).bind fun proxy hproxy => ?_
  refine (SearchConfig.reports_fromEnv env).bind fun search hsearch => ?_
  refine (ResourceConfig.reports_fromEnv env parseF64).bind fun resource hresource => Reports.pure ?_
  exact ⟨hserver, hdatabase, hllm, hcrawler, hauth, hproxy, hsearch, hresource⟩

/-- Settings are refused exactly with the first requirement that the environment does not meet, and read if it
meets all of them. -/
theorem fromEnv_checked :
    (∀ e, (Config.fromEnv parseF64).run env = .error e ↔ (Config.checks parseF64).findSome? (· env) = some e) ∧
      ((∃ c, (Config.fromEnv parseF64).run env = .ok c) ↔ ∀ check ∈ Config.checks parseF64, check env = none) :=
  ⟨fun _ => (Config.reports_fromEnv env parseF64).eq_error_iff, (Config.reports_fromEnv env parseF64).exists_ok_iff⟩

end Sections

/-! ## An environment for settings -/

def unsignedText (n : ℕ) : String := String.ofList (Nat.toDigits 10 n)

def boolText (b : Bool) : String := if b then "true" else "false"

/-- The origins with commas between them. -/
def joinOrigins (origins : List String) : String := String.ofList ([','].intercalate (origins.map String.toList))

def ServerConfig.variables (c : ServerConfig) : List (String × Option String) :=
  [("CORS_ALLOW_ORIGINS", if c.corsAllowOrigins = [] then none else some (joinOrigins c.corsAllowOrigins)),
    ("HOST", some c.host), ("PORT", some (unsignedText c.port.toNat))]

def DatabaseConfig.variables (c : DatabaseConfig) : List (String × Option String) :=
  [("POSTGRES_HOST", some c.host), ("POSTGRES_PORT", some (unsignedText c.port.toNat)),
    ("POSTGRES_DB", some c.database), ("POSTGRES_USER", some c.user), ("POSTGRES_PASSWORD", some c.password),
    ("DATABASE_MAX_CONNECTIONS", some (unsignedText c.maxConnections))]

def RedisConfig.variables (c : RedisConfig) : List (String × Option String) :=
  [("REDIS_URL", some c.url), ("REDIS_RATE_LIMIT_URL", some c.rateLimitUrl)]

def LlmConfig.variables (c : LlmConfig) : List (String × Option String) :=
  [("OLLAMA_BASE_URL", c.ollamaBaseUrl), ("OPENAI_BASE_URL", some c.baseUrl), ("OPENAI_API_KEY", some c.apiKey),
    ("MODEL_NAME", some c.modelName), ("MODEL_EMBEDDING_NAME", c.embeddingModel),
    ("LLM_TIMEOUT_SECONDS", some (unsignedText c.timeoutSeconds.toNat)),
    ("LLM_MAX_RETRIES", some (unsignedText c.maxRetries.toNat)),
    ("LLM_MAX_INPUT_CHARS", some (unsignedText c.maxInputChars))]

def CrawlerConfig.variables (c : CrawlerConfig) : List (String × Option String) :=
  [("CRAWLER_MAX_DEPTH", some (unsignedText c.maxDepth.toNat)),
    ("CRAWLER_MAX_PAGES", some (unsignedText c.maxPages.toNat)),
    ("CRAWL_CONCURRENT_REQUESTS", some (unsignedText c.concurrentRequests.toNat)),
    ("CRAWLER_REQUEST_TIMEOUT_SECONDS", some (unsignedText c.requestTimeoutSeconds.toNat)),
    ("CRAWLER_USER_AGENT", some c.userAgent),
    ("CRAWLER_RESPECT_ROBOTS_TXT", some (boolText c.respectRobotsTxt)),
    ("PLAYWRIGHT_MICROSERVICE_URL", c.playwrightUrl),
    ("BROWSER_POOL_SIZE", some (unsignedText c.browserPoolSize.toNat))]

def WorkerConfig.variables (c : WorkerConfig) : List (String × Option String) :=
  [("NUM_WORKERS_PER_QUEUE", some (unsignedText c.numWorkers.toNat)),
    ("MAX_CONCURRENT_JOBS", some (unsignedText c.maxConcurrentJobs.toNat)),
    ("WORKER_JOB_TIMEOUT_SECONDS", some (unsignedText c.jobTimeoutSeconds.toNat)),
    ("WORKER_MAX_STALLS", some (unsignedText c.maxStalls.toNat))]

def AuthConfig.variables (c : AuthConfig) : List (String × Option String) :=
  [("USE_DB_AUTHENTICATION", some (boolText c.useDbAuthentication)), ("TEST_API_KEY", c.testApiKey),
    ("BULL_AUTH_KEY", some c.bullAuthKey), ("ALLOW_LOCAL_WEBHOOKS", some (boolText c.allowLocalWebhooks))]

def ProxyConfig.variables (c : ProxyConfig) : List (String × Option String) :=
  [("PROXY_SERVER", c.server), ("PROXY_USERNAME", c.username), ("PROXY_PASSWORD", c.password)]

def SearchConfig.variables (c : SearchConfig) : List (String × Option String) :=
  [("SEARXNG_ENDPOINT", c.searxngEndpoint), ("SEARXNG_ENGINES", c.searxngEngines),
    ("SEARXNG_CATEGORIES", c.searxngCategories)]

/-- The variables of the settings; `cpu` and `ram` are the texts of the limits. -/
def Config.variables {F64 : Type} (c : Config F64) (cpu ram : String) : List (String × Option String) :=
  c.server.variables ++ c.database.variables ++ c.redis.variables ++ LlmConfig.variables c.llm ++
    c.crawler.variables ++ c.worker.variables ++ c.auth.variables ++ c.proxy.variables ++
    SearchConfig.variables c.search ++ [("MAX_CPU", some cpu), ("MAX_RAM", some ram)]

def Config.environment {F64 : Type} (c : Config F64) (cpu ram : String) : Environment := fun key =>
  ((c.variables cpu ram).lookup key).join

/-- The environment sets the variables as listed. -/
def Sets (env : Environment) : List (String × Option String) → Prop
  | [] => True
  | (key, value) :: vars => env key = value ∧ Sets env vars

section Sets

variable {env : Environment} {vars vars' : List (String × Option String)}

theorem sets_iff : Sets env vars ↔ ∀ v ∈ vars, env v.1 = v.2 := by
  induction vars with
  | nil => simp [Sets]
  | cons v vars ih => rw [Sets, ih, List.forall_mem_cons]

theorem sets_append : Sets env (vars ++ vars') ↔ Sets env vars ∧ Sets env vars' := by
  rw [sets_iff, sets_iff, sets_iff, List.forall_mem_append]

theorem lookup_of_mem {v : String × Option String} (h : (vars.map Prod.fst).Nodup) (hv : v ∈ vars) :
    vars.lookup v.1 = some v.2 := by
  induction vars with
  | nil => cases hv
  | cons w vars ih =>
    rw [List.map_cons, List.nodup_cons] at h
    rcases List.mem_cons.mp hv with rfl | hv
    · exact List.lookup_cons_self
    · have hne : v.1 ≠ w.1 := fun heq => h.1 (heq ▸ List.mem_map_of_mem hv)
      rw [List.lookup_cons, beq_false_of_ne hne]
      exact ih h.2 hv

/-- Variables with different names are set together. -/
theorem sets_lookup (h : (vars.map Prod.fst).Nodup) : Sets (fun key => (vars.lookup key).join) vars :=
  sets_iff.mpr fun v hv => by
    show (vars.lookup v.1).join = v.2
    rw [lookup_of_mem h hv]
    rfl

theorem Config.nodup_variables {F64 : Type} (c : Config F64) (cpu ram : String) :
    ((c.variables cpu ram).map Prod.fst).Nodup := by
  simp [Config.variables, ServerConfig.variables, DatabaseConfig.variables, RedisConfig.variables,
    LlmConfig.variables, CrawlerConfig.variables, WorkerConfig.variables, AuthConfig.variables,
    ProxyConfig.variables, SearchConfig.variables]

end Sets

/-! ## Texts are read back -/

theorem parseUnsigned_unsignedText {bits n : ℕ} (h : n < 2 ^ bits) :
    parseUnsigned bits (unsignedText n) = some n := by
  obtain ⟨c, t, ht⟩ := List.exists_cons_of_ne_nil (Nat.toDigits_ne_nil (b := 10) (n := n))
  have hc : c.isDigit := Text.isDigit_of_mem_toDigits (ht ▸ List.mem_cons_self)
  have hplus : c ≠ '+' := by
    intro hc'
    rw [hc'] at hc
    exact absurd hc (by decide)
  have hdrop : dropPlus (Nat.toDigits 10 n) = Nat.toDigits 10 n := by
    rw [ht, dropPlus, if_neg hplus]
  rw [parseUnsigned, unsignedText, String.toList_ofList, hdrop, Text.readDigits_toDigits]
  exact Option.filter_eq_some_iff.mpr ⟨rfl, decide_eq_true h⟩

theorem parseU16_unsignedText (n : UInt16) : parseU16 (unsignedText n.toNat) = some n := by
  rw [parseU16, parseUnsigned_unsignedText n.toNat_lt, Option.map_some, UInt16.ofNat_toNat]

theorem parseU32_unsignedText (n : UInt32) : parseU32 (unsignedText n.toNat) = some n := by
  rw [parseU32, parseUnsigned_unsignedText n.toNat_lt, Option.map_some, UInt32.ofNat_toNat]

theorem parseU64_unsignedText (n : UInt64) : parseU64 (unsignedText n.toNat) = some n := by
  rw [parseU64, parseUnsigned_unsignedText n.toNat_lt, Option.map_some, UInt64.ofNat_toNat]

theorem parseBool_boolText (b : Bool) : parseBool (boolText b) = some b := by
  cases b <;> rfl

theorem splitOrigins_joinOrigins {origins : List String} (hne : origins ≠ [])
    (h : ∀ o ∈ origins, IsOrigin o) : splitOrigins (joinOrigins origins) = origins := by
  have hcomma : ∀ t ∈ origins.map String.toList, ',' ∉ t := by
    intro t ht
    obtain ⟨o, ho, rfl⟩ := List.mem_map.mp ht
    exact (h o ho).2.1
  have htrim : (origins.map String.toList).map (Text.trim isWhitespace) = origins.map String.toList := by
    rw [List.map_map]
    exact List.map_congr_left fun o ho => (h o ho).2.2
  have hfilter : (origins.map String.toList).filter (fun o => !o.isEmpty) = origins.map String.toList := by
    apply List.filter_eq_self.mpr
    intro t ht
    obtain ⟨o, ho, rfl⟩ := List.mem_map.mp ht
    simpa using (h o ho).1
  rw [splitOrigins, joinOrigins, String.toList_ofList, List.splitOn_intercalate _ hcomma (by simpa using hne),
    htrim, hfilter, List.map_map]
  simp

theorem joinOrigins_ne_empty {origins : List String} (hne : origins ≠ []) (h : ∀ o ∈ origins, IsOrigin o) :
    joinOrigins origins ≠ "" := by
  intro hempty
  have hsplit := splitOrigins_joinOrigins hne h
  rw [hempty] at hsplit
  exact hne hsplit.symm

/-! ## Settings are read back -/

section ReadBack

open Loader (bind_ok)

variable {env : Environment}

theorem filter_of_ne {o : Option String} (ho : o ≠ some "") : o.filter (· ≠ "") = o := by
  cases o with
  | none => rfl
  | some v =>
    have hv : v ≠ "" := fun hv => ho (congrArg some hv)
    exact Option.filter_eq_some_iff.mpr ⟨rfl, decide_eq_true hv⟩

theorem envOpt_run_of_ne {key : String} {o : Option String} (h : env key = o) (ho : o ≠ some "") :
    (envOpt key).run env = .ok o := by
  show Except.ok ((env key).filter (· ≠ "")) = Except.ok o
  rw [h, filter_of_ne ho]

theorem ServerConfig.fromEnv_of_sets {c : ServerConfig} (h : Sets env c.variables) (hc : c.WellFormed) :
    ServerConfig.fromEnv.run env = .ok c := by
  obtain ⟨hcors, hhost, hport, -⟩ := h
  by_cases hne : c.corsAllowOrigins = []
  · rw [if_pos hne] at hcors
    refine bind_ok (envOpt_run_of_ne hcors (by simp)) ?_
    refine bind_ok (envRequiredStr_run_some hhost) ?_
    refine bind_ok (envRequired_run_some hport (parseU16_unsignedText _)) ?_
    rw [Option.map_none, Option.getD_none, ← hne]
    rfl
  · have hjoin : some (joinOrigins c.corsAllowOrigins) ≠ some "" := fun h =>
      joinOrigins_ne_empty hne hc (Option.some.inj h)
    rw [if_neg hne] at hcors
    refine bind_ok (envOpt_run_of_ne hcors hjoin) ?_
    refine bind_ok (envRequiredStr_run_some hhost) ?_
    refine bind_ok (envRequired_run_some hport (parseU16_unsignedText _)) ?_
    rw [Option.map_some, Option.getD_some, splitOrigins_joinOrigins hne hc]
    rfl

theorem DatabaseConfig.fromEnv_of_sets {c : DatabaseConfig} (h : Sets env c.variables) (hc : c.WellFormed) :
    DatabaseConfig.fromEnv.run env = .ok c := by
  obtain ⟨hhost, hport, hdb, huser, hpassword, hmax, -⟩ := h
  refine bind_ok (envRequiredStr_run_some hhost) ?_
  refine bind_ok (envRequired_run_some hport (parseU16_unsignedText _)) ?_
  refine bind_ok (envRequiredStr_run_some hdb) ?_
  refine bind_ok (envRequiredStr_run_some huser) ?_
  refine bind_ok (envRequiredStr_run_some hpassword) ?_
  exact bind_ok (envRequired_run_some hmax (parseUnsigned_unsignedText hc)) rfl

theorem RedisConfig.fromEnv_of_sets {c : RedisConfig} (h : Sets env c.variables) :
    RedisConfig.fromEnv.run env = .ok c := by
  obtain ⟨hurl, hrate, -⟩ := h
  refine bind_ok (envRequiredStr_run_some hurl) ?_
  exact bind_ok (envRequiredStr_run_some hrate) rfl

theorem maxInputCharsFromEnv_run {n : ℕ} (h : env "LLM_MAX_INPUT_CHARS" = some (unsignedText n))
    (hn : 0 < n ∧ n < 2 ^ 64) : maxInputCharsFromEnv.run env = .ok n := by
  have hzero : n ≠ 0 := by omega
  refine bind_ok (envRequired_run_some h (parseUnsigned_unsignedText hn.2)) ?_
  rw [if_neg hzero]
  rfl

theorem LlmConfig.fromEnv_of_sets {c : LlmConfig} (h : Sets env (LlmConfig.variables c))
    (hc : LlmConfig.WellFormed c) : LlmConfig.fromEnv.run env = .ok c := by
  obtain ⟨hollama, hopenai, hkey, hmodel, hembedding, htimeout, hretries, hmax, -⟩ := h
  have hne : c.ollamaBaseUrl ≠ some "" := fun h => (hc.ollama _ h).2 rfl
  have hbase : (baseUrlFromEnv c.ollamaBaseUrl).run env = .ok c.baseUrl := by
    cases ho : c.ollamaBaseUrl with
    | none => exact envRequiredStr_run_some hopenai
    | some o =>
      rw [(hc.ollama o ho).1]
      rfl
  have hapi : ((env "OPENAI_API_KEY").filter (· ≠ "")).getD "" = c.apiKey := by
    rw [hkey]
    by_cases hempty : c.apiKey = ""
    · rw [hempty]
      rfl
    · rw [filter_of_ne fun h => hempty (Option.some.inj h)]
      rfl
  refine bind_ok (envOpt_run_of_ne hollama hne) ?_
  refine bind_ok hbase ?_
  refine bind_ok rfl ?_
  refine bind_ok (envRequiredStr_run_some hmodel) ?_
  refine bind_ok (envOpt_run_of_ne hembedding hc.embeddingModel) ?_
  refine bind_ok (envRequired_run_some htimeout (parseU64_unsignedText _)) ?_
  refine bind_ok (envRequired_run_some hretries (parseU32_unsignedText _)) ?_
  refine bind_ok (maxInputCharsFromEnv_run hmax hc.maxInputChars) ?_
  rw [hapi]
  rfl

theorem CrawlerConfig.fromEnv_of_sets {c : CrawlerConfig} (h : Sets env c.variables) (hc : c.WellFormed) :
    CrawlerConfig.fromEnv.run env = .ok c := by
  obtain ⟨hdepth, hpages, hrequests, htimeout, hagent, hrobots, hurl, hsize, -⟩ := h
  refine bind_ok (envRequired_run_some hdepth (parseU32_unsignedText _)) ?_
  refine bind_ok (envRequired_run_some hpages (parseU32_unsignedText _)) ?_
  refine bind_ok (envRequired_run_some hrequests (parseU32_unsignedText _)) ?_
  refine bind_ok (envRequired_run_some htimeout (parseU64_unsignedText _)) ?_
  refine bind_ok (envRequiredStr_run_some hagent) ?_
  refine bind_ok (envRequired_run_some hrobots (parseBool_boolText _)) ?_
  refine bind_ok (envOpt_run_of_ne hurl hc) ?_
  exact bind_ok (envRequired_run_some hsize (parseU32_unsignedText _)) rfl

theorem WorkerConfig.fromEnv_of_sets {c : WorkerConfig} (h : Sets env c.variables) :
    WorkerConfig.fromEnv.run env = .ok c := by
  obtain ⟨hnum, hjobs, htimeout, hstalls, -⟩ := h
  refine bind_ok (envRequired_run_some hnum (parseU32_unsignedText _)) ?_
  refine bind_ok (envRequired_run_some hjobs (parseU32_unsignedText _)) ?_
  refine bind_ok (envRequired_run_some htimeout (parseU64_unsignedText _)) ?_
  exact bind_ok (envRequired_run_some hstalls (parseU32_unsignedText _)) rfl

theorem AuthConfig.fromEnv_of_sets {c : AuthConfig} (h : Sets env c.variables) (hc : c.WellFormed) :
    AuthConfig.fromEnv.run env = .ok c := by
  obtain ⟨hdb, htest, hbull, hlocal, -⟩ := h
  refine bind_ok (envRequired_run_some hdb (parseBool_boolText _)) ?_
  refine bind_ok (envOpt_run_of_ne htest hc) ?_
  refine bind_ok (envRequiredStr_run_some hbull) ?_
  exact bind_ok (envRequired_run_some hlocal (parseBool_boolText _)) rfl

theorem ProxyConfig.fromEnv_of_sets {c : ProxyConfig} (h : Sets env c.variables) (hc : c.WellFormed) :
    ProxyConfig.fromEnv.run env = .ok c := by
  obtain ⟨hserver, husername, hpassword, -⟩ := h
  refine bind_ok (envOpt_run_of_ne hserver hc.server) ?_
  refine bind_ok (envOpt_run_of_ne husername hc.username) ?_
  exact bind_ok (envOpt_run_of_ne hpassword hc.password) rfl

theorem SearchConfig.fromEnv_of_sets {c : SearchConfig} (h : Sets env (SearchConfig.variables c))
    (hc : SearchConfig.WellFormed c) : SearchConfig.fromEnv.run env = .ok c := by
  obtain ⟨hendpoint, hengines, hcategories, -⟩ := h
  refine bind_ok (envOpt_run_of_ne hendpoint hc.searxngEndpoint) ?_
  refine bind_ok (envOpt_run_of_ne hengines hc.searxngEngines) ?_
  exact bind_ok (envOpt_run_of_ne hcategories hc.searxngCategories) rfl

variable {F64 : Type} {parseF64 : String → Option F64} {c : Config F64} {cpu ram : String}

theorem fromEnv_environment (hc : c.WellFormed parseF64) (hcpu : parseF64 cpu = some c.resource.maxCpu)
    (hram : parseF64 ram = some c.resource.maxRam) :
    (Config.fromEnv parseF64).run (c.environment cpu ram) = .ok c := by
  have hsets : Sets (c.environment cpu ram) (c.variables cpu ram) := sets_lookup (c.nodup_variables cpu ram)
  simp only [Config.variables, sets_append] at hsets
  obtain ⟨⟨⟨⟨⟨⟨⟨⟨⟨hserver, hdatabase⟩, hredis⟩, hllm⟩, hcrawler⟩, hworker⟩, hauth⟩, hproxy⟩, hsearch⟩,
    henvCpu, henvRam, -⟩ := hsets
  have hresource : (ResourceConfig.fromEnv parseF64).run (c.environment cpu ram) = .ok c.resource :=
    bind_ok (envRequired_run_some henvCpu hcpu) (bind_ok (envRequired_run_some henvRam hram) rfl)
  refine bind_ok (ServerConfig.fromEnv_of_sets hserver hc.server) ?_
  refine bind_ok (DatabaseConfig.fromEnv_of_sets hdatabase hc.database) ?_
  refine bind_ok (RedisConfig.fromEnv_of_sets hredis) ?_
  refine bind_ok (LlmConfig.fromEnv_of_sets hllm hc.llm) ?_
  refine bind_ok (CrawlerConfig.fromEnv_of_sets hcrawler hc.crawler) ?_
  refine bind_ok (WorkerConfig.fromEnv_of_sets hworker) ?_
  refine bind_ok (AuthConfig.fromEnv_of_sets hauth hc.auth) ?_
  refine bind_ok (ProxyConfig.fromEnv_of_sets hproxy hc.proxy) ?_
  refine bind_ok (SearchConfig.fromEnv_of_sets hsearch hc.search) ?_
  exact bind_ok hresource rfl

/-- A text that is read as a limit has a value. -/
theorem isSome_of_isOf {α : Type} {type hint key raw : String} {parse : String → Option α} {env : Environment}
    (h : isOf type hint parse key env = none) (hkey : env key = some raw) : (parse raw).isSome := by
  by_contra hno
  simp [isOf, hkey, hno] at h

/-- The texts of the limits are read as they are meant. -/
theorem limits_of_environment (h : (Config.fromEnv parseF64).run (c.environment cpu ram) = .ok c) :
    parseF64 cpu = some c.resource.maxCpu ∧ parseF64 ram = some c.resource.maxRam := by
  have hc : c.WellFormed parseF64 := (Config.reports_fromEnv _ parseF64).of_ok h
  have hchecks := (Config.reports_fromEnv _ parseF64).exists_ok_iff.mp ⟨c, h⟩
  have hsets : Sets (c.environment cpu ram) (c.variables cpu ram) := sets_lookup (c.nodup_variables cpu ram)
  simp only [Config.variables, sets_append] at hsets
  obtain ⟨-, henvCpu, henvRam, -⟩ := hsets
  obtain ⟨maxCpu, hcpu⟩ := Option.isSome_iff_exists.mp
    (isSome_of_isOf (hchecks (isOf "f64" "" parseF64 "MAX_CPU") (by simp [Config.checks, ResourceConfig.checks]))
      henvCpu)
  obtain ⟨maxRam, hram⟩ := Option.isSome_iff_exists.mp
    (isSome_of_isOf (hchecks (isOf "f64" "" parseF64 "MAX_RAM") (by simp [Config.checks, ResourceConfig.checks]))
      henvRam)
  -- the same environment, with the limits that it has
  let c' : Config F64 := { c with resource := ⟨maxCpu, maxRam⟩ }
  have hc' : c'.WellFormed parseF64 :=
    ⟨hc.server, hc.database, hc.llm, hc.crawler, hc.auth, hc.proxy, hc.search, ⟨cpu, hcpu⟩, ram, hram⟩
  have h' : (Config.fromEnv parseF64).run (c.environment cpu ram) = .ok c' := fromEnv_environment hc' hcpu hram
  rw [h, Except.ok.injEq] at h'
  rw [h']
  exact ⟨hcpu, hram⟩

/-- **Settings are read** from some environment exactly if they are well-formed; and then from the one that is
written for them, if the texts of the limits are read as the limits. -/
theorem exists_fromEnv_iff (parseF64 : String → Option F64) (c : Config F64) :
    ((∃ env, (Config.fromEnv parseF64).run env = .ok c) ↔ c.WellFormed parseF64) ∧
      ∀ cpu ram, (Config.fromEnv parseF64).run (c.environment cpu ram) = .ok c ↔
        c.WellFormed parseF64 ∧ parseF64 cpu = some c.resource.maxCpu ∧ parseF64 ram = some c.resource.maxRam := by
  refine ⟨⟨?_, ?_⟩, fun cpu ram => ⟨?_, ?_⟩⟩
  · intro ⟨env, henv⟩
    exact (Config.reports_fromEnv env parseF64).of_ok henv
  · intro hc
    obtain ⟨⟨cpu, hcpu⟩, ram, hram⟩ := hc.resource
    exact ⟨c.environment cpu ram, fromEnv_environment hc hcpu hram⟩
  · intro h
    exact ⟨(Config.reports_fromEnv _ parseF64).of_ok h, limits_of_environment h⟩
  · intro ⟨hc, hcpu, hram⟩
    exact fromEnv_environment hc hcpu hram

end ReadBack

end FireCtrl.Settings
