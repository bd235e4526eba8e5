import FireCtrl.Extraction
import Mathlib.Data.List.Sort

/-!
# Searching (`search_handler` in `api.rs`)

A search asks SearXNG or Google for URLs, ranks them, and scrapes them all while the client waits.

* `searxngSearch`, `googleSearch`, `rankByRelevance`, `searchUrls`: the ranked list;
  `rankByRelevance_perm`, `rankByRelevance_pairwise`, `sublist_rankByRelevance`: it is a stable sort.
  `searchUrls_perm`: a search that asks for anything loses none of what it finds.
* **`searchUrls_mostRelevant_iff`**: when SearXNG's most relevant URLs are the ones that are returned.
* `searchHandler`: the results, as the scrapes finish; **`searchHandler_ranked_iff`**: when they come in the
  order of the list.
-/

namespace FireCtrl

open Call (ext)

/-! ## Requests and responses -/

structure SearchConfig where
  searxngEndpoint : Option String
  searxngEngines : Option String
  searxngCategories : Option String

structure SearchRequest where
  query : String
  limit : UInt32
  lang : Option String
  country : Option String
  scrapeOptions : Option ScrapeOptions
  timeout : Option UInt32

structure SearchWebResult where
  url : String
  title : Option String
  description : Option String
  category : Option String
deriving DecidableEq

structure SearchResponseData where
  web : Option (List SearchWebResult)
  news : Option (List Json)
  images : Option (List Json)

structure SearchResponse where
  success : Bool
  data : SearchResponseData

/-- What the search uses of other crates and of `str`. -/
structure SearchCrates where
  encode : String → String
  decode : String → Option String
  fromStr : String → Except String Json
  toLowercase : String → String

/-! ## Ranking (`rank_by_relevance` in `llm.rs`) -/

/-- `split_whitespace`. -/
def splitWhitespace (s : String) : List String :=
  ((s.toList.splitOnP isWhitespace).filter fun w => !w.isEmpty).map String.ofList

section Rank

variable (toLowercase : String → String)

/-- How many of the terms of the query occur in `s`. -/
def relevance (query s : String) : ℕ :=
  ((splitWhitespace (toLowercase query)).filter (containsStr (toLowercase s))).length

def rankByRelevance (items : List String) (query : String) : List String :=
  ((items.map fun s => (relevance toLowercase query s, s)).insertionSort fun a b => b.1 ≤ a.1).map Prod.snd

variable {toLowercase} {items l : List String} {query : String}

theorem map_relevance : (items.map fun s => (relevance toLowercase query s, s)).map Prod.snd = items := by
  rw [List.map_map]
  exact List.map_id _

theorem rankByRelevance_perm : (rankByRelevance toLowercase items query).Perm items := by
  have h := (List.perm_insertionSort (fun a b : ℕ × String => b.1 ≤ a.1)
    (items.map fun s => (relevance toLowercase query s, s))).map Prod.snd
  rwa [map_relevance] at h

/-- URLs that are in order already stay so. -/
theorem sublist_rankByRelevance
    (hl : l.Pairwise fun s t => relevance toLowercase query t ≤ relevance toLowercase query s)
    (hsub : l.Sublist items) : l.Sublist (rankByRelevance toLowercase items query) := by
  have : Std.Total fun a b : ℕ × String => b.1 ≤ a.1 := ⟨fun a b => Nat.le_total b.1 a.1⟩
  have : IsTrans (ℕ × String) fun a b => b.1 ≤ a.1 := ⟨fun a b c hab hbc => Nat.le_trans hbc hab⟩
  have h := (List.sublist_insertionSort (r := fun a b : ℕ × String => b.1 ≤ a.1) (List.pairwise_map.mpr hl)
    (hsub.map fun s => (relevance toLowercase query s, s))).map Prod.snd
  rwa [map_relevance] at h

theorem rankByRelevance_pairwise : (rankByRelevance toLowercase items query).Pairwise fun s t =>
    relevance toLowercase query t ≤ relevance toLowercase query s := by
  have hscored : ∀ x ∈ (items.map fun s => (relevance toLowercase query s, s)).insertionSort (fun a b => b.1 ≤ a.1),
      x.1 = relevance toLowercase query x.2 := by
    intro x hx
    rw [List.mem_insertionSort, List.mem_map] at hx
    obtain ⟨s, -, rfl⟩ := hx
    rfl
  have : Std.Total fun a b : ℕ × String => b.1 ≤ a.1 := ⟨fun a b => Nat.le_total b.1 a.1⟩
  have : IsTrans (ℕ × String) fun a b => b.1 ≤ a.1 := ⟨fun a b c hab hbc => Nat.le_trans hbc hab⟩
  refine List.pairwise_map.mpr ((List.pairwise_insertionSort _ _).imp_of_mem fun hx hy hxy => ?_)
  rwa [← hscored _ hx, ← hscored _ hy]

end Rank

/-! ## The search engines -/

/-- `strip_prefix`. -/
def stripPrefix? (p s : String) : Option String := (p.toList.isPrefixOf? s.toList).map String.ofList

/-- The target of a link of a result page: `/url?q=<target>&…`. -/
def googleTarget (decode : String → Option String) (href : String) : Option String := do
  let stripped ← stripPrefix? "/url?q=" href
  let raw := stripped.toList.takeWhile (· ≠ '&')
  if raw.length < stripped.length then
    let decoded ← decode (String.ofList raw)
    if "http".toList.isPrefixOf decoded.toList then some decoded else none
  else none

/-- Collect the targets of the links, until there are `limit`. -/
def collectTargets (decode : String → Option String) (limit : ℕ) : List String → List String → List String
  | [], urls => urls
  | href :: hrefs, urls =>
    match googleTarget decode href with
    | some url =>
      if (urls ++ [url]).length ≥ limit then urls ++ [url]
      else collectTargets decode limit hrefs (urls ++ [url])
    | none => collectTargets decode limit hrefs urls

section Engines

variable (web : Web) (crates : SearchCrates)

def googleSearch (query : String) (limit : UInt32) : Except AppError (List String) := do
  let searchUrl := "https://www.google.com/search?q=" ++ crates.encode query ++ "&num=" ++
    toString (min limit 10).toNat
  let (_, _, html) ← web.fetch searchUrl
  return collectTargets crates.decode limit.toNat (web.hrefs html) []

/-- The `url` members of the entries of `results`. -/
def resultUrls (body : Json) : List String :=
  match body.get? "results" with
  | some (.arr results) => results.filterMap fun r => (r.get? "url").bind Json.asStr
  | _ => []

def searxngSearch (cfg : SearchConfig) (endpoint query : String) (limit : UInt32) (lang country : Option String) :
    Except AppError (List String) := do
  let param (key : String) (value : Option String) : String :=
    (value.map fun v => "&" ++ key ++ "=" ++ crates.encode v).getD ""
  let url := endpoint ++ "/search?q=" ++ crates.encode query ++ "&format=json" ++
    param "engines" cfg.searxngEngines ++ param "categories" cfg.searxngCategories ++
    param "language" lang ++ param "region" country
  let (_, _, bodyText) ← web.fetch url
  match crates.fromStr bodyText with
  | .error e => throw (.scraper ("SearXNG response parse failed: " ++ e))
  | .ok body => return (resultUrls body).take limit.toNat

/-- What the search engine finds. -/
def foundUrls (cfg : SearchConfig) (req : SearchRequest) : Except AppError (List String) :=
  match cfg.searxngEndpoint with
  | some endpoint => searxngSearch web crates cfg endpoint req.query req.limit req.lang req.country
  | none => googleSearch web crates req.query req.limit

def searchUrls (cfg : SearchConfig) (req : SearchRequest) : Except AppError (List String) := do
  let urls ← foundUrls web crates cfg req
  return (rankByRelevance crates.toLowercase urls req.query).take req.limit.toNat

variable {web crates} {cfg : SearchConfig} {req : SearchRequest} {decode : String → Option String} {limit : ℕ}
  {hrefs urls : List String}

theorem length_collectTargets (h : urls.length < limit) :
    (collectTargets decode limit hrefs urls).length ≤ limit := by
  induction hrefs generalizing urls with
  | nil => exact h.le
  | cons href hrefs ih =>
    rw [collectTargets]
    split
    · split_ifs with hlimit
      · rw [List.length_append, List.length_singleton]
        omega
      · exact ih (not_le.mp hlimit)
    · exact ih h

theorem length_foundUrls (hlimit : 0 < req.limit.toNat) (h : foundUrls web crates cfg req = .ok urls) :
    urls.length ≤ req.limit.toNat := by
  unfold foundUrls at h
  split at h
  · unfold searxngSearch at h
    simp only [bind, Except.bind] at h
    split at h
    · cases h
    · split at h
      · cases h
      · cases h
        exact List.length_take_le _ _
  · unfold googleSearch at h
    simp only [bind, Except.bind] at h
    split at h
    · cases h
    · cases h
      exact length_collectTargets hlimit

/-- The search engines leave nothing to cut off: the ranking only decides on the order. -/
theorem searchUrls_perm (hlimit : 0 < req.limit.toNat) (h : foundUrls web crates cfg req = .ok urls) :
    ∃ ranked, searchUrls web crates cfg req = .ok ranked ∧ ranked.Perm urls := by
  refine ⟨rankByRelevance crates.toLowercase urls req.query, ?_, rankByRelevance_perm⟩
  rw [searchUrls, h]
  have hlen := length_foundUrls hlimit h
  show Except.ok _ = _
  rw [List.take_of_length_le (rankByRelevance_perm.length_eq.trans_le hlen)]

end Engines

/-! ## The most relevant URLs -/

section MostRelevant

variable (web : Web) (crates : SearchCrates) (cfg : SearchConfig) (req : SearchRequest)

/-- The URL that SearXNG is asked with. -/
def searxngUrl (endpoint : String) : String :=
  let param (key : String) (value : Option String) : String :=
    (value.map fun v => "&" ++ key ++ "=" ++ crates.encode v).getD ""
  endpoint ++ "/search?q=" ++ crates.encode req.query ++ "&format=json" ++
    param "engines" cfg.searxngEngines ++ param "categories" cfg.searxngCategories ++
    param "language" req.lang ++ param "region" req.country

/-- SearXNG is configured, and answers with these result URLs. -/
def SearxngAnswers (all : List String) : Prop :=
  ∃ endpoint r body, cfg.searxngEndpoint = some endpoint ∧ web.fetch (searxngUrl crates cfg req endpoint) = .ok r ∧
    crates.fromStr r.2.2 = .ok body ∧ resultUrls body = all

/-- As many of `all` are returned as the limit allows, none that is left out is more relevant than one of them, and
those of one score are the first ones of that score, in the order of `all`. -/
structure MostRelevant (all urls : List String) : Prop where
  length : urls.length = min req.limit.toNat all.length
  best : ∃ left, (urls ++ left).Perm all ∧ ∀ u ∈ left, ∀ v ∈ urls,
    relevance crates.toLowercase req.query u ≤ relevance crates.toLowercase req.query v
  stable : ∀ score, (urls.filter fun u => relevance crates.toLowercase req.query u = score) <+:
    all.filter fun u => relevance crates.toLowercase req.query u = score

variable {web crates cfg req} {all : List String}

/-- Only the first URLs of the answer are ranked. -/
theorem searchUrls_searxng (h : SearxngAnswers web crates cfg req all) :
    searchUrls web crates cfg req =
      .ok (rankByRelevance crates.toLowercase (all.take req.limit.toNat) req.query) := by
  obtain ⟨endpoint, ⟨status, ct, text⟩, body, hcfg, hfetch, hbody, rfl⟩ := h
  have hfound : foundUrls web crates cfg req = .ok ((resultUrls body).take req.limit.toNat) := by
    unfold foundUrls
    rw [hcfg]
    dsimp only
    have hrun : searxngSearch web crates cfg endpoint req.query req.limit req.lang req.country =
        (web.fetch (searxngUrl crates cfg req endpoint)).bind fun r =>
          match crates.fromStr r.2.2 with
          | .error e => throw (.scraper ("SearXNG response parse failed: " ++ e))
          | .ok body => return (resultUrls body).take req.limit.toNat := rfl
    rw [hrun, hfetch]
    dsimp only [Except.bind]
    rw [hbody]
    rfl
  rw [searchUrls, hfound]
  show Except.ok _ = _
  rw [List.take_of_length_le]
  rw [rankByRelevance_perm.length_eq]
  exact List.length_take_le _ _

/-- The ranking does not reorder the URLs of one score. -/
theorem filter_rankByRelevance (toLowercase : String → String) (items : List String) (query : String) (score : ℕ) :
    (rankByRelevance toLowercase items query).filter (fun u => relevance toLowercase query u = score) =
      items.filter fun u => relevance toLowercase query u = score := by
  have hscore : ∀ u ∈ items.filter (fun u => relevance toLowercase query u = score),
      relevance toLowercase query u = score := fun u hu => of_decide_eq_true (List.mem_filter.mp hu).2
  have hsub : (items.filter fun u => relevance toLowercase query u = score).Sublist
      (rankByRelevance toLowercase items query) := by
    refine sublist_rankByRelevance ?_ List.filter_sublist
    exact List.pairwise_of_forall_mem_list fun u hu v hv => by rw [hscore u hu, hscore v hv]
  have hfilter := hsub.filter fun u => relevance toLowercase query u = score
  rw [List.filter_filter] at hfilter
  simp only [Bool.and_self] at hfilter
  exact (hfilter.eq_of_length (rankByRelevance_perm.filter _).length_eq.symm).symm

end MostRelevant

/-- **The most relevant URLs are returned** exactly if no URL behind the limit is more relevant than one before
it. -/
theorem searchUrls_mostRelevant_iff {web : Web} {crates : SearchCrates} {cfg : SearchConfig} {req : SearchRequest}
    {all : List String} (h : SearxngAnswers web crates cfg req all) :
    (∃ urls, searchUrls web crates cfg req = .ok urls ∧ MostRelevant crates req all urls) ↔
      ∀ u ∈ all.drop req.limit.toNat, ∀ v ∈ all.take req.limit.toNat,
        relevance crates.toLowercase req.query u ≤ relevance crates.toLowercase req.query v := by
  rw [searchUrls_searxng h]
  have hperm : (rankByRelevance crates.toLowercase (all.take req.limit.toNat) req.query).Perm
      (all.take req.limit.toNat) := rankByRelevance_perm
  constructor
  · rintro ⟨urls, hurls, hbest⟩ u hu v hv
    cases hurls
    obtain ⟨left, hleft, hle⟩ := hbest.best
    -- what is left out is what is behind the limit
    have hdrop : left.Perm (all.drop req.limit.toNat) := by
      refine (List.perm_append_left_iff (all.take req.limit.toNat)).mp ?_
      rw [List.take_append_drop]
      exact (hperm.symm.append_right left).trans hleft
    exact hle u (hdrop.mem_iff.mpr hu) v (hperm.mem_iff.mpr hv)
  · intro hle
    refine ⟨_, rfl, ?_, ⟨all.drop req.limit.toNat, ?_, ?_⟩, ?_⟩
    · rw [hperm.length_eq, List.length_take]
    · exact (hperm.append_right _).trans (.of_eq (List.take_append_drop _ _))
    · exact fun u hu v hv => hle u hu v (hperm.mem_iff.mp hv)
    · intro score
      rw [filter_rankByRelevance]
      exact (List.take_prefix _ _).filter _

/-- A response with these result URLs. -/
def SearchCrates.answering (found : List String) : SearchCrates where
  encode := id
  decode := some
  fromStr _ := .ok (.obj [("results", .arr (found.map fun u => .obj [("url", .str u)]))])
  toLowercase := id

/-- A query with a limit of one. -/
def SearchRequest.first (query : String) : SearchRequest where
  query := query
  limit := 1
  lang := none
  country := none
  scrapeOptions := none
  timeout := none

theorem searxngAnswers_answering (found : List String) (query : String) :
    SearxngAnswers .sample (.answering found) ⟨some "http://searxng", none, none⟩ (.first query) found := by
  refine ⟨_, _, _, rfl, rfl, rfl, ?_⟩
  show (found.map _).filterMap _ = found
  rw [List.filterMap_map]
  exact List.filterMap_some

theorem searchUrls_mostRelevant_first : ∃ urls,
    searchUrls .sample (.answering ["https://rust/", "https://a/"]) ⟨some "http://searxng", none, none⟩
        (.first "rust") = .ok urls ∧
      MostRelevant (.answering ["https://rust/", "https://a/"]) (.first "rust")
        ["https://rust/", "https://a/"] urls :=
  (searchUrls_mostRelevant_iff (searxngAnswers_answering _ _)).mpr (by decide)

/-- The second URL is about the query, and the first one is not. -/
theorem not_searchUrls_mostRelevant : ¬ ∀ (web : Web) (crates : SearchCrates) (cfg : SearchConfig)
    (req : SearchRequest) (all : List String), SearxngAnswers web crates cfg req all →
      ∃ urls, searchUrls web crates cfg req = .ok urls ∧ MostRelevant crates req all urls := by
  intro h
  obtain ⟨urls, hurls, hbest⟩ := h .sample _ _ _ _ (searxngAnswers_answering ["https://a/", "https://rust/"] "rust")
  rw [searchUrls_searxng (searxngAnswers_answering _ _), Except.ok.injEq] at hurls
  have hfirst : urls = ["https://a/"] := hurls.symm.trans (by decide)
  subst hfirst
  obtain ⟨left, hleft, hle⟩ := hbest.best
  have hmem : "https://rust/" ∈ ["https://a/"] ++ left :=
    hleft.mem_iff.mpr (List.mem_cons_of_mem _ List.mem_cons_self)
  rcases List.mem_append.mp hmem with hin | hout
  · exact absurd hin (by decide)
  · exact absurd (hle _ hout "https://a/" List.mem_cons_self) (by decide)

/-! ## The handler -/

/-- `str::lines`; `line` is the beginning of the first one. -/
def linesFrom (line : List Char) : List Char → List (List Char)
  | [] => if line.isEmpty then [] else [line]
  | c :: cs =>
    if c = '\n' then (if line.getLast? = some '\r' then line.dropLast else line) :: linesFrom [] cs
    else linesFrom (line ++ [c]) cs

/-- The first 180 characters of the first line that is not blank. -/
def describe (markdown : String) : Option String :=
  ((linesFrom [] markdown.toList).find? fun line => !line.all isWhitespace).map fun line =>
    String.ofList (line.take 180)

/-- What a scraped page is to the client. -/
def SearchWebResult.of (result : ScrapeResult) : SearchWebResult where
  url := result.url
  title := result.title
  description := result.markdown.bind describe
  category := none

/-- The scrape task of a URL. -/
def searchTask (req : SearchRequest) (url : String) : Task where
  url := url
  job :=
    { url
      formats := (req.scrapeOptions.map ScrapeOptions.formats).getD [.markdown]
      onlyMainContent := (req.scrapeOptions.map ScrapeOptions.onlyMainContent).getD true
      includeTags := (req.scrapeOptions.map ScrapeOptions.includeTags).getD []
      excludeTags := (req.scrapeOptions.map ScrapeOptions.excludeTags).getD []
      headers := none
      waitFor := (req.scrapeOptions.map ScrapeOptions.waitFor).getD 0
      mobile := false
      timeout := req.timeout
      extract := none
      actions := []
      location := none
      webhook := none }

/-- What is returned for a task, if it succeeded. -/
def Outcome.webResult : Outcome → Option SearchWebResult
  | some (.ok result) => some (.of result)
  | some (.error _) => none
  | none => none

/-- One round of the `join_next` loop. -/
def addResult (results : List SearchWebResult) (_ : Task) (outcome : Outcome) : List SearchWebResult :=
  match outcome.webResult with
  | some r => results ++ [r]
  | none => results

def searchHandler (web : Web) (crates : SearchCrates) (cfg : SearchConfig) (gate : Except AppError Unit)
    (req : SearchRequest) : Call SearchResponse := do
  Call.ofExcept gate
  let urls ← Call.ofExcept (searchUrls web crates cfg req)
  let results ← joinEach addResult urls.length (urls.map (searchTask req)) []
  return { success := true, data := { web := some results, news := none, images := none } }

/-! ## The order of the results -/

/-- The scrapes succeed for these URLs; a page has the URL of its job. -/
structure Scrapes (urls : List String) (succeeded : Fin urls.length → Bool)
    (outcome : Fin urls.length → Outcome) : Prop where
  succeeded : ∀ p, succeeded p = true ↔ ∃ result, outcome p = some (.ok result)
  url : ∀ p result, outcome p = some (.ok result) → result.url = urls.get p

/-- The results of the successful scrapes, in the order of the list. -/
def rankedResults {n : ℕ} (outcome : Fin n → Outcome) : List SearchWebResult :=
  (List.finRange n).filterMap fun p => (outcome p).webResult

/-- The results that the client gets. -/
def webResults (res : Except AppError SearchResponse) : Option (List SearchWebResult) :=
  res.toOption.bind fun r => r.data.web

section Results

variable {web : Web} {crates : SearchCrates} {cfg : SearchConfig} {req : SearchRequest} {urls : List String}
  {ρ : Answers} {order : List (Fin urls.length)} {succeeded : Fin urls.length → Bool}
  {outcome : Fin urls.length → Outcome}

theorem isSome_webResult {o : Outcome} : o.webResult.isSome = true ↔ ∃ result, o = some (.ok result) := by
  rcases o with _ | _ | result <;> simp [Outcome.webResult]

theorem foldl_addResult {α : Type} (order : List α) (task : α → Task) (outcome : α → Outcome)
    (results : List SearchWebResult) :
    order.foldl (fun results p => addResult results (task p) (outcome p)) results =
      results ++ order.filterMap fun p => (outcome p).webResult := by
  induction order generalizing results with
  | nil => simp
  | cons p order ih =>
    rw [List.foldl_cons, ih, List.filterMap_cons, addResult]
    cases (outcome p).webResult with
    | none => rfl
    | some r => rw [List.append_assoc]; rfl

/-- The results come as the scrapes finish. -/
theorem webResults_searchHandler (hurls : searchUrls web crates cfg req = .ok urls)
    (horder : order.Perm (List.finRange urls.length)) :
    webResults ((searchHandler web crates cfg (.ok ()) req).execution
      (ρ.joining (List.finRange urls.length) order outcome) []).1 =
      some (order.filterMap fun p => (outcome p).webResult) := by
  obtain ⟨l, hl, -, -⟩ := joinEach_joining addResult [] ρ outcome (fun p => searchTask req (urls.get p)) horder
  have htasks : (List.finRange urls.length).map (fun p => searchTask req (urls.get p)) =
      urls.map (searchTask req) := by
    show (List.finRange urls.length).map (searchTask req ∘ urls.get) = _
    rw [← List.map_map, List.map_get_finRange]
  rw [htasks, List.length_finRange, foldl_addResult, List.nil_append] at hl
  unfold searchHandler
  rw [execution_bind, execution_ofExcept]
  dsimp only
  rw [hurls, execution_bind, execution_ofExcept]
  dsimp only
  rw [execution_bind, hl]
  rfl

end Results

/-! ## When they are ranked -/

section Ranked

variable {urls : List String} {order : List (Fin urls.length)} {succeeded : Fin urls.length → Bool}
  {outcome : Fin urls.length → Outcome}

/-- The selected results are those of the successful scrapes. -/
theorem Scrapes.selected_webResult (h : Scrapes urls succeeded outcome) :
    JoinSet.selected (fun p => (outcome p).webResult) order = order.filter succeeded :=
  List.filter_congr fun p _ => Bool.eq_iff_iff.mpr (isSome_webResult.trans (h.succeeded p).symm)

variable (urls succeeded) in
/-- Pages that tell which URL they are from. -/
def titledOutcome (p : Fin urls.length) : Outcome :=
  if succeeded p then
    some (.ok { ScrapeResult.sample (urls.get p) "" with title := some (String.ofList (List.replicate p 'x')) })
  else some (.error .timeout)

theorem scrapes_titledOutcome : Scrapes urls succeeded (titledOutcome urls succeeded) where
  succeeded p := by
    unfold titledOutcome
    split_ifs with hp
    · exact iff_of_true hp ⟨_, rfl⟩
    · exact iff_of_false hp (by rintro ⟨result, h⟩; cases h)
  url p result hp := by
    unfold titledOutcome at hp
    split_ifs at hp
    · cases hp
      rfl
    · cases hp

theorem title_of_titledOutcome {p : Fin urls.length} {r : SearchWebResult}
    (h : (titledOutcome urls succeeded p).webResult = some r) :
    r.title = some (String.ofList (List.replicate p 'x')) := by
  unfold titledOutcome at h
  split_ifs at h
  · cases h
    rfl
  · cases h

theorem titledOutcome_injective {p q : Fin urls.length} {r : SearchWebResult}
    (hp : (titledOutcome urls succeeded p).webResult = some r)
    (hq : (titledOutcome urls succeeded q).webResult = some r) : p = q := by
  have hlen := congrArg (Option.map String.length)
    ((title_of_titledOutcome hp).symm.trans (title_of_titledOutcome hq))
  simp only [Option.map_some, String.length_ofList, List.length_replicate, Option.some.injEq] at hlen
  exact Fin.ext hlen

end Ranked

/-- **The results of a search are ranked**, whatever the pages contain, exactly if the successful scrapes finish
in the order of the list. -/
theorem searchHandler_ranked_iff (web : Web) (crates : SearchCrates) (cfg : SearchConfig) (req : SearchRequest)
    (ρ : Answers) (urls : List String) (order : List (Fin urls.length)) (succeeded : Fin urls.length → Bool)
    (hurls : searchUrls web crates cfg req = .ok urls) (horder : order.Perm (List.finRange urls.length)) :
    (∀ outcome, Scrapes urls succeeded outcome →
      webResults ((searchHandler web crates cfg (.ok ()) req).execution
        (ρ.joining (List.finRange urls.length) order outcome) []).1 = some (rankedResults outcome)) ↔
      (order.filter succeeded).Pairwise (· < ·) := by
  have hspawned := List.pairwise_lt_finRange urls.length
  constructor
  · intro h
    have heq := h _ scrapes_titledOutcome
    rw [webResults_searchHandler hurls horder, Option.some.injEq] at heq
    rw [← scrapes_titledOutcome.selected_webResult]
    exact JoinSet.pairwise_of_filterMap_eq (fun p q r => titledOutcome_injective) hspawned heq
  · intro h outcome hscrapes
    rw [webResults_searchHandler hurls horder, rankedResults,
      JoinSet.filterMap_eq_of_pairwise hspawned horder (by rw [hscrapes.selected_webResult]; exact h)]

/-- A result page with two links, of which the second one is about the query. -/
def Web.sampleSearch : Web :=
  { Web.sample with
    hrefs := fun _ => ["/url?q=https://a/&sa=U", "/url?q=https://rust/&sa=U"] }

def SearchCrates.sample : SearchCrates where
  encode := id
  decode := some
  fromStr _ := .error ""
  toLowercase := id

def SearchRequest.sample : SearchRequest where
  query := "rust"
  limit := 5
  lang := none
  country := none
  scrapeOptions := none
  timeout := none

theorem searchUrls_sample : searchUrls .sampleSearch .sample ⟨none, none, none⟩ .sample =
    .ok ["https://rust/", "https://a/"] := by
  rfl

/-- Both scrapes succeed, in the order of the list. -/
theorem searchHandler_ranked_in_order :
    let urls := ["https://rust/", "https://a/"]
    ∀ outcome : Fin urls.length → Outcome, Scrapes urls (fun _ => true) outcome →
      webResults ((searchHandler .sampleSearch .sample ⟨none, none, none⟩ (.ok ()) .sample).execution
        (Answers.sample.joining (List.finRange urls.length) [0, 1] outcome) []).1 = some (rankedResults outcome) :=
  (searchHandler_ranked_iff .sampleSearch .sample ⟨none, none, none⟩ .sample .sample ["https://rust/", "https://a/"]
    [0, 1] (fun _ => true) searchUrls_sample (by decide)).mpr (by decide)

/-- The second page is there first. -/
theorem not_searchHandler_ranked : ¬ ∀ (web : Web) (crates : SearchCrates) (cfg : SearchConfig)
    (req : SearchRequest) (ρ : Answers) (urls : List String) (order : List (Fin urls.length))
    (succeeded : Fin urls.length → Bool) (outcome : Fin urls.length → Outcome),
    searchUrls web crates cfg req = .ok urls → order.Perm (List.finRange urls.length) →
      Scrapes urls succeeded outcome →
      webResults ((searchHandler web crates cfg (.ok ()) req).execution
        (ρ.joining (List.finRange urls.length) order outcome) []).1 = some (rankedResults outcome) := by
  intro h
  let urls := ["https://rust/", "https://a/"]
  let outcome (p : Fin urls.length) : Outcome := some (.ok (.sample (urls.get p) ""))
  have hscrapes : Scrapes urls (fun _ => true) outcome :=
    ⟨fun p => ⟨fun _ => ⟨_, rfl⟩, fun _ => rfl⟩, fun p result hp => by cases hp; rfl⟩
  have heq := h .sampleSearch .sample ⟨none, none, none⟩ .sample .sample urls [1, 0] (fun _ => true) outcome
    searchUrls_sample (by decide) hscrapes
  rw [webResults_searchHandler searchUrls_sample (by decide)] at heq
  exact absurd heq (by decide)

end FireCtrl
