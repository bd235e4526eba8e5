import FireCtrl.Extraction
import Mathlib.Algebra.FreeMonoid.Basic

/-!
# The URLs of an extract job

* `handedContents`: what is handed to the model when the scrapes finish in a given order;
  **`handedContents_eq_iff`**: on which pages the order has no influence.
* `OneHost`: without `allow_external_links` all requested pages are on one host; **`oneHost_iff`**.
* `IgnoreHonoured`: without `ignore_invalid_urls` a failed scrape fails the job, and with it none does;
  **`ignoreHonoured_iff`**.
-/

namespace FireCtrl

open Call (db ext)

/-! ## The order of completion -/

/-- The section of a page in the content, if it was scraped. -/
def pageSection (outcome : String → Outcome) (url : String) : String :=
  match outcome url with
  | some (.ok r) => (r.markdown.map fun md => "## " ++ url ++ "\n\n" ++ md ++ "\n\n").getD ""
  | _ => ""

section Order

variable (urls : UrlCrate) (jobId : Uuid) (createdAt : Timestamp) (job : ExtractJobData) (ρ : Answers)
  (outcome : String → Outcome)

/-- The contents that the model is asked about when the scrapes finish in a given order. -/
def handedContents (order : List String) : List String :=
  ((runExtract urls jobId createdAt job).execution
    (ρ.joining (extractUrls urls job) order outcome) []).2.asked.map ExtractionRequest.content

variable {urls jobId createdAt job ρ outcome} {order : List String}

theorem foldl_pageSection (content : String) :
    order.foldl (fun content url => addSection content (extractTask url) (outcome url)) content =
      content ++ String.join (order.map (pageSection outcome)) := by
  induction order generalizing content with
  | nil => simp
  | cons url order ih =>
    rw [List.foldl_cons, ih, List.map_cons, String.join_cons, ← String.append_assoc]
    congr 1
    unfold addSection pageSection
    rcases outcome url with _ | e | r
    · exact String.append_empty.symm
    · exact String.append_empty.symm
    · cases hmd : r.markdown with
      | none => simp [hmd]
      | some md => simp [extractTask, hmd, String.append_assoc]

/-- The sections follow each other as the scrapes finish. -/
theorem handedContents_eq (horder : order.Perm (extractUrls urls job)) :
    handedContents urls jobId createdAt job ρ outcome order = [String.join (order.map (pageSection outcome))] := by
  obtain ⟨l, hl, -, hjoins⟩ := joinEach_joining addSection "" ρ outcome extractTask horder
  rw [foldl_pageSection, String.empty_append, ← joinMarkdown_eq] at hl
  obtain ⟨rest, hlog, hasked, -⟩ := runExtract_log jobId createdAt hl
  rw [handedContents, hlog, Log.asked_append, hjoins.asked, hasked]
  rfl

/-- Texts as products. -/
theorem join_eq_iff {f : String → String} {l m : List String} :
    String.join (l.map f) = String.join (m.map f) ↔
      (l.map fun url => FreeMonoid.ofList (f url).toList).prod =
        (m.map fun url => FreeMonoid.ofList (f url).toList).prod := by
  have htoList (l : List String) : (String.join (l.map f)).toList =
      FreeMonoid.toList (l.map fun url => FreeMonoid.ofList (f url).toList).prod := by
    induction l with
    | nil => rfl
    | cons url l ih =>
      rw [List.map_cons, String.join_cons, String.toList_append, ih]
      rfl
  rw [← String.toList_inj, htoList, htoList, FreeMonoid.toList.injective.eq_iff]

theorem append_comm_iff {s t : String} :
    s ++ t = t ++ s ↔ Commute (FreeMonoid.ofList s.toList) (FreeMonoid.ofList t.toList) := by
  rw [← String.toList_inj, String.toList_append, String.toList_append]
  exact FreeMonoid.ofList.injective.eq_iff.symm

end Order

/-- **The content of an extract job** consists of the sections of the scraped pages, in the order in which
the scrapes finish: it is the same for all orders exactly if every two sections commute. -/
theorem handedContents_eq_iff (urls : UrlCrate) (jobId : Uuid) (createdAt : Timestamp) (job : ExtractJobData)
    (ρ : Answers) (outcome : String → Outcome) :
    (∀ order : List String, order.Perm (extractUrls urls job) →
      handedContents urls jobId createdAt job ρ outcome order =
        [String.join (order.map (pageSection outcome))]) ∧
    ((∀ order order' : List String, order.Perm (extractUrls urls job) → order'.Perm (extractUrls urls job) →
      handedContents urls jobId createdAt job ρ outcome order =
        handedContents urls jobId createdAt job ρ outcome order') ↔
      (extractUrls urls job).Pairwise fun u v =>
        pageSection outcome u ++ pageSection outcome v = pageSection outcome v ++ pageSection outcome u) := by
  refine ⟨fun order horder => handedContents_eq horder, ?_⟩
  simp only [append_comm_iff]
  rw [← JoinSet.forall_prod_eq_iff]
  have heq {order order' : List String} (horder : order.Perm (extractUrls urls job))
      (horder' : order'.Perm (extractUrls urls job)) :
      handedContents urls jobId createdAt job ρ outcome order =
          handedContents urls jobId createdAt job ρ outcome order' ↔
        (order.map fun url => FreeMonoid.ofList (pageSection outcome url).toList).prod =
          (order'.map fun url => FreeMonoid.ofList (pageSection outcome url).toList).prod := by
    rw [handedContents_eq horder, handedContents_eq horder', List.singleton_inj, join_eq_iff]
  constructor
  · intro h order horder
    exact (heq horder (.refl _)).mp (h order _ horder (.refl _))
  · intro h order order' horder horder'
    exact (heq horder horder').mpr ((h order horder).trans (h order' horder').symm)

/-- Two URLs, both of which are scraped. -/
def ExtractJobData.sample (urls : List String) : ExtractJobData where
  urls := urls
  prompt := none
  schema := none
  systemPrompt := none
  allowExternalLinks := false
  enableWebSearch := false
  ignoreInvalidUrls := false

/-- Two pages, one before the other and the other way round. -/
theorem not_handedContents_eq : ¬ ∀ (urls : UrlCrate) (jobId : Uuid) (createdAt : Timestamp) (job : ExtractJobData)
    (ρ : Answers) (outcome : String → Outcome) (order order' : List String),
    order.Perm (extractUrls urls job) → order'.Perm (extractUrls urls job) →
      handedContents urls jobId createdAt job ρ outcome order =
        handedContents urls jobId createdAt job ρ outcome order' := by
  intro h
  have heq := h .sample 1 0 (.sample ["https://example.com/", "https://example.com/b"]) .sample
    (fun url => some (.ok (.sample url url))) ["https://example.com/", "https://example.com/b"]
    ["https://example.com/b", "https://example.com/"] (by decide) (by decide)
  rw [handedContents_eq (by decide), handedContents_eq (by decide)] at heq
  exact absurd heq (by decide)

/-! ## The hosts -/

/-- Two pages on different hosts, behind a URL that is none. -/
def Web.sampleHosts : Web where
  urls :=
    { Url := String
      parse := fun s => if s = "not a url" then .error "relative URL without a base" else .ok s
      hostStr := fun s => if s = "https://a/" then some "a" else some "b" }
  scheme _ := "https"
  join _ href := .ok href
  urlString := id
  oneAgentAllowedByRobots _ := true
  fetch url := .ok (200, none, url)
  fetchPage _ _ _ := .error .timeout
  fetchSitemapUrls _ _ := []
  hrefs _ := []
  extractTitle _ := none
  htmlToMarkdown html := html
  extractText html _ := html
  htmlToStructuredJson _ _ := .null

/-- A scrape of `url` sends a request for the page, to the host of `parsed`. -/
structure Web.Requests (web : Web) (cfg : CrawlerConfig) (url : String) (parsed : web.urls.Url) : Prop where
  parse : web.urls.parse url = .ok parsed
  scheme : web.scheme parsed = "http" ∨ web.scheme parsed = "https"
  allowed : isAllowedByRobots web cfg parsed = true

/-- All pages that are requested for these URLs are on one host. -/
def Web.SameHost (web : Web) (cfg : CrawlerConfig) (urls : List String) : Prop :=
  ∀ u ∈ urls, ∀ v ∈ urls, ∀ pu pv, web.Requests cfg u pu → web.Requests cfg v pv →
    (web.urls.hostStr pu).getD "" = (web.urls.hostStr pv).getD ""

/-- Unless external links are allowed, an execution of the job stays on one host. -/
def OneHost (web : Web) (cfg : CrawlerConfig) (job : ExtractJobData) (log : Log) : Prop :=
  job.allowExternalLinks = false → web.SameHost cfg (log.outcomes.map fun x => x.1.url)

section Hosts

variable {web : Web} {cfg : CrawlerConfig} {urls : UrlCrate} {jobId : Uuid} {createdAt : Timestamp}
  {job : ExtractJobData} {ρ : Answers} {us vs : List String}

variable (urls jobId createdAt job ρ) in
/-- An extract job attempts each of its URLs once. -/
theorem runExtract_outcomes :
    (((runExtract urls jobId createdAt job).execution ρ []).2.outcomes.map fun x => x.1.url).Perm
      (extractUrls urls job) := by
  obtain ⟨l, hl, hperm, -⟩ := joinMarkdown_execution urls job ρ
  obtain ⟨rest, hlog, -, -, hrest⟩ := runExtract_log jobId createdAt hl
  rw [hlog, Log.outcomes_append, hrest, List.append_nil]
  have hurls := hperm.map Task.url
  rw [List.map_map, List.map_map] at hurls
  exact hurls.trans (.of_eq (List.map_id _))

/-- The origin host, if the first URL has one. -/
def originHost (urls : UrlCrate) (job : ExtractJobData) : Option String :=
  job.urls.head?.bind fun u => (urls.parse u).toOption.bind urls.hostStr

/-- The filter of an extract job. -/
theorem mem_extractUrls {url : String} : url ∈ extractUrls urls job ↔ url ∈ job.urls ∧
    ∀ origin parsed, originHost urls job = some origin → urls.parse url = .ok parsed →
      job.allowExternalLinks = true ∨ (urls.hostStr parsed).getD "" = origin := by
  have horigin : (job.urls.head?.bind fun u => ((urls.parse u).toOption.map urls.hostStr).join) =
      originHost urls job := by
    simp only [originHost, ← Option.bind_id_eq_join, Option.bind_map]
    rfl
  unfold extractUrls
  simp only [horigin, List.mem_filter]
  refine and_congr_right fun _ => ?_
  cases originHost urls job with
  | none => simp
  | some origin =>
    rcases hparse : urls.parse url with e | parsed
    · simp [Except.toOption]
    · simp [Except.toOption]

theorem extractUrls_subset : extractUrls urls job ⊆ job.urls := fun _ h => (mem_extractUrls.mp h).1

/-- Without an origin host, nothing is left out. -/
theorem subset_extractUrls (ho : originHost urls job = none) : job.urls ⊆ extractUrls urls job := fun _ h =>
  mem_extractUrls.mpr ⟨h, fun origin parsed horigin => by rw [ho] at horigin; cases horigin⟩

theorem Web.SameHost.mono (h : web.SameHost cfg us) (hsub : vs ⊆ us) : web.SameHost cfg vs :=
  fun u hu v hv => h u (hsub hu) v (hsub hv)

end Hosts

/-- **An extract job stays on one host** exactly if external links are allowed, or its first URL has a host, or
all pages it could request are on one anyway. -/
theorem oneHost_iff (web : Web) (cfg : CrawlerConfig) (jobId : Uuid) (createdAt : Timestamp)
    (job : ExtractJobData) (ρ : Answers) :
    OneHost web cfg job ((runExtract web.urls jobId createdAt job).execution ρ []).2 ↔
      job.allowExternalLinks = true ∨ (originHost web.urls job).isSome ∨ web.SameHost cfg job.urls := by
  have hperm := runExtract_outcomes web.urls jobId createdAt job ρ
  by_cases hallow : job.allowExternalLinks = true
  · exact iff_of_true (fun h => absurd hallow (by rw [h]; decide)) (.inl hallow)
  constructor
  · intro h
    refine .inr ?_
    by_cases ho : originHost web.urls job = none
    · refine .inr ((h (Bool.eq_false_of_not_eq_true hallow)).mono fun u hu => ?_)
      exact hperm.mem_iff.mpr (subset_extractUrls ho hu)
    · exact .inl (Option.isSome_iff_ne_none.mpr ho)
  · rintro (h | h | h) -
    · exact absurd h hallow
    · obtain ⟨origin, ho⟩ := Option.isSome_iff_exists.mp h
      intro u hu v hv pu pv hpu hpv
      have hostu := ((mem_extractUrls.mp (hperm.mem_iff.mp hu)).2 origin pu ho hpu.parse).resolve_left hallow
      have hostv := ((mem_extractUrls.mp (hperm.mem_iff.mp hv)).2 origin pv ho hpv.parse).resolve_left hallow
      exact hostu.trans hostv.symm
    · exact h.mono fun u hu => extractUrls_subset (hperm.mem_iff.mp hu)

/-- Behind a URL that does not parse, both hosts are requested. -/
theorem not_oneHost : ¬ ∀ (web : Web) (cfg : CrawlerConfig) (jobId : Uuid) (createdAt : Timestamp)
    (job : ExtractJobData) (ρ : Answers),
    OneHost web cfg job ((runExtract web.urls jobId createdAt job).execution ρ []).2 := by
  intro h
  have hperm :=
    runExtract_outcomes Web.sampleHosts.urls 1 0 (.sample ["not a url", "https://a/", "https://b/"]) .sample
  have hhost := h .sampleHosts .sample 1 0 (.sample ["not a url", "https://a/", "https://b/"]) .sample rfl
    "https://a/" (hperm.mem_iff.mpr (by decide)) "https://b/" (hperm.mem_iff.mpr (by decide))
    "https://a/" "https://b/"
    ⟨rfl, .inr rfl, rfl⟩ ⟨rfl, .inr rfl, rfl⟩
  exact absurd hhost (by decide)

/-! ## Failed scrapes -/

namespace Log

variable (log : Log)

/-- Every joined task was scraped. -/
def AllScraped : Prop := ∀ x ∈ log.outcomes, ∃ r, x.2 = some (.ok r)

/-- The model was asked and failed. -/
def LlmFailed : Prop := ∃ req e, (⟨.ext (.llmExtract req), .error e⟩ : (o : Op) × o.Ans) ∈ log

def DbFailed : Prop := ∃ q e, (⟨.db q, .error e⟩ : (o : Op) × o.Ans) ∈ log

end Log

/-- Without `ignore_invalid_urls` the job is completed only if every URL was scraped; with it, only the model
or the database fails the job. -/
structure IgnoreHonoured (job : ExtractJobData) (res : Except AppError Unit) (log : Log) : Prop where
  strict : job.ignoreInvalidUrls = false → log.stored ≠ [] → log.AllScraped
  lenient : job.ignoreInvalidUrls = true → ∀ e, res = .error e → log.LlmFailed ∨ log.DbFailed

section Failures

variable {job : ExtractJobData} {content : String} {res : Except AppError Unit} {log l : Log}

/-- If an answer of the model is stored, the scrapes decide. -/
theorem ignoreHonoured_iff_of_stored (hstored : log.stored ≠ []) (hdb : ∀ e, res = .error e → log.DbFailed) :
    IgnoreHonoured job res log ↔ job.ignoreInvalidUrls = true ∨ log.AllScraped := by
  constructor
  · intro h
    by_cases hignore : job.ignoreInvalidUrls = true
    · exact .inl hignore
    · exact .inr (h.strict (Bool.eq_false_of_not_eq_true hignore) hstored)
  · rintro (h | h)
    · exact ⟨fun hfalse => absurd h (by rw [hfalse]; decide), fun _ e he => .inr (hdb e he)⟩
    · exact ⟨fun _ _ => h, fun _ e he => .inr (hdb e he)⟩

/-- If nothing is stored, a failure of the model is what fails the job. -/
theorem ignoreHonoured_of_llmFailed (hstored : log.stored = []) (hllm : log.LlmFailed) :
    IgnoreHonoured job res log :=
  ⟨fun _ hne => absurd hstored hne, fun _ _ _ => .inl hllm⟩

theorem Log.Joining.stored_extractedLog (hjoins : l.Joining) (a : Except String ExtractionResult) :
    (extractedLog l job content a).stored = [] := by
  rw [extractedLog, Log.stored_append, hjoins.stored]
  rfl

theorem llmFailed_extractedLog (e : String) : (extractedLog l job content (.error e)).LlmFailed :=
  ⟨_, e, List.mem_append_right _ List.mem_cons_self⟩

/-- The joins and the store are no failures of the model. -/
theorem Log.Joining.not_llmFailed (hjoins : l.Joining) (x : ExtractionResult) (q : Query) (a : (Op.db q).Ans) :
    ¬ (extractedLog l job content (.ok x) ++ [⟨.db q, a⟩] : Log).LlmFailed := by
  rintro ⟨req, e, hmem⟩
  simp only [extractedLog, List.mem_append, List.mem_singleton] at hmem
  rcases hmem with (hmem | hmem) | hmem
  · obtain ⟨t, ts, hop⟩ := hjoins _ hmem
    cases hop
  · cases hmem
  · cases hmem

/-- What an extract job is completed with is what the model has made of the joined pages. -/
theorem exists_extracted {urls : UrlCrate} {jobId : Uuid} {createdAt : Timestamp} {ρ : Answers} {v : Json}
    (hv : v ∈ ((runExtract urls jobId createdAt job).execution ρ []).2.stored) :
    ∃ l x, (joinMarkdown (extractUrls urls job).length ((extractUrls urls job).map extractTask) "").execution ρ [] =
        (.ok (ExtractionPath.joinedText l), l) ∧ l.Joining ∧
      ρ l (.ext (.llmExtract (extractRequest job (ExtractionPath.joinedText l)))) = .ok x ∧
      v = .obj [("data", x.data)] := by
  obtain ⟨l, hl, -, hjoins⟩ := joinMarkdown_execution urls job ρ
  cases ha : ρ l (.ext (.llmExtract (extractRequest job (ExtractionPath.joinedText l)))) with
  | error e =>
    rw [runExtract_of_error hl ha, hjoins.stored_extractedLog] at hv
    cases hv
  | ok x =>
    rw [runExtract_of_ok hl ha] at hv
    dsimp only at hv
    rw [Log.stored_append, hjoins.stored_extractedLog] at hv
    exact ⟨l, x, hl, hjoins, ha, List.mem_singleton.mp hv⟩

end Failures

/-- **`ignore_invalid_urls` is honoured** exactly if it is set, or every URL is scraped, or the model fails. -/
theorem ignoreHonoured_iff (urls : UrlCrate) (jobId : Uuid) (createdAt : Timestamp) (job : ExtractJobData)
    (ρ : Answers) :
    let x := (runExtract urls jobId createdAt job).execution ρ []
    (x.2.outcomes.map fun y => y.1.url).Perm (extractUrls urls job) ∧
      (IgnoreHonoured job x.1 x.2 ↔ job.ignoreInvalidUrls = true ∨ x.2.AllScraped ∨ x.2.LlmFailed) := by
  intro x
  refine ⟨runExtract_outcomes urls jobId createdAt job ρ, ?_⟩
  obtain ⟨l, hl, -, hjoins⟩ := joinMarkdown_execution urls job ρ
  rcases ha : ρ l (.ext (.llmExtract (extractRequest job (ExtractionPath.joinedText l)))) with e | data
  · have hx : x = _ := runExtract_of_error hl ha
    have hllm : x.2.LlmFailed := by
      rw [hx]
      exact llmFailed_extractedLog e
    have hstored : x.2.stored = [] := by
      rw [hx]
      exact hjoins.stored_extractedLog _
    exact iff_of_true (ignoreHonoured_of_llmFailed hstored hllm) (.inr (.inr hllm))
  · have hx : x = _ := runExtract_of_ok hl ha
    have hllm : ¬ x.2.LlmFailed := by
      rw [hx]
      exact hjoins.not_llmFailed data _ _
    have hstored : x.2.stored ≠ [] := by
      rw [hx, Log.stored_append, hjoins.stored_extractedLog]
      exact List.cons_ne_nil _ _
    have hdb : ∀ e, x.1 = .error e → x.2.DbFailed := by
      intro e he
      rw [hx] at he ⊢
      exact ⟨storeExtraction jobId createdAt data, e,
        List.mem_append_right _ (List.mem_singleton.mpr (congrArg (Sigma.mk _) he.symm))⟩
    rw [ignoreHonoured_iff_of_stored hstored hdb, or_iff_left hllm]

/-- One URL that is not scraped. -/
theorem not_ignoreHonoured : ¬ ∀ (urls : UrlCrate) (jobId : Uuid) (createdAt : Timestamp) (job : ExtractJobData)
    (ρ : Answers), IgnoreHonoured job ((runExtract urls jobId createdAt job).execution ρ []).1
      ((runExtract urls jobId createdAt job).execution ρ []).2 := by
  intro h
  have hall := (h .sample 1 0 (.sample ["https://example.com/gone"]) .sample).strict rfl (List.cons_ne_nil _ _)
  obtain ⟨r, hr⟩ := hall (extractTask "https://example.com/gone", some (.error .timeout)) List.mem_cons_self
  cases hr

end FireCtrl
