import FireCtrl.Crawl
import FireCtrl.Joins
import FireCtrl.System.Model

/-!
# What reaches the model

Pages are extracted in three places: while the client of `/v2/scrape` waits, in a scrape job and, the
pages of several URLs together, in an extract job.

* `ExtractionPath`, `InputLimit`: the input of the model has at most `max_input_chars` characters, and
  what was cut carries a warning; **`inputLimit_iff`**: extract jobs do not see to it.
* `ExtractionRequest.effective`: a request with the default that the client puts in for its prompt;
  **`extraction_agrees_iff`**: when a scrape job asks the model what the handler would have asked.
-/

namespace FireCtrl

open Call (db ext)

/-! ## The three paths -/

inductive ExtractionPath
  | scrapeHandler (gate : Except AppError Unit) (isConfigured : Bool) (req : ScrapeRequest)
  | runScrape (jobId : Uuid) (createdAt : Timestamp) (job : ScrapeJobData)
  | runExtract (jobId : Uuid) (createdAt : Timestamp) (job : ExtractJobData)

namespace ExtractionPath

/-- What an extract job makes of the pages it joins. -/
def joinedText (log : Log) : String :=
  String.join (log.joined.map fun p => "## " ++ p.1 ++ "\n\n" ++ p.2 ++ "\n\n")

/-- What is executed; a request returns its result. -/
def program (cfg : Config) (urls : UrlCrate) : ExtractionPath → Call (Option ScrapeResult)
  | scrapeHandler gate isConfigured req => do
    let res ← FireCtrl.scrapeHandler cfg gate isConfigured req
    return some res.data
  | runScrape jobId createdAt job => do
    FireCtrl.runScrape cfg jobId createdAt job
    return none
  | runExtract jobId createdAt job => do
    FireCtrl.runExtract urls jobId createdAt job
    return none

/-- The text of the pages, before it is cut. -/
def text : ExtractionPath → Log → String
  | scrapeHandler .., log => (log.scraped.bind fun r => r.markdown <|> r.html <|> r.rawHtml).getD ""
  | runScrape .., log => (log.scraped.bind fun r => r.markdown <|> r.html).getD ""
  | runExtract .., log => joinedText log

end ExtractionPath

/-- The input of the model is not longer than the limit, and if it was cut the result says so. -/
def InputLimit (cfg : Config) (path : ExtractionPath) (res : Except AppError (Option ScrapeResult))
    (log : Log) : Prop :=
  ∀ req ∈ log.asked, req.content.length ≤ cfg.llmMaxInputChars ∧
    (req.content ≠ path.text log →
      (∀ v ∈ log.stored, ∃ r : ScrapeResult, v = toValue r ∧ r.warning.isSome) ∧
        ∀ r, res = .ok (some r) → r.warning.isSome)

/-! ## Cutting -/

/-- The first `n` characters. -/
def cutTo (n : ℕ) (s : String) : String :=
  let cut : Bool := n < s.length
  if cut then String.ofList (s.toList.take n) else s

section Cut

variable {n : ℕ} {s : String}

theorem length_cutTo_le : (cutTo n s).length ≤ n := by
  simp only [cutTo, decide_eq_true_eq]
  split_ifs with h
  · rw [String.length_ofList, List.length_take]
    exact min_le_left _ _
  · omega

theorem cutTo_ne (h : cutTo n s ≠ s) : n < s.length := by
  by_contra hn
  exact h (by simp [cutTo, hn])

end Cut

/-- The request of `scrape_handler`. -/
def handlerRequest (cfg : Config) (result : ScrapeResult) (extract : ExtractOptions) :
    ExtractionRequest where
  content := cutTo cfg.llmMaxInputChars ((result.markdown <|> result.html <|> result.rawHtml).getD "")
  prompt := extract.prompt.getD ""
  schema := extract.schema
  systemPrompt := extract.systemPrompt

/-- The request of a scrape job. -/
def workerRequest (cfg : Config) (result : ScrapeResult) (extract : ExtractOptions) :
    ExtractionRequest where
  content := cutTo cfg.llmMaxInputChars ((result.markdown <|> result.html).getD "")
  prompt := extract.prompt.getD "Extract all structured data from this page."
  schema := extract.schema
  systemPrompt := extract.systemPrompt

section Requests

variable (cfg : Config) (result : ScrapeResult) (extract : ExtractOptions) (ρ : Answers) (log : Log)

/-- The page of `job` has been scraped, and the model asked. -/
def askedLog (job : ScrapeJobData) (req : ExtractionRequest) (a : Except String ExtractionResult) : Log :=
  [⟨.ext (.scrape job), .ok result⟩, ⟨.ext (.llmExtract req), a⟩]

/-- One operation, and a warning if something was cut. -/
def Extracts (c : Call ScrapeResult) (req : ExtractionRequest) (cut : Prop) : Prop :=
  ∃ r a, c.execution ρ log = (.ok r, log ++ [⟨.ext (.llmExtract req), a⟩]) ∧ (cut → r.warning.isSome)

theorem applyExtraction_extracts :
    Extracts ρ log (applyExtraction cfg result extract.prompt extract.schema extract.systemPrompt)
      (workerRequest cfg result extract)
      (cfg.llmMaxInputChars < ((result.markdown <|> result.html).getD "").length) := by
  unfold Extracts applyExtraction workerRequest cutTo
  dsimp only
  rw [execution_ext_bind]
  split
  · rename_i x _
    refine ⟨_, _, execution_pure _, fun hcut => ?_⟩
    simp only [hcut, decide_true, if_true]
    rcases x.warning with _ | w <;> rfl
  · refine ⟨_, _, execution_pure _, fun hcut => ?_⟩
    simp only [hcut, decide_true, if_true]
    rfl

theorem inlineExtraction_extracts :
    Extracts ρ log (inlineExtraction cfg result extract) (handlerRequest cfg result extract)
      (cfg.llmMaxInputChars < ((result.markdown <|> result.html <|> result.rawHtml).getD "").length) := by
  unfold Extracts inlineExtraction handlerRequest cutTo
  dsimp only
  rw [execution_ext_bind]
  split
  · rename_i x _
    refine ⟨_, _, execution_pure _, fun hcut => ?_⟩
    simp only [hcut, decide_true, if_true]
    rcases x.warning with _ | w <;> rfl
  · refine ⟨_, _, execution_pure _, fun hcut => ?_⟩
    simp only [hcut, decide_true, if_true]
    rfl

/-- The end of a scrape job. -/
theorem complete_execution (jobId : Uuid) (createdAt : Timestamp) (v : Json) (url : Option String)
    (payload : Json) :
    ∃ l : Log, ((do db (.completeJob jobId createdAt v); fireWebhook url payload : Call Unit).execution ρ
      log).2 = log ++ l ∧ l.asked = [] ∧ l.stored = [v] := by
  rw [execution_bind, execution_db]
  rcases ρ log (.db (.completeJob jobId createdAt v)) with e | u
  · exact ⟨_, rfl, rfl, rfl⟩
  · cases url with
    | none => exact ⟨_, rfl, rfl, rfl⟩
    | some url => exact ⟨_, List.append_assoc _ _ _, rfl, rfl⟩

end Requests

/-! ## The handler -/

section ScrapeHandler

variable {cfg : Config} {gate : Except AppError Unit} {isConfigured : Bool} {req : ScrapeRequest}
  {result : ScrapeResult} {extract : ExtractOptions} {ρ : Answers}

variable (cfg) in
/-- A request that has its page asks the model, and returns the result. -/
theorem scrapeHandler_asks (hscrape : ρ [] (.ext (.scrape (req.job req.effectiveFormats))) = .ok result)
    (hextract : req.extract = some extract) :
    ∃ r a, (scrapeHandler cfg (.ok ()) true req).execution ρ [] = (.ok ⟨true, req.hide r⟩,
        askedLog result (req.job req.effectiveFormats) (handlerRequest cfg result extract) a) ∧
      (cfg.llmMaxInputChars < ((result.markdown <|> result.html <|> result.rawHtml).getD "").length →
        r.warning.isSome) := by
  obtain ⟨r, a, hr, hcut⟩ := inlineExtraction_extracts cfg result extract ρ
    [⟨.ext (.scrape (req.job req.effectiveFormats)), .ok result⟩]
  refine ⟨r, a, ?_, hcut⟩
  unfold scrapeHandler
  rw [execution_bind, execution_ofExcept]
  simp only
  rw [execution_ext_bind, hscrape, execution_bind, execution_ofExcept]
  simp only [hextract, if_true, execution_bind, List.nil_append, hr]
  rfl

/-- Refused, without a page, without options or without a model, it does not ask. -/
theorem scrapeHandler_silent (h : (∃ e, gate = .error e) ∨
    (∃ e, ρ [] (.ext (.scrape (req.job req.effectiveFormats))) = .error e) ∨ req.extract = none ∨
      isConfigured = false) :
    ((scrapeHandler cfg gate isConfigured req).execution ρ []).2.asked = [] := by
  unfold scrapeHandler
  rw [execution_bind, execution_ofExcept]
  rcases gate with e | u
  · rfl
  · simp only
    rw [execution_ext_bind, execution_bind, execution_ofExcept]
    rcases hscrape : ρ [] (.ext (.scrape (req.job req.effectiveFormats))) with e | result
    · rfl
    · rcases hextract : req.extract with _ | extract
      · rfl
      · cases isConfigured with
        | false => rfl
        | true => simp [hscrape, hextract] at h

theorem inputLimit_scrapeHandler (urls : UrlCrate) :
    let path : ExtractionPath := .scrapeHandler gate isConfigured req
    InputLimit cfg path ((path.program cfg urls).execution ρ []).1
      ((path.program cfg urls).execution ρ []).2 := by
  intro path
  have hres : (path.program cfg urls).execution ρ [] =
      (((scrapeHandler cfg gate isConfigured req).execution ρ []).1.map fun res => some res.data,
        ((scrapeHandler cfg gate isConfigured req).execution ρ []).2) := execution_map _ _
  rw [hres]
  intro llmReq hreq
  rcases hgate : gate with e | u
  · rw [scrapeHandler_silent (.inl ⟨e, hgate⟩)] at hreq
    cases hreq
  rcases hscrape : ρ [] (.ext (.scrape (req.job req.effectiveFormats))) with e | result
  · rw [scrapeHandler_silent (.inr (.inl ⟨e, hscrape⟩))] at hreq
    cases hreq
  rcases hextract : req.extract with _ | extract
  · rw [scrapeHandler_silent (.inr (.inr (.inl hextract)))] at hreq
    cases hreq
  cases isConfigured with
  | false =>
    rw [scrapeHandler_silent (.inr (.inr (.inr rfl)))] at hreq
    cases hreq
  | true =>
    obtain ⟨r, a, hx, hcut⟩ := scrapeHandler_asks cfg hscrape hextract
    rw [hgate, hx] at hreq
    rw [hx]
    cases List.mem_singleton.mp hreq
    refine ⟨length_cutTo_le, fun hne => ⟨fun v hv => (List.not_mem_nil hv).elim, fun r' hr' => ?_⟩⟩
    cases hr'
    exact hcut (cutTo_ne fun h => hne h)

end ScrapeHandler

/-! ## Scrape jobs -/

section RunScrape

variable {cfg : Config} {jobId : Uuid} {createdAt : Timestamp} {job : ScrapeJobData}
  {result : ScrapeResult} {extract : ExtractOptions} {ρ : Answers}

variable (cfg jobId createdAt) in
/-- A scrape job that has its page asks the model, and stores the result. -/
theorem runScrape_asks (hscrape : ρ [] (.ext (.scrape job)) = .ok result)
    (hextract : job.extract = some extract) :
    let log := ((runScrape cfg jobId createdAt job).execution ρ []).2
    log.asked = [workerRequest cfg result extract] ∧ log.scraped = some result ∧
      ∃ r : ScrapeResult, (∀ v ∈ log.stored, v = toValue r) ∧
        (cfg.llmMaxInputChars < ((result.markdown <|> result.html).getD "").length →
          r.warning.isSome) := by
  intro log
  obtain ⟨r, a, hr, hcut⟩ := applyExtraction_extracts cfg result extract ρ [⟨.ext (.scrape job), .ok result⟩]
  obtain ⟨l, hl, hasked, hstored⟩ := complete_execution ρ
    (askedLog result job (workerRequest cfg result extract) a) jobId createdAt (toValue r) job.webhook
    (.obj [("type", .str "scrape.completed"), entry "job_id" jobId, entry "data" r])
  have hlog : log = askedLog result job (workerRequest cfg result extract) a ++ l := by
    rw [← hl]
    show ((runScrape cfg jobId createdAt job).execution ρ []).2 = _
    unfold runScrape
    rw [execution_ext_bind, hscrape, execution_bind, execution_ofExcept]
    simp only [hextract, execution_bind, List.nil_append, hr]
    rfl
  rw [hlog]
  refine ⟨by rw [Log.asked_append, hasked]; rfl, Log.scraped_append rfl, r, fun v hv => ?_, hcut⟩
  rw [Log.stored_append, hstored] at hv
  exact List.mem_singleton.mp hv

/-- Without a page, or without options for it, it does not ask. -/
theorem runScrape_silent (h : (∃ e, ρ [] (.ext (.scrape job)) = .error e) ∨ job.extract = none) :
    ((runScrape cfg jobId createdAt job).execution ρ []).2.asked = [] := by
  unfold runScrape
  rw [execution_ext_bind, execution_bind, execution_ofExcept]
  rcases hscrape : ρ [] (.ext (.scrape job)) with e | result
  · rfl
  · have hextract : job.extract = none := by
      rcases h with ⟨e, h⟩ | h
      · rw [hscrape] at h; cases h
      · exact h
    obtain ⟨l, hl, hasked, -⟩ := complete_execution ρ [⟨.ext (.scrape job), .ok result⟩] jobId createdAt
      (toValue result) job.webhook
      (.obj [("type", .str "scrape.completed"), entry "job_id" jobId, entry "data" result])
    have hlog : _ = _ ++ l := hl
    simp only [hextract, execution_bind, execution_pure, List.nil_append] at hlog ⊢
    rw [hlog, Log.asked_append, hasked]
    rfl

theorem inputLimit_runScrape (urls : UrlCrate) :
    let path : ExtractionPath := .runScrape jobId createdAt job
    InputLimit cfg path ((path.program cfg urls).execution ρ []).1
      ((path.program cfg urls).execution ρ []).2 := by
  intro path
  have hres : (path.program cfg urls).execution ρ [] =
      (((runScrape cfg jobId createdAt job).execution ρ []).1.map fun _ => none,
        ((runScrape cfg jobId createdAt job).execution ρ []).2) := execution_map _ _
  rw [hres]
  intro req hreq
  rcases hscrape : ρ [] (.ext (.scrape job)) with e | result
  · rw [runScrape_silent (.inl ⟨e, hscrape⟩)] at hreq
    cases hreq
  · rcases hextract : job.extract with _ | extract
    · rw [runScrape_silent (.inr hextract)] at hreq
      cases hreq
    · obtain ⟨hasked, hscraped, r, hstored, hcut⟩ := runScrape_asks cfg jobId createdAt
        hscrape hextract
      rw [hasked, List.mem_singleton] at hreq
      subst hreq
      refine ⟨length_cutTo_le, fun hne => ⟨fun v hv => ⟨r, hstored v hv, hcut (cutTo_ne fun h => hne ?_)⟩, ?_⟩⟩
      · rw [ExtractionPath.text, hscraped]
        exact h
      · rcases ((runScrape cfg jobId createdAt job).execution ρ []).1 with _ | u <;>
        · intro r hr
          cases hr

end RunScrape

/-! ## Extract jobs -/

section RunExtract

variable {cfg : Config} {urls : UrlCrate} {jobId : Uuid} {createdAt : Timestamp} {job : ExtractJobData}
  {ρ : Answers} {log l : Log}

open ExtractionPath (joinedText)

theorem joinedText_append : joinedText (log ++ l) = joinedText log ++ joinedText l := by
  unfold joinedText
  rw [Log.joined_append, List.map_append, String.join_append]

theorem length_joinedText :
    (joinedText log).length = (log.joined.map fun p => p.1.length + p.2.length + 7).sum := by
  unfold joinedText
  induction log.joined with
  | nil => rfl
  | cons p ps ih =>
    rw [List.map_cons, String.join_cons, String.length_append, ih, List.map_cons, List.sum_cons]
    simp only [String.length_append, show "## ".length = 3 from rfl, show "\n\n".length = 2 from rfl]
    omega

/-- What a joined page adds to the content. -/
def addSection (content : String) (t : Task) : Outcome → String
  | some (.ok r) =>
    match r.markdown with
    | some md => content ++ "## " ++ t.url ++ "\n\n" ++ md ++ "\n\n"
    | none => content
  | _ => content

theorem joinMarkdown_eq (n : ℕ) (ts : List Task) (content : String) :
    joinMarkdown n ts content = joinEach addSection n ts content := by
  induction n generalizing ts content with
  | zero => rfl
  | succ n ih =>
    cases ts with
    | nil => rfl
    | cons t ts =>
      unfold joinMarkdown joinEach
      refine bind_congr fun x => ?_
      obtain ⟨i, _ | e | r⟩ := x
      · exact ih _ _
      · exact ih _ _
      · simp only [addSection]
        cases r.markdown <;> exact ih _ _

theorem foldl_addSection (content : String) (l : Log) :
    l.outcomes.foldl (fun content x => addSection content x.1 x.2) content = content ++ joinedText l := by
  induction l generalizing content with
  | nil => simp [Log.outcomes, joinedText, Log.joined]
  | cons x l ih =>
    have hsplit : joinedText (x :: l) = joinedText [x] ++ joinedText l := @joinedText_append [x] l
    have houtcomes : Log.outcomes (x :: l) = Log.outcomes [x] ++ Log.outcomes l := @Log.outcomes_append [x] l
    rw [houtcomes, List.foldl_append, ih, hsplit, ← String.append_assoc]
    congr 1
    obtain ⟨_ | _ | _ | _ | ⟨t, ts⟩ | _, a⟩ := x
    case ext.joinNext =>
      obtain ⟨i, _ | e | r⟩ := a
      · exact String.append_empty.symm
      · exact String.append_empty.symm
      · rcases hmd : r.markdown with _ | md
        · simp [joinedText, Log.joined, Log.joinedBy, Log.outcomes, Log.outcomeBy, addSection, hmd]
        · simp [joinedText, Log.joined, Log.joinedBy, Log.outcomes, Log.outcomeBy, addSection, hmd,
            String.append_assoc]
    all_goals exact String.append_empty.symm

/-- What an extract job asks the model about its content. -/
def extractRequest (job : ExtractJobData) (content : String) : ExtractionRequest where
  content := content
  prompt := job.prompt.getD "Extract all relevant information."
  schema := job.schema
  systemPrompt := job.systemPrompt

/-- How an extract job stores the answer. -/
def storeExtraction (jobId : Uuid) (createdAt : Timestamp) (x : ExtractionResult) : Query :=
  .completeJob jobId createdAt (.obj [("data", x.data)])

/-- What has happened once the model has answered. -/
def extractedLog (l : Log) (job : ExtractJobData) (content : String) (a : Except String ExtractionResult) : Log :=
  l ++ [⟨.ext (.llmExtract (extractRequest job content)), a⟩]

section Joined

variable {content : String}
  (h : (joinMarkdown (extractUrls urls job).length ((extractUrls urls job).map extractTask) "").execution ρ [] =
    (.ok content, l))
include h

/-- Once its pages are joined, an extract job asks the model. -/
theorem runExtract_of_error {e : String} (ha : ρ l (.ext (.llmExtract (extractRequest job content))) = .error e) :
    (runExtract urls jobId createdAt job).execution ρ [] =
      (.error (.llm e), extractedLog l job content (.error e)) := by
  unfold runExtract
  dsimp only
  rw [List.length_map, execution_bind, h]
  dsimp only
  rw [execution_ext_bind]
  unfold extractRequest at ha
  rw [ha]
  rfl

/-- An answer of the model is stored. -/
theorem runExtract_of_ok {x : ExtractionResult}
    (ha : ρ l (.ext (.llmExtract (extractRequest job content))) = .ok x) :
    (runExtract urls jobId createdAt job).execution ρ [] =
      (ρ (extractedLog l job content (.ok x)) (.db (storeExtraction jobId createdAt x)),
        extractedLog l job content (.ok x) ++ [⟨.db (storeExtraction jobId createdAt x),
          ρ (extractedLog l job content (.ok x)) (.db (storeExtraction jobId createdAt x))⟩]) := by
  unfold runExtract
  dsimp only
  rw [List.length_map, execution_bind, h]
  dsimp only
  rw [execution_ext_bind]
  unfold extractRequest at ha
  rw [ha]
  rfl

variable (jobId createdAt) in
/-- What is logged after the joins. -/
theorem runExtract_log : ∃ rest : Log, ((runExtract urls jobId createdAt job).execution ρ []).2 = l ++ rest ∧
    rest.asked = [extractRequest job content] ∧ rest.joined = [] ∧ rest.outcomes = [] := by
  rcases ha : ρ l (.ext (.llmExtract (extractRequest job content))) with e | x
  · rw [runExtract_of_error h ha]
    exact ⟨_, rfl, rfl, rfl, rfl⟩
  · rw [runExtract_of_ok h ha]
    exact ⟨_, List.append_assoc _ _ _, rfl, rfl, rfl⟩

end Joined

variable (urls job ρ) in
/-- The joins of an extract job. -/
theorem joinMarkdown_execution : ∃ l : Log,
    (joinMarkdown (extractUrls urls job).length ((extractUrls urls job).map extractTask) "").execution ρ [] =
      (.ok (joinedText l), l) ∧
    (l.outcomes.map Prod.fst).Perm ((extractUrls urls job).map extractTask) ∧ l.Joining := by
  obtain ⟨l, hl, hperm, hjoins⟩ := joinEach_execution addSection ((extractUrls urls job).map extractTask) "" ρ []
  rw [foldl_addSection, String.empty_append, List.nil_append, List.length_map] at hl
  exact ⟨l, by rw [joinMarkdown_eq, hl], hperm, hjoins⟩

variable (urls jobId createdAt job ρ) in
/-- An extract job asks the model about all that it has joined. -/
theorem runExtract_asks : ∃ req, ((runExtract urls jobId createdAt job).execution ρ []).2.asked = [req] ∧
    req.content = joinedText ((runExtract urls jobId createdAt job).execution ρ []).2 := by
  obtain ⟨l, hl, -, hjoins⟩ := joinMarkdown_execution urls job ρ
  obtain ⟨rest, hlog, hasked, hjoined, -⟩ := runExtract_log jobId createdAt hl
  refine ⟨extractRequest job (joinedText l), ?_, ?_⟩
  · rw [hlog, Log.asked_append, hjoins.asked, hasked, List.nil_append]
  · have hrest : joinedText rest = "" := by rw [joinedText, hjoined]; rfl
    rw [hlog, joinedText_append, hrest, String.append_empty, extractRequest]

end RunExtract

/-- **The limit on the input of the model** is kept, and every cut is reported, except by extract jobs:
they keep to it exactly if what the joined pages amount to is within it. -/
theorem inputLimit_iff (cfg : Config) (urls : UrlCrate) (path : ExtractionPath) (ρ : Answers) :
    InputLimit cfg path ((path.program cfg urls).execution ρ []).1
        ((path.program cfg urls).execution ρ []).2 ↔
      ∀ jobId createdAt job, path = .runExtract jobId createdAt job →
        (((path.program cfg urls).execution ρ []).2.joined.map fun p =>
          p.1.length + p.2.length + 7).sum ≤ cfg.llmMaxInputChars := by
  cases path with
  | scrapeHandler gate isConfigured req =>
    exact iff_of_true (inputLimit_scrapeHandler urls) fun _ _ _ h => by cases h
  | runScrape jobId createdAt job =>
    exact iff_of_true (inputLimit_runScrape urls) fun _ _ _ h => by cases h
  | runExtract jobId createdAt job =>
    have hlog : (((ExtractionPath.runExtract jobId createdAt job).program cfg urls).execution ρ []).2 =
        ((runExtract urls jobId createdAt job).execution ρ []).2 :=
      congrArg Prod.snd (execution_map _ _)
    obtain ⟨req, hasked, hcontent⟩ := runExtract_asks urls jobId createdAt job ρ
    rw [InputLimit, hlog, hasked, ← length_joinedText, ← hcontent]
    constructor
    · intro h _ _ _ _
      exact (h req (List.mem_singleton.mpr rfl)).1
    · intro h req' hreq'
      cases List.mem_singleton.mp hreq'
      exact ⟨h _ _ _ rfl, fun hne => absurd hcontent hne⟩

/-- The pages of `Web.sample`, and a model that answers `null`. -/
def Answers.sample : Answers
  | _, .ext (.scrape job) => scrape .sample .sample job
  | _, .ext (.joinNext t _) => (⟨0, Nat.succ_pos _⟩, some (scrape .sample .sample t.job))
  | _, .ext (.crawl _) => .ok []
  | _, .ext (.llmExtract _) => .ok ⟨.null, none⟩
  | _, .ext (.fireWebhook ..) => true
  | _, .db (.completeJob ..) => .ok ()
  | _, .db _ => .error .timeout

/-- One page of 47 characters, with a limit of 40. -/
theorem not_inputLimit : ¬ ∀ (cfg : Config) (urls : UrlCrate) (path : ExtractionPath) (ρ : Answers),
    InputLimit cfg path ((path.program cfg urls).execution ρ []).1
      ((path.program cfg urls).execution ρ []).2 := by
  intro h
  let job : ExtractJobData :=
    { urls := ["https://example.com/"], prompt := none, schema := none, systemPrompt := none,
      allowExternalLinks := false, enableWebSearch := false, ignoreInvalidUrls := false }
  have hlimit := h { Config.sample with llmMaxInputChars := 40 } .sample (.runExtract 1 0 job) .sample
    ⟨"## https://example.com/\n\nhttps://example.com/\n\n", "Extract all relevant information.", none, none⟩
    (List.mem_singleton.mpr rfl)
  exact absurd hlimit.1 (by decide)

/-! ## The handler and the job -/

/-- `char::is_whitespace`. -/
def isWhitespace (c : Char) : Bool :=
  let n := c.toNat
  (9 ≤ n && n ≤ 13) || n == 0x20 || n == 0x85 || n == 0xa0 || n == 0x1680 ||
    (0x2000 ≤ n && n ≤ 0x200a) || n == 0x2028 || n == 0x2029 || n == 0x202f || n == 0x205f || n == 0x3000

/-- `prompt.trim().is_empty()`. -/
def trimIsEmpty (s : String) : Bool := s.toList.all isWhitespace

/-- `extraction_prompt` of `LlmClient::extract`. -/
def extractionPrompt (prompt : String) : String :=
  if trimIsEmpty prompt then
    "Extract data that matches the schema. If the source is very long, return a representative " ++
      "subset that still matches the schema exactly."
  else prompt

/-- What reaches the model. -/
def ExtractionRequest.effective (req : ExtractionRequest) : ExtractionRequest :=
  { req with prompt := extractionPrompt req.prompt }

/-- Scrapes are answered from the web. -/
def Web.answers (web : Web) (ccfg : CrawlerConfig) (ρ : Answers) : Answers
  | _, .ext (.scrape job) => scrape web ccfg job
  | log, o => ρ log o

section Agree

variable {web : Web} {ccfg : CrawlerConfig} {cfg : Config} {job : ScrapeJobData} {req : ScrapeRequest}
  {extract : ExtractOptions} {page : Page web} {n : ℕ} {s : String}

theorem cutTo_eq_empty : cutTo n s = "" ↔ n = 0 ∨ s = "" := by
  rw [← String.length_eq_zero_iff, ← String.length_eq_zero_iff]
  simp only [cutTo, decide_eq_true_eq]
  split_ifs with h
  · rw [String.length_ofList, List.length_take, String.length_toList]
    omega
  · omega

/-- The two defaults for a prompt that is not given differ. -/
theorem extractionPrompt_eq_iff {prompt : Option String} :
    extractionPrompt (prompt.getD "") =
      extractionPrompt (prompt.getD "Extract all structured data from this page.") ↔ prompt.isSome := by
  cases prompt with
  | none => exact iff_of_false (by decide) (by simp)
  | some p => exact iff_of_true rfl rfl

/-- The texts of a scrape. -/
theorem scrape_text (formats : List OutputFormat) (h : loadPage web ccfg job = .ok page)
    (hformats : (if job.formats.isEmpty then [.markdown] else job.formats) = formats) :
    ∃ result, scrape web ccfg job = .ok result ∧
      result.markdown = (if .markdown ∈ formats then some (web.htmlToMarkdown page.html) else none) ∧
      result.html = (if .html ∈ formats then some (web.extractText page.html job.onlyMainContent) else none) ∧
      result.rawHtml = (if .rawHtml ∈ formats then some page.html else none) := by
  subst hformats
  unfold scrape
  rw [h]
  exact ⟨_, rfl, fill_foldl_markdown _, fill_foldl_html _, fill_foldl_rawHtml _⟩

theorem mem_requestedFormats {fmt : OutputFormat} :
    fmt ∈ req.requestedFormats ↔ req.formats = [] ∧ fmt = .markdown ∨ fmt ∈ req.formats := by
  unfold ScrapeRequest.requestedFormats
  by_cases h : req.formats = []
  · simp [h]
  · simp [h]

theorem requestedFormats_isEmpty : req.requestedFormats.isEmpty = false := by
  unfold ScrapeRequest.requestedFormats
  split_ifs with h
  · rfl
  · simpa using h

/-- With Markdown or HTML among the formats, the handler adds none. -/
theorem effectiveFormats_of_mem
    (h : .markdown ∈ req.requestedFormats ∨ .html ∈ req.requestedFormats ∨ .rawHtml ∈ req.requestedFormats) :
    req.effectiveFormats = req.requestedFormats := by
  unfold ScrapeRequest.effectiveFormats
  rw [if_neg]
  rintro ⟨-, hmd, hhtml, hraw⟩
  exact h.elim hmd fun h => h.elim hhtml hraw

theorem effectiveFormats_isEmpty : req.effectiveFormats.isEmpty = false := by
  unfold ScrapeRequest.effectiveFormats
  split_ifs
  · simp
  · exact requestedFormats_isEmpty

/-- The texts that the handler has to choose from. -/
theorem handler_text (h : loadPage web ccfg (req.job req.effectiveFormats) = .ok page)
    (hextract : req.extract.isSome) :
    ∃ result, scrape web ccfg (req.job req.effectiveFormats) = .ok result ∧
      (result.markdown <|> result.html <|> result.rawHtml).getD "" =
        if .markdown ∈ req.requestedFormats then web.htmlToMarkdown page.html
        else if .html ∈ req.requestedFormats then web.extractText page.html req.onlyMainContent
        else if .rawHtml ∈ req.requestedFormats then page.html else web.htmlToMarkdown page.html := by
  have hempty : (req.job req.effectiveFormats).formats.isEmpty = false := effectiveFormats_isEmpty
  obtain ⟨result, hresult, hmd, hhtml, hraw⟩ := scrape_text req.effectiveFormats h
    (by rw [hempty]; rfl)
  refine ⟨result, hresult, ?_⟩
  rw [hmd, hhtml, hraw]
  by_cases h₁ : .markdown ∈ req.requestedFormats
  · rw [effectiveFormats_of_mem (.inl h₁)]
    simp [h₁]
  by_cases h₂ : .html ∈ req.requestedFormats
  · rw [effectiveFormats_of_mem (.inr (.inl h₂))]
    simp [h₁, h₂]
    rfl
  by_cases h₃ : .rawHtml ∈ req.requestedFormats
  · rw [effectiveFormats_of_mem (.inr (.inr h₃))]
    simp [h₁, h₂, h₃]
  · have heff : req.effectiveFormats = req.requestedFormats ++ [.markdown] := if_pos ⟨hextract, h₁, h₂, h₃⟩
    rw [heff]
    simp [h₁, h₂, h₃]

/-- The texts that a scrape job has to choose from. -/
theorem worker_text (h : loadPage web ccfg (req.job req.formats) = .ok page) :
    ∃ result, scrape web ccfg (req.job req.formats) = .ok result ∧
      (result.markdown <|> result.html).getD "" =
        if .markdown ∈ req.requestedFormats then web.htmlToMarkdown page.html
        else if .html ∈ req.requestedFormats then web.extractText page.html req.onlyMainContent
        else "" := by
  obtain ⟨result, hresult, hmd, hhtml, -⟩ := scrape_text req.requestedFormats h rfl
  refine ⟨result, hresult, ?_⟩
  rw [hmd, hhtml]
  split_ifs <;> rfl

/-- Beyond Markdown and HTML, the two texts agree if there is none. -/
theorem agreeingText_iff {md html raw : String} :
    cutTo n (if .markdown ∈ req.requestedFormats then md else if .html ∈ req.requestedFormats then html
        else if .rawHtml ∈ req.requestedFormats then raw else md) =
      cutTo n (if .markdown ∈ req.requestedFormats then md
        else if .html ∈ req.requestedFormats then html else "") ↔
    req.formats = [] ∨ .markdown ∈ req.formats ∨ .html ∈ req.formats ∨ n = 0 ∨
      (if .rawHtml ∈ req.formats then raw else md) = "" := by
  have hempty : cutTo n "" = "" := cutTo_eq_empty.mpr (.inr rfl)
  by_cases h : req.formats = []
  · exact iff_of_true (by simp [mem_requestedFormats, h]) (.inl h)
  by_cases h₁ : .markdown ∈ req.formats
  · exact iff_of_true (by simp [mem_requestedFormats, h₁]) (.inr (.inl h₁))
  by_cases h₂ : .html ∈ req.formats
  · exact iff_of_true (by simp [mem_requestedFormats, h, h₁, h₂]) (.inr (.inr (.inl h₂)))
  · simp [mem_requestedFormats, h, h₁, h₂, hempty, cutTo_eq_empty]

end Agree

/-- **The handler and a scrape job ask the model alike** exactly if the request has a prompt, and either
Markdown or HTML is among its formats, or there are none, or what the handler takes instead is empty (or
cut to nothing). Schema and system prompt are the same in any case. -/
theorem extraction_agrees_iff (web : Web) (ccfg : CrawlerConfig) (cfg : Config) (urls : UrlCrate)
    (req : ScrapeRequest) (extract : ExtractOptions) (jobId : Uuid) (createdAt : Timestamp)
    (ρ ρ' : Answers) (page : Page web) (hextract : req.extract = some extract)
    (hload : loadPage web ccfg (req.job req.formats) = .ok page) :
    ∃ handled worked,
      ((scrapeHandler cfg (.ok ()) true req).execution (web.answers ccfg ρ) []).2.asked.map
        ExtractionRequest.effective = [handled] ∧
      ((execute cfg urls jobId createdAt (.scrape (req.job req.formats))).execution
        (web.answers ccfg ρ') []).2.asked.map ExtractionRequest.effective = [worked] ∧
      handled.schema = worked.schema ∧ handled.systemPrompt = worked.systemPrompt ∧
      (handled = worked ↔ extract.prompt.isSome ∧
        (req.formats = [] ∨ .markdown ∈ req.formats ∨ .html ∈ req.formats ∨ cfg.llmMaxInputChars = 0 ∨
          (if .rawHtml ∈ req.formats then page.html else web.htmlToMarkdown page.html) = "")) := by
  have hload' : loadPage web ccfg (req.job req.effectiveFormats) = .ok page := hload
  obtain ⟨r, hr, hrtext⟩ := handler_text hload' (by rw [hextract]; rfl)
  obtain ⟨r', hr', hrtext'⟩ := worker_text hload
  obtain ⟨_, a, hhandler, -⟩ := scrapeHandler_asks cfg (ρ := web.answers ccfg ρ) hr hextract
  obtain ⟨hworker, -⟩ := runScrape_asks cfg jobId createdAt
    (ρ := web.answers ccfg ρ') hr' hextract
  refine ⟨(handlerRequest cfg r extract).effective, (workerRequest cfg r' extract).effective,
    by rw [hhandler]; rfl, by rw [execute, hworker]; rfl, rfl, rfl, ?_⟩
  have hparts : (handlerRequest cfg r extract).effective = (workerRequest cfg r' extract).effective ↔
      cutTo cfg.llmMaxInputChars ((r.markdown <|> r.html <|> r.rawHtml).getD "") =
          cutTo cfg.llmMaxInputChars ((r'.markdown <|> r'.html).getD "") ∧
        extractionPrompt (extract.prompt.getD "") =
          extractionPrompt (extract.prompt.getD "Extract all structured data from this page.") := by
    simp [ExtractionRequest.effective, handlerRequest, workerRequest]
  rw [hparts, extractionPrompt_eq_iff, and_comm, hrtext, hrtext', agreeingText_iff]

/-- A request for a page. -/
def ScrapeRequest.sample (formats : List OutputFormat) (extract : ExtractOptions) : ScrapeRequest where
  url := "https://example.com/"
  formats := formats
  onlyMainContent := false
  includeTags := []
  excludeTags := []
  headers := none
  waitFor := 0
  mobile := false
  timeout := none
  extract := some extract
  actions := []
  location := none
  webhook := none

/-- Markdown and a prompt. -/
theorem extraction_agrees_prompted :
    let req : ScrapeRequest := .sample [.markdown] ⟨some "Names", none, none⟩
    ∃ handled,
      ((scrapeHandler .sample (.ok ()) true req).execution (Web.sample.answers .sample .sample) []).2.asked.map
        ExtractionRequest.effective = [handled] ∧
      ((execute .sample .sample 1 0 (.scrape (req.job req.formats))).execution
        (Web.sample.answers .sample .sample) []).2.asked.map ExtractionRequest.effective = [handled] := by
  intro req
  obtain ⟨handled, worked, hhandled, hworked, -, -, hiff⟩ := extraction_agrees_iff .sample .sample .sample
    .sample req ⟨some "Names", none, none⟩ 1 0 .sample .sample
    ⟨"https://example.com/", "https://example.com/", none, 200, none⟩ rfl rfl
  have heq : handled = worked := hiff.mpr ⟨rfl, .inr (.inl (List.mem_singleton.mpr rfl))⟩
  exact ⟨handled, hhandled, by rw [hworked, heq]⟩

/-- The raw HTML and a prompt: the handler sends the page, the job sends nothing. -/
theorem not_extraction_agrees : ¬ ∀ (web : Web) (ccfg : CrawlerConfig) (cfg : Config) (urls : UrlCrate)
    (req : ScrapeRequest) (jobId : Uuid) (createdAt : Timestamp) (ρ ρ' : Answers),
    req.extract.isSome →
      ((scrapeHandler cfg (.ok ()) true req).execution (web.answers ccfg ρ) []).2.asked.map
          ExtractionRequest.effective =
        ((execute cfg urls jobId createdAt (.scrape (req.job req.formats))).execution
          (web.answers ccfg ρ') []).2.asked.map ExtractionRequest.effective := by
  intro h
  have hagree := h .sample .sample .sample .sample (.sample [.rawHtml] ⟨some "Names", none, none⟩) 1 0
    .sample .sample rfl
  have hcontent := congrArg (List.map ExtractionRequest.content) hagree
  exact absurd hcontent (by decide)

end FireCtrl
