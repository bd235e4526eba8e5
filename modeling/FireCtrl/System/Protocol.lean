import FireCtrl.System.Model

/-!
# Which statements a job and a request make

* `Phase`, `jobProtocol`: how far a job has come with its group, and the statements it may make there;
  **`execute_follows`**: every job keeps to it, whatever its calls answer.
* `HandlerPhase`, `handlerProtocol`, **`handler_follows`**: the same for requests.
-/

namespace FireCtrl

open Prog (Follows FollowsE Protocol)

/-- The group that the data of a job names. -/
def JobEnvelope.group? : JobEnvelope → Option Uuid
  | .crawl job => job.groupId
  | _ => none

/-- The pages of the job go to a group. -/
def JobEnvelope.grouped : JobEnvelope → Bool
  | .crawl _ | .batchScrape _ => true
  | _ => false

def JobEnvelope.isCrawl : JobEnvelope → Bool
  | .crawl _ => true
  | _ => false

/-! ## Jobs -/

/-- How far a job has come: before it has a group; with a new group that is not yet on its row; with
URLs of scraped pages still to be stored and of those stored; with its group completed; with its row
completed; after a call that failed. -/
inductive Phase
  | start
  | fresh (g : Uuid)
  | pages (g : Uuid) (todo stored : List String)
  | closing (g : Uuid) (stored : List String)
  | closed
  | failed

/-- What the job of row `k` and data `e` may do. -/
inductive JobAllows (k : Key) (e : JobEnvelope) : Phase → Op → Prop
  | lookup {g} : e.grouped = true → e.group? = some g →
      JobAllows k e .start (.db (.getCrawlGroup g))
  | create {ownerId ttlMs} : e.grouped = true → e.group? = none →
      JobAllows k e .start (.db (.createCrawlGroup ownerId ttlMs))
  | attach {g} : e.grouped = true → e.group? = none →
      JobAllows k e (.fresh g) (.db (.updateJobGroup k.1 k.2 g))
  | crawl {g params} : e.isCrawl = true → JobAllows k e (.pages g [] []) (.ext (.crawl params))
  | join {g todo stored t ts} : e.isCrawl = false →
      JobAllows k e (.pages g todo stored) (.ext (.joinNext t ts))
  | store {g u todo stored priority} {res : ScrapeResult} :
      JobAllows k e (.pages g (u :: todo) stored)
        (.db (.enqueueCompleted (subData u) (toValue res) priority none (some g) none))
  | close {g stored} : JobAllows k e (.pages g [] stored) (.db (.setGroupStatus g .completed))
  | finishGroup {g stored} : JobAllows k e (.closing g stored)
      (.db (.completeJob k.1 k.2 (summary stored.length g)))
  | await {x} : e.grouped = false → JobAllows k e .start (.ext x)
  | finish {rv} : e.grouped = false → JobAllows k e .start (.db (.completeJob k.1 k.2 rv))
  | notify {g todo stored url payload} :
      JobAllows k e (.pages g todo stored) (.ext (.fireWebhook url payload))
  | notifyClosed {url payload} : JobAllows k e .closed (.ext (.fireWebhook url payload))

/-- How far the job has come after an operation. -/
def jobNext : Phase → (o : Op) → o.Ans → Phase
  | .start, .db (.getCrawlGroup _), .ok group => .pages group.id [] []
  | .start, .db (.createCrawlGroup ..), .ok group => .fresh group.id
  | .start, .db (.completeJob ..), .ok _ => .closed
  | .fresh g, .db (.updateJobGroup ..), .ok _ => .pages g [] []
  | .pages g todo stored, .db (.enqueueCompleted ..), .ok _ =>
    .pages g todo.tail (stored ++ todo.head?.toList)
  | .pages g _ stored, .db (.setGroupStatus ..), .ok _ => .closing g stored
  | .pages g todo stored, .ext (.crawl _), .ok results =>
    .pages g (todo ++ results.map ScrapeResult.url) stored
  | .pages g todo stored, .ext (.joinNext t ts), (i, some (.ok _)) =>
    .pages g (todo ++ [((t :: ts).get i).url]) stored
  | .closing .., .db (.completeJob ..), .ok _ => .closed
  | ph, .ext _, _ => ph
  | _, .db _, _ => .failed

/-- `get_crawl_group` returns the group it was asked for. -/
def ValidAnswer : (o : Op) → o.Ans → Prop
  | .db (.getCrawlGroup id), .ok group => group.id = id
  | _, _ => True

/-- How far a job has come that has performed the operations `log`. -/
def jobPhase (log : Log) : Phase := log.foldl (fun ph x => jobNext ph x.1 x.2) .start

@[simp] theorem jobPhase_append_singleton (log : Log) (o : Op) (a : o.Ans) :
    jobPhase (log ++ [⟨o, a⟩]) = jobNext (jobPhase log) o a := by
  simp [jobPhase]

def jobProtocol (k : Key) (e : JobEnvelope) : Protocol Op Op.Ans where
  Phase := Phase
  allows := JobAllows k e
  next := jobNext
  valid := ValidAnswer

theorem validAnswer_run (ρ : Reply) (o : Op) (s : Db) : ValidAnswer o (o.run ρ s).1 := by
  cases o with
  | ext x => trivial
  | db q =>
    cases q with
    | getCrawlGroup id =>
      rcases h : ((Op.db (.getCrawlGroup id)).run ρ s).1 with e | group
      · trivial
      · obtain ⟨-, hexec⟩ := Op.run_ok h
        simp only [Query.exec, Db.getCrawlGroup] at hexec
        split at hexec
        · rename_i hl; cases hexec; exact KTable.key_of_lookup hl
        · cases hexec
    | _ => trivial

section Rules

variable {P : Protocol Op Op.Ans} {ph : P.Phase}

/-- A database call; after an error the computation is over. -/
theorem followsE_db {q : Query} {Q : P.Phase → q.Out → Prop} (ho : P.allows ph (.db q))
    (h : ∀ a, P.valid (.db q) (.ok a) → Q (P.next ph (.db q) (.ok a)) a) :
    FollowsE P Q ph (Call.db q) :=
  ⟨ho, fun r hr a ha => by subst ha; exact h a hr⟩

theorem followsE_ext {x : Ext} {Q : P.Phase → x.Ans → Prop} (ho : P.allows ph (.ext x))
    (h : ∀ a, P.valid (.ext x) a → Q (P.next ph (.ext x) a) a) : FollowsE P Q ph (Call.ext x) :=
  FollowsE.lift (o := Op.ext x) ho h

/-- A webhook, where it is allowed and changes nothing. -/
theorem followsE_fireWebhook {Q : P.Phase → Unit → Prop} (url : Option String) (payload : Json)
    (ho : ∀ url, P.allows ph (.ext (.fireWebhook url payload)))
    (h : ∀ url a, P.next ph (.ext (.fireWebhook url payload)) a = ph) (hQ : Q ph ()) :
    FollowsE P Q ph (fireWebhook url payload) := by
  cases url with
  | none => exact FollowsE.pure hQ
  | some url =>
    refine FollowsE.bind (followsE_ext (Q := fun ph' _ => ph' = ph) (ho url) fun a _ => h url a) ?_
    rintro _ _ rfl
    exact FollowsE.pure hQ

theorem followsE_ofExcept {α : Type} {Q : P.Phase → α → Prop} (r : Except AppError α)
    (h : ∀ a, r = .ok a → Q ph a) : FollowsE P Q ph (Call.ofExcept r) := by
  cases r with
  | ok a => exact FollowsE.pure (h a rfl)
  | error e => exact FollowsE.throw e

end Rules

section Jobs

variable {cfg : Config} {urls : UrlCrate} {k : Key} {e : JobEnvelope}

/-- The outcome of a job that returns without an error. -/
def Closed : Phase → Unit → Prop := fun ph _ => ph = .closed

theorem applyExtraction_follows (he : e.grouped = false) (result : ScrapeResult)
    (prompt : Option String) (schema : Option Json) (systemPrompt : Option String) :
    FollowsE (jobProtocol k e) (fun ph _ => ph = Phase.start) Phase.start
      (applyExtraction cfg result prompt schema systemPrompt) := by
  unfold applyExtraction
  refine FollowsE.bind (R := fun ph _ => ph = Phase.start) (followsE_ext (.await he) fun _ _ => rfl) ?_
  rintro _ answer rfl
  cases answer with
  | ok extraction => exact FollowsE.pure rfl
  | error err => exact FollowsE.pure rfl

theorem runScrape_follows (he : e.grouped = false) (job : ScrapeJobData) :
    FollowsE (jobProtocol k e) Closed Phase.start (runScrape cfg k.1 k.2 job) := by
  unfold runScrape
  refine FollowsE.bind (R := fun ph _ => ph = Phase.start) (followsE_ext (.await he) fun _ _ => rfl) ?_
  rintro _ res rfl
  refine FollowsE.bind (R := fun ph _ => ph = Phase.start)
    (followsE_ofExcept res fun _ _ => rfl) ?_
  rintro _ result rfl
  have hlast (result : ScrapeResult) : FollowsE (jobProtocol k e) Closed Phase.start (do
      Call.db (.completeJob k.1 k.2 (toValue result))
      fireWebhook job.webhook (.obj [("type", .str "scrape.completed"), entry "job_id" k.1,
        entry "data" result])) := by
    refine FollowsE.bind (R := fun ph _ => ph = Phase.closed)
      (followsE_db (.finish he) fun _ _ => rfl) ?_
    rintro _ _ rfl
    exact followsE_fireWebhook _ _ (fun _ => .notifyClosed) (fun _ _ => rfl) rfl
  cases hx : job.extract with
  | none => exact hlast result
  | some extract =>
    refine FollowsE.bind (applyExtraction_follows he _ _ _ _) ?_
    rintro _ result rfl
    exact hlast result

theorem joinMarkdown_follows (he : e.grouped = false) (n : ℕ) (tasks : List Task)
    (content : String) :
    FollowsE (jobProtocol k e) (fun ph _ => ph = Phase.start) Phase.start
      (joinMarkdown n tasks content) := by
  induction n generalizing tasks content with
  | zero => unfold joinMarkdown; exact FollowsE.pure rfl
  | succ n ih =>
    cases tasks with
    | nil => unfold joinMarkdown; exact FollowsE.pure rfl
    | cons t ts =>
      unfold joinMarkdown
      refine FollowsE.bind (R := fun ph _ => ph = Phase.start) (followsE_ext (.await he) fun _ _ => rfl) ?_
      rintro _ ⟨i, joined⟩ rfl
      rcases joined with _ | _ | r
      · exact ih _ _
      · exact ih _ _
      · cases hm : r.markdown with
        | none => simp only [hm]; exact ih _ _
        | some md => simp only [hm]; exact ih _ _

theorem runExtract_follows (he : e.grouped = false) (job : ExtractJobData) :
    FollowsE (jobProtocol k e) Closed Phase.start (runExtract urls k.1 k.2 job) := by
  unfold runExtract
  refine FollowsE.bind (joinMarkdown_follows he _ _ _) ?_
  rintro _ content rfl
  refine FollowsE.bind (R := fun ph _ => ph = Phase.start) (followsE_ext (.await he) fun _ _ => rfl) ?_
  rintro _ extraction rfl
  cases extraction with
  | error err => exact FollowsE.throw _
  | ok extraction => exact followsE_db (.finish he) fun _ _ => rfl

theorem storePages_follows (g : Uuid) (job : CrawlJobData) (results : List ScrapeResult)
    (stored : List String) :
    FollowsE (jobProtocol k e)
      (fun ph _ => ph = Phase.pages g [] (stored ++ results.map ScrapeResult.url))
      (Phase.pages g (results.map ScrapeResult.url) stored) (storePages k.1 g job results) := by
  induction results generalizing stored with
  | nil => unfold storePages; exact FollowsE.pure (by rw [List.map_nil, List.append_nil])
  | cons r results ih =>
    unfold storePages
    refine FollowsE.bind
      (R := fun ph _ => ph = Phase.pages g (results.map ScrapeResult.url) (stored ++ [r.url]))
      (followsE_db .store fun _ _ => rfl) ?_
    rintro _ _ rfl
    refine FollowsE.bind
      (R := fun ph _ => ph = Phase.pages g (results.map ScrapeResult.url) (stored ++ [r.url]))
      (followsE_fireWebhook _ _ (fun _ => .notify) (fun _ _ => rfl) rfl) ?_
    rintro _ _ rfl
    refine (ih (stored ++ [r.url])).mono ?_
    rintro _ _ rfl
    rw [List.map_cons, List.append_assoc, List.singleton_append]

theorem crawlGroup_follows (job : CrawlJobData) :
    FollowsE (jobProtocol k (.crawl job)) (fun ph group => ph = Phase.pages group.id [] [])
      Phase.start (crawlGroup k.1 k.2 job) := by
  unfold crawlGroup
  cases hg : job.groupId with
  | some g => exact followsE_db (.lookup rfl hg) fun _ _ => rfl
  | none =>
    refine FollowsE.bind (R := fun ph group => ph = Phase.fresh group.id)
      (followsE_db (.create rfl hg) fun _ _ => rfl) ?_
    rintro _ group rfl
    refine FollowsE.bind (R := fun ph _ => ph = Phase.pages group.id [] [])
      (followsE_db (.attach rfl hg) fun _ _ => rfl) ?_
    rintro _ _ rfl
    exact FollowsE.pure rfl

theorem runCrawl_follows (job : CrawlJobData) :
    FollowsE (jobProtocol k (.crawl job)) Closed Phase.start (runCrawl k.1 k.2 job) := by
  unfold runCrawl
  refine FollowsE.bind (crawlGroup_follows job) ?_
  rintro _ group rfl
  refine FollowsE.bind (R := fun ph _ => ph = Phase.pages group.id [] [])
    (followsE_fireWebhook _ _ (fun _ => .notify) (fun _ _ => rfl) rfl) ?_
  rintro _ _ rfl
  refine FollowsE.bind
    (R := fun ph res => ∀ results, res = .ok results →
      ph = Phase.pages group.id (results.map ScrapeResult.url) [])
    (followsE_ext (.crawl rfl) fun res _ results hres => by subst hres; rfl) ?_
  intro ph res hph
  refine FollowsE.bind
    (R := fun ph results => ph = Phase.pages group.id (results.map ScrapeResult.url) [])
    (followsE_ofExcept res hph) ?_
  rintro _ results rfl
  refine FollowsE.bind (storePages_follows group.id job results []) ?_
  rintro _ _ rfl
  refine FollowsE.bind
    (R := fun ph _ => ph = Phase.closing group.id (results.map ScrapeResult.url))
    (followsE_db .close fun _ _ => rfl) ?_
  rintro _ _ rfl
  refine FollowsE.bind (R := fun ph _ => ph = Phase.closed)
    (followsE_db ?_ fun _ _ => rfl) ?_
  · rw [← List.length_map (f := ScrapeResult.url)]
    exact .finishGroup
  rintro _ _ rfl
  exact followsE_fireWebhook _ _ (fun _ => .notifyClosed) (fun _ _ => rfl) rfl

theorem joinPages_follows (he : e.isCrawl = false) (g : Uuid) (job : BatchScrapeJobData) (n : ℕ)
    (tasks : List Task) (results : List ScrapeResult) (stored : List String)
    (hlen : results.length = stored.length) :
    FollowsE (jobProtocol k e)
      (fun ph results => ∃ stored, ph = Phase.pages g [] stored ∧ results.length = stored.length)
      (Phase.pages g [] stored) (joinPages g job n tasks results) := by
  induction n generalizing tasks results stored with
  | zero => unfold joinPages; exact FollowsE.pure ⟨stored, rfl, hlen⟩
  | succ n ih =>
    cases tasks with
    | nil => unfold joinPages; exact FollowsE.pure ⟨stored, rfl, hlen⟩
    | cons t ts =>
      unfold joinPages
      refine FollowsE.bind (R := fun ph (a : (Ext.joinNext t ts).Ans) =>
          ph = jobNext (.pages g [] stored) (.ext (.joinNext t ts)) a)
        (followsE_ext (.join he) fun _ _ => rfl) ?_
      rintro _ ⟨i, joined⟩ rfl
      rcases joined with _ | _ | r
      · exact ih _ _ _ hlen
      · exact ih _ _ _ hlen
      · refine FollowsE.bind
          (R := fun ph _ => ph = Phase.pages g [] (stored ++ [((t :: ts).get i).url]))
          (followsE_db .store fun _ _ => rfl) ?_
        rintro _ _ rfl
        exact ih _ _ _ (by simp [hlen])

theorem runBatchScrape_follows (job : BatchScrapeJobData) :
    FollowsE (jobProtocol k (.batchScrape job)) Closed Phase.start
      (runBatchScrape k.1 k.2 job) := by
  unfold runBatchScrape
  refine FollowsE.bind (R := fun ph group => ph = Phase.fresh group.id)
    (followsE_db (.create rfl rfl) fun _ _ => rfl) ?_
  rintro _ group rfl
  refine FollowsE.bind (R := fun ph _ => ph = Phase.pages group.id [] [])
    (followsE_db (.attach rfl rfl) fun _ _ => rfl) ?_
  rintro _ _ rfl
  refine FollowsE.bind (joinPages_follows rfl group.id job _ _ [] [] rfl) ?_
  rintro _ results ⟨stored, rfl, hlen⟩
  refine FollowsE.bind (R := fun ph _ => ph = Phase.closing group.id stored)
    (followsE_db .close fun _ _ => rfl) ?_
  rintro _ _ rfl
  refine FollowsE.bind (R := fun ph _ => ph = Phase.closed)
    (followsE_db (hlen ▸ .finishGroup) fun _ _ => rfl) ?_
  rintro _ _ rfl
  exact followsE_fireWebhook _ _ (fun _ => .notifyClosed) (fun _ _ => rfl) rfl

/-- **Every job keeps to its protocol**, and returns without an error only once its row is completed. -/
theorem execute_follows (cfg : Config) (urls : UrlCrate) (k : Key) (e : JobEnvelope) :
    FollowsE (jobProtocol k e) Closed Phase.start (execute cfg urls k.1 k.2 e) := by
  cases e with
  | scrape job => exact runScrape_follows rfl job
  | crawl job => exact runCrawl_follows job
  | batchScrape job => exact runBatchScrape_follows job
  | extract job => exact runExtract_follows rfl job
  | map job => exact FollowsE.throw _

end Jobs

/-! ## Requests -/

/-- How far a request has come: with a group it has created for a job it has yet to enqueue, or in
the middle of `cancel_group`. -/
inductive HandlerPhase
  | start
  | created (g : Uuid)
  | cancelling (g : Uuid)
  | done

inductive HandlerAllows : HandlerPhase → Op → Prop
  | create {ownerId ttlMs} : HandlerAllows .start (.db (.createCrawlGroup ownerId ttlMs))
  | enqueueCrawl {g priority} {job : CrawlJobData} : job.groupId = some g →
      HandlerAllows (.created g)
        (.db (.enqueue (toValue (JobEnvelope.crawl job)) priority none (some g) none))
  | enqueueBatch {priority} (job : BatchScrapeJobData) : HandlerAllows .start
      (.db (.enqueue (toValue (JobEnvelope.batchScrape job)) priority none none none))
  | enqueueExtract {priority} (job : ExtractJobData) : HandlerAllows .start
      (.db (.enqueue (toValue (JobEnvelope.extract job)) priority none none none))
  | lookup {g} : HandlerAllows .start (.db (.getCrawlGroup g))
  | lookupJob {id} : HandlerAllows .start (.db (.getJob id))
  | cancelJob {id} : HandlerAllows .start (.db (.cancelJob id))
  | cancelGroupJobs {g} : HandlerAllows .start (.db (.cancelGroupJobs g))
  | cancelGroupRow {g} : HandlerAllows (.cancelling g) (.db (.cancelGroupRow g))

def handlerNext : HandlerPhase → (o : Op) → o.Ans → HandlerPhase
  | .start, .db (.createCrawlGroup ..), .ok group => .created group.id
  | .start, .db (.enqueue ..), _ => .done
  | .start, .db (.cancelGroupJobs g), .ok _ => .cancelling g
  | .cancelling _, .db (.cancelGroupRow _), .ok _ => .start
  | .start, _, _ => .start
  | _, _, _ => .done

/-- How far a request has come that has performed the operations `log`. -/
def handlerPhase (log : Log) : HandlerPhase := log.foldl (fun ph x => handlerNext ph x.1 x.2) .start

@[simp] theorem handlerPhase_nil : handlerPhase [] = .start := rfl

@[simp] theorem handlerPhase_append_singleton (log : Log) (o : Op) (a : o.Ans) :
    handlerPhase (log ++ [⟨o, a⟩]) = handlerNext (handlerPhase log) o a := by
  simp [handlerPhase]

def handlerProtocol : Protocol Op Op.Ans where
  Phase := HandlerPhase
  allows := HandlerAllows
  next := handlerNext
  valid := ValidAnswer

section Handlers

variable {cfg : Config} {urls : UrlCrate} {gate : Except AppError Unit}

theorem crawlHandler_follows (req : CrawlRequest) :
    FollowsE handlerProtocol (fun _ _ => True) HandlerPhase.start (crawlHandler cfg gate req) := by
  unfold crawlHandler
  refine FollowsE.bind (R := fun ph _ => ph = HandlerPhase.start)
    (followsE_ofExcept gate fun _ _ => rfl) ?_
  rintro _ _ rfl
  refine FollowsE.bind (R := fun ph group => ph = HandlerPhase.created group.id)
    (followsE_db .create fun _ _ => rfl) ?_
  rintro _ group rfl
  exact FollowsE.bind (R := fun _ _ => True) (followsE_db (.enqueueCrawl rfl) fun _ _ => trivial)
    fun _ _ _ => FollowsE.pure trivial

theorem batchScrapeHandler_follows (req : BatchScrapeRequest) :
    FollowsE handlerProtocol (fun _ _ => True) HandlerPhase.start
      (batchScrapeHandler urls gate req) := by
  unfold batchScrapeHandler
  refine FollowsE.bind (R := fun ph _ => ph = HandlerPhase.start)
    (followsE_ofExcept gate fun _ _ => rfl) ?_
  rintro _ _ rfl
  exact FollowsE.bind (R := fun _ _ => True) (followsE_db (.enqueueBatch _) fun _ _ => trivial)
    fun _ _ _ => FollowsE.pure trivial

theorem extractHandler_follows (req : ExtractRequest) :
    FollowsE handlerProtocol (fun _ _ => True) HandlerPhase.start (extractHandler gate req) := by
  unfold extractHandler
  refine FollowsE.bind (R := fun ph _ => ph = HandlerPhase.start)
    (followsE_ofExcept gate fun _ _ => rfl) ?_
  rintro _ _ rfl
  exact FollowsE.bind (R := fun _ _ => True) (followsE_db (.enqueueExtract _) fun _ _ => trivial)
    fun _ _ _ => FollowsE.pure trivial

theorem cancelGroup_follows (g : Uuid) :
    FollowsE handlerProtocol (fun ph _ => ph = HandlerPhase.start) HandlerPhase.start
      (Call.cancelGroup g) := by
  unfold Call.cancelGroup
  refine FollowsE.bind (R := fun ph _ => ph = HandlerPhase.cancelling g)
    (followsE_db .cancelGroupJobs fun _ _ => rfl) ?_
  rintro _ _ rfl
  exact followsE_db .cancelGroupRow fun _ _ => rfl

theorem crawlCancelHandler_follows (id : Uuid) :
    FollowsE handlerProtocol (fun _ _ => True) HandlerPhase.start (crawlCancelHandler gate id) := by
  unfold crawlCancelHandler
  refine FollowsE.bind (R := fun ph _ => ph = HandlerPhase.start)
    (followsE_ofExcept gate fun _ _ => rfl) ?_
  rintro _ _ rfl
  refine FollowsE.bind (P := handlerProtocol) (R := fun ph _ => ph = HandlerPhase.start)
    (FollowsE.lift (o := Op.db (.getCrawlGroup id)) .lookup ?_) ?_
  · rintro (err | group) _ <;> rfl
  rintro _ found rfl
  rcases found with err | group
  · cases err with
    | notFound what =>
      refine FollowsE.bind (P := handlerProtocol) (R := fun ph _ => ph = HandlerPhase.start)
        (followsE_db .lookupJob fun _ _ => rfl) ?_
      rintro _ job rfl
      have hcancel : FollowsE handlerProtocol (fun _ _ => True) HandlerPhase.start
          (Call.db (.cancelJob id)) :=
        followsE_db .cancelJob fun _ _ => trivial
      cases hg : job.groupId with
      | none => exact hcancel
      | some g =>
        refine FollowsE.bind (cancelGroup_follows g) ?_
        rintro _ _ rfl
        exact hcancel
    | _ => exact FollowsE.throw _
  · exact (cancelGroup_follows id).mono fun _ _ _ => trivial

/-- **Every request keeps to its protocol.** -/
theorem handler_follows (cfg : Config) (urls : UrlCrate) (req : Request) :
    FollowsE handlerProtocol (fun _ _ => True) HandlerPhase.start (req.handler cfg urls) := by
  cases req with
  | crawl gate req => exact (crawlHandler_follows req).map _
  | batchScrape gate req => exact (batchScrapeHandler_follows req).map _
  | extract gate req => exact (extractHandler_follows req).map _
  | cancel gate id => exact (crawlCancelHandler_follows id).map _

end Handlers

end FireCtrl
