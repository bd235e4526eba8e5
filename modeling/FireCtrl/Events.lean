import FireCtrl.System.Protocol
import FireCtrl.Webhook

/-!
# The events of a webhook

A crawl and a batch post events to their webhook, whose `WebhookConfig` lists the kinds to send.

* `JobRun`: a run of a job, over with a result or at the operation in which it times out, and what
  `Worker::run` does then; `posted`: the types of the events that are posted in it.
* `Progress`, `Posts`: how far the calls of a job have come, and the kinds of events that are then
  posted; **`posted_iff`**: in every run these and no others.
* `Subscribed`: the events posted are those that occur and are listed. **`subscribed_iff`**: the list
  is read for pages of crawls alone.
-/

namespace FireCtrl

open Prog (Follows Ensures Protocol Stop Stops)

/-! ## Runs -/

/-- A run of the execution of a job. -/
structure JobRun (cfg : Config) (crate : UrlCrate) (k : Key) (e : JobEnvelope) where
  log : Log
  stop : Stop Op (Except AppError Unit)
  stops : Stops (execute cfg crate k.1 k.2 e).run log stop

/-- What a run does that has not been answered to the job: the operation under way at a timeout, and
`fail_job`. -/
def ending (k : Key) : Stop Op (Except AppError Unit) → List Op
  | .returned (.ok ()) => []
  | .returned (.error e) => [.db (.failJob k.1 k.2 e.toString)]
  | .interrupted o => [o, .db (.failJob k.1 k.2 "job timeout")]

/-- The run ends in an error or a timeout. -/
def Unsuccessful : Stop Op (Except AppError Unit) → Prop
  | .returned (.ok ()) => False
  | .returned (.error _) => True
  | .interrupted _ => True

/-- The operations of a run. -/
def JobRun.ops {cfg : Config} {crate : UrlCrate} {k : Key} {e : JobEnvelope} (run : JobRun cfg crate k e) :
    List Op :=
  run.log.map (·.1) ++ ending k run.stop

namespace Webhook

/-- `fire_webhook` does not refuse the target. -/
def sends (urls : WebhookUrls) (allowLocalWebhooks : Bool) (url : String) : Bool :=
  allowLocalWebhooks || !isLocalWebhook urls url

/-- What is sent is the payload, and something is unless the target is refused. -/
theorem sends_iff (client : ℕ → Except String UInt16) (urls : WebhookUrls) (allowLocalWebhooks : Bool)
    (url : String) (payload : Json) :
    sends urls allowLocalWebhooks url = true ↔
      ⟨url, payload⟩ ∈ (fireWebhook client urls allowLocalWebhooks url payload).2 := by
  obtain ⟨-, hall, hne⟩ := @deliverFrom_requests client ⟨url, payload⟩ 3 0
  unfold sends fireWebhook
  cases allowLocalWebhooks <;> cases isLocalWebhook urls url
  case false.true => exact iff_of_false (by decide) List.not_mem_nil
  all_goals
    obtain ⟨r, hr⟩ := List.exists_mem_of_ne_nil _ (hne (by decide))
    exact iff_of_true rfl (hall r hr ▸ hr)

end Webhook

/-! ## Events -/

/-- The kinds of events that a `WebhookConfig` may list. -/
inductive EventKind
  | started
  | page
  | completed
  | failed
deriving DecidableEq

def EventKind.name : EventKind → String
  | started => "started"
  | page => "page"
  | completed => "completed"
  | failed => "failed"

theorem EventKind.name_injective : Function.Injective EventKind.name := by
  intro κ κ' h
  cases κ <;> cases κ' <;> first | rfl | exact absurd h (by decide)

/-- The jobs with a `WebhookConfig`. -/
inductive WebhookJob
  | crawl (job : CrawlJobData)
  | batchScrape (job : BatchScrapeJobData)

/-- What the types of the events of the job start with. -/
def WebhookJob.source : WebhookJob → String
  | crawl _ => "crawl."
  | batchScrape _ => "batch_scrape."

/-- A job with its webhook, and what decides which targets are refused. -/
structure Notifier where
  urls : WebhookUrls
  allowLocalWebhooks : Bool
  wh : WebhookConfig
  job : WebhookJob

/-- The type of an event. -/
def typeOf (payload : Json) : Option String := (payload.get? "type").bind Json.asStr

theorem typeOf_obj (t : String) (kvs : List (String × Json)) :
    typeOf (.obj (("type", .str t) :: kvs)) = some t := by
  simp [typeOf, Json.get?, Json.asStr]

/-- How far the calls of a job have come: the group is there, a page is stored, the row is completed. -/
structure Progress where
  grouped : Bool
  stored : Bool
  completed : Bool

namespace Progress

def init : Progress := ⟨false, false, false⟩

def next (p : Progress) : (o : Op) → o.Ans → Progress
  | .db (.getCrawlGroup _), .ok _ => { p with grouped := true }
  | .db (.updateJobGroup ..), .ok _ => { p with grouped := true }
  | .db (.enqueueCompleted ..), .ok _ => { p with stored := true }
  | .db (.completeJob ..), .ok _ => { p with completed := true }
  | _, _ => p

/-- How far a job has come that has performed the operations `log`. -/
def after (log : Log) : Progress := log.foldl (fun p x => p.next x.1 x.2) init

end Progress

namespace Notifier

variable (n : Notifier)

def envelope : JobEnvelope :=
  match n.job with
  | .crawl job => .crawl { job with webhook := some n.wh }
  | .batchScrape job => .batchScrape { job with webhook := some n.wh }

def eventType (kind : EventKind) : String := n.job.source ++ kind.name

def sends : Bool := Webhook.sends n.urls n.allowLocalWebhooks n.wh.url

/-- The type of the event that an operation posts to the webhook, if any. -/
def event : Op → Option String
  | .ext (.fireWebhook url payload) => if url = n.wh.url ∧ n.sends = true then typeOf payload else none
  | _ => none

/-- The types of the events posted in a run. -/
def posted {cfg : Config} {crate : UrlCrate} {k : Key} (run : JobRun cfg crate k n.envelope) : List String :=
  run.ops.filterMap n.event

/-- The kinds of events that the job posts unless its target is refused. -/
def Posts (p : Progress) (kind : EventKind) : Prop :=
  match n.job, kind with
  | .crawl _, .started => p.grouped = true
  | .crawl _, .page => p.stored = true ∧ "page" ∈ n.wh.events
  | .crawl _, .completed => p.completed = true
  | .crawl _, .failed => False
  | .batchScrape _, .completed => p.completed = true
  | .batchScrape _, _ => False

/-- Exactly these have been posted. -/
def Posted (ph : Progress × List String) : Prop :=
  ∀ t, t ∈ ph.2 ↔ n.sends = true ∧ ∃ kind, t = n.eventType kind ∧ n.Posts ph.1 kind

/-- The operations are allowed that leave exactly the events of `Posts` posted. -/
def protocol : Protocol Op Op.Ans where
  Phase := Progress × List String
  allows ph o := n.Posted (ph.1, ph.2 ++ (n.event o).toList)
  next ph o a := (ph.1.next o a, ph.2 ++ (n.event o).toList)
  valid _ _ := True

variable {n} {p p' : Progress} {types : List String}

theorem eventType_injective : Function.Injective n.eventType := fun _ _ h =>
  EventKind.name_injective ((String.append_right_inj _).mp h)

theorem event_fireWebhook (payload : Json) :
    n.event (.ext (.fireWebhook n.wh.url payload)) = if n.sends = true then typeOf payload else none := by
  simp [event]

/-! ## Rules -/

theorem not_posts_init (kind : EventKind) : ¬ n.Posts Progress.init kind := by
  unfold Posts
  cases n.job <;> cases kind <;> simp [Progress.init]

theorem posted_init : n.Posted (Progress.init, []) := fun _ =>
  iff_of_false List.not_mem_nil fun ⟨_, kind, _, hposts⟩ => not_posts_init kind hposts

/-- No further kind of events. -/
theorem Posted.congr (h : n.Posted (p, types)) (hp : ∀ kind, n.Posts p' kind ↔ n.Posts p kind) :
    n.Posted (p', types) := fun t => by
  simp only [h t, hp]

/-- One event, and no further kind but its own. -/
theorem Posted.snoc {kind : EventKind} {payload : Json} (h : n.Posted (p, types))
    (hp : ∀ κ, n.Posts p' κ ↔ n.Posts p κ ∨ κ = kind) (htype : typeOf payload = some (n.eventType kind)) :
    n.Posted (p', types ++ (n.event (.ext (.fireWebhook n.wh.url payload))).toList) := fun t => by
  rw [event_fireWebhook, htype, List.mem_append, h t]
  by_cases hsends : n.sends = true
  · simp [hsends, hp, and_or_left, exists_or]
  · simp [hsends]

theorem next_error (q : Query) (err : AppError) : p.next (.db q) (.error err) = p := by
  cases q <;> rfl

theorem ensures_db {q : Query} {Q : Progress × List String → q.Out → Prop} (h : n.Posted (p, types))
    (hQ : ∀ a, Q (p.next (.db q) (.ok a), types) a) :
    Ensures n.protocol n.Posted Q (p, types) (Call.db q) := by
  have htypes : types ++ (n.event (.db q)).toList = types := List.append_nil types
  refine ⟨?_, fun r _ => ⟨fun err herr => ?_, fun a ha => ?_⟩⟩
  · show n.Posted (p, types ++ _)
    rwa [htypes]
  · subst herr
    show n.Posted (_, types ++ _)
    rwa [htypes, next_error]
  · subst ha
    show Q (_, types ++ _) a
    rw [htypes]
    exact hQ a

/-- A statement, and then `f` on its answer. -/
theorem ensures_db_bind {α : Type} {q : Query} {f : q.Out → Call α} {Q : Progress × List String → α → Prop}
    (h : n.Posted (p, types)) (hf : ∀ a, Ensures n.protocol n.Posted Q (p.next (.db q) (.ok a), types) (f a)) :
    Ensures n.protocol n.Posted Q (p, types) (Call.db q >>= f) :=
  Ensures.bind (R := fun ph a => ph = (p.next (.db q) (.ok a), types)) (ensures_db h fun _ => rfl)
    fun _ a hph => hph ▸ hf a

theorem ensures_ext {x : Ext} {Q : Progress × List String → x.Ans → Prop} (hx : n.event (.ext x) = none)
    (h : n.Posted (p, types)) (hQ : ∀ a, Q (p, types) a) :
    Ensures n.protocol n.Posted Q (p, types) (Call.ext x) := by
  have htypes : types ++ (n.event (.ext x)).toList = types := by
    rw [hx]
    exact List.append_nil types
  refine Ensures.lift (o := Op.ext x) ?_ fun a _ => ?_
  · show n.Posted (p, types ++ _)
    rwa [htypes]
  · show Q (p, types ++ _) a
    rw [htypes]
    exact hQ a

theorem ensures_fireWebhook (kind : EventKind) {payload : Json} (h : n.Posted (p, types))
    (hp : ∀ κ, n.Posts p' κ ↔ n.Posts p κ ∨ κ = kind) (htype : typeOf payload = some (n.eventType kind)) :
    Ensures n.protocol n.Posted (fun ph _ => n.Posted ph) (p', types) (fireWebhook (some n.wh.url) payload) :=
  Ensures.bind (R := fun ph _ => n.Posted ph)
    (Ensures.lift (o := Op.ext (.fireWebhook n.wh.url payload)) (h.snoc hp htype) fun _ _ => h.snoc hp htype)
    fun _ _ hph => Ensures.pure hph

theorem ensures_ofExcept {α : Type} {Q : Progress × List String → α → Prop} (r : Except AppError α)
    (h : n.Posted (p, types)) (hQ : ∀ a, r = .ok a → Q (p, types) a) :
    Ensures n.protocol n.Posted Q (p, types) (Call.ofExcept r) := by
  cases r with
  | ok a => exact Ensures.pure (hQ a rfl)
  | error e => exact Ensures.throw h

/-! ## The jobs -/

variable {k : Key}

theorem storePages_ensures {job : CrawlJobData} (hjob : n.job = .crawl job) (g : Uuid) (results : List ScrapeResult)
    (h : n.Posted (p, types)) :
    Ensures n.protocol n.Posted (fun ph _ => n.Posted ph) (p, types)
      (storePages k.1 g { job with webhook := some n.wh } results) := by
  induction results generalizing p types with
  | nil => exact Ensures.pure h
  | cons r results ih =>
    unfold storePages
    refine ensures_db_bind h fun _ => ?_
    refine Ensures.bind (R := fun ph _ => n.Posted ph) ?_ fun ph _ hph => ih hph
    by_cases hpage : "page" ∈ n.wh.events
    · have hurl : (((some n.wh).filter fun wh => wh.events.any (· = "page")).map (·.url)) = some n.wh.url := by
        simp [Option.filter, hpage]
      rw [hurl]
      refine ensures_fireWebhook .page h (fun κ => ?_) ?_
      · cases κ <;> simp [Posts, Progress.next, hjob, hpage]
      · simp [typeOf_obj, eventType, hjob, WebhookJob.source, EventKind.name]
    · have hurl : (((some n.wh).filter fun wh => wh.events.any (· = "page")).map (·.url)) = none := by
        simp [Option.filter, hpage]
      rw [hurl]
      refine Ensures.pure (h.congr fun κ => ?_)
      cases κ <;> simp [Posts, Progress.next, hjob, hpage]

theorem crawlGroup_ensures {job : CrawlJobData} (h : n.Posted (p, types)) :
    Ensures n.protocol n.Posted (fun ph _ => ph = ({ p with grouped := true }, types)) (p, types)
      (crawlGroup k.1 k.2 job) := by
  unfold crawlGroup
  cases hg : job.groupId with
  | some g => exact ensures_db h fun _ => rfl
  | none =>
    refine ensures_db_bind h fun group => ?_
    exact ensures_db_bind h fun _ => Ensures.pure rfl

/-- The last two statements of a job, and its last event. -/
theorem finish_ensures {g : Uuid} {rv payload : Json} (h : n.Posted (p, types))
    (htype : typeOf payload = some (n.eventType .completed)) :
    Ensures n.protocol n.Posted (fun ph _ => n.Posted ph) (p, types) (do
      Call.db (.setGroupStatus g .completed)
      Call.db (.completeJob k.1 k.2 rv)
      fireWebhook (some n.wh.url) payload) := by
  refine ensures_db_bind h fun _ => ?_
  refine ensures_db_bind h fun _ => ?_
  refine ensures_fireWebhook .completed h (fun κ => ?_) htype
  unfold Posts
  cases n.job <;> cases κ <;> simp [Progress.next]

theorem runCrawl_ensures {job : CrawlJobData} (hjob : n.job = .crawl job) :
    Ensures n.protocol n.Posted (fun ph _ => n.Posted ph) (Progress.init, [])
      (runCrawl k.1 k.2 { job with webhook := some n.wh }) := by
  unfold runCrawl
  refine Ensures.bind (crawlGroup_ensures posted_init) ?_
  rintro _ group rfl
  refine Ensures.bind (ensures_fireWebhook .started posted_init (fun κ => ?_) ?_) ?_
  · cases κ <;> simp [Posts, hjob, Progress.init]
  · simp [typeOf_obj, eventType, hjob, WebhookJob.source, EventKind.name]
  rintro ⟨p, types⟩ _ h
  refine Ensures.bind (R := fun ph _ => ph = (p, types)) (ensures_ext rfl h fun _ => rfl) ?_
  rintro _ res rfl
  refine Ensures.bind (R := fun ph _ => ph = (p, types)) (ensures_ofExcept res h fun _ _ => rfl) ?_
  rintro _ results rfl
  refine Ensures.bind (storePages_ensures hjob group.id results h) ?_
  rintro ⟨p, types⟩ _ h
  refine finish_ensures h ?_
  simp [typeOf_obj, eventType, hjob, WebhookJob.source, EventKind.name]

theorem joinPages_ensures {job job' : BatchScrapeJobData} (hjob : n.job = .batchScrape job) (g : Uuid) (m : ℕ)
    (tasks : List Task) (results : List ScrapeResult) (h : n.Posted (p, types)) :
    Ensures n.protocol n.Posted (fun ph _ => n.Posted ph) (p, types) (joinPages g job' m tasks results) := by
  induction m generalizing tasks results p with
  | zero => unfold joinPages; exact Ensures.pure h
  | succ m ih =>
    cases tasks with
    | nil => unfold joinPages; exact Ensures.pure h
    | cons t ts =>
      unfold joinPages
      refine Ensures.bind (R := fun ph _ => ph = (p, types)) (ensures_ext rfl h fun _ => rfl) ?_
      rintro _ ⟨i, joined⟩ rfl
      rcases joined with _ | _ | r
      · exact ih _ _ h
      · exact ih _ _ h
      · refine ensures_db_bind h fun _ => ?_
        -- pages of a batch post nothing
        refine ih _ _ (h.congr fun κ => ?_)
        cases κ <;> simp [Posts, Progress.next, hjob]

theorem runBatchScrape_ensures {job : BatchScrapeJobData} (hjob : n.job = .batchScrape job) :
    Ensures n.protocol n.Posted (fun ph _ => n.Posted ph) (Progress.init, [])
      (runBatchScrape k.1 k.2 { job with webhook := some n.wh }) := by
  unfold runBatchScrape
  refine ensures_db_bind posted_init fun group => ?_
  refine ensures_db_bind posted_init fun _ => ?_
  refine Ensures.bind (joinPages_ensures hjob group.id _ _ [] (posted_init.congr fun κ => ?_)) ?_
  · cases κ <;> simp [Posts, Progress.next, hjob]
  rintro ⟨p, types⟩ results h
  refine finish_ensures h ?_
  simp [typeOf_obj, eventType, hjob, WebhookJob.source, EventKind.name]

theorem execute_ensures (cfg : Config) (crate : UrlCrate) :
    Ensures n.protocol n.Posted (fun ph _ => n.Posted ph) (Progress.init, [])
      (execute cfg crate k.1 k.2 n.envelope) := by
  unfold envelope
  cases hjob : n.job with
  | crawl job => exact runCrawl_ensures hjob
  | batchScrape job => exact runBatchScrape_ensures hjob

/-! ## The events of a run -/

section Runs

variable {cfg : Config} {crate : UrlCrate}

theorem protocol_after (ph : Progress × List String) (log : Log) :
    n.protocol.after ph log =
      (log.foldl (fun p x => p.next x.1 x.2) ph.1, ph.2 ++ log.filterMap fun x => n.event x.1) := by
  induction log generalizing ph with
  | nil => exact Prod.ext rfl (List.append_nil _).symm
  | cons x log ih =>
    refine (ih _).trans (Prod.ext rfl ?_)
    show ph.2 ++ (n.event x.1).toList ++ _ = _
    cases h : n.event x.1 <;> simp [h]

/-- **In every run exactly the events of `Posts` are posted.** -/
theorem posted_iff (run : JobRun cfg crate k n.envelope) : n.Posted (Progress.after run.log, n.posted run) := by
  obtain ⟨log, stop, hstops⟩ := run
  have hend := Follows.stops (execute_ensures cfg crate) hstops fun _ _ => trivial
  rw [protocol_after] at hend
  have hposted (ops : List Op) : (log.map (·.1) ++ ops).filterMap n.event =
      [] ++ (log.filterMap fun x => n.event x.1) ++ ops.filterMap n.event := by
    rw [List.filterMap_append, List.filterMap_map]
    rfl
  unfold posted JobRun.ops
  rw [hposted]
  rcases stop with (e | ⟨⟩) | o
  · exact (List.append_nil _).symm ▸ hend.1 e rfl
  · exact (List.append_nil _).symm ▸ hend.2 () rfl
  · have hunder : (ending k (.interrupted o)).filterMap n.event = (n.event o).toList := by
      rw [ending, List.filterMap_cons]
      cases n.event o <;> rfl
    rw [hunder]
    exact hend

/-- What happens in a run. -/
def Occurred (run : JobRun cfg crate k n.envelope) : EventKind → Prop
  | .started => True
  | .page => (Progress.after run.log).stored = true
  | .completed => (Progress.after run.log).completed = true
  | .failed => Unsuccessful run.stop

variable (n) in
/-- The events posted are those that occur and are listed. -/
def Subscribed (run : JobRun cfg crate k n.envelope) : Prop :=
  ∀ t, t ∈ n.posted run ↔ ∃ kind, t = n.eventType kind ∧ Occurred run kind ∧ kind.name ∈ n.wh.events

theorem subscribed_iff_posts (run : JobRun cfg crate k n.envelope) : n.Subscribed run ↔
    ∀ kind, (n.sends = true ∧ n.Posts (Progress.after run.log) kind ↔
      Occurred run kind ∧ kind.name ∈ n.wh.events) := by
  have hposted (kind : EventKind) : n.eventType kind ∈ n.posted run ↔
      n.sends = true ∧ n.Posts (Progress.after run.log) kind := by
    rw [posted_iff run]
    exact and_congr_right fun _ => ⟨fun ⟨_, hκ, h⟩ => eventType_injective hκ ▸ h, fun h => ⟨kind, rfl, h⟩⟩
  constructor
  · intro h kind
    rw [← hposted, h]
    exact ⟨fun ⟨_, hκ, h⟩ => eventType_injective hκ ▸ h, fun h => ⟨kind, rfl, h⟩⟩
  · intro h t
    rw [posted_iff run]
    constructor
    · rintro ⟨hsends, kind, rfl, hposts⟩
      exact ⟨kind, rfl, (h kind).mp ⟨hsends, hposts⟩⟩
    · rintro ⟨kind, rfl, hkind⟩
      exact ⟨((h kind).mpr hkind).1, kind, rfl, ((h kind).mpr hkind).2⟩

/-- A crawl posts its start and its end, listed or not, and neither job posts its failure; a batch posts
its end only. A target that is refused gets nothing. -/
theorem subscribed_iff (run : JobRun cfg crate k n.envelope) : n.Subscribed run ↔
    if n.sends = true then
      match n.job with
      | .crawl _ =>
        ((Progress.after run.log).grouped = true ↔ "started" ∈ n.wh.events) ∧
          ((Progress.after run.log).completed = true → "completed" ∈ n.wh.events) ∧
          (Unsuccessful run.stop → "failed" ∉ n.wh.events)
      | .batchScrape _ =>
        "started" ∉ n.wh.events ∧ ((Progress.after run.log).stored = true → "page" ∉ n.wh.events) ∧
          ((Progress.after run.log).completed = true → "completed" ∈ n.wh.events) ∧
          (Unsuccessful run.stop → "failed" ∉ n.wh.events)
    else ∀ kind, Occurred run kind → kind.name ∉ n.wh.events := by
  rw [subscribed_iff_posts]
  split_ifs with hsends
  · have hall {C : EventKind → Prop} : (∀ kind, C kind) ↔ C .started ∧ C .page ∧ C .completed ∧ C .failed :=
      ⟨fun h => ⟨h _, h _, h _, h _⟩, fun ⟨h₁, h₂, h₃, h₄⟩ kind => by cases kind <;> assumption⟩
    rw [hall]
    cases hjob : n.job with
    | crawl job => simp [hsends, Posts, hjob, Occurred, EventKind.name]
    | batchScrape job => simp [hsends, Posts, hjob, Occurred, EventKind.name]
  · exact forall_congr' fun kind => by simp [hsends]

end Runs

end Notifier

/-- A crawl of group 1 whose webhook is to get pages only. -/
def Notifier.sample : Notifier where
  urls := .sample
  allowLocalWebhooks := false
  wh := { url := "https://example.com", headers := none, events := ["page"] }
  job := .crawl sampleCrawlJob

/-- It times out while its start is posted. -/
theorem not_subscribed : ¬ ∀ (n : Notifier) (cfg : Config) (crate : UrlCrate) (k : Key)
    (run : JobRun cfg crate k n.envelope), n.wh.events ≠ [] → n.Subscribed run := by
  intro h
  let group : GroupCrawlRow := ⟨1, .active, 0, .nil, 0, none⟩
  let log : Log := [⟨.db (.getCrawlGroup 1), .ok group⟩]
  let run : JobRun .sample .sample (1, 0) Notifier.sample.envelope :=
    ⟨log, .interrupted _, .op (.interrupt _ _)⟩
  have hposted : "crawl.started" ∈ Notifier.sample.posted run := by decide
  obtain ⟨kind, htype, -, hlisted⟩ := (h _ _ _ _ run (by decide) _).mp hposted
  cases kind <;> revert htype hlisted <;> decide

end FireCtrl
