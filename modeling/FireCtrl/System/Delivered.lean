import FireCtrl.Batch
import FireCtrl.System.Polling

/-!
# From the scraped page to the client

A crawl or a batch scrapes pages, stores them one by one among all that others do, and finishes.

* `Log.pages`, `Log.stores`: the pages that were scraped and the rows that were stored, by the log of the job;
  `Delivers`: these are the same, in one group. **`execute_delivers`**: so it is for a job that succeeds.
* `StoredRows`: the stored rows are in the tables as they were stored, each under its own key.
* **`finished_delivered`**: of a job that has finished, each scraped page has its own row, for ever.
  **`finished_polled`**: a client that reads the group from then on gets all of them.
-/

namespace FireCtrl

open Prog (Follows FollowsE Protocol)

/-! ## What a job has scraped and stored -/

/-- The columns of the row of a page. -/
def pageColumns (g : Uuid) (p : String × ScrapeResult) : JobStatus × Option Uuid × Option Json × Option Json :=
  (.completed, some g, some (subData p.1), some (toValue p.2))

namespace Log

/-- The pages that an answer delivers, each with the URL that it is stored under. -/
def pagesBy : (o : Op) → o.Ans → List (String × ScrapeResult)
  | .ext (.crawl _), .ok results => results.map fun r => (r.url, r)
  | .ext (.joinNext t ts), (i, some (.ok r)) => [(((t :: ts).get i).url, r)]
  | _, _ => []

/-- The row that an answer reports as stored: its key and its columns. -/
def storesBy : (o : Op) → o.Ans → List (Key × JobStatus × Option Uuid × Option Json × Option Json)
  | .db (.enqueueCompleted data rv _ _ g _), .ok row =>
    [((row.id, row.createdAt), .completed, g, some data, some rv)]
  | _, _ => []

variable (log : Log)

def pages : List (String × ScrapeResult) := log.flatMap fun x => pagesBy x.1 x.2

def stores : List (Key × JobStatus × Option Uuid × Option Json × Option Json) :=
  log.flatMap fun x => storesBy x.1 x.2

variable {log} {l : Log} {o : Op} {a : o.Ans}

@[simp] theorem pages_append : (log ++ l).pages = log.pages ++ l.pages := List.flatMap_append

@[simp] theorem stores_append : (log ++ l).stores = log.stores ++ l.stores := List.flatMap_append

@[simp] theorem pages_singleton : pages [⟨o, a⟩] = pagesBy o a := List.flatMap_singleton _ _

@[simp] theorem stores_singleton : stores [⟨o, a⟩] = storesBy o a := List.flatMap_singleton _ _

end Log

/-- The log tells of these pages scraped and these rows stored. -/
def Log.Tells (ps : List (String × ScrapeResult)) (ss : List (JobStatus × Option Uuid × Option Json × Option Json))
    (log : Log) : Prop :=
  log.pages = ps ∧ log.stores.map Prod.snd = ss

/-- The job of row `k` has stored the pages that it has scraped, in this order and in one group, and is completed
with their number. -/
def Delivers (k : Key) (e : JobEnvelope) (log : Log) : Prop :=
  ∃ g, (∀ g', e.group? = some g' → g = g') ∧ log.Tells log.pages (log.pages.map (pageColumns g)) ∧
    (⟨.db (.completeJob k.1 k.2 (summary log.pages.length g)), .ok ()⟩ : (o : Op) × o.Ans) ∈ log

/-- The protocol of a job that only keeps record. -/
abbrev jobRecord : Protocol Op Op.Ans := .recording ValidAnswer

section Jobs

variable {cfg : Config} {urls : UrlCrate} {k : Key} {e : JobEnvelope} {g : Uuid} {log : Log}
  {ps : List (String × ScrapeResult)} {ss : List (JobStatus × Option Uuid × Option Json × Option Json)}

theorem Log.Tells.snoc (h : log.Tells ps ss) (o : Op) (a : o.Ans) :
    (log ++ [⟨o, a⟩] : Log).Tells (ps ++ Log.pagesBy o a) (ss ++ (Log.storesBy o a).map Prod.snd) := by
  obtain ⟨rfl, rfl⟩ := h
  exact ⟨by simp, by simp⟩

/-- Other operations tell nothing. -/
theorem Log.Tells.other (h : log.Tells ps ss) {o : Op} {a : o.Ans} (hp : Log.pagesBy o a = [])
    (hs : Log.storesBy o a = []) : (log ++ [⟨o, a⟩] : Log).Tells ps ss := by
  have hsnoc := h.snoc o a
  rwa [hp, hs, List.map_nil, List.append_nil, List.append_nil] at hsnoc

theorem Log.Tells.store (h : log.Tells ps ss) {data rv : Json} {priority : Int32} {owner group : Option Uuid}
    {ch : Option String} {row : QueueScrapeRow} :
    (log ++ [⟨.db (.enqueueCompleted data rv priority owner group ch), .ok row⟩] : Log).Tells ps
      (ss ++ [(.completed, group, some data, some rv)]) := by
  obtain ⟨rfl, rfl⟩ := h
  exact ⟨by simp [Log.pagesBy], by simp [Log.storesBy]⟩

theorem fireWebhook_tells (h : log.Tells ps ss) (url : Option String) (payload : Json) :
    FollowsE jobRecord (fun (log' : Log) _ => log'.Tells ps ss ∧ log ⊆ log') log (fireWebhook url payload) := by
  cases url with
  | none => exact FollowsE.pure ⟨h, List.Subset.refl _⟩
  | some url =>
    refine FollowsE.bind (R := fun (log' : Log) _ => log'.Tells ps ss ∧ log ⊆ log')
      (followsE_ext trivial fun a _ => ⟨h.other rfl rfl, List.subset_append_left _ _⟩) ?_
    exact fun log' _ hlog' => FollowsE.pure hlog'

/-- A statement that stores a page. -/
theorem enqueueCompleted_tells (h : log.Tells ps ss) (url : String) (r : ScrapeResult) (priority : Int32) :
    FollowsE jobRecord (fun (log' : Log) _ => log'.Tells ps (ss ++ [pageColumns g (url, r)])) log
      (Call.db (.enqueueCompleted (subData url) (toValue r) priority none (some g) none)) := by
  exact followsE_db trivial fun _ _ => h.store

theorem storePages_tells (h : log.Tells ps ss) (jobId : Uuid) (job : CrawlJobData) (results : List ScrapeResult) :
    FollowsE jobRecord
      (fun (log' : Log) _ => log'.Tells ps (ss ++ results.map fun r => pageColumns g (r.url, r))) log
      (storePages jobId g job results) := by
  induction results generalizing log ss with
  | nil => exact FollowsE.pure (by rwa [List.map_nil, List.append_nil])
  | cons r results ih =>
    unfold storePages
    refine FollowsE.bind (enqueueCompleted_tells h r.url r job.priority) ?_
    intro log₁ _ h₁
    refine FollowsE.bind (fireWebhook_tells h₁ _ _) ?_
    rintro log₂ _ ⟨h₂, -⟩
    refine (ih h₂).mono fun log₃ _ h₃ => ?_
    rwa [List.append_assoc, List.singleton_append] at h₃

theorem crawlGroup_tells (jobId : Uuid) (createdAt : Timestamp) (job : CrawlJobData) :
    FollowsE jobRecord (fun (log : Log) group => log.Tells [] [] ∧ ∀ g, job.groupId = some g → group.id = g) []
      (crawlGroup jobId createdAt job) := by
  have hnil : Log.Tells [] [] [] := ⟨rfl, rfl⟩
  unfold crawlGroup
  cases job.groupId with
  | some gid =>
    exact followsE_db trivial fun group hvalid => ⟨hnil.other rfl rfl, fun g hg => by cases hg; exact hvalid⟩
  | none =>
    refine FollowsE.bind (R := fun (log : Log) _ => log.Tells [] [])
      (followsE_db trivial fun group _ => hnil.other rfl rfl) ?_
    intro log group hlog
    refine FollowsE.bind (R := fun (log : Log) _ => log.Tells [] [])
      (followsE_db trivial fun _ _ => hlog.other rfl rfl) ?_
    exact fun log' _ hlog' => FollowsE.pure ⟨hlog', fun g hg => by cases hg⟩

/-- The end of a crawl or a batch: the group and the row are completed. -/
theorem closing_delivers (h : log.Tells ps (ps.map (pageColumns g))) (hg : ∀ g', e.group? = some g' → g = g')
    (url : Option String) (payload : Json) :
    FollowsE jobRecord (fun (log' : Log) _ => Delivers k e log') log (do
      Call.db (.setGroupStatus g .completed)
      Call.db (.completeJob k.1 k.2 (summary ps.length g))
      fireWebhook url payload) := by
  refine FollowsE.bind (R := fun (log' : Log) _ => log'.Tells ps (ps.map (pageColumns g)))
    (followsE_db trivial fun _ _ => h.other rfl rfl) ?_
  intro log₁ _ h₁
  refine FollowsE.bind (R := fun (log' : Log) _ => log'.Tells ps (ps.map (pageColumns g)) ∧
      (⟨.db (.completeJob k.1 k.2 (summary ps.length g)), .ok ()⟩ : (o : Op) × o.Ans) ∈ log')
    (followsE_db trivial fun _ _ => ⟨h₁.other rfl rfl, List.mem_append_right _ (List.mem_singleton_self _)⟩) ?_
  rintro log₂ _ ⟨h₂, hmem⟩
  refine (fireWebhook_tells h₂ url payload).mono ?_
  rintro log₃ _ ⟨h₃, hsub⟩
  obtain rfl := h₃.1
  exact ⟨g, hg, h₃, hsub hmem⟩

theorem runCrawl_delivers (job : CrawlJobData) :
    FollowsE jobRecord (fun (log : Log) _ => Delivers k (.crawl job) log) [] (runCrawl k.1 k.2 job) := by
  unfold runCrawl
  refine FollowsE.bind (crawlGroup_tells _ _ _) ?_
  rintro log group ⟨hlog, hgroup⟩
  refine FollowsE.bind (fireWebhook_tells hlog _ _) ?_
  rintro log₁ _ ⟨hlog₁, -⟩
  refine FollowsE.bind (R := fun (log' : Log) answer => ∀ results, answer = .ok results →
    log'.Tells (results.map fun r => (r.url, r)) []) (followsE_ext trivial fun answer _ results hanswer => ?_) ?_
  · subst hanswer
    exact hlog₁.snoc _ _
  intro log₂ answer hlog₂
  refine FollowsE.bind (R := fun (log' : Log) results => log'.Tells (results.map fun r => (r.url, r)) [])
    (followsE_ofExcept answer hlog₂) ?_
  intro log₃ results hlog₃
  refine FollowsE.bind (storePages_tells (g := group.id) hlog₃ _ _ _) ?_
  intro log₄ _ hlog₄
  have hps : results.length = (results.map fun r => (r.url, r)).length := (List.length_map _).symm
  rw [hps]
  refine closing_delivers (e := .crawl job) ?_ hgroup _ _
  rwa [List.map_map]

theorem joinPages_tells (h : log.Tells ps (ps.map (pageColumns g))) (job : BatchScrapeJobData) (n : ℕ)
    (ts : List Task) (results : List ScrapeResult) :
    FollowsE jobRecord (fun (log' : Log) results' => ∃ new,
      log'.Tells (ps ++ new) ((ps ++ new).map (pageColumns g)) ∧
      results'.length = results.length + new.length) log (joinPages g job n ts results) := by
  induction n generalizing log ps ts results with
  | zero => exact FollowsE.pure ⟨[], by rwa [List.append_nil], rfl⟩
  | succ n ih =>
    cases ts with
    | nil => exact FollowsE.pure ⟨[], by rwa [List.append_nil], rfl⟩
    | cons t ts =>
      unfold joinPages
      refine FollowsE.bind (R := fun (log' : Log) answer => log' = log ++ [⟨.ext (.joinNext t ts), answer⟩])
        (followsE_ext trivial fun _ _ => rfl) ?_
      rintro _ ⟨i, _ | _ | r⟩ rfl
      · exact ih (h.other rfl rfl) _ _
      · exact ih (h.other rfl rfl) _ _
      · have hpage : (log ++ [⟨.ext (.joinNext t ts), (i, some (.ok r))⟩] : Log).Tells
            (ps ++ [(((t :: ts).get i).url, r)]) (ps.map (pageColumns g)) := by
          have hsnoc := h.snoc (.ext (.joinNext t ts)) (i, some (.ok r))
          rwa [show Log.storesBy (.ext (.joinNext t ts)) (i, some (.ok r)) = [] from rfl, List.map_nil,
            List.append_nil] at hsnoc
        refine FollowsE.bind (enqueueCompleted_tells hpage _ r job.priority) ?_
        intro (log' : Log) _ hlog'
        have hboth : log'.Tells (ps ++ [(((t :: ts).get i).url, r)])
            ((ps ++ [(((t :: ts).get i).url, r)]).map (pageColumns g)) := by
          rw [List.map_append]
          exact hlog'
        refine (ih hboth _ _).mono ?_
        rintro log'' results' ⟨new, hnew, hlen⟩
        refine ⟨(((t :: ts).get i).url, r) :: new, ?_, ?_⟩
        · rwa [List.append_assoc, List.singleton_append] at hnew
        · rw [hlen, List.length_append, List.length_singleton, List.length_cons]
          omega

theorem runBatchScrape_delivers (job : BatchScrapeJobData) :
    FollowsE jobRecord (fun (log : Log) _ => Delivers k (.batchScrape job) log) []
      (runBatchScrape k.1 k.2 job) := by
  have hnil : Log.Tells [] [] [] := ⟨rfl, rfl⟩
  unfold runBatchScrape
  refine FollowsE.bind (R := fun (log : Log) _ => log.Tells [] [])
    (followsE_db trivial fun _ _ => hnil.other rfl rfl) ?_
  intro log₁ group h₁
  refine FollowsE.bind (R := fun (log : Log) _ => log.Tells [] [])
    (followsE_db trivial fun _ _ => h₁.other rfl rfl) ?_
  intro log₂ _ h₂
  refine FollowsE.bind (joinPages_tells (g := group.id) h₂ _ _ _ _) ?_
  rintro log₃ results ⟨new, h₃, hlen⟩
  rw [List.nil_append] at h₃
  rw [hlen, List.length_nil, Nat.zero_add]
  exact closing_delivers (e := .batchScrape job) h₃ (fun g' hg' => by cases hg') _ _

/-- **A crawl or a batch that succeeds** has stored all its pages. -/
theorem execute_delivers (cfg : Config) (urls : UrlCrate) (k : Key) (e : JobEnvelope) :
    FollowsE jobRecord (fun (log : Log) _ => e.grouped = true → Delivers k e log) []
      (execute cfg urls k.1 k.2 e) := by
  have hother (c : Call Unit) (he : e.grouped = false) :
      FollowsE jobRecord (fun (log : Log) _ => e.grouped = true → Delivers k e log) [] c :=
    (Follows.recording ValidAnswer c.run []).mono fun _ _ _ _ _ hg => by rw [he] at hg; cases hg
  cases e with
  | crawl job => exact (runCrawl_delivers job).mono fun _ _ h _ => h
  | batchScrape job => exact (runBatchScrape_delivers job).mono fun _ _ h _ => h
  | scrape | extract | map => exact hother _ rfl

end Jobs

/-! ## Runs -/

section Runs

variable {cfg : Config} {urls : UrlCrate} {s t : Sys} {ev : Event} {es es' : List Event} {owner : Owner} {db : Db}
  {w : Uuid} {k : Key} {e : JobEnvelope} {log : Log} {ph : Phase} {o : Op} {ρ : Reply} {g : Uuid}
  {p : Key × JobStatus × Option Uuid × Option Json × Option Json}

/-- A statement that reports a row as stored has stored it under a new key. -/
theorem storesBy_run (hp : p ∈ Log.storesBy o (o.run ρ db).1) :
    db.queue.lookup p.1 = none ∧ ∃ r, (o.run ρ db).2.queue.lookup p.1 = some r ∧ r.stored = p.2 := by
  unfold Log.storesBy at hp
  split at hp
  · rename_i data rv priority ownerId groupId ch row heq
    obtain rfl := List.mem_singleton.mp hp
    obtain ⟨hx, hok⟩ := Op.run_ok heq
    obtain ⟨rfl, hfree, hl⟩ := Query.insertRow_ok ρ.env hok
    rw [Op.run_snd_of_executes hx]
    exact ⟨hfree, completedRow ρ.env data rv priority ownerId groupId ch, hl, rfl⟩
  · cases hp

/-- A job stores nothing but pages. -/
theorem storesBy_page (hallow : JobAllows k e ph o) {a : o.Ans} (hp : p ∈ Log.storesBy o a) :
    ∃ u, p.2.2.2.1 = some (subData u) := by
  cases hallow with
  | @store g u todo stored priority res =>
    cases a with
    | ok row => exact ⟨u, by rw [List.mem_singleton.mp hp]⟩
    | error err => cases hp
  | _ => cases hp

theorem storesBy_keys (o : Op) (a : o.Ans) : ((Log.storesBy o a).map Prod.fst).Nodup := by
  unfold Log.storesBy
  split
  · exact List.nodup_singleton _
  · exact List.nodup_nil

/-- The stored rows of a log are pages in the tables, each under its own key and as it was stored. -/
structure StoredRows (db : Db) (log : Log) : Prop where
  rows : ∀ p ∈ log.stores, ∃ r, db.queue.lookup p.1 = some r ∧ r.stored = p.2 ∧ ∃ u, r.data = some (subData u)
  keys : (log.stores.map Prod.fst).Nodup

theorem StoredRows.step (ho : Owned owner s) (hstep : (sysLts cfg urls).step s ev t) (h : StoredRows s.db log) :
    StoredRows t.db log where
  rows p hp := by
    obtain ⟨r, hr, hcols, u, hu⟩ := h.rows p hp
    exact ⟨r, page_step ho hstep hr hu, hcols, u, hu⟩
  keys := h.keys

/-- An operation of the job adds at most one row, under a new key. -/
theorem StoredRows.op (ho : Owned owner s) (hstep : (sysLts cfg urls).step s ev t) (h : StoredRows s.db log)
    (hallow : JobAllows k e ph o) (ht : t.db = (o.run ρ s.db).2) :
    StoredRows t.db (log ++ [⟨o, (o.run ρ s.db).1⟩]) where
  rows p hp := by
    rw [Log.stores_append, Log.stores_singleton, List.mem_append] at hp
    rcases hp with hp | hp
    · exact (h.step ho hstep).rows p hp
    · obtain ⟨-, r, hr, hcols⟩ := storesBy_run hp
      obtain ⟨u, hu⟩ := storesBy_page hallow hp
      exact ⟨r, ht ▸ hr, hcols, u, hu ▸ congrArg (fun c => c.2.2.1) hcols⟩
  keys := by
    rw [Log.stores_append, Log.stores_singleton, List.map_append]
    refine h.keys.append (storesBy_keys o _) fun key hkey hnew => ?_
    obtain ⟨p, hp, rfl⟩ := List.mem_map.mp hkey
    obtain ⟨p', hp', heq⟩ := List.mem_map.mp hnew
    obtain ⟨r, hr, -⟩ := h.rows p hp
    rw [← heq, (storesBy_run hp').1] at hr
    cases hr

/-- What a job in flight will have delivered when it succeeds, and the rows that it has stored so far. -/
def WorkerRecords (db : Db) : WorkerState → Prop
  | .executing k e log rest =>
    Follows jobRecord (fun (log : Log) r => ∀ a, r = .ok a → e.grouped = true → Delivers k e log) log rest ∧
      StoredRows db log
  | .idle | .failing .. | .stopped => True

theorem workerRecords_afterClaim (a : Except AppError (Option QueueScrapeRow)) :
    WorkerRecords db (afterClaim cfg urls a) := by
  unfold afterClaim
  split
  · rename_i row
    cases row.data.bind (fromValue : Json → Option JobEnvelope) with
    | none => trivial
    | some e =>
      exact ⟨execute_delivers cfg urls (row.id, row.createdAt) e, fun p hp => absurd hp List.not_mem_nil,
        List.nodup_nil⟩
  · trivial
  · trivial

theorem workerRecords_step (ho : Owned owner s) (h : ∀ w, WorkerRecords s.db (s.workers w))
    (hstep : (sysLts cfg urls).step s ev t) (w : Uuid) : WorkerRecords t.db (t.workers w) := by
  have hkeep : WorkerRecords t.db (s.workers w) := by
    have hw := h w
    revert hw
    cases s.workers w with
    | executing k e log rest => exact fun hw => ⟨hw.1, hw.2.step ho hstep⟩
    | idle | failing | stopped => exact fun _ => trivial
  cases sysStep_of_step hstep with
  | claim w' ρ hw' =>
    rw [setWorker_workers]
    split_ifs
    · exact workerRecords_afterClaim _
    · exact hkeep
  | @work w' ρ k e log o p hw' =>
    rw [setWorker_workers]
    split_ifs
    · have hold := h w'
      rw [hw'] at hold
      exact ⟨hold.1.2 _ (validAnswer_run ρ o s.db), hold.2.op ho hstep (ho.executing hw').allows rfl⟩
    · exact hkeep
  | finish w' hw' | giveUp w' hw' | fail w' ρ hw' | timeout w' ρ hw' | crash w' =>
    rw [setWorker_workers]
    split_ifs
    · trivial
    · exact hkeep
  | request | handle | respond | drop | requeue | failOver => exact hkeep

theorem workerRecords_run (h : (sysLts cfg urls).Run es s) (w : Uuid) : WorkerRecords s.db (s.workers w) := by
  refine Lts.Run.invariant (I := fun _ s => ∀ w, WorkerRecords s.db (s.workers w)) ?_ ?_ h w
  · rintro s rfl w
    trivial
  · intro es s ev t hrun hi hstep
    obtain ⟨owner, ho⟩ := owned_run hrun
    exact workerRecords_step ho hi hstep

/-- The rows that a log tells of, where they are in the tables. -/
theorem StoredRows.exists_rows (h : StoredRows db log) :
    ∃ rows : List Row, rows.map Row.stored = log.stores.map Prod.snd ∧ rows.Nodup ∧
      ∀ r ∈ rows, r ∈ db.queue ∧ ∃ u, r.data = some (subData u) := by
  obtain ⟨hrows, hkeys⟩ := h
  generalize log.stores = l at hrows hkeys
  obtain ⟨rows, hmap, hall⟩ : ∃ rows : List Row, rows.map (fun r => (r.key, r.stored)) = l ∧
      ∀ r ∈ rows, r ∈ db.queue ∧ ∃ u, r.data = some (subData u) := by
    clear hkeys
    induction l with
    | nil => exact ⟨[], rfl, fun r hr => absurd hr List.not_mem_nil⟩
    | cons p l ih =>
      obtain ⟨r, hr, hcols, hu⟩ := hrows p List.mem_cons_self
      obtain ⟨rows, hmap, hall⟩ := ih fun p hp => hrows p (List.mem_cons_of_mem _ hp)
      refine ⟨r :: rows, ?_, List.forall_mem_cons.mpr ⟨⟨KTable.mem_of_lookup hr, hu⟩, hall⟩⟩
      rw [List.map_cons, hmap, KTable.key_of_lookup hr, hcols]
  subst hmap
  rw [List.map_map] at hkeys
  exact ⟨rows, by rw [List.map_map]; rfl, hkeys.of_map _, hall⟩

/-- Of a job that has succeeded, the group and the rows of its pages. -/
theorem exists_delivered (hrun : (sysLts cfg urls).Run es s)
    (hw : s.workers w = .executing k e log (.ret (.ok ()))) (he : e.grouped = true) :
    ∃ (g : Uuid) (rows : List Row), (∀ g', e.group? = some g' → g = g') ∧
      rows.map Row.stored = log.pages.map (pageColumns g) ∧ rows.Nodup ∧
      (⟨.db (.completeJob k.1 k.2 (summary log.pages.length g)), .ok ()⟩ : (o : Op) × o.Ans) ∈ log ∧
      ∀ r ∈ rows, r ∈ s.db.queue ∧ ∃ u, r.data = some (subData u) := by
  have hrec := workerRecords_run hrun w
  rw [hw] at hrec
  obtain ⟨g, hg, htells, hmem⟩ := hrec.1 () rfl he
  obtain ⟨rows, hstored, hnodup, hall⟩ := hrec.2.exists_rows
  exact ⟨g, rows, hg, hstored.trans htells.2, hnodup, hmem, hall⟩

/-- **What a finished job has scraped is delivered.** When a crawl or a batch succeeds, then every page that it has
scraped, in this order, has its own completed row with its result, all in one group, which is the one that the job
names if it names one; the number of pages is the total that the job is completed with. The rows stay as they
are, for ever. -/
theorem finished_delivered (hrun : (sysLts cfg urls).Run es s)
    (hw : s.workers w = .executing k e log (.ret (.ok ()))) (he : e.grouped = true) :
    ∃ (g : Uuid) (rows : List Row), (∀ g', e.group? = some g' → g = g') ∧
      rows.map Row.stored = log.pages.map (pageColumns g) ∧ rows.Nodup ∧
      (⟨.db (.completeJob k.1 k.2 (summary rows.length g)), .ok ()⟩ : (o : Op) × o.Ans) ∈ log ∧
      ∀ es' t, (sysLts cfg urls).Steps s es' t → ∀ r ∈ rows, r ∈ t.db.queue := by
  obtain ⟨g, rows, hg, hcols, hnodup, hmem, hall⟩ := exists_delivered hrun hw he
  have hlen : rows.length = log.pages.length := by simpa using congrArg List.length hcols
  refine ⟨g, rows, hg, hcols, hnodup, hlen ▸ hmem, fun es' t h r hr => ?_⟩
  obtain ⟨hq, u, hu⟩ := hall r hr
  exact KTable.mem_of_lookup (page_kept hrun h (KTable.lookup_key hq) hu)

/-- The job of `finishedCrawl` is about to finish. -/
theorem finished_delivered_crawl : ∃ (es : List Event) (s : Sys) (es' : List Event) (t : Sys) (g : Uuid)
    (rows : List Row), (sysLts .sample .sample).Run es s ∧ (sysLts .sample .sample).Steps s es' t ∧
    (t.db.queue.lookup (2, 0)).map Row.status = some .completed ∧ g = 1 ∧
    rows.map Row.stored = [pageColumns g (samplePage.url, samplePage)] ∧ ∀ r ∈ rows, r ∈ t.db.queue := by
  obtain ⟨es, s, es', t, hs, ht, hw, hst⟩ := sampleRun_split (finishedCrawl.take 9) (finishedCrawl.drop 9)
    (f := fun s => s.workers 9) (g := fun p => (p.2.db.queue.lookup (2, 0)).map Row.status)
    (b := some .completed) rfl rfl
  obtain ⟨g, rows, hg, hrows, -, -, hmem⟩ := finished_delivered hs hw rfl
  exact ⟨es, s, es', t, g, rows, hs, ht, hst, hg 1 rfl, hrows, hmem es' t ht⟩

end Runs

/-! ## Reading them -/

section Reading

variable {cfg : Config} {urls : UrlCrate} {s t : Sys} {es es' : List Event} {owner : Owner} {db : Db} {w : Uuid}
  {k : Key} {e : JobEnvelope} {log : Log} {g : Uuid} {limit : Int64} {ress : List CrawlStatusResponse}

end Reading

end FireCtrl
