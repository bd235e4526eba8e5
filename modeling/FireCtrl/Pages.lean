import FireCtrl.Codec
import FireCtrl.Lib.Keyset
import FireCtrl.Queue.Spec
import FireCtrl.Api

/-!
# Reading a group page by page

A client reads the status of a crawl or batch with some page limit and follows `next` until it is
absent, while the tables stay as they are.

* `Call.read`: a handler that only reads, with a given answer of `get_job`; `crawlStatus_read`,
  `batchStatus_read`: what the two status handlers answer.
* `Follow`: the data a client collects; `follow_iff_reads`: it reads the list of the group's rows by
  keyset pagination.
* `LeftGroup`: a group as a finished crawl or batch leaves it, with the parent row whose return value
  is not a page; **`crawl_lossless_iff`**, **`pagination_lossless_iff`**: the client gets every page
  exactly if the parent row is on the last one.
-/

namespace FireCtrl

/-! ## Handlers that only read -/

section Read

variable (ρ : Reply) (job : Uuid → Except AppError QueueScrapeRow)

/-- Answer an operation from the tables, and `get_job` by `job`. -/
def readOp : (o : Op) → Db → o.Ans × Db
  | .db (.getJob id), s => (job id, s)
  | .db q, s => q.exec ρ.env s
  | .ext x, s => (ρ.ext x, s)

/-- The result of a call that only reads. -/
def Call.read {α : Type} (db : Db) (c : Call α) : Except AppError α := (c.run.eval (readOp ρ job) db).1

end Read

/-- The rows of a group in the order in which they are listed. -/
def Db.groupRows (db : Db) (g : Uuid) : List Row := db.queue.orderBy pageOrder fun r => r.groupId = some g

/-- The scrape result in a row. -/
def Row.result? (r : Row) : Option ScrapeResult := (mapQueueRow r).result?

/-- The query of a page: the limit, and the cursor if there is one. -/
def pageParams (limit : Int64) (c : Option (Timestamp ×ₗ Uuid)) : PaginationParams where
  limit := some limit
  afterId := c.map fun c => (ofLex c).2
  afterCreatedAt := c.map fun c => (ofLex c).1

/-- The query that a `next` link makes. -/
def NextLink.params (l : NextLink) : PaginationParams where
  limit := some l.limit
  afterId := some l.afterId
  afterCreatedAt := some l.afterCreatedAt

variable {ρ : Reply} {job : Uuid → Except AppError QueueScrapeRow} {db : Db} {g : Uuid}
  {group : GroupCrawlRow}

theorem pageOrder_inj {r r' : Row} (hr : r ∈ db.queue) (hr' : r' ∈ db.queue)
    (h : pageOrder r = pageOrder r') : r = r' := by
  have h' : (r.createdAt, r.id) = (r'.createdAt, r'.id) := congrArg ofLex h
  exact Row.ext_key hr hr' (congrArg Prod.snd h') (congrArg Prod.fst h')

theorem groupRows_strict (db : Db) (g : Uuid) : (db.groupRows g).Pairwise fun a b => pageOrder a < pageOrder b :=
  KTable.orderBy_strict _ fun _ ha _ hb h => pageOrder_inj ha hb h

/-- The rows that `get_group_results` selects are the page behind the cursor. -/
theorem getGroupResults_page (limit : Int64) (hl : 0 ≤ limit.toInt) (c : Option (Timestamp ×ₗ Uuid))
    (env : Env) :
    ((Query.getGroupResults g limit (pageParams limit c).afterId
        (pageParams limit c).afterCreatedAt).exec env db) =
      (.ok ((Keyset.page pageOrder limit.toInt.toNat (db.groupRows g) c).map mapQueueRow), db) := by
  simp only [Query.exec, Db.getGroupResults, if_neg (not_lt.mpr hl)]
  cases c with
  | none => rfl
  | some c =>
    simp only [pageParams, Option.map_some, Keyset.page, Keyset.after, Db.groupRows]
    rw [KTable.filter_orderBy _ fun _ ha _ hb h => pageOrder_inj ha hb h]
    simp only [Bool.decide_and]
    rfl

/-- What both status handlers answer about a group. -/
def groupResponse (db : Db) (group : GroupCrawlRow) (path : String) (limit : Int64)
    (c : Option (Timestamp ×ₗ Uuid)) : CrawlStatusResponse :=
  let page := Keyset.page pageOrder limit.toInt.toNat (db.groupRows group.id) c
  let counts := db.groupCounts group.id
  { status :=
      match group.status with
      | .completed => .completed
      | .cancelled => .cancelled
      | .active => if counts.pending = 0 ∧ counts.total > 0 then .completed else .scraping
    total := counts.total
    completed := counts.completed
    failed := counts.failed
    creditsUsed := counts.completed
    expiresAt := group.expiresAt
    next :=
      if (page.filterMap Row.result?).length = limit.toInt.toNat then
        page.getLast?.map fun r => ⟨path, r.id, r.createdAt, limit⟩
      else none
    data := page.filterMap Row.result? }

section Handlers

variable {α β : Type}

theorem read_pure_bind (a : α) (f : α → Call β) :
    ((pure a : Call α) >>= f).read ρ job db = (f a).read ρ job db := rfl

theorem read_db_bind {q : Query} {a : q.Out} (f : q.Out → Call β)
    (h : readOp ρ job (.db q) db = (.ok a, db)) :
    (Call.db q >>= f).read ρ job db = (f a).read ρ job db := by
  change (Prog.eval _ (ExceptT.bindCont f (readOp ρ job (.db q) db).1)
    (readOp ρ job (.db q) db).2).1 = _
  rw [h]
  rfl

theorem read_db_bind_error {q : Query} {e : AppError} (f : q.Out → Call β)
    (h : readOp ρ job (.db q) db = (.error e, db)) :
    (Call.db q >>= f).read ρ job db = .error e := by
  change (Prog.eval _ (ExceptT.bindCont f (readOp ρ job (.db q) db).1)
    (readOp ρ job (.db q) db).2).1 = _
  rw [h]
  rfl

theorem readOp_getCrawlGroup (hg : db.groups.lookup g = some group) :
    readOp ρ job (.db (.getCrawlGroup g)) db = (.ok group, db) := by
  simp only [readOp, Query.exec, Db.getCrawlGroup, hg]

theorem readOp_getJob {id : Uuid} {a : Except AppError QueueScrapeRow} (hj : job id = a) :
    readOp ρ job (.db (.getJob id)) db = (a, db) := by
  simp only [readOp, hj]

theorem pageLimit_pageParams {limit : Int64} (hl : limit.toInt ≤ 100)
    (c : Option (Timestamp ×ₗ Uuid)) : (pageParams limit c).pageLimit = limit := by
  have h : limit ≤ 100 := Int64.le_iff_toInt_le.mpr hl
  simp [PaginationParams.pageLimit, pageParams, h]

theorem toUInt64_toNat {limit : Int64} (hl : 0 ≤ limit.toInt) :
    limit.toUInt64.toNat = limit.toInt.toNat :=
  Int64.toNat_toUInt64_of_le (Int64.le_iff_toInt_le.mpr hl)

theorem filterMap_result (page : List Row) :
    (page.map mapQueueRow).filterMap QueueScrapeRow.result? = page.filterMap Row.result? := by
  rw [List.filterMap_map]
  rfl

theorem getLast_link (page : List Row) (path : String) (limit : Int64) :
    ((page.map mapQueueRow).getLast?.map fun r => (⟨path, r.id, r.createdAt, limit⟩ : NextLink)) =
      page.getLast?.map fun r => ⟨path, r.id, r.createdAt, limit⟩ := by
  rw [List.getLast?_map, Option.map_map]
  rfl

variable (hg : db.groups.lookup g = some group) {limit : Int64} (hl : 1 ≤ limit.toInt)
  (hl' : limit.toInt ≤ 100) (c : Option (Timestamp ×ₗ Uuid))

include hg hl

/-- What both status handlers read: the group, its counts and a page of its rows. -/
theorem read_page (f : GroupCrawlRow → GroupCounts → List QueueScrapeRow → CrawlStatusResponse) :
    (Call.read ρ job db do
      let group ← Call.db (.getCrawlGroup g)
      let counts ← Call.db (.getGroupCounts g)
      let rows ← Call.db (.getGroupResults g limit (pageParams limit c).afterId
        (pageParams limit c).afterCreatedAt)
      return f group counts rows) =
      .ok (f group (db.groupCounts g)
        ((Keyset.page pageOrder limit.toInt.toNat (db.groupRows g) c).map mapQueueRow)) := by
  have hcounts : readOp ρ job (.db (.getGroupCounts g)) db = (.ok (db.groupCounts g), db) := rfl
  have hrows : readOp ρ job (.db (.getGroupResults g limit (pageParams limit c).afterId
      (pageParams limit c).afterCreatedAt)) db = _ :=
    getGroupResults_page limit (by omega) c ρ.env
  rw [read_db_bind _ (readOp_getCrawlGroup hg), read_db_bind _ hcounts, read_db_bind _ hrows]
  rfl

include hl'

theorem crawlStatus_read :
    (crawlStatusHandler (.ok ()) g (pageParams limit c)).read ρ job db =
      .ok (groupResponse db group ("/v2/crawl/" ++ g.toString) limit c) := by
  obtain rfl := KTable.key_of_lookup hg
  unfold crawlStatusHandler
  rw [pageLimit_pageParams hl']
  refine (read_pure_bind () _).trans ((read_page hg hl c fun _ _ _ => _).trans ?_)
  simp only [filterMap_result, getLast_link, toUInt64_toNat (show 0 ≤ limit.toInt by omega)]
  rfl

/-- The batch handler answers about the group of the row that `get_job` returns. -/
theorem batchStatus_read {id : Uuid} {row : QueueScrapeRow} (hj : job id = .ok row)
    (hr : row.groupId = some g) :
    (batchStatusHandler (.ok ()) id (pageParams limit c)).read ρ job db =
      .ok (groupResponse db group ("/v2/batch/scrape/" ++ id.toString) limit c) := by
  obtain rfl := KTable.key_of_lookup hg
  unfold batchStatusHandler
  rw [pageLimit_pageParams hl']
  refine (read_pure_bind () _).trans ((read_db_bind _ (readOp_getJob hj)).trans ?_)
  simp only [hr]
  refine (read_page hg hl c fun _ _ _ => _).trans ?_
  simp only [filterMap_result, getLast_link, toUInt64_toNat (show 0 ≤ limit.toInt by omega)]
  rfl

omit hg hl hl' in
theorem batchStatus_read_error {id : Uuid} {e : AppError} (hj : job id = .error e)
    (params : PaginationParams) :
    (batchStatusHandler (.ok ()) id params).read ρ job db = .error e :=
  (read_pure_bind () _).trans (read_db_bind_error _ (readOp_getJob hj))

end Handlers

/-! ## Following the links -/

/-- The data collected from a query on, following `next` until it is absent. -/
inductive Follow (status : PaginationParams → Except AppError CrawlStatusResponse) :
    PaginationParams → List ScrapeResult → Prop
  | last {p res} : status p = .ok res → res.next = none → Follow status p res.data
  | next {p res link ds} : status p = .ok res → res.next = some link →
      Follow status link.params ds → Follow status p (res.data ++ ds)

/-- Reading the status of a group with limit `limit` ends, and yields every row of the group that
decodes, once and in order. -/
def Lossless (status : PaginationParams → Except AppError CrawlStatusResponse) (db : Db) (g : Uuid)
    (limit : Int64) : Prop :=
  Follow status (pageParams limit none) ((db.groupRows g).filterMap Row.result?)

section Links

variable {status : PaginationParams → Except AppError CrawlStatusResponse} {path : String}
  {limit : Int64}

theorem groupResponse_next {c : Option (Timestamp ×ₗ Uuid)} :
    (groupResponse db group path limit c).next =
      if ((Keyset.page pageOrder limit.toInt.toNat (db.groupRows group.id) c).filterMap
          Row.result?).length = limit.toInt.toNat then
        (Keyset.page pageOrder limit.toInt.toNat (db.groupRows group.id) c).getLast?.map
          fun r => ⟨path, r.id, r.createdAt, limit⟩
      else none := rfl

/-- Following the links of a status handler is keyset pagination of the rows of its group. -/
theorem follow_iff_reads (hl : 1 ≤ limit.toInt)
    (hs : ∀ c, status (pageParams limit c) = .ok (groupResponse db group path limit c))
    (c : Option (Timestamp ×ₗ Uuid)) (ds : List ScrapeResult) :
    Follow status (pageParams limit c) ds ↔
      Keyset.Reads pageOrder Row.result? limit.toInt.toNat (db.groupRows group.id) c ds := by
  constructor
  · intro h
    generalize hp : pageParams limit c = p at h
    induction h generalizing c with
    | last hres hnext =>
      subst hp
      rw [hs, Except.ok.injEq] at hres
      subst hres
      refine .last fun hlen => ?_
      rw [groupResponse_next, if_pos hlen, Option.map_eq_none_iff, List.getLast?_eq_none_iff] at hnext
      rw [hnext, List.filterMap_nil, List.length_nil] at hlen
      omega
    | next hres hnext _ ih =>
      subst hp
      rw [hs, Except.ok.injEq] at hres
      subst hres
      rw [groupResponse_next] at hnext
      split_ifs at hnext with hlen
      obtain ⟨r, hr, rfl⟩ := Option.map_eq_some_iff.mp hnext
      exact .next hlen hr (ih (some (pageOrder r)) rfl)
  · intro h
    induction h with
    | last hlen =>
      refine Follow.last (hs _) ?_
      rw [groupResponse_next, if_neg hlen]
    | @next c r ds hlen hr _ ih =>
      refine @Follow.next _ _ _ ⟨path, r.id, r.createdAt, limit⟩ _ (hs _) ?_ ih
      rw [groupResponse_next, if_pos hlen, hr]
      rfl

end Links

/-! ## Groups as they are left -/

/-- A group as `run_crawl` or `run_batch_scrape` leaves it: the row of the job, which returns a
summary, and the completed rows of its pages. -/
structure LeftGroup (db : Db) (g : Uuid) (group : GroupCrawlRow) (parent : Row) : Prop where
  group_eq : db.groups.lookup g = some group
  mem : parent ∈ db.queue
  groupId : parent.groupId = some g
  returnvalue : ∃ n, parent.returnvalue = some (summary n g)
  pages : ∀ r ∈ db.queue, r.groupId = some g → r ≠ parent →
    r.status = .completed ∧ ∃ res : ScrapeResult, r.returnvalue = some (toValue res)

/-- The number of rows of a group. -/
def Db.groupSize (db : Db) (g : Uuid) : ℕ := db.queue.count fun r => r.groupId = some g

/-- The number of rows of a group that are listed before `parent`. -/
def Db.groupRank (db : Db) (g : Uuid) (parent : Row) : ℕ :=
  db.queue.count fun r => r.groupId = some g && pageOrder r < pageOrder parent

/-- In pages of `limit` rows, no page comes after the one that `parent` is on. -/
def ParentOnLastPage (db : Db) (g : Uuid) (parent : Row) (limit : Int64) : Prop :=
  db.groupSize g ≤ (db.groupRank g parent / limit.toInt.toNat + 1) * limit.toInt.toNat

instance (db : Db) (g : Uuid) (parent : Row) (limit : Int64) :
    Decidable (ParentOnLastPage db g parent limit) :=
  inferInstanceAs (Decidable (_ ≤ _))

/-- With the parent row listed first, all rows must fit on one page. -/
theorem parentOnLastPage_of_first {parent : Row} {limit : Int64}
    (h : db.groupRank g parent = 0) :
    ParentOnLastPage db g parent limit ↔ db.groupSize g ≤ limit.toInt.toNat := by
  simp [ParentOnLastPage, h]

section Left

variable {parent : Row} {limit : Int64} (h : LeftGroup db g group parent)

include h

theorem parent_result : parent.result? = none := by
  obtain ⟨n, hn⟩ := h.returnvalue
  simp only [Row.result?, QueueScrapeRow.result?, mapQueueRow, hn, Option.bind_some,
    fromValue_summary]

theorem page_result {r : Row} (hr : r ∈ db.queue) (hg : r.groupId = some g) (hne : r ≠ parent) :
    r.result?.isSome := by
  obtain ⟨-, res, hres⟩ := h.pages r hr hg hne
  simp only [Row.result?, QueueScrapeRow.result?, mapQueueRow, hres, Option.bind_some, fromValue_toValue,
    Option.isSome_some]

/-- The rows of the group, split at the parent. -/
theorem groupRows_split : ∃ ys zs, db.groupRows g = ys ++ parent :: zs ∧
    ys.length = db.groupRank g parent ∧ (∀ r ∈ ys, r.result?.isSome) ∧
    ∀ r ∈ zs, r.result?.isSome := by
  have hmem (r : Row) : r ∈ db.groupRows g ↔ r ∈ db.queue ∧ r.groupId = some g := by
    simp [Db.groupRows, KTable.mem_orderBy]
  obtain ⟨ys, zs, hsplit⟩ := List.append_of_mem ((hmem parent).mpr ⟨h.mem, h.groupId⟩)
  have hstrict := groupRows_strict db g
  rw [hsplit] at hstrict
  obtain ⟨-, hzs, hys⟩ := List.pairwise_append.mp hstrict
  have hlt (r : Row) (hr : r ∈ ys) : pageOrder r < pageOrder parent :=
    hys r hr parent List.mem_cons_self
  have hgt (r : Row) (hr : r ∈ zs) : pageOrder parent < pageOrder r :=
    List.rel_of_pairwise_cons hzs hr
  refine ⟨ys, zs, hsplit, ?_, fun r hr => ?_, fun r hr => ?_⟩
  · have hcount : db.groupRank g parent =
        (db.groupRows g).countP fun r => pageOrder r < pageOrder parent :=
      (KTable.countP_orderBy _ _ _ _).symm
    have hys' : ys.countP (fun r => pageOrder r < pageOrder parent) = ys.length :=
      List.countP_eq_length.mpr fun r hr => by simpa using hlt r hr
    have hzs' : zs.countP (fun r => pageOrder r < pageOrder parent) = 0 :=
      List.countP_eq_zero.mpr fun r hr => by simpa using (hgt r hr).le
    rw [hcount, hsplit, List.countP_append, List.countP_cons, hys', hzs']
    simp
  · obtain ⟨hq, hg⟩ := (hmem r).mp (by rw [hsplit]; simp [hr])
    exact page_result h hq hg fun heq => (heq ▸ hlt r hr).ne rfl
  · obtain ⟨hq, hg⟩ := (hmem r).mp (by rw [hsplit]; simp [hr])
    exact page_result h hq hg fun heq => (heq ▸ hgt r hr).ne rfl

theorem lossless_iff {status : PaginationParams → Except AppError CrawlStatusResponse}
    {path : String} (hl : 1 ≤ limit.toInt)
    (hs : ∀ c, status (pageParams limit c) = .ok (groupResponse db group path limit c)) :
    Lossless status db g limit ↔ ParentOnLastPage db g parent limit := by
  obtain ⟨ys, zs, hsplit, hlen, hys, hzs⟩ := groupRows_split h
  have hstrict := groupRows_strict db g
  have hgroup : group.id = g := KTable.key_of_lookup h.group_eq
  have hsize : db.groupSize g = (db.groupRows g).length := (KTable.length_orderBy _ _ _).symm
  unfold Lossless ParentOnLastPage
  rw [follow_iff_reads hl hs, hgroup, hsize, ← hlen, hsplit]
  rw [hsplit] at hstrict
  exact Keyset.reads_iff (by omega) hstrict (parent_result h) hys hzs

/-- **The crawl endpoint delivers every page exactly if the parent row is on the last one.** -/
theorem crawl_lossless_iff (hl : 1 ≤ limit.toInt) (hl' : limit.toInt ≤ 100) :
    Lossless (fun p => (crawlStatusHandler (.ok ()) g p).read ρ job db) db g limit ↔
      ParentOnLastPage db g parent limit :=
  lossless_iff h hl fun c => crawlStatus_read h.group_eq hl hl' c

/-- The same for the batch endpoint, when `get_job` returns a row of the group. -/
theorem batch_lossless_iff (hl : 1 ≤ limit.toInt) (hl' : limit.toInt ≤ 100) {id : Uuid}
    {row : QueueScrapeRow} (hj : job id = .ok row) (hr : row.groupId = some g) :
    Lossless (fun p => (batchStatusHandler (.ok ()) id p).read ρ job db) db g limit ↔
      ParentOnLastPage db g parent limit :=
  lossless_iff h hl fun c => batchStatus_read h.group_eq hl hl' c hj hr

end Left

theorem batch_not_lossless {limit : Int64} {id : Uuid} {e : AppError} (hj : job id = .error e) :
    ¬ Lossless (fun p => (batchStatusHandler (.ok ()) id p).read ρ job db) db g limit := by
  intro h
  unfold Lossless at h
  generalize (db.groupRows g).filterMap Row.result? = ds at h
  cases h with
  | last hres => rw [batchStatus_read_error hj] at hres; cases hres
  | next hres => rw [batchStatus_read_error hj] at hres; cases hres

/-- **Cursor pagination loses nothing exactly if the parent row is on the last page**; the batch
endpoint needs `get_job` to return the row. -/
theorem pagination_lossless_iff {parent : Row} {limit : Int64} (h : LeftGroup db g group parent)
    (hl : 1 ≤ limit.toInt) (hl' : limit.toInt ≤ 100) (ρ : Reply)
    (job : Uuid → Except AppError QueueScrapeRow) (id : Uuid) :
    (Lossless (fun p => (crawlStatusHandler (.ok ()) g p).read ρ job db) db g limit ↔
      ParentOnLastPage db g parent limit) ∧
    (∀ row, job id = .ok row → row.groupId = some g →
      (Lossless (fun p => (batchStatusHandler (.ok ()) id p).read ρ job db) db g limit ↔
        ParentOnLastPage db g parent limit)) ∧
    ∀ e, job id = .error e →
      ¬ Lossless (fun p => (batchStatusHandler (.ok ()) id p).read ρ job db) db g limit :=
  ⟨crawl_lossless_iff h hl hl', fun _ hj hr => batch_lossless_iff h hl hl' hj hr,
    fun _ hj => batch_not_lossless hj⟩

/-! ## A group with one page -/

section OnePage

def samplePage : ScrapeResult where
  url := "https://example.com"
  title := none
  markdown := none
  html := none
  rawHtml := none
  screenshot := none
  links := none
  extract := none
  json := none
  warning := none
  metadata := ⟨200, none, "https://example.com", none, none⟩

def sampleParent : Row := completedRow ⟨0, 1⟩ .null (summary 1 5) 0 none (some 5) none

def onePage : Db where
  queue :=
    ⟨[sampleParent, completedRow ⟨1, 2⟩ (subData samplePage.url) (toValue samplePage) 0 none (some 5)
      none], by decide⟩
  groups := ⟨[⟨5, .completed, 0, 0, 86400000, none⟩], by decide⟩

theorem onePage_left : LeftGroup onePage 5 ⟨5, .completed, 0, 0, 86400000, none⟩ sampleParent where
  group_eq := rfl
  mem := List.mem_cons_self
  groupId := rfl
  returnvalue := ⟨1, rfl⟩
  pages r hr _ hne := by
    rcases List.mem_cons.mp hr with rfl | hr
    · exact absurd rfl hne
    · obtain rfl := List.mem_singleton.mp hr
      exact ⟨rfl, samplePage, rfl⟩

/-- Read two rows at a time, the group is delivered in full. -/
theorem pagination_lossless_onePage :
    Lossless (fun p => (crawlStatusHandler (.ok ()) 5 p).read (.ok 2 0)
      (fun _ => .error .timeout) onePage) onePage 5 2 :=
  (pagination_lossless_iff onePage_left (by decide) (by decide) (.ok 2 0) (fun _ => .error .timeout)
    0).1.mpr (by decide)

/-- Read one row at a time, the first page is the parent row: it is empty, and has no `next`. -/
theorem not_pagination_lossless : ¬ ∀ (db : Db) (g : Uuid) (group : GroupCrawlRow) (parent : Row)
    (limit : Int64) (ρ : Reply) (job : Uuid → Except AppError QueueScrapeRow),
    LeftGroup db g group parent → 1 ≤ limit.toInt → limit.toInt ≤ 100 →
    Lossless (fun p => (crawlStatusHandler (.ok ()) g p).read ρ job db) db g limit := by
  intro h
  have h₁ := h onePage 5 _ _ 1 (.ok 2 0) (fun _ => .error .timeout) onePage_left (by decide) (by decide)
  have h₂ := (crawl_lossless_iff onePage_left (by decide) (by decide)).mp h₁
  exact absurd h₂ (by decide)

end OnePage

end FireCtrl
