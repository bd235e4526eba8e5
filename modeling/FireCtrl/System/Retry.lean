import FireCtrl.Pages
import FireCtrl.System.Stored

/-!
# Retries and duplicate results

A crawl that is requeued runs again from the start, into the same group.

* `DistinctCrawl`: a crawl returns each URL at most once; `StoresFresh`: a job stores a page only if no
  other execution has stored that URL in the group.
* `scrapedUrls_nodup_step`: an execution stores no URL twice.
* **`results_unique`**: in the runs whose steps meet both conditions no URL has two results in the group
  of a crawl; `not_results_unique`: without the second condition it may.
-/

namespace FireCtrl

open Query (RowStep)

/-- The crawl returns each URL at most once. -/
def DistinctCrawl (ev : Event) : Prop :=
  ∀ a params results, ev = .external a ⟨.crawl params, .ok results⟩ →
    (results.map ScrapeResult.url).Nodup

/-- A job that stores a page finds that URL in the group only where it has stored it itself. -/
def StoresFresh (s : Sys) (ev : Event) : Prop :=
  ∀ w x k e log rest data rv priority ownerId g ch, ev = .statement (.worker w) x →
    x.query = .enqueueCompleted data rv priority ownerId (some g) ch →
    s.workers w = .executing k e log rest → ∀ r ∈ s.db.queue, r.groupId = some g →
      r.data = some data → r.key ∈ (storedPages log).map Prod.fst

/-- A completed result for URL `u` in group `g`. -/
def Row.IsResult (g : Uuid) (u : String) (r : Row) : Prop :=
  r.status = .completed ∧ r.groupId = some g ∧ r.data = some (subData u)

/-- The group of a crawl. -/
def CrawlGroup (db : Db) (g : Uuid) : Prop :=
  ∃ r ∈ db.queue, r.groupId = some g ∧ ∃ job, r.data = some (toValue (JobEnvelope.crawl job))

/-- No URL has two results in the group. -/
def UrlsOnce (db : Db) (g : Uuid) : Prop :=
  ∀ u, ∀ r₁ ∈ db.queue, ∀ r₂ ∈ db.queue, r₁.IsResult g u → r₂.IsResult g u → r₁ = r₂

/-- In every reachable state no URL has two results in the group of a crawl. -/
def ResultsUnique (T : Lts Sys Event) : Prop :=
  ∀ es t, T.Run es t → ∀ g, CrawlGroup t.db g → UrlsOnce t.db g

section Steps

variable {cfg : Config} {urls : UrlCrate} {s t : Sys} {ev : Event} {es : List Event} {owner : Owner}
  {db : Db} {env : Env} {q : Query} {r : Row} {g : Uuid} {k : Key} {a : Actor}

/-! ## One execution -/

/-- **An execution of a crawl scrapes no URL twice.** -/
theorem scrapedUrls_nodup_step (ho : Owned owner s)
    (hs : LogInv (fun db _ e log => StoredInv db e log) s)
    (h : LogInv (fun _ _ e log => e.isCrawl = true → (scrapedUrls log).Nodup) s)
    (hd : DistinctCrawl ev) (hstep : (sysLts cfg urls).step s ev t) :
    LogInv (fun _ _ e log => e.isCrawl = true → (scrapedUrls log).Nodup) t := by
  refine logInv_step ho h hstep (fun _ _ _ _ => List.nodup_nil) (fun _ _ _ _ _ _ h => h) ?_
  intro w ρ k e log o p hw hev hallow ih he
  have hgrouped : e.grouped = true := by cases e <;> first | rfl | cases he
  have htracked := (hs w k e log _ hw).tracked hgrouped
  generalize jobPhase log = ph at hallow htracked
  rw [scrapedUrls_append_singleton]
  cases hallow with
  | @crawl g params =>
    have hnil : scrapedUrls log = [] := htracked.1
    rw [hnil, List.nil_append]
    rcases hr : ρ.ext (.crawl params) with err | results
    · simp [answeredUrls, Op.run, hr]
    · have hev' : ev = .external (.worker w) ⟨.crawl params, .ok results⟩ := by
        rw [hev, ← hr]
        rfl
      simpa [answeredUrls, Op.run, hr] using hd _ _ _ hev'
  | join hn => rw [he] at hn; cases hn
  | await hn | finish hn => rw [hgrouped] at hn; cases hn
  | lookup | create | attach | store | close | finishGroup | notify | notifyClosed =>
    simpa [answeredUrls] using ih he

/-! ## Results of the group -/

/-- A crawl stays in its group. -/
theorem touch_groupId (hr : db.queue.lookup k = some r) (hq : Respects owner env db q)
    {job : CrawlJobData} (hd : r.data = some (toValue (JobEnvelope.crawl job))) :
    (q.touch env db r).groupId = r.groupId := by
  rcases Query.touch_step q env hr with ⟨-, heq⟩ | ⟨-, hs⟩
  · rw [heq]
  · obtain rfl := KTable.key_of_lookup hr
    generalize Query.touch env db q r = r' at hs
    cases hs with
    | attach g =>
      obtain ⟨job', hd'⟩ := hq.2 r hr
      rw [hd] at hd'
      simp [toValue, JobEnvelope.tagged] at hd'
    | claim | complete | fail | cancel | cancelGroup | requeue | failOver => rfl

/-- The group of a crawl was that before, or has no results yet. -/
theorem crawlGroup_step (ho : Owned owner s) (hi : Issued s a q)
    (hcg : CrawlGroup (q.exec env s.db).2 g) :
    CrawlGroup s.db g ∨ ∀ r ∈ (q.exec env s.db).2.queue, ∀ u, ¬ r.IsResult g u := by
  obtain ⟨owner', hext, hdb, hq⟩ := issued_respects ho hi env
  obtain ⟨r', hr', hg, job, hd⟩ := hcg
  rcases Query.mem_exec hr' with ⟨-, hnew⟩ | ⟨r, hr, hl⟩
  · right
    cases hi with
    | @job w k e log q p hw hallow =>
      generalize jobPhase log = ph at hallow
      cases hallow with
      | store =>
        cases hnew
        simp [completedRow, queuedRow, subData, toValue, JobEnvelope.tagged] at hd
      | lookup | create | attach | close | finishGroup | finish => cases hnew
    | @request n req log q p hn hallow =>
      -- the group was created for this crawl, and nobody owned it
      have hcreated (hc : handlerPhase log = .created g) : owner g = none :=
        (ho.created n g (by rw [hn]; exact hc)).2
      generalize handlerPhase log = ph at hallow hcreated
      cases hallow with
      | enqueueCrawl hj =>
        cases hnew
        obtain rfl := Option.some.inj hg
        rintro r₁ hr₁ u ⟨-, hg₁, hd₁⟩
        rcases page_source hdb hq hr₁ hd₁ with hmem | ⟨_, _, _, _, _, hq', -⟩
        · rcases ho.db.rows r₁ hmem with hj₁ | hp₁
          · exact hj₁.not_page u hd₁
          · obtain ⟨g', hg', hsome⟩ := hp₁.group
            rw [hg₁, Option.some.injEq] at hg'
            rw [← hg', hcreated rfl] at hsome
            cases hsome
        · cases hq'
      | enqueueBatch | enqueueExtract => cases hnew; cases hg
      | create | lookup | lookupJob | cancelJob | cancelGroupJobs | cancelGroupRow => cases hnew
    | claim | fail | requeue | failOver => cases hnew
  · left
    have hdata : r'.data = r.data := hl ▸ (Query.touch_fixed q env hr).2.2.1
    refine ⟨r, KTable.mem_of_lookup hr, ?_, job, hdata ▸ hd⟩
    rw [← touch_groupId hr hq (hdata ▸ hd), hl, hg]

/-- The job that owns the group of a crawl is that crawl. -/
theorem CrawlGroup.isCrawl {e : JobEnvelope} (hcg : CrawlGroup db g) (hdb : DbOwned owner db)
    (hown : owner g = some k) (hj : IsJobOf owner db k e) : e.isCrawl = true := by
  obtain ⟨r, hr, hg, job, hd⟩ := hcg
  obtain ⟨r', hr', -, he⟩ := hj
  have hjr := (hdb.rows r hr).job_of_isParent (.inl ⟨job, hd⟩)
  have hk : r.key = k := Option.some.inj ((hjr.owner_eq hg).symm.trans hown)
  rw [← hk, KTable.lookup_key hr, Option.some.injEq] at hr'
  rw [← hr', hd] at he
  obtain ⟨job', rfl, -⟩ := fromValue_crawl he
  rfl

/-- A page that the job has stored is one of those it says it has. -/
theorem StoredInv.mem_of_key {e : JobEnvelope} {log : Log} {stored : List String} {u : String}
    (h : StoredInv db e log) (hstored : (storedPages log).map Prod.snd = stored.map subData)
    (hr : r ∈ db.queue) (hd : r.data = some (subData u))
    (hkey : r.key ∈ (storedPages log).map Prod.fst) : u ∈ stored := by
  obtain ⟨p, hp, hpk⟩ := List.mem_map.mp hkey
  obtain ⟨r', hr', hd'⟩ := h.rows p hp
  rw [hpk, KTable.lookup_key hr, Option.some.injEq] at hr'
  rw [← hr', hd, Option.some.injEq] at hd'
  have hu : subData u ∈ stored.map subData := by
    rw [← hstored, hd']
    exact List.mem_map_of_mem hp
  obtain ⟨v, hv, huv⟩ := List.mem_map.mp hu
  exact subData_inj huv ▸ hv

/-- A crawl that stores a page finds no result for it. -/
theorem not_isResult_of_stores {x : Executed} {u : String} {rv : Json} {priority : Int32}
    {ownerId : Option Uuid} {ch : Option String} (ho : Owned owner s)
    (hs : LogInv (fun db _ e log => StoredInv db e log) s)
    (hn : LogInv (fun _ _ e log => e.isCrawl = true → (scrapedUrls log).Nodup) s)
    (hfresh : StoresFresh s (.statement a x)) (hi : Issued s a x.query)
    (hq : x.query = .enqueueCompleted (subData u) rv priority ownerId (some g) ch)
    (hcg : CrawlGroup s.db g) (hr : r ∈ s.db.queue) : ¬ r.IsResult g u := by
  rintro ⟨-, hg, hd⟩
  rw [hq] at hi
  generalize hq' : Query.enqueueCompleted (subData u) rv priority ownerId (some g) ch = q at hi
  cases hi with
  | @job w k e log q p hw hallow =>
    subst hq'
    have hkey := hfresh w x k e log _ _ _ _ _ _ _ rfl hq hw r hr hg hd
    have he := ho.executing hw
    have hinv := hs w k e log _ hw
    have htracked := hinv.tracked
    have hnodup := hn w k e log _ hw
    have hown := he.group
    generalize jobPhase log = ph at hallow htracked hown
    cases hallow with
    | @store _ _ todo stored =>
      have hcrawl : e.isCrawl = true := hcg.isCrawl ho.db (hown g rfl) he.job
      have hgrouped : e.grouped = true := by cases e <;> first | rfl | cases hcrawl
      obtain ⟨hscraped, hstored⟩ := htracked hgrouped
      have hmem : u ∈ stored := hinv.mem_of_key hstored hr hd hkey
      have hdis := hnodup hcrawl
      rw [hscraped] at hdis
      exact (List.nodup_append.mp hdis).2.2 u hmem u List.mem_cons_self rfl
  | @request n req log q p hn hallow =>
    subst hq'
    generalize handlerPhase log = ph at hallow
    cases hallow
  | claim | fail | requeue | failOver => cases hq'

theorem urlsOnce_step (ho : Owned owner s)
    (hs : LogInv (fun db _ e log => StoredInv db e log) s)
    (hn : LogInv (fun _ _ e log => e.isCrawl = true → (scrapedUrls log).Nodup) s)
    (hfresh : StoresFresh s ev) (hstep : (sysLts cfg urls).step s ev t)
    (ih : CrawlGroup s.db g → UrlsOnce s.db g) (hcg : CrawlGroup t.db g) : UrlsOnce t.db g := by
  rcases issued_of_step ho hstep with ⟨a, x, env, rfl, hi, ht⟩ | ⟨-, ht⟩
  · rw [ht] at hcg ⊢
    rcases crawlGroup_step ho hi hcg with hcg | hno
    · intro u r₁ hr₁ r₂ hr₂ h₁ h₂
      obtain ⟨owner', -, hdb, hq⟩ := issued_respects ho hi env
      have hold {r rv priority ownerId groupId ch}
          (hx : x.query = .enqueueCompleted (subData u) rv priority ownerId groupId ch)
          (hg : some g = groupId) (hr : r ∈ s.db.queue) : ¬ r.IsResult g u :=
        not_isResult_of_stores ho hs hn hfresh hi (hg ▸ hx) hcg hr
      rcases page_source hdb hq hr₁ h₁.2.2 with hr₁' | ⟨_, _, _, _, _, hx₁, hg₁, hk₁⟩
      · rcases page_source hdb hq hr₂ h₂.2.2 with hr₂' | ⟨_, _, _, _, _, hx₂, hg₂, hk₂⟩
        · exact ih hcg u r₁ hr₁' r₂ hr₂' h₁ h₂
        · exact absurd h₁ (hold hx₂ (h₂.2.1 ▸ hg₂) hr₁')
      · rcases page_source hdb hq hr₂ h₂.2.2 with hr₂' | ⟨_, _, _, _, _, hx₂, hg₂, hk₂⟩
        · exact absurd h₂ (hold hx₁ (h₁.2.1 ▸ hg₁) hr₂')
        · exact KTable.eq_of_key_eq hr₁ hr₂ (hk₁.trans hk₂.symm)
    · exact fun u r₁ hr₁ _ _ h₁ _ => absurd h₁ (hno r₁ hr₁ u)
  · rw [ht] at hcg ⊢
    exact ih hcg

end Steps

/-- **Retries do not duplicate results** in the runs that store pages only where no other execution
has stored them. -/
theorem results_unique (cfg : Config) (urls : UrlCrate) :
    ResultsUnique ((sysLts cfg urls).restrict fun s ev _ => DistinctCrawl ev ∧ StoresFresh s ev) := by
  intro es t h
  let I (_ : List Event) (t : Sys) : Prop :=
    LogInv (fun db _ e log => StoredInv db e log) t ∧
      LogInv (fun _ _ e log => e.isCrawl = true → (scrapedUrls log).Nodup) t ∧
      ∀ g, CrawlGroup t.db g → UrlsOnce t.db g
  refine (Lts.Run.invariant (I := I) ?_ ?_ h).2.2
  · rintro s rfl
    refine ⟨fun w k e log rest hw => ?_, fun w k e log rest hw => ?_, fun g hg => ?_⟩
    · cases hw
    · cases hw
    · obtain ⟨r, hr, -⟩ := hg
      cases hr
  · rintro es s ev t hrun ⟨hs, hn, ih⟩ ⟨hstep, hd, hfresh⟩
    obtain ⟨owner, ho⟩ := owned_run hrun.of_restrict
    exact ⟨storedInv_step ho hs hstep, scrapedUrls_nodup_step ho hs hn hd hstep,
      fun g hg => urlsOnce_step ho hs hn hfresh hstep (ih g) hg⟩

/-- A worker crashes after it has stored the only page of a crawl; the crawl is requeued, and a
second worker runs it again. -/
def retriedCrawl : List Choice :=
  [.request 0 .sampleCrawl, .handle 0 (.ok 0 1), .handle 0 (.ok 0 2), .work 9 (.ok 1 0),
    .work 9 (.ok 2 0), .work 9 (.ok 3 0 [samplePage]), .work 9 (.ok 4 5), .crash 9,
    .stall (.ok 400000000 0), .work 8 (.ok 400000001 0), .work 8 (.ok 400000002 0),
    .work 8 (.ok 400000003 0 [samplePage]), .work 8 (.ok 400000004 6)]

/-- The executable form of `DistinctCrawl`. -/
def Event.distinctUrls : Event → Bool
  | .external _ ⟨.crawl _, .ok results⟩ => decide (results.map ScrapeResult.url).Nodup
  | _ => true

/-- Both workers store the page. -/
theorem not_results_unique :
    ¬ ∀ cfg urls, ResultsUnique ((sysLts cfg urls).restrict fun _ ev _ => DistinctCrawl ev) := by
  intro h
  let columns (s : Sys) (k : Key) := (s.db.queue.lookup k).map fun r => (r.status, r.groupId, r.data)
  let page : JobStatus × Option Uuid × Option Json := (.completed, some 1, some (subData samplePage.url))
  obtain ⟨es, s, es', t, hs, ht, -, hobs⟩ := sampleRun_split retriedCrawl []
    (f := fun _ => ()) (a := ())
    (g := fun p => (p.1.all Event.distinctUrls, columns p.2 (5, 4), columns p.2 (6, 400000004),
      (columns p.2 (2, 0)).map Prod.snd))
    (b := (true, some page, some page,
      some (some 1, some (toValue (JobEnvelope.crawl sampleCrawlJob))))) rfl rfl
  simp only [Prod.mk.injEq, columns, Option.map_map, Option.map_eq_some_iff] at hobs
  obtain ⟨hdis, ⟨r₁, hr₁, h₁⟩, ⟨r₂, hr₂, h₂⟩, r, hr, hrow⟩ := hobs
  have hrun : ((sysLts .sample .sample).restrict fun _ ev _ => DistinctCrawl ev).Run (es ++ es') t := by
    refine (hs.trans ht).restrict fun ev hev _ _ => ?_
    rintro a params results rfl
    simpa [Event.distinctUrls] using List.all_eq_true.mp hdis _ hev
  have hcg : CrawlGroup t.db 1 :=
    ⟨r, KTable.mem_of_lookup hr, congrArg Prod.fst hrow, _, congrArg Prod.snd hrow⟩
  have hres {r : Row} (h : (r.status, r.groupId, r.data) = page) : r.IsResult 1 samplePage.url :=
    ⟨congrArg Prod.fst h, congrArg (fun c => c.2.1) h, congrArg (fun c => c.2.2) h⟩
  have heq := h _ _ _ t hrun 1 hcg samplePage.url r₁ (KTable.mem_of_lookup hr₁) r₂
    (KTable.mem_of_lookup hr₂) (hres h₁) (hres h₂)
  have hkey : ((5, 4) : Key) = (6, 400000004) :=
    (KTable.key_of_lookup hr₁).symm.trans ((congrArg Row.key heq).trans (KTable.key_of_lookup hr₂))
  exact absurd hkey (by decide)

end FireCtrl
