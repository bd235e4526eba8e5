import FireCtrl.Codec
import FireCtrl.Extraction
import FireCtrl.System.Ownership

/-!
# What is persisted is read back

* `Log.enqueued`: what an execution enqueues; for a decoded request it is the envelope of its job, which is
  read back as it is.
* `claimed_decodes`: a worker never claims a row that it cannot read.
* **`formats_roundTrip`**: both, the results of pages, and the summaries that are none.
-/

namespace FireCtrl

/-- The jobs that an execution enqueues. -/
def Log.enqueued (log : Log) : List Json :=
  log.filterMap fun x =>
    match x.1 with
    | .db (.enqueue data ..) => some data
    | _ => none

/-! ## Requests -/

section Handlers

variable {cfg : Config} {urls : UrlCrate} {gate : Except AppError Unit} {ρ : Answers} {v d : Json}

theorem crawlHandler_enqueued {req : CrawlRequest} (hreq : CrawlRequest.ofValue v = some req)
    (hd : d ∈ ((crawlHandler cfg gate req).execution ρ []).2.enqueued) :
    ∃ group, d = toValue (JobEnvelope.crawl (req.jobData cfg group)) ∧
      fromValue d = some (JobEnvelope.crawl (req.jobData cfg group)) := by
  obtain ⟨hoptions, hwebhook⟩ := CrawlRequest.settled hreq
  unfold crawlHandler at hd
  rw [execution_bind, execution_ofExcept] at hd
  rcases gate with e | u
  · cases hd
  · simp only at hd
    rw [execution_bind, execution_db] at hd
    revert hd
    rcases ρ [] (.db (.createCrawlGroup .nil 86400000)) with e | group
    · intro hd
      cases hd
    · intro hd
      simp only at hd
      rw [execution_map, execution_db] at hd
      cases List.mem_singleton.mp hd
      exact ⟨group.id, rfl, roundTrips_iff.mpr (reread_crawl hoptions hwebhook)⟩

theorem batchScrapeHandler_enqueued {req : BatchScrapeRequest}
    (hreq : BatchScrapeRequest.ofValue v = some req)
    (hd : d ∈ ((batchScrapeHandler urls gate req).execution ρ []).2.enqueued) :
    d = toValue (JobEnvelope.batchScrape (req.jobData urls)) ∧
      fromValue d = some (JobEnvelope.batchScrape (req.jobData urls)) := by
  obtain ⟨hoptions, hwebhook⟩ := BatchScrapeRequest.settled hreq
  unfold batchScrapeHandler at hd
  rw [execution_bind, execution_ofExcept] at hd
  rcases gate with e | u
  · cases hd
  · simp only at hd
    rw [execution_map, execution_db] at hd
    cases List.mem_singleton.mp hd
    exact ⟨rfl, roundTrips_iff.mpr (reread_batchScrape hoptions hwebhook)⟩

theorem extractHandler_enqueued {req : ExtractRequest} (hreq : ExtractRequest.ofValue v = some req)
    (hd : d ∈ ((extractHandler gate req).execution ρ []).2.enqueued) :
    d = toValue (JobEnvelope.extract req.jobData) ∧ fromValue d = some (JobEnvelope.extract req.jobData) := by
  have hschema := ExtractRequest.settled hreq
  unfold extractHandler at hd
  rw [execution_bind, execution_ofExcept] at hd
  rcases gate with e | u
  · cases hd
  · simp only at hd
    rw [execution_map, execution_db] at hd
    cases List.mem_singleton.mp hd
    exact ⟨rfl, roundTrips_iff.mpr (reread_extract hschema)⟩

end Handlers

/-! ## Workers -/

section Workers

variable {cfg : Config} {urls : UrlCrate} {owner : Owner} {db : Db} {r : Row} {ρ : Reply} {w : Uuid}
  {k : Key} {reason : String} {es : List Event} {s : Sys}

/-- A row that a worker claims can be read. -/
theorem claimed_decodes (ho : DbOwned owner db) :
    afterClaim cfg urls (Op.run ρ (.db (.claimNextJob w)) db).1 ≠ .failing k reason := by
  intro h
  rcases afterClaim_run cfg urls ρ w ho with hidle | ⟨r, -, e, -, -, -, hexec⟩
  · rw [hidle] at h
    cases h
  · rw [hexec] at h
    cases h

/-- No error reads like the one of a row that cannot be read. -/
theorem toString_ne_invalidJobEnvelope (e : AppError) : e.toString ≠ "invalid job envelope" := by
  have hne {p s : String} (hp : ¬ p.toList <+: "invalid job envelope".toList) :
      p ++ s ≠ "invalid job envelope" := by
    intro h
    refine hp ⟨s.toList, ?_⟩
    rw [← h, String.toList_append]
  cases e with
  | unauthorized | timeout => decide
  | _ => exact hne (by decide)

/-- **No job is failed because its row cannot be read.** -/
theorem not_invalidJobEnvelope (h : (sysLts cfg urls).Run es s) (w : Uuid) (k : Key) :
    s.workers w ≠ .failing k "invalid job envelope" := by
  let I (_ : List Event) (s : Sys) : Prop := ∀ w k, s.workers w ≠ .failing k "invalid job envelope"
  refine (Lts.Run.invariant (I := I) ?_ ?_ h) w k
  · rintro s rfl w k hw
    cases hw
  · intro es s ev t hrun hs hstep w' k'
    obtain ⟨owner, ho⟩ := owned_run hrun
    cases sysStep_of_step hstep with
    | claim w ρ hw =>
      rw [setWorker_workers]
      split_ifs
      · exact claimed_decodes ho.db
      · exact hs w' k'
    | work w ρ hw | finish w hw | fail w ρ hw | crash w =>
      rw [setWorker_workers]
      split_ifs
      · simp
      · exact hs w' k'
    | giveUp w hw =>
      rw [setWorker_workers]
      split_ifs
      · rintro h
        exact toString_ne_invalidJobEnvelope _ (WorkerState.failing.inj h).2
      · exact hs w' k'
    | timeout w ρ hw =>
      rw [setWorker_workers]
      split_ifs
      · rintro h
        exact absurd (WorkerState.failing.inj h).2 (by decide)
      · exact hs w' k'
    | request n req hn | handle n ρ hn | respond n hn | drop n => exact hs w' k'
    | requeue ρ st hst | failOver ρ st hst => exact hs w' k'

end Workers

/-- **What is persisted is read back.** The envelopes that the three handlers enqueue for a decoded request,
which are those of its job data, and every result whose extracted and structured data are not `Some(null)`;
so no job is failed because its row cannot be read, and what a parent job returns is never taken for a
result. -/
theorem formats_roundTrip :
    (∀ cfg gate v req ρ, CrawlRequest.ofValue v = some req →
      ∀ d ∈ ((crawlHandler cfg gate req).execution ρ []).2.enqueued,
        ∃ group, d = toValue (JobEnvelope.crawl (req.jobData cfg group)) ∧
          fromValue d = some (JobEnvelope.crawl (req.jobData cfg group))) ∧
    (∀ urls gate v req ρ, BatchScrapeRequest.ofValue v = some req →
      ∀ d ∈ ((batchScrapeHandler urls gate req).execution ρ []).2.enqueued,
        d = toValue (JobEnvelope.batchScrape (req.jobData urls)) ∧
          fromValue d = some (JobEnvelope.batchScrape (req.jobData urls))) ∧
    (∀ gate v req ρ, ExtractRequest.ofValue v = some req →
      ∀ d ∈ ((extractHandler gate req).execution ρ []).2.enqueued,
        d = toValue (JobEnvelope.extract req.jobData) ∧ fromValue d = some (JobEnvelope.extract req.jobData)) ∧
    (∀ cfg urls es s, (sysLts cfg urls).Run es s →
      ∀ w k, s.workers w ≠ .failing k "invalid job envelope") ∧
    (∀ r : ScrapeResult, r.extract ≠ some .null → r.json ≠ some .null →
      fromValue (toValue r) = some r) ∧
    (∀ total group, (fromValue (summary total group) : Option ScrapeResult) = none) ∧
    ∀ data : Json, (fromValue (.obj [("data", data)]) : Option ScrapeResult) = none :=
  ⟨fun _ _ _ _ _ hreq _ hd => crawlHandler_enqueued hreq hd,
    fun _ _ _ _ _ hreq _ hd => batchScrapeHandler_enqueued hreq hd,
    fun _ _ _ _ hreq _ hd => extractHandler_enqueued hreq hd,
    fun _ _ _ _ h => not_invalidJobEnvelope h,
    fun _ hextract hjson => roundTrips_iff.mpr (ScrapeResult.reread_eq hextract hjson),
    fromValue_summary, fun _ => rfl⟩

/-- A crawl with a webhook that has headers. -/
def sampleCrawlValue : Json :=
  .obj [("url", .str "https://example.com"), ("limit", .int 3),
    ("webhook", .obj [("url", .str "https://example.com/hook"), ("headers", .obj [("a", .str "b")])])]

/-- The group is created and the job enqueued. -/
def Answers.created : Answers
  | _, .db (.createCrawlGroup ..) => .ok ⟨1, .active, 0, 0, 0, none⟩
  | _, .db (.enqueue data _ _ group _) => .ok ⟨1, .queued, some data, 0, none, none, group⟩
  | log, o => Answers.sample log o

theorem formats_roundTrip_crawl : ∃ req d, CrawlRequest.ofValue sampleCrawlValue = some req ∧
    ((crawlHandler .sample (.ok ()) req).execution .created []).2.enqueued = [d] ∧
      ∃ group, d = toValue (JobEnvelope.crawl (req.jobData .sample group)) ∧
        fromValue d = some (JobEnvelope.crawl (req.jobData .sample group)) :=
  ⟨_, _, rfl, rfl, formats_roundTrip.1 .sample (.ok ()) sampleCrawlValue _ .created rfl _
    (List.mem_singleton.mpr rfl)⟩

end FireCtrl
