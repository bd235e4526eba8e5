import FireCtrl.System.Ownership
import FireCtrl.Pages

/-!
# What the status endpoints report about a job

* `counts_of_job`: the rows of a group are the row of its job and completed pages, so the counts of
  the group are those of its pages and that one row.
* `crawlStatus_reports`, `batchStatus_reports`: when the endpoints report `completed`.
* **`failed_not_completed_iff`**: a failed job is not reported as completed exactly if it has no group,
  or a cancelled one, or an active one whose size is 0 as a `u32`; `not_failed_not_completed`.
-/

namespace FireCtrl

/-! ## The rows of a group -/

section Counts

variable {owner : Owner} {db : Db} {r : Row} {g : Uuid}

/-- Besides the row of its job, a group has completed page rows only. -/
theorem pageRow_of_ne (h : DbOwned owner db) (hr : JobRow owner r) (hg : r.groupId = some g)
    {r' : Row} (hr' : r' ∈ db.queue) (hg' : r'.groupId = some g) (hmem : r ∈ db.queue)
    (hne : r' ≠ r) : PageRow owner r' := by
  rcases h.rows r' hr' with hj | hp
  · have hk : r'.key = r.key := by
      have := hj.owner_eq hg'
      rw [hr.owner_eq hg] at this
      exact (Option.some.inj this).symm
    exact absurd (KTable.eq_of_key_eq hr' hmem hk) hne
  · exact hp

theorem groupSize_pos (hmem : r ∈ db.queue) (hg : r.groupId = some g) : 0 < db.groupSize g :=
  List.countP_pos_iff.mpr ⟨r, hmem, by simpa using hg⟩

/-- The rows of a group by status: its pages, and the row of its job. -/
theorem count_status (h : DbOwned owner db) (hmem : r ∈ db.queue) (hr : JobRow owner r)
    (hg : r.groupId = some g) (p : JobStatus → Bool) :
    db.queue.count (fun r => r.groupId = some g ∧ p r.status) =
      (if p .completed then db.groupSize g - 1 else 0) + if p r.status then 1 else 0 := by
  have hpage (r' : Row) (hr' : r' ∈ db.queue) (hne : r' ≠ r) (hg' : r'.groupId = some g) :
      r'.status = .completed :=
    (pageRow_of_ne h hr hg hr' hg' hmem hne).status
  by_cases hp : p .completed = true
  · have hcount := KTable.count_off (p := fun r => r.groupId = some g ∧ p r.status)
      (q := fun r => r.groupId = some g) hmem fun r' hr' hne => by
        by_cases hg' : r'.groupId = some g
        · simp [hg', hpage r' hr' hne hg', hp]
        · simp [hg']
    simp only [hg, decide_true, if_true, true_and, Bool.decide_eq_true] at hcount
    have hsize : db.groupSize g = db.queue.count fun r => r.groupId = some g := rfl
    rw [if_pos hp, hsize]
    have hpos := groupSize_pos hmem hg
    rw [hsize] at hpos
    split_ifs at hcount ⊢ <;> omega
  · have hcount := KTable.count_off (p := fun r => r.groupId = some g ∧ p r.status)
      (q := fun _ => false) hmem fun r' hr' hne => by
        by_cases hg' : r'.groupId = some g
        · simp [hg', hpage r' hr' hne hg', hp]
        · simp [hg']
    have hnone : db.queue.count (fun _ => false) = 0 := by simp [KTable.count]
    rw [if_neg hp]
    simpa [hnone, hg] using hcount

/-- **The counts of a group.** -/
theorem counts_of_job (h : DbOwned owner db) (hmem : r ∈ db.queue) (hr : JobRow owner r)
    (hg : r.groupId = some g) :
    db.groupCounts g =
      { completed := .ofNat (db.groupSize g - 1 + if r.status = .completed then 1 else 0)
        failed := .ofNat (if r.status = .failed then 1 else 0)
        pending := .ofNat (if r.status = .queued ∨ r.status = .active then 1 else 0)
        total := .ofNat (db.groupSize g) } := by
  have hcount := count_status h hmem hr hg
  have hpos := groupSize_pos hmem hg
  refine (GroupCounts.mk.injEq ..).mpr ⟨congrArg _ ?_, congrArg _ ?_, congrArg _ ?_, congrArg _ ?_⟩
  · exact (hcount fun s => s = .completed).trans (by simp)
  · exact (hcount fun s => s = .failed).trans (by simp)
  · exact (hcount fun s => s = .queued ∨ s = .active).trans (by simp)
  · exact (hcount fun _ => true).trans (by simp; omega)

end Counts

/-! ## The reported status -/

/-- The answer says that the crawl or batch is completed. -/
def ReportsCompleted (res : Except AppError CrawlStatusResponse) : Prop :=
  ∃ body, res = .ok body ∧ body.status = .completed

/-- The status derived from a group and its counts is `completed`. -/
def DerivedCompleted (db : Db) (group : GroupCrawlRow) : Prop :=
  group.status = .completed ∨
    group.status = .active ∧ (db.groupCounts group.id).pending = 0 ∧ 0 < (db.groupCounts group.id).total

/-- The row that `get_job` is written to find. -/
def Db.latestJob (db : Db) (id : Uuid) : Except AppError QueueScrapeRow := (Db.getJob id ⟨0, 0⟩ db).1

section Reports

variable {ρ : Reply} {job : Uuid → Except AppError QueueScrapeRow} {db : Db} {g : Uuid}
  {params : PaginationParams}

theorem getGroupResults_ok {limit : Int64} (aid : Option Uuid) (ats : Option Timestamp)
    (hl : 0 ≤ limit.toInt) :
    ∃ rows, readOp ρ job (.db (.getGroupResults g limit aid ats)) db = (.ok rows, db) := by
  simp only [readOp, Query.exec, Db.getGroupResults, if_neg (not_lt.mpr hl)]
  exact ⟨_, rfl⟩

theorem getGroupResults_error {limit : Int64} {aid : Option Uuid} {ats : Option Timestamp}
    (hl : ¬ 0 ≤ limit.toInt) :
    readOp ρ job (.db (.getGroupResults g limit aid ats)) db =
      (.error (dbError "LIMIT must not be negative"), db) := by
  simp only [readOp, Query.exec, Db.getGroupResults, if_pos (not_le.mp hl)]

theorem not_reportsCompleted_error (e : AppError) : ¬ ReportsCompleted (.error e) := by
  rintro ⟨_, h, -⟩
  cases h

/-- The status that both handlers derive. -/
def derivedStatus (group : GroupCrawlRow) (counts : GroupCounts) : JobStatus :=
  match group.status with
  | .completed => .completed
  | .cancelled => .cancelled
  | .active => if counts.pending = 0 ∧ counts.total > 0 then .completed else .scraping

theorem derivedStatus_eq_completed (group : GroupCrawlRow) :
    derivedStatus group (db.groupCounts group.id) = .completed ↔ DerivedCompleted db group := by
  unfold derivedStatus DerivedCompleted
  cases group.status with
  | completed => simp
  | cancelled => simp
  | active =>
    simp only [reduceCtorEq, false_or, true_and]
    split_ifs with hc
    · simpa using hc
    · simpa using hc

/-- What both handlers do once they know the group. -/
theorem read_reports (limit : Int64) (aid : Option Uuid) (ats : Option Timestamp)
    (f : GroupCrawlRow → GroupCounts → List QueueScrapeRow → CrawlStatusResponse)
    (hf : ∀ group counts rows, (f group counts rows).status = derivedStatus group counts) :
    ReportsCompleted (Call.read ρ job db do
      let group ← Call.db (.getCrawlGroup g)
      let counts ← Call.db (.getGroupCounts g)
      let rows ← Call.db (.getGroupResults g limit aid ats)
      return f group counts rows) ↔
      0 ≤ limit.toInt ∧ ∃ group, db.groups.lookup g = some group ∧ DerivedCompleted db group := by
  rcases hg : db.groups.lookup g with _ | group
  · have h₁ : readOp ρ job (.db (.getCrawlGroup g)) db = (.error (.notFound g.toString), db) := by
      simp only [readOp, Query.exec, Db.getCrawlGroup, hg]
    rw [read_db_bind_error _ h₁]
    simp [not_reportsCompleted_error]
  · obtain rfl := KTable.key_of_lookup hg
    have hcounts : readOp ρ job (.db (.getGroupCounts group.id)) db =
        (.ok (db.groupCounts group.id), db) := rfl
    rw [read_db_bind _ (readOp_getCrawlGroup hg), read_db_bind _ hcounts]
    by_cases hl : 0 ≤ limit.toInt
    · obtain ⟨rows, h₃⟩ := getGroupResults_ok aid ats hl
      rw [read_db_bind _ h₃]
      have hok : ReportsCompleted (Call.read ρ job db (pure (f group (db.groupCounts group.id) rows))) ↔
          (f group (db.groupCounts group.id) rows).status = .completed := by
        simp [ReportsCompleted, Call.read]
      rw [hok, hf, derivedStatus_eq_completed]
      simp [hl]
    · rw [read_db_bind_error _ (getGroupResults_error hl)]
      simp [not_reportsCompleted_error, hl]

/-- The crawl endpoint reports `completed` for a group whose derived status says so. -/
theorem crawlStatus_reports :
    ReportsCompleted ((crawlStatusHandler (.ok ()) g params).read ρ job db) ↔
      0 ≤ params.pageLimit.toInt ∧ ∃ group, db.groups.lookup g = some group ∧
        DerivedCompleted db group := by
  refine (iff_of_eq (congrArg ReportsCompleted (read_pure_bind () _))).trans ?_
  exact read_reports _ _ _ (fun _ _ _ => _) fun _ _ _ => rfl

/-- The batch endpoint reports on the row that `get_job` finds. -/
theorem batchStatus_reports {id : Uuid} {row : QueueScrapeRow} (hj : job id = .ok row) :
    ReportsCompleted ((batchStatusHandler (.ok ()) id params).read ρ job db) ↔
      match row.groupId with
      | none => row.status = .completed
      | some g => 0 ≤ params.pageLimit.toInt ∧ ∃ group, db.groups.lookup g = some group ∧
          DerivedCompleted db group := by
  refine (iff_of_eq (congrArg ReportsCompleted
    ((read_pure_bind () _).trans (read_db_bind _ (readOp_getJob hj))))).trans ?_
  cases hg : row.groupId with
  | none => simp [ReportsCompleted, Call.read]
  | some g => exact read_reports _ _ _ (fun _ _ _ => _) fun _ _ _ => rfl

end Reports

/-! ## Failed jobs -/

/-- The job has no group, or its group is cancelled, or still active with a number of rows that is 0
as a `u32`. -/
def GroupNotDone (db : Db) (r : Row) : Prop :=
  ∀ g group, r.groupId = some g → db.groups.lookup g = some group →
    group.status = .cancelled ∨ group.status = .active ∧ 2 ^ 32 ∣ db.groupSize g

section Failed

variable {owner : Owner} {db : Db} {r : Row} {g : Uuid} {group : GroupCrawlRow}

theorem ofNat_pos_iff (n : ℕ) : 0 < UInt32.ofNat n ↔ ¬ 2 ^ 32 ∣ n := by
  rw [UInt32.lt_iff_toNat_lt, UInt32.toNat_ofNat', Nat.dvd_iff_mod_eq_zero]
  exact Nat.pos_iff_ne_zero

/-- With a failed job nothing is pending. -/
theorem not_derivedCompleted_iff (h : DbOwned owner db) (hmem : r ∈ db.queue) (hr : JobRow owner r)
    (hf : r.status = .failed) (hg : r.groupId = some group.id) :
    ¬ DerivedCompleted db group ↔
      group.status = .cancelled ∨ group.status = .active ∧ 2 ^ 32 ∣ db.groupSize group.id := by
  have hpending : (db.groupCounts group.id).pending = 0 := by
    rw [counts_of_job h hmem hr hg]
    simp [hf]
  have htotal : 0 < (db.groupCounts group.id).total ↔ ¬ 2 ^ 32 ∣ db.groupSize group.id := by
    rw [counts_of_job h hmem hr hg]
    exact ofNat_pos_iff _
  unfold DerivedCompleted
  rw [htotal, hpending]
  cases group.status with
  | completed => simp
  | cancelled => simp
  | active => simp

theorem exists_derivedCompleted_iff (h : DbOwned owner db) (hmem : r ∈ db.queue) (hr : JobRow owner r)
    (hf : r.status = .failed) (hg : r.groupId = some g) :
    (¬ ∃ group, db.groups.lookup g = some group ∧ DerivedCompleted db group) ↔ GroupNotDone db r := by
  have hsome : (owner g).isSome := by rw [hr.owner_eq hg]; rfl
  obtain ⟨group, hl⟩ := Option.isSome_iff_exists.mp (h.groups g hsome)
  obtain rfl := KTable.key_of_lookup hl
  simp only [GroupNotDone, hg, hl, Option.some.injEq, exists_eq_left']
  rw [not_derivedCompleted_iff h hmem hr hf hg]
  constructor
  · rintro hn g group' rfl hl'
    rw [hl, Option.some.injEq] at hl'
    exact hl' ▸ hn
  · exact fun hn => hn group.id group rfl hl

end Failed

/-- **A failed crawl or batch is not reported as completed exactly if** its group is not done in the
sense of `GroupNotDone` (or the requested page limit is negative, which is an error). -/
theorem failed_not_completed_iff {cfg : Config} {urls : UrlCrate} {es : List Event} {t : Sys} {r : Row}
    (h : (sysLts cfg urls).Run es t) (hmem : r ∈ t.db.queue) (hp : r.IsParent)
    (hf : r.status = .failed) (ρ : Reply) (params : PaginationParams) :
    (∀ g, r.groupId = some g →
      (¬ ReportsCompleted ((crawlStatusHandler (.ok ()) g params).read ρ t.db.latestJob t.db) ↔
        params.pageLimit.toInt < 0 ∨ GroupNotDone t.db r)) ∧
    (t.db.latestById r.id = some r →
      (¬ ReportsCompleted ((batchStatusHandler (.ok ()) r.id params).read ρ t.db.latestJob t.db) ↔
        params.pageLimit.toInt < 0 ∨ GroupNotDone t.db r)) := by
  obtain ⟨owner, hown⟩ := owned_run h
  have hj := (hown.db.rows r hmem).job_of_isParent hp
  refine ⟨fun g hg => ?_, fun hlatest => ?_⟩
  · rw [crawlStatus_reports, not_and_or, not_le, exists_derivedCompleted_iff hown.db hmem hj hf hg]
  · have hjob : t.db.latestJob r.id = .ok (mapQueueRow r) := by
      simp only [Db.latestJob, Db.getJob, hlatest]
    rw [batchStatus_reports hjob]
    cases hg : r.groupId with
    | none => simp [mapQueueRow, hg, hf, GroupNotDone]
    | some g =>
      simp only [mapQueueRow, hg]
      rw [not_and_or, not_le, exists_derivedCompleted_iff hown.db hmem hj hf hg]

section Schedule

/-- The database does not answer the first statement of a crawl, and the worker fails the job. -/
def failedCrawl : List Choice :=
  [.request 0 .sampleCrawl, .handle 0 (.ok 0 1), .handle 0 (.ok 0 2), .work 9 (.ok 1 0),
    .work 9 { Reply.ok 2 0 with fault := some (false, .timeout) }, .work 9 (.ok 3 0),
    .work 9 (.ok 3 0)]

theorem failedCrawl_run : ∃ es t r, (sysLts .sample .sample).Run es t ∧
    t.db.queue.lookup (2, 0) = some r ∧ r.status = .failed ∧ r.groupId = some 1 ∧
      r.data = some (toValue (JobEnvelope.crawl sampleCrawlJob)) ∧
      ReportsCompleted ((crawlStatusHandler (.ok ()) 1 ⟨none, none, none⟩).read (.ok 4 0)
        t.db.latestJob t.db) := by
  let columns (s : Sys) :=
    ((s.db.queue.lookup (2, 0)).map fun r => (r.status, r.groupId, r.data),
      ((crawlStatusHandler (.ok ()) 1 ⟨none, none, none⟩).read (.ok 4 0)
        s.db.latestJob s.db).toOption.map CrawlStatusResponse.status)
  obtain ⟨es, t, -, -, h, -, hobs, -⟩ := sampleRun_split failedCrawl []
    (f := columns) (g := fun _ => ())
    (a := (some (.failed, some 1, some (toValue (JobEnvelope.crawl sampleCrawlJob))), some .completed))
    (b := ()) rfl rfl
  simp only [columns, Prod.mk.injEq, Option.map_eq_some_iff] at hobs
  obtain ⟨⟨r, hr, hst, hg, hd⟩, body, hbody, hcompleted⟩ := hobs
  refine ⟨es, t, r, h, hr, hst, hg, hd, body, ?_, hcompleted⟩
  revert hbody
  generalize (crawlStatusHandler (.ok ()) 1 ⟨none, none, none⟩).read _ _ _ = res
  intro hbody
  cases res with
  | ok body' => exact congrArg Except.ok (Option.some.inj hbody)
  | error e => cases hbody

theorem failed_not_completed_iff_crawl : ∃ es t r, (sysLts .sample .sample).Run es t ∧
    r.status = .failed ∧
    (¬ ReportsCompleted ((crawlStatusHandler (.ok ()) 1 ⟨none, none, none⟩).read (.ok 4 0)
        t.db.latestJob t.db) ↔
      (⟨none, none, none⟩ : PaginationParams).pageLimit.toInt < 0 ∨ GroupNotDone t.db r) := by
  obtain ⟨es, t, r, h, hr, hst, hg, hd, -⟩ := failedCrawl_run
  exact ⟨es, t, r, h, hst, (failed_not_completed_iff h (KTable.mem_of_lookup hr) (.inl ⟨_, hd⟩) hst (.ok 4 0)
    ⟨none, none, none⟩).1 1 hg⟩

/-- The job of `failedCrawl` has failed, nothing is pending, and the crawl is reported as completed. -/
theorem not_failed_not_completed : ¬ ∀ (cfg : Config) (urls : UrlCrate) (es : List Event) (t : Sys)
    (r : Row) (ρ : Reply) (params : PaginationParams), (sysLts cfg urls).Run es t → r ∈ t.db.queue →
    r.IsParent → r.status = .failed →
    (∀ g, r.groupId = some g →
      ¬ ReportsCompleted ((crawlStatusHandler (.ok ()) g params).read ρ t.db.latestJob t.db)) ∧
    (t.db.latestById r.id = some r →
      ¬ ReportsCompleted ((batchStatusHandler (.ok ()) r.id params).read ρ t.db.latestJob t.db)) := by
  intro hall
  obtain ⟨es, t, r, h, hr, hst, hg, hd, hreports⟩ := failedCrawl_run
  exact (hall _ _ es t r (.ok 4 0) ⟨none, none, none⟩ h (KTable.mem_of_lookup hr) (.inl ⟨_, hd⟩) hst).1
    1 hg hreports

end Schedule

end FireCtrl
