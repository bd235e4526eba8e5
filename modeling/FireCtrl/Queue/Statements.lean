import FireCtrl.Queue.Texts

/-!
# What the texts do

* **`Query.run_text`**: the text of an update leaves behind the table that the model says.
* `jobsOf_claimNextJob`, `jobsOf_getGroupResults`, `jobsOf_getGroupResultsAfter`: the text of a
  claim answers with the job claimed, those of the listing with its pages.
* `AddressesNewest`: what `get_job` is to do. `addressesNewest_spaced`: its text with a blank before
  each line end does it, and **`getJob_never`**: the text as it stands never does.
-/

namespace FireCtrl

open Sql Texts

/-! ## What the updates do -/

section Updates

variable {env : Env} {db : Db} {ps : Cells Value} {cond : Expr}

/-- The columns of `nuq.queue_scrape`. -/
def columns : List String :=
  ["id", "status", "data", "created_at", "priority", "lock", "locked_at", "stalls", "finished_at",
    "listen_channel_id", "returnvalue", "failedreason", "owner_id", "group_id"]

theorem record_eq_none (r : Row) {c : String} (hc : c ∉ columns) : r.record c = none := by
  unfold Row.record
  split
  all_goals first | rfl | exact absurd (by decide) hc

/-- An assignment is known by what it does to the columns of the table. -/
theorem assign_eq_record {r r' : Row} {cols : List String} {vs : Cells Value}
    (hcols : cols ⊆ columns) (h : columns.map (r.record.assign cols vs) = columns.map r'.record) :
    r.record.assign cols vs = r'.record := by
  funext c
  by_cases hc : c ∈ columns
  · exact List.map_inj_left.mp h c hc
  · have hcol : c ∉ cols := fun hm => hc (hcols hm)
    rw [Record.assign_of_notMem _ _ hcol, record_eq_none r hc, record_eq_none r' hc]

/-- The texts of the updates of the queue, except that of the re-queueing, which computes with
intervals. -/
def Query.text? : Query → Option String
  | claimNextJob _ => some claimNextJobText
  | completeJob .. => some sqlCompleteJobText
  | failJob .. => some sqlFailJobText
  | cancelJob _ => some sqlCancelJobLatestByIdText
  | cancelGroupJobs _ => some sqlCancelGroupJobsText
  | updateJobGroup .. => some sqlUpdateJobGroupText
  | failOverStalledJobs _ => some sqlFailOverStalledJobsText
  | _ => none

/-- Their parameters. -/
def Query.params : Query → Cells Value
  | claimNextJob lockId => [some (.uuid lockId)]
  | completeJob id createdAt rv =>
    [some (.uuid id), some (.timestamptz createdAt), some (.jsonb rv)]
  | failJob id createdAt reason =>
    [some (.uuid id), some (.timestamptz createdAt), some (.text reason)]
  | cancelJob id | cancelGroupJobs id => [some (.uuid id)]
  | updateJobGroup id createdAt g =>
    [some (.uuid id), some (.timestamptz createdAt), some (.uuid g)]
  | failOverStalledJobs maxStalls => [some (.int maxStalls.toInt)]
  | _ => []

/-- The update `v` computes what `u` is. -/
structure Computes (env : Env) (db : Db) (ps : Cells Value) (v : Update) (u : QueueUpdate) :
    Prop where
  table : v.table = queueScrape
  selects : ∀ r : Row, v.cond.selects (server env db) ps r.record = some (u.selects r)
  set : ∃ vs : Row → Cells Value, ∀ r : Row,
    v.exprs.cells (server env db) ps r.record = some (vs r) ∧
      r.record.assign v.cols (vs r) = (u.set r).record

theorem computes_of {v : Update} {u : QueueUpdate} (vs : Row → Cells Value)
    (ht : v.table = queueScrape) (hcols : v.cols ⊆ columns)
    (hc : ∀ r : Row, v.cond.selects (server env db) ps r.record = some (u.selects r))
    (hv : ∀ r : Row, v.exprs.cells (server env db) ps r.record = some (vs r))
    (hset : ∀ r : Row,
      columns.map (r.record.assign v.cols (vs r)) = columns.map (u.set r).record) :
    Computes env db ps v u where
  table := ht
  selects := hc
  set := ⟨vs, fun r => ⟨hv r, assign_eq_record hcols (hset r)⟩⟩

theorem Computes.run {v : Update} {u : QueueUpdate} (h : Computes env db ps v u) :
    v.run (server env db) ps = some ((u.run db).queue.rows.map Row.record) := by
  obtain ⟨vs, hvs⟩ := h.set
  have htable : (server env db).tables v.table = some (db.queue.rows.map Row.record) := by
    rw [h.table]; rfl
  rw [Update.run_eq _ _ htable (fun r _ => h.selects r) (fun r _ => (hvs r).1)
    fun r _ _ => (hvs r).2]
  congr 1
  change _ = (db.queue.rows.map u.apply).map Row.record
  rw [List.map_map]
  refine List.map_congr_left fun r _ => ?_
  rw [Function.comp_apply, QueueUpdate.apply, apply_ite Row.record]

theorem Computes.returned {v : Update} {u : QueueUpdate} (h : Computes env db ps v u)
    (hi : v.items = qsItems) :
    v.returned (server env db) ps = some ((u.returning db).map Row.cells) := by
  obtain ⟨vs, hvs⟩ := h.set
  have htable : (server env db).tables v.table = some (db.queue.rows.map Row.record) := by
    rw [h.table]; rfl
  rw [Update.returned_eq _ _ htable (fun r _ => h.selects r) (fun r _ => (hvs r).1)
    (fun r _ _ => (hvs r).2) (p := fun r => (u.set r).cells) (fun r _ => by rw [hi]; rfl),
    QueueUpdate.returning, List.map_map]
  rfl

theorem computes_claimNextJob (lockId : Uuid) :
    Computes env db [some (.uuid lockId)]
      { updateJobs setActive isNextQueued with names := qsNames, items := qsItems }
      (sqlClaimNextJob env lockId db) := by
  refine computes_of
    (fun _ => [some (.text "active"), some (.uuid lockId), some (.timestamptz env.now)])
    rfl (by decide) (fun r => ?_) (fun _ => rfl) fun _ => rfl
  refine Expr.selects_eq _ _ (truth_isNextQueued r) ?_
  simp [sqlClaimNextJob]

theorem computes_completeJob (id : Uuid) (createdAt : Timestamp) (rv : Json) :
    Computes env db [some (.uuid id), some (.timestamptz createdAt), some (.jsonb rv)]
      (updateJobs setCompleted isRow) (sqlCompleteJob env id createdAt rv) := by
  refine computes_of
    (fun _ => [some (.text "completed"), some (.jsonb rv), some (.timestamptz env.now), none, none])
    rfl (by decide) (fun r => ?_) (fun _ => rfl) fun _ => rfl
  refine Expr.selects_eq _ _ (truth_isRow rfl rfl _) ?_
  simp [sqlCompleteJob]

theorem computes_failJob (id : Uuid) (createdAt : Timestamp) (reason : String) :
    Computes env db [some (.uuid id), some (.timestamptz createdAt), some (.text reason)]
      (updateJobs setFailed isRow) (sqlFailJob env id createdAt reason) := by
  refine computes_of
    (fun _ => [some (.text "failed"), some (.text reason), some (.timestamptz env.now), none, none])
    rfl (by decide) (fun r => ?_) (fun _ => rfl) fun _ => rfl
  refine Expr.selects_eq _ _ (truth_isRow rfl rfl _) ?_
  simp [sqlFailJob]

theorem computes_cancelJob (id : Uuid) :
    Computes env db [some (.uuid id)] (updateJobs setCancelled (.and isNewest isPending))
      (sqlCancelJobLatestById env id db) := by
  refine computes_of
    (fun _ => [some (.text "cancelled"), some (.timestamptz env.now), none, none])
    rfl (by decide) (fun r => ?_) (fun _ => rfl) fun _ => rfl
  refine Expr.selects_eq _ _ (Expr.truth_and _ _ (truth_isNewest r) (truth_isPending rfl)) ?_
  simp [sqlCancelJobLatestById]

theorem computes_cancelGroupJobs (id : Uuid) :
    Computes env db [some (.uuid id)] (updateJobs setCancelled (.and inGroup isPending))
      (sqlCancelGroupJobs env id) := by
  refine computes_of
    (fun _ => [some (.text "cancelled"), some (.timestamptz env.now), none, none])
    rfl (by decide) (fun r => ?_) (fun _ => rfl) fun _ => rfl
  refine Expr.selects_eq _ _ (Expr.truth_and _ _ (truth_inGroup rfl _) (truth_isPending rfl)) ?_
  simp [sqlCancelGroupJobs]

theorem computes_updateJobGroup (id : Uuid) (createdAt : Timestamp) (g : Uuid) :
    Computes env db [some (.uuid id), some (.timestamptz createdAt), some (.uuid g)]
      (updateJobs [("group_id", .param 3)] isRow) (sqlUpdateJobGroup id createdAt g) := by
  refine computes_of (fun _ => [some (.uuid g)]) rfl (by decide) (fun r => ?_) (fun _ => rfl)
    fun _ => rfl
  refine Expr.selects_eq _ _ (truth_isRow rfl rfl _) ?_
  simp [sqlUpdateJobGroup]

theorem computes_failOverStalledJobs (n : Int32) :
    Computes env db [some (.int n.toInt)] (updateJobs setExhausted isExhausted)
      (sqlFailOverStalledJobs env n) := by
  refine computes_of
    (fun _ => [some (.text "failed"), some (.text "exceeded maximum stall count"),
      some (.timestamptz env.now)])
    rfl (by decide) (fun r => ?_) (fun _ => rfl) fun _ => rfl
  refine Expr.selects_eq _ _ (Expr.truth_and _ _ (truth_isQueued rfl) (truth_isStalled rfl _)) ?_
  cases h : r.stalls <;> simp [sqlFailOverStalledJobs, h]

/-- **The text of an update leaves behind the table that the model says.** -/
theorem Query.run_text {q : Query} {sql : String} (hs : q.text? = some sql) :
    ∃ v, parse sql = .ok (.update v) ∧ v.run (server env db) q.params =
      some ((q.exec env db).2.queue.rows.map Row.record) := by
  cases q with
  | claimNextJob lockId =>
    rw [← Option.some.inj hs]
    exact ⟨_, spelled.claimNextJob, (computes_claimNextJob lockId).run⟩
  | completeJob id createdAt rv =>
    rw [← Option.some.inj hs]
    exact ⟨_, spelled.sqlCompleteJob, (computes_completeJob id createdAt rv).run⟩
  | failJob id createdAt reason =>
    rw [← Option.some.inj hs]
    exact ⟨_, spelled.sqlFailJob, (computes_failJob id createdAt reason).run⟩
  | cancelJob id =>
    rw [← Option.some.inj hs]
    exact ⟨_, spelled.sqlCancelJobLatestById, (computes_cancelJob id).run⟩
  | cancelGroupJobs id =>
    rw [← Option.some.inj hs]
    exact ⟨_, spelled.sqlCancelGroupJobs, (computes_cancelGroupJobs id).run⟩
  | updateJobGroup id createdAt g =>
    rw [← Option.some.inj hs]
    exact ⟨_, spelled.sqlUpdateJobGroup, (computes_updateJobGroup id createdAt g).run⟩
  | failOverStalledJobs n =>
    rw [← Option.some.inj hs]
    exact ⟨_, spelled.sqlFailOverStalledJobs, (computes_failOverStalledJobs n).run⟩
  | requeueStalledJobs | enqueue | enqueueCompleted | getJob | getGroupResults | getGroupCounts
  | createCrawlGroup | getCrawlGroup | setGroupStatus | cancelGroupRow | getActiveGroups => cases hs

end Updates

/-! ## What the client reads -/

section Reads

variable {env : Env} {db : Db} {ps : Cells Value} {cond : Expr} {sql : String}
  {rs : List Row} {id : Uuid}

/-- A row of the answer to a query for jobs. -/
def Row.output (r : Row) : Record Value := fun c => (qsNames.zip r.cells).lookup c

theorem mapQueueRecord_output (r : Row) : mapQueueRecord r.output = some (mapQueueRow r) := by
  have hid : rowGet Value.uuid? r.output "id" = some r.id := rowGet_of rfl rfl
  have hstatus : rowGet Value.text? r.output "status" = some r.status.label := rowGet_of rfl rfl
  have hdata : rowGetOption Value.jsonb? r.output "data" = some r.data :=
    rowGetOption_map (f := .jsonb) rfl fun _ => rfl
  have hcreated : rowGet Value.timestamptz? r.output "created_at" = some r.createdAt :=
    rowGet_of rfl rfl
  have hrv : rowGetOption Value.jsonb? r.output "returnvalue" = some r.returnvalue :=
    rowGetOption_map (f := .jsonb) rfl fun _ => rfl
  have hreason : rowGetOption Value.text? r.output "failedreason" = some r.failedreason :=
    rowGetOption_map (f := .text) rfl fun _ => rfl
  have hgroup : rowGetOption Value.uuid? r.output "group_id" = some r.groupId :=
    rowGetOption_map (f := .uuid) rfl fun _ => rfl
  simp only [mapQueueRecord, hid, hstatus, hdata, hcreated, hrv, hreason, hgroup,
    Option.bind_eq_bind, Option.bind_some, Option.pure_def, mapJobStatus_label]
  rfl

theorem rowsOf_eq {s : Statement} (hp : parse sql = .ok s) (hn : s.names = qsNames)
    (hr : s.rows (server env db) ps = some (rs.map Row.cells)) :
    db.rowsOf env sql ps = .ok (rs.map Row.output) := by
  simp only [Db.rowsOf, hp, hr, hn, List.map_map]
  rfl

theorem jobsOf_eq {s : Statement} (hp : parse sql = .ok s) (hn : s.names = qsNames)
    (hr : s.rows (server env db) ps = some (rs.map Row.cells)) :
    db.jobsOf env sql ps = some (.ok (rs.map mapQueueRow)) := by
  have hmap : (rs.map Row.output).mapM mapQueueRecord = some (rs.map mapQueueRow) := by
    rw [List.mapM_map]
    exact mapM_eq_map fun r _ => mapQueueRecord_output r
  simp only [Db.jobsOf, rowsOf_eq hp hn hr, hmap, Option.map_some]

/-- **The text of `claim_next_job` answers with the job that it claims.** -/
theorem jobsOf_claimNextJob (lockId : Uuid) :
    db.jobsOf env claimNextJobText [some (.uuid lockId)] =
      some (.ok (((sqlClaimNextJob env lockId db).returning db).map mapQueueRow)) :=
  jobsOf_eq spelled.claimNextJob rfl ((computes_claimNextJob lockId).returned rfl)

/-- The page of the jobs that `cond` selects. -/
theorem jobsOf_page {n : ℕ} {limit : Int64} {p : Row → Bool}
    (hp : parse sql = .ok (.select (selectJobs cond [false, false] pageKeys (.param (n + 1)))))
    (hl : ps[n]? = some (some (.int limit.toInt))) (h : 0 ≤ limit.toInt)
    (hc : ∀ r : Row, cond.selects (server env db) ps r.record = some (p r)) :
    db.jobsOf env sql ps = some (.ok
      (((db.queue.orderBy pageOrder p).take limit.toInt.toNat).map mapQueueRow)) := by
  have hlimit : ((Expr.param (n + 1)).cells (server env db) ps fun _ => none).bind
      (server env db).limitOf = some (some limit.toInt.toNat) := by
    simp [hl, Server.limitOf, server, h]
  have hrows : (selectJobs cond [false, false] pageKeys (.param (n + 1))).rows (server env db) ps
      (fun _ => none) = some ((takeLimit (db.queue.orderBy pageOrder p)
        (some limit.toInt.toNat)).map Row.cells) :=
    rows_selectJobs (fun r _ => by rw [Record.within_none]; exact hc r) (fun _ _ => rfl)
      keysLe_pageOrder hlimit
  exact jobsOf_eq hp rfl hrows

/-- **The text of `get_group_results` from a cursor on answers with the page after it.** -/
theorem jobsOf_getGroupResultsAfter (g aid : Uuid) (ats : Timestamp) (limit : Int64)
    (h : 0 ≤ limit.toInt) :
    db.jobsOf env getGroupResultsAfterText
        [some (.uuid g), some (.uuid aid), some (.timestamptz ats), some (.int limit.toInt)] =
      some (Db.getGroupResults g limit (some aid) (some ats) env db).1 := by
  rw [Db.getGroupResults, if_neg (not_lt.mpr h)]
  refine jobsOf_page spelled.getGroupResultsAfter rfl h fun r => ?_
  refine Expr.selects_eq _ _
    (Expr.truth_and _ _ (truth_inGroup rfl _) (truth_isAfter rfl rfl _ _)) ?_
  rw [decide_eq_true_iff]
  simp [pageOrder]

/-- **Its text from the start answers with the first page.** -/
theorem jobsOf_getGroupResults (g : Uuid) (limit : Int64) (aid : Option Uuid)
    (ats : Option Timestamp) (h : 0 ≤ limit.toInt) (hc : aid = none ∨ ats = none) :
    db.jobsOf env getGroupResultsText [some (.uuid g), some (.int limit.toInt)] =
      some (Db.getGroupResults g limit aid ats env db).1 := by
  have hstart : (Db.getGroupResults g limit aid ats env db).1 = .ok
      (((db.queue.orderBy pageOrder fun r => r.groupId = some g).take limit.toInt.toNat).map
        mapQueueRow) := by
    unfold Db.getGroupResults
    rw [if_neg (not_lt.mpr h)]
    rcases hc with rfl | rfl
    · rfl
    · cases aid <;> rfl
  rw [hstart]
  refine jobsOf_page spelled.getGroupResults rfl h fun r => ?_
  refine Expr.selects_eq _ _ (truth_inGroup rfl _) ?_
  simp

/-- `get_job` reads the first row of the answer. -/
theorem getJobBy_eq {s : Statement} (hp : parse sql = .ok s) (hn : s.names = qsNames)
    (hr : s.rows (server env db) [some (.uuid id)] = some (rs.map Row.cells)) :
    getJobBy sql env db id = some (match rs.head? with
      | some r => .ok (mapQueueRow r)
      | none => .error (.notFound id.toString)) := by
  simp only [getJobBy, rowsOf_eq hp hn hr, List.head?_map]
  cases rs.head? with
  | none => rfl
  | some r => simp only [Option.map_some, mapQueueRecord_output]

/-- With a blank before each line end, the text of `get_job` does what it is written for. -/
theorem getJobBy_spaced :
    getJobBy getJobSpacedText env db id = some (Db.getJob id env db).1 := by
  have hrows : (selectJobs isNewest [] .nil .null).rows (server env db) [some (.uuid id)]
      (fun _ => none) = some ((db.queue.rows.filter fun r =>
        (db.latestById id).map Row.key = some r.key).map Row.cells) := by
    refine Select.rows_unordered (n := none) _ _ rfl (fun r _ => ?_) rfl fun r _ => cells_qsItems r
    rw [Record.within_none]
    exact Expr.selects_eq _ _ (truth_isNewest r) (by simp)
  have hhead : (db.queue.rows.filter fun r =>
      (db.latestById id).map Row.key = some r.key).head? = db.latestById id := by
    rw [List.head?_filter]
    cases h : db.latestById id with
    | none => simp
    | some r =>
      have hkey := KTable.lookup_key (Db.latestById_iff.mp h).1
      simpa [KTable.lookup, eq_comm] using hkey
  rw [getJobBy_eq spelled.getJobSpaced rfl hrows, hhead]
  rfl

end Reads

/-! ## `get_job` -/

section GetJob

variable {env : Env} {db : Db} {id : Uuid}

/-- What `get_job` is to answer: the newest row of the id, or that the id has no row. -/
def IsNewest (db : Db) (id : Uuid) : Except AppError QueueScrapeRow → Prop
  | .ok row => ∃ r ∈ db.queue, row = mapQueueRow r ∧ r.id = id ∧
      ∀ r' ∈ db.queue, r'.id = id → r'.createdAt ≤ r.createdAt
  | .error e => e = .notFound id.toString ∧ ∀ r ∈ db.queue, r.id ≠ id

/-- The text of `cancel_job` selects a row. -/
def CancelSelects (env : Env) (db : Db) (id : Uuid) (r : Row) : Prop :=
  ∃ v, parse sqlCancelJobLatestByIdText = .ok (.update v) ∧
    v.cond.selects (server env db) [some (.uuid id)] r.record = some true

/-- With the text `sql`, `get_job` addresses the newest row of the id, and `cancel_job` acts on that
row while it is pending. -/
structure AddressesNewest (sql : String) (env : Env) (db : Db) (id : Uuid) : Prop where
  wellFormed : ∃ s, parse sql = .ok s
  newest : ∃ a, getJobBy sql env db id = some a ∧ IsNewest db id a
  cancelled : ∀ r ∈ db.queue, CancelSelects env db id r ↔
    r.Pending ∧ getJobBy sql env db id = some (.ok (mapQueueRow r))

theorem cancelSelects_iff {r : Row} :
    CancelSelects env db id r ↔ r.Pending ∧ (db.latestById id).map Row.key = some r.key := by
  have hcond : (Expr.and isNewest isPending).selects (server env db) [some (.uuid id)] r.record =
      some ((sqlCancelJobLatestById env id db).selects r) := (computes_cancelJob id).selects r
  have hsel : (sqlCancelJobLatestById env id db).selects r = true ↔
      r.Pending ∧ (db.latestById id).map Row.key = some r.key := by
    rw [and_comm]
    exact decide_eq_true_iff
  rw [← hsel]
  constructor
  · rintro ⟨v, hv, hs⟩
    rw [spelled.sqlCancelJobLatestById] at hv
    cases hv
    exact Option.some.inj (hcond.symm.trans hs)
  · intro h
    exact ⟨_, spelled.sqlCancelJobLatestById, hcond.trans (congrArg some h)⟩

/-- **With its blanks, `get_job` addresses the newest row.** -/
theorem addressesNewest_spaced : AddressesNewest getJobSpacedText env db id where
  wellFormed := ⟨_, spelled.getJobSpaced⟩
  newest := by
    refine ⟨_, getJobBy_spaced, ?_⟩
    unfold Db.getJob
    cases h : db.latestById id with
    | none => exact ⟨rfl, Db.latestById_eq_none.mp h⟩
    | some r =>
      obtain ⟨hr, hid, hmax⟩ := Db.latestById_iff.mp h
      exact ⟨r, hr, rfl, hid, hmax⟩
  cancelled r hr := by
    rw [cancelSelects_iff, getJobBy_spaced]
    refine and_congr_right fun _ => ?_
    unfold Db.getJob
    cases h : db.latestById id with
    | none => simp
    | some r' =>
      have hr' := (Db.latestById_iff.mp h).1
      simp only [Option.map_some, Option.some.injEq, Except.ok.injEq]
      constructor
      · intro hkey
        rw [KTable.eq_of_key_eq hr' hr hkey]
      · intro hrow
        exact Prod.ext (congrArg QueueScrapeRow.id hrow) (congrArg QueueScrapeRow.createdAt hrow)

/-- A text that is no statement is answered with an error of the server. -/
theorem getJobBy_of_malformed {sql : String} {e : Sql.Error} (h : parse sql = .error e) :
    getJobBy sql env db id = some (.error (dbError "syntax error")) := by
  simp only [getJobBy, Db.rowsOf, h]

theorem not_isNewest_text :
    ¬ ∃ a, getJobBy getJobText env db id = some a ∧ IsNewest db id a := by
  rintro ⟨a, ha, hn⟩
  rw [getJobBy_of_malformed parse_getJobText, Option.some.injEq] at ha
  rw [← ha] at hn
  have hne : dbError "syntax error" ≠ .notFound id.toString := by simp [dbError]
  exact hne hn.1

/-- **The text of `get_job` spells no statement, so that its answer is neither the newest row nor
that there is none, whatever the table and the id.** -/
theorem getJob_never (env : Env) (db : Db) (id : Uuid) :
    ¬ AddressesNewest getJobText env db id ∧
      (¬ ∃ s, parse getJobText = .ok s) ∧
      ¬ ∃ a, getJobBy getJobText env db id = some a ∧ IsNewest db id a := by
  refine ⟨fun h => not_isNewest_text h.newest, ?_, not_isNewest_text⟩
  rintro ⟨s, hs⟩
  rw [parse_getJobText] at hs
  cases hs

/-- A queue of one job. -/
def oneJob : Db where
  queue := ⟨[queuedRow ⟨0, 7⟩ .null 0 none none none], by simp⟩
  groups := .empty

theorem not_addressesNewest : ¬ AddressesNewest getJobText ⟨0, 7⟩ oneJob 7 := by
  intro h
  exact not_isNewest_text h.newest

end GetJob

end FireCtrl
