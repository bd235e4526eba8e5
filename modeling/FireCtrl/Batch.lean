import FireCtrl.Extraction
import FireCtrl.Joins
import FireCtrl.Queue.Spec

/-!
# Batch scrapes

`runBatchScrape` spawns a scrape for each URL of its list and stores the pages in the order in which they
arrive, while others may write to the tables.

* `Log.tables`: the tables that an operation finds; `Log.inserted`: the rows that the statements of a log insert.
* `joinPages_joining`: the loop, when some of the scrapes have ended.
* **`runBatchScrape_stores`**: the rows of the new group are those of the scrapes that succeed, one for each
  position of the list, and their number is the total of the job.
-/

namespace FireCtrl

open Call (db ext)
open JoinSet (left)

/-! ## What a statement inserts -/

namespace Query

variable {env : Env} {db : Db} {q : Query} {r : Row}

/-- The rows that are there after a statement and not before. -/
def inserts (q : Query) (env : Env) (db : Db) : List Row :=
  (q.exec env db).2.queue.rows.filter fun r => (db.queue.lookup r.key).isNone

theorem inserts_of_newRow_none (h : q.newRow env = none) : q.inserts env db = [] := by
  refine List.filter_eq_nil_iff.mpr fun r hr hnew => ?_
  rcases mem_exec hr with ⟨-, hrow⟩ | ⟨r₀, hold, -⟩
  · rw [h] at hrow
    cases hrow
  · rw [hold] at hnew
    cases hnew

theorem inserts_enqueueCompleted {data rv : Json} {priority : Int32} {owner group : Option Uuid}
    {ch : Option String} {row : QueueScrapeRow}
    (h : ((enqueueCompleted data rv priority owner group ch).exec env db).1 = .ok row) :
    (enqueueCompleted data rv priority owner group ch).inserts env db =
      [completedRow env data rv priority owner group ch] := by
  obtain ⟨hfree, hrows⟩ := KTable.insert?_eq_some.mp (insertRow_ok_insert env h)
  have hold : db.queue.rows.filter (fun r => (db.queue.lookup r.key).isNone) = [] :=
    List.filter_eq_nil_iff.mpr fun r hr => by
      rw [KTable.lookup_key hr]
      exact Bool.false_ne_true
  show List.filter _ (Db.insertRow _ env db).2.queue.rows = _
  rw [hrows, List.filter_append, hold, List.filter_singleton, hfree]
  rfl

/-- A job that `complete_job` finds is completed. -/
theorem completeJob_ok {id : Uuid} {createdAt : Timestamp} {rv : Json}
    (h : ((completeJob id createdAt rv).exec env db).1 = .ok ()) :
    ∃ r ∈ ((completeJob id createdAt rv).exec env db).2.queue, r.key = (id, createdAt) ∧
      r.status = .completed ∧ r.returnvalue = some rv := by
  have hne : (sqlCompleteJob env id createdAt rv).affected db ≠ [] := by
    intro hnil
    simp [exec, Db.completeJob, hnil] at h
  obtain ⟨k, hk⟩ := List.exists_mem_of_ne_nil _ hne
  obtain ⟨r, hr, hsel⟩ := (QueueUpdate.mem_affected _ _).mp hk
  have hkey : r.id = id ∧ r.createdAt = createdAt := of_decide_eq_true hsel
  have hlookup := (sqlCompleteJob env id createdAt rv).lookup_run db (k := k)
  rw [hr, Option.map_some, QueueUpdate.apply, if_pos hsel] at hlookup
  exact ⟨_, KTable.mem_of_lookup hlookup, Prod.ext hkey.1 hkey.2, rfl, rfl⟩

end Query

/-! ## Executions on the tables -/

/-- What an operation makes of the tables. -/
def Op.leave (env : Env) : Op → Db → Db
  | db q, s => (q.exec env s).2
  | ext _, s => s

namespace Log

/-- The tables after the operations of a log, and after what `others` have done since each of them. -/
def tables (env : Log → Env) (others : Log → Db → Db) (db : Db) (log : Log) : Db :=
  (log.foldl (fun s x => (s.1 ++ [x], others (s.1 ++ [x]) (x.1.leave (env s.1) s.2)))
    (([] : Log), db)).2

variable {env : Log → Env} {others : Log → Db → Db} {db : Db} {log l : Log} {o : Op} {a : o.Ans}

/-- The rows that an operation inserts. -/
def insertedBy (env : Env) (db : Db) : Op → List Row
  | .db q => q.inserts env db
  | .ext _ => []

/-- The rows that the operations of a log insert, where those of `done` came before. -/
def inserted (env : Log → Env) (tables : Log → Db) (done : Log) : Log → List Row
  | [] => []
  | x :: l => insertedBy (env done) (tables done) x.1 ++ inserted env tables (done ++ [x]) l

theorem inserted_append (env : Log → Env) (tables : Log → Db) (done log l : Log) :
    inserted env tables done (log ++ l) =
      inserted env tables done log ++ inserted env tables (done ++ log) l := by
  induction log generalizing done with
  | nil => rw [List.append_nil]; rfl
  | cons x log ih =>
    rw [List.cons_append, inserted, ih, inserted, List.append_assoc, List.append_assoc]
    rfl

/-- A statement that inserts no rows. -/
theorem inserted_skip {q : Query} {a : (Op.db q).Ans} {tables : Log → Db} {done : Log}
    (h : ∀ env, q.newRow env = none) (l : Log) :
    inserted env tables done (⟨.db q, a⟩ :: l) = inserted env tables (done ++ [⟨.db q, a⟩]) l := by
  rw [inserted, insertedBy, Query.inserts_of_newRow_none (h _), List.nil_append]

/-- What an operation is answered is no error of the database. -/
def answered : (o : Op) → o.Ans → Bool
  | .db _, a => a.toBool
  | .ext _, _ => true

/-- The database has reported no error. -/
def Answered (log : Log) : Prop := ∀ x ∈ log, answered x.1 x.2 = true

instance (log : Log) : Decidable log.Answered := inferInstanceAs (Decidable (∀ _ ∈ _, _))

end Log

/-- The database answers from the tables that a statement finds. -/
def Answers.onTables (ρ : Answers) (env : Log → Env) (tables : Log → Db) : Answers
  | log, .db q => (q.exec (env log) (tables log)).1
  | log, o => ρ log o

section Answered

variable {α β : Type} {ρ : Answers} {log : Log} {c : Call α} {f : α → Call β}

variable (c ρ log) in
/-- What has happened stays in the log. -/
theorem execution_extends : ∃ l, (c.execution ρ log).2 = log ++ l := by
  unfold Call.execution
  induction c.run generalizing log with
  | ret a => exact ⟨[], (List.append_nil log).symm⟩
  | op o k ih =>
    obtain ⟨l, hl⟩ := ih (ρ log o) (log ++ [⟨o, ρ log o⟩])
    exact ⟨⟨o, ρ log o⟩ :: l, by rw [Prog.eval, Answers.record, hl, List.append_assoc]; rfl⟩

/-- If the database reports no error at all, it reports none to the first part. -/
theorem answered_of_bind (h : ((c >>= f).execution ρ log).2.Answered) : (c.execution ρ log).2.Answered := by
  rw [execution_bind] at h
  rcases hc : c.execution ρ log with ⟨e | a, log'⟩
  · rw [hc] at h
    exact h
  · rw [hc] at h
    obtain ⟨l, hl⟩ := execution_extends ρ log' (f a)
    rw [hl] at h
    exact fun x hx => h x (List.mem_append_left _ hx)

/-- Then a statement is answered, and the rest runs. -/
theorem answered_db {q : Query} {f : q.Out → Call β} (h : ((db q >>= f).execution ρ log).2.Answered) :
    ∃ v, ρ log (.db q) = .ok v ∧
      (db q >>= f).execution ρ log = (f v).execution ρ (log ++ [⟨.db q, .ok v⟩]) := by
  have hq := answered_of_bind h
  rw [execution_db] at hq
  have hans := hq _ (List.mem_append_right _ (List.mem_singleton_self _))
  rcases hv : ρ log (.db q) with e | v
  · rw [Log.answered, hv] at hans
    cases hans
  · refine ⟨v, rfl, ?_⟩
    rw [execution_bind, execution_db, hv]

end Answered

/-! ## Storing the pages -/

/-- What is stored in a row. -/
def Row.stored (r : Row) : JobStatus × Option Uuid × Option Json × Option Json :=
  (r.status, r.groupId, r.data, r.returnvalue)

/-- What is stored of a scrape that succeeds. -/
def storedPage (group : Uuid) (url : String) :
    Outcome → Option (JobStatus × Option Uuid × Option Json × Option Json)
  | some (.ok r) => some (.completed, some group, some (subData url), some (toValue r))
  | _ => none

section Round

variable {env : Log → Env} {tables : Log → Db} {ρ : Answers} {group : Uuid} {job : BatchScrapeJobData} {n : ℕ}
  {results : List ScrapeResult} {log : Log} {t : Task} {ts : List Task} {i : Fin (ts.length + 1)}
  {joined : Outcome} {r : ScrapeResult}

/-- The statement that stores a page. -/
def storing (group : Uuid) (job : BatchScrapeJobData) (url : String) (r : ScrapeResult) : Query :=
  .enqueueCompleted (subData url) (toValue r) job.priority none (some group) none

theorem inserted_storing {url : String} {row : QueueScrapeRow}
    (h : ((storing group job url r).exec (env log) (tables log)).1 = .ok row)
    (a : (Op.db (storing group job url r)).Ans) :
    (Log.inserted env tables log [⟨.db (storing group job url r), a⟩]).map Row.stored =
      (storedPage group url (some (.ok r))).toList := by
  rw [Log.inserted, Log.inserted, List.append_nil, Log.insertedBy, storing, Query.inserts_enqueueCompleted h]
  rfl

/-- A round in which a scrape has failed or panicked. -/
theorem joinPages_skip (h : ρ log (.ext (.joinNext t ts)) = (i, joined)) (hjoined : ∀ r, joined ≠ some (.ok r)) :
    (joinPages group job (n + 1) (t :: ts) results).execution ρ log =
      (joinPages group job n ((t :: ts).eraseIdx i) results).execution ρ
        (log ++ [⟨.ext (.joinNext t ts), (i, joined)⟩]) := by
  rw [joinPages, execution_ext_bind, h]
  rcases joined with _ | e | r
  · rfl
  · rfl
  · exact absurd rfl (hjoined r)

/-- A round in which a page arrives and is stored. -/
theorem joinPages_store {row : QueueScrapeRow} (h : ρ log (.ext (.joinNext t ts)) = (i, some (.ok r)))
    (hrow : ρ (log ++ [⟨.ext (.joinNext t ts), (i, some (.ok r))⟩])
      (.db (storing group job ((t :: ts).get i).url r)) = .ok row) :
    (joinPages group job (n + 1) (t :: ts) results).execution ρ log =
      (joinPages group job n ((t :: ts).eraseIdx i) (results ++ [r])).execution ρ
        (log ++ [⟨.ext (.joinNext t ts), (i, some (.ok r))⟩] ++
          [⟨.db (storing group job ((t :: ts).get i).url r), .ok row⟩]) := by
  rw [joinPages, execution_ext_bind, h]
  dsimp only
  rw [execution_bind, execution_db]
  change ρ _ (.db (.enqueueCompleted _ _ _ _ _ _)) = _ at hrow
  rw [hrow]
  rfl

/-- A round in which a page is not stored. -/
theorem joinPages_error {e : AppError} (h : ρ log (.ext (.joinNext t ts)) = (i, some (.ok r)))
    (hrow : ρ (log ++ [⟨.ext (.joinNext t ts), (i, some (.ok r))⟩])
      (.db (storing group job ((t :: ts).get i).url r)) = .error e) :
    (joinPages group job (n + 1) (t :: ts) results).execution ρ log =
      (.error e, log ++ [⟨.ext (.joinNext t ts), (i, some (.ok r))⟩] ++
        [⟨.db (storing group job ((t :: ts).get i).url r), .error e⟩]) := by
  rw [joinPages, execution_ext_bind, h]
  dsimp only
  rw [execution_bind, execution_db]
  change ρ _ (.db (.enqueueCompleted _ _ _ _ _ _)) = _ at hrow
  rw [hrow]
  rfl

/-- A round without an error of the database. -/
theorem joinPages_round (hdb : ∀ log q, ρ log (.db q) = (q.exec (env log) (tables log)).1)
    (h : ρ log (.ext (.joinNext t ts)) = (i, joined))
    (hok : ((joinPages group job (n + 1) (t :: ts) results).execution ρ log).2.Answered) :
    ∃ pages l, (joinPages group job (n + 1) (t :: ts) results).execution ρ log =
        (joinPages group job n ((t :: ts).eraseIdx i) (results ++ pages)).execution ρ (log ++ l) ∧
      l.outcomes = [((t :: ts).get i, joined)] ∧
      (Log.inserted env tables log l).map Row.stored = (storedPage group ((t :: ts).get i).url joined).toList ∧
      pages.length = (storedPage group ((t :: ts).get i).url joined).toList.length := by
  by_cases hpage : ∃ r, joined = some (.ok r)
  · obtain ⟨r, rfl⟩ := hpage
    rcases hrow : ρ (log ++ [⟨.ext (.joinNext t ts), (i, some (.ok r))⟩])
      (.db (storing group job ((t :: ts).get i).url r)) with e | row
    · rw [joinPages_error h hrow] at hok
      exact absurd (hok _ (List.mem_append_right _ (List.mem_singleton_self _))) Bool.false_ne_true
    · refine ⟨[r], [⟨.ext (.joinNext t ts), (i, some (.ok r))⟩] ++
        [⟨.db (storing group job ((t :: ts).get i).url r), .ok row⟩],
        (joinPages_store h hrow).trans (by rw [List.append_assoc]), rfl, ?_, rfl⟩
      rw [Log.inserted_append, List.map_append, inserted_storing ((hdb _ _).symm.trans hrow)]
      rfl
  · refine ⟨[], [⟨.ext (.joinNext t ts), (i, joined)⟩], ?_, rfl, ?_, ?_⟩
    · rw [joinPages_skip h fun r hr => hpage ⟨r, hr⟩, List.append_nil]
    · rcases joined with _ | e | r
      · rfl
      · rfl
      · exact absurd ⟨r, rfl⟩ hpage
    · rcases joined with _ | e | r
      · rfl
      · rfl
      · exact absurd ⟨r, rfl⟩ hpage

end Round

section Loop

variable {α : Type} [DecidableEq α] {spawned order : List α} {outcome : α → Outcome} {task : α → Task}
  {env : Log → Env} {tables : Log → Db} {ρ : Answers} {group : Uuid} {job : BatchScrapeJobData} {n : ℕ}
  {results : List ScrapeResult} {log : Log}

/-- The loop, when some of the tasks have been joined: it stores the pages of the others. -/
theorem joinPages_joining (horder : order.Perm spawned) (hn : n = (left spawned order log.outcomes.length).length)
    (hok : ((joinPages group job n ((left spawned order log.outcomes.length).map task) results).execution
      ((ρ.onTables env tables).joining spawned order outcome) log).2.Answered) :
    ∃ pages l, (joinPages group job n ((left spawned order log.outcomes.length).map task) results).execution
        ((ρ.onTables env tables).joining spawned order outcome) log = (.ok (results ++ pages), log ++ l) ∧
      (Log.inserted env tables log l).map Row.stored =
        (order.drop log.outcomes.length).filterMap (fun a => storedPage group (task a).url (outcome a)) ∧
      pages.length = (Log.inserted env tables log l).length := by
  induction n generalizing results log with
  | zero =>
    have hleft := List.eq_nil_of_length_eq_zero hn.symm
    have hdrop : order.drop log.outcomes.length = [] :=
      List.perm_nil.mp (hleft ▸ JoinSet.left_perm horder log.outcomes.length).symm
    rw [hleft, hdrop]
    exact ⟨[], [], by rw [List.append_nil, List.append_nil]; rfl, rfl, rfl⟩
  | succ n ih =>
    obtain ⟨t, ts, hts⟩ : ∃ t ts, (left spawned order log.outcomes.length).map task = t :: ts :=
      List.exists_cons_of_length_pos (by rw [List.length_map]; omega)
    have hlt : log.outcomes.length < order.length := by
      rw [JoinSet.length_left horder] at hn
      rw [horder.length_eq]
      omega
    obtain ⟨i, hans, hget, herase⟩ :=
      joining_next (ρ.onTables env tables) outcome horder (List.getElem?_eq_getElem hlt) hts.symm
    rw [hts] at hok ⊢
    obtain ⟨page, l₁, hround, houtcomes, hinserted, hpage⟩ := joinPages_round (fun _ _ => rfl) hans hok
    have hcount : (log ++ l₁).outcomes.length = log.outcomes.length + 1 := by
      rw [Log.outcomes_append, houtcomes, List.length_append, List.length_singleton]
    rw [hround, herase] at hok ⊢
    rw [← hcount] at hok ⊢
    obtain ⟨pages, l₂, hl, hrest, hpages⟩ := ih (by rw [hcount]; rw [JoinSet.length_left horder] at hn ⊢; omega) hok
    refine ⟨page ++ pages, l₁ ++ l₂, ?_, ?_, ?_⟩
    · rw [hl, List.append_assoc, List.append_assoc]
    · rw [Log.inserted_append, List.map_append, hinserted, hrest, hcount, List.drop_eq_getElem_cons hlt,
        List.filterMap_cons, hget]
      cases storedPage group (task order[log.outcomes.length]).url (outcome order[log.outcomes.length]) <;> rfl
    · rw [Log.inserted_append, List.length_append, List.length_append, hpage, hpages, ← hinserted, List.length_map]

/-- The whole loop. -/
theorem joinPages_all (horder : order.Perm spawned) (hlog : log.outcomes = [])
    (hok : ((joinPages group job spawned.length (spawned.map task) results).execution
      ((ρ.onTables env tables).joining spawned order outcome) log).2.Answered) :
    ∃ pages l, (joinPages group job spawned.length (spawned.map task) results).execution
        ((ρ.onTables env tables).joining spawned order outcome) log = (.ok (results ++ pages), log ++ l) ∧
      (Log.inserted env tables log l).map Row.stored =
        order.filterMap (fun a => storedPage group (task a).url (outcome a)) ∧
      pages.length = (Log.inserted env tables log l).length := by
  have hleft : left spawned order log.outcomes.length = spawned := by rw [hlog]; rfl
  have hdrop : order.drop log.outcomes.length = order := by rw [hlog]; rfl
  rw [← hleft] at hok
  obtain ⟨pages, l, hl, hinserted, hpages⟩ := joinPages_joining horder rfl (by rw [hleft] at hok ⊢; exact hok)
  rw [hleft] at hl
  rw [hdrop] at hinserted
  exact ⟨pages, l, hl, hinserted, hpages⟩

end Loop

/-! ## The job -/

section Batch

variable {env : Log → Env} {others : Log → Db → Db} {start : Db} {ρ : Answers} {jobId : Uuid}
  {createdAt : Timestamp} {job : BatchScrapeJobData} {order : List (Fin job.urls.length)}
  {outcome : Fin job.urls.length → Outcome}

/-- The execution of a batch job whose scrapes end in the given order and with the given outcomes. -/
def batchExecution (env : Log → Env) (others : Log → Db → Db) (start : Db) (ρ : Answers) (jobId : Uuid)
    (createdAt : Timestamp) (job : BatchScrapeJobData) (order : List (Fin job.urls.length))
    (outcome : Fin job.urls.length → Outcome) : Except AppError Unit × Log :=
  (runBatchScrape jobId createdAt job).execution
    ((ρ.onTables env (Log.tables env others start)).joining (List.finRange _) order outcome) []

/-- The last statement of the log completes the job with `total`, which is then stored on it. -/
def Log.Completes (env : Log → Env) (tables : Log → Db) (jobId : Uuid) (createdAt : Timestamp) (total : Json)
    (log : Log) : Prop :=
  ∃ done rest : Log, log = done ++ [⟨.db (.completeJob jobId createdAt total), .ok ()⟩] ++ rest ∧
    (∀ x ∈ rest, ∃ e, x.1 = .ext e) ∧
    ∃ r ∈ ((Op.db (.completeJob jobId createdAt total)).leave (env done) (tables done)).queue,
      r.key = (jobId, createdAt) ∧ r.status = .completed ∧ r.returnvalue = some total

/-- The end of a batch: it completes the job, and tells so. -/
theorem batch_end {tables : Log → Db} {log : Log} {group : Uuid} {total : Json} {url : Option String}
    {payload : Json} (hdb : ∀ log q, ρ log (.db q) = (q.exec (env log) (tables log)).1)
    (hok : ((do db (.setGroupStatus group .completed); db (.completeJob jobId createdAt total)
                fireWebhook url payload : Call Unit).execution ρ log).2.Answered) :
    ∃ l : Log, (do db (.setGroupStatus group .completed); db (.completeJob jobId createdAt total)
                   fireWebhook url payload : Call Unit).execution ρ log = (.ok (), log ++ l) ∧
      Log.inserted env tables log l = [] ∧ (log ++ l).Completes env tables jobId createdAt total := by
  obtain ⟨u, hu, hrun⟩ := answered_db hok
  rw [hrun] at hok ⊢
  obtain ⟨v, hv, hrun⟩ := answered_db hok
  rw [hrun]
  have hstored := Query.completeJob_ok ((hdb _ _).symm.trans hv)
  let set : Log := [⟨.db (.setGroupStatus group .completed), .ok u⟩]
  let complete : Log := [⟨.db (.completeJob jobId createdAt total), .ok v⟩]
  cases url with
  | none =>
    refine ⟨set ++ complete, ?_, ?_, log ++ set, [], ?_, fun _ hx => absurd hx List.not_mem_nil, hstored⟩
    · rw [← List.append_assoc]
      rfl
    · exact (Log.inserted_skip (fun _ => rfl) _).trans (Log.inserted_skip (fun _ => rfl) _)
    · rw [List.append_nil, List.append_assoc]
  | some url =>
    let told : Log :=
      [⟨.ext (.fireWebhook url payload), ρ (log ++ set ++ complete) (.ext (.fireWebhook url payload))⟩]
    refine ⟨set ++ complete ++ told, ?_, ?_, log ++ set, told, ?_, ?_, hstored⟩
    · rw [← List.append_assoc, ← List.append_assoc]
      rfl
    · exact (Log.inserted_skip (fun _ => rfl) _).trans (Log.inserted_skip (fun _ => rfl) _)
    · rw [List.append_assoc, List.append_assoc, List.append_assoc]
    · intro x hx
      rw [List.mem_singleton.mp hx]
      exact ⟨_, rfl⟩

/-- **A batch stores exactly its successes**: if the database reports no error, then the job succeeds, its new
group gets one completed row for each position of the list whose scrape succeeds, and the total stored on the
job is their number. -/
theorem runBatchScrape_stores (horder : order.Perm (List.finRange _))
    (hok : (batchExecution env others start ρ jobId createdAt job order outcome).2.Answered) :
    let tables := Log.tables env others start
    let log := (batchExecution env others start ρ jobId createdAt job order outcome).2
    let rows := Log.inserted env tables [] log
    (batchExecution env others start ρ jobId createdAt job order outcome).1 = .ok () ∧
      ∃ group, start.groups.lookup group = none ∧
        (rows.map Row.stored).Perm
          ((List.finRange _).filterMap fun i => storedPage group (job.urls.get i) (outcome i)) ∧
        log.Completes env tables jobId createdAt (summary rows.length group) := by
  intro tables log rows
  have hdb : ∀ log q, (ρ.onTables env tables).joining (List.finRange _) order outcome log (.db q) =
      (q.exec (env log) (tables log)).1 := fun _ _ => rfl
  have htasks : job.urls.map (batchTask job) = (List.finRange _).map fun i => batchTask job (job.urls.get i) := by
    conv_lhs => rw [← List.map_get_finRange job.urls, List.map_map]
    rfl
  unfold batchExecution runBatchScrape at hok
  obtain ⟨group, hgroup, hcreate⟩ := answered_db hok
  rw [hcreate] at hok
  obtain ⟨u, hu, hattach⟩ := answered_db hok
  rw [hattach] at hok
  have hjoin := answered_of_bind hok
  rw [htasks, List.length_map] at hjoin
  obtain ⟨pages, l, hl, hinserted, hpages⟩ := joinPages_all horder rfl hjoin
  rw [execution_bind, htasks, List.length_map, hl] at hok
  dsimp only at hok
  obtain ⟨l', hl', hnone, hcompletes⟩ := batch_end hdb hok
  let first : Log := [⟨.db (.createCrawlGroup .nil 86400000), .ok group⟩] ++
    [⟨.db (.updateJobGroup jobId createdAt group.id), .ok u⟩]
  have hrun : batchExecution env others start ρ jobId createdAt job order outcome = (.ok (), first ++ l ++ l') := by
    unfold batchExecution runBatchScrape
    rw [hcreate, hattach, execution_bind, htasks, List.length_map, hl]
    exact hl'
  have hrows : rows = Log.inserted env tables first l := by
    show Log.inserted env tables [] (batchExecution env others start ρ jobId createdAt job order outcome).2 = _
    have hfirst : Log.inserted env tables [] first = [] :=
      (Log.inserted_skip (fun _ => rfl) _).trans (Log.inserted_skip (fun _ => rfl) _)
    rw [hrun, Log.inserted_append, Log.inserted_append, hfirst]
    exact (congrArg _ hnone).trans (List.append_nil _)
  refine ⟨congrArg Prod.fst hrun, group.id, (Query.createCrawlGroup_ok hgroup).1, ?_, ?_⟩
  · rw [hrows]
    exact (List.Perm.of_eq hinserted).trans (horder.filterMap _)
  · rw [(congrArg List.length hrows).trans hpages.symm]
    show (batchExecution env others start ρ jobId createdAt job order outcome).2.Completes env tables _ _ _
    rw [hrun]
    exact hcompletes

end Batch

section Sample

/-- Three URLs, two of them the same. -/
def BatchScrapeJobData.sample : BatchScrapeJobData where
  urls := ["https://example.com/", "https://example.com/b", "https://example.com/"]
  scrapeOptions := .default
  webhook := none
  priority := 0

/-- The second scrape fails. -/
def sampleOutcome (i : Fin 3) : Outcome :=
  if i = 1 then some (.error .timeout) else some (.ok (.sample "https://example.com/" ""))

/-- The clock and the UUIDs count the operations. -/
def Env.count (log : Log) : Env := ⟨log.length, .ofNat _ log.length⟩

/-- The job is running. -/
def Db.sampleRunning : Db where
  queue := ⟨[{ queuedRow ⟨0, 9⟩ .null 0 none none none with status := .active }], List.nodup_singleton _⟩
  groups := .empty

/-- The third scrape is the first to end. -/
theorem runBatchScrape_stores_sample :
    let tables := Log.tables Env.count (fun _ db => db) .sampleRunning
    let run := batchExecution Env.count (fun _ db => db) .sampleRunning .sample 9 0 .sample
      ([2, 0, 1] : List (Fin 3)) sampleOutcome
    let rows := Log.inserted Env.count tables [] run.2
    run.1 = .ok () ∧ ∃ group, Db.sampleRunning.groups.lookup group = none ∧
      (rows.map Row.stored).Perm ((List.finRange 3).filterMap fun i =>
        storedPage group (BatchScrapeJobData.sample.urls.get i) (sampleOutcome i)) ∧
      run.2.Completes Env.count tables 9 0 (summary rows.length group) :=
  runBatchScrape_stores (show ([2, 0, 1] : List (Fin 3)).Perm (List.finRange 3) by decide) (by decide)

end Sample

end FireCtrl
