import FireCtrl.System.Status
import FireCtrl.System.Stored

/-!
# What the counters count

* `WorkerState.job?`: the row that a worker has in hand; `job_step`: it gets it by a claim.
* `Db.otherRows k g`: the rows of group `g` besides row `k`; `otherRows_exec`: they stay, unless a
  statement writes into the group.
* `RunPhase`, `runPhase_next`: what the job has made of its row and group, one statement after the other.
* `FirstRun`, **`firstRun_run`**: how far a job has come that is claimed at most once, and how many pages
  its group has; `FirstDone`, `firstDone_run`: what it leaves behind when it finishes.
* **`counts_of_finished`**: then its group has one more completed row than the job has scraped pages,
  and no failed one; so **`not_countsPages`**: the counters of the status response never count the pages.
-/

namespace FireCtrl

open Query (RowStep)

/-! ## Who has a row in hand -/

/-- The row that a worker has claimed and not yet let go of. -/
def WorkerState.job? : WorkerState → Option Key
  | .executing k .. => some k
  | .failing k _ => some k
  | .idle | .stopped => none

/-- The statement finishes row `k` or moves it into a group. -/
def Query.names (k : Key) : Query → Prop
  | completeJob id createdAt _ => (id, createdAt) = k
  | failJob id createdAt _ => (id, createdAt) = k
  | updateJobGroup id createdAt _ => (id, createdAt) = k
  | _ => False

/-- The claims of row `k` in a run. -/
def claimCount (k : Key) (es : List Event) : ℕ :=
  (es.filterMap Event.executed).countP (·.claims k)

section Hands

variable {cfg : Config} {urls : UrlCrate} {s t : Sys} {ev : Event} {es : List Event} {owner : Owner}
  {db : Db} {env : Env} {q : Query} {r : Row} {g : Uuid} {k : Key} {a : Actor} {w : Uuid}

/-- Only who has a row in hand finishes it or moves it. -/
theorem job_of_names (h : Issued s a q) (hq : q.names k) :
    ∃ w, a = .worker w ∧ (s.workers w).job? = some k := by
  cases h with
  | @job w k' e log q p hw hallow =>
    refine ⟨w, rfl, ?_⟩
    rw [hw]
    generalize jobPhase log = ph at hallow
    cases hallow with
    | attach | finishGroup | finish => exact congrArg some hq
    | lookup | create | store | close => exact hq.elim
  | @request n req log q p hn hallow =>
    generalize handlerPhase log = ph at hallow
    cases hallow <;> exact hq.elim
  | @fail w k' reason hw =>
    refine ⟨w, rfl, ?_⟩
    rw [hw]
    exact congrArg some hq
  | claim | requeue | failOver => exact hq.elim

/-- Only who has a row in hand writes into the groups that it owns. -/
theorem job_of_writesInto (ho : Owned owner s) (h : Issued s a q) (hq : q.writesInto g)
    (hg : owner g = some k) : ∃ w, a = .worker w ∧ (s.workers w).job? = some k := by
  cases h with
  | @job w k' e log q p hw hallow =>
    refine ⟨w, rfl, ?_⟩
    have hgroup := (ho.executing hw).group
    rw [hw]
    generalize jobPhase log = ph at hallow hgroup
    have hk (hph : ph.group? = some g) : k' = k :=
      Option.some.inj ((hgroup g hph).symm.trans hg)
    cases hallow with
    | attach | store | close => cases hq; exact congrArg some (hk rfl)
    | lookup | create | finishGroup | finish => exact hq.elim
  | @request n req log q p hn hallow =>
    have hc (hph : handlerPhase log = .created g) : owner g = none :=
      (ho.created n g (by rw [hn]; exact hph)).2
    generalize handlerPhase log = ph at hallow hc
    cases hallow with
    | enqueueCrawl =>
      cases hq
      rw [hc rfl] at hg
      cases hg
    | enqueueBatch | enqueueExtract => cases hq
    | create | lookup | lookupJob | cancelJob | cancelGroupJobs | cancelGroupRow => exact hq.elim
  | claim | fail | requeue | failOver => exact hq.elim

theorem afterClaim_job {row : QueueScrapeRow} :
    (afterClaim cfg urls (.ok (some row))).job? = some (row.id, row.createdAt) := by
  simp only [afterClaim]
  split <;> rfl

theorem claimNextJob_key {lockId : Uuid} {row : QueueScrapeRow}
    (h : ((Query.claimNextJob lockId).exec env db).1 = .ok (some row)) :
    (row.id, row.createdAt) = k ↔ k ∈ (Query.claimNextJob lockId).affected env db := by
  obtain ⟨r, hr, rfl⟩ := Query.claimNextJob_some h
  have hmem := (Db.nextQueued_spec hr).1
  have hkey : ((mapQueueRow (Query.touch env db (.claimNextJob lockId) r)).id,
      (mapQueueRow (Query.touch env db (.claimNextJob lockId) r)).createdAt) = r.key := by
    have hfixed := Query.touch_fixed (.claimNextJob lockId) env (KTable.lookup_key hmem)
    exact Prod.ext hfixed.1 hfixed.2.1
  rw [hkey, Query.mem_affected_claimNextJob]
  constructor
  · rintro rfl
    exact ⟨r, hr, rfl⟩
  · rintro ⟨r', hr', rfl⟩
    rw [hr, Option.some.injEq] at hr'
    rw [hr']

/-- The event is a claim of row `k`. -/
def Event.claims (k : Key) (ev : Event) : Bool := ev.executed.any (·.claims k)

theorem claims_of_afterClaim {ρ : Reply}
    (h : (afterClaim cfg urls (Op.run ρ (.db (.claimNextJob w)) s.db).1).job? = some k) :
    (s.event (.worker w) ρ (.db (.claimNextJob w))).claims k = true := by
  rcases ha : (Op.run ρ (.db (.claimNextJob w)) s.db).1 with err | _ | row
  · rw [ha] at h; cases h
  · rw [ha] at h; cases h
  · rw [ha, afterClaim_job, Option.some.injEq] at h
    obtain ⟨hx, hok⟩ := Op.run_ok ha
    rw [event_of_executes hx]
    simpa [Event.claims, Event.executed, Executed.claims] using (claimNextJob_key hok).mp h

/-- **A worker gets a row in hand by a claim**, and starts with executing it. -/
theorem job_step (hstep : (sysLts cfg urls).step s ev t) (hw : (t.workers w).job? = some k)
    (hc : ev.claims k = false) :
    (s.workers w).job? = some k ∧ (∀ reason, s.workers w = .failing k reason →
      t.workers w = .failing k reason) := by
  cases sysStep_of_step hstep with
  | claim w' ρ hw' =>
    rw [setWorker_workers] at hw ⊢
    split_ifs at hw ⊢ with hww
    · subst hww
      rw [claims_of_afterClaim hw] at hc
      cases hc
    · exact ⟨hw, fun _ h => h⟩
  | @work w' ρ k' e log o p hw' =>
    rw [setWorker_workers] at hw ⊢
    split_ifs at hw ⊢ with hww
    · subst hww
      exact ⟨by rw [hw']; exact hw, fun _ h => by rw [hw'] at h; cases h⟩
    · exact ⟨hw, fun _ h => h⟩
  | giveUp w' hw' | timeout w' ρ hw' =>
    rw [setWorker_workers] at hw ⊢
    split_ifs at hw ⊢ with hww
    · subst hww
      exact ⟨by rw [hw']; exact hw, fun _ h => by rw [hw'] at h; cases h⟩
    · exact ⟨hw, fun _ h => h⟩
  | finish w' hw' | fail w' ρ hw' | crash w' =>
    rw [setWorker_workers] at hw ⊢
    split_ifs at hw ⊢
    · cases hw
    · exact ⟨hw, fun _ h => h⟩
  | request | handle | respond | drop | requeue | failOver => exact ⟨hw, fun _ h => h⟩

/-- A claim is the statement of an idle worker. -/
theorem claim_of_claims (ho : Owned owner s) (hstep : (sysLts cfg urls).step s ev t)
    (hc : ev.claims k = true) :
    ∃ w ρ, s.workers w = .idle ∧ ev = s.event (.worker w) ρ (.db (.claimNextJob w)) ∧
      t = (s.perform ρ (.db (.claimNextJob w))).setWorker w
        (afterClaim cfg urls (Op.run ρ (.db (.claimNextJob w)) s.db).1) := by
  have hother {a : Actor} {ρ : Reply} {o : Op} (ho : ∀ w, o ≠ .db (.claimNextJob w)) :
      (s.event a ρ o).claims k = false := by
    rcases hx : o.executes ρ with _ | q
    · simp [Event.claims, event_of_not_executes hx]
    · rw [event_of_executes hx]
      cases q with
      | claimNextJob w => exact absurd (eq_db_of_executes hx) (ho w)
      | _ => rfl
  cases sysStep_of_step hstep with
  | claim w ρ hw => exact ⟨w, ρ, hw, rfl, rfl⟩
  | work w ρ hw | timeout w ρ hw =>
    rw [hother] at hc
    · cases hc
    · rintro w' rfl
      have hallow := (ho.executing hw).allows
      generalize jobPhase _ = ph at hallow
      cases hallow
  | handle n ρ hn =>
    rw [hother] at hc
    · cases hc
    · rintro w' rfl
      have hallow := (ho.running hn).1
      generalize handlerPhase _ = ph at hallow
      cases hallow
  | fail w ρ hw => rw [hother (by simp)] at hc; cases hc
  | requeue ρ st hst => rw [hother (by simp)] at hc; cases hc
  | failOver ρ st hst => rw [hother (by simp)] at hc; cases hc
  | finish | giveUp | crash | request | respond | drop => cases hc

theorem claimCount_append (es : List Event) (ev : Event) :
    claimCount k (es ++ [ev]) = claimCount k es + if ev.claims k then 1 else 0 := by
  unfold claimCount Event.claims
  cases h : ev.executed <;> simp [h]

end Hands

/-! ## The pages of a group -/

/-- The number of rows of group `g` besides row `k`. -/
def Db.otherRows (db : Db) (k : Key) (g : Uuid) : ℕ :=
  db.queue.count fun r => r.groupId = some g ∧ r.key ≠ k

section Rows

variable {owner : Owner} {db : Db} {env : Env} {q : Query} {r : Row} {g : Uuid} {k : Key}

/-- With the row of the job, a group has one row more. -/
theorem groupSize_eq (hmem : r ∈ db.queue) (hg : r.groupId = some g) :
    db.groupSize g = db.otherRows r.key g + 1 := by
  have hcount := KTable.count_off (p := fun r' => r'.groupId = some g)
    (q := fun r' => r'.groupId = some g ∧ r'.key ≠ r.key) hmem fun r' hr' hne => by
      have hkey : r'.key ≠ r.key := fun h => hne (KTable.eq_of_key_eq hr' hmem h)
      simp [hkey]
  simp only [hg, ne_eq, not_true_eq_false, and_false, decide_false, decide_true, if_true] at hcount
  exact hcount

theorem otherRows_eq_zero (hg : ∀ r ∈ db.queue, r.groupId = some g → r.key = k) :
    db.otherRows k g = 0 := by
  refine List.countP_eq_zero.mpr fun r hr => ?_
  simpa using hg r hr

theorem groupId_ne_of_owner_none (h : DbOwned owner db) (hg : owner g = none) (hr : r ∈ db.queue) :
    r.groupId ≠ some g := by
  intro hr'
  rcases h.rows r hr with hj | hp
  · rw [hj.owner_eq hr'] at hg
    cases hg
  · obtain ⟨g', hg', hsome⟩ := hp.group
    rw [hr', Option.some.injEq] at hg'
    rw [← hg', hg] at hsome
    cases hsome

/-- **The other rows of the group of job `k`** stay, unless a statement writes into the group. -/
theorem otherRows_exec (h : DbOwned owner db) (hq : Respects owner env db q) (hg : owner g = some k)
    (hw : ¬ q.writesInto g) : (q.exec env db).2.otherRows k g = db.otherRows k g := by
  unfold Db.otherRows
  rcases hu : q.update? env db with _ | u
  · rcases Query.exec_of_no_update hu with hsame | ⟨r, hr, hi⟩
    · rw [hsame]
    · have hne : r.groupId ≠ some g := by
        cases q with
        | enqueue | enqueueCompleted => cases hr; exact hw
        | _ => cases hr
      rw [KTable.count_insert? hi]
      simp [hne]
  · rw [Query.exec_of_update hu]
    refine KTable.count_update u.key_set fun r hr hs => ?_
    have hstep := Query.rowStep_of_selects hu hr hs
    generalize u.set r = r' at hstep
    cases hstep with
    | attach g' =>
      have hne : g' ≠ g := hw
      have hl : db.queue.lookup (r.id, r.createdAt) = some r := KTable.lookup_key hr
      obtain ⟨job, hd⟩ := hq.2 r hl
      have hj : JobRow owner r := (h.rows r hr).job_of_isParent (.inr ⟨job, hd⟩)
      by_cases hr' : r.groupId = some g
      · have hk : r.key = k := Option.some.inj ((hj.owner_eq hr').symm.trans hg)
        simp [hne, hr', hk]
      · simp [hne, hr']
    | claim | complete | fail | cancel | cancelGroup | requeue | failOver => rfl

/-- A page that is stored is one more. -/
theorem otherRows_store {data rv : Json} {priority : Int32} {ownerId : Option Uuid} {ch : Option String}
    {row : QueueScrapeRow}
    (hok : ((Query.enqueueCompleted data rv priority ownerId (some g) ch).exec env db).1 = .ok row)
    (hk : (db.queue.lookup k).isSome) :
    ((Query.enqueueCompleted data rv priority ownerId (some g) ch).exec env db).2.otherRows k g =
      db.otherRows k g + 1 := by
  have hi := Query.insertRow_ok_insert env hok
  have hne : (completedRow env data rv priority ownerId (some g) ch).key ≠ k := by
    rintro rfl
    rw [(Query.insertRow_ok env hok).2.1] at hk
    cases hk
  unfold Db.otherRows
  exact (KTable.count_insert? hi _).trans (congrArg _ (if_pos (decide_eq_true ⟨rfl, hne⟩)))

end Rows

/-! ## Statements of others -/

/-- The group of row `k`, if it has one, has `n` other rows. -/
def PagesAre (db : Db) (k : Key) (n : ℕ) : Prop :=
  ∀ r g, db.queue.lookup k = some r → r.groupId = some g → db.otherRows k g = n

theorem PagesAre.of_lookup {db : Db} {k : Key} {r : Row} {n : ℕ}
    (hr : db.queue.lookup k = some r) (h : ∀ g, r.groupId = some g → db.otherRows k g = n) :
    PagesAre db k n := by
  intro r' g hr' hg
  rw [hr, Option.some.injEq] at hr'
  subst hr'
  exact h g hg

section Foreign

variable {s : Sys} {owner : Owner} {env : Env} {q : Query} {r : Row} {g : Uuid} {k : Key} {a : Actor}
  (ho : Owned owner s) (hi : Issued s a q) (ha : ∀ w, a = .worker w → (s.workers w).job? ≠ some k)

include hi ha

theorem not_names_of_foreign : ¬ q.names k := by
  intro hq
  obtain ⟨w, rfl, hw⟩ := job_of_names hi hq
  exact ha w rfl hw

theorem touch_foreign (env : Env) (hr : s.db.queue.lookup k = some r) :
    (q.touch env s.db r).groupId = r.groupId ∧
      (r.status = .completed → (q.touch env s.db r).status = .completed) := by
  have hnames := not_names_of_foreign hi ha
  obtain rfl := KTable.key_of_lookup hr
  rcases Query.touch_step q env hr with ⟨-, heq⟩ | ⟨-, hs⟩
  · rw [heq]
    exact ⟨rfl, id⟩
  · generalize Query.touch env s.db q r = r' at hs
    cases hs with
    | complete | fail | attach => exact absurd rfl hnames
    | claim lockId hst | requeue _ _ hst | failOver _ _ hst =>
      exact ⟨rfl, fun h => by rw [hst] at h; cases h⟩
    | cancel hst | cancelGroup g hg hst =>
      exact ⟨rfl, fun h => by rcases hst with hst | hst <;> rw [hst] at h <;> cases h⟩

include ho

theorem otherRows_foreign (hg : owner g = some k) :
    (q.exec env s.db).2.otherRows k g = s.db.otherRows k g := by
  obtain ⟨owner', hext, hdb, hq⟩ := issued_respects ho hi env
  refine otherRows_exec hdb hq (hext g k hg) fun hw => ?_
  obtain ⟨w, rfl, hw⟩ := job_of_writesInto ho hi hw hg
  exact ha w rfl hw

theorem pagesAre_foreign {n : ℕ} (hr : s.db.queue.lookup k = some r) (hp : r.IsParent)
    (h : PagesAre s.db k n) : PagesAre (q.exec env s.db).2 k n := by
  refine .of_lookup (Query.lookup_exec hr) fun g hg => ?_
  rw [(touch_foreign hi ha env hr).1] at hg
  have hown := ((ho.db.rows r (KTable.mem_of_lookup hr)).job_of_isParent hp).owner_eq hg
  rw [KTable.key_of_lookup hr] at hown
  rw [otherRows_foreign ho hi ha hown, h r g hr hg]

omit ha in
/-- A job that is enqueued has no pages yet. -/
theorem pagesAre_enqueue (hr : s.db.queue.lookup k = none)
    (hp : ∀ r, (q.exec env s.db).2.queue.lookup k = some r → r.IsParent) :
    PagesAre (q.exec env s.db).2 k 0 := by
  intro r g hr' hg
  have hparent := hp r hr'
  obtain ⟨hnew, -⟩ := Query.lookup_exec_of_none hr hr'
  refine otherRows_eq_zero fun b hb hbg => ?_
  have hbl := KTable.lookup_key hb
  cases hi with
  | @job w k' e log q p hw hallow =>
    generalize jobPhase log = ph at hallow
    cases hallow with
    | store =>
      cases hnew
      rcases hparent with ⟨job, hd⟩ | ⟨job, hd⟩ <;>
        simp [completedRow, queuedRow, subData, toValue, JobEnvelope.tagged] at hd
    | lookup | create | attach | close | finishGroup | finish => cases hnew
  | @request n req log q p hn hallow =>
    have hcreated (hc : handlerPhase log = .created g) : owner g = none :=
      (ho.created n g (by rw [hn]; exact hc)).2
    generalize handlerPhase log = ph at hallow hcreated
    cases hallow with
    | enqueueCrawl =>
      cases hnew
      obtain rfl := Option.some.inj hg
      rcases hb₀ : s.db.queue.lookup b.key with _ | b₀
      · obtain ⟨hbnew, -⟩ := Query.lookup_exec_of_none hb₀ hbl
        cases hbnew
        exact KTable.key_of_lookup hr'
      · rw [Query.lookup_exec hb₀, Option.some.injEq] at hbl
        have hb₁ : b₀ = b := hbl
        exact absurd (hb₁ ▸ hbg)
          (groupId_ne_of_owner_none ho.db (hcreated rfl) (KTable.mem_of_lookup hb₀))
    | enqueueBatch | enqueueExtract => cases hnew; cases hg
    | create | lookup | lookupJob | cancelJob | cancelGroupJobs | cancelGroupRow => cases hnew
  | claim | fail | requeue | failOver => cases hnew

end Foreign

/-! ## Statements of the job itself -/

/-- What a job that is claimed once has made of its row and its group, when it is at a phase. -/
def RunPhase (db : Db) (k : Key) (log : Log) : Phase → Prop
  | .failed => True
  | .start => PagesAre db k (storedPages log).length
  | .fresh g => PagesAre db k (storedPages log).length ∧ db.otherRows k g = (storedPages log).length
  | .pages g _ _ | .closing g _ => PagesAre db k (storedPages log).length ∧
      ∀ r, db.queue.lookup k = some r → r.groupId = some g
  | .closed => PagesAre db k (storedPages log).length ∧
      ∀ r, db.queue.lookup k = some r → r.status = .completed ∧ r.groupId.isSome

section Own

variable {owner : Owner} {db db' : Db} {q : Query} {r : Row} {g : Uuid} {k : Key} {e : JobEnvelope}
  {log : Log} {ρ : Reply}

theorem PagesAre.congr {n : ℕ} (h : PagesAre db k n) (hq : db'.queue = db.queue) : PagesAre db' k n := by
  intro r g hr hg
  rw [hq] at hr
  have hn := h r g hr hg
  unfold Db.otherRows at hn ⊢
  rwa [hq]

/-- A call that neither updates nor inserts leaves the queue alone. -/
theorem queue_run (hu : ∀ env, q.update? env db = none) (hn : ∀ env, q.newRow env = none) :
    ((Op.db q).run ρ db).2.queue = db.queue := by
  rcases hx : (Op.db q).executes ρ with _ | q'
  · rw [Op.run_snd_of_not_executes hx]
  · cases eq_db_of_executes hx
    rw [Op.run_snd_of_executes hx]
    rcases Query.exec_of_no_update (hu ρ.env) with hsame | ⟨r, hr, -⟩
    · exact hsame
    · rw [hn] at hr
      cases hr

theorem otherRows_attach (env : Env) (g g' : Uuid) :
    ((Query.updateJobGroup k.1 k.2 g').exec env db).2.otherRows k g = db.otherRows k g := by
  have hu : (Query.updateJobGroup k.1 k.2 g').update? env db = some (sqlUpdateJobGroup k.1 k.2 g') := rfl
  unfold Db.otherRows
  rw [Query.exec_of_update hu]
  refine KTable.count_update (sqlUpdateJobGroup k.1 k.2 g').key_set fun r _ hs => ?_
  have hk : r.key = k := by
    obtain ⟨h₁, h₂⟩ : r.id = k.1 ∧ r.createdAt = k.2 := by simpa [sqlUpdateJobGroup] using hs
    exact Prod.ext h₁ h₂
  have hk' : ((sqlUpdateJobGroup k.1 k.2 g').set r).key = k := hk
  simp [hk, hk']

/-- A row that is named is written. -/
theorem lookup_named {env : Env} {u : QueueUpdate} (hu : q.update? env db = some u)
    (hr : db.queue.lookup k = some r) (hs : u.selects r = true) :
    (q.exec env db).2.queue.lookup k = some (u.set r) := by
  rw [Query.exec_of_update hu, u.lookup_run, hr]
  simp [QueueUpdate.apply, hs]

/-- A created group has no rows. -/
theorem otherRows_created {ownerId : Uuid} {ttlMs : Int64} {group : GroupCrawlRow}
    (hdb : DbOwned owner db)
    (ha : ((Op.db (.createCrawlGroup ownerId ttlMs)).run ρ db).1 = .ok group) :
    ((Op.db (.createCrawlGroup ownerId ttlMs)).run ρ db).2.otherRows k group.id = 0 := by
  have hnone := hdb.owner_eq_none (created_run ha).1
  have hq : ((Op.db (.createCrawlGroup ownerId ttlMs)).run ρ db).2.queue = db.queue :=
    queue_run (fun _ => rfl) fun _ => rfl
  unfold Db.otherRows
  rw [hq]
  exact otherRows_eq_zero fun r hr hg => absurd hg (groupId_ne_of_owner_none hdb hnone hr)

/-- The job joins a group. -/
theorem attach_run {n : ℕ} (hr : db.queue.lookup k = some r) (hfresh : db.otherRows k g = n)
    (ha : ((Op.db (.updateJobGroup k.1 k.2 g)).run ρ db).1 = .ok ()) :
    PagesAre ((Op.db (.updateJobGroup k.1 k.2 g)).run ρ db).2 k n ∧
      ((Op.db (.updateJobGroup k.1 k.2 g)).run ρ db).2.queue.lookup k =
        some { r with groupId := some g } := by
  obtain ⟨hx, -⟩ := Op.run_ok ha
  rw [Op.run_snd_of_executes hx]
  have hk := KTable.key_of_lookup hr
  have hl : ((Query.updateJobGroup k.1 k.2 g).exec ρ.env db).2.queue.lookup k =
      some { r with groupId := some g } :=
    lookup_named (u := sqlUpdateJobGroup k.1 k.2 g) rfl hr (by simp [sqlUpdateJobGroup, ← hk, Row.key])
  refine ⟨.of_lookup hl fun g' hg' => ?_, hl⟩
  obtain rfl := Option.some.inj hg'
  rw [otherRows_attach, hfresh]

/-- The job stores a page. -/
theorem store_run {n : ℕ} {data rv : Json} {priority : Int32} {ownerId : Option Uuid}
    {ch : Option String} {row : QueueScrapeRow} (hr : db.queue.lookup k = some r)
    (hg : r.groupId = some g) (h : PagesAre db k n)
    (ha : ((Op.db (.enqueueCompleted data rv priority ownerId (some g) ch)).run ρ db).1 = .ok row) :
    PagesAre ((Op.db (.enqueueCompleted data rv priority ownerId (some g) ch)).run ρ db).2 k (n + 1) ∧
      ((Op.db (.enqueueCompleted data rv priority ownerId (some g) ch)).run ρ db).2.queue.lookup k =
        some r := by
  obtain ⟨hx, hok⟩ := Op.run_ok ha
  rw [Op.run_snd_of_executes hx]
  have hl : ((Query.enqueueCompleted data rv priority ownerId (some g) ch).exec ρ.env db).2.queue.lookup k =
      some r := by
    rw [Query.lookup_exec hr]
    rfl
  refine ⟨.of_lookup hl fun g' hg' => ?_, hl⟩
  obtain rfl : g = g' := Option.some.inj (hg.symm.trans hg')
  rw [otherRows_store hok (by rw [hr]; rfl), h r g hr hg]

/-- The job completes itself. -/
theorem complete_run {n : ℕ} {rv : Json} (hdb : DbOwned owner db)
    (hq : Respects owner ρ.env db (.completeJob k.1 k.2 rv)) (hr : db.queue.lookup k = some r)
    (hj : JobRow owner r) (h : PagesAre db k n)
    (ha : ((Op.db (.completeJob k.1 k.2 rv)).run ρ db).1 = .ok ()) :
    PagesAre ((Op.db (.completeJob k.1 k.2 rv)).run ρ db).2 k n ∧
      ((Op.db (.completeJob k.1 k.2 rv)).run ρ db).2.queue.lookup k =
        some ((sqlCompleteJob ρ.env k.1 k.2 rv).set r) := by
  obtain ⟨hx, -⟩ := Op.run_ok ha
  rw [Op.run_snd_of_executes hx]
  have hk := KTable.key_of_lookup hr
  have hl : ((Query.completeJob k.1 k.2 rv).exec ρ.env db).2.queue.lookup k =
      some ((sqlCompleteJob ρ.env k.1 k.2 rv).set r) :=
    lookup_named rfl hr (by simp [sqlCompleteJob, ← hk, Row.key])
  refine ⟨.of_lookup hl fun g' hg' => ?_, hl⟩
  have hown : owner g' = some k := by
    rw [← hk]
    exact hj.owner_eq hg'
  rw [otherRows_exec hdb hq hown fun hw => hw.elim]
  exact h r g' hr hg'

theorem runPhase_next {o : Op} {p : o.Ans → Prog Op Op.Ans (Except AppError Unit)}
    (hdb : DbOwned owner db) (he : Executing owner db k e log (.op o p)) (hgr : e.grouped = true)
    (htracked : Tracked log (jobPhase log)) (h : RunPhase db k log (jobPhase log)) :
    RunPhase (o.run ρ db).2 k (log ++ [⟨o, (o.run ρ db).1⟩]) (jobNext (jobPhase log) o (o.run ρ db).1) := by
  have hvalid := validAnswer_run ρ o db
  obtain ⟨r, hr, hj, hd⟩ := he.job
  have hallow := he.allows
  have hgroup := he.group
  have hresp (q : Query) (ho : o = .db q) : Respects owner ρ.env db q := by
    subst ho
    exact he.respects ρ.env
  generalize jobPhase log = ph at h hallow hgroup htracked
  cases hallow with
  | @lookup g hgr' hg =>
    have hq : (Op.run ρ (.db (.getCrawlGroup g)) db).2.queue = db.queue := queue_run (fun _ => rfl) fun _ => rfl
    rcases ha : (Op.run ρ (.db (.getCrawlGroup g)) db).1 with err | group
    · trivial
    · rw [ha] at hvalid
      have hid : group.id = g := hvalid
      refine ⟨by simpa [answeredPage] using h.congr hq, KTable.forall_lookup (hq ▸ hr) ?_⟩
      rw [hid, hj.groupId_eq hd hg]
  | @create ownerId ttlMs hgr' hg =>
    have hq : (Op.run ρ (.db (.createCrawlGroup ownerId ttlMs)) db).2.queue = db.queue :=
      queue_run (fun _ => rfl) fun _ => rfl
    rcases ha : (Op.run ρ (.db (.createCrawlGroup ownerId ttlMs)) db).1 with err | group
    · trivial
    · refine ⟨by simpa [answeredPage] using h.congr hq, ?_⟩
      rw [otherRows_created hdb ha]
      simp [answeredPage, htracked.2]
  | @attach g hgr' hg =>
    rcases ha : (Op.run ρ (.db (.updateJobGroup k.1 k.2 g)) db).1 with err | _
    · trivial
    · obtain ⟨hpages, hl⟩ := attach_run hr h.2 ha
      exact ⟨by simpa [answeredPage] using hpages, KTable.forall_lookup hl rfl⟩
  | crawl =>
    rcases ha : (Op.run ρ (.ext (.crawl _)) db).1 with err | results <;>
      simpa [RunPhase, answeredPage, Op.run, jobNext, ha] using h
  | join hn =>
    rcases ha : (Op.run ρ (.ext (.joinNext _ _)) db).1 with ⟨i, _ | _ | res⟩ <;>
      simpa [RunPhase, answeredPage, Op.run, jobNext, ha] using h
  | @store g u todo stored priority res =>
    rcases ha : (Op.run ρ (.db (.enqueueCompleted (subData u) (toValue res) priority none (some g) none))
      db).1 with err | row
    · trivial
    · obtain ⟨hpages, hl⟩ := store_run hr (h.2 r hr) h.1 ha
      exact ⟨by simpa [answeredPage] using hpages, KTable.forall_lookup hl (h.2 r hr)⟩
  | @close g stored =>
    have hq : (Op.run ρ (.db (.setGroupStatus g .completed)) db).2.queue = db.queue :=
      queue_run (fun _ => rfl) fun _ => rfl
    rcases ha : (Op.run ρ (.db (.setGroupStatus g .completed)) db).1 with err | _
    · trivial
    · exact ⟨by simpa [answeredPage] using h.1.congr hq, fun r' hr' => h.2 r' (hq ▸ hr')⟩
  | @finishGroup g stored =>
    rcases ha : (Op.run ρ (.db (.completeJob k.1 k.2 (summary stored.length g))) db).1 with err | _
    · trivial
    · obtain ⟨hpages, hl⟩ := complete_run hdb (hresp _ rfl) hr hj h.1 ha
      exact ⟨by simpa [answeredPage] using hpages,
        KTable.forall_lookup hl ⟨rfl, Option.isSome_of_eq_some (h.2 r hr)⟩⟩
  | await hn | finish hn => rw [hgr] at hn; cases hn
  | notify | notifyClosed => simpa [RunPhase, answeredPage, Op.run, jobNext] using h

end Own

/-! ## The first run of a job -/

/-- How far a job has come that is claimed at most once: not claimed yet; executed by one worker;
or over. -/
inductive FirstRun (k : Key) (es : List Event) (s : Sys) : Prop
  | waiting : claimCount k es = 0 → (∀ w, (s.workers w).job? ≠ some k) → PagesAre s.db k 0 →
      FirstRun k es s
  | running (w : Uuid) {e log rest} : claimCount k es = 1 → s.workers w = .executing k e log rest →
      (∀ w', w' ≠ w → (s.workers w').job? ≠ some k) → RunPhase s.db k log (jobPhase log) →
      FirstRun k es s
  | ended : claimCount k es = 1 → (∀ w e log rest, s.workers w ≠ .executing k e log rest) →
      FirstRun k es s

/-- The job has finished on its first run, with `n` pages. -/
structure FirstDone (k : Key) (n : ℕ) (s : Sys) : Prop where
  hands : ∀ w, (s.workers w).job? ≠ some k
  row : ∃ r, s.db.queue.lookup k = some r ∧ r.status = .completed ∧ r.groupId.isSome
  pages : PagesAre s.db k n

section FirstRun

variable {cfg : Config} {urls : UrlCrate} {s t : Sys} {ev : Event} {es es' : List Event} {owner : Owner}
  {k : Key} {w : Uuid} {e : JobEnvelope} {log : Log} {r : Row} {n : ℕ}
  {rest : Prog Op Op.Ans (Except AppError Unit)}

/-- The job of a parent row has pages. -/
theorem IsJobOf.grouped {db : Db} (h : IsJobOf owner db k e)
    (hp : ∀ r, db.queue.lookup k = some r → r.IsParent) : e.grouped = true := by
  obtain ⟨r, hr, -, he⟩ := h
  rcases hp r hr with ⟨job, hd⟩ | ⟨job, hd⟩
  · rw [hd] at he
    obtain ⟨job', rfl, -⟩ := fromValue_crawl he
    rfl
  · rw [hd] at he
    obtain ⟨job', rfl⟩ := fromValue_batchScrape he
    rfl

/-- What the job has made of its row and group stays while others act. -/
theorem runPhase_foreign (ho : Owned owner s) (hp : ∀ r, s.db.queue.lookup k = some r → r.IsParent)
    (he : Executing owner s.db k e log rest) (hstep : (sysLts cfg urls).step s ev t)
    (ha : ∀ w x, ev = .statement (.worker w) x → (s.workers w).job? ≠ some k)
    (h : RunPhase s.db k log (jobPhase log)) : RunPhase t.db k log (jobPhase log) := by
  rcases issued_of_step ho hstep with ⟨a, x, env, rfl, hi, ht⟩ | ⟨-, ht⟩
  · have ha' (w : Uuid) (hw : a = .worker w) : (s.workers w).job? ≠ some k := ha w x (by rw [hw])
    obtain ⟨r, hr, -⟩ := he.job
    have hpages {n : ℕ} (h : PagesAre s.db k n) : PagesAre t.db k n :=
      ht ▸ pagesAre_foreign ho hi ha' hr (hp r hr) h
    have hl : t.db.queue.lookup k = some (x.query.touch env s.db r) := ht ▸ Query.lookup_exec hr
    obtain ⟨hgroup, hst⟩ := touch_foreign hi ha' env hr
    have howner := he.group
    generalize jobPhase log = ph at h howner
    cases ph with
    | start => exact hpages h
    | fresh g => exact ⟨hpages h.1, by rw [ht, otherRows_foreign ho hi ha' (howner g rfl), h.2]⟩
    | pages g todo stored | closing g stored =>
      exact ⟨hpages h.1, KTable.forall_lookup hl (hgroup.trans (h.2 r hr))⟩
    | closed =>
      refine ⟨hpages h.1, KTable.forall_lookup hl ⟨hst (h.2 r hr).1, ?_⟩⟩
      rw [hgroup]
      exact (h.2 r hr).2
    | failed => trivial
  · exact ht ▸ h

theorem isParent_of_kept {db db' : Db} (hk : Kept db db')
    (h : ∀ r, db'.queue.lookup k = some r → r.IsParent) (r : Row) (hr : db.queue.lookup k = some r) :
    r.IsParent := by
  obtain ⟨r', hr', hd⟩ := hk.rows k r hr
  have hp := h r' hr'
  unfold Row.IsParent at hp ⊢
  rwa [hd] at hp

theorem actor_of_event {a a' : Actor} {ρ : Reply} {o : Op} {x : Executed}
    (h : s.event a ρ o = .statement a' x) : a' = a := by
  unfold Sys.event at h
  split at h <;> cases h
  rfl

theorem claims_row {ρ : Reply} (h : (s.event (.worker w) ρ (.db (.claimNextJob w))).claims k = true) :
    ∃ r, s.db.nextQueued = some r ∧ r.key = k := by
  rcases hx : (Op.db (.claimNextJob w)).executes ρ with _ | q
  · rw [Event.claims, event_of_not_executes hx] at h
    cases h
  · cases eq_db_of_executes hx
    rw [event_of_executes hx] at h
    simpa only [Event.claims, Event.executed, Option.any_some, Executed.claims, decide_eq_true_eq,
      Query.mem_affected_claimNextJob] using h

theorem afterClaim_log {a : Except AppError (Option QueueScrapeRow)}
    (h : afterClaim cfg urls a = .executing k e log rest) : log = [] := by
  unfold afterClaim at h
  split at h
  · split at h <;> cases h
    rfl
  · cases h
  · cases h

/-- A claim starts the first run. -/
theorem firstRun_claim (ho : Owned owner s) (hstep : (sysLts cfg urls).step s ev t)
    (hclaim : ev.claims k = true) (hcount : claimCount k es = 0)
    (hjob : ∀ w, (s.workers w).job? ≠ some k) (hpages : PagesAre t.db k 0) :
    FirstRun k (es ++ [ev]) t := by
  have hcount' : claimCount k (es ++ [ev]) = 1 := by rw [claimCount_append, hcount, hclaim]; rfl
  obtain ⟨w, ρ, hw, rfl, rfl⟩ := claim_of_claims ho hstep hclaim
  have hother (w' : Uuid) (hne : w' ≠ w) :
      (((s.perform ρ (.db (.claimNextJob w))).setWorker w
        (afterClaim cfg urls (Op.run ρ (.db (.claimNextJob w)) s.db).1)).workers w').job? ≠ some k := by
    rw [setWorker_workers, if_neg hne]
    exact hjob w'
  by_cases hex : ∃ e log rest,
      afterClaim cfg urls (Op.run ρ (.db (.claimNextJob w)) s.db).1 = .executing k e log rest
  · obtain ⟨e, log, rest, hws⟩ := hex
    cases afterClaim_log hws
    have hw' : ((s.perform ρ (.db (.claimNextJob w))).setWorker w
        (afterClaim cfg urls (Op.run ρ (.db (.claimNextJob w)) s.db).1)).workers w =
          .executing k e [] rest := by
      rw [setWorker_workers, if_pos rfl, hws]
    exact .running w hcount' hw' hother hpages
  · refine .ended hcount' fun w' e log rest hw' => ?_
    by_cases hne : w' = w
    · rw [setWorker_workers, if_pos hne] at hw'
      exact hex ⟨e, log, rest, hw'⟩
    · exact hother w' hne (by rw [hw']; rfl)

/-- One step of the first run, after its claim. -/
theorem firstRun_running (ho : Owned owner s)
    (hinv : LogInv (fun db _ e log => StoredInv db e log) s) (hstep : (sysLts cfg urls).step s ev t)
    (hp : ∀ r, s.db.queue.lookup k = some r → r.IsParent) (hc : ev.claims k = false)
    (hcount : claimCount k (es ++ [ev]) = 1) (hw : s.workers w = .executing k e log rest)
    (hothers : ∀ w', w' ≠ w → (s.workers w').job? ≠ some k) (h : RunPhase s.db k log (jobPhase log)) :
    FirstRun k (es ++ [ev]) t := by
  have he := ho.executing hw
  have hothers' (w' : Uuid) (hne : w' ≠ w) : (t.workers w').job? ≠ some k := fun hw' =>
    hothers w' hne (job_step hstep hw' hc).1
  have hover (hidle : ∀ e log rest, t.workers w ≠ .executing k e log rest) :
      FirstRun k (es ++ [ev]) t := by
    refine .ended hcount fun w' e' log' rest' hw' => ?_
    by_cases hne : w' = w
    · exact hidle e' log' rest' (hne ▸ hw')
    · exact hothers' w' hne (by rw [hw']; rfl)
  have hforeign (hsame : t.workers w = s.workers w) (hact : ∀ x, ev ≠ .statement (.worker w) x) :
      FirstRun k (es ++ [ev]) t := by
    refine .running w hcount (hsame.trans hw) hothers'
      (runPhase_foreign ho hp he hstep (fun w' x hev => ?_) h)
    by_cases hne : w' = w
    · exact absurd (hne ▸ hev) (hact x)
    · exact hothers w' hne
  have hother {ws : WorkerState} {w' : Uuid} {s' : Sys} (hs : s'.workers = s.workers) (hne : w ≠ w') :
      (s'.setWorker w' ws).workers w = s.workers w := by
    rw [setWorker_workers, if_neg hne, hs]
  have hactor {a : Actor} {ρ : Reply} {o : Op} (hne : a ≠ .worker w) (x : Executed) :
      s.event a ρ o ≠ .statement (.worker w) x := fun h => hne (actor_of_event h).symm
  cases sysStep_of_step hstep with
  | claim w' ρ hw' | fail w' ρ hw' =>
    have hne : w ≠ w' := by
      rintro rfl
      rw [hw] at hw'
      cases hw'
    exact hforeign (hother rfl hne) (hactor (by simpa using hne.symm))
  | @work w' ρ k' e' log' o p hw' =>
    by_cases hne : w = w'
    · subst hne
      rw [hw] at hw'
      cases hw'
      have hgr := he.job.grouped hp
      refine .running w hcount (by rw [setWorker_workers, if_pos rfl]) hothers' ?_
      rw [jobPhase_append_singleton]
      exact runPhase_next ho.db he hgr ((hinv w k e log _ hw).tracked hgr) h
    · exact hforeign (hother rfl hne) (hactor (by simpa using Ne.symm hne))
  | finish w' hw' | giveUp w' hw' | crash w' =>
    by_cases hne : w = w'
    · exact hover (by rw [setWorker_workers, if_pos hne]; simp)
    · exact hforeign (hother rfl hne) (by simp)
  | timeout w' ρ hw' =>
    by_cases hne : w = w'
    · exact hover (by rw [setWorker_workers, if_pos hne]; simp)
    · exact hforeign (hother rfl hne) (hactor (by simpa using Ne.symm hne))
  | handle | requeue | failOver => exact hforeign rfl (hactor (by simp))
  | request | respond | drop => exact hforeign rfl (by simp)

/-- Without a claim, nobody starts to execute the job. -/
theorem not_executing_step (hstep : (sysLts cfg urls).step s ev t) (hc : ev.claims k = false)
    (hidle : ∀ w e log rest, s.workers w ≠ .executing k e log rest) (w : Uuid) (e : JobEnvelope) (log : Log)
    (rest : Prog Op Op.Ans (Except AppError Unit)) : t.workers w ≠ .executing k e log rest := by
  intro hw
  obtain ⟨hjob, hfailing⟩ := job_step hstep (k := k) (w := w) (by rw [hw]; rfl) hc
  rcases hws : s.workers w with _ | ⟨k', e', log', rest'⟩ | ⟨k', reason⟩ | _
  · rw [hws] at hjob
    cases hjob
  · rw [hws] at hjob
    obtain rfl : k' = k := Option.some.inj hjob
    exact hidle w e' log' rest' hws
  · rw [hws] at hjob
    obtain rfl : k' = k := Option.some.inj hjob
    rw [hfailing reason hws] at hw
    cases hw
  · rw [hws] at hjob
    cases hjob

theorem firstRun_step (ho : Owned owner s) (hinv : LogInv (fun db _ e log => StoredInv db e log) s)
    (hstep : (sysLts cfg urls).step s ev t) (hp : ∀ r, t.db.queue.lookup k = some r → r.IsParent)
    (hcount : claimCount k (es ++ [ev]) ≤ 1) (h : FirstRun k es s) : FirstRun k (es ++ [ev]) t := by
  have hps := isParent_of_kept (kept_step hstep) hp
  have happend := claimCount_append (k := k) es ev
  -- after the one claim there is no other
  have hnoclaim (hone : claimCount k es = 1) :
      ev.claims k = false ∧ claimCount k (es ++ [ev]) = 1 := by
    by_cases hc : ev.claims k = true
    · rw [happend, hone, hc] at hcount
      simp at hcount
    · rw [Bool.not_eq_true] at hc
      exact ⟨hc, by rw [happend, hone, hc]; rfl⟩
  cases h with
  | waiting hzero hjob hpages =>
    have hpages' : PagesAre t.db k 0 := by
      rcases issued_of_step ho hstep with ⟨a, x, env, -, hi, ht⟩ | ⟨-, ht⟩
      · rw [ht]
        rcases hr : s.db.queue.lookup k with _ | r
        · exact pagesAre_enqueue ho hi hr (ht ▸ hp)
        · exact pagesAre_foreign ho hi (fun w _ => hjob w) hr (hps r hr) hpages
      · exact ht ▸ hpages
    by_cases hc : ev.claims k = true
    · exact firstRun_claim ho hstep hc hzero hjob hpages'
    · rw [Bool.not_eq_true] at hc
      refine .waiting ?_ (fun w hw => hjob w (job_step hstep hw hc).1) hpages'
      rw [happend, hzero, hc]
      rfl
  | running w hone hw hothers hphase =>
    obtain ⟨hc, hone'⟩ := hnoclaim hone
    exact firstRun_running ho hinv hstep hps hc hone' hw hothers hphase
  | ended hone hidle =>
    obtain ⟨hc, hone'⟩ := hnoclaim hone
    exact .ended hone' (not_executing_step hstep hc hidle)

/-- **A job that is claimed at most once** is at one of these stages. -/
theorem firstRun_run (h : (sysLts cfg urls).Run es t)
    (hp : ∀ r, t.db.queue.lookup k = some r → r.IsParent) (hcount : claimCount k es ≤ 1) :
    FirstRun k es t := by
  refine Lts.Run.invariant (I := fun es t => (∀ r, t.db.queue.lookup k = some r → r.IsParent) →
    claimCount k es ≤ 1 → FirstRun k es t) ?_ ?_ h hp hcount
  · rintro s rfl - -
    exact .waiting rfl (fun w hw => by cases hw) fun r g hr => by cases hr
  · intro es s ev t hrun ih hstep hp hcount
    obtain ⟨owner, ho⟩ := owned_run hrun
    refine firstRun_step ho (storedInv_run hrun) hstep hp hcount
      (ih (isParent_of_kept (kept_step hstep) hp) ?_)
    have := claimCount_append (k := k) es ev
    omega

/-- What the first run leaves behind when it finishes. -/
theorem firstDone_of_finished (hrun : (sysLts cfg urls).Run es s)
    (hstep : (sysLts cfg urls).step s (.finished w k log) t)
    (hp : ∀ r, t.db.queue.lookup k = some r → r.IsParent) (hcount : claimCount k es ≤ 1) :
    FirstDone k (scrapedUrls log).length t := by
  obtain ⟨owner, ho⟩ := owned_run hrun
  obtain ⟨e, hw, rfl⟩ := finished_of_step hstep
  cases firstRun_run hrun hp hcount with
  | waiting hzero hjob hpages => exact absurd (by rw [hw]; rfl) (hjob w)
  | ended hone hidle => exact absurd hw (hidle w e log _)
  | @running w' e' log' rest' hone hw' hothers hphase =>
    have hww : w = w' := by
      by_contra hne
      exact hothers w hne (by rw [hw]; rfl)
    subst hww
    rw [hw] at hw'
    cases hw'
    have he := ho.executing hw
    have hclosed : jobPhase log = .closed := he.follows () rfl
    have htracked := (storedInv_run hrun w k e log _ hw).tracked (he.job.grouped hp)
    rw [hclosed] at hphase htracked
    obtain ⟨r, hr, -⟩ := he.job
    have hlen : (storedPages log).length = (scrapedUrls log).length := by
      simpa using congrArg List.length htracked
    refine ⟨fun w' => ?_, ⟨r, hr, hphase.2 r hr⟩, hlen ▸ hphase.1⟩
    by_cases hne : w' = w
    · rw [setWorker_workers, if_pos hne]
      simp [WorkerState.job?]
    · rw [setWorker_workers, if_neg hne]
      exact hothers w' hne

/-- Only a queued row is claimed. -/
theorem claims_queued (ho : Owned owner s) (hstep : (sysLts cfg urls).step s ev t)
    (hr : s.db.queue.lookup k = some r) (hst : r.status ≠ .queued) : ev.claims k = false := by
  by_contra hc
  rw [Bool.not_eq_false] at hc
  obtain ⟨w, ρ, -, rfl, -⟩ := claim_of_claims ho hstep hc
  obtain ⟨r', hr', rfl⟩ := claims_row hc
  have hspec := Db.nextQueued_spec hr'
  rw [KTable.lookup_key hspec.1, Option.some.injEq] at hr
  exact hst (hr ▸ hspec.2.1)

theorem firstDone_step (ho : Owned owner s) (hstep : (sysLts cfg urls).step s ev t)
    (hp : ∀ r, t.db.queue.lookup k = some r → r.IsParent) (h : FirstDone k n s) :
    FirstDone k n t := by
  have hps := isParent_of_kept (kept_step hstep) hp
  obtain ⟨r, hr, hst, hg⟩ := h.row
  have hc := claims_queued ho hstep hr (by simp [hst])
  have hjob (w : Uuid) : (t.workers w).job? ≠ some k := fun hw => h.hands w (job_step hstep hw hc).1
  rcases issued_of_step ho hstep with ⟨a, x, env, -, hi, ht⟩ | ⟨-, ht⟩
  · have ha (w : Uuid) (_ : a = .worker w) := h.hands w
    obtain ⟨hgroup, hcompleted⟩ := touch_foreign hi ha env hr
    refine ⟨hjob, ⟨_, ht ▸ Query.lookup_exec hr, hcompleted hst, hgroup ▸ hg⟩, ?_⟩
    exact ht ▸ pagesAre_foreign ho hi ha hr (hps r hr) h.pages
  · exact ⟨hjob, ht ▸ h.row, ht ▸ h.pages⟩

theorem firstDone_run (hrun : (sysLts cfg urls).Run (es ++ .finished w k log :: es') t)
    (hp : ∀ r, t.db.queue.lookup k = some r → r.IsParent) (hcount : claimCount k es ≤ 1) :
    FirstDone k (scrapedUrls log).length t := by
  obtain ⟨s, hs, hst⟩ := hrun.split
  obtain ⟨u, hsu, hut⟩ := hst.cons
  clear hrun hst
  induction hut with
  | nil => exact firstDone_of_finished hs hsu hp hcount
  | snoc hv hstep ih =>
    obtain ⟨owner, ho⟩ := owned_run ((hs.snoc hsu).trans hv)
    exact firstDone_step ho hstep hp (ih (isParent_of_kept (kept_step hstep) hp))

/-- **The counts of a job that has finished on its first run**: its own row is counted as a page. -/
theorem counts_of_finished (hrun : (sysLts cfg urls).Run (es ++ .finished w k log :: es') t)
    (hcount : claimCount k es ≤ 1) (hr : t.db.queue.lookup k = some r) (hp : r.IsParent) :
    ∃ g, r.groupId = some g ∧ t.db.groupCounts g =
      { completed := .ofNat ((scrapedUrls log).length + 1)
        failed := 0
        pending := 0
        total := .ofNat ((scrapedUrls log).length + 1) } := by
  have hps := KTable.forall_lookup hr hp
  obtain ⟨owner, ho⟩ := owned_run hrun
  obtain ⟨-, ⟨r', hr', hst, hsome⟩, hpages⟩ := firstDone_run hrun hps hcount
  rw [hr, Option.some.injEq] at hr'
  subst hr'
  obtain ⟨g, hg⟩ := Option.isSome_iff_exists.mp hsome
  have hmem := KTable.mem_of_lookup hr
  have hsize : t.db.groupSize g = (scrapedUrls log).length + 1 := by
    rw [groupSize_eq hmem hg, KTable.key_of_lookup hr, hpages r g hr hg]
  refine ⟨g, hg, ?_⟩
  rw [counts_of_job ho.db hmem ((ho.db.rows r hmem).job_of_isParent hp) hg, hsize]
  simp [hst]

end FirstRun

/-! ## The reported counters -/

/-- The counters of a status response count the pages, of which `scraped` have been scraped and
`failed` have failed. -/
def CountsPages (body : CrawlStatusResponse) (scraped failed : ℕ) : Prop :=
  body.completed.toNat = scraped ∧ body.creditsUsed.toNat = scraped ∧ body.failed.toNat = failed ∧
    body.total.toNat = body.completed.toNat + body.failed.toNat

section Reports

variable {ρ : Reply} {job : Uuid → Except AppError QueueScrapeRow} {db : Db} {g : Uuid}
  {params : PaginationParams} {body : CrawlStatusResponse}

theorem read_db_ok {α : Type} {q : Query} {f : q.Out → Call α} {b : α}
    (hdb : (readOp ρ job (.db q) db).2 = db) (h : (Call.db q >>= f).read ρ job db = .ok b) :
    ∃ a, (readOp ρ job (.db q) db).1 = .ok a ∧ (f a).read ρ job db = .ok b := by
  rcases hr : (readOp ρ job (.db q) db).1 with e | a
  · rw [read_db_bind_error f (Prod.ext hr hdb)] at h
    cases h
  · rw [read_db_bind f (Prod.ext hr hdb)] at h
    exact ⟨a, rfl, h⟩

/-- What both handlers do once they know the group. -/
theorem read_completed (limit : Int64) (aid : Option Uuid) (ats : Option Timestamp)
    (f : GroupCrawlRow → GroupCounts → List QueueScrapeRow → CrawlStatusResponse)
    (hf : ∀ group counts rows, (f group counts rows).completed = counts.completed)
    (h : Call.read ρ job db (do
      let group ← Call.db (.getCrawlGroup g)
      let counts ← Call.db (.getGroupCounts g)
      let rows ← Call.db (.getGroupResults g limit aid ats)
      return f group counts rows) = .ok body) :
    body.completed = (db.groupCounts g).completed := by
  have hgroup : (readOp ρ job (.db (.getCrawlGroup g)) db).2 = db := by
    simp only [readOp, Query.exec, Db.getCrawlGroup]
  have hrows : (readOp ρ job (.db (.getGroupResults g limit aid ats)) db).2 = db := by
    simp only [readOp, Query.exec, Db.getGroupResults]
    split <;> rfl
  obtain ⟨group, -, h⟩ := read_db_ok hgroup h
  obtain ⟨counts, hcounts, h⟩ := read_db_ok rfl h
  obtain ⟨rows, -, h⟩ := read_db_ok hrows h
  cases hcounts
  cases h
  exact hf _ _ _

theorem crawlStatus_completed (h : (crawlStatusHandler (.ok ()) g params).read ρ job db = .ok body) :
    body.completed = (db.groupCounts g).completed :=
  read_completed _ _ _ (fun _ _ _ => _) (fun _ _ _ => rfl) ((read_pure_bind () _).symm.trans h)

theorem batchStatus_completed {id : Uuid} {row : QueueScrapeRow} (hj : job id = .ok row)
    (hg : row.groupId = some g)
    (h : (batchStatusHandler (.ok ()) id params).read ρ job db = .ok body) :
    body.completed = (db.groupCounts g).completed := by
  have h' := ((read_pure_bind () _).trans (read_db_bind _ (readOp_getJob hj))).symm.trans h
  simp only [hg] at h'
  exact read_completed _ _ _ (fun _ _ _ => _) (fun _ _ _ => rfl) h'

/-- One more than `n` is not `n`, not even as a `u32`. -/
theorem ofNat_succ_toNat_ne (n : ℕ) : (UInt32.ofNat (n + 1)).toNat ≠ n := by
  rw [UInt32.toNat_ofNat']
  omega

end Reports

/-- **The counters never count the pages** of a crawl or batch that has finished on its first run,
however many of them failed. -/
theorem not_countsPages {cfg : Config} {urls : UrlCrate} {es es' : List Event} {t : Sys} {w : Uuid}
    {k : Key} {log : Log} {r : Row} {body : CrawlStatusResponse}
    (hrun : (sysLts cfg urls).Run (es ++ .finished w k log :: es') t) (hcount : claimCount k es ≤ 1)
    (hr : t.db.queue.lookup k = some r) (hp : r.IsParent) (ρ : Reply) (params : PaginationParams)
    (failed : ℕ)
    (hbody :
      (∃ g, r.groupId = some g ∧
        (crawlStatusHandler (.ok ()) g params).read ρ t.db.latestJob t.db = .ok body) ∨
      (t.db.latestById r.id = some r ∧
        (batchStatusHandler (.ok ()) r.id params).read ρ t.db.latestJob t.db = .ok body)) :
    ¬ CountsPages body (scrapedUrls log).length failed := by
  obtain ⟨g, hg, hcounts⟩ := counts_of_finished hrun hcount hr hp
  have hcompleted : body.completed = (t.db.groupCounts g).completed := by
    rcases hbody with ⟨g', hg', h⟩ | ⟨hlatest, h⟩
    · rw [hg, Option.some.injEq] at hg'
      exact hg' ▸ crawlStatus_completed h
    · have hjob : t.db.latestJob r.id = .ok (mapQueueRow r) := ?_
      exact batchStatus_completed hjob hg h
      simp only [Db.latestJob, Db.getJob, hlatest]
  rintro ⟨h, -⟩
  rw [hcompleted, hcounts] at h
  exact ofNat_succ_toNat_ne _ h

section Schedule

/-- A crawl of one page, on one worker. -/
def finishedCrawl : List Choice :=
  [.request 0 .sampleCrawl, .handle 0 (.ok 0 1), .handle 0 (.ok 0 2), .work 9 (.ok 1 0),
    .work 9 (.ok 2 0), .work 9 (.ok 3 0 [samplePage]), .work 9 (.ok 4 5), .work 9 (.ok 5 0),
    .work 9 (.ok 6 0), .work 9 (.ok 7 0)]

/-- The job and the scraped URLs of a `finished` event. -/
def Event.finishedUrls : Event → Option (Key × List String)
  | .finished _ k log => some (k, scrapedUrls log)
  | _ => none

theorem claimCount_le (k : Key) (es es' : List Event) : claimCount k es ≤ claimCount k (es ++ es') := by
  unfold claimCount
  rw [List.filterMap_append, List.countP_append]
  exact Nat.le_add_right _ _

theorem finishedCrawl_run : ∃ es w log es' t r body,
    (sysLts .sample .sample).Run (es ++ .finished w (2, 0) log :: es') t ∧ claimCount (2, 0) es ≤ 1 ∧
      t.db.queue.lookup (2, 0) = some r ∧ r.IsParent ∧ r.groupId = some 1 ∧
      (crawlStatusHandler (.ok ()) 1 ⟨none, none, none⟩).read (.ok 8 0) t.db.latestJob t.db = .ok body ∧
      scrapedUrls log = [samplePage.url] ∧ body.completed = 2 := by
  let columns (s : Sys) :=
    ((s.db.queue.lookup (2, 0)).map fun r => (r.groupId, r.data),
      ((crawlStatusHandler (.ok ()) 1 ⟨none, none, none⟩).read (.ok 8 0)
        s.db.latestJob s.db).toOption.map CrawlStatusResponse.completed)
  obtain ⟨es, s, es', t, hs, ht, -, hobs⟩ := sampleRun_split finishedCrawl []
    (f := fun _ => ()) (a := ())
    (g := fun p => (p.1.filterMap Event.finishedUrls, claimCount (2, 0) p.1, columns p.2))
    (b := ([((2, 0), [samplePage.url])], 1,
      some (some 1, some (toValue (JobEnvelope.crawl sampleCrawlJob))), some 2)) rfl rfl
  simp only [columns, Prod.mk.injEq, Option.map_eq_some_iff] at hobs
  obtain ⟨hfin, hcount, ⟨r, hr, hg, hd⟩, body, hbody, hcompleted⟩ := hobs
  have hmem : ((2, 0), [samplePage.url]) ∈ (es ++ es').filterMap Event.finishedUrls := by
    rw [hfin]
    exact List.mem_singleton_self _
  obtain ⟨ev, hev, hurls⟩ := List.mem_filterMap.mp hmem
  obtain ⟨es₁, es₂, heq⟩ := List.append_of_mem hev
  have hrun := hs.trans ht
  rw [heq] at hrun hcount
  cases ev with
  | finished w k log =>
    simp only [Event.finishedUrls, Option.some.injEq, Prod.mk.injEq] at hurls
    obtain ⟨rfl, hurls⟩ := hurls
    refine ⟨es₁, w, log, es₂, t, r, body, hrun, ?_, hr, .inl ⟨_, hd⟩, hg, ?_, hurls, hcompleted⟩
    · exact (claimCount_le _ es₁ _).trans hcount.le
    · revert hbody
      generalize (crawlStatusHandler (.ok ()) 1 ⟨none, none, none⟩).read _ _ _ = res
      intro hbody
      cases res with
      | ok body' => exact congrArg Except.ok (Option.some.inj hbody)
      | error e => cases hbody
  | statement | external | other | responded => cases hurls

theorem not_countsPages_crawl : ∃ es w log es' t r body,
    (sysLts .sample .sample).Run (es ++ .finished w (2, 0) log :: es') t ∧ claimCount (2, 0) es ≤ 1 ∧
      t.db.queue.lookup (2, 0) = some r ∧ r.IsParent ∧ r.groupId = some 1 ∧
      (crawlStatusHandler (.ok ()) 1 ⟨none, none, none⟩).read (.ok 8 0) t.db.latestJob t.db = .ok body ∧
      ¬ CountsPages body (scrapedUrls log).length 0 := by
  obtain ⟨es, w, log, es', t, r, body, hrun, hcount, hr, hp, hg, hbody, -⟩ := finishedCrawl_run
  exact ⟨es, w, log, es', t, r, body, hrun, hcount, hr, hp, hg, hbody,
    not_countsPages hrun hcount hr hp (.ok 8 0) ⟨none, none, none⟩ 0 (.inl ⟨1, hg, hbody⟩)⟩

/-- The crawl of one page reports two. -/
theorem not_finished_countsPages : ¬ ∀ (cfg : Config) (urls : UrlCrate) (es : List Event) (w : Uuid)
    (k : Key) (log : Log) (es' : List Event) (t : Sys) (r : Row) (ρ : Reply) (params : PaginationParams)
    (body : CrawlStatusResponse),
    (sysLts cfg urls).Run (es ++ .finished w k log :: es') t → claimCount k es ≤ 1 →
    t.db.queue.lookup k = some r → r.IsParent →
    ((∃ g, r.groupId = some g ∧
        (crawlStatusHandler (.ok ()) g params).read ρ t.db.latestJob t.db = .ok body) ∨
      (t.db.latestById r.id = some r ∧
        (batchStatusHandler (.ok ()) r.id params).read ρ t.db.latestJob t.db = .ok body)) →
    ∃ failed, CountsPages body (scrapedUrls log).length failed := by
  intro h
  obtain ⟨es, w, log, es', t, r, body, hrun, hcount, hr, hp, hg, hbody, hurls, hcompleted⟩ :=
    finishedCrawl_run
  obtain ⟨failed, hpages, -⟩ := h _ _ es w _ log es' t r _ _ body hrun hcount hr hp (.inl ⟨1, hg, hbody⟩)
  rw [hcompleted, hurls] at hpages
  exact absurd hpages (by decide)

end Schedule

end FireCtrl
