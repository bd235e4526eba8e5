import FireCtrl.Queue.Database

/-!
# What the statements do

A fact about the queue is a fact about its rows one by one, so each statement is described by what it
does to one row.

* `Query.lookup_exec`: a row that is there is replaced by its image under `Query.touch`;
  `Query.lookup_exec_of_none`: a row that was not there is the one the statement inserts.
  `Query.mem_exec`: there are no others.
* `RowStep`: the ways a statement can change a row; **`Query.touch_step`** is the only place where
  the statements are unfolded, and every invariant of the queue is a case analysis on `RowStep`.
* `Query.lookup_groups_exec`: the same for the groups.
-/

namespace FireCtrl

theorem Row.ext_key {t : KTable Row.key} {r r' : Row} (h : r ∈ t) (h' : r' ∈ t)
    (hid : r.id = r'.id) (hc : r.createdAt = r'.createdAt) : r = r' :=
  KTable.eq_of_key_eq h h' (Prod.ext hid hc)

namespace QueueUpdate

variable (u : QueueUpdate) (db : Db) {k : Key} {r : Row}

@[simp] theorem key_apply (r : Row) : (u.apply r).key = r.key := by
  unfold apply; split_ifs
  · exact u.key_set r
  · rfl

@[simp] theorem run_groups : (u.run db).groups = db.groups := rfl

theorem lookup_run : (u.run db).queue.lookup k = (db.queue.lookup k).map u.apply :=
  @KTable.lookup_update _ _ Row.key u.selects u.set u.key_set _ db.queue k

theorem mem_affected : k ∈ u.affected db ↔ ∃ r, db.queue.lookup k = some r ∧ u.selects r = true :=
  KTable.mem_keysWhere_iff_lookup

end QueueUpdate

namespace Db

variable {db : Db} {r : Row}

theorem nextQueued_spec (h : db.nextQueued = some r) :
    r ∈ db.queue ∧ r.status = .queued ∧
      ∀ r' ∈ db.queue, r'.status = .queued → claimOrder r ≤ claimOrder r' := by
  obtain ⟨hm, hp, hle⟩ := KTable.head?_orderBy _ h
  exact ⟨hm, by simpa using hp, fun r' hr' hq => hle r' hr' (by simpa using hq)⟩

theorem latestById_spec {id : Uuid} (h : db.latestById id = some r) :
    r ∈ db.queue ∧ r.id = id ∧ ∀ r' ∈ db.queue, r'.id = id → r'.createdAt ≤ r.createdAt := by
  obtain ⟨hm, hp, hle⟩ := KTable.head?_orderBy _ h
  exact ⟨hm, by simpa using hp, fun r' hr' hid => hle r' hr' (by simpa using hid)⟩

theorem latestById_iff {id : Uuid} :
    db.latestById id = some r ↔
      r ∈ db.queue ∧ r.id = id ∧ ∀ r' ∈ db.queue, r'.id = id → r'.createdAt ≤ r.createdAt := by
  unfold latestById
  rw [KTable.head?_orderBy_iff]
  · simp
  · intro a ha b hb hpa hpb hab
    have hida : a.id = id := by simpa using hpa
    have hidb : b.id = id := by simpa using hpb
    exact Row.ext_key ha hb (hida.trans hidb.symm) hab

theorem latestById_eq_none {id : Uuid} : db.latestById id = none ↔ ∀ r ∈ db.queue, r.id ≠ id := by
  unfold latestById
  rw [List.head?_eq_none_iff, List.eq_nil_iff_forall_not_mem]
  simp [KTable.mem_orderBy]

end Db

namespace Query

/-! ## The effect of a statement on the queue -/

/-- The update of the queue that a statement performs. -/
def update? (env : Env) (db : Db) : Query → Option QueueUpdate
  | claimNextJob lockId => some (sqlClaimNextJob env lockId db)
  | completeJob id createdAt rv => some (sqlCompleteJob env id createdAt rv)
  | failJob id createdAt reason => some (sqlFailJob env id createdAt reason)
  | cancelJob id => some (sqlCancelJobLatestById env id db)
  | cancelGroupJobs id => some (sqlCancelGroupJobs env id)
  | updateJobGroup id createdAt g => some (sqlUpdateJobGroup id createdAt g)
  | requeueStalledJobs staleAfter =>
    if requeueError env staleAfter db = none then some (sqlRequeueStalledJobs env staleAfter)
    else none
  | failOverStalledJobs maxStalls => some (sqlFailOverStalledJobs env maxStalls)
  | _ => none

/-- The row that a statement tries to insert. -/
def newRow (env : Env) : Query → Option Row
  | enqueue data priority ownerId groupId ch =>
    some (queuedRow env data priority ownerId groupId ch)
  | enqueueCompleted data rv priority ownerId groupId ch =>
    some (completedRow env data rv priority ownerId groupId ch)
  | _ => none

/-- What a statement makes of a row that is there. -/
def touch (env : Env) (db : Db) (q : Query) (r : Row) : Row :=
  match q.update? env db with
  | some u => u.apply r
  | none => r

/-- The keys of the rows that a statement writes. -/
def affected (env : Env) (db : Db) (q : Query) : List Key :=
  match q.update? env db with
  | some u => u.affected db
  | none => []

variable {env : Env} {db : Db} {q : Query} {k : Key} {r r' : Row}

theorem exec_of_update {u : QueueUpdate} (h : q.update? env db = some u) :
    (q.exec env db).2 = u.run db := by
  cases q with
  | requeueStalledJobs staleAfter =>
    simp only [update?] at h
    split_ifs at h with he
    cases h
    simp only [exec, Db.requeueStalledJobs, he]
  | claimNextJob | completeJob | failJob | cancelJob | cancelGroupJobs | updateJobGroup
  | failOverStalledJobs => cases h; rfl
  | enqueue | enqueueCompleted | getJob | getGroupResults | getGroupCounts | createCrawlGroup
  | getCrawlGroup | setGroupStatus | cancelGroupRow | getActiveGroups => cases h

theorem insertRow_queue (r : Row) (env : Env) (db : Db) :
    (Db.insertRow r env db).2.queue = db.queue ∨
      db.queue.insert? r = some (Db.insertRow r env db).2.queue := by
  unfold Db.insertRow
  rcases h : db.queue.insert? r with _ | queue
  · exact .inl rfl
  · exact .inr rfl

/-- A statement that does not update the queue leaves it alone or inserts its new row. -/
theorem exec_of_no_update (h : q.update? env db = none) :
    (q.exec env db).2.queue = db.queue ∨
      ∃ r, q.newRow env = some r ∧ db.queue.insert? r = some (q.exec env db).2.queue := by
  cases q with
  | enqueue | enqueueCompleted =>
    exact (insertRow_queue _ env db).imp_right fun h => ⟨_, rfl, h⟩
  | requeueStalledJobs staleAfter =>
    simp only [update?] at h
    split_ifs at h with he
    obtain ⟨e, he⟩ := Option.ne_none_iff_exists'.mp he
    simp [exec, Db.requeueStalledJobs, he]
  | getGroupResults g limit aid ats =>
    simp only [exec, Db.getGroupResults]; split_ifs <;> exact .inl rfl
  | createCrawlGroup ownerId ttlMs =>
    simp only [exec, Db.createCrawlGroup]
    split_ifs
    · exact .inl rfl
    · split <;> exact .inl rfl
  | getJob | getGroupCounts | getCrawlGroup | setGroupStatus | cancelGroupRow
  | getActiveGroups => exact .inl rfl
  | claimNextJob | completeJob | failJob | cancelJob | cancelGroupJobs | updateJobGroup
  | failOverStalledJobs => cases h

/-- A row that is there is replaced by what the statement makes of it. -/
theorem lookup_exec (h : db.queue.lookup k = some r) :
    (q.exec env db).2.queue.lookup k = some (q.touch env db r) := by
  unfold touch
  rcases hu : q.update? env db with _ | u
  · rcases exec_of_no_update hu with hq | ⟨r₀, -, hi⟩
    · rw [hq, h]
    · exact KTable.lookup_insert?_of_some hi h
  · rw [exec_of_update hu, u.lookup_run, h]; rfl

/-- A row that was not there is the one the statement inserts. -/
theorem lookup_exec_of_none (h : db.queue.lookup k = none)
    (h' : (q.exec env db).2.queue.lookup k = some r) : q.newRow env = some r ∧ r.key = k := by
  rcases hu : q.update? env db with _ | u
  · rcases exec_of_no_update hu with hq | ⟨r₀, hr, hi⟩
    · rw [hq, h] at h'; cases h'
    · rw [KTable.lookup_insert? hi] at h'
      split_ifs at h' with hk
      · cases h'; exact ⟨hr, hk⟩
      · rw [h] at h'; cases h'
  · rw [exec_of_update hu, u.lookup_run, h] at h'; cases h'

/-- A row of the queue after a statement is new, or what the statement made of a row. -/
theorem mem_exec {r' : Row} (h : r' ∈ (q.exec env db).2.queue) :
    (db.queue.lookup r'.key = none ∧ q.newRow env = some r') ∨
      ∃ r, db.queue.lookup r'.key = some r ∧ q.touch env db r = r' := by
  have hl := KTable.lookup_key h
  cases hr : db.queue.lookup r'.key with
  | none => exact .inl ⟨rfl, (lookup_exec_of_none hr hl).1⟩
  | some r =>
    rw [lookup_exec hr, Option.some.injEq] at hl
    exact .inr ⟨r, rfl, hl⟩

theorem mem_affected :
    k ∈ q.affected env db ↔
      ∃ u r, q.update? env db = some u ∧ db.queue.lookup k = some r ∧ u.selects r = true := by
  unfold affected
  rcases q.update? env db with _ | u
  · simp
  · simp [u.mem_affected]

/-! ## The ways a row can change -/

/-- `RowStep env q r r'`: executed at `env`, the statement `q` writes the row `r`, making it `r'`. -/
inductive RowStep (env : Env) : Query → Row → Row → Prop
  | claim {r : Row} (lockId : Uuid) : r.status = .queued →
      RowStep env (claimNextJob lockId) r
        { r with status := .active, lock := some lockId, lockedAt := some env.now }
  | complete {r : Row} (rv : Json) :
      RowStep env (completeJob r.id r.createdAt rv) r
        { r with status := .completed, returnvalue := some rv, finishedAt := some env.now,
                 lock := none, lockedAt := none }
  | fail {r : Row} (reason : String) :
      RowStep env (failJob r.id r.createdAt reason) r
        { r with status := .failed, failedreason := some reason, finishedAt := some env.now,
                 lock := none, lockedAt := none }
  | cancel {r : Row} : r.status = .queued ∨ r.status = .active →
      RowStep env (cancelJob r.id) r
        { r with status := .cancelled, finishedAt := some env.now, lock := none, lockedAt := none }
  | cancelGroup {r : Row} (g : Uuid) : r.groupId = some g → r.status = .queued ∨ r.status = .active →
      RowStep env (cancelGroupJobs g) r
        { r with status := .cancelled, finishedAt := some env.now, lock := none, lockedAt := none }
  | attach {r : Row} (g : Uuid) :
      RowStep env (updateJobGroup r.id r.createdAt g) r { r with groupId := some g }
  | requeue {r : Row} (staleAfter : UInt64) (t : Timestamp) : r.status = .active →
      r.lockedAt = some t → t < env.now - staleAfter.toNat * 10 ^ 6 →
      RowStep env (requeueStalledJobs staleAfter) r
        { r with status := .queued, lock := none, lockedAt := none,
                 stalls := some (r.stalls.getD 0 + 1) }
  | failOver {r : Row} (maxStalls : Int32) (n : ℤ) : r.status = .queued → r.stalls = some n →
      maxStalls.toInt ≤ n →
      RowStep env (failOverStalledJobs maxStalls) r
        { r with status := .failed, failedreason := some "exceeded maximum stall count",
                 finishedAt := some env.now }

theorem rowStep_of_selects {u : QueueUpdate} (hu : q.update? env db = some u) (hr : r ∈ db.queue)
    (hs : u.selects r = true) : RowStep env q r (u.set r) := by
  cases q with
  | claimNextJob lockId =>
    cases hu
    obtain ⟨r₀, h₀, hk⟩ : ∃ r₀, db.nextQueued = some r₀ ∧ r₀.key = r.key := by
      simpa [sqlClaimNextJob] using hs
    obtain ⟨hm, hq, -⟩ := Db.nextQueued_spec h₀
    have hrr : r₀ = r := KTable.eq_of_key_eq hm hr hk
    subst hrr
    exact .claim lockId hq
  | completeJob id createdAt rv =>
    cases hu
    obtain ⟨rfl, rfl⟩ : r.id = id ∧ r.createdAt = createdAt := by simpa [sqlCompleteJob] using hs
    exact .complete rv
  | failJob id createdAt reason =>
    cases hu
    obtain ⟨rfl, rfl⟩ : r.id = id ∧ r.createdAt = createdAt := by simpa [sqlFailJob] using hs
    exact .fail reason
  | cancelJob id =>
    cases hu
    obtain ⟨⟨r₀, h₀, hk⟩, hst⟩ : (∃ r₀, db.latestById id = some r₀ ∧ r₀.key = r.key) ∧
        (r.status = .queued ∨ r.status = .active) := by
      simpa [sqlCancelJobLatestById] using hs
    obtain ⟨hm, rfl, -⟩ := Db.latestById_spec h₀
    have hrr : r₀ = r := KTable.eq_of_key_eq hm hr hk
    subst hrr
    exact .cancel hst
  | cancelGroupJobs g =>
    cases hu
    obtain ⟨hg, hst⟩ : r.groupId = some g ∧ (r.status = .queued ∨ r.status = .active) := by
      simpa [sqlCancelGroupJobs] using hs
    exact .cancelGroup g hg hst
  | updateJobGroup id createdAt g =>
    cases hu
    obtain ⟨rfl, rfl⟩ : r.id = id ∧ r.createdAt = createdAt := by
      simpa [sqlUpdateJobGroup] using hs
    exact .attach g
  | requeueStalledJobs staleAfter =>
    simp only [update?] at hu
    split_ifs at hu
    cases hu
    obtain ⟨hst, t, ht, hlt⟩ : r.status = .active ∧ ∃ t, r.lockedAt = some t ∧
        t < env.now - staleAfter.toNat * 10 ^ 6 := by
      simpa [sqlRequeueStalledJobs, Option.any_eq_true] using hs
    exact .requeue staleAfter t hst ht hlt
  | failOverStalledJobs maxStalls =>
    cases hu
    obtain ⟨hst, n, hn, hle⟩ : r.status = .queued ∧ ∃ n, r.stalls = some n ∧
        maxStalls.toInt ≤ n := by
      simpa [sqlFailOverStalledJobs, Option.any_eq_true] using hs
    exact .failOver maxStalls n hst hn hle
  | enqueue | enqueueCompleted | getJob | getGroupResults | getGroupCounts | createCrawlGroup
  | getCrawlGroup | setGroupStatus | cancelGroupRow | getActiveGroups => cases hu

/-- **What a statement does to a row**: nothing, unless it is among the affected ones. -/
theorem touch_step (q : Query) (env : Env) (h : db.queue.lookup k = some r) :
    k ∉ q.affected env db ∧ q.touch env db r = r ∨
      k ∈ q.affected env db ∧ RowStep env q r (q.touch env db r) := by
  rw [mem_affected]
  unfold touch
  rcases hu : q.update? env db with _ | u
  · exact .inl ⟨by simp, rfl⟩
  · simp only [Option.some.injEq, h, exists_and_left, exists_eq_left']
    unfold QueueUpdate.apply
    by_cases hs : u.selects r = true
    · rw [if_pos hs]
      exact .inr ⟨hs, rowStep_of_selects hu (KTable.mem_of_lookup h) hs⟩
    · rw [if_neg hs]
      exact .inl ⟨hs, rfl⟩

/-- The columns that no statement ever rewrites. -/
theorem RowStep.fixed (h : RowStep env q r r') :
    r'.id = r.id ∧ r'.createdAt = r.createdAt ∧ r'.data = r.data ∧ r'.priority = r.priority := by
  cases h <;> exact ⟨rfl, rfl, rfl, rfl⟩

theorem touch_fixed (q : Query) (env : Env) (h : db.queue.lookup k = some r) :
    (q.touch env db r).id = r.id ∧ (q.touch env db r).createdAt = r.createdAt ∧
      (q.touch env db r).data = r.data ∧ (q.touch env db r).priority = r.priority := by
  rcases touch_step q env h with ⟨-, heq⟩ | ⟨-, hs⟩
  · rw [heq]
    exact ⟨rfl, rfl, rfl, rfl⟩
  · exact hs.fixed

/-! ## The effect of a statement on the groups -/

/-- What a statement makes of a group that is there. -/
def touchGroup (q : Query) (g : GroupCrawlRow) : GroupCrawlRow :=
  match q with
  | setGroupStatus id status => if g.id = id then { g with status } else g
  | cancelGroupRow id => if g.id = id then { g with status := .cancelled } else g
  | _ => g

theorem lookup_updateGroup (id g : Uuid) (status : GroupStatus) :
    (db.updateGroup id status).groups.lookup g =
      (db.groups.lookup g).map fun row => if row.id = id then { row with status } else row := by
  unfold Db.updateGroup
  rw [KTable.lookup_update]
  simp

theorem insertRow_groups (r : Row) (env : Env) (db : Db) :
    (Db.insertRow r env db).2.groups = db.groups := by
  unfold Db.insertRow; split <;> rfl

/-- A group that `create_crawl_group` returns is new. -/
theorem createCrawlGroup_ok {ownerId : Uuid} {ttlMs : Int64} {g : GroupCrawlRow}
    (h : ((createCrawlGroup ownerId ttlMs).exec env db).1 = .ok g) :
    db.groups.lookup g.id = none ∧ g.status = .active ∧
      ∀ id, ((createCrawlGroup ownerId ttlMs).exec env db).2.groups.lookup id =
        if g.id = id then some g else db.groups.lookup id := by
  simp only [exec, Db.createCrawlGroup] at h ⊢
  split_ifs at h ⊢
  rcases hi : db.groups.insert? _ with _ | groups
  · rw [hi] at h; cases h
  · rw [hi] at h
    simp only [Except.ok.injEq] at h
    subst h
    exact ⟨(KTable.insert?_eq_some.mp hi).1, rfl, KTable.lookup_insert? hi⟩

theorem createCrawlGroup_error {ownerId : Uuid} {ttlMs : Int64} {e : AppError}
    (h : ((createCrawlGroup ownerId ttlMs).exec env db).1 = .error e) :
    ((createCrawlGroup ownerId ttlMs).exec env db).2 = db := by
  simp only [exec, Db.createCrawlGroup] at h ⊢
  split_ifs at h ⊢
  · rfl
  · split at h
    · cases h
    · rfl

/-- A statement rewrites the groups one by one, or creates an active one and returns it. -/
theorem lookup_groups_exec_cases (env : Env) (db : Db) (q : Query) (id : Uuid) :
    (q.exec env db).2.groups.lookup id = (db.groups.lookup id).map q.touchGroup ∨
      db.groups.lookup id = none ∧ ∃ g, (q.exec env db).2.groups.lookup id = some g ∧
        g.status = .active ∧ ∃ ownerId ttlMs, q = .createCrawlGroup ownerId ttlMs ∧
          ((createCrawlGroup ownerId ttlMs).exec env db).1 = .ok g := by
  have hkeep (h : (q.exec env db).2.groups = db.groups) (ht : ∀ g, q.touchGroup g = g) :
      (q.exec env db).2.groups.lookup id = (db.groups.lookup id).map q.touchGroup := by
    rw [h, funext ht, Option.map_id']
  cases q with
  | setGroupStatus id' status => exact .inl (lookup_updateGroup id' id status)
  | cancelGroupRow id' => exact .inl (lookup_updateGroup id' id .cancelled)
  | createCrawlGroup ownerId ttlMs =>
    rcases ha : ((createCrawlGroup ownerId ttlMs).exec env db).1 with e | g
    · exact .inl (hkeep (by rw [createCrawlGroup_error ha]) fun _ => rfl)
    · obtain ⟨hn, hst, hl⟩ := createCrawlGroup_ok ha
      by_cases hid : g.id = id
      · exact .inr ⟨hid ▸ hn, g, by rw [hl, if_pos hid], hst, ownerId, ttlMs, rfl, ha⟩
      · have ht : ∀ g, (createCrawlGroup ownerId ttlMs).touchGroup g = g := fun _ => rfl
        exact .inl (by rw [hl, if_neg hid, funext ht, Option.map_id'])
  | enqueue | enqueueCompleted => exact .inl (hkeep (insertRow_groups _ env db) fun _ => rfl)
  | requeueStalledJobs =>
    refine .inl (hkeep ?_ fun _ => rfl)
    simp only [exec, Db.requeueStalledJobs]
    split <;> rfl
  | getGroupResults =>
    refine .inl (hkeep ?_ fun _ => rfl)
    simp only [exec, Db.getGroupResults]
    split_ifs <;> rfl
  | claimNextJob | completeJob | failJob | cancelJob | getJob | getGroupCounts | getCrawlGroup
  | cancelGroupJobs | updateJobGroup | failOverStalledJobs | getActiveGroups =>
    exact .inl (hkeep rfl fun _ => rfl)

/-- A group that is there is replaced by what the statement makes of it. -/
theorem lookup_groups_exec {id : Uuid} {g : GroupCrawlRow} (h : db.groups.lookup id = some g) :
    (q.exec env db).2.groups.lookup id = some (q.touchGroup g) := by
  rcases lookup_groups_exec_cases env db q id with hl | ⟨hn, -⟩
  · rw [hl, h]; rfl
  · rw [h] at hn; cases hn

/-- Groups are never deleted. -/
theorem groups_isSome_exec {g : Uuid} (h : (db.groups.lookup g).isSome) :
    ((q.exec env db).2.groups.lookup g).isSome := by
  obtain ⟨row, hrow⟩ := Option.isSome_iff_exists.mp h
  rw [lookup_groups_exec hrow]
  rfl

/-- A group that was not there is created active. -/
theorem lookup_groups_exec_of_none {id : Uuid} {g : GroupCrawlRow} (h : db.groups.lookup id = none)
    (h' : (q.exec env db).2.groups.lookup id = some g) : g.status = .active := by
  rcases lookup_groups_exec_cases env db q id with hl | ⟨-, g', hl, hst, -⟩
  · rw [hl, h] at h'; cases h'
  · rw [hl, Option.some.injEq] at h'
    exact h' ▸ hst

/-! ## Answers -/

/-- A row that an insertion returns is its new row, which was not there before. -/
theorem insertRow_ok (env : Env) {row : QueueScrapeRow} (h : (Db.insertRow r env db).1 = .ok row) :
    row = mapQueueRow r ∧ db.queue.lookup r.key = none ∧
      (Db.insertRow r env db).2.queue.lookup r.key = some r := by
  unfold Db.insertRow at h ⊢
  rcases hi : db.queue.insert? r with _ | queue
  · rw [hi] at h; cases h
  · rw [hi] at h
    cases h
    refine ⟨rfl, (KTable.insert?_eq_some.mp hi).1, ?_⟩
    simp [KTable.lookup_insert? hi]

theorem insertRow_ok_insert (env : Env) {row : QueueScrapeRow} (h : (Db.insertRow r env db).1 = .ok row) :
    db.queue.insert? r = some (Db.insertRow r env db).2.queue := by
  unfold Db.insertRow at h ⊢
  rcases hi : db.queue.insert? r with _ | queue
  · rw [hi] at h; cases h
  · rfl

theorem mem_affected_claimNextJob {lockId : Uuid} :
    k ∈ (claimNextJob lockId).affected env db ↔ ∃ r, db.nextQueued = some r ∧ r.key = k := by
  rw [mem_affected]
  constructor
  · rintro ⟨u, r, hu, hr, hs⟩
    cases hu
    obtain ⟨r₀, h₀, hk⟩ : ∃ r₀, db.nextQueued = some r₀ ∧ r₀.key = r.key := by
      simpa [sqlClaimNextJob] using hs
    exact ⟨r₀, h₀, hk.trans (KTable.key_of_lookup hr)⟩
  · rintro ⟨r, hr, rfl⟩
    refine ⟨_, r, rfl, KTable.lookup_key (Db.nextQueued_spec hr).1, ?_⟩
    simp [sqlClaimNextJob, hr]

/-- What `claim_next_job` returns: the next queued row, as it is after the claim. -/
theorem claimNextJob_some {lockId : Uuid} {row : QueueScrapeRow}
    (h : ((claimNextJob lockId).exec env db).1 = .ok (some row)) :
    ∃ r, db.nextQueued = some r ∧ row = mapQueueRow ((claimNextJob lockId).touch env db r) := by
  obtain ⟨r', hr', rfl⟩ : ∃ r', ((sqlClaimNextJob env lockId db).returning db).head? = some r' ∧
      mapQueueRow r' = row := by
    simpa [exec, Db.claimNextJob] using h
  obtain ⟨r, ⟨hr, hs⟩, rfl⟩ : ∃ r, (r ∈ db.queue ∧ (sqlClaimNextJob env lockId db).selects r = true) ∧
      (sqlClaimNextJob env lockId db).set r = r' := by
    simpa [QueueUpdate.returning] using List.mem_of_mem_head? (Option.mem_def.mpr hr')
  obtain ⟨r₀, h₀, hk⟩ : ∃ r₀, db.nextQueued = some r₀ ∧ r₀.key = r.key := by
    simpa [sqlClaimNextJob] using hs
  have hrr : r₀ = r := KTable.eq_of_key_eq (Db.nextQueued_spec h₀).1 hr hk
  subst hrr
  refine ⟨r₀, h₀, ?_⟩
  simp only [touch, update?, QueueUpdate.apply, if_pos hs]

end Query

end FireCtrl
