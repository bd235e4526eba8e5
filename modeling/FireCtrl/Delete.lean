import FireCtrl.System.Model

/-!
# Cancelling a crawl or batch

`DELETE` looks for a group of the given id and, where there is none, for a job, whose group it cancels
before the job itself.

* `Call.alone`: a call that no one disturbs; `crawlCancel_group`, `crawlCancel_missing`,
  `crawlCancel_job`: what the handler then does.
* `AllOrNothing`: it succeeds on what can be cancelled, and an error leaves the tables unchanged.
  **`allOrNothing_iff`**: exactly when the group of the job leaves its rows alone, since the rows that
  the group takes along include the job's own, which is then no longer found.
-/

namespace FireCtrl

/-! ## Updates -/

namespace QueueUpdate

variable {u : QueueUpdate} {db : Db} {r : Row} {id : Uuid}

theorem run_eq_self (h : ∀ r ∈ db.queue, u.selects r = false) : u.run db = db := by
  unfold run
  rw [KTable.update_eq_self fun r hr hs => by rw [h r hr] at hs; cases hs]

theorem affected_eq_nil (h : ∀ r ∈ db.queue, u.selects r = false) : u.affected db = [] := by
  rw [affected, KTable.keysWhere, List.filter_eq_nil_iff.mpr fun r hr => by simp [h r hr]]
  rfl

theorem apply_id (r : Row) : (u.apply r).id = r.id := congrArg Prod.fst (u.key_apply r)

theorem apply_createdAt (r : Row) : (u.apply r).createdAt = r.createdAt :=
  congrArg Prod.snd (u.key_apply r)

theorem mem_run {r' : Row} : r' ∈ (u.run db).queue ↔ ∃ r ∈ db.queue, u.apply r = r' :=
  @KTable.mem_update _ _ Row.key u.selects u.set u.key_set db.queue r'

/-- What an update makes of the newest row of an id is the newest row afterwards. -/
theorem latestById_run (h : db.latestById id = some r) :
    (u.run db).latestById id = some (u.apply r) := by
  obtain ⟨hr, hid, hmax⟩ := Db.latestById_iff.mp h
  refine Db.latestById_iff.mpr ⟨mem_run.mpr ⟨r, hr, rfl⟩, (apply_id r).trans hid, ?_⟩
  intro r' hr' hid'
  obtain ⟨r₀, hr₀, rfl⟩ := mem_run.mp hr'
  rw [apply_createdAt, apply_createdAt]
  exact hmax r₀ hr₀ ((apply_id r₀).symm.trans hid')

end QueueUpdate

/-! ## Calls that no one disturbs -/

section Alone

variable {ρ : Op → Reply} {db : Db} {α β : Type}

/-- Run a call without steps of others in between; `ρ o` decides about operation `o`. -/
def Call.alone (ρ : Op → Reply) (c : Call α) (db : Db) : Except AppError α × Db :=
  c.run.eval (fun o s => o.run (ρ o) s) db

theorem alone_pure (a : α) : (pure a : Call α).alone ρ db = (.ok a, db) := rfl

theorem alone_bind (c : Call α) (f : α → Call β) :
    (c >>= f).alone ρ db =
      match c.alone ρ db with
      | (.ok a, db') => (f a).alone ρ db'
      | (.error e, db') => (.error e, db') := by
  unfold Call.alone
  rw [Call.eval_bind]
  rcases c.run.eval _ db with ⟨_ | a, db'⟩ <;> rfl

theorem alone_attempt (c : Call α) :
    c.attempt.alone ρ db = (.ok (c.alone ρ db).1, (c.alone ρ db).2) := by
  show Prog.eval _ (Except.ok <$> c.run) db = _
  rw [map_eq_pure_bind, Prog.eval_bind]
  rfl

/-- A database call that does not fail is its statement. -/
theorem alone_db {q : Query} (hρ : (ρ (.db q)).fault = none) :
    (Call.db q).alone ρ db = q.exec (ρ (.db q)).env db := by
  show Op.run (ρ (.db q)) (.db q) db = _
  unfold Op.run
  rw [hρ]

end Alone

/-! ## The handler -/

/-- The tables after `cancel_group`. -/
def Db.cancelGroup (env : Env) (g : Uuid) (db : Db) : Db :=
  ((sqlCancelGroupJobs env g).run db).updateGroup g .cancelled

section Handler

variable {ρ : Op → Reply} {db : Db} {id g : Uuid} {r : Row} {env : Env}

theorem cancelGroup_alone (hρ : ∀ o, (ρ o).fault = none) (db : Db) (g : Uuid) :
    (Call.cancelGroup g).alone ρ db =
      (.ok (), db.cancelGroup (ρ (.db (.cancelGroupJobs g))).env g) := by
  unfold Call.cancelGroup
  rw [alone_bind, alone_db (hρ _)]
  exact alone_db (hρ _)

/-- The id of a group: the group is cancelled. -/
theorem crawlCancel_group (hρ : ∀ o, (ρ o).fault = none) {group : GroupCrawlRow}
    (h : db.groups.lookup id = some group) :
    (crawlCancelHandler (.ok ()) id).alone ρ db =
      (.ok (), db.cancelGroup (ρ (.db (.cancelGroupJobs id))).env id) := by
  unfold crawlCancelHandler
  rw [Call.ofExcept, alone_bind, alone_pure]
  simp only [alone_bind, alone_attempt, alone_db (hρ _), Query.exec, Db.getCrawlGroup, h]
  exact cancelGroup_alone hρ db id

/-- The id of nothing. -/
theorem crawlCancel_missing (hρ : ∀ o, (ρ o).fault = none) (h : db.groups.lookup id = none)
    (hr : db.latestById id = none) :
    (crawlCancelHandler (.ok ()) id).alone ρ db = (.error (.notFound id.toString), db) := by
  unfold crawlCancelHandler
  rw [Call.ofExcept, alone_bind, alone_pure]
  simp only [alone_bind, alone_attempt, alone_db (hρ _), Query.exec, Db.getCrawlGroup, h, Db.getJob, hr]

/-- The id of a job: its group is cancelled, if it has one, and then the job. -/
theorem crawlCancel_job (hρ : ∀ o, (ρ o).fault = none) (h : db.groups.lookup id = none)
    (hr : db.latestById id = some r) :
    (crawlCancelHandler (.ok ()) id).alone ρ db =
      (Query.cancelJob id).exec (ρ (.db (.cancelJob id))).env
        (match r.groupId with
          | some g => db.cancelGroup (ρ (.db (.cancelGroupJobs g))).env g
          | none => db) := by
  unfold crawlCancelHandler
  rw [Call.ofExcept, alone_bind, alone_pure]
  simp only [alone_bind, alone_attempt, alone_db (hρ _), Query.exec, Db.getCrawlGroup, h, Db.getJob, hr,
    mapQueueRow]
  rcases r.groupId with _ | g
  · exact alone_db (hρ _)
  · rw [alone_bind, cancelGroup_alone hρ]
    exact alone_db (hρ _)

theorem selects_cancelGroupJobs :
    (sqlCancelGroupJobs env g).selects r = true ↔ r.groupId = some g ∧ r.Pending :=
  decide_eq_true_iff

theorem selects_cancelJob {r' : Row} (hr : db.latestById id = some r) :
    (sqlCancelJobLatestById env id db).selects r' = true ↔ r.key = r'.key ∧ r'.Pending := by
  unfold sqlCancelJobLatestById Row.Pending
  simp [hr]

/-- `cancel_job` on an unfinished job. -/
theorem cancelJob_pending (hr : db.latestById id = some r) (hst : r.Pending) :
    ((Query.cancelJob id).exec env db).1 = .ok () ∧
      ∃ r', ((Query.cancelJob id).exec env db).2.queue.lookup r.key = some r' ∧
        r'.status = .cancelled := by
  have hl := KTable.lookup_key (Db.latestById_iff.mp hr).1
  have hsel : (sqlCancelJobLatestById env id db).selects r = true :=
    (selects_cancelJob hr).mpr ⟨rfl, hst⟩
  have hmem : r.key ∈ (sqlCancelJobLatestById env id db).affected db :=
    (QueueUpdate.mem_affected _ db).mpr ⟨r, hl, hsel⟩
  constructor
  · show (if _ then _ else _) = _
    rw [if_neg]
    exact fun hlen => by rw [List.length_eq_zero_iff.mp hlen] at hmem; cases hmem
  · refine ⟨_, Query.lookup_exec hl, ?_⟩
    simp only [Query.touch, Query.update?, QueueUpdate.apply, if_pos hsel]
    rfl

/-- `cancel_job` on a finished job. -/
theorem cancelJob_finished (hr : db.latestById id = some r) (hst : ¬ r.Pending) :
    (Query.cancelJob id).exec env db = (.error (.notFound id.toString), db) := by
  have hsel : ∀ r' ∈ db.queue, (sqlCancelJobLatestById env id db).selects r' = false := by
    intro r' hr'
    by_contra hs
    obtain ⟨hk, hst'⟩ := (selects_cancelJob hr).mp (by simpa using hs)
    rw [KTable.eq_of_key_eq (Db.latestById_iff.mp hr).1 hr' hk] at hst
    exact hst hst'
  show (if _ then _ else _, _) = _
  rw [QueueUpdate.affected_eq_nil hsel, QueueUpdate.run_eq_self hsel]
  rfl

variable (env) in
/-- `cancel_group` cancels the unfinished rows of the group. -/
theorem cancelGroup_pending (hr : r ∈ db.queue) (hg : r.groupId = some g) (hst : r.Pending) :
    ∃ r', (db.cancelGroup env g).queue.lookup r.key = some r' ∧ r'.status = .cancelled := by
  have hsel : (sqlCancelGroupJobs env g).selects r = true :=
    selects_cancelGroupJobs.mpr ⟨hg, hst⟩
  refine ⟨(sqlCancelGroupJobs env g).apply r, ?_, ?_⟩
  · show ((sqlCancelGroupJobs env g).run db).queue.lookup r.key = _
    rw [QueueUpdate.lookup_run, KTable.lookup_key hr]
    rfl
  · rw [QueueUpdate.apply, if_pos hsel]
    rfl

variable (env) in
/-- After `cancel_group` a member of the group is finished. -/
theorem cancelGroup_latest (hr : db.latestById id = some r) (hg : r.groupId = some g) :
    ∃ r', (db.cancelGroup env g).latestById id = some r' ∧ ¬ r'.Pending := by
  refine ⟨(sqlCancelGroupJobs env g).apply r, QueueUpdate.latestById_run hr, ?_⟩
  rw [QueueUpdate.apply]
  by_cases hst : r.Pending
  · rw [if_pos (selects_cancelGroupJobs.mpr ⟨hg, hst⟩)]
    rintro (h | h) <;> cases h
  · rw [if_neg fun hs => hst (selects_cancelGroupJobs.mp hs).2]
    exact hst

/-- `cancel_group` has nothing left to do. -/
def Db.GroupCancelled (db : Db) (g : Uuid) : Prop :=
  (∀ r ∈ db.queue, r.groupId = some g → ¬ r.Pending) ∧
    ∀ group, db.groups.lookup g = some group → group.status = .cancelled

theorem cancelGroup_eq_self : db.cancelGroup env g = db ↔ db.GroupCancelled g := by
  constructor
  · intro h
    refine ⟨fun r hr hg hst => ?_, fun group hgroup => ?_⟩
    · obtain ⟨r', hr', hc⟩ := cancelGroup_pending env hr hg hst
      rw [h, KTable.lookup_key hr, Option.some.injEq] at hr'
      subst hr'
      rcases hst with hst | hst <;> rw [hst] at hc <;> cases hc
    · have hl : (db.cancelGroup env g).groups.lookup g = some { group with status := .cancelled } := by
        unfold Db.cancelGroup
        rw [Query.lookup_updateGroup, QueueUpdate.run_groups, hgroup, Option.map_some,
          if_pos (KTable.key_of_lookup hgroup)]
      rw [h, hgroup, Option.some.injEq] at hl
      rw [hl]
  · rintro ⟨hrows, hgroup⟩
    unfold Db.cancelGroup Db.updateGroup
    rw [QueueUpdate.run_eq_self, KTable.update_eq_self]
    · intro group hmem hid
      have hid : group.id = g := by simpa using hid
      have := hgroup group (by rw [← hid]; exact KTable.lookup_key hmem)
      cases group
      cases this
      rfl
    · intro r hr
      by_contra hs
      obtain ⟨hg, hst⟩ := selects_cancelGroupJobs.mp (by simpa using hs)
      exact hrows r hr hg hst

/-! ## All or nothing -/

/-- The request to cancel `id` succeeds if there is something to cancel, which then is cancelled; if it
returns an error, the tables are as before. An id that names a group is read as that. -/
structure AllOrNothing (db : Db) (id : Uuid) (res : Except AppError Unit × Db) : Prop where
  group : (db.groups.lookup id).isSome → res.1 = .ok () ∧ ∀ r ∈ db.queue, r.groupId = some id →
    r.Pending → ∃ r', res.2.queue.lookup r.key = some r' ∧ r'.status = .cancelled
  job : db.groups.lookup id = none → ∀ r, db.latestById id = some r → r.Pending →
    res.1 = .ok () ∧ ∃ r', res.2.queue.lookup r.key = some r' ∧ r'.status = .cancelled
  error : ∀ e, res.1 = .error e → res.2 = db

/-- The id names a group, or no job, or a job without a group, or one whose group is cancelled. -/
def CancelsCleanly (db : Db) (id : Uuid) : Prop :=
  (db.groups.lookup id).isSome ∨
    ∀ r, db.latestById id = some r → ∀ g, r.groupId = some g → db.GroupCancelled g

/-- For the id of a job the law is about its newest row. -/
theorem allOrNothing_job {res : Except AppError Unit × Db} (hg : db.groups.lookup id = none)
    (hr : db.latestById id = some r) :
    AllOrNothing db id res ↔
      (r.Pending → res.1 = .ok () ∧
        ∃ r', res.2.queue.lookup r.key = some r' ∧ r'.status = .cancelled) ∧
      ∀ e, res.1 = .error e → res.2 = db := by
  constructor
  · intro h
    exact ⟨h.job hg r hr, h.error⟩
  · intro ⟨hjob, herr⟩
    refine ⟨fun h => ?_, fun _ r' hr' => ?_, herr⟩
    · rw [hg] at h
      cases h
    · rw [hr, Option.some.injEq] at hr'
      rw [← hr']
      exact hjob

theorem cancelsCleanly_job (hg : db.groups.lookup id = none) (hr : db.latestById id = some r) :
    CancelsCleanly db id ↔ ∀ g, r.groupId = some g → db.GroupCancelled g := by
  simp [CancelsCleanly, hg, hr]

/-- A job without a group is cancelled alone. -/
theorem allOrNothing_cancelJob (env : Env) (hg : db.groups.lookup id = none)
    (hr : db.latestById id = some r) : AllOrNothing db id ((Query.cancelJob id).exec env db) := by
  refine (allOrNothing_job hg hr).mpr ⟨cancelJob_pending hr, fun e he => ?_⟩
  by_cases hst : r.Pending
  · rw [(cancelJob_pending hr hst).1] at he
    cases he
  · rw [cancelJob_finished hr hst]

/-- The group of a job takes the job along, which then counts as not found. -/
theorem allOrNothing_cancelGroup (env env' : Env) (hg : db.groups.lookup id = none)
    (hr : db.latestById id = some r) (hrg : r.groupId = some g) :
    AllOrNothing db id ((Query.cancelJob id).exec env (db.cancelGroup env' g)) ↔
      db.GroupCancelled g := by
  obtain ⟨r', hr', hst'⟩ := cancelGroup_latest env' hr hrg
  have hself : db.cancelGroup env' g = db ↔ db.GroupCancelled g := cancelGroup_eq_self
  rw [cancelJob_finished hr' hst', allOrNothing_job hg hr]
  constructor
  · intro h
    exact hself.mp (h.2 _ rfl)
  · intro hdone
    exact ⟨fun hst => absurd hst (hdone.1 r (Db.latestById_iff.mp hr).1 hrg),
      fun _ _ => hself.mpr hdone⟩

theorem allOrNothing_handler (hρ : ∀ o, (ρ o).fault = none) (db : Db) (id : Uuid) :
    AllOrNothing db id ((crawlCancelHandler (.ok ()) id).alone ρ db) ↔ CancelsCleanly db id := by
  cases hg : db.groups.lookup id with
  | some group =>
    rw [crawlCancel_group hρ hg]
    refine iff_of_true ⟨fun _ => ⟨rfl, fun r hr hrg hst => cancelGroup_pending _ hr hrg hst⟩,
      fun h => ?_, fun e he => ?_⟩ (.inl ?_)
    · rw [hg] at h
      cases h
    · cases he
    · rw [hg]
      rfl
  | none =>
    cases hr : db.latestById id with
    | none =>
      rw [crawlCancel_missing hρ hg hr]
      refine iff_of_true ⟨fun h => ?_, fun _ r h => ?_, fun _ _ => rfl⟩ (.inr fun r h => ?_)
      · rw [hg] at h
        cases h
      · rw [hr] at h
        cases h
      · rw [hr] at h
        cases h
    | some r =>
      rw [crawlCancel_job hρ hg hr, cancelsCleanly_job hg hr]
      cases hrg : r.groupId with
      | none => exact iff_of_true (allOrNothing_cancelJob _ hg hr) fun g h => by cases h
      | some g =>
        rw [allOrNothing_cancelGroup _ _ hg hr hrg]
        simp

end Handler

/-- **Cancelling is all-or-nothing exactly for ids that cancel cleanly**, for crawls and for batches; a
request that is not authorized changes nothing. -/
theorem allOrNothing_iff (ρ : Op → Reply) (hρ : ∀ o, (ρ o).fault = none) (db : Db) (id : Uuid) :
    (AllOrNothing db id ((crawlCancelHandler (.ok ()) id).alone ρ db) ↔ CancelsCleanly db id) ∧
      (AllOrNothing db id ((batchCancelHandler (.ok ()) id).alone ρ db) ↔ CancelsCleanly db id) ∧
      ∀ e, (crawlCancelHandler (.error e) id).alone ρ db = (.error e, db) ∧
        (batchCancelHandler (.error e) id).alone ρ db = (.error e, db) :=
  ⟨allOrNothing_handler hρ db id, allOrNothing_handler hρ db id, fun _ => ⟨rfl, rfl⟩⟩

/-- A batch that no worker has taken yet. -/
theorem allOrNothing_iff_queued : ∃ es s, (sysLts .sample .sample).Run es s ∧
    (s.db.latestById 1).map Row.status = some .queued ∧
    (AllOrNothing s.db 1 ((batchCancelHandler (.ok ()) 1).alone (fun _ => .ok 9 0) s.db) ↔
      CancelsCleanly s.db 1) := by
  obtain ⟨es, s, -, -, hs, -, hobs, -⟩ := sampleRun_split
    [.request 0 .sampleBatch, .handle 0 (.ok 0 1)] []
    (f := fun s => (s.db.latestById 1).map Row.status) (g := fun _ => ()) (a := some .queued) (b := ())
    rfl rfl
  exact ⟨es, s, hs, hobs, (allOrNothing_iff (fun _ => .ok 9 0) (fun _ => rfl) s.db 1).2.1⟩

/-- A batch job runs until it has a group. -/
def runningBatch : List Choice :=
  [.request 0 .sampleBatch, .handle 0 (.ok 0 1), .work 9 (.ok 1 0), .work 9 (.ok 2 5),
    .work 9 (.ok 3 0)]

/-- The job of `runningBatch` is cancelled, and its client is told that there is no such job. -/
theorem not_allOrNothing : ¬ ∀ (cfg : Config) (urls : UrlCrate) (es : List Event) (s : Sys),
    (sysLts cfg urls).Run es s → ∀ ρ : Op → Reply, (∀ o, (ρ o).fault = none) → ∀ id,
      AllOrNothing s.db id ((batchCancelHandler (.ok ()) id).alone ρ s.db) := by
  intro h
  let res (db : Db) := (batchCancelHandler (.ok ()) 1).alone (fun _ => .ok 9 0) db
  let status (db : Db) := (db.queue.lookup (1, 0)).map Row.status
  obtain ⟨es, s, -, -, hs, -, hobs, -⟩ := sampleRun_split runningBatch []
    (f := fun s => ((res s.db).1.toBool, status s.db, status (res s.db).2)) (g := fun _ => ())
    (a := (false, some .active, some .cancelled)) (b := ()) rfl rfl
  simp only [Prod.mk.injEq] at hobs
  obtain ⟨herr, hbefore, hafter⟩ := hobs
  have hall := h _ _ es s hs (fun _ => .ok 9 0) (fun _ => rfl) 1
  rcases hres : (res s.db).1 with e | a
  · rw [hall.error e hres, hbefore] at hafter
    cases hafter
  · rw [hres] at herr
    cases herr

end FireCtrl
