import FireCtrl.Codec
import FireCtrl.System.Model
import FireCtrl.System.Protocol

/-!
# Every group has one job

Rows of the queue are job rows and page rows, and each group belongs to the row of one job.

* `JobRow`, `PageRow`: the two kinds of rows; `DbOwned owner db`: the rows and groups of the tables,
  where `owner g` is the key of the job that group `g` belongs to.
* `dbOwned_exec`: a statement that respects the ownership (`Respects`) preserves it.
* `Owned`: the ownership together with the running jobs and requests, each at some phase of its
  protocol; **`owned_run`**: it holds in every reachable state, for some `owner`.
-/

namespace FireCtrl

open Query (RowStep)
open Prog (Follows FollowsE)

/-- The job that each group belongs to. -/
abbrev Owner := Uuid → Option Key

/-- A row that a handler enqueued. A crawl knows its group from the start, a batch gets one when it
runs. -/
inductive JobRow (owner : Owner) (r : Row) : Prop
  | crawl (job : CrawlJobData) (g : Uuid) (data : r.data = some (toValue (JobEnvelope.crawl job)))
      (hg : job.groupId = some g) (hr : r.groupId = some g) (ho : owner g = some r.key)
  | batchScrape (job : BatchScrapeJobData)
      (data : r.data = some (toValue (JobEnvelope.batchScrape job)))
      (ho : ∀ g, r.groupId = some g → owner g = some r.key)
  | extract (job : ExtractJobData) (data : r.data = some (toValue (JobEnvelope.extract job)))
      (hr : r.groupId = none)

/-- The completed row of a page. -/
structure PageRow (owner : Owner) (r : Row) : Prop where
  data : ∃ u, r.data = some (subData u)
  result : ∃ res : ScrapeResult, r.returnvalue = some (toValue res)
  status : r.status = .completed
  group : ∃ g, r.groupId = some g ∧ (owner g).isSome

def RowOwned (owner : Owner) (r : Row) : Prop := JobRow owner r ∨ PageRow owner r

/-- Every row is a job row or a page row, and groups that belong to a job exist. -/
structure DbOwned (owner : Owner) (db : Db) : Prop where
  rows : ∀ r ∈ db.queue, RowOwned owner r
  groups : ∀ g, (owner g).isSome → (db.groups.lookup g).isSome

/-- A group that does not exist has no owner. -/
theorem DbOwned.owner_eq_none {owner : Owner} {db : Db} {g : Uuid} (h : DbOwned owner db)
    (hg : db.groups.lookup g = none) : owner g = none := by
  by_contra ho
  have := h.groups g (Option.isSome_iff_ne_none.mpr ho)
  rw [hg] at this
  cases this

/-- `owner'` knows what `owner` knows. -/
def Extends (owner owner' : Owner) : Prop := ∀ g k, owner g = some k → owner' g = some k

variable {owner owner' : Owner} {r r' : Row} {db db' : Db} {k : Key} {g : Uuid}

theorem Extends.refl (owner : Owner) : Extends owner owner := fun _ _ h => h

theorem Extends.update (h : owner g = none) : Extends owner (Function.update owner g (some k)) := by
  intro g' k' hg'
  rw [Function.update_of_ne]
  · exact hg'
  · rintro rfl
    rw [h] at hg'
    cases hg'

theorem Extends.isSome (h : Extends owner owner') (hg : (owner g).isSome) : (owner' g).isSome := by
  obtain ⟨k, hk⟩ := Option.isSome_iff_exists.mp hg
  rw [h g k hk]
  rfl

/-! ## Kinds of rows -/

theorem JobRow.mono (h : JobRow owner r) (ho : Extends owner owner') : JobRow owner' r := by
  cases h with
  | crawl job g data hg hr hk => exact .crawl job g data hg hr (ho g _ hk)
  | batchScrape job data hk => exact .batchScrape job data fun g hg => ho g _ (hk g hg)
  | extract job data hr => exact .extract job data hr

theorem PageRow.mono (h : PageRow owner r) (ho : Extends owner owner') : PageRow owner' r :=
  ⟨h.data, h.result, h.status, let ⟨g, hg, hs⟩ := h.group; ⟨g, hg, ho.isSome hs⟩⟩

theorem RowOwned.mono (h : RowOwned owner r) (ho : Extends owner owner') : RowOwned owner' r :=
  h.imp (·.mono ho) (·.mono ho)

/-- What kind of job row it is depends on three columns. -/
theorem JobRow.congr (h : JobRow owner r) (hk : r'.key = r.key) (hd : r'.data = r.data)
    (hg : r'.groupId = r.groupId) : JobRow owner r' := by
  cases h with
  | crawl job g data hjob hr ho => exact .crawl job g (hd ▸ data) hjob (hg ▸ hr) (hk ▸ ho)
  | batchScrape job data ho => exact .batchScrape job (hd ▸ data) (by rw [hg, hk]; exact ho)
  | extract job data hr => exact .extract job (hd ▸ data) (hg ▸ hr)

/-- A job row is not a page row: their data have different kinds. -/
theorem JobRow.not_page (h : JobRow owner r) (u : String) : r.data ≠ some (subData u) := by
  intro hu
  cases h with
  | crawl job g data =>
    rw [hu] at data
    simp [subData, toValue, JobEnvelope.tagged] at data
  | batchScrape job data =>
    rw [hu] at data
    simp [subData, toValue, JobEnvelope.tagged] at data
  | extract job data =>
    rw [hu] at data
    simp [subData, toValue, JobEnvelope.tagged] at data

theorem RowOwned.job_of_status (h : RowOwned owner r) (hs : r.status ≠ .completed) :
    JobRow owner r :=
  h.resolve_right fun hp => hs hp.status

/-- The row of a crawl or batch job. -/
def Row.IsParent (r : Row) : Prop :=
  (∃ job, r.data = some (toValue (JobEnvelope.crawl job))) ∨
    ∃ job, r.data = some (toValue (JobEnvelope.batchScrape job))

theorem RowOwned.job_of_isParent (h : RowOwned owner r) (hp : r.IsParent) : JobRow owner r := by
  refine h.resolve_right fun hpage => ?_
  obtain ⟨u, hu⟩ := hpage.data
  rcases hp with ⟨job, hd⟩ | ⟨job, hd⟩
  · rw [hu] at hd
    simp [subData, toValue, JobEnvelope.tagged] at hd
  · rw [hu] at hd
    simp [subData, toValue, JobEnvelope.tagged] at hd

theorem JobRow.owner_eq (h : JobRow owner r) (hg : r.groupId = some g) : owner g = some r.key := by
  cases h with
  | crawl job g' data _ hr ho =>
    rw [hg, Option.some.injEq] at hr
    exact hr ▸ ho
  | batchScrape job data ho => exact ho g hg
  | extract job data hr => rw [hg] at hr; cases hr

/-- The group of a row belongs to some job. -/
theorem RowOwned.owner_isSome (h : RowOwned owner r) (hg : r.groupId = some g) : (owner g).isSome := by
  rcases h with hj | hp
  · rw [hj.owner_eq hg]
    rfl
  · obtain ⟨g', hg', ho⟩ := hp.group
    rw [hg, Option.some.injEq] at hg'
    exact hg' ▸ ho

/-! ## What a statement must respect -/

/-- The statement finishes and attaches only rows of jobs, attaches a batch job to a group of its own,
and inserts job rows and page rows. -/
def Respects (owner : Owner) (env : Env) (db : Db) : Query → Prop
  | .completeJob id createdAt _ | .failJob id createdAt _ =>
    ∀ r, db.queue.lookup (id, createdAt) = some r → JobRow owner r
  | .updateJobGroup id createdAt g =>
    owner g = some (id, createdAt) ∧ ∀ r, db.queue.lookup (id, createdAt) = some r →
      ∃ job, r.data = some (toValue (JobEnvelope.batchScrape job))
  | .enqueue data priority ownerId groupId ch =>
    RowOwned owner (queuedRow env data priority ownerId groupId ch)
  | .enqueueCompleted data rv priority ownerId groupId ch =>
    RowOwned owner (completedRow env data rv priority ownerId groupId ch)
  | _ => True

theorem rowOwned_of_rowStep {env : Env} {q : Query} (hs : RowStep env q r r')
    (hr : db.queue.lookup k = some r) (h : RowOwned owner r) (hq : Respects owner env db q) :
    RowOwned owner r' := by
  have hk : k = (r.id, r.createdAt) := (KTable.key_of_lookup hr).symm
  subst hk
  cases hs with
  | claim lockId hst =>
    exact .inl ((h.job_of_status (by rw [hst]; simp)).congr rfl rfl rfl)
  | complete rv => exact .inl ((hq r hr).congr rfl rfl rfl)
  | fail reason => exact .inl ((hq r hr).congr rfl rfl rfl)
  | cancel hst =>
    exact .inl ((h.job_of_status (by rcases hst with hst | hst <;> rw [hst] <;> simp)).congr
      rfl rfl rfl)
  | cancelGroup g hg hst =>
    exact .inl ((h.job_of_status (by rcases hst with hst | hst <;> rw [hst] <;> simp)).congr
      rfl rfl rfl)
  | attach g =>
    obtain ⟨ho, hb⟩ := hq
    obtain ⟨job, hjob⟩ := hb r hr
    refine .inl (.batchScrape job hjob fun g' hg' => ?_)
    obtain rfl : g = g' := by simpa using hg'
    exact ho
  | requeue _ _ hst =>
    exact .inl ((h.job_of_status (by rw [hst]; simp)).congr rfl rfl rfl)
  | failOver _ _ hst =>
    exact .inl ((h.job_of_status (by rw [hst]; simp)).congr rfl rfl rfl)

/-- **A statement that respects the ownership preserves it.** -/
theorem dbOwned_exec {env : Env} {q : Query} (h : DbOwned owner db) (hq : Respects owner env db q) :
    DbOwned owner (q.exec env db).2 where
  rows r' hr' := by
    rcases Query.mem_exec hr' with ⟨-, hnew⟩ | ⟨r, hr, rfl⟩
    · cases q with
      | enqueue => cases hnew; exact hq
      | enqueueCompleted => cases hnew; exact hq
      | _ => cases hnew
    · have hown := h.rows r (KTable.mem_of_lookup hr)
      rcases Query.touch_step q env hr with ⟨-, heq⟩ | ⟨-, hs⟩
      · rwa [heq]
      · exact rowOwned_of_rowStep hs hr hown hq
  groups g hg := Query.groups_isSome_exec (h.groups g hg)

theorem DbOwned.mono (h : DbOwned owner db) (ho : Extends owner owner')
    (hg : ∀ g, (owner' g).isSome → (db.groups.lookup g).isSome) : DbOwned owner' db :=
  ⟨fun r hr => (h.rows r hr).mono ho, hg⟩

/-! ## Running jobs and requests -/

/-- What a statement leaves: every row with its data, every group. -/
structure Kept (db db' : Db) : Prop where
  rows : ∀ k r, db.queue.lookup k = some r → ∃ r', db'.queue.lookup k = some r' ∧ r'.data = r.data
  groups : ∀ g, (db.groups.lookup g).isSome → (db'.groups.lookup g).isSome

theorem Kept.refl (db : Db) : Kept db db := ⟨fun _ r hr => ⟨r, hr, rfl⟩, fun _ h => h⟩

theorem Kept.trans {db₁ db₂ db₃ : Db} (h : Kept db₁ db₂) (h' : Kept db₂ db₃) : Kept db₁ db₃ where
  rows k r hr := by
    obtain ⟨r', hr', hd⟩ := h.rows k r hr
    obtain ⟨r'', hr'', hd'⟩ := h'.rows k r' hr'
    exact ⟨r'', hr'', hd'.trans hd⟩
  groups g hg := h'.groups g (h.groups g hg)

theorem kept_exec (env : Env) (q : Query) : Kept db (q.exec env db).2 where
  rows k r hr := by
    refine ⟨_, Query.lookup_exec hr, ?_⟩
    exact (Query.touch_fixed q env hr).2.2.1
  groups _ h := Query.groups_isSome_exec h

/-- Row `k` is the row of a job. -/
def IsJob (owner : Owner) (db : Db) (k : Key) : Prop :=
  ∃ r, db.queue.lookup k = some r ∧ JobRow owner r

/-- Row `k` is the row of a job with data `e`. -/
def IsJobOf (owner : Owner) (db : Db) (k : Key) (e : JobEnvelope) : Prop :=
  ∃ r, db.queue.lookup k = some r ∧ JobRow owner r ∧ r.data.bind fromValue = some e

variable {e : JobEnvelope}

theorem jobRow_of_kept (h : DbOwned owner' db') (hr' : db'.queue.lookup k = some r')
    (hd : r'.data = r.data) (hj : JobRow owner r) : JobRow owner' r' := by
  rcases h.rows r' (KTable.mem_of_lookup hr') with hr | hr
  · exact hr
  · obtain ⟨u, hu⟩ := hr.data
    exact absurd (hd ▸ hu) (hj.not_page u)

theorem IsJob.kept (hj : IsJob owner db k) (h : DbOwned owner' db') (hk : Kept db db') :
    IsJob owner' db' k := by
  obtain ⟨r, hr, hj⟩ := hj
  obtain ⟨r', hr', hd⟩ := hk.rows k r hr
  exact ⟨r', hr', jobRow_of_kept h hr' hd hj⟩

theorem IsJobOf.kept (hj : IsJobOf owner db k e) (h : DbOwned owner' db') (hk : Kept db db') :
    IsJobOf owner' db' k e := by
  obtain ⟨r, hr, hj, he⟩ := hj
  obtain ⟨r', hr', hd⟩ := hk.rows k r hr
  exact ⟨r', hr', jobRow_of_kept h hr' hd hj, hd ▸ he⟩

theorem IsJobOf.isJob (h : IsJobOf owner db k e) : IsJob owner db k :=
  let ⟨r, hr, hj, _⟩ := h
  ⟨r, hr, hj⟩

/-- A job that names its group is in it. -/
theorem JobRow.groupId_eq (h : JobRow owner r) (he : r.data.bind fromValue = some e)
    (hg : e.group? = some g) : r.groupId = some g := by
  cases h with
  | crawl job g' data hjob hr =>
    rw [data] at he
    obtain ⟨job', rfl, hj'⟩ := fromValue_crawl he
    obtain rfl : g' = g := by simpa [JobEnvelope.group?, hj', hjob] using hg
    exact hr
  | batchScrape job data =>
    rw [data] at he
    obtain ⟨job', rfl⟩ := fromValue_batchScrape he
    cases hg
  | extract job data =>
    rw [data] at he
    obtain ⟨job', rfl⟩ := fromValue_extract he
    cases hg

theorem IsJobOf.owner_eq (h : IsJobOf owner db k e) (hg : e.group? = some g) : owner g = some k := by
  obtain ⟨r, hr, hj, he⟩ := h
  rw [← KTable.key_of_lookup hr]
  exact hj.owner_eq (hj.groupId_eq he hg)

/-- A job with pages that does not name its group is a batch. -/
theorem IsJobOf.batchScrape (h : IsJobOf owner db k e) (he : e.grouped = true)
    (hg : e.group? = none) (hr : db.queue.lookup k = some r) :
    ∃ job, r.data = some (toValue (JobEnvelope.batchScrape job)) := by
  obtain ⟨r', hr', hj, hd⟩ := h
  rw [hr, Option.some.injEq] at hr'
  subst hr'
  cases hj with
  | crawl job g' data hjob =>
    rw [data] at hd
    obtain ⟨job', rfl, hj'⟩ := fromValue_crawl hd
    rw [JobEnvelope.group?, hj', hjob] at hg
    cases hg
  | batchScrape job data => exact ⟨job, data⟩
  | extract job data =>
    rw [data] at hd
    obtain ⟨job', rfl⟩ := fromValue_extract hd
    cases he

/-- The group of a job that is at a phase. -/
def Phase.group? : Phase → Option Uuid
  | fresh g | pages g _ _ | closing g _ => some g
  | start | closed | failed => none

/-- A job in flight: it is at some phase of its protocol, and its group is its own. -/
structure Executing (owner : Owner) (db : Db) (k : Key) (e : JobEnvelope) (log : Log)
    (rest : Prog Op Op.Ans (Except AppError Unit)) : Prop where
  job : IsJobOf owner db k e
  follows : Follows (jobProtocol k e) (fun ph res => ∀ a, res = .ok a → Closed ph a) (jobPhase log) rest
  group : ∀ g, (jobPhase log).group? = some g → owner g = some k

def WorkerOwned (owner : Owner) (db : Db) : WorkerState → Prop
  | .executing k e log rest => Executing owner db k e log rest
  | .failing k _ => IsJob owner db k
  | .idle | .stopped => True

/-- The request has created group `g` and is about to enqueue its job. -/
def HandlerState.Created (g : Uuid) : HandlerState → Prop
  | running _ log _ => handlerPhase log = .created g
  | waiting | gone => False

def HandlerOwned : HandlerState → Prop
  | .running _ log rest => Follows handlerProtocol (fun _ _ => True) (handlerPhase log) rest
  | .waiting | .gone => True

/-- Rows, groups, jobs in flight and requests in flight agree on who owns which group. -/
structure Owned (owner : Owner) (s : Sys) : Prop where
  db : DbOwned owner s.db
  workers : ∀ w, WorkerOwned owner s.db (s.workers w)
  handlers : ∀ n, HandlerOwned (s.handlers n)
  created : ∀ n g, (s.handlers n).Created g → (s.db.groups.lookup g).isSome ∧ owner g = none
  created_inj : ∀ n n' g, (s.handlers n).Created g → (s.handlers n').Created g → n = n'

theorem Executing.kept {log : Log} {rest : Prog Op Op.Ans (Except AppError Unit)}
    (he : Executing owner db k e log rest) (ho : Extends owner owner') (h : DbOwned owner' db')
    (hk : Kept db db') : Executing owner' db' k e log rest :=
  ⟨he.job.kept h hk, he.follows, fun g hg => ho g k (he.group g hg)⟩

theorem WorkerOwned.kept {ws : WorkerState} (hw : WorkerOwned owner db ws)
    (ho : Extends owner owner') (h : DbOwned owner' db') (hk : Kept db db') :
    WorkerOwned owner' db' ws := by
  cases ws with
  | executing k e log rest => exact Executing.kept hw ho h hk
  | failing k reason => exact IsJob.kept hw h hk
  | idle => trivial
  | stopped => trivial

/-! ## One operation -/

section Run

variable {ρ : Reply} {o : Op}

theorem kept_run (ρ : Reply) (o : Op) : Kept db (o.run ρ db).2 := by
  rcases ho : o.executes ρ with _ | q
  · rw [Op.run_snd_of_not_executes ho]
    exact .refl db
  · rw [Op.run_snd_of_executes ho]
    exact kept_exec ρ.env q

theorem eq_db_of_executes {q : Query} (h : o.executes ρ = some q) : o = .db q := by
  cases o with
  | db q' =>
    rcases hf : ρ.fault with _ | ⟨_ | _, e⟩ <;> simp only [Op.executes, hf] at h <;> cases h <;> rfl
  | ext x => cases h

theorem dbOwned_run (h : DbOwned owner db) (hq : ∀ q, o = .db q → Respects owner ρ.env db q) :
    DbOwned owner (o.run ρ db).2 := by
  rcases ho : o.executes ρ with _ | q
  · rwa [Op.run_snd_of_not_executes ho]
  · rw [Op.run_snd_of_executes ho]
    exact dbOwned_exec h (hq q (eq_db_of_executes ho))

/-- A group that a call creates is a new one. -/
theorem created_run {ownerId : Uuid} {ttlMs : Int64} {group : GroupCrawlRow}
    (h : ((Op.db (.createCrawlGroup ownerId ttlMs)).run ρ db).1 = .ok group) :
    db.groups.lookup group.id = none ∧
      (((Op.db (.createCrawlGroup ownerId ttlMs)).run ρ db).2.groups.lookup group.id).isSome := by
  obtain ⟨hx, hok⟩ := Op.run_ok h
  obtain ⟨hnone, -, hl⟩ := Query.createCrawlGroup_ok hok
  rw [Op.run_snd_of_executes hx, hl, if_pos rfl]
  exact ⟨hnone, rfl⟩

end Run

/-- The owners after a job of row `k` has performed an operation: it owns the groups it creates. -/
def ownerAfter (k : Key) (owner : Owner) : (o : Op) → o.Ans → Owner
  | .db (.createCrawlGroup ..), .ok group => Function.update owner group.id (some k)
  | _, _ => owner

/-- The group that an answer tells a job. -/
def learned : (o : Op) → o.Ans → Option Uuid
  | .db (.createCrawlGroup ..), .ok group => some group.id
  | .db (.getCrawlGroup _), .ok group => some group.id
  | _, _ => none

theorem jobNext_group (ph : Phase) (o : Op) (a : o.Ans) (h : (jobNext ph o a).group? = some g) :
    ph.group? = some g ∨ learned o a = some g := by
  unfold jobNext at h
  split at h <;> first
    | exact .inl h
    | exact .inr h
    | cases h

section Job

variable {ρ : Reply} {o : Op} {log : Log} {p : o.Ans → Prog Op Op.Ans (Except AppError Unit)}

theorem Executing.allows (h : Executing owner db k e log (.op o p)) :
    JobAllows k e (jobPhase log) o :=
  h.follows.1

/-- A job makes only statements that respect the ownership. -/
theorem Executing.respects {q : Query} {p : (Op.db q).Ans → Prog Op Op.Ans (Except AppError Unit)}
    (h : Executing owner db k e log (.op (.db q) p)) (env : Env) : Respects owner env db q := by
  have hg := h.group
  have hallow := h.allows
  generalize jobPhase log = ph at hg hallow
  cases hallow with
  | lookup | create | close => trivial
  | attach he hn => exact ⟨hg _ rfl, fun r hr => h.job.batchScrape he hn hr⟩
  | store =>
    refine .inr ⟨⟨_, rfl⟩, ⟨_, rfl⟩, rfl, _, rfl, ?_⟩
    rw [hg _ rfl]
    rfl
  | finishGroup | finish =>
    obtain ⟨r, hr, hj, -⟩ := h.job
    exact KTable.forall_lookup hr hj

theorem ownerAfter_cases (h : DbOwned owner db) (k : Key) (ρ : Reply) (o : Op) :
    ownerAfter k owner o (o.run ρ db).1 = owner ∨ ∃ g,
      ownerAfter k owner o (o.run ρ db).1 = Function.update owner g (some k) ∧
        owner g = none ∧ db.groups.lookup g = none ∧ ((o.run ρ db).2.groups.lookup g).isSome := by
  unfold ownerAfter
  split
  · rename_i ownerId ttlMs group heq
    obtain ⟨hnone, hsome⟩ := created_run heq
    exact .inr ⟨group.id, rfl, h.owner_eq_none hnone, hnone, hsome⟩
  · exact .inl rfl

theorem extends_ownerAfter (h : DbOwned owner db) :
    Extends owner (ownerAfter k owner o (o.run ρ db).1) := by
  obtain heq | ⟨g, heq, hg, -⟩ := ownerAfter_cases h k ρ o
  · rw [heq]
    exact .refl owner
  · rw [heq]
    exact .update hg

theorem Executing.dbOwned (h : Executing owner db k e log (.op o p)) (hdb : DbOwned owner db) :
    DbOwned (ownerAfter k owner o (o.run ρ db).1) (o.run ρ db).2 := by
  have hrun : DbOwned owner (o.run ρ db).2 :=
    dbOwned_run hdb fun q hq => by subst hq; exact h.respects ρ.env
  refine hrun.mono (extends_ownerAfter hdb) fun g hg => ?_
  obtain heq | ⟨g', heq, -, -, hsome⟩ := ownerAfter_cases hdb k ρ o
  · rw [heq] at hg
    exact hrun.groups g hg
  · rw [heq, Function.update_apply] at hg
    split_ifs at hg with hgg
    · rw [hgg]
      exact hsome
    · exact hrun.groups g hg

/-- The group of a job stays its own. -/
theorem Executing.group_next (h : Executing owner db k e log (.op o p)) (hdb : DbOwned owner db)
    (hg : (jobNext (jobPhase log) o (o.run ρ db).1).group? = some g) :
    ownerAfter k owner o (o.run ρ db).1 g = some k := by
  have hvalid := validAnswer_run ρ o db
  have hext := extends_ownerAfter (k := k) (ρ := ρ) (o := o) hdb
  rcases jobNext_group _ _ _ hg with hg | hg
  · exact hext g k (h.group g hg)
  · have hallow := h.allows
    generalize jobPhase log = ph at hallow
    cases hallow with
    | lookup _ he =>
      rcases ha : (Op.run ρ (.db (.getCrawlGroup _)) db).1 with err | group
      · rw [ha] at hg
        cases hg
      · rw [ha] at hg hvalid
        obtain rfl : group.id = g := by simpa [learned] using hg
        have hid : group.id = _ := hvalid
        exact hext _ k (hid ▸ h.job.owner_eq he)
    | create =>
      rcases ha : (Op.run ρ (.db (.createCrawlGroup _ _)) db).1 with err | group
      · rw [ha] at hg
        cases hg
      · rw [ha] at hg
        obtain rfl : group.id = g := by simpa [learned] using hg
        simp [ownerAfter]
    | _ => cases hg

theorem Executing.step (h : Executing owner db k e log (.op o p)) (hdb : DbOwned owner db) :
    Executing (ownerAfter k owner o (o.run ρ db).1) (o.run ρ db).2 k e
      (log ++ [⟨o, (o.run ρ db).1⟩]) (p (o.run ρ db).1) where
  job := h.job.kept (h.dbOwned hdb) (kept_run ρ o)
  follows := by
    rw [jobPhase_append_singleton]
    exact h.follows.2 _ (validAnswer_run ρ o db)
  group g hg := by
    rw [jobPhase_append_singleton] at hg
    exact h.group_next hdb hg

end Job

/-- The owners after a request has performed an operation: a crawl owns the group it is enqueued with. -/
def requestOwner (env : Env) (owner : Owner) : Op → Owner
  | .db (.enqueue _ _ _ (some g) _) => Function.update owner g (some (env.uuid, env.now))
  | _ => owner

section Request

variable {ρ : Reply} {o : Op} {ph : HandlerPhase}

theorem requestOwner_cases (hallow : HandlerAllows ph o) (env : Env) (owner : Owner) :
    requestOwner env owner o = owner ∧ (∀ db, ∀ q, o = .db q → Respects owner env db q) ∨
      ∃ g, ph = .created g ∧ requestOwner env owner o = Function.update owner g (some (env.uuid, env.now)) ∧
        ∀ db, ∀ q, o = .db q → Respects (requestOwner env owner o) env db q := by
  cases hallow with
  | @enqueueCrawl g priority job hg =>
    refine .inr ⟨g, rfl, rfl, ?_⟩
    rintro db q ⟨⟩
    exact .inl (.crawl job g rfl hg rfl (by simp [requestOwner, queuedRow, Row.key]))
  | enqueueBatch job =>
    refine .inl ⟨rfl, ?_⟩
    rintro db q ⟨⟩
    exact .inl (.batchScrape job rfl fun g hg => by cases hg)
  | enqueueExtract job =>
    refine .inl ⟨rfl, ?_⟩
    rintro db q ⟨⟩
    exact .inl (.extract job rfl rfl)
  | create | lookup | lookupJob | cancelJob | cancelGroupJobs | cancelGroupRow =>
    refine .inl ⟨rfl, ?_⟩
    rintro db q ⟨⟩
    trivial

/-- A request comes to have a group only by creating it. -/
theorem handlerNext_created (owner : Owner) (h : handlerNext ph o (o.run ρ db).1 = .created g) :
    db.groups.lookup g = none ∧ ((o.run ρ db).2.groups.lookup g).isSome ∧
      requestOwner ρ.env owner o = owner := by
  unfold handlerNext at h
  split at h
  case h_1 heq =>
    cases h
    exact ⟨(created_run heq).1, (created_run heq).2, rfl⟩
  all_goals cases h

end Request

/-! ## Steps of the system -/

section Step

variable {cfg : Config} {urls : UrlCrate} {s t : Sys} {ev : Event} {es : List Event} {ρ : Reply}
  {w : Uuid} {n : ℕ}

/-- A step of a worker. -/
theorem Owned.setWorker {ws : WorkerState} (h : Owned owner s) (ho : Extends owner owner')
    (hdb : DbOwned owner' db') (hk : Kept s.db db') (hw : WorkerOwned owner' db' ws)
    (hc : ∀ n g, (s.handlers n).Created g → owner' g = none) :
    Owned owner' ({ s with db := db' }.setWorker w ws) where
  db := hdb
  workers w' := by
    rw [setWorker_workers]
    split_ifs
    · exact hw
    · exact (h.workers w').kept ho hdb hk
  handlers := h.handlers
  created n g hg := ⟨hk.groups g (h.created n g hg).1, hc n g hg⟩
  created_inj := h.created_inj

/-- A step of a request. -/
theorem Owned.setHandler {hs : HandlerState} (h : Owned owner s) (ho : Extends owner owner')
    (hdb : DbOwned owner' db') (hk : Kept s.db db') (hh : HandlerOwned hs)
    (hc : ∀ g, hs.Created g → (db'.groups.lookup g).isSome ∧ owner' g = none ∧
      ∀ n', ¬ (s.handlers n').Created g)
    (hc' : ∀ n' g, n' ≠ n → (s.handlers n').Created g → owner' g = none) :
    Owned owner' ({ s with db := db' }.setHandler n hs) where
  db := hdb
  workers w := (h.workers w).kept ho hdb hk
  handlers n' := by
    rw [setHandler_handlers]
    split_ifs
    · exact hh
    · exact h.handlers n'
  created n' g := by
    rw [setHandler_handlers]
    split_ifs with hn
    · exact fun hg => ⟨(hc g hg).1, (hc g hg).2.1⟩
    · exact fun hg => ⟨hk.groups g (h.created n' g hg).1, hc' n' g hn hg⟩
  created_inj n₁ n₂ g := by
    rw [setHandler_handlers, setHandler_handlers]
    split_ifs with h₁ h₂ h₂
    · exact fun _ _ => h₁.trans h₂.symm
    · exact fun hg hg' => absurd hg' ((hc g hg).2.2 n₂)
    · exact fun hg hg' => absurd hg ((hc g hg').2.2 n₁)
    · exact h.created_inj n₁ n₂ g

theorem Owned.setStall {o : Op} (h : Owned owner s) (st : StallState)
    (hdb : DbOwned owner (o.run ρ s.db).2) : Owned owner { s.perform ρ o with stall := st } where
  db := hdb
  workers w := (h.workers w).kept (.refl owner) hdb (kept_run ρ o)
  handlers := h.handlers
  created n g hn := ⟨(kept_run ρ o).groups g (h.created n g hn).1, (h.created n g hn).2⟩
  created_inj := h.created_inj

theorem Owned.executing {log : Log} {rest : Prog Op Op.Ans (Except AppError Unit)}
    (h : Owned owner s) (hw : s.workers w = .executing k e log rest) :
    Executing owner s.db k e log rest := by
  have hown := h.workers w
  rw [hw] at hown
  exact hown

theorem Owned.failing {reason : String} (h : Owned owner s) (hw : s.workers w = .failing k reason) :
    IsJob owner s.db k := by
  have hown := h.workers w
  rw [hw] at hown
  exact hown

theorem Owned.running {req : Request} {log : Log} {rest : Prog Op Op.Ans (Except AppError Response)}
    (h : Owned owner s) (hn : s.handlers n = .running req log rest) :
    Follows handlerProtocol (fun _ _ => True) (handlerPhase log) rest := by
  have hown := h.handlers n
  rw [hn] at hown
  exact hown

/-- An operation of a request respects the ownership that it leads to. -/
theorem Owned.request_respects {req : Request} {log : Log} {o : Op}
    {p : o.Ans → Prog Op Op.Ans (Except AppError Response)} (h : Owned owner s)
    (hn : s.handlers n = .running req log (.op o p)) (env : Env) :
    Extends owner (requestOwner env owner o) ∧ DbOwned (requestOwner env owner o) s.db ∧
      (∀ q, o = .db q → Respects (requestOwner env owner o) env s.db q) ∧
      ∀ n' g, n' ≠ n → (s.handlers n').Created g → requestOwner env owner o g = none := by
  obtain ⟨heq, hq⟩ | ⟨g, hph, heq, hq⟩ := requestOwner_cases (h.running hn).1 env owner
  · rw [heq]
    exact ⟨.refl owner, h.db, hq s.db, fun n' g _ hn' => (h.created n' g hn').2⟩
  · have hg : (s.handlers n).Created g := by rw [hn]; exact hph
    obtain ⟨hsome, hown⟩ := h.created n g hg
    have hupd : Extends owner (requestOwner env owner o) := by rw [heq]; exact .update hown
    refine ⟨hupd, h.db.mono hupd fun g' hg' => ?_, hq s.db, fun n' g' hne hn' => ?_⟩
    · rw [heq, Function.update_apply] at hg'
      split_ifs at hg' with hgg
      · rw [hgg]
        exact hsome
      · exact h.db.groups g' hg'
    · rw [heq, Function.update_of_ne]
      · exact (h.created n' g' hn').2
      · rintro rfl
        exact hne (h.created_inj n' n g' hn' hg)

/-- An operation of a request. -/
theorem Owned.handle {req : Request} {log : Log} {o : Op}
    {p : o.Ans → Prog Op Op.Ans (Except AppError Response)} (h : Owned owner s)
    (hn : s.handlers n = .running req log (.op o p)) :
    ∃ owner', Extends owner owner' ∧ Owned owner' ((s.perform ρ o).setHandler n
      (.running req (log ++ [⟨o, (o.run ρ s.db).1⟩]) (p (o.run ρ s.db).1))) := by
  obtain ⟨hext, hdb, hq, hc⟩ := h.request_respects hn ρ.env
  have hh : Follows handlerProtocol (fun _ _ => True)
      (handlerPhase (log ++ [⟨o, (o.run ρ s.db).1⟩])) (p (o.run ρ s.db).1) := by
    rw [handlerPhase_append_singleton]
    exact (h.running hn).2 _ (validAnswer_run ρ o s.db)
  refine ⟨_, hext, h.setHandler hext (dbOwned_run hdb hq) (kept_run ρ o) hh (fun g hg => ?_) hc⟩
  have hg' : handlerNext (handlerPhase log) o (o.run ρ s.db).1 = .created g := by
    rw [← handlerPhase_append_singleton]
    exact hg
  obtain ⟨hg₀, hsome, heq⟩ := handlerNext_created owner hg'
  refine ⟨hsome, ?_, fun n' hn' => ?_⟩
  · rw [heq]
    exact h.db.owner_eq_none hg₀
  · have := (h.created n' g hn').1
    rw [hg₀] at this
    cases this

theorem IsJob.respects_failJob (h : IsJob owner db k) (env : Env) (reason : String) :
    Respects owner env db (.failJob k.1 k.2 reason) := by
  obtain ⟨r, hr, hj⟩ := h
  exact KTable.forall_lookup hr hj

theorem dbOwned_claim (h : DbOwned owner db) :
    DbOwned owner (Op.run ρ (.db (.claimNextJob w)) db).2 :=
  dbOwned_run h fun q hq => by cases hq; trivial

/-- The row of a job can be read. -/
theorem JobRow.decodes (h : JobRow owner r) : (r.data.bind fromValue : Option JobEnvelope).isSome := by
  cases h with
  | crawl job g data | batchScrape job data | extract job data =>
    rw [data, Option.bind_some, fromValue_toValue]
    rfl

variable (cfg urls ρ w) in
/-- A worker that has claimed a row executes its job from the start. -/
theorem afterClaim_run (h : DbOwned owner db) :
    afterClaim cfg urls (Op.run ρ (.db (.claimNextJob w)) db).1 = .idle ∨
      ∃ r ∈ db.queue, ∃ e, JobRow owner r ∧ r.status = .queued ∧ r.data.bind fromValue = some e ∧
        afterClaim cfg urls (Op.run ρ (.db (.claimNextJob w)) db).1 =
          .executing r.key e [] (execute cfg urls r.id r.createdAt e).run := by
  rcases ha : (Op.run ρ (.db (.claimNextJob w)) db).1 with err | _ | row
  · exact .inl rfl
  · exact .inl rfl
  · right
    obtain ⟨-, hok⟩ := Op.run_ok ha
    obtain ⟨r, hr, rfl⟩ := Query.claimNextJob_some hok
    obtain ⟨hmem, hst, -⟩ := Db.nextQueued_spec hr
    have hj : JobRow owner r := (h.rows r hmem).job_of_status (by rw [hst]; simp)
    obtain ⟨e, he⟩ := Option.isSome_iff_exists.mp hj.decodes
    obtain ⟨hid, hcreated, hdata, -⟩ :=
      Query.touch_fixed (.claimNextJob w) ρ.env (KTable.lookup_key hmem)
    refine ⟨r, hmem, e, hj, hst, he, ?_⟩
    simp only [afterClaim, mapQueueRow, hid, hcreated, hdata, he]
    rfl

theorem workerOwned_afterClaim (h : DbOwned owner db) :
    WorkerOwned owner (Op.run ρ (.db (.claimNextJob w)) db).2
      (afterClaim cfg urls (Op.run ρ (.db (.claimNextJob w)) db).1) := by
  rcases afterClaim_run cfg urls ρ w h with hidle | ⟨r, hmem, e, hj, -, he, hexec⟩
  · rw [hidle]
    trivial
  · rw [hexec]
    have hjob : IsJobOf owner db r.key e := ⟨r, KTable.lookup_key hmem, hj, he⟩
    exact ⟨hjob.kept (dbOwned_claim h) (kept_run ρ _), execute_follows cfg urls r.key e,
      fun g hg => by cases hg⟩

/-- **Every step keeps the ownership**, though groups may get an owner. -/
theorem owned_step (h : Owned owner s) (hstep : (sysLts cfg urls).step s ev t) :
    ∃ owner', Extends owner owner' ∧ Owned owner' t := by
  have hcreated (n : ℕ) (g : Uuid) (hn : (s.handlers n).Created g) := (h.created n g hn).2
  cases sysStep_of_step hstep with
  | claim w ρ hw =>
    exact ⟨owner, .refl owner, h.setWorker (.refl owner) (dbOwned_claim h.db) (kept_run ρ _)
      (workerOwned_afterClaim h.db) hcreated⟩
  | @work w ρ k e log o p hw =>
    have he := h.executing hw
    have hext := extends_ownerAfter (k := k) (ρ := ρ) (o := o) h.db
    refine ⟨_, hext, h.setWorker hext (he.dbOwned h.db) (kept_run ρ o) (he.step h.db) fun n g hn => ?_⟩
    obtain heq | ⟨g', heq, -, hnone, -⟩ := ownerAfter_cases h.db k ρ o
    · rw [heq]
      exact hcreated n g hn
    · rw [heq, Function.update_of_ne]
      · exact hcreated n g hn
      · rintro rfl
        have := (h.created n g hn).1
        rw [hnone] at this
        cases this
  | finish w hw | crash w =>
    exact ⟨owner, .refl owner, h.setWorker (.refl owner) h.db (.refl s.db) trivial hcreated⟩
  | @giveUp w k e log err hw =>
    exact ⟨owner, .refl owner, h.setWorker (.refl owner) h.db (.refl s.db)
      (h.executing hw).job.isJob hcreated⟩
  | @fail w ρ k reason hw =>
    have hj := h.failing hw
    exact ⟨owner, .refl owner, h.setWorker (.refl owner)
      (dbOwned_run h.db fun q hq => by cases hq; exact hj.respects_failJob ρ.env reason)
      (kept_run ρ _) trivial hcreated⟩
  | @timeout w ρ k e log o p hw =>
    have he := h.executing hw
    have hdb : DbOwned owner (o.run ρ s.db).2 :=
      dbOwned_run h.db fun q hq => by subst hq; exact he.respects ρ.env
    exact ⟨owner, .refl owner, h.setWorker (.refl owner) hdb (kept_run ρ o)
      (he.job.isJob.kept hdb (kept_run ρ o)) hcreated⟩
  | request n req hn =>
    exact ⟨owner, .refl owner, h.setHandler (.refl owner) h.db (.refl s.db)
      (Follows.mono (handler_follows cfg urls req) fun _ _ _ => trivial) (fun g hg => by cases hg)
      fun n' g _ => hcreated n' g⟩
  | @handle n ρ req log o p hn => exact h.handle hn
  | respond n hn | drop n =>
    exact ⟨owner, .refl owner, h.setHandler (.refl owner) h.db (.refl s.db) trivial
      (fun g hg => hg.elim) fun n' g _ => hcreated n' g⟩
  | requeue ρ st | failOver ρ st =>
    refine ⟨owner, .refl owner, h.setStall (ρ := ρ) st (dbOwned_run h.db ?_)⟩
    intro q hq
    cases hq
    trivial

theorem owned_init : ∃ owner, Owned owner Sys.init := by
  have hdb : DbOwned (fun _ => none) Sys.init.db :=
    ⟨fun _ hr => (List.not_mem_nil hr).elim, fun _ hg => Bool.noConfusion hg⟩
  exact ⟨fun _ => none, hdb, fun _ => trivial, fun _ => trivial, fun _ _ hg => hg.elim,
    fun _ _ _ hg => hg.elim⟩

/-- **In every reachable state each group has one job**, and everyone in flight agrees on it. -/
theorem owned_run (h : (sysLts cfg urls).Run es t) : ∃ owner, Owned owner t := by
  refine Lts.Run.invariant (I := fun _ t => ∃ owner, Owned owner t) ?_ ?_ h
  · rintro s rfl
    exact owned_init
  · rintro es s ev t - ⟨owner, h⟩ hstep
    obtain ⟨owner', -, h'⟩ := owned_step h hstep
    exact ⟨owner', h'⟩

end Step

end FireCtrl
