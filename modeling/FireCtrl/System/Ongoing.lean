import FireCtrl.Pages
import FireCtrl.Routes
import FireCtrl.System.Cancel
import FireCtrl.System.Locks

/-!
# Groups without jobs

A group is active from `create_crawl_group` on, and its job is a row of another table, so the two can
come apart: a job that fails, times out or is failed over leaves its group active.

* `Attended g`: group `g` has a queued or active row, or someone is at work on it; `Orderly`: the steps
  that end no such row of an active group, and at which nobody breaks off between two statements that
  belong together. **`ongoing_run`**: in the runs of such steps an active group has a queued or active
  row whenever nobody is at work; `not_ongoing`: not in every run. `ongoingReally_iff`: these are the groups
  that `GET /v2/crawl/ongoing` lists.
-/

namespace FireCtrl

open Query (RowStep)
open Prog (Follows)

/-- `get_active_groups` returns group `g`. -/
def Db.Active (db : Db) (g : Uuid) : Prop :=
  ∃ group, db.groups.lookup g = some group ∧ group.status = .active

/-- A job of group `g` waits or runs. -/
def Db.Ongoing (db : Db) (g : Uuid) : Prop := ∃ r ∈ db.queue, r.groupId = some g ∧ r.Pending

/-- The group of a job, between its creation or lookup and the statement that completes it. -/
def Phase.open? : Phase → Option Uuid
  | fresh g | pages g _ _ => some g
  | start | closing .. | closed | failed => none

def WorkerState.open? : WorkerState → Option Uuid
  | executing _ _ log _ => (jobPhase log).open?
  | idle | failing .. | stopped => none

/-- The group of a request between two of its statements: created, and its job not yet enqueued; or its
rows cancelled, and the group itself not yet. -/
def HandlerPhase.open? : HandlerPhase → Option Uuid
  | created g | cancelling g => some g
  | start | done => none

def HandlerState.open? : HandlerState → Option Uuid
  | running _ log _ => (handlerPhase log).open?
  | waiting | gone => none

/-- What the actor is at work on. -/
def Actor.open? (s : Sys) : Actor → Option Uuid
  | worker w => (s.workers w).open?
  | handler n => (s.handlers n).open?
  | stall => none

/-- The last call failed. -/
def Log.failed (log : Log) : Bool :=
  match log.getLast? with
  | some ⟨.db _, .error _⟩ => true
  | _ => false

def Phase.isFailed : Phase → Bool
  | failed => true
  | _ => false

/-- The actor was crashed, timed out or dropped, or its call failed. -/
def Actor.brokeOff (t : Sys) : Actor → Bool
  | worker w =>
    match t.workers w with
    | .executing _ _ log _ => (jobPhase log).isFailed
    | .failing .. | .stopped => true
    | .idle => false
  | handler n =>
    match t.handlers n with
    | .running _ log _ => log.failed
    | .gone => true
    | .waiting => false
  | stall => false

def WorkerState.atRest : WorkerState → Bool
  | idle | stopped => true
  | executing .. | failing .. => false

def HandlerState.atRest : HandlerState → Bool
  | waiting | gone => true
  | running .. => false

/-- The actor is not between two of its steps. -/
def Actor.atRest (t : Sys) : Actor → Bool
  | worker w => (t.workers w).atRest
  | handler n => (t.handlers n).atRest
  | stall => true

/-- Whose step an event reports. -/
def Event.actor : Event → Actor
  | statement a _ | external a _ | other a => a
  | finished w _ _ => .worker w
  | responded n _ _ => .handler n

/-- The statement cancels the rows of group `g`, to be followed by the one that cancels the group. -/
def Event.CancelsRows (g : Uuid) (ev : Event) : Prop :=
  ∃ x, ev.executed = some x ∧ x.query = .cancelGroupJobs g

/-- The steps that leave no active group behind:
* a statement that finishes a queued or active row of an active group, or moves it to another group,
  does so while a worker has the group open, unless it is the first one of `cancel_group`;
* who breaks off, leaves without a queued or active row no active group that it had open, has just
  created, or has just cancelled the rows of. -/
structure Orderly (s : Sys) (ev : Event) (t : Sys) : Prop where
  rows : ∀ x k r g, ev.executed = some x → k ∈ x.rows → s.db.queue.lookup k = some r → r.Pending →
    r.groupId = some g → s.db.Active g → ¬ t.db.Ongoing g → ¬ ev.CancelsRows g →
    ∃ w, (s.workers w).open? = some g
  actor : ev.actor.brokeOff t = true → ∀ g, t.db.Active g → ¬ t.db.Ongoing g →
    ev.actor.open? s ≠ some g ∧ ¬ ev.CancelsRows g ∧ (s.db.groups.lookup g).isSome

/-- Group `g` has a queued or active row, or someone is at work on it. -/
def Attended (g : Uuid) (s : Sys) : Prop := s.db.Ongoing g ∨ ∃ a : Actor, a.open? s = some g

section Steps

variable {cfg : Config} {urls : UrlCrate} {s t : Sys} {ev : Event} {es : List Event} {owner : Owner}
  {g : Uuid} {q : Query} {a : Actor} {k : Key} {e : JobEnvelope} {env : Env}

/-! ## Actors that do not move -/

theorem event_actor (s : Sys) (a : Actor) (ρ : Reply) (o : Op) : (s.event a ρ o).actor = a := by
  unfold Sys.event
  split <;> rfl

theorem workers_of_ne (hstep : (sysLts cfg urls).step s ev t) {w : Uuid} (h : ev.actor ≠ .worker w) :
    t.workers w = s.workers w := by
  cases sysStep_of_step hstep with
  | claim w' | work w' | fail w' | timeout w' =>
    rw [event_actor] at h
    rw [setWorker_workers, if_neg fun hw => h (by rw [hw])]
    rfl
  | finish w' | giveUp w' | crash w' =>
    rw [setWorker_workers, if_neg fun hw => h (by rw [hw]; rfl)]
  | request | handle | respond | drop | requeue | failOver => rfl

theorem handlers_of_ne (hstep : (sysLts cfg urls).step s ev t) {n : ℕ} (h : ev.actor ≠ .handler n) :
    t.handlers n = s.handlers n := by
  cases sysStep_of_step hstep with
  | handle n' =>
    rw [event_actor] at h
    rw [setHandler_handlers, if_neg fun hn => h (by rw [hn])]
    rfl
  | request n' | respond n' | drop n' =>
    rw [setHandler_handlers, if_neg fun hn => h (by rw [hn]; rfl)]
  | claim | work | finish | giveUp | fail | timeout | crash | requeue | failOver => rfl

theorem open_of_ne (hstep : (sysLts cfg urls).step s ev t) (h : a ≠ ev.actor) :
    a.open? t = a.open? s := by
  cases a with
  | worker w => exact congrArg WorkerState.open? (workers_of_ne hstep h.symm)
  | handler n => exact congrArg HandlerState.open? (handlers_of_ne hstep h.symm)
  | stall => rfl

/-! ## Groups -/

/-- A statement of the system makes no group active that was not. -/
theorem active_of_exec (hi : Issued s a q) (h : ((q.exec env s.db).2).Active g)
    (hg : (s.db.groups.lookup g).isSome) : s.db.Active g := by
  obtain ⟨row, hrow⟩ := Option.isSome_iff_exists.mp hg
  obtain ⟨group, hgroup, hst⟩ := h
  rw [Query.lookup_groups_exec hrow, Option.some.injEq] at hgroup
  subst hgroup
  refine ⟨row, hrow, ?_⟩
  cases q with
  | setGroupStatus id status =>
    obtain rfl := issued_setGroupStatus hi
    by_cases hid : row.id = id
    · simp [Query.touchGroup, hid] at hst
    · simpa [Query.touchGroup, hid] using hst
  | cancelGroupRow id =>
    by_cases hid : row.id = id
    · simp [Query.touchGroup, hid] at hst
    · simpa [Query.touchGroup, hid] using hst
  | _ => exact hst

/-- `set_group_status` and the second statement of `cancel_group` close the group. -/
theorem not_active_updateGroup {db : Db} {status : GroupStatus} (h : status ≠ .active) :
    ¬ (db.updateGroup g status).Active g := by
  rintro ⟨group, hgroup, hst⟩
  rw [Query.lookup_updateGroup] at hgroup
  obtain ⟨row, hrow, rfl⟩ := Option.map_eq_some_iff.mp hgroup
  rw [if_pos (KTable.key_of_lookup hrow)] at hst
  exact h hst

/-- A new group comes from `create_crawl_group`, which returns it. -/
theorem created_of_new {db : Db} (hnone : db.groups.lookup g = none)
    (h : (((q.exec env db).2).groups.lookup g).isSome) :
    ∃ ownerId ttlMs group, q = .createCrawlGroup ownerId ttlMs ∧ group.id = g ∧
      ((Query.createCrawlGroup ownerId ttlMs).exec env db).1 = .ok group := by
  rcases Query.lookup_groups_exec_cases env db q g with hl | ⟨-, group, hl, -, ownerId, ttlMs, hq, hok⟩
  · rw [hl, hnone] at h
    cases h
  · exact ⟨ownerId, ttlMs, group, hq, KTable.key_of_lookup hl, hok⟩

/-! ## What an actor does with its group -/

/-- A job keeps its group open, fails, or closes it. -/
theorem job_open (ρ : Reply) (db : Db) {o : Op} {ph : Phase} (hallow : JobAllows k e ph o)
    (hg : ph.open? = some g) :
    (jobNext ph o (o.run ρ db).1).open? = some g ∨ jobNext ph o (o.run ρ db).1 = .failed ∨
      ¬ (o.run ρ db).2.Active g := by
  cases hallow with
  | @attach g' =>
    rcases (Op.run ρ (.db (.updateJobGroup k.1 k.2 g')) db).1 with err | u
    · exact .inr (.inl rfl)
    · exact .inl hg
  | @crawl g' params =>
    rcases (Op.run ρ (.ext (.crawl params)) db).1 with err | results
    · exact .inl hg
    · exact .inl hg
  | @join g' todo stored task ts =>
    rcases (Op.run ρ (.ext (.joinNext task ts)) db).1 with ⟨i, _ | _ | res⟩
    · exact .inl hg
    · exact .inl hg
    · exact .inl hg
  | @store g' u todo stored priority res =>
    rcases (Op.run ρ (.db (.enqueueCompleted (subData u) (toValue res) priority none (some g') none))
      db).1 with err | row
    · exact .inr (.inl rfl)
    · exact .inl hg
  | @close g' stored =>
    rcases ha : (Op.run ρ (.db (.setGroupStatus g' .completed)) db).1 with err | u
    · exact .inr (.inl rfl)
    · obtain rfl : g' = g := by simpa [Phase.open?] using hg
      obtain ⟨hx, -⟩ := Op.run_ok ha
      rw [Op.run_snd_of_executes hx]
      exact .inr (.inr (not_active_updateGroup (by simp)))
  | notify => exact .inl hg
  | lookup | create | finishGroup | await | finish | notifyClosed => cases hg

/-- A request enqueues the job of the group that it has created, cancels the group whose rows it has
cancelled, or its statement fails. -/
theorem request_open (ρ : Reply) (db : Db) {o : Op} {ph : HandlerPhase} (hallow : HandlerAllows ph o)
    (hg : ph.open? = some g) :
    (∃ q err, (⟨o, (o.run ρ db).1⟩ : (o : Op) × o.Ans) = ⟨.db q, .error err⟩) ∨
      ¬ (o.run ρ db).2.Active g ∨ (o.run ρ db).2.Ongoing g := by
  cases hallow with
  | @enqueueCrawl g' priority job hjob =>
    rcases ha : (Op.run ρ (.db (.enqueue (toValue (JobEnvelope.crawl job)) priority none (some g') none))
      db).1 with err | row
    · exact .inl ⟨_, err, rfl⟩
    · obtain rfl : g' = g := by simpa [HandlerPhase.open?] using hg
      obtain ⟨hx, hok⟩ := Op.run_ok ha
      rw [Op.run_snd_of_executes hx]
      obtain ⟨-, -, hl⟩ := Query.insertRow_ok ρ.env hok
      exact .inr (.inr ⟨_, KTable.mem_of_lookup hl, rfl, .inl rfl⟩)
  | @cancelGroupRow g' =>
    rcases ha : (Op.run ρ (.db (.cancelGroupRow g')) db).1 with err | u
    · exact .inl ⟨_, err, rfl⟩
    · obtain rfl : g' = g := by simpa [HandlerPhase.open?] using hg
      obtain ⟨hx, -⟩ := Op.run_ok ha
      rw [Op.run_snd_of_executes hx]
      exact .inr (.inl (not_active_updateGroup (by simp)))
  | create | enqueueBatch | enqueueExtract | lookup | lookupJob | cancelJob | cancelGroupJobs => cases hg

theorem brokeOff_of_log {n : ℕ} {req : Request} {log : Log} {o : Op} {ans : o.Ans}
    {rest : Prog Op Op.Ans (Except AppError Response)}
    (hn : t.handlers n = .running req (log ++ [⟨o, ans⟩]) rest)
    (h : ∃ q err, (⟨o, ans⟩ : (o : Op) × o.Ans) = ⟨.db q, .error err⟩) :
    (Actor.handler n).brokeOff t = true := by
  obtain ⟨q, err, heq⟩ := h
  simp [Actor.brokeOff, hn, Log.failed, heq]

/-- **Who has a group open** keeps it open, breaks off, or leaves it closed or with a job that waits. -/
theorem open_step (ho : Owned owner s) (hstep : (sysLts cfg urls).step s ev t)
    (hg : ev.actor.open? s = some g) :
    ev.actor.open? t = some g ∨ ev.actor.brokeOff t = true ∨ ¬ t.db.Active g ∨ t.db.Ongoing g := by
  cases sysStep_of_step hstep with
  | claim w ρ hw =>
    rw [event_actor, Actor.open?, hw] at hg
    cases hg
  | @work w ρ k e log o p hw =>
    rw [event_actor, Actor.open?, hw] at hg
    rw [event_actor]
    simp only [Actor.open?, Actor.brokeOff, setWorker_workers, if_true, WorkerState.open?,
      jobPhase_append_singleton]
    obtain h | h | h := job_open ρ s.db (ho.executing hw).allows hg
    · exact .inl h
    · exact .inr (.inl (by rw [h]; rfl))
    · exact .inr (.inr (.inl h))
  | @finish w k e log hw =>
    rw [Event.actor, Actor.open?, hw, WorkerState.open?,
      show jobPhase log = .closed from (ho.executing hw).follows () rfl] at hg
    cases hg
  | giveUp w hw =>
    simp [Event.actor, Actor.brokeOff, setWorker_workers]
  | fail w ρ hw =>
    rw [event_actor, Actor.open?, hw] at hg
    cases hg
  | timeout w ρ hw =>
    rw [event_actor]
    simp [Actor.brokeOff, setWorker_workers]
  | crash w => simp [Event.actor, Actor.brokeOff, setWorker_workers]
  | request n req hn =>
    rw [Event.actor, Actor.open?, hn] at hg
    cases hg
  | @handle n ρ req log o p hn =>
    rw [event_actor, Actor.open?, hn] at hg
    rw [event_actor]
    obtain h | h | h := request_open ρ s.db (ho.running hn).1 hg
    · have hrun := setHandler_handlers (s.perform ρ o) n n
        (.running req (log ++ [⟨o, (o.run ρ s.db).1⟩]) (p (o.run ρ s.db).1))
      rw [if_pos rfl] at hrun
      exact .inr (.inl (brokeOff_of_log hrun h))
    · exact .inr (.inr (.inl h))
    · exact .inr (.inr (.inr h))
  | respond n hn => simp [Event.actor, Actor.brokeOff, setHandler_handlers]
  | drop n => simp [Event.actor, Actor.brokeOff, setHandler_handlers]
  | requeue ρ st | failOver ρ st =>
    rw [event_actor] at hg
    cases hg

/-- The next call of a job that creates a group has it open, or fails. -/
theorem job_created {ρ : Reply} {ph : Phase} {ownerId : Uuid} {ttlMs : Int64} {group : GroupCrawlRow}
    {db : Db} (hallow : JobAllows k e ph (.db (.createCrawlGroup ownerId ttlMs)))
    (hok : ((Query.createCrawlGroup ownerId ttlMs).exec ρ.env db).1 = .ok group) :
    (jobNext ph (.db (.createCrawlGroup ownerId ttlMs))
        (Op.run ρ (.db (.createCrawlGroup ownerId ttlMs)) db).1).open? = some group.id ∨
      jobNext ph (.db (.createCrawlGroup ownerId ttlMs))
        (Op.run ρ (.db (.createCrawlGroup ownerId ttlMs)) db).1 = .failed := by
  cases hallow with
  | create he hn =>
    rcases ha : (Op.run ρ (.db (.createCrawlGroup ownerId ttlMs)) db).1 with err | group'
    · exact .inr rfl
    · obtain ⟨-, hok'⟩ := Op.run_ok ha
      rw [hok, Except.ok.injEq] at hok'
      subst hok'
      exact .inl rfl

theorem request_created {ρ : Reply} {ph : HandlerPhase} {ownerId : Uuid} {ttlMs : Int64}
    {group : GroupCrawlRow} {db : Db}
    (hallow : HandlerAllows ph (.db (.createCrawlGroup ownerId ttlMs)))
    (hok : ((Query.createCrawlGroup ownerId ttlMs).exec ρ.env db).1 = .ok group) :
    (handlerNext ph (.db (.createCrawlGroup ownerId ttlMs))
        (Op.run ρ (.db (.createCrawlGroup ownerId ttlMs)) db).1).open? = some group.id ∨
      ∃ err, (Op.run ρ (.db (.createCrawlGroup ownerId ttlMs)) db).1 = .error err := by
  cases hallow with
  | create =>
    rcases ha : (Op.run ρ (.db (.createCrawlGroup ownerId ttlMs)) db).1 with err | group'
    · exact .inr ⟨err, rfl⟩
    · obtain ⟨-, hok'⟩ := Op.run_ok ha
      rw [hok, Except.ok.injEq] at hok'
      subst hok'
      exact .inl rfl

theorem request_cancelling {ρ : Reply} {ph : HandlerPhase} {db : Db}
    (hallow : HandlerAllows ph (.db (.cancelGroupJobs g))) :
    (handlerNext ph (.db (.cancelGroupJobs g)) (Op.run ρ (.db (.cancelGroupJobs g)) db).1).open? =
        some g ∨
      ∃ err, (Op.run ρ (.db (.cancelGroupJobs g)) db).1 = .error err := by
  cases hallow with
  | cancelGroupJobs =>
    rcases (Op.run ρ (.db (.cancelGroupJobs g)) db).1 with err | u
    · exact .inr ⟨err, rfl⟩
    · exact .inl rfl

/-- An operation that cancels the rows of group `g` or creates it. -/
theorem opens_op {ρ : Reply} {o : Op}
    (h : (s.event a ρ o).CancelsRows g ∨
      s.db.groups.lookup g = none ∧ ((o.run ρ s.db).2.groups.lookup g).isSome) :
    o = .db (.cancelGroupJobs g) ∨ ∃ ownerId ttlMs group, o = .db (.createCrawlGroup ownerId ttlMs) ∧
      group.id = g ∧ ((Query.createCrawlGroup ownerId ttlMs).exec ρ.env s.db).1 = .ok group := by
  rcases hx : o.executes ρ with _ | q
  · rcases h with ⟨x, hev, -⟩ | ⟨hnone, hsome⟩
    · rw [event_of_not_executes hx] at hev
      cases hev
    · rw [Op.run_snd_of_not_executes hx, hnone] at hsome
      cases hsome
  · obtain rfl := eq_db_of_executes hx
    rcases h with ⟨x, hev, hq⟩ | ⟨hnone, hsome⟩
    · rw [event_of_executes hx] at hev
      cases hev
      exact .inl (congrArg Op.db hq)
    · rw [Op.run_snd_of_executes hx] at hsome
      obtain ⟨ownerId, ttlMs, group, rfl, hid, hok⟩ := created_of_new hnone hsome
      exact .inr ⟨ownerId, ttlMs, group, rfl, hid, hok⟩

/-- **Who creates a group, or cancels its rows**, has it open then, or breaks off. -/
theorem opened_step (ho : Owned owner s) (hstep : (sysLts cfg urls).step s ev t)
    (h : ev.CancelsRows g ∨ s.db.groups.lookup g = none ∧ (t.db.groups.lookup g).isSome) :
    ev.actor.open? t = some g ∨ ev.actor.brokeOff t = true := by
  have hidle (hx : ev.executed = none) (hdb : t.db = s.db) : False := by
    rcases h with ⟨x, hev, -⟩ | ⟨hnone, hsome⟩
    · rw [hx] at hev; cases hev
    · rw [hdb, hnone] at hsome; cases hsome
  cases sysStep_of_step hstep with
  | claim w ρ hw | fail w ρ hw | requeue ρ st | failOver ρ st =>
    obtain heq | ⟨ownerId, ttlMs, group, heq, -⟩ := opens_op h <;> cases heq
  | @work w ρ k e log o p hw =>
    rw [event_actor]
    simp only [Actor.open?, Actor.brokeOff, setWorker_workers, if_true, WorkerState.open?,
      jobPhase_append_singleton]
    have hallow := (ho.executing hw).allows
    obtain rfl | ⟨ownerId, ttlMs, group, rfl, rfl, hok⟩ := opens_op h
    · generalize jobPhase log = ph at hallow
      cases hallow
    · exact (job_created hallow hok).imp_right fun h => by rw [h]; rfl
  | @handle n ρ req log o p hn =>
    rw [event_actor]
    have hrun := setHandler_handlers (s.perform ρ o) n n
      (.running req (log ++ [⟨o, (o.run ρ s.db).1⟩]) (p (o.run ρ s.db).1))
    rw [if_pos rfl] at hrun
    have hopen : (Actor.handler n).open? ((s.perform ρ o).setHandler n
        (.running req (log ++ [⟨o, (o.run ρ s.db).1⟩]) (p (o.run ρ s.db).1))) =
        (handlerNext (handlerPhase log) o (o.run ρ s.db).1).open? := by
      rw [Actor.open?, hrun, HandlerState.open?, handlerPhase_append_singleton]
    rw [hopen]
    have hallow := (ho.running hn).1
    obtain rfl | ⟨ownerId, ttlMs, group, rfl, rfl, hok⟩ := opens_op h
    · refine (request_cancelling hallow).imp_right ?_
      rintro ⟨err, herr⟩
      exact brokeOff_of_log hrun ⟨_, err, by rw [herr]⟩
    · refine (request_created hallow hok).imp_right ?_
      rintro ⟨err, herr⟩
      exact brokeOff_of_log hrun ⟨_, err, by rw [herr]⟩
  | timeout w ρ hw =>
    rw [event_actor]
    simp [Actor.brokeOff, setWorker_workers]
  | finish | giveUp | crash | request | respond | drop => exact (hidle rfl rfl).elim

/-! ## Runs -/

/-- **An orderly step leaves every active group attended.** -/
theorem attended_step (ho : Owned owner s) (hstep : (sysLts cfg urls).step s ev t)
    (hok : Orderly s ev t) (hatt : ∀ g, s.db.Active g → Attended g s) (hact : t.db.Active g) :
    Attended g t := by
  by_contra hno
  have hong : ¬ t.db.Ongoing g := fun h => hno (.inl h)
  have hopen (a : Actor) : a.open? t ≠ some g := fun h => hno (.inr ⟨a, h⟩)
  -- nobody has the group open before the step either
  have hclosed (a : Actor) : a.open? s ≠ some g := by
    intro h
    by_cases ha : a = ev.actor
    · subst ha
      obtain h' | h' | h' | h' := open_step ho hstep h
      · exact hopen _ h'
      · exact (hok.actor h' g hact hong).1 h
      · exact h' hact
      · exact hong h'
    · exact hopen a ((open_of_ne hstep ha).trans h)
  have hopened (h : ev.CancelsRows g ∨ s.db.groups.lookup g = none ∧ (t.db.groups.lookup g).isSome) :
      ¬ ev.CancelsRows g ∧ (s.db.groups.lookup g).isSome :=
    (opened_step ho hstep h).elim (fun h' => (hopen _ h').elim) fun h' => (hok.actor h' g hact hong).2
  have hsome : (t.db.groups.lookup g).isSome := by
    obtain ⟨group, hgroup, -⟩ := hact
    rw [hgroup]
    rfl
  have hexists : (s.db.groups.lookup g).isSome := by
    by_contra hn
    have hnone : s.db.groups.lookup g = none := by simpa using hn
    exact hn (hopened (.inr ⟨hnone, hsome⟩)).2
  have hact' : s.db.Active g := by
    rcases issued_of_step ho hstep with ⟨a, x, env, -, hi, ht⟩ | ⟨-, ht⟩
    · rw [ht] at hact
      exact active_of_exec hi hact hexists
    · rwa [ht] at hact
  obtain ⟨r, hr, hg, hst⟩ | ⟨a, h⟩ := hatt g hact'
  · obtain ⟨r', hr', rfl | ⟨x, env, hx, hk, -⟩⟩ := step_row hstep (KTable.lookup_key hr)
    · exact hong ⟨r', KTable.mem_of_lookup hr', hg, hst⟩
    · by_cases hc : ev.CancelsRows g
      · exact (hopened (.inl hc)).1 hc
      · obtain ⟨w, hw⟩ := hok.rows x r.key r g hx hk (KTable.lookup_key hr) hst hg hact' hong hc
        exact hclosed (.worker w) hw
  · exact hclosed a h

/-- No worker and no request is between two of its steps. -/
def Quiescent (t : Sys) : Prop := ∀ a : Actor, a.atRest t = true

theorem WorkerState.open_eq_none {ws : WorkerState} (h : ws.atRest = true) : ws.open? = none := by
  cases ws with
  | idle | stopped => rfl
  | executing | failing => cases h

theorem HandlerState.open_eq_none {hs : HandlerState} (h : hs.atRest = true) : hs.open? = none := by
  cases hs with
  | waiting | gone => rfl
  | running => cases h

theorem Quiescent.open_eq_none (h : Quiescent t) (a : Actor) : a.open? t = none := by
  cases a with
  | worker w => exact WorkerState.open_eq_none (h (.worker w))
  | handler n => exact HandlerState.open_eq_none (h (.handler n))
  | stall => rfl

theorem attended_run (h : ((sysLts cfg urls).restrict Orderly).Run es t) (hact : t.db.Active g) :
    Attended g t := by
  let I (_ : List Event) (t : Sys) : Prop :=
    (∃ owner, Owned owner t) ∧ ∀ g, t.db.Active g → Attended g t
  refine (Lts.Run.invariant (I := I) ?_ ?_ h).2 g hact
  · rintro s rfl
    refine ⟨owned_init, ?_⟩
    rintro g ⟨group, hgroup, -⟩
    cases hgroup
  · rintro es s ev t - ⟨⟨owner, ho⟩, hatt⟩ ⟨hstep, hok⟩
    obtain ⟨owner', -, ho'⟩ := owned_step ho hstep
    exact ⟨⟨owner', ho'⟩, fun g hact => attended_step ho hstep hok hatt hact⟩

end Steps

/-- Every group that `get_active_groups` returns has a queued or active row. -/
def OngoingReally (t : Sys) : Prop :=
  ∀ env groups, (Query.getActiveGroups.exec env t.db).1 = .ok groups → ∀ group ∈ groups,
    ∃ r ∈ t.db.queue, r.groupId = some group.id ∧ r.Pending

/-- That is, every group that `GET /v2/crawl/ongoing` lists. -/
theorem ongoingReally_iff {t : Sys} : OngoingReally t ↔ ∀ ρ job groups,
    (crawlOngoingHandler (.ok ())).read ρ job t.db = .ok groups → ∀ group ∈ groups,
      ∃ r ∈ t.db.queue, r.groupId = some group.id ∧ r.Pending := by
  have hread (ρ : Reply) (job : Uuid → Except AppError QueueScrapeRow) :
      (crawlOngoingHandler (.ok ())).read ρ job t.db = (Query.getActiveGroups.exec ρ.env t.db).1 := rfl
  constructor
  · intro h ρ job groups hgroups
    exact h ρ.env groups (hread ρ job ▸ hgroups)
  · intro h env groups hgroups
    exact h (.ok env.now env.uuid) (fun _ => .error .timeout) groups hgroups

/-- **Ongoing crawls are ongoing** whenever nobody is at work, in the runs whose steps are orderly. -/
theorem ongoing_run {cfg : Config} {urls : UrlCrate} {es : List Event} {t : Sys}
    (h : ((sysLts cfg urls).restrict Orderly).Run es t) (hq : Quiescent t) : OngoingReally t := by
  intro env groups hgroups group hgroup
  cases hgroups
  obtain ⟨hmem, hst⟩ := (KTable.mem_orderBy _).mp hgroup
  have hact : t.db.Active group.id := ⟨group, KTable.lookup_key hmem, by simpa using hst⟩
  obtain hong | ⟨a, ha⟩ := attended_run h hact
  · exact hong
  · rw [hq.open_eq_none a] at ha
    cases ha

/-! ## Schedules -/

section Schedule

variable {cfg : Config} {urls : UrlCrate} {s t : Sys} {ev : Event} {es : List Event}

/-- It is enough to look at the actors that have made steps. -/
theorem quiescent_of_run (h : (sysLts cfg urls).Run es t)
    (hrest : (es.map Event.actor).all (·.atRest t) = true) : Quiescent t := by
  have hinit (a : Actor) (ha : ∀ ev ∈ es, ev.actor ≠ a) : a.atRest t = true := by
    let I (es : List Event) (t : Sys) : Prop := (∀ ev ∈ es, ev.actor ≠ a) → a.atRest t = true
    refine Lts.Run.invariant (I := I) ?_ ?_ h ha
    · rintro s rfl -
      cases a <;> rfl
    · intro es s ev t _ ih hstep hne
      have hs := ih fun ev' hev => hne ev' (List.mem_append_left _ hev)
      have hev : ev.actor ≠ a := hne ev (by simp)
      cases a with
      | worker w => exact (congrArg WorkerState.atRest (workers_of_ne hstep hev)).trans hs
      | handler n => exact (congrArg HandlerState.atRest (handlers_of_ne hstep hev)).trans hs
      | stall => rfl
  intro a
  by_cases ha : ∀ ev ∈ es, ev.actor ≠ a
  · exact hinit a ha
  · simp only [not_forall, not_not] at ha
    obtain ⟨ev, hev, rfl⟩ := ha
    exact List.all_eq_true.mp hrest _ (List.mem_map_of_mem hev)

/-- The step writes no row, and who breaks off had nothing open. -/
def Plain (s : Sys) (ev : Event) (t : Sys) : Prop :=
  ev.executed.all (·.rows.isEmpty) = true ∧
    (ev.actor.brokeOff t = true → ev.actor.open? s = none ∧ ev.executed.isNone = true)

instance (s : Sys) (ev : Event) (t : Sys) : Decidable (Plain s ev t) := by
  unfold Plain
  infer_instance

theorem orderly_of_plain (hstep : (sysLts cfg urls).step s ev t) (h : Plain s ev t) :
    Orderly s ev t where
  rows x k r g hx hk := by
    have hnil : x.rows = [] := by simpa [hx] using h.1
    rw [hnil] at hk
    cases hk
  actor hb g hact _ := by
    obtain ⟨hopen, hx⟩ := h.2 hb
    have hx : ev.executed = none := by simpa using hx
    refine ⟨by simp [hopen], ?_, ?_⟩
    · rintro ⟨x, hev, -⟩
      rw [hx] at hev
      cases hev
    · rcases step_db hstep with ⟨a, env, q, rfl, -⟩ | ⟨-, ht⟩
      · cases hx
      · rw [← ht]
        obtain ⟨group, hgroup, -⟩ := hact
        rw [hgroup]
        rfl

/-- A crawl that has been accepted, and that no worker has taken yet. -/
theorem ongoing_run_accepted : ∃ es t, ((sysLts .sample .sample).restrict Orderly).Run es t ∧
    (t.db.groups.lookup 1).map GroupCrawlRow.status = some .active ∧ OngoingReally t := by
  obtain ⟨es, t, h, hobs⟩ := sampleRun_restrict Plain
    [.request 0 .sampleCrawl, .handle 0 (.ok 0 1), .handle 0 (.ok 0 2), .handle 0 (.ok 0 0)]
    (f := fun p => ((p.1.map Event.actor).all (·.atRest p.2),
      (p.2.db.groups.lookup 1).map GroupCrawlRow.status)) (a := (true, some .active)) rfl
  simp only [Prod.mk.injEq] at hobs
  have hrun := h.restrict_mono fun _ _ _ => orderly_of_plain
  exact ⟨es, t, hrun, hobs.2, ongoing_run hrun (quiescent_of_run h.of_restrict hobs.1)⟩

/-- A crawl that fails, and whose group stays active without a row that is queued or active. -/
theorem not_ongoing : ¬ ∀ (cfg : Config) (urls : UrlCrate) (es : List Event) (t : Sys),
    (sysLts cfg urls).Run es t → Quiescent t → OngoingReally t := by
  intro h
  let columns (p : List Event × Sys) :=
    ((p.1.map Event.actor).all (·.atRest p.2), (p.2.db.groups.lookup 1).map GroupCrawlRow.status,
      p.2.db.queue.rows.map Row.status)
  obtain ⟨es, s, es', t, hs, ht, -, hobs⟩ := sampleRun_split
    [.request 0 .sampleCrawl, .handle 0 (.ok 0 1), .handle 0 (.ok 0 2), .handle 0 (.ok 0 0),
      .work 9 (.ok 1 0), .work 9 { Reply.ok 2 0 with fault := some (false, .timeout) },
      .work 9 (.ok 3 0), .work 9 (.ok 3 0)] []
    (f := fun _ => ()) (a := ()) (g := columns) (b := (true, some .active, [.failed])) rfl rfl
  simp only [columns, Prod.mk.injEq, Option.map_eq_some_iff] at hobs
  obtain ⟨hrest, ⟨group, hgroup, hst⟩, hrows⟩ := hobs
  have hmem : group ∈ t.db.groups.orderBy (fun g => OrderDual.toDual g.createdAt)
      (fun g => g.status = .active) :=
    (KTable.mem_orderBy _).mpr ⟨KTable.mem_of_lookup hgroup, by simpa using hst⟩
  obtain ⟨r, hr, -, hp⟩ := h _ _ _ t (hs.trans ht) (quiescent_of_run (hs.trans ht) hrest) ⟨0, 0⟩ _ rfl
    group hmem
  have hstatus : r.status ∈ t.db.queue.rows.map Row.status := List.mem_map_of_mem hr
  rw [hrows, List.mem_singleton] at hstatus
  rcases hp with hp | hp <;> rw [hstatus] at hp <;> cases hp

end Schedule

end FireCtrl
