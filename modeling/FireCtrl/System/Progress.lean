import FireCtrl.Queue.Drain
import FireCtrl.System.Permits
import FireCtrl.System.Representation
import Mathlib.Data.Finset.Card
import Mathlib.Data.Finset.Order

/-!
# No job is stuck

Whatever has happened so far, the workers and the stall recovery can still finish every job: the stall
recovery takes back the rows that no worker has in hand, the jobs in hand end by their timeout, and a worker
that gets a permit claims what is left.

* `Db.Finished`, `Db.pending`: the finished rows stay so, and no statement but an insertion adds to the
  pending ones.
* `Closes`: a job that ends without an error has finished its row; **`closes_run`**.
* `InHands`: every active row is in the hands of a worker; `InHands.claim`, `InHands.free`.
* `Alone`, `Turn`: what workers, pool and stall recovery make of a state by themselves. `turn_of_holder`: a
  worker with a permit comes to the end of its iteration; `sweep_active`: no active row is left behind.
* **`permit_drains`**: from every state reached they lead to one without a pending row.
-/

namespace FireCtrl

open Query (RowStep)

/-! ## Finished and pending rows -/

/-- Row `k` is finished. -/
def Db.Finished (db : Db) (k : Key) : Prop :=
  ∃ r, db.queue.lookup k = some r ∧ r.status.terminal = true

/-- The queued and the active rows. -/
def Db.pending (db : Db) : Finset Key := (db.queue.keysWhere fun r => r.Pending).toFinset

section Rows

variable {db : Db} {env : Env} {q : Query} {k : Key} {r r' : Row}

theorem mem_pending : k ∈ db.pending ↔ ∃ r, db.queue.lookup k = some r ∧ r.Pending := by
  unfold Db.pending
  rw [List.mem_toFinset, KTable.mem_keysWhere_iff_lookup]
  simp

theorem terminal_rowStep (h : RowStep env q r r') (hr : r.status.terminal = true) :
    r'.status.terminal = true := by
  cases h with
  | claim _ hst | requeue _ _ hst | failOver _ _ hst => rw [hst] at hr; cases hr
  | complete | fail | cancel | cancelGroup => rfl
  | attach => exact hr

theorem pending_rowStep (h : RowStep env q r r') (hr : r'.Pending) : r.Pending := by
  cases h with
  | claim _ hst | failOver _ _ hst => exact .inl hst
  | requeue _ _ hst => exact .inr hst
  | complete | fail | cancel | cancelGroup => rcases hr with h | h <;> cases h
  | attach => exact hr

theorem Db.Finished.exec (h : db.Finished k) (env : Env) (q : Query) : (q.exec env db).2.Finished k := by
  obtain ⟨r, hr, hst⟩ := h
  refine ⟨_, Query.lookup_exec hr, ?_⟩
  rcases Query.touch_step q env hr with ⟨-, heq⟩ | ⟨-, hs⟩
  · rwa [heq]
  · exact terminal_rowStep hs hst

theorem Db.Finished.run (h : db.Finished k) (ρ : Reply) (o : Op) : (o.run ρ db).2.Finished k := by
  rcases ho : o.executes ρ with _ | q
  · rwa [Op.run_snd_of_not_executes ho]
  · rw [Op.run_snd_of_executes ho]
    exact h.exec ρ.env q

/-- Only an insertion makes a row pending. -/
theorem pending_exec (hq : q.newRow env = none) : (q.exec env db).2.pending ⊆ db.pending := by
  intro k hk
  obtain ⟨r', hr', hp⟩ := mem_pending.mp hk
  rcases hr : db.queue.lookup k with _ | r
  · rw [(Query.lookup_exec_of_none hr hr').1] at hq
    cases hq
  · rw [Query.lookup_exec hr, Option.some.injEq] at hr'
    refine mem_pending.mpr ⟨r, hr, ?_⟩
    rcases Query.touch_step q env hr with ⟨-, heq⟩ | ⟨-, hs⟩
    · rwa [← heq, hr']
    · exact pending_rowStep (hr' ▸ hs) hp

theorem QueueUpdate.mem_queue_run {u : QueueUpdate} :
    r' ∈ (u.run db).queue ↔ ∃ r ∈ db.queue, u.apply r = r' :=
  @KTable.mem_update _ _ Row.key u.selects u.set u.key_set db.queue r'

theorem touch_completeJob {rv : Json} (h : db.queue.lookup k = some r) :
    ((Query.completeJob k.1 k.2 rv).touch env db r).status = .completed := by
  have hk := KTable.key_of_lookup h
  simp [Query.touch, Query.update?, QueueUpdate.apply, sqlCompleteJob, ← hk, Row.key]

theorem touch_failJob {reason : String} (h : db.queue.lookup k = some r) :
    ((Query.failJob k.1 k.2 reason).touch env db r).status = .failed := by
  have hk := KTable.key_of_lookup h
  simp [Query.touch, Query.update?, QueueUpdate.apply, sqlFailJob, ← hk, Row.key]

end Rows

/-! ## Jobs that end -/

/-- A job that has come to its end has finished its row. -/
def Closes (s : Sys) : Prop :=
  ∀ w k e log rest, s.workers w = .executing k e log rest → jobPhase log = .closed → s.db.Finished k

section Closes

variable {cfg : Config} {urls : UrlCrate} {s t : Sys} {ev : Event} {es : List Event} {owner : Owner}
  {db : Db} {k : Key} {e : JobEnvelope} {ph : Phase} {o : Op} {w : Uuid}

/-- A job comes to its end with `complete_job`. -/
theorem finished_of_closed (hallow : JobAllows k e ph o) (ρ : Reply) (hk : ∃ r, db.queue.lookup k = some r)
    (hclosed : ph = .closed → db.Finished k) (h : jobNext ph o (o.run ρ db).1 = .closed) :
    (o.run ρ db).2.Finished k := by
  have hcomplete (rv : Json) (a : Except AppError Unit)
      (ha : ((Op.db (.completeJob k.1 k.2 rv)).run ρ db).1 = a) (hok : a = .ok ()) :
      ((Op.db (.completeJob k.1 k.2 rv)).run ρ db).2.Finished k := by
    obtain ⟨r, hr⟩ := hk
    obtain ⟨hx, -⟩ := Op.run_ok (ha.trans hok)
    rw [Op.run_snd_of_executes hx]
    exact ⟨_, Query.lookup_exec hr, by rw [touch_completeJob hr]; rfl⟩
  cases hallow with
  | notifyClosed => exact hclosed rfl
  | @finish rv =>
    rcases ha : ((Op.db (.completeJob k.1 k.2 rv)).run ρ db).1 with err | u
    · rw [ha] at h; cases h
    · exact hcomplete rv _ ha rfl
  | @finishGroup g stored =>
    rcases ha : ((Op.db (.completeJob k.1 k.2 (summary stored.length g))).run ρ db).1 with err | u
    · rw [ha] at h; cases h
    · exact hcomplete _ _ ha rfl
  | @lookup g =>
    rcases ha : ((Op.db (.getCrawlGroup g)).run ρ db).1 with err | u <;> rw [ha] at h <;> cases h
  | @create ownerId ttlMs =>
    rcases ha : ((Op.db (.createCrawlGroup ownerId ttlMs)).run ρ db).1 with err | u <;>
      rw [ha] at h <;> cases h
  | @attach g =>
    rcases ha : ((Op.db (.updateJobGroup k.1 k.2 g)).run ρ db).1 with err | u <;> rw [ha] at h <;> cases h
  | @close g stored =>
    rcases ha : ((Op.db (.setGroupStatus g .completed)).run ρ db).1 with err | u <;> rw [ha] at h <;> cases h
  | @store g u todo stored priority res =>
    rcases ha : ((Op.db (.enqueueCompleted (subData u) (toValue res) priority none (some g) none)).run ρ db).1
      with err | u <;> rw [ha] at h <;> cases h
  | @crawl g params =>
    rcases ha : ((Op.ext (.crawl params)).run ρ db).1 with err | results <;> rw [ha] at h <;> cases h
  | @join g todo stored u us =>
    rcases ha : ((Op.ext (.joinNext u us)).run ρ db).1 with ⟨i, _ | _ | res⟩ <;> rw [ha] at h <;> cases h
  | await => cases h
  | notify => cases h

theorem closes_step (ho : Owned owner s) (h : Closes s) (hstep : (sysLts cfg urls).step s ev t) :
    Closes t := by
  cases sysStep_of_step hstep with
  | claim w ρ hw =>
    intro v k e log rest hv hph
    rw [setWorker_workers] at hv
    split_ifs at hv with hvw
    · rcases afterClaim_run cfg urls ρ w ho.db with hidle | ⟨r, -, e', -, -, -, hexec⟩
      · rw [hidle] at hv; cases hv
      · rw [hexec] at hv; cases hv; cases hph
    · exact (h v k e log rest hv hph).run ρ _
  | work w ρ hw =>
    intro v k e log rest hv hph
    rw [setWorker_workers] at hv
    split_ifs at hv with hvw
    · cases hv
      rw [jobPhase_append_singleton] at hph
      obtain ⟨r, hr, -⟩ := (ho.executing hw).job
      exact finished_of_closed (ho.executing hw).allows ρ ⟨r, hr⟩ (h w _ _ _ _ hw) hph
    · exact (h v k e log rest hv hph).run ρ _
  | timeout w ρ hw | fail w ρ hw =>
    intro v k e log rest hv hph
    rw [setWorker_workers] at hv
    split_ifs at hv with hvw
    exact (h v k e log rest hv hph).run ρ _
  | finish w hw | giveUp w hw | crash w =>
    intro v k e log rest hv hph
    rw [setWorker_workers] at hv
    split_ifs at hv with hvw
    exact h v k e log rest hv hph
  | handle n ρ hn | requeue ρ | failOver ρ =>
    exact fun v k e log rest hv hph => (h v k e log rest hv hph).run ρ _
  | request | respond | drop => exact h

theorem closes_run (h : (sysLts cfg urls).Run es t) : Closes t := by
  refine Lts.Run.invariant (I := fun _ t => Closes t) ?_ ?_ h
  · rintro s rfl w k e log rest hw
    cases hw
  · intro es s ev t hrun ih hstep
    obtain ⟨owner, ho⟩ := owned_run hrun
    exact closes_step ho ih hstep

end Closes

/-! ## Rows in hand -/

/-- Every active row is in the hands of a worker. -/
def InHands (s : Sys) : Prop :=
  ∀ k r, s.db.queue.lookup k = some r → r.status = .active → ∃ w, (s.workers w).job? = some k

section InHands

variable {cfg : Config} {urls : UrlCrate} {s : Sys} {env : Env} {db : Db} {k : Key} {r : Row} {w : Uuid}
  {l : List Row}

/-- Who steps keeps the row in hand, and the tables stay as they are. -/
theorem InHands.keep {ws : WorkerState} (h : InHands s) (hw : ws.job? = (s.workers w).job?) :
    InHands (s.setWorker w ws) := by
  intro k r hr hst
  obtain ⟨v, hv⟩ := h k r hr hst
  refine ⟨v, ?_⟩
  rw [setWorker_workers]
  split_ifs with hvw
  · rw [hw, ← hvw, hv]
  · exact hv

/-- A worker lets go of a row that is not active; the other rows stay as they are. -/
theorem InHands.free (h : InHands s) (hw : (s.workers w).job? = some k)
    (hk : ∀ r, db.queue.lookup k = some r → r.status ≠ .active)
    (hothers : ∀ k', k' ≠ k → db.queue.lookup k' = s.db.queue.lookup k') :
    InHands ({ s with db := db }.setWorker w .idle) := by
  intro k' r hr hst
  by_cases hkk : k' = k
  · exact absurd hst (hk r (hkk ▸ hr))
  · obtain ⟨v, hv⟩ := h k' r (hothers k' hkk ▸ hr) hst
    refine ⟨v, ?_⟩
    rw [setWorker_workers, if_neg]
    · exact hv
    · rintro rfl
      rw [hw, Option.some.injEq] at hv
      exact hkk hv.symm

/-- The worker that claims a row has it in hand. -/
theorem InHands.claim (h : InHands s) (hidle : s.workers w = .idle) (hq : s.db.queuedRows = r :: l) :
    InHands ({ s with db := (s.db.claimNextJob w env).2 }.setWorker w
      (afterClaim cfg urls (s.db.claimNextJob w env).1)) := by
  intro k r' hr' hst
  change (s.db.claimNextJob w env).2.queue.lookup k = some r' at hr'
  rw [Db.lookup_claimNextJob hq] at hr'
  obtain ⟨r₀, hr₀, heq⟩ := Option.map_eq_some_iff.mp hr'
  split_ifs at heq with hk
  · refine ⟨w, ?_⟩
    rw [setWorker_workers, if_pos rfl, Db.claimNextJob_fst hq, afterClaim_job, hk]
    rfl
  · obtain ⟨v, hv⟩ := h k r₀ hr₀ (heq ▸ hst)
    refine ⟨v, ?_⟩
    rw [setWorker_workers, if_neg]
    · exact hv
    · rintro rfl
      rw [hidle] at hv
      cases hv

/-- Where no worker has a job in hand, only queued rows are pending. -/
theorem exists_queued (h : InHands s) (hw : ∀ w, (s.workers w).job? = none) (hp : s.db.pending.Nonempty) :
    ∃ r l, s.db.queuedRows = r :: l := by
  obtain ⟨k, hk⟩ := hp
  obtain ⟨r, hr, hst | hst⟩ := mem_pending.mp hk
  · have hmem : r ∈ s.db.queuedRows :=
      (KTable.mem_orderBy claimOrder).mpr ⟨KTable.mem_of_lookup hr, by simpa using hst⟩
    exact List.exists_cons_of_ne_nil (List.ne_nil_of_mem hmem)
  · obtain ⟨w, hjob⟩ := h k r hr hst
    rw [hw w] at hjob
    cases hjob

end InHands

/-! ## Turns -/

/-- Workers, pool and stall recovery are by themselves: no request takes a step, and no worker panics. -/
def Alone {n : ℕ} (s : PermitSys n) (_ : Option Event) (t : PermitSys n) : Prop :=
  t.sys.handlers = s.sys.handlers ∧ ∀ w, t.sys.workers w = .stopped → s.sys.workers w = .stopped

/-- What they make of a state, with all active rows in hand in the end. -/
structure Turn (cfg : Config) (urls : UrlCrate) (maxConcurrentJobs numWorkers : UInt32)
    (s t : PermitSys maxConcurrentJobs.toNat) : Prop where
  steps : ∃ es, ((permitLts cfg urls maxConcurrentJobs numWorkers).restrict Alone).Steps s es t
  inHands : InHands t.sys
  pending : t.sys.db.pending ⊆ s.sys.db.pending
  live : ∀ w, t.sys.workers w = .stopped → s.sys.workers w = .stopped

/-- The worker can come to the end of its job, which is not pending then. -/
def Ends (cfg : Config) (urls : UrlCrate) (maxConcurrentJobs numWorkers : UInt32)
    (s : PermitSys maxConcurrentJobs.toNat) (w : Uuid) (k : Key) : Prop :=
  ∃ t, Turn cfg urls maxConcurrentJobs numWorkers s t ∧ t.sem = s.sem ∧ t.loops w = .returning ∧
    k ∉ t.sys.db.pending

section Turns

variable {cfg : Config} {urls : UrlCrate} {maxConcurrentJobs numWorkers : UInt32}
  {s t u : PermitSys maxConcurrentJobs.toNat} {es : List (Option Event)} {e : Option Event} {ev : Event}
  {c : Choice} {w : Uuid} {k : Key}

theorem Turn.refl (h : InHands s.sys) : Turn cfg urls maxConcurrentJobs numWorkers s s :=
  ⟨⟨[], .nil⟩, h, subset_rfl, fun _ hw => hw⟩

theorem Turn.trans (h : Turn cfg urls maxConcurrentJobs numWorkers s t)
    (h' : Turn cfg urls maxConcurrentJobs numWorkers t u) :
    Turn cfg urls maxConcurrentJobs numWorkers s u := by
  obtain ⟨es, hs⟩ := h.steps
  obtain ⟨es', hs'⟩ := h'.steps
  exact ⟨⟨es ++ es', hs.trans hs'⟩, h'.inHands, h'.pending.trans h.pending,
    fun w hw => h.live w (h'.live w hw)⟩

theorem Turn.run (h : Turn cfg urls maxConcurrentJobs numWorkers s t)
    (hs : ∃ es, (permitLts cfg urls maxConcurrentJobs numWorkers).Run es s) :
    ∃ es, (permitLts cfg urls maxConcurrentJobs numWorkers).Run es t := by
  obtain ⟨es, hs⟩ := hs
  obtain ⟨es', hsteps⟩ := h.steps
  exact ⟨es ++ es', hs.trans hsteps.of_restrict⟩

/-- A step of the pool alone. -/
theorem Turn.loop {c : PermitChoice} (hn : s.next cfg urls c = some (none, t)) (hsys : t.sys = s.sys)
    (h : InHands s.sys) : Turn cfg urls maxConcurrentJobs numWorkers s t where
  steps := ⟨[none], .single ⟨⟨c, hn⟩, by rw [hsys], by rw [hsys]; exact fun _ hw => hw⟩⟩
  inHands := hsys ▸ h
  pending := by rw [hsys]
  live := by rw [hsys]; exact fun _ hw => hw

/-- A step of a worker. -/
theorem Turn.worked {v : Sys} (ws : WorkerState) (hadm : s.admits c = true)
    (hn : next cfg urls s.sys c = some (ev, v)) (hh : v.handlers = s.sys.handlers)
    (hws : v.workers = Function.update s.sys.workers w ws) (hlive : ws ≠ .stopped)
    (hin : InHands v) (hp : v.db.pending ⊆ s.sys.db.pending) :
    Turn cfg urls maxConcurrentJobs numWorkers s { s with sys := v, loops := s.loopsAfter v c } := by
  have hstopped (x : Uuid) (hx : v.workers x = .stopped) : s.sys.workers x = .stopped := by
    rw [hws, Function.update_apply] at hx
    split_ifs at hx
    · exact absurd hx hlive
    · exact hx
  refine ⟨⟨[some ev], .single ⟨⟨.sys c, ?_⟩, hh, hstopped⟩⟩, hin, hp, hstopped⟩
  simp only [PermitSys.next, hadm, hn, if_true, Option.map_some]

/-- A failed job: `fail_job`. -/
theorem ends_of_failing {reason : String} (hbusy : s.loops w = .busy)
    (hw : s.sys.workers w = .failing k reason) (h : InHands s.sys) :
    Ends cfg urls maxConcurrentJobs numWorkers s w k := by
  let db := ((Query.failJob k.1 k.2 reason).exec ⟨0, 0⟩ s.sys.db).2
  let v : Sys := { s.sys with db := db }.setWorker w .idle
  have hn : next cfg urls s.sys (.work w (.ok 0 0)) =
      some (s.sys.event (.worker w) (.ok 0 0) (.db (.failJob k.1 k.2 reason)), v) := by
    simp only [next, workerStep, hw]
    rfl
  have hfailed (r : Row) (hr : db.queue.lookup k = some r) : r.status = .failed := by
    rcases hr₀ : s.sys.db.queue.lookup k with _ | r₀
    · cases (Query.lookup_exec_of_none hr₀ hr).1
    · have hl : db.queue.lookup k = _ := Query.lookup_exec hr₀
      rw [hr, Option.some.injEq] at hl
      rw [hl, touch_failJob hr₀]
  have hothers (k' : Key) (hk : k' ≠ k) : db.queue.lookup k' = s.sys.db.queue.lookup k' := by
    show ((sqlFailJob ⟨0, 0⟩ k.1 k.2 reason).run s.sys.db).queue.lookup k' = _
    rw [QueueUpdate.lookup_run]
    rcases hr : s.sys.db.queue.lookup k' with _ | r
    · rfl
    · have hsel : (sqlFailJob ⟨0, 0⟩ k.1 k.2 reason).selects r = false := by
        simp only [sqlFailJob, decide_eq_false_iff_not]
        rintro ⟨h₁, h₂⟩
        exact hk ((KTable.key_of_lookup hr).symm.trans (Prod.ext h₁ h₂))
      rw [Option.map_some, QueueUpdate.apply, hsel]
      rfl
  refine ⟨_, .worked .idle (by simp [PermitSys.admits, hbusy]) hn rfl rfl (fun h => by cases h) ?_ ?_, rfl, ?_, ?_⟩
  · refine h.free (by rw [hw]; rfl) (fun r hr => ?_) hothers
    rw [hfailed r hr]
    exact fun h => by cases h
  · exact pending_exec rfl
  · simp [PermitSys.loopsAfter, v, setWorker_workers, WorkerState.isIdle]
  · intro hk
    obtain ⟨r, hr, hp | hp⟩ := mem_pending.mp hk
    · rw [hfailed r hr] at hp; cases hp
    · rw [hfailed r hr] at hp; cases hp

/-- A job that has just failed. -/
theorem ends_of_next {reason : String} (hbusy : s.loops w = .busy) (hjob : (s.sys.workers w).job? = some k)
    (h : InHands s.sys) (hc : ∃ ρ, c = .work w ρ ∨ c = .timeout w ρ)
    (hn : next cfg urls s.sys c = some (ev, s.sys.setWorker w (.failing k reason))) :
    Ends cfg urls maxConcurrentJobs numWorkers s w k := by
  have hadm : s.admits c = true := by
    obtain ⟨ρ, rfl | rfl⟩ := hc <;> simp [PermitSys.admits, hbusy]
  have hafter : s.loopsAfter (s.sys.setWorker w (.failing k reason)) c w = .busy := by
    obtain ⟨ρ, rfl | rfl⟩ := hc <;>
      simp [PermitSys.loopsAfter, setWorker_workers, WorkerState.isIdle]
  have hstep : Turn cfg urls maxConcurrentJobs numWorkers s _ :=
    .worked (.failing k reason) hadm hn rfl rfl (fun h => by cases h) (h.keep hjob.symm) subset_rfl
  have hfailing : (s.sys.setWorker w (.failing k reason)).workers w = .failing k reason := by
    rw [setWorker_workers, if_pos rfl]
  obtain ⟨t, ht, hsem, hl, hk⟩ : Ends cfg urls maxConcurrentJobs numWorkers _ w k :=
    ends_of_failing hafter hfailing hstep.inHands
  exact ⟨t, hstep.trans ht, hsem, hl, hk⟩

/-- A job in hand can come to its end: by its timeout, where it awaits something. -/
theorem ends_of_busy {owner : Owner} (ho : Owned owner s.sys) (hcl : Closes s.sys) (hbusy : s.loops w = .busy)
    (hjob : (s.sys.workers w).job? = some k) (h : InHands s.sys) :
    Ends cfg urls maxConcurrentJobs numWorkers s w k := by
  cases hw : s.sys.workers w with
  | idle | stopped => rw [hw] at hjob; cases hjob
  | failing k' reason =>
    rw [hw] at hjob
    cases hjob
    exact ends_of_failing hbusy hw h
  | executing k' e log rest =>
    have hk : k' = k := by
      rw [hw] at hjob
      exact Option.some.inj hjob
    subst hk
    cases rest with
    | op o p =>
      -- the call under way never reaches the server
      let ρ : Reply := { Reply.ok 0 0 with fault := some (false, .timeout) }
      have hx : o.executes ρ = none := by cases o <;> rfl
      have hdb : s.sys.perform ρ o = s.sys := by
        unfold Sys.perform
        rw [Op.run_snd_of_not_executes hx]
      have hn : next cfg urls s.sys (.timeout w ρ) =
          some (s.sys.event (.worker w) ρ o, s.sys.setWorker w (.failing k' "job timeout")) := by
        simp only [next, timeoutStep, hw, hdb]
      exact ends_of_next hbusy hjob h ⟨ρ, .inr rfl⟩ hn
    | ret res =>
      cases res with
      | error err =>
        have hn : next cfg urls s.sys (.work w (.ok 0 0)) =
            some (.other (.worker w), s.sys.setWorker w (.failing k' err.toString)) := by
          simp only [next, workerStep, hw]
        exact ends_of_next hbusy hjob h ⟨.ok 0 0, .inl rfl⟩ hn
      | ok u =>
        have hfin : s.sys.db.Finished k' := hcl w k' e log _ hw ((ho.executing hw).follows () rfl)
        obtain ⟨r, hr, hst⟩ := hfin
        have hn : next cfg urls s.sys (.work w (.ok 0 0)) = some (.finished w k' log, s.sys.setWorker w .idle) := by
          simp only [next, workerStep, hw]
        refine ⟨_, .worked .idle (by simp [PermitSys.admits, hbusy]) hn rfl rfl (fun h => by cases h) ?_
          subset_rfl, rfl, ?_, ?_⟩
        · show InHands ({ s.sys with db := s.sys.db }.setWorker w .idle)
          refine h.free hjob (fun r' hr' ha => ?_) fun _ _ => rfl
          rw [hr, Option.some.injEq] at hr'
          rw [hr', ha] at hst
          cases hst
        · simp [PermitSys.loopsAfter, setWorker_workers, WorkerState.isIdle]
        · intro hk
          obtain ⟨r', hr', hp⟩ := mem_pending.mp hk
          change s.sys.db.queue.lookup k' = some r' at hr'
          rw [hr, Option.some.injEq] at hr'
          rcases hp with hp | hp <;> rw [hr', hp] at hst <;> cases hst

/-- A worker with a permit claims the next row, and comes to the end of its job. -/
theorem turn_of_claim (hrun : ∃ es, (permitLts cfg urls maxConcurrentJobs numWorkers).Run es s)
    (hacq : s.loops w = .acquiring) (hholds : w ∈ s.sem.holders) (h : InHands s.sys) :
    ∃ t, Turn cfg urls maxConcurrentJobs numWorkers s t ∧ t.sem = s.sem ∧ t.loops w = .returning ∧
      ∀ r l, s.sys.db.queuedRows = r :: l → r.key ∉ t.sys.db.pending := by
  have hidle : s.sys.workers w = .idle := by
    obtain ⟨es, hes⟩ := hrun
    have ha := (permitted_run hes).1.agrees w
    rw [Agrees, hacq] at ha
    exact ha.1
  have hadm : s.admits (.work w (.ok 0 0)) = true := by simp [PermitSys.admits, hacq, hholds]
  have hn : next cfg urls s.sys (.work w (.ok 0 0)) =
      some (s.sys.event (.worker w) (.ok 0 0) (.db (.claimNextJob w)),
        { s.sys with db := (s.sys.db.claimNextJob w ⟨0, 0⟩).2 }.setWorker w
          (afterClaim cfg urls (s.sys.db.claimNextJob w ⟨0, 0⟩).1)) := by
    simp only [next, workerStep, hidle]
    rfl
  rcases hq : s.sys.db.queuedRows with _ | ⟨r, l⟩
  · have hnone : next cfg urls s.sys (.work w (.ok 0 0)) =
        some (s.sys.event (.worker w) (.ok 0 0) (.db (.claimNextJob w)), s.sys.setWorker w .idle) := by
      rw [hn, Db.claimNextJob_nil hq]
      rfl
    have hkeep : InHands (s.sys.setWorker w .idle) := h.keep (by rw [hidle])
    have hstep : Turn cfg urls maxConcurrentJobs numWorkers s _ :=
      .worked .idle hadm hnone rfl rfl (fun h => by cases h) hkeep subset_rfl
    refine ⟨_, hstep, rfl, ?_, fun r l heq => by cases heq⟩
    simp [PermitSys.loopsAfter, setWorker_workers, WorkerState.isIdle]
  · have hjob : (afterClaim cfg urls (s.sys.db.claimNextJob w ⟨0, 0⟩).1).job? = some r.key := by
      rw [Db.claimNextJob_fst hq, afterClaim_job]
      rfl
    have hlive : afterClaim cfg urls (s.sys.db.claimNextJob w ⟨0, 0⟩).1 ≠ .stopped := by
      intro hst
      rw [hst] at hjob
      cases hjob
    have hp : ((Query.claimNextJob w).exec ⟨0, 0⟩ s.sys.db).2.pending ⊆ s.sys.db.pending := pending_exec rfl
    have hstep : Turn cfg urls maxConcurrentJobs numWorkers s _ :=
      .worked _ hadm hn rfl rfl hlive (h.claim hidle hq) hp
    obtain ⟨es, hrun'⟩ := hstep.run hrun
    obtain ⟨owner, ho⟩ := owned_run (sys_run_of_permit hrun')
    have hbusy : s.loopsAfter ({ s.sys with db := (s.sys.db.claimNextJob w ⟨0, 0⟩).2 }.setWorker w
        (afterClaim cfg urls (s.sys.db.claimNextJob w ⟨0, 0⟩).1)) (.work w (.ok 0 0)) w = .busy := by
      have hne : (afterClaim cfg urls (s.sys.db.claimNextJob w ⟨0, 0⟩).1).isIdle = false := by
        cases hc : afterClaim cfg urls (s.sys.db.claimNextJob w ⟨0, 0⟩).1 with
        | idle => rw [hc] at hjob; cases hjob
        | executing | failing | stopped => rfl
      simp [PermitSys.loopsAfter, setWorker_workers, hne]
    obtain ⟨t, ht, hsem, hl, hk⟩ : Ends cfg urls maxConcurrentJobs numWorkers _ w r.key :=
      ends_of_busy ho (closes_run (sys_run_of_permit hrun')) hbusy
        (by rw [setWorker_workers, if_pos rfl]; exact hjob) hstep.inHands
    exact ⟨t, hstep.trans ht, hsem, hl, fun r' l' heq => by cases heq; exact hk⟩

/-- **A worker with a permit can come to the end of its iteration** and give the permit back. If it has yet to
claim a job, there is one job less to do. -/
theorem turn_of_holder (hrun : ∃ es, (permitLts cfg urls maxConcurrentJobs numWorkers).Run es s)
    (hholds : w ∈ s.sem.holders) (h : InHands s.sys) :
    ∃ t, Turn cfg urls maxConcurrentJobs numWorkers s t ∧ t.sem = s.sem.leave w ∧
      (s.loops w = .acquiring → t.loops w = .resting ∧
        ∀ r l, s.sys.db.queuedRows = r :: l → r.key ∉ t.sys.db.pending) := by
  have hinside := s.sem.inside_of_holder hholds
  have hrelease {t : PermitSys maxConcurrentJobs.toNat}
      (ht : Turn cfg urls maxConcurrentJobs numWorkers s t) (hsem : t.sem = s.sem)
      (hl : t.loops w = .returning) :
      Turn cfg urls maxConcurrentJobs numWorkers s ({ t with sem := t.sem.leave w }.setLoop w .resting) := by
    refine ht.trans (.loop (c := .release w) ?_ rfl ht.inHands)
    rw [← hsem] at hinside
    simp only [PermitSys.next, hl, if_pos hinside]
  have hresting (t : PermitSys maxConcurrentJobs.toNat) :
      ({ t with sem := t.sem.leave w }.setLoop w .resting).loops w = .resting := by
    rw [setLoop_loops, if_pos rfl]
  obtain ⟨es, hes⟩ := hrun
  have hp := (permitted_run hes).1
  have ha := hp.agrees w
  unfold Agrees at ha
  split at ha
  · exact absurd hinside ha.2
  · exact absurd hinside ha.2
  · rename_i hl
    obtain ⟨t, ht, hsem, hret, hk⟩ := turn_of_claim ⟨es, hes⟩ hl hholds h
    exact ⟨_, hrelease ht hsem hret, congrArg (·.leave w) hsem, fun _ => ⟨hresting t, hk⟩⟩
  · rename_i hl
    obtain ⟨k, hk⟩ := Option.isSome_iff_exists.mp ha.1
    obtain ⟨owner, ho⟩ := owned_run (sys_run_of_permit hes)
    obtain ⟨t, ht, hsem, hret, -⟩ : Ends cfg urls maxConcurrentJobs numWorkers s w k :=
      ends_of_busy ho (closes_run (sys_run_of_permit hes)) hl hk h
    exact ⟨_, hrelease ht hsem hret, congrArg (·.leave w) hsem, fun hacq => by rw [hl] at hacq; cases hacq⟩
  · rename_i hl
    exact ⟨_, hrelease (.refl h) rfl hl, rfl, fun hacq => by rw [hl] at hacq; cases hacq⟩
  · rename_i hl
    refine ⟨{ s with sem := s.sem.leave w }, .loop (c := .release w) ?_ rfl h, rfl,
      fun hacq => by rw [hl] at hacq; cases hacq⟩
    simp only [PermitSys.next, hl, if_pos hinside]

/-- All permits can come back. -/
theorem permits_return (hrun : ∃ es, (permitLts cfg urls maxConcurrentJobs numWorkers).Run es s)
    (hn : 0 < maxConcurrentJobs.toNat) (h : InHands s.sys) :
    ∃ t, Turn cfg urls maxConcurrentJobs numWorkers s t ∧ ∀ w, ¬ t.sem.Inside w := by
  have hless (t : PermitSys maxConcurrentJobs.toNat) (ht : Turn cfg urls maxConcurrentJobs numWorkers s t)
      (hne : (t.sem.holders ++ t.sem.waiters).length ≠ 0) :
      ∃ es u, ((permitLts cfg urls maxConcurrentJobs numWorkers).restrict Alone).Steps t es u ∧
        Turn cfg urls maxConcurrentJobs numWorkers s u ∧
        (u.sem.holders ++ u.sem.waiters).length < (t.sem.holders ++ t.sem.waiters).length := by
    obtain ⟨v, hv⟩ := List.exists_mem_of_length_pos (Nat.pos_of_ne_zero hne)
    obtain ⟨w, hw⟩ := t.sem.exists_holder hn hv
    obtain ⟨u, hu, hsem, -⟩ := turn_of_holder (ht.run hrun) hw ht.inHands
    obtain ⟨es, hes⟩ := hu.steps
    exact ⟨es, u, hes, ht.trans hu, hsem ▸ t.sem.length_leave (t.sem.inside_of_holder hw)⟩
  obtain ⟨-, t, -, ht, h0⟩ := Lts.Steps.descend hless s (.refl h)
  exact ⟨t, ht, t.sem.not_inside_of_length h0⟩

/-! ## Rows that nobody has in hand -/

/-- At some time every lock is old. -/
theorem exists_late (db : Db) (staleAfter : ℤ) :
    ∃ now : Timestamp, minTimestamp ≤ now - staleAfter ∧
      ∀ r ∈ db.queue, ∀ t, r.lockedAt = some t → t < now - staleAfter := by
  obtain ⟨m, hm⟩ := (insert minTimestamp (db.queue.rows.filterMap Row.lockedAt).toFinset).exists_le
  refine ⟨m + 1 + staleAfter, ?_, fun r hr t ht => ?_⟩
  · have hmin := hm minTimestamp (Finset.mem_insert_self _ _)
    rw [add_sub_cancel_right]
    exact hmin.trans (Int.le_add_one le_rfl)
  · have hmem : t ∈ (db.queue.rows.filterMap Row.lockedAt).toFinset :=
      List.mem_toFinset.mpr (List.mem_filterMap.mpr ⟨r, hr, ht⟩)
    rw [add_sub_cancel_right]
    exact Int.lt_add_one_of_le (hm t (Finset.mem_insert_of_mem hmem))

/-- A requeue at that time leaves no row active. -/
theorem not_active_requeue {db : Db} {env : Env} {staleAfter : UInt64}
    (hmin : minTimestamp ≤ env.now - staleAfter.toNat * 10 ^ 6)
    (hlate : ∀ r ∈ db.queue, ∀ t, r.lockedAt = some t → t < env.now - staleAfter.toNat * 10 ^ 6)
    (hwf : ∀ r ∈ db.queue, r.WellFormed)
    (hstalls : ∀ r ∈ db.queue, r.status = .active → r.stalls.getD 0 < 2 ^ 31 - 1) :
    ∃ n, db.requeueStalledJobs staleAfter env = (.ok n, (sqlRequeueStalledJobs env staleAfter).run db) ∧
      ∀ r ∈ ((sqlRequeueStalledJobs env staleAfter).run db).queue, r.status ≠ .active := by
  have hsel {r : Row} (hr : r ∈ db.queue) (hst : r.status = .active) :
      (sqlRequeueStalledJobs env staleAfter).selects r = true := by
    obtain ⟨t, ht⟩ := Option.isSome_iff_exists.mp ((hwf r hr).lockedAt.mpr hst)
    simpa [sqlRequeueStalledJobs, hst, ht] using hlate r hr t ht
  have herr : requeueError env staleAfter db = none := by
    unfold requeueError
    rw [if_neg (not_lt.mpr hmin), if_neg]
    rw [List.any_eq_true]
    rintro ⟨r, hr, hsel⟩
    obtain ⟨hst, hle⟩ := of_decide_eq_true hsel
    have hact : r.status = .active := by
      simp only [sqlRequeueStalledJobs, decide_eq_true_eq] at hst
      exact hst.1
    exact absurd hle (not_le.mpr (hstalls r hr hact))
  refine ⟨_, by simp only [Db.requeueStalledJobs, herr]; rfl, fun r' hr' hst => ?_⟩
  obtain ⟨r, hr, rfl⟩ := QueueUpdate.mem_queue_run.mp hr'
  unfold QueueUpdate.apply at hst
  split_ifs at hst with h
  · cases hst
  · exact h (hsel hr hst)

theorem stallStep_workers (ρ : Reply) : (stallStep cfg s.sys ρ).2.workers = s.sys.workers := by
  unfold stallStep
  split <;> rfl

/-- A statement of the stall recovery. -/
theorem alone_stall (ρ : Reply) :
    ∃ es, ((permitLts cfg urls maxConcurrentJobs numWorkers).restrict Alone).Steps s es
      { s with sys := (stallStep cfg s.sys ρ).2 } := by
  have hh : (stallStep cfg s.sys ρ).2.handlers = s.sys.handlers := by
    unfold stallStep
    split <;> rfl
  exact ⟨_, .single ⟨⟨.sys (.stall ρ), rfl⟩, hh, fun w hw => by rwa [stallStep_workers] at hw⟩⟩

/-- The stall recovery can take back every row that has been locked. -/
theorem sweep_active_of_requeue (hrun : ∃ es, (permitLts cfg urls maxConcurrentJobs numWorkers).Run es s)
    (hstall : s.sys.stall = .requeue)
    (hstalls : ∀ r ∈ s.sys.db.queue, r.status = .active → r.stalls.getD 0 < 2 ^ 31 - 1) :
    ∃ t, Turn cfg urls maxConcurrentJobs numWorkers s t := by
  obtain ⟨es, hes⟩ := hrun
  have hwf := (queueInv_steps (namesGroup_run (sys_run_of_permit hes))).rows
  obtain ⟨now, hmin, hlate⟩ := exists_late s.sys.db ((staleAfter cfg).toNat * 10 ^ 6)
  obtain ⟨n, hexec, hnone⟩ := @not_active_requeue s.sys.db ⟨now, 0⟩ (staleAfter cfg) hmin hlate hwf hstalls
  have hdb : (stallStep cfg s.sys (.ok now 0)).2.db =
      ((Query.requeueStalledJobs (staleAfter cfg)).exec ⟨now, 0⟩ s.sys.db).2 := by
    unfold stallStep
    rw [hstall]
    rfl
  refine ⟨_, alone_stall (.ok now 0), fun k r hr hst => ?_, ?_, fun w hw => ?_⟩
  · change (stallStep cfg s.sys (.ok now 0)).2.db.queue.lookup k = some r at hr
    rw [hdb, show ((Query.requeueStalledJobs (staleAfter cfg)).exec ⟨now, 0⟩ s.sys.db).2 = _ from
      congrArg Prod.snd hexec] at hr
    exact absurd hst (hnone r (KTable.mem_of_lookup hr))
  · show (stallStep cfg s.sys (.ok now 0)).2.db.pending ⊆ _
    rw [hdb]
    exact pending_exec rfl
  · rwa [stallStep_workers] at hw

theorem sweep_active (hrun : ∃ es, (permitLts cfg urls maxConcurrentJobs numWorkers).Run es s)
    (hstalls : ∀ r ∈ s.sys.db.queue, r.status = .active → r.stalls.getD 0 < 2 ^ 31 - 1) :
    ∃ t, Turn cfg urls maxConcurrentJobs numWorkers s t := by
  cases hstall : s.sys.stall with
  | requeue => exact sweep_active_of_requeue hrun hstall hstalls
  | failOver =>
    obtain ⟨es, hes⟩ := @alone_stall cfg urls maxConcurrentJobs numWorkers s (.ok 0 0)
    have hdb : (stallStep cfg s.sys (.ok 0 0)).2.db =
        ((Query.failOverStalledJobs cfg.maxStalls.toInt32).exec ⟨0, 0⟩ s.sys.db).2 := by
      unfold stallStep
      rw [hstall]
      rfl
    have hnext : (stallStep cfg s.sys (.ok 0 0)).2.stall = .requeue := by
      unfold stallStep
      rw [hstall]
    obtain ⟨es₀, hrun⟩ := hrun
    obtain ⟨t, ht⟩ := @sweep_active_of_requeue cfg urls maxConcurrentJobs numWorkers
      { s with sys := (stallStep cfg s.sys (.ok 0 0)).2 } ⟨es₀ ++ es, hrun.trans hes.of_restrict⟩ hnext (by
        intro r hr hst
        change r ∈ (stallStep cfg s.sys (.ok 0 0)).2.db.queue at hr
        rw [hdb] at hr
        obtain ⟨r₀, hr₀, rfl⟩ := QueueUpdate.mem_queue_run.mp hr
        unfold QueueUpdate.apply at hst ⊢
        split_ifs at hst ⊢ with hsel
        · cases hst
        · exact hstalls r₀ hr₀ hst)
    obtain ⟨es', hes'⟩ := ht.steps
    refine ⟨t, ⟨es ++ es', hes.trans hes'⟩, ht.inHands, ht.pending.trans ?_, fun w hw => ?_⟩
    · show (stallStep cfg s.sys (.ok 0 0)).2.db.pending ⊆ _
      rw [hdb]
      exact pending_exec rfl
    · have hlive := ht.live w hw
      rwa [stallStep_workers] at hlive

/-! ## The whole queue -/

/-- Where all permits are free, a worker that lives rests, or can be spawned. -/
theorem exists_resting (hrun : ∃ es, (permitLts cfg urls maxConcurrentJobs numWorkers).Run es s)
    (hm : 0 < numWorkers.toNat) (hlive : ∃ w, s.sys.workers w ≠ .stopped)
    (hfree : ∀ w, ¬ s.sem.Inside w) (h : InHands s.sys) :
    ∃ t w, Turn cfg urls maxConcurrentJobs numWorkers s t ∧ t.loops w = .resting ∧ t.sem = s.sem := by
  obtain ⟨es, hes⟩ := hrun
  obtain ⟨hp, hlen⟩ := permitted_run hes
  have hat (v : Uuid) : s.loops v = .unborn ∨ s.loops v = .resting ∨ s.loops v = .dead := by
    have ha := hp.agrees v
    unfold Agrees at ha
    split at ha
    · rename_i hl; exact .inl hl
    · rename_i hl; exact .inr (.inl hl)
    · exact absurd ha.2 (hfree v)
    · exact absurd (s.sem.inside_of_holder ha.2) (hfree v)
    · exact absurd (s.sem.inside_of_holder ha.2) (hfree v)
    · rename_i hl; exact .inr (.inr hl)
  obtain ⟨w, hw⟩ := hlive
  rcases hat w with hl | hl | hl
  · -- a new worker takes the place of one that is dead
    obtain ⟨v, hv⟩ := List.exists_mem_of_length_pos (hlen.symm ▸ hm)
    rcases hat v with hv' | hv' | hv'
    · exact absurd hv' (hp.born v hv)
    · exact ⟨s, v, .refl h, hv', rfl⟩
    · have hn : s.next cfg urls (.respawn v w) =
          some (none, { s with pool := w :: s.pool.erase v }.setLoop w .resting) := by
        simp only [PermitSys.next, hv', hfree v, hv, hl, not_false_eq_true, and_self, if_true]
      exact ⟨_, w, .loop hn rfl h, by rw [setLoop_loops, if_pos rfl], rfl⟩
  · exact ⟨s, w, .refl h, hl, rfl⟩
  · have ha := hp.agrees w
    rw [Agrees, hl] at ha
    exact absurd ha hw

/-- A resting worker can do the next job. -/
theorem turn_of_resting {w : Uuid} (hrun : ∃ es, (permitLts cfg urls maxConcurrentJobs numWorkers).Run es s)
    (hn : 0 < maxConcurrentJobs.toNat) (hl : s.loops w = .resting) (hfree : ∀ w, ¬ s.sem.Inside w)
    (h : InHands s.sys) (hp : s.sys.db.pending.Nonempty) :
    ∃ t, Turn cfg urls maxConcurrentJobs numWorkers s t ∧ t.loops w = .resting ∧
      (∀ w, ¬ t.sem.Inside w) ∧ t.sys.db.pending ⊂ s.sys.db.pending := by
  have hacq : s.next cfg urls (.acquire w) =
      some (none, { s with sem := s.sem.acquire w }.setLoop w .acquiring) := by
    simp only [PermitSys.next, hl, if_true]
  have hstep : Turn cfg urls maxConcurrentJobs numWorkers s _ := .loop hacq rfl h
  obtain ⟨t, ht, hsem, hrest⟩ :=
    turn_of_holder (hstep.run hrun) (s.sem.mem_holders_acquire_self hfree hn) hstep.inHands
  obtain ⟨hl', hdone⟩ := hrest (by rw [setLoop_loops, if_pos rfl])
  have hjobs (v : Uuid) : (s.sys.workers v).job? = none := by
    obtain ⟨es, hes⟩ := hrun
    rcases hv : (s.sys.workers v).job? with _ | k
    · rfl
    · have hholds := (permitted_run hes).1.holder_of_job (by rw [hv]; rfl)
      exact absurd (s.sem.inside_of_holder hholds) (hfree v)
  obtain ⟨r, l, hq⟩ := exists_queued h hjobs hp
  obtain ⟨hmem, hst⟩ := Db.mem_of_queuedRows hq
  refine ⟨t, hstep.trans ht, hl', fun v hv => ?_, (hstep.trans ht).pending, fun hsub => ?_⟩
  · rw [hsem] at hv
    obtain ⟨hne, hin⟩ := (Semaphore.inside_leave _).mp hv
    rcases (Semaphore.inside_acquire _).mp hin with heq | hin
    · exact hne heq
    · exact hfree v hin
  · exact hdone r l hq (hsub (mem_pending.mpr ⟨r, KTable.lookup_key hmem, .inl hst⟩))

/-- Rows are never deleted. -/
theorem isSome_steps (h : (permitLts cfg urls maxConcurrentJobs numWorkers).Steps s es t)
    (hk : (s.sys.db.queue.lookup k).isSome = true) : (t.sys.db.queue.lookup k).isSome = true := by
  refine h.preserves (P := fun u => (u.sys.db.queue.lookup k).isSome = true) ?_ hk
  rintro u e v hu ⟨c, hc⟩
  cases permitStep_of_next hc with
  | sys c _ hn =>
    obtain ⟨r, hr⟩ := Option.isSome_iff_exists.mp hu
    rcases step_db ⟨c, hn⟩ with ⟨a, env, q, -, hdb⟩ | ⟨-, hdb⟩
    · show (Sys.db _).queue.lookup k |>.isSome
      rw [hdb, Query.lookup_exec hr]
      rfl
    · show (Sys.db _).queue.lookup k |>.isSome
      rwa [hdb]
  | acquire | release | bury | respawn => exact hu

/-- **The pool can finish every job.** From every state reached, whoever has panicked or been cut off before,
the workers and the stall recovery can by themselves come to a state in which every row is finished and every
permit is free, if there are permits and workers at all and no active row has been requeued 2³¹ - 1 times. -/
theorem permit_drains (h : (permitLts cfg urls maxConcurrentJobs numWorkers).Run es s)
    (hn : 0 < maxConcurrentJobs.toNat) (hm : 0 < numWorkers.toNat)
    (hlive : ∃ w, s.sys.workers w ≠ .stopped)
    (hstalls : ∀ r ∈ s.sys.db.queue, r.status = .active → r.stalls.getD 0 < 2 ^ 31 - 1) :
    ∃ es' t, ((permitLts cfg urls maxConcurrentJobs numWorkers).restrict Alone).Steps s es' t ∧
      (∀ r ∈ s.sys.db.queue, ∃ r' ∈ t.sys.db.queue, r'.key = r.key) ∧
      (∀ r ∈ t.sys.db.queue, r.status.terminal = true) ∧ t.sem.free = maxConcurrentJobs.toNat := by
  obtain ⟨s₁, h₁⟩ : ∃ t, Turn cfg urls maxConcurrentJobs numWorkers s t := sweep_active ⟨es, h⟩ hstalls
  obtain ⟨s₂, h₂, hfree₂⟩ := permits_return (h₁.run ⟨es, h⟩) hn h₁.inHands
  have hturn₂ := h₁.trans h₂
  have hlive₂ : ∃ w, s₂.sys.workers w ≠ .stopped :=
    let ⟨w, hw⟩ := hlive
    ⟨w, fun hw' => hw (hturn₂.live w hw')⟩
  obtain ⟨s₃, w, h₃, hrest₃, hsem₃⟩ := exists_resting (hturn₂.run ⟨es, h⟩) hm hlive₂ hfree₂ h₂.inHands
  have hturn₃ := hturn₂.trans h₃
  have hless (t : PermitSys maxConcurrentJobs.toNat)
      (ht : Turn cfg urls maxConcurrentJobs numWorkers s t ∧ t.loops w = .resting ∧ ∀ w, ¬ t.sem.Inside w)
      (hne : t.sys.db.pending.card ≠ 0) :
      ∃ es u, ((permitLts cfg urls maxConcurrentJobs numWorkers).restrict Alone).Steps t es u ∧
        (Turn cfg urls maxConcurrentJobs numWorkers s u ∧ u.loops w = .resting ∧ ∀ w, ¬ u.sem.Inside w) ∧
        u.sys.db.pending.card < t.sys.db.pending.card := by
    obtain ⟨htu, hrest, hfree⟩ := ht
    obtain ⟨u, hu, hrest', hfree', hlt⟩ := turn_of_resting (htu.run ⟨es, h⟩) hn hrest hfree htu.inHands
      (Finset.card_ne_zero.mp hne)
    obtain ⟨es', hes'⟩ := hu.steps
    exact ⟨es', u, hes', ⟨htu.trans hu, hrest', hfree'⟩, Finset.card_lt_card hlt⟩
  obtain ⟨-, t, -, ⟨ht, -, hfree⟩, h0⟩ :=
    Lts.Steps.descend hless s₃ ⟨hturn₃, hrest₃, fun w => hsem₃ ▸ hfree₂ w⟩
  obtain ⟨es', hes'⟩ := ht.steps
  obtain ⟨es₀, hrun⟩ := ht.run ⟨es, h⟩
  refine ⟨es', t, hes', fun r hr => ?_, fun r hr => ?_, t.sem.free_of_not_inside hfree⟩
  · have hsome := isSome_steps hes'.of_restrict (Option.isSome_iff_exists.mpr ⟨r, KTable.lookup_key hr⟩)
    obtain ⟨r', hr'⟩ := Option.isSome_iff_exists.mp hsome
    exact ⟨r', KTable.mem_of_lookup hr', KTable.key_of_lookup hr'⟩
  · have hnot : ¬ r.Pending := fun hp =>
      (Finset.card_eq_zero.mp h0 ▸ Finset.notMem_empty r.key) (mem_pending.mpr ⟨r, KTable.lookup_key hr, hp⟩)
    have hwf := (queueInv_steps (namesGroup_run (sys_run_of_permit hrun))).rows r hr
    cases hst : r.status with
    | queued => exact absurd (.inl hst) hnot
    | active => exact absurd (.inr hst) hnot
    | scraping => exact absurd hst hwf.status
    | completed | failed | cancelled => rfl

end Turns

/-- The only worker has claimed the only job and panicked. -/
theorem exists_lost_job : ∃ es s r, (permitLts .sample .sample 1 1).Run es s ∧
    s.sys.db.queue.rows = [r] ∧ r.status = .active ∧ r.stalls = none ∧ s.sys.workers 9 = .idle := by
  have h₀ : (permitLts .sample .sample 1 1).Run [] (.new 1 [8]) :=
    .init ⟨[8], List.nodup_singleton 8, rfl, rfl⟩
  have h₁ := h₀.snoc ⟨.sys (.request 0 .sampleBatch), rfl⟩
  have h₂ := h₁.snoc ⟨.sys (.handle 0 (.ok 0 1)), rfl⟩
  have h₃ := h₂.snoc ⟨.acquire 8, rfl⟩
  have h₄ := h₃.snoc ⟨.sys (.work 8 (.ok 1 0)), rfl⟩
  have h₅ := h₄.snoc ⟨.sys (.crash 8), rfl⟩
  exact ⟨_, _, _, h₅, rfl, rfl, rfl, rfl⟩

theorem permit_drains_lost : ∃ es s r, (permitLts .sample .sample 1 1).Run es s ∧ r ∈ s.sys.db.queue ∧
    r.status = .active ∧ ∃ es' t, ((permitLts .sample .sample 1 1).restrict Alone).Steps s es' t ∧
      ∃ r' ∈ t.sys.db.queue, r'.key = r.key ∧ r'.status.terminal = true := by
  obtain ⟨es, s, r, hs, hrows, hst, hstalls, hw⟩ := exists_lost_job
  have hmem (r' : Row) (hr' : r' ∈ s.sys.db.queue) : r' = r := by
    change r' ∈ s.sys.db.queue.rows at hr'
    rw [hrows] at hr'
    exact List.mem_singleton.mp hr'
  have hr : r ∈ s.sys.db.queue := by
    change r ∈ s.sys.db.queue.rows
    rw [hrows]
    exact List.mem_singleton_self r
  obtain ⟨es', t, hsteps, hkept, hterm, -⟩ := permit_drains hs (by decide) (by decide)
    ⟨9, by rw [hw]; exact nofun⟩ (fun r' hr' _ => by rw [hmem r' hr', hstalls]; decide)
  obtain ⟨r', hr', hkey⟩ := hkept r hr
  exact ⟨es, s, r, hs, hr, hst, es', t, hsteps, r', hr', hkey, hterm r' hr'⟩

end FireCtrl
