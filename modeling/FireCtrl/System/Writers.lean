import FireCtrl.System.Ownership

/-!
# Who makes which statement

* `Issued`: whose statement a step executes; `issued_of_step`. `recovery_of_step`: only the stall-recovery
  loop executes its statements.
* `WorkerState.group?`: the group a worker is on; **`writesInto_issued`**: only a worker on a group, and
  a request that has just created it, write into it.
* `LogInv P`: what every job in flight keeps about the tables and its log; `logInv_step`.
-/

namespace FireCtrl

/-- The group of job `e` at a phase: at the start the one that its data names. -/
def JobEnvelope.groupAt (e : JobEnvelope) : Phase → Option Uuid
  | .start => e.group?
  | ph => ph.group?

/-- The group that a worker is on. -/
def WorkerState.group? : WorkerState → Option Uuid
  | .executing _ e log _ => e.groupAt (jobPhase log)
  | .idle | .failing .. | .stopped => none

/-- The statement adds a row to group `g`, or sets its status. -/
def Query.writesInto (g : Uuid) : Query → Prop
  | enqueue _ _ _ groupId _ => groupId = some g
  | enqueueCompleted _ _ _ _ groupId _ => groupId = some g
  | updateJobGroup _ _ g' => g' = g
  | setGroupStatus g' _ => g' = g
  | _ => False

/-- The statements of the stall-recovery loop. -/
def Query.recovers : Query → Bool
  | requeueStalledJobs _ | failOverStalledJobs _ => true
  | _ => false

section Steps

variable {cfg : Config} {urls : UrlCrate} {s t : Sys} {ev : Event} {owner : Owner} {g : Uuid} {q : Query}
  {a : Actor} {x : Executed}

/-- Who may execute which statement next. -/
inductive Issued (s : Sys) : Actor → Query → Prop
  | job (w : Uuid) {k e log q p} : s.workers w = .executing k e log (.op (.db q) p) →
      JobAllows k e (jobPhase log) (.db q) → Issued s (.worker w) q
  | request (n : ℕ) {req log q p} : s.handlers n = .running req log (.op (.db q) p) →
      HandlerAllows (handlerPhase log) (.db q) → Issued s (.handler n) q
  | claim (w : Uuid) : Issued s (.worker w) (.claimNextJob w)
  | fail (w : Uuid) {k reason} : s.workers w = .failing k reason →
      Issued s (.worker w) (.failJob k.1 k.2 reason)
  | requeue (staleAfter : UInt64) : Issued s .stall (.requeueStalledJobs staleAfter)
  | failOver (maxStalls : Int32) : Issued s .stall (.failOverStalledJobs maxStalls)

/-- Only a worker on a group, and a request that has just created it, write into it. -/
theorem writesInto_issued (h : Issued s a q) (hq : q.writesInto g) :
    (∃ w, (s.workers w).group? = some g) ∨ ∃ n, (s.handlers n).Created g := by
  cases h with
  | @job w k e log q p hw hallow =>
    refine .inl ⟨w, ?_⟩
    rw [hw]
    change e.groupAt (jobPhase log) = some g
    generalize jobPhase log = ph at hallow ⊢
    cases hallow with
    | attach | store | close => cases hq; rfl
    | create | lookup | finishGroup | finish => exact hq.elim
  | @request n req log q p hn hallow =>
    refine .inr ⟨n, ?_⟩
    rw [hn]
    change handlerPhase log = .created g
    generalize handlerPhase log = ph at hallow ⊢
    cases hallow with
    | enqueueCrawl => cases hq; rfl
    | enqueueBatch | enqueueExtract => cases hq
    | create | lookup | lookupJob | cancelJob | cancelGroupJobs | cancelGroupRow => exact hq.elim
  | claim | fail | requeue | failOver => exact hq.elim

/-- Every statement of a step is somebody's. -/
theorem issued_of_step (ho : Owned owner s) (hstep : (sysLts cfg urls).step s ev t) :
    (∃ a x env, ev = .statement a x ∧ Issued s a x.query ∧ t.db = (x.query.exec env s.db).2) ∨
      ev.executed = none ∧ t.db = s.db := by
  have hperform {a : Actor} {ρ : Reply} {o : Op} (hi : ∀ q, o = .db q → Issued s a q) :
      (∃ a' x env, s.event a ρ o = .statement a' x ∧ Issued s a' x.query ∧
        (s.perform ρ o).db = (x.query.exec env s.db).2) ∨
      (s.event a ρ o).executed = none ∧ (s.perform ρ o).db = s.db := by
    rcases hx : o.executes ρ with _ | q
    · exact .inr ⟨event_of_not_executes hx, Op.run_snd_of_not_executes hx⟩
    · exact .inl ⟨a, ⟨q, q.affected ρ.env s.db⟩, ρ.env, event_of_executes hx,
        hi q (eq_db_of_executes hx), Op.run_snd_of_executes hx⟩
  cases sysStep_of_step hstep with
  | claim w ρ hw => exact hperform fun q hq => by cases hq; exact .claim w
  | work w ρ hw => exact hperform fun q hq => by subst hq; exact .job w hw (ho.executing hw).allows
  | fail w ρ hw => exact hperform fun q hq => by cases hq; exact .fail w hw
  | timeout w ρ hw => exact hperform fun q hq => by subst hq; exact .job w hw (ho.executing hw).allows
  | handle n ρ hn => exact hperform fun q hq => by subst hq; exact .request n hn (ho.running hn).1
  | requeue ρ st hst => exact hperform fun q hq => by cases hq; exact .requeue _
  | failOver ρ st hst => exact hperform fun q hq => by cases hq; exact .failOver _
  | finish | giveUp | crash | request | respond | drop => exact .inr ⟨rfl, rfl⟩

/-- Only the stall-recovery loop executes its statements, with what the configuration says. -/
theorem recovery_of_step (ho : Owned owner s) (hstep : (sysLts cfg urls).step s ev t) (hx : ev.executed = some x)
    (hq : x.query.recovers = true) :
    (x.query = .requeueStalledJobs (staleAfter cfg) ∨ x.query = .failOverStalledJobs cfg.maxStalls.toInt32) ∧
      ∃ env, x.rows = x.query.affected env s.db := by
  have hperform {a : Actor} {ρ : Reply} {o : Op} (he : ev = s.event a ρ o) :
      o = .db x.query ∧ ∃ env, x.rows = x.query.affected env s.db := by
    subst he
    rcases ho : o.executes ρ with _ | q
    · rw [event_of_not_executes ho] at hx; cases hx
    · rw [event_of_executes ho] at hx
      cases hx
      exact ⟨eq_db_of_executes ho, ρ.env, rfl⟩
  cases sysStep_of_step hstep with
  | claim | fail =>
    rw [← Op.db.inj (hperform rfl).1] at hq
    cases hq
  | work w ρ hw | timeout w ρ hw =>
    have hallow := (ho.executing hw).allows
    rw [(hperform rfl).1] at hallow
    generalize jobPhase _ = ph at hallow
    generalize x.query = q at hallow hq
    cases hallow <;> cases hq
  | handle n ρ hn =>
    have hallow := (ho.running hn).1
    rw [(hperform rfl).1] at hallow
    generalize handlerPhase _ = ph at hallow
    generalize x.query = q at hallow hq
    cases hallow <;> cases hq
  | requeue => exact ⟨.inl (Op.db.inj (hperform rfl).1).symm, (hperform rfl).2⟩
  | failOver => exact ⟨.inr (Op.db.inj (hperform rfl).1).symm, (hperform rfl).2⟩
  | finish | giveUp | crash | request | respond | drop => cases hx

theorem issued_respects (ho : Owned owner s) (h : Issued s a q) (env : Env) :
    ∃ owner', Extends owner owner' ∧ DbOwned owner' s.db ∧ Respects owner' env s.db q := by
  cases h with
  | job w hw hallow => exact ⟨owner, .refl owner, ho.db, (ho.executing hw).respects env⟩
  | request n hn hallow =>
    obtain ⟨hext, hdb, hq, -⟩ := ho.request_respects hn env
    exact ⟨_, hext, hdb, hq _ rfl⟩
  | fail w hw => exact ⟨owner, .refl owner, ho.db, (ho.failing hw).respects_failJob env _⟩
  | claim | requeue | failOver => exact ⟨owner, .refl owner, ho.db, trivial⟩

theorem kept_step (hstep : (sysLts cfg urls).step s ev t) : Kept s.db t.db := by
  rcases step_db hstep with ⟨a, env, q, -, ht⟩ | ⟨-, ht⟩
  · exact ht ▸ kept_exec env q
  · exact ht ▸ .refl s.db

/-! ## Logs of jobs in flight -/

/-- `P` holds of the tables, the row, the data and the log of every job in flight. -/
def LogInv (P : Db → Key → JobEnvelope → Log → Prop) (s : Sys) : Prop :=
  ∀ w k e log rest, s.workers w = .executing k e log rest → P s.db k e log

/-- What holds at the start of a job, is kept by every statement and by every operation of the job. -/
theorem logInv_step {P : Db → Key → JobEnvelope → Log → Prop} (ho : Owned owner s) (hP : LogInv P s)
    (hstep : (sysLts cfg urls).step s ev t) (hnil : ∀ db k e, P db k e [])
    (hkept : ∀ db db' k e log, Kept db db' → P db k e log → P db' k e log)
    (hop : ∀ w ρ k e log o p, s.workers w = .executing k e log (.op o p) →
      ev = s.event (.worker w) ρ o → JobAllows k e (jobPhase log) o → P s.db k e log →
      P (o.run ρ s.db).2 k e (log ++ [⟨o, (o.run ρ s.db).1⟩])) : LogInv P t := by
  intro w k e log rest hw
  have hk := kept_step hstep
  have hold (hw : s.workers w = .executing k e log rest) : P t.db k e log :=
    hkept _ _ _ _ _ hk (hP w k e log rest hw)
  cases sysStep_of_step hstep with
  | claim w' ρ hw' =>
    rw [setWorker_workers] at hw
    split_ifs at hw
    · unfold afterClaim at hw
      split at hw
      · split at hw
        · cases hw; exact hnil _ _ _
        · cases hw
      · cases hw
      · cases hw
    · exact hold hw
  | @work w' ρ k' e' log' o p hw' =>
    rw [setWorker_workers] at hw
    split_ifs at hw with hww
    · cases hw
      exact hop w' ρ k e log' o p hw' rfl (ho.executing hw').allows (hP w' k e log' _ hw')
    · exact hold hw
  | finish w' hw' | giveUp w' hw' | crash w' =>
    rw [setWorker_workers] at hw
    split_ifs at hw
    exact hold hw
  | fail w' ρ hw' | timeout w' ρ hw' =>
    rw [setWorker_workers] at hw
    split_ifs at hw
    exact hold hw
  | request | handle | respond | drop | requeue | failOver => exact hold hw

end Steps

end FireCtrl
