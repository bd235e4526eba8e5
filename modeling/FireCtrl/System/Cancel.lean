import FireCtrl.System.Writers

/-!
# Cancelling a group

* `Quiet g`: group `g` is not completed, nobody is on it, and none of its rows can be claimed;
  `quiet_step`: so it stays, and no page comes into the group.
* **`cancel_sticks`**: in the runs whose `cancel_group` statements find nobody on their group, and the
  group not completed, a cancelled or completed group stays so, and no page is stored after the request
  that cancelled the group has returned; `not_cancel_sticks`: not in every run.
-/

namespace FireCtrl

open Query (RowStep)
open Prog (Follows)

section Steps

variable {cfg : Config} {urls : UrlCrate} {s t : Sys} {ev : Event} {es : List Event} {owner : Owner}
  {g : Uuid} {db : Db} {env : Env} {q : Query} {a : Actor}

/-- No row of the group can be claimed. -/
def RowsDone (g : Uuid) (db : Db) : Prop :=
  ∀ r ∈ db.queue, r.groupId = some g → r.status ≠ .queued ∧ r.status ≠ .active

/-- The group is there, and not completed. -/
def NotCompleted (g : Uuid) (db : Db) : Prop :=
  ∃ row, db.groups.lookup g = some row ∧ row.status ≠ .completed

theorem rowsDone_exec (h : RowsDone g db) (hq : ¬ q.writesInto g) : RowsDone g (q.exec env db).2 := by
  intro r' hr' hg
  rcases Query.mem_exec hr' with ⟨-, hnew⟩ | ⟨r, hr, hl⟩
  · cases q with
    | enqueue | enqueueCompleted => cases hnew; exact absurd hg hq
    | _ => cases hnew
  · have hdone := h r (KTable.mem_of_lookup hr)
    rcases Query.touch_step q env hr with ⟨-, heq⟩ | ⟨-, hs⟩
    · rw [← hl, heq] at hg ⊢
      exact hdone hg
    · rw [hl] at hs
      cases hs with
      | claim lockId hst => exact absurd hst (hdone hg).1
      | requeue _ _ hst => exact absurd hst (hdone hg).2
      | attach g' => exact absurd (Option.some.inj hg) hq
      | complete | fail | cancel | cancelGroup | failOver => simp

theorem notCompleted_exec (h : NotCompleted g db) (hq : ¬ q.writesInto g) :
    NotCompleted g (q.exec env db).2 := by
  obtain ⟨row, hl, hst⟩ := h
  refine ⟨_, Query.lookup_groups_exec hl, ?_⟩
  obtain rfl := KTable.key_of_lookup hl
  cases q with
  | setGroupStatus id status =>
    have hid : row.id ≠ id := fun hid => hq hid.symm
    simpa [Query.touchGroup, hid] using hst
  | cancelGroupRow id =>
    simp only [Query.touchGroup]
    split_ifs
    · simp
    · exact hst
  | _ => exact hst

/-- Nobody is on group `g`, neither a worker nor the request that created it. -/
structure Unattended (g : Uuid) (s : Sys) : Prop where
  workers : ∀ w, (s.workers w).group? ≠ some g
  handlers : ∀ n, ¬ (s.handlers n).Created g

/-- Group `g` is not completed, and nobody is on it or can come to be. -/
structure Quiet (g : Uuid) (s : Sys) : Prop extends Unattended g s where
  rows : RowsDone g s.db
  group : NotCompleted g s.db

theorem Unattended.not_writesInto (h : Unattended g s) (hi : Issued s a q) : ¬ q.writesInto g := by
  intro hq
  rcases writesInto_issued hi hq with ⟨w, hw⟩ | ⟨n, hn⟩
  · exact h.workers w hw
  · exact h.handlers n hn

theorem groupAt_next {e : JobEnvelope} (ph : Phase) (o : Op) (a : o.Ans)
    (h : e.groupAt (jobNext ph o a) = some g) : e.groupAt ph = some g ∨ learned o a = some g := by
  unfold jobNext at h
  split at h <;> first
    | exact .inl h
    | exact .inr h
    | cases h

/-- A worker that has claimed a row is on the group that the row is in, if any. -/
theorem afterClaim_group {w : Uuid} {ρ : Reply} (ho : DbOwned owner db)
    (h : (afterClaim cfg urls (Op.run ρ (.db (.claimNextJob w)) db).1).group? = some g) :
    ∃ r ∈ db.queue, r.groupId = some g ∧ r.status = .queued := by
  rcases afterClaim_run cfg urls ρ w ho with hidle | ⟨r, hmem, e, hj, hst, he, hexec⟩
  · rw [hidle] at h
    cases h
  · rw [hexec] at h
    exact ⟨r, hmem, hj.groupId_eq he h, hst⟩

/-- A worker comes to be on a group by creating it. -/
theorem Executing.groupAt_next {k : Key} {e : JobEnvelope} {log : Log} {o : Op}
    {p : o.Ans → Prog Op Op.Ans (Except AppError Unit)} {ρ : Reply}
    (h : Executing owner db k e log (.op o p)) (hne : e.groupAt (jobPhase log) ≠ some g)
    (hg : e.groupAt (jobNext (jobPhase log) o (o.run ρ db).1) = some g) :
    db.groups.lookup g = none := by
  have hvalid := validAnswer_run ρ o db
  rcases FireCtrl.groupAt_next _ _ _ hg with hg | hg
  · exact absurd hg hne
  · have hallow := h.allows
    generalize jobPhase log = ph at hallow hne
    cases hallow with
    | lookup _ he =>
      rcases ha : (Op.run ρ (.db (.getCrawlGroup _)) db).1 with err | group
      · rw [ha] at hg; cases hg
      · rw [ha] at hg hvalid
        obtain rfl : group.id = g := by simpa [learned] using hg
        have hid : group.id = _ := hvalid
        exact absurd (hid ▸ he) hne
    | create =>
      rcases ha : (Op.run ρ (.db (.createCrawlGroup _ _)) db).1 with err | group
      · rw [ha] at hg; cases hg
      · rw [ha] at hg
        obtain rfl : group.id = g := by simpa [learned] using hg
        exact (created_run ha).1
    | _ => cases hg

theorem Unattended.setWorker {w : Uuid} {ws : WorkerState} (h : Unattended g s)
    (hw : ws.group? ≠ some g) : Unattended g ({ s with db := db }.setWorker w ws) where
  workers w' := by
    rw [setWorker_workers]
    split_ifs
    · exact hw
    · exact h.workers w'
  handlers := h.handlers

theorem Unattended.setHandler {n : ℕ} {hs : HandlerState} (h : Unattended g s)
    (hn : ¬ hs.Created g) : Unattended g ({ s with db := db }.setHandler n hs) where
  workers := h.workers
  handlers n' := by
    rw [setHandler_handlers]
    split_ifs
    · exact hn
    · exact h.handlers n'

/-- Only a claim brings a worker onto a group that is there. -/
theorem unattended_step (ho : Owned owner s) (hu : Unattended g s) (hg : NotCompleted g s.db)
    (hrows : RowsDone g s.db ∨ ∀ w ρ, ev ≠ s.event (.worker w) ρ (.db (.claimNextJob w)))
    (hstep : (sysLts cfg urls).step s ev t) : Unattended g t := by
  obtain ⟨row, hrow, -⟩ := hg
  have hnew : s.db.groups.lookup g ≠ none := by rw [hrow]; simp
  cases sysStep_of_step hstep with
  | claim w ρ hw =>
    refine hu.setWorker fun hg => ?_
    obtain ⟨r, hmem, hr, hst⟩ := afterClaim_group ho.db hg
    rcases hrows with hrows | hev
    · exact (hrows r hmem hr).1 hst
    · exact hev w ρ rfl
  | @work w ρ k e log o p hw =>
    refine hu.setWorker fun hg => ?_
    have hg' : e.groupAt (jobNext (jobPhase log) o (o.run ρ s.db).1) = some g := by
      rw [← jobPhase_append_singleton]
      exact hg
    refine hnew ((ho.executing hw).groupAt_next (fun he => ?_) hg')
    exact hu.workers w (by rw [hw]; exact he)
  | finish w hw | giveUp w hw | crash w => exact hu.setWorker (by simp [WorkerState.group?])
  | fail w ρ hw | timeout w ρ hw => exact hu.setWorker (by simp [WorkerState.group?])
  | request n req hn => exact hu.setHandler (by simp [HandlerState.Created])
  | @handle n ρ req log o p hn =>
    refine hu.setHandler fun hg => ?_
    have hg' : handlerNext (handlerPhase log) o (o.run ρ s.db).1 = .created g := by
      rw [← handlerPhase_append_singleton]
      exact hg
    exact hnew (handlerNext_created owner hg').1
  | respond n hn | drop n => exact hu.setHandler (by simp [HandlerState.Created])
  | requeue ρ st hst | failOver ρ st hst => exact ⟨hu.workers, hu.handlers⟩

/-- **A quiet group stays quiet.** -/
theorem quiet_step (ho : Owned owner s) (hq : Quiet g s) (hstep : (sysLts cfg urls).step s ev t) :
    Quiet g t := by
  have hu := unattended_step ho hq.toUnattended hq.group (.inl hq.rows) hstep
  rcases issued_of_step ho hstep with ⟨a, x, env, -, hi, ht⟩ | ⟨-, ht⟩
  · have hw := hq.not_writesInto hi
    exact ⟨hu, ht ▸ rowsDone_exec hq.rows hw, ht ▸ notCompleted_exec hq.group hw⟩
  · exact ⟨hu, ht ▸ hq.rows, ht ▸ hq.group⟩

theorem rowsDone_cancelGroupJobs : RowsDone g ((Query.cancelGroupJobs g).exec env db).2 := by
  intro r' hr' hg
  rcases Query.mem_exec hr' with ⟨-, hnew⟩ | ⟨r, hr, hl⟩
  · cases hnew
  · rcases Query.touch_step (.cancelGroupJobs g) env hr with ⟨hk, heq⟩ | ⟨-, hs⟩
    · rw [heq] at hl
      subst hl
      rw [Query.mem_affected] at hk
      refine not_or.mp fun hst => hk ⟨_, r, rfl, hr, ?_⟩
      simpa [sqlCancelGroupJobs, hg] using hst
    · rw [hl] at hs
      cases hs
      simp

/-- The first statement of `cancel_group` finds nobody on the group, and the group not completed. -/
def CancelsUnattended (s : Sys) (ev : Event) (_ : Sys) : Prop :=
  ∀ x g, ev.executed = some x → x.query = .cancelGroupJobs g →
    Unattended g s ∧ NotCompleted g s.db

theorem quiet_of_cancelGroupJobs {x : Executed} (ho : Owned owner s)
    (hc : CancelsUnattended s ev t) (hstep : (sysLts cfg urls).step s ev t)
    (hx : ev.executed = some x) (hq : x.query = .cancelGroupJobs g) : Quiet g t := by
  obtain ⟨hu, hg⟩ := hc x g hx hq
  refine ⟨unattended_step ho hu hg (.inr ?_) hstep, ?_, ?_⟩
  · rintro w ρ rfl
    rcases hex : (Op.db (.claimNextJob w)).executes ρ with _ | q
    · rw [event_of_not_executes hex] at hx; cases hx
    · rw [event_of_executes hex] at hx
      cases eq_db_of_executes hex
      cases hx
      cases hq
  all_goals
    rcases issued_of_step ho hstep with ⟨a, x', env, rfl, -, ht⟩ | ⟨hx', -⟩
    · obtain rfl : x' = x := Option.some.inj hx
      rw [ht, hq]
      first
        | exact rowsDone_cancelGroupJobs
        | exact notCompleted_exec hg (fun h => h.elim)
    · rw [hx] at hx'
      cases hx'

/-! ## Requests and their logs -/

/-- What a running request has performed. -/
def HandlerState.log : HandlerState → Log
  | running _ log _ => log
  | waiting | gone => []

theorem handler_log_step (n : ℕ) (hstep : (sysLts cfg urls).step s ev t) :
    (t.handlers n).log = (s.handlers n).log ∨ (t.handlers n).log = [] ∨
      ∃ ρ req log o p, s.handlers n = .running req log (.op o p) ∧ ev = s.event (.handler n) ρ o ∧
        (t.handlers n).log = log ++ [⟨o, (o.run ρ s.db).1⟩] := by
  cases sysStep_of_step hstep with
  | claim | work | finish | giveUp | fail | timeout | crash | requeue | failOver => exact .inl rfl
  | request n' req hn | respond n' hn | drop n' =>
    rw [setHandler_handlers]
    split_ifs
    · exact .inr (.inl rfl)
    · exact .inl rfl
  | @handle n' ρ req log o p hn =>
    by_cases h : n = n'
    · subst h
      refine .inr (.inr ⟨ρ, req, log, o, p, hn, rfl, ?_⟩)
      rw [setHandler_handlers, if_pos rfl]
      rfl
    · rw [setHandler_handlers, if_neg h]
      exact .inl rfl

theorem mem_log_of_cancelling {log : Log} (h : handlerPhase log = .cancelling g) :
    ⟨.db (.cancelGroupJobs g), .ok ()⟩ ∈ log := by
  induction log using List.reverseRecOn with
  | nil => cases h
  | append_singleton log x ih =>
    obtain ⟨o, a⟩ := x
    rw [handlerPhase_append_singleton] at h
    unfold handlerNext at h
    split at h <;> cases h
    simp

/-- Nobody can get at a group that is cancelled, or whose rows a request has cancelled. -/
structure CancelInv (s : Sys) : Prop where
  groups : ∀ g row, s.db.groups.lookup g = some row → row.status = .cancelled → Quiet g s
  requests : ∀ n g, ⟨.db (.cancelGroupJobs g), .ok ()⟩ ∈ (s.handlers n).log ∨
    ⟨.db (.cancelGroupRow g), .ok ()⟩ ∈ (s.handlers n).log → Quiet g s

theorem issued_setGroupStatus {status : GroupStatus} (h : Issued s a (.setGroupStatus g status)) :
    status = .completed := by
  cases h with
  | @job w k e log q p hw hallow =>
    generalize jobPhase log = ph at hallow
    cases hallow
    rfl
  | @request n req log q p hn hallow =>
    generalize handlerPhase log = ph at hallow
    cases hallow

theorem issued_cancelGroupRow (hi : CancelInv s) (h : Issued s a (.cancelGroupRow g)) : Quiet g s := by
  cases h with
  | @job w k e log q p hw hallow =>
    generalize jobPhase log = ph at hallow
    cases hallow
  | @request n req log q p hn hallow =>
    refine hi.requests n g (.inl ?_)
    rw [hn]
    refine @mem_log_of_cancelling g log ?_
    generalize handlerPhase log = ph at hallow ⊢
    cases hallow
    rfl

/-- The status of a group changes from active to completed or cancelled, and no further. -/
theorem touchGroup_issued {row : GroupCrawlRow} (hi : CancelInv s) (h : Issued s a q)
    (hl : s.db.groups.lookup g = some row) :
    (q.touchGroup row).status = row.status ∨
      row.status = .active ∧ ((q.touchGroup row).status = .cancelled → Quiet g s) := by
  have hcompleted (hq : Quiet g s) : row.status ≠ .completed := by
    obtain ⟨row', hl', hst⟩ := hq.group
    rw [hl, Option.some.injEq] at hl'
    exact hl' ▸ hst
  obtain rfl := KTable.key_of_lookup hl
  cases q with
  | setGroupStatus id status =>
    obtain rfl := issued_setGroupStatus h
    by_cases hid : row.id = id
    · subst hid
      cases hst : row.status with
      | active => exact .inr ⟨rfl, by simp [Query.touchGroup]⟩
      | completed => exact .inl (by simp [Query.touchGroup])
      | cancelled =>
        have hq := hi.groups _ row hl hst
        exact absurd rfl (hq.not_writesInto h)
    · exact .inl (by simp [Query.touchGroup, hid])
  | cancelGroupRow id =>
    by_cases hid : row.id = id
    · subst hid
      have hq := issued_cancelGroupRow hi h
      cases hst : row.status with
      | active => exact .inr ⟨rfl, fun _ => hq⟩
      | completed => exact absurd hst (hcompleted hq)
      | cancelled => exact .inl (by simp [Query.touchGroup])
    · exact .inl (by simp [Query.touchGroup, hid])
  | _ => exact .inl rfl

theorem cancelInv_step (ho : Owned owner s) (hi : CancelInv s) (hc : CancelsUnattended s ev t)
    (hstep : (sysLts cfg urls).step s ev t) : CancelInv t where
  groups g row hl hst := by
    rcases issued_of_step ho hstep with ⟨a, x, env, -, h, ht⟩ | ⟨-, ht⟩
    · rw [ht] at hl
      rcases hl₀ : s.db.groups.lookup g with _ | row₀
      · rw [Query.lookup_groups_exec_of_none hl₀ hl] at hst
        cases hst
      · rw [Query.lookup_groups_exec hl₀, Option.some.injEq] at hl
        subst hl
        rcases touchGroup_issued hi h hl₀ with heq | ⟨-, hq⟩
        · exact quiet_step ho (hi.groups g row₀ hl₀ (heq ▸ hst)) hstep
        · exact quiet_step ho (hq hst) hstep
    · exact quiet_step ho (hi.groups g row (ht ▸ hl) hst) hstep
  requests n g hmem := by
    rcases handler_log_step n hstep with heq | heq | ⟨ρ, req, log, o, p, hn, hev, heq⟩
    · exact quiet_step ho (hi.requests n g (heq ▸ hmem)) hstep
    · simp [heq] at hmem
    · have hlog : (s.handlers n).log = log := by rw [hn]; rfl
      simp only [heq, List.mem_append, List.mem_singleton] at hmem
      rcases hmem with (hmem | hmem) | hmem | hmem
      · exact quiet_step ho (hi.requests n g (.inl (hlog ▸ hmem))) hstep
      · obtain ⟨rfl, ha⟩ := Sigma.mk.inj_iff.mp hmem
        obtain ⟨hx, -⟩ := Op.run_ok (eq_of_heq ha).symm
        refine quiet_of_cancelGroupJobs ho hc hstep
          (x := ⟨.cancelGroupJobs g, (Query.cancelGroupJobs g).affected ρ.env s.db⟩) ?_ rfl
        rw [hev, event_of_executes hx]
        rfl
      · exact quiet_step ho (hi.requests n g (.inr (hlog ▸ hmem))) hstep
      · obtain ⟨rfl, -⟩ := Sigma.mk.inj_iff.mp hmem
        refine quiet_step ho (issued_cancelGroupRow (a := .handler n) hi ?_) hstep
        exact .request n hn (ho.running hn).1

/-- **A completed or cancelled group keeps its status.** -/
theorem groupStatus_step {row : GroupCrawlRow} (ho : Owned owner s) (hi : CancelInv s)
    (hstep : (sysLts cfg urls).step s ev t) (hl : s.db.groups.lookup g = some row)
    (hst : row.status ≠ .active) :
    ∃ row', t.db.groups.lookup g = some row' ∧ row'.status = row.status := by
  rcases issued_of_step ho hstep with ⟨a, x, env, -, h, ht⟩ | ⟨-, ht⟩
  · rw [ht]
    refine ⟨_, Query.lookup_groups_exec hl, ?_⟩
    rcases touchGroup_issued hi h hl with heq | ⟨ha, -⟩
    · exact heq
    · exact absurd ha hst
  · exact ⟨row, ht ▸ hl, rfl⟩

/-! ## Whole runs -/

/-- Once a group is completed or cancelled, its status stays. -/
def GroupStatusAbsorbing (T : Lts Sys Event) : Prop :=
  ∀ es₁ s es₂ t, T.Run es₁ s → T.Steps s es₂ t → ∀ g row, s.db.groups.lookup g = some row →
    row.status ≠ .active → ∃ row', t.db.groups.lookup g = some row' ∧ row'.status = row.status

/-- After the request that cancelled a group has returned, no page is stored in it. -/
def NoLatePages (T : Lts Sys Event) : Prop :=
  ∀ es₁ n log res es₂ t g, T.Run (es₁ ++ .responded n log res :: es₂) t →
    ⟨.db (.cancelGroupRow g), .ok ()⟩ ∈ log → ∀ ev ∈ es₂, ∀ x, ev.executed = some x →
      ∀ data rv priority ownerId ch,
        x.query ≠ .enqueueCompleted data rv priority ownerId (some g) ch

/-- Cancelling a group sticks. -/
def CancelSticks (T : Lts Sys Event) : Prop := GroupStatusAbsorbing T ∧ NoLatePages T

end Steps

section Runs

variable {cfg : Config} {urls : UrlCrate} {s t : Sys} {ev : Event} {es : List Event} {g : Uuid}

theorem cancelInv_run (h : ((sysLts cfg urls).restrict CancelsUnattended).Run es t) : CancelInv t := by
  refine Lts.Run.invariant (I := fun _ t => CancelInv t) ?_ ?_ h
  · rintro s rfl
    exact ⟨fun g row hl => (nomatch hl),
      fun n g hmem => by simp [Sys.init, HandlerState.log] at hmem⟩
  · rintro es s ev t hrun hi ⟨hstep, hc⟩
    obtain ⟨owner, ho⟩ := owned_run hrun.of_restrict
    exact cancelInv_step ho hi hc hstep

theorem quiet_steps (hs : ((sysLts cfg urls).Run es s)) {es' : List Event}
    (h : (sysLts cfg urls).Steps s es' t) (hq : Quiet g s) :
    Quiet g t ∧ ∀ ev ∈ es', ∀ x, ev.executed = some x → ¬ x.query.writesInto g := by
  induction h with
  | nil => exact ⟨hq, by simp⟩
  | @snoc es' u ev v hsteps hstep ih =>
    obtain ⟨hq', hes'⟩ := ih
    obtain ⟨owner, ho⟩ := owned_run (hs.trans hsteps)
    refine ⟨quiet_step ho hq' hstep, fun ev' hev' x hx => ?_⟩
    rcases List.mem_append.mp hev' with hev' | hev'
    · exact hes' ev' hev' x hx
    · obtain rfl := List.mem_singleton.mp hev'
      rcases issued_of_step ho hstep with ⟨a, x', env, rfl, h, -⟩ | ⟨hx', -⟩
      · obtain rfl : x' = x := Option.some.inj hx
        exact hq'.not_writesInto h
      · rw [hx] at hx'
        cases hx'

end Runs

/-- **Cancelling sticks** in the runs whose `cancel_group` statements find nobody on their group, and
the group not completed. -/
theorem cancel_sticks (cfg : Config) (urls : UrlCrate) :
    CancelSticks ((sysLts cfg urls).restrict CancelsUnattended) := by
  constructor
  · intro es₁ s es₂ t hs h g row hl hst
    induction h with
    | nil => exact ⟨row, hl, rfl⟩
    | snoc hsteps hstep ih =>
      obtain ⟨row', hl', heq⟩ := ih
      have hrun := hs.trans hsteps
      obtain ⟨owner, ho⟩ := owned_run hrun.of_restrict
      obtain ⟨row'', hl'', heq'⟩ :=
        groupStatus_step ho (cancelInv_run hrun) hstep.1 hl' (by rwa [heq])
      exact ⟨row'', hl'', heq'.trans heq⟩
  · intro es₁ n log res es₂ t g h hmem ev hev x hx data rv priority ownerId ch heq
    obtain ⟨s, hs, h⟩ := h.split
    obtain ⟨u, hstep, h⟩ := h.cons
    obtain ⟨req, hn⟩ := responded_of_step hstep.1
    have hq : Quiet g s := (cancelInv_run hs).requests n g (.inr (by rw [hn]; exact hmem))
    obtain ⟨owner, ho⟩ := owned_run hs.of_restrict
    have hq' := quiet_step ho hq hstep.1
    refine (quiet_steps (hs.snoc hstep).of_restrict h.of_restrict hq').2 ev hev x hx ?_
    rw [heq]
    rfl

/-- A crawl is cancelled while a worker is between its crawl and `set_group_status`. -/
def cancelledCrawl : List Choice :=
  [.request 0 .sampleCrawl, .handle 0 (.ok 0 1), .handle 0 (.ok 0 2), .work 9 (.ok 1 0),
    .work 9 (.ok 2 0), .work 9 (.ok 3 0), .request 1 (.cancel (.ok ()) 1), .handle 1 (.ok 4 0),
    .handle 1 (.ok 5 0), .handle 1 (.ok 6 0), .handle 1 (.ok 6 0)]

/-- The worker completes the group that was cancelled. -/
theorem not_cancel_sticks : ¬ ∀ cfg urls, CancelSticks (sysLts cfg urls) := by
  intro h
  let status (s : Sys) := (s.db.groups.lookup 1).map GroupCrawlRow.status
  obtain ⟨es, s, es', t, hs, ht, h₁, h₂⟩ :=
    sampleRun_split cancelledCrawl [.work 9 (.ok 7 0)]
      (f := status) (g := fun p => status p.2) (a := some .cancelled) (b := some .completed) rfl rfl
  obtain ⟨row, hl, hst⟩ := Option.map_eq_some_iff.mp h₁
  obtain ⟨row', hl', hst'⟩ := Option.map_eq_some_iff.mp h₂
  obtain ⟨row'', hl'', heq⟩ := (h _ _).1 es s es' t hs ht 1 row hl (by rw [hst]; simp)
  rw [hl', Option.some.injEq] at hl''
  rw [← hl'', hst', hst] at heq
  cases heq

end FireCtrl
