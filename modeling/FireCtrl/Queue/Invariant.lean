import FireCtrl.Queue.History

/-!
# The representation invariant of the queue

* `Row.WellFormed`: the columns that go with each status; `wellFormed_rowStep`: every way a statement
  can change a row keeps them, although several statements do not ask for its status.
* `stalls_balance`: the stall count of a row is the number of its requeues.
* `QueueInv`: both, and every group that a row names exists; **`queueInv_steps`**: it holds after any
  statements whose new group names exist.
-/

namespace FireCtrl

open Query (RowStep)

/-- Both tables without rows. -/
def Db.empty : Db := ⟨.empty, .empty⟩

/-- The columns of a row that go with its status. -/
structure Row.WellFormed (r : Row) : Prop where
  lock : r.lock.isSome = true ↔ r.status = .active
  lockedAt : r.lockedAt.isSome = true ↔ r.status = .active
  finishedAt : r.finishedAt.isSome = true ↔ r.status.terminal = true
  returnvalue : r.status = .completed → r.returnvalue.isSome = true
  failedreason : r.status = .failed → r.failedreason.isSome = true
  status : r.status ≠ .scraping

def Query.isRequeue : Query → Bool
  | requeueStalledJobs _ => true
  | _ => false

/-- The group that a statement writes into a row. -/
def Query.groupId? : Query → Option Uuid
  | enqueue _ _ _ groupId _ => groupId
  | enqueueCompleted _ _ _ _ groupId _ => groupId
  | updateJobGroup _ _ groupId => some groupId
  | _ => none

variable {db db' : Db} {e : Executed} {es : List Executed} {k : Key} {r r' : Row} {env : Env} {q : Query}

/-! ## Columns -/

theorem wellFormed_rowStep (h : RowStep env q r r') (hr : r.WellFormed) : r'.WellFormed := by
  cases h with
  | claim lockId hst =>
    have hf := hr.finishedAt
    rw [hst] at hf
    exact ⟨by simp, by simp, hf, nofun, nofun, nofun⟩
  | complete rv => exact ⟨by simp, by simp, by simp [JobStatus.terminal], fun _ => rfl, nofun, nofun⟩
  | fail reason => exact ⟨by simp, by simp, by simp [JobStatus.terminal], nofun, fun _ => rfl, nofun⟩
  | cancel hst | cancelGroup g hg hst =>
    exact ⟨by simp, by simp, by simp [JobStatus.terminal], nofun, nofun, nofun⟩
  | attach g => exact ⟨hr.lock, hr.lockedAt, hr.finishedAt, hr.returnvalue, hr.failedreason, hr.status⟩
  | requeue staleAfter t hst =>
    have hf := hr.finishedAt
    rw [hst] at hf
    exact ⟨by simp, by simp, hf, nofun, nofun, nofun⟩
  | failOver maxStalls n hst =>
    have hl := hr.lock
    have hlat := hr.lockedAt
    rw [hst] at hl hlat
    exact ⟨by simpa using hl, by simpa using hlat, by simp [JobStatus.terminal], nofun, fun _ => rfl,
      nofun⟩

theorem wellFormed_newRow (h : q.newRow env = some r) : r.WellFormed := by
  cases q with
  | enqueue data priority ownerId groupId ch =>
    cases h
    exact ⟨by simp [queuedRow], by simp [queuedRow], by simp [queuedRow, JobStatus.terminal], nofun,
      nofun, nofun⟩
  | enqueueCompleted data rv priority ownerId groupId ch =>
    cases h
    exact ⟨by simp [completedRow, queuedRow], by simp [completedRow, queuedRow],
      by simp [completedRow, JobStatus.terminal], fun _ => rfl, nofun, nofun⟩
  | _ => cases h

/-- A new row has not been requeued. -/
theorem stalls_newRow (h : q.newRow env = some r) : r.stalls = none := by
  cases q with
  | enqueue | enqueueCompleted => cases h; rfl
  | _ => cases h

theorem wellFormed_exec (h : ∀ r ∈ db.queue, r.WellFormed) :
    ∀ r ∈ (q.exec env db).2.queue, r.WellFormed := by
  intro r' hr'
  rcases Query.mem_exec hr' with ⟨-, hnew⟩ | ⟨r, hr, rfl⟩
  · exact wellFormed_newRow hnew
  · have hwf := h r (KTable.mem_of_lookup hr)
    rcases Query.touch_step q env hr with ⟨-, heq⟩ | ⟨-, hs⟩
    · rwa [heq]
    · exact wellFormed_rowStep hs hwf

/-! ## Stall counts -/

/-- Of all the statements only a requeue changes a stall count. -/
theorem stalls_rowStep (h : RowStep env q r r') :
    r'.stalls.getD 0 = r.stalls.getD 0 + if q.isRequeue then 1 else 0 := by
  cases h with
  | requeue staleAfter t => rfl
  | claim | complete | fail | cancel | cancelGroup | attach | failOver => exact (add_zero _).symm

theorem requeues_eq (k : Key) (e : Executed) : e.requeues k = (e.query.isRequeue && decide (k ∈ e.rows)) := by
  obtain ⟨q, rows⟩ := e
  cases q <;> simp [Executed.requeues, Query.isRequeue]

/-- The stall count of row `k` is the number of its requeues; what is not there was never requeued. -/
def StallsBalance (k : Key) (es : List Executed) (db : Db) : Prop :=
  match db.queue.lookup k with
  | none => es.countP (·.requeues k) = 0
  | some r => r.stalls.getD 0 = es.countP (·.requeues k)

theorem stallsBalance_step (h : StallsBalance k es db) (hstep : queueLts.step db e db') :
    StallsBalance k (es ++ [e]) db' := by
  unfold StallsBalance at h ⊢
  rw [List.countP_append, List.countP_singleton]
  rcases hr : db.queue.lookup k with _ | r
  · rw [hr] at h
    rw [(not_claims_of_lookup_none hstep hr).2, h]
    obtain ⟨env, -, rfl⟩ := hstep
    rcases hr' : (e.query.exec env db).2.queue.lookup k with _ | r'
    · rfl
    · simp [stalls_newRow (Query.lookup_exec_of_none hr hr').1]
  · rw [hr] at h
    obtain ⟨r', hr', hcases⟩ := queueLts_step hstep hr
    rw [hr', requeues_eq]
    rcases hcases with ⟨hk, rfl⟩ | ⟨hk, env, hs⟩
    · simpa [hk] using h
    · show r'.stalls.getD 0 = _
      rw [stalls_rowStep hs, h]
      by_cases hq : e.query.isRequeue
      · simp [hk, hq]
      · simp [hq]

theorem stalls_balance (h : queueLts.Steps .empty es db) (k : Key) : StallsBalance k es db := by
  induction h with
  | nil => exact rfl
  | snoc _ hstep ih => exact stallsBalance_step ih hstep

/-! ## Groups -/

/-- The group that the statement writes into a row exists. -/
def NamesGroup (db : Db) (e : Executed) (_ : Db) : Prop :=
  ∀ g, e.query.groupId? = some g → (db.groups.lookup g).isSome

/-- A row gets its group from the statement that inserts it or from `update_job_group`. -/
theorem groupId_newRow (h : q.newRow env = some r) : r.groupId = q.groupId? := by
  cases q with
  | enqueue | enqueueCompleted => cases h; rfl
  | _ => cases h

theorem groupId_rowStep (h : RowStep env q r r') :
    r'.groupId = r.groupId ∨ r'.groupId = q.groupId? := by
  cases h with
  | attach g => exact .inr rfl
  | claim | complete | fail | cancel | cancelGroup | requeue | failOver => exact .inl rfl

/-- Every group that a row names exists. -/
def GroupsExist (db : Db) : Prop :=
  ∀ r ∈ db.queue, ∀ g, r.groupId = some g → (db.groups.lookup g).isSome

theorem groupsExist_step (h : GroupsExist db) (hstep : queueLts.step db e db')
    (hn : NamesGroup db e db') : GroupsExist db' := by
  obtain ⟨env, -, rfl⟩ := hstep
  intro r' hr' g hg
  refine Query.groups_isSome_exec ?_
  rcases Query.mem_exec hr' with ⟨-, hnew⟩ | ⟨r, hr, rfl⟩
  · exact hn g (groupId_newRow hnew ▸ hg)
  · have hold := h r (KTable.mem_of_lookup hr)
    rcases Query.touch_step e.query env hr with ⟨-, heq⟩ | ⟨-, hs⟩
    · rw [heq] at hg
      exact hold g hg
    · rcases groupId_rowStep hs with heq | heq
      · exact hold g (heq ▸ hg)
      · exact hn g (heq ▸ hg)

/-! ## The invariant -/

/-- The queue after the statements `es`. -/
structure QueueInv (es : List Executed) (db : Db) : Prop where
  rows : ∀ r ∈ db.queue, r.WellFormed
  stalls : ∀ r ∈ db.queue, r.stalls.getD 0 = es.countP (·.requeues r.key)
  groups : GroupsExist db

/-- **From empty tables on, every statement keeps the invariant**, if the groups it writes into rows
exist. -/
theorem queueInv_steps (h : (queueLts.restrict NamesGroup).Steps .empty es db) : QueueInv es db := by
  refine ⟨?_, fun r hr => ?_, ?_⟩
  · refine h.of_restrict.preserves (P := fun db => ∀ r ∈ db.queue, r.WellFormed) ?_ ?_
    · rintro s e _ hs ⟨env, -, rfl⟩
      exact wellFormed_exec hs
    · exact fun r hr => (KTable.not_mem_empty r hr).elim
  · have hb := stalls_balance h.of_restrict r.key
    unfold StallsBalance at hb
    rwa [KTable.lookup_key hr] at hb
  · refine h.preserves (P := GroupsExist) ?_ ?_
    · rintro s e t hs ⟨hstep, hn⟩
      exact groupsExist_step hs hstep hn
    · exact fun r hr => (KTable.not_mem_empty r hr).elim

end FireCtrl
