import FireCtrl.Lib.Run
import FireCtrl.Queue.Spec

/-!
# Histories of the queue

The tables under any statements, in any order and with any arguments.

* `Executed`: what a history records of a statement; `queueLts`: the tables and their statements.
* `queued_balance`: the claims of a row, and one more while it is queued, never outnumber its requeues
  by more than one.
* **`no_double_execution`**: two claims of a row have a requeue of it between them, and a row that
  was finished is not claimed again.
-/

namespace FireCtrl

open Query (RowStep)

/-- Completed, failed or cancelled. -/
def JobStatus.terminal : JobStatus → Bool
  | completed | failed | cancelled => true
  | queued | scraping | active => false

/-- A row that waits for a worker or has one. -/
def Row.Pending (r : Row) : Prop := r.status = .queued ∨ r.status = .active

instance (r : Row) : Decidable r.Pending := by unfold Row.Pending; infer_instance

/-- An executed statement and the keys of the rows it wrote. -/
structure Executed where
  query : Query
  rows : List Key

namespace Executed

/-- The statement claims row `k`. -/
def claims (k : Key) (e : Executed) : Bool :=
  match e.query with
  | .claimNextJob _ => k ∈ e.rows
  | _ => false

/-- The statement requeues row `k`. -/
def requeues (k : Key) (e : Executed) : Bool :=
  match e.query with
  | .requeueStalledJobs _ => k ∈ e.rows
  | _ => false

end Executed

/-- The tables, on which anyone executes any statement. A run may start from any tables. -/
def queueLts : Lts Db Executed where
  init _ := True
  step db e db' := ∃ env, e.rows = e.query.affected env db ∧ db' = (e.query.exec env db).2

variable {db db' : Db} {e : Executed} {es : List Executed} {k : Key} {r r' : Row}

theorem queueLts_exec (env : Env) (q : Query) (h : queueLts.Run es db) :
    queueLts.Run (es ++ [⟨q, q.affected env db⟩]) (q.exec env db).2 :=
  h.snoc ⟨env, rfl, rfl⟩

/-- What a step makes of a row. -/
theorem queueLts_step (h : queueLts.step db e db') (hr : db.queue.lookup k = some r) :
    ∃ r', db'.queue.lookup k = some r' ∧
      (k ∉ e.rows ∧ r' = r ∨ k ∈ e.rows ∧ ∃ env, RowStep env e.query r r') := by
  obtain ⟨env, hrows, rfl⟩ := h
  refine ⟨_, Query.lookup_exec hr, ?_⟩
  rw [hrows]
  exact (Query.touch_step _ env hr).imp id fun ⟨hk, hs⟩ => ⟨hk, env, hs⟩

/-- Only rows that are there are written. -/
theorem notMem_rows_of_lookup_none (h : queueLts.step db e db') (hr : db.queue.lookup k = none) :
    k ∉ e.rows := by
  obtain ⟨env, hrows, -⟩ := h
  rw [hrows, Query.mem_affected]
  rintro ⟨u, r, -, hl, -⟩
  rw [hr] at hl
  cases hl

theorem not_claims_of_lookup_none (h : queueLts.step db e db') (hr : db.queue.lookup k = none) :
    e.claims k = false ∧ e.requeues k = false := by
  have hk := notMem_rows_of_lookup_none h hr
  constructor
  · unfold Executed.claims; split <;> simp [hk]
  · unfold Executed.requeues; split <;> simp [hk]

/-- A claim takes a queued row, a requeue returns it to the queue, and nothing else does either. -/
theorem queued_step (h : queueLts.step db e db') (hr : db.queue.lookup k = some r) :
    ∃ r', db'.queue.lookup k = some r' ∧
      (e.claims k = true ∧ e.requeues k = false ∧ r.status = .queued ∧ r'.status ≠ .queued ∨
        e.claims k = false ∧ e.requeues k = true ∧ r.status = .active ∧ r'.status = .queued ∨
        e.claims k = false ∧ e.requeues k = false ∧ (r'.status = .queued → r.status = .queued) ∧
          (r.status.terminal = true → r'.status.terminal = true)) := by
  obtain ⟨q, rows⟩ := e
  obtain ⟨r', hr', ⟨hk, rfl⟩ | ⟨hk, env, hs⟩⟩ := queueLts_step h hr
  · refine ⟨r', hr', .inr (.inr ⟨?_, ?_, id, id⟩)⟩
    · unfold Executed.claims; split <;> simp_all
    · unfold Executed.requeues; split <;> simp_all
  · refine ⟨r', hr', ?_⟩
    cases hs with
    | claim lockId hq => exact .inl ⟨by simpa [Executed.claims] using hk, rfl, hq, by simp⟩
    | requeue staleAfter t ha =>
      exact .inr (.inl ⟨rfl, by simpa [Executed.requeues] using hk, ha, rfl⟩)
    | complete | fail | cancel | cancelGroup | failOver =>
      exact .inr (.inr ⟨rfl, rfl, by simp, fun _ => rfl⟩)
    | attach => exact .inr (.inr ⟨rfl, rfl, id, id⟩)

/-- While nothing requeues a row that is not queued, nothing claims it either. -/
theorem no_claim_of_not_queued (h : queueLts.Steps db es db') (hr : db.queue.lookup k = some r)
    (hq : r.status ≠ .queued) (hes : ∀ e ∈ es, e.requeues k = false) :
    (∀ e ∈ es, e.claims k = false) ∧
      ∃ r', db'.queue.lookup k = some r' ∧ r'.status ≠ .queued := by
  induction h with
  | nil => exact ⟨by simp, r, hr, hq⟩
  | @snoc es t e u _ hstep ih =>
    obtain ⟨hc, r₁, hr₁, hq₁⟩ := ih fun e he => hes e (List.mem_append_left _ he)
    have hre : e.requeues k = false := hes e (by simp)
    obtain ⟨r₂, hr₂, ⟨-, -, h, -⟩ | ⟨-, h, -, -⟩ | ⟨hce, -, h, -⟩⟩ := queued_step hstep hr₁
    · exact absurd h hq₁
    · rw [hre] at h; cases h
    · refine ⟨?_, r₂, hr₂, fun hq₂ => hq₁ (h hq₂)⟩
      simpa [or_imp, forall_and, hce] using hc

/-- A finished row stays finished, though not necessarily as it was, and is not claimed. -/
theorem no_claim_of_terminal (h : queueLts.Steps db es db') (hr : db.queue.lookup k = some r)
    (ht : r.status.terminal = true) :
    (∀ e ∈ es, e.claims k = false) ∧
      ∃ r', db'.queue.lookup k = some r' ∧ r'.status.terminal = true := by
  induction h with
  | nil => exact ⟨by simp, r, hr, ht⟩
  | @snoc es t e u _ hstep ih =>
    obtain ⟨hc, r₁, hr₁, ht₁⟩ := ih
    obtain ⟨r₂, hr₂, ⟨-, -, h, -⟩ | ⟨-, -, h, -⟩ | ⟨hce, -, -, h⟩⟩ := queued_step hstep hr₁
    · rw [h] at ht₁; cases ht₁
    · rw [h] at ht₁; cases ht₁
    · refine ⟨?_, r₂, hr₂, h ht₁⟩
      simpa [or_imp, forall_and, hce] using hc

/-- The claims of row `k`, counting a queued row as one more, exceed its requeues by at most one. -/
def QueuedBalance (k : Key) (es : List Executed) (db : Db) : Prop :=
  match db.queue.lookup k with
  | none => es.countP (·.claims k) = 0
  | some r =>
    es.countP (·.claims k) + (if r.status = .queued then 1 else 0) ≤
      es.countP (·.requeues k) + 1

theorem queued_balance (h : queueLts.Run es db) (k : Key) : QueuedBalance k es db := by
  refine Lts.Run.invariant (I := QueuedBalance k) (fun s _ => ?_) (fun es s e t _ ih hstep => ?_) h
  · unfold QueuedBalance
    split
    · rfl
    · split_ifs <;> simp
  · unfold QueuedBalance at ih ⊢
    rcases hr : s.queue.lookup k with _ | r
    · obtain ⟨hc, hre⟩ := not_claims_of_lookup_none hstep hr
      rw [hr] at ih
      simp only [List.countP_append, List.countP_singleton, hc, hre] at ih ⊢
      split
      · simpa using ih
      · simp only [ih]; split_ifs <;> simp
    · rw [hr] at ih
      obtain ⟨r', hr', h⟩ := queued_step hstep hr
      rw [hr']
      simp only [List.countP_append, List.countP_singleton] at ih ⊢
      rcases h with ⟨hc, hre, hq, hq'⟩ | ⟨hc, hre, ha, hq'⟩ | ⟨hc, hre, hq, -⟩
      · simp only [hc, hre, hq, hq', if_true, if_false] at ih ⊢
        omega
      · simp only [hc, hre, ha, hq', if_true] at ih ⊢
        simp at ih ⊢
        omega
      · simp only [hc, hre] at ih ⊢
        by_cases h' : r'.status = .queued
        · simp only [h', hq h', if_true] at ih ⊢
          simpa using ih
        · simp only [h', if_false] at ih ⊢
          split_ifs at ih <;> simp at ih ⊢ <;> omega

/-- **No double execution.** Between two claims of a row there is a requeue of it, the claims of a
row exceed its requeues by at most one, and a row that was finished is not claimed afterwards. -/
theorem no_double_execution (h : queueLts.Run es db) (k : Key) :
    (∀ es₁ e es₂ e' es₃, es = es₁ ++ e :: es₂ ++ e' :: es₃ → e.claims k = true →
      e'.claims k = true → ∃ f ∈ es₂, f.requeues k = true) ∧
    es.countP (·.claims k) ≤ es.countP (·.requeues k) + 1 ∧
    ∀ es₁ es₂ s r, es = es₁ ++ es₂ → queueLts.Run es₁ s → queueLts.Steps s es₂ db →
      s.queue.lookup k = some r → r.status.terminal = true → ∀ e ∈ es₂, e.claims k = false := by
  refine ⟨?_, ?_, ?_⟩
  · rintro es₁ e es₂ e' es₃ rfl he he'
    by_contra hno
    have hes₂ : ∀ f ∈ es₂, f.requeues k = false := by simpa using hno
    rw [List.append_assoc] at h
    obtain ⟨s, hs, h⟩ := h.split
    obtain ⟨t, hst, h⟩ := h.cons
    obtain ⟨u, htu, h⟩ := h.split
    obtain ⟨v, huv, -⟩ := h.cons
    -- the first claim leaves the row out of the queue, where it then stays
    obtain ⟨r, hr⟩ : ∃ r, s.queue.lookup k = some r := by
      by_contra hn
      have := (not_claims_of_lookup_none hst (by simpa [Option.eq_none_iff_forall_ne_some] using hn)).1
      rw [he] at this; cases this
    obtain ⟨r₁, hr₁, ⟨-, -, -, hq⟩ | ⟨h, -⟩ | ⟨h, -⟩⟩ := queued_step hst hr
    · obtain ⟨-, r₂, hr₂, hq₂⟩ := no_claim_of_not_queued htu hr₁ hq hes₂
      obtain ⟨r₃, -, ⟨-, -, h, -⟩ | ⟨h, -⟩ | ⟨h, -⟩⟩ := queued_step huv hr₂
      · exact hq₂ h
      · rw [he'] at h; cases h
      · rw [he'] at h; cases h
    · rw [he] at h; cases h
    · rw [he] at h; cases h
  · have hb := queued_balance h k
    unfold QueuedBalance at hb
    split at hb
    · omega
    · split_ifs at hb <;> omega
  · rintro es₁ es₂ s r - - hsteps hr ht
    exact (no_claim_of_terminal hsteps hr ht).1

/-- A job that is enqueued and claimed. -/
theorem no_double_execution_claimed :
    let es : List Executed :=
      [⟨.enqueue .null 0 none none none, []⟩, ⟨.claimNextJob 1, [(7, 0)]⟩]
    es.countP (·.claims (7, 0)) ≤ es.countP (·.requeues (7, 0)) + 1 := by
  intro es
  have h₀ : queueLts.Run [] ⟨.empty, .empty⟩ := Lts.Run.init trivial
  have h₁ := queueLts_exec ⟨0, 7⟩ (.enqueue .null 0 none none none) h₀
  have h₂ := queueLts_exec ⟨1, 0⟩ (.claimNextJob 1) h₁
  exact (no_double_execution h₂ (7, 0)).2.1

end FireCtrl
