import Mathlib.Data.Finset.Card
import Mathlib.Data.Finset.Dedup
import FireCtrl.Queue.Drain
import FireCtrl.Queue.History

/-!
# Waiting in the queue

How long a queued row waits for its claim, under any statements.

* `Db.ahead`: the queued rows that are claimed before a row.
* `ahead_step`: what one statement does to them.
* **`waiting_run`**: while a row waits, no row behind it is claimed, and every call of `claim_next_job` uses up
  a row that was ahead of it or has come ahead of it since.
-/

namespace FireCtrl

open Query (RowStep)

/-- The queued rows that are claimed before row `r`. -/
def Db.ahead (db : Db) (r : Row) : Finset Key :=
  (db.queue.keysWhere fun r' => r'.status = .queued ∧ claimOrder r' < claimOrder r).toFinset

namespace Executed

/-- The statement asks for a job. -/
def asks (e : Executed) : Bool :=
  match e.query with
  | .claimNextJob _ => true
  | _ => false

/-- How many rows the statement may put into the queue ahead of a row of priority `p`. -/
def entering (p : Int32) (e : Executed) : ℕ :=
  match e.query with
  | .enqueue _ priority _ _ _ => if priority.toInt ≤ p.toInt then 1 else 0
  | .requeueStalledJobs _ => e.rows.length
  | _ => 0

end Executed

/-! ## One statement -/

section Step

variable {db db' : Db} {env : Env} {q : Query} {e : Executed} {k k' : Key} {r r' : Row}

theorem mem_ahead : k ∈ db.ahead r ↔
    ∃ r', db.queue.lookup k = some r' ∧ r'.status = .queued ∧ claimOrder r' < claimOrder r := by
  unfold Db.ahead
  rw [List.mem_toFinset, KTable.mem_keysWhere_iff_lookup]
  simp

/-- No statement moves a row. -/
theorem claimOrder_rowStep (h : RowStep env q r r') : claimOrder r' = claimOrder r := by
  cases h <;> rfl

/-- A row that is queued after a statement was so before, unless it is new or has been requeued; and it is not
the one that a claim takes. -/
theorem queued_exec (h : (q.exec env db).2.queue.lookup k = some r') (hq : r'.status = .queued) :
    (∃ r, db.queue.lookup k = some r ∧ r.status = .queued ∧ claimOrder r' = claimOrder r ∧
        ∀ lockId, q = .claimNextJob lockId → k ∉ q.affected env db) ∨
      (q.newRow env = some r' ∧ r'.key = k) ∨
      ((∃ staleAfter, q = .requeueStalledJobs staleAfter) ∧ k ∈ q.affected env db) := by
  rcases hr : db.queue.lookup k with _ | r
  · exact .inr (.inl (Query.lookup_exec_of_none hr h))
  · rw [Query.lookup_exec hr, Option.some.injEq] at h
    rcases Query.touch_step q env hr with ⟨hk, heq⟩ | ⟨hk, hs⟩
    · rw [heq] at h
      subst h
      exact .inl ⟨r, rfl, hq, rfl, fun _ _ => hk⟩
    · rw [h] at hs
      have horder := claimOrder_rowStep hs
      cases hs with
      | claim | complete | fail | cancel | cancelGroup | failOver => cases hq
      | requeue staleAfter => exact .inr (.inr ⟨⟨staleAfter, rfl⟩, hk⟩)
      | attach g => exact .inl ⟨r, rfl, hq, horder, fun _ h => by cases h⟩

/-- What a statement that neither inserts nor requeues a row leaves ahead of `r` was there. -/
theorem ahead_exec_subset (hnew : ∀ r', q.newRow env = some r' → r'.status = .queued → claimOrder r ≤ claimOrder r')
    (hq : ∀ staleAfter, q ≠ .requeueStalledJobs staleAfter) : (q.exec env db).2.ahead r ⊆ db.ahead r := by
  intro k' hk'
  obtain ⟨r', hr', hst, hlt⟩ := mem_ahead.mp hk'
  rcases queued_exec hr' hst with ⟨r₁, hr₁, hst₁, horder, -⟩ | ⟨hn, -⟩ | ⟨⟨staleAfter, heq⟩, -⟩
  · exact mem_ahead.mpr ⟨r₁, hr₁, hst₁, horder ▸ hlt⟩
  · exact absurd hlt (hnew r' hn hst).not_gt
  · exact absurd heq (hq staleAfter)

/-- An insertion puts at most its own row ahead of `r`. -/
theorem ahead_enqueue {data : Json} {p : Int32} {owner group : Option Uuid} {ch : Option String} :
    ((Query.enqueue data p owner group ch).exec env db).2.ahead r ⊆ insert (env.uuid, env.now) (db.ahead r) := by
  intro k' hk'
  obtain ⟨r', hr', hst, hlt⟩ := mem_ahead.mp hk'
  rcases queued_exec hr' hst with ⟨r₁, hr₁, hst₁, horder, -⟩ | ⟨hn, hkey⟩ | ⟨⟨staleAfter, heq⟩, -⟩
  · exact Finset.mem_insert_of_mem (mem_ahead.mpr ⟨r₁, hr₁, hst₁, horder ▸ hlt⟩)
  · cases hn
    exact hkey ▸ Finset.mem_insert_self _ _
  · cases heq

/-- Stall recovery puts at most the rows ahead of `r` that it requeues. -/
theorem ahead_requeue {staleAfter : UInt64} :
    ((Query.requeueStalledJobs staleAfter).exec env db).2.ahead r ⊆
      db.ahead r ∪ ((Query.requeueStalledJobs staleAfter).affected env db).toFinset := by
  intro k' hk'
  obtain ⟨r', hr', hst, hlt⟩ := mem_ahead.mp hk'
  rcases queued_exec hr' hst with ⟨r₁, hr₁, hst₁, horder, -⟩ | ⟨hn, -⟩ | ⟨-, hk⟩
  · exact Finset.mem_union_left _ (mem_ahead.mpr ⟨r₁, hr₁, hst₁, horder ▸ hlt⟩)
  · cases hn
  · exact Finset.mem_union_right _ (List.mem_toFinset.mpr hk)

/-- While row `r` is queued and not claimed, a claim takes a row that is ahead of it. -/
theorem exists_ahead_of_claim {lockId : Uuid} (hr : db.queue.lookup k = some r) (hq : r.status = .queued)
    (hk : k ∉ (Query.claimNextJob lockId).affected env db) :
    ∃ k₀ ∈ db.ahead r, k₀ ∉ ((Query.claimNextJob lockId).exec env db).2.ahead r ∧
      ∀ k', k' ∈ (Query.claimNextJob lockId).affected env db → k' = k₀ := by
  have hmem : r ∈ db.queue := KTable.mem_of_lookup hr
  rcases hn : db.nextQueued with _ | r₀
  · have hlisted : r ∈ db.queue.orderBy claimOrder fun r => r.status = .queued :=
      (KTable.mem_orderBy claimOrder).mpr ⟨hmem, decide_eq_true hq⟩
    rw [List.head?_eq_none_iff.mp hn] at hlisted
    cases hlisted
  · obtain ⟨hr₀, hq₀, hmin⟩ := Db.nextQueued_spec hn
    have hr₀k : r₀.key ≠ k := fun heq => hk (Query.mem_affected_claimNextJob.mpr ⟨r₀, hn, heq⟩)
    have hne : claimOrder r₀ ≠ claimOrder r := by
      intro heq
      rw [Db.claimOrder_inj r₀ hr₀ r hmem heq] at hr₀k
      exact hr₀k (KTable.key_of_lookup hr)
    refine ⟨r₀.key, mem_ahead.mpr ⟨r₀, KTable.lookup_key hr₀, hq₀, lt_of_le_of_ne (hmin r hmem hq) hne⟩, ?_, ?_⟩
    · intro hmem'
      obtain ⟨r', hr', hst, -⟩ := mem_ahead.mp hmem'
      have hclaimed : r₀.key ∈ (Query.claimNextJob lockId).affected env db :=
        Query.mem_affected_claimNextJob.mpr ⟨r₀, hn, rfl⟩
      rcases queued_exec hr' hst with ⟨-, -, -, -, hnot⟩ | ⟨hnew, -⟩ | ⟨⟨staleAfter, heq⟩, -⟩
      · exact hnot lockId rfl hclaimed
      · cases hnew
      · cases heq
    · intro k' hk'
      obtain ⟨r', hr', rfl⟩ := Query.mem_affected_claimNextJob.mp hk'
      rw [hn, Option.some.injEq] at hr'
      rw [hr']

/-- **One statement while a row waits.** A claim takes one of the rows ahead of it, and only what is inserted or
requeued comes ahead of it. -/
theorem ahead_step (h : queueLts.step db e db') (hr : db.queue.lookup k = some r) (hq : r.status = .queued)
    (hc : e.claims k = false) :
    (if e.asks = true then 1 else 0) + (db'.ahead r).card ≤ (db.ahead r).card + e.entering r.priority ∧
      ∀ k', e.claims k' = true → k' ∈ db.ahead r := by
  obtain ⟨q, rows⟩ := e
  obtain ⟨env, hrows, rfl⟩ := h
  change rows = q.affected env db at hrows
  subst hrows
  cases q with
  | claimNextJob lockId =>
    have hk : k ∉ (Query.claimNextJob lockId).affected env db := by simpa [Executed.claims] using hc
    obtain ⟨k₀, hk₀, hgone, honly⟩ := exists_ahead_of_claim hr hq hk
    refine ⟨?_, fun k' hk' => ?_⟩
    · have hsub : ((Query.claimNextJob lockId).exec env db).2.ahead r ⊆ (db.ahead r).erase k₀ := by
        intro k' hk'
        refine Finset.mem_erase.mpr ⟨fun heq => hgone (heq ▸ hk'), ?_⟩
        exact ahead_exec_subset (fun _ h => by cases h) (fun _ h => by cases h) hk'
      have hcard := Finset.card_le_card hsub
      have hpos : 0 < (db.ahead r).card := Finset.card_pos.mpr ⟨k₀, hk₀⟩
      rw [Finset.card_erase_of_mem hk₀] at hcard
      show 1 + (((Query.claimNextJob lockId).exec env db).2.ahead r).card ≤ (db.ahead r).card + 0
      omega
    · have hmem : k' ∈ (Query.claimNextJob lockId).affected env db := by simpa [Executed.claims] using hk'
      rw [honly k' hmem]
      exact hk₀
  | enqueue data p owner group ch =>
    refine ⟨?_, fun k' hk' => by cases hk'⟩
    show 0 + _ ≤ (db.ahead r).card + if p.toInt ≤ r.priority.toInt then 1 else 0
    rw [Nat.zero_add]
    split_ifs with hp
    · exact (Finset.card_le_card ahead_enqueue).trans (Finset.card_insert_le _ _)
    · refine Finset.card_le_card (ahead_exec_subset (fun r' hr' _ => ?_) fun _ h => by cases h)
      cases hr'
      exact Prod.Lex.toLex_le_toLex.mpr (.inl (lt_of_not_ge hp))
  | requeueStalledJobs staleAfter =>
    refine ⟨?_, fun k' hk' => by cases hk'⟩
    show 0 + _ ≤ (db.ahead r).card + ((Query.requeueStalledJobs staleAfter).affected env db).length
    rw [Nat.zero_add]
    calc _ ≤ _ := Finset.card_le_card ahead_requeue
      _ ≤ _ := Finset.card_union_le _ _
      _ ≤ _ := Nat.add_le_add_left (List.toFinset_card_le _) _
  | _ =>
    refine ⟨?_, fun k' hk' => by cases hk'⟩
    show 0 + _ ≤ (db.ahead r).card + 0
    rw [Nat.zero_add]
    refine Finset.card_le_card (ahead_exec_subset (fun r' hr' hst => ?_) fun _ h => by cases h)
    cases hr' <;> cases hst

/-- A row keeps its place in the order. -/
theorem claimOrder_step (h : queueLts.step db e db') (hr : db.queue.lookup k = some r) :
    ∃ r', db'.queue.lookup k = some r' ∧ claimOrder r' = claimOrder r := by
  obtain ⟨r', hr', ⟨-, rfl⟩ | ⟨-, env, hs⟩⟩ := queueLts_step h hr
  · exact ⟨r', hr', rfl⟩
  · exact ⟨r', hr', claimOrder_rowStep hs⟩

/-- A queued row that is not claimed stays queued or is finished. -/
theorem unclaimed_step (h : queueLts.step db e db') (hr : db.queue.lookup k = some r)
    (hq : r.status = .queued ∨ r.status.terminal = true) (hc : e.claims k = false) :
    ∃ r', db'.queue.lookup k = some r' ∧ claimOrder r' = claimOrder r ∧
      (r'.status = .queued ∧ r.status = .queued ∨ r'.status.terminal = true) := by
  obtain ⟨q, rows⟩ := e
  obtain ⟨r', hr', ⟨-, rfl⟩ | ⟨hk, env, hs⟩⟩ := queueLts_step h hr
  · exact ⟨r', hr', rfl, hq.imp_left fun h => ⟨h, h⟩⟩
  · refine ⟨r', hr', claimOrder_rowStep hs, ?_⟩
    cases hs with
    | claim lockId => simp [Executed.claims, hk] at hc
    | complete | fail | cancel | cancelGroup | failOver => exact .inr rfl
    | attach g => exact hq.imp_left fun h => ⟨h, h⟩
    | requeue _ _ ha => rcases hq with h | h <;> rw [ha] at h <;> cases h

end Step

/-! ## Any number of statements -/

section Run

variable {db db' : Db} {es : List Executed} {k k' : Key} {r r' : Row}

theorem unclaimed_run (h : queueLts.Steps db es db') (hr : db.queue.lookup k = some r) (hq : r.status = .queued)
    (hes : ∀ e ∈ es, e.claims k = false) :
    ∃ r', db'.queue.lookup k = some r' ∧ claimOrder r' = claimOrder r ∧
      (r'.status = .queued ∨ r'.status.terminal = true) := by
  induction h with
  | nil => exact ⟨r, hr, rfl, .inl hq⟩
  | @snoc es t e u _ hstep ih =>
    obtain ⟨r₁, hr₁, horder, hst⟩ := ih fun e he => hes e (List.mem_append_left _ he)
    obtain ⟨r₂, hr₂, horder₂, hst₂⟩ := unclaimed_step hstep hr₁ hst (hes e (by simp))
    exact ⟨r₂, hr₂, horder₂.trans horder, hst₂.imp_left And.left⟩

theorem ahead_congr (h : claimOrder r' = claimOrder r) : db.ahead r' = db.ahead r := by
  unfold Db.ahead
  rw [h]

/-- **Waiting for a claim.** While a row stays queued, whatever statements are executed, only rows that come
before it in the order of priority, age and id are claimed; and the calls of `claim_next_job` are at most the
rows ahead of it at first and those that are inserted or requeued ahead of it meanwhile. -/
theorem waiting_run (h : queueLts.Steps db es db') (hr : db.queue.lookup k = some r) (hq : r.status = .queued)
    (hr' : db'.queue.lookup k = some r') (hq' : r'.status = .queued) (hes : ∀ e ∈ es, e.claims k = false) :
    es.countP (·.asks) + (db'.ahead r).card ≤
        (db.ahead r).card + (es.map (·.entering r.priority)).sum ∧
      ∀ e ∈ es, ∀ k', e.claims k' = true →
        ∃ r₁, db'.queue.lookup k' = some r₁ ∧ claimOrder r₁ < claimOrder r := by
  induction h generalizing r' with
  | nil => exact ⟨by simp, nofun⟩
  | @snoc es t e u hsteps hstep ih =>
    have hes₁ : ∀ e ∈ es, e.claims k = false := fun e he => hes e (List.mem_append_left _ he)
    have hc : e.claims k = false := hes e (by simp)
    obtain ⟨r₁, hr₁, horder, hst⟩ := unclaimed_run hsteps hr hq hes₁
    -- a row that was finished before would be finished now
    have hst₁ : r₁.status = .queued := by
      obtain ⟨r₂, hr₂, -, ⟨-, hst₁⟩ | hterminal⟩ := unclaimed_step hstep hr₁ hst hc
      · exact hst₁
      · rw [hr', Option.some.injEq] at hr₂
        rw [← hr₂, hq'] at hterminal
        cases hterminal
    obtain ⟨hcount, hbefore⟩ := ih hr₁ hst₁ hes₁
    obtain ⟨hone, hclaimed⟩ := ahead_step hstep hr₁ hst₁ hc
    have hpriority : r₁.priority = r.priority :=
      Int32.toInt_inj.mp (Prod.ext_iff.mp (toLex.injective horder)).1
    rw [ahead_congr horder, ahead_congr horder, hpriority] at hone
    refine ⟨?_, fun e' he' k' hk' => ?_⟩
    · rw [List.countP_append, List.countP_singleton, List.map_append, List.sum_append, List.map_singleton,
        List.sum_singleton]
      omega
    · obtain ⟨r₀, hr₀, hlt⟩ : ∃ r₀, t.queue.lookup k' = some r₀ ∧ claimOrder r₀ < claimOrder r := by
        rcases List.mem_append.mp he' with he' | he'
        · exact hbefore e' he' k' hk'
        · rw [List.mem_singleton] at he'
          subst he'
          obtain ⟨r₀, hr₀, -, hlt⟩ := mem_ahead.mp (hclaimed k' hk')
          exact ⟨r₀, hr₀, horder ▸ hlt⟩
      obtain ⟨r₂, hr₂, horder₂⟩ := claimOrder_step hstep hr₀
      exact ⟨r₂, hr₂, horder₂.trans_lt hlt⟩

end Run

/-- Two jobs are enqueued, and the second one waits while the first is claimed. -/
theorem waiting_run_second :
    let q : Query := .enqueue .null 0 none none none
    let db := (q.exec ⟨1, 8⟩ (q.exec ⟨0, 7⟩ ⟨.empty, .empty⟩).2).2
    let es : List Executed := [⟨.claimNextJob 9, (Query.claimNextJob 9).affected ⟨2, 0⟩ db⟩]
    ∃ r db', queueLts.Steps db es db' ∧ db.queue.lookup (8, 1) = some r ∧ (db.ahead r).card = 1 ∧
      es.countP (·.asks) + (db'.ahead r).card ≤ (db.ahead r).card + (es.map (·.entering r.priority)).sum := by
  intro q db es
  let r : Row := queuedRow ⟨1, 8⟩ .null 0 none none none
  let db' : Db := ((Query.claimNextJob 9).exec ⟨2, 0⟩ db).2
  have hstep : queueLts.Steps db es db' := .single ⟨⟨2, 0⟩, rfl, rfl⟩
  have hr : db.queue.lookup (8, 1) = some r := rfl
  have hr' : db'.queue.lookup (8, 1) = some r := rfl
  have hes : ∀ e ∈ es, e.claims (8, 1) = false := by
    intro e he
    rw [List.mem_singleton.mp he]
    rfl
  exact ⟨r, db', hstep, hr, by decide, (waiting_run hstep hr rfl hr' rfl hes).1⟩

end FireCtrl
