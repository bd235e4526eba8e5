import FireCtrl.Queue.Spec

/-!
# Draining the queue

* `drain`: claim the next job until there is none.
* **`drain_spec`**: the queued rows are returned in their order, each is left claimed by its call, and nothing
  else has changed.
-/

namespace FireCtrl

/-- The row as a claim leaves it. -/
def Row.claim (r : Row) (lockId : Uuid) (env : Env) : Row :=
  { r with status := .active, lock := some lockId, lockedAt := some env.now }

namespace Db

variable {db : Db} {r : Row} {l : List Row} {lockId : Uuid} {env : Env}

/-- The queued rows in the order in which they are claimed. -/
def queuedRows (db : Db) : List Row := db.queue.orderBy claimOrder fun r => r.status = .queued

theorem claimOrder_inj : ∀ r ∈ db.queue, ∀ r' ∈ db.queue, claimOrder r = claimOrder r' → r = r' := by
  intro r hr r' hr' h
  have hkey := (Prod.ext_iff.mp (toLex.injective h)).2
  obtain ⟨hc, hid⟩ := Prod.ext_iff.mp (toLex.injective hkey)
  exact Row.ext_key hr hr' hid hc

/-! ## One claim -/

theorem claimNextJob_nil (h : db.queuedRows = []) : db.claimNextJob lockId env = (.ok none, db) := by
  have hnext : db.nextQueued = none := congrArg List.head? h
  have hsel (r : Row) : (sqlClaimNextJob env lockId db).selects r = false := by simp [sqlClaimNextJob, hnext]
  have hrun : (sqlClaimNextJob env lockId db).run db = db := by
    unfold QueueUpdate.run
    rw [KTable.update_eq_self fun r _ hr => by rw [hsel] at hr; cases hr]
  have hret : (sqlClaimNextJob env lockId db).returning db = [] := by
    unfold QueueUpdate.returning
    rw [List.filter_eq_nil_iff.mpr fun r _ => by rw [hsel]; exact Bool.false_ne_true, List.map_nil]
  unfold claimNextJob
  simp only [hrun, hret, List.head?_nil, Option.map_none]

theorem selects_claim (h : db.queuedRows = r :: l) (r' : Row) :
    (sqlClaimNextJob env lockId db).selects r' = decide (r'.key = r.key) := by
  have hnext : db.nextQueued = some r := congrArg List.head? h
  simp [sqlClaimNextJob, hnext, eq_comm]

theorem mem_of_queuedRows (h : db.queuedRows = r :: l) : r ∈ db.queue ∧ r.status = .queued := by
  have hmem := (KTable.mem_orderBy claimOrder).mp (h ▸ List.mem_cons_self : r ∈ db.queuedRows)
  exact ⟨hmem.1, of_decide_eq_true hmem.2⟩

/-- A claim returns the first queued row. -/
theorem claimNextJob_fst (h : db.queuedRows = r :: l) :
    (db.claimNextJob lockId env).1 = .ok (some (mapQueueRow (r.claim lockId env))) := by
  obtain ⟨hr, -⟩ := mem_of_queuedRows h
  have hfilter (r' : Row) (hr' : r' ∈ db.queue.rows.filter (sqlClaimNextJob env lockId db).selects) : r' = r := by
    obtain ⟨hmem, hsel⟩ := List.mem_filter.mp hr'
    rw [selects_claim h] at hsel
    exact KTable.eq_of_key_eq hmem hr (of_decide_eq_true hsel)
  have hmem : r ∈ db.queue.rows.filter (sqlClaimNextJob env lockId db).selects :=
    List.mem_filter.mpr ⟨hr, by rw [selects_claim h]; exact decide_eq_true rfl⟩
  show Except.ok _ = _
  unfold QueueUpdate.returning
  rcases hl : db.queue.rows.filter (sqlClaimNextJob env lockId db).selects with _ | ⟨r', l'⟩
  · rw [hl] at hmem
    cases hmem
  · rw [hfilter r' (hl ▸ List.mem_cons_self)]
    rfl

/-- It rewrites that row alone. -/
theorem lookup_claimNextJob (h : db.queuedRows = r :: l) (k : Key) :
    (db.claimNextJob lockId env).2.queue.lookup k =
      (db.queue.lookup k).map fun r' => if k = r.key then r'.claim lockId env else r' := by
  show ((sqlClaimNextJob env lockId db).run db).queue.lookup k = _
  rw [QueueUpdate.lookup_run]
  rcases hk : db.queue.lookup k with _ | r'
  · rfl
  · rw [Option.map_some, Option.map_some, QueueUpdate.apply, selects_claim h, KTable.key_of_lookup hk]
    simp only [decide_eq_true_eq]
    rfl

/-- The others are left. -/
theorem queuedRows_claimNextJob (h : db.queuedRows = r :: l) :
    (db.claimNextJob lockId env).2.queuedRows = l := by
  have hupdate : (db.claimNextJob lockId env).2.queuedRows =
      db.queue.orderBy claimOrder fun r' =>
        decide (r'.status = .queued) && !(sqlClaimNextJob env lockId db).selects r' :=
    KTable.orderBy_update claimOrder (sqlClaimNextJob env lockId db).key_set fun r' _ _ => rfl
  rw [hupdate, funext (selects_claim h)]
  exact KTable.orderBy_tail claimOrder claimOrder_inj h

end Db

/-! ## The whole queue -/

theorem queued_lt {db : Db} {lockId : Uuid} {env : Env} {row : QueueScrapeRow}
    (h : (db.claimNextJob lockId env).1 = .ok (some row)) :
    (db.claimNextJob lockId env).2.queuedRows.length < db.queuedRows.length := by
  rcases hl : db.queuedRows with _ | ⟨r, l⟩
  · rw [Db.claimNextJob_nil hl] at h
    cases h
  · rw [Db.queuedRows_claimNextJob hl]
    exact Nat.lt_succ_self _

/-- Claim the next job until there is none; the calls bring their locks and find a clock each. -/
def drain (lockId : ℕ → Uuid) (env : ℕ → Env) (db : Db) : List QueueScrapeRow × Db :=
  match h : db.claimNextJob (lockId 0) (env 0) with
  | (.ok (some row), db') =>
    let rest := drain (fun i => lockId (i + 1)) (fun i => env (i + 1)) db'
    (row :: rest.1, rest.2)
  | (_, db') => ([], db')
termination_by db.queuedRows.length
decreasing_by
  have hlt := @queued_lt db (lockId 0) (env 0) row (by rw [h])
  rwa [h] at hlt

section Drain

variable {lockId : ℕ → Uuid} {env : ℕ → Env} {db : Db} {r : Row} {l : List Row}

theorem drain_nil (h : db.queuedRows = []) : drain lockId env db = ([], db) := by
  have hclaim : db.claimNextJob (lockId 0) (env 0) = (.ok none, db) := Db.claimNextJob_nil h
  unfold drain
  split
  · rename_i h'
    rw [hclaim] at h'
    cases h'
  · rename_i h'
    rw [hclaim] at h'
    cases h'
    rfl

theorem drain_cons (h : db.queuedRows = r :: l) :
    drain lockId env db =
      let rest := drain (fun i => lockId (i + 1)) (fun i => env (i + 1)) (db.claimNextJob (lockId 0) (env 0)).2
      (mapQueueRow (r.claim (lockId 0) (env 0)) :: rest.1, rest.2) := by
  have hclaim : (db.claimNextJob (lockId 0) (env 0)).1 = .ok (some (mapQueueRow (r.claim (lockId 0) (env 0)))) :=
    Db.claimNextJob_fst h
  conv_lhs => unfold drain
  split
  · rename_i h'
    rw [h'] at hclaim ⊢
    cases hclaim
    rfl
  · rename_i hne h'
    rw [h'] at hclaim
    exact (hne _ hclaim).elim

/-- The returned rows. -/
theorem drain_fst :
    (drain lockId env db).1 = db.queuedRows.mapIdx fun i r => mapQueueRow (r.claim (lockId i) (env i)) := by
  generalize hl : db.queuedRows = l
  induction l generalizing db lockId env with
  | nil => rw [drain_nil hl]; rfl
  | cons r l ih =>
    rw [drain_cons hl, List.mapIdx_cons]
    dsimp only
    rw [ih (Db.queuedRows_claimNextJob hl)]

/-- The rows that are left: the `i`-th of the queued rows is claimed by the `i`-th call. -/
theorem lookup_drain (k : Key) :
    (drain lockId env db).2.queue.lookup k = (db.queue.lookup k).map fun r =>
      if r.status = .queued then
        r.claim (lockId ((db.queuedRows.map Row.key).idxOf k)) (env ((db.queuedRows.map Row.key).idxOf k))
      else r := by
  generalize hl : db.queuedRows = l
  induction l generalizing db lockId env with
  | nil =>
    rw [drain_nil hl]
    rcases hk : db.queue.lookup k with _ | r
    · rfl
    · have hst : r.status ≠ .queued := by
        intro hst
        have hmem : r ∈ db.queuedRows :=
          (KTable.mem_orderBy claimOrder).mpr ⟨KTable.mem_of_lookup hk, decide_eq_true hst⟩
        rw [hl] at hmem
        cases hmem
      rw [Option.map_some, if_neg hst]
  | cons r l ih =>
    rw [drain_cons hl]
    dsimp only
    rw [ih (Db.queuedRows_claimNextJob hl), Db.lookup_claimNextJob hl]
    rcases hk : db.queue.lookup k with _ | r'
    · rfl
    · rw [Option.map_some, Option.map_some, Option.map_some, List.map_cons]
      obtain ⟨hr, hst⟩ := Db.mem_of_queuedRows hl
      by_cases hkey : k = r.key
      · have heq : r' = r :=
          KTable.eq_of_key_eq (KTable.mem_of_lookup hk) hr ((KTable.key_of_lookup hk).trans hkey)
        rw [if_pos hkey, heq, if_neg (by simp [Row.claim]), if_pos hst, hkey, List.idxOf_cons_self]
      · rw [if_neg hkey, List.idxOf_cons_ne _ (Ne.symm hkey)]

theorem drain_groups : (drain lockId env db).2.groups = db.groups := by
  generalize hl : db.queuedRows = l
  induction l generalizing db lockId env with
  | nil => rw [drain_nil hl]
  | cons r l ih =>
    rw [drain_cons hl]
    exact ih (Db.queuedRows_claimNextJob hl)

end Drain

/-- **Draining the queue** returns every queued row once and in order, leaves it active under the lock of the call
that returned it, and changes nothing else. -/
theorem drain_spec (lockId : ℕ → Uuid) (env : ℕ → Env) (db : Db) :
    let run := drain lockId env db
    ∃ claimed : List Row, claimed.Perm (db.queue.rows.filter fun r => r.status = .queued) ∧
      (claimed.Pairwise fun r r' => claimOrder r ≤ claimOrder r') ∧
      run.1 = claimed.mapIdx (fun i r => mapQueueRow (r.claim (lockId i) (env i))) ∧
      (∀ (i : ℕ) (r : Row), claimed[i]? = some r → run.2.queue.lookup r.key = some (r.claim (lockId i) (env i))) ∧
      (∀ r ∈ db.queue, r.status ≠ .queued → run.2.queue.lookup r.key = some r) ∧
      (∀ k, db.queue.lookup k = none → run.2.queue.lookup k = none) ∧ run.2.groups = db.groups := by
  refine ⟨db.queuedRows, KTable.orderBy_perm claimOrder _ _, KTable.orderBy_sorted claimOrder _ _, drain_fst, ?_, ?_,
    ?_, drain_groups⟩
  · intro i r hi
    obtain ⟨hlt, hget⟩ := List.getElem?_eq_some_iff.mp hi
    obtain ⟨hr, hst⟩ := (KTable.mem_orderBy claimOrder).mp (List.mem_of_getElem? hi)
    have hidx : (db.queuedRows.map Row.key).idxOf r.key = i := by
      have hnodup : (db.queuedRows.map Row.key).Nodup := KTable.nodup_orderBy claimOrder db.queue _
      have hat := hnodup.idxOf_getElem i (by rwa [List.length_map])
      rwa [List.getElem_map, hget] at hat
    rw [lookup_drain, KTable.lookup_key hr, Option.map_some, if_pos (of_decide_eq_true hst), hidx]
  · intro r hr hst
    rw [lookup_drain, KTable.lookup_key hr, Option.map_some, if_neg hst]
  · intro k hk
    rw [lookup_drain, hk, Option.map_none]

end FireCtrl
