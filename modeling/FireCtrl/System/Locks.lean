import FireCtrl.System.Model

/-!
# Finishing a job

`complete_job` and `fail_job` write their row whatever its status and whoever holds its lock.

* **`terminal_absorbing`**: a finished row stays as it is in the runs whose `complete_job` and
  `fail_job` statements find their row unfinished; `not_terminal_absorbing`: not in every run.
* `holdsLock_iff`: a worker holds the lock of a row exactly if nothing took the row out of its hands
  since it claimed it; **`fenced_iff`**: so a run is fenced exactly if every worker finishes only rows
  that are undisturbed since its claim; `not_fenced`: not every run is.
-/

namespace FireCtrl

open Query (RowStep)

/-- `complete_job` and `fail_job`. -/
def Query.finishes : Query → Bool
  | completeJob .. | failJob .. => true
  | _ => false

/-! ## Terminal states -/

/-- The columns of a result are the same. -/
def Row.SameResult (r r' : Row) : Prop :=
  r'.status = r.status ∧ r'.returnvalue = r.returnvalue ∧ r'.failedreason = r.failedreason

/-- Once a row is completed, failed or cancelled, its result stays. -/
def TerminalAbsorbing (T : Lts Sys Event) : Prop :=
  ∀ es₁ s es₂ t, T.Run es₁ s → T.Steps s es₂ t → ∀ k r, s.db.queue.lookup k = some r →
    r.status.terminal = true → ∃ r', t.db.queue.lookup k = some r' ∧ r.SameResult r'

/-- A `complete_job` or `fail_job` statement writes no finished row. -/
def FinishesOpen (s : Sys) (ev : Event) (_ : Sys) : Prop :=
  ∀ x, ev.executed = some x → x.query.finishes = true → ∀ k ∈ x.rows, ∀ r,
    s.db.queue.lookup k = some r → r.status.terminal = false

theorem sameResult_of_rowStep {env : Env} {q : Query} {r r' : Row} (h : RowStep env q r r')
    (ht : r.status.terminal = true) (hq : q.finishes = false) : r.SameResult r' := by
  cases h with
  | claim lockId hr => rw [hr] at ht; cases ht
  | complete | fail => cases hq
  | cancel hr => rcases hr with hr | hr <;> rw [hr] at ht <;> cases ht
  | cancelGroup g hg hr => rcases hr with hr | hr <;> rw [hr] at ht <;> cases ht
  | attach g => exact ⟨rfl, rfl, rfl⟩
  | requeue _ _ hr => rw [hr] at ht; cases ht
  | failOver _ _ hr => rw [hr] at ht; cases ht

section

variable {cfg : Config} {urls : UrlCrate} {s t : Sys} {ev : Event} {k : Key} {r : Row}

/-- A step keeps or writes a row. -/
theorem step_row (h : (sysLts cfg urls).step s ev t) (hr : s.db.queue.lookup k = some r) :
    ∃ r', t.db.queue.lookup k = some r' ∧
      (r' = r ∨ ∃ x env, ev.executed = some x ∧ k ∈ x.rows ∧ RowStep env x.query r r') := by
  rcases step_db h with ⟨a, env, q, rfl, ht⟩ | ⟨-, ht⟩
  · refine ⟨_, ht ▸ Query.lookup_exec hr, ?_⟩
    rcases Query.touch_step q env hr with ⟨-, heq⟩ | ⟨hk, hs⟩
    · exact .inl heq
    · exact .inr ⟨_, env, rfl, hk, hs⟩
  · exact ⟨r, ht ▸ hr, .inl rfl⟩

theorem sameResult_of_step (h : (sysLts cfg urls).step s ev t) (ho : FinishesOpen s ev t)
    (hr : s.db.queue.lookup k = some r) (ht : r.status.terminal = true) :
    ∃ r', t.db.queue.lookup k = some r' ∧ r.SameResult r' := by
  obtain ⟨r', hr', rfl | ⟨x, env, hx, hk, hs⟩⟩ := step_row h hr
  · exact ⟨r', hr', rfl, rfl, rfl⟩
  · refine ⟨r', hr', sameResult_of_rowStep hs ht ?_⟩
    -- a finishing statement would have found the row unfinished
    by_contra hq
    have := ho x hx (by simpa using hq) k hk r hr
    rw [ht] at this; cases this

end

/-- **Terminal states are absorbing** in the runs whose `complete_job` and `fail_job` statements find
their row unfinished. -/
theorem terminal_absorbing (cfg : Config) (urls : UrlCrate) :
    TerminalAbsorbing ((sysLts cfg urls).restrict FinishesOpen) := by
  intro es₁ s es₂ t _ h k r hr ht
  let P (u : Sys) : Prop := ∃ r', u.db.queue.lookup k = some r' ∧ r.SameResult r'
  refine h.preserves (P := P) ?_ ⟨r, hr, rfl, rfl, rfl⟩
  rintro u ev v ⟨r₁, hr₁, h₁⟩ ⟨hstep, hopen⟩
  obtain ⟨r₂, hr₂, h₂⟩ := sameResult_of_step hstep hopen hr₁ (by rw [h₁.1, ht])
  exact ⟨r₂, hr₂, h₂.1.trans h₁.1, h₂.2.1.trans h₁.2.1, h₂.2.2.trans h₁.2.2⟩

/-- A batch job runs up to its webhook, where it times out. -/
def lateTimeout : List Choice :=
  [.request 0 .sampleBatch, .handle 0 (.ok 0 1), .work 9 (.ok 1 0), .work 9 (.ok 2 5),
    .work 9 (.ok 3 0), .work 9 (.ok 4 0), .work 9 (.ok 5 0)]

/-- A job that has completed fails when the delivery of its webhook takes too long. -/
theorem not_terminal_absorbing : ¬ ∀ cfg urls, TerminalAbsorbing (sysLts cfg urls) := by
  intro h
  let status (s : Sys) := (s.db.queue.lookup (1, 0)).map Row.status
  obtain ⟨es, s, es', t, hs, ht, h₁, h₂⟩ :=
    sampleRun_split lateTimeout [.timeout 9 (.ok 6 0), .work 9 (.ok 7 0)]
      (f := status) (g := fun p => status p.2) (a := some .completed) (b := some .failed) rfl rfl
  obtain ⟨r, hr, hc⟩ := Option.map_eq_some_iff.mp h₁
  obtain ⟨r', hr', hf⟩ := Option.map_eq_some_iff.mp h₂
  obtain ⟨r'', hr'', heq⟩ := h _ _ es s es' t hs ht (1, 0) r hr (by rw [hc]; rfl)
  rw [hr', Option.some.injEq] at hr''
  rw [← hr''] at heq
  have := heq.1
  rw [hf, hc] at this
  cases this

/-! ## Locks -/

/-- The statement claims row `k` under lock `l`. -/
def Executed.claimsUnder (l : Uuid) (k : Key) (x : Executed) : Prop :=
  x.query = .claimNextJob l ∧ k ∈ x.rows

/-- The statement requeues, completes, fails or cancels row `k`. -/
def Executed.releases (k : Key) (x : Executed) : Prop :=
  k ∈ x.rows ∧
    match x.query with
    | .completeJob .. | .failJob .. | .cancelJob _ | .cancelGroupJobs _ | .requeueStalledJobs _
    | .failOverStalledJobs _ => True
    | _ => False

/-- Row `k` is active under lock `l`. -/
def HoldsLock (db : Db) (l : Uuid) (k : Key) : Prop :=
  ∃ r, db.queue.lookup k = some r ∧ r.status = .active ∧ r.lock = some l

/-- In the history `xs`, row `k` was claimed under lock `l`, and no statement since then has
requeued, completed, failed or cancelled it. -/
def Undisturbed (l : Uuid) (k : Key) (xs : List Executed) : Prop :=
  ∃ xs₁ c xs₂, xs = xs₁ ++ c :: xs₂ ∧ c.claimsUnder l k ∧ ∀ x ∈ xs₂, ¬ x.releases k

theorem not_undisturbed_nil (l : Uuid) (k : Key) : ¬ Undisturbed l k [] := by
  rintro ⟨xs₁, c, xs₂, h, -⟩
  simp at h

theorem undisturbed_append_singleton {l : Uuid} {k : Key} {xs : List Executed} {x : Executed} :
    Undisturbed l k (xs ++ [x]) ↔ x.claimsUnder l k ∨ Undisturbed l k xs ∧ ¬ x.releases k := by
  constructor
  · rintro ⟨xs₁, c, xs₂, h, hc, hxs⟩
    rcases List.eq_nil_or_concat xs₂ with rfl | ⟨ys, y, rfl⟩
    · obtain ⟨-, h⟩ := List.append_inj' h rfl
      cases h
      exact .inl hc
    · rw [List.concat_eq_append, ← List.cons_append, ← List.append_assoc] at h
      obtain ⟨rfl, h⟩ := List.append_inj' h rfl
      obtain rfl : x = y := by simpa using h
      exact .inr ⟨⟨xs₁, c, ys, rfl, hc, fun z hz => hxs z (by simp [hz])⟩, hxs x (by simp)⟩
  · rintro (hc | ⟨⟨xs₁, c, xs₂, rfl, hc, hxs⟩, hx⟩)
    · exact ⟨xs, x, [], rfl, hc, by simp⟩
    · refine ⟨xs₁, c, xs₂ ++ [x], by simp, hc, fun z hz => ?_⟩
      rcases List.mem_append.mp hz with hz | hz
      · exact hxs z hz
      · rw [List.mem_singleton.mp hz]; exact hx

/-- A row comes under a lock by a claim, and out of it by a statement that releases it. -/
theorem holdsLock_step {db db' : Db} {x : Executed} (h : queueLts.step db x db') (l : Uuid)
    (k : Key) : HoldsLock db' l k ↔ x.claimsUnder l k ∨ HoldsLock db l k ∧ ¬ x.releases k := by
  rcases hr : db.queue.lookup k with _ | r
  · have hk := notMem_rows_of_lookup_none h hr
    constructor
    · rintro ⟨r, hl, hst, -⟩
      obtain ⟨env, -, rfl⟩ := h
      obtain ⟨hnew, -⟩ := Query.lookup_exec_of_none hr hl
      rcases x with ⟨q, rows⟩
      cases q <;> cases hnew <;> cases hst
    · rintro (⟨-, hx⟩ | ⟨⟨r, hl, -⟩, -⟩)
      · exact absurd hx hk
      · rw [hr] at hl; cases hl
  · obtain ⟨r', hr', hstep⟩ := queueLts_step h hr
    rcases x with ⟨q, rows⟩
    simp only [HoldsLock, hr, hr', Option.some.injEq, exists_eq_left']
    rcases hstep with ⟨hk, rfl⟩ | ⟨hk, env, hs⟩
    · simp [Executed.claimsUnder, Executed.releases, hk]
    · cases hs with
      | claim lockId hq => simp [Executed.claimsUnder, Executed.releases, hk, hq]
      | attach g => simp [Executed.claimsUnder, Executed.releases]
      | complete | fail | cancel | cancelGroup | requeue | failOver =>
        simp_all [Executed.claimsUnder, Executed.releases]

section

variable {cfg : Config} {urls : UrlCrate} {s t : Sys} {es : List Event} {ev : Event}

/-- A row is active under a lock exactly if it is undisturbed since a claim under that lock. -/
theorem holdsLock_iff (h : (sysLts cfg urls).Run es s) (l : Uuid) (k : Key) :
    HoldsLock s.db l k ↔ Undisturbed l k (es.filterMap Event.executed) := by
  let I (es : List Event) (s : Sys) := HoldsLock s.db l k ↔ Undisturbed l k (es.filterMap Event.executed)
  refine Lts.Run.invariant (I := I) ?_ ?_ h
  · rintro s rfl
    have h₁ : ¬ HoldsLock Sys.init.db l k := by rintro ⟨r, hr, -⟩; cases hr
    simp only [I, h₁, List.filterMap_nil, not_undisturbed_nil]
  · intro es s ev t _ ih hstep
    simp only [I, List.filterMap_append] at ih ⊢
    rcases step_db hstep with ⟨a, env, q, rfl, ht⟩ | ⟨hev, ht⟩
    · let x : Executed := ⟨q, q.affected env s.db⟩
      have hq : queueLts.step s.db x t.db := ⟨env, rfl, ht⟩
      have hx : [Event.statement a x].filterMap Event.executed = [x] := rfl
      rw [hx, undisturbed_append_singleton, holdsLock_step hq, ih]
    · have hx : [ev].filterMap Event.executed = [] := by simp [hev]
      rw [hx, List.append_nil, ht]
      exact ih

/-- A worker's `complete_job` or `fail_job` statement writes only rows that are active under the
worker's lock. -/
def FinishesHeld (s : Sys) (ev : Event) (_ : Sys) : Prop :=
  ∀ w x, ev = .statement (.worker w) x → x.query.finishes = true → ∀ k ∈ x.rows,
    HoldsLock s.db w k

/-- Every row that a worker's `complete_job` or `fail_job` statement writes is undisturbed since the
worker claimed it. -/
def FinishesUndisturbed (es : List Event) : Prop :=
  ∀ es₁ w x es₂, es = es₁ ++ .statement (.worker w) x :: es₂ → x.query.finishes = true →
    ∀ k ∈ x.rows, Undisturbed w k (es₁.filterMap Event.executed)

/-- **A run is fenced exactly if its workers finish only rows that are undisturbed since their
claim.** -/
theorem fenced_iff (h : (sysLts cfg urls).Run es t) :
    ((sysLts cfg urls).restrict FinishesHeld).Run es t ↔ FinishesUndisturbed es := by
  constructor
  · rintro hf es₁ w x es₂ rfl hx k hk
    obtain ⟨s, hs, hf⟩ := hf.split
    obtain ⟨u, ⟨-, hheld⟩, -⟩ := hf.cons
    exact (holdsLock_iff hs.of_restrict w k).mp (hheld w x rfl hx k hk)
  · let I (es : List Event) (t : Sys) :=
      FinishesUndisturbed es → ((sysLts cfg urls).restrict FinishesHeld).Run es t
    refine Lts.Run.invariant (T := sysLts cfg urls) (I := I) (fun s hs _ => ⟨s, hs, .nil⟩) ?_ h
    intro es s ev t hrun ih hstep hu
    have hs := ih fun es₁ w x es₂ hes => hu es₁ w x (es₂ ++ [ev]) (by simp [hes])
    refine hs.snoc ⟨hstep, ?_⟩
    rintro w x rfl hx k hk
    exact (holdsLock_iff hrun w k).mpr (hu es w x [] rfl hx k hk)

end

/-- A stalled job is requeued and claimed by worker 9, while worker 8 is about to complete it. -/
def lateComplete : List Choice :=
  [.request 0 .sampleBatch, .handle 0 (.ok 0 1), .work 8 (.ok 1 0), .stall (.ok 400000000 0),
    .work 9 (.ok 400000001 0), .work 8 (.ok 400000002 5), .work 8 (.ok 400000003 0),
    .work 8 (.ok 400000004 0)]

/-- The batch job of `lateTimeout`, completed by the worker that claimed it. -/
theorem fenced_iff_batch : ∃ es t, (sysLts .sample .sample).Run es t ∧ 7 ≤ es.length ∧
    (((sysLts .sample .sample).restrict FinishesHeld).Run es t ↔ FinishesUndisturbed es) := by
  obtain ⟨es, s, es', t, hs, ht, -, hlen⟩ := sampleRun_split lateTimeout []
    (f := fun _ => ()) (g := fun p => p.1.length) (a := ()) (b := 7) rfl rfl
  exact ⟨es ++ es', t, hs.trans ht, hlen.ge, fenced_iff (hs.trans ht)⟩

/-- The worker of a statement, whether the statement finishes a job, and the rows it touches. -/
def Event.report : Event → Option (Uuid × Bool × List Key)
  | .statement (.worker w) x => some (w, x.query.finishes, x.rows)
  | _ => none

/-- A worker whose job was requeued completes the claim of another worker. -/
theorem not_fenced : ¬ ∀ cfg urls es s ev t, (sysLts cfg urls).Run es s →
    (sysLts cfg urls).step s ev t → FinishesHeld s ev t := by
  intro h
  let c : Choice := .work 8 (.ok 400000005 0)
  obtain ⟨es, s, -, -, hs, -, hobs, -⟩ := sampleRun_split lateComplete []
    (f := fun s => ((s.db.queue.lookup (1, 0)).map Row.lock,
      (next .sample .sample s c).map fun p => p.1.report))
    (g := fun _ => ()) (a := (some (some 9), some (some (8, true, [(1, 0)])))) (b := ()) rfl rfl
  simp only [Prod.mk.injEq, Option.map_eq_some_iff] at hobs
  obtain ⟨⟨r, hr, hlock⟩, ⟨ev, t⟩, hnext, hev⟩ := hobs
  rcases ev with ⟨_ | _ | _, x⟩ | _ | _ | _
  all_goals simp only [Event.report, reduceCtorEq, Option.some.injEq, Prod.mk.injEq] at hev
  obtain ⟨rfl, hx, hrows⟩ := hev
  obtain ⟨r', hr', -, hlock'⟩ := h _ _ es s _ t hs ⟨c, hnext⟩ 8 x rfl hx (1, 0) (by simp [hrows])
  rw [hr, Option.some.injEq] at hr'
  rw [← hr', hlock] at hlock'
  simp at hlock'

end FireCtrl
