import FireCtrl.Pool

/-!
# Closing the browser pool (`BrowserPool::shutdown`)

The pool of `FireCtrl.Pool`, with calls of `shutdown`. They close the semaphore, so that every acquire
without a permit fails, and then, under the mutex, close the browsers of the deque one by one.

* `ClosingPool`, `closingLts`: the pool, its tasks and its shutdowns. Until the semaphore is closed the
  runs are those of `poolLts` (`pool_run_of_open`).
* `Conserved`: every browser is in one place, and no permit is lost; `conserved_step`.
* **`pool_conserved`**: it holds in every state reached, and an idle pool has all its browsers again.
-/

namespace FireCtrl

/-- Where a call of `shutdown` stands. -/
inductive ShutdownState
  | idle
  | locking
  | draining
  | closing (browser : ℕ)
  | drained
  | done
deriving DecidableEq

inductive ShutdownMove
  | close
  | lock
  | pop
  | closeBrowser
  | unlock
  | cancel
deriving DecidableEq

structure ClosingPool where
  pool : BrowserPool
  semaphoreClosed : Bool
  closed : List ℕ
  shutdowns : List ShutdownState

inductive PoolEvent
  | task (i : ℕ) (m : Move)
  | shutdown (j : ℕ) (m : ShutdownMove)
deriving DecidableEq

namespace ClosingPool

/-- A step of a call of `shutdown`. -/
def shutdownStep (s : ClosingPool) : ShutdownState → ShutdownMove → Option (ShutdownState × ClosingPool)
  | .idle, .close => some (.locking, { s with semaphoreClosed := true })
  | .locking, .lock =>
    if s.pool.locked then none
    else some (.draining, { s with pool := { s.pool with locked := true } })
  | .draining, .pop =>
    match s.pool.deque with
    | b :: deque => some (.closing b, { s with pool := { s.pool with deque } })
    | [] => some (.drained, s)
  | .closing b, .closeBrowser => some (.draining, { s with closed := s.closed ++ [b] })
  | .drained, .unlock => some (.done, { s with pool := { s.pool with locked := false } })
  | .locking, .cancel => some (.done, s)
  -- the browser is dropped, and with it its process
  | .closing b, .cancel =>
    some (.done, { s with closed := s.closed ++ [b], pool := { s.pool with locked := false } })
  | _, _ => none

def next (s : ClosingPool) : PoolEvent → Option (PoolEvent × ClosingPool)
  | .task i m =>
    if s.semaphoreClosed ∧ m = .permit then
      -- `acquire_owned` returns an error
      if s.pool.tasks[i]? = some .acquiring then
        some (.task i m, { s with pool := { s.pool with tasks := s.pool.tasks.set i .idle } })
      else none
    else (s.pool.next (i, m)).map fun p => (.task i m, { s with pool := p.2 })
  | .shutdown j m =>
    match s.shutdowns[j]? with
    | some st =>
      (s.shutdownStep st m).map fun p =>
        (.shutdown j m, { p.2 with shutdowns := p.2.shutdowns.set j p.1 })
    | none => none

end ClosingPool

/-- A pool of `size` browsers, used by any number of tasks and shut down any number of times. -/
def closingLts (size : ℕ) : Lts ClosingPool PoolEvent :=
  .ofFun (fun s => ∃ m k, s = ⟨.new size m, false, [], List.replicate k .idle⟩) ClosingPool.next

/-! ## What a step can do -/

/-- The steps of a shutdown, one constructor for each case. -/
inductive ShutdownStep (s : ClosingPool) : ShutdownState → ShutdownState → ClosingPool → Prop
  | close : ShutdownStep s .idle .locking { s with semaphoreClosed := true }
  | lock : ShutdownStep s .locking .draining { s with pool := { s.pool with locked := true } }
  | pop (b : ℕ) (deque : List ℕ) : s.pool.deque = b :: deque →
      ShutdownStep s .draining (.closing b) { s with pool := { s.pool with deque } }
  | empty : ShutdownStep s .draining .drained s
  | closeBrowser (b : ℕ) :
      ShutdownStep s (.closing b) .draining { s with closed := s.closed ++ [b] }
  | unlock : ShutdownStep s .drained .done { s with pool := { s.pool with locked := false } }
  | cancelLock : ShutdownStep s .locking .done s
  | cancelClose (b : ℕ) : ShutdownStep s (.closing b) .done
      { s with closed := s.closed ++ [b], pool := { s.pool with locked := false } }

/-- The steps of the pool. -/
inductive ClosingStep (s : ClosingPool) : PoolEvent → ClosingPool → Prop
  | task (i : ℕ) (m : Move) {a b p} : s.pool.tasks[i]? = some a → TaskStep s.pool a m b p →
      ClosingStep s (.task i m) { s with pool := { p with tasks := p.tasks.set i b } }
  | refused (i : ℕ) : s.semaphoreClosed = true → s.pool.tasks[i]? = some .acquiring →
      ClosingStep s (.task i .permit)
        { s with pool := { s.pool with tasks := s.pool.tasks.set i .idle } }
  | shutdown (j : ℕ) (m : ShutdownMove) {st st' s'} : s.shutdowns[j]? = some st →
      ShutdownStep s st st' s' →
      ClosingStep s (.shutdown j m) { s' with shutdowns := s'.shutdowns.set j st' }

section Steps

variable {size : ℕ} {s t : ClosingPool} {ev : PoolEvent} {es : List PoolEvent}

theorem shutdownStep_cases {st st' : ShutdownState} {m : ShutdownMove} {s' : ClosingPool}
    (h : s.shutdownStep st m = some (st', s')) : ShutdownStep s st st' s' := by
  unfold ClosingPool.shutdownStep at h
  split at h
  · cases h; exact .close
  · split_ifs at h
    cases h
    exact .lock
  · split at h
    · rename_i hd
      cases h
      exact .pop _ _ hd
    · cases h; exact .empty
  · cases h; exact .closeBrowser _
  · cases h; exact .unlock
  · cases h; exact .cancelLock
  · cases h; exact .cancelClose _
  · cases h

theorem event_of_next {s p : BrowserPool} {c e : ℕ × Move} (h : s.next c = some (e, p)) : e = c := by
  unfold BrowserPool.next at h
  split at h
  · obtain ⟨q, -, heq⟩ := Option.map_eq_some_iff.mp h
    exact (congrArg Prod.fst heq).symm
  · cases h

theorem closing_step_cases (h : (closingLts size).step s ev t) : ClosingStep s ev t := by
  obtain ⟨c, hc⟩ := h
  cases c with
  | task i m =>
    rw [ClosingPool.next] at hc
    split_ifs at hc with hclosed ha
    · obtain ⟨hcl, rfl⟩ := hclosed
      cases hc
      exact .refused i hcl ha
    · obtain ⟨⟨e, p⟩, hp, heq⟩ := Option.map_eq_some_iff.mp hc
      obtain rfl := event_of_next hp
      have hpool : (poolLts size).step s.pool (i, m) p := ⟨_, hp⟩
      obtain ⟨a, b, p', ha, hs, rfl⟩ := pool_step_cases hpool
      cases heq
      exact .task i m ha hs
  | shutdown j m =>
    rw [ClosingPool.next] at hc
    split at hc
    · rename_i st hst
      obtain ⟨⟨st', s'⟩, hs, heq⟩ := Option.map_eq_some_iff.mp hc
      cases heq
      exact .shutdown j m hst (shutdownStep_cases hs)
    · cases hc

/-- Before the semaphore is closed, the tasks use the pool as if there were no shutdown. -/
theorem poolLts_step {i : ℕ} {m : Move} (h : (closingLts size).step s (.task i m) t)
    (hopen : s.semaphoreClosed = false) : (poolLts size).step s.pool (i, m) t.pool := by
  obtain ⟨c, hc⟩ := h
  cases c with
  | task i' m' =>
    rw [ClosingPool.next, if_neg (by simp [hopen])] at hc
    obtain ⟨⟨e, p⟩, hp, heq⟩ := Option.map_eq_some_iff.mp hc
    obtain rfl := event_of_next hp
    cases heq
    exact ⟨_, hp⟩
  | shutdown j m' =>
    rw [ClosingPool.next] at hc
    split at hc
    · obtain ⟨p, -, heq⟩ := Option.map_eq_some_iff.mp hc
      cases heq
    · cases hc

end Steps

/-! ## Before the semaphore is closed -/

/-- Until the semaphore is closed no shutdown has started. -/
def ClosingPool.Untouched (s : ClosingPool) : Prop :=
  s.semaphoreClosed = false → s.closed = [] ∧ ∀ st ∈ s.shutdowns, st = .idle

section Open

variable {size : ℕ} {s t : ClosingPool} {ev : PoolEvent} {es : List PoolEvent}

/-- A step that leaves the semaphore open is one of a task. -/
theorem task_of_open (h : s.Untouched) (hstep : (closingLts size).step s ev t)
    (hopen : t.semaphoreClosed = false) : s.semaphoreClosed = false ∧ t.closed = s.closed ∧
      t.shutdowns = s.shutdowns ∧ ∃ i m, ev = .task i m := by
  cases closing_step_cases hstep with
  | task i m _ _ => exact ⟨hopen, rfl, rfl, i, m, rfl⟩
  | refused i _ _ => exact ⟨hopen, rfl, rfl, i, _, rfl⟩
  | @shutdown j m st st' s' hst hs =>
    have hidle : s.semaphoreClosed = false → st = .idle :=
      fun hs => (h hs).2 st (List.mem_of_getElem? hst)
    cases hs with
    | close => cases hopen
    | _ => cases hidle hopen

theorem untouched_run (h : (closingLts size).Run es s) : s.Untouched := by
  refine Lts.Run.invariant (I := fun _ s => s.Untouched) ?_ ?_ h
  · rintro s ⟨m, k, rfl⟩ -
    exact ⟨rfl, fun st hst => List.eq_of_mem_replicate hst⟩
  · intro es s ev t _ hs hstep hopen
    obtain ⟨hopen', hclosed, hshutdowns, -⟩ := task_of_open hs hstep hopen
    rw [hclosed, hshutdowns]
    exact hs hopen'

/-- **Until the semaphore is closed**, the pool runs as if there were no shutdown. -/
theorem pool_run_of_open (h : (closingLts size).Run es s) (hopen : s.semaphoreClosed = false) :
    ∃ es', (poolLts size).Run es' s.pool := by
  refine Lts.Run.invariant
    (I := fun _ s => s.semaphoreClosed = false → ∃ es', (poolLts size).Run es' s.pool) ?_ ?_ h hopen
  · rintro s ⟨m, k, rfl⟩ -
    exact ⟨[], .init ⟨m, rfl⟩⟩
  · intro es s ev t hrun ih hstep hopen
    obtain ⟨hopen', -, -, i, m, rfl⟩ := task_of_open (untouched_run hrun) hstep hopen
    obtain ⟨es', hes'⟩ := ih hopen'
    exact ⟨_, hes'.snoc (poolLts_step hstep hopen')⟩

end Open

/-! ## Where the browsers are -/

/-- Browser `b` is with a guard, or with an acquire about to return one. -/
def TaskState.guards (b : ℕ) : TaskState → ℕ
  | .popped (some b') | .guarding b' | .pushing b' => if b' = b then 1 else 0
  | _ => 0

/-- Browser `b` is with a task that pushes it back. -/
def TaskState.pushesBack (b : ℕ) : TaskState → ℕ
  | .deferred b' | .deferredPushing b' => if b' = b then 1 else 0
  | _ => 0

/-- Browser `b` is being closed. -/
def ShutdownState.closes (b : ℕ) : ShutdownState → ℕ
  | .closing b' => if b' = b then 1 else 0
  | _ => 0

namespace ClosingPool

variable (s : ClosingPool) (b : ℕ)

/-- How often browser `b` is in the deque, with a guard, with a pending push-back, and closed. -/
def inDeque : ℕ := s.pool.deque.count b

def inGuards : ℕ := s.pool.tally (TaskState.guards b)

def inPushBacks : ℕ := s.pool.tally (TaskState.pushesBack b)

def inClosed : ℕ := s.closed.count b + (s.shutdowns.map (ShutdownState.closes b)).sum

/-- The number of places in which browser `b` is. -/
def places : ℕ := s.inDeque b + s.inGuards b + s.inPushBacks b + s.inClosed b

end ClosingPool

/-- Each of `n` browsers is in one place, and so is each of `n` permits. -/
structure Conserved (n : ℕ) (s : ClosingPool) : Prop where
  browsers : ∀ b, s.places b = if b < n then 1 else 0
  permits : s.pool.permits + s.pool.tally TaskState.permits = n

section Conserved

variable {size n : ℕ} {s t : ClosingPool} {ev : PoolEvent} {es : List PoolEvent} {b : ℕ}

/-- What one step of a task moves. -/
theorem moves_taskStep {p p' : BrowserPool} {a a' : TaskState} {m : Move} (h : TaskStep p a m a' p') :
    ∃ new, p'.tasks = p.tasks ++ new ∧
      p'.permits + a'.permits + (new.map TaskState.permits).sum = p.permits + a.permits ∧
      ∀ b, p'.deque.count b + (a'.guards b + a'.pushesBack b) +
        ((new.map (TaskState.guards b)).sum + (new.map (TaskState.pushesBack b)).sum) =
        p.deque.count b + (a.guards b + a.pushesBack b) := by
  cases h with
  | spawn b' hl =>
    exact ⟨[.deferred b'], rfl, rfl, fun b => by simp [TaskState.guards, TaskState.pushesBack]⟩
  | permit hp =>
    refine ⟨[], by simp, ?_, fun b => rfl⟩
    simp only [TaskState.permits, List.map_nil, List.sum_nil]
    omega
  | pop =>
    refine ⟨[], by simp, rfl, fun b => ?_⟩
    cases hd : p.deque with
    | nil => simp [TaskState.guards, TaskState.pushesBack]
    | cons b' deque =>
      simp only [List.head?_cons, List.tail_cons, TaskState.guards, TaskState.pushesBack,
        List.count_cons, List.map_nil, List.sum_nil]
      simp
  | push b' | deferredPush b' =>
    refine ⟨[], by simp, rfl, fun b => ?_⟩
    simp [TaskState.guards, TaskState.pushesBack, List.count_append, List.count_singleton]
  | acquire | cancelAcquire | cancelLock | release | lock | tryLock | deferredLock | unlock | violated
  | pushed | deferredUnlock => exact ⟨[], by simp, by simp [TaskState.permits], fun b => rfl⟩

/-- What one step of a shutdown moves. -/
theorem moves_shutdownStep {st st' : ShutdownState} {s' : ClosingPool} (h : ShutdownStep s st st' s') :
    s'.pool.tasks = s.pool.tasks ∧ s'.shutdowns = s.shutdowns ∧ s'.pool.permits = s.pool.permits ∧
      ∀ b, s'.pool.deque.count b + s'.closed.count b + st'.closes b =
        s.pool.deque.count b + s.closed.count b + st.closes b := by
  cases h with
  | pop b' deque hd =>
    refine ⟨rfl, rfl, rfl, fun b => ?_⟩
    simp only [hd, ShutdownState.closes, List.count_cons, beq_iff_eq]
    omega
  | closeBrowser b' | cancelClose b' =>
    refine ⟨rfl, rfl, rfl, fun b => ?_⟩
    simp only [ShutdownState.closes, List.count_append, List.count_singleton, beq_iff_eq]
    omega
  | close | lock | empty | unlock | cancelLock => exact ⟨rfl, rfl, rfl, fun b => rfl⟩

/-- **Each step moves browsers and permits, and loses none.** -/
theorem conserved_step (h : Conserved n s) (hstep : (closingLts size).step s ev t) : Conserved n t := by
  obtain ⟨hb, hp⟩ := h
  cases closing_step_cases hstep with
  | @task i m a a' p ha hs =>
    obtain ⟨new, htasks, hpermits, hbrowsers⟩ := moves_taskStep hs
    have htally (f : TaskState → ℕ) := tally_step (f := f) (b := a') ha htasks
    refine ⟨fun b => ?_, ?_⟩
    · have h₁ := htally (TaskState.guards b)
      have h₂ := htally (TaskState.pushesBack b)
      have h₃ := hbrowsers b
      rw [← hb b]
      simp only [ClosingPool.places, ClosingPool.inDeque, ClosingPool.inGuards,
        ClosingPool.inPushBacks, ClosingPool.inClosed]
      omega
    · have h₁ := htally TaskState.permits
      simp only
      omega
  | refused i _ ha =>
    have htasks : s.pool.tasks = s.pool.tasks ++ [] := (List.append_nil _).symm
    have htally (f : TaskState → ℕ) := tally_step (f := f) (b := .idle) ha htasks
    refine ⟨fun b => ?_, ?_⟩
    · have h₁ := htally (TaskState.guards b)
      have h₂ := htally (TaskState.pushesBack b)
      simp only [TaskState.guards, TaskState.pushesBack, List.map_nil, List.sum_nil] at h₁ h₂
      rw [← hb b]
      simp only [ClosingPool.places, ClosingPool.inDeque, ClosingPool.inGuards,
        ClosingPool.inPushBacks, ClosingPool.inClosed]
      omega
    · have h₁ := htally TaskState.permits
      simp only [TaskState.permits, List.map_nil, List.sum_nil] at h₁
      simp only
      omega
  | @shutdown j m st st' s' hst hs =>
    obtain ⟨htasks, hshutdowns, hpermits, hbrowsers⟩ := moves_shutdownStep hs
    rw [← hshutdowns] at hst
    refine ⟨fun b => ?_, ?_⟩
    · have h₁ := sum_map_set (f := ShutdownState.closes b) (b := st') hst
      have h₂ := hbrowsers b
      rw [← hb b]
      simp only [ClosingPool.places, ClosingPool.inDeque, ClosingPool.inGuards,
        ClosingPool.inPushBacks, ClosingPool.inClosed, BrowserPool.tally, htasks, ← hshutdowns]
      omega
    · rw [← hp]
      simp only [BrowserPool.tally, htasks, hpermits]

/-- Idle shutdowns close nothing. -/
theorem sum_closes_idle {sts : List ShutdownState} (h : ∀ st ∈ sts, st = .idle) (b : ℕ) :
    (sts.map (ShutdownState.closes b)).sum = 0 := by
  refine List.sum_eq_zero fun k hk => ?_
  obtain ⟨st, hst, rfl⟩ := List.mem_map.mp hk
  rw [h st hst]
  rfl

theorem conserved_run (h : (closingLts size).Run es s) : Conserved (max size 1) s := by
  refine Lts.Run.invariant (I := fun _ s => Conserved (max size 1) s) ?_ ?_ h
  · rintro s ⟨m, k, rfl⟩
    refine ⟨fun b => ?_, ?_⟩
    · rw [← List.count_range, ClosingPool.places, ClosingPool.inClosed,
        sum_closes_idle (fun st hst => List.eq_of_mem_replicate hst), ClosingPool.inGuards,
        ClosingPool.inPushBacks, tally_new _ _ rfl, tally_new _ _ rfl]
      rfl
    · rw [tally_new _ _ rfl]
      rfl
  · exact fun _ _ _ _ _ hc hstep => conserved_step hc hstep

theorem tally_eq_zero {f : TaskState → ℕ} {p : BrowserPool} (h : ∀ a ∈ p.tasks, f a = 0) :
    p.tally f = 0 := by
  refine List.sum_eq_zero fun k hk => ?_
  obtain ⟨a, ha, rfl⟩ := List.mem_map.mp hk
  exact h a ha

/-- Without guards, push-backs and shutdowns the browsers are in the deque. -/
theorem Conserved.deque_perm (h : Conserved n s) (huntouched : s.Untouched)
    (hopen : s.semaphoreClosed = false) (hidle : ∀ b, s.inGuards b = 0 ∧ s.inPushBacks b = 0) :
    s.pool.deque.Perm (List.range n) := by
  obtain ⟨hclosed, hshutdowns⟩ := huntouched hopen
  rw [List.perm_iff_count]
  intro b
  rw [List.count_range, ← h.browsers b, ClosingPool.places, ClosingPool.inClosed, hclosed,
    sum_closes_idle hshutdowns, (hidle b).1, (hidle b).2]
  rfl

end Conserved

/-- **Browsers and permits are conserved.** Whatever the interleaving, each browser of the pool is in the
deque, with one guard, with one pending push-back or closed. Until the semaphore is closed, the free
permits and those of guards and acquires make up the size of the pool; when no guard and no push-back
has a browser all browsers are in the deque, and when no task has a permit all permits are free. -/
theorem pool_conserved (size : ℕ) (es : List PoolEvent) (s : ClosingPool)
    (h : (closingLts size).Run es s) :
    (∀ b < max size 1, s.inDeque b + s.inGuards b + s.inPushBacks b + s.inClosed b = 1) ∧
    (s.semaphoreClosed = false → s.pool.permits + s.pool.tally TaskState.permits = max size 1) ∧
    (s.semaphoreClosed = false → (∀ b, s.inGuards b = 0 ∧ s.inPushBacks b = 0) →
      s.pool.deque.Perm (List.range (max size 1)) ∧
      ((∀ a ∈ s.pool.tasks, a.permits = 0) → s.pool.permits = max size 1)) := by
  have hc := conserved_run h
  refine ⟨fun b hb => ?_, fun _ => hc.permits, fun hopen hidle => ⟨?_, fun hall => ?_⟩⟩
  · have hplaces := hc.browsers b
    rwa [if_pos hb] at hplaces
  · exact hc.deque_perm (untouched_run h) hopen hidle
  · have hpermits := hc.permits
    rwa [tally_eq_zero hall, Nat.add_zero] at hpermits

/-- A pool of two: a guard is dropped while another acquire holds the mutex, then both come back; in the
end one browser is out and the other one is being closed. -/
def drainedPool : List PoolEvent × List PoolEvent :=
  ((acquireMoves.map (.task 0 ·)) ++
    [.task 1 .acquire, .task 1 .permit, .task 1 .lock, .task 0 .tryLock, .task 0 .release, .task 1 .pop,
      .task 1 .unlock, .task 2 .lock, .task 2 .push, .task 2 .unlock, .task 1 .tryLock, .task 1 .push,
      .task 1 .unlock, .task 1 .release],
    (acquireMoves.map (.task 0 ·)) ++
      [.shutdown 0 .close, .shutdown 0 .lock, .shutdown 0 .pop, .task 0 .tryLock])

/-- Back in the deque, then in a push-back and in a shutdown. -/
theorem pool_conserved_drained : ∃ s t, (closingLts 2).Run drainedPool.1 s ∧
    s.pool.deque.Perm [0, 1] ∧ s.pool.permits = 2 ∧ (closingLts 2).Run (drainedPool.1 ++ drainedPool.2) t ∧
    t.inPushBacks 0 + t.inClosed 1 = 2 ∧ t.inDeque 1 + t.inGuards 1 + t.inPushBacks 1 + t.inClosed 1 = 1 := by
  have h₁ : (closingLts 2).Run drainedPool.1 ⟨⟨[0, 1], 2, false, [.idle, .idle, .done]⟩, false, [], [.idle]⟩ :=
    ⟨_, ⟨2, 1, rfl⟩, Lts.of_play drainedPool.1 rfl⟩
  have h₂ : (closingLts 2).Run (drainedPool.1 ++ drainedPool.2)
      ⟨⟨[], 1, true, [.releasing, .idle, .done, .deferred 0]⟩, true, [], [.closing 1]⟩ :=
    h₁.trans (Lts.of_play drainedPool.2 rfl)
  have hidle := (pool_conserved 2 _ _ h₁).2.2 rfl fun b => ⟨rfl, rfl⟩
  exact ⟨_, _, h₁, hidle.1, hidle.2 (by decide), h₂, rfl, (pool_conserved 2 _ _ h₂).1 1 (by decide)⟩

end FireCtrl
