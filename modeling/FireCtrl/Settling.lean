import FireCtrl.Shutdown

/-!
# The browser pool comes to rest

What becomes of the calls under way, with and without `shutdown`, while no new ones begin.

* `Locked`: the mutex is held by one task or one shutdown.
* `ClosingPool.remaining`: an upper bound of the steps that are left; `remaining_step`.
* `exists_step_of_active`: as long as a call is under way, some call can go on.
* **`pool_rests`**: every schedule ends, with all permits free and every browser in the deque or closed.
-/

namespace FireCtrl

open BrowserPool

/-- The event does not begin a call. -/
def GoesOn (_ : ClosingPool) (ev : PoolEvent) (_ : ClosingPool) : Prop :=
  (∀ i, ev ≠ .task i .acquire) ∧ ∀ j, ev ≠ .shutdown j .close

/-- The event neither begins a call nor drops one where it waits. -/
def Advances (_ : ClosingPool) (ev : PoolEvent) (_ : ClosingPool) : Prop :=
  (∀ i, ev ≠ .task i .acquire ∧ ev ≠ .task i .cancel) ∧ ∀ j, ev ≠ .shutdown j .close ∧ ev ≠ .shutdown j .cancel

/-! ## The mutex -/

/-- Whether a shutdown holds the mutex. -/
def ShutdownState.locks : ShutdownState → ℕ
  | .draining | .closing _ | .drained => 1
  | .idle | .locking | .done => 0

/-- The mutex has one holder if it is locked, and none otherwise. -/
def Locked (s : ClosingPool) : Prop :=
  s.pool.tally TaskState.locks + (s.shutdowns.map ShutdownState.locks).sum = s.pool.locked.toNat

section Locked

variable {size : ℕ} {s s' t : ClosingPool} {ev : PoolEvent} {es : List PoolEvent} {st st' : ShutdownState}
  {m : ShutdownMove} {a : TaskState} {i j : ℕ}

theorem Locked.of_task (h : Locked s) (ha : s.pool.tasks[i]? = some a) (hl : a.locks = 1) :
    s.pool.locked = true := by
  have hle : a.locks ≤ s.pool.tally TaskState.locks := le_tally ha
  unfold Locked at h
  by_contra hf
  rw [Bool.not_eq_true] at hf
  rw [hf, Bool.toNat_false] at h
  omega

theorem Locked.of_shutdown (h : Locked s) (hst : s.shutdowns[j]? = some st) (hl : st.locks = 1) :
    s.pool.locked = true := by
  have hle : st.locks ≤ (s.shutdowns.map ShutdownState.locks).sum :=
    List.single_le_sum (fun _ _ => Nat.zero_le _) _ (List.mem_map_of_mem (List.mem_of_getElem? hst))
  unfold Locked at h
  by_contra hf
  rw [Bool.not_eq_true] at hf
  rw [hf, Bool.toNat_false] at h
  omega

/-- A shutdown takes the mutex when it is free, and returns it. -/
theorem locks_shutdownStep (h : s.shutdownStep st m = some (st', s')) (hl : st.locks = 1 → s.pool.locked = true) :
    st'.locks + s.pool.locked.toNat = st.locks + s'.pool.locked.toNat := by
  unfold ClosingPool.shutdownStep at h
  split at h
  · cases h; rfl
  · split_ifs at h with hlocked
    cases h
    rw [Bool.not_eq_true] at hlocked
    simp [hlocked, ShutdownState.locks]
  · split at h
    · cases h; rfl
    · cases h; rfl
  · cases h; rfl
  · cases h
    rw [hl rfl]
    rfl
  · cases h; rfl
  · cases h
    rw [hl rfl]
    rfl
  · cases h

theorem shutdown_of_step (h : (closingLts size).step s (.shutdown j m) t) : ∃ st st' s',
    s.shutdowns[j]? = some st ∧ s.shutdownStep st m = some (st', s') ∧
      t = { s' with shutdowns := s'.shutdowns.set j st' } := by
  obtain ⟨c, hc⟩ := h
  cases c with
  | task i m' =>
    rw [ClosingPool.next] at hc
    split_ifs at hc
    · cases hc
    · obtain ⟨p, -, heq⟩ := Option.map_eq_some_iff.mp hc
      cases heq
  | shutdown j' m' =>
    rw [ClosingPool.next] at hc
    split at hc
    · rename_i st hst
      obtain ⟨⟨st', s'⟩, hs, heq⟩ := Option.map_eq_some_iff.mp hc
      cases heq
      exact ⟨st, st', s', hst, hs, rfl⟩
    · cases hc

theorem locked_step (h : Locked s) (hstep : (closingLts size).step s ev t) : Locked t := by
  cases closing_step_cases hstep with
  | @task i m a a' p ha hs =>
    obtain ⟨new, htasks, -, -, hlocks⟩ := balanced_taskStep hs (h.of_task ha)
    have htally := tally_step (f := TaskState.locks) (b := a') ha htasks
    unfold Locked at h ⊢
    simp only
    omega
  | refused i _ ha =>
    have htally := tally_step (f := TaskState.locks) (b := .idle) ha (List.append_nil _).symm
    simp only [TaskState.locks, List.map_nil, List.sum_nil] at htally
    unfold Locked at h ⊢
    simp only
    omega
  | shutdown j m hst hs =>
    obtain ⟨st₁, st₂, s₁, hst₁, hs₁, heq⟩ := shutdown_of_step hstep
    rw [heq]
    obtain ⟨htasks, hshutdowns, -, -⟩ := moves_shutdownStep (shutdownStep_cases hs₁)
    have hlocks := locks_shutdownStep hs₁ (h.of_shutdown hst₁)
    rw [← hshutdowns] at hst₁
    have hsum := sum_map_set (f := ShutdownState.locks) (b := st₂) hst₁
    unfold Locked at h ⊢
    rw [← hshutdowns] at h
    simp only [BrowserPool.tally, htasks] at h ⊢
    omega

theorem locked_run (h : (closingLts size).Run es s) : Locked s := by
  refine Lts.Run.invariant (I := fun _ s => Locked s) ?_ ?_ h
  · rintro s ⟨m, k, rfl⟩
    rw [Locked, tally_new size m rfl, Nat.zero_add]
    exact List.sum_eq_zero fun x hx => by
      obtain ⟨st, hst, rfl⟩ := List.mem_map.mp hx
      rw [List.eq_of_mem_replicate hst]
      rfl
  · exact fun _ _ _ _ _ hl hstep => locked_step hl hstep

end Locked

/-! ## The steps that are left -/

/-- The steps that a task has left, with those of the task that it may spawn and three for each browser that it
returns to the deque. -/
def TaskState.remaining : TaskState → ℕ
  | .idle | .done => 0
  | .releasing | .deferredPushed => 1
  | .pushed => 2
  | .deferredPushing _ => 5
  | .pushing _ | .deferred _ => 6
  | .guarding _ => 8
  | .popped _ => 9
  | .popping => 10
  | .locking => 11
  | .acquiring => 12

def ShutdownState.remaining : ShutdownState → ℕ
  | .idle | .done => 0
  | .drained => 1
  | .draining => 2
  | .locking | .closing _ => 3

/-- The steps that are left at most. -/
def ClosingPool.remaining (s : ClosingPool) : ℕ :=
  s.pool.tally TaskState.remaining + (s.shutdowns.map ShutdownState.remaining).sum + 3 * s.pool.deque.length

section Remaining

variable {size : ℕ} {s s' t : ClosingPool} {ev : PoolEvent} {st st' : ShutdownState}

theorem remaining_taskStep {p p' : BrowserPool} {a b : TaskState} {m : Move} (h : TaskStep p a m b p')
    (hm : m ≠ .acquire) : ∃ new, p'.tasks = p.tasks ++ new ∧
      b.remaining + (new.map TaskState.remaining).sum + 3 * p'.deque.length <
        a.remaining + 3 * p.deque.length := by
  cases h with
  | acquire => exact absurd rfl hm
  | spawn b => exact ⟨[.deferred b], rfl, by simp [TaskState.remaining]⟩
  | pop =>
    refine ⟨[], by simp, ?_⟩
    simp only [TaskState.remaining, List.map_nil, List.sum_nil, List.length_tail]
    omega
  | push | deferredPush =>
    refine ⟨[], by simp, ?_⟩
    simp only [TaskState.remaining, List.map_nil, List.sum_nil, List.length_append, List.length_singleton]
    omega
  | permit | cancelAcquire | cancelLock | release | lock | tryLock | deferredLock | unlock | violated | pushed
  | deferredUnlock => exact ⟨[], by simp, by simp [TaskState.remaining]⟩

theorem remaining_shutdownStep (h : ShutdownStep s st st' s') (hst : st ≠ .idle) :
    st'.remaining + 3 * s'.pool.deque.length < st.remaining + 3 * s.pool.deque.length := by
  cases h with
  | close => exact absurd rfl hst
  | pop b deque hd =>
    simp only [ShutdownState.remaining, hd, List.length_cons]
    omega
  | lock | empty | closeBrowser | unlock | cancelLock | cancelClose =>
    simp [ShutdownState.remaining]

/-- **Every step of a call under way** uses up one that was left. -/
theorem remaining_step (h : ((closingLts size).restrict GoesOn).step s ev t) : t.remaining < s.remaining := by
  obtain ⟨hstep, hacquire, hclose⟩ := h
  cases closing_step_cases hstep with
  | @task i m a b p ha hs =>
    obtain ⟨new, htasks, hlt⟩ := remaining_taskStep hs fun hm => hacquire i (hm ▸ rfl)
    have htally := tally_step (f := TaskState.remaining) (b := b) ha htasks
    simp only [ClosingPool.remaining]
    omega
  | refused i _ ha =>
    have htally := tally_step (f := TaskState.remaining) (b := .idle) ha (List.append_nil _).symm
    simp only [TaskState.remaining, List.map_nil, List.sum_nil] at htally
    simp only [ClosingPool.remaining]
    omega
  | @shutdown j m st st' s' hst hs =>
    have hidle : st ≠ .idle := by
      rintro rfl
      obtain ⟨st₁, st₂, s₁, hst₁, hs₁, -⟩ := shutdown_of_step hstep
      rw [hst, Option.some.injEq] at hst₁
      subst hst₁
      cases m with
      | close => exact hclose j rfl
      | lock | pop | closeBrowser | unlock | cancel => cases hs₁
    obtain ⟨htasks, hshutdowns, -, -⟩ := moves_shutdownStep hs
    have hlt := remaining_shutdownStep hs hidle
    rw [← hshutdowns] at hst
    have hsum := sum_map_set (f := ShutdownState.remaining) (b := st') hst
    simp only [ClosingPool.remaining, BrowserPool.tally, htasks, ← hshutdowns]
    omega

end Remaining

/-! ## No call is stuck -/

section Enabled

variable {size n : ℕ} {s t : ClosingPool} {p : BrowserPool} {a : TaskState} {st : ShutdownState} {i j : ℕ}
  {es es' : List PoolEvent}

/-- A task can go on, unless it has nothing to do, waits for a permit, or waits for the mutex. -/
theorem exists_taskStep (hl : p.locked = false ∨ a.locks = 1) (hidle : a ≠ .idle) (hdone : a ≠ .done)
    (hacquiring : a ≠ .acquiring) : ∃ m r, (m ≠ .acquire ∧ m ≠ .cancel) ∧ m ≠ .permit ∧ p.taskStep a m = some r := by
  cases a with
  | idle => exact absurd rfl hidle
  | done => exact absurd rfl hdone
  | acquiring => exact absurd rfl hacquiring
  | locking =>
    have hfree : p.locked = false := hl.resolve_right (by decide)
    exact ⟨.lock, (.popping, { p with locked := true }), by decide, by decide, by simp [taskStep, hfree]⟩
  | deferred b =>
    have hfree : p.locked = false := hl.resolve_right Nat.zero_ne_one
    exact ⟨.lock, (.deferredPushing b, { p with locked := true }), by decide, by decide, by simp [taskStep, hfree]⟩
  | guarding b =>
    cases hlocked : p.locked with
    | true =>
      exact ⟨.tryLock, (.releasing, { p with tasks := p.tasks ++ [.deferred b] }), by decide, by decide,
        by simp [taskStep, hlocked]⟩
    | false =>
      exact ⟨.tryLock, (.pushing b, { p with locked := true }), by decide, by decide, by simp [taskStep, hlocked]⟩
  | popped browser => cases browser <;> exact ⟨.unlock, _, by decide, by decide, rfl⟩
  | popping => exact ⟨.pop, _, by decide, by decide, rfl⟩
  | pushing | deferredPushing => exact ⟨.push, _, by decide, by decide, rfl⟩
  | pushed | deferredPushed => exact ⟨.unlock, _, by decide, by decide, rfl⟩
  | releasing => exact ⟨.release, _, by decide, by decide, rfl⟩

theorem exists_shutdownStep (hl : s.pool.locked = false ∨ st.locks = 1) (hidle : st ≠ .idle) (hdone : st ≠ .done) :
    ∃ m r, (m ≠ .close ∧ m ≠ .cancel) ∧ s.shutdownStep st m = some r := by
  cases st with
  | idle => exact absurd rfl hidle
  | done => exact absurd rfl hdone
  | locking =>
    have hfree : s.pool.locked = false := hl.resolve_right (by decide)
    exact ⟨.lock, (.draining, { s with pool := { s.pool with locked := true } }), by decide,
      by simp [ClosingPool.shutdownStep, hfree]⟩
  | draining =>
    rcases hd : s.pool.deque with _ | ⟨b, deque⟩
    · exact ⟨.pop, (.drained, s), by decide, by simp [ClosingPool.shutdownStep, hd]⟩
    · exact ⟨.pop, (.closing b, { s with pool := { s.pool with deque } }), by decide,
        by simp [ClosingPool.shutdownStep, hd]⟩
  | closing b => exact ⟨.closeBrowser, _, by decide, rfl⟩
  | drained => exact ⟨.unlock, _, by decide, rfl⟩

theorem advances_task {m : Move} (hm : m ≠ .acquire ∧ m ≠ .cancel) : Advances s (.task i m) t :=
  ⟨fun _ => ⟨fun h => hm.1 (PoolEvent.task.inj h).2, fun h => hm.2 (PoolEvent.task.inj h).2⟩,
    fun _ => ⟨fun h => (by cases h), fun h => (by cases h)⟩⟩

theorem advances_shutdown {m : ShutdownMove} (hm : m ≠ .close ∧ m ≠ .cancel) : Advances s (.shutdown j m) t :=
  ⟨fun _ => ⟨fun h => (by cases h), fun h => (by cases h)⟩,
    fun _ => ⟨fun h => hm.1 (PoolEvent.shutdown.inj h).2, fun h => hm.2 (PoolEvent.shutdown.inj h).2⟩⟩

theorem step_of_task {m : Move} {r : TaskState × BrowserPool} (ha : s.pool.tasks[i]? = some a)
    (hm : m ≠ .acquire ∧ m ≠ .cancel) (hopen : s.semaphoreClosed = true → m ≠ .permit)
    (h : s.pool.taskStep a m = some r) :
    ∃ ev t, ((closingLts size).restrict Advances).step s ev t := by
  refine ⟨.task i m, { s with pool := { r.2 with tasks := r.2.tasks.set i r.1 } }, ⟨.task i m, ?_⟩,
    advances_task hm⟩
  rw [ClosingPool.next, if_neg fun hc => hopen hc.1 hc.2, BrowserPool.next, ha]
  simp only [h, Option.map_some]

/-- An acquire that waits for a permit fails when the semaphore is closed. -/
theorem step_of_refused (ha : s.pool.tasks[i]? = some .acquiring) (hclosed : s.semaphoreClosed = true) :
    ∃ ev t, ((closingLts size).restrict Advances).step s ev t := by
  refine ⟨.task i .permit, { s with pool := { s.pool with tasks := s.pool.tasks.set i .idle } },
    ⟨.task i .permit, ?_⟩, advances_task (by decide)⟩
  rw [ClosingPool.next, if_pos ⟨hclosed, rfl⟩, if_pos ha]

theorem step_of_shutdown {m : ShutdownMove} {r : ShutdownState × ClosingPool} (hst : s.shutdowns[j]? = some st)
    (hm : m ≠ .close ∧ m ≠ .cancel) (h : s.shutdownStep st m = some r) :
    ∃ ev t, ((closingLts size).restrict Advances).step s ev t := by
  refine ⟨.shutdown j m, { r.2 with shutdowns := r.2.shutdowns.set j r.1 }, ⟨.shutdown j m, ?_⟩,
    advances_shutdown hm⟩
  rw [ClosingPool.next, hst]
  simp only [h, Option.map_some]

theorem exists_of_tally_ne_zero {f : TaskState → ℕ} (h : p.tally f ≠ 0) :
    ∃ (i : ℕ) (a : TaskState), p.tasks[i]? = some a ∧ f a ≠ 0 := by
  by_contra hno
  push Not at hno
  refine h (tally_eq_zero fun a ha => ?_)
  obtain ⟨i, hi⟩ := List.mem_iff_getElem?.mp ha
  exact hno i a hi

/-- **No call is stuck.** While the mutex is held its holder can go on. While it is free every task and shutdown
can, but those that wait for a permit: then a permit is free, or its holder can go on. -/
theorem exists_step_of_active (hlocked : Locked s) (hpermits : s.pool.permits + s.pool.tally TaskState.permits = n)
    (hn : 0 < n) (h : (∃ a ∈ s.pool.tasks, a ≠ .idle ∧ a ≠ .done) ∨ ∃ st ∈ s.shutdowns, st ≠ .idle ∧ st ≠ .done) :
    ∃ ev t, ((closingLts size).restrict Advances).step s ev t := by
  have hgo {i : ℕ} {a : TaskState} (ha : s.pool.tasks[i]? = some a) (hl : s.pool.locked = false ∨ a.locks = 1)
      (hidle : a ≠ .idle) (hdone : a ≠ .done) (hacquiring : a ≠ .acquiring) :
      ∃ ev t, ((closingLts size).restrict Advances).step s ev t := by
    obtain ⟨m, r, hm, hm', hs⟩ := exists_taskStep hl hidle hdone hacquiring
    exact step_of_task ha hm (fun _ => hm') hs
  cases hfree : s.pool.locked with
  | true =>
    unfold Locked at hlocked
    rw [hfree, Bool.toNat_true] at hlocked
    by_cases htask : s.pool.tally TaskState.locks = 0
    · obtain ⟨st, hst, hl⟩ : ∃ st ∈ s.shutdowns, st.locks ≠ 0 := by
        by_contra hno
        push Not at hno
        have hzero : (s.shutdowns.map ShutdownState.locks).sum = 0 := by
          refine List.sum_eq_zero fun k hk => ?_
          obtain ⟨st, hst, rfl⟩ := List.mem_map.mp hk
          exact hno st hst
        omega
      obtain ⟨j, hj⟩ := List.mem_iff_getElem?.mp hst
      obtain ⟨m, r, hm, hs⟩ := @exists_shutdownStep s st
        (.inr (by cases st <;> first | rfl | exact absurd rfl hl)) (by rintro rfl; exact hl rfl)
        (by rintro rfl; exact hl rfl)
      exact step_of_shutdown hj hm hs
    · obtain ⟨i, a, ha, hl⟩ := exists_of_tally_ne_zero htask
      exact hgo ha (.inr (by cases a <;> first | rfl | exact absurd rfl hl)) (by rintro rfl; exact hl rfl)
        (by rintro rfl; exact hl rfl) (by rintro rfl; exact hl rfl)
  | false =>
    rcases h with ⟨a, ha, hidle, hdone⟩ | ⟨st, hst, hidle, hdone⟩
    · obtain ⟨i, hi⟩ := List.mem_iff_getElem?.mp ha
      by_cases hacquiring : a = .acquiring
      · subst hacquiring
        by_cases hclosed : s.semaphoreClosed = true
        · exact step_of_refused hi hclosed
        · by_cases hp : 0 < s.pool.permits
          · refine step_of_task (m := .permit) (r := (.locking, { s.pool with permits := s.pool.permits - 1 })) hi
              (by decide) (fun h => absurd h hclosed) ?_
            rw [taskStep, if_pos hp]
          · obtain ⟨i', b, hb, hone⟩ := exists_of_tally_ne_zero (f := TaskState.permits) (p := s.pool) (by omega)
            exact hgo hb (.inl hfree) (by rintro rfl; exact hone rfl) (by rintro rfl; exact hone rfl)
              (by rintro rfl; exact hone rfl)
      · exact hgo hi (.inl hfree) hidle hdone hacquiring
    · obtain ⟨j, hj⟩ := List.mem_iff_getElem?.mp hst
      obtain ⟨m, r, hm, hs⟩ := exists_shutdownStep (s := s) (.inl hfree) hidle hdone
      exact step_of_shutdown hj hm hs

/-- Nobody uses the pool of `n` browsers: all permits are free, and each browser is in the deque or closed. -/
structure ClosingPool.Rest (n : ℕ) (s : ClosingPool) : Prop where
  tasks : ∀ a ∈ s.pool.tasks, a = .idle ∨ a = .done
  shutdowns : ∀ st ∈ s.shutdowns, st = .idle ∨ st = .done
  unlocked : s.pool.locked = false
  permits : s.pool.permits = n
  browsers : (s.pool.deque ++ s.closed).Perm (List.range n)
  opened : s.semaphoreClosed = false → s.closed = []

theorem rest_of_idle (h : (closingLts size).Run es s) (htasks : ∀ a ∈ s.pool.tasks, a = .idle ∨ a = .done)
    (hshutdowns : ∀ st ∈ s.shutdowns, st = .idle ∨ st = .done) : s.Rest (max size 1) := by
  have hc := conserved_run h
  have htally (f : TaskState → ℕ) (hidle : f .idle = 0) (hdone : f .done = 0) : s.pool.tally f = 0 :=
    tally_eq_zero fun a ha => by rcases htasks a ha with rfl | rfl <;> assumption
  have hsum (f : ShutdownState → ℕ) (hidle : f .idle = 0) (hdone : f .done = 0) : (s.shutdowns.map f).sum = 0 := by
    refine List.sum_eq_zero fun k hk => ?_
    obtain ⟨st, hst, rfl⟩ := List.mem_map.mp hk
    rcases hshutdowns st hst with rfl | rfl <;> assumption
  refine ⟨htasks, hshutdowns, ?_, ?_, ?_, fun hopen => (untouched_run h hopen).1⟩
  · have hlocked := locked_run h
    unfold Locked at hlocked
    rw [htally _ rfl rfl, hsum _ rfl rfl] at hlocked
    cases hl : s.pool.locked with
    | false => rfl
    | true => rw [hl] at hlocked; cases hlocked
  · have hpermits := hc.permits
    rwa [htally _ rfl rfl, Nat.add_zero] at hpermits
  · rw [List.perm_iff_count]
    intro b
    have hplaces := hc.browsers b
    rw [ClosingPool.places, ClosingPool.inGuards, ClosingPool.inPushBacks, ClosingPool.inClosed, htally _ rfl rfl,
      htally _ rfl rfl, hsum _ rfl rfl] at hplaces
    rw [List.count_append, List.count_range, ← hplaces]
    rfl

/-- **The pool comes to rest.** From any state reached, however the calls under way are scheduled, as long as no
new ones begin: they take at most `remaining` steps, and as long as they are not all finished one of them can
go on, without being dropped. When they are, all permits are free, and every browser is in the deque or has been
closed by a shutdown. -/
theorem pool_rests (h : (closingLts size).Run es s) (h' : ((closingLts size).restrict GoesOn).Steps s es' t) :
    es'.length + t.remaining ≤ s.remaining ∧
      ((∃ ev u, ((closingLts size).restrict Advances).step t ev u) ∨ t.Rest (max size 1)) := by
  have hrun : (closingLts size).Run (es ++ es') t := h.trans h'.of_restrict
  refine ⟨h'.length_add_le fun _ _ _ => remaining_step, ?_⟩
  by_cases hactive : (∃ a ∈ t.pool.tasks, a ≠ .idle ∧ a ≠ .done) ∨ ∃ st ∈ t.shutdowns, st ≠ .idle ∧ st ≠ .done
  · exact .inl (exists_step_of_active (locked_run hrun) (conserved_run hrun).permits (by omega) hactive)
  · simp only [not_or, not_exists, not_and, Classical.not_not] at hactive
    refine .inr (rest_of_idle hrun (fun a ha => ?_) fun st hst => ?_)
    · exact (em (a = .idle)).imp_right fun hne => hactive.1 a ha hne
    · exact (em (st = .idle)).imp_right fun hne => hactive.2 st hst hne

end Enabled

/-- Two browsers: one guard is dropped while another acquire holds the mutex, and its permit comes back first. -/
theorem pool_rests_contended : ∃ es s t, (closingLts 2).Run es s ∧
    ((closingLts 2).restrict GoesOn).Steps s [.task 0 .tryLock, .task 0 .release] t ∧ s.remaining = 21 ∧
    2 + t.remaining ≤ s.remaining ∧ ((∃ ev u, ((closingLts 2).restrict Advances).step t ev u) ∨ t.Rest 2) := by
  let es : List PoolEvent :=
    acquireMoves.map (.task 0 ·) ++ [.task 1 .acquire, .task 1 .permit, .task 1 .lock]
  let s : ClosingPool := ⟨⟨[1], 0, true, [.guarding 0, .popping]⟩, false, [], []⟩
  let t : ClosingPool := ⟨⟨[1], 1, true, [.idle, .popping, .deferred 0]⟩, false, [], []⟩
  have h : (closingLts 2).Run es s := ⟨_, ⟨2, 0, rfl⟩, Lts.of_play es rfl⟩
  have h' : ((closingLts 2).restrict GoesOn).Steps s [.task 0 .tryLock, .task 0 .release] t := by
    refine (Lts.of_play [.task 0 .tryLock, .task 0 .release] rfl).restrict fun e he _ _ => ?_
    rcases List.mem_pair.mp he with rfl | rfl <;>
      exact ⟨fun i h => by simp at h, fun j h => by simp at h⟩
  exact ⟨es, s, t, h, h', rfl, pool_rests h h'⟩

end FireCtrl
