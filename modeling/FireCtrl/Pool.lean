import FireCtrl.Lib.Run
import Mathlib.Algebra.BigOperators.Group.List.Basic
import Mathlib.Algebra.Order.BigOperators.Group.List
import Mathlib.Algebra.Order.Ring.Nat

/-!
# The browser pool (`BrowserPool` in `scraper.rs`)

Tasks acquire browsers and drop their guards; each step is one step of one task.

* `TaskState`, `Move`, `taskStep`: what a task does next. `TaskStep`: the same, one constructor for each
  case.
* `Balanced`, **`balanced_run`**: permits, browsers and the mutex, counted over the pool and its tasks.
* `PushedBack`: when an acquire takes the mutex, fewer browsers are waiting to be pushed back than there
  are permits without a browser; `deque_ne_nil_iff`: then, and only then, it finds a browser.
* **`permit_has_browser`**: what a permit is good for, by run and by pool size; `not_permit_has_browser`.
-/

namespace FireCtrl

/-- Where a task stands: in `acquire`, with a guard, in `drop`; or, for a task that `drop` has spawned,
with a browser to push back. -/
inductive TaskState
  | idle
  | acquiring
  | locking
  | popping
  | popped (browser : Option ℕ)
  | guarding (browser : ℕ)
  | pushing (browser : ℕ)
  | pushed
  | releasing
  | deferred (browser : ℕ)
  | deferredPushing (browser : ℕ)
  | deferredPushed
  | done
deriving DecidableEq

/-- The next step of a task. A future that is dropped at an await is `cancel`. -/
inductive Move
  | acquire
  | permit
  | lock
  | pop
  | unlock
  | tryLock
  | push
  | release
  | cancel
deriving DecidableEq

/-- `BrowserPoolInner`, with the tasks that use it. -/
structure BrowserPool where
  deque : List ℕ
  permits : ℕ
  locked : Bool
  tasks : List TaskState

namespace BrowserPool

/-- `BrowserPool::new`, with `m` tasks. -/
def new (size m : ℕ) : BrowserPool where
  deque := List.range (max size 1)
  permits := max size 1
  locked := false
  tasks := List.replicate m .idle

/-- A step of a task: its next state, and the pool. -/
def taskStep (s : BrowserPool) : TaskState → Move → Option (TaskState × BrowserPool)
  -- `acquire`
  | .idle, .acquire => some (.acquiring, s)
  | .acquiring, .permit =>
    if 0 < s.permits then some (.locking, { s with permits := s.permits - 1 }) else none
  | .locking, .lock => if s.locked then none else some (.popping, { s with locked := true })
  | .popping, .pop => some (.popped s.deque.head?, { s with deque := s.deque.tail })
  | .popped (some b), .unlock => some (.guarding b, { s with locked := false })
  -- the invariant is violated: the error is returned, and the permit dropped
  | .popped none, .unlock => some (.releasing, { s with locked := false })
  | .acquiring, .cancel => some (.idle, s)
  | .locking, .cancel => some (.releasing, s)
  -- `drop`
  | .guarding b, .tryLock =>
    if s.locked then some (.releasing, { s with tasks := s.tasks ++ [.deferred b] })
    else some (.pushing b, { s with locked := true })
  | .pushing b, .push => some (.pushed, { s with deque := s.deque ++ [b] })
  | .pushed, .unlock => some (.releasing, { s with locked := false })
  | .releasing, .release => some (.idle, { s with permits := s.permits + 1 })
  -- the spawned task
  | .deferred b, .lock =>
    if s.locked then none else some (.deferredPushing b, { s with locked := true })
  | .deferredPushing b, .push => some (.deferredPushed, { s with deque := s.deque ++ [b] })
  | .deferredPushed, .unlock => some (.done, { s with locked := false })
  | _, _ => none

/-- The step of task `c.1`. -/
def next (s : BrowserPool) (c : ℕ × Move) : Option ((ℕ × Move) × BrowserPool) :=
  match s.tasks[c.1]? with
  | some t =>
    (s.taskStep t c.2).map fun p => (c, { p.2 with tasks := p.2.tasks.set c.1 p.1 })
  | none => none

end BrowserPool

open BrowserPool

/-- A pool of `size` browsers, used by any number of tasks. -/
def poolLts (size : ℕ) : Lts BrowserPool (ℕ × Move) := .ofFun (fun s => ∃ m, s = .new size m) next

/-! ## What a step can do -/

/-- The steps of a task, one constructor for each case. -/
inductive TaskStep (s : BrowserPool) : TaskState → Move → TaskState → BrowserPool → Prop
  | acquire : TaskStep s .idle .acquire .acquiring s
  | permit : 0 < s.permits →
      TaskStep s .acquiring .permit .locking { s with permits := s.permits - 1 }
  | lock : s.locked = false → TaskStep s .locking .lock .popping { s with locked := true }
  | pop : TaskStep s .popping .pop (.popped s.deque.head?) { s with deque := s.deque.tail }
  | unlock (b : ℕ) : TaskStep s (.popped (some b)) .unlock (.guarding b) { s with locked := false }
  | violated : TaskStep s (.popped none) .unlock .releasing { s with locked := false }
  | cancelAcquire : TaskStep s .acquiring .cancel .idle s
  | cancelLock : TaskStep s .locking .cancel .releasing s
  | tryLock (b : ℕ) : s.locked = false →
      TaskStep s (.guarding b) .tryLock (.pushing b) { s with locked := true }
  | spawn (b : ℕ) : s.locked = true →
      TaskStep s (.guarding b) .tryLock .releasing { s with tasks := s.tasks ++ [.deferred b] }
  | push (b : ℕ) : TaskStep s (.pushing b) .push .pushed { s with deque := s.deque ++ [b] }
  | pushed : TaskStep s .pushed .unlock .releasing { s with locked := false }
  | release : TaskStep s .releasing .release .idle { s with permits := s.permits + 1 }
  | deferredLock (b : ℕ) : s.locked = false →
      TaskStep s (.deferred b) .lock (.deferredPushing b) { s with locked := true }
  | deferredPush (b : ℕ) :
      TaskStep s (.deferredPushing b) .push .deferredPushed { s with deque := s.deque ++ [b] }
  | deferredUnlock : TaskStep s .deferredPushed .unlock .done { s with locked := false }

section Steps

variable {size : ℕ} {s s' t : BrowserPool} {a b : TaskState} {e : ℕ × Move} {m : Move}

theorem taskStep_cases (h : s.taskStep a m = some (b, s')) : TaskStep s a m b s' := by
  unfold taskStep at h
  split at h
  · cases h; exact .acquire
  · split_ifs at h with hp
    cases h
    exact .permit hp
  · split_ifs at h with hl
    cases h
    exact .lock (Bool.not_eq_true _ ▸ hl)
  · cases h; exact .pop
  · cases h; exact .unlock _
  · cases h; exact .violated
  · cases h; exact .cancelAcquire
  · cases h; exact .cancelLock
  · split_ifs at h with hl
    · cases h; exact .spawn _ hl
    · cases h; exact .tryLock _ (Bool.not_eq_true _ ▸ hl)
  · cases h; exact .push _
  · cases h; exact .pushed
  · cases h; exact .release
  · split_ifs at h with hl
    cases h
    exact .deferredLock _ (Bool.not_eq_true _ ▸ hl)
  · cases h; exact .deferredPush _
  · cases h; exact .deferredUnlock
  · cases h

theorem pool_step_cases (h : (poolLts size).step s e t) : ∃ a b s', s.tasks[e.1]? = some a ∧
    TaskStep s a e.2 b s' ∧ t = { s' with tasks := s'.tasks.set e.1 b } := by
  obtain ⟨c, hc⟩ := h
  unfold next at hc
  split at hc
  · rename_i a ha
    obtain ⟨⟨b, s'⟩, hs, heq⟩ := Option.map_eq_some_iff.mp hc
    cases heq
    exact ⟨a, b, s', ha, taskStep_cases hs, rfl⟩
  · cases hc

end Steps

/-! ## Counting over the tasks -/

/-- The permits of a task. -/
def TaskState.permits : TaskState → ℕ
  | .locking | .popping | .popped _ | .guarding _ | .pushing _ | .pushed | .releasing => 1
  | .idle | .acquiring | .deferred _ | .deferredPushing _ | .deferredPushed | .done => 0

/-- The browsers of a task. -/
def TaskState.browsers : TaskState → ℕ
  | .popped (some _) | .guarding _ | .pushing _ | .deferred _ | .deferredPushing _ => 1
  | _ => 0

/-- Whether a task holds the mutex. -/
def TaskState.locks : TaskState → ℕ
  | .popping | .popped _ | .pushing _ | .pushed | .deferredPushing _ | .deferredPushed => 1
  | _ => 0

/-- The permits without a browser of a task. -/
def TaskState.unmatched : TaskState → ℕ
  | .locking | .popping | .popped none | .pushed | .releasing => 1
  | _ => 0

/-- The browsers of a task that `drop` has spawned. -/
def TaskState.pending : TaskState → ℕ
  | .deferred _ | .deferredPushing _ => 1
  | _ => 0

/-- Whether `drop` has spawned the task. -/
def TaskState.spawned : TaskState → ℕ
  | .deferred _ | .deferredPushing _ | .deferredPushed | .done => 1
  | _ => 0

/-- The sum of `f` over the tasks. -/
def BrowserPool.tally (f : TaskState → ℕ) (s : BrowserPool) : ℕ := (s.tasks.map f).sum

section Tally

variable {f g : TaskState → ℕ} {s : BrowserPool} {a b : TaskState} {i : ℕ}

theorem sum_map_set {α : Type*} {f : α → ℕ} {l : List α} {a b : α} {i : ℕ} (h : l[i]? = some a) :
    ((l.set i b).map f).sum + f a = (l.map f).sum + f b := by
  induction l generalizing i with
  | nil => cases h
  | cons c l ih =>
    cases i with
    | zero =>
      cases h
      simp only [List.set_cons_zero, List.map_cons, List.sum_cons]
      omega
    | succ i =>
      have := ih h
      simp only [List.set_cons_succ, List.map_cons, List.sum_cons]
      omega

theorem tally_add : s.tally (fun t => f t + g t) = s.tally f + s.tally g := List.sum_map_add

theorem tally_mono (h : ∀ t, f t ≤ g t) : s.tally f ≤ s.tally g :=
  List.sum_le_sum fun t _ => h t

theorem le_tally (h : s.tasks[i]? = some a) : f a ≤ s.tally f :=
  List.single_le_sum (fun _ _ => Nat.zero_le _) _
    (List.mem_map_of_mem (List.mem_of_getElem? h))

/-- The sum after a step of task `i`, which may have spawned the tasks `new`. -/
theorem tally_step {s' : BrowserPool} {new : List TaskState} (ha : s.tasks[i]? = some a)
    (htasks : s'.tasks = s.tasks ++ new) :
    BrowserPool.tally f { s' with tasks := s'.tasks.set i b } + f a =
      s.tally f + (new.map f).sum + f b := by
  have hi : s'.tasks[i]? = some a := by
    rw [htasks, List.getElem?_append_left (List.getElem?_eq_some_iff.mp ha).1, ha]
  have hsum : (s'.tasks.map f).sum = s.tally f + (new.map f).sum := by
    rw [htasks, List.map_append, List.sum_append]
    rfl
  rw [← hsum]
  exact sum_map_set hi

theorem tally_new (size m : ℕ) (h : f .idle = 0) : (new size m).tally f = 0 := by
  simp [BrowserPool.tally, new, h]

/-- Permits and browsers go together, up to those that are unmatched. -/
theorem tally_matched (s : BrowserPool) :
    s.tally TaskState.browsers + s.tally TaskState.unmatched =
      s.tally TaskState.permits + s.tally TaskState.pending := by
  rw [← tally_add, ← tally_add]
  congr 1
  funext t
  rcases t with _ | _ | _ | _ | ⟨_ | _⟩ | _ | _ | _ | _ | _ | _ | _ | _ <;> rfl

end Tally

/-! ## Permits, browsers and the mutex -/

/-- There are `n` permits and `n` browsers, and one mutex. -/
structure Balanced (n : ℕ) (s : BrowserPool) : Prop where
  permits : s.permits + s.tally TaskState.permits = n
  browsers : s.deque.length + s.tally TaskState.browsers = n
  locks : s.tally TaskState.locks = s.locked.toNat

section Balanced

variable {size n : ℕ} {s s' t : BrowserPool} {a b : TaskState} {e : ℕ × Move} {m : Move}
  {es : List (ℕ × Move)}

theorem Balanced.locked (h : Balanced n s) {i : ℕ} (ha : s.tasks[i]? = some a) (hl : a.locks = 1) :
    s.locked = true := by
  have hle : a.locks ≤ s.tally TaskState.locks := le_tally ha
  rw [hl, h.locks] at hle
  by_contra hf
  rw [Bool.not_eq_true] at hf
  simp [hf] at hle

/-- What one step moves between the pool and the task. -/
theorem balanced_taskStep (h : TaskStep s a m b s') (hl : a.locks = 1 → s.locked = true) :
    ∃ new, s'.tasks = s.tasks ++ new ∧
      s'.permits + b.permits + (new.map TaskState.permits).sum = s.permits + a.permits ∧
      s'.deque.length + b.browsers + (new.map TaskState.browsers).sum = s.deque.length + a.browsers ∧
      b.locks + (new.map TaskState.locks).sum + s.locked.toNat = a.locks + s'.locked.toNat := by
  cases h with
  | spawn b hb => exact ⟨[.deferred b], rfl, rfl, by simp [TaskState.browsers], by simp [TaskState.locks]⟩
  | permit hp =>
    refine ⟨[], by simp, ?_, rfl, rfl⟩
    simp only [TaskState.permits, List.map_nil, List.sum_nil]
    omega
  | pop =>
    refine ⟨[], by simp, rfl, ?_, rfl⟩
    cases s.deque <;> simp [TaskState.browsers]
  | acquire | cancelAcquire | cancelLock | release | lock | tryLock | deferredLock | unlock | violated
  | pushed | deferredUnlock => exact ⟨[], by simp, rfl, rfl, by simp_all [TaskState.locks]⟩
  | push | deferredPush => exact ⟨[], by simp, rfl, by simp [TaskState.browsers], rfl⟩

/-- **Each step keeps the balance.** -/
theorem balanced_step (h : Balanced n s) (hstep : (poolLts size).step s e t) : Balanced n t := by
  obtain ⟨a, b, s', ha, hs, rfl⟩ := pool_step_cases hstep
  obtain ⟨new, htasks, hpermits, hbrowsers, hlocks⟩ := balanced_taskStep hs (h.locked ha)
  have htally (f : TaskState → ℕ) := tally_step (f := f) (b := b) ha htasks
  have h₁ := htally TaskState.permits
  have h₂ := htally TaskState.browsers
  have h₃ := htally TaskState.locks
  obtain ⟨hp, hb, hl⟩ := h
  exact ⟨by simp only; omega, by simp only; omega, by simp only; omega⟩

theorem balanced_run (h : (poolLts size).Run es s) : Balanced (max size 1) s := by
  refine Lts.Run.invariant (I := fun _ s => Balanced (max size 1) s) ?_ ?_ h
  · rintro s ⟨m, rfl⟩
    exact ⟨by rw [tally_new _ _ rfl]; rfl, by rw [tally_new _ _ rfl]; simp [new],
      by rw [tally_new _ _ rfl]; rfl⟩
  · exact fun _ _ _ _ _ hb hstep => balanced_step hb hstep

/-- What is in the deque: as many browsers as permits are without one, less those on their way. -/
theorem Balanced.deque (h : Balanced n s) :
    s.deque.length + s.tally TaskState.pending = s.permits + s.tally TaskState.unmatched := by
  have := tally_matched s
  obtain ⟨hp, hb, -⟩ := h
  omega

end Balanced

/-! ## What a permit is good for -/

/-- An acquire with its permit and the mutex finds a browser, and none has returned the error. -/
def BrowserPool.HasBrowser (s : BrowserPool) : Prop :=
  (.popping ∈ s.tasks → s.deque ≠ []) ∧ .popped none ∉ s.tasks

/-- When an acquire takes the mutex, fewer browsers are waiting to be pushed back than there are permits
without a browser. -/
def PushedBack (s : BrowserPool) (e : ℕ × Move) (_ : BrowserPool) : Prop :=
  s.tasks[e.1]? = some .locking → e.2 = .lock →
    s.tally TaskState.pending < s.permits + s.tally TaskState.unmatched

/-- A guard is dropped while nobody holds the mutex. -/
def Uncontended (s : BrowserPool) (e : ℕ × Move) (_ : BrowserPool) : Prop :=
  e.2 = .tryLock → s.locked = false

section HasBrowser

variable {size n : ℕ} {s s' t : BrowserPool} {a b : TaskState} {e : ℕ × Move} {m : Move}
  {es : List (ℕ × Move)}

theorem Balanced.deque_ne_nil_iff (h : Balanced n s) :
    s.deque ≠ [] ↔ s.tally TaskState.pending < s.permits + s.tally TaskState.unmatched := by
  have := h.deque
  rw [← List.length_pos_iff]
  omega

theorem mem_set {l : List TaskState} {i : ℕ} {c : TaskState} (h : c ∈ l.set i b) (hc : c ≠ b) : c ∈ l :=
  (List.mem_or_eq_of_mem_set h).resolve_right hc

/-- Only one task is popping. -/
theorem Balanced.popping_once (h : Balanced n s) {i : ℕ} (ha : s.tasks[i]? = some .popping)
    (hb : b ≠ .popping) : TaskState.popping ∉ s.tasks.set i b := by
  let pops (t : TaskState) : ℕ := if t = .popping then 1 else 0
  have hle : s.tally pops ≤ 1 := by
    have hmono : s.tally pops ≤ s.tally TaskState.locks := tally_mono fun t => by
      by_cases ht : t = .popping
      · simp [pops, ht, TaskState.locks]
      · simp [pops, ht]
    rw [h.locks] at hmono
    exact hmono.trans (Bool.toNat_le _)
  have hset : ((s.tasks.set i b).map pops).sum + 1 = s.tally pops + 0 := by
    have hsum := sum_map_set (f := pops) (b := b) ha
    rwa [show pops .popping = 1 from rfl, show pops b = 0 from if_neg hb] at hsum
  intro hmem
  have hone : pops .popping ≤ ((s.tasks.set i b).map pops).sum :=
    List.single_le_sum (fun _ _ => Nat.zero_le _) _ (List.mem_map_of_mem hmem)
  rw [show pops .popping = 1 from rfl] at hone
  omega

theorem hasBrowser_step (hb : Balanced n s) (h : s.HasBrowser) (hstep : (poolLts size).step s e t)
    (hlock : s.tasks[e.1]? = some .locking → e.2 = .lock → s.deque ≠ []) : t.HasBrowser := by
  obtain ⟨a, b, s', ha, hs, rfl⟩ := pool_step_cases hstep
  generalize e.2 = m at hs hlock
  obtain ⟨hpop, herr⟩ := h
  cases hs with
  | lock => exact ⟨fun _ => hlock ha rfl, fun h => herr (mem_set h (by simp))⟩
  | pop =>
    refine ⟨fun h => absurd h (hb.popping_once ha (by simp)), fun h => ?_⟩
    have hne := hpop (List.mem_of_getElem? ha)
    refine herr (mem_set h fun heq => hne ?_)
    exact List.head?_eq_none_iff.mp (TaskState.popped.inj heq).symm
  | push b | deferredPush b => exact ⟨fun _ => by simp, fun h => herr (mem_set h (by simp))⟩
  | spawn b =>
    refine ⟨fun h => hpop ?_, fun h => herr ?_⟩
    · simpa using mem_set h (by simp)
    · simpa using mem_set h (by simp)
  | _ => exact ⟨fun h => hpop (mem_set h (by simp)), fun h => herr (mem_set h (by simp))⟩

theorem hasBrowser_new (size m : ℕ) : (new size m).HasBrowser := by
  have hidle (t : TaskState) (h : t ∈ (new size m).tasks) : t = .idle := List.eq_of_mem_replicate h
  exact ⟨fun h => absurd (hidle _ h) (by simp), fun h => absurd (hidle _ h) (by simp)⟩

/-- In these runs every acquire finds a browser. -/
theorem hasBrowser_of_pushedBack (h : ((poolLts size).restrict PushedBack).Run es s) :
    s.HasBrowser := by
  refine Lts.Run.invariant (I := fun _ s => s.HasBrowser) ?_ ?_ h
  · rintro s ⟨m, rfl⟩
    exact hasBrowser_new size m
  · rintro es s e t hrun hs ⟨hstep, hback⟩
    have hb := balanced_run hrun.of_restrict
    exact hasBrowser_step hb hs hstep fun ha he => hb.deque_ne_nil_iff.mpr (hback ha he)

/-- An acquire that takes the mutex is popping. -/
theorem popping_of_lock (ha : s.tasks[e.1]? = some .locking) (he : e.2 = .lock)
    (hstep : (poolLts size).step s e t) : .popping ∈ t.tasks ∧ t.deque = s.deque := by
  obtain ⟨a, b, s', ha', hs, rfl⟩ := pool_step_cases hstep
  rw [ha, Option.some.injEq] at ha'
  rw [he] at hs
  subst ha'
  cases hs
  exact ⟨List.mem_set (List.getElem?_eq_some_iff.mp ha).1 _, rfl⟩

/-- **The runs in which every acquire finds a browser.** -/
theorem hasBrowser_run_iff :
    ((poolLts size).restrict fun _ _ t => t.HasBrowser).Run es s ↔
      ((poolLts size).restrict PushedBack).Run es s := by
  refine ⟨fun h => ?_, fun h => ?_⟩
  · refine Lts.Run.invariant (I := fun es s => ((poolLts size).restrict PushedBack).Run es s) ?_ ?_ h
    · exact fun s hs => .init hs
    · rintro es s e t hrun hs ⟨hstep, hbrowser⟩
      refine hs.snoc ⟨hstep, fun ha he => ?_⟩
      obtain ⟨hmem, hdeque⟩ := popping_of_lock ha he hstep
      exact (balanced_run hrun.of_restrict).deque_ne_nil_iff.mp (hdeque ▸ hbrowser.1 hmem)
  · refine Lts.Run.invariant
      (I := fun es s => ((poolLts size).restrict fun _ _ t => t.HasBrowser).Run es s) ?_ ?_ h
    · exact fun s hs => .init hs
    · intro es s e t hrun hs hstep
      exact hs.snoc ⟨hstep.1, hasBrowser_of_pushedBack (hrun.snoc hstep)⟩

/-! ## Pools in which no guard is dropped while the mutex is taken -/

/-- Without such drops nothing is spawned. -/
theorem spawned_of_uncontended (h : ((poolLts size).restrict Uncontended).Run es s) :
    s.tally TaskState.spawned = 0 := by
  refine Lts.Run.invariant (I := fun _ s => s.tally TaskState.spawned = 0) ?_ ?_ h
  · rintro s ⟨m, rfl⟩
    exact tally_new _ _ rfl
  · rintro es s e t - hs ⟨hstep, hun⟩
    obtain ⟨a, b, s', ha, hs', rfl⟩ := pool_step_cases hstep
    have hset := sum_map_set (f := TaskState.spawned) (b := b) ha
    have hsum : (s.tasks.map TaskState.spawned).sum = 0 := hs
    rw [hsum] at hset
    change ((s'.tasks.set e.1 b).map TaskState.spawned).sum = 0
    generalize hm : e.2 = m at hs'
    cases hs' with
    | spawn b hl =>
      rw [hun hm] at hl
      cases hl
    | _ => simpa [TaskState.spawned] using hset

/-- **A pool in which no guard is dropped while the mutex is taken** always has a browser for a permit. -/
theorem hasBrowser_of_uncontended (h : ((poolLts size).restrict Uncontended).Run es s) :
    s.HasBrowser := by
  refine hasBrowser_of_pushedBack (?_ : ((poolLts size).restrict PushedBack).Run es s)
  refine Lts.Run.invariant (I := fun es s => ((poolLts size).restrict PushedBack).Run es s) ?_ ?_ h
  · exact fun s hs => .init hs
  · rintro es s e t hrun hs ⟨hstep, -⟩
    refine hs.snoc ⟨hstep, fun ha _ => ?_⟩
    have hle : s.tally TaskState.pending ≤ s.tally TaskState.spawned :=
      tally_mono fun t => by cases t <;> simp [TaskState.pending, TaskState.spawned]
    have hpos : TaskState.unmatched .locking ≤ s.tally TaskState.unmatched := le_tally ha
    rw [spawned_of_uncontended hrun] at hle
    simp only [TaskState.unmatched] at hpos
    omega

/-- With one browser, who drops a guard has the only permit, and nobody else has the mutex. -/
theorem uncontended_of_one (hsize : size ≤ 1) (h : (poolLts size).Run es s) :
    ((poolLts size).restrict Uncontended).Run es s := by
  refine Lts.Run.invariant
    (I := fun es s => ((poolLts size).restrict Uncontended).Run es s) ?_ ?_ h
  · exact fun s hs => .init hs
  · intro es s e t hrun hs hstep
    refine hs.snoc ⟨hstep, fun he => ?_⟩
    obtain ⟨a, b, s', ha, hs', -⟩ := pool_step_cases hstep
    obtain ⟨hp, -, hl⟩ := balanced_run hrun
    rw [max_eq_right hsize] at hp
    by_contra hlocked
    rw [Bool.not_eq_false] at hlocked
    rw [hlocked] at hl
    let guards (t : TaskState) : ℕ := match t with | .guarding _ => 1 | _ => 0
    have hle : s.tally TaskState.locks + s.tally guards ≤
        s.tally TaskState.permits + s.tally TaskState.spawned := by
      rw [← tally_add, ← tally_add]
      refine tally_mono fun t => ?_
      rcases t with _ | _ | _ | _ | _ | _ | _ | _ | _ | _ | _ | _ | _ <;>
        simp [TaskState.locks, guards, TaskState.permits, TaskState.spawned]
    have hguard : guards a ≤ s.tally guards := le_tally ha
    rw [he] at hs'
    have hone : guards a = 1 := by cases hs' <;> rfl
    rw [hl, spawned_of_uncontended hs] at hle
    simp only [Bool.toNat_true] at hle
    omega

end HasBrowser

/-! ## Pools of several browsers -/

section Contended

variable {size p : ℕ} {xs ys : List TaskState} {ds : List ℕ} {b : ℕ}

/-- The steps of `acquire`. -/
def acquireMoves : List Move := [.acquire, .permit, .lock, .pop, .unlock]

/-- Task 1 holds the mutex while task 0 drops its guard; then task 2 gets the permit of task 0, and the
mutex before the browser is pushed back. -/
def contendedDrop : List (ℕ × Move) :=
  acquireMoves.map (Prod.mk 0) ++ [(1, .acquire), (1, .permit), (1, .lock), (0, .tryLock),
    (0, .release), (1, .pop), (1, .unlock), (2, .acquire), (2, .permit), (2, .lock)]

theorem next_at (d : List ℕ) (p : ℕ) (l : Bool) (a : TaskState) (m : Move) :
    next ⟨d, p, l, xs ++ a :: ys⟩ (xs.length, m) =
      (taskStep ⟨d, p, l, xs ++ a :: ys⟩ a m).map fun q =>
        ((xs.length, m), { q.2 with tasks := q.2.tasks.set xs.length q.1 }) := by
  simp [next]

/-- One acquire, undisturbed. -/
theorem acquire_steps : (poolLts size).Steps ⟨b :: ds, p + 1, false, xs ++ .idle :: ys⟩
    (acquireMoves.map (Prod.mk xs.length)) ⟨ds, p, false, xs ++ .guarding b :: ys⟩ := by
  refine Lts.of_play (acquireMoves.map (Prod.mk xs.length)) ?_
  simp [acquireMoves, Lts.play, next_at, taskStep]

/-- Several acquires, one after the other. -/
theorem acquires_steps (size p : ℕ) (ds bs : List ℕ) (xs : List TaskState) : ∃ es,
    (poolLts size).Steps ⟨bs ++ ds, bs.length + p, false, xs ++ List.replicate bs.length .idle⟩ es
      ⟨ds, p, false, xs ++ bs.map .guarding⟩ := by
  induction bs generalizing xs with
  | nil => exact ⟨[], by simpa using Lts.Steps.nil⟩
  | cons b bs ih =>
    obtain ⟨es, hes⟩ := ih (xs ++ [.guarding b])
    have hfirst : (poolLts size).Steps
        ⟨b :: (bs ++ ds), bs.length + p + 1, false, xs ++ .idle :: List.replicate bs.length .idle⟩
        (acquireMoves.map (Prod.mk xs.length))
        ⟨bs ++ ds, bs.length + p, false, xs ++ .guarding b :: List.replicate bs.length .idle⟩ :=
      acquire_steps
    rw [List.append_assoc, List.append_assoc] at hes
    refine ⟨acquireMoves.map (Prod.mk xs.length) ++ es, ?_⟩
    have hall := hfirst.trans hes
    rwa [List.length_cons, List.replicate_succ, Nat.add_right_comm]

/-- **With two browsers or more** an acquire can find the deque empty. -/
theorem exists_not_hasBrowser (hsize : 2 ≤ size) :
    ∃ es s, (poolLts size).Run es s ∧ ¬ s.HasBrowser := by
  obtain ⟨k, rfl⟩ : ∃ k, size = k + 2 := ⟨size - 2, by omega⟩
  obtain ⟨es, hes⟩ := acquires_steps (k + 2) 2 [k, k + 1] (List.range k) [.idle, .idle, .idle]
  have hinit : (poolLts (k + 2)).init ⟨List.range k ++ [k, k + 1], (List.range k).length + 2, false,
      [.idle, .idle, .idle] ++ List.replicate (List.range k).length .idle⟩ := by
    refine ⟨k + 3, ?_⟩
    simp [new, List.range_succ, List.replicate_succ]
  have hlast : (poolLts (k + 2)).Steps
      ⟨[k, k + 1], 2, false, [.idle, .idle, .idle] ++ (List.range k).map .guarding⟩ contendedDrop
      ⟨[], 0, true,
        .idle :: .guarding (k + 1) :: .popping :: ((List.range k).map .guarding ++ [.deferred k])⟩ :=
    Lts.of_play contendedDrop (by simp [contendedDrop, acquireMoves, Lts.play, next, taskStep])
  refine ⟨_, _, ⟨_, hinit, hes.trans hlast⟩, fun h => h.1 ?_ rfl⟩
  simp

end Contended

/-- **A permit always comes with a browser** in the runs in which an acquire takes the mutex only when
fewer browsers wait to be pushed back than permits are without one, and in no other; it does in all runs
of a pool exactly if the pool has one browser. -/
theorem permit_has_browser (size : ℕ) :
    (∀ es s, ((poolLts size).restrict fun _ _ t => t.HasBrowser).Run es s ↔
      ((poolLts size).restrict PushedBack).Run es s) ∧
    ((∀ es s, (poolLts size).Run es s → s.HasBrowser) ↔ size ≤ 1) := by
  refine ⟨fun es s => hasBrowser_run_iff, fun h => ?_, fun hsize es s h => ?_⟩
  · by_contra hsize
    obtain ⟨es, s, hrun, hno⟩ := exists_not_hasBrowser (Nat.lt_of_not_le hsize)
    exact hno (h es s hrun)
  · exact hasBrowser_of_uncontended (uncontended_of_one hsize h)

/-- A pool of two browsers: a guard is dropped while another task is popping. -/
theorem not_permit_has_browser :
    ¬ ∀ size es s, 1 ≤ size → (poolLts size).Run es s → s.HasBrowser := by
  intro h
  have hrun : (poolLts 2).Run contendedDrop
      ⟨[], 0, true, [.idle, .guarding 1, .popping, .deferred 0]⟩ :=
    ⟨.new 2 3, ⟨3, rfl⟩, Lts.of_play contendedDrop rfl⟩
  exact (h 2 _ _ (by decide) hrun).1 (by simp) rfl

end FireCtrl
