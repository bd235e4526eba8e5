import FireCtrl.Lib.Semaphore
import FireCtrl.System.Counters

/-!
# The permits of the workers (`WorkerPool::run` and `Worker::run` in `worker.rs`)

A worker asks for one of `max_concurrent_jobs` permits before it claims a job, and gives it back when it is
done with the job or has found none; the monitor spawns a new worker in the place of one that has ended.

* `LoopState`, `PermitSys`, `permitLts`: the system of `FireCtrl.System.Model`, the loops of its workers
  and their semaphore.
* **`sys_run_of_permit`**: what the pool does is a run of `sysLts`.
* `Agrees`, `Permitted`: what a worker does in the system fits its loop and its permit; **`permitted_run`**.
* **`permit_run`**: at most `max_concurrent_jobs` workers, and at most `num_workers`, have a job in hand.
-/

namespace FireCtrl

/-- Where the loop of a worker stands. At the start of an iteration, and asleep before it, it is `resting`;
`acquiring` ends with `claim_next_job`; `returning` stands before `drop(permit)`. -/
inductive LoopState
  | unborn
  | resting
  | acquiring
  | busy
  | returning
  | dead
deriving DecidableEq

/-- The system with the loops of its workers and the lock ids of the tasks in the map of the monitor. -/
structure PermitSys (permits : ℕ) where
  sys : Sys
  sem : Semaphore Uuid permits
  loops : Uuid → LoopState
  pool : List Uuid

inductive PermitChoice
  | acquire (w : Uuid)
  | sys (c : Choice)
  | release (w : Uuid)
  | respawn (w w' : Uuid)

def WorkerState.isIdle : WorkerState → Bool
  | .idle => true
  | _ => false

variable {n : ℕ}

namespace PermitSys

/-- The pool before its first step. -/
def new (n : ℕ) (pool : List Uuid) : PermitSys n where
  sys := .init
  sem := .new n
  loops w := if w ∈ pool then .resting else .unborn
  pool := pool

variable (s : PermitSys n)

def setLoop (w : Uuid) (l : LoopState) : PermitSys n :=
  { s with loops := Function.update s.loops w l }

/-- Whether the loops let a step happen. -/
def admits : Choice → Bool
  | .work w _ => s.loops w = .busy ∨ s.loops w = .acquiring ∧ w ∈ s.sem.holders
  | .timeout w _ => s.loops w = .busy
  | .crash w => s.loops w ≠ .unborn ∧ s.loops w ≠ .dead
  | .request .. | .handle .. | .drop _ | .stall _ => true

/-- The loops after a step to `t`. -/
def loopsAfter (t : Sys) : Choice → Uuid → LoopState
  | .work w _ | .timeout w _ =>
    Function.update s.loops w (if (t.workers w).isIdle then .returning else .busy)
  | .crash w => Function.update s.loops w .dead
  | .request .. | .handle .. | .drop _ | .stall _ => s.loops

def next (cfg : Config) (urls : UrlCrate) (s : PermitSys n) :
    PermitChoice → Option (Option Event × PermitSys n)
  | .acquire w =>
    if s.loops w = .resting then
      some (none, { s with sem := s.sem.acquire w }.setLoop w .acquiring)
    else none
  | .sys c =>
    if s.admits c then
      (FireCtrl.next cfg urls s.sys c).map fun p =>
        (some p.1, { s with sys := p.2, loops := s.loopsAfter p.2 c })
    else none
  | .release w =>
    if s.sem.Inside w then
      match s.loops w with
      | .returning => some (none, { s with sem := s.sem.leave w }.setLoop w .resting)
      -- a panic drops what the worker holds
      | .dead => some (none, { s with sem := s.sem.leave w })
      | _ => none
    else none
  | .respawn w w' =>
    -- `Uuid::new_v4` gives a new lock id
    if s.loops w = .dead ∧ ¬ s.sem.Inside w ∧ w ∈ s.pool ∧ s.loops w' = .unborn then
      some (none, { s with pool := w' :: s.pool.erase w }.setLoop w' .resting)
    else none

end PermitSys

open PermitSys

/-- The pool of workers on empty tables. An event is a step of the system; a step of the pool alone shows
nothing. -/
def permitLts (cfg : Config) (urls : UrlCrate) (maxConcurrentJobs numWorkers : UInt32) :
    Lts (PermitSys maxConcurrentJobs.toNat) (Option Event) :=
  .ofFun (fun s => ∃ pool : List Uuid, pool.Nodup ∧ pool.length = numWorkers.toNat ∧ s = .new _ pool)
    (PermitSys.next cfg urls)

/-! ## What a step can do -/

/-- The steps of the pool, one constructor for each case. -/
inductive PermitStep (cfg : Config) (urls : UrlCrate) (s : PermitSys n) :
    Option Event → PermitSys n → Prop
  | acquire (w : Uuid) : s.loops w = .resting →
      PermitStep cfg urls s none ({ s with sem := s.sem.acquire w }.setLoop w .acquiring)
  | sys (c : Choice) {ev : Event} {u : Sys} : s.admits c = true →
      next cfg urls s.sys c = some (ev, u) →
      PermitStep cfg urls s (some ev) { s with sys := u, loops := s.loopsAfter u c }
  | release (w : Uuid) : s.sem.Inside w → s.loops w = .returning →
      PermitStep cfg urls s none ({ s with sem := s.sem.leave w }.setLoop w .resting)
  | bury (w : Uuid) : s.sem.Inside w → s.loops w = .dead →
      PermitStep cfg urls s none { s with sem := s.sem.leave w }
  | respawn (w w' : Uuid) : s.loops w = .dead → ¬ s.sem.Inside w → w ∈ s.pool → s.loops w' = .unborn →
      PermitStep cfg urls s none ({ s with pool := w' :: s.pool.erase w }.setLoop w' .resting)

section Steps

variable {cfg : Config} {urls : UrlCrate} {maxConcurrentJobs numWorkers : UInt32}
  {s t : PermitSys n} {u : Sys} {e : Option Event} {ev : Event} {es : List (Option Event)} {w v : Uuid}

theorem permitStep_of_next {c : PermitChoice} (h : s.next cfg urls c = some (e, t)) :
    PermitStep cfg urls s e t := by
  cases c with
  | acquire w =>
    simp only [PermitSys.next] at h
    split_ifs at h with hw
    cases h
    exact .acquire w hw
  | sys c =>
    simp only [PermitSys.next] at h
    split_ifs at h with hc
    obtain ⟨⟨ev, u⟩, hn, heq⟩ := Option.map_eq_some_iff.mp h
    cases heq
    exact .sys c hc hn
  | release w =>
    simp only [PermitSys.next] at h
    split_ifs at h with hin
    split at h
    · rename_i hw; cases h; exact .release w hin hw
    · rename_i hw; cases h; exact .bury w hin hw
    · cases h
  | respawn w w' =>
    simp only [PermitSys.next] at h
    split_ifs at h with hw
    cases h
    exact .respawn w w' hw.1 hw.2.1 hw.2.2.1 hw.2.2.2

/-- **What the pool does is a run of the system.** -/
theorem sys_run_of_permit {s : PermitSys maxConcurrentJobs.toNat}
    (h : (permitLts cfg urls maxConcurrentJobs numWorkers).Run es s) :
    (sysLts cfg urls).Run (es.filterMap id) s.sys := by
  refine Lts.Run.invariant (I := fun es (s : PermitSys _) =>
    (sysLts cfg urls).Run (es.filterMap id) s.sys) ?_ ?_ h
  · rintro s ⟨pool, -, -, rfl⟩
    exact .init rfl
  · rintro es s e t - ih ⟨c, hc⟩
    rw [List.filterMap_append]
    cases permitStep_of_next hc with
    | sys c _ hn => exact ih.snoc ⟨c, hn⟩
    | acquire | release | bury | respawn =>
      have hnil : [(none : Option Event)].filterMap id = [] := rfl
      rw [hnil, List.append_nil]
      exact ih

end Steps

/-! ## Workers and their permits -/

/-- What worker `w` does in the system fits its loop and its permit. -/
def Agrees (s : PermitSys n) (w : Uuid) : Prop :=
  match s.loops w with
  | .unborn | .resting => s.sys.workers w = .idle ∧ ¬ s.sem.Inside w
  | .acquiring => s.sys.workers w = .idle ∧ s.sem.Inside w
  | .busy => (s.sys.workers w).job?.isSome = true ∧ w ∈ s.sem.holders
  | .returning => s.sys.workers w = .idle ∧ w ∈ s.sem.holders
  | .dead => s.sys.workers w = .stopped

structure Permitted (s : PermitSys n) : Prop where
  agrees : ∀ w, Agrees s w
  alive : ∀ w, s.loops w ≠ .unborn → s.loops w ≠ .dead → w ∈ s.pool
  inside : ∀ w, s.sem.Inside w → w ∈ s.pool
  born : ∀ w ∈ s.pool, s.loops w ≠ .unborn
  nodup : s.pool.Nodup

section Invariant

variable {cfg : Config} {urls : UrlCrate} {maxConcurrentJobs numWorkers : UInt32}
  {s t : PermitSys n} {u : Sys} {e : Option Event} {ev : Event} {es : List (Option Event)} {w v : Uuid}
  {l : LoopState} {c : Choice}

theorem Agrees.frame (h : Agrees s w) (hl : t.loops w = s.loops w)
    (hw : t.sys.workers w = s.sys.workers w) (hin : t.sem.Inside w ↔ s.sem.Inside w)
    (hh : w ∈ s.sem.holders → w ∈ t.sem.holders) : Agrees t w := by
  unfold Agrees at h ⊢
  rw [hl, hw, hin]
  cases hs : s.loops w with
  | unborn | resting | acquiring | dead => rwa [hs] at h
  | busy | returning => rw [hs] at h; exact ⟨h.1, hh h.2⟩

theorem setLoop_loops (s : PermitSys n) (w v : Uuid) (l : LoopState) :
    (s.setLoop w l).loops v = if v = w then l else s.loops v := by
  simp [PermitSys.setLoop, Function.update_apply]

/-- A worker that takes a step is idle again or has a job in hand; the others stay as they are. -/
theorem workers_of_work {s u : Sys} {ρ : Reply} (h : next cfg urls s (.work w ρ) = some (ev, u)) :
    (u.workers w = .idle ∨ (u.workers w).job?.isSome = true) ∧
      ∀ v, v ≠ w → u.workers v = s.workers v := by
  simp only [next, workerStep] at h
  split at h
  · cases h
    refine ⟨?_, fun v hv => by rw [setWorker_workers, if_neg hv]; rfl⟩
    rw [setWorker_workers, if_pos rfl]
    rcases (Op.run ρ (.db (.claimNextJob w)) s.db).1 with err | _ | row
    · exact .inl rfl
    · exact .inl rfl
    · simp only [afterClaim]
      split <;> exact .inr rfl
  · cases h
    exact ⟨.inr (by rw [setWorker_workers, if_pos rfl]; rfl),
      fun v hv => by rw [setWorker_workers, if_neg hv]; rfl⟩
  · cases h
    exact ⟨.inl (by rw [setWorker_workers, if_pos rfl]), fun v hv => by rw [setWorker_workers, if_neg hv]⟩
  · cases h
    exact ⟨.inr (by rw [setWorker_workers, if_pos rfl]; rfl),
      fun v hv => by rw [setWorker_workers, if_neg hv]⟩
  · cases h
    exact ⟨.inl (by rw [setWorker_workers, if_pos rfl]),
      fun v hv => by rw [setWorker_workers, if_neg hv]; rfl⟩
  · cases h

theorem workers_of_timeout {s u : Sys} {ρ : Reply} (h : next cfg urls s (.timeout w ρ) = some (ev, u)) :
    (u.workers w).job?.isSome = true ∧ ∀ v, v ≠ w → u.workers v = s.workers v := by
  simp only [next, timeoutStep] at h
  split at h
  · cases h
    exact ⟨by rw [setWorker_workers, if_pos rfl]; rfl,
      fun v hv => by rw [setWorker_workers, if_neg hv]; rfl⟩
  · cases h

/-- A step that is none of a worker's. -/
theorem workers_of_next {s u : Sys} (h : next cfg urls s c = some (ev, u))
    (hc : ∀ w ρ, c ≠ .work w ρ ∧ c ≠ .timeout w ρ ∧ c ≠ .crash w) : u.workers = s.workers := by
  cases c with
  | work w ρ => exact absurd rfl (hc w ρ).1
  | timeout w ρ => exact absurd rfl (hc w ρ).2.1
  | crash w => exact absurd rfl (hc w (.ok 0 0)).2.2
  | request n req =>
    simp only [next] at h
    split at h <;> cases h
    rfl
  | handle n ρ =>
    simp only [next, handlerStep] at h
    split at h <;> cases h <;> rfl
  | drop n => cases h; rfl
  | stall ρ =>
    simp only [next, stallStep] at h
    split at h <;> cases h <;> rfl

/-- A worker that takes a step has a permit, and keeps it. -/
theorem Agrees.holds (h : Agrees s w) (hw : s.loops w = .busy ∨ s.loops w = .acquiring ∧ w ∈ s.sem.holders) :
    w ∈ s.sem.holders := by
  rcases hw with hw | ⟨-, hw⟩
  · unfold Agrees at h
    rw [hw] at h
    exact h.2
  · exact hw

/-- A step of worker `w`. -/
theorem Permitted.update (h : Permitted s) (hp : t.pool = s.pool) (hl : ∀ v, v ≠ w → t.loops v = s.loops v)
    (hworkers : ∀ v, v ≠ w → t.sys.workers v = s.sys.workers v)
    (hin : ∀ v, v ≠ w → (t.sem.Inside v ↔ s.sem.Inside v))
    (hh : ∀ v, v ≠ w → v ∈ s.sem.holders → v ∈ t.sem.holders) (ha : Agrees t w) (hw : w ∈ s.pool)
    (hborn : t.loops w ≠ .unborn) : Permitted t where
  agrees v := by
    by_cases hv : v = w
    · exact hv ▸ ha
    · exact (h.agrees v).frame (hl v hv) (hworkers v hv) (hin v hv) (hh v hv)
  alive v h₁ h₂ := by
    rw [hp]
    by_cases hv : v = w
    · exact hv ▸ hw
    · rw [hl v hv] at h₁ h₂
      exact h.alive v h₁ h₂
  inside v h₁ := by
    rw [hp]
    by_cases hv : v = w
    · exact hv ▸ hw
    · exact h.inside v ((hin v hv).mp h₁)
  born v h₁ := by
    by_cases hv : v = w
    · exact hv ▸ hborn
    · rw [hl v hv]
      exact h.born v (hp ▸ h₁)
  nodup := hp ▸ h.nodup

/-- A worker of the pool has done a step of the system. -/
theorem Permitted.worked (h : Permitted s)
    (hw : s.loops w = .busy ∨ s.loops w = .acquiring ∧ w ∈ s.sem.holders)
    (hws : u.workers w = .idle ∨ (u.workers w).job?.isSome = true)
    (hothers : ∀ v, v ≠ w → u.workers v = s.sys.workers v) :
    Permitted { s with
      sys := u
      loops := Function.update s.loops w (if (u.workers w).isIdle then .returning else .busy) } := by
  have hholds := (h.agrees w).holds hw
  refine h.update rfl (fun v hv => Function.update_of_ne hv _ _) hothers (fun _ _ => .rfl)
    (fun _ _ hv => hv) ?_ (h.inside w (s.sem.inside_of_holder hholds)) ?_
  · rcases hws with hidle | hjob
    · simp only [Agrees, Function.update_self, hidle, WorkerState.isIdle, if_true]
      exact ⟨trivial, hholds⟩
    · have hne : (u.workers w).isIdle = false := by
        cases hu : u.workers w with
        | idle => rw [hu] at hjob; cases hjob
        | executing | failing | stopped => rfl
      simp only [Agrees, Function.update_self, hne, Bool.false_eq_true, if_false]
      exact ⟨hjob, hholds⟩
  · simp only [Function.update_self]
    split_ifs <;> simp

theorem permitted_sys (h : Permitted s) (hc : s.admits c = true)
    (hnext : next cfg urls s.sys c = some (ev, u)) :
    Permitted { s with sys := u, loops := s.loopsAfter u c } := by
  cases c with
  | work w ρ =>
    obtain ⟨hws, hothers⟩ := workers_of_work hnext
    exact h.worked (by simpa [admits] using hc) hws hothers
  | timeout w ρ =>
    obtain ⟨hws, hothers⟩ := workers_of_timeout hnext
    exact h.worked (.inl (by simpa [admits] using hc)) (.inr hws) hothers
  | crash w =>
    obtain ⟨hborn, hdead⟩ : s.loops w ≠ .unborn ∧ s.loops w ≠ .dead := by simpa [admits] using hc
    cases hnext
    refine h.update rfl (fun v hv => Function.update_of_ne hv _ _)
      (fun v hv => by rw [setWorker_workers, if_neg hv]) (fun _ _ => .rfl) (fun _ _ hv => hv) ?_
      (h.alive w hborn hdead) ?_
    · simp [Agrees, loopsAfter, setWorker_workers]
    · simp [loopsAfter]
  | request | handle | drop | stall =>
    have hworkers : u.workers = s.sys.workers :=
      workers_of_next hnext fun _ _ => ⟨nofun, nofun, nofun⟩
    exact ⟨fun v => (h.agrees v).frame rfl (congrFun hworkers v) .rfl fun hv => hv, h.alive, h.inside,
      h.born, h.nodup⟩

/-- **Every step of the pool keeps workers and permits in agreement.** -/
theorem permitted_step (h : Permitted s) (hs : PermitStep cfg urls s e t) : Permitted t := by
  cases hs with
  | acquire w hw =>
    have ha := h.agrees w
    rw [Agrees, hw] at ha
    refine h.update rfl (fun v hv => by rw [setLoop_loops, if_neg hv]) (fun _ _ => rfl) (fun v hv => ?_)
      (fun v hv => (s.sem.mem_holders_acquire hv).mpr) ?_ (h.alive w (by simp [hw]) (by simp [hw])) ?_
    · exact s.sem.inside_acquire.trans ⟨fun h => h.resolve_left hv, .inr⟩
    · simp only [Agrees, setLoop_loops, if_true]
      exact ⟨ha.1, s.sem.inside_acquire.mpr (.inl rfl)⟩
    · simp [setLoop_loops]
  | sys c hc hn => exact permitted_sys h hc hn
  | release w hin hw =>
    have ha := h.agrees w
    rw [Agrees, hw] at ha
    refine h.update rfl (fun v hv => by rw [setLoop_loops, if_neg hv]) (fun _ _ => rfl) (fun v hv => ?_)
      (fun v hv => s.sem.mem_holders_leave hv) ?_ (h.inside w hin) ?_
    · exact s.sem.inside_leave.trans ⟨And.right, fun h => ⟨hv, h⟩⟩
    · simp only [Agrees, setLoop_loops, if_true]
      exact ⟨ha.1, fun hin => (s.sem.inside_leave.mp hin).1 rfl⟩
    · simp [setLoop_loops]
  | bury w hin hw =>
    have ha := h.agrees w
    rw [Agrees, hw] at ha
    refine h.update rfl (fun _ _ => rfl) (fun _ _ => rfl) (fun v hv => ?_)
      (fun v hv => s.sem.mem_holders_leave hv) ?_ (h.inside w hin) (by simp [hw])
    · exact s.sem.inside_leave.trans ⟨And.right, fun h => ⟨hv, h⟩⟩
    · rw [Agrees, hw]
      exact ha
  | respawn w w' hdead hin hpool hborn =>
    have ha := h.agrees w'
    rw [Agrees, hborn] at ha
    have hnew : w' ∉ s.pool := fun hw' => h.born w' hw' hborn
    refine ⟨fun v => ?_, fun v h₁ h₂ => ?_, fun v hv => ?_, fun v hv => ?_, ?_⟩
    · by_cases hv : v = w'
      · subst hv
        simp only [Agrees, setLoop_loops, if_true]
        exact ha
      · exact (h.agrees v).frame (by rw [setLoop_loops, if_neg hv]) rfl .rfl fun hv => hv
    · rw [setLoop_loops] at h₁ h₂
      split_ifs at h₁ h₂ with hv
      · exact hv ▸ List.mem_cons_self
      · have hvw : v ≠ w := fun heq => h₂ (heq ▸ hdead)
        exact List.mem_cons_of_mem _ ((List.mem_erase_of_ne hvw).mpr (h.alive v h₁ h₂))
    · have hvw : v ≠ w := fun heq => hin (heq ▸ hv)
      exact List.mem_cons_of_mem _ ((List.mem_erase_of_ne hvw).mpr (h.inside v hv))
    · rw [setLoop_loops]
      split_ifs with heq
      · simp
      · exact h.born v (List.mem_of_mem_erase ((List.mem_cons.mp hv).resolve_left heq))
    · exact List.nodup_cons.mpr ⟨fun hmem => hnew (List.mem_of_mem_erase hmem), h.nodup.erase w⟩

theorem permitted_new {pool : List Uuid} (hp : pool.Nodup) : Permitted (.new n pool) := by
  have hin (v : Uuid) : ¬ (Semaphore.new n).Inside v := by simp [Semaphore.Inside, Semaphore.new]
  refine ⟨fun v => ?_, fun v h₁ _ => ?_, fun v hv => absurd hv (hin v), fun v hv => ?_, hp⟩
  · by_cases hv : v ∈ pool
    · simp only [Agrees, PermitSys.new, if_pos hv]
      exact ⟨rfl, hin v⟩
    · simp only [Agrees, PermitSys.new, if_neg hv]
      exact ⟨rfl, hin v⟩
  · by_contra hv
    exact h₁ (if_neg hv)
  · simp [PermitSys.new, show v ∈ pool from hv]

theorem length_pool_step (hs : PermitStep cfg urls s e t) : t.pool.length = s.pool.length := by
  cases hs with
  | respawn w w' _ _ hw =>
    have hpos := List.length_pos_of_mem hw
    show (w' :: s.pool.erase w).length = _
    rw [List.length_cons, List.length_erase_of_mem hw]
    omega
  | acquire | sys | release | bury => rfl

/-- **Workers and permits agree in every state reached.** -/
theorem permitted_run {s : PermitSys maxConcurrentJobs.toNat}
    (h : (permitLts cfg urls maxConcurrentJobs numWorkers).Run es s) :
    Permitted s ∧ s.pool.length = numWorkers.toNat := by
  refine Lts.Run.invariant (I := fun _ (s : PermitSys _) => Permitted s ∧ s.pool.length = numWorkers.toNat)
    ?_ ?_ h
  · rintro s ⟨pool, hp, hlen, rfl⟩
    exact ⟨permitted_new hp, hlen⟩
  · rintro es s e t - ⟨hs, hlen⟩ ⟨c, hc⟩
    have hstep := permitStep_of_next hc
    exact ⟨permitted_step hs hstep, (length_pool_step hstep).trans hlen⟩

/-- Who has a job in hand has a permit. -/
theorem Permitted.holder_of_job (h : Permitted s) (hw : (s.sys.workers w).job?.isSome = true) :
    w ∈ s.sem.holders := by
  have ha := h.agrees w
  unfold Agrees at ha
  split at ha
  · rw [ha.1] at hw; cases hw
  · rw [ha.1] at hw; cases hw
  · rw [ha.1] at hw; cases hw
  · exact ha.2
  · exact ha.2
  · rw [ha] at hw; cases hw

/-- **The permits bound the jobs in hand.** Whatever the pool does is a run of the system; in every state
reached the workers with a job in hand are at most `max_concurrent_jobs` and at most `num_workers`, and no
permit is lost. -/
theorem permit_run {s : PermitSys maxConcurrentJobs.toNat}
    (h : (permitLts cfg urls maxConcurrentJobs numWorkers).Run es s) :
    (sysLts cfg urls).Run (es.filterMap id) s.sys ∧
      (∀ ws : List Uuid, ws.Nodup → (∀ w ∈ ws, (s.sys.workers w).job?.isSome = true) →
        ws.length ≤ min maxConcurrentJobs.toNat numWorkers.toNat) ∧
      s.sem.free + s.sem.holders.length = maxConcurrentJobs.toNat := by
  obtain ⟨hp, hlen⟩ := permitted_run h
  refine ⟨sys_run_of_permit h, fun ws hn hws => le_min ?_ ?_, s.sem.conserved⟩
  · have hsub : ws ⊆ s.sem.holders := fun w hw => hp.holder_of_job (hws w hw)
    exact (List.subperm_of_subset hn hsub).length_le.trans s.sem.holders_length_le
  · have hsub : ws ⊆ s.pool := fun w hw =>
      hp.inside w (s.sem.inside_of_holder (hp.holder_of_job (hws w hw)))
    exact hlen ▸ (List.subperm_of_subset hn hsub).length_le

end Invariant

/-- Of two workers with one permit, one executes a job and the other waits. -/
theorem permit_run_one : ∃ es s, (permitLts .sample .sample 1 2).Run es s ∧
    (s.sys.workers 8).job? = some (1, 0) ∧ s.loops 9 = .acquiring ∧ (s.sys.workers 9).job? = none ∧
    ∀ ws : List Uuid, ws.Nodup → (∀ w ∈ ws, (s.sys.workers w).job?.isSome = true) → ws.length ≤ 1 := by
  have h₀ : (permitLts .sample .sample 1 2).Run [] (.new 1 [8, 9]) := .init ⟨[8, 9], by decide, rfl, rfl⟩
  have h₁ := h₀.snoc ⟨.sys (.request 0 .sampleBatch), rfl⟩
  have h₂ := h₁.snoc ⟨.sys (.handle 0 (.ok 0 1)), rfl⟩
  have h₃ := h₂.snoc ⟨.acquire 8, rfl⟩
  have h₄ := h₃.snoc ⟨.acquire 9, rfl⟩
  have h₅ := h₄.snoc ⟨.sys (.work 8 (.ok 1 0)), rfl⟩
  refine ⟨_, _, h₅, rfl, rfl, rfl, fun ws hn hws => ?_⟩
  exact (permit_run h₅).2.1 ws hn hws

end FireCtrl
