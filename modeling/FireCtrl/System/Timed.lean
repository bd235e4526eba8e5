import FireCtrl.Queue.Invariant
import FireCtrl.System.Counters
import Mathlib.Tactic.Linarith

/-!
# The stall recovery and the clock

The stall recovery takes a row that has been locked for longer than the timeout of a job and 30 seconds,
in the arithmetic of `u64`.

* `Timed`: the system with a clock, on which workers start their timeouts and the server locks rows;
  `Admits`: the timed steps, where a worker takes less than 30 seconds for what is not in the timeout.
* `TimedInv`, **`timedInv_run`**: the row that a worker has in hand is as the worker's claim has locked
  it, or finished.
* **`sparesLive_iff`**: no requeue takes such a row, exactly where `job_timeout_seconds + 30` is a `u64`.
-/

namespace FireCtrl

open Query (RowStep)

/-! ## Timed runs -/

/-- When a worker has claimed its row, starts the timeout, and has ended the execution. -/
structure Timer where
  claimed : Timestamp
  begun : Timestamp
  ended : Option Timestamp

/-- `job_timeout_seconds`, in the unit of timestamps. -/
def Config.jobTimeout (cfg : Config) : ℤ := cfg.jobTimeoutSeconds.toNat * 10 ^ 6

namespace Timer

variable (cfg : Config) (τ : Timer)

/-- When the timeout ends the execution. -/
def deadline : Timestamp := τ.begun + cfg.jobTimeout

/-- The timer of a worker after a step at `now`; after a claim the timeout is started at `begun`. What
comes after the deadline is no part of the execution. -/
def next (now begun : Timestamp) : WorkerState → WorkerState → Timer
  | .idle, .executing .. => ⟨now, begun, none⟩
  -- there is nothing to execute
  | .idle, .failing .. => ⟨now, begun, some begun⟩
  | .executing .., .failing .. => { τ with ended := some (min now (τ.deadline cfg)) }
  | _, _ => τ

/-- Up to `now` the worker has taken less than 30 seconds from the claim to the start of the timeout, and
from the end of the execution on. -/
structure Prompt (now : Timestamp) : Prop where
  start : τ.begun - τ.claimed < 30 * 10 ^ 6
  total : (τ.begun - τ.claimed) + (now - τ.ended.getD (τ.deadline cfg)) < 30 * 10 ^ 6

end Timer

/-- The system, the time of its last step, and the timers of its workers. -/
structure Timed where
  sys : Sys
  clock : Timestamp
  timers : Uuid → Timer

/-- A step with its time. A worker that claims a row in this step starts the timeout at `begun`. -/
structure Tick where
  now : Timestamp
  begun : Timestamp
  choice : Choice

/-- The server reads `now` on its clock. -/
def Choice.At (now : Timestamp) : Choice → Prop
  | work _ ρ | timeout _ ρ | handle _ ρ | stall ρ => ρ.env.now = now
  | crash _ | request .. | drop _ => True

/-- The worker that makes the step. -/
def Choice.worker? : Choice → Option Uuid
  | work w _ | timeout w _ => some w
  | crash _ | request .. | handle .. | drop _ | stall _ => none

namespace Timed

variable (cfg : Config) (s : Timed) (c : Tick)

/-- The timed system after a step to `t`. -/
def advance (t : Sys) : Timed where
  sys := t
  clock := c.now
  timers w := (s.timers w).next cfg c.now c.begun (s.sys.workers w) (t.workers w)

/-- Time does not run back, the server reads it, a worker executes once its timeout has begun, and all
workers have been prompt so far. -/
structure Admits : Prop where
  clock : s.clock ≤ c.now
  begun : c.now ≤ c.begun
  server : c.choice.At c.now
  started : ∀ w, c.choice.worker? = some w → (s.sys.workers w).job?.isSome → (s.timers w).begun ≤ c.now
  prompt : ∀ w, (s.sys.workers w).job?.isSome → (s.timers w).Prompt cfg c.now

end Timed

/-- The timed runs of the system. -/
def timedLts (cfg : Config) (urls : UrlCrate) : Lts Timed Event where
  init s := s.sys = Sys.init
  step s ev t := ∃ c, s.Admits cfg c ∧
    ∃ u, next cfg urls s.sys c.choice = some (ev, u) ∧ t = s.advance cfg c u

/-- No requeue takes a row that a worker has in hand. -/
def SparesLive (T : Lts Timed Event) : Prop :=
  ∀ es s ev t, T.Run es s → T.step s ev t → ∀ x k, ev.executed = some x → x.requeues k = true →
    ∀ w, (s.sys.workers w).job? ≠ some k

section Steps

variable {cfg : Config} {urls : UrlCrate} {owner : Owner} {s t : Sys} {ev : Event} {es : List Event}
  {x : Executed} {k : Key} {now begun : Timestamp} {τ : Timer} {db : Db} {c : Choice}

/-- A timed run is a run of the system. -/
theorem run_of_timed {s : Timed} (h : (timedLts cfg urls).Run es s) : (sysLts cfg urls).Run es s.sys := by
  refine Lts.Run.invariant (I := fun es (s : Timed) => (sysLts cfg urls).Run es s.sys) ?_ ?_ h
  · rintro s hs
    exact ⟨s.sys, hs, .nil⟩
  · rintro es s ev t - ih ⟨c, -, u, hnext, rfl⟩
    exact ih.snoc ⟨c.choice, hnext⟩

/-! ## The time of a statement -/

/-- The step executes no statement, or one at `now`. -/
def ExecutesAt (now : Timestamp) (s : Sys) (ev : Event) (db : Db) : Prop :=
  ev.executed = none ∧ db = s.db ∨
    ∃ x env, ev.executed = some x ∧ env.now = now ∧ x.rows = x.query.affected env s.db ∧
      db = (x.query.exec env s.db).2

theorem executesAt_perform {a : Actor} {ρ : Reply} {o : Op} (hρ : ρ.env.now = now) :
    ExecutesAt now s (s.event a ρ o) (s.perform ρ o).db := by
  rcases hx : o.executes ρ with _ | q
  · exact .inl ⟨event_of_not_executes hx, Op.run_snd_of_not_executes hx⟩
  · exact .inr ⟨_, ρ.env, by rw [event_of_executes hx]; rfl, hρ, rfl, Op.run_snd_of_executes hx⟩

/-- Every statement of a step is executed at its time. -/
theorem executesAt_next (h : next cfg urls s c = some (ev, t)) (hc : c.At now) : ExecutesAt now s ev t.db := by
  cases c with
  | work w ρ =>
    simp only [next, workerStep] at h
    split at h
    · cases h; exact executesAt_perform hc
    · cases h; exact executesAt_perform hc
    · cases h; exact .inl ⟨rfl, rfl⟩
    · cases h; exact .inl ⟨rfl, rfl⟩
    · cases h; exact executesAt_perform hc
    · cases h
  | timeout w ρ =>
    simp only [next, timeoutStep] at h
    split at h
    · cases h; exact executesAt_perform hc
    · cases h
  | crash w => cases h; exact .inl ⟨rfl, rfl⟩
  | request n req =>
    simp only [next] at h
    split at h
    · cases h; exact .inl ⟨rfl, rfl⟩
    · cases h
  | handle n ρ =>
    simp only [next, handlerStep] at h
    split at h
    · cases h; exact executesAt_perform hc
    · cases h; exact .inl ⟨rfl, rfl⟩
    · cases h
    · cases h
  | drop n => cases h; exact .inl ⟨rfl, rfl⟩
  | stall ρ =>
    simp only [next, stallStep] at h
    split at h
    · cases h; exact executesAt_perform hc
    · cases h; exact executesAt_perform hc

/-! ## Rows in hand -/

/-- Row `k` is as it was claimed, or finished, and the execution has ended within the timeout. -/
structure Held (cfg : Config) (db : Db) (k : Key) (τ : Timer) : Prop where
  row : ∃ r, db.queue.lookup k = some r ∧ r.status ≠ .queued ∧
    (r.status = .active → r.lockedAt = some τ.claimed)
  ended : ∀ e, τ.ended = some e → e ≤ τ.deadline cfg

/-- Where `stale_after` is what it is to be, a prompt worker is not stale. -/
theorem Held.not_stale (h : Held cfg db k τ) (hτ : τ.Prompt cfg now)
    (hlt : cfg.jobTimeoutSeconds.toNat + 30 < 2 ^ 64) : now - (staleAfter cfg).toNat * 10 ^ 6 ≤ τ.claimed := by
  have hstale : (staleAfter cfg).toNat = cfg.jobTimeoutSeconds.toNat + 30 := by
    show (cfg.jobTimeoutSeconds + 30).toNat = _
    rw [UInt64.toNat_add]
    exact Nat.mod_eq_of_lt hlt
  have hend : τ.ended.getD (τ.deadline cfg) ≤ τ.begun + cfg.jobTimeoutSeconds.toNat * 10 ^ 6 := by
    cases he : τ.ended with
    | none => exact le_refl _
    | some e => exact h.ended e he
  have htotal := hτ.total
  rw [hstale]
  push_cast
  linarith

/-- A row that is not stale is not requeued. -/
theorem Held.not_requeues (h : Held cfg s.db k τ) (hτ : τ.Prompt cfg now)
    (hlt : cfg.jobTimeoutSeconds.toNat + 30 < 2 ^ 64) (ho : Owned owner s) (hstep : (sysLts cfg urls).step s ev t)
    (hx : ExecutesAt now s ev t.db) (hev : ev.executed = some x) : x.requeues k = false := by
  have hstale := h.not_stale hτ hlt
  have hq (n : UInt64) (hn : x.query = .requeueStalledJobs n) : n = staleAfter cfg := by
    have hquery := (recovery_of_step ho hstep hev (by rw [hn]; rfl)).1
    rw [hn] at hquery
    rcases hquery with h | h
    · cases h
      rfl
    · cases h
  obtain ⟨r, hr, -, hlocked⟩ := h.row
  rcases hx with ⟨hnone, -⟩ | ⟨x', env, hx', rfl, hrows, -⟩
  · rw [hev] at hnone; cases hnone
  rw [hev, Option.some.injEq] at hx'
  subst hx'
  by_contra hre
  rw [Bool.not_eq_false, requeues_eq, Bool.and_eq_true, decide_eq_true_eq, hrows] at hre
  rcases Query.touch_step x.query env hr with ⟨hk, -⟩ | ⟨-, hs⟩
  · exact hk hre.2
  obtain ⟨q, rows⟩ := x
  generalize Query.touch env s.db q r = r' at hs
  cases hs with
  | requeue n t ha ht hbefore =>
    obtain rfl := hq n rfl
    rw [hlocked ha, Option.some.injEq] at ht
    exact absurd hbefore (not_lt.mpr (ht ▸ hstale))
  | claim | complete | fail | cancel | cancelGroup | attach | failOver => cases hre.1

/-- It stays as it is, or is finished. -/
theorem Held.step (h : Held cfg s.db k τ) (hτ : τ.Prompt cfg now) (hlt : cfg.jobTimeoutSeconds.toNat + 30 < 2 ^ 64)
    (ho : Owned owner s) (hstep : (sysLts cfg urls).step s ev t) (hx : ExecutesAt now s ev t.db) :
    Held cfg t.db k τ := by
  refine ⟨?_, h.ended⟩
  obtain ⟨r, hr, hqueued, hlocked⟩ := h.row
  rcases id hx with ⟨-, hdb⟩ | ⟨x, env, hev, -, hrows, hdb⟩
  · exact ⟨r, hdb ▸ hr, hqueued, hlocked⟩
  refine ⟨_, hdb ▸ Query.lookup_exec hr, ?_⟩
  rcases Query.touch_step x.query env hr with ⟨-, heq⟩ | ⟨hk, hs⟩
  · rw [heq]
    exact ⟨hqueued, hlocked⟩
  have hnot := h.not_requeues hτ hlt ho hstep hx hev
  rw [requeues_eq, hrows, decide_eq_true hk, Bool.and_true] at hnot
  obtain ⟨q, rows⟩ := x
  generalize Query.touch env s.db q r = r' at hs
  cases hs with
  | claim _ hq | failOver _ _ hq => exact absurd hq hqueued
  | complete | fail | cancel | cancelGroup => exact ⟨nofun, nofun⟩
  | attach => exact ⟨hqueued, hlocked⟩
  | requeue => cases hnot

/-- A claim takes a queued row and locks it now. -/
theorem locked_of_claims (hx : ExecutesAt now s ev db) (hc : ev.claims k = true) :
    ∃ r r', s.db.queue.lookup k = some r ∧ r.status = .queued ∧ db.queue.lookup k = some r' ∧
      r'.status = .active ∧ r'.lockedAt = some now := by
  unfold Event.claims at hc
  rcases hx with ⟨hnone, -⟩ | ⟨⟨q, rows⟩, env, hev, rfl, hrows, rfl⟩
  · rw [hnone] at hc; cases hc
  rw [hev] at hc
  cases q with
  | claimNextJob w =>
    have hk : k ∈ (Query.claimNextJob w).affected env s.db := by
      rw [← hrows]
      simpa [Executed.claims] using hc
    obtain ⟨-, r, -, hr, -⟩ := Query.mem_affected.mp hk
    rcases Query.touch_step (.claimNextJob w) env hr with ⟨hk', -⟩ | ⟨-, hs⟩
    · exact absurd hk hk'
    have hl : ((Query.claimNextJob w).exec env s.db).2.queue.lookup k =
        some (Query.touch env s.db (.claimNextJob w) r) := Query.lookup_exec hr
    generalize Query.touch env s.db (.claimNextJob w) r = r' at hs hl
    cases hs with
    | claim _ hq => exact ⟨r, _, hr, hq, hl, rfl, rfl⟩
  | _ => cases hc

/-! ## Timers -/

variable (cfg τ now begun) in
/-- A claim sets the timer. -/
theorem Timer.next_claim {ws : WorkerState} (hws : ws.job? = some k) :
    (τ.next cfg now begun .idle ws).claimed = now ∧
      ∀ e, (τ.next cfg now begun .idle ws).ended = some e → e ≤ (τ.next cfg now begun .idle ws).deadline cfg := by
  cases ws with
  | idle | stopped => cases hws
  | executing => exact ⟨rfl, nofun⟩
  | failing =>
    refine ⟨rfl, fun e he => ?_⟩
    cases he
    have hpos : (0 : ℤ) ≤ cfg.jobTimeoutSeconds.toNat * 10 ^ 6 := by positivity
    exact le_add_of_nonneg_right hpos

variable (now begun) in
/-- While the worker has the row in hand, the timer keeps the time of the claim. -/
theorem Timer.next_job {ws : WorkerState} (ws' : WorkerState) (hws : ws.job? = some k)
    (h : ∀ e, τ.ended = some e → e ≤ τ.deadline cfg) :
    (τ.next cfg now begun ws ws').claimed = τ.claimed ∧
      ∀ e, (τ.next cfg now begun ws ws').ended = some e → e ≤ (τ.next cfg now begun ws ws').deadline cfg := by
  cases ws with
  | idle | stopped => cases hws
  | failing => exact ⟨by cases ws' <;> rfl, by cases ws' <;> exact h⟩
  | executing =>
    cases ws' with
    | failing =>
      refine ⟨rfl, fun e he => ?_⟩
      cases he
      exact min_le_right _ _
    | idle | executing | stopped => exact ⟨rfl, h⟩

/-! ## The invariant -/

/-- Every row in hand is held. -/
def TimedInv (cfg : Config) (s : Timed) : Prop :=
  ∀ w k, (s.sys.workers w).job? = some k → Held cfg s.sys.db k (s.timers w)

theorem timedInv_step {s : Timed} {c : Tick} (ho : Owned owner s.sys)
    (hlt : cfg.jobTimeoutSeconds.toNat + 30 < 2 ^ 64) (h : TimedInv cfg s) (hc : s.Admits cfg c)
    (hnext : next cfg urls s.sys c.choice = some (ev, t)) : TimedInv cfg (s.advance cfg c t) := by
  intro w k hw
  have hstep : (sysLts cfg urls).step s.sys ev t := ⟨c.choice, hnext⟩
  have hx := executesAt_next hnext hc.server
  have hkept (hw₀ : (s.sys.workers w).job? = some k) : Held cfg t.db k (s.timers w) :=
    (h w k hw₀).step (hc.prompt w (by rw [hw₀]; rfl)) hlt ho hstep hx
  cases hclaims : ev.claims k with
  | false =>
    have hw₀ := (job_step hstep hw hclaims).1
    obtain ⟨hclaimed, hended⟩ := Timer.next_job c.now c.begun (t.workers w) hw₀ (hkept hw₀).ended
    obtain ⟨r, hr, hnot, hlocked⟩ := (hkept hw₀).row
    exact ⟨⟨r, hr, hnot, fun ha => (hlocked ha).trans (congrArg some hclaimed.symm)⟩, hended⟩
  | true =>
    obtain ⟨r, r', hr, hqueued, hr', hactive, hlocked⟩ := locked_of_claims hx hclaims
    obtain ⟨w', ρ, hidle, -, rfl⟩ := claim_of_claims ho hstep hclaims
    by_cases hww : w = w'
    · subst hww
      obtain ⟨hclaimed, hended⟩ := Timer.next_claim cfg c.now c.begun (s.timers w) hw
      rw [← hidle] at hclaimed hended
      have hnot : r'.status ≠ .queued := by rw [hactive]; decide
      exact ⟨⟨r', hr', hnot, fun _ => hlocked.trans (congrArg some hclaimed.symm)⟩, hended⟩
    · -- a row in hand is not queued
      have hw₀ : (s.sys.workers w).job? = some k := by
        have hsame := setWorker_workers (s.sys.perform ρ (.db (.claimNextJob w'))) w' w
          (afterClaim cfg urls (Op.run ρ (.db (.claimNextJob w')) s.sys.db).1)
        rw [if_neg hww] at hsame
        exact (congrArg WorkerState.job? hsame).symm.trans hw
      obtain ⟨r₀, hr₀, hnot, -⟩ := (h w k hw₀).row
      rw [hr, Option.some.injEq] at hr₀
      exact absurd (hr₀ ▸ hqueued) hnot

theorem timedInv_run {s : Timed} (hlt : cfg.jobTimeoutSeconds.toNat + 30 < 2 ^ 64)
    (h : (timedLts cfg urls).Run es s) : TimedInv cfg s := by
  refine Lts.Run.invariant (I := fun _ s => TimedInv cfg s) ?_ ?_ h
  · rintro s hs w k hw
    change s.sys = Sys.init at hs
    rw [hs] at hw
    cases hw
  · rintro es s ev t hs ih ⟨c, hc, u, hnext, rfl⟩
    obtain ⟨owner, ho⟩ := owned_run (run_of_timed hs)
    exact timedInv_step ho hlt ih hc hnext

/-- **A prompt worker keeps its row**, if `stale_after` is what it is to be. -/
theorem sparesLive (hlt : cfg.jobTimeoutSeconds.toNat + 30 < 2 ^ 64) : SparesLive (timedLts cfg urls) := by
  rintro es s ev t hs ⟨c, hc, u, hnext, rfl⟩ x k hev hre w hw
  obtain ⟨owner, ho⟩ := owned_run (run_of_timed hs)
  have hnot := (timedInv_run hlt hs w k hw).not_requeues (hc.prompt w (by rw [hw]; rfl)) hlt ho
    ⟨c.choice, hnext⟩ (executesAt_next hnext hc.server) hev
  rw [hre] at hnot
  cases hnot

end Steps

/-! ## Timeouts for which the sum is no `u64` -/

/-- Nothing has happened yet. -/
def Timed.init : Timed := ⟨Sys.init, 0, fun _ => ⟨0, 0, none⟩⟩

/-- Worker 1 has claimed the only row at time 1, and executes its job. -/
structure Timed.Claimed (s : Timed) : Prop where
  clock : s.clock = 1
  stall : s.sys.stall = .requeue
  row : ∃ r, s.sys.db.queue.rows = [r] ∧ r.key = (1, 0) ∧ r.status = .active ∧ r.lockedAt = some 1 ∧ r.stalls = none
  worker : (s.sys.workers 1).job? = some (1, 0)
  idle : ∀ w, w ≠ 1 → s.sys.workers w = .idle
  timer : s.timers 1 = ⟨1, 1, none⟩

/-- A batch job is submitted and claimed, the timeout starting at once. -/
theorem exists_claimed (cfg : Config) (urls : UrlCrate) : ∃ es s, (timedLts cfg urls).Run es s ∧ s.Claimed := by
  have h₀ : (timedLts cfg urls).Run [] Timed.init := Lts.Run.init rfl
  have h₁ := h₀.snoc ⟨⟨0, 0, .request 0 .sampleBatch⟩, ⟨le_refl _, le_refl _, trivial, nofun, nofun⟩, _, rfl, rfl⟩
  have h₂ := h₁.snoc ⟨⟨0, 0, .handle 0 (.ok 0 1)⟩, ⟨le_refl _, le_refl _, rfl, nofun, nofun⟩, _, rfl, rfl⟩
  have h₃ := h₂.snoc ⟨⟨1, 1, .work 1 (.ok 1 0)⟩, ⟨zero_le_one, le_refl _, rfl, fun _ _ => nofun, nofun⟩, _, rfl, rfl⟩
  exact ⟨_, _, h₃, rfl, rfl, ⟨_, rfl, rfl, rfl, rfl, rfl⟩, rfl, fun w hw => Function.update_of_ne hw _ _, rfl⟩

section Wrapping

variable {cfg : Config} {urls : UrlCrate} {s : Timed}

/-- The sum has wrapped around. -/
theorem staleAfter_wraps (h : 2 ^ 64 ≤ cfg.jobTimeoutSeconds.toNat + 30) :
    (staleAfter cfg).toNat + 2 ^ 64 = cfg.jobTimeoutSeconds.toNat + 30 := by
  have hlt := cfg.jobTimeoutSeconds.toNat_lt
  have hsum : (staleAfter cfg).toNat = (cfg.jobTimeoutSeconds.toNat + 30) % 2 ^ 64 := by
    show (cfg.jobTimeoutSeconds + 30).toNat = _
    rw [UInt64.toNat_add]
    rfl
  omega

/-- After `stale_after` and a microsecond more the row is requeued. -/
theorem Timed.Claimed.affected (hs : s.Claimed) {env : Env} {n : UInt64} (henv : env.now = n.toNat * 10 ^ 6 + 2) :
    (1, 0) ∈ (Query.requeueStalledJobs n).affected env s.sys.db := by
  obtain ⟨r, hrows, hkey, hactive, hlocked, hstalls⟩ := hs.row
  have hmem : r ∈ s.sys.db.queue := by
    show r ∈ s.sys.db.queue.rows
    rw [hrows]
    exact List.mem_singleton_self r
  have hcut : env.now - n.toNat * 10 ^ 6 = 2 := by rw [henv]; exact add_sub_cancel_left _ _
  have herror : requeueError env n s.sys.db = none := by
    unfold requeueError
    rw [hcut, hrows]
    simp [minTimestamp, hstalls]
  refine Query.mem_affected.mpr ⟨sqlRequeueStalledJobs env n, r, if_pos herror, hkey ▸ KTable.lookup_key hmem, ?_⟩
  show decide (r.status = .active ∧ r.lockedAt.any (fun t => t < env.now - n.toNat * 10 ^ 6) = true) = true
  rw [hactive, hlocked, hcut]
  rfl

/-- The worker is well within its timeout. -/
theorem Timed.Claimed.prompt (hs : s.Claimed) (h : 2 ^ 64 ≤ cfg.jobTimeoutSeconds.toNat + 30) {w : Uuid}
    (hw : (s.sys.workers w).job?.isSome) : (s.timers w).Prompt cfg ((staleAfter cfg).toNat * 10 ^ 6 + 2) := by
  have hone : w = 1 := by
    by_contra hne
    rw [hs.idle w hne] at hw
    cases hw
  have hwraps : ((staleAfter cfg).toNat + 2 ^ 64 : ℤ) = cfg.jobTimeoutSeconds.toNat + 30 :=
    mod_cast staleAfter_wraps h
  rw [hone, hs.timer]
  refine ⟨by decide, ?_⟩
  show (1 - 1 : ℤ) + ((staleAfter cfg).toNat * 10 ^ 6 + 2 - (1 + cfg.jobTimeoutSeconds.toNat * 10 ^ 6)) < 30 * 10 ^ 6
  linarith

variable (urls) in
theorem not_sparesLive_of_wraps (h : 2 ^ 64 ≤ cfg.jobTimeoutSeconds.toNat + 30) :
    ¬ SparesLive (timedLts cfg urls) := by
  intro hspares
  obtain ⟨es, s, hrun, hs⟩ := exists_claimed cfg urls
  let now : Timestamp := (staleAfter cfg).toNat * 10 ^ 6 + 2
  let c : Tick := ⟨now, now, .stall (.ok now 0)⟩
  let q : Query := .requeueStalledJobs (staleAfter cfg)
  let x : Executed := ⟨q, q.affected ⟨now, 0⟩ s.sys.db⟩
  have hadmits : s.Admits cfg c := by
    refine ⟨?_, le_refl _, rfl, nofun, fun w hw => hs.prompt h hw⟩
    rw [hs.clock]
    show (1 : ℤ) ≤ (staleAfter cfg).toNat * 10 ^ 6 + 2
    omega
  have hstep : (timedLts cfg urls).step s (.statement .stall x)
      (s.advance cfg c (stallStep cfg s.sys (.ok now 0)).2) := by
    refine ⟨c, hadmits, _, ?_, rfl⟩
    simp only [c, next, stallStep, hs.stall]
    rfl
  have hk : (1, 0) ∈ x.rows := hs.affected rfl
  exact hspares es s _ _ hrun hstep x (1, 0) rfl (decide_eq_true hk) 1 hs.worker

/-- **The settings under which no requeue takes a row in hand** are those for which
`job_timeout_seconds + 30` is a `u64`. -/
theorem sparesLive_iff (cfg : Config) (urls : UrlCrate) :
    SparesLive (timedLts cfg urls) ↔ cfg.jobTimeoutSeconds.toNat + 30 < 2 ^ 64 := by
  constructor
  · intro h
    by_contra hge
    exact not_sparesLive_of_wraps urls (Nat.le_of_not_lt hge) h
  · exact sparesLive

/-- With the greatest timeout, a job is stale after 29 seconds. -/
theorem not_sparesLive : ¬ ∀ (cfg : Config) (urls : UrlCrate), SparesLive (timedLts cfg urls) := by
  intro h
  let cfg : Config := { Config.sample with jobTimeoutSeconds := 18446744073709551615 }
  have hwraps : 2 ^ 64 ≤ cfg.jobTimeoutSeconds.toNat + 30 := by decide
  exact not_sparesLive_of_wraps .sample hwraps (h cfg .sample)

end Wrapping

end FireCtrl
