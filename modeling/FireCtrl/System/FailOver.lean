import FireCtrl.System.Stalls
import FireCtrl.System.Writers

/-!
# The fail-over and the configured limit

`stall_recovery_loop` casts `max_stalls` from `u32` to `i32`. From `2 ^ 31` on the cast is negative, and
every stall count reaches it.

* `failsOver_of_step`: the fail-over takes the rows whose stall count reaches the cast.
* **`neverEarly_iff`**: no row is failed over early in any run exactly for the limits below `2 ^ 31`.
-/

namespace FireCtrl

/-- The statement is a fail-over of row `k`. -/
def Executed.failsOver (k : Key) (e : Executed) : Bool :=
  match e.query with
  | .failOverStalledJobs _ => e.rows.contains k
  | _ => false

/-- In the run `es` a fail-over takes no row that was requeued less than `maxStalls` times. -/
def NeverEarly (maxStalls : UInt32) (es : List Event) : Prop :=
  ∀ es₁ ev es₂ x k, es = es₁ ++ ev :: es₂ → ev.executed = some x → x.failsOver k = true →
    maxStalls.toNat ≤ (es₁.filterMap Event.executed).countP (·.requeues k)

section Steps

variable {cfg : Config} {urls : UrlCrate} {owner : Owner} {s t : Sys} {ev : Event} {es : List Event}
  {x : Executed} {k : Key} {m n : UInt32}

/-- Only the stall-recovery loop fails over, with the limit of the configuration. -/
theorem failOver_of_step (ho : Owned owner s) (hstep : (sysLts cfg urls).step s ev t)
    (hx : ev.executed = some x) {m : Int32} (hq : x.query = .failOverStalledJobs m) :
    m = cfg.maxStalls.toInt32 ∧ ∃ env, x.rows = x.query.affected env s.db := by
  obtain ⟨hquery, hrows⟩ := recovery_of_step ho hstep hx (by rw [hq]; rfl)
  refine ⟨?_, hrows⟩
  rw [hq] at hquery
  rcases hquery with h | h
  · cases h
  · cases h
    rfl

/-- The fail-over takes the queued rows whose stall count reaches the cast limit. -/
theorem failsOver_of_step (ho : Owned owner s) (hstep : (sysLts cfg urls).step s ev t)
    (hx : ev.executed = some x) (hk : x.failsOver k = true) :
    ∃ r, s.db.queue.lookup k = some r ∧ cfg.maxStalls.toInt32.toInt ≤ r.stalls.getD 0 := by
  unfold Executed.failsOver at hk
  split at hk
  · rename_i m hq
    obtain ⟨rfl, env, hrows⟩ := failOver_of_step ho hstep hx hq
    rw [List.contains_iff_mem, hrows, hq, Query.mem_affected] at hk
    obtain ⟨u, r, hu, hr, hsel⟩ := hk
    cases hu
    simp only [sqlFailOverStalledJobs, decide_eq_true_eq, Option.any_eq_true] at hsel
    obtain ⟨-, n, hn, hle⟩ := hsel
    refine ⟨r, hr, ?_⟩
    rw [hn]
    exact hle
  · cases hk

/-- **A limit below `2 ^ 31` is never undercut.** -/
theorem neverEarly_run (h : (sysLts cfg urls).Run es t) (hlt : cfg.maxStalls.toNat < 2 ^ 31) :
    NeverEarly cfg.maxStalls es := by
  rintro es₁ ev es₂ x k rfl hx hk
  obtain ⟨s, hs, hrest⟩ := h.split
  obtain ⟨u, hstep, -⟩ := hrest.cons
  obtain ⟨owner, ho⟩ := owned_run hs
  obtain ⟨r, hr, hle⟩ := failsOver_of_step ho hstep hx hk
  rw [stalls_run hs hr, toInt_toInt32 hlt] at hle
  exact_mod_cast hle

/-- From `2 ^ 31` on the cast is negative. -/
theorem toInt_toInt32_neg (h : 2 ^ 31 ≤ n.toNat) : n.toInt32.toInt < 0 := by
  show BitVec.toInt n.toBitVec < 0
  rw [BitVec.toInt_neg_iff]
  show 2 ^ 32 ≤ 2 * n.toNat
  omega

end Steps

/-! ## Limits from `2 ^ 31` on -/

theorem next_maxStalls (cfg : Config) (urls : UrlCrate) (n : UInt32) (s : Sys) (c : Choice)
    (h : s.stall = .requeue) :
    next { cfg with maxStalls := n } urls s c = next cfg urls s c := by
  cases c with
  | stall ρ =>
    have hsa : staleAfter { cfg with maxStalls := n } = staleAfter cfg := rfl
    simp only [next, stallStep, h]
    rw [hsa]
    rcases (Op.run ρ (.db (.requeueStalledJobs (staleAfter cfg))) s.db).1 <;> rfl
  | work | timeout | crash | request | handle | drop => rfl

/-- Before the first fail-over the limit makes no difference. -/
theorem steps_maxStalls {cfg : Config} {urls : UrlCrate} {s t : Sys} {es : List Event} (n : UInt32)
    (h : ((sysLts cfg urls).restrict fun s _ _ => s.stall = .requeue).Steps s es t) :
    (sysLts { cfg with maxStalls := n } urls).Steps s es t := by
  induction h with
  | nil => exact .nil
  | snoc _ hstep ih =>
    obtain ⟨⟨c, hc⟩, hst⟩ := hstep
    exact ih.snoc ⟨c, (next_maxStalls _ _ n _ c hst).trans hc⟩

/-- A batch job stalls once. -/
def stalledOnce : List Choice :=
  [.request 0 .sampleBatch, .handle 0 (.ok 0 1), .work 1 (.ok 1 0), .stall (.ok 400000000 0)]

/-- The job of `stalledOnce` is failed over at once. -/
theorem exists_early {n : UInt32} (h : 2 ^ 31 ≤ n.toNat) :
    ∃ es t, (sysLts { Config.sample with maxStalls := n } .sample).Run es t ∧ ¬ NeverEarly n es := by
  obtain ⟨es, s, ⟨_, rfl, hsteps⟩, hobs⟩ := sampleRun_restrict (fun s _ _ => s.stall = .requeue)
    stalledOnce (f := fun p => (p.2.stall,
      (p.2.db.queue.lookup (1, 0)).map fun r => (r.status, r.stalls)))
    (a := (.failOver, some (.queued, some 1))) rfl
  simp only [Prod.mk.injEq, Option.map_eq_some_iff] at hobs
  obtain ⟨hstall, r, hr, hstatus, hst⟩ := hobs
  have hrun : (sysLts { Config.sample with maxStalls := n } .sample).Run es s :=
    ⟨_, rfl, steps_maxStalls n hsteps⟩
  let ρ : Reply := .ok 400000001 0
  let q : Query := .failOverStalledJobs n.toInt32
  let x : Executed := ⟨q, q.affected ρ.env s.db⟩
  have hstep : (sysLts { Config.sample with maxStalls := n } .sample).step s (.statement .stall x)
      (stallStep { Config.sample with maxStalls := n } s ρ).2 := by
    refine ⟨.stall ρ, ?_⟩
    simp only [next, stallStep, hstall]
    rfl
  refine ⟨_, _, hrun.snoc hstep, fun hne => ?_⟩
  -- the negative limit selects the row
  have hk : (1, 0) ∈ q.affected ρ.env s.db := by
    refine Query.mem_affected.mpr ⟨sqlFailOverStalledJobs ρ.env n.toInt32, r, rfl, hr, ?_⟩
    have hneg := toInt_toInt32_neg h
    simp only [sqlFailOverStalledJobs, hstatus, hst, Option.any_some, decide_eq_true_eq, true_and]
    omega
  have hle := hne es _ [] x (1, 0) rfl rfl (List.contains_iff_mem.mpr hk)
  have hcount := stalls_run hrun hr
  rw [hst, Option.getD_some] at hcount
  omega

/-- **The configured limits that no run undercuts** are those below `2 ^ 31`. -/
theorem neverEarly_iff (n : UInt32) :
    (∀ cfg urls es t, cfg.maxStalls = n → (sysLts cfg urls).Run es t → NeverEarly n es) ↔
      n.toNat < 2 ^ 31 := by
  constructor
  · intro h
    by_contra hge
    obtain ⟨es, t, hrun, hearly⟩ := exists_early (n := n) (by omega)
    exact hearly (h _ _ es t rfl hrun)
  · rintro hlt cfg urls es t rfl hrun
    exact neverEarly_run hrun hlt

/-- The greatest limit fails a job over after its first stall. -/
theorem not_neverEarly : ¬ ∀ (cfg : Config) (urls : UrlCrate) (es : List Event) (t : Sys),
    (sysLts cfg urls).Run es t → NeverEarly cfg.maxStalls es := by
  intro h
  obtain ⟨es, t, hrun, hearly⟩ := exists_early (n := 4294967295) (by decide)
  exact hearly (h _ _ es t hrun)

end FireCtrl
