import Mathlib.Data.List.Infix
import Mathlib.Data.List.Nodup
import Mathlib.Tactic.Common

/-!
# Retries

A loop makes up to `n` attempts, from attempt `k` on, until one of them decides.

* `Verdict`: what an attempt comes to, a result or an error after which the next one is made.
* `retry`: what the loop returns; `attempts`: the attempts it makes.
* **`retry_cases`**: either the first attempt that decides ends the loop, or there is none and the last
  error is returned. `retry_eq_error_iff`: the errors that are returned.
* `attempts_eq_range'`, `length_attempts_le`: the attempts are made in order, and there are at most `n`.
  `exists_stop`: if there are fewer, the last one has decided.
-/

namespace Retry

variable {ε ρ : Type}

/-- A result, or an error after which to try again. -/
inductive Verdict (ε ρ : Type)
  | stop (r : ρ)
  | again (e : ε)

/-- The result of the first attempt that decides, or else the last error. -/
def retry (v : ℕ → Verdict ε ρ) : ℕ → ℕ → ε → Except ε ρ
  | 0, _, e => .error e
  | n + 1, k, _ =>
    match v k with
    | .stop r => .ok r
    | .again e => retry v n (k + 1) e

/-- The attempts that are made. -/
def attempts (v : ℕ → Verdict ε ρ) : ℕ → ℕ → List ℕ
  | 0, _ => []
  | n + 1, k =>
    match v k with
    | .stop _ => [k]
    | .again _ => k :: attempts v n (k + 1)

/-- The first `n` attempts from `k` on decide nothing. -/
def Undecided (v : ℕ → Verdict ε ρ) (k n : ℕ) : Prop := ∀ i < n, ∃ e, v (k + i) = .again e

variable {v : ℕ → Verdict ε ρ} {n k i : ℕ} {e e' : ε} {r : ρ}

theorem undecided_zero : Undecided v k 0 := fun _ hi => absurd hi (Nat.not_lt_zero _)

theorem undecided_succ : Undecided v k (n + 1) ↔ (∃ e, v k = .again e) ∧ Undecided v (k + 1) n := by
  constructor
  · intro h
    refine ⟨h 0 (Nat.succ_pos n), fun i hi => ?_⟩
    have hnext := h (i + 1) (Nat.succ_lt_succ hi)
    rwa [Nat.add_comm i 1, ← Nat.add_assoc] at hnext
  · rintro ⟨h₀, h⟩ i hi
    cases i with
    | zero => exact h₀
    | succ i =>
      have hnext := h i (Nat.lt_of_succ_lt_succ hi)
      rwa [Nat.add_assoc, Nat.add_comm 1 i] at hnext

theorem Undecided.snoc (h : Undecided v k n) (hn : v (k + n) = .again e) : Undecided v k (n + 1) := by
  intro i hi
  rcases Nat.lt_succ_iff_lt_or_eq.mp hi with hlt | rfl
  · exact h i hlt
  · exact ⟨e, hn⟩

/-! ## The loop -/

/-- The first attempt that decides ends the loop. -/
theorem retry_of_stop (h : Undecided v k i) (hi : v (k + i) = .stop r) (hn : i < n) : retry v n k e = .ok r := by
  induction i generalizing n k e with
  | zero =>
    obtain ⟨n, rfl⟩ := Nat.exists_eq_succ_of_ne_zero (Nat.ne_of_gt hn)
    rw [Nat.add_zero] at hi
    rw [retry, hi]
  | succ i ih =>
    obtain ⟨n, rfl⟩ := Nat.exists_eq_succ_of_ne_zero (Nat.ne_of_gt (Nat.zero_lt_of_lt hn))
    obtain ⟨⟨e₀, h₀⟩, h⟩ := undecided_succ.mp h
    rw [Nat.add_comm i 1, ← Nat.add_assoc] at hi
    rw [retry, h₀]
    exact ih h hi (Nat.lt_of_succ_lt_succ hn)

theorem attempts_of_stop (h : Undecided v k i) (hi : v (k + i) = .stop r) (hn : i < n) :
    attempts v n k = List.range' k (i + 1) := by
  induction i generalizing n k with
  | zero =>
    obtain ⟨n, rfl⟩ := Nat.exists_eq_succ_of_ne_zero (Nat.ne_of_gt hn)
    rw [Nat.add_zero] at hi
    rw [attempts, hi]
    rfl
  | succ i ih =>
    obtain ⟨n, rfl⟩ := Nat.exists_eq_succ_of_ne_zero (Nat.ne_of_gt (Nat.zero_lt_of_lt hn))
    obtain ⟨⟨e₀, h₀⟩, h⟩ := undecided_succ.mp h
    rw [Nat.add_comm i 1, ← Nat.add_assoc] at hi
    rw [attempts, h₀]
    exact congrArg (k :: ·) (ih h hi (Nat.lt_of_succ_lt_succ hn))

/-- Where none decides the last error is returned. -/
theorem retry_of_undecided (h : Undecided v k (n + 1)) (he : v (k + n) = .again e') :
    retry v (n + 1) k e = .error e' := by
  induction n generalizing k e with
  | zero =>
    rw [Nat.add_zero] at he
    rw [retry, he]
    rfl
  | succ n ih =>
    obtain ⟨⟨e₀, h₀⟩, h⟩ := undecided_succ.mp h
    rw [Nat.add_comm n 1, ← Nat.add_assoc] at he
    rw [retry, h₀]
    exact ih h he

theorem attempts_of_undecided (h : Undecided v k n) : attempts v n k = List.range' k n := by
  induction n generalizing k with
  | zero => rfl
  | succ n ih =>
    obtain ⟨⟨e₀, h₀⟩, h⟩ := undecided_succ.mp h
    rw [attempts, h₀]
    exact congrArg (k :: ·) (ih h)

/-- **What the loop comes to.** -/
theorem retry_cases (v : ℕ → Verdict ε ρ) (n k : ℕ) :
    (∃ i r, i < n ∧ Undecided v k i ∧ v (k + i) = .stop r) ∨ Undecided v k n := by
  induction n with
  | zero => exact .inr undecided_zero
  | succ n ih =>
    rcases ih with ⟨i, r, hi, h⟩ | h
    · exact .inl ⟨i, r, Nat.lt_succ_of_lt hi, h⟩
    · cases hv : v (k + n) with
      | stop r => exact .inl ⟨n, r, Nat.lt_succ_self n, h, hv⟩
      | again e => exact .inr (h.snoc hv)

theorem retry_eq_error_iff :
    retry v n k e = .error e' ↔
      Undecided v k n ∧ (n = 0 ∧ e' = e ∨ ∃ m, n = m + 1 ∧ v (k + m) = .again e') := by
  constructor
  · intro h
    rcases retry_cases v n k with ⟨i, r', hi, hund, hstop⟩ | hund
    · rw [retry_of_stop hund hstop hi] at h
      cases h
    · refine ⟨hund, ?_⟩
      cases n with
      | zero =>
        cases h
        exact .inl ⟨rfl, rfl⟩
      | succ n =>
        obtain ⟨e₀, he₀⟩ := hund n (Nat.lt_succ_self n)
        rw [retry_of_undecided hund he₀] at h
        cases h
        exact .inr ⟨n, rfl, he₀⟩
  · rintro ⟨hund, ⟨rfl, rfl⟩ | ⟨m, rfl, he'⟩⟩
    · rfl
    · exact retry_of_undecided hund he'

theorem length_attempts_le (v : ℕ → Verdict ε ρ) (n k : ℕ) : (attempts v n k).length ≤ n := by
  induction n generalizing k with
  | zero => exact Nat.le_refl _
  | succ n ih =>
    rw [attempts]
    split
    · exact Nat.succ_le_succ (Nat.zero_le n)
    · exact Nat.succ_le_succ (ih (k + 1))

theorem length_attempts_pos (v : ℕ → Verdict ε ρ) (n k : ℕ) : 0 < (attempts v n k).length ↔ 0 < n := by
  cases n with
  | zero => exact Iff.rfl
  | succ n =>
    rw [attempts]
    split <;> exact iff_of_true (Nat.succ_pos _) (Nat.succ_pos n)

/-- The attempts are made in order. -/
theorem attempts_eq_range' (v : ℕ → Verdict ε ρ) (n k : ℕ) :
    attempts v n k = List.range' k (attempts v n k).length := by
  induction n generalizing k with
  | zero => rfl
  | succ n ih =>
    rw [attempts]
    split
    · rfl
    · rw [List.length_cons, List.range'_succ, ← ih (k + 1)]

/-- Another attempt is only made after an undecided one. -/
theorem exists_again (h : i + 1 < (attempts v n k).length) : ∃ e, v (k + i) = .again e := by
  rcases retry_cases v n k with ⟨j, r, hj, hund, hstop⟩ | hund
  · rw [attempts_of_stop hund hstop hj, List.length_range'] at h
    exact hund i (Nat.lt_of_succ_lt_succ h)
  · exact hund i ((Nat.lt_succ_self i).trans (h.trans_le (length_attempts_le v n k)))

/-- Where attempts are left over, the last one that was made has decided. -/
theorem exists_stop (h : (attempts v n k).length < n) :
    ∃ i r, (attempts v n k).length = i + 1 ∧ v (k + i) = .stop r := by
  rcases retry_cases v n k with ⟨i, r, hi, hund, hstop⟩ | hund
  · exact ⟨i, r, by rw [attempts_of_stop hund hstop hi, List.length_range'], hstop⟩
  · rw [attempts_of_undecided hund, List.length_range'] at h
    exact absurd h (Nat.lt_irrefl n)

end Retry
