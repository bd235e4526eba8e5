import Mathlib.Data.List.Basic
import Mathlib.Tactic.Common

/-!
# Loaders

A loader reads a value from a source `s : σ`, and stops at the first thing that is wrong with `s`. A check
looks for one thing that can be wrong.

* `Reports s m checks P`: `m` makes the checks in this order and reports the first fault; without a fault its
  result satisfies `P`. `Reports.bind` is the rule for sequencing.
* **`Reports.eq_error_iff`**, `Reports.exists_ok_iff`: when the loader fails, and with what.
-/

namespace Loader

variable {σ ε α β : Type}

/-- On `s` the loader fails with the first fault that the checks find; if they find none, it succeeds with a
value that satisfies `P`. -/
def Reports (s : σ) (m : ReaderT σ (Except ε) α) (checks : List (σ → Option ε)) (P : α → Prop) : Prop :=
  (∀ e, m.run s = .error e → checks.findSome? (· s) = some e) ∧
    ∀ a, m.run s = .ok a → checks.findSome? (· s) = none ∧ P a

variable {s : σ} {m : ReaderT σ (Except ε) α} {k : α → ReaderT σ (Except ε) β} {check check' : σ → Option ε}
  {checks checks' : List (σ → Option ε)} {P : α → Prop} {Q : β → Prop} {a : α} {e : ε}

theorem run_bind_ok (h : m.run s = .ok a) : (m >>= k).run s = (k a).run s := by
  rw [ReaderT.run_bind, h]
  rfl

theorem run_bind_error (h : m.run s = .error e) : (m >>= k).run s = .error e := by
  rw [ReaderT.run_bind, h]
  rfl

theorem bind_ok {b : β} (hm : m.run s = .ok a) (hk : (k a).run s = .ok b) : (m >>= k).run s = .ok b :=
  (run_bind_ok hm).trans hk

/-! ## Rules -/

theorem Reports.pure (h : P a) : Reports s (Pure.pure a : ReaderT σ (Except ε) α) [] P := by
  constructor
  · intro e he
    cases he
  · intro b hb
    cases hb
    exact ⟨rfl, h⟩

theorem Reports.bind (hm : Reports s m checks P) (hk : ∀ a, P a → Reports s (k a) checks' Q) :
    Reports s (m >>= k) (checks ++ checks') Q := by
  unfold Reports
  rw [List.findSome?_append]
  cases h : m.run s with
  | error e =>
    rw [run_bind_error h, hm.1 e h]
    exact ⟨fun e' he => by cases he; rfl, fun b hb => by cases hb⟩
  | ok a =>
    obtain ⟨hnone, ha⟩ := hm.2 a h
    rw [run_bind_ok h, hnone]
    exact hk a ha

theorem Reports.fails (he : m.run s = .error e) (hcheck : check s = some e) : Reports s m [check] P := by
  constructor
  · intro e' he'
    rw [he] at he'
    cases he'
    rw [List.findSome?_cons, hcheck]
  · intro a ha
    rw [he] at ha
    cases ha

theorem Reports.passes (ha : m.run s = .ok a) (hcheck : check s = none) (hP : P a) : Reports s m [check] P := by
  constructor
  · intro e he
    rw [ha] at he
    cases he
  · intro b hb
    rw [ha] at hb
    cases hb
    rw [List.findSome?_cons, hcheck]
    exact ⟨rfl, hP⟩

theorem Reports.congr (h : Reports s m [check] P) (hcheck : check' s = check s) : Reports s m [check'] P := by
  have hfirst : [check'].findSome? (· s) = [check].findSome? (· s) := by
    simp only [List.findSome?_cons, hcheck]
  unfold Reports
  rwa [hfirst]

theorem Reports.mono {R : α → Prop} (h : Reports s m checks P) (hR : ∀ a, P a → R a) : Reports s m checks R :=
  ⟨h.1, fun a ha => ⟨(h.2 a ha).1, hR a (h.2 a ha).2⟩⟩

/-- After one check the others. -/
theorem Reports.cons (hm : Reports s m [check] P) (hk : ∀ a, P a → Reports s (k a) checks Q) :
    Reports s (m >>= k) (check :: checks) Q :=
  hm.bind hk

/-- What makes no check cannot fail. -/
theorem Reports.free (hm : Reports s m [] P) (hk : ∀ a, P a → Reports s (k a) checks Q) :
    Reports s (m >>= k) checks Q :=
  hm.bind hk

/-! ## What a loader does -/

theorem Reports.eq_error_iff (h : Reports s m checks P) :
    m.run s = .error e ↔ checks.findSome? (· s) = some e := by
  constructor
  · exact h.1 e
  · intro he
    cases hr : m.run s with
    | error e' =>
      have hfirst := h.1 e' hr
      rw [he, Option.some.injEq] at hfirst
      rw [hfirst]
    | ok a =>
      have hnone := (h.2 a hr).1
      rw [he] at hnone
      cases hnone

theorem Reports.exists_ok_iff (h : Reports s m checks P) :
    (∃ a, m.run s = .ok a) ↔ ∀ check ∈ checks, check s = none := by
  rw [← List.findSome?_eq_none_iff]
  constructor
  · intro ⟨a, ha⟩
    exact (h.2 a ha).1
  · intro hnone
    cases hr : m.run s with
    | error e =>
      have hfirst := h.1 e hr
      rw [hnone] at hfirst
      cases hfirst
    | ok a => exact ⟨a, rfl⟩

theorem Reports.of_ok (h : Reports s m checks P) (ha : m.run s = .ok a) : P a := (h.2 a ha).2

end Loader
