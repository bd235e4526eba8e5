import Mathlib.Algebra.BigOperators.Group.List.Lemmas
import Mathlib.Data.List.Sort

/-!
# Tasks that finish in any order

The tasks of a set are joined one by one, in the order in which they finish.

* `left`: those that are left after a number of joins; `left_succ`, `left_perm`.
* **`forall_prod_eq_iff`**: a product over the tasks is the same for all orders exactly if the factors commute.
* `filterMap_eq_of_pairwise`, `pairwise_of_filterMap_eq`: what is selected comes in the order in which the
  tasks were spawned exactly if the selected ones finish in that order.
-/

namespace JoinSet

/-! ## What is left -/

section Left

variable {α : Type} [DecidableEq α] {spawned order : List α} {k : ℕ} {a : α}

/-- The tasks that are left once the first `k` of `order` have been joined, as they were spawned. -/
def left (spawned order : List α) (k : ℕ) : List α := spawned.diff (order.take k)

theorem left_perm (h : order.Perm spawned) (k : ℕ) : (left spawned order k).Perm (order.drop k) := by
  have hcancel : (order.take k ++ order.drop k).diff (order.take k) = order.drop k := by
    induction order.take k with
    | nil => rfl
    | cons b bs ih => rw [List.cons_append, List.diff_cons, List.erase_cons_head, ih]
  rw [List.take_append_drop] at hcancel
  exact (h.symm.diff_right _).trans (.of_eq hcancel)

/-- The next one to be joined is among them, and is taken out. -/
theorem left_succ (h : order.Perm spawned) (ha : order[k]? = some a) :
    (left spawned order k).idxOf a < (left spawned order k).length ∧
      left spawned order (k + 1) = (left spawned order k).eraseIdx ((left spawned order k).idxOf a) := by
  constructor
  · rw [List.idxOf_lt_length_iff, (left_perm h k).mem_iff, List.mem_iff_getElem?]
    exact ⟨0, by rw [List.getElem?_drop, Nat.add_zero, ha]⟩
  · rw [left, List.take_add_one, ha, Option.toList_some, List.diff_append, List.diff_cons, List.diff_nil]
    exact List.erase_eq_eraseIdx_of_idxOf rfl

theorem length_left (h : order.Perm spawned) (k : ℕ) :
    (left spawned order k).length = spawned.length - k := by
  rw [(left_perm h k).length_eq, List.length_drop, h.length_eq]

end Left

/-! ## Products -/

section Product

variable {α M : Type} [CancelMonoid M] {f : α → M}

theorem forall_prod_eq_iff {l : List α} :
    (∀ m : List α, m.Perm l → (m.map f).prod = (l.map f).prod) ↔ l.Pairwise fun a b => Commute (f a) (f b) := by
  refine ⟨fun h => ?_, fun h m hm => ((hm.symm.map f).prod_eq' (List.pairwise_map.mpr h)).symm⟩
  induction l with
  | nil => exact .nil
  | cons a l ih =>
    refine .cons (fun b hb => ?_) (ih fun m hm => ?_)
    · -- put `b` in front of `a`
      obtain ⟨l₁, l₂, rfl⟩ := List.append_of_mem hb
      have hab : (a :: b :: (l₁ ++ l₂)).Perm (a :: (l₁ ++ b :: l₂)) := List.perm_middle.symm.cons a
      have hba : (b :: a :: (l₁ ++ l₂)).Perm (a :: (l₁ ++ b :: l₂)) := (List.Perm.swap a b _).trans hab
      have heq := (h _ hab).trans (h _ hba).symm
      simp only [List.map_cons, List.prod_cons, ← mul_assoc] at heq
      exact mul_right_cancel heq
    · have heq := h _ (hm.cons a)
      rw [List.map_cons, List.map_cons, List.prod_cons, List.prod_cons] at heq
      exact mul_left_cancel heq

end Product

/-! ## Selections -/

section Selection

variable {α β : Type} {spawned order : List α} {g : α → Option β}

/-- The tasks of which something is selected. -/
def selected (g : α → Option β) (l : List α) : List α := l.filter fun a => (g a).isSome

theorem filterMap_selected (l : List α) : (selected g l).filterMap g = l.filterMap g := by
  rw [selected, List.filterMap_filter]
  refine List.filterMap_congr fun a _ => ?_
  cases g a <;> rfl

variable [LinearOrder α]

theorem filterMap_eq_of_pairwise (hspawned : spawned.Pairwise (· < ·)) (horder : order.Perm spawned)
    (h : (selected g order).Pairwise (· < ·)) : order.filterMap g = spawned.filterMap g := by
  have hsel : selected g order = selected g spawned :=
    (horder.filter _).eq_of_pairwise (fun _ _ _ _ hab hba => absurd (hab.trans hba) (lt_irrefl _)) h
      (hspawned.filter _)
  rw [← filterMap_selected order, hsel, filterMap_selected]

/-- If the outcomes tell which task they are from, their order tells the order of the tasks. -/
theorem pairwise_of_filterMap_eq (hinj : ∀ a b c, g a = some c → g b = some c → a = b)
    (hspawned : spawned.Pairwise (· < ·)) (h : order.filterMap g = spawned.filterMap g) :
    (selected g order).Pairwise (· < ·) := by
  classical
  let task (c : β) : Option α := if h : ∃ a, g a = some c then some h.choose else none
  have htask (l : List α) : (l.filterMap g).filterMap task = selected g l := by
    rw [List.filterMap_filterMap, selected, ← List.filterMap_eq_filter]
    refine List.filterMap_congr fun a _ => ?_
    cases hg : g a with
    | none => simp [Option.guard, hg]
    | some c =>
      have hex : ∃ a, g a = some c := ⟨a, hg⟩
      simp [Option.guard, hg, task, dif_pos hex, hinj _ _ _ hex.choose_spec hg]
  rw [← htask, h, htask]
  exact hspawned.filter _

end Selection

end JoinSet
