import Mathlib.Data.List.Nodup
import Mathlib.Data.List.Perm.Basic
import Mathlib.Tactic.Common

/-!
# Counting semaphores

`Semaphore α n`: `n` permits for clients of type `α`, at most one for each. Who asks while no permit is
free waits in a queue, and a permit that is given back goes to the head of the queue. That no permit is
lost, that none is free while someone waits and that nobody is in it twice are fields.

* `acquire`, `leave`: ask for a permit; give it back, or leave the queue. `Inside`: holding or waiting.
* `holders_length_le`: at most `n` clients hold a permit; `exists_holder`: nobody waits for nobody.
* `mem_holders_acquire`, `mem_holders_leave`, `inside_leave`: the other clients keep what they have.
-/

variable {α : Type} {n : ℕ}

/-- A semaphore of `n` permits. -/
structure Semaphore (α : Type) (n : ℕ) where
  free : ℕ
  holders : List α
  waiters : List α
  conserved : free + holders.length = n
  busy : waiters = [] ∨ free = 0
  nodup : (holders ++ waiters).Nodup

namespace Semaphore

/-- All permits are free. -/
def new (n : ℕ) : Semaphore α n where
  free := n
  holders := []
  waiters := []
  conserved := Nat.add_zero n
  busy := .inl rfl
  nodup := List.nodup_nil

variable (s : Semaphore α n) {a b : α}

/-- In the semaphore, with a permit or waiting for one. -/
def Inside (a : α) : Prop := a ∈ s.holders ++ s.waiters

instance [DecidableEq α] : Decidable (s.Inside a) := inferInstanceAs (Decidable (a ∈ _))

theorem inside_of_holder (h : a ∈ s.holders) : s.Inside a := List.mem_append_left _ h

/-- **At most `n` clients hold a permit.** -/
theorem holders_length_le : s.holders.length ≤ n := by
  have := s.conserved
  omega

/-- Where there are permits at all, someone holds one whenever someone is inside. -/
theorem exists_holder (hn : 0 < n) (h : s.Inside a) : ∃ b, b ∈ s.holders := by
  rcases List.mem_append.mp h with h | h
  · exact ⟨a, h⟩
  · have hfree : s.free = 0 := s.busy.resolve_left (List.ne_nil_of_mem h)
    have := s.conserved
    exact List.exists_mem_of_length_pos (by omega)

theorem free_of_not_inside (h : ∀ a, ¬ s.Inside a) : s.free = n := by
  have hnil : s.holders ++ s.waiters = [] := List.eq_nil_iff_forall_not_mem.mpr h
  have hc := s.conserved
  rwa [(List.append_eq_nil_iff.mp hnil).1, List.length_nil, Nat.add_zero] at hc

theorem length_pos_of_inside (h : s.Inside a) : (s.holders ++ s.waiters).length ≠ 0 :=
  Nat.ne_of_gt (List.length_pos_of_mem h)

theorem not_inside_of_length (h : (s.holders ++ s.waiters).length = 0) (a : α) : ¬ s.Inside a :=
  fun ha => s.length_pos_of_inside ha h

section Acquire

variable [DecidableEq α]

/-- Ask for a permit. -/
def acquire (a : α) : Semaphore α n :=
  if hin : s.Inside a then s
  else if hfree : 0 < s.free then
    { free := s.free - 1
      holders := a :: s.holders
      waiters := s.waiters
      conserved := by have := s.conserved; rw [List.length_cons]; omega
      busy := .inl (s.busy.resolve_right (Nat.ne_of_gt hfree))
      nodup := List.nodup_cons.mpr ⟨hin, s.nodup⟩ }
  else
    { s with
      waiters := s.waiters ++ [a]
      busy := .inr (by omega)
      nodup := by
        rw [← List.append_assoc]
        exact s.nodup.append (List.nodup_singleton a) (List.disjoint_singleton.mpr hin) }

theorem inside_acquire : (s.acquire a).Inside b ↔ b = a ∨ s.Inside b := by
  unfold acquire
  split_ifs with hin hfree
  · exact ⟨.inr, fun h => h.elim (fun heq => heq ▸ hin) id⟩
  · exact List.mem_cons
  · rw [or_comm]
    simp [Inside, ← or_assoc]

theorem mem_holders_acquire (hne : b ≠ a) : b ∈ (s.acquire a).holders ↔ b ∈ s.holders := by
  unfold acquire
  split_ifs with hin hfree
  · rfl
  · exact ⟨fun h => (List.mem_cons.mp h).resolve_left hne, List.mem_cons_of_mem a⟩
  · rfl

/-- A permit is free for the first one who asks. -/
theorem mem_holders_acquire_self (h : ∀ b, ¬ s.Inside b) (hn : 0 < n) : a ∈ (s.acquire a).holders := by
  have hfree : 0 < s.free := by rwa [s.free_of_not_inside h]
  rw [acquire, dif_neg (h a), dif_pos hfree]
  exact List.mem_cons_self

end Acquire

section Leave

variable [DecidableEq α]

/-- Give the permit back, or leave the queue. A permit that is given back goes to the head of the queue. -/
def leave (a : α) : Semaphore α n :=
  if ha : a ∈ s.holders then
    match hw : s.waiters with
    | [] =>
      { free := s.free + 1
        holders := s.holders.erase a
        waiters := []
        conserved := by
          have := s.conserved
          have := List.length_pos_of_mem ha
          rw [List.length_erase_of_mem ha]
          omega
        busy := .inl rfl
        nodup := by
          rw [List.append_nil]
          exact (List.nodup_append.mp s.nodup).1.erase a }
    | b :: waiters =>
      { free := s.free
        holders := b :: s.holders.erase a
        waiters
        conserved := by
          have := s.conserved
          have := List.length_pos_of_mem ha
          rw [List.length_cons, List.length_erase_of_mem ha]
          omega
        busy := .inr (s.busy.resolve_left (by rw [hw]; exact List.cons_ne_nil _ _))
        nodup := by
          have hn := s.nodup
          rw [hw, List.nodup_middle] at hn
          exact hn.sublist (((List.erase_sublist).append_right waiters).cons_cons b) }
  else
    { s with
      waiters := s.waiters.erase a
      busy := s.busy.imp_left fun h => by rw [h, List.erase_nil]
      nodup := s.nodup.sublist ((List.erase_sublist).append_left s.holders) }

/-- Who is inside after `a` has left. -/
theorem perm_leave : ((s.leave a).holders ++ (s.leave a).waiters).Perm ((s.holders ++ s.waiters).erase a) := by
  unfold leave
  split_ifs with ha
  · rw [List.erase_append_left _ ha]
    split
    · rename_i hw
      rw [hw]
    · rename_i b waiters hw
      have hmid : (s.holders.erase a ++ s.waiters).Perm (b :: (s.holders.erase a ++ waiters)) := by
        rw [hw]
        exact List.perm_middle
      exact hmid.symm
  · rw [List.erase_append_right _ ha]

theorem inside_leave : (s.leave a).Inside b ↔ b ≠ a ∧ s.Inside b :=
  (s.perm_leave (a := a)).mem_iff.trans s.nodup.mem_erase_iff

theorem mem_holders_leave (hne : b ≠ a) (h : b ∈ s.holders) : b ∈ (s.leave a).holders := by
  unfold leave
  split_ifs with ha
  · split
    · exact (List.mem_erase_of_ne hne).mpr h
    · exact List.mem_cons_of_mem _ ((List.mem_erase_of_ne hne).mpr h)
  · exact h

theorem length_leave (h : s.Inside a) :
    ((s.leave a).holders ++ (s.leave a).waiters).length < (s.holders ++ s.waiters).length := by
  have hpos := s.length_pos_of_inside h
  rw [(s.perm_leave (a := a)).length_eq, List.length_erase_of_mem h]
  omega

end Leave

end Semaphore
