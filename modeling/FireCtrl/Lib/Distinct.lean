import Mathlib.Data.List.Basic
import Mathlib.Data.List.Perm.Subperm
import Mathlib.Order.Nat

/-!
# Lists without repetitions

* `eraseDups_skip`, `eraseDups_isPrefix`: how `List.eraseDups` reads a list from the left; `nodup_eraseDups`.
* `take_eq_take_iff`: when two lists without repetitions have the same first elements.
-/

namespace Distinct

variable {α : Type} [DecidableEq α] {l m : List α} {a : α}

theorem eraseDups_skip (h : a ∈ l) : (l ++ a :: m).eraseDups = (l ++ m).eraseDups := by
  rw [List.eraseDups_append, List.eraseDups_append, List.cons_removeAll, if_neg]
  simpa using h

theorem nodup_eraseDups (l : List α) : l.eraseDups.Nodup := by
  induction hn : l.length using Nat.strongRecOn generalizing l with
  | _ n ih =>
    cases l with
    | nil => exact List.nodup_nil
    | cons a l =>
      rw [List.eraseDups_cons, List.nodup_cons, List.mem_eraseDups]
      have hlen : (l.filter fun b => !b == a).length < n := by
        rw [← hn]
        exact Nat.lt_succ_of_le (List.length_filter_le _ _)
      exact ⟨by simp, ih _ hlen _ rfl⟩

theorem eraseDups_of_nodup (h : l.Nodup) : l.eraseDups = l := by
  induction l with
  | nil => rfl
  | cons a l ih =>
    obtain ⟨ha, hl⟩ := List.nodup_cons.mp h
    rw [List.eraseDups_cons, List.filter_eq_self.mpr, ih hl]
    intro b hb
    have hne : b ≠ a := fun heq => ha (heq ▸ hb)
    simpa using hne

/-- What has been read may be listed once. -/
theorem eraseDups_eraseDups_append (l m : List α) : (l.eraseDups ++ m).eraseDups = (l ++ m).eraseDups := by
  rw [List.eraseDups_append, List.eraseDups_append, eraseDups_of_nodup (nodup_eraseDups l)]
  have hrest : m.removeAll l.eraseDups = m.removeAll l := List.filter_congr fun a _ => by
    simp only [List.elem_eq_contains, List.contains_eq_mem, List.mem_eraseDups]
  rw [hrest]

theorem eraseDups_isPrefix (l m : List α) : l.eraseDups <+: (l ++ m).eraseDups := by
  rw [List.eraseDups_append]
  exact List.prefix_append _ _

theorem length_eraseDups_le (l : List α) : l.eraseDups.length ≤ l.length :=
  ((nodup_eraseDups l).subperm fun _ ha => List.mem_eraseDups.mp ha).length_le

/-! ## The first elements -/

section Take

variable {n : ℕ}

theorem idxOf_take (h : a ∈ l.take n) : (l.take n).idxOf a = l.idxOf a :=
  (List.take_prefix n l).idxOf_eq_of_mem h

/-- The lists agree up to `k`, and nothing of `l` comes before the next element of `m` but what does so in `m`. -/
theorem getElem?_of_take_eq {k : ℕ} (hl : l.Nodup) (hm : m.Nodup) (hsub : l ⊆ m) (heq : l.take k = m.take k)
    (hlt : k < m.length) (hmem : m[k] ∈ l) (hbefore : ∀ b, l.idxOf b < l.idxOf m[k] → m.idxOf b < k) :
    l[k]? = some m[k] := by
  have hidx : m.idxOf m[k] = k := hm.idxOf_getElem k hlt
  have hlen : l.idxOf m[k] < l.length := List.idxOf_lt_length_iff.mpr hmem
  have hge : k ≤ l.idxOf m[k] := by
    by_contra hlt'
    have hin := (List.mem_take_iff_idxOf_lt hmem).mpr (not_le.mp hlt')
    rw [heq, List.mem_take_iff_idxOf_lt (List.getElem_mem hlt), hidx] at hin
    exact lt_irrefl _ hin
  have hle : l.idxOf m[k] ≤ k := by
    by_contra hgt
    have hkl : k < l.length := (not_le.mp hgt).trans hlen
    have hidx' : l.idxOf l[k] = k := hl.idxOf_getElem k hkl
    have hmb := hbefore l[k] (by rw [hidx']; exact not_le.mp hgt)
    have hin := (List.mem_take_iff_idxOf_lt (hsub (List.getElem_mem hkl))).mpr hmb
    rw [← heq, List.mem_take_iff_idxOf_lt (List.getElem_mem hkl), hidx'] at hin
    exact lt_irrefl _ hin
  have hk : l.idxOf m[k] = k := le_antisymm hle hge
  rw [List.getElem?_eq_some_iff]
  refine ⟨hk ▸ hlen, ?_⟩
  have hget := List.getElem_idxOf hlen
  simpa only [hk] using hget

/-- Two lists without repetitions have the same first elements exactly if of those of the one none is missing in
the other, or comes after one that it comes before. -/
theorem take_eq_take_iff (hl : l.Nodup) (hm : m.Nodup) (hsub : l ⊆ m) :
    l.take n = m.take n ↔ ∀ a ∈ m.take n, a ∈ l ∧ ∀ b, l.idxOf b < l.idxOf a → m.idxOf b < m.idxOf a := by
  constructor
  · intro heq a ha
    rw [← heq] at ha
    have hal := List.mem_of_mem_take ha
    refine ⟨hal, fun b hb => ?_⟩
    have hbl : b ∈ l := List.idxOf_lt_length_iff.mp (hb.trans (List.idxOf_lt_length_iff.mpr hal))
    have hb' : b ∈ l.take n :=
      (List.mem_take_iff_idxOf_lt hbl).mpr (hb.trans ((List.mem_take_iff_idxOf_lt hal).mp ha))
    rw [← idxOf_take ha, ← idxOf_take hb', heq] at hb
    rw [heq] at ha hb'
    rwa [← idxOf_take ha, ← idxOf_take hb']
  · intro h
    suffices hk : ∀ k ≤ n, l.take k = m.take k from hk n le_rfl
    intro k hk
    induction k with
    | zero => rfl
    | succ k ih =>
      have heq := ih (Nat.le_of_succ_le hk)
      rcases lt_or_ge k m.length with hlt | hge
      · -- the next element of `m` is the next one of `l`
        have hidx : m.idxOf m[k] = k := hm.idxOf_getElem k hlt
        have htake : m[k] ∈ m.take n := by
          rw [List.mem_take_iff_idxOf_lt (List.getElem_mem hlt), hidx]
          exact hk
        obtain ⟨hmem, hbefore⟩ := h m[k] htake
        rw [hidx] at hbefore
        have hnext := getElem?_of_take_eq hl hm hsub heq hlt hmem hbefore
        rw [List.take_add_one, List.take_add_one, heq, hnext, List.getElem?_eq_getElem hlt]
      · -- there is no further element
        have hlen : l.length ≤ m.length := (hl.subperm hsub).length_le
        rw [List.take_of_length_le (by omega), List.take_of_length_le (by omega)]
        rwa [List.take_of_length_le (by omega), List.take_of_length_le (by omega)] at heq

end Take

end Distinct
