import Mathlib.Data.Nat.Bitwise
import Mathlib.Tactic.Common

/-!
# Blocks of addresses

The blocks of `w`-bit addresses that a prefix stands for.

* `Block.Contains`: the addresses of a block.
* **`Block.contains_append`**: the leading bits decide, if they are as many as the prefix has.
* **`and_mask_eq_iff`**: a block as a mask.
-/

namespace Cidr

/-- The addresses that begin like `addr`, as far as `len` bits. -/
structure Block (w : ℕ) where
  addr : ℕ
  len : ℕ

variable {w k x c hi lo : ℕ}

def Block.Contains (b : Block w) (x : ℕ) : Prop := x / 2 ^ (w - b.len) = b.addr / 2 ^ (w - b.len)

instance (b : Block w) : DecidablePred b.Contains := fun _ => inferInstanceAs (Decidable (_ = _))

/-- **The leading bits decide.** -/
theorem Block.contains_append {b : Block (w + k)} (hlen : b.len ≤ w) (hlo : lo < 2 ^ k) :
    b.Contains (hi * 2 ^ k + lo) ↔ (⟨b.addr / 2 ^ k, b.len⟩ : Block w).Contains hi := by
  have hsplit : 2 ^ (w + k - b.len) = 2 ^ k * 2 ^ (w - b.len) := by
    rw [← pow_add]
    congr 1
    omega
  have hhi : (hi * 2 ^ k + lo) / 2 ^ k = hi := by
    rw [Nat.mul_comm, Nat.mul_add_div (Nat.two_pow_pos k), Nat.div_eq_of_lt hlo, Nat.add_zero]
  rw [Contains, Contains, hsplit, ← Nat.div_div_eq_div_mul, ← Nat.div_div_eq_div_mul, hhi]

/-- Masking out the low bits. -/
theorem and_mask (hx : x < 2 ^ w) (hk : k ≤ w) : x &&& (2 ^ w - 2 ^ k) = x / 2 ^ k * 2 ^ k := by
  have hmask : 2 ^ w - 2 ^ k = (2 ^ (w - k) - 1) * 2 ^ k := by
    rw [Nat.sub_mul, ← pow_add, Nat.sub_add_cancel hk, Nat.one_mul]
  refine Nat.eq_of_testBit_eq fun j => ?_
  rw [hmask, Nat.testBit_and, Nat.testBit_mul_two_pow, Nat.testBit_mul_two_pow, Nat.testBit_two_pow_sub_one,
    Nat.testBit_div_two_pow]
  by_cases hj : k ≤ j
  · rw [Nat.sub_add_cancel hj]
    by_cases hjw : j < w
    · simp [hj, show j - k < w - k by omega]
    · rw [Nat.testBit_lt_two_pow (hx.trans_le (Nat.pow_le_pow_right (by decide) (not_lt.mp hjw)))]
      simp
  · simp [hj]

/-- **A block as a mask.** -/
theorem and_mask_eq_iff (hx : x < 2 ^ w) (hk : k ≤ w) (hc : 2 ^ k ∣ c) :
    x &&& (2 ^ w - 2 ^ k) = c ↔ (⟨c, w - k⟩ : Block w).Contains x := by
  obtain ⟨q, rfl⟩ := hc
  have hpos := Nat.two_pow_pos k
  rw [and_mask hx hk, Block.Contains, Nat.sub_sub_self hk, Nat.mul_div_cancel_left _ hpos, Nat.mul_comm,
    Nat.mul_right_inj hpos.ne']

end Cidr
